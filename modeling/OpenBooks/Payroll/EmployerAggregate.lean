import OpenBooks.Lib.Checked
import OpenBooks.Money.DecimalText

/-!
# Employer-aggregate levies

A levy on what an employer pays in total, assessed stub by stub. What a stub owes depends on what
earlier stubs have already put through the levy, and it learns of that only through the factors they
were stamped with: the amount under the levy's factor key, the base under the same key with `_EARN`.

A levy declares where its base comes from, when it is assessed, at what rate and against which
allowance. `assertAggregateLeviesValid` is what a declaration must pass; `assessAggregateLevyStub`
prices one stub, and `assessStubs` one after another from an empty history.

Amounts are whole ten-thousandths. Percentages are the texts they are declared as.
-/

namespace OpenBooks

open Checked

/-! ### The declaration -/

inductive AggregateBaseSource
  | gross
  | taxable
  | pensionable
  deriving DecidableEq

inductive AggregateScope
  | org
  | region
  deriving DecidableEq

inductive AggregateTiming
  | perRun
  | annual
  deriving DecidableEq

/-- One marginal band: base up to `upTo` prices at `percent`; none tops out. -/
structure AggregateBand where
  upTo : Option ℤ
  percent : String

/-- The band table of one employer class, selected by a flag. -/
structure AggregateClassBands where
  flag : String
  bands : List AggregateBand

inductive AggregateRate
  | flatPercent (percent : String)
  | marginalBands (bands : Option (List AggregateBand)) (classBands : List AggregateClassBands)
  | tenantSlot (slotKey percentField : String)

inductive AggregateAllowance
  | nothing
  | employerAllowance (amount : ℤ)
  | perEmployeeCap (amount : ℤ)
  | accruingAllowance (factKey : String) (yearStartMonth yearStartDay : ℤ)
  deriving DecidableEq

/-- The word a rate's kind is declared by. -/
def AggregateRate.kind : AggregateRate → String
  | .flatPercent _ => "flat_percent"
  | .marginalBands _ _ => "marginal_bands"
  | .tenantSlot _ _ => "tenant_slot"

/-- The word an allowance's kind is declared by. -/
def AggregateAllowance.kind : AggregateAllowance → String
  | .nothing => "none"
  | .employerAllowance _ => "employer_allowance"
  | .perEmployeeCap _ => "per_employee_cap"
  | .accruingAllowance _ _ _ => "accruing_allowance"

def AggregateRate.isFlat : AggregateRate → Bool
  | .flatPercent _ => true
  | _ => false

def AggregateAllowance.isShelter : AggregateAllowance → Bool
  | .employerAllowance _ => true
  | _ => false

def AggregateAllowance.isCap : AggregateAllowance → Bool
  | .perEmployeeCap _ => true
  | _ => false

structure PeriodFloor where
  weekly : String
  monthly : String
  annual : String

structure AggregateBase where
  source : AggregateBaseSource
  scope : AggregateScope
  periodFloor : Option PeriodFloor

/-- An employer exclusion: the slot and the flag that zeroes the assessment. -/
structure AggregateExclusion where
  slotKey : String
  flagField : String

/-- A spend offset: the slot and the field of the qualifying spend. -/
structure AggregateOffset where
  slotKey : String
  amountField : String

/-- One contribution levied on the employer aggregate. -/
structure AggregateLevy where
  key : String
  systemKey : String
  base : AggregateBase
  timing : AggregateTiming
  rate : AggregateRate
  allowance : AggregateAllowance
  classSlotKey : Option String
  excludedBy : Option AggregateExclusion
  offset : Option AggregateOffset
  factorKey : String

inductive LevyError
  | pack (message : String)
  | money (message : String)
  deriving DecidableEq

/-! ### What is accepted -/

/-- The shared request grammar constrained to a non-negative exact value. -/
def canonicalNonNegativeDecimal (value : String) : Option ExactDecimal :=
  (parseExactDecimalParts value.toList false).filter fun d => 0 ≤ d.units

/-- A percentage that is there, and is not negative. -/
def assertPercent (subject value : String) : Except LevyError Unit := do
  refuseIf (value = "") (.pack (subject ++ " declares no percent"))
  refuseIf (canonicalNonNegativeDecimal value).isNone (.pack (subject ++ " declares percent \"" ++
    value ++ "\" — a percent is a non-negative number, as the agency states it"))

/-- Uppercase letters, digits and underscores, a letter first, at most 32. -/
def isFactorKey (key : String) : Bool :=
  match key.toList with
  | [] => false
  | c :: cs => c.isUpper && cs.length ≤ 31 && cs.all fun c => c.isUpper || c.isDigit || c = '_'

def levyName (levy : AggregateLevy) : String := "employer-aggregate levy \"" ++ levy.key ++ "\""

/-- The bands of a table from one on: each ceiling above the one before, and only the last
without one. -/
def assertBandsFrom (subject : String) : ℕ → ℤ → List AggregateBand → Except LevyError Unit
  | _, _, [] => .ok ()
  | index, floor, band :: bands => do
    assertPercent (subject ++ " band " ++ toString (index + 1)) band.percent
    match band.upTo with
    | none => do
      refuseIf (bands ≠ []) (.pack (subject ++ " ends a band table mid-table — " ++
        "only the top band is open-ended"))
      assertBandsFrom subject (index + 1) floor bands
    | some upTo => do
      refuseIf (upTo ≤ floor) (.pack (subject ++ " band " ++ toString (index + 1) ++ " ends at " ++
        fromUnits upTo ++ " — band ceilings must rise"))
      assertBandsFrom subject (index + 1) upTo bands

/-- Bands that rise, under an open one. -/
def assertBands (subject : String) (bands : List AggregateBand) : Except LevyError Unit := do
  assertBandsFrom subject 0 0 bands
  refuseIf (∃ band ∈ bands.getLast?, band.upTo ≠ none) (.pack (subject ++
    " has no open top band — base above the top ceiling would be priced by nothing; " ++
    "declare the top band open"))

/-- A rate that can be priced. -/
def assertRateValid (levy : AggregateLevy) : Except LevyError Unit :=
  match levy.rate with
  | .flatPercent percent => assertPercent (levyName levy) percent
  | .tenantSlot slotKey percentField =>
    refuseIf (slotKey = "" ∨ percentField = "") (.pack (levyName levy ++
      " reads its rate from a slot with no slot or field — " ++
      "name the tenant-entered slot holding the percent"))
  | .marginalBands bands classBands => do
    refuseIf (bands.getD [] = [] ∧ classBands = []) (.pack (levyName levy ++
      " declares marginal bands with no bands — declare at least one band"))
    (bands.toList ++ classBands.map (·.bands)).forM (assertBands (levyName levy))
    refuseIf (∃ entry ∈ classBands, entry.flag = "") (.pack (levyName levy ++
      " declares a class band set with no flag — name the employer-class flag selecting it"))
    refuseIf (classBands ≠ [] ∧ levy.classSlotKey.getD "" = "") (.pack (levyName levy ++
      " declares class bands with no class slot — " ++
      "name the org-scope slot holding the employer-class flags, or the classes can never match"))

/-- An allowance that is not negative, or names its fact. -/
def assertAllowanceValid (levy : AggregateLevy) : Except LevyError Unit :=
  match levy.allowance with
  | .nothing => .ok ()
  | .employerAllowance amount | .perEmployeeCap amount =>
    refuseIf (amount < 0) (.pack (levyName levy ++ " declares a negative allowance — " ++
      "an allowance is money already sheltered, never less than zero"))
  | .accruingAllowance factKey _ _ =>
    refuseIf (factKey = "") (.pack (levyName levy ++ " accrues an allowance with no fact — " ++
      "name the subsidiary-scoped employer fact holding the annual allocated share"))

/-- A pensionable base declares the year's floors. -/
def assertBaseValid (levy : AggregateLevy) : Except LevyError Unit :=
  let floors := match levy.base.periodFloor with
    | some f => [("weekly", f.weekly), ("monthly", f.monthly), ("annual", f.annual)]
    | none => [("weekly", ""), ("monthly", ""), ("annual", "")]
  onlyIf (levy.base.source = .pensionable) (floors.forM fun floor =>
    refuseIf (canonicalNonNegativeDecimal floor.2).isNone (.pack (levyName levy ++
      " prices a pensionable base with no " ++ floor.1 ++ " period floor — " ++
      "declare the year's weekly, monthly and annual floors")))

/-- A spend offset settles annually, above an employer allowance, from a named slot. -/
def assertOffsetValid (levy : AggregateLevy) : Except LevyError Unit :=
  match levy.offset with
  | none => .ok ()
  | some offset => do
    refuseIf (levy.timing ≠ .annual) (.pack (levyName levy ++
      " pairs a spend offset with per-run assessment — " ++
      "spend is only knowable at year end, so an offset levy settles annually"))
    refuseIf (levy.allowance.isShelter = false) (.pack (levyName levy ++
      " offsets spend against \"" ++ levy.allowance.kind ++
      "\" — a spend offset reduces the base above an employer allowance, nothing else"))
    refuseIf (offset.slotKey = "" ∨ offset.amountField = "") (.pack (levyName levy ++
      " declares a spend offset with no slot or field — " ++
      "name the org-scope slot holding the qualifying spend"))

/-- An accruing allowance is set against a flat percent, per run, from a day of the year. -/
def assertAccrualValid (levy : AggregateLevy) : Except LevyError Unit :=
  match levy.allowance with
  | .accruingAllowance _ month day => do
    refuseIf (levy.rate.isFlat = false) (.pack (levyName levy ++
      " accrues its allowance at rate kind \"" ++ levy.rate.kind ++
      "\" — an accruing allowance prices the cumulative base at a flat percent"))
    refuseIf (levy.timing ≠ .perRun) (.pack (levyName levy ++
      " accrues its allowance annually — " ++
      "an accruing allowance prices stub by stub against the months elapsed"))
    refuseIf (month < 1 ∨ 12 < month ∨ day < 1 ∨ 31 < day) (.pack (levyName levy ++
      " accrues from tax-year start " ++ toString month ++ "/" ++ toString day ++
      " — declare the month 1–12 and the day 1–31 the agency's year opens on"))
  | _ => .ok ()

def assertAggregateLevyValid (levy : AggregateLevy) : Except LevyError Unit := do
  refuseIf (levy.key = "") (.pack "an employer-aggregate levy declares no key")
  refuseIf (isFactorKey levy.factorKey = false) (.pack (levyName levy ++
    " declares factor key \"" ++ levy.factorKey ++
    "\" — factor keys are uppercase letters, digits and underscores"))
  refuseIf (levy.systemKey = "") (.pack (levyName levy ++ " declares no system key — " ++
    "the levy must point at a seeded employer-contribution component"))
  assertBaseValid levy
  assertRateValid levy
  assertAllowanceValid levy
  assertOffsetValid levy
  refuseIf (∃ e ∈ levy.excludedBy, e.slotKey = "" ∨ e.flagField = "") (.pack (levyName levy ++
    " declares an employer exclusion with no slot or flag — " ++
    "name the org-scope slot flag holding the exempt class"))
  refuseIf (levy.timing = .annual ∧ levy.allowance.isCap = true)
    (.pack (levyName levy ++ " settles annually against a per-employee cap — " ++
      "a personal cap is enforced stub by stub, per run"))
  assertAccrualValid levy

def earnKey (levy : AggregateLevy) : String := levy.factorKey ++ "_EARN"

/-- Every levy of a pack's list, cross-checked: no key twice, and no factor twice. -/
def assertAggregateLeviesValid (levies : List AggregateLevy) : Except LevyError Unit := do
  let _ ← levies.foldlM (fun (seen : List String × List String) levy => do
    assertAggregateLevyValid levy
    refuseIf (levy.key ∈ seen.1) (.pack ("duplicate employer-aggregate levy key \"" ++ levy.key ++
      "\" — keys are the commit-fence identity"))
    let factors ← [levy.factorKey, earnKey levy].foldlM (fun factors factor => do
      refuseIf (factor ∈ factors) (.pack (levyName levy ++ " reuses factor \"" ++ factor ++
        "\" — year-to-date would accumulate two levies into one"))
      return factors ++ [factor]) seen.2
    return (seen.1 ++ [levy.key], factors)) ([], [])

/-! ### One stub -/

/-- What the run has resolved before a stub is assessed. -/
structure AggregateStubPriors where
  employerPriorBase : ℤ
  employeePriorBase : ℤ
  /-- Values the employer entered, by slot and field. -/
  tenantValues : String → String → Option String
  /-- Levy already paid, the annual allowance and the months elapsed. -/
  accruing : Option (ℤ × ℤ × ℕ)

/-- One stub's share of a levy. -/
structure AggregateStubAssessment where
  amount : ℤ
  assessable : ℤ
  factors : List (String × ℤ)

def ZERO_ASSESSMENT : AggregateStubAssessment := ⟨0, 0, []⟩

/-- Whether the employer is of a class that the levy exempts. -/
def isExcluded (levy : AggregateLevy) (priors : AggregateStubPriors) : Bool :=
  levy.excludedBy.any fun e => priors.tenantValues e.slotKey e.flagField = some "true"

/-- The kernel's product with a percentage text, to the cent. -/
def mulPercentText (amount : ℤ) (percent : String) : Except LevyError ℤ :=
  match parseExactDecimalParts percent.toList false with
  | some d =>
    if h : d.scale ≤ 18 then .ok (mulPercent amount ⟨d.units, d.scale, h⟩ 2)
    else .error (.money ("not a plain percentage with at most 18 decimal places: \"" ++ percent ++
      "\""))
  | none => .error (.money ("not a plain percentage with at most 18 decimal places: \"" ++
      percent ++ "\""))

/-- Where the priced part of a stub starts, and how much it is. -/
def pricedSlice (levy : AggregateLevy) (stubBase prior : ℤ) : Except LevyError (ℤ × ℤ) :=
  match levy.allowance with
  | .nothing => .ok (prior, stubBase)
  | .employerAllowance amount =>
    let priceFrom := if amount ≤ prior then prior else amount
    let stop := prior + stubBase
    .ok (priceFrom, if priceFrom < stop then stop - priceFrom else 0)
  | .perEmployeeCap amount =>
    let headroom := if prior < amount then amount - prior else 0
    .ok (prior, if stubBase ≤ headroom then stubBase else headroom)
  | .accruingAllowance _ _ _ => .error (.pack (levyName levy ++
      " prices allowance kind \"accruing_allowance\" marginally — engine defect"))

/-- The band table that applies to this employer. -/
def selectBands (levy : AggregateLevy) (tenantValues : String → String → Option String)
    (bands : Option (List AggregateBand)) (classBands : List AggregateClassBands) :
    Except LevyError (List AggregateBand) :=
  match classBands.filter fun entry =>
      tenantValues (levy.classSlotKey.getD "") entry.flag = some "true" with
  | [entry] => .ok entry.bands
  | [] => orRefuse bands (.pack (levyName levy ++
      " matches no employer class and declares no default bands — " ++
      "refusing to price an unclassifiable employer"))
  | entries => .error (.pack (levyName levy ++ " matches " ++ toString entries.length ++
      " employer classes — one employer holds one class for this levy"))

/-- Walk the marginal bands from a position to the end; the prices of the slices, and how far
the walk came. -/
def walkBands (stop : ℤ) : ℤ → List AggregateBand → Except LevyError (ℤ × List ℤ)
  | cursor, [] => .ok (cursor, [])
  | cursor, band :: bands =>
    if stop ≤ cursor then .ok (cursor, [])
    else
      let ceiling := band.upTo.getD stop
      let sliceEnd := if ceiling ≤ stop then ceiling else stop
      if cursor < sliceEnd then do
        let slice ← mulPercentText (sliceEnd - cursor) band.percent
        let rest ← walkBands stop sliceEnd bands
        return (rest.1, slice :: rest.2)
      else walkBands stop cursor bands

def UNPRICED : LevyError := .pack "marginal band walk left base unpriced"

/-- The price of a slice, band by band, with nothing left over. -/
def priceMarginal (position assessable : ℤ) (bands : List AggregateBand) : Except LevyError ℤ := do
  let walked ← walkBands (position + assessable) position bands
  refuseIf (walked.1 < position + assessable) UNPRICED
  return walked.2.sum

/-- Price the stub's slice at the bands covering it, or at the flat rate. -/
def priceBase (levy : AggregateLevy) (priors : AggregateStubPriors) (position assessable : ℤ) :
    Except LevyError ℤ :=
  match levy.rate with
  | .flatPercent percent => mulPercentText assessable percent
  | .tenantSlot slotKey percentField => do
    let raw ← orRefuse ((priors.tenantValues slotKey percentField).filter (· ≠ ""))
      (.pack (levyName levy ++ " reads its rate from slot \"" ++ slotKey ++
        "\" — the employer has configured no rate for this year"))
    assertPercent (levyName levy ++ " tenant rate") raw
    mulPercentText assessable raw
  | .marginalBands bands classBands => do
    let table ← selectBands levy priors.tenantValues bands classBands
    priceMarginal position assessable table

/-- One twelfth of the annual share per elapsed tax month, to the cent in a single step. -/
def accruedAllowance (allowanceAnnual : ℤ) (monthsElapsed : ℕ) : ℤ :=
  roundDiv (allowanceAnnual * monthsElapsed) 1200 * 100

/-- The flat percent of the whole base to date, less the allowance accrued, less what is already
paid; never below zero. -/
def assessAccruingAllowance (levy : AggregateLevy) (stubBase : ℤ) (priors : AggregateStubPriors) :
    Except LevyError AggregateStubAssessment :=
  match priors.accruing, levy.rate with
  | none, _ => .error (.pack (levyName levy ++
      " prices an accruing allowance with no resolved accrual inputs — engine defect"))
  | some (priorAmount, allowanceAnnual, monthsElapsed), .flatPercent percent => do
    let levyPart ← mulPercentText (priors.employerPriorBase + stubBase) percent
    let due := levyPart - accruedAllowance allowanceAnnual monthsElapsed - priorAmount
    let amount := if 0 < due then due else 0
    return ⟨amount, stubBase, [(levy.factorKey, amount), (earnKey levy, stubBase)]⟩
  | some _, rate => .error (.pack (levyName levy ++
      " prices an accruing allowance at rate kind \"" ++ rate.kind ++
      "\" — an accruing allowance prices the cumulative base at a flat percent"))

/-- The slice of a stub that a shelter or a ceiling leaves, priced. -/
def assessMarginal (levy : AggregateLevy) (stubBase : ℤ) (priors : AggregateStubPriors) :
    Except LevyError AggregateStubAssessment := do
  let prior :=
    if levy.allowance.isCap then priors.employeePriorBase else priors.employerPriorBase
  let slice ← pricedSlice levy stubBase prior
  -- past a shelter the whole stub counts on, past a ceiling only what was priced
  if slice.2 ≤ 0 then
    return if levy.allowance.isShelter then
      ⟨0, 0, [(levy.factorKey, 0), (earnKey levy, stubBase)]⟩ else ZERO_ASSESSMENT
  else do
    let amount ← priceBase levy priors slice.1 slice.2
    let earn := if levy.allowance.isShelter then stubBase else slice.2
    return ⟨amount, slice.2, [(levy.factorKey, amount), (earnKey levy, earn)]⟩

/-- One stub's share of one levy, assessed in calculation order. -/
def assessAggregateLevyStub (levy : AggregateLevy) (stubBase : ℤ) (priors : AggregateStubPriors) :
    Except LevyError AggregateStubAssessment := do
  if levy.timing = .annual ∨ stubBase ≤ 0 then return ZERO_ASSESSMENT
  else do
    assertAggregateLevyValid levy
    if isExcluded levy priors then return ZERO_ASSESSMENT
    else match levy.allowance with
      | .accruingAllowance _ _ _ => assessAccruingAllowance levy stubBase priors
      | _ => assessMarginal levy stubBase priors

/-! ### Stub after stub -/

def stamped (key : String) (history : List AggregateStubAssessment) : ℤ :=
  (history.map fun a => (a.factors.lookup key).getD 0).sum

/-- What an employer's run brings to every stub. -/
structure AggregateRun where
  levy : AggregateLevy
  tenantValues : String → String → Option String
  allowanceAnnual : ℤ
  monthsElapsed : ℕ

/-- The priors of the next stub: the factors of the stubs before it. -/
def AggregateRun.priors (run : AggregateRun) (history : List AggregateStubAssessment) :
    AggregateStubPriors :=
  { employerPriorBase := stamped (earnKey run.levy) history
    employeePriorBase := stamped (earnKey run.levy) history
    tenantValues := run.tenantValues
    accruing := some (stamped run.levy.factorKey history, run.allowanceAnnual,
      run.monthsElapsed) }

/-- Assess stubs one after another, each with the factors of the ones before. -/
def assessStubs (run : AggregateRun) (bases : List ℤ) :
    Except LevyError (List AggregateStubAssessment) :=
  bases.foldlM (fun history stubBase => do
    let assessment ← assessAggregateLevyStub run.levy stubBase (run.priors history)
    return history ++ [assessment]) []

end OpenBooks
