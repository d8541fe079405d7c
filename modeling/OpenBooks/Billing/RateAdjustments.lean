import OpenBooks.Billing.UsageRating
import OpenBooks.Lib.ListSum

/-!
# Pricing a rate card's adjustments

The adjustments of a rate card that bill as their own line are priced from the lines they measure
(`OpenBooks.priceAdjustments`), department by department, and charges for one adjustment are folded
into one and priced again from the combined basis (`OpenBooks.mergeCharges`). A percentage lands on
the cent, rounded half up or down.

Down is two roundings: to the nearest ten-thousandth, then towards zero to the cent. The first may
go up, and where it goes up to a whole cent the second keeps it – the customer is charged more than
the percentage, which is what rounding down was there to prevent. `OpenBooks.percentCharge_iff` says
when.

Amounts are in ten-thousandths and quantities in hundred-millionths.
-/

namespace OpenBooks

open Checked List ListSum

/-! ### Percentages -/

structure RateAdjustmentPricingError where
  message : String
  deriving DecidableEq

/-- 10 decimals: the stored scale of a percentage. -/
def PERCENT_SCALE : ℤ := 10000000000

/-- The percentage a text states, in the units of that scale. -/
def percentUnits (percent : List Char) : Except RateAdjustmentPricingError ℤ :=
  let supplied := "\"" ++ String.ofList percent ++ "\""
  match matchDecimal (trim percent) with
  | some ⟨negative, whole, fraction, none⟩ =>
    let magnitude := digitsValue whole * PERCENT_SCALE + digitsValue (padEndZeros 10 fraction)
    if 10 < fraction.length then
      .error ⟨"percentage loses precision beyond 10 decimal places: " ++ supplied⟩
    else .ok (if negative then -magnitude else magnitude)
  | _ => .error ⟨"not a percentage value: " ++ supplied⟩

/-- A percentage of money, rounded once. -/
def mulPercentExact (amount : ℤ) (percent : List Char) (decimalPlaces : ℕ) :
    Except RateAdjustmentPricingError ℤ := do
  let units ← percentUnits percent
  return roundDiv (amount * units) (100 * PERCENT_SCALE * quantum decimalPlaces) *
    quantum decimalPlaces

/-- `/^-?0*(\.0*)?$/`, without white space around it or a plus before it. -/
def isZeroValue (value : List Char) : Bool :=
  let unsigned := match trim value with
    | '+' :: '-' :: rest | '+' :: rest | '-' :: rest | rest => rest
  match unsigned.dropWhile (· = '0') with
  | [] => true
  | c :: zeros => c = '.' && zeros.all (· = '0')

/-- How a percentage charge lands on the cent. -/
inductive AdjustmentRounding where
  | halfUp
  | down
  deriving DecidableEq

/-- Truncate toward zero at the cent. -/
def floorToCents (amount : ℤ) : ℤ :=
  let floored := |amount| / 100 * 100
  if amount < 0 then -floored else floored

/-! ### Adjustments and lines -/

inductive AdjustmentCalculation where
  | percent
  | fixed
  | perHour
  | perDay
  | distance
  | time
  | text
  deriving DecidableEq

inductive AdjustmentPresentation where
  | included
  | separate
  | informational
  deriving DecidableEq

structure AdjustmentTarget where
  targetType : String
  targetValueId : Option String := none
  targetValueText : Option String := none
  deriving DecidableEq

/-- An adjustment; one that states no value has the empty one. -/
structure ResolvedAdjustment where
  id : String
  code : String
  calculation : AdjustmentCalculation
  value : List Char
  presentation : AdjustmentPresentation
  threshold : Option ℤ := none
  appliesRegular : Bool := true
  appliesOvertime : Bool := true
  appliesDoubleTime : Bool := true
  sortOrder : ℤ := 0
  targets : List AdjustmentTarget := []
  deriving DecidableEq

inductive TimeKind where
  | regular
  | overtime
  | doubleTime
  deriving DecidableEq

structure AdjustableLine where
  amount : ℤ
  quantity : ℤ := 0
  workedOn : Option String := none
  itemId : Option String := none
  itemKind : Option String := none
  itemCategory : Option String := none
  tradeIds : List String := []
  jobTitles : List String := []
  departmentId : Option String := none
  customerId : Option String := none
  projectId : Option String := none
  subsidiaryId : Option String := none
  locationId : Option String := none
  classId : Option String := none
  isLabor : Bool := false
  timeKind : Option TimeKind := none

/-- What a line is there for a target that names it; what is missing never matches. -/
def isTarget (own target : Option String) : Bool := own.any (· ≠ "") && own = target

/-- One of the names of a line is the target's. -/
def hasTarget (own : List String) (target : Option String) : Bool :=
  target.any fun name => name ≠ "" && own.contains name

/-- The target types of an adjustment, with what a line needs to be measured by one. -/
def matchTarget (line : AdjustableLine) (t : AdjustmentTarget) : Option Bool :=
  match t.targetType with
  | "labor" => some line.isLabor
  | "material" => some !line.isLabor
  | "item" => some (isTarget line.itemId t.targetValueId)
  | "item_kind" => some (isTarget line.itemKind t.targetValueText)
  | "item_category" => some (isTarget line.itemCategory t.targetValueText)
  | "trade" => some (hasTarget line.tradeIds t.targetValueId)
  | "job_title" => some (hasTarget line.jobTitles t.targetValueText)
  | "department" => some (isTarget line.departmentId t.targetValueId)
  | "customer" => some (isTarget line.customerId t.targetValueId)
  | "project" => some (isTarget line.projectId t.targetValueId)
  | "subsidiary" => some (isTarget line.subsidiaryId t.targetValueId)
  | "location" => some (isTarget line.locationId t.targetValueId)
  | "class" => some (isTarget line.classId t.targetValueId)
  | _ => none

def lineMatchesAdjustment (line : AdjustableLine) (adjustment : ResolvedAdjustment) : Bool :=
  if line.timeKind = some .regular ∧ ¬adjustment.appliesRegular ∨
      line.timeKind = some .overtime ∧ ¬adjustment.appliesOvertime ∨
      line.timeKind = some .doubleTime ∧ ¬adjustment.appliesDoubleTime then false
  else if adjustment.targets = [] then line.isLabor
  else adjustment.targets.any fun t => (matchTarget line t).getD false

/-! ### Charges -/

structure AdjustmentCharge where
  adjustment : ResolvedAdjustment
  basis : ℤ
  amount : ℤ
  quantityBasis : Option ℤ := none
  deriving DecidableEq

def moneyValue (value : List Char) : Except RateAdjustmentPricingError ℤ :=
  orRefuse (toUnits value) ⟨"not a money amount: \"" ++ String.ofList value ++ "\""⟩

def percentAmount (rounding : AdjustmentRounding) (basis : ℤ) (value : List Char) :
    Except RateAdjustmentPricingError ℤ :=
  match rounding with
  | .down => floorToCents <$> mulPercentExact basis value 4
  | .halfUp => mulPercentExact basis value 2

/-- Whether an adjustment bills a quantity. -/
def isUnitPriced (adjustment : ResolvedAdjustment) : Bool :=
  adjustment.calculation = .perHour || adjustment.calculation = .perDay

/-- What an adjustment charges for a basis or a quantity. -/
def chargeAmount (rounding : AdjustmentRounding) (adjustment : ResolvedAdjustment)
    (basis quantity : ℤ) : Except RateAdjustmentPricingError ℤ :=
  if adjustment.calculation = .percent then percentAmount rounding basis adjustment.value
  else do
    let value ← moneyValue adjustment.value
    return if isUnitPriced adjustment then mulDecimalFactors value [quantityFactor quantity]
      else value

def matchedLines (adjustment : ResolvedAdjustment) (lines : List AdjustableLine) :
    List AdjustableLine :=
  lines.filter (lineMatchesAdjustment · adjustment)

def basisOf (adjustment : ResolvedAdjustment) (lines : List AdjustableLine) : ℤ :=
  ((matchedLines adjustment lines).map AdjustableLine.amount).sum

/-- The quantity billed: hours sum, days count distinct dates. -/
def totalQty (adjustment : ResolvedAdjustment) (lines : List AdjustableLine) : ℤ :=
  let matched := matchedLines adjustment lines
  match adjustment.calculation with
  | .perHour => (matched.map AdjustableLine.quantity).sum
  | .perDay => ((matched.filterMap AdjustableLine.workedOn).filter (· ≠ "")).dedup.length *
      QUANTITY_UNITS
  | _ => 0

/-- What comes to no charge. A threshold is a floor on the basis, not on the charge. -/
def hasNoCharge (adjustment : ResolvedAdjustment) (lines : List AdjustableLine) : Bool :=
  adjustment.calculation = .text || adjustment.value = [] || isZeroValue adjustment.value ||
    matchedLines adjustment lines = [] || adjustment.threshold.any (basisOf adjustment lines < ·)

/-- A refusal that names the adjustment. -/
def adjustmentRefusal (adjustment : ResolvedAdjustment) (text : String) :
    RateAdjustmentPricingError :=
  ⟨"rate card adjustment \"" ++ adjustment.code ++ "\" " ++ text⟩

/-- The charge of an adjustment for a basis and a quantity. -/
def chargeOf (rounding : AdjustmentRounding) (adjustment : ResolvedAdjustment)
    (basis quantity : ℤ) : Except RateAdjustmentPricingError AdjustmentCharge :=
  (fun amount => ⟨adjustment, basis, amount,
    if isUnitPriced adjustment then some quantity else none⟩) <$>
    chargeAmount rounding adjustment basis quantity

/-- The charge of one adjustment, if it has one. -/
def priceAdjustment (lines : List AdjustableLine) (rounding : AdjustmentRounding)
    (adjustment : ResolvedAdjustment) :
    Except RateAdjustmentPricingError (List AdjustmentCharge) :=
  let quantity := totalQty adjustment lines
  if adjustment.presentation ≠ .separate then .ok []
  else do
    adjustment.targets.forM fun target => refuseIf ((matchTarget { amount := 0 } target).isNone)
      (adjustmentRefusal adjustment ("has unsupported target \"" ++ target.targetType ++
        "\" — edit the card to use a supported invoice-line target before invoicing"))
    refuseIf (adjustment.calculation = .distance ∨ adjustment.calculation = .time)
      (adjustmentRefusal adjustment ("uses unknown calculation \"" ++
        (if adjustment.calculation = .time then "time" else "distance") ++
        "\" — add a pricing case or remove it from the card before invoicing"))
    if hasNoCharge adjustment lines then return []
    else do
      refuseIf (isUnitPriced adjustment ∧ quantity = 0) (adjustmentRefusal adjustment (
        (if adjustment.calculation = .perHour then "prices per hour but its lines carry no hours"
          else "prices per day but its lines carry no work dates") ++
        " — correct the card or the source lines before invoicing"))
      let charge ← chargeOf rounding adjustment (basisOf adjustment lines) quantity
      return if charge.amount = 0 then [] else [charge]

def priceAdjustments (lines : List AdjustableLine) (adjustments : List ResolvedAdjustment)
    (rounding : AdjustmentRounding) : Except RateAdjustmentPricingError (List AdjustmentCharge) :=
  collect (priceAdjustment lines rounding) adjustments

/-- A charge folded into the one for the same adjustment. -/
def foldCharge (merged : List AdjustmentCharge) (c : AdjustmentCharge) : List AdjustmentCharge :=
  if merged.any (·.adjustment.id = c.adjustment.id) then
    merged.map fun prior =>
      if prior.adjustment.id = c.adjustment.id then
        { prior with
          basis := prior.basis + c.basis
          quantityBasis := match c.quantityBasis with
            | some quantity => some (prior.quantityBasis.getD 0 + quantity)
            | none => prior.quantityBasis }
      else prior
  else merged ++ [c]

/-- A charge priced once off its combined basis. -/
def repriceCharge (rounding : AdjustmentRounding) (c : AdjustmentCharge) :
    Except RateAdjustmentPricingError AdjustmentCharge :=
  if c.adjustment.value ≠ [] ∧ (c.adjustment.calculation = .percent ∨
      isUnitPriced c.adjustment ∧ c.quantityBasis.isSome) then
    (fun amount => { c with amount }) <$>
      chargeAmount rounding c.adjustment c.basis (c.quantityBasis.getD 0)
  else .ok c

def mergeCharges (charges : List AdjustmentCharge) (rounding : AdjustmentRounding) :
    Except RateAdjustmentPricingError (List AdjustmentCharge) := do
  let merged ← (charges.foldl foldCharge []).mapM (repriceCharge rounding)
  return merged.mergeSort (·.adjustment.sortOrder ≤ ·.adjustment.sortOrder)

/-! ### Landing on the cent -/

variable {rounding : AdjustmentRounding} {a : ResolvedAdjustment} {lines : List AdjustableLine}
  {charges : List AdjustmentCharge} {c : AdjustmentCharge}

/-- Whether an adjustment has a charge for lines, which their share does not round to nothing. -/
def isCharged (rounding : AdjustmentRounding) (adjustment : ResolvedAdjustment)
    (lines : List AdjustableLine) : Bool :=
  adjustment.presentation = .separate && !hasNoCharge adjustment lines &&
    (chargeAmount rounding adjustment (basisOf adjustment lines)
      (totalQty adjustment lines)).toOption.any (· ≠ 0)

theorem priceAdjustment_spec (h : priceAdjustment lines rounding a = .ok charges) :
    ([lines].filter (isCharged rounding a)).mapM
      (fun ls => chargeOf rounding a (basisOf a ls) (totalQty a ls)) = .ok charges := by
  rw [priceAdjustment] at h
  by_cases hseparate : a.presentation = .separate
  · rw [if_neg (not_not.mpr hseparate)] at h
    simp only [bind_eq_ok] at h
    obtain ⟨_, -, _, -, h⟩ := h
    cases hnone : hasNoCharge a lines
    · simp only [hnone, Bool.false_eq_true, if_false, bind_eq_ok] at h
      obtain ⟨_, -, c, hc, h⟩ := h
      obtain ⟨amount, hamount, rfl⟩ := map_eq_ok.mp hc
      obtain rfl := pure_eq_ok.mp h
      by_cases hzero : amount = 0
      · simp [isCharged, hseparate, hnone, hamount, hzero, Except.toOption, pure, Except.pure]
      · simp [isCharged, hseparate, hnone, hamount, hzero, Except.toOption, hc]
    · rw [hnone, if_pos rfl] at h
      obtain rfl := pure_eq_ok.mp h
      simp [isCharged, hnone, pure, Except.pure]
  · rw [if_pos hseparate] at h
    cases h
    simp [isCharged, hseparate, pure, Except.pure]

/-- A percentage charge is a percentage of its own basis. -/
theorem amount_of_priceAdjustments {adjustments : List ResolvedAdjustment}
    (h : priceAdjustments lines adjustments rounding = .ok charges) :
    ∀ c ∈ charges, c.adjustment.calculation = .percent →
      percentAmount rounding c.basis c.adjustment.value = .ok c.amount := by
  refine forall_of_collect h fun a priced hpriced c hc hpercent => ?_
  obtain ⟨ls, -, h⟩ := exists_left_of_forall₂ (mapM_eq_ok.mp (priceAdjustment_spec hpriced)) hc
  obtain ⟨amount, hamount, rfl⟩ := map_eq_ok.mp h
  rwa [chargeAmount, if_pos hpercent] at hamount

theorem amount_of_mergeCharges {parts : List AdjustmentCharge}
    (h : mergeCharges parts rounding = .ok charges) (hc : c ∈ charges)
    (hpercent : c.adjustment.calculation = .percent) (hvalue : c.adjustment.value ≠ []) :
    percentAmount rounding c.basis c.adjustment.value = .ok c.amount := by
  rw [mergeCharges, bind_eq_ok] at h
  obtain ⟨merged, hmerged, h⟩ := h
  obtain rfl := pure_eq_ok.mp h
  obtain ⟨prior, -, hreprice⟩ := exists_left_of_forall₂ (mapM_eq_ok.mp hmerged)
    (mem_mergeSort.mp hc)
  rw [repriceCharge] at hreprice
  split_ifs at hreprice with hreprices
  · obtain ⟨amount, hamount, rfl⟩ := map_eq_ok.mp hreprice
    rwa [chargeAmount, if_pos hpercent] at hamount
  · cases hreprice
    exact absurd ⟨hvalue, .inl hpercent⟩ hreprices

/-- One, of an amount in ten-thousandths times a percentage in ten-billionths. -/
def PERCENT_UNIT : ℤ := 1000000000000

/-- What a charge of a percentage lands on, as its rounding promises. -/
def LandsOnCent (rounding : AdjustmentRounding) (c : AdjustmentCharge) (units : ℤ) : Prop :=
  match rounding with
  | .halfUp => c.amount = HalfAway.round (c.basis * units) (100 * PERCENT_UNIT) * 100
  | .down => |c.amount| * PERCENT_UNIT ≤ |c.basis * units| ∧
      |c.basis * units| < (|c.amount| + 100) * PERCENT_UNIT

theorem abs_floorToCents (amount : ℤ) : |floorToCents amount| = |amount| / 100 * 100 := by
  have hfloored : 0 ≤ |amount| / 100 * 100 := by positivity
  rw [floorToCents]
  split_ifs
  · rw [abs_neg, abs_of_nonneg hfloored]
  · exact abs_of_nonneg hfloored

theorem abs_round (n : ℤ) : |HalfAway.round n PERCENT_UNIT| = HalfAway.round |n| PERCENT_UNIT := by
  have hpos : 0 < PERCENT_UNIT := by decide
  rcases abs_cases n with ⟨h, hn⟩ | ⟨h, hn⟩
  · rw [h, abs_of_nonneg (HalfAway.round_nonneg hpos hn)]
  · rw [h, HalfAway.round_neg hpos, abs_of_nonpos (HalfAway.round_nonpos hpos hn.le)]

/-- **A percentage rounded down overcharges just when it is less than half a hundredth of a cent
short of a whole cent.** Rounded half up it is the product rounded once. -/
theorem percentCharge_iff {units : ℤ}
    (hcharges : (∃ lines adjustments, priceAdjustments lines adjustments rounding = .ok charges) ∨
      ∃ parts, mergeCharges parts rounding = .ok charges)
    (hc : c ∈ charges) (hpercent : c.adjustment.calculation = .percent)
    (hunits : percentUnits c.adjustment.value = .ok units) :
    LandsOnCent rounding c units ↔ (rounding = .down →
      |c.basis * units| % (100 * PERCENT_UNIT) < 100 * PERCENT_UNIT - PERCENT_UNIT / 2) := by
  have hvalue : c.adjustment.value ≠ [] := by
    intro h
    rw [h] at hunits
    cases hunits
  have hamount : percentAmount rounding c.basis c.adjustment.value = .ok c.amount := by
    rcases hcharges with ⟨lines, adjustments, h⟩ | ⟨parts, h⟩
    · exact amount_of_priceAdjustments h c hc hpercent
    · exact amount_of_mergeCharges h hc hpercent hvalue
  cases rounding with
  | halfUp =>
    simp only [percentAmount, mulPercentExact, hunits, ok_bind, pure_eq_ok] at hamount
    simp [LandsOnCent, ← hamount, roundDiv_eq_round, quantum, PERCENT_SCALE, PERCENT_UNIT]
  | down =>
    simp only [percentAmount, mulPercentExact, hunits, ok_bind, pure_eq_ok, map_eq_ok] at hamount
    obtain ⟨_, rfl, hfloor⟩ := hamount
    have habs : |c.amount| = HalfAway.round |c.basis * units| PERCENT_UNIT / 100 * 100 := by
      rw [← hfloor, abs_floorToCents, roundDiv_eq_round, ← abs_round]
      simp [quantum, PERCENT_SCALE, PERCENT_UNIT]
    have hexact := abs_nonneg (c.basis * units)
    rw [HalfAway.round_of_nonneg hexact] at habs
    simp only [LandsOnCent, habs, PERCENT_UNIT, forall_const]
    omega

/-- A fuel line of a percentage just short of one. -/
def fuel : ResolvedAdjustment where
  id := "fuel"
  code := "FUEL"
  calculation := .percent
  value := "1.00999996".toList
  presentation := .separate

theorem percentCharge_iff_fuel : LandsOnCent .halfUp ⟨fuel, 1000000, 10100, none⟩ 10099999600 :=
  (@percentCharge_iff .halfUp [⟨fuel, 1000000, 10100, none⟩] _ _
    (.inl ⟨[{ amount := 1000000, isLabor := true }], [fuel], by decide +kernel⟩)
    mem_cons_self rfl (by decide +kernel)).mpr nofun

/-- 1.00999996 % of a hundred is charged as 1.01. -/
theorem percentCharge_overcharges : ¬∀ lines adjustments charges c units,
    priceAdjustments lines adjustments .down = .ok charges → c ∈ charges →
    c.adjustment.calculation = .percent → percentUnits c.adjustment.value = .ok units →
    LandsOnCent .down c units := by
  intro h
  have hdown := h [{ amount := 1000000, isLabor := true }] [fuel] [⟨fuel, 1000000, 10100, none⟩]
    ⟨fuel, 1000000, 10100, none⟩ 10099999600 (by decide +kernel) mem_cons_self rfl
    (by decide +kernel)
  exact absurd hdown.1 (by decide)

end OpenBooks
