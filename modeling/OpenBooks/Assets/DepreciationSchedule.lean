import OpenBooks.Lib.Checked
import OpenBooks.Money.DecimalReaders

/-!
# Depreciation by formula

A depreciation schedule is computed from a formula the user wrote (`computeScheduleByFormula`). In
each nominal period the formula is evaluated on what has been charged so far, scaled by the
first-period convention, rounded to money, and cut to what is left to depreciate.

The formula may evaluate to anything: it is compiled by a parameter of which nothing is assumed. The
schedule stays within the depreciable base all the same (`periodCharge_within`), period by period,
and uses it up where it should (`schedule_by_any_formula`).
-/

namespace OpenBooks

open Checked List

/-! ### Formula values -/

/-- Formula values have twelve places. -/
def EXACT_SCALE : ℤ := 10 ^ 12

/-- Formula units in one unit of money. -/
def MONEY_TO_EXACT : ℤ := 10 ^ 8

/-- Read a decimal into formula units, rounding half up in magnitude behind the twelfth
place. -/
def exactUnits (value : String) : Except String ℤ := do
  let m ← orRefuse (matchDecimal (trim value.toList)) ("not a decimal number: \"" ++ value ++ "\"")
  let parts := pointedDigits m.whole m.fraction (m.exponent.getD 0)
  let kept := padEndZeros 12 (parts.2.take 12)
  let rounds := (parts.2.drop 12).head?.any fun c => '5' ≤ c
  let units := digitsValue parts.1 * EXACT_SCALE + digitsValue kept + if rounds then 1 else 0
  return if m.negative then -units else units

/-- The shortest text of formula units. -/
def exactString (units : ℤ) : String :=
  let absolute := units.natAbs
  let fraction := (((padStart 12 '0' (toString (absolute % 10 ^ 12))).toList.reverse.dropWhile
    (· = '0'))).reverse
  (if units < 0 then "-" else "") ++ toString (absolute / 10 ^ 12) ++
    if fraction = [] then "" else "." ++ String.ofList fraction

example : exactString 1500000000000 = "1.5" := by decide +kernel

def mulExact (a b : ℤ) : ℤ := roundDiv (a * b) EXACT_SCALE

/-- What a formula is evaluated on. -/
structure DepContext where
  OC : String
  CC : String
  NB : String
  RV : String
  AL : String
  CP : String
  TD : String
  LD : String
  CU : String
  LU : String
  DH : String
  DP : String
  FY : String
  PB : String
  RL : Option String
  R : Option (List String)

/-! ### The schedule -/

def MAX_DEPRECIATION_PERIODS : ℕ := 12000

/-- A whole number of periods within bounds. -/
def depreciationPeriodCount (value : ℕ) : Except String ℕ := do
  refuseIf (value < 1 ∨ MAX_DEPRECIATION_PERIODS < value)
    ("Depreciation periods must be a whole number between 1 and " ++
      toString MAX_DEPRECIATION_PERIODS)
  return value

inductive EndOfLife
  | fullyDepreciate
  | retainBalance
  deriving DecidableEq

structure FormulaScheduleInput where
  cost : ℤ
  salvage : ℤ
  lifePeriods : ℕ
  formula : String
  endOfLife : Option EndOfLife
  usage : Option (List String)
  lifetimeUsage : Option String
  rateTable : Option (List String)
  firstPeriodFraction : Option String
  firstFractionPeriods : Option ℕ

structure FormulaScheduleLine where
  sequence : ℕ
  planned : ℤ
  accumulated : ℤ
  netBookValue : ℤ

/-- What a schedule is computed from, read and checked. -/
structure ScheduleTerms where
  cost : ℤ
  salvage : ℤ
  life : ℕ
  fractionPeriods : ℕ
  endOfLife : EndOfLife
  usage : List String
  lifetimeUsage : ℤ
  rateTable : Option (List String)
  firstPeriodFraction : ℤ
  deriving DecidableEq

/-- The units of a lifetime, or else all the units of the usage. -/
def lifetimeUsageOf (input : FormulaScheduleInput) : Except String ℤ :=
  match input.lifetimeUsage with
  | some lifetimeUsage => exactUnits lifetimeUsage
  | none => (input.usage.getD []).foldlM (fun total usage => do
      let units ← exactUnits usage
      return total + units) 0

def scheduleTerms (life fractionPeriods : ℕ) (input : FormulaScheduleInput) :
    Except String ScheduleTerms := do
  let lifetimeUsage ← lifetimeUsageOf input
  let firstPeriodFraction ← exactUnits (input.firstPeriodFraction.getD "1")
  refuseIf (firstPeriodFraction < 0 ∨ EXACT_SCALE < firstPeriodFraction)
    "first-period fraction must be between zero and one"
  return ⟨input.cost, input.salvage, life, fractionPeriods,
    input.endOfLife.getD .fullyDepreciate, input.usage.getD [], lifetimeUsage, input.rateTable,
    firstPeriodFraction⟩

namespace ScheduleTerms

variable (terms : ScheduleTerms)

/-- The periods a convention adds: as many as it withholds charges of. -/
def extension : ℕ :=
  if terms.firstPeriodFraction < EXACT_SCALE ∧ terms.endOfLife = .fullyDepreciate then
    max 1 (roundDiv (terms.fractionPeriods * (EXACT_SCALE - terms.firstPeriodFraction))
      EXACT_SCALE).toNat
  else 0

def totalPeriods : ℕ := terms.life + terms.extension

/-- The leading periods that are charged in part. -/
def reduced : ℕ := if terms.firstPeriodFraction < EXACT_SCALE then terms.fractionPeriods else 0

/-- Full-charge periods left from a period on. -/
def remainingLife (period : ℕ) : ℤ :=
  let reducedLeft : ℤ := max 0 ((terms.reduced : ℤ) - period + 1)
  let fullLeft : ℤ := (terms.totalPeriods : ℤ) - max (period : ℤ) (terms.reduced + 1) + 1
  reducedLeft * terms.firstPeriodFraction + (if 0 < fullLeft then fullLeft else 0) * EXACT_SCALE

end ScheduleTerms

/-- What a schedule has come to. -/
structure ScheduleState where
  lines : List FormulaScheduleLine
  accumulated : ℤ
  last : ℤ

/-- The evaluator of a compiled formula. -/
abbrev FormulaNode := DepContext → Except String ℤ

/-- What the formula is evaluated on in a nominal period. -/
def ScheduleTerms.context (terms : ScheduleTerms) (currentPeriod : ℕ) (state : ScheduleState) :
    DepContext where
  OC := fromUnits terms.cost
  CC := fromUnits terms.cost
  NB := fromUnits (terms.cost - state.accumulated)
  RV := fromUnits terms.salvage
  AL := toString terms.life
  CP := toString currentPeriod
  TD := fromUnits state.accumulated
  LD := fromUnits state.last
  CU := terms.usage.getD (currentPeriod - 1) "0"
  LU := exactString terms.lifetimeUsage
  DH := "1"
  DP := "1"
  FY := "12"
  PB := "0"
  RL := some (exactString (terms.remainingLife currentPeriod))
  R := terms.rateTable

/-- The charge of a formula value: scaled in a reduced period, rounded to money, and cut to what
is left. -/
def ScheduleTerms.nominalCharge (terms : ScheduleTerms) (currentPeriod : ℕ)
    (remaining evaluated : ℤ) : ℤ :=
  let scaled :=
    if currentPeriod ≤ terms.fractionPeriods ∧ terms.firstPeriodFraction < EXACT_SCALE then
      mulExact evaluated terms.firstPeriodFraction
    else evaluated
  let charge := roundDiv scaled MONEY_TO_EXACT
  let charge := if charge < 0 then 0 else charge
  if remaining < charge then remaining else charge

def periodCharge (evaluate : FormulaNode) (terms : ScheduleTerms) (currentPeriod : ℕ)
    (state : ScheduleState) : Except String ℤ :=
  let netBookValue := terms.cost - state.accumulated
  let remaining := netBookValue - terms.salvage
  if terms.endOfLife = .fullyDepreciate ∧ currentPeriod = terms.totalPeriods then .ok remaining
  else if terms.life < currentPeriod then
    -- a period the convention added: what is left is spread evenly
    .ok (roundDiv remaining ((terms.totalPeriods : ℤ) - currentPeriod + 1))
  else do
    let evaluated ← evaluate (terms.context currentPeriod state)
    return terms.nominalCharge currentPeriod remaining evaluated

def ScheduleState.charged (state : ScheduleState) (cost : ℤ) (currentPeriod : ℕ) (charge : ℤ) :
    ScheduleState where
  lines := state.lines ++ [⟨currentPeriod - 1, charge, state.accumulated + charge,
    cost - (state.accumulated + charge)⟩]
  accumulated := state.accumulated + charge
  last := charge

def periodLine (evaluate : FormulaNode) (terms : ScheduleTerms) (state : ScheduleState)
    (currentPeriod : ℕ) : Except String ScheduleState := do
  let charge ← periodCharge evaluate terms currentPeriod state
  return state.charged terms.cost currentPeriod charge

/-- The schedule after some periods. -/
def scheduleAfter (evaluate : FormulaNode) (terms : ScheduleTerms) (periods : ℕ) :
    Except String ScheduleState :=
  (List.range' 1 periods).foldlM (periodLine evaluate terms) ⟨[], 0, 0⟩

/-- Compute a schedule, with a compiler of formulas. -/
def computeScheduleByFormula (compileExactFormula : String → Except String FormulaNode)
    (input : FormulaScheduleInput) : Except String (List FormulaScheduleLine) := do
  let life ← depreciationPeriodCount input.lifePeriods
  let fractionPeriods ← depreciationPeriodCount (input.firstFractionPeriods.getD 1)
  if input.cost - input.salvage ≤ 0 then return []
  else
    let evaluate ← compileExactFormula input.formula
    let terms ← scheduleTerms life fractionPeriods input
    let state ← scheduleAfter evaluate terms terms.totalPeriods
    return state.lines

/-! ### Within the base -/

variable {evaluate : FormulaNode} {terms : ScheduleTerms} {state state' : ScheduleState}
  {currentPeriod : ℕ} {charge : ℤ}

/-- What a formula charges is cut to what is left, whatever its value. -/
theorem ScheduleTerms.nominalCharge_within {remaining : ℤ} (h : 0 ≤ remaining) (evaluated : ℤ) :
    0 ≤ terms.nominalCharge currentPeriod remaining evaluated ∧
      terms.nominalCharge currentPeriod remaining evaluated ≤ remaining := by
  unfold ScheduleTerms.nominalCharge
  dsimp only
  generalize roundDiv _ MONEY_TO_EXACT = rounded
  constructor <;> split_ifs <;> omega

/-- **No period charges less than nothing or more than is left.** -/
theorem periodCharge_within (hleft : 0 ≤ terms.cost - state.accumulated - terms.salvage)
    (hperiod : currentPeriod ≤ terms.totalPeriods)
    (h : periodCharge evaluate terms currentPeriod state = .ok charge) :
    0 ≤ charge ∧ charge ≤ terms.cost - state.accumulated - terms.salvage := by
  unfold periodCharge at h
  dsimp only at h
  split_ifs at h
  · cases h
    exact ⟨hleft, le_rfl⟩
  · cases h
    have hcount : 0 < (terms.totalPeriods : ℤ) - currentPeriod + 1 := by omega
    rw [roundDiv_eq_round]
    refine ⟨HalfAway.round_nonneg hcount hleft, HalfAway.round_le_of_le_mul hcount ?_⟩
    exact le_mul_of_one_le_right hleft (by omega)
  · obtain ⟨evaluated, -, hcharge⟩ := bind_eq_ok.mp h
    obtain rfl := pure_eq_ok.mp hcharge
    exact ScheduleTerms.nominalCharge_within hleft evaluated

/-- Lines that carry their own running sum. -/
def RunningLines (cost salvage : ℤ) (lines : List FormulaScheduleLine) : Prop :=
  ∀ i line, lines[i]? = some line →
    line.sequence = i ∧ 0 ≤ line.planned ∧
      line.accumulated = ((lines.take (i + 1)).map FormulaScheduleLine.planned).sum ∧
      line.netBookValue = cost - line.accumulated ∧ salvage ≤ line.netBookValue

/-- What a schedule has come to after some periods. -/
structure WithinBase (terms : ScheduleTerms) (periods : ℕ) (state : ScheduleState) : Prop where
  length : state.lines.length = periods
  sum : (state.lines.map FormulaScheduleLine.planned).sum = state.accumulated
  nonneg : 0 ≤ state.accumulated
  le_base : state.accumulated ≤ terms.cost - terms.salvage
  running : RunningLines terms.cost terms.salvage state.lines

/-- **A line within what is left keeps the schedule within the base.** -/
theorem WithinBase.charged {periods : ℕ} (h : WithinBase terms periods state) (hcharge : 0 ≤ charge)
    (hleft : charge ≤ terms.cost - state.accumulated - terms.salvage) :
    WithinBase terms (periods + 1) (state.charged terms.cost (periods + 1) charge) where
  length := by simp [ScheduleState.charged, h.length]
  sum := by simp [ScheduleState.charged, h.sum]
  nonneg := add_nonneg h.nonneg hcharge
  le_base := by
    simp only [ScheduleState.charged]
    omega
  running := by
    intro i line hline
    simp only [ScheduleState.charged] at hline ⊢
    rcases lt_trichotomy i state.lines.length with hi | hi | hi
    · rw [getElem?_append_left hi] at hline
      rw [take_append_of_le_length hi]
      exact h.running i line hline
    · subst hi
      rw [getElem?_append_right le_rfl, Nat.sub_self] at hline
      obtain rfl := Option.some.inj hline
      rw [take_of_length_le (by simp), map_append, sum_append, h.sum]
      refine ⟨?_, hcharge, by simp, rfl, ?_⟩
      · rw [h.length]
        rfl
      · dsimp only
        omega
    · rw [getElem?_eq_none (by simp; omega)] at hline
      cases hline

theorem scheduleAfter_succ (evaluate : FormulaNode) (terms : ScheduleTerms) (periods : ℕ) :
    scheduleAfter evaluate terms (periods + 1) = (do
      let state ← scheduleAfter evaluate terms periods
      periodLine evaluate terms state (periods + 1)) := by
  rw [scheduleAfter, range'_1_concat, foldlM_append, add_comm 1 periods]
  simp [scheduleAfter]

/-- A schedule whose formula evaluates in each nominal period runs, and stays within the
base. -/
theorem exists_scheduleAfter (hbase : 0 ≤ terms.cost - terms.salvage)
    (heval : ∀ period < terms.life, ∀ state, scheduleAfter evaluate terms period = .ok state →
      ∃ value, evaluate (terms.context (period + 1) state) = .ok value) (periods : ℕ)
    (hperiods : periods ≤ terms.totalPeriods) :
    ∃ state, scheduleAfter evaluate terms periods = .ok state ∧
      WithinBase terms periods state := by
  induction periods with
  | zero => exact ⟨_, rfl, rfl, rfl, le_rfl, hbase, fun i line hline => by simp at hline⟩
  | succ periods ih =>
    obtain ⟨state, hstate, hwithin⟩ := ih (by omega)
    have hleft : 0 ≤ terms.cost - state.accumulated - terms.salvage := by
      have := hwithin.le_base
      omega
    have hcharge : ∃ charge, periodCharge evaluate terms (periods + 1) state = .ok charge := by
      unfold periodCharge
      dsimp only
      split_ifs with hlast htail
      · exact ⟨_, rfl⟩
      · exact ⟨_, rfl⟩
      · obtain ⟨value, hvalue⟩ := heval periods (by omega) state hstate
        rw [hvalue]
        exact ⟨_, rfl⟩
    obtain ⟨charge, hcharge⟩ := hcharge
    obtain ⟨hnonneg, hle⟩ := periodCharge_within hleft hperiods hcharge
    refine ⟨state.charged terms.cost (periods + 1) charge, ?_, hwithin.charged hnonneg hle⟩
    rw [scheduleAfter_succ, hstate, ok_bind, periodLine, hcharge]
    rfl

/-- **The last period of an asset to be depreciated fully takes the rest.** -/
theorem accumulated_of_fullyDepreciate (hend : terms.endOfLife = .fullyDepreciate)
    (hpositive : 0 < terms.totalPeriods)
    (h : scheduleAfter evaluate terms terms.totalPeriods = .ok state) :
    state.accumulated = terms.cost - terms.salvage := by
  obtain ⟨periods, hperiods⟩ : ∃ periods, terms.totalPeriods = periods + 1 :=
    ⟨terms.totalPeriods - 1, by omega⟩
  rw [hperiods, scheduleAfter_succ] at h
  obtain ⟨before, -, hline⟩ := bind_eq_ok.mp h
  obtain ⟨charge, hcharge, hstate⟩ := bind_eq_ok.mp hline
  obtain rfl := pure_eq_ok.mp hstate
  rw [periodCharge, if_pos ⟨hend, hperiods.symm⟩] at hcharge
  obtain rfl := Except.ok.inj hcharge
  simp only [ScheduleState.charged]
  ring

/-- **A schedule by any formula stays within the depreciable base.** Its charges are not
negative, each line carries the running sum and the book value it leaves, which is never below
salvage; and in all it charges the base, or no more than the base where a balance is
retained. -/
theorem schedule_by_any_formula {compileExactFormula : String → Except String FormulaNode}
    {input : FormulaScheduleInput} {life fractionPeriods : ℕ}
    (hcost : input.salvage < input.cost)
    (hlife : depreciationPeriodCount input.lifePeriods = .ok life)
    (hfraction : depreciationPeriodCount (input.firstFractionPeriods.getD 1) =
      .ok fractionPeriods)
    (hterms : scheduleTerms life fractionPeriods input = .ok terms)
    (hcompiles : compileExactFormula input.formula = .ok evaluate)
    (heval : ∀ period < terms.life, ∀ state, scheduleAfter evaluate terms period = .ok state →
      ∃ value, evaluate (terms.context (period + 1) state) = .ok value) :
    ∃ rows, computeScheduleByFormula compileExactFormula input = .ok rows ∧
      rows.length = terms.totalPeriods ∧
      RunningLines input.cost input.salvage rows ∧
      (input.endOfLife.getD .fullyDepreciate = .fullyDepreciate →
        (rows.map FormulaScheduleLine.planned).sum = input.cost - input.salvage) ∧
      (rows.map FormulaScheduleLine.planned).sum ≤ input.cost - input.salvage := by
  have hread : terms.cost = input.cost ∧ terms.salvage = input.salvage ∧
      terms.endOfLife = input.endOfLife.getD .fullyDepreciate ∧ terms.life = life := by
    simp only [scheduleTerms, bind_eq_ok, refuseIf_eq_ok, pure_eq_ok] at hterms
    obtain ⟨_, -, _, -, _, -, rfl⟩ := hterms
    exact ⟨rfl, rfl, rfl, rfl⟩
  obtain ⟨hcost', hsalvage', hend, hlife'⟩ := hread
  have hpositive : 0 < life := by
    simp only [depreciationPeriodCount, bind_eq_ok, refuseIf_eq_ok, pure_eq_ok] at hlife
    obtain ⟨_, hrange, rfl⟩ := hlife
    omega
  obtain ⟨state, hstate, hwithin⟩ := exists_scheduleAfter
    (by rw [hcost', hsalvage']; omega) heval terms.totalPeriods le_rfl
  rw [← hcost', ← hsalvage']
  refine ⟨state.lines, ?_, hwithin.length, hwithin.running, fun hfully => ?_, ?_⟩
  · rw [computeScheduleByFormula, hlife, ok_bind, hfraction, ok_bind, if_neg (by omega), hcompiles,
      ok_bind, hterms, ok_bind, hstate]
    rfl
  · rw [hwithin.sum]
    refine accumulated_of_fullyDepreciate (hend.trans hfully) ?_ hstate
    rw [ScheduleTerms.totalPeriods, hlife']
    omega
  · rw [hwithin.sum]
    exact hwithin.le_base

/-- An asset of 100 with a salvage of 10 over two periods, half of the first withheld. -/
def twoPeriodInput : FormulaScheduleInput :=
  ⟨1000000, 100000, 2, "(OC - RV) / AL", none, none, none, none, some "0.5", none⟩

example :
    (computeScheduleByFormula (fun _ => .ok fun _ => .ok 45000000000000) twoPeriodInput).map
      (fun rows => rows.map FormulaScheduleLine.planned) = .ok [225000, 450000, 225000] := by
  decide +kernel

theorem schedule_by_any_formula_twoPeriodInput :
    ∃ rows, computeScheduleByFormula (fun _ => .ok fun _ => .ok 45000000000000) twoPeriodInput =
        .ok rows ∧
      rows.length = 3 ∧
      RunningLines 1000000 100000 rows ∧
      ((none : Option EndOfLife).getD .fullyDepreciate = .fullyDepreciate →
        (rows.map FormulaScheduleLine.planned).sum = 1000000 - 100000) ∧
      (rows.map FormulaScheduleLine.planned).sum ≤ 1000000 - 100000 := by
  have hterms : scheduleTerms 2 1 twoPeriodInput =
      .ok ⟨1000000, 100000, 2, 1, .fullyDepreciate, [], 0, none, 500000000000⟩ := by
    decide +kernel
  exact schedule_by_any_formula (by decide) rfl rfl hterms rfl fun _ _ _ _ => ⟨_, rfl⟩

end OpenBooks
