import Mathlib.Algebra.Order.BigOperators.Group.List
import Mathlib.Data.Set.Finite.Lemmas
import Mathlib.Data.Set.Finite.List
import OpenBooks.Payroll.DeductionProtection

/-!
# Contribution limits

A contribution is a rate of a basis: a percentage of gross pay, or an amount an hour. Its
limits cap the basis. A limit on hours drops the hours over an allowance, and a limit on money
is turned back into the largest basis that fits it (`BasisCaps.basisWithin`). Both
that division and the room are cut downwards, so the amount of such a basis is rounded to no
more than the room (`BasisCaps.amountForBasis_le`), and of a percentage up to a
hundred it is rounded back to all of it (`BasisCaps.amountForBasis_eq`).
-/

namespace OpenBooks.BasisCaps

open Checked DeductionProtection List Option

/-! ### Components -/

inductive CapBasis
  | fixedAmount
  | perHour
  | percentOfGross
  deriving DecidableEq

/-- A component with its rate, in ten-billionths, and its limits. A negative limit is not
stored. -/
structure BasisCapComponent where
  basis : CapBasis
  value : ℤ
  basisCapHoursPerPeriod : Option ℤ := none
  basisCapAmountPerPeriod : Option ℤ := none
  basisCapAmountPerYear : Option ℤ := none
  caps_nonneg : ∀ caps ∈ [basisCapHoursPerPeriod, basisCapAmountPerPeriod, basisCapAmountPerYear],
    ∀ cap ∈ caps, 0 ≤ cap := by simp

/-- An hours-bearing line behind the basis. -/
structure BasisCapLine where
  hours : ℤ
  amount : Option ℤ := none
  exemptFromHoursCap : Bool := false

structure BasisCapContext where
  currencyMinorUnits : ℤ := 2
  lines : Option (List BasisCapLine) := none
  periodToDate : ℤ := 0
  yearToDate : ℤ := 0

/-- The amount of a basis as a ratio. -/
def unitRate (component : BasisCapComponent) : ℤ × ℤ :=
  match component.basis with
  | .percentOfGross => (component.value, 100 * RATE_SCALE)
  | .perHour => (component.value, RATE_SCALE)
  | .fixedAmount => (SCALE, SCALE)

/-- The largest basis whose amount still fits inside `room`. -/
def basisWithin (room : ℤ) (rate : ℤ × ℤ) (minorUnits : ℕ) : ℤ :=
  let roomUnits := room.tdiv (quantum minorUnits) * quantum minorUnits
  (roomUnits * rate.2).tdiv rate.1

/-- Hours of one line out of the allowance; what is over it is dropped. -/
def capLine (hoursBasis : Bool) (state : ℤ × ℤ) (line : BasisCapLine) :
    Except String (ℤ × ℤ) := do
  if line.exemptFromHoursCap then return state
  let hours ← requireNonNegative line.hours "line hours"
  if hours = 0 then return state
  let taken := lesser hours state.1
  let excess := hours - taken
  if excess = 0 then return (state.1 - taken, state.2)
  if hoursBasis then return (state.1 - taken, state.2 + excess)
  let amount ← requireNonNegative (line.amount.getD 0) "a line amount"
  return (state.1 - taken, state.2 + mulRatio amount excess hours)

def capHours (component : BasisCapComponent) (lines : Option (List BasisCapLine)) (capped : ℤ) :
    Except String ℤ :=
  match component.basisCapHoursPerPeriod with
  | none => return capped
  | some hoursCap =>
    if 0 ≤ hoursCap then do
      let lines ← orRefuse lines "an hours-capped component needs the hours behind its basis"
      let allowance ← requireNonNegative hoursCap "an hours cap"
      let final ← lines.foldlM (capLine (component.basis = .perHour)) (allowance, 0)
      return atLeastZero (capped - final.2)
    else return capped

def capAmount (rate : ℤ × ℤ) (minorUnits : ℕ) (capped : ℤ) (cap : Option ℤ) (taken : ℤ) :
    Except String ℤ :=
  match cap with
  | none => return capped
  | some cap => do
    let cap ← requireNonNegative cap "an amount cap"
    let taken ← requireNonNegative taken "an amount already taken"
    return lesser capped (basisWithin (atLeastZero (cap - taken)) rate minorUnits)

/-- Cap the basis a component computes on. -/
def applyBasisCaps (component : BasisCapComponent) (basis : ℤ) (context : BasisCapContext) :
    Except String ℤ := do
  refuseIf (context.currencyMinorUnits < 0 ∨ 4 < context.currencyMinorUnits)
    ("A component money cap needs supported currency precision — resolve its registered " ++
      "payable quantum before calculating.")
  let minorUnits := context.currencyMinorUnits.toNat
  let basis ← requireNonNegative basis "a component basis"
  let capped ← capHours component context.lines basis
  let rate := unitRate component
  if 0 < rate.1 then
    let capped ← capAmount rate minorUnits capped component.basisCapAmountPerPeriod
      context.periodToDate
    capAmount rate minorUnits capped component.basisCapAmountPerYear context.yearToDate
  else return capped

def amountForBasis (component : BasisCapComponent) (basis : ℤ) : ℤ :=
  if component.basis = .percentOfGross then mulPercent basis ⟨component.value, 10, by decide⟩ 2
  else (basis * (unitRate component).1).tdiv (unitRate component).2

/-! ### A year -/

structure PayPeriod where
  basis : ℤ
  lines : List BasisCapLine

/-- A period's capped basis and amount, after what earlier periods took. -/
structure Settled where
  taken : ℤ
  period : PayPeriod
  capped : ℤ
  amount : ℤ

def takePeriod (component : BasisCapComponent) (taken : ℤ) (period : PayPeriod) :
    Except String Settled := do
  let capped ← applyBasisCaps component period.basis
    { lines := some period.lines, yearToDate := taken }
  return ⟨taken, period, capped, amountForBasis component capped⟩

def takeYear (component : BasisCapComponent) (taken : ℤ) :
    List PayPeriod → Except String (List Settled)
  | [] => return []
  | period :: periods => do
    let settled ← takePeriod component taken period
    let rest ← takeYear component (taken + settled.amount) periods
    return settled :: rest

/-! ### Amounts and rooms -/

section Rates

variable {component : BasisCapComponent} {room x : ℤ}

theorem unitRate_den_nonneg (component : BasisCapComponent) : 0 ≤ (unitRate component).2 := by
  unfold unitRate
  cases component.basis <;> norm_num [SCALE, RATE_SCALE]

theorem basisWithin_eq (hroom : 0 ≤ room) :
    basisWithin room (unitRate component) 2 =
      room / 100 * 100 * (unitRate component).2 / (unitRate component).1 := by
  have hwhole : 0 ≤ room / 100 * 100 := by omega
  rw [basisWithin, show quantum 2 = 100 from rfl, Int.tdiv_eq_ediv_of_nonneg hroom,
    Int.tdiv_eq_ediv_of_nonneg (mul_nonneg hwhole (unitRate_den_nonneg component))]

theorem basisWithin_nonneg (hrate : 0 < (unitRate component).1) (hroom : 0 ≤ room) :
    0 ≤ basisWithin room (unitRate component) 2 := by
  have hwhole : 0 ≤ room / 100 * 100 := by omega
  rw [basisWithin_eq hroom]
  exact Int.ediv_nonneg (mul_nonneg hwhole (unitRate_den_nonneg component)) hrate.le

theorem basisWithin_mono (hrate : 0 < (unitRate component).1) {more : ℤ} (hroom : 0 ≤ room)
    (h : room ≤ more) :
    basisWithin room (unitRate component) 2 ≤ basisWithin more (unitRate component) 2 := by
  have hwhole : room / 100 * 100 ≤ more / 100 * 100 := by omega
  rw [basisWithin_eq hroom, basisWithin_eq (hroom.trans h)]
  exact Int.ediv_le_ediv hrate (mul_le_mul_of_nonneg_right hwhole (unitRate_den_nonneg component))

theorem amountForBasis_percent (hbasis : component.basis = .percentOfGross) :
    amountForBasis component x =
      HalfAway.round (x * component.value) (100 * RATE_SCALE * 100) * 100 := by
  rw [amountForBasis, if_pos hbasis, mulPercent, roundDiv_eq_round]
  rfl

theorem amountForBasis_perHour (hbasis : component.basis = .perHour) (hvalue : 0 < component.value)
    (hx : 0 ≤ x) : amountForBasis component x = x * component.value / RATE_SCALE := by
  rw [amountForBasis, if_neg (by rw [hbasis]; decide), unitRate, hbasis]
  exact Int.tdiv_eq_ediv_of_nonneg (mul_nonneg hx hvalue.le)

/-- A positive rate of a basis that is not an amount itself. -/
structure BasisCapComponent.Rated (component : BasisCapComponent) : Prop where
  basis : component.basis ≠ .fixedAmount
  value : 0 < component.value

theorem BasisCapComponent.Rated.rate (h : component.Rated) : 0 < (unitRate component).1 := by
  have hvalue := h.value
  have hbasis := h.basis
  unfold unitRate
  cases hcase : component.basis with
  | fixedAmount => exact absurd hcase hbasis
  | perHour | percentOfGross => exact hvalue

/-- **The amount of a basis that fits the room is at most the room.** -/
theorem amountForBasis_le (h : component.Rated) (hroom : 0 ≤ room) (hx : 0 ≤ x)
    (hfits : x ≤ basisWithin room (unitRate component) 2) :
    amountForBasis component x ≤ room := by
  have hvalue := h.value
  rw [basisWithin_eq hroom, Int.le_ediv_iff_mul_le h.rate] at hfits
  cases hbasis : component.basis with
  | fixedAmount => exact absurd hbasis h.basis
  | perHour =>
    rw [amountForBasis_perHour hbasis hvalue hx]
    simp only [unitRate, hbasis] at hfits
    have hle := Int.ediv_le_ediv RATE_SCALE_pos hfits
    rw [Int.mul_ediv_cancel _ RATE_SCALE_pos.ne'] at hle
    omega
  | percentOfGross =>
    rw [amountForBasis_percent hbasis]
    simp only [unitRate, hbasis] at hfits
    have hround := HalfAway.round_le_of_le_mul (k := room / 100)
      (show 0 < 100 * RATE_SCALE * 100 by decide) (hfits.trans_eq (by ring))
    omega

theorem amountForBasis_nonneg (h : component.Rated) (hx : 0 ≤ x) :
    0 ≤ amountForBasis component x := by
  have hprod := mul_nonneg hx h.value.le
  cases hbasis : component.basis with
  | fixedAmount => exact absurd hbasis h.basis
  | perHour =>
    rw [amountForBasis_perHour hbasis h.value hx]
    exact Int.ediv_nonneg hprod RATE_SCALE_pos.le
  | percentOfGross =>
    rw [amountForBasis_percent hbasis]
    exact mul_nonneg (HalfAway.round_nonneg (by decide) hprod) (by decide)

/-- **The amount of the largest basis that fits the room is the room** to the cent: what the
division cuts is less than a ten-thousandth of the amount. -/
theorem amountForBasis_eq (hbasis : component.basis = .percentOfGross)
    (hvalue : 0 < component.value) (hrate : component.value ≤ 100 * RATE_SCALE)
    (hroom : 0 ≤ room) :
    amountForBasis component (basisWithin room (unitRate component) 2) = room / 100 * 100 := by
  rw [amountForBasis_percent hbasis, basisWithin_eq hroom]
  simp only [unitRate, hbasis]
  have hnonneg : 0 ≤ room / 100 * 100 * (100 * RATE_SCALE) :=
    mul_nonneg (by omega) (by decide)
  have hlow := Int.ediv_mul_le (room / 100 * 100 * (100 * RATE_SCALE)) hvalue.ne'
  have hhigh := Int.lt_ediv_add_one_mul_self (room / 100 * 100 * (100 * RATE_SCALE)) hvalue
  rw [add_mul, one_mul] at hhigh
  rw [HalfAway.round_of_nonneg (mul_nonneg (Int.ediv_nonneg hnonneg hvalue.le) hvalue.le)]
  rw [RATE_SCALE] at *
  omega

end Rates

/-! ### Hours -/

/-- Hours that do not count against an allowance. -/
def exemptHours (lines : List BasisCapLine) : ℤ :=
  (lines.map fun line => if line.exemptFromHoursCap then line.hours else 0).sum

def totalHours (lines : List BasisCapLine) : ℤ := (lines.map BasisCapLine.hours).sum

theorem requireNonNegative_eq_ok {value result : ℤ} {label : String} :
    requireNonNegative value label = .ok result ↔ 0 ≤ value ∧ value = result := by
  simp [requireNonNegative]

theorem capLine_ok {hoursBasis : Bool} {state after : ℤ × ℤ} {line : BasisCapLine}
    (h : capLine hoursBasis state line = .ok after) (hstate : 0 ≤ state.1) :
    0 ≤ after.1 ∧ state.2 ≤ after.2 ∧ (hoursBasis = true →
      after.2 - state.2 =
        (if line.exemptFromHoursCap then 0 else line.hours) - (state.1 - after.1)) := by
  unfold capLine at h
  by_cases hexempt : line.exemptFromHoursCap = true
  · obtain rfl := pure_eq_ok.mp ((if_pos hexempt).symm.trans h)
    simp [hexempt, hstate]
  rw [if_neg hexempt] at h
  obtain ⟨hours, hhours, h⟩ := bind_eq_ok.mp h
  obtain ⟨hnonneg, rfl⟩ := requireNonNegative_eq_ok.mp hhours
  dsimp only at h
  rw [lesser_eq_min] at h
  split_ifs at h with hzero hfits
  · obtain rfl := pure_eq_ok.mp h
    simp [hexempt, hstate, hzero]
  · obtain rfl := pure_eq_ok.mp h
    simp only [hexempt]
    grind
  · obtain rfl := pure_eq_ok.mp h
    simp only [hexempt]
    grind
  · obtain ⟨amount, hamount, h⟩ := bind_eq_ok.mp h
    obtain ⟨hnonneg', rfl⟩ := requireNonNegative_eq_ok.mp hamount
    obtain rfl := pure_eq_ok.mp h
    have hshare := HalfAway.round_nonneg (by omega : 0 < line.hours)
      (mul_nonneg hnonneg' (by omega : 0 ≤ line.hours - min line.hours state.1))
    rw [← roundDiv_eq_round] at hshare
    refine ⟨by omega, ?_, fun htrue => absurd htrue ‹_›⟩
    rw [mulRatio]
    omega

variable {component : BasisCapComponent} {capped : ℤ} {lines : List BasisCapLine}

/-- **A limit on hours never raises a basis**, and of a basis in hours it keeps the exempt
hours and at most the allowance. -/
theorem capHours_ok {basis : ℤ} (h : capHours component (some lines) basis = .ok capped)
    (hbasis : 0 ≤ basis) :
    0 ≤ capped ∧ capped ≤ basis ∧ (component.basis = .perHour → basis = totalHours lines →
      (∀ line ∈ lines, 0 ≤ line.hours) →
      ∀ cap ∈ component.basisCapHoursPerPeriod, capped ≤ exemptHours lines + cap) := by
  unfold capHours at h
  cases hcap : component.basisCapHoursPerPeriod with
  | none =>
    rw [hcap] at h
    obtain rfl := pure_eq_ok.mp h
    exact ⟨hbasis, le_rfl, fun _ _ _ cap hmem => nomatch hmem⟩
  | some cap =>
    have hcap0 : 0 ≤ cap := component.caps_nonneg _ mem_cons_self _ hcap
    rw [hcap] at h
    simp only [hcap0, if_true, bind_eq_ok, orRefuse_eq_ok, requireNonNegative_eq_ok] at h
    obtain ⟨_, hlines, _, ⟨-, rfl⟩, final, hfold, h⟩ := h
    cases hlines
    obtain rfl := pure_eq_ok.mp h
    obtain ⟨hleft, hdropped, hkept⟩ := foldlM_invariant
      (fun done state => 0 ≤ state.1 ∧ 0 ≤ state.2 ∧
        (decide (component.basis = .perHour) = true →
          totalHours done - state.2 = exemptHours done + (cap - state.1)))
      hfold ⟨hcap0, le_rfl, fun _ => by simp [totalHours, exemptHours]⟩
      fun done line rest state after _ h hstep => by
        obtain ⟨hleft, hdropped, hkept⟩ := h
        obtain ⟨hleft', hmore, hline⟩ := capLine_ok hstep hleft
        refine ⟨hleft', hdropped.trans hmore, fun hhours => ?_⟩
        have hkept := hkept hhours
        have hline := hline hhours
        simp only [totalHours, exemptHours, map_append, map_cons, map_nil,
          sum_append, sum_singleton] at hkept ⊢
        split_ifs at hline ⊢ <;> omega
    refine ⟨atLeastZero_nonneg _, ?_, ?_⟩
    · unfold atLeastZero
      split_ifs <;> omega
    · rintro hhours rfl hlines _ ⟨⟩
      have hkept := hkept (decide_eq_true hhours)
      have hexempt : 0 ≤ exemptHours lines := by
        refine List.sum_nonneg fun hours hmem => ?_
        obtain ⟨line, hline, rfl⟩ := mem_map.mp hmem
        split_ifs
        · exact hlines line hline
        · exact le_rfl
      unfold atLeastZero
      split_ifs <;> omega

/-! ### Limits over a year -/

/-- The component under its hours limit alone. -/
def BasisCapComponent.withoutAmountCaps (component : BasisCapComponent) : BasisCapComponent :=
  { basis := component.basis
    value := component.value
    basisCapHoursPerPeriod := component.basisCapHoursPerPeriod
    caps_nonneg := by
      have h := component.caps_nonneg _ List.mem_cons_self
      simpa using h }

/-- What each limit on money leaves, after what the year took. -/
def rooms (component : BasisCapComponent) (taken : ℤ) : List ℤ :=
  component.basisCapAmountPerPeriod.toList ++
    component.basisCapAmountPerYear.toList.map fun cap => cap - taken

structure Within (component : BasisCapComponent) (s : Settled) : Prop where
  nonneg : 0 ≤ s.amount
  basis : s.capped ≤ s.period.basis
  year : ∀ cap ∈ component.basisCapAmountPerYear, s.taken + s.amount ≤ cap
  period : ∀ cap ∈ component.basisCapAmountPerPeriod, s.amount ≤ cap
  hours : component.basis = .perHour → s.period.basis = totalHours s.period.lines →
    ∀ cap ∈ component.basisCapHoursPerPeriod, s.capped ≤ exemptHours s.period.lines + cap
  binds : component.basis = .percentOfGross → component.value ≤ 100 * RATE_SCALE →
    ∀ free, applyBasisCaps component.withoutAmountCaps s.period.basis
      { lines := some s.period.lines, yearToDate := s.taken } = .ok free → s.capped < free →
      ∃ room, IsLeast {room | room ∈ rooms component s.taken} room ∧
        s.amount = room / 100 * 100

variable {taken : ℤ}

theorem capAmount_ok {rate : ℤ × ℤ} {after : ℤ} {cap : Option ℤ}
    (h : capAmount rate 2 capped cap taken = .ok after) (htaken : ∀ k ∈ cap, taken ≤ k) :
    after ≤ capped ∧ (∀ k ∈ cap, after ≤ basisWithin (k - taken) rate 2) ∧
      (after = capped ∨ ∃ k ∈ cap, after = basisWithin (k - taken) rate 2) := by
  cases cap with
  | none =>
    obtain rfl := pure_eq_ok.mp h
    simp
  | some k =>
    have hroom : atLeastZero (k - taken) = k - taken := by
      have := htaken k rfl
      unfold atLeastZero
      split_ifs <;> omega
    simp only [capAmount, bind_eq_ok, requireNonNegative_eq_ok, pure_eq_ok] at h
    obtain ⟨_, ⟨-, rfl⟩, _, ⟨-, rfl⟩, rfl⟩ := h
    rw [hroom, lesser_eq_min]
    refine ⟨min_le_left _ _, ?_, ?_⟩
    · rintro _ ⟨⟩
      exact min_le_right _ _
    · exact (min_choice _ _).imp id fun hmin => ⟨k, rfl, hmin⟩

/-- The capped basis is the least of what the hours limit leaves and of what fits each room. -/
theorem applyBasisCaps_ok {basis : ℤ} (hrate : 0 < (unitRate component).1)
    (htaken : ∀ cap ∈ component.basisCapAmountPerYear, taken ≤ cap)
    (h : applyBasisCaps component basis { lines := some lines, yearToDate := taken } =
      .ok capped) :
    0 ≤ basis ∧ ∃ free, capHours component (some lines) basis = .ok free ∧ capped ≤ free ∧
      (∀ room ∈ rooms component taken, capped ≤ basisWithin room (unitRate component) 2) ∧
      (capped = free ∨
        ∃ room ∈ rooms component taken, capped = basisWithin room (unitRate component) 2) := by
  simp only [applyBasisCaps, bind_eq_ok, requireNonNegative_eq_ok, hrate, if_true] at h
  obtain ⟨-, -, _, ⟨hbasis, rfl⟩, free, hfree, middle, hperiod, hyear⟩ := h
  have hzero : ∀ cap ∈ component.basisCapAmountPerPeriod, (0 : ℤ) ≤ cap :=
    component.caps_nonneg _ (by simp)
  obtain ⟨hmiddle, hfits, hleast⟩ := capAmount_ok hperiod hzero
  obtain ⟨hcapped, hfits', hleast'⟩ := capAmount_ok hyear htaken
  simp only [sub_zero] at hfits hleast
  refine ⟨hbasis, free, hfree, hcapped.trans hmiddle, fun room hroom => ?_, ?_⟩
  · rcases mem_append.mp hroom with hroom | hroom
    · exact hcapped.trans (hfits room (mem_toList.mp hroom))
    · obtain ⟨cap, hcap, rfl⟩ := mem_map.mp hroom
      exact hfits' cap (mem_toList.mp hcap)
  · rcases hleast' with rfl | ⟨cap, hcap, rfl⟩
    · rcases hleast with rfl | ⟨cap, hcap, rfl⟩
      · exact .inl rfl
      · exact .inr ⟨cap, mem_append_left _ (mem_toList.mpr hcap), rfl⟩
    · exact .inr ⟨cap - taken, mem_append_right _
        (mem_map.mpr ⟨cap, mem_toList.mpr hcap, rfl⟩), rfl⟩

/-- Bases and hours that are not negative. -/
def PayPeriod.Nonneg (period : PayPeriod) : Prop :=
  0 ≤ period.basis ∧ ∀ line ∈ period.lines, 0 ≤ line.hours

theorem rooms_nonneg (htaken : ∀ cap ∈ component.basisCapAmountPerYear, taken ≤ cap) :
    ∀ room ∈ rooms component taken, 0 ≤ room := by
  intro room hroom
  rcases mem_append.mp hroom with hroom | hroom
  · exact component.caps_nonneg _ (by simp) room (mem_toList.mp hroom)
  · obtain ⟨cap, hcap, rfl⟩ := mem_map.mp hroom
    exact sub_nonneg.mpr (htaken cap (mem_toList.mp hcap))

/-- **A period stays within the limits** when the periods before it did. -/
theorem takePeriod_within (hrated : component.Rated)
    (htaken : ∀ cap ∈ component.basisCapAmountPerYear, taken ≤ cap) {period : PayPeriod}
    (hperiod : period.Nonneg) {s : Settled} (h : takePeriod component taken period = .ok s) :
    s.taken = taken ∧ Within component s := by
  simp only [takePeriod, bind_eq_ok, pure_eq_ok] at h
  obtain ⟨capped, hcapped, rfl⟩ := h
  obtain ⟨hbasis, free, hfree, hle, hfits, hleast⟩ :=
    applyBasisCaps_ok hrated.rate htaken hcapped
  obtain ⟨hfree0, hfreele, hhours⟩ := capHours_ok hfree hbasis
  have hrooms := rooms_nonneg htaken
  have hcapped0 : 0 ≤ capped := by
    rcases hleast with rfl | ⟨room, hroom, rfl⟩
    · exact hfree0
    · exact basisWithin_nonneg hrated.rate (hrooms room hroom)
  have hamount (room : ℤ) (hroom : room ∈ rooms component taken) :=
    amountForBasis_le hrated (hrooms room hroom) hcapped0 (hfits room hroom)
  refine ⟨rfl, ?_, hle.trans hfreele, fun cap hcap => ?_, fun cap hcap => ?_, ?_, ?_⟩
  · exact amountForBasis_nonneg hrated hcapped0
  · have hroom := hamount (cap - taken) (mem_append_right _
      (mem_map.mpr ⟨cap, mem_toList.mpr hcap, rfl⟩))
    exact (add_le_add_right hroom taken).trans_eq (by ring)
  · exact hamount cap (mem_append_left _ (mem_toList.mpr hcap))
  · exact fun hbasis htotal cap hcap => hle.trans (hhours hbasis htotal hperiod.2 cap hcap)
  · intro hpercent hvalue free' hfree' hbinds
    obtain ⟨-, free'', hfree'', -, -, hwhole⟩ :=
      @applyBasisCaps_ok component.withoutAmountCaps _ _ _ _ hrated.rate
        (by rintro _ ⟨⟩) hfree'
    obtain rfl : free = free'' := Except.ok.inj (hfree.symm.trans hfree'')
    obtain rfl : free' = free := hwhole.resolve_right (by rintro ⟨_, ⟨⟩, _⟩)
    obtain ⟨room, hroom, hcapped'⟩ := hleast.resolve_left hbinds.ne
    -- the least room fits the same basis as the one that binds
    obtain ⟨least, hmem, hleast⟩ := Set.exists_min_image {room | room ∈ rooms component taken} id
      (finite_toSet _) ⟨room, hroom⟩
    have hsame : capped = basisWithin least (unitRate component) 2 :=
      (hfits least hmem).antisymm
        ((basisWithin_mono hrated.rate (hrooms least hmem) (hleast room hroom)).trans_eq
          hcapped'.symm)
    refine ⟨least, ⟨hmem, fun other hother => hleast other hother⟩, ?_⟩
    rw [hsame]
    exact amountForBasis_eq hpercent hrated.value hvalue (hrooms least hmem)

/-- **Contribution limits hold over the year**: after every period what was taken is within
the annual limit, and each period is within its own. -/
theorem takeYear_within {component : BasisCapComponent} (hrated : component.Rated)
    {periods : List PayPeriod} (hperiods : ∀ period ∈ periods, period.Nonneg)
    {year : List Settled} (h : takeYear component 0 periods = .ok year) :
    ∀ s ∈ year, Within component s := by
  suffices hrun : ∀ taken, (∀ cap ∈ component.basisCapAmountPerYear, taken ≤ cap) →
      takeYear component taken periods = .ok year → ∀ s ∈ year, Within component s from
    hrun 0 (component.caps_nonneg _ (by simp)) h
  clear h
  induction periods generalizing year with
  | nil =>
    intro taken _ h
    obtain rfl := pure_eq_ok.mp h
    simp
  | cons period periods ih =>
    intro taken htaken h
    simp only [takeYear, bind_eq_ok, pure_eq_ok] at h
    obtain ⟨s, hs, rest, hrest, rfl⟩ := h
    obtain ⟨hperiod, hperiods⟩ := forall_mem_cons.mp hperiods
    obtain ⟨rfl, hwithin⟩ := takePeriod_within hrated htaken hperiod hs
    exact forall_mem_cons.mpr ⟨hwithin, ih hperiods _ hwithin.year hrest⟩

theorem takeYear_within_two :
    let component : BasisCapComponent :=
      ⟨.percentOfGross, 5 * RATE_SCALE, none, none, some (100 * SCALE), by decide⟩
    ∃ year, takeYear component 0 [⟨1500 * SCALE, []⟩, ⟨1500 * SCALE, []⟩] = .ok year ∧
      year.map Settled.amount = [75 * SCALE, 25 * SCALE] ∧ ∀ s ∈ year, Within component s :=
  ⟨_, rfl, by decide, @takeYear_within _ ⟨by decide, by decide⟩
    [⟨1500 * SCALE, []⟩, ⟨1500 * SCALE, []⟩] (by simp [PayPeriod.Nonneg, SCALE]) _ rfl⟩

end OpenBooks.BasisCaps
