import Mathlib.Data.Rat.Cast.Order
import Mathlib.Tactic.FieldSimp
import OpenBooks.Lib.Checked
import OpenBooks.Money.DecimalText

/-!
# National Insurance of a pay period

Class 1 contributions are the exact percentage of the earnings between thresholds, to the
nearest penny, where half a penny or less is disregarded. The code cuts a percentage to a
ten-thousandth before it looks at the half penny (`GbNic.applyRate`), and a
pro-rated threshold likewise. What is cut matters just when the whole ten-thousandths end
on half a penny (`GbNic.nearestPenny_iff`): more than half a penny is then
disregarded.
-/

namespace OpenBooks.GbNic

open Checked List

/-! ### Tables -/

/-- Thresholds of a pay period. -/
structure GbNicThresholds where
  lel : ℤ
  pt : ℤ
  st : ℤ
  uel : ℤ
  deriving DecidableEq

/-- What the contributions read of the tables of a year. -/
structure GbYearTables where
  nicAnnual : GbNicThresholds
  nicWeekly : GbNicThresholds
  nicMonthly : GbNicThresholds
  nicEmployeeMainRate : String
  nicEmployeeUpperRate : String
  nicEmployerRate : String
  deriving DecidableEq

/-- Thresholds stated in whole pounds. -/
def pounds (lel pt st uel : ℤ) : GbNicThresholds :=
  ⟨lel * SCALE, pt * SCALE, st * SCALE, uel * SCALE⟩

def GB_2024_TABLES : GbYearTables :=
  ⟨pounds 6396 12570 9100 50270, pounds 123 242 175 967, pounds 533 1048 758 4189,
    "0.08", "0.02", "0.138"⟩

def GB_2025_TABLES : GbYearTables :=
  ⟨pounds 6500 12570 5000 50270, pounds 125 242 96 967, pounds 542 1048 417 4189,
    "0.08", "0.02", "0.15"⟩

def GB_2026_TABLES : GbYearTables :=
  ⟨pounds 6708 12570 5000 50270, pounds 129 242 96 967, pounds 559 1048 417 4189,
    "0.08", "0.02", "0.15"⟩

def transcribed : List GbYearTables := [GB_2026_TABLES, GB_2025_TABLES, GB_2024_TABLES]

/-! ### Arithmetic -/

/-- The nearest penny; half a penny or less is disregarded. -/
def gbRoundPennyUnits (units : ℤ) : Except String ℤ := do
  refuseIf (units < 0) "GB penny rounding takes a non-negative amount"
  let whole := units.tdiv 100
  let remainder := units.tmod 100
  return (if 50 < remainder then whole + 1 else whole) * 100

/-- A zero-point decimal fraction of up to three places, over its power of ten. -/
def rateFraction (rate : String) : Except String (ℤ × ℤ) :=
  match rate.toList with
  | '0' :: '.' :: frac =>
    if 1 ≤ frac.length ∧ frac.length ≤ 3 ∧ frac.all Char.isDigit then
      .ok (digitsValue frac, 10 ^ frac.length)
    else .error ("GB rate is a zero-point decimal fraction, got \"" ++ rate ++ "\"")
  | _ => .error ("GB rate is a zero-point decimal fraction, got \"" ++ rate ++ "\"")

/-- Liability on a base, in whole ten-thousandths. -/
def applyRate (baseUnits : ℤ) (rate : String) : Except String ℤ := do
  let (num, den) ← rateFraction rate
  return (baseUnits * num).tdiv den

/-- The published thresholds, or a share of the annual ones. -/
def gbNicThresholdsForPeriod (periodsPerYear : ℤ) (tables : GbYearTables) :
    Except String GbNicThresholds := do
  refuseIf (periodsPerYear ≤ 0)
    ("GB NIC needs a positive integer periods-per-year, got " ++ toString periodsPerYear)
  if periodsPerYear = 52 then return tables.nicWeekly
  else if periodsPerYear = 12 then return tables.nicMonthly
  else if periodsPerYear = 1 then return tables.nicAnnual
  else
    let prorate (annual : ℤ) := gbRoundPennyUnits (annual.tdiv periodsPerYear)
    return ⟨← prorate tables.nicAnnual.lel, ← prorate tables.nicAnnual.pt,
      ← prorate tables.nicAnnual.st, ← prorate tables.nicAnnual.uel⟩

structure GbNicResult where
  employee : ℤ
  employer : ℤ
  deriving DecidableEq

/-- Earnings between the primary threshold and the upper limit. -/
def mainBase (t : GbNicThresholds) (base : ℤ) : ℤ :=
  if base < t.pt then 0 else (if base < t.uel then base else t.uel) - t.pt

def upperBase (t : GbNicThresholds) (base : ℤ) : ℤ := if base < t.uel then 0 else base - t.uel

def employerBase (t : GbNicThresholds) (base : ℤ) : ℤ := if base < t.st then 0 else base - t.st

def calculateGbNic (earnings periodsPerYear : ℤ) (tables : GbYearTables) :
    Except String GbNicResult := do
  refuseIf (earnings < 0) ("GB NIC needs non-negative earnings, got " ++ fromUnits earnings)
  let t ← gbNicThresholdsForPeriod periodsPerYear tables
  let main ← applyRate (mainBase t earnings) tables.nicEmployeeMainRate
  let upper ← applyRate (upperBase t earnings) tables.nicEmployeeUpperRate
  let employee ← gbRoundPennyUnits (main + upper)
  let liability ← applyRate (employerBase t earnings) tables.nicEmployerRate
  let employer ← gbRoundPennyUnits liability
  return ⟨employee, employer⟩

/-! ### The nearest penny -/

/-- `pennies` is the nearest penny to an exact amount, half a penny or less disregarded. -/
def NearestPenny (exact : ℚ) (pennies : ℤ) : Prop :=
  100 ∣ pennies ∧ (pennies : ℚ) - 50 < exact ∧ exact ≤ pennies + 50

/-- The whole ten-thousandths of a quotient end on half a penny, and there is more. -/
def Lost (n d : ℤ) : Prop := n / d % 100 = 50 ∧ n % d ≠ 0

instance (n d : ℤ) : Decidable (Lost n d) := inferInstanceAs (Decidable (_ ∧ _))

/-- Rounding a whole number of ten-thousandths. -/
def roundPenny (units : ℤ) : ℤ := (if 50 < units % 100 then units / 100 + 1 else units / 100) * 100

theorem gbRoundPennyUnits_of_nonneg {units : ℤ} (h : 0 ≤ units) :
    gbRoundPennyUnits units = .ok (roundPenny units) := by
  rw [gbRoundPennyUnits, refuseIf, if_neg (not_lt.mpr h), ok_bind,
    Int.tdiv_eq_ediv_of_nonneg h, Int.tmod_eq_emod_of_nonneg h]
  rfl

theorem roundPenny_nonneg {units : ℤ} (h : 0 ≤ units) : 0 ≤ roundPenny units := by
  rw [roundPenny]
  split_ifs <;> omega

theorem dvd_roundPenny (units : ℤ) : 100 ∣ roundPenny units := Int.dvd_mul_left _ _

variable {a : ℤ}

theorem roundPenny_mono {b : ℤ} (h : a ≤ b) : roundPenny a ≤ roundPenny b := by
  rw [roundPenny, roundPenny]
  split_ifs <;> omega

/-- An upper bound of a quotient, by what its whole part and its remainder are. -/
theorem div_le_iff_ediv {n d : ℤ} (hd : 0 < d) :
    (n / d : ℚ) ≤ a ↔ n / d < a ∨ (n / d = a ∧ n % d = 0) := by
  have hsplit := Int.mul_ediv_add_emod n d
  have hr := Int.emod_nonneg n hd.ne'
  rw [div_le_iff₀ (Int.cast_pos.mpr hd)]
  norm_cast
  constructor
  · intro h
    rcases lt_trichotomy (n / d) a with hlt | heq | hgt
    · exact .inl hlt
    · subst heq
      exact .inr ⟨rfl, by linarith⟩
    · have := Int.mul_lt_mul_of_pos_right hgt hd
      linarith
  · rintro (hlt | ⟨rfl, hzero⟩)
    · have := Int.mul_le_mul_of_nonneg_right hlt hd.le
      have := Int.emod_lt_of_pos n hd
      linarith
    · linarith

/-- **A quotient that is cut before it is rounded is the nearest penny** unless what is cut
lies above half a penny. -/
theorem nearestPenny_iff {n d : ℤ} (hd : 0 < d) :
    NearestPenny (n / d : ℚ) (roundPenny (n / d)) ↔ ¬Lost n d := by
  have hlow := div_le_iff_ediv (n := n) (a := roundPenny (n / d) - 50) hd
  have hhigh := div_le_iff_ediv (n := n) (a := roundPenny (n / d) + 50) hd
  push_cast at hlow hhigh
  rw [NearestPenny, ← not_le, hlow, hhigh, and_iff_right (dvd_roundPenny _), Lost]
  unfold roundPenny
  split_ifs with h <;> omega

theorem nearestPenny_whole (units : ℤ) : NearestPenny units (roundPenny units) := by
  simpa [Lost] using nearestPenny_iff (n := units) one_pos

/-! ### Thresholds -/

/-- The published thresholds, or each annual one over the periods to the penny. -/
def periodThresholds (periods : ℤ) (tables : GbYearTables) : GbNicThresholds :=
  if periods = 52 then tables.nicWeekly
  else if periods = 12 then tables.nicMonthly
  else if periods = 1 then tables.nicAnnual
  else
    ⟨roundPenny (tables.nicAnnual.lel / periods), roundPenny (tables.nicAnnual.pt / periods),
      roundPenny (tables.nicAnnual.st / periods), roundPenny (tables.nicAnnual.uel / periods)⟩

/-- Thresholds in whole pence, the upper limit above the primary one. -/
structure GbNicThresholds.Penny (t : GbNicThresholds) : Prop where
  pt : 100 ∣ t.pt
  st : 100 ∣ t.st
  uel : 100 ∣ t.uel
  ordered : t.pt ≤ t.uel

theorem pounds_penny {lel pt st uel : ℤ} (h : pt ≤ uel) : (pounds lel pt st uel).Penny := by
  constructor <;> simp only [pounds, SCALE] <;> omega

variable {tables : GbYearTables}

theorem annual_nonneg (h : tables ∈ transcribed) :
    0 ≤ tables.nicAnnual.lel ∧ 0 ≤ tables.nicAnnual.pt ∧ 0 ≤ tables.nicAnnual.st ∧
      tables.nicAnnual.pt ≤ tables.nicAnnual.uel := by
  revert tables
  decide

variable {periods : ℤ}

theorem gbNicThresholdsForPeriod_eq (h : tables ∈ transcribed) (hp : 0 < periods) :
    gbNicThresholdsForPeriod periods tables = .ok (periodThresholds periods tables) := by
  obtain ⟨hlel, hpt, hst, hord⟩ := annual_nonneg h
  have prorate {annual : ℤ} (hannual : 0 ≤ annual) :
      gbRoundPennyUnits (annual.tdiv periods) = .ok (roundPenny (annual / periods)) := by
    rw [Int.tdiv_eq_ediv_of_nonneg hannual]
    exact gbRoundPennyUnits_of_nonneg (Int.ediv_nonneg hannual hp.le)
  rw [gbNicThresholdsForPeriod, refuseIf, if_neg (not_le.mpr hp), ok_bind, periodThresholds]
  split_ifs
  iterate 3 rfl
  simp only [prorate hlel, prorate hpt, prorate hst, prorate (hpt.trans hord), ok_bind]
  rfl

theorem periodThresholds_penny (h : tables ∈ transcribed) (hp : 0 < periods) :
    (periodThresholds periods tables).Penny := by
  have hord := (annual_nonneg h).2.2.2
  rw [periodThresholds]
  split_ifs
  iterate 3
    simp only [transcribed, mem_cons, not_mem_nil, or_false] at h
    rcases h with rfl | rfl | rfl <;> exact pounds_penny (by decide)
  exact ⟨dvd_roundPenny _, dvd_roundPenny _, dvd_roundPenny _,
    roundPenny_mono (Int.ediv_le_ediv hp hord)⟩

/-! ### Contributions -/

/-- What a rate stands for. -/
def rateValue (rate : String) : ℚ :=
  match rateFraction rate with
  | .ok (num, den) => num / den
  | .error _ => 0

/-- Earnings between two limits. -/
def between (lower upper earnings : ℤ) : ℤ := max 0 (min earnings upper - lower)

/-- Earnings above a limit. -/
def above (lower earnings : ℤ) : ℤ := max 0 (earnings - lower)

def employeeLiability (t : GbNicThresholds) (tables : GbYearTables) (earnings : ℤ) : ℚ :=
  rateValue tables.nicEmployeeMainRate * between t.pt t.uel earnings +
    rateValue tables.nicEmployeeUpperRate * above t.uel earnings

def employerLiability (t : GbNicThresholds) (tables : GbYearTables) (earnings : ℤ) : ℚ :=
  rateValue tables.nicEmployerRate * above t.st earnings

/-- Both figures are the exact liability rounded once, and neither falls as earnings grow;
a pro-rated threshold is its share of the year rounded once. -/
structure RoundedOnce (earnings periods : ℤ) (tables : GbYearTables) (t : GbNicThresholds)
    (r : GbNicResult) : Prop where
  thresholds : gbNicThresholdsForPeriod periods tables = .ok t
  result : calculateGbNic earnings periods tables = .ok r
  employee : NearestPenny (employeeLiability t tables earnings) r.employee
  employer : NearestPenny (employerLiability t tables earnings) r.employer
  nonneg : 0 ≤ r.employee ∧ 0 ≤ r.employer
  grows : ∀ more ≥ earnings, ∃ r', calculateGbNic more periods tables = .ok r' ∧
    r.employee ≤ r'.employee ∧ r.employer ≤ r'.employer
  prorated : periods ∉ [52, 12, 1] →
    NearestPenny (tables.nicAnnual.lel / periods : ℚ) t.lel ∧
    NearestPenny (tables.nicAnnual.pt / periods : ℚ) t.pt ∧
    NearestPenny (tables.nicAnnual.st / periods : ℚ) t.st ∧
    NearestPenny (tables.nicAnnual.uel / periods : ℚ) t.uel

/-- No share of a year, and no employer liability of a three-place rate, exceeds half a
penny by less than a ten-thousandth. -/
def NothingLost (earnings periods : ℤ) (tables : GbYearTables) : Prop :=
  (periods ∉ [52, 12, 1] →
    ¬Lost tables.nicAnnual.lel periods ∧ ¬Lost tables.nicAnnual.pt periods ∧
    ¬Lost tables.nicAnnual.st periods ∧ ¬Lost tables.nicAnnual.uel periods) ∧
  ∀ num den, rateFraction tables.nicEmployerRate = .ok (num, den) →
    ¬Lost (above (periodThresholds periods tables).st earnings * num) den

theorem mainBase_eq {t : GbNicThresholds} (h : t.pt ≤ t.uel) (base : ℤ) :
    mainBase t base = between t.pt t.uel base := by
  rw [mainBase, between]
  split_ifs <;> omega

variable (t : GbNicThresholds)

theorem upperBase_eq (base : ℤ) : upperBase t base = above t.uel base := by
  rw [upperBase, above]
  split_ifs <;> omega

theorem employerBase_eq (base : ℤ) : employerBase t base = above t.st base := by
  rw [employerBase, above]
  split_ifs <;> omega

theorem between_nonneg (lower upper earnings : ℤ) : 0 ≤ between lower upper earnings :=
  le_max_left _ _

theorem above_nonneg (lower earnings : ℤ) : 0 ≤ above lower earnings := le_max_left _ _

theorem above_mono {lower b : ℤ} (h : a ≤ b) : above lower a ≤ above lower b := by
  unfold above
  omega

theorem between_mono {lower upper b : ℤ} (h : a ≤ b) :
    between lower upper a ≤ between lower upper b := by
  unfold between
  omega

variable {num den : ℤ}

theorem applyRate_of {rate : String} (h : rateFraction rate = .ok (num, den)) (hnum : 0 ≤ num)
    {base : ℤ} (hbase : 0 ≤ base) : applyRate base rate = .ok (base * num / den) := by
  rw [applyRate, h, ok_bind]
  exact congrArg Except.ok (Int.tdiv_eq_ediv_of_nonneg (mul_nonneg hbase hnum))

theorem rateValue_of {rate : String} (h : rateFraction rate = .ok (num, den)) :
    rateValue rate = num / den := by
  rw [rateValue, h]

theorem transcribed_rates (h : tables ∈ transcribed) :
    rateFraction tables.nicEmployeeMainRate = .ok (8, 100) ∧
    rateFraction tables.nicEmployeeUpperRate = .ok (2, 100) ∧
    ∃ num den, rateFraction tables.nicEmployerRate = .ok (num, den) ∧ 0 ≤ num ∧ 0 < den := by
  simp only [transcribed, mem_cons, not_mem_nil, or_false] at h
  rcases h with rfl | rfl | rfl
  · exact ⟨rfl, rfl, 15, 100, rfl, by decide, by decide⟩
  · exact ⟨rfl, rfl, 15, 100, rfl, by decide, by decide⟩
  · exact ⟨rfl, rfl, 138, 1000, rfl, by decide, by decide⟩

/-- Both figures before they are rounded, as the code cuts them. -/
def employeeUnits (t : GbNicThresholds) (earnings : ℤ) : ℤ :=
  between t.pt t.uel earnings * 8 / 100 + above t.uel earnings * 2 / 100

theorem employeeUnits_nonneg (earnings : ℤ) : 0 ≤ employeeUnits t earnings := by
  unfold employeeUnits between above
  omega

/-- Whole pence at a whole percentage are exact. -/
theorem employeeLiability_eq (h : tables ∈ transcribed) {t : GbNicThresholds} (ht : t.Penny)
    {earnings : ℤ} (hpence : 100 ∣ earnings) :
    employeeLiability t tables earnings = employeeUnits t earnings := by
  obtain ⟨hmain, hupper, -⟩ := transcribed_rates h
  obtain ⟨hpt, -, huel, -⟩ := ht
  have hbetween : 100 ∣ between t.pt t.uel earnings := by
    unfold between
    omega
  have habove : 100 ∣ above t.uel earnings := by
    unfold above
    omega
  obtain ⟨m, hm⟩ := hbetween
  obtain ⟨u, hu⟩ := habove
  rw [employeeLiability, employeeUnits, rateValue_of hmain, rateValue_of hupper, hm, hu,
    mul_assoc, mul_assoc, Int.mul_ediv_cancel_left _ (by decide),
    Int.mul_ediv_cancel_left _ (by decide)]
  push_cast
  ring

theorem calculateGbNic_eq (h : tables ∈ transcribed)
    (hrate : rateFraction tables.nicEmployerRate = .ok (num, den)) (hnum : 0 ≤ num)
    (hden : 0 < den) {earnings : ℤ} (hearnings : 0 ≤ earnings) (hp : 0 < periods) :
    calculateGbNic earnings periods tables =
      .ok ⟨roundPenny (employeeUnits (periodThresholds periods tables) earnings),
        roundPenny (above (periodThresholds periods tables).st earnings * num / den)⟩ := by
  obtain ⟨hmain, hupper, -⟩ := transcribed_rates h
  have hemployer := Int.ediv_nonneg
    (mul_nonneg (above_nonneg (periodThresholds periods tables).st earnings) hnum) hden.le
  rw [calculateGbNic, refuseIf, if_neg (not_lt.mpr hearnings), ok_bind,
    gbNicThresholdsForPeriod_eq h hp, ok_bind, mainBase_eq (periodThresholds_penny h hp).ordered,
    upperBase_eq, employerBase_eq, applyRate_of hmain (by decide) (between_nonneg _ _ _),
    ok_bind, applyRate_of hupper (by decide) (above_nonneg _ _), ok_bind,
    ← employeeUnits, gbRoundPennyUnits_of_nonneg (employeeUnits_nonneg _ _), ok_bind,
    applyRate_of hrate hnum (above_nonneg _ _), ok_bind, gbRoundPennyUnits_of_nonneg hemployer]
  rfl

/-- **National Insurance is rounded once** exactly when nothing that is cut decides a half
penny. -/
theorem calculateGbNic_iff {tables : GbYearTables} (h : tables ∈ transcribed)
    {earnings periods : ℤ} (hearnings : 0 ≤ earnings) (hpence : 100 ∣ earnings)
    (hp : 0 < periods) :
    (∃ t r, RoundedOnce earnings periods tables t r) ↔
      NothingLost earnings periods tables := by
  obtain ⟨-, -, num, den, hrate, hnum, hden⟩ := transcribed_rates h
  have hpenny := periodThresholds_penny h hp
  have hemployee := employeeLiability_eq h hpenny hpence
  have hemployer : employerLiability (periodThresholds periods tables) tables earnings =
      ((above (periodThresholds periods tables).st earnings * num : ℤ) / (den : ℤ) : ℚ) := by
    rw [employerLiability, rateValue_of hrate]
    push_cast
    ring
  have hprorated (hshare : periods ∉ [52, 12, 1]) :
      periodThresholds periods tables =
        ⟨roundPenny (tables.nicAnnual.lel / periods), roundPenny (tables.nicAnnual.pt / periods),
          roundPenny (tables.nicAnnual.st / periods),
          roundPenny (tables.nicAnnual.uel / periods)⟩ := by
    simp only [mem_cons, not_mem_nil, or_false, not_or] at hshare
    rw [periodThresholds, if_neg hshare.1, if_neg hshare.2.1, if_neg hshare.2.2]
  constructor
  · rintro ⟨t, r, honce⟩
    obtain rfl : periodThresholds periods tables = t :=
      Except.ok.inj ((gbNicThresholdsForPeriod_eq h hp).symm.trans honce.thresholds)
    obtain rfl := Except.ok.inj
      ((calculateGbNic_eq h hrate hnum hden hearnings hp).symm.trans honce.result)
    refine ⟨fun hshare => ?_, fun num' den' hrate' => ?_⟩
    · have hthresholds := honce.prorated hshare
      rw [hprorated hshare] at hthresholds
      simpa only [nearestPenny_iff hp] using hthresholds
    · obtain ⟨rfl, rfl⟩ := Prod.mk.inj (Except.ok.inj (hrate.symm.trans hrate'))
      have hnearest := honce.employer
      rwa [hemployer, nearestPenny_iff hden] at hnearest
  · rintro ⟨hthresholds, hliability⟩
    refine ⟨_, _, gbNicThresholdsForPeriod_eq h hp,
      calculateGbNic_eq h hrate hnum hden hearnings hp, ?_, ?_, ⟨?_, ?_⟩, fun more hmore => ?_,
      fun hshare => ?_⟩
    · rw [hemployee]
      exact nearestPenny_whole _
    · rw [hemployer]
      exact (nearestPenny_iff hden).mpr (hliability num den hrate)
    · exact roundPenny_nonneg (employeeUnits_nonneg _ _)
    · exact roundPenny_nonneg (Int.ediv_nonneg (mul_nonneg (above_nonneg _ _) hnum) hden.le)
    · refine ⟨_, calculateGbNic_eq h hrate hnum hden (hearnings.trans hmore) hp,
        roundPenny_mono ?_, roundPenny_mono ?_⟩
      · exact add_le_add
          (Int.ediv_le_ediv (by decide)
            (mul_le_mul_of_nonneg_right (between_mono hmore) (by decide)))
          (Int.ediv_le_ediv (by decide) (mul_le_mul_of_nonneg_right (above_mono hmore) (by decide)))
      · exact Int.ediv_le_ediv hden (mul_le_mul_of_nonneg_right (above_mono hmore) hnum)
    · rw [hprorated hshare]
      simpa only [nearestPenny_iff hp] using hthresholds hshare

theorem calculateGbNic_iff_weekly :
    (∃ t r, RoundedOnce (500 * SCALE) 52 GB_2026_TABLES t r) ↔
      NothingLost (500 * SCALE) 52 GB_2026_TABLES :=
  calculateGbNic_iff (by decide) (by decide) (by decide) (by decide)

/-- 42.504 pence of an employer's liability on 3.08 above the threshold become 42. -/
theorem employer_penny_lost :
    ¬∃ t r, RoundedOnce (178 * SCALE + 800) 52 GB_2024_TABLES t r := by
  rintro ⟨t, r, honce⟩
  obtain rfl : GB_2024_TABLES.nicWeekly = t := Except.ok.inj honce.thresholds
  obtain rfl : (⟨0, 4200⟩ : GbNicResult) = r :=
    Except.ok.inj ((by decide :
      calculateGbNic (178 * SCALE + 800) 52 GB_2024_TABLES = .ok ⟨0, 4200⟩).symm.trans
        honce.result)
  have hnearest := honce.employer.2.2
  have hrate : rateFraction GB_2024_TABLES.nicEmployerRate = .ok (138, 1000) := rfl
  have hexcess : above GB_2024_TABLES.nicWeekly.st (178 * SCALE + 800) = 30800 := by decide
  rw [employerLiability, rateValue_of hrate, hexcess] at hnearest
  norm_num at hnearest

end OpenBooks.GbNic
