import OpenBooks.Billing.Cadence

/-!
# Stepping anchored months

`shiftAnchoredMonth` steps a month forward or back and takes the day from an anchor.
Months are counted from year zero (`monthNumber`), and on that count a step is an
addition: the day never enters into it, so nothing drifts however many steps are taken.

The source works on floating-point numbers and asks for integers that are exact there; for
years that are not negative the arithmetic within that bound, or its refusal, is that of the
integers.
-/

namespace OpenBooks

open Checked FixedWidth

/-- An integer up to which the source's numbers are exact. -/
def IsSafeInteger (n : ℤ) : Prop := -9007199254740991 ≤ n ∧ n ≤ 9007199254740991

instance (n : ℤ) : Decidable (IsSafeInteger n) := inferInstanceAs (Decidable (_ ∧ _))

/-- Step a month by `monthStep` months in a direction, pinning the day to `anchorDay` clamped to
the target month's length. -/
def shiftAnchoredMonth (year month1 monthStep anchorDay direction : ℤ) : Except String CivilDate :=
  if ¬IsSafeInteger year ∨ ¬IsSafeInteger month1 ∨ month1 < 1 ∨ 12 < month1 then
    .error "cadence source month is not a valid calendar month"
  else if ¬IsSafeInteger monthStep ∨ monthStep < 1 then
    .error "cadence month step must be a positive integer"
  else if ¬IsSafeInteger anchorDay ∨ anchorDay < 1 ∨ 31 < anchorDay then
    .error "cadence anchor day must be between 1 and 31"
  else
    let targetMonthIndex := month1 - 1 + direction * monthStep
    let toYear := year + targetMonthIndex / 12
    if ¬IsSafeInteger toYear ∨ toYear < 1 ∨ 9999 < toYear then
      .error "cadence step falls outside the supported date range"
    else
      let toMonth := (targetMonthIndex.tmod 12 + 12).tmod 12 + 1
      .ok (civilDay toYear.toNat toMonth.toNat
        (min anchorDay.toNat (daysInMonth toYear.toNat toMonth.toNat)))

/-- Step a month back, with the same anchor pinning and the same refusals as
`advanceAnchoredMonth`. -/
def retreatAnchoredMonth (year month1 monthStep anchorDay : ℕ) : Except String CivilDate :=
  shiftAnchoredMonth year month1 monthStep anchorDay (-1)

/-! ### The anchored day -/

structure AnchoredOn (anchorDay : ℕ) (number : ℤ) (date : CivilDate) : Prop where
  month : monthNumber date.year date.month = number
  day : date.day = min anchorDay (daysInMonth date.year date.month)

variable {anchorDay : ℕ}

theorem AnchoredOn.unique {number : ℤ} {a b : CivilDate} (ha : AnchoredOn anchorDay number a)
    (hb : AnchoredOn anchorDay number b) : a = b := by
  obtain ⟨hyear, hmonth⟩ :=
    (monthNumber_inj a.month_mem b.month_mem).mp (ha.month.trans hb.month.symm)
  refine CivilDate.ext hyear hmonth ?_
  rw [ha.day, hb.day, hyear, hmonth]

variable {year : ℕ}

/-- **An anchor is a day of every month of the calendar.** -/
theorem anchoredOn_civilDay {month : ℕ} (hyear : 1 ≤ year ∧ year ≤ 9999)
    (hmonth : 1 ≤ month ∧ month ≤ 12) (hanchor : 1 ≤ anchorDay) :
    AnchoredOn anchorDay (monthNumber year month)
      (civilDay year month (min anchorDay (daysInMonth year month))) := by
  rw [civilDay_eq hyear hmonth ⟨le_min hanchor (one_le_daysInMonth hmonth), min_le_right _ _⟩]
  exact ⟨rfl, rfl⟩

theorem exists_anchoredOn (hanchor : 1 ≤ anchorDay) {number : ℤ} (hlow : 12 ≤ number)
    (hhigh : number < 120000) : ∃ date, AnchoredOn anchorDay number date := by
  have hyear : 1 ≤ (number / 12).toNat ∧ (number / 12).toNat ≤ 9999 := by omega
  have hmonth : 1 ≤ (number % 12 + 1).toNat ∧ (number % 12 + 1).toNat ≤ 12 := by omega
  have hdate := anchoredOn_civilDay hyear hmonth hanchor
  have hnumber : monthNumber (number / 12).toNat (number % 12 + 1).toNat = number := by
    rw [monthNumber]
    omega
  exact ⟨_, hnumber ▸ hdate⟩

/-! ### The step -/

/-- The remainder of the source, made positive, is the remainder of floor division. -/
theorem tmod_add_tmod (n : ℤ) : (n.tmod 12 + 12).tmod 12 = n % 12 := by
  have hrange : -12 < n.tmod 12 := by
    have := Int.lt_tmod_of_pos n (show (0 : ℤ) < 12 by decide)
    omega
  rw [Int.tmod_eq_emod_of_nonneg (by omega), Int.add_emod_right, Int.tmod_eq_emod]
  split_ifs <;> omega

variable {date : CivilDate} {month1 monthStep : ℕ}

/-- **A step in either direction is an addition of months.** -/
theorem shiftAnchoredMonth_eq_ok_iff {direction : ℤ} :
    shiftAnchoredMonth year month1 monthStep anchorDay direction = .ok date ↔
      (1 ≤ month1 ∧ month1 ≤ 12) ∧ 1 ≤ monthStep ∧ (1 ≤ anchorDay ∧ anchorDay ≤ 31) ∧
        (IsSafeInteger year ∧ IsSafeInteger monthStep) ∧
        AnchoredOn anchorDay (monthNumber year month1 + direction * monthStep) date := by
  rw [shiftAnchoredMonth]
  simp only [IsSafeInteger, tmod_add_tmod, Int.toNat_natCast]
  generalize hindex : (month1 : ℤ) - 1 + direction * monthStep = index
  have hsum : monthNumber year month1 + direction * monthStep = 12 * year + index := by
    rw [monthNumber, ← hindex]
    ring
  rw [hsum]
  have hdate : ∀ (hyear : 1 ≤ ((year : ℤ) + index / 12).toNat ∧
      ((year : ℤ) + index / 12).toNat ≤ 9999) (hanchor : 1 ≤ anchorDay),
      AnchoredOn anchorDay (12 * year + index) (civilDay ((year : ℤ) + index / 12).toNat
        (index % 12 + 1).toNat (min anchorDay (daysInMonth ((year : ℤ) + index / 12).toNat
          (index % 12 + 1).toNat))) := by
    intro hyear hanchor
    have hnumber : monthNumber ((year : ℤ) + index / 12).toNat (index % 12 + 1).toNat =
        12 * year + index := by
      rw [monthNumber]
      omega
    exact hnumber ▸ anchoredOn_civilDay hyear (by omega) hanchor
  constructor
  · intro h
    split_ifs at h with hmonth hstep hanchor hyear
    obtain rfl := Except.ok.inj h
    refine ⟨by omega, by omega, by omega, by omega, hdate (by omega) (by omega)⟩
  · rintro ⟨hmonth, hstep, hanchor, hsafe, hanchored⟩
    have hmem := date.year_mem
    have hmem' := date.month_mem
    have hnumber := hanchored.month
    rw [monthNumber] at hnumber
    rw [if_neg (by omega), if_neg (by omega), if_neg (by omega), if_neg (by omega)]
    exact congrArg Except.ok ((hdate (by omega) hanchor.1).unique hanchored)

/-- The step forward is the shift forward. -/
theorem advanceAnchoredMonth_eq_ok_iff :
    advanceAnchoredMonth year month1 monthStep anchorDay = .ok date ↔
      (1 ≤ month1 ∧ month1 ≤ 12) ∧ 1 ≤ monthStep ∧ (1 ≤ anchorDay ∧ anchorDay ≤ 31) ∧
        AnchoredOn anchorDay (monthNumber year month1 + monthStep) date := by
  have hnumber : ∀ hmonth : 1 ≤ month1 ∧ month1 ≤ 12,
      monthNumber (targetYear year month1 monthStep) (targetMonth month1 monthStep) =
        monthNumber year month1 + monthStep := by
    intro hmonth
    rw [monthNumber, monthNumber, targetYear, targetMonth]
    omega
  constructor
  · intro h
    obtain ⟨hstep, hyear, hmonth, hday⟩ := advanceAnchoredMonth_eq_ok h
    rw [advanceAnchoredMonth] at h
    split_ifs at h with hsource hzero hanchor
    refine ⟨hsource, hstep, hanchor, ?_, ?_⟩
    · rw [hyear, hmonth, hnumber hsource]
    · rw [hday, hyear, hmonth]
  · rintro ⟨hmonth, hstep, hanchor, hanchored⟩
    have hmem := date.year_mem
    have hdate := hanchored.month
    rw [← hnumber hmonth] at hdate
    obtain ⟨hyear, -⟩ := (monthNumber_inj date.month_mem (targetMonth_mem _ _)).mp hdate
    rw [advanceAnchoredMonth, if_neg (not_not.mpr hmonth), if_neg (not_lt.mpr hstep),
      dif_pos hanchor]
    dsimp only
    rw [dif_pos (hyear ▸ hmem)]
    refine congrArg Except.ok (AnchoredOn.unique ⟨?_, rfl⟩ hanchored)
    exact hnumber hmonth

/-! ### Runs -/

/-- Days each of which a step leads to from the month of the day before it. -/
def AnchoredRun (anchorDay : ℕ) (dates : List CivilDate) : Prop :=
  dates.IsChain fun date next =>
    ∃ monthStep, advanceAnchoredMonth date.year date.month monthStep anchorDay = .ok next

/-- **A run moves forward**, in its days and in their texts. -/
theorem AnchoredRun.pairwise {dates : List CivilDate} (h : AnchoredRun anchorDay dates) :
    dates.Pairwise fun a b => a < b := by
  refine List.isChain_iff_pairwise.mp (h.imp fun date next hnext => ?_)
  obtain ⟨monthStep, hrun⟩ := hnext
  obtain ⟨hstep, hyear, hmonth, -⟩ := advanceAnchoredMonth_eq_ok hrun
  exact lt_of_targetMonth hstep hyear hmonth

end OpenBooks
