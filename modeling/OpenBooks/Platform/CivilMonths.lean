import OpenBooks.Platform.CivilDate

/-!
# Anniversaries by the month

`addMonthsClamped` is the same day of another month, or the last day of a shorter one.
The clamp reads the day of the anchor each time, so the anniversaries of one anchor increase
strictly with the count of months; and between two of them the count of months gone by is constant,
which is what a schedule in completed months relies on.
-/

namespace OpenBooks

open Checked

/-- The same day of the month so many months away, clamped to the last day of that month. -/
def addMonthsClamped (date : CivilDate) (months : ℤ) : Except RangeError CivilDate := do
  let target ← addMonthsStart date months
  return civilDay target.year target.month (min date.day (daysInMonth target.year target.month))

/-- A day of the calendar, so many months from another and clamped. -/
structure Anniversary (date : CivilDate) (months : ℤ) (later : CivilDate) : Prop where
  inMonth : later.inMonth = date.inMonth + months
  day : later.day = min date.day (daysInMonth later.year later.month)

variable {date later a b : CivilDate} {months m n : ℤ}

theorem addMonthsClamped_spec (h : addMonthsClamped date months = .ok later) :
    Anniversary date months later := by
  rw [addMonthsClamped, bind_eq_ok] at h
  obtain ⟨target, htarget, h⟩ := h
  obtain ⟨hmonth, -⟩ := addMonthsStart_eq_ok htarget
  obtain rfl := pure_eq_ok.mp h
  have hday : 1 ≤ min date.day (daysInMonth target.year target.month) ∧
      min date.day (daysInMonth target.year target.month) ≤ daysInMonth target.year target.month :=
    ⟨le_min date.day_mem.1 (one_le_daysInMonth target.month_mem), min_le_right _ _⟩
  rw [civilDay_eq target.year_mem target.month_mem hday]
  exact ⟨hmonth, rfl⟩

theorem exists_addMonthsClamped (hlow : 12 ≤ date.inMonth + months)
    (hhigh : date.inMonth + months < 120000) : ∃ later, addMonthsClamped date months = .ok later :=
  ⟨_, by rw [addMonthsClamped, addMonthsStart, if_pos ⟨hlow, hhigh⟩]; rfl⟩

/-- An anniversary that the calendar has, an earlier one has too. -/
theorem exists_addMonthsClamped_of_le (h : addMonthsClamped date n = .ok b) (hm : 0 ≤ m)
    (hmn : m ≤ n) : ∃ a, addMonthsClamped date m = .ok a := by
  have hb := (addMonthsClamped_spec h).inMonth
  have hrange := b.inMonth_mem
  have hdate := date.inMonth_mem
  exact exists_addMonthsClamped (by omega) (by omega)

section

variable (ha : Anniversary date m a)

include ha

/-- **Anniversaries increase with the months.** -/
theorem Anniversary.lt_of_lt (hb : Anniversary date n b) (h : m < n) : a < b := by
  refine CivilDate.lt_of_inMonth_lt ?_
  rw [ha.inMonth, hb.inMonth]
  omega

theorem Anniversary.unique (hb : Anniversary date m b) : a = b := by
  obtain ⟨hyear, hmonth⟩ := (monthNumber_inj a.month_mem b.month_mem).mp
    (ha.inMonth.trans hb.inMonth.symm)
  exact CivilDate.ext hyear hmonth (by rw [ha.day, hb.day, hyear, hmonth])

theorem Anniversary.le_of_le (hb : Anniversary date n b) (h : m ≤ n) : a ≤ b := by
  rcases h.lt_or_eq with hlt | rfl
  · exact (ha.lt_of_lt hb hlt).le
  · exact (ha.unique hb).le

/-- The day stands no sooner than an anniversary when its month does, and within the month of the
anniversary when the day of the month has come. -/
theorem Anniversary.le_iff {day : CivilDate} :
    a ≤ day ↔ date.inMonth + m < day.inMonth ∨
      date.inMonth + m = day.inMonth ∧ min date.day (daysInMonth day.year day.month) ≤ day.day := by
  rw [← ha.inMonth]
  rcases lt_trichotomy a.inMonth day.inMonth with hlt | heq | hgt
  · exact iff_of_true (CivilDate.lt_of_inMonth_lt hlt).le (Or.inl hlt)
  · obtain ⟨hyear, hmonth⟩ := (monthNumber_inj a.month_mem day.month_mem).mp heq
    have hday := ha.day
    rw [← not_lt, CivilDate.lt_iff_stamp, CivilDate.stamp, CivilDate.stamp, hyear, hmonth, hday,
      hyear, hmonth]
    simp only [heq, lt_irrefl, true_and, false_or]
    omega
  · refine iff_of_false (not_le.mpr (CivilDate.lt_of_inMonth_lt hgt)) ?_
    omega

end

@[simp] theorem addMonthsClamped_zero (date : CivilDate) : addMonthsClamped date 0 = .ok date := by
  have hrange := date.inMonth_mem
  obtain ⟨later, hlater⟩ : ∃ later, addMonthsClamped date 0 = .ok later :=
    exists_addMonthsClamped (by omega) (by omega)
  have hspec := addMonthsClamped_spec hlater
  obtain ⟨hyear, hmonth⟩ := (monthNumber_inj later.month_mem date.month_mem).mp
    (hspec.inMonth.trans (add_zero _))
  have hday := hspec.day
  rw [hyear, hmonth, min_eq_left date.day_mem.2] at hday
  rw [hlater, CivilDate.ext hyear hmonth hday]

end OpenBooks
