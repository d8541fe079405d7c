import OpenBooks.Platform.CivilDate

/-!
# The billing cadence

Each next bill date advances the year and month of the current one and takes its day from an
*anchor*, clamped to the length of the target month: an anchor of 31 steps from 31 January to 28
February and from there to 31 March.

The scheduler's `advanceSubscription` and the contract's `advanceLifecycleDate` are the same step
under different refusals, so they part only where they are given different anchors.
`stepCadence_eq_iff` says when they meet nevertheless: weekly always, otherwise just when the target
month clamps both anchors to the same day.
-/

namespace OpenBooks

open Checked

inductive Interval where
  | weekly
  | monthly
  | quarterly
  | annually
  deriving DecidableEq

/-- The months of one interval; a week has none. -/
def Interval.months : Interval → ℕ
  | .weekly => 0
  | .monthly => 1
  | .quarterly => 3
  | .annually => 12

/-- The largest interval count the store holds. -/
def POSTGRES_INTEGER_MAX : ℕ := 2147483647

/-! ### Stepping by months -/

/-- The year of the month `monthStep` months after a month. -/
def targetYear (year month1 monthStep : ℕ) : ℕ := year + (month1 - 1 + monthStep) / 12

/-- The month `monthStep` months after a month, from 1 to 12. -/
def targetMonth (month1 monthStep : ℕ) : ℕ := (month1 - 1 + monthStep) % 12 + 1

theorem targetMonth_mem (month1 monthStep : ℕ) :
    1 ≤ targetMonth month1 monthStep ∧ targetMonth month1 monthStep ≤ 12 := by
  unfold targetMonth
  omega

/-- Advance a month by `monthStep` months, pinning the day to `anchorDay` clamped to the
target month's length. -/
def advanceAnchoredMonth (year month1 monthStep anchorDay : ℕ) : Except String CivilDate :=
  if ¬(1 ≤ month1 ∧ month1 ≤ 12) then
    .error "cadence source month is not a valid calendar month"
  else if monthStep < 1 then
    .error "cadence month step must be a positive integer"
  else if h : 1 ≤ anchorDay ∧ anchorDay ≤ 31 then
    let toYear := targetYear year month1 monthStep
    let toMonth := targetMonth month1 monthStep
    if hyear : 1 ≤ toYear ∧ toYear ≤ 9999 then
      .ok
        { year := toYear, month := toMonth, day := min anchorDay (daysInMonth toYear toMonth)
          year_mem := hyear
          month_mem := targetMonth_mem month1 monthStep
          day_mem := ⟨le_min h.1 (one_le_daysInMonth (targetMonth_mem month1 monthStep)),
            min_le_right _ _⟩ }
    else .error "cadence step falls outside the supported date range"
  else .error "cadence anchor day must be between 1 and 31"

theorem advanceAnchoredMonth_eq_ok {year month1 monthStep anchorDay : ℕ} {date : CivilDate}
    (h : advanceAnchoredMonth year month1 monthStep anchorDay = .ok date) :
    1 ≤ monthStep ∧ date.year = targetYear year month1 monthStep ∧
      date.month = targetMonth month1 monthStep ∧
      date.day = min anchorDay (daysInMonth (targetYear year month1 monthStep)
        (targetMonth month1 monthStep)) := by
  unfold advanceAnchoredMonth at h
  dsimp only at h
  split_ifs at h with hmonth hstep hanchor hyear
  cases h
  exact ⟨by omega, rfl, rfl, rfl⟩

/-! ### One interval -/

/-- The step of a cadence: weeks count days, every other interval counts months from the
date and pins the anchor day, by default the date's own. -/
def stepCadence (countRefusal rangeRefusal : String) (date : CivilDate) (interval : Interval)
    (intervalCount : ℕ) (anchorDay : Option ℕ) : Except String CivilDate := do
  refuseIf (¬(1 ≤ intervalCount ∧ intervalCount ≤ POSTGRES_INTEGER_MAX)) countRefusal
  if interval = .weekly then
    orRefuse (daysLater (7 * intervalCount) date) rangeRefusal
  else do
    let anchor := anchorDay.getD date.day
    refuseIf (¬(1 ≤ anchor ∧ anchor ≤ 31)) "billing anchor day must be between 1 and 31"
    (advanceAnchoredMonth date.year date.month (interval.months * intervalCount)
      anchor).mapError fun _ => rangeRefusal

/-- Advance a bill date by one billing interval. -/
def advanceSubscription :
    CivilDate → Interval → ℕ → Option ℕ → Except String CivilDate :=
  stepCadence "interval count must be a positive integer"
    "billing cadence advances outside the supported date range"

def advanceLifecycleDate :
    CivilDate → Interval → ℕ → Option ℕ → Except String CivilDate :=
  stepCadence "interval count must be a positive whole number"
    "billing date exceeds the supported calendar"

section Steps

variable {countRefusal rangeRefusal : String} {date next : CivilDate} {interval : Interval}
  {intervalCount : ℕ} {anchorDay : Option ℕ}

theorem stepCadence_cases
    (h : stepCadence countRefusal rangeRefusal date interval intervalCount anchorDay = .ok next) :
    1 ≤ intervalCount ∧
      ((interval = .weekly ∧ daysLater (7 * intervalCount) date = some next) ∨
        (interval ≠ .weekly ∧
          advanceAnchoredMonth date.year date.month (interval.months * intervalCount)
            (anchorDay.getD date.day) = .ok next)) := by
  simp only [stepCadence, bind_eq_ok, refuseIf_eq_ok, not_not] at h
  obtain ⟨_, hcount, h⟩ := h
  refine ⟨hcount.1, ?_⟩
  split_ifs at h with hweekly
  · exact .inl ⟨hweekly, orRefuse_eq_ok.mp h⟩
  · simp only [bind_eq_ok, refuseIf_eq_ok, mapError_eq_ok] at h
    obtain ⟨_, -, h⟩ := h
    exact .inr ⟨hweekly, h⟩

theorem lt_of_targetMonth {monthStep : ℕ} (hstep : 1 ≤ monthStep)
    (hyear : next.year = targetYear date.year date.month monthStep)
    (hmonth : next.month = targetMonth date.month monthStep) : date < next := by
  have hday := date.day_le
  have hfrom := date.month_mem
  have hpos := next.day_mem.1
  rw [CivilDate.lt_iff_stamp, CivilDate.stamp, CivilDate.stamp, hyear, hmonth, targetYear,
    targetMonth]
  omega

/-- **A cadence moves forward.** -/
theorem lt_of_stepCadence
    (h : stepCadence countRefusal rangeRefusal date interval intervalCount anchorDay = .ok next) :
    date < next := by
  obtain ⟨hcount, ⟨-, hdays⟩ | ⟨-, hmonths⟩⟩ := stepCadence_cases h
  · rw [CivilDate.lt_iff_dayNumber, CivilDate.dayNumber, CivilDate.dayNumber,
      utcDay_daysLater hdays]
    omega
  · obtain ⟨hstep, hyear, hmonth, -⟩ := advanceAnchoredMonth_eq_ok hmonths
    exact lt_of_targetMonth hstep hyear hmonth

/-- Whether two anchors are the same day of the month a step from `date` leads to. -/
def SameAnchor (date : CivilDate) (interval : Interval) (intervalCount anchor anchor' : ℕ) :
    Prop :=
  interval = .weekly ∨
    min anchor (daysInMonth (targetYear date.year date.month (interval.months * intervalCount))
        (targetMonth date.month (interval.months * intervalCount))) =
      min anchor' (daysInMonth (targetYear date.year date.month (interval.months * intervalCount))
        (targetMonth date.month (interval.months * intervalCount)))

instance (date : CivilDate) (interval : Interval) (intervalCount anchor anchor' : ℕ) :
    Decidable (SameAnchor date interval intervalCount anchor anchor') :=
  inferInstanceAs (Decidable (_ ∨ _))

/-- **Two steps of one cadence meet just when the target month clamps their anchors to the
same day.** -/
theorem stepCadence_eq_iff {countRefusal' rangeRefusal' : String} {next' : CivilDate}
    {anchor anchor' : ℕ}
    (h : stepCadence countRefusal rangeRefusal date interval intervalCount (some anchor) =
      .ok next)
    (h' : stepCadence countRefusal' rangeRefusal' date interval intervalCount (some anchor') =
      .ok next') :
    next' = next ↔ SameAnchor date interval intervalCount anchor anchor' := by
  obtain ⟨-, ⟨hweekly, hdays⟩ | ⟨hweekly, hmonths⟩⟩ := stepCadence_cases h
  · obtain ⟨-, ⟨-, hdays'⟩ | ⟨hweekly', -⟩⟩ := stepCadence_cases h'
    · rw [hdays] at hdays'
      exact iff_of_true (Option.some.inj hdays').symm (.inl hweekly)
    · exact absurd hweekly hweekly'
  · obtain ⟨-, ⟨hweekly', -⟩ | ⟨-, hmonths'⟩⟩ := stepCadence_cases h'
    · exact absurd hweekly' hweekly
    · obtain ⟨-, hyear, hmonth, hday⟩ := advanceAnchoredMonth_eq_ok hmonths
      obtain ⟨-, hyear', hmonth', hday'⟩ := advanceAnchoredMonth_eq_ok hmonths'
      simp only [Option.getD_some] at hday hday'
      constructor
      · rintro rfl
        exact .inr (hday.symm.trans hday')
      · rintro (hw | hsame)
        · exact absurd hw hweekly
        · ext
          · rw [hyear, hyear']
          · rw [hmonth, hmonth']
          · rw [hday, hday', hsame]

end Steps

end OpenBooks
