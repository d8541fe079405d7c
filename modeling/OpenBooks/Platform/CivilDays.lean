import OpenBooks.Platform.CivilDate

/-!
# How far the calendar goes

Days are added while the calendar lasts: `daysLater_eq_some_iff` says which day is found,
and that there is one just when its number is at most that of the last day. The index that the
code computes of a day is this number, and the texts of days are a grid to count on
(`civilDayIndex_exact`).
-/

namespace OpenBooks

open Checked CivilDate FixedWidth List

def lastCivilDay : CivilDate := civilDay 9999 12 31

theorem le_lastCivilDay (date : CivilDate) : date ≤ lastCivilDay := by
  have hstamp : lastCivilDay.stamp = 99991231 := by decide
  have hyear := date.year_mem
  have hmonth := date.month_mem
  have hday := date.day_le
  rw [← not_lt, lt_iff_stamp, hstamp, CivilDate.stamp]
  omega

variable {date : CivilDate} {n : ℕ}

/-- **The day a number of days later is the day of that number.** -/
theorem daysLater_eq_some_iff {later : CivilDate} :
    daysLater n date = some later ↔ later.dayNumber = date.dayNumber + n := by
  refine ⟨utcDay_daysLater, fun h => ?_⟩
  induction n generalizing date with
  | zero => exact congrArg some (dayNumber_inj.mp (by simpa using h.symm))
  | succ n ih =>
    push_cast at h
    obtain ⟨next, hnext⟩ := exists_nextDay (lt_iff_dayNumber.mpr
      (show date.dayNumber < later.dayNumber by omega))
    have hnumber : next.dayNumber = date.dayNumber + 1 := utcDay_nextDay hnext
    rw [daysLater, hnext]
    exact ih (by omega)

theorem shiftDays_natCast_eq_ok {later : CivilDate} :
    shiftDays date n = .ok later ↔ later.dayNumber = date.dayNumber + n := by
  rw [shiftDays, if_pos (Int.natCast_nonneg n), Int.toNat_natCast, orRefuse_eq_ok,
    daysLater_eq_some_iff]

theorem exists_daysLater (h : date.dayNumber + n ≤ lastCivilDay.dayNumber) :
    ∃ later, daysLater n date = some later := by
  induction n generalizing date with
  | zero => exact ⟨date, rfl⟩
  | succ n ih =>
    push_cast at h
    obtain ⟨next, hnext⟩ := exists_nextDay (lt_iff_dayNumber.mpr
      (show date.dayNumber < lastCivilDay.dayNumber by omega))
    have hnumber : next.dayNumber = date.dayNumber + 1 := utcDay_nextDay hnext
    obtain ⟨later, hlater⟩ := ih (show next.dayNumber + n ≤ _ by omega)
    exact ⟨later, by rw [daysLater, hnext]; exact hlater⟩

theorem exists_dayNumber {k : ℤ} (hlow : (civilDay 1 1 1).dayNumber ≤ k)
    (hhigh : k ≤ lastCivilDay.dayNumber) : ∃ date : CivilDate, date.dayNumber = k := by
  obtain ⟨n, rfl⟩ := Int.exists_add_of_le hlow
  obtain ⟨date, hdate⟩ := exists_daysLater hhigh
  exact ⟨date, daysLater_eq_some_iff.mp hdate⟩

theorem shiftDays_isOk_iff :
    (∃ later, shiftDays date n = .ok later) ↔
      date.dayNumber + n ≤ lastCivilDay.dayNumber := by
  constructor
  · rintro ⟨later, h⟩
    rw [← shiftDays_natCast_eq_ok.mp h]
    exact le_iff_dayNumber.mp (le_lastCivilDay later)
  · intro h
    obtain ⟨later, hlater⟩ := exists_daysLater h
    exact ⟨later, shiftDays_natCast_eq_ok.mpr (daysLater_eq_some_iff.mp hlater)⟩

theorem daysEarlier_eq_ok {earlier : CivilDate} :
    daysEarlier n date = .ok earlier ↔ earlier.dayNumber = date.dayNumber - n := by
  induction n generalizing date with
  | zero => simp [daysEarlier, dayNumber_inj, eq_comm]
  | succ n ih =>
    rw [daysEarlier, bind_eq_ok]
    push_cast
    constructor
    · rintro ⟨previous, hprevious, h⟩
      have hnumber := dayNumber_prevDay hprevious
      rw [ih.mp h]
      omega
    · intro h
      obtain ⟨previous, hprevious⟩ := exists_prevDay (lt_iff_dayNumber.mpr
        (show earlier.dayNumber < date.dayNumber by omega))
      have hnumber := dayNumber_prevDay hprevious
      exact ⟨previous, hprevious, ih.mpr (by omega)⟩

/-- **The day a number of days away is the day of that number**, forward and back. -/
theorem shiftDays_eq_ok {k : ℤ} {later : CivilDate} :
    shiftDays date k = .ok later ↔ later.dayNumber = date.dayNumber + k := by
  obtain ⟨n, rfl | rfl⟩ := k.eq_nat_or_neg
  · exact shiftDays_natCast_eq_ok
  · rcases n.eq_zero_or_pos with rfl | hn
    · exact shiftDays_natCast_eq_ok
    · rw [shiftDays, if_neg (by omega), neg_neg, Int.toNat_natCast, daysEarlier_eq_ok,
        sub_eq_add_neg]

/-! ### Days as texts -/

@[simp] theorem isoCalendarDate_isoDateOf (date : CivilDate) :
    isoCalendarDate (isoDateOf date) = some date := by
  have hyear := date.year_mem
  have hmonth := date.month_mem
  have hday := date.day_le
  obtain ⟨y₁, y₂, y₃, y₄, hy⟩ := length_eq_four.mp
    (@length_zeroPadded_of_lt 4 date.year (by decide) (by omega))
  obtain ⟨m₁, m₂, hm⟩ := length_eq_two.mp
    (@length_zeroPadded_of_lt 2 date.month (by decide) (by omega))
  obtain ⟨d₁, d₂, hd⟩ := length_eq_two.mp
    (@length_zeroPadded_of_lt 2 date.day (by decide) (by omega))
  have hiso : isoDateOf date = [y₁, y₂, y₃, y₄, '-', m₁, m₂, '-', d₁, d₂] := by
    rw [isoDateOf, hy, hm, hd]
    rfl
  have hydigits := hy ▸ isDigit_zeroPadded 4 date.year
  have hmdigits := hm ▸ isDigit_zeroPadded 2 date.month
  have hddigits := hd ▸ isDigit_zeroPadded 2 date.day
  have hynumber : numberAt 0 4 (isoDateOf date) = date.year := by
    rw [hiso, ← ofDigitChars_zeroPadded 4 date.year, hy]
    rfl
  have hmnumber : numberAt 5 7 (isoDateOf date) = date.month := by
    rw [hiso, ← ofDigitChars_zeroPadded 2 date.month, hm]
    rfl
  have hdnumber : numberAt 8 10 (isoDateOf date) = date.day := by
    rw [hiso, ← ofDigitChars_zeroPadded 2 date.day, hd]
    rfl
  rw [isoCalendarDate, if_pos (by rw [hiso]; simp_all [matchesShape])]
  simp only [hynumber, hmnumber, hdnumber]
  exact dif_pos ⟨date.year_mem, date.month_mem, date.day_mem⟩

theorem length_eq_ten {s : List Char} (h : s.length = 10) :
    ∃ y₁ y₂ y₃ y₄ c m₁ m₂ c' d₁ d₂, s = [y₁, y₂, y₃, y₄, c, m₁, m₂, c', d₁, d₂] :=
  match s, h with
  | [_, _, _, _, _, _, _, _, _, _], _ => ⟨_, _, _, _, _, _, _, _, _, _, rfl⟩

theorem isoDateOf_of_isoCalendarDate {iso : List Char} (h : isoCalendarDate iso = some date) :
    isoDateOf date = iso := by
  rw [isoCalendarDate] at h
  split_ifs at h with hshape
  dsimp only at h
  split_ifs at h
  obtain rfl := Option.some.inj h
  rw [matchesShape, Bool.and_eq_true, decide_eq_true_eq] at hshape
  obtain ⟨hlength, hshape⟩ := hshape
  obtain ⟨y₁, y₂, y₃, y₄, c, m₁, m₂, c', d₁, d₂, rfl⟩ := length_eq_ten hlength.symm
  simp at hshape
  obtain ⟨hy₁, hy₂, hy₃, hy₄, rfl, hm₁, hm₂, rfl, hd₁, hd₂⟩ := hshape
  have hyear := @zeroPadded_ofDigitChars 4 [y₁, y₂, y₃, y₄] (by decide) rfl (by simp [*])
  have hmonth := @zeroPadded_ofDigitChars 2 [m₁, m₂] (by decide) rfl (by simp [*])
  have hday := @zeroPadded_ofDigitChars 2 [d₁, d₂] (by decide) rfl (by simp [*])
  change zeroPadded 4 _ ++ '-' :: zeroPadded 2 _ ++ '-' :: zeroPadded 2 _ = _
  exact congr_arg₂ _ (congr_arg₂ _ hyear (congrArg _ hmonth)) (congrArg _ hday)

/-! ### Counting on the grid of texts -/

/-- The text of the day of an index. Before and after the calendar days are written as well, on a
grid that repeats every 400 years, as far as a `Date` reaches. -/
def isoFromCivilDayIndex (day : ℤ) : Except RangeError (List Char) := do
  calendarOffset day
  match shiftDays (civilDay 1970 1 1) day with
  | .ok date => return isoDateOf date
  | .error _ =>
    if 100000000 < |day| then return "0NaN-NaN-NaN".toList
    let date ← shiftDays (civilDay 1970 1 1) (day % 146097)
    let year := FixedWidth.padStart 4 '0' (toString (date.year + day / 146097 * 400)).toList
    return year ++ '-' :: zeroPadded 2 date.month ++ '-' :: zeroPadded 2 date.day

theorem CivilDate.dayNumber_mem (date : CivilDate) :
    -719162 ≤ date.dayNumber ∧ date.dayNumber ≤ 2932896 := by
  have hfirst : civilDay 1 1 1 ≤ date := by
    have hyear := date.year_mem
    have hmonth := date.month_mem
    have hday := date.day_mem
    rw [← not_lt, lt_iff_stamp, show (civilDay 1 1 1).stamp = 10101 by decide,
      CivilDate.stamp]
    omega
  exact ⟨le_iff_dayNumber.mp hfirst, le_iff_dayNumber.mp (le_lastCivilDay date)⟩

theorem parseIsoDate_eq_ok {iso : List Char} :
    parseIsoDate iso = .ok date ↔ isoDateOf date = iso := by
  rw [parseIsoDate, orRefuse_eq_ok]
  exact ⟨isoDateOf_of_isoCalendarDate, fun h => h ▸ isoCalendarDate_isoDateOf date⟩

theorem addCalendarDays_isoDateOf {later : CivilDate} {k : ℤ}
    (h : later.dayNumber = date.dayNumber + k) :
    addCalendarDays (isoDateOf date) k = .ok (isoDateOf later) := by
  have hdate := date.dayNumber_mem
  have hlater := later.dayNumber_mem
  simp only [addCalendarDays, calendarOffset, bind_eq_ok, refuseIf_eq_ok, pure_eq_ok,
    parseIsoDate_eq_ok]
  exact ⟨(), by rw [not_lt, abs_le]; omega, date, rfl, later, shiftDays_eq_ok.mpr h, rfl⟩

/-- An index of a day in the years 1 to 9999. -/
def IsCivilDayIndex (k : ℤ) : Prop :=
  civilDayIndex (civilDay 1 1 1) ≤ k ∧ k ≤ civilDayIndex lastCivilDay

/-- **The index of a day is its place in the count of days**, and in the order of the texts. -/
theorem civilDayIndex_exact {s t : List Char} {a b : CivilDate} (hs : parseIsoDate s = .ok a)
    (ht : parseIsoDate t = .ok b) :
    (civilDayIndex a < civilDayIndex b ↔ s < t) ∧
    (nextDay a = some b → civilDayIndex b = civilDayIndex a + 1) ∧
    isoFromCivilDayIndex (civilDayIndex a) = .ok s ∧
    (∀ k, IsCivilDayIndex (civilDayIndex a + k) → ∃ u c, addCalendarDays s k = .ok u ∧
      parseIsoDate u = .ok c ∧ civilDayIndex c = civilDayIndex a + k) ∧
    ∀ k l, IsCivilDayIndex (civilDayIndex a + k) → IsCivilDayIndex (civilDayIndex a + (k + l)) →
      (addCalendarDays s k >>= fun u => addCalendarDays u l) =
        addCalendarDays s (k + l) := by
  obtain rfl := parseIsoDate_eq_ok.mp hs
  obtain rfl := parseIsoDate_eq_ok.mp ht
  simp only [civilDayIndex_eq, IsCivilDayIndex]
  refine ⟨?_, utcDay_nextDay, ?_, fun k hk => ?_, fun k l hk hl => ?_⟩
  · refine lt_iff_dayNumber.symm.trans ⟨isoDateOf_strictMono, fun h => ?_⟩
    rcases lt_trichotomy a b with hlt | rfl | hgt
    · exact hlt
    · exact absurd h (List.lt_irrefl _)
    · exact absurd (isoDateOf_strictMono hgt) (List.lt_asymm h)
  · have hbounds := a.dayNumber_mem
    have hepoch : (civilDay 1970 1 1).dayNumber = 0 := by decide
    have hshift : shiftDays (civilDay 1970 1 1) a.dayNumber = .ok a :=
      shiftDays_eq_ok.mpr (by rw [hepoch, zero_add])
    simp only [isoFromCivilDayIndex, calendarOffset, hshift, bind_eq_ok, refuseIf_eq_ok, pure_eq_ok]
    exact ⟨(), by rw [not_lt, abs_le]; omega, trivial⟩
  · obtain ⟨c, hc⟩ := exists_dayNumber hk.1 hk.2
    exact ⟨_, c, addCalendarDays_isoDateOf hc, parseIsoDate_eq_ok.mpr rfl, hc⟩
  · obtain ⟨c, hc⟩ := exists_dayNumber hk.1 hk.2
    obtain ⟨d, hd⟩ := exists_dayNumber hl.1 hl.2
    rw [addCalendarDays_isoDateOf hc, addCalendarDays_isoDateOf hd]
    exact addCalendarDays_isoDateOf (by omega)

theorem civilDayIndex_exact_leap :
    addCalendarDays "2024-02-28".toList 1 = .ok "2024-02-29".toList ∧
      ("2024-02-28".toList < "2024-02-29".toList) :=
  have h := @civilDayIndex_exact "2024-02-28".toList "2024-02-29".toList (civilDay 2024 2 28)
    (civilDay 2024 2 29) (by decide) (by decide)
  ⟨by decide, h.1.mp (by decide)⟩

end OpenBooks
