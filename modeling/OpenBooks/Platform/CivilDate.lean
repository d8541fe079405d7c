import OpenBooks.Lib.Checked
import OpenBooks.Lib.FixedWidth
import Mathlib.Tactic.IntervalCases

/-!
# Civil days

A business date is a day of the Gregorian calendar in the years 1 to 9999, written
`YYYY-MM-DD`. `CivilDate` carries the proof that the day exists, so what
`parseIsoDate` returns needs no further check.

Days are counted on the line of the language's own `Date`: `utcDay` is the
whole-day part of a UTC instant. The ordinal of a day within its year is a difference on
that line, and `dayOfYear_eq` says that it is the days of the months before plus
the day of the month – between 1 and 366, so three digits hold it.
-/

namespace OpenBooks

open Checked FixedWidth List

/-! ### The calendar -/

/-- What the language's own code throws at a date it cannot hold. -/
structure RangeError where
  message : String
  deriving DecidableEq

def MONTH_DAYS : List ℕ := [31, 28, 31, 30, 31, 30, 31, 31, 30, 31, 30, 31]

def isLeap (year : ℕ) : Bool := year % 4 = 0 && (year % 100 ≠ 0 || year % 400 = 0)

def daysInMonth (year month : ℕ) : ℕ :=
  if month = 2 ∧ isLeap year then 29 else MONTH_DAYS.getD (month - 1) 0

/-- A day of the years 1 to 9999 that exists. -/
structure CivilDate where
  year : ℕ
  month : ℕ
  day : ℕ
  year_mem : 1 ≤ year ∧ year ≤ 9999
  month_mem : 1 ≤ month ∧ month ≤ 12
  day_mem : 1 ≤ day ∧ day ≤ daysInMonth year month
  deriving DecidableEq

/-- The day of three numbers; the first of all days if there is none. -/
def civilDay (year month day : ℕ) : CivilDate :=
  if h : (1 ≤ year ∧ year ≤ 9999) ∧ (1 ≤ month ∧ month ≤ 12) ∧
      (1 ≤ day ∧ day ≤ daysInMonth year month) then
    ⟨year, month, day, h.1, h.2.1, h.2.2⟩
  else ⟨1, 1, 1, by decide, by decide, by decide⟩

/-! ### Text -/

/-- A text of a shape: a `d` stands for a digit, any other character for itself. -/
def matchesShape (shape text : List Char) : Bool :=
  shape.length = text.length &&
    (shape.zip text).all fun p => if p.1 = 'd' then p.2.isDigit else p.1 = p.2

/-- The number that the characters of a text from `start` up to `stop` spell. -/
def numberAt (start stop : ℕ) (text : List Char) : ℕ :=
  Nat.ofDigitChars 10 ((text.take stop).drop start) 0

/-- The day a text denotes, if it is one of the calendar. -/
def isoCalendarDate (iso : List Char) : Option CivilDate :=
  if matchesShape "dddd-dd-dd".toList iso then
    let year := numberAt 0 4 iso
    let month := numberAt 5 7 iso
    let day := numberAt 8 10 iso
    if h : (1 ≤ year ∧ year ≤ 9999) ∧ (1 ≤ month ∧ month ≤ 12) ∧
        1 ≤ day ∧ day ≤ daysInMonth year month then
      some ⟨year, month, day, h.1, h.2.1, h.2.2⟩
    else none
  else none

def parseIsoDate (iso : List Char) : Except RangeError CivilDate :=
  orRefuse (isoCalendarDate iso)
    ⟨"business date must be a valid YYYY-MM-DD calendar date in years 0001 through 9999"⟩

/-- A day as `YYYY-MM-DD`. -/
def isoDateOf (date : CivilDate) : List Char :=
  zeroPadded 4 date.year ++ '-' :: zeroPadded 2 date.month ++ '-' :: zeroPadded 2 date.day

/-! ### The day line -/

/-- The day, counted from the start of 1970, on which a year begins. -/
def dayFromYear (year : ℕ) : ℤ :=
  365 * ((year : ℤ) - 1970) + ((year : ℤ) - 1969) / 4 - ((year : ℤ) - 1901) / 100 +
    ((year : ℤ) - 1601) / 400

/-- The days of a year before a month. -/
def daysBeforeMonth (year month : ℕ) : ℕ :=
  ((List.range' 1 (month - 1)).map (daysInMonth year)).sum

/-- The day of a UTC date, counted from the start of 1970. -/
def utcDay (year month day : ℕ) : ℤ :=
  dayFromYear year + daysBeforeMonth year month + ((day : ℤ) - 1)

/-- The ordinal of a day in its year, as the difference of two dates. -/
def dayOfYear (date : CivilDate) : ℕ :=
  (utcDay date.year date.month date.day - utcDay date.year 1 1 + 1).toNat

theorem dayOfYear_eq (date : CivilDate) :
    dayOfYear date = daysBeforeMonth date.year date.month + date.day := by
  have hday := date.day_mem.1
  have hstart : utcDay date.year 1 1 = dayFromYear date.year := by simp [utcDay, daysBeforeMonth]
  rw [dayOfYear, hstart, utcDay]
  omega

variable {year month : ℕ}

theorem daysBeforeMonth_add_le (h : 1 ≤ month ∧ month ≤ 12) :
    daysBeforeMonth year month + daysInMonth year month ≤ 366 := by
  obtain ⟨hlow, hhigh⟩ := h
  by_cases hleap : isLeap year = true <;> interval_cases month <;>
    simp [daysBeforeMonth, daysInMonth, hleap, MONTH_DAYS, range'_succ]

/-- **The ordinal of a day has at most three digits.** -/
theorem dayOfYear_lt (date : CivilDate) : dayOfYear date < 10 ^ 3 := by
  have hmonths := @daysBeforeMonth_add_le date.year _ date.month_mem
  have hday := date.day_mem.2
  rw [dayOfYear_eq]
  omega

/-! ### Stepping -/

theorem one_le_daysInMonth (h : 1 ≤ month ∧ month ≤ 12) : 1 ≤ daysInMonth year month := by
  obtain ⟨hlow, hhigh⟩ := h
  by_cases hleap : isLeap year = true <;> interval_cases month <;>
    simp [daysInMonth, hleap, MONTH_DAYS]

/-- The day after, while the calendar lasts. -/
def nextDay (date : CivilDate) : Option CivilDate :=
  if h : date.day < daysInMonth date.year date.month then
    some { date with day := date.day + 1, day_mem := ⟨by omega, h⟩ }
  else if h : date.month < 12 then
    some { date with
      month := date.month + 1, day := 1, month_mem := ⟨by omega, h⟩
      day_mem := ⟨le_refl 1, one_le_daysInMonth ⟨by omega, h⟩⟩ }
  else if h : date.year < 9999 then
    some { year := date.year + 1, month := 1, day := 1, year_mem := ⟨by omega, h⟩
           month_mem := by decide
           day_mem := ⟨le_refl 1, one_le_daysInMonth (by decide)⟩ }
  else none

def daysLater : ℕ → CivilDate → Option CivilDate
  | 0, date => some date
  | n + 1, date => nextDay date >>= daysLater n

theorem dayFromYear_succ (year : ℕ) :
    dayFromYear (year + 1) = dayFromYear year + daysBeforeMonth year 12 + 31 := by
  have hyear : (daysBeforeMonth year 12 : ℤ) + 31 = if isLeap year then 366 else 365 := by
    by_cases hleap : isLeap year = true <;>
      simp [daysBeforeMonth, daysInMonth, hleap, MONTH_DAYS, range'_succ]
  rw [add_assoc, hyear, dayFromYear, dayFromYear]
  by_cases hleap : isLeap year = true
  · rw [if_pos hleap]
    simp only [isLeap, Bool.and_eq_true, Bool.or_eq_true, decide_eq_true_eq] at hleap
    push_cast
    omega
  · rw [if_neg hleap]
    simp only [isLeap, Bool.and_eq_true, Bool.or_eq_true, decide_eq_true_eq] at hleap
    push_cast
    omega

variable {date : CivilDate}

theorem utcDay_nextDay {next : CivilDate} (h : nextDay date = some next) :
    utcDay next.year next.month next.day = utcDay date.year date.month date.day + 1 := by
  have hday := date.day_mem
  unfold nextDay at h
  split_ifs at h with hmid hmonth hyear
  · cases h
    simp only [utcDay]
    push_cast
    ring
  · cases h
    have hmonths : daysBeforeMonth date.year (date.month + 1) =
        daysBeforeMonth date.year date.month + daysInMonth date.year date.month := by
      obtain ⟨m, hm⟩ : ∃ m, date.month = m + 1 := ⟨date.month - 1, by have := date.month_mem; omega⟩
      simp [daysBeforeMonth, hm, range'_1_concat, add_comm]
    simp only [utcDay, hmonths]
    omega
  · cases h
    have hlast : date.month = 12 := by have := date.month_mem; omega
    have hdec : daysInMonth date.year 12 = 31 := by simp [daysInMonth, MONTH_DAYS]
    rw [hlast, hdec] at hday hmid
    have hjan : daysBeforeMonth (date.year + 1) 1 = 0 := rfl
    simp only [utcDay, hlast, dayFromYear_succ, hjan]
    omega

/-- **Adding days is addition on the day line.** -/
theorem utcDay_daysLater {n : ℕ} {later : CivilDate} (h : daysLater n date = some later) :
    utcDay later.year later.month later.day = utcDay date.year date.month date.day + n := by
  induction n generalizing date with
  | zero =>
    cases h
    simp
  | succ n ih =>
    obtain ⟨next, hnext, hrest⟩ := Option.bind_eq_some_iff.mp h
    rw [ih hrest, utcDay_nextDay hnext]
    push_cast
    ring

/-! ### The order of days

Texts `YYYY-MM-DD` are of one length and zero-padded, so they compare as the numbers their
digits spell; and that is the order of the day line. -/

variable {a b : CivilDate}

namespace CivilDate

/-- The number the digits of `YYYY-MM-DD` spell. -/
def stamp (date : CivilDate) : ℕ := date.year * 10000 + date.month * 100 + date.day

def dayNumber (date : CivilDate) : ℤ := utcDay date.year date.month date.day

theorem day_le (date : CivilDate) : date.day ≤ 31 := by
  have hday := date.day_mem.2
  obtain ⟨hlow, hhigh⟩ := date.month_mem
  generalize date.month = month at hday hlow hhigh
  by_cases hleap : isLeap date.year = true <;> interval_cases month <;>
    simp [daysInMonth, hleap, MONTH_DAYS] at hday <;> omega

@[ext]
theorem ext (hyear : a.year = b.year) (hmonth : a.month = b.month) (hday : a.day = b.day) :
    a = b := by
  cases a
  cases b
  simp_all

theorem stamp_injective : Function.Injective stamp := by
  intro a b h
  have ha := a.day_le
  have hb := b.day_le
  have ha' := a.month_mem
  have hb' := b.month_mem
  unfold stamp at h
  exact CivilDate.ext (by omega) (by omega) (by omega)

instance : LinearOrder CivilDate := LinearOrder.lift' stamp stamp_injective

theorem lt_iff_stamp : a < b ↔ a.stamp < b.stamp := Iff.rfl

end CivilDate

open CivilDate

theorem daysBeforeMonth_succ (h : 1 ≤ month) :
    daysBeforeMonth year (month + 1) = daysBeforeMonth year month + daysInMonth year month := by
  obtain ⟨m, rfl⟩ : ∃ m, month = m + 1 := ⟨month - 1, by omega⟩
  simp [daysBeforeMonth, range'_1_concat, add_comm]

theorem daysBeforeMonth_mono (year : ℕ) : Monotone (daysBeforeMonth year) := by
  refine monotone_nat_of_le_succ fun month => ?_
  rcases month with _ | month
  · exact le_of_eq rfl
  · rw [daysBeforeMonth_succ (Nat.succ_pos month)]
    exact Nat.le_add_right _ _

theorem dayFromYear_mono {year' : ℕ} (h : year ≤ year') : dayFromYear year ≤ dayFromYear year' := by
  refine monotone_nat_of_le_succ (fun year => ?_) h
  rw [dayFromYear_succ]
  omega

theorem CivilDate.dayNumber_lt_dayFromYear (date : CivilDate) :
    date.dayNumber < dayFromYear (date.year + 1) := by
  have hday := date.day_mem.2
  have hmonth := daysBeforeMonth_mono date.year (show date.month + 1 ≤ 13 from by
    have := date.month_mem
    omega)
  rw [daysBeforeMonth_succ date.month_mem.1, daysBeforeMonth_succ (by omega : 1 ≤ 12)] at hmonth
  have hdec : daysInMonth date.year 12 = 31 := by simp [daysInMonth, MONTH_DAYS]
  rw [dayFromYear_succ, dayNumber, utcDay]
  omega

/-- **The order of the texts is the order of the days.** -/
theorem CivilDate.dayNumber_strictMono (h : a < b) : a.dayNumber < b.dayNumber := by
  rw [lt_iff_stamp] at h
  have hday := a.day_mem
  have hday' := b.day_mem
  have ha := a.day_le
  have hb := b.day_le
  have hmonth := a.month_mem
  have hmonth' := b.month_mem
  unfold stamp at h
  rcases lt_trichotomy a.year b.year with hyear | hyear | hyear
  · have hend := a.dayNumber_lt_dayFromYear
    have hmono := dayFromYear_mono (show a.year + 1 ≤ b.year from hyear)
    have hstart : dayFromYear b.year ≤ b.dayNumber := by
      unfold dayNumber utcDay
      omega
    omega
  · rcases lt_trichotomy a.month b.month with hm | hm | hm
    · have hmono := daysBeforeMonth_mono b.year (show a.month + 1 ≤ b.month from hm)
      rw [daysBeforeMonth_succ hmonth.1] at hmono
      unfold dayNumber utcDay
      rw [hyear] at hday ⊢
      omega
    · unfold dayNumber utcDay
      rw [hyear, hm]
      omega
    · omega
  · omega

theorem CivilDate.dayNumber_inj : a.dayNumber = b.dayNumber ↔ a = b :=
  (StrictMono.injective fun _ _ => dayNumber_strictMono).eq_iff

theorem CivilDate.le_iff_dayNumber : a ≤ b ↔ a.dayNumber ≤ b.dayNumber :=
  (StrictMono.le_iff_le fun _ _ => dayNumber_strictMono).symm

theorem CivilDate.lt_iff_dayNumber : a < b ↔ a.dayNumber < b.dayNumber :=
  (StrictMono.lt_iff_lt fun _ _ => dayNumber_strictMono).symm

/-- **The texts of days stand in the order of the days.** -/
theorem isoDateOf_strictMono (h : a < b) : isoDateOf a < isoDateOf b := by
  have hday := a.day_le
  have hday' := b.day_le
  have hmonth := a.month_mem
  have hmonth' := b.month_mem
  have hyear := a.year_mem
  have hyear' := b.year_mem
  have hlength : (zeroPadded 4 a.year).length = (zeroPadded 4 b.year).length := by
    rw [length_zeroPadded_of_lt (by decide) (by omega), length_zeroPadded_of_lt (by decide) (by omega)]
  have hlength' : (zeroPadded 2 a.month).length = (zeroPadded 2 b.month).length := by
    rw [length_zeroPadded_of_lt (by decide) (by omega), length_zeroPadded_of_lt (by decide) (by omega)]
  rw [lt_iff_stamp, stamp, stamp] at h
  rw [isoDateOf, isoDateOf, append_assoc, append_assoc]
  rcases lt_trichotomy a.year b.year with hlt | heq | hgt
  · exact append_lt_append hlength (zeroPadded_lt (by decide) (by omega) hlt) _ _
  · rw [heq]
    refine append_left_lt (cons_lt_cons_iff.mpr (Or.inr ⟨rfl, ?_⟩))
    rcases lt_trichotomy a.month b.month with hlt | heq | hgt
    · exact append_lt_append hlength' (zeroPadded_lt (by decide) (by omega) hlt) _ _
    · rw [heq]
      refine append_left_lt (cons_lt_cons_iff.mpr (Or.inr ⟨rfl, ?_⟩))
      exact zeroPadded_lt (by decide) (by omega) (by omega)
    · omega
  · omega

/-! ### The day before, and the bounds of a month -/

/-- The day before, back to the start of the calendar: `addCalendarDays(iso, -1)`. -/
def prevDay (date : CivilDate) : Except RangeError CivilDate :=
  if h : 1 < date.day then
    .ok { date with day := date.day - 1, day_mem := ⟨by omega, by have := date.day_mem; omega⟩ }
  else if h : 1 < date.month then
    .ok { date with
      month := date.month - 1, day := daysInMonth date.year (date.month - 1)
      month_mem := ⟨by omega, by have := date.month_mem; omega⟩
      day_mem := ⟨one_le_daysInMonth ⟨by omega, by have := date.month_mem; omega⟩, le_refl _⟩ }
  else if h : 1 < date.year then
    .ok { year := date.year - 1, month := 12, day := 31
          year_mem := ⟨by omega, by have := date.year_mem; omega⟩
          month_mem := by decide
          day_mem := ⟨by decide, by simp [daysInMonth, MONTH_DAYS]⟩ }
  else .error ⟨"business date exceeds the supported calendar (0001 through 9999)"⟩

variable {previous : CivilDate}

theorem dayNumber_prevDay (h : prevDay date = .ok previous) :
    previous.dayNumber = date.dayNumber - 1 := by
  have hday := date.day_mem
  have hmonth := date.month_mem
  unfold prevDay at h
  split_ifs at h with hd hm hy
  · cases h
    simp only [dayNumber, utcDay]
    omega
  · cases h
    have hbefore := @daysBeforeMonth_succ date.year (date.month - 1) (by omega)
    rw [Nat.sub_add_cancel (by omega)] at hbefore
    simp only [dayNumber, utcDay]
    omega
  · cases h
    have hyear := dayFromYear_succ (date.year - 1)
    rw [Nat.sub_add_cancel (by omega)] at hyear
    have hjan : daysBeforeMonth date.year date.month = 0 := by
      rw [show date.month = 1 by omega]
      rfl
    simp only [dayNumber, utcDay]
    omega

/-- First day of the calendar month that contains a day. -/
def startOfMonth (date : CivilDate) : CivilDate :=
  { date with day := 1, day_mem := ⟨le_refl 1, one_le_daysInMonth date.month_mem⟩ }

/-- Last day of the calendar month that contains a day. -/
def endOfMonth (date : CivilDate) : CivilDate :=
  { date with
    day := daysInMonth date.year date.month
    day_mem := ⟨one_le_daysInMonth date.month_mem, le_refl _⟩ }

theorem le_endOfMonth (date : CivilDate) : date ≤ endOfMonth date := by
  rw [le_iff_dayNumber]
  have hday := date.day_mem.2
  simp only [dayNumber, utcDay, endOfMonth]
  omega

@[simp] theorem endOfMonth_endOfMonth (date : CivilDate) :
    endOfMonth (endOfMonth date) = endOfMonth date := rfl

/-- **The last day of the month is the first month end**: no day from `date` up to the end of
another month comes before it. -/
theorem endOfMonth_le {last : CivilDate} (hlast : endOfMonth last = last) (h : date ≤ last) :
    endOfMonth date ≤ last := by
  rw [← not_lt, lt_iff_stamp] at h ⊢
  have hday := date.day_le
  have hday' := last.day_le
  have hbound := (endOfMonth date).day_le
  rw [← hlast] at h ⊢
  by_cases hsame : date.year = last.year ∧ date.month = last.month
  · have hend : endOfMonth date = endOfMonth last := by
      ext <;> simp [endOfMonth, hsame.1, hsame.2]
    rw [hend]
    exact lt_irrefl _
  · have hbound' := (endOfMonth last).day_le
    have hpos := date.day_mem.1
    have hm := date.month_mem
    have hm' := last.month_mem
    simp only [stamp, endOfMonth] at h hbound hbound' ⊢
    omega

/-! ### One day on, one day back -/

theorem exists_nextDay {later : CivilDate} (h : date < later) :
    ∃ next, nextDay date = some next := by
  have hday := date.day_mem
  have hlater := later.day_le
  have hmonth := later.month_mem
  have hyear := later.year_mem
  rw [lt_iff_stamp, stamp, stamp] at h
  unfold nextDay
  split_ifs with hd hm hy
  · exact ⟨_, rfl⟩
  · exact ⟨_, rfl⟩
  · exact ⟨_, rfl⟩
  · have hdecember : date.month = 12 := by have := date.month_mem; omega
    have hlast : daysInMonth date.year date.month = 31 := by
      rw [hdecember]
      simp [daysInMonth, MONTH_DAYS]
    omega

theorem exists_prevDay {earlier : CivilDate} (h : earlier < date) :
    ∃ previous, prevDay date = .ok previous := by
  have hday := earlier.day_mem
  have hmonth := earlier.month_mem
  have hyear := earlier.year_mem
  have hdate := date.day_mem
  rw [lt_iff_stamp, stamp, stamp] at h
  unfold prevDay
  split_ifs with hd hm hy
  · exact ⟨_, rfl⟩
  · exact ⟨_, rfl⟩
  · exact ⟨_, rfl⟩
  · omega

variable {day : CivilDate}

theorem lt_nextDay_iff {next : CivilDate} (h : nextDay date = some next) :
    day < next ↔ day ≤ date := by
  have hnext : next.dayNumber = date.dayNumber + 1 := utcDay_nextDay h
  rw [lt_iff_dayNumber, le_iff_dayNumber, hnext]
  omega

theorem prevDay_lt (h : prevDay date = .ok previous) : previous < date := by
  rw [lt_iff_dayNumber, dayNumber_prevDay h]
  omega

theorem le_prevDay_iff (h : prevDay date = .ok previous) : day ≤ previous ↔ day < date := by
  rw [lt_iff_dayNumber, le_iff_dayNumber, dayNumber_prevDay h]
  omega

/-! ### Months on a line -/

/-- The day of three numbers is theirs, if it exists. -/
theorem civilDay_eq {day : ℕ} (hyear : 1 ≤ year ∧ year ≤ 9999) (hmonth : 1 ≤ month ∧ month ≤ 12)
    (hday : 1 ≤ day ∧ day ≤ daysInMonth year month) :
    civilDay year month day = ⟨year, month, day, hyear, hmonth, hday⟩ :=
  dif_pos ⟨hyear, hmonth, hday⟩

/-- The months from year zero up to a month. -/
def monthNumber (year month1 : ℕ) : ℤ := 12 * year + month1 - 1

theorem monthNumber_inj {month1 year' month1' : ℕ} (hmonth : 1 ≤ month1 ∧ month1 ≤ 12)
    (hmonth' : 1 ≤ month1' ∧ month1' ≤ 12) :
    monthNumber year month1 = monthNumber year' month1' ↔ year = year' ∧ month1 = month1' := by
  rw [monthNumber, monthNumber]
  omega

/-- The month a day is in. -/
def CivilDate.inMonth (date : CivilDate) : ℤ := monthNumber date.year date.month

theorem CivilDate.inMonth_mem (date : CivilDate) : 12 ≤ date.inMonth ∧ date.inMonth < 120000 := by
  have hyear := date.year_mem
  have hmonth := date.month_mem
  rw [inMonth, monthNumber]
  omega

theorem CivilDate.lt_of_inMonth_lt (h : a.inMonth < b.inMonth) : a < b := by
  have hday := a.day_le
  have hday' := b.day_mem
  have hmonth := a.month_mem
  have hmonth' := b.month_mem
  rw [inMonth, inMonth, monthNumber, monthNumber] at h
  rw [lt_iff_stamp, stamp, stamp]
  omega

theorem CivilDate.inMonth_mono (h : a ≤ b) : a.inMonth ≤ b.inMonth :=
  not_lt.mp fun hlt => not_le.mpr (lt_of_inMonth_lt hlt) h

/-- The first day of a month of the calendar. -/
def monthFirst (number : ℤ) : CivilDate :=
  civilDay (number / 12).toNat (number % 12 + 1).toNat 1

theorem monthFirst_spec {number : ℤ} (hlow : 12 ≤ number) (hhigh : number < 120000) :
    (monthFirst number).inMonth = number ∧ (monthFirst number).day = 1 := by
  have hmonth : 1 ≤ (number % 12 + 1).toNat ∧ (number % 12 + 1).toNat ≤ 12 := by omega
  rw [monthFirst, civilDay_eq (by omega) hmonth ⟨le_refl 1, one_le_daysInMonth hmonth⟩]
  refine ⟨?_, rfl⟩
  simp only [inMonth, monthNumber]
  omega

/-- First day of the calendar month so many months away from the month that contains a day. -/
def addMonthsStart (date : CivilDate) (months : ℤ) : Except RangeError CivilDate :=
  let number := date.inMonth + months
  if 12 ≤ number ∧ number < 120000 then .ok (monthFirst number)
  else .error ⟨"business date exceeds the supported calendar (0001 through 9999)"⟩

variable {first : CivilDate}

theorem addMonthsStart_eq_ok {months : ℤ} (h : addMonthsStart date months = .ok first) :
    first.inMonth = date.inMonth + months ∧ first.day = 1 := by
  rw [addMonthsStart] at h
  generalize date.inMonth + months = number at h ⊢
  split_ifs at h with hrange
  obtain rfl := Except.ok.inj h
  exact monthFirst_spec hrange.1 hrange.2

theorem addMonthsStart_of_le {stop : CivilDate} {months : ℤ} (hmonths : 0 ≤ months)
    (h : date.inMonth + months ≤ stop.inMonth) :
    addMonthsStart date months = .ok (monthFirst (date.inMonth + months)) := by
  have hlow := date.inMonth_mem.1
  have hhigh := stop.inMonth_mem.2
  rw [addMonthsStart, if_pos (by omega)]

theorem CivilDate.le_of_day_eq_one (hday : first.day = 1) (h : first.inMonth ≤ date.inMonth) :
    first ≤ date := by
  rcases h.lt_or_eq with hlt | heq
  · exact (lt_of_inMonth_lt hlt).le
  · obtain ⟨hyear, hmonth⟩ := (monthNumber_inj first.month_mem date.month_mem).mp heq
    have hpos := date.day_mem.1
    rw [← not_lt, lt_iff_stamp, stamp, stamp, hyear, hmonth, hday]
    omega

theorem CivilDate.dayNumber_sub_of_inMonth_eq (h : a.inMonth = b.inMonth) :
    a.dayNumber - b.dayNumber = a.day - b.day := by
  obtain ⟨hyear, hmonth⟩ := (monthNumber_inj a.month_mem b.month_mem).mp h
  rw [dayNumber, dayNumber, utcDay, utcDay, hyear, hmonth]
  ring

/-- **A month begins the day after the one before it ends.** -/
theorem dayNumber_of_inMonth_succ (hmonth : first.inMonth = date.inMonth + 1)
    (hday : first.day = 1) : first.dayNumber = (endOfMonth date).dayNumber + 1 := by
  have hdate := date.month_mem
  have hfirst := first.month_mem
  rw [inMonth, inMonth, monthNumber, monthNumber] at hmonth
  rw [dayNumber, dayNumber, utcDay, utcDay, hday]
  by_cases hlast : date.month = 12
  · obtain ⟨hyear, hjanuary⟩ : first.year = date.year + 1 ∧ first.month = 1 := by omega
    have hdecember : daysInMonth date.year 12 = 31 := by simp [daysInMonth, MONTH_DAYS]
    have hnone : daysBeforeMonth (date.year + 1) 1 = 0 := rfl
    simp only [hyear, hjanuary, endOfMonth, hlast, hdecember, dayFromYear_succ, hnone]
    omega
  · obtain ⟨hyear, hnext⟩ : first.year = date.year ∧ first.month = date.month + 1 := by omega
    simp only [hyear, hnext, endOfMonth, daysBeforeMonth_succ hdate.1]
    omega

theorem CivilDate.inMonth_endOfMonth (date : CivilDate) : (endOfMonth date).inMonth = date.inMonth :=
  rfl

theorem CivilDate.inMonth_startOfMonth (date : CivilDate) :
    (startOfMonth date).inMonth = date.inMonth :=
  rfl

theorem CivilDate.le_endOfMonth_of_inMonth_le (h : day.inMonth ≤ date.inMonth) :
    day ≤ endOfMonth date := by
  rcases h.lt_or_eq with hlt | heq
  · exact (lt_of_inMonth_lt (b := endOfMonth date) hlt).le
  · obtain ⟨hyear, hmonth⟩ := (monthNumber_inj day.month_mem date.month_mem).mp heq
    have hend : endOfMonth day = endOfMonth date := by
      ext <;> simp [endOfMonth, hyear, hmonth]
    exact hend ▸ le_endOfMonth day

/-! ### Days on a line -/

/-- Whole-day index of a day since the start of 1970: proleptic Gregorian days, counted in
400-year eras from March, so that the leap day ends each year. -/
def civilDayIndex (date : CivilDate) : ℤ :=
  let y : ℤ := if date.month ≤ 2 then date.year - 1 else date.year
  let era := y / 400
  let yearOfEra := y - era * 400
  let dayOfYear := (153 * ((date.month : ℤ) + if date.month > 2 then -3 else 9) + 2) / 5 + date.day - 1
  let dayOfEra := yearOfEra * 365 + yearOfEra / 4 - yearOfEra / 100 + dayOfYear
  era * 146097 + dayOfEra - 719468

/-- **The two counts of days agree.** -/
theorem civilDayIndex_eq (date : CivilDate) : civilDayIndex date = date.dayNumber := by
  obtain ⟨hlow, hhigh⟩ := date.month_mem
  rw [civilDayIndex, dayNumber, utcDay, dayFromYear]
  generalize date.month = month at hlow hhigh ⊢
  generalize date.year = year
  generalize date.day = day
  by_cases hleap : isLeap year = true
  all_goals
    have hyear := hleap
    simp only [isLeap, Bool.and_eq_true, Bool.or_eq_true, decide_eq_true_eq] at hyear
    interval_cases month <;>
      simp [daysBeforeMonth, daysInMonth, hleap, MONTH_DAYS, range'_succ] <;> omega

/-- Whole calendar days from one day to another. -/
def calendarDaysBetween (a b : CivilDate) : ℤ := civilDayIndex b - civilDayIndex a

/-- Whole calendar days in the inclusive window from one day to another. -/
def inclusiveCalendarDays (a b : CivilDate) : ℤ := civilDayIndex b - civilDayIndex a + 1

/-- The day so many days before. -/
def daysEarlier : ℕ → CivilDate → Except RangeError CivilDate
  | 0, date => .ok date
  | n + 1, date => prevDay date >>= daysEarlier n

/-- The day a number of days away, before it if the number is negative. -/
def shiftDays (date : CivilDate) (days : ℤ) : Except RangeError CivilDate :=
  if 0 ≤ days then
    orRefuse (daysLater days.toNat date)
      ⟨"business date exceeds the supported calendar (0001 through 9999)"⟩
  else daysEarlier (-days).toNat date

/-- An offset is a whole number that a number of the language tells apart from the next. -/
def calendarOffset (value : ℤ) : Except RangeError Unit :=
  refuseIf (9007199254740991 < |value|) ⟨"calendar offset must be a safe whole number"⟩

/-- Add (or subtract) whole days on the `YYYY-MM-DD` grid. -/
def addCalendarDays (iso : List Char) (days : ℤ) : Except RangeError (List Char) := do
  calendarOffset days
  let date ← parseIsoDate iso
  return isoDateOf (← shiftDays date days)

end OpenBooks
