import OpenBooks.Allocations.Shares
import OpenBooks.Lib.ListSum
import OpenBooks.Platform.CivilDays
import Mathlib.Data.Set.Card

/-!
# Recognition schedules

`computeRecognitionSchedule` plans the revenue of one obligation month by month. The
straight-line methods spread the total over the months of a term, evenly or by the days of the
term in each month, after an initial percentage that falls into the first month.

Each month's weight under the daily methods is the number of days that the term has in it
(`weight_eq_ncard`), and they make up the term. Whatever the weights, the plan sums to
the total and never changes sign.

Dates are given as texts and refused unless the calendar has them. Percentages are in
ten-thousandths of a percent.
-/

namespace OpenBooks

open Checked List CivilDate

/-! ### Input -/

/-- A refusal of the schedule, of the calendar, or of the apportionment. -/
inductive RecognitionError
  | recognition (message : String)
  | range (e : RangeError)
  | money (message : String)

inductive RecognitionMethod
  | pointInTime
  | straightLineEven
  | straightLineProrateFirstLast
  | straightLineDaily
  | percentComplete
  | milestone
  | usage
  deriving DecidableEq

structure RecognitionEvent where
  periodMonth : String
  amount : ℤ

structure RecognitionInput where
  total : ℤ
  method : RecognitionMethod
  startOn : String
  endOn : Option String := none
  termPeriods : Option ℤ := none
  startOffsetDays : Option ℤ := none
  initialAmountPercent : Option ℤ := none
  periodOffset : Option ℤ := none
  percentComplete : Option ℤ := none
  alreadyRecognized : Option ℤ := none
  events : Option (List RecognitionEvent) := none

structure RecognitionLinePlan where
  sequence : ℕ
  periodMonth : CivilDate
  planned : ℤ
  cumulative : ℤ

def MAX_RECOGNITION_TERM_MONTHS : ℤ := 1200

def MIN_RECOGNITION_DAY_OFFSET : ℤ := -2147483648

def MAX_RECOGNITION_DAY_OFFSET : ℤ := 2147483647

/-- One hundred percent. -/
def MAX_RECOGNITION_INITIAL_PERCENT : ℤ := 1000000

def recognitionDate (value label : String) : Except RecognitionError CivilDate :=
  orRefuse (isoCalendarDate value.toList)
    (.recognition (label ++ " must be a valid ISO calendar date"))

def recognitionInteger (value : ℤ) (label : String) (minimum : ℤ) : Except RecognitionError ℤ :=
  if value < minimum ∨ MAX_RECOGNITION_DAY_OFFSET < value then
    .error (.recognition (label ++ " must be a whole number from " ++ toString minimum ++
      " through " ++ toString MAX_RECOGNITION_DAY_OFFSET))
  else .ok value

/-- The first day of a month. -/
def eventMonth (value : String) : Except RecognitionError CivilDate := do
  let date ← recognitionDate value "event month"
  refuseIf (date.day ≠ 1)
    (.recognition "event month must be the first day of a calendar month")
  return date

/-- A step on the calendar that must not leave it. -/
def onRecognitionCalendar {α : Type} (step : Except RangeError α) : Except RecognitionError α :=
  step.mapError fun _ => .recognition "recognition date exceeds the supported calendar"

def shiftRecognitionDate (date : CivilDate) (days : ℤ) : Except RecognitionError CivilDate := do
  let days ← recognitionInteger days "day offset" MIN_RECOGNITION_DAY_OFFSET
  onRecognitionCalendar (shiftDays date days)

/-! ### The term -/

theorem four_le_eighteen : 4 ≤ 18 := by decide

/-- A percentage of the total, from none to all of it. -/
def pctOf (totalUnits percent : ℤ) : Except RecognitionError ℤ :=
  if percent < 0 ∨ MAX_RECOGNITION_INITIAL_PERCENT < percent then
    .error (.recognition "recognition percentage must be a decimal from 0 through 100")
  else .ok (mulPercent totalUnits ⟨percent, 4, four_le_eighteen⟩ 4)

/-- The last day of the term: the one given, else the end of the last of its months. -/
def resolveEnd (start : CivilDate) (endOn : Option CivilDate) (termPeriods : Option ℤ) :
    Except RecognitionError CivilDate :=
  match endOn with
  | some stop => .ok stop
  | none => do
    let term ← recognitionInteger (termPeriods.getD 1) "recognition term" 1
    let last ← onRecognitionCalendar (addMonthsStart start (term - 1))
    return endOfMonth last

/-- The months a term touches, the first and the last included. -/
def monthSpan (start stop : CivilDate) : ℤ := stop.inMonth - start.inMonth + 1

/-- The days of the `i`-th of `n` months that are in the term, the first and last months clipped. -/
def prorateWeight (start stop : CivilDate) (n i : ℕ) (month : CivilDate) : ℤ :=
  if n = 1 then inclusiveCalendarDays start stop
  else if i = 0 then inclusiveCalendarDays start (endOfMonth start)
  else if i = n - 1 then inclusiveCalendarDays month stop
  else inclusiveCalendarDays month (endOfMonth month)

/-- The days of the `i`-th of `n` months that are in the term. -/
def dailyWeight (start stop : CivilDate) (n i : ℕ) (month : CivilDate) : ℤ :=
  let segStart := if i = 0 then start else month
  let segEnd := if i = n - 1 then stop else endOfMonth month
  inclusiveCalendarDays segStart segEnd

def weighMonths (weigh : ℕ → ℕ → CivilDate → ℤ) (start : CivilDate) (n : ℕ) :
    Except RecognitionError (List ℤ) :=
  (List.range n).mapM fun (i : ℕ) => do
    let month ← (addMonthsStart (startOfMonth start) i).mapError .range
    return weigh n i month

/-- The weights of a straight-line method; the other methods have none. -/
def recognitionWeights (method : RecognitionMethod) (start stop : CivilDate) :
    Except RecognitionError (List ℤ) :=
  let n := (max 1 (monthSpan start stop)).toNat
  match method with
  | .straightLineEven => .ok (List.replicate n 1)
  | .straightLineProrateFirstLast => weighMonths (prorateWeight start stop) start n
  | .straightLineDaily => weighMonths (dailyWeight start stop) start n
  | _ => .ok []

/-- Spread the total over the months, after the part that the first takes up front. -/
def spreadWithInitial (input : RecognitionInput) (start : CivilDate) (weights : List ℤ) :
    Except RecognitionError (List (CivilDate × ℤ)) := do
  let initialUnits ← pctOf input.total (input.initialAmountPercent.getD 0)
  let parts ← (apportion (input.total - initialUnits) weights .largestRemainder).mapError .money
  (parts.modify 0 (· + initialUnits)).zipIdx.mapM fun p => do
    let month ← (addMonthsStart start p.2).mapError .range
    return (month, p.1)

/-! ### The schedule -/

def RecognitionMethod.isStraightLine : RecognitionMethod → Bool
  | .straightLineEven => true
  | .straightLineProrateFirstLast => true
  | .straightLineDaily => true
  | _ => false

/-- The term is not inverted, and not too long to be planned. -/
def checkTerm (start stop : CivilDate) : Except RecognitionError Unit := do
  refuseIf (calendarDaysBetween start stop < 0) (RecognitionError.recognition
    ("recognition end (" ++ String.ofList (isoDateOf stop) ++ ") precedes the recognition start (" ++
      String.ofList (isoDateOf start) ++ ")"))
  refuseIf (MAX_RECOGNITION_TERM_MONTHS < monthSpan start stop) (RecognitionError.recognition
    ("recognition schedule must span no more than " ++ toString MAX_RECOGNITION_TERM_MONTHS ++
      " months"))

/-- What is recognized in which months, before they are shifted. -/
def recognitionUnits (input : RecognitionInput) (rawStart : CivilDate) (endOn : Option CivilDate) :
    Except RecognitionError (List (CivilDate × ℤ)) := do
  let start := startOfMonth rawStart
  match input.method with
  | .pointInTime => return [(start, input.total)]
  | .percentComplete => do
    let target ← pctOf input.total (input.percentComplete.getD 0)
    return [(start, target - input.alreadyRecognized.getD 0)]
  | .milestone | .usage => (input.events.getD []).mapM fun e => do
    let month ← eventMonth e.periodMonth
    return (month, e.amount)
  | _ => do
    let stop ← resolveEnd rawStart endOn input.termPeriods
    let weights ← recognitionWeights input.method rawStart stop
    spreadWithInitial input start weights

/-- The lines of the plan, with their running sum. -/
def planLines (periodOffset : ℤ) : ℕ → ℤ → List (CivilDate × ℤ) →
    Except RecognitionError (List RecognitionLinePlan)
  | _, _, [] => .ok []
  | idx, cumulative, (month, units) :: rest => do
    let periodMonth ← onRecognitionCalendar (addMonthsStart month periodOffset)
    let lines ← planLines periodOffset (idx + 1) (cumulative + units) rest
    return { sequence := idx
             periodMonth := periodMonth
             planned := units
             cumulative := cumulative + units } :: lines

def computeRecognitionSchedule (input : RecognitionInput) :
    Except RecognitionError (List RecognitionLinePlan) := do
  let startOn ← recognitionDate input.startOn "recognition start"
  let endOn ← input.endOn.mapM fun value => recognitionDate value "recognition end"
  onlyIf (input.termPeriods.isSome = true) (do
    let term ← recognitionInteger (input.termPeriods.getD 1) "recognition term" 1
    refuseIf (MAX_RECOGNITION_TERM_MONTHS < term) (RecognitionError.recognition
      ("recognition term must be a whole number from 1 through " ++
        toString MAX_RECOGNITION_TERM_MONTHS ++ " months")))
  let periodOffset ← recognitionInteger (input.periodOffset.getD 0) "period offset" 0
  refuseIf (MAX_RECOGNITION_TERM_MONTHS < periodOffset) (RecognitionError.recognition
    ("period offset must be a whole number from 0 through " ++
      toString MAX_RECOGNITION_TERM_MONTHS))
  let rawStart ← shiftRecognitionDate startOn (input.startOffsetDays.getD 0)
  onlyIf (input.method.isStraightLine = true) (do
    let stop ← resolveEnd rawStart endOn input.termPeriods
    checkTerm rawStart stop)
  let lines ← recognitionUnits input rawStart endOn
  planLines periodOffset 0 0 lines

/-! ### Days of a term -/

theorem inclusiveCalendarDays_eq (a b : CivilDate) :
    inclusiveCalendarDays a b = b.dayNumber - a.dayNumber + 1 := by
  rw [inclusiveCalendarDays, civilDayIndex_eq, civilDayIndex_eq]

/-- **The inclusive days are the days there are.** -/
theorem ncard_Icc {a b : CivilDate} (h : a ≤ b) :
    ((Set.Icc a b).ncard : ℤ) = inclusiveCalendarDays a b := by
  obtain ⟨n, hn⟩ : ∃ n : ℕ, b.dayNumber = a.dayNumber + n :=
    Int.le.dest (le_iff_dayNumber.mp h) |>.imp fun n hn => hn.symm
  rw [inclusiveCalendarDays_eq]
  induction n generalizing b with
  | zero =>
    obtain rfl : b = a := dayNumber_inj.mp (by simpa using hn)
    simp
  | succ n ih =>
    push_cast at hn
    have hlt : a < b := lt_iff_dayNumber.mpr (by omega)
    obtain ⟨previous, hprevious⟩ := exists_prevDay hlt
    have hnumber := dayNumber_prevDay hprevious
    have hle : a ≤ previous := (le_prevDay_iff hprevious).mpr hlt
    -- one day more than up to the day before
    have hinsert : Set.Icc a b = insert b (Set.Icc a previous) := by
      ext day
      rw [Set.mem_insert_iff, Set.mem_Icc, Set.mem_Icc, le_prevDay_iff hprevious]
      constructor
      · rintro ⟨hlow, hhigh⟩
        rcases hhigh.lt_or_eq with hhigh | rfl
        · exact Or.inr ⟨hlow, hhigh⟩
        · exact Or.inl rfl
      · rintro (rfl | ⟨hlow, hhigh⟩)
        · exact ⟨hlt.le, le_refl _⟩
        · exact ⟨hlow, hhigh.le⟩
    have hnew : b ∉ Set.Icc a previous := fun hmem =>
      absurd hmem.2 (not_le.mpr (prevDay_lt hprevious))
    have hcard := ih hle (by omega)
    have hfinite : (Set.Icc a previous).Finite :=
      Set.finite_of_ncard_pos (by omega)
    rw [hinsert, Set.ncard_insert_of_notMem hnew hfinite]
    push_cast
    omega

structure TermMonth (start stop : CivilDate) (n i : ℕ) (month : CivilDate) : Prop where
  lt : i < n
  last : stop.inMonth = start.inMonth + n - 1
  inMonth : month.inMonth = start.inMonth + i
  day : month.day = 1

variable {weights : List ℤ}

section Term

variable {start stop month : CivilDate} {n i : ℕ}

section

variable (h : TermMonth start stop n i month)

include h

/-- The two daily methods clip the same months. -/
theorem prorateWeight_eq :
    prorateWeight start stop n i month = dailyWeight start stop n i month := by
  have hlt := h.lt
  rw [prorateWeight, dailyWeight]
  by_cases hone : n = 1
  · rw [if_pos hone, if_pos (by omega), if_pos (by omega)]
  · rw [if_neg hone]
    by_cases hzero : i = 0
    · have hend : endOfMonth month = endOfMonth start := by
        obtain ⟨hyear, hmonth⟩ := (monthNumber_inj month.month_mem start.month_mem).mp
          (show month.inMonth = start.inMonth by rw [h.inMonth, hzero]; simp)
        ext <;> simp [endOfMonth, hyear, hmonth]
      rw [if_pos hzero, if_pos hzero, if_neg (by omega), hend]
    · rw [if_neg hzero, if_neg hzero]
      split_ifs <;> rfl

/-- The days of the term in a month are a window of the month. -/
theorem segment_eq :
    {date : CivilDate | start ≤ date ∧ date ≤ stop ∧ date.inMonth = start.inMonth + i} =
      Set.Icc (if i = 0 then start else month) (if i = n - 1 then stop else endOfMonth month) := by
  obtain ⟨hlt, hlast, hmonth, hday⟩ := h
  ext date
  rw [Set.mem_ofPred_eq, Set.mem_Icc]
  constructor
  · rintro ⟨hlow, hhigh, hdate⟩
    constructor
    · split_ifs
      · exact hlow
      · exact le_of_day_eq_one hday (by omega)
    · split_ifs
      · exact hhigh
      · exact le_endOfMonth_of_inMonth_le (by omega)
  · rintro ⟨hlow, hhigh⟩
    have hlow' : start.inMonth + i ≤ date.inMonth := by
      have := inMonth_mono hlow
      split_ifs at this <;> omega
    have hhigh' : date.inMonth ≤ start.inMonth + i := by
      have := inMonth_mono hhigh
      split_ifs at this
      · omega
      · rw [inMonth_endOfMonth] at this
        omega
    refine ⟨?_, ?_, by omega⟩
    · split_ifs at hlow
      · exact hlow
      · exact (lt_of_inMonth_lt (by omega)).le
    · split_ifs at hhigh
      · exact hhigh
      · exact (lt_of_inMonth_lt (by omega)).le

/-- **A month's weight is the number of days that the term has in it.** -/
theorem weight_eq_ncard (hterm : start ≤ stop) :
    dailyWeight start stop n i month = ({date : CivilDate | start ≤ date ∧ date ≤ stop ∧
      date.inMonth = start.inMonth + i}.ncard : ℤ) := by
  rw [segment_eq h, ncard_Icc]
  · rfl
  · obtain ⟨hlt, hlast, hmonth, hday⟩ := h
    split_ifs with hfirst hstop hstop
    · exact hterm
    · exact le_endOfMonth_of_inMonth_le (by omega)
    · exact le_of_day_eq_one hday (by omega)
    · exact le_endOfMonth month

/-- Where the days of the `i`-th month begin, and after the last one where the term has ended. -/
def boundary (start stop : CivilDate) (n i : ℕ) : ℤ :=
  if i = 0 then start.dayNumber
  else if i = n then stop.dayNumber + 1
  else (monthFirst (start.inMonth + i)).dayNumber

/-- **A month's weight runs from one boundary to the next.** -/
theorem dailyWeight_eq_sub :
    dailyWeight start stop n i month = boundary start stop n (i + 1) - boundary start stop n i := by
  obtain ⟨hlt, hlast, hmonth, hday⟩ := h
  have hrange := stop.inMonth_mem
  have hrange' := start.inMonth_mem
  have hfirst : (monthFirst (start.inMonth + i)).dayNumber = month.dayNumber := by
    obtain ⟨hin, hone⟩ := monthFirst_spec (show 12 ≤ start.inMonth + i by omega) (by omega)
    have := dayNumber_sub_of_inMonth_eq (hin.trans hmonth.symm)
    omega
  have hnext : i + 1 ≠ n → (monthFirst (start.inMonth + (i + 1 : ℕ))).dayNumber =
      (endOfMonth month).dayNumber + 1 := by
    intro hne
    obtain ⟨hin, hone⟩ := monthFirst_spec (show 12 ≤ start.inMonth + (i + 1 : ℕ) by omega)
      (by omega)
    refine dayNumber_of_inMonth_succ ?_ hone
    rw [hin, hmonth]
    push_cast
    ring
  rw [dailyWeight, inclusiveCalendarDays_eq, boundary, if_neg (Nat.succ_ne_zero i), boundary]
  by_cases hzero : i = 0
  · by_cases hend : i = n - 1
    · rw [if_pos hend, if_pos hzero, if_pos (by omega), if_pos hzero]
      ring
    · rw [if_neg hend, if_pos hzero, if_neg (by omega), if_pos hzero, hnext (by omega)]
      ring
  · by_cases hend : i = n - 1
    · rw [if_pos hend, if_neg hzero, if_pos (by omega), if_neg hzero, if_neg (by omega), hfirst]
      ring
    · rw [if_neg hend, if_neg hzero, if_neg (by omega), if_neg hzero, if_neg (by omega), hfirst,
        hnext (by omega)]
      ring

end

theorem sum_map_range_sub (b : ℕ → ℤ) (n : ℕ) :
    ((List.range n).map fun i => b (i + 1) - b i).sum = b n - b 0 := by
  induction n with
  | zero => simp
  | succ n ih =>
    rw [range_succ, map_append, sum_append, ih, map_singleton, sum_singleton]
    ring

theorem termMonth_monthFirst (hterm : start ≤ stop) (hn : (n : ℤ) = monthSpan start stop)
    (hi : i < n) : TermMonth start stop n i (monthFirst (start.inMonth + i)) := by
  have hmono := inMonth_mono hterm
  have hrange := stop.inMonth_mem
  have hrange' := start.inMonth_mem
  rw [monthSpan] at hn
  obtain ⟨hin, hday⟩ := monthFirst_spec (show 12 ≤ start.inMonth + i by omega) (by omega)
  exact ⟨hi, by omega, hin, hday⟩

/-- **The months of a term are weighed one by one.** -/
theorem weighMonths_eq (weigh : ℕ → ℕ → CivilDate → ℤ) (hterm : start ≤ stop)
    (hn : (n : ℤ) = monthSpan start stop) :
    weighMonths weigh start n =
      .ok ((List.range n).map fun i => weigh n i (monthFirst (start.inMonth + i))) := by
  refine mapM_ok_of_forall fun i hi => ?_
  have hmono := inMonth_mono hterm
  have hlt := mem_range.mp hi
  rw [monthSpan] at hn
  have hle : (startOfMonth start).inMonth + i ≤ stop.inMonth := by
    rw [inMonth_startOfMonth]
    omega
  have hmonth : addMonthsStart (startOfMonth start) i = .ok (monthFirst (start.inMonth + i)) :=
    addMonthsStart_of_le (Int.natCast_nonneg i) hle
  rw [hmonth]
  rfl

/-- What the weights of a daily method are. -/
structure DayWeights (start stop : CivilDate) (weights : List ℤ) : Prop where
  sum : weights.sum = ((Set.Icc start stop).ncard : ℤ)
  count : ∀ (i : ℕ) (w : ℤ), weights[i]? = some w → w = ({date : CivilDate | start ≤ date ∧
    date ≤ stop ∧ date.inMonth = start.inMonth + i}.ncard : ℤ)

variable {method : RecognitionMethod}

/-- **The weights of a daily method are the days of the term, month by month.** -/
theorem dayWeights_of_recognitionWeights
    (hmethod : method = .straightLineProrateFirstLast ∨ method = .straightLineDaily)
    (hterm : start ≤ stop) (h : recognitionWeights method start stop = .ok weights) :
    DayWeights start stop weights := by
  obtain ⟨n, hn⟩ : ∃ n : ℕ, (n : ℤ) = monthSpan start stop := by
    have hmono := inMonth_mono hterm
    refine ⟨(monthSpan start stop).toNat, Int.toNat_of_nonneg ?_⟩
    rw [monthSpan]
    omega
  have hone : 1 ≤ monthSpan start stop := by
    have hmono := inMonth_mono hterm
    rw [monthSpan]
    omega
  have hcount : (max 1 (monthSpan start stop)).toNat = n := by omega
  have hmonth : ∀ i ∈ List.range n, TermMonth start stop n i (monthFirst (start.inMonth + i)) :=
    fun i hi => termMonth_monthFirst hterm hn (mem_range.mp hi)
  have hweights : weights = (List.range n).map fun i : ℕ =>
      dailyWeight start stop n i (monthFirst (start.inMonth + i)) := by
    rcases hmethod with rfl | rfl
    · rw [recognitionWeights, hcount] at h
      rw [weighMonths_eq _ hterm hn] at h
      rw [← Except.ok.inj h]
      exact map_congr_left fun i hi => prorateWeight_eq (hmonth i hi)
    · rw [recognitionWeights, hcount] at h
      rw [weighMonths_eq _ hterm hn] at h
      exact (Except.ok.inj h).symm
  constructor
  · rw [hweights, map_congr_left fun i hi => dailyWeight_eq_sub (hmonth i hi),
      sum_map_range_sub, boundary, if_neg (by omega), if_pos rfl, boundary, if_pos rfl,
      ncard_Icc hterm, inclusiveCalendarDays_eq]
    ring
  · intro i w hw
    rw [hweights, getElem?_map] at hw
    obtain ⟨j, hj, rfl⟩ := Option.map_eq_some_iff.mp hw
    obtain ⟨hi, rfl⟩ := List.getElem?_eq_some_iff.mp hj
    rw [getElem_range]
    rw [length_range] at hi
    exact weight_eq_ncard (hmonth i (mem_range.mpr hi)) hterm

theorem length_of_recognitionWeights (hmethod : method.isStraightLine = true)
    (hterm : start ≤ stop) (h : recognitionWeights method start stop = .ok weights) :
    (weights.length : ℤ) = monthSpan start stop := by
  have hone : 1 ≤ monthSpan start stop := by
    have hmono := inMonth_mono hterm
    rw [monthSpan]
    omega
  have hn : (((max 1 (monthSpan start stop)).toNat : ℕ) : ℤ) = monthSpan start stop := by omega
  cases method with
  | straightLineEven =>
    rw [recognitionWeights] at h
    rw [← Except.ok.inj h, length_replicate, hn]
  | straightLineProrateFirstLast | straightLineDaily =>
    rw [recognitionWeights, weighMonths_eq _ hterm hn] at h
    rw [← Except.ok.inj h, length_map, length_range, hn]
  | _ => cases hmethod

end Term

/-! ### The spread -/

/-- **A percentage of the total has its sign, and leaves nothing of the other.** -/
theorem signedLike_pctOf {total percent units : ℤ} (h : pctOf total percent = .ok units) :
    SignedLike total units ∧ SignedLike total (total - units) := by
  rw [pctOf] at h
  split_ifs at h with hrange
  obtain ⟨hlow, hhigh⟩ := not_or.mp hrange
  rw [MAX_RECOGNITION_INITIAL_PERCENT] at hhigh
  obtain rfl := Except.ok.inj h
  have hround : mulPercent total ⟨percent, 4, four_le_eighteen⟩ 4 =
      HalfAway.round (total * percent) 1000000 := by
    simp [mulPercent, quantum, roundDiv_eq_round]
  rw [hround]
  have hd : (0 : ℤ) < 1000000 := by decide
  constructor
  · exact ⟨fun htotal => HalfAway.round_nonneg hd (mul_nonneg htotal (not_lt.mp hlow)),
      fun htotal => HalfAway.round_nonpos hd (mul_nonpos_of_nonpos_of_nonneg htotal (not_lt.mp hlow))⟩
  · constructor
    · intro htotal
      have := HalfAway.round_le_of_le_mul hd (mul_le_mul_of_nonneg_left (not_lt.mp hhigh) htotal)
      omega
    · intro htotal
      have := HalfAway.le_round_of_mul_le hd (mul_le_mul_of_nonpos_left (not_lt.mp hhigh) htotal)
      omega

theorem SignedLike.trans {a b x : ℤ} (hab : SignedLike a b) (hbx : SignedLike b x) :
    SignedLike a x :=
  ⟨fun h => hbx.1 (hab.1 h), fun h => hbx.2 (hab.2 h)⟩

theorem SignedLike.add {a x y : ℤ} (hx : SignedLike a x) (hy : SignedLike a y) :
    SignedLike a (x + y) :=
  ⟨fun h => add_nonneg (hx.1 h) (hy.1 h), fun h => add_nonpos (hx.2 h) (hy.2 h)⟩

/-- What is planned for the months from a first one on. -/
structure Spread (total : ℤ) (start : CivilDate) (count : ℤ) (lines : List (CivilDate × ℤ)) :
    Prop where
  length : (lines.length : ℤ) = count
  sum : (lines.map Prod.snd).sum = total
  signed : ∀ line ∈ lines, SignedLike total line.2
  month : ∀ (i : ℕ) (line : CivilDate × ℤ), lines[i]? = some line →
    line.1.inMonth = start.inMonth + i

variable {lines : List (CivilDate × ℤ)}

/-- **The spread makes up the total**, month by month, and never changes its sign. -/
theorem spread_of_spreadWithInitial {input : RecognitionInput} {start : CivilDate}
    (hne : weights ≠ []) (h : spreadWithInitial input start weights = .ok lines) :
    Spread input.total start weights.length lines := by
  simp only [spreadWithInitial, bind_eq_ok, mapError_eq_ok] at h
  obtain ⟨initial, hinitial, parts, hparts, hlines⟩ := h
  obtain ⟨hsigned, hrest⟩ := signedLike_pctOf hinitial
  have hshares := shares_of_apportion hparts
  have hrun := mapM_eq_ok.mp hlines
  have hsnd : lines.map Prod.snd = parts.modify 0 (· + initial) := by
    have hmap := ListSum.map_eq_map_of_forall₂ hrun Prod.fst Prod.snd (by
      intro p _ line _ hline
      obtain ⟨month, -, rfl⟩ := map_eq_ok.mp hline
      rfl)
    rw [hmap, zipIdx_map_fst]
  obtain ⟨x, xs, rfl⟩ : ∃ x xs, parts = x :: xs := by
    cases parts with
    | nil => exact absurd (length_eq_zero_iff.mp hshares.length.symm) hne
    | cons x xs => exact ⟨x, xs, rfl⟩
  rw [modify_zero_cons] at hsnd
  refine ⟨?_, ?_, fun line hline => ?_, fun i line hline => ?_⟩
  · have hlength := congrArg List.length hsnd
    rw [length_map] at hlength
    rw [hlength, ← hshares.length]
    rfl
  · have hsum := hshares.sum
    rw [sum_cons] at hsum
    rw [hsnd, sum_cons]
    omega
  · have hmem : line.2 ∈ (x + initial) :: xs := hsnd ▸ mem_map_of_mem hline
    rcases mem_cons.mp hmem with heq | hmem
    · rw [heq]
      exact (hrest.trans (hshares.signed x mem_cons_self)).add hsigned
    · exact hrest.trans (hshares.signed _ (mem_cons_of_mem x hmem))
  · obtain ⟨hi, rfl⟩ := List.getElem?_eq_some_iff.mp hline
    have hi' : i < ((x :: xs).modify 0 (· + initial)).zipIdx.length := hrun.length_eq ▸ hi
    have hstep := (forall₂_iff_get.mp hrun).2 i hi' hi
    obtain ⟨month, hmonth, heq⟩ := map_eq_ok.mp hstep
    have hplace : (((x :: xs).modify 0 (· + initial)).zipIdx.get ⟨i, hi'⟩).2 = i := by
      rw [get_eq_getElem, getElem_zipIdx, zero_add]
    rw [mapError_eq_ok, hplace] at hmonth
    have hline' : lines[i] = (month, (((x :: xs).modify 0 (· + initial)).zipIdx.get ⟨i, hi'⟩).1) :=
      heq.symm
    rw [hline']
    exact (addMonthsStart_eq_ok hmonth).1

/-! ### The plan -/

/-- **The lines of the plan**: what was spread, on the shifted months, with the running sum. -/
theorem planLines_spec {periodOffset : ℤ} {idx : ℕ} {cumulative : ℤ}
    {plan : List RecognitionLinePlan}
    (h : planLines periodOffset idx cumulative lines = .ok plan) :
    plan.map RecognitionLinePlan.planned = lines.map Prod.snd ∧
      ∀ (i : ℕ) (line : RecognitionLinePlan), plan[i]? = some line →
        line.cumulative =
            cumulative + ((plan.take (i + 1)).map RecognitionLinePlan.planned).sum ∧
          ∃ p, lines[i]? = some p ∧ line.periodMonth.inMonth = p.1.inMonth + periodOffset ∧
            line.periodMonth.day = 1 := by
  induction lines generalizing idx cumulative plan with
  | nil =>
    obtain rfl := Except.ok.inj h
    exact ⟨rfl, fun i line hline => by simp at hline⟩
  | cons p lines ih =>
    obtain ⟨month, units⟩ := p
    simp only [planLines, onRecognitionCalendar, bind_eq_ok, mapError_eq_ok, pure_eq_ok] at h
    obtain ⟨periodMonth, hmonth, rest, hrest, rfl⟩ := h
    obtain ⟨hplanned, hlines⟩ := ih hrest
    refine ⟨by rw [map_cons, map_cons, hplanned], fun i line hline => ?_⟩
    cases i with
    | zero =>
      obtain rfl := Option.some.inj hline
      obtain ⟨hin, hday⟩ := addMonthsStart_eq_ok hmonth
      exact ⟨by simp, (month, units), rfl, hin, hday⟩
    | succ i =>
      obtain ⟨hcumulative, p, hp, hspec⟩ := hlines i line hline
      refine ⟨?_, p, hp, hspec⟩
      rw [hcumulative, take_succ_cons, map_cons, sum_cons]
      ring

/-- **The term of a recognition**, by the calendar alone: it starts so many days away from the day
given for it, and stops on the day given for that, or else on the last day of its last month. -/
structure RecognitionTerm (input : RecognitionInput) (start stop : CivilDate) : Prop where
  starts : ∃ startOn : CivilDate, isoDateOf startOn = input.startOn.toList ∧
    start.dayNumber = startOn.dayNumber + input.startOffsetDays.getD 0
  stops : ∀ value, input.endOn = some value → isoDateOf stop = value.toList
  lasts : input.endOn = none → stop.inMonth = start.inMonth + (input.termPeriods.getD 1 - 1) ∧
    ∀ date : CivilDate, date.inMonth = stop.inMonth → date ≤ stop
  ordered : start ≤ stop

section Resolved

variable {startOn start stop : CivilDate} {endOn : Option CivilDate}

theorem recognitionInteger_eq_ok {value minimum k : ℤ} {label : String}
    (h : recognitionInteger value label minimum = .ok k) : k = value := by
  rw [recognitionInteger] at h
  split_ifs at h
  exact (Except.ok.inj h).symm

theorem isoDateOf_of_recognitionDate {value label : String}
    (h : recognitionDate value label = .ok startOn) : isoDateOf startOn = value.toList := by
  rw [recognitionDate, orRefuse_eq_ok] at h
  exact isoDateOf_of_isoCalendarDate h

theorem dayNumber_shiftRecognitionDate {days : ℤ}
    (h : shiftRecognitionDate startOn days = .ok start) :
    start.dayNumber = startOn.dayNumber + days := by
  simp only [shiftRecognitionDate, onRecognitionCalendar, bind_eq_ok, mapError_eq_ok] at h
  obtain ⟨k, hk, h⟩ := h
  rw [← recognitionInteger_eq_ok hk]
  exact shiftDays_eq_ok.mp h

theorem resolveEnd_none {termPeriods : Option ℤ}
    (h : resolveEnd start none termPeriods = .ok stop) :
    stop.inMonth = start.inMonth + (termPeriods.getD 1 - 1) ∧
      ∀ date : CivilDate, date.inMonth = stop.inMonth → date ≤ stop := by
  simp only [resolveEnd, onRecognitionCalendar, bind_eq_ok, mapError_eq_ok, pure_eq_ok] at h
  obtain ⟨term, hterm, last, hlast, rfl⟩ := h
  rw [← recognitionInteger_eq_ok hterm, inMonth_endOfMonth]
  exact ⟨(addMonthsStart_eq_ok hlast).1, fun date hdate => le_endOfMonth_of_inMonth_le hdate.le⟩

/-- **The dates that are resolved are those of the term.** -/
theorem recognitionTerm_of_resolved {input : RecognitionInput}
    (hstart : recognitionDate input.startOn "recognition start" = .ok startOn)
    (hend : (input.endOn.mapM fun value => recognitionDate value "recognition end") = .ok endOn)
    (hshift : shiftRecognitionDate startOn (input.startOffsetDays.getD 0) = .ok start)
    (hstop : resolveEnd start endOn input.termPeriods = .ok stop) (hle : start ≤ stop) :
    RecognitionTerm input start stop := by
  refine ⟨⟨startOn, isoDateOf_of_recognitionDate hstart, dayNumber_shiftRecognitionDate hshift⟩,
    fun value hvalue => ?_, fun hnone => ?_, hle⟩
  · rw [hvalue] at hend
    obtain ⟨given, hgiven, hsome⟩ := map_eq_ok.mp hend
    subst hsome
    obtain rfl := Except.ok.inj hstop
    exact isoDateOf_of_recognitionDate hgiven
  · rw [hnone] at hend
    obtain rfl := Except.ok.inj hend
    exact resolveEnd_none hstop

end Resolved

/-- **A straight-line plan makes up the total over the months of its term.** The amounts sum to
the total and have its sign, with their running sum beside them; they stand on consecutive
months, as many as the term touches; and the weights of the daily methods are the days that the
term has in each month. -/
theorem computeRecognitionSchedule_straightLine {input : RecognitionInput}
    {plan : List RecognitionLinePlan} (hmethod : input.method.isStraightLine = true)
    (h : computeRecognitionSchedule input = .ok plan) :
    (plan.map RecognitionLinePlan.planned).sum = input.total ∧
      (∀ line ∈ plan, SignedLike input.total line.planned) ∧
      (∀ (i : ℕ) (line : RecognitionLinePlan), plan[i]? = some line → line.cumulative =
        ((plan.take (i + 1)).map RecognitionLinePlan.planned).sum) ∧
      ∃ start stop weights lines, RecognitionTerm input start stop ∧
        (plan.length : ℤ) = stop.inMonth - start.inMonth + 1 ∧
        (∀ (i : ℕ) (line : RecognitionLinePlan), plan[i]? = some line →
          line.periodMonth.inMonth = start.inMonth + input.periodOffset.getD 0 + i ∧
            line.periodMonth.day = 1) ∧
        recognitionWeights input.method start stop = .ok weights ∧
        spreadWithInitial input (startOfMonth start) weights = .ok lines ∧
        plan.map RecognitionLinePlan.planned = lines.map Prod.snd ∧
        (input.method ≠ .straightLineEven → DayWeights start stop weights) := by
  simp only [computeRecognitionSchedule, bind_eq_ok, onlyIf_eq_ok, refuseIf_eq_ok, checkTerm] at h
  obtain ⟨startOn, hstart, endOn, hend, _, -, offset, hoffset, _, -, start, hshift, _, hterm, lines,
    hlines, hplan⟩ := h
  obtain ⟨stop, hstop, _, hordered, -⟩ := hterm hmethod
  have hoffset := recognitionInteger_eq_ok hoffset
  have hle : start ≤ stop := by
    rw [calendarDaysBetween, civilDayIndex_eq, civilDayIndex_eq] at hordered
    exact le_iff_dayNumber.mpr (by omega)
  have hunits : recognitionUnits input start endOn = (do
      let stop ← resolveEnd start endOn input.termPeriods
      let weights ← recognitionWeights input.method start stop
      spreadWithInitial input (startOfMonth start) weights) := by
    rw [recognitionUnits]
    cases hm : input.method <;> first | rfl | (rw [hm] at hmethod; cases hmethod)
  simp only [hunits, hstop, ok_bind, bind_eq_ok] at hlines
  obtain ⟨weights, hweights, hspread⟩ := hlines
  have hlength := length_of_recognitionWeights hmethod hle hweights
  have hne : weights ≠ [] := by
    rintro rfl
    have hmono := inMonth_mono hle
    rw [monthSpan, length_nil] at hlength
    omega
  have hspec := spread_of_spreadWithInitial hne hspread
  obtain ⟨hplanned, hline⟩ := planLines_spec hplan
  have hcount : plan.length = lines.length := by
    have := congrArg List.length hplanned
    simpa using this
  refine ⟨by rw [hplanned, hspec.sum], fun line hmem => ?_, fun i line hi => ?_, start, stop,
    weights, lines, recognitionTerm_of_resolved hstart hend hshift hstop hle, ?_,
    fun i line hi => ?_, hweights, hspread, hplanned, fun heven => ?_⟩
  · have hmem' : line.planned ∈ lines.map Prod.snd := hplanned ▸ mem_map_of_mem hmem
    obtain ⟨p, hp, heq⟩ := mem_map.mp hmem'
    exact heq ▸ hspec.signed p hp
  · rw [(hline i line hi).1, zero_add]
  · rw [hcount, hspec.length, hlength, monthSpan]
  · obtain ⟨-, p, hp, hin, hday⟩ := hline i line hi
    refine ⟨?_, hday⟩
    rw [hin, hspec.month i p hp, inMonth_startOfMonth, hoffset]
    ring
  · refine dayWeights_of_recognitionWeights ?_ hle hweights
    cases hm : input.method with
    | straightLineEven => exact absurd hm heven
    | straightLineProrateFirstLast => exact Or.inl rfl
    | straightLineDaily => exact Or.inr rfl
    | _ =>
      rw [hm] at hmethod
      cases hmethod

/-- A credit over eight weeks of three months, a tenth of it up front and all a month late. -/
theorem computeRecognitionSchedule_straightLine_credit :
    ∃ plan, computeRecognitionSchedule
        { total := -1000003, method := .straightLineDaily, startOn := "2025-01-15",
          endOn := some "2025-03-10", initialAmountPercent := some 100000,
          periodOffset := some 1 } = .ok plan ∧
      (plan.map RecognitionLinePlan.planned).sum = -1000003 ∧
      ∀ line ∈ plan, SignedLike (-1000003) line.planned := by
  have hok : (computeRecognitionSchedule
      { total := -1000003, method := .straightLineDaily, startOn := "2025-01-15",
        endOn := some "2025-03-10", initialAmountPercent := some 100000,
        periodOffset := some 1 }).isOk = true := by decide +kernel
  obtain ⟨plan, hrun⟩ := exists_of_isOk hok
  obtain ⟨hsum, hsigned, -⟩ := computeRecognitionSchedule_straightLine rfl hrun
  exact ⟨plan, hrun, hsum, hsigned⟩

end OpenBooks
