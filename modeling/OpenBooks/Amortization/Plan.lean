import OpenBooks.Money.DecimalText
import OpenBooks.Platform.CivilMonths
import OpenBooks.Revenue.RecognitionSchedule

/-!
# Amortization plans

`Amortization.resolveAmortizationTerm` finds the service window of a line, and
`Amortization.buildAmortizationPlan` spreads an amount over the calendar months of the
window, shifted by an offset. Each method weighs the months of the window; every month but the last
weighted one takes its share of the amount, floored to whole quanta, and that one takes the rest.

However the window was found, it ends in the last of the months that the term counts
(`Amortization.Window.last`), a clamped anniversary included, so the months tile it and
their days are the days of the window. What the term cannot promise is the calendar: the offset
moves the periods and not the window, and a period past the last year of the calendar is refused
(`Amortization.plan_covers_window`).
-/

namespace OpenBooks.Amortization

open Checked List CivilDate

/-! ### Policies -/

structure AmortizationError where
  message : String
  code : String
  remedy : String
  deriving DecidableEq

/-- A refusal of the plan, or of the calendar. -/
inductive PlanError
  | amortization (e : AmortizationError)
  | range (e : RangeError)
  deriving DecidableEq

def refusal (message code remedy : String) : PlanError := .amortization ⟨message, code, remedy⟩

inductive AmortizationMethod
  | straightLine
  | proratedFirstLast
  | exactDays
  | variableTable
  deriving DecidableEq

inductive AmortizationTermSource
  | template
  | serviceDates
  deriving DecidableEq

def MAX_AMORTIZATION_PERIODS : ℤ := 600

def MAX_AMORTIZATION_PERIOD_OFFSET : ℤ := 120

def AMORTIZATION_PERCENT_SCALE : ℕ := 6

def PERCENT_UNIT : ℕ := 10 ^ AMORTIZATION_PERCENT_SCALE

def HUNDRED_PERCENT : ℕ := 100 * PERCENT_UNIT

/-- A multiple of every month's days. -/
def MONTH_DAY_LCM : ℤ := 377580

structure AmortizationPolicy where
  method : AmortizationMethod
  termSource : AmortizationTermSource
  periodCount : Option ℤ
  percentages : Option (List String)
  periodOffset : ℤ

structure AmortizationTermInput where
  serviceStartOn : Option String
  serviceEndOn : Option String
  transactionDate : String

/-- The window that is amortized, the first month it is booked in, and its months. -/
structure AmortizationTerm where
  startOn : CivilDate
  endOn : CivilDate
  firstPeriodOn : CivilDate
  periodCount : ℤ

/-- A month of a plan, and what it takes. -/
structure PlannedPeriod where
  periodStart : CivilDate
  periodEnd : CivilDate
  amount : ℤ
  deriving DecidableEq

/-- A step on the calendar, with its refusal as a plan refuses. -/
def onCalendar {α : Type} (step : Except RangeError α) : Except PlanError α := step.mapError .range

def requireDate (value label : String) : Except PlanError CivilDate :=
  orRefuse (isoCalendarDate value.toList)
    (refusal (label ++ " must be a valid YYYY-MM-DD date.") "amortization_date_invalid"
      ("Enter " ++ label ++ " as YYYY-MM-DD."))

/-- The calendar months from one day to another, both counted. -/
def monthSpan (fromOn toOn : CivilDate) : ℤ :=
  ((toOn.year : ℤ) - fromOn.year) * 12 + ((toOn.month : ℤ) - fromOn.month) + 1

/-- A number of months from 1 to 600. -/
def requirePeriodCount (count : Option ℤ) (label : String) : Except PlanError ℤ :=
  orRefuse (count.filter fun n => 1 ≤ n ∧ n ≤ MAX_AMORTIZATION_PERIODS)
    (refusal (label ++ " must be a whole number of periods from 1 through " ++
        toString MAX_AMORTIZATION_PERIODS ++ ".")
      "amortization_period_count_invalid"
      ("Set the template's number of periods, or choose a term taken from the line's service " ++
        "dates."))

/-! ### Percentage tables -/

/-- One to three digits, and after a point one to six more. -/
def matchPercentage (text : List Char) : Option (List Char × List Char) :=
  let whole := text.takeWhile Char.isDigit
  if 1 ≤ whole.length ∧ whole.length ≤ 3 then
    match text.dropWhile Char.isDigit with
    | [] => some (whole, [])
    | '.' :: fraction =>
      if (1 ≤ fraction.length ∧ fraction.length ≤ 6) ∧ fraction.all Char.isDigit then
        some (whole, fraction)
      else none
    | _ => none
  else none

/-- A share as it is shown. -/
def formatPercent (millionths : ℕ) : String :=
  let whole := toString (millionths / PERCENT_UNIT)
  let fraction := ((padStartZeros AMORTIZATION_PERCENT_SCALE
    (toString (millionths % PERCENT_UNIT)).toList).reverse.dropWhile (· = '0')).reverse
  if fraction = [] then whole else whole ++ "." ++ String.ofList fraction

/-- A percentage of the table, in millionths. -/
def parsePercentage (row : String × ℕ) : Except PlanError ℕ := do
  let (whole, fraction) ← orRefuse (matchPercentage (trim row.1.toList))
    (refusal ("Period " ++ toString (row.2 + 1) ++ " percentage \"" ++ row.1 ++
        "\" is not a decimal from 0 to 100 with at most " ++
        toString AMORTIZATION_PERCENT_SCALE ++ " places.")
      "amortization_percentage_invalid"
      "Enter each period's percentage as a plain decimal such as 8.333333.")
  return digitsValue whole * PERCENT_UNIT +
    digitsValue (padEndZeros AMORTIZATION_PERCENT_SCALE fraction)

/-- The table of percentages, which comes to a hundred. -/
def parsePercentageTable (percentages : Option (List String)) : Except PlanError (List ℕ) := do
  let rows := percentages.getD []
  refuseIf (rows.length = 0)
    (refusal "A variable template needs a percentage table." "amortization_percentages_missing"
      "Enter one percentage per period in the template's percentage table.")
  refuseIf (MAX_AMORTIZATION_PERIODS < rows.length)
    (refusal ("A percentage table holds at most " ++ toString MAX_AMORTIZATION_PERIODS ++
      " periods.") "amortization_percentages_too_long" "Shorten the percentage table.")
  let parsed ← rows.zipIdx.mapM parsePercentage
  refuseIf (parsed.sum ≠ HUNDRED_PERCENT)
    (refusal ("The percentage table sums to " ++ formatPercent parsed.sum ++ "%, not 100%.")
      "amortization_percentages_total" "Adjust the percentages so they sum to exactly 100.")
  return parsed

/-- What a policy is refused for, whatever its term. -/
def validateAmortizationPolicy (policy : AmortizationPolicy) : Except PlanError Unit := do
  refuseIf (policy.periodOffset < 0 ∨ MAX_AMORTIZATION_PERIOD_OFFSET < policy.periodOffset)
    (refusal ("The period offset must be a whole number from 0 through " ++
        toString MAX_AMORTIZATION_PERIOD_OFFSET ++ ".")
      "amortization_offset_invalid"
      "Enter how many periods after the start amortization begins (0 starts immediately).")
  if policy.method = .variableTable then do
    refuseIf (policy.termSource ≠ .template)
      (refusal "A variable template takes its term from its percentage table, not from service dates."
        "amortization_variable_term"
        "Set the term source of a variable template to the template's periods.")
    let table ← parsePercentageTable policy.percentages
    refuseIf (policy.periodCount ≠ some (table.length : ℤ))
      (refusal ("The template names " ++ toString (policy.periodCount.getD 0) ++
          " periods but its percentage table has " ++ toString table.length ++ ".")
        "amortization_percentages_count"
        "Make the number of periods equal the number of rows in the percentage table.")
  else do
    refuseIf (0 < (policy.percentages.getD []).length)
      (refusal "Only a variable template carries a percentage table."
        "amortization_percentages_unexpected"
        "Clear the percentage table, or switch the method to variable.")
    onlyIf (policy.termSource = .template)
      (do let _ ← requirePeriodCount policy.periodCount "The template's number of periods")

/-! ### Terms -/

/-- The window of a template, and the months it counts: whole months, or the anniversary window. -/
def templateWindow (policy : AmortizationPolicy) (startOn : CivilDate) :
    Except PlanError (CivilDate × ℤ) := do
  let periodCount ← requirePeriodCount policy.periodCount "The template's number of periods"
  let anniversary ← onCalendar (addMonthsClamped startOn periodCount)
  let endOn ← onCalendar (prevDay anniversary)
  if policy.method = .straightLine ∨ policy.method = .variableTable then do
    let last ← onCalendar (addMonthsStart startOn (periodCount - 1))
    return (endOfMonth last, periodCount)
  else return (endOn, monthSpan startOn endOn)

/-- The window of the service dates, and the months it counts. -/
def serviceWindow (serviceStartOn serviceEndOn : Option CivilDate) :
    Except PlanError (CivilDate × CivilDate × ℤ) := do
  let (startOn, endOn) ← orRefuse
    (serviceStartOn.bind fun startOn => serviceEndOn.map fun endOn => (startOn, endOn))
    (refusal
      ("This amortization template takes its term from the line's service dates, and the line " ++
        "has none.")
      "amortization_service_dates_missing"
      ("Enter the service start and end dates on the line, or choose a template with a fixed " ++
        "number of periods."))
  refuseIf (civilDayIndex endOn < civilDayIndex startOn)
    (refusal ("The service end " ++ String.ofList (isoDateOf endOn) ++
        " is before the service start " ++ String.ofList (isoDateOf startOn) ++ ".")
      "amortization_service_dates_inverted"
      "Correct the line's service dates so the end is on or after the start.")
  return (startOn, endOn, monthSpan startOn endOn)

/-- The window of the term source, and the months it counts. -/
def termWindow (policy : AmortizationPolicy) (serviceStartOn serviceEndOn : Option CivilDate)
    (transactionDate : CivilDate) : Except PlanError (CivilDate × CivilDate × ℤ) :=
  match policy.termSource with
  | .serviceDates => serviceWindow serviceStartOn serviceEndOn
  | .template => do
    let startOn := serviceStartOn.getD transactionDate
    let window ← templateWindow policy startOn
    return (startOn, window)

/-- The window a policy gives a line. -/
def resolveAmortizationTerm (policy : AmortizationPolicy) (input : AmortizationTermInput) :
    Except PlanError AmortizationTerm := do
  validateAmortizationPolicy policy
  let transactionDate ← requireDate input.transactionDate "the transaction date"
  let serviceStartOn ← input.serviceStartOn.mapM fun value =>
    requireDate value "the service start date"
  let serviceEndOn ← input.serviceEndOn.mapM fun value => requireDate value "the service end date"
  let (startOn, endOn, periodCount) ←
    termWindow policy serviceStartOn serviceEndOn transactionDate
  refuseIf (MAX_AMORTIZATION_PERIODS < periodCount)
    (refusal ("The term spans " ++ toString periodCount ++ " periods; at most " ++
        toString MAX_AMORTIZATION_PERIODS ++ " are supported.")
      "amortization_term_too_long"
      "Shorten the service window or the template's number of periods.")
  let firstPeriodOn ← onCalendar (addMonthsStart startOn policy.periodOffset)
  return ⟨startOn, endOn, firstPeriodOn, periodCount⟩

/-! ### Weights -/

/-- The days that a window has in the month that begins on a day. -/
def overlapDays (monthStart startOn endOn : CivilDate) : ℤ :=
  let fromDay := max (civilDayIndex monthStart) (civilDayIndex startOn)
  let toDay := min (civilDayIndex (endOfMonth monthStart)) (civilDayIndex endOn)
  if fromDay ≤ toDay then toDay - fromDay + 1 else 0

/-- The months from one on, so many. -/
def monthsFrom (date : CivilDate) (count : ℤ) : Except RangeError (List CivilDate) :=
  (List.range count.toNat).mapM fun (i : ℕ) => addMonthsStart date i

/-- The weight of each month, as the method has it. -/
def termWeights (policy : AmortizationPolicy) (term : AmortizationTerm) :
    Except PlanError (List ℤ) := do
  let months ← onCalendar (monthsFrom term.startOn term.periodCount)
  let days := fun month => overlapDays month term.startOn term.endOn
  match policy.method with
  | .straightLine => return months.map (fun _ => 1)
  | .exactDays => return months.map days
  | .proratedFirstLast =>
    return months.map (fun month =>
      days month * MONTH_DAY_LCM / daysInMonth month.year month.month)
  | .variableTable => do
    let table ← parsePercentageTable policy.percentages
    refuseIf (table.length ≠ months.length)
      (refusal ("The percentage table has " ++ toString table.length ++
          " periods but the term spans " ++ toString months.length ++ ".")
        "amortization_percentages_count"
        "Make the template's number of periods equal its percentage table.")
    return table.map fun (p : ℕ) => (p : ℤ)

/-! ### Amounts -/

/-- The last place of a weight that is not zero. -/
def lastWeighted (weights : List ℤ) : ℕ :=
  weights.zipIdx.foldl (fun last p => if 0 < p.1 then p.2 else last) 0

/-- A share of the total, floored to whole quanta. -/
def flooredShare (total totalWeight quantum weight : ℤ) : ℤ :=
  total * weight / totalWeight / quantum * quantum

/-- Shares by weight in whole quanta; the last month with a weight takes what is left. -/
def allocateRemainderToLast (total : ℤ) (weights : List ℤ) (quantum : ℤ) :
    Except PlanError (List ℤ) := do
  refuseIf (total < 0) (refusal "An amortization amount cannot be negative."
    "amortization_amount_negative" "Amortize a positive amount.")
  refuseIf (quantum ≤ 0) (refusal "The currency quantum must be positive." "amortization_invalid"
    "Correct the amortization input and submit it again.")
  refuseIf (weights.any (· < 0)) (refusal "Amortization weights cannot be negative."
    "amortization_invalid" "Correct the amortization input and submit it again.")
  let totalWeight := weights.sum
  refuseIf (totalWeight = 0) (refusal "No period of the amortization term carries any weight."
    "amortization_zero_weights"
    "Check the template's percentage table and the line's service dates.")
  let last := lastWeighted weights
  let parts := weights.zipIdx.map fun p =>
    if p.2 = last then 0 else flooredShare total totalWeight quantum p.1
  return parts.set last (total - parts.sum)

/-- The plan: a share of the total for every month of the term. -/
def buildAmortizationPlan (policy : AmortizationPolicy) (term : AmortizationTerm)
    (total quantum : ℤ) : Except PlanError (List PlannedPeriod) := do
  refuseIf (total ≤ 0) (refusal "Amortize a positive amount." "amortization_amount_not_positive"
    "Only a positive deferral can be amortized; post credits as a schedule reduction.")
  let weights ← termWeights policy term
  let amounts ← allocateRemainderToLast total weights quantum
  amounts.zipIdx.mapM fun p => do
    let periodStart ← onCalendar (addMonthsStart term.firstPeriodOn p.2)
    return ⟨periodStart, endOfMonth periodStart, p.1⟩

/-! ### The window -/

/-- What a term counts: a window, whose last day is in the last of its months. -/
structure Window (startOn endOn : CivilDate) (periodCount : ℤ) : Prop where
  ordered : startOn ≤ endOn
  last : endOn.inMonth = startOn.inMonth + periodCount - 1

theorem monthSpan_eq (fromOn toOn : CivilDate) :
    monthSpan fromOn toOn = toOn.inMonth - fromOn.inMonth + 1 := by
  rw [monthSpan, inMonth, inMonth, monthNumber, monthNumber]
  ring

theorem window_of_le {startOn endOn : CivilDate} (h : startOn ≤ endOn) :
    Window startOn endOn (monthSpan startOn endOn) :=
  ⟨h, by rw [monthSpan_eq]; ring⟩

theorem one_le_of_requirePeriodCount {count : Option ℤ} {label : String} {n : ℤ}
    (h : requirePeriodCount count label = .ok n) : 1 ≤ n ∧ count = some n := by
  rw [requirePeriodCount, orRefuse_eq_ok, Option.filter_eq_some_iff, decide_eq_true_eq] at h
  exact ⟨h.2.1, h.1⟩

variable {policy : AmortizationPolicy} {input : AmortizationTermInput} {term : AmortizationTerm}
  {startOn endOn : CivilDate} {periodCount : ℤ}

theorem window_of_templateWindow (h : templateWindow policy startOn = .ok (endOn, periodCount)) :
    Window startOn endOn periodCount := by
  simp only [templateWindow, bind_eq_ok, onCalendar, mapError_eq_ok] at h
  obtain ⟨n, hn, anniversary, hanniversary, previous, hprevious, h⟩ := h
  have hpos := (one_le_of_requirePeriodCount hn).1
  have hlater : startOn < anniversary := lt_of_inMonth_lt (by
    rw [(addMonthsClamped_spec hanniversary).inMonth]
    omega)
  split_ifs at h with hwhole
  · obtain ⟨last, hlast, h⟩ := bind_eq_ok.mp h
    obtain ⟨rfl, rfl⟩ := Prod.mk.inj (pure_eq_ok.mp h)
    have hmonth := (addMonthsStart_eq_ok (mapError_eq_ok.mp hlast)).1
    refine ⟨le_endOfMonth_of_inMonth_le (by omega), ?_⟩
    rw [inMonth_endOfMonth, hmonth]
    ring
  · obtain ⟨rfl, rfl⟩ := Prod.mk.inj (pure_eq_ok.mp h)
    exact window_of_le ((le_prevDay_iff hprevious).mpr hlater)

theorem window_of_serviceWindow {serviceStartOn serviceEndOn : Option CivilDate}
    (h : serviceWindow serviceStartOn serviceEndOn = .ok (startOn, endOn, periodCount)) :
    Window startOn endOn periodCount := by
  simp only [serviceWindow, bind_eq_ok, refuseIf_eq_ok, pure_eq_ok] at h
  obtain ⟨_, -, -, hle, h⟩ := h
  obtain ⟨rfl, rfl, rfl⟩ := h
  rw [civilDayIndex_eq, civilDayIndex_eq, not_lt, ← le_iff_dayNumber] at hle
  exact window_of_le hle

/-- What a term that is accepted promises of its window. -/
structure Resolved (policy : AmortizationPolicy) (term : AmortizationTerm) : Prop where
  window : Window term.startOn term.endOn term.periodCount
  first : addMonthsStart term.startOn policy.periodOffset = .ok term.firstPeriodOn
  table : policy.method = .variableTable → ∃ table,
    parsePercentageTable policy.percentages = .ok table ∧ (table.length : ℤ) = term.periodCount

/-- **A term that is accepted counts the months of its window.** -/
theorem resolved_of_resolve (h : resolveAmortizationTerm policy input = .ok term) :
    Resolved policy term := by
  simp only [resolveAmortizationTerm, bind_eq_ok, refuseIf_eq_ok, pure_eq_ok, onCalendar,
    mapError_eq_ok] at h
  obtain ⟨_, hvalid, transactionDate, -, serviceStartOn, -, serviceEndOn, -,
    ⟨startOn, endOn, periodCount⟩, hwindow, -, -, firstPeriodOn, hfirst, rfl⟩ := h
  refine ⟨?_, hfirst, fun hmethod => ?_⟩
  · unfold termWindow at hwindow
    split at hwindow
    · exact window_of_serviceWindow hwindow
    · obtain ⟨⟨_, _⟩, htemplate, h⟩ := bind_eq_ok.mp hwindow
      obtain ⟨rfl, rfl, rfl⟩ := pure_eq_ok.mp h
      exact window_of_templateWindow htemplate
  · simp only [validateAmortizationPolicy, bind_eq_ok, refuseIf_eq_ok, if_pos hmethod,
      not_not] at hvalid
    obtain ⟨-, -, -, htemplate, table, htable, hcount⟩ := hvalid
    rw [termWindow, htemplate] at hwindow
    simp only [templateWindow, hmethod, or_true, if_true, bind_eq_ok, pure_eq_ok] at hwindow
    obtain ⟨_, ⟨n, hn, _, -, _, -, _, -, rfl⟩, h⟩ := hwindow
    obtain ⟨rfl, rfl, rfl⟩ := h
    refine ⟨table, htable, ?_⟩
    rw [(one_le_of_requirePeriodCount hn).2] at hcount
    exact (Option.some.inj hcount).symm

/-! ### The days of a window -/

section

variable {stop month : CivilDate} {n i : ℕ}

theorem overlapDays_eq (h : TermMonth startOn stop n i month) (hterm : startOn ≤ stop) :
    overlapDays month startOn stop = dailyWeight startOn stop n i month ∧
      1 ≤ overlapDays month startOn stop := by
  obtain ⟨hlt, hlast, hmonth, hday⟩ := h
  have hfrom : max month.dayNumber startOn.dayNumber =
      (if i = 0 then startOn else month).dayNumber := by
    split_ifs with hzero
    · exact max_eq_right (le_iff_dayNumber.mp
        (le_of_day_eq_one hday (by omega)))
    · exact max_eq_left (le_iff_dayNumber.mp (lt_of_inMonth_lt (by omega)).le)
  have hto : min (endOfMonth month).dayNumber stop.dayNumber =
      (if i = n - 1 then stop else endOfMonth month).dayNumber := by
    split_ifs with hend
    · exact min_eq_right (le_iff_dayNumber.mp
        (le_endOfMonth_of_inMonth_le (by omega)))
    · exact min_eq_left (le_iff_dayNumber.mp
        (lt_of_inMonth_lt (a := endOfMonth month) (by
          rw [inMonth_endOfMonth]; omega)).le)
  have hle : max month.dayNumber startOn.dayNumber ≤
      min (endOfMonth month).dayNumber stop.dayNumber := by
    rw [max_le_iff, le_min_iff, le_min_iff]
    simp only [← le_iff_dayNumber]
    exact ⟨⟨le_endOfMonth month, le_of_day_eq_one hday (by omega)⟩,
      le_endOfMonth_of_inMonth_le (by omega), hterm⟩
  simp only [overlapDays, civilDayIndex_eq, if_pos hle, dailyWeight, inclusiveCalendarDays_eq,
    ← hfrom, ← hto]
  exact ⟨trivial, by omega⟩

/-- The first days of the months of a window. -/
def windowMonths (startOn : CivilDate) (n : ℕ) : List CivilDate :=
  (List.range n).map fun i : ℕ => monthFirst (startOn.inMonth + i)

theorem monthsFrom_eq (h : Window startOn stop n) :
    monthsFrom startOn n = .ok (windowMonths startOn n) := by
  rw [monthsFrom, Int.toNat_natCast, windowMonths]
  refine mapM_ok_of_forall fun i hi => ?_
  have hlast := h.last
  have hlt := mem_range.mp hi
  exact addMonthsStart_of_le (Int.natCast_nonneg i) (by omega : _ ≤ stop.inMonth)

/-- **The days of the window, month by month, are all its days.** -/
theorem dayWeights_overlapDays (h : Window startOn stop n) :
    DayWeights startOn stop
        ((windowMonths startOn n).map fun month => overlapDays month startOn stop) ∧
      ∀ w ∈ (windowMonths startOn n).map (fun month => overlapDays month startOn stop), 1 ≤ w := by
  have hspan : (n : ℤ) = OpenBooks.monthSpan startOn stop := by
    rw [OpenBooks.monthSpan, h.last]
    ring
  have hmono := inMonth_mono h.ordered
  have hlast := h.last
  have hcount : (max 1 (OpenBooks.monthSpan startOn stop)).toNat = n := by omega
  have hmonth : ∀ i ∈ List.range n, _ := fun i hi =>
    overlapDays_eq (termMonth_monthFirst h.ordered hspan (mem_range.mp hi)) h.ordered
  constructor
  · refine dayWeights_of_recognitionWeights (Or.inr rfl) h.ordered ?_
    rw [recognitionWeights, hcount, weighMonths_eq _ h.ordered hspan, windowMonths, map_map]
    exact congrArg Except.ok (map_congr_left fun i hi => (hmonth i hi).1.symm)
  · intro w hw
    obtain ⟨month, hmem, rfl⟩ := mem_map.mp hw
    obtain ⟨i, hi, rfl⟩ := mem_map.mp hmem
    exact (hmonth i hi).2

theorem daysInMonth_dvd {year month : ℕ} (h : 1 ≤ month ∧ month ≤ 12) :
    (daysInMonth year month : ℤ) ∣ MONTH_DAY_LCM := by
  obtain ⟨hlow, hhigh⟩ := h
  by_cases hleap : isLeap year = true <;> interval_cases month <;>
    simp [daysInMonth, hleap, MONTH_DAYS, MONTH_DAY_LCM]

end

/-! ### The weights of a term -/

/-- What the weights of a term are, method by method. -/
structure Weighs (policy : AmortizationPolicy) (term : AmortizationTerm) (weights : List ℤ) :
    Prop where
  length : (weights.length : ℤ) = term.periodCount
  nonneg : ∀ w ∈ weights, 0 ≤ w
  pos : 0 < weights.sum
  exactDays : policy.method = .exactDays →
    weights.sum = inclusiveCalendarDays term.startOn term.endOn ∧ ∀ w ∈ weights, 0 < w
  /-- The service days of the month over the days it has. -/
  prorated : policy.method = .proratedFirstLast → ∀ (i : ℕ) (w : ℤ), weights[i]? = some w →
    w * daysInMonth (monthFirst (term.startOn.inMonth + i)).year
        (monthFirst (term.startOn.inMonth + i)).month =
      MONTH_DAY_LCM * {date : CivilDate | term.startOn ≤ date ∧ date ≤ term.endOn ∧
        date.inMonth = term.startOn.inMonth + i}.ncard

variable {weights : List ℤ}

theorem sum_pos_of_forall (hne : 0 < weights.length) (h : ∀ w ∈ weights, 1 ≤ w) :
    0 < weights.sum := by
  have hle := card_nsmul_le_sum weights 1 h
  rw [nsmul_eq_mul, mul_one] at hle
  omega

theorem sum_map_natCast (ns : List ℕ) : (ns.map fun (n : ℕ) => (n : ℤ)).sum = (ns.sum : ℕ) := by
  induction ns with
  | nil => rfl
  | cons n ns ih => rw [map_cons, sum_cons, ih, sum_cons, Nat.cast_add]

/-- **Every term that is accepted has weights.** -/
theorem exists_weights (h : Resolved policy term) :
    ∃ weights, termWeights policy term = .ok weights ∧ Weighs policy term weights := by
  obtain ⟨n, hn⟩ : ∃ n : ℕ, term.periodCount = n := by
    have hmono := inMonth_mono h.window.ordered
    have hlast := h.window.last
    exact Int.eq_ofNat_of_zero_le (by omega)
  have hwindow := h.window
  rw [hn] at hwindow
  have hpos : 0 < n := by
    have hmono := inMonth_mono hwindow.ordered
    have hlast := hwindow.last
    omega
  obtain ⟨hdays, hone⟩ := dayWeights_overlapDays hwindow
  have hlength : (windowMonths term.startOn n).length = n := by
    rw [windowMonths, length_map, length_range]
  simp only [termWeights, hn, monthsFrom_eq hwindow, onCalendar, mapError_ok, ok_bind]
  rcases hmethod : policy.method with _ | _ | _ | _
  · have hall : ∀ w ∈ (windowMonths term.startOn n).map fun _ => (1 : ℤ), 1 ≤ w := by simp
    refine ⟨_, rfl, by rw [length_map, hlength, hn], fun w hw => by linarith [hall w hw],
      sum_pos_of_forall (by rwa [length_map, hlength]) hall, by simp [hmethod], by
        simp [hmethod]⟩
  · -- A month of the window has days in it, and they divide the common multiple.
    have hdvd : ∀ month : CivilDate, (daysInMonth month.year month.month : ℤ) ∣ MONTH_DAY_LCM :=
      fun month => daysInMonth_dvd month.month_mem
    have hall : ∀ w ∈ (windowMonths term.startOn n).map fun month =>
        overlapDays month term.startOn term.endOn * MONTH_DAY_LCM /
          daysInMonth month.year month.month, 1 ≤ w := by
      intro w hw
      obtain ⟨month, hmem, rfl⟩ := mem_map.mp hw
      have hoverlap := hone _ (mem_map_of_mem hmem)
      have hdays : (0 : ℤ) < daysInMonth month.year month.month :=
        Int.natCast_pos.mpr (one_le_daysInMonth month.month_mem)
      refine (Int.le_ediv_iff_mul_le hdays).mpr ?_
      have hle := Int.le_of_dvd (by decide) (hdvd month)
      rw [one_mul]
      exact hle.trans (le_mul_of_one_le_left (by decide) hoverlap)
    refine ⟨_, rfl, by rw [length_map, hlength, hn], fun w hw => by linarith [hall w hw],
      sum_pos_of_forall (by rwa [length_map, hlength]) hall, by simp [hmethod], ?_⟩
    intro _ i w hw
    rw [getElem?_map] at hw
    obtain ⟨month, hmonth, rfl⟩ := Option.map_eq_some_iff.mp hw
    have hcount := hdays.count i _ (by rw [getElem?_map, hmonth]; rfl)
    obtain ⟨j, hj, rfl⟩ := Option.map_eq_some_iff.mp (getElem?_map ▸ hmonth)
    obtain ⟨hi, rfl⟩ := List.getElem?_eq_some_iff.mp hj
    rw [getElem_range] at hcount ⊢
    rw [Int.ediv_mul_cancel ((hdvd _).mul_left _), mul_comm]
    exact congrArg (MONTH_DAY_LCM * ·) hcount
  · refine ⟨_, rfl, by rw [length_map, hlength, hn], fun w hw => by linarith [hone w hw],
      sum_pos_of_forall (by rwa [length_map, hlength]) hone, fun _ => ⟨hdays.sum.trans (ncard_Icc hwindow.ordered), hone⟩, by
        simp [hmethod]⟩
  · obtain ⟨table, htable, hcount⟩ := h.table hmethod
    have hsum : table.sum = HUNDRED_PERCENT := by
      simp only [parsePercentageTable, bind_eq_ok, refuseIf_eq_ok, pure_eq_ok] at htable
      obtain ⟨_, -, _, -, parsed, -, _, htotal, rfl⟩ := htable
      exact not_not.mp htotal
    have hsame : table.length = (windowMonths term.startOn n).length := by
      rw [hlength]
      exact_mod_cast hcount.trans hn
    refine ⟨table.map fun (p : ℕ) => (p : ℤ), ?_, by rw [length_map, hcount], by simp, ?_, by
      simp [hmethod], by simp [hmethod]⟩
    · simp only [htable, ok_bind, hsame]
      exact bind_eq_ok.mpr ⟨(), refuseIf_eq_ok.mpr (not_not.mpr rfl), rfl⟩
    · rw [sum_map_natCast, hsum]
      decide

/-! ### The split of an amount -/

theorem lastWeighted_append (weights : List ℤ) (w : ℤ) :
    lastWeighted (weights ++ [w]) = if 0 < w then weights.length else lastWeighted weights := by
  simp [lastWeighted, zipIdx_append]

theorem lastWeighted_spec (h : ∃ w ∈ weights, 0 < w) :
    lastWeighted weights < weights.length ∧ ∀ (i : ℕ) (w : ℤ), lastWeighted weights < i →
      weights[i]? = some w → w ≤ 0 := by
  induction weights using reverseRecOn with
  | nil => simp at h
  | append_singleton weights w ih =>
    rw [lastWeighted_append, length_append, length_singleton]
    split_ifs with hw
    · refine ⟨Nat.lt_succ_self _, fun i w' hi hget => ?_⟩
      have := (List.getElem?_eq_some_iff.mp hget).1
      rw [length_append, length_singleton] at this
      omega
    · obtain ⟨w', hmem, hpos⟩ := h
      have hmem' : w' ∈ weights := by
        rcases mem_append.mp hmem with hmem | hmem
        · exact hmem
        · exact absurd (mem_singleton.mp hmem ▸ hpos) hw
      obtain ⟨hlt, hafter⟩ := ih ⟨w', hmem', hpos⟩
      refine ⟨by omega, fun i w'' hi hget => ?_⟩
      rcases lt_or_ge i weights.length with hi' | hi'
      · exact hafter i w'' hi (by rwa [getElem?_append_left hi'] at hget)
      · rw [getElem?_append_right hi'] at hget
        obtain rfl := mem_singleton.mp (mem_of_getElem? hget)
        exact not_lt.mp hw

/-- What a split of a total by weights is. -/
structure Splits (total : ℤ) (weights : List ℤ) (quantum : ℤ) (parts : List ℤ) : Prop where
  length : parts.length = weights.length
  sum : parts.sum = total
  nonneg : ∀ part ∈ parts, 0 ≤ part
  floored : ∀ i, i ≠ lastWeighted weights →
    parts[i]? = weights[i]?.map (flooredShare total weights.sum quantum)

variable {quantum total : ℤ} {totalWeight : ℤ}

theorem flooredShare_nonneg {weight : ℤ} (htotal : 0 ≤ total) (hsum : 0 < totalWeight)
    (hquantum : 0 < quantum) (hweight : 0 ≤ weight) :
    0 ≤ flooredShare total totalWeight quantum weight :=
  mul_nonneg (Int.ediv_nonneg (Int.ediv_nonneg (mul_nonneg htotal hweight) hsum.le) hquantum.le)
    hquantum.le

theorem sum_flooredShare_le (htotal : 0 ≤ total) (hsum : 0 < totalWeight)
    (hquantum : 0 < quantum) (last : ℕ) (hweights : ∀ w ∈ weights, 0 ≤ w) (k : ℕ) :
    ((weights.zipIdx k).map fun p =>
      if p.2 = last then 0 else flooredShare total totalWeight quantum p.1).sum * totalWeight ≤
      total * weights.sum := by
  induction weights generalizing k with
  | nil => simp
  | cons w weights ih =>
    obtain ⟨hw, hrest⟩ := forall_mem_cons.mp hweights
    have hfloor : flooredShare total totalWeight quantum w * totalWeight ≤ total * w :=
      (mul_le_mul_of_nonneg_right (Int.ediv_mul_le _ hquantum.ne') hsum.le).trans
        (Int.ediv_mul_le _ hsum.ne')
    have hzero : 0 ≤ total * w := mul_nonneg htotal hw
    have hstep := ih hrest (k + 1)
    rw [zipIdx_cons, map_cons, sum_cons, sum_cons, add_mul, mul_add]
    split_ifs
    · linarith
    · linarith

/-- **A split keeps the total and never goes negative**, the last weighted part included. -/
theorem exists_split (htotal : 0 < total) (hquantum : 0 < quantum)
    (hnonneg : ∀ w ∈ weights, 0 ≤ w) (hpos : 0 < weights.sum) :
    ∃ parts, allocateRemainderToLast total weights quantum = .ok parts ∧
      Splits total weights quantum parts := by
  have hsome : ∃ w ∈ weights, 0 < w := by
    by_contra! hnone
    exact hpos.ne' (sum_eq_zero fun w hw => le_antisymm (hnone w hw) (hnonneg w hw))
  obtain ⟨hlast, -⟩ := lastWeighted_spec hsome
  generalize hparts : (weights.zipIdx.map fun p => if p.2 = lastWeighted weights then 0
    else flooredShare total weights.sum quantum p.1) = parts
  have hle : parts.sum ≤ total := by
    have := sum_flooredShare_le htotal.le hpos hquantum (lastWeighted weights) hnonneg 0
    rw [hparts] at this
    exact le_of_mul_le_mul_right this hpos
  have hget : ∀ i : ℕ, parts[i]? = weights[i]?.map fun w =>
      if i = lastWeighted weights then 0 else flooredShare total weights.sum quantum w := by
    intro i
    rw [← hparts, getElem?_map, getElem?_zipIdx, Option.map_map]
    simp [Function.comp_def]
  have hlength : parts.length = weights.length := by
    rw [← hparts, length_map, length_zipIdx]
  refine ⟨parts.set (lastWeighted weights) (total - parts.sum), ?_, ?_, ?_, ?_, ?_⟩
  · have hguard : ¬weights.any (· < 0) = true := by simpa using hnonneg
    simp only [allocateRemainderToLast, hparts, bind_eq_ok, refuseIf_eq_ok, pure_eq_ok]
    exact ⟨(), htotal.le.not_gt, (), hquantum.not_ge, (), hguard, (), hpos.ne', trivial⟩
  · rw [length_set, hlength]
  · have hzero := hget (lastWeighted weights)
    rw [getElem?_eq_getElem (by rwa [hlength]), getElem?_eq_getElem hlast,
      Option.map_some, if_pos rfl, Option.some.injEq] at hzero
    rw [sum_set', dif_pos (by rwa [hlength]), hzero]
    ring
  · intro part hmem
    rcases mem_or_eq_of_mem_set hmem with hmem | rfl
    · obtain ⟨i, hi⟩ := mem_iff_getElem?.mp hmem
      rw [hget] at hi
      obtain ⟨w, hw, rfl⟩ := Option.map_eq_some_iff.mp hi
      split_ifs
      · exact le_rfl
      · exact flooredShare_nonneg htotal.le hpos hquantum (hnonneg w (mem_of_getElem? hw))
    · exact sub_nonneg.mpr hle
  · intro i hi
    rw [getElem?_set_ne (Ne.symm hi), hget]
    simp [hi]

/-! ### The plan -/

/-- What a plan is: its months are those of the term, and it splits the total. -/
structure Covers (policy : AmortizationPolicy) (term : AmortizationTerm) (total quantum : ℤ)
    (weights : List ℤ) (plan : List PlannedPeriod) : Prop where
  length : (plan.length : ℤ) = term.periodCount
  months : ∀ (i : ℕ) (p : PlannedPeriod), plan[i]? = some p →
    p.periodStart.inMonth = term.startOn.inMonth + policy.periodOffset + i ∧
      p.periodStart.day = 1 ∧ p.periodEnd = endOfMonth p.periodStart
  splits : Splits total weights quantum (plan.map PlannedPeriod.amount)

/-- The period of an amount, so many months after the first. -/
def periodAt (firstPeriodOn : CivilDate) (p : ℤ × ℕ) : PlannedPeriod :=
  ⟨monthFirst (firstPeriodOn.inMonth + p.2), endOfMonth (monthFirst (firstPeriodOn.inMonth + p.2)),
    p.1⟩

/-- A loop refuses when one of its steps does, and with what they all refuse with. -/
theorem mapM_eq_error {α β ε : Type} {f : α → Except ε β} {xs : List α} {x : α} {e : ε}
    (hx : x ∈ xs) (hfail : f x = .error e) (honly : ∀ y e', f y = .error e' → e' = e) :
    xs.mapM f = .error e := by
  induction xs with
  | nil => cases hx
  | cons z xs ih =>
    rw [mapM_cons]
    rcases hz : f z with e' | y
    · rw [honly z e' hz]
      rfl
    · rcases mem_cons.mp hx with rfl | hx
      · rw [hfail] at hz
        cases hz
      · rw [ih hx]
        rfl

/-- **An amortization plan covers its window**, while the calendar lasts for it: the term counts
the months of the window and its weights are theirs; the plan has as many months, from the offset
on, and splits the total over them. A plan past the calendar is refused. -/
theorem plan_covers_window {policy : AmortizationPolicy} {input : AmortizationTermInput}
    {term : AmortizationTerm} {total quantum : ℤ}
    (h : resolveAmortizationTerm policy input = .ok term) (htotal : 0 < total)
    (hquantum : 0 < quantum) :
    term.endOn.inMonth = term.startOn.inMonth + term.periodCount - 1 ∧
      ∃ weights, termWeights policy term = .ok weights ∧ Weighs policy term weights ∧
        if term.startOn.inMonth + policy.periodOffset + term.periodCount - 1 ≤
            monthNumber 9999 12 then
          ∃ plan, buildAmortizationPlan policy term total quantum = .ok plan ∧
            Covers policy term total quantum weights plan
        else buildAmortizationPlan policy term total quantum = .error
          (.range ⟨"business date exceeds the supported calendar (0001 through 9999)"⟩) := by
  have hresolved := resolved_of_resolve h
  refine ⟨hresolved.window.last, ?_⟩
  obtain ⟨weights, hweights, hweighs⟩ := exists_weights hresolved
  obtain ⟨parts, hparts, hsplits⟩ := exists_split htotal hquantum hweighs.nonneg hweighs.pos
  obtain ⟨hfirst, hday⟩ := addMonthsStart_eq_ok hresolved.first
  have hcount : (parts.length : ℤ) = term.periodCount := hsplits.length ▸ hweighs.length
  have hfirstMonth := term.firstPeriodOn.inMonth_mem
  refine ⟨weights, hweights, hweighs, ?_⟩
  simp only [buildAmortizationPlan, hweights, hparts, ok_bind, monthNumber]
  have hstart : refuseIf (total ≤ 0) (refusal "Amortize a positive amount."
      "amortization_amount_not_positive"
      "Only a positive deferral can be amortized; post credits as a schedule reduction.") =
        .ok () := refuseIf_eq_ok.mpr htotal.not_ge
  rw [hstart, ok_bind]
  split_ifs with hrange
  · refine ⟨parts.zipIdx.map (periodAt term.firstPeriodOn), mapM_ok_of_forall fun p hp => ?_, ?_⟩
    · have hlt := snd_lt_of_mem_zipIdx hp
      rw [addMonthsStart, if_pos (by omega)]
      rfl
    refine ⟨by rw [length_map, length_zipIdx, hcount], fun i p hp => ?_, ?_⟩
    · rw [getElem?_map, getElem?_zipIdx, Option.map_map] at hp
      obtain ⟨amount, hamount, rfl⟩ := Option.map_eq_some_iff.mp hp
      have hlt := (List.getElem?_eq_some_iff.mp hamount).1
      obtain ⟨hmonth, hone⟩ := monthFirst_spec (show 12 ≤ term.firstPeriodOn.inMonth + i by omega)
        (by omega)
      simp only [Function.comp_apply, periodAt, Nat.zero_add]
      exact ⟨by rw [hmonth, hfirst], hone, trivial⟩
    · have hamounts : (parts.zipIdx.map (periodAt term.firstPeriodOn)).map PlannedPeriod.amount =
          parts := by
        rw [map_map]
        exact zipIdx_map_fst 0 parts
      rwa [hamounts]
  · -- The last period is the first that the calendar does not have, or comes after it.
    have hlast : parts.length - 1 < parts.length := by omega
    refine mapM_eq_error (x := (parts[parts.length - 1], parts.length - 1))
      (mk_mem_zipIdx_iff_getElem?.mpr (getElem?_eq_getElem hlast)) ?_ ?_
    · rw [addMonthsStart, if_neg (by omega)]
      rfl
    · intro p e' he
      rw [addMonthsStart] at he
      split_ifs at he
      · cases he
      · cases he
        rfl

def proratedPolicy : AmortizationPolicy := ⟨.proratedFirstLast, .template, some 12, none, 2⟩

theorem plan_covers_window_prorated : ∃ term,
    resolveAmortizationTerm proratedPolicy ⟨none, none, "2024-01-31"⟩ = .ok term ∧
      term.periodCount = 13 ∧ term.endOn.inMonth = term.startOn.inMonth + term.periodCount - 1 :=
  ⟨_, rfl, rfl, (@plan_covers_window proratedPolicy ⟨none, none, "2024-01-31"⟩ _ 10000 1 rfl
    (by decide) (by decide)).1⟩

/-- Two months of service at the end of the calendar, put off by one. -/
theorem plan_past_calendar : ∃ term,
    resolveAmortizationTerm ⟨.exactDays, .serviceDates, none, none, 1⟩
        ⟨some "9999-11-01", some "9999-12-31", "9999-11-01"⟩ = .ok term ∧
      buildAmortizationPlan ⟨.exactDays, .serviceDates, none, none, 1⟩ term 10000 1 =
        .error (.range ⟨"business date exceeds the supported calendar (0001 through 9999)"⟩) := by
  exact ⟨_, rfl, by decide⟩

end OpenBooks.Amortization
