import OpenBooks.Lib.CodeUnits
import OpenBooks.Lib.FirstSeen
import OpenBooks.Allocations.Apportion
import OpenBooks.Money.DecimalText
import OpenBooks.Platform.CivilDate

/-!
# Derived earnings

Money produced by operational facts rather than typed in: a rule reads approved time entries, or
equipment charge lines, and turns what it finds into priced units and those into earning lines.
`applyDerivedRule` is one rule for one employee in one pay period.

Two notions of time meet here. Most triggers read the days of the period. A `month_end` rule, and
the equipment charges, read a whole calendar month, on the period that `settlementMonth` says
settles it; and a night is credited to the morning after, so a `night_stayed` rule also reads the
day before the period.

Dates are days of the calendar, quantities and money whole ten-thousandths.
-/

namespace OpenBooks

open Checked CodeUnits

/-! ### The data -/

inductive DerivedTrigger
  | timeEntry
  | distinctDay
  | distinctProjectDay
  | nightStayed
  | monthEnd
  | equipmentCharge
  deriving DecidableEq

inductive DerivedQuantityMode
  | count
  | sumHours
  | countNights
  | sumQuantity
  | sumBillAmount
  deriving DecidableEq

inductive DerivedRateMode
  | fixedPerUnit
  | percentOfGross
  | percentOfQuantity
  | rateCard
  deriving DecidableEq

inductive DerivedCostingMode
  | source
  | firstProjectOfDay
  | uncosted
  deriving DecidableEq

structure DerivedRule where
  id : String
  code : String
  name : String
  componentId : String
  trigger : DerivedTrigger
  timeTypeId : Option String
  projectId : Option String
  departmentId : Option String
  /-- Charge filters: an equipment rule's unit and item. -/
  equipmentUnitId : Option String
  itemId : Option String
  tradeId : Option String
  jobTitle : Option String
  billableOnly : Bool
  /-- Empty is everyone; exclusions still win. -/
  includedJobTitles : List String
  excludedJobTitles : List String
  quantityMode : DerivedQuantityMode
  rateMode : DerivedRateMode
  rateValue : Option ℤ
  costingMode : DerivedCostingMode
  sequence : ℤ

/-- The slice of a time entry a rule can see. -/
structure DerivedTimeEntry where
  id : String
  workedOn : CivilDate
  hours : ℤ
  timeTypeId : Option String
  projectId : Option String
  departmentId : Option String
  isBillable : Bool
  startedAt : Option String
  createdAt : Option String

/-- The slice of a charge line an equipment rule can see. -/
structure DerivedEquipmentCharge where
  id : String
  day : CivilDate
  employeePartyId : Option String
  equipmentUnitId : Option String
  itemId : Option String
  projectId : Option String
  departmentId : Option String
  isBillable : Bool
  baseQuantity : ℤ
  billAmount : ℤ

/-- What a rule filters an employee on. -/
structure DerivedEmployeeScope where
  jobTitle : Option String
  tradeId : Option String
  departmentId : Option String
  partyId : Option String

structure DerivedComponent where
  id : String
  name : String
  value : Option ℤ
  taxable : Bool
  pensionable : Bool
  insurable : Bool
  nonPeriodic : Bool
  supplementalWageCategory : Option String
  statutoryReportingCategory : Option String
  statutoryExemptionCategory : Option String

structure DerivedEarningLine where
  quantity : ℤ
  componentId : String
  description : String
  rate : Option ℤ
  amount : ℤ
  projectId : Option String
  departmentId : Option String
  timeTypeId : Option String
  sequence : ℤ
  taxable : Bool
  pensionable : Bool
  insurable : Bool
  nonPeriodic : Bool
  supplementalWageCategory : Option String
  statutoryReportingCategory : Option String
  statutoryExemptionCategory : Option String
  ruleId : String
  ruleCode : String
  deriving DecidableEq

/-- A payable fact, before pricing. -/
structure PendingUnit where
  day : CivilDate
  quantity : ℤ
  projectId : Option String
  departmentId : Option String
  entryIds : List String
  deriving DecidableEq

/-- A payable fact, priced. -/
structure DerivedUnit extends PendingUnit where
  amount : ℤ
  deriving DecidableEq

structure DerivedEarningsInput where
  components : List DerivedComponent
  employee : DerivedEmployeeScope
  entries : List DerivedTimeEntry
  charges : List DerivedEquipmentCharge
  periodStart : CivilDate
  periodEnd : CivilDate
  gross : ℤ
  /-- Rates of the employee's own, by component. -/
  rateOverrides : List (String × ℤ)

/-- A span of days, both ends included. -/
structure DaySpan where
  start : CivilDate
  stop : CivilDate
  deriving DecidableEq

/-- What a month that cannot be settled is missing. -/
structure CoverageDetail where
  ruleCode : String
  month : DaySpan
  unattributed : ℕ
  qualifying : ℕ
  deriving DecidableEq

inductive DerivedError
  | earnings (message : String)
  | coverage (message : String) (detail : CoverageDetail)
  | range (e : RangeError)
  | money (message : String)
  deriving DecidableEq

/-- The priced facts, and the lines they roll up to. -/
structure AppliedRule where
  units : List DerivedUnit
  lines : List DerivedEarningLine
  deriving DecidableEq

/-! ### Windows -/

/-- The calendar month a period settles: the one whose last day is the first month end on or
after the period's start, if the period reaches it. -/
def settlementMonth (periodStart periodEnd : CivilDate) : Option DaySpan :=
  let monthEnd := endOfMonth periodStart
  if monthEnd ≤ periodEnd then some ⟨startOfMonth monthEnd, monthEnd⟩ else none

/-- The first day of a period can only be judged for nights with the last day of the one
before. -/
def nightLookback (rules : List DerivedRule) (periodStart : CivilDate) :
    Except RangeError CivilDate :=
  if rules.any (·.trigger = .nightStayed) then prevDay periodStart else .ok periodStart

/-- The widest span of time a rule set needs to read, lookbacks included. -/
def derivedEntryWindow (rules : List DerivedRule) (periodStart periodEnd : CivilDate) :
    Except RangeError DaySpan := do
  let lookback ← nightLookback rules periodStart
  let month :=
    if rules.any (·.trigger = .monthEnd) then settlementMonth periodStart periodEnd else none
  match month with
  | some month => return ⟨if month.start < lookback then month.start else lookback, periodEnd⟩
  | none => return ⟨lookback, periodEnd⟩

def derivedChargeWindow (rules : List DerivedRule) (periodStart periodEnd : CivilDate) :
    Option DaySpan :=
  if rules.any (·.trigger = .equipmentCharge) then settlementMonth periodStart periodEnd else none

/-! ### Whom and what a rule admits -/

section Rule

variable (lower : String → String)

/-- Runs of white space as one blank. -/
def collapseBlanks : Bool → List Char → List Char
  | _, [] => []
  | inRun, c :: text =>
    if isJsWhitespace c then
      if inRun then collapseBlanks true text else ' ' :: collapseBlanks true text
    else c :: collapseBlanks false text

def normalizeTitle (value : Option String) : List Char :=
  collapseBlanks false (lower (String.ofList (trim (value.getD "").toList))).toList

/-- Does a configured title list name the employee's title? -/
def titleListNames (list : List String) (jobTitle : Option String) : Bool :=
  list.any fun entry =>
    normalizeTitle lower (some entry) ≠ [] &&
      normalizeTitle lower (some entry) = normalizeTitle lower jobTitle

/-- A filter that is set; an empty text is not. -/
def isSet (wanted : Option String) : Option String := wanted.filter (· ≠ "")

/-- A filter lets everything through when it is not set, and otherwise only its own value. -/
def filterPasses (wanted actual : Option String) : Bool :=
  (isSet wanted).all fun w => actual = some w

/-- Whether a rule's employee filters admit this employee at all; exclusions win. -/
def ruleAdmitsEmployee (rule : DerivedRule) (employee : DerivedEmployeeScope) : Bool :=
  !titleListNames lower rule.excludedJobTitles employee.jobTitle &&
  (rule.includedJobTitles.isEmpty ||
    titleListNames lower rule.includedJobTitles employee.jobTitle) &&
  ((isSet rule.jobTitle).isNone ||
    normalizeTitle lower rule.jobTitle = normalizeTitle lower employee.jobTitle) &&
  filterPasses rule.tradeId employee.tradeId

def entryMatches (rule : DerivedRule) (entry : DerivedTimeEntry)
    (employee : DerivedEmployeeScope) : Bool :=
  filterPasses rule.timeTypeId entry.timeTypeId &&
  filterPasses rule.projectId entry.projectId &&
  (!rule.billableOnly || entry.isBillable) &&
  filterPasses rule.departmentId (entry.departmentId.or employee.departmentId)

/-- Whether a charge line is in a rule's scope, whoever ran the machine. -/
def chargeMatches (rule : DerivedRule) (charge : DerivedEquipmentCharge)
    (employee : DerivedEmployeeScope) : Bool :=
  (isSet charge.equipmentUnitId).isSome &&
  filterPasses rule.equipmentUnitId charge.equipmentUnitId &&
  filterPasses rule.itemId charge.itemId &&
  filterPasses rule.projectId charge.projectId &&
  (!rule.billableOnly || charge.isBillable) &&
  filterPasses rule.departmentId (charge.departmentId.or employee.departmentId)

/-! ### Facts -/

/-- The order within a day: the recorded clock time, an unknown one last, then the order of
capture, then the id. -/
def byClockThenCaptureOrder (a b : DerivedTimeEntry) : Prop :=
  let sa := a.startedAt.getD ""
  let sb := b.startedAt.getD ""
  let ca := a.createdAt.getD ""
  let cb := b.createdAt.getD ""
  if sa ≠ sb then sa ≠ "" ∧ (sb = "" ∨ encode sa < encode sb)
  else if ca ≠ cb then encode ca < encode cb
  else encode a.id ≤ encode b.id

instance : DecidableRel byClockThenCaptureOrder := fun a b =>
  inferInstanceAs (Decidable (if a.startedAt.getD "" ≠ b.startedAt.getD "" then
      a.startedAt.getD "" ≠ "" ∧ (b.startedAt.getD "" = "" ∨
        encode (a.startedAt.getD "") < encode (b.startedAt.getD ""))
    else if a.createdAt.getD "" ≠ b.createdAt.getD "" then
      encode (a.createdAt.getD "") < encode (b.createdAt.getD "")
    else encode a.id ≤ encode b.id))

/-- The job the employee went to first on a day, across all their time. -/
def firstProjectOfDay (entries : List DerivedTimeEntry) (day : CivilDate) :
    Option String × Option String :=
  let first := ((entries.filter fun entry => entry.workedOn = day && (isSet entry.projectId).isSome)
    |>.insertionSort byClockThenCaptureOrder).head?
  (first.bind (·.projectId), first.bind (·.departmentId))

/-- The hours of the entries, or one. -/
def unitQuantity (rule : DerivedRule) (entries : List DerivedTimeEntry) : ℤ :=
  if rule.quantityMode = .sumHours then (entries.map (·.hours)).sum else SCALE

/-- What one charge line is worth in the rule's chosen measure. -/
def chargeQuantity (rule : DerivedRule) (charge : DerivedEquipmentCharge) : ℤ :=
  match rule.quantityMode with
  | .sumQuantity => charge.baseQuantity
  | .sumBillAmount => charge.billAmount
  | _ => SCALE

/-- The equipment charges a rule pays this employee, refused when the month it settles is not
fully attributed. -/
def chargeUnitsForRule (rule : DerivedRule) (input : DerivedEarningsInput) :
    Except DerivedError (List PendingUnit) := do
  match settlementMonth input.periodStart input.periodEnd with
  | none => return []
  | some window => do
    refuseIf (isSet rule.timeTypeId).isSome (.earnings ("derived rule " ++ rule.code ++
      " reads equipment charges but filters on a time type"))
    refuseIf (isSet input.employee.partyId).isNone (.earnings ("derived rule " ++ rule.code ++
      " reads equipment charges but the employee has no party id"))
    let qualifying := input.charges.filter fun charge =>
      window.start ≤ charge.day && charge.day ≤ window.stop &&
        chargeMatches rule charge input.employee
    let unattributed := qualifying.filter (·.employeePartyId.isNone)
    refuseIf (unattributed ≠ []) (.coverage
      ("derived rule " ++ rule.code ++ " cannot settle " ++
        String.ofList (isoDateOf window.start) ++ ".." ++ String.ofList (isoDateOf window.stop) ++
        ": " ++ toString unattributed.length ++ " of " ++ toString qualifying.length ++
        " qualifying equipment charges record no operator, so the incentive would under-pay")
      ⟨rule.code, window, unattributed.length, qualifying.length⟩)
    return (qualifying.filter fun charge => charge.employeePartyId = input.employee.partyId).map
      fun charge => ⟨charge.day, chargeQuantity rule charge, charge.projectId,
        charge.departmentId, [charge.id]⟩

/-- A night lies between two consecutive qualifying days. It is credited to the later one and
costed to the job of the earlier one. -/
def nightUnit (rule : DerivedRule) (window : DaySpan)
    (byDay : List (CivilDate × List DerivedTimeEntry)) (day : CivilDate) :
    Except DerivedError (List PendingUnit) :=
  if day < window.start ∨ window.stop < day then .ok []
  else do
    let before ← (prevDay day).mapError .range
    match (byDay.lookup before).bind (·.head?) with
    | none => return []
    | some slept =>
      let today := (byDay.lookup day).getD []
      return [⟨day, unitQuantity rule today, slept.projectId, slept.departmentId,
        slept.id :: today.map (·.id)⟩]

/-- One fact for each night that was slept away. -/
def nightUnits (rule : DerivedRule) (window : DaySpan) (qualifying : List DerivedTimeEntry) :
    Except DerivedError (List PendingUnit) :=
  let byDay := FirstSeen.groupBy (·.workedOn) qualifying
  collect (nightUnit rule window byDay) ((byDay.map Prod.fst).insertionSort (· ≤ ·))

/-- What entries are grouped on: the day, the day and the job, or nothing but themselves. -/
def groupKey (trigger : DerivedTrigger) (entry : DerivedTimeEntry) : String :=
  match trigger with
  | .distinctDay => String.ofList (isoDateOf entry.workedOn)
  | .distinctProjectDay =>
    String.ofList (isoDateOf entry.workedOn) ++ "|" ++ entry.projectId.getD ""
  | _ => entry.id

/-- One fact for each group of entries, in the order of their first. -/
def groupedUnits (rule : DerivedRule) (inWindow : List DerivedTimeEntry) : List PendingUnit :=
  (FirstSeen.groupBy (groupKey rule.trigger) inWindow).filterMap fun group =>
    group.2.head?.map fun first => ⟨first.workedOn, unitQuantity rule group.2, first.projectId,
      first.departmentId, group.2.map (·.id)⟩

/-- The payable facts a rule finds, before pricing. -/
def unitsForRule (rule : DerivedRule) (input : DerivedEarningsInput) :
    Except DerivedError (List PendingUnit) :=
  let qualifying := (input.entries.filter fun entry => entryMatches rule entry input.employee)
    |>.insertionSort byClockThenCaptureOrder
  let window :=
    if rule.trigger = .monthEnd then settlementMonth input.periodStart input.periodEnd
    else some ⟨input.periodStart, input.periodEnd⟩
  match rule.trigger, window with
  | .equipmentCharge, _ => chargeUnitsForRule rule input
  | _, none => .ok []
  | .nightStayed, some window => nightUnits rule window qualifying
  | _, some window => .ok (groupedUnits rule
      (qualifying.filter fun entry => window.start ≤ entry.workedOn && entry.workedOn ≤ window.stop))

/-! ### Prices -/

/-- The rule's configured rate: an absent one is an unconfigured rule, not a zero one. -/
def requiredRateValue (rule : DerivedRule) : Except DerivedError ℤ :=
  orRefuse rule.rateValue (.earnings ("derived rule " ++ rule.code ++ " is " ++
    (match rule.rateMode with
      | .fixedPerUnit => "fixed_per_unit"
      | .percentOfGross => "percent_of_gross"
      | .percentOfQuantity => "percent_of_quantity"
      | .rateCard => "rate_card") ++ " but carries no rate value"))

def findComponent (rule : DerivedRule) (input : DerivedEarningsInput) : Option DerivedComponent :=
  input.components.find? fun component => component.id = rule.componentId

/-- The rate of a fact. -/
def perUnitRate (rule : DerivedRule) (input : DerivedEarningsInput) : Except DerivedError ℤ :=
  if rule.rateMode ≠ .rateCard then requiredRateValue rule
  else
    -- the component is the rate card, and an employee's own rate replaces its value
    match input.rateOverrides.lookup rule.componentId with
    | some override => .ok override
    | none =>
      orRefuse ((findComponent rule input).bind (·.value)) (.earnings ("derived rule " ++
        rule.code ++ " is rate-carded but its pay component carries no value"))

/-- Split a money total across facts by their quantities, to the cent, by largest remainder;
nothing when the quantities sum to zero. -/
def allocateByQuantity (total : ℤ) (quantities : List ℤ) :
    Except DerivedError (Option (List ℤ)) := do
  refuseIf (∃ q ∈ quantities, q < 0) (.earnings "a derived quantity cannot be negative")
  if quantities.sum = 0 then return none
  else do
    let parts ← (apportion (total.tdiv 100) quantities .largestRemainder).mapError .money
    return some (parts.map (· * 100))

/-- Where the cost of a fact goes. -/
def costedUnit (rule : DerivedRule) (entries : List DerivedTimeEntry) (unit : PendingUnit) :
    PendingUnit :=
  match rule.costingMode with
  | .uncosted => { unit with projectId := none, departmentId := none }
  | .firstProjectOfDay =>
    let first := firstProjectOfDay entries unit.day
    { unit with projectId := first.1, departmentId := first.2 }
  | .source => unit

/-- Price each fact. A percentage of gross is one exact total, split; when there is nothing to
split it against, no fact is paid. -/
def pricedUnits (rule : DerivedRule) (gross rate : ℤ) (costed : List PendingUnit) :
    Except DerivedError (Option (List DerivedUnit)) :=
  match rule.rateMode with
  | .percentOfGross => do
    let percent ← requiredRateValue rule
    let shares ← allocateByQuantity (mulPercent gross ⟨percent, 4, four_places_le⟩ 2)
      (costed.map (·.quantity))
    return shares.map fun shares => costed.zipWith (fun unit amount => ⟨unit, amount⟩) shares
  | .percentOfQuantity => do
    let percent ← requiredRateValue rule
    return some (costed.map fun unit => ⟨unit, mulPercent unit.quantity ⟨percent, 4, four_places_le⟩ 2⟩)
  | _ => .ok (some (costed.map fun unit => ⟨unit, roundMoney (mul rate unit.quantity) 2⟩))

/-! ### Lines -/

/-- A decimal text without the zeros it ends in. -/
def trimZeros (value : String) : String :=
  if '.' ∈ value.toList then
    let shorter := (value.toList.reverse.dropWhile (· = '0')).reverse
    String.ofList (if shorter.getLast? = some '.' then shorter.dropLast else shorter)
  else value

/-- How an amount was reached, on the line the employee sees. -/
def describe (rule : DerivedRule) (quantity rate : ℤ) : String :=
  let qty := trimZeros (formatMoney quantity 2)
  match rule.rateMode with
  | .percentOfGross =>
    rule.name ++ " (" ++ trimZeros (formatMoney (rule.rateValue.getD 0) 4) ++ "% of gross)"
  | .percentOfQuantity =>
    let basis :=
      if rule.quantityMode = .sumBillAmount then formatMoney quantity 2 ++ " billed"
      else qty ++ " units"
    rule.name ++ " (" ++ trimZeros (formatMoney rate 4) ++ "% of " ++ basis ++ ")"
  | _ =>
    let unit := if rule.quantityMode = .sumHours then qty ++ " h" else qty
    rule.name ++ " (" ++ unit ++ " × " ++ formatMoney rate 2 ++ ")"

def bucketKey (unit : DerivedUnit) : String :=
  unit.projectId.getD "" ++ "|" ++ unit.departmentId.getD ""

/-- The line of one job-costing bucket: none for a zero amount, and no negative one. -/
def bucketLine (rule : DerivedRule) (component : DerivedComponent) (rate : ℤ)
    (bucket : String × List DerivedUnit) : Except DerivedError (List DerivedEarningLine) := do
  let quantity := (bucket.2.map (·.quantity)).sum
  let amount := (bucket.2.map (·.amount)).sum
  if amount = 0 then return []
  else do
    refuseIf (amount < 0) (.earnings ("derived rule " ++ rule.code ++
      " computed a negative earning (" ++ fromUnits amount ++
      "); a rule can only pay, so recover an overpayment through a pay run adjustment"))
    return [
      { quantity, componentId := rule.componentId, description := describe rule quantity rate
        rate := if rule.rateMode = .percentOfGross ∨ rule.rateMode = .percentOfQuantity then none
          else some (roundMoney rate 4)
        amount
        projectId := bucket.2.head?.bind (·.projectId)
        departmentId := bucket.2.head?.bind (·.departmentId)
        timeTypeId := rule.timeTypeId, sequence := rule.sequence
        taxable := component.taxable, pensionable := component.pensionable
        insurable := component.insurable, nonPeriodic := component.nonPeriodic
        supplementalWageCategory := component.supplementalWageCategory
        statutoryReportingCategory := component.statutoryReportingCategory
        statutoryExemptionCategory := component.statutoryExemptionCategory
        ruleId := rule.id, ruleCode := rule.code }]

/-- Roll the facts up to one line per job-costing bucket, by key. -/
def bucketLines (rule : DerivedRule) (component : DerivedComponent) (rate : ℤ)
    (units : List DerivedUnit) : Except DerivedError (List DerivedEarningLine) :=
  collect (bucketLine rule component rate) ((FirstSeen.groupBy bucketKey units).insertionSort
    fun a b => encode a.1 ≤ encode b.1)

/-- Apply one rule to one employee. -/
def applyDerivedRule (rule : DerivedRule) (input : DerivedEarningsInput) :
    Except DerivedError AppliedRule := do
  if ruleAdmitsEmployee lower rule input.employee = false then return ⟨[], []⟩
  else do
    let component ← orRefuse (findComponent rule input)
      (.earnings ("derived rule " ++ rule.code ++ " has no pay component"))
    let pending ← unitsForRule rule input
    if pending = [] then return ⟨[], []⟩
    else do
      let costed := pending.map (costedUnit rule input.entries)
      let rate ← perUnitRate rule input
      match ← pricedUnits rule input.gross rate costed with
      | none => return ⟨[], []⟩
      | some units => do
        let lines ← bucketLines rule component rate units
        return ⟨units, lines⟩

end Rule

end OpenBooks
