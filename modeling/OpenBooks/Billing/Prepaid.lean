import OpenBooks.Money.DecimalText
import OpenBooks.Platform.CivilDate
import OpenBooks.Lib.Runs

/-!
# Prepaid usage

A posted invoice line for prepaid usage is divided into *grants*, and a grant is used up by
*draws*, each for a month. A draw is never changed: a *reversal* is another row of the
opposite amount, for the same grant and the same month. What a grant has left on a date is its
amount less the draws of the months up to it.

The writer of a draw compares it with the draws of all months, past and future, and not with
the balance of any date. That is enough for every date, because a reversal takes its draw back
in the very month it was made.

The breakage of a grant is reassessed after a draw only when an estimate of it has been
applied; the operations of this file apply none.
-/

namespace OpenBooks

open Checked

/-! ### Rows -/

structure UsageBillingError where
  code : String
  message : String
  remedy : String
  field : Option String := none
  status : ℕ := 422

inductive PrepaidError where
  | usage (error : UsageBillingError)
  | scopeNotFound

/-- A line of a posted invoice whose item is recognised by usage. -/
structure PrepaidSource where
  customerId : String
  invoiceCurrency : String
  lineAmount : ℤ

structure PrepaidGrant where
  id : ℕ
  customerId : String
  sourceDocumentLineId : String
  amount : ℤ
  currency : String
  expiresOn : Option CivilDate

structure PrepaidDraw where
  id : ℕ
  grantId : ℕ
  runId : Option String
  periodMonth : CivilDate
  amount : ℤ
  reversesDrawId : Option ℕ
  deriving DecidableEq

/-- An applied estimate of the breakage of a grant. -/
structure BreakagePolicy where
  id : String
  effectiveOn : CivilDate

/-- The rows, and the estimate in force for each grant. -/
structure PrepaidLedger where
  grants : List PrepaidGrant := []
  draws : List PrepaidDraw := []
  policies : ℕ → Option BreakagePolicy := fun _ => none

/-- What the operations read of the rest of the database: the invoice lines, which do not
change once posted, and the reassessment of a grant's breakage under an estimate. -/
structure PrepaidContext where
  lines : String → Option PrepaidSource
  adjustEvents : PrepaidLedger → ℕ → BreakagePolicy → CivilDate → Except PrepaidError Unit

/-- What may vary from call to call: whether the feature is on, whether the caller may see the
customer, whether the invoice is still posted. -/
structure PrepaidAccess where
  featureOn : Bool := true
  visible : Bool := true
  posted : Bool := true

def featureOff : PrepaidError :=
  .usage {
    code := "feature_off", message := "Usage billing is turned off for this organization."
    remedy := "Enable Usage Billing in Company Settings → Features." }

/-- A refusal that names the field it is about. -/
def refusal (code message remedy field : String) : PrepaidError :=
  .usage { code := code, message := message, remedy := remedy, field := some field }

/-- A refusal because of what is already there. -/
def conflict (code message remedy field : String) : PrepaidError :=
  .usage { code := code, message := message, remedy := remedy, field := some field, status := 409 }

/-- The characters before the point of an amount, without leading zeros: a sign is one, and
keeps the zero after it. -/
def wholeDigitCount (amount : ℤ) : ℕ :=
  let digits := (Nat.digits 10 (amount.natAbs / 10000)).length
  if amount < 0 then 1 + max 1 digits else digits

/-- An amount that fits its column. -/
def exactMoney (amount : ℤ) (field : String) : Except PrepaidError ℤ := do
  refuseIf (15 < wholeDigitCount amount)
    (refusal "usage_prepaid_amount_invalid"
      (field ++ " exceeds the supported numeric(19,4) range.")
      ("Provide " ++ field ++ " with no more than 15 whole digits.") field)
  return amount

def requiredText (value field : String) : Except PrepaidError String := do
  let trimmed := trim value.toList
  refuseIf (trimmed = [])
    (refusal "usage_prepaid_input_required" (field ++ " is required.")
      ("Provide a non-empty " ++ field ++ ".") field)
  return String.ofList trimmed

namespace PrepaidLedger

/-! ### Reading -/

def grant? (s : PrepaidLedger) (grantId : ℕ) : Option PrepaidGrant :=
  s.grants.find? (·.id = grantId)

def draw? (s : PrepaidLedger) (drawId : ℕ) : Option PrepaidDraw :=
  s.draws.find? (·.id = drawId)

/-- What a row contributes to the draws of a grant in the months that count. -/
def drawOf (grantId : ℕ) (counts : CivilDate → Bool) (d : PrepaidDraw) : ℤ :=
  if d.grantId = grantId ∧ counts d.periodMonth = true then d.amount else 0

/-- What has been drawn on a grant, on the days that count. -/
def drawn (s : PrepaidLedger) (grantId : ℕ) (counts : CivilDate → Bool) : ℤ :=
  (s.draws.map (drawOf grantId counts)).sum

/-- What has been granted on a line. -/
def granted (s : PrepaidLedger) (sourceLineId : String) : ℤ :=
  ((s.grants.filter (·.sourceDocumentLineId = sourceLineId)).map (·.amount)).sum

structure PrepaidSnapshot where
  amount : ℤ
  expiresOn : Option CivilDate
  drawn : ℤ

def readSnapshot (s : PrepaidLedger) (access : PrepaidAccess) (grantId : ℕ) (asOf : CivilDate)
    (includeFutureDraws : Bool) : Except PrepaidError PrepaidSnapshot := do
  let grant ← orRefuse (s.grant? grantId) .scopeNotFound
  refuseIf (access.visible = false) .scopeNotFound
  return {
    amount := grant.amount, expiresOn := grant.expiresOn
    drawn := s.drawn grantId fun month => includeFutureDraws || month ≤ asOf }

def prepaidBalance (s : PrepaidLedger) (access : PrepaidAccess) (grantId : ℕ) (asOf : CivilDate) :
    Except PrepaidError ℤ := do
  refuseIf (access.featureOn = false) featureOff
  let snapshot ← s.readSnapshot access grantId asOf false
  return snapshot.amount - snapshot.drawn

/-- What is left for another draw, in the eyes of its writer. -/
def prepaidBalanceForDraw (s : PrepaidLedger) (access : PrepaidAccess) (grantId : ℕ)
    (periodEnd : CivilDate) : Except PrepaidError ℤ := do
  refuseIf (access.featureOn = false) featureOff
  let snapshot ← s.readSnapshot access grantId periodEnd true
  return snapshot.amount - snapshot.drawn

/-! ### Writing -/

structure CreatePrepaidGrantInput where
  customerId : String
  sourceDocumentLineId : String
  amount : ℤ
  currency : String
  expiresOn : Option CivilDate := none

structure RecordPrepaidDrawInput where
  grantId : ℕ
  runId : Option String := none
  periodMonth : CivilDate
  amount : ℤ

def isCurrencyCode (text : String) : Bool :=
  text.length = 3 && text.toList.all fun c => 'A' ≤ c && c ≤ 'Z'

def createPrepaidGrant (context : PrepaidContext) (access : PrepaidAccess) (s : PrepaidLedger)
    (input : CreatePrepaidGrantInput) : Except PrepaidError PrepaidLedger := do
  refuseIf (access.featureOn = false) featureOff
  refuseIf (access.visible = false) .scopeNotFound
  let amount ← exactMoney input.amount "amount"
  refuseIf (amount ≤ 0)
    (refusal "usage_prepaid_amount_invalid" "A prepaid grant amount must be greater than zero."
      "Provide the positive amount billed for the prepaid usage item." "amount")
  let currency ← requiredText input.currency "currency"
  refuseIf (isCurrencyCode currency = false)
    (refusal "usage_prepaid_currency_invalid"
      "The prepaid grant currency must be an uppercase ISO currency code."
      "Use the currency recorded on the posted customer invoice." "currency")
  let source ← orRefuse
    ((context.lines input.sourceDocumentLineId).filter fun _ => access.posted)
    (refusal "usage_prepaid_source_not_eligible"
      ("The source line is not on a posted customer invoice with a usage-method recognition " ++
        "rule on its item.")
      "Set a usage-method recognition rule on the prepaid item and bill it again."
      "source_document_line_id")
  refuseIf (source.customerId ≠ input.customerId)
    (refusal "usage_prepaid_customer_mismatch"
      "The prepaid grant customer does not match the posted invoice customer."
      "Create the grant for the customer named on the posted customer invoice." "customer_id")
  refuseIf (source.invoiceCurrency ≠ currency)
    (refusal "usage_prepaid_currency_mismatch"
      ("The grant currency " ++ currency ++ " does not match the posted invoice currency " ++
        source.invoiceCurrency ++ ".")
      "Use the currency recorded on the posted customer invoice." "currency")
  let remainingLineAmount := source.lineAmount - s.granted input.sourceDocumentLineId
  refuseIf (remainingLineAmount < amount)
    (refusal "usage_prepaid_grant_exceeds_source"
      "The requested prepaid grant exceeds the unallocated amount on its posted invoice line."
      ("Limit the grant to the remaining posted line amount of " ++
        fromUnits remainingLineAmount ++ ".") "amount")
  return { s with
    grants := s.grants ++ [{
      id := s.grants.length, customerId := input.customerId
      sourceDocumentLineId := input.sourceDocumentLineId, amount := amount
      currency := currency, expiresOn := input.expiresOn }] }

/-- Reassess the breakage of a grant, if an estimate of it has been applied. -/
def refreshPrepaidBreakage (context : PrepaidContext) (s : PrepaidLedger) (grantId : ℕ)
    (periodMonth : CivilDate) : Except PrepaidError Unit :=
  match s.policies grantId with
  | none => .ok ()
  | some policy => context.adjustEvents s grantId policy (max periodMonth policy.effectiveOn)

/-- The unique index over the run, grant and month of a draw. -/
def drawnInRun (s : PrepaidLedger) (runId : Option String) (grantId : ℕ)
    (periodMonth : CivilDate) : Bool :=
  s.draws.any fun d => d.reversesDrawId = none && runId.isSome && d.runId = runId &&
    d.grantId = grantId && d.periodMonth = periodMonth

/-- A draw of no more than the grant has left, before it expires. -/
def recordPrepaidDraw (context : PrepaidContext) (access : PrepaidAccess) (s : PrepaidLedger)
    (input : RecordPrepaidDrawInput) : Except PrepaidError PrepaidLedger := do
  refuseIf (access.featureOn = false) featureOff
  refuseIf (input.periodMonth.day ≠ 1)
    (refusal "usage_prepaid_period_invalid"
      "A prepaid draw period_month must be the first day of its month."
      "Use YYYY-MM-01 as the draw period_month." "period_month")
  let amount ← exactMoney input.amount "amount"
  refuseIf (amount ≤ 0)
    (refusal "usage_prepaid_amount_invalid" "A prepaid draw amount must be greater than zero."
      "Provide a positive draw amount within the grant's remaining balance." "amount")
  let grant ← orRefuse (s.grant? input.grantId) .scopeNotFound
  refuseIf (access.visible = false) .scopeNotFound
  refuseIf (∃ expiresOn ∈ grant.expiresOn, expiresOn < input.periodMonth)
    (refusal "usage_prepaid_grant_expired"
      ("The prepaid grant expired on " ++
        String.ofList ((grant.expiresOn.map isoDateOf).getD []) ++
        " and cannot fund this usage period.")
      ("Use an unexpired prepaid grant for this usage period; expired balances remain " ++
        "liabilities until a supported, independently approved breakage assessment is applied " ++
        "through the Revenue contract.") "grant_id")
  let balance := grant.amount - s.drawn input.grantId fun _ => true
  refuseIf (balance < amount)
    (refusal "usage_prepaid_balance_exceeded"
      ("The prepaid draw " ++ fromUnits amount ++ " exceeds the grant's remaining balance of " ++
        fromUnits balance ++ ".")
      "Reduce the draw to the remaining balance or select another unexpired prepaid grant."
      "amount")
  refuseIf (s.drawnInRun input.runId input.grantId input.periodMonth = true)
    (conflict "usage_prepaid_draw_duplicate"
      "This rating run already recorded a draw from the grant for this period."
      "Reuse the existing draw for this run, or use a different run and period." "run_id")
  let drawn := { s with
    draws := s.draws ++ [{
      id := s.draws.length, grantId := input.grantId, runId := input.runId
      periodMonth := input.periodMonth, amount := amount, reversesDrawId := none }] }
  refreshPrepaidBreakage context drawn input.grantId input.periodMonth
  return drawn

def reversePrepaidDraw (context : PrepaidContext) (access : PrepaidAccess) (s : PrepaidLedger)
    (drawId : ℕ) : Except PrepaidError PrepaidLedger := do
  refuseIf (access.featureOn = false) featureOff
  let original ← orRefuse (s.draw? drawId) .scopeNotFound
  refuseIf (access.visible = false) .scopeNotFound
  refuseIf (original.reversesDrawId ≠ none)
    (conflict "usage_prepaid_draw_reversal_not_allowed"
      "A prepaid draw reversal cannot itself be reversed."
      "Choose the original positive draw; reversal entries are final." "draw_id")
  refuseIf (∃ d ∈ s.draws, d.reversesDrawId = some drawId)
    (conflict "usage_prepaid_draw_already_reversed" "This prepaid draw already has a reversal."
      "Use the existing reversal entry; an original draw may be reversed only once." "draw_id")
  let reversed := { s with
    draws := s.draws ++ [{
      id := s.draws.length, grantId := original.grantId, runId := original.runId
      periodMonth := original.periodMonth, amount := -original.amount
      reversesDrawId := some original.id }] }
  refreshPrepaidBreakage context reversed original.grantId original.periodMonth
  return reversed

/-! ### Runs -/

inductive PrepaidOperation where
  | createGrant (input : CreatePrepaidGrantInput)
  | recordDraw (input : RecordPrepaidDrawInput)
  | reverseDraw (drawId : ℕ)

/-- One operation, under the locks that keep the operations on a contract apart. -/
def step (context : PrepaidContext) (s : PrepaidLedger)
    (operation : PrepaidOperation × PrepaidAccess) : Except PrepaidError PrepaidLedger :=
  match operation.1 with
  | .createGrant input => createPrepaidGrant context operation.2 s input
  | .recordDraw input => recordPrepaidDraw context operation.2 s input
  | .reverseDraw drawId => reversePrepaidDraw context operation.2 s drawId

/-- The states after successful operations, from a database without grants. -/
def Reached (context : PrepaidContext) (s : PrepaidLedger) : Prop :=
  ∃ operations, Runs.Reached (step context) {} operations s

end PrepaidLedger

end OpenBooks
