import OpenBooks.Close.FxExposures
import OpenBooks.Lib.Runs

/-!
# The period-end revaluation

A run for a period posts what is required there and not yet effective: one entry in the period,
and its mirror in the next regular period, which takes it back. Runs are repeated, in any order,
while ordinary entries, applications and rates go on changing; nothing posted is ever changed.

This file is the run: what it settles before it reads the ledger, what it refuses, and the
journal interface that it posts through, together with everything else that can happen to the
book. What runs come to is in `Close.FxConvergence`.
-/

namespace OpenBooks.FxRevaluation

open Checked

/-! ### Posting -/

inductive PostingRefusal
  | revaluation (error : RevaluationError)
  | ledgerPost (message : String)
  | bookAccountMap (message : String)
  | controlAccounts (message : String)

structure PostEntryLineInput where
  accountId : ℕ
  subsidiaryId : ℕ
  currency : String
  amount : ℤ
  txnAmount : ℤ
  isOpenItem : Bool := false
  /-- Whether the line states a nonzero quantity with its unit. -/
  measures : Bool := false

structure PostEntryInput where
  entryNumber : String
  postingDate : CivilDate
  periodId : ℕ
  origin : Origin
  reversesEntryId : Option ℕ := none
  lines : List PostEntryLineInput

/-- An account, as far as a posting to it is decided by it. -/
structure AccountRecord where
  label : String
  isActive : Bool := true
  isSummary : Bool := false
  currencyRestriction : Option String := none

/-- The configuration that a run reads, and the guards around it. -/
structure RevaluationSettings where
  bookCode : String
  isPrimary : Bool := true
  isActive : Bool := true
  postsGl : Bool := true
  subsidiaryName : String
  /-- Whether the legal entity is active; none if it does not exist. -/
  subsidiaryIsActive : Option Bool := some true
  fxUnrealizedGainLoss : Option ℕ
  accounts : ℕ → Option AccountRecord
  /-- The account mapping of the book in effect on a date. -/
  accountMaps : CivilDate → ℕ → Option ℕ := fun _ _ => none
  admits : ℕ → Bool := fun _ => true
  closedPeriods : List ℕ := []
  restrictionRefusal : List RevaluationLine → Option String := fun _ => none
  /-- The further guards of the journal: posting windows, leg accounts, period locks. -/
  postingRefusal : PostEntryInput → Option String := fun _ => none

/-- The book: its rows, the next id to be minted, and the configuration. -/
structure RevaluationBook where
  ledger : Ledger
  nextId : ℕ := 0
  settings : RevaluationSettings

/-- A book before its first entry. -/
def RevaluationBook.opened (monetary : ℕ → Option Bool) (rates : ClosingRates)
    (settings : RevaluationSettings) : RevaluationBook :=
  { ledger := { monetary, rates }, settings }

/-- The target of a reversal is on the book, and not reversed yet. -/
def assertReferencedRecords (entries : List JournalEntry) (input : PostEntryInput) :
    Except PostingRefusal Unit :=
  match input.reversesEntryId with
  | none => .ok ()
  | some target => do
    refuseIf (!(entries.any (·.id = target)))
      (.ledgerPost ("journal entry " ++ input.entryNumber ++ ": reversed entry " ++
        toString target ++ " does not exist in this organization"))
    refuseIf (entries.any (·.reversesEntryId = some target))
      (.ledgerPost ("journal entry " ++ input.entryNumber ++ ": this target already has a " ++
        "retained reversal; correct through the existing reversal chain instead of reversing " ++
        "it again"))

/-- The whole entry balances, and each subsidiary in it. -/
def assertEntryBalanced (input : PostEntryInput) : Except PostingRefusal Unit := do
  let failed (message : String) : PostingRefusal :=
    .ledgerPost ("journal entry " ++ input.entryNumber ++ ": " ++ message)
  refuseIf (input.lines.length < 2 ∧ ¬(input.lines.any fun l => l.amount = 0 && l.measures))
    (failed "posting produced fewer than 2 lines")
  let total := (input.lines.map PostEntryLineInput.amount).sum
  refuseIf (total ≠ 0)
    (failed ("functional-currency journal does not balance (sum=" ++ fromUnits total ++ ")"))
  let bySubsidiary := FirstSeen.groupBy PostEntryLineInput.subsidiaryId input.lines
  bySubsidiary.forM fun g =>
    let subsidiaryTotal := (g.2.map PostEntryLineInput.amount).sum
    refuseIf (subsidiaryTotal ≠ 0)
      (failed ("functional-currency journal does not balance for subsidiary " ++
        toString g.1 ++ " (sum=" ++ fromUnits subsidiaryTotal ++ ")"))

def draftLine (nextId index : ℕ) (l : PostEntryLineInput) : JournalLine where
  id := nextId + 1 + index
  accountId := l.accountId
  subsidiaryId := l.subsidiaryId
  currency := l.currency
  amount := l.amount
  txnAmount := l.txnAmount
  isOpenItem := l.isOpenItem

/-- The entry of an input, under fresh ids: its own first, then one for each line. -/
def draftEntry (nextId : ℕ) (input : PostEntryInput) : JournalEntry where
  id := nextId
  periodId := input.periodId
  origin := input.origin
  reversesEntryId := input.reversesEntryId
  lines := input.lines.mapIdx (draftLine nextId)

/-- The journal-write interface: one balanced, posted entry. -/
def postEntry (ctx : BookContext) (s : RevaluationBook) (input : PostEntryInput) :
    Except PostingRefusal (RevaluationBook × JournalEntry) := do
  refuseIf (input.lines = [])
    (.ledgerPost ("journal entry " ++ input.entryNumber ++
      " carries no lines — a posting needs at least one balanced line"))
  refuseIf ((ctx.periods.find input.periodId).isNone)
    (.ledgerPost ("journal entry " ++ input.entryNumber ++ ": accounting period " ++
      toString input.periodId ++ " does not exist in this organization"))
  assertReferencedRecords s.ledger.entries input
  assertEntryBalanced input
  match s.settings.postingRefusal input with
  | some message => .error (.ledgerPost message)
  | none =>
    let entry := draftEntry s.nextId input
    .ok ({ s with
      ledger := { s.ledger with entries := s.ledger.entries ++ [entry] }
      nextId := s.nextId + 1 + input.lines.length }, entry)

/-! ### The gain or loss account -/

def accountTypeLabel : AccountType → String
  | .asset_bank => "Bank"
  | .asset_receivable => "Accounts receivable"
  | .asset_current_other => "Other current asset"
  | .asset_fixed => "Fixed asset"
  | .asset_other => "Other asset"
  | .liability_payable => "Accounts payable"
  | .liability_card => "Credit card"
  | .liability_current_other => "Other current liability"
  | .liability_long_term => "Long-term liability"
  | .equity => "Equity"
  | .income => "Income"
  | .income_other => "Other income"
  | .cogs => "Cost of goods sold"
  | .expense => "Expense"
  | .expense_other => "Other expense"
  | .expense_deferred => "Deferred expense"
  | .statistical => "Statistical"

def fxUnrealizedGainLossTypes : List AccountType :=
  [.income, .income_other, .expense, .expense_other]

/-- The control account of the role, which must be a live posting account of a type for it. -/
def unrealizedAccount (ctx : BookContext) (settings : RevaluationSettings) :
    Except PostingRefusal ℕ := do
  let id ← orRefuse settings.fxUnrealizedGainLoss
    (.revaluation ⟨"unrealized FX gain/loss account is not configured " ++
      "(orgs.settings.controlAccounts.fxUnrealizedGainLoss)"⟩)
  let account ← orRefuse (settings.accounts id)
    (.controlAccounts ("Unrealized FX gain/loss control account " ++ toString id ++
      " does not exist in this organization"))
  refuseIf (!account.isActive)
    (.controlAccounts
      "Unrealized FX gain/loss control account is inactive — choose an active account")
  refuseIf account.isSummary
    (.controlAccounts
      "Unrealized FX gain/loss control account is a summary account — choose a postable account")
  refuseIf (ctx.accountType id ∉ fxUnrealizedGainLossTypes)
    (.controlAccounts ("Unrealized FX gain/loss control account must be " ++
      "Income, Other income, Expense or Other expense; the selected account is " ++
      accountTypeLabel (ctx.accountType id)))
  return id

def accountTypeName : AccountType → String
  | .asset_bank => "asset_bank"
  | .asset_receivable => "asset_receivable"
  | .asset_current_other => "asset_current_other"
  | .asset_fixed => "asset_fixed"
  | .asset_other => "asset_other"
  | .liability_payable => "liability_payable"
  | .liability_card => "liability_card"
  | .liability_current_other => "liability_current_other"
  | .liability_long_term => "liability_long_term"
  | .equity => "equity"
  | .income => "income"
  | .income_other => "income_other"
  | .cogs => "cogs"
  | .expense => "expense"
  | .expense_other => "expense_other"
  | .expense_deferred => "expense_deferred"
  | .statistical => "statistical"

def accountClassName : AccountClass → String
  | .asset => "asset"
  | .liability => "liability"
  | .equity => "equity"
  | .income => "income"
  | .expense => "expense"

/-- Why an account may not be carried as another in a book. -/
def bookAccountMapRefusal (ctx : BookContext) (sourceId targetId : ℕ)
    (source target : AccountRecord) : Option String :=
  let sourceType := ctx.accountType sourceId
  let targetType := ctx.accountType targetId
  if sourceId = targetId then some (source.label ++ " cannot map to itself")
  else if target.isSummary then
    some (target.label ++ " is a summary account and cannot be posted to")
  else if !target.isActive then
    some (target.label ++ " is inactive — reactivate it or map " ++ source.label ++
      " to an active account")
  else match accountClassOf sourceType, accountClassOf targetType with
    | some sourceClass, some targetClass =>
      if sourceClass ≠ targetClass then
        some (source.label ++ " is " ++ accountClassName sourceClass ++ " and " ++ target.label ++
          " is " ++ accountClassName targetClass ++
          " — a book mapping keeps the account's statement class")
      else currencyRefusal
    | _, _ =>
      if sourceType ≠ targetType then
        some (source.label ++ " (" ++ accountTypeName sourceType ++
          ") can only map to an account of the same type")
      else currencyRefusal
where
  /-- The target takes one currency only, and the source is not held to it. -/
  currencyRefusal : Option String :=
    target.currencyRestriction.bind fun currency =>
      if source.currencyRestriction = some currency then none
      else some (target.label ++ " only accepts " ++ currency ++ " postings, but " ++
        source.label ++ " " ++ match source.currencyRestriction with
          | some own => "is restricted to " ++ own
          | none => "accepts any currency")

/-- The account of the book that takes the gain or loss: the control account, through the
mapping of the book in effect on the last day of the period. -/
def gainLossAccount (ctx : BookContext) (settings : RevaluationSettings)
    (period : AccountingPeriod) (configured : ℕ) : Except PostingRefusal ℕ :=
  match if settings.isPrimary then none else settings.accountMaps period.endsOn configured with
  | none => .ok configured
  | some targetId => do
    let label := "FX revaluation " ++ period.label ++ ": book " ++ settings.bookCode
    let missing : PostingRefusal := .bookAccountMap
      (label ++ " maps an account that no longer exists in this organization")
    let source ← orRefuse (settings.accounts configured) missing
    let target ← orRefuse (settings.accounts targetId) missing
    match bookAccountMapRefusal ctx configured targetId source target with
    | some refusal => .error (.bookAccountMap (label ++ " account mapping refused — " ++ refusal))
    | none =>
      refuseIf (!settings.admits targetId)
        (.bookAccountMap (label ++ " maps " ++ source.label ++ " to " ++ target.label ++
          ", which is not available to subsidiary \"" ++ settings.subsidiaryName ++
          "\" — correct the mapping in the book's account mappings"))
      return targetId

/-! ### A run -/

/-- The positions of a period, each with its closing rate. -/
def revaluationPositions (ctx : BookContext) (ledger : Ledger) (period : AccountingPeriod) :
    Except RevaluationError (List RevaluationPosition) := do
  let exposures ← loadExposures ctx ledger period
  pricePositions ctx.functionalCurrency period.endsOn exposures

/-- What is still required in a period: the lines that a run would post. -/
def monetaryLines (ctx : BookContext) (ledger : Ledger) (period : AccountingPeriod) :
    Except RevaluationError (List RevaluationLine) := do
  let positions ← revaluationPositions ctx ledger period
  return requiredAdjustments positions (loadEffectiveAdjustments ctx ledger period)

structure RevaluationReadiness where
  unrevaluedPositions : ℕ
  positionsMissingSpotRate : ℕ
  reversalPeriodMissing : Bool

/-- What the close still waits for: positions without a rate, and accounts that differ from
their restatement. An account with a position that has no rate is counted by its positions. -/
def revaluationReadiness (ctx : BookContext) (ledger : Ledger) (period : AccountingPeriod) :
    Except RevaluationError RevaluationReadiness := do
  let exposures ← loadExposures ctx ledger period
  let missing := exposures.filter (·.periodEndRate.isNone)
  let positions := exposures.filterMap fun e => e.periodEndRate.map fun rate =>
    { accountId := e.accountId, currency := e.currency, carryingBase := e.carryingBase
      foreignBalance := e.foreignBalance, periodEndRate := rate }
  let required := (requiredAdjustments positions (loadEffectiveAdjustments ctx ledger period)).filter
    fun line => line.accountId ∉ missing.map (·.accountId)
  let unrevalued := missing.length + required.length
  return { unrevaluedPositions := unrevalued, positionsMissingSpotRate := missing.length
           reversalPeriodMissing := 0 < unrevalued && (ctx.periods.next period).isNone }

def entryInput (ctx : BookContext) (entryNumber : String) (postingDate : CivilDate)
    (periodId : ℕ) (reversesEntryId : Option ℕ) (lines : List RevaluationLine) :
    PostEntryInput where
  entryNumber := entryNumber
  postingDate := postingDate
  periodId := periodId
  origin := .fx_revaluation
  reversesEntryId := reversesEntryId
  lines := lines.map fun l =>
    { accountId := l.accountId, subsidiaryId := ctx.subsidiaryId
      currency := ctx.functionalCurrency, amount := l.amount, txnAmount := l.amount }

structure PostedRevaluation where
  entryId : ℕ
  reversalEntryId : ℕ
  netDelta : ℤ

/-- The lines of an adjustment: what is required, and the gain or loss against it. -/
def withGainLoss (lines : List RevaluationLine) (gainLossAccount : ℕ) : List RevaluationLine :=
  let netDelta := (lines.map RevaluationLine.amount).sum
  if netDelta = 0 then lines else lines ++ [⟨gainLossAccount, -netDelta⟩]

/-- What a run refuses once there is something to post. -/
def assertPostable (s : RevaluationBook) (active : Bool) (period : AccountingPeriod)
    (next : Option AccountingPeriod) (lines : List RevaluationLine) :
    Except PostingRefusal AccountingPeriod := do
  let failed (message : String) : PostingRefusal := .revaluation ⟨message⟩
  refuseIf (!active) (failed "revaluation subsidiary is inactive")
  let next ← orRefuse next
    (failed ("no following accounting period exists to reverse into — " ++
      "generate periods and re-run"))
  refuseIf (period.id ∈ s.settings.closedPeriods)
    (failed ("FX revaluation cannot post into the closed GL period " ++ period.label))
  refuseIf (next.id ∈ s.settings.closedPeriods)
    (failed ("FX revaluation cannot post its reversal into the closed GL period " ++ next.label))
  refuseIf ((lines.map RevaluationLine.amount).sum ≠ 0)
    (failed "revaluation entry does not balance")
  match s.settings.restrictionRefusal lines with
  | some message => .error (failed message)
  | none => .ok next

/-- The adjustment in the period and its mirror in the next one. -/
def postPair (ctx : BookContext) (s : RevaluationBook) (entryNumber : String)
    (period next : AccountingPeriod) (lines : List RevaluationLine) :
    Except PostingRefusal (RevaluationBook × JournalEntry × JournalEntry) := do
  let (s, adjustment) ← postEntry ctx s
    (entryInput ctx entryNumber period.endsOn period.id none lines)
  let (s, mirror) ← postEntry ctx s
    (entryInput ctx (entryNumber ++ "-R") next.startsOn next.id (some adjustment.id)
      (lines.map fun l => ⟨l.accountId, -l.amount⟩))
  return (s, adjustment, mirror)

/-- What a run settles before it reads the ledger: whether the legal entity is active, the
period, and the account of the gain or loss. -/
def revaluationBasis (ctx : BookContext) (settings : RevaluationSettings) (periodId : ℕ) :
    Except PostingRefusal (Bool × AccountingPeriod × ℕ) := do
  refuseIf (!(settings.isActive && settings.postsGl))
    (.revaluation ⟨if settings.isPrimary then
      "revaluation requires an active primary posting book"
      else "revaluation requires an active posting book"⟩)
  let active ← orRefuse settings.subsidiaryIsActive
    (.revaluation ⟨"revaluation subsidiary is missing"⟩)
  let configured ← unrealizedAccount ctx settings
  let period ← orRefuse (ctx.periods.find periodId)
    (.revaluation ⟨"accounting period " ++ toString periodId ++ " not found"⟩)
  let offset ← gainLossAccount ctx settings period configured
  return (active, period, offset)

/-- A run for one period. `suffix` is what is random in the number of the journal. -/
def postRevaluationEntry (ctx : BookContext) (s : RevaluationBook) (periodId : ℕ)
    (suffix : String) : Except PostingRefusal (RevaluationBook × Option PostedRevaluation) := do
  let (active, period, offset) ← revaluationBasis ctx s.settings periodId
  let required ← (monetaryLines ctx s.ledger period).mapError .revaluation
  if required = [] then return (s, none)
  else
    let lines := withGainLoss required offset
    let next ← assertPostable s active period (ctx.periods.next period) lines
    let (s, adjustment, mirror) ←
      postPair ctx s ("FXREVAL-" ++ period.name ++ "-" ++ suffix) period next lines
    return (s, some { entryId := adjustment.id, reversalEntryId := mirror.id
                      netDelta := (required.map RevaluationLine.amount).sum })

/-! ### The book over time -/

/-- What can happen to the book: postings, applications made and taken back, new rates, new
flags, another configuration – and runs. -/
inductive Operation
  | post (input : PostEntryInput)
  | apply (application : Application)
  | unapply (fromLineId toLineId : ℕ) (on : CivilDate)
  | setRates (rates : ClosingRates)
  | setMonetary (monetary : ℕ → Option Bool)
  | configure (settings : RevaluationSettings)
  | revalue (periodId : ℕ) (suffix : String)

/-- One operation. An application is of lines that are on the book. -/
def step (ctx : BookContext) (s : RevaluationBook) :
    Operation → Except PostingRefusal RevaluationBook
  | .post input => do
    let (s, _) ← postEntry ctx s input
    return s
  | .apply application => do
    let onBook (lineId : ℕ) : Bool := s.ledger.entries.any (·.has lineId)
    refuseIf (!(onBook application.fromLineId && onBook application.toLineId))
      (.ledgerPost "an application is of two lines of the ledger")
    return { s with ledger := { s.ledger with
      applications := s.ledger.applications ++ [application] } }
  | .unapply fromLineId toLineId on =>
    return { s with ledger := { s.ledger with
      applications := s.ledger.applications.map fun ap =>
        if ap.fromLineId = fromLineId ∧ ap.toLineId = toLineId ∧ ap.unappliedOn = none then
          { ap with unappliedOn := some on } else ap } }
  | .setRates rates => return { s with ledger := { s.ledger with rates } }
  | .setMonetary monetary => return { s with ledger := { s.ledger with monetary } }
  | .configure settings => return { s with settings }
  | .revalue periodId suffix => do
    let (s, _) ← postRevaluationEntry ctx s periodId suffix
    return s

end OpenBooks.FxRevaluation
