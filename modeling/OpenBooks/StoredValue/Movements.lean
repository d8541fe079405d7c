import OpenBooks.Money.DecimalText
import OpenBooks.StoredValue.Accounts

/-!
# What moves stored value

For each operation, what it asks for and what it works out on the account that it has locked:
the refusals in their order, the price of the movement, the update of the row and the entry.
Nothing here reads or writes the stored-value tables; an operation that has to know the entries of
the account is handed what it read of them.
-/

namespace OpenBooks.StoredValue

open Checked

/-! ### Issues -/

structure IssueInput where
  programId : ℕ
  amountMinor : ℤ
  currency : String
  allowedSubsidiaryIds : SubsidiaryScope
  subsidiaryId : Option ℕ := none
  customerPartyId : Option ℕ := none
  expiresOn : Option CivilDate := none
  sourceDocumentId : Option ℕ := none
  sourceLineId : Option ℕ := none
  idempotencyKey : String
  debitAccountId : Option ℕ := none
  postingDate : Option CivilDate := none
  memo : Option String := none

structure DocumentIssueInput where
  programId : ℕ
  amountMinor : ℤ
  currency : String
  customerPartyId : Option ℕ := none
  expiresOn : Option CivilDate := none
  sourceDocumentId : ℕ
  sourceLineId : Option ℕ := none
  journalEntryId : ℕ
  idempotencyKey : String

/-- An account that is minted: its row, and its first entry once the row has an id. -/
structure Minting where
  row : StoredValueAccountRow
  entry : ℕ → StoredValueEntry

/-- The row of a new account, with all of its value on it. -/
def Surroundings.mintedRow (s : Surroundings) (program : StoredValueProgramRow)
    (customerPartyId : Option ℕ) (currency : String) (subsidiaryId : ℕ) (amountMinor : ℤ)
    (expiresOn : Option CivilDate) (sourceDocumentId : Option ℕ) (liabilityAccountId : ℕ) :
    StoredValueAccountRow where
  programId := program.id
  kind := program.kind
  codeLast4 := s.codeLast4
  customerPartyId := customerPartyId
  currency := currency
  subsidiaryId := subsidiaryId
  issuedMinor := amountMinor
  balanceMinor := amountMinor
  breakageRecognizedMinor := 0
  status := .active
  expiresOn := expiresOn
  lastActivityOn := s.currentDate
  sourceDocumentId := sourceDocumentId
  liabilityAccountId := some liabilityAccountId

/-- What a program has to be, and what is asked of it, for an issue. -/
def assertProgramIssues (program : StoredValueProgramRow) (amountMinor : ℤ) (currency : String)
    (customerPartyId : Option ℕ) : Except StoredValueError Unit := do
  refuseIf (program.isActive = false) (storedValueRefusal
    ("The " ++ program.name ++ " program is inactive and cannot issue.")
    "stored_value_program_inactive")
  refuseIf (program.currency.any (· ≠ currency) = true) (storedValueRefusal
    ("The " ++ program.name ++ " program issues in " ++ program.currency.getD "" ++ ", not " ++
      currency ++ ".") "stored_value_currency_mismatch")
  refuseIf (amountMinor ≤ 0) (storedValueRefusal "Issued stored value must be a positive amount."
    "stored_value_issue_nonpositive")
  refuseIf (program.kind = .storeCredit ∧ customerPartyId.isNone = true) (storedValueRefusal
    "Store credit is issued to a customer, never to bearer."
    "stored_value_store_credit_customer_missing")

def resolveIssuingSubsidiary (input : IssueInput) : Except StoredValueError (Option ℕ) :=
  (resolveDraftSubsidiary input.allowedSubsidiaryIds input.subsidiaryId).mapError fun e =>
    match e with
    | .subsidiaryOutOfScope => storedValueRefusalFor "subsidiaryId"
      "The issuing legal entity is outside your subsidiary access."
      "stored_value_subsidiary_out_of_scope"
    | .subsidiaryRequired => storedValueRefusalFor "subsidiaryId"
      "Stored-value issuance needs an issuing legal entity." "stored_value_subsidiary_required"

/-- A direct issue, on the entity that it resolved to, with the day that it posts on. Its journal
is still to come. -/
def Surroundings.directIssue (s : Surroundings) (input : IssueInput) (subsidiaryId : Option ℕ) :
    Except StoredValueError (CivilDate × Minting) := do
  let program ← s.loadStoredValueProgram input.programId
  assertProgramIssues program input.amountMinor input.currency input.customerPartyId
  input.customerPartyId.elim (.ok ()) fun party =>
    refuseIf ((s.partySubsidiary party).any
      (subsidiaryScopeAllows input.allowedSubsidiaryIds · true) = false) scopeNotFound
  let liabilityAccountId ← s.programLiabilityAccount program
  let expiresOn ← s.expiryOf program input.expiresOn
  let debitAccountId ← orRefuse input.debitAccountId (storedValueRefusal
    "A direct issue needs the account receiving the consideration (bank or clearing)."
    "stored_value_issue_debit_missing")
  s.assertPostingAccount debitAccountId "Issue debit account"
    ["asset_bank", "asset_current_other", "asset_receivable"]
  let postingDate := input.postingDate.getD s.businessToday
  let context ← s.postingContextFor postingDate subsidiaryId
  -- a direct issue is off any document: it prices at the spot rate of its day
  let units ← s.resolveEventRate input.currency context.2 postingDate none
  pure (postingDate,
    { row := s.mintedRow program input.customerPartyId input.currency context.1 input.amountMinor
        expiresOn input.sourceDocumentId liabilityAccountId
      entry := fun accountId =>
        { accountId := accountId
          kind := .issue
          amountMinor := input.amountMinor
          balanceAfter := input.amountMinor
          currency := input.currency
          functionalAmountMinor := functionalMinor input.amountMinor units
          fxRate := units
          documentId := input.sourceDocumentId
          documentLineId := input.sourceLineId
          idempotencyKey := .issue input.idempotencyKey } })

/-- The issue of a document, whose own journal has moved the consideration. -/
def Surroundings.documentIssue (s : Surroundings) (input : DocumentIssueInput) :
    Except StoredValueError Minting := do
  let program ← s.loadStoredValueProgram input.programId
  assertProgramIssues program input.amountMinor input.currency input.customerPartyId
  let liabilityAccountId ← s.programLiabilityAccount program
  let expiresOn ← s.expiryOf program input.expiresOn
  let doc ← s.document input.sourceDocumentId
  refuseIf (doc.currency ≠ input.currency) (storedValueRefusal
    ("The document is in " ++ doc.currency ++ ", not " ++ input.currency ++
      ": it cannot fund a " ++ input.currency ++ " issue.")
    "stored_value_document_currency_mismatch")
  let baseCurrency ← s.subsidiaryBaseCurrency doc.subsidiaryId
  let units ← s.resolveEventRate input.currency baseCurrency doc.postingDate (some doc)
  pure
    { row := s.mintedRow program input.customerPartyId input.currency doc.subsidiaryId
        input.amountMinor expiresOn (some input.sourceDocumentId) liabilityAccountId
      entry := fun accountId =>
        { accountId := accountId
          kind := .issue
          amountMinor := input.amountMinor
          balanceAfter := input.amountMinor
          currency := input.currency
          functionalAmountMinor := functionalMinor input.amountMinor units
          fxRate := units
          documentId := some input.sourceDocumentId
          documentLineId := input.sourceLineId
          journalEntryId := some input.journalEntryId
          idempotencyKey := .issue input.idempotencyKey } }

/-! ### Whether a retried issue is the issue that is recorded -/

/-- How a field of a retry differs from what was recorded. A field that was left out then may be
left out now; where it is not known whether it was, a field that is left out now does not differ. -/
def intentMismatch {α : Type} [DecidableEq α] (wasStated : Option Bool)
    (retry recorded : Option α) (label : String) : Option String :=
  match wasStated, retry with
  | none, none => none
  | none, some _ => if recorded ≠ retry then some label else none
  | some stated, some _ => if stated = false ∨ recorded ≠ retry then some label else none
  | some stated, none => if stated then some label else none

def Surroundings.issueReplayMismatches (s : Surroundings) (input : IssueInput)
    (priorAccount : StoredValueAccountRow) (resolvedSubsidiaryId : Option ℕ)
    (priorEntry : StoredValueEntry) : List String :=
  let expectedSubsidiary := resolvedSubsidiaryId.or s.rootSubsidiary
  let journal := priorEntry.journalEntryId.bind s.issueJournal
  let evidence := journal.bind (·.evidence)
  let memoStated := evidence.map (·.memoStated)
  [if some priorAccount.subsidiaryId ≠ expectedSubsidiary then some "issuing entity" else none,
    if priorAccount.programId ≠ input.programId then some "program" else none,
    if priorAccount.currency ≠ input.currency then some "currency" else none,
    if priorAccount.customerPartyId ≠ input.customerPartyId then some "customer" else none,
    if priorEntry.documentId ≠ input.sourceDocumentId then some "source document" else none,
    if priorEntry.documentLineId ≠ input.sourceLineId then some "source line" else none,
    if journal.all (fun j => j.debitAccountId ≠ input.debitAccountId) then
      some "debit account" else none,
    intentMismatch (evidence.map (·.expiresOnStated)) input.expiresOn priorAccount.expiresOn
      "expiry date",
    intentMismatch (evidence.map (·.postingDateStated)) input.postingDate
      (journal.map (·.postingDate)) "posting date",
    -- a memo says nothing where it is not known whether one was stated
    if memoStated.isNone then none
    else intentMismatch memoStated input.memo (journal.bind (·.memo)) "memo"].reduceOption

def Surroundings.assertIssueReplayIntent (s : Surroundings) (input : IssueInput)
    (priorAccount : StoredValueAccountRow) (resolvedSubsidiaryId : Option ℕ)
    (priorEntry : StoredValueEntry) : Except StoredValueError Unit :=
  refuseIf (s.issueReplayMismatches input priorAccount resolvedSubsidiaryId priorEntry ≠ [])
    (differentEffect input.idempotencyKey
      (s.issueReplayMismatches input priorAccount resolvedSubsidiaryId priorEntry))

/-! ### Loads -/

structure DocumentLoadInput where
  allowedSubsidiaryIds : SubsidiaryScope
  accountId : Option ℕ := none
  programId : Option ℕ := none
  customerPartyId : Option ℕ := none
  amountMinor : ℤ
  currency : String
  documentId : ℕ
  journalEntryId : ℕ
  idempotencyKey : String

/-- Three capital letters. -/
def isCurrencyCode (currency : String) : Bool :=
  currency.toList.length = 3 && currency.toList.all fun c => 'A' ≤ c && c ≤ 'Z'

def assertLoad (input : DocumentLoadInput) : Except StoredValueError Unit := do
  refuseIf (input.amountMinor ≤ 0) (storedValueRefusal
    "A store-credit load must be a positive amount." "stored_value_load_nonpositive")
  refuseIf (isCurrencyCode input.currency = false) (storedValueRefusal
    ("Currency " ++ input.currency ++ " is not a three-letter code.")
    "stored_value_currency_invalid")

/-- The entry of a load, of the kind and with the balance that the account is left with. -/
def DocumentLoadInput.entry (input : DocumentLoadInput) (kind : StoredValueEntryKind)
    (currency : String) (balanceAfter units : ℤ) (accountId : ℕ) : StoredValueEntry where
  accountId := accountId
  kind := kind
  amountMinor := input.amountMinor
  balanceAfter := balanceAfter
  currency := currency
  functionalAmountMinor := functionalMinor input.amountMinor units
  fxRate := units
  documentId := some input.documentId
  journalEntryId := some input.journalEntryId
  idempotencyKey := .load input.idempotencyKey
  reason := some "refund to store credit"

/-- A load on an account that is there. -/
def Surroundings.topUp (s : Surroundings) (input : DocumentLoadInput) (doc : DocumentFxContext)
    (accountId : ℕ) (account : StoredValueAccountRow) : Except StoredValueError Movement := do
  refuseIf (doc.subsidiaryId ≠ account.subsidiaryId) (storedValueRefusal
    ("Stored-value …" ++ account.codeLast4 ++ " belongs to another legal entity than the " ++
      "refunding document: one entity cannot load another's balance.") "stored_value_cross_entity")
  refuseIf (account.status ≠ .active) (storedValueRefusal
    ("Stored-value …" ++ account.codeLast4 ++ " is " ++ account.status.text ++
      " and cannot be loaded.") "stored_value_account_not_loadable")
  refuseIf (storedValueExpired account.expiresOn s.businessToday = true) (storedValueRefusal
    ("Stored-value …" ++ account.codeLast4 ++ " expired on " ++
      account.expiresOn.elim "" (fun day => String.ofList (isoDateOf day)) ++
      " and cannot be loaded.") "stored_value_account_expired")
  refuseIf (account.currency ≠ input.currency) (storedValueRefusal
    ("Stored-value …" ++ account.codeLast4 ++ " holds " ++ account.currency ++ ", not " ++
      input.currency ++ ".") "stored_value_currency_mismatch")
  refuseIf (storedValueAccountOwnedByCustomer account input.customerPartyId = false)
    (storedValueRefusal ("Stored-value …" ++ account.codeLast4 ++
      " belongs to another customer and cannot be loaded from this refund.")
      "stored_value_customer_mismatch")
  let baseCurrency ← s.subsidiaryBaseCurrency account.subsidiaryId
  let units ← s.resolveEventRate input.currency baseCurrency doc.postingDate (some doc)
  let balanceMinor := account.balanceMinor + input.amountMinor
  pure
    { write := fun row =>
        { row with balanceMinor := balanceMinor, lastActivityOn := s.currentDate }
      entry := input.entry .adjust account.currency balanceMinor units accountId }

/-- A load that mints its account. -/
def Surroundings.mint (s : Surroundings) (input : DocumentLoadInput) (doc : DocumentFxContext) :
    Except StoredValueError Minting := do
  let programId ← orRefuse input.programId (storedValueRefusal
    "A new store credit needs its issuing program." "stored_value_load_program_missing")
  let program ← s.loadStoredValueProgram programId
  refuseIf (program.kind ≠ .storeCredit ∨ program.isActive = false) (storedValueRefusal
    ("The " ++ program.name ++ " program cannot issue store credit.")
    "stored_value_load_program_kind")
  refuseIf (program.currency.any (· ≠ input.currency) = true) (storedValueRefusal
    ("The " ++ program.name ++ " program issues in " ++ program.currency.getD "" ++ ", not " ++
      input.currency ++ ".") "stored_value_currency_mismatch")
  let customerPartyId ← orRefuse input.customerPartyId (storedValueRefusal
    "Store credit is issued to a customer, never to bearer."
    "stored_value_store_credit_customer_missing")
  let liabilityAccountId ← s.programLiabilityAccount program
  let expiresOn ← s.expiryOf program none
  let baseCurrency ← s.subsidiaryBaseCurrency doc.subsidiaryId
  let units ← s.resolveEventRate input.currency baseCurrency doc.postingDate (some doc)
  pure
    { row := s.mintedRow program (some customerPartyId) input.currency doc.subsidiaryId
        input.amountMinor expiresOn (some input.documentId) liabilityAccountId
      entry := input.entry .issue input.currency input.amountMinor units }

/-! ### Redemptions -/

structure RedeemInput where
  accountId : ℕ
  allowedSubsidiaryIds : SubsidiaryScope
  amountMinor : ℤ
  documentId : Option ℕ := none
  documentLineId : Option ℕ := none
  journalEntryId : Option ℕ := none
  idempotencyKey : String

def assertRedeemAmount (amountMinor : ℤ) : Except StoredValueError Unit :=
  refuseIf (amountMinor ≤ 0) (storedValueRefusal "A redemption must be a positive amount."
    "stored_value_redeem_nonpositive")

def assertRedeemable (account : StoredValueAccountRow) (amountMinor : ℤ) (codeLabel : String) :
    Except StoredValueError Unit := do
  refuseIf (account.status ≠ .active) (storedValueRefusal
    ("Stored-value " ++ codeLabel ++ " is " ++ account.status.text ++ " and cannot be redeemed.")
    "stored_value_account_not_redeemable")
  assertRedeemAmount amountMinor
  refuseIf (account.balanceMinor < amountMinor) (storedValueRefusal
    ("Stored-value " ++ codeLabel ++ " holds " ++ fromUnits account.balanceMinor ++
      ", which is less than the requested " ++ fromUnits amountMinor ++ ".")
    "stored_value_insufficient_balance")

/-- What is checked of a redemption before it is priced. -/
def Surroundings.assertRedemption (s : Surroundings) (input : RedeemInput)
    (account : StoredValueAccountRow) : Except StoredValueError Unit := do
  refuseIf ((input.documentId.bind s.documentParty).any
    (fun party => !storedValueAccountOwnedByCustomer account party) = true) (storedValueRefusal
      ("Stored-value …" ++ account.codeLast4 ++
        " belongs to another customer and cannot move on this document.")
      "stored_value_customer_mismatch")
  assertRedeemable account input.amountMinor ("…" ++ account.codeLast4)
  refuseIf (storedValueExpired account.expiresOn s.businessToday = true) (storedValueRefusal
    ("Stored-value …" ++ account.codeLast4 ++ " expired on " ++
      account.expiresOn.elim "" (fun day => String.ofList (isoDateOf day)) ++ ".")
    "stored_value_account_expired")

structure RealizedFx where
  postingDate : CivilDate
  documentId : ℕ
  functionalCurrency : String
  liabilityAccountId : ℕ
  gainLossAccountId : ℕ
  currentFunctional : ℤ
  currentRate : ℤ

structure RedemptionPricing where
  /-- Functional minor units that the entry relieves. -/
  entryFunctional : ℤ
  entryRate : ℤ
  realized : Option RealizedFx

/-- The price of a redemption on a document. The entry relieves the carrying share; where the rate
of the document prices the slice otherwise, the difference is realized. -/
def Surroundings.priceDocumentRedemption (s : Surroundings) (documentId : ℕ) (amountMinor : ℤ)
    (account : StoredValueAccountRow) (baseCurrency : String) (functionalPrior : ℤ) :
    Except StoredValueError RedemptionPricing := do
  let doc ← s.document documentId
  refuseIf (doc.currency ≠ account.currency) (storedValueRefusal
    ("Stored-value …" ++ account.codeLast4 ++ " holds " ++ account.currency ++
      ", but the document is in " ++ doc.currency ++ ".") "stored_value_redeem_currency_mismatch")
  refuseIf (doc.subsidiaryId ≠ account.subsidiaryId) (storedValueRefusal
    ("Stored-value …" ++ account.codeLast4 ++ " belongs to " ++
      (s.subsidiaryName account.subsidiaryId).getD (toString account.subsidiaryId) ++
      ", but the document posts to " ++ doc.subsidiaryName ++
      ": one entity cannot relieve another's debt.") "stored_value_cross_entity")
  let units ← s.resolveEventRate account.currency baseCurrency doc.postingDate (some doc)
  let current := functionalMinor amountMinor units
  let share := carryingShare functionalPrior account.balanceMinor amountMinor
  if current ≠ share.functional ∧ account.currency ≠ baseCurrency then do
    let liabilityAccountId ← account.liabilityAccountId.elim
      (s.loadStoredValueProgram account.programId >>= s.programLiabilityAccount) .ok
    let gainLossAccountId ← s.realizedFxGainLossAccount
    pure ⟨share.functional, share.units, some ⟨doc.postingDate, doc.id, baseCurrency,
      liabilityAccountId, gainLossAccountId, current, units⟩⟩
  else pure ⟨share.functional, share.units, none⟩

/-- The price of a redemption; off any document it is the spot rate of the day. -/
def Surroundings.priceRedemption (s : Surroundings) (input : RedeemInput)
    (account : StoredValueAccountRow) (functionalPrior : ℤ) :
    Except StoredValueError RedemptionPricing := do
  let baseCurrency ← s.subsidiaryBaseCurrency account.subsidiaryId
  input.documentId.elim
    (do
      let units ← s.resolveEventRate account.currency baseCurrency s.businessToday none
      pure ⟨functionalMinor input.amountMinor units, units, none⟩)
    fun documentId => s.priceDocumentRedemption documentId input.amountMinor account baseCurrency
      functionalPrior

/-- A redemption at its price. -/
def Surroundings.redemption (s : Surroundings) (input : RedeemInput)
    (account : StoredValueAccountRow) (pricing : RedemptionPricing) : Movement where
  write := fun row =>
    { row with
      balanceMinor := account.balanceMinor - input.amountMinor
      lastActivityOn := s.currentDate }
  entry :=
    { accountId := input.accountId
      kind := .redeem
      amountMinor := -input.amountMinor
      balanceAfter := account.balanceMinor - input.amountMinor
      currency := account.currency
      functionalAmountMinor := -pricing.entryFunctional
      fxRate := pricing.entryRate
      documentId := input.documentId
      documentLineId := input.documentLineId
      journalEntryId := input.journalEntryId
      idempotencyKey := .redeem input.idempotencyKey }

/-! ### Journals -/

def Surroundings.postStoredValueJournal (s : Surroundings) (postingDate : CivilDate)
    (subsidiaryId : ℕ) : Except StoredValueError ℕ := do
  let _ ← s.postingContextFor postingDate (some subsidiaryId)
  s.postEntry

/-- The repricing of a redeemed slice, from the rate of its document back to its carrying rate;
there is none where the two agree. -/
def Surroundings.postRealizedFxJournal (s : Surroundings) (subsidiaryId : ℕ)
    (carryingFunctionalMinor : ℤ) (realized : RealizedFx) : Except StoredValueError (Option ℕ) :=
  if realized.currentFunctional - carryingFunctionalMinor = 0 then .ok none
  else some <$> s.postStoredValueJournal realized.postingDate subsidiaryId

/-! ### Adjustments -/

structure AdjustInput where
  accountId : ℕ
  allowedSubsidiaryIds : SubsidiaryScope
  deltaMinor : ℤ
  reason : String
  offsetAccountId : ℕ
  postingDate : Option CivilDate := none
  idempotencyKey : String

def assertAdjustment (input : AdjustInput) : Except StoredValueError Unit := do
  refuseIf (trim input.reason.toList = []) (storedValueRefusalFor "reason"
    "A balance adjustment needs a reason." "stored_value_adjust_reason_missing")
  refuseIf (input.deltaMinor = 0) (storedValueRefusal "An adjustment must move the balance."
    "stored_value_adjust_zero")

/-- An adjustment of the account, with its journal. -/
def Surroundings.adjustment (s : Surroundings) (input : AdjustInput)
    (account : StoredValueAccountRow) : Except StoredValueError Movement := do
  refuseIf (account.status = .closed ∨ account.status = .expired) (storedValueRefusal
    ("Stored-value …" ++ account.codeLast4 ++ " is " ++ account.status.text ++
      "; closed history is corrected by reversal, not adjustment.") "stored_value_adjust_closed")
  let balanceMinor := account.balanceMinor + input.deltaMinor
  refuseIf (balanceMinor < 0) (storedValueRefusal
    ("The adjustment would drive stored-value …" ++ account.codeLast4 ++ " to " ++
      fromUnits balanceMinor ++ "; balances can never go negative.")
    "stored_value_insufficient_balance")
  s.assertPostingAccount input.offsetAccountId "Adjustment offset account"
    ["expense", "expense_other", "cogs", "income", "income_other"]
  let postingDate := input.postingDate.getD s.businessToday
  let baseCurrency ← s.subsidiaryBaseCurrency account.subsidiaryId
  let units ← s.resolveEventRate account.currency baseCurrency postingDate none
  let _ ← account.liabilityAccountId.elim s.storedValueLiabilityControlAccount .ok
  let journalEntryId ← s.postStoredValueJournal postingDate account.subsidiaryId
  pure
    { write := fun row =>
        { row with balanceMinor := balanceMinor, lastActivityOn := s.currentDate }
      entry :=
        { accountId := input.accountId
          kind := .adjust
          amountMinor := input.deltaMinor
          balanceAfter := balanceMinor
          currency := account.currency
          functionalAmountMinor := functionalMinor input.deltaMinor units
          fxRate := units
          journalEntryId := some journalEntryId
          idempotencyKey := .adjust input.idempotencyKey
          reason := some (String.ofList (trim input.reason.toList)) } }

/-! ### Status -/

def STATUS_TRANSITIONS : StoredValueStatus → List StoredValueStatus
  | .active => [.frozen, .closed]
  | .frozen => [.active, .closed]
  | .closed => []
  | .expired => []

structure StatusInput where
  accountId : ℕ
  allowedSubsidiaryIds : SubsidiaryScope
  newStatus : StoredValueStatus

def assertTransition (newStatus : StoredValueStatus) (account : StoredValueAccountRow) :
    Except StoredValueError Unit := do
  refuseIf (newStatus ∉ STATUS_TRANSITIONS account.status) (storedValueRefusal
    ("Stored-value …" ++ account.codeLast4 ++ " cannot move from " ++ account.status.text ++
      " to " ++ newStatus.text ++ ".") "stored_value_status_conflict")
  refuseIf (newStatus = .closed ∧ account.balanceMinor ≠ 0) (storedValueRefusal
    ("Stored-value …" ++ account.codeLast4 ++ " still holds " ++ fromUnits account.balanceMinor ++
      "; close only after the balance reaches zero.") "stored_value_close_nonzero")

/-! ### Breakage and expiry -/

/-- The breakage that is due on an account: for every unit redeemed its share of those that never
will be, up to what is expected of the value issued. -/
def proportionalDue (redeemedMinor issuedMinor recognizedMinor rate : ℤ) : ℤ :=
  if rate ≤ 0 ∨ RATE_SCALE ≤ rate then 0
  else
    let expected := roundDiv (issuedMinor * rate) RATE_SCALE
    let cumulative := roundDiv (redeemedMinor * rate) (RATE_SCALE - rate)
    let due := if cumulative < expected then cumulative else expected
    if recognizedMinor < due then due - recognizedMinor else 0

/-- What the release of some of a balance is made of: the liability and the income account are
there, and the journal is posted at the carrying share. -/
def Surroundings.postRelease (s : Surroundings) (postingDate : CivilDate)
    (account : StoredValueAccountRow) : Except StoredValueError ℕ := do
  let _ ← account.liabilityAccountId.elim s.storedValueLiabilityControlAccount .ok
  s.postStoredValueJournal postingDate account.subsidiaryId

/-- The entry of a release, at its carrying share. -/
def releaseEntry (kind : StoredValueEntryKind) (accountId : ℕ) (account : StoredValueAccountRow)
    (functionalPrior amountMinor : ℤ) (journalEntryId : Option ℕ) (key : EntryKey) :
    StoredValueEntry :=
  let share := carryingShare functionalPrior account.balanceMinor amountMinor
  { accountId := accountId
    kind := kind
    amountMinor := -amountMinor
    balanceAfter := account.balanceMinor - amountMinor
    currency := account.currency
    functionalAmountMinor := -share.functional
    fxRate := share.units
    journalEntryId := journalEntryId
    idempotencyKey := key }

def expiryIncomeMissing (program : StoredValueProgramRow) : StoredValueError :=
  storedValueRefusal ("The " ++ program.name ++
    " program expires cards but names no breakage income account.")
    "stored_value_expiry_income_missing"

def breakageIncomeMissing (policy : String) (program : StoredValueProgramRow) : StoredValueError :=
  storedValueRefusal ("The " ++ program.name ++ " program recognizes " ++ policy ++
    " breakage but names no breakage income account.") "stored_value_breakage_income_missing"

def Surroundings.assertExpiry (s : Surroundings) (account : StoredValueAccountRow) :
    Except StoredValueError Unit := do
  refuseIf (account.status ≠ .active) (storedValueRefusal
    ("Stored-value …" ++ account.codeLast4 ++ " is " ++ account.status.text ++
      " and cannot expire.") "stored_value_account_not_redeemable")
  let program ← s.loadStoredValueProgram account.programId
  let incomeAccountId ← orRefuse program.breakageIncomeAccountId (expiryIncomeMissing program)
  s.assertPostingAccount incomeAccountId "Breakage income account" ["income", "income_other"]

/-- The expiry of an account: all that is left on it is released. -/
def Surroundings.expiry (s : Surroundings) (postingDate : CivilDate) (key accountId : ℕ)
    (account : StoredValueAccountRow) (functionalPrior : ℤ) : Except StoredValueError Movement := do
  let _ ← account.liabilityAccountId.elim s.storedValueLiabilityControlAccount .ok
  let journalEntryId ←
    if 0 < account.balanceMinor then
      some <$> s.postStoredValueJournal postingDate account.subsidiaryId
    else .ok none
  pure
    { write := fun row =>
        { row with balanceMinor := 0, status := .expired, lastActivityOn := s.currentDate }
      entry := releaseEntry .expire accountId account functionalPrior account.balanceMinor
        journalEntryId (.expire key) }

/-- Remote breakage: the whole balance is released, and the account closes. -/
def Surroundings.remoteBreakage (s : Surroundings) (postingDate : CivilDate) (accountId : ℕ)
    (account : StoredValueAccountRow) (functionalPrior : ℤ) : Except StoredValueError Movement := do
  let journalEntryId ← s.postRelease postingDate account
  pure
    { write := fun row =>
        { row with
          balanceMinor := 0
          breakageRecognizedMinor := row.breakageRecognizedMinor + account.balanceMinor
          status := .closed
          lastActivityOn := s.currentDate }
      entry := releaseEntry .breakage accountId account functionalPrior account.balanceMinor
        (some journalEntryId) (.remote accountId) }

/-- What is redeemed of an account, the redemptions that were voided apart. -/
def redeemedOf (entries : List StoredValueEntry) : ℤ :=
  -((entries.filter fun e => e.kind = .redeem ∧ entries.all fun reversal =>
    reversal.kind ≠ .reversal ∨ reversal.idempotencyKey ≠ .voidReversal e.idempotencyKey).map
      (·.amountMinor)).sum

def proportionalAmount (program : StoredValueProgramRow) (account : StoredValueAccountRow)
    (redeemedMinor : ℤ) : ℤ :=
  min (proportionalDue redeemedMinor account.issuedMinor account.breakageRecognizedMinor
    program.breakageRate) account.balanceMinor

/-- Proportional breakage of an amount. -/
def Surroundings.proportionalBreakage (s : Surroundings) (postingDate : CivilDate)
    (period : String) (accountId : ℕ) (account : StoredValueAccountRow) (amount : ℤ)
    (functionalPrior : ℤ) : Except StoredValueError Movement := do
  let journalEntryId ← s.postRelease postingDate account
  pure
    { write := fun row =>
        { row with
          balanceMinor := row.balanceMinor - amount
          breakageRecognizedMinor := row.breakageRecognizedMinor + amount
          lastActivityOn := s.currentDate }
      entry := releaseEntry .breakage accountId account functionalPrior amount
        (some journalEntryId) (.breakage accountId period) }

/-! ### Voids -/

structure VoidInput where
  documentId : ℕ
  documentNumber : String
  reversalEntryId : Option ℕ
  reason : String
  /-- Where an entry stands by its day of creation and its id. -/
  order : StoredValueEntry → ℕ

/-- What a void has gathered of an account so far. -/
structure VoidPlan where
  balance : ℤ
  issued : ℤ
  pending : List StoredValueEntry

def VoidInput.reversal (input : VoidInput) (accountId : ℕ) (account : StoredValueAccountRow)
    (effect : StoredValueEntry) (balanceAfter : ℤ) : StoredValueEntry where
  accountId := accountId
  kind := .reversal
  amountMinor := -effect.amountMinor
  balanceAfter := balanceAfter
  currency := account.currency
  functionalAmountMinor := -effect.functionalAmountMinor
  fxRate := effect.fxRate
  documentId := some input.documentId
  documentLineId := effect.documentLineId
  journalEntryId := input.reversalEntryId
  idempotencyKey := .voidReversal effect.idempotencyKey
  reason := some ("void of " ++ input.documentNumber ++ ": " ++ input.reason)

/-- An effect that is not reversed yet. -/
def VoidInput.takeBack (input : VoidInput) (accountId : ℕ) (account : StoredValueAccountRow)
    (plan : VoidPlan) (effect : StoredValueEntry) : Except StoredValueError VoidPlan := do
  let amountMinor := -effect.amountMinor
  refuseIf (0 < amountMinor ∧ (account.status = .expired ∨ account.status = .closed))
    (storedValueRefusal ("Stored-value …" ++ account.codeLast4 ++ " is " ++ account.status.text ++
      "; voiding " ++ input.documentNumber ++ " would return " ++ fromUnits amountMinor ++
      " to a card that can no longer be used.") "stored_value_void_card_ended")
  refuseIf (plan.balance + amountMinor < 0) (storedValueRefusal
    ("Stored-value …" ++ account.codeLast4 ++ " holds " ++ fromUnits plan.balance ++
      ", less than the " ++ fromUnits (-amountMinor) ++ " " ++ input.documentNumber ++
      " put on it; voiding would take back value already spent.") "stored_value_void_value_spent")
  pure
    { balance := plan.balance + amountMinor
      issued := if effect.kind = .issue then plan.issued + amountMinor else plan.issued
      pending := plan.pending ++
        [input.reversal accountId account effect (plan.balance + amountMinor)] }

/-- A card that the document minted dies with it once nothing is left on it. -/
def VoidInput.closes (input : VoidInput) (account : StoredValueAccountRow) (plan : VoidPlan) :
    Bool :=
  account.sourceDocumentId = some input.documentId && plan.balance = 0 &&
    (account.status = .active || account.status = .frozen)

def VoidInput.write (input : VoidInput) (account : StoredValueAccountRow) (plan : VoidPlan)
    (row : StoredValueAccountRow) : StoredValueAccountRow :=
  { row with
    balanceMinor := plan.balance
    issuedMinor := if plan.issued < 0 then 0 else plan.issued
    status := if input.closes account plan then .closed else account.status }

end OpenBooks.StoredValue
