import Mathlib.Data.List.Sort
import OpenBooks.Lib.FirstSeen
import OpenBooks.Lib.Transactions
import OpenBooks.StoredValue.Movements

/-!
# The operations on stored value

Each operation as the transaction it runs in: what it reads, which account it locks, what it asks
of the entries under its key before the balance moves, and whether it asks again once it has. A
balance is updated only where it is still what the operation read under the lock, and the entry is
inserted *on conflict do nothing*.

An operation that finds another's entry in the place of its own after it has moved a balance rolls
back – except the minting of an account by a load (`StoredValue.mintAccount`), which
returns the entry that it found and keeps the account.
-/

namespace OpenBooks.StoredValue

open Checked Transactions Transactions.Program

instance : Entry StoredValueEntry EntryKey where
  row := StoredValueEntry.accountId
  key := StoredValueEntry.idempotencyKey

abbrev Transaction := Program StoredValueAccountRow StoredValueEntry EntryKey StoredValueError

/-! ### Statements -/

/-- The account, locked, where the caller may see its subsidiary. -/
def lockStoredValueAccount (accountId : ℕ) (allowedSubsidiaryIds : SubsidiaryScope) :
    Transaction StoredValueAccountRow := do
  let found ← selectForUpdate accountId
  let row ← check (orRefuse found scopeNotFound)
  check (assertStoredValueVisible allowedSubsidiaryIds row.subsidiaryId)
  pure row

/-- The entry under a key already, which has to be what is expected. -/
def priorStoredValueEntry (key : EntryKey) (expected : ExpectedEntry) :
    Transaction (Option StoredValueEntry) := do
  let found ← select key
  check (expected.check key found)

/-- The functional value that an account carries. -/
def accountFunctionalTotal (accountId : ℕ) : Transaction ℤ := do
  let entries ← selectWhere fun entry => entry.accountId = accountId
  pure (entries.map (·.functionalAmountMinor)).sum

def balanceChanged (message : String) : StoredValueError :=
  storedValueRefusal message "stored_value_balance_changed"

/-- Update an account where a condition on it still holds, and append the entry: the entry that is
there under its key already, if there is one. -/
def applyMovement (accountId : ℕ) (guard : StoredValueAccountRow → Bool) (changed : String)
    (movement : Movement) : Transaction (Option StoredValueEntry) := do
  let updated ← updateWhere accountId guard movement.write
  check (refuseIf (updated = false) (balanceChanged changed))
  append movement.entry

def sameBalance (account row : StoredValueAccountRow) : Bool :=
  row.balanceMinor = account.balanceMinor

/-- The account is active, and its balance what it was. -/
def stillActive (account row : StoredValueAccountRow) : Bool :=
  row.status = .active ∧ row.balanceMinor = account.balanceMinor

/-! ### Issues -/

/-- An account with its opening balance, or the replay of its issue. -/
def issueStoredValue (s : Surroundings) (input : IssueInput) : Transaction Unit := do
  check s.requireStoredValueFeature
  let subsidiaryId ← check (resolveIssuingSubsidiary input)
  let replayed ← select (.issue input.idempotencyKey)
  match replayed with
  | some replayedRef => do
    let priorAccount ← lockStoredValueAccount replayedRef.accountId input.allowedSubsidiaryIds
    let prior ← priorStoredValueEntry (.issue input.idempotencyKey)
      { accountId := some replayedRef.accountId
        kind := .issue
        amountMinor := some input.amountMinor }
    check (refuseIf (prior.isNone = true) (storedValueRefusal
      "The stored-value entry could not be recorded." "stored_value_entry_unrecorded"))
    check (s.assertIssueReplayIntent input priorAccount subsidiaryId replayedRef)
  | none => do
    let issue ← check (s.directIssue input subsidiaryId)
    let accountId ← insert issue.2.row
    let journalEntryId ← check
      (s.postStoredValueJournal issue.1 issue.2.row.subsidiaryId)
    let existing ← append
      { issue.2.entry accountId with journalEntryId := some journalEntryId }
    check (requireFreshEntry existing input.idempotencyKey)

/-- The account that a sale or a credit issues; the document has its journal already. -/
def attachDocumentIssue (s : Surroundings) (input : DocumentIssueInput) : Transaction Unit := do
  check s.requireStoredValueFeature
  let replayed ← select (.issue input.idempotencyKey)
  match replayed with
  | some _ => pure ()
  | none => do
    let issue ← check (s.documentIssue input)
    let accountId ← insert issue.row
    let existing ← append (issue.entry accountId)
    check (requireFreshEntry existing input.idempotencyKey)

/-! ### Loads -/

/-- A load of an account that is there. -/
def topUpAccount (s : Surroundings) (input : DocumentLoadInput) (doc : DocumentFxContext)
    (accountId : ℕ) : Transaction Unit := do
  let account ← lockStoredValueAccount accountId input.allowedSubsidiaryIds
  let prior ← priorStoredValueEntry (.load input.idempotencyKey)
    { accountId := some accountId, kind := .adjust, amountMinor := some input.amountMinor }
  match prior with
  | some _ => pure ()
  | none => do
    let movement ← check (s.topUp input doc accountId account)
    let existing ← applyMovement accountId (sameBalance account)
      ("Stored-value …" ++ account.codeLast4 ++
        " changed while loading; the load was not applied.") movement
    check (requireFreshEntry existing input.idempotencyKey)

/-- A load that opens its account. -/
def mintAccount (s : Surroundings) (input : DocumentLoadInput) (doc : DocumentFxContext) :
    Transaction Unit := do
  let minting ← check (s.mint input doc)
  let accountId ← insert minting.row
  -- nothing is asked of the entry that is found in the place of the new one
  let _ ← append (minting.entry accountId)
  pure ()

def attachDocumentLoad (s : Surroundings) (input : DocumentLoadInput) : Transaction Unit := do
  check s.requireStoredValueFeature
  check (assertLoad input)
  let replayed ← select (.load input.idempotencyKey)
  match replayed with
  | some _ => pure ()
  | none => do
    let doc ← check (s.document input.documentId)
    match input.accountId with
    | some accountId => topUpAccount s input doc accountId
    | none => mintAccount s input doc

/-! ### Redemptions and adjustments -/

/-- A payment from an account, with the exchange difference it realizes. -/
def redeemStoredValue (s : Surroundings) (input : RedeemInput) : Transaction Unit := do
  check s.requireStoredValueFeature
  check (assertRedeemAmount input.amountMinor)
  let account ← lockStoredValueAccount input.accountId input.allowedSubsidiaryIds
  let prior ← priorStoredValueEntry (.redeem input.idempotencyKey)
    { accountId := some input.accountId, kind := .redeem, amountMinor := some (-input.amountMinor) }
  match prior with
  | some _ => pure ()
  | none => do
    check (s.assertRedemption input account)
    let functionalPrior ← accountFunctionalTotal input.accountId
    let pricing ← check (s.priceRedemption input account functionalPrior)
    let existing ← applyMovement input.accountId (sameBalance account)
      ("Stored-value …" ++ account.codeLast4 ++
        " changed while redeeming; the balance no longer covers this redemption.")
      (s.redemption input account pricing)
    check (requireFreshEntry existing input.idempotencyKey)
    match pricing.realized with
    | none => pure ()
    | some realized => do
      let _ ← check
        (s.postRealizedFxJournal account.subsidiaryId pricing.entryFunctional realized)
      pure ()

/-- A correction of a balance, posted with its journal. -/
def adjustStoredValue (s : Surroundings) (input : AdjustInput) : Transaction Unit := do
  check s.requireStoredValueFeature
  check (assertAdjustment input)
  let account ← lockStoredValueAccount input.accountId input.allowedSubsidiaryIds
  let prior ← priorStoredValueEntry (.adjust input.idempotencyKey)
    { accountId := some input.accountId, kind := .adjust, amountMinor := some input.deltaMinor }
  match prior with
  | some entry =>
    check (refuseIf (entry.journalEntryId.isNone = true) (storedValueRefusal
      ("The adjustment recorded under idempotency key " ++ input.idempotencyKey ++
        " names no journal entry.") "stored_value_entry_unrecorded"))
  | none => do
    let movement ← check (s.adjustment input account)
    let existing ← applyMovement input.accountId (sameBalance account)
      ("Stored-value …" ++ account.codeLast4 ++ " changed while adjusting.") movement
    check (requireFreshEntry existing input.idempotencyKey)

/-! ### Status -/

def setStoredValueStatus (s : Surroundings) (input : StatusInput) : Transaction Unit := do
  check s.requireStoredValueFeature
  let account ← lockStoredValueAccount input.accountId input.allowedSubsidiaryIds
  check (assertTransition input.newStatus account)
  let updated ← updateWhere input.accountId (fun row => row.status = account.status)
    fun row => { row with status := input.newStatus }
  check (refuseIf (updated = false) (storedValueRefusal
    ("Stored-value …" ++ account.codeLast4 ++ " changed while updating its status.")
    "stored_value_status_changed"))

/-! ### Breakage and expiry -/

/-- What an account still holds is written off, and the account ends. -/
def expireStoredValueAccount (s : Surroundings) (accountId : ℕ)
    (allowedSubsidiaryIds : SubsidiaryScope) (postingDate : CivilDate) (key : ℕ) :
    Transaction Unit := do
  check s.requireStoredValueFeature
  let account ← lockStoredValueAccount accountId allowedSubsidiaryIds
  if account.status = .expired ∨ account.status = .closed then do
    let prior ← select (.expire key)
    check (refuseIf (prior.isNone = true) (storedValueRefusal
      ("Stored-value …" ++ account.codeLast4 ++ " is already " ++ account.status.text ++ ".")
      "stored_value_status_conflict"))
  else do
    check (s.assertExpiry account)
    let functionalPrior ← accountFunctionalTotal accountId
    let movement ← check (s.expiry postingDate key accountId account functionalPrior)
    -- nothing is asked of the entry that is found: the account was active
    let _ ← applyMovement accountId (stillActive account)
      ("Stored-value …" ++ account.codeLast4 ++ " changed while expiring.") movement
    pure ()

def requireRecorded (existing : Option StoredValueEntry) (codeLast4 : String) :
    Except StoredValueError Unit :=
  refuseIf (existing.isSome = true) (balanceChanged ("Stored-value …" ++ codeLast4 ++
    " had its breakage recorded by another scan while this one applied it."))

def breakageChanged (account : StoredValueAccountRow) : String :=
  "Stored-value …" ++ account.codeLast4 ++ " changed while recognizing breakage."

/-- The breakage that the part redeemed so far has earned. -/
def recognizeProportional (s : Surroundings) (accountId : ℕ) (account : StoredValueAccountRow)
    (postingDate : CivilDate) (period : String) : Transaction Unit := do
  let program ← check (s.loadStoredValueProgram account.programId)
  let entries ← selectWhere fun entry => entry.accountId = accountId
  let _ ← check
    (orRefuse program.breakageIncomeAccountId (breakageIncomeMissing "proportional" program))
  let amount := proportionalAmount program account (redeemedOf entries)
  if amount ≤ 0 then pure ()
  else do
    let prior ← priorStoredValueEntry (.breakage accountId period)
      { accountId := some accountId, kind := .breakage }
    match prior with
    | some _ => pure ()
    | none => do
      let functionalPrior ← accountFunctionalTotal accountId
      let movement ← check (s.proportionalBreakage postingDate period accountId account
        amount functionalPrior)
      let existing ← applyMovement accountId (stillActive account) (breakageChanged account)
        movement
      check (requireRecorded existing account.codeLast4)

/-- The whole balance as breakage, once redemption is remote. -/
def recognizeRemote (s : Surroundings) (accountId : ℕ) (account : StoredValueAccountRow)
    (postingDate : CivilDate) : Transaction Unit := do
  let program ← check (s.loadStoredValueProgram account.programId)
  let _ ← check
    (orRefuse program.breakageIncomeAccountId (breakageIncomeMissing "remote" program))
  if account.balanceMinor ≤ 0 then pure ()
  else do
    let prior ← priorStoredValueEntry (.remote accountId)
      { accountId := some accountId, kind := .breakage }
    check (refuseIf (prior.isSome = true) (storedValueRefusal
      ("Stored-value …" ++ account.codeLast4 ++
        " already recognized remote breakage yet is still active with a balance.")
      "stored_value_breakage_replay_conflict"))
    let functionalPrior ← accountFunctionalTotal accountId
    let movement ← check
      (s.remoteBreakage postingDate accountId account functionalPrior)
    let existing ← applyMovement accountId (stillActive account) (breakageChanged account) movement
    check (requireRecorded existing account.codeLast4)

/-- Whether an account that was locked is one that a scan of a policy takes up. -/
def breakable (account : StoredValueAccountRow) : Bool :=
  account.status = .active ∧ 0 < account.balanceMinor

/-- An account that the scan for remote breakage found, once it is locked. -/
def breakRemote (s : Surroundings) (accountId : ℕ) : Transaction Unit := do
  let account ← lockStoredValueAccount accountId none
  if breakable account then do
    let program ← check (s.loadStoredValueProgram account.programId)
    if program.breakagePolicy = .remote then do
      let cutoff ← check (addMonthsClamped s.businessToday (-program.inactivityMonths))
      if account.lastActivityOn < cutoff then
        recognizeRemote s accountId account s.businessToday
      else pure ()
    else pure ()
  else pure ()

/-- An account that the scan for proportional breakage found, once it is locked. -/
def breakProportional (s : Surroundings) (accountId : ℕ) : Transaction Unit := do
  let account ← lockStoredValueAccount accountId none
  if breakable account then do
    let program ← check (s.loadStoredValueProgram account.programId)
    if program.breakagePolicy = .proportional then
      recognizeProportional s accountId account s.businessToday
        (String.ofList ((isoDateOf s.businessToday).take 7))
    else pure ()
  else pure ()

/-- Whether an account is active, and its program meets a condition. -/
def Surroundings.candidate (s : Surroundings)
    (which : StoredValueAccountRow → StoredValueProgramRow → Bool)
    (row : StoredValueAccountRow) : Bool :=
  row.status = .active ∧ (s.program row.programId).any (which row)

/-- The scan of an organization: expiry, remote breakage, then proportional breakage. -/
def processOrgBreakage (s : Surroundings) : Transaction Unit := do
  check s.requireStoredValueFeature
  let expired ← selectRows
    (s.candidate fun row _ => storedValueExpired row.expiresOn s.businessToday)
  expired.forM fun accountId => expireStoredValueAccount s accountId none s.businessToday accountId
  let remote ← selectRows (s.candidate fun row program =>
    program.breakagePolicy = .remote ∧ 0 < row.balanceMinor ∧
      (addMonthsClamped s.businessToday (-program.inactivityMonths)).toOption.any
        (row.lastActivityOn < ·))
  remote.forM (breakRemote s)
  let proportional ← selectRows (s.candidate fun row program =>
    program.breakagePolicy = .proportional ∧ 0 < row.balanceMinor)
  proportional.forM (breakProportional s)

/-! ### Voids -/

/-- What a void takes back of one account: all its effects that are not reversed yet. -/
def gatherReversals (input : VoidInput) (accountId : ℕ) (account : StoredValueAccountRow)
    (effects : List StoredValueEntry) : Transaction VoidPlan :=
  effects.foldlM (fun plan effect => do
    let prior ← priorStoredValueEntry (.voidReversal effect.idempotencyKey)
      { accountId := some accountId, kind := .reversal, amountMinor := some (-effect.amountMinor) }
    match prior with
    | some _ => pure plan
    | none => check (input.takeBack accountId account plan effect))
    ⟨account.balanceMinor, account.issuedMinor, []⟩

/-- The entry of a reversal, which has to be a new one. -/
def recordReversal (input : VoidInput) (account : StoredValueAccountRow)
    (entry : StoredValueEntry) : Transaction Unit := do
  let existing ← append entry
  check (refuseIf (existing.isSome = true) (storedValueRefusal
    ("Another request reversed " ++ input.documentNumber ++ "'s effect on …" ++
      account.codeLast4 ++ " while this void was applying it.")
    "stored_value_idempotency_conflict"))

/-- The effects of a void on one account are taken back together. -/
def reverseAccount (input : VoidInput) (accountId : ℕ) (effects : List StoredValueEntry) :
    Transaction Unit := do
  let account ← lockStoredValueAccount accountId none
  let plan ← gatherReversals input accountId account effects
  if plan.pending = [] then pure ()
  else do
    let updated ← updateWhere accountId
      (fun row => row.balanceMinor = account.balanceMinor ∧ row.status = account.status)
      (input.write account plan)
    check (refuseIf (updated = false) (balanceChanged ("Stored-value …" ++
      account.codeLast4 ++ " changed while " ++ input.documentNumber ++ " was being voided.")))
    plan.pending.forM (recordReversal input account)

def reverseStoredValueForVoidedDocument (input : VoidInput) : Transaction Unit := do
  let effects ← selectWhere fun entry => entry.documentId = some input.documentId ∧
    entry.kind ∈ [StoredValueEntryKind.issue, .redeem, .adjust]
  let byAccount := FirstSeen.groupBy StoredValueEntry.accountId
    (effects.insertionSort fun a b => input.order a ≤ input.order b)
  (byAccount.insertionSort fun a b => a.1 ≤ b.1).forM fun group =>
    reverseAccount input group.1 group.2

/-! ### The operations -/

inductive Operation
  | issueStoredValue (s : Surroundings) (input : IssueInput)
  | attachDocumentIssue (s : Surroundings) (input : DocumentIssueInput)
  | attachDocumentLoad (s : Surroundings) (input : DocumentLoadInput)
  | redeemStoredValue (s : Surroundings) (input : RedeemInput)
  | adjustStoredValue (s : Surroundings) (input : AdjustInput)
  | setStoredValueStatus (s : Surroundings) (input : StatusInput)
  | runStoredValueBreakage (s : Surroundings)
  | reverseStoredValueForVoidedDocument (input : VoidInput)

/-- The statements an operation runs. -/
def Operation.transaction : Operation → Transaction Unit
  | .issueStoredValue s input => StoredValue.issueStoredValue s input
  | .attachDocumentIssue s input => StoredValue.attachDocumentIssue s input
  | .attachDocumentLoad s input => StoredValue.attachDocumentLoad s input
  | .redeemStoredValue s input => StoredValue.redeemStoredValue s input
  | .adjustStoredValue s input => StoredValue.adjustStoredValue s input
  | .setStoredValueStatus s input => StoredValue.setStoredValueStatus s input
  | .runStoredValueBreakage s => processOrgBreakage s
  | .reverseStoredValueForVoidedDocument input =>
    StoredValue.reverseStoredValueForVoidedDocument input

end OpenBooks.StoredValue
