import OpenBooks.Money.Units
import OpenBooks.Platform.CivilDate

/-!
# Stored-value accounts

A gift card or a store credit is an account with a balance, and entries that say how the balance
came about: each has the amount that it moved and the balance after it, in the card's currency, and
what it moved in the functional currency of the entity that owes the balance. An entry is recorded
under an idempotency key (`StoredValue.EntryKey`), and a key is there once.

This file has the data, and everything that the operations compute or check by themselves: the rate
of a movement, the carrying share of a slice, what a redemption, a load or a breakage needs, and
what a void takes back.
-/

namespace OpenBooks.StoredValue

open Checked

/-! ### The data -/

inductive StoredValueKind
  | giftCard
  | storeCredit
  deriving DecidableEq

inductive StoredValueStatus
  | active
  | frozen
  | closed
  | expired
  deriving DecidableEq

def StoredValueStatus.text : StoredValueStatus → String
  | .active => "active"
  | .frozen => "frozen"
  | .closed => "closed"
  | .expired => "expired"

inductive StoredValueEntryKind
  | issue
  | redeem
  | adjust
  | expire
  | breakage
  | reversal
  deriving DecidableEq

def StoredValueEntryKind.text : StoredValueEntryKind → String
  | .issue => "issue"
  | .redeem => "redeem"
  | .adjust => "adjust"
  | .expire => "expire"
  | .breakage => "breakage"
  | .reversal => "reversal"

inductive StoredValueBreakagePolicy
  | none
  | proportional
  | remote
  deriving DecidableEq

structure StoredValueProgramRow where
  id : ℕ
  name : String
  kind : StoredValueKind
  liabilityAccountId : Option ℕ
  breakageIncomeAccountId : Option ℕ
  breakagePolicy : StoredValueBreakagePolicy
  /-- In ten-billionths. -/
  breakageRate : ℤ
  expiryMonths : Option ℕ
  inactivityMonths : ℕ
  currency : Option String
  isActive : Bool

structure StoredValueAccountRow where
  programId : ℕ
  kind : StoredValueKind
  codeLast4 : String
  customerPartyId : Option ℕ
  currency : String
  subsidiaryId : ℕ
  issuedMinor : ℤ
  balanceMinor : ℤ
  breakageRecognizedMinor : ℤ
  status : StoredValueStatus
  expiresOn : Option CivilDate
  lastActivityOn : CivilDate
  sourceDocumentId : Option ℕ
  liabilityAccountId : Option ℕ

/-- What an entry is recorded under. An entry is named by its key. -/
inductive EntryKey
  | issue (key : String)
  | redeem (key : String)
  | adjust (key : String)
  | load (key : String)
  | breakage (account : ℕ) (period : String)
  | remote (account : ℕ)
  | expire (key : ℕ)
  | voidReversal (entry : EntryKey)
  deriving DecidableEq

def EntryKey.text : EntryKey → String
  | .issue key => "stored-value:issue-entry:" ++ key
  | .redeem key => "stored-value:redeem-entry:" ++ key
  | .adjust key => "stored-value:adjust-entry:" ++ key
  | .load key => "stored-value:load-entry:" ++ key
  | .breakage account period => "stored-value:breakage-entry:" ++ toString account ++ ":" ++ period
  | .remote account => "stored-value:remote-entry:" ++ toString account
  | .expire key => "stored-value:expire-entry:" ++ toString key
  | .voidReversal entry => "stored-value:void-reversal:" ++ entry.text

structure StoredValueEntry where
  accountId : ℕ
  kind : StoredValueEntryKind
  amountMinor : ℤ
  balanceAfter : ℤ
  currency : String
  functionalAmountMinor : ℤ
  /-- In ten-billionths. -/
  fxRate : ℤ
  documentId : Option ℕ := none
  documentLineId : Option ℕ := none
  journalEntryId : Option ℕ := none
  idempotencyKey : EntryKey
  reason : Option String := none

structure StoredValueError where
  message : String
  code : String
  field : Option String

def storedValueRefusal (message code : String) : StoredValueError := ⟨message, code, none⟩

def storedValueRefusalFor (field message code : String) : StoredValueError :=
  ⟨message, code, some field⟩

def scopeNotFound : StoredValueError := ⟨"not found", "not_found", none⟩

/-! ### Visibility and ownership -/

/-- The entities that an actor may see; none is the unrestricted grant. -/
abbrev SubsidiaryScope := Option (List ℕ)

def subsidiaryScopeAllows (scope : SubsidiaryScope) (subsidiaryId : Option ℕ)
    (orgWideNull : Bool) : Bool :=
  scope.all fun visible => subsidiaryId.elim orgWideNull (· ∈ visible)

inductive DraftSubsidiaryError
  | subsidiaryOutOfScope
  | subsidiaryRequired

def resolveDraftSubsidiary (scope : SubsidiaryScope) (requested : Option ℕ) :
    Except DraftSubsidiaryError (Option ℕ) :=
  match scope, requested with
  | none, _ => .ok requested
  | some visible, some id => if id ∈ visible then .ok (some id) else .error .subsidiaryOutOfScope
  | some [only], none => .ok (some only)
  | some _, none => .error .subsidiaryRequired

def storedValueAccountOwnedByCustomer (account : StoredValueAccountRow)
    (customerPartyId : Option ℕ) : Bool :=
  (account.kind ≠ .storeCredit && account.customerPartyId.isNone) ||
    (customerPartyId.isSome && account.customerPartyId = customerPartyId)

def assertStoredValueVisible (allowedSubsidiaryIds : SubsidiaryScope) (subsidiaryId : ℕ) :
    Except StoredValueError Unit :=
  refuseIf (subsidiaryScopeAllows allowedSubsidiaryIds (some subsidiaryId) false = false)
    scopeNotFound

/-! ### What operations read of other tables -/

structure DocumentFxContext where
  id : ℕ
  currency : String
  /-- In ten-billionths. -/
  fxRate : ℤ
  subsidiaryId : ℕ
  subsidiaryName : String
  postingDate : CivilDate

/-- Which request fields a caller stated. -/
structure StoredValueIssueEvidence where
  expiresOnStated : Bool
  postingDateStated : Bool
  memoStated : Bool

/-- What a replay reads back of the journal of an issue. -/
structure IssueJournal where
  postingDate : CivilDate
  memo : Option String
  debitAccountId : Option ℕ
  evidence : Option StoredValueIssueEvidence

/-- What one call of an operation finds around the stored-value tables. -/
structure Surroundings where
  featureOn : Bool
  businessToday : CivilDate
  /-- The day of the database's own clock. -/
  currentDate : CivilDate
  program : ℕ → Option StoredValueProgramRow
  document : ℕ → Except StoredValueError DocumentFxContext
  /-- The party of a document, if there is the document. -/
  documentParty : ℕ → Option (Option ℕ)
  /-- The entity of a party, if there is the party and it is active. -/
  partySubsidiary : ℕ → Option (Option ℕ)
  rootSubsidiary : Option ℕ
  subsidiaryName : ℕ → Option String
  baseCurrency : ℕ → Option String
  spotRate : String → String → CivilDate → Option ℤ
  /-- The type of an account that is active and not a summary. -/
  accountType : ℕ → Option String
  storedValueLiability : Option ℕ
  fxRealizedGainLoss : Option ℕ
  /-- The entity that a posting is on, if there are a book, a currency and a period for it. -/
  postingContext : CivilDate → Option ℕ → Option (ℕ × String)
  /-- The journal entry that is posted, or why the ledger refuses it. -/
  postEntry : Except StoredValueError ℕ
  issueJournal : ℕ → Option IssueJournal
  codeLast4 : String

namespace Surroundings

variable (s : Surroundings)

def requireStoredValueFeature : Except StoredValueError Unit :=
  refuseIf (s.featureOn = false) (storedValueRefusal
    "Stored value is disabled; enable storedValue in Company Settings → Features." "feature_off")

def loadStoredValueProgram (programId : ℕ) : Except StoredValueError StoredValueProgramRow :=
  orRefuse (s.program programId) (storedValueRefusal
    "The stored-value program does not exist in this organization." "stored_value_program_missing")

def storedValueLiabilityControlAccount : Except StoredValueError ℕ :=
  orRefuse s.storedValueLiability (storedValueRefusal
    "No stored-value liability account is configured for this organization."
    "stored_value_liability_unset")

def realizedFxGainLossAccount : Except StoredValueError ℕ :=
  orRefuse s.fxRealizedGainLoss (storedValueRefusal
    "No realized FX gain/loss account is configured for this organization."
    "stored_value_realized_fx_unset")

def assertPostingAccount (accountId : ℕ) (label : String) (types : List String) :
    Except StoredValueError Unit :=
  refuseIf ((s.accountType accountId).any (· ∈ types) = false) (storedValueRefusalFor label
    (label ++ " must be an active posting account of type " ++ String.intercalate " or " types ++
      " in this organization.") "stored_value_account_invalid")

/-- The liability account of a program: its own, else the organization's. -/
def programLiabilityAccount (program : StoredValueProgramRow) : Except StoredValueError ℕ :=
  program.liabilityAccountId.elim s.storedValueLiabilityControlAccount fun accountId => do
    s.assertPostingAccount accountId "Program liability account"
      ["liability_payable", "liability_current_other"]
    pure accountId

def subsidiaryBaseCurrency (subsidiaryId : ℕ) : Except StoredValueError String :=
  orRefuse (s.baseCurrency subsidiaryId) (storedValueRefusal
    ("The stored-value movement names a legal entity that does not exist in this " ++
      "organization.") "stored_value_subsidiary_missing")

def postingContextFor (postingDate : CivilDate) (subsidiaryId : Option ℕ) :
    Except StoredValueError (ℕ × String) :=
  orRefuse (s.postingContext postingDate subsidiaryId) (storedValueRefusal
    ("Stored-value posting needs an active primary book, a legal entity with a currency, and a " ++
      "covering accounting period.") "stored_value_posting_context_missing")

end Surroundings

/-! ### Pricing -/

/-- A rate as its column spells it, to ten decimals. -/
def rateText (units : ℤ) : String :=
  (if units < 0 then "-" else "") ++ toString (units.natAbs / 10000000000) ++ "." ++
    padStart 10 '0' (toString (units.natAbs % 10000000000))

def parseRateToUnits (units : ℤ) : Except StoredValueError ℤ := do
  refuseIf (units < 0) (storedValueRefusal
    ("Exchange rate \"" ++ rateText units ++ "\" is not a positive decimal rate.")
    "stored_value_rate_invalid")
  refuseIf (units ≤ 0) (storedValueRefusal "An exchange rate must be greater than zero."
    "stored_value_rate_invalid")
  pure units

/-- Card-currency minor units in functional minor units. -/
def functionalMinor (amountMinor rateUnits : ℤ) : ℤ :=
  roundDiv (amountMinor * rateUnits) RATE_SCALE

/-- The rate that a document carries: a rate of one on a document in a foreign currency means
that none is set. -/
def DocumentFxContext.ownRate (doc : DocumentFxContext) : Option ℤ :=
  if doc.fxRate = RATE_SCALE then none else some doc.fxRate

def Surroundings.resolveEventRate (s : Surroundings) (cardCurrency functionalCurrency : String)
    (postingDate : CivilDate) (doc : Option DocumentFxContext) : Except StoredValueError ℤ :=
  if cardCurrency = functionalCurrency then .ok RATE_SCALE
  else do
    refuseIf (doc.any (·.currency ≠ cardCurrency) = true) (storedValueRefusal
      ("The movement is in " ++ cardCurrency ++ ", but its document is in " ++
        doc.elim "" (·.currency) ++ ".") "stored_value_document_currency_mismatch")
    let rate ← orRefuse ((doc.bind DocumentFxContext.ownRate).or
      (s.spotRate cardCurrency functionalCurrency postingDate)) (storedValueRefusal
        ("No " ++ cardCurrency ++ "→" ++ functionalCurrency ++ " rate exists on or before " ++
          String.ofList (isoDateOf postingDate) ++ ", so the " ++ cardCurrency ++
          " movement cannot be priced.") "stored_value_rate_missing")
    parseRateToUnits rate

structure CarryingShare where
  functional : ℤ
  units : ℤ

/-- The historical functional value of a slice that is relieved: the exact remainder when it is
the whole balance, else its average share. -/
def carryingShare (functionalPrior balancePrior amountMinor : ℤ) : CarryingShare :=
  if amountMinor = balancePrior then
    ⟨functionalPrior, if balancePrior = 0 then RATE_SCALE
      else roundDiv (functionalPrior * RATE_SCALE) balancePrior⟩
  else
    let units := roundDiv (functionalPrior * RATE_SCALE) balancePrior
    ⟨functionalMinor amountMinor units, units⟩

/-! ### Dates -/

/-- The same day of the month some months away, clamped to the last day of the month. -/
def addMonthsClamped (date : CivilDate) (months : ℤ) : Except StoredValueError CivilDate :=
  let index := (date.year : ℤ) * 12 + (date.month - 1) + months
  let year := (index / 12).toNat
  let month := (index % 12).toNat + 1
  if index < 12 ∨ 9999 < year then
    .error ⟨"business date exceeds the supported calendar (0001 through 9999)", "RangeError", none⟩
  else .ok (civilDay year month (min date.day (daysInMonth year month)))

/-- A card is valid through its expiry date. -/
def storedValueExpired (expiresOn : Option CivilDate) (today : CivilDate) : Bool :=
  expiresOn.any (· < today)

/-- The expiry that an account is issued with: what was asked for, else the program's. -/
def Surroundings.expiryOf (s : Surroundings) (program : StoredValueProgramRow)
    (stated : Option CivilDate) : Except StoredValueError (Option CivilDate) :=
  stated.elim
    (program.expiryMonths.elim (.ok none) fun months =>
      some <$> addMonthsClamped s.businessToday months)
    fun expiresOn => .ok (some expiresOn)

/-! ### Replays -/

/-- What is expected of the entry that a replay finds. -/
structure ExpectedEntry where
  accountId : Option ℕ := none
  kind : StoredValueEntryKind
  amountMinor : Option ℤ := none

def ExpectedEntry.mismatches (expected : ExpectedEntry) (entry : StoredValueEntry) : List String :=
  [if expected.accountId.any (entry.accountId ≠ ·) then some "account" else none,
    if entry.kind ≠ expected.kind then
      some ("kind (" ++ entry.kind.text ++ ", not " ++ expected.kind.text ++ ")") else none,
    expected.amountMinor.bind fun amount => if entry.amountMinor ≠ amount then
      some ("amount (" ++ fromUnits entry.amountMinor ++ ", not " ++ fromUnits amount ++ ")")
      else none].reduceOption

def differentEffect (key : String) (mismatches : List String) : StoredValueError :=
  storedValueRefusal ("Idempotency key " ++ key ++
    " already recorded a different stored-value effect: " ++
    String.intercalate ", " mismatches ++ " differ.") "stored_value_idempotency_conflict"

/-- The entry that is there under a key, if it is the same effect. -/
def ExpectedEntry.check (expected : ExpectedEntry) (key : EntryKey)
    (found : Option StoredValueEntry) : Except StoredValueError (Option StoredValueEntry) :=
  found.elim (.ok none) fun entry => do
    refuseIf (expected.mismatches entry ≠ []) (differentEffect key.text (expected.mismatches entry))
    pure (some entry)

/-- The balance has moved already: an entry that is found in the place of the new one is another
request's. -/
def requireFreshEntry (existing : Option StoredValueEntry) (idempotencyKey : String) :
    Except StoredValueError Unit :=
  refuseIf (existing.isSome = true) (storedValueRefusal
    ("Another request recorded idempotency key " ++ idempotencyKey ++
      " while this one was applying it.") "stored_value_idempotency_conflict")

/-! ### Movements

What an operation does to an account that it holds: an update of the row, and an entry. -/

structure Movement where
  write : StoredValueAccountRow → StoredValueAccountRow
  entry : StoredValueEntry

end OpenBooks.StoredValue
