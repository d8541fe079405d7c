import OpenBooks.Lib.Checked
import OpenBooks.Money.Units

/-!
# Posting contracts

The data the posting rules read and the lines they write. A document and its
lines come from the database; `PostingDeps` is everything the posting
coordinator resolved beforehand – control accounts, tax calculation snapshots,
agency, inventory, deferral and store-credit routings, tenders and close-out – and
a `KernelLine` is one signed leg of the entry.

A `Map` of the dependencies is the function that looks it up, and an absent map is
the function that finds nothing. A column that may be null, and a property that
may be missing, are both `none`.
-/

namespace OpenBooks

/-- A refusal of the posting kernel, with the message the operator reads. -/
structure PostingError where
  message : String
  deriving DecidableEq

/-- Custom segment assignments: segment key to value, `none` for an explicit
null. -/
abbrev ExtraDims := List (String × Option String)

/-- The spread `{ ...a, ...b }` of two records: the keys of `a` first, the values
of `b` winning. -/
def spread (a b : ExtraDims) : ExtraDims :=
  a.map (fun entry => (entry.1, (b.lookup entry.1).getD entry.2)) ++
    b.filter fun entry => (a.lookup entry.1).isNone

/-- A string that reads as true: present and not empty. -/
def truthy (s : Option String) : Option String := s.filter (· ≠ "")

theorem eq_some_of_truthy {s : Option String} {a : String} (h : truthy s = some a) :
    s = some a :=
  (Option.filter_eq_some_iff.mp h).1

/-! ### Documents -/

/-- The document kinds whose rules are modelled. -/
inductive DocKind
  | vendorBill
  | customerInvoice
  | cashSale
  | expenseReport
  | cardCharge
  | cardRefund
  | check
  | vendorCredit
  | customerCredit
  | cashRefund
  deriving DecidableEq

/-- A document header, as far as the rules read it. `controlAccountId` is the
`custom.controlAccountId` property when it is a string. -/
structure Doc where
  documentNumber : String
  partyId : Option String := none
  dueDate : Option String := none
  paymentCardId : Option String := none
  departmentId : Option String := none
  projectId : Option String := none
  locationId : Option String := none
  classId : Option String := none
  extraDims : ExtraDims := []
  controlAccountId : Option String := none

/-- A document line, as far as the rules read it. -/
structure DocLine where
  id : String
  lineNumber : ℕ
  amount : ℤ
  taxAmount : Option ℤ := none
  accountId : Option String := none
  taxCodeId : Option String := none
  taxGroupId : Option String := none
  description : Option String := none
  partyId : Option String := none
  subsidiaryId : Option String := none
  departmentId : Option String := none
  projectId : Option String := none
  locationId : Option String := none
  classId : Option String := none
  equipmentUnitId : Option String := none
  extraDims : ExtraDims := []
  settlementType : Option String := none
  quantity : String := "0"
  unit : Option String := none

/-- What a line adds to its document: amount and tax together. -/
def lineTotal (l : DocLine) : ℤ := l.amount + l.taxAmount.getD 0

/-! ### Tax calculation snapshots -/

/-- Who collects a tax: the merchant, or a marketplace facilitator. -/
inductive Collector
  | merchant
  | marketplace
  deriving DecidableEq

/-- How a tax is calculated. -/
inductive CalculationType
  | standard
  | withholding
  | reverseCharge
  deriving DecidableEq

/-- The stored spelling of a calculation type. -/
def CalculationType.text : CalculationType → String
  | .standard => "standard"
  | .withholding => "withholding"
  | .reverseCharge => "reverse_charge"

/-- One tax component of a line, as calculated and stored. -/
structure TaxPostingComponent where
  taxCodeId : String
  collectedBy : Collector
  facilitatorName : Option String := none
  taxAmount : ℤ
  recoverableAmount : ℤ
  nonrecoverableAmount : ℤ
  calculationType : CalculationType
  collectedAccountId : Option String := none
  paidAccountId : Option String := none
  withholdingAccountId : Option String := none

/-- Whether a facilitator's tax is inside the charged total or only reported. -/
inductive ClearingMode
  | gross
  | net
  deriving DecidableEq

/-- A marketplace facilitator's clearing account. -/
structure MarketplaceClearing where
  accountId : String
  mode : ClearingMode

/-! ### Cash settlement -/

/-- One paid-at-sale tender: settlement account resolved, amount canonical. -/
structure CashPostingTender where
  methodLabel : String
  accountId : String
  amount : ℤ
  reference : Option String := none

/-- A cash sale's daily close-out: tips owed to staff, processor fees withheld at
settlement, and the signed cash over or short. -/
structure CashSaleCloseout where
  tipsTotal : ℤ
  feeTotal : ℤ
  overShort : ℤ
  serverPartyId : Option String := none
  tipsPayableAccountId : Option String := none
  processorFeeAccountId : Option String := none
  cashOverShortAccountId : Option String := none

/-! ### Dependencies -/

structure ControlAccounts where
  ar : String
  ap : String
  bank : String
  taxCollected : Option String := none
  taxPaid : Option String := none
  employeePayable : Option String := none
  employeeReceivable : Option String := none

/-- An approved agency allocation of a line. -/
structure Agency where
  accountId : String
  vendorAmount : ℤ

/-- Everything the posting coordinator resolved before the rule runs. -/
structure PostingDeps where
  control : ControlAccounts
  agencyByLine : String → Option Agency := fun _ => none
  cardLiabilityAccountId : Option String := none
  openItemAccountIds : String → Bool := fun _ => false
  taxCollectedByCode : String → Option String := fun _ => none
  taxPaidByCode : String → Option String := fun _ => none
  taxComponentsByLine : String → Option (List TaxPostingComponent) := fun _ => none
  marketplaceClearingByName : String → Option MarketplaceClearing := fun _ => none
  deferralAccountByLine : String → Option String := fun _ => none
  inventoryAssetByLine : String → Option String := fun _ => none
  inventoryReturnOffsetByLine : String → Option String := fun _ => none
  amortizationByLine : String → Option String := fun _ => none
  storedValueLiabilityByLine : String → Option String := fun _ => none
  storeCreditLiabilityAccountId : Option String := none
  cashTenders : List CashPostingTender := []
  cashCloseout : Option CashSaleCloseout := none
  noChargeUnitsAccountId : Option String := none

/-! ### Kernel lines -/

/-- The analytical dimensions of a leg. -/
structure Dims where
  departmentId : Option String := none
  projectId : Option String := none
  locationId : Option String := none
  classId : Option String := none
  equipmentUnitId : Option String := none
  extraDims : ExtraDims := []

/-- One signed leg of a journal entry: positive debits, negative credits. -/
structure KernelLine where
  accountId : String
  amount : ℤ
  dims : Dims := {}
  memo : Option String := none
  partyId : Option String := none
  subsidiaryId : Option String := none
  paymentCardId : Option String := none
  taxCodeId : Option String := none
  dueDate : Option String := none
  isOpenItem : Bool := false
  quantity : Option String := none
  unit : Option String := none
  amortizationSourceLineId : Option String := none

/-- The signed total of some legs. -/
def legTotal (legs : List KernelLine) : ℤ := (legs.map KernelLine.amount).sum

@[simp] theorem legTotal_nil : legTotal [] = 0 := rfl

@[simp] theorem legTotal_cons (l : KernelLine) (ls : List KernelLine) :
    legTotal (l :: ls) = l.amount + legTotal ls := by
  simp [legTotal]

@[simp] theorem legTotal_append (ls ms : List KernelLine) :
    legTotal (ls ++ ms) = legTotal ls + legTotal ms := by
  simp [legTotal]

/-- The leg with its amount reversed. -/
def KernelLine.negated (l : KernelLine) : KernelLine := { l with amount := -l.amount }

end OpenBooks
