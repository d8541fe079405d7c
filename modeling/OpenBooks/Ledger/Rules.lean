import OpenBooks.Ledger.CashRules

/-!
# The posting rules

`RULES` turns a document into signed ledger legs. Apart from the two cash kinds every rule has one
shape: detail legs for the lines, tax legs for their components, and a control leg that is
*computed* from those – the negated total of whatever was emitted. The control leg is the payable,
the receivable, the card, the bank or the store-credit liability of the document; an expense report
has one for the employee and one for the card.
-/

namespace OpenBooks

open Checked

/-- A posting rule: the document, its lines and everything resolved beforehand, to
the legs of its entry. -/
abbrev RuleFn := Doc → List DocLine → PostingDeps → Except PostingError (List KernelLine)

/-! ### Purchases -/

/-- The detail leg of a bill line: inventory lines debit the clearing account,
deferred lines their deferral account, all others their expense account. -/
def vendorBillExpense (doc : Doc) (deps : PostingDeps) (l : DocLine) :
    Except PostingError KernelLine := do
  let accountId ← resolvedLineAccount l
    ((deps.agencyByLine l.id).map Agency.accountId <|> deps.inventoryAssetByLine l.id <|>
      deps.amortizationByLine l.id <|> l.accountId)
  let amount ← purchaseBaseAmount l deps
  return { accountId, amount, memo := l.description, partyId := l.partyId <|> doc.partyId
           dims := dims doc l, amortizationSourceLineId := amortizationSource l deps }

/-- Vendor bill: debit expense and tax, credit the payable. -/
def vendorBillRule : RuleFn := fun doc lines deps => do
  let expense ← lines.mapM (vendorBillExpense doc deps)
  let tax ← purchaseTaxLines doc lines deps .positive
  return expense ++ tax ++ [
    { accountId := (controlOverride doc).getD deps.control.ap
      amount := -legTotal (expense ++ tax), partyId := doc.partyId, dueDate := doc.dueDate
      isOpenItem := true, dims := dims doc none }]

/-- The detail leg of a card line. -/
def cardExpense (doc : Doc) (deps : PostingDeps) (l : DocLine) :
    Except PostingError KernelLine := do
  let accountId ← resolvedLineAccount l l.accountId
  let amount ← purchaseBaseAmount l deps
  return { accountId, amount, memo := l.description, partyId := l.partyId <|> doc.partyId
           paymentCardId := doc.paymentCardId, dims := dims doc l }

/-- Card charge and card refund: debit the lines, credit the card's liability. A
refund is the same rule on negative line amounts. -/
def cardRule : RuleFn := fun doc lines deps => do
  let expense ← lines.mapM (cardExpense doc deps)
  let tax ← purchaseTaxLines doc lines deps .positive
  let cardLiability ← orRefuse (truthy (controlOverride doc <|> deps.cardLiabilityAccountId))
    (⟨"card_charge requires a payment card"⟩ : PostingError)
  return expense ++ tax ++ [
    { accountId := cardLiability, amount := -legTotal (expense ++ tax)
      paymentCardId := doc.paymentCardId, dims := dims doc none }]

/-- The detail leg of a check line; on an open-item account it settles what it
pays. -/
def checkExpense (doc : Doc) (deps : PostingDeps) (l : DocLine) :
    Except PostingError KernelLine := do
  let accountId ← resolvedLineAccount l l.accountId
  let amount ← purchaseBaseAmount l deps
  let partyId := l.partyId <|> doc.partyId
  return { accountId, amount, memo := l.description, partyId
           isOpenItem := controlLineIsOpenItem accountId partyId deps, dims := dims doc l }

/-- Check: debit the line accounts, credit the funding bank. -/
def checkRule : RuleFn := fun doc lines deps => do
  let expense ← lines.mapM (checkExpense doc deps)
  let tax ← purchaseTaxLines doc lines deps .positive
  return expense ++ tax ++ [
    { accountId := (controlOverride doc).getD deps.control.bank
      amount := -legTotal (expense ++ tax), dims := dims doc none }]

/-- The detail leg of a vendor credit: the expense or the inventory-return offset,
credited. -/
def vendorCreditExpense (doc : Doc) (deps : PostingDeps) (l : DocLine) :
    Except PostingError KernelLine := do
  let accountId ← resolvedLineAccount l (deps.inventoryReturnOffsetByLine l.id <|> l.accountId)
  let amount ← purchaseBaseAmount l deps
  return { accountId, amount := -amount, memo := l.description
           partyId := l.partyId <|> doc.partyId, dims := dims doc l }

/-- Vendor credit: debit the payable, credit expense and tax. -/
def vendorCreditRule : RuleFn := fun doc lines deps => do
  let expense ← lines.mapM (vendorCreditExpense doc deps)
  let tax ← purchaseTaxLines doc lines deps .negative
  return { accountId := (controlOverride doc).getD deps.control.ap
           amount := -legTotal (expense ++ tax), partyId := doc.partyId, dueDate := doc.dueDate
           isOpenItem := true, dims := dims doc none } :: (expense ++ tax)

/-! ### Sales -/

/-- The income legs of an invoice line: gift cards credit the stored-value liability, deferred
lines deferred revenue, and a line of another legal entity stays with it. -/
def customerInvoiceIncome (doc : Doc) (deps : PostingDeps) (l : DocLine) :
    Except PostingError (List KernelLine) :=
  salesIncome doc deps l
    (deps.storedValueLiabilityByLine l.id <|> deps.deferralAccountByLine l.id <|> l.accountId)
    l.subsidiaryId

/-- Customer invoice: debit the receivable, credit income and tax. -/
def customerInvoiceRule : RuleFn := fun doc lines deps => do
  let income ← collect (customerInvoiceIncome doc deps) lines
  let tax ← salesTaxLines doc lines deps .positive
  return { accountId := (controlOverride doc).getD deps.control.ar
           amount := -legTotal (income ++ tax), partyId := doc.partyId, dueDate := doc.dueDate
           isOpenItem := true, dims := dims doc none } :: (income ++ tax)

/-- The detail leg of a customer credit, as on a cash refund. -/
def customerCreditIncome (doc : Doc) (l : DocLine) : Except PostingError KernelLine :=
  cashRefundIncome doc l

/-- The credit leg of a customer credit: the receivable, or the store-credit
liability of a memo refunded to store credit, which is no open item. -/
def customerCreditLeg (doc : Doc) (deps : PostingDeps) (amount : ℤ) : KernelLine :=
  match truthy deps.storeCreditLiabilityAccountId with
  | some accountId => { accountId, amount, partyId := doc.partyId, dims := dims doc none }
  | none =>
    { accountId := (controlOverride doc).getD deps.control.ar, amount, partyId := doc.partyId
      dueDate := doc.dueDate, isOpenItem := true, dims := dims doc none }

/-- Customer credit: debit income and tax, credit the receivable or the store
credit. -/
def customerCreditRule : RuleFn := fun doc lines deps => do
  let income ← lines.mapM (customerCreditIncome doc)
  let tax ← salesTaxLines doc lines deps .negative
  return customerCreditLeg doc deps (-legTotal (income ++ tax)) :: (income ++ tax)

/-! ### Expense reports -/

def settledAs (settlement : ExpenseSettlement) (lines : List DocLine) : List DocLine :=
  lines.filter fun l => settlementOf l = .ok settlement

/-- The expense leg of a report line, stamped with the card when the card paid. -/
def bookExpense (doc : Doc) (deps : PostingDeps) (cardStamp : Bool) (l : DocLine) :
    Except PostingError KernelLine := do
  let accountId ← resolvedLineAccount l (deps.amortizationByLine l.id <|> l.accountId)
  let amount ← purchaseBaseAmount l deps
  return { accountId, amount, memo := l.description, partyId := l.partyId <|> doc.partyId
           paymentCardId := if cardStamp then doc.paymentCardId else none
           dims := dims doc l, amortizationSourceLineId := amortizationSource l deps }

def personalDebit (doc : Doc) (deps : PostingDeps) (receivable : String) (l : DocLine) :
    Except PostingError KernelLine := do
  let amount ← personalReceivableAmount l deps
  let partyId := l.partyId <|> doc.partyId
  return { accountId := receivable, amount, memo := l.description, partyId
           isOpenItem := controlLineIsOpenItem receivable partyId deps, dims := dims doc l }

/-- The employee-payable leg of an expense report, left out when it is zero. -/
def employeePayableLegs (doc : Doc) (deps : PostingDeps) (total : ℤ) : List KernelLine :=
  let accountId := (controlOverride doc <|> deps.control.employeePayable).getD deps.control.ap
  if total = 0 then []
  else [{ accountId, amount := -total, partyId := doc.partyId
          isOpenItem := controlLineIsOpenItem accountId doc.partyId deps, dims := dims doc none }]

/-- The card-clearing leg of an expense report, left out when it is zero: it never
carries the employee and is never an open item. -/
def cardClearingLegs (doc : Doc) (deps : PostingDeps) (total : ℤ) : List KernelLine :=
  if total = 0 then []
  else [{ accountId := deps.cardLiabilityAccountId.getD "", amount := -total
          paymentCardId := doc.paymentCardId, isOpenItem := false, dims := dims doc none }]

/-- Expense report: three settlements, three counterparties. Out-of-pocket lines
credit the employee, company-paid lines the card, and a personal line is a
receivable from the employee against the card. -/
def expenseReportRule : RuleFn := fun doc lines deps => do
  let _ ← lines.mapM settlementOf
  let oop := settledAs .outOfPocket lines
  let card := settledAs .companyPaid lines
  let personal := settledAs .personal lines
  refuseIf (card ++ personal ≠ [] ∧ truthy deps.cardLiabilityAccountId = none)
    (⟨"company-paid and personal expense lines require a payment card on the report"⟩ :
      PostingError)
  refuseIf (personal ≠ [] ∧ truthy deps.control.employeeReceivable = none)
    (⟨"personal expense lines require an employee-receivable control account (orgs.settings.controlAccounts.employeeReceivable)"⟩ : PostingError)
  let oopExpense ← oop.mapM (bookExpense doc deps false)
  let oopTax ← purchaseTaxLines doc oop deps .positive
  let cardExpense ← card.mapM (bookExpense doc deps true)
  let cardTax ← purchaseTaxLines doc card deps .positive
  let personalLegs ← personal.mapM
    (personalDebit doc deps (deps.control.employeeReceivable.getD ""))
  return oopExpense ++ oopTax ++ cardExpense ++ cardTax ++ personalLegs ++
    employeePayableLegs doc deps (legTotal (oopExpense ++ oopTax)) ++
    cardClearingLegs doc deps (legTotal (cardExpense ++ cardTax) + legTotal personalLegs)

/-! ### The table -/

/-- The rule of each document kind. -/
def RULES : DocKind → RuleFn
  | .vendorBill => vendorBillRule
  | .customerInvoice => customerInvoiceRule
  | .cashSale => cashSaleRule
  | .expenseReport => expenseReportRule
  | .cardCharge => cardRule
  | .cardRefund => cardRule
  | .check => checkRule
  | .vendorCredit => vendorCreditRule
  | .customerCredit => customerCreditRule
  | .cashRefund => cashRefundRule

end OpenBooks
