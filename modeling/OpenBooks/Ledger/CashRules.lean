import OpenBooks.Ledger.RuleBuilders
import OpenBooks.Money.DecimalText

/-!
# Cash sales and cash refunds

A cash document is paid where it is made, so in place of the control leg it has
one leg per tender. `cashSaleRule` books the income and tax legs of an
invoice, checks the tenders against their total and puts one debit per tender in
front of them, with the close-out of the till – tips, processor fees, cash over or
short – between. `cashRefundRule` is the reverse, without a close-out.

A document that has nothing to tender leaves by `settledAtNoCharge`: its
legs are booked as they are, and when every one of them is zero it records
quantities on a statistical account instead.
-/

namespace OpenBooks

open Checked

/-! ### Tenders -/

def tenderTotal (tenders : List CashPostingTender) : ℤ :=
  (tenders.map CashPostingTender.amount).sum

/-- Refuse an empty tender set, unless there is exactly nothing to tender. -/
def assertCashTendersPresent (tenders : List CashPostingTender) (amountToTender : ℤ)
    (documentNumber kindLabel : String) : Except PostingError Unit :=
  refuseIf (tenders = [] ∧ amountToTender ≠ 0)
    ⟨s!"{kindLabel} {documentNumber} has no tenders — add at least one tender " ++
      "naming the clearing or bank account and the amount received"⟩

/-- Cross-foot the tenders against the income and tax legs: the magnitudes must
match exactly. -/
def assertTendersMatchTotal (tenders : List CashPostingTender) (incomeAndTaxTotal : ℤ)
    (documentNumber kindLabel : String) : Except PostingError Unit :=
  refuseIf (tenderTotal tenders ≠ |incomeAndTaxTotal|)
    ⟨s!"{kindLabel} {documentNumber} tenders {fromUnits (tenderTotal tenders)} but lines and tax total {fromUnits |incomeAndTaxTotal|} — " ++
      "tenders must sum to the document total; add, remove, or correct a tender"⟩

/-- What a close-out must tender: the document total and the tips, less the fees
withheld, over or short. -/
def expectedTenderedForCloseout (documentTotal tipsTotal feeTotal overShort : ℤ) : ℤ :=
  documentTotal + tipsTotal + -feeTotal + overShort

/-- The nonzero terms of a close-out's derivation, as its refusal spells them. -/
def closeoutParts (incomeAndTaxTotal : ℤ) (closeout : CashSaleCloseout) : List String :=
  [s!"document total {fromUnits |incomeAndTaxTotal|}"] ++
    (if closeout.tipsTotal ≠ 0 then [s!"tips {fromUnits closeout.tipsTotal}"] else []) ++
    (if closeout.feeTotal ≠ 0 then [s!"fees −{fromUnits closeout.feeTotal}"] else []) ++
    (if closeout.overShort ≠ 0 then
      [(if 0 < closeout.overShort then "over " else "short ") ++ fromUnits closeout.overShort]
    else [])

/-- Cross-foot the tenders of a sale with a close-out. -/
def assertCloseoutTendersMatchTotal (tenders : List CashPostingTender) (incomeAndTaxTotal : ℤ)
    (closeout : CashSaleCloseout) (documentNumber : String) : Except PostingError Unit :=
  let expected := expectedTenderedForCloseout |incomeAndTaxTotal| closeout.tipsTotal
    closeout.feeTotal closeout.overShort
  let parts := " + ".intercalate (closeoutParts incomeAndTaxTotal closeout)
  refuseIf (tenderTotal tenders ≠ expected)
    ⟨s!"cash sale {documentNumber} tenders {fromUnits (tenderTotal tenders)} but {parts} = {fromUnits expected} — " ++
      "tenders must sum to the document total + tips − fees ± over/short; add, remove, or correct a tender or the close-out"⟩

/-! ### Nothing to tender -/

/-- The quantity a line records at no charge: its canonical text within four
places, and the number it spells. -/
def noChargeQuantity (line : DocLine) : Option (List Char × ℤ) := do
  let eight ← canonicalDecimal line.quantity.toList 8
  let quantity ← canonicalDecimal eight 4
  let units ← toUnits quantity
  return (quantity, units)

/-- The measurement of one line: its quantity, negated on a refund, in the line's
unit; a zero quantity records nothing. -/
def noChargeMeasurementLeg (doc : Doc) (statisticalAccountId : String) (direction : Direction)
    (kindLabel : String) (line : DocLine) : Except PostingError (List KernelLine) := do
  let (quantity, units) ← orRefuse (noChargeQuantity line)
    ⟨s!"{kindLabel} {doc.documentNumber} line {line.lineNumber} quantity {line.quantity} cannot be recorded at no charge — state the quantity with at most four decimal places"⟩
  let negated := (canonicalDecimal (fromUnits (-units)).toList 4).getD []
  let measurement : KernelLine :=
    { accountId := statisticalAccountId, amount := 0
      quantity := some (String.ofList (match direction with
        | .positive => quantity
        | .negative => negated))
      unit := truthy (line.unit.map fun u => String.ofList (trim u.toList)) <|> some "unit"
      memo := match truthy line.description with
        | some description => some s!"No charge — {description}"
        | none => some "No charge"
      partyId := line.partyId <|> doc.partyId, dims := dims doc line }
  return if units = 0 then [] else [measurement]

/-- The journal of a cash document that moves no money: zero-money measurements of
what was given. -/
def noChargeMeasurementLegs (doc : Doc) (lines : List DocLine) (statisticalAccountId : String)
    (direction : Direction) (kindLabel : String) : Except PostingError (List KernelLine) := do
  let legs ← collect (noChargeMeasurementLeg doc statisticalAccountId direction kindLabel) lines
  refuseIf (legs = [])
    (⟨s!"{kindLabel} {doc.documentNumber} settles nothing and records no quantity — add the items sold, or delete the draft"⟩ : PostingError)
  return legs

/-- A cash document with nothing to tender: lines that offset one another post as
they are; when every leg is zero the document records its quantities instead. -/
def settledAtNoCharge (doc : Doc) (lines : List DocLine) (legs : List KernelLine)
    (deps : PostingDeps) (direction : Direction) (kindLabel : String) :
    Except PostingError (List KernelLine) :=
  if ∃ leg ∈ legs, leg.amount ≠ 0 then .ok legs
  else do
    let accountId ← orRefuse (truthy deps.noChargeUnitsAccountId)
      ⟨s!"{kindLabel} {doc.documentNumber} settles exactly zero, so it records the quantities given at no charge on a statistical account — " ++
        "set the No-charge units account in Setup → Company & Accounting → Control accounts, then post again"⟩
    noChargeMeasurementLegs doc lines accountId direction kindLabel

/-! ### Cash sale -/

/-- The income legs of a sales line, on the account that is resolved for it: an agency line splits
off the vendor's share. -/
def salesIncome (doc : Doc) (deps : PostingDeps) (l : DocLine)
    (account subsidiaryId : Option String) : Except PostingError (List KernelLine) :=
  match deps.agencyByLine l.id with
  | some agency => do
    let accountId ← resolvedLineAccount l l.accountId
    return [
      { accountId, amount := -(l.amount + -agency.vendorAmount), memo := l.description
        partyId := l.partyId <|> doc.partyId, dims := dims doc l },
      { accountId := agency.accountId, amount := -agency.vendorAmount
        memo := "Vendor pass-through consideration"
        partyId := l.partyId <|> doc.partyId, dims := dims doc l }]
  | none => do
    let accountId ← resolvedLineAccount l account
    return [
      { accountId, amount := -l.amount, memo := l.description
        partyId := l.partyId <|> doc.partyId, subsidiaryId, dims := dims doc l }]

/-- The income legs of a cash-sale line: deferred lines credit deferred revenue. -/
def cashSaleIncome (doc : Doc) (deps : PostingDeps) (l : DocLine) :
    Except PostingError (List KernelLine) :=
  salesIncome doc deps l (deps.deferralAccountByLine l.id <|> l.accountId) none

/-- The leg of one tender, debited on a sale and credited on a refund. -/
def tenderLeg (doc : Doc) (direction : Direction) (t : CashPostingTender) : KernelLine where
  accountId := t.accountId
  amount := signed t.amount direction
  memo := tenderMemo t
  dims := dims doc none

/-- The refusal of a close-out amount with no account to book it on. -/
def closeoutAccountMissing (doc : Doc) (records account setting : String) : PostingError :=
  ⟨s!"cash sale {doc.documentNumber} records {records} with no {account} — " ++
    s!"set the {setting} account in Setup → Company & Accounting → Control accounts, then repost"⟩

/-- What a sale with a close-out checks before it is booked. -/
def assertCloseout (doc : Doc) (tenders : List CashPostingTender) (incomeAndTax : ℤ)
    (closeout : CashSaleCloseout) : Except PostingError Unit := do
  assertCloseoutTendersMatchTotal tenders incomeAndTax closeout doc.documentNumber
  refuseIf (closeout.tipsTotal ≠ 0 ∧ truthy closeout.tipsPayableAccountId = none)
    (closeoutAccountMissing doc "tips" "tips-payable liability" "Tips payable")
  refuseIf (closeout.feeTotal ≠ 0 ∧ truthy closeout.processorFeeAccountId = none)
    (closeoutAccountMissing doc "processor fees" "fee expense account" "Processor fees")
  refuseIf (closeout.overShort ≠ 0 ∧ truthy closeout.cashOverShortAccountId = none)
    (closeoutAccountMissing doc "cash over/short" "over/short account" "Cash over/short")

/-- The tips leg: staff money held for pay-out, credited to the liability. -/
def tipsLeg (doc : Doc) (closeout : CashSaleCloseout) : KernelLine where
  accountId := closeout.tipsPayableAccountId.getD ""
  amount := -closeout.tipsTotal
  memo := s!"Card tips — cash sale {doc.documentNumber}"
  partyId := closeout.serverPartyId
  dims := dims doc none

/-- The processor-fee leg: a selling cost, booked gross. -/
def feeLeg (doc : Doc) (closeout : CashSaleCloseout) : KernelLine where
  accountId := closeout.processorFeeAccountId.getD ""
  amount := closeout.feeTotal
  memo := s!"Processor fees — cash sale {doc.documentNumber}"
  dims := dims doc none

/-- The counted over or short: one signed leg either way. -/
def overShortLeg (doc : Doc) (closeout : CashSaleCloseout) : KernelLine where
  accountId := closeout.cashOverShortAccountId.getD ""
  amount := -closeout.overShort
  memo := (if 0 < closeout.overShort then "Cash over — cash sale " else "Cash short — cash sale ") ++
    doc.documentNumber
  dims := dims doc none

/-- The close-out legs of a sale: one for every amount that is not zero. -/
def closeoutLegs (doc : Doc) : Option CashSaleCloseout → List KernelLine
  | none => []
  | some closeout =>
    (if closeout.tipsTotal ≠ 0 then [tipsLeg doc closeout] else []) ++
      (if closeout.feeTotal ≠ 0 then [feeLeg doc closeout] else []) ++
      (if closeout.overShort ≠ 0 then [overShortLeg doc closeout] else [])

/-- What a sale must tender, before any tender is looked at. -/
def amountToTender (incomeAndTax : ℤ) : Option CashSaleCloseout → ℤ
  | none => |incomeAndTax|
  | some closeout => expectedTenderedForCloseout |incomeAndTax| closeout.tipsTotal
      closeout.feeTotal closeout.overShort

/-- The cross-foot of a sale's tenders, with or without a close-out. -/
def assertSaleTenders (doc : Doc) (tenders : List CashPostingTender) (incomeAndTax : ℤ) :
    Option CashSaleCloseout → Except PostingError Unit
  | none => assertTendersMatchTotal tenders incomeAndTax doc.documentNumber "cash sale"
  | some closeout => assertCloseout doc tenders incomeAndTax closeout

/-- Cash sale: the income and tax legs of an invoice, with one debit per tender and
the close-out of the till in place of the control leg. -/
def cashSaleRule (doc : Doc) (lines : List DocLine) (deps : PostingDeps) :
    Except PostingError (List KernelLine) := do
  let income ← collect (cashSaleIncome doc deps) lines
  let tax ← salesTaxLines doc lines deps .positive
  let incomeAndTax := legTotal (income ++ tax)
  let tenders := deps.cashTenders
  let closeout := deps.cashCloseout
  assertCashTendersPresent tenders (amountToTender incomeAndTax closeout) doc.documentNumber
    "cash sale"
  if tenders = [] then
    settledAtNoCharge doc lines (income ++ tax) deps .positive "cash sale"
  else do
    assertSaleTenders doc tenders incomeAndTax closeout
    return tenders.map (tenderLeg doc .positive) ++ closeoutLegs doc closeout ++ income ++ tax

/-! ### Cash refund -/

def cashRefundIncome (doc : Doc) (l : DocLine) : Except PostingError KernelLine := do
  let accountId ← resolvedLineAccount l l.accountId
  return { accountId, amount := l.amount, memo := l.description
           partyId := l.partyId <|> doc.partyId, dims := dims doc l }

/-- Cash refund: the reverse of a cash sale, each tender paid out of its own
account. -/
def cashRefundRule (doc : Doc) (lines : List DocLine) (deps : PostingDeps) :
    Except PostingError (List KernelLine) := do
  let income ← lines.mapM (cashRefundIncome doc)
  let tax ← salesTaxLines doc lines deps .negative
  let incomeAndTax := legTotal (income ++ tax)
  let tenders := deps.cashTenders
  assertCashTendersPresent tenders |incomeAndTax| doc.documentNumber "cash refund"
  if tenders = [] then
    settledAtNoCharge doc lines (income ++ tax) deps .negative "cash refund"
  else do
    assertTendersMatchTotal tenders incomeAndTax doc.documentNumber "cash refund"
    return tenders.map (tenderLeg doc .negative) ++ income ++ tax

end OpenBooks
