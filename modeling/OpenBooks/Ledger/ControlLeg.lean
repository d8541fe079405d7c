import OpenBooks.Ledger.Rules

/-!
# The control leg is the document

A rule derives its control leg from the legs it happened to emit; the document shows the customer or
the vendor the sum of its lines' amounts and stored taxes. The two are computed by different
formulas – tax legs by calculation type, collector and recoverability, stored tax as one number per
line – and `RULES_settled` is that they agree: for every non-cash kind the legs balance, and the
control legs are those of `controlLegs`, whose amounts read the lines and nothing else.
-/

namespace OpenBooks

open Checked List

/-- What a document totals: amount and tax of every line. -/
def documentTotal (lines : List DocLine) : ℤ := (lines.map lineTotal).sum

/-! ### The control legs of a document -/

/-- The control legs a document is settled by, kind by kind, with the amounts the
document itself shows: the sums of its lines. -/
def controlLegs (kind : DocKind) (doc : Doc) (lines : List DocLine) (deps : PostingDeps) :
    List KernelLine :=
  let total := documentTotal lines
  match kind with
  | .vendorBill =>
    [{ accountId := (controlOverride doc).getD deps.control.ap, amount := -total
       partyId := doc.partyId, dueDate := doc.dueDate, isOpenItem := true, dims := dims doc none }]
  | .vendorCredit =>
    [{ accountId := (controlOverride doc).getD deps.control.ap, amount := total
       partyId := doc.partyId, dueDate := doc.dueDate, isOpenItem := true, dims := dims doc none }]
  | .customerInvoice =>
    [{ accountId := (controlOverride doc).getD deps.control.ar, amount := total
       partyId := doc.partyId, dueDate := doc.dueDate, isOpenItem := true, dims := dims doc none }]
  | .customerCredit => [customerCreditLeg doc deps (-total)]
  | .check =>
    [{ accountId := (controlOverride doc).getD deps.control.bank, amount := -total
       dims := dims doc none }]
  | .cardCharge | .cardRefund =>
    [{ accountId := (controlOverride doc <|> deps.cardLiabilityAccountId).getD "", amount := -total
       paymentCardId := doc.paymentCardId, dims := dims doc none }]
  | .expenseReport =>
    employeePayableLegs doc deps (documentTotal (settledAs .outOfPocket lines)) ++
      cardClearingLegs doc deps
        (documentTotal (settledAs .companyPaid lines) + documentTotal (settledAs .personal lines))
  | .cashSale | .cashRefund => []

/-- Where a kind puts its control legs: after the detail, or in front of it. -/
def arrange (kind : DocKind) (detail control : List KernelLine) : List KernelLine :=
  match kind with
  | .vendorCredit | .customerInvoice | .customerCredit => control ++ detail
  | _ => detail ++ control

/-- An entry settles its document: it balances, and its control legs are the
document's. -/
structure Settled (kind : DocKind) (doc : Doc) (lines : List DocLine) (deps : PostingDeps)
    (out : List KernelLine) : Prop where
  balanced : legTotal out = 0
  control : ∃ detail, out = arrange kind detail (controlLegs kind doc lines deps)

variable {doc : Doc} {deps : PostingDeps} {lines : List DocLine}

/-! ### Detail legs -/

section Detail

variable {l : DocLine} {leg : KernelLine}

theorem vendorBillExpense_eq_ok (h : vendorBillExpense doc deps l = .ok leg) :
    leg.amount = purchaseBasis deps l ∧ leg.taxCodeId = none := by
  simp only [vendorBillExpense, bind_eq_ok, pure_eq_ok] at h
  obtain ⟨_, -, base, hbase, rfl⟩ := h
  exact ⟨purchaseBaseAmount_eq_ok hbase, rfl⟩

theorem cardExpense_eq_ok (h : cardExpense doc deps l = .ok leg) :
    leg.amount = purchaseBasis deps l := by
  simp only [cardExpense, bind_eq_ok, pure_eq_ok] at h
  obtain ⟨_, -, base, hbase, rfl⟩ := h
  exact purchaseBaseAmount_eq_ok hbase

theorem checkExpense_eq_ok (h : checkExpense doc deps l = .ok leg) :
    leg.amount = purchaseBasis deps l := by
  simp only [checkExpense, bind_eq_ok, pure_eq_ok] at h
  obtain ⟨_, -, base, hbase, rfl⟩ := h
  exact purchaseBaseAmount_eq_ok hbase

theorem vendorCreditExpense_eq_ok (h : vendorCreditExpense doc deps l = .ok leg) :
    leg.amount = -purchaseBasis deps l ∧ leg.taxCodeId = none := by
  simp only [vendorCreditExpense, bind_eq_ok, pure_eq_ok] at h
  obtain ⟨_, -, base, hbase, rfl⟩ := h
  exact ⟨congrArg Neg.neg (purchaseBaseAmount_eq_ok hbase), rfl⟩

theorem bookExpense_eq_ok {cardStamp : Bool} (h : bookExpense doc deps cardStamp l = .ok leg) :
    leg.amount = purchaseBasis deps l := by
  simp only [bookExpense, bind_eq_ok, pure_eq_ok] at h
  obtain ⟨_, -, base, hbase, rfl⟩ := h
  exact purchaseBaseAmount_eq_ok hbase

theorem personalDebit_eq_ok {receivable : String} (hs : SplitsExact deps)
    (h : personalDebit doc deps receivable l = .ok leg) : leg.amount = lineTotal l := by
  simp only [personalDebit, bind_eq_ok, pure_eq_ok] at h
  obtain ⟨amount, hamount, rfl⟩ := h
  exact personalReceivableAmount_total hs hamount

theorem salesIncome_eq_ok {account subsidiaryId : Option String} {legs : List KernelLine}
    (h : salesIncome doc deps l account subsidiaryId = .ok legs) :
    legTotal legs = -l.amount ∧ ∀ leg ∈ legs, leg.taxCodeId = none := by
  cases hagency : deps.agencyByLine l.id with
  | some agency =>
    simp only [salesIncome, hagency, bind_eq_ok, pure_eq_ok] at h
    obtain ⟨_, -, rfl⟩ := h
    refine ⟨?_, by simp⟩
    simp only [legTotal_cons, legTotal_nil]
    omega
  | none =>
    simp only [salesIncome, hagency, bind_eq_ok, pure_eq_ok] at h
    obtain ⟨_, -, rfl⟩ := h
    exact ⟨by simp, by simp⟩

theorem cashRefundIncome_eq_ok (h : cashRefundIncome doc l = .ok leg) :
    leg.amount = l.amount ∧ leg.taxCodeId = none := by
  simp only [cashRefundIncome, bind_eq_ok, pure_eq_ok] at h
  obtain ⟨_, -, rfl⟩ := h
  exact ⟨rfl, rfl⟩

end Detail

/-! ### What detail and tax total together -/

section Totals

variable {tax : List KernelLine}

theorem purchase_total (direction : Direction) {expense : List KernelLine}
    {f : DocLine → Except PostingError KernelLine} (hs : SplitsExact deps)
    (hf : ∀ l leg, f l = .ok leg → leg.amount = signed (purchaseBasis deps l) direction)
    (hexpense : lines.mapM f = .ok expense)
    (htax : purchaseTaxLines doc lines deps direction = .ok tax) :
    legTotal (expense ++ tax) = signed (documentTotal lines) direction := by
  have hbasis : legTotal expense = signed (lines.map (purchaseBasis deps)).sum direction := by
    rw [← sum_map_signed]
    exact mapM_sum hexpense KernelLine.amount _ fun l _ leg hleg => hf l leg hleg
  rw [legTotal_append, hbasis, purchaseTaxLines_total hs htax, ← signed_add, documentTotal]
  congr 1
  omega

theorem documentTotal_eq (lines : List DocLine) :
    documentTotal lines = (lines.map DocLine.amount).sum +
      (lines.map fun l => l.taxAmount.getD 0).sum :=
  sum_map_add

/-- Income and tax legs of a sale total the document, as a credit in its
direction. -/
theorem sales_total (direction : Direction) {income : List KernelLine}
    (hincome : legTotal income = signed (-(lines.map DocLine.amount).sum) direction)
    (htax : salesTaxLines doc lines deps direction = .ok tax) :
    legTotal (income ++ tax) = signed (-documentTotal lines) direction := by
  rw [legTotal_append, hincome, salesTaxLines_total htax, ← signed_add, documentTotal_eq]
  congr 1
  omega

end Totals

/-! ### Rule by rule -/

section Rules

variable {out : List KernelLine}

theorem vendorBill_settled (hs : SplitsExact deps) (h : vendorBillRule doc lines deps = .ok out) :
    Settled .vendorBill doc lines deps out := by
  simp only [vendorBillRule, bind_eq_ok, pure_eq_ok] at h
  obtain ⟨expense, hexpense, tax, htax, rfl⟩ := h
  have htotal : legTotal (expense ++ tax) = documentTotal lines :=
    purchase_total .positive hs (fun l leg hleg => (vendorBillExpense_eq_ok hleg).1) hexpense htax
  refine ⟨?_, expense ++ tax, ?_⟩
  · rw [legTotal_append]
    simp
  · rw [htotal]
    rfl

theorem card_settled {kind : DocKind} (hk : kind = .cardCharge ∨ kind = .cardRefund)
    (hs : SplitsExact deps) (h : cardRule doc lines deps = .ok out) :
    Settled kind doc lines deps out := by
  simp only [cardRule, bind_eq_ok, pure_eq_ok, orRefuse_eq_ok] at h
  obtain ⟨expense, hexpense, tax, htax, card, hcard, rfl⟩ := h
  have htotal : legTotal (expense ++ tax) = documentTotal lines :=
    purchase_total .positive hs (fun l leg hleg => cardExpense_eq_ok hleg) hexpense htax
  refine ⟨?_, expense ++ tax, ?_⟩
  · rw [legTotal_append]
    simp
  · have hcard := eq_some_of_truthy hcard
    rw [htotal]
    rcases hk with rfl | rfl <;> simp only [arrange, controlLegs, hcard, Option.getD_some]

theorem check_settled (hs : SplitsExact deps) (h : checkRule doc lines deps = .ok out) :
    Settled .check doc lines deps out := by
  simp only [checkRule, bind_eq_ok, pure_eq_ok] at h
  obtain ⟨expense, hexpense, tax, htax, rfl⟩ := h
  have htotal : legTotal (expense ++ tax) = documentTotal lines :=
    purchase_total .positive hs (fun l leg hleg => checkExpense_eq_ok hleg) hexpense htax
  refine ⟨?_, expense ++ tax, ?_⟩
  · rw [legTotal_append]
    simp
  · rw [htotal]
    rfl

theorem vendorCredit_settled (hs : SplitsExact deps)
    (h : vendorCreditRule doc lines deps = .ok out) : Settled .vendorCredit doc lines deps out := by
  simp only [vendorCreditRule, bind_eq_ok, pure_eq_ok] at h
  obtain ⟨expense, hexpense, tax, htax, rfl⟩ := h
  have htotal : legTotal (expense ++ tax) = -documentTotal lines :=
    purchase_total .negative hs (fun l leg hleg => (vendorCreditExpense_eq_ok hleg).1) hexpense htax
  refine ⟨?_, expense ++ tax, ?_⟩
  · rw [legTotal_cons]
    simp
  · rw [htotal, neg_neg]
    rfl

theorem customerInvoice_settled (h : customerInvoiceRule doc lines deps = .ok out) :
    Settled .customerInvoice doc lines deps out := by
  simp only [customerInvoiceRule, bind_eq_ok, pure_eq_ok] at h
  obtain ⟨income, hincome, tax, htax, rfl⟩ := h
  have hcredit : legTotal income = (lines.map fun l => signed l.amount .negative).sum :=
    collect_sum hincome KernelLine.amount _ fun l _ legs hlegs => (salesIncome_eq_ok hlegs).1
  have htotal : legTotal (income ++ tax) = -documentTotal lines :=
    sales_total .positive (hcredit.trans (sum_map_signed _ _ _)) htax
  refine ⟨?_, income ++ tax, ?_⟩
  · rw [legTotal_cons]
    simp
  · rw [htotal, neg_neg]
    rfl

theorem customerCredit_settled (h : customerCreditRule doc lines deps = .ok out) :
    Settled .customerCredit doc lines deps out := by
  simp only [customerCreditRule, bind_eq_ok, pure_eq_ok] at h
  obtain ⟨income, hincome, tax, htax, rfl⟩ := h
  have hdebit : legTotal income = (lines.map DocLine.amount).sum :=
    mapM_sum hincome KernelLine.amount _ fun l _ leg hleg => (cashRefundIncome_eq_ok hleg).1
  have htotal : legTotal (income ++ tax) = documentTotal lines := by
    rw [sales_total .negative (hdebit.trans (neg_neg _).symm) htax]
    exact neg_neg _
  refine ⟨?_, income ++ tax, ?_⟩
  · rw [legTotal_cons, customerCreditLeg]
    split <;> simp
  · rw [htotal]
    rfl

@[simp] theorem legTotal_employeePayableLegs (doc : Doc) (deps : PostingDeps) (total : ℤ) :
    legTotal (employeePayableLegs doc deps total) = -total := by
  by_cases h : total = 0 <;> simp [employeePayableLegs, h]

@[simp] theorem legTotal_cardClearingLegs (doc : Doc) (deps : PostingDeps) (total : ℤ) :
    legTotal (cardClearingLegs doc deps total) = -total := by
  by_cases h : total = 0 <;> simp [cardClearingLegs, h]

theorem expenseReport_settled (hs : SplitsExact deps)
    (h : expenseReportRule doc lines deps = .ok out) :
    Settled .expenseReport doc lines deps out := by
  simp only [expenseReportRule, bind_eq_ok, pure_eq_ok, refuseIf_eq_ok] at h
  obtain ⟨_, -, _, -, _, -, oopExpense, hoop, oopTax, hoopTax, cardExpense, hcard, cardTax,
    hcardTax, personalLegs, hpersonal, rfl⟩ := h
  have h1 : legTotal (oopExpense ++ oopTax) = documentTotal (settledAs .outOfPocket lines) :=
    purchase_total .positive hs (fun l leg hleg => bookExpense_eq_ok hleg) hoop hoopTax
  have h2 : legTotal (cardExpense ++ cardTax) = documentTotal (settledAs .companyPaid lines) :=
    purchase_total .positive hs (fun l leg hleg => bookExpense_eq_ok hleg) hcard hcardTax
  have h3 : legTotal personalLegs = documentTotal (settledAs .personal lines) :=
    mapM_sum hpersonal KernelLine.amount _ fun l _ leg hleg => personalDebit_eq_ok hs hleg
  refine ⟨?_, oopExpense ++ oopTax ++ cardExpense ++ cardTax ++ personalLegs, ?_⟩
  · simp only [legTotal_append, legTotal_employeePayableLegs, legTotal_cardClearingLegs]
    omega
  · rw [h1, h2, h3]
    simp only [arrange, controlLegs, append_assoc]

end Rules

/-! ### Tax legs -/

/-- The tax legs of an entry: those that name a tax code. -/
def taxLegs (out : List KernelLine) : List KernelLine := out.filter fun leg => leg.taxCodeId.isSome

variable {detail : List KernelLine}

theorem taxLegs_eq_nil (h : ∀ leg ∈ detail, leg.taxCodeId = none) : taxLegs detail = [] :=
  filter_eq_nil_iff.mpr fun leg hleg => by simp [h leg hleg]

section TaxCodes

variable {line : DocLine} {direction : Direction} {c : TaxPostingComponent}
  {tax legs out : List KernelLine}

theorem purchaseComponentLegs_taxCode (h : purchaseComponentLegs doc deps direction line c = .ok legs) :
    ∀ leg ∈ legs, leg.taxCodeId.isSome := by
  by_cases hw : c.calculationType = .withholding
  · simp only [purchaseComponentLegs, hw, if_true, bind_eq_ok, pure_eq_ok] at h
    obtain ⟨id, -, rfl⟩ := h
    simp [purchaseTaxLeg]
  · simp only [purchaseComponentLegs, hw, if_false, bind_eq_ok, pure_eq_ok] at h
    obtain ⟨paid, hpaid, collected, hcollected, rfl⟩ := h
    exact forall_mem_append.mpr ⟨forall_of_legUnless hpaid fun _ => rfl,
      forall_of_legUnless hcollected fun _ => rfl⟩

theorem purchaseTaxLines_taxCode (h : purchaseTaxLines doc lines deps direction = .ok tax) :
    ∀ leg ∈ tax, leg.taxCodeId.isSome := by
  refine forall_of_collect h fun l zs hzs => ?_
  simp only [purchaseLineLegs, bind_eq_ok] at hzs
  obtain ⟨components, -, hzs⟩ := hzs
  exact forall_of_collect hzs fun c legs hlegs => purchaseComponentLegs_taxCode hlegs

theorem salesComponentLegs_taxCode (h : salesComponentLegs doc deps direction line c = .ok legs) :
    ∀ leg ∈ legs, leg.taxCodeId.isSome := by
  by_cases hm : c.collectedBy = .marketplace
  · simp only [salesComponentLegs, hm, if_true, bind_eq_ok, pure_eq_ok] at h
    obtain ⟨_, -, clearing, -, rfl⟩ := h
    cases clearing.mode <;> simp [salesTaxLeg]
  · cases hc : c.calculationType with
    | reverseCharge =>
      simp only [salesComponentLegs, hm, hc, if_false, Except.ok.injEq] at h
      simp [← h]
    | withholding | standard =>
      simp only [salesComponentLegs, hm, hc, if_false, bind_eq_ok, pure_eq_ok] at h
      obtain ⟨id, -, rfl⟩ := h
      simp [salesTaxLeg]

theorem salesTaxLines_taxCode (h : salesTaxLines doc lines deps direction = .ok tax) :
    ∀ leg ∈ tax, leg.taxCodeId.isSome := by
  refine forall_of_collect h fun l zs hzs => ?_
  simp only [salesLineLegs, bind_eq_ok] at hzs
  obtain ⟨components, -, hzs⟩ := hzs
  exact forall_of_collect hzs fun c legs hlegs => salesComponentLegs_taxCode hlegs

theorem taxLegs_append {control : List KernelLine}
    (hdetail : ∀ leg ∈ detail, leg.taxCodeId = none) (htax : ∀ leg ∈ tax, leg.taxCodeId.isSome)
    (hcontrol : ∀ leg ∈ control, leg.taxCodeId = none) :
    taxLegs (detail ++ tax ++ control) = tax ∧ taxLegs (control ++ (detail ++ tax)) = tax := by
  have hd := taxLegs_eq_nil hdetail
  have hc := taxLegs_eq_nil hcontrol
  have ht : taxLegs tax = tax := filter_eq_self.mpr htax
  simp only [taxLegs, filter_append] at hd hc ht ⊢
  simp [hd, hc, ht]

theorem taxLegs_vendorBill (h : vendorBillRule doc lines deps = .ok out) :
    purchaseTaxLines doc lines deps .positive = .ok (taxLegs out) := by
  simp only [vendorBillRule, bind_eq_ok, pure_eq_ok] at h
  obtain ⟨expense, hexpense, tax, htax, rfl⟩ := h
  have hdetail := forall_of_mapM hexpense fun l leg hleg => (vendorBillExpense_eq_ok hleg).2
  rw [(taxLegs_append hdetail (purchaseTaxLines_taxCode htax) (by simp)).1, htax]

theorem taxLegs_vendorCredit (h : vendorCreditRule doc lines deps = .ok out) :
    purchaseTaxLines doc lines deps .negative = .ok (taxLegs out) := by
  simp only [vendorCreditRule, bind_eq_ok, pure_eq_ok] at h
  obtain ⟨expense, hexpense, tax, htax, rfl⟩ := h
  have hdetail := forall_of_mapM hexpense fun l leg hleg => (vendorCreditExpense_eq_ok hleg).2
  rw [← singleton_append,
    (taxLegs_append hdetail (purchaseTaxLines_taxCode htax) (by simp)).2, htax]

theorem taxLegs_customerInvoice (h : customerInvoiceRule doc lines deps = .ok out) :
    salesTaxLines doc lines deps .positive = .ok (taxLegs out) := by
  simp only [customerInvoiceRule, bind_eq_ok, pure_eq_ok] at h
  obtain ⟨income, hincome, tax, htax, rfl⟩ := h
  have hdetail := forall_of_collect hincome fun l legs hlegs =>
    (salesIncome_eq_ok hlegs).2
  rw [← singleton_append, (taxLegs_append hdetail (salesTaxLines_taxCode htax) (by simp)).2, htax]

theorem taxLegs_customerCredit (h : customerCreditRule doc lines deps = .ok out) :
    salesTaxLines doc lines deps .negative = .ok (taxLegs out) := by
  simp only [customerCreditRule, bind_eq_ok, pure_eq_ok] at h
  obtain ⟨income, hincome, tax, htax, rfl⟩ := h
  have hdetail := forall_of_mapM hincome fun l leg hleg => (cashRefundIncome_eq_ok hleg).2
  have hcontrol : ∀ leg ∈ [customerCreditLeg doc deps (-legTotal (income ++ tax))],
      leg.taxCodeId = none := by
    rw [customerCreditLeg]
    split <;> simp
  rw [← singleton_append, (taxLegs_append hdetail (salesTaxLines_taxCode htax) hcontrol).2, htax]

end TaxCodes

/-! ### The theorem -/

/-- **The control leg is the document.** For every non-cash kind a returned entry
balances and its control legs are those of the document's own totals; and the tax
legs of a credit memo are those of its bill or invoice, negated one by one under
the same tax codes. -/
theorem RULES_settled (doc : Doc) (lines : List DocLine) (deps : PostingDeps)
    (hs : SplitsExact deps) :
    (∀ kind out, kind ≠ .cashSale → kind ≠ .cashRefund → RULES kind doc lines deps = .ok out →
      Settled kind doc lines deps out) ∧
    (∀ bill credit, RULES .vendorBill doc lines deps = .ok bill →
      RULES .vendorCredit doc lines deps = .ok credit →
      taxLegs credit = (taxLegs bill).map KernelLine.negated) ∧
    (∀ invoice credit, RULES .customerInvoice doc lines deps = .ok invoice →
      RULES .customerCredit doc lines deps = .ok credit →
      taxLegs credit = (taxLegs invoice).map KernelLine.negated) := by
  refine ⟨fun kind out hsale hrefund h => ?_, fun bill credit hb hc => ?_,
    fun invoice credit hi hc => ?_⟩
  · cases kind with
    | vendorBill => exact vendorBill_settled hs h
    | customerInvoice => exact customerInvoice_settled h
    | cashSale => exact absurd rfl hsale
    | expenseReport => exact expenseReport_settled hs h
    | cardCharge => exact card_settled (.inl rfl) hs h
    | cardRefund => exact card_settled (.inr rfl) hs h
    | check => exact check_settled hs h
    | vendorCredit => exact vendorCredit_settled hs h
    | customerCredit => exact customerCredit_settled h
    | cashRefund => exact absurd rfl hrefund
  · have hneg := taxLegs_vendorCredit hc
    rw [purchaseTaxLines_negative, taxLegs_vendorBill hb] at hneg
    exact (Except.ok.inj hneg).symm
  · have hneg := taxLegs_customerCredit hc
    rw [salesTaxLines_negative, taxLegs_customerInvoice hi] at hneg
    exact (Except.ok.inj hneg).symm

/-- A line of 100.00 with 13.00 of tax. -/
def taxedLine : DocLine :=
  { id := "line", lineNumber := 1, amount := 1000000, taxAmount := some 130000
    accountId := some "6000", taxCodeId := some "hst" }

/-- Dependencies that split the tax of `taxedLine` into 8.00 recoverable
and 5.00 not. -/
def taxedDeps : PostingDeps where
  control := { ar := "1200", ap := "2000", bank := "1000" }
  taxComponentsByLine id := if id = "line" then
      some [{ taxCodeId := "hst", collectedBy := .merchant, taxAmount := 130000
              recoverableAmount := 80000, nonrecoverableAmount := 50000
              calculationType := .standard, collectedAccountId := some "2310"
              paidAccountId := some "2320" }]
    else none

theorem taxedDeps_splitsExact : SplitsExact taxedDeps := by
  intro id components h c hc
  simp only [taxedDeps] at h
  split at h
  · obtain rfl := Option.some.inj h
    rw [mem_singleton.mp hc]
    rfl
  · cases h

/-- `RULES_settled` on one taxed line, as a bill, an invoice and their
credit memos. -/
theorem RULES_settled_taxedLine :
    ∃ bill credit invoice memo,
      RULES .vendorBill { documentNumber := "D-1" } [taxedLine] taxedDeps = .ok bill ∧
      RULES .vendorCredit { documentNumber := "D-1" } [taxedLine] taxedDeps = .ok credit ∧
      RULES .customerInvoice { documentNumber := "D-1" } [taxedLine] taxedDeps = .ok invoice ∧
      RULES .customerCredit { documentNumber := "D-1" } [taxedLine] taxedDeps = .ok memo ∧
      Settled .vendorBill { documentNumber := "D-1" } [taxedLine] taxedDeps bill ∧
      taxLegs credit = (taxLegs bill).map KernelLine.negated ∧
      taxLegs memo = (taxLegs invoice).map KernelLine.negated := by
  obtain ⟨hkind, hpurchase, hsales⟩ :=
    RULES_settled { documentNumber := "D-1" } [taxedLine] taxedDeps taxedDeps_splitsExact
  exact ⟨_, _, _, _, rfl, rfl, rfl, rfl, hkind .vendorBill _ (by decide) (by decide) rfl,
    hpurchase _ _ rfl rfl, hsales _ _ rfl rfl⟩

end OpenBooks
