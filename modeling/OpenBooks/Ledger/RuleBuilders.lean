import OpenBooks.Ledger.TaxPolicy
import OpenBooks.Lib.ListSum

/-!
# Kernel line builders

The parts the posting rules share: account resolution, dimensions, the tax legs of
a purchase and of a sale, and the amounts an expense line books. Each builder has
one lemma saying what its legs total; the rules are then sums of these.

Tax is written twice on a purchase – the nonrecoverable part inside the expense
leg (`purchaseBaseAmount`), the rest on its own legs
(`purchaseTaxLines`) – and once on a sale (`salesTaxLines`).
In both directions what a line's components total is what they settle
(`settles`), which is how the control leg comes to be the document.
-/

namespace OpenBooks

open Checked ListSum List

/-! ### Accounts, dimensions and signs -/

/-- Resolve a document line's posting account. -/
def resolvedLineAccount (line : DocLine) (resolved : Option String) :
    Except PostingError String :=
  orRefuse (truthy resolved) ⟨s!"document line {line.lineNumber} has no resolvable account"⟩

/-- The payable, receivable, card or bank account the header names for itself. -/
def controlOverride (doc : Doc) : Option String := truthy doc.controlAccountId

/-- The dimensions of a leg: the line's, with the header's where the line has
none. -/
def dims (d : Doc) (l : Option DocLine) : Dims where
  departmentId := l.bind DocLine.departmentId <|> d.departmentId
  projectId := l.bind DocLine.projectId <|> d.projectId
  locationId := l.bind DocLine.locationId <|> d.locationId
  classId := l.bind DocLine.classId <|> d.classId
  equipmentUnitId := l.bind DocLine.equipmentUnitId
  extraDims := spread d.extraDims ((l.map DocLine.extraDims).getD [])

/-- The dimensions of a tax-control leg: project and equipment are cleared, since
the leg settles with an authority and is not project cost. -/
def taxControlDims (d : Doc) (l : DocLine) : Dims where
  departmentId := l.departmentId <|> d.departmentId
  projectId := none
  locationId := l.locationId <|> d.locationId
  classId := l.classId <|> d.classId
  equipmentUnitId := none
  extraDims := spread d.extraDims l.extraDims

/-- The direction a document books in: a bill or invoice, or its reversal. -/
inductive Direction
  | positive
  | negative
  deriving DecidableEq

def signed (amount : ℤ) : Direction → ℤ
  | .positive => amount
  | .negative => -amount

/-- Tender-leg memo: the method label and the operator's reference, if any. -/
def tenderMemo (t : CashPostingTender) : Option String :=
  match truthy t.reference with
  | some reference => some s!"{t.methodLabel} {reference}"
  | none => some t.methodLabel

/-- Marks a leg that defers its line through an amortization template. -/
def amortizationSource (l : DocLine) (deps : PostingDeps) : Option String :=
  (deps.amortizationByLine l.id).map fun _ => l.id

/-- An entity-bearing leg on an open-item account is an open item. -/
def controlLineIsOpenItem (accountId : String) (partyId : Option String) (deps : PostingDeps) :
    Bool :=
  partyId.isSome && deps.openItemAccountIds accountId

/-! ### Who fronted the money -/

/-- Who fronted the money for an expense line. -/
inductive ExpenseSettlement
  | outOfPocket
  | companyPaid
  | personal
  deriving DecidableEq

/-- The settlement of an expense line; anything outside the stored values fails
closed. -/
def settlementOf (line : DocLine) : Except PostingError ExpenseSettlement :=
  match line.settlementType.getD "out_of_pocket" with
  | "out_of_pocket" => .ok .outOfPocket
  | "company_paid" => .ok .companyPaid
  | "personal" => .ok .personal
  | s => .error ⟨s!"document line {line.lineNumber} has unknown settlement type {jsonString s}"⟩

/-! ### Purchases -/

/-- Expense and inventory basis: the net amount and the nonrecoverable tax. -/
def purchaseBaseAmount (line : DocLine) (deps : PostingDeps) : Except PostingError ℤ := do
  let components ← componentsForLine line deps false
  let nonrecoverable := ((components.filter fun c => c.calculationType ≠ .withholding).map
    TaxPostingComponent.nonrecoverableAmount).sum
  return line.amount + nonrecoverable

/-- One leg on a resolved account, left out when `skip` holds. -/
def legUnless (skip : Prop) [Decidable skip] (accountId : Except PostingError String)
    (leg : String → KernelLine) : Except PostingError (List KernelLine) :=
  if skip then .ok [] else (fun id => [leg id]) <$> accountId

/-- A tax leg of a purchase line, before its account and its amount. -/
def purchaseTaxLeg (doc : Doc) (line : DocLine) (c : TaxPostingComponent) (accountId : String)
    (amount : ℤ) : KernelLine where
  accountId := accountId
  amount := amount
  taxCodeId := c.taxCodeId
  partyId := line.partyId <|> doc.partyId
  dims := taxControlDims doc line

variable (doc : Doc)

@[simp] theorem purchaseTaxLeg_amount (line : DocLine) (c : TaxPostingComponent)
    (accountId : String) (amount : ℤ) :
    (purchaseTaxLeg doc line c accountId amount).amount = amount := rfl

/-- The tax legs of one purchase component: recoverable input tax, the withholding
payable, and the output liability of a reverse charge. -/
def purchaseComponentLegs (doc : Doc) (deps : PostingDeps) (direction : Direction)
    (line : DocLine) (c : TaxPostingComponent) : Except PostingError (List KernelLine) :=
  let leg := purchaseTaxLeg doc line c
  if c.calculationType = .withholding then do
    let accountId ← assertTaxControlAccount c deps .withholding
    return [leg accountId (signed (-c.taxAmount) direction)]
  else do
    let paid ← legUnless (c.recoverableAmount = 0) (assertTaxControlAccount c deps .paid)
      fun id => leg id (signed c.recoverableAmount direction)
    let collected ← legUnless (¬(c.calculationType = .reverseCharge ∧ c.taxAmount ≠ 0))
      (assertTaxControlAccount c deps .collected)
      fun id => leg id (signed (-c.taxAmount) direction)
    return paid ++ collected

def purchaseLineLegs (doc : Doc) (deps : PostingDeps) (direction : Direction) (line : DocLine) :
    Except PostingError (List KernelLine) := do
  collect (purchaseComponentLegs doc deps direction line) (← componentsForLine line deps false)

def purchaseTaxLines (doc : Doc) (lines : List DocLine) (deps : PostingDeps)
    (direction : Direction) : Except PostingError (List KernelLine) :=
  collect (purchaseLineLegs doc deps direction) lines

/-- The refusal of a personal line with tax that is not standard. -/
def personalTaxRefused (line : DocLine) (c : TaxPostingComponent) : PostingError :=
  ⟨s!"personal expense line {line.lineNumber} cannot carry {c.calculationType.text} tax"⟩

/-- What a component of a personal line adds to the receivable beyond the expense
basis. -/
def personalRecoverable (line : DocLine) (c : TaxPostingComponent) : Except PostingError ℤ := do
  refuseIf (c.calculationType ≠ .standard) (personalTaxRefused line c)
  return c.recoverableAmount

/-- What a personal line debits to the employee receivable: net, nonrecoverable
and recoverable tax. Only standard calculation is supportable. -/
def personalReceivableAmount (line : DocLine) (deps : PostingDeps) :
    Except PostingError ℤ := do
  let components ← componentsForLine line deps false
  let recoverable ← components.mapM (personalRecoverable line)
  return (← purchaseBaseAmount line deps) + recoverable.sum

/-! ### Sales -/

/-- A tax leg of a sales line, before its account and its amount; it follows the
line's legal entity. -/
def salesTaxLeg (doc : Doc) (line : DocLine) (c : TaxPostingComponent) (accountId : String)
    (amount : ℤ) : KernelLine where
  accountId := accountId
  amount := amount
  taxCodeId := c.taxCodeId
  partyId := line.partyId <|> doc.partyId
  subsidiaryId := line.subsidiaryId
  dims := taxControlDims doc line

@[simp] theorem salesTaxLeg_amount (line : DocLine) (c : TaxPostingComponent)
    (accountId : String) (amount : ℤ) :
    (salesTaxLeg doc line c accountId amount).amount = amount := rfl

/-- The tax legs of one sales component: the output liability, the withholding
receivable, or the facilitator's clearing. -/
def salesComponentLegs (doc : Doc) (deps : PostingDeps) (direction : Direction)
    (line : DocLine) (c : TaxPostingComponent) : Except PostingError (List KernelLine) :=
  let leg := salesTaxLeg doc line c
  if c.collectedBy = .marketplace then do
    refuseIf (c.calculationType ≠ .standard) (marketplaceNotStandard line c)
    let clearing ← orRefuse (deps.marketplaceClearingByName (c.facilitatorName.getD ""))
      (marketplaceUnconfigured line c)
    return match clearing.mode with
      | .net => []
      | .gross => [leg clearing.accountId (signed (-c.taxAmount) direction)]
  else match c.calculationType with
    | .reverseCharge => .ok []
    | .withholding => do
      let accountId ← assertTaxControlAccount c deps .withholding
      return [leg accountId (signed c.taxAmount direction)]
    | .standard => do
      let accountId ← assertTaxControlAccount c deps .collected
      return [leg accountId (signed (-c.taxAmount) direction)]

def salesLineLegs (doc : Doc) (deps : PostingDeps) (direction : Direction) (line : DocLine) :
    Except PostingError (List KernelLine) := do
  collect (salesComponentLegs doc deps direction line) (← componentsForLine line deps true)

def salesTaxLines (doc : Doc) (lines : List DocLine) (deps : PostingDeps)
    (direction : Direction) : Except PostingError (List KernelLine) :=
  collect (salesLineLegs doc deps direction) lines

/-! ### What the builders total -/

/-- The recoverable and the nonrecoverable part of every stored component make up
its tax. -/
def SplitsExact (deps : PostingDeps) : Prop :=
  ∀ id components, deps.taxComponentsByLine id = some components →
    ∀ c ∈ components, c.recoverableAmount + c.nonrecoverableAmount = c.taxAmount

/-- The part of a purchase component that the expense leg carries. -/
def capitalized (c : TaxPostingComponent) : ℤ :=
  if c.calculationType = .withholding then 0 else c.nonrecoverableAmount

theorem sum_filter_capitalized (cs : List TaxPostingComponent) :
    ((cs.filter fun c => c.calculationType ≠ .withholding).map
      TaxPostingComponent.nonrecoverableAmount).sum = (cs.map capitalized).sum := by
  induction cs with
  | nil => rfl
  | cons c cs ih =>
    by_cases h : c.calculationType = .withholding
    · rw [filter_cons_of_neg (by simp [h]), ih]
      simp [capitalized, h]
    · rw [filter_cons_of_pos (by simp [h]), map_cons, sum_cons, ih]
      simp [capitalized, h]

variable {line : DocLine} {deps : PostingDeps} {components : List TaxPostingComponent}

theorem splits_of_componentsForLine (hs : SplitsExact deps) {salesSide : Bool}
    (h : componentsForLine line deps salesSide = .ok components) :
    ∀ c ∈ components, c.recoverableAmount + c.nonrecoverableAmount = c.taxAmount := by
  obtain ⟨hget, -⟩ := componentsForLine_eq_ok h
  cases hl : deps.taxComponentsByLine line.id with
  | none =>
    rw [hl] at hget
    rw [← hget]
    simp
  | some cs =>
    rw [hl] at hget
    exact hget ▸ hs _ _ hl

@[simp] theorem signed_zero (direction : Direction) : signed 0 direction = 0 := by
  cases direction <;> rfl

theorem signed_add (a b : ℤ) (direction : Direction) :
    signed (a + b) direction = signed a direction + signed b direction := by
  cases direction
  · rfl
  · exact neg_add a b

variable {legs : List KernelLine}
  {accountId : Except PostingError String} {leg : String → KernelLine}

/-- A leg that is left out exactly when there is nothing to book totals what it
would book. -/
theorem legUnless_total {skip : Prop} [Decidable skip] {m : ℤ}
    (h : legUnless skip accountId leg = .ok legs) (hm : ∀ id, (leg id).amount = m)
    (hskip : skip → m = 0) : legTotal legs = m := by
  by_cases hs : skip
  · rw [legUnless, if_pos hs, Except.ok.injEq] at h
    rw [← h, hskip hs, legTotal_nil]
  · rw [legUnless, if_neg hs, map_eq_ok] at h
    obtain ⟨id, -, rfl⟩ := h
    simp [hm]

theorem forall_of_legUnless {skip : Prop} [Decidable skip] {P : KernelLine → Prop}
    (h : legUnless skip accountId leg = .ok legs) (hP : ∀ id, P (leg id)) : ∀ l ∈ legs, P l := by
  by_cases hs : skip
  · rw [legUnless, if_pos hs, Except.ok.injEq] at h
    simp [← h]
  · rw [legUnless, if_neg hs, map_eq_ok] at h
    obtain ⟨id, -, rfl⟩ := h
    simpa using hP id

variable {direction : Direction} {c : TaxPostingComponent}

/-- The legs of a purchase component total what it settles, less what the expense
leg carries. -/
theorem purchaseComponentLegs_total {doc : Doc}
    (h : purchaseComponentLegs doc deps direction line c = .ok legs)
    (hm : c.collectedBy = .merchant)
    (hs : c.recoverableAmount + c.nonrecoverableAmount = c.taxAmount) :
    legTotal legs = signed (settles deps c - capitalized c) direction := by
  simp only [settles, hm, capitalized]
  by_cases hw : c.calculationType = .withholding
  · simp only [purchaseComponentLegs, hw, if_true, bind_eq_ok, pure_eq_ok] at h
    obtain ⟨id, -, rfl⟩ := h
    simp [hw]
  · simp only [purchaseComponentLegs, hw, if_false, bind_eq_ok, pure_eq_ok] at h
    obtain ⟨paid, hpaid, collected, hcollected, rfl⟩ := h
    have h1 : legTotal paid = signed c.recoverableAmount direction :=
      legUnless_total hpaid (fun _ => rfl) fun h0 => by rw [h0, signed_zero]
    cases hc : c.calculationType with
    | withholding => exact absurd hc hw
    | standard =>
      -- the reverse-charge leg is skipped
      have h2 : collected = [] := by
        simpa [legUnless, hc, eq_comm] using hcollected
      rw [legTotal_append, h1, h2, legTotal_nil, add_zero]
      congr 1
      simp only [reduceCtorEq, if_false]
      omega
    | reverseCharge =>
      have h2 : legTotal collected = signed (-c.taxAmount) direction :=
        legUnless_total hcollected (fun _ => rfl) fun h0 => by
          have : c.taxAmount = 0 := by simpa [hc] using h0
          rw [this, neg_zero, signed_zero]
      rw [legTotal_append, h1, h2, ← signed_add]
      congr 1
      simp only [reduceCtorEq, if_false]
      omega

theorem salesComponentLegs_total {doc : Doc}
    (h : salesComponentLegs doc deps direction line c = .ok legs) :
    legTotal legs = signed (-settles deps c) direction := by
  cases hm : c.collectedBy with
  | marketplace =>
    simp only [salesComponentLegs, hm, if_true, bind_eq_ok, refuseIf_eq_ok, orRefuse_eq_ok,
      pure_eq_ok] at h
    obtain ⟨_, -, clearing, hcl, rfl⟩ := h
    cases hmode : clearing.mode <;> simp [settles, hm, hcl, hmode]
  | merchant =>
    cases hc : c.calculationType with
    | reverseCharge =>
      simp only [salesComponentLegs, hm, hc, reduceCtorEq, if_false, Except.ok.injEq] at h
      simp [← h, settles, hm, hc]
    | withholding | standard =>
      simp only [salesComponentLegs, hm, hc, reduceCtorEq, if_false, bind_eq_ok, pure_eq_ok] at h
      obtain ⟨id, -, rfl⟩ := h
      simp [settles, hm, hc]

/-! ### What a line totals -/

theorem sum_map_signed {α : Type} (f : α → ℤ) (direction : Direction) (xs : List α) :
    (xs.map fun x => signed (f x) direction).sum = signed (xs.map f).sum direction := by
  induction xs with
  | nil => simp
  | cons x xs ih => rw [map_cons, sum_cons, ih, map_cons, sum_cons, signed_add]

/-- The part of a purchase line that its expense leg carries: the net amount and
the tax that is not recoverable. -/
def purchaseBasis (deps : PostingDeps) (line : DocLine) : ℤ :=
  line.amount + (((deps.taxComponentsByLine line.id).getD []).map capitalized).sum

theorem purchaseBaseAmount_eq_ok {base : ℤ} (h : purchaseBaseAmount line deps = .ok base) :
    base = purchaseBasis deps line := by
  simp only [purchaseBaseAmount, bind_eq_ok, pure_eq_ok] at h
  obtain ⟨components, hcomp, rfl⟩ := h
  obtain ⟨hget, -⟩ := componentsForLine_eq_ok hcomp
  rw [sum_filter_capitalized, purchaseBasis, hget]

/-- **The tax legs of a purchase line book what its expense leg leaves**: the two
together are amount and tax. -/
theorem purchaseLineLegs_total {doc : Doc} (hs : SplitsExact deps)
    (h : purchaseLineLegs doc deps direction line = .ok legs) :
    legTotal legs = signed (lineTotal line - purchaseBasis deps line) direction := by
  simp only [purchaseLineLegs, bind_eq_ok] at h
  obtain ⟨components, hcomp, hlegs⟩ := h
  obtain ⟨hget, hmerchant, -⟩ := componentsForLine_eq_ok hcomp
  have hsplit := splits_of_componentsForLine hs hcomp
  have htotal : legTotal legs =
      (components.map fun c => signed (settles deps c - capitalized c) direction).sum :=
    collect_sum hlegs KernelLine.amount _ fun c hc ls hls =>
      purchaseComponentLegs_total hls (hmerchant rfl c hc) (hsplit c hc)
  rw [htotal, sum_map_signed, sum_map_sub, sum_settles_of_componentsForLine hcomp, lineTotal,
    purchaseBasis, hget]
  congr 1
  omega

/-- **A sales line credits exactly its stored tax.** -/
theorem salesLineLegs_total {doc : Doc} (h : salesLineLegs doc deps direction line = .ok legs) :
    legTotal legs = signed (-line.taxAmount.getD 0) direction := by
  simp only [salesLineLegs, bind_eq_ok] at h
  obtain ⟨components, hcomp, hlegs⟩ := h
  have htotal : legTotal legs = (components.map fun c => signed (-settles deps c) direction).sum :=
    collect_sum hlegs KernelLine.amount _ fun c _ ls hls => salesComponentLegs_total hls
  have hneg := sum_map_signed (settles deps) .negative components
  rw [htotal, sum_map_signed, ← sum_settles_of_componentsForLine hcomp]
  exact congrArg (signed · direction) hneg

/-- Every component of an accepted personal line is standard, so what is
recoverable is what it settles less what the expense basis carries. -/
theorem recoverable_eq_settles (deps : PostingDeps) {recoverable : List ℤ}
    (hmerchant : ∀ c ∈ components, c.collectedBy = .merchant)
    (hsplit : ∀ c ∈ components, c.recoverableAmount + c.nonrecoverableAmount = c.taxAmount)
    (h : components.mapM (personalRecoverable line) = .ok recoverable) :
    recoverable.sum = (components.map fun c => settles deps c - capitalized c).sum := by
  have h' := mapM_eq_ok.mp h
  clear h
  induction h' with
  | nil => rfl
  | @cons c r cs rs hc _ ih =>
    simp only [personalRecoverable, bind_eq_ok, pure_eq_ok, refuseIf_eq_ok, not_not] at hc
    obtain ⟨_, hstd, rfl⟩ := hc
    have hc := hsplit c (by simp)
    have hrest := ih (fun d hd => hmerchant d (by simp [hd])) fun d hd => hsplit d (by simp [hd])
    rw [sum_cons, map_cons, sum_cons, hrest]
    simp [settles, hmerchant c (by simp), capitalized, hstd]
    omega

/-- **A personal line books its document total** on the one receivable leg. -/
theorem personalReceivableAmount_total {amount : ℤ} (hs : SplitsExact deps)
    (h : personalReceivableAmount line deps = .ok amount) : amount = lineTotal line := by
  simp only [personalReceivableAmount, bind_eq_ok, pure_eq_ok] at h
  obtain ⟨components, hcomp, recoverable, hrec, base, hbase, rfl⟩ := h
  obtain ⟨hget, hmerchant, -⟩ := componentsForLine_eq_ok hcomp
  have hstep := recoverable_eq_settles deps (hmerchant rfl)
    (splits_of_componentsForLine hs hcomp) hrec
  rw [hstep, purchaseBaseAmount_eq_ok hbase, purchaseBasis, hget, sum_map_sub,
    sum_settles_of_componentsForLine hcomp, lineTotal]
  omega

variable {lines : List DocLine} {tax : List KernelLine}

/-- **The tax legs of a purchase** total what the documents' lines do beyond their
expense legs. -/
theorem purchaseTaxLines_total {doc : Doc} (hs : SplitsExact deps)
    (h : purchaseTaxLines doc lines deps direction = .ok tax) :
    legTotal tax =
      signed ((lines.map lineTotal).sum - (lines.map (purchaseBasis deps)).sum) direction := by
  have htotal : legTotal tax =
      (lines.map fun l => signed (lineTotal l - purchaseBasis deps l) direction).sum :=
    collect_sum h KernelLine.amount _ fun l _ legs hlegs => purchaseLineLegs_total hs hlegs
  rw [htotal, sum_map_signed, sum_map_sub]

/-- **The tax legs of a sale** total the stored tax of its lines, as a credit. -/
theorem salesTaxLines_total {doc : Doc} (h : salesTaxLines doc lines deps direction = .ok tax) :
    legTotal tax = signed (-(lines.map fun l => l.taxAmount.getD 0).sum) direction := by
  have htotal : legTotal tax = (lines.map fun l => signed (-l.taxAmount.getD 0) direction).sum :=
    collect_sum h KernelLine.amount _ fun l _ legs hlegs => salesLineLegs_total hlegs
  have hneg := sum_map_signed (fun l : DocLine => l.taxAmount.getD 0) .negative lines
  rw [htotal, sum_map_signed]
  exact congrArg (signed · direction) hneg

/-! ### Reversal

A credit memo books the tax legs of its bill or invoice with every amount negated,
and refuses where the bill would. -/

theorem purchaseComponentLegs_negative (deps : PostingDeps) (line : DocLine)
    (c : TaxPostingComponent) :
    purchaseComponentLegs doc deps .negative line c =
      List.map KernelLine.negated <$> purchaseComponentLegs doc deps .positive line c := by
  by_cases hw : c.calculationType = .withholding
  · simp only [purchaseComponentLegs, hw, if_true]
    cases assertTaxControlAccount c deps .withholding <;> rfl
  · simp only [purchaseComponentLegs, hw, if_false, legUnless]
    by_cases hr : c.recoverableAmount = 0 <;>
      by_cases hc : ¬(c.calculationType = .reverseCharge ∧ c.taxAmount ≠ 0) <;>
      simp only [hr, hc, if_true, if_false] <;>
      cases assertTaxControlAccount c deps .paid <;>
      cases assertTaxControlAccount c deps .collected <;> rfl

theorem salesComponentLegs_negative (deps : PostingDeps) (line : DocLine)
    (c : TaxPostingComponent) :
    salesComponentLegs doc deps .negative line c =
      List.map KernelLine.negated <$> salesComponentLegs doc deps .positive line c := by
  by_cases hm : c.collectedBy = .marketplace
  · simp only [salesComponentLegs, hm, if_true]
    cases refuseIf (c.calculationType ≠ .standard) (marketplaceNotStandard line c) with
    | error e => rfl
    | ok u =>
      cases deps.marketplaceClearingByName (c.facilitatorName.getD "") with
      | none => rfl
      | some clearing =>
        obtain ⟨accountId, mode⟩ := clearing
        cases mode <;> rfl
  · cases hc : c.calculationType with
    | reverseCharge => simp only [salesComponentLegs, hm, hc, if_false]; rfl
    | withholding =>
      simp only [salesComponentLegs, hm, hc, if_false]
      cases assertTaxControlAccount c deps .withholding <;> rfl
    | standard =>
      simp only [salesComponentLegs, hm, hc, if_false]
      cases assertTaxControlAccount c deps .collected <;> rfl

/-- **The tax of a vendor credit is the tax of the bill, reversed.** -/
theorem purchaseTaxLines_negative (lines : List DocLine) (deps : PostingDeps) :
    purchaseTaxLines doc lines deps .negative =
      List.map KernelLine.negated <$> purchaseTaxLines doc lines deps .positive := by
  refine collect_map lines fun line => ?_
  rw [purchaseLineLegs, purchaseLineLegs]
  cases componentsForLine line deps false with
  | error e => rfl
  | ok components =>
    exact collect_map components (purchaseComponentLegs_negative doc deps line)

/-- **The tax of a customer credit is the tax of the invoice, reversed.** -/
theorem salesTaxLines_negative (lines : List DocLine) (deps : PostingDeps) :
    salesTaxLines doc lines deps .negative =
      List.map KernelLine.negated <$> salesTaxLines doc lines deps .positive := by
  refine collect_map lines fun line => ?_
  rw [salesLineLegs, salesLineLegs]
  cases componentsForLine line deps true with
  | error e => rfl
  | ok components =>
    exact collect_map components (salesComponentLegs_negative doc deps line)

end OpenBooks
