import OpenBooks.Ledger.ControlLeg

/-!
# When a cash document settles completely

The cross-foot of a cash document compares magnitudes – what was tendered against the absolute value
of income and tax – while its legs are signed, and a document without tenders leaves by the
no-charge path before its close-out is booked. So the checks do not quite say what they are for, and
this file says exactly where they do (`RULES_settlesCompletely_iff`): an entry that is returned
balances and has one leg for each tender and each close-out amount if and only if

* the document does not total less than zero, where it has tenders; and
* the close-out of a sale is zero, where it has none.

With tenders the legs of a sale total the document's magnitude less the document (`cashSale_total`),
so a sale of negative total is booked twice over.
-/

namespace OpenBooks

open Checked List

/-! ### Complete settlement -/

inductive CashKind
  | sale
  | refund
  deriving DecidableEq

def CashKind.kind : CashKind → DocKind
  | .sale => .cashSale
  | .refund => .cashRefund

/-- The sign a cash kind gives its tender legs. -/
def CashKind.direction : CashKind → Direction
  | .sale => .positive
  | .refund => .negative

/-- The close-out a cash kind books: only a sale has one. -/
def CashKind.closeout (kind : CashKind) (deps : PostingDeps) : Option CashSaleCloseout :=
  match kind with
  | .sale => deps.cashCloseout
  | .refund => none

def incomeAndTaxLegs (kind : CashKind) (doc : Doc) (lines : List DocLine) (deps : PostingDeps) :
    Except PostingError (List KernelLine) := do
  let income ← match kind with
    | .sale => collect (cashSaleIncome doc deps) lines
    | .refund => lines.mapM (cashRefundIncome doc)
  let tax ← salesTaxLines doc lines deps kind.direction
  return income ++ tax

/-- The name of a cash kind in its refusals. -/
def CashKind.label : CashKind → String
  | .sale => "cash sale"
  | .refund => "cash refund"

/-- The legs a cash document books apart from its settlement: income and tax, or
what it gives at no charge. -/
def ownLegs (kind : CashKind) (doc : Doc) (lines : List DocLine) (deps : PostingDeps) :
    Except PostingError (List KernelLine) := do
  let legs ← incomeAndTaxLegs kind doc lines deps
  if deps.cashTenders = [] then
    settledAtNoCharge doc lines legs deps kind.direction kind.label
  else return legs

/-- A cash document settles completely: its entry balances and is made of one leg
per tender, on the tender's account with the kind's sign, one leg per nonzero
close-out amount, and the document's own legs. -/
structure SettlesCompletely (kind : CashKind) (doc : Doc) (lines : List DocLine)
    (deps : PostingDeps) (out : List KernelLine) : Prop where
  balanced : legTotal out = 0
  legs : ∃ own, ownLegs kind doc lines deps = .ok own ∧
    out.Perm (deps.cashTenders.map (tenderLeg doc kind.direction) ++
      closeoutLegs doc (kind.closeout deps) ++ own)

/-- The till covers the document: a document with tenders does not total less than
zero, and one without has no close-out amount to book. -/
def TillCovers (kind : CashKind) (lines : List DocLine) (deps : PostingDeps) : Prop :=
  (deps.cashTenders ≠ [] → 0 ≤ documentTotal lines) ∧
    (deps.cashTenders = [] → ∀ closeout ∈ kind.closeout deps,
      closeout.tipsTotal = 0 ∧ closeout.feeTotal = 0 ∧ closeout.overShort = 0)

/-! ### What the parts total -/

section Parts

variable {doc : Doc} {lines : List DocLine} {deps : PostingDeps} {l : DocLine}
  {legs out : List KernelLine}

/-- Income and tax of a cash document total the document, credited on a sale and
debited on a refund. -/
theorem incomeAndTaxLegs_total {kind : CashKind} (h : incomeAndTaxLegs kind doc lines deps = .ok legs) :
    legTotal legs = signed (-documentTotal lines) kind.direction := by
  cases kind with
  | sale =>
    simp only [incomeAndTaxLegs, bind_eq_ok, pure_eq_ok] at h
    obtain ⟨income, hincome, tax, htax, rfl⟩ := h
    have hcredit : legTotal income = (lines.map fun l => signed l.amount .negative).sum :=
      collect_sum hincome KernelLine.amount _ fun l _ legs hlegs => (salesIncome_eq_ok hlegs).1
    exact sales_total .positive (hcredit.trans (sum_map_signed _ _ _)) htax
  | refund =>
    simp only [incomeAndTaxLegs, bind_eq_ok, pure_eq_ok] at h
    obtain ⟨income, hincome, tax, htax, rfl⟩ := h
    have hdebit : legTotal income = (lines.map DocLine.amount).sum :=
      mapM_sum hincome KernelLine.amount _ fun l _ leg hleg => (cashRefundIncome_eq_ok hleg).1
    exact sales_total .negative (hdebit.trans (neg_neg _).symm) htax

theorem legTotal_tenderLegs (doc : Doc) (direction : Direction) (tenders : List CashPostingTender) :
    legTotal (tenders.map (tenderLeg doc direction)) = signed (tenderTotal tenders) direction := by
  rw [legTotal, map_map, tenderTotal, ← sum_map_signed]
  rfl

/-- The signed close-out of a till: fees less tips less the counted over. -/
def closeoutTotal : Option CashSaleCloseout → ℤ
  | none => 0
  | some closeout => -closeout.tipsTotal + (closeout.feeTotal + -closeout.overShort)

theorem legTotal_closeoutLegs (doc : Doc) (closeout : Option CashSaleCloseout) :
    legTotal (closeoutLegs doc closeout) = closeoutTotal closeout := by
  cases closeout with
  | none => rfl
  | some closeout =>
    by_cases ht : closeout.tipsTotal = 0 <;> by_cases hf : closeout.feeTotal = 0 <;>
      by_cases ho : closeout.overShort = 0 <;>
      simp [closeoutLegs, closeoutTotal, tipsLeg, feeLeg, overShortLeg, ht, hf, ho]

theorem closeoutLegs_eq_nil (doc : Doc) (closeout : Option CashSaleCloseout) :
    closeoutLegs doc closeout = [] ↔ ∀ c ∈ closeout,
      c.tipsTotal = 0 ∧ c.feeTotal = 0 ∧ c.overShort = 0 := by
  cases closeout with
  | none => simp [closeoutLegs]
  | some closeout =>
    by_cases ht : closeout.tipsTotal = 0 <;> by_cases hf : closeout.feeTotal = 0 <;>
      by_cases ho : closeout.overShort = 0 <;> simp [closeoutLegs, ht, hf, ho]

variable {kindLabel : String} {direction : Direction}

theorem noChargeMeasurementLeg_total {accountId : String}
    (h : noChargeMeasurementLeg doc accountId direction kindLabel l = .ok legs) :
    legTotal legs = 0 := by
  simp only [noChargeMeasurementLeg, bind_eq_ok, orRefuse_eq_ok, pure_eq_ok] at h
  obtain ⟨⟨quantity, units⟩, -, rfl⟩ := h
  by_cases hu : units = 0 <;> simp [hu]

theorem settledAtNoCharge_total
    (h : settledAtNoCharge doc lines legs deps direction kindLabel = .ok out) :
    legTotal out = legTotal legs := by
  by_cases hne : ∃ leg ∈ legs, leg.amount ≠ 0
  · rw [settledAtNoCharge, if_pos hne, Except.ok.injEq] at h
    rw [h]
  · simp only [settledAtNoCharge, hne, if_false, noChargeMeasurementLegs, bind_eq_ok, pure_eq_ok] at h
    obtain ⟨accountId, -, measured, hmeasured, _, -, rfl⟩ := h
    have hzero : legTotal measured = (lines.map fun _ => 0).sum :=
      collect_sum hmeasured KernelLine.amount _ fun l _ legs hlegs =>
        noChargeMeasurementLeg_total hlegs
    have hlegs : legTotal legs = 0 :=
      sum_eq_zero (by simpa using hne)
    rw [hzero, hlegs]
    simp

end Parts

/-! ### What a cash rule checks and returns -/

section Rules

variable {kind : CashKind} {doc : Doc} {lines : List DocLine} {deps : PostingDeps}
  {legs out : List KernelLine}

/-- **A cash rule returns by one of two paths.** With tenders, they foot to what
must be tendered and stand in front of the document's legs with the close-out;
without, there is exactly nothing to tender. -/
theorem cashRule_cases (h : RULES kind.kind doc lines deps = .ok out) :
    ∃ legs, incomeAndTaxLegs kind doc lines deps = .ok legs ∧
      (deps.cashTenders = [] ∧ amountToTender (legTotal legs) (kind.closeout deps) = 0 ∧
          settledAtNoCharge doc lines legs deps kind.direction kind.label = .ok out ∨
        deps.cashTenders ≠ [] ∧
          tenderTotal deps.cashTenders = amountToTender (legTotal legs) (kind.closeout deps) ∧
          out = deps.cashTenders.map (tenderLeg doc kind.direction) ++
            closeoutLegs doc (kind.closeout deps) ++ legs) := by
  cases kind with
  | sale =>
    simp only [CashKind.kind, RULES, cashSaleRule, bind_eq_ok, assertCashTendersPresent,
      refuseIf_eq_ok] at h
    obtain ⟨income, hincome, tax, htax, _, hpresent, h⟩ := h
    refine ⟨income ++ tax, by simp [incomeAndTaxLegs, hincome, CashKind.direction, htax], ?_⟩
    by_cases ht : deps.cashTenders = []
    · rw [if_pos ht] at h
      exact .inl ⟨ht, not_not.mp fun hne => hpresent ⟨ht, hne⟩, h⟩
    · simp only [ht, if_false, bind_eq_ok, pure_eq_ok] at h
      obtain ⟨_, hfoot, rfl⟩ := h
      refine .inr ⟨ht, ?_, by simp [CashKind.closeout, CashKind.direction]⟩
      cases hc : deps.cashCloseout with
      | none =>
        simpa [hc, assertSaleTenders, assertTendersMatchTotal, amountToTender, CashKind.closeout]
          using hfoot
      | some closeout =>
        simp only [hc, assertSaleTenders, assertCloseout, assertCloseoutTendersMatchTotal,
          bind_eq_ok, refuseIf_eq_ok, not_not] at hfoot
        obtain ⟨_, hfoot, -⟩ := hfoot
        simpa [CashKind.closeout, hc, amountToTender] using hfoot
  | refund =>
    simp only [CashKind.kind, RULES, cashRefundRule, bind_eq_ok, assertCashTendersPresent,
      refuseIf_eq_ok] at h
    obtain ⟨income, hincome, tax, htax, _, hpresent, h⟩ := h
    refine ⟨income ++ tax, by simp [incomeAndTaxLegs, hincome, CashKind.direction, htax], ?_⟩
    by_cases ht : deps.cashTenders = []
    · rw [if_pos ht] at h
      exact .inl ⟨ht, not_not.mp fun hne => hpresent ⟨ht, hne⟩, h⟩
    · simp only [ht, if_false, bind_eq_ok, pure_eq_ok, assertTendersMatchTotal, refuseIf_eq_ok,
        not_not] at h
      obtain ⟨_, hfoot, rfl⟩ := h
      exact .inr ⟨ht, hfoot, by simp [CashKind.closeout, CashKind.direction, closeoutLegs]⟩

theorem amountToTender_eq (incomeAndTax : ℤ) (closeout : Option CashSaleCloseout) :
    amountToTender incomeAndTax closeout = |incomeAndTax| - closeoutTotal closeout := by
  cases closeout with
  | none => simp [amountToTender, closeoutTotal]
  | some closeout =>
    simp only [amountToTender, expectedTenderedForCloseout, closeoutTotal]
    omega

/-- **With tenders, the legs total the document's magnitude less the document**, in
the direction of the kind. -/
theorem tendered_total (hlegs : incomeAndTaxLegs kind doc lines deps = .ok legs)
    (hfoot : tenderTotal deps.cashTenders = amountToTender (legTotal legs) (kind.closeout deps)) :
    legTotal (deps.cashTenders.map (tenderLeg doc kind.direction) ++
        closeoutLegs doc (kind.closeout deps) ++ legs) =
      signed (|documentTotal lines| - documentTotal lines) kind.direction := by
  have htotal := incomeAndTaxLegs_total hlegs
  have habs : |legTotal legs| = |documentTotal lines| := by
    rw [htotal]
    cases kind with
    | sale => exact abs_neg _
    | refund => simp [CashKind.direction, signed]
  rw [legTotal_append, legTotal_append, legTotal_tenderLegs, legTotal_closeoutLegs, hfoot,
    amountToTender_eq, habs, htotal]
  cases kind with
  | sale =>
    simp only [CashKind.direction, signed]
    omega
  | refund =>
    simp only [CashKind.direction, CashKind.closeout, closeoutTotal, signed]
    omega

end Rules

/-! ### The theorem -/

/-- **A returned cash entry settles completely exactly when the till covers the
document.** -/
theorem RULES_settlesCompletely_iff {kind : CashKind} {doc : Doc} {lines : List DocLine}
    {deps : PostingDeps} {out : List KernelLine} (h : RULES kind.kind doc lines deps = .ok out) :
    SettlesCompletely kind doc lines deps out ↔ TillCovers kind lines deps := by
  obtain ⟨legs, hlegs, ⟨ht, hzero, hout⟩ | ⟨ht, hfoot, rfl⟩⟩ := cashRule_cases h
  · have hown : ownLegs kind doc lines deps = .ok out := by simp [ownLegs, hlegs, ht, hout]
    have hcovers : TillCovers kind lines deps ↔ closeoutLegs doc (kind.closeout deps) = [] := by
      rw [closeoutLegs_eq_nil]
      exact ⟨fun hc => hc.2 ht, fun hc => ⟨fun hne => absurd ht hne, fun _ => hc⟩⟩
    rw [hcovers]
    constructor
    · -- the close-out legs would be beyond the document's own, which are all there is
      rintro ⟨-, own, hown', hperm⟩
      obtain rfl : out = own := Except.ok.inj (hown.symm.trans hown')
      have hlen := hperm.length_eq
      rw [ht, map_nil, nil_append, length_append] at hlen
      exact eq_nil_of_length_eq_zero (by omega)
    · intro hnil
      refine ⟨?_, out, hown, by simp [ht, hnil]⟩
      have hclose : closeoutTotal (kind.closeout deps) = 0 := by
        rw [← legTotal_closeoutLegs doc, hnil, legTotal_nil]
      rw [amountToTender_eq, hclose, sub_zero, abs_eq_zero] at hzero
      rw [settledAtNoCharge_total hout, hzero]
  · have hown : ownLegs kind doc lines deps = .ok legs := by simp [ownLegs, hlegs, ht]
    have htotal := tendered_total hlegs hfoot
    have hcovers : TillCovers kind lines deps ↔ 0 ≤ documentTotal lines :=
      ⟨fun hc => hc.1 ht, fun hc => ⟨fun _ => hc, fun hnil => absurd hnil ht⟩⟩
    have hbalanced : signed (|documentTotal lines| - documentTotal lines) kind.direction = 0 ↔
        0 ≤ documentTotal lines := by
      rw [← abs_eq_self]
      cases kind with
      | sale => exact sub_eq_zero
      | refund => exact neg_eq_zero.trans sub_eq_zero
    rw [hcovers, ← hbalanced, ← htotal]
    exact ⟨fun hs => hs.balanced, fun hb => ⟨hb, legs, hown, Perm.refl _⟩⟩

/-- Dependencies with one tender of 50.00. -/
def tenderedDeps : PostingDeps where
  control := { ar := "1200", ap := "2000", bank := "1000" }
  cashTenders := [{ methodLabel := "Cash", accountId := "1010", amount := 500000 }]

/-- Dependencies with no tender and a till counted 5.00 short. -/
def shortDeps : PostingDeps where
  control := { ar := "1200", ap := "2000", bank := "1000" }
  cashCloseout := some { tipsTotal := 0, feeTotal := 0, overShort := -50000
                         cashOverShortAccountId := some "6900" }

def incomeLine (amount : ℤ) : DocLine :=
  { id := "line", lineNumber := 1, amount, accountId := some "4000" }

/-- **The cross-foot lets two sales through that do not settle**: a sale of one
returned item is booked twice over on one side, and a sale that the shortage of its
till swallows posts its income with nothing against it. -/
theorem cashSale_unsettled :
    (∃ out, RULES .cashSale { documentNumber := "S-1" } [incomeLine (-500000)] tenderedDeps = .ok out ∧
      (∀ t ∈ tenderedDeps.cashTenders, 0 < t.amount) ∧
      legTotal out = 1000000 ∧
      ¬SettlesCompletely .sale { documentNumber := "S-1" } [incomeLine (-500000)] tenderedDeps out) ∧
    ∃ out, RULES .cashSale { documentNumber := "S-2" } [incomeLine 50000] shortDeps = .ok out ∧
      legTotal out = -50000 ∧
      ¬SettlesCompletely .sale { documentNumber := "S-2" } [incomeLine 50000] shortDeps out := by
  refine ⟨⟨_, rfl, by decide, rfl, fun hs => ?_⟩, _, rfl, rfl, fun hs => ?_⟩
  · exact absurd hs.balanced (by decide)
  · exact absurd hs.balanced (by decide)

/-- A sale of 50.00 paid by one tender of 50.00 is covered, and settles. -/
theorem RULES_settlesCompletely_sale :
    ∃ out, RULES CashKind.sale.kind { documentNumber := "S-3" } [incomeLine 500000] tenderedDeps =
        .ok out ∧
      SettlesCompletely .sale { documentNumber := "S-3" } [incomeLine 500000] tenderedDeps out :=
  ⟨_, rfl, (RULES_settlesCompletely_iff rfl).mpr ⟨fun _ => by decide, fun h => nomatch h⟩⟩

end OpenBooks
