import OpenBooks.Ledger.Contracts

/-!
# The tax snapshot of a line

A line's stored tax and its calculation components are two records of one fact,
and `componentsForLine` is where the posting kernel cross-foots them
before any leg is written. What it compares is not the sum of the components: a
withholding reduces what the document settles, a reverse charge does not touch it,
and a marketplace's tax counts only where the facilitator charges it gross.

`settles` is what one component adds to the document total, and
`sum_settles_of_componentsForLine` is all that the posting rules need to
know: a line whose components are accepted has exactly its stored tax to settle,
also when it has no components at all.
-/

namespace OpenBooks

open Checked List

/-- Marketplace collection is sales-side: on a purchase it is a data fault. -/
def refuseMarketplaceOnPurchase (line : DocLine) (components : List TaxPostingComponent) :
    Except PostingError Unit :=
  refuseIf (∃ c ∈ components, c.collectedBy = .marketplace)
    ⟨s!"line {line.lineNumber} carries marketplace-collected tax on a purchase document — marketplace collection is sales-side; clear the marketplace flag on the line"⟩

/-- The refusal of a facilitator tax that is not standard output tax. -/
def marketplaceNotStandard (line : DocLine) (c : TaxPostingComponent) : PostingError :=
  ⟨s!"line {line.lineNumber} carries marketplace-collected {c.calculationType.text} tax — only standard output tax can be marketplace-collected"⟩

/-- The refusal of a facilitator with no clearing account. -/
def marketplaceUnconfigured (line : DocLine) (c : TaxPostingComponent) : PostingError :=
  ⟨s!"line {line.lineNumber} names marketplace facilitator \"" ++ c.facilitatorName.getD "" ++
    "\" with no clearing account — configure the facilitator in Setup → Taxes → Marketplace facilitators"⟩

/-- What a component adds to the tax the facilitators charge inside the line
total: nothing for the merchant's own tax and for a net facilitator's. -/
def marketplaceGrossShare (line : DocLine) (deps : PostingDeps) (c : TaxPostingComponent) :
    Except PostingError ℤ :=
  if c.collectedBy ≠ .marketplace then .ok 0
  else do
    refuseIf (c.calculationType ≠ .standard) (marketplaceNotStandard line c)
    let clearing ← orRefuse (deps.marketplaceClearingByName (c.facilitatorName.getD ""))
      (marketplaceUnconfigured line c)
    return if clearing.mode = .gross then c.taxAmount else 0

/-- What the merchant's components settle: standard tax less withholding. -/
def componentSettlementTotal (components : List TaxPostingComponent) : ℤ :=
  let standard := ((components.filter fun c => c.calculationType = .standard).map
    TaxPostingComponent.taxAmount).sum
  let withholding := ((components.filter fun c => c.calculationType = .withholding).map
    TaxPostingComponent.taxAmount).sum
  standard + -withholding

/-- Refuse a line whose components do not settle its stored tax. -/
def crossFootTax (line : DocLine) (deps : PostingDeps) (components : List TaxPostingComponent) :
    Except PostingError Unit := do
  let expected ← components.mapM (marketplaceGrossShare line deps)
  let merchant := components.filter fun c => c.collectedBy ≠ .marketplace
  let settlement := componentSettlementTotal merchant + expected.sum
  let stored := (line.taxAmount.map fromUnits).getD "null"
  refuseIf (settlement ≠ line.taxAmount.getD 0)
    ⟨s!"line {line.lineNumber} tax components ({fromUnits settlement}) do not match stored tax total ({stored})"⟩

/-- The components of a line, cross-footed against its stored tax. -/
def componentsForLine (line : DocLine) (deps : PostingDeps) (salesSide : Bool) :
    Except PostingError (List TaxPostingComponent) := do
  let components := (deps.taxComponentsByLine line.id).getD []
  onlyIf (salesSide = false) (refuseMarketplaceOnPurchase line components)
  let hasTaxProfile := (truthy line.taxCodeId).isSome || (truthy line.taxGroupId).isSome
  refuseIf (hasTaxProfile ∧ components = [])
    ⟨s!"line {line.lineNumber} has a tax profile but no calculation evidence"⟩
  refuseIf (¬hasTaxProfile ∧ components = [] ∧ line.taxAmount.getD 0 ≠ 0)
    ⟨s!"line {line.lineNumber} has a tax amount but no calculation evidence"⟩
  onlyIf (components ≠ []) (crossFootTax line deps components)
  return components

/-! ### What a component settles -/

/-- What one component adds to the document total. -/
def settles (deps : PostingDeps) (c : TaxPostingComponent) : ℤ :=
  match c.collectedBy with
  | .marketplace =>
    match deps.marketplaceClearingByName (c.facilitatorName.getD "") with
    | some clearing => if clearing.mode = .gross then c.taxAmount else 0
    | none => 0
  | .merchant =>
    match c.calculationType with
    | .standard => c.taxAmount
    | .withholding => -c.taxAmount
    | .reverseCharge => 0

theorem componentSettlementTotal_cons (c : TaxPostingComponent) (cs : List TaxPostingComponent) :
    componentSettlementTotal (c :: cs) =
      (match c.calculationType with
        | .standard => c.taxAmount
        | .withholding => -c.taxAmount
        | .reverseCharge => 0) + componentSettlementTotal cs := by
  cases h : c.calculationType <;>
    simp [componentSettlementTotal, h] <;> ring

variable {line : DocLine} {components : List TaxPostingComponent} {deps : PostingDeps}

/-- The facilitators' part and the merchant's part together are what the
components settle. -/
theorem settlement_eq_sum_settles {expected : List ℤ}
    (h : components.mapM (marketplaceGrossShare line deps) = .ok expected) :
    componentSettlementTotal (components.filter fun c => c.collectedBy ≠ .marketplace) +
      expected.sum = (components.map (settles deps)).sum := by
  have h' := mapM_eq_ok.mp h
  clear h
  induction h' with
  | nil => simp [componentSettlementTotal]
  | @cons c e cs es hc _ ih =>
    rw [sum_cons, map_cons, sum_cons, ← ih]
    cases hm : c.collectedBy with
    | merchant =>
      have he : e = 0 := by simpa [marketplaceGrossShare, hm, eq_comm] using hc
      rw [filter_cons_of_pos (by simp [hm]), componentSettlementTotal_cons, he]
      simp only [settles, hm]
      ring
    | marketplace =>
      simp only [marketplaceGrossShare, hm, ne_eq, not_true_eq_false, if_false, bind_eq_ok,
        orRefuse_eq_ok, pure_eq_ok] at hc
      obtain ⟨_, -, clearing, hcl, rfl⟩ := hc
      rw [filter_cons_of_neg (by simp [hm])]
      simp only [settles, hm, hcl]
      ring

variable {salesSide : Bool}

/-- What an accepted line returns: its components, cross-footed when there are any
and otherwise with no tax to settle. -/
theorem componentsForLine_eq_ok (h : componentsForLine line deps salesSide = .ok components) :
    (deps.taxComponentsByLine line.id).getD [] = components ∧
      (salesSide = false → ∀ c ∈ components, c.collectedBy = .merchant) ∧
      (components = [] → line.taxAmount.getD 0 = 0) ∧
      (components ≠ [] → crossFootTax line deps components = .ok ()) := by
  simp only [componentsForLine, bind_eq_ok, pure_eq_ok, refuseIf_eq_ok, onlyIf_eq_ok,
    refuseMarketplaceOnPurchase] at h
  obtain ⟨_, hmarket, _, hprofile, _, hamount, _, hcross, rfl⟩ := h
  refine ⟨rfl, fun hs c hc => ?_, fun hnil => ?_, hcross⟩
  · cases hm : c.collectedBy with
    | merchant => rfl
    | marketplace => exact absurd ⟨c, hc, hm⟩ (hmarket hs)
  · by_contra htax
    by_cases hp : ((truthy line.taxCodeId).isSome || (truthy line.taxGroupId).isSome) = true
    · exact hprofile ⟨hp, hnil⟩
    · exact hamount ⟨hp, hnil, htax⟩

/-- **An accepted line has exactly its stored tax to settle.** -/
theorem sum_settles_of_componentsForLine
    (h : componentsForLine line deps salesSide = .ok components) :
    (components.map (settles deps)).sum = line.taxAmount.getD 0 := by
  obtain ⟨-, -, hnil, hcross⟩ := componentsForLine_eq_ok h
  rcases eq_or_ne components [] with rfl | hne
  · simpa using (hnil rfl).symm
  · have hcross := hcross hne
    simp only [crossFootTax, bind_eq_ok, refuseIf_eq_ok, not_not] at hcross
    obtain ⟨expected, hexpected, hsettle⟩ := hcross
    rw [← settlement_eq_sum_settles hexpected, hsettle]

/-! ### Control accounts of a tax leg -/

inductive TaxSide
  | collected
  | paid
  | withholding
  deriving DecidableEq

/-- The configured control account of a collected or paid leg: the component's
own, the tax code's, or the organization's. An empty account is none. -/
def taxControlAccount (c : TaxPostingComponent) (deps : PostingDeps) (collected : Bool) :
    Option String :=
  truthy <|
    if collected then
      c.collectedAccountId <|> deps.taxCollectedByCode c.taxCodeId <|> deps.control.taxCollected
    else c.paidAccountId <|> deps.taxPaidByCode c.taxCodeId <|> deps.control.taxPaid

/-- The control account of a tax leg, refusing when none is configured. -/
def assertTaxControlAccount (c : TaxPostingComponent) (deps : PostingDeps) :
    TaxSide → Except PostingError String
  | .withholding => orRefuse (truthy c.withholdingAccountId)
      ⟨s!"withholding tax {c.taxCodeId} has no withholding account"⟩
  | .collected => orRefuse (taxControlAccount c deps true)
      ⟨s!"collected tax {c.taxCodeId} has no configured tax control account"⟩
  | .paid => orRefuse (taxControlAccount c deps false)
      ⟨s!"paid tax {c.taxCodeId} has no configured tax control account"⟩

end OpenBooks
