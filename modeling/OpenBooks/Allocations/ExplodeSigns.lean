import OpenBooks.Allocations.Explode
import OpenBooks.Allocations.Shares
import OpenBooks.Lib.ListSum
import Mathlib.Data.List.Perm.Basic
import Mathlib.Tactic.LinearCombination

/-!
# The signs of an exploded line

The amounts of the children of a line have the line's sign. Their quantities need not: every
quantity but one is rounded half away from zero, and the target that takes the residual of the
amount takes the whole difference, whatever its own weight. If the others are rounded up by
more than its own share, it is left with a quantity of the other sign.

`RoundingFits` says by how much they may be, of the weights and the quantity
alone, and `explodeDocumentLine_keeps_line_iff` that the children keep to the line
just when it holds.
-/

namespace OpenBooks

open Checked List

/-! ### One quantity -/

/-- What the shares of the other targets are rounded up by is no more than the share of the
one that takes the residual. Shares are counted in units of the total weight: each other
target drops its remainder, and from half a unit on adds a whole one. -/
def RoundingFits (quantity : ℤ) (weights : List ℤ) (residualIndex : ℕ) : Prop :=
  let remainders := (weights.eraseIdx residualIndex).map fun w => |quantity| * w % weights.sum
  weights.sum * remainders.countP (fun r => weights.sum ≤ 2 * r) ≤
    |quantity| * weights.getD residualIndex 0 + remainders.sum

instance (quantity : ℤ) (weights : List ℤ) (residualIndex : ℕ) :
    Decidable (RoundingFits quantity weights residualIndex) := inferInstanceAs (Decidable (_ ≤ _))

section Quantity

variable {q : ℤ} {weights parts : List ℤ} {k : ℕ}

section

variable (h : apportionExactUnits q weights k = .ok parts)

include h

theorem apportionExactUnits_eq_ok :
    0 < weights.sum ∧ parts = (weights.map fun w => HalfAway.round (q * w) weights.sum).modify k
      (· + (q - (weights.map fun w => HalfAway.round (q * w) weights.sum).sum)) := by
  simp only [apportionExactUnits, bind_eq_ok, refuseIf_eq_ok, pure_eq_ok, not_le,
    roundDiv_eq_round] at h
  obtain ⟨_, hsum, rfl⟩ := h
  exact ⟨hsum, rfl⟩

/-- The parts of a quantity: one takes the rest, all others are rounded. -/
theorem apportionExactUnits_perm (hk : k < weights.length) :
    parts.Perm
      ((q - ((weights.eraseIdx k).map fun w => HalfAway.round (q * w) weights.sum).sum) ::
        (weights.eraseIdx k).map fun w => HalfAway.round (q * w) weights.sum) := by
  obtain ⟨-, rfl⟩ := apportionExactUnits_eq_ok h
  rw [← eraseIdx_map]
  set rounded := weights.map fun w => HalfAway.round (q * w) weights.sum with hrounded
  have hk' : k < rounded.length := by simpa [hrounded] using hk
  have hsum := (getElem_cons_eraseIdx_perm hk').sum_eq
  rw [sum_cons] at hsum
  have hpart : rounded[k] + (q - rounded.sum) = q - (rounded.eraseIdx k).sum := by linarith
  have hperm := getElem_cons_eraseIdx_perm
    (show k < (rounded.modify k (· + (q - rounded.sum))).length by simpa using hk')
  rw [getElem_modify_eq, eraseIdx_modify_of_eq, hpart] at hperm
  exact hperm.symm

/-- The parts of a quantity make it up. -/
theorem sum_apportionExactUnits (hk : k < weights.length) :
    parts.length = weights.length ∧ parts.sum = q := by
  refine ⟨?_, ?_⟩
  · obtain ⟨-, rfl⟩ := apportionExactUnits_eq_ok h
    simp
  · rw [(apportionExactUnits_perm h hk).sum_eq, sum_cons]
    ring

end

theorem sum_mul_round_others (hsum : 0 < weights.sum) (hweights : ∀ w ∈ weights, 0 ≤ w)
    (hk : k < weights.length) {m : ℤ} (hm : 0 ≤ m) :
    weights.sum * ((weights.eraseIdx k).map fun w => HalfAway.round (m * w) weights.sum).sum =
      weights.sum * m - (m * weights.getD k 0 +
        ((weights.eraseIdx k).map fun w => m * w % weights.sum).sum) +
      weights.sum * ((weights.eraseIdx k).map fun w => m * w % weights.sum).countP
        (fun r => weights.sum ≤ 2 * r) := by
  have hnonneg : ∀ n ∈ (weights.eraseIdx k).map (m * ·), 0 ≤ n := by
    intro n hn
    obtain ⟨w, hw, rfl⟩ := mem_map.mp hn
    exact mul_nonneg hm (hweights w (mem_of_mem_eraseIdx hw))
  have hround := HalfAway.sum_round_mul_eq hsum hnonneg
  have hsplit := (getElem_cons_eraseIdx_perm hk).sum_eq
  rw [sum_cons] at hsplit
  rw [map_map, map_map, sum_map_mul_left, map_id', countP_map] at hround
  rw [countP_map, getD_eq_getElem _ _ hk]
  simp only [Function.comp_def] at hround ⊢
  linear_combination hround + m * hsplit

/-- **The parts of a quantity have its sign just when the rounding fits.** -/
theorem signed_apportionExactUnits_iff (h : apportionExactUnits q weights k = .ok parts)
    (hweights : ∀ w ∈ weights, 0 ≤ w) (hk : k < weights.length) :
    (∀ x ∈ parts, SignedLike q x) ↔ RoundingFits q weights k := by
  obtain ⟨hsum, -⟩ := apportionExactUnits_eq_ok h
  have hothers : ∀ x ∈ (weights.eraseIdx k).map (fun w => HalfAway.round (q * w) weights.sum),
      SignedLike q x := by
    intro x hx
    obtain ⟨w, hw, rfl⟩ := mem_map.mp hx
    have hw := hweights w (mem_of_mem_eraseIdx hw)
    exact ⟨fun hq => HalfAway.round_nonneg hsum (mul_nonneg hq hw),
      fun hq => HalfAway.round_nonpos hsum (mul_nonpos_of_nonpos_of_nonneg hq hw)⟩
  have hrest : (∀ x ∈ parts, SignedLike q x) ↔
      SignedLike q (q - ((weights.eraseIdx k).map fun w =>
        HalfAway.round (q * w) weights.sum).sum) := by
    constructor
    · intro hall
      exact hall _ ((apportionExactUnits_perm h hk).mem_iff.mpr mem_cons_self)
    · intro hrest x hx
      rcases mem_cons.mp ((apportionExactUnits_perm h hk).mem_iff.mp hx) with rfl | hx
      · exact hrest
      · exact hothers x hx
  rw [hrest]
  have hmul := sum_mul_round_others hsum hweights hk (abs_nonneg q)
  have hfits : RoundingFits q weights k ↔
      ((weights.eraseIdx k).map fun w => HalfAway.round (|q| * w) weights.sum).sum ≤ |q| := by
    rw [← mul_le_mul_iff_right₀ hsum, hmul, RoundingFits]
    constructor <;> intro h <;> linarith
  rw [hfits]
  rcases lt_or_ge q 0 with hq | hq
  · have hmirror : ((weights.eraseIdx k).map fun w => HalfAway.round (|q| * w) weights.sum).sum =
        -((weights.eraseIdx k).map fun w => HalfAway.round (q * w) weights.sum).sum := by
      rw [abs_of_neg hq, ← ListSum.sum_map_neg]
      simp only [neg_mul, HalfAway.round_neg hsum]
    rw [hmirror, abs_of_neg hq, SignedLike]
    omega
  · rw [abs_of_nonneg hq, SignedLike]
    refine ⟨fun h => by linarith [h.1 hq], fun h => ⟨fun _ => by linarith, fun hq' => ?_⟩⟩
    obtain rfl : q = 0 := le_antisymm hq' hq
    simp [HalfAway.round_zero hsum]

end Quantity

/-! ### The children of a line -/

def residualPlace (weighted : List WeightedTarget) (residualPolicy : AllocationResidualPolicy)
    (residualKey : Option String) : ℕ :=
  match weighted.head?, weighted.getLast? with
  | some first, some last =>
    match absorberKey first last weighted residualPolicy residualKey with
    | .ok absorber => weighted.findIdx fun w => w.key = absorber
    | .error _ => 0
  | _, _ => 0

/-- The rounding of the quantity fits, whatever the targets and weights of the rule come to. A
line without a quantity has none to fit. -/
def QuantityFits (line : EntryLineInput) (rule : RuleInEffect) (opts : ExplodeOptions) : Prop :=
  ∀ ordered weighted units driverTotal, explodeTargets line rule opts = .ok ordered →
    explodeWeights ordered rule.version opts = .ok (weighted, units, driverTotal) →
    ∀ q ∈ line.quantity, RoundingFits q units
      (residualPlace weighted rule.version.residualPolicy rule.version.residualTargetId)

/-- Children keep to a line: their amounts and their quantities make up the line's and have
its signs. -/
structure KeepsLine (line : EntryLineInput) (children : List PlannedEntryLine) : Prop where
  amount_sum : (children.map PlannedEntryLine.amount).sum = line.amount
  amount_signed : ∀ child ∈ children, SignedLike line.amount child.amount
  quantity : ∀ q ∈ line.quantity, ∃ quantities : List ℤ,
    children.map PlannedEntryLine.quantity = quantities.map some ∧ quantities.sum = q ∧
      ∀ x ∈ quantities, SignedLike q x

theorem mapM_parseWeight {α : Type} {f : α → ℤ} {what : String} {xs : List α} {units : List ℤ}
    (h : xs.mapM (fun x => parseWeight (f x) what) = .ok units) : units = xs.map f := by
  rw [mapM_eq_ok] at h
  induction h with
  | nil => rfl
  | cons hx _ ih =>
    simp only [parseWeight, bind_eq_ok, refuseIf_eq_ok, pure_eq_ok] at hx
    obtain ⟨_, -, rfl⟩ := hx
    rw [map_cons, ih]

variable {weighted : List WeightedTarget} {version : AllocationRuleVersion} {opts : ExplodeOptions}

theorem units_eq_of_explodeWeights {targets : List AllocationRuleTarget} {units : List ℤ}
    {driverTotal : Option String}
    (h : explodeWeights targets version opts = .ok (weighted, units, driverTotal)) :
    units = weighted.map WeightedTarget.weight := by
  rw [explodeWeights] at h
  split at h
  · simp only [driverWeights, bind_eq_ok, pure_eq_ok, Prod.mk.injEq] at h
    obtain ⟨_, hunits, rfl, rfl, -⟩ := h
    rw [mapM_parseWeight hunits, map_map]
    rfl
  · simp only [bind_eq_ok, pure_eq_ok, Prod.mk.injEq] at h
    obtain ⟨_, -, _, hunits, rfl, rfl, -⟩ := h
    exact mapM_parseWeight hunits

theorem residualPlace_eq {total : ℤ} {residualPolicy : AllocationResidualPolicy}
    {residualKey : Option String} {result : ApportionResult} (hne : weighted ≠ [])
    (h : apportionTargets total weighted residualPolicy residualKey = .ok result) :
    (weighted.findIdx fun w => some w.key = result.residualKey) < weighted.length ∧
      (weighted.findIdx fun w => some w.key = result.residualKey) =
        residualPlace weighted residualPolicy residualKey := by
  obtain ⟨rfl, -, -⟩ | ⟨first, last, absorber, parts, hfirst, hlast, -, habsorber, -, hparts, rfl⟩ :=
    apportionTargets_cases h
  · exact absurd rfl hne
  · obtain ⟨-, hindex, -⟩ := apportion_cases hparts
    simp only [Option.some.injEq, residualPlace, hfirst, hlast, habsorber, and_true]
    simpa [ApportionResidual.absorber?] using hindex

/-! ### The children of an explosion -/

section Children

variable {line : EntryLineInput} {rule : RuleInEffect} {groupId : String}
  {ordered : List AllocationRuleTarget} {amounts : List ℤ} {quantities costs : List (Option ℤ)}

/-- The children, one for each target. -/
def childrenOf (line : EntryLineInput) (rule : RuleInEffect) (groupId : String)
    (ordered : List AllocationRuleTarget) (amounts : List ℤ) (quantity : ℕ → Option ℤ)
    (costs : List (Option ℤ)) : List PlannedEntryLine :=
  ordered.mapIdx fun i t =>
    explodedChild line rule groupId t (amounts.getD i 0) (quantity i) (costs.getD i none)

theorem map_amount_childrenOf {quantity : ℕ → Option ℤ} (hlen : amounts.length = ordered.length) :
    (childrenOf line rule groupId ordered amounts quantity costs).map PlannedEntryLine.amount =
      amounts :=
  map_mapIdx_getD (f := fun i t amount =>
    explodedChild line rule groupId t amount (quantity i) (costs.getD i none)) hlen
    (fun _ _ _ => rfl) 0

theorem map_quantity_childrenOf {parts : List ℤ} (hlen : parts.length = ordered.length) :
    (childrenOf line rule groupId ordered amounts (fun i => some (parts.getD i 0)) costs).map
      PlannedEntryLine.quantity = parts.map some := by
  refine ext_getElem (by simpa [childrenOf] using hlen.symm) fun i h₁ h₂ => ?_
  have hi : i < parts.length := by simpa using h₂
  simp [childrenOf, explodedChild, getElem?_eq_getElem hi]

end Children

theorem exists_childrenOf {line : EntryLineInput} {rule : RuleInEffect} {result : ExplodeResult}
    (h : explodeDocumentLine line rule opts = .ok result) :
    ∃ ordered weighted driverTotal apportioned quantities costs,
      explodeTargets line rule opts = .ok ordered ∧
      explodeWeights ordered rule.version opts =
        .ok (weighted, weighted.map WeightedTarget.weight, driverTotal) ∧
      apportionTargets line.amount weighted rule.version.residualPolicy
        rule.version.residualTargetId = .ok apportioned ∧
      line.quantity.mapM (fun q => apportionExactUnits q (weighted.map WeightedTarget.weight)
        (if (weighted.findIdx fun w => some w.key = apportioned.residualKey) < weighted.length then
          weighted.findIdx fun w => some w.key = apportioned.residualKey else 0)) = .ok quantities ∧
      result.children = childrenOf line rule opts.groupId ordered
        (apportioned.targets.map ApportionedTarget.amount)
        (fun i => quantities.map (·.getD i 0)) costs := by
  simp only [explodeDocumentLine, bind_eq_ok, refuseIf_eq_ok, pure_eq_ok] at h
  obtain ⟨_, -, ordered, hordered, ⟨weighted, units, driverTotal⟩, hweights, apportioned,
    happortioned, quantities, hquantities, costs, -, rfl⟩ := h
  simp only [apportionMoney, mapError_eq_ok] at happortioned
  obtain rfl := units_eq_of_explodeWeights hweights
  exact ⟨ordered, weighted, driverTotal, apportioned, quantities, costs, hordered, hweights,
    happortioned, hquantities, rfl⟩

/-- The parts of a quantity are as many as the targets, make it up, and have its sign just when
the rounding fits. -/
theorem parts_of_explosion {total q : ℤ} {apportioned : ApportionResult} {parts : List ℤ}
    (happortioned : apportionTargets total weighted version.residualPolicy
      version.residualTargetId = .ok apportioned)
    (hparts : apportionExactUnits q (weighted.map WeightedTarget.weight)
      (if (weighted.findIdx fun w => some w.key = apportioned.residualKey) < weighted.length then
        weighted.findIdx fun w => some w.key = apportioned.residualKey else 0) = .ok parts) :
    parts.length = weighted.length ∧ parts.sum = q ∧
      ((∀ x ∈ parts, SignedLike q x) ↔ RoundingFits q (weighted.map WeightedTarget.weight)
        (residualPlace weighted version.residualPolicy version.residualTargetId)) := by
  have hne : weighted ≠ [] := by
    rintro rfl
    exact absurd (apportionExactUnits_eq_ok hparts).1 (by simp)
  obtain ⟨hlt, hplace⟩ := residualPlace_eq hne happortioned
  rw [if_pos hlt, hplace] at hparts
  have hk : residualPlace weighted version.residualPolicy version.residualTargetId <
      (weighted.map WeightedTarget.weight).length := by
    rw [length_map, ← hplace]
    exact hlt
  obtain ⟨hlength, hsum⟩ := sum_apportionExactUnits hparts hk
  have hweights := weight_nonneg_of_apportionTargets happortioned
  exact ⟨by rw [hlength, length_map], hsum, signed_apportionExactUnits_iff hparts hweights hk⟩

/-- **The children of a line keep to it just when the rounding of the quantity fits.** -/
theorem explodeDocumentLine_keeps_line_iff {line : EntryLineInput} {rule : RuleInEffect}
    {opts : ExplodeOptions} {result : ExplodeResult}
    (h : explodeDocumentLine line rule opts = .ok result) :
    KeepsLine line result.children ↔ QuantityFits line rule opts := by
  obtain ⟨ordered, weighted, driverTotal, apportioned, quantities, costs, hordered, hweights,
    happortioned, hquantities, hchildren⟩ := exists_childrenOf h
  have hlength := length_explodeWeights hweights
  obtain ⟨hsum, hlen⟩ := sum_apportionTargets happortioned
  have hamounts : result.children.map PlannedEntryLine.amount =
      apportioned.targets.map ApportionedTarget.amount := by
    rw [hchildren]
    exact map_amount_childrenOf (by rw [length_map, hlen, hlength])
  have hsigned : ∀ child ∈ result.children, SignedLike line.amount child.amount := by
    intro child hchild
    have hmem : child.amount ∈ apportioned.targets.map ApportionedTarget.amount :=
      hamounts ▸ mem_map_of_mem hchild
    obtain ⟨t, ht, hamount⟩ := mem_map.mp hmem
    exact hamount ▸ signed_apportionTargets happortioned t ht
  rcases hq : line.quantity with _ | q
  · refine iff_of_true ⟨(congrArg List.sum hamounts).trans hsum, hsigned, by simp [hq]⟩ ?_
    intro _ _ _ _ _ _ q hq'
    simp [hq] at hq'
  · rw [hq] at hquantities
    rw [Option.mapM_some, map_eq_ok] at hquantities
    obtain ⟨parts, hparts, rfl⟩ := hquantities
    obtain ⟨hpartsLength, hpartsSum, hiff⟩ := parts_of_explosion happortioned hparts
    have hquantity : result.children.map PlannedEntryLine.quantity = parts.map some := by
      rw [hchildren]
      exact map_quantity_childrenOf (by rw [hpartsLength, hlength])
    constructor
    · intro hkeeps ordered' weighted' units' driverTotal' hordered' hweights' q' hq'
      obtain rfl := Except.ok.inj (hordered.symm.trans hordered')
      obtain ⟨rfl, rfl, rfl⟩ : weighted = weighted' ∧ weighted.map WeightedTarget.weight = units' ∧
          driverTotal = driverTotal' := by
        simpa using hweights.symm.trans hweights'
      obtain rfl : q = q' := by simpa [hq] using hq'
      obtain ⟨qs, hqs, -, hqs_signed⟩ := hkeeps.quantity q (by simp [hq])
      have hqs : parts = qs := map_injective_iff.mpr (Option.some_injective ℤ)
        (hquantity.symm.trans hqs)
      exact hiff.mp (hqs ▸ hqs_signed)
    · intro hfits
      refine ⟨(congrArg List.sum hamounts).trans hsum, hsigned, ?_⟩
      intro q' hq'
      obtain rfl : q = q' := by simpa [hq] using hq'
      exact ⟨parts, hquantity, hpartsSum,
        hiff.mpr (hfits ordered weighted _ driverTotal hordered hweights q (by simp [hq]))⟩

/-- Ten heads in each of three departments and none at headquarters, which takes the
residual. -/
def headcountRule : RuleInEffect where
  rule := { id := "rule", key := "headcount", name := "Headcount", sortOrder := 1 }
  version := { id := "version", basisKind := .driver, residualPolicy := .lastTarget }
  targets := [
    { sequence := 1, departmentId := some "north" },
    { sequence := 2, departmentId := some "south" },
    { sequence := 3, departmentId := some "west" }, { sequence := 4, departmentId := some "hq" }]

def headcountOptions : ExplodeOptions where
  driverVector := some [("north", 100000000000), ("south", 100000000000), ("west", 100000000000)]
  driverDimension := some "department"
  groupId := "group"

/-- A cost of 300 for a number of units. -/
def sharedLine (quantity : ℤ) : EntryLineInput where
  accountId := "6000"
  amount := 3000000
  quantity := some quantity

/-- Three units are one for each department. -/
theorem explodeDocumentLine_keeps_line_of_three :
    ∃ result, explodeDocumentLine (sharedLine 300000000) headcountRule headcountOptions =
        .ok result ∧
      KeepsLine (sharedLine 300000000) result.children := by
  obtain ⟨result, hresult⟩ := exists_of_isOk
    (show (explodeDocumentLine (sharedLine 300000000) headcountRule headcountOptions).isOk = true by
      decide +kernel)
  refine ⟨result, hresult, (explodeDocumentLine_keeps_line_iff hresult).mpr ?_⟩
  have htargets : explodeTargets (sharedLine 300000000) headcountRule headcountOptions =
      .ok headcountRule.targets := by decide +kernel
  have hweights : explodeWeights headcountRule.targets headcountRule.version headcountOptions =
      .ok ([⟨"sequence:1", 100000000000, false⟩, ⟨"sequence:2", 100000000000, false⟩,
        ⟨"sequence:3", 100000000000, false⟩, ⟨"sequence:4", 0, false⟩],
        [100000000000, 100000000000, 100000000000, 0], some "30.0000") := by decide +kernel
  intro ordered weighted units driverTotal hordered hunits q hq
  obtain rfl := Except.ok.inj (htargets.symm.trans hordered)
  have hunits := hweights.symm.trans hunits
  simp only [Except.ok.injEq, Prod.mk.injEq] at hunits
  obtain ⟨rfl, rfl, rfl⟩ := hunits
  obtain rfl : 300000000 = q := Option.some.inj hq
  decide +kernel

/-- Two units are two thirds for each department, rounded up, and less than nothing for
headquarters. -/
theorem explodeDocumentLine_negative_quantity :
    ∃ result, explodeDocumentLine (sharedLine 200000000) headcountRule headcountOptions =
        .ok result ∧
      result.children.map PlannedEntryLine.quantity =
        [some 66666667, some 66666667, some 66666667, some (-1)] ∧
      ¬KeepsLine (sharedLine 200000000) result.children := by
  have hquantity : (explodeDocumentLine (sharedLine 200000000) headcountRule headcountOptions).map
      (fun result => result.children.map PlannedEntryLine.quantity) =
        .ok [some 66666667, some 66666667, some 66666667, some (-1)] := by decide +kernel
  obtain ⟨result, hresult, hquantity⟩ := map_eq_ok.mp hquantity
  refine ⟨result, hresult, hquantity, fun hkeeps => ?_⟩
  obtain ⟨quantities, hquantities, -, hsigned⟩ := hkeeps.quantity 200000000 rfl
  have hmem : some (-1) ∈ quantities.map some := by
    rw [← hquantities, hquantity]
    decide
  obtain ⟨x, hx, hx'⟩ := mem_map.mp hmem
  obtain rfl : x = -1 := Option.some.inj hx'
  exact absurd ((hsigned _ hx).1 (by decide)) (by decide)

end OpenBooks
