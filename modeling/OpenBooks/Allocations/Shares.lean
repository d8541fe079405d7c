import OpenBooks.Allocations.LargestRemainder

/-!
# What every part is

Whatever a split is accepted for, its parts make up the total and none has the other sign
(`shares_of_apportion`); and where one part absorbs the residual, every other is
its exact share floored toward zero (`floored_of_apportion`). The same is then
said of keyed targets (`apportionTargets_cases`,
`floored_of_apportionTargets`).
-/

namespace OpenBooks

open Checked List

/-! ### Signs -/

/-- The sign of the total, or zero. -/
def SignedLike (total x : ℤ) : Prop := (0 ≤ total → 0 ≤ x) ∧ (total ≤ 0 → x ≤ 0)

instance (total x : ℤ) : Decidable (SignedLike total x) := inferInstanceAs (Decidable (_ ∧ _))

theorem signedLike_zero (total : ℤ) : SignedLike total 0 := ⟨fun _ => le_rfl, fun _ => le_rfl⟩

theorem SignedLike.neg {total x : ℤ} (h : SignedLike total x) : SignedLike (-total) (-x) := by
  obtain ⟨hpos, hneg⟩ := h
  constructor
  · intro htotal
    exact neg_nonneg.mpr (hneg (by omega))
  · intro htotal
    exact neg_nonpos.mpr (hpos (by omega))

theorem signedLike_of_nonneg {total x : ℤ} (htotal : 0 < total) (hx : 0 ≤ x) :
    SignedLike total x :=
  ⟨fun _ => hx, fun h => absurd htotal h.not_gt⟩

/-! ### Parts -/

/-- The parts make up the total, and none has the other sign. -/
structure Shares (total : ℤ) (weights parts : List ℤ) : Prop where
  length : parts.length = weights.length
  sum : parts.sum = total
  signed : ∀ x ∈ parts, SignedLike total x

section Parts

variable {total : ℤ} {weights parts : List ℤ} {residual : ApportionResidual}

/-- What a split comes to. -/
theorem apportion_cases (h : apportion total weights residual = .ok parts) :
    (∀ w ∈ weights, 0 ≤ w) ∧ (∀ k ∈ residual.absorber?, k < weights.length) ∧
      ((total = 0 ∧ parts = weights.map fun _ => 0) ∨
        (total ≠ 0 ∧ 0 < weights.sum ∧ parts = if total < 0 then
          (apportionMagnitude (-total) weights residual).map (- ·)
          else apportionMagnitude total weights residual)) := by
  simp only [apportion, bind_eq_ok, refuseIf_eq_ok] at h
  obtain ⟨_, hweights, _, hresidual, h⟩ := h
  have hweights : ∀ w ∈ weights, 0 ≤ w := by simpa using hweights
  have hresidual : ∀ k ∈ residual.absorber?, k < weights.length := by simpa using hresidual
  refine ⟨hweights, hresidual, ?_⟩
  by_cases hzero : total = 0
  · rw [if_pos hzero] at h
    exact Or.inl ⟨hzero, (pure_eq_ok.mp h).symm⟩
  · rw [if_neg hzero] at h
    simp only [bind_eq_ok, refuseIf_eq_ok, pure_eq_ok] at h
    obtain ⟨_, hsum, h⟩ := h
    exact Or.inr ⟨hzero, lt_of_le_of_ne (List.sum_nonneg hweights) (Ne.symm hsum), h.symm⟩

/-- **The parts of a split make up the total and have its sign.** -/
theorem shares_of_apportion (h : apportion total weights residual = .ok parts) :
    Shares total weights parts := by
  obtain ⟨hweights, hresidual, ⟨rfl, rfl⟩ | ⟨hne, hsum, rfl⟩⟩ := apportion_cases h
  · refine ⟨length_map _, by simp, ?_⟩
    intro x hx
    obtain ⟨_, -, rfl⟩ := mem_map.mp hx
    exact signedLike_zero 0
  · split_ifs with hneg
    · have hsplit := apportioned_apportionMagnitude residual hsum (-total) hresidual
      have hnonneg := apportionMagnitude_nonneg hweights hsum (neg_pos.mpr hneg).le residual
      refine ⟨by rw [length_map, hsplit.length], ?_, ?_⟩
      · rw [← sum_neg, hsplit.sum, neg_neg]
      · intro x hx
        obtain ⟨y, hy, rfl⟩ := mem_map.mp hx
        have := (signedLike_of_nonneg (neg_pos.mpr hneg) (hnonneg y hy)).neg
        rwa [neg_neg] at this
    · have hpos : 0 < total := lt_of_le_of_ne (not_lt.mp hneg) (Ne.symm hne)
      have hsplit := apportioned_apportionMagnitude residual hsum total hresidual
      have hnonneg := apportionMagnitude_nonneg hweights hsum hpos.le residual
      exact ⟨hsplit.length, hsplit.sum, fun x hx => signedLike_of_nonneg hpos (hnonneg x hx)⟩

/-- **Every part but the absorbing one is its exact share, floored toward zero.** -/
theorem floored_of_apportion {k i : ℕ} (h : apportion total weights (.absorber k) = .ok parts)
    (hi : i < weights.length) (hne : i ≠ k) :
    parts.getD i 0 = (total * weights.getD i 0).tdiv weights.sum := by
  obtain ⟨hweights, hresidual, ⟨rfl, rfl⟩ | ⟨-, hsum, rfl⟩⟩ := apportion_cases h
  · rw [getD_map_zero rfl weights, zero_mul, Int.zero_tdiv]
  · have hw : 0 ≤ weights.getD i 0 := by
      rw [getD_eq_getElem _ _ hi]
      exact hweights _ (getElem_mem hi)
    have hfloor : ∀ m, (apportionMagnitude m weights (.absorber k)).getD i 0 =
        m * weights.getD i 0 / weights.sum := fun m =>
      (apportioned_apportionMagnitude (.absorber k) hsum m hresidual).others_floored k rfl i hi hne
    split_ifs with hneg
    · have hpart : ((apportionMagnitude (-total) weights (.absorber k)).map (- ·)).getD i 0 =
          -(apportionMagnitude (-total) weights (.absorber k)).getD i 0 :=
        getD_map_zero neg_zero _ i
      have hnonneg : 0 ≤ -total * weights.getD i 0 := mul_nonneg (neg_pos.mpr hneg).le hw
      rw [hpart, hfloor, ← Int.tdiv_eq_ediv_of_nonneg hnonneg, ← Int.neg_tdiv, neg_mul, neg_neg]
    · rw [hfloor, Int.tdiv_eq_ediv_of_nonneg (mul_nonneg (not_lt.mp hneg) hw)]

end Parts

/-! ### Keyed targets -/

section Targets

variable {total : ℤ} {weights : List WeightedTarget} {residualPolicy : AllocationResidualPolicy}
  {residualKey : Option String} {result : ApportionResult} {seen keys : List String}

theorem nodup_of_duplicateKey (h : duplicateKey seen keys = none) :
    keys.Nodup ∧ ∀ key ∈ keys, key ∉ seen := by
  induction keys generalizing seen with
  | nil => exact ⟨nodup_nil, by simp⟩
  | cons key keys ih =>
    rw [duplicateKey] at h
    split_ifs at h with hseen
    obtain ⟨hnodup, hnew⟩ := ih h
    refine ⟨nodup_cons.mpr ⟨fun hmem => hnew key hmem mem_cons_self, hnodup⟩, ?_⟩
    rintro key' (_ | ⟨_, hmem⟩)
    · exact hseen
    · exact fun hseen' => hnew key' hmem (mem_cons_of_mem key hseen')

theorem duplicateKey_eq_none (hnodup : keys.Nodup) (hnew : ∀ key ∈ keys, key ∉ seen) :
    duplicateKey seen keys = none := by
  induction keys generalizing seen with
  | nil => rfl
  | cons key keys ih =>
    obtain ⟨hkey, hnodup⟩ := nodup_cons.mp hnodup
    rw [duplicateKey, if_neg (hnew key mem_cons_self)]
    refine ih hnodup fun key' hmem hseen => ?_
    rcases mem_cons.mp hseen with rfl | hseen
    · exact hkey hmem
    · exact hnew key' (mem_cons_of_mem key hmem) hseen

/-- The targets of an accepted apportionment over an absorber. -/
def keyedTargets (total : ℤ) (weights : List WeightedTarget) (absorber : String)
    (parts : List ℤ) : List ApportionedTarget :=
  (weights.zip parts).mapIdx (apportionedTarget total (weights.map WeightedTarget.weight).sum
    (weights.findIdx fun w => w.key = absorber))

/-- The two ways an apportionment over keyed targets is accepted: over none, for nothing; or
with an absorber found by the policy. -/
theorem apportionTargets_cases
    (h : apportionTargets total weights residualPolicy residualKey = .ok result) :
    (weights = [] ∧ total = 0 ∧ result = ⟨0, 0, [], none⟩) ∨
      ∃ first last absorber parts, weights.head? = some first ∧ weights.getLast? = some last ∧
        (weights.map WeightedTarget.key).Nodup ∧
        absorberKey first last weights residualPolicy residualKey = .ok absorber ∧
        (weights.map WeightedTarget.weight).sum ≠ 0 ∧
        apportion total (weights.map WeightedTarget.weight)
          (.absorber (weights.findIdx fun w => w.key = absorber)) = .ok parts ∧
        result = ⟨total, (weights.map WeightedTarget.weight).sum,
          keyedTargets total weights absorber parts, some absorber⟩ := by
  simp only [apportionTargets, bind_eq_ok, refuseIf_eq_ok] at h
  obtain ⟨_, hduplicate, _, -, _, -, h⟩ := h
  have hduplicate : duplicateKey [] (weights.map WeightedTarget.key) = none := by
    simpa using hduplicate
  split at h
  · rename_i first last hfirst hlast
    simp only [bind_eq_ok, refuseIf_eq_ok, pure_eq_ok, mapError_eq_ok] at h
    obtain ⟨absorber, habsorber, _, hsum, parts, hparts, rfl⟩ := h
    exact Or.inr ⟨first, last, absorber, parts, hfirst, hlast,
      (nodup_of_duplicateKey hduplicate).1, habsorber, hsum, hparts, rfl⟩
  · rename_i hempty
    simp only [bind_eq_ok, refuseIf_eq_ok, pure_eq_ok, not_not] at h
    obtain ⟨_, rfl, rfl⟩ := h
    rcases weights with _ | ⟨w, ws⟩
    · exact Or.inl ⟨rfl, rfl, rfl⟩
    · obtain ⟨last, hlast⟩ := Option.isSome_iff_exists.mp
        (getLast?_isSome.mpr (cons_ne_nil w ws))
      exact absurd hlast (hempty w last rfl)

variable {first last : WeightedTarget}

theorem apportionTargets_of {absorber : String} {parts : List ℤ}
    (hfirst : weights.head? = some first) (hlast : weights.getLast? = some last)
    (hnodup : (weights.map WeightedTarget.key).Nodup)
    (hremainder : (weights.filter WeightedTarget.isRemainder).length ≤ 1)
    (habsorber : absorberKey first last weights residualPolicy residualKey = .ok absorber)
    (hsum : (weights.map WeightedTarget.weight).sum ≠ 0)
    (hparts : apportion total (weights.map WeightedTarget.weight)
      (.absorber (weights.findIdx fun w => w.key = absorber)) = .ok parts) :
    apportionTargets total weights residualPolicy residualKey =
      .ok ⟨total, (weights.map WeightedTarget.weight).sum,
        keyedTargets total weights absorber parts, some absorber⟩ := by
  simp only [apportionTargets, bind_eq_ok, refuseIf_eq_ok]
  refine ⟨(), ?_, (), ?_, (), not_lt.mpr hremainder, ?_⟩
  · rw [duplicateKey_eq_none hnodup (by simp)]
    decide
  · rintro ⟨w, hw, hneg⟩
    exact hneg.not_ge ((apportion_cases hparts).1 _ (mem_map_of_mem hw))
  · simp only [hfirst, hlast, habsorber, bind_eq_ok, refuseIf_eq_ok, pure_eq_ok, mapError_eq_ok]
    exact ⟨absorber, rfl, (), hsum, parts, hparts, rfl⟩

theorem mem_of_absorberKey {absorber : String} (hfirst : weights.head? = some first)
    (hlast : weights.getLast? = some last)
    (h : absorberKey first last weights residualPolicy residualKey = .ok absorber) :
    absorber ∈ weights.map WeightedTarget.key := by
  have hheaviest : heaviest first weights ∈ weights := by
    suffices hrun : ∀ (ws : List WeightedTarget) (best : WeightedTarget),
        (ws.foldl (fun best w => if best.weight < w.weight then w else best) best) ∈ best :: ws by
      rcases mem_cons.mp (hrun weights first) with hbest | hbest
      · rw [heaviest, hbest]
        exact mem_of_mem_head? hfirst
      · exact hbest
    intro ws
    induction ws with
    | nil => simp
    | cons w ws ih =>
      intro best
      rw [foldl_cons]
      split_ifs
      · exact mem_cons_of_mem best (ih w)
      · rcases mem_cons.mp (ih best) with hbest | hbest
        · rw [hbest]
          exact mem_cons_self
        · exact mem_cons_of_mem best (mem_cons_of_mem w hbest)
  have hremainder : ∀ r, weights.find? WeightedTarget.isRemainder = some r →
      r.key ∈ weights.map WeightedTarget.key := fun r hr =>
    mem_map_of_mem (mem_of_find?_eq_some hr)
  unfold absorberKey at h
  dsimp only at h
  split at h
  · simp only [bind_eq_ok, refuseIf_eq_ok, pure_eq_ok, not_not] at h
    obtain ⟨_, hmem, rfl⟩ := h
    exact hmem
  · rename_i r hr
    obtain rfl := Except.ok.inj h
    exact hremainder r hr
  · cases h
  · rename_i r _ _ hr
    obtain rfl := Except.ok.inj h
    exact hremainder r hr
  · obtain rfl := Except.ok.inj h
    exact mem_map_of_mem (mem_of_mem_head? hfirst)
  · obtain rfl := Except.ok.inj h
    exact mem_map_of_mem (mem_of_getLast? hlast)
  · obtain rfl := Except.ok.inj h
    exact mem_map_of_mem hheaviest

section Keyed

variable {absorber : String} {parts : List ℤ}

theorem map_keyedTargets {α : Type} {f : ApportionedTarget → α} {g : WeightedTarget × ℤ → α}
    (hf : ∀ weightTotal k i p, f (apportionedTarget total weightTotal k i p) = g p) :
    (keyedTargets total weights absorber parts).map f = (weights.zip parts).map g :=
  map_mapIdx_of_forall fun i p => hf _ _ i p

theorem map_key_keyedTargets (hlen : parts.length = weights.length) :
    (keyedTargets total weights absorber parts).map ApportionedTarget.key =
      weights.map WeightedTarget.key := by
  rw [map_keyedTargets (g := fun p => p.1.key) fun _ _ _ _ => rfl]
  conv_rhs => rw [← map_fst_zip hlen.ge, map_map]
  rfl

theorem map_amount_keyedTargets (hlen : parts.length = weights.length) :
    (keyedTargets total weights absorber parts).map ApportionedTarget.amount = parts := by
  rw [map_keyedTargets (g := Prod.snd) fun _ _ _ _ => rfl, map_snd_zip hlen.le]

theorem mem_of_findIdx_lt (h : weights.findIdx (fun w => w.key = absorber) < weights.length) :
    absorber ∈ weights.map WeightedTarget.key := by
  obtain ⟨w, hw, hkey⟩ := findIdx_lt_length.mp h
  exact mem_map.mpr ⟨w, hw, of_decide_eq_true hkey⟩

end Keyed

variable (h : apportionTargets total weights residualPolicy residualKey = .ok result)

include h

/-- **Only the target with the residual may differ from its exact share**, floored toward
zero; the amounts make up the total, and one target has the residual. -/
theorem floored_of_apportionTargets :
    (result.targets.map ApportionedTarget.amount).sum = total ∧
      result.targets.map ApportionedTarget.key = weights.map WeightedTarget.key ∧
      (weights ≠ [] → ∃ key, result.residualKey = some key ∧
        (result.targets.map ApportionedTarget.key).count key = 1) ∧
      ∀ t ∈ result.targets, some t.key ≠ result.residualKey →
        t.amount = (total * t.weight).tdiv result.weightTotal ∧ t.residual = 0 := by
  obtain ⟨rfl, rfl, rfl⟩ | ⟨first, last, absorber, parts, -, -, hnodup, -, -, hparts, rfl⟩ :=
    apportionTargets_cases h
  · exact ⟨rfl, rfl, fun hne => absurd rfl hne, by simp⟩
  · obtain ⟨hlen, hsum, -⟩ := shares_of_apportion hparts
    have hlen : parts.length = weights.length := by simpa using hlen
    obtain ⟨-, hindex, -⟩ := apportion_cases hparts
    have hindex : weights.findIdx (fun w => w.key = absorber) < weights.length := by
      simpa [ApportionResidual.absorber?] using hindex
    refine ⟨?_, map_key_keyedTargets hlen, fun _ => ⟨absorber, rfl, ?_⟩, ?_⟩
    · rw [map_amount_keyedTargets hlen, hsum]
    · rw [map_key_keyedTargets hlen]
      exact count_eq_one_of_mem hnodup (mem_of_findIdx_lt hindex)
    · intro t ht hne
      obtain ⟨i, hi, rfl⟩ := mem_mapIdx.mp ht
      have hi' : i < weights.length := by
        rw [length_zip, hlen, min_self] at hi
        exact hi
      have hother : i ≠ weights.findIdx fun w => w.key = absorber := by
        rintro rfl
        have hkey := findIdx_getElem (w := hindex)
        refine hne (congrArg some ?_)
        simpa [apportionedTarget] using hkey
      refine ⟨?_, if_neg hother⟩
      have hfloor := floored_of_apportion hparts (by simpa using hi') hother
      rw [getD_eq_getElem _ _ (by omega), getD_eq_getElem _ _ (by simpa using hi'),
        getElem_map] at hfloor
      simpa [apportionedTarget] using hfloor

theorem weight_nonneg_of_apportionTargets : ∀ w ∈ weights.map WeightedTarget.weight, 0 ≤ w := by
  obtain ⟨rfl, -, -⟩ | ⟨-, -, absorber, parts, -, -, -, -, -, hparts, -⟩ := apportionTargets_cases h
  · simp
  · exact (apportion_cases hparts).1

theorem signed_apportionTargets : ∀ t ∈ result.targets, SignedLike total t.amount := by
  obtain ⟨rfl, rfl, rfl⟩ | ⟨-, -, absorber, parts, -, -, -, -, -, hparts, rfl⟩ :=
    apportionTargets_cases h
  · simp
  · obtain ⟨hlen, -, hsigned⟩ := shares_of_apportion hparts
    intro t ht
    have hmem := mem_map_of_mem (f := ApportionedTarget.amount) ht
    rw [map_amount_keyedTargets (by simpa using hlen)] at hmem
    exact hsigned _ hmem

end Targets

end OpenBooks
