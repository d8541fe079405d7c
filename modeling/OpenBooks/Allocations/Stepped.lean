import OpenBooks.Allocations.Explode
import OpenBooks.Allocations.Shares
import OpenBooks.Lib.Bands

/-!
# Percents and tiers as weights

Two ways of writing down a split are turned into weights of an apportionment: a grid of percents
with at most one target for the remainder, and tiers that each take their slice of the
total. In both the weights are exact – the percents make up a hundred
(`sum_fixedPercentWeights`), the slices the total (`sum_steppedWeights`) –
and so nothing is left over when the total is apportioned over its own slices
(`apportionTargets_steppedWeights`).

A slice is what the total and the band of a tier share, in the sense of `Bands.overlap`.
-/

namespace OpenBooks

open Checked List Bands

/-! ### Percents -/

section Percents

variable {targets : List AllocationRuleTarget} {out : List WeightedTarget}

theorem fixedPercentWeight_eq_ok {t : AllocationRuleTarget} {w : WeightedTarget}
    (h : fixedPercentWeight t = .ok w) : w.isRemainder = t.isRemainder ∧
      w.weight = if t.isRemainder then 0 else t.fixedPercent.getD 0 * PERCENT_WEIGHT := by
  unfold fixedPercentWeight at h
  split_ifs at h with hremainder
  · obtain rfl := Except.ok.inj h
    simp [hremainder]
  · simp only [bind_eq_ok, orRefuse_eq_ok, refuseIf_eq_ok, pure_eq_ok] at h
    obtain ⟨units, hunits, _, -, rfl⟩ := h
    simp [hremainder, hunits]

/-- A grid as it is weighted: the stated percents, and the rest for each target that takes the
remainder. -/
theorem sum_weights_of_grid (rest : ℤ)
    (h : List.Forall₂ (fun t w => fixedPercentWeight t = .ok w) targets out) :
    (out.map fun w => if w.isRemainder then rest else w.weight).sum =
        (targets.filter AllocationRuleTarget.isRemainder).length * rest +
          fixedPercentSum targets * PERCENT_WEIGHT ∧
      (out.all (fun w => !w.isRemainder) ↔
        (targets.filter AllocationRuleTarget.isRemainder).length = 0) := by
  induction h with
  | nil => simp [fixedPercentSum]
  | cons hw _ ih =>
    obtain ⟨hremainder, hweight⟩ := fixedPercentWeight_eq_ok hw
    obtain ⟨hsum, hall⟩ := ih
    rename_i t w targets out _
    cases ht : t.isRemainder with
    | true =>
      simp only [map_cons, sum_cons, hremainder, ht, if_true, hsum, fixedPercentSum,
        filter_cons, Bool.not_true, Bool.false_eq_true, if_false, length_cons,
        all_cons, Bool.false_and]
      refine ⟨by push_cast; ring, by simp⟩
    | false =>
      simp only [map_cons, sum_cons, hremainder, ht, if_false, hsum, fixedPercentSum,
        filter_cons, Bool.not_false, Bool.false_eq_true, if_true, all_cons,
        Bool.true_and, hweight]
      refine ⟨by ring, hall⟩

/-- **The weights of a grid make up a hundred percent.** -/
theorem sum_fixedPercentWeights {weighted : List WeightedTarget}
    (h : fixedPercentWeights targets = .ok weighted) :
    (weighted.map WeightedTarget.weight).sum = 100 * WEIGHT_SCALE := by
  simp only [fixedPercentWeights, bind_eq_ok, refuseIf_eq_ok, pure_eq_ok] at h
  obtain ⟨_, hone, out, hout, _, habove, _, hbelow, rfl⟩ := h
  obtain ⟨hsum, hall⟩ := sum_weights_of_grid
    ((PERCENT_HUNDRED_UNITS - fixedPercentSum targets) * PERCENT_WEIGHT) (mapM_eq_ok.mp hout)
  have hweights : ((out.map fun w => if w.isRemainder then
      { w with weight := (PERCENT_HUNDRED_UNITS - fixedPercentSum targets) * PERCENT_WEIGHT }
      else w).map WeightedTarget.weight) = out.map fun w => if w.isRemainder then
        (PERCENT_HUNDRED_UNITS - fixedPercentSum targets) * PERCENT_WEIGHT else w.weight := by
    rw [map_map]
    refine map_congr_left fun w _ => ?_
    simp only [Function.comp]
    split_ifs <;> rfl
  rw [hweights, hsum]
  rcases Nat.le_one_iff_eq_zero_or_eq_one.mp (not_lt.mp hone) with hnone | hone
  · have hfull : ¬fixedPercentSum targets < PERCENT_HUNDRED_UNITS := fun hlt =>
      hbelow ⟨hall.mpr hnone, hlt⟩
    have hsum : fixedPercentSum targets = PERCENT_HUNDRED_UNITS := by omega
    rw [hnone, hsum]
    decide
  · rw [hone]
    have hhundred : PERCENT_HUNDRED_UNITS * PERCENT_WEIGHT = 100 * WEIGHT_SCALE := by decide
    rw [← hhundred]
    push_cast
    ring

end Percents

/-! ### Tiers -/

/-- One marginal slice of a stepped basis: its inclusive upper bound, if it has one, and the
key of its target. -/
structure SteppedTier where
  upTo : Option ℤ
  targetKey : Option String := none

def SteppedTier.key (tier : SteppedTier) (index : ℕ) : String :=
  tier.targetKey.getD ("tier:" ++ toString (index + 1))

/-- Ten-billionths in one ten-thousandth of money. -/
def MONEY_WEIGHT : ℤ := 1000000

/-- What has come of the tiers so far. -/
structure SteppedState where
  seen : List String
  prev : ℤ
  remaining : ℤ

/-- Refuse a bound that is negative, or no higher than the one before. -/
def checkBound (key : String) (prev cap : ℤ) : Except AllocationApportionError Unit := do
  refuseIf (cap < 0) (⟨.steppedTiers, "stepped tier \"" ++ key ++ "\" bound is negative: \"" ++
    fromUnits cap ++ "\""⟩ : AllocationApportionError)
  refuseIf (cap ≤ prev) (⟨.steppedTiers, "stepped tier \"" ++ key ++ "\" bound must ascend past " ++
    fromUnits prev ++ ": \"" ++ fromUnits cap ++ "\""⟩ : AllocationApportionError)

/-- One tier: it takes its slice of what remains. -/
def steppedTier (index : ℕ) (last : Bool) (state : SteppedState) (tier : SteppedTier) :
    Except AllocationApportionError (WeightedTarget × SteppedState) := do
  let key := tier.key index
  refuseIf (key ∈ state.seen) (⟨.duplicateKey, "duplicate stepped tier key: \"" ++ key ++ "\""⟩ :
    AllocationApportionError)
  match tier.upTo with
  | some cap => do
    checkBound key state.prev cap
    let width := cap - state.prev
    let take := if width < state.remaining then width else state.remaining
    return (⟨key, take * MONEY_WEIGHT, false⟩, ⟨key :: state.seen, cap, state.remaining - take⟩)
  | none => do
    refuseIf (¬last) (⟨.steppedTiers, "open stepped tier \"" ++ key ++ "\" must be the last tier"⟩ :
      AllocationApportionError)
    return (⟨key, state.remaining * MONEY_WEIGHT, false⟩, ⟨key :: state.seen, state.prev, 0⟩)

/-- The tiers from a place on. -/
def steppedTiers : ℕ → SteppedState → List SteppedTier →
    Except AllocationApportionError (List WeightedTarget × SteppedState)
  | _, state, [] => .ok ([], state)
  | index, state, tier :: tiers => do
    let (target, state) ← steppedTier index tiers.isEmpty state tier
    let (targets, state) ← steppedTiers (index + 1) state tiers
    return (target :: targets, state)

/-- Convert stepped tiers to apportion weights. -/
def steppedWeights (total : ℤ) (tiers : List SteppedTier) :
    Except AllocationApportionError (List WeightedTarget) := do
  refuseIf (tiers = []) (⟨.steppedTiers, "stepped basis needs at least one tier"⟩ :
    AllocationApportionError)
  let (targets, state) ← steppedTiers 0 ⟨[], 0, |total|⟩ tiers
  refuseIf (0 < state.remaining) (⟨.steppedTiers, "stepped tiers cap at " ++ fromUnits state.prev ++
    " below the total " ++ fromUnits total ++ "; refusing to drop money"⟩ : AllocationApportionError)
  return targets

/-- The slices of a magnitude: what it shares with the band of each tier. -/
def tierSlices (m : ℤ) : ℤ → List SteppedTier → List ℤ
  | _, [] => []
  | floor, tier :: tiers =>
    overlap floor tier.upTo 0 m :: tierSlices m (tier.upTo.getD m) tiers

/-! ### What tiers take -/

section Tiers

variable {m : ℤ} {index : ℕ} {last : Bool} {state next : SteppedState} {tier : SteppedTier}
  {tiers : List SteppedTier} {target : WeightedTarget} {targets : List WeightedTarget}

/-- The part of a magnitude above the bound is what remains. -/
structure SteppedState.Stands (state : SteppedState) (m : ℤ) : Prop where
  prev_nonneg : 0 ≤ state.prev
  remaining_eq : state.remaining = max 0 (m - state.prev)

/-- What a tier does: it takes its slice, under a key of its own, and unless it is open the rest
stands above its bound. -/
theorem steppedTier_spec (hstands : state.Stands m)
    (h : steppedTier index last state tier = .ok (target, next)) :
    target.weight = overlap state.prev tier.upTo 0 m * MONEY_WEIGHT ∧
      target.isRemainder = false ∧ target.key ∉ state.seen ∧
      next.seen = target.key :: state.seen ∧
      next.remaining = state.remaining - overlap state.prev tier.upTo 0 m ∧
      0 ≤ next.remaining ∧
      ((last = true ∧ tier.upTo = none) ∨
        ∃ cap, tier.upTo = some cap ∧ next.prev = cap ∧ next.Stands m) := by
  obtain ⟨hprev, hremaining⟩ := hstands
  simp only [steppedTier, bind_eq_ok, refuseIf_eq_ok] at h
  obtain ⟨_, hseen, h⟩ := h
  cases hup : tier.upTo with
  | none =>
    simp only [hup, bind_eq_ok, refuseIf_eq_ok, pure_eq_ok, Prod.mk.injEq, not_not] at h
    obtain ⟨_, hlast, rfl, rfl⟩ := h
    have hoverlap : overlap state.prev none 0 m = state.remaining := by
      rw [overlap, Option.elim, hremaining]
      omega
    exact ⟨by rw [hoverlap], rfl, hseen, rfl, by rw [hoverlap, sub_self], le_rfl,
      Or.inl ⟨hlast, rfl⟩⟩
  | some cap =>
    simp only [hup, checkBound, bind_eq_ok, refuseIf_eq_ok, pure_eq_ok, Prod.mk.injEq] at h
    obtain ⟨_, ⟨_, hcap, hrise⟩, rfl, rfl⟩ := h
    have hoverlap : overlap state.prev (some cap) 0 m =
        if cap - state.prev < state.remaining then cap - state.prev else state.remaining := by
      rw [overlap, Option.elim, hremaining]
      split_ifs <;> omega
    have hrest : state.remaining - overlap state.prev (some cap) 0 m = max 0 (m - cap) := by
      rw [overlap, Option.elim, hremaining]
      omega
    rw [← hoverlap]
    refine ⟨rfl, rfl, hseen, rfl, rfl, ?_, Or.inr ⟨cap, rfl, rfl, ?_, hrest⟩⟩
    · rw [hrest]
      exact le_max_left 0 _
    · exact not_lt.mp hcap

/-- What the tiers do together: they take their slices, under keys of their own, and what is left is
what no slice has. -/
theorem steppedTiers_spec (hstands : state.Stands m)
    (h : steppedTiers index state tiers = .ok (targets, next)) :
    targets.map WeightedTarget.weight = (tierSlices m state.prev tiers).map (· * MONEY_WEIGHT) ∧
      (∀ t ∈ targets, t.isRemainder = false) ∧
      (targets.map WeightedTarget.key).Nodup ∧
      (∀ key ∈ targets.map WeightedTarget.key, key ∉ state.seen) ∧
      (tierSlices m state.prev tiers).sum + next.remaining = state.remaining ∧
      0 ≤ next.remaining := by
  induction tiers generalizing index state targets with
  | nil =>
    simp only [steppedTiers, Except.ok.injEq, Prod.mk.injEq] at h
    obtain ⟨rfl, rfl⟩ := h
    refine ⟨rfl, by simp, by simp, by simp, by simp [tierSlices], ?_⟩
    rw [hstands.remaining_eq]
    exact le_max_left 0 _
  | cons tier tiers ih =>
    simp only [steppedTiers, bind_eq_ok, pure_eq_ok] at h
    obtain ⟨⟨target, between⟩, htier, ⟨rest, last⟩, hrest, h⟩ := h
    simp only [Prod.mk.injEq] at h
    obtain ⟨rfl, rfl⟩ := h
    obtain ⟨hweight, hremainder, hnew, hseen, hleft, hnonneg, hlast | ⟨cap, hcap, hprev, hstands'⟩⟩ :=
      steppedTier_spec hstands htier
    · obtain rfl := List.isEmpty_iff.mp hlast.1
      simp only [steppedTiers, Except.ok.injEq, Prod.mk.injEq] at hrest
      obtain ⟨rfl, rfl⟩ := hrest
      simp only [map_cons, map_nil, tierSlices, hweight, mem_singleton,
        sum_cons, sum_nil, nodup_singleton]
      exact ⟨trivial, fun t ht => ht ▸ hremainder, trivial, fun key hkey => hkey ▸ hnew,
        by omega, hnonneg⟩
    · obtain ⟨hweights, hremainders, hnodup, hkeys, hsum, hnonneg⟩ := ih hstands' hrest
      rw [hprev] at hweights hsum
      simp only [map_cons, tierSlices, hcap, Option.getD_some, sum_cons] at hweight hleft ⊢
      refine ⟨by rw [hweight, hweights], ?_, ?_, ?_, by omega, hnonneg⟩
      · rintro t (_ | ⟨_, ht⟩)
        · exact hremainder
        · exact hremainders t ht
      · refine nodup_cons.mpr ⟨fun hmem => hkeys _ hmem ?_, hnodup⟩
        rw [hseen]
        exact mem_cons_self
      · rintro key (_ | ⟨_, hkey⟩)
        · exact hnew
        · intro hmem
          refine hkeys key hkey ?_
          rw [hseen]
          exact mem_cons_of_mem _ hmem

theorem tierSlices_nonneg (m floor : ℤ) (tiers : List SteppedTier) :
    ∀ slice ∈ tierSlices m floor tiers, 0 ≤ slice := by
  induction tiers generalizing floor with
  | nil => simp [tierSlices]
  | cons tier tiers ih =>
    rintro slice (_ | ⟨_, hslice⟩)
    · exact le_max_left 0 _
    · exact ih _ slice hslice

end Tiers

section Weights

variable {total : ℤ} {tiers : List SteppedTier} {weighted : List WeightedTarget}

theorem steppedWeights_spec (h : steppedWeights total tiers = .ok weighted) :
    weighted ≠ [] ∧
      weighted.map WeightedTarget.weight = (tierSlices |total| 0 tiers).map (· * MONEY_WEIGHT) ∧
      (tierSlices |total| 0 tiers).sum = |total| ∧
      (∀ t ∈ weighted, t.isRemainder = false) ∧ (weighted.map WeightedTarget.key).Nodup := by
  simp only [steppedWeights, bind_eq_ok, refuseIf_eq_ok, pure_eq_ok] at h
  obtain ⟨_, hne, ⟨targets, state⟩, hrun, _, hcovered, rfl⟩ := h
  obtain ⟨hweights, hremainders, hnodup, -, hsum, hnonneg⟩ := steppedTiers_spec
    (m := |total|) ⟨le_rfl, by simp⟩ hrun
  simp only at hsum hweights hcovered
  refine ⟨?_, hweights, by omega, hremainders, hnodup⟩
  rintro rfl
  cases tiers with
  | nil => exact hne rfl
  | cons tier tiers => simp [tierSlices] at hweights

/-- **The weights of tiers make up the magnitude of the total.** -/
theorem sum_steppedWeights (h : steppedWeights total tiers = .ok weighted) :
    (weighted.map WeightedTarget.weight).sum = |total| * MONEY_WEIGHT := by
  obtain ⟨-, hweights, hsum, -⟩ := steppedWeights_spec h
  rw [hweights, sum_map_mul_right, map_id', hsum]

end Weights

/-! ### A total over its own slices -/

section Slices

variable {total : ℤ} {tiers : List SteppedTier} {weighted : List WeightedTarget}
  {residualPolicy : AllocationResidualPolicy} {residualKey : Option String}

theorem apportionMagnitude_slices {slices : List ℤ} {c : ℤ} (hc : 0 < c) (hsum : 0 < slices.sum)
    (k : ℕ) : apportionMagnitude slices.sum (slices.map (· * c)) (.absorber k) = slices := by
  have hweights : (slices.map (· * c)).sum = slices.sum * c := by
    rw [sum_map_mul_right, map_id']
  have hfloors : ((slices.map (· * c)).map fun w => slices.sum * w / (slices.sum * c)) = slices := by
    rw [map_map]
    conv_rhs => rw [← map_id slices]
    refine map_congr_left fun s _ => ?_
    have hshare : slices.sum * (s * c) = s * (slices.sum * c) := by ring
    rw [Function.comp, hshare, id]
    exact Int.mul_ediv_cancel s (mul_pos hsum hc).ne'
  rw [apportionMagnitude, hweights, hfloors, sub_self]
  simp only [add_zero]
  exact modify_id k slices

def NamesAbsorber (weights : List WeightedTarget) (residualPolicy : AllocationResidualPolicy)
    (residualKey : Option String) : Prop :=
  ∃ first last absorber, weights.head? = some first ∧ weights.getLast? = some last ∧
    absorberKey first last weights residualPolicy residualKey = .ok absorber

/-- **A total apportioned over its own slices comes to the slices**, with its sign and
nothing left over. -/
theorem apportionTargets_steppedWeights (h : steppedWeights total tiers = .ok weighted)
    (hne : total ≠ 0) (habsorber : NamesAbsorber weighted residualPolicy residualKey) :
    ∃ result, apportionTargets total weighted residualPolicy residualKey = .ok result ∧
      result.targets.map ApportionedTarget.amount =
        (tierSlices |total| 0 tiers).map (total.sign * ·) ∧
      ∀ t ∈ result.targets, t.residual = 0 := by
  obtain ⟨first, last, absorber, hfirst, hlast, habsorber⟩ := habsorber
  obtain ⟨-, hweights, hsum, hremainders, hnodup⟩ := steppedWeights_spec h
  have hpos : 0 < |total| := abs_pos.mpr hne
  have htotal : (weighted.map WeightedTarget.weight).sum = |total| * MONEY_WEIGHT :=
    sum_steppedWeights h
  have hscale : 0 < MONEY_WEIGHT := by decide
  have hnonneg : ∀ w ∈ weighted.map WeightedTarget.weight, 0 ≤ w := by
    rw [hweights]
    intro w hw
    obtain ⟨s, hs, rfl⟩ := mem_map.mp hw
    exact mul_nonneg (tierSlices_nonneg _ _ _ s hs) hscale.le
  have hindex : ∀ k ∈ (ApportionResidual.absorber
      (weighted.findIdx fun w => w.key = absorber)).absorber?,
      k < (weighted.map WeightedTarget.weight).length := by
    intro k hk
    obtain rfl := Option.some.inj hk
    obtain ⟨w, hw, hkey⟩ := mem_map.mp (mem_of_absorberKey hfirst hlast habsorber)
    rw [length_map]
    exact findIdx_lt_length.mpr ⟨w, hw, decide_eq_true hkey⟩
  have hparts : apportion total (weighted.map WeightedTarget.weight)
      (.absorber (weighted.findIdx fun w => w.key = absorber)) =
        .ok ((tierSlices |total| 0 tiers).map (total.sign * ·)) := by
    rw [apportion_of_ne_zero hnonneg (by rw [htotal]; exact mul_pos hpos hscale) hindex hne]
    have hsplit := apportionMagnitude_slices hscale (hsum ▸ hpos)
      (weighted.findIdx fun w => w.key = absorber)
    rw [← hweights, hsum] at hsplit
    split_ifs with hneg
    · rw [← abs_of_neg hneg, hsplit, Int.sign_eq_neg_one_of_neg hneg]
      simp only [neg_one_mul]
    · have hgt : 0 < total := lt_of_le_of_ne (not_lt.mp hneg) (Ne.symm hne)
      rw [abs_of_pos hgt] at hsplit
      rw [hsplit, Int.sign_eq_one_of_pos hgt, abs_of_pos hgt]
      simp
  have hlen : ((tierSlices |total| 0 tiers).map (total.sign * ·)).length = weighted.length := by
    have := congrArg List.length hweights
    simp only [length_map] at this ⊢
    exact this.symm
  refine ⟨_, apportionTargets_of hfirst hlast hnodup ?_ habsorber ?_ hparts,
    map_amount_keyedTargets hlen, ?_⟩
  · rw [filter_eq_nil_iff.mpr fun t ht => by simp [hremainders t ht]]
    simp
  · rw [htotal]
    exact (mul_pos hpos hscale).ne'
  · intro t ht
    have hexact : (tierSlices |total| 0 tiers).map (total.sign * ·) =
        weighted.map fun w => (total * w.weight).tdiv (|total| * MONEY_WEIGHT) := by
      have hmap : (weighted.map fun w => (total * w.weight).tdiv (|total| * MONEY_WEIGHT)) =
          (weighted.map WeightedTarget.weight).map
            fun w => (total * w).tdiv (|total| * MONEY_WEIGHT) := by
        rw [map_map]
        rfl
      rw [hmap, hweights, map_map]
      refine map_congr_left fun s _ => ?_
      have hshare : total * (s * MONEY_WEIGHT) = total.sign * s * (|total| * MONEY_WEIGHT) := by
        conv_lhs => rw [← Int.sign_mul_abs total]
        ring
      rw [Function.comp, hshare, Int.mul_tdiv_cancel _ (mul_pos hpos hscale).ne']
    rw [hexact] at ht
    obtain ⟨i, hi, rfl⟩ := mem_mapIdx.mp ht
    simp [apportionedTarget, htotal]

end Slices

/-! ### Exact weights -/

/-- **Weights are exact.** The percents of a grid make up a hundred and the slices of tiers the
magnitude of the total; a total other than zero, apportioned over its own slices, comes to
them with its sign and nothing left over; and whatever is apportioned, the amounts make up
the total, one target has the residual, and only its amount may differ from its exact share
floored toward zero. -/
theorem weights_are_exact :
    (∀ targets weighted, fixedPercentWeights targets = .ok weighted →
      (weighted.map WeightedTarget.weight).sum = 100 * WEIGHT_SCALE) ∧
    (∀ total tiers weighted, steppedWeights total tiers = .ok weighted →
      (weighted.map WeightedTarget.weight).sum = |total| * MONEY_WEIGHT ∧
        ∀ residualPolicy residualKey, total ≠ 0 →
          NamesAbsorber weighted residualPolicy residualKey →
          ∃ result, apportionTargets total weighted residualPolicy residualKey = .ok result ∧
            result.targets.map ApportionedTarget.amount =
              (tierSlices |total| 0 tiers).map (total.sign * ·) ∧
            ∀ t ∈ result.targets, t.residual = 0) ∧
    ∀ total weights residualPolicy residualKey result,
      apportionTargets total weights residualPolicy residualKey = .ok result →
      (result.targets.map ApportionedTarget.amount).sum = total ∧
        result.targets.map ApportionedTarget.key = weights.map WeightedTarget.key ∧
        (weights ≠ [] → ∃ key, result.residualKey = some key ∧
          (result.targets.map ApportionedTarget.key).count key = 1) ∧
        ∀ t ∈ result.targets, some t.key ≠ result.residualKey →
          t.amount = (total * t.weight).tdiv result.weightTotal ∧ t.residual = 0 := by
  refine ⟨fun _ _ h => sum_fixedPercentWeights h, fun _ _ _ h => ⟨sum_steppedWeights h, ?_⟩,
    fun _ _ _ _ _ h => floored_of_apportionTargets h⟩
  intro _ _ hne habsorber
  exact apportionTargets_steppedWeights h hne habsorber

/-- A credit of 250 over tiers up to 100, up to 200 and beyond. -/
theorem weights_are_exact_of_credit :
    ∃ result, apportionTargets (-2500000) [⟨"tier:1", 1000000000000, false⟩,
        ⟨"tier:2", 1000000000000, false⟩, ⟨"tier:3", 500000000000, false⟩] .largestShare none =
          .ok result ∧
      result.targets.map ApportionedTarget.amount = [-1000000, -1000000, -500000] ∧
      ∀ t ∈ result.targets, t.residual = 0 :=
  (weights_are_exact.2.1 (-2500000) [⟨some 1000000, none⟩, ⟨some 2000000, none⟩, ⟨none, none⟩] _
    (by decide +kernel)).2 .largestShare none (by decide) ⟨_, _, "tier:1", rfl, rfl, by decide +kernel⟩

/-- A total of zero has no slices to be apportioned over, and is refused over those it has; and over
no targets at all it is apportioned, but nothing has the residual. -/
theorem zero_total_has_no_slices :
    steppedWeights 0 [⟨none, none⟩] = .ok [⟨"tier:1", 0, false⟩] ∧
      NamesAbsorber [⟨"tier:1", 0, false⟩] .firstTarget none ∧
      (¬∃ result, apportionTargets 0 [⟨"tier:1", 0, false⟩] .firstTarget none = .ok result) ∧
      apportionTargets 0 [] .firstTarget none = .ok ⟨0, 0, [], none⟩ := by
  refine ⟨by decide +kernel, ⟨_, _, "tier:1", rfl, rfl, rfl⟩, ?_, by decide +kernel⟩
  rintro ⟨result, hresult⟩
  have hrefused : (apportionTargets 0 [⟨"tier:1", 0, false⟩] .firstTarget none).isOk = false := by
    decide +kernel
  rw [hresult] at hrefused
  cases hrefused

end OpenBooks
