import OpenBooks.Intercompany.NettingSettlement

/-!
# What a netting run returns

From the sweeps of `Intercompany.NettingSettlement` follows what
`allocatePairNetting` returns: a pair whose components are accepted gets exactly
`NettingInput.result` (`allocatePairNetting_eq_ok`), in which the sums of an
entity, the order of its components and the cash across the pair can be read off.

A component is settled over several runs. `releases` is what such a history releases
of its carrying amount, and `releases_eq` that the releases add up to it.
-/

namespace OpenBooks

open Checked ListSum List

/-! ### Carrying amounts -/

/-- The carrying amount a settlement within the open amount releases. -/
def carryingReleased (openCarrying openTransaction settled : ℤ) : ℤ :=
  if |settled| = 0 then 0
  else
    let magnitude :=
      if |settled| = |openTransaction| then |openCarrying|
      else mulRatio |openCarrying| |settled| |openTransaction|
    if settled < 0 then -magnitude else magnitude

theorem carryingForSettlement_eq {openCarrying openTransaction settled : ℤ}
    (h : |settled| ≤ |openTransaction|) :
    carryingForSettlement openCarrying openTransaction settled =
      .ok (carryingReleased openCarrying openTransaction settled) := by
  unfold carryingForSettlement carryingReleased
  simp only [refuseIf, if_neg h.not_gt]
  by_cases hzero : |settled| = 0
  · rw [if_pos hzero, if_pos hzero]
    rfl
  · rw [if_neg hzero, if_neg hzero]
    rfl

theorem carryingReleased_neg (openCarrying openTransaction settled : ℤ) :
    carryingReleased (-openCarrying) (-openTransaction) (-settled) =
      -carryingReleased openCarrying openTransaction settled := by
  unfold carryingReleased
  simp only [abs_neg]
  rcases lt_trichotomy settled 0 with hneg | hzero | hpos
  · have hsettled : ¬|settled| = 0 := by simpa using hneg.ne
    have hturned : ¬-settled < 0 := by omega
    simp only [if_neg hsettled, if_pos hneg, if_neg hturned, neg_neg]
  · simp [hzero]
  · have hsettled : ¬|settled| = 0 := by simpa using hpos.ne'
    have hturned : -settled < 0 := by omega
    simp only [if_neg hsettled, if_neg hpos.not_gt, if_pos hturned]

theorem carryingReleased_bounds {openCarrying openTransaction settled : ℤ}
    (hcarrying : 0 ≤ openCarrying) (hsettled : 0 ≤ settled) (hle : settled ≤ openTransaction) :
    0 ≤ carryingReleased openCarrying openTransaction settled ∧
      carryingReleased openCarrying openTransaction settled ≤ openCarrying := by
  unfold carryingReleased
  rw [abs_of_nonneg hsettled, abs_of_nonneg hcarrying, abs_of_nonneg (hsettled.trans hle)]
  simp only [if_neg hsettled.not_gt]
  split_ifs with hzero hwhole
  · exact ⟨le_rfl, hcarrying⟩
  · exact ⟨hcarrying, le_rfl⟩
  · have hpos : 0 < openTransaction := by omega
    rw [mulRatio, roundDiv_eq_round]
    exact ⟨HalfAway.round_nonneg hpos (mul_nonneg hcarrying hsettled),
      HalfAway.round_le_of_le_mul hpos (mul_le_mul_of_nonneg_left hle hcarrying)⟩

/-- **The last settlement releases the rest.** -/
theorem carryingReleased_whole {openCarrying openTransaction : ℤ} (hcarrying : 0 ≤ openCarrying)
    (hpos : 0 < openTransaction) :
    carryingReleased openCarrying openTransaction openTransaction = openCarrying := by
  unfold carryingReleased
  rw [abs_of_pos hpos, abs_of_nonneg hcarrying]
  simp [hpos.ne', hpos.not_gt]

/-- What a history of settlements of one component releases: each settlement is measured
on what is then open and then carried. -/
def releases : ℤ → ℤ → List ℤ → Except NettingMathError (List ℤ)
  | _, _, [] => .ok []
  | openTransaction, openCarrying, settled :: later => do
    let released ← carryingForSettlement openCarrying openTransaction settled
    let rest ← releases (openTransaction - settled) (openCarrying - released) later
    return released :: rest

section

variable {openTransaction openCarrying : ℤ}

theorem releases_of_nonneg {settlements : List ℤ} (hcarrying : 0 ≤ openCarrying)
    (hnone : openTransaction = 0 → openCarrying = 0) (hsettled : ∀ s ∈ settlements, 0 ≤ s)
    (hsum : settlements.sum = openTransaction) :
    ∃ released, releases openTransaction openCarrying settlements = .ok released ∧
      released.sum = openCarrying ∧ ∀ x ∈ released, 0 ≤ x := by
  induction settlements generalizing openTransaction openCarrying with
  | nil =>
    refine ⟨[], rfl, ?_, fun x hx => absurd hx not_mem_nil⟩
    rw [sum_nil] at hsum ⊢
    exact (hnone hsum.symm).symm
  | cons s later ih =>
    have hs := hsettled s mem_cons_self
    have hlater : ∀ s ∈ later, 0 ≤ s := fun s hs => hsettled s (mem_cons_of_mem _ hs)
    have hrest : 0 ≤ later.sum := List.sum_nonneg hlater
    rw [sum_cons] at hsum
    obtain ⟨hreleased, hbound⟩ := carryingReleased_bounds hcarrying hs
      (by omega : s ≤ openTransaction)
    have hlast : openTransaction - s = 0 →
        openCarrying - carryingReleased openCarrying openTransaction s = 0 := by
      intro hwhole
      obtain rfl : openTransaction = s := by omega
      rcases hs.eq_or_lt with hzero | hpos
      · have := hnone hzero.symm
        omega
      · rw [carryingReleased_whole hcarrying hpos, sub_self]
    obtain ⟨released, hrun, htotal, hall⟩ := ih (by omega) hlast hlater
      (by omega : later.sum = openTransaction - s)
    refine ⟨carryingReleased openCarrying openTransaction s :: released, ?_, ?_, ?_⟩
    · rw [releases, carryingForSettlement_eq (by rw [abs_of_nonneg hs, abs_of_nonneg] <;> omega)]
      exact bind_eq_ok.mpr ⟨_, rfl, bind_eq_ok.mpr ⟨_, hrun, rfl⟩⟩
    · rw [sum_cons, htotal]
      ring
    · intro x hx
      rcases mem_cons.mp hx with rfl | hx
      · exact hreleased
      · exact hall x hx

/-- A history with all signs turned releases the same with its sign turned. -/
theorem releases_neg {settlements released : List ℤ}
    (h : releases openTransaction openCarrying settlements = .ok released) :
    releases (-openTransaction) (-openCarrying) (settlements.map Neg.neg) =
      .ok (released.map Neg.neg) := by
  induction settlements generalizing openTransaction openCarrying released with
  | nil =>
    obtain rfl := Except.ok.inj h
    rfl
  | cons s later ih =>
    rw [releases] at h
    simp only [bind_eq_ok, pure_eq_ok] at h
    obtain ⟨x, hx, rest, hrest, rfl⟩ := h
    have hfits : |s| ≤ |openTransaction| := by
      by_contra hno
      unfold carryingForSettlement at hx
      have hs : ¬|s| = 0 := fun hs => hno (hs ▸ abs_nonneg _)
      simp only [if_neg hs, refuseIf, if_pos (not_le.mp hno)] at hx
      exact absurd hx (by simp [bind, Except.bind])
    rw [carryingForSettlement_eq hfits, Except.ok.injEq] at hx
    rw [map_cons, releases, carryingForSettlement_eq (by simpa using hfits),
      carryingReleased_neg, hx]
    refine bind_eq_ok.mpr ⟨_, rfl, bind_eq_ok.mpr ⟨rest.map Neg.neg, ?_, rfl⟩⟩
    rw [show -openTransaction - -s = -(openTransaction - s) by ring,
      show -openCarrying - -x = -(openCarrying - x) by ring]
    exact ih hrest

/-- **Settlements that end with the whole open amount release the whole carrying amount**,
each with its sign. -/
theorem releases_eq {settlements : List ℤ} (hopen : openTransaction ≠ 0)
    (hsign : openCarrying ≠ 0 → (openTransaction < 0 ↔ openCarrying < 0))
    (hsettled : ∀ s ∈ settlements, 0 ≤ s * openTransaction)
    (hsum : settlements.sum = openTransaction) :
    ∃ released, releases openTransaction openCarrying settlements = .ok released ∧
      released.sum = openCarrying ∧ ∀ x ∈ released, 0 ≤ x * openTransaction := by
  rcases hopen.lt_or_gt with hneg | hpos
  · have hcarrying : openCarrying ≤ 0 := by
      by_contra hno
      have := (hsign (by omega)).mp hneg
      omega
    obtain ⟨released, hrun, htotal, hall⟩ := @releases_of_nonneg (-openTransaction)
      (-openCarrying) (settlements.map Neg.neg) (by omega) (by omega)
      (fun x hx => by
        obtain ⟨s, hs, rfl⟩ := mem_map.mp hx
        have := nonpos_of_mul_nonneg_left (hsettled s hs) hneg
        omega)
      (by rw [← hsum]; exact (sum_neg settlements).symm)
    have hback := releases_neg hrun
    rw [neg_neg, neg_neg, map_map, show (Neg.neg ∘ Neg.neg : ℤ → ℤ) = id from
      funext neg_neg, map_id] at hback
    refine ⟨released.map Neg.neg, hback, ?_, fun x hx => ?_⟩
    · exact (sum_neg released).symm.trans (by rw [htotal, neg_neg])
    · obtain ⟨y, hy, rfl⟩ := mem_map.mp hx
      exact mul_nonneg_of_nonpos_of_nonpos (by have := hall y hy; omega) hneg.le
  · have hcarrying : 0 ≤ openCarrying := by
      by_contra hno
      have := (hsign (by omega)).mpr (by omega)
      omega
    obtain ⟨released, hrun, htotal, hall⟩ := releases_of_nonneg hcarrying (by omega)
      (fun s hs => nonneg_of_mul_nonneg_left (hsettled s hs) hpos) hsum
    exact ⟨released, hrun, htotal, fun x hx => mul_nonneg (hall x hx) hpos.le⟩

end

/-! ### The result in closed form -/

namespace NettingInput

variable {input : NettingInput} {c : NettingComponent} {r p : String}

/-- The allocation of one component, in closed form. -/
def allocationOf (input : NettingInput) (c : NettingComponent) : NettingAllocation :=
  let cleared := input.nettedBy c.key + input.cashBy c.key
  let carryingCleared := carryingReleased c.openCarrying c.openTransaction cleared
  let spotCleared := spotTranslation cleared (input.rateFor c.subsidiaryId)
  { c with
    netted := input.nettedBy c.key
    cash := input.cashBy c.key
    rate := input.rateFor c.subsidiaryId
    carryingCleared := carryingCleared
    spotCleared := spotCleared
    realizedFx := spotCleared - carryingCleared }

/-- The result of a run, in closed form. -/
def result (input : NettingInput) : NettingPairResult where
  pairId := input.pairId
  currency := input.currency
  fromSubsidiaryId := input.fromSubsidiaryId
  toSubsidiaryId := input.toSubsidiaryId
  fromNet := input.net input.fromSubsidiaryId
  toNet := input.net input.toSubsidiaryId
  unreconciled := input.net input.fromSubsidiaryId + input.net input.toSubsidiaryId
  fromNetted := input.nettable input.fromSubsidiaryId
  toNetted := input.nettable input.toSubsidiaryId
  cashToFrom := input.cashToFrom
  allocations := (ordered input.components).map input.allocationOf

/-- The inputs that are allocated. -/
structure Accepted (input : NettingInput) : Prop where
  ne : input.fromSubsidiaryId ≠ input.toSubsidiaryId
  accepts : ∀ c ∈ input.components, input.Accepts c
  nodup : (input.components.map (·.key)).Nodup

theorem Accepted.isPair (h : input.Accepted) :
    input.IsPair input.fromSubsidiaryId input.toSubsidiaryId :=
  ⟨h.nodup, h.ne, .inl ⟨rfl, rfl⟩⟩

theorem Accepted.exists_pair (h : input.Accepted) (hc : c ∈ input.components) :
    ∃ p, input.IsPair c.subsidiaryId p := by
  rcases (h.accepts c hc).entity with he | he
  · exact ⟨_, he ▸ h.isPair⟩
  · exact ⟨_, he ▸ h.isPair.swap⟩

theorem Accepted.allocation_eq (h : input.Accepted) (hc : c ∈ input.components) :
    input.allocation input.nettedBy input.cashBy c = .ok (input.allocationOf c) := by
  obtain ⟨p, hpair⟩ := h.exists_pair hc
  have hfits := (hpair.cleared_within hc rfl).2.2
  unfold allocation allocationOf
  by_cases hzero : input.nettedBy c.key + input.cashBy c.key = 0
  · simp only [hzero, if_true, carryingReleased, abs_zero]
    rfl
  · simp only [if_neg hzero, carryingForSettlement_eq hfits]
    rfl

theorem Accepted.netting_eq (h : input.Accepted) :
    (input.netEntity ⟨fun _ => 0, input.opens⟩ input.fromSubsidiaryId >>= fun s =>
      input.netEntity s input.toSubsidiaryId) = .ok ⟨input.nettedBy, input.restOf⟩ := by
  have hfrom := @netEntity_eq input input.fromSubsidiaryId h.nodup ⟨fun _ => 0, input.opens⟩
    (fun _ _ _ => rfl) (fun _ _ _ => rfl)
  rw [hfrom]
  refine (netEntity_eq h.nodup ?_ ?_).trans ?_
  · intro c hc hto
    simp only [netUnits_of_ne h.nodup hc (hto ▸ h.ne.symm), sub_zero]
  · intro c hc hto
    simp only [netUnits_of_ne h.nodup hc (hto ▸ h.ne.symm), zero_add]
  · refine congrArg Except.ok (congrArg₂ SweepState.mk ?_ ?_)
    · funext k
      simp only [nettedBy, zero_add]
    · funext k
      simp only [restOf, nettedBy]
      ring

end NettingInput

open NettingInput in
/-- **Accepted input is allocated.** -/
theorem NettingInput.Accepted.allocatePairNetting_eq {input : NettingInput} (h : input.Accepted) :
    allocatePairNetting input = .ok input.result := by
  have hload : input.loadRemaining input.components (fun _ => none) =
      .ok fun k => (openOf input.components k).or none :=
    input.loadRemaining_eq_ok.mpr ⟨fun c hc => ⟨h.accepts c hc, rfl⟩, h.nodup, rfl⟩
  have hopens : (fun k => ((openOf input.components k).or none).getD 0) = input.opens := by
    funext k
    simp [opens]
  obtain ⟨cash, hcash, hby⟩ := h.isPair.settle_eq
  obtain ⟨s, hs, hnetted⟩ := bind_eq_ok.mp h.netting_eq
  have hcashBy : cash.by_ = input.cashBy := funext hby
  have hmap : (ordered input.components).mapM (input.allocation input.nettedBy input.cashBy) =
      .ok ((ordered input.components).map input.allocationOf) :=
    mapM_ok_of_forall fun c hc => h.allocation_eq ((ordered_perm _).mem_iff.mp hc)
  unfold allocatePairNetting
  simp only [refuseIf, if_neg h.ne, hload, hopens, bind, Except.bind]
  rw [hs]
  simp only
  rw [hnetted]
  simp only [hcash, hcashBy, hmap]
  rfl

open NettingInput in
theorem allocatePairNetting_refused {input : NettingInput} (h : ¬input.Accepted) :
    ∃ e, allocatePairNetting input = .error e ∧ e ≠ .exceededOpen := by
  by_cases hne : input.fromSubsidiaryId = input.toSubsidiaryId
  · refine ⟨.sameEntity, ?_, by decide⟩
    simp only [allocatePairNetting, refuseIf, if_pos hne]
    rfl
  cases hload : input.loadRemaining input.components fun _ => none with
  | error e =>
    refine ⟨e, ?_, loadRemaining_ne_exceeded hload⟩
    simp only [allocatePairNetting, refuseIf, if_neg hne, hload]
    rfl
  | ok loaded =>
    obtain ⟨hall, hnodup, -⟩ := input.loadRemaining_eq_ok.mp hload
    exact absurd ⟨hne, fun c hc => (hall c hc).1, hnodup⟩ h

/-! ### Reading the result -/

namespace NettingInput

variable {input : NettingInput} {r p : String}

theorem filter_side {cs : List NettingComponent} {q : ℤ → Prop} [DecidablePred q]
    (hq : ∀ {x}, q x → x ≠ 0) :
    (cs.filter fun c => c.subsidiaryId = r ∧ c.openTransaction ≠ 0).filter
      (fun c => q c.openTransaction) =
    cs.filter fun c => c.subsidiaryId = r ∧ q c.openTransaction := by
  rw [filter_filter]
  refine filter_congr fun c _ => ?_
  rw [Bool.eq_iff_iff]
  simp only [Bool.and_eq_true, decide_eq_true_eq]
  exact ⟨fun h => ⟨h.2.1, h.1⟩, fun h => ⟨h.2, h.1, hq h.2⟩⟩

theorem sum_entity (f : NettingComponent → ℤ)
    (hf : ∀ c ∈ input.components, c.subsidiaryId = r → c.openTransaction = 0 → f c = 0) :
    ((input.components.filter fun c => c.subsidiaryId = r).map f).sum =
      ((input.owedTo r).map f).sum + ((input.owedBy r).map f).sum := by
  have hto : (input.owedTo r).Perm (input.components.filter fun c =>
      c.subsidiaryId = r ∧ 0 < c.openTransaction) :=
    ((ordered_perm _).filter _).trans (.of_eq (filter_side (q := (0 < ·)) fun hq => hq.ne'))
  have hby : (input.owedBy r).Perm (input.components.filter fun c =>
      c.subsidiaryId = r ∧ c.openTransaction < 0) :=
    ((ordered_perm _).filter _).trans (.of_eq (filter_side (q := (· < 0)) fun hq => hq.ne))
  rw [(hto.map f).sum_eq, (hby.map f).sum_eq, sum_map_filter_eq_ite, sum_map_filter_eq_ite,
    sum_map_filter_eq_ite, ← sum_map_add]
  refine congrArg List.sum (map_congr_left fun c hc => ?_)
  by_cases hr : c.subsidiaryId = r
  · rcases lt_trichotomy c.openTransaction 0 with hneg | hzero | hpos
    · simp [hr, hneg, hneg.not_gt]
    · simp [hr, hzero, hf c hc hr hzero]
    · simp [hr, hpos, hpos.not_gt]
  · simp [hr]

/-- An entity's net position is the sum of its open amounts. -/
theorem net_eq (r : String) : input.net r =
    ((input.components.filter fun c => c.subsidiaryId = r).map (·.openTransaction)).sum := by
  rw [sum_entity _ fun _ _ _ hzero => hzero, net, totalOwedTo, totalOwedBy, sub_eq_add_neg]
  refine congrArg _ ?_
  rw [← sum_map_neg]
  refine congrArg List.sum (map_congr_left fun c hc => ?_)
  rw [abs_of_neg (mem_owedBy.mp hc).2.2, neg_neg]

section

variable (h : input.IsPair r p)

include h

theorem IsPair.sum_cleared_pos {amount : ℤ} (hamount : 0 ≤ amount)
    (hfits : amount ≤ input.totalOwedTo r) :
    ((input.owedTo r).map fun c => sweepUnits (input.owedTo r) input.opens amount c.key).sum =
      amount :=
  sum_sweepUnits (nodup_owedTo h.nodup r) hamount (hfits.trans (totalOwedTo_eq h.nodup r).le)

theorem IsPair.sum_cleared_neg {amount : ℤ} (hamount : 0 ≤ amount)
    (hfits : amount ≤ input.totalOwedBy r) :
    ((input.owedBy r).map fun c => sweepUnits (input.owedBy r) input.opens amount c.key).sum =
      amount :=
  sum_sweepUnits (nodup_owedBy h.nodup r) hamount (hfits.trans (totalOwedBy_eq h.nodup r).le)

/-- **Netting balances inside each entity.** -/
theorem IsPair.sum_nettedBy :
    ((input.components.filter fun c => c.subsidiaryId = r).map fun c =>
      input.nettedBy c.key).sum = 0 := by
  rw [sum_entity _ fun c hc hr hzero => (h.untouched_of_zero hc hr hzero).1]
  have hto : (input.owedTo r).map (fun c => input.nettedBy c.key) = (input.owedTo r).map fun c =>
      sweepUnits (input.owedTo r) input.opens (input.nettable r) c.key := by
    refine map_congr_left fun c hc => ?_
    obtain ⟨hc, hr, hpos⟩ := mem_owedTo.mp hc
    rw [h.nettedBy_eq hc hr, netUnits_of_pos h.nodup hc hpos]
  have hby : (input.owedBy r).map (fun c => input.nettedBy c.key) = (input.owedBy r).map fun c =>
      -sweepUnits (input.owedBy r) input.opens (input.nettable r) c.key := by
    refine map_congr_left fun c hc => ?_
    obtain ⟨hc, hr, hneg⟩ := mem_owedBy.mp hc
    rw [h.nettedBy_eq hc hr, netUnits_of_neg h.nodup hc hneg]
  rw [hto, hby, sum_map_neg, h.sum_cleared_pos (nettable_nonneg h.nodup r) (min_le_left _ _),
    h.sum_cleared_neg (nettable_nonneg h.nodup r) (min_le_right _ _), add_neg_cancel]

theorem IsPair.sum_cashBy :
    ((input.components.filter fun c => c.subsidiaryId = r).map fun c => input.cashBy c.key).sum =
      input.cashIn r - input.cashOut r := by
  -- the cash is what both sweeps clear, less what the netting has cleared
  have hall : ((input.components.filter fun c => c.subsidiaryId = r).map fun c =>
      input.nettedBy c.key + input.cashBy c.key).sum = input.cashIn r - input.cashOut r := by
    rw [sum_entity _ fun c hc hr hzero => by
      rw [(h.untouched_of_zero hc hr hzero).1, (h.untouched_of_zero hc hr hzero).2, add_zero]]
    have hto : (input.owedTo r).map (fun c => input.nettedBy c.key + input.cashBy c.key) =
        (input.owedTo r).map fun c =>
          sweepUnits (input.owedTo r) input.opens (input.nettable r + input.cashIn r) c.key := by
      refine map_congr_left fun c hc => ?_
      obtain ⟨hc, hr, hpos⟩ := mem_owedTo.mp hc
      exact h.cleared_of_owedTo hc hr hpos
    have hby : (input.owedBy r).map (fun c => input.nettedBy c.key + input.cashBy c.key) =
        (input.owedBy r).map fun c =>
          -sweepUnits (input.owedBy r) input.opens (input.nettable r + input.cashOut r) c.key := by
      refine map_congr_left fun c hc => ?_
      obtain ⟨hc, hr, hneg⟩ := mem_owedBy.mp hc
      exact h.cleared_of_owedBy hc hr hneg
    have hnet := nettable_nonneg h.nodup r
    rw [hto, hby, sum_map_neg,
      h.sum_cleared_pos (add_nonneg hnet (cashIn_nonneg r)) h.cash_le.1,
      h.sum_cleared_neg (add_nonneg hnet (cashOut_nonneg r)) h.cash_le.2]
    ring
  rw [sum_map_add, h.sum_nettedBy, zero_add] at hall
  exact hall

end

/-! ### The order of the components -/

theorem Accepted.owedTo_eq (h : input.Accepted) (r : String) : input.owedTo r =
    (ordered input.components).filter fun c => c.subsidiaryId = r ∧ 0 < c.openTransaction := by
  rw [owedTo, sideOf, ordered_filter h.nodup]
  exact filter_side (q := (0 < ·)) fun hq => hq.ne'

theorem Accepted.owedBy_eq (h : input.Accepted) (r : String) : input.owedBy r =
    (ordered input.components).filter fun c => c.subsidiaryId = r ∧ c.openTransaction < 0 := by
  rw [owedBy, sideOf, ordered_filter h.nodup]
  exact filter_side (q := (· < 0)) fun hq => hq.ne

/-- Two components on one side of one entity. -/
def SameSide (a b : NettingComponent) : Prop :=
  a.subsidiaryId = b.subsidiaryId ∧
    (0 < a.openTransaction ∧ 0 < b.openTransaction ∨ a.openTransaction < 0 ∧ b.openTransaction < 0)

/-- Parts that are not negative and add up to nothing are nothing. -/
theorem IsPair.untouched_of_cleared (h : input.IsPair r p) {c : NettingComponent}
    (hc : c ∈ input.components) (hr : c.subsidiaryId = r)
    (hzero : input.nettedBy c.key + input.cashBy c.key = 0) :
    input.nettedBy c.key = 0 ∧ input.cashBy c.key = 0 := by
  have hgroup : ∀ (G : List NettingComponent) (b : ℤ), 0 ≤ b →
      0 ≤ input.groupUnits G (input.nettable r) b c.key := by
    intro G b hb
    refine Pour.taken_nonneg (fun k hk => ?_) hb c.key
    have hle := @Pour.taken_le_room _ _ (fun k => |input.opens k|) (G.map (·.key)) k
      (input.nettable r) (fun _ _ => abs_nonneg _) hk
    rw [sweepUnits]
    omega
  rcases lt_trichotomy c.openTransaction 0 with hneg | hopen | hpos
  · have hnetted : 0 ≤ sweepUnits (input.owedBy r) input.opens (input.nettable r) c.key :=
      sweepUnits_nonneg (nettable_nonneg h.nodup r) c.key
    have hcash := hgroup (input.owedBy r) (input.cashOut r) (cashOut_nonneg r)
    rw [h.nettedBy_eq hc hr, netUnits_of_neg h.nodup hc hneg, h.cashBy_of_neg hc hr hneg] at *
    omega
  · exact h.untouched_of_zero hc hr hopen
  · have hnetted : 0 ≤ sweepUnits (input.owedTo r) input.opens (input.nettable r) c.key :=
      sweepUnits_nonneg (nettable_nonneg h.nodup r) c.key
    have hcash := hgroup (input.owedTo r) (input.cashIn r) (cashIn_nonneg r)
    rw [h.nettedBy_eq hc hr, netUnits_of_pos h.nodup hc hpos, h.cashBy_of_pos hc hr hpos] at *
    omega

/-- A relation between the elements of a part, read over the whole list. -/
theorem pairwise_of_filter {L G : List NettingComponent} {q : NettingComponent → Prop}
    [DecidablePred q] {R : NettingComponent → NettingComponent → Prop} (hG : G = L.filter fun c => q c)
    (hR : G.Pairwise R) : L.Pairwise fun a b => q a → q b → R a b := by
  rw [hG, pairwise_filter] at hR
  simpa only [decide_eq_true_eq] using hR

/-- A sweep over a group, read in the settlement order. -/
theorem pairwise_sweepUnits {L G : List NettingComponent} {q : NettingComponent → Prop}
    [DecidablePred q] {remaining : String → ℤ} {amount : ℤ} (hG : G = L.filter fun c => q c)
    (hnodup : (G.map (·.key)).Nodup) : L.Pairwise fun a b => q a → q b →
      sweepUnits G remaining amount a.key < |remaining a.key| →
        sweepUnits G remaining amount b.key = 0 := by
  refine pairwise_of_filter hG ?_
  have hpair := @Pour.pairwise_taken _ _ (fun k => |remaining k|) _ amount hnodup
    fun _ _ => abs_nonneg _
  rwa [pairwise_map] at hpair

/-- **Oldest first**: behind a component with something left open nothing on its side is
touched. -/
theorem Accepted.pairwise_untouched (h : input.Accepted) :
    (ordered input.components).Pairwise fun a b => SameSide a b →
      input.nettedBy a.key + input.cashBy a.key ≠ a.openTransaction →
        input.nettedBy b.key = 0 ∧ input.cashBy b.key = 0 := by
  -- one filling for each entity and side; every component is on one of the four
  have hall : (ordered input.components).Pairwise fun a b =>
      ∀ r ∈ [input.fromSubsidiaryId, input.toSubsidiaryId],
        (a.subsidiaryId = r ∧ 0 < a.openTransaction → b.subsidiaryId = r ∧ 0 < b.openTransaction →
          sweepUnits (input.owedTo r) input.opens (input.nettable r + input.cashIn r) a.key <
            |input.opens a.key| →
          sweepUnits (input.owedTo r) input.opens (input.nettable r + input.cashIn r) b.key = 0) ∧
        (a.subsidiaryId = r ∧ a.openTransaction < 0 → b.subsidiaryId = r ∧ b.openTransaction < 0 →
          sweepUnits (input.owedBy r) input.opens (input.nettable r + input.cashOut r) a.key <
            |input.opens a.key| →
          sweepUnits (input.owedBy r) input.opens (input.nettable r + input.cashOut r) b.key =
            0) := by
    simp only [forall_mem_cons, not_mem_nil, false_implies, implies_true, and_true]
    exact ((pairwise_sweepUnits (h.owedTo_eq _) (nodup_owedTo h.nodup _)).and
        (pairwise_sweepUnits (h.owedBy_eq _) (nodup_owedBy h.nodup _))).and
      ((pairwise_sweepUnits (h.owedTo_eq _) (nodup_owedTo h.nodup _)).and
        (pairwise_sweepUnits (h.owedBy_eq _) (nodup_owedBy h.nodup _)))
  refine hall.imp_of_mem ?_
  intro a b ha hb hab hside hleft
  have ha := (ordered_perm _).mem_iff.mp ha
  have hb := (ordered_perm _).mem_iff.mp hb
  obtain ⟨p, hpair⟩ := h.exists_pair hb
  have hmem : b.subsidiaryId ∈ [input.fromSubsidiaryId, input.toSubsidiaryId] := by
    simpa using (h.accepts b hb).entity
  obtain ⟨hpos, hneg⟩ := hab b.subsidiaryId hmem
  obtain ⟨hsame, ⟨hapos, hbpos⟩ | ⟨haneg, hbneg⟩⟩ := hside
  · refine hpair.untouched_of_cleared hb rfl ?_
    rw [hpair.cleared_of_owedTo ha hsame hapos] at hleft
    have hle := sweepUnits_owedTo_le h.nodup ha hsame hapos
      (input.nettable b.subsidiaryId + input.cashIn b.subsidiaryId)
    rw [hpair.cleared_of_owedTo hb rfl hbpos]
    refine hpos ⟨hsame, hapos⟩ ⟨rfl, hbpos⟩ ?_
    rw [opens_of_mem h.nodup ha, abs_of_pos hapos]
    exact lt_of_le_of_ne hle hleft
  · refine hpair.untouched_of_cleared hb rfl ?_
    rw [hpair.cleared_of_owedBy ha hsame haneg] at hleft
    have hle := sweepUnits_owedBy_le h.nodup ha hsame haneg
      (input.nettable b.subsidiaryId + input.cashOut b.subsidiaryId)
    rw [hpair.cleared_of_owedBy hb rfl hbneg, neg_eq_zero]
    refine hneg ⟨hsame, haneg⟩ ⟨rfl, hbneg⟩ ?_
    rw [opens_of_mem h.nodup ha, abs_of_neg haneg]
    omega

/-! ### The order of the input -/

/-- **The result does not depend on the order of the components.** -/
theorem Accepted.result_perm (h : input.Accepted) {components : List NettingComponent}
    (hperm : input.components.Perm components) :
    { input with components }.Accepted ∧ { input with components }.result = input.result := by
  have hside : { input with components }.sideOf = input.sideOf := by
    funext e
    refine (ordered_congr ?_ (hperm.filter _)).symm
    exact h.nodup.sublist (filter_sublist.map _)
  have hopens : { input with components }.opens = input.opens := by
    funext k
    rw [opens, opens, openOf_perm h.nodup hperm]
  refine ⟨⟨h.ne, fun c hc => ?_, (hperm.map _).nodup_iff.mp h.nodup⟩, ?_⟩
  · obtain ⟨hpair, hentity, hcounter, hsign⟩ := h.accepts c (hperm.mem_iff.mpr hc)
    exact ⟨hpair, hentity, hcounter, hsign⟩
  · have hto : { input with components }.owedTo = input.owedTo := by
      funext e
      rw [owedTo, owedTo, hside]
    have hby : { input with components }.owedBy = input.owedBy := by
      funext e
      rw [owedBy, owedBy, hside]
    have hnettable : { input with components }.nettable = input.nettable := by
      funext e
      rw [nettable, nettable, totalOwedTo, totalOwedTo, totalOwedBy, totalOwedBy, hto, hby]
    have hnet : { input with components }.net = input.net := by
      funext e
      rw [net, net, totalOwedTo, totalOwedTo, totalOwedBy, totalOwedBy, hto, hby]
    have hcashToFrom : { input with components }.cashToFrom = input.cashToFrom := by
      rw [cashToFrom, cashToFrom, hnet]
    have hnetted : { input with components }.nettedBy = input.nettedBy := by
      funext k
      simp only [nettedBy, netUnits, hto, hby, hopens, hnettable]
    have hcash : { input with components }.cashBy = input.cashBy := by
      funext k
      simp only [cashBy, cashUnits, groupUnits, cashIn, cashOut, hto, hby, hopens, hnettable,
        hcashToFrom]
    have hallocation : { input with components }.allocationOf = input.allocationOf := by
      funext c
      simp only [allocationOf, hnetted, hcash]
    simp only [result, hnet, hnettable, hcashToFrom, hallocation, ordered_congr h.nodup hperm]

end NettingInput

/-! ### Netting settles what both books show -/

/-- An entity's own position: the sum of its open amounts. -/
def positionOf (components : List NettingComponent) (e : String) : ℤ :=
  ((components.filter fun c => c.subsidiaryId = e).map (·.openTransaction)).sum

/-- An entity's part of an allocation. -/
def allocatedTo (allocations : List NettingAllocation) (e : String) : List NettingAllocation :=
  allocations.filter fun a => a.subsidiaryId = e

/-- What a run of netting promises of its allocations. -/
structure SettlesWhatIsShown (input : NettingInput) (allocations : List NettingAllocation) :
    Prop where
  /-- The allocations are the components, in settlement order. -/
  components : allocations.map (·.toNettingComponent) = ordered input.components
  /-- The netted amounts of an entity sum to zero. -/
  netted : ∀ e, ((allocatedTo allocations e).map (·.netted)).sum = 0
  /-- A component is cleared on its own side, up to its open amount. -/
  within : ∀ a ∈ allocations, (0 < a.openTransaction → 0 ≤ a.netted + a.cash) ∧
    (a.openTransaction < 0 → a.netted + a.cash ≤ 0) ∧
    |a.netted + a.cash| ≤ |a.openTransaction|
  /-- What one entity receives the other pays. -/
  opposite : ((allocatedTo allocations input.fromSubsidiaryId).map (·.cash)).sum =
    -((allocatedTo allocations input.toSubsidiaryId).map (·.cash)).sum
  /-- The entity that is owed on balance receives from the one that owes, up to both. -/
  cash : ∀ r p, (r = input.fromSubsidiaryId ∧ p = input.toSubsidiaryId ∨
      r = input.toSubsidiaryId ∧ p = input.fromSubsidiaryId) →
    ((allocatedTo allocations r).map (·.cash)).sum =
      if input.settleCash then
        if 0 < positionOf input.components r ∧ positionOf input.components p < 0 then
          min (positionOf input.components r) (-positionOf input.components p)
        else if positionOf input.components r < 0 ∧ 0 < positionOf input.components p then
          -min (-positionOf input.components r) (positionOf input.components p)
        else 0
      else 0
  /-- Behind a component with something left open nothing on its side is touched. -/
  oldest : allocations.Pairwise fun a b =>
    NettingInput.SameSide a.toNettingComponent b.toNettingComponent →
      a.netted + a.cash ≠ a.openTransaction → b.netted = 0 ∧ b.cash = 0

namespace NettingInput

variable {input : NettingInput}

theorem sum_allocatedTo (input : NettingInput) (e : String) (f : NettingAllocation → ℤ)
    (g : NettingComponent → ℤ) (hfg : ∀ c, f (input.allocationOf c) = g c) :
    ((allocatedTo ((ordered input.components).map input.allocationOf) e).map f).sum =
      ((input.components.filter fun c => c.subsidiaryId = e).map g).sum := by
  have hperm := ((ordered_perm input.components).filter fun c => c.subsidiaryId = e).map g
  rw [← hperm.sum_eq, allocatedTo, filter_map, map_map]
  exact congrArg List.sum (map_congr_left fun c _ => hfg c)

theorem Accepted.sum_netted (h : input.Accepted) (e : String) :
    ((allocatedTo input.result.allocations e).map (·.netted)).sum = 0 := by
  refine (input.sum_allocatedTo e _ (fun c => input.nettedBy c.key) fun _ => rfl).trans ?_
  by_cases hfrom : e = input.fromSubsidiaryId
  · exact hfrom ▸ h.isPair.sum_nettedBy
  by_cases hto : e = input.toSubsidiaryId
  · exact hto ▸ h.isPair.swap.sum_nettedBy
  · -- an entity outside the pair has no components
    have hnone : input.components.filter (fun c => c.subsidiaryId = e) = [] := by
      rw [filter_eq_nil_iff]
      intro c hc he
      obtain rfl : c.subsidiaryId = e := by simpa using he
      exact (h.accepts c hc).entity.elim hfrom hto
    rw [hnone]
    rfl

theorem IsPair.sum_cash {r p : String} (hpair : input.IsPair r p) :
    ((allocatedTo input.result.allocations r).map (·.cash)).sum =
      if r = input.fromSubsidiaryId then input.cashToFrom else -input.cashToFrom := by
  refine (input.sum_allocatedTo r _ (fun c => input.cashBy c.key) fun _ => rfl).trans ?_
  rw [hpair.sum_cashBy, cashIn, cashOut]
  split_ifs <;> omega

/-- **Accepted input is settled as promised.** -/
theorem Accepted.settles (h : input.Accepted) :
    SettlesWhatIsShown input input.result.allocations where
  components := by
    rw [result, map_map]
    exact map_id _
  netted := h.sum_netted
  within := by
    intro a ha
    obtain ⟨c, hc, rfl⟩ := mem_map.mp ha
    have hc := (ordered_perm _).mem_iff.mp hc
    obtain ⟨p, hpair⟩ := h.exists_pair hc
    exact hpair.cleared_within hc rfl
  opposite := by
    rw [h.isPair.sum_cash, h.isPair.swap.sum_cash, if_pos rfl, if_neg h.ne.symm, neg_neg]
  cash := by
    intro r p hrp
    have hpositions : ∀ e, positionOf input.components e = input.net e := fun e => (net_eq e).symm
    simp only [hpositions]
    rcases hrp with ⟨rfl, rfl⟩ | ⟨rfl, rfl⟩
    · rw [h.isPair.sum_cash, if_pos rfl, cashToFrom]
    · rw [h.isPair.swap.sum_cash, if_neg h.ne.symm, cashToFrom]
      split_ifs <;> omega
  oldest := by
    rw [result, pairwise_map]
    exact h.pairwise_untouched

end NettingInput

/-- **Netting settles only what both books show.** A run never asks for more than is open;
what it returns nets each entity to zero, clears every component on its own side and oldest
first, moves the cash both books show and does not depend on the order of the components;
and settlements of a component that end with its whole open amount release its whole carrying
amount, each with its sign. -/
theorem netting_settles_what_is_shown (input : NettingInput) :
    allocatePairNetting input ≠ .error .exceededOpen ∧
      ∀ result, allocatePairNetting input = .ok result →
        SettlesWhatIsShown input result.allocations ∧
        (∀ components, input.components.Perm components →
          allocatePairNetting { input with components } = .ok result) ∧
        ∀ c ∈ input.components, c.openTransaction ≠ 0 → ∀ settlements : List ℤ,
          (∀ s ∈ settlements, 0 ≤ s * c.openTransaction) →
          settlements.sum = c.openTransaction →
          ∃ released, releases c.openTransaction c.openCarrying settlements = .ok released ∧
            released.sum = c.openCarrying ∧ ∀ x ∈ released, 0 ≤ x * c.openTransaction := by
  by_cases haccepted : input.Accepted
  · have hresult := haccepted.allocatePairNetting_eq
    refine ⟨by simp [hresult], fun result hrun => ?_⟩
    obtain rfl : input.result = result := Except.ok.inj (hresult.symm.trans hrun)
    refine ⟨haccepted.settles, fun components hperm => ?_, fun c hc hopen settlements => ?_⟩
    · obtain ⟨haccepted', hsame⟩ := haccepted.result_perm hperm
      rw [haccepted'.allocatePairNetting_eq, hsame]
    · exact releases_eq hopen ((haccepted.accepts c hc).sign hopen)
  · obtain ⟨e, herror, hne⟩ := allocatePairNetting_refused haccepted
    refine ⟨by simpa [herror] using hne, fun result hrun => ?_⟩
    rw [herror] at hrun
    exact absurd hrun (by simp)

/-- A component between two entities. -/
def sampleComponent (key : String) (ofSeller : Bool) (openTransaction openCarrying : ℤ) :
    NettingComponent where
  key := key
  pairId := "pair"
  subsidiaryId := if ofSeller then "seller" else "buyer"
  counterpartySubsidiaryId := if ofSeller then "buyer" else "seller"
  currency := "EUR"
  functionalCurrency := "CAD"
  component := .openItem
  accountId := "control"
  journalLineId := some key
  documentId := none
  partyId := none
  openTransaction := openTransaction
  openCarrying := openCarrying
  sortKey := key

/-- A seller that is owed two invoices and owes a credit, and a buyer that has recorded less. -/
def sampleNetting : NettingInput where
  pairId := "pair"
  currency := "EUR"
  fromSubsidiaryId := "seller"
  toSubsidiaryId := "buyer"
  components := [sampleComponent "2" true 50000 75001, sampleComponent "1" true 100000 150001,
    sampleComponent "3" true (-40000) (-60000), sampleComponent "4" false (-80000) (-120000)]
  settleCash := true
  rateFor := fun _ => 16000000000

/-- The theorem at a pair with netting and cash, and at three settlements of an invoice. -/
theorem netting_settles_sample :
    (∃ result, allocatePairNetting sampleNetting = .ok result ∧ result.cashToFrom = 80000 ∧
      SettlesWhatIsShown sampleNetting result.allocations) ∧
    ∃ released, releases 100000 150001 [30000, 30000, 40000] = .ok released ∧
      released.sum = 150001 := by
  obtain ⟨result, hrun, hcash⟩ : ∃ result, allocatePairNetting sampleNetting = .ok result ∧
      decide (result.cashToFrom = 80000) = true := exists_of_any (by decide +kernel)
  obtain ⟨hsettles, -, hreleases⟩ := (netting_settles_what_is_shown sampleNetting).2 result hrun
  obtain ⟨released, hreleased, hsum, -⟩ := hreleases (sampleComponent "1" true 100000 150001)
    (by decide) (by decide) [30000, 30000, 40000] (by decide) (by decide)
  exact ⟨⟨result, hrun, by simpa using hcash, hsettles⟩, released, hreleased, hsum⟩

end OpenBooks
