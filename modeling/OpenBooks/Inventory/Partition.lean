import OpenBooks.Inventory.PoolValue

/-!
# The weighted withdrawal preserves value

An issue from a moving-average pool is worth its share of the pool, rounded once. When the existing
rates cannot express that share the pool is partitioned: the sources are walked in order, first
drawn off and then retained, and each part is valued as the difference of two cumulative shares.
Cumulative rounding telescopes (`PartitionInv`), so the drawn parts make up the withdrawal and the
retained parts the rest; each part is then written in exact fragments, and drawing the drawn
fragments whole gives the withdrawal back.

So the partition never refuses and moves nothing but the withdrawal (`withdrawWeighted_ok`).
-/

namespace OpenBooks

open Checked FirstSeen List HalfAway

/-! ### The partition loop -/

/-- How much the drawn, or the retained, partitions are. -/
def partQuantity (consumed : Bool) (parts : List Partition) : ℤ :=
  ((parts.filter fun p => p.consumed = consumed).map Partition.quantity).sum

/-- What the drawn, or the retained, partitions are worth. -/
def partValue (consumed : Bool) (parts : List Partition) : ℤ :=
  ((parts.filter fun p => p.consumed = consumed).map Partition.value).sum

variable (b : Bool)

@[simp] theorem partQuantity_append (ps qs : List Partition) :
    partQuantity b (ps ++ qs) = partQuantity b ps + partQuantity b qs := by
  simp [partQuantity]

@[simp] theorem partValue_append (ps qs : List Partition) :
    partValue b (ps ++ qs) = partValue b ps + partValue b qs := by
  simp [partValue]

/-- A partition of positive quantity and nonnegative value. -/
def Partition.Valid (p : Partition) : Prop := 0 < p.quantity ∧ 0 ≤ p.value

/-- The invariant of the partition loop after sources of quantity `done`: drawing
comes before retaining, and both sides are valued up to their cumulative share. -/
structure PartitionInv (w : Withdrawal) (done : ℤ) (s : PartitionState) : Prop where
  split : s.drawCumulative + s.retainedCumulative = done
  need : s.drawCumulative + s.drawRemaining = w.coveredUnits
  drawCumulative_nonneg : 0 ≤ s.drawCumulative
  drawRemaining_nonneg : 0 ≤ s.drawRemaining
  retainedCumulative_nonneg : 0 ≤ s.retainedCumulative
  drawFirst : 0 < s.retainedCumulative → s.drawRemaining = 0
  drawAssigned_eq : s.drawAssigned =
    HalfAway.round (w.weightedCost * s.drawCumulative) w.coveredUnits
  retainedAssigned_eq : 0 < w.retainedQuantity → s.retainedAssigned =
    HalfAway.round (w.retainedValue * s.retainedCumulative) w.retainedQuantity
  retainedAssigned_zero : s.retainedCumulative = 0 → s.retainedAssigned = 0
  valid : ∀ p ∈ s.partitions, p.Valid
  drawQuantity : partQuantity true s.partitions = s.drawCumulative
  drawValue : partValue true s.partitions = s.drawAssigned
  retainedQuantity : partQuantity false s.partitions = s.retainedCumulative
  retainedValue : partValue false s.partitions = s.retainedAssigned

variable {w : Withdrawal}

theorem partitionInv_start (hc : 0 < w.coveredUnits) :
    PartitionInv w 0 { drawRemaining := w.coveredUnits } where
  split := rfl
  need := zero_add _
  drawCumulative_nonneg := le_rfl
  drawRemaining_nonneg := hc.le
  retainedCumulative_nonneg := le_rfl
  drawFirst := fun h => absurd h (lt_irrefl 0)
  drawAssigned_eq := by rw [mul_zero, round_zero hc]
  retainedAssigned_eq := fun hr => by rw [mul_zero, round_zero hr]
  retainedAssigned_zero := fun _ => rfl
  valid := by simp
  drawQuantity := rfl
  drawValue := rfl
  retainedQuantity := rfl
  retainedValue := rfl

/-- One side of a source: a part of quantity `x`, valued up to its new cumulative
share, if there is anything of it. -/
theorem part_side {x assigned share : ℤ} (movementId receivedAt : String) (hx : 0 ≤ x)
    (hle : 0 < x → assigned ≤ share) : let parts : List Partition :=
      if 0 < x then [⟨x, share - assigned, b, none, movementId, receivedAt⟩] else []
    partQuantity b parts = x ∧
      partValue b parts = (if 0 < x then share else assigned) - assigned ∧
      partQuantity (!b) parts = 0 ∧ partValue (!b) parts = 0 ∧ ∀ p ∈ parts, p.Valid := by
  by_cases h : 0 < x
  · simp [h, partQuantity, partValue, Partition.Valid, hle h]
  · have hzero : x = 0 := le_antisymm (not_lt.mp h) hx
    simp [hzero, partQuantity, partValue]

variable {s : PartitionState}

/-- **One source keeps the invariant.** -/
theorem partitionSource_inv {done : ℤ} {source : Source} (h : PartitionInv w done s)
    (hc : 0 < w.coveredUnits) (hw : 0 ≤ w.weightedCost) (hr : 0 ≤ w.retainedValue)
    (hq : 0 < source.quantity)
    (hbound : done + source.quantity ≤ w.coveredUnits + w.retainedQuantity) :
    PartitionInv w (done + source.quantity) (partitionSource w s source) := by
  obtain ⟨hsplit, hneed, hdc, hdr, hrc, hfirst, hda, hra, hra0, hvalid, hdq, hdv, hrq, hrv⟩ := h
  have hdraw : 0 ≤ (if source.quantity < s.drawRemaining then source.quantity else s.drawRemaining) ∧
      (if source.quantity < s.drawRemaining then source.quantity else s.drawRemaining) ≤
        source.quantity ∧
      (if source.quantity < s.drawRemaining then source.quantity else s.drawRemaining) ≤
        s.drawRemaining ∧
      ((if source.quantity < s.drawRemaining then source.quantity else s.drawRemaining) <
        source.quantity → (if source.quantity < s.drawRemaining then source.quantity
          else s.drawRemaining) = s.drawRemaining) := by
    split_ifs <;> omega
  simp only [partitionSource, roundDiv_eq_round]
  generalize (if source.quantity < s.drawRemaining then source.quantity else s.drawRemaining) =
    draw at hdraw ⊢
  obtain ⟨hd0, hdle, hdneed, hdall⟩ := hdraw
  have hdrawn : s.drawAssigned ≤
      HalfAway.round (w.weightedCost * (s.drawCumulative + draw)) w.coveredUnits := by
    rw [hda]
    exact round_mono hc (mul_le_mul_of_nonneg_left (by omega) hw)
  have hkept : 0 < source.quantity - draw → 0 < w.retainedQuantity ∧ s.retainedAssigned ≤
      HalfAway.round (w.retainedValue * (s.retainedCumulative + (source.quantity - draw)))
        w.retainedQuantity := by
    intro hret
    have hpos : 0 < w.retainedQuantity := by
      have := hdall (by omega)
      omega
    refine ⟨hpos, ?_⟩
    rw [hra hpos]
    exact round_mono hpos (mul_le_mul_of_nonneg_left (by omega) hr)
  obtain ⟨d1, d2, d3, d4, d5⟩ := part_side true source.movementId source.receivedAt hd0
    fun _ => hdrawn
  obtain ⟨r1, r2, r3, r4, r5⟩ := part_side false source.movementId source.receivedAt
    (show 0 ≤ source.quantity - draw by omega) fun hret => (hkept hret).2
  simp only [Bool.not_true, Bool.not_false] at d3 d4 r3 r4
  constructor <;>
    simp only [partQuantity_append, partValue_append, d1, d2, d3, d4, r1, r2, r3, r4]
  case drawFirst =>
    intro hpos
    rcases lt_or_ge 0 s.retainedCumulative with h | h
    · have := hfirst h
      omega
    · have := hdall (by omega)
      omega
  case drawAssigned_eq =>
    split_ifs with hdpos
    · rfl
    · rw [hda, show draw = 0 by omega, add_zero]
  case retainedAssigned_eq =>
    intro hpos
    split_ifs with hrpos
    · rfl
    · rw [hra hpos, show source.quantity - draw = 0 by omega, add_zero]
  case retainedAssigned_zero =>
    intro hzero
    rw [if_neg (by omega)]
    exact hra0 (by omega)
  case valid =>
    exact forall_mem_append.mpr ⟨forall_mem_append.mpr ⟨hvalid, d5⟩, r5⟩
  all_goals omega

/-- **A run over all sources** draws the withdrawal and retains the rest. -/
theorem partition_run (hc : 0 < w.coveredUnits) (hw : 0 ≤ w.weightedCost)
    (hr : 0 ≤ w.retainedValue) {sources : List Source} (hpos : ∀ s ∈ sources, 0 < s.quantity)
    {done : ℤ} (h : PartitionInv w done s)
    (hsum : done + (sources.map Source.quantity).sum = w.coveredUnits + w.retainedQuantity) :
    PartitionInv w (w.coveredUnits + w.retainedQuantity) (sources.foldl (partitionSource w) s) := by
  induction sources generalizing done s with
  | nil =>
    have hdone : done = w.coveredUnits + w.retainedQuantity := by simpa using hsum
    exact hdone ▸ h
  | cons source sources ih =>
    rw [map_cons, sum_cons] at hsum
    have hrest : 0 ≤ (sources.map Source.quantity).sum :=
      List.sum_nonneg (by simpa using fun s hs => (hpos s (by simp [hs])).le)
    have hstep := partitionSource_inv h hc hw hr (hpos source (by simp)) (by omega)
    exact ih (fun s hs => hpos s (by simp [hs])) hstep (by omega)

theorem partition_total (hc : 0 < w.coveredUnits) (hq : 0 ≤ w.retainedQuantity)
    (hzero : w.retainedQuantity = 0 → w.retainedValue = 0)
    (h : PartitionInv w (w.coveredUnits + w.retainedQuantity) s) :
    partQuantity true s.partitions = w.coveredUnits ∧
      partValue true s.partitions = w.weightedCost ∧
      partQuantity false s.partitions = w.retainedQuantity ∧
      partValue false s.partitions = w.retainedValue := by
  have hdraw : s.drawCumulative = w.coveredUnits := by
    rcases h.retainedCumulative_nonneg.lt_or_eq with hpos | hz
    · have := h.drawFirst hpos
      have := h.need
      omega
    · have := h.split
      have := h.need
      have := h.drawRemaining_nonneg
      omega
  have hret : s.retainedCumulative = w.retainedQuantity := by
    have := h.split
    omega
  refine ⟨h.drawQuantity.trans hdraw, ?_, h.retainedQuantity.trans hret, ?_⟩
  · rw [h.drawValue, h.drawAssigned_eq, hdraw, round_mul_self hc]
  · rw [h.retainedValue]
    rcases hq.lt_or_eq with hpos | hz
    · rw [h.retainedAssigned_eq hpos, hret, round_mul_self hpos]
    · rw [h.retainedAssigned_zero (by omega), hzero hz.symm]

/-! ### The sources of a pool -/

theorem sum_sourcesOf (rows : List LayerRow) :
    ((sourcesOf rows).map Source.quantity).sum = (rows.map LayerRow.remainingQuantity).sum := by
  rw [sourcesOf, map_map]
  exact sum_groupBy LayerRow.sourceMovementId rows LayerRow.remainingQuantity

theorem sourcesOf_pos {rows : List LayerRow} (hpos : ∀ row ∈ rows, 0 < row.remainingQuantity) :
    ∀ s ∈ sourcesOf rows, 0 < s.quantity := by
  intro s hs
  obtain ⟨g, hg, rfl⟩ := mem_map.mp hs
  obtain ⟨-, hfilter⟩ := mem_groupBy.mp (show (g.1, g.2) ∈ _ from hg)
  refine sum_pos _ ?_ (by simpa using group_ne_nil hg)
  simp only [mem_map, forall_exists_index, and_imp, forall_apply_eq_imp_iff₂]
  intro row hrow
  rw [hfilter] at hrow
  exact hpos row (mem_of_mem_filter hrow)

/-! ### Bases and fragments of the partitions -/

/-- A partition without its basis. -/
def Partition.stripped (p : Partition) : Partition := { p with basis := none }

theorem sum_side_stripped (f : Partition → ℤ) (hf : ∀ p, f p.stripped = f p)
    (ps : List Partition) :
    (((ps.map Partition.stripped).filter fun p => p.consumed = b).map f).sum =
      ((ps.filter fun p => p.consumed = b).map f).sum := by
  rw [filter_map, map_map]
  exact congrArg List.sum (map_congr_left fun p _ => hf p)

variable {ps : List Partition} {qs : List Partition}

/-- Partitions that differ in their bases only are as much and are worth as much. -/
theorem part_of_stripped (h : ps.map Partition.stripped = qs.map Partition.stripped) (b : Bool) :
    partQuantity b ps = partQuantity b qs ∧ partValue b ps = partValue b qs := by
  constructor
  · rw [partQuantity, ← sum_side_stripped b _ fun _ => rfl, h, sum_side_stripped b _ fun _ => rfl]
    rfl
  · rw [partValue, ← sum_side_stripped b _ fun _ => rfl, h, sum_side_stripped b _ fun _ => rfl]
    rfl

theorem valid_of_stripped (h : ps.map Partition.stripped = qs.map Partition.stripped)
    (hq : ∀ q ∈ qs, q.Valid) : ∀ p ∈ ps, p.Valid := by
  intro p hp
  have hmem : p.stripped ∈ qs.map Partition.stripped := h ▸ mem_map_of_mem hp
  obtain ⟨q, hqmem, heq⟩ := mem_map.mp hmem
  have h1 : q.stripped.quantity = p.stripped.quantity := congrArg Partition.quantity heq
  have h2 : q.stripped.value = p.stripped.value := congrArg Partition.value heq
  obtain ⟨hpos, hnonneg⟩ := hq q hqmem
  exact ⟨hpos.trans_eq h1, hnonneg.trans_eq h2⟩

theorem dealBases_stripped (ps : List Partition) (bases : List (Option ℤ)) :
    (dealBases b ps bases).map Partition.stripped = ps.map Partition.stripped := by
  induction ps generalizing bases with
  | nil => rfl
  | cons p ps ih =>
    rw [dealBases]
    split_ifs
    · rw [map_cons, ih, map_cons]
      rfl
    · rw [map_cons, ih, map_cons]

variable (location : PoolLocation)

theorem spreadBasis_ok (b : Bool) (basis : Option ℤ) (hvalid : ∀ p ∈ ps, p.Valid) :
    ∃ qs, spreadBasis location b basis ps = .ok qs ∧
      qs.map Partition.stripped = ps.map Partition.stripped := by
  have hpos : ∀ q ∈ (ps.filter fun p => p.consumed = b).map Partition.quantity, 0 < q := by
    simp only [mem_map, mem_filter, forall_exists_index, and_imp]
    rintro q p hp - rfl
    exact (hvalid p hp).1
  obtain ⟨bases, hbases, -⟩ := splitOriginalCost_ok location.original hpos basis
    ((ps.filter fun p => p.consumed = b).map Partition.value)
  exact ⟨_, by simp only [spreadBasis, hbases]; rfl, dealBases_stripped b ps bases⟩

def sideOf (b : Bool) (created : List CreatedFragment) : List CreatedFragment :=
  created.filter fun f => f.consumed = b

theorem writePartition_ok (p : Pool) (acc : List CreatedFragment) {part : Partition}
    (hvalid : part.Valid) :
    ∃ p' created, writePartition location (p, acc) part = .ok (p', acc ++ created) ∧
      Wrote p p' created ∧ (∀ f ∈ created, f.Valid) ∧
      ∀ b, createdQuantity (sideOf b created) = partQuantity b [part] ∧
        createdValue (sideOf b created) = partValue b [part] := by
  obtain ⟨fragments, hfragments, hrep⟩ :=
    exactCostFragments_none hvalid.1 hvalid.2
  obtain ⟨p', created, hwrite, hwrote, hq, hv, hall⟩ := writeFragments_ok location p part.movementId
    part.receivedAt part.consumed part.basis hrep
  refine ⟨p', created, ?_, hwrote, fun f hf => (hall f hf).1, fun b => ?_⟩
  · rw [writePartition, if_neg hvalid.1.ne', hfragments]
    change (writeFragments _ _ _ _ _ _ _ >>= _) = _
    rw [hwrite]
    rfl
  · by_cases hb : part.consumed = b
    · have hside : sideOf b created = created :=
        filter_eq_self.mpr fun f hf => by simp [(hall f hf).2, hb]
      rw [hside, hq, hv]
      simp [partQuantity, partValue, hb]
    · have hside : sideOf b created = [] :=
        filter_eq_nil_iff.mpr fun f hf => by simp [(hall f hf).2, hb]
      rw [hside]
      simp [partQuantity, partValue, hb, createdQuantity, createdValue]

/-- **Writing the partitions never refuses**, and writes each side at what it is
worth. -/
theorem writePartitions_ok {parts : List Partition} (hvalid : ∀ part ∈ parts, part.Valid)
    (p : Pool) (acc : List CreatedFragment) :
    ∃ p' created, parts.foldlM (writePartition location) (p, acc) = .ok (p', acc ++ created) ∧
      Wrote p p' created ∧ (∀ f ∈ created, f.Valid) ∧
      ∀ b, createdQuantity (sideOf b created) = partQuantity b parts ∧
        createdValue (sideOf b created) = partValue b parts := by
  induction parts generalizing p acc with
  | nil => exact ⟨p, [], by simp, Wrote.refl p, by simp, fun b => ⟨rfl, rfl⟩⟩
  | cons part parts ih =>
    obtain ⟨p₁, c₁, h₁, hwrote₁, hvalid₁, hside₁⟩ :=
      writePartition_ok location p acc (hvalid part (by simp))
    obtain ⟨p₂, c₂, h₂, hwrote₂, hvalid₂, hside₂⟩ :=
      ih (fun q hq => hvalid q (by simp [hq])) p₁ (acc ++ c₁)
    refine ⟨p₂, c₁ ++ c₂, ?_, hwrote₁.trans hwrote₂,
      forall_mem_append.mpr ⟨hvalid₁, hvalid₂⟩, fun b => ?_⟩
    · rw [foldlM_cons, h₁, ← append_assoc]
      exact h₂
    · obtain ⟨hq₁, hv₁⟩ := hside₁ b
      obtain ⟨hq₂, hv₂⟩ := hside₂ b
      have hsplit := partQuantity_append b [part] parts
      have hsplit' := partValue_append b [part] parts
      rw [singleton_append] at hsplit hsplit'
      rw [hsplit, hsplit', ← hq₁, ← hv₁, ← hq₂, ← hv₂]
      simp [sideOf, createdQuantity, createdValue]

/-! ### The withdrawal -/

def CreatedFragment.wholeDraw (f : CreatedFragment) : LayerConsumption :=
  ⟨f.id, f.quantity, f.unitCost, extendCost f.quantity f.unitCost⟩

/-- Drawing fragments whole gives back what they are worth, with nothing left to
draw. -/
theorem consumeFifo_all (created : List CreatedFragment) (hvalid : ∀ f ∈ created, f.Valid)
    (hpos : 0 < createdQuantity created) (fallback : ℤ) :
    consumeFifo (created.map CreatedFragment.costing) (createdQuantity created) fallback =
      ⟨created.map CreatedFragment.wholeDraw, createdValue created, 0, 0⟩ := by
  have hsum : createdQuantity created =
      ((created.map CreatedFragment.costing).map CostLayer.remaining).sum := by
    rw [map_map]
    rfl
  have hlayers : ∀ l ∈ created.map CreatedFragment.costing, 0 < l.remaining := fun l hl => by
    obtain ⟨f, hf, rfl⟩ := mem_map.mp hl
    exact (hvalid f hf).1
  have hall := drawLayers_all hlayers
  rw [← hsum] at hall
  rw [consumeFifo, if_neg (not_le.mpr hpos), hall]
  simp only [lt_irrefl, if_false, map_map]
  rfl

/-- What a withdrawal leaves behind and hands on: the pool as much and as valuable
as before, and draws off its layers that cost the withdrawal. -/
structure Withdrawn (pool written : Pool) (cost quantity : ℤ) (cs : List Consumption) : Prop where
  value_eq : written.value = pool.value
  quantity_eq : written.quantity = pool.quantity
  nonneg : written.Nonneg
  nodup : (cs.map Consumption.layerId).Nodup
  drawn : ∀ c ∈ cs, DrawnFrom (written.rows.map LayerRow.costing) c.draw
  cost_eq : (cs.map Consumption.cost).sum = cost
  drawnQuantity_eq : (cs.map Consumption.quantity).sum = quantity

/-- A weighted cost lies between nothing and the pool, and is the pool when the pool
is drawn whole. -/
theorem weightedCost_bounds {V C A : ℤ} (hV : 0 ≤ V) (hC : 0 < C) (hle : C ≤ A) :
    0 ≤ roundDiv (V * C) A ∧ roundDiv (V * C) A ≤ V ∧ (A - C = 0 → V + -roundDiv (V * C) A = 0) := by
  have hA : 0 < A := hC.trans_le hle
  rw [roundDiv_eq_round]
  refine ⟨round_nonneg hA (mul_nonneg hV hC.le),
    round_le_of_le_mul hA (mul_le_mul_of_nonneg_left hle hV), fun heq => ?_⟩
  rw [show C = A by omega, round_mul_self hA]
  omega

/-- The partitions of a withdrawal, with their bases: valid, and as much and as
valuable as the withdrawal and the rest. -/
theorem withdrawalParts_ok (hc : 0 < w.coveredUnits) (hw : 0 ≤ w.weightedCost)
    (hr : 0 ≤ w.retainedValue) (hq : 0 ≤ w.retainedQuantity)
    (hzero : w.retainedQuantity = 0 → w.retainedValue = 0) {layers : List LayerRow}
    (hpos : ∀ row ∈ layers, 0 < row.remainingQuantity)
    (hsum : (layers.map LayerRow.remainingQuantity).sum = w.coveredUnits + w.retainedQuantity)
    (consumedBasis retainedBasis : Option ℤ) :
    ∃ parts₁ parts,
      spreadBasis location true consumedBasis ((sourcesOf layers).foldl (partitionSource w)
        { drawRemaining := w.coveredUnits }).partitions = .ok parts₁ ∧
      spreadBasis location false retainedBasis parts₁ = .ok parts ∧
      (∀ p ∈ parts, p.Valid) ∧
      partQuantity true parts = w.coveredUnits ∧ partValue true parts = w.weightedCost ∧
      partQuantity false parts = w.retainedQuantity ∧ partValue false parts = w.retainedValue := by
  have hinv := partition_run hc hw hr (sourcesOf_pos hpos) (partitionInv_start hc)
    (by rw [sum_sourcesOf, zero_add, hsum])
  obtain ⟨hdq, hdv, hrq, hrv⟩ := partition_total hc hq hzero hinv
  obtain ⟨parts₁, hparts₁, hstrip₁⟩ := spreadBasis_ok location true consumedBasis hinv.valid
  have hvalid₁ := valid_of_stripped hstrip₁ hinv.valid
  obtain ⟨parts, hparts, hstrip₂⟩ := spreadBasis_ok location false retainedBasis hvalid₁
  obtain ⟨h1, h2⟩ := part_of_stripped (hstrip₂.trans hstrip₁) true
  obtain ⟨h3, h4⟩ := part_of_stripped (hstrip₂.trans hstrip₁) false
  exact ⟨parts₁, parts, hparts₁, hparts, valid_of_stripped hstrip₂ hvalid₁, h1.trans hdq,
    h2.trans hdv, h3.trans hrq, h4.trans hrv⟩

theorem created_sides (created : List CreatedFragment) :
    createdQuantity created =
        createdQuantity (sideOf true created) + createdQuantity (sideOf false created) ∧
      createdValue created = createdValue (sideOf true created) + createdValue (sideOf false created) := by
  induction created with
  | nil => exact ⟨rfl, rfl⟩
  | cons f created ih =>
    obtain ⟨hq, hv⟩ := ih
    have hcons : ∀ b, sideOf b (f :: created) =
        if f.consumed = b then f :: sideOf b created else sideOf b created := fun b => by
      simp [sideOf, filter_cons]
    simp only [createdQuantity, createdValue, hcons] at hq hv ⊢
    cases f.consumed <;> simp [hq, hv] <;> constructor <;> ring

theorem drawn_of_created {p p' : Pool} {created : List CreatedFragment} (h : Wrote p p' created)
    (hvalid : ∀ f ∈ created, f.Valid) {side : List CreatedFragment} (hside : side.Sublist created) :
    let cs := (side.map CreatedFragment.wholeDraw).map (withCreatedCost created)
    (cs.map Consumption.layerId).Nodup ∧
      ∀ c ∈ cs, DrawnFrom (p'.rows.map LayerRow.costing) c.draw := by
  intro cs
  obtain ⟨new, hrows, hnew⟩ := h
  constructor
  · have hids : (created.map CreatedFragment.id).Nodup := by
      have hcongr := congrArg (List.map CostLayer.id) hnew
      rw [map_map, map_map] at hcongr
      have hnodup := p'.unique
      rw [hrows, map_append, nodup_append] at hnodup
      exact hcongr ▸ hnodup.2.1
    rw [map_map, map_map]
    exact hids.sublist (hside.map _)
  · intro c hc
    obtain ⟨c', hc', rfl⟩ := mem_map.mp hc
    obtain ⟨f, hf, rfl⟩ := mem_map.mp hc'
    obtain ⟨hq, -⟩ := hvalid f (hside.subset hf)
    refine ⟨f.costing, ?_, rfl, rfl, hq, le_rfl, ?_⟩
    · rw [hrows, map_append, hnew]
      exact mem_append_right _ (mem_map_of_mem (hside.subset hf))
    · have hzero : mulUnits 0 f.unitCost = 0 := extendCost_zero f.unitCost
      simp [drawCost, CreatedFragment.costing, Consumption.draw, withCreatedCost,
        CreatedFragment.wholeDraw, extendCost, hzero]

/-- **The weighted withdrawal never refuses**, and moves nothing but the
withdrawal. -/
theorem withdrawWeighted_ok {pool : Pool} (hpool : pool.Nonneg) (query : Query)
    (selects : LayerRow → Bool) {C A V : ℤ} (hC : 0 < C) (hle : C ≤ A)
    (hA : A = ((pool.live query selects).map LayerRow.remainingQuantity).sum)
    (hV : V = ((pool.live query selects).map LayerRow.value).sum) :
    ∃ written r cs, withdrawWeighted location pool (pool.live query selects) C A V
        (roundDiv (V * C) A) = .ok (written, r, cs) ∧ r.totalCost = roundDiv (V * C) A ∧
      Withdrawn pool written (roundDiv (V * C) A) C cs := by
  have hlive : ∀ row ∈ pool.live query selects, row ∈ pool.rows ∧ 0 < row.remainingQuantity :=
    fun row hrow => mem_of_mem_live hrow
  have hV0 : 0 ≤ V := by
    rw [hV]
    refine List.sum_nonneg ?_
    simp only [mem_map, forall_exists_index, and_imp, forall_apply_eq_imp_iff₂]
    intro row hrow
    obtain ⟨hq, hu⟩ := hpool row (hlive row hrow).1
    exact extendCost_nonneg hq hu
  obtain ⟨hW0, hWV, hwhole⟩ := weightedCost_bounds hV0 hC hle
  generalize roundDiv (V * C) A = W at *
  obtain ⟨basis, hbasis⟩ := consumeOriginalCost_ok
    (sumOriginalCosts ((pool.live query selects).map LayerRow.remainingOriginalCost))
    location.original (hC.trans_le hle) hC.le hle
  obtain ⟨parts₁, parts, hparts₁, hparts, hvalid, hdq, hdv, hrq, hrv⟩ :=
    withdrawalParts_ok location (w := ⟨C, W, A - C, V + -W⟩) hC hW0
      (show 0 ≤ V + -W by omega) (show 0 ≤ A - C by omega) hwhole
      (fun row hrow => (hlive row hrow).2) (by rw [← hA]; exact (add_sub_cancel C A).symm) basis
      (basisLeft (sumOriginalCosts
        ((pool.live query selects).map LayerRow.remainingOriginalCost)) basis)
  obtain ⟨written, created, hwrite, hwrote, hcreated, hsides⟩ := writePartitions_ok location hvalid
    (pool.retire ((pool.live query selects).map LayerRow.id)) []
  rw [nil_append] at hwrite
  obtain ⟨hq1, hv1⟩ := hsides true
  obtain ⟨hq2, hv2⟩ := hsides false
  rw [hdq] at hq1
  rw [hdv] at hv1
  rw [hrq] at hq2
  rw [hrv] at hv2
  have hfifo := consumeFifo_all (sideOf true created)
    (fun f hf => hcreated f (mem_of_mem_filter hf)) (by rw [hq1]; exact hC) 0
  rw [hq1, hv1] at hfifo
  have hside : created.filter CreatedFragment.consumed = sideOf true created := by simp [sideOf]
  obtain ⟨hnodup, hdrawn⟩ := drawn_of_created hwrote hcreated
    (show (sideOf true created).Sublist created from filter_sublist)
  obtain ⟨hwvalue, hwquantity⟩ := hwrote.effect
  obtain ⟨hrvalue, hrquantity⟩ := retire_effect (p := pool) query selects
  obtain ⟨hallq, hallv⟩ := created_sides created
  refine ⟨written, ⟨(sideOf true created).map CreatedFragment.wholeDraw, W, 0, 0⟩,
    ((sideOf true created).map CreatedFragment.wholeDraw).map (withCreatedCost created), ?_, rfl,
    ?_, ?_, ?_, hnodup, hdrawn, ?_, ?_⟩
  · simp only [withdrawWeighted, bind_eq_ok, refuseIf_eq_ok, pure_eq_ok]
    refine ⟨basis, hbasis, parts₁, hparts₁, parts, hparts, (written, created), hwrite, (), ?_, ?_⟩
    · simp only [hside]
      rw [hfifo]
      simp
    · simp only [hside]
      rw [hfifo]
  · rw [hwvalue, hrvalue, hallv, hv1, hv2, ← hV]
    ring
  · rw [hwquantity, hrquantity, hallq, hq1, hq2, ← hA]
    ring
  · exact hwrote.nonneg (retire_nonneg hpool _) hcreated
  · rw [map_map, map_map]
    exact hv1
  · rw [map_map, map_map]
    exact hq1

end OpenBooks
