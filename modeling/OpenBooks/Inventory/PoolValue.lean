import OpenBooks.Inventory.CostLayers
import OpenBooks.Lib.ListSum
import Mathlib.Data.List.Nodup

/-!
# What the pool operations do to value and quantity

One lemma for each way the rows of a pool change. Retiring rows takes their value
out; writing fragments puts theirs in (`Wrote`); and recording draws takes
out exactly what the draws cost, provided each is priced by what its layer gives up
and no layer is drawn twice (`recordConsumptions_effect`).
-/

namespace OpenBooks

open Checked ListSum List

/-- Every row of the pool holds a nonnegative quantity at a nonnegative rate. -/
def Pool.Nonneg (p : Pool) : Prop :=
  ∀ row ∈ p.rows, 0 ≤ row.remainingQuantity ∧ 0 ≤ row.unitCost

/-! ### Retiring -/

section Retire

variable {p : Pool} {layers : List LayerRow}

theorem live_perm (p : Pool) (query : Query) (selects : LayerRow → Bool) :
    (p.live query selects).Perm
      (p.rows.filter fun row => 0 < row.remainingQuantity ∧ selects row) :=
  query.perm _

theorem mem_of_mem_live {query : Query} {selects : LayerRow → Bool} {row : LayerRow}
    (h : row ∈ p.live query selects) : row ∈ p.rows ∧ 0 < row.remainingQuantity := by
  have := mem_filter.mp ((live_perm p query selects).mem_iff.mp h)
  simp only [decide_eq_true_eq] at this
  exact ⟨this.1, this.2.1⟩

theorem nodup_live_ids (p : Pool) (query : Query) (selects : LayerRow → Bool) :
    ((p.live query selects).map LayerRow.id).Nodup := by
  rw [((live_perm p query selects).map LayerRow.id).nodup_iff]
  exact p.unique.sublist (filter_sublist.map _)

theorem retire_effect (query : Query) (selects : LayerRow → Bool) :
    let layers := p.live query selects
    (p.retire (layers.map LayerRow.id)).value = p.value - (layers.map LayerRow.value).sum ∧
      (p.retire (layers.map LayerRow.id)).quantity =
        p.quantity - (layers.map LayerRow.remainingQuantity).sum := by
  intro layers
  have hperm : (p.rows.filter fun row => decide (row.id ∈ layers.map LayerRow.id)).Perm layers := by
    refine Perm.trans (Perm.of_eq ?_) (live_perm p query selects).symm
    refine filter_congr fun row hrow => ?_
    rw [decide_eq_decide]
    constructor
    · intro hid
      obtain ⟨row', hrow', heq⟩ := mem_map.mp hid
      obtain rfl := inj_on_of_nodup_map p.unique (mem_of_mem_live hrow').1 hrow heq
      have := mem_filter.mp ((live_perm p query selects).mem_iff.mp hrow')
      simpa using this.2
    · intro hsel
      refine mem_map_of_mem ((live_perm p query selects).mem_iff.mpr ?_)
      exact mem_filter.mpr ⟨hrow, by simpa using hsel⟩
  have heffect : ∀ f : LayerRow → ℤ, (∀ row : LayerRow, f row.retired = 0) →
      ((p.retire (layers.map LayerRow.id)).rows.map f).sum =
        (p.rows.map f).sum - (layers.map f).sum := by
    intro f hf
    have hupdate := sum_map_update (fun row : LayerRow => decide (row.id ∈ layers.map LayerRow.id))
      LayerRow.retired f p.rows
    have hneg := (hperm.map fun row : LayerRow => f row.retired - f row).sum_eq
    simp only [decide_eq_true_eq] at hupdate
    rw [Pool.retire, Pool.update, map_map]
    refine hupdate.trans ?_
    have hzero : (layers.map fun row => f row.retired).sum = 0 :=
      sum_eq_zero (by simp [hf])
    rw [hneg, sum_map_sub, hzero]
    ring
  exact ⟨heffect _ fun row => by simp [LayerRow.value, LayerRow.retired], heffect _ fun row => rfl⟩

theorem retire_nonneg (hp : p.Nonneg) (ids : List ℕ) : (p.retire ids).Nonneg := by
  intro row hrow
  obtain ⟨row₀, hrow₀, rfl⟩ := mem_map.mp hrow
  obtain ⟨hq, hu⟩ := hp row₀ hrow₀
  split_ifs
  · exact ⟨le_rfl, hu⟩
  · exact ⟨hq, hu⟩

end Retire

/-! ### Writing fragments -/

/-- The pool `p'` is `p` with layers for the created fragments after its own. -/
def Wrote (p p' : Pool) (created : List CreatedFragment) : Prop :=
  ∃ new, p'.rows = p.rows ++ new ∧
    new.map LayerRow.costing = created.map CreatedFragment.costing

section Write

variable {p p' p'' : Pool} {created created' : List CreatedFragment}

theorem Wrote.refl (p : Pool) : Wrote p p [] := ⟨[], by simp, rfl⟩

theorem Wrote.trans (h : Wrote p p' created) (h' : Wrote p' p'' created') :
    Wrote p p'' (created ++ created') := by
  obtain ⟨new, hrows, hnew⟩ := h
  obtain ⟨new', hrows', hnew'⟩ := h'
  exact ⟨new ++ new', by rw [hrows', hrows, append_assoc], by
    rw [map_append, map_append, hnew, hnew']⟩

/-- What created fragments are worth, and how much they are. -/
def createdValue (created : List CreatedFragment) : ℤ :=
  (created.map fun f => extendCost f.quantity f.unitCost).sum

def createdQuantity (created : List CreatedFragment) : ℤ :=
  (created.map CreatedFragment.quantity).sum

theorem Wrote.effect (h : Wrote p p' created) :
    p'.value = p.value + createdValue created ∧
      p'.quantity = p.quantity + createdQuantity created := by
  obtain ⟨new, hrows, hnew⟩ := h
  have hvalue : (new.map LayerRow.value).sum = createdValue created := by
    have := congrArg (fun ls => (ls.map fun l : CostLayer => extendCost l.remaining l.unitCost).sum) hnew
    simp only [map_map] at this
    exact this
  have hquantity : (new.map LayerRow.remainingQuantity).sum = createdQuantity created := by
    have := congrArg (fun ls => (ls.map CostLayer.remaining).sum) hnew
    simp only [map_map] at this
    exact this
  simp only [Pool.value, Pool.quantity, hrows, map_append, sum_append, hvalue, hquantity, and_self]

/-- Fragments of positive quantity at nonnegative rates. -/
def CreatedFragment.Valid (f : CreatedFragment) : Prop := 0 < f.quantity ∧ 0 ≤ f.unitCost

theorem Wrote.nonneg (h : Wrote p p' created) (hp : p.Nonneg)
    (hcreated : ∀ f ∈ created, f.Valid) : p'.Nonneg := by
  obtain ⟨new, hrows, hnew⟩ := h
  intro row hrow
  rw [hrows] at hrow
  rcases mem_append.mp hrow with hrow | hrow
  · exact hp row hrow
  · have hmem : row.costing ∈ created.map CreatedFragment.costing := hnew ▸ mem_map_of_mem hrow
    obtain ⟨f, hf, heq⟩ := mem_map.mp hmem
    obtain ⟨hq, hu⟩ := hcreated f hf
    have h1 : f.quantity = row.remainingQuantity := congrArg CostLayer.remaining heq
    have h2 : f.unitCost = row.unitCost := congrArg CostLayer.unitCost heq
    exact ⟨h1 ▸ hq.le, h2 ▸ hu⟩

theorem insertAll_wrote (movementId receivedAt : String) (consumed : Bool)
    (fragments : List (CostFragment × Option ℤ)) (p : Pool) :
    let r := insertAll movementId receivedAt consumed p fragments
    Wrote p r.1 r.2 ∧
      r.2.map (fun f => (⟨f.quantity, f.unitCost⟩ : CostFragment)) = fragments.map Prod.fst ∧
      ∀ f ∈ r.2, f.consumed = consumed := by
  induction fragments generalizing p with
  | nil => exact ⟨Wrote.refl p, rfl, by simp [insertAll]⟩
  | cons fb rest ih =>
    obtain ⟨f, basis⟩ := fb
    obtain ⟨h1, h2, h3⟩ := ih (p.insert movementId receivedAt f basis)
    simp only [insertAll]
    refine ⟨?_, by simp [h2], by simpa using h3⟩
    have hone : Wrote p (p.insert movementId receivedAt f basis)
        [⟨p.nextId, f.quantity, f.unitCost, consumed, basis⟩] := ⟨_, rfl, rfl⟩
    exact hone.trans h1

/-- **Writing fragments never refuses**, and writes what they represent. -/
theorem writeFragments_ok (location : PoolLocation) (p : Pool) (movementId receivedAt : String)
    (consumed : Bool) (originalCost : Option ℤ) {fragments : List CostFragment} {q v : ℤ}
    (hrep : Represents q v fragments) :
    ∃ p' created, writeFragments location p movementId receivedAt consumed originalCost fragments =
        .ok (p', created) ∧ Wrote p p' created ∧ createdQuantity created = q ∧
      createdValue created = v ∧ ∀ f ∈ created, f.Valid ∧ f.consumed = consumed := by
  have hpos : ∀ x ∈ fragments.map CostFragment.quantity, 0 < x := by simpa using hrep.positive
  obtain ⟨bases, hbases, hlen⟩ := splitOriginalCost_ok location.original hpos originalCost
    (fragments.map fun f => extendCost f.quantity f.unitCost)
  obtain ⟨hwrote, hfragments, hconsumed⟩ :=
    insertAll_wrote movementId receivedAt consumed (fragments.zip bases) p
  rw [map_fst_zip (by simp [hlen])] at hfragments
  refine ⟨_, _, by simp only [writeFragments, hbases]; rfl, hwrote, ?_, ?_, ?_⟩
  · have := congrArg fragmentQuantity hfragments
    rw [hrep.quantity_eq, fragmentQuantity, map_map] at this
    exact this
  · have := congrArg fragmentValue hfragments
    rw [hrep.value_eq, fragmentValue, map_map] at this
    exact this
  · intro f hf
    have hmem : (⟨f.quantity, f.unitCost⟩ : CostFragment) ∈ fragments :=
      hfragments ▸ mem_map_of_mem hf
    exact ⟨⟨hrep.positive _ hmem, hrep.rate_nonneg _ hmem⟩, hconsumed f hf⟩

end Write

/-! ### Recording draws -/

section Record

variable {p p' : Pool} {c : Consumption}

/-- A recorded draw, without its original cost. -/
def Consumption.draw (c : Consumption) : LayerConsumption :=
  ⟨c.layerId, c.quantity, c.unitCost, c.cost⟩

/-- **What recording one draw does**, when it is priced by what its layer gives up:
the pool loses the cost and the quantity, and other layers stay as they are. -/
theorem recordConsumption_effect (h : recordConsumption p c = .ok p')
    (hdrawn : DrawnFrom (p.rows.map LayerRow.costing) c.draw) :
    p'.value = p.value - c.cost ∧ p'.quantity = p.quantity - c.quantity ∧
      (p.Nonneg → p'.Nonneg) ∧
      ∀ layer ∈ p.rows.map LayerRow.costing, layer.id ≠ c.layerId →
        layer ∈ p'.rows.map LayerRow.costing := by
  simp only [recordConsumption, bind_eq_ok, refuseIf_eq_ok, pure_eq_ok, not_not] at h
  obtain ⟨_, -, _, hone, rfl⟩ := h
  obtain ⟨x, hx⟩ := List.length_eq_one_iff.mp hone
  obtain ⟨hmem, hon⟩ := mem_filter.mp (hx ▸ mem_singleton_self x)
  simp only [drawsOn, decide_eq_true_eq] at hon
  obtain ⟨hid, hle, hunit, -⟩ := hon
  -- the layer the draw was priced on is the row it is taken off
  obtain ⟨layer, hlayer, hlid, -, -, -, hcost⟩ := hdrawn
  obtain ⟨y, hy, rfl⟩ := mem_map.mp hlayer
  obtain rfl : y = x := inj_on_of_nodup_map p.unique hy hmem (hlid.symm.trans hid.symm)
  have hsum : ∀ f : LayerRow → ℤ,
      ((p.update (fun row => if drawsOn c row then row.drawn c else row)
        fun row => by split_ifs <;> rfl).rows.map f).sum = (p.rows.map f).sum + (f (y.drawn c) - f y) := by
    intro f
    rw [Pool.update, map_map]
    refine (sum_map_update (drawsOn c) (LayerRow.drawn · c) f p.rows).trans ?_
    rw [hx, map_singleton, sum_singleton]
  refine ⟨?_, ?_, fun hp row hrow => ?_, fun layer hlayer hne => ?_⟩
  · rw [Pool.value, hsum]
    have : c.cost = y.value - (y.drawn c).value := hcost
    rw [this, Pool.value]
    ring
  · rw [Pool.quantity, hsum, Pool.quantity]
    simp only [LayerRow.drawn]
    ring
  · obtain ⟨row₀, hrow₀, rfl⟩ := mem_map.mp hrow
    obtain ⟨hq, hu⟩ := hp row₀ hrow₀
    split_ifs with hd
    · simp only [drawsOn, decide_eq_true_eq] at hd
      exact ⟨by simpa [LayerRow.drawn] using hd.2.1, hu⟩
    · exact ⟨hq, hu⟩
  · obtain ⟨row, hrow, rfl⟩ := mem_map.mp hlayer
    refine mem_map.mpr ⟨row, mem_map.mpr ⟨row, hrow, ?_⟩, rfl⟩
    rw [if_neg]
    intro hd
    simp only [drawsOn, decide_eq_true_eq] at hd
    exact hne hd.1

/-- **Recording draws takes out exactly what they cost.** -/
theorem recordConsumptions_effect {cs : List Consumption} (h : recordConsumptions p cs = .ok p')
    (hnodup : (cs.map Consumption.layerId).Nodup)
    (hdrawn : ∀ c ∈ cs, DrawnFrom (p.rows.map LayerRow.costing) c.draw) (hp : p.Nonneg) :
    p'.value = p.value - (cs.map Consumption.cost).sum ∧
      p'.quantity = p.quantity - (cs.map Consumption.quantity).sum ∧ p'.Nonneg := by
  induction cs generalizing p with
  | nil =>
    obtain rfl : p = p' := Except.ok.inj h
    simpa using hp
  | cons c cs ih =>
    rw [recordConsumptions, foldlM_cons, bind_eq_ok] at h
    obtain ⟨p₁, h₁, hrest⟩ := h
    obtain ⟨hc, hcs⟩ := nodup_cons.mp hnodup
    obtain ⟨hvalue, hquantity, hnonneg, hother⟩ := recordConsumption_effect h₁ (hdrawn c (by simp))
    obtain ⟨hvalue', hquantity', hnonneg'⟩ := ih hrest hcs (fun d hd => by
      obtain ⟨layer, hlayer, hid, hrest⟩ := hdrawn d (by simp [hd])
      refine ⟨layer, hother layer hlayer fun heq => hc ?_, hid, hrest⟩
      exact (hid.trans heq) ▸ mem_map_of_mem hd) (hnonneg hp)
    refine ⟨?_, ?_, hnonneg'⟩
    · rw [hvalue', hvalue, map_cons, sum_cons]
      ring
    · rw [hquantity', hquantity, map_cons, sum_cons]
      ring

end Record

end OpenBooks
