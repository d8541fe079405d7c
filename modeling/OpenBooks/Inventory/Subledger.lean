import OpenBooks.Inventory.Partition

/-!
# The subledger equals the ledger

The general ledger carries stock at what was put in less what issues cost; the subledger carries it
as layers, each worth its rounded extension. `subledger_eq_ledger` is that the two agree after every
step of every run of a stock pool – receipts and covered issues, first-in-first-out or moving
average, in any order and over any grouping into lots and sources – and that an issue the pool
covers is never refused for its valuation.

One kind of receipt is left out. A layer keeps the rate of its source whenever that rate extends to
its value, and nothing checks the sign of the rate, so a quantity small enough to be worth nothing
is booked at a negative rate (`agrees_fails_at_negativeRate`).

The run theorem is two step lemmas, `addLayerAtCost_ok` for a receipt and `consumeLayers_ok` with
`recordConsumptions_effect` for an issue.
-/

namespace OpenBooks

open Checked FirstSeen List

/-! ### Issues -/

variable {quantity : ℤ}

theorem consumeFifo_spec {layers : List CostLayer} (fallback : ℤ) (hq : 0 ≤ quantity)
    (hpos : ∀ l ∈ layers, 0 ≤ l.remaining)
    (hle : quantity ≤ (layers.map CostLayer.remaining).sum) :
    let r := consumeFifo layers quantity fallback
    (∀ c ∈ r.consumptions, DrawnFrom layers c) ∧
      (r.consumptions.map LayerConsumption.layerId).Sublist (layers.map CostLayer.id) ∧
      (r.consumptions.map LayerConsumption.quantity).sum = quantity ∧
      (r.consumptions.map LayerConsumption.cost).sum = r.totalCost := by
  by_cases h0 : quantity ≤ 0
  · have hz : quantity = 0 := le_antisymm h0 hq
    simp [consumeFifo, hz]
  · obtain ⟨h1, h2, h3, -, h5⟩ := drawLayers_spec layers quantity hq
    have hrest := h5 hpos hle
    rw [hrest, add_zero] at h3
    simp only [consumeFifo, h0, if_false, hrest, lt_irrefl]
    exact ⟨h1, h2, h3, trivial⟩

variable (location : PoolLocation)

theorem drawnOriginalCost_ok {layers : List LayerRow} (hnodup : (layers.map LayerRow.id).Nodup)
    {c : LayerConsumption} (h : DrawnFrom (layers.map LayerRow.costing) c) :
    ∃ c', drawnOriginalCost location layers c = .ok c' ∧ c'.draw = c := by
  obtain ⟨layer, hlayer, hid, -, hpos, hle, -⟩ := h
  obtain ⟨row, hrow, rfl⟩ := mem_map.mp hlayer
  have hfind : layers.find? (fun row => row.id = c.layerId) = some row := by
    cases hf : layers.find? (fun row => row.id = c.layerId) with
    | none => simpa [hid, LayerRow.costing] using find?_eq_none.mp hf row hrow
    | some row' =>
      have hid' : row'.id = c.layerId := by simpa using find?_some hf
      rw [inj_on_of_nodup_map hnodup (mem_of_find?_eq_some hf) hrow (hid'.trans hid)]
  have hrem : c.quantity ≤ row.remainingQuantity := hle
  simp only [drawnOriginalCost, hfind, Option.bind_some, Option.map_some, Option.getD_some]
  split_ifs
  · exact ⟨_, rfl, rfl⟩
  · obtain ⟨share, hshare⟩ := consumeOriginalCost_ok row.remainingOriginalCost
      ⟨location.itemId, location.stockLocationId, some c.layerId⟩ (hpos.trans_le hrem) hpos.le hrem
    rw [hshare]
    exact ⟨_, rfl, rfl⟩

variable {pool : Pool}

theorem drawLayers_withdrawn (hpool : pool.Nonneg) (query : Query) (selects : LayerRow → Bool)
    (fallback : ℤ) (hq : 0 ≤ quantity)
    (hle : quantity ≤ ((pool.live query selects).map LayerRow.remainingQuantity).sum) :
    let r := consumeFifo ((pool.live query selects).map LayerRow.costing) quantity fallback
    ∃ cs, r.consumptions.mapM (drawnOriginalCost location (pool.live query selects)) = .ok cs ∧
      Withdrawn pool pool r.totalCost quantity cs := by
  intro r
  have hnodup := nodup_live_ids pool query selects
  have hremaining : ((pool.live query selects).map LayerRow.costing).map CostLayer.remaining =
      (pool.live query selects).map LayerRow.remainingQuantity := by
    rw [map_map]
    rfl
  have hids : ((pool.live query selects).map LayerRow.costing).map CostLayer.id =
      (pool.live query selects).map LayerRow.id := by
    rw [map_map]
    rfl
  have hlayers : ∀ l ∈ (pool.live query selects).map LayerRow.costing, 0 ≤ l.remaining := by
    intro l hl
    obtain ⟨row, hrow, rfl⟩ := mem_map.mp hl
    exact (mem_of_mem_live hrow).2.le
  obtain ⟨hdrawn, hsub, hquantity, hcost⟩ := consumeFifo_spec fallback hq hlayers
    (by rw [hremaining]; exact hle)
  obtain ⟨cs, hcs, hmap⟩ := exists_mapM fun c hc => drawnOriginalCost_ok location hnodup (hdrawn c hc)
  -- a recorded draw has the fields of the draw
  have hfield : ∀ {γ : Type} (f : LayerConsumption → γ),
      cs.map (fun c => f c.draw) = r.consumptions.map f := fun f => by
    rw [← hmap, map_map]
    rfl
  refine ⟨cs, hcs, rfl, rfl, hpool, ?_, fun c hc => ?_, ?_, ?_⟩
  · rw [show cs.map Consumption.layerId = _ from hfield LayerConsumption.layerId]
    exact (hids ▸ hnodup).sublist hsub
  · have hmem : c.draw ∈ r.consumptions := hmap ▸ mem_map_of_mem hc
    obtain ⟨layer, hlayer, hrest⟩ := hdrawn c.draw hmem
    obtain ⟨row, hrow, rfl⟩ := mem_map.mp hlayer
    exact ⟨row.costing, mem_map_of_mem (mem_of_mem_live hrow).1, hrest⟩
  · rw [show cs.map Consumption.cost = _ from hfield LayerConsumption.cost]
    exact hcost
  · rw [show cs.map Consumption.quantity = _ from hfield LayerConsumption.quantity]
    exact hquantity

theorem reliefAtCost_ok (profile : InventoryProfile) (location : PoolLocation)
    (hpool : pool.Nonneg) (query : Query) (selects : LayerRow → Bool) (provisionalUnitCost : ℤ)
    (hq : 0 ≤ quantity)
    (hle : quantity ≤ ((pool.live query selects).map LayerRow.remainingQuantity).sum) :
    ∃ written cost cs, reliefAtCost profile location pool (pool.live query selects) quantity quantity
        0 provisionalUnitCost = .ok (written, cost, cs) ∧ Withdrawn pool written cost quantity cs := by
  rw [reliefAtCost, extendCost_zero, add_zero]
  split_ifs with hpart
  · simp only [needsPartition, decide_eq_true_eq] at hpart
    obtain ⟨written, r, cs, hwithdraw, hcost, hwithdrawn⟩ := withdrawWeighted_ok location hpool query
      selects hpart.1.2.2 hle rfl rfl
    refine ⟨written, _, cs, ?_, hwithdrawn⟩
    rw [hwithdraw]
    simp only [← hcost, add_zero]
    rfl
  · obtain ⟨cs, hcs, hwithdrawn⟩ := drawLayers_withdrawn location hpool query selects
      provisionalUnitCost hq hle
    exact ⟨pool, _, cs, by rw [hcs]; rfl, hwithdrawn⟩

/-- **A covered issue is never refused for its valuation**, and hands on draws that
cost what it reports. -/
theorem consumeLayers_ok {profile : InventoryProfile}
    (hmethod : profile.costingMethod ≠ .standard) (location : PoolLocation) (hpool : pool.Nonneg)
    (query : Query) (selects : LayerRow → Bool) (provisionalUnitCost : ℤ) (hq : 0 ≤ quantity)
    (hle : quantity ≤ ((pool.live query selects).map LayerRow.remainingQuantity).sum) :
    ∃ written issued, consumeLayers profile location pool query selects quantity
        provisionalUnitCost = .ok (written, issued) ∧
      Withdrawn pool written issued.cost quantity issued.consumptions := by
  obtain ⟨written, cost, cs, hrelief, hwithdrawn⟩ := reliefAtCost_ok profile location hpool query
    selects provisionalUnitCost hq hle
  refine ⟨written, ⟨cost, (unitCostPerQuantity cost quantity).getD 0, cs, 0⟩, ?_, hwithdrawn⟩
  simp only [consumeLayers, if_neg hmethod, if_neg (not_lt.mpr hle), sub_self, hrelief]
  rfl

/-! ### Receipts -/

/-- **Shares by cumulative quantity make up the pool**, and none is negative. -/
theorem shareByQuantity_spec {Q V : ℤ} (hQ : 0 < Q) (hV : 0 ≤ V) {sources : List Source}
    (hpos : ∀ s ∈ sources, 0 < s.quantity) {cumulative assigned : ℤ}
    (hassigned : assigned = HalfAway.round (V * cumulative) Q)
    (hsum : cumulative + (sources.map Source.quantity).sum = Q) :
    let shares := shareByQuantity Q V cumulative assigned sources
    shares.map Prod.fst = sources ∧ (∀ s ∈ shares, 0 ≤ s.2) ∧
      (shares.map Prod.snd).sum = V - assigned := by
  induction sources generalizing cumulative assigned with
  | nil =>
    have hcum : cumulative = Q := by simpa using hsum
    refine ⟨rfl, by simp [shareByQuantity], ?_⟩
    rw [hassigned, hcum, HalfAway.round_mul_self hQ]
    simp [shareByQuantity]
  | cons source sources ih =>
    have hsource := hpos source (by simp)
    rw [map_cons, sum_cons] at hsum
    -- the last source takes what is left, which is its cumulative share too
    have hshare : (if sources = [] then V
        else roundDiv (V * (cumulative + source.quantity)) Q) =
          HalfAway.round (V * (cumulative + source.quantity)) Q := by
      split_ifs with hnil
      · rw [hnil] at hsum
        rw [show cumulative + source.quantity = Q by simpa using hsum, HalfAway.round_mul_self hQ]
      · exact roundDiv_eq_round _ _
    have hnext : cumulative + source.quantity + (sources.map Source.quantity).sum = Q := by omega
    obtain ⟨h1, h2, h3⟩ := ih (fun s hs => hpos s (by simp [hs])) rfl hnext
    simp only [shareByQuantity, hshare]
    refine ⟨by rw [map_cons, h1], forall_mem_cons.mpr ⟨?_, h2⟩, ?_⟩
    · have := HalfAway.round_mono hQ
        (mul_le_mul_of_nonneg_left (show cumulative ≤ cumulative + source.quantity by omega) hV)
      simp only [hassigned]
      omega
    · rw [map_cons, sum_cons, h3]
      ring

theorem writeSources_ok {shares : List (Source × ℤ)} (hpos : ∀ s ∈ shares, 0 < s.1.quantity)
    (hnonneg : ∀ s ∈ shares, 0 ≤ s.2) (hpool : pool.Nonneg) :
    ∃ pool', shares.foldlM (writeSource location) pool = .ok pool' ∧
      pool'.value = pool.value + (shares.map Prod.snd).sum ∧
      pool'.quantity = pool.quantity + (shares.map fun s => s.1.quantity).sum ∧ pool'.Nonneg := by
  induction shares generalizing pool with
  | nil => exact ⟨pool, rfl, by simp, by simp, hpool⟩
  | cons s shares ih =>
    obtain ⟨fragments, hfragments, hrep⟩ := exactCostFragments_none (hpos s (by simp))
      (hnonneg s (by simp))
    obtain ⟨p₁, created, hwrite, hwrote, hq, hv, hall⟩ := writeFragments_ok location pool
      s.1.movementId s.1.receivedAt false s.1.originalCost hrep
    have hstep : writeSource location pool s = .ok p₁ := by
      rw [writeSource, hfragments]
      change (writeFragments _ _ _ _ _ _ _ >>= _) = _
      rw [hwrite]
      rfl
    obtain ⟨hvalue, hquantity⟩ := hwrote.effect
    obtain ⟨p', hrun, hvalue', hquantity', hnonneg'⟩ := ih (fun t ht => hpos t (by simp [ht]))
      (fun t ht => hnonneg t (by simp [ht]))
      (hwrote.nonneg hpool fun f hf => (hall f hf).1)
    refine ⟨p', by rw [foldlM_cons, hstep]; exact hrun, ?_, ?_, hnonneg'⟩
    · rw [hvalue', hvalue, hv, map_cons, sum_cons]
      ring
    · rw [hquantity', hquantity, hq, map_cons, sum_cons]
      ring

/-- A receipt at a negative rate that rounds to its value all the same. -/
def Receipt.negativeRate (r : Receipt) : Prop :=
  ∃ u ∈ r.sourceUnitCost, u < 0 ∧ extendCost r.quantity u = r.value

/-- A receipt that stands alone in the pool does not stand there at a negative rate. -/
def SoundRate (method : CostingMethod) (pool : Pool) (query : Query) (r : Receipt) : Prop :=
  blended method pool query r = [] → ¬ r.negativeRate

/-- What a receipt does to a pool: it puts its value and quantity in. -/
structure Received (pool pool' : Pool) (value quantity : ℤ) : Prop where
  value_eq : pool'.value = pool.value + value
  quantity_eq : pool'.quantity = pool.quantity + quantity
  nonneg : pool'.Nonneg

theorem writeFragments_received (hpool : pool.Nonneg) (movementId receivedAt : String)
    (originalCost : Option ℤ) {fragments : List CostFragment} {q v : ℤ}
    (hrep : Represents q v fragments) :
    ∃ pool' created, writeFragments location pool movementId receivedAt false originalCost
        fragments = .ok (pool', created) ∧ Received pool pool' v q := by
  obtain ⟨pool', created, hwrite, hwrote, hq, hv, hall⟩ := writeFragments_ok location pool
    movementId receivedAt false originalCost hrep
  obtain ⟨hvalue, hquantity⟩ := hwrote.effect
  exact ⟨pool', created, hwrite, by rw [hvalue, hv], by rw [hquantity, hq],
    hwrote.nonneg hpool fun f hf => (hall f hf).1⟩

variable {existing : List LayerRow}

theorem shareOut_ok {retired : Pool} (hretired : retired.Nonneg) (r : Receipt)
    (hq : 0 < r.quantity) (hlive : ∀ row ∈ existing, 0 < row.remainingQuantity) {V Q : ℤ}
    (hV : 0 ≤ V) (hQ : Q = r.quantity + (existing.map LayerRow.remainingQuantity).sum)
    (hpos : 0 < Q) :
    ∃ pool', (shareByQuantity Q V 0 0 (sourcesWith r existing)).foldlM (writeSource location)
        retired = .ok pool' ∧ Received retired pool' V Q := by
  have hsum : ((sourcesWith r existing).map Source.quantity).sum = Q := by
    rw [sourcesWith, sum_sourcesOf, hQ]
    simp [add_comm]
  have hsources : ∀ s ∈ sourcesWith r existing, 0 < s.quantity := by
    refine sourcesOf_pos fun row hrow => ?_
    rcases mem_append.mp hrow with h | h
    · exact hlive row h
    · rw [mem_singleton.mp h]
      exact hq
  obtain ⟨hfst, hnonneg, htotal⟩ := shareByQuantity_spec hpos hV hsources
    (show (0 : ℤ) = HalfAway.round (V * 0) Q by simp [HalfAway.round_zero hpos])
    (by rw [hsum, zero_add])
  obtain ⟨pool', hrun, hvalue, hquantity, hnonneg'⟩ := writeSources_ok location
    (fun s hs => hsources s.1 (hfst ▸ mem_map_of_mem hs)) hnonneg hretired
  refine ⟨pool', hrun, by rw [hvalue, htotal, sub_zero], ?_, hnonneg'⟩
  have : (shareByQuantity Q V 0 0 (sourcesWith r existing)).map (fun s => s.1.quantity) =
      (sourcesWith r existing).map Source.quantity := by
    conv_rhs => rw [← hfst, map_map]
    rfl
  rw [hquantity, this, hsum]

theorem blendReceipt_ok (hpool : pool.Nonneg) (query : Query) (r : Receipt) (hq : 0 < r.quantity)
    (hv : 0 ≤ r.value) (first : LayerRow) (hexisting : existing = pool.live query fun _ => true) :
    ∃ pool', blendReceipt location pool r first existing = .ok pool' ∧
      Received pool pool' r.value r.quantity := by
  have hlive : ∀ row ∈ existing, row ∈ pool.rows ∧ 0 < row.remainingQuantity :=
    fun row hrow => mem_of_mem_live (hexisting ▸ hrow)
  obtain ⟨hvalue, hquantity⟩ := retire_effect (p := pool) query fun _ => true
  rw [← hexisting] at hvalue hquantity
  have hnonneg := retire_nonneg hpool (existing.map LayerRow.id)
  have hV : 0 ≤ r.value + (existing.map LayerRow.value).sum := by
    refine add_nonneg hv (List.sum_nonneg ?_)
    simp only [mem_map, forall_exists_index, and_imp, forall_apply_eq_imp_iff₂]
    intro row hrow
    exact extendCost_nonneg (hlive row hrow).2.le (hpool row (hlive row hrow).1).2
  have hQ : 0 < r.quantity + (existing.map LayerRow.remainingQuantity).sum := by
    refine add_pos_of_pos_of_nonneg hq (List.sum_nonneg ?_)
    simp only [mem_map, forall_exists_index, and_imp, forall_apply_eq_imp_iff₂]
    exact fun row hrow => (hlive row hrow).2.le
  have hback : ∀ {pool'}, Received (pool.retire (existing.map LayerRow.id)) pool'
      (r.value + (existing.map LayerRow.value).sum)
      (r.quantity + (existing.map LayerRow.remainingQuantity).sum) →
      Received pool pool' r.value r.quantity := fun h =>
    ⟨by rw [h.value_eq, hvalue]; ring, by rw [h.quantity_eq, hquantity]; ring, h.nonneg⟩
  obtain ⟨pooled, hpooled, hrep⟩ := exactCostFragments_none hQ hV
  rw [blendReceipt, hpooled]
  by_cases htrace : r.traceRequired (r.movementId :: existing.map LayerRow.sourceMovementId)
  · obtain ⟨pool', hrun, hreceived⟩ := shareOut_ok location hnonneg r hq
      (fun row hrow => (hlive row hrow).2) hV rfl hQ
    exact ⟨pool', (if_pos htrace).trans hrun, hback hreceived⟩
  · obtain ⟨pool', created, hwrite, hreceived⟩ := writeFragments_received location hnonneg
      first.sourceMovementId first.receivedAt
      (sumOriginalCosts (r.originalCost :: existing.map LayerRow.remainingOriginalCost)) hrep
    refine ⟨pool', (if_neg htrace).trans ?_, hback hreceived⟩
    rw [hwrite]
    rfl

/-- **A receipt is never refused, and adds exactly its value and quantity.** -/
theorem addLayerAtCost_ok (method : CostingMethod) (hpool : pool.Nonneg) (query : Query)
    (r : Receipt) (hq : 0 < r.quantity) (hv : 0 ≤ r.value)
    (hrate : SoundRate method pool query r) :
    ∃ pool', addLayerAtCost location method pool query r = .ok pool' ∧
      Received pool pool' r.value r.quantity := by
  cases hex : blended method pool query r with
  | nil =>
    obtain ⟨fragments, hfragments, hrep⟩ := exactCostFragments_spec hq hv fun u hu hext =>
      not_lt.mp fun hneg => hrate hex ⟨u, hu, hneg, hext⟩
    obtain ⟨pool', created, hwrite, hreceived⟩ := writeFragments_received location hpool
      r.movementId r.date r.originalCost hrep
    refine ⟨pool', bind_eq_ok.mpr ⟨fragments, hfragments, ?_⟩, hreceived⟩
    rw [hex]
    exact bind_eq_ok.mpr ⟨_, hwrite, rfl⟩
  | cons first rest =>
    obtain ⟨fragments, hfragments⟩ := exactCostFragments_ok r.sourceUnitCost hq hv
    -- a receipt that is blended is blended with the live pool
    have hlive : first :: rest = pool.live query fun _ => true := by
      rw [← hex, blended]
      rw [blended] at hex
      split_ifs at hex ⊢
      rfl
    obtain ⟨pool', hblend, hreceived⟩ := blendReceipt_ok location hpool query r hq hv first hlive
    refine ⟨pool', bind_eq_ok.mpr ⟨fragments, hfragments, ?_⟩, hreceived⟩
    rw [hex]
    exact hblend

/-! ### Runs -/

/-- A stock pool with what the ledger has of it: the values added and the costs
returned, and the quantities received and issued. -/
structure PoolBooks where
  pool : Pool
  added : ℤ
  costed : ℤ
  received : ℤ
  issued : ℤ

/-- The states a stock pool comes to: from no layers, by receipts that are admitted
and by issues that the live layers cover. -/
inductive PoolRun (profile : InventoryProfile) (location : PoolLocation)
    (admits : Pool → Query → Receipt → Prop) : PoolBooks → Prop
  | start : PoolRun profile location admits ⟨Pool.empty, 0, 0, 0, 0⟩
  | receive {b : PoolBooks} {pool' : Pool} (query : Query) (r : Receipt) :
      PoolRun profile location admits b → 0 < r.quantity → 0 ≤ r.value → admits b.pool query r →
      addLayerAtCost location profile.costingMethod b.pool query r = .ok pool' →
      PoolRun profile location admits
        { b with pool := pool', added := b.added + r.value, received := b.received + r.quantity }
  | issue {b : PoolBooks} {written pool' : Pool} {drawn : Issued} (query : Query)
      (selects : LayerRow → Bool) (quantity provisionalUnitCost : ℤ) :
      PoolRun profile location admits b → 0 ≤ quantity →
      quantity ≤ ((b.pool.live query selects).map LayerRow.remainingQuantity).sum →
      consumeLayers profile location b.pool query selects quantity provisionalUnitCost =
        .ok (written, drawn) →
      recordConsumptions written drawn.consumptions = .ok pool' →
      PoolRun profile location admits
        { b with pool := pool', costed := b.costed + drawn.cost, issued := b.issued + quantity }

/-- The subledger agrees with the ledger, and no covered issue is refused. -/
structure Agrees (profile : InventoryProfile) (location : PoolLocation) (b : PoolBooks) :
    Prop where
  value_eq : b.pool.value = b.added - b.costed
  quantity_eq : b.pool.quantity = b.received - b.issued
  nonneg : b.pool.Nonneg
  unrefused : ∀ query selects quantity provisionalUnitCost, 0 ≤ quantity →
    quantity ≤ ((b.pool.live query selects).map LayerRow.remainingQuantity).sum →
    ∃ r, consumeLayers profile location b.pool query selects quantity provisionalUnitCost = .ok r

section Run

variable {profile : InventoryProfile} {location : PoolLocation} {b : PoolBooks}

/-- In a pool without negative rows a covered issue is not refused. -/
theorem Agrees.mk_of_nonneg (hmethod : profile.costingMethod ≠ .standard)
    (hvalue : b.pool.value = b.added - b.costed)
    (hquantity : b.pool.quantity = b.received - b.issued) (hnonneg : b.pool.Nonneg) :
    Agrees profile location b where
  value_eq := hvalue
  quantity_eq := hquantity
  nonneg := hnonneg
  unrefused query selects quantity provisionalUnitCost hq hle := by
    obtain ⟨written, issued, hok, -⟩ := consumeLayers_ok hmethod location hnonneg query selects
      provisionalUnitCost hq hle
    exact ⟨_, hok⟩

/-- **The subledger equals the ledger** in every state that receipts at sound rates
and covered issues come to, first-in-first-out or moving average. -/
theorem subledger_eq_ledger (hmethod : profile.costingMethod ≠ .standard)
    (h : PoolRun profile location (SoundRate profile.costingMethod) b) :
    Agrees profile location b := by
  induction h with
  | start =>
    refine .mk_of_nonneg hmethod ?_ ?_ ?_
    · simp [Pool.value, Pool.empty]
    · simp [Pool.quantity, Pool.empty]
    · simp [Pool.Nonneg, Pool.empty]
  | receive query r _ hq hv hrate hadd ih =>
    obtain ⟨pool₁, hadd₁, hreceived⟩ :=
      addLayerAtCost_ok location profile.costingMethod ih.nonneg query r hq hv hrate
    obtain rfl := Except.ok.inj (hadd.symm.trans hadd₁)
    refine .mk_of_nonneg hmethod ?_ ?_ hreceived.nonneg
    · simp only [hreceived.value_eq, ih.value_eq]
      ring
    · simp only [hreceived.quantity_eq, ih.quantity_eq]
      ring
  | issue query selects quantity provisionalUnitCost _ hq hle hconsume hrecord ih =>
    obtain ⟨written₁, drawn₁, hconsume₁, hwithdrawn⟩ := consumeLayers_ok hmethod location ih.nonneg
      query selects provisionalUnitCost hq hle
    obtain ⟨rfl, rfl⟩ := Prod.mk.inj (Except.ok.inj (hconsume.symm.trans hconsume₁))
    obtain ⟨hvalue, hquantity, hnonneg⟩ := recordConsumptions_effect hrecord hwithdrawn.nodup
      hwithdrawn.drawn hwithdrawn.nonneg
    refine .mk_of_nonneg hmethod ?_ ?_ hnonneg
    · simp only [hvalue, hwithdrawn.cost_eq, hwithdrawn.value_eq, ih.value_eq]
      ring
    · simp only [hquantity, hwithdrawn.drawnQuantity_eq, hwithdrawn.quantity_eq, ih.quantity_eq]
      ring

end Run

/-- Rows as they stand. -/
def Query.asStored : Query := ⟨id, fun _ => .refl _⟩

/-- Three at 1.0000, then one more for 2.0000, blended, and one drawn at the average. -/
theorem subledger_eq_ledger_average :
    ∃ b, PoolRun ⟨.movingAverage, none, ""⟩ ⟨"item", "bin"⟩ (SoundRate .movingAverage) b ∧
      b.issued = 10000 ∧ Agrees ⟨.movingAverage, none, ""⟩ ⟨"item", "bin"⟩ b := by
  have h₁ : PoolRun ⟨.movingAverage, none, ""⟩ ⟨"item", "bin"⟩ (SoundRate .movingAverage) _ :=
    .receive .asStored ⟨30000, 30000, "m1", "2026-01-01", none, some 30000, "warehouse", fun _ => false⟩
      .start (by decide) (by decide) (by simp [SoundRate, Receipt.negativeRate]) rfl
  have h₂ : PoolRun ⟨.movingAverage, none, ""⟩ ⟨"item", "bin"⟩ (SoundRate .movingAverage) _ :=
    .receive .asStored ⟨10000, 20000, "m2", "2026-01-02", none, some 20000, "warehouse", fun _ => false⟩
      h₁ (by decide) (by decide) (by simp [SoundRate, Receipt.negativeRate]) rfl
  have h₃ : PoolRun ⟨.movingAverage, none, ""⟩ ⟨"item", "bin"⟩ (SoundRate .movingAverage) _ :=
    .issue .asStored (fun _ => true) 10000 0 h₂ (by decide) (by decide) rfl rfl
  exact ⟨_, h₃, rfl, subledger_eq_ledger (by decide) h₃⟩

/-- A ten-thousandth received at a rate of minus one ten-thousandth is worth nothing,
so the rate is kept, and the layer is booked at it. -/
theorem agrees_fails_at_negativeRate :
    ¬ ∀ profile location b, profile.costingMethod ≠ .standard →
      PoolRun profile location (fun _ _ _ => True) b → Agrees profile location b := by
  intro hall
  have h : PoolRun ⟨.fifo, none, ""⟩ ⟨"item", "bin"⟩ (fun _ _ _ => True) _ :=
    .receive .asStored
      ⟨1, 0, "m1", "2026-01-01", some (-1), some 0, "warehouse", fun _ => false⟩
      .start (by decide) (by decide) trivial rfl
  have hrow := (hall _ _ _ (by decide) h).nonneg _ (mem_singleton_self _)
  exact absurd hrow.2 (by decide)

end OpenBooks
