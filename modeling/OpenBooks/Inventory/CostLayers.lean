import OpenBooks.Inventory.OriginalCost
import OpenBooks.Lib.FirstSeen

/-!
# Cost layers of one stock pool

The layers of one item at one location of one legal entity, and the two operations
on them: `addLayerAtCost` puts carried value in, `consumeLayers`
with `recordConsumptions` takes it out.

First-in-first-out and standard costing draw off the layers as they are. Moving
average does not: a receipt retires every live layer and books the blended pool
again, and an issue that the existing rates cannot express partitions the pool into
drawn and retained values per source movement, by cumulative rounding, before it
draws. Both rebuild layers through `exactCostFragments`.

The rows are a list, and a query is the list of live rows in whatever order the
database returns them (`Query`). Ids are minted in sequence, so a
`Pool` carries that its ids are distinct and below the next one.
-/

namespace OpenBooks

open Checked FirstSeen

/-! ### Rows -/

structure LayerRow where
  id : ℕ
  sourceMovementId : String
  receivedAt : String
  originalQuantity : ℤ
  remainingQuantity : ℤ
  unitCost : ℤ
  remainingOriginalCost : Option ℤ

/-- What a row is worth. -/
def LayerRow.value (row : LayerRow) : ℤ := extendCost row.remainingQuantity row.unitCost

/-- The rows of one stock pool, under their primary key. -/
structure Pool where
  rows : List LayerRow
  nextId : ℕ
  below : ∀ row ∈ rows, row.id < nextId
  unique : (rows.map LayerRow.id).Nodup

/-- A pool without layers. -/
def Pool.empty : Pool := ⟨[], 0, by simp, by simp⟩

/-- What the pool is worth: the subledger. -/
def Pool.value (p : Pool) : ℤ := (p.rows.map LayerRow.value).sum

/-- How much the pool holds. -/
def Pool.quantity (p : Pool) : ℤ := (p.rows.map LayerRow.remainingQuantity).sum

def Pool.insert (p : Pool) (movementId receivedAt : String) (f : CostFragment)
    (basis : Option ℤ) : Pool where
  rows := p.rows ++ [⟨p.nextId, movementId, receivedAt, f.quantity, f.quantity, f.unitCost, basis⟩]
  nextId := p.nextId + 1
  below row hrow := by
    rcases List.mem_append.mp hrow with h | h
    · exact Nat.lt_succ_of_lt (p.below row h)
    · rw [List.mem_singleton.mp h]
      exact Nat.lt_succ_self _
  unique := by
    rw [List.map_append, List.nodup_append]
    refine ⟨p.unique, by simp, fun i hi j hj => ?_⟩
    obtain ⟨row, hrow, rfl⟩ := List.mem_map.mp hi
    rw [List.map_singleton, List.mem_singleton] at hj
    exact hj ▸ (p.below row hrow).ne

/-- Change rows in place. -/
def Pool.update (p : Pool) (f : LayerRow → LayerRow) (hf : ∀ row, (f row).id = row.id) : Pool where
  rows := p.rows.map f
  nextId := p.nextId
  below row hrow := by
    obtain ⟨row₀, hrow₀, rfl⟩ := List.mem_map.mp hrow
    rw [hf]
    exact p.below row₀ hrow₀
  unique := by
    have hcomp : LayerRow.id ∘ f = LayerRow.id := funext hf
    rw [List.map_map, hcomp]
    exact p.unique

/-- Retire the live basis of a row; what was consumed off it stays as evidence. -/
def LayerRow.retired (row : LayerRow) : LayerRow :=
  { row with
    originalQuantity := row.originalQuantity - row.remainingQuantity
    remainingQuantity := 0
    remainingOriginalCost := row.remainingOriginalCost.map fun _ => 0 }

def Pool.retire (p : Pool) (ids : List ℕ) : Pool :=
  p.update (fun row => if row.id ∈ ids then row.retired else row) fun row => by
    split_ifs <;> rfl

/-- The order in which the database returns rows. -/
structure Query where
  order : List LayerRow → List LayerRow
  perm : ∀ rows, (order rows).Perm rows

/-- The live rows that a selection reaches – a lot, a serial, a receipt, or all –
in the queried order. -/
def Pool.live (p : Pool) (query : Query) (selects : LayerRow → Bool) : List LayerRow :=
  query.order (p.rows.filter fun row => 0 < row.remainingQuantity ∧ selects row)

/-! ### Writing fragments -/

/-- Where a pool is, for its refusals. -/
structure PoolLocation where
  itemId : String
  stockLocationId : String

def PoolLocation.original (location : PoolLocation) : OriginalCostLocation :=
  ⟨location.itemId, location.stockLocationId, none⟩

/-- A layer that was just written. -/
structure CreatedFragment where
  id : ℕ
  quantity : ℤ
  unitCost : ℤ
  consumed : Bool
  originalCost : Option ℤ

/-- A written fragment as costing sees it. -/
def CreatedFragment.costing (f : CreatedFragment) : CostLayer := ⟨f.id, f.quantity, f.unitCost⟩

/-- Insert fragments with their bases, in order. -/
def insertAll (movementId receivedAt : String) (consumed : Bool) :
    Pool → List (CostFragment × Option ℤ) → Pool × List CreatedFragment
  | p, [] => (p, [])
  | p, (f, basis) :: rest =>
    let (p', created) := insertAll movementId receivedAt consumed
      (p.insert movementId receivedAt f basis) rest
    (p', ⟨p.nextId, f.quantity, f.unitCost, consumed, basis⟩ :: created)

/-- Write the fragments of one source, its original cost spread over them. -/
def writeFragments (location : PoolLocation) (p : Pool) (movementId receivedAt : String)
    (consumed : Bool) (originalCost : Option ℤ) (fragments : List CostFragment) :
    Except InventoryError (Pool × List CreatedFragment) := do
  let bases ← splitOriginalCost originalCost (fragments.map CostFragment.quantity)
    (fragments.map fun f => extendCost f.quantity f.unitCost) location.original
  return insertAll movementId receivedAt consumed p (fragments.zip bases)

/-! ### Sources -/

structure Source where
  movementId : String
  receivedAt : String
  quantity : ℤ
  originalCost : Option ℤ

/-- The live rows by source movement, in the order the sources are met. -/
def sourcesOf (rows : List LayerRow) : List Source :=
  (groupBy LayerRow.sourceMovementId rows).map fun g =>
    { movementId := g.1
      receivedAt := (g.2.head?.map LayerRow.receivedAt).getD ""
      quantity := (g.2.map LayerRow.remainingQuantity).sum
      originalCost := sumOriginalCosts (g.2.map LayerRow.remainingOriginalCost) }

/-! ### Consuming -/

inductive CostingMethod
  | fifo
  | movingAverage
  | standard
  deriving DecidableEq

/-- The costing profile of an item, as far as the layers read it. -/
structure InventoryProfile where
  costingMethod : CostingMethod
  standardCost : Option ℤ := none
  itemLabel : String := ""

/-- One draw with the original cost it relieves. -/
structure Consumption where
  layerId : ℕ
  quantity : ℤ
  unitCost : ℤ
  cost : ℤ
  originalCost : Option ℤ

/-- What an issue draws. -/
structure Issued where
  cost : ℤ
  unitCost : ℤ
  consumptions : List Consumption
  shortfallQuantity : ℤ

/-- Value over quantity as a unit cost, half up and sign-preserving. -/
def unitCostPerQuantity (value quantity : ℤ) : Option ℤ :=
  if quantity = 0 then none
  else some (if quantity < 0 then roundDiv (-(value * 10000)) (-quantity)
    else roundDiv (value * 10000) quantity)

def LayerRow.costing (row : LayerRow) : CostLayer := ⟨row.id, row.remainingQuantity, row.unitCost⟩

/-- Draw a quantity off layers oldest-first, for standard cost. -/
def planQuantityConsumption (layers : List LayerRow) (quantity : ℤ) : List LayerConsumption :=
  (drawLayers (layers.map LayerRow.costing) quantity).1

/-- The standard cost of an item, which standard costing cannot do without. -/
def requireStandardCost (profile : InventoryProfile) : Except InventoryError ℤ :=
  orRefuse profile.standardCost
    ⟨s!"item {profile.itemLabel} uses standard costing but has no standard cost; set its standard cost in the item's Costing settings, then retry"⟩

/-- One drawn or retained part of a pool. -/
structure Partition where
  quantity : ℤ
  value : ℤ
  consumed : Bool
  basis : Option ℤ
  movementId : String
  receivedAt : String

/-- The accumulators of the partition loop. -/
structure PartitionState where
  drawRemaining : ℤ
  drawCumulative : ℤ := 0
  retainedCumulative : ℤ := 0
  drawAssigned : ℤ := 0
  retainedAssigned : ℤ := 0
  partitions : List Partition := []

/-- What the pool is to be split into: the quantity and value drawn, and the
quantity and value retained. -/
structure Withdrawal where
  coveredUnits : ℤ
  weightedCost : ℤ
  retainedQuantity : ℤ
  retainedValue : ℤ

/-- Partition one source: what is drawn off it and what it retains, each valued up
to the cumulative share. -/
def partitionSource (w : Withdrawal) (s : PartitionState) (source : Source) : PartitionState :=
  let draw := if source.quantity < s.drawRemaining then source.quantity else s.drawRemaining
  let retained := source.quantity - draw
  let drawCumulative := s.drawCumulative + draw
  let retainedCumulative := s.retainedCumulative + retained
  let drawn := roundDiv (w.weightedCost * drawCumulative) w.coveredUnits
  let kept := roundDiv (w.retainedValue * retainedCumulative) w.retainedQuantity
  { drawRemaining := s.drawRemaining - draw
    drawCumulative
    retainedCumulative
    drawAssigned := if 0 < draw then drawn else s.drawAssigned
    retainedAssigned := if 0 < retained then kept else s.retainedAssigned
    partitions := s.partitions ++
      (if 0 < draw then
        [⟨draw, drawn - s.drawAssigned, true, none, source.movementId, source.receivedAt⟩]
      else []) ++
      (if 0 < retained then
        [⟨retained, kept - s.retainedAssigned, false, none, source.movementId, source.receivedAt⟩]
      else []) }

/-- Deal the bases of one group to its partitions, in order. -/
def dealBases (consumed : Bool) : List Partition → List (Option ℤ) → List Partition
  | [], _ => []
  | p :: ps, bases =>
    if p.consumed = consumed then
      { p with basis := bases.head?.getD none } :: dealBases consumed ps bases.tail
    else p :: dealBases consumed ps bases

/-- Spread the basis of the drawn, or of the retained, part of the pool over its
partitions. -/
def spreadBasis (location : PoolLocation) (consumed : Bool) (basis : Option ℤ)
    (partitions : List Partition) : Except InventoryError (List Partition) := do
  let group := partitions.filter fun p => p.consumed = consumed
  let bases ← splitOriginalCost basis (group.map Partition.quantity) (group.map Partition.value)
    location.original
  return dealBases consumed partitions bases

def writePartition (location : PoolLocation) (s : Pool × List CreatedFragment) (p : Partition) :
    Except InventoryError (Pool × List CreatedFragment) :=
  if p.quantity = 0 then .ok s
  else do
    let fragments ← exactCostFragments p.quantity p.value none
    let (pool, created) ← writeFragments location s.1 p.movementId p.receivedAt p.consumed p.basis
      fragments
    return (pool, s.2 ++ created)

/-- The guard of a partition whose draws do not add up. -/
def partitionNotPreserved : InventoryError :=
  ⟨"moving-average partition did not preserve its weighted withdrawal value"⟩

/-- A draw of a written fragment, with the original cost the fragment was given. -/
def withCreatedCost (created : List CreatedFragment) (c : LayerConsumption) : Consumption :=
  ⟨c.layerId, c.quantity, c.unitCost, c.cost,
    (created.find? fun f => f.id = c.layerId).bind CreatedFragment.originalCost⟩

/-- Partition a moving-average pool for an exact weighted withdrawal, and draw it. -/
def withdrawWeighted (location : PoolLocation) (pool : Pool) (layers : List LayerRow)
    (coveredUnits availableUnits poolValue weightedCost : ℤ) :
    Except InventoryError (Pool × FifoResult × List Consumption) := do
  let poolBasis := sumOriginalCosts (layers.map LayerRow.remainingOriginalCost)
  let consumedBasis ← consumeOriginalCost poolBasis coveredUnits availableUnits location.original
  let retainedBasis := basisLeft poolBasis consumedBasis
  let w : Withdrawal := ⟨coveredUnits, weightedCost, availableUnits - coveredUnits,
    poolValue + -weightedCost⟩
  let final := (sourcesOf layers).foldl (partitionSource w) { drawRemaining := coveredUnits }
  let drawnBased ← spreadBasis location true consumedBasis final.partitions
  let partitions ← spreadBasis location false retainedBasis drawnBased
  let (written, created) ← partitions.foldlM (writePartition location)
    (pool.retire (layers.map LayerRow.id), [])
  let r := consumeFifo ((created.filter CreatedFragment.consumed).map CreatedFragment.costing)
    coveredUnits 0
  refuseIf (r.totalCost ≠ weightedCost ∨ r.shortfallQuantity ≠ 0) partitionNotPreserved
  return (written, r, r.consumptions.map (withCreatedCost created))

/-- The original cost a draw relieves of its layer: all that it costs where the layer
still carries its original cost, else its share. -/
def drawnOriginalCost (location : PoolLocation) (layers : List LayerRow) (c : LayerConsumption) :
    Except InventoryError Consumption := do
  let layer := layers.find? fun row => row.id = c.layerId
  let basis := layer.bind LayerRow.remainingOriginalCost
  let remaining := (layer.map LayerRow.remainingQuantity).getD 0
  let originalCost ← (if basis ≠ none ∧ basis = layer.map LayerRow.value then .ok (some c.cost)
    else consumeOriginalCost basis c.quantity remaining
      ⟨location.itemId, location.stockLocationId, some c.layerId⟩)
  return ⟨c.layerId, c.quantity, c.unitCost, c.cost, originalCost⟩

/-- The relief of an issue at standard cost: what the layers give up, and the
uncovered shortfall at standard. -/
def reliefAtStandard (profile : InventoryProfile) (location : PoolLocation) (pool : Pool)
    (layers : List LayerRow) (coveredUnits shortfallQuantity : ℤ) :
    Except InventoryError (Pool × ℤ × List Consumption) := do
  let standardCost ← requireStandardCost profile
  let planned := planQuantityConsumption layers coveredUnits
  let consumptions ← planned.mapM (drawnOriginalCost location layers)
  return (pool, (planned.map LayerConsumption.cost).sum + extendCost shortfallQuantity standardCost,
    consumptions)

/-- A moving-average pool is partitioned when its layers as they are would not give
the weighted cost: there is more than one, the costs differ, or a draw depends on
the rounding its layer leaves behind. -/
def needsPartition (profile : InventoryProfile) (layers : List LayerRow) (r : FifoResult)
    (coveredUnits expectedCost : ℤ) : Bool :=
  (profile.costingMethod = .movingAverage ∧ layers ≠ [] ∧ 0 < coveredUnits) ∧
    (1 < layers.length ∨ r.totalCost ≠ expectedCost ∨
      ∃ c ∈ r.consumptions, c.cost ≠ extendCost c.quantity c.unitCost)

/-- The relief of an issue at actual cost, first in first out or weighted. -/
def reliefAtCost (profile : InventoryProfile) (location : PoolLocation) (pool : Pool)
    (layers : List LayerRow) (quantity coveredUnits shortfallQuantity provisionalUnitCost : ℤ) :
    Except InventoryError (Pool × ℤ × List Consumption) :=
  let availableUnits := (layers.map LayerRow.remainingQuantity).sum
  let poolValue := (layers.map LayerRow.value).sum
  let weightedCost := roundDiv (poolValue * coveredUnits) availableUnits
  let shortfallCost := extendCost shortfallQuantity provisionalUnitCost
  let r := consumeFifo (layers.map LayerRow.costing) quantity provisionalUnitCost
  if needsPartition profile layers r coveredUnits (weightedCost + shortfallCost) then do
    let (pool, r, consumptions) ← withdrawWeighted location pool layers coveredUnits
      availableUnits poolValue weightedCost
    return (pool, r.totalCost + shortfallCost, consumptions)
  else do
    let consumptions ← r.consumptions.mapM (drawnOriginalCost location layers)
    return (pool, r.totalCost, consumptions)

/-- Consume a quantity from the pool by the item's costing method: the cost, the
unit cost and the draws to record. -/
def consumeLayers (profile : InventoryProfile) (location : PoolLocation) (pool : Pool)
    (query : Query) (selects : LayerRow → Bool) (quantity provisionalUnitCost : ℤ) :
    Except InventoryError (Pool × Issued) := do
  let layers := pool.live query selects
  let availableUnits := (layers.map LayerRow.remainingQuantity).sum
  let coveredUnits := if availableUnits < quantity then availableUnits else quantity
  let shortfallQuantity := quantity - coveredUnits
  let (pool, cost, consumptions) ← (if profile.costingMethod = .standard then
      reliefAtStandard profile location pool layers coveredUnits shortfallQuantity
    else reliefAtCost profile location pool layers quantity coveredUnits shortfallQuantity
      provisionalUnitCost)
  return (pool, ⟨cost, (unitCostPerQuantity cost quantity).getD 0, consumptions, shortfallQuantity⟩)

/-! ### Recording -/

/-- The row a draw is taken off: it must still hold the quantity, at the same rate,
with original cost to match. -/
def drawsOn (c : Consumption) (row : LayerRow) : Bool :=
  row.id = c.layerId ∧ c.quantity ≤ row.remainingQuantity ∧ row.unitCost = c.unitCost ∧
    ∀ basis ∈ row.remainingOriginalCost, ∃ o ∈ c.originalCost, o ≤ basis

/-- The row after a draw. -/
def LayerRow.drawn (row : LayerRow) (c : Consumption) : LayerRow :=
  { row with
    remainingQuantity := row.remainingQuantity - c.quantity
    remainingOriginalCost := row.remainingOriginalCost.bind fun b =>
      c.originalCost.map fun o => b - o }

/-- Draw down one consumed layer. -/
def recordConsumption (pool : Pool) (c : Consumption) : Except InventoryError Pool := do
  refuseIf (c.quantity ≤ 0 ∨ ∃ o ∈ c.originalCost, o < 0)
    (⟨"A cost-layer draw requires positive quantity and a non-negative original cost."⟩ :
      InventoryError)
  refuseIf ((pool.rows.filter (drawsOn c)).length ≠ 1)
    (⟨"The cost layer changed, belongs to another legal entity or lacks its original-cost evidence; reload the stock movement before retrying."⟩ : InventoryError)
  return pool.update (fun row => if drawsOn c row then row.drawn c else row) fun row => by
    split_ifs <;> rfl

/-- Draw down the consumed layers, one after the other. -/
def recordConsumptions (pool : Pool) (consumptions : List Consumption) :
    Except InventoryError Pool :=
  consumptions.foldlM recordConsumption pool

/-! ### Adding -/

/-- A receipt: what comes in, where it comes from, and what the database says of the
location and of the movements it meets. -/
structure Receipt where
  quantity : ℤ
  value : ℤ
  movementId : String
  date : String
  sourceUnitCost : Option ℤ := none
  originalCost : Option ℤ
  locationKind : String := "warehouse"
  traceRequired : List String → Bool := fun _ => false

/-- The value of each source up to its cumulative share of the pool; the last source
takes what is left. -/
def shareByQuantity (poolQuantity poolValue : ℤ) : ℤ → ℤ → List Source → List (Source × ℤ)
  | _, _, [] => []
  | cumulativeQuantity, assigned, source :: sources =>
    let cumulative := cumulativeQuantity + source.quantity
    let cumulativeValue :=
      if sources = [] then poolValue else roundDiv (poolValue * cumulative) poolQuantity
    (source, cumulativeValue + -assigned) ::
      shareByQuantity poolQuantity poolValue cumulative cumulativeValue sources

/-- The sources of the pool with the receipt among them. -/
def sourcesWith (r : Receipt) (existing : List LayerRow) : List Source :=
  sourcesOf (existing ++
    [⟨0, r.movementId, r.date, r.quantity, r.quantity, 0, r.originalCost⟩])

/-- Write the layers of one source at its share. -/
def writeSource (location : PoolLocation) (pool : Pool) (s : Source × ℤ) :
    Except InventoryError Pool := do
  let fragments ← exactCostFragments s.1.quantity s.2 none
  let (pool, _) ← writeFragments location pool s.1.movementId s.1.receivedAt false s.1.originalCost
    fragments
  return pool

/-- The rows a receipt is blended with: the live pool under moving average, except
where each shipment keeps its own value. -/
def blended (method : CostingMethod) (pool : Pool) (query : Query) (r : Receipt) : List LayerRow :=
  if method = .movingAverage ∧ r.locationKind ≠ "transit" ∧ r.locationKind ≠ "subcontract" then
    pool.live query fun _ => true
  else []

/-- Retire the blended rows and book them again with the receipt: source by source
where their movements must stay traceable, else under the oldest of them. -/
def blendReceipt (location : PoolLocation) (pool : Pool) (r : Receipt) (first : LayerRow)
    (existing : List LayerRow) : Except InventoryError Pool := do
  let poolQuantity := r.quantity + (existing.map LayerRow.remainingQuantity).sum
  let poolValue := r.value + (existing.map LayerRow.value).sum
  let pooled ← exactCostFragments poolQuantity poolValue none
  let retired := pool.retire (existing.map LayerRow.id)
  if r.traceRequired (r.movementId :: existing.map LayerRow.sourceMovementId) then
    (shareByQuantity poolQuantity poolValue 0 0 (sourcesWith r existing)).foldlM
      (writeSource location) retired
  else do
    let originalCost := sumOriginalCosts
      (r.originalCost :: existing.map LayerRow.remainingOriginalCost)
    let (pool, _) ← writeFragments location retired first.sourceMovementId first.receivedAt false
      originalCost pooled
    return pool

/-- Add exact carried value. -/
def addLayerAtCost (location : PoolLocation) (method : CostingMethod) (pool : Pool) (query : Query)
    (r : Receipt) : Except InventoryError Pool := do
  let fragments ← exactCostFragments r.quantity r.value r.sourceUnitCost
  match blended method pool query r with
  | [] => do
    let (pool, _) ← writeFragments location pool r.movementId r.date false r.originalCost fragments
    return pool
  | first :: rest => blendReceipt location pool r first (first :: rest)

end OpenBooks
