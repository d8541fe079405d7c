import OpenBooks.Lib.Checked
import OpenBooks.Money.Units
import Mathlib.Algebra.Order.BigOperators.Group.List
import Mathlib.Algebra.Order.Ring.Abs

/-!
# Costing arithmetic

Quantities and unit costs are decimals of four places, like money, and a layer of stock is worth its
quantity times its rate rounded to four places (`extendCost`). Two operations keep that rounding
from leaking:

* `exactCostFragments` writes *any* value on *any* positive quantity as at most two layers of
  adjacent rates whose extensions add up to it exactly. `exactCostFragments_spec` is that its
  refusal is never reached.
* `consumeFifo` prices a draw as the *reduction* of the layer's stored value, not as the drawn
  quantity times the rate, so what is drawn and what is left always add up to the layer
  (`drawLayers_spec`).

A moving-average pool rounds each issue, and takes the rest when it is drained; what is left after
an issue is off its share of the value by a rounding (`movingAverage_never_drifts`).
-/

namespace OpenBooks

open Checked List

/-- A refusal of the inventory subledger. -/
structure InventoryError where
  message : String

/-! ### Extending a quantity -/

/-- The product of two four-place numbers, rounded to four places. -/
def mulUnits (a b : ℤ) : ℤ :=
  let product := a * b
  let negative := product < 0
  let abs := if negative then -product else product
  let rounded := (abs + SCALE / 2) / SCALE
  if negative then -rounded else rounded

theorem mulUnits_eq_round (a b : ℤ) : mulUnits a b = HalfAway.round (a * b) SCALE :=
  roundDiv_eq_round (a * b) SCALE

def extendCost (quantity unitCost : ℤ) : ℤ := mulUnits quantity unitCost

@[simp] theorem extendCost_zero (unitCost : ℤ) : extendCost 0 unitCost = 0 := by
  rw [extendCost, mulUnits_eq_round, zero_mul, HalfAway.round_zero SCALE_pos]

variable {q u : ℤ}

theorem extendCost_nonneg (hq : 0 ≤ q) (hu : 0 ≤ u) : 0 ≤ extendCost q u := by
  rw [extendCost, mulUnits_eq_round]
  exact HalfAway.round_nonneg SCALE_pos (mul_nonneg hq hu)

theorem extendCost_eq_ediv (h : 0 ≤ q * u) : extendCost q u = (q * u + 5000) / 10000 := by
  rw [extendCost, mulUnits_eq_round, HalfAway.round_of_nonneg h]
  rfl

/-- Whole units extend without rounding, and may be taken out of a larger
quantity. -/
theorem extendCost_sub_whole {d : ℤ} (hq : 0 ≤ (q - d * SCALE) * u) (hqu : 0 ≤ q * u) :
    extendCost (q - d * SCALE) u = extendCost q u - d * u := by
  have h : q * u = (q - d * SCALE) * u + d * u * SCALE := by ring
  have hround := HalfAway.round_add_mul_of_nonneg SCALE_pos hq (k := d * u) (by rw [← h]; exact hqu)
  rw [extendCost, extendCost, mulUnits_eq_round, mulUnits_eq_round, h, hround]
  ring

theorem extendCost_whole (d u : ℤ) : extendCost (d * SCALE) u = d * u := by
  rw [extendCost, mulUnits_eq_round, mul_right_comm, HalfAway.round_mul_self SCALE_pos]

/-! ### Exact fragments -/

/-- A quantity at one rate. -/
structure CostFragment where
  quantity : ℤ
  unitCost : ℤ

/-- What some fragments are worth. -/
def fragmentValue (fragments : List CostFragment) : ℤ :=
  (fragments.map fun f => extendCost f.quantity f.unitCost).sum

/-- How much some fragments are. -/
def fragmentQuantity (fragments : List CostFragment) : ℤ :=
  (fragments.map CostFragment.quantity).sum

/-- Represent an exact carried value with at most two adjacent rates, or with the
source's own rate where that extends to it. -/
def exactCostFragments (quantity value : ℤ) (sourceUnitCost : Option ℤ) :
    Except InventoryError (List CostFragment) :=
  if quantity ≤ 0 ∨ value < 0 then
    .error ⟨s!"inventory layers require a positive quantity and a non-negative value, got quantity {fromUnits quantity} and value {fromUnits value} — " ++
      "raise the movement with a positive quantity and a value at or above zero instead"⟩
  else match sourceUnitCost.filter fun rate => extendCost quantity rate = value with
    | some rate => .ok [⟨quantity, rate⟩]
    | none =>
      let lowRate := value * SCALE / quantity
      let lowValue := mulUnits quantity lowRate
      let highRate := lowRate + 1
      -- one whole unit at the adjacent rate adds exactly one unit of money
      let highQuantity := (value - lowValue) * SCALE
      if lowValue = value then .ok [⟨quantity, lowRate⟩]
      else if mulUnits quantity highRate = value then .ok [⟨quantity, highRate⟩]
      else if highQuantity ≤ 0 ∨ quantity ≤ highQuantity then
        .error ⟨s!"inventory value {fromUnits value} on quantity {fromUnits quantity} cannot be represented exactly at ledger precision — " ++
          "adjust the extended amount or the quantity so the value divides evenly instead of booking a rounded layer"⟩
      else .ok [⟨quantity - highQuantity, lowRate⟩, ⟨highQuantity, highRate⟩]

/-- Fragments that represent a value on a quantity exactly. -/
structure Represents (quantity value : ℤ) (fragments : List CostFragment) : Prop where
  quantity_eq : fragmentQuantity fragments = quantity
  value_eq : fragmentValue fragments = value
  positive : ∀ f ∈ fragments, 0 < f.quantity
  rate_nonneg : ∀ f ∈ fragments, 0 ≤ f.unitCost

variable {v : ℤ}

theorem represents_single (hq : 0 < q) (hu : 0 ≤ u) (h : extendCost q u = v) :
    Represents q v [⟨q, u⟩] where
  quantity_eq := by simp [fragmentQuantity]
  value_eq := by simp [fragmentValue, h]
  positive := by simpa using hq
  rate_nonneg := by simpa using hu

/-- **When no single rate reaches the value, the missing units fit the quantity.**
With `r` the remainder of the rate, the low rate misses by the half-up part of
`r - 5000`, and the high rate missing too means `5000 ≤ quantity - r`. -/
theorem highQuantity_bounds {low : ℤ} (hq : 0 < q) (hv : 0 ≤ v) (hlow : low = v * SCALE / q)
    (hne : extendCost q low ≠ v) (hne' : extendCost q (low + 1) ≠ v) :
    0 < (v - extendCost q low) * SCALE ∧ (v - extendCost q low) * SCALE < q := by
  have hlow0 : 0 ≤ low := hlow ▸ Int.ediv_nonneg (mul_nonneg hv (by decide)) hq.le
  have hr := Int.emod_add_mul_ediv (v * SCALE) q
  have hr0 := Int.emod_nonneg (v * SCALE) hq.ne'
  have hrq := Int.emod_lt_of_pos (v * SCALE) hq
  rw [← hlow] at hr
  have hql : 0 ≤ q * low := mul_nonneg hq.le hlow0
  rw [extendCost_eq_ediv hql] at hne ⊢
  rw [extendCost_eq_ediv (by rw [mul_add]; omega), mul_add, mul_one] at hne'
  simp only [SCALE] at *
  generalize q * low = n at *
  generalize v * 10000 % q = r at *
  omega

variable {source : Option ℤ}

/-- **`exactCostFragments` never refuses a positive quantity and a nonnegative
value**, and what it returns represents them exactly. -/
theorem exactCostFragments_spec (hq : 0 < q) (hv : 0 ≤ v)
    (hsource : ∀ u ∈ source, extendCost q u = v → 0 ≤ u) :
    ∃ fragments, exactCostFragments q v source = .ok fragments ∧ Represents q v fragments := by
  rw [exactCostFragments, if_neg (by omega)]
  cases hs : source.filter fun rate => extendCost q rate = v with
  | some u =>
    obtain ⟨hu, hext⟩ := Option.filter_eq_some_iff.mp hs
    have hext : extendCost q u = v := by simpa using hext
    exact ⟨_, rfl, represents_single hq (hsource u hu hext) hext⟩
  | none =>
    have hlow0 : 0 ≤ v * SCALE / q := Int.ediv_nonneg (mul_nonneg hv (by decide)) hq.le
    simp only
    split_ifs with hlow hhigh hbad
    · exact ⟨_, rfl, represents_single hq hlow0 hlow⟩
    · exact ⟨_, rfl, represents_single hq (by omega) hhigh⟩
    · have := highQuantity_bounds hq hv rfl hlow hhigh
      simp only [extendCost] at this
      omega
    · have hbounds := highQuantity_bounds hq hv rfl hlow hhigh
      simp only [extendCost] at hbounds
      refine ⟨_, rfl, ?_, ?_, ?_, ?_⟩
      · simp [fragmentQuantity]
      · have hsub := extendCost_sub_whole (q := q) (u := v * SCALE / q)
          (d := v - mulUnits q (v * SCALE / q)) (mul_nonneg (by omega) hlow0)
          (mul_nonneg hq.le hlow0)
        simp only [fragmentValue, map_cons, map_nil, sum_cons, sum_nil]
        rw [hsub, extendCost_whole, extendCost]
        ring
      · simp only [mem_cons, not_mem_nil, or_false, forall_eq_or_imp, forall_eq]
        omega
      · simp only [mem_cons, not_mem_nil, or_false, forall_eq_or_imp, forall_eq]
        omega

/-- Without a source rate there is nothing to require of it. -/
theorem exactCostFragments_none (hq : 0 < q) (hv : 0 ≤ v) :
    ∃ fragments, exactCostFragments q v none = .ok fragments ∧ Represents q v fragments :=
  exactCostFragments_spec hq hv (by simp)

theorem exactCostFragments_ok (source : Option ℤ) (hq : 0 < q) (hv : 0 ≤ v) :
    ∃ fragments, exactCostFragments q v source = .ok fragments := by
  obtain ⟨fragments, hnone, -⟩ := exactCostFragments_none hq hv
  rw [exactCostFragments, if_neg (by omega)] at hnone ⊢
  cases source.filter fun rate => extendCost q rate = v with
  | some u => exact ⟨_, rfl⟩
  | none => exact ⟨fragments, hnone⟩

/-- One rate, or two that are next to each other. -/
theorem exactCostFragments_shape {fragments : List CostFragment}
    (h : exactCostFragments q v source = .ok fragments) :
    (fragments.length = 1 ∨ fragments.length = 2) ∧
      ∀ f ∈ fragments, ∀ g ∈ fragments, |f.unitCost - g.unitCost| ≤ 1 := by
  have hsingle : ∀ f : CostFragment, ([f].length = 1 ∨ [f].length = 2) ∧
      ∀ a ∈ [f], ∀ b ∈ [f], |a.unitCost - b.unitCost| ≤ 1 := by
    intro f
    refine ⟨.inl rfl, fun a ha b hb => ?_⟩
    rw [mem_singleton.mp ha, mem_singleton.mp hb, sub_self]
    decide
  unfold exactCostFragments at h
  split_ifs at h with hbad
  split at h
  · cases h
    exact hsingle _
  · dsimp only at h
    split_ifs at h with hlow hhigh hunrepresentable
    · cases h
      exact hsingle _
    · cases h
      exact hsingle _
    · cases h
      refine ⟨.inr rfl, ?_⟩
      simp

/-- **Any value on any positive quantity is one or two layers of adjacent rates**, which hold
all of the quantity and are worth the value exactly. -/
theorem exactCostFragments_adjacent {quantity value : ℤ} (hquantity : 0 < quantity)
    (hvalue : 0 ≤ value) :
    ∃ fragments, exactCostFragments quantity value none = .ok fragments ∧
      Represents quantity value fragments ∧ (fragments.length = 1 ∨ fragments.length = 2) ∧
      ∀ f ∈ fragments, ∀ g ∈ fragments, |f.unitCost - g.unitCost| ≤ 1 := by
  obtain ⟨fragments, hok, hrepresents⟩ := exactCostFragments_none hquantity hvalue
  exact ⟨fragments, hok, hrepresents, exactCostFragments_shape hok⟩

theorem exactCostFragments_adjacent_of_thirds :
    ∃ fragments, exactCostFragments 30001 100000 none = .ok fragments ∧
      Represents 30001 100000 fragments ∧ (fragments.length = 1 ∨ fragments.length = 2) ∧
      ∀ f ∈ fragments, ∀ g ∈ fragments, |f.unitCost - g.unitCost| ≤ 1 :=
  exactCostFragments_adjacent (by decide) (by decide)

/-! ### First in, first out -/

structure CostLayer where
  id : ℕ
  remaining : ℤ
  unitCost : ℤ

/-- One draw off a layer. -/
structure LayerConsumption where
  layerId : ℕ
  quantity : ℤ
  unitCost : ℤ
  cost : ℤ

/-- What a draw costs: the reduction of the stored layer value. -/
def drawCost (layer : CostLayer) (take : ℤ) : ℤ :=
  mulUnits layer.remaining layer.unitCost - mulUnits (layer.remaining - take) layer.unitCost

/-- Draw `need` off the layers in their order, skipping the empty ones; what could
not be drawn is returned with the draws. -/
def drawLayers : List CostLayer → ℤ → List LayerConsumption × ℤ
  | [], need => ([], need)
  | layer :: layers, need =>
    if need ≤ 0 then ([], need)
    else if layer.remaining ≤ 0 then drawLayers layers need
    else
      let take := if layer.remaining < need then layer.remaining else need
      let (consumptions, rest) := drawLayers layers (need - take)
      (⟨layer.id, take, layer.unitCost, drawCost layer take⟩ :: consumptions, rest)

/-- The result of a draw. -/
structure FifoResult where
  consumptions : List LayerConsumption
  totalCost : ℤ
  shortfallQuantity : ℤ
  shortfallCost : ℤ

/-- Consume `quantity` from the layers, oldest first, at each layer's cost; what
exceeds them is a shortfall at the fallback cost. -/
def consumeFifo (layers : List CostLayer) (quantity fallbackUnitCost : ℤ) : FifoResult :=
  if quantity ≤ 0 then ⟨[], 0, 0, 0⟩
  else
    let (consumptions, need) := drawLayers layers quantity
    let drawn := (consumptions.map LayerConsumption.cost).sum
    if 0 < need then
      let shortfall := mulUnits need fallbackUnitCost
      ⟨consumptions, drawn + shortfall, need, shortfall⟩
    else ⟨consumptions, drawn, 0, 0⟩

/-- A draw off one of the layers, priced by what the layer gives up. -/
def DrawnFrom (layers : List CostLayer) (c : LayerConsumption) : Prop :=
  ∃ layer ∈ layers, c.layerId = layer.id ∧ c.unitCost = layer.unitCost ∧ 0 < c.quantity ∧
    c.quantity ≤ layer.remaining ∧ c.cost = drawCost layer c.quantity

variable {layers : List CostLayer}

theorem DrawnFrom.cons {c : LayerConsumption} (layer : CostLayer) (h : DrawnFrom layers c) :
    DrawnFrom (layer :: layers) c := by
  obtain ⟨l, hl, h⟩ := h
  exact ⟨l, mem_cons_of_mem _ hl, h⟩

/-- **What a draw takes.** Each draw is off one layer and no layer is drawn twice;
the draws and the rest make up the need; and the rest is nothing when the layers
cover it. -/
theorem drawLayers_spec (layers : List CostLayer) (need : ℤ) (hneed : 0 ≤ need) :
    let r := drawLayers layers need
    (∀ c ∈ r.1, DrawnFrom layers c) ∧
      (r.1.map LayerConsumption.layerId).Sublist (layers.map CostLayer.id) ∧
      (r.1.map LayerConsumption.quantity).sum + r.2 = need ∧ 0 ≤ r.2 ∧
      ((∀ l ∈ layers, 0 ≤ l.remaining) → need ≤ (layers.map CostLayer.remaining).sum →
        r.2 = 0) := by
  induction layers generalizing need with
  | nil =>
    refine ⟨by simp [drawLayers], by simp [drawLayers], by simp [drawLayers], hneed, fun _ h => ?_⟩
    have h : need ≤ 0 := h
    exact le_antisymm h hneed
  | cons layer layers ih =>
    by_cases h0 : need ≤ 0
    · have hz : need = 0 := le_antisymm h0 hneed
      simp [drawLayers, hz]
    · by_cases hempty : layer.remaining ≤ 0
      · obtain ⟨h1, h2, h3, h4, h5⟩ := ih need hneed
        simp only [drawLayers, h0, hempty, if_false, if_true]
        refine ⟨fun c hc => (h1 c hc).cons layer, h2.cons _, h3, h4, fun hpos hle =>
          h5 (fun l hl => hpos l (by simp [hl])) ?_⟩
        rw [map_cons, sum_cons] at hle
        omega
      · have htake : 0 < (if layer.remaining < need then layer.remaining else need) ∧
            (if layer.remaining < need then layer.remaining else need) ≤ layer.remaining ∧
            (if layer.remaining < need then layer.remaining else need) ≤ need := by
          split_ifs <;> omega
        simp only [drawLayers, h0, hempty, if_false]
        generalize htk : (if layer.remaining < need then layer.remaining else need) = take at *
        obtain ⟨h1, h2, h3, h4, h5⟩ := ih (need - take) (by omega)
        refine ⟨?_, ?_, ?_, h4, fun hpos hle => ?_⟩
        · refine forall_mem_cons.mpr ⟨?_, fun c hc => (h1 c hc).cons layer⟩
          exact ⟨layer, by simp, rfl, rfl, htake.1, htake.2.1, rfl⟩
        · exact h2.cons_cons _
        · rw [map_cons, sum_cons]
          simp only at h3 ⊢
          omega
        · have hrest : ∀ l ∈ layers, 0 ≤ l.remaining := fun l hl => hpos l (by simp [hl])
          have hsum : 0 ≤ (layers.map CostLayer.remaining).sum :=
            List.sum_nonneg (by simpa using hrest)
          refine h5 hrest ?_
          rw [map_cons, sum_cons] at hle
          split_ifs at htk <;> omega

/-- **A draw of everything takes every layer whole**, at what it is worth. -/
theorem drawLayers_all (hpos : ∀ l ∈ layers, 0 < l.remaining) :
    drawLayers layers (layers.map CostLayer.remaining).sum =
      (layers.map fun l => ⟨l.id, l.remaining, l.unitCost, extendCost l.remaining l.unitCost⟩,
        0) := by
  induction layers with
  | nil => rfl
  | cons l layers ih =>
    have hl := hpos l (by simp)
    have hrest : ∀ l ∈ layers, 0 < l.remaining := fun l hl => hpos l (by simp [hl])
    have hsum : 0 ≤ (layers.map CostLayer.remaining).sum :=
      List.sum_nonneg (by simpa using fun l hl => (hrest l hl).le)
    have htake : (if l.remaining < l.remaining + (layers.map CostLayer.remaining).sum then
        l.remaining else l.remaining + (layers.map CostLayer.remaining).sum) = l.remaining := by
      split_ifs <;> omega
    rw [map_cons, sum_cons, drawLayers, if_neg (by omega), if_neg (by omega)]
    simp only [htake, add_sub_cancel_left, ih hrest]
    have hzero : mulUnits 0 l.unitCost = 0 := extendCost_zero l.unitCost
    simp [drawCost, extendCost, hzero]

/-! ### The moving average -/

/-- What is in a moving-average pool. -/
structure MovingAverageState where
  quantity : ℤ
  value : ℤ

def receiveMovingAverage (s : MovingAverageState) (quantity unitCost : ℤ) :
    MovingAverageState :=
  ⟨s.quantity + quantity, s.value + mulUnits quantity unitCost⟩

/-- A value divided by a quantity, rounded to four places; by nothing, nothing. -/
def divUnits (value qty : ℤ) : ℤ :=
  if qty = 0 then 0
  else if value * SCALE < 0 ↔ qty < 0 then (|value * SCALE| + |qty| / 2) / |qty|
  else -((|value * SCALE| + |qty| / 2) / |qty|)

structure MovingAverageIssue where
  cost : ℤ
  state : MovingAverageState
  unitCost : ℤ

def issueMovingAverage (s : MovingAverageState) (quantity : ℤ) : MovingAverageIssue :=
  let cost :=
    if s.quantity = quantity then s.value
    else if s.quantity ≤ 0 then 0
    else roundDiv (s.value * quantity) s.quantity
  ⟨cost, ⟨s.quantity - quantity, s.value - cost⟩, divUnits s.value s.quantity⟩

/-- A pool that receipts, and issues of what was there, have led to, with the value received and
the cost issued on the way. -/
inductive MovingAverageRun : MovingAverageState → ℤ → ℤ → Prop
  | empty : MovingAverageRun ⟨0, 0⟩ 0 0
  | receive {s : MovingAverageState} {received issued q u : ℤ} :
      MovingAverageRun s received issued → 0 < q → 0 ≤ u →
      MovingAverageRun (receiveMovingAverage s q u) (received + mulUnits q u) issued
  | issue {s : MovingAverageState} {received issued q : ℤ} :
      MovingAverageRun s received issued → 0 < q → q ≤ s.quantity →
      MovingAverageRun (issueMovingAverage s q).state received
        (issued + (issueMovingAverage s q).cost)

/-- An issue costs its share of the value to within rounding, and never more than is there. -/
theorem issueMovingAverage_cost {s : MovingAverageState} (hv : 0 ≤ s.value) (hq : 0 < q)
    (hle : q ≤ s.quantity) :
    0 ≤ (issueMovingAverage s q).cost ∧ (issueMovingAverage s q).cost ≤ s.value ∧
      2 * |(issueMovingAverage s q).cost * s.quantity - s.value * q| ≤ s.quantity := by
  have hpos : 0 < s.quantity := hq.trans_le hle
  rw [issueMovingAverage]
  rcases eq_or_ne s.quantity q with h | h
  · simp only [if_pos h]
    rw [h, sub_self, abs_zero]
    exact ⟨hv, le_rfl, hq.le⟩
  · simp only [if_neg h, if_neg (not_le.mpr hpos), roundDiv_eq_round]
    exact ⟨HalfAway.round_nonneg hpos (mul_nonneg hv hq.le),
      HalfAway.round_le_of_le_mul hpos (mul_le_mul_of_nonneg_left hle hv),
      HalfAway.two_mul_abs_round_sub_le hpos _⟩

/-- **A moving-average pool never drifts**: after every run it holds no negative value, what was
received is what was issued and what is left, nothing is left of an empty pool, and the next issue
leaves what the old average says of the rest, to within rounding. The average itself may move more:
a value of one on a quantity of three is one on two after an issue of one. -/
theorem movingAverage_never_drifts {s : MovingAverageState} {received issued : ℤ}
    (h : MovingAverageRun s received issued) :
    0 ≤ s.value ∧ received = issued + s.value ∧ (s.quantity = 0 → received = issued) ∧
      ∀ q, 0 < q → q ≤ s.quantity →
        2 * |(issueMovingAverage s q).state.value * s.quantity -
          s.value * (issueMovingAverage s q).state.quantity| ≤ s.quantity := by
  have hrun : 0 ≤ s.quantity ∧ 0 ≤ s.value ∧ received = issued + s.value ∧
      (s.quantity = 0 → s.value = 0) := by
    induction h with
    | empty => simp
    | @receive s received issued q u _ hq hu ih =>
      have hworth := extendCost_nonneg hq.le hu
      simp only [receiveMovingAverage, extendCost] at hworth ⊢
      omega
    | @issue s received issued q _ hq hle ih =>
      obtain ⟨-, hcost, -⟩ := issueMovingAverage_cost ih.2.1 hq hle
      -- An issue of everything takes the value as it stands.
      have hall : s.quantity = q → (issueMovingAverage s q).cost = s.value := fun h => if_pos h
      have hstate : (issueMovingAverage s q).state =
          ⟨s.quantity - q, s.value - (issueMovingAverage s q).cost⟩ := rfl
      rw [hstate]
      dsimp only
      omega
  obtain ⟨-, hv, hsum, hempty⟩ := hrun
  refine ⟨hv, hsum, fun h => by rw [hsum, hempty h, add_zero], fun q hq hle => ?_⟩
  obtain ⟨-, -, hnear⟩ := issueMovingAverage_cost hv hq hle
  have hturn : (issueMovingAverage s q).state.value * s.quantity -
      s.value * (issueMovingAverage s q).state.quantity =
      -((issueMovingAverage s q).cost * s.quantity - s.value * q) := by
    show (s.value - (issueMovingAverage s q).cost) * s.quantity - s.value * (s.quantity - q) = _
    ring
  rwa [hturn, abs_neg]

/-- Three bought for ten, and sold one by one. -/
theorem movingAverage_never_drifts_thirds :
    ∃ s issued, MovingAverageRun s 100000 issued ∧ s.quantity = 0 ∧ 100000 = issued := by
  have hbought : MovingAverageRun ⟨30000, 100000⟩ 100000 0 :=
    .receive (q := 10000) (u := 33334) (.receive (q := 20000) (u := 33333) .empty (by decide)
      (by decide)) (by decide) (by decide)
  have hsold := MovingAverageRun.issue (.issue (.issue hbought (q := 10000) (by decide)
    (by decide)) (q := 10000) (by decide) (by decide)) (q := 10000) (by decide) (by decide)
  exact ⟨_, _, hsold, rfl, (movingAverage_never_drifts hsold).2.2.1 rfl⟩

end OpenBooks
