import OpenBooks.Inventory.Costing

/-!
# Drawing in parts

A draw reduces its layers (`reduceLayers`), and the next draw is off what is left.
Neither what the layers give nor what they cost depends on how a demand was cut up: drawing
twice is drawing the sum (`drained_drained`), because a layer that was drawn empty
is skipped and one that was drawn in part goes on where it stopped.

The money follows from the layers. Each draw costs what its layer's stored value falls by, so
a whole draw costs what all of them fall by (`layerValue_drained`), and no
ten-thousandth is lost between two draws however their rates round.
-/

namespace OpenBooks

open List

/-! ### Reducing layers -/

/-- Layers less what was drawn off them: each draw off the next layer that has something
left. -/
def reduceLayers : List CostLayer → List LayerConsumption → List CostLayer
  | [], _ => []
  | layer :: layers, [] => layer :: layers
  | layer :: layers, consumption :: consumptions =>
    if layer.remaining ≤ 0 then
      layer :: reduceLayers layers (consumption :: consumptions)
    else
      { layer with remaining := layer.remaining - consumption.quantity } ::
        reduceLayers layers consumptions

@[simp] theorem reduceLayers_nil (layers : List CostLayer) : reduceLayers layers [] = layers := by
  cases layers <;> rfl

/-- The value the layers carry. -/
def layerValue (layers : List CostLayer) : ℤ :=
  (layers.map fun layer => extendCost layer.remaining layer.unitCost).sum

/-- The layers after a demand has been drawn off them. -/
def drained (layers : List CostLayer) (need : ℤ) : List CostLayer :=
  reduceLayers layers (drawLayers layers need).1

variable {layers : List CostLayer} {layer : CostLayer} {need : ℤ}

theorem drawLayers_of_nonpos (h : need ≤ 0) : (drawLayers layers need).1 = [] := by
  cases layers with
  | nil => rfl
  | cons layer layers => rw [drawLayers, if_pos h]

theorem drawLayers_cons_of_empty (h : layer.remaining ≤ 0) :
    (drawLayers (layer :: layers) need).1 = (drawLayers layers need).1 := by
  rcases le_or_gt need 0 with hneed | hneed
  · rw [drawLayers_of_nonpos hneed, drawLayers_of_nonpos hneed]
  · rw [drawLayers, if_neg hneed.not_ge, if_pos h]

theorem drawLayers_cons (h : 0 < layer.remaining) (hneed : 0 < need) :
    (drawLayers (layer :: layers) need).1 =
      ⟨layer.id, min layer.remaining need, layer.unitCost,
        drawCost layer (min layer.remaining need)⟩ ::
        (drawLayers layers (need - min layer.remaining need)).1 := by
  have htake : (if layer.remaining < need then layer.remaining else need) =
      min layer.remaining need := by
    split_ifs <;> omega
  rw [drawLayers, if_neg hneed.not_ge, if_neg h.not_ge]
  simp only [htake]

theorem drained_of_nonpos (h : need ≤ 0) : drained layers need = layers := by
  rw [drained, drawLayers_of_nonpos h, reduceLayers_nil]

theorem drained_cons_of_empty (h : layer.remaining ≤ 0) :
    drained (layer :: layers) need = layer :: drained layers need := by
  rw [drained, drawLayers_cons_of_empty h, drained]
  cases (drawLayers layers need).1 with
  | nil => simp
  | cons consumption consumptions => rw [reduceLayers, if_pos h]

theorem drained_cons (h : 0 < layer.remaining) (hneed : 0 ≤ need) :
    drained (layer :: layers) need =
      { layer with remaining := layer.remaining - min layer.remaining need } ::
        drained layers (need - min layer.remaining need) := by
  rcases hneed.eq_or_lt with rfl | hneed
  · rw [min_eq_right h.le, sub_zero, sub_zero, drained_of_nonpos le_rfl, drained_of_nonpos le_rfl]
  · rw [drained, drawLayers_cons h hneed, reduceLayers, if_neg h.not_ge, drained]

/-- **Drawing twice is drawing the sum.** -/
theorem drained_drained (layers : List CostLayer) {first second : ℤ} (hfirst : 0 ≤ first)
    (hsecond : 0 ≤ second) :
    drained (drained layers first) second = drained layers (first + second) := by
  induction layers generalizing first second with
  | nil => rfl
  | cons layer layers ih =>
    rcases le_or_gt layer.remaining 0 with hempty | hleft
    · rw [drained_cons_of_empty hempty, drained_cons_of_empty hempty, drained_cons_of_empty hempty,
        ih hfirst hsecond]
    · rw [drained_cons hleft hfirst, drained_cons hleft (add_nonneg hfirst hsecond)]
      rcases le_or_gt layer.remaining first with hall | hpart
      · -- The first draw empties the layer, so the second skips it.
        rw [min_eq_left hall, min_eq_left (by omega), sub_self,
          drained_cons_of_empty le_rfl, ih (by omega) hsecond]
        congr 2
        omega
      · -- It leaves something, and draws nothing further down.
        rw [min_eq_right hpart.le, sub_self, drained_of_nonpos le_rfl,
          drained_cons (sub_pos.mpr hpart) hsecond]
        congr 2 <;> simp only [] <;> omega

/-- Where layers have ids of their own, each is left with what it had less the draw under its
id: the draw by position and by id are one. -/
theorem drained_eq_map (hids : (layers.map CostLayer.id).Nodup) (need : ℤ) :
    drained layers need = layers.map fun layer => { layer with
      remaining := layer.remaining - (((drawLayers layers need).1.find? fun c =>
        c.layerId = layer.id).map LayerConsumption.quantity).getD 0 } := by
  rcases le_or_gt need 0 with hneed | hneed
  · simp [drained_of_nonpos hneed, drawLayers_of_nonpos hneed]
  induction layers generalizing need with
  | nil => rfl
  | cons layer layers ih =>
    obtain ⟨hid, hids⟩ := nodup_cons.mp hids
    have hother : ∀ l ∈ layers, layer.id ≠ l.id := by
      rintro l hl heq
      exact hid (heq ▸ mem_map_of_mem hl)
    rcases le_or_gt layer.remaining 0 with hempty | hleft
    · have hnone : (drawLayers layers need).1.find? (fun c => c.layerId = layer.id) = none := by
        rw [find?_eq_none]
        intro c hc
        obtain ⟨l, hl, heq, -⟩ := (drawLayers_spec layers need hneed.le).1 c hc
        simpa [heq] using (hother l hl).symm
      rw [drained_cons_of_empty hempty, ih hids need hneed, drawLayers_cons_of_empty hempty,
        map_cons, hnone]
      simp
    · rw [drained_cons hleft hneed.le, drawLayers_cons hleft hneed, map_cons,
        find?_cons_of_pos (by simp)]
      congr 1
      rcases le_or_gt (need - min layer.remaining need) 0 with hdone | hmore
      · rw [drained_of_nonpos hdone, drawLayers_of_nonpos hdone]
        conv_lhs => rw [← map_id layers]
        refine map_congr_left fun l hl => ?_
        rw [find?_cons_of_neg (by simpa using hother l hl)]
        simp
      · rw [ih hids _ hmore]
        refine map_congr_left fun l hl => ?_
        rw [find?_cons_of_neg (by simpa using hother l hl)]

/-! ### What a draw costs -/

/-- **A draw costs what the layers' value falls by.** -/
theorem layerValue_drained (layers : List CostLayer) (need : ℤ) :
    layerValue layers - layerValue (drained layers need) =
      ((drawLayers layers need).1.map LayerConsumption.cost).sum := by
  induction layers generalizing need with
  | nil => rfl
  | cons layer layers ih =>
    rcases le_or_gt need 0 with hneed | hneed
    · rw [drained_of_nonpos hneed, drawLayers_of_nonpos hneed, sub_self]
      rfl
    · rcases le_or_gt layer.remaining 0 with hempty | hleft
      · rw [drained_cons_of_empty hempty, drawLayers_cons_of_empty hempty, ← ih]
        simp [layerValue]
      · rw [drained_cons hleft hneed.le, drawLayers_cons hleft hneed, map_cons, sum_cons,
          ← ih]
        simp only [layerValue, map_cons, sum_cons, drawCost, extendCost]
        ring

theorem drained_nonneg (h : ∀ l ∈ layers, 0 ≤ l.remaining) (need : ℤ) :
    ∀ l ∈ drained layers need, 0 ≤ l.remaining := by
  induction layers generalizing need with
  | nil => exact h
  | cons layer layers ih =>
    obtain ⟨hlayer, hlayers⟩ := forall_mem_cons.mp h
    rcases le_or_gt need 0 with hneed | hneed
    · rwa [drained_of_nonpos hneed]
    · rcases le_or_gt layer.remaining 0 with hempty | hleft
      · rw [drained_cons_of_empty hempty]
        exact forall_mem_cons.mpr ⟨hlayer, ih hlayers need⟩
      · rw [drained_cons hleft hneed.le]
        refine forall_mem_cons.mpr ⟨?_, ih hlayers _⟩
        exact sub_nonneg.mpr (min_le_left _ _)

/-- What the layers hold falls by the demand they cover. -/
theorem sum_remaining_drained (h : ∀ l ∈ layers, 0 ≤ l.remaining) (hneed : 0 ≤ need)
    (hcovered : need ≤ (layers.map CostLayer.remaining).sum) :
    ((drained layers need).map CostLayer.remaining).sum =
      (layers.map CostLayer.remaining).sum - need := by
  induction layers generalizing need with
  | nil =>
    have : need = 0 := le_antisymm hcovered hneed
    simp [this, drained, drawLayers]
  | cons layer layers ih =>
    obtain ⟨hlayer, hlayers⟩ := forall_mem_cons.mp h
    rw [map_cons, sum_cons] at hcovered ⊢
    rcases hlayer.eq_or_lt with hempty | hleft
    · rw [drained_cons_of_empty hempty.ge, map_cons, sum_cons,
        ih hlayers hneed (by omega)]
      ring
    · rw [drained_cons hleft hneed, map_cons, sum_cons]
      have hsum : 0 ≤ (layers.map CostLayer.remaining).sum :=
        List.sum_nonneg (by simpa using hlayers)
      rw [ih hlayers (by omega) (by omega)]
      ring

/-! ### First in, first out -/

theorem consumeFifo_consumptions (layers : List CostLayer) (quantity fallbackUnitCost : ℤ) :
    (consumeFifo layers quantity fallbackUnitCost).consumptions =
      (drawLayers layers quantity).1 := by
  unfold consumeFifo
  split_ifs with h
  · exact (drawLayers_of_nonpos h).symm
  · dsimp only
    split_ifs <;> rfl

/-- What was drawn costs the total less what the shortfall was charged. -/
theorem consumeFifo_cost (layers : List CostLayer) (quantity fallbackUnitCost : ℤ) :
    (consumeFifo layers quantity fallbackUnitCost).totalCost -
        (consumeFifo layers quantity fallbackUnitCost).shortfallCost =
      ((drawLayers layers quantity).1.map LayerConsumption.cost).sum := by
  unfold consumeFifo
  split_ifs with h
  · rw [drawLayers_of_nonpos h]
    rfl
  · dsimp only
    split_ifs
    · exact add_sub_cancel_right _ _
    · exact sub_zero _

theorem consumeFifo_shortfallCost {quantity : ℤ} (h : ∀ l ∈ layers, 0 ≤ l.remaining)
    (hcovered : quantity ≤ (layers.map CostLayer.remaining).sum) (fallbackUnitCost : ℤ) :
    (consumeFifo layers quantity fallbackUnitCost).shortfallCost = 0 := by
  unfold consumeFifo
  split_ifs with hneed
  · rfl
  · obtain ⟨-, -, -, -, hrest⟩ := drawLayers_spec layers quantity (not_le.mp hneed).le
    dsimp only
    rw [hrest h hcovered, if_neg (lt_irrefl 0)]

theorem DrawnFrom.cost_bounds {c : LayerConsumption} (h : DrawnFrom layers c)
    (hcost : ∀ l ∈ layers, 0 ≤ l.unitCost) :
    0 ≤ c.cost ∧ ∃ layer ∈ layers, layer.id = c.layerId ∧
      c.cost ≤ extendCost layer.remaining layer.unitCost := by
  obtain ⟨layer, hlayer, hid, -, hpos, hle, hc⟩ := h
  have hunit := hcost layer hlayer
  have hafter : 0 ≤ mulUnits (layer.remaining - c.quantity) layer.unitCost :=
    extendCost_nonneg (sub_nonneg.mpr hle) hunit
  have hfall : mulUnits (layer.remaining - c.quantity) layer.unitCost ≤
      mulUnits layer.remaining layer.unitCost := by
    rw [mulUnits_eq_round, mulUnits_eq_round]
    exact HalfAway.round_mono SCALE_pos (mul_le_mul_of_nonneg_right (by omega) hunit)
  rw [drawCost] at hc
  refine ⟨by omega, layer, hlayer, hid.symm, ?_⟩
  rw [extendCost]
  omega

/-- **Drawing a demand in two parts takes the same from every layer and costs the same**, and
every draw, covered or not, costs what the layers' value falls by. -/
theorem partial_draws_cost_the_same (hremaining : ∀ l ∈ layers, 0 ≤ l.remaining)
    (hcost : ∀ l ∈ layers, 0 ≤ l.unitCost) :
    (∀ first second fallback fallback' fallback'' : ℤ, 0 < first → 0 < second →
      first + second ≤ (layers.map CostLayer.remaining).sum →
      let one := consumeFifo layers first fallback
      let two := consumeFifo (reduceLayers layers one.consumptions) second fallback'
      let whole := consumeFifo layers (first + second) fallback''
      reduceLayers (reduceLayers layers one.consumptions) two.consumptions =
          reduceLayers layers whole.consumptions ∧
        one.totalCost + two.totalCost = whole.totalCost) ∧
    ∀ quantity fallback : ℤ,
      let drawn := consumeFifo layers quantity fallback
      layerValue layers - layerValue (reduceLayers layers drawn.consumptions) =
          drawn.totalCost - drawn.shortfallCost ∧
        ∀ c ∈ drawn.consumptions, 0 ≤ c.cost ∧ ∃ layer ∈ layers, layer.id = c.layerId ∧
          c.cost ≤ extendCost layer.remaining layer.unitCost := by
  constructor
  · intro first second fallback fallback' fallback'' hfirst hsecond hcovered
    dsimp only
    simp only [consumeFifo_consumptions]
    have htwice := drained_drained layers hfirst.le hsecond.le
    refine ⟨htwice, ?_⟩
    have hone := consumeFifo_cost layers first fallback
    have htwo := consumeFifo_cost (drained layers first) second fallback'
    have hwhole := consumeFifo_cost layers (first + second) fallback''
    rw [consumeFifo_shortfallCost hremaining (by omega), ← layerValue_drained] at hone
    rw [consumeFifo_shortfallCost (drained_nonneg hremaining first) (by
        rw [sum_remaining_drained hremaining hfirst.le (by omega)]
        omega), ← layerValue_drained, htwice] at htwo
    rw [consumeFifo_shortfallCost hremaining hcovered, ← layerValue_drained] at hwhole
    rw [drained] at htwo hone
    omega
  · intro quantity fallback
    dsimp only
    rw [consumeFifo_consumptions, consumeFifo_cost, ← layerValue_drained]
    refine ⟨rfl, fun c hc => ?_⟩
    rcases le_or_gt quantity 0 with hneed | hneed
    · rw [drawLayers_of_nonpos hneed] at hc
      cases hc
    · exact ((drawLayers_spec layers quantity hneed.le).1 c hc).cost_bounds hcost

/-- Two layers, drawn in the middle of the second. -/
def twoLayers : List CostLayer := [⟨1, 30000, 13333⟩, ⟨2, 20000, 77777⟩]

theorem partial_draws_cost_the_same_of_two_layers :
    reduceLayers (reduceLayers twoLayers (consumeFifo twoLayers 36667 0).consumptions)
        (consumeFifo (reduceLayers twoLayers (consumeFifo twoLayers 36667 0).consumptions)
          13333 0).consumptions =
      reduceLayers twoLayers (consumeFifo twoLayers (36667 + 13333) 0).consumptions ∧
    (consumeFifo twoLayers 36667 0).totalCost +
        (consumeFifo (reduceLayers twoLayers (consumeFifo twoLayers 36667 0).consumptions)
          13333 0).totalCost =
      (consumeFifo twoLayers (36667 + 13333) 0).totalCost :=
  (partial_draws_cost_the_same (by decide) (by decide)).1 36667 13333 0 0 0 (by decide) (by decide)
    (by decide)

theorem drained_eq_map_of_two_layers :
    drained twoLayers 36667 = twoLayers.map fun layer => { layer with
      remaining := layer.remaining - (((drawLayers twoLayers 36667).1.find? fun c =>
        c.layerId = layer.id).map LayerConsumption.quantity).getD 0 } :=
  drained_eq_map (by decide) 36667

end OpenBooks
