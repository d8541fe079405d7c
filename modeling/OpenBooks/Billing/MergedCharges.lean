import OpenBooks.Billing.RateAdjustments

/-!
# Surcharges of work that is split

Departments are priced apart and their charges merged (`mergeCharges`). What an adjustment comes to
should not depend on the split, but a department whose own share rounds to nothing has no charge,
and its basis and hours are not in the merged one; and a day on which two departments worked counts
twice. `mergeCharges_split_iff` says that nothing else makes a difference.
-/

namespace OpenBooks

open Checked List ListSum

variable {rounding : AdjustmentRounding} {a : ResolvedAdjustment} {lines : List AdjustableLine}
  {adjustments : List ResolvedAdjustment} {cs : List AdjustmentCharge} {c : AdjustmentCharge}
  {basis quantity : ℤ}

/-! ### Charges by adjustment -/

theorem adjustment_of_priceAdjustment (h : priceAdjustment lines rounding a = .ok cs)
    (hc : c ∈ cs) : c.adjustment = a := by
  obtain ⟨_, -, h⟩ := exists_left_of_forall₂ (mapM_eq_ok.mp (priceAdjustment_spec h)) hc
  obtain ⟨_, -, rfl⟩ := map_eq_ok.mp h
  rfl

theorem adjustment_mem (h : priceAdjustments lines adjustments rounding = .ok cs) (hc : c ∈ cs) :
    c.adjustment ∈ adjustments := by
  obtain ⟨css, hcss, rfl⟩ := collect_eq_ok.mp h
  obtain ⟨priced, hpriced, hc⟩ := mem_flatten.mp hc
  obtain ⟨a, ha, h⟩ := exists_left_of_forall₂ hcss hpriced
  rwa [adjustment_of_priceAdjustment h hc]

theorem filter_priceAdjustments (hids : (adjustments.map (·.id)).Nodup)
    (h : priceAdjustments lines adjustments rounding = .ok cs) (ha : a ∈ adjustments) :
    priceAdjustment lines rounding a = .ok (cs.filter (·.adjustment.id = a.id)) := by
  obtain ⟨css, hcss, rfl⟩ := collect_eq_ok.mp h
  clear h
  induction hcss with
  | nil => cases ha
  | @cons b priced adjustments css hpriced hcss ih =>
    rw [map_cons, nodup_cons] at hids
    rw [flatten_cons, filter_append]
    rcases mem_cons.mp ha with rfl | ha
    · rw [filter_eq_self.mpr fun c hc => by
        rw [adjustment_of_priceAdjustment hpriced hc, decide_eq_true rfl],
        filter_eq_nil_iff.mpr, append_nil]
      · exact hpriced
      · intro c hc
        have hmem := adjustment_mem (collect_eq_ok.mpr ⟨css, hcss, rfl⟩) hc
        simpa using fun h : c.adjustment.id = a.id => hids.1 (h ▸ mem_map_of_mem hmem)
    · rw [filter_eq_nil_iff.mpr, nil_append]
      · exact ih hids.2 ha
      · intro c hc
        rw [adjustment_of_priceAdjustment hpriced hc]
        simpa using fun h : b.id = a.id => hids.1 (h ▸ mem_map_of_mem ha)

/-! ### Folding -/

/-- What stands under an id changes with the charges under it only. -/
theorem filter_foldCharge (i : String) (merged : List AdjustmentCharge) (c : AdjustmentCharge) :
    (foldCharge merged c).filter (·.adjustment.id = i) =
      if c.adjustment.id = i then foldCharge (merged.filter (·.adjustment.id = i)) c
      else merged.filter (·.adjustment.id = i) := by
  have hmap : ∀ f : AdjustmentCharge → AdjustmentCharge, (∀ p, (f p).adjustment = p.adjustment) →
      (merged.map f).filter (·.adjustment.id = i) =
        (merged.filter (·.adjustment.id = i)).map f := fun f hf => by
    simp only [filter_map, Function.comp_def, hf]
  by_cases hi : c.adjustment.id = i
  · have hany : (merged.filter (·.adjustment.id = i)).any (·.adjustment.id = c.adjustment.id) =
        merged.any (·.adjustment.id = c.adjustment.id) := by simp [any_filter, hi]
    simp only [foldCharge, if_pos hi, hany]
    split_ifs
    · exact hmap _ fun p => by split_ifs <;> rfl
    · simp [hi]
  · rw [if_neg hi, foldCharge]
    split_ifs
    · rw [hmap _ fun p => by split_ifs <;> rfl, map_congr_left, map_id]
      intro p hp
      have hid : p.adjustment.id = i := by simpa using (mem_filter.mp hp).2
      rw [if_neg fun h : p.adjustment.id = c.adjustment.id => hi (h.symm.trans hid), id]
    · simp [hi]

theorem filter_foldl_foldCharge (i : String) (merged cs : List AdjustmentCharge) :
    (cs.foldl foldCharge merged).filter (·.adjustment.id = i) =
      (cs.filter (·.adjustment.id = i)).foldl foldCharge
        (merged.filter (·.adjustment.id = i)) := by
  induction cs generalizing merged with
  | nil => rfl
  | cons c cs ih =>
    rw [foldl_cons, ih, filter_foldCharge, filter_cons]
    by_cases h : c.adjustment.id = i <;> simp [h]

theorem foldl_foldCharge_singleton {p : AdjustmentCharge}
    (h : ∀ c ∈ p :: cs, c.adjustment = a ∧ c.quantityBasis.isSome = isUnitPriced a) :
    cs.foldl foldCharge [p] =
      [{ p with basis := ((p :: cs).map (·.basis)).sum
                quantityBasis := if isUnitPriced a then
                  some ((p :: cs).map (·.quantityBasis.getD 0)).sum else none }] := by
  induction cs generalizing p with
  | nil =>
    obtain ⟨-, hquantity⟩ := h p mem_cons_self
    cases p
    cases hunit : isUnitPriced a <;> simp_all [Option.isSome_iff_exists]
    grind
  | cons c cs ih =>
    obtain ⟨hp, hpq⟩ := h p mem_cons_self
    obtain ⟨hc, hcq⟩ := h c (mem_cons_of_mem p mem_cons_self)
    have hstep : foldCharge [p] c = [{ p with
        basis := p.basis + c.basis
        quantityBasis := if isUnitPriced a then
          some (p.quantityBasis.getD 0 + c.quantityBasis.getD 0) else none }] := by
      cases hp' : p.quantityBasis <;> cases hc' : c.quantityBasis <;> simp_all [foldCharge]
    rw [foldl_cons, hstep, ih]
    · cases hunit : isUnitPriced a <;> simp [add_assoc]
    · rintro d (_ | ⟨_, hd⟩)
      · cases hunit : isUnitPriced a <;> simp [hp]
      · exact h d (mem_cons_of_mem _ (mem_cons_of_mem _ hd))

/-! ### Pricing again -/

/-- Whether an adjustment can be priced does not depend on what is measured. -/
theorem exists_chargeOf (h : chargeOf rounding a basis quantity = .ok c) (basis' quantity' : ℤ) :
    ∃ d, chargeOf rounding a basis' quantity' = .ok d := by
  obtain ⟨amount, hamount, -⟩ := map_eq_ok.mp h
  suffices hamount' : ∃ amount', chargeAmount rounding a basis' quantity' = .ok amount' from
    hamount'.elim fun _ h => ⟨_, map_eq_ok.mpr ⟨_, h, rfl⟩⟩
  by_cases hpercent : a.calculation = .percent
  · rw [chargeAmount, if_pos hpercent] at hamount ⊢
    cases rounding <;> cases hunits : percentUnits a.value <;>
      simp_all [percentAmount, mulPercentExact]
  · rw [chargeAmount, if_neg hpercent] at hamount ⊢
    obtain ⟨value, hvalue, -⟩ := bind_eq_ok.mp hamount
    exact ⟨_, bind_eq_ok.mpr ⟨value, hvalue, rfl⟩⟩

theorem repriceCharge_of_chargeOf (h : chargeOf rounding a basis quantity = .ok c)
    (basis' quantity' : ℤ) :
    repriceCharge rounding { c with
      basis := basis'
      quantityBasis := if isUnitPriced a then some quantity' else none } =
      chargeOf rounding a basis' quantity' := by
  obtain ⟨amount, hamount, rfl⟩ := map_eq_ok.mp h
  have hvalue : a.value ≠ [] := by
    intro hvalue
    rw [chargeAmount, hvalue] at hamount
    split_ifs at hamount <;> cases rounding <;> cases hamount
  rw [repriceCharge, chargeOf]
  by_cases hpercent : a.calculation = .percent
  · simp [hvalue, hpercent, chargeAmount]
  · rw [chargeAmount, if_neg hpercent] at hamount
    cases hunit : isUnitPriced a
    · simp_all [chargeAmount]
    · simp [hvalue]

/-! ### Splitting -/

variable {groups : List (List AdjustableLine)} {parts : List (List AdjustmentCharge)}

/-- The groups that are charged for an adjustment on their own. -/
def chargedGroups (rounding : AdjustmentRounding) (a : ResolvedAdjustment)
    (groups : List (List AdjustableLine)) : List (List AdjustableLine) :=
  groups.filter (isCharged rounding a)

/-- The charge for what the charged groups measure together. -/
def mergedCharge (rounding : AdjustmentRounding) (groups : List (List AdjustableLine))
    (a : ResolvedAdjustment) : Except RateAdjustmentPricingError AdjustmentCharge :=
  chargeOf rounding a ((chargedGroups rounding a groups).map (basisOf a)).sum
    ((chargedGroups rounding a groups).map (totalQty a)).sum

theorem totalQty_eq_zero (h : isUnitPriced a = false) : totalQty a = fun _ => 0 := by
  funext lines
  rw [totalQty]
  split <;> simp_all [isUnitPriced]

section

variable (hids : (adjustments.map (·.id)).Nodup)
  (hparts : groups.mapM (priceAdjustments · adjustments rounding) = .ok parts)

include hids hparts

theorem forall₂_charges (ha : a ∈ adjustments) :
    Forall₂ (fun ls c => chargeOf rounding a (basisOf a ls) (totalQty a ls) = .ok c)
      (chargedGroups rounding a groups) (parts.flatten.filter (·.adjustment.id = a.id)) := by
  have h := mapM_eq_ok.mp hparts
  clear hparts
  induction h with
  | nil => exact .nil
  | @cons ls cs groups parts hpriced hparts ih =>
    rw [chargedGroups, ← singleton_append, filter_append, flatten_cons, filter_append]
    exact rel_append (mapM_eq_ok.mp (priceAdjustment_spec (filter_priceAdjustments hids hpriced ha)))
      ih

theorem merged_of_adjustment (ha : a ∈ adjustments)
    (hcharged : chargedGroups rounding a groups ≠ []) :
    ∃ p d, (parts.flatten.foldl foldCharge []).filter (·.adjustment.id = a.id) = [p] ∧
      repriceCharge rounding p = .ok d ∧ mergedCharge rounding groups a = .ok d := by
  have hcharges := forall₂_charges hids hparts ha
  have hbasis := map_eq_map_of_forall₂ hcharges (basisOf a) (·.basis) fun _ _ c _ h => by
    obtain ⟨_, -, rfl⟩ := map_eq_ok.mp h
    rfl
  have hquantity := map_eq_map_of_forall₂ hcharges (totalQty a) (·.quantityBasis.getD 0)
    fun ls _ c _ h => by
      obtain ⟨_, -, rfl⟩ := map_eq_ok.mp h
      cases hunit : isUnitPriced a <;> simp [hunit, totalQty_eq_zero]
  rw [filter_foldl_foldCharge, filter_nil, mergedCharge, ← hbasis, ← hquantity]
  clear hbasis hquantity
  generalize chargedGroups rounding a groups = charged at hcharged hcharges
  generalize parts.flatten.filter (·.adjustment.id = a.id) = cs at hcharges ⊢
  have hall : ∀ d ∈ cs, d.adjustment = a ∧ d.quantityBasis.isSome = isUnitPriced a := by
    intro d hd
    obtain ⟨_, -, h⟩ := exists_left_of_forall₂ hcharges hd
    obtain ⟨_, -, rfl⟩ := map_eq_ok.mp h
    cases hunit : isUnitPriced a <;> simp
  cases hcharges with
  | nil => contradiction
  | @cons ls c charged cs hc hcs =>
    obtain ⟨d, hd⟩ := exists_chargeOf hc ((c :: cs).map (·.basis)).sum
      ((c :: cs).map (·.quantityBasis.getD 0)).sum
    exact ⟨_, d, foldl_foldCharge_singleton hall, (repriceCharge_of_chargeOf hc _ _).trans hd, hd⟩

/-- **What merging yields**: the merged charge of each adjustment that some group is charged for. -/
theorem mem_mergeCharges :
    ∃ merged, mergeCharges parts.flatten rounding = .ok merged ∧
      ∀ d, d ∈ merged ↔ ∃ a ∈ adjustments, chargedGroups rounding a groups ≠ [] ∧
        mergedCharge rounding groups a = .ok d := by
  -- what is folded under an id is of an adjustment that is charged
  have hfolded : ∀ p ∈ parts.flatten.foldl foldCharge [], ∃ a ∈ adjustments,
      chargedGroups rounding a groups ≠ [] ∧
        ∃ d, repriceCharge rounding p = .ok d ∧ mergedCharge rounding groups a = .ok d := by
    intro p hp
    have hmem : p ∈ (parts.flatten.foldl foldCharge []).filter
        (·.adjustment.id = p.adjustment.id) := by simpa using hp
    have hnonempty : parts.flatten.filter (·.adjustment.id = p.adjustment.id) ≠ [] := by
      intro h
      rw [filter_foldl_foldCharge, filter_nil, h] at hmem
      cases hmem
    obtain ⟨c, hc⟩ := exists_mem_of_ne_nil _ hnonempty
    obtain ⟨hc, hid⟩ := mem_filter.mp hc
    obtain ⟨cs, hcs, hc'⟩ := mem_flatten.mp hc
    obtain ⟨ls, -, hls⟩ := exists_left_of_forall₂ (mapM_eq_ok.mp hparts) hcs
    have ha := adjustment_mem hls hc'
    have hcharges := forall₂_charges hids hparts ha
    rw [← of_decide_eq_true hid] at hmem hnonempty
    have hcharged : chargedGroups rounding c.adjustment groups ≠ [] := fun h =>
      hnonempty (forall₂_nil_left_iff.mp (h ▸ hcharges))
    obtain ⟨q, d, hq, hd⟩ := merged_of_adjustment hids hparts ha hcharged
    rw [hq, mem_singleton] at hmem
    exact ⟨_, ha, hcharged, d, hmem ▸ hd⟩
  choose! f hf using fun p hp => (hfolded p hp).elim fun _ h => h.2.2.imp fun _ => And.left
  refine ⟨_, bind_eq_ok.mpr ⟨_, mapM_ok_of_forall hf, rfl⟩, fun d => ?_⟩
  rw [mem_mergeSort, mem_map]
  constructor
  · rintro ⟨p, hp, rfl⟩
    obtain ⟨a, ha, hcharged, d, hd, hmerged⟩ := hfolded p hp
    rw [hf p hp] at hd
    exact ⟨a, ha, hcharged, hmerged.trans hd.symm⟩
  · rintro ⟨a, ha, hcharged, hmerged⟩
    obtain ⟨p, d', hp, hd', hmerged'⟩ := merged_of_adjustment hids hparts ha hcharged
    have hmem : p ∈ parts.flatten.foldl foldCharge [] :=
      (mem_filter.mp (hp ▸ mem_singleton_self p)).1
    exact ⟨p, hmem, Except.ok.inj ((hf p hmem).symm.trans (hd'.trans (hmerged'.symm.trans hmerged)))⟩

end

/-- **Splitting loses nothing of an adjustment**: some group is charged for it if the whole is, and
then the groups that are not measure nothing together, and the others bill the whole quantity. -/
def SplitsExactly (rounding : AdjustmentRounding) (groups : List (List AdjustableLine))
    (lines : List AdjustableLine) (a : ResolvedAdjustment) : Prop :=
  (chargedGroups rounding a groups ≠ [] ↔ isCharged rounding a lines = true) ∧
    (isCharged rounding a lines = true →
      ((groups.filter (!isCharged rounding a ·)).map (basisOf a)).sum = 0 ∧
      ((chargedGroups rounding a groups).map (totalQty a)).sum = totalQty a lines)

theorem sum_basisOf (hsplit : groups.flatten ~ lines) :
    (groups.map (basisOf a)).sum = basisOf a lines := by
  rw [basisOf, matchedLines, ← ((hsplit.filter _).map _).sum_eq, filter_flatten, map_flatten,
    sum_flatten, map_map, map_map]
  rfl

theorem exists_mergedCharge (h : chargedGroups rounding a groups ≠ []) :
    ∃ d, mergedCharge rounding groups a = .ok d := by
  obtain ⟨ls, hls⟩ := exists_mem_of_ne_nil _ h
  have hcharged := (mem_filter.mp hls).2
  rw [isCharged, Bool.and_eq_true] at hcharged
  obtain ⟨_, hamount, -⟩ := exists_of_any hcharged.2
  exact exists_chargeOf (map_eq_ok.mpr ⟨_, hamount, rfl⟩) _ _

/-- That is when the adjustment has the same charge from the groups as from the whole. -/
theorem splitsExactly_iff (hsplit : groups.flatten ~ lines) :
    SplitsExactly rounding groups lines a ↔
      ∀ d, chargedGroups rounding a groups ≠ [] ∧ mergedCharge rounding groups a = .ok d ↔
        chargedGroups rounding a [lines] ≠ [] ∧ mergedCharge rounding [lines] a = .ok d := by
  have hbasis : ((chargedGroups rounding a groups).map (basisOf a)).sum +
      ((groups.filter (!isCharged rounding a ·)).map (basisOf a)).sum = basisOf a lines := by
    rw [← sum_basisOf hsplit]
    exact sum_filter_add_sum_filter_not _ _ _
  have hsingle : chargedGroups rounding a [lines] ≠ [] ↔ isCharged rounding a lines = true := by
    simp [chargedGroups]
  have hwhole : isCharged rounding a lines = true → mergedCharge rounding [lines] a =
      chargeOf rounding a (basisOf a lines) (totalQty a lines) := fun h => by
    simp [mergedCharge, chargedGroups, h]
  rw [hsingle]
  constructor
  · rintro ⟨hcharged, hsums⟩ d
    rw [hcharged]
    refine and_congr_right fun h => ?_
    rw [hwhole h, mergedCharge, (hsums h).2, ← hbasis, (hsums h).1, add_zero]
  · intro hsame
    have hiff : chargedGroups rounding a groups ≠ [] ↔ isCharged rounding a lines = true := by
      constructor
      · intro h
        obtain ⟨d, hd⟩ := exists_mergedCharge h
        exact ((hsame d).mp ⟨h, hd⟩).1
      · intro h
        obtain ⟨d, hd⟩ := exists_mergedCharge (hsingle.mpr h)
        exact ((hsame d).mpr ⟨h, hd⟩).1
    refine ⟨hiff, fun h => ?_⟩
    obtain ⟨d, hd⟩ := exists_mergedCharge (hiff.mpr h)
    have hd' := ((hsame d).mp ⟨hiff.mpr h, hd⟩).2
    rw [hwhole h] at hd'
    obtain ⟨_, -, rfl⟩ := map_eq_ok.mp hd
    obtain ⟨_, -, heq⟩ := map_eq_ok.mp hd'
    simp only [AdjustmentCharge.mk.injEq, true_and] at heq
    refine ⟨by linarith [heq.1], ?_⟩
    cases hunit : isUnitPriced a
    · simp [totalQty_eq_zero hunit]
    · simpa [hunit] using heq.2.2.symm

/-- **Charges are the same however the work is split**, just when splitting loses nothing. -/
theorem mergeCharges_split_iff {whole : List AdjustmentCharge} (hsplit : groups.flatten ~ lines)
    (hids : (adjustments.map (·.id)).Nodup)
    (hparts : groups.mapM (priceAdjustments · adjustments rounding) = .ok parts)
    (hwhole : priceAdjustments lines adjustments rounding = .ok whole) :
    (∃ merged mergedWhole, mergeCharges parts.flatten rounding = .ok merged ∧
      mergeCharges whole rounding = .ok mergedWhole ∧ ∀ c, c ∈ merged ↔ c ∈ mergedWhole) ↔
      ∀ a ∈ adjustments, SplitsExactly rounding groups lines a := by
  obtain ⟨merged, hmerged, hmem⟩ := mem_mergeCharges hids hparts
  obtain ⟨mergedWhole, hmergedWhole, hmemWhole⟩ := @mem_mergeCharges rounding adjustments [lines]
    [whole] hids (by simp [hwhole])
  rw [flatten_singleton] at hmergedWhole
  simp only [hmerged, hmergedWhole, Except.ok.injEq, exists_and_left, exists_eq_left', hmem,
    hmemWhole, splitsExactly_iff hsplit]
  constructor
  · intro h a ha d
    have hown : ∀ {groups b}, mergedCharge rounding groups b = .ok d → d.adjustment = b := fun h => by
      obtain ⟨_, -, rfl⟩ := map_eq_ok.mp h
      rfl
    constructor
    · intro hd
      obtain ⟨b, -, hb⟩ := (h d).mp ⟨a, ha, hd⟩
      rwa [← hown hd.2, hown hb.2]
    · intro hd
      obtain ⟨b, -, hb⟩ := (h d).mpr ⟨a, ha, hd⟩
      rwa [← hown hd.2, hown hb.2]
  · intro h d
    exact exists_congr fun a => and_congr_right fun ha => h a ha d

/-- A daily allowance, and what it charges for days at one price. -/
def allowance : ResolvedAdjustment where
  id := "daily"
  code := "DAILY"
  calculation := .perDay
  value := "50".toList
  presentation := .separate

def oneDay (day : String) : List AdjustableLine :=
  [{ amount := 1000000, workedOn := some day, isLabor := true }]

def allowanceFor (basis days : ℤ) : AdjustmentCharge :=
  ⟨allowance, basis, days * 500000, some (days * QUANTITY_UNITS)⟩

/-- Two departments that work on different days. -/
theorem mergeCharges_split_iff_twoDays : ∃ merged mergedWhole,
    mergeCharges [allowanceFor 1000000 1, allowanceFor 1000000 1] .halfUp = .ok merged ∧
    mergeCharges [allowanceFor 2000000 2] .halfUp = .ok mergedWhole ∧
      ∀ c, c ∈ merged ↔ c ∈ mergedWhole :=
  (@mergeCharges_split_iff .halfUp (oneDay "2026-03-02" ++ oneDay "2026-03-03") [allowance]
    [oneDay "2026-03-02", oneDay "2026-03-03"] [[allowanceFor 1000000 1], [allowanceFor 1000000 1]]
    _ (.refl _) (by decide) (by decide +kernel) (by decide +kernel)).mpr
    fun a ha => mem_singleton.mp ha ▸ ⟨by decide +kernel, fun _ => by decide +kernel⟩

/-- Two departments that work on one day are charged two days between them. -/
theorem mergeCharges_counts_day_twice : ¬∀ (rounding : AdjustmentRounding)
    (lines : List AdjustableLine) (adjustments : List ResolvedAdjustment)
    (groups : List (List AdjustableLine)) (parts : List (List AdjustmentCharge))
    (whole : List AdjustmentCharge), groups.flatten ~ lines → (adjustments.map (·.id)).Nodup →
    (∀ a ∈ adjustments, a.threshold = none) →
    groups.mapM (priceAdjustments · adjustments rounding) = .ok parts →
    priceAdjustments lines adjustments rounding = .ok whole →
    ∃ merged mergedWhole, mergeCharges parts.flatten rounding = .ok merged ∧
      mergeCharges whole rounding = .ok mergedWhole ∧ ∀ c, c ∈ merged ↔ c ∈ mergedWhole := by
  intro h
  obtain ⟨merged, mergedWhole, hmerged, hwhole, hmem⟩ := h .halfUp
    (oneDay "2026-03-02" ++ oneDay "2026-03-02") [allowance]
    [oneDay "2026-03-02", oneDay "2026-03-02"] [[allowanceFor 1000000 1], [allowanceFor 1000000 1]]
    [allowanceFor 2000000 1] (.refl _) (by decide) (by decide) (by decide +kernel)
    (by decide +kernel)
  have hmerged' : mergeCharges [allowanceFor 1000000 1, allowanceFor 1000000 1] .halfUp =
      .ok [allowanceFor 2000000 2] := by decide +kernel
  have hwhole' : mergeCharges [allowanceFor 2000000 1] .halfUp = .ok [allowanceFor 2000000 1] := by
    decide +kernel
  obtain rfl := Except.ok.inj (hmerged.symm.trans hmerged')
  obtain rfl := Except.ok.inj (hwhole.symm.trans hwhole')
  exact absurd ((hmem _).mp (mem_singleton_self _)) (by decide)

end OpenBooks
