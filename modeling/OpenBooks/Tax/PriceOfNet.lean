import OpenBooks.Tax.InclusiveNet

/-!
# The price of a net

A profile whose standard components are added to the price becomes one whose standard components are
included in it by setting their flag (`TaxComponentConfig.included`). Neither the validation nor a
pass over the components looks at the flag otherwise, so the pass over the included profile is the
same pass, flags apart.

Extraction inverts the exclusive calculation: the price of a net – the net and its standard taxes –
is taken apart into that very net and those very taxes (`inclusive_inverts_exclusive`).
-/

namespace OpenBooks

open Checked List

/-! ### The flag -/

/-- The component, included in the price if it is standard. -/
def TaxComponentConfig.included (c : TaxComponentConfig) : TaxComponentConfig :=
  if c.isStandard then { c with priceIncludesTax := some true } else c

/-- The result of a component, included in the price if it is standard. -/
def ComputedTaxComponent.included (k : ComputedTaxComponent) : ComputedTaxComponent :=
  if k.calculationType = .standard then { k with priceIncludesTax := true } else k

namespace TaxComponentConfig

variable (c : TaxComponentConfig)

@[simp] theorem included_kind : c.included.kind = c.kind := by
  unfold included
  split_ifs <;> rfl

@[simp] theorem included_isStandard : c.included.isStandard = c.isStandard := by
  simp [isStandard]

@[simp] theorem included_sequence : c.included.sequence = c.sequence := by
  unfold included
  split_ifs <;> rfl

@[simp] theorem included_taxCodeId : c.included.taxCodeId = c.taxCodeId := by
  unfold included
  split_ifs <;> rfl

@[simp] theorem included_ratePercent : c.included.ratePercent = c.ratePercent := by
  unfold included
  split_ifs <;> rfl

@[simp] theorem included_recoverable : c.included.recoverable = c.recoverable := by
  unfold included
  split_ifs <;> rfl

@[simp] theorem included_scale : c.included.scale = c.scale := by
  unfold included
  split_ifs <;> rfl

@[simp] theorem included_compounds : c.included.compounds = c.compounds := by
  unfold included
  split_ifs <;> rfl

theorem included_includesTax (h : c.isStandard = true) : c.included.includesTax = true := by
  unfold included
  rw [if_pos h]
  rfl

@[simp] theorem included_plain : c.included.Plain ↔ c.Plain := by
  simp [Plain]

end TaxComponentConfig

/-! ### Validation -/

section Validation

variable {components configs : List TaxComponentConfig}

theorem validateComponent_included (c : TaxComponentConfig) (h : validateComponent c = .ok ()) :
    validateComponent c.included = .ok () := by
  simp only [validateComponent, unitsOfText, bind_eq_ok, orRefuse_eq_ok, refuseIf_eq_ok] at h ⊢
  obtain ⟨rate, hrate, _, hneg, recovery, hrecovery, _, hrange, _, hscale, hincluded⟩ := h
  refine ⟨rate, by simpa using hrate, (), hneg, recovery, by simpa using hrecovery, (), hrange, (),
    by simpa using hscale, ?_⟩
  rintro ⟨hincludes, hkind⟩
  rw [TaxComponentConfig.included_kind] at hkind
  have hstandard : c.isStandard = false := by simpa [TaxComponentConfig.isStandard] using hkind
  rw [TaxComponentConfig.included, hstandard, if_neg Bool.false_ne_true] at hincludes
  exact hincluded ⟨hincludes, hkind⟩

theorem validateEach_included {seen : List String} (h : validateEach seen configs = .ok ()) :
    validateEach seen (configs.map (·.included)) = .ok () := by
  induction configs generalizing seen with
  | nil => rfl
  | cons c rest ih =>
    simp only [map_cons, validateEach, bind_eq_ok, refuseIf_eq_ok] at h ⊢
    obtain ⟨_, hcode, _, hseen, _, hc, hrest⟩ := h
    exact ⟨(), by simpa using hcode, (), by simpa using hseen, (),
      validateComponent_included c hc, by simpa using ih hrest⟩

/-- **A valid profile stays one** when its standard components are all included. -/
theorem validateConfig_included (h : validateConfig components = .ok configs) :
    validateConfig (components.map (·.included)) = .ok (configs.map (·.included)) := by
  simp only [validateConfig, bind_eq_ok, refuseIf_eq_ok, pure_eq_ok] at h ⊢
  obtain ⟨⟨⟩, heach, _, -, rfl⟩ := h
  have hsorted : (components.map (·.included)).insertionSort (fun a b => a.sequence ≤ b.sequence) =
      (components.insertionSort fun a b => a.sequence ≤ b.sequence).map (·.included) := by
    refine (map_insertionSort _ _ _ _ fun a _ b _ => ?_).symm
    simp
  rw [hsorted]
  refine ⟨(), validateEach_included heach, (), ?_, rfl⟩
  rintro ⟨-, hcount⟩
  refine hcount ?_
  rw [length_filter_eq_length_iff]
  intro d hd
  obtain ⟨hd, hstandard⟩ := mem_filter.mp hd
  obtain ⟨c, -, rfl⟩ := mem_map.mp hd
  exact c.included_includesTax (by simpa using hstandard)

end Validation

/-! ### The pass -/

section Pass

variable {configs : List TaxComponentConfig}

theorem computedComponent_included (c : TaxComponentConfig) (taxable tax : ℤ) (adjusted : Bool) :
    computedComponent c.included taxable tax adjusted =
      ComputedTaxComponent.included <$> computedComponent c taxable tax adjusted := by
  simp only [computedComponent, map_bind, map_pure, ComputedTaxComponent.included]
  unfold TaxComponentConfig.included
  split_ifs with hstandard hkind hkind
  · rfl
  · exact absurd (by simpa [TaxComponentConfig.isStandard] using hstandard) hkind
  · exact absurd hkind (by simpa [TaxComponentConfig.isStandard] using hstandard)
  · rfl

/-- **The same pass**, flags apart. -/
theorem calculateFrom_included (net priorEligibleTax priorTax : ℤ) :
    calculateFrom net none priorEligibleTax priorTax (configs.map (·.included)) =
      List.map (·.included) <$> calculateFrom net none priorEligibleTax priorTax configs := by
  induction configs generalizing priorEligibleTax priorTax with
  | nil => rfl
  | cons c rest ih =>
    rw [map_cons, calculateFrom_cons_of_unadjusted rfl, calculateFrom_cons_of_unadjusted rfl]
    have hbase : ∀ base, baseOf c.included net base = baseOf c net base := fun base => by
      simp [baseOf]
    have heligible : ∀ prior tax,
        eligibleTax none c.included prior tax = eligibleTax none c prior tax := fun _ _ => by
      simp [eligibleTax, eligible]
    have hcompounding : ∀ prior tax,
        compounding c.included prior tax = compounding c prior tax := fun _ _ => by
      simp [compounding]
    simp only [hbase, heligible, hcompounding, ih, computedComponent_included, c.included_scale,
      c.included_ratePercent, map_bind, map_pure, bind_map_left, map_cons]

namespace ComputedTaxComponent

variable (k : ComputedTaxComponent)

@[simp] theorem included_taxCodeId : k.included.taxCodeId = k.taxCodeId := by
  unfold included
  split_ifs <;> rfl

@[simp] theorem included_taxAmount : k.included.taxAmount = k.taxAmount := by
  unfold included
  split_ifs <;> rfl

@[simp] theorem included_calculationType : k.included.calculationType = k.calculationType := by
  unfold included
  split_ifs <;> rfl

end ComputedTaxComponent

theorem taxSum_standard_included (computed : List ComputedTaxComponent) :
    taxSum (standardComponents (computed.map (·.included))) =
      taxSum (standardComponents computed) := by
  simp [taxSum, standardComponents, filter_map, Function.comp_def]

theorem not_overridden_of_calculateFrom {net priorEligibleTax priorTax : ℤ}
    {computed : List ComputedTaxComponent}
    (h : calculateFrom net none priorEligibleTax priorTax configs = .ok computed) :
    computed.any (·.overridden) = false := by
  induction configs generalizing priorEligibleTax priorTax computed with
  | nil =>
    cases h
    rfl
  | cons c rest ih =>
    rw [calculateFrom_cons_of_unadjusted rfl] at h
    simp only [bind_eq_ok, pure_eq_ok] at h
    obtain ⟨tax, -, _, -, k, hk, later, hlater, rfl⟩ := h
    rw [any_cons, ih hlater, (computedComponent_eq_ok hk).2.2.2.2, Bool.or_self]

end Pass

/-! ### The inverse -/

/-- A tax of 5 %. -/
def gst : TaxComponentConfig := { taxCodeId := "gst", sequence := 1, ratePercent := "5" }

/-- A tax of 9.975 % on the amount with the taxes before it, rounded to whole units. -/
def qst : TaxComponentConfig :=
  { taxCodeId := "qst", sequence := 2, ratePercent := "9.975", compoundOnPrevious := some true
    roundingScale := some 0 }

section Inverse

variable {components configs : List TaxComponentConfig} {net : ℤ} {line : ComputedLineTax}

theorem extractInclusiveNet_gross (hsound : ∀ c ∈ configs, c.Sound) (hat : Reproduces configs)
    (hnet : 0 ≤ net) : extractInclusiveNet (grossOf configs net) configs none = .ok net := by
  have hgross : 0 ≤ grossOf configs net := hnet.trans (le_grossOf hsound hnet)
  obtain ⟨extracted, hextract, -, hexact | ⟨below, -, hshort, hover, -⟩⟩ :=
    extractInclusiveNet_spec hsound hat hgross
  · rw [hextract]
    congr 1
    rcases lt_trichotomy extracted net with hlt | heq | hlt
    · exact absurd hexact (grossOf_lt hsound hlt).ne
    · exact heq
    · exact absurd hexact (grossOf_lt hsound hlt).ne'
  · -- No net lies between two neighbours.
    have := lt_of_grossOf_lt hsound hshort
    have := lt_of_grossOf_lt hsound hover
    omega

theorem exclusive_eq_ok (hnet : 0 ≤ net)
    (hexclusive : ∀ c ∈ components, c.isStandard = true → c.includesTax = false)
    (hline : computeLineTaxes net components {} = .ok line) :
    ∃ configs computed, validateConfig components = .ok configs ∧
      calculateFrom net none 0 0 configs = .ok computed ∧ line = lineOf net net computed := by
  rw [computeLineTaxes, if_neg hnet.not_gt] at hline
  obtain ⟨configs, hvalid, -⟩ := bind_eq_ok.mp hline
  by_cases hne : configs = []
  · subst hne
    refine ⟨[], [], hvalid, rfl, ?_⟩
    simp only [computePositive, hvalid, Checked.ok_bind, if_true, refuseIf, Bool.false_eq_true,
      if_false, pure_eq_ok] at hline
    exact hline.symm
  · obtain ⟨hsorted, hsound, -⟩ := validateConfig_eq_ok hvalid
    have hnone : configs.any (·.includesTax) = false := by
      rw [any_eq_false]
      intro c hc hincludes
      have hmem : c ∈ components := by
        rw [hsorted] at hc
        exact (mem_insertionSort _).mp hc
      exact absurd hincludes
        (Bool.eq_false_iff.mp (hexclusive c hmem ((hsound c hc).inclusive hincludes)))
    rw [computePositive_of_valid _ hvalid hne rfl, hnone] at hline
    simp only [Bool.false_eq_true, if_false, Checked.ok_bind, bind_eq_ok, pure_eq_ok] at hline
    obtain ⟨computed, hcomputed, rfl⟩ := hline
    exact ⟨configs, computed, hvalid, hcomputed, rfl⟩

/-- **Inclusive extraction inverts the exclusive calculation.** The net and standard taxes of an
exclusive line, entered as a price that includes them, give back the net, every tax, and no
adjustment. -/
theorem inclusive_inverts_exclusive (hnet : 0 ≤ net)
    (hexclusive : ∀ c ∈ components, c.isStandard = true → c.includesTax = false)
    (hline : computeLineTaxes net components {} = .ok line) :
    ∃ line', computeLineTaxes (net + taxSum (standardComponents line.components))
        (components.map (·.included)) {} = .ok line' ∧
      line'.netAmount = net ∧
      line'.components.map (fun k => (k.taxCodeId, k.taxAmount)) =
        line.components.map (fun k => (k.taxCodeId, k.taxAmount)) ∧
      line'.overridden = false := by
  obtain ⟨configs, computed, hvalid, hcomputed, rfl⟩ := exclusive_eq_ok hnet hexclusive hline
  have hvalid' := validateConfig_included hvalid
  obtain ⟨-, hsound', -⟩ := validateConfig_eq_ok hvalid'
  have hplain' : ∀ c ∈ configs.map (·.included), c.Plain := by
    intro d hd
    obtain ⟨c, hc, rfl⟩ := mem_map.mp hd
    exact c.included_plain.mpr (plain_of_calculateFrom hcomputed c hc)
  have hall : ∀ d ∈ configs.map (·.included), d.isStandard = true → d.includesTax = true := by
    intro d hd hstandard
    obtain ⟨c, hc, rfl⟩ := mem_map.mp hd
    exact c.included_includesTax (by simpa using hstandard)
  -- The pass over the included profile is the same pass.
  have hcomputed' : calculateFrom net none 0 0 (configs.map (·.included)) =
      .ok (computed.map (·.included)) := by
    rw [calculateFrom_included, hcomputed]
    rfl
  obtain ⟨computed', heq, hcomputes⟩ := exists_calculateFrom hsound' hplain' hnet (le_refl 0) 0
  obtain rfl : computed.map (·.included) = computed' := by
    rw [hcomputed'] at heq
    exact Except.ok.inj heq
  have hgross : net + taxSum (standardComponents computed) =
      grossOf (configs.map (·.included)) net := by
    rw [grossOf, ← hcomputes.standard, taxSum_standard_included]
  have hsame : (computed.map (·.included)).map (fun k => (k.taxCodeId, k.taxAmount)) =
      computed.map (fun k => (k.taxCodeId, k.taxAmount)) := by
    rw [map_map]
    exact map_congr_left fun k _ => by simp
  have hoverridden := not_overridden_of_calculateFrom hcomputed'
  have hgrossNonneg : 0 ≤ grossOf (configs.map (·.included)) net :=
    hnet.trans (le_grossOf hsound' hnet)
  suffices hline' : computePositive (grossOf (configs.map (·.included)) net)
      (components.map (·.included)) {} =
        .ok (lineOf (grossOf (configs.map (·.included)) net) net (computed.map (·.included))) by
    have hprice : computeLineTaxes (net + taxSum (standardComponents computed))
        (components.map (·.included)) {} =
          .ok (lineOf (grossOf (configs.map (·.included)) net) net (computed.map (·.included))) := by
      rw [hgross, computeLineTaxes, if_neg hgrossNonneg.not_gt, hline']
    exact ⟨_, hprice, rfl, hsame, hoverridden⟩
  by_cases hne : configs = []
  · subst hne
    cases hcomputed
    simp only [computePositive, hvalid', map_nil, Checked.ok_bind, if_true, refuseIf,
      Bool.false_eq_true, if_false, grossOf, standardTaxFrom, add_zero]
    rfl
  · rw [computePositive_of_valid _ hvalid' (by simpa using hne) rfl]
    cases hinclusive : (configs.map (·.included)).any (·.includesTax) with
    | false =>
      -- No component is standard, and nothing is added to the net.
      have hnone : (configs.map (·.included)).any (·.isStandard) = false := by
        rw [any_eq_false] at hinclusive ⊢
        exact fun c hc hstandard => hinclusive c hc (hall c hc hstandard)
      simp only [grossOf, standardTaxFrom_of_none hnone, add_zero, Bool.false_eq_true, if_false,
        Checked.ok_bind, hcomputed']
      rfl
    | true =>
      have hextract := extractInclusiveNet_gross hsound'
        (reproduces_of_plain hsound' hplain' hall) hnet
      simp only [if_true, hextract, Checked.ok_bind, hcomputed']
      simp only [reconcileIncluded, includedStandard_eq hall hcomputes, grossOf,
        add_sub_cancel_left, ne_eq, not_true_eq_false, if_false]
      rfl

/-- Two compounding taxes of different scales, on 100.0000. -/
theorem inclusive_inverts_exclusive_compounded :
    ∃ line line', computeLineTaxes 1000000 [gst, qst] {} = .ok line ∧
      computeLineTaxes (1000000 + taxSum (standardComponents line.components))
        ([gst, qst].map (·.included)) {} = .ok line' ∧
      line'.netAmount = 1000000 ∧
      line'.components.map (fun k => (k.taxCodeId, k.taxAmount)) =
        line.components.map (fun k => (k.taxCodeId, k.taxAmount)) ∧
      line'.overridden = false := by
  obtain ⟨line, hline, -⟩ : ∃ line, computeLineTaxes 1000000 [gst, qst] {} = .ok line ∧ true :=
    exists_of_any (by decide +kernel)
  exact ⟨line, _, hline, (inclusive_inverts_exclusive (by decide) (by decide) hline).choose_spec⟩

end Inverse

end OpenBooks
