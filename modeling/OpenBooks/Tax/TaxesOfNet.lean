import OpenBooks.Tax.PercentText

/-!
# The taxes of a net amount

From a net amount that is not negative, the components of a valid profile are a pass of
additions and roundings, and nothing of it can fail once every percentage is plain. This file
says what the pass comes to: `standardTaxFrom` is the sum of its standard taxes, which
grows with the net, and `lastStandardTaxFrom` the tax of the last standard component,
the one an override adjusts.

With an override the pass can fail in one more way: the standard components before the last may
already exceed it. `calculateFrom_override` says that this is the only way.
-/

namespace OpenBooks

open Checked List

/-! ### Sound and plain components -/

/-- The percentages of a component, to the reader that multiplies by them. -/
def TaxComponentConfig.Plain (c : TaxComponentConfig) : Prop :=
  (readPercent c.ratePercent).isSome = true ∧ (readPercent c.recoverable).isSome = true

instance (c : TaxComponentConfig) : Decidable c.Plain := inferInstanceAs (Decidable (_ ∧ _))

/-- What validation says of a component. -/
structure TaxComponentConfig.Sound (c : TaxComponentConfig) : Prop where
  rate : ∃ u, toUnits c.ratePercent.toList = some u ∧ 0 ≤ u
  recovery : ∃ u, toUnits c.recoverable.toList = some u ∧ 0 ≤ u
  scale : 0 ≤ c.scale ∧ c.scale ≤ 4
  inclusive : c.includesTax = true → c.isStandard = true

theorem sound_of_validateComponent {c : TaxComponentConfig}
    (h : validateComponent c = .ok ()) : c.Sound := by
  simp only [validateComponent, unitsOfText, bind_eq_ok, orRefuse_eq_ok, refuseIf_eq_ok] at h
  obtain ⟨rate, hrate, _, hneg, recovery, hrecovery, _, hrange, _, hscale, hinclusive⟩ := h
  exact
    { rate := ⟨rate, hrate, not_lt.mp hneg⟩
      recovery := ⟨recovery, hrecovery, by omega⟩
      scale := by omega
      inclusive := fun hincludes => by
        have hkind : c.kind = .standard := by
          by_contra hne
          exact hinclusive ⟨hincludes, hne⟩
        simp [TaxComponentConfig.isStandard, hkind] }

theorem sound_of_validateEach {configs : List TaxComponentConfig} {seen : List String}
    (h : validateEach seen configs = .ok ()) : ∀ c ∈ configs, c.Sound := by
  induction configs generalizing seen with
  | nil => simp
  | cons c rest ih =>
    simp only [validateEach, bind_eq_ok] at h
    obtain ⟨_, -, _, -, ⟨⟩, hc, hrest⟩ := h
    exact forall_mem_cons.mpr ⟨sound_of_validateComponent hc, ih hrest⟩

/-- What validation says of a profile: its components in sequence, each sound, and all
standard ones included if any component is. -/
theorem validateConfig_eq_ok {components configs : List TaxComponentConfig}
    (h : validateConfig components = .ok configs) :
    configs = components.insertionSort (fun a b => a.sequence ≤ b.sequence) ∧
      (∀ c ∈ configs, c.Sound) ∧
      (configs.any (·.includesTax) = true →
        ∀ c ∈ configs, c.isStandard = true → c.includesTax = true) := by
  simp only [validateConfig, bind_eq_ok, refuseIf_eq_ok, pure_eq_ok] at h
  obtain ⟨⟨⟩, heach, _, hmixed, rfl⟩ := h
  have hsound := sound_of_validateEach heach
  refine ⟨rfl, hsound, fun hany => ?_⟩
  generalize components.insertionSort (fun a b => a.sequence ≤ b.sequence) = configs at *
  obtain ⟨c, hc, hincludes⟩ := any_eq_true.mp hany
  have hcount : 0 < ((configs.filter (·.isStandard)).filter (·.includesTax)).length :=
    length_pos_of_mem
      (mem_filter.mpr ⟨mem_filter.mpr ⟨hc, (hsound c hc).inclusive hincludes⟩, hincludes⟩)
  have hall : ((configs.filter (·.isStandard)).filter (·.includesTax)).length =
      (configs.filter (·.isStandard)).length := by
    by_contra hne
    exact hmixed ⟨hcount, hne⟩
  intro d hd hstandard
  exact length_filter_eq_length_iff.mp hall d (mem_filter.mpr ⟨hd, hstandard⟩)

/-! ### One component -/

/-- The rate of a component, to the reader that multiplies by it. -/
def rateOf (c : TaxComponentConfig) : PlainPercent :=
  (readPercent c.ratePercent).getD ⟨0, 0, Nat.zero_le _⟩

def taxOn (c : TaxComponentConfig) (base : ℤ) : ℤ := mulPercent base (rateOf c) c.scale.toNat

section Component

variable {c : TaxComponentConfig}

theorem rateOf_nonneg (h : c.Sound) : 0 ≤ (rateOf c).units := by
  obtain ⟨u, hu, hnonneg⟩ := h.rate
  unfold rateOf
  cases hp : readPercent c.ratePercent with
  | none => exact le_refl _
  | some p => exact readPercent_nonneg hu hnonneg hp

theorem taxOn_mono (h : c.Sound) {x y : ℤ} (hxy : x ≤ y) : taxOn c x ≤ taxOn c y := by
  have hquantum := quantum_pos c.scale.toNat
  simp only [taxOn, mulPercent, roundDiv_eq_round]
  refine mul_le_mul_of_nonneg_right (HalfAway.round_mono (by positivity) ?_) hquantum.le
  exact mul_le_mul_of_nonneg_right hxy (rateOf_nonneg h)

@[simp] theorem taxOn_zero (c : TaxComponentConfig) : taxOn c 0 = 0 := by
  have hquantum := quantum_pos c.scale.toNat
  simp only [taxOn, mulPercent, roundDiv_eq_round, zero_mul]
  rw [HalfAway.round_zero (by positivity), zero_mul]

theorem taxOn_nonneg (h : c.Sound) {base : ℤ} (hbase : 0 ≤ base) : 0 ≤ taxOn c base := by
  have := taxOn_mono h hbase
  rwa [taxOn_zero] at this

theorem mulPercentOf_rate (hsound : c.Sound) (hplain : c.Plain) (base : ℤ) :
    mulPercentOf base c.ratePercent c.scale = .ok (taxOn c base) := by
  obtain ⟨p, hp⟩ := Option.isSome_iff_exists.mp hplain.1
  have hscale : ¬(c.scale < 0 ∨ 4 < c.scale) := by
    have := hsound.scale
    omega
  simp [mulPercentOf, refuseIf, hscale, hp, orRefuse, taxOn, rateOf, ok_bind, pure,
    Except.pure]

theorem exists_computedComponent (hsound : c.Sound)
    (hplain : (readPercent c.recoverable).isSome = true) (taxable tax : ℤ) (adjusted : Bool) :
    ∃ k, computedComponent c taxable tax adjusted = .ok k := by
  obtain ⟨p, hp⟩ := Option.isSome_iff_exists.mp hplain
  obtain ⟨rate, hrate, -⟩ := hsound.rate
  obtain ⟨recovery, hrecovery, -⟩ := hsound.recovery
  simp [computedComponent, mulPercentOf, unitsOfText, hp, hrate, hrecovery, orRefuse, refuseIf,
    ok_bind, pure, Except.pure]

theorem computedComponent_eq_ok {taxable tax : ℤ} {adjusted : Bool} {k : ComputedTaxComponent}
    (h : computedComponent c taxable tax adjusted = .ok k) :
    (readPercent c.recoverable).isSome = true ∧ k.taxAmount = tax ∧ k.calculationType = c.kind ∧
      k.priceIncludesTax = c.includesTax ∧ k.overridden = adjusted := by
  simp only [computedComponent, mulPercentOf, bind_eq_ok, orRefuse_eq_ok, pure_eq_ok] at h
  obtain ⟨_, ⟨_, -, p, hp, -⟩, _, -, _, -, rfl⟩ := h
  exact ⟨by simp [hp], rfl, rfl, rfl, rfl⟩

end Component

/-! ### The sums of a pass -/

/-- The standard taxes of a net, after compounding taxes of `priorTax`. -/
def standardTaxFrom (net : ℤ) : ℤ → List TaxComponentConfig → ℤ
  | _, [] => 0
  | priorTax, c :: rest =>
    (if c.isStandard then taxOn c (baseOf c net priorTax) else 0) +
      standardTaxFrom net (compounding c priorTax (taxOn c (baseOf c net priorTax))) rest

/-- The tax of the last standard component. -/
def lastStandardTaxFrom (net : ℤ) : ℤ → List TaxComponentConfig → ℤ
  | _, [] => 0
  | priorTax, c :: rest =>
    if rest.any (·.isStandard) then
      lastStandardTaxFrom net (compounding c priorTax (taxOn c (baseOf c net priorTax))) rest
    else if c.isStandard then taxOn c (baseOf c net priorTax)
    else 0

section Sums

variable {configs : List TaxComponentConfig}

theorem baseOf_mono (c : TaxComponentConfig) {net net' priorTax priorTax' : ℤ} (hnet : net ≤ net')
    (hprior : priorTax ≤ priorTax') : baseOf c net priorTax ≤ baseOf c net' priorTax' := by
  unfold baseOf
  split_ifs <;> omega

theorem compounding_mono (c : TaxComponentConfig) {priorTax priorTax' tax tax' : ℤ}
    (hprior : priorTax ≤ priorTax') (htax : tax ≤ tax') :
    compounding c priorTax tax ≤ compounding c priorTax' tax' := by
  unfold compounding
  split_ifs <;> omega

theorem baseOf_nonneg (c : TaxComponentConfig) {net priorTax : ℤ} (hnet : 0 ≤ net)
    (hprior : 0 ≤ priorTax) : 0 ≤ baseOf c net priorTax := by
  unfold baseOf
  split_ifs <;> omega

theorem compounding_nonneg (c : TaxComponentConfig) {priorTax tax : ℤ} (hprior : 0 ≤ priorTax)
    (htax : 0 ≤ tax) : 0 ≤ compounding c priorTax tax := by
  unfold compounding
  split_ifs <;> omega

/-- **The standard taxes grow with the net.** -/
theorem standardTaxFrom_mono (hsound : ∀ c ∈ configs, c.Sound) {net net' priorTax priorTax' : ℤ}
    (hnet : net ≤ net') (hprior : priorTax ≤ priorTax') :
    standardTaxFrom net priorTax configs ≤ standardTaxFrom net' priorTax' configs := by
  induction configs generalizing priorTax priorTax' with
  | nil => exact le_refl _
  | cons c rest ih =>
    obtain ⟨hc, hrest⟩ := forall_mem_cons.mp hsound
    have htax := taxOn_mono hc (baseOf_mono c hnet hprior)
    have hlater := ih hrest (compounding_mono c hprior htax)
    simp only [standardTaxFrom]
    split_ifs <;> omega

theorem standardTaxFrom_zero (configs : List TaxComponentConfig) :
    standardTaxFrom 0 0 configs = 0 := by
  induction configs with
  | nil => rfl
  | cons c rest ih => simp [standardTaxFrom, baseOf, compounding, ih]

theorem standardTaxFrom_nonneg (hsound : ∀ c ∈ configs, c.Sound) {net priorTax : ℤ}
    (hnet : 0 ≤ net) (hprior : 0 ≤ priorTax) : 0 ≤ standardTaxFrom net priorTax configs :=
  (standardTaxFrom_zero configs).ge.trans (standardTaxFrom_mono hsound hnet hprior)

theorem standardTaxFrom_of_none {net priorTax : ℤ}
    (h : configs.any (·.isStandard) = false) : standardTaxFrom net priorTax configs = 0 := by
  induction configs generalizing priorTax with
  | nil => rfl
  | cons c rest ih =>
    rw [any_cons, Bool.or_eq_false_iff] at h
    simp [standardTaxFrom, h.1, ih h.2]

end Sums

/-! ### A pass without an override -/

/-- What a pass over the components came to. -/
structure Computes (configs : List TaxComponentConfig) (standardTax : ℤ)
    (components : List ComputedTaxComponent) : Prop where
  nonneg : ∀ k ∈ components, 0 ≤ k.taxAmount
  standard : taxSum (standardComponents components) = standardTax
  flags : components.map (fun k => (k.calculationType, k.priceIncludesTax)) =
    configs.map fun c => (c.kind, c.includesTax)

section Passes

variable {c : TaxComponentConfig} {configs rest : List TaxComponentConfig}
  {k : ComputedTaxComponent} {components : List ComputedTaxComponent}

theorem Computes.cons {taxable tax standardTax : ℤ} {adjusted : Bool} (htax : 0 ≤ tax)
    (hk : computedComponent c taxable tax adjusted = .ok k)
    (h : Computes rest standardTax components) :
    Computes (c :: rest) ((if c.isStandard then tax else 0) + standardTax) (k :: components) := by
  obtain ⟨-, hamount, hkind, hincludes, -⟩ := computedComponent_eq_ok hk
  refine ⟨forall_mem_cons.mpr ⟨hamount.symm ▸ htax, h.nonneg⟩, ?_, ?_⟩
  · have hstandard : c.isStandard = decide (k.calculationType = .standard) := by
      rw [hkind]
      rfl
    rw [← h.standard, hstandard]
    unfold standardComponents taxSum
    by_cases hs : k.calculationType = .standard <;> simp [hs, hamount]
  · rw [map_cons, map_cons, h.flags, hkind, hincludes]

/-- The adjustment of a component, when there is none: without an override, or when it is not
eligible, or is not the last that is. -/
theorem calculateFrom_cons_of_unadjusted {net priorEligibleTax priorTax : ℤ}
    {override : Option TaxOverride}
    (h : override.filter (fun _ => eligible override c && !rest.any (eligible override)) = none) :
    calculateFrom net override priorEligibleTax priorTax (c :: rest) = (do
      let tax ← mulPercentOf (baseOf c net priorTax) c.ratePercent c.scale
      refuseIf (tax < 0) "manual tax override cannot make a component negative"
      let k ← computedComponent c (baseOf c net priorTax) tax false
      let later ← calculateFrom net override (eligibleTax override c priorEligibleTax tax)
        (compounding c priorTax tax) rest
      return k :: later) := by
  simp only [calculateFrom, h, Option.isSome_none]

theorem calculateFrom_cons_of_adjusted {net priorEligibleTax priorTax : ℤ} {o : TaxOverride}
    (hc : eligible (some o) c = true) (hrest : rest.any (eligible (some o)) = false) :
    calculateFrom net (some o) priorEligibleTax priorTax (c :: rest) = (do
      refuseIf (o.amount - priorEligibleTax < 0)
        "manual tax override cannot make a component negative"
      let k ← computedComponent c (baseOf c net priorTax) (o.amount - priorEligibleTax) true
      let later ← calculateFrom net (some o)
        (eligibleTax (some o) c priorEligibleTax (o.amount - priorEligibleTax))
        (compounding c priorTax (o.amount - priorEligibleTax)) rest
      return k :: later) := by
  simp only [calculateFrom, Option.filter, hc, hrest, Bool.not_false, Bool.and_self, if_true,
    Option.isSome_some, ok_bind]

/-- **A pass with nothing to adjust is a pass without an override.** -/
theorem calculateFrom_of_none_eligible {net priorEligibleTax priorEligibleTax' priorTax : ℤ}
    {override : Option TaxOverride}
    (h : override = none ∨ configs.any (eligible override) = false) :
    calculateFrom net override priorEligibleTax priorTax configs =
      calculateFrom net none priorEligibleTax' priorTax configs := by
  induction configs generalizing override priorEligibleTax priorEligibleTax' priorTax with
  | nil => rfl
  | cons c rest ih =>
    have hrest : override = none ∨ rest.any (eligible override) = false := by
      refine h.imp_right fun h => ?_
      rw [any_cons, Bool.or_eq_false_iff] at h
      exact h.2
    have hunadjusted : override.filter
        (fun _ => eligible override c && !rest.any (eligible override)) = none := by
      rcases h with rfl | h
      · rfl
      · rw [any_cons, Bool.or_eq_false_iff] at h
        cases override <;> simp [h.1]
    rw [calculateFrom_cons_of_unadjusted hunadjusted, calculateFrom_cons_of_unadjusted rfl]
    simp only [fun e p => @ih e 0 p override hrest,
      fun e p => @ih e 0 p none (.inl rfl)]

/-- **Without an override nothing fails**, once every percentage is plain. -/
theorem exists_calculateFrom (hsound : ∀ c ∈ configs, c.Sound) (hplain : ∀ c ∈ configs, c.Plain)
    {net priorTax : ℤ} (hnet : 0 ≤ net) (hprior : 0 ≤ priorTax) (priorEligibleTax : ℤ) :
    ∃ components, calculateFrom net none priorEligibleTax priorTax configs = .ok components ∧
      Computes configs (standardTaxFrom net priorTax configs) components := by
  induction configs generalizing priorEligibleTax priorTax with
  | nil => exact ⟨[], rfl, ⟨by simp, rfl, rfl⟩⟩
  | cons c rest ih =>
    obtain ⟨hc, hrest⟩ := forall_mem_cons.mp hsound
    obtain ⟨hp, hplains⟩ := forall_mem_cons.mp hplain
    have htax := taxOn_nonneg hc (baseOf_nonneg c hnet hprior)
    have hcompounding := compounding_nonneg c hprior htax
    obtain ⟨k, hk⟩ := exists_computedComponent hc hp.2 (baseOf c net priorTax)
      (taxOn c (baseOf c net priorTax)) false
    obtain ⟨components, hcomponents, hcomputes⟩ := ih hrest hplains hcompounding
      (eligibleTax none c priorEligibleTax (taxOn c (baseOf c net priorTax)))
    refine ⟨k :: components, ?_, .cons htax hk hcomputes⟩
    rw [calculateFrom_cons_of_unadjusted rfl]
    simp only [mulPercentOf_rate hc hp, ok_bind, refuseIf, if_neg htax.not_gt, hk,
      hcomponents]
    rfl

/-- A pass that returns has read every percentage. -/
theorem plain_of_calculateFrom {net priorEligibleTax priorTax : ℤ}
    (h : calculateFrom net none priorEligibleTax priorTax configs = .ok components) :
    ∀ c ∈ configs, c.Plain := by
  induction configs generalizing priorEligibleTax priorTax components with
  | nil => simp
  | cons c rest ih =>
    rw [calculateFrom_cons_of_unadjusted rfl] at h
    simp only [mulPercentOf, bind_eq_ok, orRefuse_eq_ok] at h
    obtain ⟨tax, ⟨_, -, p, hp, -⟩, _, -, k, hk, later, hlater, -⟩ := h
    exact forall_mem_cons.mpr ⟨⟨by simp [hp], (computedComponent_eq_ok hk).1⟩, ih hlater⟩

/-! ### A pass with an override -/

/-- **What an override can do**: when every standard component counts towards it and there is
one, the pass fails just when the standard taxes before the last exceed it, and otherwise the
standard taxes add up to it. -/
theorem calculateFrom_override {o : TaxOverride} (hsound : ∀ c ∈ configs, c.Sound)
    (hplain : ∀ c ∈ configs, c.Plain) (heligible : ∀ c ∈ configs, eligible (some o) c = c.isStandard)
    (hany : configs.any (·.isStandard) = true) {net priorTax : ℤ} (hnet : 0 ≤ net)
    (hprior : 0 ≤ priorTax) (priorEligibleTax : ℤ) :
    let left := o.amount - priorEligibleTax -
      (standardTaxFrom net priorTax configs - lastStandardTaxFrom net priorTax configs)
    (left < 0 → ∀ components,
        calculateFrom net (some o) priorEligibleTax priorTax configs ≠ .ok components) ∧
      (0 ≤ left → ∃ components,
        calculateFrom net (some o) priorEligibleTax priorTax configs = .ok components ∧
          Computes configs (o.amount - priorEligibleTax) components) := by
  induction configs generalizing priorEligibleTax priorTax with
  | nil => cases hany
  | cons c rest ih =>
    obtain ⟨hc, hrest⟩ := forall_mem_cons.mp hsound
    obtain ⟨hp, hplains⟩ := forall_mem_cons.mp hplain
    obtain ⟨he, heligibles⟩ := forall_mem_cons.mp heligible
    have hanyEligible : rest.any (eligible (some o)) = rest.any (·.isStandard) := by
      rw [Bool.eq_iff_iff, any_eq_true, any_eq_true]
      exact exists_congr fun d => and_congr_right fun hd => by rw [heligibles d hd]
    have htax := taxOn_nonneg hc (baseOf_nonneg c hnet hprior)
    cases hlast : rest.any (·.isStandard) with
    | true =>
      -- The component is taxed as without the override.
      have hcompounding := compounding_nonneg c hprior htax
      obtain ⟨k, hk⟩ := exists_computedComponent hc hp.2 (baseOf c net priorTax)
        (taxOn c (baseOf c net priorTax)) false
      obtain ⟨hfail, hpass⟩ := ih hrest hplains heligibles hlast hcompounding
        (eligibleTax (some o) c priorEligibleTax (taxOn c (baseOf c net priorTax)))
      have hunadjusted : (some o).filter
          (fun _ => eligible (some o) c && !rest.any (eligible (some o))) = none := by
        simp [hanyEligible, hlast]
      have hleft : o.amount - priorEligibleTax -
          (standardTaxFrom net priorTax (c :: rest) - lastStandardTaxFrom net priorTax (c :: rest)) =
          o.amount - eligibleTax (some o) c priorEligibleTax (taxOn c (baseOf c net priorTax)) -
            (standardTaxFrom net (compounding c priorTax (taxOn c (baseOf c net priorTax))) rest -
              lastStandardTaxFrom net
                (compounding c priorTax (taxOn c (baseOf c net priorTax))) rest) := by
        simp only [standardTaxFrom, lastStandardTaxFrom, hlast, if_true, eligibleTax, he]
        split_ifs <;> ring
      rw [calculateFrom_cons_of_unadjusted hunadjusted]
      simp only [mulPercentOf_rate hc hp, ok_bind, refuseIf, if_neg htax.not_gt, hk, hleft]
      constructor
      · intro hneg components hcomponents
        rw [bind_eq_ok] at hcomponents
        obtain ⟨later, hlater, -⟩ := hcomponents
        exact hfail hneg later hlater
      · intro hnonneg
        obtain ⟨later, hlater, hcomputes⟩ := hpass hnonneg
        refine ⟨k :: later, by rw [hlater]; rfl, ?_⟩
        have hcons := hcomputes.cons htax hk
        refine ⟨hcons.nonneg, hcons.standard.trans ?_, hcons.flags⟩
        simp only [eligibleTax, he]
        split_ifs <;> ring
    | false =>
      -- The component is the last standard one, and makes up the override.
      have hstandard : c.isStandard = true := by
        rw [any_cons, hlast, Bool.or_false] at hany
        exact hany
      have hleft : o.amount - priorEligibleTax -
          (standardTaxFrom net priorTax (c :: rest) - lastStandardTaxFrom net priorTax (c :: rest)) =
          o.amount - priorEligibleTax := by
        simp [standardTaxFrom, lastStandardTaxFrom, hlast, hstandard, standardTaxFrom_of_none hlast]
      rw [calculateFrom_cons_of_adjusted (by rw [he, hstandard]) (by rw [hanyEligible, hlast])]
      simp only [hleft, refuseIf]
      constructor
      · intro hneg components hcomponents
        rw [if_pos hneg] at hcomponents
        cases hcomponents
      · intro hnonneg
        have hcompounding := compounding_nonneg c hprior hnonneg
        obtain ⟨k, hk⟩ := exists_computedComponent hc hp.2 (baseOf c net priorTax)
          (o.amount - priorEligibleTax) true
        obtain ⟨later, hlater, hcomputes⟩ := exists_calculateFrom hrest hplains hnet hcompounding 0
        rw [standardTaxFrom_of_none hlast] at hcomputes
        rw [if_neg hnonneg.not_gt, ok_bind, hk, ok_bind,
          calculateFrom_of_none_eligible (.inr (hanyEligible.trans hlast)), hlater]
        refine ⟨k :: later, rfl, ?_⟩
        have hcons := hcomputes.cons hnonneg hk
        refine ⟨hcons.nonneg, hcons.standard.trans ?_, hcons.flags⟩
        simp [hstandard]

end Passes

end OpenBooks
