import OpenBooks.Tax.PriceOfNet

/-!
# Credits

A credit is calculated as the charge of the same magnitude, and every amount negated. It should
therefore be the mirror image of the charge, override and all: `OddAt`. Two things are
in the way (`oddAt_iff`).

* The sign of an override is checked on a credit before anyone has asked whether the line is
  overridden. A tax amount left behind on a line that no longer is refuses the credit, where the
  charge ignores it.
* Nothing has no sign. On an amount of zero an exclusive profile takes a positive override and
  refuses its mirror image.
-/

namespace OpenBooks

open Checked List

/-! ### Mirror images -/

def ComputedLineTax.negated (line : ComputedLineTax) : ComputedLineTax :=
  { line with
    inputAmount := -line.inputAmount, netAmount := -line.netAmount
    taxTotal := -line.taxTotal, total := -line.total
    components := line.components.map ComputedTaxComponent.negated }

def TaxOptions.negated (opts : TaxOptions) : TaxOptions :=
  { opts with taxAmount := opts.taxAmount.map (- ·) }

@[simp] theorem ComputedTaxComponent.negated_negated (k : ComputedTaxComponent) :
    k.negated.negated = k := by
  simp [negated]

@[simp] theorem ComputedLineTax.negated_negated (line : ComputedLineTax) :
    line.negated.negated = line := by
  simp [negated, Function.comp_def]

@[simp] theorem TaxOptions.negated_negated (opts : TaxOptions) : opts.negated.negated = opts := by
  simp [negated]

@[simp] theorem TaxOptions.negated_overridden (opts : TaxOptions) :
    opts.negated.overridden = opts.overridden := rfl

/-! ### The magnitude -/

variable {t : ℤ}

section Magnitude

variable {components configs : List TaxComponentConfig} {amount : ℤ} {opts : TaxOptions}
  {line : ComputedLineTax}

theorem computePositive_of_not_overridden (hopts : opts.overridden = false) :
    computePositive amount components opts = computePositive amount components {} := by
  simp [computePositive, hopts]

theorem inputAmount_of_computePositive (h : computePositive amount components opts = .ok line) :
    line.inputAmount = amount := by
  obtain ⟨configs, -, h⟩ := bind_eq_ok.mp h
  by_cases hne : configs = []
  · simp only [hne, if_true, bind_eq_ok, pure_eq_ok] at h
    obtain ⟨_, -, rfl⟩ := h
    rfl
  · simp only [hne, if_false, bind_eq_ok] at h
    obtain ⟨_, -, h⟩ := h
    split_ifs at h
    all_goals
      simp only [bind_eq_ok, pure_eq_ok] at h
      obtain ⟨net, -, computed, -, reconciled, -, rfl⟩ := h
      rfl

/-- **A credit** comes out when its override, if there is one, is not a charge, and the charge of
its magnitude comes out. -/
theorem computeLineTaxes_neg (hamount : 0 < amount) :
    computeLineTaxes (-amount) components opts = .ok line ↔
      (∀ t ∈ opts.taxAmount, t ≤ 0) ∧
        computePositive amount components opts.negated = .ok line.negated := by
  have hopts : computePositive amount components
      (if opts.overridden then
        { overridden := true, taxAmount := opts.taxAmount.map (- ·) } else opts) =
      computePositive amount components opts.negated := by
    cases hoverridden : opts.overridden with
    | true => simp [TaxOptions.negated, hoverridden]
    | false =>
      rw [if_neg Bool.false_ne_true, computePositive_of_not_overridden hoverridden,
        computePositive_of_not_overridden (opts.negated_overridden.trans hoverridden)]
  rw [computeLineTaxes, if_pos (neg_lt_zero.mpr hamount), neg_neg, hopts]
  simp only [bind_eq_ok, refuseIf_eq_ok, pure_eq_ok]
  constructor
  · rintro ⟨_, hsign, magnitude, hmagnitude, rfl⟩
    refine ⟨fun t ht => not_lt.mp fun hpos => hsign ⟨t, ht, hpos⟩, ?_⟩
    have hinput := inputAmount_of_computePositive hmagnitude
    rw [hmagnitude, ← hinput]
    exact congrArg _ (magnitude.negated_negated.symm)
  · rintro ⟨hsign, hmagnitude⟩
    refine ⟨(), ?_, line.negated, hmagnitude, ?_⟩
    · rintro ⟨t, ht, hpos⟩
      exact absurd hpos (hsign t ht).not_gt
    · rw [← inputAmount_of_computePositive hmagnitude]
      exact line.negated_negated

/-! ### Overrides below nothing -/

variable {computed : List ComputedTaxComponent} {net : ℤ}

/-- The last eligible component is never left with less than nothing. -/
theorem le_of_calculateFrom_override {priorEligibleTax priorTax : ℤ} {o : TaxOverride}
    (hany : configs.any (eligible (some o)) = true)
    (h : calculateFrom net (some o) priorEligibleTax priorTax configs = .ok computed) :
    priorEligibleTax ≤ o.amount := by
  induction configs generalizing priorEligibleTax priorTax computed with
  | nil => cases hany
  | cons c rest ih =>
    cases hlast : rest.any (eligible (some o)) with
    | true =>
      have hunadjusted : (some o).filter
          (fun _ => eligible (some o) c && !rest.any (eligible (some o))) = none := by
        simp [hlast]
      rw [calculateFrom_cons_of_unadjusted hunadjusted] at h
      simp only [bind_eq_ok, refuseIf_eq_ok] at h
      obtain ⟨tax, -, _, htax, k, -, later, hlater, -⟩ := h
      have := ih hlast hlater
      unfold eligibleTax at this
      split_ifs at this <;> omega
    | false =>
      have hc : eligible (some o) c = true := by
        rw [any_cons, hlast, Bool.or_false] at hany
        exact hany
      rw [calculateFrom_cons_of_adjusted hc hlast] at h
      simp only [bind_eq_ok, refuseIf_eq_ok] at h
      obtain ⟨_, htax, -⟩ := h
      omega

theorem override_of_computePositive (hopts : opts.overridden = true)
    (h : computePositive amount components opts = .ok line) :
    ∃ configs t, validateConfig components = .ok configs ∧ configs ≠ [] ∧
      opts.taxAmount = some t := by
  obtain ⟨configs, hvalid, h⟩ := bind_eq_ok.mp h
  by_cases hne : configs = []
  · simp [hne, hopts, refuseIf, bind, Except.bind] at h
  · cases ht : opts.taxAmount with
    | none => simp [hne, hopts, ht, refuseIf, bind, Except.bind] at h
    | some t => exact ⟨configs, t, hvalid, hne, rfl⟩

theorem computePositive_of_overridden (amount : ℤ)
    (hvalid : validateConfig components = .ok configs) (hne : configs ≠ [])
    (hopts : opts.overridden = true) (ht : opts.taxAmount = some t) :
    computePositive amount components opts = (do
      let netAmount ←
        if configs.any (·.includesTax) then extractInclusiveNet amount configs (some t)
        else .ok amount
      let computed ← calculateFromNet netAmount configs (some { amount := t })
      return lineOf amount netAmount computed) := by
  simp only [computePositive, hvalid, Checked.ok_bind, hne, if_false, hopts, ht, refuseIf, if_true,
    reduceCtorEq, and_false, Option.map_some]

/-- **An override below nothing** never comes out. -/
theorem override_nonneg (hopts : opts.overridden = true)
    (h : computePositive amount components opts = .ok line) : ∀ t ∈ opts.taxAmount, 0 ≤ t := by
  obtain ⟨configs, t, hvalid, hne, ht⟩ := override_of_computePositive hopts h
  rw [computePositive_of_overridden amount hvalid hne hopts ht] at h
  have hpass : ∃ net computed,
      calculateFromNet net configs (some { amount := t }) = .ok computed := by
    split_ifs at h
    all_goals
      simp only [bind_eq_ok] at h
      obtain ⟨net, -, computed, hcomputed, -⟩ := h
      exact ⟨net, computed, hcomputed⟩
  obtain ⟨net, computed, hcomputed⟩ := hpass
  simp only [calculateFromNet, bind_eq_ok, refuseIf_eq_ok, Option.isSome_some, true_and,
    Bool.not_eq_false] at hcomputed
  obtain ⟨_, hany, hcomputed⟩ := hcomputed
  intro u hu
  obtain rfl : t = u := by simpa [ht] using hu
  exact le_of_calculateFrom_override hany hcomputed

/-! ### Nothing -/

theorem mulPercentOf_zero {percent : String} {decimalPlaces product : ℤ}
    (h : mulPercentOf 0 percent decimalPlaces = .ok product) : product = 0 := by
  simp only [mulPercentOf, bind_eq_ok, orRefuse_eq_ok, pure_eq_ok] at h
  obtain ⟨_, -, p, -, rfl⟩ := h
  have hquantum := quantum_pos decimalPlaces.toNat
  simp only [mulPercent, roundDiv_eq_round, zero_mul]
  rw [HalfAway.round_zero (by positivity), zero_mul]

theorem negated_of_computedComponent_zero {c : TaxComponentConfig} {adjusted : Bool}
    {k : ComputedTaxComponent} (h : computedComponent c 0 0 adjusted = .ok k) :
    k.negated = k := by
  simp only [computedComponent, bind_eq_ok, pure_eq_ok] at h
  obtain ⟨recoverable, hrecoverable, _, -, _, -, rfl⟩ := h
  obtain rfl := mulPercentOf_zero hrecoverable
  rfl

/-- **The taxes of nothing** are nothing, unless an override says otherwise. -/
theorem negated_of_calculateFrom_zero {override : Option TaxOverride}
    (hoverride : ∀ o ∈ override, o.amount = 0)
    (h : calculateFrom 0 override 0 0 configs = .ok computed) :
    computed.map ComputedTaxComponent.negated = computed := by
  induction configs generalizing computed with
  | nil =>
    cases h
    rfl
  | cons c rest ih =>
    have hbase : baseOf c 0 0 = 0 := by simp [baseOf]
    have htaxed : ∃ tax adjusted k later, tax = 0 ∧ computedComponent c 0 tax adjusted = .ok k ∧
        calculateFrom 0 override (eligibleTax override c 0 tax) (compounding c 0 tax) rest =
          .ok later ∧ k :: later = computed := by
      simp only [calculateFrom, hbase] at h
      split at h
      · rename_i o hadjusted
        simp only [bind_eq_ok, pure_eq_ok, Except.ok.injEq] at h
        obtain ⟨tax, rfl, _, -, k, hk, later, hlater, heq⟩ := h
        have hzero := hoverride o ((Option.filter_eq_some_iff.mp hadjusted).1)
        exact ⟨_, _, k, later, by omega, hk, hlater, heq⟩
      · simp only [bind_eq_ok, pure_eq_ok] at h
        obtain ⟨tax, htax, _, -, k, hk, later, hlater, heq⟩ := h
        exact ⟨tax, _, k, later, mulPercentOf_zero htax, hk, hlater, heq⟩
    obtain ⟨tax, adjusted, k, later, rfl, hk, hlater, rfl⟩ := htaxed
    have heligible : eligibleTax override c 0 0 = 0 := by simp [eligibleTax]
    have hcompounding : compounding c 0 0 = 0 := by simp [compounding]
    rw [heligible, hcompounding] at hlater
    rw [map_cons, negated_of_computedComponent_zero hk, ih hlater]

variable {override : Option ℤ} {target : ℤ}

theorem searchNet_exact {turns : ℕ} {low high : ℤ}
    (h : searchNet configs override target turns low high = .ok (.exact net)) :
    low ≤ net ∧ net ≤ high ∧ ∃ components, componentsAt configs override net = .ok (some components) ∧
      net + includedStandardTax components = target := by
  induction turns generalizing low high with
  | zero => cases h
  | succ turns ih =>
    rw [searchNet] at h
    split_ifs at h with hinterval
    · have hmid : low ≤ (low + high) / 2 ∧ (low + high) / 2 ≤ high := by omega
      obtain ⟨found, hfound, h⟩ := bind_eq_ok.mp h
      cases found with
      | none =>
        obtain ⟨hlow, hhigh, hnet⟩ := ih h
        exact ⟨hlow, by omega, hnet⟩
      | some components =>
        dsimp only at h
        split_ifs at h with hexact
        · obtain rfl : (low + high) / 2 = net := by simpa using h
          exact ⟨hmid.1, hmid.2, components, hfound, hexact⟩
        · obtain ⟨hlow, hhigh, hnet⟩ := ih h
          exact ⟨by omega, hhigh, hnet⟩
        · obtain ⟨hlow, hhigh, hnet⟩ := ih h
          exact ⟨hlow, by omega, hnet⟩
    · cases h

variable {best best' : ℤ × Option ℤ}

theorem closerNet_eq {candidate : ℤ}
    (h : closerNet configs override target best candidate = .ok best') :
    best' = best ∨ ∃ components, componentsAt configs override candidate = .ok (some components) ∧
      best' = (candidate, some |candidate + includedStandardTax components - target|) := by
  obtain ⟨found, hfound, h⟩ := bind_eq_ok.mp h
  cases found with
  | none => exact .inl (pure_eq_ok.mp h).symm
  | some components =>
    dsimp only at h
    split at h
    · exact .inr ⟨components, hfound, (pure_eq_ok.mp h).symm⟩
    · split_ifs at h
      · exact .inr ⟨components, hfound, (pure_eq_ok.mp h).symm⟩
      · exact .inl (pure_eq_ok.mp h).symm

theorem closest_induction {p : ℤ × Option ℤ → Prop} {candidates : List ℤ} (hbest : p best)
    (hstep : ∀ u ∈ candidates, ∀ components,
      componentsAt configs override u = .ok (some components) →
      p (u, some |u + includedStandardTax components - target|))
    (h : candidates.foldlM (closerNet configs override target) best = .ok best') : p best' := by
  induction candidates generalizing best with
  | nil =>
    obtain rfl := pure_eq_ok.mp h
    exact hbest
  | cons u rest ih =>
    obtain ⟨hu, hrest⟩ := forall_mem_cons.mp hstep
    rw [foldlM_cons, bind_eq_ok] at h
    obtain ⟨next, hnext, h⟩ := h
    refine ih ?_ hrest h
    rcases closerNet_eq hnext with rfl | ⟨components, hcomponents, rfl⟩
    · exact hbest
    · exact hu components hcomponents

theorem mem_candidates {high low u : ℤ}
    (h : u ∈ [high, low].filter fun u => 0 ≤ u ∧ u ≤ amount) : 0 ≤ u ∧ u ≤ amount := by
  simpa using (mem_filter.mp h).2

/-- **The extracted net** is between nothing and the amount. -/
theorem extractInclusiveNet_bounds (h : extractInclusiveNet amount configs override = .ok net) :
    0 ≤ net ∧ net ≤ amount := by
  simp only [extractInclusiveNet, bind_eq_ok, refuseIf_eq_ok] at h
  obtain ⟨_, hamount, found, hfound, h⟩ := h
  cases found with
  | exact exact =>
    obtain rfl := pure_eq_ok.mp h
    obtain ⟨hlow, hhigh, -⟩ := searchNet_exact hfound
    exact ⟨hlow, hhigh⟩
  | between high low =>
    simp only [bind_eq_ok, pure_eq_ok] at h
    obtain ⟨best, hbest, _, -, rfl⟩ := h
    refine closest_induction (p := fun best => 0 ≤ best.1 ∧ best.1 ≤ amount) ?_
      (fun u hu _ _ => mem_candidates hu) hbest
    cases hhead : ([high, low].filter fun u => 0 ≤ u ∧ u ≤ amount).head? with
    | none => exact ⟨le_refl 0, not_lt.mp hamount⟩
    | some u => exact mem_candidates (List.mem_of_mem_head? hhead)

theorem taxSum_negated (computed : List ComputedTaxComponent) :
    taxSum (computed.map ComputedTaxComponent.negated) = -taxSum computed := by
  induction computed with
  | nil => rfl
  | cons k rest ih =>
    simp only [taxSum, map_cons, sum_cons, ComputedTaxComponent.negated] at ih ⊢
    rw [ih, neg_add]

theorem filter_negated (kind : TaxCalculationType) (computed : List ComputedTaxComponent) :
    (computed.map ComputedTaxComponent.negated).filter (·.calculationType = kind) =
      (computed.filter (·.calculationType = kind)).map ComputedTaxComponent.negated := by
  rw [filter_map]
  rfl

theorem lineOf_negated (amount net : ℤ) (computed : List ComputedTaxComponent) :
    (lineOf amount net computed).negated =
      lineOf (-amount) (-net) (computed.map ComputedTaxComponent.negated) := by
  have hoverridden : (computed.map ComputedTaxComponent.negated).any (·.overridden) =
      computed.any (·.overridden) := by
    rw [any_map]
    rfl
  simp only [lineOf, ComputedLineTax.negated, standardComponents, filter_negated, taxSum_negated,
    hoverridden, ComputedLineTax.mk.injEq, true_and, and_true]
  omega

theorem negated_lineOf_zero {override : Option TaxOverride}
    (hoverride : ∀ o ∈ override, o.amount = 0)
    (h : calculateFrom 0 override 0 0 configs = .ok computed) :
    (lineOf 0 0 computed).negated = lineOf 0 0 computed := by
  rw [lineOf_negated, negated_of_calculateFrom_zero hoverride h, neg_zero]

theorem calculateFrom_of_calculateFromNet {override : Option TaxOverride}
    (h : calculateFromNet net configs override = .ok computed) :
    calculateFrom net override 0 0 configs = .ok computed := by
  obtain ⟨_, -, h⟩ := bind_eq_ok.mp h
  exact h

/-- **A line of nothing** is its own mirror image, unless an override says otherwise. -/
theorem negated_of_computePositive_zero
    (hopts : opts.overridden = true → ∀ t ∈ opts.taxAmount, t = 0)
    (h : computePositive 0 components opts = .ok line) : line.negated = line := by
  cases hoverridden : opts.overridden with
  | true =>
    obtain ⟨configs, t, hvalid, hne, ht⟩ := override_of_computePositive hoverridden h
    have hzero : ∀ o ∈ some ({ amount := t } : TaxOverride), o.amount = 0 := by
      rintro o ⟨⟩
      exact hopts hoverridden t ht
    rw [computePositive_of_overridden 0 hvalid hne hoverridden ht] at h
    split_ifs at h
    · simp only [bind_eq_ok, pure_eq_ok] at h
      obtain ⟨net, hnet, computed, hcomputed, rfl⟩ := h
      obtain rfl : net = 0 := by
        have := extractInclusiveNet_bounds hnet
        omega
      exact negated_lineOf_zero hzero (calculateFrom_of_calculateFromNet hcomputed)
    · simp only [bind_eq_ok, pure_eq_ok] at h
      obtain ⟨net, ⟨⟩, computed, hcomputed, rfl⟩ := h
      exact negated_lineOf_zero hzero (calculateFrom_of_calculateFromNet hcomputed)
  | false =>
    obtain ⟨configs, hvalid, -⟩ := bind_eq_ok.mp h
    by_cases hne : configs = []
    · subst hne
      simp only [computePositive, hvalid, Checked.ok_bind, if_true, bind_eq_ok, pure_eq_ok] at h
      obtain ⟨_, -, rfl⟩ := h
      rw [lineOf_negated, neg_zero]
      rfl
    · rw [computePositive_of_valid 0 hvalid hne hoverridden] at h
      split_ifs at h
      · simp only [bind_eq_ok, pure_eq_ok] at h
        obtain ⟨net, hnet, computed, hcomputed, reconciled, hreconciled, rfl⟩ := h
        obtain rfl : net = 0 := by
          have := extractInclusiveNet_bounds hnet
          omega
        unfold reconcileIncluded at hreconciled
        split_ifs at hreconciled
        · exact negated_lineOf_zero (by simp) (calculateFrom_of_calculateFromNet hreconciled)
        · cases hreconciled
          exact negated_lineOf_zero (by simp) hcomputed
      · simp only [bind_eq_ok, pure_eq_ok] at h
        obtain ⟨net, ⟨⟩, computed, hcomputed, reconciled, ⟨⟩, rfl⟩ := h
        exact negated_lineOf_zero (by simp) hcomputed

/-! ### An override of nothing -/

/-- Every percentage is plain, but perhaps the rate of the last standard component, which an
override replaces. -/
def PlainButLast : List TaxComponentConfig → Prop
  | [] => True
  | c :: rest =>
    (readPercent c.recoverable).isSome = true ∧
      ((c.isStandard = true ∧ rest.any (·.isStandard) = false) ∨
        (readPercent c.ratePercent).isSome = true) ∧
      PlainButLast rest

theorem plainButLast_iff_of_none (h : configs.any (·.isStandard) = false) :
    PlainButLast configs ↔ ∀ c ∈ configs, c.Plain := by
  induction configs with
  | nil => simp [PlainButLast]
  | cons c rest ih =>
    rw [any_cons, Bool.or_eq_false_iff] at h
    simp only [PlainButLast, h.1, Bool.false_eq_true, false_and, false_or, ih h.2,
      forall_mem_cons, TaxComponentConfig.Plain]
    tauto

variable (hsound : ∀ c ∈ configs, c.Sound)

include hsound

/-- **An override of nothing**, on a net of nothing, comes out just when the percentages it does
not replace are plain. -/
theorem exists_override_of_zero_iff (hany : configs.any (·.isStandard) = true) (ht : 0 ≤ t) :
    (∃ computed, calculateFrom 0 (some { amount := t }) 0 0 configs = .ok computed) ↔
      PlainButLast configs := by
  induction configs with
  | nil => cases hany
  | cons c rest ih =>
    obtain ⟨hc, hrest⟩ := forall_mem_cons.mp hsound
    have heligible : ∀ d, eligible (some { amount := t }) d = d.isStandard := fun d => by
      simp [eligible]
    have hbase : baseOf c 0 0 = 0 := by simp [baseOf]
    have hanyEligible : rest.any (eligible (some { amount := t })) = rest.any (·.isStandard) :=
      congrArg rest.any (funext heligible)
    cases hlast : rest.any (·.isStandard) with
    | true =>
      -- The component is taxed as without the override: nothing.
      have hunadjusted : (some ({ amount := t } : TaxOverride)).filter
          (fun _ => eligible (some { amount := t }) c &&
            !rest.any (eligible (some { amount := t }))) = none := by
        simp [hanyEligible, hlast]
      have hprior : eligibleTax (some { amount := t }) c 0 0 = 0 := by simp [eligibleTax]
      have hcompounding : compounding c 0 0 = 0 := by simp [compounding]
      rw [calculateFrom_cons_of_unadjusted hunadjusted, hbase]
      constructor
      · rintro ⟨computed, h⟩
        simp only [bind_eq_ok] at h
        obtain ⟨tax, htax, _, -, k, hk, later, hlater, -⟩ := h
        obtain rfl := mulPercentOf_zero htax
        rw [hprior, hcompounding] at hlater
        simp only [mulPercentOf, bind_eq_ok, orRefuse_eq_ok] at htax
        obtain ⟨_, -, p, hp, -⟩ := htax
        exact ⟨(computedComponent_eq_ok hk).1, .inr (by simp [hp]),
          (ih hrest hlast).mp ⟨later, hlater⟩⟩
      · rintro ⟨hrecovery, hrate, hlater⟩
        have hplain : c.Plain := by
          refine ⟨hrate.resolve_left ?_, hrecovery⟩
          rintro ⟨-, hnone⟩
          rw [hlast] at hnone
          cases hnone
        obtain ⟨k, hk⟩ := exists_computedComponent hc hrecovery 0 0 false
        obtain ⟨later, hlater⟩ := (ih hrest hlast).mpr hlater
        refine ⟨k :: later, ?_⟩
        simp only [mulPercentOf_rate hc hplain, taxOn_zero, Checked.ok_bind, refuseIf,
          lt_irrefl, if_false, hk, hprior, hcompounding, hlater]
        rfl
    | false =>
      -- The component is the last standard one, and its rate is not read.
      have hstandard : c.isStandard = true := by
        rw [any_cons, hlast, Bool.or_false] at hany
        exact hany
      rw [calculateFrom_cons_of_adjusted (by rw [heligible, hstandard])
        (by rw [hanyEligible, hlast]), hbase, PlainButLast, plainButLast_iff_of_none hlast]
      have hunread : ∀ prior compounded,
          calculateFrom 0 (some { amount := t }) prior compounded rest =
            calculateFrom 0 none 0 compounded rest := fun _ _ =>
        calculateFrom_of_none_eligible (.inr (hanyEligible.trans hlast))
      simp only [hunread, sub_zero]
      have hcompounding : 0 ≤ compounding c 0 t := compounding_nonneg c le_rfl (by omega)
      constructor
      · rintro ⟨computed, h⟩
        simp only [bind_eq_ok] at h
        obtain ⟨_, -, k, hk, later, hlater, -⟩ := h
        exact ⟨(computedComponent_eq_ok hk).1, .inl ⟨hstandard, hlast⟩,
          plain_of_calculateFrom hlater⟩
      · rintro ⟨hrecovery, -, hplains⟩
        obtain ⟨k, hk⟩ := exists_computedComponent hc hrecovery 0 t true
        obtain ⟨later, hlater, -⟩ :=
          exists_calculateFrom hrest hplains (le_refl 0) hcompounding 0
        refine ⟨k :: later, ?_⟩
        simp only [refuseIf, if_neg ht.not_gt, Checked.ok_bind, hk, hlater]
        rfl

theorem includedStandardTax_of_override
    (hall : ∀ c ∈ configs, c.isStandard = true → c.includesTax = true)
    (hany : configs.any (·.isStandard) = true) (hnet : 0 ≤ net)
    (h : componentsAt configs (some t) net = .ok (some computed)) :
    includedStandardTax computed = t := by
  simp only [componentsAt, bind_eq_ok] at h
  obtain ⟨original, horiginal, _, -, h⟩ := h
  have hplain := plain_of_calculateFrom (calculateFrom_of_calculateFromNet horiginal)
  split_ifs at h
  · cases h
  · obtain ⟨computed', hcomputed, heq⟩ := map_eq_ok.mp h
    obtain rfl := Option.some.inj heq
    have hcomputed := calculateFrom_of_calculateFromNet hcomputed
    obtain ⟨hfail, hpass⟩ := calculateFrom_override hsound hplain
      (fun c _ => show eligible (some { amount := t }) c = c.isStandard by simp [eligible])
      hany hnet (le_refl 0) 0
    have hleft := not_lt.mp fun hneg => hfail hneg _ hcomputed
    obtain ⟨computed, hpassed, hcomputes⟩ := hpass hleft
    obtain rfl : computed = computed' := by
      rw [hcomputed] at hpassed
      exact (Except.ok.inj hpassed).symm
    rw [includedStandard_eq hall hcomputes]
    exact sub_zero t

theorem extractInclusiveNet_of_zero
    (hall : ∀ c ∈ configs, c.isStandard = true → c.includesTax = true)
    (hany : configs.any (·.isStandard) = true) (ht : 0 < t) (net : ℤ) :
    extractInclusiveNet 0 configs (some t) ≠ .ok net := by
  intro h
  simp only [extractInclusiveNet, bind_eq_ok, refuseIf_eq_ok] at h
  obtain ⟨_, -, found, hfound, h⟩ := h
  cases found with
  | exact exact =>
    obtain ⟨hlow, -, computed, hcomputed, hexact⟩ := searchNet_exact hfound
    rw [includedStandardTax_of_override hsound hall hany hlow hcomputed] at hexact
    omega
  | between high low =>
    simp only [bind_eq_ok, refuseIf_eq_ok, Option.isSome_some, true_and, not_not] at h
    obtain ⟨best, hbest, _, hzero, -⟩ := h
    have hfar : ∀ d ∈ best.2, 0 < d := by
      refine closest_induction (p := fun best => ∀ d ∈ best.2, 0 < d) (by simp) ?_ hbest
      rintro u hu computed hcomputed d ⟨⟩
      have hu := mem_candidates hu
      rw [includedStandardTax_of_override hsound hall hany hu.1 hcomputed, sub_zero]
      exact abs_pos.mpr (by omega)
    exact absurd (hfar 0 hzero) (lt_irrefl 0)

end Magnitude

/-! ### The mirror image of a line -/

/-- The line of the mirrored amount and override is the mirrored line, and an amount that
overrides nothing is not looked at. -/
def OddAt (inputAmount : ℤ) (components : List TaxComponentConfig) (opts : TaxOptions) : Prop :=
  (∀ line, computeLineTaxes inputAmount components opts = .ok line ↔
    computeLineTaxes (-inputAmount) components opts.negated = .ok line.negated) ∧
  (opts.overridden = false → ∀ line, computeLineTaxes inputAmount components opts = .ok line ↔
    computeLineTaxes inputAmount components { opts with taxAmount := none } = .ok line)

/-- The charge of a magnitude comes out without an override. -/
def Computable (components : List TaxComponentConfig) (amount : ℤ) : Prop :=
  ∃ configs, validateConfig components = .ok configs ∧ (∀ c ∈ configs, c.Plain) ∧
    (configs.any (·.includesTax) = true → Reconcilable configs amount)

/-- An exclusive profile with a standard component, for an override to make up. -/
def Adjustable (components : List TaxComponentConfig) : Prop :=
  ∃ configs, validateConfig components = .ok configs ∧ configs.any (·.isStandard) = true ∧
    configs.any (·.includesTax) = false ∧ PlainButLast configs

/-- A tax amount that overrides nothing, of the sign opposite to the amount it was left on. -/
def StaleTaxAmount (inputAmount : ℤ) (components : List TaxComponentConfig) (opts : TaxOptions) :
    Prop :=
  opts.overridden = false ∧ (∃ t ∈ opts.taxAmount, t * inputAmount < 0) ∧
    Computable components |inputAmount|

/-- A tax of something, made up on an amount of nothing. -/
def TaxOfNothing (inputAmount : ℤ) (components : List TaxComponentConfig) (opts : TaxOptions) :
    Prop :=
  opts.overridden = true ∧ inputAmount = 0 ∧ (∃ t ∈ opts.taxAmount, t ≠ 0) ∧
    Adjustable components

section Symmetry

variable {components : List TaxComponentConfig} {amount : ℤ} {opts : TaxOptions}

theorem computable_iff (hamount : 0 ≤ amount) (hopts : opts.overridden = false) :
    (∃ line, computePositive amount components opts = .ok line) ↔
      Computable components amount := by
  constructor
  · rintro ⟨line, hline⟩
    obtain ⟨configs, hvalid, -⟩ := bind_eq_ok.mp hline
    exact ⟨configs, hvalid, (exists_computePositive_iff hvalid hamount hopts).mp ⟨line, hline⟩⟩
  · rintro ⟨configs, hvalid, h⟩
    exact (exists_computePositive_iff hvalid hamount hopts).mpr h

theorem adjustable_iff (components : List TaxComponentConfig) (hopts : opts.overridden = true)
    (ht : opts.taxAmount = some t) (hpos : 0 < t) :
    (∃ line, computePositive 0 components opts = .ok line) ↔ Adjustable components := by
  constructor
  · rintro ⟨line, h⟩
    obtain ⟨configs, t', hvalid, hne, ht'⟩ := override_of_computePositive hopts h
    obtain rfl : t = t' := Option.some.inj (ht.symm.trans ht')
    obtain ⟨-, hsound, hmixed⟩ := validateConfig_eq_ok hvalid
    rw [computePositive_of_overridden 0 hvalid hne hopts ht] at h
    split_ifs at h with hinclusive
    · simp only [bind_eq_ok] at h
      obtain ⟨net, hnet, -⟩ := h
      obtain ⟨c, hc, hincludes⟩ := any_eq_true.mp hinclusive
      have hany := any_eq_true.mpr ⟨c, hc, (hsound c hc).inclusive hincludes⟩
      exact absurd hnet (extractInclusiveNet_of_zero hsound (hmixed hinclusive) hany hpos net)
    · simp only [bind_eq_ok] at h
      obtain ⟨net, ⟨⟩, computed, hcomputed, -⟩ := h
      have hany : configs.any (·.isStandard) = true := by
        simp only [calculateFromNet, bind_eq_ok, refuseIf_eq_ok, Option.isSome_some, true_and,
          Bool.not_eq_false] at hcomputed
        obtain ⟨_, heligible, -⟩ := hcomputed
        simpa [eligible] using heligible
      exact ⟨configs, hvalid, hany, Bool.eq_false_iff.mpr hinclusive,
        (exists_override_of_zero_iff hsound hany hpos.le).mp
          ⟨computed, calculateFrom_of_calculateFromNet hcomputed⟩⟩
  · rintro ⟨configs, hvalid, hany, hexclusive, hplain⟩
    obtain ⟨-, hsound, -⟩ := validateConfig_eq_ok hvalid
    have hne : configs ≠ [] := by
      rintro rfl
      cases hany
    obtain ⟨computed, hcomputed⟩ := (exists_override_of_zero_iff hsound hany hpos.le).mpr hplain
    have heligible : configs.any (eligible (some { amount := t })) = true := by
      simpa [eligible] using hany
    refine ⟨lineOf 0 0 computed, ?_⟩
    rw [computePositive_of_overridden 0 hvalid hne hopts ht]
    simp only [hexclusive, Bool.false_eq_true, if_false, Checked.ok_bind, calculateFromNet,
      refuseIf, heligible, Bool.true_eq_false, and_false, hcomputed]
    rfl

variable {inputAmount : ℤ}

theorem mirrored_iff :
    (∀ line, computeLineTaxes inputAmount components opts = .ok line ↔
      computeLineTaxes (-inputAmount) components opts.negated = .ok line.negated) ↔
    ∀ line, computeLineTaxes (-inputAmount) components opts.negated = .ok line ↔
      computeLineTaxes inputAmount components opts = .ok line.negated := by
  constructor
  · intro h line
    rw [h line.negated, line.negated_negated]
  · intro h line
    rw [h line.negated, line.negated_negated]

/-- **A charge and its credit** are mirror images but for an override below nothing. -/
theorem mirrored_pos (components : List TaxComponentConfig) (opts : TaxOptions)
    (hamount : 0 < amount) :
    (∀ line, computeLineTaxes amount components opts = .ok line ↔
      computeLineTaxes (-amount) components opts.negated = .ok line.negated) ↔
    ∀ line, computePositive amount components opts = .ok line → ∀ t ∈ opts.taxAmount, 0 ≤ t := by
  have hsigns : (∀ t ∈ opts.negated.taxAmount, t ≤ 0) ↔ ∀ t ∈ opts.taxAmount, 0 ≤ t := by
    simp [TaxOptions.negated]
  simp only [computeLineTaxes_neg hamount, hsigns, TaxOptions.negated_negated,
    ComputedLineTax.negated_negated]
  simp only [computeLineTaxes, if_neg hamount.not_gt]
  exact forall_congr' fun line => ⟨fun h hline => (h.mp hline).1,
    fun h => ⟨fun hline => ⟨h hline, hline⟩, And.right⟩⟩

theorem staleTaxAmount_iff (components : List TaxComponentConfig) (opts : TaxOptions)
    (hamount : 0 < amount) :
    (∀ line, computePositive amount components opts = .ok line → ∀ t ∈ opts.taxAmount, 0 ≤ t) ↔
      ¬StaleTaxAmount amount components opts := by
  constructor
  · rintro h ⟨hopts, ⟨t, ht, hsign⟩, hcomputable⟩
    rw [abs_of_pos hamount] at hcomputable
    obtain ⟨line, hline⟩ := (computable_iff hamount.le hopts).mpr hcomputable
    exact absurd hsign (mul_nonneg (h line hline t ht) hamount.le).not_gt
  · intro h line hline t ht
    cases hopts : opts.overridden with
    | true => exact override_nonneg hopts hline t ht
    | false =>
      by_contra hneg
      refine h ⟨hopts, ⟨t, ht, mul_neg_of_neg_of_pos (not_le.mp hneg) hamount⟩, ?_⟩
      rw [abs_of_pos hamount]
      exact (computable_iff hamount.le hopts).mp ⟨line, hline⟩

theorem staleTaxAmount_negated :
    StaleTaxAmount (-inputAmount) components opts.negated ↔
      StaleTaxAmount inputAmount components opts := by
  simp [StaleTaxAmount, TaxOptions.negated]

theorem mirrored_of_self (hzero : opts.overridden = true → ∀ t ∈ opts.taxAmount, t = 0)
    (line : ComputedLineTax) :
    computePositive 0 components opts = .ok line ↔
      computePositive 0 components opts = .ok line.negated := by
  constructor
  · intro h
    rw [negated_of_computePositive_zero hzero h, h]
  · intro h
    have hline := negated_of_computePositive_zero hzero h
    rw [ComputedLineTax.negated_negated] at hline
    rw [h, ← hline]

theorem mirrored_zero :
    (∀ line, computeLineTaxes 0 components opts = .ok line ↔
      computeLineTaxes (-0) components opts.negated = .ok line.negated) ↔
    ¬TaxOfNothing 0 components opts := by
  simp only [neg_zero, computeLineTaxes, lt_irrefl, if_false]
  cases hopts : opts.overridden with
  | false =>
    refine iff_of_true (fun line => ?_) fun h => absurd (hopts.symm.trans h.1) Bool.false_ne_true
    rw [computePositive_of_not_overridden (opts.negated_overridden.trans hopts),
      computePositive_of_not_overridden hopts]
    exact mirrored_of_self (fun h => absurd h Bool.false_ne_true) line
  | true =>
    cases ht : opts.taxAmount with
    | none =>
      have hself : opts.negated = opts := by
        cases opts
        simp_all [TaxOptions.negated]
      refine iff_of_true (fun line => ?_) ?_
      · rw [hself]
        exact mirrored_of_self (fun _ t hmem => by simp [ht] at hmem) line
      · rintro ⟨-, -, ⟨t, hmem, -⟩, -⟩
        simp [ht] at hmem
    | some t =>
      have hnegated : opts.negated.taxAmount = some (-t) := by simp [TaxOptions.negated, ht]
      have htax : TaxOfNothing 0 components opts ↔ t ≠ 0 ∧ Adjustable components := by
        simp [TaxOfNothing, hopts, ht]
      rw [htax]
      rcases lt_trichotomy t 0 with hneg | rfl | hpos
      · -- The mirrored override is the one that can come out.
        have hnone : ∀ line, computePositive 0 components opts ≠ .ok line := fun line hline =>
          absurd (override_nonneg hopts hline t ht) hneg.not_ge
        have hadjustable := adjustable_iff components (opts.negated_overridden.trans hopts) hnegated
          (neg_pos.mpr hneg)
        rw [← hadjustable]
        constructor
        · rintro h ⟨-, line, hline⟩
          refine hnone line.negated ((h line.negated).mpr ?_)
          rw [hline, line.negated_negated]
        · intro h line
          exact iff_of_false (hnone line) fun hline => h ⟨hneg.ne, line.negated, hline⟩
      · have hself : opts.negated = opts := by
          cases opts
          simp_all [TaxOptions.negated]
        refine iff_of_true (fun line => ?_) fun h => h.1 rfl
        rw [hself]
        exact mirrored_of_self (fun _ u hu => by simpa [ht, eq_comm] using hu) line
      · have hnone : ∀ line, computePositive 0 components opts.negated ≠ .ok line :=
          fun line hline => by
            have := override_nonneg (opts.negated_overridden.trans hopts) hline (-t) hnegated
            omega
        have hadjustable := adjustable_iff components hopts ht hpos
        rw [← hadjustable]
        constructor
        · rintro h ⟨-, line, hline⟩
          exact hnone line.negated ((h line).mp hline)
        · intro h line
          exact iff_of_false (fun hline => h ⟨hpos.ne', line, hline⟩) (hnone line.negated)

/-- **When a line is odd**: unless a tax amount of the other sign was left on it, or a tax of
something is made up on nothing. -/
theorem oddAt_iff (inputAmount : ℤ) (components : List TaxComponentConfig) (opts : TaxOptions) :
    OddAt inputAmount components opts ↔
      ¬StaleTaxAmount inputAmount components opts ∧
        ¬TaxOfNothing inputAmount components opts := by
  have hignored : 0 ≤ inputAmount → opts.overridden = false →
      ∀ line, computeLineTaxes inputAmount components opts = .ok line ↔
        computeLineTaxes inputAmount components { opts with taxAmount := none } = .ok line := by
    intro hinput hopts line
    have hopts' : ({ opts with taxAmount := none } : TaxOptions).overridden = false := hopts
    rw [computeLineTaxes, computeLineTaxes, if_neg hinput.not_gt, if_neg hinput.not_gt,
      computePositive_of_not_overridden hopts, computePositive_of_not_overridden hopts']
  rcases lt_trichotomy inputAmount 0 with hneg | rfl | hpos
  · obtain ⟨amount, rfl⟩ : ∃ amount, inputAmount = -amount := ⟨-inputAmount, (neg_neg _).symm⟩
    have hamount : 0 < amount := by omega
    have hnothing : ¬TaxOfNothing (-amount) components opts := fun h => hneg.ne h.2.1
    have hsigns := staleTaxAmount_iff components opts.negated hamount
    have hmirrored := mirrored_pos components opts.negated hamount
    have hstale : StaleTaxAmount (-amount) components opts ↔
        StaleTaxAmount amount components opts.negated := by
      rw [← staleTaxAmount_negated, neg_neg]
    rw [OddAt, mirrored_iff, neg_neg, and_iff_left hnothing, hstale, ← hsigns]
    rw [opts.negated_negated] at hmirrored
    rw [hmirrored, and_iff_left_iff_imp]
    intro h hopts line
    have hmagnitude : opts.negated.overridden = false := hopts
    have hmagnitude' : ({ opts with taxAmount := none } : TaxOptions).negated.overridden = false :=
      hopts
    rw [computeLineTaxes_neg hamount, computeLineTaxes_neg hamount,
      computePositive_of_not_overridden hmagnitude,
      computePositive_of_not_overridden hmagnitude']
    refine ⟨fun h => ⟨by simp, h.2⟩, ?_⟩
    rintro ⟨-, hline⟩
    refine ⟨fun t ht => ?_, hline⟩
    rw [← computePositive_of_not_overridden hmagnitude] at hline
    have := h _ hline (-t) (by simpa [TaxOptions.negated] using ht)
    omega
  · have hstale : ¬StaleTaxAmount 0 components opts := by
      rintro ⟨-, ⟨t, -, hsign⟩, -⟩
      rw [mul_zero] at hsign
      exact lt_irrefl 0 hsign
    rw [OddAt, mirrored_zero, and_iff_left (hignored (le_refl 0)), and_iff_right hstale]
  · have hnothing : ¬TaxOfNothing inputAmount components opts := fun h => hpos.ne' h.2.1
    rw [OddAt, mirrored_pos _ _ hpos, staleTaxAmount_iff _ _ hpos, and_iff_left (hignored hpos.le),
      and_iff_left hnothing]

/-- A credit of 100.0000 with a tax amount of 5.0000 left on it is refused; its mirror image, a
charge with −5.0000 left on it, is not. -/
theorem not_oddAt :
    ¬∀ (inputAmount : ℤ) (components : List TaxComponentConfig) (opts : TaxOptions),
      OddAt inputAmount components opts := by
  intro h
  obtain ⟨line, hline, -⟩ : ∃ line,
      computeLineTaxes 1000000 [gst] { taxAmount := some (-50000) } = .ok line ∧ true :=
    exists_of_any (by decide +kernel)
  have hcredit := ((h 1000000 [gst] { taxAmount := some (-50000) }).1 line).mp hline
  have hrefused : computeLineTaxes (-1000000) [gst]
      ({ taxAmount := some (-50000) } : TaxOptions).negated =
        .error "tax override must have the same sign as its taxable amount" := by
    decide +kernel
  rw [hrefused] at hcredit
  cases hcredit

end Symmetry

end OpenBooks
