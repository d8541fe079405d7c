import OpenBooks.Tax.TaxesOfNet

/-!
# The net of an inclusive amount

When the price includes its taxes, the net is the amount whose taxes bring it back to the price.
What a net comes to, `grossOf`, grows strictly with the net – the taxes grow with it, however they
are rounded and compounded – so the search finds the net of every price that has one, and otherwise
the two nets next to it (`extractInclusiveNet_spec`).

A price no net has goes to the closer net, and what is left to the last included component. If the
next net above is the closer one, it is over the price, and the calculation fails when it is over by
more than the last component's own tax: `inclusive_crossFoots_iff`.
-/

namespace OpenBooks

open Checked List

/-! ### Gross amounts -/

def grossOf (configs : List TaxComponentConfig) (net : ℤ) : ℤ :=
  net + standardTaxFrom net 0 configs

/-- The tax of the last standard component on a net. -/
def lastStandardTax (configs : List TaxComponentConfig) (net : ℤ) : ℤ :=
  lastStandardTaxFrom net 0 configs

variable {net net' : ℤ}

section Gross

variable {configs : List TaxComponentConfig}

section

variable (hsound : ∀ c ∈ configs, c.Sound)

include hsound

theorem grossOf_lt (h : net < net') : grossOf configs net < grossOf configs net' :=
  add_lt_add_of_lt_of_le h (standardTaxFrom_mono hsound h.le (le_refl _))

theorem grossOf_le (h : net ≤ net') : grossOf configs net ≤ grossOf configs net' :=
  add_le_add h (standardTaxFrom_mono hsound h (le_refl _))

theorem lt_of_grossOf_lt (h : grossOf configs net < grossOf configs net') : net < net' := by
  by_contra hle
  exact absurd h (grossOf_le hsound (not_lt.mp hle)).not_gt

end

@[simp] theorem grossOf_zero (configs : List TaxComponentConfig) : grossOf configs 0 = 0 := by
  rw [grossOf, standardTaxFrom_zero, add_zero]

theorem le_grossOf (hsound : ∀ c ∈ configs, c.Sound) (hnet : 0 ≤ net) :
    net ≤ grossOf configs net := by
  have := standardTaxFrom_nonneg hsound hnet (le_refl 0)
  unfold grossOf
  omega

theorem lastStandardTaxFrom_nonneg (hsound : ∀ c ∈ configs, c.Sound) {priorTax : ℤ}
    (hnet : 0 ≤ net) (hprior : 0 ≤ priorTax) : 0 ≤ lastStandardTaxFrom net priorTax configs := by
  induction configs generalizing priorTax with
  | nil => exact le_refl _
  | cons c rest ih =>
    obtain ⟨hc, hrest⟩ := forall_mem_cons.mp hsound
    have htax := taxOn_nonneg hc (baseOf_nonneg c hnet hprior)
    simp only [lastStandardTaxFrom]
    split_ifs
    · exact ih hrest (compounding_nonneg c hprior htax)
    · exact htax
    · exact le_refl _

end Gross

/-! ### The search -/

section Search

variable {configs : List TaxComponentConfig} {target : ℤ}

def Reproduces (configs : List TaxComponentConfig) : Prop :=
  ∀ net, 0 ≤ net → ∃ components, componentsAt configs none net = .ok (some components) ∧
    net + includedStandardTax components = grossOf configs net

theorem searchNet_succ {turns : ℕ} {low high : ℤ} {components : List ComputedTaxComponent}
    (hinterval : low ≤ high)
    (hcomponents : componentsAt configs none ((low + high) / 2) = .ok (some components))
    (hgross : (low + high) / 2 + includedStandardTax components =
      grossOf configs ((low + high) / 2)) :
    searchNet configs none target (turns + 1) low high =
      if grossOf configs ((low + high) / 2) = target then .ok (.exact ((low + high) / 2))
      else if grossOf configs ((low + high) / 2) < target then
        searchNet configs none target turns ((low + high) / 2 + 1) high
      else searchNet configs none target turns low ((low + high) / 2 - 1) := by
  simp only [searchNet, if_pos hinterval, hcomponents, ok_bind, hgross]
  rfl

/-- **The search.** Between a lower bound below which every net is short of the target and an
upper one above which every net exceeds it, the search ends at the net of the target or
between the two nets next to it. -/
theorem searchNet_spec (hat : Reproduces configs) (htarget : 0 ≤ target) (turns : ℕ)
    {low high : ℤ} (hlow : 0 ≤ low) (hle : low ≤ high + 1) (hturns : high + 1 - low ≤ turns)
    (hbelow : 0 < low → grossOf configs (low - 1) < target)
    (habove : target < grossOf configs (high + 1)) :
    (∃ net, searchNet configs none target turns low high = .ok (.exact net) ∧ 0 ≤ net ∧
        grossOf configs net = target) ∨
      ∃ net, searchNet configs none target turns low high = .ok (.between net (net + 1)) ∧
        0 ≤ net ∧ grossOf configs net < target ∧ target < grossOf configs (net + 1) := by
  -- An empty interval does not start at the first net, whose gross is zero.
  have hempty : high < low → 0 ≤ high ∧ low = high + 1 ∧ grossOf configs high < target := by
    intro hlt
    have heq : low = high + 1 := by omega
    rcases hlow.lt_or_eq with hpos | hzero
    · refine ⟨by omega, heq, ?_⟩
      have := hbelow hpos
      rwa [heq, add_sub_cancel_right] at this
    · rw [← heq, ← hzero, grossOf_zero] at habove
      omega
  induction turns generalizing low high with
  | zero =>
    obtain ⟨hhigh, rfl, hshort⟩ := hempty (by omega)
    exact .inr ⟨high, rfl, hhigh, hshort, habove⟩
  | succ turns ih =>
    by_cases hinterval : low ≤ high
    · obtain ⟨components, hcomponents, hgross⟩ := hat ((low + high) / 2) (by omega)
      rw [searchNet_succ hinterval hcomponents hgross]
      have hmid : low ≤ (low + high) / 2 ∧ (low + high) / 2 ≤ high := by omega
      generalize (low + high) / 2 = mid at hmid
      split_ifs with hexact hshort
      · exact .inl ⟨mid, rfl, by omega, hexact⟩
      · refine ih (by omega) (by omega) (by omega) (fun _ => ?_) habove fun hlt => ?_
        · rwa [add_sub_cancel_right]
        · obtain rfl : mid = high := by omega
          exact ⟨by omega, rfl, hshort⟩
      · refine ih hlow (by omega) (by omega) hbelow ?_ fun hlt => ?_
        · rw [sub_add_cancel]
          omega
        · obtain rfl : low = mid := by omega
          have hpos : 0 < low := by
            rcases hlow.lt_or_eq with hpos | hzero
            · exact hpos
            · rw [← hzero, grossOf_zero] at hexact hshort
              omega
          exact ⟨by omega, by omega, hbelow hpos⟩
    · obtain ⟨hhigh, rfl, hshort⟩ := hempty (by omega)
      refine .inr ⟨high, ?_, hhigh, hshort, habove⟩
      rw [searchNet, if_neg hinterval]

theorem closerNet_first (hat : Reproduces configs) {candidate : ℤ} (hnonneg : 0 ≤ candidate)
    (net : ℤ) :
    closerNet configs none target (net, none) candidate =
      .ok (candidate, some |grossOf configs candidate - target|) := by
  obtain ⟨components, hcomponents, hgross⟩ := hat candidate hnonneg
  simp only [closerNet, hcomponents, ok_bind, hgross]
  rfl

theorem closerNet_next (hat : Reproduces configs) {candidate : ℤ} (hnonneg : 0 ≤ candidate)
    (net distance : ℤ) :
    closerNet configs none target (net, some distance) candidate =
      .ok (if |grossOf configs candidate - target| < distance ∨
          (|grossOf configs candidate - target| = distance ∧ candidate < net) then
        (candidate, some |grossOf configs candidate - target|) else (net, some distance)) := by
  obtain ⟨components, hcomponents, hgross⟩ := hat candidate hnonneg
  simp only [closerNet, hcomponents, ok_bind, hgross]
  split_ifs <;> rfl

/-- **The extracted net**: that of the amount, or the closer of the two next to it. -/
theorem extractInclusiveNet_spec (hsound : ∀ c ∈ configs, c.Sound) (hat : Reproduces configs)
    (htarget : 0 ≤ target) :
    ∃ net, extractInclusiveNet target configs none = .ok net ∧ 0 ≤ net ∧
      (grossOf configs net = target ∨
        ∃ below, 0 ≤ below ∧ grossOf configs below < target ∧
          target < grossOf configs (below + 1) ∧
          net = if grossOf configs (below + 1) - target < target - grossOf configs below then
            below + 1 else below) := by
  have habove : target < grossOf configs (target + 1) :=
    (Int.lt_add_one_iff.mpr (le_refl target)).trans_le (le_grossOf hsound (by omega))
  have hsearch := searchNet_spec hat htarget (target + 1).toNat (le_refl 0) (by omega) (by omega)
    (fun h => absurd h (lt_irrefl 0)) habove
  have hpositive : refuseIf (target < 0) "tax input amount cannot be negative" =
      (.ok () : Except String Unit) := by
    rw [refuseIf, if_neg htarget.not_gt]
  rcases hsearch with ⟨net, hnet, hnonneg, hexact⟩ | ⟨below, hbetween, hnonneg, hshort, hover⟩
  · refine ⟨net, ?_, hnonneg, .inl hexact⟩
    simp only [extractInclusiveNet, hpositive, ok_bind, hnet]
    rfl
  · have hle := le_grossOf hsound hnonneg
    have hcandidates : ([below, below + 1].filter fun u => 0 ≤ u ∧ u ≤ target) =
        [below, below + 1] := by
      rw [filter_eq_self]
      intro u hu
      simp only [mem_cons, not_mem_nil, or_false] at hu
      rw [decide_eq_true_eq]
      omega
    have hdistance : |grossOf configs below - target| = target - grossOf configs below := by
      rw [abs_of_neg (by omega)]
      ring
    have hdistance' : |grossOf configs (below + 1) - target| =
        grossOf configs (below + 1) - target := abs_of_pos (by omega)
    refine ⟨_, ?_, ?_, .inr ⟨below, hnonneg, hshort, hover, rfl⟩⟩
    · simp only [extractInclusiveNet, hpositive, ok_bind, hbetween, hcandidates,
        foldlM_cons, foldlM_nil, closerNet_first hat hnonneg,
        closerNet_next hat (show 0 ≤ below + 1 by omega), hdistance, hdistance']
      have hlater : ¬below + 1 < below := by omega
      simp only [hlater, and_false, or_false]
      split_ifs <;> rfl
    · split_ifs <;> omega

end Search

/-! ### Cross-footing -/

/-- What is left for the last included component is no less than nothing, at the closer net. -/
def Reconcilable (configs : List TaxComponentConfig) (inputAmount : ℤ) : Prop :=
  ∀ net, 0 ≤ net → grossOf configs net < inputAmount → inputAmount < grossOf configs (net + 1) →
    grossOf configs (net + 1) - inputAmount < inputAmount - grossOf configs net →
    grossOf configs (net + 1) - inputAmount ≤ lastStandardTax configs (net + 1)

/-- A line comes out, no component of it negative, and its net and standard taxes make up the
amount. -/
def CrossFoots (inputAmount : ℤ) (components : List TaxComponentConfig) (opts : TaxOptions) :
    Prop :=
  ∃ line, computeLineTaxes inputAmount components opts = .ok line ∧
    (∀ k ∈ line.components, 0 ≤ k.taxAmount) ∧
    line.netAmount + taxSum (standardComponents line.components) = inputAmount

section Reconciliation

variable {components configs : List TaxComponentConfig} {inputAmount : ℤ} {opts : TaxOptions}

theorem computePositive_of_valid (inputAmount : ℤ)
    (hvalid : validateConfig components = .ok configs) (hne : configs ≠ []) (hopts : opts.overridden = false) :
    computePositive inputAmount components opts = (do
      let netAmount ←
        if configs.any (·.includesTax) then extractInclusiveNet inputAmount configs none
        else .ok inputAmount
      let computed ← calculateFrom netAmount none 0 0 configs
      let reconciled ←
        if configs.any (·.includesTax) = true then
          reconcileIncluded inputAmount netAmount configs computed
        else .ok computed
      return lineOf inputAmount netAmount reconciled) := by
  simp [computePositive, hvalid, ok_bind, hne, hopts, refuseIf, calculateFromNet]

variable {computed : List ComputedTaxComponent} {standardTax : ℤ}

theorem includedStandard_eq (hall : ∀ c ∈ configs, c.isStandard = true → c.includesTax = true)
    (h : Computes configs standardTax computed) : includedStandardTax computed = standardTax := by
  rw [← h.standard, includedStandardTax]
  congr 1
  refine filter_congr fun k hk => ?_
  have hmem : (k.calculationType, k.priceIncludesTax) ∈ configs.map fun c => (c.kind, c.includesTax) :=
    h.flags ▸ mem_map_of_mem hk
  obtain ⟨c, hc, heq⟩ := mem_map.mp hmem
  obtain ⟨hkind, hincludes⟩ := Prod.mk.inj heq
  rw [← hkind, ← hincludes]
  have := hall c hc
  simp only [TaxComponentConfig.isStandard, decide_eq_true_eq] at this
  simp only [decide_eq_decide]
  exact ⟨And.left, fun h => ⟨h, this h⟩⟩

theorem reproduces_of_plain (hsound : ∀ c ∈ configs, c.Sound) (hplain : ∀ c ∈ configs, c.Plain)
    (hall : ∀ c ∈ configs, c.isStandard = true → c.includesTax = true) : Reproduces configs := by
  intro net hnet
  obtain ⟨computed, hcomputed, hcomputes⟩ :=
    exists_calculateFrom hsound hplain hnet (le_refl 0) 0
  refine ⟨computed, ?_, by rw [includedStandard_eq hall hcomputes, grossOf]⟩
  simp only [componentsAt, calculateFromNet, refuseIf, Option.isSome_none, Bool.false_eq_true,
    false_and, if_false, ok_bind, hcomputed]
  rfl

/-- **The reconciliation** fails just when the last included component would be left with less
than nothing. -/
theorem reconcileIncluded_spec (inputAmount : ℤ) (hsound : ∀ c ∈ configs, c.Sound)
    (hplain : ∀ c ∈ configs, c.Plain)
    (hall : ∀ c ∈ configs, c.isStandard = true → c.includesTax = true)
    (hany : configs.any (·.isStandard) = true) (hnet : 0 ≤ net)
    (hcomputes : Computes configs (standardTaxFrom net 0 configs) computed) :
    let left := inputAmount - grossOf configs net + lastStandardTax configs net
    (left < 0 → ∀ reconciled,
        reconcileIncluded inputAmount net configs computed ≠ .ok reconciled) ∧
      (0 ≤ left → ∃ reconciled,
        reconcileIncluded inputAmount net configs computed = .ok reconciled ∧
          Computes configs (inputAmount - net) reconciled) := by
  have hlast := lastStandardTaxFrom_nonneg hsound hnet (le_refl 0)
  simp only [reconcileIncluded, includedStandard_eq hall hcomputes, grossOf, lastStandardTax]
  by_cases hexact : inputAmount - net = standardTaxFrom net 0 configs
  · rw [if_neg (not_not.mpr hexact)]
    exact ⟨fun hleft => absurd hleft (by omega), fun _ => ⟨computed, rfl, hexact ▸ hcomputes⟩⟩
  · set o : TaxOverride := { amount := inputAmount - net, includedOnly := true } with ho
    have heligible : ∀ c ∈ configs, eligible (some o) c = c.isStandard := by
      intro c hc
      have := hall c hc
      cases hstandard : c.isStandard <;> simp_all [eligible]
    have hsome : configs.any (eligible (some o)) = true := by
      obtain ⟨c, hc, hstandard⟩ := any_eq_true.mp hany
      exact any_eq_true.mpr ⟨c, hc, (heligible c hc).trans hstandard⟩
    have hpass := calculateFrom_override hsound hplain heligible hany hnet (le_refl 0) 0
    rw [if_pos hexact]
    simp only [calculateFromNet, refuseIf, hsome, Bool.true_eq_false, and_false, if_false,
      ok_bind]
    have hleft : inputAmount - (net + standardTaxFrom net 0 configs) +
        lastStandardTaxFrom net 0 configs =
          o.amount - 0 - (standardTaxFrom net 0 configs - lastStandardTaxFrom net 0 configs) := by
      rw [ho]
      ring
    simpa only [hleft, ho, sub_zero] using hpass

/-- Two amounts are next to each other around a price in one place only. -/
theorem eq_of_between (hsound : ∀ c ∈ configs, c.Sound)
    (h : grossOf configs net < inputAmount ∧ inputAmount < grossOf configs (net + 1))
    (h' : grossOf configs net' < inputAmount ∧ inputAmount < grossOf configs (net' + 1)) :
    net = net' := by
  have hlt := lt_of_grossOf_lt hsound (h.1.trans h'.2)
  have hlt' := lt_of_grossOf_lt hsound (h'.1.trans h.2)
  omega

/-- What is left at the extracted net is no less than nothing just when the line can be
reconciled. -/
theorem reconcilable_iff (hsound : ∀ c ∈ configs, c.Sound) (hnet : 0 ≤ net)
    (hclose : grossOf configs net = inputAmount ∨
      ∃ below, 0 ≤ below ∧ grossOf configs below < inputAmount ∧
        inputAmount < grossOf configs (below + 1) ∧
        net = if grossOf configs (below + 1) - inputAmount < inputAmount - grossOf configs below
          then below + 1 else below) :
    Reconcilable configs inputAmount ↔
      0 ≤ inputAmount - grossOf configs net + lastStandardTax configs net := by
  have hlast : 0 ≤ lastStandardTax configs net := lastStandardTaxFrom_nonneg hsound hnet (le_refl 0)
  rcases hclose with hexact | ⟨below, hbelow, hshort, hover, hcloser⟩
  · -- The price has a net, and lies between no two.
    refine iff_of_true (fun net' _ hshort hover => ?_) (by omega)
    rw [← hexact] at hshort hover
    have := lt_of_grossOf_lt hsound hshort
    have := lt_of_grossOf_lt hsound hover
    omega
  · have hunique : ∀ net', grossOf configs net' < inputAmount →
        inputAmount < grossOf configs (net' + 1) → net' = below := fun net' h h' =>
      eq_of_between hsound ⟨h, h'⟩ ⟨hshort, hover⟩
    split_ifs at hcloser with hupper
    · subst hcloser
      refine ⟨fun h => ?_, fun hleft net' _ h h' _ => ?_⟩
      · have := h below hbelow hshort hover hupper
        omega
      · obtain rfl := hunique net' h h'
        omega
    · subst hcloser
      refine iff_of_true (fun net' _ h h' hupper' => ?_) (by omega)
      obtain rfl := hunique net' h h'
      exact absurd hupper' hupper

section

variable (hvalid : validateConfig components = .ok configs)

include hvalid

/-- **An inclusive line** comes out just when it can be reconciled, and its standard taxes then
make up what the net leaves of the amount. -/
theorem computePositive_inclusive (hinput : 0 ≤ inputAmount) (hopts : opts.overridden = false)
    (hplain : ∀ c ∈ configs, c.Plain) (hinclusive : configs.any (·.includesTax) = true) :
    (Reconcilable configs inputAmount → ∃ net computed,
        computePositive inputAmount components opts = .ok (lineOf inputAmount net computed) ∧
          Computes configs (inputAmount - net) computed) ∧
      (¬Reconcilable configs inputAmount →
        ∀ line, computePositive inputAmount components opts ≠ .ok line) := by
  obtain ⟨-, hsound, hmixed⟩ := validateConfig_eq_ok hvalid
  have hall := hmixed hinclusive
  have hany : configs.any (·.isStandard) = true := by
    obtain ⟨c, hc, hincludes⟩ := any_eq_true.mp hinclusive
    exact any_eq_true.mpr ⟨c, hc, (hsound c hc).inclusive hincludes⟩
  have hne : configs ≠ [] := by
    rintro rfl
    cases hany
  obtain ⟨net, hextract, hnet, hclose⟩ :=
    extractInclusiveNet_spec hsound (reproduces_of_plain hsound hplain hall) hinput
  obtain ⟨computed, hcomputed, hcomputes⟩ :=
    exists_calculateFrom hsound hplain hnet (le_refl 0) 0
  obtain ⟨hfail, hpass⟩ := reconcileIncluded_spec inputAmount hsound hplain hall hany hnet hcomputes
  have hcompute := computePositive_of_valid inputAmount hvalid hne hopts
  simp only [hinclusive, if_true, hextract, hcomputed, ok_bind] at hcompute
  rw [reconcilable_iff hsound hnet hclose]
  constructor
  · intro hleft
    obtain ⟨reconciled, hreconciled, hreconcile⟩ := hpass hleft
    rw [hreconciled] at hcompute
    exact ⟨net, reconciled, hcompute, hreconcile⟩
  · intro hleft line hline
    rw [hcompute, bind_eq_ok] at hline
    obtain ⟨reconciled, hreconciled, -⟩ := hline
    exact hfail (not_le.mp hleft) reconciled hreconciled

/-- **An exclusive line** comes out, and its net is the amount. -/
theorem computePositive_exclusive (hinput : 0 ≤ inputAmount) (hopts : opts.overridden = false)
    (hplain : ∀ c ∈ configs, c.Plain) (hinclusive : configs.any (·.includesTax) = false) :
    ∃ computed,
      computePositive inputAmount components opts = .ok (lineOf inputAmount inputAmount computed) ∧
        Computes configs (standardTaxFrom inputAmount 0 configs) computed := by
  obtain ⟨-, hsound, -⟩ := validateConfig_eq_ok hvalid
  by_cases hne : configs = []
  · subst hne
    refine ⟨[], ?_, ⟨by simp, rfl, rfl⟩⟩
    simp [computePositive, hvalid, ok_bind, hopts, refuseIf, pure, Except.pure]
  · obtain ⟨computed, hcomputed, hcomputes⟩ :=
      exists_calculateFrom hsound hplain hinput (le_refl 0) 0
    refine ⟨computed, ?_, hcomputes⟩
    rw [computePositive_of_valid inputAmount hvalid hne hopts]
    simp only [hinclusive, Bool.false_eq_true, if_false, ok_bind, hcomputed]
    rfl

/-- A line that comes out has read every percentage. -/
theorem plain_of_computePositive (hopts : opts.overridden = false) {line : ComputedLineTax}
    (hline : computePositive inputAmount components opts = .ok line) : ∀ c ∈ configs, c.Plain := by
  by_cases hne : configs = []
  · subst hne
    simp
  · rw [computePositive_of_valid inputAmount hvalid hne hopts] at hline
    split_ifs at hline
    all_goals
      simp only [bind_eq_ok] at hline
      obtain ⟨net, -, computed, hcomputed, -⟩ := hline
      exact plain_of_calculateFrom hcomputed

/-- **When a line comes out**: its percentages are plain, and an inclusive amount can be
reconciled. -/
theorem exists_computePositive_iff (hinput : 0 ≤ inputAmount) (hopts : opts.overridden = false) :
    (∃ line, computePositive inputAmount components opts = .ok line) ↔
      (∀ c ∈ configs, c.Plain) ∧
        (configs.any (·.includesTax) = true → Reconcilable configs inputAmount) := by
  constructor
  · rintro ⟨line, hline⟩
    have hplain := plain_of_computePositive hvalid hopts hline
    refine ⟨hplain, fun hinclusive => ?_⟩
    by_contra hleft
    exact (computePositive_inclusive hvalid hinput hopts hplain hinclusive).2 hleft line hline
  · rintro ⟨hplain, hreconcilable⟩
    cases hinclusive : configs.any (·.includesTax) with
    | false =>
      obtain ⟨computed, hline, -⟩ :=
        computePositive_exclusive hvalid hinput hopts hplain hinclusive
      exact ⟨_, hline⟩
    | true =>
      obtain ⟨net, computed, hline, -⟩ :=
        (computePositive_inclusive hvalid hinput hopts hplain hinclusive).1
          (hreconcilable hinclusive)
      exact ⟨_, hline⟩

end

theorem crossFoots_of_ok (hinput : 0 ≤ inputAmount)
    (hline : computePositive inputAmount components opts = .ok (lineOf inputAmount net computed))
    (h : Computes configs standardTax computed) (hsum : net + standardTax = inputAmount) :
    CrossFoots inputAmount components opts :=
  ⟨_, by rw [computeLineTaxes, if_neg hinput.not_gt, hline], h.nonneg, by
    rw [← hsum, ← h.standard]
    rfl⟩

/-- **An inclusive line cross-foots** just when its percentages are plain and, should the next
net above be the closer one, what it is over the price is no more than the tax of the last
included component. -/
theorem inclusive_crossFoots_iff (hvalid : validateConfig components = .ok configs)
    (hincluded : ∀ c ∈ components, c.isStandard = true → c.includesTax = true)
    (hinput : 0 ≤ inputAmount) (hopts : opts.overridden = false) :
    CrossFoots inputAmount components opts ↔
      (∀ c ∈ components, c.Plain) ∧ Reconcilable configs inputAmount := by
  obtain ⟨hsorted, hsound, -⟩ := validateConfig_eq_ok hvalid
  have hmem : ∀ c, c ∈ configs ↔ c ∈ components := fun c => by
    rw [hsorted]
    exact mem_insertionSort _
  have hreturns := exists_computePositive_iff hvalid hinput hopts
  simp only [← hmem]
  cases hinclusive : configs.any (·.includesTax) with
  | false =>
    -- No component is standard: an amount is its own net, and lies between no two.
    have hnone : configs.any (·.isStandard) = false := by
      rw [any_eq_false] at hinclusive ⊢
      exact fun c hc hstandard => hinclusive c hc (hincluded c ((hmem c).mp hc) hstandard)
    have hreconcilable : Reconcilable configs inputAmount := by
      intro net _ hshort hover
      simp only [grossOf, standardTaxFrom_of_none hnone, add_zero] at hshort hover
      omega
    refine ⟨fun ⟨line, hline, _⟩ => ⟨?_, hreconcilable⟩, fun h => ?_⟩
    · rw [computeLineTaxes, if_neg hinput.not_gt] at hline
      exact (hreturns.mp ⟨line, hline⟩).1
    · obtain ⟨computed, hline, hcomputes⟩ :=
        computePositive_exclusive hvalid hinput hopts h.1 hinclusive
      rw [standardTaxFrom_of_none hnone] at hcomputes
      exact crossFoots_of_ok hinput hline hcomputes (add_zero _)
  | true =>
    refine ⟨fun ⟨line, hline, _⟩ => ?_, fun h => ?_⟩
    · rw [computeLineTaxes, if_neg hinput.not_gt] at hline
      obtain ⟨hplain, hreconcilable⟩ := hreturns.mp ⟨line, hline⟩
      exact ⟨hplain, hreconcilable hinclusive⟩
    · obtain ⟨net, computed, hline, hcomputes⟩ :=
        (computePositive_inclusive hvalid hinput hopts h.1 hinclusive).1 h.2
      exact crossFoots_of_ok hinput hline hcomputes (by ring)

end Reconciliation

/-! ### A price that is met, and one that fails -/

def wholeUnitTax : TaxComponentConfig :=
  { taxCodeId := "vat", sequence := 1, ratePercent := "10", priceIncludesTax := some true
    roundingScale := some 0 }

/-- A component of rate zero. -/
def zeroRatedTax : TaxComponentConfig :=
  { taxCodeId := "levy", sequence := 2, ratePercent := "0", priceIncludesTax := some true }

/-- 105.0000 is the price of 95.0000, and lies between no two. -/
theorem inclusive_crossFoots_iff_wholeUnit :
    CrossFoots 1050000 [wholeUnitTax, zeroRatedTax] {} := by
  have hvalid : validateConfig [wholeUnitTax, zeroRatedTax] = .ok [wholeUnitTax, zeroRatedTax] := by
    decide +kernel
  refine (inclusive_crossFoots_iff hvalid (by decide) (by decide) rfl).mpr
    ⟨by decide +kernel, fun net _ hshort hover _ => ?_⟩
  obtain ⟨-, hsound, -⟩ := validateConfig_eq_ok hvalid
  have hgross : grossOf [wholeUnitTax, zeroRatedTax] 950000 = 1050000 := by decide +kernel
  rw [← hgross] at hshort hover
  have hlow := lt_of_grossOf_lt hsound hshort
  have hhigh := lt_of_grossOf_lt hsound hover
  omega

/-- At 104.9999 the next net above, of 95.0000, is closer, and comes to 105.0000: the last
component is left with −0.0001, and the calculation refuses an override nobody made. -/
theorem not_inclusive_crossFoots :
    ¬∀ (components configs : List TaxComponentConfig) (inputAmount : ℤ),
      validateConfig components = .ok configs →
      (∀ c ∈ components, c.isStandard = true → c.includesTax = true) → 0 ≤ inputAmount →
      CrossFoots inputAmount components {} := by
  intro h
  obtain ⟨line, hline, -⟩ := h [wholeUnitTax, zeroRatedTax] [wholeUnitTax, zeroRatedTax] 1049999
    (by decide +kernel) (by decide) (by decide)
  have hrefused : computeLineTaxes 1049999 [wholeUnitTax, zeroRatedTax] {} =
      .error "manual tax override cannot make a component negative" := by
    decide +kernel
  rw [hrefused] at hline
  cases hline

end OpenBooks
