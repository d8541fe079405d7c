import OpenBooks.Journal.SegmentBalancing
import OpenBooks.Lib.ListSum

/-!
# When the clearing legs complete a segment

The provider tests one definition at a time and clears full tuples, so the question is whether the
two agree on a segment's value. For a line they do (`dimension_eq_tupleDimension`), for the leg of a
tuple not always. A tuple without a text under a key is given the default, if there is one, when the
leg is looked at again (`clearedDimension`) – also when the lines it clears have an *explicit null*
there, and keep it.

So the total of a subsidiary and value, with the legs, is zero except at the null and at the default
of such a segment, where it is the total of the explicit nulls, with one sign and the other
(`segmentTotal_viewWith`); and the legs complete every segment exactly if the explicit nulls under
every defaulted segment sum to zero in every subsidiary (`segmentBalancing_iff`).
-/

namespace OpenBooks

open Checked ListSum List FirstSeen

/-! ### Values -/

/-- The default that a missing segment is given. -/
def stampedDefault : List SegmentDefinition → String → Option String
  | [], _ => none
  | d :: ds, key =>
    (if d.key = key ∧ truthy d.storageColumn = none then d.defaultValueId else none).or
      (stampedDefault ds key)

theorem stampedDefault_isSome_iff {definitions : List SegmentDefinition} {key : String} :
    (stampedDefault definitions key).isSome ↔ ∃ d ∈ definitions, d.key = key ∧
      truthy d.storageColumn = none ∧ d.defaultValueId.isSome := by
  induction definitions with
  | nil => simp [stampedDefault]
  | cons d ds ih =>
    rw [stampedDefault, Option.isSome_or, Bool.or_eq_true, ih]
    split_ifs with h
    · simp [h.1, h.2]
    · simp only [Option.isSome_none, Bool.false_eq_true, false_or, mem_cons,
        exists_eq_or_imp]
      refine ⟨Or.inr, fun hor => hor.resolve_left ?_⟩
      rintro ⟨hkey, hstorage, -⟩
      exact h ⟨hkey, hstorage⟩

theorem get?_foldl_stampDefault (definitions : List SegmentDefinition)
    (extraDims : Record (Option String)) (key : String) :
    (definitions.foldl stampDefault extraDims).get? key =
      (extraDims.get? key).or ((stampedDefault definitions key).map some) := by
  induction definitions generalizing extraDims with
  | nil => simp [stampedDefault]
  | cons d ds ih =>
    rw [foldl_cons, ih]
    have hstep : (stampDefault extraDims d).get? key = (extraDims.get? key).or
        ((if d.key = key ∧ truthy d.storageColumn = none then d.defaultValueId else none).map some) := by
      rw [stampDefault]
      split
      · rename_i value hstorage hvalue
        rw [Record.get?_setIfAbsent]
        by_cases hkey : key = d.key
        · simp [hkey, hstorage, hvalue]
        · have hkey' : ¬d.key = key := fun hc => hkey hc.symm
          simp [hkey, hkey']
      · rename_i hnot
        split_ifs with hcond
        · cases hvalue : d.defaultValueId with
          | none => simp
          | some value => exact absurd hvalue (hnot value hcond.2)
        · simp
    rw [hstep, stampedDefault, Option.or_assoc, Option.map_or]

/-- The value of a tuple in a definition's dimension. -/
def tupleDimension (t : DimensionTuple) (key : String) (storage : Option String) : Option String :=
  match truthy storage with
  | none => t.extraDims.lookup key
  | some column =>
    if column = "subsidiary_id" then some t.subsidiaryId
    else if column = "department_id" then t.departmentId
    else if column = "project_id" then t.projectId
    else if column = "location_id" then t.locationId
    else if column = "class_id" then t.classId
    else none

/-- **A line's value is its tuple's**: null and missing are the same there. -/
theorem dimension_eq_tupleDimension (line : BalancingLineView) (key : String)
    (storage : Option String) :
    dimension line key storage = tupleDimension (dimensionTuple line) key storage := by
  rw [dimension, tupleDimension]
  cases truthy storage with
  | none =>
    simp only [dimensionTuple, Record.lookup_canonical, textDims, Record.get?_filterMapValues]
    cases line.extraDims.get? key <;> rfl
  | some column => rfl

/-- The value a tuple's leg has when it is looked at again. -/
def clearedDimension (definitions : List SegmentDefinition) (d : SegmentDefinition)
    (t : DimensionTuple) : Option String :=
  match truthy d.storageColumn with
  | none => (t.extraDims.lookup d.key).or (stampedDefault definitions d.key)
  | some _ => tupleDimension t d.key d.storageColumn

def GenericBalancingGroup.tuple (group : GenericBalancingGroup) : DimensionTuple where
  subsidiaryId := group.subsidiaryId
  departmentId := group.departmentId
  projectId := group.projectId
  locationId := group.locationId
  classId := group.classId
  extraDims := group.extraDims.canonical

structure Clears (leg : BalancingLeg) (group : GenericBalancingGroup) : Prop where
  amount_eq : leg.amount = -group.amount
  subsidiaryId_eq : leg.subsidiaryId = group.subsidiaryId
  departmentId_eq : leg.departmentId = group.departmentId
  projectId_eq : leg.projectId = group.projectId
  locationId_eq : leg.locationId = group.locationId
  classId_eq : leg.classId = group.classId
  extraDims_eq : leg.extraDims = group.extraDims

variable {group : GenericBalancingGroup}

theorem clears_of_balancingLeg {env : BalancingEnv} {isPrimary : Bool}
    {policyKey accountId : String} {bookCurrency : String → String} {leg : BalancingLeg}
    (h : balancingLeg env isPrimary policyKey accountId bookCurrency group = .ok leg) :
    Clears leg group := by
  simp only [balancingLeg, bind_eq_ok, pure_eq_ok] at h
  obtain ⟨_, -, rfl⟩ := h
  exact ⟨rfl, rfl, rfl, rfl, rfl, rfl, rfl⟩

theorem dimension_view {definitions : List SegmentDefinition} {d : SegmentDefinition}
    {leg : BalancingLeg} (h : Clears leg group) :
    dimension (effectiveLine definitions leg.view) d.key d.storageColumn =
      clearedDimension definitions d group.tuple := by
  rw [dimension, clearedDimension]
  cases hstorage : truthy d.storageColumn with
  | none =>
    simp only [effectiveLine, get?_foldl_stampDefault, BalancingLeg.view, h.extraDims_eq,
      Record.get?_filterMapValues, GenericBalancingGroup.tuple, Record.lookup_canonical]
    cases group.extraDims.get? d.key with
    | none => cases stampedDefault definitions d.key <;> rfl
    | some v => rfl
  | some column =>
    simp only [effectiveLine, BalancingLeg.view, tupleDimension, hstorage,
      GenericBalancingGroup.tuple, h.subsidiaryId_eq, h.departmentId_eq, h.projectId_eq,
      h.locationId_eq, h.classId_eq]

/-! ### Sums over groups -/

theorem balancingGroup_of_mem {lines : List BalancingLineView}
    {g : DimensionTuple × List BalancingLineView} (hg : g ∈ groupBy dimensionTuple lines) :
    ∃ group, balancingGroup g.2 = some group ∧ group.tuple = g.1 ∧
      group.amount = (g.2.map BalancingLineView.amount).sum := by
  obtain ⟨first, rest, hcons⟩ := exists_cons_of_ne_nil (group_ne_nil hg)
  obtain ⟨-, hgroup⟩ := mem_groupBy.mp (show (g.1, g.2) ∈ _ from hg)
  have hfirst : first ∈ g.2 := by simp [hcons]
  rw [hgroup, mem_filter] at hfirst
  refine ⟨_, by rw [balancingGroup, hcons]; rfl, ?_, by rw [hcons]⟩
  rw [← show dimensionTuple first = g.1 by simpa using hfirst.2]
  rfl

/-- **A sum over the groups that is selected by tuple is the sum over the lines.** The
groups that sum to zero are not missed. -/
theorem sum_genericBalancingGroups (localeCompare : TupleOrder) (lines : List BalancingLineView)
    (φ : DimensionTuple → Prop) [DecidablePred φ] :
    ((genericBalancingGroups localeCompare lines).map fun group =>
        if φ group.tuple then group.amount else 0).sum =
      (lines.map fun line => if φ (dimensionTuple line) then line.amount else 0).sum := by
  rw [genericBalancingGroups, sum_map_filter_eq_ite]
  have hdrop : ∀ group : GenericBalancingGroup, (if group.amount ≠ 0 then
      (if φ group.tuple then group.amount else 0) else 0) =
        if φ group.tuple then group.amount else 0 := by
    intro group
    split_ifs with hne hφ
    · rfl
    · rfl
    · exact (not_not.mp hne).symm
    · rfl
  rw [map_congr_left fun group _ => hdrop group]
  have hperm := (perm_insertionSort (fun a b => localeCompare a.1 b.1 = true)
    (groupBy dimensionTuple lines)).filterMap fun g => balancingGroup g.2
  rw [(hperm.map _).sum_eq]
  have hgroups : ∀ gs : List (DimensionTuple × List BalancingLineView), (∀ g ∈ gs, g ∈ groupBy dimensionTuple lines) →
      ((gs.filterMap fun g => balancingGroup g.2).map fun group =>
        if φ group.tuple then group.amount else 0).sum =
      (gs.map fun g => (g.2.map fun line =>
        if φ (dimensionTuple line) then line.amount else 0).sum).sum := by
    intro gs hgs
    induction gs with
    | nil => rfl
    | cons g gs ih =>
      obtain ⟨hg, hrest⟩ := forall_mem_cons.mp hgs
      obtain ⟨group, hgroup, htuple, hamount⟩ := balancingGroup_of_mem hg
      have hcons : (g :: gs).filterMap (fun g => balancingGroup g.2) =
          group :: gs.filterMap fun g => balancingGroup g.2 := filterMap_cons_some hgroup
      rw [hcons, map_cons, sum_cons, ih hrest, map_cons, sum_cons, htuple, hamount]
      congr 1
      have hkeys : ∀ line ∈ g.2, dimensionTuple line = g.1 := by
        intro line hline
        obtain ⟨-, hfilter⟩ := mem_groupBy.mp (show (g.1, g.2) ∈ _ from hg)
        rw [hfilter, mem_filter] at hline
        simpa using hline.2
      have hselect : (g.2.map fun line => if φ (dimensionTuple line) then line.amount else 0) =
          g.2.map fun line => if φ g.1 then line.amount else 0 :=
        map_congr_left fun line hline => by rw [hkeys line hline]
      rw [hselect]
      split_ifs <;> simp
  rw [hgroups _ fun g hg => hg, sum_groupBy]

/-! ### Totals -/

/-- What a subsidiary and value of a definition sum to, once the defaults are stamped. -/
def segmentTotal (definitions : List SegmentDefinition) (d : SegmentDefinition) (s : String)
    (v : Option String) (lines : List BalancingLineView) : ℤ :=
  ((lines.map (effectiveLine definitions)).map fun line =>
    if line.subsidiaryId = s ∧ dimension line d.key d.storageColumn = v then line.amount else 0).sum

/-- What the lines of a subsidiary with an explicit null under a key sum to. -/
def explicitNullTotal (key s : String) (lines : List BalancingLineView) : ℤ :=
  (lines.map fun line =>
    if line.subsidiaryId = s ∧ line.extraDims.get? key = some none then line.amount else 0).sum

variable {definitions : List SegmentDefinition} {d : SegmentDefinition} {s : String}
  {v : Option String} {lines : List BalancingLineView}

/-- Under a defaulted segment only an explicit null has no value. -/
theorem segmentTotal_none (hstorage : truthy d.storageColumn = none)
    (hdefault : (stampedDefault definitions d.key).isSome) :
    segmentTotal definitions d s none lines = explicitNullTotal d.key s lines := by
  obtain ⟨value, hvalue⟩ := Option.isSome_iff_exists.mp hdefault
  rw [segmentTotal, explicitNullTotal, map_map]
  refine congrArg List.sum (map_congr_left fun line _ => ?_)
  have hdim : dimension (effectiveLine definitions line) d.key d.storageColumn = none ↔
      line.extraDims.get? d.key = some none := by
    rw [dimension, hstorage]
    simp only [effectiveLine, get?_foldl_stampDefault, hvalue]
    cases line.extraDims.get? d.key with
    | none => simp
    | some x => cases x <;> simp
  simp [effectiveLine] at hdim ⊢
  simp [hdim]

variable {legs : List BalancingLeg}

theorem sum_views {groups : List GenericBalancingGroup}
    (h : List.Forall₂ (fun group leg => Clears leg group) groups legs) :
    segmentTotal definitions d s v (legs.map BalancingLeg.view) =
      -(groups.map fun group => if group.tuple.subsidiaryId = s ∧
        clearedDimension definitions d group.tuple = v then group.amount else 0).sum := by
  induction h with
  | nil => rfl
  | @cons group leg groups legs hclears _ ih =>
    rw [segmentTotal] at ih ⊢
    rw [map_cons, map_cons, map_cons, sum_cons, ih, map_cons, sum_cons, dimension_view hclears]
    have hsub : (effectiveLine definitions leg.view).subsidiaryId = group.tuple.subsidiaryId :=
      hclears.subsidiaryId_eq
    have hamount : (effectiveLine definitions leg.view).amount = -group.amount := hclears.amount_eq
    rw [hsub, hamount]
    split_ifs <;> ring

theorem segmentTotal_append (xs ys : List BalancingLineView) :
    segmentTotal definitions d s v (xs ++ ys) =
      segmentTotal definitions d s v xs + segmentTotal definitions d s v ys := by
  simp [segmentTotal]

/-- One line of a defaulted segment: a text is cleared where it stands, a null at the
default. -/
theorem cleared_at_default (sub s : String) (x v : Option String) (value : String) (amount : ℤ) :
    (if sub = s ∧ x = v then amount else 0) - (if sub = s ∧ x.or (some value) = v then amount else 0) =
      (if v = none then (if sub = s ∧ x = none then amount else 0) else 0) -
        (if v = some value then (if sub = s ∧ x = none then amount else 0) else 0) := by
  by_cases hs : sub = s
  · cases x with
    | some w => simp
    | none =>
      cases v with
      | none => simp [hs]
      | some u => by_cases hu : u = value <;> simp [hs, hu, eq_comm]
  · simp [hs]

variable {localeCompare : TupleOrder}

/-- **The total with the legs.** It is zero, except at the null and the default of a
defaulted segment: there the explicit nulls are left, and their legs. -/
theorem segmentTotal_viewWith
    (h : List.Forall₂ (fun group leg => Clears leg group)
      (genericBalancingGroups localeCompare (lines.map (effectiveLine definitions))) legs) :
    segmentTotal definitions d s v (viewWith lines legs) =
      if truthy d.storageColumn = none ∧ (stampedDefault definitions d.key).isSome then
        (if v = none then explicitNullTotal d.key s lines else 0) -
          (if v = stampedDefault definitions d.key then explicitNullTotal d.key s lines else 0)
      else 0 := by
  rw [viewWith, segmentTotal_append, sum_views h,
    sum_genericBalancingGroups localeCompare (lines.map (effectiveLine definitions))
      fun t => t.subsidiaryId = s ∧ clearedDimension definitions d t = v]
  have hown : segmentTotal definitions d s v lines =
      ((lines.map (effectiveLine definitions)).map fun line =>
        if line.subsidiaryId = s ∧ tupleDimension (dimensionTuple line) d.key d.storageColumn = v then
          line.amount else 0).sum := by
    rw [segmentTotal]
    simp only [dimension_eq_tupleDimension]
  by_cases hcase : truthy d.storageColumn = none ∧ (stampedDefault definitions d.key).isSome
  · rw [if_pos hcase]
    obtain ⟨hstorage, hdefault⟩ := hcase
    obtain ⟨value, hvalue⟩ := Option.isSome_iff_exists.mp hdefault
    rw [← segmentTotal_none hstorage hdefault (s := s), hown, segmentTotal, hvalue]
    generalize lines.map (effectiveLine definitions) = effective
    have hline : ∀ line : BalancingLineView,
        (if line.subsidiaryId = s ∧ tupleDimension (dimensionTuple line) d.key d.storageColumn = v then
            line.amount else 0) -
          (if (dimensionTuple line).subsidiaryId = s ∧
            clearedDimension definitions d (dimensionTuple line) = v then line.amount else 0) =
        (if v = none then (if line.subsidiaryId = s ∧ dimension line d.key d.storageColumn = none then
            line.amount else 0) else 0) -
          (if v = some value then (if line.subsidiaryId = s ∧
            dimension line d.key d.storageColumn = none then line.amount else 0) else 0) := by
      intro line
      rw [dimension_eq_tupleDimension, clearedDimension, tupleDimension, hstorage, hvalue]
      exact cleared_at_default line.subsidiaryId s _ v value line.amount
    calc _ = (effective.map fun line => (if line.subsidiaryId = s ∧
          tupleDimension (dimensionTuple line) d.key d.storageColumn = v then line.amount else 0) -
            (if (dimensionTuple line).subsidiaryId = s ∧
              clearedDimension definitions d (dimensionTuple line) = v then line.amount else 0)).sum := by
            rw [sum_map_sub]
            exact (sub_eq_add_neg _ _).symm
      _ = _ := by
            rw [map_congr_left fun line _ => hline line, sum_map_sub]
            split_ifs <;> simp
  · rw [if_neg hcase, hown]
    have hsame : ∀ t, clearedDimension definitions d t = tupleDimension t d.key d.storageColumn := by
      intro t
      rw [clearedDimension, tupleDimension]
      cases hstorage : truthy d.storageColumn with
      | none =>
        have hnone : stampedDefault definitions d.key = none := by
          rw [← Option.not_isSome_iff_eq_none]
          exact fun hsome => hcase ⟨hstorage, hsome⟩
        simp [hnone]
      | some column => rfl
    simp only [hsame]
    exact add_neg_cancel _

/-! ### Completeness -/

/-- Every subsidiary and value of every definition sums to zero. -/
def SegmentsComplete (definitions : List SegmentDefinition) (lines : List BalancingLineView) : Prop :=
  ∀ d ∈ definitions, ∀ s v, segmentTotal definitions d s v lines = 0

theorem segmentTotal_eq_sum_filter (d : SegmentDefinition) (k : String × Option String) :
    segmentTotal definitions d k.1 k.2 lines =
      (((lines.map (effectiveLine definitions)).filter fun line =>
        (line.subsidiaryId, dimension line d.key d.storageColumn) = k).map
          BalancingLineView.amount).sum := by
  rw [sum_map_filter_eq_ite, segmentTotal]
  simp only [Prod.ext_iff]

theorem isUnbalanced_eq_false_iff (d : SegmentDefinition) :
    isUnbalanced (lines.map (effectiveLine definitions)) d = false ↔
      ∀ s v, segmentTotal definitions d s v lines = 0 := by
  simp only [isUnbalanced, any_eq_false, decide_eq_true_eq, not_not]
  constructor
  · intro h s v
    rw [segmentTotal_eq_sum_filter d (s, v)]
    by_cases hmem : ∃ line ∈ lines.map (effectiveLine definitions),
        (line.subsidiaryId, dimension line d.key d.storageColumn) = (s, v)
    · exact h _ (mem_groupBy.mpr ⟨hmem, rfl⟩)
    · have hnil : (lines.map (effectiveLine definitions)).filter (fun line =>
          (line.subsidiaryId, dimension line d.key d.storageColumn) = (s, v)) = [] := by
        refine filter_eq_nil_iff.mpr fun line hline hkey => hmem ⟨line, hline, ?_⟩
        simpa using hkey
      rw [hnil]
      rfl
  · intro h g hg
    obtain ⟨-, hgroup⟩ := mem_groupBy.mp (show (g.1, g.2) ∈ _ from hg)
    rw [hgroup, ← segmentTotal_eq_sum_filter d g.1]
    exact h g.1.1 g.1.2

theorem provider_of_complete (env : BalancingEnv) (h : SegmentsComplete definitions lines) :
    genericSegmentBalancingProvider env definitions lines = .ok [] := by
  have hnone : definitions.filter (isUnbalanced (lines.map (effectiveLine definitions))) = [] := by
    refine filter_eq_nil_iff.mpr fun d hd => ?_
    rw [(isUnbalanced_eq_false_iff d).mpr (h d hd)]
    simp
  rw [genericSegmentBalancingProvider, hnone]

/-- Everything the provider looks up succeeds. -/
structure LookupsSucceed (env : BalancingEnv) (definitions : List SegmentDefinition) : Prop where
  policies : ∀ d ∈ definitions, (truthy d.accountId).isSome
  book : env.book.isSome
  bases : ∀ ids, ∃ currencies, env.resolveBookBases ids = .ok currencies
  accounts : ∀ isPrimary accountId s, ∃ mapped, clearingAccount env isPrimary accountId s = .ok mapped

/-- **What the provider returns**: nothing for complete lines, else one leg for each group
that does not sum to zero. -/
theorem provider_cases {env : BalancingEnv} (h : LookupsSucceed env definitions)
    (lines : List BalancingLineView) :
    ∃ legs, genericSegmentBalancingProvider env definitions lines = .ok legs ∧
      ((SegmentsComplete definitions lines ∧ legs = []) ∨
        List.Forall₂ (fun group leg => Clears leg group)
          (genericBalancingGroups env.localeCompare (lines.map (effectiveLine definitions))) legs) := by
  rw [genericSegmentBalancingProvider]
  dsimp only
  cases hfilter : definitions.filter (isUnbalanced (lines.map (effectiveLine definitions))) with
  | nil =>
    refine ⟨[], rfl, Or.inl ⟨fun d hd => ?_, rfl⟩⟩
    refine (isUnbalanced_eq_false_iff d).mp ?_
    rw [← Bool.not_eq_true]
    exact filter_eq_nil_iff.mp hfilter d hd
  | cons policy others =>
    have hmem : ∀ d ∈ policy :: others, d ∈ definitions := by
      intro d hd
      rw [← hfilter] at hd
      exact mem_of_mem_filter hd
    obtain ⟨isPrimary, hbook⟩ := Option.isSome_iff_exists.mp h.book
    obtain ⟨bases, hbases⟩ := h.bases ((genericBalancingGroups env.localeCompare
      (lines.map (effectiveLine definitions))).map GenericBalancingGroup.subsidiaryId)
    have hpolicies : (policy :: others).mapM (fun definition => orRefuse (truthy definition.accountId)
        (⟨"Balancing segment " ++ definition.key ++ " has no clearing policy for " ++ env.postingDate ++
          ". Configure a policy in Setup → Segment balancing policies."⟩ : PostingError)) =
        .ok ((policy :: others).map fun d => (truthy d.accountId).getD "") := by
      refine mapM_ok_of_forall fun d hd => orRefuse_eq_ok.mpr ?_
      obtain ⟨account, haccount⟩ := Option.isSome_iff_exists.mp (h.policies d (hmem d hd))
      rw [haccount]
      rfl
    have hlegs : ∀ group ∈ genericBalancingGroups env.localeCompare
        (lines.map (effectiveLine definitions)), ∃ leg,
        balancingLeg env isPrimary policy.key (policy.accountId.getD "") bases group = .ok leg := by
      intro group _
      obtain ⟨mapped, hmapped⟩ := h.accounts isPrimary (policy.accountId.getD "") group.subsidiaryId
      exact ⟨_, bind_eq_ok.mpr ⟨mapped, hmapped, rfl⟩⟩
    obtain ⟨legs, hforall⟩ := exists_forall₂ hlegs
    refine ⟨legs, ?_, Or.inr (hforall.imp fun group leg => clears_of_balancingLeg)⟩
    exact bind_eq_ok.mpr ⟨_, hpolicies, bind_eq_ok.mpr ⟨isPrimary, orRefuse_eq_ok.mpr hbook,
      bind_eq_ok.mpr ⟨bases, hbases, mapM_eq_ok.mpr hforall⟩⟩⟩

/-- The explicit nulls under every defaulted segment sum to zero in every subsidiary. -/
def ExplicitNullsBalanced (definitions : List SegmentDefinition) (lines : List BalancingLineView) :
    Prop :=
  ∀ d ∈ definitions, truthy d.storageColumn = none → d.defaultValueId.isSome →
    ∀ s, explicitNullTotal d.key s lines = 0

theorem segmentsComplete_viewWith_iff
    (h : List.Forall₂ (fun group leg => Clears leg group)
      (genericBalancingGroups localeCompare (lines.map (effectiveLine definitions))) legs) :
    SegmentsComplete definitions (viewWith lines legs) ↔ ExplicitNullsBalanced definitions lines := by
  constructor
  · intro hcomplete d hd hstorage hdefault s
    have hsome : (stampedDefault definitions d.key).isSome :=
      stampedDefault_isSome_iff.mpr ⟨d, hd, rfl, hstorage, hdefault⟩
    have hnull := hcomplete d hd s none
    rw [segmentTotal_viewWith h, if_pos ⟨hstorage, hsome⟩, if_pos rfl, if_neg, sub_zero] at hnull
    · exact hnull
    · intro hc
      rw [← hc] at hsome
      cases hsome
  · intro hnulls d hd s v
    rw [segmentTotal_viewWith h]
    split_ifs with hcase
    all_goals try rfl
    all_goals
      obtain ⟨-, hsome⟩ := hcase
      obtain ⟨d', hd', hkey, hstorage', hdefault'⟩ := stampedDefault_isSome_iff.mp hsome
      have hzero := hnulls d' hd' hstorage' hdefault' s
      rw [hkey] at hzero
      simp [hzero]

/-- **When generic segment balancing is complete and idempotent.** The provider returns
legs; with them every subsidiary and value of every balancing definition sums to zero, and
a second run returns no legs, exactly if the explicit nulls under every defaulted segment
sum to zero in every subsidiary. -/
theorem segmentBalancing_iff {env : BalancingEnv} (h : LookupsSucceed env definitions)
    (lines : List BalancingLineView) :
    ∃ legs, genericSegmentBalancingProvider env definitions lines = .ok legs ∧
      ((SegmentsComplete definitions (viewWith lines legs) ∧
          genericSegmentBalancingProvider env definitions (viewWith lines legs) = .ok []) ↔
        ExplicitNullsBalanced definitions lines) := by
  obtain ⟨legs, hrun, hlegs⟩ := provider_cases h lines
  refine ⟨legs, hrun, ?_⟩
  have hiff : SegmentsComplete definitions (viewWith lines legs) ↔
      ExplicitNullsBalanced definitions lines := by
    rcases hlegs with ⟨hcomplete, rfl⟩ | hforall
    · have hsame : viewWith lines [] = lines := append_nil _
      rw [hsame]
      refine ⟨fun _ d hd hstorage hdefault s => ?_, fun _ => hcomplete⟩
      have hsome : (stampedDefault definitions d.key).isSome :=
        stampedDefault_isSome_iff.mpr ⟨d, hd, rfl, hstorage, hdefault⟩
      rw [← segmentTotal_none hstorage hsome]
      exact hcomplete d hd s none
    · exact segmentsComplete_viewWith_iff hforall
  exact ⟨fun hboth => hiff.mp hboth.1,
    fun hnulls => ⟨hiff.mpr hnulls, provider_of_complete env (hiff.mpr hnulls)⟩⟩

/-- A primary book in which every lookup succeeds. -/
def primaryBookEnv : BalancingEnv where
  postingDate := "2026-10-18"
  localeCompare _ _ := true
  book := some true
  resolveBookBases _ := .ok fun _ => "CAD"
  applyBookAccountMaps accountId _ := .ok accountId
  clearingAccountAvailable _ := true

def fundDefinition : SegmentDefinition where
  key := "fund"
  defaultValueId := some "general"
  accountId := some "clearing"

theorem lookupsSucceed_primaryBookEnv : LookupsSucceed primaryBookEnv [fundDefinition] where
  policies := by decide
  book := rfl
  bases _ := ⟨_, rfl⟩
  accounts isPrimary accountId s := ⟨accountId, by cases isPrimary <;> rfl⟩

/-- A line of one subsidiary with a value under the fund segment. -/
def fundLine (amount : ℤ) (extraDims : Record (Option String)) : BalancingLineView where
  accountId := "expense"
  amount := amount
  subsidiaryId := "entity"
  currency := "CAD"
  txnAmount := amount
  fxRate := RATE_SCALE
  extraDims := extraDims

def fundDims (value : Option String) : Record (Option String) := ⟨[("fund", value)], by simp⟩

/-- **An explicit null is not cleared**: 4.0000 with a null fund against fund `a` leaves the
null at 4.0000 and the default fund at -4.0000, and a second run adds legs again. -/
theorem explicitNull_not_cleared :
    LookupsSucceed primaryBookEnv [fundDefinition] ∧
      ∃ legs, genericSegmentBalancingProvider primaryBookEnv [fundDefinition]
          [fundLine 40000 (fundDims none), fundLine (-40000) (fundDims (some "a"))] = .ok legs ∧
        segmentTotal [fundDefinition] fundDefinition "entity" none
          (viewWith [fundLine 40000 (fundDims none), fundLine (-40000) (fundDims (some "a"))] legs) =
            40000 ∧
        (genericSegmentBalancingProvider primaryBookEnv [fundDefinition]
          (viewWith [fundLine 40000 (fundDims none), fundLine (-40000) (fundDims (some "a"))]
            legs)).toOption.map List.length = some 2 := by
  have hruns : (genericSegmentBalancingProvider primaryBookEnv [fundDefinition]
      [fundLine 40000 (fundDims none), fundLine (-40000) (fundDims (some "a"))]).toOption.map
      (fun legs => (segmentTotal [fundDefinition] fundDefinition "entity" none
          (viewWith [fundLine 40000 (fundDims none), fundLine (-40000) (fundDims (some "a"))] legs),
        (genericSegmentBalancingProvider primaryBookEnv [fundDefinition]
          (viewWith [fundLine 40000 (fundDims none), fundLine (-40000) (fundDims (some "a"))]
            legs)).toOption.map List.length)) = some (40000, some 2) := by decide +kernel
  refine ⟨lookupsSucceed_primaryBookEnv, ?_⟩
  cases hrun : genericSegmentBalancingProvider primaryBookEnv [fundDefinition]
      [fundLine 40000 (fundDims none), fundLine (-40000) (fundDims (some "a"))] with
  | error e => simp [hrun, Except.toOption] at hruns
  | ok legs =>
    simp only [hrun, Except.toOption, Option.map_some, Option.some.injEq, Prod.mk.injEq] at hruns
    exact ⟨legs, rfl, hruns.1, hruns.2⟩

/-- The theorem at a missing value, which takes the default, against an assigned one. -/
theorem segmentBalancing_iff_missing :
    ∃ legs, genericSegmentBalancingProvider primaryBookEnv [fundDefinition]
        [fundLine 40000 Record.empty, fundLine (-40000) (fundDims (some "a"))] = .ok legs ∧
      SegmentsComplete [fundDefinition]
        (viewWith [fundLine 40000 Record.empty, fundLine (-40000) (fundDims (some "a"))] legs) ∧
      genericSegmentBalancingProvider primaryBookEnv [fundDefinition]
        (viewWith [fundLine 40000 Record.empty, fundLine (-40000) (fundDims (some "a"))] legs) =
          .ok [] := by
  obtain ⟨legs, hrun, hiff⟩ := segmentBalancing_iff lookupsSucceed_primaryBookEnv
    [fundLine 40000 Record.empty, fundLine (-40000) (fundDims (some "a"))]
  refine ⟨legs, hrun, hiff.mpr fun d hd _ _ s => ?_⟩
  obtain rfl := mem_singleton.mp hd
  simp [explicitNullTotal, fundLine, fundDims, fundDefinition, Record.get?, Record.empty]

end OpenBooks
