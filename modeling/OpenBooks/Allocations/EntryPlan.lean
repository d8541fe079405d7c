import OpenBooks.Allocations.Entry

/-!
# Every submitted line is planned once

Each step of `planEntryDistributions` appends to the output what comes of some submitted lines: an
`Block`. A block is **lawful** when its planned lines are one of the five fates of its sources
(`Fate`), and a fate keeps the sum of the amounts. `Accounts` says that the output so far is made of
lawful blocks and that every lineage row points at its line.

That leaves the sources. They are indices of the submitted lines, and the passes together take each
once. The link is the bitmap: after the second and third pass the handled indices *are* the sources.
-/

namespace OpenBooks

open Checked List

/-! ### Fates -/

/-- What can come of submitted lines. -/
inductive Fate : List EntryLineInput → List PlannedEntryLine → Prop
  | plain (line : EntryLineInput) : Fate [line] [plainLine line]
  | kept (line : EntryLineInput) (groupId ruleId versionId : Option String) (locked : Bool) :
    Fate [line] [{ plainLine line with
      distributionGroupId := groupId, distributionRuleId := ruleId
      distributionVersionId := versionId, distributionLocked := locked }]
  | exploded {line : EntryLineInput} {rule : RuleInEffect} {opts : ExplodeOptions}
    {result : ExplodeResult} (h : explodeDocumentLine line rule opts = .ok result) :
    Fate [line] result.children
  | collapsed {members : List EntryLineInput} {merged : EntryLineInput}
    (h : mergeMembers members = .ok merged) : Fate members [plainLine merged]
  | regenerated {members : List EntryLineInput} {merged : EntryLineInput} {rule : RuleInEffect}
    {opts : ExplodeOptions} {result : ExplodeResult} (hmerged : mergeMembers members = .ok merged)
    (h : explodeDocumentLine merged rule opts = .ok result) : Fate members result.children

variable {members : List EntryLineInput} {merged : EntryLineInput}

theorem amount_mergeMembers (h : mergeMembers members = .ok merged) :
    merged.amount = submittedTotal members := by
  simp only [mergeMembers, bind_eq_ok, orRefuse_eq_ok, pure_eq_ok] at h
  obtain ⟨first, -, _, -, rfl⟩ := h
  rfl

/-- **A fate keeps the amount.** -/
theorem Fate.sum_eq {planned : List PlannedEntryLine} (h : Fate members planned) :
    (planned.map PlannedEntryLine.amount).sum = (members.map EntryLineInput.amount).sum := by
  cases h with
  | plain line | kept line => rfl
  | exploded h =>
    obtain ⟨hsum, -⟩ := explodeDocumentLine_aligned h
    simpa using hsum
  | collapsed h => simpa [plainLine, submittedTotal] using amount_mergeMembers h
  | regenerated hmerged h =>
    obtain ⟨hsum, -⟩ := explodeDocumentLine_aligned h
    rw [hsum, amount_mergeMembers hmerged, submittedTotal]

/-! ### Blocks -/

/-- Submitted lines, by index, and what comes of them. -/
structure Block where
  sources : List ℕ
  planned : List PlannedEntryLine

/-- A line in the planner's hands is the submitted line at an index, up to the stamps of
a group. -/
def IsLineAt (lines : List EntryLineInput) (i : ℕ) (line : EntryLineInput) : Prop :=
  ∃ submitted, lines[i]? = some submitted ∧ stripped line = stripped submitted

/-- A block is lawful if its planned lines are a fate of its sources. -/
def Block.Lawful (lines : List EntryLineInput) (b : Block) : Prop :=
  ∃ members, List.Forall₂ (IsLineAt lines) b.sources members ∧ Fate members b.planned

theorem amount_eq_of_isLineAt {lines : List EntryLineInput} {i : ℕ} {line : EntryLineInput}
    (h : IsLineAt lines i line) : (lines[i]?.map EntryLineInput.amount).getD 0 = line.amount := by
  obtain ⟨submitted, hsubmitted, hstripped⟩ := h
  have hamount : (stripped line).amount = (stripped submitted).amount := by rw [hstripped]
  rw [hsubmitted]
  exact hamount.symm

theorem Block.Lawful.sum_eq {lines : List EntryLineInput} {b : Block} (h : b.Lawful lines) :
    (b.planned.map PlannedEntryLine.amount).sum =
      (b.sources.map fun i => (lines[i]?.map EntryLineInput.amount).getD 0).sum := by
  obtain ⟨members, hmembers, hfate⟩ := h
  rw [hfate.sum_eq]
  clear hfate
  generalize b.sources = indices at hmembers ⊢
  induction hmembers with
  | nil => rfl
  | cons hline _ ih => rw [map_cons, sum_cons, map_cons, sum_cons, ih,
      amount_eq_of_isLineAt hline]

/-- A lineage row points at a planned line with its amount, rule and version. -/
def PlannedEntryLineage.PointsInto (row : PlannedEntryLineage) (output : List PlannedEntryLine) :
    Prop :=
  ∃ line, output[row.targetLineIndex]? = some line ∧ line.amount = row.amount ∧
    line.distributionRuleId = some row.ruleId ∧ line.distributionVersionId = some row.versionId

theorem PlannedEntryLineage.PointsInto.append {row : PlannedEntryLineage}
    {output : List PlannedEntryLine} (h : row.PointsInto output) (more : List PlannedEntryLine) :
    row.PointsInto (output ++ more) := by
  obtain ⟨line, hline, hrest⟩ := h
  refine ⟨line, ?_, hrest⟩
  rw [getElem?_append_left (List.getElem?_eq_some_iff.mp hline).1, hline]

variable {rule : RuleInEffect}

theorem toLineage_pointsInto {line : EntryLineInput} {opts : ExplodeOptions}
    {result : ExplodeResult} (h : explodeDocumentLine line rule opts = .ok result)
    (output : List PlannedEntryLine) (source : Option String) :
    ∀ row ∈ toLineage rule result output.length source,
      row.PointsInto (output ++ result.children) := by
  obtain ⟨-, hamounts, hstamps⟩ := explodeDocumentLine_aligned h
  intro row hrow
  obtain ⟨i, hi, rfl⟩ := mem_mapIdx.mp hrow
  have hlen : result.apportionments.length = result.children.length := by
    simpa using congrArg List.length hamounts
  have hi' : i < result.children.length := hlen ▸ hi
  have hamount : (result.children[i]).amount = (result.apportionments[i]).amount := by
    have := congrArg (fun l : List ℤ => l[i]?) hamounts
    simpa [getElem?_eq_getElem hi, getElem?_eq_getElem hi'] using this.symm
  refine ⟨result.children[i], ?_, hamount, hstamps _ (getElem_mem hi')⟩
  simp [getElem?_append_right, getElem?_eq_getElem hi']

/-! ### The account of a state -/

/-- The output so far is made of lawful blocks with these sources, every lineage row
points at its line, and the lines in hand are the submitted ones up to stamps. -/
structure Accounts (lines : List EntryLineInput) (s : PlanState) (sources : List ℕ) : Prop where
  lines_eq : s.lines.map stripped = lines.map stripped
  blocks : ∃ blocks : List Block, s.output = blocks.flatMap Block.planned ∧
    sources = blocks.flatMap Block.sources ∧ ∀ b ∈ blocks, b.Lawful lines
  lineage : ∀ row ∈ s.lineage, row.PointsInto s.output

variable {lines : List EntryLineInput} {s s' : PlanState} {sources : List ℕ}

theorem Accounts.start (lines : List EntryLineInput) : Accounts lines { lines := lines } [] where
  lines_eq := rfl
  blocks := ⟨[], rfl, rfl, by simp⟩
  lineage := by simp

theorem Accounts.isLineAt (h : Accounts lines s sources) {i : ℕ} {line : EntryLineInput}
    (hline : s.lines[i]? = some line) : IsLineAt lines i line := by
  have hi := congrArg (fun l : List EntryLineInput => l[i]?) h.lines_eq
  simp only [getElem?_map, hline, Option.map_some] at hi
  obtain ⟨submitted, hsubmitted, heq⟩ := Option.map_eq_some_iff.mp hi.symm
  exact ⟨submitted, hsubmitted, heq.symm⟩

/-- **Appending a lawful block.** -/
theorem Accounts.append (h : Accounts lines s sources) {b : Block} (hb : b.Lawful lines)
    (hlines : s'.lines = s.lines) (houtput : s'.output = s.output ++ b.planned)
    (hlineage : ∀ row ∈ s'.lineage, row ∈ s.lineage ∨ row.PointsInto s'.output) :
    Accounts lines s' (sources ++ b.sources) where
  lines_eq := hlines ▸ h.lines_eq
  blocks := by
    obtain ⟨blocks, hout, hsources, hlawful⟩ := h.blocks
    refine ⟨blocks ++ [b], by simp [houtput, hout], by simp [hsources], ?_⟩
    intro b' hb'
    rcases mem_append.mp hb' with hb' | hb'
    · exact hlawful b' hb'
    · rwa [mem_singleton.mp hb']
  lineage := by
    intro row hrow
    rcases hlineage row hrow with hold | hnew
    · rw [houtput]
      exact (h.lineage row hold).append _
    · exact hnew

variable {indices : List ℕ} {opts : PlanOptions}

theorem Accounts.explode {line : EntryLineInput} {groupId : String} {source : Option String}
    (h : Accounts lines s sources) (hrun : s.explode opts line rule groupId source = .ok s')
    (hmembers : List.Forall₂ (IsLineAt lines) indices members)
    (hfate : ∀ result, explodeDocumentLine line rule (opts.explodeOptions rule groupId) = .ok result →
      Fate members result.children) :
    Accounts lines s' (sources ++ indices) ∧ s'.lines = s.lines ∧ s'.handled = s.handled ∧
      s'.collapsedGroups = s.collapsedGroups := by
  simp only [PlanState.explode, bind_eq_ok, pure_eq_ok] at hrun
  obtain ⟨result, hresult, rfl⟩ := hrun
  refine ⟨?_, rfl, rfl, rfl⟩
  refine h.append (b := ⟨indices, result.children⟩) ⟨members, hmembers, hfate result hresult⟩ rfl rfl ?_
  intro row hrow
  rcases mem_append.mp hrow with hrow | hrow
  · exact Or.inl hrow
  · exact Or.inr (toLineage_pointsInto hresult s.output source row hrow)

/-- Nothing but the bitmap and the counters changes. -/
theorem Accounts.congr (h : Accounts lines s sources) (hlines : s'.lines = s.lines)
    (houtput : s'.output = s.output) (hlineage : s'.lineage = s.lineage) :
    Accounts lines s' sources :=
  ⟨hlines ▸ h.lines_eq, houtput ▸ h.blocks, hlineage ▸ houtput ▸ h.lineage⟩

theorem Accounts.explodeFresh {line : EntryLineInput} {i : ℕ} (h : Accounts lines s sources)
    (hline : IsLineAt lines i line) (hrun : s.explodeFresh opts line rule = .ok s') :
    Accounts lines s' (sources ++ [i]) ∧ s'.lines = s.lines ∧ s'.handled = s.handled ∧
      s'.collapsedGroups = s.collapsedGroups :=
  have hminted : Accounts lines { s with minted := s.minted + 1 } sources := h.congr rfl rfl rfl
  hminted.explode hrun (Forall₂.cons hline Forall₂.nil) fun _ hresult =>
    Fate.exploded hresult

/-! ### The first pass -/

/-- A line asks for a rule by key. -/
def keyed (line : EntryLineInput) : Bool := (truthy line.distributionKey).isSome

/-- The indices of the lines that satisfy a predicate. -/
def indicesWhere (p : EntryLineInput → Bool) (ps : List (EntryLineInput × ℕ)) : List ℕ :=
  (ps.filter fun x => p x.1).map Prod.snd

theorem nodup_indicesWhere (p : EntryLineInput → Bool) (lines : List EntryLineInput) :
    (indicesWhere p lines.zipIdx).Nodup := by
  have hsub : (indicesWhere p lines.zipIdx).Sublist (lines.zipIdx.map Prod.snd) :=
    filter_sublist.map _
  refine hsub.nodup ?_
  rw [zipIdx_map_snd]
  exact nodup_range'

theorem mem_indicesWhere {p : EntryLineInput → Bool} {i : ℕ} :
    i ∈ indicesWhere p lines.zipIdx ↔ ∃ line, lines[i]? = some line ∧ p line = true := by
  simp [indicesWhere, mem_zipIdx_iff_getElem?]

theorem getElem?_of_zipIdx_eq {done rest : List (EntryLineInput × ℕ)} {line : EntryLineInput} {i : ℕ}
    (h : lines.zipIdx = done ++ (line, i) :: rest) : lines[i]? = some line := by
  refine mk_mem_zipIdx_iff_getElem?.mp ?_
  rw [h]
  simp

variable {rules : List RuleInEffect}

/-- **The first pass** explodes the keyed lines and handles just these. -/
theorem explicit_pass
    (h : lines.zipIdx.foldlM (explicitStep rules opts) { lines := lines } = .ok s) :
    s.lines = lines ∧ s.collapsedGroups = [] ∧
      Accounts lines s (indicesWhere keyed lines.zipIdx) ∧
      ∀ i, i ∈ s.handled ↔ i ∈ indicesWhere keyed lines.zipIdx := by
  refine foldlM_invariant (fun done s => s.lines = lines ∧ s.collapsedGroups = [] ∧
    Accounts lines s (indicesWhere keyed done) ∧
    ∀ i, i ∈ s.handled ↔ i ∈ indicesWhere keyed done) h ⟨rfl, rfl, Accounts.start lines, by simp [indicesWhere]⟩ ?_
  rintro done ⟨line, i⟩ rest s s' hdone ⟨hlines, hcollapsed, haccounts, hhandled⟩ hstep
  have hline : s.lines[i]? = some line := hlines ▸ getElem?_of_zipIdx_eq hdone
  rw [explicitStep] at hstep
  split at hstep
  · rename_i hkey
    obtain rfl := Except.ok.inj hstep
    have hsame : indicesWhere keyed (done ++ [(line, i)]) = indicesWhere keyed done := by
      simp [indicesWhere, keyed, hkey]
    rw [hsame]
    exact ⟨hlines, hcollapsed, haccounts, hhandled⟩
  · rename_i key hkey
    simp only [bind_eq_ok, pure_eq_ok] at hstep
    obtain ⟨rule, -, s₁, hrun, rfl⟩ := hstep
    obtain ⟨haccounts₁, hlines₁, hhandled₁, hcollapsed₁⟩ :=
      haccounts.explodeFresh (haccounts.isLineAt hline) hrun
    have hadd : indicesWhere keyed (done ++ [(line, i)]) = indicesWhere keyed done ++ [i] := by
      simp [indicesWhere, keyed, hkey]
    rw [hadd]
    refine ⟨hlines₁.trans hlines, hcollapsed₁.trans hcollapsed, haccounts₁.congr rfl rfl rfl, ?_⟩
    intro j
    simp [PlanState.markHandled, hhandled₁, hhandled, or_comm]

/-! ### The second pass -/

/-- A line without a key that belongs to one of some groups. -/
def inGroups (groups : List String) (line : EntryLineInput) : Prop :=
  keyed line = false ∧ ∃ g ∈ groups, truthy line.distributionGroupId = some g

/-- Between two steps of the second pass: the sources are the keyed lines and the whole of
each collapsed group; the handled are the keyed lines and the lines passed so far that
are to be collapsed. -/
structure CollapseInv (lines : List EntryLineInput) (unsplit : List String)
    (done : List (EntryLineInput × ℕ)) (s : PlanState) (sources : List ℕ) : Prop where
  lines_eq : s.lines = lines
  accounts : Accounts lines s sources
  nodup : sources.Nodup
  mem_sources : ∀ i, i ∈ sources ↔
    ∃ line, lines[i]? = some line ∧ (keyed line = true ∨ inGroups s.collapsedGroups line)
  mem_handled : ∀ i, i ∈ s.handled ↔
    ∃ line, lines[i]? = some line ∧ (keyed line = true ∨ (line, i) ∈ done ∧ inGroups unsplit line)
  collapsed_sub : ∀ g ∈ s.collapsedGroups, g ∈ unsplit
  collapsed_of_done : ∀ p ∈ done, inGroups unsplit p.1 → inGroups s.collapsedGroups p.1

variable {unsplit : List String} {done : List (EntryLineInput × ℕ)} {line : EntryLineInput} {i : ℕ}

theorem CollapseInv.skip (h : CollapseInv lines unsplit done s sources)
    (hline : lines[i]? = some line) (hskip : i ∈ s.handled ∨ ¬inGroups unsplit line) :
    CollapseInv lines unsplit (done ++ [(line, i)]) s sources where
  lines_eq := h.lines_eq
  accounts := h.accounts
  nodup := h.nodup
  mem_sources := h.mem_sources
  mem_handled := by
    intro j
    constructor
    · intro hj
      obtain ⟨l, hl, hwhy⟩ := (h.mem_handled j).mp hj
      exact ⟨l, hl, hwhy.imp id fun hw => ⟨by simp [hw.1], hw.2⟩⟩
    · rintro ⟨l, hl, hkey | ⟨hdone, hin⟩⟩
      · exact (h.mem_handled j).mpr ⟨l, hl, Or.inl hkey⟩
      · rcases mem_append.mp hdone with hdone | hlast
        · exact (h.mem_handled j).mpr ⟨l, hl, Or.inr ⟨hdone, hin⟩⟩
        · obtain ⟨rfl, rfl⟩ := Prod.mk.inj (mem_singleton.mp hlast)
          exact hskip.resolve_right (not_not_intro hin)
  collapsed_sub := h.collapsed_sub
  collapsed_of_done := by
    intro p hp hin
    rcases mem_append.mp hp with hp | hlast
    · exact h.collapsed_of_done p hp hin
    · obtain rfl := mem_singleton.mp hlast
      have hhandled := hskip.resolve_right (not_not_intro hin)
      obtain ⟨l, hl, hwhy⟩ := (h.mem_handled i).mp hhandled
      obtain rfl : line = l := Option.some.inj (hline.symm.trans hl)
      rcases hwhy with hkey | ⟨hdone, -⟩
      · exact absurd hkey (by simp [hin.1])
      · exact h.collapsed_of_done _ hdone hin

theorem CollapseInv.mark (h : CollapseInv lines unsplit done s sources)
    (hline : lines[i]? = some line) (hin : inGroups unsplit line)
    (hcollapsed : inGroups s.collapsedGroups line) :
    CollapseInv lines unsplit (done ++ [(line, i)]) (s.markHandled [i]) sources where
  lines_eq := h.lines_eq
  accounts := h.accounts.congr rfl rfl rfl
  nodup := h.nodup
  mem_sources := h.mem_sources
  mem_handled := by
    intro j
    rw [PlanState.markHandled, mem_append, mem_singleton, h.mem_handled]
    constructor
    · rintro (rfl | ⟨l, hl, hwhy⟩)
      · exact ⟨line, hline, Or.inr ⟨by simp, hin⟩⟩
      · exact ⟨l, hl, hwhy.imp id fun hw => ⟨by simp [hw.1], hw.2⟩⟩
    · rintro ⟨l, hl, hkey | ⟨hdone, hin'⟩⟩
      · exact Or.inr ⟨l, hl, Or.inl hkey⟩
      · rcases mem_append.mp hdone with hdone | hlast
        · exact Or.inr ⟨l, hl, Or.inr ⟨hdone, hin'⟩⟩
        · exact Or.inl (Prod.mk.inj (mem_singleton.mp hlast)).2
  collapsed_sub := h.collapsed_sub
  collapsed_of_done := by
    intro p hp hin'
    rcases mem_append.mp hp with hp | hlast
    · exact h.collapsed_of_done p hp hin'
    · rw [mem_singleton.mp hlast]
      exact hcollapsed

theorem truthy_eq_some {text : Option String} {g : String} :
    truthy text = some g ↔ text = some g ∧ g ≠ "" := by
  simp [truthy, Option.filter_eq_some_iff]

theorem forall₂_groupMembers (h : Accounts lines s sources) (g : String) :
    List.Forall₂ (IsLineAt lines) ((groupMembers s.lines g).map Prod.snd)
      ((groupMembers s.lines g).map Prod.fst) := by
  rw [forall₂_map_left_iff, forall₂_map_right_iff]
  refine forall₂_same.mpr fun p hp => ?_
  exact h.isLineAt (mem_zipIdx_iff_getElem?.mp (mem_of_mem_filter hp))

theorem CollapseInv.collapse (h : CollapseInv lines unsplit done s sources) {g : String}
    (hne : g ≠ "") (hunsplit : g ∈ unsplit) (hnew : g ∉ s.collapsedGroups)
    (hmerged : mergeMembers ((groupMembers s.lines g).map Prod.fst) = .ok merged) :
    CollapseInv lines unsplit done
      { s with
        collapsedGroups := g :: s.collapsedGroups
        output := s.output ++ [plainLine merged]
        exploded := true }
      (sources ++ (groupMembers s.lines g).map Prod.snd) := by
  have hmembers : ∀ j, j ∈ (groupMembers s.lines g).map Prod.snd ↔
      ∃ l, lines[j]? = some l ∧ keyed l = false ∧ truthy l.distributionGroupId = some g := by
    intro j
    have hwhere := @mem_indicesWhere lines
      (fun l => l.distributionGroupId = some g ∧ truthy l.distributionKey = none) j
    rw [h.lines_eq]
    simpa [groupMembers, indicesWhere, keyed, truthy_eq_some, hne, and_comm] using hwhere
  refine ⟨h.lines_eq, ?_, ?_, ?_, h.mem_handled, ?_, ?_⟩
  · exact h.accounts.append (b := ⟨(groupMembers s.lines g).map Prod.snd, [plainLine merged]⟩)
      ⟨_, forall₂_groupMembers h.accounts g, Fate.collapsed hmerged⟩ rfl rfl
      fun row hrow => Or.inl hrow
  · refine nodup_append.mpr ⟨h.nodup, ?_, ?_⟩
    · exact nodup_indicesWhere (fun l => l.distributionGroupId = some g ∧
        truthy l.distributionKey = none) s.lines
    · rintro j hj _ hj' rfl
      obtain ⟨l, hl, hkey, hgroup⟩ := (hmembers j).mp hj'
      obtain ⟨l', hl', hwhy⟩ := (h.mem_sources j).mp hj
      obtain rfl : l = l' := Option.some.inj (hl.symm.trans hl')
      rcases hwhy with hkeyed | ⟨-, g', hg', hgroup'⟩
      · exact absurd hkeyed (by simp [hkey])
      · exact hnew (Option.some.inj (hgroup.symm.trans hgroup') ▸ hg')
  · intro j
    rw [mem_append, h.mem_sources, hmembers]
    constructor
    · rintro (⟨l, hl, hwhy⟩ | ⟨l, hl, hkey, hgroup⟩)
      · exact ⟨l, hl, hwhy.imp id fun ⟨hkey, g', hg', hgroup⟩ => ⟨hkey, g', by simp [hg'], hgroup⟩⟩
      · exact ⟨l, hl, Or.inr ⟨hkey, g, by simp, hgroup⟩⟩
    · rintro ⟨l, hl, hkeyed | ⟨hkey, g', hg', hgroup⟩⟩
      · exact Or.inl ⟨l, hl, Or.inl hkeyed⟩
      · rcases mem_cons.mp hg' with rfl | hg'
        · exact Or.inr ⟨l, hl, hkey, hgroup⟩
        · exact Or.inl ⟨l, hl, Or.inr ⟨hkey, g', hg', hgroup⟩⟩
  · exact forall_mem_cons.mpr ⟨hunsplit, h.collapsed_sub⟩
  · intro p hp hin
    obtain ⟨hkey, g', hg', hgroup⟩ := h.collapsed_of_done p hp hin
    exact ⟨hkey, g', by simp [hg'], hgroup⟩

variable {p : EntryLineInput × ℕ}

theorem CollapseInv.step (h : CollapseInv lines unsplit done s sources)
    (hline : lines[p.2]? = some p.1) (hstep : collapseStep unsplit s p = .ok s') :
    ∃ sources', CollapseInv lines unsplit (done ++ [p]) s' sources' := by
  obtain ⟨line, i⟩ := p
  rw [collapseStep] at hstep
  split_ifs at hstep with hhandled
  · obtain rfl := Except.ok.inj hstep
    exact ⟨sources, h.skip hline (Or.inl hhandled)⟩
  have hkey : keyed line = false := by
    by_contra hkeyed
    exact hhandled ((h.mem_handled i).mpr ⟨line, hline, Or.inl (by simpa using hkeyed)⟩)
  split at hstep
  · rename_i hnone
    obtain rfl := Except.ok.inj hstep
    refine ⟨sources, h.skip hline (Or.inr ?_)⟩
    rintro ⟨-, g, -, hg⟩
    rw [hnone] at hg
    cases hg
  · rename_i g hg
    split_ifs at hstep with hunsplit hcollapsed
    · obtain rfl := Except.ok.inj hstep
      have hin : inGroups unsplit line := ⟨hkey, g, h.collapsed_sub g hcollapsed, hg⟩
      exact ⟨sources, h.mark hline hin ⟨hkey, g, hcollapsed, hg⟩⟩
    · simp only [bind_eq_ok, pure_eq_ok] at hstep
      obtain ⟨merged, hmerged, rfl⟩ := hstep
      have hnew := h.collapse (truthy_eq_some.mp hg).2 hunsplit hcollapsed hmerged
      exact ⟨_, hnew.mark hline ⟨hkey, g, hunsplit, hg⟩ ⟨hkey, g, by simp, hg⟩⟩
    · obtain rfl := Except.ok.inj hstep
      refine ⟨sources, h.skip hline (Or.inr ?_)⟩
      rintro ⟨-, g', hg', hgroup⟩
      exact hunsplit (Option.some.inj (hg.symm.trans hgroup) ▸ hg')

/-- **The second pass** collapses every group it is to collapse, whole, and handles the
keyed lines and the members of these groups. -/
theorem collapse_pass (hlines : s.lines = lines) (hcollapsed : s.collapsedGroups = [])
    (haccounts : Accounts lines s (indicesWhere keyed lines.zipIdx))
    (hhandled : ∀ i, i ∈ s.handled ↔ i ∈ indicesWhere keyed lines.zipIdx)
    (h : s.lines.zipIdx.foldlM (collapseStep unsplit) s = .ok s') :
    s'.lines = lines ∧ ∃ sources, Accounts lines s' sources ∧ sources.Nodup ∧
      (∀ i, i ∈ s'.handled ↔ i ∈ sources) ∧
      ∀ i ∈ sources, ∃ line, lines[i]? = some line ∧ (keyed line = true ∨ inGroups unsplit line) := by
  rw [hlines] at h
  have hstart : CollapseInv lines unsplit [] s (indicesWhere keyed lines.zipIdx) := by
    refine ⟨hlines, haccounts, nodup_indicesWhere keyed lines, ?_, ?_, by simp [hcollapsed], by simp⟩
    · intro i
      simp [mem_indicesWhere, hcollapsed, inGroups]
    · intro i
      simp [hhandled, mem_indicesWhere]
  obtain ⟨sources, hend⟩ := foldlM_invariant
    (fun done s => ∃ sources, CollapseInv lines unsplit done s sources) h ⟨_, hstart⟩
    fun done p rest s s' hdone ⟨sources, hinv⟩ hstep => hinv.step (getElem?_of_zipIdx_eq hdone) hstep
  refine ⟨hend.lines_eq, sources, hend.accounts, hend.nodup, ?_, ?_⟩
  · intro i
    rw [hend.mem_handled, hend.mem_sources]
    constructor
    · rintro ⟨l, hl, hkeyed | ⟨hdone, hin⟩⟩
      · exact ⟨l, hl, Or.inl hkeyed⟩
      · exact ⟨l, hl, Or.inr (hend.collapsed_of_done _ hdone hin)⟩
    · rintro ⟨l, hl, hkeyed | ⟨hkey, g, hg, hgroup⟩⟩
      · exact ⟨l, hl, Or.inl hkeyed⟩
      · exact ⟨l, hl, Or.inr ⟨mk_mem_zipIdx_iff_getElem?.mpr hl, hkey, g,
          hend.collapsed_sub g hg, hgroup⟩⟩
  · intro i hi
    obtain ⟨l, hl, hkeyed | ⟨hkey, g, hg, hgroup⟩⟩ := (hend.mem_sources i).mp hi
    · exact ⟨l, hl, Or.inl hkeyed⟩
    · exact ⟨l, hl, Or.inr ⟨hkey, g, hend.collapsed_sub g hg, hgroup⟩⟩

/-! ### The third pass -/

theorem flatMap_memberIndicesByGroup (unsplit : List String) (lines : List EntryLineInput) :
    ((memberIndicesByGroup unsplit lines).flatMap Prod.snd).Perm
      (indicesWhere (belongsToGroup unsplit) lines.zipIdx) := by
  rw [memberIndicesByGroup, flatMap_map]
  have hperm := (FirstSeen.flatMap_groupBy_perm
    (fun p : EntryLineInput × ℕ => p.1.distributionGroupId.getD "")
    (lines.zipIdx.filter fun p => belongsToGroup unsplit p.1)).map Prod.snd
  rwa [map_flatMap] at hperm

theorem forall₂_filterMap (h : Accounts lines s sources)
    (hrange : ∀ i ∈ indices, i < lines.length) :
    List.Forall₂ (IsLineAt lines) indices (indices.filterMap fun i => s.lines[i]?) := by
  have hlen : s.lines.length = lines.length := by
    simpa using congrArg List.length h.lines_eq
  induction indices with
  | nil => exact Forall₂.nil
  | cons i is ih =>
    have hi : i < s.lines.length := by
      rw [hlen]
      exact hrange i (by simp)
    have hline := getElem?_eq_getElem hi
    rw [filterMap_cons_some hline]
    exact Forall₂.cons (h.isLineAt hline) (ih fun j hj => hrange j (by simp [hj]))

theorem Accounts.keep (h : Accounts lines s sources)
    (hmembers : List.Forall₂ (IsLineAt lines) indices members)
    {f : EntryLineInput → PlannedEntryLine} (hf : ∀ m, Fate [m] [f m]) :
    Accounts lines (s.keep indices (members.map f)) (sources ++ indices) := by
  suffices hrun : ∀ s', s'.lines = s.lines → s'.lineage = s.lineage →
      s'.output = s.output ++ members.map f → Accounts lines s' (sources ++ indices) from
    hrun _ rfl rfl rfl
  induction hmembers generalizing s sources with
  | nil =>
    intro s' hlines hlineage houtput
    rw [append_nil]
    exact h.congr hlines (by simpa using houtput) hlineage
  | @cons i m is ms hline _ ih =>
    intro s' hlines hlineage houtput
    have hone : Accounts lines { s with output := s.output ++ [f m] } (sources ++ [i]) :=
      h.append (b := ⟨[i], [f m]⟩) ⟨[m], Forall₂.cons hline Forall₂.nil, hf m⟩ rfl rfl
        fun row hrow => Or.inl hrow
    have hrest := ih hone s' hlines hlineage (by simp [houtput])
    simpa using hrest

theorem Accounts.strip (h : Accounts lines s sources) (indices : List ℕ) :
    Accounts lines { s with lines := s.lines.mapIdx fun i l => if i ∈ indices then stripped l else l }
      sources := by
  refine ⟨?_, h.blocks, h.lineage⟩
  have hkeep : (s.lines.mapIdx fun i l => if i ∈ indices then stripped l else l).map stripped =
      s.lines.map stripped := by
    refine map_mapIdx_of_forall fun i l => ?_
    split_ifs <;> rfl
  exact hkeep.trans h.lines_eq

/-- **One group** is stripped, or becomes sources: all of its members, which are then
handled. -/
theorem groupStep_accounts {g : String × List ℕ} (h : Accounts lines s sources)
    (hrange : ∀ i ∈ g.2, i < lines.length) (hstep : groupStep rules opts s g = .ok s') :
    (Accounts lines s' sources ∧ s'.handled = s.handled) ∨
      (Accounts lines s' (sources ++ g.2) ∧ s'.handled = g.2 ++ s.handled) := by
  have hmembers := forall₂_filterMap h hrange
  simp only [groupStep] at hstep
  split at hstep
  · split_ifs at hstep with hlocked
    · obtain rfl := Except.ok.inj hstep
      exact Or.inr ⟨h.keep hmembers fun m => Fate.kept m _ _ _ _, rfl⟩
    · obtain rfl := Except.ok.inj hstep
      exact Or.inl ⟨h.strip g.2, rfl⟩
  · split_ifs at hstep with hkept
    · obtain rfl := Except.ok.inj hstep
      exact Or.inr ⟨h.keep hmembers fun m => Fate.kept m _ _ _ _, rfl⟩
    · split at hstep
      · obtain rfl := Except.ok.inj hstep
        exact Or.inr ⟨h.keep hmembers fun m => Fate.kept m _ _ _ _, rfl⟩
      · simp only [bind_eq_ok, pure_eq_ok] at hstep
        obtain ⟨merged, hmerged, s₁, hrun, rfl⟩ := hstep
        obtain ⟨haccounts, -, hhandled, -⟩ :=
          h.explode hrun hmembers fun _ hresult => Fate.regenerated hmerged hresult
        exact Or.inr ⟨haccounts.congr rfl rfl rfl, by simp [PlanState.markHandled, hhandled]⟩

/-- **The third pass** keeps the handled indices and the sources the same. -/
theorem group_pass {groups : List (String × List ℕ)} (haccounts : Accounts lines s sources)
    (hnodup : (sources ++ groups.flatMap Prod.snd).Nodup)
    (hhandled : ∀ i, i ∈ s.handled ↔ i ∈ sources)
    (hrange : ∀ i ∈ groups.flatMap Prod.snd, i < lines.length)
    (h : groups.foldlM (groupStep rules opts) s = .ok s') :
    ∃ sources', Accounts lines s' sources' ∧ sources'.Nodup ∧
      ∀ i, i ∈ s'.handled ↔ i ∈ sources' := by
  obtain ⟨sources', haccounts', hsub, hhandled'⟩ := foldlM_invariant
    (fun done s => ∃ sources', Accounts lines s sources' ∧
      sources'.Sublist (sources ++ done.flatMap Prod.snd) ∧ ∀ i, i ∈ s.handled ↔ i ∈ sources') h
    ⟨sources, haccounts, by simp, hhandled⟩ (by
      rintro done g rest s s' hgroups ⟨sources', haccounts, hsub, hhandled⟩ hstep
      have hg : ∀ i ∈ g.2, i < lines.length := fun i hi => hrange i (by
        rw [hgroups]
        exact mem_flatMap.mpr ⟨g, by simp, hi⟩)
      rcases groupStep_accounts haccounts hg hstep with ⟨haccounts', hsame⟩ | ⟨haccounts', hmore⟩
      · refine ⟨sources', haccounts', ?_, fun i => hsame ▸ hhandled i⟩
        rw [flatMap_append, ← append_assoc]
        exact hsub.trans (sublist_append_left _ _)
      · refine ⟨sources' ++ g.2, haccounts', ?_, fun i => ?_⟩
        · rw [flatMap_append, ← append_assoc, flatMap_singleton]
          exact hsub.append (Sublist.refl _)
        · rw [hmore, mem_append, mem_append, hhandled, or_comm])
  exact ⟨sources', haccounts', hsub.nodup hnodup, hhandled'⟩

/-! ### The last pass -/

variable {doc : EntryDocumentContext}

theorem matchStep_accounts (h : Accounts lines s sources) (hline : s.lines[p.2]? = some p.1)
    (hstep : matchStep doc rules opts s p = .ok s') :
    Accounts lines s' (if p.2 ∈ s.handled then sources else sources ++ [p.2]) ∧
      s'.lines = s.lines ∧ s'.handled = s.handled := by
  rw [matchStep] at hstep
  split_ifs at hstep ⊢ with hhandled
  · obtain rfl := Except.ok.inj hstep
    exact ⟨h, rfl, rfl⟩
  · split at hstep
    · obtain rfl := Except.ok.inj hstep
      refine ⟨?_, rfl, rfl⟩
      exact h.append (b := ⟨[p.2], [plainLine p.1]⟩)
        ⟨[p.1], Forall₂.cons (h.isLineAt hline) Forall₂.nil, Fate.plain p.1⟩ rfl rfl
        fun row hrow => Or.inl hrow
    · obtain ⟨haccounts, hlines, hhandled', -⟩ := h.explodeFresh (h.isLineAt hline) hstep
      exact ⟨haccounts, hlines, hhandled'⟩

/-- **The last pass** makes a source of every line that is not handled. -/
theorem match_pass (haccounts : Accounts lines s sources)
    (h : s.lines.zipIdx.foldlM (matchStep doc rules opts) s = .ok s') :
    Accounts lines s' (sources ++ (List.range lines.length).filter fun i => i ∉ s.handled) := by
  have hlen : s.lines.length = lines.length := by
    simpa using congrArg List.length haccounts.lines_eq
  have hend := foldlM_invariant (fun done s₁ => s₁.lines = s.lines ∧ s₁.handled = s.handled ∧
    Accounts lines s₁ (sources ++ (done.map Prod.snd).filter fun i => i ∉ s.handled)) h
    ⟨rfl, rfl, by simpa using haccounts⟩ (by
      rintro done p rest s₁ s₂ hdone ⟨hlines, hhandled, haccounts₁⟩ hstep
      have hline : s₁.lines[p.2]? = some p.1 := hlines ▸ getElem?_of_zipIdx_eq hdone
      obtain ⟨haccounts₂, hlines₂, hhandled₂⟩ := matchStep_accounts haccounts₁ hline hstep
      refine ⟨hlines₂.trans hlines, hhandled₂.trans hhandled, ?_⟩
      rw [hhandled] at haccounts₂
      by_cases hp : p.2 ∈ s.handled
      · simpa [hp] using haccounts₂
      · simpa [hp] using haccounts₂)
  have hall := hend.2.2
  rwa [zipIdx_map_snd, hlen, ← range_eq_range'] at hall

/-! ### The plan -/

theorem range_map_getElem? (lines : List EntryLineInput) :
    ((List.range lines.length).map fun i => (lines[i]?.map EntryLineInput.amount).getD 0) =
      lines.map EntryLineInput.amount := by
  refine ext_getElem (by simp) fun i h₁ h₂ => ?_
  have hi : i < lines.length := by simpa using h₁
  simp [getElem?_eq_getElem hi]

theorem sum_planned_blocks {blocks : List Block} (h : ∀ b ∈ blocks, b.Lawful lines) :
    ((blocks.flatMap Block.planned).map PlannedEntryLine.amount).sum =
      ((blocks.flatMap Block.sources).map fun i =>
        (lines[i]?.map EntryLineInput.amount).getD 0).sum := by
  induction blocks with
  | nil => rfl
  | cons b bs ih =>
    obtain ⟨hb, hbs⟩ := forall_mem_cons.mp h
    rw [flatMap_cons, map_append, sum_append, hb.sum_eq, ih hbs, flatMap_cons,
      map_append, sum_append]

theorem not_belongsToGroup (h : keyed line = true ∨ inGroups unsplit line) :
    belongsToGroup unsplit line = false := by
  rw [Bool.eq_false_iff]
  intro hbelongs
  simp only [belongsToGroup, decide_eq_true_eq] at hbelongs
  obtain ⟨hkey, g, hg, hnot⟩ := hbelongs
  rcases h with hkeyed | ⟨-, g', hg', hgroup⟩
  · simp [keyed, hkey] at hkeyed
  · exact hnot (Option.some.inj (hgroup.symm.trans hg) ▸ hg')

theorem perm_range_of_complement {n : ℕ} {marked : List ℕ} (hnodup : indices.Nodup)
    (hmarked : ∀ i, i ∈ marked ↔ i ∈ indices) (hrange : ∀ i ∈ indices, i < n) :
    (indices ++ (List.range n).filter fun i => i ∉ marked).Perm (List.range n) := by
  refine (perm_ext_iff_of_nodup ?_ nodup_range).mpr ?_
  · refine nodup_append.mpr ⟨hnodup, nodup_range.filter _, ?_⟩
    rintro i hi _ hi' rfl
    simp [hmarked, hi] at hi'
  · intro i
    simp only [mem_append, mem_filter, mem_range, hmarked, decide_eq_true_eq]
    constructor
    · rintro (hi | ⟨hi, -⟩)
      · exact hrange i hi
      · exact hi
    · intro hi
      by_cases hmem : i ∈ indices
      · exact Or.inl hmem
      · exact Or.inr ⟨hi, hmem⟩

theorem Accounts.lt_length (h : Accounts lines s sources) : ∀ i ∈ sources, i < lines.length := by
  obtain ⟨blocks, -, rfl, hlawful⟩ := h.blocks
  intro i hi
  obtain ⟨b, hb, hib⟩ := mem_flatMap.mp hi
  obtain ⟨members, hmembers, -⟩ := hlawful b hb
  clear hi hb hlawful
  generalize b.sources = indices at hmembers hib
  induction hmembers with
  | nil => cases hib
  | cons hline _ ih =>
    rcases mem_cons.mp hib with rfl | hib
    · obtain ⟨submitted, hsubmitted, -⟩ := hline
      exact (List.getElem?_eq_some_iff.mp hsubmitted).1
    · exact ih hib

/-- The four passes account for every submitted line. -/
theorem planEntryDistributions_state {plan : EntryPlan}
    (h : planEntryDistributions doc lines rules opts = .ok plan) :
    ∃ s sources, Accounts lines s sources ∧ sources.Perm (List.range lines.length) ∧
      plan.lines = s.output ∧ plan.lineage = s.lineage := by
  simp only [planEntryDistributions, bind_eq_ok, pure_eq_ok] at h
  obtain ⟨s₁, h₁, s₂, h₂, s₃, h₃, s₄, h₄, rfl⟩ := h
  obtain ⟨hlines₁, hcollapsed₁, haccounts₁, hhandled₁⟩ := explicit_pass h₁
  obtain ⟨-, sources₂, haccounts₂, hnodup₂, hhandled₂, hwhy₂⟩ :=
    collapse_pass hlines₁ hcollapsed₁ haccounts₁ hhandled₁ h₂
  have hperm := flatMap_memberIndicesByGroup doc.unsplitDistributionGroups lines
  have hgroups : ∀ i ∈ (memberIndicesByGroup doc.unsplitDistributionGroups lines).flatMap Prod.snd,
      ∃ l, lines[i]? = some l ∧ belongsToGroup doc.unsplitDistributionGroups l = true :=
    fun i hi => mem_indicesWhere.mp (hperm.mem_iff.mp hi)
  have hnodup : (sources₂ ++
      (memberIndicesByGroup doc.unsplitDistributionGroups lines).flatMap Prod.snd).Nodup := by
    refine nodup_append.mpr ⟨hnodup₂, hperm.nodup_iff.mpr (nodup_indicesWhere _ _), ?_⟩
    rintro i hi _ hi' rfl
    obtain ⟨l, hl, hbelongs⟩ := hgroups i hi'
    obtain ⟨l', hl', hwhy⟩ := hwhy₂ i hi
    obtain rfl : l = l' := Option.some.inj (hl.symm.trans hl')
    rw [not_belongsToGroup hwhy] at hbelongs
    cases hbelongs
  obtain ⟨sources₃, haccounts₃, hnodup₃, hhandled₃⟩ := group_pass haccounts₂ hnodup hhandled₂
    (fun i hi => (List.getElem?_eq_some_iff.mp (hgroups i hi).choose_spec.1).1) h₃
  exact ⟨s₄, _, match_pass haccounts₃ h₄,
    perm_range_of_complement hnodup₃ hhandled₃ haccounts₃.lt_length, rfl, rfl⟩

/-- **A plan accounts for the submission.** Whenever the planner returns, the planned
amounts sum to the submitted ones; the planned lines fall into blocks, each a fate of its
sources, whose sources are the submitted lines, each once; and every lineage row points
at a planned line with its amount, rule and version. -/
theorem planEntryDistributions_accounts {doc : EntryDocumentContext} {rules : List RuleInEffect}
    {opts : PlanOptions} {plan : EntryPlan}
    (h : planEntryDistributions doc lines rules opts = .ok plan) :
    (plan.lines.map PlannedEntryLine.amount).sum = (lines.map EntryLineInput.amount).sum ∧
      (∃ blocks : List Block, plan.lines = blocks.flatMap Block.planned ∧
        (blocks.flatMap Block.sources).Perm (List.range lines.length) ∧
        ∀ b ∈ blocks, b.Lawful lines) ∧
      ∀ row ∈ plan.lineage, row.PointsInto plan.lines := by
  obtain ⟨s, sources, haccounts, hperm, hplanLines, hplanLineage⟩ := planEntryDistributions_state h
  obtain ⟨blocks, houtput, rfl, hlawful⟩ := haccounts.blocks
  rw [hplanLines, hplanLineage]
  refine ⟨?_, ⟨blocks, houtput, hperm, hlawful⟩, haccounts.lineage⟩
  rw [houtput, sum_planned_blocks hlawful, (hperm.map _).sum_eq, range_map_getElem?]

/-- Halves to two departments, the odd unit on the first. -/
def halvesRule : RuleInEffect where
  rule := ⟨"r1", "halves", "Halves", 0⟩
  version := { id := "v1" }
  targets := [{ sequence := 1, departmentId := some "sales", fixedPercent := some 500000 },
    { sequence := 2, departmentId := some "ops", isRemainder := true }]

/-- A keyed line with a stale group, two lines of a group to be collapsed, an edited
member of a stored group, and a member of an unknown one. -/
def mixedSubmission : List EntryLineInput :=
  [{ accountId := "6000", amount := 100001, distributionKey := some "halves",
     distributionGroupId := some "old" },
   { accountId := "6100", amount := 30000, distributionGroupId := some "old" },
   { accountId := "6100", amount := 20000, distributionGroupId := some "old" },
   { accountId := "6200", amount := 70000, distributionGroupId := some "kept" },
   { accountId := "6300", amount := 5, distributionGroupId := some "unknown" }]

def mixedOptions : PlanOptions where
  existingGroups g := if g = "kept" then some ⟨"kept", some "r1", some "v0", false, "6.0000", ["l9"]⟩
    else none
  newGroupId n := "g" ++ toString n

theorem planEntryDistributions_accounts_mixed :
    ∃ plan, planEntryDistributions { kind := "bill", unsplitDistributionGroups := ["old"] }
        mixedSubmission [halvesRule] mixedOptions = .ok plan ∧
      (plan.lines.map PlannedEntryLine.amount).sum =
        (mixedSubmission.map EntryLineInput.amount).sum ∧
      ∀ row ∈ plan.lineage, row.PointsInto plan.lines := by
  have hok : (planEntryDistributions { kind := "bill", unsplitDistributionGroups := ["old"] }
      mixedSubmission [halvesRule] mixedOptions).isOk = true := by decide +kernel
  cases hplan : planEntryDistributions { kind := "bill", unsplitDistributionGroups := ["old"] }
      mixedSubmission [halvesRule] mixedOptions with
  | error e =>
    rw [hplan] at hok
    cases hok
  | ok plan =>
    obtain ⟨hsum, -, hlineage⟩ := planEntryDistributions_accounts hplan
    exact ⟨plan, rfl, hsum, hlineage⟩

end OpenBooks
