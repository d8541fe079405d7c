import OpenBooks.Banking.OpenDocuments
import OpenBooks.Lib.ListSum
import OpenBooks.Lib.Record
import Mathlib.Data.List.Perm.Subperm

/-!
# Proposals settle the line

What `rankOpenDocuments` promises of its proposals. Each settles the line exactly (`Settles`): the
cash applied to its documents and what stays on account make up the amount, no document gets more
than is open on it, and the documents belong to one party, account and subsidiary. The exact ones
come first.

No combination is missed (`FindsCombinations`) where the bounded search considers all documents and
ends within its bounds.

Documents are grouped by a text that joins the party, the account and the subsidiary with a bar;
identifiers that hold one need not be told apart by it (`settlementGroupKey_inj`).
-/

namespace OpenBooks

open Checked Comparators List

/-! ### Groups -/

/-- Identifiers that the key of a group tells apart. -/
structure OpenDocumentFacts.PlainIds (doc : OpenDocumentFacts) : Prop where
  party : '|' ∉ doc.partyId.toList
  account : '|' ∉ doc.accountId.toList
  subsidiary : doc.subsidiaryId ≠ some ""

instance (doc : OpenDocumentFacts) : Decidable doc.PlainIds :=
  decidable_of_iff ('|' ∉ doc.partyId.toList ∧ '|' ∉ doc.accountId.toList ∧
    doc.subsidiaryId ≠ some "")
    ⟨fun h => ⟨h.1, h.2.1, h.2.2⟩, fun h => ⟨h.party, h.account, h.subsidiary⟩⟩

/-- Documents that may be paid together. -/
structure OpenDocumentFacts.Together (a b : OpenDocumentFacts) : Prop where
  party : a.partyId = b.partyId
  account : a.accountId = b.accountId
  subsidiary : a.subsidiaryId = b.subsidiaryId

instance (a b : OpenDocumentFacts) : Decidable (a.Together b) :=
  decidable_of_iff (a.partyId = b.partyId ∧ a.accountId = b.accountId ∧
    a.subsidiaryId = b.subsidiaryId)
    ⟨fun h => ⟨h.1, h.2.1, h.2.2⟩, fun h => ⟨h.party, h.account, h.subsidiary⟩⟩

theorem append_cons_inj_of_first {α : Type} {x : α} {as bs cs ds : List α} (has : x ∉ as)
    (hbs : x ∉ bs) (h : as ++ x :: cs = bs ++ x :: ds) : as = bs ∧ cs = ds := by
  induction as generalizing bs with
  | nil =>
    cases bs with
    | nil => exact ⟨rfl, (List.cons.inj h).2⟩
    | cons b bs => exact absurd (mem_cons.mpr (Or.inl (List.cons.inj h).1)) hbs
  | cons a as ih =>
    cases bs with
    | nil => exact absurd (mem_cons.mpr (Or.inl (List.cons.inj h).1.symm)) has
    | cons b bs =>
      obtain ⟨rfl, hrest⟩ := List.cons.inj h
      obtain ⟨rfl, hcs⟩ :=
        ih (fun hx => has (mem_cons_of_mem _ hx)) (fun hx => hbs (mem_cons_of_mem _ hx)) hrest
      exact ⟨rfl, hcs⟩

theorem toList_settlementGroupKey (doc : OpenDocumentFacts) :
    (settlementGroupKey doc).toList = doc.partyId.toList ++ '|' :: (doc.accountId.toList ++
      '|' :: (doc.subsidiaryId.getD "").toList) := by
  simp [settlementGroupKey, String.toList_append]

/-- **The key of a group tells plain identifiers apart.** -/
theorem settlementGroupKey_inj {a b : OpenDocumentFacts} (ha : a.PlainIds) (hb : b.PlainIds) :
    settlementGroupKey a = settlementGroupKey b ↔ a.Together b := by
  constructor
  · intro h
    have h := congrArg String.toList h
    rw [toList_settlementGroupKey, toList_settlementGroupKey] at h
    obtain ⟨hparty, h⟩ := append_cons_inj_of_first ha.party hb.party h
    obtain ⟨haccount, hsubsidiary⟩ := append_cons_inj_of_first ha.account hb.account h
    refine ⟨String.toList_inj.mp hparty, String.toList_inj.mp haccount, ?_⟩
    have hsubsidiary := String.toList_inj.mp hsubsidiary
    have hane := ha.subsidiary
    have hbne := hb.subsidiary
    cases hasub : a.subsidiaryId with
    | none =>
      cases hbsub : b.subsidiaryId with
      | none => rfl
      | some s =>
        rw [hasub, hbsub] at hsubsidiary
        exact absurd (by rw [hbsub]; exact congrArg some hsubsidiary.symm) hbne
    | some s =>
      cases hbsub : b.subsidiaryId with
      | none =>
        rw [hasub, hbsub] at hsubsidiary
        exact absurd (by rw [hasub]; exact congrArg some hsubsidiary) hane
      | some t =>
        rw [hasub, hbsub] at hsubsidiary
        exact congrArg some hsubsidiary
  · intro h
    rw [settlementGroupKey, settlementGroupKey, h.party, h.account, h.subsidiary]

/-! ### Ranked documents -/

variable {rules : TextRules} {target : ℤ} {evidence : List (String × DocumentEvidence)}
  {candidates : List OpenDocumentFacts} {d : RankedOpenDocument}

@[simp] theorem toOpenDocumentFacts_rankDocument (doc : OpenDocumentFacts) :
    (rankDocument target evidence doc).toOpenDocumentFacts = doc := rfl

theorem mem_rankedDocuments :
    d ∈ rankedDocuments rules target evidence candidates ↔
      (d.toOpenDocumentFacts ∈ candidates ∧ 0 < d.transactionOpen) ∧
        d = rankDocument target evidence d.toOpenDocumentFacts := by
  rw [rankedDocuments, mem_sorted, mem_map]
  constructor
  · rintro ⟨doc, hdoc, rfl⟩
    obtain ⟨hmem, hopen⟩ := mem_filter.mp hdoc
    exact ⟨⟨hmem, by simpa using hopen⟩, rfl⟩
  · rintro ⟨⟨hmem, hopen⟩, hd⟩
    exact ⟨d.toOpenDocumentFacts, mem_filter.mpr ⟨hmem, by simpa using hopen⟩, hd.symm⟩

theorem nodup_rankedDocuments (hids : (candidates.map (·.openLineId)).Nodup) :
    ((rankedDocuments rules target evidence candidates).map (·.openLineId)).Nodup := by
  have hperm := (perm_sorted (compareDocuments rules)
    ((candidates.filter fun doc => 0 < doc.transactionOpen).map
      (rankDocument target evidence))).map (·.openLineId)
  refine hperm.nodup_iff.mpr ?_
  rw [map_map]
  exact hids.sublist (filter_sublist.map _)

/-! ### Settling the line -/

/-- A proposal settles the line: cash and what stays on account make up the amount, no document
gets more than is open on it, and the documents may be paid together. -/
structure Settles (amount : ℤ) (candidates : List OpenDocumentFacts) (p : OpenDocumentProposal) :
    Prop where
  total : (p.applied.map Prod.snd).sum + p.onAccount = amount
  lines : p.applied.map Prod.fst = p.openLineIds
  distinct : p.openLineIds.Nodup
  bounded : ∀ entry ∈ p.applied, ∃ doc ∈ candidates,
    doc.openLineId = entry.1 ∧ 0 < entry.2 ∧ entry.2 ≤ doc.transactionOpen
  party : ∀ doc ∈ candidates, doc.openLineId ∈ p.openLineIds → doc.partyId = p.partyId
  together : ∀ a ∈ candidates, a.openLineId ∈ p.openLineIds →
    ∀ b ∈ candidates, b.openLineId ∈ p.openLineIds → a.Together b
  cleared : p.settlement ≠ .overpayment → p.onAccount = 0

section Settles

variable {p : OpenDocumentProposal} (hids : (candidates.map (·.openLineId)).Nodup)

include hids

/-- A proposal that pays some of the candidates settles the line. -/
theorem settles_of {docs : List RankedOpenDocument} {cash : RankedOpenDocument → ℤ}
    (hdocs : ∀ d ∈ docs, d.toOpenDocumentFacts ∈ candidates)
    (hlines : p.openLineIds = docs.map (·.openLineId)) (hdistinct : p.openLineIds.Nodup)
    (happlied : p.applied = docs.map fun d => (d.openLineId, cash d))
    (hcash : ∀ d ∈ docs, 0 < cash d ∧ cash d ≤ d.transactionOpen)
    (htotal : (docs.map cash).sum + p.onAccount = target)
    (hparty : ∀ d ∈ docs, d.partyId = p.partyId)
    (htogether : ∀ d ∈ docs, ∀ d' ∈ docs, d.toOpenDocumentFacts.Together d'.toOpenDocumentFacts)
    (hcleared : p.settlement ≠ .overpayment → p.onAccount = 0) : Settles target candidates p := by
  -- A candidate whose line is paid is one of the documents.
  have hpaid : ∀ c ∈ candidates, c.openLineId ∈ p.openLineIds →
      ∃ d ∈ docs, d.toOpenDocumentFacts = c := by
    intro c hc hline
    rw [hlines] at hline
    obtain ⟨d, hd, heq⟩ := mem_map.mp hline
    exact ⟨d, hd, inj_on_of_nodup_map hids (hdocs d hd) hc heq⟩
  refine ⟨?_, ?_, hdistinct, ?_, ?_, ?_, hcleared⟩
  · rw [happlied, map_map]
    exact htotal
  · rw [happlied, hlines, map_map]
    rfl
  · intro entry hentry
    rw [happlied] at hentry
    obtain ⟨d, hd, rfl⟩ := mem_map.mp hentry
    exact ⟨d.toOpenDocumentFacts, hdocs d hd, rfl, hcash d hd⟩
  · intro c hc hline
    obtain ⟨d, hd, rfl⟩ := hpaid c hc hline
    exact hparty d hd
  · intro a ha hline b hb hline'
    obtain ⟨d, hd, rfl⟩ := hpaid a ha hline
    obtain ⟨d', hd', rfl⟩ := hpaid b hb hline'
    exact htogether d hd d' hd'

theorem settles_of_one {cash : ℤ} (hd : d.toOpenDocumentFacts ∈ candidates)
    (hlines : p.openLineIds = [d.openLineId]) (happlied : p.applied = [(d.openLineId, cash)])
    (hpositive : 0 < cash) (hopen : cash ≤ d.transactionOpen) (htotal : cash + p.onAccount = target)
    (hparty : d.partyId = p.partyId) (hcleared : p.settlement ≠ .overpayment → p.onAccount = 0) :
    Settles target candidates p := by
  have happlied' : p.applied = [d].map fun d => (d.openLineId, cash) := happlied
  have hlines' : p.openLineIds = [d].map (·.openLineId) := hlines
  refine settles_of hids ?_ hlines' ?_ happlied' ?_ ?_ ?_ ?_ hcleared
  · simpa using hd
  · rw [hlines]
    exact nodup_singleton _
  · simpa using ⟨hpositive, hopen⟩
  · simpa using htotal
  · simpa using hparty
  · simpa using (⟨rfl, rfl, rfl⟩ : d.toOpenDocumentFacts.Together d.toOpenDocumentFacts)

theorem settles_exactProposal (htarget : 0 < target)
    (hd : d ∈ rankedDocuments rules target evidence candidates)
    (hopen : d.transactionOpen = target) : Settles target candidates (exactProposal target d) :=
  settles_of_one hids (mem_rankedDocuments.mp hd).1.1 rfl rfl htarget hopen.ge (add_zero _) rfl
    fun _ => rfl

theorem settles_evidenceProposal (htarget : 0 < target)
    (hd : d ∈ rankedDocuments rules target evidence candidates)
    (hp : evidenceProposal target evidence d = some p) :
    Settles target candidates p ∧ p.settlement ≠ .exact := by
  obtain ⟨⟨hd, hopen⟩, -⟩ := mem_rankedDocuments.mp hd
  simp only [evidenceProposal] at hp
  split_ifs at hp with hlarger hsmaller
  · obtain rfl := Option.some.inj hp
    exact ⟨settles_of_one hids hd rfl rfl htarget hlarger.1.le (add_zero _) rfl fun _ => rfl,
      by simp⟩
  · obtain rfl := Option.some.inj hp
    refine ⟨settles_of_one hids hd rfl rfl hopen le_rfl (add_sub_cancel _ _) rfl ?_, by simp⟩
    exact fun hne => absurd rfl hne

end Settles

/-! ### Combinations settle the line -/

theorem fromEntries_of_nodup {entries : List (String × ℤ)} (h : (entries.map Prod.fst).Nodup) :
    fromEntries entries = entries := by
  have hreverse : (entries.reverse.map Prod.fst).Nodup := by
    rw [map_reverse]
    exact nodup_reverse.mpr h
  rw [fromEntries, FirstSeen.keys_eq_map h, map_map]
  refine (map_congr_left fun entry hentry => ?_).trans (map_id entries)
  have hlookup := (Record.lookup_eq_some_iff hreverse).mpr (mem_reverse.mpr hentry)
  simp [hlookup]

variable {maxGroupItems : ℤ} {documents : List RankedOpenDocument}

section Combinations

variable {group : List RankedOpenDocument}

theorem of_mem_documentGroups (hgroup : group ∈ documentGroups target maxGroupItems documents) :
    group.Sublist documents ∧
      ∀ d ∈ group, ∀ d' ∈ group, settlementGroupKey d.toOpenDocumentFacts =
        settlementGroupKey d'.toOpenDocumentFacts := by
  obtain ⟨⟨key, docs⟩, hmem, rfl⟩ := mem_map.mp hgroup
  obtain ⟨-, rfl⟩ := FirstSeen.mem_groupBy.mp hmem
  refine ⟨(take_sublist _ _).trans (filter_sublist.trans filter_sublist), ?_⟩
  have hkey : ∀ d ∈ ((documents.filter fun doc => doc.transactionOpen < target).filter fun doc =>
      settlementGroupKey doc.toOpenDocumentFacts = key).take maxGroupItems.toNat,
      settlementGroupKey d.toOpenDocumentFacts = key := fun d hd => by
    simpa using (mem_filter.mp (mem_of_mem_take hd)).2
  exact fun d hd d' hd' => (hkey d hd).trans (hkey d' hd').symm

variable {found : List RankedOpenDocument}

/-- What the search finds is a part of the group that sums to the target. -/
theorem of_mem_exactSubsets {maxSize : ℤ} {limit : ℕ}
    (h : found ∈ exactSubsets rules group target maxSize limit) :
    found.Subperm group ∧ (found.map (·.transactionOpen)).sum = target ∧ 2 ≤ found.length ∧
      ∀ d ∈ found, 0 < d.transactionOpen := by
  obtain ⟨hcompletes, hsize⟩ := SubsetSearch.sound_search h
  exact ⟨hcompletes.sublist.subperm.trans (perm_sorted _ _).subperm, hcompletes.sum, hsize,
    hcompletes.positive⟩

/-- **A combination settles the line.** -/
theorem settles_combinedProposal (hids : (candidates.map (·.openLineId)).Nodup)
    (hplain : ∀ doc ∈ candidates, doc.PlainIds) {maxSize : ℤ} {limit : ℕ}
    (hgroup : group ∈ documentGroups target maxGroupItems
      (rankedDocuments rules target evidence candidates))
    (hfound : found ∈ exactSubsets rules group target maxSize limit) :
    Settles target candidates (combinedProposal rules target evidence found) := by
  obtain ⟨hsublist, hkey⟩ := of_mem_documentGroups hgroup
  obtain ⟨hsubperm, hsum, hsize, hpositive⟩ := of_mem_exactSubsets hfound
  have hordered : (sorted (compareDocuments rules) found).Perm found := perm_sorted _ _
  have hmem : ∀ d ∈ sorted (compareDocuments rules) found, d ∈ group := fun d hd =>
    hsubperm.subset (hordered.mem_iff.mp hd)
  have hranked : ∀ d ∈ group, d ∈ rankedDocuments rules target evidence candidates := fun d hd =>
    hsublist.subset hd
  have hnodup : ((sorted (compareDocuments rules) found).map (·.openLineId)).Nodup := by
    obtain ⟨docs, hdocs, hsub⟩ := hsubperm.trans hsublist.subperm
    exact ((hordered.trans hdocs.symm).map _).nodup_iff.mpr
      ((nodup_rankedDocuments hids).sublist (hsub.map _))
  have htogether : ∀ d ∈ group, ∀ d' ∈ group,
      d.toOpenDocumentFacts.Together d'.toOpenDocumentFacts := fun d hd d' hd' =>
    (settlementGroupKey_inj (hplain _ (mem_rankedDocuments.mp (hranked d hd)).1.1)
      (hplain _ (mem_rankedDocuments.mp (hranked d' hd')).1.1)).mp (hkey d hd d' hd')
  obtain ⟨first, rest, hfirst⟩ : ∃ first rest, sorted (compareDocuments rules) found =
      first :: rest := by
    refine exists_cons_of_ne_nil fun hnil => ?_
    rw [← hordered.length_eq, hnil, length_nil] at hsize
    omega
  have hfirstMem : first ∈ group := hmem first (hfirst ▸ mem_cons_self)
  have happlied : (combinedProposal rules target evidence found).applied =
      (sorted (compareDocuments rules) found).map fun d => (d.openLineId, d.transactionOpen) := by
    refine fromEntries_of_nodup ?_
    rw [map_map]
    exact hnodup
  refine settles_of hids (fun d hd => (mem_rankedDocuments.mp (hranked d (hmem d hd))).1.1) rfl
    hnodup happlied ?_ ?_ ?_ ?_ fun _ => rfl
  · exact fun d hd => ⟨hpositive d (hordered.mem_iff.mp hd), le_rfl⟩
  · rw [(hordered.map _).sum_eq, hsum]
    exact add_zero _
  · intro d hd
    rw [(htogether d (hmem d hd) first hfirstMem).party]
    simp [combinedProposal, hfirst]
  · exact fun d hd d' hd' => htogether d (hmem d hd) d' (hmem d' hd')

end Combinations

/-! ### Exact settlements first -/

theorem coherent_compareProposals (documents : List RankedOpenDocument) :
    Coherent (compareProposals rules documents) := by
  refine coherent_firstNonzero [
    fun a b => exactFirst a - exactFirst b,
    fun a b => b.score - a.score,
    fun a b => (a.openLineIds.length : ℤ) - b.openLineIds.length,
    fun a b => rules.localeCompare (firstDue documents a) (firstDue documents b),
    fun a b => rules.localeCompare (",".intercalate a.openLineIds)
      (",".intercalate b.openLineIds)] ?_
  simp only [forall_mem_cons, not_mem_nil, false_imp_iff, implies_true, and_true]
  exact ⟨coherent_sub _, coherent_sub_swap _,
    coherent_sub fun p : OpenDocumentProposal => (p.openLineIds.length : ℤ),
    rules.coherent.comap _, rules.coherent.comap fun p : OpenDocumentProposal =>
      ",".intercalate p.openLineIds⟩

theorem exact_of_compareProposals {a b : OpenDocumentProposal}
    (h : compareProposals rules documents a b ≤ 0) (hb : b.settlement = .exact) :
    a.settlement = .exact := by
  have hfirst := head_nonpos_of_firstNonzero h
  by_contra ha
  rw [exactFirst, exactFirst, if_neg ha, if_pos hb] at hfirst
  omega

/-! ### Combinations are found -/

/-- The documents, smaller than the line, that may be paid together with one. -/
def partyGroup (target : ℤ) (documents : List RankedOpenDocument) (doc : OpenDocumentFacts) :
    List RankedOpenDocument :=
  documents.filter fun d => d.transactionOpen < target ∧ d.toOpenDocumentFacts.Together doc

/-- **No combination is missed**: if the documents that may be paid together with one are no more
than are considered, and the search among them ends within its bounds, then every admitted subset
of them that sums to the amount is found and proposed. -/
def FindsCombinations (rules : TextRules) (target : ℤ) (options : RankOptions)
    (candidates : List OpenDocumentFacts) (documents : List RankedOpenDocument)
    (proposals : List OpenDocumentProposal) : Prop :=
  ∀ doc ∈ candidates,
    let group := partyGroup target documents doc
    let maxSize := options.maxCombinationSize.getD 4
    (group.length : ℤ) ≤ options.maxGroupItems.getD 24 →
    (searchSubsets rules group target maxSize 3).Open (subsetBounds maxSize 3) →
    ∀ subset : List OpenDocumentFacts, subset.Nodup →
      (∀ c ∈ subset, c ∈ candidates ∧ 0 < c.transactionOpen ∧ c.Together doc) →
      2 ≤ subset.length → (subset.length : ℤ) ≤ maxSize →
      (subset.map (·.transactionOpen)).sum = target →
      ∃ found ∈ exactSubsets rules group target maxSize 3,
        (found.map (·.toOpenDocumentFacts)).Perm subset ∧
          ∃ p ∈ proposals, p.settlement = .exact ∧
            p.openLineIds.Perm (subset.map (·.openLineId))

section Found

variable {doc : OpenDocumentFacts}

theorem partyGroup_mem_documentGroups (hplain : ∀ doc ∈ candidates, doc.PlainIds)
    (hdoc : doc ∈ candidates)
    (hne : partyGroup target (rankedDocuments rules target evidence candidates) doc ≠ [])
    (hlength : ((partyGroup target (rankedDocuments rules target evidence candidates) doc).length :
      ℤ) ≤ maxGroupItems) :
    partyGroup target (rankedDocuments rules target evidence candidates) doc ∈
      documentGroups target maxGroupItems (rankedDocuments rules target evidence candidates) := by
  set documents := rankedDocuments rules target evidence candidates with hdocuments
  -- The group of the key is the group of the party, account and subsidiary.
  have hgroup : ((documents.filter fun d => d.transactionOpen < target).filter fun d =>
      settlementGroupKey d.toOpenDocumentFacts = settlementGroupKey doc) =
        partyGroup target documents doc := by
    rw [partyGroup, filter_filter]
    refine filter_congr fun d hd => ?_
    have hkey := settlementGroupKey_inj (hplain _ (mem_rankedDocuments.mp hd).1.1) (hplain _ hdoc)
    simp [hkey, Bool.and_comm]
  obtain ⟨d, hd⟩ := exists_mem_of_ne_nil _ hne
  rw [← hgroup] at hd
  obtain ⟨hsmall, hkey⟩ := mem_filter.mp hd
  refine mem_map.mpr ⟨(settlementGroupKey doc, partyGroup target documents doc), ?_, ?_⟩
  · exact FirstSeen.mem_groupBy.mpr ⟨⟨d, hsmall, by simpa using hkey⟩, hgroup.symm⟩
  · have htake : (partyGroup target documents doc).length ≤ maxGroupItems.toNat := by omega
    exact take_of_length_le htake

theorem findsCombinations (hplain : ∀ doc ∈ candidates, doc.PlainIds) (options : RankOptions) :
    FindsCombinations rules target options candidates
      (rankedDocuments rules target evidence candidates)
      (settlementProposals rules target options evidence
        (rankedDocuments rules target evidence candidates)) := by
  intro doc hdoc group maxSize hlength hopen subset hnodup hsubset hmin hmax hsum
  have hsmall : ∀ c ∈ subset, c.transactionOpen < target := fun c hc =>
    hsum ▸ ListSum.lt_sum_of_mem hc (fun c hc => (hsubset c hc).2.1) hmin
  have hranked : ∀ d ∈ subset.map (rankDocument target evidence), d ∈ group := by
    intro d hd
    obtain ⟨c, hc, rfl⟩ := mem_map.mp hd
    obtain ⟨hmem, hpositive, htogether⟩ := hsubset c hc
    exact mem_filter.mpr ⟨mem_rankedDocuments.mpr ⟨⟨hmem, hpositive⟩, rfl⟩,
      decide_eq_true ⟨hsmall c hc, htogether⟩⟩
  have hfacts : (subset.map (rankDocument target evidence)).map (·.toOpenDocumentFacts) =
      subset := by
    rw [map_map]
    exact map_id _
  have hnodup' : (subset.map (rankDocument target evidence)).Nodup :=
    Nodup.of_map (·.toOpenDocumentFacts) (hfacts.symm ▸ hnodup)
  -- Some arrangement of the subset is part of the list that is searched.
  obtain ⟨found, hperm, hsublist⟩ := (subperm_of_subset hnodup' hranked).trans
    (perm_sorted (compareBalances rules) group).symm.subperm
  have hpermFacts : (found.map (·.toOpenDocumentFacts)).Perm subset :=
    (hperm.map _).trans (Perm.of_eq hfacts)
  have hlengthFound : found.length = subset.length := by
    rw [← hpermFacts.length_eq, length_map]
  have hcompletes : SubsetSearch.Completes (·.transactionOpen)
      (sorted (compareBalances rules) group) target found := by
    refine ⟨hsublist, ?_, fun d hd => ?_⟩
    · have hopens := (hpermFacts.map (·.transactionOpen)).sum_eq
      rw [map_map] at hopens
      exact hopens.trans hsum
    · exact (hsubset _ (hpermFacts.mem_iff.mp (mem_map_of_mem hd))).2.1
  have hfound : found ∈ exactSubsets rules group target maxSize 3 :=
    SubsetSearch.complete_search hopen hcompletes (hlengthFound ▸ hmin) (hlengthFound ▸ hmax)
  have hsize : 2 ≤ group.length := by
    have := (subperm_of_subset hnodup' hranked).length_le
    rw [length_map] at this
    omega
  have hne : group ≠ [] := ne_nil_of_length_pos (by omega)
  have hgroup : group ∈ documentGroups target (options.maxGroupItems.getD 24)
      (rankedDocuments rules target evidence candidates) :=
    partyGroup_mem_documentGroups hplain hdoc hne hlength
  refine ⟨found, hfound, hpermFacts, combinedProposal rules target evidence found, ?_, rfl, ?_⟩
  · refine mem_append_right _ (mem_flatMap.mpr ⟨group, ?_, mem_map_of_mem hfound⟩)
    exact mem_filter.mpr ⟨hgroup, by simpa using hsize⟩
  · have hordered := ((perm_sorted (compareDocuments rules) found).map (·.openLineId))
    have hlines := hpermFacts.map (·.openLineId)
    rw [map_map] at hlines
    exact hordered.trans hlines

end Found

/-! ### The ranking -/

section Ranking

variable {line : SettlementLineFacts} {options : RankOptions} {result : RankedDocuments}

theorem settles_of_mem_settlementProposals (hids : (candidates.map (·.openLineId)).Nodup)
    (hplain : ∀ doc ∈ candidates, doc.PlainIds) {target : ℤ} (htarget : 0 < target)
    {evidence : List (String × DocumentEvidence)} {p : OpenDocumentProposal}
    (hp : p ∈ settlementProposals rules target options evidence
      (rankedDocuments rules target evidence candidates)) : Settles target candidates p := by
  rcases mem_append.mp hp with hp | hp
  · rcases mem_append.mp hp with hp | hp
    · obtain ⟨d, hd, rfl⟩ := mem_map.mp hp
      obtain ⟨hd, hopen⟩ := mem_filter.mp hd
      exact settles_exactProposal hids htarget hd (by simpa using hopen)
    · obtain ⟨d, hd, hp⟩ := mem_filterMap.mp hp
      exact (settles_evidenceProposal hids htarget hd hp).1
  · obtain ⟨group, hgroup, hp⟩ := mem_flatMap.mp hp
    obtain ⟨found, hfound, rfl⟩ := mem_map.mp hp
    exact settles_combinedProposal hids hplain (mem_of_mem_filter hgroup) hfound

/-- **Proposals settle the line**, the exact ones come first, and no combination is missed where
the bounds of the search are not reached. -/
theorem rankOpenDocuments_settles (hids : (candidates.map (·.openLineId)).Nodup)
    (hplain : ∀ doc ∈ candidates, doc.PlainIds)
    (h : rankOpenDocuments rules line candidates options = .ok result) :
    (∀ p ∈ result.proposals, Settles line.amount candidates p) ∧
      (result.proposals.Pairwise fun a b => b.settlement = .exact → a.settlement = .exact) ∧
      (0 < line.amount → ∃ evidence proposals,
        collectEvidence rules line candidates = .ok evidence ∧
        result.proposals = sliceTo (options.maxProposals.getD 10) proposals ∧
        FindsCombinations rules line.amount options candidates
          (rankedDocuments rules line.amount evidence candidates) proposals) := by
  unfold rankOpenDocuments at h
  split_ifs at h with hamount
  · obtain rfl := Except.ok.inj h
    exact ⟨by simp, List.Pairwise.nil, fun hpos => absurd hamount hpos.not_ge⟩
  · simp only [bind_eq_ok, pure_eq_ok] at h
    obtain ⟨evidence, hevidence, rfl⟩ := h
    have htarget : 0 < line.amount := not_le.mp hamount
    set documents := rankedDocuments rules line.amount evidence candidates with hdocuments
    set proposals := sorted (compareProposals rules documents)
      (settlementProposals rules line.amount options evidence documents) with hproposals
    have hshown : (sliceTo (options.maxProposals.getD 10) proposals).Sublist proposals :=
      take_sublist _ _
    refine ⟨fun p hp => ?_, ?_, fun _ => ⟨evidence, proposals, hevidence, rfl, ?_⟩⟩
    · exact settles_of_mem_settlementProposals hids hplain htarget
        (mem_sorted.mp (hshown.subset hp))
    · refine (pairwise_sorted (coherent_compareProposals documents) _).sublist hshown |>.imp ?_
      exact fun hab hb => exact_of_compareProposals hab hb
    · intro doc hdoc group maxSize hlength hopen subset hnodup hsubset hmin hmax hsum
      obtain ⟨found, hfound, hperm, p, hp, hexact⟩ := findsCombinations hplain options doc hdoc
        hlength hopen subset hnodup hsubset hmin hmax hsum
      exact ⟨found, hfound, hperm, p, mem_sorted.mpr hp, hexact⟩

end Ranking

/-! ### Two rankings -/

/-- Rules for texts of unaccented letters, ordered by their code units. -/
def plainTextRules : TextRules where
  nfkd text := text
  isMark _ := false
  toLowerCase text := String.ofList (text.toList.map Char.toLower)
  isLetter := Char.isAlpha
  isNumber := Char.isDigit
  localeCompare := compareTexts
  coherent := coherent_compareTexts

/-- A line of three hundred. -/
def depositLine : SettlementLineFacts where
  postedOn := "2026-10-10"
  amount := 3000000

def openInvoice (openLineId partyId accountId : String) (transactionOpen : ℤ) :
    OpenDocumentFacts where
  openLineId := openLineId
  partyId := partyId
  accountId := accountId
  entryNumber := openLineId
  dueDate := some "2026-10-08"
  transactionOpen := transactionOpen

/-- Two invoices of one party sum to the line, and the invoices of others are left alone. -/
theorem rankOpenDocuments_settles_combined :
    ∃ result, rankOpenDocuments plainTextRules depositLine
        [openInvoice "a" "acme" "ar" 1000000, openInvoice "b" "acme" "ar" 2000000,
          openInvoice "c" "globex" "ar" 2000000] {} = .ok result ∧
      result.proposals.map (·.openLineIds) = [["a", "b"]] ∧
      ∀ p ∈ result.proposals, Settles 3000000
        [openInvoice "a" "acme" "ar" 1000000, openInvoice "b" "acme" "ar" 2000000,
          openInvoice "c" "globex" "ar" 2000000] p := by
  have hrun : (rankOpenDocuments plainTextRules depositLine
      [openInvoice "a" "acme" "ar" 1000000, openInvoice "b" "acme" "ar" 2000000,
        openInvoice "c" "globex" "ar" 2000000] {}).toOption.any (fun result =>
          result.proposals.map (·.openLineIds) = [["a", "b"]]) = true := by decide +kernel
  obtain ⟨result, hok, hlines⟩ := exists_of_any hrun
  obtain ⟨hsettles, -, -⟩ := rankOpenDocuments_settles (by decide) (by decide) hok
  exact ⟨result, hok, of_decide_eq_true hlines, hsettles⟩

/-- Two invoices of other parties, whose identifiers read the same when they are joined to those of
the accounts. -/
def confusedInvoices : List OpenDocumentFacts := [
  openInvoice "a" "north" "main|ar" 1000000,
  openInvoice "b" "north|main" "ar" 2000000]

/-- The invoices of two parties, on two accounts, are combined. -/
theorem rankOpenDocuments_combines_parties :
    ∃ result, rankOpenDocuments plainTextRules depositLine confusedInvoices {} = .ok result ∧
      ∃ p ∈ result.proposals, ∃ a ∈ confusedInvoices, ∃ b ∈ confusedInvoices,
        a.openLineId ∈ p.openLineIds ∧ b.openLineId ∈ p.openLineIds ∧
          a.partyId ≠ b.partyId ∧ a.accountId ≠ b.accountId := by
  have hrun : (rankOpenDocuments plainTextRules depositLine confusedInvoices {}).toOption.any
      (fun result => ∃ p ∈ result.proposals, ∃ a ∈ confusedInvoices, ∃ b ∈ confusedInvoices,
        a.openLineId ∈ p.openLineIds ∧ b.openLineId ∈ p.openLineIds ∧
          a.partyId ≠ b.partyId ∧ a.accountId ≠ b.accountId) = true := by decide +kernel
  obtain ⟨result, hok, hcombined⟩ := exists_of_any hrun
  exact ⟨result, hok, of_decide_eq_true hcombined⟩

end OpenBooks
