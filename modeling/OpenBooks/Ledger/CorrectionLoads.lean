import OpenBooks.Ledger.Corrections
import OpenBooks.Lib.ListSum
import Mathlib.Data.List.Nodup

/-!
# When a source correction does not over-apply

The fit check of a correction holds what is applied *to* a replacement line against its amount, and
what is applied *from* it against the same amount – each direction alone. A line that both settles
and is settled carries the two together, so the check is enough exactly where no such line is
overfilled by its two sides (`transfer_sound_iff`).

Everything else the transfer promises, it keeps. A run of `transferOne` releases each application
once and appends one replacement with the same evidence (`foldlM_transferOne`), and every
replacement joins two open items that may be joined (`joins_of_fits`).
-/

namespace OpenBooks

open Checked List

/-! ### The promise -/

/-- What the selected applications of a list add up to. -/
def appliedSum (selected : Application → Prop) [DecidablePred selected] (amount : Application → ℤ)
    (applications : List Application) : ℤ :=
  ((applications.filter fun a => selected a).map amount).sum

/-- The line an id names after the correction. -/
def Correction.lineOf (c : Correction) (id : String) : Option CorrectionLine :=
  c.replacementById id <|> c.outsideById id

/-- `r` is the replacement of `a`: the same evidence, on the replacement
endpoints. -/
def Replaces (c : Correction) (a r : Application) : Prop :=
  r = replacementRow c a r.id r.fromLineId r.toLineId ∧
    replacementEndpoint c a.fromLineId = .ok r.fromLineId ∧
    replacementEndpoint c a.toLineId = .ok r.toLineId

/-- `r` joins two open items of one account, party and subsidiary, a debit and a
credit. -/
def JoinsOpenItems (c : Correction) (r : Application) : Prop :=
  ∃ source target, c.lineOf r.fromLineId = some source ∧ c.lineOf r.toLineId = some target ∧
    source.isOpenItem ∧ target.isOpenItem ∧ source.accountId = target.accountId ∧
    source.partyId.orNull = target.partyId.orNull ∧ source.subsidiaryId = target.subsidiaryId ∧
    (0 < source.amount ∧ target.amount < 0 ∨ source.amount < 0 ∧ 0 < target.amount)

/-- What is applied from a line and to it together stays within its amount, in
functional and in transaction currency. -/
def WithinAmount (rows : List Application) (line : CorrectionLine) : Prop :=
  appliedSum (·.fromLineId = line.id) Application.sourceAmount rows +
      appliedSum (·.toLineId = line.id) Application.amount rows ≤ |line.amount| ∧
    appliedSum (·.fromLineId = line.id) Application.sourceTransactionAmount rows +
      appliedSum (·.toLineId = line.id) Application.targetTransactionAmount rows ≤ |line.txn|

/-- The correction did what it is for: every live application is released once, one
replacement is appended for each, each replacement joins open items that may be
joined, and no replacement line is over-applied. -/
structure TransferSound (c : Correction) (s s' : CorrectionState) : Prop where
  /-- No application is transferred twice, and each was live before. -/
  once : (c.activeApplications.map Application.id).Nodup ∧
    ∀ a ∈ c.activeApplications, ∃ row ∈ s.table.rows, row.id = a.id ∧ row.unappliedAt = none
  /-- The table keeps its rows, the transferred ones released, and gains the new. -/
  rows : ∃ new, s'.table.rows = s.table.rows.map (fun row =>
        if row.id ∈ c.activeApplications.map Application.id then row.release c else row) ++ new ∧
      List.Forall₂ (Replaces c) c.activeApplications new ∧
      (∀ r ∈ new, JoinsOpenItems c r) ∧
      ∀ line ∈ c.replacementLines, WithinAmount new line

/-! ### What the database promises, and the condition -/

/-- What the database promises of a correction's input: applied amounts are
positive, a line that is settled from outside the entry is not zero, and the
replacement lines are new, under distinct ids that no application names yet. -/
structure Correction.WellFormed (c : Correction) : Prop where
  positive : ∀ a ∈ c.activeApplications, 0 < a.amount ∧ 0 < a.sourceAmount ∧
    0 < a.sourceTransactionAmount ∧ 0 < a.targetTransactionAmount
  outside : ∀ a ∈ c.activeApplications, ∀ id ∈ [a.fromLineId, a.toLineId],
    ∀ line ∈ c.outsideById id, line.amount ≠ 0
  unique : (c.replacementLines.map CorrectionLine.id).Nodup
  isNew : ∀ a ∈ c.activeApplications, ∀ line ∈ c.replacementLines,
    a.fromLineId ≠ line.id ∧ a.toLineId ≠ line.id

def movesFrom (c : Correction) (line : CorrectionLine) (a : Application) : Prop :=
  replacementEndpoint c a.fromLineId = .ok line.id

def movesTo (c : Correction) (line : CorrectionLine) (a : Application) : Prop :=
  replacementEndpoint c a.toLineId = .ok line.id

instance (c : Correction) (line : CorrectionLine) : DecidablePred (movesFrom c line) :=
  fun a => inferInstanceAs (Decidable (replacementEndpoint c a.fromLineId = .ok line.id))

instance (c : Correction) (line : CorrectionLine) : DecidablePred (movesTo c line) :=
  fun a => inferInstanceAs (Decidable (replacementEndpoint c a.toLineId = .ok line.id))

/-- No replacement line that comes to settle and to be settled is overfilled by its
two sides. -/
def NoTwoSidedOverload (c : Correction) : Prop :=
  ∀ line ∈ c.replacementLines,
    (∃ a ∈ c.activeApplications, movesFrom c line a) →
    (∃ a ∈ c.activeApplications, movesTo c line a) →
    appliedSum (movesFrom c line) Application.sourceAmount c.activeApplications +
        appliedSum (movesTo c line) Application.amount c.activeApplications ≤ |line.amount| ∧
      appliedSum (movesFrom c line) Application.sourceTransactionAmount c.activeApplications +
        appliedSum (movesTo c line) Application.targetTransactionAmount c.activeApplications ≤
          |line.txn|

instance (c : Correction) : Decidable (NoTwoSidedOverload c) :=
  inferInstanceAs (Decidable (∀ _ ∈ _, _ → _ → _ ∧ _))

/-! ### Writing: one step and the run -/

variable {as : List Application}

variable {c : Correction} {a : Application}

section Writing

variable {s s' : CorrectionState}

/-- **What one transfer does**: exactly one live row is released, and one row with a
fresh id is appended. -/
theorem transferOne_eq_ok (h : transferOne c s a = .ok s') :
    (s.table.rows.filter (isReleased c a)).length = 1 ∧
      ∃ r, s'.table.rows = releaseRows c a s.table.rows ++ [r] ∧ Replaces c a r ∧
        r.id ∉ s.table.rows.map Application.id := by
  simp only [transferOne, bind_eq_ok, refuseIf_eq_ok, pure_eq_ok, not_not] at h
  obtain ⟨fromLineId, hfrom, toLineId, hto, _, hone, table, htable, rfl⟩ := h
  obtain ⟨hfresh, hrows⟩ := ApplicationTable.insert_eq_ok htable
  rw [map_id_releaseRows] at hfresh
  exact ⟨hone, _, hrows, ⟨rfl, hfrom, hto⟩, hfresh⟩

theorem isReleased_of_id {rows : List Application} (hunique : (rows.map Application.id).Nodup)
    (hone : (rows.filter (isReleased c a)).length = 1) {row : Application} (hrow : row ∈ rows)
    (hid : row.id = a.id) : isReleased c a row = true := by
  obtain ⟨x, hx⟩ := length_eq_one_iff.mp hone
  obtain ⟨hmem, hrel⟩ := mem_filter.mp (hx ▸ mem_singleton_self x)
  have hxid : x.id = a.id := by
    simp only [isReleased, decide_eq_true_eq] at hrel
    exact hrel.1
  rwa [inj_on_of_nodup_map hunique hrow hmem (hid.trans hxid.symm)]

@[simp] theorem Application.release_release (row : Application) (c : Correction) :
    (row.release c).release c = row.release c := rfl

@[simp] theorem Application.release_id (row : Application) (c : Correction) :
    (row.release c).id = row.id := rfl

/-- **What a run of transfers does.** The invariant is on the applications still to
come: the run releases the rows of their ids, each live when it started and no two
the same, and appends one replacement for each. -/
theorem foldlM_transferOne (h : as.foldlM (transferOne c) s = .ok s')
    (hlive : ∀ a ∈ as, a.id ∈ s.table.rows.map Application.id) :
    (as.map Application.id).Nodup ∧
      (∀ a ∈ as, ∃ row ∈ s.table.rows, row.id = a.id ∧ row.unappliedAt = none) ∧
      ∃ new, s'.table.rows = s.table.rows.map (fun row =>
          if row.id ∈ as.map Application.id then row.release c else row) ++ new ∧
        List.Forall₂ (Replaces c) as new := by
  induction as generalizing s with
  | nil =>
    rw [foldlM_nil, pure_eq_ok] at h
    exact ⟨nodup_nil, by simp, [], by simp [h], .nil⟩
  | cons a as ih =>
    rw [foldlM_cons, bind_eq_ok] at h
    obtain ⟨s₁, h₁, hrest⟩ := h
    obtain ⟨hone, r, hrows, hreplaces, hfresh⟩ := transferOne_eq_ok h₁
    have hunique := s.table.unique
    have hids : s₁.table.rows.map Application.id = s.table.rows.map Application.id ++ [r.id] := by
      rw [hrows, map_append, map_id_releaseRows, map_singleton]
    obtain ⟨hnodup, hlive₁, new, hnew, hforall⟩ := ih hrest fun b hb => by
      rw [hids]
      exact mem_append_left _ (hlive b (mem_cons_of_mem _ hb))
    have hr : ∀ b ∈ as, b.id ≠ r.id := fun b hb heq =>
      hfresh (heq ▸ hlive b (mem_cons_of_mem _ hb))
    -- a row that is live after the first transfer was live before it, under another id
    have hback : ∀ b ∈ as, ∃ row ∈ s.table.rows, row.id = b.id ∧ row.unappliedAt = none ∧
        row.id ≠ a.id := by
      intro b hb
      obtain ⟨row, hrow, hid, hnone⟩ := hlive₁ b hb
      rw [hrows, mem_append, mem_singleton, releaseRows, mem_map] at hrow
      rcases hrow with ⟨row₀, hrow₀, rfl⟩ | rfl
      · by_cases hrel : isReleased c a row₀ = true
        · rw [if_pos hrel] at hnone
          cases hnone
        · rw [if_neg hrel] at hid hnone
          exact ⟨row₀, hrow₀, hid, hnone, fun heq =>
            hrel (isReleased_of_id hunique hone hrow₀ heq)⟩
      · exact absurd hid.symm (hr b hb)
    refine ⟨?_, ?_, r :: new, ?_, .cons hreplaces hforall⟩
    · rw [map_cons, nodup_cons]
      refine ⟨fun hmem => ?_, hnodup⟩
      obtain ⟨b, hb, hab⟩ := mem_map.mp hmem
      obtain ⟨row, -, hid, -, hne⟩ := hback b hb
      exact hne (hid.trans hab)
    · intro b hb
      rcases mem_cons.mp hb with rfl | hb
      · obtain ⟨x, hx⟩ := length_eq_one_iff.mp hone
        obtain ⟨hmem, hrel⟩ := mem_filter.mp (hx ▸ mem_singleton_self x)
        simp only [isReleased, decide_eq_true_eq] at hrel
        exact ⟨x, hmem, hrel.1, hrel.2.2⟩
      · obtain ⟨row, hrow, hid, hnone, -⟩ := hback b hb
        exact ⟨row, hrow, hid, hnone⟩
    · rw [hnew, hrows, map_append, map_singleton, append_assoc,
        singleton_append, releaseRows, map_map]
      congr 1
      · refine map_congr_left fun row hrow => ?_
        by_cases hid : row.id = a.id
        · have hrel := isReleased_of_id hunique hone hrow hid
          simp [hrel, hid]
        · have hrel : isReleased c a row = false := by simp [isReleased, hid]
          simp [hrel, hid]
      · have hnot : r.id ∉ as.map Application.id := fun hmem => by
          obtain ⟨b, hb, hbr⟩ := mem_map.mp hmem
          exact hr b hb hbr
        rw [if_neg hnot]

end Writing

/-! ### Fitting: endpoints and loads -/

section Fitting

variable {j : Join} {id lineId : String} {line : CorrectionLine}

theorem mem_of_replacementById (h : c.replacementById id = some line) :
    line ∈ c.replacementLines ∧ line.id = id := by
  refine ⟨mem_reverse.mp (mem_of_find?_eq_some h), ?_⟩
  simpa using find?_some h

theorem id_of_lineOf (h : c.lineOf id = some line) : line.id = id := by
  rw [Correction.lineOf, Option.orElse_eq_some] at h
  rcases h with h | ⟨-, h⟩
  · exact (mem_of_replacementById h).2
  · rw [Correction.outsideById] at h
    split at h
    · cases h
    · simpa using find?_some h

theorem joinOf_eq_ok (h : joinOf c a = .ok j) :
    j.application = a ∧ replacementEndpoint c a.fromLineId = .ok j.source.id ∧
      replacementEndpoint c a.toLineId = .ok j.target.id ∧
      c.lineOf j.source.id = some j.source ∧ c.lineOf j.target.id = some j.target ∧
      j.source.isOpenItem ∧ j.target.isOpenItem ∧ j.source.accountId = j.target.accountId ∧
      j.source.partyId.orNull = j.target.partyId.orNull ∧
      j.source.subsidiaryId = j.target.subsidiaryId ∧
      (0 < j.source.amount ↔ ¬0 < j.target.amount) := by
  simp only [joinOf, endpointOf, bind_eq_ok, orRefuse_eq_ok, refuseIf_eq_ok, pure_eq_ok] at h
  obtain ⟨source, ⟨fromId, hfrom, hsource⟩, target, ⟨toId, hto, htarget⟩, _, hopen, _, hshare, _,
    hsign, rfl⟩ := h
  have hs : source.id = fromId := id_of_lineOf hsource
  have ht : target.id = toId := id_of_lineOf htarget
  subst hs ht
  push Not at hopen hshare
  refine ⟨rfl, hfrom, hto, hsource, htarget, hopen.1, hopen.2, hshare.1, hshare.2.1, hshare.2.2, ?_⟩
  by_cases h0 : 0 < source.amount <;> by_cases h1 : 0 < target.amount <;> simp_all

theorem addLoad_apply (loads : String → Load) (j : Join) (id : String) :
    let a := j.application
    addLoad loads j id =
      { toAmount := (loads id).toAmount + if j.target.id = id then |a.amount| else 0
        toTxn := (loads id).toTxn + if j.target.id = id then |a.targetTransactionAmount| else 0
        fromAmount := (loads id).fromAmount + if j.source.id = id then |a.sourceAmount| else 0
        fromTxn := (loads id).fromTxn +
          if j.source.id = id then |a.sourceTransactionAmount| else 0 } := by
  have hupdate : ∀ (g : String → Load) (k : String) (l : Load),
      Function.update g k l id = if k = id then l else g id := fun g k l => by
    rw [Function.update_apply]
    exact if_congr eq_comm rfl rfl
  by_cases ht : j.target.id = id <;> by_cases hs : j.source.id = id <;>
    simp [addLoad, hupdate, ht, hs]

theorem sum_filter_cons (p : Join → Prop) [DecidablePred p] (f : Join → ℤ) (j : Join)
    (joins : List Join) :
    (((j :: joins).filter fun x => p x).map f).sum =
      (if p j then f j else 0) + ((joins.filter fun x => p x).map f).sum := by
  by_cases h : p j <;> simp [h]

theorem foldl_addLoad (joins : List Join) (loads : String → Load) (id : String) :
    joins.foldl addLoad loads id =
      { toAmount := (loads id).toAmount +
          ((joins.filter (·.target.id = id)).map fun j => |j.application.amount|).sum
        toTxn := (loads id).toTxn +
          ((joins.filter (·.target.id = id)).map fun j =>
            |j.application.targetTransactionAmount|).sum
        fromAmount := (loads id).fromAmount +
          ((joins.filter (·.source.id = id)).map fun j => |j.application.sourceAmount|).sum
        fromTxn := (loads id).fromTxn +
          ((joins.filter (·.source.id = id)).map fun j =>
            |j.application.sourceTransactionAmount|).sum } := by
  induction joins generalizing loads with
  | nil => simp
  | cons j joins ih =>
    simp only [foldl_cons, ih, addLoad_apply, sum_filter_cons, add_assoc]

theorem breach_eq_none {load : Load} : breach line load = none ↔
    load.toAmount ≤ |line.amount| ∧ load.fromAmount ≤ |line.amount| ∧
      load.toTxn ≤ |line.txn| ∧ load.fromTxn ≤ |line.txn| := by
  by_cases h1 : |line.amount| < load.toAmount
  · simp [breach, h1]
  · by_cases h2 : |line.amount| < load.fromAmount
    · simp [breach, h1, h2]
    · by_cases h3 : |line.txn| < load.toTxn ∨ |line.txn| < load.fromTxn
      · rcases h3 with h3 | h3 <;> simp [breach, h1, h2, h3]
      · push Not at h1 h2 h3
        simp [breach, not_lt.mpr h1, not_lt.mpr h2, not_lt.mpr h3.1, not_lt.mpr h3.2, h1, h2, h3]

end Fitting

/-! ### What the fit check has checked -/

variable {f : Application → ℤ} {line : CorrectionLine}
  {selected : Application → Prop} {amount : Application → ℤ}

section Checked

variable {joins : List Join} (hw : c.WellFormed)
  (hjoins : c.activeApplications.mapM (joinOf c) = .ok joins)
  (hfits : ∀ id ∈ remappedIds c joins, assertFits c joins id = .ok ())

include hjoins in
theorem appliedSum_movesTo (hf : ∀ a ∈ c.activeApplications, 0 < f a) (line : CorrectionLine) :
    appliedSum (movesTo c line) f c.activeApplications =
      ((joins.filter (·.target.id = line.id)).map fun j => |f j.application|).sum := by
  refine ListSum.sum_filter_of_forall₂ (mapM_eq_ok.mp hjoins) _ _ _ _ fun a ha j hj => ?_
  obtain ⟨happ, -, hto, -⟩ := joinOf_eq_ok hj
  exact ⟨by rw [movesTo, hto, Except.ok.injEq], by rw [happ, abs_of_pos (hf a ha)]⟩

include hjoins in
theorem appliedSum_movesFrom (hf : ∀ a ∈ c.activeApplications, 0 < f a) (line : CorrectionLine) :
    appliedSum (movesFrom c line) f c.activeApplications =
      ((joins.filter (·.source.id = line.id)).map fun j => |f j.application|).sum := by
  refine ListSum.sum_filter_of_forall₂ (mapM_eq_ok.mp hjoins) _ _ _ _ fun a ha j hj => ?_
  obtain ⟨happ, hfrom, -⟩ := joinOf_eq_ok hj
  exact ⟨by rw [movesFrom, hfrom, Except.ok.injEq], by rw [happ, abs_of_pos (hf a ha)]⟩

include hw hjoins hfits in
/-- **A remapped line holds each direction alone.** -/
theorem fits_of_remapped {id : String} (hid : id ∈ remappedIds c joins) :
    ∃ line ∈ c.replacementLines, line.id = id ∧ c.lineOf id = some line ∧
      appliedSum (movesTo c line) Application.amount c.activeApplications ≤ |line.amount| ∧
      appliedSum (movesFrom c line) Application.sourceAmount c.activeApplications ≤
        |line.amount| ∧
      appliedSum (movesTo c line) Application.targetTransactionAmount c.activeApplications ≤
        |line.txn| ∧
      appliedSum (movesFrom c line) Application.sourceTransactionAmount c.activeApplications ≤
        |line.txn| := by
  have h := hfits id hid
  simp only [assertFits, bind_eq_ok, orRefuse_eq_ok] at h
  obtain ⟨line, hline, h⟩ := h
  obtain ⟨hmem, rfl⟩ := mem_of_replacementById hline
  refine ⟨line, hmem, rfl, by simp [Correction.lineOf, hline], ?_⟩
  rw [appliedSum_movesTo hjoins fun a ha => (hw.positive a ha).1,
    appliedSum_movesFrom hjoins fun a ha => (hw.positive a ha).2.1,
    appliedSum_movesTo hjoins fun a ha => (hw.positive a ha).2.2.2,
    appliedSum_movesFrom hjoins fun a ha => (hw.positive a ha).2.2.1]
  cases hb : breach line (transferredLoad joins line.id) with
  | some why => simp [hb] at h
  | none =>
    rw [breach_eq_none, transferredLoad, foldl_addLoad] at hb
    simpa using hb

theorem replacementEndpoint_of_not_prior {lineId : String} (h : c.isPrior lineId = false) :
    replacementEndpoint c lineId = .ok lineId := by
  have hfind : c.existing.find? (fun line => line.id = lineId) = none := by
    rw [find?_eq_none]
    simpa [Correction.isPrior] using h
  rw [replacementEndpoint, hfind]

include hjoins in
theorem remapped_of_prior (ha : a ∈ c.activeApplications) {j : Join} (hj : joinOf c a = .ok j) :
    (c.isPrior a.fromLineId = true → j.source.id ∈ remappedIds c joins) ∧
      (c.isPrior a.toLineId = true → j.target.id ∈ remappedIds c joins) := by
  obtain ⟨j', hmem, hj'⟩ := exists_of_mapM hjoins ha
  obtain rfl : j = j' := Except.ok.inj (hj.symm.trans hj')
  obtain ⟨happ, -⟩ := joinOf_eq_ok hj
  constructor <;> intro hprior <;>
    · rw [remappedIds, mem_eraseDups, mem_flatMap]
      exact ⟨j, hmem, by simp [happ, hprior]⟩

include hw hjoins in
/-- A replacement line that an application moves to takes the place of a prior
one. -/
theorem remapped_of_moves (hline : line ∈ c.replacementLines) (ha : a ∈ c.activeApplications)
    (hmoves : movesFrom c line a ∨ movesTo c line a) : line.id ∈ remappedIds c joins := by
  obtain ⟨j, -, hj⟩ := exists_of_mapM hjoins ha
  obtain ⟨-, hfrom, hto, -⟩ := joinOf_eq_ok hj
  obtain ⟨hnewFrom, hnewTo⟩ := hw.isNew a ha line hline
  rcases hmoves with hm | hm
  · cases hp : c.isPrior a.fromLineId with
    | false => exact absurd (Except.ok.inj ((replacementEndpoint_of_not_prior hp).symm.trans hm)) hnewFrom
    | true =>
      rw [Except.ok.inj (hm.symm.trans hfrom)]
      exact (remapped_of_prior hjoins ha hj).1 hp
  · cases hp : c.isPrior a.toLineId with
    | false => exact absurd (Except.ok.inj ((replacementEndpoint_of_not_prior hp).symm.trans hm)) hnewTo
    | true =>
      rw [Except.ok.inj (hm.symm.trans hto)]
      exact (remapped_of_prior hjoins ha hj).2 hp

theorem le_appliedSum [DecidablePred selected] (hpos : ∀ a ∈ as, 0 < amount a) (ha : a ∈ as)
    (hs : selected a) : amount a ≤ appliedSum selected amount as := by
  refine single_le_sum ?_ _ ?_
  · simp only [mem_map, mem_filter, forall_exists_index, and_imp]
    rintro x b hb - rfl
    exact (hpos b hb).le
  · exact mem_map_of_mem (mem_filter.mpr ⟨ha, by simpa using hs⟩)

theorem lineOf_of_not_prior (hw : c.WellFormed) (ha : a ∈ c.activeApplications) {id : String}
    (hid : id ∈ [a.fromLineId, a.toLineId]) (h : c.lineOf id = some line) :
    c.outsideById id = some line := by
  rw [Correction.lineOf, Option.orElse_eq_some] at h
  rcases h with h | ⟨-, h⟩
  · obtain ⟨hmem, hline⟩ := mem_of_replacementById h
    obtain ⟨hfrom, hto⟩ := hw.isNew a ha line hmem
    rcases mem_cons.mp hid with rfl | hid
    · exact absurd hline.symm hfrom
    · rw [mem_singleton] at hid
      exact absurd (hid.symm.trans hline.symm) hto
  · exact h

include hw hjoins hfits in
theorem amount_ne_zero (ha : a ∈ c.activeApplications) {j : Join} (hj : joinOf c a = .ok j) :
    j.source.amount ≠ 0 ∧ j.target.amount ≠ 0 := by
  obtain ⟨-, hfrom, hto, hsource, htarget, -⟩ := joinOf_eq_ok hj
  obtain ⟨hrfrom, hrto⟩ := remapped_of_prior hjoins ha hj
  obtain ⟨hamount, hsourceAmount, -⟩ := hw.positive a ha
  constructor
  · cases hp : c.isPrior a.fromLineId with
    | false =>
      have hid := Except.ok.inj (hfrom.symm.trans (replacementEndpoint_of_not_prior hp))
      rw [hid] at hsource
      exact hw.outside a ha _ (by simp) _ (lineOf_of_not_prior hw ha (by simp) hsource)
    | true =>
      obtain ⟨line, -, hline, hof, -, hle, -⟩ := fits_of_remapped hw hjoins hfits (hrfrom hp)
      obtain rfl : line = j.source := Option.some.inj (hof.symm.trans hsource)
      have := le_appliedSum (fun b hb => (hw.positive b hb).2.1) ha
        (show movesFrom c j.source a from hfrom)
      exact abs_pos.mp (by omega)
  · cases hp : c.isPrior a.toLineId with
    | false =>
      have hid := Except.ok.inj (hto.symm.trans (replacementEndpoint_of_not_prior hp))
      rw [hid] at htarget
      exact hw.outside a ha _ (by simp) _ (lineOf_of_not_prior hw ha (by simp) htarget)
    | true =>
      obtain ⟨line, -, hline, hof, hle, -⟩ := fits_of_remapped hw hjoins hfits (hrto hp)
      obtain rfl : line = j.target := Option.some.inj (hof.symm.trans htarget)
      have := le_appliedSum (fun b hb => (hw.positive b hb).1) ha
        (show movesTo c j.target a from hto)
      exact abs_pos.mp (by omega)

include hw hjoins hfits in
/-- **Every replacement joins two open items that may be joined.** -/
theorem joins_of_fits {r : Application} (ha : a ∈ c.activeApplications) (hr : Replaces c a r) :
    JoinsOpenItems c r := by
  obtain ⟨j, -, hj⟩ := exists_of_mapM hjoins ha
  obtain ⟨hs, ht⟩ := amount_ne_zero hw hjoins hfits ha hj
  obtain ⟨-, hfrom, hto, hsource, htarget, hopen, hopen', haccount, hparty, hsub, hsign⟩ :=
    joinOf_eq_ok hj
  obtain ⟨-, hrfrom, hrto⟩ := hr
  refine ⟨j.source, j.target, ?_, ?_, hopen, hopen', haccount, hparty, hsub, ?_⟩
  · rw [← Except.ok.inj (hfrom.symm.trans hrfrom), hsource]
  · rw [← Except.ok.inj (hto.symm.trans hrto), htarget]
  · rcases lt_or_gt_of_ne hs with h | h
    · exact .inr ⟨h, by by_contra hn; exact absurd (hsign.mpr hn) (by omega)⟩
    · exact .inl ⟨h, by have := hsign.mp h; omega⟩

end Checked

/-! ### The theorem -/

theorem appliedSum_replaced {new : List Application}
    (h : List.Forall₂ (Replaces c) c.activeApplications new) (line : CorrectionLine)
    (hf : ∀ a id source target, f (replacementRow c a id source target) = f a) :
    appliedSum (·.fromLineId = line.id) f new = appliedSum (movesFrom c line) f c.activeApplications ∧
      appliedSum (·.toLineId = line.id) f new = appliedSum (movesTo c line) f c.activeApplications := by
  constructor
  · refine (ListSum.sum_filter_of_forall₂ h _ _ _ _ fun a _ r hr => ?_).symm
    exact ⟨by rw [movesFrom, hr.2.1, Except.ok.injEq], by rw [hr.1, hf]⟩
  · refine (ListSum.sum_filter_of_forall₂ h _ _ _ _ fun a _ r hr => ?_).symm
    exact ⟨by rw [movesTo, hr.2.2, Except.ok.injEq], by rw [hr.1, hf]⟩

theorem appliedSum_eq_zero [DecidablePred selected] (h : ¬∃ a ∈ as, selected a) :
    appliedSum selected amount as = 0 := by
  have hnil : (as.filter fun a => selected a) = [] :=
    filter_eq_nil_iff.mpr fun a ha hs => h ⟨a, ha, by simpa using hs⟩
  rw [appliedSum, hnil]
  rfl

theorem noTwoSidedOverload_of_sound {s s' : CorrectionState} (h : TransferSound c s s') :
    NoTwoSidedOverload c := by
  obtain ⟨-, new, -, hforall, -, hwithin⟩ := h
  intro line hline _ _
  obtain ⟨hamount, htxn⟩ := hwithin line hline
  rw [(appliedSum_replaced hforall line fun _ _ _ _ => rfl).1,
    (appliedSum_replaced hforall line fun _ _ _ _ => rfl).2] at hamount htxn
  exact ⟨hamount, htxn⟩

/-- A line that is loaded from one side only, or from none, is within its amount by
the fit check; one that is loaded from both, by the condition. -/
theorem within_of_no_overload {joins : List Join} (hw : c.WellFormed)
    (hjoins : c.activeApplications.mapM (joinOf c) = .ok joins)
    (hfits : ∀ id ∈ remappedIds c joins, assertFits c joins id = .ok ())
    (hcond : NoTwoSidedOverload c) (hline : line ∈ c.replacementLines) :
    appliedSum (movesFrom c line) Application.sourceAmount c.activeApplications +
        appliedSum (movesTo c line) Application.amount c.activeApplications ≤ |line.amount| ∧
      appliedSum (movesFrom c line) Application.sourceTransactionAmount c.activeApplications +
        appliedSum (movesTo c line) Application.targetTransactionAmount c.activeApplications ≤
          |line.txn| := by
  have hbound : ∀ a ∈ c.activeApplications, movesFrom c line a ∨ movesTo c line a →
      appliedSum (movesTo c line) Application.amount c.activeApplications ≤ |line.amount| ∧
      appliedSum (movesFrom c line) Application.sourceAmount c.activeApplications ≤ |line.amount| ∧
      appliedSum (movesTo c line) Application.targetTransactionAmount c.activeApplications ≤
        |line.txn| ∧
      appliedSum (movesFrom c line) Application.sourceTransactionAmount c.activeApplications ≤
        |line.txn| := by
    intro a ha hm
    obtain ⟨line', hline', hid, -, hle⟩ :=
      fits_of_remapped hw hjoins hfits (remapped_of_moves hw hjoins hline ha hm)
    rwa [inj_on_of_nodup_map hw.unique hline' hline hid] at hle
  by_cases hfrom : ∃ a ∈ c.activeApplications, movesFrom c line a
  · by_cases hto : ∃ a ∈ c.activeApplications, movesTo c line a
    · exact hcond line hline hfrom hto
    · obtain ⟨a, ha, hm⟩ := hfrom
      obtain ⟨-, h1, -, h2⟩ := hbound a ha (.inl hm)
      rw [appliedSum_eq_zero hto, appliedSum_eq_zero hto, add_zero, add_zero]
      exact ⟨h1, h2⟩
  · rw [appliedSum_eq_zero hfrom, appliedSum_eq_zero hfrom, zero_add, zero_add]
    by_cases hto : ∃ a ∈ c.activeApplications, movesTo c line a
    · obtain ⟨a, ha, hm⟩ := hto
      obtain ⟨h1, -, h2, -⟩ := hbound a ha (.inr hm)
      exact ⟨h1, h2⟩
    · rw [appliedSum_eq_zero hto, appliedSum_eq_zero hto]
      exact ⟨abs_nonneg _, abs_nonneg _⟩

/-- **A correction is sound exactly when no replacement line is overfilled by its
two sides.** -/
theorem transfer_sound_iff {c : Correction} {s s' : CorrectionState} (hw : c.WellFormed)
    (hlive : ∀ a ∈ c.activeApplications, a ∈ s.table.rows)
    (h : transferCorrectionApplications c s = .ok s') :
    TransferSound c s s' ↔ NoTwoSidedOverload c := by
  simp only [transferCorrectionApplications, bind_eq_ok, onlyIf_eq_ok] at h
  obtain ⟨_, hchecked, hrun⟩ := h
  obtain ⟨hnodup, hwere, new, hnew, hforall⟩ := foldlM_transferOne hrun fun a ha =>
    mem_map_of_mem (hlive a ha)
  have hchecked : assertTransferFits c = .ok () := by
    by_cases hnil : c.activeApplications = []
    · simp [assertTransferFits, hnil, remappedIds]
    · exact hchecked hnil
  simp only [assertTransferFits, bind_eq_ok, pure_eq_ok] at hchecked
  obtain ⟨joins, hjoins, fits, hfits, -⟩ := hchecked
  have hfits : ∀ id ∈ remappedIds c joins, assertFits c joins id = .ok () := fun id hid => by
    obtain ⟨_, -, h⟩ := exists_of_mapM hfits hid
    exact h
  constructor
  · exact noTwoSidedOverload_of_sound
  · intro hcond
    refine ⟨⟨hnodup, hwere⟩, new, hnew, hforall, fun r hr => ?_, fun line hline => ?_⟩
    · obtain ⟨a, ha, har⟩ := ListSum.exists_left_of_forall₂ hforall hr
      exact joins_of_fits hw hjoins hfits ha har
    · rw [WithinAmount, (appliedSum_replaced hforall line fun _ _ _ _ => rfl).1,
        (appliedSum_replaced hforall line fun _ _ _ _ => rfl).2,
        (appliedSum_replaced hforall line fun _ _ _ _ => rfl).1,
        (appliedSum_replaced hforall line fun _ _ _ _ => rfl).2]
      exact within_of_no_overload hw hjoins hfits hcond hline

/-! ### A credit memo that pays and is refunded -/

def customerItem (id : String) (amount : ℤ) : CorrectionLine :=
  { id, isOpenItem := true, accountId := "1200", partyId := .value "customer"
    subsidiaryId := .value "subsidiary", currency := "USD", amount }

/-- An application of 60.00 in one currency. -/
def applied60 (id fromLineId toLineId : String) : Application :=
  { id, orgId := "org", fromLineId, toLineId, amount := 600000, sourceAmount := 600000
    sourceTransactionAmount := 600000, sourceTransactionCurrency := "USD"
    targetTransactionAmount := 600000, targetTransactionCurrency := "USD"
    appliedOn := "2026-01-31" }

/-- A credit memo of 120.00 that pays 60.00 of an invoice and is refunded 60.00,
corrected to `amount`. -/
def memoCorrection (amount : ℤ) : Correction where
  orgId := "org"
  documentNumber := "CM-1"
  existing := [customerItem "memo" (-1200000)]
  replacementLines := [customerItem "corrected" (-amount)]
  activeApplications := [applied60 "pays" "memo" "invoice", applied60 "refunds" "refund" "memo"]
  actorId := "actor"
  requestId := "request"
  reason := "source correction"
  journalLines := [customerItem "invoice" 1200000, customerItem "refund" 600000]
  correctedAt := "2026-02-01T00:00:00.000Z"
  newId table := String.ofList (List.replicate table.rows.length 'n')

/-- The applications before the correction. -/
def memoState (amount : ℤ) : CorrectionState where
  table := ⟨(memoCorrection amount).activeApplications, by simp [memoCorrection, applied60]⟩

theorem memoCorrection_wellFormed (amount : ℤ) : (memoCorrection amount).WellFormed where
  positive := by simp [memoCorrection, applied60]
  outside := by
    simp [memoCorrection, applied60, Correction.outsideById, Correction.isPrior, customerItem]
  unique := by simp [memoCorrection]
  isNew := by simp [memoCorrection, applied60, customerItem]

/-- **Corrected to 100.00, the memo comes to be applied 120.00**: 60.00 each way
passes the check of either direction. Before the correction it was within its
amount. -/
theorem memoCorrection_overApplied :
    ∃ s', transferCorrectionApplications (memoCorrection 1000000) (memoState 1000000) = .ok s' ∧
      (memoCorrection 1000000).WellFormed ∧
      (∀ line ∈ (memoCorrection 1000000).existing,
        WithinAmount (memoCorrection 1000000).activeApplications line) ∧
      ¬TransferSound (memoCorrection 1000000) (memoState 1000000) s' := by
  refine ⟨_, rfl, memoCorrection_wellFormed _, ?_, fun hsound => ?_⟩
  · intro line hline
    rw [mem_singleton.mp hline]
    exact ⟨by decide, by decide⟩
  · exact absurd (noTwoSidedOverload_of_sound hsound) (by decide)

/-- Corrected to 150.00 the same memo is not overfilled, and the transfer is
sound. -/
theorem transfer_sound_memo :
    ∃ s', transferCorrectionApplications (memoCorrection 1500000) (memoState 1500000) = .ok s' ∧
      TransferSound (memoCorrection 1500000) (memoState 1500000) s' :=
  ⟨_, rfl, (transfer_sound_iff (memoCorrection_wellFormed _) (fun _ ha => ha) rfl).mpr (by decide)⟩

end OpenBooks
