import OpenBooks.Organization.Intercompany
import OpenBooks.Lib.ListSum
import Mathlib.Algebra.BigOperators.Ring.List
import Mathlib.Algebra.Order.Ring.Abs

/-!
# The rounding of translated lines

A line is **translated** when it carries a transaction amount, the document's currency and
its subsidiary's rate. On a document of translated lines whose functional amounts *are*
the translations, `absorbFxRoundingResidual` always returns when every
subsidiary has a line that may absorb (`absorb_translated`): a subsidiary whose
transaction amounts cancel misses zero by at most half a unit for each line, which is
just what the guard admits.

What is left is `Absorbed`: transaction totals that vanish come with vanishing
functional totals, other subsidiaries are exactly as translated, and no subsidiary is
further from its translation than half a unit for each line.
-/

namespace OpenBooks

open Checked ListSum List FirstSeen

/-! ### Translated lines -/

/-- A line carries a transaction amount – the same one for balancing – in the document's
currency, and the positive rate of its subsidiary. -/
structure Translated (rate : String → ℤ) (currency : String) (l : SubLine) : Prop where
  txn_isSome : l.txnAmount.isSome
  balance_eq : ∀ b ∈ l.balanceTxnAmount, l.txnAmount = some b
  currency_eq : l.currency = some currency
  fxRate_eq : l.fxRate = some (rate l.subsidiaryId)
  rate_pos : 0 < rate l.subsidiaryId

/-- A line without its functional amount. -/
def SubLine.erase (l : SubLine) : SubLine := { l with amount := 0 }

variable {l : SubLine}

section

variable {rate : String → ℤ} {currency : String}

theorem Translated.of_erase_eq {l' : SubLine} (h : Translated rate currency l)
    (heq : l'.erase = l.erase) : Translated rate currency l' := by
  cases l
  cases l'
  simp only [SubLine.erase, SubLine.mk.injEq] at heq
  obtain ⟨rfl, -, rfl, rfl, rfl, rfl, rfl, rfl, rfl⟩ := heq
  exact ⟨h.txn_isSome, h.balance_eq, h.currency_eq, h.fxRate_eq, h.rate_pos⟩

theorem Translated.transactional_eq (h : Translated rate currency l) :
    l.txnAmount = some l.transactional := by
  obtain ⟨t, ht⟩ := Option.isSome_iff_exists.mp h.txn_isSome
  rw [SubLine.transactional]
  cases hb : l.balanceTxnAmount with
  | none => simp [ht]
  | some b => simpa [hb] using h.balance_eq b (by simp [hb])

theorem Translated.transactional_of_erase_eq {l' : SubLine} (h : Translated rate currency l)
    (heq : l'.erase = l.erase) : l'.transactional = l.transactional := by
  have htxn : l'.erase.txnAmount = l.erase.txnAmount := by rw [heq]
  have h' := (h.of_erase_eq heq).transactional_eq
  rw [show l'.txnAmount = l.txnAmount from htxn, h.transactional_eq] at h'
  exact (Option.some.inj h').symm

end

/-- How far a line is from its translation. -/
def gap (rate : String → ℤ) (l : SubLine) : ℤ :=
  l.amount - mulRate l.transactional (rate l.subsidiaryId)

/-- How far the lines of a subsidiary are from their translations, in all. -/
def gapTotal (rate : String → ℤ) (s : String) (lines : List SubLine) : ℤ :=
  ((linesOf s lines).map fun l => |gap rate l|).sum

theorem mulRate_eq_round (amount rate : ℤ) :
    mulRate amount rate = HalfAway.round (amount * rate) RATE_SCALE :=
  roundDiv_eq_round _ _

/-- **Translations together miss the translation of the total** by at most half a unit
each. -/
theorem two_mul_abs_sum_mulRate_le (rate : ℤ) (ts : List ℤ) :
    2 * |(ts.map fun t => mulRate t rate).sum * RATE_SCALE - ts.sum * rate| ≤
      ts.length * RATE_SCALE := by
  have h := HalfAway.two_mul_abs_sum_round_sub_le RATE_SCALE_pos (ts.map fun t => t * rate)
  rw [map_map, length_map, sum_map_mul_right, map_id'] at h
  simpa only [Function.comp_def, mulRate_eq_round] using h

variable {rate : String → ℤ} {currency : String} {lines lines' : List SubLine} {s : String}

theorem mem_of_mem_linesOf (h : l ∈ linesOf s lines) : l ∈ lines ∧ l.subsidiaryId = s := by
  simpa [linesOf] using h

/-- A subsidiary all of whose lines are exactly translated misses its translated total by
at most half a unit for each line. -/
theorem two_mul_abs_functionalTotal_le
    (hexact : ∀ l ∈ linesOf s lines, l.amount = mulRate l.transactional (rate s)) :
    2 * |functionalTotal s lines * RATE_SCALE - transactionTotal s lines * rate s| ≤
      (linesOf s lines).length * RATE_SCALE := by
  have hround := two_mul_abs_sum_mulRate_le (rate s) ((linesOf s lines).map SubLine.transactional)
  rw [map_map, length_map] at hround
  rw [functionalTotal, map_congr_left hexact]
  exact hround

/-! ### The bucket -/

theorem largerBucket_cases (bucket : Option (SubLine × ℕ)) (p : SubLine × ℕ) :
    largerBucket bucket p = some p ∨
      (largerBucket bucket p = bucket ∧ (p.1.isControl = true ∨ bucket.isSome)) := by
  rw [largerBucket]
  split_ifs with hcontrol hlarger
  · exact Or.inr ⟨rfl, Or.inl hcontrol⟩
  · exact Or.inl rfl
  · cases bucket with
    | none => exact absurd (Option.all_none) hlarger
    | some b => exact Or.inr ⟨rfl, Or.inr rfl⟩

theorem exists_absorbingLine {group : List (SubLine × ℕ)} (h : ∃ p ∈ group, p.1.isControl = false) :
    ∃ p ∈ group, absorbingLine group = some p := by
  suffices hrun : ∀ (ps : List (SubLine × ℕ)) (start : Option (SubLine × ℕ)),
      (start.isSome ∨ ∃ p ∈ ps, p.1.isControl = false) →
      ∃ p, (p ∈ ps ∨ start = some p) ∧ ps.foldl largerBucket start = some p by
    obtain ⟨p, hp, hbucket⟩ := hrun group none (Or.inr h)
    exact ⟨p, by simpa using hp, hbucket⟩
  intro ps
  induction ps with
  | nil =>
    intro start hstart
    obtain ⟨p, hp⟩ := Option.isSome_iff_exists.mp (by simpa using hstart : start.isSome = true)
    exact ⟨p, Or.inr hp, hp⟩
  | cons q ps ih =>
    intro start hstart
    rw [foldl_cons]
    rcases largerBucket_cases start q with htaken | ⟨hleft, hwhy⟩
    · obtain ⟨p, hp, hrun⟩ := ih (some q) (Or.inl rfl)
      rw [htaken]
      refine ⟨p, Or.inl ?_, hrun⟩
      rcases hp with hp | hp
      · exact mem_cons_of_mem q hp
      · exact Option.some.inj hp ▸ mem_cons_self
    · rw [hleft]
      have hnext : start.isSome ∨ ∃ p ∈ ps, p.1.isControl = false := by
        rcases hwhy with hcontrol | hsome
        · simpa [hcontrol] using hstart
        · exact Or.inl hsome
      obtain ⟨p, hp, hrun⟩ := ih start hnext
      exact ⟨p, hp.imp (mem_cons_of_mem q) id, hrun⟩

/-! ### The groups -/

variable {g : String × List (SubLine × ℕ)}

/-- What is read off a group is read off the lines of its subsidiary. -/
theorem map_group
    (hg : g ∈ groupBy (fun p : SubLine × ℕ => p.1.subsidiaryId) lines.zipIdx) :
    g.2.map Prod.fst = linesOf g.1 lines ∧ ∀ p ∈ g.2, lines[p.2]? = some p.1 ∧
      p.1.subsidiaryId = g.1 := by
  obtain ⟨-, hgroup⟩ := mem_groupBy.mp (show (g.1, g.2) ∈ _ from hg)
  constructor
  · rw [hgroup, linesOf]
    conv_rhs => rw [← zipIdx_map_fst 0 lines]
    rw [filter_map]
    rfl
  · intro p hp
    rw [hgroup, mem_filter] at hp
    exact ⟨mem_zipIdx_iff_getElem?.mp hp.1, by simpa using hp.2⟩

/-- What absorption leaves of a document, in the course of it: the lines are the same but
for amounts; subsidiaries not yet done, or that do not cancel, are as they were; those
done that cancel have functional total zero; and no gap is above its bound. -/
structure AbsorbInv (rate : String → ℤ) (lines : List SubLine) (done : List String)
    (lines' : List SubLine) : Prop where
  erase_eq : lines'.map SubLine.erase = lines.map SubLine.erase
  untouched : ∀ s, s ∉ done ∨ transactionTotal s lines ≠ 0 →
    functionalTotal s lines' = functionalTotal s lines ∧ gapTotal rate s lines' = 0
  vanish : ∀ s ∈ done, transactionTotal s lines = 0 → functionalTotal s lines' = 0
  within : ∀ s, 2 * gapTotal rate s lines' ≤ (linesOf s lines).length

/-- A document as it is translated: every line is, with its functional amount the
translation, and every subsidiary has a line that may absorb. -/
structure TranslatedLines (rate : String → ℤ) (currency : String) (lines : List SubLine) : Prop where
  translated : ∀ l ∈ lines, Translated rate currency l
  exact : ∀ l ∈ lines, l.amount = mulRate l.transactional (rate l.subsidiaryId)
  bucket : ∀ l ∈ lines, ∃ l' ∈ lines, l'.subsidiaryId = l.subsidiaryId ∧ l'.isControl = false

theorem TranslatedLines.gapTotal_eq_zero (h : TranslatedLines rate currency lines) (s : String) :
    gapTotal rate s lines = 0 := by
  refine sum_eq_zero fun x hx => ?_
  obtain ⟨l, hl, rfl⟩ := mem_map.mp hx
  rw [gap, h.exact l (mem_of_mem_linesOf hl).1, sub_self, abs_zero]

theorem AbsorbInv.start (h : TranslatedLines rate currency lines) : AbsorbInv rate lines [] lines where
  erase_eq := rfl
  untouched s _ := ⟨rfl, h.gapTotal_eq_zero s⟩
  vanish := by simp
  within s := by
    rw [h.gapTotal_eq_zero s]
    positivity

variable {done : List String}

theorem AbsorbInv.skip (hinv : AbsorbInv rate lines done lines') {s₀ : String} (hnew : s₀ ∉ done)
    (hskip : transactionTotal s₀ lines ≠ 0 ∨ functionalTotal s₀ lines = 0) :
    AbsorbInv rate lines (done ++ [s₀]) lines' where
  erase_eq := hinv.erase_eq
  untouched s hs := hinv.untouched s (hs.imp (fun hs hd => hs (by simp [hd])) id)
  vanish := by
    intro s hs hzero
    rcases mem_append.mp hs with hs | hs
    · exact hinv.vanish s hs hzero
    · obtain rfl := mem_singleton.mp hs
      rw [(hinv.untouched s (Or.inl hnew)).1]
      exact hskip.resolve_left (not_not_intro hzero)
  within := hinv.within

/-- A functional amount reduced. -/
def SubLine.reduce (total : ℤ) (l : SubLine) : SubLine := { l with amount := l.amount - total }

theorem map_erase_modify (total : ℤ) (i : ℕ) (lines : List SubLine) :
    (lines.modify i (SubLine.reduce total)).map SubLine.erase = lines.map SubLine.erase := by
  refine ext_getElem? fun j => ?_
  rw [getElem?_map, getElem?_map, getElem?_modify]
  cases lines[j]? with
  | none => rfl
  | some l => by_cases hij : i = j <;> simp [hij, SubLine.erase, SubLine.reduce]

theorem abs_gap_reduce_le (h : Translated rate currency l) (total : ℤ) :
    |gap rate (l.reduce total)| ≤ |gap rate l| + |total| := by
  have htxn : (l.reduce total).transactional = l.transactional :=
    h.transactional_of_erase_eq rfl
  have hgap : gap rate (l.reduce total) = gap rate l - total := by
    rw [gap, htxn, gap, SubLine.reduce]
    ring
  rw [hgap]
  exact abs_sub _ _

section

variable (h : TranslatedLines rate currency lines)

include h

theorem AbsorbInv.absorb (hinv : AbsorbInv rate lines done lines') {s₀ : String} (hnew : s₀ ∉ done)
    (hzero : transactionTotal s₀ lines = 0) {i : ℕ} (hl : lines[i]? = some l)
    (hsub : l.subsidiaryId = s₀)
    (hbound : 2 * |functionalTotal s₀ lines| ≤ (linesOf s₀ lines).length) :
    AbsorbInv rate lines (done ++ [s₀])
      (lines'.modify i (SubLine.reduce (functionalTotal s₀ lines))) := by
  obtain ⟨x, hx, herase⟩ : ∃ x, lines'[i]? = some x ∧ x.erase = l.erase := by
    have hi := congrArg (fun ls : List SubLine => ls[i]?) hinv.erase_eq
    simp only [getElem?_map, hl, Option.map_some] at hi
    exact Option.map_eq_some_iff.mp hi
  have hxsub : x.subsidiaryId = s₀ := by
    have : x.erase.subsidiaryId = l.erase.subsidiaryId := by rw [herase]
    exact this.trans hsub
  have hxtranslated : Translated rate currency x :=
    (h.translated l (mem_of_getElem? hl)).of_erase_eq herase
  have hsum : ∀ (s : String) (g : SubLine → ℤ),
      ((linesOf s (lines'.modify i (SubLine.reduce (functionalTotal s₀ lines)))).map g).sum =
        ((linesOf s lines').map g).sum +
          if s₀ = s then g (x.reduce (functionalTotal s₀ lines)) - g x else 0 := by
    intro s g
    have := sum_filter_modify (f := SubLine.reduce (functionalTotal s₀ lines)) hx
      (fun l => l.subsidiaryId = s) rfl g
    simpa only [linesOf, hxsub, decide_eq_true_eq] using this
  refine ⟨(map_erase_modify _ _ _).trans hinv.erase_eq, ?_, ?_, ?_⟩
  · intro s hs
    have hne : s₀ ≠ s := by
      rintro rfl
      rcases hs with hs | hs
      · exact hs (by simp)
      · exact hs hzero
    obtain ⟨hF, hgap⟩ := hinv.untouched s (hs.imp (fun hs hd => hs (by simp [hd])) id)
    exact ⟨by rw [functionalTotal, hsum, if_neg hne, add_zero]; exact hF,
      by rw [gapTotal, hsum, if_neg hne, add_zero]; exact hgap⟩
  · intro s hs hs0
    rw [functionalTotal, hsum]
    by_cases hne : s₀ = s
    · subst hne
      have hF := (hinv.untouched s₀ (Or.inl hnew)).1
      rw [if_pos rfl, ← functionalTotal, hF, SubLine.reduce]
      ring
    · rw [if_neg hne, add_zero]
      refine hinv.vanish s ?_ hs0
      rcases mem_append.mp hs with hs | hs
      · exact hs
      · exact absurd (mem_singleton.mp hs).symm hne
  · intro s
    rw [gapTotal, hsum]
    by_cases hne : s₀ = s
    · subst hne
      have hgap := (hinv.untouched s₀ (Or.inl hnew)).2
      have hle := abs_gap_reduce_le hxtranslated (functionalTotal s₀ lines)
      rw [if_pos rfl, ← gapTotal, hgap]
      linarith
    · rw [if_neg hne, add_zero]
      exact hinv.within s

/-- **A group whose transaction amounts cancel misses zero by rounding only.** -/
theorem two_mul_abs_functionalTotal_le_length (hzero : transactionTotal s lines = 0) :
    2 * |functionalTotal s lines| ≤ (linesOf s lines).length := by
  have hround : 2 * |functionalTotal s lines * RATE_SCALE - transactionTotal s lines * rate s| ≤
      (linesOf s lines).length * RATE_SCALE := by
    refine two_mul_abs_functionalTotal_le fun l hl => ?_
    obtain ⟨hmem, hsub⟩ := mem_of_mem_linesOf hl
    rw [h.exact l hmem, hsub]
  rw [hzero, zero_mul, sub_zero, abs_mul, abs_of_pos RATE_SCALE_pos, ← mul_assoc] at hround
  exact le_of_mul_le_mul_right hround RATE_SCALE_pos

/-- One group. -/
theorem AbsorbInv.step (hinv : AbsorbInv rate lines done lines')
    (hg : g ∈ groupBy (fun p : SubLine × ℕ => p.1.subsidiaryId) lines.zipIdx) (hnew : g.1 ∉ done) :
    ∃ lines'', absorbGroup lines' g = .ok lines'' ∧ AbsorbInv rate lines (done ++ [g.1]) lines'' := by
  obtain ⟨hfst, hmem⟩ := map_group hg
  have htotal : (g.2.map fun p => p.1.amount).sum = functionalTotal g.1 lines := by
    rw [functionalTotal, ← hfst, map_map]
    rfl
  have htransaction : (g.2.map fun p => p.1.transactional).sum = transactionTotal g.1 lines := by
    rw [transactionTotal, ← hfst, map_map]
    rfl
  have hlength : g.2.length = (linesOf g.1 lines).length := by
    rw [← hfst, length_map]
  simp only [absorbGroup, htotal, htransaction, hlength]
  by_cases hzero : transactionTotal g.1 lines = 0
  · rw [if_neg (not_not_intro hzero)]
    by_cases hF : functionalTotal g.1 lines = 0
    · rw [if_pos hF]
      exact ⟨lines', rfl, hinv.skip hnew (Or.inr hF)⟩
    · rw [if_neg hF]
      have hbound := two_mul_abs_functionalTotal_le_length h hzero
      obtain ⟨q, hq⟩ := exists_mem_of_ne_nil _ (group_ne_nil hg)
      obtain ⟨hline, hsub⟩ := hmem q hq
      obtain ⟨l', hl', hsub', hcontrol⟩ := h.bucket q.1 (mem_of_getElem? hline)
      have hl'mem : l' ∈ g.2.map Prod.fst := by
        rw [hfst]
        simp [linesOf, hl', hsub', hsub]
      obtain ⟨q', hq', rfl⟩ := mem_map.mp hl'mem
      obtain ⟨p, hp, hbucket⟩ := exists_absorbingLine ⟨q', hq', hcontrol⟩
      refine ⟨_, ?_, hinv.absorb h hnew hzero (hmem p hp).1 (hmem p hp).2 hbound⟩
      exact bind_eq_ok.mpr ⟨(), refuseIf_eq_ok.mpr (by omega),
        bind_eq_ok.mpr ⟨p, orRefuse_eq_ok.mpr hbucket, rfl⟩⟩
  · rw [if_pos hzero]
    exact ⟨lines', rfl, hinv.skip hnew (Or.inl hzero)⟩

end

/-! ### The document -/

/-- What absorption leaves. -/
structure Absorbed (rate : String → ℤ) (currency : String) (lines : List SubLine) : Prop where
  translated : ∀ l ∈ lines, Translated rate currency l
  vanish : ∀ s, transactionTotal s lines = 0 → functionalTotal s lines = 0
  exact : ∀ s, transactionTotal s lines ≠ 0 → gapTotal rate s lines = 0
  within : ∀ s, 2 * gapTotal rate s lines ≤ (linesOf s lines).length

/-- Lines that differ in amounts only are the same in all else. -/
theorem map_linesOf_of_erase_eq {α : Type} (heq : lines'.map SubLine.erase = lines.map SubLine.erase)
    (s : String) (f : SubLine → α) (hf : ∀ l, f l.erase = f l) :
    (linesOf s lines').map f = (linesOf s lines).map f := by
  have hread : ∀ ls : List SubLine, (linesOf s ls).map f =
      ((ls.map SubLine.erase).filter fun l => l.subsidiaryId = s).map f := by
    intro ls
    rw [filter_map, map_map]
    exact map_congr_left fun l _ => (hf l).symm
  rw [hread, hread, heq]

/-- **Absorption returns** on a translated document, and leaves it absorbed, with its
subsidiaries and transaction totals. -/
theorem absorb_translated (h : TranslatedLines rate currency lines) :
    ∃ lines', absorbFxRoundingResidual lines = .ok lines' ∧ Absorbed rate currency lines' ∧
      lines'.map SubLine.erase = lines.map SubLine.erase ∧
      lines'.map SubLine.transactional = lines.map SubLine.transactional := by
  obtain ⟨lines', hrun, hinv⟩ := @exists_foldlM _ _
    (groupBy (fun p : SubLine × ℕ => p.1.subsidiaryId) lines.zipIdx) _ absorbGroup lines
    (fun done lines' => AbsorbInv rate lines (done.map Prod.fst) lines') (AbsorbInv.start h) (by
      intro done g rest lines' hgroups hinv
      have hg : g ∈ groupBy (fun p : SubLine × ℕ => p.1.subsidiaryId) lines.zipIdx := by
        rw [hgroups]
        simp
      have hnodup := nodup_map_fst_groupBy (fun p : SubLine × ℕ => p.1.subsidiaryId) lines.zipIdx
      rw [hgroups, map_append, map_cons] at hnodup
      have hnew : g.1 ∉ done.map Prod.fst := fun hmem =>
        (nodup_append.mp hnodup).2.2 _ hmem _ mem_cons_self rfl
      simpa using hinv.step h hg hnew)
  have hpoint : ∀ (i : ℕ) (x : SubLine), lines'[i]? = some x →
      ∃ l, lines[i]? = some l ∧ x.erase = l.erase := by
    intro i x hx
    have hi := congrArg (fun ls : List SubLine => ls[i]?) hinv.erase_eq
    simp only [getElem?_map, hx, Option.map_some] at hi
    obtain ⟨l, hl, heq⟩ := Option.map_eq_some_iff.mp hi.symm
    exact ⟨l, hl, heq.symm⟩
  have htranslated : ∀ x ∈ lines', Translated rate currency x := by
    intro x hx
    obtain ⟨i, hi⟩ := mem_iff_getElem?.mp hx
    obtain ⟨l, hl, heq⟩ := hpoint i x hi
    exact (h.translated l (mem_of_getElem? hl)).of_erase_eq heq
  -- the transaction amount of a translated line is read off the erased line
  have hread : ∀ ls : List SubLine, (∀ l ∈ ls, Translated rate currency l) →
      ls.map SubLine.transactional = (ls.map SubLine.erase).map fun l => l.txnAmount.getD 0 := by
    intro ls hls
    rw [map_map]
    refine map_congr_left fun l hl => ?_
    simp [SubLine.erase, (hls l hl).transactional_eq]
  have htotals : ∀ s, transactionTotal s lines' = transactionTotal s lines := by
    intro s
    have hrest := map_linesOf_of_erase_eq hinv.erase_eq s SubLine.erase fun l => rfl
    rw [transactionTotal, transactionTotal,
      hread _ fun l hl => htranslated l (mem_of_mem_linesOf hl).1,
      hread _ fun l hl => h.translated l (mem_of_mem_linesOf hl).1, hrest]
  refine ⟨lines', hrun, ⟨htranslated, ?_, ?_, ?_⟩, hinv.erase_eq, ?_⟩
  · intro s hzero
    rw [htotals] at hzero
    by_cases hs : s ∈ (groupBy (fun p : SubLine × ℕ => p.1.subsidiaryId) lines.zipIdx).map Prod.fst
    · exact hinv.vanish s hs hzero
    · have hnone : linesOf s lines = [] := by
        refine filter_eq_nil_iff.mpr fun l hl hsub => hs ?_
        obtain ⟨i, hi⟩ := mem_iff_getElem?.mp hl
        rw [map_fst_groupBy, FirstSeen.mem_keys]
        exact ⟨(l, i), mk_mem_zipIdx_iff_getElem?.mpr hi, by simpa using hsub⟩
      rw [(hinv.untouched s (Or.inl hs)).1, functionalTotal, hnone]
      rfl
  · intro s hne
    rw [htotals] at hne
    exact (hinv.untouched s (Or.inr hne)).2
  · intro s
    have hlen := congrArg List.length (map_linesOf_of_erase_eq hinv.erase_eq s SubLine.erase fun l => rfl)
    rw [length_map, length_map] at hlen
    rw [hlen]
    exact hinv.within s
  · rw [hread _ htranslated, hread _ h.translated, hinv.erase_eq]

end OpenBooks
