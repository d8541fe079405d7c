import OpenBooks.Organization.FxRounding

/-!
# One subsidiary at one rate

On the lines of a single subsidiary `absorbFxRoundingResidual` is a choice between two
outcomes: nothing, or the whole residual on one line (`absorb_single`). When the lines
are translations of transaction amounts that cancel, at one rate, the residual is within
the bound the function checks, so it does not refuse (`one_rate_posts`).

What counts as cancelling is the amount a line balances by, which for a line in another
currency than its document's is not its transaction amount.
-/

namespace OpenBooks

open Checked List ListSum

/-! ### The bucket is the largest -/

theorem absorbingLine_spec {group : List (SubLine × ℕ)} {p : SubLine × ℕ}
    (h : absorbingLine group = some p) :
    p ∈ group ∧ p.1.isControl = false ∧
      ∀ q ∈ group, q.1.isControl = false → |q.1.amount| ≤ |p.1.amount| := by
  suffices hrun : ∀ (ps : List (SubLine × ℕ)) (start : Option (SubLine × ℕ)) (p : SubLine × ℕ),
      (∀ b ∈ start, b.1.isControl = false) → ps.foldl largerBucket start = some p →
      (p ∈ ps ∨ start = some p) ∧ p.1.isControl = false ∧
        (∀ b ∈ start, |b.1.amount| ≤ |p.1.amount|) ∧
        ∀ q ∈ ps, q.1.isControl = false → |q.1.amount| ≤ |p.1.amount| by
    obtain ⟨hmem, hcontrol, -, hlargest⟩ := hrun group none p (by simp) h
    exact ⟨by simpa using hmem, hcontrol, hlargest⟩
  intro ps
  induction ps with
  | nil =>
    intro start p hstart hrun
    obtain rfl : start = some p := hrun
    exact ⟨Or.inr rfl, hstart p rfl, by simp, by simp⟩
  | cons q ps ih =>
    intro start p hstart hrun
    rw [foldl_cons] at hrun
    by_cases hcontrol : q.1.isControl = true
    · rw [largerBucket, if_pos hcontrol] at hrun
      obtain ⟨hmem, hp, hlarger, hrest⟩ := ih start p hstart hrun
      refine ⟨hmem.imp_left (mem_cons_of_mem q), hp, hlarger, ?_⟩
      rintro q' (_ | ⟨_, hq'⟩) hq'control
      · rw [hcontrol] at hq'control
        cases hq'control
      · exact hrest q' hq' hq'control
    · have hfree : q.1.isControl = false := by simpa using hcontrol
      rw [largerBucket, if_neg hcontrol] at hrun
      split_ifs at hrun with hlarger
      · obtain ⟨hmem, hp, hbest, hrest⟩ := ih (some q) p (by simpa using hfree) hrun
        have hq : |q.1.amount| ≤ |p.1.amount| := hbest q rfl
        refine ⟨Or.inl ?_, hp, ?_, ?_⟩
        · rcases hmem with hmem | hmem
          · exact mem_cons_of_mem q hmem
          · obtain rfl := Option.some.inj hmem
            exact mem_cons_self
        · rintro b rfl
          have := of_decide_eq_true (by simpa using hlarger : decide (|b.1.amount| < |q.1.amount|))
          omega
        · rintro q' (_ | ⟨_, hq'⟩) hq'control
          · exact hq
          · exact hrest q' hq' hq'control
      · obtain ⟨hmem, hp, hbest, hrest⟩ := ih start p hstart hrun
        refine ⟨hmem.imp_left (mem_cons_of_mem q), hp, hbest, ?_⟩
        rintro q' (_ | ⟨_, hq'⟩) hq'control
        · rcases start with _ | b
          · simp at hlarger
          · have hle : |q.1.amount| ≤ |b.1.amount| := by simpa using hlarger
            exact hle.trans (hbest b rfl)
        · exact hrest q' hq' hq'control

/-! ### The lines of one subsidiary -/

section Single

variable {s : String} {lines : List SubLine}

theorem absorb_eq_absorbGroup (hne : lines ≠ []) (hsub : ∀ l ∈ lines, l.subsidiaryId = s) :
    absorbFxRoundingResidual lines = absorbGroup lines (s, lines.zipIdx) := by
  have hgroups : FirstSeen.groupBy (fun p : SubLine × ℕ => p.1.subsidiaryId) lines.zipIdx =
      [(s, lines.zipIdx)] :=
    FirstSeen.groupBy_of_forall (by simpa using hne)
      fun p hp => hsub p.1 (mem_of_getElem? (mem_zipIdx_iff_getElem?.mp hp))
  rw [absorbFxRoundingResidual, hgroups, foldlM_cons]
  cases absorbGroup lines (s, lines.zipIdx) <;> rfl

/-- A line that takes a residual: one that may, and no other that may is larger. -/
structure Absorbs (lines : List SubLine) (i : ℕ) (l : SubLine) : Prop where
  getElem? : lines[i]? = some l
  free : l.isControl = false
  largest : ∀ l' ∈ lines, l'.isControl = false → |l'.amount| ≤ |l.amount|

/-- **A residual that is rounding goes onto the largest line that may take it.** -/
theorem absorb_single (hsub : ∀ l ∈ lines, l.subsidiaryId = s)
    (hzero : (lines.map SubLine.transactional).sum = 0)
    (hbound : 2 * |(lines.map SubLine.amount).sum| ≤ lines.length)
    (hfree : ∃ l ∈ lines, l.isControl = false) (hne : (lines.map SubLine.amount).sum ≠ 0) :
    ∃ i l, Absorbs lines i l ∧ absorbFxRoundingResidual lines =
      .ok (lines.modify i (SubLine.reduce (lines.map SubLine.amount).sum)) := by
  obtain ⟨l, hl, hcontrol⟩ := hfree
  obtain ⟨j, hj⟩ := mem_iff_getElem?.mp hl
  have hfree : ∃ p ∈ lines.zipIdx, p.1.isControl = false :=
    ⟨(l, j), mk_mem_zipIdx_iff_getElem?.mpr hj, hcontrol⟩
  obtain ⟨p, hp, hbucket⟩ := exists_absorbingLine hfree
  obtain ⟨-, hpfree, hlargest⟩ := absorbingLine_spec hbucket
  refine ⟨p.2, p.1, ⟨mem_zipIdx_iff_getElem?.mp hp, hpfree, ?_⟩, ?_⟩
  · intro l' hl' hl'free
    obtain ⟨j', hj'⟩ := mem_iff_getElem?.mp hl'
    exact hlargest (l', j') (mk_mem_zipIdx_iff_getElem?.mpr hj') hl'free
  · have hamount : (lines.zipIdx.map fun p => p.1.amount) = lines.map SubLine.amount :=
      map_zipIdx_fst SubLine.amount lines
    have htransaction : (lines.zipIdx.map fun p => p.1.transactional) =
        lines.map SubLine.transactional := map_zipIdx_fst SubLine.transactional lines
    rw [absorb_eq_absorbGroup (ne_nil_of_mem hl) hsub]
    simp only [absorbGroup, hamount, htransaction, length_zipIdx, if_neg (not_not_intro hzero),
      if_neg hne]
    exact bind_eq_ok.mpr ⟨(), refuseIf_eq_ok.mpr (not_lt.mpr hbound),
      bind_eq_ok.mpr ⟨p, orRefuse_eq_ok.mpr hbucket, rfl⟩⟩

/-- Lines of one subsidiary, each the translation of its transaction amount at one rate; the
transaction amounts cancel, and some line may take a residual. -/
structure OneRate (s : String) (r : ℤ) (lines : List SubLine) : Prop where
  subsidiary : ∀ l ∈ lines, l.subsidiaryId = s
  translated : ∀ l ∈ lines, ∃ t, l.txnAmount = some t ∧ l.amount = mulRate t r
  cancel : (lines.map fun l => l.txnAmount.getD 0).sum = 0
  free : ∃ l ∈ lines, l.isControl = false

/-- Translations of amounts that cancel miss zero by at most half a unit each. -/
theorem OneRate.two_mul_abs_le {r : ℤ} (h : OneRate s r lines) :
    2 * |(lines.map SubLine.amount).sum| ≤ lines.length := by
  have hround := two_mul_abs_sum_mulRate_le r (lines.map fun l => l.txnAmount.getD 0)
  have hamount : lines.map SubLine.amount =
      (lines.map fun l => l.txnAmount.getD 0).map fun t => mulRate t r := by
    rw [map_map]
    refine map_congr_left fun l hl => ?_
    obtain ⟨t, htxn, hamount⟩ := h.translated l hl
    rw [hamount, Function.comp, htxn, Option.getD_some]
  rw [← hamount, h.cancel, zero_mul, sub_zero, abs_mul, abs_of_pos RATE_SCALE_pos, ← mul_assoc,
    length_map] at hround
  exact le_of_mul_le_mul_right hround RATE_SCALE_pos

theorem sum_amount_modify {lines : List SubLine} {i : ℕ} {l : SubLine} (hl : lines[i]? = some l)
    (total : ℤ) : ((lines.modify i (SubLine.reduce total)).map SubLine.amount).sum =
      (lines.map SubLine.amount).sum - total := by
  have hsum := sum_filter_modify (f := SubLine.reduce total) hl (fun _ => true) rfl
    SubLine.amount
  simp only [filter_true, if_true] at hsum
  rw [hsum, SubLine.reduce]
  ring

/-- **A balanced document in a foreign currency posts within one entity.** Absorption does
not refuse its lines; if they balance, they do in functional currency too afterwards; and
at most one line is changed, in its amount, a largest one of those that may be. -/
theorem one_rate_posts {r : ℤ} (h : OneRate s r lines) :
    ∃ lines', absorbFxRoundingResidual lines = .ok lines' ∧
      ((lines.map SubLine.transactional).sum = 0 → (lines'.map SubLine.amount).sum = 0) ∧
      (lines' = lines ∨ ∃ i l, Absorbs lines i l ∧
        lines' = lines.modify i (SubLine.reduce (lines.map SubLine.amount).sum)) := by
  obtain ⟨l, hl, -⟩ := h.free
  have hne : lines ≠ [] := ne_nil_of_mem hl
  by_cases hzero : (lines.map SubLine.transactional).sum = 0
  · by_cases htotal : (lines.map SubLine.amount).sum = 0
    · refine ⟨lines, ?_, fun _ => htotal, Or.inl rfl⟩
      have hamount : (lines.zipIdx.map fun p => p.1.amount) = lines.map SubLine.amount :=
        map_zipIdx_fst SubLine.amount lines
      rw [absorb_eq_absorbGroup hne h.subsidiary]
      simp only [absorbGroup, hamount, htotal, if_true]
      split_ifs <;> rfl
    · obtain ⟨i, l, habsorbs, hrun⟩ :=
        absorb_single h.subsidiary hzero h.two_mul_abs_le h.free htotal
      refine ⟨_, hrun, fun _ => ?_, Or.inr ⟨i, l, habsorbs, rfl⟩⟩
      rw [sum_amount_modify habsorbs.getElem?, sub_self]
  · refine ⟨lines, ?_, fun h => absurd h hzero, Or.inl rfl⟩
    have htransaction : (lines.zipIdx.map fun p => p.1.transactional) =
        lines.map SubLine.transactional := map_zipIdx_fst SubLine.transactional lines
    rw [absorb_eq_absorbGroup hne h.subsidiary]
    simp only [absorbGroup, htransaction, if_pos hzero]

/-- At a rate of one half two small lines round up, and one of them gives the difference back. -/
theorem one_rate_posts_halves :
    ∃ lines', absorbFxRoundingResidual
        [{ accountId := "6000", amount := 1, txnAmount := some 1, subsidiaryId := "uk" },
          { accountId := "6100", amount := 1, txnAmount := some 1, subsidiaryId := "uk" },
          { accountId := "1000", amount := -1, txnAmount := some (-2), subsidiaryId := "uk" }] =
            .ok lines' ∧ (lines'.map SubLine.amount).sum = 0 := by
  have hrate : OneRate "uk" 5000000000
      [{ accountId := "6000", amount := 1, txnAmount := some 1, subsidiaryId := "uk" },
        { accountId := "6100", amount := 1, txnAmount := some 1, subsidiaryId := "uk" },
        { accountId := "1000", amount := -1, txnAmount := some (-2), subsidiaryId := "uk" }] :=
    ⟨by decide, by decide, by decide, by decide⟩
  obtain ⟨lines', hrun, hsum, -⟩ := one_rate_posts hrate
  exact ⟨lines', hrun, hsum (by decide)⟩

/-- A line that balances by another amount than its transaction amount keeps the function from
absorbing at all. -/
theorem one_rate_keeps_residual :
    OneRate "uk" 5000000000
        [{ accountId := "6000", amount := 1, balanceTxnAmount := some 5, txnAmount := some 1,
            subsidiaryId := "uk" },
          { accountId := "6100", amount := 1, txnAmount := some 1, subsidiaryId := "uk" },
          { accountId := "1000", amount := -1, txnAmount := some (-2), subsidiaryId := "uk" }] ∧
      (absorbFxRoundingResidual
        [{ accountId := "6000", amount := 1, balanceTxnAmount := some 5, txnAmount := some 1,
            subsidiaryId := "uk" },
          { accountId := "6100", amount := 1, txnAmount := some 1, subsidiaryId := "uk" },
          { accountId := "1000", amount := -1, txnAmount := some (-2), subsidiaryId := "uk" }]).map
            (fun lines => (lines.map SubLine.amount).sum) = .ok 1 :=
  ⟨⟨by decide, by decide, by decide, by decide⟩, by decide +kernel⟩

end Single

end OpenBooks
