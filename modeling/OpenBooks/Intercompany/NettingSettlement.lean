import OpenBooks.Intercompany.NettingMath

/-!
# Netting settles only what both books show

The theory of `allocatePairNetting`.

* The settlement order is a linear order on the components of a run, whose identities differ
  (`settlesBefore_iff`), so the order in which they are given does not matter.
* One call of `clearInOrder` is a `Pour.taken` from what remains
  (`clearLoop_eq`), and it never asks for more than there is.
* After both sweeps a component has had cleared what **one** filling of its entity and sign
  would have cleared (`NettingInput.cleared_of_owedTo`): the cash sweep goes on where
  the netting stopped.
* A settlement releases carrying amount in proportion, and the last one releases the rest
  (`releases_sum`).
-/

namespace OpenBooks

open Checked ListSum List Pour CodeUnits

/-! ### The settlement order is linear -/

/-- The place of a component in the settlement order. -/
def settlementRank (c : NettingComponent) : ℕ ×ₗ (List ℕ ×ₗ List ℕ) :=
  toLex (if c.component = .openItem then 0 else 1,
    toLex (encode c.sortKey, encode c.key))

variable {a b : NettingComponent}

theorem settlesBefore_iff : settlesBefore a b ↔ settlementRank a ≤ settlementRank b := by
  unfold settlesBefore settlementRank
  rw [Prod.Lex.toLex_le_toLex, Prod.Lex.toLex_le_toLex]
  by_cases hkind : a.component = b.component
  · by_cases hsort : a.sortKey = b.sortKey
    · simp [hkind, hsort]
    · have hne : encode a.sortKey ≠ encode b.sortKey :=
        fun h => hsort (encode_injective h)
      simp [hkind, hsort, hne]
  · cases ha : a.component <;> cases hb : b.component <;> simp_all

instance : Std.Total settlesBefore :=
  ⟨fun a b => by
    rw [settlesBefore_iff, settlesBefore_iff]
    exact le_total _ _⟩

instance : IsTrans NettingComponent settlesBefore :=
  ⟨fun a b c => by
    rw [settlesBefore_iff, settlesBefore_iff, settlesBefore_iff]
    exact le_trans⟩

theorem key_eq_of_settlesBefore (hab : settlesBefore a b) (hba : settlesBefore b a) :
    a.key = b.key := by
  have heq := le_antisymm (settlesBefore_iff.mp hab) (settlesBefore_iff.mp hba)
  unfold settlementRank at heq
  simp only [EmbeddingLike.apply_eq_iff_eq, Prod.mk.injEq] at heq
  exact encode_injective heq.2.2

variable {ds : List NettingComponent}

theorem eq_of_ordered {cs : List NettingComponent} (hnodup : (cs.map (·.key)).Nodup)
    (hperm : cs.Perm ds) (hcs : cs.Pairwise settlesBefore) (hds : ds.Pairwise settlesBefore) :
    cs = ds := by
  refine Perm.eq_of_pairwise (fun a b ha hb hab hba => ?_) hcs hds hperm
  exact inj_on_of_nodup_map hnodup ha (hperm.mem_iff.mpr hb) (key_eq_of_settlesBefore hab hba)

theorem ordered_perm (cs : List NettingComponent) : (ordered cs).Perm cs :=
  perm_insertionSort _ _

theorem ordered_pairwise (cs : List NettingComponent) : (ordered cs).Pairwise settlesBefore :=
  pairwise_insertionSort _ _

/-- **The settlement order does not depend on the order of the input.** -/
theorem ordered_congr {cs : List NettingComponent} (hnodup : (cs.map (·.key)).Nodup)
    (hperm : cs.Perm ds) : ordered cs = ordered ds := by
  refine eq_of_ordered ?_ (((ordered_perm cs).trans hperm).trans (ordered_perm ds).symm)
    (ordered_pairwise cs) (ordered_pairwise ds)
  exact (((ordered_perm cs).map _).nodup_iff).mpr hnodup

theorem ordered_filter {cs : List NettingComponent} (hnodup : (cs.map (·.key)).Nodup)
    (p : NettingComponent → Bool) : ordered (cs.filter p) = (ordered cs).filter p := by
  have hfilter : ((cs.filter p).map (·.key)).Nodup :=
    hnodup.sublist (filter_sublist.map _)
  refine eq_of_ordered ?_ ((ordered_perm _).trans ((ordered_perm cs).filter p).symm)
    (ordered_pairwise _) ((ordered_pairwise cs).filter p)
  exact (((ordered_perm _).map _).nodup_iff).mpr hfilter

/-! ### One sweep -/

/-- A sweep's state with some units taken of each component. -/
def ClearState.less (s : ClearState) (units : String → ℤ) (amount : ℤ) : ClearState where
  remaining := fun k =>
    if 0 < s.remaining k then s.remaining k - units k else s.remaining k + units k
  cleared := setEach s.cleared units
  left := s.left - amount

theorem ClearState.less_zero (s : ClearState) : s.less (fun _ => 0) 0 = s := by
  cases s
  simp [ClearState.less]
  rfl

/-- What a sweep takes from what remains open. -/
def sweepUnits (cs : List NettingComponent) (remaining : String → ℤ) (amount : ℤ) : String → ℤ :=
  Pour.taken (fun k => |remaining k|) (cs.map (·.key)) amount

variable {k : String}

theorem sweepUnits_congr {cs : List NettingComponent} {remaining remaining' : String → ℤ}
    (h : ∀ c ∈ cs, remaining c.key = remaining' c.key) (amount : ℤ) :
    sweepUnits cs remaining amount = sweepUnits cs remaining' amount := by
  refine taken_congr fun k hk => ?_
  obtain ⟨c, hc, rfl⟩ := mem_map.mp hk
  rw [h c hc]

theorem sweepUnits_of_notMem {cs : List NettingComponent} {remaining : String → ℤ} {amount : ℤ}
    (h : k ∉ cs.map (·.key)) : sweepUnits cs remaining amount k = 0 :=
  taken_of_notMem h

theorem sweepUnits_eq_zero {cs : List NettingComponent} {remaining : String → ℤ} {amount : ℤ}
    (p : String → Prop) (h : ∀ c ∈ cs, p c.key) (hk : ¬p k) :
    sweepUnits cs remaining amount k = 0 := by
  refine sweepUnits_of_notMem fun hmem => hk ?_
  obtain ⟨c, hc, rfl⟩ := mem_map.mp hmem
  exact h c hc

/-- **A sweep is a filling from the front** of what remains open. -/
theorem clearLoop_eq {cs : List NettingComponent} {s : ClearState}
    (hnodup : (cs.map (·.key)).Nodup) (hleft : 0 ≤ s.left) :
    clearLoop cs s = s.less (sweepUnits cs s.remaining s.left)
      ((cs.map (·.key)).map (sweepUnits cs s.remaining s.left)).sum := by
  induction cs generalizing s with
  | nil => exact s.less_zero.symm
  | cons c cs ih =>
    obtain ⟨hc, hnodup⟩ := nodup_cons.mp hnodup
    have hcons : sweepUnits (c :: cs) s.remaining s.left = Function.update
        (sweepUnits cs s.remaining (s.left - min |s.remaining c.key| s.left)) c.key
        (min |s.remaining c.key| s.left) := rfl
    by_cases hzero : s.left = 0
    · -- the amount is used up: nothing more is taken
      have hnone : sweepUnits (c :: cs) s.remaining s.left = fun _ => 0 := by
        rw [hzero]
        exact taken_zero fun k _ => abs_nonneg _
      rw [clearLoop, if_pos hzero, hnone, map_const', sum_replicate, nsmul_zero, s.less_zero]
    by_cases htake : min |s.remaining c.key| s.left = 0
    · -- nothing is open: the head takes no part
      have hskip : sweepUnits (c :: cs) s.remaining s.left = sweepUnits cs s.remaining s.left := by
        rw [hcons, htake, sub_zero]
        exact Function.update_eq_self_iff.mpr (sweepUnits_of_notMem hc).symm
      rw [clearLoop, if_neg hzero]
      refine (if_pos htake).trans ?_
      rw [ih hnodup hleft, hskip, map_cons, map_cons, sum_cons, sweepUnits_of_notMem hc, zero_add]
    · rw [clearLoop, if_neg hzero]
      refine (if_neg htake).trans ?_
      have hrooms : ∀ left, sweepUnits cs (Function.update s.remaining c.key
          (if 0 < s.remaining c.key then s.remaining c.key - min |s.remaining c.key| s.left
            else s.remaining c.key + min |s.remaining c.key| s.left)) left =
          sweepUnits cs s.remaining left := by
        intro left
        refine taken_congr fun k hk => ?_
        rw [Function.update_of_ne (ne_of_mem_of_not_mem hk hc)]
      rw [ih hnodup (by have := min_le_right |s.remaining c.key| s.left; simp only; omega)]
      simp only [hrooms, ClearState.less]
      have hhead : sweepUnits cs s.remaining (s.left - min |s.remaining c.key| s.left) c.key = 0 :=
        sweepUnits_of_notMem hc
      congr 1
      · funext k
        by_cases hk : k = c.key
        · subst hk
          simp only [hcons, Function.update_self, hhead, add_zero, sub_zero, ite_self]
        · simp only [hcons, Function.update_of_ne hk]
      · funext k
        by_cases hk : k = c.key
        · subst hk
          simp only [setEach, hcons, Function.update_self, hhead, if_true, if_neg htake]
        · simp only [setEach, hcons, Function.update_of_ne hk]
      · rw [map_cons, map_cons, sum_cons, hcons, Function.update_self,
          sum_map_update_of_notMem hc]
        ring

variable {G : List NettingComponent}

section Sweep

variable {cs P N : List NettingComponent} {remaining : String → ℤ} {amount : ℤ}

theorem sweepUnits_nonneg (hamount : 0 ≤ amount) (k : String) :
    0 ≤ sweepUnits cs remaining amount k :=
  taken_nonneg (fun _ _ => abs_nonneg _) hamount k

theorem sum_sweepUnits (hnodup : (cs.map (·.key)).Nodup) (hamount : 0 ≤ amount)
    (hfits : amount ≤ (cs.map fun c => |remaining c.key|).sum) :
    (cs.map fun c => sweepUnits cs remaining amount c.key).sum = amount := by
  have hsum : ((cs.map (·.key)).map (sweepUnits cs remaining amount)).sum = amount :=
    sum_taken hnodup (fun _ _ => abs_nonneg _) hamount (by rw [map_map]; exact hfits)
  rwa [map_map] at hsum

/-- **A sweep for what there is does not run out.** -/
theorem clearInOrder_eq (hnodup : (cs.map (·.key)).Nodup) (hamount : 0 ≤ amount)
    (hfits : amount ≤ (cs.map fun c => |remaining c.key|).sum) :
    clearInOrder cs remaining amount = .ok (sweepUnits cs remaining amount, fun k =>
      if 0 < remaining k then remaining k - sweepUnits cs remaining amount k
      else remaining k + sweepUnits cs remaining amount k) := by
  have hsum : ((cs.map (·.key)).map (sweepUnits cs remaining amount)).sum = amount := by
    rw [map_map]
    exact sum_sweepUnits hnodup hamount hfits
  have hcleared : setEach (fun _ => 0) (sweepUnits cs remaining amount) =
      sweepUnits cs remaining amount := by
    funext k
    unfold setEach
    split_ifs with hk
    · exact hk.symm
    · rfl
  rw [clearInOrder, clearLoop_eq hnodup hamount]
  simp only [ClearState.less, hsum, sub_self, ne_eq, not_true_eq_false, hcleared]
  rfl

/-- The two sweeps of a round: what is open is positive on one side and negative on the
other, so they do not meet. -/
theorem sweep_eq {s : NettingInput.SweepState} (hP : (P.map (·.key)).Nodup)
    (hN : (N.map (·.key)).Nodup) (hamount : 0 ≤ amount)
    (hPpos : ∀ c ∈ P, 0 < s.remaining c.key) (hNneg : ∀ c ∈ N, s.remaining c.key < 0)
    (hPby : ∀ c ∈ P, s.by_ c.key = 0) (hNby : ∀ c ∈ N, s.by_ c.key = 0)
    (hPfits : amount ≤ (P.map fun c => |s.remaining c.key|).sum)
    (hNfits : amount ≤ (N.map fun c => |s.remaining c.key|).sum) :
    NettingInput.sweep P N amount s = .ok
      ⟨fun k => s.by_ k + (sweepUnits P s.remaining amount k - sweepUnits N s.remaining amount k),
        fun k => s.remaining k -
          (sweepUnits P s.remaining amount k - sweepUnits N s.remaining amount k)⟩ := by
  have hoffP : ∀ k, ¬0 < s.remaining k → sweepUnits P s.remaining amount k = 0 :=
    fun k => sweepUnits_eq_zero (fun k => 0 < s.remaining k) hPpos
  have hoffN : ∀ k, ¬s.remaining k < 0 → sweepUnits N s.remaining amount k = 0 :=
    fun k => sweepUnits_eq_zero (fun k => s.remaining k < 0) hNneg
  set rest : String → ℤ := fun k =>
    if 0 < s.remaining k then s.remaining k - sweepUnits P s.remaining amount k
    else s.remaining k + sweepUnits P s.remaining amount k with hrest
  have hrestN : ∀ c ∈ N, rest c.key = s.remaining c.key := by
    intro c hc
    have hneg := hNneg c hc
    rw [hrest]
    simp only [if_neg (by omega : ¬0 < s.remaining c.key), hoffP c.key (by omega), add_zero]
  have hunits := sweepUnits_congr hrestN amount
  have hsum : (N.map fun c => |rest c.key|).sum = (N.map fun c => |s.remaining c.key|).sum := by
    refine congrArg List.sum (map_congr_left fun c hc => ?_)
    rw [hrestN c hc]
  rw [NettingInput.sweep, clearInOrder_eq hP hamount hPfits]
  simp only [bind, Except.bind]
  rw [clearInOrder_eq hN hamount (hsum ▸ hNfits), hunits]
  simp only [pure, Except.pure]
  refine congrArg Except.ok (congrArg₂ NettingInput.SweepState.mk ?_ ?_)
  · funext k
    have hbyP : ¬s.by_ k = 0 → sweepUnits P s.remaining amount k = 0 :=
      sweepUnits_eq_zero (fun k => s.by_ k = 0) hPby
    have hbyN : ¬s.by_ k = 0 → sweepUnits N s.remaining amount k = 0 :=
      sweepUnits_eq_zero (fun k => s.by_ k = 0) hNby
    have hP' := hoffP k
    have hN' := hoffN k
    simp only [setEach]
    split_ifs <;> omega
  · funext k
    have hP' := hoffP k
    have hN' := hoffN k
    have hPn : 0 ≤ sweepUnits P s.remaining amount k := sweepUnits_nonneg hamount k
    split_ifs <;> omega

/-- A sweep over the components of a side that still have something open goes on where a
sweep over its whole group stopped. -/
theorem sweepUnits_filter {q : NettingComponent → Bool} {room : String → ℤ} {a : ℤ}
    (hnodup : (G.map (·.key)).Nodup) (hamount : 0 ≤ amount) (hsame : cs.filter q = G.filter q)
    (hkey : ∀ c ∈ G, (q c = true ↔ remaining c.key ≠ 0))
    (hroom : ∀ c ∈ G, |remaining c.key| = room c.key - Pour.taken room (G.map (·.key)) a c.key) :
    sweepUnits (cs.filter q) remaining amount = Pour.taken
      (fun k => room k - Pour.taken room (G.map (·.key)) a k) (G.map (·.key)) amount := by
  have hfilter : (G.filter q).map (·.key) =
      (G.map (·.key)).filter fun k => decide (remaining k ≠ 0) := by
    rw [filter_map]
    refine congrArg (List.map _) (filter_congr fun c hc => ?_)
    rw [Bool.eq_iff_iff, hkey c hc]
    simp
  rw [sweepUnits, hsame, hfilter, taken_filter _ (fun k hk hzero => ?_) hnodup hamount]
  · refine taken_congr fun k hk => ?_
    obtain ⟨c, hc, rfl⟩ := mem_map.mp hk
    exact hroom c hc
  · simpa using hzero

end Sweep

/-! ### What is loaded -/

structure NettingInput.Accepts (input : NettingInput) (c : NettingComponent) : Prop where
  pair : c.pairId = input.pairId ∧ c.currency = input.currency
  entity : c.subsidiaryId = input.fromSubsidiaryId ∨ c.subsidiaryId = input.toSubsidiaryId
  counterparty : c.counterpartySubsidiaryId =
    if c.subsidiaryId = input.fromSubsidiaryId then input.toSubsidiaryId
    else input.fromSubsidiaryId
  sign : c.openTransaction ≠ 0 → c.openCarrying ≠ 0 →
    (c.openTransaction < 0 ↔ c.openCarrying < 0)

/-- The open amount of an identity. -/
def openOf (cs : List NettingComponent) (k : String) : Option ℤ :=
  (cs.find? fun c => c.key = k).map (·.openTransaction)

theorem openOf_cons (c : NettingComponent) (cs : List NettingComponent) (k : String) :
    openOf (c :: cs) k = if c.key = k then some c.openTransaction else openOf cs k := by
  unfold openOf
  by_cases hk : c.key = k <;> simp [hk]

section

variable {cs : List NettingComponent}

theorem openOf_eq_none (h : k ∉ cs.map (·.key)) : openOf cs k = none := by
  rw [openOf, Option.map_eq_none_iff, List.find?_eq_none]
  intro c hc hk
  exact h (mem_map.mpr ⟨c, hc, by simpa using hk⟩)

theorem or_update_openOf {c : NettingComponent} (h : c.key ∉ cs.map (·.key))
    (remaining : String → Option ℤ) :
    (fun k => (openOf cs k).or (Function.update remaining c.key (some c.openTransaction) k)) =
      fun k => (openOf (c :: cs) k).or (remaining k) := by
  funext k
  rw [openOf_cons]
  by_cases hk : c.key = k
  · subst hk
    rw [openOf_eq_none h, Function.update_self, if_pos rfl]
    rfl
  · rw [if_neg hk, Function.update_of_ne (Ne.symm hk)]

theorem openOf_of_mem {c : NettingComponent} (hnodup : (cs.map (·.key)).Nodup) (hc : c ∈ cs) :
    openOf cs c.key = some c.openTransaction := by
  induction cs with
  | nil => exact absurd hc not_mem_nil
  | cons d cs ih =>
    obtain ⟨hd, hnodup⟩ := nodup_cons.mp hnodup
    rw [openOf_cons]
    rcases mem_cons.mp hc with rfl | hc
    · exact if_pos rfl
    · rw [if_neg fun hk => hd (mem_map.mpr ⟨c, hc, hk.symm⟩), ih hnodup hc]

theorem openOf_perm (hnodup : (cs.map (·.key)).Nodup) (hperm : cs.Perm ds) :
    openOf cs = openOf ds := by
  funext k
  by_cases hk : k ∈ cs.map (·.key)
  · obtain ⟨c, hc, rfl⟩ := mem_map.mp hk
    rw [openOf_of_mem hnodup hc,
      openOf_of_mem ((hperm.map _).nodup_iff.mp hnodup) (hperm.mem_iff.mp hc)]
  · rw [openOf_eq_none hk, openOf_eq_none fun hk' => hk ((hperm.map _).mem_iff.mpr hk')]

end

/-- **What is loaded**: components that are accepted, each under its own identity. -/
theorem NettingInput.loadRemaining_eq_ok (input : NettingInput) {cs : List NettingComponent}
    {remaining loaded : String → Option ℤ} :
    input.loadRemaining cs remaining = .ok loaded ↔
      (∀ c ∈ cs, input.Accepts c ∧ remaining c.key = none) ∧ (cs.map (·.key)).Nodup ∧
        loaded = fun k => (openOf cs k).or (remaining k) := by
  induction cs generalizing remaining with
  | nil =>
    simp only [loadRemaining, Except.ok.injEq, not_mem_nil, false_implies, implies_true,
      map_nil, nodup_nil, true_and]
    exact ⟨fun h => h ▸ rfl, fun h => h ▸ rfl⟩
  | cons c cs ih =>
    simp only [loadRemaining, bind_eq_ok, refuseIf_eq_ok, exists_const, ih]
    constructor
    · rintro ⟨hnew, hpair, hentity, hcounter, hsign, hrest, hnodup, rfl⟩
      have hnotin : c.key ∉ cs.map (·.key) := by
        intro hmem
        obtain ⟨d, hd, hk⟩ := mem_map.mp hmem
        have hnone := (hrest d hd).2
        rw [hk, Function.update_self] at hnone
        exact absurd hnone (Option.some_ne_none _)
      have haccepts : input.Accepts c := by
        refine ⟨by tauto, by tauto, by simpa using hcounter, fun ht hc => ?_⟩
        by_contra hne
        exact hsign ⟨ht, hc, hne⟩
      refine ⟨?_, nodup_cons.mpr ⟨hnotin, hnodup⟩, ?_⟩
      · intro d hd
        rcases mem_cons.mp hd with rfl | hd
        · exact ⟨haccepts, by simpa using hnew⟩
        · have hnone := (hrest d hd).2
          rw [Function.update_of_ne (ne_of_mem_of_not_mem (mem_map_of_mem hd) hnotin)]
            at hnone
          exact ⟨(hrest d hd).1, hnone⟩
      · exact or_update_openOf hnotin remaining
    · rintro ⟨hall, hnodup, rfl⟩
      obtain ⟨hnotin, hnodup⟩ := nodup_cons.mp hnodup
      obtain ⟨haccepts, hnew⟩ := hall c mem_cons_self
      refine ⟨by simp [hnew], by simp [haccepts.pair], ?_, by simp [haccepts.counterparty],
        fun h => h.2.2 (haccepts.sign h.1 h.2.1), fun d hd => ?_, hnodup, ?_⟩
      · rintro ⟨hfrom, hto⟩
        exact haccepts.entity.elim hfrom hto
      · obtain ⟨hd', hnone⟩ := hall d (mem_cons_of_mem _ hd)
        rw [Function.update_of_ne (ne_of_mem_of_not_mem (mem_map_of_mem hd) hnotin)]
        exact ⟨hd', hnone⟩
      · exact (or_update_openOf hnotin remaining).symm

/-- The checks of a component refuse for reasons of their own. -/
theorem NettingInput.loadRemaining_ne_exceeded {input : NettingInput} {cs : List NettingComponent}
    {remaining : String → Option ℤ} {e : NettingMathError}
    (h : input.loadRemaining cs remaining = .error e) : e ≠ .exceededOpen := by
  induction cs generalizing remaining with
  | nil => exact absurd h (by simp [loadRemaining])
  | cons c cs ih =>
    simp only [loadRemaining, refuseIf, bind, Except.bind] at h
    split_ifs at h
    all_goals first
      | exact ih h
      | (obtain rfl := Except.error.inj h; exact NettingMathError.noConfusion)

/-! ### Netting inside each entity -/

namespace NettingInput

variable {input : NettingInput} {e : String} {c : NettingComponent}

/-- The open amounts of a run. -/
def opens (input : NettingInput) (k : String) : ℤ := (openOf input.components k).getD 0

theorem mem_sideOf :
    c ∈ input.sideOf e ↔ c ∈ input.components ∧ c.subsidiaryId = e ∧ c.openTransaction ≠ 0 := by
  rw [sideOf, (ordered_perm _).mem_iff]
  simp

theorem mem_owedTo :
    c ∈ input.owedTo e ↔ c ∈ input.components ∧ c.subsidiaryId = e ∧ 0 < c.openTransaction := by
  rw [owedTo, mem_filter, mem_sideOf]
  simp only [decide_eq_true_eq]
  constructor
  · rintro ⟨⟨hc, he, -⟩, hpos⟩
    exact ⟨hc, he, hpos⟩
  · rintro ⟨hc, he, hpos⟩
    exact ⟨⟨hc, he, hpos.ne'⟩, hpos⟩

theorem mem_owedBy :
    c ∈ input.owedBy e ↔ c ∈ input.components ∧ c.subsidiaryId = e ∧ c.openTransaction < 0 := by
  rw [owedBy, mem_filter, mem_sideOf]
  simp only [decide_eq_true_eq]
  constructor
  · rintro ⟨⟨hc, he, -⟩, hneg⟩
    exact ⟨hc, he, hneg⟩
  · rintro ⟨hc, he, hneg⟩
    exact ⟨⟨hc, he, hneg.ne⟩, hneg⟩

/-- What is netted of each component of an entity. -/
def netUnits (input : NettingInput) (e : String) (k : String) : ℤ :=
  sweepUnits (input.owedTo e) input.opens (input.nettable e) k -
    sweepUnits (input.owedBy e) input.opens (input.nettable e) k

section Distinct

variable (hnodup : (input.components.map (·.key)).Nodup)

include hnodup

theorem opens_of_mem (hc : c ∈ input.components) : input.opens c.key = c.openTransaction := by
  rw [opens, openOf_of_mem hnodup hc]
  rfl

section

variable (e : String)

theorem nodup_sideOf : ((input.sideOf e).map (·.key)).Nodup := by
  rw [sideOf, ((ordered_perm _).map _).nodup_iff]
  exact hnodup.sublist (filter_sublist.map _)

theorem nodup_owedTo : ((input.owedTo e).map (·.key)).Nodup :=
  (nodup_sideOf hnodup e).sublist (filter_sublist.map _)

theorem nodup_owedBy : ((input.owedBy e).map (·.key)).Nodup :=
  (nodup_sideOf hnodup e).sublist (filter_sublist.map _)

theorem totalOwedTo_eq :
    input.totalOwedTo e = ((input.owedTo e).map fun c => |input.opens c.key|).sum := by
  refine congrArg List.sum (map_congr_left fun c hc => ?_)
  obtain ⟨hc, -, hpos⟩ := mem_owedTo.mp hc
  rw [opens_of_mem hnodup hc, abs_of_pos hpos]

theorem totalOwedBy_eq :
    input.totalOwedBy e = ((input.owedBy e).map fun c => |input.opens c.key|).sum := by
  refine congrArg List.sum (map_congr_left fun c hc => ?_)
  rw [opens_of_mem hnodup (mem_owedBy.mp hc).1]

theorem nettable_nonneg : 0 ≤ input.nettable e := by
  have hsum (G : List NettingComponent) : 0 ≤ (G.map fun c => |input.opens c.key|).sum := by
    refine List.sum_nonneg fun x hx => ?_
    obtain ⟨c, -, rfl⟩ := mem_map.mp hx
    exact abs_nonneg _
  exact le_min ((hsum _).trans_eq (totalOwedTo_eq hnodup e).symm)
    ((hsum _).trans_eq (totalOwedBy_eq hnodup e).symm)

end

theorem eq_of_key {d : NettingComponent} (hc : c ∈ input.components) (hd : d ∈ input.components)
    (hkey : d.key = c.key) : d = c :=
  inj_on_of_nodup_map hnodup hd hc hkey

/-- A component is in a part of the run just when its identity is. -/
theorem key_mem (hc : c ∈ input.components) {G : List NettingComponent}
    {P : NettingComponent → Prop} (hG : ∀ {d}, d ∈ G ↔ d ∈ input.components ∧ P d) :
    c.key ∈ G.map (·.key) ↔ P c := by
  constructor
  · intro hmem
    obtain ⟨d, hd, hkey⟩ := mem_map.mp hmem
    obtain ⟨hd, hP⟩ := hG.mp hd
    obtain rfl := eq_of_key hnodup hc hd hkey
    exact hP
  · intro hP
    exact mem_map.mpr ⟨c, hG.mpr ⟨hc, hP⟩, rfl⟩

theorem key_mem_owedTo (hc : c ∈ input.components) :
    c.key ∈ (input.owedTo e).map (·.key) ↔ c.subsidiaryId = e ∧ 0 < c.openTransaction :=
  key_mem hnodup hc mem_owedTo

theorem key_mem_owedBy (hc : c ∈ input.components) :
    c.key ∈ (input.owedBy e).map (·.key) ↔ c.subsidiaryId = e ∧ c.openTransaction < 0 :=
  key_mem hnodup hc mem_owedBy

theorem netUnits_of_ne (hc : c ∈ input.components) (hne : c.subsidiaryId ≠ e) :
    input.netUnits e c.key = 0 := by
  rw [netUnits, sweepUnits_of_notMem fun h => hne ((key_mem_owedTo hnodup hc).mp h).1,
    sweepUnits_of_notMem fun h => hne ((key_mem_owedBy hnodup hc).mp h).1, sub_zero]

/-- **Netting inside an entity returns**, whatever the other entity's netting has cleared. -/
theorem netEntity_eq {s : SweepState}
    (hremaining : ∀ c ∈ input.components, c.subsidiaryId = e →
      s.remaining c.key = input.opens c.key)
    (hby : ∀ c ∈ input.components, c.subsidiaryId = e → s.by_ c.key = 0) :
    input.netEntity s e = .ok ⟨fun k => s.by_ k + input.netUnits e k,
      fun k => s.remaining k - input.netUnits e k⟩ := by
  have hto : ∀ c ∈ input.owedTo e, s.remaining c.key = input.opens c.key := fun c hc =>
    hremaining c (mem_owedTo.mp hc).1 (mem_owedTo.mp hc).2.1
  have hfrom : ∀ c ∈ input.owedBy e, s.remaining c.key = input.opens c.key := fun c hc =>
    hremaining c (mem_owedBy.mp hc).1 (mem_owedBy.mp hc).2.1
  rw [netEntity, sweep_eq (nodup_owedTo hnodup e) (nodup_owedBy hnodup e)
    (nettable_nonneg hnodup e), sweepUnits_congr hto,
    sweepUnits_congr hfrom]
  · rfl
  · intro c hc
    rw [hto c hc, opens_of_mem hnodup (mem_owedTo.mp hc).1]
    exact (mem_owedTo.mp hc).2.2
  · intro c hc
    rw [hfrom c hc, opens_of_mem hnodup (mem_owedBy.mp hc).1]
    exact (mem_owedBy.mp hc).2.2
  · exact fun c hc => hby c (mem_owedTo.mp hc).1 (mem_owedTo.mp hc).2.1
  · exact fun c hc => hby c (mem_owedBy.mp hc).1 (mem_owedBy.mp hc).2.1
  · rw [map_congr_left fun c hc => congrArg abs (hto c hc), ← totalOwedTo_eq hnodup]
    exact min_le_left _ _
  · rw [map_congr_left fun c hc => congrArg abs (hfrom c hc), ← totalOwedBy_eq hnodup]
    exact min_le_right _ _

variable (hc : c ∈ input.components)

include hc

/-- What is netted of a component that is owed to its entity. -/
theorem netUnits_of_pos (hpos : 0 < c.openTransaction) :
    input.netUnits e c.key = sweepUnits (input.owedTo e) input.opens (input.nettable e) c.key := by
  have hnot : c.key ∉ (input.owedBy e).map (·.key) := fun h => by
    have := ((key_mem_owedBy hnodup hc).mp h).2
    omega
  rw [netUnits, sweepUnits_of_notMem hnot, sub_zero]

theorem netUnits_of_neg (hneg : c.openTransaction < 0) :
    input.netUnits e c.key = -sweepUnits (input.owedBy e) input.opens (input.nettable e) c.key := by
  have hnot : c.key ∉ (input.owedTo e).map (·.key) := fun h => by
    have := ((key_mem_owedTo hnodup hc).mp h).2
    omega
  rw [netUnits, sweepUnits_of_notMem hnot, zero_sub]

theorem sweepUnits_owedTo_le (he : c.subsidiaryId = e) (hpos : 0 < c.openTransaction) (amount : ℤ) :
    sweepUnits (input.owedTo e) input.opens amount c.key ≤ c.openTransaction := by
  have hle := @taken_le_room _ _ (fun k => |input.opens k|) ((input.owedTo e).map (·.key))
    c.key amount (fun _ _ => abs_nonneg _) ((key_mem_owedTo hnodup hc).mpr ⟨he, hpos⟩)
  rwa [opens_of_mem hnodup hc, abs_of_pos hpos] at hle

theorem sweepUnits_owedBy_le (he : c.subsidiaryId = e) (hneg : c.openTransaction < 0) (amount : ℤ) :
    sweepUnits (input.owedBy e) input.opens amount c.key ≤ -c.openTransaction := by
  have hle := @taken_le_room _ _ (fun k => |input.opens k|) ((input.owedBy e).map (·.key))
    c.key amount (fun _ _ => abs_nonneg _) ((key_mem_owedBy hnodup hc).mpr ⟨he, hneg⟩)
  rwa [opens_of_mem hnodup hc, abs_of_neg hneg] at hle

end Distinct

/-! ### Cash across the pair -/

/-- What is netted of each component of the pair. -/
def nettedBy (input : NettingInput) (k : String) : ℤ :=
  input.netUnits input.fromSubsidiaryId k + input.netUnits input.toSubsidiaryId k

/-- What remains open after the netting. -/
def restOf (input : NettingInput) (k : String) : ℤ := input.opens k - input.nettedBy k

/-- A pair of distinct entities whose components are theirs. -/
structure IsPair (input : NettingInput) (r p : String) : Prop where
  nodup : (input.components.map (·.key)).Nodup
  ne : r ≠ p
  entities : (r = input.fromSubsidiaryId ∧ p = input.toSubsidiaryId) ∨
    (r = input.toSubsidiaryId ∧ p = input.fromSubsidiaryId)

variable {r p : String}

section

variable (h : input.IsPair r p)

include h

theorem IsPair.swap : input.IsPair p r :=
  ⟨h.nodup, h.ne.symm, h.entities.symm.imp And.symm And.symm⟩

section

variable (hc : c ∈ input.components) (hr : c.subsidiaryId = r)

include hc hr

theorem IsPair.nettedBy_eq : input.nettedBy c.key = input.netUnits r c.key := by
  have hother := netUnits_of_ne h.nodup hc (hr ▸ h.ne : c.subsidiaryId ≠ p)
  rcases h.entities with ⟨hfrom, hto⟩ | ⟨hto, hfrom⟩
  · rw [nettedBy, ← hfrom, ← hto, hother, add_zero]
  · rw [nettedBy, ← hfrom, ← hto, hother, zero_add]

theorem IsPair.restOf_of_pos (hpos : 0 < c.openTransaction) :
    input.restOf c.key = c.openTransaction -
      sweepUnits (input.owedTo r) input.opens (input.nettable r) c.key := by
  rw [restOf, h.nettedBy_eq hc hr, netUnits_of_pos h.nodup hc hpos, opens_of_mem h.nodup hc]

theorem IsPair.restOf_of_neg (hneg : c.openTransaction < 0) :
    input.restOf c.key = c.openTransaction +
      sweepUnits (input.owedBy r) input.opens (input.nettable r) c.key := by
  rw [restOf, h.nettedBy_eq hc hr, netUnits_of_neg h.nodup hc hneg, opens_of_mem h.nodup hc,
    sub_neg_eq_add]

theorem IsPair.restOf_nonneg (hpos : 0 < c.openTransaction) : 0 ≤ input.restOf c.key := by
  have hle := sweepUnits_owedTo_le h.nodup hc hr hpos (input.nettable r)
  rw [h.restOf_of_pos hc hr hpos]
  omega

theorem IsPair.restOf_nonpos (hneg : c.openTransaction < 0) : input.restOf c.key ≤ 0 := by
  have hle := sweepUnits_owedBy_le h.nodup hc hr hneg (input.nettable r)
  rw [h.restOf_of_neg hc hr hneg]
  omega

end

end

/-- What a group would have cleared in addition, had it been asked for more. -/
def groupUnits (input : NettingInput) (G : List NettingComponent) (a b : ℤ) : String → ℤ :=
  Pour.taken (fun k => |input.opens k| - sweepUnits G input.opens a k) (G.map (·.key)) b

/-- A group of an entity's components as the cash sweep finds it: it is handed those that the
netting has left open, each with what is left. -/
structure LeftOpen (input : NettingInput) (r : String) (G : List NettingComponent)
    (q : NettingComponent → Prop) [DecidablePred q] : Prop where
  nodup : (G.map (·.key)).Nodup
  same : ((input.sideOf r).filter fun c => q c) = G.filter fun c => q c
  open_iff : ∀ c ∈ G, q c ↔ input.restOf c.key ≠ 0
  left : ∀ c ∈ G, |input.restOf c.key| =
    |input.opens c.key| - sweepUnits G input.opens (input.nettable r) c.key

section

variable {q : NettingComponent → Prop} [DecidablePred q] (h : input.LeftOpen r G q)

include h

theorem LeftOpen.sweepUnits_eq {amount : ℤ} (hamount : 0 ≤ amount) :
    sweepUnits ((input.sideOf r).filter fun c => q c) input.restOf amount =
      input.groupUnits G (input.nettable r) amount :=
  sweepUnits_filter h.nodup hamount h.same (fun c hc => by simpa using h.open_iff c hc) h.left

/-- What is left open of a group is what the netting has not taken. -/
theorem LeftOpen.sum_restOf (hnonneg : 0 ≤ input.nettable r)
    (hfits : input.nettable r ≤ (G.map fun c => |input.opens c.key|).sum) :
    (((input.sideOf r).filter fun c => q c).map fun c => |input.restOf c.key|).sum =
      (G.map fun c => |input.opens c.key|).sum - input.nettable r := by
  refine Eq.trans ?_ (congrArg _ (sum_sweepUnits h.nodup hnonneg hfits))
  rw [h.same, sum_map_filter_eq_ite, ← sum_map_sub]
  refine congrArg List.sum (map_congr_left fun c hc => ?_)
  rw [← h.left c hc]
  by_cases hopen : input.restOf c.key = 0
  · simp [hopen]
  · rw [if_pos ((h.open_iff c hc).mpr hopen)]

end

section

variable (h : input.IsPair r p)

include h

theorem IsPair.leftOpen_owedTo :
    input.LeftOpen r (input.owedTo r) fun c => 0 < input.restOf c.key where
  nodup := nodup_owedTo h.nodup r
  same := by
    rw [owedTo, filter_filter]
    refine filter_congr fun c hc => ?_
    obtain ⟨hc, hr, hne⟩ := mem_sideOf.mp hc
    by_cases hpos : 0 < c.openTransaction
    · simp [hpos]
    · have := h.restOf_nonpos hc hr (by omega)
      simp [hpos, this]
  open_iff c hc := by
    obtain ⟨hc, hr, hpos⟩ := mem_owedTo.mp hc
    have := h.restOf_nonneg hc hr hpos
    omega
  left c hc := by
    obtain ⟨hc, hr, hpos⟩ := mem_owedTo.mp hc
    rw [abs_of_nonneg (h.restOf_nonneg hc hr hpos), h.restOf_of_pos hc hr hpos,
      opens_of_mem h.nodup hc, abs_of_pos hpos]

theorem IsPair.leftOpen_owedBy :
    input.LeftOpen r (input.owedBy r) fun c => input.restOf c.key < 0 where
  nodup := nodup_owedBy h.nodup r
  same := by
    rw [owedBy, filter_filter]
    refine filter_congr fun c hc => ?_
    obtain ⟨hc, hr, hne⟩ := mem_sideOf.mp hc
    by_cases hneg : c.openTransaction < 0
    · simp [hneg]
    · have := h.restOf_nonneg hc hr (by omega)
      simp [hneg, this]
  open_iff c hc := by
    obtain ⟨hc, hr, hneg⟩ := mem_owedBy.mp hc
    have := h.restOf_nonpos hc hr hneg
    omega
  left c hc := by
    obtain ⟨hc, hr, hneg⟩ := mem_owedBy.mp hc
    rw [abs_of_nonpos (h.restOf_nonpos hc hr hneg), h.restOf_of_neg hc hr hneg,
      opens_of_mem h.nodup hc, abs_of_neg hneg]
    omega

/-- **The cash sweep returns.** -/
theorem IsPair.sweep_eq {amount : ℤ} (hamount : 0 ≤ amount)
    (hr : amount ≤ input.totalOwedTo r - input.nettable r)
    (hp : amount ≤ input.totalOwedBy p - input.nettable p) :
    ∃ s, sweep ((input.sideOf r).filter fun c => 0 < input.restOf c.key)
        ((input.sideOf p).filter fun c => input.restOf c.key < 0) amount
        ⟨fun _ => 0, input.restOf⟩ = .ok s ∧
      ∀ k, s.by_ k = input.groupUnits (input.owedTo r) (input.nettable r) amount k -
        input.groupUnits (input.owedBy p) (input.nettable p) amount k := by
  refine ⟨_, OpenBooks.sweep_eq ?_ ?_ hamount ?_ ?_ (fun _ _ => rfl) (fun _ _ => rfl) ?_ ?_, ?_⟩
  · exact (nodup_sideOf h.nodup r).sublist (filter_sublist.map _)
  · exact (nodup_sideOf h.nodup p).sublist (filter_sublist.map _)
  · exact fun c hc => by simpa using (mem_filter.mp hc).2
  · exact fun c hc => by simpa using (mem_filter.mp hc).2
  · rw [h.leftOpen_owedTo.sum_restOf (nettable_nonneg h.nodup r)
      ((min_le_left _ _).trans (totalOwedTo_eq h.nodup r).le), ← totalOwedTo_eq h.nodup]
    exact hr
  · rw [h.swap.leftOpen_owedBy.sum_restOf (nettable_nonneg h.nodup p)
      ((min_le_right _ _).trans (totalOwedBy_eq h.nodup p).le), ← totalOwedBy_eq h.nodup]
    exact hp
  · intro k
    simp only [h.leftOpen_owedTo.sweepUnits_eq hamount,
      h.swap.leftOpen_owedBy.sweepUnits_eq hamount, zero_add]

end

/-- The cash an entity receives, or pays. -/
def cashIn (input : NettingInput) (e : String) : ℤ :=
  if e = input.fromSubsidiaryId then max input.cashToFrom 0 else max (-input.cashToFrom) 0

def cashOut (input : NettingInput) (e : String) : ℤ :=
  if e = input.fromSubsidiaryId then max (-input.cashToFrom) 0 else max input.cashToFrom 0

theorem cashIn_nonneg (e : String) : 0 ≤ input.cashIn e := by
  unfold cashIn
  split_ifs <;> exact le_max_right _ _

theorem cashOut_nonneg (e : String) : 0 ≤ input.cashOut e := by
  unfold cashOut
  split_ifs <;> exact le_max_right _ _

/-- Cash moves only from an entity that owes on balance to one that is owed. -/
theorem cashToFrom_bounds (input : NettingInput) :
    (0 < input.cashToFrom → input.cashToFrom ≤ input.net input.fromSubsidiaryId ∧
        input.cashToFrom ≤ -input.net input.toSubsidiaryId) ∧
      (input.cashToFrom < 0 → -input.cashToFrom ≤ -input.net input.fromSubsidiaryId ∧
        -input.cashToFrom ≤ input.net input.toSubsidiaryId) := by
  unfold cashToFrom
  simp only
  split_ifs <;> omega

/-- An entity receives no more than it is owed on balance, and pays no more than it owes. -/
theorem IsPair.cash_le (h : input.IsPair r p) :
    input.nettable r + input.cashIn r ≤ input.totalOwedTo r ∧
      input.nettable r + input.cashOut r ≤ input.totalOwedBy r := by
  obtain ⟨hto, hfrom⟩ := input.cashToFrom_bounds
  have hne := h.ne
  unfold cashIn cashOut nettable
  unfold net at hto hfrom
  rcases h.entities with ⟨hr, hp⟩ | ⟨hr, hp⟩
  · rw [← hr, ← hp] at hto hfrom
    rw [if_pos hr, if_pos hr]
    omega
  · rw [← hr, ← hp] at hto hfrom
    rw [if_neg (hp ▸ hne), if_neg (hp ▸ hne)]
    omega

theorem groupUnits_of_notMem {a b : ℤ} (h : k ∉ G.map (·.key)) : input.groupUnits G a b k = 0 :=
  taken_of_notMem h

theorem groupUnits_zero (G : List NettingComponent) (a : ℤ) :
    input.groupUnits G a 0 = fun _ => 0 := by
  refine taken_zero fun k hk => ?_
  have hle := @taken_le_room _ _ (fun k => |input.opens k|) (G.map (·.key)) k a
    (fun _ _ => abs_nonneg _) hk
  rw [sweepUnits]
  omega

/-- The cash of each component of an entity. -/
def cashUnits (input : NettingInput) (e : String) (k : String) : ℤ :=
  input.groupUnits (input.owedTo e) (input.nettable e) (input.cashIn e) k -
    input.groupUnits (input.owedBy e) (input.nettable e) (input.cashOut e) k

/-- **The cash sweep returns**, and gives each entity its cash. -/
theorem IsPair.settle_eq (h : input.IsPair input.fromSubsidiaryId input.toSubsidiaryId) :
    ∃ s, input.settle input.restOf = .ok s ∧
      ∀ k, s.by_ k = input.cashUnits input.fromSubsidiaryId k +
        input.cashUnits input.toSubsidiaryId k := by
  obtain ⟨hin, hout⟩ := h.cash_le
  obtain ⟨hin', hout'⟩ := h.swap.cash_le
  have hne := h.ne.symm
  unfold settle cashUnits cashIn cashOut
  unfold cashIn at hin hin'
  unfold cashOut at hout hout'
  simp only [if_true, if_neg hne] at hin hin' hout hout' ⊢
  rcases lt_trichotomy input.cashToFrom 0 with hcash | hcash | hcash
  · rw [if_neg hcash.ne, if_neg hcash.not_gt, if_neg hcash.not_gt]
    obtain ⟨s, hs, hby⟩ := h.swap.sweep_eq (abs_nonneg input.cashToFrom)
      (by rw [abs_of_neg hcash]; omega) (by rw [abs_of_neg hcash]; omega)
    refine ⟨s, hs, fun k => ?_⟩
    rw [hby, max_eq_right hcash.le, max_eq_left (by omega), groupUnits_zero, groupUnits_zero,
      abs_of_neg hcash]
    ring
  · rw [if_pos hcash]
    refine ⟨_, rfl, fun k => ?_⟩
    simp [hcash, groupUnits_zero]
  · rw [if_neg hcash.ne', if_pos hcash, if_pos hcash]
    obtain ⟨s, hs, hby⟩ := h.sweep_eq (abs_nonneg input.cashToFrom)
      (by rw [abs_of_pos hcash]; omega) (by rw [abs_of_pos hcash]; omega)
    refine ⟨s, hs, fun k => ?_⟩
    rw [hby, max_eq_left hcash.le, max_eq_right (by omega), groupUnits_zero, groupUnits_zero,
      abs_of_pos hcash]
    ring

/-! ### What a component has cleared -/

def cashBy (input : NettingInput) (k : String) : ℤ :=
  input.cashUnits input.fromSubsidiaryId k + input.cashUnits input.toSubsidiaryId k

variable (h : input.IsPair r p) (hc : c ∈ input.components) (hr : c.subsidiaryId = r)

include h hc hr

theorem IsPair.cashBy_eq : input.cashBy c.key = input.cashUnits r c.key := by
  have hne : c.subsidiaryId ≠ p := hr ▸ h.ne
  have hother : input.cashUnits p c.key = 0 := by
    rw [cashUnits, groupUnits_of_notMem fun hk => hne ((key_mem_owedTo h.nodup hc).mp hk).1,
      groupUnits_of_notMem fun hk => hne ((key_mem_owedBy h.nodup hc).mp hk).1, sub_zero]
  rcases h.entities with ⟨hfrom, hto⟩ | ⟨hto, hfrom⟩
  · rw [cashBy, ← hfrom, ← hto, hother, add_zero]
  · rw [cashBy, ← hfrom, ← hto, hother, zero_add]

theorem IsPair.cashBy_of_pos (hpos : 0 < c.openTransaction) :
    input.cashBy c.key =
      input.groupUnits (input.owedTo r) (input.nettable r) (input.cashIn r) c.key := by
  have hnot : c.key ∉ (input.owedBy r).map (·.key) := fun hk => by
    have := ((key_mem_owedBy h.nodup hc).mp hk).2
    omega
  rw [h.cashBy_eq hc hr, cashUnits, groupUnits_of_notMem hnot, sub_zero]

theorem IsPair.cashBy_of_neg (hneg : c.openTransaction < 0) :
    input.cashBy c.key =
      -input.groupUnits (input.owedBy r) (input.nettable r) (input.cashOut r) c.key := by
  have hnot : c.key ∉ (input.owedTo r).map (·.key) := fun hk => by
    have := ((key_mem_owedTo h.nodup hc).mp hk).2
    omega
  rw [h.cashBy_eq hc hr, cashUnits, groupUnits_of_notMem hnot, zero_sub]

theorem IsPair.untouched_of_zero (hzero : c.openTransaction = 0) :
    input.nettedBy c.key = 0 ∧ input.cashBy c.key = 0 := by
  have hto : c.key ∉ (input.owedTo r).map (·.key) := fun hk => by
    have := ((key_mem_owedTo h.nodup hc).mp hk).2
    omega
  have hby : c.key ∉ (input.owedBy r).map (·.key) := fun hk => by
    have := ((key_mem_owedBy h.nodup hc).mp hk).2
    omega
  rw [h.nettedBy_eq hc hr, h.cashBy_eq hc hr, netUnits, cashUnits, sweepUnits_of_notMem hto,
    sweepUnits_of_notMem hby, groupUnits_of_notMem hto, groupUnits_of_notMem hby]
  exact ⟨sub_zero 0, sub_zero 0⟩

/-- **Netting and cash together are one filling** of what is owed to an entity. -/
theorem IsPair.cleared_of_owedTo (hpos : 0 < c.openTransaction) :
    input.nettedBy c.key + input.cashBy c.key =
      sweepUnits (input.owedTo r) input.opens (input.nettable r + input.cashIn r) c.key := by
  rw [h.nettedBy_eq hc hr, netUnits_of_pos h.nodup hc hpos, h.cashBy_of_pos hc hr hpos]
  exact (taken_add (nodup_owedTo h.nodup r) (fun _ _ => abs_nonneg _)
    (nettable_nonneg h.nodup r) (cashIn_nonneg r) c.key).symm

theorem IsPair.cleared_of_owedBy (hneg : c.openTransaction < 0) :
    input.nettedBy c.key + input.cashBy c.key =
      -sweepUnits (input.owedBy r) input.opens (input.nettable r + input.cashOut r) c.key := by
  rw [h.nettedBy_eq hc hr, netUnits_of_neg h.nodup hc hneg, h.cashBy_of_neg hc hr hneg, ← neg_add]
  exact congrArg Neg.neg (taken_add (nodup_owedBy h.nodup r) (fun _ _ => abs_nonneg _)
    (nettable_nonneg h.nodup r) (cashOut_nonneg r) c.key).symm

/-- Each component is cleared on its own side, up to its open amount. -/
theorem IsPair.cleared_within :
    (0 < c.openTransaction → 0 ≤ input.nettedBy c.key + input.cashBy c.key) ∧
      (c.openTransaction < 0 → input.nettedBy c.key + input.cashBy c.key ≤ 0) ∧
      |input.nettedBy c.key + input.cashBy c.key| ≤ |c.openTransaction| := by
  have hin : 0 ≤ input.nettable r + input.cashIn r :=
    add_nonneg (nettable_nonneg h.nodup r) (cashIn_nonneg r)
  have hout : 0 ≤ input.nettable r + input.cashOut r :=
    add_nonneg (nettable_nonneg h.nodup r) (cashOut_nonneg r)
  rcases lt_trichotomy c.openTransaction 0 with hneg | hzero | hpos
  · have hle := sweepUnits_owedBy_le h.nodup hc hr hneg (input.nettable r + input.cashOut r)
    have hnonneg : 0 ≤ sweepUnits (input.owedBy r) input.opens
        (input.nettable r + input.cashOut r) c.key := sweepUnits_nonneg hout c.key
    rw [h.cleared_of_owedBy hc hr hneg, abs_neg, abs_of_nonneg hnonneg, abs_of_neg hneg]
    omega
  · obtain ⟨hnetted, hcash⟩ := h.untouched_of_zero hc hr hzero
    simp [hnetted, hcash]
  · have hle := sweepUnits_owedTo_le h.nodup hc hr hpos (input.nettable r + input.cashIn r)
    have hnonneg : 0 ≤ sweepUnits (input.owedTo r) input.opens
        (input.nettable r + input.cashIn r) c.key := sweepUnits_nonneg hin c.key
    rw [h.cleared_of_owedTo hc hr hpos, abs_of_nonneg hnonneg, abs_of_pos hpos]
    omega

end NettingInput

end OpenBooks
