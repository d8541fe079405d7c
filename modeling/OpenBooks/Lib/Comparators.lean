import OpenBooks.Lib.CodeUnits
import Mathlib.Data.List.Sort
import Mathlib.Order.Basic

/-!
# Comparators

A comparator answers two elements with a number: negative when the first comes first, positive when
the second does, zero when neither has to. `Comparators.Coherent` says that its answers fit
together, so that sorting by it makes sense: the order of the question does not matter, and “not
after” is transitive.

A difference of keys is coherent, and so is a list of coherent comparators of which the first that
decides is asked (`Comparators.coherent_firstNonzero`). Where a coherent comparator tells every two
elements apart, a list has one sorted order only (`Comparators.sorted_eq_of_perm`).
-/

namespace Comparators

open List CodeUnits

variable {α β : Type}

/-- The answers of a comparator fit together. -/
structure Coherent (c : α → α → ℤ) : Prop where
  swap : ∀ a b, c a b ≤ 0 ↔ 0 ≤ c b a
  trans : ∀ a b d, c a b ≤ 0 → c b d ≤ 0 → c a d ≤ 0

section Coherent

variable {c : α → α → ℤ} (h : Coherent c)

include h

theorem Coherent.neg_iff (a b : α) : c a b < 0 ↔ 0 < c b a := by
  have := h.swap b a
  omega

theorem Coherent.eq_zero_iff (a b : α) : c a b = 0 ↔ c b a = 0 := by
  have hab := h.swap a b
  have hba := h.swap b a
  omega

theorem Coherent.total (a b : α) : c a b ≤ 0 ∨ c b a ≤ 0 := by
  have := h.swap a b
  omega

theorem Coherent.lt_of_lt_of_le {a b d : α} (hab : c a b < 0) (hbd : c b d ≤ 0) : c a d < 0 := by
  by_contra hda
  have hba := h.trans b d a hbd ((h.swap d a).mpr (not_lt.mp hda))
  have := (h.neg_iff a b).mp hab
  omega

theorem Coherent.lt_of_le_of_lt {a b d : α} (hab : c a b ≤ 0) (hbd : c b d < 0) : c a d < 0 := by
  by_contra hda
  have hdb := h.trans d a b ((h.swap d a).mpr (not_lt.mp hda)) hab
  have := (h.neg_iff b d).mp hbd
  omega

theorem Coherent.comap (g : β → α) : Coherent fun a b => c (g a) (g b) where
  swap a b := h.swap (g a) (g b)
  trans a b d := h.trans (g a) (g b) (g d)

end Coherent

/-! ### Keys -/

theorem coherent_sub (key : α → ℤ) : Coherent fun a b => key a - key b where
  swap a b := by omega
  trans a b d hab hbd := by omega

theorem coherent_sub_swap (key : α → ℤ) : Coherent fun a b => key b - key a where
  swap a b := by omega
  trans a b d hab hbd := by omega

/-- Two texts by their code units. -/
def compareTexts (s t : String) : ℤ :=
  if encode s < encode t then -1
  else if encode t < encode s then 1
  else 0

theorem compareTexts_nonpos_iff (s t : String) :
    compareTexts s t ≤ 0 ↔ encode s ≤ encode t := by
  unfold compareTexts
  split_ifs with hst hts
  · simpa using hst.le
  · simpa using hts
  · simpa using not_lt.mp hts

theorem compareTexts_nonneg_iff (s t : String) :
    0 ≤ compareTexts s t ↔ encode t ≤ encode s := by
  unfold compareTexts
  split_ifs with hst hts
  · simpa using hst
  · simpa using hts.le
  · simpa using not_lt.mp hst

theorem coherent_compareTexts : Coherent compareTexts where
  swap s t := by rw [compareTexts_nonpos_iff, compareTexts_nonneg_iff]
  trans s t u hst htu := by
    rw [compareTexts_nonpos_iff] at *
    exact hst.trans htu

theorem compareTexts_eq_zero_iff (s t : String) : compareTexts s t = 0 ↔ s = t := by
  constructor
  · intro h
    refine encode_injective (le_antisymm ?_ ?_)
    · exact (compareTexts_nonpos_iff s t).mp h.le
    · exact (compareTexts_nonneg_iff s t).mp h.ge
  · rintro rfl
    simp [compareTexts]

/-! ### Asking one comparator after the other -/

/-- The first answer that decides. -/
def firstNonzero : List ℤ → ℤ
  | [] => 0
  | x :: xs => if x ≠ 0 then x else firstNonzero xs

theorem firstNonzero_eq_zero_iff (xs : List ℤ) : firstNonzero xs = 0 ↔ ∀ x ∈ xs, x = 0 := by
  induction xs with
  | nil => simp [firstNonzero]
  | cons x xs ih =>
    by_cases hx : x = 0
    · simp [firstNonzero, hx, ih]
    · simp [firstNonzero, hx]

theorem head_nonpos_of_firstNonzero {x : ℤ} {xs : List ℤ} (h : firstNonzero (x :: xs) ≤ 0) :
    x ≤ 0 := by
  unfold firstNonzero at h
  split_ifs at h with hx
  · exact h
  · omega

/-- **Coherent comparators asked in turn** make a coherent comparator. -/
theorem coherent_firstNonzero (cs : List (α → α → ℤ)) (h : ∀ c ∈ cs, Coherent c) :
    Coherent fun a b => firstNonzero (cs.map fun c => c a b) := by
  induction cs with
  | nil => exact ⟨fun _ _ => Iff.rfl, fun _ _ _ _ _ => le_rfl⟩
  | cons c cs ih =>
    obtain ⟨hc, hcs⟩ := forall_mem_cons.mp h
    have ih := ih hcs
    simp only [map_cons, firstNonzero]
    constructor
    · intro a b
      have hzero := hc.eq_zero_iff a b
      have hswap := hc.swap a b
      have hrest := ih.swap a b
      split_ifs with hab hba hba <;> omega
    · intro a b d hab hbd
      have habc : c a b ≤ 0 := by
        split_ifs at hab with hne
        · exact hab
        · omega
      have hbdc : c b d ≤ 0 := by
        split_ifs at hbd with hne
        · exact hbd
        · omega
      split_ifs with had
      · exact hc.trans a b d habc hbdc
      · -- Neither step is strict for the first comparator, since together they are not.
        have hab0 : c a b = 0 := by
          by_contra hne
          have := hc.lt_of_lt_of_le (lt_of_le_of_ne habc hne) hbdc
          omega
        have hbd0 : c b d = 0 := by
          by_contra hne
          have := hc.lt_of_le_of_lt habc (lt_of_le_of_ne hbdc hne)
          omega
        rw [if_neg (not_not.mpr hab0)] at hab
        rw [if_neg (not_not.mpr hbd0)] at hbd
        exact ih.trans a b d hab hbd

/-! ### Sorting -/

/-- Sorting by a comparator, the elements it does not tell apart in the order they had. -/
def sorted (c : α → α → ℤ) (xs : List α) : List α := xs.insertionSort fun a b => c a b ≤ 0

theorem perm_sorted (c : α → α → ℤ) (xs : List α) : (sorted c xs).Perm xs :=
  perm_insertionSort _ xs

variable {xs : List α} {c : α → α → ℤ}

@[simp] theorem mem_sorted {x : α} : x ∈ sorted c xs ↔ x ∈ xs :=
  (perm_sorted c xs).mem_iff

theorem pairwise_sorted (h : Coherent c) (xs : List α) :
    (sorted c xs).Pairwise fun a b => c a b ≤ 0 := by
  have htotal : Std.Total fun a b => c a b ≤ 0 := ⟨h.total⟩
  have htrans : IsTrans α fun a b => c a b ≤ 0 := ⟨h.trans⟩
  exact pairwise_insertionSort _ xs

/-- **One order only**: sorting forgets in what order the elements came, if the comparator tells
them apart. -/
theorem sorted_eq_of_perm (h : Coherent c) {ys : List α} (hperm : xs.Perm ys)
    (happart : ∀ a ∈ xs, ∀ b ∈ xs, c a b = 0 → a = b) : sorted c xs = sorted c ys := by
  refine Perm.eq_of_pairwise (fun a b ha hb hab hba => ?_) (pairwise_sorted h xs)
    (pairwise_sorted h ys) ((perm_sorted c xs).trans (hperm.trans (perm_sorted c ys).symm))
  have hzero : c a b = 0 := le_antisymm hab ((h.swap b a).mp hba)
  exact happart a (mem_sorted.mp ha) b (hperm.mem_iff.mpr (mem_sorted.mp hb)) hzero

theorem pairwise_lt_sorted (h : Coherent c) (hnodup : xs.Nodup)
    (happart : ∀ a ∈ xs, ∀ b ∈ xs, c a b = 0 → a = b) :
    (sorted c xs).Pairwise fun a b => c a b < 0 := by
  have hne : (sorted c xs).Pairwise fun a b => a ≠ b := (perm_sorted c xs).nodup_iff.mpr hnodup
  refine ((pairwise_sorted h xs).and hne).imp_of_mem fun ha hb hab => ?_
  refine lt_of_le_of_ne hab.1 fun hzero => hab.2 ?_
  exact happart _ (mem_sorted.mp ha) _ (mem_sorted.mp hb) hzero

end Comparators
