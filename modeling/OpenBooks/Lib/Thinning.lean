import Mathlib.Data.List.Sort

/-!
# Lists with some elements left out

A list thins another if it is left when some elements are dropped, each of which has a given
property. Sublists are the case of a property all elements have; the property says what a thinning
cannot touch: a filter that sees no element with the property gives the same list
(`Thinned.filter_eq`). Thinning passes through filters and through stable sorting.
-/

variable {α : Type}

/-- The first list is the second with some elements left out, each of which has the property. -/
inductive Thinned (p : α → Prop) : List α → List α → Prop
  | nil : Thinned p [] []
  | keep {fewer l : List α} (a : α) : Thinned p fewer l → Thinned p (a :: fewer) (a :: l)
  | drop {fewer l : List α} {a : α} : p a → Thinned p fewer l → Thinned p fewer (a :: l)

namespace Thinned

open List

variable {p : α → Prop} {fewer l : List α}

theorem sublist (h : Thinned p fewer l) : fewer.Sublist l := by
  induction h with
  | nil => exact .slnil
  | keep a _ ih => exact ih.cons_cons a
  | drop _ _ ih => exact ih.cons _

theorem mono {q : α → Prop} (hpq : ∀ a, p a → q a) (h : Thinned p fewer l) : Thinned q fewer l := by
  induction h with
  | nil => exact .nil
  | keep a _ ih => exact .keep a ih
  | drop ha _ ih => exact .drop (hpq _ ha) ih

theorem of_filter {f : α → Bool} (h : ∀ a ∈ l, f a = false → p a) : Thinned p (l.filter f) l := by
  induction l with
  | nil => exact .nil
  | cons a l ih =>
    have hl := ih fun b hb => h b (mem_cons_of_mem _ hb)
    rw [filter_cons]
    split_ifs with ha
    · exact .keep a hl
    · exact .drop (h a mem_cons_self (by simpa using ha)) hl

protected theorem filter (h : Thinned p fewer l) (f : α → Bool) :
    Thinned p (fewer.filter f) (l.filter f) := by
  induction h with
  | nil => exact .nil
  | keep a _ ih =>
    rw [filter_cons, filter_cons]
    split_ifs
    · exact .keep a ih
    · exact ih
  | @drop fewer l a ha _ ih =>
    rw [filter_cons]
    split_ifs
    · exact .drop ha ih
    · exact ih

/-- A filter that refuses what may be left out sees no difference. -/
theorem filter_eq (h : Thinned p fewer l) {f : α → Bool} (hf : ∀ a, p a → f a = false) :
    fewer.filter f = l.filter f := by
  induction h with
  | nil => rfl
  | keep a _ ih => rw [filter_cons, filter_cons, ih]
  | drop ha _ ih => rw [filter_cons, hf _ ha, if_neg Bool.false_ne_true, ih]

/-! ### Sorting -/

section Sorting

variable {r : α → α → Prop} [DecidableRel r] {a : α}

theorem orderedInsert_concat {b : α} (h : r b a) (l : List α) :
    (l ++ [a]).orderedInsert r b = l.orderedInsert r b ++ [a] := by
  induction l with
  | nil => simp [h]
  | cons c l ih =>
    rw [cons_append, orderedInsert_cons, orderedInsert_cons, ih]
    split_ifs
    · rfl
    · rfl

/-- An element that comes after all of a list is sorted to its end. -/
theorem insertionSort_concat (h : ∀ b ∈ l, r b a) :
    (l ++ [a]).insertionSort r = l.insertionSort r ++ [a] := by
  induction l with
  | nil => rfl
  | cons b l ih =>
    rw [cons_append, insertionSort_cons, insertionSort_cons,
      ih fun c hc => h c (mem_cons_of_mem _ hc),
      orderedInsert_concat (h b mem_cons_self)]

/-- An element that comes before all of a list is inserted in front. -/
theorem orderedInsert_of_forall (h : ∀ b ∈ l, r a b) : l.orderedInsert r a = a :: l := by
  cases l with
  | nil => rfl
  | cons b l => rw [orderedInsert_cons, if_pos (h b mem_cons_self)]

theorem orderedInsert [IsTrans α r] (h : Thinned p fewer l) (hsorted : l.Pairwise r) (a : α) :
    Thinned p (fewer.orderedInsert r a) (l.orderedInsert r a) := by
  induction h with
  | nil => exact .keep a .nil
  | keep b hl ih =>
    rw [orderedInsert_cons, orderedInsert_cons]
    split_ifs
    · exact .keep a (.keep b hl)
    · exact .keep b (ih (pairwise_cons.mp hsorted).2)
  | @drop fewer l b hb hl ih =>
    obtain ⟨hhead, htail⟩ := pairwise_cons.mp hsorted
    rw [orderedInsert_cons]
    split_ifs with hab
    · have hfront : ∀ c ∈ fewer, r a c := fun c hc =>
        IsTrans.trans a b c hab (hhead c (hl.sublist.subset hc))
      rw [orderedInsert_of_forall hfront]
      exact .keep a (.drop hb hl)
    · exact .drop hb (ih htail)

/-- An element that may be left out is left out wherever it is inserted. -/
theorem orderedInsert_drop (ha : p a) (h : Thinned p fewer l) :
    Thinned p fewer (l.orderedInsert r a) := by
  induction h with
  | nil => exact .drop ha .nil
  | keep b hl ih =>
    rw [orderedInsert_cons]
    split_ifs
    · exact .drop ha (.keep b hl)
    · exact .keep b ih
  | @drop fewer l b hb hl ih =>
    rw [orderedInsert_cons]
    split_ifs
    · exact .drop ha (.drop hb hl)
    · exact .drop hb ih

/-- **Stable sorting keeps a thinning.** -/
theorem insertionSort [IsTrans α r] [Std.Total r] (h : Thinned p fewer l) :
    Thinned p (fewer.insertionSort r) (l.insertionSort r) := by
  induction h with
  | nil => exact .nil
  | keep a _ ih => exact ih.orderedInsert (pairwise_insertionSort r _) a
  | drop ha _ ih => exact orderedInsert_drop ha ih

end Sorting

end Thinned
