import Mathlib.Data.List.Forall2
import Mathlib.Algebra.BigOperators.Group.List.Basic
import Mathlib.Algebra.Order.BigOperators.Group.List
import Mathlib.Algebra.Order.Ring.Int
import Mathlib.Tactic.Ring

/-!
# Sums over lists

The few facts about integer sums over a list that the ledger proofs share: sums of
differences, and sums over two lists that correspond element by element.
-/

namespace ListSum

open List

variable {α β : Type}

theorem sum_map_sub (f g : α → ℤ) (xs : List α) :
    (xs.map fun x => f x - g x).sum = (xs.map f).sum - (xs.map g).sum := by
  induction xs with
  | nil => rfl
  | cons x xs ih =>
    simp only [map_cons, sum_cons, ih]
    ring

theorem sum_map_neg (f : α → ℤ) (xs : List α) : (xs.map fun x => -f x).sum = -(xs.map f).sum := by
  induction xs with
  | nil => rfl
  | cons x xs ih =>
    simp only [map_cons, sum_cons, ih]
    ring

variable {xs : List α} {R : α → β → Prop}

/-- Partners for every element make a corresponding list. -/
theorem exists_forall₂ (h : ∀ x ∈ xs, ∃ y, R x y) : ∃ ys, List.Forall₂ R xs ys := by
  induction xs with
  | nil => exact ⟨[], Forall₂.nil⟩
  | cons x xs ih =>
    obtain ⟨y, hy⟩ := h x mem_cons_self
    obtain ⟨ys, hys⟩ := ih fun z hz => h z (mem_cons_of_mem x hz)
    exact ⟨y :: ys, Forall₂.cons hy hys⟩

variable {ys : List β}

theorem exists_left_of_forall₂ (h : List.Forall₂ R xs ys) {y : β} (hy : y ∈ ys) :
    ∃ x ∈ xs, R x y := by
  induction h with
  | nil => cases hy
  | @cons x z xs ys hxz _ ih =>
    rcases mem_cons.mp hy with rfl | hy
    · exact ⟨x, mem_cons_self, hxz⟩
    · obtain ⟨w, hw, hwy⟩ := ih hy
      exact ⟨w, mem_cons_of_mem x hw, hwy⟩

theorem exists_right_of_forall₂ (h : List.Forall₂ R xs ys) {x : α} (hx : x ∈ xs) :
    ∃ y ∈ ys, R x y :=
  exists_left_of_forall₂ h.flip hx

theorem map_zipIdx_fst {γ : Type} (f : α → γ) (xs : List α) :
    (xs.zipIdx.map fun p => f p.1) = xs.map f := by
  conv_rhs => rw [← zipIdx_map_fst 0 xs, map_map]
  rfl

theorem map_zipIdx_snd (k : ℕ) (xs : List α) :
    (xs.zipIdx.map fun p => p.2 + k) = List.range' k xs.length := by
  have h : (xs.zipIdx.map fun p => p.2 + k) = (xs.zipIdx.map Prod.snd).map (k + ·) := by
    rw [map_map]
    exact map_congr_left fun p _ => Nat.add_comm p.2 k
  rw [h, zipIdx_map_snd, map_add_range', Nat.add_zero]

theorem map_eq_map_of_forall₂ {γ : Type} (h : List.Forall₂ R xs ys) (f : α → γ) (g : β → γ)
    (hR : ∀ x ∈ xs, ∀ y ∈ ys, R x y → g y = f x) : ys.map g = xs.map f := by
  induction h with
  | nil => rfl
  | cons hxy _ ih =>
    rw [map_cons, map_cons, hR _ mem_cons_self _ mem_cons_self hxy,
      ih fun x hx y hy => hR x (mem_cons_of_mem _ hx) y (mem_cons_of_mem _ hy)]

/-- **Corresponding lists have the same selected sums**, if corresponding elements
are selected together and measure the same. -/
theorem sum_filter_of_forall₂ (h : List.Forall₂ R xs ys) (p : α → Prop) [DecidablePred p]
    (q : β → Prop) [DecidablePred q] (f : α → ℤ) (g : β → ℤ)
    (hR : ∀ x ∈ xs, ∀ y, R x y → (p x ↔ q y) ∧ f x = g y) :
    ((xs.filter fun x => p x).map f).sum = ((ys.filter fun y => q y).map g).sum := by
  induction h with
  | nil => rfl
  | @cons x y xs ys hxy _ ih =>
    obtain ⟨hpq, hfg⟩ := hR x (by simp) y hxy
    have hrest := ih fun z hz => hR z (by simp [hz])
    by_cases hp : p x
    · rw [filter_cons_of_pos (by simpa using hp),
        filter_cons_of_pos (by simpa using hpq.mp hp), map_cons, sum_cons,
        map_cons, sum_cons, hrest, hfg]
    · rw [filter_cons_of_neg (by simpa using hp),
        filter_cons_of_neg (by simpa using fun hq => hp (hpq.mpr hq)), hrest]

/-- **Changing the selected elements** changes a sum by what they change. -/
theorem sum_map_update (p : α → Bool) (g : α → α) (f : α → ℤ) (xs : List α) :
    (xs.map fun x => f (if p x then g x else x)).sum =
      (xs.map f).sum + ((xs.filter p).map fun x => f (g x) - f x).sum := by
  induction xs with
  | nil => rfl
  | cons x xs ih =>
    cases h : p x with
    | true =>
      rw [filter_cons_of_pos h]
      simp only [map_cons, sum_cons, ih, h, if_true]
      ring
    | false =>
      rw [filter_cons_of_neg (by simp [h])]
      simp only [map_cons, sum_cons, ih, h, Bool.false_eq_true, if_false]
      ring

/-- **Changing one element** changes a selected sum by what it changes, if it stays
selected or not as it was. -/
theorem sum_filter_modify {i : ℕ} {x : α} {f : α → α} (hx : xs[i]? = some x) (p : α → Bool)
    (hp : p (f x) = p x) (g : α → ℤ) :
    (((xs.modify i f).filter p).map g).sum =
      ((xs.filter p).map g).sum + if p x then g (f x) - g x else 0 := by
  induction xs generalizing i with
  | nil => simp at hx
  | cons y ys ih =>
    cases i with
    | zero =>
      obtain rfl : y = x := by simpa using hx
      rw [modify_zero_cons]
      cases hpx : p y with
      | true =>
        rw [filter_cons_of_pos (by rw [hp, hpx]), filter_cons_of_pos hpx]
        simp only [map_cons, sum_cons, if_true]
        ring
      | false =>
        rw [filter_cons_of_neg (by simp [hp, hpx]), filter_cons_of_neg (by simp [hpx])]
        simp
    | succ i =>
      rw [modify_succ_cons]
      have hrest := ih (by simpa using hx)
      cases hpy : p y with
      | true =>
        rw [filter_cons_of_pos hpy, filter_cons_of_pos hpy, map_cons, sum_cons,
          map_cons, sum_cons, hrest]
        ring
      | false =>
        rw [filter_cons_of_neg (by simp [hpy]), filter_cons_of_neg (by simp [hpy]), hrest]

/-- Changing one element of a list changes one value read off it. -/
theorem map_modify {γ : Type} {f : α → α} {g : α → γ} {f' : γ → γ} (h : ∀ x, g (f x) = f' (g x))
    (i : ℕ) (xs : List α) : (xs.modify i f).map g = (xs.map g).modify i f' := by
  refine ext_getElem? fun j => ?_
  rw [getElem?_map, getElem?_modify, getElem?_modify, getElem?_map]
  cases xs[j]? with
  | none => rfl
  | some x => by_cases hij : i = j <;> simp [hij, h]

theorem sum_map_filter_eq_ite (p : α → Prop) [DecidablePred p] (f : α → ℤ) (xs : List α) :
    ((xs.filter fun x => p x).map f).sum = (xs.map fun x => if p x then f x else 0).sum := by
  induction xs with
  | nil => rfl
  | cons x xs ih => by_cases hx : p x <;> simp [hx, ih]

theorem sum_map_elim {β : Type} (f : α → Option β) (g : β → ℤ) (xs : List α) :
    (xs.map fun x => (f x).elim 0 g).sum = ((xs.filterMap f).map g).sum := by
  induction xs with
  | nil => rfl
  | cons x xs ih =>
    cases hx : f x with
    | none =>
      rw [filterMap_cons_none hx, map_cons, sum_cons, hx, ih]
      exact zero_add _
    | some y =>
      rw [filterMap_cons_some hx, map_cons, sum_cons, hx, ih]
      rfl

/-- A sum over the elements selected and those left out is one over all. -/
theorem sum_filter_add_sum_filter_not (p : α → Bool) (f : α → ℤ) (xs : List α) :
    ((xs.filter p).map f).sum + ((xs.filter fun x => !p x).map f).sum = (xs.map f).sum := by
  rw [← sum_append, ← map_append]
  exact ((filter_append_perm p xs).map f).sum_eq

theorem lt_sum_of_mem {x : α} {f : α → ℤ} (hx : x ∈ xs) (hpos : ∀ y ∈ xs, 0 < f y)
    (hlength : 2 ≤ xs.length) : f x < (xs.map f).sum := by
  obtain ⟨s, t, rfl⟩ := append_of_mem hx
  have hothers : 0 < ((s ++ t).map f).sum := by
    refine sum_pos _ (fun n hn => ?_) ?_
    · obtain ⟨y, hy, rfl⟩ := mem_map.mp hn
      refine hpos y ?_
      simp only [mem_append, mem_cons] at hy ⊢
      tauto
    · intro hnil
      have := congrArg List.length hnil
      simp only [length_map, length_append, length_cons, length_nil] at this hlength
      omega
  rw [map_append, sum_append] at hothers
  rw [map_append, sum_append, map_cons, sum_cons]
  omega

theorem sum_map_ite_eq [DecidableEq α] (h : xs.Nodup) (a : α) (f : α → ℤ) :
    (xs.map fun x => if x = a then f x else 0).sum = if a ∈ xs then f a else 0 := by
  induction xs with
  | nil => rfl
  | cons x xs ih =>
    obtain ⟨hx, hxs⟩ := nodup_cons.mp h
    rw [map_cons, sum_cons, ih hxs]
    by_cases hxa : x = a
    · subst hxa
      simp [hx]
    · have hax : ¬a = x := fun hc => hxa hc.symm
      simp [hxa, hax]

end ListSum
