import Mathlib.Algebra.Order.BigOperators.Group.List
import Mathlib.Algebra.Order.Ring.Int
import Mathlib.Data.List.Nodup
import Mathlib.Tactic.Linarith
import Mathlib.Tactic.Ring

/-!
# The first places of an order

A list is put in order and its first few places are served. Served places come before the
others (`LargestFirst.rel_of_mem_take`), and when at least that many places have a property
that is inherited towards the front, every served place has it
(`LargestFirst.forall_mem_take`).

The places served here are places of a list of numbers, each moved by one step
(`LargestFirst.getElem?_foldl_modify`, `LargestFirst.sum_foldl_modify_add`). How many of
them have something to round is counted by `LargestFirst.le_countP_pos`: remainders of a
division by `q` that make up a whole number of `q`s, give or take half a `q`, are positive
in at least that many places.
-/

namespace LargestFirst

open List

/-! ### Orders -/

section Orders

variable {α : Type} {r : α → α → Prop} {l : List α}

/-- What is served comes before what is not. -/
theorem rel_of_mem_take (hl : l.Pairwise r) {n : ℕ} {a b : α} (ha : a ∈ l.take n)
    (hb : b ∈ l.drop n) : r a b := by
  rw [← take_append_drop n l, pairwise_append] at hl
  exact hl.2.2 a ha b hb

/-- **A property inherited towards the front holds of the first places**, of as many as
there are places that have it. -/
theorem forall_mem_take (hl : l.Pairwise r) {p : α → Bool}
    (hfront : ∀ a b, r a b → p b = true → p a = true) {n : ℕ} (hn : n ≤ l.countP p) :
    ∀ a ∈ l.take n, p a = true := by
  induction l generalizing n with
  | nil => simp
  | cons x l ih =>
    rw [pairwise_cons] at hl
    cases n with
    | zero => simp
    | succ n =>
      -- If the first place lacks the property then so do all, and there is nothing to count.
      by_cases hx : p x = true
      · rw [countP_cons_of_pos hx] at hn
        intro a ha
        rcases mem_cons.mp ha with rfl | ha
        · exact hx
        · exact ih hl.2 (Nat.le_of_succ_le_succ hn) a ha
      · have hnone : ∀ b ∈ x :: l, ¬p b = true := by
          intro b hb
          rcases mem_cons.mp hb with rfl | hb
          · exact hx
          · exact fun hp => hx (hfront x b (hl.1 b hb) hp)
        rw [List.countP_eq_zero.mpr hnone] at hn
        omega

end Orders

/-! ### Moving places -/

section Places

variable {α : Type} {places : List ℕ}

/-- Moving places that do not repeat moves each of them once and no other. -/
theorem getElem?_foldl_modify (f : α → α) (hplaces : places.Nodup) (parts : List α) (j : ℕ) :
    (places.foldl (fun parts i => parts.modify i f) parts)[j]? =
      if j ∈ places then parts[j]?.map f else parts[j]? := by
  induction places generalizing parts with
  | nil => simp
  | cons i places ih =>
    obtain ⟨hi, hplaces⟩ := nodup_cons.mp hplaces
    rw [foldl_cons, ih hplaces, List.getElem?_modify]
    by_cases hj : j = i
    · subst hj
      simp [hi]
    · have hij : i ≠ j := fun h => hj h.symm
      simp [hj, hij]

theorem length_foldl_modify (f : α → α) (places : List ℕ) (parts : List α) :
    (places.foldl (fun parts i => parts.modify i f) parts).length = parts.length := by
  induction places generalizing parts with
  | nil => rfl
  | cons i places ih => rw [foldl_cons, ih, length_modify]

theorem forall_modify {P : α → Prop} {f : α → α} (hf : ∀ x, P x → P (f x)) {parts : List α}
    (h : ∀ x ∈ parts, P x) (i : ℕ) : ∀ x ∈ parts.modify i f, P x := by
  induction parts generalizing i with
  | nil => simp
  | cons a parts ih =>
    obtain ⟨ha, hparts⟩ := forall_mem_cons.mp h
    cases i with
    | zero =>
      rw [modify_zero_cons]
      exact forall_mem_cons.mpr ⟨hf a ha, hparts⟩
    | succ i =>
      rw [modify_succ_cons]
      exact forall_mem_cons.mpr ⟨ha, ih hparts i⟩

theorem forall_foldl_modify {P : α → Prop} {f : α → α} (hf : ∀ x, P x → P (f x))
    {parts : List α} (h : ∀ x ∈ parts, P x) (places : List ℕ) :
    ∀ x ∈ places.foldl (fun parts i => parts.modify i f) parts, P x := by
  induction places generalizing parts with
  | nil => exact h
  | cons i places ih => exact ih (forall_modify hf h i)

theorem sum_modify_add (parts : List ℤ) {k : ℕ} (h : k < parts.length) (x : ℤ) :
    (parts.modify k (· + x)).sum = parts.sum + x := by
  induction parts generalizing k with
  | nil => simp at h
  | cons p ps ih =>
    cases k with
    | zero =>
      simp only [modify_zero_cons, sum_cons]
      ring
    | succ k =>
      rw [modify_succ_cons, sum_cons, ih (by simpa using h), sum_cons]
      ring

theorem sum_foldl_modify_add (step : ℤ) {parts : List ℤ} (h : ∀ i ∈ places, i < parts.length) :
    (places.foldl (fun parts i => parts.modify i (· + step)) parts).sum =
      parts.sum + places.length * step := by
  induction places generalizing parts with
  | nil => simp
  | cons i places ih =>
    have hi := h i mem_cons_self
    rw [foldl_cons, ih fun k hk => by
        rw [length_modify]
        exact h k (mem_cons_of_mem i hk),
      sum_modify_add parts hi]
    push_cast [length_cons]
    ring

end Places

/-! ### Counting remainders -/

section Remainders

variable {remainders : List ℤ} {q : ℤ}

theorem sum_le_countP_pos (hr : ∀ r ∈ remainders, r < q) :
    remainders.sum ≤ (q - 1) * (remainders.countP (0 < ·) : ℕ) := by
  induction remainders with
  | nil => simp
  | cons r remainders ih =>
    have hsum := ih fun r hr' => hr r (mem_cons_of_mem _ hr')
    have hlt := hr r mem_cons_self
    rw [sum_cons]
    by_cases hpos : 0 < r
    · rw [countP_cons_of_pos (by simpa using hpos)]
      push_cast
      linarith
    · rw [countP_cons_of_neg (by simpa using hpos)]
      linarith

/-- **There are places enough to serve.** -/
theorem le_countP_pos (hq : 0 < q) (hr : ∀ r ∈ remainders, r < q) {n : ℕ}
    (hn : 2 * (q * n) ≤ 2 * remainders.sum + q) : n ≤ remainders.countP (0 < ·) := by
  have hsum := sum_le_countP_pos hr
  by_contra hlt
  have hsucc : (remainders.countP (0 < ·) : ℤ) + 1 ≤ n := by
    exact_mod_cast not_le.mp hlt
  have hmul : q * ((remainders.countP (0 < ·) : ℤ) + 1) ≤ q * n :=
    mul_le_mul_of_nonneg_left hsucc hq.le
  have hcount : (0 : ℤ) ≤ (remainders.countP (0 < ·) : ℕ) := Int.natCast_nonneg _
  linarith

end Remainders

end LargestFirst
