import Mathlib.Data.List.Sort
import Mathlib.Data.List.TakeWhile

/-!
# Ledgers that are read as of a date

A ledger of changes keeps them in the order in which they are recorded. Each has a date from
which it is in effect, and the ledger is read *as of* a date: the changes in effect by then, in
the order of their dates, are made to what there was before the change recorded first.

Two facts make such a ledger safe to append to. Sorting and then stopping at a date is stopping
at the date and then sorting (`DatedLedger.takeWhile_insertionSort`), so a change that is not in
effect yet does not disturb the order of those that are. And what was there before the first
change is found in any order of the ledger (`DatedLedger.foldl_earlier`).
-/

namespace DatedLedger

open List

variable {α : Type}

/-! ### Stopping at a date -/

section Order

variable {r : α → α → Prop} [DecidableRel r] [Std.Total r] {p : α → Bool}

section

variable (hp : ∀ a b, r a b → p b = true → p a = true)

include hp

/-- Inserting an element and stopping where `p` ends, if `p` is inherited downwards. -/
theorem takeWhile_orderedInsert (x : α) (xs : List α) :
    (xs.orderedInsert r x).takeWhile p =
      if p x then (xs.takeWhile p).orderedInsert r x else xs.takeWhile p := by
  induction xs with
  | nil => cases hx : p x <;> simp [hx]
  | cons y ys ih =>
    by_cases hxy : r x y
    · rw [orderedInsert_cons_of_le r ys hxy]
      cases hx : p x with
      | true =>
        cases hy : p y with
        | true => simp [hx, hy, hxy]
        | false => simp [hx, hy]
      | false =>
        have hy : p y = false := by
          rw [Bool.eq_false_iff]
          exact fun hy => absurd (hp x y hxy hy) (by simp [hx])
        simp [hx, hy]
    · rw [orderedInsert_of_not_le r ys hxy]
      cases hy : p y with
      | true =>
        rw [takeWhile_cons_of_pos hy, takeWhile_cons_of_pos hy, ih]
        split_ifs
        · rw [orderedInsert_of_not_le r _ hxy]
        · rfl
      | false =>
        have hx : p x = false := by
          rw [Bool.eq_false_iff]
          exact fun hx => absurd (hp y x ((Std.Total.total x y).resolve_left hxy) hx) (by simp [hy])
        simp [hx, hy]

/-- **Sorting and then stopping is stopping and then sorting.** -/
theorem takeWhile_insertionSort (xs : List α) :
    (xs.insertionSort r).takeWhile p = (xs.filter p).insertionSort r := by
  induction xs with
  | nil => rfl
  | cons x xs ih =>
    rw [insertionSort_cons, takeWhile_orderedInsert hp, ih]
    cases hx : p x with
    | true | false => simp [hx]

/-- What is not in effect yet does not disturb what is. -/
theorem takeWhile_append_later (xs : List α) {x : α} (hx : p x = false) :
    ((xs ++ [x]).insertionSort r).takeWhile p = (xs.insertionSort r).takeWhile p := by
  rw [takeWhile_insertionSort hp, takeWhile_insertionSort hp, filter_append, filter_singleton, hx]
  simp

end

omit [Std.Total r] in
/-- A ledger that was recorded in order, read when all of it is in effect. -/
theorem takeWhile_inOrder {xs : List α} (horder : xs.Pairwise r) (hall : ∀ x ∈ xs, p x = true) :
    (xs.insertionSort r).takeWhile p = xs := by
  rw [horder.insertionSort_eq, takeWhile_eq_self_iff]
  exact hall

end Order

/-! ### What was recorded first -/

/-- Of two changes the one recorded first. -/
def earlier (seq : α → ℕ) (first : Option α) (a : α) : Option α :=
  match first with
  | none => some a
  | some b => if seq a < seq b then some a else some b

variable {seq : α → ℕ}

/-- The search comes to the first change, once it has met it. -/
theorem foldl_earlier_cons {first : α} {later xs : List α} (h : xs.Perm (first :: later))
    (hlater : ∀ a ∈ later, seq first < seq a) : xs.foldl (earlier seq) none = some first := by
  have hfold : ∀ (ys : List α) (b : Option α), (∀ a ∈ ys, a = first ∨ seq first < seq a) →
      (b = none ∨ b = some first ∨ ∃ a, b = some a ∧ seq first < seq a) →
      (first ∈ ys ∨ b = some first) → ys.foldl (earlier seq) b = some first := by
    intro ys
    induction ys with
    | nil =>
      intro b _ _ hfound
      exact hfound.resolve_left not_mem_nil
    | cons y ys ih =>
      intro b hys hb hfound
      have hy := hys y mem_cons_self
      refine ih _ (fun a ha => hys a (mem_cons_of_mem _ ha)) ?_ ?_
      · rcases hb with rfl | rfl | ⟨a, rfl, ha⟩ <;> rcases hy with rfl | hy
        · exact .inr (.inl rfl)
        · exact .inr (.inr ⟨y, rfl, hy⟩)
        · exact .inr (.inl (if_neg (lt_irrefl _)))
        · exact .inr (.inl (if_neg hy.not_gt))
        · exact .inr (.inl (if_pos ha))
        · by_cases hlt : seq y < seq a
          · exact .inr (.inr ⟨y, if_pos hlt, hy⟩)
          · exact .inr (.inr ⟨a, if_neg hlt, ha⟩)
      · rcases hfound with hmem | rfl
        · rcases mem_cons.mp hmem with rfl | hmem
          · rcases hb with rfl | rfl | ⟨a, rfl, ha⟩
            · exact .inr rfl
            · exact .inr (if_neg (lt_irrefl _))
            · exact .inr (if_pos ha)
          · exact .inl hmem
        · rcases hy with rfl | hy
          · exact .inr (if_neg (lt_irrefl _))
          · exact .inr (if_neg hy.not_gt)
  refine hfold xs none (fun a ha => ?_) (.inl rfl) (.inl (h.mem_iff.mpr mem_cons_self))
  exact (mem_cons.mp (h.mem_iff.mp ha)).imp_right (hlater a)

/-- **The first change is found in any order of the ledger.** -/
theorem foldl_earlier {ledger xs : List α} (hnumbered : ledger.Pairwise fun a b => seq a < seq b)
    (h : xs.Perm ledger) : xs.foldl (earlier seq) none = ledger.head? := by
  cases ledger with
  | nil =>
    rw [h.eq_nil]
    rfl
  | cons first later => exact foldl_earlier_cons h (pairwise_cons.mp hnumbered).1

/-! ### What there was before -/

variable {σ : Type} {base : α → σ} {fallback fallback' : σ} {ledger : List α}

/-- What there was before the first change: without one, what there is. -/
def origin (base : α → σ) (fallback : σ) (ledger : List α) : σ :=
  (ledger.head?.map base).getD fallback

/-- **A new change leaves alone what there was before the first**, whatever there is after it. -/
theorem origin_append {a : α} (h : ledger = [] → base a = fallback) :
    origin base fallback' (ledger ++ [a]) = origin base fallback ledger := by
  cases ledger with
  | nil => exact h rfl
  | cons first later => rfl

end DatedLedger
