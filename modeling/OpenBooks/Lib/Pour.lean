import Mathlib.Algebra.Order.BigOperators.Group.List
import Mathlib.Algebra.Order.Ring.Int
import Mathlib.Data.List.Nodup
import Mathlib.Tactic.Linarith

/-!
# Taking an amount in order

An amount is taken from keys in order: each key gives what it has room for, as long as
something is left to take. `Pour.taken` is what each key has given in the end.

The order makes it a filling from the front – a key that is not full has nothing taken
behind it (`Pour.pairwise_taken`) – and therefore taking twice is taking once
(`Pour.taken_add`): the second amount goes on where the first one stopped. Keys without room
do not matter (`Pour.taken_filter`).
-/

namespace Pour

open List

variable {κ : Type} [DecidableEq κ]

/-- What each key gives when an amount is taken from the keys in order. -/
def taken (room : κ → ℤ) : List κ → ℤ → κ → ℤ
  | [], _ => fun _ => 0
  | k :: ks, amount =>
    Function.update (taken room ks (amount - min (room k) amount)) k (min (room k) amount)

variable {room room' : κ → ℤ} {ks : List κ} {k : κ} {amount : ℤ}

theorem taken_of_notMem (h : k ∉ ks) : taken room ks amount k = 0 := by
  induction ks generalizing amount with
  | nil => rfl
  | cons j ks ih =>
    rw [mem_cons, not_or] at h
    rw [taken, Function.update_of_ne h.1]
    exact ih h.2

theorem taken_congr (h : ∀ k ∈ ks, room k = room' k) :
    taken room ks amount = taken room' ks amount := by
  induction ks generalizing amount with
  | nil => rfl
  | cons j ks ih =>
    rw [taken, taken, h j mem_cons_self, ih fun k hk => h k (mem_cons_of_mem _ hk)]

section

variable (hroom : ∀ k ∈ ks, 0 ≤ room k)

include hroom

theorem taken_nonneg (hamount : 0 ≤ amount) (k : κ) : 0 ≤ taken room ks amount k := by
  induction ks generalizing amount with
  | nil => exact le_rfl
  | cons j ks ih =>
    rw [taken, Function.update_apply]
    split_ifs with hk
    · exact le_min (hroom j mem_cons_self) hamount
    · exact ih (fun k hk => hroom k (mem_cons_of_mem _ hk)) (by
        have := min_le_right (room j) amount
        omega)

theorem taken_le_room (hk : k ∈ ks) : taken room ks amount k ≤ room k := by
  induction ks generalizing amount with
  | nil => exact absurd hk not_mem_nil
  | cons j ks ih =>
    rw [taken, Function.update_apply]
    split_ifs with hj
    · rw [hj]
      exact min_le_left _ _
    · exact ih (fun k hk => hroom k (mem_cons_of_mem _ hk)) (mem_of_ne_of_mem hj hk)

theorem taken_zero : taken room ks 0 = fun _ => 0 := by
  induction ks with
  | nil => rfl
  | cons j ks ih =>
    rw [taken, min_eq_right (hroom j mem_cons_self), sub_zero,
      ih fun k hk => hroom k (mem_cons_of_mem _ hk)]
    exact Function.update_eq_self_iff.mpr rfl

end

/-- A sum over the rest does not see the head. -/
theorem sum_map_update_of_notMem {f : κ → ℤ} {a : ℤ} (h : k ∉ ks) :
    (ks.map (Function.update f k a)).sum = (ks.map f).sum := by
  refine congrArg List.sum (map_congr_left fun j hj => ?_)
  exact Function.update_of_ne (ne_of_mem_of_not_mem hj h) _ _

/-- **What there is room for is taken.** -/
theorem sum_taken (hnodup : ks.Nodup) (hroom : ∀ k ∈ ks, 0 ≤ room k) (hamount : 0 ≤ amount)
    (hfits : amount ≤ (ks.map room).sum) : (ks.map (taken room ks amount)).sum = amount := by
  induction ks generalizing amount with
  | nil =>
    simp only [map_nil, sum_nil] at hfits ⊢
    omega
  | cons j ks ih =>
    obtain ⟨hj, hnodup⟩ := nodup_cons.mp hnodup
    have hrooms : ∀ k ∈ ks, 0 ≤ room k := fun k hk => hroom k (mem_cons_of_mem _ hk)
    have hsum : 0 ≤ (ks.map room).sum := by
      refine List.sum_nonneg fun x hx => ?_
      obtain ⟨k, hk, rfl⟩ := mem_map.mp hx
      exact hrooms k hk
    rw [map_cons, sum_cons] at hfits
    rw [taken, map_cons, sum_cons, Function.update_self, sum_map_update_of_notMem hj,
      ih hnodup hrooms (by have := min_le_right (room j) amount; omega) (by omega)]
    omega

/-- **A filling from the front**: behind a key that is not full nothing is taken. -/
theorem pairwise_taken (hnodup : ks.Nodup) (hroom : ∀ k ∈ ks, 0 ≤ room k) :
    ks.Pairwise fun k j => taken room ks amount k < room k → taken room ks amount j = 0 := by
  induction ks generalizing amount with
  | nil => exact List.Pairwise.nil
  | cons i ks ih =>
    obtain ⟨hi, hnodup⟩ := nodup_cons.mp hnodup
    have hrooms : ∀ k ∈ ks, 0 ≤ room k := fun k hk => hroom k (mem_cons_of_mem _ hk)
    have hrest : ∀ k ∈ ks, taken room (i :: ks) amount k =
        taken room ks (amount - min (room i) amount) k := by
      intro k hk
      rw [taken, Function.update_of_ne (ne_of_mem_of_not_mem hk hi)]
    have htail := @ih (amount - min (room i) amount) hnodup hrooms
    refine pairwise_cons.mpr ⟨fun j hj hfull => ?_, htail.imp_of_mem ?_⟩
    · rw [taken, Function.update_self] at hfull
      rw [hrest j hj, min_eq_right (by omega : amount ≤ room i), sub_self, taken_zero hrooms]
    · intro k j hk hj himp hfull
      rw [hrest k hk] at hfull
      rw [hrest j hj]
      exact himp hfull

theorem taken_filter (p : κ → Bool) (hroom : ∀ k ∈ ks, p k = false → room k = 0)
    (hnodup : ks.Nodup) (hamount : 0 ≤ amount) :
    taken room (ks.filter p) amount = taken room ks amount := by
  induction ks generalizing amount with
  | nil => rfl
  | cons j ks ih =>
    obtain ⟨hj, hnodup⟩ := nodup_cons.mp hnodup
    have hrooms : ∀ k ∈ ks, p k = false → room k = 0 :=
      fun k hk => hroom k (mem_cons_of_mem _ hk)
    by_cases hp : p j = true
    · rw [filter_cons_of_pos hp, taken, taken,
        ih hrooms hnodup (by have := min_le_right (room j) amount; omega)]
    · have hzero := hroom j mem_cons_self (by simpa using hp)
      rw [filter_cons_of_neg hp, taken, hzero, min_eq_left hamount, sub_zero,
        ih hrooms hnodup hamount]
      exact (Function.update_eq_self_iff.mpr (taken_of_notMem hj).symm).symm

/-- **Taking twice is taking once.** -/
theorem taken_add {a b : ℤ} (hnodup : ks.Nodup) (hroom : ∀ k ∈ ks, 0 ≤ room k) (ha : 0 ≤ a)
    (hb : 0 ≤ b) (k : κ) :
    taken room ks (a + b) k =
      taken room ks a k + taken (fun j => room j - taken room ks a j) ks b k := by
  induction ks generalizing a b with
  | nil => rfl
  | cons j ks ih =>
    obtain ⟨hj, hnodup⟩ := nodup_cons.mp hnodup
    have hrooms : ∀ k ∈ ks, 0 ≤ room k := fun k hk => hroom k (mem_cons_of_mem _ hk)
    have hjroom := hroom j mem_cons_self
    have hleft : taken (fun i => room i - taken room (j :: ks) a i) ks =
        taken (fun i => room i - taken room ks (a - min (room j) a) i) ks := by
      refine funext fun c => taken_congr fun i hi => ?_
      rw [taken, Function.update_of_ne (ne_of_mem_of_not_mem hi hj)]
    rw [taken, taken.eq_2 (fun i => room i - taken room (j :: ks) a i), hleft]
    simp only [taken, Function.update_self]
    rw [Function.update_apply, Function.update_apply, Function.update_apply]
    split_ifs with hk
    · omega
    · rw [show a + b - min (room j) (a + b) = (a - min (room j) a) +
          (b - min (room j - min (room j) a) b) by omega]
      exact ih hnodup hrooms (by have := min_le_right (room j) a; omega)
        (by have := min_le_right (room j - min (room j) a) b; omega)

end Pour
