import Mathlib.Algebra.Order.Ring.Int
import Mathlib.Tactic.Linarith
import Mathlib.Tactic.Ring
import Mathlib.Algebra.BigOperators.Group.List.Basic

/-!
# Rounding halves away from zero

`HalfAway.round n d` is the integer nearest to the rational `n / d`, halves going
away from zero: the rounding of commercial arithmetic, symmetric in the sign of
the numerator. It is defined for every `d` and meant for `0 < d`.

The development uses three things about it: it is **odd**, it is **monotone**, and
it is **within half a unit** of what it rounds. Everything exact – a multiple
rounds to itself, a whole number may be taken out of the rounding – follows.
-/

namespace HalfAway

open List

/-- The integer nearest to `n / d`, halves away from zero. -/
def round (n d : ℤ) : ℤ :=
  if n < 0 then -((-n + d / 2) / d) else (n + d / 2) / d

variable {n m d k : ℤ}

theorem round_of_nonneg (h : 0 ≤ n) : round n d = (n + d / 2) / d := by
  rw [round, if_neg (by omega)]

theorem round_of_neg (h : n < 0) : round n d = -((-n + d / 2) / d) := by
  rw [round, if_pos h]

section

variable (hd : 0 < d)

include hd

@[simp] theorem round_zero : round 0 d = 0 := by
  rw [round_of_nonneg le_rfl, zero_add]
  exact Int.ediv_eq_zero_of_lt (by omega) (by omega)

/-- **Rounding is odd.** -/
theorem round_neg (n : ℤ) : round (-n) d = -round n d := by
  rcases lt_trichotomy n 0 with h | rfl | h
  · rw [round_of_nonneg (by omega), round_of_neg h, neg_neg]
  · rw [neg_zero, round_zero hd, neg_zero]
  · rw [round_of_neg (by omega), round_of_nonneg (by omega), neg_neg]

theorem round_nonneg (h : 0 ≤ n) : 0 ≤ round n d := by
  rw [round_of_nonneg h]
  exact Int.ediv_nonneg (by omega) (by omega)

theorem round_nonpos (h : n ≤ 0) : round n d ≤ 0 := by
  have := round_nonneg hd (show 0 ≤ -n by omega)
  rw [round_neg hd] at this
  omega

theorem round_bounds_of_nonneg (h : 0 ≤ n) :
    2 * (round n d * d) ≤ 2 * n + d ∧ 2 * n < 2 * (round n d * d) + d + 1 := by
  rw [round_of_nonneg h]
  have h1 := Int.ediv_mul_le (n + d / 2) (show d ≠ 0 by omega)
  have h2 := Int.lt_ediv_add_one_mul_self (n + d / 2) hd
  rw [add_mul, one_mul] at h2
  omega

/-- **Rounding is within half a unit.** -/
theorem two_mul_abs_round_sub_le (n : ℤ) : 2 * |round n d * d - n| ≤ d := by
  rcases le_or_gt 0 n with h | h
  · obtain ⟨h1, h2⟩ := round_bounds_of_nonneg hd h
    have : |round n d * d - n| ≤ d / 2 := abs_le.mpr ⟨by omega, by omega⟩
    omega
  · obtain ⟨h1, h2⟩ := round_bounds_of_nonneg hd (show 0 ≤ -n by omega)
    rw [round_neg hd, neg_mul] at h1 h2
    have : |round n d * d - n| ≤ d / 2 := abs_le.mpr ⟨by omega, by omega⟩
    omega

/-- Roundings together are within half a unit each. -/
theorem two_mul_abs_sum_round_sub_le (ns : List ℤ) :
    2 * |(ns.map fun n => round n d).sum * d - ns.sum| ≤ ns.length * d := by
  induction ns with
  | nil => simp
  | cons n ns ih =>
    have hn := two_mul_abs_round_sub_le hd n
    have habs := abs_add_le (round n d * d - n) ((ns.map fun n => round n d).sum * d - ns.sum)
    have hsplit : (round n d + (ns.map fun n => round n d).sum) * d - (n + ns.sum) =
        round n d * d - n + ((ns.map fun n => round n d).sum * d - ns.sum) := by ring
    rw [map_cons, sum_cons, sum_cons, hsplit, length_cons]
    push_cast
    linarith

theorem round_mono_of_nonneg (hn : 0 ≤ n) (h : n ≤ m) : round n d ≤ round m d := by
  rw [round_of_nonneg hn, round_of_nonneg (hn.trans h)]
  exact Int.ediv_le_ediv hd (by omega)

/-- **Rounding is monotone.** -/
theorem round_mono (h : n ≤ m) : round n d ≤ round m d := by
  rcases le_or_gt 0 n with hn | hn
  · exact round_mono_of_nonneg hd hn h
  · rcases le_or_gt 0 m with hm | hm
    · exact (round_nonpos hd hn.le).trans (round_nonneg hd hm)
    · have := round_mono_of_nonneg hd (show 0 ≤ -m by omega) (show -m ≤ -n by omega)
      rw [round_neg hd, round_neg hd] at this
      omega

theorem round_add_mul_of_nonneg (hn : 0 ≤ n) (hk : 0 ≤ n + k * d) :
    round (n + k * d) d = round n d + k := by
  rw [round_of_nonneg hk, round_of_nonneg hn, add_right_comm, Int.add_mul_ediv_right _ _ hd.ne']

/-- **A multiple rounds to itself.** -/
theorem round_mul_self (k : ℤ) : round (k * d) d = k := by
  rcases le_or_gt 0 k with h | h
  · have hk : 0 ≤ k * d := mul_nonneg h hd.le
    have := round_add_mul_of_nonneg hd le_rfl (k := k) (by omega)
    rw [zero_add, round_zero hd, zero_add] at this
    exact this
  · have hk : 0 ≤ -k * d := mul_nonneg (by omega) hd.le
    have := round_add_mul_of_nonneg hd le_rfl (k := -k) (by omega)
    rw [zero_add, round_zero hd, zero_add, neg_mul, round_neg hd] at this
    omega

theorem round_le_of_le_mul (h : n ≤ k * d) : round n d ≤ k :=
  (round_mono hd h).trans (round_mul_self hd k).le

theorem le_round_of_mul_le (h : k * d ≤ n) : k ≤ round n d :=
  (round_mul_self hd k).ge.trans (round_mono hd h)

end

/-- A common factor may be taken out. -/
theorem round_mul_left (hk : 0 < k) (hd : 0 < d) (n : ℤ) : round (k * n) (k * d) = round n d := by
  have hnonneg : ∀ n : ℤ, 0 ≤ n → round (k * n) (k * d) = round n d := by
    intro n hn
    have hkd : 0 < k * d := mul_pos hk hd
    have hlow := Int.ediv_mul_le (n + d / 2) hd.ne'
    have hhigh := Int.lt_ediv_add_one_mul_self (n + d / 2) hd
    rw [← round_of_nonneg hn] at hlow hhigh
    rw [add_mul, one_mul] at hhigh
    -- the halves are compared doubled, where nothing is lost
    have hlow' : k * (2 * (round n d * d)) ≤ k * (2 * n + d) :=
      mul_le_mul_of_nonneg_left (by omega) hk.le
    have hhigh' : k * (2 * n + 1) ≤ k * (2 * (round n d * d) + d) :=
      mul_le_mul_of_nonneg_left (by omega) hk.le
    simp only [mul_add, mul_one, mul_left_comm k 2] at hlow' hhigh'
    rw [round_of_nonneg (mul_nonneg hk.le hn), Int.ediv_eq_iff_of_pos hkd,
      mul_left_comm (round n d) k d]
    constructor <;> omega
  rcases le_or_gt 0 n with h | h
  · exact hnonneg n h
  · have := hnonneg (-n) (by omega)
    rw [mul_neg, round_neg (mul_pos hk hd), round_neg hd] at this
    omega

/-- A rounded numerator: the remainder is dropped, or filled up from half a unit on. -/
theorem round_mul_eq (hd : 0 < d) (hn : 0 ≤ n) :
    round n d * d = n - n % d + if d ≤ 2 * (n % d) then d else 0 := by
  have hdiv := Int.mul_ediv_add_emod n d
  have hlow := Int.emod_nonneg n hd.ne'
  have hhigh := Int.emod_lt_of_pos n hd
  have hdown : n / d * d = n - n % d := by linarith
  have hup : (n / d + 1) * d = n - n % d + d := by linarith
  rw [round_of_nonneg hn]
  split_ifs with hhalf
  · have hquotient : (n + d / 2) / d = n / d + 1 := by
      rw [Int.ediv_eq_iff_of_pos hd, hup]
      omega
    rw [hquotient, hup]
  · have hquotient : (n + d / 2) / d = n / d := by
      rw [Int.ediv_eq_iff_of_pos hd, hdown]
      omega
    rw [hquotient, hdown, add_zero]

/-- Rounded numerators together: the remainders are dropped, and a whole unit is added for each that
is at least half of one. -/
theorem sum_round_mul_eq (hd : 0 < d) {ns : List ℤ} (h : ∀ n ∈ ns, 0 ≤ n) :
    (ns.map fun n => round n d).sum * d =
      ns.sum - (ns.map (· % d)).sum + d * ns.countP (fun n => d ≤ 2 * (n % d)) := by
  induction ns with
  | nil => simp
  | cons n ns ih =>
    have hn := round_mul_eq hd (h n mem_cons_self)
    have hns := ih fun n hn => h n (mem_cons_of_mem _ hn)
    simp only [map_cons, sum_cons, countP_cons, add_mul, hn, hns, decide_eq_true_eq]
    split_ifs <;> push_cast <;> ring

end HalfAway
