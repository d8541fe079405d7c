import Mathlib.Algebra.Order.Field.Basic
import Mathlib.Algebra.Ring.GeomSum
import Mathlib.Tactic.FieldSimp
import Mathlib.Tactic.Linarith
import Mathlib.Tactic.Ring

/-!
# Carrying a balance by rounded steps

A balance grows by a factor each period and pays a level amount. Carried exactly it is the
discounted value of the payments still to come (`Compounding.levelValue`): one step of growth
and one payment lead from the value of `n + 1` payments to that of `n`
(`Compounding.mul_levelValue_succ`).

Carried by rounded steps it departs from that value, and each departure grows with the
balance: after `n` steps, each off by at most `ε`, the balance is off by at most `ε` times a
geometric sum (`Compounding.abs_le_mul_geomSum`).
-/

namespace Compounding

open Finset

variable {K : Type} [Field K]

/-- The value of `n` level payments, the first of them one period from now. -/
def levelValue (payment growth : K) (n : ℕ) : K :=
  payment * ∑ t ∈ range n, (growth⁻¹) ^ (t + 1)

/-- **One step of growth is one payment and the value of the others.** -/
theorem mul_levelValue_succ {growth : K} (hgrowth : growth ≠ 0) (payment : K) (n : ℕ) :
    growth * levelValue payment growth (n + 1) = payment + levelValue payment growth n := by
  have hsum : growth * ∑ t ∈ range (n + 1), (growth⁻¹) ^ (t + 1) =
      1 + ∑ t ∈ range n, (growth⁻¹) ^ (t + 1) := by
    rw [mul_sum, sum_range_succ']
    have hterm : ∀ t : ℕ, growth * (growth⁻¹) ^ (t + 1) = (growth⁻¹) ^ t := fun t => by
      rw [pow_succ', ← mul_assoc, mul_inv_cancel₀ hgrowth, one_mul]
    simp only [hterm, pow_zero]
    ring
  unfold levelValue
  rw [mul_left_comm, hsum]
  ring

theorem levelValue_one (payment growth : K) : levelValue payment growth 1 = payment / growth := by
  simp [levelValue, div_eq_mul_inv]

variable [LinearOrder K] [IsStrictOrderedRing K]

/-- **Departures compound**: off by at most `ε` at first and after every step, a sequence that
grows by a factor is off by at most `ε` times a geometric sum. -/
theorem abs_le_mul_geomSum {E : ℕ → K} {growth ε : K} (hgrowth : 0 ≤ growth) {n : ℕ}
    (h0 : |E 0| ≤ ε) (hstep : ∀ k < n, |E (k + 1) - growth * E k| ≤ ε) :
    |E n| ≤ ε * ∑ j ∈ range (n + 1), growth ^ j := by
  induction n with
  | zero => simpa using h0
  | succ n ih =>
    have hn := ih fun k hk => hstep k (Nat.lt_succ_of_lt hk)
    have hlast := hstep n (Nat.lt_succ_self n)
    calc |E (n + 1)| = |(E (n + 1) - growth * E n) + growth * E n| := by ring_nf
      _ ≤ |E (n + 1) - growth * E n| + |growth * E n| := abs_add_le _ _
      _ ≤ ε + growth * (ε * ∑ j ∈ range (n + 1), growth ^ j) := by
          rw [abs_mul, abs_of_nonneg hgrowth]
          exact add_le_add hlast (mul_le_mul_of_nonneg_left hn hgrowth)
      _ = ε * ∑ j ∈ range (n + 1 + 1), growth ^ j := by
          rw [geom_sum_succ (n := n + 1)]
          ring

end Compounding
