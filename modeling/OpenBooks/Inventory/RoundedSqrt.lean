import Mathlib.Data.Int.Notation
import Mathlib.Order.Basic
import Mathlib.Tactic.Linarith

/-!
# Rounded square roots

`roundedSqrtUnits` is Newton's method on whole numbers. It divides by the estimate it is
about to try, which is carried with the proof that it is positive, so no division by zero is
reached; and the estimates decrease, so it ends. They decrease from above: no estimate is below the
root, whatever the divisions round off (`newton_spec`), so the last is its whole part.
-/

namespace OpenBooks

theorem newton_pos {scaled estimate : ℕ} (hscaled : 0 < scaled) (h : 0 < estimate) :
    0 < (estimate + scaled / estimate) / 2 := by
  rcases Nat.lt_or_ge 1 estimate with hmore | hone
  · exact Nat.div_pos (Nat.le_add_right_of_le hmore) (by decide)
  · obtain rfl : estimate = 1 := by omega
    omega

def newton (scaled : ℕ) (hscaled : 0 < scaled) (root : ℕ) (next : {estimate : ℕ // 0 < estimate}) :
    ℕ :=
  if next.1 < root then
    newton scaled hscaled next.1 ⟨(next.1 + scaled / next.1) / 2, newton_pos hscaled next.2⟩
  else root
termination_by root

/-- The square root, rounded to the nearest whole number. -/
def roundedSqrtUnits (scaled : ℕ) : ℕ :=
  if h : 0 < scaled then
    let root := newton scaled h scaled ⟨(scaled + 1) / 2, by omega⟩
    let remainder := (scaled : ℤ) - root * root
    if remainder > root then root + 1 else root
  else 0

/-- The loop ends at the whole part of the root, if it starts no lower. -/
theorem newton_spec {scaled root : ℕ} (hscaled : 0 < scaled) (hroot : 0 < root)
    (hlt : scaled < (root + 1) * (root + 1)) {next : {estimate : ℕ // 0 < estimate}}
    (hnext : next.1 = (root + scaled / root) / 2) :
    newton scaled hscaled root next * newton scaled hscaled root next ≤ scaled ∧
      scaled < (newton scaled hscaled root next + 1) * (newton scaled hscaled root next + 1) := by
  induction root using Nat.strong_induction_on generalizing next with
  | _ root ih =>
    rw [newton]
    split_ifs with hless
    · refine ih next.1 hless next.2 ?_ rfl
      have hquotient : scaled < root * (scaled / root + 1) := Nat.lt_mul_div_succ scaled hroot
      have hsum : root + (scaled / root + 1) ≤ 2 * (next.1 + 1) := by omega
      -- the product of two numbers is at most the square of half their sum
      nlinarith [sq_nonneg ((root : ℤ) - (scaled / root + 1 : ℕ)), Nat.mul_le_mul hsum hsum,
        sq_nonneg (root - (scaled / root + 1))]
    · have hle : root ≤ scaled / root := by omega
      exact ⟨(Nat.le_div_iff_mul_le hroot).mp hle, hlt⟩

/-- **The rounded square root is the whole number nearest to the root.** -/
theorem roundedSqrtUnits_nearest (scaled : ℕ) :
    (0 < roundedSqrtUnits scaled → (2 * (roundedSqrtUnits scaled : ℤ) - 1) ^ 2 ≤ 4 * scaled) ∧
      4 * (scaled : ℤ) < (2 * roundedSqrtUnits scaled + 1) ^ 2 := by
  rw [roundedSqrtUnits]
  split_ifs with h
  · obtain ⟨hle, hlt⟩ := @newton_spec scaled scaled h h (by nlinarith)
      ⟨(scaled + 1) / 2, by omega⟩ (by rw [Nat.div_self h])
    generalize newton scaled h scaled _ = root at hle hlt
    zify at hle hlt
    dsimp only
    split_ifs with hmore
    · push_cast
      exact ⟨fun _ => by linarith, by linarith⟩
    · exact ⟨fun _ => by nlinarith, by linarith⟩
  · obtain rfl : scaled = 0 := by omega
    decide

end OpenBooks
