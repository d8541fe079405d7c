import Mathlib.Algebra.Order.Floor.Ring
import Mathlib.Data.Rat.Floor
import Mathlib.Tactic.FieldSimp
import OpenBooks.Money.Rational

/-!
# Arithmetic on exact fractions

Sums, differences, products and quotients of fractions, each brought to lowest terms and refused
if it is too long. A fraction *is* a number (`Rational.Is`) if it stands for it over a
positive denominator; and a computation *computes* a number (`Rational.Computes`) if it
returns a fraction that is the number, or is refused for its size. All that is said of code on
fractions is then said of numbers.
-/

namespace OpenBooks

/-- The fraction stands for the number. -/
structure Rational.Is (r : Rational) (q : ℚ) : Prop where
  pos : 0 < r.denominator
  eq : r.toRat = q

/-- The computation returns the number, or is refused for its size. -/
def Rational.Computes (x : Except RationalError Rational) (q : ℚ) : Prop :=
  x = .error .limit ∨ ∃ r, x = .ok r ∧ r.Is q

variable {a b : Rational} {p q : ℚ}

theorem computes_rational (n : ℤ) {d : ℤ} (hd : d ≠ 0) :
    Rational.Computes (rational n d) (n / d) := by
  rcases h : rational n d with e | r
  · rcases rational_error h with ⟨-, hzero⟩ | ⟨rfl, -⟩
    · exact absurd hzero hd
    · exact Or.inl rfl
  · obtain ⟨-, hpos, heq⟩ := toRat_rational h
    exact Or.inr ⟨r, rfl, hpos, heq⟩

variable {x : Except RationalError Rational}

theorem Rational.Computes.congr (h : Rational.Computes x p) (hpq : p = q) :
    Rational.Computes x q := hpq ▸ h

/-- What is returned is the number. -/
theorem Rational.Computes.is_of_eq_ok (h : Rational.Computes x q) (hx : x = .ok a) : a.Is q := by
  rcases h with hlimit | ⟨r, hr, his⟩
  · rw [hx] at hlimit
    cases hlimit
  · rw [hx] at hr
    obtain rfl := Except.ok.inj hr
    exact his

theorem computes_whole (n : ℤ) : Rational.Computes (rational n 1) n :=
  (computes_rational n one_ne_zero).congr (by rw [Int.cast_one, div_one])

/-! ### Operations -/

def addRational (a b : Rational) : Except RationalError Rational :=
  rational (a.numerator * b.denominator + b.numerator * a.denominator)
    (a.denominator * b.denominator)

def subtractRational (a b : Rational) : Except RationalError Rational :=
  rational (a.numerator * b.denominator - b.numerator * a.denominator)
    (a.denominator * b.denominator)

def multiplyRational (a b : Rational) : Except RationalError Rational :=
  rational (a.numerator * b.numerator) (a.denominator * b.denominator)

def divideRational (a b : Rational) : Except RationalError Rational :=
  rational (a.numerator * b.denominator) (a.denominator * b.numerator)

theorem Rational.Is.cast_ne_zero (h : a.Is p) : (a.denominator : ℚ) ≠ 0 := by
  exact_mod_cast h.pos.ne'

section

variable (ha : a.Is p) (hb : b.Is q)

include ha hb

theorem computes_add : Rational.Computes (addRational a b) (p + q) := by
  refine (computes_rational _ (mul_pos ha.pos hb.pos).ne').congr ?_
  have ha' := ha.cast_ne_zero
  have hb' := hb.cast_ne_zero
  rw [← ha.eq, ← hb.eq, Rational.toRat, Rational.toRat]
  push_cast
  field_simp

theorem computes_subtract : Rational.Computes (subtractRational a b) (p - q) := by
  refine (computes_rational _ (mul_pos ha.pos hb.pos).ne').congr ?_
  have ha' := ha.cast_ne_zero
  have hb' := hb.cast_ne_zero
  rw [← ha.eq, ← hb.eq, Rational.toRat, Rational.toRat]
  push_cast
  field_simp

theorem computes_multiply : Rational.Computes (multiplyRational a b) (p * q) := by
  refine (computes_rational _ (mul_pos ha.pos hb.pos).ne').congr ?_
  rw [← ha.eq, ← hb.eq, Rational.toRat, Rational.toRat, div_mul_div_comm]
  push_cast
  rfl

theorem computes_divide (hq : q ≠ 0) : Rational.Computes (divideRational a b) (p / q) := by
  have hnumerator : b.numerator ≠ 0 := by
    intro hzero
    rw [← hb.eq, Rational.toRat, hzero, Int.cast_zero, zero_div] at hq
    exact hq rfl
  refine (computes_rational _ (mul_ne_zero ha.pos.ne' hnumerator)).congr ?_
  rw [← ha.eq, ← hb.eq, Rational.toRat, Rational.toRat, div_div_div_eq]
  push_cast
  rfl

/-! ### Comparison -/

theorem compareRational_pos_iff : 0 < compareRational a b ↔ q < p := by
  rw [compareRational_eq ha.pos hb.pos, ha.eq, hb.eq]
  split_ifs with h h'
  · exact iff_of_false (by decide) h.not_gt
  · exact iff_of_true (by decide) h'
  · exact iff_of_false (by decide) h'

theorem compareRational_nonpos_iff : compareRational a b ≤ 0 ↔ p ≤ q := by
  rw [← not_lt, compareRational_pos_iff ha hb, not_lt]

end

def minRational (a b : Rational) : Rational := if compareRational a b ≤ 0 then a else b

theorem is_minRational (ha : a.Is p) (hb : b.Is q) : (minRational a b).Is (min p q) := by
  unfold minRational
  split_ifs with h
  · rw [min_eq_left ((compareRational_nonpos_iff ha hb).mp h)]
    exact ha
  · rw [min_eq_right (not_le.mp fun hle => h ((compareRational_nonpos_iff ha hb).mpr hle)).le]
    exact hb

/-! ### Whole shares -/

def floorDiv (numerator denominator : ℤ) : ℤ :=
  let quotient := numerator.tdiv denominator
  if numerator.tmod denominator ≠ 0 ∧ decide (numerator < 0) ≠ decide (denominator < 0) then
    quotient - 1
  else quotient

/-- The whole shares of a fraction. -/
def floorShares (value : Rational) : ℤ := floorDiv value.numerator value.denominator

theorem floorDiv_eq {d : ℤ} (hd : 0 < d) (n : ℤ) : floorDiv n d = n / d := by
  have hpositive : decide (d < 0) = false := decide_eq_false hd.not_gt
  unfold floorDiv
  dsimp only
  rw [hpositive]
  rcases le_or_gt 0 n with hn | hn
  · rw [if_neg fun h => h.2 (decide_eq_false hn.not_gt), Int.tdiv_eq_ediv_of_nonneg hn]
  · have hnegative : decide (n < 0) ≠ false := by simpa using hn
    by_cases hdvd : d ∣ n
    · rw [if_neg fun h => h.1 (Int.tmod_eq_zero_of_dvd hdvd), Int.tdiv_eq_ediv_of_dvd hdvd]
    · have hmod : n.tmod d ≠ 0 := fun h => hdvd (Int.dvd_of_tmod_eq_zero h)
      rw [if_pos ⟨hmod, hnegative⟩, Int.tdiv_eq_ediv, if_neg, Int.sign_eq_one_of_pos hd]
      · ring
      · rintro (h | h)
        · exact absurd h (not_le.mpr hn)
        · exact hdvd h

theorem floorShares_eq (ha : a.Is p) : floorShares a = ⌊p⌋ := by
  obtain ⟨d, hd⟩ := Int.eq_ofNat_of_zero_le ha.pos.le
  rw [floorShares, floorDiv_eq ha.pos, ← ha.eq, Rational.toRat, hd, Int.cast_natCast,
    Rat.floor_intCast_div_natCast]

end OpenBooks
