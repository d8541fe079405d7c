import OpenBooks.Lib.Checked
import Mathlib.Data.Rat.Defs
import Mathlib.Algebra.Order.Field.Basic
import Mathlib.Algebra.Order.Ring.Rat
import Mathlib.Data.Int.Cast.Field
import Mathlib.Tactic.Push
import Mathlib.Tactic.Ring

/-!
# Exact intermediate values

Formulas are computed in fractions of unbounded integers and rounded once, at the
end. A fraction is a numerator over a positive denominator in lowest terms, and
`rational` is the one way to make one: it refuses a zero divisor, and an
operand of more than `RATIONAL_DIGITS` characters.

`Rational.toRat` is the number a fraction stands for. Everything about
fractions is proved through it: what `rational` returns
(`toRat_rational`) and what `compareRational` decides
(`compareRational_eq`).
-/

namespace OpenBooks

structure Rational where
  numerator : ℤ
  denominator : ℤ
  deriving DecidableEq

/-- The longest text of a numerator or denominator, its sign included. -/
def RATIONAL_DIGITS : ℕ := 256

/-- Why a fraction is refused. -/
inductive RationalError
  | divisionByZero
  | limit
  deriving DecidableEq

/-- The fraction in lowest terms, unless it is too long. -/
def lowestTerms (numerator denominator : ℤ) : Except RationalError Rational :=
  if RATIONAL_DIGITS < (toString numerator).length ∨
      RATIONAL_DIGITS < (toString denominator).length then .error .limit
  else
    let divisor : ℤ := Int.gcd numerator denominator
    .ok ⟨numerator / divisor, denominator / divisor⟩

/-- The fraction in lowest terms, over a positive denominator. -/
def rational (numerator denominator : ℤ) : Except RationalError Rational :=
  if denominator = 0 then .error .divisionByZero
  else if denominator < 0 then lowestTerms (-numerator) (-denominator)
  else lowestTerms numerator denominator

/-- The sign of the difference. -/
def compareRational (a b : Rational) : ℤ :=
  let difference := a.numerator * b.denominator - b.numerator * a.denominator
  if difference < 0 then -1 else if 0 < difference then 1 else 0

/-! ### The length of a fraction -/

/-- When a text is too long. -/
theorem digits_lt_length_toString_iff (n : ℤ) :
    RATIONAL_DIGITS < (toString n).length ↔ 10 ^ 256 ≤ n ∨ n ≤ -10 ^ 255 := by
  rcases n with m | m
  · have hlength : m.repr.length ≤ 256 ↔ m < 10 ^ 256 := Nat.length_repr_le_iff (by norm_num)
    have htext : toString (Int.ofNat m) = m.repr := rfl
    rw [htext, RATIONAL_DIGITS, ← not_le, hlength, Int.ofNat_eq_natCast]
    omega
  · have hlength : (m + 1).repr.length ≤ 255 ↔ m + 1 < 10 ^ 255 :=
      Nat.length_repr_le_iff (by norm_num)
    have htext : (toString (Int.negSucc m)).length = 1 + (m + 1).repr.length :=
      String.length_append "-" (m + 1).repr
    rw [htext, RATIONAL_DIGITS, Int.negSucc_eq]
    omega

/-- The fraction by the size of its numbers, without their texts. -/
theorem rational_eq (n d : ℤ) : rational n d =
    if d = 0 then .error .divisionByZero
    else
      let n' := if d < 0 then -n else n
      let d' := if d < 0 then -d else d
      if (10 ^ 256 ≤ n' ∨ n' ≤ -10 ^ 255) ∨ (10 ^ 256 ≤ d' ∨ d' ≤ -10 ^ 255) then .error .limit
      else
        let divisor : ℤ := Int.gcd n' d'
        .ok ⟨n' / divisor, d' / divisor⟩ := by
  simp only [rational, lowestTerms, digits_lt_length_toString_iff]
  by_cases hd : d < 0
  · simp only [if_pos hd]
  · simp only [if_neg hd]
/-! ### The number of a fraction -/

/-- The number a fraction stands for. -/
def Rational.toRat (r : Rational) : ℚ := r.numerator / r.denominator

/-- The fraction of a number. -/
def Rational.ofRat (q : ℚ) : Rational := ⟨q.num, q.den⟩

@[simp] theorem Rational.toRat_ofRat (q : ℚ) : (Rational.ofRat q).toRat = q := by
  simp [Rational.ofRat, Rational.toRat, Rat.num_div_den]

theorem Rational.ofRat_pos (q : ℚ) : 0 < (Rational.ofRat q).denominator := by
  simpa [Rational.ofRat] using q.den_pos

theorem toRat_lowestTerms {n d : ℤ} {r : Rational} (hd : 0 < d) (h : lowestTerms n d = .ok r) :
    0 < r.denominator ∧ r.toRat = n / d := by
  unfold lowestTerms at h
  split_ifs at h
  obtain rfl := Except.ok.inj h
  have hg : (0 : ℤ) < Int.gcd n d := by
    exact_mod_cast Int.gcd_pos_of_ne_zero_right n hd.ne'
  have hg' : ((Int.gcd n d : ℤ) : ℚ) ≠ 0 := by exact_mod_cast hg.ne'
  have hdvd : (Int.gcd n d : ℤ) ∣ d := Int.gcd_dvd_right n d
  refine ⟨Int.ediv_pos_of_pos_of_dvd hd hg.le hdvd, ?_⟩
  simp only [Rational.toRat]
  rw [Int.cast_div (Int.gcd_dvd_left n d) hg', Int.cast_div hdvd hg', div_div_div_cancel_right₀ hg']

/-- What a fraction that is made stands for. -/
theorem toRat_rational {n d : ℤ} {r : Rational} (h : rational n d = .ok r) :
    d ≠ 0 ∧ 0 < r.denominator ∧ r.toRat = n / d := by
  unfold rational at h
  split_ifs at h with hd hneg
  · obtain ⟨hden, hrat⟩ := toRat_lowestTerms (show 0 < -d by omega) h
    refine ⟨hd, hden, hrat.trans ?_⟩
    push_cast
    rw [neg_div_neg_eq]
  · exact ⟨hd, toRat_lowestTerms (show 0 < d by omega) h⟩

/-- A fraction is refused for a zero divisor, or else for its size. -/
theorem rational_error {n d : ℤ} {e : RationalError} (h : rational n d = .error e) :
    (e = .divisionByZero ∧ d = 0) ∨ (e = .limit ∧ d ≠ 0) := by
  unfold rational lowestTerms at h
  split_ifs at h with hd
  · exact .inl ⟨(Except.error.inj h).symm, hd⟩
  all_goals exact .inr ⟨(Except.error.inj h).symm, hd⟩

theorem compareRational_eq {a b : Rational} (ha : 0 < a.denominator) (hb : 0 < b.denominator) :
    compareRational a b =
      if a.toRat < b.toRat then -1 else if b.toRat < a.toRat then 1 else 0 := by
  have ha' : (0 : ℚ) < a.denominator := by exact_mod_cast ha
  have hb' : (0 : ℚ) < b.denominator := by exact_mod_cast hb
  have hlt : a.toRat < b.toRat ↔ a.numerator * b.denominator - b.numerator * a.denominator < 0 := by
    rw [Rational.toRat, Rational.toRat, div_lt_div_iff₀ ha' hb', sub_neg]
    exact_mod_cast Iff.rfl
  have hgt : b.toRat < a.toRat ↔ 0 < a.numerator * b.denominator - b.numerator * a.denominator := by
    rw [Rational.toRat, Rational.toRat, div_lt_div_iff₀ hb' ha', sub_pos]
    exact_mod_cast Iff.rfl
  simp only [compareRational, hlt, hgt]

end OpenBooks
