import OpenBooks.Lib.Checked
import OpenBooks.Money.Units
import Mathlib.Tactic.LinearCombination

/-!
# Carrying amounts as ledger lines

The ledger translates a line at a rate of ten decimals and rounds it, so a released carrying amount
is not always one line's translation. `CarryingRate.carryingRateLines` tries the nearest rate; where
it misses, all but one unit of the transaction amount goes at that rate and the last unit takes what
is left, at the rate that is just that much.

What is left shrinks with the rate and the miss grows with the amount. So the last unit can carry
the miss only while it is worth more than the overshoot
(`CarryingRate.carryingRateLines_clears_iff`): beyond that the carrying amount is refused.
-/

namespace OpenBooks.CarryingRate

open Checked HalfAway List

/-! ### The lines -/

/-- One unit of the transaction currency. -/
def ONE : ℤ := 10000

structure TranslatedLine where
  /-- Signed transaction-currency amount. -/
  txnAmount : ℤ
  /-- Positive rate with at most ten decimals. -/
  fxRate : ℤ
  /-- Signed functional amount. -/
  amount : ℤ
  deriving DecidableEq

inductive CarryingRateError
  | zeroTransaction
  | unlikeSigns
  | rateRange
  | precision
  deriving DecidableEq

def CarryingRateError.message : CarryingRateError → String
  | .zeroTransaction => "a translated line needs a non-zero transaction amount"
  | .unlikeSigns =>
    "a carrying amount must be non-zero and share the sign of its transaction amount"
  | .rateRange => "a carrying-rate translation exceeds the ledger's exchange-rate range"
  | .precision => "a carrying amount cannot be represented at ledger precision"

/-- A rate as the ledger stores it: at most nine digits before the point. -/
def rateText (units : ℤ) : Except CarryingRateError ℤ :=
  if 9 < (toString (units / RATE_SCALE)).length then .error .rateRange else .ok units

def translate (units rateUnits : ℤ) : ℤ := roundDiv (units * rateUnits) RATE_SCALE

/-- A signed transaction amount and the functional amount it must carry, as one line or two. -/
def carryingRateLines (txnAmount functionalAmount : ℤ) :
    Except CarryingRateError (List TranslatedLine) := do
  let t := txnAmount
  let f := functionalAmount
  refuseIf (t = 0) .zeroTransaction
  refuseIf (f = 0 ∨ decide (t < 0) ≠ decide (f < 0)) .unlikeSigns
  let sign : ℤ := if t < 0 then -1 else 1
  let tAbs := |t|
  let fAbs := |f|
  let single := roundDiv (fAbs * RATE_SCALE) tAbs
  if 0 < single ∧ translate tAbs single = fAbs then do
    let fxRate ← rateText single
    return [⟨sign * tAbs, fxRate, sign * fAbs⟩]
  else do
    refuseIf (tAbs ≤ ONE) .precision
    let bodyTxn := tAbs - ONE
    let bodyAmount := translate bodyTxn single
    let tailAmount := fAbs - bodyAmount
    refuseIf (single ≤ 0 ∨ tailAmount ≤ 0) .precision
    -- one unit at a rate equal to what is left reproduces it: the rate has four decimals
    let tailRate := tailAmount * (RATE_SCALE / ONE)
    let bodyRate ← rateText single
    let fxRate ← rateText tailRate
    return [⟨sign * bodyTxn, bodyRate, sign * bodyAmount⟩, ⟨sign * ONE, fxRate, sign * tailAmount⟩]

/-! ### What the lines have to do -/

/-- The lines carry the amounts to the last ledger unit, each by its own translation. -/
structure Clears (t f : ℤ) (lines : List TranslatedLine) : Prop where
  count : lines.length = 1 ∨ lines.length = 2
  txnAmount : (lines.map (·.txnAmount)).sum = t
  amount : (lines.map (·.amount)).sum = f
  rate_pos : ∀ line ∈ lines, 0 < line.fxRate
  translated : ∀ line ∈ lines, line.amount = mulRate line.txnAmount line.fxRate

/-- The ten-decimal rate nearest to the ratio of two amounts. -/
def nearestRate (t f : ℤ) : ℤ := roundDiv (|f| * RATE_SCALE) |t|

/-- What the whole amount at the nearest rate is more than the carrying amount, before
rounding. -/
def overshoot (t f : ℤ) : ℤ := |t| * nearestRate t f - |f| * RATE_SCALE

/-- What one unit at the nearest rate is more than the overshoot: what the last unit has to
carry, before rounding. -/
def lastUnit (t f : ℤ) : ℤ := ONE * nearestRate t f - overshoot t f

/-- The largest rate has nine digits before the point. -/
def RATE_LIMIT : ℤ := 10 ^ 9 * RATE_SCALE

/-- The nearest rate is one of the ledger; and it either overshoots by no more than rounding
takes back, or leaves the last unit more than half a ledger unit to carry, and no more than a
rate of the ledger carries. -/
def Representable (t f : ℤ) : Prop :=
  nearestRate t f < RATE_LIMIT ∧
    ((-RATE_SCALE ≤ 2 * overshoot t f ∧ 2 * overshoot t f < RATE_SCALE) ∨
      (RATE_SCALE < 2 * lastUnit t f ∧ 2 * lastUnit t f ≤ 2 * (ONE * RATE_LIMIT) - RATE_SCALE))

instance (t f : ℤ) : Decidable (Representable t f) := inferInstanceAs (Decidable (_ ∧ _))

/-! ### Rates and translations -/

theorem rateText_eq_ok {units rate : ℤ} (h : 0 ≤ units) :
    rateText units = .ok rate ↔ units < RATE_LIMIT ∧ rate = units := by
  have hlength : 9 < (toString (units / RATE_SCALE)).length ↔ RATE_LIMIT ≤ units := by
    obtain ⟨n, rfl⟩ := Int.eq_ofNat_of_zero_le h
    have hdigits : (n / 10000000000).repr.length ≤ 9 ↔ n / 10000000000 < 10 ^ 9 :=
      Nat.length_repr_le_iff (by norm_num)
    have htext : toString ((n : ℤ) / RATE_SCALE) = (n / 10000000000).repr := rfl
    rw [htext, ← not_le, hdigits, RATE_LIMIT, RATE_SCALE]
    omega
  unfold rateText
  split_ifs with hlong
  · exact iff_of_false (by simp) fun h => absurd (hlength.mp hlong) (not_le.mpr h.1)
  · rw [Except.ok.injEq, eq_comm (a := units)]
    exact ⟨fun h => ⟨not_le.mp fun hle => hlong (hlength.mpr hle), h⟩, And.right⟩

theorem translate_of_nonneg {units rate : ℤ} (h : 0 ≤ units * rate) :
    translate units rate = (units * rate + 5000000000) / RATE_SCALE := by
  rw [translate, roundDiv_eq_round, round_of_nonneg h]
  rfl

theorem mulRate_sign {sign : ℤ} (h : sign = 1 ∨ sign = -1) (units rate : ℤ) :
    mulRate (sign * units) rate = sign * translate units rate := by
  rcases h with rfl | rfl
  · rw [one_mul, one_mul]
    rfl
  · rw [mulRate, roundDiv_eq_round, neg_one_mul, neg_one_mul, neg_mul, round_neg RATE_SCALE_pos,
      ← roundDiv_eq_round]
    rfl

/-- The last unit carries just what is left. -/
theorem translate_tail (tailAmount : ℤ) :
    translate ONE (tailAmount * (RATE_SCALE / ONE)) = tailAmount := by
  have hscale : ONE * (tailAmount * (RATE_SCALE / ONE)) = tailAmount * RATE_SCALE := by
    rw [show RATE_SCALE / ONE = 1000000 from rfl, ONE, RATE_SCALE]
    ring
  rw [translate, roundDiv_eq_round, hscale, round_mul_self RATE_SCALE_pos]

/-! ### When the lines exist -/

section

variable {t f : ℤ}

/-- The rate is positive where the ratio is not below the last decimal. -/
theorem nearestRate_pos (ht : t ≠ 0) (hlow : |t| ≤ |f| * RATE_SCALE) : 0 < nearestRate t f := by
  have hone : 1 ≤ round (|f| * RATE_SCALE) |t| :=
    le_round_of_mul_le (abs_pos.mpr ht) (by rwa [one_mul])
  rw [nearestRate, roundDiv_eq_round]
  omega

/-- One line does just when rounding takes the overshoot back. -/
theorem translate_nearestRate_iff (hrate : 0 < nearestRate t f) :
    translate |t| (nearestRate t f) = |f| ↔
      -RATE_SCALE ≤ 2 * overshoot t f ∧ 2 * overshoot t f < RATE_SCALE := by
  rw [translate_of_nonneg (mul_nonneg (abs_nonneg t) hrate.le),
    Int.ediv_eq_iff_of_pos RATE_SCALE_pos, overshoot, RATE_SCALE]
  omega

section

variable (ht : ONE < |t|) (hrate : 0 < nearestRate t f)

include ht hrate

/-- What the last unit has to carry, rounded. -/
theorem tail_eq :
    |f| - translate (|t| - ONE) (nearestRate t f) =
      -((-lastUnit t f + 5000000000) / RATE_SCALE) := by
  have hbody : (|t| - ONE) * nearestRate t f + 5000000000 =
      (-lastUnit t f + 5000000000) + |f| * RATE_SCALE := by
    rw [lastUnit, overshoot]
    ring
  rw [translate_of_nonneg (mul_nonneg (by omega) hrate.le), hbody,
    Int.add_mul_ediv_right _ _ RATE_SCALE_pos.ne']
  ring

theorem tail_pos_iff :
    0 < |f| - translate (|t| - ONE) (nearestRate t f) ↔ RATE_SCALE < 2 * lastUnit t f := by
  rw [tail_eq ht hrate, RATE_SCALE]
  omega

theorem tailRate_lt_iff :
    (|f| - translate (|t| - ONE) (nearestRate t f)) * (RATE_SCALE / ONE) < RATE_LIMIT ↔
      2 * lastUnit t f ≤ 2 * (ONE * RATE_LIMIT) - RATE_SCALE := by
  rw [tail_eq ht hrate, show RATE_SCALE / ONE = 1000000 from rfl, RATE_LIMIT, RATE_SCALE, ONE]
  omega

end

/-- What the code does past its two guards: one line where the nearest rate does, else two. -/
theorem carryingRateLines_eq_ok (ht : ONE < |t|) (hf : f ≠ 0) (hsign : t < 0 ↔ f < 0)
    (hrate : 0 < nearestRate t f) {lines : List TranslatedLine} :
    carryingRateLines t f = .ok lines ↔
      let sign : ℤ := if t < 0 then -1 else 1
      let rate := nearestRate t f
      let bodyAmount := translate (|t| - ONE) rate
      let tailAmount := |f| - bodyAmount
      let tailRate := tailAmount * (RATE_SCALE / ONE)
      rate < RATE_LIMIT ∧
        ((translate |t| rate = |f| ∧ lines = [⟨sign * |t|, rate, sign * |f|⟩]) ∨
          (translate |t| rate ≠ |f| ∧ 0 < tailAmount ∧ tailRate < RATE_LIMIT ∧
            lines = [⟨sign * (|t| - ONE), rate, sign * bodyAmount⟩,
              ⟨sign * ONE, tailRate, sign * tailAmount⟩])) := by
  have hzero : t ≠ 0 := fun h => by rw [h, abs_zero, ONE] at ht; omega
  have hguard : ¬(f = 0 ∨ decide (t < 0) ≠ decide (f < 0)) := by simp [hf, hsign]
  have hsingle : roundDiv (|f| * RATE_SCALE) |t| = nearestRate t f := rfl
  have htailRate : 0 < |f| - translate (|t| - ONE) (nearestRate t f) →
      0 ≤ (|f| - translate (|t| - ONE) (nearestRate t f)) * (RATE_SCALE / ONE) :=
    fun h => mul_nonneg h.le (by decide)
  unfold carryingRateLines
  simp only [refuseIf, if_neg hzero, if_neg hguard, if_neg (not_le.mpr ht), hsingle, ok_bind]
  generalize (if t < 0 then (-1 : ℤ) else 1) = sign
  by_cases hone : translate |t| (nearestRate t f) = |f|
  · rw [if_pos ⟨hrate, hone⟩]
    simp only [bind_eq_ok, pure_eq_ok, rateText_eq_ok hrate.le, hone, ne_eq, not_true_eq_false,
      false_and, or_false, true_and]
    constructor
    · rintro ⟨_, ⟨hlt, hrate⟩, hlines⟩
      exact ⟨hlt, by rw [← hlines, hrate]⟩
    · rintro ⟨hlt, hlines⟩
      exact ⟨_, ⟨hlt, rfl⟩, hlines.symm⟩
  · rw [if_neg fun h => hone h.2]
    simp only [hone, false_and, false_or, ne_eq, not_false_eq_true, true_and]
    by_cases htail : 0 < |f| - translate (|t| - ONE) (nearestRate t f)
    · rw [if_neg fun h => h.elim hrate.not_ge htail.not_ge]
      simp only [ok_bind, bind_eq_ok, pure_eq_ok, rateText_eq_ok hrate.le,
        rateText_eq_ok (htailRate htail), htail, true_and]
      constructor
      · rintro ⟨_, ⟨hbody, rfl⟩, _, ⟨hlast, rfl⟩, rfl⟩
        exact ⟨hbody, hlast, rfl⟩
      · rintro ⟨hbody, hlast, rfl⟩
        exact ⟨_, ⟨hbody, rfl⟩, _, ⟨hlast, rfl⟩, rfl⟩
    · rw [if_pos (Or.inr (not_lt.mp htail))]
      exact iff_of_false (by rintro ⟨⟩) fun h => htail h.2.1

/-- **A carrying amount is cleared to the last ledger unit just when it is representable.** -/
theorem carryingRateLines_clears_iff (ht : ONE < |t|) (hf : f ≠ 0) (hsign : t < 0 ↔ f < 0)
    (hlow : |t| ≤ |f| * RATE_SCALE) :
    (∃ lines, carryingRateLines t f = .ok lines ∧ Clears t f lines) ↔ Representable t f := by
  have hzero : t ≠ 0 := fun h => by rw [h, abs_zero, ONE] at ht; omega
  have hrate := nearestRate_pos hzero hlow
  have hunit : (if t < 0 then (-1 : ℤ) else 1) = 1 ∨ (if t < 0 then (-1 : ℤ) else 1) = -1 := by
    split_ifs <;> simp
  have htxn : (if t < 0 then (-1 : ℤ) else 1) * |t| = t := by
    split_ifs with h
    · rw [abs_of_neg h, neg_one_mul, neg_neg]
    · rw [abs_of_nonneg (not_lt.mp h), one_mul]
  have hfun : (if t < 0 then (-1 : ℤ) else 1) * |f| = f := by
    split_ifs with h
    · rw [abs_of_neg (hsign.mp h), neg_one_mul, neg_neg]
    · rw [abs_of_nonneg (not_lt.mp fun hlt => h (hsign.mpr hlt)), one_mul]
  simp only [carryingRateLines_eq_ok ht hf hsign hrate, Representable,
    ← translate_nearestRate_iff hrate, ← tail_pos_iff ht hrate, ← tailRate_lt_iff ht hrate]
  generalize (if t < 0 then (-1 : ℤ) else 1) = sign at hunit htxn hfun ⊢
  constructor
  · rintro ⟨lines, ⟨hlt, ⟨hone, -⟩ | ⟨-, htail, hlast, -⟩⟩, -⟩
    · exact ⟨hlt, Or.inl hone⟩
    · exact ⟨hlt, Or.inr ⟨htail, hlast⟩⟩
  · rintro ⟨hlt, h⟩
    by_cases hone : translate |t| (nearestRate t f) = |f|
    · refine ⟨_, ⟨hlt, Or.inl ⟨hone, rfl⟩⟩, Or.inl rfl, by simp [htxn], by simp [hfun], ?_, ?_⟩
      · simpa using hrate
      · simp only [mem_singleton, forall_eq]
        rw [mulRate_sign hunit, hone]
    · obtain ⟨htail, hlast⟩ := h.resolve_left hone
      refine ⟨_, ⟨hlt, Or.inr ⟨hone, htail, hlast, rfl⟩⟩, Or.inr rfl, ?_, ?_, ?_, ?_⟩
      · simp only [map_cons, map_nil, sum_cons, sum_nil]
        linear_combination htxn
      · simp only [map_cons, map_nil, sum_cons, sum_nil]
        linear_combination hfun
      · simp only [mem_cons, not_mem_nil, or_false, forall_eq_or_imp, forall_eq]
        exact ⟨hrate, mul_pos htail (by decide)⟩
      · simp only [mem_cons, not_mem_nil, or_false, forall_eq_or_imp, forall_eq]
        exact ⟨(mulRate_sign hunit _ _).symm, by rw [mulRate_sign hunit, translate_tail]⟩

/-- A thousand units carried at two lines. -/
theorem carryingRateLines_clears_thousand :
    ∃ lines, carryingRateLines (-10000003) (-13333339) = .ok lines ∧
      Clears (-10000003) (-13333339) lines :=
  (carryingRateLines_clears_iff (by decide) (by decide) (by decide) (by decide)).mpr (by decide)

/-- A hundred thousand million units at a rate between two of ten decimals are refused. -/
theorem carrying_refused_at_hundred_thousand_million :
    carryingRateLines 1000000000000000 1000000000060000 = .error .precision ∧
      ONE < |(1000000000000000 : ℤ)| ∧ |(1000000000000000 : ℤ)| ≤ |(1000000000060000 : ℤ)| * RATE_SCALE ∧
      |(1000000000060000 : ℤ)| < 10 ^ 9 * |(1000000000000000 : ℤ)| := by
  decide

end

end OpenBooks.CarryingRate
