import OpenBooks.Lib.Checked
import OpenBooks.Lib.Compounding
import OpenBooks.Money.Units
import Mathlib.Algebra.BigOperators.Field
import Mathlib.Algebra.BigOperators.Intervals
import Mathlib.Algebra.Order.Field.Rat
import Mathlib.Order.Interval.Finset.Nat

/-!
# Present value and accretion

A level payment stream is discounted by an exact rational rate and rounded once, to money
(`presentValueOfLevelStream`). Accretion carries such a value to zero (`accreteToZero`): each period
adds the interest on the balance, rounded to money, and pays; the last period's interest is plugged,
so that the balance closes at zero.

The plug takes up what the roundings of all periods have come to, and is refused when it is negative
or further than a cent a period from the interest it stands for. `accreteToZero_closes` says when it
is not: just when the plug fits (`PlugFits`), and whenever the compounded halves of a unit stay
within the tolerance.
-/

namespace OpenBooks

open Checked List

/-! ### Present value -/

structure PresentValueError where
  message : String

/-- The supported horizon of a level stream, in periods. -/
def MAX_PRESENT_VALUE_PERIODS : ℕ := 1200

/-- Whole period counts within the horizon only. -/
def assertPeriodCount (periods : ℕ) : Except PresentValueError Unit :=
  refuseIf (periods < 1 ∨ MAX_PRESENT_VALUE_PERIODS < periods)
    ⟨"periods must be a whole number of periods from 1 through " ++
      toString MAX_PRESENT_VALUE_PERIODS⟩

/-- An exact per-period rate, of a percentage that is not negative. -/
structure PeriodRate where
  num : ℤ
  den : ℤ
  num_nonneg : 0 ≤ num
  den_pos : 0 < den

inductive PaymentTiming
  | arrears
  | advance
  deriving DecidableEq

structure LevelPaymentStream where
  payment : ℤ
  periods : ℕ
  rate : PeriodRate
  timing : PaymentTiming

/-- The periods that are paid, first and last. -/
def LevelPaymentStream.paid (stream : LevelPaymentStream) : ℕ × ℕ :=
  match stream.timing with
  | .arrears => (1, stream.periods)
  | .advance => (0, stream.periods - 1)

/-- Present value of a level payment stream: one rational over a common denominator, rounded
once. -/
def presentValueOfLevelStream (stream : LevelPaymentStream) : Except PresentValueError ℤ := do
  assertPeriodCount stream.periods
  refuseIf (stream.payment ≤ 0) (⟨"payment must be positive"⟩ : PresentValueError)
  if stream.rate.num = 0 then return stream.payment * stream.periods
  else
    let S := stream.rate.den
    let D := stream.rate.den + stream.rate.num
    let numerator := ∑ t ∈ Finset.Icc stream.paid.1 stream.paid.2,
      stream.payment * S ^ t * D ^ (stream.periods - t)
    return roundDiv numerator (D ^ stream.periods)

/-! ### Accretion -/

/-- Per-period interest on a balance. -/
def periodInterest (balance : ℤ) (rate : PeriodRate) : ℤ :=
  roundDiv (balance * rate.num) rate.den

structure AccretionPeriod where
  sequence : ℕ
  opening : ℤ
  interest : ℤ
  payment : ℤ
  closing : ℤ

structure AccretionArgs where
  opening : ℤ
  payment : ℤ
  periods : ℕ
  rate : PeriodRate

/-- Period `t`: interest at the rate, or in the last period whatever closes the balance. -/
def accretionPeriod (args : AccretionArgs) (t : ℕ) (opening : ℤ) :
    Except PresentValueError AccretionPeriod :=
  if t < args.periods then
    let interest := periodInterest opening args.rate
    let principal := args.payment - interest
    .ok ⟨t, opening, interest, args.payment, opening - principal⟩
  else do
    let principal := opening
    let interest := args.payment - principal
    let computed := periodInterest opening args.rate
    let drift := interest - computed
    -- one cent per period
    let tolerance : ℤ := args.periods * 100
    refuseIf (interest < 0 ∨ tolerance < drift ∨ tolerance < -drift)
      (⟨"accretion does not close: final plug " ++ fromUnits interest ++ " vs computed " ++
        fromUnits computed⟩ : PresentValueError)
    return ⟨t, opening, interest, args.payment, opening - principal⟩

/-- The rows of some periods, and the balance they leave. -/
def accretionPeriods (args : AccretionArgs) :
    List ℕ → ℤ → Except PresentValueError (List AccretionPeriod × ℤ)
  | [], opening => .ok ([], opening)
  | t :: ts, opening => do
    let row ← accretionPeriod args t opening
    let rest ← accretionPeriods args ts row.closing
    return (row :: rest.1, rest.2)

/-- Accrete a balance to zero across a level stream in arrears. -/
def accreteToZero (args : AccretionArgs) : Except PresentValueError (List AccretionPeriod) := do
  assertPeriodCount args.periods
  let out ← accretionPeriods args (List.range' 1 args.periods) args.opening
  refuseIf (out.2 ≠ 0)
    (⟨"accretion left a residual balance of " ++ fromUnits out.2⟩ : PresentValueError)
  return out.1

/-! ### Carrying a balance -/

/-- A balance after one period of interest and payment. -/
def carryOnce (payment : ℤ) (rate : PeriodRate) (balance : ℤ) : ℤ :=
  balance - (payment - periodInterest balance rate)

/-- A balance after `n` periods. -/
def carriedBalance (args : AccretionArgs) (n : ℕ) : ℤ :=
  (carryOnce args.payment args.rate)^[n] args.opening

/-- The interest that closes a balance is an interest, and within a cent a period of the one it
stands for. -/
def Closes (args : AccretionArgs) (balance : ℤ) : Prop :=
  0 ≤ args.payment - balance ∧
    |args.payment - balance - periodInterest balance args.rate| ≤ args.periods * 100

instance (args : AccretionArgs) (balance : ℤ) : Decidable (Closes args balance) :=
  inferInstanceAs (Decidable (_ ∧ _))

/-- The plug of the last period fits. -/
def PlugFits (args : AccretionArgs) : Prop :=
  Closes args (carriedBalance args (args.periods - 1))

/-- Rows that carry a balance to zero: each goes on where the last one stopped. -/
structure Accretes (payment opening : ℤ) (ts : List ℕ) (rows : List AccretionPeriod) : Prop where
  sequence : rows.map AccretionPeriod.sequence = ts
  opens : rows.head?.map AccretionPeriod.opening = some opening
  chained : rows.IsChain fun row next => next.opening = row.closing
  steps : ∀ row ∈ rows, row.payment = payment ∧ row.closing = row.opening + row.interest - payment
  closes : rows.getLast?.map AccretionPeriod.closing = some 0
  interest : (rows.map AccretionPeriod.interest).sum = ts.length * payment - opening

variable {args : AccretionArgs} {payment : ℤ} {ts : List ℕ} {rows : List AccretionPeriod}
  {t n : ℕ}

theorem Accretes.single (row : AccretionPeriod) (hpayment : row.payment = payment)
    (hstep : row.closing = row.opening + row.interest - payment) (hzero : row.closing = 0) :
    Accretes payment row.opening [row.sequence] [row] where
  sequence := rfl
  opens := rfl
  chained := .singleton row
  steps := by simpa using ⟨hpayment, hstep⟩
  closes := congrArg some hzero
  interest := by
    simp only [map_cons, map_nil, sum_cons, sum_nil, length_cons, length_nil]
    push_cast
    linarith

theorem Accretes.cons (row : AccretionPeriod) (h : Accretes payment row.closing ts rows)
    (hpayment : row.payment = payment)
    (hstep : row.closing = row.opening + row.interest - payment) :
    Accretes payment row.opening (row.sequence :: ts) (row :: rows) where
  sequence := by rw [map_cons, h.sequence]
  opens := rfl
  chained := by
    rw [isChain_cons]
    refine ⟨fun next hnext => ?_, h.chained⟩
    have hopens := h.opens
    rw [Option.mem_def.mp hnext] at hopens
    exact Option.some.inj hopens
  steps := forall_mem_cons.mpr ⟨⟨hpayment, hstep⟩, h.steps⟩
  closes := by
    obtain ⟨last, hlast, hzero⟩ := Option.map_eq_some_iff.mp h.closes
    rw [List.getLast?_cons, hlast, Option.getD_some, Option.map_some, hzero]
  interest := by
    rw [map_cons, sum_cons, h.interest, hstep, length_cons]
    push_cast
    ring

/-! ### The run -/

/-- The refusal of a plug. -/
def plugRefusal (args : AccretionArgs) (balance : ℤ) : PresentValueError :=
  ⟨"accretion does not close: final plug " ++ fromUnits (args.payment - balance) ++
    " vs computed " ++ fromUnits (periodInterest balance args.rate)⟩

theorem accretionPeriod_last (hlast : ¬t < args.periods) (balance : ℤ) :
    accretionPeriod args t balance = if Closes args balance then
      .ok ⟨t, balance, args.payment - balance, args.payment, 0⟩
      else .error (plugRefusal args balance) := by
  have hiff : (args.payment - balance < 0 ∨
      (args.periods * 100 : ℤ) < args.payment - balance - periodInterest balance args.rate ∨
      (args.periods * 100 : ℤ) < -(args.payment - balance - periodInterest balance args.rate)) ↔
        ¬Closes args balance := by
    rw [Closes, abs_le]
    omega
  rw [accretionPeriod, if_neg hlast]
  dsimp only
  rw [refuseIf]
  by_cases hcloses : Closes args balance
  · rw [if_neg fun h => hiff.mp h hcloses, if_pos hcloses, ok_bind, sub_self]
    rfl
  · rw [if_pos (hiff.mpr hcloses), if_neg hcloses]
    rfl

theorem accretionPeriod_of_lt (h : t < args.periods) (balance : ℤ) :
    accretionPeriod args t balance = .ok ⟨t, balance, periodInterest balance args.rate,
      args.payment, carryOnce args.payment args.rate balance⟩ := by
  rw [accretionPeriod, if_pos h]
  rfl

theorem accretionPeriods_spec (args : AccretionArgs) (n : ℕ) {t : ℕ} (ht : t + n = args.periods) (opening : ℤ) :
    (Closes args ((carryOnce args.payment args.rate)^[n] opening) →
      ∃ rows, accretionPeriods args (List.range' t (n + 1)) opening = .ok (rows, 0) ∧
        Accretes args.payment opening (List.range' t (n + 1)) rows) ∧
    (¬Closes args ((carryOnce args.payment args.rate)^[n] opening) →
      accretionPeriods args (List.range' t (n + 1)) opening =
        .error (plugRefusal args ((carryOnce args.payment args.rate)^[n] opening))) := by
  induction n generalizing t opening with
  | zero =>
    rw [Function.iterate_zero_apply, range'_succ, range'_zero, accretionPeriods,
      accretionPeriod_last (by omega)]
    refine ⟨fun h => ⟨[⟨t, opening, args.payment - opening, args.payment, 0⟩], ?_, ?_⟩,
      fun h => ?_⟩
    · rw [if_pos h]
      rfl
    · exact .single ⟨t, opening, args.payment - opening, args.payment, 0⟩ rfl (by
        dsimp only
        ring) rfl
    · rw [if_neg h]
      rfl
  | succ n ih =>
    rw [Function.iterate_succ_apply, range'_succ, accretionPeriods,
      accretionPeriod_of_lt (by omega), ok_bind]
    obtain ⟨hcloses, hrefused⟩ := ih (t := t + 1) (by omega)
      (carryOnce args.payment args.rate opening)
    refine ⟨fun h => ?_, fun h => ?_⟩
    · obtain ⟨rows, hrows, haccretes⟩ := hcloses h
      rw [hrows]
      refine ⟨_, rfl, ?_⟩
      exact .cons ⟨t, opening, periodInterest opening args.rate, args.payment,
        carryOnce args.payment args.rate opening⟩ haccretes rfl (by
          simp only [carryOnce]
          ring)
    · rw [hrefused h]
      rfl

/-- **Accretion closes just when the plug fits.** -/
theorem accreteToZero_spec (args : AccretionArgs) (hfirst : 1 ≤ args.periods)
    (hlast : args.periods ≤ MAX_PRESENT_VALUE_PERIODS) :
    (PlugFits args → ∃ rows, accreteToZero args = .ok rows ∧
      Accretes args.payment args.opening (List.range' 1 args.periods) rows) ∧
    (¬PlugFits args → accreteToZero args =
      .error (plugRefusal args (carriedBalance args (args.periods - 1)))) := by
  have hperiods : assertPeriodCount args.periods = .ok () :=
    refuseIf_eq_ok.mpr (by omega)
  have hcount : args.periods - 1 + 1 = args.periods := by omega
  obtain ⟨hcloses, hrefused⟩ := accretionPeriods_spec args (args.periods - 1) (t := 1)
    (by omega) args.opening
  rw [hcount] at hcloses hrefused
  rw [accreteToZero, hperiods, ok_bind]
  refine ⟨fun h => ?_, fun h => ?_⟩
  · obtain ⟨rows, hrows, haccretes⟩ := hcloses h
    rw [hrows]
    exact ⟨rows, rfl, haccretes⟩
  · rw [hrefused h]
    rfl

/-! ### How far the roundings carry -/

def PeriodRate.growth (rate : PeriodRate) : ℚ := 1 + rate.num / rate.den

variable (rate : PeriodRate)

theorem PeriodRate.den_pos_rat : (0 : ℚ) < rate.den := by
  exact_mod_cast rate.den_pos

theorem PeriodRate.growth_pos : 0 < rate.growth := by
  have hnum : (0 : ℚ) ≤ rate.num := by exact_mod_cast rate.num_nonneg
  have := div_nonneg hnum rate.den_pos_rat.le
  rw [growth]
  linarith

theorem PeriodRate.inv_growth : rate.growth⁻¹ = rate.den / (rate.den + rate.num : ℤ) := by
  have hden := rate.den_pos_rat.ne'
  rw [growth, inv_eq_one_div]
  push_cast
  field_simp

theorem abs_roundDiv_sub_le {d : ℤ} (hd : 0 < d) (n : ℤ) :
    |(roundDiv n d : ℚ) - n / d| ≤ 1 / 2 := by
  have hd' : (0 : ℚ) < d := by exact_mod_cast hd
  have hround : 2 * |(roundDiv n d : ℚ) * d - n| ≤ d := by
    rw [roundDiv_eq_round]
    exact_mod_cast HalfAway.two_mul_abs_round_sub_le hd n
  have hsub : (roundDiv n d : ℚ) - n / d = (roundDiv n d * d - n) / d := by
    field_simp
  rw [hsub, abs_div, abs_of_pos hd', div_le_iff₀ hd']
  linarith

theorem sum_over_common_denominator (payment : ℤ) (periods : ℕ) (rate : PeriodRate) :
    ((∑ t ∈ Finset.Icc 1 periods,
        payment * rate.den ^ t * (rate.den + rate.num) ^ (periods - t) : ℤ) : ℚ) /
      ((rate.den + rate.num) ^ periods : ℤ) =
        Compounding.levelValue (payment : ℚ) rate.growth periods := by
  have hD : (0 : ℚ) < (rate.den + rate.num : ℤ) := by
    exact_mod_cast add_pos_of_pos_of_nonneg rate.den_pos rate.num_nonneg
  rw [Compounding.levelValue, PeriodRate.inv_growth, ← Finset.Ico_add_one_right_eq_Icc,
    Finset.sum_Ico_eq_sum_range, add_tsub_cancel_right, Int.cast_sum, Finset.sum_div,
    Finset.mul_sum]
  refine Finset.sum_congr rfl fun t ht => ?_
  have hsplit : periods = (1 + t) + (periods - (1 + t)) := by
    have := Finset.mem_range.mp ht
    omega
  have hpow : ((rate.den + rate.num : ℤ) : ℚ) ^ periods =
      ((rate.den + rate.num : ℤ) : ℚ) ^ (1 + t) *
        ((rate.den + rate.num : ℤ) : ℚ) ^ (periods - (1 + t)) := by
    rw [← pow_add, ← hsplit]
  simp only [Int.cast_mul, Int.cast_pow]
  rw [hpow, div_pow, add_comm t 1]
  field_simp

theorem presentValueOfLevelStream_arrears {payment : ℤ} (hpayment : 0 < payment) {periods : ℕ}
    (hfirst : 1 ≤ periods) (hlast : periods ≤ MAX_PRESENT_VALUE_PERIODS) (rate : PeriodRate) :
    ∃ opening, presentValueOfLevelStream ⟨payment, periods, rate, .arrears⟩ = .ok opening ∧
      |(opening : ℚ) - Compounding.levelValue (payment : ℚ) rate.growth periods| ≤ 1 / 2 ∧
      (rate.num = 0 → opening = payment * periods) := by
  have hperiods : assertPeriodCount periods = .ok () := refuseIf_eq_ok.mpr (by omega)
  have hpositive : refuseIf (payment ≤ 0) (⟨"payment must be positive"⟩ : PresentValueError) =
      .ok () := refuseIf_eq_ok.mpr hpayment.not_ge
  rw [presentValueOfLevelStream, hperiods, ok_bind, hpositive, ok_bind]
  split_ifs with hzero
  · refine ⟨_, rfl, ?_, fun _ => rfl⟩
    have hgrowth : rate.growth = 1 := by
      rw [PeriodRate.growth, show rate.num = 0 from hzero]
      simp
    rw [hgrowth, Compounding.levelValue]
    simp
  · refine ⟨_, rfl, ?_, fun h => absurd h hzero⟩
    have hD : 0 < rate.den + rate.num := add_pos_of_pos_of_nonneg rate.den_pos rate.num_nonneg
    have hround := abs_roundDiv_sub_le (pow_pos hD periods)
      (∑ t ∈ Finset.Icc 1 periods, payment * rate.den ^ t * (rate.den + rate.num) ^ (periods - t))
    rwa [sum_over_common_denominator] at hround

theorem abs_carryOnce_sub_le (payment : ℤ) (rate : PeriodRate) (balance : ℤ) :
    |(carryOnce payment rate balance : ℚ) - (rate.growth * balance - payment)| ≤ 1 / 2 := by
  have hround := abs_roundDiv_sub_le rate.den_pos (balance * rate.num)
  have hden := rate.den_pos_rat.ne'
  have hsub : (carryOnce payment rate balance : ℚ) - (rate.growth * balance - payment) =
      (roundDiv (balance * rate.num) rate.den : ℚ) - ((balance * rate.num : ℤ) : ℚ) / rate.den := by
    simp only [carryOnce, periodInterest, PeriodRate.growth]
    push_cast
    ring
  rwa [hsub]

/-- **What the roundings come to.** After `n` periods the balance of a present value is off the
exact one by at most the compounded halves of a unit. -/
theorem abs_carriedBalance_sub_le
    (hopening : |(args.opening : ℚ) -
      Compounding.levelValue (args.payment : ℚ) args.rate.growth args.periods| ≤ 1 / 2)
    {n : ℕ} (hn : n ≤ args.periods) :
    |(carriedBalance args n : ℚ) -
        Compounding.levelValue (args.payment : ℚ) args.rate.growth (args.periods - n)| ≤
      1 / 2 * ∑ j ∈ Finset.range (n + 1), args.rate.growth ^ j := by
  refine Compounding.abs_le_mul_geomSum (E := fun k => (carriedBalance args k : ℚ) -
    Compounding.levelValue (args.payment : ℚ) args.rate.growth (args.periods - k))
    args.rate.growth_pos.le hopening fun k hk => ?_
  have hnext : carriedBalance args (k + 1) =
      carryOnce args.payment args.rate (carriedBalance args k) :=
    Function.iterate_succ_apply' _ _ _
  have hvalue : args.periods - k = args.periods - (k + 1) + 1 := by omega
  have hlevel := Compounding.mul_levelValue_succ args.rate.growth_pos.ne' (args.payment : ℚ)
    (args.periods - (k + 1))
  rw [← hvalue] at hlevel
  have hsub : (carriedBalance args (k + 1) : ℚ) -
        Compounding.levelValue (args.payment : ℚ) args.rate.growth (args.periods - (k + 1)) -
      args.rate.growth * ((carriedBalance args k : ℚ) -
        Compounding.levelValue (args.payment : ℚ) args.rate.growth (args.periods - k)) =
      (carryOnce args.payment args.rate (carriedBalance args k) : ℚ) -
        (args.rate.growth * carriedBalance args k - args.payment) := by
    rw [hnext]
    linarith
  rw [hsub]
  exact abs_carryOnce_sub_le _ _ _

theorem carriedBalance_of_num_zero (hzero : args.rate.num = 0)
    (hopening : args.opening = args.payment * args.periods) (n : ℕ) :
    carriedBalance args n = args.payment * args.periods - args.payment * n := by
  induction n with
  | zero => simpa [carriedBalance] using hopening
  | succ n ih =>
    have hinterest : periodInterest (carriedBalance args n) args.rate = 0 := by
      rw [periodInterest, hzero, mul_zero, roundDiv_eq_round, HalfAway.round_zero args.rate.den_pos]
    rw [carriedBalance, Function.iterate_succ_apply', ← carriedBalance, carryOnce, hinterest, ih]
    push_cast
    ring

theorem plugFits_of_num_zero (hfirst : 1 ≤ args.periods) (hzero : args.rate.num = 0)
    (hopening : args.opening = args.payment * args.periods) : PlugFits args := by
  have hbalance : carriedBalance args (args.periods - 1) = args.payment := by
    rw [carriedBalance_of_num_zero hzero hopening, Nat.cast_sub hfirst]
    push_cast
    ring
  have hinterest : periodInterest args.payment args.rate = 0 := by
    rw [periodInterest, hzero, mul_zero, roundDiv_eq_round, HalfAway.round_zero args.rate.den_pos]
  rw [PlugFits, hbalance, Closes, hinterest, sub_self, sub_self, abs_zero]
  omega

/-- **The plug fits where the compounded halves of a unit do**: within a cent a period, and
within the exact interest of the last period. -/
theorem plugFits_of_compounded (hfirst : 1 ≤ args.periods)
    (hopening : |(args.opening : ℚ) -
      Compounding.levelValue (args.payment : ℚ) args.rate.growth args.periods| ≤ 1 / 2)
    (htolerance : 1 / 2 * ∑ j ∈ Finset.range (args.periods + 1), args.rate.growth ^ j ≤
      args.periods * 100)
    (hinterest : 1 / 2 * ∑ j ∈ Finset.range args.periods, args.rate.growth ^ j ≤
      args.payment - args.payment / args.rate.growth) : PlugFits args := by
  have hbefore := abs_carriedBalance_sub_le hopening (n := args.periods - 1) (by omega)
  have hafter := abs_carriedBalance_sub_le hopening (n := args.periods) le_rfl
  rw [show args.periods - (args.periods - 1) = 1 by omega, show args.periods - 1 + 1 = args.periods
    by omega, Compounding.levelValue_one] at hbefore
  rw [Nat.sub_self, Compounding.levelValue, Finset.range_zero, Finset.sum_empty, mul_zero,
    sub_zero] at hafter
  have hlast : carriedBalance args args.periods =
      carryOnce args.payment args.rate (carriedBalance args (args.periods - 1)) := by
    conv_lhs => rw [show args.periods = args.periods - 1 + 1 by omega]
    exact Function.iterate_succ_apply' _ _ _
  constructor
  · have hle := (abs_le.mp hbefore).2
    have : (0 : ℚ) ≤ args.payment - carriedBalance args (args.periods - 1) := by linarith
    exact_mod_cast this
  · have hdrift : args.payment - carriedBalance args (args.periods - 1) -
        periodInterest (carriedBalance args (args.periods - 1)) args.rate =
          -carriedBalance args args.periods := by
      rw [hlast, carryOnce]
      ring
    have hle := hafter.trans htolerance
    rw [hdrift, abs_neg]
    exact_mod_cast hle

/-- **The accretion of a present value closes just when its plug fits**, and is refused by name
otherwise. The plug fits at no interest, and wherever the halves of a unit rounded off,
compounded, stay within the tolerance and the last period's exact interest. -/
theorem accreteToZero_closes {payment : ℤ} (hpayment : 0 < payment) {periods : ℕ}
    (hfirst : 1 ≤ periods) (hlast : periods ≤ MAX_PRESENT_VALUE_PERIODS) (rate : PeriodRate) :
    ∃ opening, presentValueOfLevelStream ⟨payment, periods, rate, .arrears⟩ = .ok opening ∧
      (PlugFits ⟨opening, payment, periods, rate⟩ →
        ∃ rows, accreteToZero ⟨opening, payment, periods, rate⟩ = .ok rows ∧
          Accretes payment opening (List.range' 1 periods) rows) ∧
      (¬PlugFits ⟨opening, payment, periods, rate⟩ →
        accreteToZero ⟨opening, payment, periods, rate⟩ =
          .error (plugRefusal ⟨opening, payment, periods, rate⟩
            (carriedBalance ⟨opening, payment, periods, rate⟩ (periods - 1)))) ∧
      (rate.num = 0 ∨
        (1 / 2 * ∑ j ∈ Finset.range (periods + 1), rate.growth ^ j ≤ periods * 100 ∧
          1 / 2 * ∑ j ∈ Finset.range periods, rate.growth ^ j ≤
            payment - payment / rate.growth) →
        PlugFits ⟨opening, payment, periods, rate⟩) := by
  obtain ⟨opening, hpv, hopening, hzero⟩ :=
    presentValueOfLevelStream_arrears hpayment hfirst hlast rate
  obtain ⟨hcloses, hrefused⟩ :=
    accreteToZero_spec ⟨opening, payment, periods, rate⟩ hfirst hlast
  refine ⟨opening, hpv, hcloses, hrefused, ?_⟩
  rintro (hnum | ⟨htolerance, hinterest⟩)
  · exact plugFits_of_num_zero hfirst hnum (hzero hnum)
  · exact plugFits_of_compounded hfirst hopening htolerance hinterest

def onePercent : PeriodRate := ⟨1, 100, zero_le_one, Nat.ofNat_pos⟩

theorem accreteToZero_closes_over_a_year :
    ∃ opening, presentValueOfLevelStream ⟨10000000, 12, onePercent, .arrears⟩ = .ok opening ∧
      ∃ rows, accreteToZero ⟨opening, 10000000, 12, onePercent⟩ = .ok rows ∧
        Accretes 10000000 opening (List.range' 1 12) rows := by
  obtain ⟨opening, hpv, hcloses, -, hfits⟩ := accreteToZero_closes
    (by decide : (0 : ℤ) < 10000000) (by decide : 1 ≤ 12) (by decide) onePercent
  refine ⟨opening, hpv, hcloses (hfits (.inr ⟨?_, ?_⟩))⟩ <;>
    norm_num [Finset.sum_range_succ, PeriodRate.growth, onePercent]

/-- A fifth a period. -/
def twentyPercent : PeriodRate := ⟨1, 5, zero_le_one, Nat.ofNat_pos⟩

theorem sixty_periods_at_twenty_percent_refused :
    ¬∀ (payment : ℤ) (periods : ℕ) (rate : PeriodRate), 0 < payment → 1 ≤ periods →
      periods ≤ MAX_PRESENT_VALUE_PERIODS →
      ∃ opening rows, presentValueOfLevelStream ⟨payment, periods, rate, .arrears⟩ = .ok opening ∧
        accreteToZero ⟨opening, payment, periods, rate⟩ = .ok rows ∧
        Accretes payment opening (List.range' 1 periods) rows := by
  intro h
  obtain ⟨opening, rows, hpv, hok, -⟩ := h 10000000 60 twentyPercent (by decide) (by decide)
    (by decide)
  have hopening : (presentValueOfLevelStream ⟨10000000, 60, twentyPercent, .arrears⟩).toOption =
      some 49999113 := by decide +kernel
  rw [hpv] at hopening
  obtain rfl := Option.some.inj hopening
  have hrefused : (accreteToZero ⟨49999113, 10000000, 60, twentyPercent⟩).isOk = false := by
    decide +kernel
  rw [hok] at hrefused
  cases hrefused

end OpenBooks
