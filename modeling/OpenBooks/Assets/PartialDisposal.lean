import OpenBooks.Lib.Checked
import OpenBooks.Money.Units

/-!
# Disposing of a part of an asset

`PartialDisposal.measurePartialDisposal` takes a portion out of an asset: of its cost, its
accumulated depreciation and its residual value. A portion is a percentage of the whole or a
component measured on its own, and what is taken and what is left must both be assets again.

A percentage rounds the three amounts one by one. Rounding is monotone, so no share passes its own
amount and the shares keep the order of cost and accumulated depreciation; but the shares of
accumulated depreciation and residual value together are not one rounding, and they may pass the
share of the cost, or leave more than is left of it. This is the one way in which a percentage is
refused, and whether it is taken shows in the parts of a ledger unit that the two exact shares end
in (`PartialDisposal.percent_disposes_iff`).
-/

namespace OpenBooks.PartialDisposal

open Checked HalfAway

/-! ### The measurement -/

inductive DisposalError
  | notLedgerAmount (name : String)
  | amounts
  | percentage
  | component

def DisposalError.message : DisposalError → String
  | .notLedgerAmount name => name ++ " must be an exact ledger amount"
  | .amounts => "disposal requires a positive cost and non-negative carrying amounts and proceeds"
  | .percentage => "disposed percentage must be greater than zero and at most 100"
  | .component => "component amounts must leave valid cost, accumulated depreciation and " ++
      "residual value on both portions"

/-- An amount of at most fifteen whole digits. -/
def money (value : ℤ) (name : String) : Except DisposalError ℤ :=
  if 10 ^ 19 ≤ |value| then .error (.notLedgerAmount name) else .ok value

/-- What is disposed of: a percentage, in ten-thousandths, or measured amounts. -/
inductive Portion
  | percent (percent : ℤ)
  | component (cost accumulated salvage : ℤ)

structure DisposalArgs where
  cost : ℤ
  accumulated : ℤ
  salvage : ℤ
  proceeds : ℤ
  portion : Portion

structure Disposal where
  removedCost : ℤ
  removedAccumulated : ℤ
  removedSalvage : ℤ
  removedCarrying : ℤ
  remainingCost : ℤ
  remainingAccumulated : ℤ
  remainingSalvage : ℤ
  proceeds : ℤ
  gainLoss : ℤ
  full : Bool

def HUNDRED : ℤ := 1000000

def removedAmounts (cost accumulated salvage : ℤ) : Portion → Except DisposalError (ℤ × ℤ × ℤ)
  | .percent percent => do
    let pct ← money percent "disposed percentage"
    refuseIf (pct ≤ 0 ∨ HUNDRED < pct) .percentage
    return (mulRatio cost pct HUNDRED, mulRatio accumulated pct HUNDRED,
      mulRatio salvage pct HUNDRED)
  | .component cost accumulated salvage => do
    let removedCost ← money cost "component cost"
    let removedAccumulated ← money accumulated "component accumulated depreciation"
    let removedSalvage ← money salvage "component residual value"
    return (removedCost, removedAccumulated, removedSalvage)

def measurePartialDisposal (args : DisposalArgs) : Except DisposalError Disposal := do
  let cost ← money args.cost "cost"
  let accumulated ← money args.accumulated "accumulated depreciation"
  let salvage ← money args.salvage "residual value"
  let proceeds ← money args.proceeds "proceeds"
  refuseIf (cost ≤ 0 ∨ accumulated < 0 ∨ cost < accumulated ∨ salvage < 0 ∨ proceeds < 0) .amounts
  let (removedCost, removedAccumulated, removedSalvage) ←
    removedAmounts cost accumulated salvage args.portion
  let remainingCost := cost - removedCost
  let remainingAccumulated := accumulated - removedAccumulated
  let remainingSalvage := salvage - removedSalvage
  refuseIf (removedCost ≤ 0 ∨ cost < removedCost ∨ removedAccumulated < 0 ∨
    accumulated < removedAccumulated ∨ removedCost < removedAccumulated ∨ removedSalvage < 0 ∨
    salvage < removedSalvage ∨ removedCost - removedAccumulated < removedSalvage ∨
    remainingAccumulated < 0 ∨ remainingCost < remainingAccumulated ∨
    remainingCost - remainingAccumulated < remainingSalvage) .component
  let removedCarrying := removedCost - removedAccumulated
  return ⟨removedCost, removedAccumulated, removedSalvage, removedCarrying, remainingCost,
    remainingAccumulated, remainingSalvage, proceeds, proceeds - removedCarrying,
    remainingCost = 0⟩

/-! ### What a disposal has to be -/

/-- Amounts that an asset can have. -/
structure IsAsset (cost accumulated salvage : ℤ) : Prop where
  accumulated_nonneg : 0 ≤ accumulated
  salvage_nonneg : 0 ≤ salvage
  covered : accumulated + salvage ≤ cost

/-- The asset is parted into two. -/
structure Disposes (args : DisposalArgs) (d : Disposal) : Prop where
  cost : d.removedCost + d.remainingCost = args.cost
  accumulated : d.removedAccumulated + d.remainingAccumulated = args.accumulated
  salvage : d.removedSalvage + d.remainingSalvage = args.salvage
  removed : IsAsset d.removedCost d.removedAccumulated d.removedSalvage
  remaining : IsAsset d.remainingCost d.remainingAccumulated d.remainingSalvage
  gainLoss : d.gainLoss = args.proceeds - (d.removedCost - d.removedAccumulated)

/-- A percentage of an amount, rounded to the ledger unit. -/
def share (pct amount : ℤ) : ℤ := mulRatio amount pct HUNDRED

/-- What the cost is more than accumulated depreciation and residual value: the rounded shares
have some of it, none or all, but no more and no less. -/
def SharesInOrder (cost accumulated salvage pct : ℤ) : Prop :=
  0 ≤ share pct cost - (share pct accumulated + share pct salvage) ∧
    share pct cost - (share pct accumulated + share pct salvage) ≤ cost - (accumulated + salvage)

/-- The part of a ledger unit that the exact share of an amount ends in, in millionths. -/
def shareFraction (pct amount : ℤ) : ℤ := amount * pct % HUNDRED

/-- Accumulated depreciation and residual value both round up, and with the share of the rest of
the cost their fractions stay below a unit and a half, which is rounded to one. -/
def RoundUpTogether (cost accumulated salvage pct : ℤ) : Prop :=
  HUNDRED ≤ 2 * shareFraction pct accumulated ∧ HUNDRED ≤ 2 * shareFraction pct salvage ∧
    2 * (shareFraction pct accumulated + shareFraction pct salvage +
      (cost - accumulated - salvage) * pct) < 3 * HUNDRED

/-- Both round down, and their fractions are half a unit or more over what is kept of the rest of
the cost. -/
def RoundDownTogether (cost accumulated salvage pct : ℤ) : Prop :=
  2 * shareFraction pct accumulated < HUNDRED ∧ 2 * shareFraction pct salvage < HUNDRED ∧
    HUNDRED + 2 * ((cost - accumulated - salvage) * (HUNDRED - pct)) ≤
      2 * (shareFraction pct accumulated + shareFraction pct salvage)

instance (cost accumulated salvage pct : ℤ) :
    Decidable (RoundUpTogether cost accumulated salvage pct) :=
  inferInstanceAs (Decidable (_ ∧ _))

instance (cost accumulated salvage pct : ℤ) :
    Decidable (RoundDownTogether cost accumulated salvage pct) :=
  inferInstanceAs (Decidable (_ ∧ _))

/-! ### Shares of one amount -/

section

variable {pct a b : ℤ}

theorem HUNDRED_pos : 0 < HUNDRED := by decide

theorem share_eq_round (pct a : ℤ) : share pct a = round (a * pct) HUNDRED := roundDiv_eq_round _ _

theorem share_mono (hpct : 0 ≤ pct) (h : a ≤ b) : share pct a ≤ share pct b := by
  rw [share_eq_round, share_eq_round]
  exact round_mono HUNDRED_pos (mul_le_mul_of_nonneg_right h hpct)

theorem share_nonneg (hpct : 0 ≤ pct) (ha : 0 ≤ a) : 0 ≤ share pct a := by
  rw [share_eq_round]
  exact round_nonneg HUNDRED_pos (mul_nonneg ha hpct)

theorem share_sub_share_le (hpct : 0 ≤ pct ∧ pct ≤ HUNDRED) (ha : 0 ≤ a) (h : a ≤ b) :
    share pct b - share pct a ≤ b - a := by
  have hle : b * pct ≤ a * pct + (b - a) * HUNDRED := by
    have := mul_le_mul_of_nonneg_left hpct.2 (sub_nonneg.mpr h)
    linarith
  have hshift := round_add_mul_of_nonneg HUNDRED_pos (mul_nonneg ha hpct.1)
    (add_nonneg (mul_nonneg ha hpct.1) (mul_nonneg (sub_nonneg.mpr h) HUNDRED_pos.le))
  have hmono := round_mono HUNDRED_pos hle
  rw [hshift] at hmono
  rw [share_eq_round, share_eq_round]
  linarith

theorem share_le (hpct : 0 ≤ pct ∧ pct ≤ HUNDRED) (ha : 0 ≤ a) : share pct a ≤ a := by
  have h := share_sub_share_le hpct le_rfl ha
  have hzero : share pct 0 = 0 := by rw [share_eq_round, zero_mul, round_zero HUNDRED_pos]
  omega

end

/-- **The shares keep their order** unless the fractions of the two round the same way, and one
rounding of their sum with the rest goes the other. -/
theorem sharesInOrder_iff {cost accumulated salvage pct : ℤ}
    (hasset : IsAsset cost accumulated salvage) (hpct : 0 ≤ pct ∧ pct ≤ HUNDRED) :
    SharesInOrder cost accumulated salvage pct ↔
      ¬RoundUpTogether cost accumulated salvage pct ∧
        ¬RoundDownTogether cost accumulated salvage pct := by
  obtain ⟨hacc, hsal, hcovered⟩ := hasset
  obtain ⟨rest, rfl⟩ : ∃ rest, cost = accumulated + salvage + rest :=
    ⟨cost - accumulated - salvage, by ring⟩
  have hround : ∀ {amount : ℤ}, 0 ≤ amount →
      share pct amount = (amount * pct + HUNDRED / 2) / HUNDRED := fun h => by
    rw [share_eq_round, round_of_nonneg (mul_nonneg h hpct.1)]
  have hsplit : (accumulated + salvage + rest) * pct =
      accumulated * pct + salvage * pct + rest * pct := by ring
  have hkept : rest * (HUNDRED - pct) = rest * HUNDRED - rest * pct := by ring
  have hrest : 0 ≤ rest * pct ∧ 0 ≤ rest * (HUNDRED - pct) :=
    ⟨mul_nonneg (by omega) hpct.1, mul_nonneg (by omega) (by omega)⟩
  unfold SharesInOrder RoundUpTogether RoundDownTogether shareFraction
  rw [hround hacc, hround hsal, hround (by omega : 0 ≤ accumulated + salvage + rest), hsplit,
    show accumulated + salvage + rest - accumulated - salvage = rest by ring]
  rw [hkept] at hrest ⊢
  -- what is left is about the remainders of three numbers
  generalize accumulated * pct = a, salvage * pct = s, rest * pct = r at hrest ⊢
  unfold HUNDRED at *
  omega

/-! ### When a percentage is disposed of -/

theorem money_eq_ok {value amount : ℤ} {name : String} (h : |value| < 10 ^ 19) :
    money value name = .ok amount ↔ amount = value := by
  rw [money, if_neg (not_le.mpr h), Except.ok.injEq, eq_comm]

theorem measure_percent_eq_ok {cost accumulated salvage proceeds pct : ℤ} {d : Disposal}
    (hcost : 0 < cost) (hledger : cost < 10 ^ 19) (hasset : IsAsset cost accumulated salvage)
    (hproceeds : 0 ≤ proceeds ∧ proceeds < 10 ^ 19) (hpct : 0 < pct ∧ pct ≤ HUNDRED)
    (hremoved : 0 < share pct cost) :
    measurePartialDisposal ⟨cost, accumulated, salvage, proceeds, .percent pct⟩ = .ok d ↔
      SharesInOrder cost accumulated salvage pct ∧
        d = ⟨share pct cost, share pct accumulated, share pct salvage,
          share pct cost - share pct accumulated, cost - share pct cost,
          accumulated - share pct accumulated, salvage - share pct salvage, proceeds,
          proceeds - (share pct cost - share pct accumulated), cost - share pct cost = 0⟩ := by
  obtain ⟨hacc, hsal, hcovered⟩ := hasset
  have hpct' : 0 ≤ pct ∧ pct ≤ HUNDRED := ⟨hpct.1.le, hpct.2⟩
  have hsmall : pct < 10 ^ 19 := hpct.2.trans_lt (by decide)
  have hC := share_le hpct' hcost.le
  have hA := share_le hpct' hacc
  have hS := share_le hpct' hsal
  have hA₀ := share_nonneg hpct'.1 hacc
  have hS₀ := share_nonneg hpct'.1 hsal
  have hAC := share_mono hpct'.1 (show accumulated ≤ cost by omega)
  have hleft := share_sub_share_le hpct' hacc (show accumulated ≤ cost by omega)
  have hmoney : ∀ {value amount : ℤ} {name : String}, 0 ≤ value → value < 10 ^ 19 →
      (money value name = .ok amount ↔ amount = value) := fun h h' =>
    money_eq_ok (by rwa [abs_of_nonneg h])
  have hamounts : ¬(cost ≤ 0 ∨ accumulated < 0 ∨ cost < accumulated ∨ salvage < 0 ∨
      proceeds < 0) := by omega
  have hpercent : ¬(pct ≤ 0 ∨ HUNDRED < pct) := by omega
  -- Of the eleven comparisons only the two of the sums are not settled by monotonicity.
  have hguard : ¬(share pct cost ≤ 0 ∨ cost < share pct cost ∨ share pct accumulated < 0 ∨
      accumulated < share pct accumulated ∨ share pct cost < share pct accumulated ∨
      share pct salvage < 0 ∨ salvage < share pct salvage ∨
      share pct cost - share pct accumulated < share pct salvage ∨
      accumulated - share pct accumulated < 0 ∨
      cost - share pct cost < accumulated - share pct accumulated ∨
      cost - share pct cost - (accumulated - share pct accumulated) <
        salvage - share pct salvage) ↔ SharesInOrder cost accumulated salvage pct := by
    rw [SharesInOrder]
    omega
  unfold measurePartialDisposal removedAmounts
  simp only [bind_eq_ok, refuseIf_eq_ok, pure_eq_ok, hmoney hcost.le hledger,
    hmoney hacc (show accumulated < 10 ^ 19 by omega),
    hmoney hsal (show salvage < 10 ^ 19 by omega), hmoney hproceeds.1 hproceeds.2,
    hmoney hpct'.1 hsmall, exists_eq_left, exists_eq_left', exists_const, hamounts, hpercent,
    not_false_eq_true, true_and, eq_comm (b := d)]
  exact and_congr hguard Iff.rfl

/-- **A percentage of an asset is disposed of** unless the fractions of a ledger unit in its
accumulated depreciation and its residual value round the same way, and their sum does not. -/
theorem percent_disposes_iff {cost accumulated salvage proceeds pct : ℤ} (hcost : 0 < cost)
    (hledger : cost < 10 ^ 19) (hasset : IsAsset cost accumulated salvage)
    (hproceeds : 0 ≤ proceeds ∧ proceeds < 10 ^ 19) (hpct : 0 < pct ∧ pct ≤ HUNDRED)
    (hremoved : 0 < share pct cost) :
    (∃ d, measurePartialDisposal ⟨cost, accumulated, salvage, proceeds, .percent pct⟩ = .ok d ∧
        Disposes ⟨cost, accumulated, salvage, proceeds, .percent pct⟩ d) ↔
      ¬RoundUpTogether cost accumulated salvage pct ∧
        ¬RoundDownTogether cost accumulated salvage pct := by
  have hrun := @measure_percent_eq_ok cost accumulated salvage proceeds pct
  rw [← sharesInOrder_iff hasset ⟨hpct.1.le, hpct.2⟩]
  constructor
  · rintro ⟨d, hd, -⟩
    exact ((hrun hcost hledger hasset hproceeds hpct hremoved).mp hd).1
  · intro horder
    refine ⟨_, (hrun hcost hledger hasset hproceeds hpct hremoved).mpr ⟨horder, rfl⟩, ?_⟩
    obtain ⟨hacc, hsal, hcovered⟩ := hasset
    have hpct' : 0 ≤ pct ∧ pct ≤ HUNDRED := ⟨hpct.1.le, hpct.2⟩
    have hA := share_le hpct' hacc
    have hS := share_le hpct' hsal
    obtain ⟨htaken, hleft⟩ := horder
    exact
      { cost := by ring
        accumulated := by ring
        salvage := by ring
        removed := ⟨share_nonneg hpct'.1 hacc, share_nonneg hpct'.1 hsal, by linarith⟩
        remaining := ⟨by simpa using hA, by simpa using hS, by linarith⟩
        gainLoss := rfl }

theorem percent_disposes_third :
    (0 < share 333333 9999999 ∧ ¬RoundUpTogether 9999999 3333333 1234567 333333 ∧
        ¬RoundDownTogether 9999999 3333333 1234567 333333) ∧
      ∃ d, measurePartialDisposal ⟨9999999, 3333333, 1234567, 0, .percent 333333⟩ = .ok d ∧
        Disposes ⟨9999999, 3333333, 1234567, 0, .percent 333333⟩ d :=
  ⟨by decide, (percent_disposes_iff (by decide) (by decide) ⟨by decide, by decide, by decide⟩
    (by decide) (by decide) (by decide)).mpr (by decide)⟩

/-- Two ledger units of cost, one depreciated and one residual: each half rounds up to a unit, and
the shares no longer fit in the half of the cost. -/
theorem half_refused :
    ¬∀ cost accumulated salvage proceeds pct : ℤ, 0 < cost → cost < 10 ^ 19 →
      IsAsset cost accumulated salvage → 0 ≤ proceeds ∧ proceeds < 10 ^ 19 →
      0 < pct ∧ pct ≤ HUNDRED → 0 < share pct cost →
      ∃ d, measurePartialDisposal ⟨cost, accumulated, salvage, proceeds, .percent pct⟩ = .ok d ∧
        Disposes ⟨cost, accumulated, salvage, proceeds, .percent pct⟩ d := by
  intro h
  obtain ⟨d, hd, -⟩ := h 2 1 1 0 500000 (by decide) (by decide) ⟨by decide, by decide, by decide⟩
    (by decide) (by decide) (by decide)
  have hrefused : measurePartialDisposal ⟨2, 1, 1, 0, .percent 500000⟩ = .error .component := by
    rfl
  rw [hrefused] at hd
  cases hd

end OpenBooks.PartialDisposal
