import OpenBooks.Lib.Checked
import OpenBooks.Lib.LargestFirst
import OpenBooks.Money.Units
import Mathlib.Data.List.Sort

/-!
# Apportionment

Splitting an amount over weights so that no unit is lost. `apportion` floors
every part and places what is left: on one part that absorbs it, or one unit at a time
on the largest remainders. `apportionTargets` is the allocation kernel's use
of it, which finds the absorber by the residual policy of a rule.

Weights are decimals of ten places and are kept as the integer they are ten-billionths
of (`WEIGHT_SCALE`).
-/

namespace OpenBooks

open Checked List

/-! ### The money kernel -/

/-- Where the units left over after flooring go. -/
inductive ApportionResidual
  | largestRemainder
  | largestRemainderLast
  | absorber (index : ℕ)

/-- The parts by remainder, largest first. -/
def remainderOrder (remainders : List ℤ) (last : Bool) : List ℕ :=
  (List.range remainders.length).insertionSort fun a b =>
    let ra := remainders.getD a 0
    let rb := remainders.getD b 0
    rb < ra ∨ (ra = rb ∧ if last then b ≤ a else a ≤ b)

/-- One `step` for each of the `count` parts with the largest remainders. -/
def dealLargestRemainder (parts remainders : List ℤ) (count : ℕ) (last : Bool) (step : ℤ) :
    List ℤ :=
  ((remainderOrder remainders last).take count).foldl
    (fun parts i => parts.modify i (· + step)) parts

def ApportionResidual.absorber? : ApportionResidual → Option ℕ
  | .absorber index => some index
  | _ => none

/-- Split a magnitude over weights of a positive sum. -/
def apportionMagnitude (magnitude : ℤ) (weights : List ℤ) (residual : ApportionResidual) : List ℤ :=
  let parts := weights.map fun w => magnitude * w / weights.sum
  let leftover := magnitude - parts.sum
  let remainders := weights.map fun w => magnitude * w % weights.sum
  match residual with
  | .absorber k => parts.modify k (· + leftover)
  | .largestRemainder => dealLargestRemainder parts remainders leftover.toNat false 1
  | .largestRemainderLast => dealLargestRemainder parts remainders leftover.toNat true 1

/-- Split `total` over `weights`, exactly; a negative total as its magnitude, negated. -/
def apportion (total : ℤ) (weights : List ℤ) (residual : ApportionResidual) :
    Except String (List ℤ) := do
  let negativeAt := weights.findIdx (· < 0)
  refuseIf (negativeAt < weights.length) ("apportion weight " ++ toString negativeAt ++
    " is negative (" ++ toString (weights.getD negativeAt 0) ++ "); weights must be zero or more")
  refuseIf (∃ k ∈ residual.absorber?, weights.length ≤ k) ("apportion absorber " ++
    toString (residual.absorber?.getD 0) ++ " is not one of the " ++ toString weights.length ++ " parts")
  if total = 0 then return weights.map fun _ => 0
  else do
    refuseIf (weights.sum = 0) ("cannot apportion " ++ toString total ++ " units over " ++
      toString weights.length ++ " parts whose weights sum to zero")
    return if total < 0 then (apportionMagnitude (-total) weights residual).map (- ·)
      else apportionMagnitude total weights residual

variable {weights : List ℤ}

theorem sum_apportionMagnitude_absorber (m : ℤ) {k : ℕ} (hk : k < weights.length) :
    (apportionMagnitude m weights (.absorber k)).sum = m ∧
      (apportionMagnitude m weights (.absorber k)).length = weights.length := by
  refine ⟨?_, by simp [apportionMagnitude]⟩
  rw [apportionMagnitude, LargestFirst.sum_modify_add _ (by simpa using hk)]
  ring

theorem length_dealLargestRemainder (parts remainders : List ℤ) (count : ℕ) (last : Bool)
    (step : ℤ) : (dealLargestRemainder parts remainders count last step).length = parts.length :=
  LargestFirst.length_foldl_modify _ _ parts

variable {total : ℤ} {amounts : List ℤ}

/-- A split has one part for each weight. -/
theorem length_apportion {residual : ApportionResidual}
    (h : apportion total weights residual = .ok amounts) : amounts.length = weights.length := by
  have hmagnitude : ∀ m, (apportionMagnitude m weights residual).length = weights.length := by
    intro m
    cases residual <;> simp [apportionMagnitude, length_dealLargestRemainder]
  simp only [apportion, bind_eq_ok, refuseIf_eq_ok] at h
  obtain ⟨_, -, _, -, h⟩ := h
  by_cases hzero : total = 0
  · rw [if_pos hzero] at h
    obtain rfl := pure_eq_ok.mp h
    exact length_map _
  · rw [if_neg hzero] at h
    simp only [bind_eq_ok, pure_eq_ok] at h
    obtain ⟨_, -, rfl⟩ := h
    split_ifs <;> simp [hmagnitude]

/-- **A split with an absorber loses nothing.** -/
theorem sum_apportion_absorber {k : ℕ} (h : apportion total weights (.absorber k) = .ok amounts) :
    amounts.sum = total ∧ amounts.length = weights.length := by
  simp only [apportion, bind_eq_ok, refuseIf_eq_ok] at h
  obtain ⟨_, -, _, hk, h⟩ := h
  have hk : k < weights.length := by simpa [ApportionResidual.absorber?] using hk
  by_cases hzero : total = 0
  · rw [if_pos hzero] at h
    obtain rfl := pure_eq_ok.mp h
    simp [hzero]
  · rw [if_neg hzero] at h
    simp only [bind_eq_ok, pure_eq_ok] at h
    obtain ⟨_, -, rfl⟩ := h
    split_ifs
    · obtain ⟨hsum, hlen⟩ := sum_apportionMagnitude_absorber (-total) hk
      refine ⟨?_, by simpa using hlen⟩
      rw [← sum_neg, hsum, neg_neg]
    · exact sum_apportionMagnitude_absorber total hk

/-! ### Keyed targets -/

/-- Ten-billionths in one unit of weight. -/
def WEIGHT_SCALE : ℤ := 10000000000

/-- One hundred percent, in ten-thousandths. -/
def PERCENT_HUNDRED_UNITS : ℤ := 1000000

inductive ApportionCode
  | duplicateKey
  | weightNegative
  | remainderCount
  | noTargets
  | residualUnknown
  | residualMissing
  | noDriverWeight
  | fixedPercentMissing
  | fixedPercentRange
  | fixedPercentSum
  | steppedTiers
  | kernel
  deriving DecidableEq

/-- A refusal of an apportionment. Numbers come parsed: where the source quotes one as it was
written, its canonical spelling is quoted, and that of a negative weight is left out. -/
structure AllocationApportionError where
  code : ApportionCode
  message : String
  deriving DecidableEq

inductive AllocationResidualPolicy
  | largestShare
  | firstTarget
  | lastTarget
  | explicitTarget
  deriving DecidableEq

structure WeightedTarget where
  key : String
  weight : ℤ
  isRemainder : Bool
  deriving DecidableEq

/-- One target with its part. -/
structure ApportionedTarget where
  key : String
  weight : ℤ
  share : String
  amount : ℤ
  residual : ℤ
  deriving DecidableEq

structure ApportionResult where
  total : ℤ
  weightTotal : ℤ
  targets : List ApportionedTarget
  residualKey : Option String
  deriving DecidableEq

/-- A share as text of ten places. -/
def formatShare10 (weightUnits weightTotalUnits : ℤ) : String :=
  let quanta := roundDiv (weightUnits * WEIGHT_SCALE) weightTotalUnits
  toString (quanta / WEIGHT_SCALE) ++ "." ++ padStart 10 '0' (toString (quanta % WEIGHT_SCALE))

/-- The first key that was seen before. -/
def duplicateKey (seen : List String) : List String → Option String
  | [] => none
  | key :: keys => if key ∈ seen then some key else duplicateKey (key :: seen) keys

/-- The heaviest target, ties to the earliest. -/
def heaviest (first : WeightedTarget) (weights : List WeightedTarget) : WeightedTarget :=
  weights.foldl (fun best w => if best.weight < w.weight then w else best) first

/-- Who absorbs what is left over. -/
def absorberKey (first last : WeightedTarget) (weights : List WeightedTarget)
    (residualPolicy : AllocationResidualPolicy) (residualKey : Option String) :
    Except AllocationApportionError String :=
  let soleRemainder := weights.find? WeightedTarget.isRemainder
  match residualPolicy, residualKey, soleRemainder with
  | .explicitTarget, some key, _ => do
    refuseIf (key ∉ weights.map WeightedTarget.key) (⟨.residualUnknown,
      "explicit residual target does not exist: \"" ++ key ++ "\""⟩ : AllocationApportionError)
    return key
  | .explicitTarget, none, some remainder => .ok remainder.key
  | .explicitTarget, none, none => .error ⟨.residualMissing,
    "explicit_target residual policy needs a residual target key"⟩
  | _, _, some remainder => .ok remainder.key
  | .firstTarget, _, none => .ok first.key
  | .lastTarget, _, none => .ok last.key
  | .largestShare, _, none => .ok (heaviest first weights).key

/-- A target with its amount. The memo of the absorber is what it holds beyond its own
share, floored toward zero. -/
def apportionedTarget (total weightTotal : ℤ) (absorberIndex index : ℕ) (p : WeightedTarget × ℤ) :
    ApportionedTarget where
  key := p.1.key
  weight := p.1.weight
  share := formatShare10 p.1.weight weightTotal
  amount := p.2
  residual := if index = absorberIndex then p.2 - (total * p.1.weight).tdiv weightTotal else 0

/-- Apportion a total over keyed targets. -/
def apportionTargets (total : ℤ) (weights : List WeightedTarget)
    (residualPolicy : AllocationResidualPolicy) (residualKey : Option String) :
    Except AllocationApportionError ApportionResult := do
  let duplicate := duplicateKey [] (weights.map WeightedTarget.key)
  refuseIf (duplicate.isSome) (⟨.duplicateKey,
    "duplicate apportion target key: \"" ++ duplicate.getD "" ++ "\""⟩ : AllocationApportionError)
  refuseIf (∃ w ∈ weights, w.weight < 0) (⟨.weightNegative,
    "weight for target \"" ++ ((weights.find? fun w => w.weight < 0).map WeightedTarget.key).getD "" ++
      "\" is negative"⟩ : AllocationApportionError)
  refuseIf (1 < (weights.filter WeightedTarget.isRemainder).length) (⟨.remainderCount,
    "at most one apportion target may take the remainder"⟩ : AllocationApportionError)
  match weights.head?, weights.getLast? with
  | some first, some last => do
    let absorber ← absorberKey first last weights residualPolicy residualKey
    let weightTotal := (weights.map WeightedTarget.weight).sum
    refuseIf (weightTotal = 0) (⟨.noDriverWeight,
      "every target weight is zero, so there is no basis to apportion " ++ fromUnits total ++
      " — record the driver values for the period being allocated, or change the rule's basis or target weights"⟩ :
      AllocationApportionError)
    let absorberIndex := weights.findIdx fun w => w.key = absorber
    let amounts ← (apportion total (weights.map WeightedTarget.weight) (.absorber absorberIndex)).mapError
      fun message => (⟨.kernel, message⟩ : AllocationApportionError)
    return ⟨total, weightTotal,
      (weights.zip amounts).mapIdx (apportionedTarget total weightTotal absorberIndex), some absorber⟩
  | _, _ => do
    refuseIf (total ≠ 0) (⟨.noTargets, "cannot apportion " ++ fromUnits total ++
      " over zero targets"⟩ : AllocationApportionError)
    return ⟨total, 0, [], none⟩

theorem map_mapIdx_of_forall {α β γ : Type} {f : ℕ → α → β} {g : β → γ} {k : α → γ}
    (h : ∀ i a, g (f i a) = k a) {xs : List α} : (xs.mapIdx f).map g = xs.map k := by
  refine ext_getElem? fun i => ?_
  simp only [getElem?_map, getElem?_mapIdx, Option.map_map]
  exact congrArg (fun l => Option.map l xs[i]?) (funext fun a => h i a)

/-- **Apportioned targets make up the total**, one for each weighted target. -/
theorem sum_apportionTargets {weights : List WeightedTarget}
    {residualPolicy : AllocationResidualPolicy} {residualKey : Option String}
    {result : ApportionResult}
    (h : apportionTargets total weights residualPolicy residualKey = .ok result) :
    (result.targets.map ApportionedTarget.amount).sum = total ∧
      result.targets.length = weights.length := by
  simp only [apportionTargets, bind_eq_ok, refuseIf_eq_ok] at h
  obtain ⟨_, -, _, -, _, -, h⟩ := h
  split at h
  · simp only [bind_eq_ok, refuseIf_eq_ok, pure_eq_ok] at h
    obtain ⟨absorber, -, _, -, amounts, hamounts, rfl⟩ := h
    cases hkernel : apportion total (weights.map WeightedTarget.weight)
        (.absorber (weights.findIdx fun w => w.key = absorber)) with
    | error message =>
      rw [hkernel] at hamounts
      cases hamounts
    | ok parts =>
      rw [hkernel] at hamounts
      obtain rfl : parts = amounts := Except.ok.inj hamounts
      obtain ⟨hsum, hlen⟩ := sum_apportion_absorber hkernel
      rw [length_map] at hlen
      refine ⟨?_, by simp [hlen]⟩
      have hamount : ∀ weightTotal k, ((weights.zip parts).mapIdx
          (apportionedTarget total weightTotal k)).map ApportionedTarget.amount =
            (weights.zip parts).map Prod.snd := by
        intro weightTotal k
        refine map_mapIdx_of_forall fun i p => ?_
        rfl
      rw [hamount, map_snd_zip hlen.le, hsum]
  · rename_i hempty
    simp only [bind_eq_ok, refuseIf_eq_ok, pure_eq_ok, not_not] at h
    obtain ⟨_, htotal, rfl⟩ := h
    cases weights with
    | nil => exact ⟨htotal.symm, rfl⟩
    | cons w ws =>
      obtain ⟨last, hlast⟩ := Option.isSome_iff_exists.mp
        (getLast?_isSome.mpr (cons_ne_nil w ws))
      exact absurd hlast (hempty w last rfl)

end OpenBooks
