import Mathlib.Data.List.Sort
import OpenBooks.Lib.Checked
import OpenBooks.Money.Units

/-!
# Deduction protection

A garnishment or a support order may take only a share of the pay it is measured against. Each
order names its base – gross pay, net pay or disposable earnings – and its share of it, and the
orders compete for one pool in the order of their priorities
(`DeductionProtection.applyDeductionProtection`): each takes what it asks for, up to
what its own ceiling leaves after the orders before it, and up to the cash that is left.

What an order takes lies between nothing and its request, and the orders are answered one by one
(`DeductionProtection.applied_answers`). The bases leave the protected orders
themselves out, so a pass does not see what an earlier pass took
(`DeductionProtection.protectedBase_append_protected`).
-/

namespace OpenBooks.DeductionProtection

open Checked List

/-! ### Amounts -/

/-- Ten-thousandths in a cent. -/
def CENT : ℤ := 100

/-- Truncate to whole cents, downwards. -/
def floorCents (units : ℤ) : ℤ :=
  let truncated := units.tdiv CENT * CENT
  if units < 0 ∧ truncated ≠ units then truncated - CENT else truncated

/-- A percentage of an amount, cut to the cent. -/
def percentFloorCents (amount percent : ℤ) : Except String ℤ := do
  let exact := amount * percent
  refuseIf (exact < 0) "a protection cap cannot be negative"
  return exact.tdiv (100 * SCALE * CENT) * CENT

def requireNonNegative (value : ℤ) (label : String) : Except String ℤ := do
  refuseIf (value < 0) (label ++ " cannot be negative")
  return value

def atLeastZero (value : ℤ) : ℤ := if 0 < value then value else 0

def lesser (a b : ℤ) : ℤ := if a ≤ b then a else b

theorem atLeastZero_nonneg (value : ℤ) : 0 ≤ atLeastZero value := by
  unfold atLeastZero
  split_ifs <;> omega

theorem lesser_eq_min (a b : ℤ) : lesser a b = min a b := by
  rw [lesser, min_def]

/-! ### The protected base -/

inductive LineKind
  | earning
  | deduction
  | employerContribution
  | credit
  deriving DecidableEq

inductive ProtectionBase
  | none
  | netPay
  | disposableEarnings
  | gross
  deriving DecidableEq

/-- A stub line as the protected base sees it. -/
structure DisposableEarningsLine where
  kind : LineKind
  amount : ℤ
  includeInDisposableEarnings : Bool
  accrualOnly : Bool
  nonCash : Bool
  protectedDeduction : Bool

def DisposableEarningsLine.signed (line : DisposableEarningsLine) : ℤ :=
  if line.accrualOnly then 0
  else if line.kind = .earning ∧ line.nonCash then 0
  else if ¬line.includeInDisposableEarnings then 0
  else
    match line.kind with
    | .earning => line.amount
    | .deduction => if line.protectedDeduction then 0 else -line.amount
    | .credit => line.amount
    | .employerContribution => 0

/-- The included earnings less the included, unprotected deductions. -/
def disposableEarnings (lines : List DisposableEarningsLine) : ℤ :=
  atLeastZero (lines.map DisposableEarningsLine.signed).sum

/-- Resolve a configured base into money. -/
def protectedBase (base : ProtectionBase) (lines : List DisposableEarningsLine) : ℤ :=
  let cashLines := lines.filter fun line => line.kind ≠ .earning ∨ ¬line.nonCash
  match base with
  | .none => 0
  | .gross =>
    atLeastZero ((lines.filter fun line => line.kind = .earning ∧ ¬line.accrualOnly).map
      DisposableEarningsLine.amount).sum
  | .netPay =>
    disposableEarnings (cashLines.map fun line => { line with includeInDisposableEarnings := true })
  | .disposableEarnings => disposableEarnings cashLines

theorem protectedBase_nonneg (base : ProtectionBase) (lines : List DisposableEarningsLine) :
    0 ≤ protectedBase base lines := by
  cases base with
  | none => exact le_rfl
  | netPay | disposableEarnings | gross => exact atLeastZero_nonneg _

/-- A line that stands for a protected order. -/
def DisposableEarningsLine.IsOrder (line : DisposableEarningsLine) : Prop :=
  line.kind = .deduction ∧ line.protectedDeduction = true

theorem DisposableEarningsLine.IsOrder.signed {line : DisposableEarningsLine} (h : line.IsOrder) :
    line.signed = 0 := by
  simp [DisposableEarningsLine.signed, h.1, h.2]

variable {orders : List DisposableEarningsLine}

theorem sum_signed_of_isOrder (h : ∀ line ∈ orders, line.IsOrder) :
    (orders.map DisposableEarningsLine.signed).sum = 0 :=
  sum_eq_zero fun x hx => by
    obtain ⟨line, hline, rfl⟩ := mem_map.mp hx
    exact (h line hline).signed

/-- **A base leaves the protected orders out**, whichever base it is. -/
theorem protectedBase_append_protected (base : ProtectionBase)
    (lines : List DisposableEarningsLine) (h : ∀ line ∈ orders, line.IsOrder) :
    protectedBase base (lines ++ orders) = protectedBase base lines := by
  have hcash : ∀ keep : DisposableEarningsLine → Bool,
      ((orders.filter keep).map DisposableEarningsLine.signed).sum = 0 := fun keep =>
    sum_signed_of_isOrder fun line hline => h line (mem_of_mem_filter hline)
  cases base with
  | none => rfl
  | netPay =>
    have hincluded : ∀ keep : DisposableEarningsLine → Bool,
        (((orders.filter keep).map fun line =>
          { line with includeInDisposableEarnings := true }).map
            DisposableEarningsLine.signed).sum = 0 := by
      intro keep
      refine sum_signed_of_isOrder fun line hline => ?_
      obtain ⟨original, horiginal, rfl⟩ := mem_map.mp hline
      exact h original (mem_of_mem_filter horiginal)
    simp only [protectedBase, disposableEarnings, filter_append, map_append,
      sum_append, hincluded, add_zero]
  | disposableEarnings =>
    simp only [protectedBase, disposableEarnings, filter_append, map_append,
      sum_append, hcash, add_zero]
  | gross =>
    have hnone : (orders.filter fun line => line.kind = .earning ∧ ¬line.accrualOnly) = [] := by
      refine filter_eq_nil_iff.mpr fun line hline => ?_
      simp [(h line hline).1]
    simp only [protectedBase, filter_append, hnone, append_nil]

/-! ### Protected deductions -/

/-- An order as the pool sees it. -/
structure ProtectedDeduction where
  key : ℕ
  requested : ℤ
  maxPercent : ℤ
  priority : ℤ
  base : ℤ
  exemptFloor : Option ℤ

structure AppliedDeduction where
  key : ℕ
  requested : ℤ
  amount : ℤ
  cap : ℤ
  deriving DecidableEq

/-- Which limit bound: the protected pool, or the pay that was left. -/
inductive ShortfallReason
  | protectedBase
  | insufficientPay
  deriving DecidableEq

structure PoolShortfall where
  key : ℕ
  requested : ℤ
  applied : ℤ
  shortfall : ℤ
  reason : ShortfallReason
  deriving DecidableEq

/-- What a pass has answered so far. -/
structure ProtectionResult where
  applied : List AppliedDeduction
  shortfalls : List PoolShortfall
  deriving DecidableEq

/-- An order's own ceiling. -/
def capOf (deduction : ProtectedDeduction) : Except String ℤ := do
  refuseIf (deduction.maxPercent < 0 ∨ 100 * SCALE < deduction.maxPercent)
    ("protection percent for " ++ toString deduction.key ++ " must be between 0 and 100")
  let ownBase ← requireNonNegative deduction.base "a protected base"
  let percentCap ← percentFloorCents ownBase deduction.maxPercent
  match deduction.exemptFloor with
  | none => return percentCap
  | some exemptFloor =>
    let exemptFloor ← requireNonNegative exemptFloor "an exempt floor"
    return lesser percentCap (floorCents (atLeastZero (ownBase - exemptFloor)))

/-- One order out of the pool: the answers so far and what they took. -/
def answerOrder (available : ℤ) (state : ProtectionResult × ℤ) (deduction : ProtectedDeduction) :
    Except String (ProtectionResult × ℤ) := do
  let requested ← requireNonNegative deduction.requested "a deduction"
  let cap ← capOf deduction
  let room := atLeastZero (cap - state.2)
  let cash := atLeastZero (available - state.2)
  let amount := lesser (lesser requested room) cash
  let applied := state.1.applied ++ [⟨deduction.key, requested, amount, cap⟩]
  let shortfalls :=
    if amount < requested then
      state.1.shortfalls ++ [⟨deduction.key, requested, amount, requested - amount,
        if room ≤ cash then .protectedBase else .insufficientPay⟩]
    else state.1.shortfalls
  return (⟨applied, shortfalls⟩, state.2 + amount)

/-- Apply protected deductions in priority order; equal priorities keep the input order. -/
def applyDeductionProtection (deductions : List ProtectedDeduction) (base available : ℤ) :
    Except String ProtectionResult := do
  let _ ← requireNonNegative base "a protected base"
  let available ← requireNonNegative available "available pay"
  let ordered := deductions.insertionSort fun a b => a.priority ≤ b.priority
  let state ← ordered.foldlM (answerOrder available) (⟨[], []⟩, 0)
  return state.1

/-- What an order is answered: its request, and an amount between nothing and it. -/
structure Answers (deduction : ProtectedDeduction) (answer : AppliedDeduction) : Prop where
  key : answer.key = deduction.key
  requested : answer.requested = deduction.requested
  nonneg : 0 ≤ answer.amount
  le_requested : answer.amount ≤ deduction.requested

variable {available : ℤ} {state state' : ProtectionResult × ℤ}

/-- **One order is answered within its request.** -/
theorem answerOrder_answers {deduction : ProtectedDeduction}
    (h : answerOrder available state deduction = .ok state') :
    ∃ answer, state'.1.applied = state.1.applied ++ [answer] ∧ Answers deduction answer := by
  simp only [answerOrder, requireNonNegative, bind_eq_ok, refuseIf_eq_ok, pure_eq_ok] at h
  obtain ⟨requested, ⟨-, hnonneg, rfl⟩, cap, -, rfl⟩ := h
  refine ⟨_, rfl, rfl, rfl, ?_, ?_⟩
  · simp only [lesser_eq_min, le_min_iff]
    exact ⟨⟨not_lt.mp hnonneg, atLeastZero_nonneg _⟩, atLeastZero_nonneg _⟩
  · simp only [lesser_eq_min]
    exact (min_le_left _ _).trans (min_le_left _ _)

variable {ordered : List ProtectedDeduction}

theorem foldlM_answerOrder (h : ordered.foldlM (answerOrder available) state = .ok state') :
    ∃ answers, state'.1.applied = state.1.applied ++ answers ∧
      List.Forall₂ Answers ordered answers := by
  induction ordered generalizing state with
  | nil =>
    obtain rfl := pure_eq_ok.mp h
    exact ⟨[], (append_nil _).symm, .nil⟩
  | cons deduction rest ih =>
    rw [foldlM_cons] at h
    obtain ⟨next, hnext, hrest⟩ := bind_eq_ok.mp h
    obtain ⟨answer, happlied, hanswer⟩ := answerOrder_answers hnext
    obtain ⟨answers, happlied', hanswers⟩ := ih hrest
    refine ⟨answer :: answers, ?_, .cons hanswer hanswers⟩
    rw [happlied', happlied, append_assoc, singleton_append]

variable {deductions : List ProtectedDeduction} {result : ProtectionResult}

/-- **Every order is answered once, within its request**, in the order of the priorities. -/
theorem applied_answers {base : ℤ}
    (h : applyDeductionProtection deductions base available = .ok result) :
    List.Forall₂ Answers (deductions.insertionSort fun a b => a.priority ≤ b.priority)
      result.applied := by
  simp only [applyDeductionProtection, bind_eq_ok, pure_eq_ok] at h
  obtain ⟨_, -, available, -, state, hstate, rfl⟩ := h
  obtain ⟨answers, happlied, hanswers⟩ := foldlM_answerOrder hstate
  rw [happlied, nil_append]
  exact hanswers

theorem keys_of_answers {answers : List AppliedDeduction}
    (h : List.Forall₂ Answers ordered answers) :
    answers.map AppliedDeduction.key = ordered.map ProtectedDeduction.key := by
  induction h with
  | nil => rfl
  | cons hanswer _ ih => rw [map_cons, map_cons, hanswer.key, ih]

theorem applied_keys {base : ℤ}
    (h : applyDeductionProtection deductions base available = .ok result) :
    (result.applied.map AppliedDeduction.key).Perm (deductions.map ProtectedDeduction.key) := by
  rw [keys_of_answers (applied_answers h)]
  exact (perm_insertionSort _ _).map _

end OpenBooks.DeductionProtection
