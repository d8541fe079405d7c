import OpenBooks.Lib.Checked
import OpenBooks.Lib.CodeUnits
import OpenBooks.Lib.ListSum
import OpenBooks.Lib.Pour
import OpenBooks.Money.Units
import Mathlib.Data.List.Sort

/-!
# Intercompany netting

Two entities of a pair hold open items and due positions against each other. `allocatePairNetting`
first nets inside each entity – what it is owed against what it owes, oldest first, up to the
smaller of the two – and then moves cash between the entities, up to the smaller of what the
receiver is still owed and what the payer still owes.

Both sweeps clear components in one settlement order (`settlesBefore`) and write to one map of what
remains open. A sweep is a `Pour.taken` (`clearLoop_eq`), the second one goes on where the first one
stopped, and so a component of one entity and sign is touched only when all before it are cleared.

Amounts are integers of ten-thousandths. A map from identities to amounts is a function with value
zero where the map has no entry (`?? 0n`), except for the map of open amounts, whose entries are
looked for.
-/

namespace OpenBooks

open Checked CodeUnits

/-! ### Components -/

inductive NettingComponentKind
  | openItem
  | duePosition
  deriving DecidableEq

/-- An open item or a running due position of one entity against the other. Amounts are
signed from the entity's own point of view, owed to it positive. -/
structure NettingComponent where
  key : String
  pairId : String
  subsidiaryId : String
  counterpartySubsidiaryId : String
  currency : String
  functionalCurrency : String
  component : NettingComponentKind
  accountId : String
  journalLineId : Option String
  documentId : Option String
  partyId : Option String
  openTransaction : ℤ
  openCarrying : ℤ
  sortKey : String
  deriving DecidableEq

/-- A component with what a run clears of it. -/
structure NettingAllocation extends NettingComponent where
  netted : ℤ
  cash : ℤ
  rate : ℤ
  carryingCleared : ℤ
  spotCleared : ℤ
  realizedFx : ℤ

structure NettingPairResult where
  pairId : String
  currency : String
  fromSubsidiaryId : String
  toSubsidiaryId : String
  fromNet : ℤ
  toNet : ℤ
  unreconciled : ℤ
  fromNetted : ℤ
  toNetted : ℤ
  cashToFrom : ℤ
  allocations : List NettingAllocation

inductive NettingMathError
  | sameEntity
  | repeatedIdentity
  | otherPair
  | neitherEntity
  | notCounterparty
  | oppositeSign (component : NettingComponentKind) (key : String)
  | exceededOpen
  | settlementExceedsOpen
  deriving DecidableEq

def NettingMathError.message : NettingMathError → String
  | .sameEntity => "a netting pair must contain two different entities"
  | .repeatedIdentity => "a netting component identity must occur only once"
  | .otherPair =>
    "a netting component does not belong to the pair and currency being allocated"
  | .neitherEntity => "a netting component belongs to neither entity of the pair"
  | .notCounterparty => "a netting component must identify the other entity of its pair"
  | .oppositeSign component key =>
    (if component = .openItem then "open item" else "intercompany position") ++ " " ++ key ++
      " carries a functional amount of the opposite sign to its transaction amount"
  | .exceededOpen => "netting allocation exceeded the open amounts it was computed from"
  | .settlementExceedsOpen => "a settlement cannot exceed the open amount"

/-! ### The settlement order -/

/-- The comparison of the settlement order is not positive: open items before positions,
oldest first, identity last. -/
def settlesBefore (a b : NettingComponent) : Prop :=
  if a.component ≠ b.component then a.component = .openItem
  else if a.sortKey ≠ b.sortKey then encode a.sortKey < encode b.sortKey
  else encode a.key ≤ encode b.key

instance : DecidableRel settlesBefore := fun a b =>
  inferInstanceAs (Decidable (if a.component ≠ b.component then a.component = .openItem
    else if a.sortKey ≠ b.sortKey then encode a.sortKey < encode b.sortKey
    else encode a.key ≤ encode b.key))

def ordered (components : List NettingComponent) : List NettingComponent :=
  components.insertionSort settlesBefore

/-! ### One sweep -/

/-- The loop state of a sweep. -/
structure ClearState where
  remaining : String → ℤ
  cleared : String → ℤ
  left : ℤ

/-- The loop of a sweep. -/
def clearLoop : List NettingComponent → ClearState → ClearState
  | [], s => s
  | component :: components, s =>
    if s.left = 0 then s
    else
      let still := s.remaining component.key
      let take := min |still| s.left
      if take = 0 then clearLoop components s
      else clearLoop components
        { remaining := Function.update s.remaining component.key
            (if 0 < still then still - take else still + take)
          cleared := Function.update s.cleared component.key take
          left := s.left - take }

/-- Clear up to an amount across components in order: what is cleared of each, and what
remains. -/
def clearInOrder (components : List NettingComponent) (remaining : String → ℤ) (amount : ℤ) :
    Except NettingMathError ((String → ℤ) × (String → ℤ)) := do
  let s := clearLoop components ⟨remaining, fun _ => 0, amount⟩
  refuseIf (s.left ≠ 0) .exceededOpen
  return (s.cleared, s.remaining)

/-- Write the entries of one map into another. -/
def setEach (target entries : String → ℤ) : String → ℤ := fun key =>
  if entries key = 0 then target key else entries key

/-! ### Carrying amounts -/

/-- The carrying amount a settlement releases. -/
def carryingForSettlement (openCarrying openTransaction settled : ℤ) :
    Except NettingMathError ℤ := do
  let openT := |openTransaction|
  let settledT := |settled|
  if settledT = 0 then return 0
  else
    refuseIf (openT < settledT) .settlementExceedsOpen
    let magnitude :=
      if settledT = openT then |openCarrying| else mulRatio |openCarrying| settledT openT
    return if settled < 0 then -magnitude else magnitude

/-- The spot translation of a signed amount. -/
def spotTranslation (amount rate : ℤ) : ℤ :=
  let magnitude := mulRate |amount| rate
  if amount < 0 then -magnitude else magnitude

/-! ### The allocation of a pair -/

structure NettingInput where
  pairId : String
  currency : String
  fromSubsidiaryId : String
  toSubsidiaryId : String
  components : List NettingComponent
  settleCash : Bool
  rateFor : String → ℤ

namespace NettingInput

variable (input : NettingInput)

/-- Check the components and collect their open amounts. -/
def loadRemaining : List NettingComponent → (String → Option ℤ) →
    Except NettingMathError (String → Option ℤ)
  | [], remaining => .ok remaining
  | c :: components, remaining => do
    refuseIf ((remaining c.key).isSome = true) .repeatedIdentity
    refuseIf (c.pairId ≠ input.pairId ∨ c.currency ≠ input.currency) .otherPair
    refuseIf (c.subsidiaryId ≠ input.fromSubsidiaryId ∧ c.subsidiaryId ≠ input.toSubsidiaryId)
      .neitherEntity
    refuseIf (c.counterpartySubsidiaryId ≠
      if c.subsidiaryId = input.fromSubsidiaryId then input.toSubsidiaryId
      else input.fromSubsidiaryId) .notCounterparty
    refuseIf (c.openTransaction ≠ 0 ∧ c.openCarrying ≠ 0 ∧
      ¬(c.openTransaction < 0 ↔ c.openCarrying < 0)) (.oppositeSign c.component c.key)
    loadRemaining components (Function.update remaining c.key (some c.openTransaction))

/-- The open components of one entity, in settlement order. -/
def sideOf (subsidiaryId : String) : List NettingComponent :=
  ordered (input.components.filter fun c =>
    c.subsidiaryId = subsidiaryId ∧ c.openTransaction ≠ 0)

def owedTo (subsidiaryId : String) : List NettingComponent :=
  (input.sideOf subsidiaryId).filter fun c => 0 < c.openTransaction

def owedBy (subsidiaryId : String) : List NettingComponent :=
  (input.sideOf subsidiaryId).filter fun c => c.openTransaction < 0

def totalOwedTo (subsidiaryId : String) : ℤ :=
  ((input.owedTo subsidiaryId).map (·.openTransaction)).sum

def totalOwedBy (subsidiaryId : String) : ℤ :=
  ((input.owedBy subsidiaryId).map fun c => |c.openTransaction|).sum

/-- An entity's own net position before the run. -/
def net (subsidiaryId : String) : ℤ := input.totalOwedTo subsidiaryId - input.totalOwedBy subsidiaryId

def nettable (subsidiaryId : String) : ℤ :=
  min (input.totalOwedTo subsidiaryId) (input.totalOwedBy subsidiaryId)

/-- What is cleared and what remains, between the sweeps. -/
structure SweepState where
  by_ : String → ℤ
  remaining : String → ℤ

/-- Clear an amount of what is owed to an entity and the same amount of what it owes. -/
def sweep (positive negative : List NettingComponent) (amount : ℤ) (s : SweepState) :
    Except NettingMathError SweepState := do
  let (units, remaining) ← clearInOrder positive s.remaining amount
  let by_ := setEach s.by_ units
  let (units, remaining) ← clearInOrder negative remaining amount
  return ⟨setEach by_ fun key => -units key, remaining⟩

/-- Net inside one entity. -/
def netEntity (s : SweepState) (subsidiaryId : String) : Except NettingMathError SweepState :=
  sweep (input.owedTo subsidiaryId) (input.owedBy subsidiaryId) (input.nettable subsidiaryId) s

/-- The cash that moves to the from-side entity; negative, it moves to the other. -/
def cashToFrom : ℤ :=
  let fromNet := input.net input.fromSubsidiaryId
  let toNet := input.net input.toSubsidiaryId
  if input.settleCash then
    if 0 < fromNet ∧ toNet < 0 then min fromNet (-toNet)
    else if fromNet < 0 ∧ 0 < toNet then -min (-fromNet) toNet
    else 0
  else 0

/-- The cash sweep across the pair. -/
def settle (remaining : String → ℤ) : Except NettingMathError SweepState :=
  let receiver := if 0 < input.cashToFrom then input.fromSubsidiaryId else input.toSubsidiaryId
  let payer := if 0 < input.cashToFrom then input.toSubsidiaryId else input.fromSubsidiaryId
  if input.cashToFrom = 0 then .ok ⟨fun _ => 0, remaining⟩
  else sweep ((input.sideOf receiver).filter fun c => 0 < remaining c.key)
    ((input.sideOf payer).filter fun c => remaining c.key < 0) |input.cashToFrom|
    ⟨fun _ => 0, remaining⟩

def allocation (netted cash : String → ℤ) (c : NettingComponent) :
    Except NettingMathError NettingAllocation := do
  let cleared := netted c.key + cash c.key
  let rate := input.rateFor c.subsidiaryId
  let carryingCleared ←
    if cleared = 0 then .ok 0
    else carryingForSettlement c.openCarrying c.openTransaction cleared
  let spotCleared := spotTranslation cleared rate
  return { c with
    netted := netted c.key
    cash := cash c.key
    rate := rate
    carryingCleared := carryingCleared
    spotCleared := spotCleared
    realizedFx := spotCleared - carryingCleared }

end NettingInput

/-- Allocate netting and cash settlement for one pair and currency. -/
def allocatePairNetting (input : NettingInput) : Except NettingMathError NettingPairResult := do
  refuseIf (input.fromSubsidiaryId = input.toSubsidiaryId) .sameEntity
  let loaded ← input.loadRemaining input.components fun _ => none
  let s ← input.netEntity ⟨fun _ => 0, fun key => (loaded key).getD 0⟩ input.fromSubsidiaryId
  let netted ← input.netEntity s input.toSubsidiaryId
  let cash ← input.settle netted.remaining
  let allocations ← (ordered input.components).mapM (input.allocation netted.by_ cash.by_)
  let fromNet := input.net input.fromSubsidiaryId
  let toNet := input.net input.toSubsidiaryId
  return {
    pairId := input.pairId
    currency := input.currency
    fromSubsidiaryId := input.fromSubsidiaryId
    toSubsidiaryId := input.toSubsidiaryId
    fromNet := fromNet
    toNet := toNet
    unreconciled := fromNet + toNet
    fromNetted := input.nettable input.fromSubsidiaryId
    toNetted := input.nettable input.toSubsidiaryId
    cashToFrom := input.cashToFrom
    allocations := allocations }

end OpenBooks
