import Mathlib.Data.List.Sort
import OpenBooks.Equity.Vesting

/-!
# What a security holds

The point-in-time cap table replays a share-based security through its events as of a day
(`Equity.holdingState`). An event's quantity is stated in the terms of its own day and converted
back to the units the security was issued in, exactly; exercises, settlements, expirations,
transfers and conversions use vested units, forfeitures remove unvested units from the end of the
schedule, and cancellations and repurchases take unvested units first. An event larger than what it
may take is refused by name. A void ends the replay.

An event is undone by voiding the certificate it produced, or by a governed reversal; it is then
left out of the replay (`Equity.eventsOf`).
-/

namespace OpenBooks.Equity

open Checked

/-! ### Records -/

inductive SecurityKind
  | share
  | option
  | rsu
  | warrant
  | safe
  | note
  deriving DecidableEq

inductive SecurityEventKind
  | exercise
  | settle
  | forfeit
  | expire
  | cancel
  | repurchase
  | transfer
  | convert
  | void
  | repay
  | reverse
  | election83b
  deriving DecidableEq

/-- A split: its ratio is one of positive numbers. -/
structure SplitRecord where
  shareClassId : String
  effectiveOn : CivilDate
  ratioNumerator : ℤ
  ratioDenominator : ℤ
  ratioNumerator_pos : 0 < ratioNumerator
  ratioDenominator_pos : 0 < ratioDenominator

structure SecurityRecord where
  id : String
  securityNumber : String
  kind : SecurityKind
  shareClassId : Option String
  issueDate : CivilDate
  quantity : Option ℕ
  vestingStart : Option CivilDate
  vestingMonths : Option ℤ
  cliffMonths : Option ℤ
  vestingFrequency : Option VestingFrequency
  vestingTranches : Option (List VestingTranche)
  earlyExercise : Bool

structure SecurityEventRecord where
  id : String
  securityId : String
  kind : SecurityEventKind
  effectiveOn : CivilDate
  quantity : Option ℕ
  resultingSecurityId : Option String
  reversesEventId : Option String
  deriving DecidableEq

structure EquityBook where
  splits : List SplitRecord
  events : List SecurityEventRecord

/-- Why the holding of a security is refused. -/
inductive HoldingError
  | securityNotShareBased (securityNumber : String)
  | holdingEventQuantityMissing (securityNumber : String)
  | holdingEventExceeded (kind : SecurityEventKind) (quantity : ℕ) (date : CivilDate)
      (securityNumber : String)
  | exact (e : RationalError)
  | typeError
  deriving DecidableEq

/-- A step on exact fractions. -/
def exact {β : Type} (x : Except RationalError β) : Except HoldingError β :=
  x.mapError HoldingError.exact

def ZERO : Rational := ⟨0, 1⟩

def ONE : Rational := ⟨1, 1⟩

/-! ### Splits -/

/-- Product of the ratios of a class's splits after one day and up to another. -/
def splitFactor (splits : List SplitRecord) (shareClassId : String) (after through : CivilDate) :
    Except RationalError Rational :=
  (splits.filter fun split => split.shareClassId = shareClassId ∧ after < split.effectiveOn ∧
    split.effectiveOn ≤ through).foldlM (fun factor split => do
      let ratio ← rational split.ratioNumerator split.ratioDenominator
      multiplyRational factor ratio) ONE

/-! ### Events -/

/-- Event kinds that change what a security holds. -/
def SecurityEventKind.holds : SecurityEventKind → Bool
  | .reverse => false
  | .election83b => false
  | _ => true

/-- Securities voided on or before a day. -/
def voidedSecurities (events : List SecurityEventRecord) (asOf : CivilDate) : List String :=
  (events.filter fun event => event.kind = .void ∧ event.effectiveOn ≤ asOf).map
    SecurityEventRecord.securityId

/-- Events undone by a governed reversal effective on or before a day. -/
def reversedEvents (events : List SecurityEventRecord) (asOf : CivilDate) : List String :=
  (events.filter fun event => event.kind = .reverse ∧ event.effectiveOn ≤ asOf).filterMap
    SecurityEventRecord.reversesEventId

/-- Whether an event counts for a security on a day: it is not undone by then. -/
def counts (events : List SecurityEventRecord) (securityId : String) (asOf : CivilDate)
    (event : SecurityEventRecord) : Bool :=
  event.securityId = securityId ∧ event.effectiveOn ≤ asOf ∧ event.kind.holds ∧
    event.id ∉ reversedEvents events asOf ∧
    ¬event.resultingSecurityId.any fun id => id ∈ voidedSecurities events asOf

/-- The events of a security that change what it holds, in date then recording order. -/
def eventsOf (events : List SecurityEventRecord) (securityId : String) (asOf : CivilDate) :
    List SecurityEventRecord :=
  (events.filter (counts events securityId asOf)).insertionSort fun a b =>
    a.effectiveOn ≤ b.effectiveOn

/-! ### The state of a holding -/

inductive HoldingStatus
  | outstanding
  | exercised
  | settled
  | forfeited
  | expired
  | cancelled
  | repurchased
  | transferred
  | converted
  | void
  | notIssued
  deriving DecidableEq

/-- The event kinds that consume units. -/
inductive ConsumedKind
  | exercise
  | settle
  | forfeit
  | expire
  | cancel
  | repurchase
  | transfer
  | convert
  deriving DecidableEq

def SecurityEventKind.consumed : SecurityEventKind → Option ConsumedKind
  | .exercise => some .exercise
  | .settle => some .settle
  | .forfeit => some .forfeit
  | .expire => some .expire
  | .cancel => some .cancel
  | .repurchase => some .repurchase
  | .transfer => some .transfer
  | .convert => some .convert
  | _ => none

/-- The status a consuming event leaves behind. -/
def ConsumedKind.status : ConsumedKind → HoldingStatus
  | .exercise => .exercised
  | .settle => .settled
  | .forfeit => .forfeited
  | .expire => .expired
  | .cancel => .cancelled
  | .repurchase => .repurchased
  | .transfer => .transferred
  | .convert => .converted

/-- Exact issue units, for the event checks. -/
structure ExactHolding where
  outstanding : Rational
  vestedAvailable : Rational
  unvested : Rational
  removedUnvested : Rational

structure HoldingState where
  security : SecurityRecord
  status : HoldingStatus
  factor : Rational
  outstanding : ℤ
  vestedAvailable : ℤ
  unvested : ℤ
  consumed : ConsumedKind → ℤ
  exact : ExactHolding

/-- What a replay has come to. -/
structure ReplayState where
  tailRemoved : Rational
  vestedUsed : Rational
  consumed : ConsumedKind → Rational
  lastReducing : Option HoldingStatus

def vestingTermsOf (security : SecurityRecord) : VestingTerms where
  issueDate := security.issueDate
  quantity := (security.quantity.getD 0 : ℕ)
  vestingStart := security.vestingStart
  vestingMonths := security.vestingMonths
  cliffMonths := security.cliffMonths
  vestingFrequency := security.vestingFrequency
  vestingTranches := security.vestingTranches

/-- The vested units on a day, of those that are left. -/
def vestedAt (security : SecurityRecord) (total tailRemoved : Rational) (date : CivilDate) :
    Except HoldingError Rational := do
  let live ← exact (subtractRational total tailRemoved)
  if hasVestingSchedule (vestingTermsOf security) then
    let vested ← exact (scheduledVested (vestingTermsOf security) date)
    let sched ← exact (rational vested 1)
    return minRational sched live
  else return minRational total live

/-- The vested units that are not used: none until the schedule passes those exercised early. -/
def availableOf (vested vestedUsed : Rational) : Except HoldingError Rational :=
  if 0 < compareRational vested vestedUsed then exact (subtractRational vested vestedUsed)
  else .ok ZERO

def earlyExercise (security : SecurityRecord) : Bool :=
  security.kind = .option ∧ security.earlyExercise

/-- Refuse an event larger than what is available to it. -/
def overAvailable (security : SecurityRecord) (event : SecurityEventRecord)
    (issueUnits available : Rational) : Except HoldingError Unit :=
  refuseIf (0 < compareRational issueUnits available)
    (.holdingEventExceeded event.kind (event.quantity.getD 0) event.effectiveOn
      security.securityNumber)

/-- What an event removes from the tail and what it uses. -/
def takeUnits (security : SecurityRecord) (event : SecurityEventRecord) (state : ReplayState)
    (issueUnits live vestedAvailable unvested : Rational) :
    Except HoldingError (Rational × Rational) :=
  match event.kind with
  | .exercise => do
    let available ←
      if earlyExercise security then exact (subtractRational live state.vestedUsed)
      else .ok vestedAvailable
    overAvailable security event issueUnits available
    let vestedUsed ← exact (addRational state.vestedUsed issueUnits)
    return (state.tailRemoved, vestedUsed)
  | .settle | .expire | .transfer | .convert => do
    overAvailable security event issueUnits vestedAvailable
    let vestedUsed ← exact (addRational state.vestedUsed issueUnits)
    return (state.tailRemoved, vestedUsed)
  | .forfeit => do
    overAvailable security event issueUnits unvested
    let tailRemoved ← exact (addRational state.tailRemoved issueUnits)
    return (tailRemoved, state.vestedUsed)
  | .cancel | .repurchase => do
    let available ← exact (addRational unvested vestedAvailable)
    overAvailable security event issueUnits available
    let fromUnvested := minRational issueUnits unvested
    let tailRemoved ← exact (addRational state.tailRemoved fromUnvested)
    let rest ← exact (subtractRational issueUnits fromUnvested)
    let vestedUsed ← exact (addRational state.vestedUsed rest)
    return (tailRemoved, vestedUsed)
  | _ => .ok (state.tailRemoved, state.vestedUsed)

/-- Replay one event. -/
def replayEvent (splits : List SplitRecord) (security : SecurityRecord) (classId : String)
    (total : Rational) (state : ReplayState) (event : SecurityEventRecord) :
    Except HoldingError ReplayState := do
  let quantity ← orRefuse event.quantity (.holdingEventQuantityMissing security.securityNumber)
  let stated ← exact (rational quantity 1)
  let factor ← exact (splitFactor splits classId security.issueDate event.effectiveOn)
  let issueUnits ← exact (divideRational stated factor)
  let live ← exact (subtractRational total state.tailRemoved)
  let vested ← vestedAt security total state.tailRemoved event.effectiveOn
  let vestedAvailable ← availableOf vested state.vestedUsed
  let unused ← exact (subtractRational live state.vestedUsed)
  let unvested ← exact (subtractRational unused vestedAvailable)
  let taken ← takeUnits security event state issueUnits live vestedAvailable unvested
  -- a repayment has no share count to add to
  let kind ← orRefuse event.kind.consumed .typeError
  let consumed ← exact (addRational (state.consumed kind) issueUnits)
  return ⟨taken.1, taken.2, Function.update state.consumed kind consumed, some kind.status⟩

/-- Replay events up to a void. -/
def replay (splits : List SplitRecord) (security : SecurityRecord) (classId : String)
    (total : Rational) :
    List SecurityEventRecord → ReplayState → Except HoldingError (ReplayState × Bool)
  | [], state => .ok (state, false)
  | event :: events, state =>
    if event.kind = .void then .ok (state, true)
    else do
      let state ← replayEvent splits security classId total state event
      replay splits security classId total events state

/-- Issue units in whole shares to date. -/
def restate (factor units : Rational) : Except HoldingError ℤ := do
  let restated ← exact (multiplyRational units factor)
  return floorShares restated

def restateConsumed (factor : Rational) (consumed : ConsumedKind → Rational) :
    Except HoldingError (ConsumedKind → ℤ) := do
  let exercise ← restate factor (consumed .exercise)
  let settle ← restate factor (consumed .settle)
  let forfeit ← restate factor (consumed .forfeit)
  let expire ← restate factor (consumed .expire)
  let cancel ← restate factor (consumed .cancel)
  let repurchase ← restate factor (consumed .repurchase)
  let transfer ← restate factor (consumed .transfer)
  let convert ← restate factor (consumed .convert)
  return fun
    | .exercise => exercise
    | .settle => settle
    | .forfeit => forfeit
    | .expire => expire
    | .cancel => cancel
    | .repurchase => repurchase
    | .transfer => transfer
    | .convert => convert

/-- The state of a security that is not voided. -/
def liveState (security : SecurityRecord) (asOf : CivilDate) (factor total : Rational)
    (state : ReplayState) : Except HoldingError HoldingState := do
  let consumed ← restateConsumed factor state.consumed
  let live ← exact (subtractRational total state.tailRemoved)
  let vested ← vestedAt security total state.tailRemoved asOf
  let exactOutstanding ← exact (subtractRational live state.vestedUsed)
  let exactVestedAvailable ← availableOf vested state.vestedUsed
  let outstanding ← restate factor exactOutstanding
  let restatedVested ← restate factor exactVestedAvailable
  let vestedAvailable := if restatedVested < outstanding then restatedVested else outstanding
  let exactUnvested ← exact (subtractRational exactOutstanding exactVestedAvailable)
  return ⟨security, if 0 < outstanding then .outstanding
    else state.lastReducing.getD .outstanding, factor, outstanding, vestedAvailable,
    outstanding - vestedAvailable, consumed,
    ⟨exactOutstanding, exactVestedAvailable, exactUnvested, state.tailRemoved⟩⟩

/-- Replay one share-based security to a day. -/
def holdingState (book : EquityBook) (security : SecurityRecord) (asOf : CivilDate) :
    Except HoldingError HoldingState := do
  let quantity ← orRefuse security.quantity (.securityNotShareBased security.securityNumber)
  let classId ← orRefuse security.shareClassId (.securityNotShareBased security.securityNumber)
  let factor ← exact (splitFactor book.splits classId security.issueDate asOf)
  if asOf < security.issueDate then
    return ⟨security, .notIssued, factor, 0, 0, 0, fun _ => 0, ⟨ZERO, ZERO, ZERO, ZERO⟩⟩
  else
    let total ← exact (rational quantity 1)
    let replayed ← replay book.splits security classId total
      (eventsOf book.events security.id asOf) ⟨ZERO, ZERO, fun _ => ZERO, none⟩
    if replayed.2 then
      return ⟨security, .void, factor, 0, 0, 0, fun _ => 0,
        ⟨ZERO, ZERO, ZERO, replayed.1.tailRemoved⟩⟩
    else liveState security asOf factor total replayed.1

/-- Largest whole quantity stated on a day that fits inside an exact availability. -/
def eventCeiling (book : EquityBook) (security : SecurityRecord) (available : Rational)
    (on : CivilDate) : Except RationalError ℤ :=
  match security.shareClassId with
  | none => .ok 0
  | some shareClassId => do
    let factor ← splitFactor book.splits shareClassId security.issueDate on
    let restated ← multiplyRational available factor
    return if 0 < floorShares restated then floorShares restated else 0

end OpenBooks.Equity
