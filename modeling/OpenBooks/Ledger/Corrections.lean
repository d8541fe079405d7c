import OpenBooks.Ledger.Contracts

/-!
# Transferring applications in a source correction

A source correction reverses a posted entry and posts a replacement. Applications are append-only
settlement evidence, so each live application of the prior entry is released once and an equivalent
one is appended to the replacement's open item. `transferCorrectionApplications` is that transfer:
it maps every endpoint to a replacement line (`replacementEndpoint`), proves that the transfer fits
before anything is written, and then writes.
-/

namespace OpenBooks

open Checked

/-! ### Rows -/

/-- A property that may be missing, null, or a string; the three are different
under `===`. -/
inductive Nullable
  | undefined
  | null
  | value (s : String)
  deriving DecidableEq

/-- `x ?? null`: a missing property reads as null. -/
def Nullable.orNull : Nullable → Option String
  | .value s => some s
  | _ => none

/-- A posted or prepared line, as far as the transfer reads it. -/
structure CorrectionLine where
  id : String
  isOpenItem : Bool
  accountId : String
  partyId : Nullable
  subsidiaryId : Nullable
  currency : String
  amount : ℤ
  txnAmount : Option ℤ := none

/-- One application: what a source line settles of a target line. -/
structure Application where
  id : String
  orgId : String
  fromLineId : String
  toLineId : String
  amount : ℤ
  sourceAmount : ℤ
  sourceTransactionAmount : ℤ
  sourceTransactionCurrency : String
  targetTransactionAmount : ℤ
  targetTransactionCurrency : String
  settlementRate : Option String := none
  settlementRateSource : Option String := none
  settlementRateReference : Option String := none
  settlementFxRateId : Option String := none
  appliedOn : String
  fxGainLossEntryId : Option String := none
  unappliedAt : Option String := none
  updatedBy : Option String := none

/-- The applications of the database, under their primary key. -/
structure ApplicationTable where
  rows : List Application
  unique : (rows.map Application.id).Nodup

/-- What the audit log keeps of a transfer. -/
inductive CorrectionAudit
  | released (reason replacementApplicationId correctedAt : String)
  | appended (reason priorApplicationId fromLineId toLineId : String)

/-- A row of the audit log about an application. -/
structure AuditRow where
  orgId : String
  rowId : String
  changes : CorrectionAudit
  actorId : String
  requestId : String

/-- One moved application, as the transfer reports it. -/
structure TransferredApplication where
  priorApplicationId : String
  replacementApplicationId : String
  priorFromLineId : String
  replacementFromLineId : String
  priorToLineId : String
  replacementToLineId : String

/-- The request: the prior entry's lines, the replacement lines with their posted
ids, the live applications, and what the transaction reads – the organization's
journal lines, the clock and the ids it mints. -/
structure Correction where
  orgId : String
  documentNumber : String
  existing : List CorrectionLine
  replacementLines : List CorrectionLine
  activeApplications : List Application
  actorId : String
  requestId : String
  reason : String
  journalLines : List CorrectionLine
  correctedAt : String
  newId : ApplicationTable → String

/-! ### Endpoints -/

/-- The line was part of the prior entry. -/
def Correction.isPrior (c : Correction) (lineId : String) : Bool :=
  c.existing.any fun line => line.id = lineId

/-- The replacement lines an endpoint may move to: the open items of the same
account, party, subsidiary and currency, or without the account if there are
none. -/
def Correction.candidates (c : Correction) (prior : CorrectionLine) : List CorrectionLine :=
  let matching := c.replacementLines.filter fun line =>
    line.isOpenItem ∧ line.partyId = prior.partyId ∧ line.subsidiaryId = prior.subsidiaryId ∧
      line.currency = prior.currency
  let exactly := matching.filter fun line => line.accountId = prior.accountId
  if exactly ≠ [] then exactly else matching

/-- Where an application's endpoint moves: a line outside the corrected entry stays
where it is, a prior line needs exactly one candidate. -/
def replacementEndpoint (c : Correction) (lineId : String) : Except PostingError String :=
  match c.existing.find? (fun line => line.id = lineId) with
  | none => .ok lineId
  | some prior =>
    match c.candidates prior with
    | [line] => .ok line.id
    | candidates => .error ⟨s!"cannot transfer application endpoint {lineId}: expected one replacement open-item line, found {candidates.length}"⟩

/-- The replacement line of an id; a later line of the same id wins. -/
def Correction.replacementById (c : Correction) (id : String) : Option CorrectionLine :=
  c.replacementLines.reverse.find? fun line => line.id = id

def Correction.outsideById (c : Correction) (id : String) : Option CorrectionLine :=
  if c.isPrior id then none else c.journalLines.find? fun line => line.id = id

def endpointOf (c : Correction) (lineId : String) : Except PostingError CorrectionLine := do
  let replacementId ← replacementEndpoint c lineId
  orRefuse (c.replacementById replacementId <|> c.outsideById replacementId)
    ⟨s!"cannot transfer application endpoint {lineId}: the settlement line is missing"⟩

/-! ### Fitting -/

structure Join where
  application : Application
  source : CorrectionLine
  target : CorrectionLine

/-- The refusal of one application. -/
def transferRefused (c : Correction) (a : Application) (why : String) : PostingError :=
  ⟨s!"source correction of {c.documentNumber} cannot transfer application {a.id}: {why} — unapply the settlements before correcting"⟩

/-- Look up both endpoints of an application and check that they may be joined: two
open items of one account, party and subsidiary, a debit and a credit. -/
def joinOf (c : Correction) (a : Application) : Except PostingError Join := do
  let source ← endpointOf c a.fromLineId
  let target ← endpointOf c a.toLineId
  refuseIf (¬source.isOpenItem ∨ ¬target.isOpenItem)
    (transferRefused c a "a replacement endpoint is not an open item")
  refuseIf (source.accountId ≠ target.accountId ∨ source.partyId.orNull ≠ target.partyId.orNull ∨
      source.subsidiaryId ≠ target.subsidiaryId)
    (transferRefused c a "the replacement endpoints no longer share one account, party, and subsidiary")
  refuseIf (decide (0 < target.amount) = decide (0 < source.amount))
    (transferRefused c a "the replacement endpoints no longer have opposite debit/credit signs")
  return ⟨a, source, target⟩

/-- What the transfer puts on one line, by direction. -/
structure Load where
  toAmount : ℤ := 0
  toTxn : ℤ := 0
  fromAmount : ℤ := 0
  fromTxn : ℤ := 0

def addLoad (loads : String → Load) (j : Join) : String → Load :=
  let a := j.application
  let withTarget := Function.update loads j.target.id
    { loads j.target.id with
      toAmount := (loads j.target.id).toAmount + |a.amount|
      toTxn := (loads j.target.id).toTxn + |a.targetTransactionAmount| }
  Function.update withTarget j.source.id
    { withTarget j.source.id with
      fromAmount := (withTarget j.source.id).fromAmount + |a.sourceAmount|
      fromTxn := (withTarget j.source.id).fromTxn + |a.sourceTransactionAmount| }

/-- The loads of all lines after the transfer. -/
def transferredLoad (joins : List Join) : String → Load := joins.foldl addLoad fun _ => {}

/-- The replacement lines that take the place of a prior endpoint, in the order they
are met. -/
def remappedIds (c : Correction) (joins : List Join) : List String :=
  (joins.flatMap fun j =>
    (if c.isPrior j.application.fromLineId then [j.source.id] else []) ++
      (if c.isPrior j.application.toLineId then [j.target.id] else [])).eraseDups

/-- The transaction amount of a line, which is its amount when it has none. -/
def CorrectionLine.txn (line : CorrectionLine) : ℤ := line.txnAmount.getD line.amount

/-- Why a load does not fit its line, if it does not. Each direction is held against
the whole amount. -/
def breach (line : CorrectionLine) (load : Load) : Option String :=
  if |line.amount| < load.toAmount then
    some s!"{fromUnits load.toAmount} applied exceeds the replacement line's open {fromUnits |line.amount|}"
  else if |line.amount| < load.fromAmount then
    some s!"{fromUnits load.fromAmount} applied exceeds the replacement line's open {fromUnits |line.amount|}"
  else if |line.txn| < load.toTxn ∨ |line.txn| < load.fromTxn then
    some "the transferred settlement exceeds the replacement line's transaction amount"
  else none

/-- Refuse a replacement line that its transferred load does not fit. -/
def assertFits (c : Correction) (joins : List Join) (id : String) : Except PostingError Unit := do
  let line ← orRefuse (c.replacementById id)
    ⟨s!"cannot transfer application endpoint {id}: the settlement line is missing"⟩
  match breach line (transferredLoad joins id) with
  | none => return ()
  | some why => throw ⟨s!"source correction of {c.documentNumber} cannot transfer its live applications onto the corrected entry: {why} — unapply the settlements before correcting"⟩

/-- Prove that the transfer fits before anything is written. -/
def assertTransferFits (c : Correction) : Except PostingError Unit := do
  let joins ← c.activeApplications.mapM (joinOf c)
  let _ ← (remappedIds c joins).mapM (assertFits c joins)
  return ()

/-! ### Writing -/

/-- The row is the live one of this organization and id. -/
def isReleased (c : Correction) (a row : Application) : Bool :=
  row.id = a.id ∧ row.orgId = c.orgId ∧ row.unappliedAt = none

/-- The one legal transition of an application: it is unapplied. -/
def Application.release (row : Application) (c : Correction) : Application :=
  { row with unappliedAt := some c.correctedAt, updatedBy := some c.actorId }

/-- The update statement that releases an application. -/
def releaseRows (c : Correction) (a : Application) (rows : List Application) : List Application :=
  rows.map fun row => if isReleased c a row then row.release c else row

theorem map_id_releaseRows (c : Correction) (a : Application) (rows : List Application) :
    (releaseRows c a rows).map Application.id = rows.map Application.id := by
  rw [releaseRows, List.map_map]
  refine List.map_congr_left fun row _ => ?_
  by_cases h : isReleased c a row = true <;> simp [h, Application.release]

/-- The application appended in the place of a released one: the same evidence on
the replacement endpoints. -/
def replacementRow (c : Correction) (a : Application) (id fromLineId toLineId : String) :
    Application :=
  { a with id, fromLineId, toLineId, unappliedAt := none, updatedBy := some c.actorId }

/-- Append a row, refusing an id that is taken. -/
def ApplicationTable.insert (table : ApplicationTable) (row : Application) :
    Except PostingError ApplicationTable :=
  if h : row.id ∈ table.rows.map Application.id then
    .error ⟨"duplicate key value violates unique constraint"⟩
  else .ok ⟨table.rows ++ [row], by
    rw [List.map_append, List.nodup_append]
    exact ⟨table.unique, by simp, by simpa using fun a ha hid => h (by simpa using ⟨a, ha, hid⟩)⟩⟩

theorem ApplicationTable.insert_eq_ok {table t : ApplicationTable} {row : Application}
    (h : table.insert row = .ok t) :
    row.id ∉ table.rows.map Application.id ∧ t.rows = table.rows ++ [row] := by
  by_cases hid : row.id ∈ table.rows.map Application.id
  · simp [ApplicationTable.insert, hid] at h
  · rw [ApplicationTable.insert, dif_neg hid] at h
    exact ⟨hid, by rw [← Except.ok.inj h]⟩

/-- The state of the transaction: the applications, the audit log, and what was
moved so far. -/
structure CorrectionState where
  table : ApplicationTable
  audit : List AuditRow := []
  transferred : List TransferredApplication := []

/-- Release one application and append its replacement, with their audit rows. -/
def transferOne (c : Correction) (s : CorrectionState) (a : Application) :
    Except PostingError CorrectionState := do
  let fromLineId ← replacementEndpoint c a.fromLineId
  let toLineId ← replacementEndpoint c a.toLineId
  let released := s.table.rows.filter (isReleased c a)
  refuseIf (released.length ≠ 1)
    (⟨s!"application {a.id} changed during source correction"⟩ : PostingError)
  let updated : ApplicationTable :=
    ⟨releaseRows c a s.table.rows, by rw [map_id_releaseRows]; exact s.table.unique⟩
  let id := c.newId updated
  let table ← updated.insert (replacementRow c a id fromLineId toLineId)
  return {
    table
    audit := s.audit ++ [
      ⟨c.orgId, a.id, .released c.reason id c.correctedAt, c.actorId, c.requestId⟩,
      ⟨c.orgId, id, .appended c.reason a.id fromLineId toLineId, c.actorId, c.requestId⟩]
    transferred := s.transferred ++ [⟨a.id, id, a.fromLineId, fromLineId, a.toLineId, toLineId⟩] }

/-- Transfer the live applications of a corrected entry. -/
def transferCorrectionApplications (c : Correction) (s : CorrectionState) :
    Except PostingError CorrectionState := do
  onlyIf (c.activeApplications ≠ []) (assertTransferFits c)
  c.activeApplications.foldlM (transferOne c) s

end OpenBooks
