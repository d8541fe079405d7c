import OpenBooks.Lib.Checked
import Mathlib.Logic.Relation
import Mathlib.Data.List.Nodup

/-!
# The quorum of an approval gate

A gate of a flow is a group of rows, one for each approver, with a quorum: under `any` the first
decision wins, under `all` one rejection rejects and the approve branch waits for everyone.
`resolveQuorumOutcome` is evaluated after each decision, on all rows of the group; `decideRows` is
the decision itself – flip the row, ask the quorum, cancel what is left open.

Between decisions a row can be handed to another approver (`delegateRows`), or escalated when it is
overdue (`escalateRows`): the row is set aside and fresh rows, linked to it, take its place.

**The group resumes once, and on the branch its rows say** (`approvalGroup_safe`). The invariant is
`GroupInvariant`. A row that is set aside has a replacement, and replacements are never set aside,
so the refusal of the quorum is out of reach.
-/

namespace OpenBooks

open Checked List

/-! ### Rows -/

inductive GateQuorum where
  | any
  | all
  deriving DecidableEq

inductive GateDecision where
  | approved
  | rejected
  deriving DecidableEq

inductive GateStatus where
  | pending
  | approved
  | rejected
  | cancelled
  | escalated
  deriving DecidableEq

inductive GateBranch where
  | approve
  | reject
  deriving DecidableEq

def GateDecision.status : GateDecision → GateStatus
  | .approved => .approved
  | .rejected => .rejected

def GateDecision.branch : GateDecision → GateBranch
  | .approved => .approve
  | .rejected => .reject

/-- One approver's row of a gate. The group is the run and the node. -/
structure GateRow where
  id : ℕ
  runId : ℕ
  nodeId : String
  quorum : GateQuorum
  status : GateStatus := .pending
  assigneeUserId : Option ℕ
  delegatedFromUserId : Option ℕ := none
  decidedBy : Option ℕ := none
  escalatedFromGateId : Option ℕ := none

/-- A row that still asks for a decision, itself or through a replacement. -/
def GateRow.isOpen (r : GateRow) : Bool := r.status = .pending || r.status = .escalated

def GateRow.inGroup (r : GateRow) (runId : ℕ) (nodeId : String) : Bool :=
  r.runId = runId && r.nodeId = nodeId

/-! ### The quorum -/

structure QuorumOutcome where
  /-- The branch to resume now, if the group is decided. -/
  resume : Option GateBranch
  cancelIds : List ℕ

def unresolvedDecision : String :=
  "This approval group has an unresolved required decision. Recall the submission and review " ++
    "its Flow before resubmitting."

/-- The group after a decision landed, the decided row already carrying its status. -/
def resolveQuorumOutcome (quorum : GateQuorum) (decision : GateDecision)
    (siblings : List GateRow) : Except String QuorumOutcome :=
  let cancellable := (siblings.filter GateRow.isOpen).map GateRow.id
  match quorum with
  | .any => .ok ⟨some decision.branch, cancellable⟩
  | .all =>
    if decision = .rejected then .ok ⟨some .reject, cancellable⟩
    else if siblings.any (·.status = .pending) then .ok ⟨none, []⟩
    else if siblings.any (·.status = .rejected) then .ok ⟨some .reject, cancellable⟩
    else
      let approvedReplacements :=
        (siblings.filter (·.status = .approved)).filterMap GateRow.escalatedFromGateId
      if siblings.any fun s => s.status ≠ .approved && !approvedReplacements.contains s.id then
        .error unresolvedDecision
      else .ok ⟨some .approve, cancellable⟩

/-! ### Decisions, hand-overs and escalations -/

/-- The decided row takes the decision, if it is still pending. -/
def flipRow (gateId : ℕ) (decision : GateDecision) (userId : ℕ) (r : GateRow) : GateRow :=
  if r.id = gateId ∧ r.status = .pending then
    { r with status := decision.status, decidedBy := some userId }
  else r

def cancelRow (ids : List ℕ) (r : GateRow) : GateRow :=
  if r.id ∈ ids ∧ r.isOpen = true then { r with status := .cancelled } else r

/-- A decision on a row, by one who may make it: flip it, ask the quorum of its group, cancel what
is left. -/
def decideRows (rows : List GateRow) (gate : GateRow) (decision : GateDecision) (userId : ℕ) :
    Except String (List GateRow × Option GateBranch) := do
  let flipped := rows.map (flipRow gate.id decision userId)
  let siblings := flipped.filter (·.inGroup gate.runId gate.nodeId)
  let outcome ← resolveQuorumOutcome gate.quorum decision siblings
  return (flipped.map (cancelRow outcome.cancelIds), outcome.resume)

/-- A pending row is handed to another approver, who must not hold one of the group. -/
def delegateRows (rows : List GateRow) (gate : GateRow) (fromUserId toUserId : ℕ) :
    Except String (List GateRow) := do
  refuseIf (∃ r ∈ rows, r.inGroup gate.runId gate.nodeId = true ∧ r.id ≠ gate.id ∧
      r.assigneeUserId = some toUserId)
    "the target already holds this approval — it cannot be delegated twice"
  return rows.map fun r =>
    if r.id = gate.id ∧ r.status = .pending then
      { r with
        assigneeUserId := some toUserId
        delegatedFromUserId :=
          some ((gate.delegatedFromUserId <|> gate.assigneeUserId).getD fromUserId) }
    else r

/-- The rows that take the place of an overdue one. -/
def replacementRows (gate : GateRow) (nextId : ℕ) (users : List ℕ) : List GateRow :=
  users.zipIdx.map fun p =>
    { id := nextId + p.2, runId := gate.runId, nodeId := gate.nodeId, quorum := gate.quorum
      assigneeUserId := some p.1, escalatedFromGateId := some gate.id }

/-- The overdue row is set aside, if it is still pending. -/
def setAsideRow (gateId : ℕ) (r : GateRow) : GateRow :=
  if r.id = gateId ∧ r.status = .pending then { r with status := .escalated } else r

/-- The approvers a gate escalates to that it does not have yet. -/
def newApprovers (rows : List GateRow) (gate : GateRow) (escalateTo : List ℕ) : List ℕ :=
  let existing :=
    (rows.filter (·.inGroup gate.runId gate.nodeId)).filterMap GateRow.assigneeUserId
  escalateTo.filter fun u => !existing.contains u

/-- An overdue row is set aside for new approvers; without any it stays pending. -/
def escalateRows (rows : List GateRow) (nextId : ℕ) (gate : GateRow) (escalateTo : List ℕ) :
    List GateRow :=
  if newApprovers rows gate escalateTo = [] then rows
  else rows.map (setAsideRow gate.id) ++
    replacementRows gate nextId (newApprovers rows gate escalateTo)

/-! ### The group as a machine -/

/-- A group of rows, with what has been decided and resumed so far. -/
structure GateGroup where
  rows : List GateRow
  nextId : ℕ
  decisions : List GateDecision := []
  resumed : List GateBranch := []

inductive GroupStep where
  | decide (gateId : ℕ) (decision : GateDecision) (userId : ℕ)
  | delegate (gateId fromUserId toUserId : ℕ)
  | escalate (gateId : ℕ) (escalateTo : List ℕ)

def pendingRow (rows : List GateRow) (gateId : ℕ) : Option GateRow :=
  rows.find? fun r => r.id = gateId && r.status = .pending

/-- One serialized step of a group. A replacement has no escalation time, so only an
original row is ever escalated. -/
def GateGroup.step (g : GateGroup) : GroupStep → Except String GateGroup
  | .decide gateId decision userId => do
    let gate ← orRefuse (pendingRow g.rows gateId) "this approval was already resolved"
    let (rows, resume) ← decideRows g.rows gate decision userId
    return { g with
      rows := rows, decisions := g.decisions ++ [decision]
      resumed := g.resumed ++ resume.toList }
  | .delegate gateId fromUserId toUserId => do
    let gate ← orRefuse (pendingRow g.rows gateId)
      "This approval is no longer active. Reopen the current submission before delegating."
    let rows ← delegateRows g.rows gate fromUserId toUserId
    return { g with rows := rows }
  | .escalate gateId escalateTo =>
    match pendingRow g.rows gateId with
    | some gate =>
      if gate.escalatedFromGateId = none then
        .ok { g with
          rows := escalateRows g.rows g.nextId gate escalateTo
          nextId := g.nextId + escalateTo.length }
      else .ok g
    | none => .ok g

/-- A group as it is created: pending rows of one run, node and quorum, none of them a
replacement. -/
structure GateGroup.Created (quorum : GateQuorum) (g : GateGroup) : Prop where
  nonempty : g.rows ≠ []
  pending : ∀ r ∈ g.rows, r.status = .pending ∧ r.escalatedFromGateId = none
  quorum_eq : ∀ r ∈ g.rows, r.quorum = quorum
  group_eq : ∃ runId nodeId, ∀ r ∈ g.rows, r.runId = runId ∧ r.nodeId = nodeId
  ids : (g.rows.map GateRow.id).Nodup
  fresh : ∀ r ∈ g.rows, r.id < g.nextId
  undecided : g.decisions = [] ∧ g.resumed = []

/-- One group reaches another by steps that succeed. -/
def GateGroup.Reaches : GateGroup → GateGroup → Prop :=
  Relation.ReflTransGen fun g g' => ∃ a, g.step a = .ok g'

/-! ### The invariant -/

/-- What the rows of a group look like at any time. -/
structure GroupShape (quorum : GateQuorum) (runId : ℕ) (nodeId : String) (rows : List GateRow)
    (nextId : ℕ) : Prop where
  quorum_eq : ∀ r ∈ rows, r.quorum = quorum
  group_eq : ∀ r ∈ rows, r.runId = runId ∧ r.nodeId = nodeId
  ids : (rows.map GateRow.id).Nodup
  fresh : ∀ r ∈ rows, r.id < nextId
  /-- A row is set aside only for a replacement, and a replacement is never set aside. -/
  escalated : ∀ r ∈ rows, r.status = .escalated → r.escalatedFromGateId = none ∧
    ∃ r' ∈ rows, r'.escalatedFromGateId = some r.id

/-- An open group: nothing is rejected or cancelled, and somebody has yet to decide. -/
structure GroupOpen (quorum : GateQuorum) (g : GateGroup) : Prop where
  resumed : g.resumed = []
  waiting : ∃ r ∈ g.rows, r.status = .pending
  status : ∀ r ∈ g.rows, r.status = .pending ∨ r.status = .approved ∨ r.status = .escalated
  /-- Under `any` nobody has decided. -/
  first : quorum = .any → g.decisions = []

/-- What the rows must say for the approve branch under `all`: nobody rejected, and every
original row is approved or was set aside with all its replacements approved. -/
def Unanimous (rows : List GateRow) : Prop :=
  (∀ r ∈ rows, r.status ≠ .rejected) ∧ ∀ r ∈ rows, r.escalatedFromGateId = none →
    r.status = .approved ∨ (∃ r' ∈ rows, r'.escalatedFromGateId = some r.id) ∧
      ∀ r' ∈ rows, r'.escalatedFromGateId = some r.id → r'.status = .approved

/-- A group that has resumed: one branch, and no row left open. -/
structure GroupResumed (quorum : GateQuorum) (g : GateGroup) : Prop where
  closed : ∀ r ∈ g.rows, r.isOpen = false
  branch : ∃ b, g.resumed = [b] ∧
    (quorum = .any → ∃ d, g.decisions = [d] ∧ b = d.branch) ∧
    (quorum = .all → b = .approve → Unanimous g.rows)

/-- **The invariant of a group.** -/
structure GroupInvariant (quorum : GateQuorum) (runId : ℕ) (nodeId : String) (g : GateGroup) :
    Prop where
  shape : GroupShape quorum runId nodeId g.rows g.nextId
  phase : GroupOpen quorum g ∨ GroupResumed quorum g

/-- A change of rows that keeps what identifies them and sets nothing aside. -/
structure KeepsRow (f : GateRow → GateRow) : Prop where
  id : ∀ r, (f r).id = r.id
  runId : ∀ r, (f r).runId = r.runId
  nodeId : ∀ r, (f r).nodeId = r.nodeId
  quorum : ∀ r, (f r).quorum = r.quorum
  link : ∀ r, (f r).escalatedFromGateId = r.escalatedFromGateId
  escalated : ∀ r, (f r).status = .escalated → r.status = .escalated

theorem keepsRow_flipRow (gateId : ℕ) (decision : GateDecision) (userId : ℕ) :
    KeepsRow (flipRow gateId decision userId) := by
  constructor <;> intro r <;> unfold flipRow <;> split <;> try rfl
  · cases decision <;> simp [GateDecision.status]
  · exact id

theorem keepsRow_cancelRow (ids : List ℕ) : KeepsRow (cancelRow ids) := by
  constructor <;> intro r <;> unfold cancelRow <;> split <;> try rfl
  · simp
  · exact id

section Shape

variable {quorum : GateQuorum} {runId nextId : ℕ} {nodeId : String} {rows : List GateRow}
  (h : GroupShape quorum runId nodeId rows nextId)

include h in
theorem GroupShape.map {f : GateRow → GateRow} (hf : KeepsRow f) :
    GroupShape quorum runId nodeId (rows.map f) nextId := by
  have hids : (rows.map f).map GateRow.id = rows.map GateRow.id := by
    rw [map_map]
    exact map_congr_left fun r _ => hf.id r
  refine ⟨?_, ?_, hids ▸ h.ids, ?_, ?_⟩
  · simp only [forall_mem_map, hf.quorum]
    exact h.quorum_eq
  · simp only [forall_mem_map, hf.runId, hf.nodeId]
    exact h.group_eq
  · simp only [forall_mem_map, hf.id]
    exact h.fresh
  · simp only [forall_mem_map, hf.link, hf.id]
    intro r hr hstatus
    obtain ⟨horiginal, r', hr', hlink⟩ := h.escalated r hr (hf.escalated r hstatus)
    exact ⟨horiginal, f r', mem_map_of_mem hr', (hf.link r').trans hlink⟩

include h in
theorem GroupShape.siblings : rows.filter (·.inGroup runId nodeId) = rows := by
  refine filter_eq_self.mpr fun r hr => ?_
  simp [GateRow.inGroup, h.group_eq r hr]

variable {gate : GateRow}

theorem pendingRow_eq_some {gateId : ℕ} (h : pendingRow rows gateId = some gate) :
    gate ∈ rows ∧ gate.id = gateId ∧ gate.status = .pending := by
  have hfound := find?_some h
  simp only [Bool.and_eq_true, decide_eq_true_eq] at hfound
  exact ⟨mem_of_find?_eq_some h, hfound.1, hfound.2⟩

theorem pendingRow_eq_none (h : ∀ r ∈ rows, r.isOpen = false) (gateId : ℕ) :
    pendingRow rows gateId = none := by
  refine find?_eq_none.mpr fun r hr => ?_
  have hclosed := h r hr
  simp only [GateRow.isOpen, Bool.or_eq_false_iff, decide_eq_false_iff_not] at hclosed
  simp [hclosed.1]

variable {r : GateRow}

theorem isOpen_cancelRow_all (hr : r ∈ rows) :
    (cancelRow ((rows.filter GateRow.isOpen).map GateRow.id) r).isOpen = false := by
  unfold cancelRow
  split
  next => rfl
  next hkeep =>
    by_contra hopen
    rw [Bool.not_eq_false] at hopen
    exact hkeep ⟨mem_map_of_mem (mem_filter.mpr ⟨hr, hopen⟩), hopen⟩

theorem cancelRow_of_closed {ids : List ℕ} (h : r.isOpen = false) : cancelRow ids r = r := by
  rw [cancelRow, if_neg]
  rw [h]
  exact fun hand => absurd hand.2 Bool.false_ne_true

theorem status_flipRow {gateId userId : ℕ} {decision : GateDecision} :
    (flipRow gateId decision userId r).status = r.status ∨
      (flipRow gateId decision userId r).status = decision.status := by
  unfold flipRow
  split
  · exact .inr rfl
  · exact .inl rfl

/-! ### One decision -/

/-- A row that may stand in an open group. -/
def GateRow.Undecided (r : GateRow) : Prop :=
  r.status = .pending ∨ r.status = .approved ∨ r.status = .escalated

include h in
theorem GroupShape.replaced (hstatus : ∀ r ∈ rows, r.Undecided)
    (hnone : ∀ r ∈ rows, r.status ≠ .pending) :
    (∀ r ∈ rows, r.status ≠ .approved → ∃ r' ∈ rows, r'.escalatedFromGateId = some r.id) ∧
      ∀ r' ∈ rows, r'.escalatedFromGateId ≠ none → r'.status = .approved := by
  constructor
  · intro r hr hne
    rcases hstatus r hr with hpending | happroved | hescalated
    · exact absurd hpending (hnone r hr)
    · exact absurd happroved hne
    · exact (h.escalated r hr hescalated).2
  · intro r' hr' hlink
    rcases hstatus r' hr' with hpending | happroved | hescalated
    · exact absurd hpending (hnone r' hr')
    · exact happroved
    · exact absurd (h.escalated r' hr' hescalated).1 hlink

/-- **The approve branch under `all`**: with nobody left to decide the quorum does not
refuse, and the rows are unanimous. -/
theorem resolveQuorumOutcome_all (h : GroupShape .all runId nodeId rows nextId)
    (hstatus : ∀ r ∈ rows, r.Undecided) (hnone : ∀ r ∈ rows, r.status ≠ .pending) :
    resolveQuorumOutcome .all .approved rows =
        .ok ⟨some .approve, (rows.filter GateRow.isOpen).map GateRow.id⟩ ∧
      Unanimous (rows.map (cancelRow ((rows.filter GateRow.isOpen).map GateRow.id))) := by
  obtain ⟨hreplaced, happroved⟩ := h.replaced hstatus hnone
  have hnorejected : ∀ r ∈ rows, r.status ≠ .rejected := by
    intro r hr hrejected
    rcases hstatus r hr with hs | hs | hs <;> rw [hs] at hrejected <;> cases hrejected
  have hpending : (rows.any fun r => r.status = .pending) = false :=
    any_eq_false.mpr fun r hr => by simpa using hnone r hr
  have hrejected : (rows.any fun r => r.status = .rejected) = false :=
    any_eq_false.mpr fun r hr => by simpa using hnorejected r hr
  have hresolved : (rows.any fun s => s.status ≠ .approved &&
      !((rows.filter (·.status = .approved)).filterMap GateRow.escalatedFromGateId).contains s.id) =
        false := by
    refine any_eq_false.mpr fun r hr => ?_
    by_cases hr' : r.status = .approved
    · simp [hr']
    · obtain ⟨r', hmem, hlink⟩ := hreplaced r hr hr'
      have happ : r'.status = .approved := happroved r' hmem (by simp [hlink])
      simp only [decide_not, Bool.and_eq_true, Bool.not_eq_true', decide_eq_false_iff_not,
        contains_eq_mem, mem_filterMap, mem_filter, decide_eq_true_eq, not_and,
        not_exists, not_forall, not_not]
      exact fun _ => ⟨r', ⟨hmem, happ⟩, hlink⟩
  constructor
  · simp only [resolveQuorumOutcome, hpending, hrejected, hresolved, reduceCtorEq, if_false,
      Bool.false_eq_true]
  · have hkeep : ∀ r ∈ rows, r.status = .approved →
        cancelRow ((rows.filter GateRow.isOpen).map GateRow.id) r = r := fun r _ hr =>
      cancelRow_of_closed (by simp [GateRow.isOpen, hr])
    have hf := keepsRow_cancelRow ((rows.filter GateRow.isOpen).map GateRow.id)
    refine ⟨?_, ?_⟩
    · simp only [forall_mem_map]
      intro r hr
      unfold cancelRow
      split
      · simp
      · exact hnorejected r hr
    · simp only [forall_mem_map, hf.link, hf.id]
      intro r hr _
      by_cases hr' : r.status = .approved
      · left
        rw [hkeep r hr hr', hr']
      · right
        obtain ⟨r', hmem, hlink⟩ := hreplaced r hr hr'
        refine ⟨⟨_, mem_map_of_mem hmem, (hf.link r').trans hlink⟩, fun r' hmem hlink => ?_⟩
        have happ := happroved r' hmem (by simp [hlink])
        rw [hkeep r' hmem happ, happ]

include h in
/-- **A decision in an open group** never fails; it waits for the others, or it resumes and
leaves no row open. -/
theorem decideRows_spec (hstatus : ∀ r ∈ rows, r.Undecided) (hgate : gate ∈ rows)
    (decision : GateDecision) (userId : ℕ) :
    ∃ rows' resume, decideRows rows gate decision userId = .ok (rows', resume) ∧
      GroupShape quorum runId nodeId rows' nextId ∧
      (resume = none → quorum = .all ∧ (∃ r ∈ rows', r.status = .pending) ∧
        ∀ r ∈ rows', r.Undecided) ∧
      ∀ b, resume = some b → (∀ r ∈ rows', r.isOpen = false) ∧
        (quorum = .any → b = decision.branch) ∧
        (quorum = .all → b = .approve → Unanimous rows') := by
  have hflip : GroupShape quorum runId nodeId (rows.map (flipRow gate.id decision userId)) nextId :=
    h.map (keepsRow_flipRow gate.id decision userId)
  obtain ⟨hrun, hnode⟩ := h.group_eq gate hgate
  set flipped := rows.map (flipRow gate.id decision userId) with hflipped
  have hclosed : ∀ r ∈ flipped.map (cancelRow ((flipped.filter GateRow.isOpen).map GateRow.id)),
      r.isOpen = false := by
    simp only [forall_mem_map]
    exact fun r hr => isOpen_cancelRow_all hr
  have hcancel := hflip.map (keepsRow_cancelRow ((flipped.filter GateRow.isOpen).map GateRow.id))
  rw [decideRows, ← hflipped, hrun, hnode, hflip.siblings, h.quorum_eq gate hgate]
  cases quorum with
  | any =>
    refine ⟨_, some decision.branch, rfl, hcancel, by simp, fun b hb => ⟨hclosed, ?_, by simp⟩⟩
    exact fun _ => (Option.some.inj hb).symm
  | all =>
    cases decision with
    | rejected =>
      refine ⟨_, some .reject, rfl, hcancel, by simp, fun b hb => ⟨hclosed, by simp, ?_⟩⟩
      intro _ happrove
      rw [happrove] at hb
      cases hb
    | approved =>
      have hundecided : ∀ r ∈ flipped, r.Undecided := by
        rw [hflipped]
        simp only [forall_mem_map]
        intro r hr
        rcases (status_flipRow : (flipRow gate.id .approved userId r).status = _ ∨ _) with hs | hs
        · rw [GateRow.Undecided, hs]
          exact hstatus r hr
        · exact .inr (.inl hs)
      by_cases hpending : ∃ r ∈ flipped, r.status = .pending
      · have hany : (flipped.any fun r => r.status = .pending) = true := by simpa using hpending
        have hsame : flipped.map (cancelRow []) = flipped := by
          refine (map_congr_left fun r _ => ?_).trans (map_id flipped)
          simp [cancelRow]
        refine ⟨flipped, none, ?_, hflip, fun _ => ⟨rfl, hpending, hundecided⟩, by simp⟩
        simp only [resolveQuorumOutcome, hany, reduceCtorEq, if_false, if_true]
        change Except.ok (flipped.map (cancelRow []), none) = _
        rw [hsame]
      · have hnone : ∀ r ∈ flipped, r.status ≠ .pending :=
          fun r hr hs => hpending ⟨r, hr, hs⟩
        obtain ⟨houtcome, hunanimous⟩ := resolveQuorumOutcome_all hflip hundecided hnone
        rw [houtcome]
        exact ⟨_, some .approve, rfl, hcancel, by simp, fun b _ =>
          ⟨hclosed, by simp, fun _ _ => hunanimous⟩⟩

/-! ### Hand-overs and escalations -/

theorem delegateRows_eq_ok {fromUserId toUserId : ℕ} {rows' : List GateRow}
    (h : delegateRows rows gate fromUserId toUserId = .ok rows') :
    ∃ f, KeepsRow f ∧ (∀ r, (f r).status = r.status) ∧ rows' = rows.map f := by
  simp only [delegateRows, bind_eq_ok, pure_eq_ok] at h
  obtain ⟨_, -, rfl⟩ := h
  refine ⟨_, ?_, ?_, rfl⟩
  · constructor <;> intro r <;> split <;> first | rfl | exact id
  · intro r
    split <;> rfl

theorem mem_replacementRows {users : List ℕ} (h : r ∈ replacementRows gate nextId users) :
    r.status = .pending ∧ r.escalatedFromGateId = some gate.id ∧ r.quorum = gate.quorum ∧
      r.runId = gate.runId ∧ r.nodeId = gate.nodeId ∧ nextId ≤ r.id ∧
      r.id < nextId + users.length := by
  obtain ⟨p, hp, rfl⟩ := mem_map.mp h
  have hlt := snd_lt_of_mem_zipIdx hp
  exact ⟨rfl, rfl, rfl, rfl, rfl, Nat.le_add_right nextId p.2, by simpa using hlt⟩

theorem nodup_replacementRows (gate : GateRow) (users : List ℕ) :
    ((replacementRows gate nextId users).map GateRow.id).Nodup := by
  have hids : (replacementRows gate nextId users).map GateRow.id =
      (users.zipIdx.map Prod.snd).map (nextId + ·) := by
    rw [replacementRows, map_map, map_map]
    rfl
  rw [hids, zipIdx_map_snd, map_add_range']
  exact nodup_range'

theorem setAsideRow_keeps (gateId : ℕ) (r : GateRow) :
    (setAsideRow gateId r).id = r.id ∧ (setAsideRow gateId r).quorum = r.quorum ∧
      (setAsideRow gateId r).runId = r.runId ∧ (setAsideRow gateId r).nodeId = r.nodeId ∧
      (setAsideRow gateId r).escalatedFromGateId = r.escalatedFromGateId := by
  unfold setAsideRow
  split <;> exact ⟨rfl, rfl, rfl, rfl, rfl⟩

include h in
/-- **An escalation** changes nothing, or sets one original row aside for fresh pending
ones. -/
theorem escalateRows_spec (hgate : gate ∈ rows) (horiginal : gate.escalatedFromGateId = none)
    (escalateTo : List ℕ) (hstatus : ∀ r ∈ rows, r.Undecided)
    (hwaiting : ∃ r ∈ rows, r.status = .pending) :
    GroupShape quorum runId nodeId (escalateRows rows nextId gate escalateTo)
        (nextId + escalateTo.length) ∧
      (∀ r ∈ escalateRows rows nextId gate escalateTo, r.Undecided) ∧
      ∃ r ∈ escalateRows rows nextId gate escalateTo, r.status = .pending := by
  have husers : (newApprovers rows gate escalateTo).length ≤ escalateTo.length :=
    length_filter_le _ _
  unfold escalateRows
  split
  next =>
    exact ⟨⟨h.quorum_eq, h.group_eq, h.ids, fun r hr => (h.fresh r hr).trans_le (by omega),
      h.escalated⟩, hstatus, hwaiting⟩
  next hsome =>
    have hids : (rows.map (setAsideRow gate.id)).map GateRow.id = rows.map GateRow.id := by
      rw [map_map]
      exact map_congr_left fun r _ => (setAsideRow_keeps gate.id r).1
    obtain ⟨hrun, hnode⟩ := h.group_eq gate hgate
    obtain ⟨u, hu⟩ := exists_mem_of_ne_nil _ hsome
    obtain ⟨i, hi⟩ := exists_mem_zipIdx hu
    have hreplacement : ∃ r ∈ replacementRows gate nextId (newApprovers rows gate escalateTo), r.status = .pending ∧
        r.escalatedFromGateId = some gate.id :=
      ⟨_, mem_map_of_mem hi, rfl, rfl⟩
    refine ⟨⟨?_, ?_, ?_, ?_, ?_⟩, ?_, ?_⟩
    · simp only [forall_mem_append, forall_mem_map, setAsideRow_keeps]
      exact ⟨h.quorum_eq, fun r hr => (mem_replacementRows hr).2.2.1.trans (h.quorum_eq gate hgate)⟩
    · simp only [forall_mem_append, forall_mem_map, setAsideRow_keeps]
      refine ⟨h.group_eq, fun r hr => ?_⟩
      obtain ⟨-, -, -, hr, hn, -⟩ := mem_replacementRows hr
      exact ⟨hr.trans hrun, hn.trans hnode⟩
    · rw [map_append, hids]
      refine h.ids.append (nodup_replacementRows gate _) ?_
      intro n hold hnew
      obtain ⟨r, hr, rfl⟩ := mem_map.mp hold
      obtain ⟨r', hr', heq⟩ := mem_map.mp hnew
      have hlt := h.fresh r hr
      have hle := (mem_replacementRows hr').2.2.2.2.2.1
      omega
    · simp only [forall_mem_append, forall_mem_map, setAsideRow_keeps]
      refine ⟨fun r hr => (h.fresh r hr).trans_le (by omega), fun r hr => ?_⟩
      have hlt := (mem_replacementRows hr).2.2.2.2.2.2
      omega
    · simp only [forall_mem_append, forall_mem_map, setAsideRow_keeps]
      refine ⟨fun r hr haside => ?_, fun r hr haside => ?_⟩
      · unfold setAsideRow at haside
        split at haside
        next hthis =>
          have hr_eq : r = gate := inj_on_of_nodup_map h.ids hr hgate hthis.1
          obtain ⟨r', hr', -, hto⟩ := hreplacement
          exact ⟨hr_eq ▸ horiginal, r', mem_append_right _ hr', hr_eq ▸ hto⟩
        next =>
          obtain ⟨hor, r', hr', hto⟩ := h.escalated r hr haside
          exact ⟨hor, setAsideRow gate.id r', mem_append_left _ (mem_map_of_mem hr'),
            (setAsideRow_keeps gate.id r').2.2.2.2.trans hto⟩
      · rw [(mem_replacementRows hr).1] at haside
        cases haside
    · simp only [forall_mem_append, forall_mem_map]
      refine ⟨fun r hr => ?_, fun r hr => .inl (mem_replacementRows hr).1⟩
      unfold setAsideRow
      split
      · exact .inr (.inr rfl)
      · exact hstatus r hr
    · obtain ⟨r, hr, hpending, -⟩ := hreplacement
      exact ⟨r, mem_append_right _ hr, hpending⟩

end Shape

/-! ### Whole runs -/

section Runs

variable {quorum : GateQuorum} {runId : ℕ} {nodeId : String} {g g' : GateGroup}

theorem GateGroup.Created.invariant (h : g.Created quorum) :
    ∃ runId nodeId, GroupInvariant quorum runId nodeId g := by
  obtain ⟨runId, nodeId, hgroup⟩ := h.group_eq
  obtain ⟨r, hr⟩ := exists_mem_of_ne_nil _ h.nonempty
  refine ⟨runId, nodeId, ⟨h.quorum_eq, hgroup, h.ids, h.fresh, fun r hr hstatus => ?_⟩, .inl
    ⟨h.undecided.2, ⟨r, hr, (h.pending r hr).1⟩, fun r hr => .inl (h.pending r hr).1,
      fun _ => h.undecided.1⟩⟩
  rw [(h.pending r hr).1] at hstatus
  cases hstatus

theorem GroupInvariant.step (h : GroupInvariant quorum runId nodeId g) {a : GroupStep}
    (hstep : g.step a = .ok g') : GroupInvariant quorum runId nodeId g' := by
  rcases h.phase with hopen | hresumed
  · cases a with
    | decide gateId decision userId =>
      simp only [GateGroup.step, bind_eq_ok, pure_eq_ok, orRefuse_eq_ok] at hstep
      obtain ⟨gate, hgate, ⟨rows, resume⟩, hdecide, rfl⟩ := hstep
      obtain ⟨rows', resume', hdecide', hshape, hwait, hresume⟩ :=
        decideRows_spec h.shape hopen.status (pendingRow_eq_some hgate).1 decision userId
      rw [hdecide'] at hdecide
      cases hdecide
      refine ⟨hshape, ?_⟩
      cases resume with
      | none =>
        obtain ⟨hall, hwaiting, hstatus⟩ := hwait rfl
        refine .inl ⟨?_, hwaiting, hstatus, fun hany => ?_⟩
        · rw [hopen.resumed]
          rfl
        · rw [hall] at hany
          cases hany
      | some b =>
        obtain ⟨hclosed, hany, hall⟩ := hresume b rfl
        refine .inr ⟨hclosed, b, ?_, fun hq => ⟨decision, ?_, hany hq⟩, hall⟩
        · rw [hopen.resumed]
          rfl
        · rw [hopen.first hq]
          rfl
    | delegate gateId fromUserId toUserId =>
      simp only [GateGroup.step, bind_eq_ok, pure_eq_ok, orRefuse_eq_ok] at hstep
      obtain ⟨gate, -, rows, hdelegate, rfl⟩ := hstep
      obtain ⟨f, hf, hstatus, rfl⟩ := delegateRows_eq_ok hdelegate
      refine ⟨h.shape.map hf, .inl ⟨hopen.resumed, ?_, ?_, hopen.first⟩⟩
      · obtain ⟨r, hr, hpending⟩ := hopen.waiting
        exact ⟨f r, mem_map_of_mem hr, (hstatus r).trans hpending⟩
      · simp only [forall_mem_map, hstatus]
        exact hopen.status
    | escalate gateId escalateTo =>
      simp only [GateGroup.step] at hstep
      split at hstep
      next gate hgate =>
        split at hstep
        next horiginal =>
          cases hstep
          obtain ⟨hshape, hstatus, hwaiting⟩ := escalateRows_spec h.shape
            (pendingRow_eq_some hgate).1 horiginal escalateTo hopen.status hopen.waiting
          exact ⟨hshape, .inl ⟨hopen.resumed, hwaiting, hstatus, hopen.first⟩⟩
        next => exact (Except.ok.inj hstep) ▸ h
      next => exact (Except.ok.inj hstep) ▸ h
  · -- a group that has resumed has no pending row left to act on
    have hnone := pendingRow_eq_none hresumed.closed
    cases a with
    | decide gateId decision userId | delegate gateId fromUserId toUserId =>
      simp [GateGroup.step, hnone, orRefuse] at hstep
    | escalate gateId escalateTo =>
      simp only [GateGroup.step, hnone] at hstep
      exact (Except.ok.inj hstep) ▸ h

theorem GroupInvariant.reaches (h : GroupInvariant quorum runId nodeId g) (hrun : g.Reaches g') :
    GroupInvariant quorum runId nodeId g' := by
  induction hrun with
  | refl => exact h
  | tail _ hstep ih =>
    obtain ⟨a, ha⟩ := hstep
    exact ih.step ha

/-- **Approval-group safety.** From a created group, after any decisions, hand-overs and
escalations: the quorum never refuses a decision on a pending row; at most one branch has
resumed, once; after that no row is open; under `any` the branch is that of the first
decision; and under `all` the approve branch means that nobody rejected and every original
row is approved or was set aside with all its replacements approved. -/
theorem approvalGroup_safe (quorum : GateQuorum) (g g' : GateGroup) (hcreated : g.Created quorum)
    (hrun : g.Reaches g') :
    (∀ gate ∈ g'.rows, gate.status = .pending → ∀ decision userId,
        ∃ result, decideRows g'.rows gate decision userId = .ok result) ∧
      g'.resumed.length ≤ 1 ∧
      (g'.resumed ≠ [] → ∀ r ∈ g'.rows, r.status ≠ .pending ∧ r.status ≠ .escalated) ∧
      (quorum = .any → g'.resumed = (g'.decisions.take 1).map GateDecision.branch) ∧
      (quorum = .all → .approve ∈ g'.resumed → Unanimous g'.rows) := by
  obtain ⟨runId, nodeId, hinv⟩ := hcreated.invariant
  have hinv' := hinv.reaches hrun
  rcases hinv'.phase with hopen | hresumed
  · refine ⟨fun gate hgate _ decision userId => ?_, by simp [hopen.resumed],
      by simp [hopen.resumed], fun hany => by simp [hopen.resumed, hopen.first hany],
      by simp [hopen.resumed]⟩
    obtain ⟨rows', resume, hdecide, -⟩ :=
      decideRows_spec hinv'.shape hopen.status hgate decision userId
    exact ⟨_, hdecide⟩
  · obtain ⟨b, hb, hany, hall⟩ := hresumed.branch
    have hclosed : ∀ r ∈ g'.rows, r.status ≠ .pending ∧ r.status ≠ .escalated := by
      intro r hr
      simpa [GateRow.isOpen] using hresumed.closed r hr
    refine ⟨fun gate hgate hpending => absurd hpending (hclosed gate hgate).1, by simp [hb],
      fun _ => hclosed, fun hq => ?_, fun hq happrove => ?_⟩
    · obtain ⟨d, hd, rfl⟩ := hany hq
      simp [hb, hd]
    · rw [hb, mem_singleton] at happrove
      exact hall hq happrove.symm

theorem GateGroup.reaches_of_foldlM {steps : List GroupStep}
    (h : steps.foldlM GateGroup.step g = .ok g') : g.Reaches g' :=
  foldlM_invariant (fun _ s => g.Reaches s) h .refl
    fun _ a _ _ _ _ hreach ha => hreach.tail ⟨a, ha⟩

end Runs

/-- Two approvers who both have to approve. -/
def pairGroup : GateGroup where
  rows := [⟨0, 0, "sign", .all, .pending, some 10, none, none, none⟩,
    ⟨1, 0, "sign", .all, .pending, some 11, none, none, none⟩]
  nextId := 2

/-- The first row is escalated to two others, the second handed over, and all approve. -/
def pairSteps : List GroupStep :=
  [.escalate 0 [20, 21], .delegate 1 11 12, .decide 3 .approved 21, .decide 1 .approved 12,
    .decide 2 .approved 20]

theorem approvalGroup_safe_pair :
    ∃ g, pairGroup.Reaches g ∧ .approve ∈ g.resumed ∧ Unanimous g.rows := by
  obtain ⟨g, hrun, happrove⟩ : ∃ g, pairSteps.foldlM GateGroup.step pairGroup = .ok g ∧
      decide (GateBranch.approve ∈ g.resumed) = true := exists_of_any (by decide +kernel)
  have hcreated : pairGroup.Created .all :=
    ⟨by decide, by decide, by decide, ⟨0, "sign", by decide⟩, by decide, by decide, by decide⟩
  have hreach := GateGroup.reaches_of_foldlM hrun
  have hsafe := approvalGroup_safe .all pairGroup g hcreated hreach
  have happrove := of_decide_eq_true happrove
  exact ⟨g, hreach, happrove, hsafe.2.2.2.2 rfl happrove⟩

end OpenBooks
