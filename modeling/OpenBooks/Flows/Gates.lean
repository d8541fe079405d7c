import OpenBooks.Flows.Graph
import Mathlib.Data.List.Basic

/-!
# Decisions on the gates of a subject

A submitted record is governed by any number of flow runs, each with its own graph and any number of
open gates. A decision on a gate (`ApprovalSubject.decideGate`) flips the row, asks the quorum of
its group, and, when the group resumes, runs the decided branch. A rejection cancels everything that
is open and returns the record. An approval releases the record once nothing is open any more; a
terminal branch that is approved earlier is **parked** in a slot of its run, and the decision that
releases the record completes what the other runs have parked.

The release is safe in every run: it is called at most once, with no gate open, and never after a
rejection. What can go wrong is the slot. It holds one branch, and the completion leaves out the run
of the deciding gate, on the assumption that a run has one gate open at a time. **A branch is lost
exactly where its own run decides again over it**: where a later decision of the run is parked on
top, or is the last one of the run (`ApprovalSubject.ParkedKept`). Otherwise every action planned
behind an approved gate is executed once (`approvals_complete`).
-/

namespace OpenBooks

open Checked List

/-! ### The state of a subject -/

inductive RunStatus where
  | running
  | waiting
  | completed
  | cancelled
  deriving DecidableEq

/-- A branch that waits for the other gates of the subject, with what it was decided on. -/
structure ApprovalContinuation where
  gateId : ℕ
  nodeId : String
  actorId : ℕ
  evalCtx : RuleAnswers

/-- A flow run of the subject, with the graph it was submitted under. -/
structure ApprovalRun where
  id : ℕ
  graph : AutomationGraph
  status : RunStatus
  approvalContinuation : Option ApprovalContinuation := none

def ApprovalRun.live (r : ApprovalRun) : Bool := r.status = .waiting || r.status = .running

/-- A call of the release, with the number of gates that were open then. -/
structure ReleaseCall where
  decision : GateDecision
  openGates : ℕ
  deriving DecidableEq

/-- A group that has resumed, with the plan of its branch. -/
structure ResumedGroup where
  runId : ℕ
  nodeId : String
  branch : GateBranch
  plan : AutomationPlan

/-- A submitted record. `effects` and `claims` are the actions executed and the gates opened,
by run and node; `releases` and `resumed` are what has happened so far. -/
structure ApprovalSubject where
  runs : List ApprovalRun
  gates : List GateRow
  nextId : ℕ
  effects : List (ℕ × String) := []
  claims : List (ℕ × String) := []
  releases : List ReleaseCall := []
  resumed : List ResumedGroup := []

/-- The number of rows that still ask for a decision. -/
def openGateCount (rows : List GateRow) : ℕ := rows.countP GateRow.isOpen

/-! ### Executing a plan -/

/-- The actions of a plan, each unless its run has executed it. -/
def runActions (runId : ℕ) (effects : List (ℕ × String)) (actions : List PlannedAction) :
    List (ℕ × String) :=
  actions.foldl (fun done a =>
    if (runId, a.nodeId) ∈ done then done else done ++ [(runId, a.nodeId)]) effects

/-- The rows of a gate, one for each assignee. -/
def gateRows (runId nextId : ℕ) (g : PlannedGate) (assignees : List ℕ) : List GateRow :=
  assignees.zipIdx.map fun p =>
    { id := nextId + p.2, runId := runId, nodeId := g.nodeId, quorum := g.gate.mode
      assigneeUserId := some p.1 }

/-- A planned gate is opened, unless its run has opened it. -/
def ApprovalSubject.openGate (runId : ℕ) (assignees : String → List ℕ) (s : ApprovalSubject)
    (g : PlannedGate) : Except String ApprovalSubject :=
  if (runId, g.nodeId) ∈ s.claims then .ok s
  else if assignees g.nodeId = [] then
    .error s!"gate \"{g.gate.title}\" resolved to zero assignees"
  else .ok { s with
    gates := s.gates ++ gateRows runId s.nextId g (assignees g.nodeId)
    nextId := s.nextId + (assignees g.nodeId).length
    claims := s.claims ++ [(runId, g.nodeId)] }

/-- The actions of a plan, then its gates. -/
def ApprovalSubject.executeFlowPlan (s : ApprovalSubject) (runId : ℕ)
    (assignees : String → List ℕ) (plan : AutomationPlan) : Except String ApprovalSubject :=
  plan.gates.foldlM (ApprovalSubject.openGate runId assignees)
    { s with effects := runActions runId s.effects plan.actionNodes }

/-! ### Release and completion -/

def ApprovalSubject.releaseApproval (s : ApprovalSubject) (decision : GateDecision) :
    ApprovalSubject :=
  { s with releases := s.releases ++ [⟨decision, openGateCount s.gates⟩] }

def ApprovalSubject.updateRun (s : ApprovalSubject) (runId : ℕ) (f : ApprovalRun → ApprovalRun) :
    ApprovalSubject :=
  { s with runs := s.runs.map fun r => if r.id = runId then f r else r }

/-- A run waits while it has open gates of its own. -/
def ApprovalSubject.finalizeRunStatus (s : ApprovalSubject) (runId : ℕ) : ApprovalSubject :=
  s.updateRun runId fun r =>
    { r with status :=
        if openGateCount (s.gates.filter (·.runId = runId)) > 0 then .waiting else .completed }

/-- A rejection cancels what is open, and the other runs with it. -/
def ApprovalSubject.cancelSubjectApprovals (s : ApprovalSubject) (decidingRunId : ℕ) :
    ApprovalSubject :=
  { s with
    gates := s.gates.map fun r => if r.isOpen then { r with status := .cancelled } else r
    runs := s.runs.map fun r =>
      if r.id ≠ decidingRunId ∧ r.live = true then { r with status := .cancelled } else r }

/-- The parked branch of a run is planned again, as it was decided, and executed. -/
def ApprovalSubject.completeContinuation (s : ApprovalSubject)
    (p : ApprovalRun × ApprovalContinuation) : Except String ApprovalSubject := do
  let original ← orRefuse (s.gates.find? (·.id = p.2.gateId))
    "The pending branch does not match its recorded native approval decision."
  refuseIf (original.runId ≠ p.1.id ∨ original.nodeId ≠ p.2.nodeId ∨
      original.status ≠ .approved ∨ original.decidedBy ≠ some p.2.actorId)
    "The pending branch does not match its recorded native approval decision."
  let plan ← planFromGate p.1.graph p.2.nodeId .approve p.2.evalCtx
  refuseIf (plan.gates ≠ []) "The pending branch contains undecided approval stages."
  let s ← s.executeFlowPlan p.1.id (fun _ => []) plan
  return s.updateRun p.1.id fun r => { r with approvalContinuation := none, status := .completed }

/-- The runs with a parked branch, other than the deciding one. -/
def ApprovalSubject.parkedRuns (s : ApprovalSubject) (currentRunId : ℕ) :
    List (ApprovalRun × ApprovalContinuation) :=
  (s.runs.filter fun r => r.id ≠ currentRunId && r.status = .waiting).filterMap fun r =>
    r.approvalContinuation.map fun parked => (r, parked)

def ApprovalSubject.completeSubjectApprovalContinuations (s : ApprovalSubject)
    (currentRunId : ℕ) : Except String ApprovalSubject :=
  (s.parkedRuns currentRunId).foldlM ApprovalSubject.completeContinuation s

/-! ### A decision -/

/-- A decision, with what the record answers to rules at that time, and whom the gates of the
branch resolve to. -/
structure GateCall where
  gateId : ℕ
  decision : GateDecision
  userId : ℕ
  evalCtx : RuleAnswers
  assignees : String → List ℕ

/-- An approved branch is parked when it is terminal, does something, and a gate is open. -/
def parksBranch (rows : List GateRow) (plan : AutomationPlan) : Prop :=
  plan.gates = [] ∧ plan.actionNodes ≠ [] ∧ openGateCount rows > 0

instance (rows : List GateRow) (plan : AutomationPlan) : Decidable (parksBranch rows plan) :=
  inferInstanceAs (Decidable (_ ∧ _ ∧ _))

/-- What is parked is completed once nothing is open. -/
def ApprovalSubject.completeIfClear (s : ApprovalSubject) (currentRunId : ℕ) :
    Except String ApprovalSubject :=
  if openGateCount s.gates = 0 then s.completeSubjectApprovalContinuations currentRunId else .ok s

/-- An approved branch that is not parked: release first if it is the last one and opens no
gate, execute it, release if nothing is open now, and then complete what is parked. -/
def ApprovalSubject.approveBranch (s : ApprovalSubject) (runId : ℕ)
    (assignees : String → List ℕ) (plan : AutomationPlan) : Except String ApprovalSubject := do
  let releasedBeforeActions := plan.gates = [] ∧ openGateCount s.gates = 0
  let s ← (if releasedBeforeActions then s.releaseApproval .approved else s).executeFlowPlan
    runId assignees plan
  let s := if ¬ releasedBeforeActions ∧ openGateCount s.gates = 0 then
    s.releaseApproval .approved else s
  let s ← s.completeIfClear runId
  return s.finalizeRunStatus runId

/-- A rejected branch is executed, and everything open is cancelled. -/
def ApprovalSubject.rejectBranch (s : ApprovalSubject) (runId : ℕ)
    (assignees : String → List ℕ) (plan : AutomationPlan) : Except String ApprovalSubject := do
  let s ← s.executeFlowPlan runId assignees plan
  return ((s.cancelSubjectApprovals runId).releaseApproval .rejected).finalizeRunStatus runId

def ApprovalSubject.resumeBranch (s : ApprovalSubject) (gate : GateRow) (c : GateCall)
    (branch : GateBranch) (plan : AutomationPlan) : Except String ApprovalSubject :=
  let s : ApprovalSubject :=
    { s with resumed := s.resumed ++ [⟨gate.runId, gate.nodeId, branch, plan⟩] }
  match branch with
  | .reject => s.rejectBranch gate.runId c.assignees plan
  | .approve =>
    if parksBranch s.gates plan then
      .ok (s.updateRun gate.runId fun r =>
        { r with
          approvalContinuation := some ⟨gate.id, gate.nodeId, c.userId, c.evalCtx⟩
          status := .waiting })
    else s.approveBranch gate.runId c.assignees plan

/-- **One serialized decision.** -/
def ApprovalSubject.decideGate (s : ApprovalSubject) (c : GateCall) :
    Except String ApprovalSubject := do
  let gate ← orRefuse (pendingRow s.gates c.gateId) "this approval was already resolved"
  let run ← orRefuse (s.runs.find? fun r => r.id = gate.runId && r.live)
    "This submission is no longer active. Recall it and submit the current record through Flows."
  let decided ← decideRows s.gates gate c.decision c.userId
  match decided.2 with
  | none => return { s with gates := decided.1 }
  | some branch => do
    let plan ← planFromGate run.graph gate.nodeId branch c.evalCtx
    ({ s with gates := decided.1 } : ApprovalSubject).resumeBranch gate c branch plan

/-! ### What a decision does -/

variable {s s' : ApprovalSubject} {c : GateCall} {runId : ℕ} {assignees : String → List ℕ}

section Steps

variable {plan : AutomationPlan}

theorem ApprovalSubject.decideGate_eq_ok (h : s.decideGate c = .ok s') :
    ∃ gate run rows, pendingRow s.gates c.gateId = some gate ∧
      (s.runs.find? fun r => r.id = gate.runId && r.live) = some run ∧
      (decideRows s.gates gate c.decision c.userId = .ok (rows, none) ∧
          s' = { s with gates := rows } ∨
        ∃ branch plan, decideRows s.gates gate c.decision c.userId = .ok (rows, some branch) ∧
          planFromGate run.graph gate.nodeId branch c.evalCtx = .ok plan ∧
          ({ s with gates := rows } : ApprovalSubject).resumeBranch gate c branch plan =
            .ok s') := by
  simp only [decideGate, bind_eq_ok, orRefuse_eq_ok] at h
  obtain ⟨gate, hgate, run, hrun, ⟨rows, resume⟩, hrows, h⟩ := h
  refine ⟨gate, run, rows, hgate, hrun, ?_⟩
  cases resume with
  | none => exact .inl ⟨hrows, (pure_eq_ok.mp h).symm⟩
  | some branch =>
    obtain ⟨plan, hplan, h⟩ := bind_eq_ok.mp h
    exact .inr ⟨branch, plan, hrows, hplan, h⟩

theorem openGates_frame {gates : List PlannedGate}
    (h : gates.foldlM (ApprovalSubject.openGate runId assignees) s = .ok s') :
    s'.runs = s.runs ∧ s'.effects = s.effects ∧ s'.releases = s.releases ∧
      s'.resumed = s.resumed := by
  induction gates generalizing s with
  | nil =>
    cases h
    exact ⟨rfl, rfl, rfl, rfl⟩
  | cons g gates ih =>
    rw [foldlM_cons, bind_eq_ok] at h
    obtain ⟨s₁, h₁, h⟩ := h
    obtain ⟨hruns, heffects, hreleases, hresumed⟩ := ih h
    unfold ApprovalSubject.openGate at h₁
    split_ifs at h₁
    all_goals
      cases h₁
      exact ⟨hruns, heffects, hreleases, hresumed⟩

theorem ApprovalSubject.executeFlowPlan_frame
    (h : s.executeFlowPlan runId assignees plan = .ok s') :
    s'.runs = s.runs ∧ s'.effects = runActions runId s.effects plan.actionNodes ∧
      s'.releases = s.releases ∧ s'.resumed = s.resumed := openGates_frame h

theorem ApprovalSubject.executeFlowPlan_terminal (hgates : plan.gates = []) :
    s.executeFlowPlan runId assignees plan =
      .ok { s with effects := runActions runId s.effects plan.actionNodes } := by
  rw [executeFlowPlan, hgates]
  rfl

/-- An approved branch is executed. If something is open then, the run is left as it is;
otherwise the record is released and what is parked is completed. -/
theorem ApprovalSubject.approveBranch_eq_ok
    (h : s.approveBranch runId assignees plan = .ok s') :
    ∃ s₁, s.executeFlowPlan runId assignees plan = .ok s₁ ∧
      (openGateCount s₁.gates > 0 ∧ s' = s₁.finalizeRunStatus runId ∨
        openGateCount s₁.gates = 0 ∧ ∃ s₂,
          (s₁.releaseApproval .approved).completeSubjectApprovalContinuations runId = .ok s₂ ∧
            s' = s₂.finalizeRunStatus runId) := by
  simp only [approveBranch, bind_eq_ok, pure_eq_ok] at h
  obtain ⟨s₁, hexec, s₂, hcomplete, rfl⟩ := h
  by_cases hbefore : plan.gates = [] ∧ openGateCount s.gates = 0
  · -- released before the actions: a terminal branch opens no gate, so the two commute
    simp only [hbefore, and_self, if_true, not_true_eq_false, false_and, if_false] at hexec hcomplete
    rw [executeFlowPlan_terminal hbefore.1] at hexec
    cases hexec
    refine ⟨_, executeFlowPlan_terminal hbefore.1, .inr ⟨hbefore.2, s₂, ?_, rfl⟩⟩
    simpa only [completeIfClear, releaseApproval, hbefore.2, if_true] using hcomplete
  · simp only [hbefore, if_false, not_false_eq_true, true_and] at hexec hcomplete
    refine ⟨s₁, hexec, ?_⟩
    by_cases hopen : openGateCount s₁.gates = 0
    · exact .inr ⟨hopen, s₂, by simpa [completeIfClear, hopen, releaseApproval] using hcomplete, rfl⟩
    · refine .inl ⟨Nat.pos_of_ne_zero hopen, ?_⟩
      simp only [completeIfClear, hopen, if_false, Except.ok.injEq] at hcomplete
      rw [hcomplete]

theorem ApprovalSubject.rejectBranch_eq_ok (h : s.rejectBranch runId assignees plan = .ok s') :
    ∃ s₁, s.executeFlowPlan runId assignees plan = .ok s₁ ∧
      s' = ((s₁.cancelSubjectApprovals runId).releaseApproval .rejected).finalizeRunStatus
        runId := by
  simp only [rejectBranch, bind_eq_ok, pure_eq_ok] at h
  obtain ⟨s₁, hexec, rfl⟩ := h
  exact ⟨s₁, hexec, rfl⟩

end Steps

/-! ### Runs of decisions -/

namespace ApprovalSubject

/-- One state reaches another by decisions that succeed. -/
def Reaches : ApprovalSubject → ApprovalSubject → Prop :=
  Relation.ReflTransGen fun s s' => ∃ c, s.decideGate c = .ok s'

/-- A record as it is submitted: nothing has been decided, released or parked. -/
structure Submitted (s : ApprovalSubject) : Prop where
  runIds : (s.runs.map ApprovalRun.id).Nodup
  effects : s.effects.Nodup
  parked : ∀ r ∈ s.runs, r.approvalContinuation = none
  releases : s.releases = []
  resumed : s.resumed = []

/-- The run of a gate keeps an open gate behind an approval: one of `rows`, or one that the
branch opens. -/
def KeepsOpen (s : ApprovalSubject) (runId : ℕ) (rows : List GateRow) (plan : AutomationPlan) :
    Prop :=
  (∃ r ∈ rows, r.isOpen = true ∧ r.runId = runId) ∨
    ∃ g ∈ plan.gates, (runId, g.nodeId) ∉ s.claims

/-- **A decision keeps what its own run has parked.** When it approves a group of a run with a
parked branch, the actions of that branch have been executed or are in the new branch as well,
or the run keeps an open gate and the new branch is not parked over the old one. -/
def ParkedKept (s : ApprovalSubject) (c : GateCall) : Prop :=
  ∀ gate run rows plan parked parkedPlan, pendingRow s.gates c.gateId = some gate →
    (s.runs.find? fun r => r.id = gate.runId && r.live) = some run →
    decideRows s.gates gate c.decision c.userId = .ok (rows, some .approve) →
    planFromGate run.graph gate.nodeId .approve c.evalCtx = .ok plan →
    run.approvalContinuation = some parked →
    planFromGate run.graph parked.nodeId .approve parked.evalCtx = .ok parkedPlan →
      (∀ a ∈ parkedPlan.actionNodes, (run.id, a.nodeId) ∈ s.effects ∨
        ∃ b ∈ plan.actionNodes, b.nodeId = a.nodeId) ∨
      ¬ parksBranch rows plan ∧ s.KeepsOpen gate.runId rows plan

def ReachesKeeping : ApprovalSubject → ApprovalSubject → Prop :=
  Relation.ReflTransGen fun s s' => ∃ c, s.ParkedKept c ∧ s.decideGate c = .ok s'

/-- The release was called at most once, and an approving one with no gate open. -/
def ReleasedOnce (s : ApprovalSubject) : Prop :=
  s.releases.length ≤ 1 ∧ ∀ call ∈ s.releases, call.decision = .approved → call.openGates = 0

/-- A rejected group is the end: nothing has been released as approved, and neither a gate nor
a run is open. -/
def RejectedForGood (s : ApprovalSubject) : Prop :=
  (∃ g ∈ s.resumed, g.branch = .reject) →
    (∀ call ∈ s.releases, call.decision ≠ .approved) ∧ (∀ r ∈ s.gates, r.isOpen = false) ∧
      ∀ run ∈ s.runs, run.live = false

/-- Every action behind an approved group has been executed once, if the record has been
released as approved. -/
def BranchesExecuted (s : ApprovalSubject) : Prop :=
  (∃ call ∈ s.releases, call.decision = .approved) →
    ∀ g ∈ s.resumed, g.branch = .approve → ∀ a ∈ g.plan.actionNodes,
      s.effects.count (g.runId, a.nodeId) = 1

end ApprovalSubject

open ApprovalSubject

/-! ### Effects -/

variable {actions : List PlannedAction} {effects : List (ℕ × String)}

theorem mem_runActions {x : ℕ × String} :
    x ∈ runActions runId effects actions ↔
      x ∈ effects ∨ ∃ a ∈ actions, x = (runId, a.nodeId) := by
  induction actions generalizing effects with
  | nil => simp [runActions]
  | cons a actions ih =>
    rw [runActions, foldl_cons]
    refine ih.trans ?_
    rw [exists_mem_cons_iff]
    split_ifs with hmem
    · constructor
      · rintro (hx | hx)
        · exact .inl hx
        · exact .inr (.inr hx)
      · rintro (hx | rfl | hx)
        · exact .inl hx
        · exact .inl hmem
        · exact .inr hx
    · rw [mem_append, mem_singleton, or_assoc]

theorem nodup_runActions (h : effects.Nodup) : (runActions runId effects actions).Nodup := by
  induction actions generalizing effects with
  | nil => exact h
  | cons a actions ih =>
    rw [runActions, foldl_cons]
    refine ih ?_
    split_ifs with hmem
    · exact h
    · refine Nodup.append h (nodup_singleton _) ?_
      rintro x hx hxa
      exact hmem (mem_singleton.mp hxa ▸ hx)

variable {rows : List GateRow}

theorem openGateCount_eq_zero : openGateCount rows = 0 ↔ ∀ r ∈ rows, r.isOpen = false := by
  simp [openGateCount, List.countP_eq_zero]

theorem openGateCount_pos :
    0 < openGateCount rows ↔ ∃ r ∈ rows, r.isOpen = true := countP_pos_iff

/-! ### Opening gates -/

section OpenGates

variable {gates : List PlannedGate}

theorem openGates_subset (h : gates.foldlM (openGate runId assignees) s = .ok s') :
    ∀ r ∈ s.gates, r ∈ s'.gates := by
  induction gates generalizing s with
  | nil =>
    cases h
    exact fun _ hr => hr
  | cons g gates ih =>
    rw [foldlM_cons, bind_eq_ok] at h
    obtain ⟨s₁, h₁, h⟩ := h
    intro r hr
    refine ih h r ?_
    unfold openGate at h₁
    split_ifs at h₁
    · cases h₁
      exact hr
    · cases h₁
      exact mem_append_left _ hr

theorem isOpen_of_mem_gateRows {nextId : ℕ} {g : PlannedGate} {users : List ℕ} {r : GateRow}
    (h : r ∈ gateRows runId nextId g users) : r.isOpen = true ∧ r.runId = runId := by
  obtain ⟨p, -, rfl⟩ := mem_map.mp h
  exact ⟨rfl, rfl⟩

theorem openGates_opens (h : gates.foldlM (openGate runId assignees) s = .ok s')
    (hnew : ∃ g ∈ gates, (runId, g.nodeId) ∉ s.claims) :
    ∃ r ∈ s'.gates, r.isOpen = true ∧ r.runId = runId := by
  induction gates generalizing s with
  | nil => simp at hnew
  | cons g gates ih =>
    rw [foldlM_cons, bind_eq_ok] at h
    obtain ⟨s₁, h₁, h⟩ := h
    unfold openGate at h₁
    split_ifs at h₁ with hclaimed hempty
    · cases h₁
      rcases (exists_mem_cons_iff _ _ _).mp hnew with hg | hg
      · exact absurd hclaimed hg
      · exact ih h hg
    · cases h₁
      obtain ⟨u, users, husers⟩ := exists_cons_of_ne_nil hempty
      obtain ⟨r, hr⟩ : ∃ r, r ∈ gateRows runId s.nextId g (assignees g.nodeId) := by
        rw [husers]
        exact ⟨_, mem_cons_self⟩
      exact ⟨r, openGates_subset h r (mem_append_right _ hr), isOpen_of_mem_gateRows hr⟩

end OpenGates

/-- A state in which an approved branch of the run has just been executed. -/
structure ExecutedBranch (s : ApprovalSubject) (gate : GateRow) (rows : List GateRow)
    (plan : AutomationPlan) (s₁ : ApprovalSubject) : Prop where
  runs : s₁.runs = s.runs
  effects : s₁.effects = runActions gate.runId s.effects plan.actionNodes
  releases : s₁.releases = s.releases
  resumed : s₁.resumed = s.resumed ++ [⟨gate.runId, gate.nodeId, .approve, plan⟩]
  /-- The run has an open gate if it keeps one. -/
  keeps : s.KeepsOpen gate.runId rows plan →
    ∃ r ∈ s₁.gates, r.isOpen = true ∧ r.runId = gate.runId

/-- The approving decisions: the branch is parked; or it is executed, and the run left with
what is still open; or it is executed, the record released, and what is parked completed. -/
theorem ApprovalSubject.resumeBranch_approve {gate : GateRow} {plan : AutomationPlan}
    (h : ({ s with gates := rows } : ApprovalSubject).resumeBranch gate c .approve plan = .ok s') :
    parksBranch rows plan ∧
        s' = updateRun
          { s with
            gates := rows
            resumed := s.resumed ++ [⟨gate.runId, gate.nodeId, .approve, plan⟩] }
          gate.runId (fun r => { r with
            approvalContinuation := some ⟨gate.id, gate.nodeId, c.userId, c.evalCtx⟩
            status := .waiting }) ∨
      ¬ parksBranch rows plan ∧ ∃ s₁, ExecutedBranch s gate rows plan s₁ ∧
        (openGateCount s₁.gates > 0 ∧ s' = s₁.finalizeRunStatus gate.runId ∨
          openGateCount s₁.gates = 0 ∧ ∃ s₂,
            (s₁.releaseApproval .approved).completeSubjectApprovalContinuations gate.runId =
                .ok s₂ ∧
              s' = s₂.finalizeRunStatus gate.runId) := by
  unfold resumeBranch at h
  simp only at h
  split_ifs at h with hparks
  · cases h
    exact .inl ⟨hparks, rfl⟩
  · obtain ⟨s₁, hexec, hend⟩ := approveBranch_eq_ok h
    obtain ⟨hruns, heffects, hreleases, hresumed⟩ := executeFlowPlan_frame hexec
    refine .inr ⟨hparks, s₁, ⟨hruns, heffects, hreleases, hresumed, ?_⟩, hend⟩
    rintro (⟨r, hr, hopen⟩ | hnew)
    · exact ⟨r, openGates_subset hexec r hr, hopen⟩
    · exact openGates_opens hexec hnew

/-! ### Completing what is parked -/

/-- What a completion changes: it executes, and settles runs. -/
structure Completes (s s' : ApprovalSubject) : Prop where
  gates : s'.gates = s.gates
  releases : s'.releases = s.releases
  resumed : s'.resumed = s.resumed
  effects : ∀ x ∈ s.effects, x ∈ s'.effects
  nodup : s.effects.Nodup → s'.effects.Nodup
  runIds : s'.runs.map ApprovalRun.id = s.runs.map ApprovalRun.id

theorem Completes.trans {s'' : ApprovalSubject} (h : Completes s s') (h' : Completes s' s'') :
    Completes s s'' where
  gates := h'.gates.trans h.gates
  releases := h'.releases.trans h.releases
  resumed := h'.resumed.trans h.resumed
  effects x hx := h'.effects x (h.effects x hx)
  nodup hs := h'.nodup (h.nodup hs)
  runIds := h'.runIds.trans h.runIds

section Completion

variable {f : ApprovalRun → ApprovalRun}

theorem map_id_updateRun (s : ApprovalSubject) (runId : ℕ) (hf : ∀ r, (f r).id = r.id) :
    (s.updateRun runId f).runs.map ApprovalRun.id = s.runs.map ApprovalRun.id := by
  rw [updateRun, map_map]
  refine map_congr_left fun r _ => ?_
  simp only [Function.comp_apply]
  split_ifs
  · exact hf r
  · rfl

theorem nodup_updateRun (h : (s.runs.map ApprovalRun.id).Nodup) (hf : ∀ r, (f r).id = r.id) :
    ((s.updateRun runId f).runs.map ApprovalRun.id).Nodup := by
  rw [map_id_updateRun s runId hf]
  exact h

theorem completeContinuation_spec {p : ApprovalRun × ApprovalContinuation}
    (h : s.completeContinuation p = .ok s') :
    Completes s s' ∧ ∃ plan, planFromGate p.1.graph p.2.nodeId .approve p.2.evalCtx = .ok plan ∧
      ∀ a ∈ plan.actionNodes, (p.1.id, a.nodeId) ∈ s'.effects := by
  simp only [completeContinuation, bind_eq_ok, orRefuse_eq_ok, refuseIf_eq_ok,
    pure_eq_ok, not_not] at h
  obtain ⟨_, _, _, _, plan, hplan, _, hgates, s₁, hexec, rfl⟩ := h
  rw [executeFlowPlan_terminal hgates] at hexec
  cases hexec
  refine ⟨⟨rfl, rfl, rfl, fun x hx => mem_runActions.mpr (.inl hx), nodup_runActions,
    map_id_updateRun _ _ fun _ => rfl⟩, plan, hplan, fun a ha => ?_⟩
  exact mem_runActions.mpr (.inr ⟨a, ha, rfl⟩)

/-- **A completion executes every branch it is given.** -/
theorem completeContinuations_spec {parked : List (ApprovalRun × ApprovalContinuation)}
    (h : parked.foldlM completeContinuation s = .ok s') :
    Completes s s' ∧ ∀ p ∈ parked, ∃ plan,
      planFromGate p.1.graph p.2.nodeId .approve p.2.evalCtx = .ok plan ∧
        ∀ a ∈ plan.actionNodes, (p.1.id, a.nodeId) ∈ s'.effects := by
  induction parked generalizing s with
  | nil =>
    cases h
    exact ⟨⟨rfl, rfl, rfl, fun _ hx => hx, fun hs => hs, rfl⟩, by simp⟩
  | cons p parked ih =>
    rw [foldlM_cons, bind_eq_ok] at h
    obtain ⟨s₁, h₁, h⟩ := h
    obtain ⟨hfirst, plan, hplan, hactions⟩ := completeContinuation_spec h₁
    obtain ⟨hrest, hall⟩ := ih h
    refine ⟨hfirst.trans hrest, forall_mem_cons.mpr ⟨⟨plan, hplan, fun a ha => ?_⟩, hall⟩⟩
    exact hrest.effects _ (hactions a ha)

end Completion

/-! ### The release -/

/-- **What holds of the release in every run.** -/
structure ReleaseInvariant (s : ApprovalSubject) : Prop where
  effects : s.effects.Nodup
  released : s.releases = [] ∨
    (∃ d, s.releases = [⟨d, 0⟩]) ∧ ∀ r ∈ s.gates, r.isOpen = false
  rejected : (∃ g ∈ s.resumed, g.branch = .reject) →
    s.releases = [⟨.rejected, 0⟩] ∧ ∀ run ∈ s.runs, run.live = false

theorem ReleaseInvariant.unreleased (h : ReleaseInvariant s) {gateId : ℕ} {gate : GateRow}
    (hgate : pendingRow s.gates gateId = some gate) :
    s.releases = [] ∧ ∀ g ∈ s.resumed, g.branch ≠ .reject := by
  have hnone : s.releases = [] := by
    rcases h.released with hnone | ⟨-, hclosed⟩
    · exact hnone
    · rw [pendingRow_eq_none hclosed] at hgate
      cases hgate
  refine ⟨hnone, fun g hg hreject => ?_⟩
  have := (h.rejected ⟨g, hg, hreject⟩).1
  rw [hnone] at this
  cases this

theorem ApprovalSubject.Submitted.releaseInvariant (h : s.Submitted) : ReleaseInvariant s where
  effects := h.effects
  released := .inl h.releases
  rejected := by simp [h.resumed]

theorem isOpen_cancelSubjectApprovals (s : ApprovalSubject) (runId : ℕ) :
    ∀ r ∈ (s.cancelSubjectApprovals runId).gates, r.isOpen = false := by
  intro r hr
  obtain ⟨r₀, -, rfl⟩ := mem_map.mp hr
  split_ifs with hopen
  · rfl
  · exact Bool.eq_false_iff.mpr hopen

theorem live_rejected (s : ApprovalSubject) (runId : ℕ) :
    ∀ run ∈ (((s.cancelSubjectApprovals runId).releaseApproval .rejected).finalizeRunStatus
      runId).runs, run.live = false := by
  have hclosed : openGateCount (((s.cancelSubjectApprovals runId).gates).filter
      (·.runId = runId)) = 0 :=
    openGateCount_eq_zero.mpr fun r hr =>
      isOpen_cancelSubjectApprovals s runId r (mem_of_mem_filter hr)
  intro run hrun
  obtain ⟨r₁, hr₁, rfl⟩ := mem_map.mp hrun
  obtain ⟨r₀, -, rfl⟩ := mem_map.mp hr₁
  by_cases hid : r₀.id = runId
  · simp [hid, releaseApproval, hclosed, ApprovalRun.live]
  · by_cases hlive : r₀.live = true
    · simp only [hid, hlive, ne_eq, not_false_eq_true, and_self, if_true, if_false]
      rfl
    · simp [hid, hlive]

theorem ReleaseInvariant.step (h : ReleaseInvariant s) (hstep : s.decideGate c = .ok s') :
    ReleaseInvariant s' := by
  obtain ⟨gate, run, rows, hgate, -, hcases⟩ := decideGate_eq_ok hstep
  obtain ⟨hnone, hnoreject⟩ := h.unreleased hgate
  rcases hcases with ⟨-, rfl⟩ | ⟨branch, plan, -, -, hresume⟩
  · exact ⟨h.effects, .inl hnone, fun ⟨g, hg, hreject⟩ => absurd hreject (hnoreject g hg)⟩
  cases branch with
  | reject =>
    obtain ⟨s₁, hexec, rfl⟩ := rejectBranch_eq_ok hresume
    obtain ⟨-, heffects, hreleases, -⟩ := executeFlowPlan_frame hexec
    have hclosed := isOpen_cancelSubjectApprovals s₁ gate.runId
    have hcalls : s₁.releases ++ [⟨.rejected, openGateCount
        (s₁.cancelSubjectApprovals gate.runId).gates⟩] = [⟨.rejected, 0⟩] := by
      rw [hreleases, openGateCount_eq_zero.mpr hclosed, hnone]
      rfl
    refine ⟨?_, .inr ⟨⟨.rejected, hcalls⟩, hclosed⟩, fun _ => ⟨hcalls, live_rejected s₁ _⟩⟩
    show s₁.effects.Nodup
    rw [heffects]
    exact nodup_runActions h.effects
  | approve =>
    have hstill : ∀ g ∈ s.resumed ++ [⟨gate.runId, gate.nodeId, .approve, plan⟩],
        g.branch ≠ .reject := by
      rw [forall_mem_append, forall_mem_singleton]
      exact ⟨hnoreject, by simp⟩
    rcases resumeBranch_approve hresume with
      ⟨-, rfl⟩ | ⟨-, s₁, hexec, ⟨-, rfl⟩ | ⟨hopen, s₂, hcomplete, rfl⟩⟩
    · exact ⟨h.effects, .inl hnone, fun ⟨g, hg, hreject⟩ => absurd hreject (hstill g hg)⟩
    · refine ⟨?_, .inl (hexec.releases.trans hnone), fun ⟨g, hg, hreject⟩ => ?_⟩
      · show s₁.effects.Nodup
        rw [hexec.effects]
        exact nodup_runActions h.effects
      · exact absurd hreject (hstill g (hexec.resumed ▸ hg))
    · obtain ⟨hdone, -⟩ := completeContinuations_spec hcomplete
      have hcalls : s₂.releases = [⟨.approved, 0⟩] := by
        rw [hdone.releases]
        show s₁.releases ++ [⟨.approved, openGateCount s₁.gates⟩] = _
        rw [hexec.releases, hopen, hnone]
        rfl
      have hclosed : ∀ r ∈ s₂.gates, r.isOpen = false :=
        hdone.gates ▸ openGateCount_eq_zero.mp hopen
      have hresumed : s₂.resumed = _ := hdone.resumed.trans hexec.resumed
      refine ⟨hdone.nodup ?_, .inr ⟨⟨.approved, hcalls⟩, hclosed⟩, fun ⟨g, hg, hreject⟩ => ?_⟩
      · show s₁.effects.Nodup
        rw [hexec.effects]
        exact nodup_runActions h.effects
      · exact absurd hreject (hstill g (hresumed ▸ hg))

theorem ReleaseInvariant.reaches (h : ReleaseInvariant s) (hrun : s.Reaches s') :
    ReleaseInvariant s' := by
  induction hrun with
  | refl => exact h
  | tail _ hstep ih =>
    obtain ⟨c, hc⟩ := hstep
    exact ih.step hc

/-! ### The branches -/

/-- An action that waits in the slot of a run. -/
def ApprovalRun.Parks (run : ApprovalRun) (nodeId : String) : Prop :=
  run.status = .waiting ∧ ∃ parked plan, run.approvalContinuation = some parked ∧
    planFromGate run.graph parked.nodeId .approve parked.evalCtx = .ok plan ∧
    ∃ a ∈ plan.actionNodes, a.nodeId = nodeId

/-- An action that has been executed or is not forgotten. -/
def ApprovalSubject.Retains (s : ApprovalSubject) (runId : ℕ) (nodeId : String) : Prop :=
  (runId, nodeId) ∈ s.effects ∨ ∃ run ∈ s.runs, run.id = runId ∧ run.Parks nodeId

/-- **What holds of the branches in runs that keep what is parked.** Until the release, every
action behind an approved group is retained; with it, everything has been executed. -/
structure BranchInvariant (s : ApprovalSubject) : Prop where
  runIds : (s.runs.map ApprovalRun.id).Nodup
  retained : s.releases = [] → ∀ g ∈ s.resumed, g.branch = .approve →
    ∀ a ∈ g.plan.actionNodes, s.Retains g.runId a.nodeId
  executed : (∃ call ∈ s.releases, call.decision = .approved) →
    ∀ g ∈ s.resumed, g.branch = .approve →
      ∀ a ∈ g.plan.actionNodes, (g.runId, a.nodeId) ∈ s.effects

section Branches

theorem ApprovalSubject.Submitted.branchInvariant (h : s.Submitted) : BranchInvariant s where
  runIds := h.runIds
  retained := by simp [h.resumed]
  executed := by simp [h.resumed]

theorem BranchInvariant.run_eq (h : BranchInvariant s) {run r : ApprovalRun}
    (hrun : (s.runs.find? fun r => r.id = runId && r.live) = some run) (hr : r ∈ s.runs)
    (hid : r.id = runId) : run ∈ s.runs ∧ run.id = runId ∧ r = run := by
  have hfound := find?_some hrun
  simp only [Bool.and_eq_true, decide_eq_true_eq] at hfound
  have hmem := mem_of_find?_eq_some hrun
  exact ⟨hmem, hfound.1, inj_on_of_nodup_map h.runIds hr hmem (hid.trans hfound.1.symm)⟩

section Approval

variable {gate : GateRow} {run : ApprovalRun} {rows : List GateRow} {plan : AutomationPlan}

/-- A call that decides a gate for its branch. -/
structure Approves (s : ApprovalSubject) (c : GateCall) (gate : GateRow) (run : ApprovalRun)
    (rows : List GateRow) (plan : AutomationPlan) : Prop where
  pending : pendingRow s.gates c.gateId = some gate
  live : (s.runs.find? fun r => r.id = gate.runId && r.live) = some run
  decided : decideRows s.gates gate c.decision c.userId = .ok (rows, some .approve)
  planned : planFromGate run.graph gate.nodeId .approve c.evalCtx = .ok plan

variable (h : BranchInvariant s) (hnone : s.releases = []) (hcall : Approves s c gate run rows plan)
  (hkept : s.ParkedKept c)

include h hcall hkept

theorem ApprovalSubject.Retains.covered {runId : ℕ} {nodeId : String}
    (hretains : s.Retains runId nodeId) :
    (runId, nodeId) ∈ runActions gate.runId s.effects plan.actionNodes ∨
      ∃ r ∈ s.runs, r.id = runId ∧ r.Parks nodeId ∧
        (r.id = gate.runId → ¬ parksBranch rows plan ∧ s.KeepsOpen gate.runId rows plan) := by
  rcases hretains with hdone | ⟨r, hr, rfl, hslot⟩
  · exact .inl (mem_runActions.mpr (.inl hdone))
  by_cases hid : r.id = gate.runId
  · obtain ⟨-, -, rfl⟩ := h.run_eq hcall.live hr hid
    obtain ⟨-, parked, parkedPlan, hparks, hparked, a, ha, rfl⟩ := id hslot
    rcases hkept gate r rows plan parked parkedPlan hcall.pending hcall.live hcall.decided
      hcall.planned hparks hparked with hcovered | hopen
    · rcases hcovered a ha with hdone | ⟨b, hb, hba⟩
      · exact .inl (mem_runActions.mpr (.inl hdone))
      · exact .inl (mem_runActions.mpr (.inr ⟨b, hb, by rw [hba, hid]⟩))
    · exact .inr ⟨r, hr, rfl, hslot, fun _ => hopen⟩
  · exact .inr ⟨r, hr, rfl, hslot, fun heq => absurd heq hid⟩

include hnone

theorem BranchInvariant.park (hparks : parksBranch rows plan) :
    BranchInvariant (updateRun
      { s with
        gates := rows
        resumed := s.resumed ++ [⟨gate.runId, gate.nodeId, .approve, plan⟩] }
      gate.runId (fun r => { r with
        approvalContinuation := some ⟨gate.id, gate.nodeId, c.userId, c.evalCtx⟩
        status := .waiting })) := by
  set s' := updateRun _ gate.runId _ with hs'
  have hmem := mem_of_find?_eq_some hcall.live
  obtain ⟨-, hrunId, -⟩ := h.run_eq hcall.live hmem (by
    have hfound := find?_some hcall.live
    simp only [Bool.and_eq_true, decide_eq_true_eq] at hfound
    exact hfound.1)
  -- the run with its slot filled retains the actions of the branch
  have hnew : ∀ a ∈ plan.actionNodes, s'.Retains gate.runId a.nodeId := by
    intro a ha
    refine .inr ⟨_, mem_map_of_mem hmem, ?_⟩
    rw [if_pos hrunId]
    exact ⟨hrunId, rfl, _, plan, rfl, hcall.planned, a, ha, rfl⟩
  have hold : ∀ runId nodeId, s.Retains runId nodeId → s'.Retains runId nodeId := by
    intro runId nodeId hretains
    rcases hretains.covered h hcall hkept with hcovered | ⟨r, hr, rfl, hslot, hopen⟩
    · rcases mem_runActions.mp hcovered with hdone | ⟨a, ha, heq⟩
      · exact .inl hdone
      · obtain ⟨rfl, rfl⟩ := Prod.mk.inj heq
        exact hnew a ha
    · refine .inr ⟨_, mem_map_of_mem hr, ?_⟩
      rw [if_neg fun hid => (hopen hid).1 hparks]
      exact ⟨rfl, hslot⟩
  refine ⟨nodup_updateRun h.runIds fun _ => rfl, fun _ => ?_, fun ⟨call, hcall, _⟩ => ?_⟩
  · show ∀ g ∈ s.resumed ++ [_], _
    rw [forall_mem_append, forall_mem_singleton]
    exact ⟨fun g hg hbranch a ha => hold _ _ (h.retained hnone g hg hbranch a ha),
      fun _ a ha => hnew a ha⟩
  · exact absurd (hnone ▸ hcall) not_mem_nil

variable {s₁ : ApprovalSubject}

theorem BranchInvariant.wait (hexec : ExecutedBranch s gate rows plan s₁) :
    BranchInvariant (s₁.finalizeRunStatus gate.runId) := by
  have hold : ∀ runId nodeId, s.Retains runId nodeId →
      (s₁.finalizeRunStatus gate.runId).Retains runId nodeId := by
    intro runId nodeId hretains
    rcases hretains.covered h hcall hkept with hcovered | ⟨r, hr, rfl, hslot, hopen⟩
    · exact .inl (hexec.effects ▸ hcovered)
    · refine .inr ⟨_, mem_map_of_mem (hexec.runs ▸ hr), ?_⟩
      by_cases hid : r.id = gate.runId
      · -- the run goes on waiting, with its slot as it was
        obtain ⟨row, hrow, hrowOpen, hrowRun⟩ := hexec.keeps (hopen hid).2
        have hcount : openGateCount (s₁.gates.filter (·.runId = gate.runId)) > 0 :=
          openGateCount_pos.mpr ⟨row, mem_filter.mpr ⟨hrow, decide_eq_true hrowRun⟩, hrowOpen⟩
        rw [if_pos hid]
        exact ⟨rfl, by simp only [hcount, if_true], hslot.2⟩
      · rw [if_neg hid]
        exact ⟨rfl, hslot⟩
  refine ⟨?_, fun _ => ?_, fun ⟨call, hcall, _⟩ => ?_⟩
  · exact nodup_updateRun (hexec.runs ▸ h.runIds) fun _ => rfl
  · show ∀ g ∈ s₁.resumed, _
    rw [hexec.resumed, forall_mem_append, forall_mem_singleton]
    refine ⟨fun g hg hbranch a ha => hold _ _ (h.retained hnone g hg hbranch a ha),
      fun _ a ha => .inl ?_⟩
    show (gate.runId, a.nodeId) ∈ s₁.effects
    rw [hexec.effects]
    exact mem_runActions.mpr (.inr ⟨a, ha, rfl⟩)
  · have hcall₁ : call ∈ s₁.releases := hcall
    rw [hexec.releases, hnone] at hcall₁
    exact absurd hcall₁ not_mem_nil

/-- The record is released: everything retained is executed now. -/
theorem BranchInvariant.complete {s₂ : ApprovalSubject}
    (hexec : ExecutedBranch s gate rows plan s₁) (hopen : openGateCount s₁.gates = 0)
    (hcomplete : (s₁.releaseApproval .approved).completeSubjectApprovalContinuations gate.runId =
      .ok s₂) : BranchInvariant (s₂.finalizeRunStatus gate.runId) := by
  obtain ⟨hdone, hall⟩ := completeContinuations_spec hcomplete
  have heffects : ∀ x ∈ runActions gate.runId s.effects plan.actionNodes, x ∈ s₂.effects := by
    intro x hx
    rw [← hexec.effects] at hx
    exact hdone.effects x hx
  have hold : ∀ runId nodeId, s.Retains runId nodeId → (runId, nodeId) ∈ s₂.effects := by
    intro runId nodeId hretains
    rcases hretains.covered h hcall hkept with hcovered | ⟨r, hr, rfl, hslot, hkeeps⟩
    · exact heffects _ hcovered
    · by_cases hid : r.id = gate.runId
      · obtain ⟨row, hrow, hrowOpen, -⟩ := hexec.keeps (hkeeps hid).2
        exact absurd (openGateCount_eq_zero.mp hopen row hrow) (by simp [hrowOpen])
      · -- another run: its slot is among what is completed
        obtain ⟨hwaiting, parked, parkedPlan, hparked, hparkedPlan, a, ha, rfl⟩ := hslot
        have hmem : (r, parked) ∈ (s₁.releaseApproval .approved).parkedRuns gate.runId := by
          refine mem_filterMap.mpr ⟨r, mem_filter.mpr ⟨hexec.runs ▸ hr, ?_⟩, ?_⟩
          · simp [hid, hwaiting]
          · rw [hparked]
            rfl
        obtain ⟨plan', hplan', hactions⟩ := hall _ hmem
        obtain rfl : parkedPlan = plan' := Except.ok.inj (hparkedPlan.symm.trans hplan')
        exact hactions a ha
  have hresumed : s₂.resumed = _ := hdone.resumed.trans hexec.resumed
  refine ⟨?_, fun hnil => ?_, fun _ => ?_⟩
  · have hids : s₂.runs.map ApprovalRun.id = s₁.runs.map ApprovalRun.id := hdone.runIds
    exact nodup_updateRun (hids ▸ hexec.runs ▸ h.runIds) fun _ => rfl
  · have hreleases : s₂.releases = s₁.releases ++ _ := hdone.releases
    have hnil₂ : s₂.releases = [] := hnil
    simp [hreleases] at hnil₂
  · show ∀ g ∈ s₂.resumed, _
    rw [hresumed, forall_mem_append, forall_mem_singleton]
    exact ⟨fun g hg hbranch a ha => hold _ _ (h.retained hnone g hg hbranch a ha),
      fun _ a ha => heffects _ (mem_runActions.mpr (.inr ⟨a, ha, rfl⟩))⟩

end Approval

theorem BranchInvariant.step (h : BranchInvariant s) (hrelease : ReleaseInvariant s)
    (hkept : s.ParkedKept c) (hstep : s.decideGate c = .ok s') : BranchInvariant s' := by
  obtain ⟨gate, run, rows, hgate, hrun, hcases⟩ := decideGate_eq_ok hstep
  obtain ⟨hnone, -⟩ := hrelease.unreleased hgate
  rcases hcases with ⟨-, rfl⟩ | ⟨branch, plan, hrows, hplan, hresume⟩
  · exact ⟨h.runIds, h.retained, h.executed⟩
  cases branch with
  | approve =>
    rcases resumeBranch_approve hresume with
      ⟨hparks, rfl⟩ | ⟨-, s₁, hexec, ⟨-, rfl⟩ | ⟨hopen, s₂, hcomplete, rfl⟩⟩
    · exact h.park hnone ⟨hgate, hrun, hrows, hplan⟩ hkept hparks
    · exact h.wait hnone ⟨hgate, hrun, hrows, hplan⟩ hkept hexec
    · exact h.complete hnone ⟨hgate, hrun, hrows, hplan⟩ hkept hexec hopen hcomplete
  | reject =>
    -- behind a rejection nothing is released as approved, so nothing is asked of the branches
    obtain ⟨s₁, hexec, rfl⟩ := rejectBranch_eq_ok hresume
    obtain ⟨hruns, -, hreleases, -⟩ := executeFlowPlan_frame hexec
    have hcalls : (((s₁.cancelSubjectApprovals gate.runId).releaseApproval
        .rejected).finalizeRunStatus gate.runId).releases = s₁.releases ++ [⟨.rejected, _⟩] := rfl
    have hids : (s₁.cancelSubjectApprovals gate.runId).runs.map ApprovalRun.id =
        s.runs.map ApprovalRun.id := by
      rw [cancelSubjectApprovals, map_map, hruns]
      refine map_congr_left fun r _ => ?_
      simp only [Function.comp_apply]
      split_ifs <;> rfl
    refine ⟨nodup_updateRun (hids ▸ h.runIds) fun _ => rfl, fun hnil => ?_,
      fun ⟨call, hcall, happroved⟩ => ?_⟩
    · simp [hcalls] at hnil
    · rw [hcalls, hreleases, hnone, nil_append, mem_singleton] at hcall
      rw [hcall] at happroved
      cases happroved

theorem BranchInvariant.reachesKeeping (h : BranchInvariant s) (hrelease : ReleaseInvariant s)
    (hrun : s.ReachesKeeping s') : BranchInvariant s' := by
  have hboth : ReleaseInvariant s' ∧ BranchInvariant s' := by
    induction hrun with
    | refl => exact ⟨hrelease, h⟩
    | tail _ hstep ih =>
      obtain ⟨c, hkept, hc⟩ := hstep
      exact ⟨ih.1.step hc, ih.2.step ih.1 hkept hc⟩
  exact hboth.2

end Branches

/-- **The release is safe in every run of decisions, and complete in those that keep what their
own runs have parked.** -/
theorem approvals_complete {s s' : ApprovalSubject} (hsubmitted : s.Submitted)
    (hrun : s.Reaches s') :
    s'.ReleasedOnce ∧ s'.RejectedForGood ∧ (s.ReachesKeeping s' → s'.BranchesExecuted) := by
  have hinv := hsubmitted.releaseInvariant.reaches hrun
  refine ⟨?_, fun hreject => ?_, fun hkeeping happroved g hg hbranch a ha => ?_⟩
  · rcases hinv.released with hnone | ⟨⟨d, hcalls⟩, -⟩
    · simp [ReleasedOnce, hnone]
    · simp [ReleasedOnce, hcalls]
  · obtain ⟨hcalls, hruns⟩ := hinv.rejected hreject
    refine ⟨?_, ?_, hruns⟩
    · simp [hcalls]
    · rcases hinv.released with hnone | ⟨-, hclosed⟩
      · rw [hnone] at hcalls
        cases hcalls
      · exact hclosed
  · have hbranches :=
      hsubmitted.branchInvariant.reachesKeeping hsubmitted.releaseInvariant hkeeping
    exact count_eq_one_of_mem hinv.effects (hbranches.executed happroved g hg hbranch a ha)

/-! ### Two gates, in two runs and in one -/

/-- Decisions one after another are a run. -/
theorem ApprovalSubject.reaches_of_foldlM {calls : List GateCall}
    (h : calls.foldlM decideGate s = .ok s') : s.Reaches s' := by
  induction calls generalizing s with
  | nil =>
    cases h
    exact .refl
  | cons c calls ih =>
    rw [foldlM_cons, bind_eq_ok] at h
    obtain ⟨s₁, h₁, h⟩ := h
    exact .head ⟨c, h₁⟩ (ih h)

/-- A decision of a run whose slot is empty keeps everything. -/
theorem ApprovalSubject.parkedKept_of_empty
    (h : ((pendingRow s.gates c.gateId).all fun gate =>
      (s.runs.find? fun r => r.id = gate.runId && r.live).all
        (·.approvalContinuation.isNone)) = true) : s.ParkedKept c := by
  intro gate run rows plan parked parkedPlan hgate hrun _ _ hslot
  simp [hgate, hrun, hslot] at h

def approveCall (gateId : ℕ) : GateCall :=
  { gateId := gateId, decision := .approved, userId := 7, evalCtx := fun _ => .ok true
    assignees := fun _ => [] }

/-- On submission, a gate with a notice behind it for each of the given names. -/
def signOffGraph (names : List String) : AutomationGraph where
  nodes := ⟨"t", .trigger .on_submit⟩ :: names.flatMap fun name =>
    [⟨"gate " ++ name, .gate { title := name, assignees := [.role "approver"], mode := .any }⟩,
      ⟨"notice " ++ name, .action (.notify [.assignee .submitter] name none none)⟩]
  edges := names.flatMap fun name =>
    [{ id := "to " ++ name, source := "t", target := "gate " ++ name },
      { id := "from " ++ name, source := "gate " ++ name, target := "notice " ++ name,
        sourceHandle := some .approve }]

def openRow (id runId : ℕ) (nodeId : String) : GateRow :=
  { id := id, runId := runId, nodeId := nodeId, quorum := .any, assigneeUserId := some 7 }

/-- Two runs with a gate each. -/
def twoRunsSubject : ApprovalSubject where
  runs := [{ id := 0, graph := signOffGraph ["a"], status := .waiting },
    { id := 1, graph := signOffGraph ["b"], status := .waiting }]
  gates := [openRow 0 0 "gate a", openRow 1 1 "gate b"]
  nextId := 2
  claims := [(0, "gate a"), (1, "gate b")]

/-- The first approval is parked, the second releases the record and completes it. -/
theorem approvals_complete_twoRuns :
    twoRunsSubject.Submitted ∧ ∃ s', twoRunsSubject.ReachesKeeping s' ∧
      s'.releases = [⟨.approved, 0⟩] ∧ s'.BranchesExecuted := by
  have hsubmitted : twoRunsSubject.Submitted :=
    ⟨by decide, by decide, by simp [twoRunsSubject], rfl, rfl⟩
  obtain ⟨s₁, h₁, hslot⟩ : ∃ s₁, twoRunsSubject.decideGate (approveCall 0) = .ok s₁ ∧
      ((s₁.decideGate (approveCall 1)).toOption.any (·.releases = [⟨.approved, 0⟩]) &&
        (pendingRow s₁.gates 1).all fun gate =>
          (s₁.runs.find? fun r => r.id = gate.runId && r.live).all
            (·.approvalContinuation.isNone)) = true :=
    exists_of_any (by decide +kernel)
  obtain ⟨hnext, hempty⟩ := Bool.and_eq_true_iff.mp hslot
  obtain ⟨s₂, h₂, hreleased⟩ := exists_of_any hnext
  have hkeeping : twoRunsSubject.ReachesKeeping s₂ :=
    (Relation.ReflTransGen.single ⟨approveCall 0,
      parkedKept_of_empty (by decide +kernel), h₁⟩).tail
        ⟨approveCall 1, parkedKept_of_empty hempty, h₂⟩
  have hrun : twoRunsSubject.Reaches s₂ :=
    (Relation.ReflTransGen.single ⟨approveCall 0, h₁⟩).tail ⟨approveCall 1, h₂⟩
  exact ⟨hsubmitted, s₂, hkeeping, of_decide_eq_true hreleased,
    (approvals_complete hsubmitted hrun).2.2 hkeeping⟩

def oneRunSubject : ApprovalSubject where
  runs := [{ id := 0, graph := signOffGraph ["a", "b"], status := .waiting }]
  gates := [openRow 0 0 "gate a", openRow 1 0 "gate b"]
  nextId := 2
  claims := [(0, "gate a"), (0, "gate b")]

/-- The first approval is parked and never completed: the second, of the same run, releases the
record without it. -/
theorem oneRunSubject_loses_branch :
    oneRunSubject.Submitted ∧ ∃ s', oneRunSubject.Reaches s' ∧
      s'.releases = [⟨.approved, 0⟩] ∧ ¬ s'.BranchesExecuted := by
  have hsubmitted : oneRunSubject.Submitted :=
    ⟨by decide, by decide, by simp [oneRunSubject], rfl, rfl⟩
  obtain ⟨s', hrun, hs'⟩ : ∃ s', [approveCall 0, approveCall 1].foldlM
      decideGate oneRunSubject = .ok s' ∧
      (s'.releases = [⟨.approved, 0⟩] && s'.resumed.any fun g => g.branch = .approve &&
        g.plan.actionNodes.any fun a => s'.effects.count (g.runId, a.nodeId) = 0) = true :=
    exists_of_any (by decide +kernel)
  simp only [Bool.and_eq_true, decide_eq_true_eq, any_eq_true] at hs'
  obtain ⟨hreleases, g, hg, hbranch, a, ha, hcount⟩ := hs'
  refine ⟨hsubmitted, s', reaches_of_foldlM hrun, hreleases, fun hexecuted => ?_⟩
  have hone := hexecuted ⟨_, hreleases ▸ mem_singleton_self _, rfl⟩ g hg hbranch a ha
  omega

end OpenBooks
