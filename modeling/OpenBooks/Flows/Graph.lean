import OpenBooks.Lib.GraphWalk
import OpenBooks.Flows.Quorum
import Mathlib.Data.Rat.Defs

/-!
# Automation graphs and their planner

A flow is a graph of triggers, conditions, actions and approval gates. `planAutomation` finds what
an event sets off: from every matching trigger it follows the edges, takes the branch each condition
answers, collects the actions and stops at the gates. `planFromGate` resumes behind a gate, on the
branch that was decided.

The walk of the source looks a node up by its id in a map filled in the order of the nodes, so **of
several nodes with one id the last is the one that runs** (`AutomationGraph.byId`). It is
`GraphWalk.visit` over `planNext`, and what it visits is what is reachable (`mem_plannedIds`).

A rule can refuse to be evaluated – a comparison with a text that is no number – and the plan is
then refused with it. A context is met here only through its answers to rules, a function `LogicRule
→ Except String Bool`.
-/

namespace OpenBooks

open Checked List

/-! ### Nodes -/

/-- A condition over the fields of a record. The operand of a comparison is kept as its JSON
text. -/
inductive LogicRule where
  | and (rules : List LogicRule)
  | or (rules : List LogicRule)
  | not (rule : LogicRule)
  | comparison (op field value : String) (valueType : Option String)
  | presence (op field : String)

inductive AssigneeTarget where
  | user (userId : String)
  | role (role : String)
  | submitter
  | supervisor
  | field (field : String)
  deriving DecidableEq

inductive RecipientTarget where
  | assignee (target : AssigneeTarget)
  | email (email : String)
  deriving DecidableEq

inductive TriggerKind where
  | on_create
  | on_update
  | on_submit
  | before_post
  | after_post
  | before_void
  | status_change
  | on_field_value
  | scheduled
  | manual
  deriving DecidableEq

/-- The word the source uses for a trigger. -/
def TriggerKind.text : TriggerKind → String
  | .on_create => "on_create"
  | .on_update => "on_update"
  | .on_submit => "on_submit"
  | .before_post => "before_post"
  | .after_post => "after_post"
  | .before_void => "before_void"
  | .status_change => "status_change"
  | .on_field_value => "on_field_value"
  | .scheduled => "scheduled"
  | .manual => "manual"

structure ClockSchedule where
  days : List ℕ
  times : List String

/-- The record selection of a schedule: one run for each record it matches. -/
structure RecordSelect where
  rule : Option LogicRule := none
  limit : Option ℕ := none

inductive TriggerData where
  | on_create
  | on_update
  | on_submit
  | before_post
  | after_post
  | before_void
  | status_change (fromStatus toStatus : Option String)
  | on_field_value (rule : LogicRule)
  | scheduled (cron : String) (tz : Option String) (clockSchedule : Option ClockSchedule)
      (select : Option RecordSelect)
  | manual (buttonId label : String) (confirm requirePermission : Option String)
      (showIf : Option LogicRule)

def TriggerData.kind : TriggerData → TriggerKind
  | .on_create => .on_create
  | .on_update => .on_update
  | .on_submit => .on_submit
  | .before_post => .before_post
  | .after_post => .after_post
  | .before_void => .before_void
  | .status_change .. => .status_change
  | .on_field_value _ => .on_field_value
  | .scheduled .. => .scheduled
  | .manual .. => .manual

/-- Whether the trigger fans out over records. -/
def TriggerData.hasSelect : TriggerData → Bool
  | .scheduled _ _ _ select => select.isSome
  | _ => false

inductive ActionKind where
  | distribute_schedule
  | send_board_schedule
  | send_email
  | notify
  | set_field
  | change_status
  | post_document
  | lock_record
  | unlock_record
  deriving DecidableEq

/-- The word the source uses for an action. -/
def ActionKind.text : ActionKind → String
  | .distribute_schedule => "distribute_schedule"
  | .send_board_schedule => "send_board_schedule"
  | .send_email => "send_email"
  | .notify => "notify"
  | .set_field => "set_field"
  | .change_status => "change_status"
  | .post_document => "post_document"
  | .lock_record => "lock_record"
  | .unlock_record => "unlock_record"

/-- A system step. The value of `set_field` is kept as its JSON text. -/
inductive ActionData where
  | distribute_schedule
  | send_board_schedule
  | send_email (recipients : List RecipientTarget) (subject body : String)
      (attachPdf : Option Bool)
  | notify (recipients : List RecipientTarget) (title : String) (body href : Option String)
  | set_field (field value : String)
  | change_status (toStatus : String)
  | post_document
  | lock_record (reason : Option String) (exemptRoles : Option (List String))
  | unlock_record
  deriving DecidableEq

def ActionData.kind : ActionData → ActionKind
  | .distribute_schedule => .distribute_schedule
  | .send_board_schedule => .send_board_schedule
  | .send_email .. => .send_email
  | .notify .. => .notify
  | .set_field .. => .set_field
  | .change_status _ => .change_status
  | .post_document => .post_document
  | .lock_record .. => .lock_record
  | .unlock_record => .unlock_record

/-- A human sign-off. -/
structure GateData where
  title : String
  assignees : List AssigneeTarget
  mode : GateQuorum
  signatureRequired : Option Bool := none
  preventSelfApproval : Option Bool := none
  reminderAfterHours : Option ℚ := none
  escalateAfterHours : Option ℚ := none
  escalateTo : Option AssigneeTarget := none
  deriving DecidableEq

inductive NodeData where
  | trigger (trigger : TriggerData)
  | condition (rule : LogicRule) (label : Option String)
  | action (action : ActionData)
  | gate (gate : GateData)

def NodeData.isGate : NodeData → Bool
  | .gate _ => true
  | _ => false

structure AutomationNode where
  id : String
  data : NodeData

/-! ### Edges and graphs -/

inductive SourceHandle where
  | next
  | thenBranch
  | elseBranch
  | approve
  | reject
  deriving DecidableEq

structure AutomationEdge where
  id : String
  source : String
  target : String
  sourceHandle : Option SourceHandle := none

/-- A flow, with the legal entities it is limited to, if it is. -/
structure AutomationGraph where
  subjectScope : Option (List String) := none
  nodes : List AutomationNode
  edges : List AutomationEdge

variable {id : String}

namespace AutomationGraph

variable {graph : AutomationGraph}

/-- The node of an id. A map is filled in the order of the nodes, so the last one stays. -/
def byId (graph : AutomationGraph) (id : String) : Option AutomationNode :=
  graph.nodes.reverse.find? (·.id = id)

def out (graph : AutomationGraph) (id : String) : List AutomationEdge :=
  graph.edges.filter (·.source = id)

/-- What the edges that leave an id lead to. -/
def targets (graph : AutomationGraph) (id : String) : List String :=
  (graph.out id).map AutomationEdge.target

theorem byId_some {n : AutomationNode} (h : graph.byId id = some n) :
    n ∈ graph.nodes ∧ n.id = id := by
  refine ⟨mem_reverse.mp (mem_of_find?_eq_some h), ?_⟩
  simpa using find?_some h

theorem byId_eq_none (h : id ∉ graph.nodes.map AutomationNode.id) : graph.byId id = none := by
  refine find?_eq_none.mpr fun n hn => ?_
  simp only [decide_eq_true_eq]
  rintro rfl
  exact h (mem_map_of_mem (mem_reverse.mp hn))

end AutomationGraph

/-! ### Plans -/

structure PlannedGate where
  nodeId : String
  gate : GateData
  deriving DecidableEq

structure PlannedAction where
  nodeId : String
  action : ActionData
  deriving DecidableEq

/-- What a walk has found to do. -/
structure AutomationPlan where
  actions : List ActionData := []
  actionNodes : List PlannedAction := []
  gates : List PlannedGate := []
  deriving DecidableEq

/-- The answers a context gives to rules. -/
abbrev RuleAnswers : Type := LogicRule → Except String Bool

/-- Whether a rule passes; where it is refused, the plan is refused too. -/
def passes (evaluate : RuleAnswers) (rule : LogicRule) : Bool := (evaluate rule).toOption.getD false

/-- A condition follows `then` and `next` when it passes, `else` when it does not. -/
def branchTaken (pass : Bool) (e : AutomationEdge) : Bool :=
  let h := e.sourceHandle.getD .thenBranch
  (pass && (h = .thenBranch || h = .next)) || (!pass && h = .elseBranch)

/-- Where the walk of the planner goes from a node. -/
def planNext (graph : AutomationGraph) (evaluate : RuleAnswers) (id : String) : List String :=
  match (graph.byId id).map AutomationNode.data with
  | none => []
  | some (.action _) => graph.targets id
  | some (.gate _) => []
  | some (.condition rule _) =>
    ((graph.out id).filter (branchTaken (passes evaluate rule))).map AutomationEdge.target
  | some (.trigger _) => graph.targets id

/-- The ids a plan walks through, in the order of the walk. -/
def plannedIds (graph : AutomationGraph) (evaluate : RuleAnswers) (startIds : List String) :
    List String :=
  GraphWalk.visit (planNext graph evaluate) (graph.nodes.length + 1) startIds []

/-- The rule of a condition that is walked through has to answer. -/
def answersAt (graph : AutomationGraph) (evaluate : RuleAnswers) (id : String) :
    Except String Unit :=
  match (graph.byId id).map AutomationNode.data with
  | some (.condition rule _) => (evaluate rule).map fun _ => ()
  | _ => .ok ()

/-- The action of a node that has one. -/
def actionAt (graph : AutomationGraph) (id : String) : Option PlannedAction :=
  match (graph.byId id).map AutomationNode.data with
  | some (.action action) => some ⟨id, action⟩
  | _ => none

/-- The gate of a node that has one. -/
def gateAt (graph : AutomationGraph) (id : String) : Option PlannedGate :=
  match (graph.byId id).map AutomationNode.data with
  | some (.gate gate) => some ⟨id, gate⟩
  | _ => none

/-- The plan of the ids walked through. -/
def planOf (graph : AutomationGraph) (ids : List String) : AutomationPlan :=
  { actions := (ids.filterMap (actionAt graph)).map PlannedAction.action
    actionNodes := ids.filterMap (actionAt graph)
    gates := ids.filterMap (gateAt graph) }

/-- From each start, the actions in order, pausing at gates. The first rule the walk meets
that refuses to answer stops it. -/
def AutomationGraph.collect (graph : AutomationGraph) (evaluate : RuleAnswers) (startIds : List String) :
    Except String AutomationPlan := do
  let ids := plannedIds graph evaluate startIds
  ids.forM (answersAt graph evaluate)
  return planOf graph ids

/-! ### Events -/

/-- What happened. Only the data that select a trigger are kept. -/
inductive TriggerEvent where
  | on_create
  | on_update
  | on_submit
  | before_post
  | after_post
  | before_void
  | status_change (fromStatus : Option String) (toStatus : String)
  | on_field_value
  | scheduled
  | manual (buttonId : Option String)

def TriggerEvent.kind : TriggerEvent → TriggerKind
  | .on_create => .on_create
  | .on_update => .on_update
  | .on_submit => .on_submit
  | .before_post => .before_post
  | .after_post => .after_post
  | .before_void => .before_void
  | .status_change .. => .status_change
  | .on_field_value => .on_field_value
  | .scheduled => .scheduled
  | .manual _ => .manual

/-- The selection among triggers of one kind. -/
def triggerSelected (evaluate : RuleAnswers) : TriggerData → TriggerEvent → Except String Bool
  | .manual buttonId .., .manual (some clicked) => .ok (buttonId = clicked)
  | .on_field_value rule, _ => evaluate rule
  | .status_change fromStatus toStatus, .status_change eventFrom eventTo =>
    .ok ((toStatus = none || toStatus = some eventTo) &&
      (fromStatus = none || fromStatus = eventFrom))
  | _, _ => .ok true

/-- Whether a plan starts at a node. -/
def startsPlan (evaluate : RuleAnswers) (event : TriggerEvent)
    (triggerNodeIds : Option (List String)) (n : AutomationNode) : Except String Bool :=
  match n.data with
  | .trigger td =>
    if td.kind ≠ event.kind then .ok false
    else if (triggerNodeIds.any fun ids => !ids.contains n.id) = true then .ok false
    else triggerSelected evaluate td event
  | _ => .ok false

/-- The ids of the nodes that start a plan, in the order of the nodes. -/
def planStartIds (evaluate : RuleAnswers) (event : TriggerEvent)
    (triggerNodeIds : Option (List String)) : List AutomationNode → Except String (List String)
  | [] => .ok []
  | n :: nodes => do
    let starts ← startsPlan evaluate event triggerNodeIds n
    let rest ← planStartIds evaluate event triggerNodeIds nodes
    return if starts then n.id :: rest else rest

/-- What every trigger that matches the event sets off. -/
def planAutomation (graph : AutomationGraph) (event : TriggerEvent) (evaluate : RuleAnswers)
    (triggerNodeIds : Option (List String)) : Except String AutomationPlan := do
  let startIds ← planStartIds evaluate event triggerNodeIds graph.nodes
  if startIds = [] then return {} else graph.collect evaluate startIds

/-- What lies behind a gate, on the branch that was decided. -/
def planFromGate (graph : AutomationGraph) (gateNodeId : String) (branch : GateBranch)
    (evaluate : RuleAnswers) : Except String AutomationPlan :=
  let handle : SourceHandle := match branch with
    | .approve => .approve
    | .reject => .reject
  graph.collect evaluate (((graph.out gateNodeId).filter fun e =>
    e.sourceHandle.getD .approve = handle).map AutomationEdge.target)

/-! ### What a plan holds -/

section Plans

variable {graph : AutomationGraph} {evaluate : RuleAnswers}

theorem planNext_subset_targets {x y : String} (h : y ∈ planNext graph evaluate x) :
    graph.byId x ≠ none ∧ y ∈ graph.targets x := by
  unfold planNext at h
  split at h
  case h_1 => cases h
  case h_2 hdata => exact ⟨by rintro hnone; simp [hnone] at hdata, h⟩
  case h_3 => cases h
  case h_4 hdata =>
    refine ⟨by rintro hnone; simp [hnone] at hdata, ?_⟩
    obtain ⟨e, he, rfl⟩ := mem_map.mp h
    exact mem_map_of_mem (mem_of_mem_filter he)
  case h_5 hdata => exact ⟨by rintro hnone; simp [hnone] at hdata, h⟩

variable {startIds : List String}

/-- **A plan walks through what is reachable.** -/
theorem mem_plannedIds {z : String} :
    z ∈ plannedIds graph evaluate startIds ↔
      ∃ x ∈ startIds, GraphWalk.Reaches (planNext graph evaluate) x z := by
  refine GraphWalk.mem_visit_iff (fun x hx => ?_)
    (Nat.lt_succ_of_le (length_map AutomationNode.id).le)
  rw [planNext, AutomationGraph.byId_eq_none hx]
  rfl

variable {plan : AutomationPlan}

theorem AutomationGraph.collect_eq_ok (h : graph.collect evaluate startIds = .ok plan) :
    plan = planOf graph (plannedIds graph evaluate startIds) := by
  simp only [AutomationGraph.collect, bind_eq_ok, pure_eq_ok] at h
  obtain ⟨_, _, rfl⟩ := h
  rfl

variable {event : TriggerEvent} {triggerNodeIds : Option (List String)}

theorem planAutomation_eq_ok (h : planAutomation graph event evaluate triggerNodeIds = .ok plan) :
    ∃ startIds, planStartIds evaluate event triggerNodeIds graph.nodes = .ok startIds ∧
      plan = planOf graph (plannedIds graph evaluate startIds) := by
  simp only [planAutomation, bind_eq_ok] at h
  obtain ⟨startIds, hstart, h⟩ := h
  refine ⟨startIds, hstart, ?_⟩
  split_ifs at h with hnil
  · rw [hnil]
    exact (pure_eq_ok.mp h).symm
  · exact AutomationGraph.collect_eq_ok h

theorem mem_planStartIds {nodes : List AutomationNode}
    (h : planStartIds evaluate event triggerNodeIds nodes = .ok startIds) :
    id ∈ startIds ↔
      ∃ n ∈ nodes, n.id = id ∧ startsPlan evaluate event triggerNodeIds n = .ok true := by
  induction nodes generalizing startIds with
  | nil =>
    cases h
    simp
  | cons n nodes ih =>
    simp only [planStartIds, bind_eq_ok, pure_eq_ok] at h
    obtain ⟨starts, hstarts, rest, hrest, rfl⟩ := h
    rw [exists_mem_cons_iff, ← ih hrest, hstarts]
    cases starts with
    | false => simp
    | true => simp [eq_comm]

theorem mem_gates_planOf {ids : List String} {g : PlannedGate} :
    g ∈ (planOf graph ids).gates ↔ ∃ id ∈ ids, gateAt graph id = some g := mem_filterMap

theorem mem_actions_planOf {ids : List String} {a : ActionData} :
    a ∈ (planOf graph ids).actions ↔ ∃ id ∈ ids, ∃ p, actionAt graph id = some p ∧ p.action = a := by
  simp only [planOf, mem_map, mem_filterMap]
  constructor
  · rintro ⟨p, ⟨id, hid, hp⟩, rfl⟩
    exact ⟨id, hid, p, hp, rfl⟩
  · rintro ⟨id, hid, p, hp, rfl⟩
    exact ⟨p, ⟨id, hid, hp⟩, rfl⟩

theorem gateAt_eq_some {g : PlannedGate} :
    gateAt graph id = some g ↔
      ∃ n, graph.byId id = some n ∧ n.data = .gate g.gate ∧ g.nodeId = id := by
  obtain ⟨nodeId, gate⟩ := g
  simp only [← and_assoc, exists_and_right, ← Option.map_eq_some_iff, gateAt]
  cases (graph.byId id).map AutomationNode.data with
  | none => simp
  | some data => cases data <;> simp [and_comm, eq_comm]

theorem actionAt_eq_some {p : PlannedAction} :
    actionAt graph id = some p ↔
      ∃ n, graph.byId id = some n ∧ n.data = .action p.action ∧ p.nodeId = id := by
  obtain ⟨nodeId, action⟩ := p
  simp only [← and_assoc, exists_and_right, ← Option.map_eq_some_iff, actionAt]
  cases (graph.byId id).map AutomationNode.data with
  | none => simp
  | some data => cases data <;> simp [and_comm, eq_comm]

end Plans

end OpenBooks
