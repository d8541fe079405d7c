import OpenBooks.Lib.FirstSeen
import OpenBooks.Flows.Graph

/-!
# The lint of a flow

A flow is linted when it is saved. `lintAutomationGraph` checks its structure, its vocabulary
against the profile of its subject, and – a schedule runs in the worker, where nobody can be asked
and no record moves through its pipeline – that the branch of a scheduled trigger meets no gate and
only actions that are safe there (`lintWorkerTriggerCompatibility`).

Both checks walk the edges that leave the trigger, and never look at what runs under the trigger's
own id. A plan does: its walk starts at that id and takes the last node that carries it. **The lint
is sound exactly when that node is harmless** (`plan_safe_iff_trigger_runs`). Where the ids of the
nodes differ it always is.
-/

namespace OpenBooks

open Checked List

/-! ### Rules and payloads -/

mutual

/-- A rule without a comparison in it. -/
def logicRuleIsEmpty : LogicRule → Bool
  | .and rules => logicRulesAreEmpty rules
  | .or rules => logicRulesAreEmpty rules
  | .not rule => logicRuleIsEmpty rule
  | .comparison .. => false
  | .presence .. => false

def logicRulesAreEmpty : List LogicRule → Bool
  | [] => true
  | rule :: rules => logicRuleIsEmpty rule && logicRulesAreEmpty rules

end

mutual

/-- The fields a rule reads, in the order of the text. -/
def LogicRule.fields : LogicRule → List String
  | .and rules => fieldsOfRules rules
  | .or rules => fieldsOfRules rules
  | .not rule => rule.fields
  | .comparison _ field _ _ => [field]
  | .presence _ field => [field]

def fieldsOfRules : List LogicRule → List String
  | [] => []
  | rule :: rules => rule.fields ++ fieldsOfRules rules

end

mutual

/-- Two rules with the same stable text. -/
def LogicRule.same : LogicRule → LogicRule → Bool
  | .and rules, .and rules' => sameRules rules rules'
  | .or rules, .or rules' => sameRules rules rules'
  | .not rule, .not rule' => rule.same rule'
  | .comparison op field value valueType, .comparison op' field' value' valueType' =>
    op = op' && field = field' && value = value' && valueType = valueType'
  | .presence op field, .presence op' field' => op = op' && field = field'
  | _, _ => false

def sameRules : List LogicRule → List LogicRule → Bool
  | [], [] => true
  | rule :: rules, rule' :: rules' => rule.same rule' && sameRules rules rules'
  | _, _ => false

end

/-- Two conditions, or two gates, with the same payload. -/
def NodeData.samePayload : NodeData → NodeData → Bool
  | .condition rule label, .condition rule' label' => rule.same rule' && label = label'
  | .gate g, .gate g' => g = g'
  | _, _ => false

/-- The name of a node that an author sees. -/
def nodeDisplayName (n : AutomationNode) : String :=
  match n.data with
  | .trigger td => s!"Trigger \"{td.kind.text}\""
  | .condition _ (some label) =>
    if label = "" then "Condition (unlabeled)" else s!"Condition \"{label}\""
  | .condition _ none => "Condition (unlabeled)"
  | .action action => s!"Action \"{action.kind.text}\""
  | .gate gate => if gate.title = "" then "Approval (untitled)" else s!"Approval \"{gate.title}\""

/-! ### Structure -/

/-- An error, if there is one. -/
def errorIf (wrong : Prop) [Decidable wrong] (message : String) : List String :=
  if wrong then [message] else []

theorem errorIf_eq_nil {wrong : Prop} [Decidable wrong] {message : String} :
    errorIf wrong message = [] ↔ ¬ wrong := by
  rw [errorIf]
  split_ifs with h <;> simp [h]

def maxFlowNodes : ℕ := 200

def maxFlowEdges : ℕ := 400

/-- A flow limited by legal entity names some, each once, and no schedule without a record. -/
def lintSubjectScope (graph : AutomationGraph) : List String :=
  match graph.subjectScope with
  | none => []
  | some subsidiaryIds =>
    errorIf (subsidiaryIds.length = 0)
        ("Flow is limited by legal entity but names none — choose at least one legal entity " ++
          "or remove the limit.") ++
      errorIf (¬ subsidiaryIds.Nodup)
        ("Flow legal-entity limit names the same legal entity more than once — choose each " ++
          "legal entity once.") ++
      graph.nodes.flatMap fun n =>
        match n.data with
        | .trigger (.scheduled _ _ _ none) =>
          [s!"Trigger {n.id}: a legal-entity-limited flow cannot run on a schedule without " ++
            "selecting records — add a record selection or remove the legal-entity limit."]
        | _ => []

def lintSizes (graph : AutomationGraph) : List String :=
  errorIf (graph.nodes.length > maxFlowNodes)
      s!"Flow has {graph.nodes.length} nodes — the maximum is {maxFlowNodes}." ++
    errorIf (graph.edges.length > maxFlowEdges)
      s!"Flow has {graph.edges.length} edges — the maximum is {maxFlowEdges}."

def lintEdgeEnds (graph : AutomationGraph) : List String :=
  graph.edges.flatMap fun e =>
    errorIf (e.source ∉ graph.nodes.map AutomationNode.id) s!"Edge {e.id}: unknown source node" ++
      errorIf (e.target ∉ graph.nodes.map AutomationNode.id) s!"Edge {e.id}: unknown target node"

def NodeData.isTrigger : NodeData → Bool
  | .trigger _ => true
  | _ => false

def AutomationGraph.triggerNodes (graph : AutomationGraph) : List AutomationNode :=
  graph.nodes.filter (·.data.isTrigger)

/-- What is wired to a trigger, whatever the edge. -/
def wiredIds (graph : AutomationGraph) : List String :=
  GraphWalk.visit graph.targets (graph.edges.length + 1)
    (graph.triggerNodes.map AutomationNode.id) []

/-- One flow has one trigger, and everything is wired to it. -/
def lintEntryPoint (graph : AutomationGraph) : List String :=
  if graph.triggerNodes = [] then ["Flow has no trigger — add a trigger node to start it."]
  else if graph.triggerNodes.length > 1 then
    [s!"Flow has {graph.triggerNodes.length} triggers (" ++
      ", ".intercalate (graph.triggerNodes.map nodeDisplayName) ++
      ") — a flow starts from exactly one trigger; remove all but one."]
  else
    graph.nodes.flatMap fun n =>
      errorIf (n.id ∉ wiredIds graph) s!"Node {n.id}: unreachable — not connected to any trigger."

/-- A trigger leads somewhere, except an `on_submit` that is alone. -/
def lintTriggerSteps (graph : AutomationGraph) : List String :=
  graph.nodes.flatMap fun n =>
    match n.data with
    | .trigger td =>
      errorIf (n.id ∉ graph.edges.map AutomationEdge.source ∧
          (td.kind ≠ .on_submit ∨ ∃ m ∈ graph.nodes, m.id ≠ n.id))
        (s!"Trigger {n.id} has no outgoing step — connect it to the first step or the flow " ++
          "never runs.")
    | _ => []

/-! ### Vocabulary -/

structure FlowFieldDef where
  key : String
  writable : Bool

/-- What a kind of subject offers to flows. -/
structure FlowSubjectProfile where
  label : String
  orderRecord : Bool := false
  triggers : List TriggerKind
  actions : List ActionKind
  statuses : List String
  fields : List FlowFieldDef

/-- Triggers that the life of the subject never emits. -/
def lintDeadTriggers (profile : FlowSubjectProfile) (graph : AutomationGraph) : List String :=
  graph.nodes.flatMap fun n =>
    match n.data with
    | .trigger td =>
      errorIf ((td.kind = .before_post ∨ td.kind = .after_post) ∧
          ActionKind.post_document ∉ profile.actions)
        (s!"Trigger {n.id}: \"{td.kind.text}\" never fires for {profile.label} — these records " ++
          "never post. Gate their approval with \"on_submit\" instead.") ++
      errorIf ((td.kind = .on_create ∨ td.kind = .on_update) ∧ profile.orderRecord = true)
        (s!"Trigger {n.id}: \"{td.kind.text}\" never fires for {profile.label} — orders are " ++
          "created and edited through the order pipeline. Gate Issue with \"on_submit\" instead.")
    | _ => []

def lintTriggerVocabulary (profile : FlowSubjectProfile) (n : AutomationNode)
    (td : TriggerData) : List String :=
  errorIf (td.kind ∉ profile.triggers)
      s!"Trigger {n.id}: \"{td.kind.text}\" is not available for {profile.label}." ++
    match td with
    | .status_change fromStatus toStatus =>
      (match toStatus with
        | some status => errorIf (status ∉ profile.statuses)
            s!"Trigger {n.id}: unknown destination status \"{status}\"."
        | none => []) ++
      (match fromStatus with
        | some status => errorIf (status ∉ profile.statuses)
            s!"Trigger {n.id}: unknown source status \"{status}\"."
        | none => [])
    | _ => []

def lintActionVocabulary (fieldIds : List String) (profile : FlowSubjectProfile)
    (n : AutomationNode) (action : ActionData) : List String :=
  errorIf (action.kind ∉ profile.actions)
      s!"Action {n.id}: \"{action.kind.text}\" is not available for {profile.label}." ++
    match action with
    | .change_status status => errorIf (status ∉ profile.statuses)
        s!"Action {n.id}: unknown destination status \"{status}\"."
    | .set_field field _ =>
      errorIf (field ∈ fieldIds ∧
          field ∉ (profile.fields.filter FlowFieldDef.writable).map FlowFieldDef.key)
        s!"Action {n.id}: field \"{field}\" is not writable by flows."
    | _ => []

def lintVocabulary (fieldIds : List String) (profile : FlowSubjectProfile)
    (graph : AutomationGraph) : List String :=
  graph.nodes.flatMap fun n =>
    match n.data with
    | .trigger td => lintTriggerVocabulary profile n td
    | .action action => lintActionVocabulary fieldIds profile n action
    | _ => []

/-! ### Rules -/

/-- The fields of a rule that the subject does not have. -/
def lintRuleFields (fieldIds : List String) (place : String) (rule : LogicRule) : List String :=
  (rule.fields.filter (· ∉ fieldIds)).map fun field =>
    s!"{place}: references unknown field \"{field}\""

/-- Every field that a flow reads or sets is one of the subject. -/
def lintFields (fieldIds : List String) (graph : AutomationGraph) : List String :=
  graph.nodes.flatMap fun n =>
    match n.data with
    | .condition rule _ => lintRuleFields fieldIds s!"Condition {n.id}" rule
    | .trigger (.on_field_value rule) => lintRuleFields fieldIds s!"Trigger {n.id}" rule
    | .trigger (.manual _ _ _ _ (some rule)) => lintRuleFields fieldIds s!"Trigger {n.id}" rule
    | .action (.set_field field _) => errorIf (field ∉ fieldIds)
        s!"Action {n.id}: set_field targets unknown field \"{field}\""
    | _ => []

/-- A condition or gate whose payload an earlier node has too. `firsts` are the nodes whose
payload came first. -/
def lintDuplicates : List AutomationNode → List AutomationNode → List String
  | _, [] => []
  | firsts, n :: nodes =>
    match n.data with
    | .trigger _ => lintDuplicates firsts nodes
    | .action _ => lintDuplicates firsts nodes
    | _ =>
      match firsts.find? (·.data.samePayload n.data) with
      | some first =>
        (s!"{nodeDisplayName n} duplicates {nodeDisplayName first} — identical steps run " ++
          "twice; remove one.") :: lintDuplicates firsts nodes
      | none => lintDuplicates (firsts ++ [n]) nodes

def lintEmptyRules (graph : AutomationGraph) : List String :=
  graph.nodes.flatMap fun n =>
    match n.data with
    | .condition rule _ => errorIf (logicRuleIsEmpty rule = true)
        (s!"{nodeDisplayName n} has an empty rule — add at least one comparison or remove the " ++
          "step.")
    | .trigger (.on_field_value rule) => errorIf (logicRuleIsEmpty rule = true)
        (s!"{nodeDisplayName n} has an empty rule — add at least one comparison or the trigger " ++
          "can never match anything.")
    | _ => []

/-! ### Schedules -/

/-- The actions that the branch of a schedule may use, with and without a record. -/
def scheduledSafeActions (hasRecordSelect : Bool) : List ActionKind :=
  if hasRecordSelect then [.send_email, .notify, .set_field, .send_board_schedule]
  else [.send_email, .notify]

/-- Where the lint of a scheduled trigger goes from a node: not past a gate, and not past
another trigger. -/
def workerNext (graph : AutomationGraph) (trigger : AutomationNode) (id : String) : List String :=
  match graph.byId id with
  | none => []
  | some n =>
    if n.id ≠ trigger.id ∧ n.data.isTrigger = true then []
    else if n.data.isGate = true then []
    else graph.targets id

/-- What is wrong with a node behind a scheduled trigger. -/
def workerErrorsAt (graph : AutomationGraph) (trigger : AutomationNode) (td : TriggerData)
    (id : String) : List String :=
  match (graph.byId id).map AutomationNode.data with
  | some (.gate _) =>
    [s!"Trigger {trigger.id}: \"{td.kind.text}\" runs in the worker and cannot pause for " ++
      "approval gates."]
  | some (.action action) =>
    errorIf (action.kind ∉ scheduledSafeActions td.hasSelect)
      (s!"Trigger {trigger.id}: \"{td.kind.text}\" runs in the worker and cannot execute " ++
        s!"\"{action.kind.text}\".")
  | _ => []

/-- The nodes behind a trigger, as the worker meets them. -/
def workerIds (graph : AutomationGraph) (trigger : AutomationNode) : List String :=
  GraphWalk.visit (workerNext graph trigger) (graph.nodes.length + 1) (graph.targets trigger.id) []

def lintWorkerTrigger (graph : AutomationGraph) (n : AutomationNode) : List String :=
  match n.data with
  | .trigger td =>
    if td.kind = .scheduled then (workerIds graph n).flatMap (workerErrorsAt graph n td) else []
  | _ => []

/-- The branch of a schedule meets no gate and no action that is not safe in the worker. Each
message is given once. -/
def lintWorkerTriggerCompatibility (graph : AutomationGraph) : List String :=
  FirstSeen.keys (fun message => message) (graph.nodes.flatMap (lintWorkerTrigger graph))

/-- The errors of a flow. None means that it can be published. -/
def lintAutomationGraph (graph : AutomationGraph) (fieldIds : List String)
    (profile : Option FlowSubjectProfile) : List String :=
  lintSubjectScope graph ++ lintSizes graph ++ lintEdgeEnds graph ++ lintEntryPoint graph ++
    lintTriggerSteps graph ++
    (profile.elim [] fun profile =>
      lintDeadTriggers profile graph ++ lintVocabulary fieldIds profile graph) ++
    lintFields fieldIds graph ++ lintDuplicates [] graph.nodes ++ lintEmptyRules graph ++
    lintWorkerTriggerCompatibility graph

/-- The guard of the run: gates and actions that are not safe are dropped, with a warning. -/
def toSafePlan (plan : AutomationPlan) (hasRecord : Bool) : AutomationPlan × List String :=
  let safe : PlannedAction → Bool := fun n => n.action.kind ∈ scheduledSafeActions hasRecord
  ({ actions := (plan.actionNodes.filter safe).map PlannedAction.action
     actionNodes := plan.actionNodes.filter safe
     gates := [] },
    errorIf (plan.gates.length > 0)
        s!"skipped {plan.gates.length} gate(s) — scheduled runs cannot pause for approval" ++
      (plan.actionNodes.filter fun n => !safe n).map fun n =>
        s!"skipped \"{n.action.kind.text}\" — not worker-safe for scheduled runs")

/-! ### Posting -/

/-- What a `before_post` trigger leads to, in breadth over all edges. -/
def postingIds (graph : AutomationGraph) (id : String) : List String :=
  GraphWalk.breadth graph.targets (2 * graph.edges.length + 1) (graph.targets id) []

/-- The release of some subjects is the engine's: no status of theirs is set by an action, and
no gate lies behind `before_post`. -/
def engineManagedErrors (subjectLabel : String) (releaseStatuses : List String)
    (graph : AutomationGraph) : List String :=
  graph.nodes.flatMap fun n =>
    match n.data with
    | .action (.change_status status) =>
      errorIf (status ∈ releaseStatuses)
        (s!"node \"{n.id}\": change_status to \"{status}\" is not allowed — " ++
          s!"{subjectLabel} approval release is engine-enforced; remove this node")
    | .trigger .before_post =>
      match graph.nodes.find? fun m => m.id ∈ postingIds graph n.id && m.data.isGate with
      | some gateNode =>
        [s!"node \"{gateNode.id}\": before_post cannot create approval gates — " ++
          "configure posting approval on on_submit"]
      | none => []
    | _ => []

/-- The check for documents, which are released as approved or back to draft. -/
def documentReleaseErrors (graph : AutomationGraph) : List String :=
  engineManagedErrors "document" ["approved", "draft"] graph

/-! ### Soundness -/

/-- A node that a plan may meet on the branch of a trigger: no gate, and no action that is not
safe for it. -/
def HarmlessFor (td : TriggerData) (n : AutomationNode) : Prop :=
  (∀ g, n.data ≠ .gate g) ∧
    ∀ action, n.data = .action action → action.kind ∈ scheduledSafeActions td.hasSelect

/-- A plan that the guard of the run leaves as it is. -/
structure SafePlan (td : TriggerData) (plan : AutomationPlan) : Prop where
  gates : plan.gates = []
  actions : ∀ action ∈ plan.actions, action.kind ∈ scheduledSafeActions td.hasSelect

section Soundness

variable {graph : AutomationGraph} {evaluate : RuleAnswers} {ids : List String} {td : TriggerData}

/-- **The guard drops nothing of a safe plan.** -/
theorem toSafePlan_of_safePlan (h : SafePlan td (planOf graph ids)) :
    toSafePlan (planOf graph ids) td.hasSelect = (planOf graph ids, []) := by
  have hsafe : ∀ p ∈ (planOf graph ids).actionNodes,
      p.action.kind ∈ scheduledSafeActions td.hasSelect :=
    fun p hp => h.actions _ (mem_map_of_mem hp)
  have hkept : (planOf graph ids).actionNodes.filter
      (fun p => decide (p.action.kind ∈ scheduledSafeActions td.hasSelect)) =
        (planOf graph ids).actionNodes :=
    filter_eq_self.mpr fun p hp => decide_eq_true (hsafe p hp)
  have hdropped : (planOf graph ids).actionNodes.filter
      (fun p => !decide (p.action.kind ∈ scheduledSafeActions td.hasSelect)) = [] :=
    filter_eq_nil_iff.mpr fun p hp => by simp [hsafe p hp]
  have hgates := h.gates
  simp only [toSafePlan, hkept, hdropped, h.gates, errorIf, length_nil, gt_iff_lt,
    lt_irrefl, if_false, map_nil, append_nil, Prod.mk.injEq, and_true]
  simp only [planOf] at hgates ⊢
  rw [hgates]

theorem safePlan_planOf :
    SafePlan td (planOf graph ids) ↔
      ∀ id ∈ ids, ∀ n, graph.byId id = some n → HarmlessFor td n := by
  constructor
  · intro h id hid n hn
    refine ⟨fun g hg => ?_, fun action haction => ?_⟩
    · have hmem : (⟨id, g⟩ : PlannedGate) ∈ (planOf graph ids).gates :=
        mem_gates_planOf.mpr ⟨id, hid, gateAt_eq_some.mpr ⟨n, hn, hg, rfl⟩⟩
      rw [h.gates] at hmem
      cases hmem
    · exact h.actions action
        (mem_actions_planOf.mpr ⟨id, hid, ⟨id, action⟩, actionAt_eq_some.mpr ⟨n, hn, haction, rfl⟩,
          rfl⟩)
  · intro h
    refine ⟨eq_nil_iff_forall_not_mem.mpr fun g hg => ?_, fun action haction => ?_⟩
    · obtain ⟨id, hid, hgate⟩ := mem_gates_planOf.mp hg
      obtain ⟨n, hn, hdata, -⟩ := gateAt_eq_some.mp hgate
      exact (h id hid n hn).1 _ hdata
    · obtain ⟨id, hid, p, hp, rfl⟩ := mem_actions_planOf.mp haction
      obtain ⟨n, hn, hdata, -⟩ := actionAt_eq_some.mp hp
      exact (h id hid n hn).2 _ hdata

/-! #### The branch of a schedule -/

variable {n trigger : AutomationNode} {id : String}

theorem workerErrorsAt_eq_nil (hn : graph.byId id = some n)
    (h : workerErrorsAt graph trigger td id = []) : HarmlessFor td n := by
  rw [workerErrorsAt, hn, Option.map_some] at h
  refine ⟨fun g hg => ?_, fun action haction => ?_⟩
  · rw [hg] at h
    cases h
  · rw [haction] at h
    exact of_not_not (errorIf_eq_nil.mp h)

variable {x : String}

/-- With a single trigger, the lint follows every edge a plan does. -/
theorem planNext_subset_workerNext
    (honly : ∀ n ∈ graph.nodes, n.data.isTrigger = true → n = trigger) {y : String}
    (h : y ∈ planNext graph evaluate x) : y ∈ workerNext graph trigger x := by
  obtain ⟨hnode, htarget⟩ := planNext_subset_targets h
  obtain ⟨n, hn⟩ := Option.ne_none_iff_exists'.mp hnode
  obtain ⟨hmem, -⟩ := AutomationGraph.byId_some hn
  have hforeign : ¬ (n.id ≠ trigger.id ∧ n.data.isTrigger = true) :=
    fun ⟨hne, htrigger⟩ => hne (by rw [honly n hmem htrigger])
  have hgate : ¬ n.data.isGate = true := by
    intro hgate
    rw [planNext, hn, Option.map_some] at h
    cases hdata : n.data <;> simp_all [NodeData.isGate]
  rw [workerNext, hn]
  simp only [hforeign, hgate, if_false]
  exact htarget

variable {z : String}

theorem mem_workerIds :
    z ∈ workerIds graph trigger ↔ ∃ x ∈ graph.targets trigger.id,
      GraphWalk.Reaches (workerNext graph trigger) x z := by
  refine GraphWalk.mem_visit_iff (fun x hx => ?_)
    (Nat.lt_succ_of_le (length_map AutomationNode.id).le)
  rw [workerNext, AutomationGraph.byId_eq_none hx]

/-- What a plan of the trigger walks through is its own id or has been looked at. -/
theorem reaches_mem_workerIds (honly : ∀ n ∈ graph.nodes, n.data.isTrigger = true → n = trigger)
    (h : GraphWalk.Reaches (planNext graph evaluate) trigger.id z) :
    z = trigger.id ∨ z ∈ workerIds graph trigger := by
  rcases Relation.ReflTransGen.cases_head h with rfl | ⟨x, hx, hreach⟩
  · exact .inl rfl
  · refine .inr (mem_workerIds.mpr ⟨x, (planNext_subset_targets hx).2, ?_⟩)
    exact Relation.ReflTransGen.mono (fun _ _ => planNext_subset_workerNext honly) _ _ hreach

theorem trigger_unique (h : lintEntryPoint graph = []) (ht : trigger ∈ graph.nodes)
    (htd : trigger.data.isTrigger = true) (hn : n ∈ graph.nodes) (hnd : n.data.isTrigger = true) :
    n = trigger := by
  have hone : graph.triggerNodes.length ≤ 1 := by
    unfold lintEntryPoint at h
    split_ifs at h with hnil hmany
    exact Nat.le_of_not_lt hmany
  have hmem : ∀ m ∈ graph.nodes, m.data.isTrigger = true → m ∈ graph.triggerNodes :=
    fun m hm hd => mem_filter.mpr ⟨hm, hd⟩
  obtain ⟨m, hm⟩ | hnil : (∃ m, graph.triggerNodes = [m]) ∨ graph.triggerNodes = [] := by
    match hcases : graph.triggerNodes with
    | [] => exact .inr rfl
    | [m] => exact .inl ⟨m, rfl⟩
    | _ :: _ :: _ => simp [hcases] at hone
  · have h1 := hmem n hn hnd
    have h2 := hmem trigger ht htd
    rw [hm, mem_singleton] at h1 h2
    rw [h1, h2]
  · exact absurd (hmem n hn hnd) (by simp [hnil])

theorem workerErrorsAt_of_lint (h : lintWorkerTriggerCompatibility graph = [])
    (ht : trigger ∈ graph.nodes) (htd : trigger.data = .trigger td)
    (hkind : td.kind = .scheduled) (hid : id ∈ workerIds graph trigger) :
    workerErrorsAt graph trigger td id = [] := by
  refine eq_nil_iff_forall_not_mem.mpr fun message hmessage => ?_
  have hmem : message ∈ lintWorkerTriggerCompatibility graph := by
    refine FirstSeen.mem_keys.mpr ⟨message, mem_flatMap.mpr ⟨trigger, ht, ?_⟩, rfl⟩
    rw [lintWorkerTrigger, htd]
    simp only [hkind, if_true]
    exact mem_flatMap.mpr ⟨id, hid, hmessage⟩
  rw [h] at hmem
  cases hmem

theorem startsPlan_scheduled :
    startsPlan evaluate .scheduled (some ids) n = .ok true ↔
      ∃ td, n.data = .trigger td ∧ td.kind = .scheduled ∧ n.id ∈ ids := by
  unfold startsPlan
  split
  case h_1 td hdata =>
    cases td <;> simp [hdata, TriggerData.kind, TriggerEvent.kind, triggerSelected]
  case h_2 hdata =>
    simp only [Except.ok.injEq, Bool.false_eq_true, false_iff]
    rintro ⟨td, htd, -⟩
    exact hdata td htd

variable {plan : AutomationPlan}

/-- **A plan of a linted schedule is safe exactly when the node that runs under the id of its
trigger is harmless.** -/
theorem safePlan_iff_of_lint {fieldIds : List String} {profile : Option FlowSubjectProfile}
    (hlint : lintAutomationGraph graph fieldIds profile = []) (ht : trigger ∈ graph.nodes)
    (htd : trigger.data = .trigger td)
    (hplan : planAutomation graph .scheduled evaluate (some [trigger.id]) = .ok plan) :
    SafePlan td plan ↔ (td.kind = .scheduled →
      ∀ n, graph.byId trigger.id = some n → HarmlessFor td n) := by
  simp only [lintAutomationGraph, append_eq_nil_iff] at hlint
  have hworker : lintWorkerTriggerCompatibility graph = [] := hlint.2
  have hentry : lintEntryPoint graph = [] := by tauto
  have honly : ∀ n ∈ graph.nodes, n.data.isTrigger = true → n = trigger :=
    fun n hn hnd => trigger_unique hentry ht (by rw [htd]; rfl) hn hnd
  obtain ⟨startIds, hstart, rfl⟩ := planAutomation_eq_ok hplan
  have hstarts : ∀ id, id ∈ startIds ↔ id = trigger.id ∧ td.kind = .scheduled := by
    intro id
    rw [mem_planStartIds hstart]
    constructor
    · rintro ⟨n, hn, rfl, hsel⟩
      obtain ⟨td', htd', hkind, -⟩ := startsPlan_scheduled.mp hsel
      obtain rfl := honly n hn (by rw [htd']; rfl)
      rw [htd] at htd'
      cases htd'
      exact ⟨rfl, hkind⟩
    · rintro ⟨rfl, hkind⟩
      exact ⟨trigger, ht, rfl, startsPlan_scheduled.mpr ⟨td, htd, hkind, by simp⟩⟩
  rw [safePlan_planOf]
  constructor
  · intro h hkind n hn
    exact h trigger.id (mem_plannedIds.mpr ⟨_, (hstarts _).mpr ⟨rfl, hkind⟩, .refl⟩) n hn
  · intro h id hid n hn
    obtain ⟨x, hx, hreach⟩ := mem_plannedIds.mp hid
    obtain ⟨rfl, hkind⟩ := (hstarts x).mp hx
    rcases reaches_mem_workerIds honly hreach with rfl | hseen
    · exact h hkind n hn
    · exact workerErrorsAt_eq_nil hn (workerErrorsAt_of_lint hworker ht htd hkind hseen)

/-! #### The branch of a posting -/

theorem startsPlan_before_post :
    startsPlan evaluate .before_post none n = .ok true ↔ n.data = .trigger .before_post := by
  unfold startsPlan
  split
  case h_1 td hdata =>
    cases td <;> simp [hdata, TriggerData.kind, TriggerEvent.kind, triggerSelected]
  case h_2 hdata =>
    simp only [Except.ok.injEq, Bool.false_eq_true, false_iff]
    exact hdata _

/-- The edges that a search in breadth has not queued yet. -/
def unqueued (edges : List AutomationEdge) (seen : List String) : ℕ :=
  edges.countP (·.source ∉ seen)

theorem unqueued_visit (edges : List AutomationEdge) {seen : List String} (hx : x ∉ seen) :
    unqueued edges (seen ++ [x]) + edges.countP (·.source = x) = unqueued edges seen := by
  induction edges with
  | nil => rfl
  | cons e edges ih =>
    simp only [unqueued, countP_cons] at ih ⊢
    by_cases he : e.source = x
    · simp only [he, hx, mem_append, mem_singleton, or_true, not_true_eq_false,
        not_false_eq_true, decide_true, decide_false, Bool.false_eq_true, if_true, if_false]
      simp only [mem_append, mem_singleton] at ih
      omega
    · simp only [he, mem_append, mem_singleton, or_false, decide_false,
        Bool.false_eq_true, if_false]
      simp only [mem_append, mem_singleton] at ih
      omega

/-- The search in breadth has steps enough. -/
theorem mem_postingIds (hx : x ∈ graph.targets id) (hreach : GraphWalk.Reaches graph.targets x z) :
    z ∈ postingIds graph id := by
  have hlength : ∀ y, (graph.targets y).length = graph.edges.countP (·.source = y) := fun y => by
    rw [AutomationGraph.targets, length_map, AutomationGraph.out, countP_eq_length_filter]
  have hvisit : ∀ seen y, y ∉ seen →
      unqueued graph.edges (seen ++ [y]) + (graph.targets y).length ≤ unqueued graph.edges seen :=
    fun seen y hy => by rw [hlength, unqueued_visit graph.edges hy]
  refine GraphWalk.mem_breadth hvisit ?_ hx hreach
  have hqueue : (graph.targets id).length ≤ graph.edges.length := by
    rw [hlength]
    exact countP_le_length
  have hedges : unqueued graph.edges [] ≤ graph.edges.length := countP_le_length
  omega

variable {subjectLabel : String} {releaseStatuses : List String}

/-- A gate behind a `before_post` trigger is found by the check. -/
theorem not_gate_of_reaches (h : engineManagedErrors subjectLabel releaseStatuses graph = [])
    (ht : trigger ∈ graph.nodes) (htd : trigger.data = .trigger .before_post)
    (hx : x ∈ graph.targets trigger.id) (hreach : GraphWalk.Reaches graph.targets x z)
    (hn : graph.byId z = some n) : n.data.isGate = false := by
  obtain ⟨hmem, hid⟩ := AutomationGraph.byId_some hn
  have hat := flatMap_eq_nil_iff.mp h trigger ht
  rw [htd] at hat
  simp only at hat
  split at hat
  case h_1 => cases hat
  case h_2 hnone =>
    have := find?_eq_none.mp hnone n hmem
    simpa [hid, mem_postingIds hx hreach] using this

/-- **A plan of a posting has no gate exactly when no gate runs under the id of one of its
triggers.** -/
theorem gates_eq_nil_iff_of_release
    (h : engineManagedErrors subjectLabel releaseStatuses graph = [])
    (hplan : planAutomation graph .before_post evaluate none = .ok plan) :
    plan.gates = [] ↔ ∀ trigger ∈ graph.nodes, trigger.data = .trigger .before_post →
      ∀ n, graph.byId trigger.id = some n → n.data.isGate = false := by
  obtain ⟨startIds, hstart, rfl⟩ := planAutomation_eq_ok hplan
  constructor
  · intro hnil trigger ht htd n hn
    by_contra hgate
    obtain ⟨g, hg⟩ : ∃ g, n.data = .gate g := by
      cases hdata : n.data <;> simp_all [NodeData.isGate]
    have hstarts : trigger.id ∈ startIds :=
      (mem_planStartIds hstart).mpr ⟨trigger, ht, rfl, startsPlan_before_post.mpr htd⟩
    have hmem : (⟨trigger.id, g⟩ : PlannedGate) ∈ (planOf graph
        (plannedIds graph evaluate startIds)).gates :=
      mem_gates_planOf.mpr ⟨trigger.id, mem_plannedIds.mpr ⟨_, hstarts, .refl⟩,
        gateAt_eq_some.mpr ⟨n, hn, hg, rfl⟩⟩
    rw [hnil] at hmem
    cases hmem
  · intro hruns
    refine eq_nil_iff_forall_not_mem.mpr fun g hg => ?_
    obtain ⟨z, hz, hgate⟩ := mem_gates_planOf.mp hg
    obtain ⟨n, hn, hdata, -⟩ := gateAt_eq_some.mp hgate
    obtain ⟨x, hx, hreach⟩ := mem_plannedIds.mp hz
    obtain ⟨trigger, ht, rfl, hsel⟩ := (mem_planStartIds hstart).mp hx
    have htd := startsPlan_before_post.mp hsel
    have hfalse : n.data.isGate = false := by
      rcases Relation.ReflTransGen.cases_head hreach with rfl | ⟨y, hy, hrest⟩
      · exact hruns trigger ht htd n hn
      · exact not_gate_of_reaches h ht htd (planNext_subset_targets hy).2
          (Relation.ReflTransGen.mono (fun _ _ hstep => (planNext_subset_targets hstep).2) _ _
            hrest) hn
    rw [hdata] at hfalse
    cases hfalse

end Soundness

/-- **The lint is sound exactly when what runs under the id of a trigger is harmless**: for a
schedule, no gate and no action that is not safe in the worker; for a posting, no gate. -/
theorem plan_safe_iff_trigger_runs (graph : AutomationGraph) (fieldIds : List String)
    (profile : Option FlowSubjectProfile) (evaluate : RuleAnswers) :
    (lintAutomationGraph graph fieldIds profile = [] →
      ∀ trigger ∈ graph.nodes, ∀ td, trigger.data = .trigger td → ∀ plan,
        planAutomation graph .scheduled evaluate (some [trigger.id]) = .ok plan →
          ((SafePlan td plan ∧ toSafePlan plan td.hasSelect = (plan, [])) ↔
            (td.kind = .scheduled → ∀ n, graph.byId trigger.id = some n → HarmlessFor td n))) ∧
      (documentReleaseErrors graph = [] → ∀ plan,
        planAutomation graph .before_post evaluate none = .ok plan →
          (plan.gates = [] ↔ ∀ trigger ∈ graph.nodes, trigger.data = .trigger .before_post →
            ∀ n, graph.byId trigger.id = some n → n.data.isGate = false)) := by
  refine ⟨fun hlint trigger ht td htd plan hplan => ?_,
    fun hrelease plan hplan => gates_eq_nil_iff_of_release hrelease hplan⟩
  rw [← safePlan_iff_of_lint hlint ht htd hplan]
  obtain ⟨startIds, -, rfl⟩ := planAutomation_eq_ok hplan
  exact ⟨And.left, fun h => ⟨h, toSafePlan_of_safePlan h⟩⟩

def dailySchedule : TriggerData := .scheduled "0 9 * * *" none none none

def reminderGraph : AutomationGraph where
  nodes := [⟨"t", .trigger dailySchedule⟩,
    ⟨"n", .action (.notify [.assignee .submitter] "Due" none none)⟩]
  edges := [{ id := "e", source := "t", target := "n" }]

/-- The reminder is linted, and its plan is safe. -/
theorem reminderGraph_plan_safe :
    lintAutomationGraph reminderGraph [] none = [] ∧ ∃ plan,
      planAutomation reminderGraph .scheduled (fun _ => .ok true) (some ["t"]) = .ok plan ∧
        plan.actions ≠ [] ∧ SafePlan dailySchedule plan := by
  have hlint : lintAutomationGraph reminderGraph [] none = [] := by decide +kernel
  have hplan : planAutomation reminderGraph .scheduled (fun _ => .ok true) (some ["t"]) =
      .ok (planOf reminderGraph ["t", "n"]) := rfl
  have hsafe := (plan_safe_iff_trigger_runs reminderGraph [] none fun _ => .ok true).1 hlint
    ⟨"t", .trigger dailySchedule⟩ mem_cons_self dailySchedule rfl _ hplan
  refine ⟨hlint, _, hplan, by decide +kernel, (hsafe.mpr fun _ n hn => ?_).1⟩
  obtain rfl : (⟨"t", .trigger dailySchedule⟩ : AutomationNode) = n := Option.some.inj hn
  exact ⟨fun _ => NodeData.noConfusion, fun _ => NodeData.noConfusion⟩

/-! ### A gate under the id of a trigger -/

def signOff : GateData := { title := "Sign-off", assignees := [.submitter], mode := .any }

/-- A flow in which a trigger and a gate have the id `t`. -/
def sharedIdGraph (td : TriggerData) : AutomationGraph where
  nodes := [⟨"t", .trigger td⟩, ⟨"t", .gate signOff⟩,
    ⟨"n", .action (.notify [.assignee .submitter] "Due" none none)⟩]
  edges := [{ id := "e", source := "t", target := "n" }]

/-- Its plans pause at the gate, although both checks pass. -/
theorem sharedIdGraph_pauses :
    (lintAutomationGraph (sharedIdGraph dailySchedule) [] none = [] ∧
      ∃ plan, planAutomation (sharedIdGraph dailySchedule) .scheduled (fun _ => .ok true)
        (some ["t"]) = .ok plan ∧ ¬ SafePlan dailySchedule plan ∧
        toSafePlan plan false ≠ (plan, [])) ∧
      documentReleaseErrors (sharedIdGraph .before_post) = [] ∧
      ∃ plan, planAutomation (sharedIdGraph .before_post) .before_post (fun _ => .ok true) none =
        .ok plan ∧ plan.gates ≠ [] := by
  have hlint : lintAutomationGraph (sharedIdGraph dailySchedule) [] none = [] := by
    decide +kernel
  have hrelease : documentReleaseErrors (sharedIdGraph .before_post) = [] := by decide +kernel
  have hscheduled : planAutomation (sharedIdGraph dailySchedule) .scheduled (fun _ => .ok true)
      (some ["t"]) = .ok { gates := [⟨"t", signOff⟩] } := rfl
  have hposting : planAutomation (sharedIdGraph .before_post) .before_post (fun _ => .ok true)
      none = .ok { gates := [⟨"t", signOff⟩] } := rfl
  have hunsafe : ¬ SafePlan dailySchedule { gates := [⟨"t", signOff⟩] } := fun h => by
    cases h.gates
  have hdropped : toSafePlan { gates := [⟨"t", signOff⟩] } false ≠
      ({ gates := [⟨"t", signOff⟩] }, []) := by
    decide +kernel
  exact ⟨⟨hlint, _, hscheduled, hunsafe, hdropped⟩, hrelease, _, hposting, by simp⟩

end OpenBooks
