import Mathlib.Data.List.Nodup
import Mathlib.Data.List.Perm.Basic
import Mathlib.Logic.Function.Basic

/-!
# The ledger of scheduled occurrences

A cron tick of a scheduled flow is an occurrence, and an occurrence is a row. Any number of
processes scan for due occurrences and claim them, take a claim for firing, fire it, and recover
what has gone stale; each of them can fail or crash between any two statements. The state
(`ScheduleLedger`) is what the database and the processes hold, a step one statement, and a run any
list of steps.

Whatever the order, an occurrence has one row, is taken at most `MAX_FLOW_OCCURRENCE_ATTEMPTS`
times, and all its attempts share one flow run for each subject. The take is fenced by the attempt
counter.

The end of an attempt is not. Completion writes `fired` whatever the row says, and a loss is stamped
on any row that is not lost already, so an attempt that has been overtaken can still turn a recorded
end round. **The recorded end is final exactly in the runs in which no attempt ends against it**
(`occurrences_settle`), and so in every run whose attempts have ended by the time their occurrence
is taken again or reaped (`endsInStep_of_alone`).
-/

namespace OpenBooks

open List

/-! ### Rows, fences and attempts -/

inductive OccurrenceStatus where
  | open
  | firing
  | fired
  | lost
  deriving DecidableEq

/-- Initial firing plus one recovery retry. -/
def MAX_FLOW_OCCURRENCE_ATTEMPTS : ℕ := 2

/-- One due cron tick of one scheduled trigger node. -/
structure OccurrenceKey where
  flowId : String
  nodeId : String
  occurredAt : ℕ
  deriving DecidableEq

structure FlowOccurrence where
  id : ℕ
  key : OccurrenceKey
  status : OccurrenceStatus := .open
  attemptCount : ℕ := 0
  updatedAt : ℕ

/-- What a process has seen of an occurrence that it wants to take. -/
structure OccurrenceTakeFence where
  claimId : ℕ
  attemptCount : ℕ
  updatedAt : Option ℕ := none
  deriving DecidableEq

/-- An attempt that a process is carrying out. -/
structure FiringAttempt where
  claimId : ℕ
  key : OccurrenceKey
  attempt : ℕ
  deriving DecidableEq

structure ScheduledRun where
  id : ℕ
  occurrenceKey : String

/-- A subject that a committed attempt of an occurrence has worked on, with its run. -/
structure WorkedSubject where
  claimId : ℕ
  subjectId : String
  runId : ℕ

/-- The ledger, what the processes hold, and what has happened: the takes, the runs worked on
and the ends recorded. -/
structure ScheduleLedger where
  lastScheduledRunAt : String → Option ℕ := fun _ => none
  occurrences : List FlowOccurrence := []
  nextId : ℕ := 0
  runs : List ScheduledRun := []
  fences : List OccurrenceTakeFence := []
  inFlight : List FiringAttempt := []
  takes : List ℕ := []
  worked : List WorkedSubject := []
  recorded : List (ℕ × OccurrenceStatus) := []

/-! ### Statements -/

/-- The identity of one firing over one subject. -/
def flowRunOccurrenceKey (toISOString : ℕ → String) (key : OccurrenceKey) (subjectId : String) :
    String :=
  s!"sched|{key.flowId}|{key.nodeId}|{toISOString key.occurredAt}|{subjectId}"

namespace ScheduleLedger

/-- A due occurrence is inserted unless it exists, and its claim is handed to the scanner. -/
def insertOccurrence (flowId : String) (now : ℕ) (s : ScheduleLedger) (due : String × ℕ) :
    ScheduleLedger :=
  let key : OccurrenceKey := ⟨flowId, due.1, due.2⟩
  if key ∈ s.occurrences.map FlowOccurrence.key then s
  else { s with
    occurrences := s.occurrences ++ [{ id := s.nextId, key := key, updatedAt := now }]
    nextId := s.nextId + 1
    fences := s.fences ++ [{ claimId := s.nextId, attemptCount := 0 }] }

/-- The cursor of the flow is advanced, and only the scanner that advances it inserts. -/
def claimDueFlowOccurrences (s : ScheduleLedger) (flowId : String) (due : List (String × ℕ))
    (latest now : ℕ) : ScheduleLedger :=
  if (s.lastScheduledRunAt flowId).all (· < latest) then
    due.foldl (insertOccurrence flowId now)
      { s with lastScheduledRunAt := Function.update s.lastScheduledRunAt flowId (some latest) }
  else s

/-- An update of the rows that meet a condition. -/
def updateWhere (s : ScheduleLedger) (p : FlowOccurrence → Bool)
    (f : FlowOccurrence → FlowOccurrence) : ScheduleLedger :=
  { s with occurrences := s.occurrences.map fun o => if p o then f o else o }

def recordWhere (s : ScheduleLedger) (p : FlowOccurrence → Bool) (status : OccurrenceStatus)
    (now : ℕ) : ScheduleLedger :=
  { s.updateWhere p (fun o => { o with status := status, updatedAt := now }) with
    recorded := s.recorded ++ (s.occurrences.filter p).map fun o => (o.id, status) }

/-- Whether a fence still finds what it saw. -/
def fenceHolds (fence : OccurrenceTakeFence) (o : FlowOccurrence) : Bool :=
  o.id = fence.claimId && (o.status = .open || o.status = .firing) &&
    o.attemptCount = fence.attemptCount && fence.updatedAt.all (o.updatedAt = ·)

/-- The compare-and-set of the take: the attempt counter moves on, or nothing happens. -/
def takeOccurrenceForFiring (s : ScheduleLedger) (fence : OccurrenceTakeFence) (now : ℕ) :
    ScheduleLedger :=
  match s.occurrences.find? (fenceHolds fence) with
  | none => s
  | some o =>
    { s.updateWhere (fenceHolds fence) (fun o =>
        { o with status := .firing, attemptCount := o.attemptCount + 1, updatedAt := now }) with
      inFlight := s.inFlight ++ [⟨o.id, o.key, o.attemptCount + 1⟩]
      takes := s.takes ++ [o.id] }

def stampOccurrenceLost (s : ScheduleLedger) (claimId now : ℕ) : ScheduleLedger :=
  s.recordWhere (fun o => o.id = claimId && o.status ≠ .lost) .lost now

/-- A failed attempt is a loss once the budget is spent. -/
def handleFiringFailure (s : ScheduleLedger) (a : FiringAttempt) (now : ℕ) : ScheduleLedger :=
  if a.attempt ≥ MAX_FLOW_OCCURRENCE_ATTEMPTS then s.stampOccurrenceLost a.claimId now else s

/-- The run of a subject is found by its key, or inserted. -/
def adoptRun (toISOString : ℕ → String) (a : FiringAttempt) (s : ScheduleLedger)
    (subjectId : String) : ScheduleLedger :=
  let key := flowRunOccurrenceKey toISOString a.key subjectId
  match s.runs.find? (·.occurrenceKey = key) with
  | some run => { s with worked := s.worked ++ [⟨a.claimId, subjectId, run.id⟩] }
  | none =>
    { s with
      runs := s.runs ++ [⟨s.runs.length, key⟩]
      worked := s.worked ++ [⟨a.claimId, subjectId, s.runs.length⟩] }

/-- The transaction of a firing: the runs of its subjects, and `fired` with them. -/
def commitFiring (toISOString : ℕ → String) (s : ScheduleLedger) (a : FiringAttempt)
    (subjectIds : List String) (now : ℕ) : ScheduleLedger :=
  (subjectIds.foldl (adoptRun toISOString a) s).recordWhere (fun o => o.id = a.claimId) .fired now

/-- The reaper: a spent occurrence that has gone stale is lost. -/
def reapStale (s : ScheduleLedger) (staleBefore now : ℕ) : ScheduleLedger :=
  s.recordWhere (fun o => o.status = .firing && o.attemptCount ≥ MAX_FLOW_OCCURRENCE_ATTEMPTS &&
    o.updatedAt < staleBefore) .lost now

/-- The recovery reads the stale rows of a batch, within the budget. -/
def selectStale (s : ScheduleLedger) (staleBefore : ℕ) (batch : List ℕ) : ScheduleLedger :=
  { s with fences := s.fences ++ (s.occurrences.filter fun o =>
      (o.status = .open || o.status = .firing) &&
        o.attemptCount < MAX_FLOW_OCCURRENCE_ATTEMPTS && o.updatedAt < staleBefore &&
        o.id ∈ batch).map fun o => ⟨o.id, o.attemptCount, some o.updatedAt⟩ }

end ScheduleLedger

/-! ### Steps and runs -/

/-- A step of some process. -/
inductive LedgerStep where
  | claimDue (flowId : String) (due : List (String × ℕ)) (latest now : ℕ)
  | take (fence : OccurrenceTakeFence) (now : ℕ)
  | complete (a : FiringAttempt) (subjectIds : List String) (now : ℕ)
  /-- The flow is gone, switched off or no longer valid. -/
  | refuse (a : FiringAttempt) (now : ℕ)
  | fail (a : FiringAttempt) (now : ℕ)
  | crash (a : FiringAttempt)
  | reap (staleBefore now : ℕ)
  | selectStale (staleBefore : ℕ) (batch : List ℕ)

namespace ScheduleLedger

/-- A process is done with an attempt. -/
def land (s : ScheduleLedger) (a : FiringAttempt) : ScheduleLedger :=
  { s with inFlight := s.inFlight.erase a }

/-- **One statement of one process.** What a process does not hold, it cannot use. -/
def step (toISOString : ℕ → String) (s : ScheduleLedger) : LedgerStep → ScheduleLedger
  | .claimDue flowId due latest now => s.claimDueFlowOccurrences flowId due latest now
  | .take fence now => if fence ∈ s.fences then s.takeOccurrenceForFiring fence now else s
  | .complete a subjectIds now =>
    if a ∈ s.inFlight then (s.commitFiring toISOString a subjectIds now).land a else s
  | .refuse a now => if a ∈ s.inFlight then (s.stampOccurrenceLost a.claimId now).land a else s
  | .fail a now => if a ∈ s.inFlight then (s.handleFiringFailure a now).land a else s
  | .crash a => s.land a
  | .reap staleBefore now => s.reapStale staleBefore now
  | .selectStale staleBefore batch => s.selectStale staleBefore batch

def run (toISOString : ℕ → String) (s : ScheduleLedger) (steps : List LedgerStep) :
    ScheduleLedger := steps.foldl (step toISOString) s

/-- An attempt ends in step with its occurrence: this still fires, or has ended the same way. -/
def InStep (s : ScheduleLedger) (claimId : ℕ) (status : OccurrenceStatus) : Prop :=
  ∀ o ∈ s.occurrences, o.id = claimId → o.status = .firing ∨ o.status = status

/-- **No attempt ends against what is recorded**: a completion finds its occurrence firing or
fired, a loss finds it firing or lost. -/
def EndsInStep (s : ScheduleLedger) : LedgerStep → Prop
  | .complete a _ _ => a ∈ s.inFlight → s.InStep a.claimId .fired
  | .refuse a _ => a ∈ s.inFlight → s.InStep a.claimId .lost
  | .fail a _ => a ∈ s.inFlight → MAX_FLOW_OCCURRENCE_ATTEMPTS ≤ a.attempt →
      s.InStep a.claimId .lost
  | _ => True

/-- A condition at every step of a run. -/
def Along (toISOString : ℕ → String) (p : ScheduleLedger → LedgerStep → Prop) :
    ScheduleLedger → List LedgerStep → Prop
  | _, [] => True
  | s, a :: steps => p s a ∧ Along toISOString p (s.step toISOString a) steps

/-! ### What the ledger promises -/

/-- At most one row for a flow, node and timestamp. -/
def OneRowEach (s : ScheduleLedger) : Prop := (s.occurrences.map FlowOccurrence.key).Nodup

def TakesBounded (s : ScheduleLedger) : Prop :=
  ∀ id, s.takes.count id ≤ MAX_FLOW_OCCURRENCE_ATTEMPTS

/-- The attempts of an occurrence work on one run for each subject. -/
def SharedRuns (s : ScheduleLedger) : Prop :=
  ∀ w ∈ s.worked, ∀ w' ∈ s.worked, w.claimId = w'.claimId → w.subjectId = w'.subjectId →
    w.runId = w'.runId

/-- No occurrence has been recorded both fired and lost. -/
def EndsFinal (s : ScheduleLedger) : Prop :=
  ∀ id, (id, .fired) ∈ s.recorded → (id, .lost) ∉ s.recorded

end ScheduleLedger

open ScheduleLedger

/-! ### What a statement can do -/

/-- **A statement has one of these effects.** One that is refused leaves the ledger as it is, so a
property is kept by every statement when each effect keeps it. -/
theorem ScheduleLedger.step_rule {P : ScheduleLedger → Prop} {toISOString : ℕ → String}
    {s : ScheduleLedger} {a : LedgerStep} (h : P s) (hland : ∀ b, P (s.land b))
    (hclaim : ∀ flowId due latest now, a = .claimDue flowId due latest now →
      P (s.claimDueFlowOccurrences flowId due latest now))
    (htake : ∀ fence now, a = .take fence now → fence ∈ s.fences →
      P (s.takeOccurrenceForFiring fence now))
    (hfired : ∀ b subjectIds now, a = .complete b subjectIds now → b ∈ s.inFlight →
      P ((s.commitFiring toISOString b subjectIds now).land b))
    (hlost : ∀ b now, (a = .refuse b now ∨
        a = .fail b now ∧ MAX_FLOW_OCCURRENCE_ATTEMPTS ≤ b.attempt) → b ∈ s.inFlight →
      P ((s.stampOccurrenceLost b.claimId now).land b))
    (hreap : ∀ staleBefore now, a = .reap staleBefore now → P (s.reapStale staleBefore now))
    (hselect : ∀ staleBefore batch, P (s.selectStale staleBefore batch)) :
    P (s.step toISOString a) := by
  cases a with
  | claimDue flowId due latest now => exact hclaim flowId due latest now rfl
  | take fence now =>
    simp only [step]
    split_ifs with hfence
    · exact htake fence now rfl hfence
    · exact h
  | complete b subjectIds now =>
    simp only [step]
    split_ifs with hb
    · exact hfired b subjectIds now rfl hb
    · exact h
  | refuse b now =>
    simp only [step]
    split_ifs with hb
    · exact hlost b now (.inl rfl) hb
    · exact h
  | fail b now =>
    simp only [step, handleFiringFailure]
    split_ifs with hb hspent
    · exact hlost b now (.inr ⟨rfl, hspent⟩) hb
    · exact hland b
    · exact h
  | crash b => exact hland b
  | reap staleBefore now => exact hreap staleBefore now rfl
  | selectStale staleBefore batch => exact hselect staleBefore batch

/-! ### The invariant of the rows -/

/-- **What holds of the rows in every run.** -/
structure RowsInvariant (s : ScheduleLedger) : Prop where
  ids : (s.occurrences.map FlowOccurrence.id).Nodup
  fresh : ∀ o ∈ s.occurrences, o.id < s.nextId
  keys : s.OneRowEach
  /-- The attempt counter counts the takes, within the budget. -/
  counts : ∀ o ∈ s.occurrences, s.takes.count o.id = o.attemptCount ∧
    o.attemptCount ≤ MAX_FLOW_OCCURRENCE_ATTEMPTS
  taken : ∀ id ∈ s.takes, id ∈ s.occurrences.map FlowOccurrence.id
  fences : ∀ f ∈ s.fences, f.attemptCount < MAX_FLOW_OCCURRENCE_ATTEMPTS

def KeepsRows (s s' : ScheduleLedger) : Prop :=
  ∀ o ∈ s.occurrences, ∃ o' ∈ s'.occurrences, o'.id = o.id ∧ o'.key = o.key

section Rows

variable {s : ScheduleLedger} {p : FlowOccurrence → Bool} {f : FlowOccurrence → FlowOccurrence}

theorem map_updateWhere {β : Type} (g : FlowOccurrence → β) (hf : ∀ o, g (f o) = g o) :
    (s.updateWhere p f).occurrences.map g = s.occurrences.map g := by
  rw [updateWhere, map_map]
  refine map_congr_left fun o _ => ?_
  simp only [Function.comp_apply]
  split_ifs
  · exact hf o
  · rfl

theorem mem_updateWhere {o : FlowOccurrence} (h : o ∈ s.occurrences) :
    (if p o then f o else o) ∈ (s.updateWhere p f).occurrences := mem_map_of_mem h

theorem keepsRows_updateWhere (hf : ∀ o, (f o).id = o.id ∧ (f o).key = o.key) :
    KeepsRows s (s.updateWhere p f) := by
  intro o ho
  refine ⟨_, mem_updateWhere ho, ?_⟩
  split_ifs
  · exact hf o
  · exact ⟨rfl, rfl⟩

section

variable (h : RowsInvariant s)

include h

theorem RowsInvariant.eq_of_id {o o' : FlowOccurrence} (ho : o ∈ s.occurrences)
    (ho' : o' ∈ s.occurrences) (hid : o.id = o'.id) : o = o' :=
  inj_on_of_nodup_map h.ids ho ho' hid

theorem RowsInvariant.insertOccurrence (flowId : String) (now : ℕ) (due : String × ℕ) :
    RowsInvariant (s.insertOccurrence flowId now due) := by
  unfold ScheduleLedger.insertOccurrence
  simp only
  split_ifs with hmem
  · exact h
  have hnew : s.nextId ∉ s.occurrences.map FlowOccurrence.id := by
    intro hid
    obtain ⟨o, ho, heq⟩ := mem_map.mp hid
    exact absurd (h.fresh o ho) (by omega)
  refine ⟨?_, ?_, ?_, ?_, ?_, ?_⟩
  · rw [map_append]
    exact h.ids.append (nodup_singleton _) (disjoint_singleton.mpr hnew)
  · rw [forall_mem_append, forall_mem_singleton]
    exact ⟨fun o ho => Nat.lt_succ_of_lt (h.fresh o ho), Nat.lt_succ_self _⟩
  · rw [OneRowEach, map_append]
    exact h.keys.append (nodup_singleton _) (disjoint_singleton.mpr hmem)
  · rw [forall_mem_append, forall_mem_singleton]
    exact ⟨h.counts, count_eq_zero_of_not_mem fun ht => hnew (h.taken _ ht), Nat.zero_le _⟩
  · intro id hid
    rw [map_append]
    exact mem_append_left _ (h.taken id hid)
  · rw [forall_mem_append, forall_mem_singleton]
    exact ⟨h.fences, Nat.zero_lt_two⟩

theorem RowsInvariant.claimDueFlowOccurrences (flowId : String) (due : List (String × ℕ))
    (latest now : ℕ) : RowsInvariant (s.claimDueFlowOccurrences flowId due latest now) := by
  unfold ScheduleLedger.claimDueFlowOccurrences
  split_ifs
  · have hstart : RowsInvariant { s with
        lastScheduledRunAt := Function.update s.lastScheduledRunAt flowId (some latest) } :=
      ⟨h.ids, h.fresh, h.keys, h.counts, h.taken, h.fences⟩
    generalize { s with
      lastScheduledRunAt := Function.update s.lastScheduledRunAt flowId (some latest) } = s₁
      at hstart ⊢
    induction due generalizing s₁ with
    | nil => exact hstart
    | cons d due ih => exact ih _ (hstart.insertOccurrence flowId now d)
  · exact h

theorem RowsInvariant.recordWhere (p : FlowOccurrence → Bool) (status : OccurrenceStatus)
    (now : ℕ) : RowsInvariant (s.recordWhere p status now) := by
  have hkeep : ∀ o' ∈ (s.recordWhere p status now).occurrences, ∃ o ∈ s.occurrences,
      o'.id = o.id ∧ o'.attemptCount = o.attemptCount := by
    intro o' ho'
    obtain ⟨o, ho, rfl⟩ := mem_map.mp ho'
    refine ⟨o, ho, ?_⟩
    split_ifs <;> exact ⟨rfl, rfl⟩
  refine ⟨?_, ?_, ?_, ?_, ?_, h.fences⟩
  · show ((s.updateWhere p _).occurrences.map FlowOccurrence.id).Nodup
    rw [map_updateWhere FlowOccurrence.id]
    exacts [h.ids, fun _ => rfl]
  · intro o' ho'
    obtain ⟨o, ho, hid, -⟩ := hkeep o' ho'
    exact hid ▸ h.fresh o ho
  · show ((s.updateWhere p _).occurrences.map FlowOccurrence.key).Nodup
    rw [map_updateWhere FlowOccurrence.key]
    exacts [h.keys, fun _ => rfl]
  · intro o' ho'
    obtain ⟨o, ho, hid, hcount⟩ := hkeep o' ho'
    rw [hid, hcount]
    exact h.counts o ho
  · show ∀ id ∈ s.takes, id ∈ (s.updateWhere p _).occurrences.map FlowOccurrence.id
    rw [map_updateWhere FlowOccurrence.id]
    exacts [h.taken, fun _ => rfl]

end

theorem fenceHolds_eq_true {fence : OccurrenceTakeFence} {o : FlowOccurrence}
    (h : fenceHolds fence o = true) :
    o.id = fence.claimId ∧ (o.status = .open ∨ o.status = .firing) ∧
      o.attemptCount = fence.attemptCount := by
  simp only [fenceHolds, Bool.and_eq_true, Bool.or_eq_true, decide_eq_true_eq] at h
  exact ⟨h.1.1.1, h.1.1.2, h.1.2⟩

variable (h : RowsInvariant s)

include h

/-- **The take is fenced**: it moves the counter of one row, below the budget. -/
theorem RowsInvariant.takeOccurrenceForFiring {fence : OccurrenceTakeFence}
    (hfence : fence ∈ s.fences) (now : ℕ) :
    RowsInvariant (s.takeOccurrenceForFiring fence now) := by
  unfold ScheduleLedger.takeOccurrenceForFiring
  split
  case h_1 => exact h
  case h_2 o hfound =>
    have ho := mem_of_find?_eq_some hfound
    obtain ⟨hid, -, hcount⟩ := fenceHolds_eq_true (find?_some hfound)
    have hbudget : o.attemptCount < MAX_FLOW_OCCURRENCE_ATTEMPTS :=
      hcount ▸ h.fences fence hfence
    refine ⟨?_, ?_, ?_, ?_, ?_, h.fences⟩
    · show ((s.updateWhere _ _).occurrences.map FlowOccurrence.id).Nodup
      rw [map_updateWhere FlowOccurrence.id]
      exacts [h.ids, fun _ => rfl]
    · intro o' ho'
      obtain ⟨o₀, ho₀, rfl⟩ := mem_map.mp ho'
      split_ifs <;> exact h.fresh o₀ ho₀
    · show ((s.updateWhere _ _).occurrences.map FlowOccurrence.key).Nodup
      rw [map_updateWhere FlowOccurrence.key]
      exacts [h.keys, fun _ => rfl]
    · intro o' ho'
      obtain ⟨o₀, ho₀, rfl⟩ := mem_map.mp ho'
      obtain ⟨hcounted, hbound⟩ := h.counts o₀ ho₀
      rw [count_append]
      by_cases hmoved : fenceHolds fence o₀ = true
      · -- the row that moves is the one that was found
        obtain rfl := h.eq_of_id ho₀ ho ((fenceHolds_eq_true hmoved).1.trans hid.symm)
        rw [if_pos hmoved, hcounted, count_singleton_self]
        exact ⟨rfl, hbudget⟩
      · have hother : o₀.id ∉ [o.id] := by
          rw [mem_singleton]
          intro heq
          obtain rfl := h.eq_of_id ho₀ ho heq
          exact hmoved (find?_some hfound)
        rw [if_neg hmoved, count_eq_zero_of_not_mem hother]
        exact ⟨hcounted, hbound⟩
    · show ∀ id ∈ s.takes ++ [o.id], id ∈ (s.updateWhere _ _).occurrences.map FlowOccurrence.id
      rw [map_updateWhere FlowOccurrence.id, forall_mem_append, forall_mem_singleton]
      exacts [⟨h.taken, mem_map_of_mem ho⟩, fun _ => rfl]

theorem RowsInvariant.adoptRuns (toISOString : ℕ → String) (a : FiringAttempt)
    (subjectIds : List String) : RowsInvariant (subjectIds.foldl (adoptRun toISOString a) s) := by
  induction subjectIds generalizing s with
  | nil => exact h
  | cons subjectId subjectIds ih =>
    refine ih ?_
    unfold ScheduleLedger.adoptRun
    simp only
    split <;> exact ⟨h.ids, h.fresh, h.keys, h.counts, h.taken, h.fences⟩

theorem RowsInvariant.land (a : FiringAttempt) : RowsInvariant (s.land a) :=
  ⟨h.ids, h.fresh, h.keys, h.counts, h.taken, h.fences⟩

theorem RowsInvariant.step (toISOString : ℕ → String) (a : LedgerStep) :
    RowsInvariant (s.step toISOString a) := by
  refine step_rule h h.land
    (fun flowId due latest now _ => h.claimDueFlowOccurrences flowId due latest now)
    (fun fence now _ hfence => h.takeOccurrenceForFiring hfence now)
    (fun b subjectIds now _ _ => ((h.adoptRuns toISOString b subjectIds).recordWhere _ _ now).land b)
    (fun b now _ _ => (h.recordWhere _ _ now).land b) (fun _ now _ => h.recordWhere _ _ now)
    fun staleBefore batch => ⟨h.ids, h.fresh, h.keys, h.counts, h.taken, ?_⟩
  -- the rows that the recovery reads are within the budget
  show ∀ f ∈ s.fences ++ _, _
  rw [forall_mem_append]
  refine ⟨h.fences, ?_⟩
  intro f hf
  obtain ⟨o, ho, rfl⟩ := mem_map.mp hf
  have hwhere := (mem_filter.mp ho).2
  simp only [Bool.and_eq_true, decide_eq_true_eq] at hwhere
  exact hwhere.1.1.2

end Rows

/-! ### The runs of the subjects -/

/-- **What holds of the flow runs**: one for each key, and what an attempt has worked on has
the key of its occurrence. -/
structure RunsInvariant (toISOString : ℕ → String) (s : ScheduleLedger) : Prop where
  attempts : ∀ a ∈ s.inFlight, ∃ o ∈ s.occurrences, o.id = a.claimId ∧ o.key = a.key
  keys : (s.runs.map ScheduledRun.occurrenceKey).Nodup
  worked : ∀ w ∈ s.worked, ∃ o ∈ s.occurrences, o.id = w.claimId ∧ ∃ run ∈ s.runs,
    run.id = w.runId ∧ run.occurrenceKey = flowRunOccurrenceKey toISOString o.key w.subjectId

variable {toISOString : ℕ → String} {s s' : ScheduleLedger}

section Runs

theorem RunsInvariant.mono (h : RunsInvariant toISOString s) (hrows : KeepsRows s s')
    (hflight : ∀ a ∈ s'.inFlight, a ∈ s.inFlight) (hruns : s'.runs = s.runs)
    (hworked : s'.worked = s.worked) : RunsInvariant toISOString s' := by
  refine ⟨fun a ha => ?_, hruns ▸ h.keys, fun w hw => ?_⟩
  · obtain ⟨o, ho, hid, hkey⟩ := h.attempts a (hflight a ha)
    obtain ⟨o', ho', hid', hkey'⟩ := hrows o ho
    exact ⟨o', ho', hid'.trans hid, hkey'.trans hkey⟩
  · obtain ⟨o, ho, hid, run, hrun, hrunId, hkey⟩ := h.worked w (hworked ▸ hw)
    obtain ⟨o', ho', hid', hkey'⟩ := hrows o ho
    exact ⟨o', ho', hid'.trans hid, run, hruns ▸ hrun, hrunId, hkey' ▸ hkey⟩

theorem keepsRows_recordWhere (s : ScheduleLedger) (p : FlowOccurrence → Bool)
    (status : OccurrenceStatus) (now : ℕ) : KeepsRows s (s.recordWhere p status now) :=
  keepsRows_updateWhere fun _ => ⟨rfl, rfl⟩

/-- What a claim changes: rows of new ids are added. -/
structure ClaimsRows (s s' : ScheduleLedger) : Prop where
  rows : ∃ added, s'.occurrences = s.occurrences ++ added ∧ ∀ o ∈ added, s.nextId ≤ o.id
  nextId : s.nextId ≤ s'.nextId
  inFlight : s'.inFlight = s.inFlight
  runs : s'.runs = s.runs
  worked : s'.worked = s.worked
  recorded : s'.recorded = s.recorded

theorem claimsRows_insertOccurrences (flowId : String) (now : ℕ) (due : List (String × ℕ))
    (s : ScheduleLedger) :
    ClaimsRows s (due.foldl (insertOccurrence flowId now) s) := by
  induction due generalizing s with
  | nil => exact ⟨⟨[], by simp⟩, Nat.le_refl _, rfl, rfl, rfl, rfl⟩
  | cons d due ih =>
    rw [foldl_cons]
    have hrest := ih (s.insertOccurrence flowId now d)
    unfold ScheduleLedger.insertOccurrence at hrest ⊢
    simp only at hrest ⊢
    split_ifs at hrest ⊢
    · exact hrest
    · obtain ⟨added, hrows, hids⟩ := hrest.rows
      refine ⟨⟨_, hrows.trans (append_assoc ..), ?_⟩, Nat.le_of_succ_le hrest.nextId,
        hrest.inFlight, hrest.runs, hrest.worked, hrest.recorded⟩
      rw [forall_mem_append, forall_mem_singleton]
      exact ⟨Nat.le_refl _, fun o ho => Nat.le_of_succ_le (hids o ho)⟩

theorem claimsRows_claimDueFlowOccurrences (s : ScheduleLedger) (flowId : String)
    (due : List (String × ℕ)) (latest now : ℕ) :
    ClaimsRows s (s.claimDueFlowOccurrences flowId due latest now) := by
  unfold ScheduleLedger.claimDueFlowOccurrences
  split_ifs
  · obtain ⟨rows, nextId, inFlight, runs, worked, recorded⟩ :=
      claimsRows_insertOccurrences flowId now due { s with
        lastScheduledRunAt := Function.update s.lastScheduledRunAt flowId (some latest) }
    exact ⟨rows, nextId, inFlight, runs, worked, recorded⟩
  · exact ⟨⟨[], by simp⟩, Nat.le_refl _, rfl, rfl, rfl, rfl⟩

theorem ClaimsRows.keepsRows (h : ClaimsRows s s') : KeepsRows s s' := by
  obtain ⟨added, hrows, -⟩ := h.rows
  intro o ho
  exact ⟨o, hrows ▸ mem_append_left _ ho, rfl, rfl⟩

theorem RunsInvariant.adoptRun (h : RunsInvariant toISOString s) {a : FiringAttempt}
    {o : FlowOccurrence} (ho : o ∈ s.occurrences) (hid : o.id = a.claimId) (hkey : o.key = a.key)
    (subjectId : String) : RunsInvariant toISOString (s.adoptRun toISOString a subjectId) := by
  unfold ScheduleLedger.adoptRun
  simp only
  split
  case h_1 run hfound =>
    refine ⟨h.attempts, h.keys, ?_⟩
    rw [forall_mem_append, forall_mem_singleton]
    refine ⟨h.worked, o, ho, hid, run, mem_of_find?_eq_some hfound, rfl, ?_⟩
    rw [hkey]
    simpa using find?_some hfound
  case h_2 hnone =>
    have hnew : flowRunOccurrenceKey toISOString a.key subjectId ∉
        s.runs.map ScheduledRun.occurrenceKey := by
      intro hmem
      obtain ⟨run, hrun, heq⟩ := mem_map.mp hmem
      exact absurd heq (by simpa using find?_eq_none.mp hnone run hrun)
    refine ⟨h.attempts, ?_, ?_⟩
    · rw [map_append]
      exact h.keys.append (nodup_singleton _) (disjoint_singleton.mpr hnew)
    · rw [forall_mem_append, forall_mem_singleton]
      refine ⟨fun w hw => ?_, o, ho, hid, _, mem_append_right _ (mem_singleton_self _),
        rfl, by rw [hkey]⟩
      obtain ⟨o', ho', hid', run, hrun, hrunId, hrunKey⟩ := h.worked w hw
      exact ⟨o', ho', hid', run, mem_append_left _ hrun, hrunId, hrunKey⟩

theorem adoptRuns_frame (toISOString : ℕ → String) (a : FiringAttempt) (subjectIds : List String)
    (s : ScheduleLedger) :
    (subjectIds.foldl (adoptRun toISOString a) s).occurrences = s.occurrences ∧
      (subjectIds.foldl (adoptRun toISOString a) s).recorded = s.recorded ∧
      (subjectIds.foldl (adoptRun toISOString a) s).inFlight = s.inFlight := by
  induction subjectIds generalizing s with
  | nil => exact ⟨rfl, rfl, rfl⟩
  | cons subjectId subjectIds ih =>
    rw [foldl_cons]
    obtain ⟨hrows, hrecorded, hflight⟩ := ih (s.adoptRun toISOString a subjectId)
    rw [hrows, hrecorded, hflight]
    unfold ScheduleLedger.adoptRun
    simp only
    split <;> exact ⟨rfl, rfl, rfl⟩

variable (h : RunsInvariant toISOString s)

include h

theorem RunsInvariant.adoptRuns {a : FiringAttempt} (ha : a ∈ s.inFlight)
    (subjectIds : List String) :
    RunsInvariant toISOString (subjectIds.foldl (ScheduleLedger.adoptRun toISOString a) s) := by
  obtain ⟨o, ho, hid, hkey⟩ := h.attempts a ha
  clear ha
  induction subjectIds generalizing s with
  | nil => exact h
  | cons subjectId subjectIds ih =>
    refine ih (h.adoptRun ho hid hkey subjectId) ?_
    have hrows := (adoptRuns_frame toISOString a [subjectId] s).1
    rw [foldl_cons, foldl_nil] at hrows
    exact hrows ▸ ho

theorem RunsInvariant.takeOccurrenceForFiring (fence : OccurrenceTakeFence) (now : ℕ) :
    RunsInvariant toISOString (s.takeOccurrenceForFiring fence now) := by
  unfold ScheduleLedger.takeOccurrenceForFiring
  split
  case h_1 => exact h
  case h_2 o hfound =>
    have hrows : KeepsRows s (s.updateWhere (fenceHolds fence) fun o =>
        { o with status := .firing, attemptCount := o.attemptCount + 1, updatedAt := now }) :=
      keepsRows_updateWhere fun _ => ⟨rfl, rfl⟩
    have hsame := h.mono hrows (fun _ ha => ha) rfl rfl
    refine ⟨?_, hsame.keys, hsame.worked⟩
    rw [forall_mem_append, forall_mem_singleton]
    exact ⟨hsame.attempts, hrows o (mem_of_find?_eq_some hfound)⟩

theorem RunsInvariant.land (a : FiringAttempt) : RunsInvariant toISOString (s.land a) :=
  h.mono (fun o ho => ⟨o, ho, rfl, rfl⟩) (fun _ ha => mem_of_mem_erase ha) rfl rfl

theorem RunsInvariant.recordWhere (p : FlowOccurrence → Bool) (status : OccurrenceStatus)
    (now : ℕ) : RunsInvariant toISOString (s.recordWhere p status now) :=
  h.mono (keepsRows_recordWhere s p status now) (fun _ ha => ha) rfl rfl

theorem RunsInvariant.step (a : LedgerStep) : RunsInvariant toISOString (s.step toISOString a) := by
  refine step_rule h h.land (fun flowId due latest now _ => ?_)
    (fun fence now _ _ => h.takeOccurrenceForFiring fence now)
    (fun b subjectIds now _ hb => ((h.adoptRuns hb subjectIds).recordWhere _ _ now).land b)
    (fun b now _ _ => (h.recordWhere _ _ now).land b) (fun _ now _ => h.recordWhere _ _ now)
    fun _ _ => h.mono (fun o ho => ⟨o, ho, rfl, rfl⟩) (fun _ ha => ha) rfl rfl
  have hclaim := claimsRows_claimDueFlowOccurrences s flowId due latest now
  exact h.mono hclaim.keepsRows (fun _ ha => hclaim.inFlight ▸ ha) hclaim.runs hclaim.worked

end Runs

/-! ### Ends -/

/-- **What holds of the ends in runs that stay in step**: a recorded end is what the row
says. -/
def EndsInvariant (s : ScheduleLedger) : Prop :=
  ∀ e ∈ s.recorded, (e.2 = .fired ∨ e.2 = .lost) ∧
    ∃ o ∈ s.occurrences, o.id = e.1 ∧ o.status = e.2

section Ends

variable (h : EndsInvariant s)

include h

theorem EndsInvariant.updateWhere {p : FlowOccurrence → Bool} {f : FlowOccurrence → FlowOccurrence}
    (hp : ∀ o ∈ s.occurrences, p o = true → o.status = .open ∨ o.status = .firing) :
    EndsInvariant (s.updateWhere p f) := by
  intro e he
  obtain ⟨hend, o, ho, hid, hstatus⟩ := h e he
  have huntouched : ¬ p o = true := by
    intro hpo
    rcases hp o ho hpo with hopen | hfiring
    · rcases hend with hend | hend <;> rw [hstatus, hend] at hopen <;> cases hopen
    · rcases hend with hend | hend <;> rw [hstatus, hend] at hfiring <;> cases hfiring
  refine ⟨hend, o, ?_, hid, hstatus⟩
  have hmem := @mem_updateWhere s p f o ho
  rwa [if_neg huntouched] at hmem

theorem EndsInvariant.recordWhere {p : FlowOccurrence → Bool} {status : OccurrenceStatus}
    (hend : status = .fired ∨ status = .lost)
    (hp : ∀ o ∈ s.occurrences, p o = true → o.status = .firing ∨ o.status = status) (now : ℕ) :
    EndsInvariant (s.recordWhere p status now) := by
  intro e he
  rcases mem_append.mp he with he | he
  · obtain ⟨hold, o, ho, hid, hstatus⟩ := h e he
    refine ⟨hold, _, mem_updateWhere ho, ?_⟩
    split_ifs with hpo
    · refine ⟨hid, ?_⟩
      rcases hp o ho hpo with hfiring | hsame
      · rcases hold with hold | hold <;> rw [hstatus, hold] at hfiring <;> cases hfiring
      · exact hsame.symm.trans hstatus
    · exact ⟨hid, hstatus⟩
  · obtain ⟨o, ho, rfl⟩ := mem_map.mp he
    obtain ⟨ho, hpo⟩ := mem_filter.mp ho
    refine ⟨hend, _, mem_updateWhere ho, ?_⟩
    rw [if_pos hpo]
    exact ⟨rfl, rfl⟩

theorem EndsInvariant.stampOccurrenceLost {claimId : ℕ} (hstep : s.InStep claimId .lost) (now : ℕ) :
    EndsInvariant (s.stampOccurrenceLost claimId now) := by
  refine h.recordWhere (.inr rfl) (fun o ho hpo => hstep o ho ?_) now
  simp only [Bool.and_eq_true, decide_eq_true_eq] at hpo
  exact hpo.1

theorem EndsInvariant.step {a : LedgerStep} (ha : s.EndsInStep a) :
    EndsInvariant (s.step toISOString a) := by
  refine step_rule h (fun _ => h) ?claim ?take ?fired ?lost ?reap fun _ _ => h
  case claim =>
    rintro flowId due latest now -
    have hclaim := claimsRows_claimDueFlowOccurrences s flowId due latest now
    obtain ⟨added, hrows, -⟩ := hclaim.rows
    intro e he
    obtain ⟨hend, o, ho, hid, hstatus⟩ := h e (hclaim.recorded ▸ he)
    exact ⟨hend, o, hrows ▸ mem_append_left _ ho, hid, hstatus⟩
  case take =>
    rintro fence now - -
    unfold ScheduleLedger.takeOccurrenceForFiring
    split
    case h_1 => exact h
    case h_2 => exact h.updateWhere fun o _ hpo => (fenceHolds_eq_true hpo).2.1
  case fired =>
    rintro b subjectIds now rfl hflight
    obtain ⟨hrows, hrecorded, -⟩ := adoptRuns_frame toISOString b subjectIds s
    have hadopted : EndsInvariant
        (subjectIds.foldl (adoptRun toISOString b) s) := by
      intro e he
      rw [hrows]
      exact h e (hrecorded ▸ he)
    refine hadopted.recordWhere (.inl rfl) (fun o ho hpo => ?_) now
    exact ha hflight o (hrows ▸ ho) (of_decide_eq_true hpo)
  case lost =>
    rintro b now (rfl | ⟨rfl, hspent⟩) hflight
    · exact h.stampOccurrenceLost (ha hflight) now
    · exact h.stampOccurrenceLost (ha hflight hspent) now
  case reap =>
    rintro staleBefore now -
    refine h.recordWhere (.inr rfl) (fun o _ hpo => .inl ?_) now
    simp only [Bool.and_eq_true, decide_eq_true_eq] at hpo
    exact hpo.1.1

end Ends

/-! ### Attempts that are alone -/

/-- **No attempt is overtaken**: when an occurrence is taken, none of its attempts is in
flight, and the reaper finds no occurrence stale that has one. -/
def ScheduleLedger.Alone (s : ScheduleLedger) : LedgerStep → Prop
  | .take fence _ => ∀ a ∈ s.inFlight, a.claimId ≠ fence.claimId
  | .reap staleBefore _ => ∀ a ∈ s.inFlight, ∀ o ∈ s.occurrences, o.id = a.claimId →
      staleBefore ≤ o.updatedAt
  | _ => True

/-- Then an occurrence has one attempt in flight at most, and fires while it has. -/
structure AloneInvariant (s : ScheduleLedger) : Prop where
  once : (s.inFlight.map FiringAttempt.claimId).Nodup
  firing : ∀ a ∈ s.inFlight, ∀ o ∈ s.occurrences, o.id = a.claimId → o.status = .firing

section Alone

variable (h : AloneInvariant s)

include h

theorem AloneInvariant.endsInStep (a : LedgerStep) : s.EndsInStep a := by
  cases a with
  | complete a subjectIds now | refuse a now =>
    exact fun ha o ho hid => .inl (h.firing a ha o ho hid)
  | fail a now => exact fun ha _ o ho hid => .inl (h.firing a ha o ho hid)
  | _ => trivial

theorem AloneInvariant.land (a : FiringAttempt) : AloneInvariant (s.land a) where
  once := h.once.sublist (erase_sublist.map _)
  firing b hb := h.firing b (mem_of_mem_erase hb)

theorem AloneInvariant.recordLanding {a : FiringAttempt} (ha : a ∈ s.inFlight)
    {p : FlowOccurrence → Bool} (hp : ∀ o ∈ s.occurrences, p o = true → o.id = a.claimId)
    (status : OccurrenceStatus) (now : ℕ) :
    AloneInvariant ((s.recordWhere p status now).land a) := by
  refine ⟨(h.land a).once, fun b hb o' ho' hid => ?_⟩
  have hb' : b ∈ s.inFlight := mem_of_mem_erase hb
  obtain ⟨o, ho, rfl⟩ := mem_map.mp ho'
  have hne : b.claimId ≠ a.claimId := by
    intro heq
    obtain rfl := inj_on_of_nodup_map h.once hb' ha heq
    exact (Nodup.of_map _ h.once).not_mem_erase hb
  have huntouched : ¬ p o = true := by
    intro hpo
    rw [if_pos hpo] at hid
    exact hne (hid.symm.trans (hp o ho hpo))
  rw [if_neg huntouched] at hid ⊢
  exact h.firing b hb' o ho hid

theorem AloneInvariant.takeOccurrenceForFiring (hrows : RowsInvariant s)
    {fence : OccurrenceTakeFence} {now : ℕ} (hfree : s.Alone (.take fence now)) :
    AloneInvariant (s.takeOccurrenceForFiring fence now) := by
  unfold ScheduleLedger.takeOccurrenceForFiring
  split
  case h_1 => exact h
  case h_2 o hfound =>
    obtain ⟨hid, -⟩ := fenceHolds_eq_true (find?_some hfound)
    refine ⟨?_, ?_⟩
    · rw [map_append]
      refine h.once.append (nodup_singleton _) (disjoint_singleton.mpr fun hmem => ?_)
      obtain ⟨a, ha, heq⟩ := mem_map.mp hmem
      exact hfree a ha (heq.trans hid)
    · intro a ha o' ho' hid'
      obtain ⟨o₀, ho₀, rfl⟩ := mem_map.mp ho'
      by_cases hmoved : fenceHolds fence o₀ = true
      · rw [if_pos hmoved]
      · rw [if_neg hmoved] at hid' ⊢
        rcases mem_append.mp ha with ha | ha
        · exact h.firing a ha o₀ ho₀ hid'
        · obtain rfl := mem_singleton.mp ha
          obtain rfl := hrows.eq_of_id ho₀ (mem_of_find?_eq_some hfound) hid'
          exact absurd (find?_some hfound) hmoved

theorem AloneInvariant.step (hrows : RowsInvariant s) (hruns : RunsInvariant toISOString s)
    {a : LedgerStep} (ha : s.Alone a) : AloneInvariant (s.step toISOString a) := by
  refine step_rule h h.land ?claim ?take ?fired ?lost ?reap
    fun _ _ => ⟨h.once, h.firing⟩
  case claim =>
    rintro flowId due latest now -
    have hclaim := claimsRows_claimDueFlowOccurrences s flowId due latest now
    obtain ⟨added, hadded, hids⟩ := hclaim.rows
    refine ⟨?_, fun a ha o ho hid => ?_⟩
    · show ((s.claimDueFlowOccurrences flowId due latest now).inFlight.map _).Nodup
      rw [hclaim.inFlight]
      exact h.once
    · have ha' : a ∈ s.inFlight := hclaim.inFlight ▸ ha
      have ho' : o ∈ s.occurrences ++ added := hadded ▸ ho
      rcases mem_append.mp ho' with ho' | ho'
      · exact h.firing a ha' o ho' hid
      · -- the occurrence of an attempt is older than any that is added
        obtain ⟨o₀, ho₀, hid₀, -⟩ := hruns.attempts a ha'
        have := hrows.fresh o₀ ho₀
        have := hids o ho'
        omega
  case take =>
    rintro fence now rfl -
    exact h.takeOccurrenceForFiring hrows ha
  case fired =>
    rintro b subjectIds now - hflight
    obtain ⟨hsame, -, hin⟩ := adoptRuns_frame toISOString b subjectIds s
    have hadopted : AloneInvariant
        (subjectIds.foldl (adoptRun toISOString b) s) :=
      ⟨hin ▸ h.once, fun c hc o ho => h.firing c (hin ▸ hc) o (hsame ▸ ho)⟩
    exact hadopted.recordLanding (hin ▸ hflight) (fun o _ hpo => of_decide_eq_true hpo) _ now
  case lost =>
    rintro b now - hflight
    refine h.recordLanding hflight (fun o _ hpo => ?_) _ now
    simp only [Bool.and_eq_true, decide_eq_true_eq] at hpo
    exact hpo.1
  case reap =>
    rintro staleBefore now rfl
    refine ⟨h.once, fun a hflight o' ho' hid => ?_⟩
    obtain ⟨o, ho, rfl⟩ := mem_map.mp ho'
    split_ifs at hid ⊢ with hstale
    · simp only [Bool.and_eq_true, decide_eq_true_eq] at hstale
      have := ha a hflight o ho hid
      omega
    · exact h.firing a hflight o ho hid

end Alone

/-! ### Whole runs -/

section WholeRuns

theorem RowsInvariant.run {s : ScheduleLedger} (h : RowsInvariant s) (steps : List LedgerStep) :
    RowsInvariant (s.run toISOString steps) := by
  induction steps generalizing s with
  | nil => exact h
  | cons a steps ih => exact ih (h.step toISOString a)

theorem RunsInvariant.run {s : ScheduleLedger} (h : RunsInvariant toISOString s)
    (steps : List LedgerStep) : RunsInvariant toISOString (s.run toISOString steps) := by
  induction steps generalizing s with
  | nil => exact h
  | cons a steps ih => exact ih (h.step a)

theorem EndsInvariant.run {s : ScheduleLedger} (h : EndsInvariant s) {steps : List LedgerStep}
    (hsteps : s.Along toISOString EndsInStep steps) :
    EndsInvariant (s.run toISOString steps) := by
  induction steps generalizing s with
  | nil => exact h
  | cons a steps ih => exact ih (h.step hsteps.1) hsteps.2

/-- A ledger without occurrences, wherever the cursors of the flows stand. -/
def ScheduleLedger.start (lastScheduledRunAt : String → Option ℕ) : ScheduleLedger :=
  { lastScheduledRunAt := lastScheduledRunAt }

section

variable (cursors : String → Option ℕ)

theorem rowsInvariant_start : RowsInvariant (start cursors) := by
  constructor <;> simp [start, OneRowEach]

theorem runsInvariant_start : RunsInvariant toISOString (start cursors) := by
  constructor <;> simp [start]

/-- **Attempts that are never overtaken end in step.** -/
theorem endsInStep_of_alone {steps : List LedgerStep}
    (h : (start cursors).Along toISOString Alone steps) :
    (start cursors).Along toISOString EndsInStep steps := by
  have halone : AloneInvariant (start cursors) := by
    constructor <;> simp [start]
  have hrows := rowsInvariant_start cursors
  have hruns : RunsInvariant toISOString _ := runsInvariant_start cursors
  generalize start cursors = s at h halone hrows hruns
  induction steps generalizing s with
  | nil => trivial
  | cons a steps ih =>
    exact ⟨halone.endsInStep a, ih _ h.2 (halone.step hrows hruns h.1)
      (hrows.step toISOString a) (hruns.step a)⟩

end

theorem RowsInvariant.takesBounded {s : ScheduleLedger} (h : RowsInvariant s) :
    s.TakesBounded := by
  intro id
  by_cases hid : id ∈ s.occurrences.map FlowOccurrence.id
  · obtain ⟨o, ho, rfl⟩ := mem_map.mp hid
    obtain ⟨hcount, hbound⟩ := h.counts o ho
    rw [hcount]
    exact hbound
  · rw [count_eq_zero_of_not_mem fun ht => hid (h.taken id ht)]
    exact Nat.zero_le _

theorem RunsInvariant.sharedRuns {s : ScheduleLedger} (h : RunsInvariant toISOString s)
    (hrows : RowsInvariant s) : s.SharedRuns := by
  intro w hw w' hw' hclaim hsubject
  obtain ⟨o, ho, hid, run, hrun, hrunId, hkey⟩ := h.worked w hw
  obtain ⟨o', ho', hid', run', hrun', hrunId', hkey'⟩ := h.worked w' hw'
  obtain rfl := hrows.eq_of_id ho ho' (hid.trans (hclaim.trans hid'.symm))
  rw [← hsubject] at hkey'
  obtain rfl := inj_on_of_nodup_map h.keys hrun hrun' (hkey.trans hkey'.symm)
  exact hrunId.symm.trans hrunId'

theorem EndsInvariant.endsFinal {s : ScheduleLedger} (h : EndsInvariant s)
    (hrows : RowsInvariant s) : s.EndsFinal := by
  intro id hfired hlost
  obtain ⟨-, o, ho, hid, hstatus⟩ := h _ hfired
  obtain ⟨-, o', ho', hid', hstatus'⟩ := h _ hlost
  obtain rfl := hrows.eq_of_id ho ho' (hid.trans hid'.symm)
  rw [hstatus] at hstatus'
  cases hstatus'

end WholeRuns

/-- **In every run an occurrence has one row, a bounded number of attempts and one flow run for
each subject; its end is final in every run in which no attempt ends against it.** -/
theorem occurrences_settle (toISOString : ℕ → String) (cursors : String → Option ℕ)
    (steps : List LedgerStep) :
    ((start cursors).run toISOString steps).OneRowEach ∧
      ((start cursors).run toISOString steps).TakesBounded ∧
      ((start cursors).run toISOString steps).SharedRuns ∧
      ((start cursors).Along toISOString EndsInStep steps →
        ((start cursors).run toISOString steps).EndsFinal) := by
  have hrows : RowsInvariant ((start cursors).run toISOString steps) :=
    (rowsInvariant_start cursors).run steps
  have hruns : RunsInvariant toISOString _ := (runsInvariant_start cursors).run steps
  refine ⟨hrows.keys, hrows.takesBounded, hruns.sharedRuns hrows, fun hsteps => ?_⟩
  have hstart : EndsInvariant (start cursors) := fun e he => by cases he
  exact (hstart.run hsteps).endsFinal hrows

/-! ### An occurrence, taken twice -/

def noonKey : OccurrenceKey := ⟨"flow", "daily", 720⟩

/-- An occurrence is claimed and taken, and goes stale; the recovery takes it again. Times are
minutes of the day. -/
def overtakenSteps : List LedgerStep :=
  [.claimDue "flow" [("daily", 720)] 720 720, .take { claimId := 0, attemptCount := 0 } 720,
    .selectStale 785 [0], .take { claimId := 0, attemptCount := 1, updatedAt := some 720 } 800]

/-- The first attempt has crashed by then, and the second completes. -/
def recoveredSteps : List LedgerStep :=
  [.claimDue "flow" [("daily", 720)] 720 720, .take { claimId := 0, attemptCount := 0 } 720,
    .crash ⟨0, noonKey, 1⟩, .selectStale 785 [0],
    .take { claimId := 0, attemptCount := 1, updatedAt := some 720 } 800,
    .complete ⟨0, noonKey, 2⟩ ["invoice"] 801]

theorem occurrences_settle_recovered :
    ((start fun _ => none).run toString recoveredSteps).recorded =
        [(0, .fired)] ∧
      ((start fun _ => none).run toString recoveredSteps).EndsFinal := by
  refine ⟨by decide +kernel, (occurrences_settle toString _ recoveredSteps).2.2.2 ?_⟩
  refine endsInStep_of_alone _ ⟨trivial, ?_, trivial, trivial, ?_, trivial, trivial⟩
  · exact fun a ha => by cases ha
  · exact fun a ha => by cases ha

/-- **Both ends can be turned round**: the first attempt, overtaken, completes, and then the
second fails and is stamped a loss; or the second fails first, and the first completes over
the loss. -/
theorem overtakenSteps_turn_ends :
    ((start fun _ => none).run toString (overtakenSteps ++
        [.complete ⟨0, noonKey, 1⟩ ["invoice"] 801, .fail ⟨0, noonKey, 2⟩ 802])).recorded =
      [(0, .fired), (0, .lost)] ∧
    ((start fun _ => none).run toString (overtakenSteps ++
        [.fail ⟨0, noonKey, 2⟩ 801, .complete ⟨0, noonKey, 1⟩ ["invoice"] 802])).recorded =
      [(0, .lost), (0, .fired)] ∧
    ¬ ((start fun _ => none).run toString (overtakenSteps ++
        [.complete ⟨0, noonKey, 1⟩ ["invoice"] 801, .fail ⟨0, noonKey, 2⟩ 802])).EndsFinal := by
  have hturned : ((start fun _ => none).run toString (overtakenSteps ++
      [.complete ⟨0, noonKey, 1⟩ ["invoice"] 801, .fail ⟨0, noonKey, 2⟩ 802])).recorded =
        [(0, .fired), (0, .lost)] := by
    decide +kernel
  refine ⟨hturned, by decide +kernel, fun hfinal => ?_⟩
  refine hfinal 0 ?_ ?_ <;> simp [hturned]

end OpenBooks
