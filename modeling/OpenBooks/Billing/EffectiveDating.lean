import OpenBooks.Billing.ComponentWindows
import OpenBooks.Lib.DatedLedger

/-!
# Amendments that are not in effect yet

An amendment is written to the contract's row when it is recorded, whatever date it is effective
from. The row is what was agreed last, and billing must not read it: it reads the ledger as of
the date of the bill, for the timing and the end of the term
(`resolveEffectiveLifecycleState`) and for the plan version
(`EffectiveDating.planVersionInForce`).

Both start from what the contract was before the amendment applied first, and both stop at the
date. So recording an amendment changes nothing before it is effective. When amendments are
applied in the order of their dates, the ledger as of the last date should be the row again. It
is, unless a change of term left its end out of the request: the row then has an open term, and
the ledger does not read that as a change of the term
(`EffectiveDating.future_amendment_governs_no_earlier_bill`,
`EffectiveDating.opened_term_is_not_read_back`).
-/

namespace OpenBooks.EffectiveDating

open Checked DatedLedger ContractComponents List

/-! ### The plan version in force -/

/-- One recorded plan change, projected from the amendment ledger. -/
structure PlanChangeFact where
  effectiveOn : CivilDate
  seq : ℕ
  fromVersionId : Option String
  toVersionId : Option String

/-- By effective date, then in recording order. -/
def PlanChangeFact.effectiveBefore (a b : PlanChangeFact) : Prop :=
  a.effectiveOn < b.effectiveOn ∨ (a.effectiveOn = b.effectiveOn ∧ a.seq ≤ b.seq)

instance : DecidableRel PlanChangeFact.effectiveBefore :=
  fun _ _ => inferInstanceAs (Decidable (_ ∨ _))

/-- The version after a change. A change that names none leaves it. -/
def PlanChangeFact.apply (current : String) (change : PlanChangeFact) : String :=
  (change.toVersionId.filter (· ≠ "")).getD current

def planVersionInForce (asOf : CivilDate) (pinnedVersionId : String)
    (changes : List PlanChangeFact) : String :=
  let ordered := changes.insertionSort PlanChangeFact.effectiveBefore
  let first := changes.foldl (earlier PlanChangeFact.seq) none
  (ordered.takeWhile fun change => change.effectiveOn ≤ asOf).foldl PlanChangeFact.apply
    ((first.bind (·.fromVersionId)).getD pinnedVersionId)

/-! ### Contracts and the versions they pin -/

/-- A contract with the id of the plan version in its row, and the plan changes of its ledger. -/
structure PinnedContract where
  subscription : Subscription
  planVersionId : String
  planChanges : List PlanChangeFact

/-- A request, with the id of the version that a change of plan is to. -/
structure ContractRequest where
  request : AmendmentRequest
  planVersionId : String

def changesPlan : AmendmentChange → Bool
  | .changePlan _ => true
  | _ => false

/-- Whether a text is a UUID: groups of eight, four, four, four and twelve hex digits. -/
def UUID_TEXT (text : String) : Bool :=
  text.length = 36 && text.toList.zipIdx.all fun c =>
    if c.2 ∈ [8, 13, 18, 23] then c.1 = '-'
    else c.1.isDigit || c.1.toLower ∈ ['a', 'b', 'c', 'd', 'e', 'f']

/-- Amend a contract, and record a change of plan with the versions it is between. -/
def amend (contract : PinnedContract) (requested : ContractRequest) :
    Except String PinnedContract := do
  let subscription ← applyAmendment contract.subscription requested.request
  if isRecorded contract.subscription requested.request.idempotencyKey then return contract
  else if changesPlan requested.request.change then do
    refuseIf (UUID_TEXT requested.planVersionId = false) "a plan version is required to change plan"
    return {
      subscription
      planVersionId := requested.planVersionId
      planChanges := contract.planChanges ++ [{
        effectiveOn := requested.request.effectiveOn
        seq := (contract.subscription.lifecycle.elim 0 fun l => l.amendments.length) + 1
        fromVersionId := some contract.planVersionId
        toVersionId := some requested.planVersionId }] }
  else return { contract with subscription }

def rowState (l : Lifecycle) : EffectiveState := ⟨l.billingTiming, l.termEndsOn⟩

/-- What the row of a contract says: the timing, the end of the term, the plan version. -/
def PinnedContract.latest (contract : PinnedContract) : Option EffectiveState × String :=
  (contract.subscription.lifecycle.map rowState, contract.planVersionId)

/-- What is in force on a date, as the ledger says. -/
def PinnedContract.inForce (contract : PinnedContract) (asOf : CivilDate) :
    Option EffectiveState × String :=
  (contract.subscription.lifecycle.map fun l => l.effectiveState asOf (rowState l),
    planVersionInForce asOf contract.planVersionId contract.planChanges)

/-- A contract that nothing was recorded of. -/
def PinnedContract.IsNew (contract : PinnedContract) : Prop :=
  (∃ l, contract.subscription.lifecycle = some l ∧ l.amendments = []) ∧ contract.planChanges = []

/-- Whether the amendments were applied in the order of their effective dates. -/
def PinnedContract.InOrder (contract : PinnedContract) : Prop :=
  ∀ l ∈ contract.subscription.lifecycle,
    l.amendments.Pairwise fun a b => a.request.effectiveOn ≤ b.request.effectiveOn

/-- Whether a date is on or after every effective date. -/
def PinnedContract.AllEffective (contract : PinnedContract) (asOf : CivilDate) : Prop :=
  ∀ l ∈ contract.subscription.lifecycle, ∀ a ∈ l.amendments, a.request.effectiveOn ≤ asOf

/-- Whether a change of term states the end of the term: a new one that leaves it out is of a
term that is open already. -/
def StatesTerm (contract : PinnedContract) (requested : ContractRequest) : Prop :=
  requested.request.change = .changeTerm none →
    isRecorded contract.subscription requested.request.idempotencyKey = true ∨
      ∀ l ∈ contract.subscription.lifecycle, l.termEndsOn = none

/-! ### What an amendment writes -/

variable {s s' : Subscription} {l after : Lifecycle} {request : AmendmentRequest}

theorem setTerm_eq_ok {termStartsOn : CivilDate} {termEndsOn : Option CivilDate}
    (h : l.setTerm termStartsOn termEndsOn = .ok after) :
    after.termEndsOn = termEndsOn ∧ after.billingTiming = l.billingTiming ∧
      after.amendments = l.amendments := by
  rw [Lifecycle.setTerm] at h
  split_ifs at h
  cases h
  exact ⟨rfl, rfl, rfl⟩

/-- The row of the ledger that records an amendment. -/
def recordOf (before after : Lifecycle) (request : AmendmentRequest) : Amendment where
  seq := before.amendments.length + 1
  request := request
  baseTiming := before.billingTiming
  baseTerm := before.termEndsOn
  afterTerm := after.termEndsOn

/-- **What a change writes to the row** is what the ledger reads of it: for a change of term, if
the request states the end. -/
theorem applyChange_spec (h : applyChange s l request = .ok after) :
    after.amendments = l.amendments ∧
      ((request.change = .changeTerm none → l.termEndsOn = none) →
        rowState after = (rowState l).amend (recordOf l after request)) ∧
      ((recordOf l after request).movesLifecycle = false →
        rowState after = rowState l) := by
  cases hchange : request.change with
  | component =>
    simp only [applyChange, hchange] at h
    cases h
    refine ⟨rfl, fun _ => ?_, fun _ => rfl⟩
    simp [EffectiveState.amend, Amendment.timing, Amendment.term, recordOf, hchange]
  | changeTerm termEndsOn =>
    simp only [applyChange, hchange, bind_eq_ok] at h
    obtain ⟨-, -, hset⟩ := h
    obtain ⟨hterm, htiming, hledger⟩ := setTerm_eq_ok hset
    refine ⟨hledger, fun hstated => ?_, fun hmoves => ?_⟩
    · rw [rowState, hterm, htiming]
      cases termEndsOn with
      | none =>
        simp [EffectiveState.amend, Amendment.timing, Amendment.term, recordOf, hchange,
          rowState, hstated rfl]
      | some termEnd =>
        simp [EffectiveState.amend, Amendment.timing, Amendment.term, recordOf, hchange, rowState]
    · simp [Amendment.movesLifecycle, recordOf, hchange] at hmoves
  | changeTiming billingTiming =>
    simp only [applyChange, hchange] at h
    cases h
    refine ⟨rfl, fun _ => ?_, fun hmoves => ?_⟩
    · simp [EffectiveState.amend, Amendment.timing, Amendment.term, recordOf, hchange, rowState]
    · simp [Amendment.movesLifecycle, recordOf, hchange] at hmoves
  | renew months =>
    simp only [applyChange, hchange, bind_eq_ok, pure_eq_ok] at h
    obtain ⟨n, -, termEnd, -, nextEnd, -, renewed, hset, rfl⟩ := h
    obtain ⟨hterm, htiming, hledger⟩ := setTerm_eq_ok hset
    refine ⟨hledger, fun _ => ?_, fun hmoves => ?_⟩
    · simp [EffectiveState.amend, Amendment.timing, Amendment.term, recordOf, hchange,
        rowState, htiming]
    · simp [Amendment.movesLifecycle, recordOf, hchange] at hmoves
  | coterm anchorTermEndsOn =>
    simp only [applyChange, hchange, bind_eq_ok] at h
    obtain ⟨anchorEnd, -, hset⟩ := h
    obtain ⟨hterm, htiming, hledger⟩ := setTerm_eq_ok hset
    refine ⟨hledger, fun _ => ?_, fun hmoves => ?_⟩
    · simp [EffectiveState.amend, Amendment.timing, Amendment.term, recordOf, hchange,
        rowState, htiming]
    · simp [Amendment.movesLifecycle, recordOf, hchange] at hmoves
  | changePlan target =>
    simp only [applyChange, hchange, bind_eq_ok, pure_eq_ok] at h
    obtain ⟨-, -, rfl⟩ := h
    refine ⟨rfl, fun _ => ?_, fun _ => rfl⟩
    simp [EffectiveState.amend, Amendment.timing, Amendment.term, recordOf, hchange, rowState]

variable {contract contract' : PinnedContract} {requested : ContractRequest}

theorem applyAmendment_new (hl : s.lifecycle = some l)
    (hnew : isRecorded s request.idempotencyKey = false) (h : applyAmendment s request = .ok s') :
    ∃ after, applyChange s l request = .ok after ∧
      s'.lifecycle = some (l.record after request) := by
  have hfind : (l.amendments.find? fun a =>
      a.request.idempotencyKey = request.idempotencyKey) = none := by
    rw [find?_eq_none]
    rw [isRecorded, hl, Option.any_some, any_eq_false] at hnew
    exact hnew
  simp only [applyAmendment, bind_eq_ok, orRefuse_eq_ok] at h
  obtain ⟨l', hl', h⟩ := h
  obtain rfl : l = l' := Option.some.inj (hl.symm.trans hl')
  simp only [hfind, bind_eq_ok, refuseIf_eq_ok, pure_eq_ok] at h
  obtain ⟨_, -, after, hafter, rfl⟩ := h
  exact ⟨after, hafter, rfl⟩

theorem ne_empty_of_uuid {text : String} (h : UUID_TEXT text ≠ false) : text ≠ "" := by
  rintro rfl
  exact h rfl

/-- **What an amendment does**: nothing, or a new row of the ledger. -/
theorem amend_cases (hl : contract.subscription.lifecycle = some l)
    (h : amend contract requested = .ok contract') :
    contract' = contract ∨
      isRecorded contract.subscription requested.request.idempotencyKey = false ∧
      ∃ after, applyChange contract.subscription l requested.request = .ok after ∧
        contract'.subscription.lifecycle = some (l.record after requested.request) ∧
        (contract'.planVersionId = contract.planVersionId ∧
            contract'.planChanges = contract.planChanges ∨
          requested.planVersionId ≠ "" ∧
            contract'.planVersionId = requested.planVersionId ∧
            contract'.planChanges = contract.planChanges ++
              [⟨requested.request.effectiveOn, l.amendments.length + 1,
                some contract.planVersionId, some requested.planVersionId⟩]) := by
  simp only [amend, bind_eq_ok] at h
  obtain ⟨subscription, happly, h⟩ := h
  split_ifs at h with hrecorded hplan
  · exact .inl (Except.ok.inj h).symm
  · rw [Bool.not_eq_true] at hrecorded
    obtain ⟨after, hafter, hlifecycle⟩ := applyAmendment_new hl hrecorded happly
    simp only [bind_eq_ok, refuseIf_eq_ok, pure_eq_ok] at h
    obtain ⟨_, huuid, rfl⟩ := h
    refine .inr ⟨hrecorded, after, hafter, hlifecycle, .inr ⟨ne_empty_of_uuid huuid, rfl, ?_⟩⟩
    rw [hl]
    rfl
  · rw [Bool.not_eq_true] at hrecorded
    obtain ⟨after, hafter, hlifecycle⟩ := applyAmendment_new hl hrecorded happly
    obtain rfl := Except.ok.inj h
    exact .inr ⟨hrecorded, after, hafter, hlifecycle, .inl ⟨rfl, rfl⟩⟩

/-! ### Ledgers that are numbered -/

/-- What holds of the ledger of a contract: its rows are numbered as they were recorded, and the
plan changes are rows of it, each from the version that was pinned. -/
structure Kept (contract : PinnedContract) (l : Lifecycle) : Prop where
  lifecycle : contract.subscription.lifecycle = some l
  numbered : l.amendments.Pairwise fun a b => a.seq < b.seq
  bounded : ∀ a ∈ l.amendments, a.seq ≤ l.amendments.length
  facts : (contract.planChanges.map fun f => (f.effectiveOn, f.seq)).Sublist
    (l.amendments.map fun a => (a.request.effectiveOn, a.seq))
  from_some : ∀ f ∈ contract.planChanges, f.fromVersionId = some (f.fromVersionId.getD "")

theorem Kept.facts_numbered (h : Kept contract l) :
    contract.planChanges.Pairwise fun a b => a.seq < b.seq := by
  have hseqs : (l.amendments.map fun a => (a.request.effectiveOn, a.seq)).Pairwise
      fun a b => a.2 < b.2 := pairwise_map.mpr h.numbered
  have hfacts := hseqs.sublist h.facts
  rwa [pairwise_map] at hfacts

/-- What a contract was before an amendment. -/
def amendmentBase (a : Amendment) : EffectiveState := ⟨a.baseTiming, a.baseTerm⟩

def changeBase (f : PlanChangeFact) : String := f.fromVersionId.getD ""

variable {asOf on on' : CivilDate} {m n : ℕ}

theorem before_total : (on < on' ∨ on = on' ∧ m ≤ n) ∨ (on' < on ∨ on' = on ∧ n ≤ m) := by
  rcases lt_trichotomy on on' with h | h | h
  · exact .inl (.inl h)
  · exact (le_total m n).imp (fun hle => .inr ⟨h, hle⟩) fun hle => .inr ⟨h.symm, hle⟩
  · exact .inr (.inl h)

instance : Std.Total Amendment.effectiveBefore := ⟨fun _ _ => before_total⟩

instance : Std.Total PlanChangeFact.effectiveBefore := ⟨fun _ _ => before_total⟩

theorem effectiveOn_le_of_before (h : on < on' ∨ on = on' ∧ m ≤ n)
    (hb : decide (on' ≤ asOf) = true) : decide (on ≤ asOf) = true := by
  rw [decide_eq_true_eq] at hb ⊢
  rcases h with hlt | ⟨heq, -⟩
  · exact hlt.le.trans hb
  · exact heq.trans_le hb

theorem earlierApplied_eq : earlierApplied = earlier Amendment.seq := by
  funext first a
  cases first <;> rfl

/-- The rows of the ledger that are of timing or term. -/
def movesOf (l : Lifecycle) : List Amendment := l.amendments.filter Amendment.movesLifecycle

/-- **The resolver starts from what the contract was before the row recorded first.** -/
theorem Kept.effectiveState_eq (h : Kept contract l) (asOf : CivilDate)
    (fallback : EffectiveState) :
    l.effectiveState asOf fallback =
      (((movesOf l).insertionSort Amendment.effectiveBefore).takeWhile fun a =>
        a.request.effectiveOn ≤ asOf).foldl EffectiveState.amend
          (origin amendmentBase fallback (movesOf l)) := by
  rw [Lifecycle.effectiveState, resolveEffectiveLifecycleState, earlierApplied_eq,
    foldl_earlier (h.numbered.filter _) (perm_insertionSort _ _)]
  rfl

theorem Kept.planVersionInForce_eq (h : Kept contract l) (asOf : CivilDate) (pinned : String) :
    planVersionInForce asOf pinned contract.planChanges =
      ((contract.planChanges.insertionSort PlanChangeFact.effectiveBefore).takeWhile fun f =>
        f.effectiveOn ≤ asOf).foldl PlanChangeFact.apply
          (origin changeBase pinned contract.planChanges) := by
  rw [planVersionInForce, foldl_earlier h.facts_numbered (Perm.refl _)]
  congr 1
  cases hchanges : contract.planChanges with
  | nil => rfl
  | cons first later =>
    rw [head?_cons, Option.bind_some, h.from_some first (by simp [hchanges])]
    rfl

/-! ### What an amendment keeps -/

/-- A new row was recorded of what the contract was before it. -/
theorem origin_record {fallback : EffectiveState} {moves : List Amendment} :
    origin amendmentBase fallback (moves ++ [recordOf l after request]) =
      origin amendmentBase (rowState l) moves :=
  origin_append fun _ => rfl

theorem origin_planChange {fallback pinned : String} {changes : List PlanChangeFact}
    {effectiveOn : CivilDate} {seq : ℕ} {toVersionId : Option String} :
    origin changeBase fallback (changes ++ [⟨effectiveOn, seq, some pinned, toVersionId⟩]) =
      origin changeBase pinned changes :=
  origin_append fun _ => rfl

theorem record_amendments (h : after.amendments = l.amendments) :
    (l.record after request).amendments = l.amendments ++ [recordOf l after request] := by
  rw [Lifecycle.record, h]
  rfl

theorem movesOf_record (h : after.amendments = l.amendments) :
    movesOf (l.record after request) =
      movesOf l ++ [recordOf l after request].filter Amendment.movesLifecycle := by
  rw [movesOf, record_amendments h, filter_append]
  rfl

section

variable (h : Kept contract l)

include h

theorem Kept.amend (hamend : EffectiveDating.amend contract requested = .ok contract') :
    ∃ l', Kept contract' l' := by
  rcases amend_cases h.lifecycle hamend with rfl | ⟨-, after, hafter, hlifecycle, hplan⟩
  · exact ⟨l, h⟩
  have hledger : (l.record after requested.request).amendments =
      l.amendments ++ [recordOf l after requested.request] :=
    record_amendments (applyChange_spec hafter).1
  refine ⟨_, hlifecycle, ?_, ?_, ?_, ?_⟩
  · rw [hledger]
    refine pairwise_append.mpr ⟨h.numbered, pairwise_singleton _ _, fun a ha b hb => ?_⟩
    rw [mem_singleton.mp hb]
    exact Nat.lt_succ_of_le (h.bounded a ha)
  · rw [hledger, length_append, length_singleton]
    intro a ha
    rcases mem_append.mp ha with ha | ha
    · exact (h.bounded a ha).trans (Nat.le_succ _)
    · rw [mem_singleton.mp ha]
      exact le_refl _
  · rw [hledger, map_append]
    rcases hplan with ⟨-, hchanges⟩ | ⟨-, -, hchanges⟩
    · rw [hchanges]
      exact h.facts.trans (sublist_append_left _ _)
    · rw [hchanges, map_append]
      exact h.facts.append (Sublist.refl _)
  · rcases hplan with ⟨-, hchanges⟩ | ⟨-, -, hchanges⟩
    · rw [hchanges]
      exact h.from_some
    · rw [hchanges]
      intro f hf
      rcases mem_append.mp hf with hf | hf
      · exact h.from_some f hf
      · rw [mem_singleton.mp hf]
        rfl

/-- **Nothing changes before an amendment is effective.** -/
theorem Kept.inForce_amend (hamend : EffectiveDating.amend contract requested = .ok contract')
    (hlater : asOf < requested.request.effectiveOn) :
    contract'.inForce asOf = contract.inForce asOf := by
  obtain ⟨l', h'⟩ := h.amend hamend
  rcases amend_cases h.lifecycle hamend with rfl | ⟨-, after, hafter, hlifecycle, hplan⟩
  · rfl
  obtain rfl : l.record after requested.request = l' :=
    Option.some.inj (hlifecycle.symm.trans h'.lifecycle)
  obtain ⟨hledger, -, hrow⟩ := applyChange_spec hafter
  refine Prod.ext ?_ ?_
  · simp only [PinnedContract.inForce, h.lifecycle, hlifecycle, Option.map_some]
    rw [h.effectiveState_eq, h'.effectiveState_eq, movesOf_record hledger]
    cases hmoves : (recordOf l after requested.request).movesLifecycle with
    | true =>
      rw [filter_singleton, hmoves, cond_true, origin_record, takeWhile_append_later
        (fun a b (h : Amendment.effectiveBefore a b) => effectiveOn_le_of_before h)]
      exact decide_eq_false hlater.not_ge
    | false =>
      have hsame : rowState (l.record after requested.request) = rowState l := hrow hmoves
      rw [filter_singleton, hmoves, cond_false, append_nil, hsame]
  · simp only [PinnedContract.inForce]
    rw [h.planVersionInForce_eq, h'.planVersionInForce_eq]
    rcases hplan with ⟨hpinned, hchanges⟩ | ⟨-, -, hchanges⟩
    · rw [hchanges, hpinned]
    · rw [hchanges, origin_planChange, takeWhile_append_later
        (fun f g (h : PlanChangeFact.effectiveBefore f g) => effectiveOn_le_of_before h)]
      exact decide_eq_false hlater.not_ge

/-! ### The ledger replayed -/

/-- Replaying the ledger, as it was recorded, gives the row. -/
structure Replayed (contract : PinnedContract) (l : Lifecycle) : Prop where
  state : (movesOf l).foldl EffectiveState.amend
    (origin amendmentBase (rowState l) (movesOf l)) = rowState l
  plan : contract.planChanges.foldl PlanChangeFact.apply
    (origin changeBase contract.planVersionId contract.planChanges) = contract.planVersionId

/-- **An amendment keeps the replay**, if a change of term states the end. -/
theorem Replayed.amend (hreplayed : Replayed contract l) (hstates : StatesTerm contract requested)
    (hamend : EffectiveDating.amend contract requested = .ok contract') :
    ∃ l', Kept contract' l' ∧ Replayed contract' l' := by
  obtain ⟨l', h'⟩ := h.amend hamend
  refine ⟨l', h', ?_⟩
  rcases amend_cases h.lifecycle hamend with rfl | ⟨hnew, after, hafter, hlifecycle, hplan⟩
  · obtain rfl : l = l' := Option.some.inj (h.lifecycle.symm.trans h'.lifecycle)
    exact hreplayed
  obtain rfl : l.record after requested.request = l' :=
    Option.some.inj (hlifecycle.symm.trans h'.lifecycle)
  obtain ⟨hledger, hstated, hrow⟩ := applyChange_spec hafter
  refine ⟨?_, ?_⟩
  · rw [movesOf_record hledger]
    cases hmoves : (recordOf l after requested.request).movesLifecycle with
    | true =>
      have hterm : requested.request.change = .changeTerm none → l.termEndsOn = none := by
        intro hchange
        rcases hstates hchange with hrecorded | hopen
        · rw [hnew] at hrecorded
          cases hrecorded
        · exact hopen l h.lifecycle
      rw [filter_singleton, hmoves, cond_true, foldl_append, origin_record, hreplayed.state]
      exact (hstated hterm).symm
    | false =>
      have hsame : rowState (l.record after requested.request) = rowState l := hrow hmoves
      rw [filter_singleton, hmoves, cond_false, append_nil, hsame]
      exact hreplayed.state
  · rcases hplan with ⟨hpinned, hchanges⟩ | ⟨hne, hpinned, hchanges⟩
    · rw [hchanges, hpinned]
      exact hreplayed.plan
    · rw [hchanges, hpinned, foldl_append, origin_planChange, hreplayed.plan]
      simp [PlanChangeFact.apply, Option.filter, hne]

/-- **A ledger in order, read when all of it is in effect**, is the row. -/
theorem Replayed.inForce_eq (hreplayed : Replayed contract l) (horder : contract.InOrder)
    (hall : contract.AllEffective asOf) : contract.inForce asOf = contract.latest := by
  have hmoves : (movesOf l).Pairwise Amendment.effectiveBefore :=
    (((horder l h.lifecycle).and h.numbered).imp fun ⟨hle, hlt⟩ =>
      hle.lt_or_eq.imp_right fun heq => ⟨heq, hlt.le⟩).filter _
  have hpairs : (l.amendments.map fun a => (a.request.effectiveOn, a.seq)).Pairwise
      fun a b => a.1 ≤ b.1 ∧ a.2 < b.2 :=
    pairwise_map.mpr ((horder l h.lifecycle).and h.numbered)
  have hfacts : contract.planChanges.Pairwise PlanChangeFact.effectiveBefore := by
    have hsub := hpairs.sublist h.facts
    rw [pairwise_map] at hsub
    exact hsub.imp fun ⟨hle, hlt⟩ => hle.lt_or_eq.imp_right fun heq => ⟨heq, hlt.le⟩
  have hfactsIn : ∀ f ∈ contract.planChanges, f.effectiveOn ≤ asOf := by
    intro f hf
    obtain ⟨a, ha, hpair⟩ := mem_map.mp (h.facts.subset (mem_map_of_mem hf))
    obtain ⟨hday, -⟩ := Prod.mk.inj hpair
    exact hday ▸ hall l h.lifecycle a ha
  refine Prod.ext ?_ ?_
  · simp only [PinnedContract.inForce, PinnedContract.latest, h.lifecycle, Option.map_some]
    rw [h.effectiveState_eq, takeWhile_inOrder hmoves fun a ha =>
      decide_eq_true (hall l h.lifecycle a (mem_of_mem_filter ha)), hreplayed.state]
  · simp only [PinnedContract.inForce, PinnedContract.latest]
    rw [h.planVersionInForce_eq, takeWhile_inOrder hfacts fun f hf =>
      decide_eq_true (hfactsIn f hf), hreplayed.plan]

end

/-! ### Contracts over time -/

theorem kept_of_isNew (h : contract.IsNew) : ∃ l, Kept contract l ∧ Replayed contract l := by
  obtain ⟨⟨l, hl, hledger⟩, hchanges⟩ := h
  refine ⟨l, ⟨hl, ?_, ?_, ?_, ?_⟩, ⟨?_, ?_⟩⟩ <;> simp [hledger, hchanges, movesOf, origin]

/-- **An amendment that is not in effect governs no earlier bill.** In every run in which changes
of term state the end: one more amendment leaves what is in force unchanged before it is
effective; and if the amendments were applied in the order of their dates, what is in force from
the last of them on is what the row says. -/
theorem future_amendment_governs_no_earlier_bill {start : PinnedContract} (hstart : start.IsNew)
    (hreached : Runs.ReachedBy StatesTerm amend start contract) :
    (∀ requested contract', amend contract requested = .ok contract' →
      ∀ asOf, asOf < requested.request.effectiveOn →
        contract'.inForce asOf = contract.inForce asOf) ∧
    (contract.InOrder → ∀ asOf, contract.AllEffective asOf →
      contract.inForce asOf = contract.latest) := by
  obtain ⟨l, hkept, hreplayed⟩ := hreached.invariant
    (P := fun contract => ∃ l, Kept contract l ∧ Replayed contract l) (kept_of_isNew hstart)
    fun _ _ _ ⟨_, h, hr⟩ hstates hamend => hr.amend h hstates hamend
  exact ⟨fun requested contract' hamend asOf hlater => hkept.inForce_amend hamend hlater,
    fun horder asOf hall => hreplayed.inForce_eq hkept horder hall⟩

/-! ### A term that is opened -/

theorem year_term : ∀ e ∈ some (civilDay 2026 12 31), civilDay 2026 1 1 ≤ e := by
  simp only [Option.mem_def, Option.some.injEq, forall_eq']
  decide +kernel

theorem year_trial : ∀ t ∈ (none : Option CivilDate), civilDay 2026 1 1 ≤ t := by simp

theorem year_valid : civilDay 2026 1 1 ≤ civilDay 2026 1 1 ∧
    ∀ p ∈ (none : Option CivilDate), civilDay 2026 1 1 ≤ p ∧ p ≤ civilDay 2026 1 1 :=
  ⟨le_refl _, by simp⟩

/-- A contract for the year 2026. -/
def yearContract : PinnedContract where
  subscription :=
    { subscriptionId := "sub", planId := "plan", startOn := civilDay 2026 1 1, anchorDay := none
      status := .active, planInterval := .monthly, planIntervalCount := 1
      nextBillOn := civilDay 2026 1 1, currentPeriodStart := none, lastInvoice := false
      lifecycle := some
        { version :=
            { planId := "plan", published := true, interval := .monthly, intervalCount := 1
              billingTiming := .advance, effectiveFrom := civilDay 2025 1 1, effectiveTo := none
              currency := "USD", requiredComponents := 1 }
          contractRevision := 1, billingTiming := .advance, termStartsOn := civilDay 2026 1 1
          termEndsOn := some (civilDay 2026 12 31), trialEndsOn := none
          renewalPolicy := .manual, renewalTermMonths := none, amendments := []
          term_chk := year_term
          trial_chk := year_trial }
      invoices := [], anchor_day_range := anchor_day_range_none
      period_valid := year_valid }
  planVersionId := "version"
  planChanges := []

theorem yearContract_isNew : yearContract.IsNew := ⟨⟨_, rfl, rfl⟩, rfl⟩

def fromJuly (change : AmendmentChange) : ContractRequest where
  request :=
    { change := change, effectiveOn := civilDay 2026 7 1, idempotencyKey := "july"
      details := "", dueOn := none }
  planVersionId := "version"

theorem inOrder_of_one
    (h : contract.subscription.lifecycle.all (fun l => l.amendments.length = 1 &&
      l.amendments.all (·.request.effectiveOn ≤ asOf)) = true) :
    contract.InOrder ∧ contract.AllEffective asOf := by
  simp only [Option.all_eq_true, Bool.and_eq_true, all_eq_true, decide_eq_true_eq] at h
  refine ⟨fun l hl => ?_, fun l hl => (h l hl).2⟩
  obtain ⟨a, ha⟩ := length_eq_one_iff.mp (h l hl).1
  rw [ha]
  exact pairwise_singleton _ _

/-- A contract that is billed in arrears from July on: in July the ledger says what the row
says. -/
theorem july_is_billed_in_arrears : ∃ contract,
    amend yearContract (fromJuly (.changeTiming .arrears)) = .ok contract ∧
      contract.inForce (civilDay 2026 7 1) = contract.latest := by
  obtain ⟨contract, hcontract, hone⟩ := exists_of_any
    (x := amend yearContract (fromJuly (.changeTiming .arrears)))
    (p := fun contract => contract.subscription.lifecycle.all fun l => l.amendments.length = 1 &&
      l.amendments.all (·.request.effectiveOn ≤ civilDay 2026 7 1)) (by decide +kernel)
  have hstates : StatesTerm yearContract (fromJuly (.changeTiming .arrears)) := by
    intro hchange
    cases hchange
  obtain ⟨horder, hall⟩ := inOrder_of_one hone
  exact ⟨contract, hcontract, (future_amendment_governs_no_earlier_bill yearContract_isNew
    (.step .start hstates hcontract)).2 horder _ hall⟩

/-- A term that is opened without saying so: the row has no end, the ledger that of the year. -/
theorem opened_term_is_not_read_back :
    ¬∀ (start contract : PinnedContract) (operations : List ContractRequest), start.IsNew →
      Runs.Reached amend start operations contract → contract.InOrder →
      ∀ asOf, contract.AllEffective asOf → contract.inForce asOf = contract.latest := by
  intro hclaim
  obtain ⟨contract, hcontract, hbroken⟩ := exists_of_any
    (x := amend yearContract (fromJuly (.changeTerm none)))
    (p := fun contract => contract.subscription.lifecycle.all (fun l =>
        l.amendments.length = 1 && l.amendments.all (·.request.effectiveOn ≤ civilDay 2026 7 1)) &&
      contract.inForce (civilDay 2026 7 1) ≠ contract.latest) (by decide +kernel)
  rw [Bool.and_eq_true, decide_eq_true_eq] at hbroken
  obtain ⟨horder, hall⟩ := inOrder_of_one hbroken.1
  exact hbroken.2 (hclaim _ contract _ yearContract_isNew (.one hcontract) horder _ hall)

end OpenBooks.EffectiveDating
