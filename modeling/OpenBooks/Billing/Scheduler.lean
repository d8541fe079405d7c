import OpenBooks.Billing.Contract

/-!
# Billing one subscription

Four kinds of work reach one subscription: the scheduler's tick, an operator's bill-now, a catch-up
run and an amendment. Each is a program of several transactions, and between two of them any other
program may run, or the process may die. A program that has not finished is an `Job` – what it read
and where it stands – and one `BillingSystem.step` lets one job take its next transaction.

A transaction commits as a whole or changes nothing. Every transaction that bills or amends locks
the subscription row before it reads what it depends on; what a program read *before* taking that
lock is in its job, and may be out of date when it is used.

The cursor moves by compare-and-swap. `BillingSystem.moves` keeps the moves it made and
`BillingSystem.skipped` the periods an operator chose to skip; no transaction reads either.
-/

namespace OpenBooks

open Checked List

/-! ### Billing one period -/

/-- What the rest of a transaction comes to: whether the contract has lines for the period,
whether the invoice can be made, whether a commercial renewal awaits acceptance, whether
the other checks of the transaction pass. -/
structure Surroundings where
  lines : Bool := true
  invoice : Bool := true
  renewalWorkflow : Bool := false
  granted : Bool := true

/-- What identifies a billed period. -/
structure PeriodKey where
  startsOn : CivilDate
  endsOn : CivilDate
  revision : ℕ

def PeriodInvoice.Has (i : PeriodInvoice) (key : PeriodKey) : Prop :=
  i.periodStartsOn = key.startsOn ∧ i.periodEndsOn = key.endsOn ∧
    i.contractRevision = key.revision

instance (i : PeriodInvoice) (key : PeriodKey) : Decidable (i.Has key) :=
  inferInstanceAs (Decidable (_ ∧ _))

/-- The timing in force on a date; plain plans bill in advance. -/
def Subscription.timingOn (s : Subscription) (billOn : CivilDate) : BillingTiming :=
  match s.lifecycle with
  | some l => (l.effectiveState billOn ⟨l.billingTiming, none⟩).billingTiming
  | none => .advance

/-- The occurrence key of a bill: a contract's frozen window and revision, or the plan's
period from the billed date at revision 1. -/
def Subscription.billingGuard (s : Subscription) (billOn serviceAnchor : CivilDate) :
    Except String PeriodKey :=
  match s.lifecycle with
  | some l => do
    let period ← lifecycleBillingPeriod billOn serviceAnchor (s.timingOn billOn)
      l.version.interval l.version.intervalCount
      (some (lifecycleAnchorDay l.termStartsOn l.trialEndsOn))
    return ⟨period.1, period.2, l.contractRevision⟩
  | none => do
    let endsOn ← advanceSubscription billOn s.interval s.intervalCount (some s.billingAnchor)
    return ⟨billOn, endsOn, 1⟩

/-- Bill one period, or replay the invoice recorded under its key. The flag says whether an
invoice was made. -/
def billOne (s : Subscription) (billingDate : CivilDate) (periodStartOverride : Option CivilDate)
    (w : Surroundings) : Except String (Subscription × Bool) := do
  refuseIf (s.status = .canceled)
    "subscription is canceled — set its status back to active before billing"
  let key ← s.billingGuard billingDate
    ((periodStartOverride.or s.currentPeriodStart).getD billingDate)
  -- An arrears period without days has no lines either.
  refuseIf (s.lifecycle ≠ none ∧ (w.lines = false ∨ ¬key.startsOn < key.endsOn))
    "subscription has no billable components for this period"
  if s.invoices.any fun i => i.Has key then return (s, false)
  else do
    refuseIf (w.invoice = false) "the invoice was refused"
    if h : key.startsOn < key.endsOn then
      return ({ s with invoices := s.invoices ++ [⟨key.startsOn, key.endsOn, key.revision, h⟩] },
        true)
    else throw (violatesCheck "subscription_period_invoices")

variable {s : Subscription}

/-- **What billing a period does**: it finds the invoice of its key, or records one. -/
theorem billOne_cases {billingDate : CivilDate} {periodStartOverride : Option CivilDate}
    {w : Surroundings} {result : Subscription × Bool}
    (h : billOne s billingDate periodStartOverride w = .ok result) :
    ∃ key, s.billingGuard billingDate
        ((periodStartOverride.or s.currentPeriodStart).getD billingDate) = .ok key ∧
      ((result = (s, false) ∧ ∃ i ∈ s.invoices, i.Has key) ∨
        ∃ hwindow : key.startsOn < key.endsOn, (∀ i ∈ s.invoices, ¬i.Has key) ∧
          result = ({ s with
            invoices := s.invoices ++ [⟨key.startsOn, key.endsOn, key.revision, hwindow⟩] },
            true)) := by
  simp only [billOne, bind_eq_ok, refuseIf_eq_ok] at h
  obtain ⟨_, -, key, hkey, _, -, h⟩ := h
  refine ⟨key, hkey, ?_⟩
  split_ifs at h with hprior hwindow
  · obtain rfl := pure_eq_ok.mp h
    exact .inl ⟨rfl, by simpa using hprior⟩
  · simp only [bind_eq_ok, refuseIf_eq_ok, pure_eq_ok] at h
    obtain ⟨_, -, rfl⟩ := h
    exact .inr ⟨hwindow, by simpa using hprior, rfl⟩
  · simp only [bind_eq_ok, refuseIf_eq_ok, throw_eq_ok, and_false, exists_false] at h

/-! ### Jobs -/

/-- What a program read of the subscription, with the bill date it will move to. -/
structure DueRow where
  nextBillOn : CivilDate
  currentPeriodStart : Option CivilDate
  advanced : CivilDate

inductive CatchUpMode where
  | postAll
  | drafts
  | skip
  | selected
  deriving DecidableEq

/-- A catch-up run: the choice, its periods, its horizon, and whether the periods were
validated yet. -/
structure CatchUpRun where
  mode : CatchUpMode
  selectedPeriods : List CivilDate
  asOf : CivilDate
  selectedValidated : Bool

/-- A program between two of its transactions. -/
inductive Job where
  /-- A tick that found the subscription due. -/
  | tickDue (row : DueRow)
  /-- A tick about to renew the term. -/
  | tickRenewing (row : DueRow) (request : AmendmentRequest)
  /-- A tick about to claim and bill. -/
  | tickPrepared (row : DueRow)
  /-- A bill-now that read the row and waits for its lock. -/
  | billNow (nextBillOn : CivilDate) (currentPeriodStart : Option CivilDate)
  /-- An invoice was made; the counters are not written yet. -/
  | bookkeeping (after : Option CatchUpRun)
  /-- A catch-up run at the head of its loop. -/
  | catchUp (run : CatchUpRun)
  /-- A catch-up run about to look for an invoice of the period. -/
  | catchUpLook (run : CatchUpRun) (row : DueRow)
  /-- A catch-up run about to advance past a period: skipped, or invoiced already. -/
  | catchUpPast (run : CatchUpRun) (row : DueRow) (skipping : Bool)
  /-- A catch-up run about to claim and bill. -/
  | catchUpClaim (run : CatchUpRun) (row : DueRow)

/-- One move of the cursor, and the timing it was billed under. -/
structure CursorMove where
  startsOn : CivilDate
  endsOn : CivilDate
  timing : BillingTiming

/-- What a transaction leaves: the subscription, the job that goes on, the move of the cursor
and the period it skipped. -/
structure Committed where
  sub : Subscription
  next : Option Job := none
  moved : Option CursorMove := none
  skipped : Option CivilDate := none

/-! ### The tick -/

def scanDue (s : Subscription) (today : CivilDate) : Except String DueRow := do
  refuseIf (s.status ≠ .active ∨ today < s.nextBillOn) "subscription is not due"
  let advanced ← advanceSubscription s.nextBillOn s.interval s.intervalCount
    (some s.billingAnchor)
  return ⟨s.nextBillOn, s.currentPeriodStart, advanced⟩

/-- The deterministic key of an automatic renewal. -/
def autoRenewKey (subscriptionId : String) (termEndsOn : CivilDate) : String :=
  "auto-renew:" ++ subscriptionId ++ ":" ++ isoText termEndsOn

def autoRenewal (s : Subscription) (l : Lifecycle) (termEndsOn dueOn : CivilDate) :
    AmendmentRequest :=
  { change := .renew (some (l.renewalTermMonths.getD 12))
    effectiveOn := termEndsOn
    idempotencyKey := autoRenewKey s.subscriptionId termEndsOn
    details := "Automatic renewal"
    dueOn := some dueOn }

/-- Decide whether a due subscription may be billed, or has to be renewed first. -/
def prepareAdvancedSubscriptionBilling (s : Subscription) (row : DueRow) (w : Surroundings) :
    Option Job :=
  match s.lifecycle with
  | none => some (.tickPrepared row)
  | some l =>
    let effective := l.effectiveState row.nextBillOn ⟨l.billingTiming, l.termEndsOn⟩
    match renewalAction effective.billingTiming row.nextBillOn effective.termEndsOn
      l.renewalPolicy, l.termEndsOn with
    | .bill, _ => some (.tickPrepared row)
    | .stop, _ => none
    | .renew, none => some (.tickPrepared row)
    | .renew, some termEndsOn =>
      if w.renewalWorkflow then none
      else some (.tickRenewing row (autoRenewal s l termEndsOn row.nextBillOn))

/-- Move the cursor off the date the program read, if it is still there: the
compare-and-swap. -/
def claim (s : Subscription) (row : DueRow) : Except String (Option Subscription) :=
  if s.nextBillOn = row.nextBillOn ∧ s.status = .active then
    some <$> s.setCursor row.advanced (some row.nextBillOn)
  else .ok none

/-- Claim the occurrence and bill it, in one transaction. -/
def claimAndBill (s : Subscription) (row : DueRow) (periodStart : Option CivilDate)
    (w : Surroundings) (after : Option CatchUpRun) : Except String Committed := do
  match ← claim s row with
  | none => return { sub := s, next := after.map .catchUp }
  | some claimed => do
    let billed ← billOne claimed row.nextBillOn periodStart w
    return {
      sub := billed.1
      next := if billed.2 then some (.bookkeeping after) else after.map .catchUp
      moved := some ⟨row.nextBillOn, row.advanced, claimed.timingOn row.nextBillOn⟩ }

theorem claim_eq_some {claimed : Subscription} {row : DueRow}
    (h : claim s row = .ok (some claimed)) :
    s.nextBillOn = row.nextBillOn ∧ s.setCursor row.advanced (some s.nextBillOn) = .ok claimed := by
  unfold claim at h
  split_ifs at h with hcas
  · simp only [map_eq_ok, Option.some.injEq, exists_eq_right] at h
    exact ⟨hcas.1, hcas.1 ▸ h⟩
  · cases h

/-- **What a claim that bills does**: it finds the cursor moved and stops, or moves it and
bills, or replays. -/
theorem claimAndBill_cases {row : DueRow} {periodStart : Option CivilDate} {w : Surroundings}
    {after : Option CatchUpRun} {c : Committed}
    (h : claimAndBill s row periodStart w after = .ok c) :
    c = { sub := s, next := after.map .catchUp } ∨
      ∃ claimed billed, s.nextBillOn = row.nextBillOn ∧
        s.setCursor row.advanced (some s.nextBillOn) = .ok claimed ∧
        billOne claimed s.nextBillOn periodStart w = .ok billed ∧
        c = { sub := billed.1
              next := if billed.2 then some (.bookkeeping after) else after.map .catchUp
              moved := some ⟨s.nextBillOn, row.advanced, claimed.timingOn s.nextBillOn⟩ } := by
  simp only [claimAndBill, bind_eq_ok] at h
  obtain ⟨result, hclaim, h⟩ := h
  cases result with
  | none => exact .inl (pure_eq_ok.mp h).symm
  | some claimed =>
    obtain ⟨hcas, hset⟩ := claim_eq_some hclaim
    simp only [bind_eq_ok, pure_eq_ok] at h
    obtain ⟨billed, hbill, rfl⟩ := h
    exact .inr ⟨claimed, billed, hcas, hset, hcas ▸ hbill, by rw [hcas]⟩

/-! ### The catch-up run -/

def SUBSCRIPTION_CATCH_UP_WALK_LIMIT : ℕ := 1000

/-- The billing period starts from a date through `asOf`, at most `limit` of them. -/
def pendingPeriodsFrom (s : Subscription) (asOf : CivilDate) :
    ℕ → CivilDate → Except String (List CivilDate)
  | 0, _ => .ok []
  | limit + 1, date =>
    if asOf < date then .ok []
    else do
      let next ← advanceSubscription date s.interval s.intervalCount (some s.billingAnchor)
      let rest ← pendingPeriodsFrom s asOf limit next
      return date :: rest

def pendingSubscriptionPeriods (s : Subscription) (asOf : CivilDate) :
    Except String (List CivilDate) :=
  pendingPeriodsFrom s asOf SUBSCRIPTION_CATCH_UP_WALK_LIMIT s.nextBillOn

/-- What a run refuses before it reads anything. -/
def checkCatchUp (mode : CatchUpMode) (selectedPeriods : List CivilDate) : Except String Unit := do
  refuseIf (mode = .selected ∧ selectedPeriods = [])
    "selected catch-up needs at least one period date — choose from the preview list"
  refuseIf (mode ≠ .selected ∧ selectedPeriods ≠ [])
    "selected periods apply only to the selected catch-up choice"

/-- The periods of a selected run must be pending. -/
def validateSelected (s : Subscription) (run : CatchUpRun) : Except String Unit :=
  if run.mode = .selected ∧ run.selectedValidated = false then do
    let pending ← pendingSubscriptionPeriods s run.asOf
    run.selectedPeriods.forM fun selected =>
      refuseIf (selected ∉ pending)
        ("selected catch-up period " ++ isoText selected ++
          " is not a pending billing period — choose from the preview list")
  else .ok ()

/-- One turn of the loop up to its first write: the run is caught up, or goes on to skip the
period or to bill it. -/
def catchUpTurn (s : Subscription) (run : CatchUpRun) : Except String (Option Job) := do
  refuseIf (s.lifecycle ≠ none)
    "advanced lifecycles bill through contract amendments, not catch-up runs"
  refuseIf (s.status ≠ .active) "subscription is not active"
  validateSelected s run
  let run := { run with selectedValidated := true }
  if run.asOf < s.nextBillOn then return none
  else do
    let advanced ← advanceSubscription s.nextBillOn s.interval s.intervalCount
      (some s.billingAnchor)
    let row : DueRow := ⟨s.nextBillOn, s.currentPeriodStart, advanced⟩
    if run.mode = .postAll ∨ run.mode = .drafts ∨
        (run.mode = .selected ∧ s.nextBillOn ∈ run.selectedPeriods) then
      return some (.catchUpLook run row)
    else return some (.catchUpPast run row true)

/-- Advance past one period without billing. -/
def advancePast (s : Subscription) (run : CatchUpRun) (row : DueRow) (skipping : Bool) :
    Except String Committed := do
  match ← claim s row with
  | none => return { sub := s, next := some (.catchUp run) }
  | some moved =>
    return {
      sub := moved
      next := some (.catchUp run)
      moved := some ⟨row.nextBillOn, row.advanced, .advance⟩
      skipped := if skipping then some row.nextBillOn else none }

/-! ### The system -/

/-- The next transaction of a job. -/
def Job.resume (s : Subscription) (w : Surroundings) : Job → Except String Committed
  | .tickDue row => .ok { sub := s, next := prepareAdvancedSubscriptionBilling s row w }
  | .tickRenewing row request => do
    let renewed ← applyAmendment s request
    return { sub := renewed, next := some (.tickPrepared row) }
  | .tickPrepared row => claimAndBill s row row.currentPeriodStart w none
  | .billNow nextBillOn currentPeriodStart => do
    let billed ← billOne s nextBillOn currentPeriodStart w
    return { sub := billed.1, next := if billed.2 then some (.bookkeeping none) else none }
  | .bookkeeping after =>
    .ok { sub := { s with lastInvoice := true }, next := after.map .catchUp }
  | .catchUp run => do
    let job ← catchUpTurn s run
    return { sub := s, next := job }
  | .catchUpLook run row =>
    if s.invoices.any fun i => i.periodStartsOn = row.nextBillOn then
      .ok { sub := s, next := some (.catchUpPast run row false) }
    else .ok { sub := s, next := some (.catchUpClaim run row) }
  | .catchUpPast run row skipping => advancePast s run row skipping
  | .catchUpClaim run row => claimAndBill s row (some row.nextBillOn) w (some run)

/-- The work that follows a transaction that failed: a run whose bookkeeping failed goes on,
everything else ends. -/
def Job.failed : Job → Option Job
  | .bookkeeping after => after.map .catchUp
  | _ => none

inductive BillingAction where
  /-- The scheduler ticks. -/
  | tick (today : CivilDate)
  /-- An operator bills now. -/
  | billNow
  /-- An operator starts a catch-up run. -/
  | catchUp (mode : CatchUpMode) (selectedPeriods : List CivilDate) (asOf : CivilDate)
  /-- An amendment is requested. -/
  | amend (request : AmendmentRequest)
  /-- A job takes its next transaction. -/
  | resume (job : ℕ)

structure BillingSystem where
  sub : Subscription
  jobs : List Job
  moves : List CursorMove
  skipped : List CivilDate

namespace BillingSystem

/-- A subscription nobody works on. The period open under an arrears contract is one the
cursor has been moved to the end of. -/
def start (s : Subscription) : BillingSystem :=
  { sub := s, jobs := [], skipped := []
    moves := match s.timingOn s.nextBillOn, s.currentPeriodStart with
      | .arrears, some opened => [⟨opened, s.nextBillOn, .arrears⟩]
      | _, _ => [] }

/-- Add a job. -/
def spawn (sys : BillingSystem) (job : Job) : BillingSystem :=
  { sys with jobs := sys.jobs ++ [job] }

/-- Take the `n`-th job out and put what follows it in. -/
def replaceJob (sys : BillingSystem) (n : ℕ) (next : Option Job) : BillingSystem :=
  { sys with jobs := sys.jobs.eraseIdx n ++ next.toList }

/-- Commit a transaction of the `n`-th job. -/
def commit (sys : BillingSystem) (n : ℕ) (c : Committed) : BillingSystem :=
  { sub := c.sub
    jobs := sys.jobs.eraseIdx n ++ c.next.toList
    moves := sys.moves ++ c.moved.toList
    skipped := sys.skipped ++ c.skipped.toList }

/-- One step of the system. A transaction that is not granted fails. -/
def step (sys : BillingSystem) : BillingAction × Surroundings → BillingSystem
  | (.tick today, _) =>
    match scanDue sys.sub today with
    | .ok row => sys.spawn (.tickDue row)
    | .error _ => sys
  | (.billNow, _) => sys.spawn (.billNow sys.sub.nextBillOn sys.sub.currentPeriodStart)
  | (.catchUp mode selectedPeriods asOf, _) =>
    match checkCatchUp mode selectedPeriods with
    | .ok _ => sys.spawn (.catchUp ⟨mode, selectedPeriods, asOf, false⟩)
    | .error _ => sys
  | (.amend request, w) =>
    match w.granted, applyAmendment sys.sub request with
    | true, .ok amended => { sys with sub := amended }
    | _, _ => sys
  | (.resume n, w) =>
    match sys.jobs[n]? with
    | none => sys
    | some job =>
      match w.granted, job.resume sys.sub w with
      | true, .ok c => sys.commit n c
      | _, _ => sys.replaceJob n job.failed

/-- What a step can do. -/
inductive StepsTo (sys : BillingSystem) : BillingAction × Surroundings → BillingSystem → Prop
  | idle {a} : StepsTo sys a sys
  | tick {today w row} (h : scanDue sys.sub today = .ok row) :
      StepsTo sys (.tick today, w) (sys.spawn (.tickDue row))
  | billNow {w} : StepsTo sys (.billNow, w)
      (sys.spawn (.billNow sys.sub.nextBillOn sys.sub.currentPeriodStart))
  | catchUp {mode selectedPeriods asOf w} : StepsTo sys (.catchUp mode selectedPeriods asOf, w)
      (sys.spawn (.catchUp ⟨mode, selectedPeriods, asOf, false⟩))
  | amend {request w amended} (h : applyAmendment sys.sub request = .ok amended) :
      StepsTo sys (.amend request, w) { sys with sub := amended }
  | commit {n w job c} (hjob : job ∈ sys.jobs) (h : job.resume sys.sub w = .ok c)
      (hn : sys.jobs[n]? = some job) :
      StepsTo sys (.resume n, w) (sys.commit n c)
  | fail {n w job} (hjob : job ∈ sys.jobs) :
      StepsTo sys (.resume n, w) (sys.replaceJob n job.failed)

variable (sys : BillingSystem)

theorem stepsTo_step (a : BillingAction × Surroundings) : StepsTo sys a (sys.step a) := by
  obtain ⟨action, w⟩ := a
  cases action with
  | tick today =>
    simp only [step]
    split
    · exact .tick ‹_›
    · exact .idle
  | billNow => exact .billNow
  | catchUp mode selectedPeriods asOf =>
    simp only [step]
    split
    · exact .catchUp
    · exact .idle
  | amend request =>
    simp only [step]
    split
    · exact .amend ‹_›
    · exact .idle
  | resume n =>
    simp only [step]
    cases hn : sys.jobs[n]? with
    | none => exact .idle
    | some job =>
      have hjob := mem_of_getElem? hn
      dsimp only
      split
      · exact .commit hjob ‹_› hn
      · exact .fail hjob

variable {job : Job}

theorem mem_jobs_commit {sys : BillingSystem} {n : ℕ} {c : Committed}
    (h : job ∈ (sys.commit n c).jobs) : job ∈ sys.jobs ∨ c.next = some job := by
  rcases mem_append.mp h with h | h
  · exact .inl (mem_of_mem_eraseIdx h)
  · exact .inr (by simpa using h)

theorem mem_jobs_replaceJob {sys : BillingSystem} {n : ℕ} {next : Option Job}
    (h : job ∈ (sys.replaceJob n next).jobs) : job ∈ sys.jobs ∨ next = some job := by
  rcases mem_append.mp h with h | h
  · exact .inl (mem_of_mem_eraseIdx h)
  · exact .inr (by simpa using h)

theorem mem_jobs_spawn {sys : BillingSystem} {started : Job} (h : job ∈ (sys.spawn started).jobs) :
    job ∈ sys.jobs ∨ job = started := by
  rcases mem_append.mp h with h | h
  · exact .inl h
  · exact .inr (mem_singleton.mp h)

def run (sys : BillingSystem) (actions : List (BillingAction × Surroundings)) : BillingSystem :=
  actions.foldl step sys

@[simp] theorem run_nil : sys.run [] = sys := rfl

@[simp] theorem run_cons (a : BillingAction × Surroundings)
    (actions : List (BillingAction × Surroundings)) :
    sys.run (a :: actions) = (sys.step a).run actions := rfl

/-- Every step of a run is taken in a state that satisfies `P`. -/
def EachStep (P : BillingSystem → BillingAction × Surroundings → Prop) :
    BillingSystem → List (BillingAction × Surroundings) → Prop
  | _, [] => True
  | sys, a :: actions => P sys a ∧ EachStep P (sys.step a) actions

instance decidableEachStep (P : BillingSystem → BillingAction × Surroundings → Prop)
    [∀ sys a, Decidable (P sys a)] :
    (sys : BillingSystem) → (actions : List (BillingAction × Surroundings)) →
      Decidable (EachStep P sys actions)
  | _, [] => inferInstanceAs (Decidable True)
  | sys, a :: actions =>
    have := decidableEachStep P (sys.step a) actions
    inferInstanceAs (Decidable (_ ∧ _))

/-- The steps of one tick from an idle system, when there is no term to renew. -/
def tickOn (today : CivilDate) : List (BillingAction × Surroundings) :=
  [(.tick today, {}), (.resume 0, {}), (.resume 0, {}), (.resume 0, {})]

end BillingSystem

/-! ### A subscription from 15 January -/

def januaryPlan : PlanVersion :=
  { planId := "plan", published := true, interval := .monthly, intervalCount := 1
    billingTiming := .advance, effectiveFrom := civilDay 2023 1 1, effectiveTo := none
    currency := "USD", requiredComponents := 1 }

theorem january_valid : civilDay 2024 1 15 ≤ civilDay 2024 1 15 ∧
    ∀ p ∈ (none : Option CivilDate), civilDay 2024 1 15 ≤ p ∧ p ≤ civilDay 2024 1 15 :=
  ⟨le_refl _, by simp⟩

def januarySubscription : Subscription :=
  { subscriptionId := "sub", planId := "plan", startOn := civilDay 2024 1 15, anchorDay := none
    status := .active, planInterval := .monthly, planIntervalCount := 1
    nextBillOn := civilDay 2024 1 15, currentPeriodStart := none, lastInvoice := false
    lifecycle := none, invoices := [], anchor_day_range := anchor_day_range_none
    period_valid := january_valid }

/-- A contract whose term starts in January 2024. -/
def januaryContract (day : ℕ) (termEndsOn : Option CivilDate) : ActivateLifecycleInput :=
  { version := januaryPlan, termStartsOn := civilDay 2024 1 day, termEndsOn := termEndsOn
    trialEndsOn := none, renewalPolicy := none, renewalTermMonths := some 1
    billFromUnbilledBoundary := false }

end OpenBooks
