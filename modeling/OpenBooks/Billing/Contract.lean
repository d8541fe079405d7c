import OpenBooks.Billing.Cadence
import Mathlib.Data.List.Sort

/-!
# Subscriptions and their contracts

A subscription is billed from a *cursor*, its next bill date. A plain one follows its plan; a
*contract* pins a plan version, bills in advance or in arrears, has a term that renews, and is
changed only by *amendments*, each of which is recorded in a ledger and moves the contract to its
next revision.

What governs a bill is the state in force on its date, so billing reads the ledger as of that date
(`resolveEffectiveLifecycleState`) and not the contract's latest row.

The rows carry the checks the store makes of them, and a write that would break one is refused.
-/

namespace OpenBooks

open Checked

inductive BillingTiming where
  | advance
  | arrears
  deriving DecidableEq

inductive RenewalPolicy where
  | auto
  | manual
  | none
  deriving DecidableEq

inductive SubscriptionStatus where
  | active
  | paused
  | suspended
  | canceled
  deriving DecidableEq

/-- A published version of a plan: what a contract pins. -/
structure PlanVersion where
  planId : String
  published : Bool
  interval : Interval
  intervalCount : ℕ
  billingTiming : BillingTiming
  effectiveFrom : CivilDate
  effectiveTo : Option CivilDate
  currency : String
  requiredComponents : ℕ
  deriving DecidableEq

/-! ### Amendments -/

inductive AmendmentChange where
  /-- Add, remove or change a component: new prices, the same dates. -/
  | component
  /-- A new term end; absent from the request, it opens the term but is not read back. -/
  | changeTerm (termEndsOn : Option (Option CivilDate))
  | changeTiming (billingTiming : BillingTiming)
  | renew (renewalTermMonths : Option ℕ)
  /-- The term end of the anchor subscription. -/
  | coterm (anchorTermEndsOn : Option CivilDate)
  | changePlan (target : PlanVersion)
  deriving DecidableEq

structure AmendmentRequest where
  change : AmendmentChange
  effectiveOn : CivilDate
  idempotencyKey : String
  /-- The rest of the request: reason, component fields, prices. -/
  details : String
  /-- The due date a renewal of the scheduler was made for. -/
  dueOn : Option CivilDate
  deriving DecidableEq

/-- A row of the amendment ledger: the request, with the timing and term end before it and
the term end after it. -/
structure Amendment where
  seq : ℕ
  request : AmendmentRequest
  baseTiming : BillingTiming
  baseTerm : Option CivilDate
  afterTerm : Option CivilDate

def Amendment.timing (a : Amendment) : Option BillingTiming :=
  match a.request.change with
  | .changeTiming billingTiming => some billingTiming
  | _ => none

/-- The term end an amendment sets, when it is known: a change of term carries it in the
request, renewals and co-terming in what they left. -/
def Amendment.term (a : Amendment) : Option (Option CivilDate) :=
  match a.request.change with
  | .changeTerm termEndsOn => termEndsOn
  | .renew _ => some a.afterTerm
  | .coterm _ => some a.afterTerm
  | _ => none

/-- Whether the resolver reads an amendment: those of timing or term. -/
def Amendment.movesLifecycle (a : Amendment) : Bool :=
  match a.request.change with
  | .component => false
  | .changePlan _ => false
  | _ => true

/-- By effective date, then by application order. -/
def Amendment.effectiveBefore (a b : Amendment) : Prop :=
  a.request.effectiveOn < b.request.effectiveOn ∨
    (a.request.effectiveOn = b.request.effectiveOn ∧ a.seq ≤ b.seq)

instance : DecidableRel Amendment.effectiveBefore :=
  fun _ _ => inferInstanceAs (Decidable (_ ∨ _))

/-- What a ledger resolves to on a day. -/
structure EffectiveState where
  billingTiming : BillingTiming
  termEndsOn : Option CivilDate
  deriving DecidableEq

/-- One amendment of the fold. -/
def EffectiveState.amend (state : EffectiveState) (a : Amendment) : EffectiveState :=
  { billingTiming := a.timing.getD state.billingTiming
    termEndsOn := a.term.getD state.termEndsOn }

/-- Of two amendments the one applied first. -/
def earlierApplied (base : Option Amendment) (a : Amendment) : Option Amendment :=
  match base with
  | none => some a
  | some b => if a.seq < b.seq then some a else some b

/-- Resolve the timing and term end in force on `asOf`: the state before the amendment that
was applied first, then every amendment effective by then, in effective-date order. -/
def resolveEffectiveLifecycleState (asOf : CivilDate) (fallback : EffectiveState)
    (amendments : List Amendment) : EffectiveState :=
  let ordered := amendments.insertionSort Amendment.effectiveBefore
  let base := ordered.foldl earlierApplied none
  (ordered.takeWhile fun a => a.request.effectiveOn ≤ asOf).foldl EffectiveState.amend
    ((base.map fun b => ⟨b.baseTiming, b.baseTerm⟩).getD fallback)

/-! ### Rows -/

/-- The contract of a subscription: its row, the version it pins and its ledger. -/
structure Lifecycle where
  version : PlanVersion
  contractRevision : ℕ
  billingTiming : BillingTiming
  termStartsOn : CivilDate
  termEndsOn : Option CivilDate
  trialEndsOn : Option CivilDate
  renewalPolicy : RenewalPolicy
  renewalTermMonths : Option ℕ
  amendments : List Amendment
  term_chk : ∀ e ∈ termEndsOn, termStartsOn ≤ e
  trial_chk : ∀ t ∈ trialEndsOn, termStartsOn ≤ t

/-- A row of `subscription_period_invoices`. -/
structure PeriodInvoice where
  periodStartsOn : CivilDate
  periodEndsOn : CivilDate
  contractRevision : ℕ
  window_chk : periodStartsOn < periodEndsOn

def PeriodInvoice.window (i : PeriodInvoice) : CivilDate × CivilDate :=
  (i.periodStartsOn, i.periodEndsOn)

/-- A subscription with its contract and its invoices. -/
structure Subscription where
  subscriptionId : String
  planId : String
  startOn : CivilDate
  anchorDay : Option ℕ
  status : SubscriptionStatus
  planInterval : Interval
  planIntervalCount : ℕ
  nextBillOn : CivilDate
  currentPeriodStart : Option CivilDate
  /-- Whether `last_invoice_id` is set. -/
  lastInvoice : Bool
  lifecycle : Option Lifecycle
  invoices : List PeriodInvoice
  anchor_day_range : ∀ d ∈ anchorDay, 1 ≤ d ∧ d ≤ 31
  period_valid : startOn ≤ nextBillOn ∧
    ∀ p ∈ currentPeriodStart, startOn ≤ p ∧ p ≤ nextBillOn

theorem anchor_day_range_none : ∀ d ∈ (none : Option ℕ), 1 ≤ d ∧ d ≤ 31 := by simp

/-- What the store says of a row that breaks one of its checks. -/
def violatesCheck (relation : String) : String :=
  "new row for relation \"" ++ relation ++ "\" violates check constraint"

variable {s s' : Subscription}

namespace Subscription

/-- `coalesce(v.interval, p.interval)` -/
def interval (s : Subscription) : Interval :=
  (s.lifecycle.map (·.version.interval)).getD s.planInterval

def intervalCount (s : Subscription) : ℕ :=
  (s.lifecycle.map (·.version.intervalCount)).getD s.planIntervalCount

/-- `coalesce(s.anchor_day, extract(day from s.start_on))` -/
def billingAnchor (s : Subscription) : ℕ := s.anchorDay.getD s.startOn.day

/-- Write the two dates of the cursor. -/
def setCursor (s : Subscription) (nextBillOn : CivilDate)
    (currentPeriodStart : Option CivilDate) : Except String Subscription :=
  if h : s.startOn ≤ nextBillOn ∧
      ∀ p ∈ currentPeriodStart, s.startOn ≤ p ∧ p ≤ nextBillOn then
    .ok { s with
      nextBillOn := nextBillOn, currentPeriodStart := currentPeriodStart, period_valid := h }
  else .error (violatesCheck "subscriptions")

theorem setCursor_eq_ok {nextBillOn : CivilDate} {currentPeriodStart : Option CivilDate}
    (h : s.setCursor nextBillOn currentPeriodStart = .ok s') :
    s'.nextBillOn = nextBillOn ∧ s'.currentPeriodStart = currentPeriodStart ∧
      s'.startOn = s.startOn ∧ s'.anchorDay = s.anchorDay ∧ s'.lifecycle = s.lifecycle ∧
      s'.invoices = s.invoices ∧ s'.planInterval = s.planInterval ∧
      s'.planIntervalCount = s.planIntervalCount ∧ s'.status = s.status := by
  unfold setCursor at h
  split_ifs at h
  cases h
  exact ⟨rfl, rfl, rfl, rfl, rfl, rfl, rfl, rfl, rfl⟩

end Subscription

/-- Write the term of a contract. -/
def Lifecycle.setTerm (l : Lifecycle) (termStartsOn : CivilDate)
    (termEndsOn : Option CivilDate) : Except String Lifecycle :=
  if h : (∀ e ∈ termEndsOn, termStartsOn ≤ e) ∧ ∀ t ∈ l.trialEndsOn, termStartsOn ≤ t then
    .ok { l with
      termStartsOn := termStartsOn, termEndsOn := termEndsOn, term_chk := h.1, trial_chk := h.2 }
  else .error (violatesCheck "subscription_lifecycles")

/-! ### Billing periods -/

/-- The state in force on a date, from the ledger. -/
def Lifecycle.effectiveState (l : Lifecycle) (asOf : CivilDate) (fallback : EffectiveState) :
    EffectiveState :=
  resolveEffectiveLifecycleState asOf fallback (l.amendments.filter Amendment.movesLifecycle)

inductive RenewalAction where
  | bill
  | renew
  | stop
  deriving DecidableEq

/-- What is done with a subscription that is due, at the end of its term or before it. -/
def renewalAction (billingTiming : BillingTiming) (dueOn : CivilDate)
    (termEndsOn : Option CivilDate) (policy : RenewalPolicy) : RenewalAction :=
  match termEndsOn with
  | none => .bill
  | some termEnd =>
    let beyondTerm : Bool :=
      match billingTiming with
      | .advance => termEnd ≤ dueOn
      | .arrears => termEnd < dueOn
    if beyondTerm then
      if policy = .auto then .renew else .stop
    else .bill

/-- The day of month service first billed from: the trial end when a trial pushes service
past the term start, else the term start. -/
def lifecycleAnchorDay (termStartsOn : CivilDate) (trialEndsOn : Option CivilDate) : ℕ :=
  match trialEndsOn with
  | some trialEnd => if termStartsOn < trialEnd then trialEnd.day else termStartsOn.day
  | none => termStartsOn.day

/-- The period a bill is for: forward from its date in advance, else back. -/
def lifecycleBillingPeriod (billOn serviceAnchor : CivilDate) (billingTiming : BillingTiming)
    (interval : Interval) (intervalCount : ℕ) (anchorDay : Option ℕ) :
    Except String (CivilDate × CivilDate) :=
  match billingTiming with
  | .advance => do
    let periodEndsOn ← advanceLifecycleDate billOn interval intervalCount
      (some (anchorDay.getD billOn.day))
    return (billOn, periodEndsOn)
  | .arrears => .ok (serviceAnchor, billOn)

/-! ### Amending -/

/-- An exact positive count the store can hold. -/
def subscriptionPeriodCount (value : ℕ) (label : String) : Except String ℕ := do
  refuseIf (¬(1 ≤ value ∧ value ≤ POSTGRES_INTEGER_MAX))
    (label ++ " must be a positive whole number")
  return value

def isoText (date : CivilDate) : String := String.ofList (isoDateOf date)

/-- The latest end of an invoiced period. -/
def guardedThrough (invoices : List PeriodInvoice) : Option CivilDate :=
  invoices.foldl (fun latest i => some (latest.elim i.periodEndsOn (max i.periodEndsOn))) none

/-- The end of the last billed period: the later of the cursor and the latest guarded
period end. -/
def unbilledBoundary (nextBillOn : CivilDate) (guarded : Option CivilDate) : CivilDate :=
  match guarded with
  | some through => if nextBillOn < through then through else nextBillOn
  | none => nextBillOn

/-- Whether anything has been invoiced. -/
def Subscription.billed (s : Subscription) : Bool :=
  s.lastInvoice || (guardedThrough s.invoices).isSome

/-- The date through which a subscription's service is invoiced. -/
def subscriptionPaidThrough (s : Subscription) : CivilDate :=
  if s.billed then unbilledBoundary s.nextBillOn (guardedThrough s.invoices) else s.startOn

/-- What a change of plan has to keep to. -/
def assertPlanChangeRules (effectiveOn paidThrough : CivilDate) (l : Lifecycle)
    (target : PlanVersion) : Except String Unit := do
  refuseIf (target.published = false) "a published plan version is required to change plan"
  refuseIf (target.planId = l.version.planId)
    "the contract is already on this plan; change its components to reprice it"
  refuseIf (target.requiredComponents < 1)
    ("plan version has no required components — mark a component as required before changing " ++
      "plan to it")
  refuseIf (target.currency.toUpper ≠ l.version.currency.toUpper)
    ("billing currency cannot change mid-contract from " ++ l.version.currency ++ " to " ++
      target.currency ++ "; create a new contract for the " ++ target.currency ++ " plan instead")
  refuseIf (target.billingTiming ≠ l.version.billingTiming ∨ target.billingTiming ≠ l.billingTiming)
    ("the new plan bills on a different timing; change the billing timing of the contract " ++
      "first, then change plan")
  refuseIf (effectiveOn < paidThrough)
    ("effective date " ++ isoText effectiveOn ++ " precedes the paid-through date " ++
      isoText paidThrough ++ ", the end of the last invoiced period; choose " ++
      isoText paidThrough ++ " or later")
  refuseIf (effectiveOn < l.termStartsOn)
    ("effective date " ++ isoText effectiveOn ++ " precedes the contract term start " ++
      isoText l.termStartsOn)
  refuseIf (effectiveOn < target.effectiveFrom ∨ ∃ last ∈ target.effectiveTo, last < effectiveOn)
    ("the plan version is not effective on " ++ isoText effectiveOn ++
      "; choose a date inside its effective window")
  refuseIf ((target.interval ≠ l.version.interval ∨ target.intervalCount ≠ l.version.intervalCount) ∧
      (effectiveOn ≠ paidThrough ∨ l.billingTiming ≠ .advance))
    ("a change of billing cadence takes effect only on the paid-through date " ++
      isoText paidThrough ++ " for an advance-billed contract; change the cadence on that date, " ++
      "or keep the cadence and change only the components")

/-- What an amendment writes to the contract's row, before the revision moves. -/
def applyChange (s : Subscription) (l : Lifecycle) (request : AmendmentRequest) :
    Except String Lifecycle :=
  match request.change with
  | .component => .ok l
  | .changeTerm termEndsOn => do
    refuseIf (∃ e ∈ termEndsOn.join, e < l.termStartsOn) "term end cannot precede term start"
    l.setTerm l.termStartsOn termEndsOn.join
  | .changeTiming billingTiming => .ok { l with billingTiming := billingTiming }
  | .renew renewalTermMonths => do
    let months ← subscriptionPeriodCount
      ((renewalTermMonths.or l.renewalTermMonths).getD 12) "renewal term"
    let termEnd ← orRefuse l.termEndsOn
      "renewal requires a current term end and positive renewal term"
    let nextEnd ← advanceLifecycleDate termEnd .monthly months none
    let renewed ← l.setTerm termEnd (some nextEnd)
    return { renewed with renewalTermMonths := some months }
  | .coterm anchorTermEndsOn => do
    let anchorEnd ← orRefuse anchorTermEndsOn "anchor subscription needs an advanced term end"
    l.setTerm l.termStartsOn (some anchorEnd)
  | .changePlan target => do
    assertPlanChangeRules request.effectiveOn (subscriptionPaidThrough s) l target
    return { l with version := target }

/-- Move a contract to its next revision and record the amendment that did. -/
def Lifecycle.record (before after : Lifecycle) (request : AmendmentRequest) : Lifecycle :=
  { after with
    contractRevision := after.contractRevision + 1
    amendments := after.amendments ++
      [{ seq := after.amendments.length + 1, request := request
         baseTiming := before.billingTiming, baseTerm := before.termEndsOn
         afterTerm := after.termEndsOn }] }

/-- Amend a contract. A request whose key is recorded already changes nothing, and must be
the same request. -/
def applyAmendment (s : Subscription) (request : AmendmentRequest) :
    Except String Subscription := do
  let l ← orRefuse s.lifecycle
    ("this subscription has no contract, so it cannot be amended. Activate a published plan " ++
      "version as its contract in Contracts first")
  match l.amendments.find? fun a => a.request.idempotencyKey = request.idempotencyKey with
  | some recorded => do
    refuseIf (recorded.request ≠ request)
      "idempotency key already belongs to a different amendment request"
    return s
  | none => do
    refuseIf (s.status = .canceled) "a canceled subscription cannot be amended"
    let after ← applyChange s l request
    return { s with lifecycle := some (l.record after request) }

variable {request : AmendmentRequest}

/-- **What an amendment does**: nothing, or the contract's next revision, which records it. -/
theorem applyAmendment_cases (h : applyAmendment s request = .ok s') :
    ∃ l, s.lifecycle = some l ∧
      (s' = s ∨ ∃ after, applyChange s l request = .ok after ∧
        s' = { s with lifecycle := some (l.record after request) }) := by
  simp only [applyAmendment, bind_eq_ok, orRefuse_eq_ok] at h
  obtain ⟨l, hl, h⟩ := h
  refine ⟨l, hl, ?_⟩
  cases hkey : l.amendments.find? fun a => a.request.idempotencyKey = request.idempotencyKey with
  | some recorded =>
    simp only [hkey, bind_eq_ok, refuseIf_eq_ok, pure_eq_ok] at h
    obtain ⟨_, -, rfl⟩ := h
    exact .inl rfl
  | none =>
    simp only [hkey, bind_eq_ok, refuseIf_eq_ok, pure_eq_ok] at h
    obtain ⟨_, -, after, hafter, rfl⟩ := h
    exact .inr ⟨after, hafter, rfl⟩

/-- Whether two rows agree on everything an amendment leaves alone. -/
structure Subscription.SameCursor (s s' : Subscription) : Prop where
  nextBillOn : s'.nextBillOn = s.nextBillOn
  currentPeriodStart : s'.currentPeriodStart = s.currentPeriodStart
  invoices : s'.invoices = s.invoices
  billingAnchor : s'.billingAnchor = s.billingAnchor
  managed : s'.lifecycle.isSome = s.lifecycle.isSome

theorem Subscription.SameCursor.refl (s : Subscription) : s.SameCursor s :=
  ⟨rfl, rfl, rfl, rfl, rfl⟩

theorem sameCursor_applyAmendment (h : applyAmendment s request = .ok s') : s.SameCursor s' := by
  obtain ⟨l, hl, rfl | ⟨after, -, rfl⟩⟩ := applyAmendment_cases h
  · exact .refl _
  · exact ⟨rfl, rfl, rfl, rfl, by rw [hl]; rfl⟩

/-! ### Activation -/

structure ActivateLifecycleInput where
  version : PlanVersion
  termStartsOn : CivilDate
  termEndsOn : Option CivilDate
  trialEndsOn : Option CivilDate
  renewalPolicy : Option RenewalPolicy
  renewalTermMonths : Option ℕ
  billFromUnbilledBoundary : Bool

/-- The day service first bills from. -/
def serviceStartsOn (termStartsOn : CivilDate) (trialEndsOn : Option CivilDate) : CivilDate :=
  match trialEndsOn with
  | some trialEnd => if termStartsOn < trialEnd then trialEnd else termStartsOn
  | none => termStartsOn

/-- First invoice date for a trial-aware advance or arrears contract. -/
def firstLifecycleBillOn (termStartsOn : CivilDate) (trialEndsOn : Option CivilDate)
    (billingTiming : BillingTiming) (interval : Interval) (intervalCount : ℕ) :
    Except String CivilDate := do
  let starts := serviceStartsOn termStartsOn trialEndsOn
  let nextDate ← advanceLifecycleDate starts interval intervalCount none
  return if billingTiming = .advance then starts else nextDate

/-- Where billing starts, beside what is billed already. -/
def activationBillingCursors (termStartsOn firstBillOn anchor boundary : CivilDate)
    (billed billFromUnbilledBoundary : Bool) : Except String (CivilDate × CivilDate) :=
  if billed = false ∨ boundary ≤ termStartsOn then .ok (firstBillOn, anchor)
  else if billFromUnbilledBoundary then .ok (max firstBillOn boundary, max anchor boundary)
  else
    .error ("term start " ++ isoText termStartsOn ++ " overlaps already-billed service through " ++
      isoText boundary ++ " — start the term on or after " ++ isoText boundary ++
      ", or repeat with billFromUnbilledBoundary to bill only from " ++ isoText boundary)

/-- The contract row of an activation. -/
def newLifecycle (input : ActivateLifecycleInput) : Except String Lifecycle :=
  if h : (∀ e ∈ input.termEndsOn, input.termStartsOn ≤ e) ∧
      ∀ t ∈ input.trialEndsOn, input.termStartsOn ≤ t then
    .ok
      { version := input.version, contractRevision := 1
        billingTiming := input.version.billingTiming
        termStartsOn := input.termStartsOn, termEndsOn := input.termEndsOn
        trialEndsOn := input.trialEndsOn
        renewalPolicy := input.renewalPolicy.getD .auto
        renewalTermMonths := input.renewalTermMonths
        amendments := [], term_chk := h.1, trial_chk := h.2 }
  else .error (violatesCheck "subscription_lifecycles")

/-- Activate a published plan version as the contract of a subscription. -/
def activateLifecycle (s : Subscription) (input : ActivateLifecycleInput) :
    Except String Subscription := do
  refuseIf (s.status = .canceled) "a canceled subscription cannot be activated"
  refuseIf (s.lifecycle ≠ none) "advanced lifecycle is already active"
  refuseIf (input.version.published = false) "a published plan version is required"
  refuseIf (input.version.planId ≠ s.planId) "plan version does not belong to the subscription plan"
  refuseIf (∃ e ∈ input.termEndsOn, e < input.termStartsOn) "term end cannot precede term start"
  refuseIf (∃ t ∈ input.trialEndsOn, t < input.termStartsOn ∨ ∃ e ∈ input.termEndsOn, e < t)
    "trial must fall inside the contract term"
  refuseIf (input.termStartsOn < input.version.effectiveFrom ∨
      ∃ last ∈ input.version.effectiveTo, last < input.termStartsOn)
    "plan version is not effective on the contract start date"
  refuseIf (input.version.requiredComponents = 0)
    "plan version has no required components — mark a component as required before activating"
  onlyIf (input.renewalTermMonths ≠ none)
    (Functor.discard
      (subscriptionPeriodCount (input.renewalTermMonths.getD 0) "renewal term"))
  let firstBillOn ← firstLifecycleBillOn input.termStartsOn input.trialEndsOn
    input.version.billingTiming input.version.interval input.version.intervalCount
  let cursors ← activationBillingCursors input.termStartsOn firstBillOn
    (input.trialEndsOn.getD input.termStartsOn)
    (unbilledBoundary s.nextBillOn (guardedThrough s.invoices)) s.billed
    input.billFromUnbilledBoundary
  let lifecycle ← newLifecycle input
  let moved ← s.setCursor cursors.1 (some cursors.2)
  return { moved with lifecycle := some lifecycle }

end OpenBooks
