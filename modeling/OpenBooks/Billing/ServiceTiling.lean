import OpenBooks.Billing.Scheduler
import OpenBooks.Lib.Tiling

/-!
# Service billed in advance, period after period

A contract billed in advance is invoiced for the period that opens on its bill date, and the cursor
moves on to the next bill date. The two ends should be one: each period begins where the one before
ended, and no service day is skipped or invoiced twice (`ServiceTiled`).

They are computed from different anchors. The period ends on the *contract's* anchor day – the day
service first billed from, which a renewal moves to the day the old term ended – and the cursor
moves to the *subscription's* anchor day, stored or taken from its start. So the service is tiled
just as long as, at every step that moves the cursor, the target month clamps both anchors to the
same day (`AnchorsAgree`).
-/

namespace OpenBooks

open Checked Tiling List BillingSystem Option

/-! ### What is claimed -/

theorem window_lt (invoices : List PeriodInvoice) :
    ∀ p ∈ invoices.map PeriodInvoice.window, p.1 < p.2 := by
  rintro p hp
  obtain ⟨i, -, rfl⟩ := mem_map.mp hp
  exact i.window_chk

/-- The periods invoiced since activation lie end to end from the first bill date to the next
one, and every day between is invoiced once. -/
structure ServiceTiled (activated s : Subscription) : Prop where
  tiles : Tiles activated.nextBillOn
    ((s.invoices.drop activated.invoices.length).map PeriodInvoice.window) s.nextBillOn
  once : ∀ day, activated.nextBillOn ≤ day → day < s.nextBillOn →
    (s.invoices.map PeriodInvoice.window).countP (Covers day) = 1

/-- The steps a scheduler takes. -/
def BillingAction.ofScheduler : BillingAction → Bool
  | .tick _ => true
  | .resume _ => true
  | _ => false

/-- If the step moves the cursor, the subscription's anchor and the contract's are the same
day of the month it moves to. -/
def AnchorsAgree (sys : BillingSystem) (a : BillingAction × Surroundings) : Prop :=
  (sys.step a).sub.nextBillOn ≠ sys.sub.nextBillOn → ∀ l ∈ sys.sub.lifecycle,
    SameAnchor sys.sub.nextBillOn l.version.interval l.version.intervalCount
      sys.sub.billingAnchor (lifecycleAnchorDay l.termStartsOn l.trialEndsOn)

instance (sys : BillingSystem) (a : BillingAction × Surroundings) :
    Decidable (AnchorsAgree sys a) :=
  inferInstanceAs (Decidable (_ → _))

/-! ### Timing -/

variable {amendments : List Amendment}

theorem foldl_amend_billingTiming (state : EffectiveState)
    (h : ∀ a ∈ amendments, a.timing = none) :
    (amendments.foldl EffectiveState.amend state).billingTiming = state.billingTiming := by
  induction amendments generalizing state with
  | nil => rfl
  | cons a amendments ih =>
    obtain ⟨ha, hrest⟩ := forall_mem_cons.mp h
    rw [foldl_cons, ih _ hrest, EffectiveState.amend, ha]
    rfl

theorem foldl_earlierApplied_mem {base : Option Amendment} {b : Amendment}
    (h : amendments.foldl earlierApplied base = some b) : b ∈ amendments ∨ base = some b := by
  induction amendments generalizing base with
  | nil => exact .inr h
  | cons a amendments ih =>
    rcases ih h with hmem | hbase
    · exact .inl (mem_cons_of_mem _ hmem)
    · unfold earlierApplied at hbase
      split at hbase
      · exact .inl (by simp_all)
      · split_ifs at hbase
        · exact .inl (by simp_all)
        · exact .inr hbase

/-- **A ledger without a change of timing resolves to the timing it started from.** -/
theorem resolve_billingTiming {asOf : CivilDate} {fallback : EffectiveState} {t : BillingTiming}
    (hfallback : fallback.billingTiming = t)
    (h : ∀ a ∈ amendments, a.timing = none ∧ a.baseTiming = t) :
    (resolveEffectiveLifecycleState asOf fallback amendments).billingTiming = t := by
  have hsorted : ∀ a ∈ amendments.insertionSort Amendment.effectiveBefore,
      a.timing = none ∧ a.baseTiming = t :=
    fun a ha => h a ((perm_insertionSort _ _).mem_iff.mp ha)
  unfold resolveEffectiveLifecycleState
  dsimp only
  rw [foldl_amend_billingTiming _ fun a ha => (hsorted a (takeWhile_subset _ ha)).1]
  cases hbase : (amendments.insertionSort Amendment.effectiveBefore).foldl earlierApplied none with
  | none => exact hfallback
  | some b =>
    rcases foldl_earlierApplied_mem hbase with hmem | hnone
    · exact (hsorted b hmem).2
    · cases hnone

/-- A contract that was billed in advance all along. -/
structure Lifecycle.InAdvance (l : Lifecycle) : Prop where
  now : l.billingTiming = .advance
  ledger : ∀ a ∈ l.amendments, a.timing = none ∧ a.baseTiming = .advance

variable {l : Lifecycle} {s : Subscription}

theorem Lifecycle.InAdvance.timingOn (h : l.InAdvance) (hl : s.lifecycle = some l)
    (billOn : CivilDate) : s.timingOn billOn = .advance := by
  simp only [Subscription.timingOn, hl]
  exact resolve_billingTiming h.now fun a ha => h.ledger a (mem_of_mem_filter ha)

variable {request : AmendmentRequest} {months : Option ℕ}

theorem applyChange_renew {after : Lifecycle} (hrenew : request.change = .renew months)
    (h : applyChange s l request = .ok after) :
    after.version = l.version ∧ after.billingTiming = l.billingTiming ∧
      after.amendments = l.amendments := by
  simp only [applyChange, hrenew, bind_eq_ok, pure_eq_ok] at h
  obtain ⟨n, -, termEnd, -, nextEnd, -, renewed, hset, rfl⟩ := h
  unfold Lifecycle.setTerm at hset
  split_ifs at hset
  cases hset
  exact ⟨rfl, rfl, rfl⟩

/-- **A renewal keeps a contract in advance**, and its version. -/
theorem Lifecycle.InAdvance.renew {s' : Subscription} (hadvance : l.InAdvance)
    (hl : s.lifecycle = some l) (hrenew : request.change = .renew months)
    (h : applyAmendment s request = .ok s') :
    ∃ l', s'.lifecycle = some l' ∧ l'.version = l.version ∧ l'.InAdvance := by
  obtain ⟨l₀, hl₀, rfl | ⟨after, hafter, rfl⟩⟩ := applyAmendment_cases h
  · exact ⟨l, hl, rfl, hadvance⟩
  · obtain rfl : l = l₀ := Option.some.inj (hl.symm.trans hl₀)
    obtain ⟨hversion, htiming, hledger⟩ := applyChange_renew hrenew hafter
    refine ⟨_, rfl, hversion, htiming.trans hadvance.now, ?_⟩
    intro a ha
    rcases mem_append.mp ha with ha | ha
    · exact hadvance.ledger a (hledger ▸ ha)
    · obtain rfl := mem_singleton.mp ha
      exact ⟨by simp only [Amendment.timing, hrenew], hadvance.now⟩

/-! ### The scheduler alone -/

/-- What a tick read steps by the version's cadence on the subscription's anchor. -/
def DueRow.Steps (row : DueRow) (v : PlanVersion) (anchor : ℕ) : Prop :=
  advanceSubscription row.nextBillOn v.interval v.intervalCount (some anchor) = .ok row.advanced

def Job.OfTick (v : PlanVersion) (anchor : ℕ) : Job → Prop
  | .tickDue row => row.Steps v anchor
  | .tickRenewing row request => row.Steps v anchor ∧ ∃ months, request.change = .renew months
  | .tickPrepared row => row.Steps v anchor
  | .bookkeeping after => after = none
  | _ => False

/-- A contract in advance that only the scheduler works on. -/
structure TickRun (activated : Subscription) (v : PlanVersion) (sys : BillingSystem) :
    Prop where
  contract : ∃ l, sys.sub.lifecycle = some l ∧ l.version = v ∧ l.InAdvance
  anchor : sys.sub.billingAnchor = activated.billingAnchor
  jobs : ∀ job ∈ sys.jobs, job.OfTick v activated.billingAnchor
  invoices : ∃ since, sys.sub.invoices = activated.invoices ++ since

variable {v : PlanVersion} {w : Surroundings}

theorem ofTick_prepare {row : DueRow} {job : Job} {anchor : ℕ} (hrow : row.Steps v anchor)
    (h : prepareAdvancedSubscriptionBilling s row w = some job) : job.OfTick v anchor := by
  unfold prepareAdvancedSubscriptionBilling at h
  split at h
  · cases h
    exact hrow
  · dsimp only at h
    split at h
    · cases h
      exact hrow
    · cases h
    · cases h
      exact hrow
    · split_ifs at h
      cases h
      exact ⟨hrow, _, rfl⟩

/-- How a step of the scheduler bills: the cursor moves by the subscription's anchor, and the
period recorded – or found – ends on the contract's. -/
def BillsPeriod (s s' : Subscription) : Prop :=
  ∃ l periodEndsOn, s.lifecycle = some l ∧
    advanceSubscription s.nextBillOn l.version.interval l.version.intervalCount
      (some s.billingAnchor) = .ok s'.nextBillOn ∧
    advanceLifecycleDate s.nextBillOn l.version.interval l.version.intervalCount
      (some (lifecycleAnchorDay l.termStartsOn l.trialEndsOn)) = .ok periodEndsOn ∧
    ((s'.invoices = s.invoices ∧ ∃ i ∈ s.invoices, i.periodStartsOn = s.nextBillOn) ∨
      ∃ i : PeriodInvoice, i.window = (s.nextBillOn, periodEndsOn) ∧
        s'.invoices = s.invoices ++ [i])

theorem billingGuard_advance {billOn serviceAnchor : CivilDate} {key : PeriodKey}
    (hl : s.lifecycle = some l) (htiming : s.timingOn billOn = .advance)
    (h : s.billingGuard billOn serviceAnchor = .ok key) :
    key.startsOn = billOn ∧
      advanceLifecycleDate billOn l.version.interval l.version.intervalCount
        (some (lifecycleAnchorDay l.termStartsOn l.trialEndsOn)) = .ok key.endsOn := by
  simp only [Subscription.billingGuard, hl, htiming, lifecycleBillingPeriod, bind_eq_ok,
    pure_eq_ok, getD_some] at h
  obtain ⟨period, ⟨periodEndsOn, hends, rfl⟩, rfl⟩ := h
  exact ⟨rfl, hends⟩

variable {c : Committed}

/-- **A tick that claims bills the period from its date**, and leaves everything a tick reads
as it was. -/
theorem claimAndBill_tick {row : DueRow} (hl : s.lifecycle = some l) (hadvance : l.InAdvance)
    (hrow : row.Steps l.version s.billingAnchor)
    (h : claimAndBill s row row.currentPeriodStart w none = .ok c) :
    (c.next = none ∨ c.next = some (.bookkeeping none)) ∧ c.sub.lifecycle = s.lifecycle ∧
      c.sub.billingAnchor = s.billingAnchor ∧
      (c.sub = s ∨ BillsPeriod s c.sub) := by
  obtain rfl | ⟨claimed, billed, hcas, hset, hbill, rfl⟩ := claimAndBill_cases h
  · exact ⟨.inl rfl, rfl, rfl, .inl rfl⟩
  · obtain ⟨hnext, -, hstart, hanchor, hlife, hinv, -⟩ := Subscription.setCursor_eq_ok hset
    have hclaimed : claimed.lifecycle = some l := hlife.trans hl
    have hbillingAnchor : claimed.billingAnchor = s.billingAnchor := by
      simp only [Subscription.billingAnchor, hanchor, hstart]
    have hsteps : advanceSubscription s.nextBillOn l.version.interval l.version.intervalCount
        (some s.billingAnchor) = .ok claimed.nextBillOn := by
      rw [hcas, hnext]
      exact hrow
    obtain ⟨key, hkey, hcases⟩ := billOne_cases hbill
    obtain ⟨hstarts, hends⟩ := billingGuard_advance hclaimed (hadvance.timingOn hclaimed _) hkey
    obtain ⟨rfl, i, hi, hhas⟩ | ⟨hwindow, -, rfl⟩ := hcases
    · refine ⟨.inl rfl, hlife, hbillingAnchor, .inr ⟨l, key.endsOn, hl, hsteps, hends, .inl ?_⟩⟩
      exact ⟨hinv, i, hinv ▸ hi, hhas.1.trans hstarts⟩
    · refine ⟨.inr rfl, hlife, hbillingAnchor, .inr ⟨l, key.endsOn, hl, hsteps, hends, .inr ?_⟩⟩
      exact ⟨⟨key.startsOn, key.endsOn, key.revision, hwindow⟩, Prod.ext hstarts rfl, by rw [hinv]⟩

/-- A step leaves the cursor and the invoices alone, or bills a period. -/
def TicksTo (s s' : Subscription) : Prop :=
  (s'.nextBillOn = s.nextBillOn ∧ s'.invoices = s.invoices) ∨ BillsPeriod s s'

variable {a : BillingAction × Surroundings}

section Ticks

variable {activated : Subscription} {v : PlanVersion} {sys : BillingSystem}

/-- A transaction that keeps the contract, the anchor and the invoices of a run keeps the
run, if the job that goes on is a tick's. -/
theorem TickRun.committed (h : TickRun activated v sys) (n : ℕ)
    (hcontract : ∃ l, c.sub.lifecycle = some l ∧ l.version = v ∧ l.InAdvance)
    (hanchor : c.sub.billingAnchor = sys.sub.billingAnchor)
    (hnext : ∀ job ∈ c.next, job.OfTick v activated.billingAnchor)
    (hinvoices : c.sub.invoices = sys.sub.invoices ∨
      ∃ i, c.sub.invoices = sys.sub.invoices ++ [i]) : TickRun activated v (sys.commit n c) := by
  obtain ⟨since, hsince⟩ := h.invoices
  refine ⟨hcontract, hanchor.trans h.anchor, ?_, ?_⟩
  · intro job hjob
    rcases mem_jobs_commit hjob with hjob | hjob
    · exact h.jobs job hjob
    · exact hnext job hjob
  · rcases hinvoices with hinv | ⟨i, hinv⟩
    · exact ⟨since, hinv.trans hsince⟩
    · exact ⟨since ++ [i], by rw [commit, hinv, hsince, append_assoc]⟩

theorem TickRun.resume (h : TickRun activated v sys) (n : ℕ) {job : Job} (hjob : job ∈ sys.jobs)
    (hresume : job.resume sys.sub w = .ok c) :
    TickRun activated v (sys.commit n c) ∧ TicksTo sys.sub c.sub := by
  obtain ⟨l, hl, hversion, hadvance⟩ := h.contract
  have htick := h.jobs job hjob
  cases job with
  | tickDue row =>
    cases hresume
    exact ⟨h.committed n h.contract rfl (fun next hnext => ofTick_prepare htick hnext) (.inl rfl),
      .inl ⟨rfl, rfl⟩⟩
  | tickRenewing row request =>
    obtain ⟨hrow, months, hrenew⟩ := htick
    simp only [Job.resume, bind_eq_ok, pure_eq_ok] at hresume
    obtain ⟨renewed, hrenewed, rfl⟩ := hresume
    obtain ⟨l', hl', hversion', hadvance'⟩ := hadvance.renew hl hrenew hrenewed
    have hsame := sameCursor_applyAmendment hrenewed
    refine ⟨h.committed n ⟨l', hl', hversion'.trans hversion, hadvance'⟩ hsame.billingAnchor ?_
      (.inl hsame.invoices), .inl ⟨hsame.nextBillOn, hsame.invoices⟩⟩
    rintro next hnext
    obtain rfl := mem_some_iff.mp hnext
    exact hrow
  | tickPrepared row =>
    obtain ⟨hnext, hlife, hanchor, hbills⟩ := claimAndBill_tick hl hadvance
      (show row.Steps l.version sys.sub.billingAnchor by rw [hversion, h.anchor]; exact htick)
      hresume
    refine ⟨h.committed n ⟨l, hlife.trans hl, hversion, hadvance⟩ hanchor ?_ ?_, ?_⟩
    · rintro next hmem
      rcases hnext with hnext | hnext <;> rw [hnext] at hmem
      · cases hmem
      · obtain rfl := mem_some_iff.mp hmem
        exact rfl
    · rcases hbills with hsub | ⟨_, _, -, -, -, ⟨hinv, -⟩ | ⟨i, -, hinv⟩⟩
      · exact .inl (by rw [hsub])
      · exact .inl hinv
      · exact .inr ⟨i, hinv⟩
    · exact hbills.imp_left fun hsub => ⟨by rw [hsub], by rw [hsub]⟩
  | bookkeeping after =>
    obtain rfl : after = none := htick
    cases hresume
    refine ⟨h.committed n h.contract rfl ?_ (.inl rfl), .inl ⟨rfl, rfl⟩⟩
    rintro next hnext
    cases hnext
  | billNow | catchUp | catchUpLook | catchUpPast | catchUpClaim => exact htick.elim

/-- **What a step of the scheduler keeps, and what it can do.** -/
theorem TickRun.step (h : TickRun activated v sys) (ha : a.1.ofScheduler = true) :
    TickRun activated v (sys.step a) ∧ TicksTo sys.sub (sys.step a).sub := by
  have hstep := stepsTo_step sys a
  generalize sys.step a = sys' at hstep ⊢
  cases hstep with
  | idle => exact ⟨h, .inl ⟨rfl, rfl⟩⟩
  | @tick today w row hrow =>
    obtain ⟨l, hl, hversion, -⟩ := h.contract
    refine ⟨{ h with jobs := ?_ }, .inl ⟨rfl, rfl⟩⟩
    intro job hjob
    rcases mem_jobs_spawn hjob with hjob | rfl
    · exact h.jobs job hjob
    · simp only [scanDue, bind_eq_ok, refuseIf_eq_ok, pure_eq_ok, Subscription.interval,
        Subscription.intervalCount, hl, map_some, getD_some] at hrow
      obtain ⟨_, -, advanced, hadvanced, rfl⟩ := hrow
      rw [hversion, h.anchor] at hadvanced
      exact hadvanced
  | billNow | catchUp | amend => cases ha
  | @fail n w job hjob =>
    refine ⟨{ h with jobs := ?_ }, .inl ⟨rfl, rfl⟩⟩
    intro job' hjob'
    rcases mem_jobs_replaceJob hjob' with hjob' | hnext
    · exact h.jobs job' hjob'
    · -- Only the bookkeeping of a catch-up run goes on after a failure.
      have htick := h.jobs job hjob
      cases job with
      | bookkeeping after =>
        obtain rfl : after = none := htick
        cases hnext
      | _ => cases hnext
  | @commit n w job c hjob hresume hn => exact h.resume n hjob hresume

end Ticks

/-! ### Tiling -/

section Tiled

variable {activated s s' : Subscription} {since : List PeriodInvoice}
  (hbefore : ∀ i ∈ activated.invoices, i.periodEndsOn ≤ activated.nextBillOn)

include hbefore in
theorem serviceTiled_of_tiles (hsince : s.invoices = activated.invoices ++ since)
    (h : Tiles activated.nextBillOn (since.map PeriodInvoice.window) s.nextBillOn) :
    ServiceTiled activated s := by
  refine ⟨by rwa [hsince, drop_left], ?_⟩
  intro day hlow hhigh
  have hold : (activated.invoices.map PeriodInvoice.window).countP (Covers day) = 0 := by
    refine countP_eq_zero fun p hp => ?_
    obtain ⟨i, hi, rfl⟩ := mem_map.mp hp
    exact (hbefore i hi).trans hlow
  rw [hsince, map_append, countP_append, hold, h.countP_eq_one (window_lt since) hlow hhigh]

include hbefore in
/-- **A billed period keeps the tiling just when the anchors agree.** -/
theorem serviceTiled_iff_of_billsPeriod (hsince : s.invoices = activated.invoices ++ since)
    (htiled : ServiceTiled activated s) (hbills : BillsPeriod s s') :
    s.nextBillOn < s'.nextBillOn ∧ ∀ l, s.lifecycle = some l →
      (ServiceTiled activated s' ↔
        SameAnchor s.nextBillOn l.version.interval l.version.intervalCount s.billingAnchor
          (lifecycleAnchorDay l.termStartsOn l.trialEndsOn)) := by
  have htiles := htiled.tiles
  rw [hsince, drop_left] at htiles
  have hlow := htiles.le (window_lt since)
  obtain ⟨l, periodEndsOn, hl, hnext, hends, hcases⟩ := hbills
  refine ⟨lt_of_stepCadence hnext, ?_⟩
  rintro l' hl'
  obtain rfl : l = l' := Option.some.inj (hl.symm.trans hl')
  rw [← stepCadence_eq_iff hnext hends]
  rcases hcases with ⟨-, i, hi, hstarts⟩ | ⟨i, hwindow, hinv⟩
  · -- A recorded period ends by the cursor, so none starts on it.
    have hend : i.periodEndsOn ≤ s.nextBillOn := by
      rw [hsince] at hi
      rcases mem_append.mp hi with hi | hi
      · exact (hbefore i hi).trans hlow
      · exact htiles.snd_le (window_lt since) i.window (mem_map_of_mem hi)
    exact absurd (hstarts ▸ i.window_chk) hend.not_gt
  · have hsince' : s'.invoices = activated.invoices ++ (since ++ [i]) := by
      rw [hinv, hsince, append_assoc]
    have hiff : Tiles activated.nextBillOn ((since ++ [i]).map PeriodInvoice.window)
        s'.nextBillOn ↔ periodEndsOn = s'.nextBillOn := by
      rw [map_append, map_singleton, tiles_append_singleton, hwindow]
      exact and_iff_right htiles
    rw [← hiff]
    constructor
    · intro h
      have := h.tiles
      rwa [hsince', drop_left] at this
    · exact serviceTiled_of_tiles hbefore hsince'

include hbefore in
theorem serviceTiled_step_iff {sys : BillingSystem} (hrun : TickRun activated v sys)
    (htiled : ServiceTiled activated sys.sub) (ha : a.1.ofScheduler = true) :
    ServiceTiled activated (sys.step a).sub ↔ AnchorsAgree sys a := by
  obtain ⟨since, hsince⟩ := hrun.invoices
  obtain ⟨l, hl, -⟩ := hrun.contract
  rcases (hrun.step ha).2 with ⟨hnext, hinv⟩ | hbills
  · refine iff_of_true ?_ fun hmoved => absurd hnext hmoved
    refine serviceTiled_of_tiles hbefore (hinv.trans hsince) ?_
    have htiles := htiled.tiles
    rwa [hsince, drop_left, ← hnext] at htiles
  · obtain ⟨hlt, hiff⟩ := serviceTiled_iff_of_billsPeriod hbefore hsince htiled hbills
    rw [hiff l hl]
    constructor
    · rintro hsame - l' hl'
      obtain rfl := Option.some.inj (hl.symm.trans hl')
      exact hsame
    · exact fun hagree => hagree hlt.ne' l hl

end Tiled

/-! ### Activation -/

theorem foldl_guardedThrough {invoices : List PeriodInvoice} (latest : Option CivilDate) :
    ∀ through, (through ∈ latest ∨ ∃ i ∈ invoices, i.periodEndsOn = through) →
      ∃ last ∈ invoices.foldl
        (fun latest i => some (latest.elim i.periodEndsOn (max i.periodEndsOn))) latest,
        through ≤ last := by
  induction invoices generalizing latest with
  | nil =>
    rintro through (h | ⟨i, hi, -⟩)
    · exact ⟨through, h, le_refl _⟩
    · cases hi
  | cons i invoices ih =>
    rintro through (h | ⟨j, hj, rfl⟩)
    · obtain rfl : latest = some through := h
      obtain ⟨last, hlast, hle⟩ := ih (some (max i.periodEndsOn through)) _ (.inl rfl)
      exact ⟨last, hlast, (le_max_right _ _).trans hle⟩
    · rcases mem_cons.mp hj with rfl | hj
      · obtain ⟨last, hlast, hle⟩ := ih _ _ (.inl rfl)
        refine ⟨last, hlast, le_trans ?_ hle⟩
        cases latest with
        | none => exact le_refl _
        | some _ => exact le_max_left _ _
      · exact ih _ _ (.inr ⟨j, hj, rfl⟩)

theorem periodEndsOn_le_boundary {i : PeriodInvoice} (hi : i ∈ s.invoices) :
    s.billed = true ∧
      i.periodEndsOn ≤ unbilledBoundary s.nextBillOn (guardedThrough s.invoices) := by
  obtain ⟨last, hlast, hle⟩ := foldl_guardedThrough none i.periodEndsOn (.inr ⟨i, hi, rfl⟩)
  have hguarded : guardedThrough s.invoices = some last := hlast
  refine ⟨by simp [Subscription.billed, hguarded], ?_⟩
  simp only [hguarded, unbilledBoundary]
  split_ifs with hlt
  · exact hle
  · exact hle.trans (not_lt.mp hlt)

theorem termStartsOn_le_serviceStartsOn (termStartsOn : CivilDate)
    (trialEndsOn : Option CivilDate) :
    termStartsOn ≤ serviceStartsOn termStartsOn trialEndsOn := by
  unfold serviceStartsOn
  split
  · split_ifs with h
    · exact h.le
    · exact le_refl _
  · exact le_refl _

/-- **What activation leaves**: a contract in advance that nobody works on, whose first bill
date no recorded period reaches past. -/
theorem activateLifecycle_spec {prior activated : Subscription} {input : ActivateLifecycleInput}
    (h : activateLifecycle prior input = .ok activated)
    (hadvance : input.version.billingTiming = .advance) :
    TickRun activated input.version (start activated) ∧
      ∀ i ∈ activated.invoices, i.periodEndsOn ≤ activated.nextBillOn := by
  simp only [activateLifecycle, bind_eq_ok, pure_eq_ok, refuseIf_eq_ok] at h
  obtain ⟨_, -, _, -, _, -, _, -, _, -, _, -, _, -, _, -, _, -, firstBillOn, hfirst, cursors,
    hcursors, lifecycle, hnew, moved, hset, rfl⟩ := h
  obtain ⟨hnext, -, -, -, -, hinv, -⟩ := Subscription.setCursor_eq_ok hset
  constructor
  · have hlife : lifecycle.version = input.version ∧ lifecycle.InAdvance := by
      unfold newLifecycle at hnew
      split_ifs at hnew
      cases hnew
      exact ⟨rfl, hadvance, by simp⟩
    exact ⟨⟨lifecycle, rfl, hlife⟩, rfl, by simp [start], ⟨[], by simp [start]⟩⟩
  · intro i hi
    obtain ⟨hbilled, hboundary⟩ := periodEndsOn_le_boundary (show i ∈ prior.invoices from hinv ▸ hi)
    have hstarts : input.termStartsOn ≤ firstBillOn := by
      simp only [firstLifecycleBillOn, bind_eq_ok, pure_eq_ok, hadvance, if_true] at hfirst
      obtain ⟨_, -, rfl⟩ := hfirst
      exact termStartsOn_le_serviceStartsOn _ _
    change i.periodEndsOn ≤ moved.nextBillOn
    rw [hnext]
    unfold activationBillingCursors at hcursors
    split_ifs at hcursors with hfree hflag
    · cases hcursors
      rcases hfree with hfree | hfree
      · rw [hbilled] at hfree
        cases hfree
      · exact hboundary.trans (hfree.trans hstarts)
    · cases hcursors
      exact hboundary.trans (le_max_right _ _)

/-! ### Runs -/

theorem serviceTiled_run_iff {activated : Subscription}
    (hbefore : ∀ i ∈ activated.invoices, i.periodEndsOn ≤ activated.nextBillOn)
    (actions : List (BillingAction × Surroundings)) (sys : BillingSystem)
    (hrun : TickRun activated v sys) (htiled : ServiceTiled activated sys.sub)
    (hticks : ∀ a ∈ actions, a.1.ofScheduler = true) :
    (∀ n, ServiceTiled activated (sys.run (actions.take n)).sub) ↔
      EachStep AnchorsAgree sys actions := by
  induction actions generalizing sys with
  | nil => exact iff_of_true (fun n => by simpa using htiled) trivial
  | cons a actions ih =>
    obtain ⟨ha, hticks⟩ := forall_mem_cons.mp hticks
    have hstep := serviceTiled_step_iff hbefore hrun htiled ha
    constructor
    · intro h
      have hnow : ServiceTiled activated (sys.step a).sub := by simpa using h 1
      exact ⟨hstep.mp hnow, (ih _ (hrun.step ha).1 hnow hticks).mp fun n => by
        simpa using h (n + 1)⟩
    · rintro ⟨hagree, hrest⟩ n
      have hnow := hstep.mpr hagree
      cases n with
      | zero => simpa using htiled
      | succ n => simpa using (ih _ (hrun.step ha).1 hnow hticks).mpr hrest n

/-- **Service billed in advance is tiled just as long as the anchors agree.** Over any run of
the scheduler from the activation of a contract – ticks that overlap, renew, fail or die
included – the periods invoiced lie end to end up to the next bill date in every state
reached, if and only if at every step that moves the cursor the month it moves to clamps the
subscription's anchor and the contract's to the same day. -/
theorem serviceTiled_iff_anchorsAgree {prior activated : Subscription}
    {input : ActivateLifecycleInput} (hactivated : activateLifecycle prior input = .ok activated)
    (hadvance : input.version.billingTiming = .advance)
    {actions : List (BillingAction × Surroundings)}
    (hticks : ∀ a ∈ actions, a.1.ofScheduler = true) :
    (∀ n, ServiceTiled activated ((start activated).run (actions.take n)).sub) ↔
      EachStep AnchorsAgree (start activated) actions := by
  obtain ⟨hrun, hbefore⟩ := activateLifecycle_spec hactivated hadvance
  exact serviceTiled_run_iff hbefore actions _ hrun
    (serviceTiled_of_tiles hbefore
      (show activated.invoices = activated.invoices ++ [] by simp) rfl) hticks

/-- Two ticks of a contract that starts with its subscription, on the 15th. -/
theorem serviceTiled_from_fifteenth :
    ∃ activated,
      activateLifecycle januarySubscription (januaryContract 15 none) = .ok activated ∧
        (∀ n, ServiceTiled activated ((start activated).run
          ((tickOn (civilDay 2024 1 15) ++
            tickOn (civilDay 2024 2 15)).take n)).sub) := by
  obtain ⟨activated, hactivated, hagree⟩ := exists_of_any
    (x := activateLifecycle januarySubscription (januaryContract 15 none))
    (p := fun activated => decide (EachStep AnchorsAgree
      (start activated) (tickOn (civilDay 2024 1 15) ++
        tickOn (civilDay 2024 2 15)))) (by decide +kernel)
  exact ⟨activated, hactivated,
    (serviceTiled_iff_anchorsAgree hactivated rfl (by decide)).mpr (of_decide_eq_true hagree)⟩

/-- A contract that starts on the 31st, of a subscription that started on the 15th: its first
period runs to 29 February, and the next begins on the 15th. -/
theorem not_serviceTiled_from_thirtyFirst :
    ¬∀ (prior activated : Subscription) (input : ActivateLifecycleInput)
      (actions : List (BillingAction × Surroundings)),
      activateLifecycle prior input = .ok activated →
      input.version.billingTiming = .advance →
      (∀ a ∈ actions, a.1.ofScheduler = true) →
      ServiceTiled activated ((start activated).run actions).sub := by
  intro hclaim
  obtain ⟨activated, hactivated, hbroken⟩ := exists_of_any
    (x := activateLifecycle januarySubscription (januaryContract 31 none))
    (p := fun activated => decide (¬Tiles activated.nextBillOn
      ((((start activated).run
        (tickOn (civilDay 2024 1 31))).sub.invoices.drop
          activated.invoices.length).map PeriodInvoice.window)
      ((start activated).run
        (tickOn (civilDay 2024 1 31))).sub.nextBillOn)) (by decide +kernel)
  exact absurd (hclaim _ _ _ _ hactivated rfl (by decide)).tiles (of_decide_eq_true hbroken)

end OpenBooks
