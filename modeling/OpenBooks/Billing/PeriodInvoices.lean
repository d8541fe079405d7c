import OpenBooks.Billing.Scheduler

/-!
# One invoice per service period

Ticks, bill-now requests, catch-up runs, renewals and amendments may interleave in any way, and any
of them may die between two transactions. Nothing of that should invoice a period twice, or let the
cursor pass one that was neither invoiced nor skipped (`OneInvoicePerPeriod`).

For a plain subscription it is so: the cursor moves by compare-and-swap in the transaction that
records the invoice, and every other bill of the period finds that invoice under the same key. The
key of a contract's bill holds the contract's *revision* too, and two things then go wrong.

* An amendment or a renewal between two bills of one period gives the second another key, and it is
  invoiced again.
* A contract turned from arrears to advance opens its next period without having billed the one
  before.

`BillsOnce` says of a step that neither happens at it, and `oneInvoicePerPeriod_of_billsOnce` that a
run all of whose steps are such keeps the promise in every state it reaches. What carries the proof
is `BillingInvariant`.
-/

namespace OpenBooks

open Checked List BillingSystem

/-! ### What is claimed -/

/-- A period the cursor moved over was invoiced, or skipped by choice. -/
def BillingSystem.Accounted (sys : BillingSystem) (m : CursorMove) : Prop :=
  m.startsOn ∈ sys.skipped ∨ ∃ i ∈ sys.sub.invoices, i.periodStartsOn = m.startsOn

instance (sys : BillingSystem) (m : CursorMove) : Decidable (sys.Accounted m) :=
  inferInstanceAs (Decidable (_ ∨ _))

/-- No two recorded invoices are for the same days, and every period the cursor has moved
past is accounted for. A period billed in arrears is passed when the cursor leaves its end. -/
structure OneInvoicePerPeriod (sys : BillingSystem) : Prop where
  distinct : sys.sub.invoices.Pairwise fun i j => i.window ≠ j.window
  accounted : ∀ m ∈ sys.moves, m.timing = .advance ∨ m.endsOn < sys.sub.nextBillOn →
    sys.Accounted m

/-- The recorded invoices of the very period a bill is for carry the revision it bills
under. -/
def SameRevision (s : Subscription) (billOn serviceAnchor : CivilDate) : Prop :=
  ∀ key ∈ (s.billingGuard billOn serviceAnchor).toOption, ∀ i ∈ s.invoices,
    i.window = (key.startsOn, key.endsOn) → i.contractRevision = key.revision

instance (s : Subscription) (billOn serviceAnchor : CivilDate) :
    Decidable (SameRevision s billOn serviceAnchor) :=
  inferInstanceAs (Decidable (∀ _ ∈ _, _))

/-- No period opened under arrears awaits its invoice at the cursor. -/
def BillingSystem.NothingOpen (sys : BillingSystem) : Prop :=
  ∀ m ∈ sys.moves, m.timing = .arrears → m.endsOn = sys.sub.nextBillOn → sys.Accounted m

instance (sys : BillingSystem) : Decidable sys.NothingOpen :=
  inferInstanceAs (Decidable (∀ _ ∈ _, _))

/-- The next transaction of a job, if it bills a contract, bills a period that is recorded
under no other revision; and if it moves the cursor in advance, it leaves nothing open. -/
def JobBillsOnce (sys : BillingSystem) : Job → Prop
  | .tickPrepared row => row.nextBillOn = sys.sub.nextBillOn →
      SameRevision sys.sub row.nextBillOn (row.currentPeriodStart.getD row.nextBillOn) ∧
        (sys.sub.timingOn row.nextBillOn = .advance → sys.NothingOpen)
  | .billNow nextBillOn currentPeriodStart =>
      SameRevision sys.sub nextBillOn
        ((currentPeriodStart.or sys.sub.currentPeriodStart).getD nextBillOn)
  | _ => True

instance (sys : BillingSystem) : (job : Job) → Decidable (JobBillsOnce sys job)
  | .tickPrepared _ => inferInstanceAs (Decidable (_ → _))
  | .billNow _ _ => inferInstanceAs (Decidable (SameRevision _ _ _))
  | .tickDue _ => inferInstanceAs (Decidable True)
  | .tickRenewing _ _ => inferInstanceAs (Decidable True)
  | .bookkeeping _ => inferInstanceAs (Decidable True)
  | .catchUp _ => inferInstanceAs (Decidable True)
  | .catchUpLook _ _ => inferInstanceAs (Decidable True)
  | .catchUpPast _ _ _ => inferInstanceAs (Decidable True)
  | .catchUpClaim _ _ => inferInstanceAs (Decidable True)

/-- If the step bills a contract, it bills once. -/
def BillsOnce (sys : BillingSystem) (a : BillingAction × Surroundings) : Prop :=
  match a.1 with
  | .resume n => sys.sub.lifecycle ≠ none → ∀ job ∈ sys.jobs[n]?, JobBillsOnce sys job
  | _ => True

instance (sys : BillingSystem) (a : BillingAction × Surroundings) :
    Decidable (BillsOnce sys a) := by
  unfold BillsOnce
  split <;> infer_instance

/-- A subscription whose invoices are as billing leaves them: a period once, and a plain
plan's at revision 1. -/
structure Subscription.Recorded (s : Subscription) : Prop where
  distinct : s.invoices.Pairwise fun i j => i.window ≠ j.window
  revision : s.lifecycle = none → ∀ i ∈ s.invoices, i.contractRevision = 1

variable {sys : BillingSystem} {c : Committed} {row : DueRow} {s s' : Subscription}
  {w : Surroundings}

/-! ### Rows and jobs -/

/-- What a program read agrees with the subscription, unless the cursor has moved on. -/
structure DueRow.Fits (row : DueRow) (s : Subscription) : Prop where
  forward : row.nextBillOn < row.advanced
  past : row.nextBillOn ≤ s.nextBillOn
  current : row.nextBillOn = s.nextBillOn → row.currentPeriodStart = s.currentPeriodStart

def Job.Fits (s : Subscription) : Job → Prop
  | .tickDue row => row.Fits s
  | .tickRenewing row _ => row.Fits s
  | .tickPrepared row => row.Fits s
  | .catchUpLook _ row => s.lifecycle = none ∧ row.Fits s
  | .catchUpPast _ row skipping => s.lifecycle = none ∧ row.Fits s ∧
      (skipping = false → ∃ i ∈ s.invoices, i.periodStartsOn = row.nextBillOn)
  | .catchUpClaim _ row => s.lifecycle = none ∧ row.Fits s
  | _ => True

/-- How a subscription can come to stand: plain if it was and only then, its invoices kept,
its cursor in place or further on. -/
structure Subscription.Later (s s' : Subscription) : Prop where
  plain : s'.lifecycle = none ↔ s.lifecycle = none
  kept : ∀ i ∈ s.invoices, i ∈ s'.invoices
  cursor : (s'.nextBillOn = s.nextBillOn ∧ s'.currentPeriodStart = s.currentPeriodStart) ∨
    s.nextBillOn < s'.nextBillOn

theorem Subscription.Later.refl (s : Subscription) : s.Later s :=
  ⟨Iff.rfl, fun _ => id, .inl ⟨rfl, rfl⟩⟩

theorem DueRow.Fits.later (h : row.Fits s) (hlater : s.Later s') : row.Fits s' := by
  rcases hlater.cursor with ⟨hnext, hstart⟩ | hlt
  · exact ⟨h.forward, hnext ▸ h.past, fun heq => (h.current (heq.trans hnext)).trans hstart.symm⟩
  · exact ⟨h.forward, h.past.trans hlt.le, fun heq => absurd (heq ▸ h.past) hlt.not_ge⟩

variable {job : Job}

theorem Job.Fits.later (h : job.Fits s) (hlater : s.Later s') : job.Fits s' := by
  cases job with
  | tickDue row | tickRenewing row request | tickPrepared row => exact DueRow.Fits.later h hlater
  | catchUpLook run row => exact ⟨hlater.plain.mpr h.1, h.2.later hlater⟩
  | catchUpPast run row skipping =>
    obtain ⟨hplain, hrow, hinvoiced⟩ := h
    refine ⟨hlater.plain.mpr hplain, hrow.later hlater, fun hskip => ?_⟩
    obtain ⟨i, hi, hstarts⟩ := hinvoiced hskip
    exact ⟨i, hlater.kept i hi, hstarts⟩
  | catchUpClaim run row => exact ⟨hlater.plain.mpr h.1, h.2.later hlater⟩
  | billNow | bookkeeping | catchUp => trivial

theorem Subscription.SameCursor.later (h : s.SameCursor s') : s.Later s' := by
  refine ⟨?_, fun i hi => h.invoices ▸ hi, .inl ⟨h.nextBillOn, h.currentPeriodStart⟩⟩
  rw [← Option.isNone_iff_eq_none, ← Option.isNone_iff_eq_none, ← Option.not_isSome,
    ← Option.not_isSome, h.managed]

/-! ### The invariant -/

structure BillingInvariant (sys : BillingSystem) : Prop where
  recorded : sys.sub.Recorded
  plainMoves : sys.sub.lifecycle = none → ∀ m ∈ sys.moves, m.timing = .advance
  movesEnd : ∀ m ∈ sys.moves, m.endsOn ≤ sys.sub.nextBillOn
  accounted : ∀ m ∈ sys.moves, sys.Accounted m ∨
    (m.timing = .arrears ∧ m.endsOn = sys.sub.nextBillOn ∧
      sys.sub.currentPeriodStart = some m.startsOn)
  jobs : ∀ job ∈ sys.jobs, job.Fits sys.sub

theorem BillingInvariant.oneInvoicePerPeriod (h : BillingInvariant sys) :
    OneInvoicePerPeriod sys := by
  refine ⟨h.recorded.distinct, ?_⟩
  intro m hm hpassed
  rcases h.accounted m hm with haccounted | ⟨htiming, hends, -⟩
  · exact haccounted
  · rcases hpassed with hadvance | hlt
    · rw [htiming] at hadvance
      cases hadvance
    · exact absurd hends hlt.ne

/-- What a transaction of a job does to the cursor: nothing, or it moves it off its date, in
advance over a period that is then accounted for, and with whatever was open before. -/
inductive CursorStep (sys : BillingSystem) (c : Committed) : Prop
  | stays (hmoved : c.moved = none) (hnext : c.sub.nextBillOn = sys.sub.nextBillOn)
      (hstart : c.sub.currentPeriodStart = sys.sub.currentPeriodStart)
  | moves (m : CursorMove) (hmoved : c.moved = some m) (hends : m.endsOn = c.sub.nextBillOn)
      (hforward : sys.sub.nextBillOn < c.sub.nextBillOn)
      (hstart : c.sub.currentPeriodStart = some m.startsOn)
      (hplain : sys.sub.lifecycle = none → m.timing = .advance)
      (hbilled : m.timing = .advance → m.startsOn ∈ c.skipped ∨
        ∃ i ∈ c.sub.invoices, i.periodStartsOn = m.startsOn)
      (hopen : ∀ m' ∈ sys.moves, m'.timing = .arrears → m'.endsOn = sys.sub.nextBillOn →
        sys.sub.currentPeriodStart = some m'.startsOn →
        sys.Accounted m' ∨ ∃ i ∈ c.sub.invoices, i.periodStartsOn = m'.startsOn)

theorem BillingSystem.Accounted.commit {m : CursorMove} (h : sys.Accounted m)
    (hlater : sys.sub.Later c.sub) (n : ℕ) : (sys.commit n c).Accounted m := by
  rcases h with hskip | ⟨i, hi, hstarts⟩
  · exact .inl (mem_append_left _ hskip)
  · exact .inr ⟨i, hlater.kept i hi, hstarts⟩

/-- **Committing a transaction keeps the invariant.** -/
theorem BillingInvariant.commit (h : BillingInvariant sys) (n : ℕ)
    (hlater : sys.sub.Later c.sub) (hrecorded : c.sub.Recorded)
    (hnext : ∀ job ∈ c.next, job.Fits c.sub) (hcursor : CursorStep sys c) :
    BillingInvariant (sys.commit n c) := by
  have hjobs : ∀ job ∈ (sys.commit n c).jobs, job.Fits c.sub := by
    intro job hjob
    rcases mem_jobs_commit hjob with hjob | hjob
    · exact (h.jobs job hjob).later hlater
    · exact hnext job hjob
  cases hcursor with
  | stays hmoved hstays hstart =>
    have hmoves : (sys.commit n c).moves = sys.moves := by
      simp [BillingSystem.commit, hmoved]
    refine ⟨hrecorded, ?_, ?_, ?_, hjobs⟩
    · rw [hmoves]
      exact fun hplain => h.plainMoves (hlater.plain.mp hplain)
    · rw [hmoves]
      exact fun m hm => (h.movesEnd m hm).trans hstays.ge
    · rw [hmoves]
      intro m hm
      rcases h.accounted m hm with haccounted | ⟨htiming, hends, hopened⟩
      · exact .inl (haccounted.commit hlater n)
      · exact .inr ⟨htiming, hends.trans hstays.symm, hstart.trans hopened⟩
  | moves m hmoved hends hforward hstart hplain hbilled hopen =>
    have hmoves : (sys.commit n c).moves = sys.moves ++ [m] := by
      simp [BillingSystem.commit, hmoved]
    refine ⟨hrecorded, ?_, ?_, ?_, hjobs⟩
    · rw [hmoves]
      intro hnone m' hm'
      have hnone' := hlater.plain.mp hnone
      rcases mem_append.mp hm' with hm' | hm'
      · exact h.plainMoves hnone' m' hm'
      · obtain rfl := mem_singleton.mp hm'
        exact hplain hnone'
    · rw [hmoves]
      intro m' hm'
      rcases mem_append.mp hm' with hm' | hm'
      · exact (h.movesEnd m' hm').trans hforward.le
      · obtain rfl := mem_singleton.mp hm'
        exact hends.le
    · rw [hmoves]
      intro m' hm'
      rcases mem_append.mp hm' with hm' | hm'
      · -- Whatever was open is accounted for now.
        rcases h.accounted m' hm' with haccounted | ⟨htiming, hended, hopened⟩
        · exact .inl (haccounted.commit hlater n)
        · rcases hopen m' hm' htiming hended hopened with haccounted | hinvoiced
          · exact .inl (haccounted.commit hlater n)
          · exact .inl (.inr hinvoiced)
      · obtain rfl := mem_singleton.mp hm'
        cases htiming : m'.timing with
        | arrears => exact .inr ⟨rfl, hends, hstart⟩
        | advance =>
          rcases hbilled htiming with hskip | hinvoiced
          · exact .inl (.inl (mem_append_right _ (by simpa using hskip)))
          · exact .inl (.inr hinvoiced)

/-! ### Billing -/

/-- What a bill leaves of the invoices: those there were, one of which has its key, or one
more, whose key none had. -/
def Records (s s' : Subscription) (key : PeriodKey) : Prop :=
  (s'.invoices = s.invoices ∧ ∃ i ∈ s.invoices, i.Has key) ∨
    ∃ i : PeriodInvoice, i.Has key ∧ (∀ j ∈ s.invoices, ¬j.Has key) ∧
      s'.invoices = s.invoices ++ [i]

theorem billOne_records {billingDate : CivilDate} {periodStartOverride : Option CivilDate}
    {result : Subscription × Bool} (h : billOne s billingDate periodStartOverride w = .ok result) :
    ∃ key, s.billingGuard billingDate
        ((periodStartOverride.or s.currentPeriodStart).getD billingDate) = .ok key ∧
      Records s result.1 key ∧ result.1.lifecycle = s.lifecycle ∧
      result.1.nextBillOn = s.nextBillOn ∧
      result.1.currentPeriodStart = s.currentPeriodStart := by
  obtain ⟨key, hkey, ⟨rfl, hprior⟩ | ⟨hwindow, hnone, rfl⟩⟩ := billOne_cases h
  · exact ⟨key, hkey, .inl ⟨rfl, hprior⟩, rfl, rfl, rfl⟩
  · exact ⟨key, hkey, .inr ⟨_, ⟨rfl, rfl, rfl⟩, hnone, rfl⟩, rfl, rfl, rfl⟩

variable {billOn serviceAnchor : CivilDate}

section Recording

variable {key : PeriodKey}

theorem Records.kept (h : Records s s' key) : ∀ i ∈ s.invoices, i ∈ s'.invoices := by
  intro i hi
  rcases h with ⟨hsame, -⟩ | ⟨j, -, -, hmore⟩
  · exact hsame ▸ hi
  · exact hmore ▸ mem_append_left _ hi

theorem Records.exists_has (h : Records s s' key) : ∃ i ∈ s'.invoices, i.Has key := by
  rcases h with ⟨hsame, i, hi, hhas⟩ | ⟨i, hhas, -, hmore⟩
  · exact ⟨i, hsame ▸ hi, hhas⟩
  · exact ⟨i, by simp [hmore], hhas⟩

/-- **A period recorded under no other revision is recorded once.** -/
theorem Records.recorded (h : Records s s' key) (hs : s.Recorded)
    (hlife : s'.lifecycle = s.lifecycle)
    (hkey : s.lifecycle = none → key.revision = 1)
    (hsame : ∀ i ∈ s.invoices, i.window = (key.startsOn, key.endsOn) →
      i.contractRevision = key.revision) : s'.Recorded := by
  rcases h with ⟨hinv, -⟩ | ⟨i, ⟨hstarts, hends, hrevision⟩, hnone, hinv⟩
  · exact ⟨hinv ▸ hs.distinct, fun hplain => hinv ▸ hs.revision (hlife ▸ hplain)⟩
  · have hwindow : i.window = (key.startsOn, key.endsOn) := Prod.ext hstarts hends
    constructor
    · rw [hinv]
      refine pairwise_append.mpr ⟨hs.distinct, pairwise_singleton _ _, ?_⟩
      rintro j hj i' hi' hsameWindow
      obtain rfl := mem_singleton.mp hi'
      have hj' := hsameWindow.trans hwindow
      exact hnone j hj ⟨(Prod.ext_iff.mp hj').1, (Prod.ext_iff.mp hj').2, hsame j hj hj'⟩
    · intro hplain j hj
      have hplain' : s.lifecycle = none := hlife ▸ hplain
      rw [hinv] at hj
      rcases mem_append.mp hj with hj | hj
      · exact hs.revision hplain' j hj
      · obtain rfl := mem_singleton.mp hj
        exact hrevision.trans (hkey hplain')

theorem billingGuard_cases (h : s.billingGuard billOn serviceAnchor = .ok key) :
    (s.lifecycle = none → key.revision = 1) ∧
      (s.timingOn billOn = .advance → key.startsOn = billOn) ∧
      (s.timingOn billOn = .arrears → key.startsOn = serviceAnchor ∧ key.endsOn = billOn) := by
  unfold Subscription.billingGuard at h
  cases hlife : s.lifecycle with
  | none =>
    simp only [hlife, bind_eq_ok, pure_eq_ok] at h
    obtain ⟨endsOn, -, rfl⟩ := h
    refine ⟨fun _ => rfl, fun _ => rfl, fun htiming => ?_⟩
    simp [Subscription.timingOn, hlife] at htiming
  | some l =>
    simp only [hlife, bind_eq_ok, pure_eq_ok] at h
    obtain ⟨period, hperiod, rfl⟩ := h
    refine ⟨fun hnone => absurd hnone (by simp), fun htiming => ?_, fun htiming => ?_⟩
    · simp only [htiming, lifecycleBillingPeriod, bind_eq_ok, pure_eq_ok] at hperiod
      obtain ⟨endsOn, -, rfl⟩ := hperiod
      rfl
    · simp only [htiming, lifecycleBillingPeriod] at hperiod
      cases hperiod
      exact ⟨rfl, rfl⟩

/-- A plain subscription bills every period once: its invoices are all of the revision it
bills under. -/
theorem Subscription.Recorded.sameRevision (hs : s.Recorded) (billOn serviceAnchor : CivilDate)
    (hplain : s.lifecycle = none) : SameRevision s billOn serviceAnchor := by
  intro key hkey i hi _
  have hguard : s.billingGuard billOn serviceAnchor = .ok key := by
    cases hx : s.billingGuard billOn serviceAnchor with
    | error e => rw [hx] at hkey; cases hkey
    | ok k => rw [hx] at hkey; cases hkey; rfl
  rw [hs.revision hplain i hi, (billingGuard_cases hguard).1 hplain]

end Recording

/-! ### Transactions -/

variable {claimed : Subscription}

theorem billingGuard_setCursor {nextBillOn : CivilDate} {currentPeriodStart : Option CivilDate}
    (h : s.setCursor nextBillOn currentPeriodStart = .ok claimed) :
    claimed.billingGuard = s.billingGuard ∧ claimed.timingOn = s.timingOn := by
  unfold Subscription.setCursor at h
  split_ifs at h
  cases h
  exact ⟨rfl, rfl⟩

theorem SameRevision.of_guard {key : PeriodKey} (h : SameRevision s billOn serviceAnchor)
    (hkey : s.billingGuard billOn serviceAnchor = .ok key) :
    ∀ i ∈ s.invoices, i.window = (key.startsOn, key.endsOn) → i.contractRevision = key.revision :=
  h key (by rw [hkey]; rfl)

/-- **A claim that bills keeps the invariant**, if the period is recorded under no other
revision, a bill in advance leaves nothing open, and a bill in arrears is for the period that
is open. -/
theorem BillingInvariant.claimAndBill {periodStart : Option CivilDate} {after : Option CatchUpRun}
    (h : BillingInvariant sys) (n : ℕ) (hrow : row.Fits sys.sub)
    (hrevision : row.nextBillOn = sys.sub.nextBillOn →
      SameRevision sys.sub row.nextBillOn (periodStart.getD row.nextBillOn))
    (hadvance : row.nextBillOn = sys.sub.nextBillOn →
      sys.sub.timingOn row.nextBillOn = .advance → sys.NothingOpen)
    (harrears : row.nextBillOn = sys.sub.nextBillOn →
      sys.sub.timingOn row.nextBillOn = .arrears → periodStart = sys.sub.currentPeriodStart)
    (hclaim : claimAndBill sys.sub row periodStart w after = .ok c) :
    BillingInvariant (sys.commit n c) := by
  obtain rfl | ⟨claimed, billed, hcas, hset, hbill, rfl⟩ := claimAndBill_cases hclaim
  · refine h.commit n (.refl _) h.recorded ?_ (.stays rfl rfl rfl)
    rintro job hjob
    obtain ⟨run, -, rfl⟩ := Option.map_eq_some_iff.mp hjob
    trivial
  · obtain ⟨hnext, hstart, -, -, hlife, hinv, -⟩ := Subscription.setCursor_eq_ok hset
    obtain ⟨hguard, htimingOn⟩ := billingGuard_setCursor hset
    obtain ⟨key, hkey, hrecords, hlife', hnext', hstart'⟩ := billOne_records hbill
    have hperiod : (periodStart.or claimed.currentPeriodStart).getD sys.sub.nextBillOn =
        periodStart.getD row.nextBillOn := by
      rw [hstart, ← hcas]
      cases periodStart <;> rfl
    rw [hguard, hperiod, hcas] at hkey
    have hrecords' : Records sys.sub billed.1 key := by
      unfold Records at hrecords ⊢
      rwa [hinv] at hrecords
    have hforward : sys.sub.nextBillOn < billed.1.nextBillOn := by
      rw [hnext', hnext, hcas]
      exact hrow.forward
    obtain ⟨hplainKey, hadvanceKey, harrearsKey⟩ := billingGuard_cases hkey
    obtain ⟨i, hi, hstarts, hends, -⟩ := hrecords'.exists_has
    refine h.commit n ⟨by rw [hlife', hlife], hrecords'.kept, .inr hforward⟩
      (hrecords'.recorded h.recorded (hlife'.trans hlife) hplainKey
        ((hrevision hcas.symm).of_guard hkey)) ?_
      (.moves _ rfl ?_ hforward ?_ ?_ ?_ ?_)
    · rintro job hjob
      dsimp only at hjob
      split_ifs at hjob
      · obtain rfl := Option.mem_some_iff.mp hjob
        trivial
      · obtain ⟨run, -, rfl⟩ := Option.map_eq_some_iff.mp hjob
        trivial
    · exact hnext.symm.trans hnext'.symm
    · exact hstart'.trans hstart
    · intro hplain
      simp [Subscription.timingOn, hlife, hplain]
    · intro htiming
      refine .inr ⟨i, hi, hstarts.trans ?_⟩
      rw [htimingOn, hcas] at htiming
      rw [hadvanceKey htiming, hcas]
    · -- What was open is what an arrears bill invoices; an advance bill found nothing open.
      intro m hm htiming hended hopened
      cases hnow : sys.sub.timingOn row.nextBillOn with
      | advance => exact .inl (hadvance hcas.symm hnow m hm htiming hended)
      | arrears =>
        refine .inr ⟨i, hi, hstarts.trans ?_⟩
        rw [(harrearsKey hnow).1, harrears hcas.symm hnow, hopened]
        rfl

/-- Advancing past a period that is skipped, or invoiced already, keeps the invariant of a
plain subscription. -/
theorem BillingInvariant.advancePast {run : CatchUpRun} {skipping : Bool}
    (h : BillingInvariant sys) (n : ℕ) (hplain : sys.sub.lifecycle = none)
    (hrow : row.Fits sys.sub)
    (hinvoiced : skipping = false → ∃ i ∈ sys.sub.invoices, i.periodStartsOn = row.nextBillOn)
    (hpast : advancePast sys.sub run row skipping = .ok c) :
    BillingInvariant (sys.commit n c) := by
  simp only [OpenBooks.advancePast, bind_eq_ok] at hpast
  obtain ⟨claimed, hclaim, hpast⟩ := hpast
  cases claimed with
  | none =>
    obtain rfl := pure_eq_ok.mp hpast
    refine h.commit n (.refl _) h.recorded ?_ (.stays rfl rfl rfl)
    rintro job hjob
    obtain rfl := Option.mem_some_iff.mp hjob
    trivial
  | some moved =>
    obtain rfl := pure_eq_ok.mp hpast
    obtain ⟨hcas, hset⟩ := claim_eq_some hclaim
    obtain ⟨hnext, hstart, -, -, hlife, hinv, -⟩ := Subscription.setCursor_eq_ok hset
    have hforward : sys.sub.nextBillOn < moved.nextBillOn := by
      rw [hnext, hcas]
      exact hrow.forward
    refine h.commit n ⟨by rw [hlife], fun i hi => hinv ▸ hi, .inr hforward⟩
      ⟨hinv ▸ h.recorded.distinct, fun _ => hinv ▸ h.recorded.revision hplain⟩ ?_
      (.moves _ rfl hnext.symm hforward (hstart.trans (by rw [hcas])) (fun _ => rfl) ?_ ?_)
    · rintro job hjob
      obtain rfl := Option.mem_some_iff.mp hjob
      trivial
    · intro _
      cases skipping with
      | true => exact .inl rfl
      | false =>
        obtain ⟨i, hi, hstarts⟩ := hinvoiced rfl
        exact .inr ⟨i, hinv ▸ hi, hstarts⟩
    · intro m hm htiming
      rw [h.plainMoves hplain m hm] at htiming
      cases htiming

/-- A transaction that changes neither cursor nor invoices keeps the invariant. -/
theorem BillingInvariant.quiet (h : BillingInvariant sys) (n : ℕ)
    (hsame : sys.sub.SameCursor c.sub) (hmoved : c.moved = none)
    (hnext : ∀ job ∈ c.next, job.Fits c.sub) : BillingInvariant (sys.commit n c) := by
  have hlater := hsame.later
  refine h.commit n hlater ⟨hsame.invoices ▸ h.recorded.distinct, ?_⟩ hnext
    (.stays hmoved hsame.nextBillOn hsame.currentPeriodStart)
  intro hplain
  rw [hsame.invoices]
  exact h.recorded.revision (hlater.plain.mp hplain)

theorem fits_of_advance {advanced : CivilDate}
    (h : advanceSubscription s.nextBillOn s.interval s.intervalCount (some s.billingAnchor) =
      .ok advanced) : DueRow.Fits ⟨s.nextBillOn, s.currentPeriodStart, advanced⟩ s :=
  ⟨lt_of_stepCadence h, le_refl _, fun _ => rfl⟩

theorem fits_scanDue {today : CivilDate} (h : scanDue s today = .ok row) : row.Fits s := by
  simp only [scanDue, bind_eq_ok, pure_eq_ok] at h
  obtain ⟨_, -, advanced, hadvanced, rfl⟩ := h
  exact fits_of_advance hadvanced

theorem fits_prepare (hrow : row.Fits s)
    (h : prepareAdvancedSubscriptionBilling s row w = some job) : job.Fits s := by
  unfold prepareAdvancedSubscriptionBilling at h
  split at h
  · cases h
    exact hrow
  · dsimp only at h
    split at h
    · cases h
      exact hrow
    · cases h
    · cases h
      exact hrow
    · split_ifs at h
      cases h
      exact hrow

theorem fits_catchUpTurn {run : CatchUpRun} (h : catchUpTurn s run = .ok (some job)) :
    job.Fits s := by
  simp only [catchUpTurn, bind_eq_ok, refuseIf_eq_ok, not_not] at h
  obtain ⟨_, hplain, _, -, _, -, h⟩ := h
  split_ifs at h with hcaught
  · cases h
  all_goals
    simp only [bind_eq_ok, pure_eq_ok, Option.some.injEq] at h
    obtain ⟨advanced, hadvanced, rfl⟩ := h
  · exact ⟨hplain, fits_of_advance hadvanced⟩
  · exact ⟨hplain, fits_of_advance hadvanced, fun hskip => absurd hskip (by simp)⟩

/-- **Every transaction that bills once keeps the invariant.** -/
theorem BillingInvariant.resume (h : BillingInvariant sys) (n : ℕ) (hjob : job ∈ sys.jobs)
    (honce : sys.sub.lifecycle ≠ none → JobBillsOnce sys job)
    (hresume : job.resume sys.sub w = .ok c) : BillingInvariant (sys.commit n c) := by
  have hfits := h.jobs job hjob
  cases job with
  | tickDue row =>
    cases hresume
    exact h.quiet n (.refl _) rfl fun next hnext => fits_prepare hfits hnext
  | tickRenewing row request =>
    simp only [Job.resume, bind_eq_ok, pure_eq_ok] at hresume
    obtain ⟨renewed, hrenewed, rfl⟩ := hresume
    have hsame := sameCursor_applyAmendment hrenewed
    refine h.quiet n hsame rfl ?_
    rintro next hnext
    obtain rfl := Option.mem_some_iff.mp hnext
    exact DueRow.Fits.later hfits hsame.later
  | tickPrepared row =>
    refine h.claimAndBill n hfits ?_ ?_ (fun hcas _ => hfits.current hcas) hresume
    · intro hcas
      by_cases hplain : sys.sub.lifecycle = none
      · exact h.recorded.sameRevision _ _ hplain
      · exact (honce hplain hcas).1
    · intro hcas htiming
      by_cases hplain : sys.sub.lifecycle = none
      · intro m hm harrears
        rw [h.plainMoves hplain m hm] at harrears
        cases harrears
      · exact (honce hplain hcas).2 htiming
  | billNow nextBillOn currentPeriodStart =>
    simp only [Job.resume, bind_eq_ok, pure_eq_ok] at hresume
    obtain ⟨billed, hbill, rfl⟩ := hresume
    obtain ⟨key, hkey, hrecords, hlife, hnext, hstart⟩ := billOne_records hbill
    have hrevision : SameRevision sys.sub nextBillOn
        ((currentPeriodStart.or sys.sub.currentPeriodStart).getD nextBillOn) := by
      by_cases hplain : sys.sub.lifecycle = none
      · exact h.recorded.sameRevision _ _ hplain
      · exact honce hplain
    refine h.commit n ⟨by rw [hlife], hrecords.kept, .inl ⟨hnext, hstart⟩⟩
      (hrecords.recorded h.recorded hlife (billingGuard_cases hkey).1 (hrevision.of_guard hkey))
      ?_ (.stays rfl hnext hstart)
    rintro job hjob
    dsimp only at hjob
    split_ifs at hjob
    · obtain rfl := Option.mem_some_iff.mp hjob
      trivial
    · cases hjob
  | bookkeeping after =>
    cases hresume
    refine h.quiet n ⟨rfl, rfl, rfl, rfl, rfl⟩ rfl ?_
    rintro next hnext
    obtain ⟨run, -, rfl⟩ := Option.map_eq_some_iff.mp hnext
    trivial
  | catchUp run =>
    simp only [Job.resume, bind_eq_ok, pure_eq_ok] at hresume
    obtain ⟨next, hturn, rfl⟩ := hresume
    refine h.quiet n (.refl _) rfl ?_
    rintro job rfl
    exact fits_catchUpTurn hturn
  | catchUpLook run row =>
    simp only [Job.resume] at hresume
    split_ifs at hresume with hinvoiced
    · cases hresume
      refine h.quiet n (.refl _) rfl ?_
      rintro next hnext
      obtain rfl := Option.mem_some_iff.mp hnext
      exact ⟨hfits.1, hfits.2, fun _ => by simpa using hinvoiced⟩
    · cases hresume
      refine h.quiet n (.refl _) rfl ?_
      rintro next hnext
      obtain rfl := Option.mem_some_iff.mp hnext
      exact hfits
  | catchUpPast run row skipping =>
    obtain ⟨hplain, hrow, hinvoiced⟩ := hfits
    exact h.advancePast n hplain hrow hinvoiced hresume
  | catchUpClaim run row =>
    obtain ⟨hplain, hrow⟩ := hfits
    refine h.claimAndBill n hrow (fun _ => h.recorded.sameRevision _ _ hplain) ?_ ?_ hresume
    · intro _ _ m hm harrears
      rw [h.plainMoves hplain m hm] at harrears
      cases harrears
    · intro _ htiming
      simp [Subscription.timingOn, hplain] at htiming

/-! ### Runs -/

theorem BillingInvariant.spawn (h : BillingInvariant sys) (hfits : job.Fits sys.sub) :
    BillingInvariant (sys.spawn job) := by
  refine { h with jobs := ?_ }
  intro job' hjob'
  rcases mem_jobs_spawn hjob' with hjob' | rfl
  · exact h.jobs job' hjob'
  · exact hfits

/-- **Every step that bills once keeps the invariant.** -/
theorem BillingInvariant.step {a : BillingAction × Surroundings} (h : BillingInvariant sys)
    (honce : BillsOnce sys a) : BillingInvariant (sys.step a) := by
  have hstep := stepsTo_step sys a
  generalize sys.step a = sys' at hstep ⊢
  cases hstep with
  | idle => exact h
  | tick hrow => exact h.spawn (show Job.Fits sys.sub (.tickDue _) from fits_scanDue hrow)
  | billNow | catchUp => exact h.spawn trivial
  | @amend request w amended hamended =>
    have hsame := sameCursor_applyAmendment hamended
    have hlater := hsame.later
    refine ⟨⟨hsame.invoices ▸ h.recorded.distinct, ?_⟩, ?_, ?_, ?_, ?_⟩
    · intro hplain
      rw [hsame.invoices]
      exact h.recorded.revision (hlater.plain.mp hplain)
    · exact fun hplain => h.plainMoves (hlater.plain.mp hplain)
    · exact fun m hm => (h.movesEnd m hm).trans hsame.nextBillOn.ge
    · intro m hm
      rcases h.accounted m hm with (hskip | ⟨i, hi, hstarts⟩) | ⟨htiming, hends, hopened⟩
      · exact .inl (.inl hskip)
      · exact .inl (.inr ⟨i, hlater.kept i hi, hstarts⟩)
      · exact .inr ⟨htiming, hends.trans hsame.nextBillOn.symm,
          hsame.currentPeriodStart.trans hopened⟩
    · exact fun job hjob => (h.jobs job hjob).later hlater
  | @commit n w job c hjob hresume hn =>
    exact h.resume n hjob (fun hcontract => honce hcontract job hn) hresume
  | @fail n w job hjob =>
    refine { h with jobs := ?_ }
    intro job' hjob'
    rcases mem_jobs_replaceJob hjob' with hjob' | hnext
    · exact h.jobs job' hjob'
    · cases job with
      | bookkeeping after =>
        obtain ⟨run, -, rfl⟩ := Option.map_eq_some_iff.mp hnext
        trivial
      | _ => cases hnext

theorem billingInvariant_start (h : s.Recorded) : BillingInvariant (start s) := by
  have hmoves : ∀ m ∈ (start s).moves, s.timingOn s.nextBillOn = .arrears ∧
      m.timing = .arrears ∧ m.endsOn = s.nextBillOn ∧
      s.currentPeriodStart = some m.startsOn := by
    intro m hm
    simp only [start] at hm
    split at hm
    · rename_i htiming hopened
      obtain rfl := mem_singleton.mp hm
      exact ⟨htiming, rfl, rfl, hopened⟩
    · cases hm
  refine ⟨h, ?_, ?_, ?_, by simp [start]⟩
  · intro hplain m hm
    have htiming := (hmoves m hm).1
    have hnone : s.lifecycle = none := hplain
    simp [Subscription.timingOn, hnone] at htiming
  · exact fun m hm => (hmoves m hm).2.2.1.le
  · exact fun m hm => .inr (hmoves m hm).2

theorem BillingInvariant.run (h : BillingInvariant sys)
    {actions : List (BillingAction × Surroundings)}
    (honce : EachStep BillsOnce sys actions) (n : ℕ) :
    BillingInvariant (sys.run (actions.take n)) := by
  induction actions generalizing sys n with
  | nil => simpa using h
  | cons a actions ih =>
    obtain ⟨hnow, hrest⟩ := honce
    cases n with
    | zero => exact h
    | succ n => exact ih (h.step hnow) hrest n

/-- **One invoice per period, as long as every step bills once.** In any run of ticks,
bill-now requests, catch-up runs, renewals and amendments – overlapping, failing or dying –
whose steps all bill once, every state reached has each period invoiced at most once and none
passed unaccounted. -/
theorem oneInvoicePerPeriod_of_billsOnce {s : Subscription} (hs : s.Recorded)
    {actions : List (BillingAction × Surroundings)}
    (honce : EachStep BillsOnce (start s) actions) (n : ℕ) :
    OneInvoicePerPeriod ((start s).run (actions.take n)) :=
  ((billingInvariant_start hs).run honce n).oneInvoicePerPeriod

/-- A run: two bill-now requests at once, then the ticks of two months. -/
def billNowThenTicks : List (BillingAction × Surroundings) :=
  (.billNow, {}) :: (.billNow, {}) :: (.resume 0, {}) :: (.resume 0, {}) :: (.resume 0, {}) ::
    (tickOn (civilDay 2024 1 15) ++ tickOn (civilDay 2024 2 15))

/-- A contract billed now, twice, and then by two ticks. -/
theorem oneInvoicePerPeriod_billNow_then_ticks :
    ∃ activated,
      activateLifecycle januarySubscription (januaryContract 15 none) = .ok activated ∧
        ∀ n, OneInvoicePerPeriod
          ((start activated).run (billNowThenTicks.take n)) := by
  obtain ⟨activated, hactivated, hrun⟩ := exists_of_any
    (x := activateLifecycle januarySubscription (januaryContract 15 none))
    (p := fun activated => decide (activated.invoices = [] ∧ EachStep BillsOnce
      (start activated) billNowThenTicks)) (by decide +kernel)
  obtain ⟨hempty, honce⟩ := of_decide_eq_true hrun
  have hrecorded : activated.Recorded := ⟨by rw [hempty]; exact .nil, by simp [hempty]⟩
  exact ⟨activated, hactivated, oneInvoicePerPeriod_of_billsOnce hrecorded honce⟩

/-- A run: a month's tick, then a bill-now on the next bill date and the tick that renews the
term first. -/
def billNowBeforeRenewal : List (BillingAction × Surroundings) :=
  (tickOn (civilDay 2024 1 15)).append
    [(.billNow, {}), (.resume 0, {}), (.tick (civilDay 2024 2 15), {}), (.resume 1, {}),
      (.resume 1, {}), (.resume 1, {})]

/-- A contract whose term ends on 15 February is billed now on that day, and then by the tick
that renews the term first: the same period, under two revisions. -/
theorem not_oneInvoicePerPeriod_billNow_before_renewal :
    ¬∀ (s : Subscription) (actions : List (BillingAction × Surroundings)), s.Recorded →
      OneInvoicePerPeriod ((start s).run actions) := by
  intro hclaim
  obtain ⟨activated, -, hrun⟩ := exists_of_any
    (x := activateLifecycle januarySubscription (januaryContract 15 (some (civilDay 2024 2 15))))
    (p := fun activated => decide (activated.invoices = [] ∧
      ¬((start activated).run billNowBeforeRenewal).sub.invoices.Pairwise
        fun i j : PeriodInvoice => i.window ≠ j.window))
    (by decide +kernel)
  obtain ⟨hempty, hbroken⟩ := of_decide_eq_true hrun
  exact hbroken (hclaim activated _ ⟨by rw [hempty]; exact .nil, by simp [hempty]⟩).distinct

/-! ### What is recorded stays -/

/-- No two invoices are recorded under one key. -/
def Subscription.KeysOnce (s : Subscription) : Prop :=
  s.invoices.Pairwise fun i j => i.window = j.window → i.contractRevision ≠ j.contractRevision

/-- How billing changes a subscription: invoices are only added, under keys that are new, the
cursor never goes back, and a plain subscription stays plain. -/
structure Subscription.Keeps (s s' : Subscription) : Prop where
  plain : s'.lifecycle = none ↔ s.lifecycle = none
  recorded : s.invoices <+: s'.invoices
  once : s.KeysOnce → s'.KeysOnce
  cursor : s.nextBillOn ≤ s'.nextBillOn

theorem Subscription.Keeps.of_invoices (hplain : s'.lifecycle = none ↔ s.lifecycle = none)
    (hinv : s'.invoices = s.invoices) (hcursor : s.nextBillOn ≤ s'.nextBillOn) : s.Keeps s' := by
  refine ⟨hplain, hinv ▸ prefix_rfl, fun honce => ?_, hcursor⟩
  rwa [KeysOnce, hinv]

theorem Subscription.Keeps.refl (s : Subscription) : s.Keeps s :=
  .of_invoices Iff.rfl rfl le_rfl

theorem Subscription.Keeps.trans {s s' s'' : Subscription} (h : s.Keeps s') (h' : s'.Keeps s'') :
    s.Keeps s'' :=
  ⟨h'.plain.trans h.plain, h.recorded.trans h'.recorded, h'.once ∘ h.once,
    h.cursor.trans h'.cursor⟩

theorem Subscription.SameCursor.keeps (h : s.SameCursor s') : s.Keeps s' :=
  .of_invoices h.later.plain h.invoices h.nextBillOn.ge

/-- A cursor is only moved forward: the row's own check holds the old date against the new. -/
theorem setCursor_keeps {advanced : CivilDate}
    (h : s.setCursor advanced (some s.nextBillOn) = .ok claimed) : s.Keeps claimed := by
  obtain ⟨-, hstart, -, -, hlife, hinv, -⟩ := Subscription.setCursor_eq_ok h
  exact .of_invoices (by rw [hlife]) hinv (claimed.period_valid.2 _ hstart).2

theorem billOne_keeps {billingDate : CivilDate} {periodStartOverride : Option CivilDate}
    {result : Subscription × Bool} (h : billOne s billingDate periodStartOverride w = .ok result) :
    s.Keeps result.1 := by
  obtain ⟨key, -, hrecords, hlife, hnext, -⟩ := billOne_records h
  rcases hrecords with ⟨hinv, -⟩ | ⟨i, ⟨hstarts, hends, hrevision⟩, hnone, hinv⟩
  · exact .of_invoices (by rw [hlife]) hinv hnext.ge
  · refine ⟨by rw [hlife], hinv ▸ prefix_append _ _, fun honce => ?_, hnext.ge⟩
    rw [Subscription.KeysOnce, hinv]
    refine pairwise_append.mpr ⟨honce, pairwise_singleton _ _, ?_⟩
    rintro j hj i' hi' hwindow hsame
    obtain rfl := mem_singleton.mp hi'
    obtain ⟨hstarts', hends'⟩ := Prod.ext_iff.mp hwindow
    exact hnone j hj ⟨hstarts'.trans hstarts, hends'.trans hends, hsame.trans hrevision⟩

theorem claimAndBill_keeps {periodStart : Option CivilDate} {after : Option CatchUpRun}
    {c : Committed} (h : claimAndBill s row periodStart w after = .ok c) : s.Keeps c.sub := by
  obtain rfl | ⟨claimed, billed, -, hset, hbill, rfl⟩ := claimAndBill_cases h
  · exact .refl s
  · exact (setCursor_keeps hset).trans (billOne_keeps hbill)

theorem resume_keeps {c : Committed} (h : job.resume s w = .ok c) : s.Keeps c.sub := by
  cases job with
  | tickDue row =>
    cases h
    exact .refl s
  | tickRenewing row request =>
    simp only [Job.resume, bind_eq_ok, pure_eq_ok] at h
    obtain ⟨renewed, hrenewed, rfl⟩ := h
    exact (sameCursor_applyAmendment hrenewed).keeps
  | tickPrepared row => exact claimAndBill_keeps h
  | billNow nextBillOn currentPeriodStart =>
    simp only [Job.resume, bind_eq_ok, pure_eq_ok] at h
    obtain ⟨billed, hbill, rfl⟩ := h
    exact billOne_keeps hbill
  | bookkeeping after =>
    cases h
    exact .of_invoices Iff.rfl rfl le_rfl
  | catchUp run =>
    simp only [Job.resume, bind_eq_ok, pure_eq_ok] at h
    obtain ⟨next, -, rfl⟩ := h
    exact .refl s
  | catchUpLook run row =>
    simp only [Job.resume] at h
    split_ifs at h <;> cases h <;> exact .refl s
  | catchUpPast run row skipping =>
    simp only [Job.resume, advancePast, bind_eq_ok] at h
    obtain ⟨claimed, hclaim, h⟩ := h
    cases claimed with
    | none =>
      obtain rfl := pure_eq_ok.mp h
      exact .refl s
    | some moved =>
      obtain rfl := pure_eq_ok.mp h
      exact setCursor_keeps (claim_eq_some hclaim).2
  | catchUpClaim run row => exact claimAndBill_keeps h

theorem step_keeps (sys : BillingSystem) (a : BillingAction × Surroundings) :
    sys.sub.Keeps (sys.step a).sub := by
  have hstep := stepsTo_step sys a
  generalize sys.step a = sys' at hstep ⊢
  cases hstep with
  | idle | tick | billNow | catchUp | fail => exact .refl _
  | amend hamended => exact (sameCursor_applyAmendment hamended).keeps
  | commit hjob hresume => exact resume_keeps hresume

/-- **What is recorded stays**, whatever runs, overlaps, fails or dies, of a contract too: the
invoices of a state are the first ones of every later state, a key is recorded once, and the cursor
never goes back. -/
theorem run_keeps (sys : BillingSystem) (actions : List (BillingAction × Surroundings)) :
    sys.sub.Keeps (sys.run actions).sub := by
  induction actions generalizing sys with
  | nil => exact .refl _
  | cons a actions ih => exact (step_keeps sys a).trans (ih (sys.step a))

/-! ### Plain subscriptions -/

theorem eachStep_billsOnce_of_plain (actions : List (BillingAction × Surroundings))
    (sys : BillingSystem) (hplain : sys.sub.lifecycle = none) :
    EachStep BillsOnce sys actions := by
  induction actions generalizing sys with
  | nil => trivial
  | cons a actions ih =>
    have hnow : BillsOnce sys a := by
      unfold BillsOnce
      split
      · exact fun hcontract => absurd hplain hcontract
      · trivial
    exact ⟨hnow, ih _ ((step_keeps sys a).plain.mpr hplain)⟩

/-- **A plain subscription keeps the promise in every run.** -/
theorem oneInvoicePerPeriod_of_plain (hs : s.Recorded) (hplain : s.lifecycle = none)
    (actions : List (BillingAction × Surroundings)) :
    OneInvoicePerPeriod ((start s).run actions) := by
  have honce := eachStep_billsOnce_of_plain actions (start s) hplain
  have h := ((billingInvariant_start hs).run honce actions.length).oneInvoicePerPeriod
  rwa [List.take_length] at h

theorem oneInvoicePerPeriod_of_plain_january :
    OneInvoicePerPeriod ((start januarySubscription).run billNowThenTicks) :=
  oneInvoicePerPeriod_of_plain ⟨.nil, fun _ _ hi => by cases hi⟩ rfl billNowThenTicks

end OpenBooks
