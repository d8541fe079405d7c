import Mathlib.Algebra.Order.BigOperators.GroupWithZero.List
import OpenBooks.Equity.CapTable
import OpenBooks.Lib.Thinning
import OpenBooks.Lib.VestedPool

/-!
# Histories of a holding

A replay is a history of draws on a pool that vests: the units a security was issued for, less
what its events removed from the tail, with the units they used at the head
(`Equity.replay_fits`). The code computes on fractions that are refused beyond a size,
so each of its steps either gives the numbers of the pool or is refused for the size of a fraction;
and an event is refused as too large just when the pool does not allow its draw.

Undoing events leaves draws out of the history, and what is left of the pool then dominates what
was left before (`Equity.undoing_history_is_safe`).
-/

namespace OpenBooks.Equity

open Checked VestedPool List

/-! ### Computations on fractions -/

/-- The computation is refused for the size of a fraction, or has a property. -/
def Fits {β : Type} (y : Except HoldingError β) (P : Except HoldingError β → Prop) : Prop :=
  y = .error (.exact .limit) ∨ P y

/-- The computation gives the number, or is refused for the size of a fraction. -/
def Gives (x : Except HoldingError Rational) (q : ℚ) : Prop :=
  Fits x fun y => ∃ r, y = .ok r ∧ r.Is q

variable {β : Type} {x : Except HoldingError Rational} {q : ℚ}
  {P : Except HoldingError β → Prop} {f : Rational → Except HoldingError β}

theorem gives_exact {x : Except RationalError Rational} (h : Rational.Computes x q) :
    Gives (exact x) q := by
  rcases h with rfl | ⟨r, rfl, hr⟩
  · exact Or.inl rfl
  · exact Or.inr ⟨r, rfl, hr⟩

theorem gives_ok {r : Rational} (h : r.Is q) : Gives (.ok r) q := Or.inr ⟨r, rfl, h⟩

/-- The rule of sequence. -/
theorem Gives.bind (h : Gives x q) (hf : ∀ r, r.Is q → Fits (f r) P) : Fits (x >>= f) P := by
  rcases h with rfl | ⟨r, rfl, hr⟩
  · exact Or.inl rfl
  · exact hf r hr

theorem Gives.bind_gives {p : ℚ} {f : Rational → Except HoldingError Rational} (h : Gives x q)
    (hf : ∀ r, r.Is q → Gives (f r) p) : Gives (x >>= f) p :=
  h.bind hf

theorem is_zero : ZERO.Is 0 := ⟨by decide, by simp [ZERO, Rational.toRat]⟩

theorem is_one : ONE.Is 1 := ⟨by decide, by simp [ONE, Rational.toRat]⟩

/-! ### Splits -/

def SplitRecord.ratio (split : SplitRecord) : ℚ := split.ratioNumerator / split.ratioDenominator

theorem SplitRecord.ratio_pos (split : SplitRecord) : 0 < split.ratio :=
  div_pos (Int.cast_pos.mpr split.ratioNumerator_pos) (Int.cast_pos.mpr split.ratioDenominator_pos)

/-- The product of the ratios of a class's splits after one day and up to another. -/
def splitRatio (splits : List SplitRecord) (shareClassId : String) (after through : CivilDate) :
    ℚ :=
  ((splits.filter fun split => split.shareClassId = shareClassId ∧ after < split.effectiveOn ∧
    split.effectiveOn ≤ through).map SplitRecord.ratio).prod

variable (splits : List SplitRecord)

theorem splitRatio_pos (shareClassId : String) (after through : CivilDate) :
    0 < splitRatio splits shareClassId after through :=
  prod_pos fun ratio hratio => by
    obtain ⟨split, -, rfl⟩ := mem_map.mp hratio
    exact split.ratio_pos

variable {factor : Rational}

theorem computes_foldlM_ratio {q : ℚ} (h : factor.Is q) :
    Rational.Computes (splits.foldlM (fun factor split => do
      let ratio ← rational split.ratioNumerator split.ratioDenominator
      multiplyRational factor ratio) factor) (q * (splits.map SplitRecord.ratio).prod) := by
  induction splits generalizing factor q with
  | nil => exact Or.inr ⟨factor, rfl, by rwa [map_nil, prod_nil, mul_one]⟩
  | cons split splits ih =>
    rw [foldlM_cons, map_cons, prod_cons, ← mul_assoc]
    rcases computes_rational split.ratioNumerator split.ratioDenominator_pos.ne' with
      hratio | ⟨ratio, hratio, his⟩
    · rw [hratio]
      exact Or.inl rfl
    · rw [hratio, ok_bind]
      rcases computes_multiply h his with hproduct | ⟨product, hproduct, his'⟩
      · rw [hproduct]
        exact Or.inl rfl
      · rw [hproduct, ok_bind]
        exact ih his'

theorem computes_splitFactor (shareClassId : String) (after through : CivilDate) :
    Rational.Computes (splitFactor splits shareClassId after through)
      (splitRatio splits shareClassId after through) :=
  (computes_foldlM_ratio _ is_one).congr (one_mul _)

/-! ### The vesting line -/

/-- The units of issue. -/
def issued (security : SecurityRecord) : ℚ := (security.quantity.getD 0 : ℕ)

/-- The vesting line on a day: what the schedule has vested by then. -/
def lineOn (security : SecurityRecord) (date : CivilDate) : ℚ :=
  if hasVestingSchedule (vestingTermsOf security) then
    ((scheduledVested (vestingTermsOf security) date).toOption.getD 0 : ℤ)
  else issued security

variable {security : SecurityRecord} {total : Rational}

theorem gives_vestedAt (htotal : total.Is (issued security)) {tailRemoved : Rational} {t : ℚ}
    (ht : tailRemoved.Is t) (date : CivilDate) :
    Gives (vestedAt security total tailRemoved date)
      (min (lineOn security date) (issued security - t)) := by
  refine (gives_exact (computes_subtract htotal ht)).bind_gives fun live hlive => ?_
  unfold lineOn
  split_ifs with hscheduled
  · rcases hvested : scheduledVested (vestingTermsOf security) date with e | vested
    · obtain rfl := scheduledVested_error hvested
      exact Or.inl rfl
    · rw [exact, mapError_ok, ok_bind]
      refine (gives_exact (computes_whole vested)).bind_gives fun sched hsched => ?_
      exact gives_ok (is_minRational hsched hlive)
  · exact gives_ok (is_minRational htotal hlive)

theorem gives_availableOf {vested vestedUsed : Rational} {v u : ℚ} (hv : vested.Is v)
    (hu : vestedUsed.Is u) : Gives (availableOf vested vestedUsed) (max (v - u) 0) := by
  unfold availableOf
  split_ifs with h
  · have hlt := (compareRational_pos_iff hv hu).mp h
    rw [max_eq_left (sub_nonneg.mpr hlt.le)]
    exact gives_exact (computes_subtract hv hu)
  · have hle := not_lt.mp fun hlt => h ((compareRational_pos_iff hv hu).mpr hlt)
    rw [max_eq_right (sub_nonpos.mpr hle)]
    exact gives_ok is_zero

/-! ### Events as draws -/

/-- What an event of a kind may take. -/
def reachOf (security : SecurityRecord) : ConsumedKind → Reach
  | .exercise => if earlyExercise security then .ahead else .vested
  | .settle => .vested
  | .expire => .vested
  | .transfer => .vested
  | .convert => .vested
  | .forfeit => .tail
  | .cancel => .either
  | .repurchase => .either

/-- The draw of an event, if it has a share count. -/
def drawOf (splits : List SplitRecord) (classId : String) (security : SecurityRecord)
    (event : SecurityEventRecord) : Option (Draw ℚ) := do
  let quantity ← event.quantity
  let kind ← event.kind.consumed
  return ⟨reachOf security kind, lineOn security event.effectiveOn,
    quantity / splitRatio splits classId security.issueDate event.effectiveOn⟩

variable {splits : List SplitRecord} {classId : String} {event : SecurityEventRecord}
  {state : ReplayState} {p : VestingPool ℚ} {d : Draw ℚ}

theorem drawOf_nonneg (h : drawOf splits classId security event = some d) : 0 ≤ d.amount := by
  simp only [drawOf, Option.bind_eq_bind, Option.bind_eq_some_iff] at h
  obtain ⟨quantity, -, kind, -, h⟩ := h
  obtain rfl := Option.some.inj h
  exact div_nonneg (Nat.cast_nonneg _) (splitRatio_pos _ _ _ _).le

structure Tracks (security : SecurityRecord) (state : ReplayState) (p : VestingPool ℚ) : Prop where
  tailRemoved : state.tailRemoved.Is (issued security - p.live)
  vestedUsed : state.vestedUsed.Is p.used
  consumed : ∀ kind, ∃ q, (state.consumed kind).Is q
  lastReducing : ∀ status, state.lastReducing = some status →
    ∃ kind : ConsumedKind, kind.status = status

/-- An event is refused as too large. -/
def Exceeded (y : Except HoldingError β) : Prop :=
  ∃ kind quantity date securityNumber,
    y = .error (.holdingEventExceeded kind quantity date securityNumber)

theorem Exceeded.bind {γ : Type} {y : Except HoldingError γ} (h : Exceeded y)
    (f : γ → Except HoldingError β) : Exceeded (y >>= f) := by
  obtain ⟨kind, quantity, date, number, rfl⟩ := h
  exact ⟨kind, quantity, date, number, rfl⟩

variable {issueUnits : Rational} {amount : ℚ} {available : Rational}

theorem overAvailable_bind {limit : ℚ} (hunits : issueUnits.Is amount)
    (havailable : available.Is limit) {f : Except HoldingError β}
    {P : Except HoldingError β → Prop} (hover : ∀ y, limit < amount → Exceeded y → P y)
    (hwithin : amount ≤ limit → Fits f P) :
    Fits (overAvailable security event issueUnits available >>= fun _ => f) P := by
  unfold overAvailable refuseIf
  split_ifs with h
  · exact Or.inr (hover _ ((compareRational_pos_iff hunits havailable).mp h) ⟨_, _, _, _, rfl⟩)
  · exact hwithin (not_lt.mp fun hlt => h ((compareRational_pos_iff hunits havailable).mpr hlt))

/-- What a draw of a pool comes to in the code: units removed from the tail and units used. -/
def DrawTaken (security : SecurityRecord) (p : VestingPool ℚ) (reach : Reach) (line amount : ℚ)
    (y : Except HoldingError (Rational × Rational)) : Prop :=
  (∃ h : amount ≤ p.limit reach line, ∃ tailRemoved vestedUsed : Rational,
    y = .ok (tailRemoved, vestedUsed) ∧
      tailRemoved.Is (issued security - (p.draw reach line amount h).live) ∧
      vestedUsed.Is (p.draw reach line amount h).used) ∨
  (p.limit reach line < amount ∧ Exceeded y)

variable {line : ℚ}

/-- A draw on vested units or on units ahead uses what it draws. -/
theorem use_fits {reach : Reach} (hreach : ∀ line amount, p.fromTail reach line amount = 0)
    (htracks : Tracks security state p) (hunits : issueUnits.Is amount)
    (havailable : available.Is (p.limit reach line)) :
    Fits (do
      overAvailable security event issueUnits available
      let vestedUsed ← exact (addRational state.vestedUsed issueUnits)
      return (state.tailRemoved, vestedUsed)) (DrawTaken security p reach line amount) := by
  refine overAvailable_bind hunits havailable (fun y hlt hy => Or.inr ⟨hlt, hy⟩) fun hle => ?_
  refine (gives_exact (computes_add htracks.vestedUsed hunits)).bind fun used hused => ?_
  refine Or.inr (Or.inl ⟨hle, state.tailRemoved, used, rfl, ?_, ?_⟩)
  · simpa [VestingPool.draw, hreach] using htracks.tailRemoved
  · simpa [VestingPool.draw, hreach] using hused

variable {unvested : Rational}

theorem tail_fits (htracks : Tracks security state p) (hunits : issueUnits.Is amount)
    (hunvested : unvested.Is (p.unvested line)) :
    Fits (do
      overAvailable security event issueUnits unvested
      let tailRemoved ← exact (addRational state.tailRemoved issueUnits)
      return (tailRemoved, state.vestedUsed)) (DrawTaken security p .tail line amount) := by
  refine overAvailable_bind hunits hunvested (fun y hlt hy => Or.inr ⟨hlt, hy⟩) fun hle => ?_
  refine (gives_exact (computes_add htracks.tailRemoved hunits)).bind fun tail htail => ?_
  refine Or.inr (Or.inl ⟨hle, tail, state.vestedUsed, rfl, ?_, ?_⟩)
  · have hsum : issued security - (p.draw .tail line amount hle).live =
        issued security - p.live + amount := by
      simp only [VestingPool.draw, VestingPool.fromTail]
      ring
    rw [hsum]
    exact htail
  · simpa [VestingPool.draw, VestingPool.fromTail] using htracks.vestedUsed

variable {vestedAvailable : Rational}

/-- A draw on both ends takes unvested units first. -/
theorem either_fits (htracks : Tracks security state p) (hunits : issueUnits.Is amount)
    (havailable : vestedAvailable.Is (p.available line))
    (hunvested : unvested.Is (p.unvested line)) :
    Fits (do
      let available ← exact (addRational unvested vestedAvailable)
      overAvailable security event issueUnits available
      let fromUnvested := minRational issueUnits unvested
      let tailRemoved ← exact (addRational state.tailRemoved fromUnvested)
      let rest ← exact (subtractRational issueUnits fromUnvested)
      let vestedUsed ← exact (addRational state.vestedUsed rest)
      return (tailRemoved, vestedUsed)) (DrawTaken security p .either line amount) := by
  have hall : p.unvested line + p.available line = p.limit .either line := by
    unfold VestingPool.unvested VestingPool.limit
    ring
  refine (gives_exact (computes_add hunvested havailable)).bind fun available hboth => ?_
  rw [hall] at hboth
  refine overAvailable_bind hunits hboth (fun y hlt hy => Or.inr ⟨hlt, hy⟩) fun hle => ?_
  have hmin := is_minRational hunits hunvested
  refine (gives_exact (computes_add htracks.tailRemoved hmin)).bind fun tail htail => ?_
  refine (gives_exact (computes_subtract hunits hmin)).bind fun rest hrest => ?_
  refine (gives_exact (computes_add htracks.vestedUsed hrest)).bind fun used hused => ?_
  refine Or.inr (Or.inl ⟨hle, tail, used, rfl, ?_, hused⟩)
  have hsum : issued security - (p.draw .either line amount hle).live =
      issued security - p.live + min amount (p.unvested line) := by
    simp only [VestingPool.draw, VestingPool.fromTail]
    ring
  rw [hsum]
  exact htail

/-- **One event takes the draw of its pool.** -/
theorem takeUnits_fits {kind : ConsumedKind} (hkind : event.kind.consumed = some kind)
    (htracks : Tracks security state p) {live : Rational} (hunits : issueUnits.Is amount)
    (hlive : live.Is p.live) (havailable : vestedAvailable.Is (p.available line))
    (hunvested : unvested.Is (p.unvested line)) :
    Fits (takeUnits security event state issueUnits live vestedAvailable unvested)
      (DrawTaken security p (reachOf security kind) line amount) := by
  unfold takeUnits
  generalize event.kind = held at hkind ⊢
  cases held with
  | exercise =>
    cases hkind
    simp only [reachOf]
    split_ifs with hearly
    · refine (gives_exact (computes_subtract hlive htracks.vestedUsed)).bind fun unused hunused =>
        ?_
      exact use_fits (fun _ _ => rfl) htracks hunits hunused
    · exact use_fits (fun _ _ => rfl) htracks hunits havailable
  | settle | expire | transfer | convert =>
    cases hkind
    exact use_fits (fun _ _ => rfl) htracks hunits havailable
  | forfeit =>
    cases hkind
    exact tail_fits htracks hunits hunvested
  | cancel | repurchase =>
    cases hkind
    exact either_fits htracks hunits havailable hunvested
  | void | repay | reverse | election83b => cases hkind

theorem computes_natCast (n : ℕ) : Rational.Computes (rational n 1) n :=
  (computes_whole n).congr (Int.cast_natCast n)

/-- **One event is one draw**: it is made if the pool allows it, and refused as too large if
not. -/
theorem replayEvent_fits (hdraw : drawOf splits classId security event = some d)
    (htotal : total.Is (issued security)) (htracks : Tracks security state p) :
    Fits (replayEvent splits security classId total state event) fun y =>
      (∃ h : d.amount ≤ p.limit d.reach d.line, ∃ state', y = .ok state' ∧
        Tracks security state' (p.draw d.reach d.line d.amount h)) ∨
      (p.limit d.reach d.line < d.amount ∧ Exceeded y) := by
  simp only [drawOf, Option.bind_eq_bind, Option.bind_eq_some_iff] at hdraw
  obtain ⟨quantity, hquantity, kind, hkind, hd⟩ := hdraw
  obtain rfl := Option.some.inj hd
  unfold replayEvent
  rw [hquantity, hkind]
  refine (gives_exact (computes_natCast quantity)).bind fun stated hstated => ?_
  refine (gives_exact (computes_splitFactor _ _ _ _)).bind fun factor hfactor => ?_
  refine (gives_exact (computes_divide hstated hfactor (splitRatio_pos _ _ _ _).ne')).bind
    fun issueUnits hunits => ?_
  refine (gives_exact (computes_subtract htotal htracks.tailRemoved)).bind fun live hlive => ?_
  rw [sub_sub_cancel] at hlive
  refine (gives_vestedAt htotal htracks.tailRemoved event.effectiveOn).bind fun vested hvested => ?_
  rw [sub_sub_cancel] at hvested
  refine (gives_availableOf hvested htracks.vestedUsed).bind fun available havailable => ?_
  refine (gives_exact (computes_subtract hlive htracks.vestedUsed)).bind fun unused hunused => ?_
  refine (gives_exact (computes_subtract hunused havailable)).bind fun unvested hunvested => ?_
  have htaken := takeUnits_fits hkind htracks hunits hlive havailable hunvested
  rcases htaken with hlimit | ⟨hle, tail, used, htaken, htail, hused⟩ | ⟨hlt, hexceeded⟩
  · rw [hlimit]
    exact Or.inl rfl
  · rw [htaken, ok_bind]
    obtain ⟨before, hbefore⟩ := htracks.consumed kind
    refine (gives_exact (computes_add hbefore hunits)).bind fun consumed hconsumed => ?_
    refine Or.inr (Or.inl ⟨hle, _, rfl, htail, hused, fun other => ?_, fun status hstatus =>
      ⟨kind, Option.some.inj hstatus⟩⟩)
    dsimp only
    rcases eq_or_ne other kind with rfl | hne
    · rw [Function.update_self]
      exact ⟨_, hconsumed⟩
    · rw [Function.update_of_ne hne]
      exact htracks.consumed other
  · exact Or.inr (Or.inr ⟨hlt, hexceeded.bind _⟩)

theorem drawOf_isSome_of_replayEvent {state' : ReplayState}
    (h : replayEvent splits security classId total state event = .ok state') :
    (drawOf splits classId security event).isSome := by
  simp only [replayEvent, bind_eq_ok, orRefuse_eq_ok] at h
  obtain ⟨quantity, hquantity, _, -, _, -, _, -, _, -, _, -, _, -, _, -, _, -, _, -, kind, hkind,
    -⟩ := h
  simp [drawOf, hquantity, hkind]

/-! ### Replays as histories -/

/-- The events before a void. -/
def activeEvents (events : List SecurityEventRecord) : List SecurityEventRecord :=
  events.takeWhile fun event => event.kind ≠ .void

def drawsOf (splits : List SplitRecord) (classId : String) (security : SecurityRecord)
    (events : List SecurityEventRecord) : List (Draw ℚ) :=
  (activeEvents events).filterMap (drawOf splits classId security)

def voids (events : List SecurityEventRecord) : Bool := events.any fun event => event.kind = .void

variable {events : List SecurityEventRecord}

/-- **A replay is a history of draws.** -/
theorem replay_fits
    (hdraws : ∀ event ∈ activeEvents events, (drawOf splits classId security event).isSome)
    (htotal : total.Is (issued security)) (htracks : Tracks security state p) :
    Fits (replay splits security classId total events state) fun y =>
      (∃ q state', run p (drawsOf splits classId security events) = some q ∧
        y = .ok (state', voids events) ∧ Tracks security state' q) ∨
      (run p (drawsOf splits classId security events) = none ∧ Exceeded y) := by
  induction events generalizing state p with
  | nil => exact Or.inr (Or.inl ⟨p, state, rfl, rfl, htracks⟩)
  | cons event events ih =>
    by_cases hvoid : event.kind = .void
    · have hnone : drawsOf splits classId security (event :: events) = [] := by
        simp [drawsOf, activeEvents, hvoid]
      have hvoids : voids (event :: events) = true := by simp [voids, hvoid]
      rw [replay, if_pos hvoid, hnone, hvoids]
      exact Or.inr (Or.inl ⟨p, state, rfl, rfl, htracks⟩)
    · have hactive : activeEvents (event :: events) = event :: activeEvents events := by
        simp [activeEvents, hvoid]
      have hvoids : voids (event :: events) = voids events := by simp [voids, hvoid]
      rw [hactive] at hdraws
      obtain ⟨d, hd⟩ := Option.isSome_iff_exists.mp (hdraws event mem_cons_self)
      have hcons : drawsOf splits classId security (event :: events) =
          d :: drawsOf splits classId security events := by
        rw [drawsOf, hactive, filterMap_cons_some hd]
        rfl
      rw [replay, if_neg hvoid, hcons, hvoids]
      rcases replayEvent_fits hd htotal htracks with hlimit | ⟨hle, state', hstate', htracks'⟩ |
        ⟨hlt, hexceeded⟩
      · rw [hlimit]
        exact Or.inl rfl
      · rw [hstate', ok_bind, run_cons_of_le hle]
        exact ih (fun event' hevent' => hdraws event' (mem_cons_of_mem _ hevent')) htracks'
      · rw [run_cons_of_lt hlt]
        exact Or.inr (Or.inr ⟨rfl, hexceeded.bind _⟩)

theorem isSome_of_replay {r : ReplayState × Bool}
    (h : replay splits security classId total events state = .ok r) :
    ∀ event ∈ activeEvents events, (drawOf splits classId security event).isSome := by
  induction events generalizing state with
  | nil => simp [activeEvents]
  | cons event events ih =>
    by_cases hvoid : event.kind = .void
    · simp [activeEvents, hvoid]
    · have hactive : activeEvents (event :: events) = event :: activeEvents events := by
        simp [activeEvents, hvoid]
      rw [replay, if_neg hvoid] at h
      obtain ⟨state', hstate', hrest⟩ := bind_eq_ok.mp h
      rw [hactive]
      intro event' hevent'
      rcases mem_cons.mp hevent' with rfl | hevent'
      · exact drawOf_isSome_of_replayEvent hstate'
      · exact ih hrest event' hevent'

/-! ### The state of a holding -/

def issuePool (security : SecurityRecord) : VestingPool ℚ where
  live := issued security
  used := 0
  used_le := Nat.cast_nonneg _

theorem tracks_issuePool (security : SecurityRecord) :
    Tracks security ⟨ZERO, ZERO, fun _ => ZERO, none⟩ (issuePool security) where
  tailRemoved := by
    rw [issuePool, sub_self]
    exact is_zero
  vestedUsed := is_zero
  consumed := fun _ => ⟨0, is_zero⟩
  lastReducing := fun _ h => by cases h

/-- A state shows a pool: its exact amounts are those of the pool on the day, and its whole shares
are counts. -/
structure Shows (security : SecurityRecord) (asOf : CivilDate) (s : HoldingState)
    (p : VestingPool ℚ) :
    Prop where
  live : s.status ≠ .void ∧ s.status ≠ .notIssued
  outstanding : s.exact.outstanding.Is p.outstanding
  vestedAvailable : s.exact.vestedAvailable.Is (p.available (lineOn security asOf))
  unvested : s.exact.unvested.Is (p.unvested (lineOn security asOf))
  whole : 0 ≤ s.outstanding ∧ 0 ≤ s.vestedAvailable ∧ 0 ≤ s.unvested

theorem ConsumedKind.status_live (kind : ConsumedKind) :
    kind.status ≠ .void ∧ kind.status ≠ .notIssued := by
  cases kind <;> exact ⟨by decide, by decide⟩

theorem restate_bind {units : Rational} {r q : ℚ} (hfactor : factor.Is r) (hunits : units.Is q)
    {f : ℤ → Except HoldingError β} (hf : ∀ n, n = ⌊q * r⌋ → Fits (f n) P) :
    Fits (restate factor units >>= f) P := by
  unfold restate
  rw [bind_assoc]
  exact (gives_exact (computes_multiply hunits hfactor)).bind fun restated hrestated =>
    hf _ (floorShares_eq hrestated)

theorem restateConsumed_bind {r : ℚ} (hfactor : factor.Is r) {consumed : ConsumedKind → Rational}
    (hconsumed : ∀ kind, ∃ q, (consumed kind).Is q)
    {f : (ConsumedKind → ℤ) → Except HoldingError β} (hf : ∀ restated, Fits (f restated) P) :
    Fits (restateConsumed factor consumed >>= f) P := by
  unfold restateConsumed
  simp only [bind_assoc, pure_bind]
  obtain ⟨_, h₁⟩ := hconsumed .exercise
  obtain ⟨_, h₂⟩ := hconsumed .settle
  obtain ⟨_, h₃⟩ := hconsumed .forfeit
  obtain ⟨_, h₄⟩ := hconsumed .expire
  obtain ⟨_, h₅⟩ := hconsumed .cancel
  obtain ⟨_, h₆⟩ := hconsumed .repurchase
  obtain ⟨_, h₇⟩ := hconsumed .transfer
  obtain ⟨_, h₈⟩ := hconsumed .convert
  refine restate_bind hfactor h₁ fun _ _ => restate_bind hfactor h₂ fun _ _ => ?_
  refine restate_bind hfactor h₃ fun _ _ => restate_bind hfactor h₄ fun _ _ => ?_
  refine restate_bind hfactor h₅ fun _ _ => restate_bind hfactor h₆ fun _ _ => ?_
  exact restate_bind hfactor h₇ fun _ _ => restate_bind hfactor h₈ fun _ _ => hf _

theorem liveState_fits {r : ℚ} (hfactor : factor.Is r) (hr : 0 ≤ r)
    (htotal : total.Is (issued security)) (htracks : Tracks security state p) (asOf : CivilDate) :
    Fits (liveState security asOf factor total state) fun y =>
      ∃ s, y = .ok s ∧ Shows security asOf s p := by
  unfold liveState
  refine restateConsumed_bind hfactor htracks.consumed fun consumed => ?_
  refine (gives_exact (computes_subtract htotal htracks.tailRemoved)).bind fun live hlive => ?_
  rw [sub_sub_cancel] at hlive
  refine (gives_vestedAt htotal htracks.tailRemoved asOf).bind fun vested hvested => ?_
  rw [sub_sub_cancel] at hvested
  refine (gives_exact (computes_subtract hlive htracks.vestedUsed)).bind fun unused hunused => ?_
  refine (gives_availableOf hvested htracks.vestedUsed).bind fun available havailable => ?_
  refine restate_bind hfactor hunused fun outstanding houtstanding => ?_
  refine restate_bind hfactor havailable fun restatedVested hrestated => ?_
  refine (gives_exact (computes_subtract hunused havailable)).bind fun unvested hunvested => ?_
  have hcount : 0 ≤ outstanding := by
    rw [houtstanding]
    exact Int.floor_nonneg.mpr (mul_nonneg p.outstanding_nonneg hr)
  have hvestedCount : 0 ≤ restatedVested := by
    rw [hrestated]
    exact Int.floor_nonneg.mpr (mul_nonneg (p.available_nonneg _) hr)
  refine Or.inr ⟨_, rfl, ?_, hunused, havailable, hunvested, hcount, ?_, ?_⟩
  · dsimp only
    split_ifs
    · exact ⟨by decide, by decide⟩
    · cases hlast : state.lastReducing with
      | none => exact ⟨by decide, by decide⟩
      | some status =>
        obtain ⟨kind, rfl⟩ := htracks.lastReducing status hlast
        exact kind.status_live
  · dsimp only
    split_ifs
    · exact hvestedCount
    · exact hcount
  · dsimp only
    split_ifs with hlt
    · exact sub_nonneg.mpr hlt.le
    · exact (sub_self outstanding).ge

def Voided (s : HoldingState) : Prop :=
  s.status = .void ∧ s.exact.outstanding = ZERO ∧ s.exact.vestedAvailable = ZERO

/-- The state of a security before its issue. -/
def NotIssued (s : HoldingState) : Prop :=
  s.status = .notIssued ∧ s.exact.outstanding = ZERO ∧ s.exact.vestedAvailable = ZERO

variable {book : EquityBook} {asOf : CivilDate}

/-- A security that is share-based, in a class. -/
structure ShareBased (security : SecurityRecord) (classId : String) : Prop where
  quantity : security.quantity.isSome
  shareClassId : security.shareClassId = some classId

theorem holdingState_shareBased {s : HoldingState} (h : holdingState book security asOf = .ok s) :
    ∃ classId, ShareBased security classId := by
  simp only [holdingState, bind_eq_ok, orRefuse_eq_ok] at h
  obtain ⟨quantity, hquantity, classId, hclass, -⟩ := h
  exact ⟨classId, by rw [hquantity]; rfl, hclass⟩

theorem holdingState_fits_notIssued (hshare : ShareBased security classId)
    (hissue : asOf < security.issueDate) :
    Fits (holdingState book security asOf) fun y => ∃ s, y = .ok s ∧ NotIssued s := by
  obtain ⟨quantity, hquantity⟩ := Option.isSome_iff_exists.mp hshare.quantity
  unfold holdingState
  rw [hquantity, hshare.shareClassId]
  refine (gives_exact (computes_splitFactor _ _ _ _)).bind fun factor _ => ?_
  rw [if_pos hissue]
  exact Or.inr ⟨_, rfl, rfl, rfl, rfl⟩

/-- **The state of an issued security is that of a history of draws**: it is returned if the
history is possible, and the event that is too large is refused if not. -/
theorem holdingState_fits (hshare : ShareBased security classId)
    (hissue : ¬asOf < security.issueDate)
    (hdraws : ∀ event ∈ activeEvents (eventsOf book.events security.id asOf),
      (drawOf book.splits classId security event).isSome) :
    Fits (holdingState book security asOf) fun y =>
      (∃ q s, run (issuePool security)
          (drawsOf book.splits classId security (eventsOf book.events security.id asOf)) = some q ∧
        y = .ok s ∧
        if voids (eventsOf book.events security.id asOf) then Voided s
        else Shows security asOf s q) ∨
      (run (issuePool security)
          (drawsOf book.splits classId security (eventsOf book.events security.id asOf)) = none ∧
        Exceeded y) := by
  obtain ⟨quantity, hquantity⟩ := Option.isSome_iff_exists.mp hshare.quantity
  have hissued : issued security = quantity := by rw [issued, hquantity, Option.getD_some]
  unfold holdingState
  rw [hquantity, hshare.shareClassId]
  refine (gives_exact (computes_splitFactor _ _ _ _)).bind fun factor hfactor => ?_
  rw [if_neg hissue]
  refine (gives_exact (computes_natCast quantity)).bind fun total htotal => ?_
  rw [← hissued] at htotal
  rcases replay_fits hdraws htotal (tracks_issuePool security) with
    hlimit | ⟨q, state, hrun, hreplay, htracks⟩ | ⟨hnone, hexceeded⟩
  · rw [hlimit]
    exact Or.inl rfl
  · rw [hreplay, ok_bind]
    dsimp only
    split_ifs with hvoid
    · exact Or.inr (Or.inl ⟨q, _, hrun, rfl, rfl, rfl, rfl⟩)
    · rcases liveState_fits hfactor (splitRatio_pos _ _ _ _).le htotal htracks asOf with
        hlimit | ⟨s, hs, hshows⟩
      · exact Or.inl hlimit
      · exact Or.inr (Or.inl ⟨q, s, hrun, hs, hshows⟩)
  · exact Or.inr (Or.inr ⟨hnone, hexceeded.bind _⟩)

/-- **What a returned state is.** -/
theorem holdingState_eq_ok {s : HoldingState} (hshare : ShareBased security classId)
    (h : holdingState book security asOf = .ok s) :
    (asOf < security.issueDate ∧ NotIssued s) ∨
    (¬asOf < security.issueDate ∧
      (∀ event ∈ activeEvents (eventsOf book.events security.id asOf),
        (drawOf book.splits classId security event).isSome) ∧
      ∃ q, run (issuePool security)
          (drawsOf book.splits classId security (eventsOf book.events security.id asOf)) = some q ∧
        if voids (eventsOf book.events security.id asOf) then Voided s
        else Shows security asOf s q) := by
  rcases lt_or_ge asOf security.issueDate with hissue | hissue
  · rcases holdingState_fits_notIssued hshare hissue with hlimit | ⟨s', hs', hnot⟩
    · rw [h] at hlimit
      cases hlimit
    · rw [h] at hs'
      obtain rfl := Except.ok.inj hs'
      exact Or.inl ⟨hissue, hnot⟩
  · have hdraws : ∀ event ∈ activeEvents (eventsOf book.events security.id asOf),
        (drawOf book.splits classId security event).isSome := by
      have hreturned := h
      unfold holdingState at hreturned
      rw [hshare.shareClassId] at hreturned
      simp only [bind_eq_ok, orRefuse_eq_ok, Option.some.injEq] at hreturned
      obtain ⟨quantity, -, classId', rfl, factor, -, hreturned⟩ := hreturned
      rw [if_neg hissue.not_gt] at hreturned
      obtain ⟨total, -, hreturned⟩ := bind_eq_ok.mp hreturned
      obtain ⟨replayed, hreplayed, -⟩ := bind_eq_ok.mp hreturned
      exact isSome_of_replay hreplayed
    refine Or.inr ⟨hissue.not_gt, hdraws, ?_⟩
    rcases holdingState_fits hshare hissue.not_gt hdraws with
      hlimit | ⟨q, s', hrun, hs', hstate⟩ | ⟨-, hexceeded⟩
    · rw [h] at hlimit
      cases hlimit
    · rw [h] at hs'
      obtain rfl := Except.ok.inj hs'
      exact ⟨q, hrun, hstate⟩
    · rw [h] at hexceeded
      obtain ⟨kind, n, date, number, hexceeded⟩ := hexceeded
      cases hexceeded

end OpenBooks.Equity
