import Mathlib.Data.List.TakeWhile
import OpenBooks.Equity.HoldingHistory

/-!
# Undoing history

Voiding a certificate, or a governed reversal, undoes an event: from then on the replay leaves it
out (`Equity.eventsOf_undone`). No later event becomes too large for it, and no less is outstanding
or available (`Equity.holdingState_of_thinned`); what is returned is never negative
(`Equity.holdingState_accounts`); and the ceiling stated for a new event is exact
(`Equity.le_eventCeiling_iff`).

A void itself cannot be undone so: the events recorded after it were never replayed, and need not be
possible. Nor does the ceiling say anything of a security that is void or not yet issued, where no
event is replayed (`Equity.undoing_history_breaks`).
-/

namespace OpenBooks.Equity

open Checked VestedPool List

/-! ### Leaving events out -/

/-- The property of events that may be left out of a replay: they are no voids. -/
def NoVoid (event : SecurityEventRecord) : Prop := event.kind ≠ .void

/-- The events that change what a security holds, and are no voids. -/
def Holding (event : SecurityEventRecord) : Prop := event.kind.holds = true ∧ event.kind ≠ .void

variable {entry : SecurityEventRecord}

section Undone

variable {fewer events : List SecurityEventRecord} {securityId : String} {asOf : CivilDate}

theorem activeEvents_sublist (h : Thinned NoVoid fewer events) :
    (activeEvents fewer).Sublist (activeEvents events) := by
  induction h with
  | nil => exact .slnil
  | keep event _ ih =>
    unfold activeEvents at ih ⊢
    rw [takeWhile_cons, takeWhile_cons]
    split_ifs
    · exact ih.cons_cons event
    · exact .slnil
  | @drop fewer events event hevent _ ih =>
    unfold activeEvents at ih ⊢
    rw [takeWhile_cons, if_pos (by simpa [NoVoid] using hevent)]
    exact ih.cons event

theorem voids_eq (h : Thinned NoVoid fewer events) : voids fewer = voids events := by
  induction h with
  | nil => rfl
  | keep event _ ih =>
    unfold voids at ih ⊢
    rw [any_cons, any_cons, ih]
  | @drop fewer events event hevent _ ih =>
    unfold voids at ih ⊢
    rw [any_cons, ih, decide_eq_false hevent, Bool.false_or]

/-- **Deleting holding events leaves them out of the replay**, and nothing else. -/
theorem eventsOf_deleted (h : Thinned Holding fewer events) :
    Thinned NoVoid (eventsOf fewer securityId asOf) (eventsOf events securityId asOf) := by
  have hvoided : voidedSecurities fewer asOf = voidedSecurities events asOf := by
    unfold voidedSecurities
    rw [h.filter_eq fun event hevent => by simp [hevent.2]]
  have hreversed : reversedEvents fewer asOf = reversedEvents events asOf := by
    unfold reversedEvents
    rw [h.filter_eq fun event hevent => ?_]
    have hkind : event.kind ≠ .reverse := by
      intro hreverse
      have hholds := hevent.1
      rw [hreverse] at hholds
      cases hholds
    simp [hkind]
  have hcounts : counts fewer securityId asOf = counts events securityId asOf := by
    funext event
    simp only [counts, hvoided, hreversed]
  unfold eventsOf
  rw [hcounts]
  exact ((h.mono fun event hevent => hevent.2).filter _).insertionSort

/-- **Undoing events leaves them out of the replay**: an entry that voids a certificate or reverses
an event adds no event of its own to the security, and undoes no void. -/
theorem eventsOf_undone (hentry : entry.securityId ≠ securityId ∨ entry.kind = .reverse)
    (hundoes : ∀ event ∈ events, event.kind = .void →
      counts events securityId asOf event = true →
      counts (events ++ [entry]) securityId asOf event = true) :
    Thinned NoVoid (eventsOf (events ++ [entry]) securityId asOf)
      (eventsOf events securityId asOf) := by
  have hfewer : ∀ event, counts (events ++ [entry]) securityId asOf event = true →
      counts events securityId asOf event = true := by
    intro event hevent
    simp only [counts, decide_eq_true_eq] at hevent ⊢
    obtain ⟨hsecurity, hdate, hholds, hreversed, hvoided⟩ := hevent
    refine ⟨hsecurity, hdate, hholds, fun hmem => hreversed ?_, fun hany => hvoided ?_⟩
    · simp only [reversedEvents, filter_append, filterMap_append, mem_append]
      exact Or.inl hmem
    · simp only [Option.any_eq_true, decide_eq_true_eq, voidedSecurities, filter_append,
        map_append, mem_append] at hany ⊢
      obtain ⟨id, hid, hmem⟩ := hany
      exact ⟨id, hid, Or.inl (of_decide_eq_true hmem)⟩
  have hself : counts (events ++ [entry]) securityId asOf entry = false := by
    rw [counts, decide_eq_false_iff_not]
    rintro ⟨hsecurity, -, hholds, -⟩
    rcases hentry with hother | hreverse
    · exact hother hsecurity
    · rw [hreverse] at hholds
      cases hholds
  have hfilter : (events ++ [entry]).filter (counts (events ++ [entry]) securityId asOf) =
      (events.filter (counts events securityId asOf)).filter
        (counts (events ++ [entry]) securityId asOf) := by
    rw [filter_append, filter_singleton, hself, filter_filter]
    refine (append_nil _).trans (filter_congr fun event _ => ?_)
    rcases hcounts : counts (events ++ [entry]) securityId asOf event with _ | _
    · rfl
    · rw [hfewer event hcounts, Bool.and_true]
  unfold eventsOf
  rw [hfilter]
  refine (Thinned.of_filter fun event hevent hcounts => ?_).insertionSort
  obtain ⟨hmem, hcounted⟩ := mem_filter.mp hevent
  intro hvoid
  rw [hundoes event hmem hvoid hcounted] at hcounts
  cases hcounts

end Undone

/-! ### What is returned after history is undone -/

/-- The state of a holding is at least as large as another. -/
structure NoSmaller (s' s : HoldingState) : Prop where
  outstanding : s.exact.outstanding.toRat ≤ s'.exact.outstanding.toRat
  vestedAvailable : s.exact.vestedAvailable.toRat ≤ s'.exact.vestedAvailable.toRat

variable {splits : List SplitRecord} {fewer events : List SecurityEventRecord}
  {security : SecurityRecord} {asOf : CivilDate} {classId : String} {s : HoldingState}

theorem noSmaller_of_zero {s' : HoldingState} (h : s.exact.outstanding = ZERO)
    (hv : s.exact.vestedAvailable = ZERO) (h' : s'.exact.outstanding = ZERO)
    (hv' : s'.exact.vestedAvailable = ZERO) : NoSmaller s' s :=
  ⟨(congrArg Rational.toRat (h.trans h'.symm)).le, (congrArg Rational.toRat (hv.trans hv'.symm)).le⟩

theorem Shows.noSmaller {s' : HoldingState} {p p' : VestingPool ℚ} (h : Shows security asOf s p)
    (h' : Shows security asOf s' p') (hdominates : p'.Dominates p) : NoSmaller s' s := by
  constructor
  · rw [h.outstanding.eq, h'.outstanding.eq]
    exact hdominates.outstanding
  · rw [h.vestedAvailable.eq, h'.vestedAvailable.eq]
    exact hdominates.available _

theorem drawsOf_sublist (h : Thinned NoVoid fewer events) :
    (drawsOf splits classId security fewer).Sublist (drawsOf splits classId security events) :=
  (activeEvents_sublist h).filterMap _

theorem drawsOf_nonneg : ∀ d ∈ drawsOf splits classId security events, 0 ≤ d.amount := by
  intro d hd
  obtain ⟨event, -, hdraw⟩ := mem_filterMap.mp hd
  exact drawOf_nonneg hdraw

/-- **A replay that leaves events out is safe**: no event becomes too large for it, and no less is
left. -/
theorem holdingState_of_thinned
    (hthinned : Thinned NoVoid (eventsOf fewer security.id asOf) (eventsOf events security.id asOf))
    (h : holdingState ⟨splits, events⟩ security asOf = .ok s) :
    Fits (holdingState ⟨splits, fewer⟩ security asOf) fun y =>
      ∃ s', y = .ok s' ∧ NoSmaller s' s := by
  obtain ⟨classId, hshare⟩ := holdingState_shareBased h
  rcases holdingState_eq_ok hshare h with ⟨hissue, hnot⟩ | ⟨hissue, hdraws, q, hrun, hstate⟩
  · have hfits : Fits (holdingState ⟨splits, fewer⟩ security asOf) _ :=
      holdingState_fits_notIssued hshare hissue
    rcases hfits with hlimit | ⟨s', hs', hnot'⟩
    · exact Or.inl hlimit
    · exact Or.inr ⟨s', hs', noSmaller_of_zero hnot.2.1 hnot.2.2 hnot'.2.1 hnot'.2.2⟩
  · obtain ⟨q', hrun', hdominates⟩ := run_of_sublist (drawsOf_sublist hthinned) drawsOf_nonneg
      (VestingPool.Dominates.refl (issuePool security)) hrun
    have hfits : Fits (holdingState ⟨splits, fewer⟩ security asOf) _ :=
      holdingState_fits hshare hissue fun event hevent =>
        hdraws event ((activeEvents_sublist hthinned).subset hevent)
    rcases hfits with hlimit | ⟨q'', s', hrun'', hs', hstate'⟩ | ⟨hnone, -⟩
    · exact Or.inl hlimit
    · obtain rfl : q' = q'' := Option.some.inj (hrun'.symm.trans hrun'')
      refine Or.inr ⟨s', hs', ?_⟩
      rw [voids_eq hthinned] at hstate'
      split_ifs at hstate hstate'
      · exact noSmaller_of_zero hstate.2.1 hstate.2.2 hstate'.2.1 hstate'.2.2
      · exact hstate.noSmaller hstate' hdominates
    · exact absurd (hrun'.symm.trans hnone) (Option.some_ne_none q')

/-- Voiding another certificate or reversing an event is safe, unless it undoes a void that counts:
reversing that brings back the certificate. -/
theorem holdingState_undone (hentry : entry.securityId ≠ security.id ∨ entry.kind = .reverse)
    (hundoes : ∀ event ∈ events, event.kind = .void →
      counts events security.id asOf event = true →
      counts (events ++ [entry]) security.id asOf event = true)
    (h : holdingState ⟨splits, events⟩ security asOf = .ok s) :
    Fits (holdingState ⟨splits, events ++ [entry]⟩ security asOf) fun y =>
      ∃ s', y = .ok s' ∧ NoSmaller s' s :=
  holdingState_of_thinned (eventsOf_undone hentry hundoes) h

/-! ### What is consumed -/

def consumedUnits (splits : List SplitRecord) (classId : String) (security : SecurityRecord)
    (events : List SecurityEventRecord) : ℚ :=
  (events.map fun event =>
    (event.quantity.getD 0 : ℚ) / splitRatio splits classId security.issueDate
      event.effectiveOn).sum

theorem activeEvents_eq (h : voids events = false) : activeEvents events = events := by
  refine takeWhile_eq_self_iff.mpr fun event hevent => ?_
  have hkind := any_eq_false.mp h event hevent
  simpa using hkind

theorem sum_drawsOf (hvoids : voids events = false)
    (hdraws : ∀ event ∈ activeEvents events, (drawOf splits classId security event).isSome) :
    ((drawsOf splits classId security events).map Draw.amount).sum =
      consumedUnits splits classId security events := by
  rw [drawsOf, activeEvents_eq hvoids]
  rw [activeEvents_eq hvoids] at hdraws
  unfold consumedUnits
  clear hvoids
  induction events with
  | nil => rfl
  | cons event events ih =>
    obtain ⟨d, hd⟩ := Option.isSome_iff_exists.mp (hdraws event mem_cons_self)
    have hamount : d.amount = (event.quantity.getD 0 : ℚ) /
        splitRatio splits classId security.issueDate event.effectiveOn := by
      simp only [drawOf, Option.bind_eq_bind, Option.bind_eq_some_iff] at hd
      obtain ⟨quantity, hquantity, kind, -, hd⟩ := hd
      obtain rfl := Option.some.inj hd
      rw [hquantity, Option.getD_some]
    rw [filterMap_cons_some hd, map_cons, sum_cons, map_cons, sum_cons,
      hamount, ih fun event' hevent' => hdraws event' (mem_cons_of_mem _ hevent')]

/-! ### What may be appended -/

/-- An event to record on a day that no recorded event is after: it consumes units of the security,
and nothing undoes it. -/
structure Appended (events : List SecurityEventRecord) (security : SecurityRecord) (on : CivilDate)
    (event : SecurityEventRecord) (kind : ConsumedKind) (quantity : ℕ) : Prop where
  last : ∀ earlier ∈ events, earlier.effectiveOn ≤ on
  securityId : event.securityId = security.id
  effectiveOn : event.effectiveOn = on
  kind : event.kind.consumed = some kind
  quantity : event.quantity = some quantity
  fresh : event.id ∉ reversedEvents events on
  standing : ∀ id, event.resultingSecurityId = some id → id ∉ voidedSecurities events on

def availableTo (security : SecurityRecord) (s : HoldingState) (kind : ConsumedKind) :
    Except RationalError Rational :=
  match reachOf security kind with
  | .vested => .ok s.exact.vestedAvailable
  | .tail => .ok s.exact.unvested
  | .ahead | .either => addRational s.exact.unvested s.exact.vestedAvailable

variable {available : Rational}

theorem availableTo_is {p : VestingPool ℚ} (h : Shows security asOf s p) {kind : ConsumedKind}
    (havailable : availableTo security s kind = .ok available) :
    available.Is (p.limit (reachOf security kind) (lineOn security asOf)) := by
  have hboth : addRational s.exact.unvested s.exact.vestedAvailable = .ok available →
      available.Is p.outstanding := by
    intro hadd
    have hsum : p.unvested (lineOn security asOf) + p.available (lineOn security asOf) =
        p.outstanding := sub_add_cancel _ _
    exact ((computes_add h.unvested h.vestedAvailable).congr hsum).is_of_eq_ok hadd
  unfold availableTo at havailable
  cases hreach : reachOf security kind with
  | vested =>
    rw [hreach] at havailable
    obtain rfl := Except.ok.inj havailable
    exact h.vestedAvailable
  | tail =>
    rw [hreach] at havailable
    obtain rfl := Except.ok.inj havailable
    exact h.unvested
  | ahead | either =>
    rw [hreach] at havailable
    exact hboth havailable

/-- **The ceiling is the largest whole quantity that fits.** -/
theorem le_eventCeiling_iff {book : EquityBook} {on : CivilDate} {a : ℚ}
    (hclass : security.shareClassId = some classId) (ha : available.Is a) (hnonneg : 0 ≤ a)
    {c : ℤ} (hc : eventCeiling book security available on = .ok c) (quantity : ℕ) :
    (quantity : ℤ) ≤ c ↔
      (quantity : ℚ) / splitRatio book.splits classId security.issueDate on ≤ a := by
  have hpos := splitRatio_pos book.splits classId security.issueDate on
  unfold eventCeiling at hc
  rw [hclass] at hc
  obtain ⟨factor, hfactor, hc⟩ := bind_eq_ok.mp hc
  obtain ⟨restated, hrestated, hc⟩ := bind_eq_ok.mp hc
  have hfactor' := (computes_splitFactor _ _ _ _).is_of_eq_ok hfactor
  have hrestated' := (computes_multiply ha hfactor').is_of_eq_ok hrestated
  have hfloor : 0 ≤ floorShares restated := by
    rw [floorShares_eq hrestated']
    exact Int.floor_nonneg.mpr (mul_nonneg hnonneg hpos.le)
  have hceiling : c = floorShares restated := by
    rw [← Except.ok.inj hc]
    split_ifs with hzero
    · rfl
    · exact le_antisymm hfloor (not_lt.mp hzero)
  rw [hceiling, floorShares_eq hrestated', Int.le_floor, Int.cast_natCast, div_le_iff₀ hpos]

section AppendOne

variable {on : CivilDate} {event : SecurityEventRecord} {kind : ConsumedKind} {quantity : ℕ}

theorem holds_of_consumed {event : SecurityEventKind} (h : event.consumed = some kind) :
    event.holds = true ∧ event ≠ .void ∧ event ≠ .reverse := by
  cases event with
  | void | repay | reverse | election83b => cases h
  | _ => exact ⟨rfl, by decide, by decide⟩

section

variable (h : Appended events security on event kind quantity)

include h

/-- On a later day the same events are undone. -/
theorem voidedSecurities_append (hlater : on ≤ asOf) :
    voidedSecurities (events ++ [event]) asOf = voidedSecurities events on := by
  unfold voidedSecurities
  rw [filter_append, filter_singleton,
    decide_eq_false fun hvoid => (holds_of_consumed h.kind).2.1 hvoid.1]
  refine congrArg _ ((append_nil _).trans (filter_congr fun earlier hearlier => ?_))
  have hon := h.last earlier hearlier
  simp [hon, hon.trans hlater]

theorem reversedEvents_append (hlater : on ≤ asOf) :
    reversedEvents (events ++ [event]) asOf = reversedEvents events on := by
  unfold reversedEvents
  rw [filter_append, filter_singleton,
    decide_eq_false fun hreverse => (holds_of_consumed h.kind).2.2 hreverse.1]
  refine congrArg _ ((append_nil _).trans (filter_congr fun earlier hearlier => ?_))
  have hon := h.last earlier hearlier
  simp [hon, hon.trans hlater]

/-- **The event is replayed last.** -/
theorem eventsOf_append (hlater : on ≤ asOf) :
    eventsOf (events ++ [event]) security.id asOf = eventsOf events security.id on ++ [event] := by
  have hself : counts (events ++ [event]) security.id asOf event = true := by
    rw [counts, voidedSecurities_append h hlater, reversedEvents_append h hlater, decide_eq_true_eq]
    refine ⟨h.securityId, h.effectiveOn.trans_le hlater, (holds_of_consumed h.kind).1, h.fresh, ?_⟩
    intro hany
    obtain ⟨id, hid, hmem⟩ := Option.any_eq_true _ _ |>.mp hany
    exact h.standing id hid (of_decide_eq_true hmem)
  have hsame : ∀ earlier ∈ events, counts (events ++ [event]) security.id asOf earlier =
      counts events security.id on earlier := by
    intro earlier hearlier
    have hon := h.last earlier hearlier
    rw [counts, counts, voidedSecurities_append h hlater, reversedEvents_append h hlater]
    simp only [hon, hon.trans hlater]
  unfold eventsOf
  rw [filter_append, filter_singleton, hself, filter_congr hsame]
  refine Thinned.insertionSort_concat fun earlier hearlier => ?_
  rw [h.effectiveOn]
  exact h.last earlier (mem_of_mem_filter hearlier)

theorem drawOf_appended :
    drawOf splits classId security event = some ⟨reachOf security kind, lineOn security on,
      quantity / splitRatio splits classId security.issueDate on⟩ := by
  simp only [drawOf, h.quantity, h.kind, h.effectiveOn, Option.bind_eq_bind, Option.bind_some,
    Option.pure_def]

end

/-- **An appended event is one more draw**, on what the state it is recorded against shows. -/
theorem holdingState_append {later : CivilDate}
    (h : Appended events security on event kind quantity) (hlater : on ≤ later)
    (hshare : ShareBased security classId)
    (hs : holdingState ⟨splits, events⟩ security on = .ok s) (hvoid : s.status ≠ .void)
    (hissued : s.status ≠ .notIssued) :
    ∃ p, Shows security on s p ∧
      Fits (holdingState ⟨splits, events ++ [event]⟩ security later) fun y =>
        (quantity / splitRatio splits classId security.issueDate on ≤
            p.limit (reachOf security kind) (lineOn security on) ∧ ∃ s', y = .ok s') ∨
        (p.limit (reachOf security kind) (lineOn security on) <
            quantity / splitRatio splits classId security.issueDate on ∧ Exceeded y) := by
  rcases holdingState_eq_ok hshare hs with ⟨-, hnot⟩ | ⟨hissue, hdraws, p, hrun, hstate⟩
  · exact absurd hnot.1 hissued
  have hvoids : voids (eventsOf events security.id on) = false := by
    rcases hv : voids (eventsOf events security.id on) with _ | _
    · rfl
    · rw [if_pos hv] at hstate
      exact absurd hstate.1 hvoid
  rw [if_neg (by rw [hvoids]; exact Bool.false_ne_true)] at hstate
  refine ⟨p, hstate, ?_⟩
  have hnoVoid : voids (eventsOf events security.id on ++ [event]) = false := by
    rw [voids, any_append, ← voids, hvoids, Bool.false_or]
    simpa using (holds_of_consumed h.kind).2.1
  have hdraw : drawOf splits classId security event = some _ := drawOf_appended h
  have hevents := eventsOf_append h hlater
  have hall : drawsOf splits classId security (eventsOf events security.id on ++ [event]) =
      drawsOf splits classId security (eventsOf events security.id on) ++
        [⟨reachOf security kind, lineOn security on,
          quantity / splitRatio splits classId security.issueDate on⟩] := by
    rw [drawsOf, drawsOf, activeEvents_eq hnoVoid, activeEvents_eq hvoids, filterMap_append,
      filterMap_cons_some hdraw, filterMap_nil]
  have hmore : ∀ event' ∈ activeEvents (eventsOf events security.id on ++ [event]),
      (drawOf splits classId security event').isSome := by
    rw [activeEvents_eq hnoVoid]
    rw [activeEvents_eq hvoids] at hdraws
    intro event' hevent'
    rcases mem_append.mp hevent' with hearlier | hlast
    · exact hdraws event' hearlier
    · rw [mem_singleton.mp hlast, hdraw]
      rfl
  rw [← hevents] at hmore
  have hfits : Fits (holdingState ⟨splits, events ++ [event]⟩ security later) _ :=
    holdingState_fits hshare (fun hbefore => hissue (hlater.trans_lt hbefore)) hmore
  rw [hevents, hall, run_append, hrun, Option.bind_some] at hfits
  rcases hfits with hlimit | ⟨q, s', hlast, hs', -⟩ | ⟨hlast, hexceeded⟩
  · exact Or.inl hlimit
  · refine Or.inr (Or.inl ⟨?_, s', hs'⟩)
    by_contra hnot
    rw [run_cons_of_lt (not_le.mp hnot)] at hlast
    cases hlast
  · refine Or.inr (Or.inr ⟨?_, hexceeded⟩)
    by_contra hnot
    rw [run_cons_of_le (not_lt.mp hnot)] at hlast
    cases hlast

end AppendOne

/-! ### Undoing history is safe -/

/-- A state accounts for the units of issue: what is outstanding exactly is what was issued less
what the events consumed, and nothing of it is negative. -/
structure Accounts (splits : List SplitRecord) (events : List SecurityEventRecord)
    (security : SecurityRecord) (s : HoldingState) (asOf : CivilDate) (classId : String) :
    Prop where
  shareClassId : security.shareClassId = some classId
  outstanding : s.exact.outstanding.toRat =
    issued security - consumedUnits splits classId security (eventsOf events security.id asOf)
  outstanding_nonneg : 0 ≤ s.exact.outstanding.toRat
  vestedAvailable_nonneg : 0 ≤ s.exact.vestedAvailable.toRat
  unvested_nonneg : 0 ≤ s.exact.unvested.toRat
  whole : 0 ≤ s.outstanding ∧ 0 ≤ s.vestedAvailable ∧ 0 ≤ s.unvested

theorem holdingState_accounts (h : holdingState ⟨splits, events⟩ security asOf = .ok s)
    (hvoid : s.status ≠ .void) (hissued : s.status ≠ .notIssued) :
    ∃ classId, Accounts splits events security s asOf classId := by
  obtain ⟨classId, hshare⟩ := holdingState_shareBased h
  refine ⟨classId, ?_⟩
  rcases holdingState_eq_ok hshare h with ⟨-, hnot⟩ | ⟨-, hdraws, p, hrun, hstate⟩
  · exact absurd hnot.1 hissued
  rcases hvoids : voids (eventsOf events security.id asOf) with _ | _
  · rw [if_neg (by rw [hvoids]; exact Bool.false_ne_true)] at hstate
    have hsum := outstanding_run hrun
    rw [sum_drawsOf hvoids hdraws] at hsum
    refine ⟨hshare.shareClassId, ?_, ?_, ?_, ?_, hstate.whole⟩
    · rw [hstate.outstanding.eq, hsum]
      simp [VestingPool.outstanding, issuePool]
    · rw [hstate.outstanding.eq]
      exact p.outstanding_nonneg
    · rw [hstate.vestedAvailable.eq]
      exact p.available_nonneg _
    · rw [hstate.unvested.eq]
      exact p.unvested_nonneg _
  · rw [if_pos hvoids] at hstate
    exact absurd hstate.1 hvoid

/-- **Undoing history is safe.** Deleting holding events other than voids refuses no event, and
leaves no less outstanding or available; a state that is neither void nor before the issue accounts
for the units of issue; and an event recorded against it is accepted just when its quantity is at
most the ceiling of what is available to it. -/
theorem undoing_history_is_safe (splits : List SplitRecord) (events : List SecurityEventRecord)
    (security : SecurityRecord) (asOf : CivilDate) {s : HoldingState}
    (h : holdingState ⟨splits, events⟩ security asOf = .ok s) :
    (∀ fewer, Thinned Holding fewer events →
      Fits (holdingState ⟨splits, fewer⟩ security asOf) fun y =>
        ∃ s', y = .ok s' ∧ NoSmaller s' s) ∧
    (s.status ≠ .void → s.status ≠ .notIssued →
      (∃ classId, Accounts splits events security s asOf classId) ∧
      ∀ event kind quantity available c later,
        Appended events security asOf event kind quantity →
        availableTo security s kind = .ok available →
        eventCeiling ⟨splits, events⟩ security available asOf = .ok c →
        asOf ≤ later →
        Fits (holdingState ⟨splits, events ++ [event]⟩ security later) fun y =>
          ((quantity : ℤ) ≤ c ∧ ∃ s', y = .ok s') ∨ (c < quantity ∧ Exceeded y)) := by
  refine ⟨fun fewer hfewer => holdingState_of_thinned (eventsOf_deleted hfewer) h,
    fun hvoid hissued => ⟨holdingState_accounts h hvoid hissued, ?_⟩⟩
  intro event kind quantity available c later hevent havailable hc hlater
  obtain ⟨classId, hshare⟩ := holdingState_shareBased h
  obtain ⟨p, hshows, hfits⟩ := holdingState_append hevent hlater hshare h hvoid hissued
  have hceiling := le_eventCeiling_iff hshare.shareClassId (availableTo_is hshows havailable)
    (p.limit_nonneg _ _) hc quantity
  rcases hfits with hlimit | ⟨hle, hok⟩ | ⟨hlt, hexceeded⟩
  · exact Or.inl hlimit
  · exact Or.inr (Or.inl ⟨hceiling.mpr hle, hok⟩)
  · refine Or.inr (Or.inr ⟨?_, hexceeded⟩)
    exact not_le.mp fun hle => absurd (hceiling.mp hle) (not_le.mpr hlt)

/-! ### An award -/

/-- An award of ten units that vest over a year. -/
def award : SecurityRecord where
  id := "award"
  securityNumber := "RSU-1"
  kind := .rsu
  shareClassId := some "common"
  issueDate := civilDay 2024 1 1
  quantity := some 10
  vestingStart := none
  vestingMonths := some 12
  cliffMonths := none
  vestingFrequency := none
  vestingTranches := none
  earlyExercise := false

def awardEvent (day : ℕ) (kind : SecurityEventKind) (quantity : Option ℕ) :
    SecurityEventRecord :=
  ⟨"event", "award", kind, civilDay 2024 1 day, quantity, none, none⟩

def awardSplit (day numerator denominator : ℕ) : SplitRecord where
  shareClassId := "common"
  effectiveOn := civilDay 2024 1 day
  ratioNumerator := (numerator + 1 : ℕ)
  ratioDenominator := (denominator + 1 : ℕ)
  ratioNumerator_pos := Int.natCast_succ_pos numerator
  ratioDenominator_pos := Int.natCast_succ_pos denominator

/-- Of the ten units one is forfeited on the third, and nine remain to forfeit: they may be
forfeited on the fifth, and the first forfeiture may be undone. -/
theorem undoing_history_is_safe_award :
    ∃ s, holdingState ⟨[], [awardEvent 3 .forfeit (some 1)]⟩ award (civilDay 2024 1 5) = .ok s ∧
      (Fits (holdingState ⟨[], []⟩ award (civilDay 2024 1 5)) fun y =>
        ∃ s', y = .ok s' ∧ NoSmaller s' s) ∧
      (∃ classId, Accounts [] [awardEvent 3 .forfeit (some 1)] award s (civilDay 2024 1 5)
        classId) ∧
      Fits (holdingState ⟨[], [awardEvent 3 .forfeit (some 1), awardEvent 5 .forfeit (some 9)]⟩
        award (civilDay 2024 1 5)) fun y =>
          ((9 : ℕ) ≤ (9 : ℤ) ∧ ∃ s', y = .ok s') ∨ ((9 : ℤ) < (9 : ℕ) ∧ Exceeded y) := by
  have hfacts : (holdingState ⟨[], [awardEvent 3 .forfeit (some 1)]⟩ award
      (civilDay 2024 1 5)).map (fun s => (s.status, availableTo award s .forfeit)) =
        .ok (.outstanding, .ok ⟨9, 1⟩) := by
    decide +kernel
  rcases hs : holdingState ⟨[], [awardEvent 3 .forfeit (some 1)]⟩ award (civilDay 2024 1 5) with
    e | s
  · rw [hs] at hfacts
    cases hfacts
  rw [hs] at hfacts
  obtain ⟨hstatus, havailable⟩ := Prod.mk.inj (Except.ok.inj hfacts)
  have hholding : Holding (awardEvent 3 .forfeit (some 1)) := ⟨by decide, by decide⟩
  have hsafe := undoing_history_is_safe [] [awardEvent 3 .forfeit (some 1)] award
    (civilDay 2024 1 5) hs
  have hlive := hsafe.2 (by rw [hstatus]; decide) (by rw [hstatus]; decide)
  refine ⟨s, rfl, hsafe.1 [] (.drop hholding .nil), hlive.1, ?_⟩
  refine hlive.2 (awardEvent 5 .forfeit (some 9)) .forfeit 9 ⟨9, 1⟩ 9 _
    ⟨?_, rfl, rfl, rfl, rfl, ?_, ?_⟩ havailable (by decide +kernel) le_rfl
  · decide +kernel
  · decide +kernel
  · intro id hid
    cases hid

/-- A reversal of the forfeiture. -/
theorem holdingState_undone_award :
    ∃ s, holdingState ⟨[], [awardEvent 3 .forfeit (some 1)]⟩ award (civilDay 2024 1 5) = .ok s ∧
      Fits (holdingState ⟨[], [awardEvent 3 .forfeit (some 1)] ++
        [{ awardEvent 4 .reverse none with id := "undo", reversesEventId := some "event" }]⟩ award
          (civilDay 2024 1 5)) fun y => ∃ s', y = .ok s' ∧ NoSmaller s' s := by
  obtain ⟨s, hs⟩ := exists_of_isOk (x := holdingState ⟨[], [awardEvent 3 .forfeit (some 1)]⟩ award
    (civilDay 2024 1 5)) (by decide +kernel)
  refine ⟨s, hs, holdingState_undone (.inr rfl) ?_ hs⟩
  rintro event hevent hvoid
  obtain rfl := mem_singleton.mp hevent
  cases hvoid

/-- What undoing history breaks. A forfeiture recorded after a void is not replayed, however large,
while nothing is available to it; if the void is deleted it is refused as too large. Before the
issue nothing is outstanding, although nothing is consumed. And if a forfeiture is deleted that
made up a whole unit with another, the next fraction may be too long. -/
theorem undoing_history_breaks :
    ((holdingState ⟨[], [awardEvent 2 .void none]⟩ award (civilDay 2024 1 3)).map
        (fun s => (s.status, eventCeiling ⟨[], [awardEvent 2 .void none]⟩ award s.exact.unvested
          (civilDay 2024 1 3))) = .ok (.void, .ok 0) ∧
      (holdingState ⟨[], [awardEvent 2 .void none, awardEvent 3 .forfeit (some 20)]⟩ award
        (civilDay 2024 1 3)).map HoldingState.status = .ok .void ∧
      (holdingState ⟨[], [awardEvent 3 .forfeit (some 20)]⟩ award
        (civilDay 2024 1 3)).map HoldingState.status =
          .error (.holdingEventExceeded .forfeit 20 (civilDay 2024 1 3) "RSU-1")) ∧
    (holdingState ⟨[], []⟩ award (civilDay 2023 12 31)).map
        (fun s => (s.status, s.exact.outstanding)) = .ok (.notIssued, ⟨0, 1⟩) ∧
    ((holdingState ⟨[awardSplit 2 (10 ^ 110) 0, awardSplit 4 (10 ^ 40) 0,
          awardSplit 6 0 (10 ^ 150 + 10 ^ 110 + 10 ^ 40)],
        [awardEvent 3 .forfeit (some 1), awardEvent 3 .forfeit (some (10 ^ 110)),
          awardEvent 5 .forfeit (some 1)]⟩ award (civilDay 2024 1 6)).map
            HoldingState.status = .ok .outstanding ∧
      (holdingState ⟨[awardSplit 2 (10 ^ 110) 0, awardSplit 4 (10 ^ 40) 0,
          awardSplit 6 0 (10 ^ 150 + 10 ^ 110 + 10 ^ 40)],
        [awardEvent 3 .forfeit (some 1), awardEvent 5 .forfeit (some 1)]⟩ award
          (civilDay 2024 1 6)).map HoldingState.status = .error (.exact .limit)) := by
  have hwhole : eventsOf [awardEvent 3 .forfeit (some 1), awardEvent 3 .forfeit (some (10 ^ 110)),
      awardEvent 5 .forfeit (some 1)] award.id (civilDay 2024 1 6) =
        [awardEvent 3 .forfeit (some 1), awardEvent 3 .forfeit (some (10 ^ 110)),
          awardEvent 5 .forfeit (some 1)] := by decide +kernel
  have hpart : eventsOf [awardEvent 3 .forfeit (some 1), awardEvent 5 .forfeit (some 1)] award.id
      (civilDay 2024 1 6) = [awardEvent 3 .forfeit (some 1), awardEvent 5 .forfeit (some 1)] := by
    decide +kernel
  refine ⟨by decide +kernel, by decide +kernel, ?_, ?_⟩
  -- the texts of numbers of this size are not written out, only their lengths are compared
  all_goals
    simp only [holdingState, hwhole, hpart, replay, replayEvent, liveState, restateConsumed,
      restate, splitFactor, addRational, subtractRational, multiplyRational, divideRational,
      vestedAt, availableOf, takeUnits, timeBasedVested, scheduledVested, rational_eq]
    decide +kernel

end OpenBooks.Equity
