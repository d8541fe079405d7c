import Mathlib.Data.List.Dedup
import OpenBooks.Platform.CivilDays

/-!
# The instants of a local time

A local date and time is resolved by trial: the offsets in force every six hours around it are
tried, and the candidates that the zone renders as the local time are its instants. An instant of
the local time may be a day away from every sample of its own reading – what finds its offset is
that two transitions are six hours apart, so that no offset lasts from after one sample to before
the next (`TimeZone.Zone.offset_eq_or`).
-/

namespace OpenBooks.TimeZone

open Checked FixedWidth List

/-! ### Zones and readings -/

/-- A zone the runtime accepts: its offset from UTC, in seconds, at every second. -/
structure Zone where
  offset : ℤ → ℤ
  bounded : ∀ t, |offset t| ≤ 26 * 3600
  apart : ∀ {s t}, s < t → offset (s - 1) ≠ offset s → offset (t - 1) ≠ offset t →
    s + 6 * 3600 ≤ t

structure LocalTime where
  date : CivilDate
  second : ℕ
  second_lt : second < 86400
  deriving DecidableEq

/-- The second a local time would be in UTC. -/
def LocalTime.wall (civil : LocalTime) : ℤ := civil.date.dayNumber * 86400 + civil.second

theorem toNat_emod_lt (wall : ℤ) : (wall % 86400).toNat < 86400 := by
  omega

/-- What a zone's clocks show at a second, in the years 1 to 9999. -/
def parts (zone : Zone) (t : ℤ) : Option LocalTime :=
  let wall := t + zone.offset t
  match shiftDays (civilDay 1970 1 1) (wall / 86400) with
  | .ok date => some ⟨date, (wall % 86400).toNat, toNat_emod_lt wall⟩
  | .error _ => none

/-- What the language's own time-zone data answer: the canonical name of a zone, and the clocks
that a name stands for. -/
structure Runtime where
  canonicalTimeZone : List Char → Option (List Char)
  formatter : List Char → Option Zone

/-- A zone named by a place, not by a numeric offset. -/
def isNamedZone (zone : List Char) : Bool :=
  match zone.splitOn '/' with
  | [] => false
  | area :: places => (area ≠ [] && area.all fun c => c.isAlpha || c = '_') &&
      places.all fun place =>
        place ≠ [] && place.all fun c => c.isAlphanum || "_+.-".toList.contains c

/-- The date and time that two texts spell; the seconds may be left out. -/
def readLocalTime (date time : List Char) : Option LocalTime := do
  let date ← isoCalendarDate date
  if matchesShape "dd:dd".toList time || matchesShape "dd:dd:dd".toList time then
    let hour := numberAt 0 2 time
    let minute := numberAt 3 5 time
    let second := numberAt 6 8 time
    if h : hour ≤ 23 ∧ minute ≤ 59 ∧ second ≤ 59 then
      some ⟨date, hour * 3600 + minute * 60 + second, by omega⟩
    else none
  else none

/-! ### Resolving -/

/-- An instant and the offset in force at it. -/
structure ZonedTimeChoice where
  instant : ℤ
  offset : List Char

inductive Kind
  | invalid
  | gap
  | ready
  deriving DecidableEq

structure Resolution where
  kind : Kind
  choices : List ZonedTimeChoice

def offsetLabel (offset : ℤ) : List Char :=
  let seconds := offset.natAbs
  "UTC".toList ++ (if offset < 0 then '-' else '+') :: zeroPadded 2 (seconds / 3600) ++
    ':' :: zeroPadded 2 (seconds % 3600 / 60) ++
    if seconds % 60 = 0 then [] else ':' :: zeroPadded 2 (seconds % 60)

/-- The offsets in force every six hours, from two days before a second to two days after. -/
def offsetsNear (zone : Zone) (wall : ℤ) : List ℤ :=
  ((List.range 17).filterMap fun (k : ℕ) =>
    let sample := wall + (6 * k - 48) * 3600
    (parts zone sample).map (·.wall - sample)).dedup

/-- The candidates that render as the local time, in order. -/
def zonedChoices (zone : Zone) (civil : LocalTime) : List ZonedTimeChoice :=
  let offsets := (offsetsNear zone civil.wall).filter fun offset =>
    parts zone (civil.wall - offset) = some civil
  (offsets.map fun offset => ⟨civil.wall - offset, offsetLabel offset⟩).mergeSort
    (·.instant ≤ ·.instant)

def resolveLocalTime (runtime : Runtime) (date time zone : List Char) (allowOffsetZone : Bool) :
    Resolution :=
  if !allowOffsetZone && !isNamedZone zone || (runtime.canonicalTimeZone zone).isNone then
    ⟨.invalid, []⟩
  else
    match readLocalTime date time, runtime.formatter zone with
    | some civil, some clocks =>
      let choices := zonedChoices clocks civil
      ⟨if choices.isEmpty then .gap else .ready, choices⟩
    | _, _ => ⟨.invalid, []⟩

def civilDateTimeToInstant (runtime : Runtime) (value timeZone : List Char) :
    Except RangeError ℤ :=
  let invalid := ⟨"Enter a valid local date and time in a supported time zone."⟩
  match value[10]?, runtime.canonicalTimeZone timeZone with
  | some 'T', some zone =>
    match resolveLocalTime runtime (value.take 10) (value.drop 11) zone true with
    | ⟨.invalid, _⟩ => .error invalid
    | ⟨.gap, _⟩ => .error
        ⟨"That local time does not exist because the clocks change in this time zone."⟩
    | ⟨.ready, [choice]⟩ => .ok choice.instant
    | ⟨.ready, _⟩ => .error ⟨"That local time occurs twice because the clocks change in this " ++
        "time zone; choose another time."⟩
  | _, _ => .error invalid

/-! ### Samples -/

variable {zone : Zone} {civil : LocalTime} {t : ℤ}

theorem parts_eq_some : parts zone t = some civil ↔ civil.wall = t + zone.offset t := by
  have hepoch : (civilDay 1970 1 1).dayNumber = 0 := by decide
  have hlt := civil.second_lt
  rw [parts, LocalTime.wall]
  constructor
  · intro h
    split at h
    next date hdate =>
      have hnumber := shiftDays_eq_ok.mp hdate
      obtain rfl := Option.some.inj h
      dsimp only
      omega
    · cases h
  · intro h
    rw [shiftDays_eq_ok.mpr (show civil.date.dayNumber = _ by omega)]
    obtain ⟨date, second, hsecond⟩ := civil
    dsimp only at h ⊢
    congr
    omega

theorem Zone.exists_transition {a b : ℤ} (hab : a ≤ b) (h : zone.offset a ≠ zone.offset b) :
    ∃ s, a < s ∧ s ≤ b ∧ zone.offset (s - 1) ≠ zone.offset s := by
  induction b, hab using Int.leInduction with
  | base => exact absurd rfl h
  | succ b hab ih =>
    by_cases hb : zone.offset a = zone.offset b
    · exact ⟨b + 1, by omega, le_rfl, by rwa [add_sub_cancel_right, ← hb]⟩
    · obtain ⟨s, hs, hsb, hne⟩ := ih hb
      exact ⟨s, hs, by omega, hne⟩

/-- **Of two samples six hours apart one has the offset of a second between them.** -/
theorem Zone.offset_eq_or {g : ℤ} (hg : g ≤ t) (ht : t < g + 6 * 3600) :
    zone.offset g = zone.offset t ∨ zone.offset (g + 6 * 3600) = zone.offset t := by
  by_contra! hne
  obtain ⟨s, hgs, hst, hs⟩ := Zone.exists_transition hg hne.1
  obtain ⟨s', hts, hsg, hs'⟩ := Zone.exists_transition ht.le hne.2.symm
  have happart := zone.apart (hst.trans_lt hts) hs hs'
  omega

/-- Two days on either side of a local time are in the calendar. -/
structure LocalTime.Inland (civil : LocalTime) : Prop where
  before : (civilDay 1 1 1).dayNumber * 86400 ≤ civil.wall - 48 * 3600
  after : civil.wall + 48 * 3600 < (lastCivilDay.dayNumber + 1) * 86400

theorem exists_parts (hlow : (civilDay 1 1 1).dayNumber * 86400 ≤ t + zone.offset t)
    (hhigh : t + zone.offset t < (lastCivilDay.dayNumber + 1) * 86400) :
    ∃ rendered, parts zone t = some rendered := by
  obtain ⟨date, hdate⟩ := exists_dayNumber
    (show _ ≤ (t + zone.offset t) / 86400 by omega) (by omega)
  refine ⟨⟨date, ((t + zone.offset t) % 86400).toNat, by omega⟩, parts_eq_some.mpr ?_⟩
  rw [LocalTime.wall, hdate]
  dsimp only
  omega

/-- **The offset in force at an instant of a local time is sampled.** -/
theorem mem_offsetsNear (hinland : civil.Inland) (h : parts zone t = some civil) :
    zone.offset t ∈ offsetsNear zone civil.wall := by
  obtain ⟨hbefore, hafter⟩ := hinland
  rw [parts_eq_some] at h
  have hbound := abs_le.mp (zone.bounded t)
  -- a sample of that offset renders, as it is at most six hours from the instant
  have hsample {k : ℕ} {s : ℤ} (hs : s = civil.wall + (6 * k - 48) * 3600) (hk : k < 17)
      (hlow : t - 6 * 3600 ≤ s) (hhigh : s ≤ t + 6 * 3600)
      (hoffset : zone.offset s = zone.offset t) :
      zone.offset t ∈ offsetsNear zone civil.wall := by
    obtain ⟨rendered, hrendered⟩ := @exists_parts zone s (by omega) (by omega)
    rw [offsetsNear, mem_dedup, mem_filterMap]
    refine ⟨k, mem_range.mpr hk, ?_⟩
    simp only [← hs, hrendered, Option.map_some, parts_eq_some.mp hrendered, hoffset,
      add_sub_cancel_left]
  obtain ⟨k, hk⟩ : ∃ k : ℕ, (k : ℤ) = (t - civil.wall) / (6 * 3600) + 8 :=
    ⟨_, Int.toNat_of_nonneg (by omega)⟩
  obtain hg | hg := @Zone.offset_eq_or zone t (civil.wall + (6 * k - 48) * 3600)
    (by omega) (by omega)
  · exact hsample rfl (by omega) (by omega) (by omega) hg
  · exact @hsample (k + 1) _ (by push_cast; ring) (by omega) (by omega) (by omega) hg

/-! ### Choices -/

theorem mem_instants (hinland : civil.Inland) :
    t ∈ (zonedChoices zone civil).map (·.instant) ↔ parts zone t = some civil := by
  simp only [zonedChoices, mem_map, mem_mergeSort, mem_filter, decide_eq_true_eq]
  constructor
  · rintro ⟨_, ⟨offset, ⟨-, h⟩, rfl⟩, rfl⟩
    exact h
  · intro h
    have hwall : civil.wall - zone.offset t = t := by rw [parts_eq_some.mp h, add_sub_cancel_right]
    exact ⟨_, ⟨_, ⟨mem_offsetsNear hinland h, by rwa [hwall]⟩, rfl⟩, hwall⟩

theorem pairwise_instants : ((zonedChoices zone civil).map (·.instant)).Pairwise (· < ·) := by
  have hle : ((zonedChoices zone civil).map (·.instant)).Pairwise (· ≤ ·) := by
    refine pairwise_map.mpr ((pairwise_mergeSort ?_ ?_ _).imp of_decide_eq_true)
    · intro a b c hab hbc
      simp only [decide_eq_true_eq] at hab hbc ⊢
      exact hab.trans hbc
    · intro a b
      simpa using le_total a.instant b.instant
  have hnodup : ((zonedChoices zone civil).map (·.instant)).Nodup := by
    refine ((mergeSort_perm _ _).map _).nodup_iff.mpr ?_
    rw [map_map]
    exact ((nodup_dedup _).filter _).map fun a b h => sub_right_injective h
  exact (hle.and hnodup).imp fun h => lt_of_le_of_ne h.1 h.2

theorem length_of_readLocalTime {date time : List Char}
    (h : readLocalTime date time = some civil) : date.length = 10 := by
  rw [readLocalTime, Option.bind_eq_bind, Option.bind_eq_some_iff] at h
  obtain ⟨day, hday, -⟩ := h
  rw [isoCalendarDate] at hday
  split_ifs at hday with hshape
  simp only [matchesShape, Bool.and_eq_true, decide_eq_true_eq] at hshape
  exact hshape.1.symm

section Resolution

variable {runtime : Runtime} {date time name : List Char}

theorem resolveLocalTime_eq {offset : Bool} (hread : readLocalTime date time = some civil)
    (hname : (runtime.canonicalTimeZone name).isSome) (hkind : offset || isNamedZone name)
    (hclocks : runtime.formatter name = some zone) :
    resolveLocalTime runtime date time name offset =
      ⟨if (zonedChoices zone civil).isEmpty then .gap else .ready, zonedChoices zone civil⟩ := by
  obtain ⟨canonical, hcanonical⟩ := Option.isSome_iff_exists.mp hname
  rw [resolveLocalTime, hread, hclocks, hcanonical, if_neg]
  cases offset with
  | true => simp
  | false => simpa using hkind

theorem civilDateTimeToInstant_eq_ok {timeZone : List Char}
    (hread : readLocalTime date time = some civil)
    (hname : (runtime.canonicalTimeZone name).isSome)
    (hclocks : runtime.formatter name = some zone)
    (htimeZone : runtime.canonicalTimeZone timeZone = some name) :
    civilDateTimeToInstant runtime (date ++ 'T' :: time) timeZone = .ok t ↔
      ∀ s, s ∈ (zonedChoices zone civil).map (·.instant) ↔ s = t := by
  have hlength := length_of_readLocalTime hread
  have htake : (date ++ 'T' :: time).take 10 = date := take_left' hlength
  have hdrop : (date ++ 'T' :: time).drop 11 = time := by
    rw [← singleton_append, ← append_assoc, drop_left' (by simp [hlength])]
  have hT : (date ++ 'T' :: time)[10]? = some 'T' := by simp [← hlength]
  have hpairwise := @pairwise_instants zone civil
  simp only [civilDateTimeToInstant, htake, hdrop, hT, htimeZone,
    resolveLocalTime_eq hread hname (Bool.true_or _) hclocks]
  cases hchoices : zonedChoices zone civil with
  | nil => simp
  | cons first rest =>
    cases rest with
    | nil =>
      change Except.ok _ = Except.ok t ↔ _
      rw [Except.ok.injEq]
      constructor
      · rintro rfl s
        simp
      · exact fun h => (h _).mp (by simp)
    | cons second rest =>
      rw [hchoices] at hpairwise
      have hlt : first.instant < second.instant := by
        simpa using (pairwise_cons.mp hpairwise).1 second.instant (by simp)
      refine iff_of_false (by simp) fun h => ?_
      have hfirst := (h first.instant).mp (by simp)
      have hsecond := (h second.instant).mp (by simp)
      omega

/-- **The choices of a local time are its instants, in order; there is a gap just when it has none,
and an instant is returned just when it has one.** -/
theorem resolveLocalTime_exact {offset : Bool} (hread : readLocalTime date time = some civil)
    (hinland : civil.Inland) (hname : (runtime.canonicalTimeZone name).isSome)
    (hkind : offset || isNamedZone name) (hclocks : runtime.formatter name = some zone) :
    let resolution := resolveLocalTime runtime date time name offset
    (∀ t, t ∈ resolution.choices.map (·.instant) ↔ parts zone t = some civil) ∧
    (resolution.choices.map (·.instant)).Pairwise (· < ·) ∧
    (resolution.kind = .gap ↔ ∀ t, parts zone t ≠ some civil) ∧
    ∀ timeZone, runtime.canonicalTimeZone timeZone = some name →
      ∀ t, civilDateTimeToInstant runtime (date ++ 'T' :: time) timeZone = .ok t ↔
        ∀ s, parts zone s = some civil ↔ s = t := by
  intro resolution
  have hresolution : resolution = _ := resolveLocalTime_eq hread hname hkind hclocks
  rw [hresolution]
  refine ⟨fun t => mem_instants hinland, pairwise_instants, ?_, fun timeZone htimeZone t => ?_⟩
  · simp only [ne_eq, ← mem_instants hinland]
    cases zonedChoices zone civil with
    | nil => simp
    | cons choice rest => exact iff_of_false (by simp) fun h => h choice.instant (by simp)
  · simp only [civilDateTimeToInstant_eq_ok hread hname hclocks htimeZone, mem_instants hinland]

/-- Clocks that go forward an hour when those of New York do in 2026. -/
def springForward : Zone where
  offset t := if t < 1772953200 then -18000 else -14400
  bounded t := by split_ifs <;> decide
  apart {s t} h hs ht := by split_ifs at hs ht <;> omega

/-- Half past two is skipped that night. -/
theorem resolveLocalTime_exact_gap :
    (resolveLocalTime ⟨some, fun _ => some springForward⟩ "2026-03-08".toList "02:30".toList
      "America/New_York".toList false).kind = .gap :=
  (@resolveLocalTime_exact springForward ⟨civilDay 2026 3 8, 9000, by decide⟩ _ _ _ _ _
    (by decide) ⟨by decide, by decide⟩ rfl (by decide) rfl).2.2.1.mpr fun t h => by
      have hwall : (1772937000 : ℤ) = t + if t < 1772953200 then -18000 else -14400 :=
        parts_eq_some.mp h
      split_ifs at hwall <;> omega

end Resolution

end OpenBooks.TimeZone
