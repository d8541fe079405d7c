import OpenBooks.Payroll.DerivedEarnings
import Mathlib.Data.List.Chain

/-!
# Every month and every night, once

Pay periods follow each other without a gap, and each pays the derived earnings it finds in
its own window. Over the whole calendar a month should be settled by exactly one period and
a night paid by exactly one.

For the nights that is so (`NightsPaidOnce`): a night belongs to the morning
after, each morning lies in one period, and the window of that period reaches back to the
evening before. For the months it is so just when no period holds two month ends: only the
first month end on or after a period's start is a candidate, so a second one in the same
period is settled by nobody. A monthly schedule anchored on the 30th has such a period every
winter – it runs from 31 January to the end of February.
-/

namespace OpenBooks

open Checked List FirstSeen

/-! ### Calendars -/

structure PayPeriod where
  start : CivilDate
  stop : CivilDate
  start_le : start ≤ stop

variable {p : PayPeriod}

theorem PayPeriod.eq_iff {q : PayPeriod} : p.start = q.start ∧ p.stop = q.stop ↔ p = q := by
  cases p
  cases q
  simp

instance : DecidableEq PayPeriod := fun _ _ => decidable_of_iff _ PayPeriod.eq_iff

def PayPeriod.Contains (period : PayPeriod) (day : CivilDate) : Prop :=
  period.start ≤ day ∧ day ≤ period.stop

instance (period : PayPeriod) (day : CivilDate) : Decidable (period.Contains day) :=
  inferInstanceAs (Decidable (_ ∧ _))

/-- A gap-free sequence of pay periods: each starts the day after the one before ends. -/
structure PayCalendar where
  periods : List PayPeriod
  consecutive : periods.IsChain fun p q => nextDay p.stop = some q.start

def PayCalendar.Covers (calendar : PayCalendar) (day : CivilDate) : Prop :=
  ∃ period ∈ calendar.periods, period.Contains day

theorem PayPeriod.stop_lt_of_next {q : PayPeriod} (h : nextDay p.stop = some q.start) :
    p.stop < q.start := by
  rw [CivilDate.lt_iff_dayNumber, CivilDate.dayNumber, CivilDate.dayNumber, utcDay_nextDay h]
  omega

variable (calendar : PayCalendar)

theorem PayCalendar.pairwise_lt : calendar.periods.Pairwise fun p q => p.stop < q.start := by
  have : IsTrans PayPeriod fun p q => p.stop < q.start :=
    ⟨fun _ q _ hpq hqr => hpq.trans (lt_of_le_of_lt q.start_le hqr)⟩
  exact (calendar.consecutive.imp fun _ _ => PayPeriod.stop_lt_of_next).pairwise

variable {day : CivilDate} {period : PayPeriod}

/-- **A day lies in one period**, and in none before or after it. -/
theorem PayCalendar.exists_split {calendar : PayCalendar} (hperiod : period ∈ calendar.periods)
    (hday : period.Contains day) :
    ∃ before after, calendar.periods = before ++ period :: after ∧
      ∀ other ∈ before ++ after, ¬other.Contains day := by
  obtain ⟨before, after, hsplit⟩ := append_of_mem hperiod
  refine ⟨before, after, hsplit, fun other hother hcontains => ?_⟩
  have hpairs := calendar.pairwise_lt
  rw [hsplit, pairwise_append, pairwise_cons] at hpairs
  obtain ⟨-, ⟨hafter, -⟩, hbefore⟩ := hpairs
  rcases mem_append.mp hother with hmem | hmem
  · have hlt := hbefore other hmem period (by simp)
    exact absurd (hcontains.2.trans_lt hlt) (not_lt.mpr hday.1)
  · have hlt := hafter other hmem
    exact absurd (hday.2.trans_lt hlt) (not_lt.mpr hcontains.1)

theorem PayCalendar.sum_eq {calendar : PayCalendar} (hperiod : period ∈ calendar.periods)
    (hday : period.Contains day) {f : PayPeriod → ℕ}
    (hf : ∀ other ∈ calendar.periods, ¬other.Contains day → f other = 0) :
    (calendar.periods.map f).sum = f period := by
  obtain ⟨before, after, hsplit, hothers⟩ := calendar.exists_split hperiod hday
  have hzero : ∀ part ⊆ before ++ after, (part.map f).sum = 0 := by
    intro part hpart
    refine sum_eq_zero fun n hn => ?_
    obtain ⟨other, hother, rfl⟩ := mem_map.mp hn
    refine hf other ?_ (hothers other (hpart hother))
    rw [hsplit]
    rcases mem_append.mp (hpart hother) with h | h <;> simp [h]
  rw [hsplit, map_append, sum_append, map_cons, sum_cons,
    hzero before (subset_append_left _ _), hzero after (subset_append_right _ _)]
  omega

/-! ### Months -/

def IsMonthEnd (day : CivilDate) : Prop := endOfMonth day = day

instance (day : CivilDate) : Decidable (IsMonthEnd day) :=
  inferInstanceAs (Decidable (endOfMonth day = day))

def monthEnding (day : CivilDate) : DaySpan := ⟨startOfMonth day, day⟩

/-- Every month whose last day lies in the calendar is settled by exactly one period. -/
def MonthsSettledOnce (calendar : PayCalendar) : Prop :=
  ∀ day, IsMonthEnd day → calendar.Covers day →
    calendar.periods.countP (fun p => settlementMonth p.start p.stop = some (monthEnding day)) = 1

/-- What a period settles lies inside the window its entries are read from. -/
def WindowsHoldMonths (calendar : PayCalendar) (rules : List DerivedRule) : Prop :=
  rules.any (·.trigger = .monthEnd) → ∀ p ∈ calendar.periods, ∀ month window,
    settlementMonth p.start p.stop = some month →
    derivedEntryWindow rules p.start p.stop = .ok window →
    window.start ≤ month.start ∧ month.stop ≤ window.stop

/-- No period holds the last days of two months. -/
def OneMonthEnd (calendar : PayCalendar) : Prop :=
  ∀ p ∈ calendar.periods, ∀ day day', p.Contains day → p.Contains day' →
    IsMonthEnd day → IsMonthEnd day' → day = day'

theorem settlementMonth_eq_some {month : DaySpan} :
    settlementMonth p.start p.stop = some month ↔
      p.Contains (endOfMonth p.start) ∧ month = monthEnding (endOfMonth p.start) := by
  by_cases h : endOfMonth p.start ≤ p.stop
  · simp [settlementMonth, PayPeriod.Contains, h, le_endOfMonth, monthEnding, eq_comm]
  · simp [settlementMonth, PayPeriod.Contains, h]

/-- A period settles the month that ends on a day of its own just when that is the first month
end it reaches. -/
theorem settles_iff :
    settlementMonth p.start p.stop = some (monthEnding day) ↔
      p.Contains day ∧ endOfMonth p.start = day := by
  rw [settlementMonth_eq_some]
  constructor
  · rintro ⟨hcontains, hmonth⟩
    have hday : day = endOfMonth p.start := congrArg DaySpan.stop hmonth
    exact ⟨hday ▸ hcontains, hday.symm⟩
  · rintro ⟨hcontains, rfl⟩
    exact ⟨hcontains, rfl⟩

theorem countP_settles {calendar : PayCalendar} (hp : p ∈ calendar.periods)
    (hday : p.Contains day) :
    calendar.periods.countP (fun p => settlementMonth p.start p.stop = some (monthEnding day)) =
      if endOfMonth p.start = day then 1 else 0 := by
  obtain ⟨before, after, hsplit, hothers⟩ := calendar.exists_split hp hday
  have hzero : ∀ part ⊆ before ++ after, part.countP
      (fun p => settlementMonth p.start p.stop = some (monthEnding day)) = 0 := by
    intro part hpart
    refine List.countP_eq_zero.mpr fun other hother => ?_
    simpa only [decide_eq_true_eq, settles_iff, not_and] using
      fun hcontains => absurd hcontains (hothers other (hpart hother))
  rw [hsplit, countP_append, countP_cons, hzero before (subset_append_left _ _),
    hzero after (subset_append_right _ _)]
  simp [settles_iff, hday]

theorem monthsSettledOnce_iff : MonthsSettledOnce calendar ↔ OneMonthEnd calendar := by
  constructor
  · intro h p hp
    have hfirst : ∀ day, p.Contains day → IsMonthEnd day → endOfMonth p.start = day := by
      intro day hday hend
      have hone := h day hend ⟨p, hp, hday⟩
      rw [countP_settles hp hday] at hone
      by_contra hne
      rw [if_neg hne] at hone
      exact absurd hone (by decide)
    intro day day' hday hday' hend hend'
    rw [← hfirst day hday hend, hfirst day' hday' hend']
  · rintro h day hend ⟨p, hp, hday⟩
    have hle : endOfMonth p.start ≤ day := endOfMonth_le hend hday.1
    have hfirst := h p hp (endOfMonth p.start) day ⟨le_endOfMonth _, hle.trans hday.2⟩ hday
      (endOfMonth_endOfMonth _) hend
    rw [countP_settles hp hday, if_pos hfirst]

theorem windowsHoldMonths (rules : List DerivedRule) : WindowsHoldMonths calendar rules := by
  intro hrules p hp month window hmonth hwindow
  have hstop : month.stop ≤ p.stop := by
    obtain ⟨hcontains, rfl⟩ := settlementMonth_eq_some.mp hmonth
    exact hcontains.2
  simp only [derivedEntryWindow, bind_eq_ok, hrules, if_true, hmonth, pure_eq_ok] at hwindow
  obtain ⟨lookback, -, rfl⟩ := hwindow
  refine ⟨?_, hstop⟩
  dsimp only
  split_ifs with hlt
  · exact le_refl _
  · exact not_lt.mp hlt

/-! ### Nights within one period -/

section Nights

variable {rule : DerivedRule} {employee : DerivedEmployeeScope} {entries : List DerivedTimeEntry}

def entriesOn (entries : List DerivedTimeEntry) (day : CivilDate) : List DerivedTimeEntry :=
  entries.filter fun entry => entry.workedOn = day

/-- A morning after a night: entries on the day and on the day before. -/
def IsNight (entries : List DerivedTimeEntry) (day : CivilDate) : Prop :=
  entriesOn entries day ≠ [] ∧ ∃ before, prevDay day = .ok before ∧ entriesOn entries before ≠ []

instance (entries : List DerivedTimeEntry) (day : CivilDate) : Decidable (IsNight entries day) :=
  match h : prevDay day with
  | .ok before => decidable_of_iff
      (entriesOn entries day ≠ [] ∧ entriesOn entries before ≠ []) (by simp [IsNight, h])
  | .error e => isFalse (by simp [IsNight, h])

def PendingUnit.fact (unit : PendingUnit) : CivilDate × ℤ := (unit.day, unit.quantity)

variable {window : DaySpan} {units : List PendingUnit}

theorem nightUnit_eq_ok (hday : entriesOn entries day ≠ [])
    (h : nightUnit rule window (groupBy (·.workedOn) entries) day = .ok units) :
    units.map PendingUnit.fact =
      if window.start ≤ day ∧ day ≤ window.stop ∧ IsNight entries day then
        [(day, unitQuantity rule (entriesOn entries day))] else [] := by
  unfold nightUnit at h
  split_ifs at h with hout
  · obtain rfl := Except.ok.inj h
    rw [if_neg (by rintro ⟨hlow, hhigh, -⟩; exact hout.elim (not_lt.mpr hlow) (not_lt.mpr hhigh))]
    rfl
  · obtain ⟨hlow, hhigh⟩ := not_or.mp hout
    simp only [bind_eq_ok, mapError_eq_ok, head?_lookup_groupBy,
      getD_lookup_groupBy] at h
    obtain ⟨before, hbefore, h⟩ := h
    split at h
    · next hnone =>
      obtain rfl := pure_eq_ok.mp h
      have hempty : entriesOn entries before = [] := head?_eq_none_iff.mp hnone
      rw [if_neg (by simp [IsNight, hbefore, hempty])]
      rfl
    · next slept hslept =>
      obtain rfl := pure_eq_ok.mp h
      have hfound : entriesOn entries before ≠ [] := by
        rintro hempty
        exact absurd (hslept.symm.trans (congrArg head? hempty)) (by simp)
      rw [if_pos ⟨not_lt.mp hlow, not_lt.mp hhigh, hday, before, hbefore, hfound⟩]
      rfl

/-- The mornings after a night that lie in a window, among some days. -/
def nightsAmong (window : DaySpan) (entries : List DerivedTimeEntry) (days : List CivilDate) :
    List CivilDate :=
  days.filter fun day => window.start ≤ day ∧ day ≤ window.stop ∧ IsNight entries day

variable {days : List CivilDate}

theorem collect_nightUnit (hdays : ∀ day ∈ days, entriesOn entries day ≠ [])
    (h : collect (nightUnit rule window (groupBy (·.workedOn) entries)) days =
      .ok units) :
    units.map PendingUnit.fact =
      (nightsAmong window entries days).map fun day =>
        (day, unitQuantity rule (entriesOn entries day)) := by
  obtain ⟨yss, hyss, rfl⟩ := collect_eq_ok.mp h
  clear h
  induction hyss with
  | nil => rfl
  | @cons day units days yss hunit _ ih =>
    rw [flatten_cons, map_append, ih fun d hd => hdays d (by simp [hd]),
      nightUnit_eq_ok (hdays day (by simp)) hunit]
    by_cases hin : window.start ≤ day ∧ day ≤ window.stop ∧ IsNight entries day
    · rw [if_pos hin, nightsAmong, nightsAmong, filter_cons_of_pos (by simpa using hin)]
      rfl
    · rw [if_neg hin, nightsAmong, nightsAmong, filter_cons_of_neg (by simpa using hin)]
      rfl

/-- **What a night rule finds**: one fact for each morning after a night in the window, in the
order of the days. -/
theorem nightUnits_eq_ok (h : nightUnits rule window entries = .ok units) :
    ∃ days : List CivilDate, days.Nodup ∧
      (∀ day, day ∈ days ↔ window.start ≤ day ∧ day ≤ window.stop ∧ IsNight entries day) ∧
      units.map PendingUnit.fact =
        days.map fun day => (day, unitQuantity rule (entriesOn entries day)) := by
  set days := ((groupBy (·.workedOn) entries).map Prod.fst).insertionSort (· ≤ ·)
  have hmem : ∀ day, day ∈ days ↔ entriesOn entries day ≠ [] := by
    intro day
    rw [mem_insertionSort, map_fst_groupBy, FirstSeen.mem_keys]
    simp [entriesOn]
  have hnodup : days.Nodup :=
    (perm_insertionSort _ _).nodup_iff.mpr (nodup_map_fst_groupBy _ _)
  refine ⟨nightsAmong window entries days, hnodup.filter _, fun day => ?_,
    collect_nightUnit (fun day hday => (hmem day).mp hday) h⟩
  simp only [nightsAmong, mem_filter, decide_eq_true_eq, hmem]
  exact and_iff_right_of_imp fun hin => hin.2.2.1

/-! ### What is priced -/

theorem allocateByQuantity_eq_ok {total : ℤ} {quantities : List ℤ} {shares : Option (List ℤ)}
    (h : allocateByQuantity total quantities = .ok shares) :
    (∀ q ∈ quantities, 0 ≤ q) ∧ (shares = none ↔ quantities.sum = 0) ∧
      ∀ s ∈ shares, s.length = quantities.length := by
  simp only [allocateByQuantity, bind_eq_ok, refuseIf_eq_ok] at h
  obtain ⟨_, hnonneg, h⟩ := h
  refine ⟨fun q hq => not_lt.mp fun hlt => hnonneg ⟨q, hq, hlt⟩, ?_⟩
  split_ifs at h with hzero
  · obtain rfl := pure_eq_ok.mp h
    simp [hzero]
  · simp only [bind_eq_ok, mapError_eq_ok, pure_eq_ok] at h
    obtain ⟨parts, hparts, rfl⟩ := h
    simp [hzero, length_apportion hparts]

theorem map_zipWith_mk (units : List PendingUnit) (amounts : List ℤ)
    (h : amounts.length = units.length) :
    (units.zipWith (fun unit amount => DerivedUnit.mk unit amount) amounts).map
      DerivedUnit.toPendingUnit = units := by
  induction units generalizing amounts with
  | nil => simp
  | cons unit units ih =>
    cases amounts with
    | nil => cases h
    | cons amount amounts => simp [ih amounts (by simpa using h)]

/-- **Pricing keeps the facts**, all of them or – a percentage of gross with nothing to split it
against – none. -/
theorem pricedUnits_eq_ok {gross rate : ℤ} {costed : List PendingUnit}
    {priced : Option (List DerivedUnit)} (h : pricedUnits rule gross rate costed = .ok priced) :
    (rule.rateMode = .percentOfGross → ∀ unit ∈ costed, 0 ≤ unit.quantity) ∧
      (priced = none ↔
        rule.rateMode = .percentOfGross ∧ (costed.map (·.quantity)).sum = 0) ∧
      ∀ units ∈ priced, units.map (·.toPendingUnit) = costed := by
  unfold pricedUnits at h
  split at h
  · next hmode =>
    simp only [bind_eq_ok, pure_eq_ok] at h
    obtain ⟨percent, -, shares, hshares, rfl⟩ := h
    obtain ⟨hnonneg, hnone, hlength⟩ := allocateByQuantity_eq_ok hshares
    refine ⟨fun _ unit hunit => hnonneg _ (mem_map_of_mem hunit), by simp [hmode, hnone], ?_⟩
    intro units hunits
    obtain ⟨amounts, hamounts, rfl⟩ := Option.map_eq_some_iff.mp hunits
    exact map_zipWith_mk costed amounts (by simpa using hlength amounts hamounts)
  · next hmode =>
    simp only [bind_eq_ok, pure_eq_ok] at h
    obtain ⟨percent, -, rfl⟩ := h
    simp [hmode, Function.comp_def]
  · next hgross _ =>
    obtain rfl := Except.ok.inj h
    have hmode : rule.rateMode ≠ .percentOfGross := hgross
    simp [hmode, Function.comp_def]

theorem fact_costedUnit (unit : PendingUnit) :
    (costedUnit rule entries unit).fact = unit.fact := by
  unfold costedUnit
  split <;> rfl

variable {lower : String → String} {result : AppliedRule}

/-- **The facts a rule pays are the facts it finds**, unless they are all of no quantity and the
rule splits a percentage of gross over them. -/
theorem applyDerivedRule_eq_ok {input : DerivedEarningsInput}
    (hadmits : ruleAdmitsEmployee lower rule input.employee = true)
    (h : applyDerivedRule lower rule input = .ok result) :
    ∃ pending, unitsForRule rule input = .ok pending ∧
      (rule.rateMode = .percentOfGross → ∀ q ∈ pending.map (·.fact.2), 0 ≤ q) ∧
      result.units.map (·.fact) =
        if rule.rateMode = .percentOfGross ∧ (pending.map (·.fact.2)).sum = 0 then []
        else pending.map (·.fact) := by
  simp only [applyDerivedRule, hadmits, Bool.true_eq_false, if_false, bind_eq_ok,
    orRefuse_eq_ok] at h
  obtain ⟨component, -, pending, hpending, h⟩ := h
  refine ⟨pending, hpending, ?_⟩
  split_ifs at h with hempty
  · obtain rfl := pure_eq_ok.mp h
    simp [hempty]
  · simp only [bind_eq_ok] at h
    obtain ⟨rate, -, priced, hpriced, h⟩ := h
    obtain ⟨hnonneg, hnone, hkeep⟩ := pricedUnits_eq_ok hpriced
    have hfacts : (pending.map (costedUnit rule input.entries)).map PendingUnit.fact =
        pending.map PendingUnit.fact := by
      simp [Function.comp_def, fact_costedUnit]
    have hquantities : (pending.map (costedUnit rule input.entries)).map (·.quantity) =
        pending.map (·.fact.2) := by
      simpa [Function.comp_def, PendingUnit.fact] using congrArg (List.map Prod.snd) hfacts
    rw [hquantities] at hnone
    refine ⟨fun hmode q hq => ?_, ?_⟩
    · rw [← hquantities] at hq
      obtain ⟨unit, hunit, rfl⟩ := mem_map.mp hq
      exact hnonneg hmode unit hunit
    · cases priced with
      | none =>
        obtain rfl := pure_eq_ok.mp h
        rw [if_pos (hnone.mp rfl)]
        rfl
      | some units =>
        simp only [bind_eq_ok, pure_eq_ok] at h
        obtain ⟨lines, -, rfl⟩ := h
        rw [if_neg (fun hc => absurd (hnone.mpr hc) (by simp)), ← hfacts,
          ← hkeep units rfl, map_map]
        rfl

/-! ### One period of a calendar -/

/-- What a pay run brings to one period beside the time entries. -/
structure PeriodPay where
  components : List DerivedComponent
  charges : List DerivedEquipmentCharge
  gross : ℤ
  rateOverrides : List (String × ℤ)

/-- Apply a rule in one period, to the entries of that period's own window. -/
def payPeriod (lower : String → String) (rules : List DerivedRule) (rule : DerivedRule)
    (employee : DerivedEmployeeScope) (entries : List DerivedTimeEntry) (pay : PeriodPay)
    (p : PayPeriod) : Except DerivedError AppliedRule := do
  let window ← (derivedEntryWindow rules p.start p.stop).mapError .range
  applyDerivedRule lower rule
    { components := pay.components, employee
      entries := entries.filter fun e => window.start ≤ e.workedOn && e.workedOn ≤ window.stop
      charges := pay.charges, periodStart := p.start, periodEnd := p.stop, gross := pay.gross
      rateOverrides := pay.rateOverrides }

def qualifyingEntries (rule : DerivedRule) (employee : DerivedEmployeeScope)
    (entries : List DerivedTimeEntry) : List DerivedTimeEntry :=
  entries.filter fun entry => entryMatches rule entry employee

def hoursOn (entries : List DerivedTimeEntry) (day : CivilDate) : ℤ :=
  ((entriesOn entries day).map (·.hours)).sum

variable {rules : List DerivedRule}

theorem derivedEntryWindow_night (hrule : rule ∈ rules) (htrigger : rule.trigger = .nightStayed)
    (h : derivedEntryWindow rules p.start p.stop = .ok window) :
    (∀ day before, p.Contains day → prevDay day = .ok before → window.start ≤ before) ∧
      window.start ≤ p.start ∧ window.stop = p.stop := by
  have hany : rules.any (·.trigger = .nightStayed) = true :=
    any_eq_true.mpr ⟨rule, hrule, by simpa using htrigger⟩
  simp only [derivedEntryWindow, nightLookback, hany, if_true, bind_eq_ok] at h
  obtain ⟨lookback, hlookback, h⟩ := h
  have hnumber := dayNumber_prevDay hlookback
  have hwindow : window.start ≤ lookback ∧ window.stop = p.stop := by
    split at h <;> obtain rfl := pure_eq_ok.mp h
    · dsimp only
      split_ifs with hlt
      · exact ⟨hlt.le, rfl⟩
      · exact ⟨le_refl _, rfl⟩
    · exact ⟨le_refl _, rfl⟩
  refine ⟨fun day before hday hbefore => hwindow.1.trans ?_, hwindow.1.trans ?_, hwindow.2⟩
  · have hnumber' := dayNumber_prevDay hbefore
    have hle := CivilDate.le_iff_dayNumber.mp hday.1
    rw [CivilDate.le_iff_dayNumber]
    omega
  · rw [CivilDate.le_iff_dayNumber]
    omega

/-- The entries a rule works on in a period, in the order it works on them. -/
def visibleEntries (rule : DerivedRule) (employee : DerivedEmployeeScope) (window : DaySpan)
    (entries : List DerivedTimeEntry) : List DerivedTimeEntry :=
  (qualifyingEntries rule employee (entries.filter fun e =>
    window.start ≤ e.workedOn && e.workedOn ≤ window.stop)).insertionSort byClockThenCaptureOrder

/-- Within its window a period sees of a day's entries what there is, in some order. -/
theorem entriesOn_visibleEntries_perm (rule : DerivedRule) (employee : DerivedEmployeeScope)
    (entries : List DerivedTimeEntry) (hlow : window.start ≤ day) (hhigh : day ≤ window.stop) :
    (entriesOn (visibleEntries rule employee window entries) day).Perm
      (entriesOn (qualifyingEntries rule employee entries) day) := by
  refine ((perm_insertionSort _ _).filter _).trans (Perm.of_eq ?_)
  simp only [qualifyingEntries, entriesOn, filter_filter]
  refine filter_congr fun entry _ => ?_
  by_cases h : entry.workedOn = day
  · simp [h, hlow, hhigh]
  · simp [h]

/-- Within its window a period sees the nights there are. -/
theorem isNight_visibleEntries_iff (hrule : rule ∈ rules)
    (htrigger : rule.trigger = .nightStayed)
    (hwindow : derivedEntryWindow rules p.start p.stop = .ok window) (hday : p.Contains day) :
    IsNight (visibleEntries rule employee window entries) day ↔
      IsNight (qualifyingEntries rule employee entries) day := by
  obtain ⟨hevening, hstart, hstop⟩ := derivedEntryWindow_night hrule htrigger hwindow
  have hsame : ∀ d, window.start ≤ d → d ≤ window.stop →
      (entriesOn (visibleEntries rule employee window entries) d ≠ [] ↔
        entriesOn (qualifyingEntries rule employee entries) d ≠ []) := by
    intro d hlow hhigh
    rw [← length_pos_iff, ← length_pos_iff,
      (entriesOn_visibleEntries_perm rule employee entries hlow hhigh).length_eq]
  have hend : day ≤ window.stop := hstop ▸ hday.2
  refine and_congr (hsame day (hstart.trans hday.1) hend)
    (exists_congr fun before => and_congr_right fun hbefore => ?_)
  refine hsame before (hevening day before hday hbefore) (le_trans ?_ hend)
  rw [CivilDate.le_iff_dayNumber, dayNumber_prevDay hbefore]
  omega

/-- What a night counts for: the hours of its morning, or one. -/
def nightQuantity (rule : DerivedRule) (entries : List DerivedTimeEntry) (day : CivilDate) : ℤ :=
  if rule.quantityMode = .sumHours then hoursOn entries day else SCALE

/-- A night of a percent-of-gross rule measured in hours is paid only beside a night with hours
in the same period; every other rule pays every night. -/
def Measured (rule : DerivedRule) (entries : List DerivedTimeEntry) (p : PayPeriod) : Prop :=
  rule.rateMode = .percentOfGross → rule.quantityMode = .sumHours →
    ∃ day, p.Contains day ∧ IsNight entries day ∧ hoursOn entries day ≠ 0

/-- There is something to split a percentage over just when a night has hours. -/
theorem measured_iff (hday : day ∈ days)
    (hdays : ∀ d, d ∈ days ↔ p.Contains d ∧ IsNight entries d)
    (hnonneg : rule.rateMode = .percentOfGross → ∀ d ∈ days, 0 ≤ nightQuantity rule entries d) :
    Measured rule entries p ↔
      ¬(rule.rateMode = .percentOfGross ∧ (days.map (nightQuantity rule entries)).sum = 0) := by
  constructor
  · rintro hmeasured ⟨hmode, hsum⟩
    have hzero : ∀ d ∈ days, nightQuantity rule entries d = 0 := by
      intro d hd
      exact all_zero_of_le_zero_le_of_sum_eq_zero (by simpa using hnonneg hmode) hsum
        (mem_map_of_mem hd)
    by_cases hhours : rule.quantityMode = .sumHours
    · obtain ⟨d, hd, hnight, hne⟩ := hmeasured hmode hhours
      have hq := hzero d ((hdays d).mpr ⟨hd, hnight⟩)
      rw [nightQuantity, if_pos hhours] at hq
      exact hne hq
    · have hq := hzero day hday
      rw [nightQuantity, if_neg hhours] at hq
      exact absurd hq (by decide)
  · intro hsum hmode hhours
    by_contra hnone
    push Not at hnone
    refine hsum ⟨hmode, sum_eq_zero fun q hq => ?_⟩
    obtain ⟨d, hd, rfl⟩ := mem_map.mp hq
    obtain ⟨hcontains, hnight⟩ := (hdays d).mp hd
    rw [nightQuantity, if_pos hhours]
    exact hnone d hcontains hnight

/-- **One period of a calendar pays its own mornings**: one unit for each, and nothing else. -/
theorem payPeriod_eq_ok {pay : PeriodPay} (hrule : rule ∈ rules)
    (htrigger : rule.trigger = .nightStayed)
    (hadmits : ruleAdmitsEmployee lower rule employee = true)
    (h : payPeriod lower rules rule employee entries pay p = .ok result) (day : CivilDate) :
    (¬p.Contains day → result.units.countP (·.day = day) = 0) ∧
      (p.Contains day → IsNight (qualifyingEntries rule employee entries) day →
        (result.units.countP (·.day = day) = 1 ↔
          Measured rule (qualifyingEntries rule employee entries) p)) := by
  simp only [payPeriod, bind_eq_ok, mapError_eq_ok] at h
  obtain ⟨window, hwindow, h⟩ := h
  obtain ⟨-, hstart, hstop⟩ := derivedEntryWindow_night hrule htrigger hwindow
  obtain ⟨pending, hpending, hnonneg, hunits⟩ := applyDerivedRule_eq_ok (by exact hadmits) h
  simp only [unitsForRule, htrigger] at hpending
  obtain ⟨days, hnodup, hvisible, hfacts⟩ := nightUnits_eq_ok hpending
  have hdays : ∀ d, d ∈ days ↔
      p.Contains d ∧ IsNight (qualifyingEntries rule employee entries) d := by
    intro d
    rw [hvisible, ← and_assoc]
    exact and_congr_right fun hd => isNight_visibleEntries_iff hrule htrigger hwindow hd
  have hquantities : pending.map (·.fact.2) =
      days.map (nightQuantity rule (qualifyingEntries rule employee entries)) := by
    have hsnd := congrArg (List.map Prod.snd) hfacts
    simp only [map_map, Function.comp_def] at hsnd
    refine hsnd.trans (map_congr_left fun d hd => ?_)
    obtain ⟨hlow, hhigh⟩ := ((hdays d).mp hd).1
    have hperm := entriesOn_visibleEntries_perm rule employee entries (hstart.trans hlow)
      (hstop ▸ hhigh)
    unfold unitQuantity nightQuantity
    split_ifs
    · exact (hperm.map _).sum_eq
    · rfl
  have hcount : result.units.countP (·.day = day) =
      (result.units.map (·.fact)).countP (·.1 = day) := by
    rw [countP_map]
    rfl
  have hcountDays : (pending.map PendingUnit.fact).countP (·.1 = day) = days.count day := by
    rw [hfacts, countP_map, List.count]
    exact countP_congr fun d _ => by simp
  rw [hcount, hunits, hquantities]
  rw [hquantities] at hnonneg
  constructor
  · intro hout
    split_ifs
    · rfl
    · rw [hcountDays]
      exact count_eq_zero.mpr fun hmem => hout ((hdays day).mp hmem).1
  · intro hin hnight
    have hmem := (hdays day).mpr ⟨hin, hnight⟩
    rw [measured_iff hmem hdays fun hmode d hd => hnonneg hmode _ (mem_map_of_mem hd)]
    split_ifs with hzero
    · simp [hzero]
    · rw [hcountDays, count_eq_one_of_mem hnodup hmem]
      simp [hzero]

/-! ### The whole calendar -/

/-- Every night whose morning lies in the calendar yields exactly one unit, in exactly one
period. -/
def NightsPaidOnce (calendar : PayCalendar) (qualifying : List DerivedTimeEntry)
    (result : PayPeriod → AppliedRule) : Prop :=
  ∀ day, IsNight qualifying day → calendar.Covers day →
    (calendar.periods.map fun p => (result p).units.countP (·.day = day)).sum = 1

/-- Every month settled once, inside its period's window, and every night paid once. -/
def MonthsAndNightsPaidOnce (calendar : PayCalendar) (rules : List DerivedRule)
    (qualifying : List DerivedTimeEntry) (result : PayPeriod → AppliedRule) : Prop :=
  MonthsSettledOnce calendar ∧ WindowsHoldMonths calendar rules ∧
    NightsPaidOnce calendar qualifying result

/-- Every period with a night has a measure to pay its nights by. -/
def NightsMeasured (calendar : PayCalendar) (rule : DerivedRule)
    (qualifying : List DerivedTimeEntry) : Prop :=
  ∀ p ∈ calendar.periods, ∀ day, p.Contains day → IsNight qualifying day →
    Measured rule qualifying p

/-- **Every month and every night is paid exactly once**, over a whole calendar of consecutive
pay periods, just when no period holds the last days of two months – and, for a percentage of
gross split by hours, when no period's nights are all without hours. -/
theorem months_and_nights_paid_once_iff {lower : String → String} {calendar : PayCalendar}
    {rules : List DerivedRule} {pay : PayPeriod → PeriodPay} {result : PayPeriod → AppliedRule}
    (hrule : rule ∈ rules) (htrigger : rule.trigger = .nightStayed)
    (hadmits : ruleAdmitsEmployee lower rule employee = true)
    (hrun : ∀ p ∈ calendar.periods,
      payPeriod lower rules rule employee entries (pay p) p = .ok (result p)) :
    MonthsAndNightsPaidOnce calendar rules (qualifyingEntries rule employee entries) result ↔
      OneMonthEnd calendar ∧
        NightsMeasured calendar rule (qualifyingEntries rule employee entries) := by
  have hnights : NightsPaidOnce calendar (qualifyingEntries rule employee entries) result ↔
      NightsMeasured calendar rule (qualifyingEntries rule employee entries) := by
    have hunits := fun p hp day =>
      payPeriod_eq_ok hrule htrigger hadmits (hrun p hp) day
    -- the count over the calendar is the count in the one period that holds the morning
    have hsum : ∀ p ∈ calendar.periods, ∀ day, p.Contains day →
        (calendar.periods.map fun p => (result p).units.countP (·.day = day)).sum =
          (result p).units.countP (·.day = day) := fun p hp day hday =>
      calendar.sum_eq hp hday fun other hother hout => (hunits other hother day).1 hout
    constructor
    · intro h p hp day hday hnight
      have hone := h day hnight ⟨p, hp, hday⟩
      rw [hsum p hp day hday] at hone
      exact ((hunits p hp day).2 hday hnight).mp hone
    · rintro h day hnight ⟨p, hp, hday⟩
      rw [hsum p hp day hday]
      exact ((hunits p hp day).2 hday hnight).mpr (h p hp day hday hnight)
  rw [MonthsAndNightsPaidOnce, monthsSettledOnce_iff, hnights]
  exact and_congr_right fun _ => and_iff_right (windowsHoldMonths calendar rules)

end Nights

/-! ### A schedule anchored on the 30th -/

/-- Nights at 50.00 each, for everyone and every job. -/
def perDiemRule : DerivedRule :=
  { id := "r1", code := "PERDIEM", name := "Per diem", componentId := "c1"
    trigger := .nightStayed, timeTypeId := none, projectId := none, departmentId := none
    equipmentUnitId := none, itemId := none, tradeId := none, jobTitle := none
    billableOnly := false, includedJobTitles := [], excludedJobTitles := []
    quantityMode := .countNights, rateMode := .fixedPerUnit, rateValue := some 500000
    costingMode := .source, sequence := 50 }

def perDiemPay : PeriodPay :=
  { components := [⟨"c1", "Per diem", none, false, false, false, false, none, none, none⟩]
    charges := [], gross := 0, rateOverrides := [] }

def anyEmployee : DerivedEmployeeScope := ⟨none, none, none, none⟩

/-- The last evening of January and the first morning of February 2024. -/
def turnOfMonth : List DerivedTimeEntry :=
  [⟨"e1", civilDay 2024 1 30, 80000, none, some "p1", none, true, none, none⟩,
    ⟨"e2", civilDay 2024 1 31, 80000, none, some "p1", none, true, none, none⟩]

def leapDay : CivilDate := civilDay 2024 2 29

/-- The monthly periods that end on the 30th, or on the last day of February. -/
def anchoredOnThe30th : PayCalendar where
  periods :=
    [⟨civilDay 2023 12 31, civilDay 2024 1 30, by decide⟩,
      ⟨civilDay 2024 1 31, leapDay, by decide⟩,
      ⟨civilDay 2024 3 1, civilDay 2024 3 30, by decide⟩]
  consecutive := by decide

/-- The pay runs of that schedule. -/
def perDiemResult (p : PayPeriod) : AppliedRule :=
  ((payPeriod id [perDiemRule] perDiemRule anyEmployee turnOfMonth perDiemPay p).toOption).getD
    ⟨[], []⟩

theorem february_settled_by_no_period :
    (∀ p ∈ anchoredOnThe30th.periods,
      payPeriod id [perDiemRule] perDiemRule anyEmployee turnOfMonth perDiemPay p =
        .ok (perDiemResult p)) ∧
      ¬MonthsAndNightsPaidOnce anchoredOnThe30th [perDiemRule]
        (qualifyingEntries perDiemRule anyEmployee turnOfMonth) perDiemResult := by
  refine ⟨by decide +kernel, fun h => ?_⟩
  have hcovers : anchoredOnThe30th.Covers leapDay :=
    ⟨⟨civilDay 2024 1 31, leapDay, by decide⟩, by decide, by decide⟩
  have hone := h.1 leapDay (by decide) hcovers
  exact absurd hone (by decide +kernel)

/-- The calendar months of January and February. -/
def calendarMonths : PayCalendar where
  periods :=
    [⟨civilDay 2024 1 1, civilDay 2024 1 31, by decide⟩, ⟨civilDay 2024 2 1, leapDay, by decide⟩]
  consecutive := by decide

theorem months_and_nights_paid_once_by_month :
    MonthsAndNightsPaidOnce calendarMonths [perDiemRule]
      (qualifyingEntries perDiemRule anyEmployee turnOfMonth) perDiemResult := by
  have hadmits : ruleAdmitsEmployee id perDiemRule anyEmployee = true := by decide +kernel
  have hrun : ∀ p ∈ calendarMonths.periods,
      payPeriod id [perDiemRule] perDiemRule anyEmployee turnOfMonth ((fun _ => perDiemPay) p) p =
        .ok (perDiemResult p) := by decide +kernel
  refine (months_and_nights_paid_once_iff (by simp) rfl hadmits hrun).mpr
    ⟨fun p hp day day' hday hday' hend hend' => ?_, fun p hp day hday hnight hgross => ?_⟩
  · have hlast : ∀ p ∈ calendarMonths.periods, p.stop ≤ endOfMonth p.start := by decide
    have hstart : ∀ {day}, p.Contains day → IsMonthEnd day → day = endOfMonth p.start := by
      intro day hday hend
      have hmonth := CivilDate.inMonth_mono hday.1
      rw [← CivilDate.inMonth_endOfMonth p.start] at hmonth
      have hle := CivilDate.le_endOfMonth_of_inMonth_le hmonth
      exact le_antisymm (hday.2.trans (hlast p hp)) (hle.trans hend.le)
    rw [hstart hday hend, hstart hday' hend']
  · cases hgross

end OpenBooks
