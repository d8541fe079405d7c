import OpenBooks.Close.FxRevaluation

/-!
# Revaluations converge

A run adds to the book one pair, the difference between what its period requires and what is
effective there. The pair is seen whole or not at all, except from the close of its own period. Seen
from any other period of the calendar it comes to nothing, because the mirror lies in the *next*
period and the ranges of a calendar do not overlap (`closes_next`). So a run leaves alone what is
required elsewhere.

The other half is that an adjustment is no position: the entries of a run are left out by their
origin, and nothing that was on the book before can name them, so no application and no reversal is
read differently (`effectiveApplications_append`). This needs ids to be fresh, which is the
invariant `FxRevaluation.Kept` of the book over every sequence of operations.
-/

namespace OpenBooks.FxRevaluation

open Checked List

/-! ### The adjustments of an account -/

/-- What the lines of an entry come to on an account of the legal entity. -/
def entryTotal (ctx : BookContext) (a : ℕ) (entry : JournalEntry) : ℤ :=
  ((entry.lines.filter fun l => l.subsidiaryId = ctx.subsidiaryId ∧ l.accountId = a).map
    JournalLine.amount).sum

/-- What the adjustments in the close scope of a period come to on an account. -/
def adjustmentTotal (ctx : BookContext) (ledger : Ledger) (period : AccountingPeriod) (a : ℕ) :
    ℤ :=
  ((ledger.entries.filter fun e => e.origin.isFxAdjustment &&
    financialClosePeriodScope ctx.periods period e).map (entryTotal ctx a)).sum

/-- What the positions on an account are to be restated by: each foreign balance at its rate,
rounded once, less the carrying base. -/
def restatement (positions : List RevaluationPosition) (a : ℕ) : ℤ :=
  ((positions.filter (·.accountId = a)).map positionDelta).sum

variable {ctx : BookContext} {s s' : RevaluationBook} {ledger : Ledger}
  {period other : AccountingPeriod}

theorem amountOf_loadEffectiveAdjustments (ctx : BookContext) (ledger : Ledger)
    (period : AccountingPeriod) (a : ℕ) :
    amountOf (loadEffectiveAdjustments ctx ledger period) a =
      if (ctx.accountType a).isPnlOrEquity then 0 else adjustmentTotal ctx ledger period a := by
  rw [loadEffectiveAdjustments, amountOf_filter_ne_zero, amountOf_groupBy, adjustmentTotal]
  generalize ledger.entries.filter _ = entries
  have hline : ∀ e : JournalEntry, ((e.lines.filter fun l => l.subsidiaryId = ctx.subsidiaryId &&
      !(ctx.accountType l.accountId).isPnlOrEquity).filter (·.accountId = a)).map
        JournalLine.amount =
      if (ctx.accountType a).isPnlOrEquity then [] else
        (e.lines.filter fun l => l.subsidiaryId = ctx.subsidiaryId ∧ l.accountId = a).map
          JournalLine.amount := by
    intro e
    rw [filter_filter]
    split_ifs with hpnl
    · rw [filter_eq_nil_iff.mpr, map_nil]
      intro l _ hl
      simp only [Bool.and_eq_true, decide_eq_true_eq, Bool.not_eq_true'] at hl
      rw [hl.1, hpnl] at hl
      cases hl.2.2
    · congr 1
      refine filter_congr fun l _ => ?_
      by_cases hl : l.accountId = a <;> simp [hl, hpnl]
  induction entries with
  | nil => simp
  | cons e entries ih =>
    rw [flatMap_cons, filter_append, map_append, sum_append, ih, hline, map_cons, sum_cons]
    split_ifs
    · rfl
    · rfl

/-- **What is required of an account**: its restatement, less the adjustments already there. -/
theorem amountOf_contributions (positions : List RevaluationPosition) (a : ℕ) :
    amountOf (contributions positions (loadEffectiveAdjustments ctx ledger period)) a =
      restatement positions a -
        if (ctx.accountType a).isPnlOrEquity then 0 else adjustmentTotal ctx ledger period a := by
  rw [contributions, amountOf_append, amountOf_neg, amountOf_loadEffectiveAdjustments,
    sub_eq_add_neg]
  congr 1
  rw [amountOf, restatement, filter_map, map_map]
  rfl

theorem adjustmentTotal_append (entries extra : List JournalEntry) (a : ℕ) :
    adjustmentTotal ctx { ledger with entries := entries ++ extra } period a =
      adjustmentTotal ctx { ledger with entries } period a +
        adjustmentTotal ctx { ledger with entries := extra } period a := by
  simp [adjustmentTotal]

/-! ### Positions are on monetary accounts -/

variable {type : AccountType}

theorem isPnlOrEquity_of_isMonetary {monetary : Option Bool}
    (h : isMonetary type monetary = true) : type.isPnlOrEquity = false := by
  rcases monetary with _ | _ | _
  · cases type <;> first | rfl | cases h
  · cases h
  · simpa [isMonetary] using h

theorem accountId_of_mem_positionLines {l : PositionLine}
    (h : l ∈ positionLines ctx ledger period) :
    (ctx.accountType l.accountId).isPnlOrEquity = false := by
  obtain ⟨e, -, hl⟩ := mem_flatMap.mp h
  obtain ⟨line, hline, rfl⟩ := mem_map.mp hl
  have hmonetary := (mem_filter.mp hline).2
  simp only [Bool.and_eq_true] at hmonetary
  exact isPnlOrEquity_of_isMonetary hmonetary.2

variable {positions : List RevaluationPosition}

theorem accountId_of_mem_revaluationPositions
    (h : revaluationPositions ctx ledger period = .ok positions) {p : RevaluationPosition}
    (hp : p ∈ positions) : (ctx.accountType p.accountId).isPnlOrEquity = false := by
  simp only [revaluationPositions, bind_eq_ok] at h
  obtain ⟨exposures, hexposures, hpriced⟩ := h
  have hexposure : ∀ e ∈ exposures, (ctx.accountType e.accountId).isPnlOrEquity = false := by
    intro e he
    obtain ⟨g, hg, hge⟩ := ListSum.exists_left_of_forall₂ (mapM_eq_ok.mp hexposures) he
    simp only [exposureOf, bind_eq_ok, refuseIf_eq_ok, pure_eq_ok] at hge
    obtain ⟨-, -, rfl⟩ := hge
    obtain ⟨⟨l, hl, hkey⟩, -⟩ := FirstSeen.mem_groupBy.mp (mem_filter.mp hg).1
    rw [← hkey]
    exact accountId_of_mem_positionLines hl
  obtain ⟨e, he, hpe⟩ := ListSum.exists_left_of_forall₂ (mapM_eq_ok.mp hpriced) hp
  simp only [bind_eq_ok, orRefuse_eq_ok, pure_eq_ok] at hpe
  obtain ⟨rate, -, rfl⟩ := hpe
  exact hexposure e he

theorem restatement_eq_zero (h : revaluationPositions ctx ledger period = .ok positions) {a : ℕ}
    (ha : (ctx.accountType a).isPnlOrEquity = true) : restatement positions a = 0 := by
  rw [restatement, filter_eq_nil_iff.mpr, map_nil, sum_nil]
  intro p hp heq
  have hfalse := accountId_of_mem_revaluationPositions h hp
  rw [of_decide_eq_true heq, ha] at hfalse
  cases hfalse

/-! ### What a close scope sees -/

variable {periods : AccountingPeriods}

theorem find_spec {id : ℕ} (h : periods.find id = some period) :
    period ∈ periods.rows ∧ period.id = id :=
  ⟨mem_of_find?_eq_some h, by simpa using find?_some h⟩

theorem find_of_mem (h : period ∈ periods.rows) : periods.find period.id = some period := by
  cases hfind : periods.find period.id with
  | none => exact absurd (decide_eq_true rfl) (find?_eq_none.mp hfind period h)
  | some found =>
    obtain ⟨hmem, hid⟩ := find_spec hfind
    rw [periods.ids_distinct found hmem period h hid]

variable {next : AccountingPeriod}

/-- The regular period the mirror lands in begins after the period, and before any other that
does. -/
theorem next_spec (h : periods.next period = some next) :
    next ∈ periods.rows ∧ period.endsOn < next.startsOn ∧ next.isAdjustment = false ∧
      next.fiscalCalendarId = period.fiscalCalendarId ∧
      ∀ q ∈ periods.rows, period.endsOn < q.startsOn → q.isAdjustment = false →
        q.fiscalCalendarId = period.fiscalCalendarId → next.startsOn ≤ q.startsOn := by
  obtain ⟨hmem, hnext⟩ := mem_filter.mp (argmin_mem h)
  obtain ⟨hafter, hregular, hcalendar⟩ := of_decide_eq_true hnext
  refine ⟨hmem, hafter, hregular, hcalendar, fun q hq hqafter hqregular hqcalendar => ?_⟩
  refine le_of_mem_argmin (mem_filter.mpr ⟨hq, ?_⟩) h
  exact decide_eq_true ⟨hqafter, hqregular, hqcalendar⟩

theorem financialClosePeriodScope_eq {assigned : AccountingPeriod} (h : assigned ∈ periods.rows)
    {entry : JournalEntry} (hentry : entry.periodId = assigned.id) :
    financialClosePeriodScope periods period entry = closes period assigned := by
  rw [financialClosePeriodScope, Bool.eq_iff_iff, any_eq_true]
  constructor
  · rintro ⟨ep, hep, hcloses⟩
    rw [Bool.and_eq_true, decide_eq_true_eq] at hcloses
    rw [← periods.ids_distinct ep hep assigned h (hcloses.1.trans hentry)]
    exact hcloses.2
  · intro hcloses
    exact ⟨assigned, h, by simp [hentry, hcloses]⟩

theorem closes_self (period : AccountingPeriod) : closes period period = true := by
  simp [closes]

theorem closes_regular (hother : other.isAdjustment = false) :
    closes other period = true ↔ period.endsOn < other.endsOn ∨ period.id = other.id := by
  simp [closes, hother]

theorem closes_period_next (hperiod : period ∈ periods.rows)
    (hnext : periods.next period = some next) : closes period next = false := by
  obtain ⟨hmem, hafter, -⟩ := next_spec hnext
  have hends : period.endsOn < next.endsOn := hafter.trans_le next.starts_le
  have hid : next.id ≠ period.id := by
    intro hid
    rw [periods.ids_distinct next hmem period hperiod hid] at hends
    exact lt_irrefl _ hends
  simp [closes, hid, hends.le.not_gt, hends.ne']

/-- **Another period of the calendar sees the whole pair or nothing of it.** -/
theorem closes_next (hperiod : period ∈ periods.rows) (hnext : periods.next period = some next)
    (hother : other ∈ periods.rows) (hregular : other.isAdjustment = false)
    (hperiodRegular : period.isAdjustment = false)
    (hcalendar : other.fiscalCalendarId = period.fiscalCalendarId) (hne : other ≠ period) :
    closes other next = closes other period := by
  obtain ⟨hmem, hafter, hnextRegular, hnextCalendar, hleast⟩ := next_spec hnext
  have hnextEnds : period.endsOn < next.endsOn := lt_of_lt_of_le hafter next.starts_le
  rw [Bool.eq_iff_iff, closes_regular hregular, closes_regular hregular]
  constructor
  · rintro (hbefore | hid)
    · exact .inl (hnextEnds.trans hbefore)
    · rw [periods.ids_distinct next hmem other hother hid] at hnextEnds
      exact .inl hnextEnds
  · rintro (hbefore | hid)
    · have hstarts : period.endsOn < other.startsOn := by
        rcases periods.regular_disjoint period hperiod other hother hperiodRegular hregular
          hcalendar.symm hne.symm with h | h
        · exact h
        · exact absurd ((h.trans_le period.starts_le).trans hbefore) (lt_irrefl _)
      by_cases heq : next = other
      · exact .inr (congrArg _ heq)
      · refine .inl ?_
        rcases periods.regular_disjoint next hmem other hother hnextRegular hregular
          (hnextCalendar.trans hcalendar.symm) heq with h | h
        · exact h.trans_le other.starts_le
        · have hle := hleast other hother hstarts hregular hcalendar
          exact absurd ((other.starts_le.trans_lt h).trans_le hle) (lt_irrefl _)
    · exact absurd (periods.ids_distinct other hother period hperiod hid.symm) hne

/-! ### What a posting writes -/

theorem map_filter_mapIdx {α β γ : Type} (f : ℕ → α → β) {p : β → Bool} {q : α → Bool} {g : β → γ}
    {h : α → γ} (hp : ∀ i x, p (f i x) = q x) (hg : ∀ i x, g (f i x) = h x) (xs : List α) :
    ((xs.mapIdx f).filter p).map g = (xs.filter q).map h := by
  induction xs generalizing f with
  | nil => rfl
  | cons x xs ih =>
    have hrest := ih (fun i => f (i + 1)) (fun i => hp (i + 1)) fun i => hg (i + 1)
    rw [mapIdx_cons, filter_cons, filter_cons, hp]
    split_ifs
    · rw [map_cons, map_cons, hrest, hg]
    · exact hrest

theorem lines_draftEntry_sum (n : ℕ) (input : PostEntryInput) :
    ((draftEntry n input).lines.map JournalLine.amount).sum =
      (input.lines.map PostEntryLineInput.amount).sum := by
  have h := map_filter_mapIdx (p := fun _ => true) (q := fun _ => true) (g := JournalLine.amount)
    (h := PostEntryLineInput.amount) (draftLine n) (fun _ _ => rfl) (fun _ _ => rfl) input.lines
  rw [filter_true, filter_true] at h
  exact congrArg List.sum h

variable {input : PostEntryInput}

theorem mem_lines_draftEntry {n : ℕ} {l : JournalLine} (h : l ∈ (draftEntry n input).lines) :
    n < l.id ∧ l.id < n + 1 + input.lines.length := by
  obtain ⟨i, hi, rfl⟩ := mem_mapIdx.mp h
  exact ⟨show n < n + 1 + i by omega, show n + 1 + i < n + 1 + input.lines.length by omega⟩

/-- An entry of a run is on each account what its lines come to there. -/
theorem entryTotal_entryInput (n : ℕ) (entryNumber : String) (postingDate : CivilDate)
    (periodId : ℕ) (reverses : Option ℕ) (lines : List RevaluationLine) (a : ℕ) :
    entryTotal ctx a (draftEntry n (entryInput ctx entryNumber postingDate periodId reverses
      lines)) = amountOf lines a := by
  have h := map_filter_mapIdx (draftLine n) (g := JournalLine.amount)
    (p := fun l => decide (l.subsidiaryId = ctx.subsidiaryId ∧ l.accountId = a))
    (q := fun l => decide (l.subsidiaryId = ctx.subsidiaryId ∧ l.accountId = a))
    (h := PostEntryLineInput.amount) (fun _ _ => rfl) (fun _ _ => rfl)
    (entryInput ctx entryNumber postingDate periodId reverses lines).lines
  refine (congrArg List.sum h).trans ?_
  rw [entryInput, filter_map, map_map, amountOf]
  congr 2
  refine filter_congr fun l _ => ?_
  simp

variable {e : JournalEntry}

theorem postEntry_spec (h : postEntry ctx s input = .ok (s', e)) :
    e = draftEntry s.nextId input ∧ s' = { s with
        ledger := { s.ledger with entries := s.ledger.entries ++ [e] }
        nextId := s.nextId + 1 + input.lines.length } ∧
      (e.lines.map JournalLine.amount).sum = 0 := by
  simp only [postEntry, bind_eq_ok, refuseIf_eq_ok] at h
  obtain ⟨-, -, -, -, -, -, _, hbalanced, h⟩ := h
  cases hrefusal : s.settings.postingRefusal input with
  | some message =>
    rw [hrefusal] at h
    cases h
  | none =>
    rw [hrefusal] at h
    cases h
    refine ⟨rfl, rfl, ?_⟩
    simp only [assertEntryBalanced, bind_eq_ok, refuseIf_eq_ok] at hbalanced
    obtain ⟨-, -, -, htotal, -⟩ := hbalanced
    rw [lines_draftEntry_sum]
    exact not_not.mp htotal

/-! ### The invariant of the book -/

/-- Ids are minted in sequence, applications are of lines on the book, and every entry
balances. -/
structure Kept (s : RevaluationBook) : Prop where
  entry_lt : ∀ e ∈ s.ledger.entries, e.id < s.nextId
  line_lt : ∀ e ∈ s.ledger.entries, ∀ l ∈ e.lines, l.id < s.nextId
  applied_lt : ∀ ap ∈ s.ledger.applications, ap.fromLineId < s.nextId ∧ ap.toLineId < s.nextId
  balanced : ∀ e ∈ s.ledger.entries, (e.lines.map JournalLine.amount).sum = 0

theorem Kept.postEntry {input : PostEntryInput} {e : JournalEntry} (hs : Kept s)
    (h : postEntry ctx s input = .ok (s', e)) : Kept s' := by
  obtain ⟨rfl, rfl, hsum⟩ := postEntry_spec h
  have hlt : ∀ n, n < s.nextId → n < s.nextId + 1 + input.lines.length := fun n hn => by omega
  refine ⟨fun e he => ?_, fun e he l hl => ?_, fun ap hap => ?_, fun e he => ?_⟩
  · rcases mem_append.mp he with he | he
    · exact hlt _ (hs.entry_lt e he)
    · rw [mem_singleton.mp he]
      exact (show s.nextId < s.nextId + 1 + input.lines.length by omega)
  · rcases mem_append.mp he with he | he
    · exact hlt _ (hs.line_lt e he l hl)
    · rw [mem_singleton.mp he] at hl
      exact (mem_lines_draftEntry hl).2
  · exact ⟨hlt _ (hs.applied_lt ap hap).1, hlt _ (hs.applied_lt ap hap).2⟩
  · rcases mem_append.mp he with he | he
    · exact hs.balanced e he
    · rwa [mem_singleton.mp he]

/-! ### Adjustments leave the positions alone -/

/-- Entries that are adjustments and are named by nothing that was on the book before. -/
def FreshAdjustments (nextId : ℕ) (extra : List JournalEntry) : Prop :=
  ∀ e ∈ extra, e.origin.isFxAdjustment = true ∧ (∀ l ∈ e.lines, nextId ≤ l.id) ∧
    ∀ t, e.reversesEntryId = some t → nextId ≤ t

variable {extra : List JournalEntry}

theorem FreshAdjustments.not_has {n lineId : ℕ} (h : FreshAdjustments n extra)
    (hline : lineId < n) (he : e ∈ extra) : e.has lineId = false := by
  rw [JournalEntry.has, any_eq_false]
  intro l hl heq
  exact absurd (of_decide_eq_true heq) (hline.trans_le ((h e he).2.1 l hl)).ne'

theorem FreshAdjustments.not_reverses {n entryId : ℕ} (h : FreshAdjustments n extra)
    (hentry : entryId < n) (he : e ∈ extra) : e.reversesEntryId ≠ some entryId := by
  intro heq
  exact absurd ((h e he).2.2 entryId heq) (not_le.mpr hentry)

section

variable (hs : Kept s) (hextra : FreshAdjustments s.nextId extra)

include hs hextra

theorem effectiveApplications_append (scope : JournalEntry → Bool) (asOfDate : CivilDate) :
    effectiveApplications (s.ledger.entries ++ extra)
        ((s.ledger.entries ++ extra).filter scope) s.ledger.applications asOfDate =
      effectiveApplications s.ledger.entries (s.ledger.entries.filter scope)
        s.ledger.applications asOfDate := by
  refine filter_congr fun ap hap => ?_
  have hfind : ∀ lineId, lineId < s.nextId →
      ((s.ledger.entries ++ extra).filter scope).find? (·.has lineId) =
        (s.ledger.entries.filter scope).find? (·.has lineId) := by
    intro lineId hline
    have hnone : (extra.filter scope).find? (·.has lineId) = none := by
      refine find?_eq_none.mpr fun e he => ?_
      rw [hextra.not_has hline (mem_filter.mp he).1]
      exact Bool.false_ne_true
    rw [filter_append, find?_append, hnone, Option.or_none]
  have hany : ∀ {source target : JournalEntry}, source ∈ s.ledger.entries →
      target ∈ s.ledger.entries → ∀ p : JournalEntry → Bool,
      (extra.filter p).any (fun reversal => reversal.reversesEntryId = some source.id ||
        reversal.reversesEntryId = some target.id) = false := by
    intro source target hsource htarget p
    rw [any_eq_false]
    intro e he
    have he := (mem_filter.mp he).1
    have h₁ := hextra.not_reverses (hs.entry_lt source hsource) he
    have h₂ := hextra.not_reverses (hs.entry_lt target htarget) he
    simp [h₁, h₂]
  rw [hfind _ (hs.applied_lt ap hap).1, hfind _ (hs.applied_lt ap hap).2]
  cases hsource : (s.ledger.entries.filter scope).find? (·.has ap.fromLineId) with
  | none => rfl
  | some source =>
    cases htarget : (s.ledger.entries.filter scope).find? (·.has ap.toLineId) with
    | none => rfl
    | some target =>
      have hsource := (mem_filter.mp (mem_of_find?_eq_some hsource)).1
      have htarget := (mem_filter.mp (mem_of_find?_eq_some htarget)).1
      have hall := hany hsource htarget fun _ => true
      rw [filter_true] at hall
      simp only [filter_append, any_append, hany hsource htarget, hall, Bool.or_false]

theorem positionLines_append :
    positionLines ctx { s.ledger with entries := s.ledger.entries ++ extra } period =
      positionLines ctx s.ledger period := by
  have hnone : ((extra.filter (financialClosePeriodScope ctx.periods period)).filter fun e =>
      !e.origin.isFxAdjustment && e.origin ≠ .fx_settlement) = [] := by
    refine filter_eq_nil_iff.mpr fun e he => ?_
    rw [(hextra e (mem_filter.mp he).1).1]
    exact Bool.false_ne_true
  simp only [positionLines]
  rw [effectiveApplications_append hs hextra, filter_append, filter_append, hnone, append_nil]

/-- **Adjustments leave every position as it was.** -/
theorem revaluationPositions_append :
    revaluationPositions ctx { s.ledger with entries := s.ledger.entries ++ extra } period =
      revaluationPositions ctx s.ledger period := by
  simp only [revaluationPositions, loadExposures, positionLines_append hs hextra]

end

/-! ### A pair -/

/-- The two entries of a run: the same lines with opposite signs, one in the period and one in
the next. -/
structure IsPair (ctx : BookContext) (period next : AccountingPeriod)
    (lines : List RevaluationLine) (adjustment mirror : JournalEntry) : Prop where
  next_eq : ctx.periods.next period = some next
  adjustment_period : adjustment.periodId = period.id
  mirror_period : mirror.periodId = next.id
  adjustment_origin : adjustment.origin = .fx_revaluation
  mirror_origin : mirror.origin = .fx_revaluation
  reverses : mirror.reversesEntryId = some adjustment.id
  adjustment_total : ∀ a, entryTotal ctx a adjustment = amountOf lines a
  mirror_total : ∀ a, entryTotal ctx a mirror = -amountOf lines a

variable {lines : List RevaluationLine} {adjustment mirror : JournalEntry}

/-- What a pair adds to the adjustments that the close of a period sees: nothing if it sees both
entries or neither. -/
theorem IsPair.adjustmentTotal_eq (h : IsPair ctx period next lines adjustment mirror)
    (hperiod : period ∈ ctx.periods.rows) (a : ℕ) :
    adjustmentTotal ctx { ledger with entries := [adjustment, mirror] } other a =
      (if closes other period then amountOf lines a else 0) -
        if closes other next then amountOf lines a else 0 := by
  have hnext := (next_spec h.next_eq).1
  rw [adjustmentTotal]
  simp only [filter_cons, filter_nil, h.adjustment_origin, h.mirror_origin,
    financialClosePeriodScope_eq hperiod h.adjustment_period,
    financialClosePeriodScope_eq hnext h.mirror_period,
    show Origin.fx_revaluation.isFxAdjustment = true from rfl, Bool.true_and]
  split_ifs <;> simp [h.adjustment_total, h.mirror_total]

/-- What is required of the accounts that a period's own pair is on. -/
theorem amountOf_withGainLoss {offset a : ℕ} (h : a ≠ offset) :
    amountOf (withGainLoss lines offset) a = amountOf lines a := by
  rw [withGainLoss]
  split_ifs
  · rfl
  · rw [amountOf_append, amountOf_cons, if_neg (show offset ≠ a from h.symm), amountOf_nil,
      add_zero, add_zero]

theorem postPair_spec {entryNumber : String} (hnext : ctx.periods.next period = some next)
    (h : postPair ctx s entryNumber period next lines = .ok (s', adjustment, mirror)) :
    IsPair ctx period next lines adjustment mirror ∧ (Kept s → Kept s') ∧
      FreshAdjustments s.nextId [adjustment, mirror] ∧
      s'.ledger = { s.ledger with entries := s.ledger.entries ++ [adjustment, mirror] } ∧
      s'.settings = s.settings ∧ (adjustment.lines.map JournalLine.amount).sum = 0 ∧
      (mirror.lines.map JournalLine.amount).sum = 0 := by
  simp only [postPair, bind_eq_ok, pure_eq_ok] at h
  obtain ⟨⟨s₁, e₁⟩, h₁, ⟨s₂, e₂⟩, h₂, heq⟩ := h
  obtain ⟨he₁, hs₁, hsum₁⟩ := postEntry_spec h₁
  obtain ⟨he₂, hs₂, hsum₂⟩ := postEntry_spec h₂
  simp only [Prod.mk.injEq] at heq
  obtain ⟨rfl, rfl, rfl⟩ := heq
  refine ⟨⟨hnext, ?_, ?_, ?_, ?_, ?_, fun a => ?_, fun a => ?_⟩,
    fun hs => (hs.postEntry h₁).postEntry h₂, ?_, ?_, ?_, hsum₁, hsum₂⟩
  · rw [he₁]; rfl
  · rw [he₂]; rfl
  · rw [he₁]; rfl
  · rw [he₂]; rfl
  · rw [he₂]; rfl
  · rw [he₁, entryTotal_entryInput]
  · rw [he₂, entryTotal_entryInput, amountOf_neg]
  · have hid : e₁.id = s.nextId := by rw [he₁]; rfl
    have hlt : s.nextId < s₁.nextId := by
      rw [hs₁]
      exact (show s.nextId < s.nextId + 1 + _ by omega)
    refine forall_mem_cons.mpr ⟨⟨?_, fun l hl => ?_, fun t ht => ?_⟩,
      forall_mem_singleton.mpr ⟨?_, fun l hl => ?_, fun t ht => ?_⟩⟩
    · rw [he₁]; rfl
    · rw [he₁] at hl
      exact (mem_lines_draftEntry hl).1.le
    · rw [he₁] at ht
      cases ht
    · rw [he₂]; rfl
    · rw [he₂] at hl
      exact (hlt.trans (mem_lines_draftEntry hl).1).le
    · rw [he₂] at ht
      cases ht
      exact hid.ge
  · rw [hs₂, hs₁]
    simp
  · rw [hs₂, hs₁]

/-! ### What a run does -/

theorem isPnlOrEquity_of_mem_types (h : type ∈ fxUnrealizedGainLossTypes) :
    type.isPnlOrEquity = true := by
  simp only [fxUnrealizedGainLossTypes, mem_cons, not_mem_nil, or_false] at h
  rcases h with rfl | rfl | rfl | rfl <;> rfl

/-- A mapping keeps the statement class, so income and expense stay what they are. -/
theorem isPnlOrEquity_of_bookAccountMapRefusal {sourceId targetId : ℕ}
    {source target : AccountRecord}
    (h : bookAccountMapRefusal ctx sourceId targetId source target = none)
    (htype : ctx.accountType sourceId ∈ fxUnrealizedGainLossTypes) :
    (ctx.accountType targetId).isPnlOrEquity = true := by
  simp only [bookAccountMapRefusal] at h
  generalize ctx.accountType sourceId = sourceType at h htype
  generalize ctx.accountType targetId = targetType at h
  simp only [fxUnrealizedGainLossTypes, mem_cons, not_mem_nil, or_false] at htype
  rcases htype with rfl | rfl | rfl | rfl <;> cases targetType <;>
    first | rfl | (simp only [accountClassOf] at h; split_ifs at h; simp_all)

variable {periodId : ℕ} {settings : RevaluationSettings}

theorem revaluationBasis_spec {offset : ℕ} {active : Bool}
    (h : revaluationBasis ctx settings periodId = .ok (active, period, offset)) :
    ctx.periods.find periodId = some period ∧ (ctx.accountType offset).isPnlOrEquity = true := by
  simp only [revaluationBasis, bind_eq_ok, refuseIf_eq_ok, orRefuse_eq_ok, pure_eq_ok,
    Prod.mk.injEq] at h
  obtain ⟨-, -, _, -, configured, hconfigured, found, hfound, offset', hoffset, -, rfl, rfl⟩ := h
  refine ⟨hfound, ?_⟩
  simp only [unrealizedAccount, bind_eq_ok, refuseIf_eq_ok, orRefuse_eq_ok, pure_eq_ok,
    not_not] at hconfigured
  obtain ⟨id, -, _, -, -, -, -, -, -, htype, rfl⟩ := hconfigured
  rw [gainLossAccount] at hoffset
  split at hoffset
  · cases hoffset
    exact isPnlOrEquity_of_mem_types htype
  · simp only [bind_eq_ok, orRefuse_eq_ok] at hoffset
    obtain ⟨source, -, target, -, hmap⟩ := hoffset
    split at hmap
    · cases hmap
    · simp only [bind_eq_ok, refuseIf_eq_ok, pure_eq_ok] at hmap
      obtain ⟨-, -, rfl⟩ := hmap
      exact isPnlOrEquity_of_bookAccountMapRefusal ‹_› htype

theorem assertPostable_spec {active : Bool} {next : Option AccountingPeriod}
    {found : AccountingPeriod} (h : assertPostable s active period next lines = .ok found) :
    next = some found := by
  simp only [assertPostable, bind_eq_ok, refuseIf_eq_ok, orRefuse_eq_ok] at h
  obtain ⟨-, -, after, hafter, -, -, -, -, -, -, h⟩ := h
  split at h
  · cases h
  · cases h
    exact hafter

variable {posted : Option PostedRevaluation} {suffix : String}
  (h : postRevaluationEntry ctx s periodId suffix = .ok (s', posted))

include h in
/-- **What a successful run does**: nothing if nothing is required, and else the pair of what is
required. -/
theorem postRevaluationEntry_spec :
    ∃ active period offset positions, revaluationBasis ctx s.settings periodId =
        .ok (active, period, offset) ∧
      revaluationPositions ctx s.ledger period = .ok positions ∧
      ((requiredAdjustments positions (loadEffectiveAdjustments ctx s.ledger period) = [] ∧
          s' = s ∧ posted = none) ∨
        ∃ next entryNumber adjustment mirror netDelta, ctx.periods.next period = some next ∧
          postPair ctx s entryNumber period next (withGainLoss
            (requiredAdjustments positions (loadEffectiveAdjustments ctx s.ledger period))
            offset) = .ok (s', adjustment, mirror) ∧
          posted = some ⟨adjustment.id, mirror.id, netDelta⟩) := by
  simp only [postRevaluationEntry, bind_eq_ok, mapError_eq_ok] at h
  obtain ⟨⟨active, period, offset⟩, hbasis, required, hrequired, h⟩ := h
  simp only [monetaryLines, bind_eq_ok, pure_eq_ok] at hrequired
  obtain ⟨positions, hpositions, rfl⟩ := hrequired
  refine ⟨active, period, offset, positions, hbasis, hpositions, ?_⟩
  split_ifs at h with hnil
  · cases h
    exact .inl ⟨hnil, rfl, rfl⟩
  · simp only [bind_eq_ok, pure_eq_ok, Prod.mk.injEq] at h
    obtain ⟨next, hnext, ⟨s₁, adjustment, mirror⟩, hpair, rfl, hposted⟩ := h
    exact .inr ⟨next, _, adjustment, mirror, _, assertPostable_spec hnext, hpair, hposted.symm⟩

include h in
theorem Kept.postRevaluationEntry (hs : Kept s) : Kept s' := by
  obtain ⟨_, period, _, positions, -, -, hcases⟩ := postRevaluationEntry_spec h
  rcases hcases with ⟨-, rfl, -⟩ | ⟨next, number, adjustment, mirror, delta, hnext, hpair, -⟩
  · exact hs
  · exact (postPair_spec hnext hpair).2.1 hs

theorem Kept.step {operation : Operation} (hs : Kept s) (h : step ctx s operation = .ok s') :
    Kept s' := by
  cases operation with
  | post input =>
    simp only [FxRevaluation.step, bind_eq_ok, pure_eq_ok] at h
    obtain ⟨⟨s₁, e⟩, hpost, rfl⟩ := h
    exact hs.postEntry hpost
  | apply application =>
    simp only [FxRevaluation.step, bind_eq_ok, pure_eq_ok, refuseIf_eq_ok, Bool.not_eq_true',
      Bool.not_eq_false, Bool.and_eq_true, any_eq_true] at h
    obtain ⟨-, ⟨⟨e, he, hfrom⟩, e', he', hto⟩, rfl⟩ := h
    have hhas : ∀ {e : JournalEntry} {lineId : ℕ}, e ∈ s.ledger.entries →
        e.has lineId = true → lineId < s.nextId := by
      intro e lineId he hhas
      obtain ⟨l, hl, heq⟩ := any_eq_true.mp hhas
      exact of_decide_eq_true heq ▸ hs.line_lt e he l hl
    refine ⟨hs.entry_lt, hs.line_lt, fun ap hap => ?_, hs.balanced⟩
    rcases mem_append.mp hap with hap | hap
    · exact hs.applied_lt ap hap
    · rw [mem_singleton.mp hap]
      exact ⟨hhas he hfrom, hhas he' hto⟩
  | unapply fromLineId toLineId on =>
    cases h
    refine ⟨hs.entry_lt, hs.line_lt, fun ap hap => ?_, hs.balanced⟩
    obtain ⟨before, hbefore, rfl⟩ := mem_map.mp hap
    split_ifs <;> exact hs.applied_lt before hbefore
  | setRates rates | setMonetary monetary | configure settings =>
    cases h
    exact ⟨hs.entry_lt, hs.line_lt, hs.applied_lt, hs.balanced⟩
  | revalue periodId suffix =>
    simp only [FxRevaluation.step, bind_eq_ok, pure_eq_ok] at h
    obtain ⟨⟨s₁, posted⟩, hrun, rfl⟩ := h
    exact hs.postRevaluationEntry hrun

theorem Kept.of_reached {monetary : ℕ → Option Bool} {rates : ClosingRates}
    {operations : List Operation}
    (h : Runs.Reached (FxRevaluation.step ctx) (.opened monetary rates settings) operations s) :
    Kept s :=
  h.invariant ⟨by simp [RevaluationBook.opened], by simp [RevaluationBook.opened],
    by simp [RevaluationBook.opened], by simp [RevaluationBook.opened]⟩
    fun _ _ _ hs hop => hs.step hop

/-! ### Restating and converging -/

include h in
theorem ledger_of_run :
    s'.settings = s.settings ∧ ∃ extra, FreshAdjustments s.nextId extra ∧
      s'.ledger = { s.ledger with entries := s.ledger.entries ++ extra } := by
  obtain ⟨_, period, _, positions, -, -, hcases⟩ := postRevaluationEntry_spec h
  rcases hcases with ⟨-, rfl, -⟩ | ⟨next, number, adjustment, mirror, delta, hnext, hpair, -⟩
  · exact ⟨rfl, [], by simp [FreshAdjustments], by simp⟩
  · obtain ⟨-, -, hfresh, hledger, hsettings, -⟩ := postPair_spec hnext hpair
    exact ⟨hsettings, _, hfresh, hledger⟩

include h in
/-- **After a run the adjustments in scope are the restatement**, account by account. -/
theorem adjustmentTotal_of_run (hs : Kept s) :
    ∃ active period offset positions,
      revaluationBasis ctx s'.settings periodId = .ok (active, period, offset) ∧
      revaluationPositions ctx s'.ledger period = .ok positions ∧
      ∀ a, (ctx.accountType a).isPnlOrEquity = false →
        adjustmentTotal ctx s'.ledger period a = restatement positions a := by
  obtain ⟨hsettings, extra, hfresh, hledger⟩ := ledger_of_run h
  obtain ⟨active, period, offset, positions, hbasis, hpositions, hcases⟩ :=
    postRevaluationEntry_spec h
  refine ⟨active, period, offset, positions, hsettings ▸ hbasis, ?_, fun a ha => ?_⟩
  · rw [hledger, revaluationPositions_append hs hfresh, hpositions]
  have hrequired := amountOf_requiredAdjustments positions
    (loadEffectiveAdjustments ctx s.ledger period) a
  rw [amountOf_contributions, ha, if_neg Bool.false_ne_true] at hrequired
  rcases hcases with ⟨hnil, rfl, -⟩ | ⟨next, number, adjustment, mirror, delta, hnext, hpair, -⟩
  · rw [hnil, amountOf_nil] at hrequired
    exact (sub_eq_zero.mp hrequired.symm).symm
  · obtain ⟨hispair, -, -, hledger, -⟩ := postPair_spec hnext hpair
    obtain ⟨hfind, hoffset⟩ := revaluationBasis_spec hbasis
    have hperiod := (find_spec hfind).1
    have hne : a ≠ offset := by
      rintro rfl
      rw [ha] at hoffset
      cases hoffset
    rw [hledger, adjustmentTotal_append, hispair.adjustmentTotal_eq hperiod, closes_self,
      if_pos rfl, closes_period_next hperiod hnext, if_neg Bool.false_ne_true, sub_zero,
      amountOf_withGainLoss hne, hrequired, add_sub_cancel]

/-- Where the adjustments are the restatement, nothing is required. -/
theorem monetaryLines_eq_nil
    (hpositions : revaluationPositions ctx ledger period = .ok positions)
    (h : ∀ a, (ctx.accountType a).isPnlOrEquity = false →
      adjustmentTotal ctx ledger period a = restatement positions a) :
    monetaryLines ctx ledger period = .ok [] := by
  rw [monetaryLines, hpositions, ok_bind]
  refine congrArg Except.ok (requiredAdjustments_eq_nil.mpr fun a => ?_)
  rw [amountOf_contributions]
  cases ha : (ctx.accountType a).isPnlOrEquity with
  | false => rw [if_neg Bool.false_ne_true, h a ha, sub_self]
  | true => rw [if_pos rfl, restatement_eq_zero hpositions ha, sub_zero]

/-- Readiness counts what a run would post, once every position has its rate. -/
theorem revaluationReadiness_eq
    (hpositions : revaluationPositions ctx ledger period = .ok positions) :
    revaluationReadiness ctx ledger period =
      .ok ⟨(requiredAdjustments positions (loadEffectiveAdjustments ctx ledger period)).length, 0,
        0 < (requiredAdjustments positions
          (loadEffectiveAdjustments ctx ledger period)).length &&
            (ctx.periods.next period).isNone⟩ := by
  simp only [revaluationPositions, bind_eq_ok] at hpositions
  obtain ⟨exposures, hexposures, hpriced⟩ := hpositions
  have hall := mapM_eq_ok.mp hpriced
  have hmissing : exposures.filter (·.periodEndRate.isNone) = [] := by
    refine filter_eq_nil_iff.mpr fun e he hnone => ?_
    obtain ⟨p, -, hp⟩ := ListSum.exists_right_of_forall₂ hall he
    simp only [bind_eq_ok, orRefuse_eq_ok] at hp
    obtain ⟨rate, hrate, -⟩ := hp
    rw [hrate] at hnone
    cases hnone
  have hfound : exposures.filterMap (fun e => e.periodEndRate.map fun rate =>
      ({ accountId := e.accountId, currency := e.currency, carryingBase := e.carryingBase
         foreignBalance := e.foreignBalance, periodEndRate := rate } : RevaluationPosition)) =
      positions := by
    clear hmissing hexposures hpriced
    induction hall with
    | nil => rfl
    | cons hp _ ih =>
      simp only [bind_eq_ok, orRefuse_eq_ok, pure_eq_ok] at hp
      obtain ⟨rate, hrate, rfl⟩ := hp
      rw [filterMap_cons, hrate, Option.map_some, ih]
  rw [revaluationReadiness, hexposures, ok_bind]
  simp only [hmissing, hfound, map_nil, not_mem_nil, not_false_eq_true, decide_true,
    filter_true, length_nil, Nat.zero_add]
  rfl

include h in
/-- **A run leaves alone what another period of the calendar requires**: it sees the same
positions there, and nothing or the whole of the pair. -/
theorem monetaryLines_of_run (hs : Kept s) (hfind : ctx.periods.find periodId = some period)
    (hregular : period.isAdjustment = false) (hother : other ∈ ctx.periods.rows)
    (hotherRegular : other.isAdjustment = false)
    (hcalendar : other.fiscalCalendarId = period.fiscalCalendarId) (hne : other ≠ period) :
    monetaryLines ctx s'.ledger other = monetaryLines ctx s.ledger other := by
  obtain ⟨-, extra, hfresh, hledger⟩ := ledger_of_run h
  have htotal : ∀ a, adjustmentTotal ctx s'.ledger other a = adjustmentTotal ctx s.ledger other a := by
    intro a
    obtain ⟨_, found, _, _, hbasis, -, hcases⟩ := postRevaluationEntry_spec h
    obtain rfl : period = found :=
      Option.some.inj (hfind.symm.trans (revaluationBasis_spec hbasis).1)
    rcases hcases with ⟨-, rfl, -⟩ | ⟨next, number, adjustment, mirror, delta, hnext, hpair, -⟩
    · rfl
    · obtain ⟨hispair, -, -, hledger, -⟩ := postPair_spec hnext hpair
      have hperiod := (find_spec hfind).1
      rw [hledger, adjustmentTotal_append, hispair.adjustmentTotal_eq hperiod,
        closes_next hperiod hnext hother hotherRegular hregular hcalendar hne, sub_self, add_zero]
  have hpositions : revaluationPositions ctx
      { s.ledger with entries := s.ledger.entries ++ extra } other =
        revaluationPositions ctx s.ledger other := revaluationPositions_append hs hfresh
  rw [monetaryLines, monetaryLines, hledger, hpositions]
  congr 1
  funext positions
  refine congrArg Except.ok (requiredAdjustments_congr fun a => ?_)
  rw [amountOf_contributions, amountOf_contributions, ← hledger, htotal]

/-- **A revaluation restates exactly and converges.** After any operations – postings,
applications, rates, flags, runs, in any order – a successful run for a period leaves the
adjustments that the close of the period sees at exactly the restatement of the positions, on
every account they can be on: at zero where there is no position left. An immediate rerun posts
nothing. Every entry of the book balances. What the run posts is a pair that the close of every
period after the mirror's sees whole and that comes to nothing on every account; and every other
regular period of the calendar still requires what it did. -/
theorem revaluation_restates {monetary : ℕ → Option Bool} {rates : ClosingRates}
    {settings : RevaluationSettings} {operations : List Operation}
    (hreached : Runs.Reached (step ctx) (.opened monetary rates settings) operations s)
    {suffix : String} {posted : Option PostedRevaluation}
    (hperiod : period ∈ ctx.periods.rows) (hregular : period.isAdjustment = false)
    (hrun : postRevaluationEntry ctx s period.id suffix = .ok (s', posted)) :
    (∃ positions, revaluationPositions ctx s'.ledger period = .ok positions ∧
      ∀ a, (ctx.accountType a).isPnlOrEquity = false →
        adjustmentTotal ctx s'.ledger period a =
          ((positions.filter (·.accountId = a)).map fun p =>
            mulRate p.foreignBalance p.periodEndRate.units - p.carryingBase).sum) ∧
    (∀ suffix', postRevaluationEntry ctx s' period.id suffix' = .ok (s', none)) ∧
    (∀ e ∈ s'.ledger.entries, (e.lines.map JournalLine.amount).sum = 0) ∧
    (∀ p, posted = some p → ∃ next adjustment mirror,
      s'.ledger.entries = s.ledger.entries ++ [adjustment, mirror] ∧
      adjustment.id = p.entryId ∧ mirror.id = p.reversalEntryId ∧
      adjustment.periodId = period.id ∧ ctx.periods.next period = some next ∧
      mirror.periodId = next.id ∧ mirror.reversesEntryId = some adjustment.id ∧
      ∀ later ∈ ctx.periods.rows, later = next ∨ next.endsOn < later.endsOn →
        financialClosePeriodScope ctx.periods later adjustment = true ∧
        financialClosePeriodScope ctx.periods later mirror = true ∧
        ∀ a, entryTotal ctx a adjustment + entryTotal ctx a mirror = 0) ∧
    ∀ other ∈ ctx.periods.rows, other.isAdjustment = false →
      other.fiscalCalendarId = period.fiscalCalendarId → other ≠ period →
      monetaryLines ctx s'.ledger other = monetaryLines ctx s.ledger other := by
  have hs := Kept.of_reached hreached
  have hfind := find_of_mem hperiod
  obtain ⟨active, found, offset, positions, hbasis, hpositions, htotal⟩ :=
    adjustmentTotal_of_run hrun hs
  obtain rfl : period = found :=
    Option.some.inj (hfind.symm.trans (revaluationBasis_spec hbasis).1)
  refine ⟨⟨positions, hpositions, htotal⟩, fun suffix' => ?_,
    (hs.postRevaluationEntry hrun).balanced, ?_, fun other hother hotherRegular hcalendar hne =>
      monetaryLines_of_run hrun hs hfind hregular hother hotherRegular hcalendar hne⟩
  · rw [postRevaluationEntry, hbasis, ok_bind]
    simp only [monetaryLines_eq_nil hpositions htotal, mapError_ok, ok_bind]
    rfl
  · rintro p rfl
    obtain ⟨_, found, _, _, hbasis', -, hcases⟩ := postRevaluationEntry_spec hrun
    obtain rfl : period = found :=
      Option.some.inj (hfind.symm.trans (revaluationBasis_spec hbasis').1)
    rcases hcases with ⟨-, -, hnone⟩ | ⟨next, number, adjustment, mirror, delta, hnext, hpair, hp⟩
    · cases hnone
    obtain ⟨hispair, -, -, hledger, -⟩ := postPair_spec hnext hpair
    cases hp
    obtain ⟨hnextMem, hafter, -⟩ := next_spec hnext
    refine ⟨next, adjustment, mirror, by rw [hledger], rfl, rfl, hispair.adjustment_period, hnext,
      hispair.mirror_period, hispair.reverses, fun later hlater hcase => ⟨?_, ?_, fun a => ?_⟩⟩
    · rw [financialClosePeriodScope_eq hperiod hispair.adjustment_period]
      have hends : period.endsOn < later.endsOn := by
        rcases hcase with rfl | hlt
        · exact hafter.trans_le later.starts_le
        · exact (hafter.trans_le next.starts_le).trans hlt
      simp [closes, hends]
    · rw [financialClosePeriodScope_eq hnextMem hispair.mirror_period]
      rcases hcase with rfl | hlt
      · exact closes_self later
      · simp [closes, hlt]
    · rw [hispair.adjustment_total, hispair.mirror_total, add_neg_cancel]

/-- **A close that is ready stays ready**: once its period has been revalued it waits for nothing
more, whatever other regular periods of the calendar are revalued after it. -/
theorem close_stays_ready {monetary : ℕ → Option Bool} {rates : ClosingRates}
    {settings : RevaluationSettings} {operations : List Operation} {s'' : RevaluationBook}
    (hreached : Runs.Reached (step ctx) (.opened monetary rates settings) operations s)
    {suffix : String} {posted : Option PostedRevaluation}
    (hperiod : period ∈ ctx.periods.rows) (hregular : period.isAdjustment = false)
    (hrun : postRevaluationEntry ctx s period.id suffix = .ok (s', posted))
    (hlater : Runs.ReachedBy (fun _ operation => ∃ other ∈ ctx.periods.rows, ∃ suffix',
      operation = .revalue other.id suffix' ∧ other.isAdjustment = false ∧
        other.fiscalCalendarId = period.fiscalCalendarId ∧ other ≠ period) (step ctx) s' s'') :
    revaluationReadiness ctx s''.ledger period = .ok ⟨0, 0, false⟩ := by
  have hs := Kept.of_reached hreached
  obtain ⟨active, found, offset, positions, hbasis, hpositions, htotal⟩ :=
    adjustmentTotal_of_run hrun hs
  obtain rfl : period = found :=
    Option.some.inj ((find_of_mem hperiod).symm.trans (revaluationBasis_spec hbasis).1)
  have hready : Kept s'' ∧ monetaryLines ctx s''.ledger period = .ok [] := by
    refine hlater.invariant (P := fun t => Kept t ∧ monetaryLines ctx t.ledger period = .ok [])
      ⟨hs.postRevaluationEntry hrun, monetaryLines_eq_nil hpositions htotal⟩ ?_
    rintro t _ t' ⟨ht, hlines⟩ ⟨other, hother, suffix', rfl, hotherRegular, hcalendar, hne⟩ hstep
    simp only [step, bind_eq_ok, pure_eq_ok] at hstep
    obtain ⟨⟨t₁, _⟩, hrevalued, rfl⟩ := hstep
    refine ⟨ht.postRevaluationEntry hrevalued, ?_⟩
    rw [monetaryLines_of_run hrevalued ht (find_of_mem hother) hotherRegular hperiod hregular
      hcalendar.symm hne.symm, hlines]
  obtain ⟨positions', hpositions', hnil⟩ := bind_eq_ok.mp hready.2
  rw [revaluationReadiness_eq hpositions', pure_eq_ok.mp hnil]
  rfl

/-! ### A winter of closes -/

/-- A month of the first quarter of 2026. -/
def winterMonth (number : ℕ) (lastDay : CivilDate) (h : civilDay 2026 number 1 ≤ lastDay) :
    AccountingPeriod where
  id := number
  startsOn := civilDay 2026 number 1
  endsOn := lastDay
  name := "P0" ++ toString number
  label := "P0" ++ toString number ++ " FY2026"
  isAdjustment := false
  fiscalCalendarId := 1
  periodNumber := number
  starts_le := h

/-- Bank and capital in a book in Canadian dollars; the ninth account takes gains. -/
def winterContext : BookContext where
  periods :=
    { rows := [winterMonth 1 (civilDay 2026 1 31) (by decide +kernel),
        winterMonth 2 (civilDay 2026 2 28) (by decide +kernel),
        winterMonth 3 (civilDay 2026 3 31) (by decide +kernel)]
      ids_distinct := by decide +kernel
      regular_disjoint := by decide +kernel }
  subsidiaryId := 1
  functionalCurrency := "CAD"
  accountType := fun a => if a = 9 then .income_other else if a = 0 then .asset_bank else .equity

def winterSettings : RevaluationSettings where
  bookCode := "MAIN"
  subsidiaryName := "Parent"
  fxUnrealizedGainLoss := some 9
  accounts := fun _ => some { label := "account" }

/-- The dollar closes at 1.35, except that February closes at 1.40. -/
def winterRates : ClosingRates := fun periodId _ _ =>
  if periodId = 2 then ⟨some ⟨14000000000, by decide⟩, none⟩
  else ⟨some ⟨13500000000, by decide⟩, none⟩

/-- A thousand dollars at 1.30, put on the bank account. -/
def winterDeposit (periodId : ℕ) (on : CivilDate) : Operation :=
  .post {
    entryNumber := "JE", postingDate := on, periodId := periodId, origin := .other "manual"
    lines := [⟨0, 1, "USD", 13000000, 10000000, false, false⟩,
      ⟨1, 1, "CAD", -13000000, -13000000, false, false⟩] }

/-- February is revalued before January, and January has another deposit in between. -/
theorem revaluation_restates_winter :
    ∃ s s' posted, Runs.Reached (step winterContext) (.opened (fun _ => none) winterRates
        winterSettings) [winterDeposit 1 (civilDay 2026 1 10), .revalue 2 "a",
          winterDeposit 1 (civilDay 2026 1 20)] s ∧
      postRevaluationEntry winterContext s 1 "b" = .ok (s', posted) ∧ posted.isSome = true ∧
      ∀ suffix, postRevaluationEntry winterContext s' 1 suffix = .ok (s', none) := by
  have hrun : ((do
      let s ← Runs.run (step winterContext) (.opened (fun _ => none) winterRates winterSettings)
        [winterDeposit 1 (civilDay 2026 1 10), .revalue 2 "a", winterDeposit 1 (civilDay 2026 1 20)]
      postRevaluationEntry winterContext s 1 "b") : Except PostingRefusal _).toOption.any
        (·.2.isSome) = true := by decide +kernel
  obtain ⟨⟨s', posted⟩, hok, hposted⟩ := exists_of_any hrun
  obtain ⟨s, hs, hpost⟩ := bind_eq_ok.mp hok
  have hreached := Runs.Reached.of_run hs
  exact ⟨s, s', posted, hreached, hpost, hposted,
    (revaluation_restates hreached
      (show winterMonth 1 (civilDay 2026 1 31) (by decide +kernel) ∈ winterContext.periods.rows by
        decide +kernel) rfl hpost).2.1⟩

/-- February is revalued after January. -/
theorem close_stays_ready_winter : ∃ s s' s'' posted,
    postRevaluationEntry winterContext s 1 "a" = .ok (s', posted) ∧
      step winterContext s' (.revalue 2 "b") = .ok s'' ∧
      revaluationReadiness winterContext s''.ledger
        (winterMonth 1 (civilDay 2026 1 31) (by decide +kernel)) = .ok ⟨0, 0, false⟩ := by
  have hrun : ((do
      let s ← step winterContext (.opened (fun _ => none) winterRates winterSettings)
        (winterDeposit 1 (civilDay 2026 1 10))
      let run ← postRevaluationEntry winterContext s 1 "a"
      step winterContext run.1 (.revalue 2 "b")) : Except PostingRefusal _).toOption.any
        (fun _ => true) = true := by decide +kernel
  obtain ⟨s'', hok, -⟩ := exists_of_any hrun
  obtain ⟨s, hs, hok⟩ := bind_eq_ok.mp hok
  obtain ⟨⟨s', posted⟩, hpost, hstep⟩ := bind_eq_ok.mp hok
  have hmem : winterMonth 1 (civilDay 2026 1 31) (by decide +kernel) ∈
      winterContext.periods.rows := by decide +kernel
  have hother : winterMonth 2 (civilDay 2026 2 28) (by decide +kernel) ∈
      winterContext.periods.rows := by decide +kernel
  exact ⟨s, s', s'', posted, hpost, hstep, close_stays_ready (.one hs) hmem rfl hpost
    (.step .start ⟨_, hother, "b", rfl, rfl, rfl, by decide +kernel⟩ hstep)⟩

end OpenBooks.FxRevaluation
