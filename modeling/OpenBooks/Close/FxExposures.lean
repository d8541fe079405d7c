import OpenBooks.Money.Units
import OpenBooks.Platform.CivilDate
import OpenBooks.Lib.FirstSeen
import OpenBooks.Lib.ListSum
import Mathlib.Data.List.MinMax
import Mathlib.Data.List.Sort

/-!
# What a period-end revaluation reads

The monetary balances in foreign currency are on the ledger at the rates they were posted at,
and at the end of a period they are to be worth the period's closing rate. A run reads two
things of the ledger: the *exposures*, foreign balance and carrying base by account and
currency, and the *effective adjustments*, what earlier runs and their mirrors come to by
account. Both are read in the **close scope** of the period, which is made of assigned periods
and not of dates: every period that ended before, and the period itself.

`FxRevaluation.requiredAdjustments` is the difference of the two, and everything a
run promises rests on two facts about it: what it requires of an account is the restatement of
its positions less its effective adjustments (`mem_requiredAdjustments`), and it depends on
nothing else, not even on the order of the rows (`requiredAdjustments_congr`).
-/

namespace OpenBooks.FxRevaluation

open Checked List FirstSeen

/-! ### Periods -/

structure AccountingPeriod where
  id : ℕ
  startsOn : CivilDate
  endsOn : CivilDate
  /-- The stored name, for journal numbers. -/
  name : String
  /-- The label of refusals, such as `P12 FY2026`. -/
  label : String
  isAdjustment : Bool
  fiscalCalendarId : ℕ
  periodNumber : ℕ
  starts_le : startsOn ≤ endsOn
  deriving DecidableEq

/-- The periods of the organization. A date lies in one regular period of a calendar at most: the
generator refuses ranges that overlap within a fiscal year, and years are assumed not to. -/
structure AccountingPeriods where
  rows : List AccountingPeriod
  ids_distinct : ∀ p ∈ rows, ∀ q ∈ rows, p.id = q.id → p = q
  regular_disjoint : ∀ p ∈ rows, ∀ q ∈ rows, p.isAdjustment = false → q.isAdjustment = false →
    p.fiscalCalendarId = q.fiscalCalendarId → p ≠ q → p.endsOn < q.startsOn ∨ q.endsOn < p.startsOn

def AccountingPeriods.find (periods : AccountingPeriods) (id : ℕ) : Option AccountingPeriod :=
  periods.rows.find? (·.id = id)

/-- The regular period that the mirror of an adjustment lands in. -/
def AccountingPeriods.next (periods : AccountingPeriods) (period : AccountingPeriod) :
    Option AccountingPeriod :=
  (periods.rows.filter fun n => period.endsOn < n.startsOn ∧ n.isAdjustment = false ∧
    n.fiscalCalendarId = period.fiscalCalendarId).argmin AccountingPeriod.startsOn

/-- Whether an assigned period is in the close scope of `period`. -/
def closes (period ep : AccountingPeriod) : Bool :=
  ep.endsOn < period.endsOn || ep.id = period.id ||
    (period.isAdjustment && ep.fiscalCalendarId = period.fiscalCalendarId &&
      ep.endsOn = period.endsOn &&
      (!ep.isAdjustment || ep.periodNumber ≤ period.periodNumber))

/-! ### The ledger -/

inductive AccountType
  | asset_bank | asset_receivable | asset_current_other | asset_fixed | asset_other
  | liability_payable | liability_card | liability_current_other | liability_long_term
  | equity
  | income | income_other
  | cogs | expense | expense_other | expense_deferred
  | statistical
  deriving DecidableEq

/-- The types that neither a position nor an effective adjustment is on. -/
def AccountType.isPnlOrEquity : AccountType → Bool
  | .income | .income_other | .cogs | .expense | .expense_other | .expense_deferred
  | .equity => true
  | _ => false

inductive AccountClass
  | asset | liability | equity | income | expense
  deriving DecidableEq

/-- The class an account type belongs to, if it has one. -/
def accountClassOf : AccountType → Option AccountClass
  | .asset_bank | .asset_receivable | .asset_current_other | .asset_fixed
  | .asset_other => some .asset
  | .liability_payable | .liability_card | .liability_current_other
  | .liability_long_term => some .liability
  | .equity => some .equity
  | .income | .income_other => some .income
  | .cogs | .expense | .expense_other | .expense_deferred => some .expense
  | .statistical => none

/-- The monetary-item predicate, over the type of an account and its explicit flag. -/
def isMonetary (type : AccountType) (monetary : Option Bool) : Bool :=
  match monetary with
  | some false => false
  | some true => !type.isPnlOrEquity
  | none => type = .asset_bank || type = .asset_receivable || type = .liability_payable

inductive Origin
  | fx_revaluation | currency_adjustment | fx_settlement
  | other (name : String)
  deriving DecidableEq

/-- Whether the lines of an entry are adjustments rather than positions. -/
def Origin.isFxAdjustment (origin : Origin) : Bool :=
  origin = .fx_revaluation || origin = .currency_adjustment

structure JournalLine where
  id : ℕ
  accountId : ℕ
  subsidiaryId : ℕ
  currency : String
  amount : ℤ
  txnAmount : ℤ
  isOpenItem : Bool := false

/-- An entry of the book that is posted, or posted and since reversed. -/
structure JournalEntry where
  id : ℕ
  periodId : ℕ
  origin : Origin
  reversesEntryId : Option ℕ := none
  lines : List JournalLine

/-- What a source line settles of a target line. The audit stamp of an unapplication is kept as
the business day it falls on. -/
structure Application where
  fromLineId : ℕ
  toLineId : ℕ
  sourceAmount : ℤ
  amount : ℤ
  sourceTransactionAmount : ℤ
  targetTransactionAmount : ℤ
  appliedOn : CivilDate
  unappliedOn : Option CivilDate := none

def JournalEntry.has (entry : JournalEntry) (lineId : ℕ) : Bool :=
  entry.lines.any (·.id = lineId)

/-- The close scope of a period, on entries. -/
def financialClosePeriodScope (periods : AccountingPeriods) (period : AccountingPeriod)
    (entry : JournalEntry) : Bool :=
  periods.rows.any fun ep => ep.id = entry.periodId && closes period ep

/-! ### Exposures -/

structure RevaluationError where
  message : String

/-- A rate in ten-billionths. -/
structure Rate where
  units : ℤ
  pos : 0 < units

/-- The closing rate of a position: none may be on file, or it may be refused for its age. -/
structure ClosingRate where
  rate : Option Rate
  refusal : Option String := none

/-- The closing rates by period, account and currency: a rate recorded for the very position, or
else the spot rate at the period's last day. -/
abbrev ClosingRates := ℕ → ℕ → String → ClosingRate

structure RevaluationExposure where
  accountId : ℕ
  currency : String
  carryingBase : ℤ
  foreignBalance : ℤ
  periodEndRate : Option Rate
  rateRefusal : Option String

structure RevaluationPosition where
  accountId : ℕ
  currency : String
  carryingBase : ℤ
  foreignBalance : ℤ
  periodEndRate : Rate

structure RevaluationLine where
  accountId : ℕ
  amount : ℤ

/-- A legal entity in a book: the currency the book measures it in, the periods, and the types
of the accounts, which are frozen once there are lines. -/
structure BookContext where
  periods : AccountingPeriods
  subsidiaryId : ℕ
  functionalCurrency : String
  accountType : ℕ → AccountType

/-- The rows of the book, with the flags and the rates that are read along with them. -/
structure Ledger where
  entries : List JournalEntry := []
  applications : List Application := []
  monetary : ℕ → Option Bool := fun _ => none
  rates : ClosingRates := fun _ _ _ => ⟨none, none⟩

/-- The applications that count at the end of a period: both ends in scope, and neither of them
reversed there. An application that has been taken back counts until the day of that, except
that a reversed endpoint leaves the decision to the period of the reversal. -/
def effectiveApplications (entries scopedEntries : List JournalEntry)
    (applications : List Application) (asOfDate : CivilDate) : List Application :=
  applications.filter fun ap =>
    match scopedEntries.find? (·.has ap.fromLineId), scopedEntries.find? (·.has ap.toLineId) with
    | some source, some target =>
      ap.appliedOn ≤ asOfDate &&
      !(scopedEntries.any fun reversal => reversal.reversesEntryId = some source.id ||
          reversal.reversesEntryId = some target.id) &&
      (ap.unappliedOn.all (asOfDate < ·) ||
        entries.any fun reversal => reversal.reversesEntryId = some source.id ||
          reversal.reversesEntryId = some target.id)
    | _, _ => false

/-- A line in foreign currency on a monetary account, less what has been applied of it. -/
structure PositionLine where
  accountId : ℕ
  currency : String
  carryingBase : ℤ
  foreignBalance : ℤ
  invalidResidual : Bool

/-- A line with what is still open of it. -/
def positionLine (effective : List Application) (l : JournalLine) : PositionLine :=
  let own := if l.isOpenItem then
    effective.filter fun ap => ap.fromLineId = l.id || ap.toLineId = l.id else []
  let base := (own.map fun ap => if ap.fromLineId = l.id then ap.sourceAmount else ap.amount).sum
  let foreignAmount := (own.map fun ap =>
    if ap.fromLineId = l.id then ap.sourceTransactionAmount else ap.targetTransactionAmount).sum
  { accountId := l.accountId
    currency := l.currency
    carryingBase := l.amount - l.amount.sign * base
    foreignBalance := l.txnAmount - l.txnAmount.sign * foreignAmount
    invalidResidual := l.isOpenItem && (|l.amount| < base || |l.txnAmount| < foreignAmount ||
      decide (|l.amount| = base) != decide (|l.txnAmount| = foreignAmount)) }

/-- The lines that a period restates. -/
def positionLines (ctx : BookContext) (ledger : Ledger) (period : AccountingPeriod) :
    List PositionLine :=
  let scopedEntries := ledger.entries.filter (financialClosePeriodScope ctx.periods period)
  let effective :=
    effectiveApplications ledger.entries scopedEntries ledger.applications period.endsOn
  (scopedEntries.filter fun e => !e.origin.isFxAdjustment && e.origin ≠ .fx_settlement).flatMap
    fun e => (e.lines.filter fun l =>
      l.subsidiaryId = ctx.subsidiaryId && l.currency ≠ ctx.functionalCurrency &&
        isMonetary (ctx.accountType l.accountId) (ledger.monetary l.accountId)).map
      (positionLine effective)

/-- The exposure of one account in one currency. A balance of zero in the foreign currency is
restated to zero and needs no rate. -/
def exposureOf (rates : ClosingRates) (periodId : ℕ) (key : ℕ × String)
    (lines : List PositionLine) : Except RevaluationError RevaluationExposure := do
  let carryingBase := (lines.map (·.carryingBase)).sum
  let foreignBalance := (lines.map (·.foreignBalance)).sum
  refuseIf (lines.any (·.invalidResidual))
    ⟨"inconsistent open-item residual for account " ++ toString key.1 ++ " in " ++ key.2⟩
  let closing : ClosingRate :=
    if foreignBalance = 0 then ⟨some ⟨RATE_SCALE, by decide⟩, none⟩
    else rates periodId key.1 key.2
  return { accountId := key.1, currency := key.2, carryingBase, foreignBalance
           periodEndRate := closing.rate, rateRefusal := closing.refusal }

/-- The historical population that posting and readiness share. -/
def loadExposures (ctx : BookContext) (ledger : Ledger) (period : AccountingPeriod) :
    Except RevaluationError (List RevaluationExposure) :=
  let rows := groupBy (fun l : PositionLine => (l.accountId, l.currency))
    (positionLines ctx ledger period)
  (rows.filter fun g => (g.2.map (·.foreignBalance)).sum ≠ 0 ||
    (g.2.map (·.carryingBase)).sum ≠ 0 || g.2.any (·.invalidResidual)).mapM fun g =>
      exposureOf ledger.rates period.id g.1 g.2

/-- The exposures, each with its rate: a position without one is refused. -/
def pricePositions (functionalCurrency : String) (asOfDate : CivilDate)
    (exposures : List RevaluationExposure) : Except RevaluationError (List RevaluationPosition) :=
  exposures.mapM fun exposure => do
    let rate ← orRefuse exposure.periodEndRate
      ⟨exposure.rateRefusal.getD ("no spot rate for " ++ exposure.currency ++ "→" ++
        functionalCurrency ++ " on or before " ++ String.ofList (isoDateOf asOfDate))⟩
    return { accountId := exposure.accountId, currency := exposure.currency
             carryingBase := exposure.carryingBase, foreignBalance := exposure.foreignBalance
             periodEndRate := rate }

/-! ### Adjustments -/

/-- What the adjustments of the scope come to, by account. -/
def loadEffectiveAdjustments (ctx : BookContext) (ledger : Ledger) (period : AccountingPeriod) :
    List RevaluationLine :=
  let lines := (ledger.entries.filter fun e => e.origin.isFxAdjustment &&
      financialClosePeriodScope ctx.periods period e).flatMap fun e =>
    e.lines.filter fun l =>
      l.subsidiaryId = ctx.subsidiaryId && !(ctx.accountType l.accountId).isPnlOrEquity
  ((groupBy JournalLine.accountId lines).map fun g =>
    (⟨g.1, (g.2.map JournalLine.amount).sum⟩ : RevaluationLine)).filter (·.amount ≠ 0)

/-- What a position is restated by. -/
def positionDelta (p : RevaluationPosition) : ℤ :=
  mulRate p.foreignBalance p.periodEndRate.units - p.carryingBase

/-- Every position asks for its restatement, every adjustment for itself back. -/
def contributions (positions : List RevaluationPosition) (effective : List RevaluationLine) :
    List RevaluationLine :=
  (positions.map fun p => ⟨p.accountId, positionDelta p⟩) ++
    effective.map fun line => ⟨line.accountId, -line.amount⟩

/-- One residual per account, including accounts that have no exposure left. -/
def requiredAdjustments (positions : List RevaluationPosition)
    (effective : List RevaluationLine) : List RevaluationLine :=
  let amounts := (groupBy RevaluationLine.accountId
      (contributions positions effective)).map fun g =>
    (⟨g.1, (g.2.map RevaluationLine.amount).sum⟩ : RevaluationLine)
  (amounts.insertionSort fun a b => a.accountId ≤ b.accountId).filter (·.amount ≠ 0)

/-! ### What lines come to on an account -/

/-- What lines come to on an account. -/
def amountOf (lines : List RevaluationLine) (accountId : ℕ) : ℤ :=
  ((lines.filter (·.accountId = accountId)).map RevaluationLine.amount).sum

@[simp] theorem amountOf_nil (a : ℕ) : amountOf [] a = 0 := rfl

theorem amountOf_cons (line : RevaluationLine) (lines : List RevaluationLine) (a : ℕ) :
    amountOf (line :: lines) a =
      (if line.accountId = a then line.amount else 0) + amountOf lines a := by
  by_cases h : line.accountId = a <;> simp [amountOf, h]

theorem amountOf_append (xs ys : List RevaluationLine) (a : ℕ) :
    amountOf (xs ++ ys) a = amountOf xs a + amountOf ys a := by
  simp [amountOf]

theorem amountOf_perm {xs ys : List RevaluationLine} (h : xs.Perm ys) (a : ℕ) :
    amountOf xs a = amountOf ys a :=
  ((h.filter _).map _).sum_eq

theorem amountOf_filter_ne_zero (lines : List RevaluationLine) (a : ℕ) :
    amountOf (lines.filter (·.amount ≠ 0)) a = amountOf lines a := by
  induction lines with
  | nil => rfl
  | cons line lines ih =>
    by_cases h : line.amount = 0
    · rw [filter_cons_of_neg (by simpa using h), ih, amountOf_cons, h, ite_self, zero_add]
    · rw [filter_cons_of_pos (by simpa using h), amountOf_cons, amountOf_cons, ih]

theorem amountOf_neg (lines : List RevaluationLine) (a : ℕ) :
    amountOf (lines.map fun line => ⟨line.accountId, -line.amount⟩) a = -amountOf lines a := by
  induction lines with
  | nil => rfl
  | cons line lines ih =>
    rw [map_cons, amountOf_cons, amountOf_cons, ih, neg_add]
    congr 1
    by_cases h : line.accountId = a <;> simp [h]

/-- One line for each of some distinct accounts. -/
theorem amountOf_map {ks : List ℕ} (hks : ks.Nodup) (f : ℕ → ℤ) (a : ℕ) :
    amountOf (ks.map fun k => ⟨k, f k⟩) a = if a ∈ ks then f a else 0 := by
  rw [amountOf, ListSum.sum_map_filter_eq_ite, map_map]
  exact ListSum.sum_map_ite_eq hks a f

/-- **A grouping by account comes to what the list does**, account by account. -/
theorem amountOf_groupBy {α : Type} (key : α → ℕ) (f : α → ℤ) (xs : List α) (a : ℕ) :
    amountOf ((groupBy key xs).map fun g => ⟨g.1, (g.2.map f).sum⟩) a =
      ((xs.filter (key · = a)).map f).sum := by
  rw [groupBy_eq, map_map]
  have hmap := amountOf_map (nodup_keys key xs)
    (fun k => ((xs.filter (key · = k)).map f).sum) a
  refine hmap.trans ?_
  split_ifs with h
  · rfl
  · have hnone : xs.filter (key · = a) = [] := by
      refine filter_eq_nil_iff.mpr fun x hx hk => h ?_
      exact FirstSeen.mem_keys.mpr ⟨x, hx, by simpa using hk⟩
    rw [hnone]
    rfl

variable {lines : List RevaluationLine} {line : RevaluationLine}

theorem amountOf_of_mem (hlines : (lines.map RevaluationLine.accountId).Nodup) (h : line ∈ lines) :
    amountOf lines line.accountId = line.amount := by
  have hothers : ∀ (rest : List RevaluationLine) (a : ℕ),
      a ∉ rest.map RevaluationLine.accountId → amountOf rest a = 0 := by
    intro rest a ha
    rw [amountOf, filter_eq_nil_iff.mpr, map_nil, sum_nil]
    intro l hl heq
    exact ha (mem_map.mpr ⟨l, hl, by simpa using heq⟩)
  induction lines with
  | nil => cases h
  | cons l lines ih =>
    obtain ⟨hl, hlines⟩ := nodup_cons.mp hlines
    rw [amountOf_cons]
    rcases mem_cons.mp h with rfl | h
    · rw [if_pos rfl, hothers lines _ hl, add_zero]
    · have hne : l.accountId ≠ line.accountId := by
        rintro heq
        exact hl (heq ▸ mem_map_of_mem h)
      rw [if_neg hne, ih hlines h, zero_add]

theorem exists_mem_of_amountOf_ne_zero {a : ℕ} (h : amountOf lines a ≠ 0) :
    ∃ line ∈ lines, line.accountId = a := by
  by_contra hnone
  push Not at hnone
  refine h ?_
  rw [amountOf, filter_eq_nil_iff.mpr, map_nil, sum_nil]
  intro line hline heq
  exact hnone line hline (by simpa using heq)

/-! ### What is required -/

variable (positions : List RevaluationPosition)

section

variable (effective : List RevaluationLine)

/-- **The amount required of an account** is what the contributions come to. -/
theorem amountOf_requiredAdjustments (a : ℕ) :
    amountOf (requiredAdjustments positions effective) a =
      amountOf (contributions positions effective) a := by
  rw [requiredAdjustments, amountOf_filter_ne_zero, amountOf_perm (perm_insertionSort _ _),
    amountOf_groupBy]
  rfl

/-- The lines required are on distinct accounts, in the order of the accounts. -/
theorem requiredAdjustments_sorted :
    (requiredAdjustments positions effective).Pairwise fun a b => a.accountId < b.accountId := by
  refine List.Pairwise.filter _ ?_
  have hle : ∀ lines : List RevaluationLine,
      (lines.insertionSort fun a b => a.accountId ≤ b.accountId).Pairwise
        fun a b => a.accountId ≤ b.accountId := by
    have htotal : Std.Total fun a b : RevaluationLine => a.accountId ≤ b.accountId :=
      ⟨fun a b => le_total _ _⟩
    have htrans : IsTrans RevaluationLine fun a b => a.accountId ≤ b.accountId :=
      ⟨fun _ _ _ => le_trans⟩
    exact fun lines => pairwise_insertionSort _ lines
  have hne : ∀ lines : List RevaluationLine, (lines.map RevaluationLine.accountId).Nodup →
      (lines.insertionSort fun a b => a.accountId ≤ b.accountId).Pairwise
        fun a b => a.accountId ≠ b.accountId := by
    intro lines hlines
    have hperm := (perm_insertionSort (fun a b : RevaluationLine =>
      a.accountId ≤ b.accountId) lines).map RevaluationLine.accountId
    exact pairwise_map.mp (hperm.nodup_iff.mpr hlines)
  refine ((hle _).and (hne _ ?_)).imp fun h => lt_of_le_of_ne h.1 h.2
  rw [groupBy_eq, map_map, map_map]
  exact (map_id _).symm ▸ nodup_keys _ _

theorem requiredAdjustments_nodup :
    ((requiredAdjustments positions effective).map RevaluationLine.accountId).Nodup :=
  pairwise_map.mpr ((requiredAdjustments_sorted positions effective).imp fun h => h.ne)

end

variable {effective : List RevaluationLine}

/-- **What is required**: on each account all that the contributions come to there, unless that
is nothing. -/
theorem mem_requiredAdjustments {positions : List RevaluationPosition} :
    line ∈ requiredAdjustments positions effective ↔
      line.amount ≠ 0 ∧ amountOf (contributions positions effective) line.accountId = line.amount := by
  rw [← amountOf_requiredAdjustments]
  constructor
  · intro h
    refine ⟨?_, amountOf_of_mem (requiredAdjustments_nodup _ _) h⟩
    simpa using (mem_filter.mp h).2
  · rintro ⟨hne, hamount⟩
    obtain ⟨found, hfound, haccount⟩ :=
      exists_mem_of_amountOf_ne_zero (a := line.accountId) (by rwa [hamount])
    have hself := amountOf_of_mem (requiredAdjustments_nodup _ _) hfound
    rw [haccount, hamount] at hself
    have heq : line = found := by
      cases line
      cases found
      simp_all
    exact heq ▸ hfound

/-- **What is required depends on what the contributions come to**, account by account, and not
on how or in which order they are listed. -/
theorem requiredAdjustments_congr {positions positions' : List RevaluationPosition}
    {effective' : List RevaluationLine}
    (h : ∀ a, amountOf (contributions positions effective) a =
      amountOf (contributions positions' effective') a) :
    requiredAdjustments positions effective = requiredAdjustments positions' effective' := by
  refine Perm.eq_of_pairwise (fun a b _ _ hab hba => absurd hab hba.asymm)
    (requiredAdjustments_sorted _ _) (requiredAdjustments_sorted _ _) ?_
  refine (perm_ext_iff_of_nodup ?_ ?_).mpr fun line => ?_
  · exact Nodup.of_map _ (requiredAdjustments_nodup _ _)
  · exact Nodup.of_map _ (requiredAdjustments_nodup _ _)
  · rw [mem_requiredAdjustments, mem_requiredAdjustments, h]

/-- Nothing is required exactly if the contributions come to nothing on every account. -/
theorem requiredAdjustments_eq_nil {positions : List RevaluationPosition} :
    requiredAdjustments positions effective = [] ↔
      ∀ a, amountOf (contributions positions effective) a = 0 := by
  constructor
  · intro h a
    rw [← amountOf_requiredAdjustments, h]
    rfl
  · intro h
    refine List.eq_nil_iff_forall_not_mem.mpr fun line hline => ?_
    obtain ⟨hne, hamount⟩ := mem_requiredAdjustments.mp hline
    exact hne (hamount ▸ h line.accountId)

end OpenBooks.FxRevaluation
