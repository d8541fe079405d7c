import OpenBooks.Billing.ComponentWindows
import OpenBooks.Lib.FirstSeen
import OpenBooks.Lib.ListSum
import Mathlib.Data.List.ReduceOption

/-!
# Charging the days of a component

In arrears a component is charged over the service interval `[periodStartsOn, periodEndsOn)` it
was in force in, one line for each of its windows. A window that covers the interval is charged
verbatim, quantity and price as they stand; any other is charged its share of the interval's
amount, day by day. Because the windows of a key are apart, the lines of a key are for disjoint
ranges of days, and together they are for the days that the key was in force
(`ContractComponents.arrears_charge_each_day_once`).

The interval's amount is quantity times price *as the ledger keeps it*, to four decimals, and the
share of it is rounded again. That is not the share rounded once
(`ContractComponents.not_rounded_once`).
-/

namespace OpenBooks.ContractComponents

open Checked Windows List FirstSeen ListSum CivilDate

/-! ### Lines -/

structure AdvancedBillingLine where
  description : String
  quantity : ℤ
  unitPrice : ℤ
  incomeAccountId : Option String
  itemId : Option String
  taxCodeId : Option String

/-- The components that billing fetches for a service interval. -/
def fetchComponents (periodStartsOn periodEndsOn : CivilDate)
    (components : List ContractComponent) : List ContractComponent :=
  (components.filter fun c =>
    c.effectiveFrom < periodEndsOn && c.effectiveTo.all (periodStartsOn ≤ ·)).insertionSort
      fun a b => a.sortOrder < b.sortOrder ∨
        (a.sortOrder = b.sortOrder ∧ a.componentKey ≤ b.componentKey)

/-- A component as it stands. -/
def verbatimLine (c : ContractComponent) : AdvancedBillingLine where
  description := c.name
  quantity := c.quantity
  unitPrice := c.unitPrice
  incomeAccountId := c.incomeAccountId
  itemId := c.itemId
  taxCodeId := c.taxCodeId

/-- The components an advance bill charges: those open on the first day of the period. -/
def advanceComponents (periodStartsOn periodEndsOn : CivilDate)
    (components : List ContractComponent) : List ContractComponent :=
  (fetchComponents periodStartsOn periodEndsOn components).filter fun c =>
    c.effectiveFrom ≤ periodStartsOn && c.effectiveTo.all (periodStartsOn ≤ ·)

def prorateDays (fullAmount coveredDays totalDays : ℤ) : ℤ :=
  if totalDays ≤ 0 then 0
  else roundDiv (fullAmount * max 0 (min totalDays coveredDays)) totalDays

/-- What an interval has of a window. -/
structure Overlap where
  row : ContractComponent
  windowStartsOn : CivilDate
  windowEndsOn : CivilDate
  coveredDays : ℤ

/-- Whether a day is one that the line is for. -/
def Overlap.Covers (o : Overlap) (day : CivilDate) : Bool :=
  o.windowStartsOn ≤ day && day < o.windowEndsOn

/-- The day after the last of a window; the end of the period if it is open. -/
def rowEndsExclusive (periodEndsOn : CivilDate) (row : ContractComponent) :
    Except RangeError CivilDate :=
  match row.effectiveTo with
  | none => .ok periodEndsOn
  | some last => orRefuse (nextDay last)
      ⟨"business date must be a valid YYYY-MM-DD calendar date in years 0001 through 9999"⟩

/-- What an interval has of a window, if it has a day of it. -/
def overlapOf (periodStartsOn periodEndsOn : CivilDate) (row : ContractComponent) :
    Except RangeError (Option Overlap) := do
  let windowStartsOn :=
    if periodStartsOn < row.effectiveFrom then row.effectiveFrom else periodStartsOn
  let exclusive ← rowEndsExclusive periodEndsOn row
  let windowEndsOn := if exclusive < periodEndsOn then exclusive else periodEndsOn
  let coveredDays := windowEndsOn.dayNumber - windowStartsOn.dayNumber
  return if 0 < coveredDays then some { row, windowStartsOn, windowEndsOn, coveredDays } else none

def lineOf (totalDays : ℤ) (unchanged : Bool) (o : Overlap) :
    Except RangeError AdvancedBillingLine :=
  if unchanged then .ok (verbatimLine o.row)
  else do
    let windowEndsInclusive ← prevDay o.windowEndsOn
    return {
      description := o.row.name ++ " (" ++ isoText o.windowStartsOn ++ " → " ++
        isoText windowEndsInclusive ++ ")"
      quantity := 10000
      unitPrice := prorateDays (mul o.row.quantity o.row.unitPrice) o.coveredDays totalDays
      incomeAccountId := o.row.incomeAccountId
      itemId := o.row.itemId
      taxCodeId := o.row.taxCodeId }

/-- The lines of one key, each with what it is for. A window that is alone and covers the
interval is unchanged in it. -/
def chargesOfKey (periodStartsOn periodEndsOn : CivilDate) (totalDays : ℤ)
    (rows : List ContractComponent) : Except RangeError (List (Overlap × AdvancedBillingLine)) := do
  let found ← (rows.insertionSort fun a b => a.effectiveFrom ≤ b.effectiveFrom).mapM
    (overlapOf periodStartsOn periodEndsOn)
  let overlaps := found.reduceOption
  let unchanged := overlaps.length = 1 && overlaps.all (·.coveredDays = totalDays)
  overlaps.mapM fun o => do
    let line ← lineOf totalDays unchanged o
    return (o, line)

/-- The lines of an interval, each with what it is for. -/
def arrearsCharges (periodStartsOn periodEndsOn : CivilDate) (windows : List ContractComponent) :
    Except RangeError (List (Overlap × AdvancedBillingLine)) :=
  let totalDays := periodEndsOn.dayNumber - periodStartsOn.dayNumber
  if totalDays ≤ 0 then .ok []
  else do
    let charges ← (groupBy ContractComponent.componentKey windows).mapM fun g =>
      chargesOfKey periodStartsOn periodEndsOn totalDays g.2
    return charges.flatten

/-- Price the components of a contract over a service interval. -/
def arrearsLinesForInterval (periodStartsOn periodEndsOn : CivilDate)
    (windows : List ContractComponent) : Except RangeError (List AdvancedBillingLine) :=
  (·.map Prod.snd) <$> arrearsCharges periodStartsOn periodEndsOn windows

/-! ### One window -/

variable {periodStartsOn periodEndsOn : CivilDate} {row : ContractComponent}

theorem rowEndsExclusive_spec (periodEndsOn : CivilDate)
    (hends : ∀ last ∈ row.effectiveTo, ∃ day, last < day) :
    ∃ exclusive, rowEndsExclusive periodEndsOn row = .ok exclusive ∧
      ∀ day, day < periodEndsOn → (row.effectiveTo.all (day ≤ ·) = true ↔ day < exclusive) := by
  rw [rowEndsExclusive]
  cases hto : row.effectiveTo with
  | none => exact ⟨periodEndsOn, rfl, fun day hday => by simp [hday]⟩
  | some last =>
    obtain ⟨day, hday⟩ := hends last hto
    obtain ⟨next, hnext⟩ := exists_nextDay hday
    refine ⟨next, by simp only [hnext]; rfl, fun day _ => ?_⟩
    rw [Option.all_some, decide_eq_true_eq]
    exact (lt_nextDay_iff hnext).symm

/-- **What an interval has of a window** are the days of the interval on which the window holds:
at least one, or it has nothing. -/
theorem overlapOf_spec (periodStartsOn periodEndsOn : CivilDate)
    (hends : ∀ last ∈ row.effectiveTo, ∃ day, last < day) :
    ∃ found, overlapOf periodStartsOn periodEndsOn row = .ok found ∧
      (∀ o ∈ found, o.row = row ∧ o.windowStartsOn < o.windowEndsOn ∧
        periodStartsOn ≤ o.windowStartsOn ∧ o.windowEndsOn ≤ periodEndsOn ∧
        o.coveredDays = o.windowEndsOn.dayNumber - o.windowStartsOn.dayNumber) ∧
      ∀ day, found.any (·.Covers day) =
        (periodStartsOn ≤ day && day < periodEndsOn && row.window.Holds day) := by
  obtain ⟨exclusive, hexclusive, hlast⟩ := rowEndsExclusive_spec periodEndsOn hends
  have hstart : ∀ day, (if periodStartsOn < row.effectiveFrom then row.effectiveFrom
      else periodStartsOn) ≤ day ↔ periodStartsOn ≤ day ∧ row.effectiveFrom ≤ day := by
    intro day
    split_ifs with h
    · exact ⟨fun hle => ⟨h.le.trans hle, hle⟩, fun hle => hle.2⟩
    · exact ⟨fun hle => ⟨hle, (not_lt.mp h).trans hle⟩, fun hle => hle.1⟩
  have hend : ∀ day, day < (if exclusive < periodEndsOn then exclusive else periodEndsOn) ↔
      day < periodEndsOn ∧ day < exclusive := by
    intro day
    split_ifs with h
    · exact ⟨fun hlt => ⟨hlt.trans h, hlt⟩, fun hlt => hlt.2⟩
    · exact ⟨fun hlt => ⟨hlt, hlt.trans_le (not_lt.mp h)⟩, fun hlt => hlt.1⟩
  generalize hs : (if periodStartsOn < row.effectiveFrom then row.effectiveFrom
    else periodStartsOn) = windowStartsOn at hstart
  generalize he : (if exclusive < periodEndsOn then exclusive else periodEndsOn) = windowEndsOn
    at hend
  have hfound : overlapOf periodStartsOn periodEndsOn row =
      .ok (if 0 < windowEndsOn.dayNumber - windowStartsOn.dayNumber then
        some ⟨row, windowStartsOn, windowEndsOn,
          windowEndsOn.dayNumber - windowStartsOn.dayNumber⟩ else none) := by
    rw [overlapOf, hexclusive, ok_bind]
    simp only [hs, he]
    rfl
  refine ⟨_, hfound, ?_, fun day => ?_⟩
  · intro o ho
    split_ifs at ho with hcovered
    · cases ho
      refine ⟨rfl, lt_iff_dayNumber.mpr (sub_pos.mp hcovered), ?_, ?_, rfl⟩
      · exact ((hstart _).mp (le_refl _)).1
      · by_contra hlt
        exact lt_irrefl _ ((hend periodEndsOn).mp (not_le.mp hlt)).1
    · cases ho
  · have hcovers : (windowStartsOn ≤ day ∧ day < windowEndsOn) ↔
        (periodStartsOn ≤ day ∧ day < periodEndsOn) ∧ row.window.Holds day = true := by
      rw [hstart, hend, holds_window_iff]
      constructor
      · rintro ⟨⟨hperiod, hfrom⟩, hbefore, hexclusive⟩
        exact ⟨⟨hperiod, hbefore⟩, hfrom, (hlast day hbefore).mpr hexclusive⟩
      · rintro ⟨⟨hperiod, hbefore⟩, hfrom, hto⟩
        exact ⟨⟨hperiod, hfrom⟩, hbefore, (hlast day hbefore).mp hto⟩
    rw [Bool.eq_iff_iff, Bool.and_eq_true, Bool.and_eq_true, decide_eq_true_eq, decide_eq_true_eq,
      ← hcovers]
    split_ifs with hcovered
    · simp [Overlap.Covers]
    · have hempty : ¬(windowStartsOn ≤ day ∧ day < windowEndsOn) := by
        rintro ⟨hle, hlt⟩
        have := lt_iff_dayNumber.mp (hle.trans_lt hlt)
        omega
      simpa using hempty

/-! ### The lines of a key -/

theorem countP_reduceOption {α β : Type} {R : α → Option β → Prop} {xs : List α}
    {found : List (Option β)} (h : List.Forall₂ R xs found) {p : β → Bool} {q : α → Bool}
    (hpq : ∀ x ∈ xs, ∀ o, R x o → o.any p = q x) : found.reduceOption.countP p = xs.countP q := by
  induction h with
  | nil => rfl
  | @cons x o xs found hxo _ ih =>
    have hrest := ih fun y hy => hpq y (mem_cons_of_mem _ hy)
    have hx := hpq x mem_cons_self o hxo
    rw [countP_cons, ← hrest, ← hx]
    cases o with
    | none => rfl
    | some b =>
      rw [reduceOption_cons_of_some, countP_cons]
      rfl

variable {overlaps : List Overlap}

/-- A list in which one element covers what every other one touches, and in which nothing is
covered twice, has no other one. -/
theorem length_eq_one_of_covers {o : Overlap} (ho : o ∈ overlaps)
    (hone : ∀ day, overlaps.countP (·.Covers day) ≤ 1)
    (hcovers : ∀ other ∈ overlaps, other.Covers other.windowStartsOn = true ∧
      o.Covers other.windowStartsOn = true) : overlaps.length = 1 := by
  obtain ⟨before, after, rfl⟩ := append_of_mem ho
  have hother : ∀ other ∈ before ++ after, False := by
    intro other hmem
    have hin : other ∈ before ++ o :: after := by
      rcases mem_append.mp hmem with h | h
      · exact mem_append_left _ h
      · exact mem_append_right _ (mem_cons_of_mem _ h)
    obtain ⟨hself, hby⟩ := hcovers other hin
    have hcount := hone other.windowStartsOn
    have hpos : 0 < (before ++ after).countP (·.Covers other.windowStartsOn) :=
      countP_pos_iff.mpr ⟨other, hmem, hself⟩
    rw [countP_append, countP_cons, if_pos hby] at hcount
    rw [countP_append] at hpos
    omega
  have hnil : before ++ after = [] := eq_nil_iff_forall_not_mem.mpr fun x hx => hother x hx
  obtain ⟨rfl, rfl⟩ := append_eq_nil_iff.mp hnil
  rfl

theorem exists_lineOf {o : Overlap} (h : o.windowStartsOn < o.windowEndsOn) (totalDays : ℤ)
    (unchanged : Bool) : ∃ line, lineOf totalDays unchanged o = .ok line := by
  cases unchanged with
  | true => exact ⟨_, rfl⟩
  | false =>
    obtain ⟨last, hlast⟩ := exists_prevDay h
    exact ⟨_, by rw [lineOf, if_neg Bool.false_ne_true, hlast]; rfl⟩

theorem exists_charges (totalDays : ℤ) (unchanged : Bool)
    (h : ∀ o ∈ overlaps, o.windowStartsOn < o.windowEndsOn) :
    ∃ charges : List (Overlap × AdvancedBillingLine), (overlaps.mapM fun o => do
      let line ← lineOf totalDays unchanged o
      return (o, line)) = .ok charges := by
  have hone : ∀ o ∈ overlaps, ∃ charge : Overlap × AdvancedBillingLine, (do
      let line ← lineOf totalDays unchanged o
      return (o, line)) = Except.ok charge := by
    intro o ho
    obtain ⟨line, hline⟩ := exists_lineOf (h o ho) totalDays unchanged
    exact ⟨(o, line), by rw [hline]; rfl⟩
  obtain ⟨charges, hcharges⟩ := exists_forall₂ hone
  exact ⟨charges, mapM_eq_ok.mpr hcharges⟩

variable {totalDays : ℤ}

theorem map_fst_of_charges {unchanged : Bool} {charges : List (Overlap × AdvancedBillingLine)}
    (h : (overlaps.mapM fun o => do
      let line ← lineOf totalDays unchanged o
      return (o, line)) = .ok charges) : charges.map Prod.fst = overlaps := by
  have hall := mapM_eq_ok.mp h
  clear h
  induction hall with
  | nil => rfl
  | cons hline _ ih =>
    simp only [bind_eq_ok, pure_eq_ok] at hline
    obtain ⟨line, -, rfl⟩ := hline
    rw [map_cons, ih]

/-- **The lines of a key**: one for each window that the interval has a day of, verbatim exactly
if the window covers the interval. -/
theorem chargesOfKey_spec (rows : List ContractComponent)
    (htotal : totalDays = periodEndsOn.dayNumber - periodStartsOn.dayNumber)
    (hends : ∀ row ∈ rows, ∀ last ∈ row.effectiveTo, ∃ day, last < day)
    (honce : ∀ day, rows.countP (fun row => row.window.Holds day) ≤ 1) :
    ∃ charges, chargesOfKey periodStartsOn periodEndsOn totalDays rows = .ok charges ∧
      (∀ day, charges.countP (·.1.Covers day) = rows.countP fun row =>
        periodStartsOn ≤ day && day < periodEndsOn && row.window.Holds day) ∧
      ∀ charge ∈ charges, charge.1.row ∈ rows ∧
        charge.1.windowStartsOn < charge.1.windowEndsOn ∧
        periodStartsOn ≤ charge.1.windowStartsOn ∧ charge.1.windowEndsOn ≤ periodEndsOn ∧
        charge.1.coveredDays =
          charge.1.windowEndsOn.dayNumber - charge.1.windowStartsOn.dayNumber ∧
        lineOf totalDays (charge.1.coveredDays = totalDays) charge.1 = .ok charge.2 := by
  have hperm := perm_insertionSort
    (fun a b : ContractComponent => a.effectiveFrom ≤ b.effectiveFrom) rows
  generalize hordered : (rows.insertionSort fun a b => a.effectiveFrom ≤ b.effectiveFrom) =
    ordered at hperm
  have hone : ∀ row ∈ ordered, ∃ o, overlapOf periodStartsOn periodEndsOn row = .ok o :=
    fun row hrow => (overlapOf_spec _ _ (hends row (hperm.mem_iff.mp hrow))).imp fun _ h => h.1
  obtain ⟨found, hfound⟩ := exists_forall₂ hone
  have hspec : ∀ row ∈ ordered, ∀ o, overlapOf periodStartsOn periodEndsOn row = .ok o →
      (∀ x ∈ o, x.row = row ∧ x.windowStartsOn < x.windowEndsOn ∧
        periodStartsOn ≤ x.windowStartsOn ∧ x.windowEndsOn ≤ periodEndsOn ∧
        x.coveredDays = x.windowEndsOn.dayNumber - x.windowStartsOn.dayNumber) ∧
      ∀ day, o.any (·.Covers day) =
        (periodStartsOn ≤ day && day < periodEndsOn && row.window.Holds day) := by
    intro row hrow o ho
    obtain ⟨o', ho', hx, hday⟩ :=
      overlapOf_spec periodStartsOn periodEndsOn (hends row (hperm.mem_iff.mp hrow))
    cases ho.symm.trans ho'
    exact ⟨hx, hday⟩
  have hcount : ∀ day, found.reduceOption.countP (·.Covers day) = rows.countP fun row =>
      periodStartsOn ≤ day && day < periodEndsOn && row.window.Holds day := fun day =>
    (countP_reduceOption hfound fun row hrow o ho => (hspec row hrow o ho).2 day).trans
      (hperm.countP_eq _)
  have hmem : ∀ o ∈ found.reduceOption, o.row ∈ rows ∧ o.windowStartsOn < o.windowEndsOn ∧
      periodStartsOn ≤ o.windowStartsOn ∧ o.windowEndsOn ≤ periodEndsOn ∧
      o.coveredDays = o.windowEndsOn.dayNumber - o.windowStartsOn.dayNumber := by
    intro o ho
    obtain ⟨row, hrow, hoverlap⟩ :=
      exists_left_of_forall₂ hfound (reduceOption_mem_iff.mp ho)
    obtain ⟨hself, hrest⟩ := (hspec row hrow _ hoverlap).1 o rfl
    exact ⟨hself ▸ hperm.mem_iff.mp hrow, hrest⟩
  have hunchanged : ∀ o ∈ found.reduceOption,
      (found.reduceOption.length = 1 && found.reduceOption.all (·.coveredDays = totalDays)) =
        decide (o.coveredDays = totalDays) := by
    intro o ho
    rw [Bool.eq_iff_iff, Bool.and_eq_true, decide_eq_true_eq, decide_eq_true_eq, all_eq_true]
    constructor
    · rintro ⟨-, hall⟩
      exact of_decide_eq_true (hall o ho)
    · intro hcovered
      obtain ⟨-, hlt, hstart, hend, hdays⟩ := hmem o ho
      have hfull : o.windowStartsOn = periodStartsOn ∧ o.windowEndsOn = periodEndsOn := by
        rw [le_iff_dayNumber] at hstart hend
        exact ⟨dayNumber_inj.mp (by omega), dayNumber_inj.mp (by omega)⟩
      have hlength : found.reduceOption.length = 1 := by
        refine length_eq_one_of_covers ho (fun day => ?_) fun other hother => ?_
        · rw [hcount]
          exact (countP_mono_left fun row _ h => (Bool.and_eq_true _ _ ▸ h).2).trans (honce day)
        · obtain ⟨-, hlt', hstart', hend', -⟩ := hmem other hother
          simp [Overlap.Covers, hfull, hlt', hstart', hlt'.trans_le hend']
      obtain ⟨only, honly⟩ := length_eq_one_iff.mp hlength
      rw [honly] at ho ⊢
      obtain rfl := mem_singleton.mp ho
      exact ⟨rfl, by simpa using hcovered⟩
  obtain ⟨charges, hcharges⟩ := exists_charges totalDays
    (found.reduceOption.length = 1 && found.reduceOption.all (·.coveredDays = totalDays))
    fun o ho => (hmem o ho).2.1
  have hlines := mapM_eq_ok.mp hcharges
  refine ⟨charges, ?_, fun day => ?_, fun charge hcharge => ?_⟩
  · rw [chargesOfKey, hordered, mapM_eq_ok.mpr hfound, ok_bind]
    exact hcharges
  · rw [← hcount, ← map_fst_of_charges hcharges, countP_map]
    rfl
  · obtain ⟨o, ho, hline⟩ := exists_left_of_forall₂ hlines hcharge
    rw [hunchanged o ho] at hline
    simp only [bind_eq_ok, pure_eq_ok] at hline
    obtain ⟨line, hline, rfl⟩ := hline
    obtain ⟨hrow, hlt, hstart, hend, hdays⟩ := hmem o ho
    exact ⟨hrow, hlt, hstart, hend, hdays, hline⟩

/-! ### All lines of an interval -/

variable {components : List ContractComponent}

theorem fetchComponents_perm (periodStartsOn periodEndsOn : CivilDate)
    (components : List ContractComponent) :
    (fetchComponents periodStartsOn periodEndsOn components).Perm (components.filter fun c =>
      c.effectiveFrom < periodEndsOn && c.effectiveTo.all (periodStartsOn ≤ ·)) :=
  perm_insertionSort _ _

theorem mem_of_mem_fetchComponents
    (h : row ∈ fetchComponents periodStartsOn periodEndsOn components) : row ∈ components :=
  (mem_filter.mp ((fetchComponents_perm _ _ _).mem_iff.mp h)).1

theorem Sound.fetchComponents (h : Sound components) (periodStartsOn periodEndsOn : CivilDate) :
    Sound (fetchComponents periodStartsOn periodEndsOn components) := by
  refine ⟨fun c hc => h.nonempty c (mem_of_mem_fetchComponents hc),
    fun c hc => h.ends c (mem_of_mem_fetchComponents hc), ?_⟩
  refine (fetchComponents_perm _ _ _).symm.pairwise (h.apart.filter _) fun hab hkey => ?_
  exact (hab hkey.symm).symm

theorem Sound.countP_key (h : Sound components) (key : String) (day : CivilDate) :
    (components.filter (·.componentKey = key)).countP (fun row => row.window.Holds day) =
      if components.any (fun row => row.componentKey = key && row.window.Holds day) then 1
      else 0 := by
  have hapart : (components.filter (·.componentKey = key)).Pairwise
      fun a b => Apart a.window b.window := by
    refine (h.apart.filter _).imp_of_mem fun ha hb hab => hab ?_
    exact (of_decide_eq_true (mem_filter.mp ha).2).trans
      (of_decide_eq_true (mem_filter.mp hb).2).symm
  rw [countP_holds hapart, any_filter]

/-- Whether a row is of a key, and in force on a day of the interval. -/
def InForce (periodStartsOn periodEndsOn : CivilDate) (key : String) (day : CivilDate)
    (row : ContractComponent) : Bool :=
  row.componentKey = key && (periodStartsOn ≤ day && day < periodEndsOn && row.window.Holds day)

theorem countP_fetchComponents (key : String) (day : CivilDate) :
    (fetchComponents periodStartsOn periodEndsOn components).countP
        (InForce periodStartsOn periodEndsOn key day) =
      components.countP (InForce periodStartsOn periodEndsOn key day) := by
  rw [(fetchComponents_perm _ _ _).countP_eq, countP_filter]
  refine countP_congr fun c _ => ?_
  rw [Bool.and_eq_true, and_iff_left_iff_imp]
  intro hforce
  simp only [InForce, Bool.and_eq_true, decide_eq_true_eq, holds_window_iff] at hforce ⊢
  obtain ⟨-, ⟨hperiod, hbefore⟩, hfrom, hto⟩ := hforce
  refine ⟨hfrom.trans_lt hbefore, ?_⟩
  cases hlast : c.effectiveTo with
  | none => rfl
  | some last =>
    rw [hlast, Option.all_some, decide_eq_true_eq] at hto
    rw [Option.all_some, decide_eq_true_eq]
    exact hperiod.trans hto

theorem Sound.countP_inForce (h : Sound components) (key : String) (day : CivilDate) :
    components.countP (InForce periodStartsOn periodEndsOn key day) =
      if periodStartsOn ≤ day ∧ day < periodEndsOn ∧
          components.any (fun row => row.componentKey = key && row.window.Holds day) = true
        then 1 else 0 := by
  by_cases hday : periodStartsOn ≤ day ∧ day < periodEndsOn
  · have hcount := h.countP_key key day
    rw [countP_filter] at hcount
    have hcongr : components.countP (InForce periodStartsOn periodEndsOn key day) =
        components.countP fun row => row.window.Holds day && row.componentKey = key := by
      refine countP_congr fun row _ => ?_
      simp [InForce, hday.1, hday.2, and_comm]
    rw [hcongr, hcount]
    simp only [hday.1, hday.2, true_and]
  · rw [if_neg fun hall => hday ⟨hall.1, hall.2.1⟩]
    refine List.countP_eq_zero.mpr fun row _ hforce => hday ?_
    simp only [InForce, Bool.and_eq_true, decide_eq_true_eq] at hforce
    exact hforce.2.1

theorem countP_flatten_of_groups {α β κ : Type} {R : κ × List α → List β → Prop}
    {groups : List (κ × List α)} {found : List (List β)} (h : List.Forall₂ R groups found)
    {p : β → Bool} {q : α → Bool} (hpq : ∀ g ∈ groups, ∀ bs, R g bs → bs.countP p = g.2.countP q) :
    found.flatten.countP p = (groups.flatMap Prod.snd).countP q := by
  induction h with
  | nil => rfl
  | @cons g bs groups found hg _ ih =>
    rw [flatten_cons, countP_append, flatMap_cons, countP_append,
      hpq g mem_cons_self bs hg, ih fun g hg => hpq g (mem_cons_of_mem _ hg)]

/-- What a line charges, for its share of the interval. -/
def Charges (totalDays : ℤ) (charge : Overlap × AdvancedBillingLine) : Prop :=
  if charge.1.coveredDays = totalDays then charge.2 = verbatimLine charge.1.row
  else charge.2.quantity = 10000 ∧
    charge.2.unitPrice = roundDiv
      (mul charge.1.row.quantity charge.1.row.unitPrice * charge.1.coveredDays) totalDays ∧
    charge.2.incomeAccountId = charge.1.row.incomeAccountId ∧
    charge.2.itemId = charge.1.row.itemId ∧ charge.2.taxCodeId = charge.1.row.taxCodeId

theorem charges_of_lineOf {charge : Overlap × AdvancedBillingLine}
    (hcovered : 0 < charge.1.coveredDays ∧ charge.1.coveredDays ≤ totalDays)
    (h : lineOf totalDays (charge.1.coveredDays = totalDays) charge.1 = .ok charge.2) :
    Charges totalDays charge := by
  rw [Charges]
  rw [lineOf] at h
  split_ifs with hfull
  · rw [if_pos (decide_eq_true hfull)] at h
    exact (Except.ok.inj h).symm
  · rw [if_neg (by simpa using hfull)] at h
    simp only [bind_eq_ok, pure_eq_ok] at h
    obtain ⟨last, -, hline⟩ := h
    rw [← hline]
    refine ⟨rfl, ?_, rfl, rfl, rfl⟩
    rw [prorateDays, if_neg (by omega), min_eq_right hcovered.2, max_eq_right hcovered.1.le]

/-- **The lines of an interval**: every day of it, for every key in force on it, is charged on
one line, and no other day is. -/
theorem arrearsCharges_spec (h : Sound components) (periodStartsOn periodEndsOn : CivilDate) :
    ∃ charges, arrearsCharges periodStartsOn periodEndsOn
        (fetchComponents periodStartsOn periodEndsOn components) = .ok charges ∧
      (∀ key day, charges.countP (fun charge =>
          charge.1.row.componentKey = key && charge.1.Covers day) =
        if periodStartsOn ≤ day ∧ day < periodEndsOn ∧
            components.any (fun row => row.componentKey = key && row.window.Holds day) = true
          then 1 else 0) ∧
      ∀ charge ∈ charges, charge.1.row ∈ components ∧
        charge.1.coveredDays =
          charge.1.windowEndsOn.dayNumber - charge.1.windowStartsOn.dayNumber ∧
        Charges (periodEndsOn.dayNumber - periodStartsOn.dayNumber) charge := by
  rw [arrearsCharges]
  split_ifs with htotal
  · refine ⟨[], rfl, fun key day => ?_, by simp⟩
    rw [if_neg, countP_nil]
    rintro ⟨hle, hlt, -⟩
    have := lt_iff_dayNumber.mp (hle.trans_lt hlt)
    omega
  have hsound := h.fetchComponents periodStartsOn periodEndsOn
  set windows := fetchComponents periodStartsOn periodEndsOn components with hwindows
  have hgroup : ∀ g ∈ groupBy ContractComponent.componentKey windows,
      g.2 = windows.filter (·.componentKey = g.1) := fun g hg => (mem_groupBy.mp hg).2
  have hkeys : ∀ g ∈ groupBy ContractComponent.componentKey windows, ∀ row ∈ g.2,
      row ∈ windows ∧ row.componentKey = g.1 := by
    intro g hg row hrow
    rw [hgroup g hg] at hrow
    exact ⟨(mem_filter.mp hrow).1, of_decide_eq_true (mem_filter.mp hrow).2⟩
  have hspec : ∀ g ∈ groupBy ContractComponent.componentKey windows, _ :=
    fun g hg => chargesOfKey_spec g.2 (Eq.refl (periodEndsOn.dayNumber - periodStartsOn.dayNumber))
      (fun row hrow => hsound.ends row (hkeys g hg row hrow).1) fun day => by
        rw [hgroup g hg, hsound.countP_key]
        split_ifs <;> omega
  obtain ⟨found, hfound⟩ := exists_forall₂ fun g hg => (hspec g hg).imp fun _ h => h.1
  refine ⟨found.flatten, ?_, fun key day => ?_, fun charge hcharge => ?_⟩
  · rw [mapM_eq_ok.mpr hfound, ok_bind]
    rfl
  · rw [← h.countP_inForce, ← countP_fetchComponents, ← hwindows,
      ← (flatMap_groupBy_perm ContractComponent.componentKey windows).countP_eq]
    refine countP_flatten_of_groups hfound fun g hg charges hcharges => ?_
    obtain ⟨charges', hcharges', hcount, hmem⟩ := hspec g hg
    cases hcharges.symm.trans hcharges'
    by_cases hkey : g.1 = key
    · have hleft : charges.countP (fun charge =>
          charge.1.row.componentKey = key && charge.1.Covers day) =
          charges.countP fun charge => charge.1.Covers day := by
        refine countP_congr fun charge hcharge => ?_
        rw [(hkeys g hg _ (hmem charge hcharge).1).2, hkey, decide_eq_true rfl, Bool.true_and]
      have hright : g.2.countP (InForce periodStartsOn periodEndsOn key day) =
          g.2.countP fun row =>
            periodStartsOn ≤ day && day < periodEndsOn && row.window.Holds day := by
        refine countP_congr fun row hrow => ?_
        rw [InForce, (hkeys g hg row hrow).2, hkey, decide_eq_true rfl, Bool.true_and]
      rw [hleft, hright, hcount]
    · have hleft : charges.countP (fun charge =>
          charge.1.row.componentKey = key && charge.1.Covers day) = 0 := by
        refine List.countP_eq_zero.mpr fun charge hcharge => ?_
        rw [(hkeys g hg _ (hmem charge hcharge).1).2, decide_eq_false hkey, Bool.false_and]
        exact Bool.false_ne_true
      have hright : g.2.countP (InForce periodStartsOn periodEndsOn key day) = 0 := by
        refine List.countP_eq_zero.mpr fun row hrow => ?_
        rw [InForce, (hkeys g hg row hrow).2, decide_eq_false hkey, Bool.false_and]
        exact Bool.false_ne_true
      rw [hleft, hright]
  · obtain ⟨charges, hcharges, hmem⟩ := mem_flatten.mp hcharge
    obtain ⟨g, hg, hok⟩ := exists_left_of_forall₂ hfound hcharges
    obtain ⟨charges', hcharges', -, hspec⟩ := hspec g hg
    cases hok.symm.trans hcharges'
    obtain ⟨hrow, hlt, hstart, hend, hdays, hline⟩ := hspec charge hmem
    rw [lt_iff_dayNumber] at hlt
    rw [le_iff_dayNumber] at hstart hend
    refine ⟨mem_of_mem_fetchComponents (hkeys g hg _ hrow).1, hdays, charges_of_lineOf ?_ hline⟩
    omega

/-! ### Contracts over time -/

/-- The advance bill of a period has a key on one line at most. -/
theorem Sound.advanceComponents_nodup (h : Sound components)
    (periodStartsOn periodEndsOn : CivilDate) :
    ((advanceComponents periodStartsOn periodEndsOn components).map (·.componentKey)).Nodup := by
  refine pairwise_map.mpr
    (((h.fetchComponents periodStartsOn periodEndsOn).apart.filter _).imp_of_mem
      fun {a b} ha hb hapart hkey => ?_)
  have hholds : ∀ c ∈ advanceComponents periodStartsOn periodEndsOn components,
      c.window.Holds periodStartsOn = true := by
    intro c hc
    have hopen := (mem_filter.mp hc).2
    rw [Bool.and_eq_true, decide_eq_true_eq] at hopen
    exact holds_window_iff.mpr hopen
  have hfalse := (hapart hkey).not_holds (hholds a ha)
  rw [hholds b hb] at hfalse
  cases hfalse

/-- **Arrears charges every day once.** In every contract that amendments reach, windows have a
day, and those of a key have no day in common. For every service interval the lines are those of
`arrearsCharges`: every day on which a key is in force is one that exactly one line of the key is
for, and no line is for any other. A window that covers the interval is charged as it stands;
any other is charged the interval's amount, to four decimals, times its days over those of the
interval, rounded. An advance bill has a key on one line at most. -/
theorem arrears_charge_each_day_once {refs : CommercialRefs} {contract : Contract}
    (h : Reachable refs contract) :
    (∀ c ∈ contract.components, ∀ last ∈ c.effectiveTo, c.effectiveFrom ≤ last) ∧
    (contract.components.Pairwise fun a b => a.componentKey = b.componentKey →
      ∀ day, ¬(a.window.Holds day = true ∧ b.window.Holds day = true)) ∧
    ∀ periodStartsOn periodEndsOn,
      (∃ charges, arrearsCharges periodStartsOn periodEndsOn
          (fetchComponents periodStartsOn periodEndsOn contract.components) = .ok charges ∧
        arrearsLinesForInterval periodStartsOn periodEndsOn
          (fetchComponents periodStartsOn periodEndsOn contract.components) =
            .ok (charges.map Prod.snd) ∧
        (∀ key day, charges.countP (fun charge =>
            charge.1.row.componentKey = key && charge.1.Covers day) =
          if periodStartsOn ≤ day ∧ day < periodEndsOn ∧
              contract.components.any
                (fun row => row.componentKey = key && row.window.Holds day) = true
            then 1 else 0) ∧
        ∀ charge ∈ charges, charge.1.row ∈ contract.components ∧
          charge.1.coveredDays =
            charge.1.windowEndsOn.dayNumber - charge.1.windowStartsOn.dayNumber ∧
          Charges (periodEndsOn.dayNumber - periodStartsOn.dayNumber) charge) ∧
      ((advanceComponents periodStartsOn periodEndsOn contract.components).map
        (·.componentKey)).Nodup := by
  have hsound := h.sound
  refine ⟨hsound.nonempty, hsound.apart.imp fun hapart hkey day => ?_,
    fun periodStartsOn periodEndsOn => ⟨?_, hsound.advanceComponents_nodup _ _⟩⟩
  · rintro ⟨ha, hb⟩
    rw [(hapart hkey).not_holds ha] at hb
    cases hb
  · obtain ⟨charges, hcharges, hspec⟩ := arrearsCharges_spec hsound periodStartsOn periodEndsOn
    refine ⟨charges, hcharges, ?_, hspec⟩
    rw [arrearsLinesForInterval, hcharges]
    rfl

/-! ### A seat for a third of its price -/

/-- A contract of 2026 that bills a month in arrears. -/
def meteredSubscription : Subscription where
  subscriptionId := "sub"
  planId := "plan"
  startOn := civilDay 2026 1 1
  anchorDay := none
  status := .active
  planInterval := .monthly
  planIntervalCount := 1
  nextBillOn := civilDay 2026 5 1
  currentPeriodStart := none
  lastInvoice := false
  lifecycle := some
    { version :=
        { planId := "plan", published := true, interval := .monthly, intervalCount := 1
          billingTiming := .arrears, effectiveFrom := civilDay 2025 1 1, effectiveTo := none
          currency := "USD", requiredComponents := 1 }
      contractRevision := 1, billingTiming := .arrears, termStartsOn := civilDay 2026 1 1
      termEndsOn := none, trialEndsOn := none, renewalPolicy := .manual
      renewalTermMonths := none, amendments := [], term_chk := by simp, trial_chk := by simp }
  invoices := []
  anchor_day_range := by simp
  period_valid := ⟨by decide +kernel, by simp⟩

/-- A third of a seat at 0.3333. -/
def meteredVersion : VersionComponents where
  rows := [{ componentKey := "seat", name := "Seat", quantity := 3333, unitPrice := 3333 }]
  keys_distinct := List.nodup_singleton _

/-- From 16 April the seat has another price. -/
def repricing : ComponentRequest where
  change := .change { componentKey := some "seat", unitPrice := some 5000 }
  effectiveOn := civilDay 2026 4 16
  idempotencyKey := "reprice"
  details := "0.5000 from 16 April"

/-- The contract with the seat repriced, from the start of its term. -/
def repriced (refs : CommercialRefs) : Except String Contract :=
  Runs.run (step refs)
    (activated meteredSubscription meteredVersion none (civilDay 2026 1 1)) [.amend repricing]

theorem Reachable.of_repriced {refs : CommercialRefs} {contract : Contract}
    (h : repriced refs = .ok contract) : Reachable refs contract :=
  ⟨_, _, _, _, _, .of_run h⟩

/-- April is charged on two lines. -/
theorem arrears_charge_april : ∃ contract, repriced (fun _ _ => none) = .ok contract ∧
    contract.components.length = 2 ∧
    ∃ lines, arrearsLinesForInterval (civilDay 2026 4 1) (civilDay 2026 5 1)
      (fetchComponents (civilDay 2026 4 1) (civilDay 2026 5 1) contract.components) =
        .ok lines := by
  obtain ⟨contract, hcontract, hlength⟩ := exists_of_any (x := repriced fun _ _ => none)
    (p := fun contract => decide (contract.components.length = 2)) (by decide +kernel)
  refine ⟨contract, hcontract, of_decide_eq_true hlength, ?_⟩
  obtain ⟨charges, -, hlines, -⟩ := ((arrears_charge_each_day_once
    (Reachable.of_repriced hcontract)).2.2 (civilDay 2026 4 1) (civilDay 2026 5 1)).1
  exact ⟨_, hlines⟩

/-- Half of April's 0.1111 is 0.0556 on the line; a third of a seat at 0.3333 for half of April
is 0.0555. -/
theorem not_rounded_once :
    ¬∀ (refs : CommercialRefs) (contract : Contract), Reachable refs contract →
      ∀ periodStartsOn periodEndsOn charges,
        arrearsCharges periodStartsOn periodEndsOn
          (fetchComponents periodStartsOn periodEndsOn contract.components) = .ok charges →
        ∀ charge ∈ charges,
          charge.1.coveredDays ≠ periodEndsOn.dayNumber - periodStartsOn.dayNumber →
          charge.2.unitPrice = roundDiv
            (charge.1.row.quantity * charge.1.row.unitPrice * charge.1.coveredDays)
            (SCALE * (periodEndsOn.dayNumber - periodStartsOn.dayNumber)) := by
  intro hclaim
  obtain ⟨contract, hcontract, hbroken⟩ := exists_of_any (x := repriced fun _ _ => none)
    (p := fun contract => (arrearsCharges (civilDay 2026 4 1) (civilDay 2026 5 1)
      (fetchComponents (civilDay 2026 4 1) (civilDay 2026 5 1)
        contract.components)).toOption.any fun charges => charges.any fun charge =>
          decide (charge.1.coveredDays = 15 ∧ charge.1.row.quantity = 3333 ∧
            charge.1.row.unitPrice = 3333 ∧ charge.2.unitPrice = 556)) (by decide +kernel)
  obtain ⟨charges, hcharges, hany⟩ := exists_of_any hbroken
  obtain ⟨charge, hmem, hcharge⟩ := any_eq_true.mp hany
  obtain ⟨hdays, hquantity, hprice, hline⟩ := of_decide_eq_true hcharge
  have htotal : (civilDay 2026 5 1).dayNumber - (civilDay 2026 4 1).dayNumber = 30 := by
    decide +kernel
  have honce := hclaim _ _ (Reachable.of_repriced hcontract) _ _ _ hcharges charge hmem
    (by rw [hdays, htotal]; decide)
  rw [hdays, hquantity, hprice, hline, htotal] at honce
  exact absurd honce (by decide +kernel)

end OpenBooks.ContractComponents
