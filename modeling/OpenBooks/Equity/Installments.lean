import Mathlib.Data.Int.ConditionallyCompleteOrder
import OpenBooks.Equity.Vesting
import OpenBooks.Lib.ListSum
import OpenBooks.Platform.CivilMonths

/-!
# The installments of a vesting schedule

`Equity.vestingInstallments` lists the dates on which the vested quantity of a schedule rises. It
dates each rise by an anniversary of the start; `Equity.scheduledVested` counts the months completed
by a day. The two meet in `Equity.le_completedMonths_iff`: a day has completed a count of months
just when it stands on or after that anniversary, whatever the day of the month. What the walk has
dated by a day is then the quantity vested at the months completed by it (`Equity.Walked.vested`),
and the vested quantity never falls (`Equity.vestedUnits_mono`), so every rise is recorded.
-/

namespace OpenBooks.Equity

open Checked List Option

/-! ### The terms that are accepted -/

inductive VestingError
  | shapesMixed
  | tranchesUnordered
  | trancheEmpty
  | tranchesTotalMismatch (total quantity : ℤ)
  | cliffWithoutTerm
  | monthsOutOfRange
  | cliffOutOfRange
  | frequencyRequired
  | startRequired
  deriving DecidableEq

def VestingError.code : VestingError → String
  | .shapesMixed => "vestingShapesMixed"
  | .tranchesUnordered => "vestingTranchesUnordered"
  | .trancheEmpty => "vestingTrancheEmpty"
  | .tranchesTotalMismatch _ _ => "vestingTranchesTotalMismatch"
  | .cliffWithoutTerm => "vestingCliffWithoutTerm"
  | .monthsOutOfRange => "vestingMonthsOutOfRange"
  | .cliffOutOfRange => "vestingCliffOutOfRange"
  | .frequencyRequired => "vestingFrequencyRequired"
  | .startRequired => "vestingStartRequired"

/-- The field every one of them names. -/
def VestingError.field : VestingError → String := fun _ => "vesting"

/-- One tranche against the date of the one before it, and the total with it. -/
def checkTranche (state : Option CivilDate × ℤ) (tranche : VestingTranche) :
    Except VestingError (Option CivilDate × ℤ) := do
  refuseIf (state.1.any (tranche.date ≤ ·)) .tranchesUnordered
  refuseIf (tranche.quantity ≤ 0) .trancheEmpty
  return (some tranche.date, state.2 + tranche.quantity)

def validateVestingTerms (terms : VestingTerms) : Except VestingError Unit :=
  if 0 < (terms.vestingTranches.getD []).length then do
    refuseIf (terms.vestingMonths.isSome ∨ terms.cliffMonths.isSome ∨
      terms.vestingFrequency.isSome) .shapesMixed
    let (_, total) ← (terms.vestingTranches.getD []).foldlM checkTranche (none, 0)
    refuseIf (total ≠ terms.quantity) (.tranchesTotalMismatch total terms.quantity)
  else match terms.vestingMonths with
    | none => refuseIf (terms.cliffMonths.isSome ∨ terms.vestingFrequency.isSome) .cliffWithoutTerm
    | some months => do
      refuseIf (months < 1 ∨ 600 < months) .monthsOutOfRange
      let cliff := terms.cliffMonths.getD 0
      refuseIf (cliff < 0 ∨ months < cliff) .cliffOutOfRange
      refuseIf terms.vestingFrequency.isNone .frequencyRequired
      refuseIf terms.vestingStart.isNone .startRequired

/-! ### The installments -/

structure VestingInstallment where
  date : CivilDate
  quantity : ℤ
  cumulative : ℤ
  deriving DecidableEq

/-- What a walk stops at: a fraction too long, or a date past the calendar. -/
inductive InstallmentError
  | fraction (e : RationalError)
  | date (e : RangeError)
  deriving DecidableEq

def trancheInstallments : ℤ → List VestingTranche → List VestingInstallment
  | _, [] => []
  | cumulative, tranche :: rest =>
    ⟨tranche.date, tranche.quantity, cumulative + tranche.quantity⟩ ::
      trancheInstallments (cumulative + tranche.quantity) rest

/-- One month of the walk: what had vested before it, and the installments so far. -/
def installmentStep (vestedAfter : ℤ → Except RationalError ℤ) (start : CivilDate)
    (state : ℤ × List VestingInstallment) (month : ℤ) :
    Except InstallmentError (ℤ × List VestingInstallment) := do
  let vested ← (vestedAfter month).mapError .fraction
  if state.1 < vested then
    let date ← (addMonthsClamped start month).mapError .date
    return (vested, state.2 ++ [⟨date, vested - state.1, vested⟩])
  else return state

/-- The months of a term, from the first. -/
def termMonths (total : ℤ) : List ℤ := (List.range total.toNat).map fun (i : ℕ) => (i : ℤ) + 1

def vestingInstallments (terms : VestingTerms) :
    Except InstallmentError (List VestingInstallment) :=
  if 0 < (terms.vestingTranches.getD []).length then
    .ok (trancheInstallments 0 (terms.vestingTranches.getD []))
  else
    let total := terms.vestingMonths.getD 0
    if total ≤ 0 then
      .ok (if 0 < terms.quantity then [⟨terms.issueDate, terms.quantity, terms.quantity⟩] else [])
    else do
      let start := terms.vestingStart.getD terms.issueDate
      let cliff := terms.cliffMonths.getD 0
      let step := VESTING_STEP_MONTHS (terms.vestingFrequency.getD .monthly)
      let (_, out) ← (termMonths total).foldlM
        (installmentStep (fun month => timeBasedVested terms.quantity month cliff total step) start)
        (0, [])
      return out

/-- The units of the installments dated on or before a day. -/
def installedBy (out : List VestingInstallment) (asOf : CivilDate) : ℤ :=
  ((out.filter fun i => i.date ≤ asOf).map VestingInstallment.quantity).sum

/-! ### Completed months -/

/-- **A count of months is completed from its anniversary on.** -/
theorem le_completedMonths_iff {start day target : CivilDate} {n : ℤ} (hn : 1 ≤ n)
    (h : Anniversary start n target) : n ≤ completedMonths start day ↔ target ≤ day := by
  rw [h.le_iff, completedMonths, CivilDate.inMonth, CivilDate.inMonth, monthNumber, monthNumber]
  split_ifs with hbefore hday
  · have hmonth := CivilDate.inMonth_mono hbefore
    rw [CivilDate.inMonth, CivilDate.inMonth, monthNumber, monthNumber] at hmonth
    omega
  · dsimp only
    omega
  · dsimp only
    omega

theorem completedMonths_nonneg (start day : CivilDate) : 0 ≤ completedMonths start day := by
  rw [completedMonths]
  split_ifs
  · exact le_rfl
  · exact le_max_left _ _
  · exact le_max_left _ _

/-! ### What has vested at a count of months -/

/-- The quantity vested at a count of completed months. -/
def vestedUnits (quantity cliff total step months : ℤ) : ℤ :=
  if months < cliff then 0
  else if total ≤ months then quantity
  else quantity * max cliff (months / step * step) / total

section

variable {quantity cliff total step months m n v : ℤ}

theorem timeBasedVested_eq (htotal : 0 < total)
    (h : timeBasedVested quantity months cliff total step = .ok v) :
    v = vestedUnits quantity cliff total step months := by
  rw [timeBasedVested] at h
  rw [vestedUnits]
  split_ifs at h ⊢ with hcliff hend
  · exact (Except.ok.inj h).symm
  · exact (Except.ok.inj h).symm
  · obtain ⟨r, hr, hv⟩ := bind_eq_ok.mp h
    have his := (computes_rational _ htotal.ne').is_of_eq_ok hr
    rw [← pure_eq_ok.mp hv, floorShares_eq his]
    obtain ⟨d, rfl⟩ := Int.eq_ofNat_of_zero_le htotal.le
    exact Rat.floor_intCast_div_natCast _ _

theorem step_pos (frequency : VestingFrequency) : 0 < VESTING_STEP_MONTHS frequency := by
  cases frequency <;> decide

theorem vestedUnits_of_total_le (hcliff : cliff ≤ total) (h : total ≤ months) :
    vestedUnits quantity cliff total step months = quantity := by
  rw [vestedUnits, if_neg (by omega), if_pos h]

theorem vestedUnits_zero (hcliff : 0 ≤ cliff) (htotal : 0 < total) :
    vestedUnits quantity cliff total step 0 = 0 := by
  rw [vestedUnits]
  split_ifs with hbefore hend
  · rfl
  · omega
  · rw [Int.zero_ediv, zero_mul, max_eq_left hcliff, le_antisymm (not_lt.mp hbefore) hcliff, mul_zero,
      Int.zero_ediv]

theorem stepped_mem (hstep : 0 < step) (hmonths : cliff ≤ months) :
    max cliff (months / step * step) ≤ months :=
  max_le hmonths (Int.ediv_mul_le _ hstep.ne')

/-- **The vested quantity never falls.** -/
theorem vestedUnits_mono (hquantity : 0 ≤ quantity) (hcliff : 0 ≤ cliff) (hstep : 0 < step)
    (htotal : 0 < total) (h : m ≤ n) :
    vestedUnits quantity cliff total step m ≤ vestedUnits quantity cliff total step n := by
  have hpos : ∀ k, 0 ≤ quantity * max cliff (k / step * step) / total := fun k =>
    Int.ediv_nonneg (mul_nonneg hquantity (hcliff.trans (le_max_left _ _))) htotal.le
  rw [vestedUnits, vestedUnits]
  split_ifs with hm hn hn' hm' hn hn' hn hn'
  · exact le_rfl
  · exact hquantity
  · exact hpos n
  · omega
  · exact le_rfl
  · omega
  · omega
  · refine Int.ediv_le_of_le_mul htotal (mul_le_mul_of_nonneg_left ?_ hquantity)
    exact (stepped_mem hstep (not_lt.mp hm)).trans (not_le.mp hm').le
  · refine Int.ediv_le_ediv htotal (mul_le_mul_of_nonneg_left ?_ hquantity)
    exact max_le_max le_rfl (mul_le_mul_of_nonneg_right (Int.ediv_le_ediv hstep h) hstep.le)

end

/-! ### The walk over the months -/

/-- After so many months: `V` is what has vested at a count of months. -/
structure Walked (vestedAfter : ℤ → Except RationalError ℤ) (V : ℤ → ℤ) (start : CivilDate)
    (k : ℤ) (state : ℤ × List VestingInstallment) : Prop where
  previous : state.1 = V k
  total : (state.2.map VestingInstallment.quantity).sum = V k
  computed : ∀ m, 1 ≤ m → m ≤ k → vestedAfter m = .ok (V m)
  ordered : state.2.Pairwise fun a b => a.date < b.date
  dated : ∀ i ∈ state.2, 0 < i.quantity ∧
    ∃ m, 1 ≤ m ∧ m ≤ k ∧ 0 < V m ∧ Anniversary start m i.date
  vested : ∀ day, installedBy state.2 day = V (min k (completedMonths start day))

variable {total : ℤ}

section

variable {vestedAfter : ℤ → Except RationalError ℤ} {V : ℤ → ℤ} {start : CivilDate} {k : ℤ}
  {state state' : ℤ × List VestingInstallment}

theorem installedBy_append (out out' : List VestingInstallment) (day : CivilDate) :
    installedBy (out ++ out') day = installedBy out day + installedBy out' day := by
  rw [installedBy, filter_append, map_append, sum_append]
  rfl

theorem walked_zero (hzero : V 0 = 0) : Walked vestedAfter V start 0 (0, []) where
  previous := hzero.symm
  total := hzero.symm
  computed m hm hm' := absurd hm' (by omega)
  ordered := List.Pairwise.nil
  dated i hi := by cases hi
  vested day := by
    rw [min_eq_left (completedMonths_nonneg start day), hzero]
    rfl

theorem Walked.step (hmono : Monotone V) (hzero : V 0 = 0) (hk : 0 ≤ k)
    (hV : ∀ m v, vestedAfter m = .ok v → v = V m) (h : Walked vestedAfter V start k state)
    (hstep : installmentStep vestedAfter start state (k + 1) = .ok state') :
    Walked vestedAfter V start (k + 1) state' := by
  rw [installmentStep, bind_eq_ok] at hstep
  obtain ⟨v, hv, hstep⟩ := hstep
  have hv' := mapError_eq_ok.mp hv
  obtain rfl := hV _ _ hv'
  have hcomputed : ∀ m, 1 ≤ m → m ≤ k + 1 → vestedAfter m = .ok (V m) := by
    intro m hm hm'
    rcases hm'.lt_or_eq with hlt | rfl
    · exact h.computed m hm (by omega)
    · exact hv'
  have hdated : ∀ i ∈ state.2, 0 < i.quantity ∧
      ∃ m, 1 ≤ m ∧ m ≤ k + 1 ∧ 0 < V m ∧ Anniversary start m i.date := by
    intro i hi
    obtain ⟨hpos, m, hm, hmk, hrest⟩ := h.dated i hi
    exact ⟨hpos, m, hm, by omega, hrest⟩
  split_ifs at hstep with hrise
  · rw [bind_eq_ok] at hstep
    obtain ⟨date, hdate, hstep⟩ := hstep
    obtain rfl := pure_eq_ok.mp hstep
    have hanniversary := addMonthsClamped_spec (mapError_eq_ok.mp hdate)
    rw [h.previous] at hrise
    have hpos : 0 < V (k + 1) := (hzero ▸ hmono hk : (0 : ℤ) ≤ V k).trans_lt hrise
    refine ⟨rfl, by simp [h.total, h.previous], hcomputed, ?_, ?_, fun day => ?_⟩
    · refine pairwise_append.mpr ⟨h.ordered, pairwise_singleton _ _, fun i hi j hj => ?_⟩
      obtain rfl := mem_singleton.mp hj
      obtain ⟨-, m, -, hm, -, hi⟩ := h.dated i hi
      exact hi.lt_of_lt hanniversary (by omega)
    · intro i hi
      rcases mem_append.mp hi with hi | hi
      · exact hdated i hi
      · obtain rfl := mem_singleton.mp hi
        exact ⟨by simpa [h.previous] using hrise, k + 1, by omega, le_rfl, hpos, hanniversary⟩
    · -- The new installment counts just when its month has been completed.
      have hiff : k + 1 ≤ completedMonths start day ↔ date ≤ day :=
        le_completedMonths_iff (by omega) hanniversary
      rw [installedBy_append, h.vested, h.previous]
      by_cases hcount : date ≤ day
      · have hdone := hiff.mpr hcount
        rw [min_eq_left (by omega), min_eq_left hdone]
        simp [installedBy, hcount]
      · have hnot : ¬k + 1 ≤ completedMonths start day := fun hle => hcount (hiff.mp hle)
        rw [min_eq_right (by omega), min_eq_right (by omega)]
        simp [installedBy, hcount]
  · obtain rfl := pure_eq_ok.mp hstep
    rw [h.previous] at hrise
    have hsame : V k = V (k + 1) := le_antisymm (hmono (by omega)) (not_lt.mp hrise)
    refine ⟨h.previous.trans hsame, h.total.trans hsame, hcomputed, h.ordered, hdated, fun day => ?_⟩
    rw [h.vested]
    rcases le_or_gt (completedMonths start day) k with hle | hgt
    · rw [min_eq_right hle, min_eq_right (by omega)]
    · rw [min_eq_left hgt.le, min_eq_left (by omega), hsame]

theorem exists_installmentStep {month v : ℤ} {date : CivilDate}
    (state : ℤ × List VestingInstallment) (hv : vestedAfter month = .ok v)
    (hdate : addMonthsClamped start month = .ok date) :
    ∃ state', installmentStep vestedAfter start state month = .ok state' := by
  rw [installmentStep, hv, hdate]
  simp only [mapError_ok, ok_bind]
  split_ifs
  · exact ⟨_, rfl⟩
  · exact ⟨_, rfl⟩

theorem termMonths_split {done rest : List ℤ} {month : ℤ}
    (h : termMonths total = done ++ month :: rest) : month = done.length + 1 := by
  have hget : (termMonths total)[done.length]? = some month := by
    rw [h, getElem?_append_right le_rfl, Nat.sub_self, getElem?_cons_zero]
  rw [termMonths, getElem?_map, map_eq_some_iff] at hget
  obtain ⟨i, hi, rfl⟩ := hget
  obtain ⟨hlt, rfl⟩ := List.getElem?_eq_some_iff.mp hi
  rw [getElem_range]

/-- **The walk, to the end of the term.** -/
theorem walked_of_foldlM (htotal : 0 ≤ total) (hmono : Monotone V) (hzero : V 0 = 0)
    (hV : ∀ m v, vestedAfter m = .ok v → v = V m)
    (h : (termMonths total).foldlM (installmentStep vestedAfter start) (0, []) = .ok state) :
    Walked vestedAfter V start total state := by
  have hlength : ((termMonths total).length : ℤ) = total := by
    rw [termMonths, length_map, length_range, Int.toNat_of_nonneg htotal]
  rw [← hlength]
  refine foldlM_invariant (fun done state => Walked vestedAfter V start done.length state) h
    (walked_zero hzero) fun done month rest s s' hsplit hdone hstep => ?_
  obtain rfl := termMonths_split hsplit
  rw [length_append, length_singleton, Nat.cast_add, Nat.cast_one]
  exact hdone.step hmono hzero (Nat.cast_nonneg _) hV hstep

end

/-! ### Dated tranches -/

variable (cumulative : ℤ)

theorem dates_trancheInstallments (tranches : List VestingTranche) :
    (trancheInstallments cumulative tranches).map VestingInstallment.date =
      tranches.map VestingTranche.date := by
  induction tranches generalizing cumulative with
  | nil => rfl
  | cons t rest ih => simp only [trancheInstallments, map_cons, ih]

theorem quantities_trancheInstallments (tranches : List VestingTranche) :
    (trancheInstallments cumulative tranches).map VestingInstallment.quantity =
      tranches.map VestingTranche.quantity := by
  induction tranches generalizing cumulative with
  | nil => rfl
  | cons t rest ih => simp only [trancheInstallments, map_cons, ih]

/-- What the check of the tranches has seen: dates in order, quantities that are not empty, and
the total of them. -/
structure TranchesInOrder (done : List VestingTranche) (state : Option CivilDate × ℤ) : Prop where
  total : state.2 = (done.map VestingTranche.quantity).sum
  ordered : done.Pairwise fun a b => a.date < b.date
  positive : ∀ t ∈ done, 0 < t.quantity
  last : ∀ t ∈ done, ∃ date, state.1 = some date ∧ t.date ≤ date

theorem tranchesInOrder_of_foldlM {tranches : List VestingTranche} {state : Option CivilDate × ℤ}
    (h : tranches.foldlM checkTranche (none, 0) = .ok state) : TranchesInOrder tranches state := by
  refine foldlM_invariant TranchesInOrder h ⟨rfl, List.Pairwise.nil, by simp, by simp⟩ ?_
  rintro done t rest ⟨previous, total⟩ s' - hdone hstep
  simp only [checkTranche, bind_eq_ok, refuseIf_eq_ok, pure_eq_ok] at hstep
  obtain ⟨-, hlater, -, hpos, rfl⟩ := hstep
  have hlast : ∀ a ∈ done, a.date < t.date := by
    intro a ha
    obtain ⟨date, hdate, hle⟩ := hdone.last a ha
    obtain rfl : previous = some date := hdate
    simp only [any_some, decide_eq_true_eq, not_le] at hlater
    exact hle.trans_lt hlater
  constructor
  · simpa using hdone.total
  · refine pairwise_append.mpr ⟨hdone.ordered, pairwise_singleton _ _, ?_⟩
    simpa using hlast
  · simpa [or_imp, forall_and] using ⟨hdone.positive, not_le.mp hpos⟩
  · intro a ha
    rcases mem_append.mp ha with ha | ha
    · exact ⟨_, rfl, (hlast a ha).le⟩
    · exact ⟨_, rfl, (mem_singleton.mp ha ▸ le_rfl)⟩

theorem installedBy_trancheInstallments (tranches : List VestingTranche) (day : CivilDate) :
    installedBy (trancheInstallments cumulative tranches) day =
      ((tranches.filter fun t => t.date ≤ day).map VestingTranche.quantity).sum := by
  induction tranches generalizing cumulative with
  | nil => rfl
  | cons t rest ih =>
    have hcons := installedBy_append
      [⟨t.date, t.quantity, cumulative + t.quantity⟩]
      (trancheInstallments (cumulative + t.quantity) rest) day
    rw [singleton_append] at hcons
    rw [trancheInstallments, hcons, ih]
    by_cases hday : t.date ≤ day <;> simp [installedBy, hday]

/-! ### The two agree -/

structure Agrees (terms : VestingTerms) (out : List VestingInstallment) : Prop where
  scheduled : ∀ asOf, terms.issueDate ≤ asOf →
    scheduledVested terms asOf = .ok (installedBy out asOf)
  ordered : out.Pairwise fun a b => a.date < b.date
  positive : ∀ i ∈ out, 0 < i.quantity
  total : (out.map VestingInstallment.quantity).sum = terms.quantity
  cliff : terms.vestingMonths.isSome → ∀ cliffDate,
    addMonthsClamped (terms.vestingStart.getD terms.issueDate) (terms.cliffMonths.getD 0) =
      .ok cliffDate →
    (∀ i ∈ out, cliffDate ≤ i.date) ∧ ∀ asOf < cliffDate, scheduledVested terms asOf = .ok 0

variable {terms : VestingTerms} {out : List VestingInstallment}

theorem sum_filter_le {α : Type} (p : α → Bool) (f : α → ℤ) {xs : List α}
    (h : ∀ x ∈ xs, 0 ≤ f x) : ((xs.filter p).map f).sum ≤ (xs.map f).sum := by
  rw [← ListSum.sum_filter_add_sum_filter_not p f xs, le_add_iff_nonneg_right]
  refine List.sum_nonneg fun y hy => ?_
  obtain ⟨x, hx, rfl⟩ := mem_map.mp hy
  exact h x (mem_of_mem_filter hx)

theorem agrees_of_tranches (htranches : 0 < (terms.vestingTranches.getD []).length)
    (hvalid : validateVestingTerms terms = .ok ()) :
    Agrees terms (trancheInstallments 0 (terms.vestingTranches.getD [])) := by
  rw [validateVestingTerms, if_pos htranches] at hvalid
  simp only [bind_eq_ok, refuseIf_eq_ok] at hvalid
  obtain ⟨-, hshapes, ⟨last, total⟩, hcheck, htotal⟩ := hvalid
  have hchecked := tranchesInOrder_of_foldlM hcheck
  have hsum : ((terms.vestingTranches.getD []).map VestingTranche.quantity).sum =
      terms.quantity := hchecked.total.symm.trans (not_not.mp htotal)
  constructor
  · intro asOf hasOf
    have hle := sum_filter_le (fun t : VestingTranche => decide (t.date ≤ asOf))
      VestingTranche.quantity fun t ht => (hchecked.positive t ht).le
    rw [scheduledVested, if_neg (not_lt.mpr hasOf), if_pos htranches,
      installedBy_trancheInstallments]
    simp only [Except.ok.injEq]
    split_ifs with hlt
    · rfl
    · exact le_antisymm (not_lt.mp hlt) (hsum ▸ hle)
  · rw [← pairwise_map (f := VestingInstallment.date) (R := (· < ·)),
      dates_trancheInstallments, pairwise_map]
    exact hchecked.ordered
  · intro i hi
    have hmem := mem_map_of_mem (f := VestingInstallment.quantity) hi
    rw [quantities_trancheInstallments] at hmem
    obtain ⟨t, ht, heq⟩ := mem_map.mp hmem
    exact heq ▸ hchecked.positive t ht
  · rw [quantities_trancheInstallments, hsum]
  · intro hmonths
    exact absurd (Or.inl hmonths) hshapes

/-! #### Terms in months -/

/-- A fraction short enough is made. -/
theorem exists_rational {n d : ℤ} (hn : 0 ≤ n ∧ n < 10 ^ 256) (hd : 0 < d ∧ d < 10 ^ 256) :
    ∃ r, rational n d = .ok r := by
  rw [rational_eq, if_neg hd.1.ne']
  simp only [if_neg (not_lt.mpr hd.1.le)]
  rw [if_neg (by omega)]
  exact ⟨_, rfl⟩

variable {months : ℤ}

theorem exists_timeBasedVested {quantity cliff step : ℤ} (hquantity : 0 ≤ quantity)
    (hcliff : 0 ≤ cliff) (hstep : 0 < step) (htotal : 0 < total ∧ total ≤ 600)
    (hfits : quantity * min months total < 10 ^ 256) :
    ∃ v, timeBasedVested quantity months cliff total step = .ok v := by
  rw [timeBasedVested]
  split_ifs with hbefore hend
  · exact ⟨_, rfl⟩
  · exact ⟨_, rfl⟩
  · have hstepped := stepped_mem hstep (not_lt.mp hbefore)
    have hn : quantity * max cliff (months / step * step) < 10 ^ 256 := by
      rw [min_eq_left (not_le.mp hend).le] at hfits
      exact (mul_le_mul_of_nonneg_left hstepped hquantity).trans_lt hfits
    obtain ⟨r, hr⟩ := exists_rational
      ⟨mul_nonneg hquantity (hcliff.trans (le_max_left _ _)), hn⟩
      ⟨htotal.1, htotal.2.trans_lt (by norm_num)⟩
    exact ⟨_, bind_eq_ok.mpr ⟨r, hr, rfl⟩⟩

/-- The terms of a schedule in months that is accepted. -/
structure Monthly (terms : VestingTerms) (months : ℤ) : Prop where
  untranched : ¬0 < (terms.vestingTranches.getD []).length
  term : terms.vestingMonths = some months
  range : 1 ≤ months ∧ months ≤ 600
  cliff : 0 ≤ terms.cliffMonths.getD 0 ∧ terms.cliffMonths.getD 0 ≤ months

theorem monthly_of_validate (htranches : ¬0 < (terms.vestingTranches.getD []).length)
    (hterm : terms.vestingMonths = some months) (hvalid : validateVestingTerms terms = .ok ()) :
    Monthly terms months := by
  rw [validateVestingTerms, if_neg htranches, hterm] at hvalid
  simp only [bind_eq_ok, refuseIf_eq_ok] at hvalid
  obtain ⟨-, hmonths, -, hcliff, -⟩ := hvalid
  exact ⟨htranches, hterm, by omega, by omega⟩

/-- What the terms have vested at a count of completed months. -/
def VestingTerms.vestedAfter (terms : VestingTerms) (months : ℤ) : ℤ :=
  vestedUnits terms.quantity (terms.cliffMonths.getD 0) (terms.vestingMonths.getD 0)
    (VESTING_STEP_MONTHS (terms.vestingFrequency.getD .monthly)) months

theorem Monthly.walked (h : Monthly terms months) (hquantity : 0 ≤ terms.quantity)
    (hout : vestingInstallments terms = .ok out) :
    ∃ previous, Walked (fun month => timeBasedVested terms.quantity month
      (terms.cliffMonths.getD 0) months
      (VESTING_STEP_MONTHS (terms.vestingFrequency.getD .monthly))) terms.vestedAfter
      (terms.vestingStart.getD terms.issueDate) months (previous, out) := by
  have hrange := h.range
  rw [vestingInstallments, if_neg h.untranched] at hout
  simp only [h.term, getD_some] at hout
  rw [if_neg (by omega), bind_eq_ok] at hout
  obtain ⟨⟨previous, out'⟩, hrun, hout⟩ := hout
  obtain rfl := pure_eq_ok.mp hout
  refine ⟨previous, walked_of_foldlM (by omega) ?_ ?_ ?_ hrun⟩
  · intro m n hmn
    exact vestedUnits_mono hquantity h.cliff.1 (step_pos _) (by simp [h.term]; omega) hmn
  · exact vestedUnits_zero h.cliff.1 (by simp [h.term]; omega)
  · intro m v hv
    rw [VestingTerms.vestedAfter, h.term, getD_some]
    exact timeBasedVested_eq (by omega) hv

theorem Monthly.scheduledVested {months : ℤ} (h : Monthly terms months) {asOf : CivilDate}
    (hasOf : terms.issueDate ≤ asOf) : scheduledVested terms asOf =
      timeBasedVested terms.quantity
        (completedMonths (terms.vestingStart.getD terms.issueDate) asOf)
        (terms.cliffMonths.getD 0) months
        (VESTING_STEP_MONTHS (terms.vestingFrequency.getD .monthly)) := by
  have hrange := h.range
  rw [Equity.scheduledVested, if_neg (not_lt.mpr hasOf), if_neg h.untranched]
  simp only [h.term, getD_some]
  rw [if_neg (by omega)]

theorem Monthly.timeBasedVested_eq_zero {count : ℤ} (h : Monthly terms months)
    (hcount : count < terms.cliffMonths.getD 0 ∨ count = 0) :
    timeBasedVested terms.quantity count (terms.cliffMonths.getD 0) months
      (VESTING_STEP_MONTHS (terms.vestingFrequency.getD .monthly)) = .ok 0 := by
  have hrange := h.range
  by_cases hbefore : count < terms.cliffMonths.getD 0
  · rw [timeBasedVested, if_pos hbefore]
  · obtain rfl := hcount.resolve_left hbefore
    have hcliff : terms.cliffMonths.getD 0 = 0 := le_antisymm (not_lt.mp hbefore) h.cliff.1
    obtain ⟨r, hr⟩ := exists_rational (n := 0) (d := months) ⟨le_rfl, by norm_num⟩
      ⟨by omega, by omega⟩
    have hzero : timeBasedVested terms.quantity 0 (terms.cliffMonths.getD 0) months
        (VESTING_STEP_MONTHS (terms.vestingFrequency.getD .monthly)) = .ok (floorShares r) := by
      rw [timeBasedVested, if_neg hbefore, if_neg (by omega)]
      simp only [hcliff, Int.zero_ediv, zero_mul, max_self, mul_zero, hr]
      rfl
    rw [hzero, timeBasedVested_eq (by omega) hzero, vestedUnits_zero h.cliff.1 (by omega)]

theorem agrees_of_monthly (h : Monthly terms months) (hquantity : 0 ≤ terms.quantity)
    (hout : vestingInstallments terms = .ok out) : Agrees terms out := by
  obtain ⟨previous, hwalked⟩ := h.walked hquantity hout
  have hrange := h.range
  have hfull : ∀ count, months ≤ count → terms.vestedAfter count = terms.quantity := fun count hc =>
    vestedUnits_of_total_le (by rw [h.term]; exact h.cliff.2) (by rwa [h.term])
  constructor
  · intro asOf hasOf
    have hvested := hwalked.vested asOf
    have hcount := completedMonths_nonneg (terms.vestingStart.getD terms.issueDate) asOf
    rw [h.scheduledVested hasOf, hvested]
    rcases lt_or_ge (completedMonths (terms.vestingStart.getD terms.issueDate) asOf) months with
      hlt | hge
    · rw [min_eq_right hlt.le]
      rcases hcount.lt_or_eq with hpos | hzero
      · exact hwalked.computed _ hpos hlt.le
      · rw [← hzero, h.timeBasedVested_eq_zero (Or.inr rfl)]
        exact congrArg Except.ok (vestedUnits_zero h.cliff.1 (by rw [h.term]; exact hrange.1)).symm
    · rw [min_eq_left hge, hfull months le_rfl, timeBasedVested, if_neg (by have := h.cliff; omega),
        if_pos hge]
  · exact hwalked.ordered
  · exact fun i hi => (hwalked.dated i hi).1
  · exact hwalked.total.trans (hfull months le_rfl)
  · rintro - cliffDate hcliffDate
    have hcliff := addMonthsClamped_spec hcliffDate
    constructor
    · intro i hi
      obtain ⟨-, m, hm, -, hpos, hdate⟩ := hwalked.dated i hi
      have hle : terms.cliffMonths.getD 0 ≤ m := by
        by_contra hlt
        rw [VestingTerms.vestedAfter, vestedUnits, if_pos (not_le.mp hlt)] at hpos
        exact lt_irrefl _ hpos
      exact hcliff.le_of_le hdate hle
    · intro asOf hasOf
      rcases lt_or_ge asOf terms.issueDate with hbefore | hafter
      · rw [Equity.scheduledVested, if_pos hbefore]
      rw [h.scheduledVested hafter, h.timeBasedVested_eq_zero]
      rcases h.cliff.1.lt_or_eq with hpos | hzero
      · exact Or.inl (not_le.mp fun hle =>
          absurd ((le_completedMonths_iff hpos hcliff).mp hle) (not_le.mpr hasOf))
      · rw [← hzero, addMonthsClamped_zero, Except.ok.injEq] at hcliffDate
        rw [completedMonths, if_pos (hcliffDate ▸ hasOf.le)]
        exact Or.inr rfl

theorem agrees_of_unscheduled (htranches : ¬0 < (terms.vestingTranches.getD []).length)
    (hterm : terms.vestingMonths = none) (hquantity : 0 ≤ terms.quantity)
    (hout : vestingInstallments terms = .ok out) : Agrees terms out := by
  rw [vestingInstallments, if_neg htranches] at hout
  simp only [hterm, getD_none, le_refl, if_true, Except.ok.injEq] at hout
  have hscheduled : ∀ asOf, terms.issueDate ≤ asOf →
      scheduledVested terms asOf = .ok terms.quantity := by
    intro asOf hasOf
    rw [scheduledVested, if_neg (not_lt.mpr hasOf), if_neg htranches]
    simp only [hterm, getD_none, le_refl, if_true]
  split_ifs at hout with hpos
  · subst hout
    exact ⟨fun asOf hasOf => by simp [hscheduled asOf hasOf, installedBy, hasOf],
      pairwise_singleton _ _, by simpa using hpos, by simp, by simp [hterm]⟩
  · subst hout
    have hzero : terms.quantity = 0 := le_antisymm (not_lt.mp hpos) hquantity
    exact ⟨fun asOf hasOf => by simp [hscheduled asOf hasOf, installedBy, hzero],
      List.Pairwise.nil, by simp, hzero.symm, by simp [hterm]⟩

/-- The walk ends when its fractions are short enough and its last date is in the calendar. -/
theorem exists_vestingInstallments (hvalid : validateVestingTerms terms = .ok ())
    (hquantity : 0 ≤ terms.quantity)
    (hfits : terms.quantity * terms.vestingMonths.getD 0 < 10 ^ 256)
    (hlast : (addMonthsClamped (terms.vestingStart.getD terms.issueDate)
      (terms.vestingMonths.getD 0)).isOk) : ∃ out, vestingInstallments terms = .ok out := by
  rw [vestingInstallments]
  by_cases htranches : 0 < (terms.vestingTranches.getD []).length
  · exact ⟨_, if_pos htranches⟩
  rw [if_neg htranches]
  rcases hterm : terms.vestingMonths with _ | months
  · exact ⟨_, if_pos le_rfl⟩
  have hmonthly := monthly_of_validate htranches hterm hvalid
  have hrange := hmonthly.range
  rw [hterm, getD_some] at hfits hlast
  obtain ⟨last, hlast⟩ := exists_of_isOk hlast
  simp only [getD_some]
  rw [if_neg (by omega)]
  -- The walk keeps nothing here; each of its steps returns.
  suffices hrun : ∃ state, (termMonths months).foldlM (installmentStep (fun month =>
      timeBasedVested terms.quantity month (terms.cliffMonths.getD 0) months
        (VESTING_STEP_MONTHS (terms.vestingFrequency.getD .monthly)))
      (terms.vestingStart.getD terms.issueDate)) (0, []) = .ok state ∧ True by
    obtain ⟨state, hrun, -⟩ := hrun
    exact ⟨_, bind_eq_ok.mpr ⟨state, hrun, rfl⟩⟩
  refine exists_foldlM (fun _ _ => True) trivial fun done month rest s hsplit _ => ?_
  have hmonth := termMonths_split hsplit
  have hle : month ≤ months := by
    have hlength := congrArg List.length hsplit
    rw [termMonths, length_map, length_range, length_append, length_cons] at hlength
    omega
  obtain ⟨v, hv⟩ := exists_timeBasedVested hquantity hmonthly.cliff.1
    (step_pos (terms.vestingFrequency.getD .monthly)) ⟨by omega, hrange.2⟩
    ((mul_le_mul_of_nonneg_left (min_le_right month months) hquantity).trans_lt hfits)
  obtain ⟨date, hdate⟩ := exists_addMonthsClamped_of_le hlast (by omega : 0 ≤ month) hle
  exact Exists.imp (fun _ hs => ⟨hs, trivial⟩) (exists_installmentStep s hv hdate)

/-- **The vested balance and the installments agree**, for accepted terms of a quantity that is
not negative; the installments are found while the fractions are short enough and the last date is
in the calendar; and months are completed from their anniversaries on. -/
theorem installments_agree :
    (∀ terms, validateVestingTerms terms = .ok () → 0 ≤ terms.quantity →
      (terms.quantity * terms.vestingMonths.getD 0 < 10 ^ 256 →
        (addMonthsClamped (terms.vestingStart.getD terms.issueDate)
          (terms.vestingMonths.getD 0)).isOk → ∃ out, vestingInstallments terms = .ok out) ∧
      ∀ out, vestingInstallments terms = .ok out → Agrees terms out) ∧
    ∀ start day target n, 1 ≤ n → addMonthsClamped start n = .ok target →
      (n ≤ completedMonths start day ↔ target ≤ day) := by
  constructor
  · intro terms hvalid hquantity
    refine ⟨exists_vestingInstallments hvalid hquantity, fun out hout => ?_⟩
    by_cases htranches : 0 < (terms.vestingTranches.getD []).length
    · rw [vestingInstallments, if_pos htranches, Except.ok.injEq] at hout
      exact hout ▸ agrees_of_tranches htranches hvalid
    rcases hterm : terms.vestingMonths with _ | months
    · exact agrees_of_unscheduled htranches hterm hquantity hout
    · exact agrees_of_monthly (monthly_of_validate htranches hterm hvalid) hquantity hout
  · intro start day target n hn htarget
    exact le_completedMonths_iff hn (addMonthsClamped_spec htarget)

def yearTerms : VestingTerms :=
  ⟨civilDay 2024 1 31, 1000, some (civilDay 2024 1 31), some 12, some 5, some .quarterly, none⟩

theorem installments_agree_yearTerms :
    ∃ out, vestingInstallments yearTerms = .ok out ∧ Agrees yearTerms out := by
  obtain ⟨hfound, hagrees⟩ := installments_agree.1 yearTerms (by decide) (by decide)
  obtain ⟨out, hout⟩ := hfound (by decide) (by decide)
  exact ⟨out, hout, hagrees out hout⟩

/-- Terms whose quantity is negative. -/
def shortTerms : VestingTerms := ⟨civilDay 2024 1 31, -1, none, none, none, none, none⟩

theorem installments_miss_shortTerms :
    validateVestingTerms shortTerms = .ok () ∧ vestingInstallments shortTerms = .ok [] ∧
      scheduledVested shortTerms shortTerms.issueDate = .ok (-1) ∧
      installedBy [] shortTerms.issueDate = 0 := by
  decide

end OpenBooks.Equity
