import OpenBooks.Revenue.RecognitionSchedule
import OpenBooks.Ledger.Contracts

/-!
# Contract modifications

`measureRevenueModificationGroup` measures one group of a modified contract: the
obligations it had, the promises it has now, and the change in consideration. Under every
treatment what is left to allocate, the pool, goes to the promises by their standalone selling
prices; the treatments differ in what is counted into the pool and in who keeps the revenue that
was recognized before.

The result conserves consideration (`measureRevenueModificationGroup_conserves`): the
promises and the retired obligations carry the prior price, plus the change, less the credits. An
obligation is retained when a promise names its identifier, and the empty text names nothing. A
catch-up group whose one obligation has the empty identifier is accepted all the same, and then
its revenue is counted twice.
-/

namespace OpenBooks

open Checked List

/-! ### Relative selling prices -/

/-- An obligation as the allocation of a price sees it, the price being per unit. -/
structure PricedObligation where
  ssp : Option ℤ := none
  booked : Option ℤ := none
  quantity : Option ℤ := none

/-- One, in the eight decimal places of a quantity. -/
def QUANTITY_ONE : ℤ := 100000000

def recognitionQuantityUnits (quantity : ℤ) : Except RecognitionError ℤ :=
  if quantity < 0 ∨ 10 ^ 28 ≤ quantity then
    .error (.recognition "Revenue quantity must be a non-negative exact numeric(28,8) decimal")
  else .ok quantity

/-- The weight of an obligation: its extended selling price, unrounded, or what was booked. -/
def sspWeight (o : PricedObligation) : Except RecognitionError ℤ := do
  let weight ← match o.ssp with
    | some ssp => do
      refuseIf (ssp < 0) (.recognition "Revenue allocation requires non-negative selling prices")
      let quantity ← recognitionQuantityUnits (o.quantity.getD QUANTITY_ONE)
      return ssp * quantity
    | none => pure (o.booked.getD 0 * QUANTITY_ONE)
  refuseIf (weight < 0)
    (.recognition "Revenue allocation requires non-negative selling prices and weights")
  return weight

/-- The price `total` over the obligations, in proportion to their weights. -/
def allocateByRelativeSSP (total : ℤ) (obligations : List PricedObligation) :
    Except RecognitionError (List ℤ) := do
  let weights ← obligations.mapM sspWeight
  refuseIf (total ≠ 0 ∧ ∀ weight ∈ weights, weight = 0) (.recognition
    "Revenue allocation requires a positive selling price weight for a nonzero total")
  (apportion total weights .largestRemainder).mapError .money

theorem sum_allocateByRelativeSSP {total : ℤ} {obligations : List PricedObligation}
    {amounts : List ℤ} (h : allocateByRelativeSSP total obligations = .ok amounts) :
    amounts.length = obligations.length ∧ amounts.sum = total := by
  simp only [allocateByRelativeSSP, bind_eq_ok, mapM_eq_ok, mapError_eq_ok] at h
  obtain ⟨weights, hweights, _, -, h⟩ := h
  have hshares := shares_of_apportion h
  exact ⟨hshares.length.trans hweights.length_eq.symm, hshares.sum⟩

/-! ### The group -/

inductive RevenueModificationTreatment
  | separate
  | prospective
  | catchUp
  deriving DecidableEq

/-- An obligation of the contract before it was modified. -/
structure ExistingObligation where
  id : String
  allocated : ℤ
  recognized : ℤ
  netCredits : ℤ

structure ModificationPromise where
  existingId : Option String := none
  ssp : ℤ
  percentComplete : ℤ

structure ModificationGroup where
  treatment : RevenueModificationTreatment
  considerationChange : ℤ
  existing : List ExistingObligation
  promises : List ModificationPromise
  remainingDistinct : Bool
  additionsAtStandalonePrice : Bool

structure MeasuredPromise where
  allocated : ℤ
  priorRecognized : ℤ
  targetRecognized : ℤ
  catchUp : ℤ
  remaining : ℤ

structure RetiredObligation where
  id : String
  allocated : ℤ

structure MeasuredGroup where
  priorPrice : ℤ
  priorRecognized : ℤ
  netCredits : ℤ
  considerationChange : ℤ
  pool : ℤ
  promises : List MeasuredPromise
  retired : List RetiredObligation
  newTotal : ℤ

/-- A refusal of the measurement, or of the allocation it rests on. -/
inductive ModificationError
  | modification (message : String)
  | recognition (e : RecognitionError)

def ModificationPromise.retains (promise : ModificationPromise) : Option String :=
  truthy promise.existingId

def recognizedOf (existing : List ExistingObligation) (id : String) : ℤ :=
  ((existing.find? fun row => row.id = id).map (·.recognized)).getD 0

def modificationMoney (value : ℤ) (label : String) : Except ModificationError ℤ :=
  if 10 ^ 19 ≤ |value| then
    .error (.modification (label ++ " must be an exact numeric(19,4) decimal"))
  else .ok value

/-- One promise is checked, and the obligation it retains joins those seen. -/
def retainPromise (ids seen : List String) (promise : ModificationPromise) :
    Except ModificationError (List String) := do
  let _ ← modificationMoney promise.ssp "Standalone selling price"
  let progress ← modificationMoney promise.percentComplete "Progress"
  refuseIf (progress < 0 ∨ MAX_RECOGNITION_INITIAL_PERCENT < progress)
    (.modification "progress must be between 0 and 100 percent")
  match promise.retains with
  | none => return seen
  | some id => do
    refuseIf (id ∉ ids ∨ id ∈ seen)
      (.modification "each retained obligation must belong to this group and appear once")
    return id :: seen

/-- What each treatment asks of the group. -/
def checkTreatment (group : ModificationGroup) (delta : ℤ) : Except ModificationError Unit :=
  match group.treatment with
  | .separate =>
    refuseIf (group.existing ≠ [] ∨ group.promises.any (·.retains.isSome) ∨
        group.remainingDistinct = false ∨ group.additionsAtStandalonePrice = false ∨ delta ≤ 0)
      (.modification ("a separate contract requires only additional distinct promises at " ++
        "commensurate standalone prices"))
  | .prospective =>
    refuseIf (group.remainingDistinct = false) (.modification ("prospective treatment requires " ++
      "remaining goods or services distinct from those already transferred"))
  | .catchUp =>
    refuseIf (group.remainingDistinct = true ∨ group.existing.length ≠ 1 ∨
        group.promises.length ≠ 1 ∨
        group.promises.head?.bind (·.existingId) ≠ group.existing.head?.map (·.id))
      (.modification ("a catch-up group must retain its single partially satisfied, " ++
        "non-distinct performance obligation"))

def earnedOn (group : ModificationGroup) (promise : ModificationPromise) : ℤ :=
  match promise.retains with
  | some id => recognizedOf group.existing id
  | none => 0

def measuredPromise (group : ModificationGroup) (promise : ModificationPromise)
    (allocation : ℤ) : MeasuredPromise :=
  let earned := earnedOn group promise
  let allocated := if group.treatment = .prospective then earned + allocation else allocation
  let target := if group.treatment = .catchUp then
    mulPercent allocated ⟨promise.percentComplete, 4, four_le_eighteen⟩ 4 else earned
  { allocated := allocated
    priorRecognized := earned
    targetRecognized := target
    catchUp := target - earned
    remaining := allocated - target }

def retiredObligations (group : ModificationGroup) (seen : List String) :
    List RetiredObligation :=
  (group.existing.filter fun row => row.id ∉ seen).map fun row => ⟨row.id, row.recognized⟩

/-- Measure one group of a modified contract. -/
def measureRevenueModificationGroup (group : ModificationGroup) :
    Except ModificationError MeasuredGroup := do
  let delta ← modificationMoney group.considerationChange "Consideration change"
  refuseIf (group.promises = []) (.modification "describe the promises after modification")
  refuseIf (¬(group.existing.map (·.id)).Nodup)
    (.modification "an obligation appears twice in the modification group")
  let seen ← group.promises.foldlM (retainPromise (group.existing.map (·.id))) []
  let allocated ← group.existing.mapM fun row => modificationMoney row.allocated "Allocated price"
  let recognized ← group.existing.mapM fun row =>
    modificationMoney row.recognized "Recognized revenue"
  let credits ← group.existing.mapM fun row => modificationMoney row.netCredits "Deferred credits"
  checkTreatment group delta
  let pool := allocated.sum + delta - credits.sum -
    if group.treatment = .prospective then recognized.sum else 0
  refuseIf (pool < 0) (.modification ("the modification leaves negative consideration for " ++
    "remaining performance; reassess the concession and its allocation to satisfied promises"))
  let allocations ← (allocateByRelativeSSP pool
    (group.promises.map fun promise => { ssp := some promise.ssp })).mapError .recognition
  let promises := List.zipWith (measuredPromise group) group.promises allocations
  let retired := retiredObligations group seen
  return {
    priorPrice := allocated.sum
    priorRecognized := recognized.sum
    netCredits := credits.sum
    considerationChange := delta
    pool := pool
    promises := promises
    retired := retired
    newTotal := (promises.map (·.allocated)).sum + (retired.map (·.allocated)).sum }

/-! ### Retained obligations -/

/-- The obligations seen are those that the promises retain, each of the group and once. -/
structure Retained (ids : List String) (promises : List ModificationPromise)
    (seen : List String) : Prop where
  nodup : seen.Nodup
  known : ∀ id ∈ seen, id ∈ ids
  perm : seen.Perm (promises.filterMap (·.retains))

variable {seen : List String} {promises : List ModificationPromise}

theorem Retained.step {ids seen' : List String} {promise : ModificationPromise}
    (h : Retained ids promises seen) (hstep : retainPromise ids seen promise = .ok seen') :
    Retained ids (promises ++ [promise]) seen' := by
  simp only [retainPromise, bind_eq_ok, refuseIf_eq_ok] at hstep
  obtain ⟨_, -, progress, -, _, -, hstep⟩ := hstep
  cases hid : promise.retains with
  | none =>
    rw [hid] at hstep
    obtain rfl := pure_eq_ok.mp hstep
    exact ⟨h.nodup, h.known, by simpa [filterMap_append, hid] using h.perm⟩
  | some id =>
    rw [hid] at hstep
    simp only [bind_eq_ok, refuseIf_eq_ok, pure_eq_ok, not_or, not_not] at hstep
    obtain ⟨_, ⟨hknown, hnew⟩, rfl⟩ := hstep
    refine ⟨nodup_cons.mpr ⟨hnew, h.nodup⟩, forall_mem_cons.mpr ⟨hknown, h.known⟩, ?_⟩
    rw [filterMap_append, filterMap_cons_some hid, filterMap_nil]
    exact (h.perm.cons id).trans (perm_append_singleton id _).symm

theorem retained_of_foldlM {ids : List String}
    (h : promises.foldlM (retainPromise ids) [] = .ok seen) : Retained ids promises seen := by
  refine foldlM_invariant (fun done seen => Retained ids done seen) h
    ⟨nodup_nil, by simp, Perm.nil⟩ ?_
  intro done promise rest s s' _ hs hstep
  exact hs.step hstep

variable {row : ExistingObligation}

section Rows

variable {existing : List ExistingObligation} (hnodup : (existing.map (·.id)).Nodup)

include hnodup

theorem recognizedOf_id (hrow : row ∈ existing) :
    recognizedOf existing row.id = row.recognized := by
  have hfind : existing.find? (fun r => r.id = row.id) = some row := by
    induction existing with
    | nil => cases hrow
    | cons first rest ih =>
      obtain ⟨hfirst, hrest⟩ := nodup_cons.mp hnodup
      rcases mem_cons.mp hrow with rfl | hrow
      · simp
      · have hne : first.id ≠ row.id := fun h =>
          hfirst (mem_map.mpr ⟨row, hrow, h.symm⟩)
        rw [find?_cons_of_neg (by simpa using hne)]
        exact ih hrest hrow
  simp [recognizedOf, hfind]

theorem map_id_filter_seen (hseen : seen.Nodup) (hknown : ∀ id ∈ seen, id ∈ existing.map (·.id)) :
    seen.Perm ((existing.filter fun row => row.id ∈ seen).map (·.id)) := by
  have hsub : ((existing.filter fun row => row.id ∈ seen).map (·.id)).Nodup :=
    hnodup.sublist (filter_sublist.map _)
  refine (perm_ext_iff_of_nodup hseen hsub).mpr fun id => ?_
  constructor
  · intro hid
    obtain ⟨row, hrow, rfl⟩ := mem_map.mp (hknown id hid)
    exact mem_map_of_mem (mem_filter.mpr ⟨hrow, by simpa using hid⟩)
  · intro hid
    obtain ⟨row, hrow, rfl⟩ := mem_map.mp hid
    simpa using (mem_filter.mp hrow).2

theorem sum_recognizedOf_seen (hseen : seen.Nodup)
    (hknown : ∀ id ∈ seen, id ∈ existing.map (·.id)) :
    (seen.map (recognizedOf existing)).sum =
      ((existing.filter fun row => row.id ∈ seen).map (·.recognized)).sum := by
  rw [((map_id_filter_seen hnodup hseen hknown).map _).sum_eq, map_map]
  congr 1
  exact map_congr_left fun row hrow =>
    recognizedOf_id hnodup (mem_of_mem_filter hrow)

end Rows

/-! ### Conservation -/

theorem modificationMoney_eq_ok {value units : ℤ} {label : String}
    (h : modificationMoney value label = .ok units) : units = value := by
  unfold modificationMoney at h
  split_ifs at h
  exact (Except.ok.inj h).symm

theorem modificationColumn_eq_ok {f : ExistingObligation → ℤ} {label : String}
    {rows : List ExistingObligation} {units : List ℤ}
    (h : (rows.mapM fun row => modificationMoney (f row) label) = .ok units) :
    units = rows.map f := by
  have hcolumn := mapM_eq_ok.mp h
  clear h
  induction hcolumn with
  | nil => rfl
  | cons hrow _ ih => rw [map_cons, modificationMoney_eq_ok hrow, ih]

section Group

variable {group : ModificationGroup} {seen : List String} {allocations : List ℤ}

/-- The measurement, given the obligations seen and the allocations of the pool. -/
def measuredGroup (group : ModificationGroup) (seen : List String) (allocations : List ℤ) :
    MeasuredGroup where
  priorPrice := (group.existing.map (·.allocated)).sum
  priorRecognized := (group.existing.map (·.recognized)).sum
  netCredits := (group.existing.map (·.netCredits)).sum
  considerationChange := group.considerationChange
  pool := allocations.sum
  promises := List.zipWith (measuredPromise group) group.promises allocations
  retired := retiredObligations group seen
  newTotal :=
    ((List.zipWith (measuredPromise group) group.promises allocations).map (·.allocated)).sum +
      ((retiredObligations group seen).map (·.allocated)).sum

structure Accepted (group : ModificationGroup) (seen : List String) (allocations : List ℤ) :
    Prop where
  ids : (group.existing.map (·.id)).Nodup
  retained : Retained (group.existing.map (·.id)) group.promises seen
  treatment : checkTreatment group group.considerationChange = .ok ()
  length : allocations.length = group.promises.length
  pool : allocations.sum = (group.existing.map (·.allocated)).sum + group.considerationChange -
    (group.existing.map (·.netCredits)).sum -
    if group.treatment = .prospective then (group.existing.map (·.recognized)).sum else 0

theorem measureRevenueModificationGroup_eq_ok {measured : MeasuredGroup}
    (h : measureRevenueModificationGroup group = .ok measured) :
    ∃ seen allocations, Accepted group seen allocations ∧
      measured = measuredGroup group seen allocations := by
  simp only [measureRevenueModificationGroup, bind_eq_ok, refuseIf_eq_ok, mapError_eq_ok,
    pure_eq_ok, not_not] at h
  obtain ⟨delta, hdelta, _, -, _, hids, seen, hseen, allocated, hallocated, recognized,
    hrecognized, credits, hcredits, _, htreatment, _, -, allocations, hallocations, rfl⟩ := h
  obtain rfl := modificationMoney_eq_ok hdelta
  obtain rfl := modificationColumn_eq_ok hallocated
  obtain rfl := modificationColumn_eq_ok hrecognized
  obtain rfl := modificationColumn_eq_ok hcredits
  obtain ⟨hlength, hsum⟩ := sum_allocateByRelativeSSP hallocations
  refine ⟨seen, allocations, ⟨hids, retained_of_foldlM hseen, htreatment, ?_, hsum⟩, ?_⟩
  · rw [hlength, length_map]
  · rw [measuredGroup, hsum]

theorem earnedOn_eq (promise : ModificationPromise) :
    earnedOn group promise = promise.retains.elim 0 (recognizedOf group.existing) := by
  unfold earnedOn
  cases promise.retains <;> rfl

/-- What the promises have earned before, and what the retired obligations keep, is all that was
recognized. -/
theorem Accepted.sum_earned (h : Accepted group seen allocations) :
    (group.promises.map (earnedOn group)).sum +
        ((retiredObligations group seen).map (·.allocated)).sum =
      (group.existing.map (·.recognized)).sum := by
  have hearned : (group.promises.map (earnedOn group)).sum =
      ((group.existing.filter fun row => row.id ∈ seen).map (·.recognized)).sum := by
    rw [← sum_recognizedOf_seen h.ids h.retained.nodup h.retained.known,
      (h.retained.perm.map _).sum_eq, ← ListSum.sum_map_elim]
    exact congrArg List.sum (map_congr_left fun promise _ => earnedOn_eq promise)
  have hretired : ((retiredObligations group seen).map (·.allocated)).sum =
      ((group.existing.filter fun row => !decide (row.id ∈ seen)).map (·.recognized)).sum := by
    simp [retiredObligations, map_map, Function.comp_def]
  rw [hearned, hretired, ListSum.sum_filter_add_sum_filter_not]

theorem Accepted.retired_eq_nil (h : Accepted group seen allocations)
    (htreatment : group.treatment ≠ .prospective)
    (hid : group.treatment = .catchUp → ∀ row ∈ group.existing, row.id ≠ "") :
    retiredObligations group seen = [] := by
  have hcheck := h.treatment
  unfold checkTreatment at hcheck
  cases hkind : group.treatment with
  | separate =>
    rw [hkind] at hcheck
    simp only [refuseIf_eq_ok, not_or, not_not] at hcheck
    simp [retiredObligations, hcheck.1]
  | prospective => exact absurd hkind htreatment
  | catchUp =>
    rw [hkind] at hcheck
    simp only [refuseIf_eq_ok, not_or, not_not] at hcheck
    obtain ⟨-, hexisting, hpromises, hsame⟩ := hcheck
    obtain ⟨row, hrow⟩ := length_eq_one_iff.mp hexisting
    obtain ⟨promise, hpromise⟩ := length_eq_one_iff.mp hpromises
    have hrowId : row.id ≠ "" := hid hkind row (by simp [hrow])
    have hexistingId : promise.existingId = some row.id := by
      simpa [hrow, hpromise] using hsame
    have hretains : promise.retains = some row.id := by
      simp [ModificationPromise.retains, truthy, hexistingId, hrowId]
    have hseen : row.id ∈ seen := by
      refine h.retained.perm.mem_iff.mpr ?_
      rw [hpromise, filterMap_cons_some hretains]
      exact mem_cons_self
    simp [retiredObligations, hrow, hseen]

theorem sum_allocated_measured (hlength : allocations.length = group.promises.length) :
    ((List.zipWith (measuredPromise group) group.promises allocations).map (·.allocated)).sum =
      (if group.treatment = .prospective then (group.promises.map (earnedOn group)).sum else 0) +
        allocations.sum := by
  rw [map_zipWith]
  generalize group.promises = promises at hlength ⊢
  induction promises generalizing allocations with
  | nil =>
    obtain rfl := length_eq_zero_iff.mp hlength
    simp
  | cons promise promises ih =>
    obtain ⟨allocation, allocations, rfl⟩ := exists_cons_of_length_eq_add_one hlength
    rw [zipWith_cons_cons, sum_cons, ih (Nat.succ.inj hlength), sum_cons,
      map_cons, sum_cons, measuredPromise]
    split_ifs <;> ring

theorem Accepted.newTotal (h : Accepted group seen allocations)
    (hid : group.treatment = .catchUp → ∀ row ∈ group.existing, row.id ≠ "") :
    (measuredGroup group seen allocations).newTotal = (group.existing.map (·.allocated)).sum +
      group.considerationChange - (group.existing.map (·.netCredits)).sum := by
  have hearned := h.sum_earned
  have hpool := h.pool
  have hallocated := sum_allocated_measured h.length
  simp only [measuredGroup, hallocated]
  by_cases htreatment : group.treatment = .prospective
  · rw [if_pos htreatment] at hpool ⊢
    omega
  · rw [h.retired_eq_nil htreatment hid, if_neg htreatment, hpool, if_neg htreatment]
    simp

theorem Accepted.kept_or_retired (h : Accepted group seen allocations)
    (hrow : row ∈ group.existing) :
    (∃ (i : ℕ) (promise : ModificationPromise) (measured : MeasuredPromise),
        group.promises[i]? = some promise ∧ promise.existingId = some row.id ∧
        (measuredGroup group seen allocations).promises[i]? = some measured ∧
        measured.priorRecognized = row.recognized) ∨
      ⟨row.id, row.recognized⟩ ∈ (measuredGroup group seen allocations).retired := by
  by_cases hseen : row.id ∈ seen
  · left
    obtain ⟨promise, hpromise, hretains⟩ :=
      mem_filterMap.mp (h.retained.perm.mem_iff.mp hseen)
    obtain ⟨i, hi, hget⟩ := mem_iff_getElem.mp hpromise
    have hi' : i < allocations.length := h.length ▸ hi
    have hallocation : allocations[i]? = some allocations[i] := getElem?_eq_getElem hi'
    refine ⟨i, promise, measuredPromise group promise allocations[i],
      List.getElem?_eq_some_iff.mpr ⟨hi, hget⟩, eq_some_of_truthy hretains, ?_, ?_⟩
    · simp [measuredGroup, getElem?_zipWith, hallocation, getElem?_eq_getElem hi, hget]
    · rw [measuredPromise, earnedOn_eq, hretains]
      exact recognizedOf_id h.ids hrow
  · right
    exact mem_map.mpr ⟨row, mem_filter.mpr ⟨hrow, by simpa using hseen⟩, rfl⟩

end Group

/-- **A modification conserves consideration.** What the promises and the retired obligations of
an accepted group carry is its prior price, plus the change, less the credits; every promise has
left what is allocated to it, less what it had earned and what is caught up. In a prospective
group nothing is caught up, and what was recognized on an obligation stands, with the promise
that retains it or with the obligation retired. -/
theorem measureRevenueModificationGroup_conserves {group : ModificationGroup}
    {measured : MeasuredGroup} (h : measureRevenueModificationGroup group = .ok measured)
    (hid : group.treatment = .catchUp → ∀ row ∈ group.existing, row.id ≠ "") :
    measured.priorPrice = (group.existing.map (·.allocated)).sum ∧
      measured.considerationChange = group.considerationChange ∧
      measured.netCredits = (group.existing.map (·.netCredits)).sum ∧
      measured.newTotal =
        measured.priorPrice + measured.considerationChange - measured.netCredits ∧
      (∀ p ∈ measured.promises, p.remaining = p.allocated - p.priorRecognized - p.catchUp) ∧
      (group.treatment = .prospective →
        (∀ p ∈ measured.promises, p.catchUp = 0) ∧
        ∀ row ∈ group.existing,
          (∃ (i : ℕ) (promise : ModificationPromise) (p : MeasuredPromise),
            group.promises[i]? = some promise ∧ promise.existingId = some row.id ∧
            measured.promises[i]? = some p ∧ p.priorRecognized = row.recognized) ∨
          ⟨row.id, row.recognized⟩ ∈ measured.retired) := by
  obtain ⟨seen, allocations, haccepted, rfl⟩ := measureRevenueModificationGroup_eq_ok h
  have hpromise : ∀ p ∈ (measuredGroup group seen allocations).promises,
      ∃ promise allocation, p = measuredPromise group promise allocation := by
    intro p hp
    obtain ⟨i, hi, rfl⟩ := mem_iff_getElem.mp hp
    exact ⟨_, _, getElem_zipWith⟩
  refine ⟨rfl, rfl, rfl, haccepted.newTotal hid, ?_, fun hprospective => ⟨?_, ?_⟩⟩
  · intro p hp
    obtain ⟨promise, allocation, rfl⟩ := hpromise p hp
    simp only [measuredPromise]
    ring
  · intro p hp
    obtain ⟨promise, allocation, rfl⟩ := hpromise p hp
    simp [measuredPromise, hprospective]
  · intro row hrow
    exact haccepted.kept_or_retired hrow

/-- Two obligations, one with credits, of which the first is retained beside a new promise. -/
def upgradedGroup : ModificationGroup where
  treatment := .prospective
  considerationChange := 1000001
  existing := [⟨"support", 10000000, 4000000, 0⟩, ⟨"training", 5000000, 2000000, 500000⟩]
  promises := [{ existingId := some "support", ssp := 3000000, percentComplete := 400000 },
    { ssp := 1500000, percentComplete := 0 }]
  remainingDistinct := true
  additionsAtStandalonePrice := false

/-- The upgraded group: the remaining consideration is split two to one. -/
theorem measureRevenueModificationGroup_conserves_upgrade :
    ∃ measured, measureRevenueModificationGroup upgradedGroup = .ok measured ∧
      measured.newTotal =
        measured.priorPrice + measured.considerationChange - measured.netCredits ∧
      ∀ p ∈ measured.promises, p.catchUp = 0 := by
  have hok : (measureRevenueModificationGroup upgradedGroup).isOk = true := by decide +kernel
  obtain ⟨measured, hrun⟩ := exists_of_isOk hok
  have hid : upgradedGroup.treatment = .catchUp → ∀ row ∈ upgradedGroup.existing, row.id ≠ "" := by
    decide
  obtain ⟨-, -, -, htotal, -, hprospective⟩ := measureRevenueModificationGroup_conserves hrun hid
  exact ⟨measured, hrun, htotal, (hprospective rfl).1⟩

/-- A catch-up group whose one obligation has the empty identifier. -/
def namelessGroup : ModificationGroup where
  treatment := .catchUp
  considerationChange := 0
  existing := [⟨"", 10000000, 4000000, 0⟩]
  promises := [{ existingId := some "", ssp := 3000000, percentComplete := 500000 }]
  remainingDistinct := false
  additionsAtStandalonePrice := false

/-- The nameless group is accepted, and what was recognized is counted twice: in its promise and
in the retired obligation. -/
theorem namelessGroup_counts_twice :
    ∃ measured, measureRevenueModificationGroup namelessGroup = .ok measured ∧
      measured.newTotal ≠
        measured.priorPrice + measured.considerationChange - measured.netCredits := by
  have hrun : (measureRevenueModificationGroup namelessGroup).toOption.any (fun measured =>
      measured.newTotal ≠
        measured.priorPrice + measured.considerationChange - measured.netCredits) = true := by
    decide +kernel
  obtain ⟨measured, hok, hne⟩ := exists_of_any hrun
  exact ⟨measured, hok, of_decide_eq_true hne⟩

end OpenBooks
