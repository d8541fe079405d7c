import Mathlib.Data.Int.Order.Basic
import OpenBooks.Payroll.DeductionProtection

/-!
# What the protected orders take out of the pool

Walking the orders by priority, each is answered within its request, its own ceiling and
the pay that is left (`DeductionProtection.Walks`). What is taken after an order
is the greater of what was taken before and the least of three limits, so the total rises
with every request, ceiling and with the pay (`DeductionProtection.poolAfter_mono`).
-/

namespace OpenBooks.DeductionProtection

open Checked List

/-! ### Orders as they are configured -/

/-- An order whose priority, base and floor may be absent. -/
structure DeductionOrder where
  key : ℕ
  requested : ℤ
  maxPercent : ℤ
  priority : Option ℤ
  base : Option ℤ
  exemptFloor : Option ℤ

/-- An order with its defaults: priority 100, and the base of the run. -/
def DeductionOrder.resolve (base : ℤ) (order : DeductionOrder) : ProtectedDeduction where
  key := order.key
  requested := order.requested
  maxPercent := order.maxPercent
  priority := order.priority.getD 100
  base := order.base.getD base
  exemptFloor := order.exemptFloor

/-- Protection with its defaults: the pay that is left is the base, unless it is given. -/
def protectOrders (orders : List DeductionOrder) (base : ℤ) (available : Option ℤ) :
    Except String ProtectionResult :=
  applyDeductionProtection (orders.map (DeductionOrder.resolve base)) base (available.getD base)

/-- What the orders take together. -/
def ProtectionResult.total (result : ProtectionResult) : ℤ :=
  (result.applied.map AppliedDeduction.amount).sum

/-! ### Ceilings -/

/-- The ceiling of an order that is not refused. -/
def ceiling (order : ProtectedDeduction) : ℤ :=
  let percentCap := order.base * order.maxPercent / (100 * SCALE * CENT) * CENT
  match order.exemptFloor with
  | none => percentCap
  | some floor => min percentCap (max 0 (order.base - floor) / CENT * CENT)

/-- An order that is not refused. -/
structure Payable (order : ProtectedDeduction) : Prop where
  requested : 0 ≤ order.requested
  percent : 0 ≤ order.maxPercent
  base : 0 ≤ order.base

theorem atLeastZero_eq_max (value : ℤ) : atLeastZero value = max 0 value := by
  rw [atLeastZero]
  split_ifs <;> omega

theorem floorCents_of_nonneg {units : ℤ} (h : 0 ≤ units) :
    floorCents units = units / CENT * CENT := by
  rw [floorCents, Int.tdiv_eq_ediv_of_nonneg h]
  exact if_neg fun hneg => absurd hneg.1 (not_lt.mpr h)

variable {order : ProtectedDeduction}

theorem capOf_eq_ok {cap : ℤ} (h : capOf order = .ok cap) :
    0 ≤ order.maxPercent ∧ 0 ≤ order.base ∧ cap = ceiling order := by
  simp only [capOf, requireNonNegative, percentFloorCents, bind_eq_ok, refuseIf_eq_ok,
    pure_eq_ok] at h
  obtain ⟨-, hpercent, base, ⟨-, hbase, rfl⟩, percentCap, ⟨-, hexact, rfl⟩, h⟩ := h
  have hpercent : 0 ≤ order.maxPercent := not_lt.mp fun hneg => hpercent (Or.inl hneg)
  refine ⟨hpercent, not_lt.mp hbase, ?_⟩
  rw [ceiling, ← Int.tdiv_eq_ediv_of_nonneg (not_lt.mp hexact)]
  cases hfloor : order.exemptFloor with
  | none =>
    rw [hfloor] at h
    exact (pure_eq_ok.mp h).symm
  | some floor =>
    rw [hfloor] at h
    simp only [bind_eq_ok, refuseIf_eq_ok, pure_eq_ok] at h
    obtain ⟨_, ⟨-, -, rfl⟩, rfl⟩ := h
    rw [lesser_eq_min, atLeastZero_eq_max, floorCents_of_nonneg (le_max_left _ _)]

theorem ceiling_le_percent : ceiling order * (100 * SCALE) ≤ order.base * order.maxPercent := by
  have hcap : ceiling order ≤ order.base * order.maxPercent / (100 * SCALE * CENT) * CENT := by
    rw [ceiling]
    cases order.exemptFloor with
    | none => exact le_rfl
    | some floor => exact min_le_left _ _
  have hdiv := Int.ediv_mul_le (order.base * order.maxPercent)
    (show 100 * SCALE * CENT ≠ 0 by decide)
  simp only [SCALE, CENT] at hcap hdiv ⊢
  linarith

theorem ceiling_le_floor {floor : ℤ} (h : floor ∈ order.exemptFloor) :
    ceiling order ≤ max 0 (order.base - floor) := by
  rw [ceiling, Option.mem_def.mp h]
  exact (min_le_right _ _).trans (Int.ediv_mul_le _ (by decide))

/-- The order asks for more, or is allowed more. -/
structure Raised (order raised : ProtectedDeduction) : Prop where
  priority : raised.priority = order.priority
  requested : order.requested ≤ raised.requested
  base : order.base ≤ raised.base
  percent : order.maxPercent ≤ raised.maxPercent
  floor : ∀ floor ∈ raised.exemptFloor, ∃ higher ∈ order.exemptFloor, floor ≤ higher

variable {raised : ProtectedDeduction}

theorem Raised.ceiling_le (h : Raised order raised) (hpay : Payable order) :
    ceiling order ≤ ceiling raised := by
  have hexact := mul_le_mul h.base h.percent hpay.percent (hpay.base.trans h.base)
  have hpercent : order.base * order.maxPercent / (100 * SCALE * CENT) * CENT ≤
      raised.base * raised.maxPercent / (100 * SCALE * CENT) * CENT :=
    mul_le_mul_of_nonneg_right (Int.ediv_le_ediv (by decide) hexact) (by decide)
  cases hraised : raised.exemptFloor with
  | none =>
    refine le_trans ?_ (hpercent.trans (by rw [ceiling, hraised]))
    rw [ceiling]
    cases order.exemptFloor with
    | none => exact le_rfl
    | some floor => exact min_le_left _ _
  | some floor =>
    obtain ⟨higher, hhigher, hle⟩ := h.floor floor hraised
    rw [ceiling, ceiling, hraised, Option.mem_def.mp hhigher]
    have hroom : max 0 (order.base - higher) ≤ max 0 (raised.base - floor) :=
      max_le_max le_rfl (by linarith [h.base])
    exact min_le_min hpercent
      (mul_le_mul_of_nonneg_right (Int.ediv_le_ediv (by decide) hroom) (by decide))

/-! ### The walk -/

/-- An answer, when `taken` is taken before it. -/
structure Lawful (available taken : ℤ) (order : ProtectedDeduction) (answer : AppliedDeduction) :
    Prop extends Answers order answer where
  within_cap : 0 < answer.amount → taken + answer.amount ≤ answer.cap
  within_pay : 0 < answer.amount → taken + answer.amount ≤ available
  short : answer.amount < order.requested →
    answer.amount = min (max 0 (answer.cap - taken)) (max 0 (available - taken))
  cap_percent : answer.cap * (100 * SCALE) ≤ order.base * order.maxPercent
  cap_floor : ∀ floor ∈ order.exemptFloor, answer.cap ≤ max 0 (order.base - floor)

/-- The orders are answered one after another, each after what the ones before it took. -/
def Walks (available : ℤ) : ℤ → List ProtectedDeduction → List AppliedDeduction → Prop
  | _, [], [] => True
  | taken, order :: orders, answer :: answers =>
    Lawful available taken order answer ∧ Walks available (taken + answer.amount) orders answers
  | _, _, _ => False

/-- What is taken after an order. -/
def takenAfter (available taken : ℤ) (order : ProtectedDeduction) : ℤ :=
  max taken (min (min (taken + order.requested) (ceiling order)) available)

/-- What is taken after the orders. -/
def poolAfter (available : ℤ) : ℤ → List ProtectedDeduction → ℤ :=
  List.foldl (takenAfter available)

variable {available : ℤ} {state state' : ProtectionResult × ℤ}

/-- **One order is answered lawfully.** -/
theorem answerOrder_lawful (h : answerOrder available state order = .ok state') :
    Payable order ∧ ∃ answer, state'.1.applied = state.1.applied ++ [answer] ∧
      Lawful available state.2 order answer ∧ state'.2 = state.2 + answer.amount ∧
      state'.2 = takenAfter available state.2 order := by
  have hanswers := answerOrder_answers h
  simp only [answerOrder, requireNonNegative, bind_eq_ok, refuseIf_eq_ok, pure_eq_ok] at h
  obtain ⟨requested, ⟨-, hnonneg, rfl⟩, cap, hcap, rfl⟩ := h
  obtain ⟨hpercent, hbase, rfl⟩ := capOf_eq_ok hcap
  have hnonneg := not_lt.mp hnonneg
  obtain ⟨answer, happlied, hanswer⟩ := hanswers
  obtain rfl := List.singleton_inj.mp (append_cancel_left happlied)
  refine ⟨⟨hnonneg, hpercent, hbase⟩, _, rfl, ⟨hanswer, ?_, ?_, ?_, ceiling_le_percent,
    fun floor hfloor => ceiling_le_floor hfloor⟩, rfl, ?_⟩
  all_goals simp only [lesser_eq_min, atLeastZero_eq_max, takenAfter]; omega

variable {ordered : List ProtectedDeduction}

theorem foldlM_walks (h : ordered.foldlM (answerOrder available) state = .ok state') :
    (∀ order ∈ ordered, Payable order) ∧
      ∃ answers, state'.1.applied = state.1.applied ++ answers ∧
        Walks available state.2 ordered answers ∧
        state.2 + (answers.map AppliedDeduction.amount).sum =
          poolAfter available state.2 ordered := by
  induction ordered generalizing state with
  | nil =>
    obtain rfl := pure_eq_ok.mp h
    exact ⟨by simp, [], (append_nil _).symm, trivial, add_zero _⟩
  | cons order rest ih =>
    rw [foldlM_cons] at h
    obtain ⟨next, hnext, hrest⟩ := bind_eq_ok.mp h
    obtain ⟨hpay, answer, happlied, hlawful, htaken, hafter⟩ := answerOrder_lawful hnext
    obtain ⟨hpays, answers, happlied', hwalks, hsum⟩ := ih hrest
    refine ⟨forall_mem_cons.mpr ⟨hpay, hpays⟩, answer :: answers, ?_, ⟨hlawful, ?_⟩, ?_⟩
    · rw [happlied', happlied, append_assoc, singleton_append]
    · rw [← htaken]
      exact hwalks
    · rw [poolAfter, foldl_cons, ← hafter, map_cons, sum_cons, ← add_assoc, ← htaken]
      exact hsum

/-! ### The total -/

/-- **More is taken of more**: of what was taken, of the requests, the ceilings and the pay. -/
theorem poolAfter_mono {available' : ℤ} (havailable : available ≤ available')
    {ordered' : List ProtectedDeduction} (h : List.Forall₂ Raised ordered ordered')
    (hpay : ∀ order ∈ ordered, Payable order) {taken taken' : ℤ} (htaken : taken ≤ taken') :
    poolAfter available taken ordered ≤ poolAfter available' taken' ordered' := by
  induction h generalizing taken taken' with
  | nil => exact htaken
  | @cons order raised _ _ hraised _ ih =>
    obtain ⟨hpay, hpays⟩ := forall_mem_cons.mp hpay
    refine ih hpays (max_le_max htaken (min_le_min (min_le_min ?_ (hraised.ceiling_le hpay))
      havailable))
    exact add_le_add htaken hraised.requested

variable {orders raiseds : List ProtectedDeduction}

theorem forall₂_orderedInsert (h : Raised order raised) (hs : List.Forall₂ Raised orders raiseds) :
    List.Forall₂ Raised (orders.orderedInsert (fun a b => a.priority ≤ b.priority) order)
      (raiseds.orderedInsert (fun a b => a.priority ≤ b.priority) raised) := by
  induction hs with
  | nil => exact .cons h .nil
  | cons hab hs ih =>
    rw [orderedInsert_cons, orderedInsert_cons, h.priority, hab.priority]
    split_ifs
    · exact .cons h (.cons hab hs)
    · exact .cons hab ih

/-- The same priorities put the orders in the same places. -/
theorem forall₂_insertionSort (hs : List.Forall₂ Raised orders raiseds) :
    List.Forall₂ Raised (orders.insertionSort fun a b => a.priority ≤ b.priority)
      (raiseds.insertionSort fun a b => a.priority ≤ b.priority) := by
  induction hs with
  | nil => exact .nil
  | cons h _ ih => exact forall₂_orderedInsert h ih

theorem applyDeductionProtection_walks {deductions : List ProtectedDeduction} {base : ℤ}
    {result : ProtectionResult}
    (h : applyDeductionProtection deductions base available = .ok result) :
    (∀ order ∈ deductions.insertionSort fun a b => a.priority ≤ b.priority, Payable order) ∧
      Walks available 0 (deductions.insertionSort fun a b => a.priority ≤ b.priority)
        result.applied ∧
      result.total = poolAfter available 0
        (deductions.insertionSort fun a b => a.priority ≤ b.priority) := by
  simp only [applyDeductionProtection, requireNonNegative, bind_eq_ok, refuseIf_eq_ok,
    pure_eq_ok] at h
  obtain ⟨_, -, _, ⟨-, -, rfl⟩, state, hstate, rfl⟩ := h
  obtain ⟨hpay, answers, happlied, hwalks, hsum⟩ := foldlM_walks hstate
  rw [nil_append] at happlied
  rw [ProtectionResult.total, happlied]
  exact ⟨hpay, hwalks, by rw [← hsum, zero_add]⟩

/-- **Protection is lawful, and takes more of more.** -/
theorem protectOrders_lawful {orders : List DeductionOrder} {base : ℤ} {available : Option ℤ}
    {result : ProtectionResult} (h : protectOrders orders base available = .ok result) :
    Walks (available.getD base) 0 ((orders.map (DeductionOrder.resolve base)).insertionSort
        fun a b => a.priority ≤ b.priority) result.applied ∧
      ∀ (orders' : List DeductionOrder) (base' : ℤ) (available' : Option ℤ)
        (result' : ProtectionResult), protectOrders orders' base' available' = .ok result' →
        List.Forall₂ Raised (orders.map (DeductionOrder.resolve base))
          (orders'.map (DeductionOrder.resolve base')) →
        available.getD base ≤ available'.getD base' → result.total ≤ result'.total := by
  obtain ⟨hpay, hwalks, htotal⟩ := applyDeductionProtection_walks h
  refine ⟨hwalks, fun orders' base' available' result' h' hraised havailable => ?_⟩
  obtain ⟨-, -, htotal'⟩ := applyDeductionProtection_walks h'
  rw [htotal, htotal']
  exact poolAfter_mono havailable (forall₂_insertionSort hraised) hpay le_rfl

/-- A support order takes its 400 of 500; a creditor's 250 of the same pay are used up. -/
theorem protectOrders_lawful_two :
    Walks 10000000 0 [⟨0, 4000000, 500000, 1, 10000000, none⟩,
        ⟨1, 3000000, 250000, 100, 10000000, some 5000000⟩]
      [⟨0, 4000000, 4000000, 5000000⟩, ⟨1, 3000000, 0, 2500000⟩] := by
  have hrun : protectOrders [⟨1, 3000000, 250000, none, none, some 5000000⟩,
      ⟨0, 4000000, 500000, some 1, none, none⟩] 10000000 none =
      .ok ⟨[⟨0, 4000000, 4000000, 5000000⟩, ⟨1, 3000000, 0, 2500000⟩],
        [⟨1, 3000000, 0, 3000000, .protectedBase⟩]⟩ := by decide
  exact (protectOrders_lawful hrun).1

end OpenBooks.DeductionProtection
