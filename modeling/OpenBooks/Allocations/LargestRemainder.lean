import OpenBooks.Allocations.Apportion
import Mathlib.Algebra.BigOperators.Ring.List
import Mathlib.Algebra.Order.Ring.Abs
import Mathlib.Data.List.GetD

/-!
# Largest remainders

What `dealLargestRemainder` does to a list of truncated parts, for both of its callers. `apportion`
floors a magnitude over weights and deals what is left upwards; `allocateLargestRemainder` truncates
exact amounts of either sign to a coarser quantum and deals the difference from the rounded total
upwards or downwards.

In both, every unit to deal finds a part, no part is dealt two, and none that was exact is touched
(`Dealt`) – which is what makes the parts sum to the total (`apportion_proportional`,
`allocateLargestRemainder_rounds`) without moving any of them a whole unit.
-/

namespace OpenBooks

open Checked List LargestFirst

/-! ### Dealing -/

/-- The part at `a` is served before that at `b`: its remainder is larger, or it is the same
and the place decides. -/
def ServedBefore (remainders : List ℤ) (last : Bool) (a b : ℕ) : Prop :=
  remainders.getD b 0 < remainders.getD a 0 ∨
    (remainders.getD a 0 = remainders.getD b 0 ∧ if last then b ≤ a else a ≤ b)

instance (remainders : List ℤ) (last : Bool) : DecidableRel (ServedBefore remainders last) :=
  fun a b => inferInstanceAs (Decidable (_ ∨ (_ ∧ if last then b ≤ a else a ≤ b)))

variable {parts remainders dealt : List ℤ} {count : ℕ} {last : Bool} {step : ℤ} {served : List ℕ}

theorem ServedBefore.remainder_le {a b : ℕ} (h : ServedBefore remainders last a b) :
    remainders.getD b 0 ≤ remainders.getD a 0 := by
  rcases h with hlt | ⟨heq, -⟩
  · exact hlt.le
  · exact heq.ge

theorem servedBefore_total (remainders : List ℤ) (last : Bool) (a b : ℕ) :
    ServedBefore remainders last a b ∨ ServedBefore remainders last b a := by
  rcases lt_trichotomy (remainders.getD a 0) (remainders.getD b 0) with h | h | h
  · exact .inr (.inl h)
  · rcases le_total a b with hab | hab <;> cases last
    · exact .inl (.inr ⟨h, hab⟩)
    · exact .inr (.inr ⟨h.symm, hab⟩)
    · exact .inr (.inr ⟨h.symm, hab⟩)
    · exact .inl (.inr ⟨h, hab⟩)
  · exact .inl (.inl h)

theorem ServedBefore.trans {a b c : ℕ} (hab : ServedBefore remainders last a b)
    (hbc : ServedBefore remainders last b c) : ServedBefore remainders last a c := by
  rcases hab with hab | ⟨hab, hab'⟩ <;> rcases hbc with hbc | ⟨hbc, hbc'⟩
  · exact .inl (hbc.trans hab)
  · exact .inl (hbc ▸ hab)
  · exact .inl (hab ▸ hbc)
  · refine .inr ⟨hab.trans hbc, ?_⟩
    cases last
    · exact le_trans hab' hbc'
    · exact le_trans hbc' hab'

section

variable (remainders : List ℤ)

theorem pairwise_remainderOrder (last : Bool) :
    (remainderOrder remainders last).Pairwise (ServedBefore remainders last) := by
  have htotal : Std.Total (ServedBefore remainders last) := ⟨servedBefore_total remainders last⟩
  have htrans : IsTrans ℕ (ServedBefore remainders last) := ⟨fun _ _ _ hab hbc => hab.trans hbc⟩
  exact @pairwise_insertionSort ℕ (ServedBefore remainders last) _ htotal htrans _

theorem perm_remainderOrder (last : Bool) :
    (remainderOrder remainders last).Perm (List.range remainders.length) :=
  perm_insertionSort _ _

theorem map_getD_range :
    (List.range remainders.length).map (fun i => remainders.getD i 0) = remainders := by
  refine ext_getElem (by simp) fun i _ hi => ?_
  rw [getElem_map, getElem_range, getD_eq_getElem _ _ hi]

theorem countP_remainderOrder (last : Bool) :
    (remainderOrder remainders last).countP (fun i => 0 < remainders.getD i 0) =
      remainders.countP (0 < ·) := by
  rw [(perm_remainderOrder remainders last).countP_eq]
  conv_rhs => rw [← map_getD_range remainders, countP_map]
  rfl

end

/-- What dealing comes to, part by part and in all. -/
structure Dealt (parts remainders : List ℤ) (count : ℕ) (last : Bool) (step : ℤ)
    (served : List ℕ) (dealt : List ℤ) : Prop where
  length : dealt.length = parts.length
  sum : dealt.sum = parts.sum + count * step
  part : ∀ j < parts.length,
    dealt.getD j 0 = if j ∈ served then parts.getD j 0 + step else parts.getD j 0
  before : ∀ i ∈ served, ∀ j < parts.length, j ∉ served → ServedBefore remainders last i j
  positive : ∀ i ∈ served, 0 < remainders.getD i 0

/-- **Dealing serves the largest remainders first**, each once, when there are enough of
them. -/
theorem exists_dealt (hlen : remainders.length = parts.length)
    (hcount : count ≤ remainders.countP (0 < ·)) (last : Bool) (step : ℤ) :
    ∃ served, Dealt parts remainders count last step served
      (dealLargestRemainder parts remainders count last step) := by
  have hperm := perm_remainderOrder remainders last
  have hnodup : ((remainderOrder remainders last).take count).Nodup :=
    (take_sublist _ _).nodup (hperm.nodup_iff.mpr nodup_range)
  have hrange : ∀ i ∈ (remainderOrder remainders last).take count, i < parts.length := by
    intro i hi
    have := hperm.mem_iff.mp (mem_of_mem_take hi)
    rwa [mem_range, hlen] at this
  refine ⟨(remainderOrder remainders last).take count, ?_, ?_, ?_, ?_, ?_⟩
  · exact length_dealLargestRemainder parts remainders count last step
  · have hfits : count ≤ (remainderOrder remainders last).length := by
      rw [hperm.length_eq, length_range]
      exact hcount.trans countP_le_length
    rw [dealLargestRemainder, sum_foldl_modify_add step hrange, length_take,
      min_eq_left hfits]
  · intro j hj
    rw [dealLargestRemainder, getD_eq_getElem?_getD, LargestFirst.getElem?_foldl_modify _ hnodup]
    split_ifs
    · rw [getElem?_eq_getElem hj, getD_eq_getElem _ _ hj]
      rfl
    · rw [getD_eq_getElem?_getD]
  · intro i hi j hj hnot
    have hmem : j ∈ remainderOrder remainders last := by
      rw [hperm.mem_iff, mem_range, hlen]
      exact hj
    rw [← take_append_drop count (remainderOrder remainders last), mem_append] at hmem
    exact rel_of_mem_take (pairwise_remainderOrder remainders last) hi
      (hmem.resolve_left hnot)
  · intro i hi
    have := forall_mem_take (pairwise_remainderOrder remainders last)
      (p := fun i => 0 < remainders.getD i 0)
      (fun a b hab hb => by
        rw [decide_eq_true_eq] at hb ⊢
        exact lt_of_lt_of_le hb hab.remainder_le)
      (by rwa [countP_remainderOrder]) i hi
    simpa using this

/-! ### Apportionment -/

section Apportionment

variable {weights : List ℤ} {residual : ApportionResidual} {m : ℤ}

theorem getD_map_zero {f : ℤ → ℤ} (hf : f 0 = 0) (xs : List ℤ) (i : ℕ) :
    (xs.map f).getD i 0 = f (xs.getD i 0) := by
  conv_lhs => rw [← hf]
  exact getD_map xs 0 f

theorem sum_floors (m : ℤ) (weights : List ℤ) (w : ℤ) :
    w * (weights.map fun a => m * a / w).sum + (weights.map fun a => m * a % w).sum =
      m * weights.sum := by
  induction weights with
  | nil => simp
  | cons a weights ih =>
    have := Int.mul_ediv_add_emod (m * a) w
    simp only [map_cons, sum_cons]
    linarith

theorem sum_mul_leftover (m : ℤ) (weights : List ℤ) :
    weights.sum * (m - (weights.map fun w => m * w / weights.sum).sum) =
      (weights.map fun w => m * w % weights.sum).sum := by
  have := sum_floors m weights weights.sum
  rw [mul_sub]
  linarith

theorem leftover_nonneg (hsum : 0 < weights.sum) (m : ℤ) :
    0 ≤ m - (weights.map fun w => m * w / weights.sum).sum := by
  refine nonneg_of_mul_nonneg_right ?_ hsum
  rw [sum_mul_leftover]
  refine List.sum_nonneg fun r hr => ?_
  obtain ⟨w, -, rfl⟩ := mem_map.mp hr
  exact Int.emod_nonneg _ hsum.ne'

/-- How a magnitude is split over weights: proportional up to one unit, the whole of it. -/
structure Apportioned (m : ℤ) (weights : List ℤ) (residual : ApportionResidual)
    (parts : List ℤ) : Prop where
  length : parts.length = weights.length
  sum : parts.sum = m
  floor_or_succ : residual.absorber? = none → ∀ i < weights.length,
    parts.getD i 0 = m * weights.getD i 0 / weights.sum ∨
      parts.getD i 0 = m * weights.getD i 0 / weights.sum + 1
  exact_kept : residual.absorber? = none → ∀ i < weights.length,
    m * weights.getD i 0 % weights.sum = 0 → parts.getD i 0 = m * weights.getD i 0 / weights.sum
  larger_first : residual.absorber? = none → ∀ i < weights.length, ∀ j < weights.length,
    parts.getD i 0 = m * weights.getD i 0 / weights.sum + 1 →
    parts.getD j 0 = m * weights.getD j 0 / weights.sum →
    m * weights.getD j 0 % weights.sum ≤ m * weights.getD i 0 % weights.sum
  others_floored : ∀ k ∈ residual.absorber?, ∀ i < weights.length, i ≠ k →
    parts.getD i 0 = m * weights.getD i 0 / weights.sum

theorem apportioned_of_dealt {served : List ℕ} (hresidual : residual.absorber? = none)
    (hsum : 0 < weights.sum) {last : Bool} {dealt : List ℤ}
    (h : Dealt (weights.map fun w => m * w / weights.sum) (weights.map fun w => m * w % weights.sum)
      (m - (weights.map fun w => m * w / weights.sum).sum).toNat last 1 served dealt) :
    Apportioned m weights residual dealt := by
  have hfloor : ∀ i, (weights.map fun w => m * w / weights.sum).getD i 0 =
      m * weights.getD i 0 / weights.sum := getD_map_zero (by simp) weights
  have hrem : ∀ i, (weights.map fun w => m * w % weights.sum).getD i 0 =
      m * weights.getD i 0 % weights.sum := getD_map_zero (by simp) weights
  have hpart : ∀ i < weights.length, dealt.getD i 0 =
      if i ∈ served then m * weights.getD i 0 / weights.sum + 1
        else m * weights.getD i 0 / weights.sum := by
    intro i hi
    rw [h.part i (by simpa using hi), hfloor]
  refine ⟨by simpa using h.length, ?_, fun _ i hi => ?_, fun _ i hi hzero => ?_,
    fun _ i hi j hj hsucc hkept => ?_, fun k hk => ?_⟩
  · rw [h.sum, Int.toNat_of_nonneg (leftover_nonneg hsum m)]
    ring
  · rw [hpart i hi]
    split_ifs
    · exact .inr rfl
    · exact .inl rfl
  · rw [hpart i hi, if_neg]
    intro hserved
    have := h.positive i hserved
    rw [hrem, hzero] at this
    exact lt_irrefl 0 this
  · have hi' : i ∈ served := by
      by_contra hnot
      rw [hpart i hi, if_neg hnot] at hsucc
      omega
    have hj' : j ∉ served := by
      intro hserved
      rw [hpart j hj, if_pos hserved] at hkept
      omega
    have := (h.before i hi' j (by simpa using hj) hj').remainder_le
    rwa [hrem, hrem] at this
  · rw [hresidual] at hk
    cases hk

/-- The units left over find as many remainders to round. -/
theorem leftover_le_countP (hsum : 0 < weights.sum) (m : ℤ) :
    (m - (weights.map fun w => m * w / weights.sum).sum).toNat ≤
      (weights.map fun w => m * w % weights.sum).countP (0 < ·) := by
  refine le_countP_pos hsum (fun r hr => ?_) ?_
  · obtain ⟨w, -, rfl⟩ := mem_map.mp hr
    exact Int.emod_lt_of_pos _ hsum
  · rw [Int.toNat_of_nonneg (leftover_nonneg hsum m), sum_mul_leftover]
    omega

theorem apportioned_apportionMagnitude (residual : ApportionResidual) (hsum : 0 < weights.sum)
    (m : ℤ) (hresidual : ∀ k ∈ residual.absorber?, k < weights.length) :
    Apportioned m weights residual (apportionMagnitude m weights residual) := by
  have hlen : (weights.map fun w => m * w % weights.sum).length =
      (weights.map fun w => m * w / weights.sum).length := by simp
  cases residual with
  | largestRemainder =>
    obtain ⟨served, h⟩ := exists_dealt hlen (leftover_le_countP hsum m) false 1
    exact apportioned_of_dealt rfl hsum h
  | largestRemainderLast =>
    obtain ⟨served, h⟩ := exists_dealt hlen (leftover_le_countP hsum m) true 1
    exact apportioned_of_dealt rfl hsum h
  | absorber k =>
    obtain ⟨htotal, hlen⟩ := sum_apportionMagnitude_absorber m (hresidual k rfl)
    refine ⟨hlen, htotal, nofun, nofun, nofun, fun j hj i _ hne => ?_⟩
    obtain rfl : k = j := Option.some.inj hj
    rw [apportionMagnitude, getD_eq_getElem?_getD,
      getElem?_modify_ne _ _ (Ne.symm hne), ← getD_eq_getElem?_getD]
    exact getD_map_zero (by simp) weights i

section

variable (hweights : ∀ w ∈ weights, 0 ≤ w)

include hweights

theorem apportionMagnitude_nonneg (hsum : 0 < weights.sum) (hm : 0 ≤ m)
    (residual : ApportionResidual) : ∀ part ∈ apportionMagnitude m weights residual, 0 ≤ part := by
  have hfloors : ∀ part ∈ weights.map fun w => m * w / weights.sum, 0 ≤ part := by
    intro part hpart
    obtain ⟨w, hw, rfl⟩ := mem_map.mp hpart
    exact Int.ediv_nonneg (mul_nonneg hm (hweights w hw)) hsum.le
  cases residual with
  | absorber k =>
    exact forall_modify (fun x hx => add_nonneg hx (leftover_nonneg hsum m)) hfloors k
  | _ => exact forall_foldl_modify (fun x hx => by omega) hfloors _

theorem apportion_zero (hresidual : ∀ k ∈ residual.absorber?, k < weights.length) :
    apportion 0 weights residual = .ok (weights.map fun _ => 0) := by
  simp only [apportion, bind_eq_ok, refuseIf_eq_ok]
  refine ⟨(), ?_, (), ?_, rfl⟩
  · simpa using hweights
  · simpa using hresidual

theorem apportion_of_ne_zero (hsum : 0 < weights.sum)
    (hresidual : ∀ k ∈ residual.absorber?, k < weights.length) {total : ℤ} (htotal : total ≠ 0) :
    apportion total weights residual = .ok (if total < 0 then
      (apportionMagnitude (-total) weights residual).map (- ·)
      else apportionMagnitude total weights residual) := by
  simp only [apportion, bind_eq_ok, refuseIf_eq_ok, if_neg htotal, pure_eq_ok]
  refine ⟨(), ?_, (), ?_, (), hsum.ne', trivial⟩
  · simpa using hweights
  · simpa using hresidual

end

theorem apportioned_zero (residual : ApportionResidual) :
    Apportioned 0 weights residual (weights.map fun _ => 0) := by
  have hzero : ∀ i, (weights.map fun _ => (0 : ℤ)).getD i 0 = 0 := getD_map_zero rfl weights
  refine ⟨length_map _, by simp, ?_, ?_, ?_, ?_⟩ <;> simp only [hzero, zero_mul] <;> simp

theorem map_abs_of_nonneg {parts : List ℤ} (h : ∀ part ∈ parts, 0 ≤ part) :
    parts.map (|·|) = parts := by
  conv_rhs => rw [← map_id parts]
  exact map_congr_left fun part hpart => abs_of_nonneg (h part hpart)

/-- **A total is split exactly, mirrored, and proportional up to one unit**, whatever its
sign and wherever the residual goes. -/
theorem apportion_proportional (total : ℤ) (hweights : ∀ w ∈ weights, 0 ≤ w)
    (hsum : 0 < weights.sum) (hresidual : ∀ k ∈ residual.absorber?, k < weights.length) :
    ∃ parts, apportion total weights residual = .ok parts ∧
      apportion (-total) weights residual = .ok (parts.map (- ·)) ∧
      parts.sum = total ∧ Apportioned |total| weights residual (parts.map (|·|)) := by
  have hmirror : ∀ parts : List ℤ, (parts.map (- ·)).map (|·|) = parts.map (|·|) := fun parts => by
    rw [map_map]
    exact map_congr_left fun part _ => abs_neg part
  rcases lt_trichotomy total 0 with hneg | rfl | hpos
  · have hsplit := apportioned_apportionMagnitude residual hsum (-total) hresidual
    have hnonneg := apportionMagnitude_nonneg hweights hsum (neg_pos.mpr hneg).le residual
    refine ⟨_, apportion_of_ne_zero hweights hsum hresidual hneg.ne, ?_, ?_, ?_⟩
    · rw [apportion_of_ne_zero hweights hsum hresidual (neg_ne_zero.mpr hneg.ne), if_pos hneg,
        if_neg (not_lt.mpr (neg_pos.mpr hneg).le), map_map]
      simp
    · rw [if_pos hneg, ← sum_neg, hsplit.sum, neg_neg]
    · rw [if_pos hneg, hmirror, map_abs_of_nonneg hnonneg, abs_of_neg hneg]
      exact hsplit
  · refine ⟨_, apportion_zero hweights hresidual, ?_, by simp, ?_⟩
    · rw [neg_zero, apportion_zero hweights hresidual]
      simp
    · rw [map_abs_of_nonneg (by simp), abs_zero]
      exact apportioned_zero residual
  · have hsplit := apportioned_apportionMagnitude residual hsum total hresidual
    have hnonneg := apportionMagnitude_nonneg hweights hsum hpos.le residual
    refine ⟨_, apportion_of_ne_zero hweights hsum hresidual hpos.ne', ?_, ?_, ?_⟩
    · rw [apportion_of_ne_zero hweights hsum hresidual (neg_ne_zero.mpr hpos.ne'),
        if_pos (neg_neg_of_pos hpos), if_neg (not_lt.mpr hpos.le), neg_neg]
    · rw [if_neg (not_lt.mpr hpos.le), hsplit.sum]
    · rw [if_neg (not_lt.mpr hpos.le), map_abs_of_nonneg hnonneg, abs_of_pos hpos]
      exact hsplit

theorem apportion_proportional_in_thirds :
    ∃ parts, apportion (-100) [1, 1, 1, 0] .largestRemainderLast = .ok parts ∧
      apportion 100 [1, 1, 1, 0] .largestRemainderLast = .ok (parts.map (- ·)) ∧
      parts.sum = -100 ∧
      Apportioned 100 [1, 1, 1, 0] .largestRemainderLast (parts.map (|·|)) :=
  apportion_proportional (-100) (by decide) (by decide) (by simp [ApportionResidual.absorber?])

end Apportionment

/-! ### Rounded totals -/

/-- The quanta each exact amount is allocated. -/
def allocatedQuanta (exactAmounts : List ℤ) (quantum : ℤ) : List ℤ :=
  let target := roundDiv exactAmounts.sum quantum
  -- truncated toward zero, so that each remainder has the sign of its amount
  let allocated := exactAmounts.map fun amount => amount.tdiv quantum
  let remainders := exactAmounts.map fun amount => amount - amount.tdiv quantum * quantum
  let outstanding := target - allocated.sum
  if 0 < outstanding then
    dealLargestRemainder allocated remainders outstanding.toNat false 1
  else if outstanding < 0 then
    dealLargestRemainder allocated (remainders.map (- ·)) (-outstanding).toNat false (-1)
  else allocated

/-- Largest-remainder allocation of a rounded total across exact amounts. -/
def allocateLargestRemainder (exactAmounts : List ℤ) (decimalPlaces : ℕ) :
    Except String (List ℤ) := do
  refuseIf (4 < decimalPlaces) "decimalPlaces must be an integer from 0 through 4"
  if exactAmounts = [] then return []
  else return (allocatedQuanta exactAmounts (quantum decimalPlaces)).map (· * quantum decimalPlaces)

/-- An exact amount and the multiple of `q` it is allocated: truncated, or the neighbour of
that away from zero. -/
structure RoundedTo (q exact part : ℤ) : Prop where
  dvd : q ∣ part
  near : |part - exact| < q
  truncated_or_away : part = exact.tdiv q * q ∨ part = (exact.tdiv q + exact.sign) * q
  exact_kept : q ∣ exact → part = exact

section RoundedTotals

variable {q a : ℤ} {exactAmounts : List ℤ}

theorem sub_truncation (a q : ℤ) : a - a.tdiv q * q = a.tmod q := by
  have := Int.tdiv_mul_add_tmod a q
  linarith

theorem roundedTo_truncation (hq : 0 < q) (a : ℤ) : RoundedTo q a (a.tdiv q * q) := by
  refine ⟨Int.dvd_mul_left _ _, ?_, .inl rfl, fun hdvd => Int.tdiv_mul_cancel hdvd⟩
  have hmod := sub_truncation a q
  have hlt := Int.tmod_lt_of_pos a hq
  have hgt := Int.lt_tmod_of_pos a hq
  rw [abs_lt]
  constructor <;> linarith

theorem RoundedTo.neg {part : ℤ} (h : RoundedTo q a part) : RoundedTo q (-a) (-part) where
  dvd := Int.dvd_neg.mpr h.dvd
  near := by
    rw [← neg_sub', abs_neg]
    exact h.near
  truncated_or_away := by
    rw [Int.neg_tdiv, Int.sign_neg]
    rcases h.truncated_or_away with htrunc | haway
    · left
      rw [htrunc]
      ring
    · right
      rw [haway]
      ring
  exact_kept hdvd := by rw [h.exact_kept (Int.dvd_neg.mp hdvd)]

/-- The neighbour away from zero, where there is something to round. -/
theorem roundedTo_succ (hq : 0 < q) (h : 0 < a - a.tdiv q * q) :
    RoundedTo q a ((a.tdiv q + 1) * q) := by
  have hlt := Int.tmod_lt_of_pos a hq
  rw [← sub_truncation] at hlt
  have hpos : 0 < a := by
    by_contra hnot
    have hneg := Int.tmod_nonneg q (neg_nonneg.mpr (not_lt.mp hnot))
    rw [Int.neg_tmod, ← sub_truncation] at hneg
    linarith
  refine ⟨Int.dvd_mul_left _ _, ?_, .inr ?_, fun hdvd => ?_⟩
  · rw [abs_lt]
    constructor <;> linarith
  · rw [Int.sign_eq_one_of_pos hpos]
  · rw [Int.tdiv_mul_cancel hdvd, sub_self] at h
    exact absurd h (lt_irrefl 0)

theorem roundedTo_pred (hq : 0 < q) (h : 0 < -(a - a.tdiv q * q)) :
    RoundedTo q a ((a.tdiv q + -1) * q) := by
  have hsucc := (roundedTo_succ (a := -a) hq (by
    rw [Int.neg_tdiv]
    linarith)).neg
  rw [neg_neg, Int.neg_tdiv] at hsucc
  convert hsucc using 1
  ring

theorem sum_truncations (q : ℤ) (exactAmounts : List ℤ) :
    (exactAmounts.map fun a => a - a.tdiv q * q).sum =
      exactAmounts.sum - (exactAmounts.map fun a => a.tdiv q).sum * q := by
  induction exactAmounts with
  | nil => simp
  | cons a exactAmounts ih =>
    simp only [map_cons, sum_cons, ih]
    ring

/-- Dealing the difference from a target allocates the target, when all that are dealt to
have something to round. -/
theorem rounds_of_dealt {served : List ℕ} {f : ℤ → ℤ} {count : ℕ} {step target : ℤ}
    {dealt : List ℤ} (hq : 0 < q) (hf : f 0 = 0)
    (hstep : ∀ a, 0 < f a → RoundedTo q a ((a.tdiv q + step) * q))
    (hcount : count * step = target - (exactAmounts.map fun a => a.tdiv q).sum)
    (h : Dealt (exactAmounts.map fun a => a.tdiv q) (exactAmounts.map f) count false step served
      dealt) :
    (dealt.map (· * q)).sum = target * q ∧
      List.Forall₂ (RoundedTo q) exactAmounts (dealt.map (· * q)) := by
  have hlen : dealt.length = exactAmounts.length := by simpa using h.length
  refine ⟨?_, forall₂_iff_get.mpr ⟨by simp [hlen], fun i hi hi' => ?_⟩⟩
  · rw [sum_map_mul_right, map_id', h.sum, hcount, add_sub_cancel]
  · have hpart := h.part i (by simpa using hi)
    rw [getD_map_zero (Int.zero_tdiv q), getD_eq_getElem _ _ hi,
      getD_eq_getElem _ _ (hlen ▸ hi)] at hpart
    simp only [get_eq_getElem, getElem_map]
    rw [hpart]
    split_ifs with hserved
    · have hpos := h.positive i hserved
      rw [getD_map_zero hf, getD_eq_getElem _ _ hi] at hpos
      exact hstep _ hpos
    · exact roundedTo_truncation hq _

/-- The difference from the rounded total, in quanta, is that of the remainders up to half a
quantum. -/
theorem two_mul_abs_outstanding (hq : 0 < q) (exactAmounts : List ℤ) :
    |2 * (q * (roundDiv exactAmounts.sum q - (exactAmounts.map fun a => a.tdiv q).sum)) -
      2 * (exactAmounts.map fun a => a - a.tdiv q * q).sum| ≤ q := by
  have hround := HalfAway.two_mul_abs_round_sub_le hq exactAmounts.sum
  rw [← roundDiv_eq_round] at hround
  rw [sum_truncations]
  calc _ = |2 * (roundDiv exactAmounts.sum q * q - exactAmounts.sum)| := by
        congr 1
        ring
    _ = 2 * |roundDiv exactAmounts.sum q * q - exactAmounts.sum| := by
        rw [abs_mul, abs_two]
    _ ≤ q := hround

theorem allocatedQuanta_rounds (hq : 0 < q) (exactAmounts : List ℤ) :
    ((allocatedQuanta exactAmounts q).map (· * q)).sum = roundDiv exactAmounts.sum q * q ∧
      List.Forall₂ (RoundedTo q) exactAmounts ((allocatedQuanta exactAmounts q).map (· * q)) := by
  have hout := abs_le.mp (two_mul_abs_outstanding hq exactAmounts)
  have hmod : ∀ a, |a - a.tdiv q * q| < q := fun a => by
    rw [abs_sub_comm]
    exact (roundedTo_truncation hq a).near
  have hlen : ∀ f : ℤ → ℤ, (exactAmounts.map f).length =
      (exactAmounts.map fun a => a.tdiv q).length := fun f => by
    rw [length_map, length_map]
  unfold allocatedQuanta
  dsimp only
  split_ifs with hpos hneg
  · -- More units than the truncations hold: they go to the positive remainders.
    have hcount := Int.toNat_of_nonneg hpos.le
    obtain ⟨served, hdealt⟩ := exists_dealt (hlen _) (le_countP_pos hq
      (fun r hr => by
        obtain ⟨a, -, rfl⟩ := mem_map.mp hr
        exact lt_of_abs_lt (hmod a))
      (by
        rw [hcount]
        linarith [hout.2])) false 1
    exact rounds_of_dealt hq (by simp) (fun a ha => roundedTo_succ hq ha)
      (by rw [hcount, mul_one]) hdealt
  · -- Fewer: they are taken from the negative ones.
    have hminus : (exactAmounts.map fun a => -(a - a.tdiv q * q)).sum =
        -(exactAmounts.map fun a => a - a.tdiv q * q).sum := by
      rw [sum_neg, map_map]
      rfl
    have hcount := Int.toNat_of_nonneg (neg_pos.mpr hneg).le
    rw [map_map]
    obtain ⟨served, hdealt⟩ := exists_dealt (hlen _) (le_countP_pos hq
      (fun r hr => by
        obtain ⟨a, -, rfl⟩ := mem_map.mp hr
        exact neg_lt.mp (neg_lt_of_abs_lt (hmod a)))
      (by
        change 2 * _ ≤ 2 * (exactAmounts.map fun a => -(a - a.tdiv q * q)).sum + q
        rw [hcount, hminus]
        linarith [hout.1])) false (-1)
    refine rounds_of_dealt hq (by simp) (fun a ha => roundedTo_pred hq ha) ?_ hdealt
    rw [hcount]
    ring
  · have hexact : roundDiv exactAmounts.sum q = (exactAmounts.map fun a => a.tdiv q).sum := by
      omega
    refine ⟨?_, ?_⟩
    · rw [sum_map_mul_right, map_id', hexact]
    · rw [map_map, forall₂_map_right_iff]
      exact forall₂_same.mpr fun a _ => roundedTo_truncation hq a

/-- **An allocation adds up to the rounded total**, and each of its parts is its own amount
truncated, or the neighbour of that away from zero. -/
theorem allocateLargestRemainder_rounds (exactAmounts : List ℤ) {decimalPlaces : ℕ}
    (hplaces : decimalPlaces ≤ 4) :
    ∃ allocated, allocateLargestRemainder exactAmounts decimalPlaces = .ok allocated ∧
      allocated.length = exactAmounts.length ∧
      allocated.sum = roundMoney exactAmounts.sum decimalPlaces ∧
      List.Forall₂ (RoundedTo (quantum decimalPlaces)) exactAmounts allocated := by
  have hrefuse : refuseIf (4 < decimalPlaces)
      "decimalPlaces must be an integer from 0 through 4" = .ok () :=
    refuseIf_eq_ok.mpr (not_lt.mpr hplaces)
  rw [allocateLargestRemainder, hrefuse, ok_bind]
  split_ifs with hempty
  · subst hempty
    refine ⟨[], rfl, rfl, ?_, .nil⟩
    simp [roundMoney, roundDiv_eq_round, quantum_pos]
  · obtain ⟨hsum, hparts⟩ := allocatedQuanta_rounds (quantum_pos decimalPlaces) exactAmounts
    exact ⟨_, rfl, hparts.length_eq.symm, hsum, hparts⟩

theorem allocateLargestRemainder_rounds_to_cents :
    ∃ allocated, allocateLargestRemainder [50, -149, 50, 300] 2 = .ok allocated ∧
      allocated.length = 4 ∧ allocated.sum = roundMoney 251 2 ∧
      List.Forall₂ (RoundedTo (quantum 2)) [50, -149, 50, 300] allocated :=
  allocateLargestRemainder_rounds [50, -149, 50, 300] (by decide)

end RoundedTotals

end OpenBooks
