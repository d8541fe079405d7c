import OpenBooks.Equity.Convertibles
import OpenBooks.Lib.SelfShare

/-!
# The capitalization that post-money caps divide by

The capitalization is the pre-round count and, for every instrument, its amount over its price,
where the price of a post-money cap is the cap over the capitalization itself. Seen from an
instrument, its shares are the greater of what the fixed price gives and a share of the
capitalization, so this is a total in the sense of `SelfShare.Balances`; the passes of the code keep
the bound parts at their greater value (`Convertibles.yields_settle`), and the total they end with
balances.
-/

namespace OpenBooks.Convertibles

open Checked Equity SelfShare List

/-! ### What an instrument offers -/

/-- The values the terms of an instrument denote. -/
structure Offer where
  amount : ℚ
  discount : Option ℚ
  cap : Option ℚ
  postMoney : Bool

/-- The number a nullable text states. -/
def statedValue (label : EquityTerm) (maxScale : ℕ) (text : Option String) : Option ℚ :=
  match given text with
  | none => none
  | some text =>
    match decimalParts label maxScale text with
    | .ok (units, scale) => some (units / 10 ^ scale)
    | .error _ => none

def offerOf (instrument : ConvertingInstrument) : Offer where
  amount := instrument.amount.toRat
  discount := (statedValue .discountPercent PERCENT_SCALE instrument.terms.discountPercent).map
    (· / 100)
  cap :=
    match instrument.cap with
    | some cap => cap.map Rational.toRat
    | none => statedValue .valuationCap MONEY_SCALE instrument.terms.valuationCap
  postMoney := isPostMoney instrument.terms

namespace Offer

variable (o : Offer)

/-- The least of the round price and the discounted price. -/
def uncapped (r : ℚ) : ℚ :=
  match o.discount with
  | none => r
  | some d => min r (r * (1 - d))

/-- What the cap is divided by: the capitalization for a post-money SAFE, the
pre-round count for the others, unless it is zero. -/
def capPrice (preRound c : ℚ) : Option ℚ :=
  match o.cap with
  | none => none
  | some cap => if o.postMoney then some (cap / c) else
      if 0 < preRound then some (cap / preRound) else none

/-- The least of the round price, the discounted price and the price of the cap. -/
def price (r preRound c : ℚ) : ℚ :=
  match o.capPrice preRound c with
  | none => o.uncapped r
  | some capped => min (o.uncapped r) capped

/-- The part of the company a post-money cap promises. -/
def claim : ℚ :=
  match o.cap with
  | none => 0
  | some cap => if o.postMoney then o.amount / cap else 0

/-- The price without the cap of a post-money SAFE. -/
def fixedPrice (r preRound : ℚ) : ℚ :=
  match o.cap with
  | none => o.uncapped r
  | some cap => if o.postMoney ∨ preRound = 0 then o.uncapped r
      else min (o.uncapped r) (cap / preRound)

def shares (r preRound : ℚ) : ℚ := o.amount / o.fixedPrice r preRound

/-- Amounts and caps are positive, and discounts are less than the whole. -/
structure Sound : Prop where
  amount : 0 < o.amount
  cap : ∀ cap, o.cap = some cap → 0 < cap
  discount : ∀ d, o.discount = some d → 0 ≤ d ∧ d < 1

variable {o} {r r' n c : ℚ} (h : o.Sound)

include h

theorem Sound.uncapped_pos (hr : 0 < r) : 0 < o.uncapped r := by
  unfold uncapped
  cases hd : o.discount with
  | none => exact hr
  | some d => exact lt_min hr (mul_pos hr (sub_pos.mpr (h.discount d hd).2))

theorem Sound.uncapped_mono (hr : r ≤ r') : o.uncapped r ≤ o.uncapped r' := by
  unfold uncapped
  cases hd : o.discount with
  | none => exact hr
  | some d =>
    exact min_le_min hr (mul_le_mul_of_nonneg_right hr (sub_pos.mpr (h.discount d hd).2).le)

theorem Sound.fixedPrice_pos (hr : 0 < r) (hn : 0 ≤ n) : 0 < o.fixedPrice r n := by
  unfold fixedPrice
  cases hc : o.cap with
  | none => exact h.uncapped_pos hr
  | some cap =>
    dsimp only
    split_ifs with hfree
    · exact h.uncapped_pos hr
    · exact lt_min (h.uncapped_pos hr)
        (div_pos (h.cap cap hc) (lt_of_le_of_ne hn (Ne.symm (not_or.mp hfree).2)))

theorem Sound.shares_pos (hr : 0 < r) (hn : 0 ≤ n) : 0 < o.shares r n :=
  div_pos h.amount (h.fixedPrice_pos hr hn)

theorem Sound.shares_antitone (hr : 0 < r) (hn : 0 ≤ n) (hrr : r ≤ r') :
    o.shares r' n ≤ o.shares r n := by
  refine div_le_div_of_nonneg_left h.amount.le (h.fixedPrice_pos hr hn) ?_
  unfold fixedPrice
  cases o.cap with
  | none => exact h.uncapped_mono hrr
  | some cap =>
    dsimp only
    split_ifs
    · exact h.uncapped_mono hrr
    · exact min_le_min_right _ (h.uncapped_mono hrr)

theorem Sound.claim_nonneg : 0 ≤ o.claim := by
  unfold claim
  cases hc : o.cap with
  | none => exact le_rfl
  | some cap =>
    dsimp only
    split_ifs
    · exact div_nonneg h.amount.le (h.cap cap hc).le
    · exact le_rfl

/-- The cap of a post-money SAFE is at or below the price before it exactly when its
share of the capitalization is at least the shares at that price. -/
theorem Sound.capped_le_iff (hr : 0 < r) (hc : 0 < c) {cap : ℚ} (hcap : o.cap = some cap)
    (hpost : o.postMoney = true) : cap / c ≤ o.uncapped r ↔ o.shares r n ≤ o.claim * c := by
  have hu := h.uncapped_pos hr
  have hcap0 := h.cap cap hcap
  have ha := h.amount
  simp only [shares, fixedPrice, claim, hcap, hpost, true_or, if_true]
  rw [div_le_iff₀ hc, div_le_iff₀ hu, div_mul_eq_mul_div, div_mul_eq_mul_div, le_div_iff₀ hcap0,
    mul_assoc, mul_le_mul_iff_right₀ ha, mul_comm c]

theorem Sound.amount_div_price (hr : 0 < r) (hn : 0 ≤ n) (hc : 0 < c) :
    o.amount / o.price r n c = max (o.shares r n) (o.claim * c) := by
  have hu := h.uncapped_pos hr
  have hs := h.shares_pos hr hn
  cases hcap : o.cap with
  | none =>
    rw [max_eq_left (by simpa [claim, hcap] using hs.le)]
    simp [price, capPrice, shares, fixedPrice, hcap]
  | some cap =>
    have hcap0 := h.cap cap hcap
    cases hpost : o.postMoney with
    | false =>
      rw [max_eq_left (by simpa [claim, hcap, hpost] using hs.le)]
      rcases hn.eq_or_lt with rfl | hn
      · simp [price, capPrice, shares, fixedPrice, hcap, hpost]
      · simp [price, capPrice, shares, fixedPrice, hcap, hpost, hn, hn.ne']
    | true =>
      have hiff := h.capped_le_iff (n := n) hr hc hcap hpost
      have hshares : o.shares r n = o.amount / o.uncapped r := by
        simp [shares, fixedPrice, hcap, hpost]
      have hclaim : o.claim * c = o.amount / (cap / c) := by
        simp only [claim, hcap, hpost, if_true]
        rw [div_div_eq_mul_div, div_mul_eq_mul_div]
      have hprice : o.price r n c = min (o.uncapped r) (cap / c) := by
        simp [price, capPrice, hcap, hpost]
      rw [hprice]
      by_cases hle : cap / c ≤ o.uncapped r
      · rw [min_eq_right hle, max_eq_right (hiff.mp hle), hclaim]
      · rw [min_eq_left (lt_of_not_ge hle).le,
          max_eq_left (lt_of_not_ge fun hge => hle (hiff.mpr hge)).le, hshares]

end Offer

/-- A text that is given is a plain decimal of few enough places. -/
def Readable (label : EquityTerm) (maxScale : ℕ) (text : Option String) : Prop :=
  ∀ t, given text = some t → ∃ parts, decimalParts label maxScale t = .ok parts

/-- The terms are read, and are sound. -/
structure Valid (instrument : ConvertingInstrument) : Prop where
  sound : (offerOf instrument).Sound
  amount : 0 < instrument.amount.denominator
  restated : ∀ cap, instrument.cap = some (some cap) → 0 < cap.denominator
  cap : instrument.cap = none →
    Readable .valuationCap MONEY_SCALE instrument.terms.valuationCap
  discount : Readable .discountPercent PERCENT_SCALE instrument.terms.discountPercent

/-! ### The values the code computes -/

/-- Refused for the length of a fraction. -/
abbrev tooLong : ConvertError := .arithmetic .limit

theorem is_one : ONE.Is 1 := ⟨by decide, by norm_num [ONE, Rational.toRat]⟩

theorem is_zero : ZERO.Is 0 := ⟨by decide, by norm_num [ZERO, Rational.toRat]⟩

theorem yields_arithmetic {x : Except RationalError Rational} {q : ℚ} (h : Rational.Computes x q) :
    YieldsUnless tooLong (arithmetic x) (·.Is q) :=
  YieldsUnless.mapError (e := RationalError.limit) h ConvertError.arithmetic

variable {label : EquityTerm} {text : Option String}

theorem yields_parseDecimal {maxScale : ℕ} {t : String} (h : Readable label maxScale text)
    (ht : given text = some t) :
    ∃ q, statedValue label maxScale text = some q ∧
      YieldsUnless tooLong (parseDecimal label maxScale t) (·.Is q) := by
  obtain ⟨⟨units, scale⟩, hparts⟩ := h t ht
  refine ⟨units / 10 ^ scale, by simp only [statedValue, ht, hparts], ?_⟩
  rw [parseDecimal, hparts]
  refine yields_arithmetic ((computes_rational units (by positivity)).congr ?_)
  push_cast
  rfl

theorem statedValue_of_not_given {maxScale : ℕ} (h : given text = none) :
    statedValue label maxScale text = none := by
  simp only [statedValue, h]

section Instrument

variable {i : ConvertingInstrument} (hi : Valid i)
include hi

theorem yields_capOf :
    YieldsUnless tooLong (capOf i) fun cap => Option.Rel Rational.Is cap (offerOf i).cap := by
  unfold capOf offerOf
  cases hcap : i.cap with
  | some cap =>
    refine yields_ok ?_
    cases hc : cap with
    | none => exact .none
    | some c => exact .some ⟨hi.restated c (by rw [hcap, hc]), rfl⟩
  | none =>
    cases ht : given i.terms.valuationCap with
    | none =>
      simp only [statedValue_of_not_given ht]
      exact yields_ok .none
    | some t =>
      obtain ⟨q, hq, hparse⟩ := yields_parseDecimal (hi.cap hcap) ht
      simp only [hq]
      exact hparse.map fun r hr => .some hr

variable {roundPrice preRound : Rational} {r n : ℚ} (hr : roundPrice.Is r) (hn : preRound.Is n)
include hr

theorem yields_uncappedPrice :
    YieldsUnless tooLong (uncappedPrice i.terms roundPrice) (·.Is ((offerOf i).uncapped r)) := by
  unfold uncappedPrice discountedPrice
  cases ht : given i.terms.discountPercent with
  | none =>
    have hnone : (offerOf i).discount = none := by
      simp only [offerOf, statedValue_of_not_given ht, Option.map_none]
    simp only [Offer.uncapped, hnone]
    exact yields_pure hr
  | some t =>
    obtain ⟨q, hq, hparse⟩ := yields_parseDecimal hi.discount ht
    have hsome : (offerOf i).discount = some (q / 100) := by
      simp only [offerOf, hq, Option.map_some]
    have hhundred : Rational.Is ⟨100, 1⟩ 100 := ⟨by decide, by norm_num [Rational.toRat]⟩
    simp only [Offer.uncapped, hsome, bind_assoc, map_eq_pure_bind]
    refine (hparse.bind fun p hp => yields_arithmetic (computes_divide hp hhundred
      (by norm_num))).bind fun d hd => ?_
    refine (yields_arithmetic (computes_subtract is_one hd)).bind fun kept hkept => ?_
    refine (yields_arithmetic (computes_multiply hr hkept)).bind fun price hprice => ?_
    exact yields_pure (is_minRational hr hprice)

include hn

theorem yields_preRoundPrice : YieldsUnless tooLong (preRoundPrice i roundPrice preRound)
    (·.Is ((offerOf i).fixedPrice r n)) := by
  have hzero : preRound.numerator = 0 ↔ n = 0 := by
    rw [← hn.eq, Rational.toRat, div_eq_zero_iff, or_iff_left hn.cast_ne_zero, Int.cast_eq_zero]
  refine (yields_uncappedPrice hi hr).bind fun price hprice => ?_
  refine (yields_capOf hi).bind fun cap hcap => ?_
  unfold Offer.fixedPrice
  generalize (offerOf i).cap = c at hcap
  cases hcap with
  | none => exact yields_pure hprice
  | some hc =>
    dsimp only
    by_cases hfree : isPostMoney i.terms = true ∨ preRound.numerator = 0
    · rw [if_pos hfree, if_pos (show (offerOf i).postMoney = true ∨ n = 0 by rwa [← hzero])]
      exact yields_pure hprice
    · rw [if_neg hfree, if_neg (show ¬((offerOf i).postMoney = true ∨ n = 0) by rwa [← hzero])]
      refine YieldsUnless.map (yields_arithmetic (computes_divide hc hn ?_)) fun q hq =>
        is_minRational hprice hq
      exact fun h0 => hfree (.inr (hzero.mpr h0))

end Instrument

/-! ### The claim -/

theorem yields_sumRational {values : List Rational} {qs : List ℚ}
    (h : List.Forall₂ Rational.Is values qs) :
    YieldsUnless tooLong (sumRational values) (·.Is qs.sum) := by
  suffices hrun : ∀ (sum : Rational) (q : ℚ), sum.Is q → YieldsUnless tooLong
      (values.foldlM (fun sum value => arithmetic (addRational sum value)) sum)
      (·.Is (q + qs.sum)) by
    have h0 := hrun ZERO 0 is_zero
    rwa [zero_add] at h0
  induction h with
  | nil => exact fun sum q hq => yields_pure (by simpa using hq)
  | cons hv _ ih =>
    intro sum q hq
    rw [foldlM_cons, sum_cons, ← add_assoc]
    exact (yields_arithmetic (computes_add hq hv)).bind fun sum' hsum => ih sum' _ hsum

/-- The amount and the cap of a post-money SAFE, as their numbers. -/
def ClaimOf (i : ConvertingInstrument) : Option (Rational × Rational) → Prop
  | none => (offerOf i).claim = 0
  | some (amount, cap) => ∃ q, amount.Is (offerOf i).amount ∧ cap.Is q ∧ 0 < q ∧
      (offerOf i).claim = (offerOf i).amount / q

theorem yields_postMoneyClaim {instruments : List ConvertingInstrument}
    (hvalid : ∀ i ∈ instruments, Valid i) :
    YieldsUnless tooLong (postMoneyClaim instruments)
      (·.Is (instruments.map fun i => (offerOf i).claim).sum) := by
  refine (yields_mapM (R := ClaimOf) fun i hi => ?_).bind fun caps hcaps => ?_
  · have hv := hvalid i hi
    unfold postMoneyCap
    by_cases hpost : isPostMoney i.terms = true
    · rw [if_pos hpost]
      refine (yields_capOf hv).bind fun cap hcap => yields_pure ?_
      cases hc : (offerOf i).cap with
      | none =>
        rw [hc] at hcap
        cases hcap
        simp [ClaimOf, Offer.claim, hc]
      | some q =>
        rw [hc] at hcap
        cases hcap with
        | some hq =>
          have hpost' : (offerOf i).postMoney = true := hpost
          exact ⟨q, ⟨hv.amount, rfl⟩, hq, hv.sound.cap q hc, by simp [Offer.claim, hc, hpost']⟩
    · rw [if_neg hpost]
      have hpost' : (offerOf i).postMoney = false := Bool.eq_false_iff.mpr hpost
      refine yields_pure (show (offerOf i).claim = 0 from ?_)
      unfold Offer.claim
      cases (offerOf i).cap <;> simp [hpost']
  · -- the claims that are divided out, beside the claims of all the instruments
    have hclaims : YieldsUnless tooLong ((caps.filterMap id).mapM fun claim =>
        arithmetic (divideRational claim.1 claim.2)) fun claims => ∃ qs : List ℚ,
        Forall₂ Rational.Is claims qs ∧
          qs.sum = (instruments.map fun i => (offerOf i).claim).sum := by
      clear hvalid
      induction hcaps with
      | nil => exact yields_pure ⟨[], .nil, rfl⟩
      | @cons i cap _ caps hcap _ ih =>
        cases cap with
        | none =>
          have hzero : (offerOf i).claim = 0 := hcap
          rw [map_cons, sum_cons, hzero, zero_add]
          exact ih
        | some pair =>
          obtain ⟨q, ha, hc, hpos, heq⟩ := hcap
          have hcons : (some pair :: caps).filterMap id = pair :: caps.filterMap id := rfl
          rw [hcons, mapM_cons]
          refine (yields_arithmetic (computes_divide ha hc hpos.ne')).bind fun claim hclaim => ?_
          refine ih.bind fun claims hq => ?_
          obtain ⟨qs, hqs, hsum⟩ := hq
          refine yields_pure ⟨_ :: qs, .cons hclaim hqs, ?_⟩
          rw [sum_cons, map_cons, sum_cons, hsum, heq]
    refine hclaims.bind fun claims hq => ?_
    obtain ⟨qs, hqs, hsum⟩ := hq
    rw [← hsum]
    exact yields_sumRational hqs

/-! ### One pass -/

/-- The caps that are taken for shares of the capitalization. -/
def bound (binding : List String) (i : ConvertingInstrument) : Bool :=
  isPostMoney i.terms && decide (i.terms.id ∈ binding) && (offerOf i).cap.isSome

section Pass

variable {instruments : List ConvertingInstrument} (hvalid : ∀ i ∈ instruments, Valid i)
  {roundPrice preRound : Rational} {r n : ℚ} (hr : roundPrice.Is r) (hrpos : 0 < r)
include hvalid hr hrpos

theorem yields_countInstruments (hn : preRound.Is n) (hn0 : 0 ≤ n) (binding : List String) :
    YieldsUnless tooLong
      (instruments.foldlM (countInstrument roundPrice preRound binding) (ZERO, ZERO))
      fun sums =>
        sums.1.Is (fixedSum instruments (fun i => (offerOf i).shares r n) (bound binding)) ∧
        sums.2.Is (boundSum instruments (fun i => (offerOf i).claim) (bound binding)) := by
  refine yields_foldlM (P := fun done (sums : Rational × Rational) =>
    sums.1.Is (fixedSum done (fun i => (offerOf i).shares r n) (bound binding)) ∧
    sums.2.Is (boundSum done (fun i => (offerOf i).claim) (bound binding)))
    (fun done i rest hall sums hsums => ?_) ⟨is_zero, is_zero⟩
  have hi := hvalid i (by simp [hall])
  simp only [fixedSum_concat, boundSum_concat]
  refine (yields_capOf hi).bind fun cap hcap => ?_
  have hamount : i.amount.Is (offerOf i).amount := ⟨hi.amount, rfl⟩
  have hfree : bound binding i = false → YieldsUnless tooLong (do
      let price ← preRoundPrice i roundPrice preRound
      let shares ← arithmetic (divideRational i.amount price)
      let fixed ← arithmetic (addRational sums.1 shares)
      pure (fixed, sums.2)) fun sums' =>
        sums'.1.Is (fixedSum done (fun i => (offerOf i).shares r n) (bound binding) +
          if bound binding i then 0 else (offerOf i).shares r n) ∧
        sums'.2.Is (boundSum done (fun i => (offerOf i).claim) (bound binding) +
          if bound binding i then (offerOf i).claim else 0) := by
    intro hb
    refine (yields_preRoundPrice hi hr hn).bind fun price hprice => ?_
    refine (yields_arithmetic (computes_divide hamount hprice
      (hi.sound.fixedPrice_pos hrpos hn0).ne')).bind fun shares hshares => ?_
    refine (yields_arithmetic (computes_add hsums.1 hshares)).bind fun fixed hfixed => ?_
    refine yields_pure ⟨?_, ?_⟩
    · rwa [hb, if_neg Bool.false_ne_true]
    · rw [hb, if_neg Bool.false_ne_true, add_zero]
      exact hsums.2
  by_cases hin : isPostMoney i.terms = true ∧ i.terms.id ∈ binding
  · rw [if_pos hin]
    cases hc : (offerOf i).cap with
    | none =>
      rw [hc] at hcap
      cases hcap
      exact hfree (by simp [bound, hc])
    | some q =>
      rw [hc] at hcap
      have hb : bound binding i = true := by simp [bound, hc, hin]
      have hpost : (offerOf i).postMoney = true := hin.1
      cases hcap with
      | some hq =>
        refine (yields_arithmetic (computes_divide hamount hq (hi.sound.cap q hc).ne')).bind
          fun claim hclaim => ?_
        refine (yields_arithmetic (computes_add hsums.2 hclaim)).bind fun total htotal => ?_
        have hclaim' : (offerOf i).claim = (offerOf i).amount / q := by
          simp [Offer.claim, hc, hpost]
        refine yields_pure ⟨?_, ?_⟩
        · rw [if_pos hb, add_zero]
          exact hsums.1
        · rwa [if_pos hb, hclaim']
  · rw [if_neg hin]
    exact hfree (by
      simp only [bound, Bool.and_eq_false_iff, decide_eq_false_iff_not]
      left
      by_contra hcon
      push Not at hcon
      exact hin ⟨by simpa using hcon.1, hcon.2⟩)

/-- The cap binds at the capitalization `c`. -/
def Binds (r c : ℚ) (i : ConvertingInstrument) : Prop :=
  isPostMoney i.terms = true ∧ ∃ cap, (offerOf i).cap = some cap ∧ cap / c ≤ (offerOf i).uncapped r

/-- The set after a pass: the caps that bind are added, and it grew if there were any. -/
structure Grown (binding : List String) (news : List ConvertingInstrument)
    (state : List String × Bool) : Prop where
  mem : ∀ id, id ∈ state.1 ↔ id ∈ binding ∨ ∃ i ∈ news, i.terms.id = id
  grew : state.2 = true ↔ news ≠ []

omit hrpos in
theorem yields_bindInstruments (hids : (instruments.map (·.terms.id)).Nodup)
    {capitalization : Rational} {c : ℚ} (hc : capitalization.Is c)
    (hc0 : instruments ≠ [] → c ≠ 0) (binding : List String) :
    YieldsUnless tooLong
      (instruments.foldlM (bindInstrument roundPrice capitalization) (binding, false))
      (fun state => ∃ news, Grown binding news state ∧ ∀ i, i ∈ news ↔
        i ∈ instruments ∧ i.terms.id ∉ binding ∧ Binds r c i) := by
  refine yields_foldlM (P := fun done (state : List String × Bool) =>
    ∃ news, Grown binding news state ∧ ∀ i, i ∈ news ↔
      i ∈ done ∧ i.terms.id ∉ binding ∧ Binds r c i)
    (fun done i rest hall state hstate => ?_)
    ⟨[], ⟨fun id => by simp, by simp⟩, by simp⟩
  have hi := hvalid i (by simp [hall])
  obtain ⟨news, hgrown, hnews⟩ := hstate
  -- the ids are distinct, so what was added so far is not this instrument
  have hsame : i.terms.id ∈ state.1 ↔ i.terms.id ∈ binding := by
    rw [hgrown.mem, or_iff_left]
    rintro ⟨j, hj, heq⟩
    rw [hall, map_append, map_cons] at hids
    exact (nodup_append.mp hids).2.2 j.terms.id
      (mem_map_of_mem ((hnews j).mp hj).1) i.terms.id (by simp) heq
  have hkeep : ¬(i.terms.id ∉ binding ∧ Binds r c i) → YieldsUnless tooLong
      (pure state : Except ConvertError (List String × Bool)) fun state =>
        ∃ news, Grown binding news state ∧ ∀ j, j ∈ news ↔
          j ∈ done ++ [i] ∧ j.terms.id ∉ binding ∧ Binds r c j := fun hno =>
    yields_pure ⟨news, hgrown, fun j => by
      rw [hnews j, mem_append, mem_singleton]
      constructor
      · exact fun h => ⟨.inl h.1, h.2⟩
      · rintro ⟨hj | rfl, h⟩
        · exact ⟨hj, h⟩
        · exact absurd h hno⟩
  refine (yields_capOf hi).bind fun cap hcap => ?_
  by_cases hin : isPostMoney i.terms = true ∧ i.terms.id ∉ state.1
  · rw [if_pos hin]
    cases hq : (offerOf i).cap with
    | none =>
      rw [hq] at hcap
      cases hcap
      exact hkeep fun h => by
        obtain ⟨-, -, q, hq', -⟩ := h
        rw [hq] at hq'
        cases hq'
    | some q =>
      rw [hq] at hcap
      cases hcap with
      | some hcapq =>
        refine (yields_arithmetic (computes_divide hcapq hc (hc0 (by simp [hall])))).bind
          fun capPrice hcapPrice => ?_
        refine (yields_uncappedPrice hi hr).bind fun price hprice => ?_
        by_cases hle : compareRational capPrice price ≤ 0
        · rw [if_pos hle]
          have hbinds : i.terms.id ∉ binding ∧ Binds r c i :=
            ⟨fun h => hin.2 (hsame.mpr h), hin.1, q, hq,
              (compareRational_nonpos_iff hcapPrice hprice).mp hle⟩
          refine yields_pure ⟨i :: news, ⟨fun id => ?_, by simp⟩, fun j => ?_⟩
          · rw [mem_cons, hgrown.mem]
            simp only [mem_cons, exists_eq_or_imp]
            tauto
          · rw [mem_cons, hnews j, mem_append, mem_singleton]
            constructor
            · rintro (rfl | h)
              · exact ⟨.inr rfl, hbinds⟩
              · exact ⟨.inl h.1, h.2⟩
            · rintro ⟨hj | rfl, h⟩
              · exact .inr ⟨hj, h⟩
              · exact .inl rfl
        · rw [if_neg hle]
          refine hkeep fun h => hle ?_
          obtain ⟨-, -, q', hq', hlow⟩ := h
          obtain rfl : q = q' := by
            rw [hq] at hq'
            exact Option.some.inj hq'
          exact (compareRational_nonpos_iff hcapPrice hprice).mpr hlow
  · rw [if_neg hin]
    exact hkeep fun h => hin ⟨h.2.1, fun hmem => h.1 (hsame.mp hmem)⟩

end Pass

/-! ### The passes -/

/-- The shares an instrument gets at its fixed price, and the shares of the total it claims. -/
abbrev sharesOf (r n : ℚ) (i : ConvertingInstrument) : ℚ := (offerOf i).shares r n

abbrev claimOf (i : ConvertingInstrument) : ℚ := (offerOf i).claim

/-- The capitalization when the caps of `binding` bind. -/
def capitalAt (instruments : List ConvertingInstrument) (r n : ℚ) (binding : List String) : ℚ :=
  (n + fixedSum instruments (sharesOf r n) (bound binding)) /
    (1 - boundSum instruments claimOf (bound binding))

theorem Binds.shares_le {r n c : ℚ} {i : ConvertingInstrument} (h : Binds r c i)
    (hs : (offerOf i).Sound) (hr : 0 < r) (hc : 0 < c) : sharesOf r n i ≤ claimOf i * c := by
  obtain ⟨hpost, cap, hcap, hle⟩ := h
  exact (hs.capped_le_iff hr hc hcap hpost).mp hle

/-- A cap that is not counted for a share of the total and does not bind claims less
than its shares. -/
theorem claim_le_of_not_binds {r n c : ℚ} {i : ConvertingInstrument} {binding : List String}
    (hs : (offerOf i).Sound) (hr : 0 < r) (hn : 0 ≤ n) (hc : 0 < c)
    (hfree : ¬bound binding i = true) (hno : ¬(i.terms.id ∉ binding ∧ Binds r c i)) :
    claimOf i * c ≤ sharesOf r n i := by
  have hzero : (offerOf i).claim = 0 → claimOf i * c ≤ sharesOf r n i := fun h0 => by
    rw [claimOf, h0, zero_mul]
    exact (hs.shares_pos hr hn).le
  cases hcap : (offerOf i).cap with
  | none => exact hzero (by simp [Offer.claim, hcap])
  | some cap =>
    by_cases hpost : isPostMoney i.terms = true
    · have hid : i.terms.id ∉ binding := fun h => hfree (by simp [bound, hpost, h, hcap])
      have hlt : ¬cap / c ≤ (offerOf i).uncapped r := fun h => hno ⟨hid, hpost, cap, hcap, h⟩
      exact (lt_of_not_ge fun h => hlt ((hs.capped_le_iff hr hc hcap hpost).mpr h)).le
    · have hpost' : (offerOf i).postMoney = false := Bool.eq_false_iff.mpr hpost
      exact hzero (by simp [Offer.claim, hcap, hpost'])

section Solve

variable {instruments : List ConvertingInstrument} (hvalid : ∀ i ∈ instruments, Valid i)
  (hids : (instruments.map (·.terms.id)).Nodup) (hclaim : (instruments.map claimOf).sum < 1)
  {roundPrice preRound : Rational} {r n : ℚ} (hr : roundPrice.Is r) (hrpos : 0 < r)
  (hn : preRound.Is n) (hn0 : 0 ≤ n)
include hvalid hids hclaim hr hrpos hn hn0

/-- **The passes end with a capitalization that balances.** A pass that adds a cap
leaves one instrument fewer outside the binding set and a greater capitalization,
so the caps that were taken for shares stay the greater part. -/
theorem yields_settle (passes : ℕ) (binding : List String)
    (hpasses : (instruments.filter fun i => i.terms.id ∉ binding).length < passes)
    (hpos : instruments ≠ [] → 0 < capitalAt instruments r n binding)
    (hbound : ∀ i ∈ instruments, bound binding i = true →
      sharesOf r n i ≤ claimOf i * capitalAt instruments r n binding) :
    YieldsUnless tooLong (settle instruments roundPrice preRound passes binding) fun C =>
      ∃ c, C.Is c ∧ (instruments ≠ [] → 0 < c) ∧
        Balances n instruments (sharesOf r n) claimOf c := by
  have hk : ∀ i ∈ instruments, 0 ≤ claimOf i := fun i hi => (hvalid i hi).sound.claim_nonneg
  have hlt := boundSum_lt_one hk hclaim
  induction passes generalizing binding with
  | zero => omega
  | succ passes ih =>
    refine (yields_countInstruments hvalid hr hrpos hn hn0 binding).bind fun sums hsums => ?_
    refine (yields_arithmetic (computes_add hn hsums.1)).bind fun total htotal => ?_
    refine (yields_arithmetic (computes_subtract is_one hsums.2)).bind fun rest hrest => ?_
    refine (yields_arithmetic (computes_divide htotal hrest
      (sub_pos.mpr (hlt (bound binding))).ne')).bind fun capitalization hcap => ?_
    change capitalization.Is (capitalAt instruments r n binding) at hcap
    set c := capitalAt instruments r n binding with hc
    have hsolves : Solves n instruments (sharesOf r n) claimOf (bound binding) c := rfl
    refine (yields_bindInstruments hvalid hr hids hcap (fun h => (hpos h).ne') binding).bind
      fun state hstate => ?_
    obtain ⟨news, hgrown, hnews⟩ := hstate
    dsimp only
    by_cases hgrew : state.2 = true
    · rw [if_pos hgrew]
      obtain ⟨i, hinew⟩ := exists_mem_of_ne_nil _ (hgrown.grew.mp hgrew)
      obtain ⟨hi, hnot, -⟩ := (hnews i).mp hinew
      have hc0 : 0 < c := hpos (ne_nil_of_mem hi)
      -- a bound cap was bound before, or binds now
      have hshares : ∀ j ∈ instruments, bound state.1 j = true →
          sharesOf r n j ≤ claimOf j * c := by
        intro j hj hb
        simp only [bound, Bool.and_eq_true, decide_eq_true_eq] at hb
        rcases (hgrown.mem _).mp hb.1.2 with hold | ⟨j', hj', heq⟩
        · exact hbound j hj (by simp [bound, hb.1.1, hold, hb.2])
        · obtain ⟨hmem, -, hbinds⟩ := (hnews j').mp hj'
          obtain rfl : j' = j := inj_on_of_nodup_map hids hmem hj heq
          exact hbinds.shares_le (hvalid j' hj).sound hrpos hc0
      have hle : c ≤ capitalAt instruments r n state.1 := by
        refine hsolves.le (p := n) (s := sharesOf r n) (k := claimOf) rfl (hlt _) (hlt _)
          (fun j _ hb => ?_) hshares
        simp only [bound, Bool.and_eq_true, decide_eq_true_eq] at hb ⊢
        exact ⟨⟨hb.1.1, (hgrown.mem _).mpr (.inl hb.1.2)⟩, hb.2⟩
      refine ih state.1 ?_ (fun _ => hc0.trans_le hle) fun j hj hb =>
        (hshares j hj hb).trans (mul_le_mul_of_nonneg_left hle (hk j hj))
      have hfilter : (instruments.filter fun j => j.terms.id ∉ state.1) =
          (instruments.filter fun j => j.terms.id ∉ binding).filter
            fun j => j.terms.id ∉ state.1 := by
        rw [filter_filter]
        refine filter_congr fun j _ => ?_
        have := (hgrown.mem j.terms.id).mpr
        by_cases h : j.terms.id ∈ state.1 <;> simp_all
      have hfewer : (instruments.filter fun j => j.terms.id ∉ state.1).length <
          (instruments.filter fun j => j.terms.id ∉ binding).length := by
        rw [hfilter, length_filter_lt_length_iff_exists]
        refine ⟨i, mem_filter.mpr ⟨hi, by simpa using hnot⟩, ?_⟩
        simpa using (hgrown.mem _).mpr (.inr ⟨i, hinew, rfl⟩)
      omega
    · rw [if_neg hgrew]
      have hnone : news = [] := by
        by_contra h
        exact hgrew (hgrown.grew.mpr h)
      refine yields_pure ⟨c, hcap, hpos, hsolves.balances (hlt _) hbound fun i hi hfree => ?_⟩
      refine claim_le_of_not_binds (hvalid i hi).sound hrpos hn0 (hpos (ne_nil_of_mem hi))
        hfree fun h => ?_
      have := (hnews i).mpr ⟨hi, h⟩
      simp [hnone] at this

end Solve

/-! ### The capitalization -/

/-- The capitalization is the pre-round count and every amount over its price. -/
def Converts (instruments : List ConvertingInstrument) (r n c : ℚ) : Prop :=
  c = n + (instruments.map fun i => (offerOf i).amount / (offerOf i).price r n c).sum

/-- What a priced round and its instruments satisfy. -/
structure Round (instruments : List ConvertingInstrument) (roundPrice : Rational) (r : ℚ) (n : ℤ) :
    Prop where
  ids : (instruments.map (·.terms.id)).Nodup
  valid : ∀ i ∈ instruments, Valid i
  claim : (instruments.map claimOf).sum < 95 / 100
  price : roundPrice.Is r
  pos : 0 < r
  count : 0 ≤ n

section Round

variable {instruments : List ConvertingInstrument} {roundPrice : Rational} {r c : ℚ} {n : ℤ}
  (h : Round instruments roundPrice r n)
include h

theorem Round.claim_lt_one : (instruments.map claimOf).sum < 1 :=
  lt_trans h.claim (by norm_num)

theorem Round.claim_nonneg : ∀ i ∈ instruments, 0 ≤ claimOf i :=
  fun i hi => (h.valid i hi).sound.claim_nonneg

theorem Round.converts_iff (hc : instruments ≠ [] → 0 < c) :
    Converts instruments r n c ↔ Balances (n : ℚ) instruments (sharesOf r n) claimOf c := by
  have hmap : (instruments.map fun i => (offerOf i).amount / (offerOf i).price r n c) =
      instruments.map fun i => max (sharesOf r n i) (claimOf i * c) :=
    map_congr_left fun i hi => (h.valid i hi).sound.amount_div_price h.pos
      (by exact_mod_cast h.count) (hc (ne_nil_of_mem hi))
  rw [Converts, Balances, drawn, hmap]

theorem Round.yields : YieldsUnless tooLong (companyCapitalization instruments roundPrice n)
    fun C => ∃ c, C.Is c ∧ (instruments ≠ [] → 0 < c) ∧
      Balances (n : ℚ) instruments (sharesOf r n) claimOf c := by
  have hn0 : (0 : ℚ) ≤ n := by exact_mod_cast h.count
  refine (yields_postMoneyClaim h.valid).bind fun claim hclaim => ?_
  have hmax : Rational.Is MAX_POST_MONEY_CLAIM (95 / 100) :=
    ⟨by decide, by norm_num [MAX_POST_MONEY_CLAIM, Rational.toRat]⟩
  have hunder : ¬0 ≤ compareRational claim MAX_POST_MONEY_CLAIM := by
    rw [not_le, compareRational_eq hclaim.pos hmax.pos, hclaim.eq, hmax.eq, if_pos h.claim]
    decide
  rw [if_neg hunder]
  refine (yields_arithmetic (computes_whole n)).bind fun preRound hpre => ?_
  have hfree : bound [] = fun _ => false := by
    funext i
    simp [bound]
  refine yields_settle h.valid h.ids h.claim_lt_one h.price h.pos hpre hn0 _ [] ?_ (fun hne => ?_)
    fun i _ hb => by simp [hfree] at hb
  · exact (length_filter_le _ _).trans_lt (by omega)
  · obtain ⟨i, rest, rfl⟩ := exists_cons_of_ne_nil hne
    have hshares : ∀ j ∈ i :: rest, 0 < sharesOf r n j := fun j hj =>
      (h.valid j hj).sound.shares_pos h.pos hn0
    have hrest : 0 ≤ (rest.map (sharesOf r n)).sum := List.sum_nonneg fun q hq => by
      obtain ⟨j, hj, rfl⟩ := mem_map.mp hq
      exact (hshares j (mem_cons_of_mem _ hj)).le
    have hfirst := hshares i (by simp)
    simp only [capitalAt, fixedSum, boundSum, hfree, Bool.false_eq_true, if_false, map_cons,
      sum_cons, map_const', sum_replicate, nsmul_zero, add_zero, sub_zero, div_one]
    linarith

theorem Round.balances {C : Rational} (hC : companyCapitalization instruments roundPrice n = .ok C)
    (hc : C.Is c) : Balances (n : ℚ) instruments (sharesOf r n) claimOf c := by
  rcases h.yields with herror | ⟨C', hC', c', hc', -, hbalances⟩
  · rw [hC] at herror
    cases herror
  · obtain rfl : C = C' := Except.ok.inj (hC.symm.trans hC')
    rwa [← hc.eq, hc'.eq]

end Round

/-- **The company capitalization is the one exact fixed point.** Unless a fraction is
too long it is returned, never refused as unsettled; it is the only total of the
pre-round count and the shares at its own prices, whatever the order of the
instruments; and a greater round price never raises it. -/
theorem companyCapitalization_exact {instruments : List ConvertingInstrument}
    {roundPrice : Rational} {r : ℚ} {n : ℤ} (h : Round instruments roundPrice r n) :
    companyCapitalization instruments roundPrice n = .error (.arithmetic .limit) ∨
    ∃ C c, companyCapitalization instruments roundPrice n = .ok C ∧ C.Is c ∧
      Converts instruments r n c ∧
      (∀ c', (instruments ≠ [] → 0 < c') → Converts instruments r n c' → c' = c) ∧
      (∀ instruments' C' c', instruments.Perm instruments' →
        companyCapitalization instruments' roundPrice n = .ok C' → C'.Is c' → c' = c) ∧
      (∀ roundPrice' r' C' c', roundPrice'.Is r' → r ≤ r' →
        companyCapitalization instruments roundPrice' n = .ok C' → C'.Is c' → c' ≤ c) := by
  refine h.yields.imp_right fun ⟨C, hC, c, hc, hpos, hbalances⟩ =>
    ⟨C, c, hC, hc, (h.converts_iff hpos).mpr hbalances, fun c' hpos' hconverts => ?_,
      fun instruments' C' c' hperm hC' hc' => ?_, fun roundPrice' r' C' c' hr' hle hC' hc' => ?_⟩
  · exact hbalances.unique ((h.converts_iff hpos').mp hconverts) h.claim_nonneg h.claim_lt_one
  · have h' : Round instruments' roundPrice r n :=
      { ids := (hperm.map _).nodup_iff.mp h.ids
        valid := fun i hi => h.valid i (hperm.mem_iff.mpr hi)
        claim := (hperm.map claimOf).sum_eq ▸ h.claim
        price := h.price
        pos := h.pos
        count := h.count }
    exact hbalances.unique ((h'.balances hC' hc').perm hperm.symm) h.claim_nonneg h.claim_lt_one
  · have h' : Round instruments roundPrice' r' n :=
      { h with price := hr', pos := h.pos.trans_le hle }
    exact hbalances.antitone (h'.balances hC' hc')
      (fun i hi => (h.valid i hi).sound.shares_antitone h.pos (by exact_mod_cast h.count) hle)
      h.claim_nonneg h.claim_lt_one

/-- A post-money SAFE of a million at a cap of two millions. -/
def cappedSafe : ConvertingInstrument where
  terms := ⟨"safe", .safe, some .postMoney, some "2000000", none⟩
  amount := ⟨1000000, 1⟩
  cap := some (some ⟨2000000, 1⟩)

theorem round_cappedSafe : Round [cappedSafe] ⟨2, 1⟩ 2 1000000 where
  ids := by simp
  valid := by
    simp only [mem_singleton, forall_eq]
    have hcap : (offerOf cappedSafe).cap = some 2000000 := by
      norm_num [offerOf, cappedSafe, Rational.toRat]
    exact
      { sound :=
          { amount := by norm_num [offerOf, cappedSafe, Rational.toRat]
            cap := fun cap h => by
              rw [hcap] at h
              rw [← Option.some.inj h]
              norm_num
            discount := fun d h => by
              have hnone : (offerOf cappedSafe).discount = none := rfl
              rw [hnone] at h
              cases h }
        amount := by decide
        restated := fun cap h => by
          obtain rfl : (⟨2000000, 1⟩ : Rational) = cap := Option.some.inj (Option.some.inj h)
          decide
        cap := fun h => by cases h
        discount := fun t h => by cases h }
  claim := by
    norm_num [claimOf, Offer.claim, offerOf, cappedSafe, isPostMoney, Rational.toRat]
  price := ⟨by decide, by norm_num [Rational.toRat]⟩
  pos := by norm_num
  count := by norm_num

/-- The cap binds: the SAFE gets half of two million shares. -/
theorem companyCapitalization_cappedSafe :
    ∃ C c, companyCapitalization [cappedSafe] ⟨2, 1⟩ 1000000 = .ok C ∧ C.Is c ∧
      Converts [cappedSafe] 2 (1000000 : ℤ) c := by
  rcases companyCapitalization_exact round_cappedSafe with hlimit | ⟨C, c, hC, hc, hconverts, -⟩
  · have hok : companyCapitalization [cappedSafe] ⟨2, 1⟩ 1000000 = .ok ⟨2000000, 1⟩ := by
      decide +kernel
    rw [hok] at hlimit
    cases hlimit
  · exact ⟨C, c, hC, hc, hconverts⟩

/-- A count of 257 digits is no fraction, and the capitalization is refused. -/
theorem companyCapitalization_tooLong :
    Round [] ⟨1, 1⟩ 1 (10 ^ 256) ∧
      companyCapitalization [] ⟨1, 1⟩ (10 ^ 256) = .error (.arithmetic .limit) := by
  refine ⟨⟨by simp, by simp, by norm_num, ⟨by decide, by norm_num [Rational.toRat]⟩, one_pos,
    by positivity⟩, ?_⟩
  have hlong : rational (10 ^ 256) 1 = .error .limit := by
    rw [rational_eq]
    norm_num
  have hempty : ∀ n : ℤ, companyCapitalization [] ⟨1, 1⟩ n =
      (arithmetic (rational n 1) >>= fun preRound => settle [] ⟨1, 1⟩ preRound 2 []) := fun n => rfl
  rw [hempty, hlong]
  rfl

end OpenBooks.Convertibles
