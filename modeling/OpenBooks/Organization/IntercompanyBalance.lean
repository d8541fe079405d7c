import OpenBooks.Organization.FxRounding
import Mathlib.Data.Nat.Digits.Defs

/-!
# When the intercompany legs balance a document

After absorption a subsidiary has a functional total and a transaction total, and the two need not
vanish together: rounding can bring a functional total to zero, or past it, while the transaction
total stays. `Representable` says which counter-subsidiaries the balancing can serve – one with no
functional total needs no transaction total either, and one with a functional total needs a positive
rate that stands for the two totals.

That is exactly when the whole document balances (`intercompany_balances_iff`): if every
counter-subsidiary is representable the legs are built, the rounding at the origin is within its
bound, and both sums vanish in every subsidiary; if one is not, the document is refused or the
subsidiary is left with its transaction total.
-/

namespace OpenBooks

open Checked ListSum List FirstSeen

/-! ### The request -/

/-- A translated document, balanced in its transaction currency, with the request to
balance it between subsidiaries. -/
structure MultiEntityDocument (r : IntercompanyRequest) (rate : String → ℤ) (currency : String)
    (lines : List SubLine) : Prop extends TranslatedLines rate currency lines where
  txn_sum : (lines.map SubLine.transactional).sum = 0
  currency_ne : currency ≠ ""
  balanceCurrency_eq : ∀ c ∈ r.balanceCurrency, c = currency
  originFxRate_eq : r.originFxRate = rate r.originSubId
  originFxRate_pos : 0 < r.originFxRate
  pairs : ∀ l ∈ lines, l.subsidiaryId ≠ r.originSubId → (r.pairWith l.subsidiaryId).isSome

/-! ### Rates -/

/-- The rate two totals have, in ten-billionths. -/
def aggregateRateUnits (functional transaction : ℤ) : ℤ :=
  roundDiv (|functional| * RATE_SCALE) |transaction|

/-- A positive rate of at most nine whole digits stands for two totals: the given one, or
one from the totals. -/
def RateRepresentable (functional transaction rate : ℤ) : Prop :=
  mulRate transaction rate = functional ∨
    (transaction ≠ 0 ∧ (functional < 0 ↔ transaction < 0) ∧
      0 < aggregateRateUnits functional transaction ∧
      aggregateRateUnits functional transaction / RATE_SCALE < 1000000000)

variable {functional transaction : ℤ}

theorem aggregateFxRate_isOk_iff :
    (∃ q, aggregateFxRate functional transaction = .ok q) ↔
      transaction ≠ 0 ∧ (functional < 0 ↔ transaction < 0) ∧
        0 < aggregateRateUnits functional transaction ∧
        aggregateRateUnits functional transaction / RATE_SCALE < 1000000000 := by
  have hdigits : ∀ n : ℕ, (Nat.toDigits 10 n).length ≤ 9 ↔ n < 1000000000 := fun n =>
    Nat.length_toDigits_le_iff (by decide) (by decide)
  simp only [aggregateFxRate, bind_eq_ok, refuseIf_eq_ok, pure_eq_ok, not_not, not_le, not_lt,
    hdigits]
  change (∃ q, ∃ _ : Unit, _ ∧ ∃ _ : Unit, _ ∧ ∃ _ : Unit, 0 < aggregateRateUnits _ _ ∧ ∃ _ : Unit,
    (aggregateRateUnits _ _ / RATE_SCALE).toNat < _ ∧ _ = _) ↔ _
  constructor
  · rintro ⟨q, _, hT, _, hsign, _, hpos, _, hlt, -⟩
    exact ⟨hT, hsign, hpos, by omega⟩
  · rintro ⟨hT, hsign, hpos, hlt⟩
    exact ⟨_, (), hT, (), hsign, (), hpos, (), by omega, rfl⟩

theorem translate_of_pos {amount rate : ℤ} (h : 0 < rate) :
    translate amount rate = .ok (mulRate amount rate) := by
  refine bind_eq_ok.mpr ⟨(), refuseIf_eq_ok.mpr (by omega), rfl⟩

theorem eq_mulRate_of_translate {amount rate x : ℤ} (h : translate amount rate = .ok x) :
    x = mulRate amount rate := by
  simp only [translate, bind_eq_ok, pure_eq_ok] at h
  obtain ⟨_, -, rfl⟩ := h
  rfl

variable {r : IntercompanyRequest} {rate : String → ℤ} {currency : String} {lines : List SubLine}
  {s : String}

/-- The lines of a translated subsidiary agree on currency and rate, so a rate is found
exactly if the totals are representable. -/
theorem subsidiaryRate_isOk_iff (h : ∀ l ∈ lines, Translated rate currency l)
    (hne : linesOf s lines ≠ []) :
    (∃ q, subsidiaryRate (linesOf s lines) currency functional transaction = .ok q) ↔
      RateRepresentable functional transaction (rate s) := by
  obtain ⟨first, rest, hcons⟩ := exists_cons_of_ne_nil hne
  have hline : ∀ l ∈ linesOf s lines, l.currency = some currency ∧ l.fxRate = some (rate s) ∧
      0 < rate s := by
    intro l hl
    obtain ⟨hmem, hsub⟩ := mem_of_mem_linesOf hl
    have ht := h l hmem
    exact ⟨ht.currency_eq, hsub ▸ ht.fxRate_eq, hsub ▸ ht.rate_pos⟩
  obtain ⟨-, hrate, hpos⟩ := hline first (by simp [hcons])
  have hfirst : ((linesOf s lines).head?.bind SubLine.fxRate).getD RATE_SCALE = rate s := by
    simp [hcons, hrate]
  have hagree : (∀ l ∈ linesOf s lines, l.currency = some currency) ∧
      ∀ l ∈ linesOf s lines, l.fxRate.getD RATE_SCALE = rate s :=
    ⟨fun l hl => (hline l hl).1, fun l hl => by simp [(hline l hl).2.1]⟩
  rw [subsidiaryRate]
  simp only [hfirst]
  rw [if_pos hagree, translate_of_pos hpos, RateRepresentable, ← aggregateFxRate_isOk_iff]
  by_cases heq : mulRate transaction (rate s) = functional
  · simp [heq, bind, Except.bind, pure, Except.pure]
  · simp [heq, bind, Except.bind]

/-! ### The two legs of a subsidiary -/

/-- What the balancing depends on in the two legs of a subsidiary. -/
structure IsLegPair (r : IntercompanyRequest) (lines : List SubLine) (s : String)
    (own mirror : IntercompanyLeg) : Prop where
  own_sub : own.subsidiaryId = s
  own_amount : own.amount = -functionalTotal s lines
  own_txn : own.txnAmount = -transactionTotal s lines
  mirror_sub : mirror.subsidiaryId = r.originSubId
  mirror_amount : mirror.amount = mulRate (transactionTotal s lines) r.originFxRate
  mirror_txn : mirror.txnAmount = transactionTotal s lines
  mirror_rate : mirror.fxRate = r.originFxRate

variable {legs : List IntercompanyLeg}

theorem isLegPair_of_legPair (h : legPair r lines s = .ok legs) :
    ∃ own mirror, legs = [own, mirror] ∧ IsLegPair r lines s own mirror := by
  simp only [legPair, bind_eq_ok, pure_eq_ok] at h
  obtain ⟨pair, -, transactionCurrency, -, subFxRate, -, originAmount, horigin, rfl⟩ := h
  exact ⟨_, _, rfl, rfl, rfl, rfl, rfl, eq_mulRate_of_translate horigin, rfl, rfl⟩

/-- **A subsidiary's legs are built exactly if its totals are representable.** -/
theorem legPair_isOk_iff (h : ∀ l ∈ lines, Translated rate currency l)
    (hne : linesOf s lines ≠ []) (hcurrency : currency ≠ "")
    (hbalance : ∀ c ∈ r.balanceCurrency, c = currency) (hpos : 0 < r.originFxRate)
    (hpair : (r.pairWith s).isSome) :
    (∃ legs, legPair r lines s = .ok legs) ↔
      RateRepresentable (functionalTotal s lines) (transactionTotal s lines) (rate s) := by
  rw [← subsidiaryRate_isOk_iff h hne]
  have htext : truthy (r.balanceCurrency.or ((linesOf s lines).head?.bind SubLine.currency)) =
      some currency := by
    obtain ⟨first, rest, hcons⟩ := exists_cons_of_ne_nil hne
    have hmem : first ∈ linesOf s lines := by simp [hcons]
    have hfirst := (h first (mem_of_mem_linesOf hmem).1).currency_eq
    cases hb : r.balanceCurrency with
    | none => simp [hcons, hfirst, truthy, hcurrency]
    | some c => simp [hbalance c (by simp [hb]), truthy, hcurrency]
  obtain ⟨pair, hpair⟩ := Option.isSome_iff_exists.mp hpair
  constructor
  · rintro ⟨legs, hlegs⟩
    simp only [legPair, bind_eq_ok, orRefuse_eq_ok, pure_eq_ok] at hlegs
    obtain ⟨_, -, c, hc, q, hq, -⟩ := hlegs
    obtain rfl : currency = c := Option.some.inj (htext.symm.trans hc)
    exact ⟨q, hq⟩
  · rintro ⟨q, hq⟩
    exact ⟨_, bind_eq_ok.mpr ⟨pair, orRefuse_eq_ok.mpr hpair, bind_eq_ok.mpr ⟨currency,
      orRefuse_eq_ok.mpr htext, bind_eq_ok.mpr ⟨q, hq, bind_eq_ok.mpr ⟨_, translate_of_pos hpos,
        rfl⟩⟩⟩⟩⟩

/-! ### The legs together -/

/-- A sum over the legs of a subsidiary: its own leg, if it has one, and all the mirrors
when it is the origin. -/
theorem sum_legsOf {us : List String} {pairs : List (List IntercompanyLeg)}
    (h : List.Forall₂ (fun u legs => legPair r lines u = .ok legs) us pairs)
    (μ : IntercompanyLeg → ℤ) (own mirror : String → ℤ)
    (hμ : ∀ u a b, IsLegPair r lines u a b → μ a = own u ∧ μ b = mirror u) (s : String) :
    ((legsOf s pairs.flatten).map μ).sum =
      (us.map fun u => if u = s then own u else 0).sum +
        if r.originSubId = s then (us.map mirror).sum else 0 := by
  induction h with
  | nil => simp [legsOf]
  | @cons u legs us pairs hpair _ ih =>
    obtain ⟨a, b, rfl, hab⟩ := isLegPair_of_legPair hpair
    obtain ⟨ha, hb⟩ := hμ u a b hab
    have hsplit : ((legsOf s ([a, b] :: pairs).flatten).map μ).sum =
        (if u = s then own u else 0) + (if r.originSubId = s then mirror u else 0) +
          ((legsOf s pairs.flatten).map μ).sum := by
      by_cases hu : u = s <;> by_cases ho : r.originSubId = s <;>
        simp [legsOf, hab.own_sub, hab.mirror_sub, hu, ho, ha, hb, add_assoc]
    rw [hsplit, ih, map_cons, sum_cons, map_cons, sum_cons]
    split_ifs <;> ring

/-- The change at the last element that satisfies a predicate is a change at an index. -/
theorem exists_modifyLast_eq {p : IntercompanyLeg → Bool} (f : IntercompanyLeg → IntercompanyLeg)
    (h : legs.filter p ≠ []) :
    ∃ i x, legs[i]? = some x ∧ p x = true ∧ modifyLast p f legs = legs.modify i f := by
  induction legs with
  | nil => exact absurd rfl h
  | cons leg legs ih =>
    by_cases hrest : legs.filter p = []
    · have hleg : p leg = true := by
        by_contra hno
        exact h (by rw [filter_cons_of_neg hno, hrest])
      have hall : legs.all (fun l => !p l) = true := by
        simpa [filter_eq_nil_iff] using hrest
      exact ⟨0, leg, rfl, hleg, by simp [modifyLast, hleg, hall]⟩
    · obtain ⟨i, x, hx, hpx, heq⟩ := ih hrest
      have hnot : legs.all (fun l => !p l) = false := by
        rw [Bool.eq_false_iff]
        intro hall
        exact hrest (filter_eq_nil_iff.mpr (by simpa using hall))
      exact ⟨i + 1, x, by simpa using hx, hpx, by simp [modifyLast, hnot, heq]⟩

def IntercompanyLeg.reduce (residual : ℤ) (leg : IntercompanyLeg) : IntercompanyLeg :=
  { leg with amount := leg.amount - residual }

variable {legs' : List IntercompanyLeg}

/-- **What absorption at the origin does**: nothing without legs there, else it takes the
residual off one of them. -/
theorem absorbAtOrigin_eq_ok (h : absorbAtOrigin r lines legs = .ok legs') :
    (legsOf r.originSubId legs = [] ∧ legs' = legs) ∨
      ∃ i x, legs[i]? = some x ∧ x.subsidiaryId = r.originSubId ∧
        legs' = legs.modify i (IntercompanyLeg.reduce (functionalSum r.originSubId lines legs)) := by
  rw [absorbAtOrigin] at h
  dsimp only at h
  split_ifs at h with hnone
  · exact Or.inl ⟨hnone, (Except.ok.inj h).symm⟩
  · simp only [bind_eq_ok, pure_eq_ok] at h
    obtain ⟨_, -, _, -, rfl⟩ := h
    obtain ⟨i, x, hx, hpx, heq⟩ := exists_modifyLast_eq
      (IntercompanyLeg.reduce (functionalSum r.originSubId lines legs)) hnone
    exact Or.inr ⟨i, x, hx, by simpa using hpx, heq⟩

theorem sum_legsOf_modify {i : ℕ} {x : IntercompanyLeg} {ρ : ℤ} (hx : legs[i]? = some x)
    (s : String) (μ : IntercompanyLeg → ℤ) :
    ((legsOf s (legs.modify i (IntercompanyLeg.reduce ρ))).map μ).sum =
      ((legsOf s legs).map μ).sum + if x.subsidiaryId = s then μ (x.reduce ρ) - μ x else 0 := by
  have := sum_filter_modify (f := IntercompanyLeg.reduce ρ) hx (fun leg => leg.subsidiaryId = s) rfl μ
  simpa only [legsOf, decide_eq_true_eq] using this

/-- The other subsidiaries that are to be balanced. -/
def unbalancedSubs (r : IntercompanyRequest) (lines : List SubLine) : List String :=
  (keys SubLine.subsidiaryId lines).filter fun s =>
    s ≠ r.originSubId ∧ functionalTotal s lines ≠ 0

theorem mem_unbalancedSubs : s ∈ unbalancedSubs r lines ↔
    s ≠ r.originSubId ∧ functionalTotal s lines ≠ 0 := by
  simp only [unbalancedSubs, mem_filter, decide_eq_true_eq, and_iff_right_iff_imp]
  rintro ⟨-, hF⟩
  by_contra hkey
  refine hF ?_
  have hnone : linesOf s lines = [] :=
    filter_eq_nil_iff.mpr fun l hl hsub =>
      hkey (FirstSeen.mem_keys.mpr ⟨l, hl, by simpa using hsub⟩)
  rw [functionalTotal, hnone]
  rfl

theorem nodup_unbalancedSubs (r : IntercompanyRequest) (lines : List SubLine) :
    (unbalancedSubs r lines).Nodup :=
  (nodup_keys _ _).filter _

/-- What a subsidiary's lines and legs sum to, in transaction currency. -/
def transactionSum (s : String) (lines : List SubLine) (legs : List IntercompanyLeg) : ℤ :=
  transactionTotal s lines + ((legsOf s legs).map IntercompanyLeg.txnAmount).sum

section Legs

variable {pairs : List (List IntercompanyLeg)}
  (h : List.Forall₂ (fun u legs => legPair r lines u = .ok legs) (unbalancedSubs r lines) pairs)

include h

/-- Before absorption every other subsidiary balances in functional currency. -/
theorem functionalSum_flatten (hs : s ≠ r.originSubId) : functionalSum s lines pairs.flatten = 0 := by
  rw [functionalSum, sum_legsOf h IntercompanyLeg.amount (fun u => -functionalTotal u lines)
    (fun u => mulRate (transactionTotal u lines) r.originFxRate)
    (fun u a b hab => ⟨hab.own_amount, hab.mirror_amount⟩) s,
    ListSum.sum_map_ite_eq (nodup_unbalancedSubs r lines), if_neg hs.symm]
  split_ifs with hmem
  · ring
  · have hF : functionalTotal s lines = 0 := by
      by_contra hF
      exact hmem (mem_unbalancedSubs.mpr ⟨hs, hF⟩)
    rw [hF]
    rfl

theorem transactionSum_flatten (hs : s ≠ r.originSubId) :
    transactionSum s lines pairs.flatten =
      if functionalTotal s lines = 0 then transactionTotal s lines else 0 := by
  rw [transactionSum, sum_legsOf h IntercompanyLeg.txnAmount
    (fun u => -transactionTotal u lines) (fun u => transactionTotal u lines)
    (fun u a b hab => ⟨hab.own_txn, hab.mirror_txn⟩) s,
    ListSum.sum_map_ite_eq (nodup_unbalancedSubs r lines), if_neg hs.symm]
  by_cases hF : functionalTotal s lines = 0
  · rw [if_neg fun hmem => (mem_unbalancedSubs.mp hmem).2 hF, if_pos hF]
    ring
  · rw [if_pos (mem_unbalancedSubs.mpr ⟨hs, hF⟩), if_neg hF]
    ring

/-- At the origin stand its own total and the translated totals of the others. -/
theorem functionalSum_flatten_origin : functionalSum r.originSubId lines pairs.flatten =
    functionalTotal r.originSubId lines +
      ((unbalancedSubs r lines).map fun u =>
        mulRate (transactionTotal u lines) r.originFxRate).sum := by
  rw [functionalSum, sum_legsOf h IntercompanyLeg.amount (fun u => -functionalTotal u lines)
    (fun u => mulRate (transactionTotal u lines) r.originFxRate)
    (fun u a b hab => ⟨hab.own_amount, hab.mirror_amount⟩) r.originSubId,
    ListSum.sum_map_ite_eq (nodup_unbalancedSubs r lines), if_pos rfl,
    if_neg fun hmem => (mem_unbalancedSubs.mp hmem).1 rfl, zero_add]

theorem transactionSum_flatten_origin : transactionSum r.originSubId lines pairs.flatten =
    transactionTotal r.originSubId lines +
      ((unbalancedSubs r lines).map fun u => transactionTotal u lines).sum := by
  rw [transactionSum, sum_legsOf h IntercompanyLeg.txnAmount
    (fun u => -transactionTotal u lines) (fun u => transactionTotal u lines)
    (fun u a b hab => ⟨hab.own_txn, hab.mirror_txn⟩) r.originSubId,
    ListSum.sum_map_ite_eq (nodup_unbalancedSubs r lines), if_pos rfl,
    if_neg fun hmem => (mem_unbalancedSubs.mp hmem).1 rfl, zero_add]

theorem length_legsOf_origin :
    (legsOf r.originSubId pairs.flatten).length = (unbalancedSubs r lines).length := by
  have hcount := sum_legsOf h (fun _ => 1) (fun _ => 1) (fun _ => 1)
    (fun _ _ _ _ => ⟨rfl, rfl⟩) r.originSubId
  rw [ListSum.sum_map_ite_eq (nodup_unbalancedSubs r lines), if_pos rfl,
    if_neg fun hmem => (mem_unbalancedSubs.mp hmem).1 rfl, zero_add] at hcount
  simpa using hcount

theorem legsOf_origin_exact : ∀ leg ∈ legsOf r.originSubId pairs.flatten,
    leg.fxRate = r.originFxRate ∧ leg.amount = mulRate leg.txnAmount leg.fxRate := by
  intro leg hleg
  obtain ⟨hmem, hsub⟩ := mem_filter.mp hleg
  have hsub : leg.subsidiaryId = r.originSubId := by simpa using hsub
  obtain ⟨legs, hlegs, hin⟩ := mem_flatten.mp hmem
  obtain ⟨u, hu, hpair⟩ := exists_left_of_forall₂ h hlegs
  obtain ⟨a, b, rfl, hab⟩ := isLegPair_of_legPair hpair
  simp only [mem_cons, not_mem_nil, or_false] at hin
  rcases hin with rfl | rfl
  · exact absurd (hab.own_sub.symm.trans hsub) (mem_unbalancedSubs.mp hu).1
  · exact ⟨hab.mirror_rate, by rw [hab.mirror_amount, hab.mirror_txn, hab.mirror_rate]⟩

end Legs

/-! ### The rounding at the origin -/

theorem sum_transactionTotal (lines : List SubLine) :
    ((keys SubLine.subsidiaryId lines).map fun s => transactionTotal s lines).sum =
      (lines.map SubLine.transactional).sum := by
  rw [← sum_groupBy SubLine.subsidiaryId lines SubLine.transactional, groupBy_eq,
    map_map]
  rfl

theorem linesOf_eq_nil_iff :
    linesOf s lines = [] ↔ s ∉ keys SubLine.subsidiaryId lines := by
  simp [linesOf, filter_eq_nil_iff, FirstSeen.mem_keys]

/-- When no transaction total hides behind a vanishing functional one, the totals to be
balanced are the origin's, negated. -/
theorem sum_unbalancedSubs (hsum : (lines.map SubLine.transactional).sum = 0)
    (hrep : ∀ s, s ≠ r.originSubId → functionalTotal s lines = 0 → transactionTotal s lines = 0) :
    ((unbalancedSubs r lines).map fun u => transactionTotal u lines).sum =
      -transactionTotal r.originSubId lines := by
  have hsplit : ∀ s, transactionTotal s lines =
      (if s = r.originSubId then transactionTotal s lines else 0) +
        if s ≠ r.originSubId ∧ functionalTotal s lines ≠ 0 then transactionTotal s lines else 0 := by
    intro s
    by_cases hs : s = r.originSubId
    · simp [hs]
    · by_cases hF : functionalTotal s lines = 0
      · simp [hs, hF, hrep s hs hF]
      · simp [hs, hF]
  have hkeys := sum_transactionTotal lines
  rw [hsum, map_congr_left fun s _ => hsplit s, sum_map_add,
    ListSum.sum_map_ite_eq (nodup_keys _ _)] at hkeys
  have horigin : (if r.originSubId ∈ keys SubLine.subsidiaryId lines then
      transactionTotal r.originSubId lines else 0) = transactionTotal r.originSubId lines := by
    split_ifs with hmem
    · rfl
    · rw [transactionTotal, linesOf_eq_nil_iff.mpr hmem]
      rfl
  have hfilter : ((unbalancedSubs r lines).map fun u => transactionTotal u lines).sum =
      ((keys SubLine.subsidiaryId lines).map fun s =>
        if s ≠ r.originSubId ∧ functionalTotal s lines ≠ 0 then transactionTotal s lines else 0).sum := by
    rw [unbalancedSubs]
    exact sum_map_filter_eq_ite _ _ _
  rw [horigin, ← hfilter] at hkeys
  linarith

theorem exact_of_gapTotal_eq_zero (h : gapTotal rate s lines = 0) :
    ∀ l ∈ linesOf s lines, l.amount = mulRate l.transactional (rate s) := by
  intro l hl
  have hle : |gap rate l| ≤ gapTotal rate s lines := by
    refine single_le_sum ?_ _ (mem_map.mpr ⟨l, hl, rfl⟩)
    intro x hx
    obtain ⟨l', -, rfl⟩ := mem_map.mp hx
    exact abs_nonneg _
  have hzero : gap rate l = 0 := abs_nonpos_iff.mp (h ▸ hle)
  rw [gap, (mem_of_mem_linesOf hl).2] at hzero
  linarith

/-- **The rounding at the origin is within half a unit for each line and leg.** -/
theorem origin_residual_le (habs : Absorbed rate currency lines)
    (horigin : r.originFxRate = rate r.originSubId)
    (hsum : ((unbalancedSubs r lines).map fun u => transactionTotal u lines).sum =
      -transactionTotal r.originSubId lines) :
    2 * (gapTotal rate r.originSubId lines + |functionalTotal r.originSubId lines +
        ((unbalancedSubs r lines).map fun u =>
          mulRate (transactionTotal u lines) r.originFxRate).sum|) ≤
      (linesOf r.originSubId lines).length + (unbalancedSubs r lines).length := by
  have hmirrors := two_mul_abs_sum_mulRate_le r.originFxRate
    ((unbalancedSubs r lines).map fun u => transactionTotal u lines)
  rw [map_map, length_map, hsum] at hmirrors
  set A := ((unbalancedSubs r lines).map fun u =>
    mulRate (transactionTotal u lines) r.originFxRate).sum with hA
  have hmirrors : 2 * |A * RATE_SCALE - -transactionTotal r.originSubId lines * r.originFxRate| ≤
      (unbalancedSubs r lines).length * RATE_SCALE := hmirrors
  have hpos := RATE_SCALE_pos
  by_cases hzero : transactionTotal r.originSubId lines = 0
  · rw [hzero, neg_zero, zero_mul, sub_zero, abs_mul, abs_of_pos hpos, ← mul_assoc] at hmirrors
    have hA' := le_of_mul_le_mul_right hmirrors hpos
    have hgap := habs.within r.originSubId
    rw [habs.vanish _ hzero, zero_add]
    linarith
  · have hgap := habs.exact _ hzero
    have hown := two_mul_abs_functionalTotal_le (exact_of_gapTotal_eq_zero hgap)
    rw [← horigin] at hown
    set F := functionalTotal r.originSubId lines
    set T := transactionTotal r.originSubId lines
    have habs' : |(F + A) * RATE_SCALE| ≤
        |F * RATE_SCALE - T * r.originFxRate| + |A * RATE_SCALE - -T * r.originFxRate| := by
      have := abs_add_le (F * RATE_SCALE - T * r.originFxRate) (A * RATE_SCALE - -T * r.originFxRate)
      calc |(F + A) * RATE_SCALE|
          = |F * RATE_SCALE - T * r.originFxRate + (A * RATE_SCALE - -T * r.originFxRate)| := by
            congr 1
            ring
        _ ≤ _ := this
    rw [abs_mul, abs_of_pos hpos] at habs'
    rw [hgap, zero_add]
    refine le_of_mul_le_mul_right ?_ hpos
    rw [add_mul]
    linarith

theorem deviation_of_pos {rows : List (ℤ × ℤ × ℤ)} (h : ∀ row ∈ rows, 0 < row.2.2) :
    deviation rows = .ok (rows.map fun row => |row.1 - mulRate row.2.1 row.2.2|).sum := by
  refine map_eq_ok.mpr ⟨_, mapM_ok_of_forall fun row hrow => ?_, rfl⟩
  exact bind_eq_ok.mpr ⟨_, translate_of_pos (h row hrow), rfl⟩

theorem sum_deviation_lines (h : ∀ l ∈ lines, Translated rate currency l) (s : String) :
    (((linesOf s lines).map fun l =>
        (l.amount, l.txnAmount.getD l.amount, l.fxRate.getD RATE_SCALE)).map
          fun row : ℤ × ℤ × ℤ => |row.1 - mulRate row.2.1 row.2.2|).sum = gapTotal rate s lines := by
  rw [map_map, gapTotal]
  refine congrArg List.sum (map_congr_left fun l hl => ?_)
  have ht := h l (mem_of_mem_linesOf hl).1
  simp [gap, ht.transactional_eq, ht.fxRate_eq]

/-- **Absorption at the origin returns** when the rounding there is within its bound. -/
theorem absorbAtOrigin_isOk {pairs : List (List IntercompanyLeg)}
    (habs : Absorbed rate currency lines) (hpos : 0 < r.originFxRate)
    (h : List.Forall₂ (fun u legs => legPair r lines u = .ok legs) (unbalancedSubs r lines) pairs)
    (hbound : 2 * (gapTotal rate r.originSubId lines +
        |functionalSum r.originSubId lines pairs.flatten|) ≤
      (linesOf r.originSubId lines).length + (unbalancedSubs r lines).length) :
    ∃ legs, absorbAtOrigin r lines pairs.flatten = .ok legs := by
  by_cases hnone : pairs.flatten.filter (fun leg => leg.subsidiaryId = r.originSubId) = []
  · exact ⟨pairs.flatten, by simp only [absorbAtOrigin, if_pos hnone]⟩
  set ρ := functionalSum r.originSubId lines pairs.flatten with hρ
  obtain ⟨i, x, hx, hxsub, heq⟩ := exists_modifyLast_eq (IntercompanyLeg.reduce ρ) hnone
  have hxsub : x.subsidiaryId = r.originSubId := by simpa using hxsub
  set legs := pairs.flatten.modify i (IntercompanyLeg.reduce ρ) with hlegs
  have hxmem : x ∈ legsOf r.originSubId pairs.flatten := by
    simp only [legsOf, mem_filter, decide_eq_true_eq]
    exact ⟨mem_of_getElem? hx, hxsub⟩
  obtain ⟨hxrate, hxexact⟩ := legsOf_origin_exact h x hxmem
  have hlength : (legsOf r.originSubId legs).length = (unbalancedSubs r lines).length := by
    have hcount := @sum_legsOf_modify _ _ _ ρ hx r.originSubId fun _ => 1
    rw [← length_legsOf_origin h]
    simpa using hcount
  have hgaps : ((legsOf r.originSubId legs).map fun leg =>
      |leg.amount - mulRate leg.txnAmount leg.fxRate|).sum = |ρ| := by
    rw [sum_legsOf_modify hx, if_pos hxsub]
    have hbefore : ((legsOf r.originSubId pairs.flatten).map fun leg =>
        |leg.amount - mulRate leg.txnAmount leg.fxRate|).sum = 0 := by
      refine sum_eq_zero fun y hy => ?_
      obtain ⟨leg, hleg, rfl⟩ := mem_map.mp hy
      rw [(legsOf_origin_exact h leg hleg).2, sub_self, abs_zero]
    rw [hbefore, ← hxexact, sub_self, abs_zero, sub_zero, zero_add]
    have hreduced : (x.reduce ρ).amount - mulRate (x.reduce ρ).txnAmount (x.reduce ρ).fxRate = -ρ := by
      rw [show (x.reduce ρ).txnAmount = x.txnAmount from rfl,
        show (x.reduce ρ).fxRate = x.fxRate from rfl, ← hxexact, IntercompanyLeg.reduce]
      ring
    rw [hreduced, abs_neg]
  have hrates : ∀ leg ∈ legsOf r.originSubId legs, 0 < leg.fxRate := by
    intro leg hleg
    obtain ⟨hmem, hsub⟩ := mem_filter.mp hleg
    have hsub : leg.subsidiaryId = r.originSubId := by simpa using hsub
    obtain ⟨j, hj⟩ := mem_iff_getElem?.mp hmem
    rw [hlegs, getElem?_modify] at hj
    obtain ⟨leg₀, hleg₀, rfl⟩ := Option.map_eq_some_iff.mp hj
    have hmem₀ : leg₀ ∈ legsOf r.originSubId pairs.flatten := by
      simp only [legsOf, mem_filter, decide_eq_true_eq]
      refine ⟨mem_of_getElem? hleg₀, ?_⟩
      split_ifs at hsub <;> exact hsub
    have hrate := (legsOf_origin_exact h leg₀ hmem₀).1
    split_ifs <;> exact hrate ▸ hpos
  refine ⟨legs, ?_⟩
  simp only [absorbAtOrigin, if_neg hnone]
  rw [show modifyLast (fun leg => decide (leg.subsidiaryId = r.originSubId))
    (fun leg => { leg with amount := leg.amount - (functionalTotal r.originSubId lines +
      ((pairs.flatten.filter fun leg => leg.subsidiaryId = r.originSubId).map
        IntercompanyLeg.amount).sum) }) pairs.flatten = legs from heq]
  refine bind_eq_ok.mpr ⟨_, deviation_of_pos ?_, bind_eq_ok.mpr ⟨(), refuseIf_eq_ok.mpr ?_, rfl⟩⟩
  · intro row hrow
    rcases mem_append.mp hrow with hrow | hrow
    · obtain ⟨l, hl, rfl⟩ := mem_map.mp hrow
      have ht := habs.translated l (mem_of_mem_linesOf hl).1
      simpa [ht.fxRate_eq] using ht.rate_pos
    · obtain ⟨leg, hleg, rfl⟩ := mem_map.mp hrow
      exact hrates leg hleg
  · rw [map_append, sum_append, sum_deviation_lines habs.translated, map_map,
      length_append, length_map, length_map]
    have hgaps' : ((legs.filter fun leg => leg.subsidiaryId = r.originSubId).map
        ((fun row : ℤ × ℤ × ℤ => |row.1 - mulRate row.2.1 row.2.2|) ∘
          fun leg => (leg.amount, leg.txnAmount, leg.fxRate))).sum = |ρ| := hgaps
    have hlength' : (legs.filter fun leg => leg.subsidiaryId = r.originSubId).length =
        (unbalancedSubs r lines).length := hlength
    rw [hgaps', hlength']
    push_cast
    linarith

/-! ### Balanced books -/

/-- A subsidiary whose functional total vanishes needs its transaction total to vanish; one
whose does not needs a rate that stands for the two. -/
def Representable (rate : String → ℤ) (lines : List SubLine) (s : String) : Prop :=
  if functionalTotal s lines = 0 then transactionTotal s lines = 0
  else RateRepresentable (functionalTotal s lines) (transactionTotal s lines) (rate s)

/-- Every subsidiary sums to zero, in functional and in transaction currency. -/
def BalancedBooks (lines : List SubLine) (legs : List IntercompanyLeg) : Prop :=
  ∀ s, functionalSum s lines legs = 0 ∧ transactionSum s lines legs = 0

theorem functionalSum_nil (s : String) (lines : List SubLine) :
    functionalSum s lines [] = functionalTotal s lines := by
  simp [functionalSum, legsOf]

theorem transactionSum_nil (s : String) (lines : List SubLine) :
    transactionSum s lines [] = transactionTotal s lines := by
  simp [transactionSum, legsOf]

theorem absorbAtOrigin_frame (h : absorbAtOrigin r lines legs = .ok legs') :
    (∀ s, s ≠ r.originSubId → functionalSum s lines legs' = functionalSum s lines legs) ∧
      ∀ s, transactionSum s lines legs' = transactionSum s lines legs := by
  rcases absorbAtOrigin_eq_ok h with ⟨-, rfl⟩ | ⟨i, x, hx, hsub, rfl⟩
  · exact ⟨fun _ _ => rfl, fun _ => rfl⟩
  · constructor
    · intro s hs
      rw [functionalSum, sum_legsOf_modify hx, hsub, if_neg hs.symm, add_zero, functionalSum]
    · intro s
      rw [transactionSum, sum_legsOf_modify hx, transactionSum]
      simp [IntercompanyLeg.reduce]

theorem absorbAtOrigin_origin (h : absorbAtOrigin r lines legs = .ok legs')
    (hne : legsOf r.originSubId legs ≠ []) : functionalSum r.originSubId lines legs' = 0 := by
  rcases absorbAtOrigin_eq_ok h with ⟨hnil, -⟩ | ⟨i, x, hx, hsub, rfl⟩
  · exact absurd hnil hne
  · rw [functionalSum, sum_legsOf_modify hx, if_pos hsub, functionalSum, IntercompanyLeg.reduce]
    ring

/-- **The ways the balancing returns**: a document of one subsidiary, a document that is
balanced, or legs that passed every check. -/
theorem intercompanyBalancingLegs_cases (h : intercompanyBalancingLegs r lines = .ok legs) :
    ((keys SubLine.subsidiaryId lines).length ≤ 1 ∧ legs = []) ∨
      (unbalancedSubs r lines = [] ∧ functionalTotal r.originSubId lines = 0 ∧ legs = []) ∨
      ∃ pairs, List.Forall₂ (fun u legs => legPair r lines u = .ok legs) (unbalancedSubs r lines)
          pairs ∧ absorbAtOrigin r lines pairs.flatten = .ok legs ∧
        ∀ s ∈ keys SubLine.subsidiaryId lines, functionalSum s lines legs = 0 := by
  rw [intercompanyBalancingLegs] at h
  split_ifs at h with hone hbalanced
  · exact Or.inl ⟨hone, (Except.ok.inj h).symm⟩
  · exact Or.inr (Or.inl ⟨hbalanced.1, hbalanced.2, (Except.ok.inj h).symm⟩)
  · simp only [bind_eq_ok, collect_eq_ok, pure_eq_ok] at h
    obtain ⟨_, ⟨pairs, hpairs, rfl⟩, legs', habsorb, checked, hchecks, rfl⟩ := h
    refine Or.inr (Or.inr ⟨pairs, hpairs, habsorb, fun s hs => ?_⟩)
    obtain ⟨_, -, hcheck⟩ := exists_of_mapM hchecks hs
    simpa using hcheck

section Balance

variable (habs : Absorbed rate currency lines) (hsum : (lines.map SubLine.transactional).sum = 0)

theorem transactionTotal_eq_zero_of_notMem (hs : s ∉ keys SubLine.subsidiaryId lines) :
    transactionTotal s lines = 0 := by
  rw [transactionTotal, linesOf_eq_nil_iff.mpr hs]
  rfl

include hsum in
theorem transactionTotal_eq_zero_of_length (hone : (keys SubLine.subsidiaryId lines).length ≤ 1)
    (s : String) : transactionTotal s lines = 0 := by
  by_cases hs : s ∈ keys SubLine.subsidiaryId lines
  · have hkeys : keys SubLine.subsidiaryId lines = [s] := by
      obtain ⟨k, hk⟩ := length_eq_one_iff.mp (le_antisymm hone (length_pos_of_mem hs))
      rw [hk] at hs
      rw [hk, mem_singleton.mp hs]
    have htotal := sum_transactionTotal lines
    rw [hkeys, hsum] at htotal
    simpa using htotal
  · exact transactionTotal_eq_zero_of_notMem hs

include habs hsum in
/-- **Functional books balance whenever legs are returned.** -/
theorem functionalSum_eq_zero (h : intercompanyBalancingLegs r lines = .ok legs) (s : String) :
    functionalSum s lines legs = 0 := by
  rcases intercompanyBalancingLegs_cases h with
    ⟨hone, rfl⟩ | ⟨hnone, horigin, rfl⟩ | ⟨pairs, hpairs, habsorb, hchecks⟩
  · rw [functionalSum_nil]
    exact habs.vanish s (transactionTotal_eq_zero_of_length hsum hone s)
  · rw [functionalSum_nil]
    by_cases hs : s = r.originSubId
    · rw [hs, horigin]
    · by_contra hF
      have hmem := mem_unbalancedSubs.mpr ⟨hs, hF⟩
      rw [hnone] at hmem
      cases hmem
  · by_cases hs : s = r.originSubId
    · subst hs
      by_cases hkey : r.originSubId ∈ keys SubLine.subsidiaryId lines
      · exact hchecks _ hkey
      · by_cases hlegs : legsOf r.originSubId pairs.flatten = []
        · rcases absorbAtOrigin_eq_ok habsorb with ⟨-, rfl⟩ | ⟨i, x, hx, hsub, -⟩
          · rw [functionalSum, hlegs]
            simpa using habs.vanish _ (transactionTotal_eq_zero_of_notMem hkey)
          · have hx' : x ∈ legsOf r.originSubId pairs.flatten := by
              simp only [legsOf, mem_filter, decide_eq_true_eq]
              exact ⟨mem_of_getElem? hx, hsub⟩
            rw [hlegs] at hx'
            cases hx'
        · exact absorbAtOrigin_origin habsorb hlegs
    · rw [(absorbAtOrigin_frame habsorb).1 s hs, functionalSum_flatten hpairs hs]

/-- Where every counter-subsidiary is representable, no transaction total hides behind a
vanishing functional one. -/
theorem transactionTotal_eq_zero_of_representable
    (hrep : ∀ s ∈ keys SubLine.subsidiaryId lines, s ≠ r.originSubId →
      Representable rate lines s) (hs : s ≠ r.originSubId) (hF : functionalTotal s lines = 0) :
    transactionTotal s lines = 0 := by
  by_cases hkey : s ∈ keys SubLine.subsidiaryId lines
  · have := hrep s hkey hs
    rwa [Representable, if_pos hF] at this
  · exact transactionTotal_eq_zero_of_notMem hkey

variable (hcurrency : currency ≠ "") (hbalance : ∀ c ∈ r.balanceCurrency, c = currency)
  (horigin : r.originFxRate = rate r.originSubId) (hpos : 0 < r.originFxRate)
  (hpairs : ∀ s ∈ keys SubLine.subsidiaryId lines, s ≠ r.originSubId →
    (r.pairWith s).isSome)

include habs hcurrency hbalance hpos hpairs in
theorem legPair_isOk_iff_of_mem (hs : s ∈ unbalancedSubs r lines) :
    (∃ legs, legPair r lines s = .ok legs) ↔
      RateRepresentable (functionalTotal s lines) (transactionTotal s lines) (rate s) := by
  have hkey : s ∈ keys SubLine.subsidiaryId lines := mem_of_mem_filter hs
  have hne : linesOf s lines ≠ [] := fun hnil => linesOf_eq_nil_iff.mp hnil hkey
  exact legPair_isOk_iff habs.translated hne hcurrency hbalance hpos
    (hpairs s hkey (mem_unbalancedSubs.mp hs).1)

include habs hsum hcurrency hbalance horigin hpos hpairs in
/-- **If every counter-subsidiary is representable the books are balanced.** -/
theorem exists_balancedBooks
    (hrep : ∀ s ∈ keys SubLine.subsidiaryId lines, s ≠ r.originSubId →
      Representable rate lines s) :
    ∃ legs, intercompanyBalancingLegs r lines = .ok legs ∧ BalancedBooks lines legs := by
  have hhidden : ∀ s, s ≠ r.originSubId → functionalTotal s lines = 0 → transactionTotal s lines = 0 :=
    fun s hs hF => transactionTotal_eq_zero_of_representable hrep hs hF
  have htotals := sum_unbalancedSubs hsum hhidden
  by_cases hone : (keys SubLine.subsidiaryId lines).length ≤ 1
  · have hrun : intercompanyBalancingLegs r lines = .ok [] := by
      rw [intercompanyBalancingLegs, if_pos hone]
    refine ⟨[], hrun, fun s => ⟨functionalSum_eq_zero habs hsum hrun s, ?_⟩⟩
    rw [transactionSum_nil]
    exact transactionTotal_eq_zero_of_length hsum hone s
  by_cases hnone : unbalancedSubs r lines = [] ∧ functionalTotal r.originSubId lines = 0
  · have hrun : intercompanyBalancingLegs r lines = .ok [] := by
      rw [intercompanyBalancingLegs, if_neg hone]
      exact if_pos hnone
    refine ⟨[], hrun, fun s => ⟨functionalSum_eq_zero habs hsum hrun s, ?_⟩⟩
    rw [transactionSum_nil]
    by_cases hs : s = r.originSubId
    · rw [hnone.1] at htotals
      simpa [hs] using htotals.symm
    · have hF := functionalSum_eq_zero habs hsum hrun s
      rw [functionalSum_nil] at hF
      exact hhidden s hs hF
  obtain ⟨pairs, hforall⟩ : ∃ pairs, Forall₂ (fun u legs => legPair r lines u = .ok legs)
      (unbalancedSubs r lines) pairs := by
    have hall : ∀ u ∈ unbalancedSubs r lines, ∃ legs, legPair r lines u = .ok legs := by
      intro u hu
      refine (legPair_isOk_iff_of_mem habs hcurrency hbalance hpos hpairs hu).mpr ?_
      have hu' := mem_unbalancedSubs.mp hu
      have := hrep u (mem_of_mem_filter hu) hu'.1
      rwa [Representable, if_neg hu'.2] at this
    exact exists_forall₂ hall
  have hbound := origin_residual_le habs horigin htotals
  rw [← functionalSum_flatten_origin hforall] at hbound
  obtain ⟨legs, habsorb⟩ := absorbAtOrigin_isOk habs hpos hforall hbound
  have hlegs : unbalancedSubs r lines ≠ [] := by
    intro hnil
    have hzero : functionalTotal r.originSubId lines = 0 := by
      refine habs.vanish _ ?_
      rw [hnil] at htotals
      simpa using htotals.symm
    exact hnone ⟨hnil, hzero⟩
  have hfunctional : ∀ s, functionalSum s lines legs = 0 := by
    intro s
    by_cases hs : s = r.originSubId
    · subst hs
      refine absorbAtOrigin_origin habsorb fun hnil => hlegs ?_
      have hlen := length_legsOf_origin hforall
      rw [hnil] at hlen
      exact length_eq_zero_iff.mp hlen.symm
    · rw [(absorbAtOrigin_frame habsorb).1 s hs, functionalSum_flatten hforall hs]
  have hrun : intercompanyBalancingLegs r lines = .ok legs := by
    rw [intercompanyBalancingLegs, if_neg hone]
    refine (if_neg hnone).trans ?_
    refine bind_eq_ok.mpr ⟨_, collect_eq_ok.mpr ⟨pairs, hforall, rfl⟩, bind_eq_ok.mpr ⟨legs, habsorb,
      bind_eq_ok.mpr ⟨_, mapM_ok_of_forall (g := fun _ => ()) fun s _ => ?_, rfl⟩⟩⟩
    exact refuseIf_eq_ok.mpr (not_not_intro (hfunctional s))
  refine ⟨legs, hrun, fun s => ⟨hfunctional s, ?_⟩⟩
  rw [(absorbAtOrigin_frame habsorb).2 s]
  by_cases hs : s = r.originSubId
  · rw [hs, transactionSum_flatten_origin hforall, htotals]
    ring
  · rw [transactionSum_flatten hforall hs]
    split_ifs with hF
    · exact hhidden s hs hF
    · rfl

include habs hsum hcurrency hbalance hpos hpairs in
/-- **If the books are balanced every counter-subsidiary is representable.** -/
theorem representable_of_balancedBooks (hrun : intercompanyBalancingLegs r lines = .ok legs)
    (hbooks : BalancedBooks lines legs) (hs : s ≠ r.originSubId) : Representable rate lines s := by
  rcases intercompanyBalancingLegs_cases hrun with
    ⟨hone, rfl⟩ | ⟨hnone, -, rfl⟩ | ⟨pairs, hforall, habsorb, -⟩
  · have hT := transactionTotal_eq_zero_of_length hsum hone s
    rwa [Representable, if_pos (habs.vanish s hT)]
  · obtain ⟨hF, hT⟩ := hbooks s
    rw [functionalSum_nil] at hF
    rw [transactionSum_nil] at hT
    rwa [Representable, if_pos hF]
  · rw [Representable]
    split_ifs with hF
    · have hT := (hbooks s).2
      rwa [(absorbAtOrigin_frame habsorb).2 s, transactionSum_flatten hforall hs, if_pos hF] at hT
    · have hmem := mem_unbalancedSubs.mpr ⟨hs, hF⟩
      refine (legPair_isOk_iff_of_mem habs hcurrency hbalance hpos hpairs hmem).mp ?_
      obtain ⟨legs', -, hlegs'⟩ := exists_right_of_forall₂ hforall hmem
      exact ⟨legs', hlegs'⟩

end Balance

/-! ### The document -/

/-- **When a multi-entity document can be balanced.** On a translated document that is
balanced in its transaction currency the absorption returns; the legs then balance every
subsidiary, in functional and in transaction currency, exactly if every other subsidiary
present is representable; and whenever legs are returned at all, every subsidiary is
balanced in functional currency. -/
theorem intercompany_balances_iff (h : MultiEntityDocument r rate currency lines) :
    ∃ absorbed, absorbFxRoundingResidual lines = .ok absorbed ∧
      ((∃ legs, intercompanyBalancingLegs r absorbed = .ok legs ∧ BalancedBooks absorbed legs) ↔
        ∀ l ∈ lines, l.subsidiaryId ≠ r.originSubId → Representable rate absorbed l.subsidiaryId) ∧
      ∀ legs, intercompanyBalancingLegs r absorbed = .ok legs →
        ∀ s, functionalSum s absorbed legs = 0 := by
  obtain ⟨absorbed, hrun, habs, herase, htransactional⟩ := absorb_translated h.toTranslatedLines
  have hsum : (absorbed.map SubLine.transactional).sum = 0 := htransactional ▸ h.txn_sum
  have hsubs : absorbed.map SubLine.subsidiaryId = lines.map SubLine.subsidiaryId := by
    have := congrArg (List.map SubLine.subsidiaryId) herase
    rwa [map_map, map_map] at this
  have hkeys : ∀ s, s ∈ keys SubLine.subsidiaryId absorbed ↔
      ∃ l ∈ lines, l.subsidiaryId = s := by
    intro s
    rw [FirstSeen.mem_keys, ← mem_map, hsubs, mem_map]
  have hpairs : ∀ s ∈ keys SubLine.subsidiaryId absorbed, s ≠ r.originSubId →
      (r.pairWith s).isSome := by
    intro s hs hne
    obtain ⟨l, hl, rfl⟩ := (hkeys s).mp hs
    exact h.pairs l hl hne
  refine ⟨absorbed, hrun, ⟨?_, ?_⟩, fun legs hlegs s => functionalSum_eq_zero habs hsum hlegs s⟩
  · rintro ⟨legs, hlegs, hbooks⟩ l - hne
    exact representable_of_balancedBooks habs hsum h.currency_ne h.balanceCurrency_eq
      h.originFxRate_pos hpairs hlegs hbooks hne
  · intro hrep
    refine exists_balancedBooks habs hsum h.currency_ne h.balanceCurrency_eq h.originFxRate_eq
      h.originFxRate_pos hpairs fun s hs hne => ?_
    obtain ⟨l, hl, rfl⟩ := (hkeys s).mp hs
    exact hrep l hl hne

/-- An origin at rate one and one other subsidiary, paired. -/
def twoEntityRequest : IntercompanyRequest where
  subsidiaryName s := some s
  pairs := [⟨"origin", "other", "1300", "2300"⟩]
  originSubId := "origin"
  originFxRate := RATE_SCALE

def twoEntityRate (otherRate : ℤ) (s : String) : ℤ := if s = "other" then otherRate else RATE_SCALE

/-- A translated line. -/
def twoEntityLine (otherRate : ℤ) (p : String × ℤ) : SubLine where
  accountId := "4000"
  amount := mulRate p.2 (twoEntityRate otherRate p.1)
  txnAmount := some p.2
  currency := some "EUR"
  fxRate := some (twoEntityRate otherRate p.1)
  subsidiaryId := p.1

/-- Amounts of the other subsidiary, balanced by one line at the origin. -/
def twoEntityLines (otherRate : ℤ) (ts : List ℤ) : List SubLine :=
  (ts.map (Prod.mk "other") ++ [("origin", -ts.sum)]).map (twoEntityLine otherRate)

theorem twoEntity_document {otherRate : ℤ} (hpos : 0 < otherRate) (ts : List ℤ) :
    MultiEntityDocument twoEntityRequest (twoEntityRate otherRate) "EUR"
      (twoEntityLines otherRate ts) := by
  have hline : ∀ l ∈ twoEntityLines otherRate ts, ∃ p, l = twoEntityLine otherRate p ∧
      (p.1 = "origin" ∨ p.1 = "other") := by
    intro l hl
    obtain ⟨p, hp, rfl⟩ := mem_map.mp hl
    refine ⟨p, rfl, ?_⟩
    rcases mem_append.mp hp with hp | hp
    · obtain ⟨t, -, rfl⟩ := mem_map.mp hp
      exact Or.inr rfl
    · exact Or.inl (by rw [mem_singleton.mp hp])
  have hrate : ∀ s, 0 < twoEntityRate otherRate s := by
    intro s
    rw [twoEntityRate]
    split_ifs
    · exact hpos
    · exact RATE_SCALE_pos
  refine ⟨⟨?_, ?_, ?_⟩, ?_, by decide, by simp [twoEntityRequest], rfl, RATE_SCALE_pos, ?_⟩
  · intro l hl
    obtain ⟨p, rfl, -⟩ := hline l hl
    exact ⟨rfl, by simp [twoEntityLine], rfl, rfl, hrate p.1⟩
  · intro l hl
    obtain ⟨p, rfl, -⟩ := hline l hl
    rfl
  · intro l hl
    obtain ⟨p, rfl, -⟩ := hline l hl
    exact ⟨_, hl, rfl, rfl⟩
  · have htxn : ∀ ps : List (String × ℤ), ((ps.map (twoEntityLine otherRate)).map
        SubLine.transactional) = ps.map Prod.snd := by
      intro ps
      rw [map_map]
      rfl
    rw [twoEntityLines, htxn]
    simp [Function.comp_def]
  · intro l hl hne
    obtain ⟨p, rfl, hp | hp⟩ := hline l hl
    · exact absurd hp hne
    · rw [show (twoEntityLine otherRate p).subsidiaryId = "other" from hp]
      rfl

/-- A document of two entities that is translated and balanced in its transaction currency,
and refused by the balancer. -/
def RefusedThoughBalanced (otherRate : ℤ) (amounts : List ℤ) : Prop :=
  MultiEntityDocument twoEntityRequest (twoEntityRate otherRate) "EUR"
      (twoEntityLines otherRate amounts) ∧
    ∃ absorbed, absorbFxRoundingResidual (twoEntityLines otherRate amounts) = .ok absorbed ∧
      (intercompanyBalancingLegs twoEntityRequest absorbed).isOk = false

theorem refusedThoughBalanced_of_run {otherRate : ℤ} {amounts : List ℤ} (hpos : 0 < otherRate)
    (hrefused : (absorbFxRoundingResidual (twoEntityLines otherRate amounts)).toOption.map
      (fun absorbed => (intercompanyBalancingLegs twoEntityRequest absorbed).isOk) = some false) :
    RefusedThoughBalanced otherRate amounts := by
  refine ⟨twoEntity_document hpos amounts, ?_⟩
  cases habsorbed : absorbFxRoundingResidual (twoEntityLines otherRate amounts) with
  | error e => simp [habsorbed, Except.toOption] at hrefused
  | ok absorbed => exact ⟨absorbed, rfl, by simpa [habsorbed, Except.toOption] using hrefused⟩

/-- **Four documents that are refused**, though each is translated and balanced in its
transaction currency: a functional total that rounds to zero, one of the opposite sign,
one too small for a positive rate, and one whose rate has ten whole digits. -/
theorem intercompany_balancing_refused :
    RefusedThoughBalanced 1000000000 [1] ∧ RefusedThoughBalanced 5000000000 [1, 1, 1, -4] ∧
      RefusedThoughBalanced 1 [14900000000, 14900000000, 14900000000, -15000000000] ∧
      RefusedThoughBalanced 9999999994000000000 [2, -1] := by
  refine ⟨?_, ?_, ?_, ?_⟩
  all_goals exact refusedThoughBalanced_of_run (by decide) (by decide +kernel)

/-- The theorem at a document with rounding on both sides. -/
theorem intercompany_balances_iff_twoEntities :
    ∃ absorbed, absorbFxRoundingResidual (twoEntityLines 11234000000 [5, 7, -3]) = .ok absorbed ∧
      ((∃ legs, intercompanyBalancingLegs twoEntityRequest absorbed = .ok legs ∧
          BalancedBooks absorbed legs) ↔
        ∀ l ∈ twoEntityLines 11234000000 [5, 7, -3], l.subsidiaryId ≠ twoEntityRequest.originSubId →
          Representable (twoEntityRate 11234000000) absorbed l.subsidiaryId) ∧
      ∀ legs, intercompanyBalancingLegs twoEntityRequest absorbed = .ok legs →
        ∀ s, functionalSum s absorbed legs = 0 :=
  intercompany_balances_iff (twoEntity_document (by decide) [5, 7, -3])

end OpenBooks
