import OpenBooks.Billing.Prepaid
import Mathlib.Algebra.Order.BigOperators.Group.List
import Mathlib.Data.Int.ConditionallyCompleteOrder
import Mathlib.Data.Nat.Digits.Lemmas
import Mathlib.Order.Bounds.Defs

/-!
# Prepaid balances

What the rows of a grant come to, in any set of months, is what its *standing* draws come to:
those that were not reversed (`PrepaidLedger.Standing`). A draw that is recorded
stands; a reversal takes its draw out of the standing ones, and its row takes the amount back
in the month it was drawn. Standing draws are positive, so the draws up to a date come to
something between zero and the draws of all months, and the writer sees to it that these do
not exceed the grant (`PrepaidLedger.prepaid_within_grant`).
-/

namespace OpenBooks

open Checked List

namespace PrepaidLedger

variable {context : PrepaidContext} {access : PrepaidAccess} {s s' : PrepaidLedger}

/-! ### Standing draws -/

/-- The draws that were not reversed, and that the rows come to them. -/
structure Standing (s : PrepaidLedger) (standing : List PrepaidDraw) : Prop where
  drawn : ∀ grantId counts,
    s.drawn grantId counts = (standing.map (drawOf grantId counts)).sum
  pos : ∀ d ∈ standing, 0 < d.amount
  nodup : standing.Nodup
  mem : ∀ d, d ∈ standing ↔
    d ∈ s.draws ∧ d.reversesDrawId = none ∧ ∀ r ∈ s.draws, r.reversesDrawId ≠ some d.id

variable {d : PrepaidDraw} {grantId : ℕ} {counts : CivilDate → Bool}

theorem drawOf_nonneg (h : 0 < d.amount) : 0 ≤ drawOf grantId counts d := by
  unfold drawOf
  split_ifs
  · exact h.le
  · exact le_refl 0

theorem drawOf_mono (h : 0 < d.amount) :
    drawOf grantId counts d ≤ drawOf grantId (fun _ => true) d := by
  unfold drawOf
  split_ifs with hcounts hall
  · exact le_refl _
  · exact absurd ⟨hcounts.1, rfl⟩ hall
  · exact h.le
  · exact le_refl _

variable {standing : List PrepaidDraw}

/-- **The draws of any months** come to something between nothing and the draws of all. -/
theorem Standing.drawn_bounds (h : Standing s standing) (grantId : ℕ) (counts : CivilDate → Bool) :
    0 ≤ s.drawn grantId counts ∧ s.drawn grantId counts ≤ s.drawn grantId fun _ => true := by
  rw [h.drawn, h.drawn]
  constructor
  · refine List.sum_nonneg fun x hx => ?_
    obtain ⟨d, hd, rfl⟩ := mem_map.mp hx
    exact drawOf_nonneg (h.pos d hd)
  · exact sum_le_sum fun d hd => drawOf_mono (h.pos d hd)

theorem drawn_append (s : PrepaidLedger) (d : PrepaidDraw) (grantId : ℕ)
    (counts : CivilDate → Bool) :
    ({ s with draws := s.draws ++ [d] } : PrepaidLedger).drawn grantId counts =
      s.drawn grantId counts + drawOf grantId counts d := by
  simp [drawn]

theorem Standing.record (h : Standing s standing) (hpos : 0 < d.amount)
    (hreverses : d.reversesDrawId = none) (hnew : d ∉ s.draws)
    (hfresh : ∀ r ∈ s.draws, r.reversesDrawId ≠ some d.id) :
    Standing { s with draws := s.draws ++ [d] } (standing ++ [d]) where
  drawn grantId counts := by
    rw [drawn_append, h.drawn, map_append, sum_append]
    simp
  pos := by
    simpa [or_imp, forall_and] using ⟨h.pos, hpos⟩
  nodup := by
    rw [nodup_append]
    refine ⟨h.nodup, nodup_singleton d, ?_⟩
    rintro a ha b hb rfl
    rw [mem_singleton] at hb
    exact hnew (hb ▸ ((h.mem a).mp ha).1)
  mem e := by
    simp only [mem_append, mem_singleton, h.mem]
    constructor
    · rintro (⟨he, hnone, hstands⟩ | rfl)
      · refine ⟨.inl he, hnone, ?_⟩
        rintro r (hr | rfl)
        · exact hstands r hr
        · rw [hreverses]
          simp
      · refine ⟨.inr rfl, hreverses, ?_⟩
        rintro r (hr | rfl)
        · exact hfresh r hr
        · rw [hreverses]
          simp
    · rintro ⟨he | rfl, hnone, hstands⟩
      · exact .inl ⟨he, hnone, fun r hr => hstands r (.inl hr)⟩
      · exact .inr rfl

theorem Standing.reverse (h : Standing s standing) {r : PrepaidDraw} (hd : d ∈ standing)
    (hreverses : r.reversesDrawId = some d.id) (hgrant : r.grantId = d.grantId)
    (hmonth : r.periodMonth = d.periodMonth) (hamount : r.amount = -d.amount)
    (hids : ∀ e ∈ s.draws, e.id = d.id → e = d) :
    Standing { s with draws := s.draws ++ [r] } (standing.erase d) where
  drawn grantId counts := by
    have herase := sum_map_erase (drawOf grantId counts) hd
    have hrow : drawOf grantId counts r = -drawOf grantId counts d := by
      unfold drawOf
      rw [hgrant, hmonth, hamount]
      split_ifs <;> simp
    rw [drawn_append, h.drawn, ← herase, hrow]
    ring
  pos e he := h.pos e (mem_of_mem_erase he)
  nodup := h.nodup.erase d
  mem e := by
    rw [h.nodup.mem_erase_iff, h.mem]
    simp only [mem_append, mem_singleton]
    constructor
    · rintro ⟨hne, he, hnone, hstands⟩
      refine ⟨.inl he, hnone, ?_⟩
      rintro q (hq | rfl)
      · exact hstands q hq
      · intro heq
        rw [hreverses] at heq
        exact hne (hids e he (Option.some.inj heq).symm)
    · rintro ⟨he | rfl, hnone, hstands⟩
      · refine ⟨?_, he, hnone, fun q hq => hstands q (.inl hq)⟩
        rintro rfl
        exact hstands r (.inr rfl) hreverses
      · rw [hreverses] at hnone
        cases hnone

/-! ### What every state keeps -/

structure Sound (context : PrepaidContext) (s : PrepaidLedger) : Prop where
  grantIds : s.grants.map (·.id) = List.range s.grants.length
  drawIds : s.draws.map (·.id) = List.range s.draws.length
  drawGrants : ∀ d ∈ s.draws, d.grantId < s.grants.length
  grantAmounts : ∀ g ∈ s.grants, 0 < g.amount ∧ wholeDigitCount g.amount ≤ 15
  sources : ∀ g ∈ s.grants, ∃ source, context.lines g.sourceDocumentLineId = some source ∧
    s.granted g.sourceDocumentLineId ≤ source.lineAmount
  standing : ∃ standing, Standing s standing
  within : ∀ g ∈ s.grants, (s.drawn g.id fun _ => true) ≤ g.amount
  reversals : (s.draws.filterMap (·.reversesDrawId)).Nodup
  originals : ∀ r ∈ s.draws, ∀ id, r.reversesDrawId = some id →
    ∃ d ∈ s.draws, d.id = id ∧ d.reversesDrawId = none
  policies : ∀ grantId, s.policies grantId = none

section

variable {α : Type} {f : α → ℕ} {l : List α} (h : l.map f = List.range l.length)

include h

theorem lt_of_ids {a : α} (ha : a ∈ l) : f a < l.length := by
  have := mem_map_of_mem (f := f) ha
  rwa [h, mem_range] at this

theorem eq_of_ids {a b : α} (ha : a ∈ l) (hb : b ∈ l) (heq : f a = f b) : a = b :=
  inj_on_of_nodup_map (h ▸ nodup_range) ha hb heq

theorem ids_append {a : α} (ha : f a = l.length) :
    (l ++ [a]).map f = List.range (l ++ [a]).length := by
  rw [map_append, h, map_singleton, ha, length_append, length_singleton, range_succ]

end

theorem Sound.drawn_of_new (h : Sound context s) (counts : CivilDate → Bool) :
    s.drawn s.grants.length counts = 0 := by
  refine sum_eq_zero fun x hx => ?_
  obtain ⟨d, hd, rfl⟩ := mem_map.mp hx
  exact if_neg fun heq => (h.drawGrants d hd).ne heq.1

theorem sound_empty (context : PrepaidContext) : Sound context {} where
  grantIds := rfl
  drawIds := rfl
  drawGrants := by simp
  grantAmounts := by simp
  sources := by simp
  standing := ⟨[], fun _ _ => rfl, by simp, nodup_nil, by simp⟩
  within := by simp
  reversals := nodup_nil
  originals := by simp
  policies _ := rfl

theorem exactMoney_eq_ok {amount result : ℤ} {field : String} :
    exactMoney amount field = .ok result ↔ wholeDigitCount amount ≤ 15 ∧ result = amount := by
  simp only [exactMoney, bind_eq_ok, refuseIf_eq_ok, pure_eq_ok, not_lt, exists_const]
  exact and_congr_right fun _ => eq_comm

theorem Sound.createPrepaidGrant (h : Sound context s) {input : CreatePrepaidGrantInput}
    (hs' : PrepaidLedger.createPrepaidGrant context access s input = .ok s') : Sound context s' := by
  simp only [PrepaidLedger.createPrepaidGrant, bind_eq_ok, refuseIf_eq_ok, orRefuse_eq_ok,
    pure_eq_ok, exactMoney_eq_ok] at hs'
  obtain ⟨_, -, _, -, amount, ⟨hdigits, rfl⟩, _, hpos, currency, -, _, -, source, hsource, _, -, _,
    -, _, hremaining, rfl⟩ := hs'
  obtain ⟨hline, -⟩ := Option.filter_eq_some_iff.mp hsource
  have hgranted : ∀ lineId, ({ s with grants := s.grants ++ [{
      id := s.grants.length, customerId := input.customerId
      sourceDocumentLineId := input.sourceDocumentLineId, amount := input.amount
      currency := currency, expiresOn := input.expiresOn }] } : PrepaidLedger).granted lineId =
        s.granted lineId + if input.sourceDocumentLineId = lineId then input.amount else 0 := by
    intro lineId
    unfold granted
    by_cases heq : input.sourceDocumentLineId = lineId <;> simp [heq]
  exact
    { grantIds := ids_append h.grantIds rfl
      drawIds := h.drawIds
      drawGrants := fun d hd => by
        have := h.drawGrants d hd
        simp only [length_append, length_singleton]
        omega
      grantAmounts := by
        simp only [mem_append, mem_singleton]
        rintro g (hg | rfl)
        · exact h.grantAmounts g hg
        · exact ⟨not_le.mp hpos, hdigits⟩
      sources := by
        simp only [mem_append, mem_singleton]
        rintro g (hg | rfl)
        · obtain ⟨source', hline', hle⟩ := h.sources g hg
          refine ⟨source', hline', ?_⟩
          rw [hgranted]
          split_ifs with heq
          · rw [← heq] at hline' ⊢
            obtain rfl := Option.some.inj (hline.symm.trans hline')
            omega
          · omega
        · refine ⟨source, hline, ?_⟩
          rw [hgranted, if_pos rfl]
          dsimp only
          omega
      standing := by
        obtain ⟨standing, hstanding⟩ := h.standing
        exact ⟨standing, hstanding.drawn, hstanding.pos, hstanding.nodup, hstanding.mem⟩
      within := by
        simp only [mem_append, mem_singleton]
        rintro g (hg | rfl)
        · exact h.within g hg
        · exact (h.drawn_of_new _).le.trans (not_le.mp hpos).le
      reversals := h.reversals
      originals := h.originals
      policies := h.policies }

theorem refreshPrepaidBreakage_of_none {periodMonth : CivilDate} (h : s.policies grantId = none) :
    refreshPrepaidBreakage context s grantId periodMonth = .ok () := by
  rw [refreshPrepaidBreakage, h]

variable {g : PrepaidGrant}

theorem mem_of_grant? (h : s.grant? grantId = some g) : g ∈ s.grants ∧ g.id = grantId :=
  ⟨mem_of_find?_eq_some h, by simpa using find?_some h⟩

theorem mem_of_draw? {drawId : ℕ} (h : s.draw? drawId = some d) : d ∈ s.draws ∧ d.id = drawId :=
  ⟨mem_of_find?_eq_some h, by simpa using find?_some h⟩

theorem Sound.recordPrepaidDraw (h : Sound context s) {input : RecordPrepaidDrawInput}
    (hs' : PrepaidLedger.recordPrepaidDraw context access s input = .ok s') : Sound context s' := by
  simp only [PrepaidLedger.recordPrepaidDraw, bind_eq_ok, refuseIf_eq_ok, orRefuse_eq_ok,
    pure_eq_ok, exactMoney_eq_ok] at hs'
  obtain ⟨_, -, _, -, amount, ⟨-, rfl⟩, _, hpos, grant, hgrant, _, -, _, -, _, hbalance, _, -, _, -,
    rfl⟩ := hs'
  obtain ⟨hmem, hid⟩ := mem_of_grant? hgrant
  have hnew : ∀ d ∈ s.draws, d.id ≠ s.draws.length := fun d hd => (lt_of_ids h.drawIds hd).ne
  exact
    { grantIds := h.grantIds
      drawIds := ids_append h.drawIds rfl
      drawGrants := by
        simp only [mem_append, mem_singleton]
        rintro d (hd | rfl)
        · exact h.drawGrants d hd
        · exact hid ▸ lt_of_ids h.grantIds hmem
      grantAmounts := h.grantAmounts
      sources := h.sources
      standing := by
        obtain ⟨standing, hstanding⟩ := h.standing
        refine ⟨_, hstanding.record (not_le.mp hpos) rfl (fun hd => hnew _ hd rfl) ?_⟩
        intro r hr hreverses
        obtain ⟨d, hd, hdid, -⟩ := h.originals r hr _ hreverses
        exact hnew d hd hdid
      within := by
        intro g hg
        rw [drawn_append]
        by_cases heq : input.grantId = g.id
        · obtain rfl := eq_of_ids h.grantIds hg hmem (heq.symm.trans hid.symm)
          rw [heq] at hbalance
          simp only [drawOf, heq, and_self, if_true]
          omega
        · rw [drawOf, if_neg fun hand => heq hand.1, add_zero]
          exact h.within g hg
      reversals := by
        rw [filterMap_append]
        simpa using h.reversals
      originals := by
        simp only [mem_append, mem_singleton]
        rintro r (hr | rfl) id hreverses
        · obtain ⟨d, hd, hdid, hnone⟩ := h.originals r hr id hreverses
          exact ⟨d, .inl hd, hdid, hnone⟩
        · cases hreverses
      policies := h.policies }

theorem Sound.reversePrepaidDraw (h : Sound context s) {drawId : ℕ}
    (hs' : PrepaidLedger.reversePrepaidDraw context access s drawId = .ok s') :
    Sound context s' := by
  simp only [PrepaidLedger.reversePrepaidDraw, bind_eq_ok, refuseIf_eq_ok, orRefuse_eq_ok,
    pure_eq_ok] at hs'
  obtain ⟨_, -, original, horiginal, _, -, _, hnone, _, hfirst, _, -, rfl⟩ := hs'
  obtain ⟨hmem, rfl⟩ := mem_of_draw? horiginal
  rw [not_not] at hnone
  push Not at hfirst
  obtain ⟨standing, hstanding⟩ := h.standing
  have hstands : original ∈ standing := (hstanding.mem original).mpr ⟨hmem, hnone, hfirst⟩
  exact
    { grantIds := h.grantIds
      drawIds := ids_append h.drawIds rfl
      drawGrants := by
        simp only [mem_append, mem_singleton]
        rintro d (hd | rfl)
        · exact h.drawGrants d hd
        · exact h.drawGrants original hmem
      grantAmounts := h.grantAmounts
      sources := h.sources
      standing := ⟨_, hstanding.reverse hstands rfl rfl rfl rfl fun e he heq =>
        eq_of_ids h.drawIds he hmem heq⟩
      within := by
        intro g hg
        have hwithin := h.within g hg
        have hpos := hstanding.pos original hstands
        rw [drawn_append]
        unfold drawOf
        split_ifs
        · dsimp only
          omega
        · omega
      reversals := by
        rw [filterMap_append, nodup_append]
        refine ⟨h.reversals, by simp, ?_⟩
        rintro id hid id' hid' rfl
        obtain ⟨r, hr, hreverses⟩ := mem_filterMap.mp hid
        obtain rfl : original.id = id := by simpa [eq_comm] using hid'
        exact hfirst r hr hreverses
      originals := by
        simp only [mem_append, mem_singleton]
        rintro r (hr | rfl) id hreverses
        · obtain ⟨d, hd, hdid, hnone⟩ := h.originals r hr id hreverses
          exact ⟨d, .inl hd, hdid, hnone⟩
        · exact ⟨original, .inl hmem, Option.some.inj hreverses, hnone⟩
      policies := h.policies }

/-- **Every state reached is sound.** -/
theorem Reached.sound (h : Reached context s) : Sound context s := by
  obtain ⟨operations, hrun⟩ := h
  refine hrun.invariant (sound_empty context) fun s operation s' hsound hstep => ?_
  obtain ⟨operation, access⟩ := operation
  cases operation with
  | createGrant input => exact hsound.createPrepaidGrant hstep
  | recordDraw input => exact hsound.recordPrepaidDraw hstep
  | reverseDraw drawId => exact hsound.reversePrepaidDraw hstep

/-! ### Balances -/

section

variable (h : Sound context s) (hg : g ∈ s.grants)

include h hg

theorem Sound.grant? : s.grant? g.id = some g := by
  cases hfound : s.grant? g.id with
  | none =>
    have := find?_eq_none.mp hfound g hg
    simp at this
  | some g' =>
    obtain ⟨hg', hid⟩ := mem_of_grant? hfound
    rw [eq_of_ids h.grantIds hg' hg hid]

theorem Sound.prepaidBalance (asOf : CivilDate) :
    s.prepaidBalance {} g.id asOf = .ok (g.amount - s.drawn g.id fun month => month ≤ asOf) := by
  simp [PrepaidLedger.prepaidBalance, readSnapshot, h.grant? hg, orRefuse, refuseIf,
    Checked.ok_bind, pure, Except.pure]

theorem Sound.prepaidBalanceForDraw (periodEnd : CivilDate) :
    s.prepaidBalanceForDraw {} g.id periodEnd = .ok (g.amount - s.drawn g.id fun _ => true) := by
  simp [PrepaidLedger.prepaidBalanceForDraw, readSnapshot, h.grant? hg, orRefuse, refuseIf,
    Checked.ok_bind, pure, Except.pure]

end

theorem wholeDigitCount_mono {a b : ℤ} (ha : 0 ≤ a) (hab : a ≤ b) :
    wholeDigitCount a ≤ wholeDigitCount b := by
  have hnat : a.natAbs / 10000 ≤ b.natAbs / 10000 := Nat.div_le_div_right (by omega)
  simp only [wholeDigitCount, if_neg ha.not_gt, if_neg (ha.trans hab).not_gt]
  exact Nat.le_length_digits_le 10 _ _ hnat

/-- **What the writer accepts** of an unexpired grant: anything up to its balance. -/
theorem Sound.recordPrepaidDraw_iff (h : Sound context s) (hg : g ∈ s.grants)
    {runId : Option String} {month : CivilDate} (hmonth : month.day = 1)
    (hexpiry : ∀ expiresOn ∈ g.expiresOn, month ≤ expiresOn)
    (hrun : s.drawnInRun runId g.id month = false) (amount : ℤ) :
    (∃ s', PrepaidLedger.recordPrepaidDraw context {} s
        { grantId := g.id, runId := runId, periodMonth := month, amount := amount } = .ok s') ↔
      0 < amount ∧ amount ≤ g.amount - s.drawn g.id fun _ => true := by
  constructor
  · rintro ⟨s', hs'⟩
    simp only [PrepaidLedger.recordPrepaidDraw, bind_eq_ok, refuseIf_eq_ok, orRefuse_eq_ok,
      pure_eq_ok, exactMoney_eq_ok, h.grant? hg, Option.some.injEq] at hs'
    obtain ⟨_, -, _, -, _, ⟨-, rfl⟩, _, hpos, _, rfl, _, -, _, -, _, hbalance, -⟩ := hs'
    exact ⟨not_le.mp hpos, not_lt.mp hbalance⟩
  · rintro ⟨hpos, hbalance⟩
    obtain ⟨standing, hstanding⟩ := h.standing
    have hdrawn := hstanding.drawn_bounds g.id fun _ => true
    have hdigits : wholeDigitCount amount ≤ 15 :=
      (wholeDigitCount_mono hpos.le (by omega)).trans (h.grantAmounts g hg).2
    simp only [PrepaidLedger.recordPrepaidDraw, bind_eq_ok, refuseIf_eq_ok, orRefuse_eq_ok,
      pure_eq_ok, exactMoney_eq_ok, h.grant? hg, Option.some.injEq]
    refine ⟨_, (), by simp, (), by simpa using hmonth, amount, ⟨hdigits, rfl⟩, (), hpos.not_ge, g, rfl,
      (), by simp, (), ?_, (), hbalance.not_gt, (), by simp [hrun], (),
      refreshPrepaidBreakage_of_none (h.policies g.id), rfl⟩
    rintro ⟨expiresOn, hmem, hlt⟩
    exact absurd hlt (hexpiry expiresOn hmem).not_gt

theorem Sound.length_reversals_le (h : Sound context s) (id : ℕ) :
    (s.draws.filter (·.reversesDrawId = some id)).length ≤ 1 := by
  have hcount := nodup_iff_count_le_one.mp h.reversals id
  rw [count_filterMap, countP_eq_length_filter] at hcount
  refine le_of_eq_of_le (congrArg _ (filter_congr fun d _ => ?_)) hcount
  rw [Bool.eq_iff_iff]
  simp

/-- **Prepaid balances stay within the grant.** -/
theorem prepaid_within_grant (h : Reached context s) :
    (∀ g ∈ s.grants, ∀ asOf, ∃ balance, s.prepaidBalance {} g.id asOf = .ok balance ∧
      0 ≤ balance ∧ balance ≤ g.amount) ∧
    (∀ g ∈ s.grants, ∃ source, context.lines g.sourceDocumentLineId = some source ∧
      s.granted g.sourceDocumentLineId ≤ source.lineAmount) ∧
    (∀ d ∈ s.draws, (s.draws.filter (·.reversesDrawId = some d.id)).length ≤ 1) ∧
    (∀ d ∈ s.draws, d.reversesDrawId ≠ none → ∀ r ∈ s.draws, r.reversesDrawId ≠ some d.id) ∧
    ∀ g ∈ s.grants, ∀ periodEnd, ∃ balance,
      s.prepaidBalanceForDraw {} g.id periodEnd = .ok balance ∧
      ∀ (runId : Option String) (month : CivilDate), month.day = 1 →
        (∀ expiresOn ∈ g.expiresOn, month ≤ expiresOn) →
        s.drawnInRun runId g.id month = false →
        {amount | ∃ s', PrepaidLedger.recordPrepaidDraw context {} s
          { grantId := g.id, runId := runId, periodMonth := month, amount := amount } = .ok s'} =
        Set.Ioc 0 balance := by
  have hsound := h.sound
  obtain ⟨standing, hstanding⟩ := hsound.standing
  refine ⟨fun g hg asOf => ?_, hsound.sources, fun d _ => hsound.length_reversals_le d.id, ?_,
    fun g hg periodEnd => ?_⟩
  · have hwithin := hsound.within g hg
    have hdrawn := hstanding.drawn_bounds g.id fun month => month ≤ asOf
    exact ⟨_, hsound.prepaidBalance hg asOf, by omega, by omega⟩
  · intro d hd hreversal r hr hreverses
    obtain ⟨original, horiginal, hid, hnone⟩ := hsound.originals r hr d.id hreverses
    rw [eq_of_ids hsound.drawIds horiginal hd hid] at hnone
    exact hreversal hnone
  · exact ⟨_, hsound.prepaidBalanceForDraw hg periodEnd, fun runId month hmonth hexpiry hrun =>
      Set.ext fun amount => hsound.recordPrepaidDraw_iff hg hmonth hexpiry hrun amount⟩

/-- An invoice line of 100.0000. -/
def prepaidContext : PrepaidContext where
  lines id :=
    if id = "line" then
      some { customerId := "customer", invoiceCurrency := "CAD", lineAmount := 1000000 }
    else none
  adjustEvents _ _ _ _ := .ok ()

/-- A grant of 80.0000, a draw of 30.0000, and its reversal. -/
def drawnAndReversed : List (PrepaidOperation × PrepaidAccess) :=
  [(.createGrant { customerId := "customer", sourceDocumentLineId := "line", amount := 800000
                   currency := "CAD" }, {}),
    (.recordDraw { grantId := 0, periodMonth := civilDay 2026 3 1, amount := 300000 }, {}),
    (.reverseDraw 0, {})]

theorem prepaid_within_grant_reversed :
    ∃ s, Runs.run (step prepaidContext) {} drawnAndReversed = .ok s ∧ s.draws.length = 2 ∧
      ∀ g ∈ s.grants, ∀ asOf, ∃ balance, s.prepaidBalance {} g.id asOf = .ok balance ∧
        0 ≤ balance ∧ balance ≤ g.amount := by
  obtain ⟨s, hs, hlength⟩ : ∃ s, Runs.run (step prepaidContext) {} drawnAndReversed = .ok s ∧
      decide (s.draws.length = 2) = true := exists_of_any (by decide +kernel)
  have hreached : Reached prepaidContext s := ⟨_, .of_run hs⟩
  exact ⟨s, hs, of_decide_eq_true hlength, (prepaid_within_grant hreached).1⟩

end PrepaidLedger

end OpenBooks
