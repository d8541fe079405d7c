import Mathlib.Algebra.Order.Field.Basic
import Mathlib.Algebra.Order.Group.MinMax
import Mathlib.Data.List.Forall2
import Mathlib.Tactic.Linarith
import Mathlib.Tactic.Ring
import Mathlib.Tactic.SplitIfs

/-!
# Pools that vest

A pool of units stands on a line, and a moving mark on that line – the vesting line – divides it.
Units are taken from the pool at two ends: at the head, where a unit is used, and at the tail, where
a unit is removed. What has vested and is not used is available; what is neither used nor available
is unvested. A draw is limited to the one, to the other, or to both; a draw on both takes from the
tail first.

Of two pools, one dominates the other if more of it is there and less of it is used
(`VestedPool.VestingPool.Dominates`). Dominance is kept by every draw that the dominated pool
allows, which the dominating pool allows as well (`VestedPool.VestingPool.draw_mono`), although the
two may split the draw differently; and a pool before a draw dominates the pool after it. So a
history stays possible when some of its draws are left out: `VestedPool.run_of_sublist`.
-/

namespace VestedPool

open List

variable {α : Type}

/-- A pool: `live` units from the head on are left of it, and the first `used` of them are used. -/
structure VestingPool (α : Type) [LE α] where
  live : α
  used : α
  used_le : used ≤ live

/-- What a draw may take. -/
inductive Reach
  /-- Units that have vested and are not used. -/
  | vested
  /-- Units that are not used, whether they have vested or not. -/
  | ahead
  /-- Units that have not vested, from the tail. -/
  | tail
  /-- Units that are not used, from the tail first. -/
  | either
  deriving DecidableEq

namespace VestingPool

section Dominance

variable [LinearOrder α] {p q r : VestingPool α}

/-- More of the one pool is there, and less of it is used. -/
structure Dominates (p q : VestingPool α) : Prop where
  live : q.live ≤ p.live
  used : p.used ≤ q.used

theorem Dominates.refl (p : VestingPool α) : Dominates p p := ⟨le_rfl, le_rfl⟩

theorem Dominates.trans (h : Dominates p q) (h' : Dominates q r) : Dominates p r :=
  ⟨h'.live.trans h.live, h.used.trans h'.used⟩

end Dominance

variable [Field α] [LinearOrder α]

/-- The units that are left and not used. -/
def outstanding (p : VestingPool α) : α := p.live - p.used

/-- The vested units that are not used. -/
def available (p : VestingPool α) (line : α) : α := max (min line p.live - p.used) 0

/-- The units that are neither used nor available. -/
def unvested (p : VestingPool α) (line : α) : α := p.outstanding - p.available line

theorem available_nonneg (p : VestingPool α) (line : α) : 0 ≤ p.available line := le_max_right _ _

variable [IsStrictOrderedRing α]

theorem outstanding_nonneg (p : VestingPool α) : 0 ≤ p.outstanding := sub_nonneg.mpr p.used_le

theorem available_le (p : VestingPool α) (line : α) : p.available line ≤ p.outstanding :=
  max_le (sub_le_sub_right (min_le_right _ _) _) p.outstanding_nonneg

theorem unvested_nonneg (p : VestingPool α) (line : α) : 0 ≤ p.unvested line :=
  sub_nonneg.mpr (p.available_le line)

theorem unvested_eq (p : VestingPool α) (line : α) :
    p.unvested line = max (p.live - max p.used line) 0 := by
  have hle := p.used_le
  unfold unvested available outstanding
  rcases le_total line p.live with h | h
  · rw [min_eq_left h]
    rcases le_total line p.used with h' | h'
    · rw [max_eq_right (by linarith), max_eq_left h', max_eq_left (by linarith), sub_zero]
    · rw [max_eq_left (by linarith), max_eq_right h', max_eq_left (by linarith)]
      ring
  · rw [min_eq_right h, max_eq_left (by linarith), sub_self, max_eq_right]
    have : line ≤ max p.used line := le_max_right _ _
    linarith

/-- What a draw is limited to. -/
def limit (p : VestingPool α) (reach : Reach) (line : α) : α :=
  match reach with
  | .vested => p.available line
  | .ahead => p.outstanding
  | .tail => p.unvested line
  | .either => p.outstanding

/-- What a draw takes from the tail. -/
def fromTail (p : VestingPool α) (reach : Reach) (line amount : α) : α :=
  match reach with
  | .vested => 0
  | .ahead => 0
  | .tail => amount
  | .either => min amount (p.unvested line)

theorem limit_le (p : VestingPool α) (reach : Reach) (line : α) :
    p.limit reach line ≤ p.outstanding := by
  cases reach with
  | vested => exact p.available_le line
  | ahead => exact le_rfl
  | tail => exact sub_le_self _ (p.available_nonneg line)
  | either => exact le_rfl

theorem limit_nonneg (p : VestingPool α) (reach : Reach) (line : α) : 0 ≤ p.limit reach line := by
  cases reach with
  | vested => exact p.available_nonneg line
  | ahead => exact p.outstanding_nonneg
  | tail => exact p.unvested_nonneg line
  | either => exact p.outstanding_nonneg

/-- A draw within its limit. -/
def draw (p : VestingPool α) (reach : Reach) (line amount : α) (h : amount ≤ p.limit reach line) :
    VestingPool α where
  live := p.live - p.fromTail reach line amount
  used := p.used + (amount - p.fromTail reach line amount)
  used_le := by
    have := h.trans (p.limit_le reach line)
    unfold outstanding at this
    linarith

/-- **A draw takes what it draws**, from whichever end. -/
theorem outstanding_draw (p : VestingPool α) (reach : Reach) (line amount : α)
    (h : amount ≤ p.limit reach line) :
    (p.draw reach line amount h).outstanding = p.outstanding - amount := by
  simp only [outstanding, draw]
  ring

/-! ### Dominance -/

variable {p q : VestingPool α}

theorem Dominates.outstanding (h : Dominates p q) : q.outstanding ≤ p.outstanding :=
  sub_le_sub h.live h.used

theorem Dominates.available (h : Dominates p q) (line : α) : q.available line ≤ p.available line :=
  max_le_max (sub_le_sub (min_le_min le_rfl h.live) h.used) le_rfl

theorem Dominates.unvested (h : Dominates p q) (line : α) : q.unvested line ≤ p.unvested line := by
  rw [unvested_eq, unvested_eq]
  exact max_le_max (sub_le_sub h.live (max_le_max h.used le_rfl)) le_rfl

theorem Dominates.limit (h : Dominates p q) (reach : Reach) (line : α) :
    q.limit reach line ≤ p.limit reach line := by
  cases reach with
  | vested => exact h.available line
  | ahead => exact h.outstanding
  | tail => exact h.unvested line
  | either => exact h.outstanding

variable {amount : α}

theorem live_sub_fromTail (p : VestingPool α) (line : α) (hnonneg : 0 ≤ amount)
    (h : amount ≤ p.outstanding) :
    p.live - p.fromTail .either line amount = max (p.live - amount) (min p.live line) := by
  unfold outstanding at h
  rw [fromTail, unvested_eq]
  rcases le_total p.live line with hline | hline
  · -- everything has vested, and the tail gives nothing
    have hnone : p.live - max p.used line ≤ 0 := by linarith [le_max_right p.used line]
    rw [max_eq_right hnone, min_eq_right hnonneg, min_eq_left hline, max_eq_right (by linarith),
      sub_zero]
  · rw [min_eq_right hline]
    rcases le_total line p.used with hused | hused
    · -- the used units reach behind the vesting line, and the tail gives all
      rw [max_eq_left hused, max_eq_left (by linarith), min_eq_left h, max_eq_left (by linarith)]
    · rw [max_eq_right hused, max_eq_left (by linarith)]
      rcases le_total amount (p.live - line) with hle | hle
      · rw [min_eq_left hle, max_eq_left (by linarith)]
      · rw [min_eq_right hle, max_eq_right (by linarith)]
        ring

theorem draw_either (p : VestingPool α) (line : α) (hnonneg : 0 ≤ amount)
    (h : amount ≤ p.limit .either line) :
    (p.draw .either line amount h).live = max (p.live - amount) (min p.live line) ∧
      (p.draw .either line amount h).used =
        max p.used (p.used + amount + min 0 (line - p.live)) := by
  have hlive := p.live_sub_fromTail line hnonneg h
  refine ⟨hlive, ?_⟩
  have hsub : min 0 (line - p.live) = min p.live line - p.live := by
    rw [← min_sub_sub_right, sub_self]
  have hused : (p.draw .either line amount h).used =
      p.used + amount - p.live + (p.live - p.fromTail .either line amount) := by
    simp only [draw]
    ring
  rw [hused, hlive, hsub, ← max_add_add_left]
  congr 1 <;> ring

/-- **A draw keeps dominance**, however the two pools split it. -/
theorem draw_mono (h : Dominates p q) (reach : Reach) (line : α) (hnonneg : 0 ≤ amount)
    (hq : amount ≤ q.limit reach line) :
    Dominates (p.draw reach line amount (hq.trans (h.limit reach line)))
      (q.draw reach line amount hq) := by
  have hlive := h.live
  have hused := h.used
  cases reach with
  | vested | ahead =>
    exact ⟨by simpa [draw, fromTail] using hlive, by simpa [draw, fromTail] using hused⟩
  | tail => exact ⟨by simpa [draw, fromTail] using hlive, by simpa [draw, fromTail] using hused⟩
  | either =>
    obtain ⟨hplive, hpused⟩ := p.draw_either line hnonneg (hq.trans (h.limit .either line))
    obtain ⟨hqlive, hqused⟩ := q.draw_either line hnonneg hq
    constructor
    · rw [hplive, hqlive]
      exact max_le_max (sub_le_sub_right hlive _) (min_le_min hlive le_rfl)
    · rw [hpused, hqused]
      have hbehind : min 0 (line - p.live) ≤ min 0 (line - q.live) :=
        min_le_min le_rfl (sub_le_sub_left hlive _)
      exact max_le_max hused (by linarith)

theorem fromTail_bounds (p : VestingPool α) (reach : Reach) (line : α) (h : 0 ≤ amount) :
    0 ≤ p.fromTail reach line amount ∧ p.fromTail reach line amount ≤ amount := by
  cases reach with
  | vested | ahead => exact ⟨le_rfl, h⟩
  | tail => exact ⟨h, le_rfl⟩
  | either => exact ⟨le_min h (p.unvested_nonneg line), min_le_left _ _⟩

theorem dominates_draw (p : VestingPool α) (reach : Reach) (line : α) (hnonneg : 0 ≤ amount)
    (h : amount ≤ p.limit reach line) : Dominates p (p.draw reach line amount h) := by
  obtain ⟨htail, hle⟩ := p.fromTail_bounds reach line hnonneg
  exact ⟨sub_le_self _ htail, le_add_of_nonneg_right (sub_nonneg.mpr hle)⟩

end VestingPool

/-! ### Histories -/

section History

variable [Field α] [LinearOrder α] [IsStrictOrderedRing α]

/-- A draw of a history: what it may take, the vesting line on its day, and the amount. -/
structure Draw (α : Type) where
  reach : Reach
  line : α
  amount : α

/-- The pool after a history, if each of its draws is within its limit. -/
def run : VestingPool α → List (Draw α) → Option (VestingPool α)
  | p, [] => some p
  | p, d :: ds =>
    if h : d.amount ≤ p.limit d.reach d.line then run (p.draw d.reach d.line d.amount h) ds
    else none

variable {p q r : VestingPool α} {draws : List (Draw α)}

theorem run_cons_of_le {d : Draw α} (h : d.amount ≤ p.limit d.reach d.line)
    (draws : List (Draw α)) :
    run p (d :: draws) = run (p.draw d.reach d.line d.amount h) draws :=
  dif_pos h

theorem run_cons_of_lt {d : Draw α} (h : p.limit d.reach d.line < d.amount)
    (draws : List (Draw α)) : run p (d :: draws) = none :=
  dif_neg (not_le.mpr h)

/-- **A history takes what it draws.** -/
theorem outstanding_run (h : run p draws = some q) :
    q.outstanding = p.outstanding - (draws.map Draw.amount).sum := by
  induction draws generalizing p with
  | nil =>
    obtain rfl := Option.some.inj h
    rw [map_nil, sum_nil, sub_zero]
  | cons d draws ih =>
    rw [run] at h
    split_ifs at h with hle
    rw [ih h, VestingPool.outstanding_draw, map_cons, sum_cons]
    ring

/-- **A history stays possible when some of its draws are left out**, or when more is there to
begin with; and what is left then dominates what was left before. -/
theorem run_of_sublist {fewer : List (Draw α)} (hfewer : fewer.Sublist draws)
    (hnonneg : ∀ d ∈ draws, 0 ≤ d.amount) (hdominates : VestingPool.Dominates p q)
    (h : run q draws = some r) : ∃ r', run p fewer = some r' ∧ VestingPool.Dominates r' r := by
  induction hfewer generalizing p q with
  | slnil =>
    obtain rfl := Option.some.inj h
    exact ⟨p, rfl, hdominates⟩
  | @cons fewer draws d _ ih =>
    have hd := hnonneg d mem_cons_self
    rw [run] at h
    split_ifs at h with hle
    exact ih (fun d' hd' => hnonneg d' (mem_cons_of_mem _ hd'))
      (hdominates.trans (q.dominates_draw d.reach d.line hd hle)) h
  | @cons_cons fewer draws d _ ih =>
    have hd := hnonneg d mem_cons_self
    rw [run] at h
    split_ifs at h with hle
    rw [run_cons_of_le (hle.trans (hdominates.limit d.reach d.line))]
    exact ih (fun d' hd' => hnonneg d' (mem_cons_of_mem _ hd'))
      (VestingPool.draw_mono hdominates d.reach d.line hd hle) h

theorem run_append (draws later : List (Draw α)) :
    run p (draws ++ later) = (run p draws).bind fun q => run q later := by
  induction draws generalizing p with
  | nil => rfl
  | cons d draws ih =>
    rw [cons_append, run, run]
    split_ifs
    · exact ih
    · rfl

end History

end VestedPool
