import Mathlib.Order.Lattice
import Mathlib.Data.List.Basic

/-!
# Intervals end to end

A list of half-open intervals `[a, b)` of a linear order *tiles* from `c` to `n` when the
first begins at `c`, each begins where the one before ended, and the last ends at `n`
(`Tiling.Tiles`). Intervals that each have a point then cover every point from `c` up to `n`
exactly once (`Tiling.Tiles.countP_eq_one`), and one more interval at the end keeps the
tiling just when it begins where the tiling ended (`Tiling.tiles_append_singleton`).
-/

namespace Tiling

open List

variable {α : Type}

/-- The intervals lie end to end from `c` to `n`. -/
def Tiles : α → List (α × α) → α → Prop
  | c, [], n => c = n
  | c, p :: ps, n => p.1 = c ∧ Tiles p.2 ps n

instance decidableTiles [DecidableEq α] :
    (c : α) → (ps : List (α × α)) → (n : α) → Decidable (Tiles c ps n)
  | c, [], n => inferInstanceAs (Decidable (c = n))
  | _, p :: ps, n =>
    have := decidableTiles p.2 ps n
    inferInstanceAs (Decidable (_ ∧ _))

variable {ps : List (α × α)} {c n : α}

/-- **One interval more.** -/
theorem tiles_append_singleton {p : α × α} : Tiles c (ps ++ [p]) n ↔ Tiles c ps p.1 ∧ p.2 = n := by
  induction ps generalizing c with
  | nil => exact and_congr_left fun _ => eq_comm
  | cons q ps ih =>
    rw [cons_append, Tiles, Tiles, ih, and_assoc]

variable [LinearOrder α]

/-- Whether a point lies in an interval. -/
def Covers (d : α) (p : α × α) : Bool := p.1 ≤ d && d < p.2

theorem Tiles.le (h : Tiles c ps n) (hps : ∀ p ∈ ps, p.1 < p.2) : c ≤ n := by
  induction ps generalizing c with
  | nil => exact le_of_eq h
  | cons p ps ih =>
    obtain ⟨rfl, hrest⟩ := h
    obtain ⟨hp, hps⟩ := forall_mem_cons.mp hps
    exact hp.le.trans (ih hrest hps)

theorem Tiles.snd_le (h : Tiles c ps n) (hps : ∀ p ∈ ps, p.1 < p.2) : ∀ p ∈ ps, p.2 ≤ n := by
  induction ps generalizing c with
  | nil => simp
  | cons p ps ih =>
    obtain ⟨rfl, hrest⟩ := h
    obtain ⟨-, hps⟩ := forall_mem_cons.mp hps
    exact forall_mem_cons.mpr ⟨hrest.le hps, ih hrest hps⟩

theorem countP_eq_zero {d : α} (h : ∀ p ∈ ps, p.2 ≤ d) : ps.countP (Covers d) = 0 := by
  refine List.countP_eq_zero.mpr fun p hp hd => ?_
  simp only [Covers, Bool.and_eq_true, decide_eq_true_eq] at hd
  exact absurd hd.2 (h p hp).not_gt

theorem Tiles.countP_eq_zero_of_lt {d : α} (h : Tiles c ps n) (hps : ∀ p ∈ ps, p.1 < p.2)
    (hd : d < c) : ps.countP (Covers d) = 0 := by
  induction ps generalizing c with
  | nil => rfl
  | cons p ps ih =>
    obtain ⟨rfl, hrest⟩ := h
    obtain ⟨hp, hps⟩ := forall_mem_cons.mp hps
    rw [countP_cons_of_neg, ih hrest hps (hd.trans hp)]
    simp [Covers, hd.not_ge]

/-- **A tiling covers every point from its start up to its end exactly once.** -/
theorem Tiles.countP_eq_one {d : α} (h : Tiles c ps n) (hps : ∀ p ∈ ps, p.1 < p.2) (hc : c ≤ d)
    (hn : d < n) : ps.countP (Covers d) = 1 := by
  induction ps generalizing c with
  | nil =>
    obtain rfl : c = n := h
    exact absurd hn hc.not_gt
  | cons p ps ih =>
    obtain ⟨rfl, hrest⟩ := h
    obtain ⟨hp, hps⟩ := forall_mem_cons.mp hps
    rcases lt_or_ge d p.2 with hd | hd
    · rw [countP_cons_of_pos (by simp [Covers, hc, hd]), hrest.countP_eq_zero_of_lt hps hd]
    · rw [countP_cons_of_neg (by simp [Covers, hd.not_gt]), ih hrest hps hd]

end Tiling
