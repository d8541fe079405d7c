import Mathlib.Order.Lattice
import Mathlib.Data.List.Basic

/-!
# Windows that are kept apart

A *window* of a linear order has a first point and may have a last one, which is part of it.
Two windows are *apart* when one ends before the other begins. This is more than having no point
in common when one of them is empty, and it is what survives every way of making a window
smaller (`Windows.Apart.mono`): a window that is closed early, or split into two, stays apart
from all that it was apart from. A list of windows that are pairwise apart holds each point at
most once (`Windows.countP_holds`).
-/

namespace Windows

structure Window (α : Type) where
  first : α
  last : Option α

variable {α : Type} [LinearOrder α]

/-- Whether a point lies in a window. -/
def Window.Holds (w : Window α) (d : α) : Bool := w.first ≤ d && w.last.all (d ≤ ·)

variable {w : Window α} {d : α}

theorem Window.holds_iff : w.Holds d = true ↔ w.first ≤ d ∧ ∀ l ∈ w.last, d ≤ l := by
  cases hl : w.last <;> simp [Holds, hl]

/-- One window ends before the other begins. -/
def Apart (a b : Window α) : Prop :=
  (∃ l ∈ a.last, l < b.first) ∨ ∃ l ∈ b.last, l < a.first

variable {a b : Window α}

theorem Apart.symm (h : Apart a b) : Apart b a := Or.symm h

/-- **Windows that are apart have no point in common.** -/
theorem Apart.not_holds (h : Apart a b) (ha : a.Holds d = true) : b.Holds d = false := by
  rw [Bool.eq_false_iff]
  intro hb
  obtain ⟨hfirst, hlast⟩ := Window.holds_iff.mp ha
  obtain ⟨hfirst', hlast'⟩ := Window.holds_iff.mp hb
  rcases h with ⟨l, hl, hlt⟩ | ⟨l, hl, hlt⟩
  · exact absurd ((hlast l hl).trans_lt hlt) hfirst'.not_gt
  · exact absurd ((hlast' l hl).trans_lt hlt) hfirst.not_gt

/-- A window cut down: it begins no sooner, and ends no later. -/
def Within (a b : Window α) : Prop :=
  b.first ≤ a.first ∧ ∀ l ∈ b.last, ∃ l' ∈ a.last, l' ≤ l

theorem Within.refl (a : Window α) : Within a a := ⟨le_refl _, fun l hl => ⟨l, hl, le_refl l⟩⟩

/-- **A window cut down stays apart** from all that it was apart from. -/
theorem Apart.mono {a' b' : Window α} (h : Apart a b) (ha : Within a' a) (hb : Within b' b) :
    Apart a' b' := by
  rcases h with ⟨l, hl, hlt⟩ | ⟨l, hl, hlt⟩
  · obtain ⟨l', hl', hle⟩ := ha.2 l hl
    exact .inl ⟨l', hl', (hle.trans_lt hlt).trans_le hb.1⟩
  · obtain ⟨l', hl', hle⟩ := hb.2 l hl
    exact .inr ⟨l', hl', (hle.trans_lt hlt).trans_le ha.1⟩

theorem within_close {c : α} (h : w.Holds d = true) (hc : c ≤ d) :
    Within { w with last := some c } w :=
  ⟨le_refl _, fun l hl => ⟨c, rfl, hc.trans ((Window.holds_iff.mp h).2 l hl)⟩⟩

theorem within_enter (h : w.Holds d = true) : Within { w with first := d } w :=
  ⟨(Window.holds_iff.mp h).1, fun l hl => ⟨l, hl, le_refl l⟩⟩

variable {β : Type}

/-- **Windows that are pairwise apart hold each point at most once**: the number of those that
hold it is one or nothing. -/
theorem countP_holds {window : β → Window α} {xs : List β}
    (h : xs.Pairwise fun x y => Apart (window x) (window y)) (d : α) :
    xs.countP (fun x => (window x).Holds d) =
      if xs.any (fun x => (window x).Holds d) then 1 else 0 := by
  induction xs with
  | nil => rfl
  | cons x xs ih =>
    obtain ⟨hx, hxs⟩ := List.pairwise_cons.mp h
    rw [List.countP_cons, List.any_cons]
    cases hd : (window x).Holds d with
    | false => rw [ih hxs, Bool.false_or, if_neg Bool.false_ne_true, Nat.add_zero]
    | true =>
      have hnone : xs.countP (fun y => (window y).Holds d) = 0 := by
        refine List.countP_eq_zero.mpr fun y hy => ?_
        rw [(hx y hy).not_holds hd]
        exact Bool.false_ne_true
      rw [hnone, Bool.true_or, if_pos rfl]

end Windows
