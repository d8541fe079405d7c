import Mathlib.Algebra.Order.Ring.Rat
import Mathlib.Tactic.Linarith
import Mathlib.Tactic.Ring

/-!
# Marginal bands

A table of bands cuts the line above a floor at rising ceilings, the last band open at the
top, and gives each piece a rate. The price of an interval is what its overlap with each
band costs at that band's rate.

The two facts that matter: the price is **additive** in the interval
(`Bands.price_add`), so however an interval is cut the pieces cost what the whole does; and
only the bands an interval meets contribute (`Bands.price_of_le`), so a walk may start at
the band it stands in and stop when it has come to the end.
-/

namespace Bands

/-- A band, up to its ceiling if it has one. -/
structure Band where
  top : Option ℤ
  rate : ℚ

/-- Rising ceilings above a floor, and an open top. -/
def Table : ℤ → List Band → Prop
  | _, [] => False
  | floor, band :: bands =>
    match band.top with
    | none => bands = []
    | some top => floor < top ∧ Table top bands

/-- The length of what an interval and a band share. -/
def overlap (floor : ℤ) (top : Option ℤ) (lo hi : ℤ) : ℤ :=
  max 0 (top.elim hi (min hi) - max lo floor)

/-- What an interval costs. -/
def price : ℤ → List Band → ℤ → ℤ → ℚ
  | _, [], _, _ => 0
  | floor, band :: bands, lo, hi =>
    overlap floor band.top lo hi * band.rate + price (band.top.getD hi) bands lo hi

/-- How many bands an interval meets. -/
def pieces : ℤ → List Band → ℤ → ℤ → ℕ
  | _, [], _, _ => 0
  | floor, band :: bands, lo, hi =>
    (if 0 < overlap floor band.top lo hi then 1 else 0) + pieces (band.top.getD hi) bands lo hi

variable {floor lo lo' mid hi : ℤ} {bands : List Band}

theorem overlap_of_le (top : Option ℤ) (h : hi ≤ lo ∨ hi ≤ floor) : overlap floor top lo hi = 0 := by
  cases top <;> simp only [overlap, Option.elim] <;> omega

theorem table_cons {band : Band} :
    Table floor (band :: bands) ↔ band.top = none ∧ bands = [] ∨
      ∃ top, band.top = some top ∧ floor < top ∧ Table top bands := by
  rw [Table]
  cases band.top <;> simp

theorem price_of_le (htable : Table floor bands) (h : hi ≤ lo ∨ hi ≤ floor) :
    price floor bands lo hi = 0 := by
  induction bands generalizing floor with
  | nil => rfl
  | cons band bands ih =>
    rw [price, overlap_of_le _ h]
    obtain ⟨htop, rfl⟩ | ⟨top, htop, hlt, hrest⟩ := table_cons.mp htable
    · simp [price]
    · simp [htop, ih hrest (h.imp_right hlt.le.trans')]

theorem pieces_of_le (htable : Table floor bands) (h : hi ≤ lo ∨ hi ≤ floor) :
    pieces floor bands lo hi = 0 := by
  induction bands generalizing floor with
  | nil => rfl
  | cons band bands ih =>
    rw [pieces, overlap_of_le _ h]
    obtain ⟨htop, rfl⟩ | ⟨top, htop, hlt, hrest⟩ := table_cons.mp htable
    · simp [pieces]
    · simp [htop, ih hrest (h.imp_right hlt.le.trans')]

/-- Below the floor it does not matter where an interval starts. -/
theorem overlap_low (top : Option ℤ) (h : lo ≤ floor) (h' : lo' ≤ floor) :
    overlap floor top lo hi = overlap floor top lo' hi := by
  simp only [overlap, max_eq_right h, max_eq_right h']

theorem price_low (htable : Table floor bands) (h : lo ≤ floor) (h' : lo' ≤ floor) :
    price floor bands lo hi = price floor bands lo' hi := by
  induction bands generalizing floor with
  | nil => rfl
  | cons band bands ih =>
    rw [price, price, overlap_low _ h h']
    obtain ⟨htop, rfl⟩ | ⟨top, htop, hlt, hrest⟩ := table_cons.mp htable
    · simp [price]
    · rw [htop, Option.getD_some, ih hrest (h.trans hlt.le) (h'.trans hlt.le)]

theorem pieces_low (htable : Table floor bands) (h : lo ≤ floor) (h' : lo' ≤ floor) :
    pieces floor bands lo hi = pieces floor bands lo' hi := by
  induction bands generalizing floor with
  | nil => rfl
  | cons band bands ih =>
    rw [pieces, pieces, overlap_low _ h h']
    obtain ⟨htop, rfl⟩ | ⟨top, htop, hlt, hrest⟩ := table_cons.mp htable
    · simp [pieces]
    · rw [htop, Option.getD_some, ih hrest (h.trans hlt.le) (h'.trans hlt.le)]

theorem overlap_add (floor : ℤ) (top : Option ℤ) (htop : ∀ t ∈ top, floor < t) (h : lo ≤ mid)
    (h' : mid ≤ hi) :
    overlap floor top lo mid + overlap floor top mid hi = overlap floor top lo hi := by
  cases top with
  | none =>
    simp only [overlap, Option.elim]
    omega
  | some t =>
    have := htop t rfl
    simp only [overlap, Option.elim]
    omega

/-- **The price of an interval is the price of its parts.** -/
theorem price_add (htable : Table floor bands) (h : lo ≤ mid) (h' : mid ≤ hi) :
    price floor bands lo mid + price floor bands mid hi = price floor bands lo hi := by
  induction bands generalizing floor with
  | nil => simp [price]
  | cons band bands ih =>
    obtain ⟨htop, rfl⟩ | ⟨top, htop, hlt, hrest⟩ := table_cons.mp htable
    · have hover := overlap_add floor none (by simp) h h'
      simp only [price, htop, add_zero, ← hover]
      push_cast
      ring
    · have hover := overlap_add floor (some top) (by simpa using hlt) h h'
      simp only [price, htop, Option.getD_some, ← hover, ← ih hrest]
      push_cast
      ring

end Bands
