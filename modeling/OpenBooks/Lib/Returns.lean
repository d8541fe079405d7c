import OpenBooks.Lib.Checked

/-!
# Computations that return

`Checked.Returns x` says that a fallible computation is not refused. One rule for each way of
composing steps; a loop over a state is `Checked.exists_foldlM`.

`Checked.YieldsUnless e x P` says that it is refused for no reason but `e`, and otherwise returns
a value with the property `P`. It has the same rules.
-/

namespace Checked

open List

variable {ε α β : Type}

/-- The computation is not refused. -/
def Returns (x : Except ε α) : Prop := ∃ a, x = .ok a

@[simp] theorem returns_ok (a : α) : Returns (.ok a : Except ε α) := ⟨a, rfl⟩

@[simp] theorem returns_pure (a : α) : Returns (pure a : Except ε α) := ⟨a, rfl⟩

variable {x : Except ε α} {f : α → Except ε β}

theorem Returns.bind (hx : Returns x) (hf : ∀ a, x = .ok a → Returns (f a)) :
    Returns (x >>= f) := by
  obtain ⟨a, ha⟩ := hx
  obtain ⟨b, hb⟩ := hf a ha
  exact ⟨b, bind_eq_ok.mpr ⟨a, ha, hb⟩⟩

theorem Returns.map (hx : Returns x) (f : α → β) : Returns (f <$> x) := by
  obtain ⟨a, ha⟩ := hx
  exact ⟨f a, map_eq_ok.mpr ⟨a, ha, rfl⟩⟩

theorem returns_refuseIf {p : Prop} [Decidable p] {e : ε} (h : ¬p) :
    Returns (refuseIf p e) := ⟨(), refuseIf_eq_ok.mpr h⟩

variable {xs : List α}

theorem returns_mapM (h : ∀ x ∈ xs, Returns (f x)) : Returns (xs.mapM f) := by
  induction xs with
  | nil => exact ⟨[], rfl⟩
  | cons x xs ih =>
    rw [mapM_cons]
    exact (h x (by simp)).bind fun y _ => (ih fun z hz => h z (by simp [hz])).bind fun ys _ =>
      returns_pure _

theorem returns_ite {p : Prop} [Decidable p] {y : Except ε α} (hx : p → Returns x)
    (hy : ¬p → Returns y) : Returns (if p then x else y) := by
  split_ifs with h
  · exact hx h
  · exact hy h

theorem returns_foldlM {σ : Type} {f : σ → α → Except ε σ} (P : σ → Prop) {s : σ} (hs : P s)
    (h : ∀ s, P s → ∀ x ∈ xs, ∃ s', f s x = .ok s' ∧ P s') :
    ∃ s', xs.foldlM f s = .ok s' ∧ P s' := by
  induction xs generalizing s with
  | nil => exact ⟨s, rfl, hs⟩
  | cons x xs ih =>
    obtain ⟨s₁, hx, hs₁⟩ := h s hs x (by simp)
    rw [foldlM_cons, hx]
    exact ih hs₁ fun s hs y hy => h s hs y (by simp [hy])

/-! ### Refused for one reason only -/

/-- The computation returns a value with the property, or is refused for the one reason. -/
def YieldsUnless (e : ε) (x : Except ε α) (P : α → Prop) : Prop :=
  x = .error e ∨ ∃ a, x = .ok a ∧ P a

variable {e : ε} {P : α → Prop}

theorem yields_ok {a : α} (h : P a) : YieldsUnless e (.ok a) P := .inr ⟨a, rfl, h⟩

theorem yields_pure {a : α} (h : P a) : YieldsUnless e (pure a) P := yields_ok h

theorem YieldsUnless.bind {Q : β → Prop} (hx : YieldsUnless e x P)
    (hf : ∀ a, P a → YieldsUnless e (f a) Q) : YieldsUnless e (x >>= f) Q := by
  rcases hx with rfl | ⟨a, rfl, ha⟩
  · exact .inl rfl
  · exact hf a ha

theorem YieldsUnless.map {f : α → β} {Q : β → Prop} (hx : YieldsUnless e x P)
    (hf : ∀ a, P a → Q (f a)) : YieldsUnless e (f <$> x) Q := by
  rcases hx with rfl | ⟨a, rfl, ha⟩
  · exact .inl rfl
  · exact .inr ⟨f a, rfl, hf a ha⟩

theorem YieldsUnless.mapError {δ : Type} (hx : YieldsUnless e x P) (f : ε → δ) :
    YieldsUnless (f e) (x.mapError f) P := by
  rcases hx with rfl | ⟨a, rfl, ha⟩
  · exact .inl rfl
  · exact .inr ⟨a, rfl, ha⟩

theorem yields_mapM {R : α → β → Prop} (h : ∀ x ∈ xs, YieldsUnless e (f x) (R x)) :
    YieldsUnless e (xs.mapM f) (List.Forall₂ R xs) := by
  induction xs with
  | nil => exact yields_pure .nil
  | cons x xs ih =>
    rw [mapM_cons]
    exact (h x (by simp)).bind fun y hy => (ih fun z hz => h z (by simp [hz])).bind fun ys hys =>
      yields_pure (.cons hy hys)

/-- A loop, with what holds of the state after each prefix of the list. -/
theorem yields_foldlM {σ : Type} {f : σ → α → Except ε σ} {P : List α → σ → Prop} {all : List α}
    (h : ∀ done x rest, all = done ++ x :: rest → ∀ s, P done s →
      YieldsUnless e (f s x) (P (done ++ [x]))) {s : σ} (hs : P [] s) :
    YieldsUnless e (all.foldlM f s) (P all) := by
  suffices hrun : ∀ xs done s, all = done ++ xs → P done s →
      YieldsUnless e (xs.foldlM f s) (P all) from hrun all [] s rfl hs
  intro xs
  induction xs with
  | nil =>
    intro done s hall hdone
    rw [hall, append_nil]
    exact yields_pure hdone
  | cons x xs ih =>
    intro done s hall hdone
    rw [foldlM_cons]
    exact (h done x xs hall s hdone).bind fun s' hs' => ih (done ++ [x]) s' (by simp [hall]) hs'

end Checked
