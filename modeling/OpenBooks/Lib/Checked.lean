import Mathlib.Data.List.Forall2
import Mathlib.Algebra.BigOperators.Group.List.Basic
import Mathlib.Algebra.Order.Ring.Int

/-!
# Computations that may refuse

A fallible program is a chain of `Except` steps: each either refuses, and then nothing after it
runs, or hands a value on. Every fact about what such a program *returns* is therefore read off one
equation `program = .ok result`, by peeling the chain apart one step at a time. This file is the
peeling: one inversion lemma for each way of composing steps.

`Checked.refuseIf` is the guard statement `if p then throw e`, and `Checked.collect` is the loop
that appends what each element of a list contributes.
-/

namespace Checked

open List

variable {ε α β γ : Type}

/-! ### One step -/

variable {x : Except ε α} {f : α → Except ε β}

@[simp] theorem bind_eq_ok {b : β} : (x >>= f) = .ok b ↔ ∃ a, x = .ok a ∧ f a = .ok b := by
  cases x with
  | error e | ok a => simp [bind, Except.bind]

@[simp] theorem map_eq_ok {f : α → β} {b : β} : (f <$> x) = .ok b ↔ ∃ a, x = .ok a ∧ f a = b := by
  cases x with
  | error e | ok a => simp [Functor.map, Except.map]

variable {a : α}

@[simp] theorem pure_eq_ok {b : α} : (pure a : Except ε α) = .ok b ↔ a = b := by
  simp [pure, Except.pure]

@[simp] theorem throw_eq_ok {e : ε} : (throw e : Except ε α) = .ok a ↔ False :=
  ⟨fun h => (nomatch (show Except.error e = Except.ok a from h)), False.elim⟩

theorem ok_bind (a : α) (f : α → Except ε β) : (Except.ok a >>= f) = f a := rfl

/-- The guard statement: refuse with `e` when `p` holds. -/
def refuseIf (p : Prop) [Decidable p] (e : ε) : Except ε Unit :=
  if p then .error e else .ok ()

variable {u : Unit}

@[simp] theorem refuseIf_eq_ok {p : Prop} [Decidable p] {e : ε} : refuseIf p e = .ok u ↔ ¬p := by
  by_cases h : p <;> simp [refuseIf, h]

/-- Run a check only when `p` holds. -/
def onlyIf (p : Prop) [Decidable p] (check : Except ε Unit) : Except ε Unit :=
  if p then check else .ok ()

@[simp] theorem onlyIf_eq_ok {p : Prop} [Decidable p] {check : Except ε Unit} :
    onlyIf p check = .ok u ↔ (p → check = .ok ()) := by
  by_cases h : p <;> simp [onlyIf, h]

/-- Read a value that must be present, refusing with `e` when it is not. -/
def orRefuse (x : Option α) (e : ε) : Except ε α :=
  match x with
  | some a => .ok a
  | none => .error e

@[simp] theorem orRefuse_eq_ok {x : Option α} {e : ε} : orRefuse x e = .ok a ↔ x = some a := by
  cases x <;> simp [orRefuse]

@[simp] theorem mapError_eq_ok {δ : Type} {f : ε → δ} : x.mapError f = .ok a ↔ x = .ok a := by
  cases x <;> simp [Except.mapError]

theorem mapError_ok {δ : Type} (a : α) (f : ε → δ) : (Except.ok a).mapError f = .ok a := rfl

theorem mapError_mapError {δ ζ : Type} (x : Except ε α) (f : ε → δ) (g : δ → ζ) :
    (x.mapError f).mapError g = x.mapError fun e => g (f e) := by
  cases x <;> rfl

theorem exists_of_isOk (h : x.isOk = true) : ∃ a, x = .ok a := by
  cases x with
  | error e => cases h
  | ok a => exact ⟨a, rfl⟩

/-- A computed result, with what a test says of it. -/
theorem exists_of_any {p : α → Bool} (h : x.toOption.any p = true) :
    ∃ a, x = .ok a ∧ p a = true := by
  cases x with
  | error e => cases h
  | ok a => exact ⟨a, rfl, h⟩

/-! ### Loops -/

variable {xs : List α} {ys : List β}

/-- **A loop that returns has run every element**, in order, and kept each
result. -/
theorem mapM_eq_ok : xs.mapM f = .ok ys ↔ List.Forall₂ (fun x y => f x = .ok y) xs ys := by
  induction xs generalizing ys with
  | nil => cases ys <;> simp
  | cons x xs ih =>
    rw [mapM_cons]
    simp only [bind_eq_ok, pure_eq_ok]
    constructor
    · rintro ⟨y, hy, ys', hys, rfl⟩
      exact Forall₂.cons hy (ih.mp hys)
    · intro h
      cases h with
      | cons hy hys => exact ⟨_, hy, _, ih.mpr hys, rfl⟩

/-- **Measuring what a loop returned.** If every result measures as its element
does, the results measure as the elements. -/
theorem mapM_sum (h : xs.mapM f = .ok ys) (μ : β → ℤ) (ν : α → ℤ)
    (hstep : ∀ x ∈ xs, ∀ y, f x = .ok y → μ y = ν x) : (ys.map μ).sum = (xs.map ν).sum := by
  have h' := mapM_eq_ok.mp h
  clear h
  induction h' with
  | nil => rfl
  | @cons x y xs ys hxy _ ih =>
    have hx := hstep x (by simp) y hxy
    have hxs := ih fun z hz => hstep z (by simp [hz])
    rw [map_cons, sum_cons, map_cons, sum_cons, hx, hxs]

/-- What every result of a loop satisfies. -/
theorem forall_of_mapM {P : β → Prop} (h : xs.mapM f = .ok ys) (hstep : ∀ x y, f x = .ok y → P y) :
    ∀ y ∈ ys, P y := by
  have h' := mapM_eq_ok.mp h
  clear h
  induction h' with
  | nil => simp
  | cons hxy _ ih => exact forall_mem_cons.mpr ⟨hstep _ _ hxy, ih⟩

/-- Every element of a loop that returned has its result. -/
theorem exists_of_mapM (h : xs.mapM f = .ok ys) {x : α} (hx : x ∈ xs) : ∃ y ∈ ys, f x = .ok y := by
  have h' := mapM_eq_ok.mp h
  clear h
  induction h' with
  | nil => cases hx
  | @cons z y xs ys hzy _ ih =>
    rcases mem_cons.mp hx with rfl | hx
    · exact ⟨y, by simp, hzy⟩
    · obtain ⟨w, hw, hxw⟩ := ih hx
      exact ⟨w, by simp [hw], hxw⟩

theorem exists_mem_zipIdx {x : α} (hx : x ∈ xs) : ∃ i, (x, i) ∈ xs.zipIdx := by
  obtain ⟨i, hi⟩ := mem_iff_getElem?.mp hx
  exact ⟨i, List.mk_mem_zipIdx_iff_getElem?.mpr hi⟩

/-- A loop none of whose elements refuses returns; and if every result keeps its
element, the results keep the list. -/
theorem exists_mapM {g : β → α} (h : ∀ x ∈ xs, ∃ y, f x = .ok y ∧ g y = x) :
    ∃ ys, xs.mapM f = .ok ys ∧ ys.map g = xs := by
  induction xs with
  | nil => exact ⟨[], rfl, rfl⟩
  | cons x xs ih =>
    obtain ⟨y, hy, hg⟩ := h x (by simp)
    obtain ⟨ys, hys, hgs⟩ := ih fun z hz => h z (by simp [hz])
    exact ⟨y :: ys, by simp [mapM_cons, hy, hys], by simp [hg, hgs]⟩

/-- A loop over the elements that cannot refuse is a map. -/
theorem mapM_ok_of_forall {g : α → β} (h : ∀ x ∈ xs, f x = .ok (g x)) :
    xs.mapM f = .ok (xs.map g) := by
  refine mapM_eq_ok.mpr ?_
  induction xs with
  | nil => exact Forall₂.nil
  | cons x xs ih =>
    exact Forall₂.cons (h x (by simp)) (ih fun y hy => h y (by simp [hy]))

/-- **The invariant rule of a loop over a state.** What holds of the elements done so far
and the state between them holds of all the elements when the loop returns. -/
theorem foldlM_invariant {σ : Type} {f : σ → α → Except ε σ} {s s' : σ} (P : List α → σ → Prop)
    (h : xs.foldlM f s = .ok s') (hstart : P [] s)
    (hstep : ∀ done x rest s s', xs = done ++ x :: rest → P done s → f s x = .ok s' →
      P (done ++ [x]) s') : P xs s' := by
  suffices hrun : ∀ rest done s, xs = done ++ rest → P done s → rest.foldlM f s = .ok s' →
      P xs s' from hrun xs [] s rfl hstart h
  intro rest
  induction rest with
  | nil =>
    intro done s hxs hP hrun
    obtain rfl := pure_eq_ok.mp hrun
    rwa [hxs, append_nil]
  | cons x rest ih =>
    intro done s hxs hP hrun
    rw [foldlM_cons, bind_eq_ok] at hrun
    obtain ⟨s₁, hx, hrest⟩ := hrun
    exact ih (done ++ [x]) s₁ (by simp [hxs]) (hstep done x rest s s₁ hxs hP hx) hrest

/-- The invariant rule, with the promise that the loop returns. -/
theorem exists_foldlM {σ : Type} {f : σ → α → Except ε σ} {s : σ} (P : List α → σ → Prop)
    (hstart : P [] s)
    (hstep : ∀ done x rest s, xs = done ++ x :: rest → P done s →
      ∃ s', f s x = .ok s' ∧ P (done ++ [x]) s') : ∃ s', xs.foldlM f s = .ok s' ∧ P xs s' := by
  suffices hrun : ∀ rest done s, xs = done ++ rest → P done s →
      ∃ s', rest.foldlM f s = .ok s' ∧ P xs s' from hrun xs [] s rfl hstart
  intro rest
  induction rest with
  | nil =>
    intro done s hxs hP
    refine ⟨s, rfl, ?_⟩
    rwa [hxs, append_nil]
  | cons x rest ih =>
    intro done s hxs hP
    obtain ⟨s₁, hx, hP₁⟩ := hstep done x rest s hxs hP
    obtain ⟨s', hrest, hP'⟩ := ih (done ++ [x]) s₁ (by simp [hxs]) hP₁
    exact ⟨s', by rw [foldlM_cons]; exact bind_eq_ok.mpr ⟨s₁, hx, hrest⟩, hP'⟩

/-- A loop of checks passes just when every check does. -/
theorem forM_eq_ok {f : α → Except ε Unit} : xs.forM f = .ok u ↔ ∀ x ∈ xs, f x = .ok () := by
  induction xs with
  | nil => exact iff_of_true rfl (by simp)
  | cons x xs ih =>
    rw [List.forM, bind_eq_ok]
    simp only [mem_cons, forall_eq_or_imp]
    exact ⟨fun ⟨_, hx, hxs⟩ => ⟨hx, ih.mp hxs⟩, fun ⟨hx, hxs⟩ => ⟨(), hx, ih.mpr hxs⟩⟩

/-- The loop that appends to one list what each element contributes. -/
def collect (f : α → Except ε (List β)) (xs : List α) : Except ε (List β) :=
  List.flatten <$> xs.mapM f

section

variable {f : α → Except ε (List β)}

theorem collect_eq_ok :
    collect f xs = .ok ys ↔
      ∃ yss, List.Forall₂ (fun x y => f x = .ok y) xs yss ∧ yss.flatten = ys := by
  simp [collect, mapM_eq_ok]

/-- **Measuring what a loop appended.** If every contribution measures as its
element does, the whole list measures as the sum over the elements. -/
theorem collect_sum (h : collect f xs = .ok ys) (μ : β → ℤ) (ν : α → ℤ)
    (hstep : ∀ x ∈ xs, ∀ y, f x = .ok y → (y.map μ).sum = ν x) :
    (ys.map μ).sum = (xs.map ν).sum := by
  obtain ⟨yss, hf, rfl⟩ := collect_eq_ok.mp h
  induction hf with
  | nil => simp
  | @cons x y xs yss hxy _ ih =>
    have hx := hstep x (by simp) y hxy
    have hxs := ih (fun z hz => hstep z (by simp [hz])) (collect_eq_ok.mpr ⟨_, ‹_›, rfl⟩)
    rw [flatten_cons, map_append, sum_append, hx, hxs, map_cons, sum_cons]

/-- What everything a loop appended satisfies. -/
theorem forall_of_collect {P : β → Prop} (h : collect f xs = .ok ys)
    (hstep : ∀ x zs, f x = .ok zs → ∀ z ∈ zs, P z) : ∀ y ∈ ys, P y := by
  simp only [collect, map_eq_ok] at h
  obtain ⟨yss, hyss, rfl⟩ := h
  intro y hy
  obtain ⟨zs, hzs, hyz⟩ := mem_flatten.mp hy
  exact forall_of_mapM hyss hstep zs hzs y hyz

end

/-- **A loop whose contributions are mapped returns the mapped list**, and refuses
where the loop does. -/
theorem collect_map {f g : α → Except ε (List β)} {r : β → β} (xs : List α)
    (h : ∀ x, g x = List.map r <$> f x) : collect g xs = List.map r <$> collect f xs := by
  have hm : xs.mapM g = List.map (List.map r) <$> xs.mapM f := by
    induction xs with
    | nil => rfl
    | cons x xs ih =>
      rw [mapM_cons, mapM_cons, ih, h]
      cases f x with
      | error e => rfl
      | ok y => cases List.mapM f xs <;> rfl
  rw [collect, collect, hm]
  cases List.mapM f xs with
  | error e => rfl
  | ok yss => simp [Functor.map, Except.map, map_flatten]

end Checked
