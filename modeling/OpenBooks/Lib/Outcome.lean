import OpenBooks.Lib.Checked

/-!
# What computations that may refuse come to

Two ways of saying it for a whole computation, each with the rule for sequencing.

* `Checked.Delivers`: one run. A value satisfies the postcondition, a refusal is an
  allowed one.
* `Checked.Parallel`: two runs of the same program on related data. They return related
  values or refuse alike, unless one of them quits – runs out of some resource, where
  nothing can be said of the other.
-/

namespace Checked

variable {ε α β α' β' : Type}

/-! ### One run -/

/-- Values satisfy `P`, refusals are `allowed`. -/
def Delivers (allowed : ε → Prop) (P : α → Prop) : Except ε α → Prop
  | .ok a => P a
  | .error e => allowed e

variable {f : α → Except ε β}

section Delivers

variable {allowed : ε → Prop} {P : α → Prop} {Q : β → Prop} {x : Except ε α}

theorem Delivers.mono {P' : α → Prop} (hx : Delivers allowed P x) (hP : ∀ a, P a → P' a) :
    Delivers allowed P' x := by
  cases x with
  | ok a => exact hP a hx
  | error e => exact hx

theorem Delivers.bind (hx : Delivers allowed P x) (hf : ∀ a, P a → Delivers allowed Q (f a)) :
    Delivers allowed Q (x >>= f) := by
  cases x with
  | ok a => exact hf a hx
  | error e => exact hx

theorem Delivers.map {f : α → β} (hx : Delivers allowed P x) (hf : ∀ a, P a → Q (f a)) :
    Delivers allowed Q (f <$> x) := by
  cases x with
  | ok a => exact hf a hx
  | error e => exact hx

theorem Delivers.refuseIf {p : Prop} [Decidable p] {e : ε} (he : p → allowed e) :
    Delivers allowed (fun _ => ¬p) (refuseIf p e) := by
  by_cases hp : p
  · rw [Checked.refuseIf, if_pos hp]
    exact he hp
  · rw [Checked.refuseIf, if_neg hp]
    exact hp

theorem Delivers.orRefuse {o : Option α} {e : ε} (he : o = none → allowed e) :
    Delivers allowed (fun a => o = some a) (orRefuse o e) := by
  cases o with
  | none => exact he rfl
  | some a => rfl

theorem Delivers.mapError {ε' : Type} {f : ε → ε'} {allowed' : ε' → Prop}
    (hx : Delivers allowed P x) (hf : ∀ e, allowed e → allowed' (f e)) :
    Delivers allowed' P (x.mapError f) := by
  cases x with
  | ok a => exact hx
  | error e => exact hf e hx

theorem Delivers.mapM {S : α → β → Prop} {xs : List α}
    (h : ∀ a ∈ xs, Delivers allowed (S a) (f a)) :
    Delivers allowed (List.Forall₂ S xs) (xs.mapM f) := by
  induction xs with
  | nil => exact .nil
  | cons a xs ih =>
    rw [List.mapM_cons]
    refine (h a (by simp)).bind fun b hb => ?_
    refine (ih fun c hc => h c (by simp [hc])).bind fun bs hbs => ?_
    exact .cons hb hbs

/-- The invariant rule of a loop over a state that may refuse. -/
theorem Delivers.foldlM {σ : Type} {f : σ → α → Except ε σ} {xs : List α} {s : σ}
    (I : List α → σ → Prop) (hstart : I [] s)
    (hstep : ∀ done x rest s, xs = done ++ x :: rest → I done s →
      Delivers allowed (I (done ++ [x])) (f s x)) : Delivers allowed (I xs) (xs.foldlM f s) := by
  suffices hrun : ∀ rest done s, xs = done ++ rest → I done s →
      Delivers allowed (I xs) (rest.foldlM f s) from hrun xs [] s rfl hstart
  intro rest
  induction rest with
  | nil =>
    intro done s hxs hI
    rw [hxs, List.append_nil]
    exact hI
  | cons x rest ih =>
    intro done s hxs hI
    rw [List.foldlM_cons]
    exact (hstep done x rest s hxs hI).bind fun s' hs' =>
      ih (done ++ [x]) s' (by simp [hxs]) hs'

end Delivers

/-! ### Two runs -/

/-- Two runs that return related values or refuse alike, unless one of them quits. -/
inductive Parallel (quits : ε → Prop) (R : α → α' → Prop) : Except ε α → Except ε α' → Prop
  | quitsLeft {e : ε} {y : Except ε α'} : quits e → Parallel quits R (.error e) y
  | quitsRight {x : Except ε α} {e : ε} : quits e → Parallel quits R x (.error e)
  | returns {a : α} {b : α'} : R a b → Parallel quits R (.ok a) (.ok b)
  | refuses (e : ε) : Parallel quits R (.error e) (.error e)

section Parallel

variable {quits : ε → Prop} {R : α → α' → Prop} {S : β → β' → Prop} {x : Except ε α}
  {y : Except ε α'}

theorem Parallel.bind {g : α' → Except ε β'} (h : Parallel quits R x y)
    (hfg : ∀ a b, R a b → Parallel quits S (f a) (g b)) : Parallel quits S (x >>= f) (y >>= g) := by
  cases h with
  | quitsLeft hq => exact .quitsLeft hq
  | quitsRight hq => exact .quitsRight hq
  | returns hR => exact hfg _ _ hR
  | refuses e => exact .refuses e

theorem Parallel.map {f : α → β} {g : α' → β'} (h : Parallel quits R x y)
    (hfg : ∀ a b, R a b → S (f a) (g b)) : Parallel quits S (f <$> x) (g <$> y) := by
  cases h with
  | quitsLeft hq => exact .quitsLeft hq
  | quitsRight hq => exact .quitsRight hq
  | returns hR => exact .returns (hfg _ _ hR)
  | refuses e => exact .refuses e

end Parallel

end Checked
