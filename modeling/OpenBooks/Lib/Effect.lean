import Mathlib.Order.Defs.Unbundled

/-!
# Programs that change a state and may fail

A sequence of calls on some external state – a disk, an object store – that stops at the
first call that fails. What was done before the failure stays done: the state a program ends
in is there whether it returned or not, which is why the program is not an `Except` over a
state but the other way round.

`Effect.Keeps` is the frame rule for such programs. A preorder says what may change, and a
program keeps to it if each of its calls does; nothing has to be said about which of them
were reached.
-/

/-- A program over a state, which returns a value or fails. -/
abbrev Effect (σ ε α : Type) := ExceptT ε (StateM σ) α

namespace Effect

variable {σ ε α β : Type}

/-- What a program returns from a state, and the state it leaves. -/
def outcome (m : Effect σ ε α) (s : σ) : Except ε α × σ := (ExceptT.run m).run s

/-- A single call. -/
def perform (f : σ → Except ε α × σ) : Effect σ ε α := ExceptT.mk f

@[simp] theorem outcome_perform (f : σ → Except ε α × σ) (s : σ) : (perform f).outcome s = f s := rfl

theorem outcome_bind (m : Effect σ ε α) (f : α → Effect σ ε β) (s : σ) :
    (m >>= f).outcome s =
      match m.outcome s with
      | (.ok a, s') => (f a).outcome s'
      | (.error e, s') => (.error e, s') := by
  change (ExceptT.run (m >>= f)).run s = _
  rw [ExceptT.run_bind, StateT.run_bind]
  cases h : m.outcome s with
  | mk result s' =>
    cases result with
    | ok a | error e => simp only [outcome] at h; simp only [h]; rfl

/-- A check made before anything is called. -/
def check (x : Except ε α) : Effect σ ε α :=
  match x with
  | .ok a => pure a
  | .error e => throw e

@[simp] theorem check_ok (a : α) : (check (.ok a) : Effect σ ε α) = pure a := rfl

/-- A failure under another name. -/
def mapFailure (f : ε → ε) (m : Effect σ ε α) : Effect σ ε α :=
  perform fun s => ((m.outcome s).1.mapError f, (m.outcome s).2)

/-! ### What a program leaves alone -/

/-- Whatever a program does, the state before and the state after are related. -/
def Keeps (R : σ → σ → Prop) (m : Effect σ ε α) : Prop := ∀ s, R s (m.outcome s).2

variable {R : σ → σ → Prop}

theorem Keeps.mapFailure {m : Effect σ ε α} (h : Keeps R m) (f : ε → ε) :
    Keeps R (m.mapFailure f) := h

section Preorder

variable [IsPreorder σ R]

theorem Keeps.pure (a : α) : Keeps R (Pure.pure a : Effect σ ε α) := fun s => refl_of R s

theorem Keeps.throw (e : ε) : Keeps R (MonadExcept.throw e : Effect σ ε α) := fun s => refl_of R s

theorem Keeps.check (x : Except ε α) : Keeps R (check x : Effect σ ε α) := by
  cases x with
  | ok a => exact Keeps.pure a
  | error e => exact Keeps.throw e

/-- **The frame rule.** A program in two parts keeps what both parts keep. -/
theorem Keeps.bind {m : Effect σ ε α} {f : α → Effect σ ε β} (hm : Keeps R m)
    (hf : ∀ a, Keeps R (f a)) : Keeps R (m >>= f) := by
  intro s
  have hs := hm s
  rw [outcome_bind]
  rcases hresult : m.outcome s with ⟨result, s'⟩
  rw [hresult] at hs
  cases result with
  | ok a => exact trans_of R hs (hf a s')
  | error e => exact hs

end Preorder

end Effect
