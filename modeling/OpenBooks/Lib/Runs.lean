import Mathlib.Order.Defs.Unbundled
import Mathlib.Tactic.SplitIfs

/-!
# Runs of accepted operations

A program that changes a state only by operations it may refuse: a refused operation leaves
the state as it was, so the states that can be reached are those after sequences of accepted
operations. `Runs.Reached.invariant` is the induction over such a sequence, made once: what
holds at the start and is kept by every accepted operation holds of every state reached.
-/

namespace Runs

open List

variable {σ ι ε : Type}

/-- The states after sequences of accepted operations, in the order in which they were made. -/
inductive Reached (step : σ → ι → Except ε σ) (start : σ) : List ι → σ → Prop
  | start : Reached step start [] start
  | step {operations : List ι} {s s' : σ} {operation : ι} :
      Reached step start operations s → step s operation = .ok s' →
        Reached step start (operations ++ [operation]) s'

variable {step : σ → ι → Except ε σ} {start s : σ} {operations : List ι}

/-- **The invariant rule.** -/
theorem Reached.invariant {P : σ → Prop} (h : Reached step start operations s) (hstart : P start)
    (hstep : ∀ s operation s', P s → step s operation = .ok s' → P s') : P s := by
  induction h with
  | start => exact hstart
  | step _ hop ih => exact hstep _ _ _ ih hop

/-- The states after sequences of accepted operations that each meet a condition, on the state in
which it is made. -/
inductive ReachedBy (condition : σ → ι → Prop) (step : σ → ι → Except ε σ) (start : σ) : σ → Prop
  | start : ReachedBy condition step start start
  | step {s s' : σ} {operation : ι} : ReachedBy condition step start s → condition s operation →
      step s operation = .ok s' → ReachedBy condition step start s'

/-- **The invariant rule**, for operations that meet a condition. -/
theorem ReachedBy.invariant {condition : σ → ι → Prop} {P : σ → Prop}
    (h : ReachedBy condition step start s) (hstart : P start)
    (hstep : ∀ s operation s', P s → condition s operation → step s operation = .ok s' → P s') :
    P s := by
  induction h with
  | start => exact hstart
  | step _ hcondition hop ih => exact hstep _ _ _ ih hcondition hop

theorem Reached.one {operation : ι} {s' : σ} (h : step start operation = .ok s') :
    Reached step start [operation] s' :=
  .step .start h

/-- Sequences follow one another. -/
theorem Reached.append {later : List ι} {s' : σ} (h : Reached step start operations s)
    (h' : Reached step s later s') : Reached step start (operations ++ later) s' := by
  induction h' with
  | start => rwa [append_nil]
  | step _ hop ih =>
    rw [← append_assoc]
    exact .step ih hop

/-- The operations one after another, refused if one of them is. -/
def run (step : σ → ι → Except ε σ) (s : σ) (operations : List ι) : Except ε σ :=
  operations.foldlM step s

theorem Reached.of_run (h : run step start operations = .ok s) :
    Reached step start operations s := by
  induction operations generalizing start with
  | nil =>
    cases h
    exact .start
  | cons operation rest ih =>
    rw [run, foldlM_cons] at h
    cases hop : step start operation with
    | error e =>
      rw [hop] at h
      cases h
    | ok next =>
      rw [hop] at h
      exact (Reached.one hop).append (ih h)

/-- The operations one after another, as long as they are accepted and meet a condition. -/
def runBy (condition : σ → ι → Bool) (step : σ → ι → Except ε σ) (s : σ) (operations : List ι) :
    Option σ :=
  operations.foldlM (fun s operation =>
    if condition s operation then (step s operation).toOption else none) s

theorem ReachedBy.of_runBy {condition : σ → ι → Bool} {t : σ}
    (h : ReachedBy (fun s operation => condition s operation = true) step start s)
    (hrun : runBy condition step s operations = some t) :
    ReachedBy (fun s operation => condition s operation = true) step start t := by
  induction operations generalizing s with
  | nil =>
    obtain rfl := Option.some.inj hrun
    exact h
  | cons operation rest ih =>
    rw [runBy, foldlM_cons] at hrun
    obtain ⟨next, hnext, hrest⟩ := Option.bind_eq_some_iff.mp hrun
    split_ifs at hnext with hcondition
    refine ih (h.step hcondition ?_) hrest
    cases hop : step s operation with
    | error e =>
      rw [hop] at hnext
      cases hnext
    | ok t' =>
      rw [hop] at hnext
      rw [Option.some.inj hnext]

end Runs
