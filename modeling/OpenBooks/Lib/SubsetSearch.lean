import Mathlib.Data.List.Basic
import Mathlib.Algebra.BigOperators.Group.List.Basic
import Mathlib.Algebra.Order.BigOperators.Group.List
import Mathlib.Algebra.Order.Ring.Int
import Mathlib.Tactic.Ring

/-!
# Searching subsets of a given sum

A depth-first search for the subsets of a list whose sizes add up to a target
(`SubsetSearch.search`). It is bounded three ways: no subset is larger than `maxSize`, the search
stops once `limit` subsets are found, and every node it enters costs one unit of a budget.

What it finds is a subset of the target sum, whatever the bounds
(`SubsetSearch.sound_search`). And if neither the limit nor the budget is reached, it has found
every subset of an admitted number of items (`SubsetSearch.complete_search`).
-/

namespace SubsetSearch

open List

variable {α : Type}

structure Bounds where
  limit : ℕ
  minSize : ℕ
  maxSize : ℤ

/-- What is left of the budget, and the subsets found. -/
structure State (α : Type) where
  budget : ℤ
  found : List (List α)

/-- A search that goes on: neither the limit nor the budget is reached. -/
structure State.Open (b : Bounds) (s : State α) : Prop where
  found : s.found.length < b.limit
  budget : 0 < s.budget

instance (b : Bounds) (s : State α) : Decidable (s.Open b) :=
  decidable_of_iff (s.found.length < b.limit ∧ 0 < s.budget)
    ⟨fun h => ⟨h.1, h.2⟩, fun h => ⟨h.found, h.budget⟩⟩

/-- Enter the node of a choice: keep it if it is complete, else explore what may be added. -/
def enter (b : Bounds) (chosen : List α) (remaining : ℤ) (explore : State α → State α)
    (s : State α) : State α :=
  if b.limit ≤ s.found.length then s
  else if s.budget ≤ 0 then ⟨s.budget - 1, s.found⟩
  else if remaining = 0 then
    if b.minSize ≤ chosen.length then ⟨s.budget - 1, s.found ++ [chosen]⟩
    else ⟨s.budget - 1, s.found⟩
  else if b.maxSize ≤ chosen.length then ⟨s.budget - 1, s.found⟩
  else explore ⟨s.budget - 1, s.found⟩

/-- Add the items of a list to a choice, each in turn and with every one after it. -/
def scan (b : Bounds) (size : α → ℤ) : List α → List α → ℤ → State α → State α
  | [], _, _, s => s
  | x :: rest, chosen, remaining, s =>
    if remaining < size x ∨ size x ≤ 0 then scan b size rest chosen remaining s
    else
      let entered := enter b (chosen ++ [x]) (remaining - size x)
        (scan b size rest (chosen ++ [x]) (remaining - size x)) s
      if entered.Open b then scan b size rest chosen remaining entered else entered

/-- Search the items for subsets of size `target`. -/
def search (b : Bounds) (size : α → ℤ) (budget : ℤ) (items : List α) (target : ℤ) : State α :=
  enter b [] target (scan b size items [] target) ⟨budget, []⟩

variable {b : Bounds} {size : α → ℤ}

/-- The node of a choice with one item more. -/
def visit (b : Bounds) (size : α → ℤ) (x : α) (rest chosen : List α) (remaining : ℤ) :
    State α → State α :=
  enter b (chosen ++ [x]) (remaining - size x)
    (scan b size rest (chosen ++ [x]) (remaining - size x))

/-! ### What a step can do -/

variable {chosen rest : List α} {x : α} {remaining : ℤ}

theorem scan_cons_of_skip (h : remaining < size x ∨ size x ≤ 0) (s : State α) :
    scan b size (x :: rest) chosen remaining s = scan b size rest chosen remaining s := by
  rw [scan, if_pos h]

variable {s : State α}

theorem scan_cons_of_open (h : ¬(remaining < size x ∨ size x ≤ 0))
    (hopen : (visit b size x rest chosen remaining s).Open b) :
    scan b size (x :: rest) chosen remaining s =
      scan b size rest chosen remaining (visit b size x rest chosen remaining s) := by
  rw [scan, if_neg h]
  exact if_pos hopen

theorem scan_cons_of_closed (h : ¬(remaining < size x ∨ size x ≤ 0))
    (hopen : ¬(visit b size x rest chosen remaining s).Open b) :
    scan b size (x :: rest) chosen remaining s = visit b size x rest chosen remaining s := by
  rw [scan, if_neg h]
  exact if_neg hopen

/-- The budget only falls, and what is found stays found. -/
structure Grows (s s' : State α) : Prop where
  budget : s'.budget ≤ s.budget
  found : s.found <+: s'.found

theorem Grows.refl (s : State α) : Grows s s := ⟨le_rfl, prefix_rfl⟩

theorem Grows.trans {s' s'' : State α} (h : Grows s s') (h' : Grows s' s'') : Grows s s'' :=
  ⟨h'.budget.trans h.budget, h.found.trans h'.found⟩

theorem Grows.open {s' : State α} (h : Grows s s') (hopen : s'.Open b) : s.Open b :=
  ⟨h.found.length_le.trans_lt hopen.found, hopen.budget.trans_le h.budget⟩

theorem grows_spend (s : State α) : Grows s ⟨s.budget - 1, s.found⟩ :=
  ⟨Int.sub_le_self _ (by omega), prefix_rfl⟩

variable {explore : State α → State α}

theorem grows_enter (hexplore : ∀ s, Grows s (explore s)) (s : State α) :
    Grows s (enter b chosen remaining explore s) := by
  unfold enter
  split_ifs with hlimit hbudget hdone hsize hfull
  · exact Grows.refl s
  · exact grows_spend s
  · exact ⟨Int.sub_le_self _ (by omega), prefix_append _ _⟩
  · exact grows_spend s
  · exact grows_spend s
  · exact (grows_spend s).trans (hexplore _)

theorem grows_scan (items chosen : List α) (remaining : ℤ) (s : State α) :
    Grows s (scan b size items chosen remaining s) := by
  induction items generalizing chosen remaining s with
  | nil => exact Grows.refl s
  | cons x rest ih =>
    by_cases hskip : remaining < size x ∨ size x ≤ 0
    · rw [scan_cons_of_skip hskip]
      exact ih chosen remaining s
    · have hvisit : Grows s (visit b size x rest chosen remaining s) :=
        grows_enter (ih (chosen ++ [x]) (remaining - size x)) s
      by_cases hopen : (visit b size x rest chosen remaining s).Open b
      · rw [scan_cons_of_open hskip hopen]
        exact hvisit.trans (ih chosen remaining _)
      · rw [scan_cons_of_closed hskip hopen]
        exact hvisit

/-! ### Soundness -/

/-- A subset that completes a choice: some of the items, of positive sizes, that add up to what
remains. -/
structure Completes (size : α → ℤ) (items : List α) (remaining : ℤ) (added : List α) : Prop where
  sublist : added.Sublist items
  sum : (added.map size).sum = remaining
  positive : ∀ x ∈ added, 0 < size x

variable {added items : List α}

theorem Completes.cons_left (x : α) (h : Completes size items remaining added) :
    Completes size (x :: items) remaining added :=
  ⟨h.sublist.cons x, h.sum, h.positive⟩

theorem Completes.cons (hx : 0 < size x) (h : Completes size items (remaining - size x) added) :
    Completes size (x :: items) remaining (x :: added) where
  sublist := h.sublist.cons_cons x
  sum := by rw [map_cons, sum_cons, h.sum]; ring
  positive := forall_mem_cons.mpr ⟨hx, h.positive⟩

/-- A subset either leaves the first item out or begins with it. -/
theorem Completes.cases (h : Completes size (x :: items) remaining added) :
    Completes size items remaining added ∨
      ∃ added', added = x :: added' ∧ Completes size items (remaining - size x) added' := by
  obtain hout | ⟨added', rfl, hsub⟩ := sublist_cons_iff.mp h.sublist
  · exact Or.inl ⟨hout, h.sum, h.positive⟩
  · refine Or.inr ⟨added', rfl, hsub, ?_, (forall_mem_cons.mp h.positive).2⟩
    have hsum := h.sum
    rw [map_cons, sum_cons] at hsum
    omega

theorem Completes.sum_nonneg (h : Completes size items remaining added) : 0 ≤ remaining := by
  rw [← h.sum]
  refine List.sum_nonneg fun y hy => ?_
  obtain ⟨x, hx, rfl⟩ := mem_map.mp hy
  exact (h.positive x hx).le

theorem Completes.of_skip (h : Completes size (x :: items) remaining added)
    (hskip : remaining < size x ∨ size x ≤ 0) : Completes size items remaining added := by
  obtain hout | ⟨added', rfl, hadded⟩ := h.cases
  · exact hout
  · have hpositive := h.positive x mem_cons_self
    have hnonneg := hadded.sum_nonneg
    omega

/-- What a run adds to the subsets found completes its choice. -/
def Sound (b : Bounds) (size : α → ℤ) (items chosen : List α) (remaining : ℤ)
    (s s' : State α) : Prop :=
  ∀ f ∈ s'.found, f ∈ s.found ∨
    ∃ added, f = chosen ++ added ∧ Completes size items remaining added ∧ b.minSize ≤ f.length

theorem sound_enter (hexplore : ∀ s, Sound b size items chosen remaining s (explore s))
    (s : State α) : Sound b size items chosen remaining s (enter b chosen remaining explore s) := by
  unfold enter
  split_ifs with hlimit hbudget hdone hsize hfull
  · exact fun f hf => Or.inl hf
  · exact fun f hf => Or.inl hf
  · intro f hf
    rcases mem_append.mp hf with hf | hf
    · exact Or.inl hf
    · obtain rfl := mem_singleton.mp hf
      exact Or.inr ⟨[], by simp, ⟨nil_sublist _, by simp [hdone], by simp⟩, hsize⟩
  · exact fun f hf => Or.inl hf
  · exact fun f hf => Or.inl hf
  · exact hexplore _

theorem sound_scan (items chosen : List α) (remaining : ℤ) (s : State α) :
    Sound b size items chosen remaining s (scan b size items chosen remaining s) := by
  induction items generalizing chosen remaining s with
  | nil => exact fun f hf => Or.inl hf
  | cons x rest ih =>
    -- What the rest adds is some of the longer list as well.
    have hrest : ∀ s₁ : State α, Sound b size (x :: rest) chosen remaining s₁
        (scan b size rest chosen remaining s₁) := by
      intro s₁ f hf
      refine (ih chosen remaining s₁ f hf).imp_right ?_
      rintro ⟨added, rfl, hadded, hsize⟩
      exact ⟨added, rfl, hadded.cons_left x, hsize⟩
    by_cases hskip : remaining < size x ∨ size x ≤ 0
    · rw [scan_cons_of_skip hskip]
      exact hrest s
    · have hpositive : 0 < size x := by omega
      have hvisit : Sound b size (x :: rest) chosen remaining s
          (visit b size x rest chosen remaining s) := by
        intro f hf
        refine (sound_enter (ih (chosen ++ [x]) (remaining - size x)) s f hf).imp_right ?_
        rintro ⟨added, rfl, hadded, hsize⟩
        exact ⟨x :: added, by simp, hadded.cons hpositive, hsize⟩
      by_cases hopen : (visit b size x rest chosen remaining s).Open b
      · rw [scan_cons_of_open hskip hopen]
        intro f hf
        exact (hrest _ f hf).elim (hvisit f) Or.inr
      · rw [scan_cons_of_closed hskip hopen]
        exact hvisit

/-- **What is found has the target sum.** -/
theorem sound_search {budget target : ℤ} {f : List α}
    (hf : f ∈ (search b size budget items target).found) :
    Completes size items target f ∧ b.minSize ≤ f.length := by
  have hscan : ∀ s, Sound b size items [] target s (scan b size items [] target s) :=
    sound_scan items [] target
  have hsound := sound_enter hscan ⟨budget, []⟩ f hf
  obtain hnone | ⟨added, rfl, hadded, hsize⟩ := hsound
  · cases hnone
  · exact ⟨hadded, hsize⟩

/-! ### Completeness -/

theorem Completes.eq_nil (h : Completes size items 0 added) : added = [] := by
  cases added with
  | nil => rfl
  | cons x added =>
    obtain ⟨hx, hpositive⟩ := forall_mem_cons.mp h.positive
    have hrest : Completes size added (added.map size).sum added :=
      ⟨Sublist.refl _, rfl, hpositive⟩
    have hnonneg := hrest.sum_nonneg
    have hsum := h.sum
    rw [map_cons, sum_cons] at hsum
    omega

/-- A run that stays open has found every subset that completes its choice. -/
def Complete (b : Bounds) (size : α → ℤ) (items chosen : List α) (remaining : ℤ)
    (s' : State α) : Prop :=
  s'.Open b → ∀ added, Completes size items remaining added →
    b.minSize ≤ (chosen ++ added).length → (chosen ++ added).length ≤ b.maxSize →
    chosen ++ added ∈ s'.found

theorem complete_enter (hgrows : ∀ s, Grows s (explore s))
    (hexplore : remaining ≠ 0 → ∀ s, Complete b size items chosen remaining (explore s))
    (s : State α) :
    Complete b size items chosen remaining (enter b chosen remaining explore s) := by
  intro hopen added hadded hmin hmax
  have hstart := (grows_enter hgrows s).open hopen
  unfold enter at hopen ⊢
  rw [if_neg (not_le.mpr hstart.found), if_neg (not_le.mpr hstart.budget)] at hopen ⊢
  by_cases hdone : remaining = 0
  · subst hdone
    rw [hadded.eq_nil, append_nil] at hmin ⊢
    rw [if_pos rfl, if_pos hmin]
    simp
  · have hlonger : added ≠ [] := by
      rintro rfl
      exact hdone hadded.sum.symm
    have hfull : ¬b.maxSize ≤ chosen.length := by
      have := length_pos_iff.mpr hlonger
      rw [length_append] at hmax
      omega
    rw [if_neg hdone, if_neg hfull] at hopen ⊢
    exact hexplore hdone _ hopen added hadded hmin hmax

theorem complete_scan (items chosen : List α) (hremaining : remaining ≠ 0) (s : State α) :
    Complete b size items chosen remaining (scan b size items chosen remaining s) := by
  induction items generalizing chosen remaining s with
  | nil =>
    intro _ added hadded
    obtain rfl := sublist_nil.mp hadded.sublist
    exact absurd hadded.sum.symm hremaining
  | cons x rest ih =>
    intro hopen added hadded hmin hmax
    by_cases hskip : remaining < size x ∨ size x ≤ 0
    · rw [scan_cons_of_skip hskip] at hopen ⊢
      exact ih chosen hremaining s hopen added (hadded.of_skip hskip) hmin hmax
    · by_cases hstays : (visit b size x rest chosen remaining s).Open b
      · rw [scan_cons_of_open hskip hstays] at hopen ⊢
        obtain hout | ⟨added, rfl, hrest⟩ := hadded.cases
        · exact ih chosen hremaining _ hopen added hout hmin hmax
        · -- A subset that begins with the item was found while it was chosen.
          have hfound := complete_enter (grows_scan rest (chosen ++ [x]) (remaining - size x))
            (fun hne s₁ => ih (chosen ++ [x]) hne s₁) s hstays added hrest (by simpa using hmin)
            (by simpa using hmax)
          rw [append_assoc, singleton_append] at hfound
          exact (grows_scan rest chosen remaining _).found.subset hfound
      · rw [scan_cons_of_closed hskip hstays] at hopen
        exact absurd hopen hstays

/-- **A search that ends open has found everything**: every subset of the target sum, of positive
sizes and an admitted number of items. -/
theorem complete_search {budget target : ℤ} {subset : List α}
    (hopen : (search b size budget items target).Open b) (h : Completes size items target subset)
    (hmin : b.minSize ≤ subset.length) (hmax : subset.length ≤ b.maxSize) :
    subset ∈ (search b size budget items target).found :=
  complete_enter (grows_scan items [] target) (fun hne s => complete_scan items [] hne s)
    ⟨budget, []⟩ hopen subset h hmin hmax

end SubsetSearch
