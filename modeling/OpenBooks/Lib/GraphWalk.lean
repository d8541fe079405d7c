import Mathlib.Logic.Relation
import Mathlib.Data.Finset.Card
import Mathlib.Tactic.Tauto

/-!
# Walks over a graph that may have cycles

A graph is a function from a vertex to its successors. Two searches visit what is reachable
and never a vertex twice: `GraphWalk.visit` in depth, marking a vertex before it follows its
successors, and `GraphWalk.breadth` with a queue. Both return the visited vertices in the
order of the visits.

The recursion is bounded by a number of steps. **The bound is no restriction**: a graph has
its successors within a list of vertices, and what a search in depth has visited after more steps
than there are vertices is exactly what is reachable (`GraphWalk.mem_visit_iff`).
-/

namespace GraphWalk

open List

variable {ι : Type} [DecidableEq ι] {next : ι → List ι}

/-- A vertex reaches another along successors. -/
def Reaches (next : ι → List ι) : ι → ι → Prop := Relation.ReflTransGen fun x y => y ∈ next x

/-! ### In depth -/

/-- Visit the vertices of a list one after another, each with all it leads to. -/
def visit (next : ι → List ι) : ℕ → List ι → List ι → List ι
  | 0, _, seen => seen
  | n + 1, todo, seen => todo.foldl
      (fun seen x => if x ∈ seen then seen else visit next n (next x) (seen ++ [x])) seen

/-- The number of vertices of a list that are not seen. -/
def unseen (vertices seen : List ι) : ℕ := (vertices.toFinset \ seen.toFinset).card

@[simp] theorem visit_nil (n : ℕ) (seen : List ι) : visit next n [] seen = seen := by
  cases n <;> rfl

theorem visit_cons (n : ℕ) (x : ι) (todo seen : List ι) :
    visit next (n + 1) (x :: todo) seen = visit next (n + 1) todo
      (if x ∈ seen then seen else visit next n (next x) (seen ++ [x])) := rfl

theorem unseen_le {vertices seen seen' : List ι} (h : ∀ x ∈ seen, x ∈ seen') :
    unseen vertices seen' ≤ unseen vertices seen := by
  refine Finset.card_le_card fun x hx => ?_
  simp only [Finset.mem_sdiff, mem_toFinset] at hx ⊢
  exact ⟨hx.1, fun hseen => hx.2 (h x hseen)⟩

theorem unseen_append_lt {vertices seen : List ι} {x : ι} (hx : x ∈ vertices) (hnew : x ∉ seen) :
    unseen vertices (seen ++ [x]) < unseen vertices seen := by
  refine Finset.card_lt_card (Finset.ssubset_iff_of_subset ?_ |>.mpr ⟨x, ?_, ?_⟩)
  · intro y hy
    simp only [Finset.mem_sdiff, mem_toFinset, mem_append] at hy ⊢
    exact ⟨hy.1, fun hseen => hy.2 (.inl hseen)⟩
  · simpa using ⟨hx, hnew⟩
  · simp

theorem unseen_nil_le (vertices : List ι) : unseen vertices [] ≤ vertices.length := by
  simpa [unseen] using toFinset_card_le vertices

theorem subset_visit (n : ℕ) (todo seen : List ι) : ∀ x ∈ seen, x ∈ visit next n todo seen := by
  induction n generalizing todo seen with
  | zero => exact fun x hx => hx
  | succ n ihn =>
    induction todo generalizing seen with
    | nil => exact fun x hx => hx
    | cons y todo ih =>
      intro x hx
      rw [visit_cons]
      refine ih _ x ?_
      split_ifs
      · exact hx
      · exact ihn _ _ x (mem_append_left _ hx)

/-- **Nothing is visited that is not reachable.** -/
theorem reaches_of_mem_visit {n : ℕ} {todo seen : List ι} {z : ι}
    (h : z ∈ visit next n todo seen) : z ∈ seen ∨ ∃ x ∈ todo, Reaches next x z := by
  induction n generalizing todo seen z with
  | zero => exact .inl h
  | succ n ihn =>
    induction todo generalizing seen with
    | nil => exact .inl h
    | cons y todo ih =>
      rw [visit_cons] at h
      rcases ih h with hz | ⟨x, hx, hreach⟩
      · split_ifs at hz with hy
        · exact .inl hz
        · rcases ihn hz with hz | ⟨x, hx, hreach⟩
          · rcases mem_append.mp hz with hz | hz
            · exact .inl hz
            · rw [mem_singleton.mp hz]
              exact .inr ⟨y, mem_cons_self, .refl⟩
          · exact .inr ⟨y, mem_cons_self, .head hx hreach⟩
      · exact .inr ⟨x, mem_cons_of_mem y hx, hreach⟩

section Bounded

variable {vertices : List ι} (hnext : ∀ x, x ∉ vertices → next x = []) {n : ℕ}

include hnext

/-- **What is visited is closed under successors**, once there are steps enough. -/
theorem visit_closed {todo seen : List ι} (hn : unseen vertices seen < n) :
    (∀ x ∈ todo, x ∈ visit next n todo seen) ∧
      ∀ z ∈ visit next n todo seen, z ∈ seen ∨ ∀ w ∈ next z, w ∈ visit next n todo seen := by
  induction n generalizing todo seen with
  | zero => omega
  | succ n ihn =>
    induction todo generalizing seen with
    | nil => exact ⟨by simp, fun z hz => .inl hz⟩
    | cons y todo ih =>
      rw [visit_cons]
      split_ifs with hy
      · obtain ⟨htodo, hclosed⟩ := ih hn
        exact ⟨forall_mem_cons.mpr ⟨subset_visit _ _ _ y hy, htodo⟩, hclosed⟩
      · -- what the visit of `y` has added, and that its successors are among it
        have hinner : (∀ x ∈ seen ++ [y], x ∈ visit next n (next y) (seen ++ [y])) ∧
            (∀ w ∈ next y, w ∈ visit next n (next y) (seen ++ [y])) ∧
            ∀ z ∈ visit next n (next y) (seen ++ [y]), z ∈ seen ++ [y] ∨
              ∀ w ∈ next z, w ∈ visit next n (next y) (seen ++ [y]) := by
          refine ⟨subset_visit _ _ _, ?_⟩
          by_cases hmem : y ∈ vertices
          · exact ihn (by have := unseen_append_lt hmem hy; omega)
          · rw [hnext y hmem, visit_nil]
            exact ⟨by simp, fun z hz => .inl hz⟩
        obtain ⟨hsub, hsucc, hin⟩ := hinner
        have hle : unseen vertices (visit next n (next y) (seen ++ [y])) < n + 1 :=
          (unseen_le fun x hx => hsub x (mem_append_left _ hx)).trans_lt hn
        obtain ⟨htodo, hclosed⟩ := ih hle
        have hkeep : ∀ x ∈ visit next n (next y) (seen ++ [y]),
            x ∈ visit next (n + 1) todo (visit next n (next y) (seen ++ [y])) :=
          subset_visit (n + 1) todo _
        refine ⟨forall_mem_cons.mpr ⟨hkeep y (hsub y (by simp)), htodo⟩, fun z hz => ?_⟩
        rcases hclosed z hz with hz | hz
        · rcases hin z hz with hz | hz
          · rcases mem_append.mp hz with hz | hz
            · exact .inl hz
            · rw [mem_singleton.mp hz]
              exact .inr fun w hw => hkeep w (hsucc w hw)
          · exact .inr fun w hw => hkeep w (hz w hw)
        · exact .inr hz

/-- **What is visited is what is reachable.** -/
theorem mem_visit_iff {starts : List ι} (hn : vertices.length < n) {z : ι} :
    z ∈ visit next n starts [] ↔ ∃ x ∈ starts, Reaches next x z := by
  have hunseen : unseen vertices [] < n := (unseen_nil_le vertices).trans_lt hn
  have hvisit := @visit_closed _ _ _ _ hnext n starts [] hunseen
  obtain ⟨hstarts, hclosed⟩ := hvisit
  constructor
  · intro hz
    rcases reaches_of_mem_visit hz with hz | hz
    · cases hz
    · exact hz
  · rintro ⟨x, hx, hreach⟩
    induction hreach with
    | refl => exact hstarts x hx
    | tail _ hstep ih =>
      rcases hclosed _ ih with hnil | hsucc
      · cases hnil
      · exact hsucc _ hstep

end Bounded

/-! ### In breadth -/

/-- Visit what a queue leads to. -/
def breadth (next : ι → List ι) : ℕ → List ι → List ι → List ι
  | 0, _, seen => seen
  | _ + 1, [], seen => seen
  | n + 1, x :: queue, seen =>
    if x ∈ seen then breadth next n queue seen
    else breadth next n (queue ++ next x) (seen ++ [x])

/-- The same closure for the queue. Every vertex pays for its successors once. -/
theorem breadth_closed {cost : List ι → ℕ}
    (hcost : ∀ seen x, x ∉ seen → cost (seen ++ [x]) + (next x).length ≤ cost seen) {n : ℕ}
    {queue seen : List ι} (hn : queue.length + cost seen < n) :
    (∀ x ∈ seen ++ queue, x ∈ breadth next n queue seen) ∧
      ∀ z ∈ breadth next n queue seen, z ∈ seen ∨
        ∀ w ∈ next z, w ∈ breadth next n queue seen := by
  induction n generalizing queue seen with
  | zero => omega
  | succ n ih =>
    cases queue with
    | nil =>
      rw [breadth]
      exact ⟨fun x hx => by simpa using hx, fun z hz => .inl hz⟩
    | cons x queue =>
      rw [length_cons] at hn
      rw [breadth]
      split_ifs with hx
      · obtain ⟨hsub, hclosed⟩ := @ih queue seen (by omega)
        refine ⟨fun y hy => ?_, hclosed⟩
        rcases mem_append.mp hy with hy | hy
        · exact hsub y (mem_append_left _ hy)
        · rcases mem_cons.mp hy with rfl | hy
          · exact hsub y (mem_append_left _ hx)
          · exact hsub y (mem_append_right _ hy)
      · have hpay := hcost seen x hx
        obtain ⟨hsub, hclosed⟩ := @ih (queue ++ next x) (seen ++ [x]) (by
          rw [length_append]
          omega)
        refine ⟨fun y hy => hsub y ?_, fun z hz => ?_⟩
        · simp only [mem_append, mem_cons] at hy ⊢
          tauto
        · rcases hclosed z hz with hz | hz
          · rcases mem_append.mp hz with hz | hz
            · exact .inl hz
            · rw [mem_singleton.mp hz]
              exact .inr fun w hw => hsub w (by simp [hw])
          · exact .inr hz

/-- **The queue visits everything reachable.** -/
theorem mem_breadth {cost : List ι → ℕ}
    (hcost : ∀ seen x, x ∉ seen → cost (seen ++ [x]) + (next x).length ≤ cost seen) {n : ℕ}
    {starts : List ι} (hn : starts.length + cost [] < n) {x z : ι} (hx : x ∈ starts)
    (hreach : Reaches next x z) : z ∈ breadth next n starts [] := by
  obtain ⟨hstarts, hclosed⟩ := breadth_closed hcost hn
  induction hreach with
  | refl => exact hstarts x (by simpa using hx)
  | tail _ hstep ih =>
    rcases hclosed _ ih with hnil | hsucc
    · cases hnil
    · exact hsucc _ hstep

end GraphWalk
