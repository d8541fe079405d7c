import Mathlib.Data.List.Basic

/-!
# Greedy selection

A sweep over a list that takes an element unless it clashes with one taken before
(`Greedy.sweep`). What is taken does not clash, and the selection is *maximal*: whatever is left
out clashes with something taken before it (`Greedy.exists_clash_of_not_mem`). If the list is
ordered by a relation, the one taken stands in that relation to the one left out.
-/

namespace Greedy

open List

variable {α : Type} (clash : α → α → Prop) [DecidableRel clash]

/-- Take the elements of a list, one by one, that do not clash with what is taken. -/
def sweep (taken : List α) : List α → List α
  | [] => taken
  | x :: rest =>
    if ∃ k ∈ taken, clash k x then sweep taken rest else sweep (taken ++ [x]) rest

variable {clash}

theorem sublist_sweep (taken xs : List α) : (sweep clash taken xs).Sublist (taken ++ xs) := by
  induction xs generalizing taken with
  | nil => simp [sweep]
  | cons x rest ih =>
    unfold sweep
    split_ifs with hclash
    · exact (ih taken).trans ((sublist_cons_self x rest).append_left taken)
    · simpa using ih (taken ++ [x])

variable {taken : List α}

theorem mem_sweep_of_mem {x : α} (hx : x ∈ taken) (xs : List α) : x ∈ sweep clash taken xs := by
  induction xs generalizing taken with
  | nil => exact hx
  | cons y rest ih =>
    unfold sweep
    split_ifs with hclash
    · exact ih hx
    · exact ih (mem_append_left _ hx)

theorem pairwise_sweep (h : taken.Pairwise fun a b => ¬clash a b) (xs : List α) :
    (sweep clash taken xs).Pairwise fun a b => ¬clash a b := by
  induction xs generalizing taken with
  | nil => exact h
  | cons x rest ih =>
    unfold sweep
    split_ifs with hclash
    · exact ih h
    · refine ih (pairwise_append.mpr ⟨h, pairwise_singleton _ _, ?_⟩)
      intro a ha b hb
      obtain rfl := mem_singleton.mp hb
      exact fun hab => hclash ⟨a, ha, hab⟩

/-- **Whatever is left out clashes with something taken before it.** -/
theorem exists_clash_of_not_mem {r : α → α → Prop} {xs : List α} (hr : (taken ++ xs).Pairwise r)
    {x : α} (hx : x ∈ xs) (hout : x ∉ sweep clash taken xs) :
    ∃ k ∈ sweep clash taken xs, clash k x ∧ r k x := by
  induction xs generalizing taken with
  | nil => cases hx
  | cons y rest ih =>
    have hrest : (taken ++ rest).Pairwise r :=
      hr.sublist ((sublist_cons_self y rest).append_left taken)
    unfold sweep at hout ⊢
    split_ifs at hout ⊢ with hclash
    · rcases mem_cons.mp hx with rfl | hx
      · obtain ⟨k, hk, hkx⟩ := hclash
        have hkr := (pairwise_append.mp hr).2.2 k hk x mem_cons_self
        exact ⟨k, mem_sweep_of_mem hk rest, hkx, hkr⟩
      · exact ih hrest hx hout
    · rcases mem_cons.mp hx with rfl | hx
      · exact absurd (mem_sweep_of_mem (by simp) rest) hout
      · exact ih (by simpa using hr) hx hout

end Greedy
