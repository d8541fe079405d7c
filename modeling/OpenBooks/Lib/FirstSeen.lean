import Mathlib.Algebra.BigOperators.Group.List.Basic
import Mathlib.Algebra.Order.Ring.Int
import Mathlib.Data.List.Induction
import Mathlib.Data.List.Perm.Basic

/-!
# Grouping in the order of first appearance

An insertion-ordered map filled by one pass over a list – look the key up, extend the entry found or
append a new one – is a **grouping**: one entry per key, in the order in which the keys first
appear, holding the elements of that key in the order of the list. `FirstSeen.groupBy` is that pass.

The keys are distinct, each group is the sublist of its key, every element's key has a group, and
the groups together are the list again up to order – so any sum over the groups is the sum over the
list.
-/

namespace FirstSeen

open List

variable {α κ : Type} [DecidableEq κ]

/-- Append `a` to the group of key `k`, opening it at the end if there is none. -/
def push (k : κ) (a : α) : List (κ × List α) → List (κ × List α)
  | [] => [(k, [a])]
  | (k', as) :: rest => if k' = k then (k', as ++ [a]) :: rest else (k', as) :: push k a rest

/-- The groups of a list by `key`, in the order of first appearance. -/
def groupBy (key : α → κ) (xs : List α) : List (κ × List α) :=
  xs.foldl (fun groups a => push (key a) a groups) []

/-- The keys of a list, in the order of first appearance. -/
def keys (key : α → κ) (xs : List α) : List κ :=
  xs.foldl (fun ks a => if key a ∈ ks then ks else ks ++ [key a]) []

variable {key : α → κ} {xs : List α} {k : κ}

@[simp] theorem groupBy_nil : groupBy key ([] : List α) = [] := rfl

@[simp] theorem keys_nil : keys key ([] : List α) = [] := rfl

theorem groupBy_snoc (key : α → κ) (xs : List α) (a : α) :
    groupBy key (xs ++ [a]) = push (key a) a (groupBy key xs) := by
  simp [groupBy]

theorem keys_snoc (key : α → κ) (xs : List α) (a : α) :
    keys key (xs ++ [a]) = if key a ∈ keys key xs then keys key xs else keys key xs ++ [key a] := by
  rw [keys, foldl_append]
  rfl

/-! ### The keys -/

theorem mem_keys : k ∈ keys key xs ↔ ∃ a ∈ xs, key a = k := by
  induction xs using reverseRecOn with
  | nil => simp
  | append_singleton xs a ih =>
    rw [keys_snoc]
    split_ifs with h
    · rw [ih]
      constructor
      · rintro ⟨b, hb, rfl⟩
        exact ⟨b, by simp [hb], rfl⟩
      · rintro ⟨b, hb, rfl⟩
        rcases mem_append.mp hb with hb | hb
        · exact ⟨b, hb, rfl⟩
        · obtain rfl := mem_singleton.mp hb
          exact ih.mp h
    · simp only [mem_append, ih, mem_singleton, or_and_right, exists_or, exists_eq_left]
      rw [eq_comm (a := k)]

theorem nodup_keys (key : α → κ) (xs : List α) : (keys key xs).Nodup := by
  induction xs using reverseRecOn with
  | nil => simp
  | append_singleton xs a ih =>
    rw [keys_snoc]
    split_ifs with h
    · exact ih
    · exact nodup_append.mpr ⟨ih, by simp, by
        intro x hx y hy
        rw [mem_singleton.mp hy]
        exact fun hc => h (hc ▸ hx)⟩

theorem keys_eq_map (h : (xs.map key).Nodup) : keys key xs = xs.map key := by
  induction xs using reverseRecOn with
  | nil => rfl
  | append_singleton xs a ih =>
    rw [map_append, map_singleton] at h ⊢
    obtain ⟨hxs, -, hdisjoint⟩ := nodup_append.mp h
    have hnew : key a ∉ keys key xs := by
      rw [ih hxs]
      exact fun hmem => hdisjoint _ hmem _ (mem_singleton.mpr rfl) rfl
    rw [keys_snoc, if_neg hnew, ih hxs]

/-! ### The groups -/

/-- One insertion into groups listed by distinct keys. -/
theorem push_map (k : κ) (a : α) (f : κ → List α) {ks : List κ} (hks : ks.Nodup) :
    push k a (ks.map fun k' => (k', f k')) =
      if k ∈ ks then ks.map fun k' => (k', if k' = k then f k' ++ [a] else f k')
      else (ks.map fun k' => (k', f k')) ++ [(k, [a])] := by
  induction ks with
  | nil => simp [push]
  | cons k₀ ks ih =>
    obtain ⟨hk₀, hks'⟩ := nodup_cons.mp hks
    by_cases h : k₀ = k
    · subst h
      have hrest : ks.map (fun k' => (k', if k' = k₀ then f k' ++ [a] else f k')) =
          ks.map fun k' => (k', f k') := by
        refine map_congr_left fun k' hk' => ?_
        rw [if_neg fun hc : k' = k₀ => hk₀ (hc ▸ hk')]
      simp [push, hrest]
    · have h' : ¬k = k₀ := fun hc => h hc.symm
      simp only [map_cons, push, h, if_false, ih hks', mem_cons, h', false_or]
      split_ifs <;> rfl

/-- **Each group is the sublist of its key**, in the order of the list. -/
theorem groupBy_eq (key : α → κ) (xs : List α) :
    groupBy key xs = (keys key xs).map fun k => (k, xs.filter fun a => key a = k) := by
  induction xs using reverseRecOn with
  | nil => rfl
  | append_singleton xs a ih =>
    rw [groupBy_snoc, ih, push_map _ _ _ (nodup_keys key xs), keys_snoc]
    split_ifs with h
    · refine map_congr_left fun k _ => ?_
      by_cases hk : k = key a
      · simp [hk, filter_append]
      · have hk' : ¬key a = k := fun hc => hk hc.symm
        simp [hk, hk', filter_append]
    · have hnone : xs.filter (fun b => key b = key a) = [] := by
        refine filter_eq_nil_iff.mpr fun b hb => ?_
        simpa using fun hc => h (mem_keys.mpr ⟨b, hb, hc⟩)
      rw [map_append, map_singleton, filter_append, hnone]
      congr 1
      · refine map_congr_left fun k hk => ?_
        have hk' : ¬key a = k := fun hc => h (hc ▸ hk)
        simp [hk', filter_append]
      · simp

theorem mem_groupBy {as : List α} :
    (k, as) ∈ groupBy key xs ↔ (∃ a ∈ xs, key a = k) ∧ as = xs.filter fun a => key a = k := by
  rw [groupBy_eq, mem_map]
  constructor
  · rintro ⟨k', hk', h⟩
    obtain ⟨rfl, rfl⟩ := Prod.mk.inj h
    exact ⟨mem_keys.mp hk', rfl⟩
  · rintro ⟨h, rfl⟩
    exact ⟨k, mem_keys.mpr h, rfl⟩

theorem map_fst_groupBy (key : α → κ) (xs : List α) :
    (groupBy key xs).map Prod.fst = keys key xs := by
  rw [groupBy_eq, map_map]
  exact map_id _

theorem nodup_map_fst_groupBy (key : α → κ) (xs : List α) :
    ((groupBy key xs).map Prod.fst).Nodup := by
  rw [map_fst_groupBy]
  exact nodup_keys key xs

theorem groupBy_of_forall (hne : xs ≠ []) (h : ∀ a ∈ xs, key a = k) :
    groupBy key xs = [(k, xs)] := by
  have hkeys : keys key xs = [k] := by
    obtain ⟨a, ha⟩ := exists_mem_of_ne_nil xs hne
    have hmem : k ∈ keys key xs := mem_keys.mpr ⟨a, ha, h a ha⟩
    refine perm_singleton.mp ((perm_ext_iff_of_nodup (nodup_keys key xs)
      (by simp)).mpr fun k' => ⟨fun hk' => ?_, fun hk' => ?_⟩)
    · obtain ⟨b, hb, rfl⟩ := mem_keys.mp hk'
      exact mem_singleton.mpr (h b hb)
    · rwa [mem_singleton.mp hk']
  rw [groupBy_eq, hkeys, map_singleton, filter_eq_self.mpr fun a ha => by simp [h a ha]]

theorem group_ne_nil {g : κ × List α} (h : g ∈ groupBy key xs) : g.2 ≠ [] := by
  obtain ⟨⟨a, ha, hk⟩, has⟩ := mem_groupBy.mp (show (g.1, g.2) ∈ _ from h)
  rw [has]
  exact ne_nil_of_mem (mem_filter.mpr ⟨ha, by simpa using hk⟩)

theorem getD_lookup_groupBy (key : α → κ) (xs : List α) (k : κ) :
    ((groupBy key xs).lookup k).getD [] = xs.filter fun a => key a = k := by
  cases hk : (groupBy key xs).lookup k with
  | some as =>
    have hmem : (k, as) ∈ groupBy key xs := by
      obtain ⟨before, after, hsplit, -⟩ := List.lookup_eq_some_iff.mp hk
      simp [hsplit]
    exact (mem_groupBy.mp hmem).2
  | none =>
    refine (filter_eq_nil_iff.mpr fun a ha hka => ?_).symm
    have hgroup := mem_groupBy.mpr ⟨⟨a, ha, of_decide_eq_true hka⟩, rfl⟩
    simpa using lookup_eq_none_iff.mp hk _ hgroup

theorem head?_lookup_groupBy (key : α → κ) (xs : List α) (k : κ) :
    ((groupBy key xs).lookup k).bind List.head? = (xs.filter fun a => key a = k).head? := by
  rw [← getD_lookup_groupBy]
  cases (groupBy key xs).lookup k <;> rfl

/-! ### The groups together -/

theorem push_perm (k : κ) (a : α) (gs : List (κ × List α)) :
    ((push k a gs).flatMap Prod.snd).Perm (gs.flatMap Prod.snd ++ [a]) := by
  induction gs with
  | nil => simp [push]
  | cons g gs ih =>
    obtain ⟨k', as⟩ := g
    by_cases h : k' = k
    · simp only [push, h, if_true, flatMap_cons, append_assoc]
      have hcomm : ([a] ++ gs.flatMap Prod.snd).Perm (gs.flatMap Prod.snd ++ [a]) :=
        perm_append_comm
      exact hcomm.append_left as
    · simp only [push, h, if_false, flatMap_cons, append_assoc]
      exact ih.append_left as

/-- **The groups together are the list**, up to order: nothing is lost and nothing
is counted twice. -/
theorem flatMap_groupBy_perm (key : α → κ) (xs : List α) :
    ((groupBy key xs).flatMap Prod.snd).Perm xs := by
  induction xs using reverseRecOn with
  | nil => simp
  | append_singleton xs a ih =>
    rw [groupBy_snoc]
    exact (push_perm _ _ _).trans (ih.append_right [a])

/-- **A sum over the groups is the sum over the list.** -/
theorem sum_groupBy (key : α → κ) (xs : List α) (f : α → ℤ) :
    ((groupBy key xs).map fun g => (g.2.map f).sum).sum = (xs.map f).sum := by
  have h := ((flatMap_groupBy_perm key xs).map f).sum_eq
  rw [← h, map_flatMap]
  induction groupBy key xs with
  | nil => rfl
  | cons g gs ih => rw [map_cons, sum_cons, flatMap_cons, sum_append, ih]

end FirstSeen
