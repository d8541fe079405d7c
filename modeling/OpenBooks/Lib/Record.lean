import Mathlib.Data.List.Sort

/-!
# Records

A record maps text keys to values and remembers the order in which its keys came. It is a
list of entries **with distinct keys**, which the type carries, so that looking a key up
and asking for an entry are the same (`Record.mem_entries`).

Two records with the same entries in another order are told apart by their order only;
`Record.canonical`, the entries sorted by key, forgets it, and still has every value
(`Record.lookup_canonical`).
-/

variable {ν μ : Type}

/-- Entries with distinct keys. -/
structure Record (ν : Type) where
  entries : List (String × ν)
  nodup : (entries.map Prod.fst).Nodup
  deriving DecidableEq

namespace Record

open List

/-- The record without entries. -/
def empty : Record ν := ⟨[], List.nodup_nil⟩

/-- The value under a key. -/
def get? (r : Record ν) (k : String) : Option ν := r.entries.lookup k

/-! ### Looking up -/

variable {es : List (String × ν)} {k : String}

theorem lookup_eq_some_iff (h : (es.map Prod.fst).Nodup) {v : ν} :
    es.lookup k = some v ↔ (k, v) ∈ es := by
  induction es with
  | nil => simp
  | cons e es ih =>
    obtain ⟨hnot, hes⟩ := nodup_cons.mp h
    obtain ⟨k', v'⟩ := e
    by_cases hk : k = k'
    · subst hk
      have hrest : (k, v) ∉ es := fun hmem => hnot (mem_map.mpr ⟨_, hmem, rfl⟩)
      simp [hrest, eq_comm]
    · have hbeq : (k == k') = false := by simpa using hk
      simp [lookup_cons, hbeq, hk, ih hes]

variable (r : Record ν)

theorem mem_entries {v : ν} : r.get? k = some v ↔ (k, v) ∈ r.entries :=
  lookup_eq_some_iff r.nodup

theorem lookup_eq_of_perm {es' : List (String × ν)} (h : es.Perm es')
    (hnodup : (es.map Prod.fst).Nodup) (k : String) : es.lookup k = es'.lookup k := by
  have hnodup' : (es'.map Prod.fst).Nodup := (h.map Prod.fst).nodup_iff.mp hnodup
  refine Option.ext fun v => ?_
  rw [lookup_eq_some_iff hnodup, lookup_eq_some_iff hnodup', h.mem_iff]

/-! ### Operations -/

theorem get?_eq_none_iff : r.get? k = none ↔ k ∉ r.entries.map Prod.fst := by
  rw [get?, lookup_eq_none_iff]
  simp only [mem_map, not_exists, not_and]
  constructor
  · rintro h e he rfl
    simpa using h e he
  · intro h e he
    simpa using fun hk : k = e.1 => h e he hk.symm

/-- Add an entry at the end, unless the key is there. -/
def setIfAbsent (r : Record ν) (k : String) (v : ν) : Record ν :=
  if h : k ∈ r.entries.map Prod.fst then r
  else ⟨r.entries ++ [(k, v)], by
    rw [List.map_append]
    refine List.nodup_append.mpr ⟨r.nodup, List.nodup_singleton _, ?_⟩
    rintro a ha b hb rfl
    obtain rfl : a = k := List.mem_singleton.mp hb
    exact h ha⟩

theorem get?_setIfAbsent (k : String) (v : ν) (k' : String) :
    (r.setIfAbsent k v).get? k' = (r.get? k').or (if k' = k then some v else none) := by
  rw [setIfAbsent]
  split_ifs with hmem hk hk
  · subst hk
    have hsome : r.get? k' ≠ none := fun hnone => r.get?_eq_none_iff.mp hnone hmem
    obtain ⟨w, hw⟩ := Option.ne_none_iff_exists'.mp hsome
    rw [hw]
    rfl
  · simp
  · subst hk
    have hnone := r.get?_eq_none_iff.mpr hmem
    rw [get?] at hnone
    simp [get?, lookup_append, hnone]
  · have hbeq : (k' == k) = false := by simpa using hk
    simp [get?, lookup_append, lookup_cons, hbeq]

theorem sublist_map_fst_filterMap (f : ν → Option μ) (es : List (String × ν)) :
    ((es.filterMap fun e => (f e.2).map fun v => (e.1, v)).map Prod.fst).Sublist
      (es.map Prod.fst) := by
  induction es with
  | nil => exact Sublist.refl _
  | cons e es ih =>
    cases hf : f e.2 with
    | none => simpa [filterMap_cons, hf] using ih.cons e.1
    | some v => simpa [filterMap_cons, hf] using ih.cons_cons e.1

/-- The entries whose values have an image. -/
def filterMapValues (f : ν → Option μ) (r : Record ν) : Record μ :=
  ⟨r.entries.filterMap fun e => (f e.2).map fun v => (e.1, v),
    (sublist_map_fst_filterMap f r.entries).nodup r.nodup⟩

theorem get?_filterMapValues (f : ν → Option μ) (r : Record ν) (k : String) :
    (r.filterMapValues f).get? k = (r.get? k).bind f := by
  refine Option.ext fun v => ?_
  rw [mem_entries, Option.bind_eq_some_iff]
  simp only [filterMapValues, mem_filterMap, Option.map_eq_some_iff, Prod.mk.injEq]
  constructor
  · rintro ⟨⟨k', w⟩, he, v', hv', rfl, rfl⟩
    exact ⟨w, r.mem_entries.mpr he, hv'⟩
  · rintro ⟨w, hw, hv⟩
    exact ⟨(k, w), r.mem_entries.mp hw, v, hv, rfl, rfl⟩

/-- The entries, sorted by key. -/
def canonical (r : Record ν) : List (String × ν) :=
  r.entries.insertionSort fun a b => a.1 ≤ b.1

theorem lookup_canonical (k : String) : r.canonical.lookup k = r.get? k := by
  have hperm : r.canonical.Perm r.entries := perm_insertionSort _ _
  exact (lookup_eq_of_perm hperm.symm r.nodup k).symm

end Record
