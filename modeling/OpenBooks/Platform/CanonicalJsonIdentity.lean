import OpenBooks.Platform.CanonicalJson

/-!
# What canonical JSON identifies

The canonical text of a value is the text of its normal form (`normal`): at every level,
the members without the prototype's key, in an order that depends on the keys alone. Texts of
different normal forms differ, because a text is a JSON text of one value only; so everything comes
down to when two normal forms are equal, which is when the values are equal up to the order of
keys without those members (`normal_eq_iff`).
-/

namespace OpenBooks

open Checked JsonGrammar List CodeUnits

variable {N : Type}

/-! ### Members -/

section Members

variable {α β : Type} {ms ms' : List (Units × α)}

/-- Members with other values under the same keys. -/
def mapValues (f : α → β) (ms : List (Units × α)) : List (Units × β) :=
  ms.map fun m => (m.1, f m.2)

variable (f : α → β)

@[simp] theorem map_fst_mapValues (ms : List (Units × α)) :
    (mapValues f ms).map Prod.fst = ms.map Prod.fst := by
  rw [mapValues, map_map]
  rfl

theorem mapValues_cons (k : Units) (a : α) (ms : List (Units × α)) :
    mapValues f ((k, a) :: ms) = (k, f a) :: mapValues f ms := rfl

theorem mem_mapValues {f : α → β} {k : Units} {b : β} :
    (k, b) ∈ mapValues f ms ↔ ∃ a, (k, a) ∈ ms ∧ f a = b := by
  simp only [mapValues, mem_map, Prod.mk.injEq, Prod.exists]
  constructor
  · rintro ⟨k, a, hmem, rfl, rfl⟩
    exact ⟨a, hmem, rfl⟩
  · rintro ⟨a, hmem, rfl⟩
    exact ⟨k, a, hmem, rfl, rfl⟩

section

variable (ms : List (Units × α))

theorem keep_mapValues : keep (mapValues f ms) = mapValues f (keep ms) := by
  rw [keep, mapValues, filter_map]
  rfl

theorem sortedByKey_mapValues : sortedByKey (mapValues f ms) = mapValues f (sortedByKey ms) :=
  (map_insertionSort _ _ (fun m : Units × α => (m.1, f m.2)) ms
    fun _ _ _ _ => Iff.rfl).symm

theorem enumeration_mapValues : enumeration (mapValues f ms) = mapValues f (enumeration ms) := by
  rw [enumeration, enumeration, mapValues, mapValues, map_append, filter_map, filter_map]
  congr 1
  exact (map_insertionSort _ _ (fun m : Units × α => (m.1, f m.2)) _
    fun _ _ _ _ => Iff.rfl).symm

theorem perm_sortedByKey : (sortedByKey ms).Perm ms :=
  perm_insertionSort _ _

theorem perm_enumeration : (enumeration ms).Perm ms := by
  have hnot : (fun m : Units × α => (arrayIndex m.1).isNone) =
      fun m => !(arrayIndex m.1).isSome := by
    funext m
    cases arrayIndex m.1 <;> rfl
  rw [enumeration, hnot]
  exact ((perm_insertionSort _ _).append_right _).trans (filter_append_perm _ _)

end

theorem nodup_keep (h : (ms.map Prod.fst).Nodup) : ((keep ms).map Prod.fst).Nodup :=
  (filter_sublist.map Prod.fst).nodup h

/-- With distinct keys, members are sorted in one way only. -/
theorem eq_of_sorted {l l' : List (Units × α)} (h : l.Perm l') (hnodup : (l.map Prod.fst).Nodup)
    (hl : l.Pairwise fun a b => a.1 ≤ b.1) (hl' : l'.Pairwise fun a b => a.1 ≤ b.1) : l = l' :=
  h.eq_of_pairwise (fun _ _ ha hb hab hba =>
    inj_on_of_nodup_map hnodup ha (h.mem_iff.mpr hb) (le_antisymm hab hba)) hl hl'

theorem pairwise_sortedByKey (ms : List (Units × α)) :
    (sortedByKey ms).Pairwise fun a b => a.1 ≤ b.1 :=
  pairwise_insertionSort _ _

theorem nodup_sortedByKey (h : (ms.map Prod.fst).Nodup) :
    ((sortedByKey ms).map Prod.fst).Nodup :=
  ((perm_sortedByKey ms).map Prod.fst).nodup_iff.mpr h

theorem keep_sortedByKey (h : (ms.map Prod.fst).Nodup) :
    keep (sortedByKey ms) = sortedByKey (keep ms) :=
  eq_of_sorted (((perm_sortedByKey ms).filter _).trans (perm_sortedByKey _).symm)
    (nodup_keep (nodup_sortedByKey h)) ((pairwise_sortedByKey ms).filter _)
    (pairwise_sortedByKey _)

/-- With distinct keys, the order the members came in is forgotten. -/
theorem sortedByKey_congr (h : ms.Perm ms') (hnodup : (ms.map Prod.fst).Nodup) :
    sortedByKey ms = sortedByKey ms' :=
  eq_of_sorted ((perm_sortedByKey ms).trans (h.trans (perm_sortedByKey ms').symm))
    (nodup_sortedByKey hnodup) (pairwise_sortedByKey _) (pairwise_sortedByKey _)

/-- The members that are kept, in the order in which they come out. -/
def arranged (ms : List (Units × α)) : List (Units × α) := enumeration (sortedByKey (keep ms))

theorem perm_arranged (ms : List (Units × α)) : (arranged ms).Perm (keep ms) :=
  (perm_enumeration _).trans (perm_sortedByKey _)

theorem arranged_eq_iff (hnodup : (ms.map Prod.fst).Nodup) :
    arranged ms = arranged ms' ↔ (keep ms).Perm (keep ms') := by
  constructor
  · intro h
    exact (perm_arranged ms).symm.trans (h ▸ perm_arranged ms')
  · intro h
    rw [arranged, arranged, sortedByKey_congr h (nodup_keep hnodup)]

theorem arranged_mapValues (ms : List (Units × α)) :
    arranged (mapValues f ms) = mapValues f (arranged ms) := by
  rw [arranged, keep_mapValues, sortedByKey_mapValues, enumeration_mapValues, ← arranged]

/-- Members with distinct keys are as many and all among the others, or they are not the same. -/
theorem perm_iff_of_nodup (h : (ms.map Prod.fst).Nodup) :
    ms.Perm ms' ↔ ms.length = ms'.length ∧ ∀ m ∈ ms, m ∈ ms' := by
  constructor
  · exact fun hp => ⟨hp.length_eq, fun m hm => hp.mem_iff.mp hm⟩
  · rintro ⟨hlen, hsub⟩
    exact (subperm_of_subset (Nodup.of_map _ h) hsub).perm_of_length_le hlen.ge

end Members

/-! ### The normal form -/

mutual

/-- A value as its canonical text shows it. -/
def normal : JsonGrammar.Value N → JsonGrammar.Value N
  | .null => .null
  | .bool b => .bool b
  | .number n => .number n
  | .string s => .string s
  | .array items => .array (normalItems items)
  | .object members => .object (arranged (normalMembers members))

def normalItems : List (JsonGrammar.Value N) → List (JsonGrammar.Value N)
  | [] => []
  | v :: items => normal v :: normalItems items

def normalMembers : List (Units × JsonGrammar.Value N) → List (Units × JsonGrammar.Value N)
  | [] => []
  | (k, v) :: members => (k, normal v) :: normalMembers members

end

variable (ms : List (Units × JsonGrammar.Value N))

theorem normalMembers_eq : normalMembers ms = mapValues normal ms := by
  induction ms with
  | nil => rfl
  | cons m ms ih =>
    obtain ⟨k, v⟩ := m
    rw [normalMembers, ih]
    rfl

theorem enumeratedMembers_eq : enumeratedMembers ms = mapValues enumerated ms := by
  induction ms with
  | nil => rfl
  | cons m ms ih =>
    obtain ⟨k, v⟩ := m
    rw [enumeratedMembers, ih]
    rfl

theorem withoutProtoMembers_eq : withoutProtoMembers ms = mapValues withoutProto ms := by
  induction ms with
  | nil => rfl
  | cons m ms ih =>
    obtain ⟨k, v⟩ := m
    rw [withoutProtoMembers, ih]
    rfl

theorem plainMembers_iff : PlainMembers ms ↔ ∀ k v, (k, v) ∈ ms → v.Plain := by
  induction ms with
  | nil => simp [PlainMembers]
  | cons m ms ih =>
    obtain ⟨k, v⟩ := m
    rw [PlainMembers, ih]
    simp only [mem_cons, Prod.mk.injEq]
    constructor
    · rintro ⟨hv, hms⟩ k' v' (⟨rfl, rfl⟩ | hmem)
      · exact hv
      · exact hms _ _ hmem
    · exact fun h => ⟨h k v (.inl ⟨rfl, rfl⟩), fun k' v' hmem => h k' v' (.inr hmem)⟩

theorem nodup_arranged {α : Type} {ms : List (Units × α)} (h : (ms.map Prod.fst).Nodup) :
    ((arranged ms).map Prod.fst).Nodup :=
  ((perm_arranged ms).map Prod.fst).nodup_iff.mpr (nodup_keep h)

mutual

theorem plain_normal : ∀ v : JsonGrammar.Value N, v.Plain → (normal v).Plain
  | .null, _ | .bool _, _ | .number _, _ | .string _, _ => trivial
  | .array items, h => by
    rw [JsonGrammar.Value.Plain] at h
    rw [normal, JsonGrammar.Value.Plain]
    exact plainItems_normal items h
  | .object members, h => by
    rw [JsonGrammar.Value.Plain] at h
    rw [normal, JsonGrammar.Value.Plain, normalMembers_eq]
    refine ⟨nodup_arranged (by rw [map_fst_mapValues]; exact h.1), ?_⟩
    have hmembers := plainMembers_normal members h.2
    rw [normalMembers_eq, plainMembers_iff] at hmembers
    rw [plainMembers_iff]
    intro k v hv
    exact hmembers k v (mem_of_mem_filter ((perm_arranged _).mem_iff.mp hv))

theorem plainItems_normal : ∀ items : List (JsonGrammar.Value N), PlainItems items →
    PlainItems (normalItems items)
  | [], _ => trivial
  | v :: items, h => by
    rw [PlainItems] at h
    rw [normalItems, PlainItems]
    exact ⟨plain_normal v h.1, plainItems_normal items h.2⟩

theorem plainMembers_normal : ∀ ms : List (Units × JsonGrammar.Value N), PlainMembers ms →
    PlainMembers (normalMembers ms)
  | [], _ => trivial
  | (k, v) :: ms, h => by
    rw [PlainMembers] at h
    rw [normalMembers, PlainMembers]
    exact ⟨plain_normal v h.1, plainMembers_normal ms h.2⟩

end

theorem arranged_arranged {α : Type} {ms : List (Units × α)} (h : (ms.map Prod.fst).Nodup) :
    arranged (arranged ms) = arranged ms := by
  have hkeep : keep (keep ms) = keep ms := by
    rw [keep, keep, filter_filter]
    simp
  rw [arranged_eq_iff (nodup_arranged h)]
  exact ((perm_arranged ms).filter _).trans (by rw [← keep, hkeep])

mutual

theorem normal_normal : ∀ v : JsonGrammar.Value N, v.Plain → normal (normal v) = normal v
  | .null, _ | .bool _, _ | .number _, _ | .string _, _ => rfl
  | .array items, h => by
    rw [JsonGrammar.Value.Plain] at h
    rw [normal, normal, normalItems_normalItems items h]
  | .object members, h => by
    rw [JsonGrammar.Value.Plain] at h
    have hmembers := normalMembers_normalMembers members h.2
    have hnodup : ((normalMembers members).map Prod.fst).Nodup := by
      rw [normalMembers_eq, map_fst_mapValues]
      exact h.1
    rw [normal, normal, normalMembers_eq (arranged _), ← arranged_mapValues, ← normalMembers_eq,
      hmembers, arranged_arranged hnodup]

theorem normalItems_normalItems : ∀ items : List (JsonGrammar.Value N), PlainItems items →
    normalItems (normalItems items) = normalItems items
  | [], _ => rfl
  | v :: items, h => by
    rw [PlainItems] at h
    rw [normalItems, normalItems, normal_normal v h.1, normalItems_normalItems items h.2]

theorem normalMembers_normalMembers : ∀ ms : List (Units × JsonGrammar.Value N), PlainMembers ms →
    normalMembers (normalMembers ms) = normalMembers ms
  | [], _ => rfl
  | (k, v) :: ms, h => by
    rw [PlainMembers] at h
    rw [normalMembers, normalMembers, normal_normal v h.1, normalMembers_normalMembers ms h.2]

end

/-! ### When normal forms are equal -/

mutual

/-- **Normal forms are equal for values that are the same without the prototype's members**, and
only for those. -/
theorem normal_eq_iff : ∀ a : JsonGrammar.Value N, a.Plain → ∀ b : JsonGrammar.Value N, b.Plain →
    (normal a = normal b ↔ Same (withoutProto a) (withoutProto b))
  | .null, _, b, _ => by cases b <;> simp [normal, withoutProto, Same]
  | .bool _, _, b, _ | .number _, _, b, _ =>
    by cases b <;> simp [normal, withoutProto, Same, eq_comm]
  | .string _, _, b, _ => by cases b <;> simp [normal, withoutProto, Same, eq_comm]
  | .array items, ha, b, hb => by
    cases b with
    | array items' =>
      rw [JsonGrammar.Value.Plain] at ha hb
      simp only [normal, withoutProto, Same, JsonGrammar.Value.array.injEq, exists_eq_left']
      exact normalItems_eq_iff items ha items' hb
    | _ => simp [normal, withoutProto, Same]
  | .object ms, ha, b, hb => by
    cases b with
    | object ms' =>
      rw [JsonGrammar.Value.Plain] at ha hb
      have hnodup : ((normalMembers ms).map Prod.fst).Nodup := by
        rw [normalMembers_eq, map_fst_mapValues]
        exact ha.1
      have hlen : ∀ ms : List (Units × JsonGrammar.Value N),
          (keep (normalMembers ms)).length = (keep (withoutProtoMembers ms)).length := by
        intro ms
        rw [normalMembers_eq, withoutProtoMembers_eq, keep_mapValues, keep_mapValues, mapValues,
          mapValues, length_map, length_map]
      simp only [normal, withoutProto, Same, JsonGrammar.Value.object.injEq, exists_eq_left']
      rw [arranged_eq_iff hnodup, perm_iff_of_nodup (nodup_keep hnodup), hlen, hlen,
        sameMembers_iff ms ha.2 ms' hb.2]
    | _ => simp [normal, withoutProto, Same]

theorem normalItems_eq_iff : ∀ items : List (JsonGrammar.Value N), PlainItems items →
    ∀ items' : List (JsonGrammar.Value N), PlainItems items' →
      (normalItems items = normalItems items' ↔
        SameItems (withoutProtoItems items) (withoutProtoItems items'))
  | [], _, items', _ => by cases items' <;> simp [normalItems, withoutProtoItems, SameItems]
  | v :: items, h, items', h' => by
    cases items' with
    | nil => simp [normalItems, withoutProtoItems, SameItems]
    | cons v' items' =>
      rw [PlainItems] at h h'
      simp only [normalItems, withoutProtoItems, SameItems, List.cons.injEq]
      rw [normal_eq_iff v h.1 v' h'.1, normalItems_eq_iff items h.2 items' h'.2]
      constructor
      · exact fun hsame => ⟨_, _, ⟨rfl, rfl⟩, hsame⟩
      · rintro ⟨_, _, ⟨rfl, rfl⟩, hsame⟩
        exact hsame

theorem sameMembers_iff : ∀ ms : List (Units × JsonGrammar.Value N), PlainMembers ms →
    ∀ ms' : List (Units × JsonGrammar.Value N), PlainMembers ms' →
      (SameMembers (keep (withoutProtoMembers ms)) (keep (withoutProtoMembers ms')) ↔
        ∀ m ∈ keep (normalMembers ms), m ∈ keep (normalMembers ms'))
  | [], _, ms', _ => by simp [withoutProtoMembers, normalMembers, keep, SameMembers]
  | (k, v) :: ms, h, ms', h' => by
    rw [PlainMembers] at h
    have hrest := sameMembers_iff ms h.2 ms' h'
    by_cases hk : k = PROTO
    · have hdrop : ∀ v : JsonGrammar.Value N, ∀ l, keep ((k, v) :: l) = keep l := fun v l =>
        filter_cons_of_neg (by simp [hk])
      rw [withoutProtoMembers, normalMembers, hdrop, hdrop, hrest]
    · have hcons : ∀ v : JsonGrammar.Value N, ∀ l, keep ((k, v) :: l) = (k, v) :: keep l :=
        fun v l =>
          filter_cons_of_pos (by simp [hk])
      rw [withoutProtoMembers, normalMembers, hcons, hcons, SameMembers, hrest, forall_mem_cons]
      refine and_congr_left fun _ => ?_
      rw [withoutProtoMembers_eq, normalMembers_eq, keep_mapValues, keep_mapValues]
      simp only [mem_mapValues]
      have hplain : ∀ w, (k, w) ∈ keep ms' → w.Plain := fun w hw =>
        (plainMembers_iff ms').mp h' k w (mem_of_mem_filter hw)
      constructor
      · rintro ⟨_, ⟨w, hw, rfl⟩, hsame⟩
        exact ⟨w, hw, ((normal_eq_iff v h.1 w (hplain w hw)).mpr hsame).symm⟩
      · rintro ⟨w, hw, heq⟩
        exact ⟨_, ⟨w, hw, rfl⟩, (normal_eq_iff v h.1 w (hplain w hw)).mp heq.symm⟩

end

/-! ### The canonical value and its normal form -/

theorem keep_cons {α : Type} (k : Units) (a : α) (ms : List (Units × α)) :
    keep ((k, a) :: ms) = if k = PROTO then keep ms else (k, a) :: keep ms := by
  by_cases hk : k = PROTO
  · rw [if_pos hk]
    exact filter_cons_of_neg (by simp [hk])
  · rw [if_neg hk]
    exact filter_cons_of_pos (by simp [hk])

/-- Children that are all there are the members, but for the prototype's. -/
theorem assignAll_mapValues {ms : List (Units × JsonGrammar.Value N)}
    (h : (ms.map Prod.fst).Nodup) :
    assignAll (mapValues (fun c => some (.ok c)) ms) = .ok (keep ms) := by
  have hrun : ∀ (ms acc : List (Units × JsonGrammar.Value N)), ((acc ++ ms).map Prod.fst).Nodup →
      (mapValues (fun c => some (.ok c)) ms).foldlM assignChild acc = .ok (acc ++ keep ms) := by
    intro ms
    induction ms with
    | nil =>
      intro acc _
      simp only [mapValues, keep, map_nil, foldlM_nil, filter_nil, append_nil]
      rfl
    | cons m ms ih =>
      intro acc hnodup
      obtain ⟨k, c⟩ := m
      have hstep : assignChild acc (k, some (.ok c)) = .ok (assign acc k c) := rfl
      rw [mapValues_cons, foldlM_cons, hstep, ok_bind, assign, keep_cons]
      have hsplit : acc ++ (k, c) :: ms = acc ++ [(k, c)] ++ ms := by simp
      by_cases hk : k = PROTO
      · rw [if_pos hk, if_pos hk]
        refine ih acc (Nodup.sublist ?_ hnodup)
        exact ((sublist_cons_self _ _).append_left _).map _
      · have hnew : k ∉ acc.map Prod.fst := by
          rw [map_append, map_cons, nodup_append] at hnodup
          exact fun hmem => hnodup.2.2 _ hmem _ mem_cons_self rfl
        rw [if_neg hk, if_neg hk, setMember, if_neg hnew, ih _ (hsplit ▸ hnodup),
          append_assoc, singleton_append]
  exact hrun ms [] h

mutual

theorem exists_canonical : ∀ v : JsonGrammar.Value N, v.Plain →
    ∃ c, toCanonicalJsonValue (toJs v) = .ok c ∧ enumerated c = normal v
  | .null, _ => ⟨.null, rfl, rfl⟩
  | .bool b, _ => ⟨.bool b, rfl, rfl⟩
  | .number n, _ => ⟨.number n, rfl, rfl⟩
  | .string s, _ => ⟨.string s, rfl, rfl⟩
  | .array items, h => by
    rw [JsonGrammar.Value.Plain] at h
    obtain ⟨cs, hcs, hnormal⟩ := exists_canonicalItems items h
    refine ⟨.array cs, ?_, ?_⟩
    · rw [toJs, toCanonicalJsonValue, hcs]
      rfl
    · rw [enumerated, normal, hnormal]
  | .object ms, h => by
    rw [JsonGrammar.Value.Plain] at h
    obtain ⟨cs, hkeys, hcs, hnormal⟩ := exists_canonicalMembers ms h.2
    have hnodup : (cs.map Prod.fst).Nodup := hkeys ▸ h.1
    refine ⟨.object (keep (sortedByKey cs)), ?_, ?_⟩
    · rw [toJs, toCanonicalJsonValue, hcs, sortedByKey_mapValues,
        assignAll_mapValues (nodup_sortedByKey hnodup)]
      rfl
    · rw [enumerated, normal, arranged, ← hnormal, keep_sortedByKey hnodup, enumeratedMembers_eq,
        enumeratedMembers_eq, keep_mapValues, sortedByKey_mapValues]

theorem exists_canonicalItems : ∀ items : List (JsonGrammar.Value N), PlainItems items →
    ∃ cs, toCanonicalItems (toJsItems items) = .ok cs ∧ enumeratedItems cs = normalItems items
  | [], _ => ⟨[], rfl, rfl⟩
  | v :: items, h => by
    rw [PlainItems] at h
    obtain ⟨c, hc, hv⟩ := exists_canonical v h.1
    obtain ⟨cs, hcs, hitems⟩ := exists_canonicalItems items h.2
    refine ⟨c :: cs, ?_, ?_⟩
    · rw [toJsItems, toCanonicalItems, hc, ok_bind, hcs, ok_bind]
      rfl
    · rw [enumeratedItems, normalItems, hv, hitems]

theorem exists_canonicalMembers : ∀ ms : List (Units × JsonGrammar.Value N), PlainMembers ms →
    ∃ cs : List (Units × JsonGrammar.Value N), cs.map Prod.fst = ms.map Prod.fst ∧
      toCanonicalMembers (toJsMembers ms) = mapValues (fun c => some (.ok c)) cs ∧
      enumeratedMembers cs = normalMembers ms
  | [], _ => ⟨[], rfl, rfl, rfl⟩
  | (k, v) :: ms, h => by
    rw [PlainMembers] at h
    obtain ⟨c, hc, hv⟩ := exists_canonical v h.1
    obtain ⟨cs, hkeys, hcs, hms⟩ := exists_canonicalMembers ms h.2
    have hdefined : (toJs v).isUndefined = false := by
      cases v <;> rfl
    refine ⟨(k, c) :: cs, ?_, ?_, ?_⟩
    · rw [map_cons, map_cons, hkeys]
    · rw [toJsMembers, toCanonicalMembers, hdefined, hc, hcs]
      rfl
    · rw [enumeratedMembers, normalMembers, hv, hms]

end

/-! ### Taking the prototype's members out -/

mutual

theorem same_withoutProto : ∀ a : JsonGrammar.Value N, a.Plain →
    ∀ b : JsonGrammar.Value N, Same a b →
    Same (withoutProto a) (withoutProto b)
  | .null, _, b, h | .bool _, _, b, h | .number _, _, b, h | .string _, _, b, h => by
    rw [Same] at h
    rw [h, withoutProto, Same]
  | .array items, ha, b, h => by
    rw [JsonGrammar.Value.Plain] at ha
    rw [Same] at h
    obtain ⟨items', rfl, hitems⟩ := h
    rw [withoutProto, withoutProto, Same]
    exact ⟨_, rfl, sameItems_withoutProto items ha items' hitems⟩
  | .object ms, ha, b, h => by
    rw [JsonGrammar.Value.Plain] at ha
    rw [Same] at h
    obtain ⟨ms', rfl, hlen, hms⟩ := h
    rw [withoutProto, withoutProto, Same]
    refine ⟨_, rfl, ?_, sameMembers_withoutProto ms ha.2 ms' hms⟩
    have hkeys : (ms.map Prod.fst).Perm (ms'.map Prod.fst) := by
      refine (subperm_of_subset ha.1 ?_).perm_of_length_le (by simp [hlen])
      exact subset_of_sameMembers ms ms' hms
    have hcount : ∀ l : List (Units × JsonGrammar.Value N),
        (keep (withoutProtoMembers l)).length =
          ((l.map Prod.fst).filter fun k => k ≠ PROTO).length := by
      intro l
      rw [withoutProtoMembers_eq, keep_mapValues, mapValues, length_map, keep,
        filter_map, length_map]
      rfl
    rw [hcount, hcount]
    exact (hkeys.filter _).length_eq

theorem sameItems_withoutProto : ∀ items : List (JsonGrammar.Value N), PlainItems items →
    ∀ items' : List (JsonGrammar.Value N), SameItems items items' →
      SameItems (withoutProtoItems items) (withoutProtoItems items')
  | [], _, items', h => by
    rw [SameItems] at h
    rw [h, withoutProtoItems, SameItems]
  | v :: items, hplain, items', h => by
    rw [PlainItems] at hplain
    rw [SameItems] at h
    obtain ⟨v', rest, rfl, hv, hrest⟩ := h
    rw [withoutProtoItems, withoutProtoItems, SameItems]
    exact ⟨_, _, rfl, same_withoutProto v hplain.1 v' hv,
      sameItems_withoutProto items hplain.2 rest hrest⟩

theorem sameMembers_withoutProto : ∀ ms : List (Units × JsonGrammar.Value N), PlainMembers ms →
    ∀ ms' : List (Units × JsonGrammar.Value N), SameMembers ms ms' →
      SameMembers (keep (withoutProtoMembers ms)) (keep (withoutProtoMembers ms'))
  | [], _, ms', _ => by simp [withoutProtoMembers, keep, SameMembers]
  | (k, v) :: ms, hplain, ms', h => by
    rw [PlainMembers] at hplain
    rw [SameMembers] at h
    obtain ⟨⟨v', hmem, hv⟩, hrest⟩ := h
    have hms := sameMembers_withoutProto ms hplain.2 ms' hrest
    rw [withoutProtoMembers, keep_cons]
    split_ifs with hk
    · exact hms
    · rw [SameMembers]
      refine ⟨⟨withoutProto v', ?_, same_withoutProto v hplain.1 v' hv⟩, hms⟩
      rw [withoutProtoMembers_eq, keep_mapValues]
      exact mem_mapValues.mpr ⟨v', mem_filter.mpr ⟨hmem, by simp [hk]⟩, rfl⟩

theorem subset_of_sameMembers : ∀ ms ms' : List (Units × JsonGrammar.Value N), SameMembers ms ms' →
    ms.map Prod.fst ⊆ ms'.map Prod.fst
  | [], _, _ => by simp
  | (k, v) :: ms, ms', h => by
    rw [SameMembers] at h
    obtain ⟨⟨v', hmem, -⟩, hrest⟩ := h
    rw [map_cons, cons_subset]
    exact ⟨mem_map.mpr ⟨(k, v'), hmem, rfl⟩, subset_of_sameMembers ms ms' hrest⟩

end

/-! ### Canonical texts -/

variable {v : JsonGrammar.Value N}

theorem jsonParse_writeValue (texts : NumberTexts N) (h : v.Plain) :
    jsonParse texts (writeValue texts.write v) = .ok v := by
  have htext := nestedText_writeValue texts.write texts.numberToken_write v
  refine ExactJson.parseDocument_eq_ok_iff.mpr
    ⟨_, padded_self ⟨_, htext⟩, htext.depth_le_length, ?_⟩
  rw [denote_of_plain _ _ (plain_mapNumber texts.write v h), mapNumber_back texts.read_write]

theorem canonicalJson_toJs (texts : NumberTexts N) (h : v.Plain) :
    canonicalJson texts (toJs v) = .ok (writeValue texts.write (normal v)) := by
  obtain ⟨c, hc, hnormal⟩ := exists_canonical v h
  rw [canonicalJson, hc, ← hnormal]
  rfl

/-- **Canonical texts tell JSON values apart, but for members under the prototype's key.** Two
values have one canonical text exactly when they are equal up to the order of keys – unless they
come to be equal only by leaving those members out. And a canonical text that is parsed has itself
for its canonical text. -/
theorem canonicalJson_eq_iff (texts : NumberTexts N) (a b : JsonValue N) :
    ((canonicalJson texts (toJs a.tree) = canonicalJson texts (toJs b.tree) ↔
        Same a.tree b.tree) ↔
      (Same (withoutProto a.tree) (withoutProto b.tree) → Same a.tree b.tree)) ∧
    ∃ text parsed, canonicalJson texts (toJs a.tree) = .ok text ∧
      jsonParse texts text = .ok parsed ∧ canonicalJson texts (toJs parsed) = .ok text := by
  have hplain := plain_normal a.tree a.plain
  have htexts : canonicalJson texts (toJs a.tree) = canonicalJson texts (toJs b.tree) ↔
      Same (withoutProto a.tree) (withoutProto b.tree) := by
    rw [canonicalJson_toJs texts a.plain, canonicalJson_toJs texts b.plain,
      ← normal_eq_iff a.tree a.plain b.tree b.plain]
    constructor
    · intro h
      have hparsed := jsonParse_writeValue texts hplain
      rw [Except.ok.inj h, jsonParse_writeValue texts (plain_normal b.tree b.plain)] at hparsed
      exact (Except.ok.inj hparsed).symm
    · intro h
      rw [h]
  refine ⟨?_, _, normal a.tree, canonicalJson_toJs texts a.plain,
    jsonParse_writeValue texts hplain, ?_⟩
  · rw [htexts]
    exact ⟨Iff.mp, fun h => ⟨h, same_withoutProto a.tree a.plain b.tree⟩⟩
  · rw [canonicalJson_toJs texts hplain, normal_normal a.tree a.plain]

theorem numberToken_digit (n : Fin 10) : NumberToken [0x30 + n.val] := by
  have hinteger : IntegerPart [0x30 + n.val] := by
    by_cases hn : n.val = 0
    · rw [hn]
      exact .zero
    · have := n.isLt
      refine .digits ?_ (by omega) (by simp)
      simp only [isDigit, Bool.and_eq_true, decide_eq_true_eq]
      omega
  simpa using NumberToken.parts (.inl rfl) hinteger .none .none

/-- Whole numbers of one digit, as they are written. -/
def digitTexts : NumberTexts (Fin 10) where
  write n := [0x30 + n.val]
  read t := Fin.ofNat 10 (t.headD 0x30 - 0x30)
  numberToken_write := numberToken_digit
  read_write := by decide

/-- An object with nothing but a member under the prototype's key, and the empty object. -/
theorem proto_member_is_lost :
    ∃ a b : JsonValue (Fin 10), a.tree = .object [(encode "__proto__", .number 1)] ∧
      b.tree = .object [] ∧ ¬Same a.tree b.tree ∧
      canonicalJson digitTexts (toJs a.tree) = .ok (encode "{}") ∧
      canonicalJson digitTexts (toJs b.tree) = .ok (encode "{}") := by
  have hmember :
      (JsonGrammar.Value.object [(encode "__proto__", .number (1 : Fin 10))]).Plain := by
    simp [JsonGrammar.Value.Plain, PlainMembers]
  have hempty : (JsonGrammar.Value.object [] : JsonGrammar.Value (Fin 10)).Plain := by
    simp [JsonGrammar.Value.Plain, PlainMembers]
  have hlost : canonicalJson digitTexts
      (toJs (.object [(encode "__proto__", .number 1)])) =
        .ok (encode "{}") := by decide +kernel
  have hnone : canonicalJson digitTexts (toJs (.object [])) = .ok (encode "{}") := by
    decide +kernel
  exact ⟨⟨_, hmember⟩, ⟨_, hempty⟩, rfl, rfl, by simp [Same], hlost, hnone⟩

end OpenBooks
