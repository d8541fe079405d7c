import Mathlib.Data.List.Basic
import Mathlib.Data.List.Nodup
import Mathlib.Order.MinMax
import Mathlib.Tactic.SplitIfs

/-!
# The grammar of JSON

A text is a list of code units, and `JsonGrammar.JsonText` says which value a text is a JSON text
of: the grammar of RFC 8259, with the number left as the token it is written as. What is written
between the delimiters is `JsonGrammar.Separated`, white space goes with the piece it stands around
(`JsonGrammar.Padded`), and a value is one step from the values directly inside it
(`JsonGrammar.ValueStep`). Iterating the step bounds the nesting, so induction over the grammar is
induction over a number (`JsonGrammar.nestedText_iff`).

A text may repeat a key, and its numbers may be read in one way or another.
`JsonGrammar.Value.denote` is the value a syntax tree stands for, with the last value of each key;
a tree without repetitions stands for what it shows (`JsonGrammar.denote_of_plain`).
-/

namespace JsonGrammar

open List

/-- A text, as its code units. -/
abbrev Units := List ℕ

/-! ### Values -/

/-- A value with numbers of some kind. The members of an object are listed, and a key may come
more than once. -/
inductive Value (N : Type) where
  | null
  | bool (b : Bool)
  | number (n : N)
  | string (s : Units)
  | array (items : List (Value N))
  | object (members : List (Units × Value N))

section Members

variable {κ α : Type} [DecidableEq κ]

/-- Set what stands under a key: in the place it has, or at the end. -/
def setMember (ms : List (κ × α)) (k : κ) (a : α) : List (κ × α) :=
  if k ∈ ms.map Prod.fst then ms.map fun m => if m.1 = k then (k, a) else m else ms ++ [(k, a)]

/-- The members with the last value of each key. -/
def lastWins (ms : List (κ × α)) : List (κ × α) :=
  ms.foldl (fun acc m => setMember acc m.1 m.2) []

variable {ms : List (κ × α)}

theorem foldl_setMember_of_nodup {acc : List (κ × α)} (h : ((acc ++ ms).map Prod.fst).Nodup) :
    ms.foldl (fun acc m => setMember acc m.1 m.2) acc = acc ++ ms := by
  induction ms generalizing acc with
  | nil => rw [append_nil]; rfl
  | cons m ms ih =>
    have hnew : m.1 ∉ acc.map Prod.fst := by
      rw [map_append, map_cons, nodup_append] at h
      exact fun hmem => h.2.2 _ hmem _ mem_cons_self rfl
    have happ : acc ++ m :: ms = acc ++ [(m.1, m.2)] ++ ms := by simp
    rw [happ] at h ⊢
    rw [foldl_cons, setMember, if_neg hnew, ih h]

theorem lastWins_of_nodup (h : (ms.map Prod.fst).Nodup) : lastWins ms = ms := by
  rw [lastWins, foldl_setMember_of_nodup (by simpa using h), nil_append]

end Members

section Values

variable {N : Type}

mutual

/-- How deep arrays and objects nest. -/
def Value.depth : Value N → ℕ
  | .array items => depthItems items + 1
  | .object members => depthMembers members + 1
  | _ => 0

def depthItems : List (Value N) → ℕ
  | [] => 0
  | v :: items => max v.depth (depthItems items)

def depthMembers : List (Units × Value N) → ℕ
  | [] => 0
  | (_, v) :: members => max v.depth (depthMembers members)

end

section Denote

variable {M : Type} (ofNumber : M → Value N)

mutual

/-- The value a syntax tree stands for: numbers as they are read, and the last of each key's
values. -/
def Value.denote : Value M → Value N
  | .null => .null
  | .bool b => .bool b
  | .number n => ofNumber n
  | .string s => .string s
  | .array items => .array (denoteItems items)
  | .object members => .object (lastWins (denoteMembers members))

def denoteItems : List (Value M) → List (Value N)
  | [] => []
  | v :: items => v.denote :: denoteItems items

def denoteMembers : List (Units × Value M) → List (Units × Value N)
  | [] => []
  | (k, v) :: members => (k, v.denote) :: denoteMembers members

end

mutual

/-- A value with its numbers as they are read. -/
def Value.mapNumber : Value M → Value N
  | .null => .null
  | .bool b => .bool b
  | .number n => ofNumber n
  | .string s => .string s
  | .array items => .array (mapNumberItems items)
  | .object members => .object (mapNumberMembers members)

def mapNumberItems : List (Value M) → List (Value N)
  | [] => []
  | v :: items => v.mapNumber :: mapNumberItems items

def mapNumberMembers : List (Units × Value M) → List (Units × Value N)
  | [] => []
  | (k, v) :: members => (k, v.mapNumber) :: mapNumberMembers members

end

theorem map_fst_mapNumberMembers (members : List (Units × Value M)) :
    (mapNumberMembers ofNumber members).map Prod.fst = members.map Prod.fst := by
  induction members with
  | nil => rw [mapNumberMembers]; rfl
  | cons m members ih =>
    obtain ⟨k, v⟩ := m
    rw [mapNumberMembers, map_cons, map_cons, ih]

end Denote

mutual

/-- No object repeats a key. -/
def Value.Plain : Value N → Prop
  | .array items => PlainItems items
  | .object members => (members.map Prod.fst).Nodup ∧ PlainMembers members
  | _ => True

def PlainItems : List (Value N) → Prop
  | [] => True
  | v :: items => v.Plain ∧ PlainItems items

def PlainMembers : List (Units × Value N) → Prop
  | [] => True
  | (_, v) :: members => v.Plain ∧ PlainMembers members

end

theorem plainItems_iff {items : List (Value N)} : PlainItems items ↔ ∀ v ∈ items, v.Plain := by
  induction items with
  | nil => simp [PlainItems]
  | cons v items ih => rw [PlainItems, ih, forall_mem_cons]

theorem plainMembers_iff {members : List (Units × Value N)} :
    PlainMembers members ↔ ∀ m ∈ members, m.2.Plain := by
  induction members with
  | nil => simp [PlainMembers]
  | cons m members ih => rw [PlainMembers, ih, forall_mem_cons]

/-- What holds of the values directly inside one. -/
def Value.Inside (Q : Value N → Prop) : Value N → Prop
  | .array items => ∀ v ∈ items, Q v
  | .object members => ∀ m ∈ members, Q m.2
  | _ => True

section Plain

variable {M : Type} (ofNumber : M → Value N)

mutual

/-- A tree without repeated keys stands for what it shows. -/
theorem denote_of_plain : ∀ v : Value M, v.Plain → v.denote ofNumber = v.mapNumber ofNumber
  | .null, _ | .bool _, _ | .number _, _ | .string _, _ => rfl
  | .array items, h => by
    rw [Value.Plain] at h
    rw [Value.denote, Value.mapNumber, denoteItems_of_plain items h]
  | .object members, h => by
    rw [Value.Plain] at h
    rw [Value.denote, Value.mapNumber, denoteMembers_of_plain members h.2,
      lastWins_of_nodup (by rw [map_fst_mapNumberMembers]; exact h.1)]

theorem denoteItems_of_plain : ∀ items : List (Value M), PlainItems items →
    denoteItems ofNumber items = mapNumberItems ofNumber items
  | [], _ => rfl
  | v :: items, h => by
    rw [PlainItems] at h
    rw [denoteItems, mapNumberItems, denote_of_plain v h.1, denoteItems_of_plain items h.2]

theorem denoteMembers_of_plain : ∀ members : List (Units × Value M), PlainMembers members →
    denoteMembers ofNumber members = mapNumberMembers ofNumber members
  | [], _ => rfl
  | (k, v) :: members, h => by
    rw [PlainMembers] at h
    rw [denoteMembers, mapNumberMembers, denote_of_plain v h.1,
      denoteMembers_of_plain members h.2]

end

end Plain

section Relabel

variable {M : Type} (ofNumber : N → M)

mutual

theorem plain_mapNumber : ∀ v : Value N, v.Plain →
    (v.mapNumber fun n => Value.number (ofNumber n)).Plain
  | .null, _ | .bool _, _ | .number _, _ | .string _, _ => trivial
  | .array items, h => by
    rw [Value.Plain] at h
    rw [Value.mapNumber, Value.Plain]
    exact plainItems_mapNumber items h
  | .object members, h => by
    rw [Value.Plain] at h
    rw [Value.mapNumber, Value.Plain, map_fst_mapNumberMembers]
    exact ⟨h.1, plainMembers_mapNumber members h.2⟩

theorem plainItems_mapNumber : ∀ items : List (Value N), PlainItems items →
    PlainItems (mapNumberItems (fun n => Value.number (ofNumber n)) items)
  | [], _ => trivial
  | v :: items, h => by
    rw [PlainItems] at h
    rw [mapNumberItems, PlainItems]
    exact ⟨plain_mapNumber v h.1, plainItems_mapNumber items h.2⟩

theorem plainMembers_mapNumber : ∀ members : List (Units × Value N), PlainMembers members →
    PlainMembers (mapNumberMembers (fun n => Value.number (ofNumber n)) members)
  | [], _ => trivial
  | (k, v) :: members, h => by
    rw [PlainMembers] at h
    rw [mapNumberMembers, PlainMembers]
    exact ⟨plain_mapNumber v h.1, plainMembers_mapNumber members h.2⟩

end

variable {ofNumber} {back : M → N}

mutual

theorem mapNumber_back (h : ∀ n, back (ofNumber n) = n) : ∀ v : Value N,
    (v.mapNumber fun n => Value.number (ofNumber n)).mapNumber (fun m => Value.number (back m)) = v
  | .null | .bool _ => rfl
  | .number n => congrArg Value.number (h n)
  | .string _ => rfl
  | .array items => by
    rw [Value.mapNumber, Value.mapNumber, mapNumberItems_back h items]
  | .object members => by
    rw [Value.mapNumber, Value.mapNumber, mapNumberMembers_back h members]

theorem mapNumberItems_back (h : ∀ n, back (ofNumber n) = n) : ∀ items : List (Value N),
    mapNumberItems (fun m => Value.number (back m))
      (mapNumberItems (fun n => Value.number (ofNumber n)) items) = items
  | [] => rfl
  | v :: items => by
    rw [mapNumberItems, mapNumberItems, mapNumber_back h v, mapNumberItems_back h items]

theorem mapNumberMembers_back (h : ∀ n, back (ofNumber n) = n) :
    ∀ members : List (Units × Value N),
      mapNumberMembers (fun m => Value.number (back m))
        (mapNumberMembers (fun n => Value.number (ofNumber n)) members) = members
  | [] => rfl
  | (k, v) :: members => by
    rw [mapNumberMembers, mapNumberMembers, mapNumber_back h v, mapNumberMembers_back h members]

end

end Relabel

end Values

/-! ### Numbers -/

def isDigit (u : ℕ) : Bool := 0x30 ≤ u && u ≤ 0x39

/-- One digit or more. -/
def Digits (t : Units) : Prop := t ≠ [] ∧ ∀ u ∈ t, isDigit u = true

/-- `0`, or digits that do not start with it. -/
inductive IntegerPart : Units → Prop
  | zero : IntegerPart [0x30]
  | digits {u : ℕ} {ds : Units} (hu : isDigit u = true) (hne : u ≠ 0x30)
      (hds : ∀ d ∈ ds, isDigit d = true) : IntegerPart (u :: ds)

/-- A point with digits behind it, or nothing. -/
inductive FractionPart : Units → Prop
  | none : FractionPart []
  | digits {ds : Units} (hds : Digits ds) : FractionPart (0x2e :: ds)

/-- `e` or `E`, a sign or none, and digits; or nothing. -/
inductive ExponentPart : Units → Prop
  | none : ExponentPart []
  | digits {e : ℕ} {sign ds : Units} (he : e = 0x65 ∨ e = 0x45)
      (hsign : sign = [] ∨ sign = [0x2b] ∨ sign = [0x2d]) (hds : Digits ds) :
      ExponentPart (e :: (sign ++ ds))

inductive NumberToken : Units → Prop
  | parts {minus integer fraction exponent : Units} (hminus : minus = [] ∨ minus = [0x2d])
      (hinteger : IntegerPart integer) (hfraction : FractionPart fraction)
      (hexponent : ExponentPart exponent) :
      NumberToken (minus ++ (integer ++ (fraction ++ exponent)))

/-! ### Strings -/

/-- The digit a code unit is to the base sixteen. -/
def hexDigit (u : ℕ) : Option ℕ :=
  if isDigit u then some (u - 0x30)
  else if 0x61 ≤ u ∧ u ≤ 0x66 then some (u - 0x61 + 10)
  else if 0x41 ≤ u ∧ u ≤ 0x46 then some (u - 0x41 + 10)
  else none

/-- What a backslash with one unit stands for. -/
def shortEscape (u : ℕ) : Option ℕ :=
  if u = 0x22 then some 0x22
  else if u = 0x5c then some 0x5c
  else if u = 0x2f then some 0x2f
  else if u = 0x62 then some 0x08
  else if u = 0x66 then some 0x0c
  else if u = 0x6e then some 0x0a
  else if u = 0x72 then some 0x0d
  else if u = 0x74 then some 0x09
  else none

/-- The texts of a string between its quotes. -/
inductive CharsText : Units → Units → Prop
  | nil : CharsText [] []
  | plain {u : ℕ} {s t : Units} (hu : 0x20 ≤ u) (hquote : u ≠ 0x22) (hslash : u ≠ 0x5c)
      (h : CharsText s t) : CharsText (u :: s) (u :: t)
  | short {e u : ℕ} {s t : Units} (he : shortEscape e = some u) (h : CharsText s t) :
      CharsText (u :: s) (0x5c :: e :: t)
  | unicode {a b c d w x y z : ℕ} {s t : Units} (ha : hexDigit a = some w)
      (hb : hexDigit b = some x) (hc : hexDigit c = some y) (hd : hexDigit d = some z)
      (h : CharsText s t) :
      CharsText ((((w * 16 + x) * 16 + y) * 16 + z) :: s) (0x5c :: 0x75 :: a :: b :: c :: d :: t)

/-- A text in quotes. -/
def quoted (t : Units) : Units := 0x22 :: (t ++ [0x22])

/-! ### The grammar -/

/-- Space, tab, line feed, carriage return. -/
def isWhite (u : ℕ) : Bool := u = 0x20 || u = 0x09 || u = 0x0a || u = 0x0d

def White (t : Units) : Prop := ∀ u ∈ t, isWhite u = true

def trueText : Units := [0x74, 0x72, 0x75, 0x65]

def falseText : Units := [0x66, 0x61, 0x6c, 0x73, 0x65]

def nullText : Units := [0x6e, 0x75, 0x6c, 0x6c]

/-- The texts of values that hold no others. -/
inductive ScalarText : Value Units → Units → Prop
  | nullLiteral : ScalarText .null nullText
  | trueLiteral : ScalarText (.bool true) trueText
  | falseLiteral : ScalarText (.bool false) falseText
  | number {t : Units} (h : NumberToken t) : ScalarText (.number t) t
  | string {s t : Units} (h : CharsText s t) : ScalarText (.string s) (quoted t)

section Grammar

variable {α : Type} {P Q : Value Units → Units → Prop} {v : Value Units} {t : Units}

/-- One thing or more, with commas between them. -/
inductive Separated (R : α → Units → Prop) : List α → Units → Prop
  | last {x : α} {t : Units} (h : R x t) : Separated R [x] t
  | cons {x : α} {t : Units} {xs : List α} {more : Units} (h : R x t)
      (hmore : Separated R xs more) : Separated R (x :: xs) (t ++ 0x2c :: more)

/-- A value with white space around it. -/
def Padded (P : Value Units → Units → Prop) (v : Value Units) (t : Units) : Prop :=
  ∃ w b w', White w ∧ P v b ∧ White w' ∧ t = w ++ (b ++ w')

/-- A member: its key, a colon and its value. -/
def MemberText (P : Value Units → Units → Prop) (m : Units × Value Units) (t : Units) : Prop :=
  ∃ w k w' b, White w ∧ CharsText m.1 k ∧ White w' ∧ Padded P m.2 b ∧
    t = w ++ (quoted k ++ (w' ++ 0x3a :: b))

/-- The texts of a value, given those of the values directly inside it. -/
inductive ValueStep (P : Value Units → Units → Prop) : Value Units → Units → Prop
  | scalar {v : Value Units} {t : Units} (h : ScalarText v t) : ValueStep P v t
  | emptyArray {w : Units} (hw : White w) : ValueStep P (.array []) (0x5b :: (w ++ [0x5d]))
  | array {items : List (Value Units)} {t : Units} (h : Separated (Padded P) items t) :
      ValueStep P (.array items) (0x5b :: (t ++ [0x5d]))
  | emptyObject {w : Units} (hw : White w) : ValueStep P (.object []) (0x7b :: (w ++ [0x7d]))
  | object {members : List (Units × Value Units)} {t : Units}
      (h : Separated (MemberText P) members t) :
      ValueStep P (.object members) (0x7b :: (t ++ [0x7d]))

section And

variable {S : Value Units → Prop}

theorem separated_and_iff {R : α → Units → Prop} {S : α → Prop} {xs : List α} :
    Separated (fun x t => R x t ∧ S x) xs t ↔ Separated R xs t ∧ ∀ x ∈ xs, S x := by
  constructor
  · intro h
    induction h with
    | last h => exact ⟨.last h.1, by simpa using h.2⟩
    | cons h _ ih => exact ⟨.cons h.1 ih.1, forall_mem_cons.mpr ⟨h.2, ih.2⟩⟩
  · rintro ⟨h, hS⟩
    induction h with
    | last h => exact .last ⟨h, hS _ mem_cons_self⟩
    | cons h _ ih => exact .cons ⟨h, hS _ mem_cons_self⟩ (ih (forall_mem_cons.mp hS).2)

theorem padded_and : Padded (fun v t => P v t ∧ S v) = fun v t => Padded P v t ∧ S v := by
  funext v t
  simp only [Padded, eq_iff_iff]
  tauto

theorem memberText_and :
    MemberText (fun v t => P v t ∧ S v) = fun m t => MemberText P m t ∧ S m.2 := by
  funext m t
  simp only [MemberText, padded_and, eq_iff_iff]
  constructor
  · rintro ⟨w, k, w', b, hw, hk, hw', ⟨hb, hS⟩, ht⟩
    exact ⟨⟨w, k, w', b, hw, hk, hw', hb, ht⟩, hS⟩
  · rintro ⟨⟨w, k, w', b, hw, hk, hw', hb, ht⟩, hS⟩
    exact ⟨w, k, w', b, hw, hk, hw', ⟨hb, hS⟩, ht⟩

theorem valueStep_and_iff :
    ValueStep (fun v t => P v t ∧ S v) v t ↔ ValueStep P v t ∧ v.Inside S := by
  constructor
  · rintro (h | h | h | h | h)
    · exact ⟨.scalar h, by cases h <;> trivial⟩
    · exact ⟨.emptyArray h, by simp [Value.Inside]⟩
    · rw [padded_and, separated_and_iff] at h
      exact ⟨.array h.1, h.2⟩
    · exact ⟨.emptyObject h, by simp [Value.Inside]⟩
    · rw [memberText_and, separated_and_iff] at h
      exact ⟨.object h.1, h.2⟩
  · rintro ⟨h | h | h | h | h, hS⟩
    · exact .scalar h
    · exact .emptyArray h
    · exact .array (by rw [padded_and]; exact separated_and_iff.mpr ⟨h, hS⟩)
    · exact .emptyObject h
    · exact .object (by rw [memberText_and]; exact separated_and_iff.mpr ⟨h, hS⟩)

end And

/-- The texts of a value in at most so many steps. -/
def NestedText : ℕ → Value Units → Units → Prop
  | 0 => ScalarText
  | d + 1 => ValueStep (NestedText d)

def ValueText (v : Value Units) (t : Units) : Prop := ∃ d, NestedText d v t

/-- **The JSON texts of a value.** -/
def JsonText (v : Value Units) (t : Units) : Prop := Padded ValueText v t

/-! ### How texts start -/

variable {d : ℕ}

section Starts

variable {raw : Value Units} {b w : Units}

theorem IntegerPart.head {i : Units} (hi : IntegerPart i) :
    ∃ u more, i = u :: more ∧ isDigit u = true := by
  cases hi with
  | zero => exact ⟨_, _, rfl, by decide⟩
  | digits hu _ _ => exact ⟨_, _, rfl, hu⟩

theorem NumberToken.head {token : Units} (h : NumberToken token) :
    ∃ u more, token = u :: more ∧ (u = 0x2d ∨ isDigit u = true) := by
  obtain @⟨minus, i, f, x, hminus, hi, -, -⟩ := h
  obtain ⟨u, more, rfl, hu⟩ := IntegerPart.head hi
  obtain rfl | rfl := hminus
  · exact ⟨u, _, rfl, .inr hu⟩
  · exact ⟨0x2d, _, rfl, .inl rfl⟩

theorem ScalarText.head (h : ScalarText raw b) :
    ∃ u more, b = u :: more ∧ isWhite u = false ∧ u ≠ 0x5d ∧ u ≠ 0x7b ∧ u ≠ 0x5b := by
  cases h with
  | nullLiteral | trueLiteral | falseLiteral | string _ => exact ⟨_, _, rfl, by decide⟩
  | number hb =>
    obtain ⟨u, more, rfl, hu⟩ := NumberToken.head hb
    refine ⟨u, more, rfl, ?_⟩
    rcases hu with rfl | hu
    · decide
    · simp only [isDigit, Bool.and_eq_true, decide_eq_true_eq] at hu
      simp only [isWhite, Bool.or_eq_false_iff, decide_eq_false_iff_not]
      omega

theorem ValueStep.head {P : Value Units → Units → Prop} (h : ValueStep P raw b) :
    ∃ u more, b = u :: more ∧ isWhite u = false ∧ u ≠ 0x5d := by
  cases h with
  | scalar h =>
    obtain ⟨u, more, rfl, hu, hclose, -⟩ := ScalarText.head h
    exact ⟨u, more, rfl, hu, hclose⟩
  | emptyArray _ | array _ | emptyObject _ | object _ => exact ⟨_, _, rfl, by decide⟩

theorem White.append {w w' : Units} (hw : White w) (hw' : White w') : White (w ++ w') :=
  fun u hu => (mem_append.mp hu).elim (hw u) (hw' u)

theorem Padded.prepend (hw : White w) (h : Padded P raw b) : Padded P raw (w ++ b) := by
  obtain ⟨w₁, c, w₂, hw₁, hc, hw₂, rfl⟩ := h
  exact ⟨w ++ w₁, c, w₂, hw.append hw₁, hc, hw₂, by simp⟩

variable {m : Units × Value Units}

theorem MemberText.prepend (hw : White w) (h : MemberText P m b) : MemberText P m (w ++ b) := by
  obtain ⟨w₁, k, w₂, c, hw₁, hk, hw₂, hc, rfl⟩ := h
  exact ⟨w ++ w₁, k, w₂, c, hw.append hw₁, hk, hw₂, hc, by simp⟩

section

variable {α : Type} {R : α → Units → Prop}

theorem Separated.prepend (hR : ∀ {x b}, R x b → R x (w ++ b)) {xs : List α}
    (h : Separated R xs b) : Separated R xs (w ++ b) := by
  cases h with
  | last h => exact .last (hR h)
  | cons h hmore =>
    rw [← append_assoc]
    exact .cons (hR h) hmore

theorem Separated.length_le {xs : List α} (h : Separated R xs b) : xs.length ≤ b.length + 1 := by
  induction h with
  | last _ => simp
  | cons _ _ ih =>
    rw [length_cons, length_append, length_cons]
    omega

/-- Things start behind the white space in front of them. -/
theorem Separated.strip {close : ℕ}
    (hR : ∀ {x b}, R x b → ∃ w u c, White w ∧ b = w ++ u :: c ∧ R x (u :: c) ∧
      isWhite u = false ∧ u ≠ close) {xs : List α} (h : Separated R xs b) :
    ∃ w u c, White w ∧ b = w ++ u :: c ∧ Separated R xs (u :: c) ∧ isWhite u = false ∧
      u ≠ close := by
  cases h with
  | last h =>
    obtain ⟨w, u, c, hw, rfl, hc, hu, hclose⟩ := hR h
    exact ⟨w, u, c, hw, rfl, .last hc, hu, hclose⟩
  | cons h hmore =>
    obtain ⟨w, u, c, hw, rfl, hc, hu, hclose⟩ := hR h
    exact ⟨w, u, _, hw, by simp, .cons hc hmore, hu, hclose⟩

end

theorem MemberText.strip (h : MemberText P m b) :
    ∃ w u c, White w ∧ b = w ++ u :: c ∧ MemberText P m (u :: c) ∧ isWhite u = false ∧
      u ≠ 0x7d := by
  obtain ⟨w, k, w', c, hw, hk, hw', hc, rfl⟩ := h
  exact ⟨w, 0x22, _, hw, rfl, ⟨[], k, w', c, by simp [White], hk, hw', hc, rfl⟩, by decide,
    by decide⟩

theorem Padded.strip
    (hP : ∀ {v b}, P v b → ∃ u more, b = u :: more ∧ isWhite u = false ∧ u ≠ 0x5d)
    (h : Padded P raw b) :
    ∃ w u c, White w ∧ b = w ++ u :: c ∧ Padded P raw (u :: c) ∧ isWhite u = false ∧
      u ≠ 0x5d := by
  obtain ⟨w, c, w', hw, hc, hw', rfl⟩ := h
  obtain ⟨u, more, rfl, hu, hclose⟩ := hP hc
  exact ⟨w, u, _, hw, rfl, ⟨[], u :: more, w', by simp [White], hc, hw', rfl⟩, hu, hclose⟩

theorem NestedText.head (h : NestedText d raw b) :
    ∃ u more, b = u :: more ∧ isWhite u = false ∧ u ≠ 0x5d := by
  cases d with
  | zero =>
    obtain ⟨u, more, rfl, hu, hclose, -⟩ := ScalarText.head h
    exact ⟨u, more, rfl, hu, hclose⟩
  | succ d => exact ValueStep.head h

end Starts

/-! ### Nesting -/

theorem ScalarText.depth (h : ScalarText v t) : v.depth = 0 := by
  cases h <;> simp [Value.depth]

variable {items : List (Value Units)}

theorem Separated.depthItems_le (hP : ∀ v t, P v t → v.depth ≤ d)
    (h : Separated (Padded P) items t) : depthItems items ≤ d := by
  induction h with
  | last h =>
    obtain ⟨_, _, _, -, h, -, -⟩ := h
    simpa [depthItems] using hP _ _ h
  | cons h _ ih =>
    obtain ⟨_, _, _, -, h, -, -⟩ := h
    rw [depthItems]
    exact max_le (hP _ _ h) ih

variable {members : List (Units × Value Units)}

theorem Separated.depthMembers_le (hP : ∀ v t, P v t → v.depth ≤ d)
    (h : Separated (MemberText P) members t) : depthMembers members ≤ d := by
  induction h with
  | last h =>
    obtain ⟨_, _, _, _, -, -, -, ⟨_, _, _, -, h, -, -⟩, -⟩ := h
    simpa [depthMembers] using hP _ _ h
  | cons h _ ih =>
    obtain ⟨_, _, _, _, -, -, -, ⟨_, _, _, -, h, -, -⟩, -⟩ := h
    rw [depthMembers]
    exact max_le (hP _ _ h) ih

theorem NestedText.depth_le (h : NestedText d v t) : v.depth ≤ d := by
  induction d generalizing v t with
  | zero => exact (ScalarText.depth h).le
  | succ d ih =>
    cases h with
    | scalar h => exact (ScalarText.depth h).trans_le (Nat.zero_le _)
    | emptyArray _ => simp [Value.depth, depthItems]
    | array h =>
      rw [Value.depth]
      exact Nat.succ_le_succ (h.depthItems_le fun _ _ => ih)
    | emptyObject _ => simp [Value.depth, depthMembers]
    | object h =>
      rw [Value.depth]
      exact Nat.succ_le_succ (h.depthMembers_le fun _ _ => ih)

theorem Padded.mono (h : Padded P v t) (hPQ : ∀ t, P v t → Q v t) : Padded Q v t := by
  obtain ⟨w, b, w', hw, hb, hw', rfl⟩ := h
  exact ⟨w, b, w', hw, hPQ b hb, hw', rfl⟩

theorem Separated.mono_items (hPQ : ∀ v t, v.depth ≤ d → P v t → Q v t)
    (h : Separated (Padded P) items t) (hd : depthItems items ≤ d) :
    Separated (Padded Q) items t := by
  induction h with
  | last h =>
    rw [depthItems] at hd
    exact .last (h.mono fun t => hPQ _ t (le_of_max_le_left hd))
  | cons h _ ih =>
    rw [depthItems] at hd
    exact .cons (h.mono fun t => hPQ _ t (le_of_max_le_left hd)) (ih (le_of_max_le_right hd))

theorem Separated.mono_members (hPQ : ∀ v t, v.depth ≤ d → P v t → Q v t)
    (h : Separated (MemberText P) members t) (hd : depthMembers members ≤ d) :
    Separated (MemberText Q) members t := by
  induction h with
  | last h =>
    obtain ⟨w, k, w', b, hw, hk, hw', hb, rfl⟩ := h
    rw [depthMembers] at hd
    exact .last ⟨w, k, w', b, hw, hk, hw', hb.mono fun t => hPQ _ t (le_of_max_le_left hd), rfl⟩
  | cons h _ ih =>
    obtain ⟨w, k, w', b, hw, hk, hw', hb, rfl⟩ := h
    rw [depthMembers] at hd
    exact .cons ⟨w, k, w', b, hw, hk, hw', hb.mono fun t => hPQ _ t (le_of_max_le_left hd), rfl⟩
      (ih (le_of_max_le_right hd))

/-- As many steps as the value nests deep are enough. -/
theorem NestedText.of_depth_le {d' : ℕ} (h : NestedText d v t) (hd : v.depth ≤ d') :
    NestedText d' v t := by
  induction d generalizing v t d' with
  | zero =>
    cases d' with
    | zero => exact h
    | succ d' => exact .scalar h
  | succ d ih =>
    cases d' with
    | zero =>
      cases h with
      | scalar h => exact h
      | emptyArray _ | array _ | emptyObject _ | object _ => simp [Value.depth] at hd
    | succ d' =>
      have hstep : ∀ v t, v.depth ≤ d' → NestedText d v t → NestedText d' v t :=
        fun v t hd h => ih h hd
      cases h with
      | scalar h => exact .scalar h
      | emptyArray hw => exact .emptyArray hw
      | array h =>
        rw [Value.depth] at hd
        exact .array (h.mono_items hstep (Nat.le_of_succ_le_succ hd))
      | emptyObject hw => exact .emptyObject hw
      | object h =>
        rw [Value.depth] at hd
        exact .object (h.mono_members hstep (Nat.le_of_succ_le_succ hd))

/-- **The steps a text takes are the depth its value nests to.** -/
theorem nestedText_iff : NestedText d v t ↔ ValueText v t ∧ v.depth ≤ d := by
  constructor
  · exact fun h => ⟨⟨d, h⟩, h.depth_le⟩
  · rintro ⟨⟨d', h⟩, hd⟩
    exact h.of_depth_le hd

theorem Separated.depthItems_le_length (hP : ∀ v t, P v t → v.depth ≤ t.length)
    (h : Separated (Padded P) items t) : depthItems items ≤ t.length := by
  have hone : ∀ {v t}, Padded P v t → v.depth ≤ t.length := by
    rintro v t ⟨w, b, w', -, hb, -, rfl⟩
    have := hP _ _ hb
    rw [length_append, length_append]
    omega
  induction h with
  | last h => simpa [depthItems] using hone h
  | cons h _ ih =>
    have := hone h
    rw [depthItems, length_append, length_cons]
    omega

theorem Separated.depthMembers_le_length (hP : ∀ v t, P v t → v.depth ≤ t.length)
    (h : Separated (MemberText P) members t) : depthMembers members ≤ t.length := by
  have hone : ∀ {m t}, MemberText P m t → m.2.depth ≤ t.length := by
    rintro m t ⟨w, k, w', b, -, -, -, ⟨w₁, c, w₂, -, hc, -, rfl⟩, rfl⟩
    have := hP _ _ hc
    simp only [length_append, length_cons]
    omega
  induction h with
  | last h => simpa [depthMembers] using hone h
  | cons h _ ih =>
    have := hone h
    rw [depthMembers, length_append, length_cons]
    omega

theorem NestedText.depth_le_length (h : NestedText d v t) : v.depth ≤ t.length := by
  induction d generalizing v t with
  | zero => exact (ScalarText.depth h).trans_le (Nat.zero_le _)
  | succ d ih =>
    cases h with
    | scalar h => exact (ScalarText.depth h).trans_le (Nat.zero_le _)
    | emptyArray _ => simp [Value.depth, depthItems]
    | array h =>
      have := h.depthItems_le_length fun _ _ => ih
      rw [Value.depth, length_cons, length_append]
      omega
    | emptyObject _ => simp [Value.depth, depthMembers]
    | object h =>
      have := h.depthMembers_le_length fun _ _ => ih
      rw [Value.depth, length_cons, length_append]
      omega

end Grammar

end JsonGrammar
