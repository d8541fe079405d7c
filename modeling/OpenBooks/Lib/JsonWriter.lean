import OpenBooks.Lib.JsonGrammar

/-!
# Writing JSON

`JsonGrammar.writeValue` writes a value without white space, with the shortest escapes and with
surrogates that belong to no pair escaped. What is written is a text of the value
(`JsonGrammar.nestedText_writeValue`), whatever the numbers are, as long as they are written as
number tokens.
-/

namespace JsonGrammar

open List

/-! ### Strings -/

/-- A digit to the base sixteen. -/
def hexChar (d : ℕ) : ℕ := if d < 10 then 0x30 + d else 0x61 + (d - 10)

/-- The escape of any unit. -/
def unicodeEscape (u : ℕ) : Units :=
  [0x5c, 0x75, hexChar (u / 4096), hexChar (u / 256 % 16), hexChar (u / 16 % 16), hexChar (u % 16)]

/-- The unit behind the backslash, where a unit has a short escape that is used. -/
def escapeOf (u : ℕ) : Option ℕ :=
  if u = 0x22 then some 0x22
  else if u = 0x5c then some 0x5c
  else if u = 0x08 then some 0x62
  else if u = 0x0c then some 0x66
  else if u = 0x0a then some 0x6e
  else if u = 0x0d then some 0x72
  else if u = 0x09 then some 0x74
  else none

def isLead (u : ℕ) : Bool := 0xd800 ≤ u && u ≤ 0xdbff

def isTrail (u : ℕ) : Bool := 0xdc00 ≤ u && u ≤ 0xdfff

/-- A string between its quotes. -/
def writeChars : Units → Units
  | [] => []
  | u :: rest =>
    match escapeOf u with
    | some e => 0x5c :: e :: writeChars rest
    | none =>
      if u < 0x20 ∨ isTrail u = true then unicodeEscape u ++ writeChars rest
      else if isLead u = true then
        match rest with
        | [] => unicodeEscape u
        | v :: more =>
          if isTrail v = true then u :: v :: writeChars more
          else unicodeEscape u ++ writeChars (v :: more)
      else u :: writeChars rest

theorem hexDigit_hexChar : ∀ d < 16, hexDigit (hexChar d) = some d := by decide

variable {t : Units}

theorem charsText_unicodeEscape {u : ℕ} {s : Units} (hu : u < 0x10000) (h : CharsText s t) :
    CharsText (u :: s) (unicodeEscape u ++ t) := by
  have hvalue : ((u / 4096 * 16 + u / 256 % 16) * 16 + u / 16 % 16) * 16 + u % 16 = u := by omega
  have htext := CharsText.unicode (hexDigit_hexChar (u / 4096) (by omega))
    (hexDigit_hexChar (u / 256 % 16) (by omega)) (hexDigit_hexChar (u / 16 % 16) (by omega))
    (hexDigit_hexChar (u % 16) (by omega)) h
  rwa [hvalue] at htext

theorem shortEscape_escapeOf {u e : ℕ} (h : escapeOf u = some e) : shortEscape e = some u := by
  unfold escapeOf at h
  split_ifs at h
  all_goals
    subst u
    obtain rfl := Option.some.inj h
    decide

theorem charsText_writeChars (s : Units) : CharsText s (writeChars s) := by
  fun_induction writeChars s with
  | case1 => exact .nil
  | case2 u rest e he ih => exact .short (shortEscape_escapeOf he) ih
  | case3 u rest _ hu ih =>
    refine charsText_unicodeEscape ?_ ih
    simp only [isTrail, Bool.and_eq_true, decide_eq_true_eq] at hu
    omega
  | case4 u _ _ hu =>
    simp only [isLead, Bool.and_eq_true, decide_eq_true_eq] at hu
    have := charsText_unicodeEscape (u := u) (by omega) .nil
    rwa [append_nil] at this
  | case5 u _ _ hu v more hv ih =>
    simp only [isLead, isTrail, Bool.and_eq_true, decide_eq_true_eq] at hu hv
    exact .plain (by omega) (by omega) (by omega) (.plain (by omega) (by omega) (by omega) ih)
  | case6 u _ _ hu v more _ ih =>
    simp only [isLead, Bool.and_eq_true, decide_eq_true_eq] at hu
    exact charsText_unicodeEscape (by omega) ih
  | case7 u rest hnone hlow _ ih =>
    have hquote : u ≠ 0x22 := by
      rintro rfl
      cases hnone
    have hslash : u ≠ 0x5c := by
      rintro rfl
      cases hnone
    exact .plain (by omega) hquote hslash ih

/-! ### Values -/

/-- Texts with commas between them. -/
def commas (ts : List Units) : Units := [0x2c].intercalate ts

section Values

variable {N : Type} (render : N → Units)

mutual

/-- A value without white space. -/
def writeValue : Value N → Units
  | .null => nullText
  | .bool b => if b then trueText else falseText
  | .number n => render n
  | .string s => quoted (writeChars s)
  | .array items => 0x5b :: (commas (writeItems items) ++ [0x5d])
  | .object members => 0x7b :: (commas (writeMembers members) ++ [0x7d])

def writeItems : List (Value N) → List Units
  | [] => []
  | v :: items => writeValue v :: writeItems items

def writeMembers : List (Units × Value N) → List Units
  | [] => []
  | (k, v) :: members => (quoted (writeChars k) ++ 0x3a :: writeValue v) :: writeMembers members

end

theorem separated_commas {α : Type} {R : α → Units → Prop} {x : α} (h : R x t) {xs : List α}
    {ts : List Units} (hmore : xs = [] ∧ ts = [] ∨ ts ≠ [] ∧ Separated R xs (commas ts)) :
    Separated R (x :: xs) (commas (t :: ts)) := by
  obtain ⟨rfl, rfl⟩ | ⟨hne, hmore⟩ := hmore
  · rw [commas, intercalate_singleton]
    exact .last h
  · rw [commas, intercalate_cons_of_ne_nil hne, append_assoc]
    exact .cons h hmore

theorem padded_self {P : Value Units → Units → Prop} {v : Value Units} (h : P v t) : Padded P v t :=
  ⟨[], t, [], by simp [White], h, by simp [White], by simp⟩

mutual

/-- **What is written is a text of the value.** -/
theorem nestedText_writeValue (hrender : ∀ n, NumberToken (render n)) : ∀ v : Value N,
    NestedText v.depth (v.mapNumber fun n => .number (render n)) (writeValue render v)
  | .null => .nullLiteral
  | .bool true => .trueLiteral
  | .bool false => .falseLiteral
  | .number n => .number (hrender n)
  | .string s => .string (charsText_writeChars s)
  | .array items => by
    rw [Value.depth, Value.mapNumber, writeValue]
    obtain ⟨h, hnil⟩ | ⟨-, h⟩ := separated_writeItems hrender items _ le_rfl
    · rw [h, hnil]
      exact .emptyArray (by simp [White, commas])
    · exact .array h
  | .object members => by
    rw [Value.depth, Value.mapNumber, writeValue]
    obtain ⟨h, hnil⟩ | ⟨-, h⟩ := separated_writeMembers hrender members _ le_rfl
    · rw [h, hnil]
      exact .emptyObject (by simp [White, commas])
    · exact .object h

theorem separated_writeItems (hrender : ∀ n, NumberToken (render n)) :
    ∀ (items : List (Value N)) (d : ℕ), depthItems items ≤ d →
    mapNumberItems (fun n => .number (render n)) items = [] ∧ writeItems render items = [] ∨
      writeItems render items ≠ [] ∧
        Separated (Padded (NestedText d)) (mapNumberItems (fun n => .number (render n)) items)
          (commas (writeItems render items))
  | [], _, _ => .inl ⟨rfl, rfl⟩
  | v :: items, d, hd => by
    rw [depthItems] at hd
    have hv := nestedText_writeValue hrender v
    have hdepth : (v.mapNumber fun n => Value.number (render n)).depth ≤ d :=
      hv.depth_le.trans (le_of_max_le_left hd)
    have hmore := separated_writeItems hrender items d (le_of_max_le_right hd)
    rw [mapNumberItems, writeItems]
    exact .inr ⟨cons_ne_nil _ _, separated_commas (padded_self (hv.of_depth_le hdepth)) hmore⟩

theorem separated_writeMembers (hrender : ∀ n, NumberToken (render n)) :
    ∀ (members : List (Units × Value N)) (d : ℕ), depthMembers members ≤ d →
    mapNumberMembers (fun n => .number (render n)) members = [] ∧ writeMembers render members = [] ∨
      writeMembers render members ≠ [] ∧
        Separated (MemberText (NestedText d))
          (mapNumberMembers (fun n => .number (render n)) members)
          (commas (writeMembers render members))
  | [], _, _ => .inl ⟨rfl, rfl⟩
  | (k, v) :: members, d, hd => by
    rw [depthMembers] at hd
    have hv := nestedText_writeValue hrender v
    have hdepth : (v.mapNumber fun n => Value.number (render n)).depth ≤ d :=
      hv.depth_le.trans (le_of_max_le_left hd)
    have hmore := separated_writeMembers hrender members d (le_of_max_le_right hd)
    have hmember : MemberText (NestedText d) (k, v.mapNumber fun n => Value.number (render n))
        (quoted (writeChars k) ++ 0x3a :: writeValue render v) :=
      ⟨[], _, [], _, by simp [White], charsText_writeChars k, by simp [White],
        padded_self (hv.of_depth_le hdepth), rfl⟩
    rw [mapNumberMembers, writeMembers]
    exact .inr ⟨cons_ne_nil _ _, separated_commas hmember hmore⟩

end

end Values

end JsonGrammar
