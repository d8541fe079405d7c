import OpenBooks.Platform.ExactJson
import Mathlib.Data.List.TakeWhile

/-!
# What exact JSON is parsed from

The parser of exact JSON against the grammar of JSON texts, piece by piece: what a piece of the
parser accepts is a text of that piece of the grammar, and every such text is accepted – numbers
only where nothing follows that would belong to them (`ExactJson.Ends`).

A parser of values is `ExactJson.Sound` and `ExactJson.Complete` for a relation
between values and texts, and one step takes both from the values inside to the values around
them. From there it is induction on the nesting.
-/

namespace OpenBooks

open Checked JsonGrammar List

namespace ExactJson

/-! ### Scanning -/

variable {p : ℕ → Bool} {t rest w : Units} {u : ℕ}

/-- The first unit, if there is one, is none of these. -/
def NotAhead (p : ℕ → Bool) (rest : Units) : Prop := ∀ u ∈ rest.head?, p u = false

/-- A scan takes the run and nothing else. -/
theorem span_append {l : Units} (hl : ∀ u ∈ l, p u = true) (hrest : NotAhead p rest) :
    (l ++ rest).takeWhile p = l ∧ (l ++ rest).dropWhile p = rest := by
  rw [takeWhile_append_of_pos hl, dropWhile_append_of_pos hl]
  cases rest with
  | nil => simp
  | cons u rest =>
    have hu := hrest u rfl
    rw [takeWhile_cons_of_neg (by simp [hu]), dropWhile_cons_of_neg (by simp [hu]), append_nil]
    exact ⟨rfl, rfl⟩

theorem white_skipWhitespace (t : Units) : ∃ w, White w ∧ t = w ++ skipWhitespace t :=
  ⟨t.takeWhile isWhite, fun _ hu => mem_takeWhile_imp hu, takeWhile_append_dropWhile.symm⟩

theorem skipWhitespace_append (hw : White w) (hrest : NotAhead isWhite rest) :
    skipWhitespace (w ++ rest) = rest :=
  (span_append hw hrest).2

theorem expect_eq_ok {message : String} : expect u message t = .ok rest ↔ t = u :: rest := by
  rw [expect]
  cases t with
  | nil => simp [fail]
  | cons c t =>
    by_cases h : c = u
    · simp [h]
    · simp [h, fail]

/-! ### Strings -/

variable {s : Units}

theorem andThen_eq_ok {x : Except Failure (Units × Units)} :
    andThen u x = .ok (s, rest) ↔ ∃ s', x = .ok (s', rest) ∧ s = u :: s' := by
  cases x with
  | error e => simp [andThen, Except.map]
  | ok q =>
    obtain ⟨s', rest'⟩ := q
    simp only [andThen, Except.map, Except.ok.injEq, Prod.mk.injEq]
    constructor
    · rintro ⟨rfl, rfl⟩
      exact ⟨s', ⟨rfl, rfl⟩, rfl⟩
    · rintro ⟨_, ⟨rfl, rfl⟩, rfl⟩
      exact ⟨rfl, rfl⟩

theorem hexUnit_eq_some {a b c d : ℕ} :
    hexUnit a b c d = some u ↔ ∃ w x y z, JsonGrammar.hexDigit a = some w ∧
      JsonGrammar.hexDigit b = some x ∧ JsonGrammar.hexDigit c = some y ∧
      JsonGrammar.hexDigit d = some z ∧ ((w * 16 + x) * 16 + y) * 16 + z = u := by
  simp only [hexUnit, Option.bind_eq_bind, Option.bind_eq_some_iff, Option.pure_def,
    Option.some.injEq]
  constructor
  · rintro ⟨w, hw, x, hx, y, hy, z, hz, rfl⟩
    exact ⟨w, x, y, z, hw, hx, hy, hz, rfl⟩
  · rintro ⟨w, x, y, z, hw, hx, hy, hz, rfl⟩
    exact ⟨w, hw, x, hx, y, hy, z, hz, rfl⟩

theorem parseString_sound (h : parseString t = .ok (s, rest)) :
    ∃ b, CharsText s b ∧ t = b ++ 0x22 :: rest := by
  fun_induction parseString t generalizing s with
  | case2 t =>
    cases h
    exact ⟨[], .nil, rfl⟩
  | case4 e t c hescape _ ih =>
    obtain ⟨s', hs', rfl⟩ := andThen_eq_ok.mp h
    obtain ⟨b, hb, rfl⟩ := ih hs'
    exact ⟨0x5c :: e :: b, .short hescape hb, rfl⟩
  | case5 a b c d t unit hunit _ _ ih =>
    obtain ⟨s', hs', rfl⟩ := andThen_eq_ok.mp h
    obtain ⟨text, htext, rfl⟩ := ih hs'
    obtain ⟨w, x, y, z, hw, hx, hy, hz, rfl⟩ := hexUnit_eq_some.mp hunit
    exact ⟨_, .unicode hw hx hy hz htext, rfl⟩
  | case10 u t hquote hslash hlow ih =>
    obtain ⟨s', hs', rfl⟩ := andThen_eq_ok.mp h
    obtain ⟨b, hb, rfl⟩ := ih hs'
    exact ⟨u :: b, .plain (not_lt.mp hlow) hquote hslash hb, rfl⟩
  | _ => cases h

theorem parseString_complete {b : Units} (h : CharsText s b) (rest : Units) :
    parseString (b ++ 0x22 :: rest) = .ok (s, rest) := by
  induction h with
  | nil =>
    rw [nil_append, parseString.eq_def]
    exact if_pos rfl
  | @plain u s b hu hquote hslash _ ih =>
    rw [cons_append, parseString.eq_def]
    simp only [if_neg hquote, if_neg hslash, if_neg (not_lt.mpr hu), ih]
    rfl
  | @short e u s b he _ ih =>
    have hslash : ¬0x5c = 0x22 := by decide
    rw [cons_append, cons_append, parseString.eq_def]
    simp only [if_neg hslash, if_true, he, ih]
    rfl
  | @unicode a b c d w x y z s text ha hb hc hd _ ih =>
    have hunit := hexUnit_eq_some.mpr ⟨w, x, y, z, ha, hb, hc, hd, rfl⟩
    have hnone : shortEscape 0x75 = none := by decide
    simp only [cons_append]
    rw [parseString, if_neg (by decide), if_pos rfl]
    simp only [hnone, if_true, hunit, ih]
    rfl

/-! ### Numbers -/

theorem digits_takeWhile (h : t.takeWhile isDigit ≠ []) : Digits (t.takeWhile isDigit) :=
  ⟨h, fun _ hu => mem_takeWhile_imp hu⟩

theorem minusPart_sound (t : Units) :
    ((minusPart t).1 = [] ∨ (minusPart t).1 = [0x2d]) ∧ t = (minusPart t).1 ++ (minusPart t).2 := by
  rw [minusPart]
  split_ifs with h
  · exact ⟨.inr rfl, (cons_head?_tail h).symm⟩
  · exact ⟨.inl rfl, rfl⟩

theorem integerPart_sound {i : Units} (h : integerPart t = .ok (i, rest)) :
    IntegerPart i ∧ t = i ++ rest := by
  rw [integerPart] at h
  split_ifs at h with hzero hnone
  · cases h
    exact ⟨.zero, (cons_head?_tail hzero).symm⟩
  · cases h
  · cases h
    refine ⟨?_, takeWhile_append_dropWhile.symm⟩
    obtain ⟨-, hall⟩ := digits_takeWhile hnone
    cases t with
    | nil => exact absurd rfl hnone
    | cons u t =>
      by_cases hu : isDigit u = true
      · rw [takeWhile_cons_of_pos hu] at hall ⊢
        exact .digits hu (fun h => hzero (congrArg some h))
          fun d hd => hall d (mem_cons_of_mem _ hd)
      · rw [takeWhile_cons_of_neg hu] at hnone
        exact absurd rfl hnone

variable {f : Units}

theorem fractionPart_sound (h : fractionPart t = .ok (f, rest)) :
    FractionPart f ∧ t = f ++ rest := by
  rw [fractionPart] at h
  split_ifs at h with hpoint hnone
  · cases h
  · cases h
    rw [cons_append, takeWhile_append_dropWhile]
    exact ⟨.digits (digits_takeWhile hnone), (cons_head?_tail hpoint).symm⟩
  · cases h
    exact ⟨.none, rfl⟩

theorem signPart_sound (t : Units) :
    ((signPart t).1 = [] ∨ (signPart t).1 = [0x2b] ∨ (signPart t).1 = [0x2d]) ∧
      t = (signPart t).1 ++ (signPart t).2 := by
  rw [signPart]
  split_ifs with hplus hminus
  · exact ⟨.inr (.inl rfl), (cons_head?_tail hplus).symm⟩
  · exact ⟨.inr (.inr rfl), (cons_head?_tail hminus).symm⟩
  · exact ⟨.inl rfl, rfl⟩

variable {x : Units}

theorem exponentPart_sound (h : exponentPart t = .ok (x, rest)) :
    ExponentPart x ∧ t = x ++ rest := by
  cases t with
  | nil =>
    cases h
    exact ⟨.none, rfl⟩
  | cons e more =>
    obtain ⟨hsign, hmore⟩ := signPart_sound more
    rw [exponentPart] at h
    dsimp only at h
    split_ifs at h with he hnone
    · cases h
    · cases h
      refine ⟨.digits he hsign (digits_takeWhile hnone), ?_⟩
      rw [cons_append, append_assoc, takeWhile_append_dropWhile, ← hmore]
    · cases h
      exact ⟨.none, rfl⟩

theorem parseNumberToken_sound {token : Units} (h : parseNumberToken t = .ok (token, rest)) :
    NumberToken token ∧ t = token ++ rest := by
  obtain ⟨hminus, ht⟩ := minusPart_sound t
  simp only [parseNumberToken, bind_eq_ok, pure_eq_ok] at h
  obtain ⟨⟨i, t₁⟩, hi, ⟨f, t₂⟩, hf, ⟨x, t₃⟩, hx, h⟩ := h
  obtain ⟨rfl, rfl⟩ := Prod.mk.inj h
  obtain ⟨hinteger, h₁⟩ := integerPart_sound hi
  obtain ⟨hfraction, h₂⟩ := fractionPart_sound hf
  obtain ⟨hexponent, h₃⟩ := exponentPart_sound hx
  dsimp only at h₂ h₃
  refine ⟨.parts hminus hinteger hfraction hexponent, ?_⟩
  rw [append_assoc, append_assoc, append_assoc, ← h₃, ← h₂, ← h₁]
  exact ht

def isNumberUnit (u : ℕ) : Bool := isDigit u || u = 0x2e || u = 0x65 || u = 0x45

/-- Nothing follows that would go on with a number. -/
def Ends (rest : Units) : Prop := NotAhead isNumberUnit rest

theorem ends_of_white (hw : White w) (h : Ends rest) : Ends (w ++ rest) := by
  cases w with
  | nil => exact h
  | cons u w =>
    rintro _ ⟨⟩
    have hu := hw u mem_cons_self
    simp only [isWhite, Bool.or_eq_true, decide_eq_true_eq] at hu
    obtain ((rfl | rfl) | rfl) | rfl := hu <;> decide

theorem Ends.notAhead_isDigit (h : Ends rest) : NotAhead isDigit rest := fun u hu => by
  have := h u hu
  simp only [isNumberUnit, Bool.or_eq_false_iff] at this
  exact this.1.1.1

theorem minusPart_complete {minus : Units} (hminus : minus = [] ∨ minus = [0x2d])
    (h : ∀ u ∈ t.head?, u ≠ 0x2d) : minusPart (minus ++ t) = (minus, t) := by
  obtain rfl | rfl := hminus
  · have hnot : t.head? ≠ some 0x2d := fun hu => h _ hu rfl
    rw [nil_append, minusPart, if_neg hnot]
  · rfl

theorem integerPart_complete {i : Units} (hi : IntegerPart i) (hrest : NotAhead isDigit rest) :
    integerPart (i ++ rest) = .ok (i, rest) := by
  cases hi with
  | zero => rfl
  | @digits u ds hu hne hds =>
    have hall : ∀ d ∈ u :: ds, isDigit d = true := forall_mem_cons.mpr ⟨hu, hds⟩
    obtain ⟨htake, hdrop⟩ := span_append hall hrest
    have hzero : ¬(u :: ds ++ rest).head? = some 0x30 := fun h => hne (Option.some.inj h)
    rw [integerPart, if_neg hzero, htake, hdrop, if_neg (cons_ne_nil _ _)]

theorem fractionPart_complete (hf : FractionPart f) (hrest : NotAhead isDigit rest)
    (hpoint : rest.head? ≠ some 0x2e) : fractionPart (f ++ rest) = .ok (f, rest) := by
  cases hf with
  | none => rw [nil_append, fractionPart, if_neg hpoint]
  | @digits ds hds =>
    obtain ⟨htake, hdrop⟩ := span_append hds.2 hrest
    rw [cons_append, fractionPart, if_pos (by rfl), tail_cons, htake, hdrop, if_neg hds.1]

theorem signPart_complete {sign : Units} (hsign : sign = [] ∨ sign = [0x2b] ∨ sign = [0x2d])
    (h : ∀ u ∈ t.head?, isDigit u = true) : signPart (sign ++ t) = (sign, t) := by
  obtain rfl | rfl | rfl := hsign
  · have hnot : ∀ u, isDigit u = false → t.head? ≠ some u := fun u hu hhead => by
      have := h u hhead
      rw [hu] at this
      cases this
    rw [nil_append, signPart, if_neg (hnot _ rfl), if_neg (hnot _ rfl)]
  · rfl
  · rfl

theorem exponentPart_complete (hx : ExponentPart x) (hrest : Ends rest) :
    exponentPart (x ++ rest) = .ok (x, rest) := by
  cases hx with
  | none =>
    cases rest with
    | nil => rfl
    | cons e rest =>
      have he : ¬(e = 0x65 ∨ e = 0x45) := by
        rintro (rfl | rfl)
        · exact absurd (hrest _ rfl) (by decide)
        · exact absurd (hrest _ rfl) (by decide)
      rw [nil_append, exponentPart, if_neg he]
  | @digits e sign ds he hsign hds =>
    obtain ⟨htake, hdrop⟩ := span_append hds.2 hrest.notAhead_isDigit
    have hhead : ∀ u ∈ (ds ++ rest).head?, isDigit u = true := by
      obtain ⟨d, ds, rfl⟩ := exists_cons_of_ne_nil hds.1
      rintro _ ⟨⟩
      exact hds.2 d mem_cons_self
    rw [cons_append, append_assoc, exponentPart, if_pos he, signPart_complete hsign hhead]
    dsimp only
    rw [htake, hdrop, if_neg hds.1]

theorem ExponentPart.notAhead (hx : ExponentPart x) (hrest : Ends rest) :
    NotAhead isDigit (x ++ rest) ∧ (x ++ rest).head? ≠ some 0x2e := by
  cases hx with
  | none =>
    refine ⟨hrest.notAhead_isDigit, fun h => ?_⟩
    exact absurd (hrest _ h) (by decide)
  | digits he _ _ =>
    obtain rfl | rfl := he
    all_goals
      refine ⟨?_, by simp⟩
      rintro _ ⟨⟩
      decide

theorem FractionPart.notAhead (hf : FractionPart f) (hrest : NotAhead isDigit rest) :
    NotAhead isDigit (f ++ rest) := by
  cases hf with
  | none => exact hrest
  | digits _ =>
    rintro _ ⟨⟩
    decide

theorem parseNumberToken_complete {token : Units} (h : NumberToken token) (hrest : Ends rest) :
    parseNumberToken (token ++ rest) = .ok (token, rest) := by
  obtain @⟨minus, i, f, x, hminus, hi, hf, hx⟩ := h
  obtain ⟨hdigit, hpoint⟩ := ExponentPart.notAhead hx hrest
  have hhead : ∀ t : Units, ∀ u ∈ (i ++ t).head?, u ≠ 0x2d := by
    intro t
    obtain ⟨u, more, rfl, hu⟩ := hi.head
    rintro _ ⟨⟩ rfl
    cases hu
  simp only [append_assoc]
  rw [parseNumberToken, minusPart_complete hminus (hhead _)]
  dsimp only
  rw [integerPart_complete hi (FractionPart.notAhead hf hdigit), ok_bind,
    fractionPart_complete hf hdigit hpoint, ok_bind, exponentPart_complete hx hrest, ok_bind]
  rfl

/-! ### Values that hold no others -/

section Values

variable {N : Type} {ofToken : Units → JsonGrammar.Value N} {v : JsonGrammar.Value N}
  {raw : JsonGrammar.Value Units} {b : Units}

theorem map_pair_eq_ok {α β : Type} {x : Except Failure (α × Units)} {g : α → β} {y : β} :
    (x.map fun q => (g q.1, q.2)) = .ok (y, rest) ↔ ∃ a, x = .ok (a, rest) ∧ g a = y := by
  cases x with
  | error e => simp [Except.map]
  | ok q =>
    obtain ⟨a, t⟩ := q
    simp only [Except.map, Except.ok.injEq, Prod.mk.injEq]
    constructor
    · rintro ⟨h, rfl⟩
      exact ⟨a, ⟨rfl, rfl⟩, h⟩
    · rintro ⟨_, ⟨rfl, rfl⟩, h⟩
      exact ⟨h, rfl⟩

theorem parseLiteral_eq_ok {word : Units} {value : JsonGrammar.Value N} :
    parseLiteral word value t = .ok (v, rest) ↔ t = word ++ rest ∧ v = value := by
  rw [parseLiteral]
  split_ifs with h
  · obtain ⟨more, rfl⟩ := isPrefixOf_iff_prefix.mp h
    rw [drop_left]
    simp only [Except.ok.injEq, Prod.mk.injEq, append_cancel_left_eq]
    exact ⟨fun h => ⟨h.2, h.1.symm⟩, fun h => ⟨h.2.symm, h.1⟩⟩
  · constructor
    · intro hfail
      cases hfail
    · rintro ⟨rfl, -⟩
      exact absurd (List.isPrefixOf_iff_prefix.mpr (prefix_append _ _)) h

theorem parseScalar_sound (h : parseScalar ofToken t = .ok (v, rest)) :
    ∃ raw b, ScalarText raw b ∧ t = b ++ rest ∧ v = raw.denote ofToken := by
  cases t with
  | nil => cases h
  | cons u t =>
    rw [parseScalar] at h
    split_ifs at h with hquote htrue hfalse hnull hnumber
    · obtain ⟨s, hs, rfl⟩ := map_pair_eq_ok.mp h
      obtain ⟨b, hb, rfl⟩ := parseString_sound hs
      exact ⟨_, _, .string hb, by simp [JsonGrammar.quoted, hquote], rfl⟩
    · obtain ⟨ht, rfl⟩ := parseLiteral_eq_ok.mp h
      exact ⟨_, _, .trueLiteral, ht, rfl⟩
    · obtain ⟨ht, rfl⟩ := parseLiteral_eq_ok.mp h
      exact ⟨_, _, .falseLiteral, ht, rfl⟩
    · obtain ⟨ht, rfl⟩ := parseLiteral_eq_ok.mp h
      exact ⟨_, _, .nullLiteral, ht, rfl⟩
    · obtain ⟨token, htoken, rfl⟩ := map_pair_eq_ok.mp h
      obtain ⟨hgrammar, ht⟩ := parseNumberToken_sound htoken
      exact ⟨_, _, .number hgrammar, ht, rfl⟩

theorem parseScalar_complete (h : ScalarText raw b) (hrest : Ends rest) :
    parseScalar ofToken (b ++ rest) = .ok (raw.denote ofToken, rest) := by
  cases h with
  | nullLiteral =>
    change parseLiteral nullText _ (nullText ++ rest) = _
    exact parseLiteral_eq_ok.mpr ⟨rfl, rfl⟩
  | trueLiteral =>
    change parseLiteral trueText _ (trueText ++ rest) = _
    exact parseLiteral_eq_ok.mpr ⟨rfl, rfl⟩
  | falseLiteral =>
    change parseLiteral falseText _ (falseText ++ rest) = _
    exact parseLiteral_eq_ok.mpr ⟨rfl, rfl⟩
  | string hs =>
    rw [JsonGrammar.quoted, cons_append, append_assoc, singleton_append,
      parseScalar, if_pos rfl, parseString_complete hs]
    rfl
  | number hb =>
    have hparsed := parseNumberToken_complete hb hrest
    obtain ⟨u, more, rfl, hu⟩ := hb.head
    have hnot : ∀ c, isDigit c = false → c ≠ 0x2d → u ≠ c := by
      rintro c hc hminus rfl
      rcases hu with hu | hu
      · exact hminus hu
      · rw [hc] at hu
        cases hu
    rw [cons_append] at hparsed ⊢
    rw [parseScalar, if_neg (hnot _ rfl (by decide)), if_neg (hnot _ rfl (by decide)),
      if_neg (hnot _ rfl (by decide)), if_neg (hnot _ rfl (by decide)), if_pos hu, hparsed]
    rfl

/-! ### One step -/

/-- What a parser accepts is a text of the value, behind white space. -/
def Sound (ofToken : Units → JsonGrammar.Value N) (P : JsonGrammar.Value Units → Units → Prop)
    (value : Parser N) : Prop :=
  ∀ {t v rest}, value t = .ok (v, rest) →
    ∃ w raw b, White w ∧ P raw b ∧ t = w ++ (b ++ rest) ∧ v = raw.denote ofToken

/-- Every text of a value is accepted, behind white space and where nothing goes on with it. -/
def Complete (ofToken : Units → JsonGrammar.Value N) (P : JsonGrammar.Value Units → Units → Prop)
    (value : Parser N) :
    Prop :=
  ∀ {w raw b rest}, White w → P raw b → Ends rest →
    value (w ++ (b ++ rest)) = .ok (raw.denote ofToken, rest)

/-- The texts of a relation start as values do. -/
def Starts (P : JsonGrammar.Value Units → Units → Prop) : Prop :=
  ∀ {raw b}, P raw b → ∃ u more, b = u :: more ∧ isWhite u = false ∧ u ≠ 0x5d

theorem notAhead_of_cons (hu : p u = false) : NotAhead p (u :: t) := by
  rintro _ ⟨⟩
  exact hu

variable {P : JsonGrammar.Value Units → Units → Prop} {value : Parser N} {rejects : Bool}
  {obj obj' : List (Units × JsonGrammar.Value N)} {m : Units × JsonGrammar.Value N} {fuel : ℕ}

/-- What an object by itself has to be for a parser that rejects duplicate keys. -/
def KeysOnce (rejects : Bool) : JsonGrammar.Value Units → Prop
  | .object ms => rejects = true → (ms.map Prod.fst).Nodup
  | _ => True

/-- The texts of one step. -/
def StepText (rejects : Bool) (P : JsonGrammar.Value Units → Units → Prop)
    (raw : JsonGrammar.Value Units) (b : Units) : Prop :=
  ValueStep P raw b ∧ KeysOnce rejects raw

theorem StepText.scalar {raw : JsonGrammar.Value Units} {b : Units} (h : ScalarText raw b) :
    StepText rejects P raw b :=
  ⟨.scalar h, by cases h <;> trivial⟩

/-- The texts of a value that nests so deep and, to a parser that rejects duplicate keys, has
none. -/
def StrictText (rejects : Bool) (room : ℕ) (raw : JsonGrammar.Value Units) (b : Units) : Prop :=
  NestedText room raw b ∧ (rejects = true → raw.Plain)

theorem stepText_strictText {room : ℕ} {raw : JsonGrammar.Value Units} {b : Units} :
    StepText rejects (StrictText rejects room) raw b ↔ StrictText rejects (room + 1) raw b := by
  have hstep : ValueStep (StrictText rejects room) raw b ↔ ValueStep (NestedText room) raw b ∧
      raw.Inside fun v => rejects = true → v.Plain := valueStep_and_iff
  rw [StepText, hstep, StrictText, NestedText, and_assoc]
  refine and_congr_right fun _ => ?_
  cases raw with
  | null | bool | number | string => exact ⟨fun _ _ => trivial, fun _ => ⟨trivial, trivial⟩⟩
  | array items =>
    simp only [Value.Inside, KeysOnce, Value.Plain, plainItems_iff, and_true]
    exact ⟨fun h hr v hv => h v hv hr, fun h v hv hr => h hr v hv⟩
  | object ms =>
    simp only [Value.Inside, KeysOnce, Value.Plain, plainMembers_iff]
    exact ⟨fun h hr => ⟨h.2 hr, fun m hm => h.1 m hm hr⟩,
      fun h => ⟨fun m hm hr => (h hr).2 m hm, fun hr => (h hr).1⟩⟩

section

variable (hvalue : Sound ofToken P value)

include hvalue

theorem parseMember_sound (h : parseMember value rejects obj t = .ok (m, rest)) :
    ∃ raw c, (∀ w, White w → MemberText P raw (c ++ w)) ∧ t = c ++ rest ∧
      m = (raw.1, raw.2.denote ofToken) ∧ (rejects = true → raw.1 ∉ obj.map Prod.fst) := by
  simp only [parseMember, bind_eq_ok, pure_eq_ok, refuseIf_eq_ok, not_and] at h
  obtain ⟨t₁, hquote, ⟨k, t₂⟩, hkey, _, hnew, t₃, hcolon, ⟨v, t₄⟩, hv, h⟩ := h
  obtain ⟨rfl, rfl⟩ := Prod.mk.inj h
  obtain ⟨w, hw, ht⟩ := white_skipWhitespace t
  obtain ⟨kt, hk, rfl⟩ := parseString_sound hkey
  obtain ⟨w', hw', ht₂⟩ := white_skipWhitespace t₂
  obtain ⟨w₂, raw, b, hw₂, hb, rfl, rfl⟩ := hvalue hv
  rw [expect_eq_ok.mp hquote] at ht
  rw [expect_eq_ok.mp hcolon] at ht₂
  refine ⟨(k, raw), w ++ (JsonGrammar.quoted kt ++ (w' ++ 0x3a :: (w₂ ++ b))),
    fun w₃ hw₃ => ?_, ?_, rfl, hnew⟩
  · exact ⟨w, kt, w', w₂ ++ (b ++ w₃), hw, hk, hw', ⟨w₂, b, w₃, hw₂, hb, hw₃, rfl⟩, by simp⟩
  · rw [ht, ht₂]
    simp [JsonGrammar.quoted]

theorem parseMembers_sound (h : parseMembers value rejects fuel obj t = .ok (obj', rest)) :
    ∃ ms b, Separated (MemberText P) ms b ∧ t = b ++ 0x7d :: rest ∧
      obj' = (denoteMembers ofToken ms).foldl (fun acc m => setMember acc m.1 m.2) obj ∧
      (rejects = true → (obj.map Prod.fst).Nodup →
        (obj.map Prod.fst ++ ms.map Prod.fst).Nodup) := by
  induction fuel generalizing obj t with
  | zero => cases h
  | succ fuel ih =>
    obtain ⟨⟨m, t₁⟩, hm, h⟩ := bind_eq_ok.mp h
    obtain ⟨raw, c, hmember, rfl, rfl, hnew⟩ := parseMember_sound hvalue hm
    obtain ⟨w, hw, ht₁⟩ := white_skipWhitespace t₁
    dsimp only at h
    split_ifs at h with hcomma
    · obtain ⟨ms, b, hms, htail, rfl, hkeys⟩ := ih h
      have hcut : skipWhitespace t₁ = 0x2c :: (b ++ 0x7d :: rest) := by
        rw [← htail]
        exact (cons_head?_tail hcomma).symm
      refine ⟨raw :: ms, _, .cons (hmember w hw) hms, ?_, ?_, fun hrejects hobj => ?_⟩
      · rw [ht₁, hcut]
        simp
      · rw [denoteMembers]
        rfl
      · have hset := hkeys hrejects
        rw [setMember, if_neg (hnew hrejects), map_append] at hset
        simpa using hset (hobj.append (nodup_singleton _) (by simpa using hnew hrejects))
    · obtain ⟨_, hexpect, heq⟩ := map_eq_ok.mp h
      cases heq
      refine ⟨[raw], _, .last (hmember w hw), ?_, ?_, fun hrejects hobj => ?_⟩
      · rw [ht₁, expect_eq_ok.mp hexpect]
        simp
      · rw [denoteMembers, denoteMembers]
        rfl
      · exact hobj.append (nodup_singleton _) (by simpa using hnew hrejects)

theorem parseItems_sound {items : List (JsonGrammar.Value N)}
    (h : parseItems value fuel t = .ok (items, rest)) :
    ∃ raws b, Separated (Padded P) raws b ∧ t = b ++ 0x5d :: rest ∧
      items = denoteItems ofToken raws := by
  induction fuel generalizing items t with
  | zero => cases h
  | succ fuel ih =>
    obtain ⟨⟨v, t₁⟩, hv, h⟩ := bind_eq_ok.mp h
    obtain ⟨w, raw, b, hw, hb, rfl, rfl⟩ := hvalue hv
    obtain ⟨w', hw', ht₁⟩ := white_skipWhitespace t₁
    have hpadded : Padded P raw (w ++ (b ++ w')) := ⟨w, b, w', hw, hb, hw', rfl⟩
    dsimp only at h
    split_ifs at h with hcomma
    · obtain ⟨more, hmore, rfl⟩ := map_pair_eq_ok.mp h
      obtain ⟨raws, c, hraws, htail, rfl⟩ := ih hmore
      have hcut : skipWhitespace t₁ = 0x2c :: (c ++ 0x5d :: rest) := by
        rw [← htail]
        exact (cons_head?_tail hcomma).symm
      refine ⟨raw :: raws, _, .cons hpadded hraws, ?_, ?_⟩
      · rw [ht₁, hcut]
        simp
      · rw [denoteItems]
    · obtain ⟨_, hexpect, heq⟩ := map_eq_ok.mp h
      cases heq
      refine ⟨[raw], _, .last hpadded, ?_, ?_⟩
      · rw [ht₁, expect_eq_ok.mp hexpect]
        simp
      · rw [denoteItems, denoteItems]

theorem parseObject_sound (h : parseObject value rejects t = .ok (v, rest)) :
    ∃ raw b, StepText rejects P raw (0x7b :: b) ∧ t = b ++ rest ∧ v = raw.denote ofToken := by
  obtain ⟨w, hw, ht⟩ := white_skipWhitespace t
  rw [parseObject] at h
  split_ifs at h with hclose
  · cases h
    refine ⟨.object [], _, ⟨.emptyObject hw, fun _ => nodup_nil⟩, ?_, rfl⟩
    rw [append_assoc, singleton_append, cons_head?_tail hclose]
    exact ht
  · obtain ⟨obj, hobj, rfl⟩ := map_pair_eq_ok.mp h
    obtain ⟨ms, b, hms, hcut, rfl, hkeys⟩ := parseMembers_sound hvalue hobj
    refine ⟨.object ms, _, ⟨.object (hms.prepend fun h => MemberText.prepend hw h),
      fun hrejects => hkeys hrejects nodup_nil⟩, ?_, ?_⟩
    · rw [ht, hcut]
      simp
    · rw [JsonGrammar.Value.denote]
      rfl

theorem parseArray_sound (h : parseArray value t = .ok (v, rest)) :
    ∃ raw b, StepText rejects P raw (0x5b :: b) ∧ t = b ++ rest ∧ v = raw.denote ofToken := by
  obtain ⟨w, hw, ht⟩ := white_skipWhitespace t
  rw [parseArray] at h
  split_ifs at h with hclose
  · cases h
    refine ⟨.array [], _, ⟨.emptyArray hw, trivial⟩, ?_, rfl⟩
    rw [append_assoc, singleton_append, cons_head?_tail hclose]
    exact ht
  · obtain ⟨items, hitems, rfl⟩ := map_pair_eq_ok.mp h
    obtain ⟨raws, b, hraws, hcut, rfl⟩ := parseItems_sound hvalue hitems
    refine ⟨.array raws, _, ⟨.array (hraws.prepend fun h => Padded.prepend hw h), trivial⟩, ?_, ?_⟩
    · rw [ht, hcut]
      simp
    · rw [JsonGrammar.Value.denote]

end

theorem parseStep_none_sound : Sound ofToken ScalarText (parseStep ofToken rejects none) := by
  intro t v rest h
  obtain ⟨w, hw, ht⟩ := white_skipWhitespace t
  rw [parseStep] at h
  split_ifs at h
  · cases h
  · cases h
  · obtain ⟨raw, b, hb, hcut, rfl⟩ := parseScalar_sound h
    exact ⟨w, raw, b, hw, hb, by rw [ht, hcut], rfl⟩

theorem parseStep_sound (hvalue : Sound ofToken P value) :
    Sound ofToken (StepText rejects P) (parseStep ofToken rejects (some value)) := by
  intro t v rest h
  obtain ⟨w, hw, ht⟩ := white_skipWhitespace t
  rw [parseStep] at h
  split_ifs at h with hobject harray
  · obtain ⟨raw, b, hb, hcut, rfl⟩ := parseObject_sound hvalue h
    refine ⟨w, raw, _, hw, hb, ?_, rfl⟩
    rw [cons_append, ← hcut, cons_head?_tail hobject]
    exact ht
  · obtain ⟨raw, b, hb, hcut, rfl⟩ := parseArray_sound hvalue h
    refine ⟨w, raw, _, hw, hb, ?_, rfl⟩
    rw [cons_append, ← hcut, cons_head?_tail harray]
    exact ht
  · obtain ⟨raw, b, hb, hcut, rfl⟩ := parseScalar_sound h
    exact ⟨w, raw, b, hw, .scalar hb, by rw [ht, hcut], rfl⟩

/-- **What is parsed is a text of the value**, nested no deeper than there is room for. -/
theorem parseValue_sound (room : ℕ) :
    Sound ofToken (StrictText rejects room) (parseValue ofToken rejects room) := by
  induction room with
  | zero =>
    intro t v rest h
    obtain ⟨w, raw, b, hw, hb, hcut⟩ := parseStep_none_sound h
    exact ⟨w, raw, b, hw, ⟨hb, fun _ => by cases hb <;> trivial⟩, hcut⟩
  | succ room ih =>
    intro t v rest h
    obtain ⟨w, raw, b, hw, hb, hcut⟩ := parseStep_sound ih h
    exact ⟨w, raw, b, hw, stepText_strictText.mp hb, hcut⟩

/-! ### Completeness of a step -/

theorem closing (hwhite : isWhite u = false) (hnumber : isNumberUnit u = false) :
    NotAhead isWhite (u :: t) ∧ Ends (u :: t) :=
  ⟨notAhead_of_cons hwhite, notAhead_of_cons hnumber⟩

theorem opened {α : Type} {R : α → Units → Prop} {xs : List α} {close : ℕ}
    (h : ∃ w u c, White w ∧ b = w ++ u :: c ∧ Separated R xs (u :: c) ∧ isWhite u = false ∧
      u ≠ close) (rest : Units) :
    ∃ c, Separated R xs c ∧ skipWhitespace (b ++ close :: rest) = c ++ close :: rest ∧
      (c ++ close :: rest).head? ≠ some close ∧
      xs.length ≤ (c ++ close :: rest).length + 1 := by
  obtain ⟨w, u, c, hw, rfl, hc, hu, hclose⟩ := h
  refine ⟨_, hc, ?_, fun h => hclose (Option.some.inj h), ?_⟩
  · rw [append_assoc]
    exact skipWhitespace_append hw (notAhead_of_cons hu)
  · have := hc.length_le
    rw [length_append]
    omega

variable {ms : List (Units × JsonGrammar.Value Units)}

section

variable (hvalue : Complete ofToken P value)

include hvalue

theorem parsePadded_complete (h : Padded P raw b) (hends : Ends rest)
    (hwhite : NotAhead isWhite rest) :
    ∃ t, value (b ++ rest) = .ok (raw.denote ofToken, t) ∧ skipWhitespace t = rest := by
  obtain ⟨w, c, w', hw, hc, hw', rfl⟩ := h
  refine ⟨w' ++ rest, ?_, skipWhitespace_append hw' hwhite⟩
  have := hvalue hw hc (ends_of_white hw' hends)
  rwa [append_assoc, append_assoc]

theorem parseMember_complete {m : Units × JsonGrammar.Value Units} (h : MemberText P m b)
    (hends : Ends rest) (hwhite : NotAhead isWhite rest)
    (hnew : rejects = true → m.1 ∉ obj.map Prod.fst) :
    ∃ t, parseMember value rejects obj (b ++ rest) = .ok ((m.1, m.2.denote ofToken), t) ∧
      skipWhitespace t = rest := by
  obtain ⟨w, k, w', c, hw, hk, hw', hc, rfl⟩ := h
  obtain ⟨t, ht, hskip⟩ := parsePadded_complete hvalue hc hends hwhite
  have hquote : skipWhitespace (w ++ (JsonGrammar.quoted k ++ (w' ++ 0x3a :: c)) ++ rest) =
      0x22 :: (k ++ 0x22 :: (w' ++ 0x3a :: (c ++ rest))) := by
    have := skipWhitespace_append hw
      (notAhead_of_cons (t := k ++ 0x22 :: (w' ++ 0x3a :: (c ++ rest))) (u := 0x22) rfl)
    simpa [JsonGrammar.quoted] using this
  have hcolon : skipWhitespace (w' ++ 0x3a :: (c ++ rest)) = 0x3a :: (c ++ rest) :=
    skipWhitespace_append hw' (notAhead_of_cons rfl)
  refine ⟨t, ?_, hskip⟩
  rw [parseMember, hquote, expect_eq_ok.mpr rfl, ok_bind, parseString_complete hk, ok_bind]
  dsimp only
  rw [hcolon, expect_eq_ok.mpr rfl]
  simp only [refuseIf, not_and.mpr hnew, if_false, ok_bind, ht]
  rfl

theorem parseMembers_complete (h : Separated (MemberText P) ms b) (hfuel : ms.length ≤ fuel)
    (hkeys : rejects = true → (obj.map Prod.fst ++ ms.map Prod.fst).Nodup) (rest : Units) :
    parseMembers value rejects fuel obj (b ++ 0x7d :: rest) =
      .ok ((denoteMembers ofToken ms).foldl (fun acc m => setMember acc m.1 m.2) obj, rest) := by
  induction h generalizing obj fuel with
  | @last m b h =>
    obtain ⟨fuel, rfl⟩ := Nat.exists_eq_succ_of_ne_zero (Nat.pos_iff_ne_zero.mp hfuel)
    obtain ⟨hwhite, hends⟩ := closing (t := rest) (u := 0x7d) rfl rfl
    obtain ⟨t, ht, hskip⟩ := parseMember_complete hvalue h hends hwhite
      fun hrejects hmem => (disjoint_of_nodup_append (hkeys hrejects)) hmem mem_cons_self
    rw [parseMembers, ht, ok_bind]
    dsimp only
    rw [hskip, if_neg (by simp), expect_eq_ok.mpr rfl, denoteMembers, denoteMembers]
    rfl
  | @cons m b ms more h hmore ih =>
    rw [length_cons] at hfuel
    obtain ⟨fuel, rfl⟩ := Nat.exists_eq_succ_of_ne_zero (n := fuel) (by omega)
    obtain ⟨hwhite, hends⟩ := closing (t := more ++ 0x7d :: rest) (u := 0x2c) rfl rfl
    have hnew : rejects = true → m.1 ∉ obj.map Prod.fst := fun hrejects hmem =>
      (disjoint_of_nodup_append (hkeys hrejects)) hmem mem_cons_self
    obtain ⟨t, ht, hskip⟩ := parseMember_complete hvalue h hends hwhite hnew
    rw [append_assoc, cons_append, parseMembers, ht, ok_bind]
    dsimp only
    rw [hskip, if_pos (by rfl), tail_cons, ih (by omega), denoteMembers]
    · rfl
    · intro hrejects
      rw [setMember, if_neg (hnew hrejects), map_append, append_assoc]
      exact hkeys hrejects

variable {raws : List (JsonGrammar.Value Units)}

theorem parseItems_complete (h : Separated (Padded P) raws b) (hfuel : raws.length ≤ fuel)
    (rest : Units) :
    parseItems value fuel (b ++ 0x5d :: rest) = .ok (denoteItems ofToken raws, rest) := by
  induction h generalizing fuel with
  | @last raw b h =>
    obtain ⟨fuel, rfl⟩ := Nat.exists_eq_succ_of_ne_zero (Nat.pos_iff_ne_zero.mp hfuel)
    obtain ⟨hwhite, hends⟩ := closing (t := rest) (u := 0x5d) rfl rfl
    obtain ⟨t, ht, hskip⟩ := parsePadded_complete hvalue h hends hwhite
    rw [parseItems, ht, ok_bind]
    dsimp only
    rw [hskip, if_neg (by simp), expect_eq_ok.mpr rfl, denoteItems, denoteItems]
    rfl
  | @cons raw b raws more h hmore ih =>
    rw [length_cons] at hfuel
    obtain ⟨fuel, rfl⟩ := Nat.exists_eq_succ_of_ne_zero (n := fuel) (by omega)
    obtain ⟨hwhite, hends⟩ := closing (t := more ++ 0x5d :: rest) (u := 0x2c) rfl rfl
    obtain ⟨t, ht, hskip⟩ := parsePadded_complete hvalue h hends hwhite
    rw [append_assoc, cons_append, parseItems, ht, ok_bind]
    dsimp only
    rw [hskip, if_pos (by rfl), tail_cons, ih (by omega), denoteItems]
    rfl

theorem parseObject_complete (h : Separated (MemberText P) ms b)
    (hkeys : rejects = true → (ms.map Prod.fst).Nodup) (rest : Units) :
    parseObject value rejects (b ++ 0x7d :: rest) =
      .ok ((JsonGrammar.Value.object ms).denote ofToken, rest) := by
  obtain ⟨c, hc, hskip, hnot, hfuel⟩ := opened (h.strip fun h => h.strip) rest
  rw [parseObject, hskip, if_neg hnot, parseMembers_complete hvalue hc hfuel hkeys,
    JsonGrammar.Value.denote]
  rfl

theorem parseArray_complete (hP : Starts P) (h : Separated (Padded P) raws b) (rest : Units) :
    parseArray value (b ++ 0x5d :: rest) =
      .ok ((JsonGrammar.Value.array raws).denote ofToken, rest) := by
  obtain ⟨c, hc, hskip, hnot, hfuel⟩ := opened (h.strip fun h => h.strip fun h => hP h) rest
  rw [parseArray, hskip, if_neg hnot, parseItems_complete hvalue hc hfuel, JsonGrammar.Value.denote]
  rfl

end

theorem parseStep_complete_scalar {inside : Option (Parser N)} (hw : White w)
    (h : ScalarText raw b) (hends : Ends rest) :
    parseStep ofToken rejects inside (w ++ (b ++ rest)) = .ok (raw.denote ofToken, rest) := by
  have hscalar : parseScalar ofToken (b ++ rest) = .ok (raw.denote ofToken, rest) :=
    parseScalar_complete h hends
  obtain ⟨u, more, rfl, hu, -, hobject, harray⟩ := h.head
  rw [cons_append] at hscalar ⊢
  have hnot : ∀ c, u ≠ c → (u :: (more ++ rest)).head? ≠ some c := fun c hc h =>
    hc (Option.some.inj h)
  rw [parseStep, skipWhitespace_append hw (notAhead_of_cons hu), if_neg (hnot _ hobject),
    if_neg (hnot _ harray)]
  exact hscalar

theorem parseStep_complete (hvalue : Complete ofToken P value) (hP : Starts P) :
    Complete ofToken (StepText rejects P) (parseStep ofToken rejects (some value)) := by
  rintro w raw b rest hw ⟨h, hkeys⟩ hends
  have hskip : ∀ {u t}, isWhite u = false →
      skipWhitespace (w ++ (u :: t ++ rest)) = u :: (t ++ rest) := fun hu =>
    skipWhitespace_append hw (notAhead_of_cons hu)
  have hclosed : ∀ {w' : Units} {close : ℕ}, White w' → isWhite close = false →
      skipWhitespace (w' ++ [close] ++ rest) = close :: rest := fun hw' hclose => by
    rw [append_assoc]
    exact skipWhitespace_append hw' (notAhead_of_cons hclose)
  cases h with
  | scalar h => exact parseStep_complete_scalar hw h hends
  | emptyArray hw' =>
    rw [parseStep, hskip (by decide), if_neg (by simp), if_pos (by rfl)]
    simp only [orRefuse, ok_bind, tail_cons]
    rw [parseArray, hclosed hw' (by decide), if_pos (by rfl)]
    rfl
  | array h =>
    rw [parseStep, hskip (by decide), if_neg (by simp), if_pos (by rfl)]
    simp only [orRefuse, ok_bind, tail_cons]
    rw [append_assoc]
    exact parseArray_complete hvalue hP h rest
  | emptyObject hw' =>
    rw [parseStep, hskip (by decide), if_pos (by rfl)]
    simp only [orRefuse, ok_bind, tail_cons]
    rw [parseObject, hclosed hw' (by decide), if_pos (by rfl)]
    rfl
  | object h =>
    rw [parseStep, hskip (by decide), if_pos (by rfl)]
    simp only [orRefuse, ok_bind, tail_cons]
    rw [append_assoc]
    exact parseObject_complete hvalue h hkeys rest

/-- **Every text of a value is parsed**, if there is room for its nesting. -/
theorem parseValue_complete (room : ℕ) :
    Complete ofToken (StrictText rejects room) (parseValue ofToken rejects room) := by
  induction room with
  | zero => exact fun hw h hends => parseStep_complete_scalar hw h.1 hends
  | succ room ih => exact fun hw h hends =>
      parseStep_complete ih (fun h => h.1.head) hw (stepText_strictText.mpr h) hends

/-- **A document is parsed exactly when it is a JSON text** that nests no deeper than there is
room for and, if duplicate keys are rejected, has none; and then as the value it is a text of. -/
theorem parseDocument_iff {room : ℕ} {text : Units} :
    parseDocument ofToken rejects room text = .ok v ↔ ∃ raw, JsonText raw text ∧
      raw.depth ≤ room ∧ (rejects = true → raw.Plain) ∧ v = raw.denote ofToken := by
  simp only [parseDocument, bind_eq_ok, refuseIf_eq_ok, pure_eq_ok, not_not]
  constructor
  · rintro ⟨⟨v, t⟩, hv, _, hend, rfl⟩
    obtain ⟨w, raw, b, hw, hb, rfl, rfl⟩ := parseValue_sound room hv
    obtain ⟨w', hw', ht⟩ := white_skipWhitespace t
    dsimp only at hend
    rw [hend, append_nil] at ht
    obtain ⟨hgrammar, hdepth⟩ := nestedText_iff.mp hb.1
    exact ⟨raw, ⟨w, b, w', hw, hgrammar, hw', by rw [ht]⟩, hdepth, hb.2, rfl⟩
  · rintro ⟨raw, ⟨w, b, w', hw, hgrammar, hw', rfl⟩, hdepth, hplain, rfl⟩
    have hb : StrictText rejects room raw b := ⟨nestedText_iff.mpr ⟨hgrammar, hdepth⟩, hplain⟩
    have hends : Ends w' := by
      have hnone : Ends [] := by rintro _ ⟨⟩
      simpa using ends_of_white hw' hnone
    have hskip : skipWhitespace w' = [] := by
      have hnone : NotAhead isWhite [] := by rintro _ ⟨⟩
      simpa using skipWhitespace_append hw' hnone
    exact ⟨_, parseValue_complete room hw hb hends, (), hskip, rfl⟩

theorem parseDocument_eq_ok_iff {room : ℕ} {text : Units} :
    parseDocument ofToken false room text = .ok v ↔
      ∃ raw, JsonText raw text ∧ raw.depth ≤ room ∧ v = raw.denote ofToken := by
  simp [parseDocument_iff]

end Values

end ExactJson

/-- **Exactly JSON is accepted**, up to the largest nesting: the text is one of RFC 8259's whose
objects and arrays nest at most so deep, and the result is the value it is a text of, with the
token for every number and the last of duplicate keys. In particular every way to write a tree
without duplicate keys gives the tree back. -/
theorem parseExactJson_eq_ok_iff :
    (∀ (text : Units) (v : JsonGrammar.Value Empty), parseExactJson text false = .ok v ↔
      ∃ raw, JsonText raw text ∧ raw.depth ≤ MAX_NESTING_DEPTH ∧ v = raw.denote .string) ∧
    ∀ (tree : JsonGrammar.Value Units) (text : Units), tree.Plain → tree.depth ≤ MAX_NESTING_DEPTH →
      JsonText tree text → parseExactJson text false = .ok (tree.mapNumber .string) := by
  have hiff : ∀ (text : Units) (v : JsonGrammar.Value Empty), parseExactJson text false = .ok v ↔
      ∃ raw, JsonText raw text ∧ raw.depth ≤ MAX_NESTING_DEPTH ∧ v = raw.denote .string := by
    intro text v
    rw [← ExactJson.parseDocument_eq_ok_iff, parseExactJson]
    cases ExactJson.parseDocument JsonGrammar.Value.string false MAX_NESTING_DEPTH text with
    | error e | ok v' => simp [Except.mapError]
  refine ⟨hiff, fun tree text hplain hdepth htext => ?_⟩
  rw [hiff, ← denote_of_plain _ tree hplain]
  exact ⟨tree, htext, hdepth, rfl⟩

/-- An array of a number and an object, with white space and an escape. -/
theorem parseExactJson_array :
    ∃ v raw, parseExactJson (CodeUnits.encode "[ 1.50,\x7b\"\\u0061\":true \x7d ]") false = .ok v ∧
      JsonText raw (CodeUnits.encode "[ 1.50,\x7b\"\\u0061\":true \x7d ]") ∧
      raw.depth ≤ MAX_NESTING_DEPTH ∧ v = raw.denote .string := by
  have hok : (parseExactJson (CodeUnits.encode "[ 1.50,\x7b\"\\u0061\":true \x7d ]") false).isOk =
      true := by decide +kernel
  obtain ⟨v, h⟩ := exists_of_isOk hok
  obtain ⟨raw, hraw⟩ := (parseExactJson_eq_ok_iff.1 _ v).mp h
  exact ⟨v, raw, h, hraw⟩

/-- **Where duplicate keys are rejected, exactly the texts without any are accepted**, up to the
largest nesting, and every one of them as the tree it shows. -/
theorem parseExactJson_rejecting_eq_ok_iff (text : Units) (v : JsonGrammar.Value Empty) :
    parseExactJson text true = .ok v ↔ ∃ raw, JsonText raw text ∧
      raw.depth ≤ MAX_NESTING_DEPTH ∧ raw.Plain ∧ v = raw.mapNumber .string := by
  have hdocument : parseExactJson text true = .ok v ↔
      ExactJson.parseDocument JsonGrammar.Value.string true MAX_NESTING_DEPTH text = .ok v := by
    rw [parseExactJson]
    cases ExactJson.parseDocument JsonGrammar.Value.string true MAX_NESTING_DEPTH text with
    | error e | ok v' => simp [Except.mapError]
  rw [hdocument, ExactJson.parseDocument_iff]
  refine exists_congr fun raw => and_congr_right fun _ => and_congr_right fun _ => ?_
  constructor
  · rintro ⟨hplain, rfl⟩
    exact ⟨hplain rfl, denote_of_plain _ raw (hplain rfl)⟩
  · rintro ⟨hplain, rfl⟩
    exact ⟨fun _ => hplain, (denote_of_plain _ raw hplain).symm⟩

end OpenBooks
