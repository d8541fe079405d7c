import OpenBooks.Networking.Ssrf

/-!
# The literals of an address

What `net.isIP` accepts, spelled out: four octets with dots between, or groups of
one to four hexadecimal digits with colons between, at most one `::` standing for
the zero groups left out, possibly a dotted quad in place of the last two groups
and possibly a zone suffix after a `%`. A literal carries its own shape, so that
its text and its eight words are both functions of it, and
`Networking.expandIpv6_text` is the theorem that the hand written
expander reads from the text exactly these words, as long as no zone stands in
its way.
-/

namespace OpenBooks.Networking

open List

/-- One to four hexadecimal digits. -/
structure Group where
  digits : Text
  hex : digits.all isHexDigit = true
  size : 1 ≤ digits.length ∧ digits.length ≤ 4

/-- The number a group spells. -/
def Group.value (g : Group) : Nat := hexValue g.digits

/-- The four octets of an IPv4 literal. -/
structure Quad where
  octets : List Nat
  size : octets.length = 4
  bound : ∀ o ∈ octets, o ≤ 255

/-- The text of a dotted quad. -/
def Quad.text (q : Quad) : Text := dotted q.octets

/-- The address a dotted quad spells. -/
def Quad.address (q : Quad) : Nat := q.octets.foldl (fun v o => v * 2 ^ 8 + o) 0

/-- The two words a dotted quad stands for. -/
def Quad.words (q : Quad) : List Nat := [q.address / 2 ^ 16, q.address % 2 ^ 16]

/-- What `net.isIP` lets follow a `%`. -/
structure Zone where
  text : Text
  nonempty : text ≠ []
  chars : ∀ c ∈ text, c.isAlphanum ∨ c ∈ ['-', '.', ':']

/-- An IPv6 literal. -/
structure Ipv6Literal where
  /-- The groups before the `::`, or all of them. -/
  head : List Group
  /-- The groups after the `::`, if there is one. -/
  rest : Option (List Group)
  quad : Option Quad
  zone : Option Zone
  fits : let n := head.length + (rest.getD []).length + (if quad.isSome then 2 else 0)
    if rest.isSome then n ≤ 7 else n = 8

namespace Ipv6Literal

/-- Groups, and a dotted quad after them, with colons between. -/
def side (groups : List Group) (quad : Option Quad) : Text :=
  [':'].intercalate (groups.map (·.digits) ++ (quad.map (·.text)).toList)

/-- The zone of a literal, behind its sign. -/
def zoneText (L : Ipv6Literal) : Text :=
  match L.zone with
  | none => []
  | some z => '%' :: z.text

/-- The text of a literal. -/
def text (L : Ipv6Literal) : Text :=
  match L.rest with
  | none => side L.head L.quad ++ L.zoneText
  | some rest => side L.head none ++ ':' :: ':' :: (side rest L.quad ++ L.zoneText)

/-- The words after the zero groups left out. -/
def lowWords (L : Ipv6Literal) : List Nat :=
  (L.rest.getD []).map (·.value) ++ (L.quad.map (·.words)).getD []

/-- The eight words of the address. -/
def words (L : Ipv6Literal) : List Nat :=
  L.head.map (·.value) ++ List.replicate (8 - L.head.length - L.lowWords.length) 0 ++ L.lowWords

/-- The address a literal spells. -/
def address (L : Ipv6Literal) : Nat := L.words.foldl (fun v w => v * 2 ^ 16 + w) 0

/-- The literal ends in a group or a quad, and not in its `::`. -/
def endsInGroup (L : Ipv6Literal) : Bool := !(L.rest.getD L.head).isEmpty || L.quad.isSome

end Ipv6Literal

/-- A literal as it may stand in a URL, with either bracket. -/
def bracketed (opening closing : Bool) (s : Text) : Text :=
  (if opening then ['['] else []) ++ s ++ (if closing then [']'] else [])

/-! ### Letter case -/

/-- The characters that literals are made of. -/
def IsLiteralChar (c : Char) : Prop := c.isAlphanum ∨ c ∈ ['-', '.', ':', '%']

theorem toLower_cases (c : Char) :
    c.toLower = c ∨ (65 ≤ c.toNat ∧ c.toNat ≤ 90 ∧ c.toLower.toNat = c.toNat + 32) := by
  unfold Char.toLower
  split_ifs with h
  · right
    have h1 : 65 ≤ c.toNat := h.1
    have h2 : c.toNat ≤ 90 := h.2
    refine ⟨h1, h2, ?_⟩
    have : (c.val + 32).toNat = c.toNat + 32 := by
      rw [UInt32.toNat_add]
      show (c.toNat + 32) % 2 ^ 32 = _
      omega
    exact this
  · exact Or.inl rfl

theorem hexDigit?_toLower (c : Char) : hexDigit? c.toLower = hexDigit? c := by
  rcases toLower_cases c with h | ⟨h1, h2, h3⟩
  · rw [h]
  · have hle : ∀ a b : Char, a ≤ b ↔ a.toNat ≤ b.toNat := fun _ _ => Iff.rfl
    simp only [hexDigit?, hle, h3, Char.reduceToNat]
    split_ifs <;> first | rfl | omega

variable {c : Char}

theorem toNat_of_hexDigit (h : isHexDigit c) :
    (48 ≤ c.toNat ∧ c.toNat ≤ 57) ∨ (97 ≤ c.toNat ∧ c.toNat ≤ 102) ∨
      (65 ≤ c.toNat ∧ c.toNat ≤ 70) := by
  have hle : ∀ a b : Char, a ≤ b ↔ a.toNat ≤ b.toNat := fun _ _ => Iff.rfl
  simp only [isHexDigit, hexDigit?, hle, Char.reduceToNat] at h
  split_ifs at h with h1 h2 h3
  · exact Or.inl h1
  · exact Or.inr (Or.inl h2)
  · exact Or.inr (Or.inr h3)
  · simp at h

theorem isAlphanum_iff (c : Char) : c.isAlphanum ↔ (65 ≤ c.toNat ∧ c.toNat ≤ 90) ∨
    (97 ≤ c.toNat ∧ c.toNat ≤ 122) ∨ (48 ≤ c.toNat ∧ c.toNat ≤ 57) := by
  delta Char.isAlphanum Char.isAlpha Char.isUpper Char.isLower Char.isDigit
  simp only [Bool.or_eq_true, Bool.and_eq_true, decide_eq_true_eq, or_assoc]
  exact Iff.rfl

theorem toLowerCase_append (s t : Text) : toLowerCase (s ++ t) = toLowerCase s ++ toLowerCase t :=
  map_append

theorem toLowerCase_intercalate (ps : List Text) :
    toLowerCase ([':'].intercalate ps) = [':'].intercalate (ps.map toLowerCase) := by
  induction ps with
  | nil => rfl
  | cons p ps ih =>
    cases ps with
    | nil => simp
    | cons q ps =>
      rw [intercalate_cons_cons, toLowerCase_append, toLowerCase_append, ih]
      exact intercalate_cons_cons.symm

theorem mem_intercalate {x : Char} {ps : List Text} (h : c ∈ [x].intercalate ps) :
    c = x ∨ ∃ p ∈ ps, c ∈ p := by
  induction ps with
  | nil => simp at h
  | cons p ps ih =>
    cases ps with
    | nil => exact Or.inr ⟨p, by simp, by simpa using h⟩
    | cons q ps =>
      rw [intercalate_cons_cons, mem_append, mem_append, mem_singleton] at h
      rcases h with (h | h) | h
      · exact Or.inr ⟨p, by simp, h⟩
      · exact Or.inl h
      · rcases ih h with h | ⟨r, hr, hc⟩
        · exact Or.inl h
        · exact Or.inr ⟨r, mem_cons_of_mem _ hr, hc⟩

variable (g : Group)

namespace Group

/-- A group in small letters. -/
def lower (g : Group) : Group where
  digits := toLowerCase g.digits
  hex := by
    have h := g.hex
    simpa [toLowerCase, List.all_map, Function.comp_def, isHexDigit, hexDigit?_toLower] using h
  size := by simpa [toLowerCase] using g.size

theorem value_lower : g.lower.value = g.value := by
  simp [value, lower, hexValue, toLowerCase, foldl_map, hexDigit?_toLower]

theorem isHexDigit_of_mem (h : c ∈ g.digits) : isHexDigit c :=
  all_eq_true.mp g.hex c h

theorem value_le : g.value ≤ 0xffff := by
  have hbound : ∀ (ds : Text) (v : Nat),
      ds.foldl (fun v c => v * 16 + (hexDigit? c).getD 0) v < (v + 1) * 16 ^ ds.length := by
    intro ds
    induction ds with
    | nil => intro v; simp
    | cons c ds ih =>
      intro v
      have hc : (hexDigit? c).getD 0 < 16 := by
        by_cases h : isHexDigit c
        · have hle : ∀ a b : Char, a ≤ b ↔ a.toNat ≤ b.toNat := fun _ _ => Iff.rfl
          simp only [hexDigit?, hle, Char.reduceToNat]
          split_ifs <;> simp <;> omega
        · have hnone : hexDigit? c = none := by simpa [isHexDigit] using h
          rw [hnone]
          decide
      calc (c :: ds).foldl (fun v c => v * 16 + (hexDigit? c).getD 0) v
          < (v * 16 + (hexDigit? c).getD 0 + 1) * 16 ^ ds.length := ih _
        _ ≤ ((v + 1) * 16) * 16 ^ ds.length := Nat.mul_le_mul_right _ (by omega)
        _ = (v + 1) * 16 ^ (c :: ds).length := by rw [length_cons, Nat.pow_succ, Nat.mul_assoc, Nat.mul_comm 16]
  have hpow : 16 ^ g.digits.length ≤ 16 ^ 4 := Nat.pow_le_pow_right (by decide) g.size.2
  have := hbound g.digits 0
  unfold value hexValue
  omega

end Group

/-! ### Octets -/

theorem octet_text : ∀ o ≤ 255, shortDecimal? (Nat.toDigits 10 o) = some o ∧
    (Nat.toDigits 10 o).all Char.isDigit = true := by
  have h : ∀ o < 256, shortDecimal? (Nat.toDigits 10 o) = some o ∧
      (Nat.toDigits 10 o).all Char.isDigit = true := by decide +kernel
  exact fun o ho => h o (by omega)

namespace Quad

theorem isDigit_or_dot (q : Quad) (h : c ∈ q.text) : c.isDigit ∨ c = '.' := by
  rcases mem_intercalate h with h | ⟨p, hp, hc⟩
  · exact Or.inr h
  · obtain ⟨o, ho, rfl⟩ := mem_map.mp hp
    exact Or.inl (all_eq_true.mp (octet_text o (q.bound o ho)).2 c hc)

theorem toLowerCase_text (q : Quad) : toLowerCase q.text = q.text := by
  refine (map_congr_left fun c hc => ?_).trans (map_id _)
  rcases toLower_cases c with h | ⟨h1, h2, -⟩
  · exact h
  · rcases q.isDigit_or_dot hc with hd | rfl
    · have h3 : 48 ≤ c.toNat ∧ c.toNat ≤ 57 := by
        simpa [Char.isDigit, UInt32.le_iff_toNat_le] using hd
      omega
    · rfl

theorem parseIpv4_text (q : Quad) : parseIpv4 q.text = some q.octets := by
  have hsplit : q.text.splitOn '.' = q.octets.map (Nat.toDigits 10) := by
    refine splitOn_intercalate _ (fun p hp hdot => ?_) ?_
    · obtain ⟨o, ho, rfl⟩ := mem_map.mp hp
      exact absurd (all_eq_true.mp (octet_text o (q.bound o ho)).2 _ hdot) (by decide)
    · have := q.size
      intro h
      simp [map_eq_nil_iff.mp h] at this
  have hread : (q.octets.map (Nat.toDigits 10)).mapM shortDecimal? = some q.octets := by
    have h := q.bound
    generalize q.octets = os at h ⊢
    induction os with
    | nil => rfl
    | cons o os ih =>
      rw [map_cons, mapM_cons, (octet_text o (h o (by simp))).1,
        ih fun o' ho' => h o' (by simp [ho'])]
      rfl
  have hany : ¬ q.octets.any (255 < ·) = true := by
    simpa using fun o ho => q.bound o ho
  rw [parseIpv4, hsplit, hread]
  simp only [length_map, q.size, ne_eq, not_true, if_false, if_neg hany]

end Quad

theorem isLiteralChar_toLower (h : c.isAlphanum ∨ c ∈ ['-', '.', ':']) :
    c.toLower.isAlphanum ∨ c.toLower ∈ ['-', '.', ':'] := by
  rcases toLower_cases c with hc | ⟨h1, h2, h3⟩
  · rwa [hc]
  · left
    rw [isAlphanum_iff]
    omega

/-- A zone in small letters. -/
def Zone.lower (z : Zone) : Zone where
  text := toLowerCase z.text
  nonempty := by simpa [toLowerCase] using z.nonempty
  chars := by
    intro c hc
    obtain ⟨d, hd, rfl⟩ := List.mem_map.mp hc
    exact isLiteralChar_toLower (z.chars d hd)

theorem mem_toLowerCase {x : Char} (hx : x.toNat < 65) (s : Text) : x ∈ toLowerCase s ↔ x ∈ s := by
  have hself : x.toLower = x := by
    rcases toLower_cases x with h | ⟨h, -⟩
    · exact h
    · omega
  refine ⟨fun h => ?_, fun h => mem_map.mpr ⟨x, h, hself⟩⟩
  obtain ⟨c, hc, rfl⟩ := mem_map.mp h
  rcases toLower_cases c with h | ⟨h1, -, h⟩
  · rwa [h]
  · omega

variable (L : Ipv6Literal)

namespace Ipv6Literal

/-- A literal in small letters. -/
def lower (L : Ipv6Literal) : Ipv6Literal where
  head := L.head.map (·.lower)
  rest := L.rest.map (·.map (·.lower))
  quad := L.quad
  zone := L.zone.map (·.lower)
  fits := by
    have h := L.fits
    cases hr : L.rest <;> simpa [hr] using h

theorem lower_rest_getD : L.lower.rest.getD [] = (L.rest.getD []).map (·.lower) := by
  cases hr : L.rest <;> simp [lower, hr]

theorem words_lower : L.lower.words = L.words := by
  have hmap : ∀ gs : List Group, (gs.map (·.lower)).map (·.value) = gs.map (·.value) := fun gs => by
    simp [Function.comp_def, Group.value_lower]
  have hlow : L.lower.lowWords = L.lowWords := by
    rw [lowWords, lower_rest_getD, hmap]
    rfl
  rw [words, hlow]
  show (L.head.map (·.lower)).map (·.value) ++
    replicate (8 - (L.head.map (·.lower)).length - _) 0 ++ _ = _
  rw [hmap, length_map]
  rfl

theorem side_lower (gs : List Group) (quad : Option Quad) :
    side (gs.map (·.lower)) quad = toLowerCase (side gs quad) := by
  have hquad : (quad.map (·.text)).toList.map toLowerCase = (quad.map (·.text)).toList := by
    cases quad <;> simp [Quad.toLowerCase_text]
  rw [side, side, toLowerCase_intercalate, map_append, hquad, map_map, map_map]
  rfl

theorem zoneText_lower : L.lower.zoneText = toLowerCase L.zoneText := by
  cases hz : L.zone <;> simp [zoneText, lower, hz, toLowerCase, Zone.lower]

theorem text_lower : L.lower.text = toLowerCase L.text := by
  cases hr : L.rest with
  | none =>
    have hl : L.lower.rest = none := by simp [lower, hr]
    simp only [text, hr, hl, zoneText_lower, toLowerCase_append]
    rw [← side_lower]
    rfl
  | some rest =>
    have hl : L.lower.rest = some (rest.map (·.lower)) := by simp [lower, hr]
    simp only [text, hr, hl, zoneText_lower, toLowerCase_append, side_lower]
    show side (L.head.map (·.lower)) none ++ ':' :: ':' :: (toLowerCase (side rest L.quad) ++ _) = _
    rw [side_lower]
    simp [toLowerCase]

theorem isLiteralChar_of_mem_side {gs : List Group} {quad : Option Quad} (h : c ∈ side gs quad) :
    IsLiteralChar c := by
  rcases mem_intercalate h with rfl | ⟨p, hp, hc⟩
  · right; decide
  · rcases mem_append.mp hp with hp | hp
    · obtain ⟨g, -, rfl⟩ := mem_map.mp hp
      left
      rw [isAlphanum_iff]
      have := toNat_of_hexDigit (g.isHexDigit_of_mem hc)
      omega
    · obtain ⟨q, -, rfl⟩ : ∃ q, quad = some q ∧ q.text = p := by simpa using hp
      rcases q.isDigit_or_dot hc with hd | rfl
      · exact Or.inl (by simp [Char.isAlphanum, hd])
      · right; decide

theorem isLiteralChar_of_mem {L : Ipv6Literal} (h : c ∈ L.text) : IsLiteralChar c := by
  have hzone : c ∈ L.zoneText → IsLiteralChar c := by
    intro hc
    cases hz : L.zone with
    | none => simp [zoneText, hz] at hc
    | some z =>
      rw [zoneText, hz] at hc
      rcases mem_cons.mp hc with rfl | hc
      · right; decide
      · refine (z.chars c hc).imp_right fun h => ?_
        simp only [mem_cons, not_mem_nil, or_false] at h ⊢
        tauto
  cases hr : L.rest with
  | none =>
    rw [text, hr] at h
    exact (mem_append.mp h).elim isLiteralChar_of_mem_side hzone
  | some rest =>
    rw [text, hr] at h
    simp only [mem_append, mem_cons] at h
    rcases h with h | rfl | rfl | h | h
    · exact isLiteralChar_of_mem_side h
    · right; decide
    · right; decide
    · exact isLiteralChar_of_mem_side h
    · exact hzone h

end Ipv6Literal

/-! ### Reading a side -/

/-- The text of one group, possibly with a zone after it, and the word read from it. -/
structure ReadsAs (p : Text) (v : Nat) : Prop where
  nonempty : p ≠ []
  noColon : ':' ∉ p
  noDot : '.' ∉ p
  read : parseInt16 p = some (v : Int)
  bound : v ≤ 0xffff

variable {t : Text}

theorem parseInt16_append (ht : t = [] ∨ t.head? = some '%') :
    parseInt16 (g.digits ++ t) = some (g.value : Int) := by
  obtain ⟨d, ds, hg⟩ := exists_cons_of_length_pos g.size.1
  have hrange : ∀ c ∈ g.digits, _ := fun c hc => toNat_of_hexDigit (g.isHexDigit_of_mem hc)
  have hd := hrange d (by simp [hg])
  have hne : ∀ c : Char, ¬ ((48 ≤ c.toNat ∧ c.toNat ≤ 57) ∨ (97 ≤ c.toNat ∧ c.toNat ≤ 102) ∨
      (65 ≤ c.toNat ∧ c.toNat ≤ 70)) → d ≠ c := by
    rintro c hc rfl
    exact hc hd
  have hwhite : isWhite d = false := by
    simp only [isWhite, mem_cons, not_mem_nil, or_false, decide_eq_false_iff_not]
    omega
  have hdrop : (g.digits ++ t).dropWhile isWhite = g.digits ++ t := by
    simp [hg, hwhite]
  have hhead : (g.digits ++ t).head? = some d := by simp [hg]
  have hminus : ¬ some d = some '-' := fun h => hne '-' (by decide) (Option.some.inj h)
  have hsign : ¬ (some d = some '-' ∨ some d = some '+') := by
    rintro (h | h)
    · exact hminus h
    · exact hne '+' (by decide) (Option.some.inj h)
  -- the second character is a digit, or a `%`, and never the `x` of a prefix
  have hunder : ¬ ((g.digits ++ t).take 2 = ['0', 'x'] ∨ (g.digits ++ t).take 2 = ['0', 'X']) := by
    cases ds with
    | nil =>
      rcases ht with rfl | ht
      · simp [hg]
      · obtain ⟨u, rfl⟩ := head?_eq_some_iff.mp ht
        simp [hg]
    | cons e ds =>
      have he := hrange e (by simp [hg])
      rw [hg]
      simp only [cons_append, take_succ_cons, take_zero, List.cons.injEq, and_true]
      rintro (⟨-, rfl⟩ | ⟨-, rfl⟩) <;> exact absurd he (by decide)
  have htail : t.takeWhile isHexDigit = [] := by
    rcases ht with rfl | ht
    · rfl
    · obtain ⟨u, rfl⟩ := head?_eq_some_iff.mp ht
      rfl
  have htake : (g.digits ++ t).takeWhile isHexDigit = g.digits := by
    rw [takeWhile_append_of_pos (all_eq_true.mp g.hex), htail, append_nil]
  simp only [parseInt16, hdrop, hhead, if_neg hminus, if_neg hsign, if_neg hunder, htake]
  rw [if_neg (by simp [hg])]
  rfl

theorem Group.readsAs (ht : t = [] ∨ t.head? = some '%') (hcolon : ':' ∉ t) (hdot : '.' ∉ t) :
    ReadsAs (g.digits ++ t) g.value where
  nonempty := by simp [ne_nil_of_length_pos g.size.1]
  noColon := by
    rw [mem_append, not_or]
    exact ⟨fun h => absurd (g.isHexDigit_of_mem h) (by decide), hcolon⟩
  noDot := by
    rw [mem_append, not_or]
    exact ⟨fun h => absurd (g.isHexDigit_of_mem h) (by decide), hdot⟩
  read := parseInt16_append g ht
  bound := g.value_le

/-- Every group of a side reads as its word. -/
def SideReads (ps : List (Text × Nat)) : Prop := ∀ p ∈ ps, ReadsAs p.1 p.2

variable {ps : List (Text × Nat)}

theorem map_parseInt16 (h : SideReads ps) :
    (ps.map Prod.fst).map parseInt16 = (ps.map Prod.snd).map fun v : Nat => some (v : Int) := by
  rw [map_map, map_map]
  exact map_congr_left fun p hp => (h p hp).read

theorem splitOn_side (h : SideReads ps) (hne : ps ≠ []) :
    ([':'].intercalate (ps.map Prod.fst)).splitOn ':' = ps.map Prod.fst := by
  refine splitOn_intercalate _ (fun p hp => ?_) (by simpa using hne)
  obtain ⟨q, hq, rfl⟩ := mem_map.mp hp
  exact (h q hq).noColon

theorem parseSide_side (h : SideReads ps) :
    parseSide ([':'].intercalate (ps.map Prod.fst)) =
      (ps.map Prod.snd).map fun v : Nat => some (v : Int) := by
  cases ps with
  | nil => rfl
  | cons p ps =>
    have hne : [':'].intercalate ((p :: ps).map Prod.fst) ≠ [] := by
      have hp := (h p (by simp)).nonempty
      cases ps with
      | nil => simpa using hp
      | cons q ps => simp [intercalate_cons_cons]
    rw [parseSide, if_neg hne, splitOn_side h (by simp), map_parseInt16 h]

theorem groupsIn_map {vs : List Nat} (hlen : vs.length = 8) (hb : ∀ v ∈ vs, v ≤ 0xffff) :
    groupsIn (vs.map fun v : Nat => some (v : Int)) = some vs := by
  rw [groupsIn, if_neg (by simp [hlen])]
  clear hlen
  induction vs with
  | nil => rfl
  | cons v vs ih =>
    have hv := hb v (by simp)
    rw [map_cons, mapM_cons, ih fun w hw => hb w (by simp [hw])]
    simp only [if_neg (show ¬ ((v : Int) < 0 ∨ 0xffff < (v : Int)) by omega)]
    rfl

/-! ### The double colon -/

/-- No `::` begins within `s` when `t` follows it. -/
def NoDoubleColon : Text → Text → Prop
  | [], _ => True
  | c :: s, t => ¬ (c = ':' ∧ (s ++ t).head? = some ':') ∧ NoDoubleColon s t

variable {s : Text}

theorem noDoubleColon_of_notMem (h : ':' ∉ s) (t : Text) : NoDoubleColon s t := by
  induction s with
  | nil => trivial
  | cons c s ih =>
    rw [mem_cons, not_or] at h
    exact ⟨fun hc => h.1 hc.1.symm, ih h.2⟩

theorem noDoubleColon_append {a b : Text} (ha : NoDoubleColon a (b ++ t))
    (hb : NoDoubleColon b t) : NoDoubleColon (a ++ b) t := by
  induction a with
  | nil => exact hb
  | cons c a ih => exact ⟨by simpa [append_assoc] using ha.1, ih ha.2⟩

theorem head?_side_append (h : SideReads ps) (ht : ps = [] → t.head? ≠ some ':') :
    ([':'].intercalate (ps.map Prod.fst) ++ t).head? ≠ some ':' := by
  cases ps with
  | nil => exact ht rfl
  | cons q ps =>
    have hq := h q (by simp)
    obtain ⟨c, s, hs⟩ := exists_cons_of_ne_nil hq.nonempty
    intro hc
    obtain rfl : c = ':' := by
      cases ps <;> simpa [hs, intercalate_cons_cons] using hc
    exact hq.noColon (by simp [hs])

theorem noDoubleColon_side (h : SideReads ps) (t : Text) :
    NoDoubleColon ([':'].intercalate (ps.map Prod.fst)) t := by
  induction ps with
  | nil => trivial
  | cons p ps ih =>
    have hp := h p (by simp)
    cases ps with
    | nil => simpa using noDoubleColon_of_notMem hp.noColon t
    | cons q ps =>
      have hrest := ih fun r hr => h r (by simp [hr])
      have hq := h q (by simp)
      rw [map_cons, map_cons, intercalate_cons_cons]
      refine noDoubleColon_append (noDoubleColon_append (noDoubleColon_of_notMem hp.noColon _)
        ⟨?_, trivial⟩) hrest
      -- the group after the colon begins with another character
      exact fun hc => head?_side_append (fun r hr => h r (mem_cons_of_mem _ hr)) (by simp) hc.2

theorem positionsOf_append (h : NoDoubleColon s t) (i : Nat) :
    positionsOf [':', ':'] i (s ++ t) = positionsOf [':', ':'] (i + s.length) t := by
  induction s generalizing i with
  | nil => rfl
  | cons c s ih =>
    have hnot : ¬ [':', ':'].isPrefixOf (c :: (s ++ t)) = true := by
      intro hp
      refine h.1 ?_
      cases hst : s ++ t with
      | nil => simp [hst, List.isPrefixOf] at hp
      | cons d u =>
        simp only [hst, List.isPrefixOf, Bool.and_true, Bool.and_eq_true, beq_iff_eq] at hp
        simp [← hp.1, ← hp.2]
    rw [cons_append, positionsOf, if_neg hnot, nil_append, ih h.2, length_cons]
    congr 1
    omega

theorem splitDoubleColon_append (h : NoDoubleColon s t) :
    splitDoubleColon (s ++ t) = (splitDoubleColon t).modifyHead (s ++ ·) := by
  induction s with
  | nil => cases h' : splitDoubleColon t <;> simp [h']
  | cons c s ih =>
    have hstep : splitDoubleColon (c :: (s ++ t)) =
        (splitDoubleColon (s ++ t)).modifyHead (c :: ·) := by
      have hc := h.1
      cases hst : s ++ t with
      | nil => rfl
      | cons d u => rw [splitDoubleColon, if_neg (by simpa [hst] using hc)]
    rw [cons_append, hstep, ih h.2]
    cases splitDoubleColon t <;> simp

/-! ### The expander on a literal -/

theorem notMem_intercalate_of_sideReads (h : SideReads ps) :
    '.' ∉ [':'].intercalate (ps.map Prod.fst) := by
  intro hdot
  rcases mem_intercalate hdot with hc | ⟨p, hp, hc⟩
  · exact absurd hc (by decide)
  · obtain ⟨q, hq, rfl⟩ := mem_map.mp hp
    exact (h q hq).noDot hc

theorem expandIpv6_full (h : SideReads ps) (hlen : ps.length = 8) :
    expandIpv6 ([':'].intercalate (ps.map Prod.fst)) = some (ps.map Prod.snd) := by
  have hne : ps ≠ [] := ne_nil_of_length_pos (by omega)
  have hpos : positionsOf [':', ':'] 0 ([':'].intercalate (ps.map Prod.fst)) = [] := by
    have := positionsOf_append (noDoubleColon_side h []) 0
    rwa [append_nil] at this
  rw [expandIpv6, if_neg (notMem_intercalate_of_sideReads h)]
  simp only [hpos, ne_eq, not_true, if_false]
  rw [splitOn_side h hne, map_parseInt16 h]
  exact groupsIn_map (by simpa using hlen) (by
    intro v hv
    obtain ⟨p, hp, rfl⟩ := mem_map.mp hv
    exact (h p hp).bound)

theorem expandIpv6_compressed {qs : List (Text × Nat)} (hps : SideReads ps) (hqs : SideReads qs)
    (hlen : ps.length + qs.length ≤ 7) :
    expandIpv6 ([':'].intercalate (ps.map Prod.fst) ++ ':' :: ':' ::
        [':'].intercalate (qs.map Prod.fst)) =
      some (ps.map Prod.snd ++ List.replicate (8 - ps.length - qs.length) 0 ++ qs.map Prod.snd) := by
  have h1 := notMem_intercalate_of_sideReads hps
  have h2 := notMem_intercalate_of_sideReads hqs
  have hleft := noDoubleColon_side hps
  have hright := noDoubleColon_side hqs []
  have hstart := head?_side_append hqs (t := []) (by simp)
  have hs := parseSide_side hps
  have hu := parseSide_side hqs
  generalize [':'].intercalate (ps.map Prod.fst) = s at *
  generalize [':'].intercalate (qs.map Prod.fst) = u at *
  have hdot : '.' ∉ s ++ ':' :: ':' :: u := by
    simp only [mem_append, mem_cons, not_or]
    exact ⟨h1, by decide, by decide, h2⟩
  have huhead : NoDoubleColon (':' :: u) [] := ⟨fun hc => hstart hc.2, hright⟩
  have hpos : positionsOf [':', ':'] 0 (s ++ ':' :: ':' :: u) = [s.length] := by
    rw [positionsOf_append (hleft _), positionsOf, if_pos (by simp [List.isPrefixOf])]
    have := positionsOf_append huhead (0 + s.length + 1)
    rw [append_nil] at this
    rw [this]
    simp [positionsOf]
  have hsplit : splitDoubleColon (s ++ ':' :: ':' :: u) = [s, u] := by
    have hu' := splitDoubleColon_append hright
    rw [append_nil] at hu'
    rw [splitDoubleColon_append (hleft _), splitDoubleColon, if_pos ⟨rfl, rfl⟩, hu']
    simp [splitDoubleColon]
  rw [expandIpv6, if_neg hdot]
  simp only [hpos, hsplit, getD_cons_zero, getD_cons_succ]
  rw [hs, hu]
  simp only [length_map, ne_eq, cons_ne_nil, not_false_iff, if_true, head?_cons,
    getLast?_singleton, not_true, if_false]
  rw [if_neg (by omega)]
  have hjoin : (ps.map Prod.snd).map (fun v : Nat => some (v : Int)) ++
      replicate (8 - ps.length - qs.length) (some 0) ++
      (qs.map Prod.snd).map (fun v : Nat => some (v : Int)) =
      (ps.map Prod.snd ++ replicate (8 - ps.length - qs.length) 0 ++ qs.map Prod.snd).map
        fun v : Nat => some (v : Int) := by
    simp
  rw [hjoin]
  refine groupsIn_map (by simp; omega) fun v hv => ?_
  simp only [mem_append, mem_map, mem_replicate] at hv
  rcases hv with (⟨p, hp, rfl⟩ | ⟨-, rfl⟩) | ⟨q, hq, rfl⟩
  · exact (hps p hp).bound
  · omega
  · exact (hqs q hq).bound

theorem exists_side (gs : List Group) (ht : t = [] ∨ t.head? = some '%' ∧ gs ≠ [])
    (hcolon : ':' ∉ t) (hdot : '.' ∉ t) :
    ∃ ps, SideReads ps ∧ ps.map Prod.snd = gs.map (·.value) ∧
      [':'].intercalate (ps.map Prod.fst) = Ipv6Literal.side gs none ++ t := by
  have hplain : ∀ gs : List Group, SideReads (gs.map fun g => (g.digits, g.value)) := by
    intro gs p hp
    obtain ⟨g, -, rfl⟩ := mem_map.mp hp
    have := g.readsAs (t := []) (Or.inl rfl) (by simp) (by simp)
    rwa [append_nil] at this
  rcases ht with rfl | ⟨ht, hgs⟩
  · refine ⟨gs.map fun g => (g.digits, g.value), hplain gs, ?_, ?_⟩
    · rw [map_map]
      rfl
    · simp [Ipv6Literal.side, Function.comp_def]
  · obtain ⟨gs, g, rfl⟩ := (eq_nil_or_concat gs).resolve_left hgs
    refine ⟨(gs.map fun g => (g.digits, g.value)) ++ [(g.digits ++ t, g.value)], ?_, ?_, ?_⟩
    · intro p hp
      rcases mem_append.mp hp with hp | hp
      · exact hplain gs p hp
      · obtain rfl := mem_singleton.mp hp
        exact g.readsAs (Or.inr ht) hcolon hdot
    · simp [Function.comp_def]
    · clear hgs
      induction gs with
      | nil => simp [Ipv6Literal.side]
      | cons g' gs ih =>
        cases gs with
        | nil => simp [Ipv6Literal.side, intercalate_cons_cons]
        | cons g'' gs =>
          simpa [Ipv6Literal.side, intercalate_cons_cons, append_assoc] using ih

namespace Ipv6Literal

/-- The zone, if there is one, is written after a group and holds neither a colon
nor a dot. -/
def Readable (L : Ipv6Literal) : Prop :=
  ∀ z, L.zone = some z → L.endsInGroup ∧ ':' ∉ z.text ∧ '.' ∉ z.text

theorem Readable.lower {L : Ipv6Literal} (h : L.Readable) : L.lower.Readable := by
  rintro z hz
  obtain ⟨y, hy, rfl⟩ := Option.map_eq_some_iff.mp hz
  obtain ⟨hend, hcolon, hdot⟩ := h y hy
  refine ⟨?_, ?_, ?_⟩
  · have : L.lower.endsInGroup = L.endsInGroup := by
      cases hr : L.rest <;> simp [endsInGroup, Ipv6Literal.lower, hr]
    rwa [this]
  · exact fun h => hcolon ((mem_toLowerCase (by decide) _).mp h)
  · exact fun h => hdot ((mem_toLowerCase (by decide) _).mp h)

/-- **The expander reads from a literal without a dotted quad exactly the words of
its address.** -/
theorem expandIpv6_text {L : Ipv6Literal} (hq : L.quad = none) (h : L.Readable) :
    expandIpv6 L.text = some L.words := by
  have hcolon : ':' ∉ L.zoneText := by
    cases hz : L.zone with
    | none => simp [zoneText, hz]
    | some z => simpa [zoneText, hz] using (h z hz).2.1
  have hdot : '.' ∉ L.zoneText := by
    cases hz : L.zone with
    | none => simp [zoneText, hz]
    | some z => simpa [zoneText, hz] using (h z hz).2.2
  have hzone : L.zoneText = [] ∨ L.zoneText.head? = some '%' ∧ L.rest.getD L.head ≠ [] := by
    cases hz : L.zone with
    | none => exact Or.inl (by simp [zoneText, hz])
    | some z =>
      refine Or.inr ⟨by simp [zoneText, hz], ?_⟩
      have := (h z hz).1
      simpa [endsInGroup, hq] using this
  have hfits := L.fits
  have hlow : L.lowWords = (L.rest.getD []).map (·.value) := by simp [lowWords, hq]
  cases hr : L.rest with
  | none =>
    rw [hr] at hzone
    obtain ⟨ps, hreads, hvalues, htext⟩ := exists_side L.head hzone hcolon hdot
    have hlen : ps.length = L.head.length := by
      simpa using congrArg List.length hvalues
    have h8 : L.head.length = 8 := by simpa [hr, hq] using hfits
    have := expandIpv6_full hreads (by omega)
    rw [htext, hvalues] at this
    simp only [text, hr, hq, this, words, hlow, h8]
    simp
  | some rest =>
    rw [hr] at hzone
    obtain ⟨ps, hreads, hvalues, htext⟩ := exists_side L.head (t := []) (Or.inl rfl)
      (by simp) (by simp)
    obtain ⟨qs, hreads', hvalues', htext'⟩ := exists_side rest hzone hcolon hdot
    have hlen : ps.length = L.head.length := by simpa using congrArg List.length hvalues
    have hlen' : qs.length = rest.length := by simpa using congrArg List.length hvalues'
    have h7 : L.head.length + rest.length ≤ 7 := by simpa [hr, hq] using hfits
    have := expandIpv6_compressed hreads hreads' (by omega)
    rw [htext, htext', hvalues, hvalues', append_nil] at this
    simp only [text, hr, hq, this, words, hlow, hlen, hlen', length_map, Option.getD_some]

theorem length_words : L.words.length = 8 := by
  have hfits := L.fits
  have hquad : ((L.quad.map (·.words)).getD []).length = if L.quad.isSome then 2 else 0 := by
    cases L.quad <;> simp [Quad.words]
  cases hr : L.rest <;> simp [hr] at hfits <;> simp [words, lowWords, hquad, hr] <;> omega

theorem word_le {w : Nat} (h : w ∈ L.words) : w ≤ 0xffff := by
  simp only [words, lowWords, mem_append, mem_map, mem_replicate] at h
  rcases h with (⟨g, -, rfl⟩ | ⟨-, rfl⟩) | ⟨g, -, rfl⟩ | h
  · exact g.value_le
  · omega
  · exact g.value_le
  · cases hq : L.quad with
    | none => simp [hq] at h
    | some q =>
      have ha : q.address < 2 ^ 32 := by
        obtain ⟨octets, size, bound⟩ := q
        match octets, size, bound with
        | [a, b, c, d], _, bound =>
          simp only [mem_cons, not_mem_nil, or_false, forall_eq_or_imp, forall_eq] at bound
          simp only [Quad.address, foldl_cons, foldl_nil]
          omega
      simp only [hq, Quad.words, Option.map_some, Option.getD_some, mem_cons,
        not_mem_nil, or_false] at h
      omega

end Ipv6Literal

end OpenBooks.Networking
