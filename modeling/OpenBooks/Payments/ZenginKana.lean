import OpenBooks.Payments.RailText

/-!
# The Zengin kana channel

Names on a Zengin file are half-width katakana, ASCII capitals, digits and sixteen symbols:
the characters that Shift_JIS writes in one byte each. `toZenginKana` folds a text
to them character by character – full-width forms and hiragana have a mechanical reading,
kanji has none and is refused. A voiced kana becomes two half-width characters, so the fold of
a text may be longer than the text.

What comes out is on the channel (`toZenginKana_mem`), folds to itself
(`toZenginKana_idempotent`), and begins with as many blanks as the text does
(`isBlank_take_toZenginKana`).
-/

namespace OpenBooks

open Checked FixedWidth List Bool

/-! ### The tables -/

/-- Full-width katakana and punctuation, with their half-width forms. -/
def HALF_KATAKANA : List (Char × List Char) :=
  [('ァ', "ｧ".toList), ('ア', "ｱ".toList), ('ィ', "ｨ".toList), ('イ', "ｲ".toList),
    ('ゥ', "ｩ".toList), ('ウ', "ｳ".toList), ('ェ', "ｪ".toList), ('エ', "ｴ".toList),
    ('ォ', "ｫ".toList), ('オ', "ｵ".toList), ('カ', "ｶ".toList), ('ガ', "ｶﾞ".toList),
    ('キ', "ｷ".toList), ('ギ', "ｷﾞ".toList), ('ク', "ｸ".toList), ('グ', "ｸﾞ".toList),
    ('ケ', "ｹ".toList), ('ゲ', "ｹﾞ".toList), ('コ', "ｺ".toList), ('ゴ', "ｺﾞ".toList),
    ('サ', "ｻ".toList), ('ザ', "ｻﾞ".toList), ('シ', "ｼ".toList), ('ジ', "ｼﾞ".toList),
    ('ス', "ｽ".toList), ('ズ', "ｽﾞ".toList), ('セ', "ｾ".toList), ('ゼ', "ｾﾞ".toList),
    ('ソ', "ｿ".toList), ('ゾ', "ｿﾞ".toList), ('タ', "ﾀ".toList), ('ダ', "ﾀﾞ".toList),
    ('チ', "ﾁ".toList), ('ヂ', "ﾁﾞ".toList), ('ッ', "ｯ".toList), ('ツ', "ﾂ".toList),
    ('ヅ', "ﾂﾞ".toList), ('テ', "ﾃ".toList), ('デ', "ﾃﾞ".toList), ('ト', "ﾄ".toList),
    ('ド', "ﾄﾞ".toList), ('ナ', "ﾅ".toList), ('ニ', "ﾆ".toList), ('ヌ', "ﾇ".toList),
    ('ネ', "ﾈ".toList), ('ノ', "ﾉ".toList), ('ハ', "ﾊ".toList), ('バ', "ﾊﾞ".toList),
    ('パ', "ﾊﾟ".toList), ('ヒ', "ﾋ".toList), ('ビ', "ﾋﾞ".toList), ('ピ', "ﾋﾟ".toList),
    ('フ', "ﾌ".toList), ('ブ', "ﾌﾞ".toList), ('プ', "ﾌﾟ".toList), ('ヘ', "ﾍ".toList),
    ('ベ', "ﾍﾞ".toList), ('ペ', "ﾍﾟ".toList), ('ホ', "ﾎ".toList), ('ボ', "ﾎﾞ".toList),
    ('ポ', "ﾎﾟ".toList), ('マ', "ﾏ".toList), ('ミ', "ﾐ".toList), ('ム', "ﾑ".toList),
    ('メ', "ﾒ".toList), ('モ', "ﾓ".toList), ('ャ', "ｬ".toList), ('ヤ', "ﾔ".toList),
    ('ュ', "ｭ".toList), ('ユ', "ﾕ".toList), ('ョ', "ｮ".toList), ('ヨ', "ﾖ".toList),
    ('ラ', "ﾗ".toList), ('リ', "ﾘ".toList), ('ル', "ﾙ".toList), ('レ', "ﾚ".toList),
    ('ロ', "ﾛ".toList), ('ヮ', "ﾜ".toList), ('ワ', "ﾜ".toList), ('ヰ', "ｲ".toList),
    ('ヱ', "ｴ".toList), ('ヲ', "ｦ".toList), ('ン', "ﾝ".toList), ('ヴ', "ｳﾞ".toList),
    ('ー', "ｰ".toList), ('。', "｡".toList), ('、', "､".toList), ('・', "･".toList),
    ('「', "｢".toList), ('」', "｣".toList)]

/-- Full-width symbols, and the yen signs. -/
def ZENGIN_SYMBOLS : List (Char × List Char) :=
  [('－', ['-']), ('／', ['/']), ('．', ['.']), ('，', [',']), ('（', ['(']), ('）', [')']),
    ('＆', ['&']), ('＄', ['$']), ('％', ['%']), ('＋', ['+']), ('；', [';']), ('＝', ['=']),
    ('＊', ['*']), ('＠', ['@']), ('　', [' ']), ('￥', ['\\']), ('¥', ['\\'])]

def ASCII_PUNCT : List Char :=
  [' ', '-', '/', '.', ',', '(', ')', '&', '$', '%', '+', ';', '=', '*', '@', '\\']

/-! ### The fold -/

def isHalfKatakana (c : Char) : Bool := 0xff61 ≤ c.toNat && c.toNat ≤ 0xff9f

/-- A hiragana character as katakana. -/
def toKatakana (c : Char) : Char :=
  if 0x3041 ≤ c.toNat ∧ c.toNat ≤ 0x3096 then Char.ofNat (c.toNat + (0x30a1 - 0x3041)) else c

/-- The half-width form of a character, if it has a mechanical reading. -/
def zenginCharacter (c : Char) : Option (List Char) :=
  let code := c.toNat
  if c.isLower then some [c.toUpper]
  else if c.isUpper || c.isDigit then some [c]
  else if c ∈ ASCII_PUNCT then some [c]
  else if isHalfKatakana c then some [c]
  else if 0xff21 ≤ code ∧ code ≤ 0xff3a then some [Char.ofNat (code - 0xff21 + 0x41)]
  else if 0xff41 ≤ code ∧ code ≤ 0xff5a then some [Char.ofNat (code - 0xff41 + 0x41)]
  else if 0xff10 ≤ code ∧ code ≤ 0xff19 then some [Char.ofNat (code - 0xff10 + 0x30)]
  else (HALF_KATAKANA.lookup (toKatakana c)).or (ZENGIN_SYMBOLS.lookup (toKatakana c))

/-- The half-width form of a text, if all of it has a mechanical reading. -/
def toZenginKana : List Char → Option (List Char)
  | [] => some []
  | c :: rest => do
    let half ← zenginCharacter c
    let later ← toZenginKana rest
    return half ++ later

example : toZenginKana "ガス　１ｂ".toList = some "ｶﾞｽ 1B".toList := by decide +kernel

example : toZenginKana "山田".toList = none := by decide +kernel

/-! ### The channel -/

def isZenginChannel (c : Char) : Bool :=
  c.isUpper || c.isDigit || decide (c ∈ ASCII_PUNCT) || isHalfKatakana c

def isWideBlank (c : Char) : Bool := c = ' ' || c = '　'

/-- What a character folds to: characters of the channel, of which the first is a blank just
when the character was. -/
structure Folds (c : Char) (half : List Char) : Prop where
  channel : ∀ d ∈ half, isZenginChannel d = true
  blank : isWideBlank c = true → half = [' ']
  head : isWideBlank c = false → ∃ d rest, half = d :: rest ∧ d ≠ ' '

variable {c : Char}

theorem Folds.single {d : Char} (hc : isWideBlank c = false) (hd : isZenginChannel d = true)
    (hne : d ≠ ' ') : Folds c [d] where
  channel := by simpa using hd
  blank h := by rw [hc] at h; cases h
  head _ := ⟨d, [], rfl, hne⟩

theorem Folds.self (hc : isZenginChannel c = true) (hne : c ≠ '　') : Folds c [c] where
  channel := by simpa using hc
  blank h := by
    have : c = ' ' := by simpa [isWideBlank, hne] using h
    rw [this]
  head h := ⟨c, [], rfl, by simpa [isWideBlank, hne] using h⟩

theorem mem_kana_table {table : List (Char × List Char)} {half : List Char}
    (h : table.lookup c = some half) : (c, half) ∈ table := by
  obtain ⟨before, after, rfl, -⟩ := List.lookup_eq_some_iff.mp h
  simp

theorem halfKatakana_channel : ∀ p ∈ HALF_KATAKANA, (∀ d ∈ p.2, isZenginChannel d = true) ∧
    p.2.head?.any (· ≠ ' ') = true ∧ p.1 ≠ '　' := by
  have hall : (HALF_KATAKANA.all fun p => p.2.all isZenginChannel &&
      p.2.head?.any (· ≠ ' ') && p.1 != '　') = true := by decide +kernel
  intro p hp
  have h := all_eq_true.mp hall p hp
  simp only [and_eq_true, all_eq_true, bne_iff_ne] at h
  exact ⟨h.1.1, h.1.2, h.2⟩

theorem zenginSymbols_channel : ∀ p ∈ ZENGIN_SYMBOLS, (∀ d ∈ p.2, isZenginChannel d = true) ∧
    (p.1 = '　' → p.2 = [' ']) ∧ (p.1 ≠ '　' → p.2.head?.any (· ≠ ' ') = true) := by
  have hall : (ZENGIN_SYMBOLS.all fun p => p.2.all isZenginChannel &&
      (p.1 != '　' || p.2 == [' ']) && (p.1 == '　' || p.2.head?.any (· ≠ ' '))) = true := by
    decide +kernel
  intro p hp
  have h := all_eq_true.mp hall p hp
  simp only [and_eq_true, all_eq_true, or_eq_true, bne_iff_ne, beq_iff_eq] at h
  exact ⟨h.1.1, fun heq => h.1.2.resolve_left fun hne => hne heq,
    fun hne => h.2.resolve_left hne⟩

theorem exists_head {half : List Char} (h : half.head?.any (· ≠ ' ') = true) :
    ∃ d rest, half = d :: rest ∧ d ≠ ' ' := by
  cases half with
  | nil => cases h
  | cons d rest => exact ⟨d, rest, rfl, by simpa using h⟩

theorem forall_codes {low high : ℕ} {P : ℕ → Prop} (h : ∀ n < high + 1 - low, P (low + n)) {code : ℕ}
    (hcode : low ≤ code ∧ code ≤ high) : P code := by
  have := h (code - low) (by omega)
  rwa [Nat.add_sub_cancel' hcode.1] at this

theorem toKatakana_ne (hc : c ≠ '　') : toKatakana c ≠ '　' := by
  unfold toKatakana
  split_ifs with hrange
  · exact forall_codes (P := fun code => Char.ofNat (code + (0x30a1 - 0x3041)) ≠ '　')
      (by decide +kernel) hrange
  · exact hc

theorem isWideBlank_of_code (h : 0x21 ≤ c.toNat) (h' : c.toNat ≠ 0x3000) :
    isWideBlank c = false := by
  rw [isWideBlank, or_eq_false_iff, decide_eq_false_iff_not, decide_eq_false_iff_not]
  constructor
  · rintro rfl
    exact absurd h (by decide)
  · rintro rfl
    exact h' (by decide)

theorem Folds.shifted {low high base : ℕ} (hrange : low ≤ c.toNat ∧ c.toNat ≤ high)
    (hlow : 0x21 ≤ low ∧ (0x3000 < low ∨ high < 0x3000))
    (h : ∀ n < high + 1 - low, isZenginChannel (Char.ofNat (low + n - low + base)) = true ∧
      Char.ofNat (low + n - low + base) ≠ ' ') : Folds c [Char.ofNat (c.toNat - low + base)] := by
  obtain ⟨hchannel, hne⟩ := forall_codes
    (P := fun code => isZenginChannel (Char.ofNat (code - low + base)) = true ∧
      Char.ofNat (code - low + base) ≠ ' ') h hrange
  exact .single (isWideBlank_of_code (by omega) (by omega)) hchannel hne

theorem toNat_of_isLower (h : c.isLower = true) : 97 ≤ c.toNat ∧ c.toNat ≤ 122 := by
  have hrange : (decide ('a'.val ≤ c.val) && decide (c.val ≤ 'z'.val)) = true := h
  rw [and_eq_true, decide_eq_true_eq, decide_eq_true_eq] at hrange
  exact hrange

/-- **Whatever a character folds to** is on the channel, and a blank only if it was one. -/
theorem zenginCharacter_folds {half : List Char} (h : zenginCharacter c = some half) :
    Folds c half := by
  unfold zenginCharacter at h
  dsimp only at h
  split_ifs at h with hlower hcapital hpunct hhalf hwideUpper hwideLower hwideDigit
  · cases h
    have hrange := toNat_of_isLower hlower
    obtain ⟨hchannel, hne⟩ := forall_codes
      (P := fun code => isZenginChannel (Char.ofNat code).toUpper = true ∧
        (Char.ofNat code).toUpper ≠ ' ') (by decide +kernel) hrange
    rw [Char.ofNat_toNat] at hchannel hne
    exact .single (isWideBlank_of_code (by omega) (by omega)) hchannel hne
  · cases h
    refine .self (by simp [isZenginChannel, hcapital]) ?_
    rintro rfl
    exact absurd hcapital (by decide)
  · cases h
    refine .self (by simp [isZenginChannel, hpunct]) ?_
    rintro rfl
    exact absurd hpunct (by decide)
  · cases h
    refine .self (by simp [isZenginChannel, hhalf]) ?_
    rintro rfl
    exact absurd hhalf (by decide)
  · cases h
    exact .shifted hwideUpper (by decide) (by decide +kernel)
  · cases h
    exact .shifted hwideLower (by decide) (by decide +kernel)
  · cases h
    exact .shifted hwideDigit (by decide) (by decide +kernel)
  · have hspace : c ≠ ' ' := by
      rintro rfl
      exact hpunct (by decide)
    rcases Option.or_eq_some_iff.mp h with h | ⟨-, h⟩
    · obtain ⟨hchannel, hhead, hne⟩ := halfKatakana_channel _ (mem_kana_table h)
      refine ⟨hchannel, fun hblank => ?_, fun _ => exists_head hhead⟩
      have hc : c = '　' := by simpa [isWideBlank, hspace] using hblank
      subst hc
      exact absurd (show toKatakana '　' = '　' by decide) hne
    · obtain ⟨hchannel, hwide, hother⟩ := zenginSymbols_channel _ (mem_kana_table h)
      refine ⟨hchannel, fun hblank => ?_, fun hblank => ?_⟩
      · have hc : c = '　' := by simpa [isWideBlank, hspace] using hblank
        subst hc
        exact hwide (show toKatakana '　' = '　' by decide)
      · have hc : c ≠ '　' := by
          rintro rfl
          cases hblank
        exact exists_head (hother (toKatakana_ne hc))

/-! ### The fold of a text -/

section Kana

variable {value half : List Char}

theorem toZenginKana_cons {rest : List Char} :
    toZenginKana (c :: rest) = some half ↔
      ∃ first later, zenginCharacter c = some first ∧ toZenginKana rest = some later ∧
        half = first ++ later := by
  simp only [toZenginKana, Option.bind_eq_bind, Option.bind_eq_some_iff, Option.pure_def,
    Option.some.injEq]
  constructor
  · rintro ⟨first, hfirst, later, hlater, rfl⟩
    exact ⟨first, later, hfirst, hlater, rfl⟩
  · rintro ⟨first, later, hfirst, hlater, rfl⟩
    exact ⟨first, hfirst, later, hlater, rfl⟩

/-- **A fold is on the channel.** -/
theorem toZenginKana_mem (h : toZenginKana value = some half) :
    ∀ d ∈ half, isZenginChannel d = true := by
  induction value generalizing half with
  | nil =>
    cases h
    simp
  | cons c rest ih =>
    obtain ⟨first, later, hfirst, hlater, rfl⟩ := toZenginKana_cons.mp h
    intro d hd
    rcases mem_append.mp hd with hd | hd
    · exact (zenginCharacter_folds hfirst).channel d hd
    · exact ih hlater d hd

theorem not_isLower_of_channel (h : isZenginChannel c = true) : c.isLower = false := by
  rw [eq_false_iff]
  intro hlower
  have hrange := toNat_of_isLower hlower
  have hnone := forall_codes (P := fun code => isZenginChannel (Char.ofNat code) = false)
    (by decide +kernel) hrange
  rw [Char.ofNat_toNat, h] at hnone
  cases hnone

theorem zenginCharacter_of_channel (h : isZenginChannel c = true) :
    zenginCharacter c = some [c] := by
  have hlower := not_isLower_of_channel h
  simp only [isZenginChannel, or_eq_true, decide_eq_true_eq] at h
  rw [zenginCharacter, hlower, if_neg Bool.false_ne_true]
  by_cases hcapital : (c.isUpper || c.isDigit) = true
  · rw [if_pos hcapital]
  · rw [if_neg hcapital]
    by_cases hpunct : c ∈ ASCII_PUNCT
    · rw [if_pos hpunct]
    · have hhalf : isHalfKatakana c = true := by
        rw [or_eq_true] at hcapital
        exact h.resolve_left fun h => h.elim hcapital hpunct
      rw [if_neg hpunct, if_pos hhalf]

theorem toZenginKana_of_channel (h : ∀ d ∈ half, isZenginChannel d = true) :
    toZenginKana half = some half := by
  induction half with
  | nil => rfl
  | cons c rest ih =>
    obtain ⟨hc, hrest⟩ := forall_mem_cons.mp h
    exact toZenginKana_cons.mpr ⟨[c], rest, zenginCharacter_of_channel hc, ih hrest, rfl⟩

/-- **A fold folds to itself.** -/
theorem toZenginKana_idempotent (h : toZenginKana value = some half) :
    toZenginKana half = some half :=
  toZenginKana_of_channel (toZenginKana_mem h)

/-- **A fold begins with as many blanks as its text.** -/
theorem isBlank_take_toZenginKana (h : toZenginKana value = some half) (n : ℕ) :
    isBlank (half.take n) = true ↔ ∀ c ∈ value.take n, isWideBlank c = true := by
  induction value generalizing half n with
  | nil =>
    cases h
    simp [isBlank]
  | cons c rest ih =>
    obtain ⟨first, later, hfirst, hlater, rfl⟩ := toZenginKana_cons.mp h
    have hfolds := zenginCharacter_folds hfirst
    cases n with
    | zero => simp [isBlank]
    | succ n =>
      rw [take_succ_cons, forall_mem_cons]
      cases hblank : isWideBlank c with
      | true =>
        have := ih hlater n
        rw [hfolds.blank hblank, singleton_append, take_succ_cons, ← this]
        simp [isBlank]
      | false =>
        obtain ⟨d, more, rfl, hd⟩ := hfolds.head hblank
        simp [isBlank, hd]

end Kana

end OpenBooks
