import OpenBooks.Money.DecimalText
import OpenBooks.Platform.CivilDate

/-!
# Text for fixed-width bank records

Every field of a NACHA, CPA-005 or Bacs record sits at a fixed offset of an ASCII file, so
text is folded to printable ASCII before it is measured. A character with no ASCII
spelling is refused by name: `asciiRailText` returns printable text or nothing
(`asciiRailText_eq_ok`).

The compatibility decomposition of a character is Unicode's, and a parameter here: no
result below depends on it, since what it leaves is checked.
-/

namespace OpenBooks

open Checked FixedWidth

/-! ### Refusals -/

/-- What a writer throws: its own refusal, or the one of the date code it calls. -/
inductive RailError where
  | payment (message : String)
  | range (message : String)

def quoted (text : List Char) : String := "\"" ++ String.ofList text ++ "\""

/-! ### Shapes of text -/

/-- `/^\d+$/` with a bound on the number of digits. -/
def isDigits (low high : ℕ) (text : List Char) : Bool :=
  low ≤ text.length && text.length ≤ high && text.all Char.isDigit

theorem isDigits_iff {low high : ℕ} {text : List Char} :
    isDigits low high text = true ↔
      (low ≤ text.length ∧ text.length ≤ high) ∧ ∀ c ∈ text, c.isDigit = true := by
  simp [isDigits]

/-- The decimal spelling of a whole number. -/
def integerText : ℤ → List Char
  | .ofNat n => Nat.toDigits 10 n
  | .negSucc n => '-' :: Nat.toDigits 10 (n + 1)

theorem integerText_of_nonneg {n : ℤ} (h : 0 ≤ n) : integerText n = Nat.toDigits 10 n.toNat := by
  obtain ⟨k, rfl⟩ := Int.eq_ofNat_of_zero_le h
  rfl

/-- A required setting that was left out: blank, or still the placeholder. -/
def isUnset (value : List Char) : Bool :=
  trim value = [] || value.tails.any ("FILL-ME".toList.isPrefixOf ·)

/-! ### Folding -/

def LETTER_FOLDS : List (Char × List Char) :=
  [('ß', "ss".toList), ('ẞ', "SS".toList), ('Æ', "AE".toList), ('æ', "ae".toList),
    ('Œ', "OE".toList), ('œ', "oe".toList), ('Ø', "O".toList), ('ø', "o".toList),
    ('Đ', "D".toList), ('đ', "d".toList), ('Ð', "D".toList), ('ð', "d".toList),
    ('Ł', "L".toList), ('ł', "l".toList), ('Þ', "TH".toList), ('þ', "th".toList),
    ('ı', "i".toList), ('Ħ', "H".toList), ('ħ', "h".toList), ('‘', "'".toList),
    ('’', "'".toList), ('‚', "'".toList), ('“', "\"".toList), ('”', "\"".toList),
    ('„', "\"".toList), ('‐', "-".toList), ('‑', "-".toList), ('‒', "-".toList),
    ('–', "-".toList), ('—', "-".toList)]

def isCombiningMark (c : Char) : Bool := 0x300 ≤ c.toNat && c.toNat ≤ 0x36f

section Folding

variable (nfkd : Char → List Char)

/-- The ASCII spelling of a character, if it has one. -/
def foldCharacter (c : Char) : List Char :=
  (LETTER_FOLDS.lookup c).getD ((nfkd c).filter fun d => !isCombiningMark d)

/-- The text folded to printable ASCII, or the first character without a spelling. -/
def foldToAscii : List Char → Except Char (List Char)
  | [] => .ok []
  | c :: rest =>
    if Printable (foldCharacter nfkd c) then do
      let text ← foldToAscii rest
      return foldCharacter nfkd c ++ text
    else .error c

/-- The folded text, checked or not. -/
def foldedText (value : List Char) : List Char := value.flatMap (foldCharacter nfkd)

def PAYEE_NAME_REMEDY : String :=
  "Edit the payee's name to Latin letters without that character, then generate the file again."

def ORIGINATOR_REMEDY : String :=
  "Edit the originator details on the payment bank profile to Latin letters, then generate " ++
    "the file again."

def asciiRailText (value : List Char) (rail field remedy : String) :
    Except RailError (List Char) :=
  match foldToAscii nfkd value with
  | .ok text => .ok text
  | .error character => .error (.payment (rail ++ " " ++ field ++ " " ++ quoted value ++
      " contains " ++ quoted [character] ++ ", which has no ASCII spelling — " ++ rail ++
      " records are fixed-width ASCII and it would shift every field after it. " ++ remedy))

variable {nfkd}

theorem foldToAscii_eq_ok {value text : List Char} :
    foldToAscii nfkd value = .ok text ↔
      text = foldedText nfkd value ∧ Printable (foldedText nfkd value) := by
  induction value generalizing text with
  | nil =>
    rw [foldToAscii, foldedText, List.flatMap_nil, Except.ok.injEq, eq_comm]
    exact (and_iff_left (by simp [Printable])).symm
  | cons c rest ih =>
    have hcons : foldedText nfkd (c :: rest) = foldCharacter nfkd c ++ foldedText nfkd rest :=
      List.flatMap_cons
    rw [foldToAscii, hcons, printable_append]
    by_cases hc : Printable (foldCharacter nfkd c)
    · rw [if_pos hc]
      simp only [bind_eq_ok, pure_eq_ok, ih, hc, true_and]
      constructor
      · rintro ⟨_, ⟨rfl, hrest⟩, rfl⟩
        exact ⟨rfl, hrest⟩
      · rintro ⟨rfl, hrest⟩
        exact ⟨_, ⟨rfl, hrest⟩, rfl⟩
    · rw [if_neg hc]
      simp [hc]

/-- **A text is accepted exactly when its fold is printable**, and then it is the fold. -/
theorem asciiRailText_eq_ok {value text : List Char} {rail field remedy : String} :
    asciiRailText nfkd value rail field remedy = .ok text ↔
      text = foldedText nfkd value ∧ Printable (foldedText nfkd value) := by
  rw [← foldToAscii_eq_ok, asciiRailText]
  cases foldToAscii nfkd value <;> simp

end Folding

/-- The decomposition of the letters of `Béton`: an accented letter and its mark. -/
def acuteNfkd (c : Char) : List Char := if c = 'é' then ['e', Char.ofNat 0x301] else [c]

example : foldToAscii acuteNfkd "Béton ß".toList = .ok "Beton ss".toList := by decide +kernel

end OpenBooks
