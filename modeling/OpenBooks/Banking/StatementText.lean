import OpenBooks.Lib.Checked
import OpenBooks.Money.DecimalText

/-!
# Statement sources

Every statement format is parsed from decoded text, and the text is checked once: a leading byte
order mark is dropped and control characters other than tab, line feed and carriage return are
refused (`validateStatementText`). The model takes the text as it comes out of the
platform's decoder.
-/

namespace OpenBooks

open Checked

structure BankingError where
  message : String
  deriving DecidableEq

/-- The byte order mark. -/
def BOM : Char := Char.ofNat 0xfeff

/-- `[\u0000-\u0008\u000b\u000c\u000e-\u001f\u007f-\u009f]`. -/
def isUnsupportedControl (c : Char) : Bool :=
  c.toNat ≤ 0x08 || c.toNat = 0x0b || c.toNat = 0x0c || (0x0e ≤ c.toNat && c.toNat ≤ 0x1f) ||
    (0x7f ≤ c.toNat && c.toNat ≤ 0x9f)

/-- Text without its leading byte order mark. -/
def withoutBom : List Char → List Char
  | [] => []
  | c :: rest => if c = BOM then rest else c :: rest

def validateStatementText (text : List Char) : Except BankingError (List Char) := do
  refuseIf ((withoutBom text).any isUnsupportedControl)
    (⟨"Statement source contains unsupported control characters"⟩ : BankingError)
  return withoutBom text

/-- Text that does not start with the mark and holds no unsupported control is left alone. -/
theorem validateStatementText_of_plain {text : List Char} (hbom : text.head? ≠ some BOM)
    (hplain : ∀ c ∈ text, isUnsupportedControl c = false) :
    validateStatementText text = .ok text := by
  have hkept : withoutBom text = text := by
    cases text with
    | nil => rfl
    | cons c rest => exact if_neg fun h => hbom (congrArg some h)
  have hnone : ¬text.any isUnsupportedControl = true := by simpa using hplain
  rw [validateStatementText, hkept, refuseIf, if_neg hnone]
  rfl

end OpenBooks
