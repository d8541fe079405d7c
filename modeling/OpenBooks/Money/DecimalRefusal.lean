import OpenBooks.Money.DecimalText

/-!
# Why a decimal was refused

`canonicalDecimal` is one strict gate, and its one refusal covers several
mistakes with several remedies. `decimalNullCause` reads the mistake off the
text that was typed, and `decimalNullRefusal` names it with its remedy.
-/

namespace OpenBooks

/-- A value as it arrives, before anything is known of it. -/
inductive RawValue
  | undefined
  | null
  | boolean (b : Bool)
  | number (shown : String)
  | text (chars : List Char)
  | list
  | other (typeName : String)
  deriving DecidableEq

/-! ### Text as the language counts it -/

/-- How many sixteen-bit units a character takes. -/
def utf16Units (c : Char) : ℕ := if 0x10000 ≤ c.toNat then 2 else 1

/-- The length of text in sixteen-bit units. -/
def utf16Length (text : List Char) : ℕ := (text.map utf16Units).sum

/-- The characters of the first `n` sixteen-bit units. -/
def utf16Take : ℕ → List Char → List Char
  | _, [] => []
  | n, c :: rest => if utf16Units c ≤ n then c :: utf16Take (n - utf16Units c) rest else []

/-- Replace the first comma by a point. -/
def dotFirstComma : List Char → List Char
  | [] => []
  | c :: rest => if c = ',' then '.' :: rest else c :: dotFirstComma rest

/-- Text with an optional sign taken off. -/
def dropSign : List Char → List Char
  | '+' :: rest => rest
  | '-' :: rest => rest
  | text => text

/-! ### Classification -/

/-- Why text is not a canonical decimal. -/
inductive DecimalNullCause
  | jsonNumber
  | scale (decimals : ℕ)
  | separator (separator : String)
  | decimalComma (dotted : List Char)
  | ambiguousComma (grouped dotted : List Char)
  | currency (symbol : Char)
  | scientific
  | notANumber
  deriving DecidableEq

/-- Characters that group digits, the comma among them. -/
def isGrouping (c : Char) : Bool :=
  c ∈ [',', '_', '\'', Char.ofNat 0x2019] || isJsWhitespace c

/-- Plain digits with an optional fraction, or a leading-dot fraction. -/
def plainDecimal (text : List Char) : Option DecimalMatch :=
  (matchDecimal text).filter fun m => m.exponent = none

/-- A signed run of digits, the given mark, and a run of digits of an accepted length. -/
def digitsMarkDigits (mark : Char) (accepts : ℕ → Bool) (text : List Char) : Bool :=
  let body := dropSign text
  match body.dropWhile Char.isDigit with
  | m :: tail => body.takeWhile Char.isDigit ≠ [] ∧ m = mark ∧ tail.all Char.isDigit ∧
      accepts tail.length
  | [] => false

/-- Digits, a comma, and one or two digits. -/
def isDecimalComma (text : List Char) : Bool :=
  digitsMarkDigits ',' (fun n => n = 1 ∨ n = 2) text

/-- The last comma stands after the last point, and both stand there. -/
def commaAfterPoint (text : List Char) : Bool :=
  '.' ∈ text ∧ ',' ∈ text ∧ '.' ∉ text.reverse.takeWhile (· ≠ ',')

/-- How a grouping separator is called. -/
def groupingDisplay (text : List Char) : String :=
  match [',', '_', '\'', Char.ofNat 0x2019, ' ', Char.ofNat 0xa0, Char.ofNat 0x2009].find?
      (fun c => c ∈ text) with
  | none => ","
  | some c =>
    if c = ' ' then "space"
    else if c = Char.ofNat 0xa0 then "non-breaking space"
    else if c = Char.ofNat 0x2009 then "thin space"
    else String.ofList [c]

/-- `/[0-9][eE][+-]?[0-9]/`, anywhere in the text. -/
def hasExponent : List Char → Bool
  | [] => false
  | c :: rest =>
    (c.isDigit && match rest with
      | e :: tail => (e = 'e' || e = 'E') && ((dropSign tail).head?.any Char.isDigit)
      | [] => false) || hasExponent rest

/-- Grouped digits, and which reading of their separators is meant. -/
def groupedCause (text ungrouped : List Char) : DecimalNullCause :=
  let dotted := dotFirstComma (text.filter (· ≠ '.'))
  let commaKept := text.filter fun c => c = ',' || !isGrouping c
  if commaAfterPoint text && digitsMarkDigits '.' (fun n => n ≠ 0) dotted then .decimalComma dotted
  else if !(text.filter (· ≠ ',')).any isGrouping && isDecimalComma text then
    .decimalComma (dotFirstComma text)
  else if !(text.filter (· ≠ ',')).any isGrouping && '.' ∉ text && text.count ',' = 1 then
    .ambiguousComma ungrouped (dotFirstComma text)
  else if commaKept ≠ text && isDecimalComma commaKept then .decimalComma (dotFirstComma commaKept)
  else .separator (groupingDisplay text)

/-- Why a value is not a canonical decimal. -/
def decimalNullCause : RawValue → DecimalNullCause
  | .number _ => .jsonNumber
  | .text chars =>
    let text := trim chars
    match plainDecimal text with
    | some m => .scale m.fraction.length
    | none =>
      let ungrouped := text.filter fun c => !isGrouping c
      if ungrouped ≠ text ∧ (plainDecimal ungrouped).isSome then groupedCause text ungrouped
      else if !text.any Char.isDigit then .notANumber
      else match ['$', '€', '£', '¥', '₹', '₩'].find? (fun c => c ∈ text) with
        | some symbol => .currency symbol
        | none => if hasExponent text then .scientific else .notANumber
  | _ => .notANumber

/-- What was supplied, short enough to be read. -/
def suppliedValue : RawValue → String
  | .number shown => shown
  | .boolean b => if b then "true" else "false"
  | .text chars =>
    if 40 < utf16Length chars then
      String.ofList (utf16Take 40 chars) ++ "… (" ++ toString (utf16Length chars) ++ " characters)"
    else String.ofList chars
  | .list => "a list"
  | .null => "a null"
  | .undefined => "a undefined"
  | .other typeName => "a " ++ typeName

/-- The refusal that names the cause, the value received and the remedy. -/
def decimalNullRefusal (field noun : String) (raw : RawValue) (maxScale : ℕ) : String :=
  let shown := "\"" ++ suppliedValue raw ++ "\""
  match decimalNullCause raw with
  | .jsonNumber => s!"{field} must be sent as a decimal string, not a JSON number — re-enter the amount as text and try again"
  | .scale decimals => s!"{field} allows at most {maxScale} decimal places — got {decimals} in {shown}; round to fewer decimals and try again"
  | .separator separator => s!"{field} must not contain a thousands separator — remove {separator} from {shown} and try again, using \".\" for decimals"
  | .decimalComma dotted => s!"{field} must use \".\" as the decimal point — write {shown} as \"" ++
      String.ofList dotted ++ "\" and try again"
  | .ambiguousComma grouped dotted => s!"{field} is ambiguous — {shown} could mean " ++
      String.ofList grouped ++ " (thousands separator) or " ++ String.ofList dotted ++
      " (decimal comma); retype it in plain digits with \".\" for decimals"
  | .currency symbol => s!"{field} must not contain a currency symbol — remove {symbol} from {shown} and try again"
  | .scientific => s!"{field} must be written out in full, not in scientific notation — expand {shown} to plain digits and try again"
  | .notANumber => s!"{field} must be {noun} — {shown} is not a number"

example : decimalNullCause (.text "1.234,56".toList) = .decimalComma "1234.56".toList := by decide
example : decimalNullCause (.text "1,234".toList) =
    .ambiguousComma "1234".toList "1.234".toList := by decide

end OpenBooks
