import OpenBooks.Money.Units

/-!
# Decimal text

The two readers of decimal text that the engine has, and the one grammar they
share. A decimal is a sign, digits with at most one point among them, and
possibly an exponent; `matchDecimal` is that grammar, reading the parts
off the text.

* `parseExactDecimalParts` and `renderExactDecimal` are the
  exact form at the request boundary – scaled units and a scale – and
  `canonicalPlainDecimal` composes them, refusing an exponent and any
  scale above the one asked for.
* `toUnits` is the money reader: four places, exponents expanded, and a
  refusal when a digit past the fourth place would be lost.

Text is a list of characters throughout, since both readers work digit by digit.
-/

namespace OpenBooks

/-! ### Characters -/

/-- White space as the language's `trim` and `\s` see it. -/
def isJsWhitespace (c : Char) : Bool :=
  c ∈ ['\t', '\n', Char.ofNat 0x0b, Char.ofNat 0x0c, '\r', ' ', Char.ofNat 0xa0,
    Char.ofNat 0x1680, Char.ofNat 0x2028, Char.ofNat 0x2029, Char.ofNat 0x202f,
    Char.ofNat 0x205f, Char.ofNat 0x3000, Char.ofNat 0xfeff] ||
    (0x2000 ≤ c.toNat && c.toNat ≤ 0x200a)

/-- Text without its leading and trailing white space. -/
def trim (text : List Char) : List Char :=
  ((text.dropWhile isJsWhitespace).reverse.dropWhile isJsWhitespace).reverse

/-- The number a run of digits spells; the empty run spells zero. -/
def digitsValue (ds : List Char) : ℕ :=
  ds.foldl (fun n c => 10 * n + (c.toNat - '0'.toNat)) 0

/-- `digits` padded on the left with zeros to `width`. -/
def padStartZeros (width : ℕ) (digits : List Char) : List Char :=
  List.replicate (width - digits.length) '0' ++ digits

/-- `digits` padded on the right with zeros to `width`. -/
def padEndZeros (width : ℕ) (digits : List Char) : List Char :=
  digits ++ List.replicate (width - digits.length) '0'

/-- Some digit is not zero. -/
def hasNonzeroDigit (ds : List Char) : Bool := ds.any (fun c => c != '0')

/-! ### The grammar -/

/-- The parts of a decimal: sign, whole digits, fraction digits, exponent. -/
structure DecimalMatch where
  negative : Bool
  whole : List Char
  fraction : List Char
  exponent : Option ℤ

/-- A signed run of digits, whole: the exponent part of a decimal. -/
def matchExponent (text : List Char) : Option ℤ :=
  let (negative, digits) := match text with
    | '-' :: rest => (true, rest)
    | '+' :: rest => (false, rest)
    | rest => (false, rest)
  if digits ≠ [] ∧ digits.all Char.isDigit then
    some (if negative then -(digitsValue digits : ℤ) else digitsValue digits)
  else none

/-- `/^([+-]?)(\d+(?:\.\d*)?|\.\d+)(?:[eE]([+-]?\d+))?$/`, with its groups. -/
def matchDecimal (text : List Char) : Option DecimalMatch :=
  let (negative, body) := match text with
    | '-' :: rest => (true, rest)
    | '+' :: rest => (false, rest)
    | rest => (false, rest)
  let whole := body.takeWhile Char.isDigit
  let (fraction, rest) := match body.dropWhile Char.isDigit with
    | '.' :: rest => (rest.takeWhile Char.isDigit, rest.dropWhile Char.isDigit)
    | rest => ([], rest)
  -- the two alternatives of the mantissa: digits first, or a point and digits
  if whole = [] ∧ fraction = [] then none
  else match rest with
    | [] => some ⟨negative, whole, fraction, none⟩
    | e :: tail =>
      if e = 'e' ∨ e = 'E' then
        (matchExponent tail).map fun x => ⟨negative, whole, fraction, some x⟩
      else none

/-! ### Exact decimals at the request boundary -/

/-- The widest exponent either reader expands. -/
def MAX_EXACT_EXPONENT : ℤ := 10000

/-- An exact decimal as scaled units plus its scale. -/
structure ExactDecimal where
  units : ℤ
  scale : ℕ

/-- Read exact decimal text into scaled units. -/
def parseExactDecimalParts (raw : List Char) (allowScientific : Bool) : Option ExactDecimal := do
  let m ← matchDecimal (trim raw)
  if !allowScientific && m.exponent.isSome then none
  else
    let exponent := m.exponent.getD 0
    if MAX_EXACT_EXPONENT < |exponent| then none
    else
      let digits := digitsValue (m.whole ++ m.fraction)
      let scale : ℤ := m.fraction.length - exponent
      -- a negative scale is written out as trailing zeros
      let units : ℤ := if scale < 0 then digits * 10 ^ (-scale).toNat else digits
      some ⟨if m.negative then -units else units, scale.toNat⟩

/-- Drop leading zeros, keeping the last character. -/
def dropLeadingZeros (ds : List Char) : List Char :=
  match ds.dropWhile (· == '0') with
  | [] => ['0']
  | rest => rest

/-- Canonical trimmed decimal text of scaled units. -/
def renderExactDecimal (units : ℤ) (scale : ℕ) : List Char :=
  let negative := units < 0
  let digits := (toString units.natAbs).toList
  if scale = 0 then (if negative then ['-'] else []) ++ digits
  else
    let padded := padStartZeros (scale + 1) digits
    let whole := dropLeadingZeros (padded.take (padded.length - scale))
    let fraction := ((padded.drop (padded.length - scale)).reverse.dropWhile (· == '0')).reverse
    let zero := whole = ['0'] ∧ fraction = []
    (if negative ∧ ¬zero then ['-'] else []) ++ whole ++
      (if fraction = [] then [] else '.' :: fraction)

/-- Plain decimal text within `maxScale` places, or nothing. -/
def canonicalPlainDecimal (value : List Char) (maxScale : ℕ) : Option (List Char) := do
  let parts ← parseExactDecimalParts value false
  if maxScale < parts.scale then none else some (renderExactDecimal parts.units parts.scale)

/-- Financial boundaries require text and refuse scientific notation. -/
def canonicalDecimal (value : List Char) (maxScale : ℕ) : Option (List Char) :=
  canonicalPlainDecimal value maxScale

/-! ### The money reader -/

/-- `/^-?\d+\.\d{4}$/`, the canonical stored form, with its sign and digits. -/
def matchCanonicalMoney (s : List Char) : Option (Bool × List Char) :=
  let (negative, body) := match s with
    | '-' :: rest => (true, rest)
    | rest => (false, rest)
  let whole := body.takeWhile Char.isDigit
  match body.dropWhile Char.isDigit with
  | '.' :: fraction =>
    if whole ≠ [] ∧ fraction.length = 4 ∧ fraction.all Char.isDigit then
      some (negative, whole ++ fraction)
    else none
  | _ => none

/-- The general path of the money reader: exponents are expanded, and a digit past
the fourth place refuses. -/
def toUnitsGeneral (s : List Char) : Option ℤ := do
  let m ← matchDecimal (trim s)
  let exp := m.exponent.getD 0
  if MAX_EXACT_EXPONENT < |exp| then none
  else
    let n := exp.natAbs
    let (intPart, fracPart) :=
      if 0 < exp then
        let frac := padEndZeros n m.fraction
        (m.whole ++ frac.take n, frac.drop n)
      else if exp < 0 then
        let int := padStartZeros n m.whole
        (int.take (int.length - n), int.drop (int.length - n) ++ m.fraction)
      else (m.whole, m.fraction)
    if 4 < fracPart.length ∧ hasNonzeroDigit (fracPart.drop 4) then none
    else
      let frac := (fracPart ++ ['0', '0', '0', '0']).take 4
      let units := digitsValue intPart * SCALE + digitsValue frac
      some (if m.negative then -units else units)

/-- Read money text, the canonical stored form as one integer of its digits. -/
def toUnits (s : List Char) : Option ℤ :=
  match matchCanonicalMoney s with
  | some (negative, digits) =>
    some (if negative then -(digitsValue digits : ℤ) else digitsValue digits)
  | none => toUnitsGeneral s

example : toUnits "-1.23553031E3".toList = none := by decide
example : toUnits "12.5".toList = some 125000 := by decide
example : canonicalDecimal "007.50".toList 4 = some "7.5".toList := by decide

end OpenBooks
