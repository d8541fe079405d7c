import OpenBooks.Lib.HalfAway

/-!
# Ledger money

Ledger money is a decimal of four places (`numeric(19,4)`), and the engine does
all its arithmetic on the integer it is ten-thousandths of. The model keeps that
integer: an amount is its number of ten-thousandths (`SCALE`), so adding,
negating and comparing are the integer operations, and the text form
(`fromUnits`) is what a message prints. Exchange rates are kept the
same way, as the integer they are ten-billionths of (`RATE_SCALE`).

The one operation with content is rounding, and there is one rounding:
`roundDiv`, halves away from zero. It is `HalfAway.round`, so its theory
is that file's.
-/

namespace OpenBooks

/-- Ten-thousandths in one unit of money. -/
def SCALE : ℤ := 10000

/-- Ten-billionths in one unit of an exchange rate. -/
def RATE_SCALE : ℤ := 10000000000

theorem SCALE_pos : 0 < SCALE := by decide

theorem RATE_SCALE_pos : 0 < RATE_SCALE := by decide

/-! ### Text -/

/-- Left-pad `text` with `fill` to `width` characters, leaving longer text alone. -/
def padStart (width : ℕ) (fill : Char) (text : String) : String :=
  String.ofList (List.replicate (width - text.length) fill) ++ text

/-- The canonical four-decimal text of an amount. -/
def fromUnits (u : ℤ) : String :=
  (if u < 0 then "-" else "") ++ toString (u.natAbs / 10000) ++ "." ++
    padStart 4 '0' (toString (u.natAbs % 10000))

example : fromUnits (-12345) = "-1.2345" := by decide

def jsonChar (c : Char) : String :=
  if c = '"' then "\\\"" else if c = '\\' then "\\\\"
  else if c = '\n' then "\\n" else if c = '\r' then "\\r" else if c = '\t' then "\\t"
  else if c.toNat = 8 then "\\b" else if c.toNat = 12 then "\\f"
  else if c.toNat < 32 then
    "\\u" ++ padStart 4 '0' (String.ofList (Nat.toDigits 16 c.toNat))
  else String.ofList [c]

def jsonString (s : String) : String :=
  "\"" ++ String.join (s.toList.map jsonChar) ++ "\""

/-! ### Rounding -/

/-- Round an exact rational to the nearest integer, halves away from zero. The
source refuses a denominator that is not positive; every caller divides by a
positive number. -/
def roundDiv (numerator denominator : ℤ) : ℤ :=
  let negative := numerator < 0
  let absolute := if negative then -numerator else numerator
  let rounded := (absolute + denominator / 2) / denominator
  if negative then -rounded else rounded

theorem roundDiv_eq_round (n d : ℤ) : roundDiv n d = HalfAway.round n d := by
  rcases lt_or_ge n 0 with h | h
  · simp [roundDiv, HalfAway.round_of_neg h, h]
  · simp [roundDiv, HalfAway.round_of_nonneg h, not_lt.mpr h]

/-- The functional amount of a transaction amount at an exchange rate. -/
def mulRate (amount : ℤ) (rate : ℤ) : ℤ :=
  roundDiv (amount * rate) RATE_SCALE

/-! ### Products

A money amount is kept to four decimals; the kernel rounds a product once, half away from
zero, to the number of decimals asked for. -/

/-- What a whole multiple of is kept when an amount is rounded to some decimals. -/
def quantum (decimalPlaces : ℕ) : ℤ := 10 ^ (4 - decimalPlaces)

theorem quantum_pos (decimalPlaces : ℕ) : 0 < quantum decimalPlaces := by
  unfold quantum
  positivity

/-- Round a ledger value to a requested precision. -/
def roundMoney (value : ℤ) (decimalPlaces : ℕ) : ℤ :=
  roundDiv value (quantum decimalPlaces) * quantum decimalPlaces

/-- Quantity times unit amount. -/
def mul (a b : ℤ) : ℤ := roundDiv (a * b) SCALE

/-- A plain decimal percentage: `units` over ten to the `places`, at most 18 of them. -/
structure PlainPercent where
  units : ℤ
  places : ℕ
  places_le : places ≤ 18 := by decide

theorem four_places_le : 4 ≤ 18 := by decide

/-- A percentage of money, rounded once. -/
def mulPercent (amount : ℤ) (percent : PlainPercent) (decimalPlaces : ℕ) : ℤ :=
  roundDiv (amount * percent.units) (100 * 10 ^ percent.places * quantum decimalPlaces) *
    quantum decimalPlaces

/-- An amount times a ratio, rounded to ledger precision. The source refuses a negative
numerator and a denominator that is not positive, which its callers here never have. -/
def mulRatio (amount numerator denominator : ℤ) : ℤ := roundDiv (amount * numerator) denominator

/-- Fixed-width decimal formatting. -/
def formatMoney (value : ℤ) (decimalPlaces : ℕ) : String :=
  let text := (fromUnits (roundMoney value decimalPlaces)).toList
  let whole := text.takeWhile (· ≠ '.')
  let fraction := (text.dropWhile (· ≠ '.')).drop 1
  if decimalPlaces = 0 then String.ofList whole
  else String.ofList (whole ++ '.' :: fraction.take decimalPlaces)

end OpenBooks
