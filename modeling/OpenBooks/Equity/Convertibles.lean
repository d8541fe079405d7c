import OpenBooks.Equity.CapTable
import OpenBooks.Lib.Returns
import OpenBooks.Money.DecimalText

/-!
# Convertible instruments at a priced round

A SAFE or a note converts at the least of the round price, the discounted round
price and the price of its cap. The cap of a post-money SAFE is divided by the
company capitalization, which already counts every converted share, so the
capitalization is solved for: `companyCapitalization` takes the caps that bind for
shares of the total and lets the set of them grow until no further cap binds.
-/

namespace OpenBooks.Convertibles

open Checked Equity

/-! ### The instruments -/

inductive ConvertibleKind
  | safe
  | note
  deriving DecidableEq

inductive SafeType
  | preMoney
  | postMoney
  deriving DecidableEq

/-- The terms a conversion price reads. -/
structure ConvertibleTerms where
  id : String
  kind : ConvertibleKind
  safeType : Option SafeType
  valuationCap : Option String
  discountPercent : Option String

structure ConvertingInstrument where
  terms : ConvertibleTerms
  /-- The amount that converts, in the currency of the round. -/
  amount : Rational
  /-- The cap restated in that currency; absent, the stated cap. -/
  cap : Option (Option Rational)

/-- The name an error gives to a field. -/
inductive EquityTerm
  | valuationCap
  | discountPercent
  deriving DecidableEq

inductive ConvertError
  | decimalInvalid (label : EquityTerm)
  | decimalPrecision (label : EquityTerm) (places : ℕ)
  | postMoneyOverclaim
  | postMoneyUnsettled
  | arithmetic (e : RationalError)
  deriving DecidableEq

def arithmetic {β : Type} (x : Except RationalError β) : Except ConvertError β :=
  x.mapError .arithmetic

/-! ### Stated values -/

def MONEY_SCALE : ℕ := 4

def PERCENT_SCALE : ℕ := 4

/-- A nullable text that is not empty. -/
def given (text : Option String) : Option String := text.filter (· ≠ "")

/-- The units and the decimal places of a plain decimal, without its trailing zeros. -/
def decimalParts (label : EquityTerm) (maxScale : ℕ) (value : String) :
    Except ConvertError (ℤ × ℕ) :=
  let text := trim value.toList
  let negative := text.head? = some '-'
  let body := if negative then text.tail else text
  let whole := body.takeWhile Char.isDigit
  let point := body.dropWhile Char.isDigit
  let digits := point.drop 1
  if whole = [] ∨ ¬(point = [] ∨ point.head? = some '.' ∧ digits ≠ [] ∧ digits.all Char.isDigit)
  then .error (.decimalInvalid label)
  else
    let fraction := (digits.reverse.dropWhile (· = '0')).reverse
    if maxScale < fraction.length then .error (.decimalPrecision label maxScale)
    else
      let units : ℤ := digitsValue (whole ++ fraction)
      .ok (if negative then -units else units, fraction.length)

def parseDecimal (label : EquityTerm) (maxScale : ℕ) (value : String) :
    Except ConvertError Rational := do
  let (units, scale) ← decimalParts label maxScale value
  arithmetic (rational units (10 ^ scale))

def parseMoney (label : EquityTerm) (value : String) : Except ConvertError Rational :=
  parseDecimal label MONEY_SCALE value

def parsePercent (label : EquityTerm) (value : String) : Except ConvertError Rational := do
  let percent ← parseDecimal label PERCENT_SCALE value
  arithmetic (divideRational percent ⟨100, 1⟩)

def isPostMoney (terms : ConvertibleTerms) : Bool :=
  terms.kind = .safe ∧ terms.safeType = some .postMoney

def capOf (instrument : ConvertingInstrument) : Except ConvertError (Option Rational) :=
  match instrument.cap with
  | some cap => .ok cap
  | none =>
    match given instrument.terms.valuationCap with
    | none => .ok none
    | some text => some <$> parseMoney .valuationCap text

def discountedPrice (terms : ConvertibleTerms) (roundPrice : Rational) :
    Except ConvertError (Option Rational) :=
  match given terms.discountPercent with
  | none => .ok none
  | some text => do
    let discount ← parsePercent .discountPercent text
    let kept ← arithmetic (subtractRational ONE discount)
    some <$> arithmetic (multiplyRational roundPrice kept)

/-- The lower of the round price and the discounted price. -/
def uncappedPrice (terms : ConvertibleTerms) (roundPrice : Rational) :
    Except ConvertError Rational := do
  match ← discountedPrice terms roundPrice with
  | none => pure roundPrice
  | some discounted => pure (minRational roundPrice discounted)

/-- The price of an instrument whose cap does not divide by the capitalization. -/
def preRoundPrice (instrument : ConvertingInstrument) (roundPrice preRound : Rational) :
    Except ConvertError Rational := do
  let price ← uncappedPrice instrument.terms roundPrice
  match ← capOf instrument with
  | none => pure price
  | some cap =>
    if isPostMoney instrument.terms ∨ preRound.numerator = 0 then pure price
    else minRational price <$> arithmetic (divideRational cap preRound)

/-! ### The capitalization -/

def MAX_POST_MONEY_CLAIM : Rational := ⟨19, 20⟩

def sumRational (values : List Rational) : Except ConvertError Rational :=
  values.foldlM (fun sum value => arithmetic (addRational sum value)) ZERO

/-- The cap of a post-money SAFE. -/
def postMoneyCap (instrument : ConvertingInstrument) : Except ConvertError (Option Rational) :=
  if isPostMoney instrument.terms then capOf instrument else .ok none

/-- The ownership that the capped post-money SAFEs promise together. -/
def postMoneyClaim (instruments : List ConvertingInstrument) : Except ConvertError Rational := do
  let caps ← instruments.mapM fun instrument => do
    let cap ← postMoneyCap instrument
    pure (cap.map fun cap => (instrument.amount, cap))
  let claims ← (caps.filterMap id).mapM fun claim => arithmetic (divideRational claim.1 claim.2)
  sumRational claims

/-- The shares at a fixed price and the claims of the binding caps, one instrument
further. -/
def countInstrument (roundPrice preRound : Rational) (binding : List String)
    (sums : Rational × Rational) (instrument : ConvertingInstrument) :
    Except ConvertError (Rational × Rational) := do
  let cap ← capOf instrument
  match if isPostMoney instrument.terms ∧ instrument.terms.id ∈ binding then cap else none with
  | some cap =>
    let claim ← arithmetic (divideRational instrument.amount cap)
    let bindingClaim ← arithmetic (addRational sums.2 claim)
    pure (sums.1, bindingClaim)
  | none =>
    let price ← preRoundPrice instrument roundPrice preRound
    let shares ← arithmetic (divideRational instrument.amount price)
    let fixed ← arithmetic (addRational sums.1 shares)
    pure (fixed, sums.2)

/-- The binding set, and whether it grew, one instrument further. -/
def bindInstrument (roundPrice capitalization : Rational) (state : List String × Bool)
    (instrument : ConvertingInstrument) : Except ConvertError (List String × Bool) := do
  let cap ← capOf instrument
  match if isPostMoney instrument.terms ∧ instrument.terms.id ∉ state.1 then cap else none with
  | none => pure state
  | some cap =>
    let capPrice ← arithmetic (divideRational cap capitalization)
    let price ← uncappedPrice instrument.terms roundPrice
    if compareRational capPrice price ≤ 0 then pure (instrument.terms.id :: state.1, true)
    else pure state

/-- The passes of the solve; `passes` are left. -/
def settle (instruments : List ConvertingInstrument) (roundPrice preRound : Rational) :
    ℕ → List String → Except ConvertError Rational
  | 0, _ => .error .postMoneyUnsettled
  | passes + 1, binding => do
    let (fixed, bindingClaim) ←
      instruments.foldlM (countInstrument roundPrice preRound binding) (ZERO, ZERO)
    let total ← arithmetic (addRational preRound fixed)
    let rest ← arithmetic (subtractRational ONE bindingClaim)
    let capitalization ← arithmetic (divideRational total rest)
    let (binding, grew) ← instruments.foldlM (bindInstrument roundPrice capitalization) (binding, false)
    if grew then settle instruments roundPrice preRound passes binding
    else pure capitalization

def companyCapitalization (instruments : List ConvertingInstrument) (roundPrice : Rational)
    (preRoundFullyDiluted : ℤ) : Except ConvertError Rational := do
  let claim ← postMoneyClaim instruments
  if 0 ≤ compareRational claim MAX_POST_MONEY_CLAIM then .error .postMoneyOverclaim
  else do
    let preRound ← arithmetic (rational preRoundFullyDiluted 1)
    settle instruments roundPrice preRound (instruments.length + 2) []

end OpenBooks.Convertibles
