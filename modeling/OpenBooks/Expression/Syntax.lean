import OpenBooks.Money.DecimalRefusal
import OpenBooks.Money.Rational

/-!
# Formulas: units, nodes and tokens

The expression language prices formulas over declared inputs. Every node carries a unit
(`ExpressionType`): a plain number, hours, a truth value, or money and hourly rates of one currency.
Literals are written without a unit and take the one around them, so the unit of a literal node – a
number, or a negated one (`Node.isLiteral`) – is the one field of a node that is ever changed after
the node is made.
-/

namespace OpenBooks

open Checked

/-! ### Refusals -/

inductive ExpressionCode
  | invalidExpression
  | invalidInput
  | typeMismatch
  | limit
  | divisionByZero
  deriving DecidableEq

structure ExpressionError where
  code : ExpressionCode
  message : String
  deriving DecidableEq

/-- The first sixteen-bit unit of a character, as a JSON string literal: of a character
above the basic plane, the escape of a lone surrogate. -/
def jsonUnit (c : Char) : String :=
  if 0x10000 ≤ c.toNat then
    "\"\\u" ++ String.ofList (Nat.toDigits 16 (0xd800 + (c.toNat - 0x10000) / 0x400)) ++ "\""
  else jsonString (String.ofList [c])

/-! ### Limits -/

namespace EXPRESSION_LIMITS

def characters : ℕ := 4096
def tokens : ℕ := 512
def depth : ℕ := 32
def inputs : ℕ := 128
def decimalCharacters : ℕ := 64

end EXPRESSION_LIMITS

/-! ### Units -/

/-- The unit of an expression. -/
inductive ExpressionType
  | scalar
  | hours
  | boolean
  | money (currency : String)
  | hourlyRate (currency : String)
  deriving DecidableEq

/-- How a unit is called. -/
def typeLabel : ExpressionType → String
  | .scalar => "scalar"
  | .hours => "hours"
  | .boolean => "boolean"
  | .money currency => "money (" ++ currency ++ ")"
  | .hourlyRate currency => "hourly_rate (" ++ currency ++ ")"

/-- Units are the same when they are called the same. -/
def sameType (a b : ExpressionType) : Bool := typeLabel a = typeLabel b

/-- Units are called differently when they differ. -/
theorem typeLabel_injective : Function.Injective typeLabel := by
  intro a b h
  have hlist := congrArg String.toList h
  cases a <;> cases b <;> simp [typeLabel] at hlist ⊢
  all_goals exact String.toList_injective hlist

@[simp] theorem sameType_iff {a b : ExpressionType} : sameType a b = true ↔ a = b := by
  simp [sameType, typeLabel_injective.eq_iff]

/-- The unit of a product or a quotient. -/
def productType (a b : ExpressionType) (divide : Bool) : Except ExpressionError ExpressionType :=
  match a, b, divide with
  | a, .scalar, _ => .ok a
  | .scalar, b, false => .ok b
  | a, b, true =>
    if sameType a b then .ok .scalar
    else match a, b with
      | .money currency, .hours => .ok (.hourlyRate currency)
      | .money currency, .hourlyRate other =>
        if currency = other then .ok .hours else incompatible a b true
      | _, _ => incompatible a b true
  | .hours, .hourlyRate currency, false => .ok (.money currency)
  | .hourlyRate currency, .hours, false => .ok (.money currency)
  | a, b, false => incompatible a b false
where
  /-- No product of these units has a unit. -/
  incompatible (a b : ExpressionType) (divide : Bool) : Except ExpressionError ExpressionType :=
    .error ⟨.typeMismatch, "Cannot " ++ (if divide then "divide" else "multiply") ++ " " ++
      typeLabel a ++ " by " ++ typeLabel b ++
      " — use an explicit scalar factor or a compatible hours and hourly-rate pair."⟩

/-! ### Nodes -/

/-- The functions of the language. -/
inductive FunctionName
  | min
  | max
  | clamp
  | ite
  | and
  | or
  | not
  deriving DecidableEq

def FunctionName.ofText (name : String) : Option FunctionName :=
  [("min", min), ("max", max), ("clamp", clamp), ("if", ite), ("and", and), ("or", or),
    ("not", not)].lookup name

/-- The binary operators. -/
inductive Operator
  | add
  | sub
  | mul
  | div
  | lt
  | le
  | gt
  | ge
  | eq
  | ne
  deriving DecidableEq

/-- The nodes of an expression, each with its unit. -/
inductive Node
  | literal (value : Rational) (type : ExpressionType)
  | input (name : String) (type : ExpressionType)
  | negate (operand : Node) (type : ExpressionType)
  | binary (operator : Operator) (left right : Node) (type : ExpressionType)
  | call (name : FunctionName) (arguments : List Node) (type : ExpressionType)

namespace Node

/-- The unit of a node. -/
def type : Node → ExpressionType
  | .literal _ type | .input _ type | .negate _ type | .binary _ _ _ type | .call _ _ type => type

/-- The node with another unit; what is below it keeps its own. -/
def withType (t : ExpressionType) : Node → Node
  | .literal value _ => .literal value t
  | .input name _ => .input name t
  | .negate operand _ => .negate operand t
  | .binary operator left right _ => .binary operator left right t
  | .call name arguments _ => .call name arguments t

/-- A number, or a negated one. -/
def isLiteral : Node → Bool
  | .literal _ _ => true
  | .negate operand _ => operand.isLiteral
  | _ => false

@[simp] theorem type_withType (t : ExpressionType) (n : Node) : (n.withType t).type = t := by
  cases n <;> rfl

@[simp] theorem withType_self (n : Node) : n.withType n.type = n := by
  cases n <;> rfl

/-- Refuse a truth value where an amount is needed. -/
def numeric (node : Node) : Except ExpressionError Unit :=
  refuseIf (node.type = .boolean) ⟨.typeMismatch,
    "A boolean cannot be used as an amount — use if(condition, yes, no) to choose a numeric value."⟩

/-- A literal without a unit takes the unit of the node it stands beside. -/
def adopt (node beside : Node) : Node :=
  if node.isLiteral ∧ node.type = .scalar ∧ beside.type ≠ .boolean then node.withType beside.type
  else node

end Node

/-- Two nodes of one unit, once a literal among them has taken the other's. -/
def matching (a b : Node) (operation : String) : Except ExpressionError (Node × Node) := do
  let a := a.adopt b
  let b := b.adopt a
  refuseIf (!sameType a.type b.type) (⟨.typeMismatch, operation ++
    " requires matching units; received " ++ typeLabel a.type ++ " and " ++ typeLabel b.type ++
    " — use values in the same currency and unit."⟩ : ExpressionError)
  return (a, b)

/-! ### Fractions and decimals -/

/-- A fraction, with the refusals of a formula. -/
def formulaRational (numerator denominator : ℤ) : Except ExpressionError Rational :=
  match rational numerator denominator with
  | .ok r => .ok r
  | .error .divisionByZero => .error ⟨.divisionByZero,
    "The formula divides by zero — correct the divisor or use if(condition, yes, no) to handle a zero input."⟩
  | .error .limit => .error ⟨.limit,
    "The formula exceeds the exact-arithmetic limit — simplify repeated multiplication or division before trying again."⟩

def RawValue.text? : RawValue → Option (List Char)
  | .text chars => some chars
  | _ => none

/-- Read a decimal of at most fifteen whole digits and eighteen places. -/
def decimal (raw : RawValue) (label : String) : Except ExpressionError Rational := do
  refuseIf (∃ chars ∈ raw.text?, EXPRESSION_LIMITS.decimalCharacters < utf16Length chars)
    (⟨.limit, s!"{label} exceeds 64 characters — enter a plain decimal with at most 15 whole digits and 18 decimal places."⟩ :
      ExpressionError)
  let text ← orRefuse (raw.text?.bind fun chars => canonicalDecimal chars 18)
    (⟨.invalidInput, decimalNullRefusal label "a decimal" raw 18⟩ : ExpressionError)
  let negative := text.head? = some '-'
  let unsigned := if negative then text.tail else text
  let whole := unsigned.takeWhile (· ≠ '.')
  let fraction := (unsigned.dropWhile (· ≠ '.')).tail
  refuseIf (15 < (whole.dropWhile (· = '0')).length)
    (⟨.limit, s!"{label} allows at most 15 whole digits — reduce the value before trying again."⟩ :
      ExpressionError)
  let units : ℤ := digitsValue (whole ++ fraction)
  formulaRational (if negative then -units else units) (10 ^ fraction.length)

example : decimal (.text "-12.50".toList) "x" = .ok ⟨-25, 2⟩ := by decide

end OpenBooks
