import OpenBooks.Expression.Parser

/-!
# Evaluating formulas

`evaluate` computes a node exactly, and `CompiledExpression.evaluate`
is what callers run: it reads the inputs that the formula names, evaluates the tree,
and rounds an amount once.

The source leaves some things to its type checker. An input is read without asking
whether it has a value, and operands are compared without asking whether one is a truth
value and the other a number. The model asks: an evaluation ends in an
`EvaluationFault`, which is either a refusal of the language or one of these
events, so that a run says whether the checker was right.
-/

namespace OpenBooks

open Checked

/-- The value of a node. -/
inductive Value
  | number (r : Rational)
  | boolean (b : Bool)
  deriving DecidableEq

/-- How an evaluation ends without a value. -/
inductive EvaluationFault
  /-- A refusal of the language. -/
  | refused (e : ExpressionError)
  /-- The read of an input that has no value, or no type. -/
  | unboundInput (name : String)
  /-- A truth value against a number. -/
  | mixedOperands
  /-- The read of an argument that a call does not have. -/
  | missingArgument

/-- A refusal ends an evaluation. -/
def refused (x : Except ExpressionError α) : Except EvaluationFault α :=
  x.mapError .refused

/-! ### Values -/

/-- An amount. -/
def Value.asRational : Value → Except EvaluationFault Rational
  | .number r => .ok r
  | .boolean _ => .error (.refused ⟨.typeMismatch,
    "A boolean cannot be priced as an amount — select a numeric branch with if."⟩)

def numberOperation (operator : Operator) (left right : Rational) :
    Except EvaluationFault Value :=
  match operator with
  | .add => .number <$> refused (formulaRational
      (left.numerator * right.denominator + right.numerator * left.denominator)
      (left.denominator * right.denominator))
  | .sub => .number <$> refused (formulaRational
      (left.numerator * right.denominator - right.numerator * left.denominator)
      (left.denominator * right.denominator))
  | .mul => .number <$> refused (formulaRational (left.numerator * right.numerator)
      (left.denominator * right.denominator))
  | .div => .number <$> refused (formulaRational (left.numerator * right.denominator)
      (left.denominator * right.numerator))
  | .lt => .ok (.boolean (compareRational left right < 0))
  | .le => .ok (.boolean (compareRational left right ≤ 0))
  | .gt => .ok (.boolean (compareRational left right > 0))
  | .ge => .ok (.boolean (compareRational left right ≥ 0))
  | .eq => .ok (.boolean (compareRational left right = 0))
  | .ne => .ok (.boolean (compareRational left right ≠ 0))

def binaryOperation (operator : Operator) :
    Value → Value → Except EvaluationFault Value
  | .number left, .number right => numberOperation operator left right
  | .boolean left, .boolean right =>
    .ok (.boolean (if operator = .eq then left = right else left ≠ right))
  | _, _ => .error .mixedOperands

/-- One value held within two others. -/
def clampValue : List Rational → Except EvaluationFault Rational
  | value :: low :: high :: _ =>
    if 0 < compareRational low high then .error (.refused ⟨.invalidInput,
      "clamp has a lower bound above its upper bound — put its bounds in ascending order."⟩)
    else .ok (if compareRational value low < 0 then low
      else if 0 < compareRational value high then high else value)
  | _ => .error .missingArgument

/-- The first value that no other is below, or above. -/
def extremeValue (sign : ℤ) : List Rational → Except EvaluationFault Rational
  | first :: rest => .ok (rest.foldl
      (fun chosen value => if compareRational value chosen * sign < 0 then value else chosen) first)
  | [] => .error .missingArgument

/-! ### Trees -/

mutual

/-- The exact value of a node. -/
def evaluate (inputs : String → Option Value) : Node → Except EvaluationFault Value
  | .literal value _ => .ok (.number value)
  | .input name _ => orRefuse (inputs name) (.unboundInput name)
  | .negate operand _ => do
    let value ← (← evaluate inputs operand).asRational
    return .number ⟨-value.numerator, value.denominator⟩
  | .binary operator left right _ => do
    let left ← evaluate inputs left
    let right ← evaluate inputs right
    binaryOperation operator left right
  -- only the branch that is selected is evaluated
  | .call .ite (condition :: yes :: no :: _) _ => do
    let value ← evaluate inputs condition
    if value = .boolean true then evaluate inputs yes else evaluate inputs no
  | .call .ite _ _ => .error .missingArgument
  | .call .and args _ => .boolean <$> evaluateEvery inputs args
  | .call .or args _ => .boolean <$> evaluateSome inputs args
  | .call .not (arg :: _) _ => do
    let value ← evaluate inputs arg
    return .boolean (value ≠ .boolean true)
  | .call .not [] _ => .error .missingArgument
  | .call .clamp args _ => do .number <$> clampValue (← evaluateAmounts inputs args)
  | .call .min args _ => do .number <$> extremeValue 1 (← evaluateAmounts inputs args)
  | .call .max args _ => do .number <$> extremeValue (-1) (← evaluateAmounts inputs args)

/-- Whether every argument is true, up to the first that is not. -/
def evaluateEvery (inputs : String → Option Value) : List Node → Except EvaluationFault Bool
  | [] => .ok true
  | arg :: args => do
    let value ← evaluate inputs arg
    if value = .boolean true then evaluateEvery inputs args else return false

/-- Whether some argument is true, up to the first that is. -/
def evaluateSome (inputs : String → Option Value) : List Node → Except EvaluationFault Bool
  | [] => .ok false
  | arg :: args => do
    let value ← evaluate inputs arg
    if value = .boolean true then return true else evaluateSome inputs args

/-- The amounts of the arguments. -/
def evaluateAmounts (inputs : String → Option Value) :
    List Node → Except EvaluationFault (List Rational)
  | [] => .ok []
  | arg :: args => do
    let value ← (← evaluate inputs arg).asRational
    let values ← evaluateAmounts inputs args
    return value :: values

end

/-! ### Rounding -/

inductive RoundingMode
  | halfAwayFromZero
  | halfEven
  | towardsZero
  deriving DecidableEq

structure ExpressionRounding where
  scale : ℕ
  mode : RoundingMode
  maxWholeDigits : ℕ

/-- A fraction rounded to an integer. -/
def roundedUnits (mode : RoundingMode) (numerator denominator : ℤ) : ℤ :=
  let units := numerator.tdiv denominator
  match mode with
  | .halfAwayFromZero => roundDiv numerator denominator
  | .towardsZero => units
  | .halfEven =>
    let remainder := numerator.tmod denominator
    let twice := (if remainder < 0 then -remainder else remainder) * 2
    if denominator < twice ∨ (twice = denominator ∧ units.tmod 2 ≠ 0) then
      units + (if numerator < 0 then -1 else 1)
    else units

/-- The digits before the point of scaled units. -/
def wholeDigits (scale : ℕ) (units : ℤ) : List Char :=
  Nat.toDigits 10 (units.natAbs / 10 ^ scale)

def decimalText (scale : ℕ) (units : ℤ) : List Char :=
  let sign := if units < 0 then ['-'] else []
  if scale = 0 then sign ++ wholeDigits scale units
  else sign ++ wholeDigits scale units ++ '.' ::
    padStartZeros scale (Nat.toDigits 10 (units.natAbs % 10 ^ scale))

/-- An amount at the declared scale. -/
def rounded (value : Rational) (rounding : ExpressionRounding) :
    Except ExpressionError (List Char) := do
  refuseIf (18 < rounding.scale ∨ rounding.maxWholeDigits < 1 ∨ 15 < rounding.maxWholeDigits)
    (⟨.invalidInput, "Declare a rounding mode, a scale from 0 through 18, and a whole-digit limit from 1 through 15 before pricing the formula."⟩ :
      ExpressionError)
  let units := roundedUnits rounding.mode (value.numerator * 10 ^ rounding.scale) value.denominator
  refuseIf (rounding.maxWholeDigits < (wholeDigits rounding.scale units).length)
    (⟨.limit, "The rounded formula result exceeds " ++ toString rounding.maxWholeDigits ++
      " whole digits — reduce the inputs or correct the formula before saving."⟩ : ExpressionError)
  return decimalText rounding.scale units

/-! ### Running a compiled expression -/

/-- A result, or an input as it was taken: a truth value or decimal text. -/
inductive Shown
  | boolean (b : Bool)
  | decimal (text : List Char)

def RawValue.boolean? : RawValue → Option Bool
  | .boolean b => some b
  | _ => none

def readInput (types : List (String × ExpressionType)) (rawInputs : List (String × RawValue))
    (name : String) : Except EvaluationFault (String × Value × Shown) := do
  let raw := (rawInputs.lookup name).getD .undefined
  refused (refuseIf (raw = .undefined ∨ raw = .null) ⟨.invalidInput, "Formula input " ++
    jsonString name ++
    " is missing — supply it before calculating; missing values never become zero."⟩)
  let type ← orRefuse (types.lookup name) (.unboundInput name)
  if type = .boolean then do
    let b ← orRefuse raw.boolean? (.refused ⟨.invalidInput, "Formula input " ++ jsonString name ++
      " must be a boolean — send true or false."⟩)
    return (name, .boolean b, .boolean b)
  else do
    let value ← refused (decimal raw ("Formula input " ++ jsonString name))
    let evidence := (raw.text?.bind fun chars => canonicalDecimal chars 18).getD []
    return (name, .number value, .decimal evidence)

/-- Evaluate a compiled expression on a record of inputs (`none` when it is not one). -/
def CompiledExpression.evaluate (compiled : CompiledExpression)
    (rawInputs : Option (List (String × RawValue))) (rounding : ExpressionRounding) :
    Except EvaluationFault (Shown × List (String × Shown)) := do
  let rawInputs ← orRefuse rawInputs (.refused ⟨.invalidInput,
    "Formula inputs must be a record of declared values — supply each required input."⟩)
  let read ← compiled.dependencies.mapM (readInput compiled.types rawInputs)
  let values := read.map fun input => (input.1, input.2.1)
  let evidence := read.map fun input => (input.1, input.2.2)
  match ← OpenBooks.evaluate (fun name => values.lookup name) compiled.root with
  | .boolean b => return (.boolean b, evidence)
  | .number r => do
    let text ← refused (rounded r rounding)
    return (.decimal text, evidence)

end OpenBooks
