import OpenBooks.Expression.Syntax
import Mathlib.Data.List.Sort
import Mathlib.Data.String.Basic

/-!
# The formula compiler

Source text becomes tokens (`tokenize`), tokens a tree of nodes, and the units are checked while the
tree is built. The parser is a recursive descent,

* `expression` – a sum, or a comparison of two,
* `sum` and `product` – chains of operators,
* `factor` – a sign, parentheses, a number, an input or a call,

in which only `factor` goes one level deeper. It refuses at a fixed depth, so the recursion is on
the levels that are left, and each of the others is a function of the factor it is built over. The
loops of a chain run at most once for every token that is left, and are bounded by that.
-/

namespace OpenBooks

open Checked

/-! ### Tokens -/

inductive TokenKind
  | number
  | identifier
  | symbol
  deriving DecidableEq

structure Token where
  kind : TokenKind
  text : String

/-- `/^(?:\d+(?:\.\d+)?|\.\d+)/`. -/
def numberPrefix (rest : List Char) : List Char :=
  let whole := rest.takeWhile Char.isDigit
  let fraction := match rest.dropWhile Char.isDigit with
    | '.' :: tail => tail.takeWhile Char.isDigit
    | _ => []
  if fraction = [] then whole else whole ++ '.' :: fraction

def isNameStart (c : Char) : Bool := c.isAlpha || c = '_'

def isNameChar (c : Char) : Bool := c.isAlphanum || c = '_'

/-- `/^[A-Za-z_][A-Za-z0-9_]*/`. -/
def identifierPrefix (rest : List Char) : List Char :=
  if rest.head?.any isNameStart then rest.takeWhile isNameChar else []

/-- `/^(?:<=|>=|==|!=|[+\-*/<>() ,])/`. -/
def symbolPrefix : List Char → List Char
  | '<' :: '=' :: _ => ['<', '=']
  | '>' :: '=' :: _ => ['>', '=']
  | '=' :: '=' :: _ => ['=', '=']
  | '!' :: '=' :: _ => ['!', '=']
  | c :: _ => if c ∈ ['+', '-', '*', '/', '<', '>', '(', ')', ' ', ','] then [c] else []
  | [] => []

/-- The token at the front of the text. -/
def nextToken (rest : List Char) : Option Token :=
  if numberPrefix rest ≠ [] then some ⟨.number, String.ofList (numberPrefix rest)⟩
  else if identifierPrefix rest ≠ [] then
    some ⟨.identifier, String.ofList (identifierPrefix rest)⟩
  else if symbolPrefix rest ≠ [] then some ⟨.symbol, String.ofList (symbolPrefix rest)⟩
  else none

/-- The tokens of the text, once `skip` characters of a token already read are passed. -/
def tokenizeFrom : List Char → ℕ → List Token → Except ExpressionError (List Token)
  | [], _, result => .ok result
  | _ :: rest, skip + 1, result => tokenizeFrom rest skip result
  | c :: rest, 0, result =>
    if isJsWhitespace c then tokenizeFrom rest 0 result
    else do
      let token ← orRefuse (nextToken (c :: rest))
        (⟨.invalidExpression, "The formula contains " ++ jsonUnit c ++
          " — use decimal values, declared inputs, arithmetic, comparisons, and min/max/clamp/if/and/or/not."⟩ :
          ExpressionError)
      refuseIf (EXPRESSION_LIMITS.tokens < result.length + 1)
        (⟨.limit, "The formula exceeds 512 tokens — split or simplify the expression."⟩ :
          ExpressionError)
      tokenizeFrom rest (token.text.length - 1) (result ++ [token])

def tokenize (source : List Char) : Except ExpressionError (List Token) := do
  refuseIf (trim source = []) (⟨.invalidExpression,
    "The formula is empty — enter an expression before previewing it."⟩ : ExpressionError)
  refuseIf (EXPRESSION_LIMITS.characters < utf16Length source) (⟨.limit,
    "The formula exceeds 4096 characters — simplify it before trying again."⟩ : ExpressionError)
  tokenizeFrom source 0 []

/-! ### Parser state -/

/-- The tokens that are left, and the inputs named so far. -/
structure ParserState where
  tokens : List Token
  dependencies : List String

/-- A part of the parser. -/
abbrev Parser := ParserState → Except ExpressionError (Node × ParserState)

namespace ParserState

/-- Take the next token if it reads `text`. -/
def take (s : ParserState) (text : String) : Option ParserState :=
  match s.tokens with
  | token :: rest => if token.text = text then some { s with tokens := rest } else none
  | [] => none

/-- Take the next token if it is one of the operators. -/
def takeOperator (s : ParserState) (operators : List (String × Operator)) :
    Option (Operator × ParserState) :=
  match s.tokens with
  | token :: rest => (operators.lookup token.text).map fun o => (o, { s with tokens := rest })
  | [] => none

/-- Note that an input is named. -/
def depend (s : ParserState) (name : String) : ParserState :=
  { s with
    dependencies := if name ∈ s.dependencies then s.dependencies else s.dependencies ++ [name] }

end ParserState

/-! ### Chains of operators -/

section Chain

variable (factor : Parser)

/-- Multiply or divide while there is an operator, `fuel` being the tokens left. -/
def productLoop : ℕ → Node → Parser
  | 0, left, s => .ok (left, s)
  | fuel + 1, left, s =>
    match s.takeOperator [("*", .mul), ("/", .div)] with
    | none => .ok (left, s)
    | some (operator, s) => do
      let (right, s) ← factor s
      left.numeric
      right.numeric
      let type ← productType left.type right.type (operator = .div)
      productLoop fuel (.binary operator left right type) s

def product : Parser := fun s => do
  let (left, s) ← factor s
  productLoop factor s.tokens.length left s

/-- Add or subtract while there is an operator. -/
def sumLoop : ℕ → Node → Parser
  | 0, left, s => .ok (left, s)
  | fuel + 1, left, s =>
    match s.takeOperator [("+", .add), ("-", .sub)] with
    | none => .ok (left, s)
    | some (operator, s) => do
      let (right, s) ← product factor s
      left.numeric
      right.numeric
      let (left, right) ← matching left right "Addition or subtraction"
      sumLoop fuel (.binary operator left right left.type) s

def sum : Parser := fun s => do
  let (left, s) ← product factor s
  sumLoop factor s.tokens.length left s

def comparisons : List (String × Operator) :=
  [("<", .lt), ("<=", .le), (">", .gt), (">=", .ge), ("==", .eq), ("!=", .ne)]

def expression : Parser := fun s => do
  let (left, s) ← sum factor s
  match s.takeOperator comparisons with
  | none => return (left, s)
  | some (operator, s) => do
    let (right, s) ← sum factor s
    let (left, right) ← matching left right "Comparison"
    onlyIf (operator ≠ .eq ∧ operator ≠ .ne) left.numeric
    onlyIf (operator ≠ .eq ∧ operator ≠ .ne) right.numeric
    return (.binary operator left right .boolean, s)

end Chain

/-! ### Calls -/

/-- The arguments of a call, up to the last that no comma follows. -/
def argumentsLoop (expression : Parser) : ℕ → List Node → ParserState →
    Except ExpressionError (List Node × ParserState)
  -- no token is left that could be a comma
  | 0, args, s => do
    let (arg, s) ← expression s
    return (args ++ [arg], s)
  | fuel + 1, args, s => do
    let (arg, s) ← expression s
    match s.take "," with
    | some s => argumentsLoop expression fuel (args ++ [arg]) s
    | none => return (args ++ [arg], s)

def alignArgument (name : String) (anchor : ℕ) (args : List Node) (j : ℕ) :
    Except ExpressionError (List Node) :=
  match args[anchor]?, args[j]? with
  | some a, some b => do
    b.numeric
    let (a, b) ← matching a b name
    return (args.set anchor a).set j b
  | _, _ => .ok args

/-- The anchor of a choice: its first argument that is not a literal, or its first. -/
def anchorOf (args : List Node) : ℕ :=
  (args.findIdx? fun arg => !arg.isLiteral).getD 0

/-- Every argument in the unit of the anchor. -/
def alignArguments (name : String) (args : List Node) : Except ExpressionError (List Node) :=
  (List.range args.length).foldlM (alignArgument name (anchorOf args)) args

/-- How many arguments a function takes. -/
def checkCount (name : String) (function : FunctionName) (count : ℕ) :
    Except ExpressionError Unit :=
  match function with
  | .ite | .clamp => refuseIf (count ≠ 3)
    ⟨.invalidExpression, name ++ " takes exactly three arguments — correct the call."⟩
  | .not => refuseIf (count ≠ 1)
    ⟨.invalidExpression, "not takes exactly one boolean argument — correct the call."⟩
  | _ => refuseIf (count = 0)
    ⟨.invalidExpression, name ++ " needs at least one argument — supply its values."⟩

def conditionalNode (args : List Node) : Except ExpressionError Node :=
  match args with
  | [condition, yes, no] => do
    refuseIf (condition.type ≠ .boolean) (⟨.typeMismatch,
      "if requires a boolean condition — use a comparison or a declared boolean input."⟩ :
      ExpressionError)
    let (yes, no) ← matching yes no "The branches of if"
    return .call .ite [condition, yes, no] yes.type
  -- a conditional of another number of arguments is refused before
  | _ => .error ⟨.invalidExpression, "if takes exactly three arguments — correct the call."⟩

def connectiveNode (name : String) (function : FunctionName) (args : List Node) :
    Except ExpressionError Node := do
  refuseIf (∃ arg ∈ args, arg.type ≠ .boolean) (⟨.typeMismatch, name ++
    " requires boolean arguments — use comparisons or declared boolean inputs."⟩ : ExpressionError)
  return .call function args .boolean

/-- The node of a choice among amounts. -/
def choiceNode (name : String) (function : FunctionName) (args : List Node) :
    Except ExpressionError Node := do
  let aligned ← alignArguments name args
  return .call function aligned ((aligned[anchorOf args]?.map Node.type).getD .scalar)

def callNode (name : String) (function : FunctionName) (args : List Node) :
    Except ExpressionError Node := do
  checkCount name function args.length
  match function with
  | .ite => conditionalNode args
  | .and | .or | .not => connectiveNode name function args
  | .min | .max | .clamp => choiceNode name function args

/-- The arguments of a call, after its opening parenthesis. -/
def callArguments (expression : Parser) (name : String) (s : ParserState) :
    Except ExpressionError (List Node × ParserState) :=
  match s.take ")" with
  | some s => .ok ([], s)
  | none => do
    let (args, s) ← argumentsLoop expression s.tokens.length [] s
    let s ← orRefuse (s.take ")") (⟨.invalidExpression, "The call to " ++ name ++
      " is missing its closing parenthesis — complete the call."⟩ : ExpressionError)
    return (args, s)

/-- A call, after its opening parenthesis. -/
def call (expression : Parser) (name : String) : Parser := fun s => do
  let function ← orRefuse (FunctionName.ofText name) (⟨.invalidExpression, "The formula calls " ++
    jsonString name ++
    " — available functions are min, max, clamp, if, and, or, not; choose one of these functions."⟩ :
    ExpressionError)
  let (args, s) ← callArguments expression name s
  let node ← callNode name function args
  return (node, s)

/-! ### Factors -/

section Factor

variable (inputs : List (String × ExpressionType))

/-- The refusal of a name that is not declared. -/
def unknownInput (name : String) : ExpressionError :=
  let names := inputs.map Prod.fst
  let available := if names ≠ [] then "available inputs are " ++ ", ".intercalate (names.take 8) ++
      (if 8 < names.length then ", and other declared inputs" else "")
    else "no inputs have been declared"
  ⟨.invalidExpression, "The formula names " ++ jsonString name ++ " — " ++ available ++
    "; choose a declared input."⟩

/-- A declared input. -/
def inputNode (name : String) : Parser := fun s => do
  let type ← orRefuse (inputs.lookup name) (unknownInput inputs name)
  return (.input name type, s.depend name)

/-- A number, an input or a call; `deeper` parses what is one level down. -/
def atom (deeper : Parser) : Parser := fun s =>
  match s.tokens with
  | ⟨.number, text⟩ :: rest => do
    let value ← decimal (.text text.toList) "Formula value"
    return (.literal value .scalar, { s with tokens := rest })
  | ⟨.identifier, text⟩ :: rest =>
    match ParserState.take { s with tokens := rest } "(" with
    | some s => call (expression deeper) text s
    | none => inputNode inputs text { s with tokens := rest }
  | _ => .error ⟨.invalidExpression,
    "The formula ends mid-expression or has an unexpected token — complete its operand."⟩

/-- A factor, with `levels` of nesting left. -/
def factor : ℕ → Parser
  | 0, _ => .error ⟨.limit, "The formula exceeds 32 nested expressions — reduce its nesting."⟩
  | levels + 1, s =>
    match s.take "-", s.take "+", s.take "(" with
    | some s, _, _ => do
      let (operand, s) ← factor levels s
      operand.numeric
      return (.negate operand operand.type, s)
    | none, some s, _ => factor levels s
    | none, none, some s => do
      let (node, s) ← expression (factor levels) s
      let s ← orRefuse (s.take ")") (⟨.invalidExpression,
        "The formula has an unclosed parenthesis — add its closing parenthesis."⟩ : ExpressionError)
      return (node, s)
    | none, none, none => atom inputs (factor levels) s

/-- The tree of a whole formula, and the inputs it names. -/
def parse (tokens : List Token) : Except ExpressionError (Node × List String) := do
  let (node, s) ← expression (factor inputs (EXPRESSION_LIMITS.depth + 1)) ⟨tokens, []⟩
  refuseIf (s.tokens ≠ []) (⟨.invalidExpression,
    "The formula has trailing input after a complete expression — check its operators and parentheses."⟩ :
    ExpressionError)
  return (node, s.dependencies)

end Factor

/-! ### Compiling -/

/-- A declared input. -/
structure ExpressionInput where
  name : String
  type : ExpressionType

/-- `/^[A-Za-z_][A-Za-z0-9_]{0,63}$/`. -/
def isInputName (name : String) : Bool :=
  name.toList.head?.any isNameStart && name.toList.all isNameChar && name.length ≤ 64

/-- `/^[A-Z]{3}$/`. -/
def isCurrencyCode (currency : String) : Bool :=
  currency.toList.length = 3 && currency.toList.all Char.isUpper

/-- The currency of a unit. -/
def ExpressionType.currency? : ExpressionType → Option String
  | .money currency | .hourlyRate currency => some currency
  | _ => none

def declareInput (types : List (String × ExpressionType)) (definition : ExpressionInput) :
    Except ExpressionError (List (String × ExpressionType)) := do
  refuseIf (!isInputName definition.name ∨ (FunctionName.ofText definition.name).isSome ∨
      (types.lookup definition.name).isSome)
    (⟨.invalidInput, "Each formula input needs a unique name of at most 64 letters, digits, or underscores, beginning with a letter or underscore; function names are reserved."⟩ :
      ExpressionError)
  refuseIf (∃ currency ∈ definition.type.currency?, !isCurrencyCode currency)
    (⟨.invalidInput, "Input " ++ jsonString definition.name ++
      " needs a supported unit and, for money or hourly rates, a three-letter currency code."⟩ :
      ExpressionError)
  return types ++ [(definition.name, definition.type)]

/-- A compiled expression. -/
structure CompiledExpression where
  source : List Char
  types : List (String × ExpressionType)
  root : Node
  dependencies : List String

def CompiledExpression.resultType (compiled : CompiledExpression) : ExpressionType :=
  compiled.root.type

/-- Compile a formula over declared inputs. -/
def compileExpression (source : List Char) (definitions : List ExpressionInput) :
    Except ExpressionError CompiledExpression := do
  refuseIf (EXPRESSION_LIMITS.inputs < definitions.length) (⟨.limit,
    "An expression can declare at most 128 inputs — reduce the input list."⟩ : ExpressionError)
  let types ← definitions.foldlM declareInput []
  let tokens ← tokenize source
  let (root, dependencies) ← parse types tokens
  return ⟨source, types, root, dependencies.insertionSort (· ≤ ·)⟩

end OpenBooks
