import OpenBooks.Lib.Checked
import OpenBooks.Lib.CodeUnits
import OpenBooks.Lib.JsonGrammar

/-!
# Exact JSON

`parseExactJson` reads JSON for imports and returns, for every number, the text it was written as.
It is a parser by recursive descent; the model hands on the text that is left, and a failure keeps
it too, since that gives the position to report. What becomes of a number's token is a parameter:
the parser that converts it is the language's own.

The parser of a value is one step from the parser of the values inside it (`ExactJson.parseStep`),
as the grammar is, and the step is iterated as often as arrays and objects may nest. So what is
parsed is a JSON text, and every JSON text that does not nest deeper is parsed
(`parseExactJson_eq_ok_iff`).
-/

namespace OpenBooks

open Checked JsonGrammar CodeUnits

/-- The largest object and array nesting that is accepted. -/
def MAX_NESTING_DEPTH : ℕ := 200

namespace ExactJson

/-- A failure: its message, and the text from the failing position on. -/
structure Failure where
  message : Units
  rest : Units

def fail {α : Type} (message : String) (rest : Units) : Except Failure α :=
  .error ⟨encode message, rest⟩

/-- What a parser of values returns: the value and the rest of the text. -/
abbrev Parser (N : Type) := Units → Except Failure (JsonGrammar.Value N × Units)

def skipWhitespace (t : Units) : Units := t.dropWhile isWhite

def expect (u : ℕ) (message : String) (t : Units) : Except Failure Units :=
  if t.head? = some u then .ok t.tail else fail message t

/-! ### Strings -/

/-- The unit of four digits to the base sixteen. -/
def hexUnit (a b c d : ℕ) : Option ℕ := do
  let w ← JsonGrammar.hexDigit a
  let x ← JsonGrammar.hexDigit b
  let y ← JsonGrammar.hexDigit c
  let z ← JsonGrammar.hexDigit d
  return ((w * 16 + x) * 16 + y) * 16 + z

/-- A unit in front of the string that is read behind it. -/
def andThen (u : ℕ) (rest : Except Failure (Units × Units)) : Except Failure (Units × Units) :=
  rest.map fun p => (u :: p.1, p.2)

/-- A string behind its opening quote. -/
def parseString : Units → Except Failure (Units × Units)
  | [] => fail "unterminated string" []
  | u :: rest =>
    if u = 0x22 then .ok ([], rest)
    else if u = 0x5c then
      match rest with
      | [] => fail "unterminated escape" []
      | e :: more =>
        match shortEscape e with
        | some c => andThen c (parseString more)
        | none =>
          if e = 0x75 then
            match more with
            | a :: b :: c :: d :: after =>
              match hexUnit a b c d with
              | some unit => andThen unit (parseString after)
              | none => fail "invalid unicode escape" (e :: more)
            | _ => fail "invalid unicode escape" (e :: more)
          else .error ⟨encode "invalid escape \"\\" ++ e :: encode "\"",
            e :: more⟩
    else if u < 0x20 then fail "unescaped control character in string" (u :: rest)
    else andThen u (parseString rest)

/-! ### Numbers and literals -/

def minusPart (t : Units) : Units × Units :=
  if t.head? = some 0x2d then ([0x2d], t.tail) else ([], t)

def integerPart (t : Units) : Except Failure (Units × Units) :=
  if t.head? = some 0x30 then .ok ([0x30], t.tail)
  else if t.takeWhile isDigit = [] then fail "invalid number" t
  else .ok (t.takeWhile isDigit, t.dropWhile isDigit)

def fractionPart (t : Units) : Except Failure (Units × Units) :=
  if t.head? = some 0x2e then
    if t.tail.takeWhile isDigit = [] then fail "digit expected after decimal point" t.tail
    else .ok (0x2e :: t.tail.takeWhile isDigit, t.tail.dropWhile isDigit)
  else .ok ([], t)

def signPart (t : Units) : Units × Units :=
  if t.head? = some 0x2b then ([0x2b], t.tail)
  else if t.head? = some 0x2d then ([0x2d], t.tail)
  else ([], t)

def exponentPart : Units → Except Failure (Units × Units)
  | [] => .ok ([], [])
  | e :: more =>
    if e = 0x65 ∨ e = 0x45 then
      let (sign, more) := signPart more
      if more.takeWhile isDigit = [] then fail "digit expected in exponent" more
      else .ok (e :: (sign ++ more.takeWhile isDigit), more.dropWhile isDigit)
    else .ok ([], e :: more)

/-- The token's source text. -/
def parseNumberToken (t : Units) : Except Failure (Units × Units) := do
  let (minus, t) := minusPart t
  let (integer, t) ← integerPart t
  let (fraction, t) ← fractionPart t
  let (exponent, t) ← exponentPart t
  return (minus ++ (integer ++ (fraction ++ exponent)), t)

section Values

variable {N : Type} (ofToken : Units → JsonGrammar.Value N)

def parseLiteral (word : Units) (value : JsonGrammar.Value N) : Parser N := fun t =>
  if word.isPrefixOf t then .ok (value, t.drop word.length) else fail "invalid literal" t

/-- A value that holds no others. -/
def parseScalar : Parser N
  | [] => fail "unexpected end of input" []
  | u :: rest =>
    if u = 0x22 then (parseString rest).map fun p => (.string p.1, p.2)
    else if u = 0x74 then parseLiteral trueText (.bool true) (u :: rest)
    else if u = 0x66 then parseLiteral falseText (.bool false) (u :: rest)
    else if u = 0x6e then parseLiteral nullText .null (u :: rest)
    else if u = 0x2d ∨ isDigit u = true then
      (parseNumberToken (u :: rest)).map fun p => (ofToken p.1, p.2)
    else .error ⟨encode "unexpected character '" ++ u :: encode "'", u :: rest⟩

/-! ### Objects and arrays -/

section Nested

variable (value : Parser N)

def parseMember (rejectDuplicateKeys : Bool) (obj : List (Units × JsonGrammar.Value N))
    (t : Units) :
    Except Failure ((Units × JsonGrammar.Value N) × Units) := do
  let t ← expect 0x22 "string key expected" (skipWhitespace t)
  let (key, t) ← parseString t
  refuseIf (rejectDuplicateKeys = true ∧ key ∈ obj.map Prod.fst)
    (⟨encode "duplicate object key", t⟩ : Failure)
  let t ← expect 0x3a "':' expected" (skipWhitespace t)
  let (v, t) ← value t
  return ((key, v), t)

/-- The members up to the closing brace. Every round takes a unit, so as many rounds as units
are enough. -/
def parseMembers (rejectDuplicateKeys : Bool) :
    ℕ → List (Units × JsonGrammar.Value N) → Units →
      Except Failure (List (Units × JsonGrammar.Value N) × Units)
  | 0, _, t => fail "" t
  | fuel + 1, obj, t => do
    let (m, t) ← parseMember value rejectDuplicateKeys obj t
    let obj := setMember obj m.1 m.2
    let t := skipWhitespace t
    if t.head? = some 0x2c then parseMembers rejectDuplicateKeys fuel obj t.tail
    else (expect 0x7d "',' or '\x7d' expected" t).map fun t => (obj, t)

/-- An object behind its opening brace. -/
def parseObject (rejectDuplicateKeys : Bool) : Parser N := fun t =>
  let t := skipWhitespace t
  if t.head? = some 0x7d then .ok (.object [], t.tail)
  else (parseMembers value rejectDuplicateKeys (t.length + 1) [] t).map fun p => (.object p.1, p.2)

def parseItems : ℕ → Units → Except Failure (List (JsonGrammar.Value N) × Units)
  | 0, t => fail "" t
  | fuel + 1, t => do
    let (v, t) ← value t
    let t := skipWhitespace t
    if t.head? = some 0x2c then (parseItems fuel t.tail).map fun p => (v :: p.1, p.2)
    else (expect 0x5d "',' or ']' expected" t).map fun t => ([v], t)

/-- An array behind its opening bracket. -/
def parseArray : Parser N := fun t =>
  let t := skipWhitespace t
  if t.head? = some 0x5d then .ok (.array [], t.tail)
  else (parseItems value (t.length + 1) t).map fun p => (.array p.1, p.2)

end Nested

/-- A value, given the parser of the values inside it, if they may nest any deeper. -/
def parseStep (rejectDuplicateKeys : Bool) (inside : Option (Parser N)) : Parser N := fun t =>
  let t := skipWhitespace t
  let tooDeep : Failure :=
    ⟨encode ("JSON nesting deeper than " ++ toString MAX_NESTING_DEPTH), t⟩
  if t.head? = some 0x7b then do
    let value ← orRefuse inside tooDeep
    parseObject value rejectDuplicateKeys t.tail
  else if t.head? = some 0x5b then do
    let value ← orRefuse inside tooDeep
    parseArray value t.tail
  else parseScalar ofToken t

/-- A value with arrays and objects nested up to a depth. -/
def parseValue (rejectDuplicateKeys : Bool) : ℕ → Parser N
  | 0 => parseStep ofToken rejectDuplicateKeys none
  | room + 1 =>
    parseStep ofToken rejectDuplicateKeys (some (parseValue rejectDuplicateKeys room))

/-- One value, and nothing else. -/
def parseDocument (rejectDuplicateKeys : Bool) (room : ℕ) (text : Units) :
    Except Failure (JsonGrammar.Value N) := do
  let (v, t) ← parseValue ofToken rejectDuplicateKeys room text
  let t := skipWhitespace t
  refuseIf (t ≠ []) (⟨encode "unexpected trailing content", t⟩ : Failure)
  return v

end Values

end ExactJson

structure SyntaxError where
  message : Units

/-- Parse JSON, with the source text of every number for the number. -/
def parseExactJson (text : Units) (rejectDuplicateKeys : Bool) :
    Except SyntaxError (JsonGrammar.Value Empty) :=
  (ExactJson.parseDocument .string rejectDuplicateKeys MAX_NESTING_DEPTH text).mapError
    fun failure =>
    ⟨failure.message ++
      encode (" at position " ++ toString (text.length - failure.rest.length))⟩

end OpenBooks
