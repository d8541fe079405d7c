import OpenBooks.Inventory.Costing
import OpenBooks.Money.DecimalText

/-!
# Units of an item

A document line is raised in some unit, and stock is kept in the item's base unit. Units are
compared by their folded spelling (`sameInventoryUnit`) – without case, without
surrounding white space, through a closed table of aliases – and a blank unit is the base unit.
Quantities are converted by the item's map of conversions
(`toBaseQuantity`), which is looked up under the spelling on the line first and
under the folded spelling after that.

So two spellings of one unit convert alike as long as the map does not itself tell them apart
(`toBaseQuantity_respelled`). It can: a map may have the keys `Box` and `box`, and
the key that is spelled as the line is wins. Table and map are plain objects, which answer the
names that every object inherits as well: a map with the key `tostring` converts that unit, and
answers the spelling `toString` with a function.

Lower-casing is that of the language and is a parameter throughout.
-/

namespace OpenBooks

open Checked

/-! ### Spellings -/

/-- The names that a plain object answers without having them as keys of its own. -/
def INHERITED_NAMES : List (List Char) :=
  ["__defineGetter__".toList, "__defineSetter__".toList, "__lookupGetter__".toList,
    "__lookupSetter__".toList, "__proto__".toList, "constructor".toList, "hasOwnProperty".toList,
    "isPrototypeOf".toList, "propertyIsEnumerable".toList, "toLocaleString".toList,
    "toString".toList, "valueOf".toList]

/-- What a spelling folds to: a text, or what every object inherits under a name. -/
inductive FoldedUnit where
  | text (unit : List Char)
  | inherited (name : List Char)
  deriving DecidableEq

/-- The key that a folded spelling is looked up under. What is inherited is printed for it. -/
def FoldedUnit.key : FoldedUnit → List Char
  | .text unit => unit
  | .inherited name =>
    if name = "__proto__".toList then "[object Object]".toList
    else "function ".toList ++ (if name = "constructor".toList then "Object".toList else name) ++
      "() \x7b [native code] \x7d".toList

def INVENTORY_UNIT_ALIASES : List (List Char × List Char) :=
  [("each".toList, "ea".toList), ("pcs".toList, "pc".toList), ("piece".toList, "pc".toList),
    ("pieces".toList, "pc".toList)]

section Spelling

variable (toLowerCase : List Char → List Char)

/-- Fold a unit spelling for comparison. -/
def normalizeInventoryUnit (unit : Option (List Char)) : FoldedUnit :=
  let folded := toLowerCase (trim (unit.getD []))
  match INVENTORY_UNIT_ALIASES.lookup folded with
  | some base => .text base
  | none => if INHERITED_NAMES.contains folded then .inherited folded else .text folded

/-- A spelling folded, where a blank one is the base unit. -/
def foldInventoryUnit (unit baseUnit : Option (List Char)) : FoldedUnit :=
  let folded := normalizeInventoryUnit toLowerCase unit
  if folded = .text [] then normalizeInventoryUnit toLowerCase baseUnit else folded

/-- Whether two document units name the same unit of an item. -/
def sameInventoryUnit (left right baseUnit : Option (List Char)) : Bool :=
  foldInventoryUnit toLowerCase left baseUnit = foldInventoryUnit toLowerCase right baseUnit

/-! ### Conversions -/

/-- An answer of the conversion map: its text, and whether it is a number that is finite, and one
that is positive. A function is neither. -/
structure ConversionFactor where
  shown : List Char
  finite : Bool
  positive : Bool
  deriving DecidableEq

/-- The conversion map of an item, in the order of its keys. -/
abbrev Conversions := List (List Char × ConversionFactor)

/-- The item a refusal names. -/
structure ConversionItemRef where
  id : Option String
  name : Option String

structure UnitConversionDetails where
  itemId : Option String
  itemName : Option String
  unit : List Char
  baseUnit : List Char

/-- Why a line cannot be converted. The last is the money reader's own refusal. -/
inductive ConversionRefusal
  | unitConversion (message : String) (details : UnitConversionDetails)
  | notADecimal (text : List Char)

/-- `conversions[key]`: the entry of that key, else what every object inherits under the name. -/
def answerOf (conversions : Conversions) (key : List Char) : Option ConversionFactor :=
  (conversions.lookup key).or
    (if INHERITED_NAMES.contains key then some ⟨[], false, false⟩ else none)

/-- The answer to a spelling as it stands on the line. -/
def spelledEntry (conversions : Conversions) (unit : Option (List Char)) :
    Option ConversionFactor :=
  answerOf conversions (trim (unit.getD []))

/-- The answer to a folded spelling, or else the entry of a key that differs from it in case. -/
def foldedEntry (conversions : Conversions) (folded : FoldedUnit) : Option ConversionFactor :=
  (answerOf conversions folded.key).or
    ((conversions.find? fun entry => FoldedUnit.text (toLowerCase entry.1) = folded).bind
      fun entry => conversions.lookup entry.1)

/-- How many base units one of a unit is, as exact text. -/
def inventoryConversionFactor (unit : Option (List Char)) (conversions : Conversions)
    (baseUnit : List Char) (lineLabel : String) (item : Option ConversionItemRef) :
    Except ConversionRefusal (List Char) :=
  let folded := normalizeInventoryUnit toLowerCase unit
  if folded = .text [] ∨ folded = normalizeInventoryUnit toLowerCase (some baseUnit) then .ok ['1']
  else do
    let trimmed := trim (unit.getD [])
    let factor := (spelledEntry conversions unit).or (foldedEntry toLowerCase conversions folded)
    let details : UnitConversionDetails :=
      ⟨item.bind ConversionItemRef.id, item.bind ConversionItemRef.name, trimmed, baseUnit⟩
    let unitText := String.ofList trimmed
    let baseText := String.ofList baseUnit
    let known ← orRefuse (factor.filter fun f => f.finite && f.positive)
      (ConversionRefusal.unitConversion (lineLabel ++ " is raised in unit \"" ++ unitText ++
        "\" with no conversion to the item's base unit \"" ++ baseText ++
        "\" — enter the quantity in " ++ baseText ++ ", or add a \"" ++ unitText ++
        "\" row under Unit conversions on the item's Inventory costing section") details)
    orRefuse (canonicalDecimal known.shown 4)
      (ConversionRefusal.unitConversion (lineLabel ++ " unit \"" ++ unitText ++
        "\" converts at " ++ String.ofList known.shown ++ " " ++ baseText ++ " per " ++ unitText ++
        ", which cannot be expressed exactly — configure an exact conversion under Unit " ++
        "conversions on the item's Inventory costing section") details)

def toBaseQuantity (quantity : ℤ) (unit : Option (List Char)) (conversions : Conversions)
    (baseUnit : List Char) (lineLabel : String) (item : Option ConversionItemRef) :
    Except ConversionRefusal ℤ := do
  let factor ← inventoryConversionFactor toLowerCase unit conversions baseUnit lineLabel item
  let units ← orRefuse (toUnits factor) (ConversionRefusal.notADecimal factor)
  return mulUnits quantity units

/-! ### Respelling a unit -/

variable {toLowerCase} {conversions : Conversions} {baseUnit : List Char} {u v : Option (List Char)}
  {lineLabel : String} {item : Option ConversionItemRef}

theorem foldInventoryUnit_eq_base_iff :
    foldInventoryUnit toLowerCase u (some baseUnit) =
        normalizeInventoryUnit toLowerCase (some baseUnit) ↔
      normalizeInventoryUnit toLowerCase u = .text [] ∨ normalizeInventoryUnit toLowerCase u =
        normalizeInventoryUnit toLowerCase (some baseUnit) := by
  unfold foldInventoryUnit
  dsimp only
  split_ifs with hblank <;> simp [hblank]

theorem foldInventoryUnit_of_ne_base (h : ¬(normalizeInventoryUnit toLowerCase u = .text [] ∨
    normalizeInventoryUnit toLowerCase u = normalizeInventoryUnit toLowerCase (some baseUnit))) :
    foldInventoryUnit toLowerCase u (some baseUnit) = normalizeInventoryUnit toLowerCase u := by
  rw [not_or] at h
  exact if_neg h.1

theorem orRefuse_toOption {α ε : Type} (x : Option α) (e : ε) : (orRefuse x e).toOption = x := by
  cases x <;> rfl

theorem inventoryConversionFactor_toOption (h : ¬(normalizeInventoryUnit toLowerCase u = .text [] ∨
    normalizeInventoryUnit toLowerCase u = normalizeInventoryUnit toLowerCase (some baseUnit))) :
    (inventoryConversionFactor toLowerCase u conversions baseUnit lineLabel item).toOption =
      (((spelledEntry conversions u).or (foldedEntry toLowerCase conversions
          (normalizeInventoryUnit toLowerCase u))).filter fun f => f.finite && f.positive).bind
        fun f => canonicalDecimal f.shown 4 := by
  rw [inventoryConversionFactor, if_neg h]
  dsimp only
  cases ((spelledEntry conversions u).or (foldedEntry toLowerCase conversions
    (normalizeInventoryUnit toLowerCase u))).filter fun f => f.finite && f.positive with
  | none => rfl
  | some f => exact orRefuse_toOption _ _

theorem toBaseQuantity_toOption (quantity : ℤ) :
    (toBaseQuantity toLowerCase quantity u conversions baseUnit lineLabel item).toOption =
      (inventoryConversionFactor toLowerCase u conversions baseUnit lineLabel item).toOption.bind
        fun factor => (toUnits factor).map (mulUnits quantity) := by
  unfold toBaseQuantity
  cases inventoryConversionFactor toLowerCase u conversions baseUnit lineLabel item with
  | error refusal => rfl
  | ok factor =>
    change _ = (toUnits factor).map (mulUnits quantity)
    rw [ok_bind]
    cases toUnits factor with
    | none | some units => rfl

/-- **Two spellings of one unit convert alike**, or are refused alike, where the map answers both
the same, or neither in another way than the folded spelling. -/
theorem toBaseQuantity_respelled (quantity : ℤ)
    (hsame : sameInventoryUnit toLowerCase u v (some baseUnit) = true)
    (hentries : spelledEntry conversions u = spelledEntry conversions v ∨
      ∀ unit ∈ [u, v], ∀ f ∈ spelledEntry conversions unit,
        foldedEntry toLowerCase conversions (normalizeInventoryUnit toLowerCase unit) = some f) :
    (toBaseQuantity toLowerCase quantity u conversions baseUnit lineLabel item).toOption =
      (toBaseQuantity toLowerCase quantity v conversions baseUnit lineLabel item).toOption := by
  have hfold := of_decide_eq_true hsame
  rw [toBaseQuantity_toOption, toBaseQuantity_toOption]
  congr 1
  by_cases hbase : foldInventoryUnit toLowerCase u (some baseUnit) =
      normalizeInventoryUnit toLowerCase (some baseUnit)
  · have hu := foldInventoryUnit_eq_base_iff.mp hbase
    have hv := foldInventoryUnit_eq_base_iff.mp (hfold ▸ hbase)
    rw [inventoryConversionFactor, inventoryConversionFactor, if_pos hu, if_pos hv]
  · have hu := fun h => hbase (foldInventoryUnit_eq_base_iff.mpr h)
    have hv := fun h => (hfold ▸ hbase) (foldInventoryUnit_eq_base_iff.mpr h)
    rw [foldInventoryUnit_of_ne_base hu, foldInventoryUnit_of_ne_base hv] at hfold
    rw [inventoryConversionFactor_toOption hu, inventoryConversionFactor_toOption hv]
    congr 2
    rcases hentries with heq | hfolded
    · rw [heq, hfold]
    · have hor : ∀ unit ∈ [u, v], (spelledEntry conversions unit).or
          (foldedEntry toLowerCase conversions (normalizeInventoryUnit toLowerCase unit)) =
            foldedEntry toLowerCase conversions (normalizeInventoryUnit toLowerCase unit) := by
        intro unit hunit
        cases hspelled : spelledEntry conversions unit with
        | none => rfl
        | some f => rw [hfolded unit hunit f hspelled, Option.some_or]
      rw [hor u (by simp), hor v (by simp), hfold]

end Spelling

/-- Lower case, as far as the plain letters go. -/
def lowerPlainLetters (text : List Char) : List Char := text.map Char.toLower

/-- A map that tells `Box` from `box`. -/
def twoBoxes : Conversions :=
  [("Box".toList, ⟨"12".toList, true, true⟩), ("box".toList, ⟨"10".toList, true, true⟩)]

theorem boxes_convert_by_their_spelling :
    ¬∀ (conversions : Conversions) (baseUnit : List Char) (quantity : ℤ)
      (u v : Option (List Char)),
      sameInventoryUnit lowerPlainLetters u v (some baseUnit) = true →
      (toBaseQuantity lowerPlainLetters quantity u conversions baseUnit "inventory line"
          none).toOption =
        (toBaseQuantity lowerPlainLetters quantity v conversions baseUnit "inventory line"
          none).toOption := by
  intro h
  have hboxes := h twoBoxes "ea".toList 20000 (some "Box".toList) (some "box".toList)
    (by decide +kernel)
  exact absurd hboxes (by decide +kernel)

theorem respelled_box :
    (toBaseQuantity lowerPlainLetters 20000 (some " BOX ".toList)
        [("box".toList, ⟨"12".toList, true, true⟩)] "ea".toList "inventory line" none).toOption =
      (toBaseQuantity lowerPlainLetters 20000 (some "box".toList)
        [("box".toList, ⟨"12".toList, true, true⟩)] "ea".toList "inventory line"
          none).toOption :=
  toBaseQuantity_respelled 20000 (by decide +kernel) (.inr (by decide +kernel))

end OpenBooks
