import OpenBooks.Money.DecimalText
import OpenBooks.Lib.Checked
import Mathlib.Data.List.Sort

/-!
# The taxes of a line

A line has an amount and a *profile*: the tax components of its code or group, in sequence. Each
component takes a percentage of its base, rounded to the component's own scale; a compounding one
includes the taxes before it in the base. A *standard* component adds to what is settled, a
*withholding* one is deducted, a *reverse-charge* one does neither.

When the standard components are included in the price, the net amount is found first, by an integer
search for the net whose taxes make up the amount entered (`extractInclusiveNet`). Rounding can
leave an amount no net has: the closest net is taken, and the last included component is given what
is left.

A negative amount is calculated as its magnitude, and every amount of the result negated.

Amounts are integers of ten-thousandths, percentages the texts they are stored as.
-/

namespace OpenBooks

open Checked

inductive TaxCalculationType where
  | standard
  | withholding
  | reverseCharge
  deriving DecidableEq

structure TaxComponentConfig where
  taxCodeId : String
  code : Option String := none
  sequence : ℤ
  ratePercent : String
  recoverablePercent : Option String := none
  calculationType : Option TaxCalculationType := none
  priceIncludesTax : Option Bool := none
  compoundOnPrevious : Option Bool := none
  roundingScale : Option ℤ := none
  collectedAccountId : Option String := none
  paidAccountId : Option String := none
  withholdingAccountId : Option String := none
  deriving DecidableEq

namespace TaxComponentConfig

def kind (c : TaxComponentConfig) : TaxCalculationType := c.calculationType.getD .standard

def includesTax (c : TaxComponentConfig) : Bool := c.priceIncludesTax.getD false

def compounds (c : TaxComponentConfig) : Bool := c.compoundOnPrevious.getD false

def scale (c : TaxComponentConfig) : ℤ := c.roundingScale.getD 2

def recoverable (c : TaxComponentConfig) : String := c.recoverablePercent.getD "100"

def isStandard (c : TaxComponentConfig) : Bool := c.kind = .standard

end TaxComponentConfig

structure ComputedTaxComponent where
  taxCodeId : String
  code : Option String
  sequence : ℤ
  ratePercent : ℤ
  recoverablePercent : ℤ
  taxableAmount : ℤ
  taxAmount : ℤ
  recoverableAmount : ℤ
  nonrecoverableAmount : ℤ
  calculationType : TaxCalculationType
  priceIncludesTax : Bool
  compoundOnPrevious : Bool
  roundingScale : ℤ
  collectedAccountId : Option String
  paidAccountId : Option String
  withholdingAccountId : Option String
  overridden : Bool
  deriving DecidableEq

structure ComputedLineTax where
  inputAmount : ℤ
  netAmount : ℤ
  taxTotal : ℤ
  total : ℤ
  components : List ComputedTaxComponent
  overridden : Bool
  deriving DecidableEq

/-- The override of a line: whether it was made, and the amount – missing also when it is
blank. -/
structure TaxOptions where
  overridden : Bool := false
  taxAmount : Option ℤ := none

/-! ### Percentages -/

/-- A percentage as the multiplication reads it: plain, with at most 18 places. -/
def readPercent (text : String) : Option PlainPercent := do
  let d ← parseExactDecimalParts text.toList false
  if h : d.scale ≤ 18 then some ⟨d.units, d.scale, h⟩ else none

/-- Multiply money by a percentage text. -/
def mulPercentOf (amount : ℤ) (percent : String) (decimalPlaces : ℤ) : Except String ℤ := do
  refuseIf (decimalPlaces < 0 ∨ 4 < decimalPlaces)
    "decimalPlaces must be an integer from 0 through 4"
  let p ← orRefuse (readPercent percent)
    ("not a plain percentage with at most 18 decimal places: \"" ++ percent ++ "\"")
  return mulPercent amount p decimalPlaces.toNat

/-- Money text as units, or the reader's refusal. -/
def unitsOfText (text : String) (refusal : String) : Except String ℤ :=
  orRefuse (toUnits text.toList) refusal

/-! ### Profiles -/

/-- The checks of one component. -/
def validateComponent (c : TaxComponentConfig) : Except String Unit := do
  let rateUnits ← unitsOfText c.ratePercent
    "tax rate must be an exact decimal with at most 4 decimal places"
  refuseIf (rateUnits < 0) "tax rate cannot be negative"
  let recoverable ← unitsOfText c.recoverable
    "recoverable percentage must be an exact decimal between 0 and 100"
  refuseIf (recoverable < 0 ∨ 100 * SCALE < recoverable)
    "recoverable percentage must be between 0 and 100"
  refuseIf (c.scale < 0 ∨ 4 < c.scale) "tax rounding scale must be an integer from 0 through 4"
  refuseIf (c.includesTax = true ∧ c.kind ≠ .standard)
    "withholding and reverse-charge taxes cannot be price-inclusive"

/-- The components one after another, with the codes seen so far. -/
def validateEach : List String → List TaxComponentConfig → Except String Unit
  | _, [] => .ok ()
  | seen, c :: rest => do
    refuseIf (c.taxCodeId = "") "tax component is missing its tax code"
    refuseIf (c.taxCodeId ∈ seen) ("tax code " ++ c.taxCodeId ++ " occurs more than once")
    validateComponent c
    validateEach (c.taxCodeId :: seen) rest

/-- A profile in sequence, when it is one. -/
def validateConfig (components : List TaxComponentConfig) :
    Except String (List TaxComponentConfig) := do
  let sorted := components.insertionSort fun a b => a.sequence ≤ b.sequence
  validateEach [] sorted
  let standards := sorted.filter (·.isStandard)
  let inclusiveCount := (standards.filter (·.includesTax)).length
  refuseIf (0 < inclusiveCount ∧ inclusiveCount ≠ standards.length)
    "a tax profile cannot mix inclusive and exclusive standard components"
  return sorted

/-! ### From the net -/

/-- An amount for the last eligible component to make up: the last standard one, or the last
included one. -/
structure TaxOverride where
  amount : ℤ
  includedOnly : Bool := false

/-- Whether a component may be adjusted, and counts towards the amount it is adjusted to. -/
def eligible (override : Option TaxOverride) (c : TaxComponentConfig) : Bool :=
  c.isStandard && (!(override.elim false (·.includedOnly)) || c.includesTax)

/-- The result of one component. -/
def computedComponent (c : TaxComponentConfig) (taxableAmount taxAmount : ℤ) (adjusted : Bool) :
    Except String ComputedTaxComponent := do
  let recoverableAmount ← mulPercentOf taxAmount c.recoverable 4
  let ratePercent ← unitsOfText c.ratePercent ("not a decimal number: \"" ++ c.ratePercent ++ "\"")
  let recoverablePercent ← unitsOfText c.recoverable
    ("not a decimal number: \"" ++ c.recoverable ++ "\"")
  return {
    taxCodeId := c.taxCodeId, code := c.code, sequence := c.sequence
    ratePercent := ratePercent, recoverablePercent := recoverablePercent
    taxableAmount := taxableAmount, taxAmount := taxAmount
    recoverableAmount := recoverableAmount
    nonrecoverableAmount := taxAmount - recoverableAmount
    calculationType := c.kind, priceIncludesTax := c.includesTax
    compoundOnPrevious := c.compounds, roundingScale := c.scale
    collectedAccountId := c.collectedAccountId, paidAccountId := c.paidAccountId
    withholdingAccountId := c.withholdingAccountId, overridden := adjusted }

/-- What a component is computed on. -/
def baseOf (c : TaxComponentConfig) (net priorTax : ℤ) : ℤ :=
  if c.compounds then net + priorTax else net

/-- The taxes that compound, after one more component: a withholding tax is a deduction from
the settlement and never does. -/
def compounding (c : TaxComponentConfig) (priorTax tax : ℤ) : ℤ :=
  if c.kind = .withholding then priorTax else priorTax + tax

/-- The eligible taxes, after one more component. -/
def eligibleTax (override : Option TaxOverride) (c : TaxComponentConfig)
    (priorEligibleTax tax : ℤ) : ℤ :=
  if eligible override c then priorEligibleTax + tax else priorEligibleTax

/-- The components from one on, after eligible taxes of `priorEligibleTax` and compounding
taxes of `priorTax`. The component adjusted is the one with no eligible one after it. -/
def calculateFrom (netAmount : ℤ) (override : Option TaxOverride) :
    ℤ → ℤ → List TaxComponentConfig → Except String (List ComputedTaxComponent)
  | _, _, [] => .ok []
  | priorEligibleTax, priorTax, c :: rest => do
    let taxableAmount := baseOf c netAmount priorTax
    let adjustment := override.filter fun _ =>
      eligible override c && !rest.any (eligible override)
    let taxAmount ←
      match adjustment with
      | some o => .ok (o.amount - priorEligibleTax)
      | none => mulPercentOf taxableAmount c.ratePercent c.scale
    refuseIf (taxAmount < 0) "manual tax override cannot make a component negative"
    let computed ← computedComponent c taxableAmount taxAmount adjustment.isSome
    let later ← calculateFrom netAmount override (eligibleTax override c priorEligibleTax taxAmount)
      (compounding c priorTax taxAmount) rest
    return computed :: later

/-- The components of a net amount, in their sequence. -/
def calculateFromNet (netAmount : ℤ) (configs : List TaxComponentConfig)
    (override : Option TaxOverride) : Except String (List ComputedTaxComponent) := do
  refuseIf (override.isSome ∧ configs.any (eligible override) = false)
    "a manual tax override requires a standard tax component"
  calculateFrom netAmount override 0 0 configs

/-! ### Sums -/

def taxSum (components : List ComputedTaxComponent) : ℤ := (components.map (·.taxAmount)).sum

def standardComponents (components : List ComputedTaxComponent) : List ComputedTaxComponent :=
  components.filter (·.calculationType = .standard)

def includedStandard (components : List ComputedTaxComponent) : List ComputedTaxComponent :=
  components.filter fun c => c.calculationType = .standard ∧ c.priceIncludesTax = true

def includedStandardTax (components : List ComputedTaxComponent) : ℤ :=
  taxSum (includedStandard components)

/-! ### The net of an inclusive amount -/

/-- The components at a net, or nothing when the fixed standard taxes alone exceed the
override. -/
def componentsAt (configs : List TaxComponentConfig) (overrideAmount : Option ℤ) (net : ℤ) :
    Except String (Option (List ComputedTaxComponent)) :=
  match overrideAmount with
  | none => some <$> calculateFromNet net configs none
  | some amount => do
    let original ← calculateFromNet net configs none
    let standards := standardComponents original
    refuseIf (standards = []) "a manual tax override requires a standard tax component"
    if amount < taxSum standards.dropLast then return none
    else some <$> calculateFromNet net configs (some { amount := amount })

/-- How a search ends: at a net of the very amount, or between two nets. -/
inductive NetSearch where
  | exact (net : ℤ)
  | between (high low : ℤ)

/-- The binary search. Each turn shortens the interval, so its length bounds the turns. -/
def searchNet (configs : List TaxComponentConfig) (overrideAmount : Option ℤ) (target : ℤ) :
    ℕ → ℤ → ℤ → Except String NetSearch
  | 0, low, high => .ok (.between high low)
  | turns + 1, low, high =>
    if low ≤ high then do
      let mid := (low + high) / 2
      match ← componentsAt configs overrideAmount mid with
      | none => searchNet configs overrideAmount target turns low (mid - 1)
      | some components =>
        let gross := mid + includedStandardTax components
        if gross = target then return .exact mid
        else if gross < target then searchNet configs overrideAmount target turns (mid + 1) high
        else searchNet configs overrideAmount target turns low (mid - 1)
    else .ok (.between high low)

/-- One candidate of the choice between two nets: the closer one, then the smaller. -/
def closerNet (configs : List TaxComponentConfig) (overrideAmount : Option ℤ) (target : ℤ)
    (best : ℤ × Option ℤ) (candidate : ℤ) : Except String (ℤ × Option ℤ) := do
  match ← componentsAt configs overrideAmount candidate with
  | none => return best
  | some components =>
    let distance := |candidate + includedStandardTax components - target|
    match best.2 with
    | none => return (candidate, some distance)
    | some bestDistance =>
      if distance < bestDistance ∨ (distance = bestDistance ∧ candidate < best.1) then
        return (candidate, some distance)
      else return best

/-- Find the net whose rounded taxes reconcile to the amount entered, or the closest. -/
def extractInclusiveNet (inputAmount : ℤ) (configs : List TaxComponentConfig)
    (overrideAmount : Option ℤ) : Except String ℤ := do
  refuseIf (inputAmount < 0) "tax input amount cannot be negative"
  match ← searchNet configs overrideAmount inputAmount (inputAmount + 1).toNat 0 inputAmount with
  | .exact net => return net
  | .between high low => do
    let candidates := [high, low].filter fun u => 0 ≤ u ∧ u ≤ inputAmount
    let best ← candidates.foldlM (closerNet configs overrideAmount inputAmount)
      (candidates.head?.getD 0, none)
    refuseIf (overrideAmount.isSome ∧ best.2 ≠ some 0)
      ("manual tax override cannot reconcile to the tax-inclusive amount; review the included " ++
        "tax components and override")
    return best.1

/-! ### The line -/

/-- Make an inclusive line cross-foot: what the included components do not make up goes to the
last of them. -/
def reconcileIncluded (inputAmount netAmount : ℤ) (configs : List TaxComponentConfig)
    (components : List ComputedTaxComponent) : Except String (List ComputedTaxComponent) :=
  if inputAmount - netAmount ≠ includedStandardTax components then
    calculateFromNet netAmount configs
      (some { amount := inputAmount - netAmount, includedOnly := true })
  else .ok components

/-- The totals of a line, from its components. -/
def lineOf (inputAmount netAmount : ℤ) (components : List ComputedTaxComponent) :
    ComputedLineTax :=
  let taxTotal := taxSum (standardComponents components) -
    taxSum (components.filter (·.calculationType = .withholding))
  { inputAmount := inputAmount, netAmount := netAmount, taxTotal := taxTotal
    total := netAmount + taxTotal, components := components
    overridden := components.any (·.overridden) }

/-- The taxes of an amount that is not negative. -/
def computePositive (inputAmount : ℤ) (rawConfigs : List TaxComponentConfig) (opts : TaxOptions) :
    Except String ComputedLineTax := do
  let configs ← validateConfig rawConfigs
  if configs = [] then do
    refuseIf (opts.overridden = true) "a manual tax override requires a standard tax component"
    return lineOf inputAmount inputAmount []
  else do
    let inclusive := configs.any (·.includesTax)
    refuseIf (opts.overridden = true ∧ opts.taxAmount = none)
      "manual tax override is missing its amount"
    let manualOverride := if opts.overridden then opts.taxAmount else none
    let netAmount ←
      if inclusive then extractInclusiveNet inputAmount configs manualOverride
      else .ok inputAmount
    let components ← calculateFromNet netAmount configs
      (manualOverride.map fun amount => { amount := amount })
    let reconciled ←
      if inclusive = true ∧ manualOverride = none then
        reconcileIncluded inputAmount netAmount configs components
      else .ok components
    return lineOf inputAmount netAmount reconciled

def ComputedTaxComponent.negated (c : ComputedTaxComponent) : ComputedTaxComponent :=
  { c with
    taxableAmount := -c.taxableAmount, taxAmount := -c.taxAmount
    recoverableAmount := -c.recoverableAmount, nonrecoverableAmount := -c.nonrecoverableAmount }

/-- The taxes of a line; a negative line is the mirror image of a positive one. -/
def computeLineTaxes (inputAmount : ℤ) (rawConfigs : List TaxComponentConfig)
    (opts : TaxOptions) : Except String ComputedLineTax :=
  if inputAmount < 0 then do
    refuseIf (∃ t ∈ opts.taxAmount, 0 < t)
      "tax override must have the same sign as its taxable amount"
    let magnitude ← computePositive (-inputAmount) rawConfigs
      (if opts.overridden then
        { overridden := true, taxAmount := opts.taxAmount.map (- ·) } else opts)
    return { magnitude with
      inputAmount := inputAmount, netAmount := -magnitude.netAmount
      taxTotal := -magnitude.taxTotal, total := -magnitude.total
      components := magnitude.components.map ComputedTaxComponent.negated }
  else computePositive inputAmount rawConfigs opts

end OpenBooks
