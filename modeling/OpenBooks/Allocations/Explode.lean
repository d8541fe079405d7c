import OpenBooks.Allocations.Match
import OpenBooks.Money.DecimalText

/-!
# Exploding one document line

`explodeDocumentLine` turns an entered line into one child for each target of
a rule. The amount is apportioned by the kernel of `Apportion.lean`; the quantity, when
there is one, and the direct materials cost follow with splits of their own; everything
else is inherited or overridden by the target.

The result is **aligned**: the children, and the apportionment evidence that the lineage
rows are later written from, stand in the same order with the same amounts
(`explodeDocumentLine_aligned`).

Money is in ten-thousandths, quantities in hundred-millionths. An absent property and a
null one are the same `none`; the `custom` record is carried as its text.
-/

namespace OpenBooks

open Checked List

/-! ### Lines -/

inductive WithholdingTreatment
  | labour
  | materials
  | excluded
  deriving DecidableEq

/-- One submitted line with the fields of the entry request. -/
structure EntryLineInput where
  accountId : String
  amount : ℤ
  quantity : Option ℤ := none
  unit : Option String := none
  unitPrice : Option String := none
  itemId : Option String := none
  description : Option String := none
  taxCodeId : Option String := none
  taxGroupId : Option String := none
  withholdingTreatment : Option WithholdingTreatment := none
  withholdingMaterialsCost : Option ℤ := none
  partyId : Option String := none
  departmentId : Option String := none
  projectId : Option String := none
  locationId : Option String := none
  classId : Option String := none
  subsidiaryId : Option String := none
  stockLocationId : Option String := none
  extraDims : ExtraDims := []
  custom : String := ""
  isBillable : Option Bool := none
  workFrom : Option String := none
  workTo : Option String := none
  amortizationTemplateId : Option String := none
  amortizationStartOn : Option String := none
  amortizationEndOn : Option String := none
  marketplaceFacilitator : Option String := none
  distributionKey : Option String := none
  distributionGroupId : Option String := none
  distributionLocked : Option Bool := none

/-- A planned line: stamps resolved, request key consumed. -/
structure PlannedEntryLine where
  accountId : String
  amount : ℤ
  quantity : Option ℤ
  unit : Option String
  unitPrice : Option String
  itemId : Option String
  description : Option String
  taxCodeId : Option String
  taxGroupId : Option String
  withholdingTreatment : Option WithholdingTreatment
  withholdingMaterialsCost : Option ℤ
  marketplaceFacilitator : Option String
  partyId : Option String
  departmentId : Option String
  projectId : Option String
  locationId : Option String
  classId : Option String
  subsidiaryId : Option String
  stockLocationId : Option String
  extraDims : ExtraDims
  custom : String
  isBillable : Option Bool
  workFrom : Option String
  workTo : Option String
  amortizationTemplateId : Option String
  amortizationStartOn : Option String
  amortizationEndOn : Option String
  distributionGroupId : Option String
  distributionRuleId : Option String
  distributionVersionId : Option String
  distributionLocked : Bool

/-! ### Refusals -/

inductive EntryAllocationErrorCode
  | unknownKey
  | misconfiguredRule
  | unsupportedBasis
  | noDriverWeight
  | invalidLine
  deriving DecidableEq

/-- What the planner refuses with: an error of its own contract, one of the direct
materials cost, one of the money kernel, or the missing first member of a merge. -/
inductive EntryPlanError
  | entryAllocation (code : EntryAllocationErrorCode) (message : String)
  | withholdingMaterialsCost (message : String)
  | money (message : String)
  | missingMember
  deriving DecidableEq

/-! ### Weights -/

/-- A decimal of `places` places, as text. -/
def formatScaled (units : ℤ) (places : ℕ) : String :=
  (if units < 0 then "-" else "") ++ toString (units.natAbs / 10 ^ places) ++ "." ++
    padStart places '0' (toString (units.natAbs % 10 ^ places))

def AllocationRuleTarget.key (t : AllocationRuleTarget) : String :=
  t.id.getD ("sequence:" ++ toString t.sequence)

/-- Ten-billionths in one ten-thousandth of a percent. -/
def PERCENT_WEIGHT : ℤ := 1000000

/-- The weight of one target of a fixed-percent rule, the remainder's being zero so
far. -/
def fixedPercentWeight (t : AllocationRuleTarget) :
    Except AllocationApportionError WeightedTarget :=
  if t.isRemainder then .ok ⟨t.key, 0, true⟩
  else do
    let units ← orRefuse t.fixedPercent (⟨.fixedPercentMissing, "fixed_percent target \"" ++ t.key ++
      "\" needs a percent on a fixed_percent basis"⟩ : AllocationApportionError)
    refuseIf (units ≤ 0 ∨ PERCENT_HUNDRED_UNITS < units) (⟨.fixedPercentRange,
      "fixed_percent target \"" ++ t.key ++ "\" must be within (0, 100]: \"" ++ fromUnits units ++
      "\""⟩ : AllocationApportionError)
    return ⟨t.key, units * PERCENT_WEIGHT, false⟩

def fixedPercentSum (targets : List AllocationRuleTarget) : ℤ :=
  ((targets.filter fun t => !t.isRemainder).map fun t => t.fixedPercent.getD 0).sum

def fixedPercentWeights (targets : List AllocationRuleTarget) :
    Except AllocationApportionError (List WeightedTarget) := do
  refuseIf (1 < (targets.filter AllocationRuleTarget.isRemainder).length) (⟨.remainderCount,
    "at most one target may take the remainder"⟩ : AllocationApportionError)
  let out ← targets.mapM fixedPercentWeight
  let sum := fixedPercentSum targets
  refuseIf (PERCENT_HUNDRED_UNITS < sum) (⟨.fixedPercentSum, "fixed percents sum past 100 (" ++
    fromUnits sum ++ "); refusing to invent money"⟩ : AllocationApportionError)
  refuseIf (out.all (fun w => !w.isRemainder) ∧ sum < PERCENT_HUNDRED_UNITS) (⟨.fixedPercentSum,
    "fixed percents sum to " ++ fromUnits sum ++
    " below 100 with no remainder target; refusing to drop money"⟩ : AllocationApportionError)
  return out.map fun w =>
    if w.isRemainder then { w with weight := (PERCENT_HUNDRED_UNITS - sum) * PERCENT_WEIGHT } else w

/-- Driver values by dimension value. -/
abbrev DriverVector := List (String × ℤ)

/-- The value of a target in the dimension a driver is keyed by. Names that every object inherits
are not looked up. -/
def targetValueInDimension (target : AllocationRuleTarget) (dimension : String) : Option String :=
  if dimension = "department" then target.departmentId
  else if dimension = "location" then target.locationId
  else if dimension = "class" then target.classId
  else if dimension = "project" then target.projectId
  else if dimension = "subsidiary" then target.subsidiaryId
  else if dimension.startsWith "extra:" then
    (target.extraDims.lookup (dimension.drop "extra:".length).toString).getD none
  else none

/-- What an explosion is given besides the line and the rule. -/
structure ExplodeOptions where
  driverVector : Option DriverVector := none
  driverDimension : Option String := none
  resolveDynamicTargets :
    Option (AllocationRuleVersion → EntryLineInput → List AllocationRuleTarget) := none
  groupId : String

/-- A weight that must not be negative. -/
def parseWeight (value : ℤ) (what : String) : Except EntryPlanError ℤ := do
  refuseIf (value < 0) (.entryAllocation .misconfiguredRule (what ++ " \"" ++ formatScaled value 10 ++
    "\" must not be negative") : EntryPlanError)
  return value

/-- The driver weight of a target: its own manual weight, else the vector's value. -/
def driverWeight (opts : ExplodeOptions) (t : AllocationRuleTarget) : ℤ :=
  match t.weight, opts.driverVector, truthy opts.driverDimension with
  | some weight, _, _ => weight
  | none, some vector, some dimension =>
    (vector.lookup ((targetValueInDimension t dimension).getD "")).getD 0
  | none, _, _ => 0

/-- The sum of a driver vector, printed, unless it has a negative value. -/
def driverVectorTotal (vector : DriverVector) : Option String :=
  if ∃ entry ∈ vector, entry.2 < 0 then none
  else some (formatScaled ((vector.map Prod.snd).sum / (WEIGHT_SCALE / 10000)) 4)

/-- The weighted targets of a driver basis, their units and the vector's total. -/
def driverWeights (targets : List AllocationRuleTarget) (opts : ExplodeOptions) :
    Except EntryPlanError (List WeightedTarget × List ℤ × Option String) := do
  let units ← targets.mapM fun t => parseWeight (driverWeight opts t) "driver weight"
  return (targets.map fun t => ⟨t.key, driverWeight opts t, t.isRemainder⟩, units,
    opts.driverVector.bind driverVectorTotal)

/-! ### Companion splits -/

/-- Split units over weights, each part rounded and what is left over placed on one
index. -/
def apportionExactUnits (totalUnits : ℤ) (weights : List ℤ) (residualIndex : ℕ) :
    Except EntryPlanError (List ℤ) := do
  let weightTotal := weights.sum
  refuseIf (weightTotal ≤ 0) (.entryAllocation .noDriverWeight
    "allocation weights sum to zero — nothing to apportion to" : EntryPlanError)
  let amounts := weights.map fun w => roundDiv (totalUnits * w) weightTotal
  return amounts.modify residualIndex (· + (totalUnits - amounts.sum))

/-- Direct costs follow the net amounts of the children. -/
def apportionWithholdingMaterialsCost (cost : Option ℤ) (amounts : List ℤ) :
    Except EntryPlanError (List (Option ℤ)) :=
  match cost with
  | none => .ok (amounts.map fun _ => none)
  | some units => do
    refuseIf (units < 0 ∨ (∃ w ∈ amounts, w < 0) ∨ amounts.sum < units) (.withholdingMaterialsCost
      "Direct materials cost must be nonnegative and no greater than the net line amount; correct the cost before splitting the line" :
      EntryPlanError)
    if amounts.sum = 0 then return amounts.map fun _ => some 0
    else do
      let parts ← (apportion units amounts .largestRemainder).mapError EntryPlanError.money
      return parts.map some

/-- The treatment and direct cost of merged lines: one treatment, and a cost on every
line or on none. -/
def collapseWithholdingLineMetadata (lines : List EntryLineInput) :
    Except EntryPlanError (Option WithholdingTreatment × Option ℤ) := do
  let treatment := lines.head?.bind EntryLineInput.withholdingTreatment
  refuseIf (∃ line ∈ lines, line.withholdingTreatment ≠ treatment) (.withholdingMaterialsCost
    "Lines with different withholding treatments cannot be merged; keep the separate lines" :
    EntryPlanError)
  if ∀ line ∈ lines, line.withholdingMaterialsCost = none then return (treatment, none)
  else do
    refuseIf (∃ line ∈ lines, line.withholdingMaterialsCost = none) (.withholdingMaterialsCost
      "Enter a direct materials cost on every split child before merging or regenerating this distribution" :
      EntryPlanError)
    let _ ← lines.mapM fun line =>
      apportionWithholdingMaterialsCost line.withholdingMaterialsCost [line.amount]
    return (treatment, some (lines.map fun line => line.withholdingMaterialsCost.getD 0).sum)

/-! ### Templates -/

/-- The variables of a template: texts, or records of texts. -/
inductive TemplateVar
  | text (value : Option String)
  | record (fields : List (String × Option String))

/-- The value a dotted path leads to, printed; nothing where the path leads nowhere. A path through
a name that every object inherits, which the source prints, leads nowhere here. -/
def templateValue (vars : List (String × TemplateVar)) : List String → Option String
  | [name] => match vars.lookup name with
    | some (.text value) => value
    | some (.record _) => some "[object Object]"
    | none => none
  | [name, field] => match vars.lookup name with
    | some (.record fields) => (fields.lookup field).getD none
    | _ => none
  | _ => none

def isPathChar (c : Char) : Bool := c.isAlphanum || c = '_' || c = '.'

/-- The placeholder at the head of a text – two braces around a path – with the text
after it. -/
def matchPlaceholder (text : List Char) : Option (List Char × List Char) :=
  match text with
  | '\x7b' :: '\x7b' :: rest =>
    let body := rest.dropWhile isJsWhitespace
    let path := body.takeWhile isPathChar
    match path, (body.dropWhile isPathChar).dropWhile isJsWhitespace with
    | _ :: _, '\x7d' :: '\x7d' :: after => some (path, after)
    | _, _ => none
  | _ => none

/-- The rendering of the next `fuel` pieces of a text, each a placeholder or a character. A
placeholder without a value stays as it stands. -/
def renderPieces (vars : List (String × TemplateVar)) : ℕ → List Char → List Char
  | 0, text => text
  | _, [] => []
  | fuel + 1, c :: text =>
    match matchPlaceholder (c :: text) with
    | none => c :: renderPieces vars fuel text
    | some (path, after) =>
      let placeholder := (c :: text).take ((c :: text).length - after.length)
      ((templateValue vars ((String.ofList path).splitOn ".")).elim placeholder String.toList) ++
        renderPieces vars fuel after

def renderAllocationTemplate (template : String) (vars : List (String × TemplateVar)) : String :=
  String.ofList (renderPieces vars template.length template.toList)

/-! ### The explosion -/

/-- Evidence of the apportionment behind one child. -/
structure ChildApportionment where
  share : String
  amount : ℤ
  residual : ℤ
  driverValue : Option String

structure ExplodeResult where
  children : List PlannedEntryLine
  apportionments : List ChildApportionment
  driverTotal : Option String

/-- The targets of a rule, in sequence. -/
def explodeTargets (line : EntryLineInput) (ruleInEffect : RuleInEffect) (opts : ExplodeOptions) :
    Except EntryPlanError (List AllocationRuleTarget) :=
  let inSequence (targets : List AllocationRuleTarget) :=
    targets.insertionSort fun a b => a.sequence ≤ b.sequence
  let quoted := "rule \"" ++ ruleInEffect.rule.key ++ "\""
  match ruleInEffect.version.targetKind with
  | .dynamic => do
    let resolve ← orRefuse opts.resolveDynamicTargets (.entryAllocation .misconfiguredRule
      (quoted ++ " has dynamic targets but no resolver was provided") : EntryPlanError)
    let targets := inSequence (resolve ruleInEffect.version line)
    refuseIf (targets = []) (.entryAllocation .noDriverWeight
      (quoted ++ " resolved to no targets — nothing to apportion to") : EntryPlanError)
    return targets
  | .explicit => do
    let targets := inSequence ruleInEffect.targets
    refuseIf (targets = []) (.entryAllocation .misconfiguredRule
      (quoted ++ " has no targets to explode into") : EntryPlanError)
    return targets

/-- The weighted targets, their units and the driver's total, by the basis of the rule. -/
def explodeWeights (targets : List AllocationRuleTarget) (version : AllocationRuleVersion)
    (opts : ExplodeOptions) : Except EntryPlanError (List WeightedTarget × List ℤ × Option String) :=
  match version.basisKind with
  | .driver => driverWeights targets opts
  | _ => do
    let weighted ← (fixedPercentWeights targets).mapError fun error =>
      EntryPlanError.entryAllocation .misconfiguredRule error.message
    let weightUnits ← weighted.mapM fun w => parseWeight w.weight "fixed percent"
    return (weighted, weightUnits, none)

/-- The apportionment, its refusals routed into the entry contract. -/
def apportionMoney (total : ℤ) (weights : List WeightedTarget) (version : AllocationRuleVersion)
    (ruleKey : String) : Except EntryPlanError ApportionResult :=
  (apportionTargets total weights version.residualPolicy version.residualTargetId).mapError fun error =>
    match error.code with
    | .noDriverWeight => .entryAllocation .noDriverWeight
      ("rule \"" ++ ruleKey ++ "\" resolved to no driver weight: " ++ error.message)
    | .kernel => .money error.message
    | _ => .entryAllocation .misconfiguredRule error.message

def explodedChild (line : EntryLineInput) (ruleInEffect : RuleInEffect) (groupId : String)
    (t : AllocationRuleTarget) (amount : ℤ) (quantity cost : Option ℤ) : PlannedEntryLine where
  accountId := t.targetAccountId.getD line.accountId
  amount := amount
  quantity := quantity
  unit := line.unit
  unitPrice := line.unitPrice
  itemId := line.itemId
  description := match ruleInEffect.version.lineDescriptionTemplate with
    | some template => some (renderAllocationTemplate template
        [("rule", .record [("key", some ruleInEffect.rule.key), ("name", some ruleInEffect.rule.name)]),
          ("target", .record [("label", t.label), ("sequence", some (toString t.sequence))])])
    | none => line.description
  taxCodeId := line.taxCodeId
  taxGroupId := line.taxGroupId
  withholdingTreatment := line.withholdingTreatment
  withholdingMaterialsCost := cost
  marketplaceFacilitator := line.marketplaceFacilitator
  partyId := line.partyId
  departmentId := t.departmentId.or line.departmentId
  projectId := t.projectId.or line.projectId
  locationId := t.locationId.or line.locationId
  classId := t.classId.or line.classId
  subsidiaryId := t.subsidiaryId.or line.subsidiaryId
  stockLocationId := line.stockLocationId
  extraDims := spread line.extraDims t.extraDims
  custom := line.custom
  isBillable := line.isBillable
  workFrom := line.workFrom
  workTo := line.workTo
  amortizationTemplateId := line.amortizationTemplateId
  amortizationStartOn := line.amortizationStartOn
  amortizationEndOn := line.amortizationEndOn
  distributionGroupId := some groupId
  distributionRuleId := some ruleInEffect.rule.id
  distributionVersionId := some ruleInEffect.version.id
  distributionLocked := false

/-- Explode one entered line across a rule's targets. -/
def explodeDocumentLine (line : EntryLineInput) (ruleInEffect : RuleInEffect)
    (opts : ExplodeOptions) : Except EntryPlanError ExplodeResult := do
  let version := ruleInEffect.version
  refuseIf (version.basisKind = .stepped) (.entryAllocation .unsupportedBasis ("rule \"" ++
    ruleInEffect.rule.key ++ "\" uses a stepped basis, which entry-mode explosion does not support") :
    EntryPlanError)
  let ordered ← explodeTargets line ruleInEffect opts
  let (weighted, weightUnits, driverTotal) ← explodeWeights ordered version opts
  let apportioned ← apportionMoney line.amount weighted version ruleInEffect.rule.key
  let amounts := apportioned.targets.map ApportionedTarget.amount
  let residualAt := weighted.findIdx fun w => some w.key = apportioned.residualKey
  let residualIdx := if residualAt < weighted.length then residualAt else 0
  let quantities ← line.quantity.mapM fun q => apportionExactUnits q weightUnits residualIdx
  let costs ← apportionWithholdingMaterialsCost line.withholdingMaterialsCost amounts
  let children := ordered.mapIdx fun i t => explodedChild line ruleInEffect opts.groupId t
    (amounts.getD i 0) (quantities.map (·.getD i 0)) (costs.getD i none)
  let apportionments := apportioned.targets.mapIdx fun i t => (⟨t.share, t.amount, t.residual,
    if version.basisKind = .driver then
      some (formatScaled (weightUnits.getD i 0 / (WEIGHT_SCALE / 10000)) 4) else none⟩ :
    ChildApportionment)
  return ⟨children, apportionments, driverTotal⟩

/-! ### Alignment -/

variable {targets : List AllocationRuleTarget} {weighted : List WeightedTarget}

theorem length_fixedPercentWeights (h : fixedPercentWeights targets = .ok weighted) :
    weighted.length = targets.length := by
  simp only [fixedPercentWeights, bind_eq_ok, refuseIf_eq_ok, pure_eq_ok] at h
  obtain ⟨_, -, out, hout, _, -, _, -, rfl⟩ := h
  rw [length_map]
  exact (mapM_eq_ok.mp hout).length_eq.symm

variable {opts : ExplodeOptions}

theorem length_explodeWeights {version : AllocationRuleVersion} {units : List ℤ}
    {driverTotal : Option String}
    (h : explodeWeights targets version opts = .ok (weighted, units, driverTotal)) :
    weighted.length = targets.length := by
  rw [explodeWeights] at h
  split at h
  · simp only [driverWeights, bind_eq_ok, pure_eq_ok, Prod.mk.injEq] at h
    obtain ⟨_, -, rfl, -⟩ := h
    exact length_map _
  · simp only [bind_eq_ok, pure_eq_ok, Prod.mk.injEq, mapError_eq_ok] at h
    obtain ⟨_, hweights, _, -, rfl, -⟩ := h
    exact length_fixedPercentWeights hweights

theorem map_mapIdx_getD {α β γ : Type} {xs : List α} {ys : List β} {f : ℕ → α → β → γ} {g : γ → β}
    (h : ys.length = xs.length) (hg : ∀ i x y, g (f i x y) = y) (d : β) :
    (xs.mapIdx fun i x => f i x (ys.getD i d)).map g = ys := by
  refine ext_getElem (by simpa using h.symm) fun i h₁ h₂ => ?_
  simp [hg, getElem?_eq_getElem h₂]

/-- **An explosion is aligned.** The children make up the line, the evidence has their
amounts in their order, and every child is stamped with the rule and the version. -/
theorem explodeDocumentLine_aligned {line : EntryLineInput} {rule : RuleInEffect}
    {result : ExplodeResult} (h : explodeDocumentLine line rule opts = .ok result) :
    (result.children.map PlannedEntryLine.amount).sum = line.amount ∧
      result.apportionments.map ChildApportionment.amount =
        result.children.map PlannedEntryLine.amount ∧
      ∀ child ∈ result.children, child.distributionRuleId = some rule.rule.id ∧
        child.distributionVersionId = some rule.version.id := by
  simp only [explodeDocumentLine, bind_eq_ok, refuseIf_eq_ok, pure_eq_ok] at h
  obtain ⟨_, -, ordered, -, ⟨weighted, units, driverTotal⟩, hweights, apportioned, happortioned,
    quantities, -, costs, -, rfl⟩ := h
  simp only [apportionMoney, mapError_eq_ok] at happortioned
  obtain ⟨hsum, hlen⟩ := sum_apportionTargets happortioned
  have hlength : (apportioned.targets.map ApportionedTarget.amount).length = ordered.length := by
    rw [length_map, hlen, length_explodeWeights hweights]
  have hchildren := map_mapIdx_getD hlength (f := fun i t amount =>
    explodedChild line rule opts.groupId t amount (quantities.map (·.getD i 0)) (costs.getD i none))
    (g := PlannedEntryLine.amount) (fun _ _ _ => rfl) 0
  refine ⟨?_, ?_, ?_⟩
  · rw [hchildren, hsum]
  · rw [hchildren]
    refine map_mapIdx_of_forall fun i t => ?_
    rfl
  · intro child hchild
    obtain ⟨i, hi, rfl⟩ := mem_mapIdx.mp hchild
    exact ⟨rfl, rfl⟩

end OpenBooks
