import OpenBooks.Allocations.Explode
import OpenBooks.Lib.FirstSeen

/-!
# Planning the distributions of a document

`planEntryDistributions` decides the fate of every submitted line, in four
passes over one state: explicit keys explode; un-split requests collapse a group to one
line; the members of the other groups are kept, regenerated or – when the group is
unknown – stripped of their stamps in place; and whatever no pass has handled is matched
against the automatic rules, or stays as it is.

A new group id is minted for each fresh explosion; `newGroupId n` is the `n`-th one.
-/

namespace OpenBooks

open Checked

/-! ### What the planner is given -/

structure EntryDocumentContext where
  kind : String
  departmentId : Option String := none
  projectId : Option String := none
  locationId : Option String := none
  classId : Option String := none
  subsidiaryId : Option String := none
  extraDims : ExtraDims := []
  unsplitDistributionGroups : List String := []

/-- A stored group; `total` is the text of the exact sum of its members. -/
structure StoredEntryGroup where
  groupId : String
  ruleId : Option String
  versionId : Option String
  locked : Bool
  total : String
  memberIds : List String

structure PlanOptions where
  explicitRules : String → Option RuleInEffect := fun _ => none
  driverVectors : String → Option DriverVector := fun _ => none
  driverDimensions : String → Option String := fun _ => none
  resolveDynamicTargets :
    Option (AllocationRuleVersion → EntryLineInput → List AllocationRuleTarget) := none
  resolveAccountGroup : Option AccountGroupResolver := none
  existingGroups : String → Option StoredEntryGroup := fun _ => none
  newGroupId : ℕ → String

/-- The options of one explosion by `rule`. -/
def PlanOptions.explodeOptions (opts : PlanOptions) (rule : RuleInEffect) (groupId : String) :
    ExplodeOptions where
  driverVector := opts.driverVectors rule.rule.id
  driverDimension := opts.driverDimensions rule.rule.id
  resolveDynamicTargets := opts.resolveDynamicTargets
  groupId := groupId

/-! ### What it returns -/

/-- Lineage before ids are known. -/
structure PlannedEntryLineage where
  ruleId : String
  versionId : String
  definitionHash : String
  driverId : Option String
  driverValue : Option String
  driverTotal : Option String
  share : String
  amount : ℤ
  residual : ℤ
  targetLineIndex : ℕ
  sourceDocumentLineId : Option String

structure EntryPlan where
  lines : List PlannedEntryLine
  lineage : List PlannedEntryLineage
  exploded : Bool

/-! ### Lines one at a time -/

def plainLine (line : EntryLineInput) : PlannedEntryLine where
  accountId := line.accountId
  amount := line.amount
  quantity := line.quantity
  unit := line.unit
  unitPrice := line.unitPrice
  itemId := line.itemId
  description := line.description
  taxCodeId := line.taxCodeId
  taxGroupId := line.taxGroupId
  withholdingTreatment := line.withholdingTreatment
  withholdingMaterialsCost := line.withholdingMaterialsCost
  marketplaceFacilitator := line.marketplaceFacilitator
  partyId := line.partyId
  departmentId := line.departmentId
  projectId := line.projectId
  locationId := line.locationId
  classId := line.classId
  subsidiaryId := line.subsidiaryId
  stockLocationId := line.stockLocationId
  extraDims := line.extraDims
  custom := line.custom
  isBillable := line.isBillable
  workFrom := line.workFrom
  workTo := line.workTo
  amortizationTemplateId := line.amortizationTemplateId
  amortizationStartOn := line.amortizationStartOn
  amortizationEndOn := line.amortizationEndOn
  distributionGroupId := none
  distributionRuleId := none
  distributionVersionId := none
  distributionLocked := false

/-- A member of a stored group that stays as submitted. An absent lock flag keeps the
stored one. -/
def keptMember (line : EntryLineInput) (stored : StoredEntryGroup) : PlannedEntryLine :=
  { plainLine line with
    distributionGroupId := some stored.groupId
    distributionRuleId := stored.ruleId
    distributionVersionId := stored.versionId
    distributionLocked := line.distributionLocked.getD stored.locked }

def effectiveCoordinate (doc : EntryDocumentContext) (line : EntryLineInput) : LineCoordinate where
  accountId := line.accountId
  subsidiaryId := line.subsidiaryId.or doc.subsidiaryId
  departmentId := line.departmentId.or doc.departmentId
  locationId := line.locationId.or doc.locationId
  classId := line.classId.or doc.classId
  projectId := line.projectId.or doc.projectId
  partyId := line.partyId
  extraDims := spread doc.extraDims line.extraDims
  documentKind := some doc.kind
  itemId := line.itemId
  amount := line.amount

def submittedTotal (members : List EntryLineInput) : ℤ :=
  (members.map EntryLineInput.amount).sum

/-- The members as one line, at the first one's coordinates. The quantity is theirs when
every member has one. -/
def mergeMembers (members : List EntryLineInput) : Except EntryPlanError EntryLineInput := do
  let first ← orRefuse members.head? EntryPlanError.missingMember
  let quantity := if ∀ m ∈ members, m.quantity ≠ none then
    some (members.map fun m => m.quantity.getD 0).sum else none
  let (treatment, cost) ← collapseWithholdingLineMetadata members
  return { first with
    withholdingTreatment := treatment
    withholdingMaterialsCost := cost
    amount := submittedTotal members
    quantity := quantity }

def toLineage (rule : RuleInEffect) (result : ExplodeResult) (baseIndex : ℕ)
    (sourceDocumentLineId : Option String) : List PlannedEntryLineage :=
  result.apportionments.mapIdx fun i a =>
    { ruleId := rule.rule.id
      versionId := rule.version.id
      definitionHash := rule.version.definitionHash.getD ""
      driverId := rule.version.driverId
      driverValue := a.driverValue
      driverTotal := result.driverTotal
      share := a.share
      amount := a.amount
      residual := a.residual
      targetLineIndex := baseIndex + i
      sourceDocumentLineId := sourceDocumentLineId }

/-! ### The passes -/

/-- What the passes share: the lines, of which the third strips some; the indices
handled; the output so far. -/
structure PlanState where
  lines : List EntryLineInput
  handled : List ℕ := []
  collapsedGroups : List String := []
  minted : ℕ := 0
  output : List PlannedEntryLine := []
  lineage : List PlannedEntryLineage := []
  exploded : Bool := false

/-- Explode a line into the output, with its lineage. -/
def PlanState.explode (opts : PlanOptions) (s : PlanState) (line : EntryLineInput)
    (rule : RuleInEffect) (groupId : String) (sourceDocumentLineId : Option String) :
    Except EntryPlanError PlanState := do
  let result ← explodeDocumentLine line rule (opts.explodeOptions rule groupId)
  return { s with
    output := s.output ++ result.children
    lineage := s.lineage ++ toLineage rule result s.output.length sourceDocumentLineId
    exploded := true }

/-- A fresh explosion, under a new group id. -/
def PlanState.explodeFresh (opts : PlanOptions) (s : PlanState) (line : EntryLineInput)
    (rule : RuleInEffect) : Except EntryPlanError PlanState :=
  PlanState.explode opts { s with minted := s.minted + 1 } line rule (opts.newGroupId s.minted) none

def PlanState.markHandled (s : PlanState) (indices : List ℕ) : PlanState :=
  { s with handled := indices ++ s.handled }

def explicitStep (rulesInEffect : List RuleInEffect) (opts : PlanOptions) (s : PlanState)
    (p : EntryLineInput × ℕ) : Except EntryPlanError PlanState :=
  match truthy p.1.distributionKey with
  | none => .ok s
  | some key => do
    let rule ← orRefuse ((opts.explicitRules key).or (rulesInEffect.find? (·.rule.key = key)))
      (.entryAllocation .unknownKey ("distributionKey \"" ++ key ++
        "\" does not match a rule in effect") : EntryPlanError)
    let s ← s.explodeFresh opts p.1 rule
    return s.markHandled [p.2]

/-- The lines without a key that a group has. -/
def groupMembers (lines : List EntryLineInput) (groupId : String) : List (EntryLineInput × ℕ) :=
  lines.zipIdx.filter fun p =>
    p.1.distributionGroupId = some groupId ∧ truthy p.1.distributionKey = none

/-- A line of a group to be collapsed: the first collapses the whole group. -/
def collapseStep (unsplit : List String) (s : PlanState) (p : EntryLineInput × ℕ) :
    Except EntryPlanError PlanState :=
  if p.2 ∈ s.handled then .ok s
  else match truthy p.1.distributionGroupId with
    | none => .ok s
    | some groupId =>
      if groupId ∉ unsplit then .ok s
      else if groupId ∈ s.collapsedGroups then .ok (s.markHandled [p.2])
      else do
        let merged ← mergeMembers ((groupMembers s.lines groupId).map Prod.fst)
        return PlanState.markHandled
          { s with
            collapsedGroups := groupId :: s.collapsedGroups
            output := s.output ++ [plainLine merged]
            exploded := true } [p.2]

/-- A line belongs to a group that is not to be collapsed. -/
def belongsToGroup (unsplit : List String) (line : EntryLineInput) : Bool :=
  truthy line.distributionKey = none ∧ ∃ g ∈ truthy line.distributionGroupId, g ∉ unsplit

def memberIndicesByGroup (unsplit : List String) (lines : List EntryLineInput) :
    List (String × List ℕ) :=
  (FirstSeen.groupBy (fun p : EntryLineInput × ℕ => p.1.distributionGroupId.getD "")
    (lines.zipIdx.filter fun p => belongsToGroup unsplit p.1)).map fun g => (g.1, g.2.map Prod.snd)

/-- A line without the stamps of a group. -/
def stripped (line : EntryLineInput) : EntryLineInput :=
  { line with distributionGroupId := none, distributionLocked := none }

/-- Push planned members as they are and mark them. -/
def PlanState.keep (s : PlanState) (indices : List ℕ) (planned : List PlannedEntryLine) : PlanState :=
  PlanState.markHandled { s with output := s.output ++ planned } indices

/-- The lock of a group: any member's lock, then any member's unlock, then the stored one. -/
def groupLocked (members : List EntryLineInput) (stored : StoredEntryGroup) : Bool :=
  if ∃ m ∈ members, m.distributionLocked = some true then true
  else if ∃ m ∈ members, m.distributionLocked = some false then false
  else stored.locked

/-- The members of one group. -/
def groupStep (rulesInEffect : List RuleInEffect) (opts : PlanOptions) (s : PlanState)
    (g : String × List ℕ) : Except EntryPlanError PlanState :=
  let members := g.2.filterMap fun i => s.lines[i]?
  match opts.existingGroups g.1 with
  | none =>
    if ∀ m ∈ members, m.distributionLocked = some true then
      -- explicit manual splits are already allocated
      .ok (s.keep g.2 (members.map fun m =>
        { plainLine m with distributionGroupId := some g.1, distributionLocked := true }))
    else .ok { s with lines := s.lines.mapIdx fun i l => if i ∈ g.2 then stripped l else l }
  | some stored =>
    let locked := groupLocked members stored
    if locked ∨ fromUnits (submittedTotal members) = stored.total then
      .ok (s.keep g.2 (members.map fun m => keptMember m { stored with locked := locked }))
    else match rulesInEffect.find? fun r => some r.rule.id = stored.ruleId with
      | none => .ok (s.keep g.2 (members.map fun m => keptMember m stored))
      | some rule => do
        let merged ← mergeMembers members
        let s ← s.explode opts merged rule g.1 stored.memberIds.head?
        return s.markHandled g.2

def matchStep (doc : EntryDocumentContext) (rulesInEffect : List RuleInEffect) (opts : PlanOptions)
    (s : PlanState) (p : EntryLineInput × ℕ) : Except EntryPlanError PlanState :=
  if p.2 ∈ s.handled then .ok s
  else match selectRule rulesInEffect (effectiveCoordinate doc p.1) .automatic
      opts.resolveAccountGroup with
    | none => .ok { s with output := s.output ++ [plainLine p.1] }
    | some rule => s.explodeFresh opts p.1 rule

/-- Decide the fate of every submitted line. -/
def planEntryDistributions (doc : EntryDocumentContext) (lines : List EntryLineInput)
    (rulesInEffect : List RuleInEffect) (opts : PlanOptions) : Except EntryPlanError EntryPlan := do
  let unsplit := doc.unsplitDistributionGroups
  let s ← lines.zipIdx.foldlM (explicitStep rulesInEffect opts) { lines := lines }
  let s ← s.lines.zipIdx.foldlM (collapseStep unsplit) s
  let s ← (memberIndicesByGroup unsplit lines).foldlM (groupStep rulesInEffect opts) s
  let s ← s.lines.zipIdx.foldlM (matchStep doc rulesInEffect opts) s
  return ⟨s.output, s.lineage, s.exploded⟩

end OpenBooks
