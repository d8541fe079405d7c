import OpenBooks.Allocations.Apportion
import OpenBooks.Ledger.Contracts

/-!
# Allocation rules and which of them fires

A rule in effect is its head, the version in force and its targets. `matchLine`
decides whether a version considers a line, every predicate it has holding, and counts
the predicates; `selectRule` takes the most specific candidate.
-/

namespace OpenBooks

open Checked

/-! ### Rules -/

inductive AllocationApplyPolicy
  | automatic
  | suggest
  | manual
  deriving DecidableEq

inductive AllocationBasisKind
  | fixedPercent
  | driver
  | stepped
  deriving DecidableEq

inductive AllocationTargetKind
  | explicit
  | dynamic
  deriving DecidableEq

/-- The accounts a version considers. -/
inductive AccountScope
  | any
  | accounts (accountIds : List String)
  | accountGroup (dimension groupKey : String)
  deriving DecidableEq

/-- The dimensions a line can be required to have no value in. -/
inductive UntaggableDimension
  | department
  | location
  | class_
  | project
  deriving DecidableEq

/-- The dimension filters of a version; an empty list stands for an absent key. -/
structure DimensionFilters where
  payrollExpensesOnly : Bool := false
  departmentIds : List String := []
  locationIds : List String := []
  classIds : List String := []
  projectIds : List String := []
  subsidiaryIds : List String := []
  partyIds : List String := []
  itemIds : List String := []
  payComponentIds : List String := []
  payrollEmployeeIds : List String := []
  timeTypeIds : List String := []
  extraDims : List (String × List String) := []
  requireUntagged : List UntaggableDimension := []

structure AllocationRuleHead where
  id : String
  key : String
  name : String
  sortOrder : ℤ

/-- A target of a rule. Percents are in ten-thousandths, weights in ten-billionths. -/
structure AllocationRuleTarget where
  id : Option String := none
  sequence : ℤ
  targetAccountId : Option String := none
  departmentId : Option String := none
  locationId : Option String := none
  classId : Option String := none
  projectId : Option String := none
  subsidiaryId : Option String := none
  extraDims : ExtraDims := []
  fixedPercent : Option ℤ := none
  weight : Option ℤ := none
  isRemainder : Bool := false
  label : Option String := none
  deriving DecidableEq

structure AllocationRuleVersion where
  id : String
  documentKinds : List String := []
  accountScope : AccountScope := .any
  dimensionFilters : DimensionFilters := {}
  applyPolicy : AllocationApplyPolicy := .automatic
  basisKind : AllocationBasisKind := .fixedPercent
  driverId : Option String := none
  targetKind : AllocationTargetKind := .explicit
  residualPolicy : AllocationResidualPolicy := .largestShare
  residualTargetId : Option String := none
  lineDescriptionTemplate : Option String := none
  definitionHash : Option String := none

/-- A rule head, the version in force and its targets. -/
structure RuleInEffect where
  rule : AllocationRuleHead
  version : AllocationRuleVersion
  targets : List AllocationRuleTarget

/-! ### Matching -/

/-- What the matcher sees of one line. -/
structure LineCoordinate where
  accountId : String
  subsidiaryId : Option String := none
  departmentId : Option String := none
  locationId : Option String := none
  classId : Option String := none
  projectId : Option String := none
  partyId : Option String := none
  extraDims : ExtraDims := []
  payrollExpense : Bool := false
  payComponentId : Option String := none
  payrollEmployeeId : Option String := none
  timeTypeId : Option String := none
  documentKind : Option String := none
  itemId : Option String := none
  amount : ℤ

abbrev AccountGroupResolver := String → String → List String

/-- A filter on one value: absent, or one of the ids. A list with a blank id is no
filter. -/
def idPredicate (ids : List String) (value : Option String) : Option Bool :=
  if ids = [] ∨ "" ∈ ids then none else some (value.any fun v => v ∈ ids)

/-- Whether a line has no value in a dimension. -/
def UntaggableDimension.untagged (line : LineCoordinate) : UntaggableDimension → Bool
  | .department => line.departmentId.all (· = "")
  | .location => line.locationId.all (· = "")
  | .class_ => line.classId.all (· = "")
  | .project => line.projectId.all (· = "")

def matchAccountScope (scope : AccountScope) (line : LineCoordinate)
    (resolveAccountGroup : Option AccountGroupResolver) : Bool :=
  match scope with
  | .any => true
  | .accounts accountIds => line.accountId ∈ accountIds
  | .accountGroup dimension groupKey =>
    resolveAccountGroup.any fun resolve => line.accountId ∈ resolve dimension groupKey

/-- The predicates a version has, each with whether the line meets it. -/
def versionPredicates (version : AllocationRuleVersion) (line : LineCoordinate)
    (resolveAccountGroup : Option AccountGroupResolver) : List (Option Bool) :=
  let filters := version.dimensionFilters
  [ if version.documentKinds = [] then none
      else some (line.documentKind.any fun kind => kind ∈ version.documentKinds),
    if version.accountScope = .any then none
      else some (matchAccountScope version.accountScope line resolveAccountGroup),
    if filters.payrollExpensesOnly then
      some (line.documentKind = some "pay_run" && line.payrollExpense)
    else none,
    idPredicate filters.departmentIds line.departmentId,
    idPredicate filters.locationIds line.locationId,
    idPredicate filters.classIds line.classId,
    idPredicate filters.projectIds line.projectId,
    idPredicate filters.subsidiaryIds line.subsidiaryId,
    idPredicate filters.partyIds line.partyId,
    idPredicate filters.itemIds line.itemId,
    idPredicate filters.payComponentIds line.payComponentId,
    idPredicate filters.payrollEmployeeIds line.payrollEmployeeId,
    idPredicate filters.timeTypeIds line.timeTypeId ] ++
  filters.extraDims.map (fun d => idPredicate d.2 ((line.extraDims.lookup d.1).getD none)) ++
  [ if filters.requireUntagged = [] then none
      else some (filters.requireUntagged.all (·.untagged line)) ]

/-- Whether a version considers a line, and how specifically. -/
def matchLine (version : AllocationRuleVersion) (line : LineCoordinate)
    (resolveAccountGroup : Option AccountGroupResolver) : Option ℕ :=
  let predicates := (versionPredicates version line resolveAccountGroup).filterMap id
  if predicates.all id then some predicates.length else none

/-- A candidate with its specificity is better than another: more specific, or by sort
order, or by key. -/
def beats (candidate best : RuleInEffect × ℕ) : Bool :=
  best.2 < candidate.2 ∨ (candidate.2 = best.2 ∧
    (candidate.1.rule.sortOrder < best.1.rule.sortOrder ∨
      (candidate.1.rule.sortOrder = best.1.rule.sortOrder ∧
        candidate.1.rule.key < best.1.rule.key)))

/-- The most specific matching candidate of the given policy. -/
def selectRule (candidates : List RuleInEffect) (line : LineCoordinate)
    (applyPolicy : AllocationApplyPolicy) (resolveAccountGroup : Option AccountGroupResolver) :
    Option RuleInEffect :=
  let best := candidates.foldl (fun best candidate =>
    if candidate.version.applyPolicy ≠ applyPolicy then best
    else match matchLine candidate.version line resolveAccountGroup with
      | none => best
      | some specificity =>
        if best.all fun b => beats (candidate, specificity) b then some (candidate, specificity)
        else best) (none : Option (RuleInEffect × ℕ))
  best.map Prod.fst

end OpenBooks
