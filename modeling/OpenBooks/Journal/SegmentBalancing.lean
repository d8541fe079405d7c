import OpenBooks.Lib.FirstSeen
import OpenBooks.Lib.Record
import OpenBooks.Ledger.Contracts

/-!
# Balancing custom segments

A segment marked balancing has to balance for every subsidiary and value.
`genericSegmentBalancingProvider` looks at one balancing definition at a time, on lines whose
missing segments have been given their defaults; when some definition is not balanced it clears
**every full tuple of dimensions** that is not: one leg per `GenericBalancingGroup`.

The two views meet in the segment values. A line's value under a key may be missing, an explicit
null or a text; the tuple of a group keeps the texts only.

The source groups by the canonical text of a tuple and sorts the groups by that text; here the tuple
itself, its segments sorted by key, is the key, and the order of the texts is a parameter. What the
provider reads elsewhere is in `BalancingEnv`.
-/

namespace OpenBooks

open Checked

/-! ### Lines -/

/-- One final line as a provider sees it; a segment value of `none` is an explicit null. -/
structure BalancingLineView where
  accountId : String
  amount : ℤ
  subsidiaryId : String
  departmentId : Option String := none
  projectId : Option String := none
  locationId : Option String := none
  classId : Option String := none
  currency : String
  txnAmount : ℤ
  fxRate : ℤ
  extraDims : Record (Option String) := Record.empty

/-- One leg a provider appends. -/
structure BalancingLeg where
  departmentId : Option String
  projectId : Option String
  locationId : Option String
  classId : Option String
  accountId : String
  amount : ℤ
  subsidiaryId : String
  currency : String
  txnAmount : ℤ
  fxRate : ℤ
  extraDims : Record String
  memo : String

def BalancingLeg.view (leg : BalancingLeg) : BalancingLineView where
  accountId := leg.accountId
  amount := leg.amount
  subsidiaryId := leg.subsidiaryId
  departmentId := leg.departmentId
  projectId := leg.projectId
  locationId := leg.locationId
  classId := leg.classId
  currency := leg.currency
  txnAmount := leg.txnAmount
  fxRate := leg.fxRate
  extraDims := leg.extraDims.filterMapValues fun v => some (some v)

/-- The lines with legs appended, as the next provider sees them. -/
def viewWith (lines : List BalancingLineView) (legs : List BalancingLeg) : List BalancingLineView :=
  lines ++ legs.map BalancingLeg.view

/-! ### Groups -/

/-- The texts among the segment values of a line. -/
def textDims (line : BalancingLineView) : Record String := line.extraDims.filterMapValues id

structure DimensionTuple where
  subsidiaryId : String
  departmentId : Option String
  projectId : Option String
  locationId : Option String
  classId : Option String
  extraDims : List (String × String)
  deriving DecidableEq

def dimensionTuple (line : BalancingLineView) : DimensionTuple where
  subsidiaryId := line.subsidiaryId
  departmentId := line.departmentId
  projectId := line.projectId
  locationId := line.locationId
  classId := line.classId
  extraDims := (textDims line).canonical

/-- Lines of one tuple: the dimensions, as the first of them has them, and the sum. -/
structure GenericBalancingGroup where
  subsidiaryId : String
  extraDims : Record String
  departmentId : Option String
  projectId : Option String
  locationId : Option String
  classId : Option String
  amount : ℤ

def balancingGroup (lines : List BalancingLineView) : Option GenericBalancingGroup :=
  lines.head?.map fun first =>
    { subsidiaryId := first.subsidiaryId
      extraDims := textDims first
      departmentId := first.departmentId
      projectId := first.projectId
      locationId := first.locationId
      classId := first.classId
      amount := (lines.map BalancingLineView.amount).sum }

/-- The order of the canonical texts of tuples. -/
abbrev TupleOrder := DimensionTuple → DimensionTuple → Bool

/-- The groups that do not sum to zero. -/
def genericBalancingGroups (localeCompare : TupleOrder) (lines : List BalancingLineView) :
    List GenericBalancingGroup :=
  let groups := (FirstSeen.groupBy dimensionTuple lines).insertionSort fun a b => localeCompare a.1 b.1
  (groups.filterMap fun g => balancingGroup g.2).filter fun group => group.amount ≠ 0

/-! ### Definitions -/

/-- A balancing segment with the clearing account of its policy. -/
structure SegmentDefinition where
  key : String
  storageColumn : Option String := none
  defaultValueId : Option String := none
  accountId : Option String := none

/-- The value of a line in a definition's dimension: a column of the line, or a segment. Segments
are looked up among the line's own: for a key that every object inherits, such as `constructor`, the
source finds what is inherited and throws, which is left out. -/
def dimension (line : BalancingLineView) (key : String) (storage : Option String) : Option String :=
  match truthy storage with
  | none => (line.extraDims.get? key).getD none
  | some column =>
    if column = "subsidiary_id" then some line.subsidiaryId
    else if column = "department_id" then line.departmentId
    else if column = "project_id" then line.projectId
    else if column = "location_id" then line.locationId
    else if column = "class_id" then line.classId
    else none

/-- Give the line a definition's default, if the segment is missing. -/
def stampDefault (extraDims : Record (Option String)) (definition : SegmentDefinition) :
    Record (Option String) :=
  match truthy definition.storageColumn, definition.defaultValueId with
  | none, some value => extraDims.setIfAbsent definition.key (some value)
  | _, _ => extraDims

def effectiveLine (definitions : List SegmentDefinition) (line : BalancingLineView) :
    BalancingLineView :=
  { line with extraDims := definitions.foldl stampDefault line.extraDims }

/-- Some subsidiary and value of a definition does not sum to zero. -/
def isUnbalanced (effectiveLines : List BalancingLineView) (definition : SegmentDefinition) : Bool :=
  (FirstSeen.groupBy (fun line : BalancingLineView => (line.subsidiaryId,
      dimension line definition.key definition.storageColumn)) effectiveLines).any fun g =>
    (g.2.map BalancingLineView.amount).sum ≠ 0

/-! ### The provider -/

/-- What the provider reads besides the lines and the definitions. `book` is whether the
active posting book is the primary one. -/
structure BalancingEnv where
  postingDate : String
  localeCompare : TupleOrder
  book : Option Bool
  resolveBookBases : List String → Except PostingError (String → String)
  applyBookAccountMaps : String → String → Except PostingError String
  clearingAccountAvailable : String → Bool

/-- The clearing account of a subsidiary, once mapped and found available. -/
def clearingAccount (env : BalancingEnv) (isPrimary : Bool) (accountId subsidiaryId : String) :
    Except PostingError String := do
  let mapped ← if isPrimary then .ok accountId else env.applyBookAccountMaps accountId subsidiaryId
  refuseIf (env.clearingAccountAvailable mapped = false) (⟨
    "The segment balancing clearing account is unavailable. Choose an active balance-sheet clearing account in Setup → Segment balancing policies."⟩ :
    PostingError)
  return mapped

def balancingLeg (env : BalancingEnv) (isPrimary : Bool) (policyKey accountId : String)
    (bookCurrency : String → String) (group : GenericBalancingGroup) :
    Except PostingError BalancingLeg := do
  let accountId ← clearingAccount env isPrimary accountId group.subsidiaryId
  return {
    departmentId := group.departmentId
    projectId := group.projectId
    locationId := group.locationId
    classId := group.classId
    accountId := accountId
    amount := -group.amount
    subsidiaryId := group.subsidiaryId
    currency := bookCurrency group.subsidiaryId
    txnAmount := -group.amount
    fxRate := RATE_SCALE
    extraDims := group.extraDims
    memo := "Balance segment " ++ policyKey }

def genericSegmentBalancingProvider (env : BalancingEnv) (definitions : List SegmentDefinition)
    (lines : List BalancingLineView) : Except PostingError (List BalancingLeg) :=
  let effectiveLines := lines.map (effectiveLine definitions)
  match definitions.filter (isUnbalanced effectiveLines) with
  | [] => .ok []
  | policy :: others => do
    let _ ← (policy :: others).mapM fun definition => orRefuse (truthy definition.accountId)
      (⟨"Balancing segment " ++ definition.key ++ " has no clearing policy for " ++ env.postingDate ++
        ". Configure a policy in Setup → Segment balancing policies."⟩ : PostingError)
    let isPrimary ← orRefuse env.book
      (⟨"Segment balancing requires an active posting book."⟩ : PostingError)
    let groups := genericBalancingGroups env.localeCompare effectiveLines
    let bases ← env.resolveBookBases (groups.map GenericBalancingGroup.subsidiaryId)
    groups.mapM (balancingLeg env isPrimary policy.key (policy.accountId.getD "") bases)

end OpenBooks
