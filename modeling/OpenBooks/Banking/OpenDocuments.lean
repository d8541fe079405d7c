import OpenBooks.Banking.MatchText
import OpenBooks.Lib.SubsetSearch
import OpenBooks.Platform.CivilDate

/-!
# Ranking open documents

A line of a bank statement may pay open invoices or bills. `rankOpenDocuments` scores every open
document against the line and proposes settlements: one document whose balance is the amount,
several documents of one party that sum to it, a part payment of a larger balance, and an
overpayment of a smaller one. The last two are proposed only where the document itself points at the
line.

The documents of one party, account and subsidiary are combined by a bounded search
(`exactSubsets`).
-/

namespace OpenBooks

open Checked Comparators

/-! ### Documents and lines -/

structure OpenDocumentFacts where
  openLineId : String
  partyId : String
  partyName : Option String := none
  accountId : String
  subsidiaryId : Option String := none
  documentNumber : Option String := none
  referenceNumber : Option String := none
  entryNumber : String
  dueDate : Option String := none
  transactionOpen : ℤ

structure SettlementLineFacts where
  postedOn : String
  amount : ℤ
  description : Option String := none
  counterpartyRef : Option String := none

/-- The reasons that the ranking gives. -/
inductive MatchReason
  | exactOpenBalance
  | combinedOpenBalance (count : ℕ)
  | partialOpenBalance (remaining : ℤ)
  | onAccountRemainder (remainder : ℤ)
  | sharedReference (reference : String)
  | sharedCounterparty (tokens : List String)
  | dueDate (days : ℤ)

structure RankedOpenDocument extends OpenDocumentFacts where
  score : ℤ
  reasons : List MatchReason

inductive ProposalSettlement
  | exact
  | partialPayment
  | overpayment
  deriving DecidableEq

structure OpenDocumentProposal where
  openLineIds : List String
  partyId : String
  partyName : Option String
  total : ℤ
  settlement : ProposalSettlement
  /-- Cash applied to each document, by its open line. -/
  applied : List (String × ℤ)
  onAccount : ℤ
  score : ℤ
  reasons : List MatchReason

structure RankOptions where
  maxCombinationSize : Option ℤ := none
  maxGroupItems : Option ℤ := none
  maxProposals : Option ℤ := none
  maxDocuments : Option ℤ := none

structure RankedDocuments where
  proposals : List OpenDocumentProposal
  documents : List RankedOpenDocument

structure DocumentPoints where
  exactOpenBalance : ℤ
  combinedOpenBalance : ℤ
  partialOpenBalance : ℤ
  onAccountRemainder : ℤ
  reference : ℤ
  counterpartyFirst : ℤ
  counterpartyEach : ℤ
  counterpartyMax : ℤ
  dueWithinWeek : ℤ
  dueWithinMonth : ℤ

def DOCUMENT_POINTS : DocumentPoints where
  exactOpenBalance := 60
  combinedOpenBalance := 45
  partialOpenBalance := 10
  onAccountRemainder := 10
  reference := 25
  counterpartyFirst := 10
  counterpartyEach := 5
  counterpartyMax := 20
  dueWithinWeek := 10
  dueWithinMonth := 5

/-! ### Evidence -/

structure DueDateReason where
  points : ℤ
  reason : Option MatchReason
  distance : ℤ

structure DocumentEvidence where
  reference : Option String
  shared : List String
  due : DueDateReason

/-- A document without a due date is as far from the line as can be. -/
def noDueDate : DueDateReason := ⟨0, none, 9007199254740991⟩

def dueDateReason (postedOn : String) (dueDate : Option String) : Except RangeError DueDateReason :=
  match truthy dueDate with
  | none => .ok noDueDate
  | some dueDate => do
    let posted ← parseIsoDate postedOn.toList
    let due ← parseIsoDate dueDate.toList
    let days := calendarDaysBetween due posted
    let points :=
      if |days| ≤ 7 then DOCUMENT_POINTS.dueWithinWeek
      else if |days| ≤ 30 then DOCUMENT_POINTS.dueWithinMonth
      else 0
    return ⟨points, if 0 < points then some (.dueDate days) else none, |days|⟩

def counterpartyPoints (count : ℕ) (points : DocumentPoints) : ℤ :=
  if count = 0 then 0
  else min points.counterpartyMax (points.counterpartyFirst + points.counterpartyEach * (count - 1))

section Rules

variable (rules : TextRules)

def documentEvidence (line : SettlementLineFacts) (doc : OpenDocumentFacts) :
    Except RangeError DocumentEvidence := do
  let reference := sharedReference rules [line.description, line.counterpartyRef]
    [doc.documentNumber, doc.referenceNumber]
  let shared := sharedTokens (counterpartyTokens rules [line.description, line.counterpartyRef])
    (counterpartyTokens rules [doc.partyName])
  let due ← dueDateReason line.postedOn doc.dueDate
  return ⟨reference, shared, due⟩

/-- The evidence of every candidate, by its open line. -/
def collectEvidence (line : SettlementLineFacts) (candidates : List OpenDocumentFacts) :
    Except RangeError (List (String × DocumentEvidence)) :=
  candidates.mapM fun doc => (documentEvidence rules line doc).map (doc.openLineId, ·)

end Rules

/-- The evidence kept under an open line: the last one that was. -/
def evidenceOf (evidence : List (String × DocumentEvidence)) (openLineId : String) :
    DocumentEvidence :=
  (evidence.reverse.lookup openLineId).getD ⟨none, [], noDueDate⟩

def DocumentEvidence.points (e : DocumentEvidence) : ℤ :=
  (if (truthy e.reference).isSome then DOCUMENT_POINTS.reference else 0) +
    (if e.shared ≠ [] then counterpartyPoints e.shared.length DOCUMENT_POINTS else 0) +
    (if e.due.reason.isSome then e.due.points else 0)

def DocumentEvidence.reasons (e : DocumentEvidence) : List MatchReason :=
  ((truthy e.reference).map MatchReason.sharedReference).toList ++
    (if e.shared ≠ [] then [.sharedCounterparty e.shared] else []) ++ e.due.reason.toList

/-! ### Scores -/

/-- A document scored on its own. -/
def rankDocument (target : ℤ) (evidence : List (String × DocumentEvidence))
    (doc : OpenDocumentFacts) : RankedOpenDocument :=
  let e := evidenceOf evidence doc.openLineId
  { doc with
    score := (if doc.transactionOpen = target then DOCUMENT_POINTS.exactOpenBalance else 0) +
      e.points
    reasons := (if doc.transactionOpen = target then [.exactOpenBalance] else []) ++ e.reasons }

section Rules

variable (rules : TextRules)

def compareDocuments (a b : RankedOpenDocument) : ℤ :=
  firstNonzero [
    b.score - a.score,
    rules.localeCompare (a.dueDate.getD "9999-12-31") (b.dueDate.getD "9999-12-31"),
    rules.localeCompare (a.documentNumber.getD a.entryNumber) (b.documentNumber.getD b.entryNumber),
    compareTexts a.openLineId b.openLineId]

/-- The documents with a balance, the strongest first. -/
def rankedDocuments (target : ℤ) (evidence : List (String × DocumentEvidence))
    (candidates : List OpenDocumentFacts) : List RankedOpenDocument :=
  sorted (compareDocuments rules)
    ((candidates.filter fun doc => 0 < doc.transactionOpen).map (rankDocument target evidence))

/-! ### Combinations -/

/-- The larger balance comes first. -/
def compareBalances (a b : RankedOpenDocument) : ℤ :=
  firstNonzero [b.transactionOpen - a.transactionOpen, compareDocuments rules a b]

/-- The bounds of a search for exact sums. -/
def subsetBounds (maxSize : ℤ) (limit : ℕ) : SubsetSearch.Bounds := ⟨limit, 2, maxSize⟩

/-- The search for exact sums, as it ends. -/
def searchSubsets (items : List RankedOpenDocument) (target maxSize : ℤ) (limit : ℕ) :
    SubsetSearch.State RankedOpenDocument :=
  SubsetSearch.search (subsetBounds maxSize limit) (·.transactionOpen) 20000
    (sorted (compareBalances rules) items) target

/-- Subsets of two to `maxSize` items that sum to the target. -/
def exactSubsets (items : List RankedOpenDocument) (target maxSize : ℤ) (limit : ℕ) :
    List (List RankedOpenDocument) :=
  (searchSubsets rules items target maxSize limit).found

/-- What documents have to share to be paid together. -/
def settlementGroupKey (doc : OpenDocumentFacts) : String :=
  doc.partyId ++ "|" ++ doc.accountId ++ "|" ++ doc.subsidiaryId.getD ""

/-- The documents smaller than the line, in groups, each up to a number of documents. -/
def documentGroups (target maxGroupItems : ℤ) (documents : List RankedOpenDocument) :
    List (List RankedOpenDocument) :=
  (FirstSeen.groupBy (fun doc => settlementGroupKey doc.toOpenDocumentFacts)
    (documents.filter fun doc => doc.transactionOpen < target)).map
      fun group => group.2.take maxGroupItems.toNat

/-! ### Proposals -/

/-- One document whose balance is the amount. -/
def exactProposal (target : ℤ) (doc : RankedOpenDocument) : OpenDocumentProposal where
  openLineIds := [doc.openLineId]
  partyId := doc.partyId
  partyName := doc.partyName
  total := target
  settlement := .exact
  applied := [(doc.openLineId, target)]
  onAccount := 0
  score := doc.score
  reasons := doc.reasons

/-- A part payment or an overpayment of one document that points at the line. An overpayment is
proposed up to twice the balance. -/
def evidenceProposal (target : ℤ) (evidence : List (String × DocumentEvidence))
    (doc : RankedOpenDocument) : Option OpenDocumentProposal :=
  let e := evidenceOf evidence doc.openLineId
  let balance := doc.transactionOpen
  if target < balance ∧ ((truthy e.reference).isSome ∨ e.shared ≠ []) then
    some {
      openLineIds := [doc.openLineId]
      partyId := doc.partyId
      partyName := doc.partyName
      total := target
      settlement := .partialPayment
      applied := [(doc.openLineId, target)]
      onAccount := 0
      score := DOCUMENT_POINTS.partialOpenBalance + e.points
      reasons := .partialOpenBalance (balance - target) :: e.reasons }
  else if balance < target ∧ (truthy e.reference).isSome ∧ target - balance ≤ balance then
    some {
      openLineIds := [doc.openLineId]
      partyId := doc.partyId
      partyName := doc.partyName
      total := target
      settlement := .overpayment
      applied := [(doc.openLineId, balance)]
      onAccount := target - balance
      score := DOCUMENT_POINTS.onAccountRemainder + e.points
      reasons := .onAccountRemainder (target - balance) :: e.reasons }
  else none

/-- Entries as a record: a key keeps the last of its values. -/
def fromEntries (entries : List (String × ℤ)) : List (String × ℤ) :=
  (FirstSeen.keys Prod.fst entries).map fun key => (key, (entries.reverse.lookup key).getD 0)

/-- The evidence that a combination of documents shows: a reference of any of them, the words of
the first, and the due date closest to the line. -/
def combinedEvidence (evidence : List (String × DocumentEvidence))
    (subset : List RankedOpenDocument) : DocumentEvidence where
  reference := subset.findSome? fun doc => (evidenceOf evidence doc.openLineId).reference
  shared := (subset.head?.map fun doc => (evidenceOf evidence doc.openLineId).shared).getD []
  due := ((sorted (fun a b => a.distance - b.distance)
    ((subset.map fun doc => (evidenceOf evidence doc.openLineId).due).filter
      (·.reason.isSome))).head?).getD noDueDate

/-- Several documents that sum to the amount. -/
def combinedProposal (target : ℤ) (evidence : List (String × DocumentEvidence))
    (subset : List RankedOpenDocument) : OpenDocumentProposal :=
  let e := combinedEvidence evidence subset
  let ordered := sorted (compareDocuments rules) subset
  { openLineIds := ordered.map (·.openLineId)
    partyId := (ordered.head?.map (·.partyId)).getD ""
    partyName := ordered.head?.bind (·.partyName)
    total := target
    settlement := .exact
    applied := fromEntries (ordered.map fun doc => (doc.openLineId, doc.transactionOpen))
    onAccount := 0
    score := DOCUMENT_POINTS.combinedOpenBalance + e.points
    reasons := .combinedOpenBalance subset.length :: e.reasons }

/-- Every settlement there is to offer. -/
def settlementProposals (target : ℤ) (options : RankOptions)
    (evidence : List (String × DocumentEvidence)) (documents : List RankedOpenDocument) :
    List OpenDocumentProposal :=
  (documents.filter fun doc => doc.transactionOpen = target).map (exactProposal target) ++
    documents.filterMap (evidenceProposal target evidence) ++
    ((documentGroups target (options.maxGroupItems.getD 24) documents).filter
      (2 ≤ ·.length)).flatMap fun group =>
        (exactSubsets rules group target (options.maxCombinationSize.getD 4) 3).map
          (combinedProposal rules target evidence)

/-! ### The ranking -/

/-- The earliest due date, as a text, of the documents of a proposal. -/
def firstDue (documents : List RankedOpenDocument) (proposal : OpenDocumentProposal) : String :=
  ((sorted compareTexts (proposal.openLineIds.map fun id =>
    ((documents.find? fun doc => doc.openLineId = id).bind (·.dueDate)).getD
      "9999-12-31")).head?).getD ""

/-- An exact settlement always ranks above a part payment or overpayment. -/
def exactFirst (proposal : OpenDocumentProposal) : ℤ :=
  if proposal.settlement = .exact then 0 else 1

def compareProposals (documents : List RankedOpenDocument) (a b : OpenDocumentProposal) : ℤ :=
  firstNonzero [
    exactFirst a - exactFirst b,
    b.score - a.score,
    (a.openLineIds.length : ℤ) - b.openLineIds.length,
    rules.localeCompare (firstDue documents a) (firstDue documents b),
    rules.localeCompare (",".intercalate a.openLineIds) (",".intercalate b.openLineIds)]

/-- The elements up to an index, which counts from the end if it is negative. -/
def sliceTo {α : Type} (stop : ℤ) (xs : List α) : List α :=
  xs.take (if stop < 0 then (xs.length + stop).toNat else stop.toNat)

/-- Rank the open documents that a line may settle, and propose settlements. -/
def rankOpenDocuments (line : SettlementLineFacts) (candidates : List OpenDocumentFacts)
    (options : RankOptions) : Except RangeError RankedDocuments :=
  if line.amount ≤ 0 then .ok ⟨[], []⟩
  else do
    let evidence ← collectEvidence rules line candidates
    let documents := rankedDocuments rules line.amount evidence candidates
    let proposals := sorted (compareProposals rules documents)
      (settlementProposals rules line.amount options evidence documents)
    let shownProposals := sliceTo (options.maxProposals.getD 10) proposals
    let proposed := shownProposals.flatMap (·.openLineIds)
    let limit := options.maxDocuments.getD 30
    return {
      proposals := shownProposals
      documents := (documents.zipIdx.filter fun p =>
        (p.2 : ℤ) < limit ∨ p.1.openLineId ∈ proposed).map Prod.fst }

end Rules

end OpenBooks
