import OpenBooks.Lib.FirstSeen
import OpenBooks.Ledger.Contracts

/-!
# Balancing a document across subsidiaries

The lines of a multi-entity document carry a functional amount, in the currency of their
subsidiary, and a transaction amount, in one currency for the whole document. Every
subsidiary has to balance in its own books.

* `absorbFxRoundingResidual` folds the rounding of a subsidiary whose
  transaction amounts already cancel onto one of its lines – never onto a tax control leg
  or an open item.
* `intercompanyBalancingLegs` pairs every other subsidiary whose functional
  amounts do not cancel with the originating one, by a due-to and a due-from leg, and
  puts the rounding that is left at the origin on the last leg there.

Amounts are in ten-thousandths and rates in ten-billionths. A map that the source
accumulates line by line is its keys in the order of first appearance with the sum of
each.
-/

namespace OpenBooks

open Checked

/-! ### Lines and legs -/

structure SubsidiaryError where
  message : String
  deriving DecidableEq

/-- One line of a multi-entity document. -/
structure SubLine where
  accountId : String
  amount : ℤ
  balanceTxnAmount : Option ℤ := none
  txnAmount : Option ℤ := none
  currency : Option String := none
  fxRate : Option ℤ := none
  subsidiaryId : String
  taxCodeId : Option String := none
  isOpenItem : Bool := false

/-- What a line contributes to the transaction total of its subsidiary. -/
def SubLine.transactional (l : SubLine) : ℤ :=
  l.balanceTxnAmount.getD (l.txnAmount.getD l.amount)

def linesOf (s : String) (lines : List SubLine) : List SubLine :=
  lines.filter fun l => l.subsidiaryId = s

def functionalTotal (s : String) (lines : List SubLine) : ℤ :=
  ((linesOf s lines).map SubLine.amount).sum

def transactionTotal (s : String) (lines : List SubLine) : ℤ :=
  ((linesOf s lines).map SubLine.transactional).sum

/-- A translation; rates are positive. -/
def translate (amount rate : ℤ) : Except SubsidiaryError ℤ := do
  refuseIf (rate ≤ 0) (⟨"FX rate must be greater than zero: \"" ++ toString rate ++ "\""⟩ :
    SubsidiaryError)
  return mulRate amount rate

/-! ### Rounding within a subsidiary -/

/-- A line that must carry exactly its translated amount. -/
def SubLine.isControl (l : SubLine) : Bool := (truthy l.taxCodeId).isSome || l.isOpenItem

/-- The better of a candidate and a line: never a control leg, then by magnitude. -/
def largerBucket (bucket : Option (SubLine × ℕ)) (p : SubLine × ℕ) : Option (SubLine × ℕ) :=
  if p.1.isControl then bucket
  else if bucket.all fun b => |b.1.amount| < |p.1.amount| then some p else bucket

/-- The line of largest magnitude that may absorb a residual, the earliest of equals. -/
def absorbingLine (group : List (SubLine × ℕ)) : Option (SubLine × ℕ) :=
  group.foldl largerBucket none

/-- Fold the rounding of one subsidiary onto one of its lines. -/
def absorbGroup (lines : List SubLine) (g : String × List (SubLine × ℕ)) :
    Except SubsidiaryError (List SubLine) :=
  let total := (g.2.map fun p => p.1.amount).sum
  if (g.2.map fun p => p.1.transactional).sum ≠ 0 then .ok lines
  else if total = 0 then .ok lines
  else do
    refuseIf ((g.2.length : ℤ) < 2 * |total|) (⟨"functional-currency residual " ++ fromUnits total ++
      " on subsidiary " ++ g.1 ++ " exceeds per-line FX rounding and cannot be absorbed"⟩ :
      SubsidiaryError)
    let bucket ← orRefuse (absorbingLine g.2) (⟨"functional-currency residual " ++ fromUnits total ++
      " on subsidiary " ++ g.1 ++
      " has no line that may absorb it — every line is a tax control or open-item leg"⟩ :
      SubsidiaryError)
    return lines.modify bucket.2 fun l => { l with amount := l.amount - total }

def absorbFxRoundingResidual (lines : List SubLine) : Except SubsidiaryError (List SubLine) :=
  (FirstSeen.groupBy (fun p : SubLine × ℕ => p.1.subsidiaryId) lines.zipIdx).foldlM absorbGroup lines

/-! ### Balancing legs -/

structure IntercompanyLeg where
  accountId : String
  amount : ℤ
  currency : String
  txnAmount : ℤ
  fxRate : ℤ
  subsidiaryId : String
  memo : String

/-- An active pair of the organization: the asset account of its from-side, the liability
account of its to-side. -/
structure IntercompanyPair where
  fromId : String
  toId : String
  dueFrom : String
  dueTo : String

/-- What the balancing is given besides the lines. -/
structure IntercompanyRequest where
  subsidiaryName : String → Option String
  pairs : List IntercompanyPair
  originSubId : String
  originFxRate : ℤ
  balanceCurrency : Option String := none

/-- A name as it is printed. -/
def IntercompanyRequest.name (r : IntercompanyRequest) (s : String) : String :=
  (r.subsidiaryName s).getD "undefined"

/-- The one rate that stands for a subsidiary's totals. -/
def aggregateFxRate (functional transaction : ℤ) : Except SubsidiaryError ℤ := do
  refuseIf (transaction = 0) (⟨
    "cannot derive an intercompany FX rate from a zero transaction-currency total"⟩ : SubsidiaryError)
  refuseIf (¬(functional < 0 ↔ transaction < 0)) (⟨
    "intercompany functional and transaction totals have opposite signs and cannot share a positive FX rate"⟩ :
    SubsidiaryError)
  let rateUnits := roundDiv (|functional| * RATE_SCALE) |transaction|
  refuseIf (rateUnits ≤ 0) (⟨
    "intercompany functional total is too small to represent with a positive FX rate"⟩ : SubsidiaryError)
  refuseIf (9 < (Nat.toDigits 10 (rateUnits / RATE_SCALE).toNat).length) (⟨
    "intercompany aggregate FX rate exceeds the ledger's numeric(19,10) range"⟩ : SubsidiaryError)
  return rateUnits

/-- The pair between the origin and a subsidiary. -/
def IntercompanyRequest.pairWith (r : IntercompanyRequest) (s : String) : Option IntercompanyPair :=
  r.pairs.find? fun p =>
    (p.fromId = r.originSubId ∧ p.toId = s) ∨ (p.fromId = s ∧ p.toId = r.originSubId)

/-- The rate of a subsidiary's leg: the lines' own when they agree on one that reproduces
the total, else one from the totals. -/
def subsidiaryRate (subLines : List SubLine) (transactionCurrency : String)
    (functional transaction : ℤ) : Except SubsidiaryError ℤ :=
  let firstFxRate := (subLines.head?.bind SubLine.fxRate).getD RATE_SCALE
  if (∀ l ∈ subLines, l.currency = some transactionCurrency) ∧
      (∀ l ∈ subLines, l.fxRate.getD RATE_SCALE = firstFxRate) then do
    let translated ← translate transaction firstFxRate
    if translated = functional then return firstFxRate
    else aggregateFxRate functional transaction
  else aggregateFxRate functional transaction

/-- The two legs of one subsidiary: its own and the mirror at the origin. -/
def legPair (r : IntercompanyRequest) (lines : List SubLine) (s : String) :
    Except SubsidiaryError (List IntercompanyLeg) := do
  let total := functionalTotal s lines
  let transaction := transactionTotal s lines
  let pair ← orRefuse (r.pairWith s) (⟨"no intercompany pair between \"" ++ r.name r.originSubId ++
    "\" and \"" ++ r.name s ++ "\" — configure one under Setup → Subsidiaries"⟩ : SubsidiaryError)
  let subLines := linesOf s lines
  let transactionCurrency ← orRefuse
    (truthy (r.balanceCurrency.or (subLines.head?.bind SubLine.currency)))
    (⟨"transaction currency is missing for \"" ++ r.name s ++ "\""⟩ : SubsidiaryError)
  let subFxRate ← subsidiaryRate subLines transactionCurrency total transaction
  let originAmount ← translate transaction r.originFxRate
  return [
    { accountId := if pair.fromId = s then pair.dueFrom else pair.dueTo
      amount := -total
      currency := transactionCurrency
      txnAmount := -transaction
      fxRate := subFxRate
      subsidiaryId := s
      memo := "Intercompany with " ++ r.name r.originSubId },
    { accountId := if pair.fromId = r.originSubId then pair.dueFrom else pair.dueTo
      amount := originAmount
      currency := transactionCurrency
      txnAmount := transaction
      fxRate := r.originFxRate
      subsidiaryId := r.originSubId
      memo := "Intercompany with " ++ r.name s }]

/-- Change the last leg that satisfies `p`. -/
def modifyLast (p : IntercompanyLeg → Bool) (f : IntercompanyLeg → IntercompanyLeg) :
    List IntercompanyLeg → List IntercompanyLeg
  | [] => []
  | leg :: legs => if p leg && legs.all (fun l => !p l) then f leg :: legs
    else leg :: modifyLast p f legs

def legsOf (s : String) (legs : List IntercompanyLeg) : List IntercompanyLeg :=
  legs.filter fun leg => leg.subsidiaryId = s

/-- How far amounts are from the translation of their transaction amounts, in all. -/
def deviation (rows : List (ℤ × ℤ × ℤ)) : Except SubsidiaryError ℤ :=
  (fun gaps => gaps.sum) <$> rows.mapM fun row => do
    let translated ← translate row.2.1 row.2.2
    return |row.1 - translated|

/-- Put the rounding at the origin on its last leg, as long as it is rounding. -/
def absorbAtOrigin (r : IntercompanyRequest) (lines : List SubLine) (legs : List IntercompanyLeg) :
    Except SubsidiaryError (List IntercompanyLeg) :=
  let atOrigin (leg : IntercompanyLeg) : Bool := leg.subsidiaryId = r.originSubId
  if legs.filter atOrigin = [] then .ok legs
  else do
    let residual := functionalTotal r.originSubId lines +
      ((legs.filter atOrigin).map IntercompanyLeg.amount).sum
    let legs := modifyLast atOrigin (fun leg => { leg with amount := leg.amount - residual }) legs
    let rows := (linesOf r.originSubId lines).map (fun l =>
        (l.amount, l.txnAmount.getD l.amount, l.fxRate.getD RATE_SCALE)) ++
      (legs.filter atOrigin).map fun leg => (leg.amount, leg.txnAmount, leg.fxRate)
    let total ← deviation rows
    refuseIf ((rows.length : ℤ) < 2 * total) (⟨"intercompany translation for \"" ++
      r.name r.originSubId ++ "\" leaves " ++ fromUnits total ++ " of rounding across " ++
      toString rows.length ++ " lines, beyond the bound of 0.00005 per line — the line exchange rates do not reproduce the functional amounts; correct the rates or amounts before posting"⟩ :
      SubsidiaryError)
    return legs

/-- What a subsidiary's lines and legs sum to, in functional currency. -/
def functionalSum (s : String) (lines : List SubLine) (legs : List IntercompanyLeg) : ℤ :=
  functionalTotal s lines + ((legsOf s legs).map IntercompanyLeg.amount).sum

def intercompanyBalancingLegs (r : IntercompanyRequest) (lines : List SubLine) :
    Except SubsidiaryError (List IntercompanyLeg) :=
  let subs := FirstSeen.keys SubLine.subsidiaryId lines
  let unbalanced := subs.filter fun s => s ≠ r.originSubId ∧ functionalTotal s lines ≠ 0
  if subs.length ≤ 1 then .ok []
  else if unbalanced = [] ∧ functionalTotal r.originSubId lines = 0 then .ok []
  else do
    let legs ← collect (legPair r lines) unbalanced
    let legs ← absorbAtOrigin r lines legs
    let _ ← subs.mapM fun s => refuseIf (functionalSum s lines legs ≠ 0)
      (⟨"intercompany balancing failed for \"" ++ r.name s ++ "\" (residual " ++
        fromUnits (functionalSum s lines legs) ++ ")"⟩ : SubsidiaryError)
    return legs

end OpenBooks
