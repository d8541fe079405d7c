import OpenBooks.Ledger.Contracts
import OpenBooks.Lib.Comparators
import OpenBooks.Lib.FirstSeen
import OpenBooks.Money.DecimalText

/-!
# Words and references of a statement

What a statement line says about whom it pays, and for what. The counterparty words of a text
(`counterpartyTokens`) are its words without those that only name the channel; the
reference of a document is on the line if its number is (`sharedReference`).

The tables of the character set, and the order of texts of a language, are not part of the
program: they come as `TextRules`.
-/

namespace OpenBooks

open Comparators

/-- What the matcher takes from the character set and the language of its texts. -/
structure TextRules where
  nfkd : String → String
  isMark : Char → Bool
  toLowerCase : String → String
  isLetter : Char → Bool
  isNumber : Char → Bool
  localeCompare : String → String → ℤ
  coherent : Coherent localeCompare

/-- Words that describe the transaction channel rather than the counterparty. -/
def CHANNEL_WORDS : List String := [
  "ach", "and", "atm", "auth", "bank", "bill", "card", "chq", "cheque", "check", "com", "corp",
  "credit", "debit", "dep", "deposit", "direct", "eft", "etransfer", "fee", "fees", "for", "from",
  "inc", "int", "interac", "llc", "ltd", "mastercard", "online", "payment", "pmt", "pos",
  "preauthorized", "purchase", "pymt", "rec", "ref", "the", "transfer", "trf", "txn", "visa", "web",
  "wire", "withdrawal", "www", "batch", "client", "customer", "invoice", "partial", "receipt",
  "receipts", "refund", "supplier", "vendor"]

def unitLength (text : List Char) : ℕ := (text.flatMap CodeUnits.units).length

section Rules

variable (rules : TextRules)

/-- A text without its case and its accents. -/
def TextRules.fold (text : String) : List Char :=
  let unmarked := String.ofList ((rules.nfkd text).toList.filter fun c => !rules.isMark c)
  (rules.toLowerCase unmarked).toList

def TextRules.isWordChar (c : Char) : Bool := rules.isLetter c || rules.isNumber c

/-- Whether a word names a counterparty. -/
def TextRules.isToken (raw : List Char) : Bool :=
  3 ≤ unitLength raw && !raw.any rules.isNumber && !CHANNEL_WORDS.contains (String.ofList raw)

/-- The counterparty words of some texts, each once and where it first appears. -/
def counterpartyTokens (texts : List (Option String)) : List String :=
  FirstSeen.keys id ((texts.filterMap truthy).flatMap fun text =>
    (((rules.fold text).splitOnP fun c => !rules.isWordChar c).filter rules.isToken).map
      String.ofList)

/-- Two words that are one, or of which the shorter, if it is specific, begins the longer. -/
def tokensAgree (a b : String) : Bool :=
  a = b ||
    let (shorter, longer) :=
      if unitLength a.toList ≤ unitLength b.toList then (a.toList, b.toList)
      else (b.toList, a.toList)
    4 ≤ unitLength shorter && shorter.isPrefixOf longer

/-- Words of `a` that agree with some word of `b`, in the order of `a`. -/
def sharedTokens (a b : List String) : List String := a.filter fun left => b.any (tokensAgree left)

/-- The letters and digits of a text. -/
def TextRules.compact (text : String) : List Char := (rules.fold text).filter rules.isWordChar

/-- The runs of digits of a text, without leading zeros, that are long enough to be numbers. -/
def TextRules.digitRuns (text : String) : List (List Char) :=
  (((rules.fold text).splitOnP fun c => !c.isDigit).map (·.dropWhile (· = '0'))).filter
    (3 ≤ ·.length)

/-- Whether a reference is on a statement: as a number, or with its letters. -/
def TextRules.carries (text reference : String) : Bool :=
  let candidate := rules.compact reference
  let trailing := (candidate.reverse.takeWhile Char.isDigit).reverse.dropWhile (· = '0')
  let numbered := 3 ≤ trailing.length && (rules.digitRuns text).contains trailing
  if !candidate.any Char.isDigit then false
  else if candidate.all Char.isDigit then numbered
  else 4 ≤ unitLength candidate && (rules.compact text).tails.any (candidate.isPrefixOf ·) ||
    numbered

/-- The first of the references that is on the statement. -/
def sharedReference (statementTexts candidateReferences : List (Option String)) : Option String :=
  let text := " ".intercalate (statementTexts.filterMap truthy)
  if text = "" then none
  else ((candidateReferences.filterMap truthy).find? (rules.carries text)).map fun reference =>
    String.ofList (trim reference.toList)

end Rules

end OpenBooks
