import OpenBooks.Banking.StatementText
import OpenBooks.Platform.CivilDate

/-!
# Parsed statements

What the statement parsers produce, and the dates that two of the formats share: a year of two
digits stands for one of the hundred years from 1969 on (`expandTwoDigitYear`), and a
date has to be a real one (`assertRealDate`).
-/

namespace OpenBooks

open Checked

structure ParsedStatementLine where
  postedOn : List Char
  amount : List Char
  description : Option (List Char)
  counterpartyRef : Option (List Char)
  bankTransactionId : Option (List Char)

structure ParsedStatement where
  lines : List ParsedStatementLine
  currency : Option (List Char)
  statementDate : Option (List Char)
  closingBalance : Option (List Char)
  externalAccountId : Option (List Char)

/-- Text, or nothing for the empty one. -/
def orNull (text : List Char) : Option (List Char) := if text = [] then none else some text

def twoDigits (n : ℕ) : List Char := padStartZeros 2 (Nat.toDigits 10 n)

/-- A year of two digits within 1969–2068. -/
def expandTwoDigitYear (yy : List Char) : List Char :=
  let twoDigit := digitsValue yy
  Nat.toDigits 10 ((if twoDigit ≤ 68 then 2000 else 1900) + twoDigit)

def assertRealDate (y mo d : List Char) (label : String) : Except BankingError (List Char) := do
  let month := digitsValue mo
  let day := digitsValue d
  refuseIf (¬(1 ≤ month ∧ month ≤ 12 ∧ 1 ≤ day ∧ day ≤ daysInMonth (digitsValue y) month))
    (⟨label ++ " is not a real calendar date"⟩ : BankingError)
  return y ++ '-' :: twoDigits month ++ '-' :: twoDigits day

/-- `/^(\d{2})(\d{2})(\d{2})/`, the parts of a six-digit date and what follows. -/
def matchSixDigits : List Char → Option ((List Char × List Char × List Char) × List Char)
  | y1 :: y2 :: m1 :: m2 :: d1 :: d2 :: rest =>
    if [y1, y2, m1, m2, d1, d2].all Char.isDigit then some (([y1, y2], [m1, m2], [d1, d2]), rest)
    else none
  | _ => none

def sixDigitDate (parts : List Char × List Char × List Char) (label : String) :
    Except BankingError (List Char) :=
  assertRealDate (expandTwoDigitYear parts.1) parts.2.1 parts.2.2 label

end OpenBooks
