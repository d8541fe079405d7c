import OpenBooks.Banking.ParsedStatement
import OpenBooks.Banking.StatementAmounts
import OpenBooks.Money.NumberText

/-!
# BAI2 files

A file is cut into physical lines, continuation lines are appended to the record they continue
(`Bai2.recordsOf`), and the records are read in order (`Bai2.step`).

Continuation does not show: every way to write some logical records – each in one line or continued
at any of its commas, lines ended with a slash or without – is read alike
(`Bai2.parseBai2_of_written`). Each detail record is one line of the statement
(`Bai2.lines_of_parse`), and the line has the amount it should have unless the record's type code is
not a number or a debit is of nothing (`Bai2.continued_and_booked_iff`).
-/

namespace OpenBooks

open List

namespace Bai2

open Checked

local instance lawfulBEqText : LawfulBEq (List Char) := inferInstance

/-! ### Records -/

/-- Text cut at every slash that ends its line. -/
def splitSlashLf : List Char → List (List Char)
  | [] => [[]]
  | '/' :: '\n' :: rest => [] :: splitSlashLf rest
  | c :: rest => (splitSlashLf rest).modifyHead (c :: ·)

/-- `replace(/\/\s*$/, "")`. -/
def dropDelimiter (line : List Char) : List Char :=
  match line.reverse.dropWhile isJsWhitespace with
  | '/' :: rest => rest.reverse
  | _ => line

def continuation : List Char → Option (List Char)
  | '8' :: '8' :: ',' :: rest => some rest
  | _ => none

/-- One more line: a new record, or more of the last one. -/
def addLine (records : List (List Char)) (line : List Char) : List (List Char) :=
  let t := trim (dropDelimiter line)
  if t = [] then records
  else match continuation t with
    | some rest =>
      if records ≠ [] then records.modify (records.length - 1) (· ++ ',' :: rest)
      else records ++ [t]
    | none => records ++ [t]

/-- The records of a file, with their continuations. -/
def recordsOf (text : List Char) : List (List Char) :=
  ((splitSlashLf (text.filter (· ≠ '\r'))).flatMap (List.splitOn '\n')).foldl addLine []

/-! ### Amounts and funds -/

/-- `/^([+-]?)(\d+)$/`: the cents a text states. -/
def matchCents (text : List Char) : Option ℤ :=
  let (negative, digits) := match text with
    | '-' :: rest => (true, rest)
    | '+' :: rest => (false, rest)
    | rest => (false, rest)
  if digits ≠ [] ∧ digits.all Char.isDigit then
    some (if negative then -(digitsValue digits : ℤ) else digitsValue digits)
  else none

/-- Amounts are whole cents without a point. -/
def baiAmount (cents : List Char) : Except BankingError (List Char) := do
  let c ← orRefuse (matchCents cents)
    ⟨"BAI2: unparseable amount \"" ++ String.ofList cents ++ "\""⟩
  let units := c * 100
  assertLedgerRange units
    ("BAI2: amount \"" ++ String.ofList cents ++ "\" is out of range for the ledger")
  return (fromUnits units).toList

/-- `/^\d+$/`. -/
def isDigits (text : List Char) : Bool := text ≠ [] && text.all Char.isDigit

def MAX_SAFE_INTEGER : ℕ := 2 ^ 53 - 1

def fundsFields (fields : List (List Char)) (start : ℕ) : Except BankingError ℕ :=
  let type := fields.getD start []
  if type = ['V'] then .ok 2
  else if type = ['S'] then .ok 3
  else if type = ['D'] then do
    let count := fields.getD (start + 1) []
    refuseIf (¬(isDigits count = true ∧ digitsValue count ≤ MAX_SAFE_INTEGER))
      (⟨"BAI2: invalid funds availability distribution count"⟩ : BankingError)
    return 1 + 2 * digitsValue count
  else do
    refuseIf (type ∉ [[], ['Z'], ['0'], ['1'], ['2']])
      (⟨"BAI2: unknown funds type \"" ++ String.ofList type ++ "\""⟩ : BankingError)
    return 0

/-- The pairs of a distribution: days and an amount. -/
def checkDistribution : List (List Char) → Except BankingError Unit
  | days :: amount :: rest => do
    refuseIf (¬isDigits days = true) (⟨"BAI2: invalid availability day count"⟩ : BankingError)
    let _ ← baiAmount amount
    checkDistribution rest
  | _ => .ok ()

/-- The amounts that a funds structure states. -/
def checkFunds (fields : List (List Char)) (start extra : ℕ) : Except BankingError Unit :=
  let type := fields.getD start []
  if type = ['S'] then
    ((fields.drop (start + 1)).take 3).forM fun amount =>
      if amount = [] then .ok () else (baiAmount amount).map fun _ => ()
  else if type = ['D'] then checkDistribution ((fields.drop (start + 2)).take (extra - 1))
  else .ok ()

/-- The field behind the complete funds structure. -/
def afterFundsType (fields : List (List Char)) (start : ℕ) : Except BankingError ℕ := do
  let extra ← fundsFields fields start
  refuseIf (extra ≠ 0 ∧ fields.length ≤ start + extra)
    (⟨"BAI2: incomplete funds availability fields"⟩ : BankingError)
  checkFunds fields start extra
  return start + 1 + extra

/-! ### Reading the records -/

structure State where
  lines : List ParsedStatementLine
  statementDate : Option (List Char)
  currency : Option (List Char)
  closingBalance : Option (List Char)
  accountNumbers : List (List Char)

def State.start : State := ⟨[], none, none, none, []⟩

/-- A group header: the date of what follows. -/
def readGroup (s : State) (f : List (List Char)) : Except BankingError State :=
  match matchSixDigits (f.getD 4 []) with
  | some (parts, []) => do
    let date ← sixDigitDate parts ("BAI2 date \"" ++ String.ofList (f.getD 4 []) ++ "\"")
    return { s with statementDate := some date }
  | _ => .ok s

/-- The summaries of an account from a field on: the closing balance, the last one stated. -/
def readSummaries (f : List (List Char)) :
    ℕ → ℕ → Option (List Char) → Except BankingError (Option (List Char))
  | 0, _, closing => .ok closing
  | fuel + 1, i, closing =>
    if i + 1 < f.length then do
      let closing ← if f.getD i [] = "015".toList ∧ f.getD (i + 1) [] ≠ [] then
          (baiAmount (f.getD (i + 1) [])).map some
        else .ok closing
      let next ← afterFundsType f (i + 3)
      readSummaries f fuel next closing
    else .ok closing

/-- An account record: at most one account in a file. -/
def readAccount (s : State) (f : List (List Char)) : Except BankingError State := do
  let accountNumber := trim (f.getD 1 [])
  refuseIf (accountNumber = [])
    (⟨"BAI2 account record is missing its account number — lines without account identity " ++
      "cannot be imported"⟩ : BankingError)
  refuseIf (accountNumber ∈ s.accountNumbers)
    (⟨"BAI2 file repeats account " ++ String.ofList accountNumber ++ " — import one statement " ++
      "per account section so each keeps its own currency, balance, and lines"⟩ : BankingError)
  let accountNumbers := s.accountNumbers ++ [accountNumber]
  refuseIf (1 < accountNumbers.length)
    (⟨"BAI2 file contains multiple accounts (" ++
      String.intercalate ", " (accountNumbers.map String.ofList) ++
      ") — import one account per file so each statement keeps its own currency, balance, and " ++
      "lines"⟩ : BankingError)
  -- every summary has three fields and its funds, so as many rounds as fields are enough
  let closingBalance ← readSummaries f f.length 3 s.closingBalance
  return { s with
    accountNumbers := accountNumbers
    currency := if f.getD 2 [] = [] then s.currency else some (f.getD 2 [])
    closingBalance := closingBalance }

/-- Text without its leading minus. -/
def dropMinus : List Char → List Char
  | '-' :: rest => rest
  | text => text

/-- The amount with the sign of its type code. -/
def signed (typeCode magnitude : List Char) : List Char :=
  if numberAtLeast400 typeCode then '-' :: dropMinus magnitude else magnitude

/-- A detail record: one transaction. -/
def readDetail (s : State) (f : List (List Char)) : Except BankingError State := do
  let cents := f.getD 2 []
  refuseIf (cents = []) (⟨"BAI2: unparseable amount \"\""⟩ : BankingError)
  let magnitude ← baiAmount cents
  let referenceAt ← afterFundsType f 3
  let bankRef := orNull (f.getD referenceAt [])
  let custRef := orNull (f.getD (referenceAt + 1) [])
  let textDesc := orNull (trim ([','].intercalate (f.drop (referenceAt + 2))))
  let statementDate ← orRefuse s.statementDate
    ⟨"BAI2: type-16 transaction before a type-02 header date"⟩
  return { s with
    lines := s.lines ++ [⟨statementDate, signed (f.getD 1 []) magnitude, textDesc,
      custRef <|> bankRef, bankRef <|> custRef⟩] }

def step (s : State) (record : List Char) : Except BankingError State :=
  let f := record.splitOn ','
  if f.getD 0 [] = "02".toList then readGroup s f
  else if f.getD 0 [] = "03".toList then readAccount s f
  else if f.getD 0 [] = "16".toList then readDetail s f
  else .ok s

def readRecords (records : List (List Char)) : Except BankingError ParsedStatement := do
  let s ← records.foldlM step State.start
  refuseIf (s.lines = []) (⟨"BAI2: no type-16 transaction records found"⟩ : BankingError)
  return ⟨s.lines, s.currency, s.statementDate, s.closingBalance, s.accountNumbers.head?⟩

/-- Parse a file. -/
def parseBai2 (source : List Char) : Except BankingError ParsedStatement := do
  let text ← validateStatementText source
  readRecords (recordsOf text)

/-! ### Writing records -/

/-- A field of a record: nothing that would end it, and no white space around it. -/
structure IsField (field : List Char) : Prop where
  plain : ∀ c ∈ field, c ≠ '/' ∧ c ≠ '\n' ∧ c ≠ '\r' ∧ c ≠ ','
  trimmed : trim field = field

instance (field : List Char) : Decidable (IsField field) :=
  decidable_of_iff
    ((field.all fun c => c ≠ '/' ∧ c ≠ '\n' ∧ c ≠ '\r' ∧ c ≠ ',') = true ∧ trim field = field)
    ⟨fun h => ⟨by simpa only [List.all_eq_true, decide_eq_true_eq] using h.1, h.2⟩,
      fun h => ⟨by simpa only [List.all_eq_true, decide_eq_true_eq] using h.plain, h.trimmed⟩⟩

/-- A record as it is meant: its code, which is not the one of a continuation, and its fields. -/
structure LogicalRecord where
  code : List Char
  fields : List (List Char)
  code_ne_nil : code ≠ []
  code_ne_continuation : code ≠ ['8', '8']
  isField : ∀ f ∈ code :: fields, IsField f

/-- Fields with a comma between them. -/
def joined (fields : List (List Char)) : List Char := [','].intercalate fields

def LogicalRecord.text (r : LogicalRecord) : List Char := joined (r.code :: r.fields)

def continuationLine (fields : List (List Char)) : List Char := '8' :: '8' :: ',' :: joined fields

/-- The lines of a record: its first fields, and the others in any number of continuations. -/
inductive RecordLines (r : LogicalRecord) : List (List Char) → Prop
  | continued (first : List (List Char)) (more : List (List (List Char)))
      (hfields : r.fields = first ++ more.flatten) (hmore : ∀ chunk ∈ more, chunk ≠ []) :
      RecordLines r (joined (r.code :: first) :: more.map continuationLine)

/-- A slash at the end of a line, or none. -/
inductive Delimiter : List Char → Prop
  | none : Delimiter []
  | slash : Delimiter ['/']

/-- A line feed, alone or behind a carriage return. -/
inductive LineBreak : List Char → Prop
  | lf : LineBreak ['\n']
  | crlf : LineBreak ['\r', '\n']

/-- The texts of some lines; the last one may go without its break. -/
inductive LinesText : List (List Char) → List Char → Prop
  | nil : LinesText [] []
  | last {line delimiter : List Char} (hdelimiter : Delimiter delimiter) :
      LinesText [line] (line ++ delimiter)
  | cons {line delimiter lineBreak more : List Char} {lines : List (List Char)}
      (hdelimiter : Delimiter delimiter) (hbreak : LineBreak lineBreak)
      (hmore : LinesText lines more) :
      LinesText (line :: lines) (line ++ delimiter ++ lineBreak ++ more)

def Written (rs : List LogicalRecord) (text : List Char) : Prop :=
  ∃ lines, List.Forall₂ RecordLines rs lines ∧ LinesText lines.flatten text

/-! ### Trimmed lines -/

variable {p : Char → Bool} {text : List Char}

theorem dropWhile_eq_self_iff_head? : text.dropWhile p = text ↔ ∀ c ∈ text.head?, p c = false := by
  cases text with
  | nil => simp
  | cons c rest =>
    rw [dropWhile_eq_self_iff]
    simp

/-- No white space at either end. -/
structure Trimmed (text : List Char) : Prop where
  head : ∀ c ∈ text.head?, isJsWhitespace c = false
  last : ∀ c ∈ text.getLast?, isJsWhitespace c = false

theorem trim_eq_self_iff : trim text = text ↔ Trimmed text := by
  constructor
  · intro h
    have hlen := congrArg List.length h
    rw [trim, length_reverse] at hlen
    have hfirst := (dropWhile_suffix (l := text) isJsWhitespace).length_le
    have hsecond := (dropWhile_suffix (l := (text.dropWhile isJsWhitespace).reverse)
      isJsWhitespace).length_le
    rw [length_reverse] at hsecond
    have hhead : text.dropWhile isJsWhitespace = text :=
      (dropWhile_suffix _).eq_of_length (by omega)
    refine ⟨dropWhile_eq_self_iff_head?.mp hhead, fun c hc => ?_⟩
    rw [trim, hhead] at h
    have hlast : text.reverse.dropWhile isJsWhitespace = text.reverse := by
      rw [← reverse_reverse (List.dropWhile _ _), h]
    exact dropWhile_eq_self_iff_head?.mp hlast c (by rwa [head?_reverse])
  · intro h
    have hlast : text.reverse.dropWhile isJsWhitespace = text.reverse :=
      dropWhile_eq_self_iff_head?.mpr fun c hc => h.last c (by rwa [head?_reverse] at hc)
    rw [trim, dropWhile_eq_self_iff_head?.mpr h.head, hlast, reverse_reverse]

variable {fields : List (List Char)} {f line rest text : List Char} {c : Char}

theorem joined_cons (hne : fields ≠ []) : joined (f :: fields) = f ++ ',' :: joined fields := by
  rw [joined, intercalate_cons_of_ne_nil hne, append_assoc]
  rfl

theorem joined_singleton : joined [f] = f := intercalate_singleton

theorem joined_append {fields' : List (List Char)} (hne : fields ≠ []) (hne' : fields' ≠ []) :
    joined (fields ++ fields') = joined fields ++ ',' :: joined fields' := by
  induction fields with
  | nil => exact absurd rfl hne
  | cons f fields ih =>
    cases fields with
    | nil => rw [singleton_append, joined_cons hne', joined_singleton]
    | cons g fields =>
      rw [cons_append, joined_cons (by simp), ih (by simp), joined_cons (f := f) (by simp),
        append_assoc, cons_append]

theorem mem_joined (h : c ∈ joined fields) : c = ',' ∨ ∃ f ∈ fields, c ∈ f := by
  induction fields with
  | nil => cases h
  | cons f fields ih =>
    cases fields with
    | nil =>
      rw [joined_singleton] at h
      exact .inr ⟨f, mem_cons_self, h⟩
    | cons g fields =>
      rw [joined_cons (by simp)] at h
      rcases mem_append.mp h with h | h
      · exact .inr ⟨f, mem_cons_self, h⟩
      · rcases mem_cons.mp h with rfl | h
        · exact .inl rfl
        · rcases ih h with rfl | ⟨x, hx, hc⟩
          · exact .inl rfl
          · exact .inr ⟨x, mem_cons_of_mem _ hx, hc⟩

theorem last_joined (h : ∀ f ∈ fields, IsField f) :
    ∀ c ∈ (joined fields).getLast?, isJsWhitespace c = false := by
  have hcomma : isJsWhitespace ',' = false := by decide
  induction fields with
  | nil => simp [joined]
  | cons f fields ih =>
    have hf := (trim_eq_self_iff.mp (h f mem_cons_self).trimmed).last
    cases fields with
    | nil => rwa [joined_singleton]
    | cons g fields =>
      have hrest := ih fun x hx => h x (mem_cons_of_mem _ hx)
      intro c hc
      rw [joined_cons (by simp), getLast?_append, getLast?_cons, Option.some_or] at hc
      obtain rfl := Option.some.inj hc
      cases hlast : (joined (g :: fields)).getLast? with
      | none => exact hcomma
      | some d => exact hrest d (by rw [hlast]; rfl)

/-- A line that is read as it stands. -/
structure PhysicalLine (line : List Char) : Prop where
  ne_nil : line ≠ []
  plain : ∀ c ∈ line, c ≠ '/' ∧ c ≠ '\n' ∧ c ≠ '\r'
  trimmed : Trimmed line

theorem plain_joined (h : ∀ f ∈ fields, IsField f) :
    ∀ c ∈ joined fields, c ≠ '/' ∧ c ≠ '\n' ∧ c ≠ '\r' := by
  intro c hc
  rcases mem_joined hc with rfl | ⟨f, hf, hc⟩
  · decide
  · obtain ⟨hslash, hlf, hcr, -⟩ := (h f hf).plain c hc
    exact ⟨hslash, hlf, hcr⟩

theorem physicalLine_first {code : List Char} (hne : code ≠ [])
    (h : ∀ f ∈ code :: fields, IsField f) : PhysicalLine (joined (code :: fields)) := by
  have hhead : (joined (code :: fields)).head? = code.head? := by
    cases fields with
    | nil => rw [joined_singleton]
    | cons g fields => rw [joined_cons (by simp), head?_append_of_ne_nil _ hne]
  refine ⟨fun hnil => ?_, plain_joined h, ?_, last_joined h⟩
  · rw [hnil, head?_nil] at hhead
    exact hne (head?_eq_none_iff.mp hhead.symm)
  · rw [hhead]
    exact (trim_eq_self_iff.mp (h code mem_cons_self).trimmed).head

theorem physicalLine_continuation (h : ∀ f ∈ fields, IsField f) :
    PhysicalLine (continuationLine fields) := by
  refine ⟨by simp [continuationLine], fun c hc => ?_, ?_, fun c hc => ?_⟩
  · rcases mem_cons.mp hc with rfl | hc
    · decide
    rcases mem_cons.mp hc with rfl | hc
    · decide
    rcases mem_cons.mp hc with rfl | hc
    · decide
    exact plain_joined h c hc
  · rintro c ⟨⟩
    decide
  · rw [continuationLine, getLast?_cons_cons, getLast?_cons_cons,
      getLast?_cons] at hc
    obtain rfl := Option.some.inj hc
    cases hlast : (joined fields).getLast? with
    | none => decide
    | some d => exact last_joined h d (by rw [hlast]; rfl)

/-! ### Reading lines back -/

/-- The physical lines of a text without carriage returns. -/
def pieces (text : List Char) : List (List Char) := (splitSlashLf text).flatMap (List.splitOn '\n')

theorem splitSlashLf_ne_nil (text : List Char) : splitSlashLf text ≠ [] := by
  fun_induction splitSlashLf text with
  | case1 | case2 rest ih => simp
  | case3 c rest hnot ih => simpa [modifyHead_eq_nil_iff] using ih

theorem splitSlashLf_cons (hc : c ≠ '/') :
    splitSlashLf (c :: rest) = (splitSlashLf rest).modifyHead (c :: ·) := by
  rw [splitSlashLf.eq_def]
  split
  · rename_i heq
    cases heq
  · rename_i heq
    exact absurd (List.cons.inj heq).1 hc
  · rename_i heq
    obtain ⟨rfl, rfl⟩ := List.cons.inj heq
    rfl

section

variable (hplain : ∀ c ∈ line, c ≠ '/')

include hplain

theorem splitSlashLf_append :
    splitSlashLf (line ++ rest) = (splitSlashLf rest).modifyHead (line ++ ·) := by
  induction line with
  | nil =>
    rw [nil_append]
    cases splitSlashLf rest <;> rfl
  | cons c line ih =>
    rw [cons_append, splitSlashLf_cons (hplain c mem_cons_self),
      ih fun d hd => hplain d (mem_cons_of_mem _ hd), modifyHead_modifyHead]
    rfl

theorem pieces_slash (hlf : '\n' ∉ line) :
    pieces (line ++ '/' :: '\n' :: rest) = line :: pieces rest := by
  have hcut : splitSlashLf ('/' :: '\n' :: rest) = [] :: splitSlashLf rest := rfl
  rw [pieces, splitSlashLf_append hplain, hcut, modifyHead_cons, append_nil,
    flatMap_cons, splitOn_eq_singleton hlf, singleton_append, pieces]

theorem pieces_bare (hlf : '\n' ∉ line) : pieces (line ++ '\n' :: rest) = line :: pieces rest := by
  obtain ⟨head, more, hmore⟩ := exists_cons_of_ne_nil (splitSlashLf_ne_nil rest)
  rw [pieces, splitSlashLf_append hplain, splitSlashLf_cons (by decide), pieces, hmore,
    modifyHead_cons, modifyHead_cons, flatMap_cons, flatMap_cons,
    splitOn_append_cons_self_of_not_mem hlf, cons_append]

end

theorem dropDelimiter_of_physical (hline : PhysicalLine line) : dropDelimiter line = line := by
  have hlast := dropWhile_eq_self_iff_head?.mpr fun c hc =>
    hline.trimmed.last c (by rwa [head?_reverse] at hc)
  unfold dropDelimiter
  rw [hlast]
  split
  · rename_i heq
    have hmem : '/' ∈ line.reverse := by
      rw [heq]
      exact mem_cons_self
    exact absurd rfl (hline.plain '/' (mem_reverse.mp hmem)).1
  · rfl

variable {records : List (List Char)}

theorem addLine_of_trimmed {delimiter : List Char} (hdelimiter : Delimiter delimiter)
    (hline : PhysicalLine line) : addLine records (line ++ delimiter) = addLine records line := by
  cases hdelimiter with
  | none => rw [append_nil]
  | slash =>
    have hdropped : dropDelimiter (line ++ ['/']) = line := by
      unfold dropDelimiter
      rw [reverse_append, reverse_singleton, singleton_append, dropWhile_cons_of_neg (by decide)]
      exact reverse_reverse line
    rw [addLine, addLine, hdropped, dropDelimiter_of_physical hline]

variable {lines : List (List Char)}

theorem foldl_pieces (h : LinesText lines text) (hlines : ∀ line ∈ lines, PhysicalLine line)
    (records : List (List Char)) :
    (pieces (text.filter (· ≠ '\r'))).foldl addLine records = lines.foldl addLine records := by
  have hfilter : ∀ {line}, PhysicalLine line → line.filter (· ≠ '\r') = line := fun hline =>
    filter_eq_self.mpr fun c hc => by simpa using (hline.plain c hc).2.2
  have hslash : ∀ {line}, PhysicalLine line → ∀ c ∈ line, c ≠ '/' := fun hline c hc =>
    (hline.plain c hc).1
  have hlf : ∀ {line}, PhysicalLine line → '\n' ∉ line := fun hline hc =>
    (hline.plain _ hc).2.1 rfl
  induction h generalizing records with
  | nil => rfl
  | @last line delimiter hdelimiter =>
    have hline := hlines line mem_cons_self
    have hpieces : pieces ((line ++ delimiter).filter (· ≠ '\r')) = [line ++ delimiter] := by
      rw [filter_append, hfilter hline]
      cases hdelimiter with
      | none =>
        rw [pieces, filter_nil, splitSlashLf_append (hslash hline)]
        simp [splitSlashLf, splitOn_eq_singleton (hlf hline)]
      | slash =>
        have hkept : ['/'].filter (· ≠ '\r') = ['/'] := by decide
        have hnot : '\n' ∉ line ++ ['/'] := by simp [hlf hline]
        rw [pieces, hkept, splitSlashLf_append (hslash hline)]
        simp [splitSlashLf, splitOn_eq_singleton hnot]
    rw [hpieces]
    exact addLine_of_trimmed hdelimiter hline
  | @cons line delimiter lineBreak more lines hdelimiter hbreak hmore ih =>
    have hline := hlines line mem_cons_self
    have hrest := ih fun l hl => hlines l (mem_cons_of_mem _ hl)
    have hpieces : pieces ((line ++ delimiter ++ lineBreak ++ more).filter (· ≠ '\r')) =
        line :: pieces (more.filter (· ≠ '\r')) := by
      have hlineBreak : lineBreak.filter (· ≠ '\r') = ['\n'] := by
        cases hbreak <;> decide
      rw [filter_append, filter_append, filter_append, hfilter hline, hlineBreak]
      cases hdelimiter with
      | none =>
        rw [filter_nil, append_nil, append_assoc, singleton_append]
        exact pieces_bare (hslash hline) (hlf hline)
      | slash =>
        have hkept : ['/'].filter (· ≠ '\r') = ['/'] := by decide
        rw [hkept, append_assoc, append_assoc]
        exact pieces_slash (hslash hline) (hlf hline)
    rw [hpieces, foldl_cons, foldl_cons]
    exact hrest _

/-! ### Joining continuations -/

theorem addLine_of_physical (hline : PhysicalLine line) :
    addLine records line =
      match continuation line with
      | some rest =>
        if records ≠ [] then records.modify (records.length - 1) (· ++ ',' :: rest)
        else records ++ [line]
      | none => records ++ [line] := by
  rw [addLine, dropDelimiter_of_physical hline, trim_eq_self_iff.mpr hline.trimmed,
    if_neg hline.ne_nil]

theorem continuation_first {code : List Char} (hcode : code ≠ ['8', '8'])
    (h : IsField code) : continuation (joined (code :: fields)) = none := by
  unfold continuation
  split
  · rename_i rest heq
    exfalso
    have hcomma : ',' ∉ code := fun hmem => (h.plain _ hmem).2.2.2 rfl
    cases fields with
    | nil =>
      rw [joined_singleton] at heq
      exact hcomma (by simp [heq])
    | cons g fields =>
      rw [joined_cons (by simp)] at heq
      have hsplit := congrArg (List.splitOn ',') heq
      rw [splitOn_append_cons_self_of_not_mem hcomma,
        show '8' :: '8' :: ',' :: rest = ['8', '8'] ++ ',' :: rest from rfl,
        splitOn_append_cons_self_of_not_mem (by decide)] at hsplit
      exact hcode (List.cons.inj hsplit).1
  · rfl

theorem modify_last {α : Type} (g : α → α) {x : α} (xs : List α) :
    (xs ++ [x]).modify xs.length g = xs ++ [g x] := by
  induction xs with
  | nil => rfl
  | cons y xs ih =>
    rw [cons_append, length_cons, modify_succ_cons, ih, cons_append]

variable {record : List Char}

theorem addLine_continuationLine (h : ∀ f ∈ fields, IsField f) :
    addLine (records ++ [record]) (continuationLine fields) =
      records ++ [record ++ ',' :: joined fields] := by
  rw [addLine_of_physical (physicalLine_continuation h), continuationLine]
  have hlast : (records ++ [record]).length - 1 = records.length := by simp
  simp only [continuation, ne_eq, append_eq_nil_iff, cons_ne_nil, and_false,
    not_false_eq_true, if_true, hlast]
  exact modify_last _ _

variable {r : LogicalRecord}

theorem foldl_recordLines (h : RecordLines r lines) (records : List (List Char)) :
    lines.foldl addLine records = records ++ [r.text] := by
  obtain ⟨first, more, hfields, hmore⟩ := h
  have hfirst : ∀ f ∈ r.code :: first, IsField f := fun f hf => r.isField f (by
    rw [hfields]
    rcases mem_cons.mp hf with rfl | hf
    · exact mem_cons_self
    · exact mem_cons_of_mem _ (mem_append_left _ hf))
  have hchunks : ∀ chunk ∈ more, ∀ f ∈ chunk, IsField f := fun chunk hchunk f hf =>
    r.isField f (by
      rw [hfields]
      exact mem_cons_of_mem _ (mem_append_right _ (mem_flatten.mpr ⟨chunk, hchunk, hf⟩)))
  rw [foldl_cons, addLine_of_physical (physicalLine_first r.code_ne_nil hfirst),
    continuation_first r.code_ne_continuation (hfirst _ mem_cons_self), LogicalRecord.text,
    hfields]
  -- what has been joined so far is a record of the fields written so far
  have hrun : ∀ (more : List (List (List Char))) (written : List (List Char)), written ≠ [] →
      (∀ chunk ∈ more, chunk ≠ []) → (∀ chunk ∈ more, ∀ f ∈ chunk, IsField f) →
      (more.map continuationLine).foldl addLine (records ++ [joined written]) =
        records ++ [joined (written ++ more.flatten)] := by
    intro more
    induction more with
    | nil => intro written _ _ _; simp
    | cons chunk more ih =>
      intro written hwritten hne hfields
      rw [map_cons, foldl_cons,
        addLine_continuationLine (hfields chunk mem_cons_self),
        ← joined_append hwritten (hne chunk mem_cons_self),
        ih _ (by simp [hwritten]) (fun x hx => hne x (mem_cons_of_mem _ hx))
          (fun x hx => hfields x (mem_cons_of_mem _ hx)),
        flatten_cons, append_assoc]
  rw [hrun more (r.code :: first) (by simp) hmore hchunks, cons_append]

theorem physicalLine_of_recordLines (h : RecordLines r lines) :
    ∀ line ∈ lines, PhysicalLine line := by
  obtain ⟨first, more, hfields, -⟩ := h
  intro line hline
  rcases mem_cons.mp hline with rfl | hline
  · refine physicalLine_first r.code_ne_nil fun f hf => r.isField f ?_
    rw [hfields]
    rcases mem_cons.mp hf with rfl | hf
    · exact mem_cons_self
    · exact mem_cons_of_mem _ (mem_append_left _ hf)
  · obtain ⟨chunk, hchunk, rfl⟩ := mem_map.mp hline
    refine physicalLine_continuation fun f hf => r.isField f ?_
    rw [hfields]
    exact mem_cons_of_mem _ (mem_append_right _ (mem_flatten.mpr ⟨chunk, hchunk, hf⟩))

variable {rs : List LogicalRecord}

theorem physicalLine_of_forall {lines : List (List (List Char))}
    (h : List.Forall₂ RecordLines rs lines) : ∀ line ∈ lines.flatten, PhysicalLine line := by
  induction h with
  | nil => exact fun _ hline => nomatch hline
  | cons hr _ ih =>
    intro line hline
    rw [flatten_cons] at hline
    rcases mem_append.mp hline with hline | hline
    · exact physicalLine_of_recordLines hr line hline
    · exact ih line hline

/-- **A written text is read as the records it was written for.** -/
theorem recordsOf_written (h : Written rs text) : recordsOf text = rs.map LogicalRecord.text := by
  obtain ⟨lines, hlines, htext⟩ := h
  have hphysical := physicalLine_of_forall hlines
  rw [recordsOf, ← pieces, foldl_pieces htext hphysical]
  have hrun : ∀ records : List (List Char), lines.flatten.foldl addLine records =
      records ++ rs.map LogicalRecord.text := by
    clear htext hphysical
    induction hlines with
    | nil => intro records; simp
    | cons hr _ ih =>
      intro records
      rw [flatten_cons, foldl_append, foldl_recordLines hr, ih, append_assoc,
        map_cons, singleton_append]
  exact hrun []

theorem any_linesText (hslash : p '/' = false) (hlf : p '\n' = false) (hcr : p '\r' = false)
    (h : LinesText lines text) : text.any p = lines.any fun line => line.any p := by
  have hdelimiter : ∀ {delimiter}, Delimiter delimiter → delimiter.any p = false := by
    intro delimiter hd
    cases hd <;> simp [hslash]
  induction h with
  | nil => rfl
  | last hd => simp [any_append, hdelimiter hd]
  | cons hd hbreak _ ih =>
    have hlineBreak : ∀ {lineBreak}, LineBreak lineBreak → lineBreak.any p = false := by
      intro lineBreak hb
      cases hb <;> simp [hlf, hcr]
    simp only [any_append, hdelimiter hd, hlineBreak hbreak, ih, Bool.or_false, any_cons]

theorem any_joined (hcomma : p ',' = false) :
    (joined fields).any p = fields.any fun f => f.any p := by
  induction fields with
  | nil => rfl
  | cons f fields ih =>
    cases fields with
    | nil => simp [joined_singleton]
    | cons g fields =>
      rw [joined_cons (by simp), any_append, any_cons, hcomma, Bool.false_or, ih, any_cons (a := f)]

theorem any_recordLines (hcomma : p ',' = false) (height : p '8' = false)
    (h : RecordLines r lines) : (lines.any fun line => line.any p) = r.text.any p := by
  obtain ⟨first, more, hfields, -⟩ := h
  have hmore : ((more.map continuationLine).any fun line => line.any p) =
      more.flatten.any fun f => f.any p := by
    clear hfields
    induction more with
    | nil => rfl
    | cons chunk more ih =>
      rw [map_cons, any_cons, ih, flatten_cons, any_append, continuationLine,
        any_cons, any_cons, any_cons, height, hcomma, any_joined hcomma]
      rfl
  rw [any_cons, hmore, LogicalRecord.text, hfields, any_joined hcomma, any_joined hcomma,
    any_cons, any_cons, any_append, Bool.or_assoc]

theorem any_written (hplain : ∀ c ∈ ['/', '\n', '\r', ',', '8'], p c = false)
    (h : Written rs text) : text.any p = rs.any fun r => r.text.any p := by
  obtain ⟨lines, hlines, htext⟩ := h
  rw [any_linesText (hplain _ (by simp)) (hplain _ (by simp)) (hplain _ (by simp)) htext]
  clear htext
  induction hlines with
  | nil => rfl
  | cons hr _ ih =>
    rw [flatten_cons, any_append, ih,
      any_recordLines (hplain _ (by simp)) (hplain _ (by simp)) hr, any_cons]

theorem withoutBom_written (h : Written rs text) : withoutBom text = text := by
  obtain ⟨lines, hlines, htext⟩ := h
  have hphysical := physicalLine_of_forall hlines
  have hhead : ∀ c ∈ text.head?, isJsWhitespace c = false := by
    generalize lines.flatten = flat at htext hphysical
    cases htext with
    | nil => exact fun _ hc => nomatch hc
    | @last line _ _ =>
      have hline := hphysical line mem_cons_self
      rw [head?_append_of_ne_nil _ hline.ne_nil]
      exact hline.trimmed.head
    | @cons line _ _ _ _ _ _ _ =>
      have hline := hphysical line mem_cons_self
      rw [append_assoc, append_assoc, head?_append_of_ne_nil _ hline.ne_nil]
      exact hline.trimmed.head
  cases text with
  | nil => rfl
  | cons c rest =>
    refine if_neg fun hbom => ?_
    have hc := hhead c rfl
    rw [hbom] at hc
    exact absurd hc (by decide)

/-- **How records are written does not show**: what is read depends on the records alone. -/
theorem parseBai2_of_written (h : Written rs text) :
    parseBai2 text = (do
      refuseIf ((rs.any fun r => r.text.any isUnsupportedControl) = true)
        (⟨"Statement source contains unsupported control characters"⟩ : BankingError)
      readRecords (rs.map LogicalRecord.text)) := by
  have hcontrols := any_written (p := isUnsupportedControl)
    (forall_iff_forall_mem.mp (by decide)) h
  unfold parseBai2 validateStatementText
  rw [withoutBom_written h, hcontrols, ← recordsOf_written h]
  unfold refuseIf
  split_ifs <;> rfl

/-! ### Amounts -/

variable {s s' : State}

theorem baiAmount_eq_ok {cents result : List Char} :
    baiAmount cents = .ok result ↔ ∃ c, matchCents cents = some c ∧ InLedgerRange (c * 100) ∧
      result = (fromUnits (c * 100)).toList := by
  simp only [baiAmount, assertLedgerRange, bind_eq_ok, refuseIf_eq_ok, orRefuse_eq_ok,
    pure_eq_ok, not_lt, InLedgerRange]
  constructor
  · rintro ⟨c, hc, _, hrange, rfl⟩
    exact ⟨c, hc, hrange, rfl⟩
  · rintro ⟨c, hc, hrange, rfl⟩
    exact ⟨c, hc, (), hrange, rfl⟩

theorem toList_fromUnits_of_neg {u : ℤ} (h : u < 0) :
    (fromUnits u).toList = '-' :: (fromUnits |u|).toList := by
  rw [fromUnits, fromUnits, if_pos h, if_neg (not_lt.mpr (abs_nonneg u)), Int.natAbs_abs]
  simp [String.toList_append]

theorem dropMinus_of_head (h : ∀ c ∈ text.head?, c ≠ '-') : dropMinus text = text := by
  unfold dropMinus
  split
  · exact absurd rfl (h '-' rfl)
  · rfl

theorem dropMinus_fromUnits (u : ℤ) : dropMinus (fromUnits u).toList = (fromUnits |u|).toList := by
  by_cases h : u < 0
  · rw [toList_fromUnits_of_neg h]
    rfl
  · rw [abs_of_nonneg (not_lt.mp h)]
    refine dropMinus_of_head fun c hc => ?_
    have hne : Nat.toDigits 10 (u.natAbs / 10000) ≠ [] :=
      ne_nil_of_length_pos Nat.length_toDigits_pos
    rw [fromUnits, if_neg h, String.toList_append, String.toList_append, String.toList_append,
      toList_toString, String.toList_empty, nil_append, append_assoc,
      head?_append_of_ne_nil _ hne] at hc
    have hdigit := Nat.isDigit_of_mem_toDigits (by decide) (by decide) (mem_of_head? hc)
    rintro rfl
    exact absurd hdigit (by decide)

/-- A debit of nothing is not the text of an amount; every other signed amount is. -/
theorem signed_fromUnits (typeCode : List Char) (u : ℤ) :
    let v := if numberAtLeast400 typeCode = true then -|u| else u
    toUnits (signed typeCode (fromUnits u).toList) = some v ∧
      (signed typeCode (fromUnits u).toList = (fromUnits v).toList ↔
        ¬(numberAtLeast400 typeCode = true ∧ u = 0)) := by
  intro v
  by_cases hdebit : numberAtLeast400 typeCode = true
  · have hv : v = -|u| := if_pos hdebit
    rw [signed, if_pos hdebit, dropMinus_fromUnits, hv]
    by_cases hzero : u = 0
    · subst hzero
      simp only [hdebit, and_self, not_true_eq_false, iff_false]
      decide +kernel
    · have hneg : -|u| < 0 := neg_neg_of_pos (abs_pos.mpr hzero)
      have htext : '-' :: (fromUnits |u|).toList = (fromUnits (-|u|)).toList := by
        rw [toList_fromUnits_of_neg hneg, abs_neg, abs_abs]
      rw [htext]
      exact ⟨toUnits_fromUnits _, by simp [hzero]⟩
  · have hv : v = u := if_neg hdebit
    rw [signed, if_neg hdebit, hv]
    exact ⟨toUnits_fromUnits u, by simp [hdebit]⟩

/-! ### One line for each detail record -/

/-- The fields of the detail records, in order. -/
def detailsOf (records : List (List Char)) : List (List (List Char)) :=
  (records.map (List.splitOn ',')).filter fun f => f.getD 0 [] = "16".toList

/-- What a line says of the amount of its record. -/
def Reads (f : List (List Char)) (line : ParsedStatementLine) : Prop :=
  ∃ c, matchCents (f.getD 2 []) = some c ∧
    line.amount = signed (f.getD 1 []) (fromUnits (c * 100)).toList

variable {f : List (List Char)}

theorem readGroup_lines (h : readGroup s f = .ok s') : s'.lines = s.lines := by
  unfold readGroup at h
  split at h
  · obtain ⟨_, -, h⟩ := bind_eq_ok.mp h
    obtain rfl := pure_eq_ok.mp h
    rfl
  · obtain rfl := Except.ok.inj h
    rfl

theorem readAccount_lines (h : readAccount s f = .ok s') : s'.lines = s.lines := by
  simp only [readAccount, bind_eq_ok, pure_eq_ok] at h
  obtain ⟨_, -, _, -, _, -, _, -, rfl⟩ := h
  rfl

theorem readDetail_lines (h : readDetail s f = .ok s') :
    ∃ line, Reads f line ∧ s'.lines = s.lines ++ [line] := by
  simp only [readDetail, bind_eq_ok, pure_eq_ok] at h
  obtain ⟨_, -, magnitude, hmagnitude, _, -, _, -, rfl⟩ := h
  obtain ⟨c, hc, -, rfl⟩ := baiAmount_eq_ok.mp hmagnitude
  exact ⟨_, ⟨c, hc, rfl⟩, rfl⟩

theorem step_lines (h : step s record = .ok s') :
    ∃ added, s'.lines = s.lines ++ added ∧ List.Forall₂ Reads (detailsOf [record]) added := by
  have hdetails : detailsOf [record] =
      if (record.splitOn ',').getD 0 [] = "16".toList then [record.splitOn ','] else [] := by
    rw [detailsOf, map_singleton, filter_singleton]
    simp
  unfold step at h
  dsimp only at h
  rw [hdetails]
  split_ifs at h with hgroup haccount hdetail
  · rw [hgroup, if_neg (by decide)]
    exact ⟨[], by simp [readGroup_lines h], .nil⟩
  · rw [haccount, if_neg (by decide)]
    exact ⟨[], by simp [readAccount_lines h], .nil⟩
  · obtain ⟨line, hreads, hlines⟩ := readDetail_lines h
    rw [if_pos hdetail]
    exact ⟨[line], hlines, .cons hreads .nil⟩
  · obtain rfl := Except.ok.inj h
    rw [if_neg hdetail]
    exact ⟨[], by simp, .nil⟩

theorem foldlM_lines (h : records.foldlM step s = .ok s') :
    ∃ added, s'.lines = s.lines ++ added ∧ List.Forall₂ Reads (detailsOf records) added := by
  induction records generalizing s with
  | nil =>
    obtain rfl := Except.ok.inj h
    exact ⟨[], by simp, .nil⟩
  | cons record records ih =>
    obtain ⟨s₁, hstep, hrest⟩ := bind_eq_ok.mp (by rwa [foldlM_cons] at h)
    obtain ⟨added, hadded, hfirst⟩ := step_lines hstep
    obtain ⟨more, hmore, hothers⟩ := ih hrest
    have hdetails : detailsOf (record :: records) = detailsOf [record] ++ detailsOf records := by
      rw [detailsOf, detailsOf, detailsOf, ← filter_append, ← map_append]
      rfl
    rw [hdetails, hmore, hadded, append_assoc]
    exact ⟨_, rfl, rel_append hfirst hothers⟩

/-- **There is one line for each detail record**, in the order of the file. -/
theorem lines_of_parse {statement : ParsedStatement} (h : parseBai2 text = .ok statement) :
    ∃ body, validateStatementText text = .ok body ∧
      List.Forall₂ Reads (detailsOf (recordsOf body)) statement.lines := by
  simp only [parseBai2, readRecords, bind_eq_ok, pure_eq_ok] at h
  obtain ⟨body, hbody, s, hrun, _, -, rfl⟩ := h
  obtain ⟨added, hadded, hreads⟩ := foldlM_lines hrun
  rw [hadded]
  exact ⟨body, hbody, hreads⟩

/-! ### Booked as it should be -/

/-- A type code: a number, in digits. -/
def IsTypeCode (text : List Char) : Prop := isDigits text = true

instance (text : List Char) : Decidable (IsTypeCode text) := inferInstanceAs (Decidable (_ = true))

/-- The line of a detail record that is booked as it should be: the type code is a number, the
amount is canonical money of the magnitude of the cents, and unsigned cents are a debit from the
code 400 on. -/
structure Booked (f : List (List Char)) (line : ParsedStatementLine) : Prop where
  typeCode : IsTypeCode (f.getD 1 [])
  amount : ∃ c v, matchCents (f.getD 2 []) = some c ∧ toUnits line.amount = some v ∧
    line.amount = (fromUnits v).toList ∧ |v| = |c| * 100 ∧
    (isDigits (f.getD 2 []) = true →
      v = if 400 ≤ digitsValue (f.getD 1 []) then -(c * 100) else c * 100)

theorem isDigits_iff : isDigits text = true ↔ text ≠ [] ∧ ∀ c ∈ text, c.isDigit = true := by
  simp [isDigits]

theorem matchCents_nonneg {c : ℤ} (hdigits : isDigits text = true)
    (h : matchCents text = some c) : 0 ≤ c := by
  obtain ⟨hne, hall⟩ := isDigits_iff.mp hdigits
  obtain ⟨first, more, rfl⟩ := exists_cons_of_ne_nil hne
  have hfirst := hall first mem_cons_self
  have hall : (first :: more).all Char.isDigit = true := by simpa using hall
  unfold matchCents at h
  split at h
  rename_i negative digits heq
  split at heq
  · rename_i hcons
    rw [(List.cons.inj hcons).1] at hfirst
    cases hfirst
  · rename_i hcons
    rw [(List.cons.inj hcons).1] at hfirst
    cases hfirst
  · obtain ⟨rfl, rfl⟩ := Prod.mk.inj heq
    rw [if_pos ⟨hne, hall⟩] at h
    obtain rfl := Option.some.inj h
    simp

/-- A line is booked as it should be unless its type code is not a number or it is a debit of
nothing. -/
theorem booked_iff {line : ParsedStatementLine} (h : Reads f line) :
    Booked f line ↔ IsTypeCode (f.getD 1 []) ∧
      (400 ≤ digitsValue (f.getD 1 []) → matchCents (f.getD 2 []) ≠ some 0) := by
  obtain ⟨c, hc, hamount⟩ := h
  obtain ⟨hunits, hcanonical⟩ := signed_fromUnits (f.getD 1 []) (c * 100)
  set v := if numberAtLeast400 (f.getD 1 []) = true then -|c * 100| else c * 100 with hv
  rw [← hamount] at hunits hcanonical
  have hcode : IsTypeCode (f.getD 1 []) →
      (numberAtLeast400 (f.getD 1 []) = true ↔ 400 ≤ digitsValue (f.getD 1 [])) := by
    intro hdigits
    obtain ⟨hne, hall⟩ := isDigits_iff.mp hdigits
    rw [numberAtLeast400_digits hne hall, decide_eq_true_eq]
  have hzero : matchCents (f.getD 2 []) ≠ some 0 ↔ c * 100 ≠ 0 := by
    rw [hc, ne_eq, Option.some.injEq]
    omega
  constructor
  · rintro ⟨htype, c', v', hc', hunits', hcanonical', -, -⟩
    obtain rfl := Option.some.inj (hc.symm.trans hc')
    obtain rfl := Option.some.inj (hunits.symm.trans hunits')
    refine ⟨htype, fun hdebit => hzero.mpr fun hnone => ?_⟩
    exact hcanonical.mp hcanonical' ⟨(hcode htype).mpr hdebit, hnone⟩
  · rintro ⟨htype, hdebit⟩
    have hnot : ¬(numberAtLeast400 (f.getD 1 []) = true ∧ c * 100 = 0) := fun h =>
      hzero.mp (hdebit ((hcode htype).mp h.1)) h.2
    refine ⟨htype, c, v, hc, hunits, hcanonical.mpr hnot, ?_, fun hunsigned => ?_⟩
    · rw [hv]
      split_ifs <;> simp [abs_mul]
    · have hnonneg := matchCents_nonneg hunsigned hc
      rw [hv, abs_of_nonneg (by omega)]
      simp only [hcode htype]

/-- The detail records among some records, as their fields. -/
def details (rs : List LogicalRecord) : List (List (List Char)) :=
  (rs.filter fun r => r.code = "16".toList).map fun r => r.code :: r.fields

theorem splitOn_text (r : LogicalRecord) : r.text.splitOn ',' = r.code :: r.fields :=
  splitOn_intercalate ',' (fun f hf hc => ((r.isField f hf).plain _ hc).2.2.2 rfl) (by simp)

theorem detailsOf_map_text (rs : List LogicalRecord) :
    detailsOf (rs.map LogicalRecord.text) = details rs := by
  have hsplit : (rs.map LogicalRecord.text).map (List.splitOn ',') =
      rs.map fun r => r.code :: r.fields := by
    rw [map_map]
    exact map_congr_left fun r _ => splitOn_text r
  rw [detailsOf, details, hsplit, filter_map]
  rfl

/-- **Continuation is transparent, and detail records are booked as they should be unless a type
code is not a number or a debit is of nothing.** However some records are written, the same comes
of them; if they are accepted, there is one line for each detail record, in order, and all lines
are booked as they should be exactly when every type code is a number and no debit is of
nothing. -/
theorem continued_and_booked_iff {rs : List LogicalRecord} (hwritten : Written rs text) :
    (∀ text', Written rs text' → parseBai2 text' = parseBai2 text) ∧
    ∀ statement, parseBai2 text = .ok statement →
      statement.lines.length = (details rs).length ∧
      (List.Forall₂ Booked (details rs) statement.lines ↔
        ∀ f ∈ details rs, IsTypeCode (f.getD 1 []) ∧
          (400 ≤ digitsValue (f.getD 1 []) → matchCents (f.getD 2 []) ≠ some 0)) := by
  refine ⟨fun text' h' => (parseBai2_of_written h').trans (parseBai2_of_written hwritten).symm,
    fun statement h => ?_⟩
  obtain ⟨body, hbody, hlines⟩ := lines_of_parse h
  have hrecords : recordsOf body = rs.map LogicalRecord.text := by
    simp only [validateStatementText, bind_eq_ok, pure_eq_ok] at hbody
    obtain ⟨_, -, rfl⟩ := hbody
    rw [withoutBom_written hwritten, recordsOf_written hwritten]
  rw [hrecords, detailsOf_map_text] at hlines
  refine ⟨hlines.length_eq.symm, ?_⟩
  clear hrecords hbody h hwritten
  generalize details rs = fields, statement.lines = lines at hlines
  induction hlines with
  | nil => simp
  | cons hreads _ ih =>
    rw [forall₂_cons, booked_iff hreads, ih, forall_mem_cons]

/-- The text of some records with each in one line. -/
def plainText (rs : List LogicalRecord) : List Char := rs.flatMap fun r => r.text ++ ['\n']

theorem written_plainText (rs : List LogicalRecord) : Written rs (plainText rs) := by
  refine ⟨rs.map fun r => [r.text], ?_, ?_⟩
  · rw [forall₂_map_right_iff, forall₂_same]
    exact fun r _ => .continued r.fields [] (by simp) (by simp)
  · induction rs with
    | nil => exact .nil
    | cons r rs ih =>
      have h : LinesText _ (r.text ++ [] ++ ['\n'] ++ plainText rs) := .cons .none .lf ih
      rwa [append_nil] at h

/-- A credit in two lines, read as in one. -/
theorem continued_and_booked_credit :
    ∃ rs text statement, Written rs text ∧ text ≠ plainText rs ∧
      parseBai2 (plainText rs) = .ok statement ∧ parseBai2 text = .ok statement ∧
      List.Forall₂ Booked (details rs) statement.lines := by
  let group : LogicalRecord :=
    ⟨"02".toList, [[], [], [], "260131".toList], by decide, by decide, by decide +kernel⟩
  let detail : LogicalRecord :=
    ⟨"16".toList, ["142".toList, "2500".toList, "V".toList, [], [], "R".toList], by decide,
      by decide, by decide +kernel⟩
  have hwritten : Written [group, detail]
      "02,,,,260131\n16,142,2500,V/\r\n88,,\n88,R/".toList :=
    ⟨[["02,,,,260131".toList], ["16,142,2500,V".toList, "88,,".toList, "88,R".toList]],
      .cons (.continued [[], [], [], "260131".toList] [] rfl (by simp))
        (.cons (.continued ["142".toList, "2500".toList, "V".toList] [[[], []], ["R".toList]] rfl
          (by decide)) .nil),
      .cons .none .lf (.cons .slash .crlf (.cons .none .lf (.last .slash)))⟩
  have hok : (parseBai2 (plainText [group, detail])).isOk = true := by decide +kernel
  obtain ⟨statement, h⟩ := exists_of_isOk hok
  obtain ⟨hsame, hbooked⟩ := continued_and_booked_iff (written_plainText [group, detail])
  exact ⟨[group, detail], _, statement, hwritten, by decide +kernel, h,
    (hsame _ hwritten).trans h, (hbooked statement h).2.mpr (by decide +kernel)⟩

/-- A type code that is a word is read as a credit, and a debit of nothing is not canonical. -/
theorem word_is_credit_and_zero_debit_has_sign :
    ∃ group word zero : LogicalRecord,
      (∃ statement, parseBai2 (plainText [group, word]) = .ok statement ∧
        details [group, word] = [["16".toList, "ABC".toList, "2500".toList]] ∧
        statement.lines.map ParsedStatementLine.amount = ["25.0000".toList]) ∧
      (∃ statement, parseBai2 (plainText [group, zero]) = .ok statement ∧
        details [group, zero] = [["16".toList, "475".toList, "0".toList]] ∧
        statement.lines.map ParsedStatementLine.amount = ["-0.0000".toList] ∧
        (toUnits "-0.0000".toList).map fromUnits = some "0.0000") := by
  let group : LogicalRecord :=
    ⟨"02".toList, [[], [], [], "260131".toList], by decide, by decide, by decide +kernel⟩
  let word : LogicalRecord :=
    ⟨"16".toList, ["ABC".toList, "2500".toList], by decide, by decide, by decide +kernel⟩
  let zero : LogicalRecord :=
    ⟨"16".toList, ["475".toList, "0".toList], by decide, by decide, by decide +kernel⟩
  have hword : (parseBai2 (plainText [group, word])).toOption.any (fun s =>
      s.lines.map ParsedStatementLine.amount = ["25.0000".toList]) = true := by decide +kernel
  have hzero : (parseBai2 (plainText [group, zero])).toOption.any (fun s =>
      s.lines.map ParsedStatementLine.amount = ["-0.0000".toList]) = true := by decide +kernel
  obtain ⟨first, hfirst, hcredit⟩ := exists_of_any hword
  obtain ⟨second, hsecond, hdebit⟩ := exists_of_any hzero
  exact ⟨group, word, zero, ⟨first, hfirst, by decide +kernel, of_decide_eq_true hcredit⟩,
    second, hsecond, by decide +kernel, of_decide_eq_true hdebit, by decide +kernel⟩

end Bai2

end OpenBooks
