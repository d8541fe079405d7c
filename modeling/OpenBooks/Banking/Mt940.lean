import OpenBooks.Banking.ParsedStatement
import OpenBooks.Banking.StatementAmounts

/-!
# MT940 messages

A message is cut into tagged fields (`Mt940.fieldsOf`), and the fields are read in order by a small
state machine (`Mt940.step`): a `:61:` starts a transaction, an `:86:` describes the one that is
pending, and the balance fields carry the currency, the closing balance and its date. A pending
transaction is stated when the next one starts or the message ends.

A transaction therefore has the description of the last `:86:` before the next `:61:`
(`Mt940.lines_of_parse`), wherever that stands. It is the description given directly behind it just
when no `:86:` strays behind another field with a text of its own (`Mt940.narrative_belongs_iff`).
-/

namespace OpenBooks

open List

namespace Mt940

open Checked

/-! ### Fields -/

structure Field where
  tag : List Char
  value : List Char
  deriving DecidableEq

/-- `.` of a pattern: no line terminator. -/
def isDot (c : Char) : Bool :=
  c ≠ '\n' && c ≠ '\r' && c ≠ Char.ofNat 0x2028 && c ≠ Char.ofNat 0x2029

/-- The value behind the colon that closes a tag. -/
def tagValue (tag : List Char) : List Char → Option Field
  | ':' :: value => if value.all isDot then some ⟨tag, value⟩ else none
  | _ => none

/-- `/^:(\d{2}[A-Z]?):(.*)$/`. -/
def matchTag : List Char → Option Field
  | ':' :: d1 :: d2 :: rest =>
    if d1.isDigit ∧ d2.isDigit then
      match rest with
      | c :: more => if c.isUpper then tagValue [d1, d2, c] more else tagValue [d1, d2] (c :: more)
      | [] => none
    else none
  | _ => none

/-- One more line: a new field, or more of the last one. -/
def addLine (fields : List Field) (line : List Char) : List Field :=
  match matchTag line with
  | some field => fields ++ [field]
  | none =>
    if trim line ≠ [] ∧ trim line ≠ ['-'] then
      fields.modify (fields.length - 1) fun f => { f with value := f.value ++ '\n' :: line }
    else fields

/-- The tag blocks of a message. -/
def fieldsOf (text : List Char) : List Field :=
  ((text.filter (· ≠ '\r')).splitOn '\n').foldl addLine []

/-! ### Reading a field -/

def isAmountChar (c : Char) : Bool := c.isDigit || c = '.' || c = ','

/-- `([\d.,]+)`, and what follows. -/
def matchAmount (text : List Char) : Option (List Char × List Char) :=
  let amount := text.takeWhile isAmountChar
  if amount = [] then none else some (amount, text.dropWhile isAmountChar)

/-- `(R?[DC])`, and what follows. -/
def matchMark : List Char → Option (List Char × List Char)
  | 'R' :: 'D' :: rest => some (['R', 'D'], rest)
  | 'R' :: 'C' :: rest => some (['R', 'C'], rest)
  | 'D' :: rest => some (['D'], rest)
  | 'C' :: rest => some (['C'], rest)
  | _ => none

/-- `(\d{4})?`, and what follows. -/
def dropEntryDate (text : List Char) : List Char :=
  if (text.take 4).length = 4 ∧ (text.take 4).all Char.isDigit then text.drop 4 else text

/-- `([A-Z])?`, and what follows. -/
def dropFundsCode : List Char → List Char
  | c :: rest => if c.isUpper then rest else c :: rest
  | [] => []

/-- What a `:61:` states, and the rest of it. -/
structure StatementLine where
  date : List Char × List Char × List Char
  mark : List Char
  amount : List Char
  rest : List Char

/-- `/^(\d{6})(\d{4})?(R?[DC])([A-Z])?([\d.,]+)/`. -/
def matchStatementLine (value : List Char) : Option StatementLine := do
  let (date, more) ← matchSixDigits value
  let (mark, more) ← matchMark (dropEntryDate more)
  let (amount, rest) ← matchAmount (dropFundsCode more)
  return ⟨date, mark, amount, rest⟩

/-- The text in front of the first two slashes. -/
def beforeSlashes : List Char → List Char
  | '/' :: '/' :: _ => []
  | c :: rest => c :: beforeSlashes rest
  | [] => []

/-- `/^N[A-Z]{3}/`, taken off. -/
def dropTypeCode : List Char → List Char
  | 'N' :: a :: b :: c :: rest =>
    if a.isUpper ∧ b.isUpper ∧ c.isUpper then rest else 'N' :: a :: b :: c :: rest
  | text => text

/-- The transaction of a `:61:`, without its description. -/
def readStatementLine (value : List Char) : Except BankingError ParsedStatementLine := do
  let m ← orRefuse (matchStatementLine value) ⟨"MT940: unparseable :61: line \"" ++
    String.ofList (utf16Take 40 value) ++ "\""⟩
  -- `RC` and `RD` name what is reversed, so a reversed credit takes money out
  let debit := m.mark = ['D'] ∨ m.mark = ['R', 'C']
  let amount ← normalizeAmount ((if debit then ['-'] else []) ++ m.amount) "MT940 amount"
    .swiftDecimal
  let ref := orNull (trim (dropTypeCode (beforeSlashes m.rest)))
  let postedOn ← sixDigitDate m.date
    ("MT940 date \"" ++ String.ofList (m.date.1 ++ m.date.2.1 ++ m.date.2.2) ++ "\"")
  return ⟨postedOn, amount, none, ref, ref⟩

/-- Structure codes of a narrative as spaces: `/[?>]\d{2}/`. -/
def blankCodes : List Char → List Char
  | c :: d1 :: d2 :: rest =>
    if (c = '?' ∨ c = '>') ∧ d1.isDigit ∧ d2.isDigit then ' ' :: blankCodes rest
    else c :: blankCodes (d1 :: d2 :: rest)
  | text => text

/-- Every run of white space as one space. -/
def collapseSpaces : List Char → List Char
  | [] => []
  | c :: rest =>
    if isJsWhitespace c then
      match rest with
      | d :: _ => if isJsWhitespace d then collapseSpaces rest else ' ' :: collapseSpaces rest
      | [] => [' ']
    else c :: collapseSpaces rest

/-- The description an `:86:` gives. -/
def narrative (value : List Char) : Option (List Char) :=
  orNull (trim (collapseSpaces (blankCodes (value.map fun c => if c = '\n' then ' ' else c))))

/-- A balance: its mark, date, currency and amount. -/
structure Balance where
  mark : Char
  date : List Char × List Char × List Char
  currency : List Char
  amount : List Char

/-- `/^([DC])(\d{6})([A-Z]{3})([\d.,]+)/`. -/
def matchBalance : List Char → Option Balance
  | c :: rest =>
    if c = 'D' ∨ c = 'C' then do
      let (date, more) ← matchSixDigits rest
      if (more.take 3).length = 3 ∧ (more.take 3).all Char.isUpper then
        let (amount, _) ← matchAmount (more.drop 3)
        return ⟨c, date, more.take 3, amount⟩
      else none
    else none
  | [] => none

/-! ### The state machine -/

structure State where
  lines : List ParsedStatementLine
  currency : Option (List Char)
  closingBalance : Option (List Char)
  statementDate : Option (List Char)
  pending : Option ParsedStatementLine

def State.start : State := ⟨[], none, none, none, none⟩

def State.pushPending (s : State) : State :=
  { s with lines := s.lines ++ s.pending.toList, pending := none }

def isBalanceTag (tag : List Char) : Bool :=
  tag ∈ ["60F".toList, "60M".toList, "62F".toList, "62M".toList]

/-- A balance field: one currency throughout, and the closing balance with its date. -/
def readBalance (s : State) (f : Field) : Except BankingError State :=
  match matchBalance f.value with
  | none => .ok s
  | some m => do
    refuseIf (∃ currency ∈ s.currency, currency ≠ m.currency)
      (⟨"MT940: contradictory balance currencies " ++ String.ofList (s.currency.getD []) ++
        " and " ++ String.ofList m.currency ++ " — split the statements instead of merging them"⟩ :
        BankingError)
    let s := { s with currency := some m.currency }
    if f.tag = "62F".toList ∨ f.tag = "62M".toList then
      let closing ← normalizeAmount ((if m.mark = 'D' then ['-'] else []) ++ m.amount)
        "MT940 closing balance" .swiftDecimal
      let date ← sixDigitDate m.date "MT940 balance date"
      return { s with closingBalance := some closing, statementDate := some date }
    else return s

def step (s : State) (f : Field) : Except BankingError State :=
  if f.tag = "61".toList then do
    let line ← readStatementLine f.value
    return { s.pushPending with pending := some line }
  else if f.tag = "86".toList ∧ s.pending.isSome then
    .ok { s with pending := s.pending.map fun p => { p with description := narrative f.value } }
  else if isBalanceTag f.tag then readBalance s f
  else .ok s

/-- The accounts a message names, each once. -/
def accountsOf (fields : List Field) : List (List Char) :=
  ((fields.map fun f => if f.tag = "25".toList then trim f.value else []).filter (· ≠ [])).foldl
    (fun seen account => if account ∈ seen then seen else seen ++ [account]) []

/-- Parse a message. -/
def parseMt940 (source : List Char) : Except BankingError ParsedStatement := do
  let text ← validateStatementText source
  let fields := fieldsOf text
  refuseIf (1 < (fields.filter fun f => f.tag = "20".toList).length)
    (⟨"MT940 message contains multiple statements — import one statement per message so each " ++
      "keeps its own account, balance, and lines"⟩ : BankingError)
  let accounts := accountsOf fields
  refuseIf (1 < accounts.length)
    (⟨"MT940 message contains multiple accounts (" ++
      String.intercalate ", " (accounts.map String.ofList) ++
      ") — import one account per message so each statement keeps its own currency, balance, " ++
      "and lines"⟩ : BankingError)
  let s ← fields.foldlM step State.start
  let s := s.pushPending
  refuseIf (s.lines = []) (⟨"MT940: no :61: statement lines found"⟩ : BankingError)
  return ⟨s.lines, s.currency, s.statementDate, s.closingBalance, accounts.head?⟩

/-! ### Transactions and what follows them -/

def isLine (f : Field) : Bool := f.tag = "61".toList

def isNarrative (f : Field) : Bool := f.tag = "86".toList

/-- Every `:61:` with the fields that follow it up to the next one. -/
def stretches : List Field → List (Field × List Field)
  | [] => []
  | f :: rest =>
    if isLine f then (f, rest.takeWhile fun g => !isLine g) :: stretches rest else stretches rest

/-- The description the last `:86:` of some fields gives. -/
def given (fields : List Field) : Option (List Char) :=
  (fields.filter isNarrative).getLast?.bind fun f => narrative f.value

/-- A transaction with the description of the last `:86:`, if there is one. -/
def describe (line : ParsedStatementLine) (fields : List Field) : ParsedStatementLine :=
  match (fields.filter isNarrative).getLast? with
  | some f => { line with description := narrative f.value }
  | none => line

/-- A stated transaction is the one its `:61:` reads as, with the last description of its
stretch. -/
def States (p : Field × List Field) (line : ParsedStatementLine) : Prop :=
  ∃ read, readStatementLine p.1.value = .ok read ∧ line = { read with description := given p.2 }

variable {s s' : State} {f : Field} {fields fields' : List Field}
  {line read : ParsedStatementLine}

theorem description_read {value : List Char} (h : readStatementLine value = .ok read) :
    read.description = none := by
  simp only [readStatementLine, bind_eq_ok, pure_eq_ok] at h
  obtain ⟨_, -, _, -, _, -, rfl⟩ := h
  rfl

theorem describe_read (h : read.description = none) :
    describe read fields = { read with description := given fields } := by
  unfold describe given
  cases (fields.filter isNarrative).getLast? with
  | some f => rfl
  | none => rw [Option.bind_none, ← h]

theorem describe_cons_narrative (hf : isNarrative f = true) :
    describe line (f :: fields) =
      describe { line with description := narrative f.value } fields := by
  unfold describe
  rw [filter_cons_of_pos hf, getLast?_cons]
  cases (fields.filter isNarrative).getLast? with
  | some g | none => rfl

theorem describe_cons_other (hf : isNarrative f = false) :
    describe line (f :: fields) = describe line fields := by
  unfold describe
  rw [filter_cons_of_neg (by simp [hf])]

/-! ### What a step does -/

theorem readBalance_eq_ok (h : readBalance s f = .ok s') :
    s'.lines = s.lines ∧ s'.pending = s.pending := by
  unfold readBalance at h
  split at h
  · obtain rfl := Except.ok.inj h
    exact ⟨rfl, rfl⟩
  · obtain ⟨_, -, h⟩ := bind_eq_ok.mp h
    dsimp only at h
    by_cases hclosing : f.tag = "62F".toList ∨ f.tag = "62M".toList
    · rw [if_pos hclosing] at h
      simp only [bind_eq_ok, pure_eq_ok] at h
      obtain ⟨_, -, _, -, rfl⟩ := h
      exact ⟨rfl, rfl⟩
    · rw [if_neg hclosing] at h
      obtain rfl := pure_eq_ok.mp h
      exact ⟨rfl, rfl⟩

/-- A `:61:` states the pending transaction and starts its own; an `:86:` describes the pending
one; no other field touches either. -/
theorem step_eq_ok (h : step s f = .ok s') :
    (isLine f = true ∧ ∃ read, readStatementLine f.value = .ok read ∧
      s'.lines = s.lines ++ s.pending.toList ∧ s'.pending = some read) ∨
    (isNarrative f = true ∧ isLine f = false ∧ s'.lines = s.lines ∧
      s'.pending = s.pending.map fun p => { p with description := narrative f.value }) ∨
    (isNarrative f = false ∧ isLine f = false ∧ s'.lines = s.lines ∧ s'.pending = s.pending) := by
  unfold step at h
  split_ifs at h with hline hnarrative hbalance
  · obtain ⟨read, hread, h⟩ := bind_eq_ok.mp h
    obtain rfl := pure_eq_ok.mp h
    exact .inl ⟨by simpa [isLine] using hline, read, hread, rfl, rfl⟩
  · obtain rfl := Except.ok.inj h
    exact .inr (.inl ⟨by simpa [isNarrative] using hnarrative.1, by simpa [isLine] using hline,
      rfl, rfl⟩)
  all_goals
    have hkept : s'.lines = s.lines ∧ s'.pending = s.pending := by
      first
        | exact readBalance_eq_ok h
        | (obtain rfl := Except.ok.inj h; exact ⟨rfl, rfl⟩)
    have hno : isLine f = false := by simpa [isLine] using hline
    by_cases hf : f.tag = "86".toList
    · have hnone : s.pending = none := by
        cases hpending : s.pending with
        | none => rfl
        | some p => exact absurd ⟨hf, by rw [hpending]; rfl⟩ hnarrative
      refine .inr (.inl ⟨by simpa [isNarrative] using hf, hno, hkept.1, ?_⟩)
      rw [hkept.2, hnone, Option.map_none]
    · exact .inr (.inr ⟨by simpa [isNarrative] using hf, hno, hkept⟩)

/-- **What a run states**: what was stated, the pending transaction with its last description,
and one transaction for each stretch. -/
theorem run_eq_ok (h : fields.foldlM step s = .ok s') :
    ∃ lines, List.Forall₂ States (stretches fields) lines ∧
      s'.lines ++ s'.pending.toList = s.lines ++
        (s.pending.map fun p => describe p (fields.takeWhile fun g => !isLine g)).toList ++
          lines := by
  induction fields generalizing s with
  | nil =>
    obtain rfl := pure_eq_ok.mp h
    refine ⟨[], .nil, ?_⟩
    rw [append_nil]
    cases s.pending <;> rfl
  | cons f fields ih =>
    rw [foldlM_cons] at h
    obtain ⟨s₁, hstep, hrun⟩ := bind_eq_ok.mp h
    obtain ⟨lines, hlines, hstated⟩ := ih hrun
    rcases step_eq_ok hstep with ⟨hf, read, hread, hkept, hpending⟩ | ⟨hf, hno, hkept, hpending⟩ |
      ⟨hf, hno, hkept, hpending⟩
    · refine ⟨describe read (fields.takeWhile fun g => !isLine g) :: lines, ?_, ?_⟩
      · rw [stretches, if_pos hf]
        exact .cons ⟨read, hread, describe_read (description_read hread)⟩ hlines
      · rw [hstated, hkept, hpending, takeWhile_cons_of_neg (by simp [hf])]
        have hself : ∀ p : ParsedStatementLine, describe p [] = p := fun _ => rfl
        simp [hself]
    · refine ⟨lines, by rwa [stretches, if_neg (by simp [hno])], ?_⟩
      rw [hstated, hkept, hpending, takeWhile_cons_of_pos (by simp [hno]), Option.map_map]
      simp only [describe_cons_narrative hf]
      rfl
    · refine ⟨lines, by rwa [stretches, if_neg (by simp [hno])], ?_⟩
      rw [hstated, hkept, hpending, takeWhile_cons_of_pos (by simp [hno])]
      simp only [describe_cons_other hf]

/-- **One transaction for each `:61:`, with the last description before the next one.** -/
theorem lines_of_parse {text : List Char} {statement : ParsedStatement}
    (h : parseMt940 text = .ok statement) :
    ∃ body, validateStatementText text = .ok body ∧
      List.Forall₂ States (stretches (fieldsOf body)) statement.lines := by
  simp only [parseMt940, bind_eq_ok, refuseIf_eq_ok, pure_eq_ok] at h
  obtain ⟨body, hbody, _, -, _, -, s, hrun, _, -, rfl⟩ := h
  obtain ⟨lines, hlines, hstated⟩ := run_eq_ok hrun
  refine ⟨body, hbody, ?_⟩
  have hall : s.pushPending.lines = lines := hstated
  rwa [← hall] at hlines

/-! ### Whose narrative it is -/

/-- The descriptions given directly behind each `:61:`, before any other field. -/
def ownNarratives (fields : List Field) : List (Option (List Char)) :=
  (stretches fields).map fun p => given (p.2.takeWhile isNarrative)

/-- No `:86:` strays: the last one behind another field of a stretch, if there is one, gives the
description that those directly behind the `:61:` give. -/
def NoStrayNarrative (fields : List Field) : Prop :=
  ∀ p ∈ stretches fields, ∀ stray,
    ((p.2.dropWhile isNarrative).filter isNarrative).getLast? = some stray →
      narrative stray.value = given (p.2.takeWhile isNarrative)

/-- The `:86:` fields directly behind one balance field are others: inserted, removed or
changed. -/
def EditedAfterBalance (fields fields' : List Field) : Prop :=
  ∃ before balance run run' after, isBalanceTag balance.tag = true ∧
    (∀ f ∈ run, isNarrative f = true) ∧ (∀ f ∈ run', isNarrative f = true) ∧
    fields = before ++ balance :: (run ++ after) ∧ fields' = before ++ balance :: (run' ++ after)

theorem not_isLine_of_isNarrative (h : isNarrative f = true) : isLine f = false := by
  have htag : f.tag = "86".toList := by simpa [isNarrative] using h
  rw [isLine, htag]
  decide

theorem isBalanceTag_not (h : isBalanceTag f.tag = true) :
    isLine f = false ∧ isNarrative f = false := by
  have htag : f.tag ∈ ["60F".toList, "60M".toList, "62F".toList, "62M".toList] := by
    simpa [isBalanceTag] using h
  rw [isLine, isNarrative]
  constructor <;>
  · refine decide_eq_false fun heq => ?_
    rw [heq] at htag
    revert htag
    decide

theorem given_eq_own_iff (fields : List Field) :
    given fields = given (fields.takeWhile isNarrative) ↔ ∀ stray,
      ((fields.dropWhile isNarrative).filter isNarrative).getLast? = some stray →
        narrative stray.value = given (fields.takeWhile isNarrative) := by
  have hsplit : given fields =
      match ((fields.dropWhile isNarrative).filter isNarrative).getLast? with
      | some stray => narrative stray.value
      | none => given (fields.takeWhile isNarrative) := by
    conv_lhs => rw [given, ← takeWhile_append_dropWhile (p := isNarrative) (l := fields),
      filter_append, getLast?_append]
    cases ((fields.dropWhile isNarrative).filter isNarrative).getLast? with
    | some stray | none => rfl
  rw [hsplit]
  cases ((fields.dropWhile isNarrative).filter isNarrative).getLast? with
  | some stray | none => simp

theorem map_given_eq_iff (fields : List Field) :
    (stretches fields).map (fun p => given p.2) = ownNarratives fields ↔
      NoStrayNarrative fields := by
  rw [ownNarratives, map_inj_left, NoStrayNarrative]
  exact forall₂_congr fun p _ => given_eq_own_iff p.2

/-- The `:61:` fields, each with the `:86:` fields directly behind it. -/
def owned (fields : List Field) : List (Field × List Field) :=
  (stretches fields).map fun p => (p.1, p.2.takeWhile isNarrative)

theorem takeWhile_takeWhile_narrative (fields : List Field) :
    (fields.takeWhile fun g => !isLine g).takeWhile isNarrative =
      fields.takeWhile isNarrative := by
  induction fields with
  | nil => rfl
  | cons f fields ih =>
    by_cases hf : isNarrative f = true
    · rw [takeWhile_cons_of_pos (by simp [not_isLine_of_isNarrative hf]),
        takeWhile_cons_of_pos hf, takeWhile_cons_of_pos hf, ih]
    · rw [takeWhile_cons_of_neg hf]
      by_cases hline : isLine f = true
      · rw [takeWhile_cons_of_neg (by simp [hline])]
        rfl
      · rw [takeWhile_cons_of_pos (by simp [hline]), takeWhile_cons_of_neg hf]

theorem takeWhile_before {before after after' : List Field} {balance : Field}
    (h : isNarrative balance = false) :
    (before ++ balance :: after).takeWhile isNarrative =
      (before ++ balance :: after').takeWhile isNarrative := by
  induction before with
  | nil =>
    rw [nil_append, nil_append, takeWhile_cons_of_neg (by simp [h]),
      takeWhile_cons_of_neg (by simp [h])]
  | cons f before ih =>
    rw [cons_append, cons_append, takeWhile_cons, takeWhile_cons, ih]

theorem stretches_narratives {run after : List Field} (h : ∀ f ∈ run, isNarrative f = true) :
    stretches (run ++ after) = stretches after := by
  induction run with
  | nil => rfl
  | cons f run ih =>
    have hf := not_isLine_of_isNarrative (h f mem_cons_self)
    rw [cons_append, stretches, if_neg (by simp [hf]), ih fun g hg => h g (mem_cons_of_mem _ hg)]

theorem owned_of_edited (h : EditedAfterBalance fields fields') : owned fields = owned fields' := by
  obtain ⟨before, balance, run, run', after, hbalance, hrun, hrun', rfl, rfl⟩ := h
  obtain ⟨hline, hnarrative⟩ := isBalanceTag_not hbalance
  induction before with
  | nil =>
    have hskip : ∀ r : List Field, (∀ f ∈ r, isNarrative f = true) →
        stretches (balance :: (r ++ after)) = stretches after := by
      intro r hr
      rw [stretches, if_neg (by simp [hline]), stretches_narratives hr]
    rw [nil_append, nil_append, owned, owned, hskip run hrun, hskip run' hrun']
  | cons f before ih =>
    rw [owned, owned] at ih ⊢
    rw [cons_append, cons_append, stretches, stretches]
    split_ifs
    · rw [map_cons, map_cons, ih]
      simp only [takeWhile_takeWhile_narrative]
      rw [takeWhile_before hnarrative]
    · exact ih

/-- Transactions of the same `:61:` fields differ in their descriptions only. -/
theorem lines_eq_iff {ps ps' : List (Field × List Field)} {lines lines' : List ParsedStatementLine}
    (h : List.Forall₂ States ps lines) (h' : List.Forall₂ States ps' lines')
    (hsame : ps.map Prod.fst = ps'.map Prod.fst) :
    lines' = lines ↔ ps'.map (fun p => given p.2) = ps.map (fun p => given p.2) := by
  induction h generalizing ps' lines' with
  | nil =>
    obtain rfl := map_eq_nil_iff.mp hsame.symm
    cases h'
    simp
  | @cons p line ps lines hp _ ih =>
    cases h' with
    | nil => cases hsame
    | @cons p' line' ps' lines' hp' hrest' =>
      obtain ⟨hfst, hsame⟩ := List.cons.inj hsame
      obtain ⟨read, hread, rfl⟩ := hp
      obtain ⟨read', hread', rfl⟩ := hp'
      have hfst : p.1 = p'.1 := hfst
      rw [← hfst, hread] at hread'
      obtain rfl := Except.ok.inj hread'
      rw [List.cons.injEq, map_cons, map_cons, List.cons.injEq, ih hrest' hsame]
      simp

theorem map_fst_stretches (fields : List Field) :
    (stretches fields).map Prod.fst = fields.filter isLine := by
  induction fields with
  | nil => rfl
  | cons f fields ih =>
    rw [stretches]
    by_cases hf : isLine f = true
    · rw [if_pos hf, map_cons, filter_cons_of_pos hf, ih]
    · rw [if_neg hf, filter_cons_of_neg hf, ih]

/-- **A narrative belongs to its own transaction just when none strays.** Of every message that
is accepted: there is one transaction for each `:61:`, in order, as that field reads; each has
the description given directly behind it exactly when no `:86:` strays; and where none strays, an
`:86:` inserted, removed or changed behind a balance field leaves every transaction as it is
exactly when none strays in the other message either. -/
theorem narrative_belongs_iff {text body : List Char} {statement : ParsedStatement}
    (hbody : validateStatementText text = .ok body) (h : parseMt940 text = .ok statement) :
    List.Forall₂ (fun f line => ∃ read, readStatementLine f.value = .ok read ∧
        line = { read with description := line.description })
      ((fieldsOf body).filter isLine) statement.lines ∧
    (statement.lines.map ParsedStatementLine.description = ownNarratives (fieldsOf body) ↔
      NoStrayNarrative (fieldsOf body)) ∧
    (NoStrayNarrative (fieldsOf body) → ∀ text' body' statement',
      validateStatementText text' = .ok body' → parseMt940 text' = .ok statement' →
      EditedAfterBalance (fieldsOf body) (fieldsOf body') →
      (statement'.lines = statement.lines ↔ NoStrayNarrative (fieldsOf body'))) := by
  have hstated : ∀ {text body statement}, validateStatementText text = .ok body →
      parseMt940 text = .ok statement →
      Forall₂ States (stretches (fieldsOf body)) statement.lines := by
    intro text body statement hbody h
    obtain ⟨body', hbody', hlines⟩ := lines_of_parse h
    obtain rfl := Except.ok.inj (hbody.symm.trans hbody')
    exact hlines
  have hlines := hstated hbody h
  have hdescriptions : ∀ {ps lines}, Forall₂ States ps lines →
      lines.map ParsedStatementLine.description = ps.map fun p => given p.2 := by
    intro ps lines hall
    induction hall with
    | nil => rfl
    | cons hp _ ih =>
      obtain ⟨read, -, rfl⟩ := hp
      rw [map_cons, map_cons, ih]
  refine ⟨?_, ?_, ?_⟩
  · rw [← map_fst_stretches, forall₂_map_left_iff]
    refine hlines.imp fun p line hp => ?_
    obtain ⟨read, hread, rfl⟩ := hp
    exact ⟨read, hread, rfl⟩
  · rw [hdescriptions hlines, map_given_eq_iff]
  · intro hnone text' body' statement' hbody' h' hedited
    have howned := owned_of_edited hedited
    have hfst := congrArg (List.map Prod.fst) howned
    have hsnd := congrArg (List.map fun p => given p.2) howned
    simp only [owned, map_map] at hfst hsnd
    rw [lines_eq_iff hlines (hstated hbody' h') hfst, (map_given_eq_iff _).mpr hnone]
    have hown : ownNarratives (fieldsOf body) = ownNarratives (fieldsOf body') := hsnd
    rw [hown, map_given_eq_iff]

/-- A message with one transaction and its narrative, up to its closing balance. -/
def oneTransaction : String :=
  ":20:STMT\n:25:ACC1\n:60F:C260101EUR600,00\n:61:2601020102D100,00NTRFREF1\n:86:COFFEE\n" ++
    ":62F:C260131EUR500,00\n"

theorem narrative_belongs_oneTransaction :
    ∃ statement, parseMt940 oneTransaction.toList = .ok statement ∧
      statement.lines.map ParsedStatementLine.description = [some "COFFEE".toList] := by
  have hok : (parseMt940 oneTransaction.toList).isOk = true := by decide +kernel
  obtain ⟨statement, h⟩ := exists_of_isOk hok
  have hplain : oneTransaction.toList.any isUnsupportedControl = false := by decide +kernel
  simp only [any_eq_false, Bool.not_eq_true] at hplain
  have hbody : validateStatementText oneTransaction.toList = .ok oneTransaction.toList :=
    validateStatementText_of_plain (by decide +kernel) hplain
  obtain ⟨-, hiff, -⟩ := narrative_belongs_iff hbody h
  have hown : ownNarratives (fieldsOf oneTransaction.toList) = [some "COFFEE".toList] := by
    decide +kernel
  have hgiven : (stretches (fieldsOf oneTransaction.toList)).map (fun p => given p.2) =
      ownNarratives (fieldsOf oneTransaction.toList) := by decide +kernel
  exact ⟨statement, h, (hiff.mpr ((map_given_eq_iff _).mp hgiven)).trans hown⟩

theorem statement_narrative_taken_by_last_line :
    ∃ statement statement' : ParsedStatement,
      parseMt940 oneTransaction.toList = .ok statement ∧
      parseMt940 (oneTransaction ++ ":86:END OF STATEMENT").toList = .ok statement' ∧
      EditedAfterBalance (fieldsOf oneTransaction.toList)
        (fieldsOf (oneTransaction ++ ":86:END OF STATEMENT").toList) ∧
      statement.lines.map ParsedStatementLine.description = [some "COFFEE".toList] ∧
      statement'.lines.map ParsedStatementLine.description = [some "END OF STATEMENT".toList] := by
  have hfirst : (parseMt940 oneTransaction.toList).toOption.any (fun s =>
      s.lines.map ParsedStatementLine.description = [some "COFFEE".toList]) = true := by
    decide +kernel
  have hsecond : (parseMt940 (oneTransaction ++ ":86:END OF STATEMENT").toList).toOption.any
      (fun s => s.lines.map ParsedStatementLine.description =
        [some "END OF STATEMENT".toList]) = true := by
    decide +kernel
  obtain ⟨statement, h, hlines⟩ := exists_of_any hfirst
  obtain ⟨statement', h', hlines'⟩ := exists_of_any hsecond
  refine ⟨statement, statement', h, h', ?_, of_decide_eq_true hlines, of_decide_eq_true hlines'⟩
  refine ⟨(fieldsOf oneTransaction.toList).dropLast,
    ⟨"62F".toList, "C260131EUR500,00".toList⟩, [], [⟨"86".toList, "END OF STATEMENT".toList⟩], [],
    by decide, by decide, by decide, ?_, ?_⟩ <;> decide +kernel

end Mt940

end OpenBooks
