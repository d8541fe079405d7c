import OpenBooks.Banking.StatementText

/-!
# CSV rows

`parseCsvRows` reads statement text character by character: quoted fields with doubled quotes
inside, commas between the cells of a row, and a line feed, a carriage return or both between rows.
A row without a cell that has any text is dropped.

Writing goes the other way and is not a function: a cell may be quoted or, where it holds nothing
that needs quoting, bare (`CellText`), and each row may end in its own way (`RowsText`). Whatever
was written, the same rows are read (`parseCsvRows_of_rowsText`).
-/

namespace OpenBooks

open Checked List

/-! ### The scanner -/

/-- What the scanner holds: the rows read, the row and the field it is in. -/
structure CsvScan where
  rows : List (List (List Char))
  row : List (List Char)
  field : List Char
  inQuotes : Bool
  sawAny : Bool

def hasText (row : List (List Char)) : Bool := row.any fun f => trim f ≠ []

def CsvScan.add (s : CsvScan) (c : Char) : CsvScan :=
  { s with field := s.field ++ [c], sawAny := true }

def CsvScan.endCell (s : CsvScan) : CsvScan :=
  { s with row := s.row ++ [s.field], field := [], sawAny := true }

/-- The field is the last cell, and the row is kept if it has any text. -/
def CsvScan.endRow (s : CsvScan) : CsvScan :=
  { s with
    rows := if hasText (s.row ++ [s.field]) then s.rows ++ [s.row ++ [s.field]] else s.rows
    row := []
    field := [] }

/-- The scan of the text that is left. -/
def scanCsv : List Char → CsvScan → CsvScan
  | [], s => s
  | c :: rest, s =>
    if s.inQuotes then
      if c = '"' then
        match rest with
        | '"' :: rest' => scanCsv rest' { s with field := s.field ++ ['"'] }
        | rest => scanCsv rest { s with inQuotes := false }
      else scanCsv rest { s with field := s.field ++ [c] }
    else if c = '"' then scanCsv rest { s with inQuotes := true, sawAny := true }
    else if c = ',' then scanCsv rest s.endCell
    else if c = '\n' then scanCsv rest s.endRow
    else if c = '\r' then
      match rest with
      | '\n' :: rest' => scanCsv rest' s.endRow
      | rest => scanCsv rest s.endRow
    else scanCsv rest (s.add c)

def CsvScan.start : CsvScan := ⟨[], [], [], false, false⟩

/-- RFC-4180 tokenizer: quoted fields, doubled-quote escapes, commas and line ends in quotes. -/
def parseCsvRows (source : List Char) : Except BankingError (List (List (List Char))) := do
  let text ← validateStatementText source
  let s := scanCsv text .start
  refuseIf s.inQuotes
    (⟨"CSV contains an unterminated quoted field. Export the complete statement again or " ++
      "correct the closing quote before importing."⟩ : BankingError)
  refuseIf (!s.sawAny || s.endRow.rows.isEmpty) (⟨"CSV is empty"⟩ : BankingError)
  return s.endRow.rows

example : parseCsvRows "a,\"b\"\"\n\"\r\n,\n c".toList =
    .ok [["a".toList, "b\"\n".toList], [[' ', 'c']]] := by decide +kernel

/-! ### Writing rows -/

/-- A cell between its quotes, with the quotes inside it doubled. -/
def doubled (cell : List Char) : List Char :=
  cell.flatMap fun c => if c = '"' then ['"', '"'] else [c]

/-- No comma, quote or line end. -/
def isBareChar (c : Char) : Bool := c ≠ ',' && c ≠ '"' && c ≠ '\n' && c ≠ '\r'

inductive CellText : List Char → List Char → Prop
  | quoted (cell : List Char) : CellText cell ('"' :: doubled cell ++ ['"'])
  | bare (cell : List Char) (h : ∀ c ∈ cell, isBareChar c = true) : CellText cell cell

/-- The texts of a row: its cells' texts, a comma between them. -/
inductive RowText : List (List Char) → List Char → Prop
  | single {cell text : List Char} (h : CellText cell text) : RowText [cell] text
  | cons {cell text : List Char} {row : List (List Char)} {more : List Char}
      (h : CellText cell text) (hmore : RowText row more) :
      RowText (cell :: row) (text ++ ',' :: more)

/-- A line feed, a carriage return, or both. -/
inductive LineEnd : List Char → Prop
  | lf : LineEnd ['\n']
  | cr : LineEnd ['\r']
  | crlf : LineEnd ['\r', '\n']

/-- The texts of a file: its rows' texts, a line end between them and perhaps one at the end. -/
inductive RowsText : List (List (List Char)) → List Char → Prop
  | last {row : List (List Char)} {text : List Char} (h : RowText row text) : RowsText [row] text
  | lastEnded {row : List (List Char)} {text lineEnd : List Char} (h : RowText row text)
      (hend : LineEnd lineEnd) : RowsText [row] (text ++ lineEnd)
  | cons {row : List (List Char)} {text lineEnd : List Char} {rows : List (List (List Char))}
      {more : List Char} (h : RowText row text) (hend : LineEnd lineEnd)
      (hmore : RowsText rows more) : RowsText (row :: rows) (text ++ lineEnd ++ more)

/-! ### What scanning does with each piece -/

variable {cell text rest more lineEnd : List Char} {row : List (List Char)}
  {rows : List (List (List Char))} {s : CsvScan}

/-- The inside of a quoted cell up to its closing quote. -/
theorem scanCsv_doubled (cell : List Char) (hrest : rest.head? ≠ some '"')
    (hquotes : s.inQuotes = true) :
    scanCsv (doubled cell ++ '"' :: rest) s =
      scanCsv rest { s with field := s.field ++ cell, inQuotes := false } := by
  induction cell generalizing s with
  | nil =>
    have hclose : scanCsv ('"' :: rest) s = scanCsv rest { s with inQuotes := false } := by
      rw [scanCsv.eq_def]
      simp only [hquotes, if_true]
      split
      · exact absurd rfl hrest
      · rfl
    simpa [doubled] using hclose
  | cons c cell ih =>
    have happend : s.field ++ c :: cell = s.field ++ [c] ++ cell := by simp
    by_cases hc : c = '"'
    · subst hc
      have hstep : scanCsv ('"' :: '"' :: (doubled cell ++ '"' :: rest)) s =
          scanCsv (doubled cell ++ '"' :: rest) { s with field := s.field ++ ['"'] } := by
        rw [scanCsv.eq_def]
        simp only [hquotes, if_true]
      rw [show doubled ('"' :: cell) ++ '"' :: rest = '"' :: '"' :: (doubled cell ++ '"' :: rest)
        from rfl, hstep, ih (s := { s with field := s.field ++ ['"'] }) hquotes, happend]
    · have hstep : scanCsv (c :: (doubled cell ++ '"' :: rest)) s =
          scanCsv (doubled cell ++ '"' :: rest) { s with field := s.field ++ [c] } := by
        rw [scanCsv.eq_def]
        simp only [hquotes, if_true, if_neg hc]
      rw [show doubled (c :: cell) ++ '"' :: rest = c :: (doubled cell ++ '"' :: rest) by
        simp [doubled, hc], hstep, ih (s := { s with field := s.field ++ [c] }) hquotes, happend]

theorem scanCsv_bare (hcell : ∀ c ∈ cell, isBareChar c = true) (hquotes : s.inQuotes = false) :
    scanCsv (cell ++ rest) s =
      scanCsv rest { s with field := s.field ++ cell, sawAny := s.sawAny || cell ≠ [] } := by
  induction cell generalizing s with
  | nil => simp
  | cons c cell ih =>
    have hc := hcell c mem_cons_self
    simp only [isBareChar, Bool.and_eq_true, decide_eq_true_eq, ne_eq] at hc
    obtain ⟨⟨⟨hcomma, hquote⟩, hlf⟩, hcr⟩ := hc
    have hstep : scanCsv (c :: (cell ++ rest)) s = scanCsv (cell ++ rest) (s.add c) := by
      rw [scanCsv.eq_def]
      simp only [hquotes, Bool.false_eq_true, if_false, if_neg hquote, if_neg hcomma, if_neg hlf,
        if_neg hcr]
    rw [cons_append, hstep, ih (s := s.add c) (fun d hd => hcell d (mem_cons_of_mem _ hd)) hquotes]
    simp [CsvScan.add]

theorem scanCsv_cell (h : CellText cell text) (hrest : rest.head? ≠ some '"')
    (hquotes : s.inQuotes = false) :
    scanCsv (text ++ rest) s =
      scanCsv rest { s with field := s.field ++ cell, sawAny := s.sawAny || text ≠ [] } := by
  cases h with
  | quoted =>
    have hopen : scanCsv ('"' :: (doubled cell ++ '"' :: rest)) s =
        scanCsv (doubled cell ++ '"' :: rest) { s with inQuotes := true, sawAny := true } := by
      rw [scanCsv.eq_def]
      simp only [hquotes, Bool.false_eq_true, if_false, if_true]
    rw [show '"' :: doubled cell ++ ['"'] ++ rest = '"' :: (doubled cell ++ '"' :: rest) by simp,
      hopen, scanCsv_doubled cell hrest rfl]
    simp [hquotes]
  | bare hcell => exact scanCsv_bare hcell hquotes

theorem scanCsv_row (h : RowText row text) (hrest : rest.head? ≠ some '"')
    (hquotes : s.inQuotes = false) (hfield : s.field = []) :
    ∃ init last, row = init ++ [last] ∧ scanCsv (text ++ rest) s =
      scanCsv rest { s with
        row := s.row ++ init
        field := last
        sawAny := s.sawAny || text ≠ [] } := by
  induction h generalizing s with
  | single h =>
    refine ⟨[], _, rfl, ?_⟩
    rw [scanCsv_cell h hrest hquotes, hfield]
    simp
  | @cons cell text row more h hmore ih =>
    obtain ⟨init, last, rfl, hscan⟩ := ih
      (s := CsvScan.endCell { s with field := cell, sawAny := s.sawAny || text ≠ [] }) hquotes rfl
    refine ⟨cell :: init, last, rfl, ?_⟩
    have hcomma : scanCsv (',' :: (more ++ rest))
        { s with field := cell, sawAny := s.sawAny || text ≠ [] } =
          scanCsv (more ++ rest)
            (CsvScan.endCell { s with field := cell, sawAny := s.sawAny || text ≠ [] }) := by
      rw [scanCsv.eq_def]
      simp only [hquotes, Bool.false_eq_true, if_false, if_true, Char.reduceEq]
    rw [append_assoc, cons_append, scanCsv_cell h (by simp) hquotes, hfield,
      nil_append, hcomma, hscan]
    simp [CsvScan.endCell]

theorem scanCsv_lineEnd (h : LineEnd lineEnd) (hrest : rest.head? ≠ some '\n')
    (hquotes : s.inQuotes = false) : scanCsv (lineEnd ++ rest) s = scanCsv rest s.endRow := by
  cases h
  all_goals
    simp only [cons_append, nil_append]
    rw [scanCsv.eq_def]
    simp only [hquotes, Bool.false_eq_true, if_false, if_true, Char.reduceEq]
  -- a lone carriage return, and no line feed behind it
  split
  · exact absurd rfl hrest
  · rfl

/-! ### Whole files -/

theorem CellText.head?_ne (h : CellText cell text) : text.head? ≠ some '\n' := by
  cases h with
  | quoted => simp
  | bare hcell =>
    cases cell with
    | nil => simp
    | cons c cell =>
      rintro hc
      obtain rfl := Option.some.inj hc
      exact absurd (hcell _ mem_cons_self) (by decide)

theorem RowText.head?_ne (h : RowText row text) : text.head? ≠ some '\n' := by
  cases h with
  | single h => exact h.head?_ne
  | @cons cell text row more h hmore =>
    cases text with
    | nil => simp
    | cons c text => exact h.head?_ne

theorem RowText.ne_nil (h : RowText row text) (htext : hasText row = true) : text ≠ [] := by
  cases h with
  | single h =>
    cases h with
    | quoted => simp
    | bare =>
      rintro rfl
      exact absurd htext (by decide)
  | cons => simp

theorem RowsText.head?_ne (h : RowsText rows text) (htext : ∀ row ∈ rows, hasText row = true) :
    text.head? ≠ some '\n' := by
  have happend : ∀ {row text more}, RowText row text → hasText row = true →
      (text ++ more : List Char).head? ≠ some '\n' := by
    intro row text more hrow hhas
    rw [head?_append_of_ne_nil _ (hrow.ne_nil hhas)]
    exact hrow.head?_ne
  cases h with
  | last hrow => exact hrow.head?_ne
  | lastEnded hrow => exact happend hrow (htext _ mem_cons_self)
  | cons hrow =>
    rw [append_assoc]
    exact happend hrow (htext _ mem_cons_self)

theorem scanCsv_rows (h : RowsText rows text) (htext : ∀ row ∈ rows, hasText row = true)
    (hquotes : s.inQuotes = false) (hrow : s.row = []) (hfield : s.field = []) :
    (scanCsv text s).inQuotes = false ∧ (scanCsv text s).sawAny = true ∧
      (scanCsv text s).endRow.rows = s.rows ++ rows := by
  have hlineEnd : ∀ {e : List Char}, LineEnd e → e.head? ≠ some '"' := by
    rintro e (_ | _ | _) <;> decide
  induction h generalizing s with
  | @last row text h =>
    have hhas := htext row mem_cons_self
    obtain ⟨init, last, rfl, hscan⟩ := scanCsv_row h (show ([] : List Char).head? ≠ some '"' by decide) hquotes hfield
    rw [append_nil] at hscan
    rw [hscan, scanCsv]
    simp [CsvScan.endRow, hquotes, hrow, hhas, h.ne_nil hhas]
  | @lastEnded row text lineEnd h hend =>
    have hhas := htext row mem_cons_self
    obtain ⟨init, last, rfl, hscan⟩ := scanCsv_row h (hlineEnd hend) hquotes hfield
    have hnone := scanCsv_lineEnd (s := { s with
      row := s.row ++ init
      field := last
      sawAny := s.sawAny || text ≠ [] }) hend (show ([] : List Char).head? ≠ some '\n' by decide)
      hquotes
    have hblank : hasText [[]] = false := by decide
    rw [append_nil] at hnone
    rw [hscan, hnone, scanCsv]
    simp [CsvScan.endRow, hquotes, hrow, hhas, h.ne_nil hhas, hblank]
  | @cons row text lineEnd rows more h hend hmore ih =>
    have hhas := htext row mem_cons_self
    have hrest := fun r hr => htext r (mem_cons_of_mem _ hr)
    have hquote : (lineEnd ++ more).head? ≠ some '"' := by
      rw [head?_append_of_ne_nil _ (by cases hend <;> simp)]
      exact hlineEnd hend
    obtain ⟨init, last, rfl, hscan⟩ := scanCsv_row h hquote hquotes hfield
    have hnext := scanCsv_lineEnd (s := { s with
      row := s.row ++ init
      field := last
      sawAny := s.sawAny || text ≠ [] }) hend (hmore.head?_ne hrest) hquotes
    obtain ⟨hquotes', hsaw, hrows⟩ := ih (s := CsvScan.endRow { s with
      row := s.row ++ init
      field := last
      sawAny := s.sawAny || text ≠ [] }) hrest hquotes rfl rfl
    rw [append_assoc, hscan, hnext]
    refine ⟨hquotes', hsaw, ?_⟩
    rw [hrows]
    simp [CsvScan.endRow, hrow, hhas]

/-- What holds of every character of the cells, and of the ones writing adds, holds of the
text. -/
theorem RowsText.forall_mem (h : RowsText rows text) {p : Char → Prop} (hquote : p '"')
    (hcomma : p ',') (hlf : p '\n') (hcr : p '\r')
    (hcells : ∀ row ∈ rows, ∀ cell ∈ row, ∀ c ∈ cell, p c) : ∀ c ∈ text, p c := by
  have hcell : ∀ {cell text}, CellText cell text → (∀ c ∈ cell, p c) → ∀ c ∈ text, p c := by
    rintro cell text (_ | _) hp c hc
    · simp only [doubled, mem_cons, mem_append, mem_flatMap, not_mem_nil,
        or_false, cons_append] at hc
      rcases hc with rfl | ⟨d, hd, hc⟩ | rfl
      · exact hquote
      · split_ifs at hc with heq
        · simp only [mem_cons, not_mem_nil, or_false, or_self] at hc
          exact hc ▸ hquote
        · exact mem_singleton.mp hc ▸ hp d hd
      · exact hquote
    · exact hp c hc
  have hrow : ∀ {row text}, RowText row text → (∀ cell ∈ row, ∀ c ∈ cell, p c) →
      ∀ c ∈ text, p c := by
    intro row text hrow hp
    induction hrow with
    | single h => exact hcell h (hp _ mem_cons_self)
    | cons h _ ih =>
      intro c hc
      rcases mem_append.mp hc with hc | hc
      · exact hcell h (hp _ mem_cons_self) c hc
      · rcases mem_cons.mp hc with rfl | hc
        · exact hcomma
        · exact ih (fun cell hmem => hp cell (mem_cons_of_mem _ hmem)) c hc
  have hend : ∀ {e}, LineEnd e → ∀ c ∈ e, p c := by
    rintro e (_ | _ | _) c hc <;> simp only [mem_cons, not_mem_nil, or_false] at hc
    · exact hc ▸ hlf
    · exact hc ▸ hcr
    · rcases hc with rfl | rfl
      · exact hcr
      · exact hlf
  induction h with
  | last h => exact hrow h (hcells _ mem_cons_self)
  | lastEnded h he =>
    intro c hc
    rcases mem_append.mp hc with hc | hc
    · exact hrow h (hcells _ mem_cons_self) c hc
    · exact hend he c hc
  | cons h he _ ih =>
    intro c hc
    rcases mem_append.mp hc with hc | hc
    · rcases mem_append.mp hc with hc | hc
      · exact hrow h (hcells _ mem_cons_self) c hc
      · exact hend he c hc
    · exact ih (fun r hr => hcells r (mem_cons_of_mem _ hr)) c hc

/-- **Tokenizing undoes quoting.** Rows that each have some text are read back exactly, whichever
of their cells were quoted and however each of their lines ends. -/
theorem parseCsvRows_of_rowsText (h : RowsText rows text)
    (htext : ∀ row ∈ rows, hasText row = true)
    (hadmitted : ∀ row ∈ rows, ∀ cell ∈ row, ∀ c ∈ cell, isUnsupportedControl c = false)
    (hbom : text.head? ≠ some BOM) : parseCsvRows text = .ok rows := by
  have hplain := h.forall_mem (p := fun c => isUnsupportedControl c = false) (by decide)
    (by decide) (by decide) (by decide) hadmitted
  obtain ⟨hquotes, hsaw, hrows⟩ := scanCsv_rows (s := .start) h htext rfl rfl rfl
  have hne : rows ≠ [] := by cases h <;> simp
  have hsome : ¬(!true || (CsvScan.start.rows ++ rows).isEmpty) = true := by
    simpa [CsvScan.start] using hne
  rw [parseCsvRows, validateStatementText_of_plain hbom hplain, ok_bind]
  dsimp only
  rw [hquotes, hsaw, hrows, refuseIf, if_neg Bool.false_ne_true, refuseIf, if_neg hsome]
  rfl

theorem parseCsvRows_of_rowsText_quotedLine :
    parseCsvRows "Date,\"Paid \"\"in\"\"\r\nfull\",\r\n\"\",9".toList =
      .ok [["Date".toList, "Paid \"in\"\r\nfull".toList, []], [[], ['9']]] := by
  have hfirst : RowText ["Date".toList, "Paid \"in\"\r\nfull".toList, []]
      ("Date".toList ++ ',' :: ('"' :: doubled "Paid \"in\"\r\nfull".toList ++ ['"'] ++
        ',' :: [])) :=
    .cons (.bare _ (all_eq_true.mp (by decide)))
      (.cons (.quoted _) (.single (.bare _ (all_eq_true.mp (by decide)))))
  have hsecond : RowText [[], ['9']] ('"' :: doubled [] ++ ['"'] ++ ',' :: ['9']) :=
    .cons (.quoted _) (.single (.bare _ (all_eq_true.mp (by decide))))
  have hadmitted : ([["Date".toList, "Paid \"in\"\r\nfull".toList, []], [[], ['9']]].all fun row =>
      row.all fun cell => cell.all fun c => !isUnsupportedControl c) = true := by decide
  simp only [all_eq_true, Bool.not_eq_true'] at hadmitted
  exact parseCsvRows_of_rowsText (.cons hfirst .crlf (.last hsecond)) (by decide) hadmitted
    (by decide)

end OpenBooks
