import OpenBooks.Lib.ListSum
import OpenBooks.Payments.RailText

/-!
# The NACHA credit file

`buildNachaFile` writes an ACH credit file: a file header, a batch header, one
entry detail for each payment, a batch and a file control record, and fillers up to a
whole block of ten records.

**A file that is written can be read back** (`buildNachaFile_decodes`): every
record has 94 printable characters, the entry details say at their offsets what each
payment said, in order, and the control records carry the count, the hash and the total.

Some fields are cut to their width, some refuse what does not fit, and the trace number
does neither: it is as wide as its index needs. The last check of a record, on its total
width, is what bounds that index (`width_trace`), since every other field of an
entry has its width by construction.
-/

namespace OpenBooks

open Checked FixedWidth List ListSum

/-! ### Settings and entries -/

inductive EntryClassCode where
  | PPD
  | CCD
  deriving DecidableEq

def EntryClassCode.text : EntryClassCode → List Char
  | .PPD => "PPD".toList
  | .CCD => "CCD".toList

structure NachaSettings where
  odfiRouting : List Char
  immediateDestination : List Char
  immediateOrigin : List Char
  destinationName : List Char
  originName : List Char
  companyName : List Char
  companyId : List Char
  entryClassCode : Option EntryClassCode := none
  entryDescription : Option (List Char) := none

/-- 22 is a credit to a checking account, 32 to a savings account. -/
inductive TransactionCode where
  | checking
  | savings
  deriving DecidableEq

def TransactionCode.text : TransactionCode → List Char
  | .checking => "22".toList
  | .savings => "32".toList

structure NachaEntry where
  transactionCode : TransactionCode
  routingNumber : List Char
  accountNumber : List Char
  amountCents : ℤ
  individualId : List Char
  individualName : List Char

/-- The weighted check digit of the first eight digits of a routing number. -/
def nachaCheckDigit (rt8 : List Char) : List Char :=
  let sum := ((rt8.zip [3, 7, 1, 3, 7, 1, 3, 7]).map fun p => (p.1.toNat - '0'.toNat) * p.2).sum
  Nat.toDigits 10 ((10 - sum % 10) % 10)

def nachaRequired (s : NachaSettings) : List (String × List Char) :=
  [("odfiRouting", s.odfiRouting), ("immediateDestination", s.immediateDestination),
    ("immediateOrigin", s.immediateOrigin), ("destinationName", s.destinationName),
    ("originName", s.originName), ("companyName", s.companyName), ("companyId", s.companyId)]

/-- `/^[\x20-\x7e]{1,10}$/` -/
def isImmediateName (text : List Char) : Bool :=
  1 ≤ text.length && text.length ≤ 10 && text.all isPrintable

/-- `/^[A-Za-z0-9]{1,10}$/` -/
def isCompanyId (text : List Char) : Bool :=
  1 ≤ text.length && text.length ≤ 10 && text.all fun c => c.isAlpha || c.isDigit

/-- The settings, or the names of those that are missing or malformed. -/
def validateNachaSettings (s : NachaSettings) : Except (List String) NachaSettings := do
  let missing := ((nachaRequired s).filter fun p => isUnset p.2).map Prod.fst
  refuseIf (missing ≠ []) missing
  refuseIf (!isImmediateName s.immediateDestination)
    ["immediateDestination (1-10 printable ASCII characters)"]
  refuseIf (!isImmediateName s.immediateOrigin)
    ["immediateOrigin (1-10 printable ASCII characters)"]
  refuseIf (!isDigits 9 9 s.odfiRouting) ["odfiRouting (9 digits)"]
  refuseIf (nachaCheckDigit (s.odfiRouting.take 8) ≠ s.odfiRouting.drop 8)
    ["odfiRouting (check digit mismatch)"]
  refuseIf (!isCompanyId s.companyId) ["companyId (1-10 alphanumeric characters)"]
  return s

/-! ### Fields -/

/-- Text cut and padded on the right to its field. -/
def nachaField (v : List Char) (len : ℕ) : List Char := padEnd len ' ' (cut len v)

/-- Text cut and padded on the left to its field. -/
def nachaFieldRight (v : List Char) (len : ℕ) (pad : Char) : List Char :=
  FixedWidth.padStart len pad (cut len v)

/-- A numeric field, refused where it does not fit. -/
def nachaNumeric (v : List Char) (len : ℕ) (field : String) : Except RailError (List Char) := do
  refuseIf (v = [] ∨ ¬v.all Char.isDigit) (.payment ("NACHA " ++ field ++ " must be numeric"))
  refuseIf (len < v.length) (.payment ("NACHA " ++ field ++ " of " ++ toString v.length ++
    " digits does not fit its " ++ toString len ++ "-digit field — refusing to truncate"))
  return FixedWidth.padStart len '0' v

/-- The day of a batch, as `YYMMDD`. -/
def yymmdd (iso : List Char) (what : String) : Except RailError (List Char) := do
  let parsed ← (parseIsoDate iso).mapError fun _ => .payment
    ("NACHA " ++ what ++ " " ++ quoted iso ++ " is not a valid YYYY-MM-DD civil day")
  return zeroPadded 2 (parsed.year % 100) ++ zeroPadded 2 parsed.month ++ zeroPadded 2 parsed.day

/-- The day and the minute of a creation stamp, cut out of its text. -/
def stampParts (stamp : List Char) : Except RailError (List Char × List Char) := do
  let refusal : RailError := .payment ("NACHA file creation stamp " ++ quoted stamp ++
    " is not a valid YYYY-MM-DDTHH:MM:SS zoned timestamp")
  refuseIf (!matchesShape "dddd-dd-ddTdd:dd:dd".toList stamp) refusal
  let _ ← (parseIsoDate (stamp.take 10)).mapError fun _ => refusal
  return (readAt 2 2 stamp ++ readAt 5 2 stamp ++ readAt 8 2 stamp,
    readAt 11 2 stamp ++ readAt 14 2 stamp)

/-! ### Records -/

structure NachaRun where
  settings : NachaSettings
  effectiveDate : List Char
  creationDateTime : List Char
  fileIdModifier : Option (List Char) := none
  entries : List NachaEntry

section Records

variable (nfkd : Char → List Char)

def nachaOriginator (value : List Char) (field : String) : Except RailError (List Char) :=
  asciiRailText nfkd value "NACHA" field ORIGINATOR_REMEDY

def nachaFileHeader (s : NachaSettings) (creation : List Char × List Char) (modifier : List Char) :
    Except RailError (List Char) := do
  let destinationName ← nachaOriginator nfkd s.destinationName "immediate destination name"
  let originName ← nachaOriginator nfkd s.originName "immediate origin name"
  return [['1'], "01".toList, nachaFieldRight s.immediateDestination 10 ' ',
    nachaFieldRight s.immediateOrigin 10 ' ', creation.1, creation.2, modifier, "094".toList,
    "10".toList, ['1'], nachaField destinationName 23, nachaField originName 23,
    nachaField [] 8].flatten

def nachaBatchHeader (s : NachaSettings) (effectiveDate : List Char) :
    Except RailError (List Char) := do
  let companyName ← nachaOriginator nfkd s.companyName "company name"
  let description ← nachaOriginator nfkd (s.entryDescription.getD "PAYMENT".toList)
    "company entry description"
  let effective ← yymmdd effectiveDate "effective date"
  return [['5'], "220".toList, nachaField companyName 16, nachaField [] 20,
    nachaField s.companyId 10, (s.entryClassCode.getD .CCD).text, nachaField description 10,
    nachaField [] 6, effective, nachaField [] 3, ['1'], s.odfiRouting.take 8,
    nachaFieldRight "0000001".toList 7 '0'].flatten

/-- The record of an entry, with its trace number. -/
def nachaEntryDetail (odfi8 : List Char) (e : NachaEntry) (i : ℕ) :
    Except RailError (List Char) := do
  refuseIf (e.amountCents ≤ 0) (RailError.payment "payment amounts must be positive")
  refuseIf (trim e.accountNumber = [])
    (RailError.payment "payment account number must not be blank")
  refuseIf (17 < width e.accountNumber)
    (RailError.payment "payment account number must be 17 characters or fewer")
  refuseIf (!isDigits 8 9 e.routingNumber)
    (RailError.payment "payment routing number must contain eight or nine digits")
  let rt8 := e.routingNumber.take 8
  let expectedCheckDigit := nachaCheckDigit rt8
  refuseIf (e.routingNumber.length = 9 ∧ e.routingNumber.drop 8 ≠ expectedCheckDigit)
    (RailError.payment "payment routing number has an invalid ABA check digit")
  let checkDigit :=
    if e.routingNumber.length = 9 then e.routingNumber.drop 8 else expectedCheckDigit
  let trace := odfi8 ++ zeroPadded 7 (i + 1)
  let amount ← nachaNumeric (integerText e.amountCents) 10 "payment amount"
  let name ← asciiRailText nfkd e.individualName "NACHA" "receiver name" PAYEE_NAME_REMEDY
  return [['6'], e.transactionCode.text, rt8, checkDigit, nachaField e.accountNumber 17, amount,
    nachaField e.individualId 15, nachaField name 22, nachaField [] 2, ['0'], trace].flatten

/-- What the loop over the entries has gathered. -/
structure EntryTotals where
  rows : List (List Char) := []
  entryHash : ℕ := 0
  totalCredit : ℤ := 0

/-- One more entry: its record, its part of the hash and its amount. -/
def addEntry (odfi8 : List Char) (acc : EntryTotals) (p : NachaEntry × ℕ) :
    Except RailError EntryTotals := do
  let row ← nachaEntryDetail nfkd odfi8 p.1 p.2
  return { rows := acc.rows ++ [row]
           entryHash := acc.entryHash + Nat.ofDigitChars 10 (p.1.routingNumber.take 8) 0
           totalCredit := acc.totalCredit + p.1.amountCents }

def nachaBatchControl (s : NachaSettings) (count : ℕ) (hashMod : List Char) (totalCredit : ℤ) :
    Except RailError (List Char) := do
  let entryCount ← nachaNumeric (Nat.toDigits 10 count) 6 "entry count"
  let debit ← nachaNumeric ['0'] 12 "debit total"
  let credit ← nachaNumeric (integerText totalCredit) 12 "credit total"
  return [['8'], "220".toList, entryCount, hashMod, debit, credit, nachaField s.companyId 10,
    nachaField [] 19, nachaField [] 6, s.odfiRouting.take 8,
    nachaFieldRight "0000001".toList 7 '0'].flatten

def nachaFileControl (blockCount count : ℕ) (hashMod : List Char) (totalCredit : ℤ) :
    Except RailError (List Char) := do
  let batches ← nachaNumeric ['1'] 6 "batch count"
  let blocks ← nachaNumeric (Nat.toDigits 10 blockCount) 6 "block count"
  let entryCount ← nachaNumeric (Nat.toDigits 10 count) 8 "entry count"
  let debit ← nachaNumeric ['0'] 12 "debit total"
  let credit ← nachaNumeric (integerText totalCredit) 12 "credit total"
  return [['9'], batches, blocks, entryCount, hashMod, debit, credit, nachaField [] 39].flatten

/-- The records filled up with nines to whole blocks of ten. -/
def fillBlock (rows : List (List Char)) : List (List Char) :=
  rows ++ List.replicate ((10 - rows.length % 10) % 10) (List.replicate 94 '9')

/-- The last check of every record: its width, and that it is printable. -/
def checkRecord (p : List Char × ℕ) : Except RailError Unit := do
  refuseIf (width p.1 ≠ 94)
    (.payment ("NACHA record is " ++ toString (width p.1) ++ " chars, not 94"))
  refuseIf (¬Printable p.1) (.payment ("NACHA record " ++ toString (p.2 + 1) ++
    " contains a character with no ASCII form, which would shift every field after it — " ++
    "edit the account number, reference or originator settings on that record to ASCII"))

/-- The records of a file. -/
def nachaRecords (opts : NachaRun) : Except RailError (List (List Char)) := do
  let s ← (validateNachaSettings opts.settings).mapError fun missing => RailError.payment
    ("NACHA originator settings are invalid: " ++ ", ".intercalate missing)
  refuseIf (opts.entries = []) (RailError.payment "run has no payments to export")
  let modifier := opts.fileIdModifier.getD []
  refuseIf (¬(modifier.length = 1 ∧ modifier.all fun c => c.isUpper || c.isDigit))
    (RailError.payment
      "NACHA file requires an allocated file ID modifier (single character A–Z, 0–9)")
  let odfi8 := s.odfiRouting.take 8
  let creation ← stampParts opts.creationDateTime
  let header ← nachaFileHeader nfkd s creation modifier
  let batchHeader ← nachaBatchHeader nfkd s opts.effectiveDate
  let details ← opts.entries.zipIdx.foldlM (addEntry nfkd odfi8) {}
  let hashMod ← nachaNumeric (Nat.toDigits 10 (details.entryHash % 10000000000)) 10 "entry hash"
  let batch ← nachaBatchControl s opts.entries.length hashMod details.totalCredit
  let rows := [header, batchHeader] ++ details.rows ++ [batch]
  let blockCount := (rows.length + 1 + 9) / 10
  let control ← nachaFileControl blockCount opts.entries.length hashMod details.totalCredit
  let filled := fillBlock (rows ++ [control])
  let _ ← filled.zipIdx.mapM checkRecord
  return filled

/-- The file: its records, each ended by a line feed. -/
def buildNachaFile (opts : NachaRun) : Except RailError (List Char) :=
  fileText ['\n'] <$> nachaRecords nfkd opts

end Records

/-! ### What the fields hold -/

theorem width_nachaField (v : List Char) (len : ℕ) : width (nachaField v len) = len :=
  width_padEnd rfl (width_cut_le len v)

theorem nachaNumeric_toDigits {n len : ℕ} {field : String} {t : List Char}
    (h : nachaNumeric (Nat.toDigits 10 n) len field = .ok t) :
    t = zeroPadded len n ∧ width t = len := by
  simp only [nachaNumeric, bind_eq_ok, pure_eq_ok, refuseIf_eq_ok] at h
  obtain ⟨_, _, _, hfit, rfl⟩ := h
  refine ⟨rfl, ?_⟩
  exact (width_zeroPadded len n).trans (length_zeroPadded (not_lt.mp hfit))

theorem width_nachaCheckDigit (rt8 : List Char) : width (nachaCheckDigit rt8) = 1 := by
  rw [nachaCheckDigit, width_of_digits (isDigit_toDigits _),
    Nat.toDigits_of_lt_base (Nat.mod_lt _ (by decide)), length_singleton]

theorem width_transactionCode (code : TransactionCode) : width code.text = 2 := by
  cases code <;> decide

/-- What the writer has checked of an entry. -/
structure NachaEntry.Accepted (e : NachaEntry) : Prop where
  amount_pos : 0 < e.amountCents
  account_fits : width e.accountNumber ≤ 17
  routing_digits : ∀ c ∈ e.routingNumber.take 8, c.isDigit = true
  routing_length : (e.routingNumber.take 8).length = 8
  /-- A ninth digit is the check digit of the first eight. -/
  routing_check : e.routingNumber = e.routingNumber.take 8 ∨
    e.routingNumber = e.routingNumber.take 8 ++ nachaCheckDigit (e.routingNumber.take 8)

/-- The fields of an accepted entry, the trace number in its two parts. -/
def entryFields (odfi8 : List Char) (e : NachaEntry) (i : ℕ) (name : List Char) :
    List (List Char) :=
  let rt8 := e.routingNumber.take 8
  [['6'], e.transactionCode.text, rt8, nachaCheckDigit rt8, nachaField e.accountNumber 17,
    zeroPadded 10 e.amountCents.toNat, nachaField e.individualId 15, nachaField name 22,
    nachaField [] 2, ['0'], odfi8, zeroPadded 7 (i + 1)]

section Reading

variable {nfkd : Char → List Char} {odfi8 row : List Char} {e : NachaEntry} {i : ℕ}

theorem nachaEntryDetail_eq_ok (h : nachaEntryDetail nfkd odfi8 e i = .ok row) :
    e.Accepted ∧ width (zeroPadded 10 e.amountCents.toNat) = 10 ∧
      ∃ name, row = (entryFields odfi8 e i name).flatten := by
  simp only [nachaEntryDetail, bind_eq_ok, pure_eq_ok, refuseIf_eq_ok] at h
  obtain ⟨_, hamount, _, -, _, hfits, _, hrouting, _, hcheck, amount, hnumeric, name, -, rfl⟩ := h
  have hpos : 0 < e.amountCents := not_le.mp hamount
  rw [integerText_of_nonneg hpos.le] at hnumeric
  obtain ⟨rfl, hwidth⟩ := nachaNumeric_toDigits hnumeric
  simp only [Bool.not_eq_true', Bool.not_eq_false, isDigits_iff] at hrouting
  obtain ⟨⟨hlow, hhigh⟩, hdigits⟩ := hrouting
  have hcheckDigit : (if e.routingNumber.length = 9 then e.routingNumber.drop 8
      else nachaCheckDigit (e.routingNumber.take 8)) =
      nachaCheckDigit (e.routingNumber.take 8) := by
    split_ifs with hnine
    · by_contra hne
      exact hcheck ⟨hnine, hne⟩
    · rfl
  refine ⟨⟨hpos, not_lt.mp hfits, fun c hc => hdigits c (mem_of_mem_take hc), ?_, ?_⟩,
    hwidth, name, ?_⟩
  · rw [length_take]
    omega
  · by_cases hnine : e.routingNumber.length = 9
    · right
      rw [if_pos hnine] at hcheckDigit
      rw [← hcheckDigit, take_append_drop]
    · left
      exact (take_of_length_le (by omega)).symm
  · rw [hcheckDigit, entryFields]
    simp only [flatten_cons, flatten_nil, append_nil]

/-! ### Reading an entry back -/

/-- What a reader takes from an entry detail. -/
structure EntryReading where
  transactionCode : List Char
  routing : List Char
  checkDigit : List Char
  account : List Char
  amountCents : ℤ
  traceRouting : List Char
  traceIndex : ℕ

/-- The reading of an entry detail, at the offsets of the layout. -/
def readEntry (row : List Char) : EntryReading where
  transactionCode := readAt 1 2 row
  routing := readAt 3 8 row
  checkDigit := readAt 11 1 row
  account := trimEnd ' ' (readAt 12 17 row)
  amountCents := readNumber 29 10 row
  traceRouting := readAt 79 8 row
  traceIndex := readNumber 87 7 row

/-- What the entry at an index should read as. -/
def expectedReading (odfi8 : List Char) (p : NachaEntry × ℕ) : EntryReading where
  transactionCode := p.1.transactionCode.text
  routing := p.1.routingNumber.take 8
  checkDigit := nachaCheckDigit (p.1.routingNumber.take 8)
  account := trimEnd ' ' p.1.accountNumber
  amountCents := p.1.amountCents
  traceRouting := odfi8
  traceIndex := p.2 + 1

/-- Eight digits in front of the trace numbers. -/
structure IsOdfi (odfi8 : List Char) : Prop where
  digits : ∀ c ∈ odfi8, c.isDigit = true
  length : odfi8.length = 8

section

variable (hodfi : IsOdfi odfi8) (hacc : e.Accepted)
  (hamount : width (zeroPadded 10 e.amountCents.toNat) = 10)

include hodfi hacc hamount

theorem width_entryFields (i : ℕ) (name : List Char) :
    (entryFields odfi8 e i name).map width =
      [1, 2, 8, 1, 17, 10, 15, 22, 2, 1, 8, width (zeroPadded 7 (i + 1))] := by
  have hrouting : width (e.routingNumber.take 8) = 8 :=
    (width_of_digits hacc.routing_digits).trans hacc.routing_length
  have htrace : width odfi8 = 8 := (width_of_digits hodfi.digits).trans hodfi.length
  simp only [entryFields, map_cons, map_nil, width_nachaField, width_nachaCheckDigit,
    width_transactionCode, hrouting, hamount, htrace]
  rfl

/-- **The width of the whole record bounds the trace number.** -/
theorem width_trace {name : List Char} (hrow : width (entryFields odfi8 e i name).flatten = 94) :
    width (zeroPadded 7 (i + 1)) = 7 := by
  rw [width_flatten, width_entryFields hodfi hacc hamount] at hrow
  simp only [sum_cons, sum_nil] at hrow
  omega

theorem readEntry_entryFields {name : List Char}
    (hrow : width (entryFields odfi8 e i name).flatten = 94)
    (hp : Printable (entryFields odfi8 e i name).flatten) :
    readEntry (entryFields odfi8 e i name).flatten = expectedReading odfi8 (e, i) := by
  have hwidths := width_entryFields hodfi hacc hamount i name
  rw [width_trace hodfi hacc hamount hrow] at hwidths
  have haccount : nachaField e.accountNumber 17 = padEnd 17 ' ' e.accountNumber := by
    rw [nachaField, cut_eq_self hacc.account_fits]
  -- each field is read where the fields before it end
  have hread : ∀ {k off w : ℕ} {field : List Char},
      (entryFields odfi8 e i name)[k]? = some field →
      ([1, 2, 8, 1, 17, 10, 15, 22, 2, 1, 8, 7].take k).sum = off →
      [1, 2, 8, 1, 17, 10, 15, 22, 2, 1, 8, 7][k]? = some w →
      readAt off w (entryFields odfi8 e i name).flatten = field :=
    fun hk hoff hw => readAt_field hp hwidths hk hoff hw
  have haccountRead : readAt 12 17 (entryFields odfi8 e i name).flatten =
      nachaField e.accountNumber 17 := hread (k := 4) rfl rfl rfl
  have hamountRead : readAt 29 10 (entryFields odfi8 e i name).flatten =
      zeroPadded 10 e.amountCents.toNat := hread (k := 5) rfl rfl rfl
  have hindexRead : readAt 87 7 (entryFields odfi8 e i name).flatten =
      zeroPadded 7 (i + 1) := hread (k := 11) rfl rfl rfl
  simp only [readEntry, expectedReading, readNumber, EntryReading.mk.injEq]
  refine ⟨hread (k := 1) rfl rfl rfl, hread (k := 2) rfl rfl rfl, hread (k := 3) rfl rfl rfl, ?_,
    ?_, hread (k := 10) rfl rfl rfl, ?_⟩
  · rw [haccountRead, haccount, trimEnd_padEnd]
  · rw [hamountRead, ofDigitChars_zeroPadded, Int.toNat_of_nonneg hacc.amount_pos.le]
  · rw [hindexRead, ofDigitChars_zeroPadded]

end

/-! ### The loop over the entries -/

variable {entries : List (NachaEntry × ℕ)}

/-- **The loop keeps a row for each entry, and the two totals.** -/
theorem foldlM_addEntry {acc : EntryTotals}
    (h : entries.foldlM (addEntry nfkd odfi8) {} = .ok acc) :
    List.Forall₂ (fun p row => nachaEntryDetail nfkd odfi8 p.1 p.2 = .ok row) entries acc.rows ∧
      acc.entryHash =
        (entries.map fun p => Nat.ofDigitChars 10 (p.1.routingNumber.take 8) 0).sum ∧
      acc.totalCredit = (entries.map fun p => p.1.amountCents).sum := by
  refine foldlM_invariant (fun done s =>
    Forall₂ (fun p row => nachaEntryDetail nfkd odfi8 p.1 p.2 = .ok row) done s.rows ∧
      s.entryHash = (done.map fun p => Nat.ofDigitChars 10 (p.1.routingNumber.take 8) 0).sum ∧
      s.totalCredit = (done.map fun p => p.1.amountCents).sum) h ⟨.nil, rfl, rfl⟩ ?_
  rintro done p rest s s' - ⟨hrows, hhash, hcredit⟩ hstep
  simp only [addEntry, bind_eq_ok, pure_eq_ok] at hstep
  obtain ⟨row, hrow, rfl⟩ := hstep
  refine ⟨rel_append hrows (.cons hrow .nil), ?_, ?_⟩
  · simp [hhash]
  · simp [hcredit]

/-! ### The control records -/

variable {s : NachaSettings} {hashMod : List Char}

theorem nachaBatchControl_reads {count hash : ℕ} {total : ℤ}
    (h : nachaBatchControl s count hashMod total = .ok row)
    (hhash : hashMod = zeroPadded 10 hash) (hwidth : width hashMod = 10) (htotal : 0 ≤ total)
    (hp : Printable row) :
    row.head? = some '8' ∧ readNumber 4 6 row = count ∧ readNumber 10 10 row = hash ∧
      (readNumber 32 12 row : ℤ) = total := by
  simp only [nachaBatchControl, bind_eq_ok, pure_eq_ok, integerText_of_nonneg htotal] at h
  obtain ⟨entryCount, hcount, debit, hdebit, credit, hcredit, rfl⟩ := h
  obtain ⟨rfl, hcountWidth⟩ := nachaNumeric_toDigits hcount
  obtain ⟨-, hdebitWidth⟩ := nachaNumeric_toDigits (n := 0) hdebit
  obtain ⟨rfl, hcreditWidth⟩ := nachaNumeric_toDigits hcredit
  refine ⟨rfl, readNumber_field (k := 2) hp rfl hcountWidth rfl, ?_, ?_⟩
  · subst hhash
    refine readNumber_field (k := 3) hp rfl hwidth ?_
    simp [hcountWidth, width_cons, units]
  · rw [readNumber_field (k := 5) hp rfl hcreditWidth ?_, Int.toNat_of_nonneg htotal]
    simp [hcountWidth, hdebitWidth, hwidth, width_cons, units]

theorem nachaFileControl_reads {blocks count hash : ℕ} {total : ℤ}
    (h : nachaFileControl blocks count hashMod total = .ok row)
    (hhash : hashMod = zeroPadded 10 hash) (hwidth : width hashMod = 10) (htotal : 0 ≤ total)
    (hp : Printable row) :
    row.head? = some '9' ∧ readNumber 7 6 row = blocks ∧ readNumber 13 8 row = count ∧
      readNumber 21 10 row = hash ∧ (readNumber 43 12 row : ℤ) = total := by
  simp only [nachaFileControl, bind_eq_ok, pure_eq_ok, integerText_of_nonneg htotal] at h
  obtain ⟨batches, hbatches, blockCount, hblocks, entryCount, hcount, debit, hdebit, credit,
    hcredit, rfl⟩ := h
  obtain ⟨-, hbatchesWidth⟩ := nachaNumeric_toDigits (n := 1) hbatches
  obtain ⟨rfl, hblocksWidth⟩ := nachaNumeric_toDigits hblocks
  obtain ⟨rfl, hcountWidth⟩ := nachaNumeric_toDigits hcount
  obtain ⟨-, hdebitWidth⟩ := nachaNumeric_toDigits (n := 0) hdebit
  obtain ⟨rfl, hcreditWidth⟩ := nachaNumeric_toDigits hcredit
  refine ⟨rfl, ?_, ?_, ?_, ?_⟩
  · refine readNumber_field (k := 2) hp rfl hblocksWidth ?_
    simp [hbatchesWidth, width_cons, units]
  · refine readNumber_field (k := 3) hp rfl hcountWidth ?_
    simp [hbatchesWidth, hblocksWidth, width_cons, units]
  · subst hhash
    refine readNumber_field (k := 4) hp rfl hwidth ?_
    simp [hbatchesWidth, hblocksWidth, hcountWidth, width_cons, units]
  · rw [readNumber_field (k := 6) hp rfl hcreditWidth ?_, Int.toNat_of_nonneg htotal]
    simp [hbatchesWidth, hblocksWidth, hcountWidth, hwidth, hdebitWidth, width_cons, units]

theorem length_fillBlock (rows : List (List Char)) :
    (fillBlock rows).length = 10 * ((rows.length + 9) / 10) := by
  rw [fillBlock, length_append, length_replicate]
  omega

theorem checkRecord_eq_ok {p : List Char × ℕ} {u : Unit} :
    checkRecord p = .ok u ↔ width p.1 = 94 ∧ Printable p.1 := by
  simp [checkRecord]

/-! ### Reading a file back -/

/-- The hash of the entries: the sum of their routing numbers, modulo ten digits. -/
def entryHash (entries : List NachaEntry) : ℕ :=
  (entries.map fun e => Nat.ofDigitChars 10 (e.routingNumber.take 8) 0).sum % 10 ^ 10

/-- The rule of routing numbers: nine digits that, weighted 3, 7, 1, 3, 7, 1, 3, 7 and 1, sum to a
multiple of ten. -/
structure IsRoutingNumber (text : List Char) : Prop where
  length : text.length = 9
  digits : ∀ c ∈ text, c.isDigit = true
  weighted : 10 ∣ ((text.zip [3, 7, 1, 3, 7, 1, 3, 7, 1]).map fun p =>
    (p.1.toNat - '0'.toNat) * p.2).sum

/-- **The check digit completes a routing number.** -/
theorem isRoutingNumber_nachaCheckDigit {rt8 : List Char} (hlength : rt8.length = 8)
    (hdigits : ∀ c ∈ rt8, c.isDigit = true) : IsRoutingNumber (rt8 ++ nachaCheckDigit rt8) := by
  obtain ⟨d, hd, hcheck⟩ : ∃ d < 10, d = (10 - ((rt8.zip [3, 7, 1, 3, 7, 1, 3, 7]).map fun p =>
      (p.1.toNat - '0'.toNat) * p.2).sum % 10) % 10 := ⟨_, Nat.mod_lt _ (by decide), rfl⟩
  have htext : nachaCheckDigit rt8 = [Nat.digitChar d] := by
    rw [nachaCheckDigit, ← hcheck, Nat.toDigits_of_lt_base hd]
  have hdigit : (Nat.digitChar d).isDigit = true ∧ (Nat.digitChar d).toNat - '0'.toNat = d := by
    interval_cases d <;> decide
  rw [htext]
  refine ⟨by simp [hlength], fun c hc => ?_, ?_⟩
  · rcases mem_append.mp hc with hc | hc
    · exact hdigits c hc
    · rw [mem_singleton.mp hc]
      exact hdigit.1
  · have hzip : (rt8 ++ [Nat.digitChar d]).zip [3, 7, 1, 3, 7, 1, 3, 7, 1] =
        rt8.zip [3, 7, 1, 3, 7, 1, 3, 7] ++ [(Nat.digitChar d, 1)] :=
      zip_append (show rt8.length = [3, 7, 1, 3, 7, 1, 3, 7].length by rw [hlength]; rfl)
    rw [hzip, map_append, sum_append, map_singleton, sum_singleton, hdigit.2, mul_one]
    omega

/-- The records of a file say what the run said. -/
structure NachaDecodes (opts : NachaRun) (rows : List (List Char)) : Prop where
  record : ∀ r ∈ rows, r.length = 94 ∧ Printable r
  entries : (recordsOfType '6' rows).map readEntry =
    opts.entries.zipIdx.map (expectedReading (opts.settings.odfiRouting.take 8))
  /-- Nothing of a routing number is lost: a ninth digit is the check digit. -/
  routing : ∀ e ∈ opts.entries, e.routingNumber = e.routingNumber.take 8 ∨
    e.routingNumber = e.routingNumber.take 8 ++ nachaCheckDigit (e.routingNumber.take 8)
  /-- What is read as a routing number and its check digit is one. -/
  checked : ∀ row ∈ recordsOfType '6' rows,
    IsRoutingNumber ((readEntry row).routing ++ (readEntry row).checkDigit)
  control : ∃ batch file fillers,
    recordsOfType '8' rows = [batch] ∧ recordsOfType '9' rows = file :: fillers ∧
      rows.length = 10 * readNumber 7 6 file ∧
      (readNumber 4 6 batch = opts.entries.length ∧ readNumber 13 8 file = opts.entries.length) ∧
      (readNumber 10 10 batch = entryHash opts.entries ∧
        readNumber 21 10 file = entryHash opts.entries) ∧
      ((readNumber 32 12 batch : ℤ) = (opts.entries.map NachaEntry.amountCents).sum ∧
        (readNumber 43 12 file : ℤ) = (opts.entries.map NachaEntry.amountCents).sum)

theorem validateNachaSettings_eq_ok {s' : NachaSettings} (h : validateNachaSettings s = .ok s') :
    s' = s ∧ IsOdfi (s.odfiRouting.take 8) := by
  simp only [validateNachaSettings, bind_eq_ok, pure_eq_ok, refuseIf_eq_ok] at h
  obtain ⟨_, -, _, -, _, -, _, hodfi, _, -, _, -, rfl⟩ := h
  simp only [Bool.not_eq_true', Bool.not_eq_false, isDigits_iff] at hodfi
  obtain ⟨⟨hlow, -⟩, hdigits⟩ := hodfi
  refine ⟨rfl, fun c hc => hdigits c (mem_of_mem_take hc), ?_⟩
  rw [length_take]
  omega

theorem head?_nachaFileHeader {creation : List Char × List Char} {modifier : List Char}
    (h : nachaFileHeader nfkd s creation modifier = .ok row) : row.head? = some '1' := by
  simp only [nachaFileHeader, bind_eq_ok, pure_eq_ok] at h
  obtain ⟨_, -, _, -, rfl⟩ := h
  rfl

theorem head?_nachaBatchHeader {date : List Char} (h : nachaBatchHeader nfkd s date = .ok row) :
    row.head? = some '5' := by
  simp only [nachaBatchHeader, bind_eq_ok, pure_eq_ok] at h
  obtain ⟨_, -, _, -, _, -, rfl⟩ := h
  rfl

theorem head?_nachaEntryDetail (h : nachaEntryDetail nfkd odfi8 e i = .ok row) :
    row.head? = some '6' := by
  obtain ⟨-, -, name, rfl⟩ := nachaEntryDetail_eq_ok h
  rfl

variable {rows : List (List Char)}

theorem checkRecord_forall {us : List Unit} (h : rows.zipIdx.mapM checkRecord = .ok us) :
    ∀ r ∈ rows, width r = 94 ∧ Printable r := by
  intro r hr
  obtain ⟨i, hi⟩ := exists_mem_zipIdx hr
  obtain ⟨_, -, hcheck⟩ := exists_of_mapM h hi
  exact checkRecord_eq_ok.mp hcheck

theorem map_readEntry (hodfi : IsOdfi odfi8)
    (h : List.Forall₂ (fun p row => nachaEntryDetail nfkd odfi8 p.1 p.2 = .ok row) entries rows)
    (hchecked : ∀ r ∈ rows, width r = 94 ∧ Printable r) :
    rows.map readEntry = entries.map (expectedReading odfi8) := by
  refine map_eq_map_of_forall₂ h _ _ fun p _ row hmem hrow => ?_
  obtain ⟨hacc, hamount, name, rfl⟩ := nachaEntryDetail_eq_ok hrow
  obtain ⟨hwidth, hp⟩ := hchecked _ hmem
  exact readEntry_entryFields hodfi hacc hamount hwidth hp

theorem exists_fillers (rows : List (List Char)) :
    ∃ fillers, fillBlock rows = rows ++ fillers ∧ ∀ r ∈ fillers, r.head? = some '9' := by
  refine ⟨_, rfl, fun r hr => ?_⟩
  rw [eq_of_mem_replicate hr]
  rfl

theorem recordsOfType_nacha {header batchHeader batch control : List Char}
    {details fillers : List (List Char)} (hheader : header.head? = some '1')
    (hbatchHeader : batchHeader.head? = some '5') (hdetails : ∀ r ∈ details, r.head? = some '6')
    (hbatch : batch.head? = some '8') (hcontrol : control.head? = some '9')
    (hfillers : ∀ r ∈ fillers, r.head? = some '9') :
    let rows := [header, batchHeader] ++ details ++ [batch] ++ [control] ++ fillers
    recordsOfType '6' rows = details ∧ recordsOfType '8' rows = [batch] ∧
      recordsOfType '9' rows = control :: fillers := by
  intro rows
  have htwo : ∀ type, '1' ≠ type → '5' ≠ type →
      recordsOfType type [header, batchHeader] = [] := by
    intro type hone hfive
    simp [recordsOfType, hheader, hbatchHeader, hone, hfive]
  have hbatch' : ∀ r ∈ [batch], r.head? = some '8' := by simpa using hbatch
  have hcontrol' : ∀ r ∈ [control], r.head? = some '9' := by simpa using hcontrol
  simp only [rows, recordsOfType_append]
  refine ⟨?_, ?_, ?_⟩
  · rw [htwo '6' (by decide) (by decide), recordsOfType_eq_self hdetails,
      recordsOfType_eq_nil (by decide) hbatch', recordsOfType_eq_nil (by decide) hcontrol',
      recordsOfType_eq_nil (by decide) hfillers]
    simp
  · rw [htwo '8' (by decide) (by decide), recordsOfType_eq_nil (by decide) hdetails,
      recordsOfType_eq_self hbatch', recordsOfType_eq_nil (by decide) hcontrol',
      recordsOfType_eq_nil (by decide) hfillers]
    simp
  · rw [htwo '9' (by decide) (by decide), recordsOfType_eq_nil (by decide) hdetails,
      recordsOfType_eq_nil (by decide) hbatch', recordsOfType_eq_self hcontrol',
      recordsOfType_eq_self hfillers]
    simp

theorem nachaRecords_decodes {opts : NachaRun} (h : nachaRecords nfkd opts = .ok rows) :
    NachaDecodes opts rows := by
  simp only [nachaRecords, bind_eq_ok, pure_eq_ok, refuseIf_eq_ok, mapError_eq_ok] at h
  obtain ⟨s, hs, _, -, _, -, creation, -, header, hheader, batchHeader, hbatchHeader, acc, hacc,
    hashMod, hhash, batch, hbatch, control, hcontrol, _, hchecked, rfl⟩ := h
  obtain ⟨rfl, hodfi⟩ := validateNachaSettings_eq_ok hs
  obtain ⟨hrows, hsum, hcredit⟩ := foldlM_addEntry hacc
  obtain ⟨hhashText, hhashWidth⟩ := nachaNumeric_toDigits hhash
  have hall := checkRecord_forall hchecked
  have haccepted : ∀ e ∈ opts.entries, e.Accepted := by
    intro e he
    obtain ⟨i, hi⟩ := exists_mem_zipIdx he
    obtain ⟨row, -, hrow⟩ := exists_right_of_forall₂ hrows hi
    exact (nachaEntryDetail_eq_ok hrow).1
  have htotal : acc.totalCredit = (opts.entries.map NachaEntry.amountCents).sum := by
    rw [hcredit, map_zipIdx_fst]
  have hhashSum : acc.entryHash % 10000000000 = entryHash opts.entries := by
    rw [hsum, map_zipIdx_fst fun e : NachaEntry =>
      Nat.ofDigitChars 10 (e.routingNumber.take 8) 0]
    rfl
  have hnonneg : 0 ≤ acc.totalCredit := by
    rw [htotal]
    refine List.sum_nonneg fun x hx => ?_
    obtain ⟨e, he, rfl⟩ := mem_map.mp hx
    exact (haccepted e he).amount_pos.le
  have hdetails : ∀ r ∈ acc.rows, r.head? = some '6' := by
    intro r hr
    obtain ⟨p, -, hp⟩ := exists_left_of_forall₂ hrows hr
    exact head?_nachaEntryDetail hp
  obtain ⟨fillers, hfilled, hfillers⟩ := exists_fillers ([header, batchHeader] ++ acc.rows ++
    [batch] ++ [control])
  have hlength := length_fillBlock ([header, batchHeader] ++ acc.rows ++ [batch] ++ [control])
  rw [hfilled] at hall hlength ⊢
  obtain ⟨hbatchHead, hbatchCount, hbatchHash, hbatchTotal⟩ := nachaBatchControl_reads hbatch
    hhashText hhashWidth hnonneg (hall batch (by simp)).2
  obtain ⟨hfileHead, hblocks, hfileCount, hfileHash, hfileTotal⟩ := nachaFileControl_reads hcontrol
    hhashText hhashWidth hnonneg (hall control (by simp)).2
  obtain ⟨hsix, height, hnine⟩ := recordsOfType_nacha (head?_nachaFileHeader hheader)
    (head?_nachaBatchHeader hbatchHeader) hdetails hbatchHead hfileHead hfillers
  have hentries := map_readEntry hodfi hrows fun r hr => hall r (by simp [hr])
  refine ⟨fun r hr => ?_, hsix.symm ▸ hentries, fun e he => (haccepted e he).routing_check,
    fun row hrow => ?_, batch, control, fillers, height, hnine, ?_, ⟨hbatchCount, hfileCount⟩,
    ⟨hbatchHash.trans hhashSum, hfileHash.trans hhashSum⟩,
    hbatchTotal.trans htotal, hfileTotal.trans htotal⟩
  · obtain ⟨hwidth, hp⟩ := hall r hr
    exact ⟨(width_of_printable hp).symm.trans hwidth, hp⟩
  · have hread : readEntry row ∈ acc.rows.map readEntry := mem_map_of_mem (hsix ▸ hrow)
    obtain ⟨p, hp, heq⟩ := mem_map.mp (hentries ▸ hread)
    have hacc := haccepted p.1 (fst_mem_of_mem_zipIdx hp)
    exact heq ▸ isRoutingNumber_nachaCheckDigit hacc.routing_length hacc.routing_digits
  · rw [hlength, hblocks]
    simp

/-- **A NACHA file can be read back and agrees with itself**: for every run the writer
accepts, the records are 94 printable characters wide and fill whole blocks, as many as the
file control record says; the entry details read as the entries, in order; and the control
records carry the entry count, the hash and the total. -/
theorem buildNachaFile_decodes (opts : NachaRun) (file : List Char)
    (h : buildNachaFile nfkd opts = .ok file) :
    ∃ rows, file = fileText ['\n'] rows ∧ NachaDecodes opts rows := by
  rw [buildNachaFile, map_eq_ok] at h
  obtain ⟨rows, hrows, rfl⟩ := h
  exact ⟨rows, rfl, nachaRecords_decodes hrows⟩

end Reading

/-- A run of two payments, to routing numbers of nine and of eight digits. -/
def twoCredits : NachaRun where
  settings :=
    { odfiRouting := "021000021".toList, immediateDestination := "021000021".toList
      immediateOrigin := "123456789".toList, destinationName := "First Bank".toList
      originName := "Béton".toList, companyName := "Béton".toList
      companyId := "1234567890".toList }
  effectiveDate := "2024-02-29".toList
  creationDateTime := "2024-02-28T10:11:12".toList
  fileIdModifier := some ['A']
  entries :=
    [⟨.checking, "021000021".toList, "12 34".toList, 12345, "V1".toList, "José".toList⟩,
      ⟨.savings, "01140153".toList, "987654321".toList, 1, "V2".toList, "Weiß".toList⟩]

theorem buildNachaFile_decodes_twoCredits :
    ∃ file rows, buildNachaFile acuteNfkd twoCredits = .ok file ∧ file = fileText ['\n'] rows ∧
      NachaDecodes twoCredits rows := by
  obtain ⟨file, hfile⟩ : ∃ file, buildNachaFile acuteNfkd twoCredits = .ok file :=
    exists_of_isOk (by decide +kernel)
  obtain ⟨rows, hrows⟩ := buildNachaFile_decodes twoCredits file hfile
  exact ⟨file, rows, hfile, hrows⟩

end OpenBooks
