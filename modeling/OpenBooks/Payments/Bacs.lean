import OpenBooks.Payments.Cpa005

/-!
# The Bacs credit file

`buildBacsFile` writes a Standard 18 submission: four header labels, a credit
record for each payment, a debit contra, and three trailer labels.

The layout can be read back (`bacsRecords_decodes`). Names are another matter: a
character outside the channel's set becomes a space, and the check for a blank name looks
at the name as it was given. A name of punctuation is accepted and written as eighteen
spaces; `buildBacsFile_names_iff` says which names survive.
-/

namespace OpenBooks

open Checked FixedWidth List ListSum

/-! ### Sort codes and account numbers -/

/-- `value.replace(/[\s-]/g, "")` -/
def stripSeparators (value : List Char) : List Char :=
  value.filter fun c => !(isJsWhitespace c || c = '-')

/-- A sort code as `NN-NN-NN`. -/
def normalizeSortCode (value : List Char) : Option (List Char) :=
  let digits := stripSeparators value
  if isDigits 6 6 digits then
    some (digits.take 2 ++ ['-'] ++ (digits.drop 2).take 2 ++ ['-'] ++ digits.drop 4)
  else none

/-- An account number of eight digits, not all zeros. -/
def normalizeGbAccountNumber (value : List Char) : Option (List Char) :=
  let stripped := stripSeparators value
  if stripped = [] ∨ !isDigits 8 8 stripped then none
  else if stripped.all (· = '0') then none
  else some stripped

/-! ### Settings and payments -/

structure BacsSettings where
  serviceUserNumber : List Char
  originatingSortCode : List Char
  originatingAccount : List Char
  serviceUserName : List Char

structure BacsPayment where
  amountCents : ℤ
  sortCode : List Char
  accountNumber : List Char
  accountName : List Char
  reference : List Char

structure BacsRun where
  settings : BacsSettings
  processingDate : List Char
  creationDate : List Char
  volSerial : List Char
  fileNumber : List Char
  payments : List BacsPayment

def bacsRequired (s : BacsSettings) : List (String × List Char) :=
  [("serviceUserNumber", s.serviceUserNumber), ("originatingSortCode", s.originatingSortCode),
    ("originatingAccount", s.originatingAccount), ("serviceUserName", s.serviceUserName)]

/-- The settings normalized, or the names of those that are missing or malformed. -/
def validateBacsSettings (s : BacsSettings) : Except (List String) BacsSettings := do
  let unset := ((bacsRequired s).filter fun p => isUnset p.2).map Prod.fst
  let missing := unset ++
    (if !unset.contains "serviceUserNumber" && !isDigits 6 6 (trim s.serviceUserNumber) then
      ["serviceUserNumber (6-digit Service User Number assigned by your bank)"] else []) ++
    (if !unset.contains "originatingSortCode" &&
        (normalizeSortCode s.originatingSortCode).isNone then
      ["originatingSortCode (6-digit sort code of the account the Bacs debit will draw)"]
      else []) ++
    (if !unset.contains "originatingAccount" &&
        (normalizeGbAccountNumber s.originatingAccount).isNone then
      ["originatingAccount (8-digit account the Bacs debit will draw)"] else []) ++
    (if !unset.contains "serviceUserName" && decide (18 < width s.serviceUserName) then
      ["serviceUserName (max 18 characters, shown on employee statements)"] else [])
  refuseIf (missing ≠ []) missing.eraseDups
  return { serviceUserNumber := trim s.serviceUserNumber
           originatingSortCode := (normalizeSortCode s.originatingSortCode).getD []
           originatingAccount := (normalizeGbAccountNumber s.originatingAccount).getD []
           serviceUserName := trim s.serviceUserName }

/-! ### Fields -/

/-- The character that the channel carries for a character of ASCII text. -/
def bacsCharacter (c : Char) : Char :=
  let upper := c.toUpper
  if upper.isUpper || upper.isDigit || upper ∈ [' ', '.', '&', '/', '-'] then upper else ' '

section Fields

variable (nfkd : Char → List Char)

/-- A name in a field of `len` characters. -/
def bacsText (value : List Char) (len : ℕ) (what remedy : String) :
    Except RailError (List Char) := do
  let ascii ← asciiRailText nfkd value "Bacs" what remedy
  let mapped := cut len (ascii.map bacsCharacter)
  refuseIf (trim value = []) (RailError.payment ("Bacs " ++ what ++ " must not be blank"))
  return padEnd len ' ' mapped

end Fields

def pence (value : ℤ) (len : ℕ) (what : String) : Except RailError (List Char) := do
  let digits := integerText value
  refuseIf (value ≤ 0) (RailError.payment "payment amounts must be positive")
  refuseIf (len < digits.length) (RailError.payment ("Bacs " ++ what ++ " " ++
    String.ofList digits ++ " pence does not fit in " ++ toString len ++
    " digits — split the pay run"))
  return FixedWidth.padStart len '0' digits

/-- The six digits of a sort code. -/
def bacsSort (value : List Char) (what : String) : Except RailError (List Char) := do
  let normal ← orRefuse (normalizeSortCode value)
    (RailError.payment ("Bacs " ++ what ++ " " ++ quoted value ++ " is not a 6-digit sort code"))
  return normal.filter (· ≠ '-')

def bacsAccount (value : List Char) (what : String) : Except RailError (List Char) :=
  orRefuse (normalizeGbAccountNumber value) (RailError.payment
    ("Bacs " ++ what ++ " " ++ quoted value ++ " is not an 8-digit account number"))

/-- A day as a blank, the year and the day of the year. -/
def yyddd (iso : List Char) (what : String) : Except RailError (List Char) := do
  let date ← (parseIsoDate iso).mapError fun _ => .payment
    ("Bacs " ++ what ++ " " ++ quoted iso ++ " is not a valid YYYY-MM-DD civil day")
  return ' ' :: zeroPadded 2 (date.year % 100) ++ zeroPadded 3 (dayOfYear date)

/-! ### Records -/

/-- A record that is checked to be as wide as its layout. -/
def bacsRecord (fields : List (List Char)) (len : ℕ) (name : String) :
    Except RailError (List Char) := do
  let record := fields.flatten
  refuseIf (width record ≠ len) (RailError.payment
    ("internal error: Bacs " ++ name ++ " record is not " ++ toString len ++ " characters"))
  return record

def spaces (n : ℕ) : List Char := List.replicate n ' '

def vol1Record (s : BacsSettings) (volSerial : List Char) : Except RailError (List Char) :=
  bacsRecord ["VOL1".toList, volSerial, spaces 1, spaces 20, spaces 6, spaces 4,
    s.serviceUserNumber, spaces 4, spaces 28, "1".toList] 80 "VOL1"

def hdr1Record (s : BacsSettings) (volSerial creation expiry : List Char) :
    Except RailError (List Char) :=
  bacsRecord ["HDR1".toList, "A".toList, s.serviceUserNumber, "S".toList, spaces 2, spaces 1,
    s.serviceUserNumber, volSerial, "0001".toList, "0001".toList, spaces 4, spaces 2, creation,
    expiry, spaces 1, "000000".toList, spaces 13, spaces 7] 80 "HDR1"

def hdr2Record : Except RailError (List Char) :=
  bacsRecord ["HDR2".toList, "F".toList, "02000".toList, "00100".toList, spaces 35, "00".toList,
    spaces 28] 80 "HDR2"

def uhl1Record (processing fileNumber : List Char) : Except RailError (List Char) :=
  bacsRecord ["UHL1".toList, processing, "999999".toList, spaces 4, "00".toList, "000000".toList,
    "1 DAILY  ".toList, fileNumber, spaces 7, spaces 7, spaces 26] 80 "UHL1"

/-- The originator's side of every data record. -/
structure BacsOrigin where
  sort : List Char
  account : List Char
  userName : List Char

section Records

variable (nfkd : Char → List Char)

def bacsDetail (origin : BacsOrigin) (p : BacsPayment) : Except RailError (List Char) := do
  let name := String.ofList p.accountName
  let sort ← bacsSort p.sortCode ("destination sort code for " ++ name)
  let account ← bacsAccount p.accountNumber ("destination account for " ++ name)
  let amount ← pence p.amountCents 11 ("credit to " ++ name)
  let reference ← bacsText nfkd p.reference 18 ("reference for " ++ name)
    "Edit the reference to Latin letters without that character, then generate the file again."
  let accountName ← bacsText nfkd p.accountName 18 "destination account name" PAYEE_NAME_REMEDY
  bacsRecord [sort, account, "0".toList, "99".toList, origin.sort, origin.account, spaces 4,
    amount, origin.userName, reference, accountName] 100 "detail"

def contraRecord (origin : BacsOrigin) (total : ℤ) : Except RailError (List Char) := do
  let amount ← pence total 11 "contra total"
  bacsRecord [origin.sort, origin.account, "0".toList, "17".toList, origin.sort, origin.account,
    spaces 4, amount, origin.userName, "CONTRA".toList ++ spaces 12, origin.userName] 100 "contra"

/-- A trailer label that repeats a header label from its fifth character on. -/
def eofRecord (label : String) (header : List Char) : Except RailError (List Char) :=
  bacsRecord [label.toList, header.drop 4] 80 "EOF"

def utl1Record (total : ℤ) (count : ℕ) : Except RailError (List Char) := do
  let debit ← pence total 13 "debit total"
  let credit ← pence total 13 "credit total"
  bacsRecord ["UTL1".toList, debit, credit, "0000001".toList, zeroPadded 7 count, spaces 10,
    spaces 26] 80 "UTL1"

def checkSerial (volSerial : List Char) : Except RailError Unit :=
  refuseIf (¬(volSerial.length = 6 ∧ volSerial.all fun c => c.isDigit || c.isAlpha || c = ' ') ∨
      trim volSerial = [] ∨ volSerial.all (· = '0'))
    (RailError.payment ("Bacs VOL1 serial must be 6 alphanumeric characters, right-justified, " ++
      "not blank or all zeros"))

/-- The records of a submission. -/
def bacsRecords (run : BacsRun) : Except RailError (List (List Char)) := do
  let s ← (validateBacsSettings run.settings).mapError fun missing => RailError.payment
    ("Bacs originator settings are invalid: " ++ ", ".intercalate missing)
  refuseIf (run.payments = []) (RailError.payment "run has no payments to export")
  checkSerial run.volSerial
  refuseIf (!isDigits 3 3 run.fileNumber ∨ Nat.ofDigitChars 10 run.fileNumber 0 = 0)
    (RailError.payment "Bacs UHL1 file number must be 3 digits and greater than zero")
  let originSort ← bacsSort s.originatingSortCode "originating sort code"
  let originAccount ← bacsAccount s.originatingAccount "originating account"
  let userName ← bacsText nfkd s.serviceUserName 18 "service user name" ORIGINATOR_REMEDY
  let origin : BacsOrigin := ⟨originSort, originAccount, userName⟩
  let creation ← yyddd run.creationDate "creation date"
  let processing ← yyddd run.processingDate "processing date"
  let expiryDay ← (addCalendarDays run.processingDate 7).mapError fun e => .range e.message
  let expiry ← yyddd expiryDay "processing date"
  let vol1 ← vol1Record s run.volSerial
  let hdr1 ← hdr1Record s run.volSerial creation expiry
  let hdr2 ← hdr2Record
  let uhl1 ← uhl1Record processing run.fileNumber
  let details ← run.payments.mapM (bacsDetail nfkd origin)
  let total := (run.payments.map BacsPayment.amountCents).sum
  let contra ← contraRecord origin total
  let eof1 ← eofRecord "EOF1" hdr1
  let eof2 ← eofRecord "EOF2" hdr2
  let utl1 ← utl1Record total run.payments.length
  refuseIf (!isDigits 7 7 (zeroPadded 7 run.payments.length) ∨ 9999999 < run.payments.length)
    (RailError.payment "Bacs file holds at most 9,999,999 detail records")
  return [vol1, hdr1, hdr2, uhl1] ++ details ++ [contra, eof1, eof2, utl1]

/-- The file: its records, each ended by a carriage return and a line feed. -/
def buildBacsFile (run : BacsRun) : Except RailError (List Char) :=
  fileText ['\r', '\n'] <$> bacsRecords nfkd run

end Records

/-! ### What the fields hold -/

variable {t value : List Char} {what : String}

theorem bacsSort_eq_ok (h : bacsSort value what = .ok t) :
    t = stripSeparators value ∧ t.length = 6 := by
  simp only [bacsSort, bind_eq_ok, pure_eq_ok, orRefuse_eq_ok, normalizeSortCode,
    Option.ite_none_right_eq_some, Option.some.injEq] at h
  obtain ⟨_, ⟨hdigits, rfl⟩, rfl⟩ := h
  obtain ⟨⟨hlow, hhigh⟩, hall⟩ := isDigits_iff.mp hdigits
  have hkeep : ∀ part : List Char, (∀ c ∈ part, c ∈ stripSeparators value) →
      part.filter (· ≠ '-') = part := by
    intro part hpart
    refine filter_eq_self.mpr fun c hc => decide_eq_true ?_
    rintro rfl
    exact absurd (hall _ (hpart _ hc)) (by decide)
  have hmiddle : ((stripSeparators value).drop 2).take 2 ++ (stripSeparators value).drop 4 =
      (stripSeparators value).drop 2 := by
    conv_rhs => rw [← take_append_drop 2 ((stripSeparators value).drop 2), drop_drop]
  have hsix : (stripSeparators value).length = 6 := by omega
  have hfiltered : ((stripSeparators value).take 2 ++ ['-'] ++
      ((stripSeparators value).drop 2).take 2 ++ ['-'] ++ (stripSeparators value).drop 4).filter
        (· ≠ '-') = stripSeparators value := by
    simp only [filter_append]
    rw [hkeep _ fun c hc => mem_of_mem_take hc,
      hkeep _ fun c hc => mem_of_mem_drop (mem_of_mem_take hc),
      hkeep _ fun c hc => mem_of_mem_drop hc]
    simp only [ne_eq, decide_not, decide_true, Bool.not_true, Bool.false_eq_true,
      not_false_eq_true, filter_cons_of_neg, filter_nil, append_nil,
      append_assoc]
    rw [hmiddle, take_append_drop]
  rw [hfiltered]
  exact ⟨rfl, hsix⟩

theorem bacsAccount_eq_ok (h : bacsAccount value what = .ok t) :
    t = stripSeparators value ∧ t.length = 8 := by
  simp only [bacsAccount, orRefuse_eq_ok, normalizeGbAccountNumber] at h
  split_ifs at h with hshape hzeros
  cases h
  simp only [not_or, Bool.not_eq_true', Bool.not_eq_false] at hshape
  obtain ⟨⟨hlow, hhigh⟩, -⟩ := isDigits_iff.mp hshape.2
  exact ⟨rfl, by omega⟩

variable {len : ℕ}

theorem pence_eq_ok {value : ℤ} (h : pence value len what = .ok t) :
    0 < value ∧ t = zeroPadded len value.toNat ∧ t.length = len := by
  simp only [pence, bind_eq_ok, pure_eq_ok, refuseIf_eq_ok] at h
  obtain ⟨_, hpos, _, hfit, rfl⟩ := h
  have hpos : 0 < value := not_le.mp hpos
  rw [integerText_of_nonneg hpos.le] at hfit ⊢
  exact ⟨hpos, rfl, length_zeroPadded (not_lt.mp hfit)⟩

theorem length_yyddd {iso : List Char} (h : yyddd iso what = .ok t) : t.length = 6 := by
  simp only [yyddd, bind_eq_ok, pure_eq_ok] at h
  obtain ⟨date, -, rfl⟩ := h
  have hyear : (zeroPadded 2 (date.year % 100)).length = 2 :=
    length_zeroPadded_of_lt (by decide) (Nat.mod_lt _ (by decide))
  have hday : (zeroPadded 3 (dayOfYear date)).length = 3 :=
    length_zeroPadded_of_lt (by decide) (dayOfYear_lt date)
  rw [cons_append, length_cons, length_append, hyear, hday]

/-- A character that the channel carries as itself, up to case, and that is not a space. -/
def isBacsMark (c : Char) : Bool := c.isAlpha || c.isDigit || c ∈ ['.', '&', '/', '-']

variable {c : Char}

theorem forall_printable {P : Char → Prop} (h : ∀ n < 127, P (Char.ofNat n))
    (hc : isPrintable c = true) : P c := by
  simp only [isPrintable, Bool.and_eq_true, decide_eq_true_eq] at hc
  have hc' := h c.toNat (by omega)
  rwa [Char.ofNat_toNat] at hc'

theorem bacsCharacter_eq_space_iff (hc : isPrintable c = true) :
    bacsCharacter c = ' ' ↔ isBacsMark c = false :=
  forall_printable (P := fun c => bacsCharacter c = ' ' ↔ isBacsMark c = false)
    (by decide +kernel) hc

theorem isPrintable_bacsCharacter (hc : isPrintable c = true) :
    isPrintable (bacsCharacter c) = true :=
  forall_printable (P := fun c => isPrintable (bacsCharacter c) = true) (by decide +kernel) hc

section Reading

variable {nfkd : Char → List Char}

/-- **A name is written as its first characters, mapped to the channel.** -/
theorem bacsText_eq_ok {remedy : String} (h : bacsText nfkd value len what remedy = .ok t) :
    Printable (foldedText nfkd value) ∧
      t = padEnd len ' ' (((foldedText nfkd value).map bacsCharacter).take len) ∧
      t.length = len := by
  simp only [bacsText, bind_eq_ok, pure_eq_ok, refuseIf_eq_ok, asciiRailText_eq_ok] at h
  obtain ⟨_, ⟨rfl, hp⟩, _, -, rfl⟩ := h
  have hmapped : Printable ((foldedText nfkd value).map bacsCharacter) := by
    intro c hc
    obtain ⟨d, hd, rfl⟩ := mem_map.mp hc
    exact isPrintable_bacsCharacter (hp d hd)
  rw [cut_of_printable hmapped]
  refine ⟨hp, rfl, ?_⟩
  rw [padEnd, length_append, length_replicate,
    width_of_printable fun c hc => hmapped c (mem_of_mem_take hc), length_take]
  omega

/-- **A name is blanked exactly when none of the characters that fit is a mark.** -/
theorem isBlank_bacsText {remedy : String} (h : bacsText nfkd value len what remedy = .ok t) :
    isBlank t = false ↔ ∃ c ∈ (foldedText nfkd value).take len, isBacsMark c = true := by
  obtain ⟨hp, rfl, -⟩ := bacsText_eq_ok h
  have hblank : ∀ n, (List.replicate n ' ').all (· = ' ') = true := fun n =>
    all_eq_true.mpr fun c hc => decide_eq_true (eq_of_mem_replicate hc)
  rw [isBlank, padEnd, all_append, hblank, Bool.and_true, ← map_take, all_map, all_eq_false]
  refine exists_congr fun c => and_congr_right fun hc => ?_
  have hspace := bacsCharacter_eq_space_iff (hp c (mem_of_mem_take hc))
  rw [Function.comp_apply, decide_eq_true_eq, hspace, Bool.not_eq_false]

/-! ### Reading a record back -/

/-- What a reader takes from a credit record. -/
structure CreditReading where
  sortCode : List Char
  account : List Char
  pence : ℤ

def readCredit (record : List Char) : CreditReading where
  sortCode := readAt 0 6 record
  account := readAt 6 8 record
  pence := readNumber 35 11 record

/-- What the credit record of a payment should read as. -/
def expectedCredit (p : BacsPayment) : CreditReading where
  sortCode := stripSeparators p.sortCode
  account := stripSeparators p.accountNumber
  pence := p.amountCents

/-- The credit records: the data records of code 99. -/
def creditRecords (records : List (List Char)) : List (List Char) :=
  records.filter fun r => r.length = 100 && readAt 15 2 r = "99".toList

theorem bacsRecord_eq_ok {fields : List (List Char)} {name : String}
    (h : bacsRecord fields len name = .ok t) : t = fields.flatten := by
  simp only [bacsRecord, bind_eq_ok, pure_eq_ok] at h
  obtain ⟨_, -, rfl⟩ := h
  rfl

/-- The originator's fields have their widths. -/
structure BacsOrigin.Fits (origin : BacsOrigin) : Prop where
  sort : origin.sort.length = 6
  account : origin.account.length = 8
  userName : origin.userName.length = 18

/-- The lengths of the fields of a data record. -/
def dataWidths : List ℕ := [6, 8, 1, 2, 6, 8, 4, 11, 18, 18, 18]

variable {origin : BacsOrigin} {record : List Char}

/-- **A credit record and what it holds.** -/
theorem bacsDetail_reads (hfits : origin.Fits) {p : BacsPayment}
    (h : bacsDetail nfkd origin p = .ok record) :
    0 < p.amountCents ∧ record.length = 100 ∧ readAt 15 2 record = "99".toList ∧
      readCredit record = expectedCredit p ∧ readAt 46 18 record = origin.userName ∧
      (isBlank (readAt 64 18 record) = false ↔
        ∃ c ∈ (foldedText nfkd p.reference).take 18, isBacsMark c = true) ∧
      (isBlank (readAt 82 18 record) = false ↔
        ∃ c ∈ (foldedText nfkd p.accountName).take 18, isBacsMark c = true) := by
  simp only [bacsDetail, bind_eq_ok] at h
  obtain ⟨sort, hsort, account, haccount, amount, hamount, reference, hreference, name, hname,
    hrecord⟩ := h
  obtain ⟨hsort, hsortLength⟩ := bacsSort_eq_ok hsort
  obtain ⟨haccount, haccountLength⟩ := bacsAccount_eq_ok haccount
  obtain ⟨hpos, hamount, hamountLength⟩ := pence_eq_ok hamount
  obtain rfl := bacsRecord_eq_ok hrecord
  have hlengths : [sort, account, "0".toList, "99".toList, origin.sort, origin.account, spaces 4,
      amount, origin.userName, reference, name].map List.length = dataWidths := by
    simp [hsortLength, haccountLength, hamountLength, hfits.sort, hfits.account, hfits.userName,
      (bacsText_eq_ok hreference).2.2, (bacsText_eq_ok hname).2.2, spaces, dataWidths]
  have hpence : readNumber 35 11 _ = p.amountCents.toNat :=
    readNumber_of_lengths (k := 7) hlengths (congrArg some hamount) rfl rfl
  have hreferenceRead : readAt 64 18 _ = reference :=
    readAt_of_lengths (k := 9) hlengths rfl rfl rfl
  have hnameRead : readAt 82 18 _ = name := readAt_of_lengths (k := 10) hlengths rfl rfl rfl
  refine ⟨hpos, ?_, readAt_of_lengths (k := 3) hlengths rfl rfl rfl, ?_,
    readAt_of_lengths (k := 8) hlengths rfl rfl rfl, ?_, ?_⟩
  · rw [length_flatten, hlengths]
    rfl
  · simp only [readCredit, expectedCredit, CreditReading.mk.injEq]
    refine ⟨(readAt_of_lengths (k := 0) hlengths rfl rfl rfl).trans hsort,
      (readAt_of_lengths (k := 1) hlengths rfl rfl rfl).trans haccount, ?_⟩
    rw [hpence, Int.toNat_of_nonneg hpos.le]
  · rw [← isBlank_bacsText hreference, hreferenceRead]
  · rw [← isBlank_bacsText hname, hnameRead]

variable {total : ℤ}

theorem contraRecord_reads (hfits : origin.Fits) (h : contraRecord origin total = .ok record) :
    record.length = 100 ∧ readAt 15 2 record = "17".toList ∧ (readNumber 35 11 record : ℤ) = total ∧
      readAt 46 18 record = origin.userName ∧ isBlank (readAt 64 18 record) = false ∧
      readAt 82 18 record = origin.userName := by
  simp only [contraRecord, bind_eq_ok] at h
  obtain ⟨amount, hamount, hrecord⟩ := h
  obtain ⟨hpos, hamount, hamountLength⟩ := pence_eq_ok hamount
  obtain rfl := bacsRecord_eq_ok hrecord
  have hlengths : [origin.sort, origin.account, "0".toList, "17".toList, origin.sort,
      origin.account, spaces 4, amount, origin.userName, "CONTRA".toList ++ spaces 12,
      origin.userName].map List.length = dataWidths := by
    simp [hamountLength, hfits.sort, hfits.account, hfits.userName, spaces, dataWidths]
  have hpence : readNumber 35 11 _ = total.toNat :=
    readNumber_of_lengths (k := 7) hlengths (congrArg some hamount) rfl rfl
  have hmark : readAt 64 18 _ = "CONTRA".toList ++ spaces 12 :=
    readAt_of_lengths (k := 9) hlengths rfl rfl rfl
  refine ⟨?_, readAt_of_lengths (k := 3) hlengths rfl rfl rfl, ?_,
    readAt_of_lengths (k := 8) hlengths rfl rfl rfl, ?_,
    readAt_of_lengths (k := 10) hlengths rfl rfl rfl⟩
  · rw [length_flatten, hlengths]
    rfl
  · rw [hpence, Int.toNat_of_nonneg hpos.le]
  · rw [hmark]
    decide

theorem utl1Record_reads {count : ℕ} (h : utl1Record total count = .ok record)
    (hcount : (zeroPadded 7 count).length = 7) :
    record.length = 80 ∧ (readNumber 4 13 record : ℤ) = total ∧
      (readNumber 17 13 record : ℤ) = total ∧ readNumber 37 7 record = count := by
  simp only [utl1Record, bind_eq_ok] at h
  obtain ⟨debit, hdebit, credit, hcredit, hrecord⟩ := h
  obtain ⟨hpos, hdebit, hdebitLength⟩ := pence_eq_ok hdebit
  obtain ⟨-, hcredit, hcreditLength⟩ := pence_eq_ok hcredit
  obtain rfl := bacsRecord_eq_ok hrecord
  have hlengths : ["UTL1".toList, debit, credit, "0000001".toList, zeroPadded 7 count, spaces 10,
      spaces 26].map List.length = [4, 13, 13, 7, 7, 10, 26] := by
    simp [hdebitLength, hcreditLength, hcount, spaces]
  have hdebitRead : readNumber 4 13 _ = total.toNat :=
    readNumber_of_lengths (k := 1) hlengths (congrArg some hdebit) rfl rfl
  have hcreditRead : readNumber 17 13 _ = total.toNat :=
    readNumber_of_lengths (k := 2) hlengths (congrArg some hcredit) rfl rfl
  refine ⟨?_, ?_, ?_, readNumber_of_lengths (k := 4) hlengths rfl rfl rfl⟩
  · rw [length_flatten, hlengths]
    rfl
  · rw [hdebitRead, Int.toNat_of_nonneg hpos.le]
  · rw [hcreditRead, Int.toNat_of_nonneg hpos.le]

/-! ### Reading a file back -/

/-- The records of a file say what the run said. -/
structure BacsDecodes (run : BacsRun) (records : List (List Char)) : Prop where
  layout : ∃ vol1 hdr1 hdr2 uhl1 details contra eof1 eof2 utl1,
    records = [vol1, hdr1, hdr2, uhl1] ++ details ++ [contra, eof1, eof2, utl1] ∧
    (∀ r ∈ [vol1, hdr1, hdr2, uhl1, eof1, eof2, utl1], r.length = 80) ∧
    (∀ r ∈ details ++ [contra], r.length = 100) ∧
    (eof1.drop 4 = hdr1.drop 4 ∧ eof2.drop 4 = hdr2.drop 4) ∧
    readAt 15 2 contra = "17".toList ∧
    (readNumber 35 11 contra : ℤ) = (run.payments.map BacsPayment.amountCents).sum ∧
    (readNumber 4 13 utl1 : ℤ) = (run.payments.map BacsPayment.amountCents).sum ∧
    (readNumber 17 13 utl1 : ℤ) = (run.payments.map BacsPayment.amountCents).sum ∧
    readNumber 37 7 utl1 = run.payments.length
  credits : (creditRecords records).map readCredit = run.payments.map expectedCredit

/-- No name field of a data record is blank. -/
def NamesWritten (records : List (List Char)) : Prop :=
  ∀ r ∈ records, r.length = 100 → isBlank (readAt 46 18 r) = false ∧
    isBlank (readAt 64 18 r) = false ∧ isBlank (readAt 82 18 r) = false

/-- A name with a letter, a digit or one of `. & / -` among the first eighteen characters of
its ASCII fold. -/
def NameSurvives (nfkd : Char → List Char) (value : List Char) : Prop :=
  ∃ c ∈ (foldedText nfkd value).take 18, isBacsMark c = true

/-- Every name of a run is such a name. -/
def NamesSurvive (nfkd : Char → List Char) (run : BacsRun) : Prop :=
  NameSurvives nfkd (trim run.settings.serviceUserName) ∧
    ∀ p ∈ run.payments, NameSurvives nfkd p.reference ∧ NameSurvives nfkd p.accountName

theorem validateBacsSettings_eq_ok {s s' : BacsSettings} (h : validateBacsSettings s = .ok s') :
    s'.serviceUserNumber.length = 6 ∧ s'.serviceUserName = trim s.serviceUserName := by
  simp only [validateBacsSettings, bind_eq_ok, pure_eq_ok, refuseIf_eq_ok, ne_eq, not_not,
    append_eq_nil_iff] at h
  obtain ⟨_, ⟨⟨⟨⟨hunset, hnumber⟩, -⟩, -⟩, -⟩, rfl⟩ := h
  rw [hunset] at hnumber
  simp only [contains_nil, Bool.not_false, Bool.true_and, ite_eq_right_iff, reduceCtorEq,
    imp_false, Bool.not_eq_true', Bool.not_eq_false] at hnumber
  obtain ⟨⟨hlow, hhigh⟩, -⟩ := isDigits_iff.mp hnumber
  exact ⟨by simp only; omega, rfl⟩

variable {volSerial : List Char}

theorem length_serial {u : Unit} (h : checkSerial volSerial = .ok u) : volSerial.length = 6 := by
  rw [checkSerial, refuseIf_eq_ok, not_or, not_not] at h
  exact h.1.1

theorem length_labels {s : BacsSettings}
    {creation expiry processing fileNumber vol1 hdr1 hdr2 uhl1 : List Char}
    (hnumber : s.serviceUserNumber.length = 6) (hserial : volSerial.length = 6)
    (hcreation : creation.length = 6) (hexpiry : expiry.length = 6)
    (hprocessing : processing.length = 6) (hfile : fileNumber.length = 3)
    (hvol1 : vol1Record s volSerial = .ok vol1)
    (hhdr1 : hdr1Record s volSerial creation expiry = .ok hdr1) (hhdr2 : hdr2Record = .ok hdr2)
    (huhl1 : uhl1Record processing fileNumber = .ok uhl1) :
    vol1.length = 80 ∧ hdr1.length = 80 ∧ hdr2.length = 80 ∧ uhl1.length = 80 := by
  obtain rfl := bacsRecord_eq_ok hvol1
  obtain rfl := bacsRecord_eq_ok hhdr1
  obtain rfl := bacsRecord_eq_ok hhdr2
  obtain rfl := bacsRecord_eq_ok huhl1
  simp [spaces, hnumber, hserial, hcreation, hexpiry, hprocessing, hfile]

theorem eofRecord_reads {label : String} {header : List Char}
    (h : eofRecord label header = .ok record) (hlabel : label.toList.length = 4)
    (hheader : header.length = 80) : record.length = 80 ∧ record.drop 4 = header.drop 4 := by
  obtain rfl := bacsRecord_eq_ok h
  constructor
  · simp [hlabel, hheader]
  · rw [flatten_cons, drop_left' hlabel]
    simp

variable {labels details trailers : List (List Char)} {contra : List Char}

theorem creditRecords_eq (hlabels : ∀ r ∈ labels, r.length = 80)
    (htrailers : ∀ r ∈ trailers, r.length = 80)
    (hdetails : ∀ r ∈ details, r.length = 100 ∧ readAt 15 2 r = "99".toList)
    (hcontra : readAt 15 2 contra = "17".toList) :
    creditRecords (labels ++ details ++ contra :: trailers) = details := by
  have hnone : ∀ rs : List (List Char), (∀ r ∈ rs, r.length = 80) → creditRecords rs = [] := by
    intro rs hrs
    refine filter_eq_nil_iff.mpr fun r hr => ?_
    simp [hrs r hr]
  have hall : creditRecords details = details :=
    filter_eq_self.mpr fun r hr => by simp [hdetails r hr]
  have hskip : creditRecords (contra :: trailers) = [] := by
    rw [creditRecords, filter_cons_of_neg (by simp [hcontra])]
    exact hnone trailers htrailers
  rw [creditRecords, filter_append, filter_append]
  change creditRecords labels ++ creditRecords details ++ creditRecords (contra :: trailers) = _
  rw [hnone labels hlabels, hall, hskip, nil_append, append_nil]

/-- **The names of a file are written exactly when they survive the channel.** -/
theorem namesWritten_iff {payments : List BacsPayment} {user : List Char}
    (hlabels : ∀ r ∈ labels, r.length = 80) (htrailers : ∀ r ∈ trailers, r.length = 80)
    (hfits : origin.Fits)
    (hrun : List.Forall₂ (fun p r => bacsDetail nfkd origin p = .ok r) payments details)
    (hcontra : contraRecord origin total = .ok contra)
    (huser : isBlank origin.userName = false ↔ NameSurvives nfkd user) :
    NamesWritten (labels ++ details ++ contra :: trailers) ↔ NameSurvives nfkd user ∧
      ∀ p ∈ payments, NameSurvives nfkd p.reference ∧ NameSurvives nfkd p.accountName := by
  obtain ⟨hlength, -, -, hcontraUser, hmark, hcontraName⟩ := contraRecord_reads hfits hcontra
  constructor
  · intro hwritten
    have hcontraWritten := (hwritten contra (by simp) hlength).1
    rw [hcontraUser] at hcontraWritten
    refine ⟨huser.mp hcontraWritten, fun p hp => ?_⟩
    obtain ⟨r, hr, hdetail⟩ := exists_right_of_forall₂ hrun hp
    obtain ⟨-, hdetailLength, -, -, -, hreference, hname⟩ := bacsDetail_reads hfits hdetail
    obtain ⟨-, hreferenceWritten, hnameWritten⟩ := hwritten r (by simp [hr]) hdetailLength
    exact ⟨hreference.mp hreferenceWritten, hname.mp hnameWritten⟩
  · rintro ⟨hsurvives, hpayments⟩ r hr hdata
    have huserWritten := huser.mpr hsurvives
    rcases mem_append.mp hr with hr | hr
    · rcases mem_append.mp hr with hr | hr
      · rw [hlabels r hr] at hdata
        omega
      · obtain ⟨p, hp, hdetail⟩ := exists_left_of_forall₂ hrun hr
        obtain ⟨-, -, -, -, hdetailUser, hreference, hname⟩ := bacsDetail_reads hfits hdetail
        rw [hdetailUser]
        exact ⟨huserWritten, hreference.mpr (hpayments p hp).1, hname.mpr (hpayments p hp).2⟩
    · rcases mem_cons.mp hr with rfl | hr
      · rw [hcontraUser, hcontraName]
        exact ⟨huserWritten, hmark, huserWritten⟩
      · rw [htrailers r hr] at hdata
        omega

theorem bacsRecords_decodes {run : BacsRun} {records : List (List Char)}
    (h : bacsRecords nfkd run = .ok records) :
    BacsDecodes run records ∧ (NamesWritten records ↔ NamesSurvive nfkd run) := by
  simp only [bacsRecords, bind_eq_ok, pure_eq_ok, refuseIf_eq_ok, mapError_eq_ok] at h
  obtain ⟨s, hs, _, hne, _, hserial, _, hfile, originSort, hsort, originAccount, haccount, userName,
    huserName, creation, hcreation, processing, hprocessing, _, -, expiry, hexpiry, vol1, hvol1,
    hdr1, hhdr1, hdr2, hhdr2, uhl1, huhl1, details, hdetails, contra, hcontra, eof1, heof1, eof2,
    heof2, utl1, hutl1, _, hcount, rfl⟩ := h
  obtain ⟨hnumber, hname⟩ := validateBacsSettings_eq_ok hs
  have hfits : (⟨originSort, originAccount, userName⟩ : BacsOrigin).Fits :=
    ⟨(bacsSort_eq_ok hsort).2, (bacsAccount_eq_ok haccount).2, (bacsText_eq_ok huserName).2.2⟩
  simp only [not_or, Bool.not_eq_true', Bool.not_eq_false, isDigits_iff] at hfile hcount
  obtain ⟨hvolLength, hhdr1Length, hhdr2Length, huhl1Length⟩ := length_labels hnumber
    (length_serial hserial) (length_yyddd hcreation) (length_yyddd hexpiry)
    (length_yyddd hprocessing) (le_antisymm hfile.1.1.2 hfile.1.1.1) hvol1 hhdr1 hhdr2 huhl1
  obtain ⟨heof1Length, heof1Drop⟩ := eofRecord_reads heof1 rfl hhdr1Length
  obtain ⟨heof2Length, heof2Drop⟩ := eofRecord_reads heof2 rfl hhdr2Length
  obtain ⟨hutlLength, hdebit, hcredit, hcreditCount⟩ := utl1Record_reads hutl1
    (le_antisymm hcount.1.1.2 hcount.1.1.1)
  obtain ⟨hcontraLength, hcontraCode, hcontraTotal, hcontraUser, hcontraMark, hcontraName⟩ :=
    contraRecord_reads hfits hcontra
  have hrun := mapM_eq_ok.mp hdetails
  have hdetail : ∀ r ∈ details, r.length = 100 ∧ readAt 15 2 r = "99".toList := by
    intro r hr
    obtain ⟨p, -, hp⟩ := exists_left_of_forall₂ hrun hr
    exact ⟨(bacsDetail_reads hfits hp).2.1, (bacsDetail_reads hfits hp).2.2.1⟩
  have hlabels : ∀ r ∈ [vol1, hdr1, hdr2, uhl1], r.length = 80 := by
    simp [hvolLength, hhdr1Length, hhdr2Length, huhl1Length]
  have htrailers : ∀ r ∈ [eof1, eof2, utl1], r.length = 80 := by
    simp [heof1Length, heof2Length, hutlLength]
  have hdata : ∀ r ∈ details ++ [contra], r.length = 100 := by
    intro r hr
    rcases mem_append.mp hr with hr | hr
    · exact (hdetail r hr).1
    · rw [mem_singleton.mp hr, hcontraLength]
  refine ⟨⟨⟨vol1, hdr1, hdr2, uhl1, details, contra, eof1, eof2, utl1, rfl, fun r hr => ?_, hdata,
    ⟨heof1Drop, heof2Drop⟩, hcontraCode, hcontraTotal, hdebit, hcredit, hcreditCount⟩, ?_⟩, ?_⟩
  · exact (mem_append.mp (show r ∈ [vol1, hdr1, hdr2, uhl1] ++ [eof1, eof2, utl1] from hr)).elim
      (hlabels r) (htrailers r)
  · rw [creditRecords_eq hlabels htrailers hdetail hcontraCode]
    exact map_eq_map_of_forall₂ hrun expectedCredit readCredit
      fun p _ r _ hp => (bacsDetail_reads hfits hp).2.2.2.1
  · refine namesWritten_iff hlabels htrailers hfits hrun hcontra ?_
    rw [← hname]
    exact isBlank_bacsText huserName

/-- **A Bacs file can be read back, and its names are there exactly when they survive the
channel.** For every run the writer accepts, the labels and the data records have their
lengths, the credit records read as the payments, the totals and the count agree and the end
labels repeat the header labels; and no name field is blank if and only if the service user
name and every reference and account name has a letter, a digit or one of `. & / -` among the
first eighteen characters of its ASCII fold. -/
theorem buildBacsFile_names_iff (run : BacsRun) (file : List Char)
    (h : buildBacsFile nfkd run = .ok file) :
    ∃ records, file = fileText ['\r', '\n'] records ∧ BacsDecodes run records ∧
      (BacsDecodes run records ∧ NamesWritten records ↔ NamesSurvive nfkd run) := by
  rw [buildBacsFile, map_eq_ok] at h
  obtain ⟨records, hrecords, rfl⟩ := h
  obtain ⟨hdecodes, hnames⟩ := bacsRecords_decodes hrecords
  exact ⟨records, rfl, hdecodes, (and_iff_right hdecodes).trans hnames⟩

end Reading

/-- A submission of two credits; the name of the second account is a parameter. -/
def bacsSample (accountName : List Char) : BacsRun where
  settings :=
    { serviceUserNumber := " 123456 ".toList, originatingSortCode := "09 01 22".toList
      originatingAccount := "11223344".toList, serviceUserName := "Béton Ltd".toList }
  processingDate := "2024-12-27".toList
  creationDate := "2024-12-24".toList
  volSerial := "000042".toList
  fileNumber := "001".toList
  payments :=
    [⟨15050, "12-34-56".toList, "1234 5678".toList, "José".toList, "INV-1001".toList⟩,
      ⟨1, "654321".toList, "00000001".toList, accountName, "PAY".toList⟩]

theorem buildBacsFile_names_iff_sample :
    ∃ file records, buildBacsFile acuteNfkd (bacsSample "Ann".toList) = .ok file ∧
      file = fileText ['\r', '\n'] records ∧ BacsDecodes (bacsSample "Ann".toList) records ∧
      (BacsDecodes (bacsSample "Ann".toList) records ∧ NamesWritten records ↔
        NamesSurvive acuteNfkd (bacsSample "Ann".toList)) := by
  obtain ⟨file, hfile⟩ : ∃ file, buildBacsFile acuteNfkd (bacsSample "Ann".toList) = .ok file :=
    exists_of_isOk (by decide +kernel)
  obtain ⟨records, hrecords⟩ := buildBacsFile_names_iff (bacsSample "Ann".toList) file hfile
  exact ⟨file, records, hfile, hrecords⟩

/-- A name of number signs is accepted and written as spaces. -/
theorem numberSigns_blanked :
    ∃ records, buildBacsFile acuteNfkd (bacsSample "###".toList) =
        .ok (fileText ['\r', '\n'] records) ∧
      ∃ r ∈ creditRecords records, isBlank (readAt 82 18 r) = true := by
  obtain ⟨records, hrecords, hblank⟩ : ∃ records,
      bacsRecords acuteNfkd (bacsSample "###".toList) = .ok records ∧
        (creditRecords records).any (fun r => isBlank (readAt 82 18 r)) = true :=
    exists_of_any (by decide +kernel)
  refine ⟨records, by rw [buildBacsFile, hrecords]; rfl, ?_⟩
  simpa using hblank

end OpenBooks
