import OpenBooks.Payments.Bacs
import OpenBooks.Payments.ZenginKana
import Mathlib.Data.List.DropRight

/-!
# The Zengin salary-transfer file

`buildZenginFile` writes a header, a record for each transfer, a trailer and an end record, each of
120 characters and ended by a carriage return and a line feed; `encodeZenginFile` writes each
character in one Shift_JIS byte. What the bank reads at fixed byte offsets is what the run says
(`buildZenginFile_decodes`).

The originator's name is trimmed before it is folded, and is never blank. A payee's name is not: it
is checked to hold something, and cut to thirty characters afterwards. This is the only way to lose
one (`buildZenginFile_names_iff`).
-/

namespace OpenBooks

open Checked FixedWidth List

/-! ### Codes and account numbers -/

def normalizeBankCode (value : List Char) : Option (List Char) :=
  let digits := stripSeparators value
  if isDigits 4 4 digits then some digits else none

def normalizeBranchCode (value : List Char) : Option (List Char) :=
  let digits := stripSeparators value
  if isDigits 3 3 digits then some digits else none

/-- An account number of up to seven digits, not all zeros, filled with zeros. -/
def normalizeZenginAccount (value : List Char) : Option (List Char) :=
  let stripped := stripSeparators value
  if stripped = [] ∨ 7 < stripped.length ∨ !stripped.all Char.isDigit then none
  else if stripped.all (· = '0') then none
  else some (FixedWidth.padStart 7 '0' stripped)

/-! ### Settings and payments -/

structure ZenginSettings where
  clientCode : List Char
  clientName : List Char
  bankCode : List Char
  branchCode : List Char
  depositType : List Char
  accountNumber : List Char
  bankName : List Char
  branchName : List Char

structure ZenginPayment where
  amountYen : ℤ
  bankCode : List Char
  branchCode : List Char
  depositType : List Char
  accountNumber : List Char
  payeeName : List Char
  employeeNumber : List Char

structure ZenginRun where
  settings : ZenginSettings
  transferDate : List Char
  payments : List ZenginPayment

def zenginRequired (s : ZenginSettings) : List (String × List Char) :=
  [("clientCode", s.clientCode), ("clientName", s.clientName), ("bankCode", s.bankCode),
    ("branchCode", s.branchCode), ("depositType", s.depositType),
    ("accountNumber", s.accountNumber)]

/-- A name of the settings, folded; nothing if it is empty or too long. -/
def kanaField (value : List Char) (len : ℕ) : Option (List Char) := do
  let mapped ← toZenginKana (trim value)
  if mapped = [] then none
  else if len < width mapped then none
  else some mapped

/-- The settings normalized, or the names of those that are missing or malformed. -/
def validateZenginSettings (s : ZenginSettings) : Except (List String) ZenginSettings := do
  let unset := ((zenginRequired s).filter fun p => isUnset p.2).map Prod.fst
  let missing := unset ++
    (if !unset.contains "clientCode" && !isDigits 10 10 (trim s.clientCode) then
      ["clientCode (10-digit client code assigned by your bank)"] else []) ++
    (if !unset.contains "clientName" && (kanaField s.clientName 40).isNone then
      ["clientName (katakana originator name, max 40 half-width characters; kanji has no " ++
        "mechanical reading — register the kana name)"] else []) ++
    (if !unset.contains "bankCode" && (normalizeBankCode s.bankCode).isNone then
      ["bankCode (4-digit originating bank code)"] else []) ++
    (if !unset.contains "branchCode" && (normalizeBranchCode s.branchCode).isNone then
      ["branchCode (3-digit originating branch code)"] else []) ++
    (if !unset.contains "depositType" && trim s.depositType ≠ ['1'] &&
        trim s.depositType ≠ ['2'] then
      ["depositType (1 = 普通, 2 = 当座)"] else []) ++
    (if !unset.contains "accountNumber" && (normalizeZenginAccount s.accountNumber).isNone then
      ["accountNumber (1–7 digits, zero-filled to 7)"] else []) ++
    (if !isUnset s.bankName && (kanaField s.bankName 15).isNone then
      ["bankName (katakana, max 15 half-width characters, or blank)"] else []) ++
    (if !isUnset s.branchName && (kanaField s.branchName 15).isNone then
      ["branchName (katakana, max 15 half-width characters, or blank)"] else [])
  refuseIf (missing ≠ []) missing.eraseDups
  return {
    clientCode := trim s.clientCode
    clientName := (kanaField s.clientName 40).getD []
    bankCode := (normalizeBankCode s.bankCode).getD []
    branchCode := (normalizeBranchCode s.branchCode).getD []
    depositType := trim s.depositType
    accountNumber := (normalizeZenginAccount s.accountNumber).getD []
    bankName := if isUnset s.bankName then [] else (kanaField s.bankName 15).getD []
    branchName := if isUnset s.branchName then [] else (kanaField s.branchName 15).getD [] }

/-! ### Fields -/

def zenginNum (value : List Char) (len : ℕ) (what : String) : Except RailError (List Char) := do
  refuseIf (len < width value ∨ !value.all Char.isDigit) (RailError.payment
    ("Zengin " ++ what ++ " " ++ quoted value ++ " does not fit in " ++ toString len ++ " digits"))
  return FixedWidth.padStart len '0' value

def zenginText (value : List Char) (len : ℕ) (what : String) : Except RailError (List Char) := do
  refuseIf (len < width value) (RailError.payment
    ("Zengin " ++ what ++ " does not fit in " ++ toString len ++ " characters"))
  return padEnd len ' ' value

/-- An amount in yen, padded to a width. -/
def yen (value : ℤ) (len : ℕ) (what : String) : Except RailError (List Char) := do
  let digits := integerText value
  refuseIf (value ≤ 0) (RailError.payment "payment amounts must be positive")
  refuseIf (len < digits.length) (RailError.payment ("Zengin " ++ what ++ " " ++
    String.ofList digits ++ " yen does not fit in " ++ toString len ++
    " digits — split the pay run"))
  return FixedWidth.padStart len '0' digits

def zenginBank (value : List Char) (what : String) : Except RailError (List Char) :=
  orRefuse (normalizeBankCode value)
    (RailError.payment ("Zengin " ++ what ++ " " ++ quoted value ++ " is not a 4-digit bank code"))

def zenginBranch (value : List Char) (what : String) : Except RailError (List Char) :=
  orRefuse (normalizeBranchCode value) (RailError.payment
    ("Zengin " ++ what ++ " " ++ quoted value ++ " is not a 3-digit branch code"))

def zenginAccount (value : List Char) (what : String) : Except RailError (List Char) :=
  orRefuse (normalizeZenginAccount value) (RailError.payment
    ("Zengin " ++ what ++ " " ++ quoted value ++ " is not a 1–7 digit account number"))

def zenginDepositType (value : List Char) (what : String) : Except RailError (List Char) := do
  refuseIf (value ≠ ['1'] ∧ value ≠ ['2']) (RailError.payment
    ("Zengin " ++ what ++ " " ++ quoted value ++ " must be 1 (普通) or 2 (当座)"))
  return value

def mmdd (iso : List Char) : Except RailError (List Char) := do
  let date ← (parseIsoDate iso).mapError fun _ => .payment
    ("Zengin transfer date " ++ quoted iso ++ " is not a valid YYYY-MM-DD civil day")
  return zeroPadded 2 date.month ++ zeroPadded 2 date.day

/-! ### Records -/

/-- A record that is checked to be 120 characters wide. -/
def zenginRecord (fields : List (List Char)) (name : String) : Except RailError (List Char) := do
  let record := fields.flatten
  refuseIf (width record ≠ 120) (RailError.payment
    ("internal error: Zengin " ++ name ++ " record is not 120 characters"))
  return record

def zenginHeader (s : ZenginSettings) (transferDay : List Char) : Except RailError (List Char) := do
  let clientCode ← zenginNum s.clientCode 10 "client code"
  let clientName ← zenginText s.clientName 40 "client name"
  let bankCode ← zenginBank s.bankCode "originating bank code"
  let bankName ← zenginText s.bankName 15 "originating bank name"
  let branchCode ← zenginBranch s.branchCode "originating branch code"
  let branchName ← zenginText s.branchName 15 "originating branch name"
  let depositType ← zenginDepositType s.depositType "originating deposit type"
  let accountNumber ← zenginAccount s.accountNumber "originating account number"
  zenginRecord ["1".toList, "11".toList, "0".toList, clientCode, clientName, transferDay, bankCode,
    bankName, branchCode, branchName, depositType, accountNumber, spaces 17] "header"

/-- The record of one payment. -/
def zenginDetail (p : ZenginPayment) : Except RailError (List Char) := do
  let name := String.ofList p.payeeName
  let payee ← orRefuse ((toZenginKana p.payeeName).filter fun payee => trim payee ≠ [])
    (RailError.payment ("Zengin payee name " ++ quoted p.payeeName ++ " cannot be expressed in " ++
      "half-width katakana — register the payee's katakana name (フリガナ) on the employee's " ++
      "approved bank account"))
  let employee ← orRefuse (toZenginKana p.employeeNumber)
    (RailError.payment ("Zengin employee number " ++ quoted p.employeeNumber ++ " for " ++ name ++
      " cannot be expressed in half-width katakana"))
  let bankCode ← zenginBank p.bankCode ("destination bank code for " ++ name)
  let branchCode ← zenginBranch p.branchCode ("destination branch code for " ++ name)
  let depositType ← zenginDepositType p.depositType ("deposit type for " ++ name)
  let accountNumber ← zenginAccount p.accountNumber ("destination account for " ++ name)
  let amount ← yen p.amountYen 10 ("transfer to " ++ name)
  zenginRecord ["2".toList, bankCode, spaces 15, branchCode, spaces 15, "0000".toList, depositType,
    accountNumber, padEnd 30 ' ' (cut 30 payee), amount, "0".toList,
    padEnd 10 ' ' (cut 10 employee), spaces 10, spaces 9] "data"

/-- The record of the totals. -/
def zenginTrailer (count : ℕ) (total : ℤ) : Except RailError (List Char) := do
  let count ← zenginNum (Nat.toDigits 10 count) 6 "detail count"
  let total ← yen total 12 "trailer total"
  zenginRecord ["8".toList, count, total, spaces 101] "trailer"

def zenginEnd : Except RailError (List Char) := zenginRecord ["9".toList, spaces 119] "end"

def zenginRecords (run : ZenginRun) : Except RailError (List (List Char)) := do
  let s ← (validateZenginSettings run.settings).mapError fun missing => RailError.payment
    ("Zengin originator settings are invalid: " ++ ", ".intercalate missing)
  refuseIf (run.payments = []) (RailError.payment "run has no payments to export")
  refuseIf (200000 < run.payments.length) (RailError.payment
    ("Zengin file holds at most 200,000 detail records but the run has " ++
      toString run.payments.length ++ " — split the pay run"))
  let transferDay ← mmdd run.transferDate
  let header ← zenginHeader s transferDay
  let details ← run.payments.mapM zenginDetail
  let trailer ← zenginTrailer run.payments.length (run.payments.map ZenginPayment.amountYen).sum
  let finish ← zenginEnd
  return header :: (details ++ [trailer, finish])

/-- The file: its records, each ended by a carriage return and a line feed. -/
def buildZenginFile (run : ZenginRun) : Except RailError (List Char) :=
  fileText ['\r', '\n'] <$> zenginRecords run

/-! ### Bytes -/

/-- The Shift_JIS byte of a character that has one. -/
def zenginByte (c : Char) : Option ℕ :=
  if c = '\r' then some 0x0d
  else if c = '\n' then some 0x0a
  else if 0x20 ≤ c.toNat ∧ c.toNat ≤ 0x7e then some c.toNat
  else if isHalfKatakana c then some (c.toNat - 0xff61 + 0xa1)
  else none

def hexCode (c : Char) : String :=
  "U+" ++ String.ofList (FixedWidth.padStart 4 '0' ((Nat.toDigits 16 c.toNat).map Char.toUpper))

def encodeZenginFile (text : List Char) : Except RailError (List ℕ) :=
  text.mapM fun c => orRefuse (zenginByte c) (RailError.payment
    ("Zengin file contains " ++ hexCode c ++ " " ++ quoted [c] ++ ", which has no Shift_JIS " ++
      "single-byte form — names must be half-width katakana before encoding"))

/-- The character a reader shows for a byte. -/
def decodeZenginByte (b : ℕ) : Char :=
  if b ≤ 0x7e then Char.ofNat b else Char.ofNat (b - 0xa1 + 0xff61)

/-- Text of the channel, and of the layout around it. -/
def ZenginText (text : List Char) : Prop :=
  ∀ c ∈ text, isPrintable c = true ∨ isHalfKatakana c = true

instance (text : List Char) : Decidable (ZenginText text) :=
  List.decidableBAll (fun c => isPrintable c = true ∨ isHalfKatakana c = true) text

theorem zenginText_append {a b : List Char} :
    ZenginText (a ++ b) ↔ ZenginText a ∧ ZenginText b := by
  simp only [ZenginText, mem_append, or_imp, forall_and]

variable {fields : List (List Char)}

theorem zenginText_flatten : ZenginText fields.flatten ↔ ∀ field ∈ fields, ZenginText field := by
  simp only [ZenginText, mem_flatten]
  exact ⟨fun h field hf c hc => h c ⟨field, hf, hc⟩, fun h c ⟨field, hf, hc⟩ => h field hf c hc⟩

variable {text : List Char}

theorem zenginText_of_channel (h : ∀ c ∈ text, isZenginChannel c = true) : ZenginText text := by
  intro c hc
  have hc := h c hc
  simp only [isZenginChannel, Bool.or_eq_true, decide_eq_true_eq] at hc
  rcases hc with ((hcapital | hdigit) | hpunct) | hhalf
  · left
    have hrange : 65 ≤ c.toNat ∧ c.toNat ≤ 90 := of_decide_eq_true hcapital
    simp only [isPrintable, Bool.and_eq_true, decide_eq_true_eq]
    omega
  · exact .inl (isPrintable_of_isDigit hdigit)
  · have hall : ASCII_PUNCT.all isPrintable = true := by decide
    exact .inl (all_eq_true.mp hall c hpunct)
  · exact .inr hhalf

theorem zenginText_of_digits (h : ∀ c ∈ text, c.isDigit = true) :
    ZenginText text := fun c hc => .inl (isPrintable_of_isDigit (h c hc))

theorem zenginText_replicate (n : ℕ) : ZenginText (spaces n) := by
  intro c hc
  rw [eq_of_mem_replicate hc]
  exact .inl rfl

theorem zenginText_units (h : ZenginText text) : ∀ c ∈ text, units c = 1 := by
  intro c hc
  rcases h c hc with hc | hc
  · exact units_of_isPrintable hc
  · simp only [isHalfKatakana, Bool.and_eq_true, decide_eq_true_eq] at hc
    rw [units, if_neg (by omega)]

/-- **A character of the layout is one byte**, and the byte is the character. -/
theorem zenginByte_eq {c : Char} (h : isPrintable c = true ∨ isHalfKatakana c = true) :
    ∃ b, zenginByte c = some b ∧ b < 256 ∧ decodeZenginByte b = c := by
  have hreturn : ¬(isPrintable '\r' = true ∨ isHalfKatakana '\r' = true) := by decide
  have hfeed : ¬(isPrintable '\n' = true ∨ isHalfKatakana '\n' = true) := by decide
  have hne : c ≠ '\r' ∧ c ≠ '\n' := by
    constructor
    · rintro rfl
      exact hreturn h
    · rintro rfl
      exact hfeed h
  simp only [isPrintable, isHalfKatakana, Bool.and_eq_true, decide_eq_true_eq] at h
  rw [zenginByte, if_neg hne.1, if_neg hne.2]
  rcases h with hprint | hhalf
  · refine ⟨c.toNat, if_pos hprint, by omega, ?_⟩
    rw [decodeZenginByte, if_pos hprint.2, Char.ofNat_toNat]
  · refine ⟨c.toNat - 0xff61 + 0xa1, ?_, by omega, ?_⟩
    · rw [if_neg (by omega), if_pos (by simpa [isHalfKatakana] using hhalf)]
    · rw [decodeZenginByte, if_neg (by omega)]
      rw [show c.toNat - 0xff61 + 0xa1 - 0xa1 + 0xff61 = c.toNat by omega, Char.ofNat_toNat]

/-- The bytes of a record. -/
def encodedRecord (record : List Char) : List ℕ := record.map fun c => (zenginByte c).getD 0

/-- **Text of the layout is encoded character by character.** -/
theorem encodeZenginFile_of_text (h : ZenginText text) :
    encodeZenginFile text = .ok (encodedRecord text) := by
  induction text with
  | nil => rfl
  | cons c rest ih =>
    obtain ⟨hc, hrest⟩ := forall_mem_cons.mp h
    obtain ⟨b, hb, -, -⟩ := zenginByte_eq hc
    have hlater := ih hrest
    rw [encodeZenginFile] at hlater ⊢
    rw [mapM_cons, hb, hlater, encodedRecord, encodedRecord, map_cons, hb]
    rfl

/-- **The bytes show the text.** -/
theorem decode_encodedRecord (h : ZenginText text) :
    (encodedRecord text).map decodeZenginByte = text := by
  rw [encodedRecord, map_map]
  conv_rhs => rw [← map_id text]
  refine map_congr_left fun c hc => ?_
  obtain ⟨b, hb, -, hdecode⟩ := zenginByte_eq (h c hc)
  rw [Function.comp_apply, hb, Option.getD_some, hdecode, id_eq]

@[simp] theorem length_encodedRecord (record : List Char) :
    (encodedRecord record).length = record.length := length_map _

/-- The bytes of a file: its records, each ended by a carriage return and a line feed. -/
def fileBytes (records : List (List ℕ)) : List ℕ := (records.map (· ++ [0x0d, 0x0a])).flatten

theorem encodeZenginFile_append {a b : List Char} {bytesA bytesB : List ℕ}
    (ha : encodeZenginFile a = .ok bytesA) (hb : encodeZenginFile b = .ok bytesB) :
    encodeZenginFile (a ++ b) = .ok (bytesA ++ bytesB) := by
  rw [encodeZenginFile] at ha hb ⊢
  rw [mapM_append, ha, hb]
  rfl

variable {records : List (List Char)}

/-- **A file is encoded record by record.** -/
theorem encodeZenginFile_fileText (h : ∀ r ∈ records, ZenginText r) :
    encodeZenginFile (fileText ['\r', '\n'] records) =
      .ok (fileBytes (records.map encodedRecord)) := by
  induction records with
  | nil => rfl
  | cons r rest ih =>
    obtain ⟨hr, hrest⟩ := forall_mem_cons.mp h
    have hline : encodeZenginFile (r ++ ['\r', '\n']) = .ok (encodedRecord r ++ [0x0d, 0x0a]) :=
      encodeZenginFile_append (encodeZenginFile_of_text hr) rfl
    exact encodeZenginFile_append hline (ih hrest)

theorem fileBytes_injective {a b : List (List ℕ)} (ha : ∀ r ∈ a, r.length = 120)
    (hb : ∀ r ∈ b, r.length = 120) (h : fileBytes a = fileBytes b) : a = b := by
  induction a generalizing b with
  | nil =>
    cases b with
    | nil => rfl
    | cons r rest => simp [fileBytes] at h
  | cons r rest ih =>
    cases b with
    | nil => simp [fileBytes] at h
    | cons r' rest' =>
      obtain ⟨hr, hrest⟩ := forall_mem_cons.mp ha
      obtain ⟨hr', hrest'⟩ := forall_mem_cons.mp hb
      simp only [fileBytes, map_cons, flatten_cons] at h
      obtain ⟨hline, hlater⟩ := append_inj h (by simp [hr, hr'])
      rw [append_cancel_right hline, ih hrest hrest' hlater]

/-! ### What the fields hold -/

variable {t value : List Char} {what : String}

theorem zenginBank_eq_ok (h : zenginBank value what = .ok t) :
    t = stripSeparators value ∧ t.length = 4 ∧ ZenginText t := by
  simp only [zenginBank, orRefuse_eq_ok, normalizeBankCode, Option.ite_none_right_eq_some,
    Option.some.injEq, isDigits_iff] at h
  obtain ⟨⟨⟨hlow, hhigh⟩, hdigits⟩, rfl⟩ := h
  exact ⟨rfl, le_antisymm hhigh hlow, zenginText_of_digits hdigits⟩

theorem zenginBranch_eq_ok (h : zenginBranch value what = .ok t) :
    t = stripSeparators value ∧ t.length = 3 ∧ ZenginText t := by
  simp only [zenginBranch, orRefuse_eq_ok, normalizeBranchCode, Option.ite_none_right_eq_some,
    Option.some.injEq, isDigits_iff] at h
  obtain ⟨⟨⟨hlow, hhigh⟩, hdigits⟩, rfl⟩ := h
  exact ⟨rfl, le_antisymm hhigh hlow, zenginText_of_digits hdigits⟩

theorem padStart_of_digits {len : ℕ} (hdigits : ∀ c ∈ value, c.isDigit = true)
    (hfit : value.length ≤ len) :
    (FixedWidth.padStart len '0' value).length = len ∧
      ZenginText (FixedWidth.padStart len '0' value) := by
  refine ⟨?_, zenginText_of_digits fun c hc => ?_⟩
  · rw [FixedWidth.padStart, length_append, length_replicate, width_of_digits hdigits]
    omega
  · rcases mem_append.mp hc with hc | hc
    · rw [eq_of_mem_replicate hc]
      rfl
    · exact hdigits c hc

theorem zenginAccount_eq_ok (h : zenginAccount value what = .ok t) :
    t = FixedWidth.padStart 7 '0' (stripSeparators value) ∧ t.length = 7 ∧ ZenginText t := by
  simp only [zenginAccount, orRefuse_eq_ok, normalizeZenginAccount] at h
  split_ifs at h with hshape hzeros
  cases h
  simp only [not_or, not_lt, Bool.not_eq_true', Bool.not_eq_false, all_eq_true] at hshape
  obtain ⟨-, hlength, hdigits⟩ := hshape
  exact ⟨rfl, padStart_of_digits hdigits hlength⟩

theorem zenginDepositType_eq_ok (h : zenginDepositType value what = .ok t) :
    t = value ∧ t.length = 1 ∧ ZenginText t := by
  simp only [zenginDepositType, bind_eq_ok, pure_eq_ok, refuseIf_eq_ok, not_and_or, not_not] at h
  obtain ⟨_, htype, rfl⟩ := h
  rcases htype with rfl | rfl
  · exact ⟨rfl, rfl, by simp [ZenginText, isPrintable]⟩
  · exact ⟨rfl, rfl, by simp [ZenginText, isPrintable]⟩

variable {len : ℕ}

theorem yen_eq_ok {value : ℤ} (h : yen value len what = .ok t) :
    0 < value ∧ t = zeroPadded len value.toNat ∧ t.length = len ∧ ZenginText t := by
  simp only [yen, bind_eq_ok, pure_eq_ok, refuseIf_eq_ok] at h
  obtain ⟨_, hpos, _, hfit, rfl⟩ := h
  have hpos : 0 < value := not_le.mp hpos
  rw [integerText_of_nonneg hpos.le] at hfit ⊢
  exact ⟨hpos, rfl, length_zeroPadded (not_lt.mp hfit),
    zenginText_of_digits (isDigit_zeroPadded len value.toNat)⟩

theorem zenginNum_eq_ok (h : zenginNum value len what = .ok t) :
    t = FixedWidth.padStart len '0' value ∧ t.length = len ∧ ZenginText t := by
  simp only [zenginNum, bind_eq_ok, pure_eq_ok, refuseIf_eq_ok, not_or, not_lt, Bool.not_eq_true',
    Bool.not_eq_false, all_eq_true] at h
  obtain ⟨_, ⟨hfit, hdigits⟩, rfl⟩ := h
  rw [width_of_digits hdigits] at hfit
  exact ⟨rfl, padStart_of_digits hdigits hfit⟩

theorem padEnd_of_text (h : ZenginText text) (hfit : text.length ≤ len) :
    (padEnd len ' ' text).length = len ∧ ZenginText (padEnd len ' ' text) := by
  have hwidth := width_of_single (zenginText_units h)
  constructor
  · rw [padEnd, length_append, length_replicate, hwidth]
    omega
  · rw [padEnd]
    exact zenginText_append.mpr ⟨h, zenginText_replicate _⟩

theorem isBlank_padEnd (len : ℕ) (text : List Char) :
    isBlank (padEnd len ' ' text) = isBlank text := by
  have hblank : (replicate (len - width text) ' ').all (· = ' ') = true :=
    all_eq_true.mpr fun c hc => decide_eq_true (eq_of_mem_replicate hc)
  rw [isBlank, padEnd, all_append, hblank, Bool.and_true, isBlank]

/-- **A name that is cut to its field.** -/
theorem cutName {half : List Char} (h : toZenginKana value = some half) (len : ℕ) :
    (padEnd len ' ' (cut len half)).length = len ∧ ZenginText (padEnd len ' ' (cut len half)) ∧
      (isBlank (padEnd len ' ' (cut len half)) = true ↔
        ∀ c ∈ value.take len, isWideBlank c = true) := by
  have htext := zenginText_of_channel (toZenginKana_mem h)
  rw [cut_of_single (zenginText_units htext)]
  have htake : ZenginText (half.take len) := fun c hc => htext c (mem_of_mem_take hc)
  obtain ⟨hlength, hpadded⟩ := padEnd_of_text htake (length_take_le len half)
  exact ⟨hlength, hpadded, by rw [isBlank_padEnd, isBlank_take_toZenginKana h]⟩

theorem mmdd_eq_ok {iso : List Char} (h : mmdd iso = .ok t) : t.length = 4 ∧ ZenginText t := by
  simp only [mmdd, bind_eq_ok, pure_eq_ok] at h
  obtain ⟨date, -, rfl⟩ := h
  have hmonth := date.month_mem
  have hday := date.day_le
  constructor
  · rw [length_append, length_zeroPadded_of_lt (by decide) (by omega),
      length_zeroPadded_of_lt (by decide) (by omega)]
  · exact zenginText_append.mpr ⟨zenginText_of_digits (isDigit_zeroPadded _ _),
      zenginText_of_digits (isDigit_zeroPadded _ _)⟩

theorem zenginRecord_eq_ok {name : String} (h : zenginRecord fields name = .ok t) :
    t = fields.flatten := by
  simp only [zenginRecord, bind_eq_ok, pure_eq_ok] at h
  obtain ⟨_, -, rfl⟩ := h
  rfl

/-! ### Reading the records back -/

/-- What a reader takes from a data record. -/
structure TransferReading where
  bankCode : List Char
  branchCode : List Char
  depositType : List Char
  accountNumber : List Char
  amountYen : ℤ

def readTransfer (record : List ℕ) : TransferReading :=
  let text := record.map decodeZenginByte
  { bankCode := readAt 1 4 text
    branchCode := readAt 20 3 text
    depositType := readAt 42 1 text
    accountNumber := readAt 43 7 text
    amountYen := readNumber 80 10 text }

/-- What the data record of a payment should read as. -/
def expectedTransfer (p : ZenginPayment) : TransferReading where
  bankCode := stripSeparators p.bankCode
  branchCode := stripSeparators p.branchCode
  depositType := p.depositType
  accountNumber := FixedWidth.padStart 7 '0' (stripSeparators p.accountNumber)
  amountYen := p.amountYen

/-- The records of a type, which is their first byte. -/
def bytesOfType (type : ℕ) (records : List (List ℕ)) : List (List ℕ) :=
  records.filter fun r => r.head? = some type

/-- What a file says, read at the offsets of the layout. -/
structure ZenginDecodes (run : ZenginRun) (records : List (List ℕ)) : Prop where
  count : records.length = run.payments.length + 3
  length : ∀ r ∈ records, r.length = 120
  transfers : (bytesOfType 0x32 records).map readTransfer = run.payments.map expectedTransfer
  trailer : ∃ trailer, bytesOfType 0x38 records = [trailer] ∧
    readNumber 1 6 (trailer.map decodeZenginByte) = run.payments.length ∧
    (readNumber 7 12 (trailer.map decodeZenginByte) : ℤ) =
      (run.payments.map ZenginPayment.amountYen).sum

/-- No client or payee name is blank. -/
def ZenginNamesWritten (records : List (List ℕ)) : Prop :=
  (∀ r ∈ bytesOfType 0x31 records, isBlank (readAt 14 40 (r.map decodeZenginByte)) = false) ∧
    ∀ r ∈ bytesOfType 0x32 records, isBlank (readAt 50 30 (r.map decodeZenginByte)) = false

variable {record : List Char} {p : ZenginPayment}

/-- **A data record and what it holds.** -/
theorem zenginDetail_reads (h : zenginDetail p = .ok record) :
    record.length = 120 ∧ ZenginText record ∧ record.head? = some '2' ∧
      readAt 1 4 record = stripSeparators p.bankCode ∧
      readAt 20 3 record = stripSeparators p.branchCode ∧
      readAt 42 1 record = p.depositType ∧
      readAt 43 7 record = FixedWidth.padStart 7 '0' (stripSeparators p.accountNumber) ∧
      (readNumber 80 10 record : ℤ) = p.amountYen ∧
      (isBlank (readAt 50 30 record) = true ↔ ∀ c ∈ p.payeeName.take 30, isWideBlank c = true) := by
  simp only [zenginDetail, bind_eq_ok, orRefuse_eq_ok] at h
  obtain ⟨payee, hpayee, employee, hemployee, bank, hbank, branch, hbranch, deposit, hdeposit,
    account, haccount, amount, hamount, hrecord⟩ := h
  obtain ⟨hbank, hbankLength, hbankText⟩ := zenginBank_eq_ok hbank
  obtain ⟨hbranch, hbranchLength, hbranchText⟩ := zenginBranch_eq_ok hbranch
  obtain ⟨hdeposit, hdepositLength, hdepositText⟩ := zenginDepositType_eq_ok hdeposit
  obtain ⟨haccount, haccountLength, haccountText⟩ := zenginAccount_eq_ok haccount
  obtain ⟨hpos, hamount, hamountLength, hamountText⟩ := yen_eq_ok hamount
  obtain ⟨hpayeeLength, hpayeeText, hpayeeBlank⟩ :=
    cutName (Option.filter_eq_some_iff.mp hpayee).1 30
  obtain ⟨hemployeeLength, hemployeeText, -⟩ := cutName hemployee 10
  obtain rfl := zenginRecord_eq_ok hrecord
  have hwidths : ["2".toList, bank, spaces 15, branch, spaces 15, "0000".toList, deposit, account,
      padEnd 30 ' ' (cut 30 payee), amount, "0".toList, padEnd 10 ' ' (cut 10 employee), spaces 10,
      spaces 9].map List.length = [1, 4, 15, 3, 15, 4, 1, 7, 30, 10, 1, 10, 10, 9] := by
    simp [hbankLength, hbranchLength, hdepositLength, haccountLength, hamountLength, hpayeeLength,
      hemployeeLength, spaces]
  have hnumber : readNumber 80 10 _ = p.amountYen.toNat :=
    readNumber_of_lengths (k := 9) hwidths (congrArg some hamount) rfl rfl
  have hpayeeRead : readAt 50 30 _ = padEnd 30 ' ' (cut 30 payee) :=
    readAt_of_lengths (k := 8) hwidths rfl rfl rfl
  refine ⟨?_, ?_, rfl, (readAt_of_lengths (k := 1) hwidths rfl rfl rfl).trans hbank,
    (readAt_of_lengths (k := 3) hwidths rfl rfl rfl).trans hbranch,
    (readAt_of_lengths (k := 6) hwidths rfl rfl rfl).trans hdeposit,
    (readAt_of_lengths (k := 7) hwidths rfl rfl rfl).trans haccount, ?_, ?_⟩
  · rw [length_flatten, hwidths]
    rfl
  · refine zenginText_flatten.mpr ?_
    simp only [forall_mem_cons]
    exact ⟨by decide, hbankText, zenginText_replicate 15, hbranchText, zenginText_replicate 15,
      by decide, hdepositText, haccountText, hpayeeText, hamountText, by decide, hemployeeText,
      zenginText_replicate 10, zenginText_replicate 9, by simp⟩
  · rw [hnumber, Int.toNat_of_nonneg hpos.le]
  · rw [hpayeeRead, hpayeeBlank]

/-- What was trimmed does not begin with white space. -/
theorem head_trim {c : Char} {rest : List Char} (h : trim value = c :: rest) :
    isJsWhitespace c = false := by
  have hprefix : trim value <+: value.dropWhile isJsWhitespace := rdropWhile_prefix _ _
  obtain ⟨more, hmore⟩ := hprefix
  rw [h, cons_append] at hmore
  have hhead := head?_dropWhile_not isJsWhitespace value
  rw [← hmore] at hhead
  simpa using hhead

/-- A name of the settings is on the channel, fits, and does not begin with a blank. -/
theorem kanaField_eq_some {mapped : List Char} (h : kanaField value len = some mapped) :
    ZenginText mapped ∧ mapped.length ≤ len ∧ isBlank mapped = false := by
  obtain ⟨half, hhalf, h⟩ := Option.bind_eq_some_iff.mp h
  split_ifs at h with hempty hfit
  obtain rfl := Option.some.inj h
  have htext := zenginText_of_channel (toZenginKana_mem hhalf)
  rw [width_of_single (zenginText_units htext)] at hfit
  refine ⟨htext, not_lt.mp hfit, ?_⟩
  cases htrim : trim value with
  | nil =>
    rw [htrim] at hhalf
    cases hhalf
    exact absurd rfl hempty
  | cons c rest =>
    have hspace := head_trim htrim
    have hwide : isWideBlank c = false := by
      rw [isWideBlank, Bool.or_eq_false_iff, decide_eq_false_iff_not, decide_eq_false_iff_not]
      constructor
      · rintro rfl
        exact absurd hspace (by decide)
      · rintro rfl
        exact absurd hspace (by decide)
    rw [htrim] at hhalf
    obtain ⟨first, later, hfirst, -, rfl⟩ := toZenginKana_cons.mp hhalf
    obtain ⟨d, more, rfl, hd⟩ := (zenginCharacter_folds hfirst).head hwide
    simp [isBlank, hd]

theorem optionalName (h : ¬(!isUnset value && (kanaField value 15).isNone) = true) :
    ZenginText (if isUnset value then [] else (kanaField value 15).getD []) ∧
      (if isUnset value then [] else (kanaField value 15).getD []).length ≤ 15 := by
  cases hunset : isUnset value with
  | true => exact ⟨by simp [ZenginText], by simp⟩
  | false =>
    cases hmapped : kanaField value 15 with
    | none => simp [hunset, hmapped] at h
    | some mapped =>
      obtain ⟨htext, hfits, -⟩ := kanaField_eq_some hmapped
      exact ⟨htext, hfits⟩

variable {s' : ZenginSettings}

theorem validateZenginSettings_eq_ok {s : ZenginSettings} (h : validateZenginSettings s = .ok s') :
    (ZenginText s'.clientName ∧ s'.clientName.length ≤ 40 ∧ isBlank s'.clientName = false) ∧
      (ZenginText s'.bankName ∧ s'.bankName.length ≤ 15) ∧
      ZenginText s'.branchName ∧ s'.branchName.length ≤ 15 := by
  simp only [validateZenginSettings, bind_eq_ok, pure_eq_ok, refuseIf_eq_ok, ne_eq, not_not,
    append_eq_nil_iff] at h
  obtain ⟨_, ⟨⟨⟨⟨⟨⟨⟨⟨hunset, -⟩, hname⟩, -⟩, -⟩, -⟩, -⟩, hbankName⟩, hbranchName⟩, rfl⟩ := h
  rw [hunset] at hname
  simp only [contains_nil, Bool.not_false, Bool.true_and, ite_eq_right_iff, reduceCtorEq,
    imp_false] at hname hbankName hbranchName
  obtain ⟨mapped, hmapped⟩ := Option.ne_none_iff_exists'.mp
    (show kanaField s.clientName 40 ≠ none by simpa using hname)
  obtain ⟨hbankText, hbankFits⟩ := optionalName hbankName
  obtain ⟨hbranchText, hbranchFits⟩ := optionalName hbranchName
  refine ⟨?_, ⟨hbankText, hbankFits⟩, hbranchText, hbranchFits⟩
  simp only [hmapped, Option.getD_some]
  exact kanaField_eq_some hmapped

theorem zenginText_eq_ok (hvalue : ZenginText value) (h : zenginText value len what = .ok t) :
    t.length = len ∧ ZenginText t ∧ isBlank t = isBlank value := by
  simp only [zenginText, bind_eq_ok, pure_eq_ok, refuseIf_eq_ok, not_lt] at h
  obtain ⟨_, hfit, rfl⟩ := h
  rw [width_of_single (zenginText_units hvalue)] at hfit
  obtain ⟨hlength, htext⟩ := padEnd_of_text hvalue hfit
  exact ⟨hlength, htext, isBlank_padEnd len value⟩

/-- **The header**, and the client name in it. -/
theorem zenginHeader_reads {s : ZenginSettings} {day : List Char}
    (hs : validateZenginSettings s = .ok s') (hday : day.length = 4 ∧ ZenginText day)
    (h : zenginHeader s' day = .ok record) :
    record.length = 120 ∧ ZenginText record ∧ record.head? = some '1' ∧
      isBlank (readAt 14 40 record) = false := by
  obtain ⟨⟨hnameText, -, hname⟩, ⟨hbankNameText, -⟩, hbranchNameText, -⟩ :=
    validateZenginSettings_eq_ok hs
  simp only [zenginHeader, bind_eq_ok] at h
  obtain ⟨code, hcode, clientName, hclientName, bank, hbank, bankName, hbankName, branch, hbranch,
    branchName, hbranchName, deposit, hdeposit, account, haccount, hrecord⟩ := h
  obtain ⟨-, hcodeLength, hcodeText⟩ := zenginNum_eq_ok hcode
  obtain ⟨hclientLength, hclientText, hclientBlank⟩ := zenginText_eq_ok hnameText hclientName
  obtain ⟨-, hbankLength, hbankText⟩ := zenginBank_eq_ok hbank
  obtain ⟨hbankNameLength, hbankNameText, -⟩ := zenginText_eq_ok hbankNameText hbankName
  obtain ⟨-, hbranchLength, hbranchText⟩ := zenginBranch_eq_ok hbranch
  obtain ⟨hbranchNameLength, hbranchNameText, -⟩ := zenginText_eq_ok hbranchNameText hbranchName
  obtain ⟨-, hdepositLength, hdepositText⟩ := zenginDepositType_eq_ok hdeposit
  obtain ⟨-, haccountLength, haccountText⟩ := zenginAccount_eq_ok haccount
  obtain rfl := zenginRecord_eq_ok hrecord
  have hwidths : ["1".toList, "11".toList, "0".toList, code, clientName, day, bank, bankName, branch,
      branchName, deposit, account, spaces 17].map List.length =
        [1, 2, 1, 10, 40, 4, 4, 15, 3, 15, 1, 7, 17] := by
    simp [hcodeLength, hclientLength, hday.1, hbankLength, hbankNameLength, hbranchLength,
      hbranchNameLength, hdepositLength, haccountLength, spaces]
  have hnameRead : readAt 14 40 _ = clientName :=
    readAt_of_lengths (k := 4) hwidths rfl rfl rfl
  refine ⟨?_, ?_, rfl, by rw [hnameRead, hclientBlank, hname]⟩
  · rw [length_flatten, hwidths]
    rfl
  · refine zenginText_flatten.mpr ?_
    simp only [forall_mem_cons]
    exact ⟨by decide, by decide, by decide, hcodeText, hclientText, hday.2, hbankText, hbankNameText,
      hbranchText, hbranchNameText, hdepositText, haccountText, zenginText_replicate 17, by simp⟩

theorem zenginTrailer_reads {count : ℕ} {total : ℤ} (h : zenginTrailer count total = .ok record) :
    record.length = 120 ∧ ZenginText record ∧ record.head? = some '8' ∧
      readNumber 1 6 record = count ∧ (readNumber 7 12 record : ℤ) = total := by
  simp only [zenginTrailer, bind_eq_ok] at h
  obtain ⟨digits, hdigits, amount, hamount, hrecord⟩ := h
  obtain ⟨hdigits, hdigitsLength, hdigitsText⟩ := zenginNum_eq_ok hdigits
  obtain ⟨hpos, hamount, hamountLength, hamountText⟩ := yen_eq_ok hamount
  obtain rfl := zenginRecord_eq_ok hrecord
  have hwidths : ["8".toList, digits, amount, spaces 101].map List.length = [1, 6, 12, 101] := by
    simp [hdigitsLength, hamountLength, spaces]
  have hcount : readNumber 1 6 _ = count :=
    readNumber_of_lengths (k := 1) hwidths (congrArg some hdigits) rfl rfl
  have htotal : readNumber 7 12 _ = total.toNat :=
    readNumber_of_lengths (k := 2) hwidths (congrArg some hamount) rfl rfl
  refine ⟨?_, ?_, rfl, hcount, by rw [htotal, Int.toNat_of_nonneg hpos.le]⟩
  · rw [length_flatten, hwidths]
    rfl
  · refine zenginText_flatten.mpr ?_
    simp only [forall_mem_cons]
    exact ⟨by decide, hdigitsText, hamountText, zenginText_replicate 101, by simp⟩

theorem zenginEnd_reads (h : zenginEnd = .ok record) :
    record.length = 120 ∧ ZenginText record ∧ record.head? = some '9' := by
  obtain rfl := zenginRecord_eq_ok h
  refine ⟨by simp [spaces], zenginText_flatten.mpr ?_, rfl⟩
  simp only [forall_mem_cons]
  exact ⟨by decide, zenginText_replicate 119, by simp⟩

/-! ### The file -/

theorem head?_encodedRecord {type : Char} {b : ℕ} (h : record.head? = some type)
    (hb : zenginByte type = some b) : (encodedRecord record).head? = some b := by
  rw [encodedRecord, head?_map, h, Option.map_some, hb, Option.getD_some]

theorem bytesOfType_eq_self {type : ℕ} {records : List (List ℕ)}
    (h : ∀ r ∈ records, r.head? = some type) : bytesOfType type records = records :=
  filter_eq_self.mpr fun r hr => decide_eq_true (h r hr)

theorem bytesOfType_eq_nil {type other : ℕ} (hne : other ≠ type) {records : List (List ℕ)}
    (h : ∀ r ∈ records, r.head? = some other) : bytesOfType type records = [] := by
  refine filter_eq_nil_iff.mpr fun r hr => ?_
  rw [h r hr, decide_eq_true_eq]
  exact fun heq => hne (Option.some.inj heq)

/-- A name with something other than a blank among its first thirty characters. -/
def PayeeSurvives (p : ZenginPayment) : Prop := ∃ c ∈ p.payeeName.take 30, isWideBlank c = false

theorem readTransfer_encodedRecord (h : zenginDetail p = .ok record) :
    (readTransfer ∘ encodedRecord) record = expectedTransfer p := by
  obtain ⟨-, htext, -, hbank, hbranch, hdeposit, haccount, hamount, -⟩ := zenginDetail_reads h
  simp only [Function.comp_apply, readTransfer, decode_encodedRecord htext, expectedTransfer, hbank,
    hbranch, hdeposit, haccount, hamount]

theorem payeeSurvives_iff (h : zenginDetail p = .ok record) :
    PayeeSurvives p ↔
      isBlank (readAt 50 30 ((encodedRecord record).map decodeZenginByte)) = false := by
  obtain ⟨-, htext, -, -, -, -, -, -, hblank⟩ := zenginDetail_reads h
  rw [decode_encodedRecord htext, ← Bool.not_eq_true, hblank, PayeeSurvives]
  push Not
  simp only [ne_eq, Bool.not_eq_true]

/-- **The records of a run**, and what they say. -/
theorem zenginRecords_decodes {run : ZenginRun} (h : zenginRecords run = .ok records) :
    (∀ r ∈ records, ZenginText r) ∧ ZenginDecodes run (records.map encodedRecord) ∧
      (ZenginNamesWritten (records.map encodedRecord) ↔ ∀ p ∈ run.payments, PayeeSurvives p) := by
  simp only [zenginRecords, bind_eq_ok, pure_eq_ok, refuseIf_eq_ok, mapError_eq_ok] at h
  obtain ⟨s, hs, _, -, _, -, day, hday, header, hheader, details, hdetails, trailer, htrailer,
    finish, hfinish, rfl⟩ := h
  obtain ⟨hheaderLength, hheaderText, hheaderType, hclient⟩ :=
    zenginHeader_reads hs (mmdd_eq_ok hday) hheader
  obtain ⟨htrailerLength, htrailerText, htrailerType, hcount, htotal⟩ :=
    zenginTrailer_reads htrailer
  obtain ⟨hfinishLength, hfinishText, hfinishType⟩ := zenginEnd_reads hfinish
  have hrun := mapM_eq_ok.mp hdetails
  have hdetail : ∀ r ∈ details, ∃ p ∈ run.payments, zenginDetail p = .ok r := fun r hr =>
    ListSum.exists_left_of_forall₂ hrun hr
  have hdetailType : ∀ r ∈ details.map encodedRecord, r.head? = some 0x32 := by
    intro r hr
    obtain ⟨text, htext, rfl⟩ := mem_map.mp hr
    obtain ⟨p, -, hp⟩ := hdetail text htext
    exact head?_encodedRecord (zenginDetail_reads hp).2.2.1 rfl
  have hheaderByte := head?_encodedRecord hheaderType (b := 0x31) rfl
  have htrailerByte := head?_encodedRecord htrailerType (b := 0x38) rfl
  have hfinishByte := head?_encodedRecord hfinishType (b := 0x39) rfl
  -- The records by their type.
  have hheaders : bytesOfType 0x31 ((header :: (details ++ [trailer, finish])).map encodedRecord) =
      [encodedRecord header] := by
    have hnone := bytesOfType_eq_nil (show 0x32 ≠ 0x31 by decide) hdetailType
    rw [bytesOfType] at hnone ⊢
    simp [hheaderByte, htrailerByte, hfinishByte, hnone]
  have htransfers : bytesOfType 0x32 ((header :: (details ++ [trailer, finish])).map encodedRecord) =
      details.map encodedRecord := by
    have hself := bytesOfType_eq_self hdetailType
    rw [bytesOfType] at hself ⊢
    simp [hheaderByte, htrailerByte, hfinishByte, hself]
  have htrailers : bytesOfType 0x38 ((header :: (details ++ [trailer, finish])).map encodedRecord) =
      [encodedRecord trailer] := by
    have hnone := bytesOfType_eq_nil (show 0x32 ≠ 0x38 by decide) hdetailType
    rw [bytesOfType] at hnone ⊢
    simp [hheaderByte, htrailerByte, hfinishByte, hnone]
  have htexts : ∀ r ∈ header :: (details ++ [trailer, finish]), ZenginText r ∧ r.length = 120 := by
    simp only [forall_mem_cons, forall_mem_append]
    refine ⟨⟨hheaderText, hheaderLength⟩, fun r hr => ?_, ⟨htrailerText, htrailerLength⟩,
      ⟨hfinishText, hfinishLength⟩, by simp⟩
    obtain ⟨p, -, hp⟩ := hdetail r hr
    exact ⟨(zenginDetail_reads hp).2.1, (zenginDetail_reads hp).1⟩
  refine ⟨fun r hr => (htexts r hr).1, ⟨?_, ?_, ?_, encodedRecord trailer, htrailers, ?_, ?_⟩, ?_⟩
  · simp [hrun.length_eq]
  · intro r hr
    obtain ⟨text, htext, rfl⟩ := mem_map.mp hr
    rw [length_encodedRecord, (htexts text htext).2]
  · rw [htransfers, map_map]
    exact ListSum.map_eq_map_of_forall₂ hrun expectedTransfer (readTransfer ∘ encodedRecord)
      fun p _ r _ hp => readTransfer_encodedRecord hp
  · rw [decode_encodedRecord htrailerText, hcount]
  · rw [decode_encodedRecord htrailerText, htotal]
  · rw [ZenginNamesWritten, hheaders, htransfers, forall_mem_singleton,
      decode_encodedRecord hheaderText, and_iff_right hclient]
    constructor
    · intro hwritten p hp
      obtain ⟨r, hr, hdetail⟩ := ListSum.exists_right_of_forall₂ hrun hp
      exact (payeeSurvives_iff hdetail).mpr (hwritten _ (mem_map_of_mem hr))
    · intro hsurvives b hb
      obtain ⟨r, hr, rfl⟩ := mem_map.mp hb
      obtain ⟨p, hp, hpr⟩ := hdetail r hr
      exact (payeeSurvives_iff hpr).mp (hsurvives p hp)

/-! ### The file in bytes -/

/-- The text is a file of one-byte characters that says what the run says, and no name of it is
blank. -/
def ZenginReadable (run : ZenginRun) (text : List Char) : Prop :=
  ∃ records, encodeZenginFile text = .ok (fileBytes records) ∧ ZenginDecodes run records ∧
    ZenginNamesWritten records

/-- The fold folds to itself, in one-byte characters. -/
def ZenginKanaSettles : Prop :=
  ∀ value half, toZenginKana value = some half → toZenginKana half = some half ∧
    ∀ c ∈ half, ∃ b < 256, encodeZenginFile [c] = .ok [b]

theorem zenginKanaSettles : ZenginKanaSettles := by
  intro value half h
  refine ⟨toZenginKana_idempotent h, fun c hc => ?_⟩
  obtain ⟨b, hb, hlt, -⟩ := zenginByte_eq (zenginText_of_channel (toZenginKana_mem h) c hc)
  refine ⟨b, hlt, ?_⟩
  rw [encodeZenginFile, mapM_cons, hb]
  rfl

/-- **A Zengin file is encoded and read back**, whatever its names. -/
theorem buildZenginFile_decodes {run : ZenginRun} (h : buildZenginFile run = .ok text) :
    ∃ records, encodeZenginFile text = .ok (fileBytes records) ∧ ZenginDecodes run records ∧
      (ZenginNamesWritten records ↔ ∀ p ∈ run.payments, PayeeSurvives p) := by
  rw [buildZenginFile, map_eq_ok] at h
  obtain ⟨records, hrecords, rfl⟩ := h
  obtain ⟨htexts, hdecodes, hnames⟩ := zenginRecords_decodes hrecords
  exact ⟨_, encodeZenginFile_fileText htexts, hdecodes, hnames⟩

/-- **A Zengin file is decodable byte by byte, and its names are there exactly when no payee's
begins with thirty blanks.** For every run the writer accepts. -/
theorem buildZenginFile_names_iff (run : ZenginRun) (text : List Char)
    (h : buildZenginFile run = .ok text) :
    (ZenginReadable run text ∧ ZenginKanaSettles) ↔ ∀ p ∈ run.payments, PayeeSurvives p := by
  obtain ⟨records, hencodes, hdecodes, hnames⟩ := buildZenginFile_decodes h
  rw [and_iff_left zenginKanaSettles, ← hnames]
  constructor
  · rintro ⟨records', hencodes', hdecodes', hnames'⟩
    obtain rfl : records = records' := by
      rw [hencodes] at hencodes'
      exact fileBytes_injective hdecodes.length hdecodes'.length (Except.ok.inj hencodes')
    exact hnames'
  · exact fun hnames => ⟨records, hencodes, hdecodes, hnames⟩

/-- A transfer; the name of the payee is a parameter. -/
def zenginPayment (payeeName : List Char) : ZenginPayment where
  amountYen := 250000
  bankCode := "00-05".toList
  branchCode := "123".toList
  depositType := "2".toList
  accountNumber := "765-4321".toList
  payeeName := payeeName
  employeeNumber := "E-7".toList

/-- A run of the transfer. -/
def zenginSample (payeeName : List Char) : ZenginRun where
  settings :=
    { clientCode := "1234567890".toList, clientName := "テスト（カ".toList
      bankCode := "0001".toList, branchCode := "001".toList, depositType := "1".toList
      accountNumber := "123456".toList, bankName := [], branchName := [] }
  transferDate := "2026-09-25".toList
  payments := [zenginPayment payeeName]

theorem buildZenginFile_names_iff_sample :
    ∃ text, buildZenginFile (zenginSample "ヤマダ　タロウ".toList) = .ok text ∧
      ((ZenginReadable (zenginSample "ヤマダ　タロウ".toList) text ∧ ZenginKanaSettles) ↔
        ∀ p ∈ (zenginSample "ヤマダ　タロウ".toList).payments, PayeeSurvives p) := by
  obtain ⟨text, htext⟩ : ∃ text,
      buildZenginFile (zenginSample "ヤマダ　タロウ".toList) = .ok text :=
    exists_of_isOk (by decide +kernel)
  exact ⟨text, htext, buildZenginFile_names_iff (zenginSample "ヤマダ　タロウ".toList) text htext⟩

/-- Thirty blanks and a name. -/
def indentedName : List Char := List.replicate 30 ' ' ++ "ヤマダ".toList

/-- A name behind thirty blanks is accepted and written as blanks. -/
theorem not_zenginReadable_indented :
    ¬∀ run text, buildZenginFile run = .ok text → ZenginReadable run text ∧ ZenginKanaSettles := by
  intro h
  obtain ⟨text, htext⟩ : ∃ text, buildZenginFile (zenginSample indentedName) = .ok text :=
    exists_of_isOk (by decide +kernel)
  obtain ⟨records, hencodes, hdecodes, hnames⟩ := buildZenginFile_decodes htext
  obtain ⟨⟨records', hencodes', hdecodes', hnames'⟩, -⟩ := h _ _ htext
  obtain rfl : records = records' := by
    rw [hencodes] at hencodes'
    exact fileBytes_injective hdecodes.length hdecodes'.length (Except.ok.inj hencodes')
  have hmem : zenginPayment indentedName ∈ (zenginSample indentedName).payments :=
    mem_singleton_self _
  obtain ⟨c, hc, hmark⟩ := hnames.mp hnames' _ hmem
  have hblank : (indentedName.take 30).all isWideBlank = true := by decide
  rw [all_eq_true.mp hblank c hc] at hmark
  cases hmark

end OpenBooks
