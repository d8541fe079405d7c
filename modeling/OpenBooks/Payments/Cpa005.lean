import OpenBooks.Payments.Nacha

/-!
# The CPA-005 credit file

`buildCpa005File` writes a file of 1464-character records: a header `A`, credit records `C` of up to
six 240-character segments, one segment for each payment, and a trailer `Z`.

**A file that is written can be read back** (`buildCpa005File_decodes`): the records are numbered
from 1, the credit records hold the segments six at a time, a segment says at its offsets what its
payment said, and the trailer carries the count and the total.
-/

namespace OpenBooks

open Checked FixedWidth List ListSum

/-! ### Settings and payments -/

structure EftSettings where
  originatorId : List Char
  originatorShortName : List Char
  originatorLongName : List Char
  dataCentre : List Char
  originatingDataCentre : List Char
  institution : List Char
  transit : List Char
  account : List Char
  transactionCode : Option (List Char) := none

structure Cpa005Payment where
  amountCents : ℤ
  fundsDate : List Char
  institution : List Char
  transit : List Char
  accountNumber : List Char
  payeeName : List Char
  crossReference : List Char

structure Cpa005Run where
  settings : EftSettings
  fileCreationNumber : ℤ
  fileCreationDate : List Char
  payments : List Cpa005Payment

def RECORD_LEN : ℕ := 1464

def SEGMENTS_PER_RECORD : ℕ := 6

def SEGMENT_LEN : ℕ := 240

/-! ### Fields -/

/-- Text cut and padded to its field. -/
def alpha (value : List Char) (len : ℕ) : List Char := padEnd len ' ' (cut len value)

/-- The spelling of a number in a field, refused where it is negative or does not fit. -/
def numText (s : List Char) (negative : Bool) (len : ℕ) : Except RailError (List Char) := do
  refuseIf (len < s.length ∨ negative) (RailError.payment
    ("numeric field value " ++ String.ofList s ++ " does not fit in " ++ toString len ++ " digits"))
  return FixedWidth.padStart len '0' s

def num (value : ℤ) (len : ℕ) : Except RailError (List Char) :=
  numText (integerText value) (value < 0) len

/-- The spelling of the number a text denotes, and whether that is negative. Only the
reading of a run of digits is spelled out; `other` is the reading of any other text. -/
def numberText (other : List Char → List Char × Bool) (text : List Char) : List Char × Bool :=
  if isDigits 1 15 text then (Nat.toDigits 10 (Nat.ofDigitChars 10 text 0), false) else other text

/-- A day as `0YYDDD`. -/
def julianDay (date : CivilDate) : List Char :=
  '0' :: zeroPadded 2 (date.year % 100) ++ zeroPadded 3 (dayOfYear date)

/-- A civil day as the file writes it, or the refusal of a text that is none. -/
def julian (iso : List Char) (what : String) : Except RailError (List Char) := do
  let parsed ← (parseIsoDate iso).mapError fun _ => .payment
    ("CPA-005 " ++ what ++ " " ++ quoted iso ++ " is not a valid YYYY-MM-DD civil day")
  return julianDay parsed

def itemTraceNumber (destinationDataCentre originatingDataCentre : List Char)
    (fileCreationNumber itemSequence : ℤ) : Except RailError (List Char) := do
  refuseIf (!isDigits 5 5 destinationDataCentre) (RailError.payment
    ("destination data centre " ++ quoted destinationDataCentre ++ " must be 5 digits"))
  refuseIf (!isDigits 5 5 originatingDataCentre ∨ Nat.ofDigitChars 10 originatingDataCentre 0 = 0)
    (RailError.payment ("originating direct clearer's data centre " ++
      quoted originatingDataCentre ++ " must be 5 digits and greater than zero"))
  refuseIf (fileCreationNumber < 1)
    (RailError.payment "item trace number requires a file creation number above zero")
  refuseIf (itemSequence < 1)
    (RailError.payment "item trace number requires an item sequence above zero")
  let creation ← num fileCreationNumber 4
  let sequence ← num itemSequence 9
  let trace := destinationDataCentre.take 4 ++ originatingDataCentre ++ creation ++ sequence
  refuseIf (width trace ≠ 22)
    (RailError.payment "internal error: CPA-005 item trace number is not 22 characters")
  return trace

/-- The nine digits of an institution and a transit. -/
def institutionalId (institution transit : List Char) : Except RailError (List Char) := do
  refuseIf (!isDigits 3 3 institution)
    (RailError.payment ("institution " ++ quoted institution ++ " must be 3 digits"))
  refuseIf (!isDigits 5 5 transit)
    (RailError.payment ("transit " ++ quoted transit ++ " must be 5 digits"))
  return '0' :: institution ++ transit

/-! ### Records -/

/-- The texts that the header of a run fixes for all its segments. -/
structure Cpa005Header where
  originatorId : List Char
  originatorShortName : List Char
  originatorLongName : List Char
  txnType : List Char
  returnRouting : List Char
  returnAccount : List Char

section Records

variable (nfkd : Char → List Char) (other : List Char → List Char × Bool)

def cpa005Segment (run : Cpa005Run) (head : Cpa005Header) (p : Cpa005Payment × ℕ) :
    Except RailError (List Char) := do
  refuseIf (p.1.amountCents ≤ 0) (RailError.payment "payment amounts must be positive")
  refuseIf (trim p.1.accountNumber = [])
    (RailError.payment "payee account number must not be blank")
  refuseIf (12 < width p.1.accountNumber)
    (RailError.payment "payee account number must be 12 characters or fewer")
  refuseIf (19 < width p.1.crossReference)
    (RailError.payment "cross-reference must be 19 characters or fewer")
  let amount ← num p.1.amountCents 10
  let fundsDate ← julian p.1.fundsDate "funds date"
  let routing ← institutionalId p.1.institution p.1.transit
  let trace ← itemTraceNumber run.settings.dataCentre run.settings.originatingDataCentre
    run.fileCreationNumber (p.2 + 1)
  let payeeName ← asciiRailText nfkd p.1.payeeName "CPA-005" "payee name" PAYEE_NAME_REMEDY
  return [head.txnType, amount, fundsDate, routing, alpha p.1.accountNumber 12, trace,
    List.replicate 3 '0', head.originatorShortName, alpha payeeName 30, head.originatorLongName,
    head.originatorId, alpha p.1.crossReference 19, head.returnRouting, head.returnAccount,
    List.replicate 15 ' ', List.replicate 22 ' ', List.replicate 2 ' ',
    List.replicate 11 '0'].flatten

/-- The second pass over the segments. -/
def checkSegment (segment : List Char) : Except RailError Unit :=
  refuseIf (width segment ≠ SEGMENT_LEN)
    (RailError.payment "internal error: CPA-005 segment is not 240 characters")

/-- The slices of six that the loop over the credit records takes. -/
def sixes (segments : List (List Char)) : List (List (List Char)) :=
  (List.range ((segments.length + 5) / 6)).map fun k =>
    (segments.drop (SEGMENTS_PER_RECORD * k)).take SEGMENTS_PER_RECORD

def creditRecord (originControl : List Char) (p : List (List Char) × ℕ) :
    Except RailError (List Char) := do
  let number ← num (p.2 + 2) 9
  return padEnd RECORD_LEN ' ' [['C'], number, originControl, p.1.flatten].flatten

def headerRecord (run : Cpa005Run) (originControl creationJulian : List Char) :
    Except RailError (List Char) := do
  let number ← num 1 9
  let dataCentre := numberText other run.settings.dataCentre
  let centre ← numText dataCentre.1 dataCentre.2 5
  return padEnd RECORD_LEN ' ' [['A'], number, originControl, creationJulian, centre,
    List.replicate 20 ' ', "CAD".toList].flatten

def trailerRecord (run : Cpa005Run) (originControl : List Char) (recordCount : ℕ) :
    Except RailError (List Char) := do
  let number ← num recordCount 9
  let noValue ← num 0 14
  let noCount ← num 0 8
  let totalValue ← num (run.payments.map Cpa005Payment.amountCents).sum 14
  let count ← num run.payments.length 8
  return padEnd RECORD_LEN ' ' [['Z'], number, originControl, noValue, noCount, totalValue, count,
    noValue, noCount, noValue, noCount].flatten

/-- The last check of every record. -/
def checkCpa005Record (p : List Char × ℕ) : Except RailError Unit := do
  refuseIf (width p.1 ≠ RECORD_LEN)
    (RailError.payment "internal error: CPA-005 record is not 1464 characters")
  refuseIf (¬Printable p.1) (RailError.payment ("CPA-005 record " ++ toString (p.2 + 1) ++
    " contains a character with no ASCII form, which would shift every field after it — " ++
    "edit the account number, cross-reference or originator settings on that record to ASCII"))

/-- A header, the credits six to a record, and a trailer. -/
def cpa005Records (run : Cpa005Run) : Except RailError (List (List Char)) := do
  let s := run.settings
  refuseIf (run.fileCreationNumber < 1 ∨ 9999 < run.fileCreationNumber)
    (RailError.payment "file creation number must be 1–9999")
  refuseIf (run.payments = []) (RailError.payment "run has no payments to export")
  let originator := fun (value : List Char) (field : String) =>
    asciiRailText nfkd value "CPA-005" field ORIGINATOR_REMEDY
  let id ← originator s.originatorId "originator id"
  let shortName ← originator s.originatorShortName "originator short name"
  let longName ← originator s.originatorLongName "originator long name"
  let fileCreationNo ← num run.fileCreationNumber 4
  let originControl := alpha id 10 ++ fileCreationNo
  let creationJulian ← julian run.fileCreationDate "file creation date"
  refuseIf (s.transactionCode.any fun code => !isDigits 3 3 code) (RailError.payment
    ("CPA-005 transaction code override must be three digits; omit it to use the standard " ++
      "460 code"))
  let header ← headerRecord other run originControl creationJulian
  let returnRouting ← institutionalId s.institution s.transit
  let head : Cpa005Header := {
    originatorId := alpha id 10, originatorShortName := alpha shortName 15
    originatorLongName := alpha longName 30, txnType := s.transactionCode.getD "460".toList
    returnRouting := returnRouting, returnAccount := alpha s.account 12 }
  let segments ← run.payments.zipIdx.mapM (cpa005Segment nfkd run head)
  let _ ← segments.mapM checkSegment
  let credits ← (sixes segments).zipIdx.mapM (creditRecord originControl)
  let trailer ← trailerRecord run originControl (credits.length + 2)
  let records := [header] ++ credits ++ [trailer]
  let _ ← records.zipIdx.mapM checkCpa005Record
  return records

/-- The file: its records, each ended by a carriage return and a line feed. -/
def buildCpa005File (run : Cpa005Run) : Except RailError (List Char) :=
  fileText ['\r', '\n'] <$> cpa005Records nfkd other run

end Records

/-! ### What the fields hold -/

theorem width_alpha (value : List Char) (len : ℕ) : width (alpha value len) = len :=
  width_padEnd rfl (width_cut_le len value)

variable {t : List Char}

theorem num_eq_ok {value : ℤ} {len : ℕ} (h : num value len = .ok t) :
    0 ≤ value ∧ t = zeroPadded len value.toNat ∧ width t = len := by
  simp only [num, numText, bind_eq_ok, pure_eq_ok, refuseIf_eq_ok, not_or, decide_eq_true_eq,
    not_lt] at h
  obtain ⟨_, ⟨hfit, hnonneg⟩, rfl⟩ := h
  rw [integerText_of_nonneg hnonneg] at hfit ⊢
  exact ⟨hnonneg, rfl, (width_zeroPadded len _).trans (length_zeroPadded hfit)⟩

theorem width_isDigits {n : ℕ} {text : List Char} (h : isDigits n n text = true) :
    width text = n := by
  obtain ⟨⟨hlow, hhigh⟩, hdigits⟩ := isDigits_iff.mp h
  rw [width_of_digits hdigits]
  omega

theorem width_julianDay (date : CivilDate) : width (julianDay date) = 6 := by
  have hyear : (zeroPadded 2 (date.year % 100)).length = 2 :=
    length_zeroPadded_of_lt (by decide) (Nat.mod_lt _ (by decide))
  have hday : (zeroPadded 3 (dayOfYear date)).length = 3 :=
    length_zeroPadded_of_lt (by decide) (dayOfYear_lt date)
  rw [julianDay, cons_append, width_cons, width_append, width_zeroPadded, width_zeroPadded,
    hyear, hday]
  rfl

theorem julian_eq_ok {iso : List Char} {what : String} (h : julian iso what = .ok t) :
    ∃ date, isoCalendarDate iso = some date ∧ t = julianDay date := by
  simp only [julian, bind_eq_ok, pure_eq_ok, mapError_eq_ok, parseIsoDate, orRefuse_eq_ok] at h
  obtain ⟨date, hdate, rfl⟩ := h
  exact ⟨date, hdate, rfl⟩

theorem institutionalId_eq_ok {institution transit : List Char}
    (h : institutionalId institution transit = .ok t) :
    isDigits 3 3 institution = true ∧ isDigits 5 5 transit = true ∧
      t = '0' :: institution ++ transit := by
  simp only [institutionalId, bind_eq_ok, pure_eq_ok, refuseIf_eq_ok, Bool.not_eq_true',
    Bool.not_eq_false] at h
  obtain ⟨_, hinstitution, _, htransit, rfl⟩ := h
  exact ⟨hinstitution, htransit, rfl⟩

theorem itemTraceNumber_eq_ok {destination originating : List Char} {creation sequence : ℤ}
    (h : itemTraceNumber destination originating creation sequence = .ok t) :
    isDigits 5 5 destination = true ∧ ∃ before, width before = 13 ∧
      width (zeroPadded 9 sequence.toNat) = 9 ∧ t = before ++ zeroPadded 9 sequence.toNat := by
  simp only [itemTraceNumber, bind_eq_ok, pure_eq_ok, refuseIf_eq_ok] at h
  obtain ⟨_, hdestination, _, -, _, -, _, -, made, -, number, hnumber, _, hwidth, rfl⟩ := h
  obtain ⟨-, rfl, hnine⟩ := num_eq_ok hnumber
  refine ⟨by simpa using hdestination, _, ?_, hnine, rfl⟩
  rw [ne_eq, not_not, width_append, hnine] at hwidth
  omega

/-! ### Six segments to a record -/

theorem flatten_sixes (segments : List (List Char)) : (sixes segments).flatten = segments := by
  have htake : ∀ m, ((List.range m).map fun k =>
      (segments.drop (SEGMENTS_PER_RECORD * k)).take SEGMENTS_PER_RECORD).flatten =
      segments.take (SEGMENTS_PER_RECORD * m) := by
    intro m
    induction m with
    | zero => simp
    | succ m ih =>
      rw [range_succ, map_append, flatten_append, ih, Nat.mul_succ, take_add]
      simp
  rw [sixes, htake, take_of_length_le]
  rw [SEGMENTS_PER_RECORD]
  omega

variable {segments chunk : List (List Char)}

theorem length_sixes_mem (h : chunk ∈ sixes segments) : 1 ≤ chunk.length ∧ chunk.length ≤ 6 := by
  obtain ⟨k, hk, rfl⟩ := mem_map.mp h
  have hlt := mem_range.mp hk
  rw [length_take, length_drop, SEGMENTS_PER_RECORD]
  omega

theorem length_sixes_dropLast (h : chunk ∈ (sixes segments).dropLast) : chunk.length = 6 := by
  rw [sixes, ← map_dropLast] at h
  obtain ⟨k, hk, rfl⟩ := mem_map.mp h
  have hlt : k + 1 < (segments.length + 5) / 6 := by
    rw [dropLast_eq_take, take_range, mem_range, length_range] at hk
    omega
  rw [length_take, length_drop, SEGMENTS_PER_RECORD]
  omega

/-! ### Reading a segment back -/

structure SegmentReading where
  amountCents : ℤ
  fundsDate : List Char
  institution : List Char
  transit : List Char
  account : List Char
  itemSequence : ℕ

/-- The reading of a segment, at the offsets of the layout. -/
def readSegment (segment : List Char) : SegmentReading where
  amountCents := readNumber 3 10 segment
  fundsDate := readAt 13 6 segment
  institution := readAt 20 3 segment
  transit := readAt 23 5 segment
  account := trimEnd ' ' (readAt 28 12 segment)
  itemSequence := readNumber 53 9 segment

/-- What the segment of the payment at an index should read as. -/
def expectedSegment (p : Cpa005Payment × ℕ) : SegmentReading where
  amountCents := p.1.amountCents
  -- `0YYDDD`, the day of the year counted by the lengths of the months before its own
  fundsDate := ((isoCalendarDate p.1.fundsDate).map fun date =>
    '0' :: zeroPadded 2 (date.year % 100) ++
      zeroPadded 3 (daysBeforeMonth date.year date.month + date.day)).getD []
  institution := p.1.institution
  transit := p.1.transit
  account := trimEnd ' ' p.1.accountNumber
  itemSequence := p.2 + 1

/-- The segments that a credit record holds. -/
def readSegments (record : List Char) : List (List Char) :=
  filledWindows SEGMENT_LEN SEGMENTS_PER_RECORD (record.drop 24)

section Reading

variable {nfkd : Char → List Char} {other : List Char → List Char × Bool} {run : Cpa005Run}
  {head : Cpa005Header} {p : Cpa005Payment × ℕ} {segment : List Char}

section

variable (h : cpa005Segment nfkd run head p = .ok segment)

include h

/-- **An accepted segment**, with the fields that are read back in front. -/
theorem cpa005Segment_eq_ok :
    0 < p.1.amountCents ∧ width p.1.accountNumber ≤ 12 ∧
      isDigits 5 5 run.settings.dataCentre = true ∧ ∃ date before tail,
      isoCalendarDate p.1.fundsDate = some date ∧
      ([zeroPadded 10 p.1.amountCents.toNat, p.1.institution, p.1.transit, before,
        zeroPadded 9 (p.2 + 1)].map width = [10, 3, 5, 13, 9]) ∧
      segment = ([head.txnType, zeroPadded 10 p.1.amountCents.toNat, julianDay date, ['0'],
        p.1.institution, p.1.transit, alpha p.1.accountNumber 12, before,
        zeroPadded 9 (p.2 + 1)] ++ tail).flatten := by
  simp only [cpa005Segment, bind_eq_ok, pure_eq_ok, refuseIf_eq_ok] at h
  obtain ⟨_, hpos, _, -, _, hfits, _, -, amount, hamount, fundsDate, hdate, routing, hrouting,
    trace, htrace, payeeName, -, rfl⟩ := h
  obtain ⟨hnonneg, rfl, hamountWidth⟩ := num_eq_ok hamount
  obtain ⟨date, hday, rfl⟩ := julian_eq_ok hdate
  obtain ⟨hinstitution, htransit, rfl⟩ := institutionalId_eq_ok hrouting
  obtain ⟨hcentre, before, hbefore, hsequence, rfl⟩ := itemTraceNumber_eq_ok htrace
  have hindex : ((p.2 : ℤ) + 1).toNat = p.2 + 1 := by omega
  rw [hindex] at hsequence ⊢
  refine ⟨not_le.mp hpos, not_lt.mp hfits, hcentre, date, before,
    [replicate 3 '0', head.originatorShortName, alpha payeeName 30, head.originatorLongName,
      head.originatorId, alpha p.1.crossReference 19, head.returnRouting, head.returnAccount,
      replicate 15 ' ', replicate 22 ' ', replicate 2 ' ',
      replicate 11 '0'], hday, ?_, ?_⟩
  · simp [hamountWidth, width_isDigits hinstitution, width_isDigits htransit, hbefore, hsequence]
  · simp

theorem readSegment_eq (htype : isDigits 3 3 head.txnType = true) (hp : Printable segment) :
    readSegment segment = expectedSegment p := by
  obtain ⟨hpos, hfits, -, date, before, tail, hdate, hwidths, rfl⟩ := cpa005Segment_eq_ok h
  simp only [map_cons, map_nil, List.cons.injEq, and_true] at hwidths
  obtain ⟨hamount, hinstitution, htransit, hbefore, hsequence⟩ := hwidths
  have hall : ([head.txnType, zeroPadded 10 p.1.amountCents.toNat, julianDay date, ['0'],
      p.1.institution, p.1.transit, alpha p.1.accountNumber 12, before,
      zeroPadded 9 (p.2 + 1)] ++ tail).map width =
      [3, 10, 6, 1, 3, 5, 12, 13, 9] ++ tail.map width := by
    simp only [map_append, map_cons, map_nil, width_isDigits htype, hamount,
      width_julianDay, hinstitution, htransit, width_alpha, hbefore, hsequence]
    rfl
  have haccount : alpha p.1.accountNumber 12 = padEnd 12 ' ' p.1.accountNumber := by
    rw [alpha, cut_eq_self hfits]
  have hamountRead : readAt 3 10 _ = _ := readAt_field (k := 1) hp hall rfl rfl rfl
  have haccountRead : readAt 28 12 _ = _ := readAt_field (k := 6) hp hall rfl rfl rfl
  have hsequenceRead : readAt 53 9 _ = _ := readAt_field (k := 8) hp hall rfl rfl rfl
  simp only [readSegment, expectedSegment, readNumber, SegmentReading.mk.injEq]
  refine ⟨?_, ?_, readAt_field (k := 4) hp hall rfl rfl rfl,
    readAt_field (k := 5) hp hall rfl rfl rfl, ?_, ?_⟩
  · rw [hamountRead, ofDigitChars_zeroPadded, Int.toNat_of_nonneg hpos.le]
  · rw [hdate, Option.map_some, Option.getD_some, ← dayOfYear_eq]
    exact readAt_field (k := 2) hp hall rfl rfl rfl
  · rw [haccountRead, haccount, trimEnd_padEnd]
  · rw [hsequenceRead, ofDigitChars_zeroPadded]

theorem isBlank_segment (htype : isDigits 3 3 head.txnType = true) : isBlank segment = false := by
  obtain ⟨-, -, -, date, before, tail, -, -, rfl⟩ := cpa005Segment_eq_ok h
  obtain ⟨⟨hlow, -⟩, hdigits⟩ := isDigits_iff.mp htype
  obtain ⟨c, hc⟩ : ∃ c, c ∈ head.txnType := exists_mem_of_length_pos (by omega)
  refine all_eq_false.mpr ⟨c, ?_, ?_⟩
  · simp [hc]
  · rw [decide_eq_true_eq]
    rintro rfl
    exact absurd (hdigits _ hc) (by decide)

end

/-! ### Reading a record back -/

variable {originControl record : List Char}

theorem headerRecord_reads {creationJulian : List Char}
    (h : headerRecord other run originControl creationJulian = .ok record)
    (hp : Printable record) : record.head? = some 'A' ∧ readNumber 1 9 record = 1 := by
  simp only [headerRecord, bind_eq_ok, pure_eq_ok] at h
  obtain ⟨number, hnumber, centre, -, rfl⟩ := h
  obtain ⟨-, rfl, hnine⟩ := num_eq_ok hnumber
  exact ⟨rfl, readNumber_padded (k := 1) hp rfl hnine rfl⟩

/-- **A credit record holds its segments**, and nothing behind them. -/
theorem creditRecord_reads {q : List (List Char) × ℕ}
    (h : creditRecord originControl q = .ok record) (hcontrol : width originControl = 14)
    (hp : Printable record) (hsix : q.1.length ≤ 6)
    (hwidths : ∀ s ∈ q.1, width s = SEGMENT_LEN) (hfilled : ∀ s ∈ q.1, isBlank s = false) :
    record.head? = some 'C' ∧ readNumber 1 9 record = q.2 + 2 ∧ readSegments record = q.1 ∧
      isBlank (record.drop (24 + SEGMENT_LEN * q.1.length)) = true ∧ ∀ s ∈ q.1, Printable s := by
  simp only [creditRecord, bind_eq_ok, pure_eq_ok] at h
  obtain ⟨number, hnumber, rfl⟩ := h
  obtain ⟨-, rfl, hnine⟩ := num_eq_ok hnumber
  have hindex : ((q.2 : ℤ) + 2).toNat = q.2 + 2 := by omega
  rw [hindex] at hnine hp ⊢
  have hrecord : padEnd RECORD_LEN ' ' [['C'], zeroPadded 9 (q.2 + 2), originControl,
      q.1.flatten].flatten = (['C'] ++ zeroPadded 9 (q.2 + 2) ++ originControl) ++
        (q.1.flatten ++ replicate (RECORD_LEN - width [['C'], zeroPadded 9 (q.2 + 2),
          originControl, q.1.flatten].flatten) ' ') := by
    simp [padEnd]
  have hparts := hp
  simp only [hrecord, printable_append] at hparts
  obtain ⟨⟨⟨-, hpnumber⟩, hpcontrol⟩, hpsegments, -⟩ := hparts
  have hstart : (['C'] ++ zeroPadded 9 (q.2 + 2) ++ originControl).length = 24 := by
    rw [length_append, length_append, ← width_of_printable hpnumber, hnine,
      ← width_of_printable hpcontrol, hcontrol]
    rfl
  have hlengths : ∀ s ∈ q.1, s.length = SEGMENT_LEN := fun s hs =>
    (width_of_printable (printable_flatten.mp hpsegments s hs)).symm.trans (hwidths s hs)
  have hflat : q.1.flatten.length = SEGMENT_LEN * q.1.length := by
    rw [length_flatten, map_congr_left hlengths, map_const', sum_replicate,
      nsmul_eq_mul, mul_comm, Nat.cast_id]
  have hblank : ∀ n, isBlank (replicate n ' ') = true := fun n =>
    all_eq_true.mpr fun c hc => decide_eq_true (eq_of_mem_replicate hc)
  refine ⟨rfl, readNumber_padded (k := 1) hp rfl hnine rfl, ?_, ?_, printable_flatten.mp hpsegments⟩
  · rw [hrecord, readSegments, drop_left' hstart]
    exact filledWindows_flatten hlengths hfilled (hblank _) hsix
  · rw [hrecord, ← drop_drop, drop_left' hstart, drop_left' hflat]
    exact hblank _

theorem trailerRecord_reads {count : ℕ} (h : trailerRecord run originControl count = .ok record)
    (hcontrol : width originControl = 14) (hp : Printable record) :
    record.head? = some 'Z' ∧ readNumber 1 9 record = count ∧
      (readNumber 46 14 record : ℤ) = (run.payments.map Cpa005Payment.amountCents).sum ∧
      readNumber 60 8 record = run.payments.length := by
  simp only [trailerRecord, bind_eq_ok, pure_eq_ok] at h
  obtain ⟨number, hnumber, noValue, hnoValue, noCount, hnoCount, totalValue, htotal, credits,
    hcredits, rfl⟩ := h
  obtain ⟨-, rfl, hnine⟩ := num_eq_ok hnumber
  obtain ⟨-, -, hvalueWidth⟩ := num_eq_ok hnoValue
  obtain ⟨-, -, hcountWidth⟩ := num_eq_ok hnoCount
  obtain ⟨hnonneg, rfl, htotalWidth⟩ := num_eq_ok htotal
  obtain ⟨-, rfl, hcreditsWidth⟩ := num_eq_ok hcredits
  simp only [Int.toNat_natCast] at hnine hcreditsWidth hp ⊢
  refine ⟨rfl, ?_, ?_, ?_⟩
  · exact readNumber_padded (k := 1) hp rfl hnine rfl
  · rw [readNumber_padded (k := 5) hp rfl htotalWidth ?_, Int.toNat_of_nonneg hnonneg]
    simp [width_cons, units, hnine, hcontrol, hvalueWidth, hcountWidth]
  · refine readNumber_padded (k := 6) hp rfl hcreditsWidth ?_
    simp [width_cons, units, hnine, hcontrol, hvalueWidth, hcountWidth, htotalWidth]

/-! ### Reading a file back -/

/-- The records of a file say what the run said. -/
structure Cpa005Decodes (run : Cpa005Run) (records : List (List Char)) : Prop where
  record : ∀ r ∈ records, r.length = 1464 ∧ Printable r
  numbers : records.map (readNumber 1 9) = List.range' 1 records.length
  /-- Every funds date is a day of the calendar. -/
  dates : ∀ p ∈ run.payments, (isoCalendarDate p.fundsDate).isSome = true
  /-- A header, the credit records, a trailer. -/
  layout : ∃ header credits trailer, records = [header] ++ credits ++ [trailer] ∧
    header.head? = some 'A' ∧ (∀ r ∈ credits, r.head? = some 'C') ∧ trailer.head? = some 'Z' ∧
    -- the segments, six at a time, and nothing behind them
    (∀ r ∈ credits, 1 ≤ (readSegments r).length ∧ (readSegments r).length ≤ 6 ∧
      isBlank (r.drop (24 + 240 * (readSegments r).length)) = true) ∧
    (∀ r ∈ credits.dropLast, (readSegments r).length = 6) ∧
    (∀ s ∈ credits.flatMap readSegments, s.length = 240) ∧
    (credits.flatMap readSegments).map readSegment = run.payments.zipIdx.map expectedSegment ∧
    ((credits.flatMap readSegments).map readSegment).map SegmentReading.itemSequence =
      List.range' 1 run.payments.length ∧
    (readNumber 46 14 trailer : ℤ) = (run.payments.map Cpa005Payment.amountCents).sum ∧
    readNumber 60 8 trailer = run.payments.length

variable {records : List (List Char)}

theorem checkCpa005Record_forall {us : List Unit}
    (h : records.zipIdx.mapM checkCpa005Record = .ok us) :
    ∀ r ∈ records, width r = 1464 ∧ Printable r := by
  intro r hr
  obtain ⟨i, hi⟩ := exists_mem_zipIdx hr
  obtain ⟨_, -, hcheck⟩ := exists_of_mapM h hi
  simp only [checkCpa005Record, bind_eq_ok, refuseIf_eq_ok, ne_eq, not_not] at hcheck
  obtain ⟨_, hwidth, hp⟩ := hcheck
  exact ⟨hwidth, hp⟩

theorem isDigits_txnType {code : Option (List Char)}
    (h : ¬code.any (fun c => !isDigits 3 3 c) = true) :
    isDigits 3 3 (code.getD "460".toList) = true := by
  cases code with
  | none => decide
  | some c => simpa using h

theorem map_readNumber_records {header trailer : List Char} {credits : List (List Char)}
    (hheader : readNumber 1 9 header = 1)
    (hcredits : credits.map (readNumber 1 9) = List.range' 2 credits.length)
    (htrailer : readNumber 1 9 trailer = credits.length + 2) :
    ([header] ++ credits ++ [trailer]).map (readNumber 1 9) =
      List.range' 1 ([header] ++ credits ++ [trailer]).length := by
  have hlength : ([header] ++ credits ++ [trailer]).length = credits.length + 1 + 1 := by
    simp
  rw [hlength, map_append, map_append, hcredits, map_singleton, map_singleton,
    hheader, htrailer, range'_succ, range'_1_concat, cons_append, nil_append,
    cons_append, Nat.add_comm credits.length 2]

theorem cpa005Records_decodes (h : cpa005Records nfkd other run = .ok records) :
    Cpa005Decodes run records := by
  simp only [cpa005Records, bind_eq_ok, pure_eq_ok, refuseIf_eq_ok] at h
  obtain ⟨_, -, _, -, id, -, shortName, -, longName, -, fileCreationNo, hcreation, creationJulian,
    -, _, hcode, header, hheader, returnRouting, -, segments, hsegments, _, hwidths, credits,
    hcredits, trailer, htrailer, _, hchecked, rfl⟩ := h
  have hcontrol : width (alpha id 10 ++ fileCreationNo) = 14 := by
    rw [width_append, width_alpha, (num_eq_ok hcreation).2.2]
  have htype := isDigits_txnType hcode
  have hall := checkCpa005Record_forall hchecked
  have hrun := mapM_eq_ok.mp hsegments
  have hcreditRun := mapM_eq_ok.mp hcredits
  have hsegment : ∀ s ∈ segments, width s = SEGMENT_LEN ∧ isBlank s = false := by
    intro s hs
    obtain ⟨_, -, hwidth⟩ := exists_of_mapM hwidths hs
    obtain ⟨p, -, hp⟩ := exists_left_of_forall₂ hrun hs
    exact ⟨by simpa [checkSegment] using hwidth, isBlank_segment hp htype⟩
  -- what each credit record holds
  have hreads : ∀ q ∈ (sixes segments).zipIdx, ∀ r ∈ credits,
      creditRecord (alpha id 10 ++ fileCreationNo) q = .ok r →
      r.head? = some 'C' ∧ readNumber 1 9 r = q.2 + 2 ∧ readSegments r = q.1 ∧
        isBlank (r.drop (24 + SEGMENT_LEN * q.1.length)) = true ∧ ∀ s ∈ q.1, Printable s := by
    intro q hq r hr hcredit
    have hchunk : q.1 ∈ sixes segments := fst_mem_of_mem_zipIdx hq
    have hmem : ∀ s ∈ q.1, s ∈ segments := fun s hs => by
      rw [← flatten_sixes segments]
      exact mem_flatten.mpr ⟨q.1, hchunk, hs⟩
    exact creditRecord_reads hcredit hcontrol (hall r (by simp [hr])).2
      (length_sixes_mem hchunk).2 (fun s hs => (hsegment s (hmem s hs)).1)
      fun s hs => (hsegment s (hmem s hs)).2
  have hread : ∀ r ∈ credits, r.head? = some 'C' ∧ readSegments r ∈ sixes segments ∧
      isBlank (r.drop (24 + 240 * (readSegments r).length)) = true ∧
      ∀ s ∈ readSegments r, Printable s := by
    intro r hr
    obtain ⟨q, hq, hcredit⟩ := exists_left_of_forall₂ hcreditRun hr
    obtain ⟨htypeC, -, hchunk, hblank, hprint⟩ := hreads q hq r hr hcredit
    rw [hchunk]
    exact ⟨htypeC, fst_mem_of_mem_zipIdx hq, hblank, hprint⟩
  have hchunks : credits.map readSegments = sixes segments := by
    rw [map_eq_map_of_forall₂ hcreditRun Prod.fst readSegments
      fun q hq r hr hcredit => (hreads q hq r hr hcredit).2.2.1, zipIdx_map_fst]
  have hflat : credits.flatMap readSegments = segments := by
    rw [flatMap_def, hchunks, flatten_sixes]
  have hnumbers : credits.map (readNumber 1 9) = List.range' 2 credits.length := by
    rw [map_eq_map_of_forall₂ hcreditRun (fun q => q.2 + 2) (readNumber 1 9)
      fun q hq r hr hcredit => (hreads q hq r hr hcredit).2.1, ← hcreditRun.length_eq,
      length_zipIdx, map_zipIdx_snd]
  have hprintable : ∀ s ∈ segments, Printable s := by
    intro s hs
    rw [← hflat] at hs
    obtain ⟨r, hr, hs⟩ := mem_flatMap.mp hs
    exact (hread r hr).2.2.2 s hs
  have hreadings : segments.map readSegment = run.payments.zipIdx.map expectedSegment :=
    map_eq_map_of_forall₂ hrun expectedSegment readSegment
      fun p _ s hs hp => readSegment_eq hp htype (hprintable s hs)
  obtain ⟨hheaderType, hheaderNumber⟩ := headerRecord_reads hheader (hall header (by simp)).2
  obtain ⟨htrailerType, htrailerNumber, htotal, hcount⟩ :=
    trailerRecord_reads htrailer hcontrol (hall trailer (by simp)).2
  refine ⟨fun r hr => ?_, map_readNumber_records hheaderNumber hnumbers htrailerNumber,
    fun p hp => ?_, header, credits, trailer, rfl, hheaderType, fun r hr => (hread r hr).1,
    htrailerType, fun r hr => ?_, fun r hr => ?_, ?_, ?_, ?_, htotal, hcount⟩
  · obtain ⟨hwidth, hp⟩ := hall r hr
    exact ⟨(width_of_printable hp).symm.trans hwidth, hp⟩
  · obtain ⟨i, hi⟩ := exists_mem_zipIdx hp
    obtain ⟨s, -, hs⟩ := exists_right_of_forall₂ hrun hi
    obtain ⟨-, -, -, date, -, -, hdate, -⟩ := cpa005Segment_eq_ok hs
    rw [hdate, Option.isSome_some]
  · obtain ⟨-, hchunk, hblank, -⟩ := hread r hr
    exact ⟨(length_sixes_mem hchunk).1, (length_sixes_mem hchunk).2, hblank⟩
  · have hchunk : readSegments r ∈ (sixes segments).dropLast := by
      rw [← hchunks, ← map_dropLast]
      exact mem_map_of_mem hr
    exact length_sixes_dropLast hchunk
  · rw [hflat]
    intro s hs
    exact (width_of_printable (hprintable s hs)).symm.trans (hsegment s hs).1
  · rw [hflat, hreadings]
  · rw [hflat, hreadings, map_map]
    exact map_zipIdx_snd 1 run.payments

/-- **A CPA-005 file can be read back and agrees with itself**: for every run the writer
accepts, the records are 1464 printable characters wide and numbered from 1; the credit
records hold the segments of the payments six at a time, and only the last of them can hold
fewer; the segments read as the payments, in order, with the item numbers 1 to `n`; and the
trailer carries the count and the total. -/
theorem buildCpa005File_decodes (run : Cpa005Run) (file : List Char)
    (h : buildCpa005File nfkd other run = .ok file) :
    ∃ records, file = fileText ['\r', '\n'] records ∧ Cpa005Decodes run records := by
  rw [buildCpa005File, map_eq_ok] at h
  obtain ⟨records, hrecords, rfl⟩ := h
  exact ⟨records, rfl, cpa005Records_decodes hrecords⟩

end Reading

/-- A run of seven payments: one full credit record and one with a single segment. -/
def sevenCredits : Cpa005Run where
  settings :=
    { originatorId := "1234567890".toList, originatorShortName := "Béton".toList
      originatorLongName := "Béton Ltd".toList, dataCentre := "00320".toList
      originatingDataCentre := "00330".toList, institution := "003".toList
      transit := "12345".toList, account := "7654321".toList }
  fileCreationNumber := 42
  fileCreationDate := "2024-12-31".toList
  payments := List.replicate 7
    ⟨12345, "2024-12-31".toList, "004".toList, "54321".toList, "11 22".toList, "José".toList,
      "PMT-1".toList⟩

theorem buildCpa005File_decodes_sevenCredits :
    ∃ file records, buildCpa005File acuteNfkd (fun _ => ("NaN".toList, false)) sevenCredits =
        .ok file ∧
      file = fileText ['\r', '\n'] records ∧ Cpa005Decodes sevenCredits records := by
  obtain ⟨file, hfile⟩ : ∃ file, buildCpa005File acuteNfkd (fun _ => ("NaN".toList, false))
      sevenCredits = .ok file := exists_of_isOk (by decide +kernel)
  obtain ⟨records, hrecords⟩ := buildCpa005File_decodes sevenCredits file hfile
  exact ⟨file, records, hfile, hrecords⟩

end OpenBooks
