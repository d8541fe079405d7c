import Mathlib.Algebra.BigOperators.Group.List.Basic
import Mathlib.Data.List.Induction
import Mathlib.Data.Nat.Digits.Defs
import Mathlib.Tactic.Ring

/-!
# Fixed-width records

A fixed-width record is a list of fields written one after another, each as wide as the layout says,
and a field is read back by its offset: `FixedWidth.readAt_flatten` is that reading, and everything
a reader recovers from a record is an instance of it.

**Width** is counted in the code units of a text, of which a character outside the basic plane has
two. `FixedWidth.cut` and the two paddings bring a text to a width in units; what they leave of a
character that the cut splits is a replacement character. For printable ASCII text the units are the
characters (`FixedWidth.width_of_printable`), so a record that is checked to be printable is as long
as it is wide.
-/

namespace FixedWidth

open List

/-! ### Reading -/

/-- The text of `w` characters at an offset. -/
def readAt (off w : ℕ) (record : List Char) : List Char := (record.drop off).take w

variable {field : List Char} {off w : ℕ}

theorem readAt_append {before after : List Char} (hoff : before.length = off)
    (hw : field.length = w) : readAt off w (before ++ (field ++ after)) = field := by
  subst hoff hw
  rw [readAt, drop_left, take_left]

variable {fields : List (List Char)} {widths : List ℕ} {k : ℕ}

/-- **A field is read back at its offset**, which is the width of the fields before it. -/
theorem readAt_flatten (h : fields.map List.length = widths) (hk : fields[k]? = some field) :
    readAt (widths.take k).sum field.length fields.flatten = field := by
  subst h
  have hsplit : fields = fields.take k ++ field :: fields.drop (k + 1) := by
    obtain ⟨hlt, hget⟩ := List.getElem?_eq_some_iff.mp hk
    rw [← hget, ← drop_eq_getElem_cons hlt, take_append_drop]
  conv_lhs => rw [hsplit]
  rw [flatten_append, flatten_cons]
  refine readAt_append ?_ rfl
  rw [length_flatten, ← map_take, ← hsplit]

theorem readAt_of_lengths (h : fields.map List.length = widths) (hk : fields[k]? = some field)
    (hoff : (widths.take k).sum = off) (hw : widths[k]? = some w) :
    readAt off w fields.flatten = field := by
  have hfield : field.length = w := by
    rw [← h, getElem?_map, hk] at hw
    exact Option.some.inj hw
  rw [← hoff, ← hfield]
  exact readAt_flatten h hk

/-- The first `n` windows of width `w`, one after another. -/
def windows (w : ℕ) : ℕ → List Char → List (List Char)
  | 0, _ => []
  | n + 1, text => text.take w :: windows w n (text.drop w)

variable {segments : List (List Char)}

/-- **What is written window by window is read window by window.** -/
theorem windows_flatten (h : ∀ s ∈ segments, s.length = w) (n : ℕ) (rest : List Char) :
    windows w (segments.length + n) (segments.flatten ++ rest) = segments ++ windows w n rest := by
  induction segments with
  | nil => simp
  | cons s segments ih =>
    have hs := h s mem_cons_self
    rw [length_cons, Nat.add_right_comm, windows, flatten_cons, append_assoc,
      take_left' hs, drop_left' hs, ih fun t ht => h t (mem_cons_of_mem s ht),
      cons_append]

/-- A text of spaces only. -/
def isBlank (text : List Char) : Bool := text.all (· = ' ')

variable {text : List Char} {n : ℕ}

theorem isBlank_windows (h : isBlank text = true) : ∀ s ∈ windows w n text, isBlank s = true := by
  induction n generalizing text with
  | zero => simp [windows]
  | succ n ih =>
    rw [isBlank, all_eq_true] at h
    refine forall_mem_cons.mpr ⟨?_, ih ?_⟩
    · exact all_eq_true.mpr fun c hc => h c (mem_of_mem_take hc)
    · exact all_eq_true.mpr fun c hc => h c (mem_of_mem_drop hc)

/-- The windows of a record that are filled, up to the first blank one. -/
def filledWindows (w n : ℕ) (text : List Char) : List (List Char) :=
  (windows w n text).takeWhile fun s => !isBlank s

theorem filledWindows_flatten {rest : List Char} (hw : ∀ s ∈ segments, s.length = w)
    (hne : ∀ s ∈ segments, isBlank s = false) (hrest : isBlank rest = true)
    (hn : segments.length ≤ n) : filledWindows w n (segments.flatten ++ rest) = segments := by
  obtain ⟨m, rfl⟩ := Nat.exists_eq_add_of_le hn
  rw [filledWindows, windows_flatten hw,
    takeWhile_append_of_pos fun s hs => by rw [hne s hs, Bool.not_false]]
  have hblank := isBlank_windows (w := w) (n := m) hrest
  cases hwindows : windows w m rest with
  | nil => simp
  | cons s more =>
    rw [hwindows] at hblank
    rw [takeWhile_cons, hblank s mem_cons_self]
    simp

/-! ### Width -/

/-- The code units of a character. -/
def units (c : Char) : ℕ := if 0x10000 ≤ c.toNat then 2 else 1

/-- The width of a text, in code units. -/
def width (text : List Char) : ℕ := (text.map units).sum

/-- The first `n` units of a text; half a character is left as a replacement character. -/
def cut : ℕ → List Char → List Char
  | _, [] => []
  | n, c :: rest =>
    if n = 0 then [] else if units c ≤ n then c :: cut (n - units c) rest else [Char.ofNat 0xfffd]

/-- A text padded on the right to a width. -/
def padEnd (n : ℕ) (fill : Char) (text : List Char) : List Char :=
  text ++ List.replicate (n - width text) fill

/-- A text padded on the left to a width. -/
def padStart (n : ℕ) (fill : Char) (text : List Char) : List Char :=
  List.replicate (n - width text) fill ++ text

/-- A text without its trailing fill. -/
def trimEnd (fill : Char) (text : List Char) : List Char :=
  (text.reverse.dropWhile (· = fill)).reverse

@[simp] theorem trimEnd_padEnd (n : ℕ) (fill : Char) (text : List Char) :
    trimEnd fill (padEnd n fill text) = trimEnd fill text := by
  rw [trimEnd, padEnd, reverse_append, reverse_replicate,
    dropWhile_append_of_pos fun c hc => decide_eq_true (eq_of_mem_replicate hc), trimEnd]

@[simp] theorem width_nil : width [] = 0 := rfl

@[simp] theorem width_append (a b : List Char) : width (a ++ b) = width a + width b := by
  simp [width]

theorem width_cons (c : Char) (text : List Char) : width (c :: text) = units c + width text := by
  simp [width]

theorem width_replicate {fill : Char} (h : units fill = 1) (n : ℕ) :
    width (List.replicate n fill) = n := by
  simp [width, h]

theorem units_pos (c : Char) : 0 < units c := by
  rw [units]
  split_ifs <;> decide

theorem width_cut_le (n : ℕ) (text : List Char) : width (cut n text) ≤ n := by
  induction text generalizing n with
  | nil => exact Nat.zero_le n
  | cons c rest ih =>
    rw [cut]
    split_ifs with hzero hle
    · exact Nat.zero_le n
    · rw [width_cons]
      have := ih (n - units c)
      omega
    · have hone : width [Char.ofNat 0xfffd] = 1 := by decide
      omega

theorem cut_eq_self (h : width text ≤ n) : cut n text = text := by
  induction text generalizing n with
  | nil => rfl
  | cons c rest ih =>
    rw [width_cons] at h
    have hpos := units_pos c
    rw [cut, if_neg (by omega), if_pos (by omega), ih (by omega)]

theorem width_padEnd {fill : Char} (hfill : units fill = 1) (h : width text ≤ n) :
    width (padEnd n fill text) = n := by
  rw [padEnd, width_append, width_replicate hfill]
  omega

theorem width_of_single (h : ∀ c ∈ text, units c = 1) : width text = text.length := by
  induction text with
  | nil => rfl
  | cons c rest ih =>
    rw [width_cons, h c mem_cons_self, ih fun d hd => h d (mem_cons_of_mem c hd), length_cons]
    omega

theorem cut_of_single (h : ∀ c ∈ text, units c = 1) (n : ℕ) : cut n text = text.take n := by
  induction text generalizing n with
  | nil => simp [cut]
  | cons c rest ih =>
    have hunits := h c mem_cons_self
    cases n with
    | zero => simp [cut]
    | succ n =>
      rw [cut, if_neg (Nat.succ_ne_zero n), if_pos (by omega), hunits, Nat.add_sub_cancel,
        ih fun d hd => h d (mem_cons_of_mem c hd), take_succ_cons]

/-! ### Printable text -/

/-- A character from space to tilde. -/
def isPrintable (c : Char) : Bool := 0x20 ≤ c.toNat && c.toNat ≤ 0x7e

/-- A text of printable ASCII characters. -/
def Printable (text : List Char) : Prop := ∀ c ∈ text, isPrintable c = true

instance (text : List Char) : Decidable (Printable text) :=
  List.decidableBAll (fun c => isPrintable c = true) text

variable {c : Char}

theorem units_of_isPrintable (h : isPrintable c = true) : units c = 1 := by
  simp only [isPrintable, Bool.and_eq_true, decide_eq_true_eq] at h
  rw [units, if_neg (by omega)]

/-- **Printable text is as long as it is wide.** -/
theorem width_of_printable (h : Printable text) : width text = text.length :=
  width_of_single fun c hc => units_of_isPrintable (h c hc)

theorem cut_of_printable (h : Printable text) (n : ℕ) : cut n text = text.take n :=
  cut_of_single (fun c hc => units_of_isPrintable (h c hc)) n

variable {a b : List Char}

theorem printable_append : Printable (a ++ b) ↔ Printable a ∧ Printable b := by
  simp [Printable, or_imp, forall_and]

theorem printable_flatten : Printable fields.flatten ↔ ∀ field ∈ fields, Printable field := by
  simp only [Printable, mem_flatten]
  exact ⟨fun h field hf c hc => h c ⟨field, hf, hc⟩, fun h c ⟨field, hf, hc⟩ => h field hf c hc⟩

theorem width_flatten (fields : List (List Char)) :
    width fields.flatten = (fields.map width).sum := by
  induction fields with
  | nil => rfl
  | cons f fs ih => simp [ih]

theorem map_length_of_printable (h : Printable fields.flatten) :
    fields.map List.length = fields.map width :=
  map_congr_left fun f hf => (width_of_printable (printable_flatten.mp h f hf)).symm

theorem readAt_field (hp : Printable fields.flatten) (h : fields.map width = widths)
    (hk : fields[k]? = some field) (hoff : (widths.take k).sum = off) (hw : widths[k]? = some w) :
    readAt off w fields.flatten = field :=
  readAt_of_lengths ((map_length_of_printable hp).trans h) hk hoff hw

theorem readAt_padded {len : ℕ} (hp : Printable (padEnd len ' ' fields.flatten))
    (h : fields.map width = widths) (hk : fields[k]? = some field)
    (hoff : (widths.take k).sum = off) (hw : widths[k]? = some w) :
    readAt off w (padEnd len ' ' fields.flatten) = field := by
  have hpadded : padEnd len ' ' fields.flatten =
      (fields ++ [replicate (len - width fields.flatten) ' ']).flatten := by
    simp [padEnd]
  have hlt : k < fields.length := (List.getElem?_eq_some_iff.mp hk).1
  have hlen : widths.length = fields.length := by rw [← h, length_map]
  have hwidths : (fields ++ [replicate (len - width fields.flatten) ' ']).map width =
      widths ++ [len - width fields.flatten] := by
    rw [map_append, h, map_singleton, width_replicate rfl]
  rw [hpadded] at hp ⊢
  refine readAt_field (k := k) hp hwidths ?_ ?_ ?_
  · rw [getElem?_append_left hlt, hk]
  · rw [take_append_of_le_length (by omega), hoff]
  · rw [getElem?_append_left (by omega), hw]

theorem isPrintable_of_isDigit (h : c.isDigit = true) : isPrintable c = true := by
  simp only [Char.isDigit, Bool.and_eq_true, decide_eq_true_eq] at h
  simp only [isPrintable, Bool.and_eq_true, decide_eq_true_eq]
  have h1 : 48 ≤ c.toNat := h.1
  have h2 : c.toNat ≤ 57 := h.2
  omega

theorem width_of_digits (h : ∀ c ∈ text, c.isDigit = true) : width text = text.length :=
  width_of_printable fun c hc => isPrintable_of_isDigit (h c hc)

/-! ### Numbers -/

/-- A number with leading zeros, of at least `w` digits. -/
def zeroPadded (w n : ℕ) : List Char := padStart w '0' (Nat.toDigits 10 n)

theorem isDigit_toDigits (n : ℕ) : ∀ c ∈ Nat.toDigits 10 n, c.isDigit = true :=
  fun _ hc => Nat.isDigit_of_mem_toDigits (by decide) (by decide) hc

theorem isDigit_zeroPadded (w n : ℕ) : ∀ c ∈ zeroPadded w n, c.isDigit = true := by
  intro c hc
  rcases mem_append.mp hc with hc | hc
  · rw [eq_of_mem_replicate hc]
    rfl
  · exact isDigit_toDigits n c hc

/-- **Leading zeros do not change the number.** -/
@[simp] theorem ofDigitChars_zeroPadded (w n : ℕ) : Nat.ofDigitChars 10 (zeroPadded w n) 0 = n := by
  rw [zeroPadded, padStart, Nat.ofDigitChars_append, Nat.ofDigitChars_replicate_zero, mul_zero,
    Nat.ofDigitChars_ten_toDigits]

theorem length_zeroPadded (h : (Nat.toDigits 10 n).length ≤ w) : (zeroPadded w n).length = w := by
  rw [zeroPadded, padStart, length_append, length_replicate, width_of_digits (isDigit_toDigits n)]
  omega

theorem length_zeroPadded_of_lt (hw : 0 < w) (h : n < 10 ^ w) : (zeroPadded w n).length = w :=
  length_zeroPadded ((Nat.length_toDigits_le_iff (by decide) hw).mpr h)

theorem width_zeroPadded (w n : ℕ) : width (zeroPadded w n) = (zeroPadded w n).length :=
  width_of_digits (isDigit_zeroPadded w n)

theorem toNat_of_isDigit (h : c.isDigit = true) : 48 ≤ c.toNat ∧ c.toNat ≤ 57 := by
  simp only [Char.isDigit, Bool.and_eq_true, decide_eq_true_eq, ge_iff_le] at h
  exact ⟨UInt32.le_iff_toNat_le.mp h.1, UInt32.le_iff_toNat_le.mp h.2⟩

theorem ofDigitChars_lt (h : ∀ c ∈ text, c.isDigit = true) :
    Nat.ofDigitChars 10 text 0 < 10 ^ text.length := by
  induction text with
  | nil => simp
  | cons c text ih =>
    have hrest := ih fun c' hc' => h c' (mem_cons_of_mem c hc')
    have hc := toNat_of_isDigit (h c mem_cons_self)
    have hmul : 10 ^ text.length * (c.toNat - 48) ≤ 10 ^ text.length * 9 :=
      Nat.mul_le_mul_left _ (by omega)
    rw [Nat.ofDigitChars_cons, Nat.ofDigitChars_eq_ofDigitChars_zero, length_cons, pow_succ,
      mul_zero, zero_add, show '0'.toNat = 48 from rfl]
    omega

/-- **Digit texts of one length stand in the order of their numbers.** -/
theorem lt_of_ofDigitChars_lt (hlength : a.length = b.length) (ha : ∀ c ∈ a, c.isDigit = true)
    (hb : ∀ c ∈ b, c.isDigit = true) (h : Nat.ofDigitChars 10 a 0 < Nat.ofDigitChars 10 b 0) :
    a < b := by
  induction a generalizing b with
  | nil =>
    obtain rfl := length_eq_zero_iff.mp hlength.symm
    exact absurd h (lt_irrefl _)
  | cons x xs ih =>
    cases b with
    | nil => cases hlength
    | cons y ys =>
      have hlength' : xs.length = ys.length := Nat.succ.inj hlength
      have hx := toNat_of_isDigit (ha x mem_cons_self)
      have hy := toNat_of_isDigit (hb y mem_cons_self)
      have hxs := ofDigitChars_lt fun c hc => ha c (mem_cons_of_mem x hc)
      have hys := ofDigitChars_lt fun c hc => hb c (mem_cons_of_mem y hc)
      rw [Nat.ofDigitChars_cons, Nat.ofDigitChars_eq_ofDigitChars_zero, Nat.ofDigitChars_cons,
        Nat.ofDigitChars_eq_ofDigitChars_zero (l := ys), mul_zero, zero_add, zero_add,
        hlength', show '0'.toNat = 48 from rfl] at h
      rw [hlength'] at hxs
      rw [cons_lt_cons_iff]
      rcases lt_trichotomy x.toNat y.toNat with hlt | heq | hgt
      · exact Or.inl hlt
      · obtain rfl := Char.toNat_inj.mp heq
        refine Or.inr ⟨rfl, ih hlength' (fun c hc => ha c (mem_cons_of_mem x hc))
          (fun c hc => hb c (mem_cons_of_mem x hc)) (by omega)⟩
      · -- a larger first digit outweighs all that follows
        have hmul : 10 ^ ys.length * (y.toNat - 48 + 1) ≤ 10 ^ ys.length * (x.toNat - 48) :=
          Nat.mul_le_mul_left _ (by omega)
        rw [mul_add, mul_one] at hmul
        omega

theorem zeroPadded_lt {m : ℕ} (hw : 0 < w) (hm : m < 10 ^ w) (h : n < m) :
    zeroPadded w n < zeroPadded w m := by
  refine lt_of_ofDigitChars_lt ?_ (isDigit_zeroPadded w n) (isDigit_zeroPadded w m) ?_
  · rw [length_zeroPadded_of_lt hw (h.trans hm), length_zeroPadded_of_lt hw hm]
  · rwa [ofDigitChars_zeroPadded, ofDigitChars_zeroPadded]

theorem eq_of_ofDigitChars_eq (hlength : a.length = b.length) (ha : ∀ c ∈ a, c.isDigit = true)
    (hb : ∀ c ∈ b, c.isDigit = true) (h : Nat.ofDigitChars 10 a 0 = Nat.ofDigitChars 10 b 0) :
    a = b := by
  induction a using reverseRecOn generalizing b with
  | nil => exact (length_eq_zero_iff.mp hlength.symm).symm
  | append_singleton xs x ih =>
    rcases eq_nil_or_concat' b with rfl | ⟨ys, y, rfl⟩
    · simp at hlength
    · have hx := toNat_of_isDigit (ha x (by simp))
      have hy := toNat_of_isDigit (hb y (by simp))
      simp only [Nat.ofDigitChars_append, Nat.ofDigitChars_cons, Nat.ofDigitChars_nil,
        show '0'.toNat = 48 from rfl] at h
      obtain rfl := ih (by simpa using hlength) (fun c hc => ha c (mem_append_left _ hc))
        (fun c hc => hb c (mem_append_left _ hc)) (by omega)
      rw [Char.toNat_inj.mp (show x.toNat = y.toNat by omega)]

theorem zeroPadded_ofDigitChars (hw : 0 < w) (hlength : text.length = w)
    (h : ∀ c ∈ text, c.isDigit = true) : zeroPadded w (Nat.ofDigitChars 10 text 0) = text := by
  refine eq_of_ofDigitChars_eq ?_ (isDigit_zeroPadded w _) h (ofDigitChars_zeroPadded w _)
  rw [length_zeroPadded_of_lt hw (hlength ▸ ofDigitChars_lt h), hlength]

theorem append_lt_append (hlength : a.length = b.length) (h : a < b) (c d : List Char) :
    a ++ c < b ++ d := by
  induction a generalizing b with
  | nil =>
    obtain rfl := length_eq_zero_iff.mp hlength.symm
    exact absurd h (not_lt_nil [])
  | cons x xs ih =>
    cases b with
    | nil => cases hlength
    | cons y ys =>
      rw [cons_append, cons_append, cons_lt_cons_iff]
      refine (cons_lt_cons_iff.mp h).imp_right fun hrest => ⟨hrest.1, ?_⟩
      exact ih (Nat.succ.inj hlength) hrest.2

/-- The number at an offset. -/
def readNumber (off w : ℕ) (record : List Char) : ℕ := Nat.ofDigitChars 10 (readAt off w record) 0

theorem readNumber_of_lengths (h : fields.map List.length = widths)
    (hk : fields[k]? = some (zeroPadded w n)) (hoff : (widths.take k).sum = off)
    (hw : widths[k]? = some w) : readNumber off w fields.flatten = n := by
  rw [readNumber, readAt_of_lengths h hk hoff hw, ofDigitChars_zeroPadded]

/-- **A numeric field is read back as its number.** -/
theorem readNumber_field (hp : Printable fields.flatten)
    (hk : fields[k]? = some (zeroPadded w n)) (hw : width (zeroPadded w n) = w)
    (hoff : ((fields.take k).map width).sum = off) : readNumber off w fields.flatten = n := by
  rw [map_take] at hoff
  rw [readNumber, readAt_field hp rfl hk hoff (by rw [getElem?_map, hk, Option.map_some, hw]),
    ofDigitChars_zeroPadded]

theorem readNumber_padded {len : ℕ} (hp : Printable (padEnd len ' ' fields.flatten))
    (hk : fields[k]? = some (zeroPadded w n)) (hw : width (zeroPadded w n) = w)
    (hoff : ((fields.take k).map width).sum = off) :
    readNumber off w (padEnd len ' ' fields.flatten) = n := by
  rw [map_take] at hoff
  rw [readNumber, readAt_padded hp rfl hk hoff (by rw [getElem?_map, hk, Option.map_some, hw]),
    ofDigitChars_zeroPadded]

/-! ### Files -/

/-- The records of a type, which is their first character. -/
def recordsOfType (type : Char) (records : List (List Char)) : List (List Char) :=
  records.filter fun r => r.head? = some type

@[simp] theorem recordsOfType_append (type : Char) (a b : List (List Char)) :
    recordsOfType type (a ++ b) = recordsOfType type a ++ recordsOfType type b :=
  filter_append a b

variable {records : List (List Char)}

theorem recordsOfType_eq_self {type : Char} (h : ∀ r ∈ records, r.head? = some type) :
    recordsOfType type records = records :=
  filter_eq_self.mpr fun r hr => decide_eq_true (h r hr)

theorem recordsOfType_eq_nil {type other : Char} (hne : other ≠ type)
    (h : ∀ r ∈ records, r.head? = some other) : recordsOfType type records = [] := by
  refine filter_eq_nil_iff.mpr fun r hr => ?_
  rw [h r hr, decide_eq_true_eq]
  exact fun heq => hne (Option.some.inj heq)

/-- The text of a file: its records, each ended by the separator. -/
def fileText (separator : List Char) (records : List (List Char)) : List Char :=
  (records.map (· ++ separator)).flatten

end FixedWidth
