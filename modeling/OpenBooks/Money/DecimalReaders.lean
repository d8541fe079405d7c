import Mathlib.Tactic.IntervalCases
import OpenBooks.Money.DecimalText
import OpenBooks.Lib.FixedWidth
import Mathlib.Data.List.TakeWhile

/-!
# The readers agree

Decimal text is read twice in the money kernel: `toUnits` reads it into ten-thousandths, with a
short cut for the canonical stored form, and `normalizeDecimal` rewrites it digit by digit, for
quantities and rates of any scale up to ten.

At four places they agree on every text (`toUnits_agrees`): both refuse it, or the canonical text of
the units is what the other reader writes; and the short cut never makes a difference. What carries
it is that a run of digits without leading zeros is the text of its own value
(`toDigits_digitsValue`).
-/

namespace OpenBooks

open List Option

/-! ### Digits -/

theorem digitsValue_append_singleton (ds : List Char) (c : Char) :
    digitsValue (ds ++ [c]) = 10 * digitsValue ds + (c.toNat - '0'.toNat) := by
  simp [digitsValue, foldl_append]

variable {c : Char} {ds : List Char}

/-- **Digits spell zero just when they are all zeros.** -/
theorem digitsValue_eq_zero_iff (h : ∀ c ∈ ds, c.isDigit = true) :
    digitsValue ds = 0 ↔ ∀ c ∈ ds, c = '0' := by
  have hzeros : Nat.ofDigitChars 10 (List.replicate ds.length '0') 0 = 0 := by
    rw [Nat.ofDigitChars_replicate_zero, mul_zero]
  constructor
  · intro hzero c hc
    have hds : ds = List.replicate ds.length '0' := by
      refine FixedWidth.eq_of_ofDigitChars_eq length_replicate.symm h (fun c hc => ?_)
        (Eq.trans hzero hzeros.symm)
      rw [eq_of_mem_replicate hc]
      rfl
    exact eq_of_mem_replicate (hds ▸ hc)
  · intro hall
    rw [eq_replicate_of_mem hall]
    exact hzeros

variable (n : ℕ)

theorem digitsValue_toDigits : digitsValue (Nat.toDigits 10 n) = n :=
  Nat.ofDigitChars_ten_toDigits

theorem digitsValue_append (ds es : List Char) :
    digitsValue (ds ++ es) = 10 ^ es.length * digitsValue ds + digitsValue es := by
  induction es using reverseRecOn with
  | nil => simp [digitsValue]
  | append_singleton es c ih =>
    rw [← append_assoc, digitsValue_append_singleton, digitsValue_append_singleton, ih,
      length_append, length_singleton, pow_succ]
    ring

theorem digitsValue_zeros (ds : List Char) :
    digitsValue (List.replicate n '0' ++ ds) = digitsValue ds := by
  rw [digitsValue_append, (digitsValue_eq_zero_iff fun c hc => by
      rw [eq_of_mem_replicate hc]
      rfl).mpr fun c hc => eq_of_mem_replicate hc, mul_zero, zero_add]

theorem digitsValue_lt (h : ∀ c ∈ ds, c.isDigit = true) : digitsValue ds < 10 ^ ds.length :=
  FixedWidth.ofDigitChars_lt h

theorem digits_eq_of_value {es : List Char} (hds : ∀ c ∈ ds, c.isDigit = true)
    (hes : ∀ c ∈ es, c.isDigit = true) (hlen : ds.length = es.length)
    (h : digitsValue ds = digitsValue es) : ds = es :=
  FixedWidth.eq_of_ofDigitChars_eq hlen hds hes h

/-- **A run of digits without leading zeros is the text of its value.** -/
theorem toDigits_digitsValue (hc : c ≠ '0') (h : ∀ d ∈ c :: ds, d.isDigit = true) :
    Nat.toDigits 10 (digitsValue (c :: ds)) = c :: ds := by
  have hpos : 0 < digitsValue [c] := Nat.pos_of_ne_zero fun hzero =>
    hc ((digitsValue_eq_zero_iff (by simpa using h c mem_cons_self)).mp hzero c mem_cons_self)
  have hvalue : digitsValue (c :: ds) = 10 ^ ds.length * digitsValue [c] + digitsValue ds :=
    digitsValue_append [c] ds
  have hlow : 10 ^ ds.length ≤ digitsValue (c :: ds) := by
    rw [hvalue]
    exact (Nat.le_mul_of_pos_right _ hpos).trans (Nat.le_add_right _ _)
  refine digits_eq_of_value (fun d hd => Nat.isDigit_of_mem_toDigits (by decide) (by decide) hd) h
    ?_ (digitsValue_toDigits _)
  -- Both have as many digits as the value asks for.
  refine le_antisymm ?_ ?_
  · exact (Nat.length_toDigits_le_iff (by decide) (by simp)).mpr (digitsValue_lt h)
  · by_contra hlt
    rw [not_le, length_cons, Nat.lt_succ_iff] at hlt
    have hds : 0 < ds.length := lt_of_lt_of_le Nat.length_toDigits_pos hlt
    have := (Nat.length_toDigits_le_iff (by decide) hds).mp hlt
    omega

theorem dropLeadingZeros_eq (h : ∀ c ∈ ds, c.isDigit = true) :
    dropLeadingZeros ds = Nat.toDigits 10 (digitsValue ds) := by
  induction ds with
  | nil => rfl
  | cons c ds ih =>
    by_cases hc : c = '0'
    · subst hc
      have hzero : digitsValue ('0' :: ds) = digitsValue ds := digitsValue_zeros 1 ds
      rw [hzero, ← ih fun d hd => h d (mem_cons_of_mem _ hd), dropLeadingZeros,
        dropLeadingZeros, dropWhile_cons_of_pos (by rfl)]
    · rw [dropLeadingZeros, dropWhile_cons_of_neg (by simpa using hc), toDigits_digitsValue hc h]

theorem matchDecimal_digits {text : List Char} {m : DecimalMatch}
    (h : matchDecimal text = some m) :
    (∀ c ∈ m.whole, c.isDigit = true) ∧ (∀ c ∈ m.fraction, c.isDigit = true) ∧
      ¬(m.whole = [] ∧ m.fraction = []) := by
  have htake : ∀ l : List Char, ∀ c ∈ l.takeWhile Char.isDigit, c.isDigit = true :=
    fun l c hc => mem_takeWhile_imp hc
  unfold matchDecimal at h
  split at h
  rename_i negative body hsign
  split at h
  rename_i fraction rest hrest
  have hfraction : ∀ c ∈ fraction, c.isDigit = true := by
    split at hrest
    · obtain ⟨rfl, -⟩ := Prod.mk.inj hrest
      exact htake _
    · obtain ⟨rfl, -⟩ := Prod.mk.inj hrest
      exact fun c hc => absurd hc not_mem_nil
  dsimp only at h
  split_ifs at h with hempty
  split at h
  · cases h
    exact ⟨htake _, hfraction, hempty⟩
  · split_ifs at h
    obtain ⟨x, -, rfl⟩ := map_eq_some_iff.mp h
    exact ⟨htake _, hfraction, hempty⟩

/-! ### The sign -/

/-- Text that begins and ends with no white space is its own trimming. -/
theorem trim_eq_self {first last : Char} (middle : List Char)
    (hfirst : isJsWhitespace first = false) (hlast : isJsWhitespace last = false) :
    trim (first :: (middle ++ [last])) = first :: (middle ++ [last]) := by
  have hdrop : (first :: (middle ++ [last])).dropWhile isJsWhitespace =
      first :: (middle ++ [last]) := by
    rw [dropWhile_cons_of_neg (by simp [hfirst])]
  rw [trim, hdrop, show first :: (middle ++ [last]) = (first :: middle) ++ [last] from rfl,
    reverse_append, reverse_singleton, singleton_append,
    dropWhile_cons_of_neg (by simp [hlast])]
  simp

theorem not_isJsWhitespace_of_isDigit (h : c.isDigit = true) : isJsWhitespace c = false := by
  simp only [Char.isDigit, Bool.and_eq_true, decide_eq_true_eq] at h
  have hlow : 48 ≤ c.toNat := h.1
  have hhigh : c.toNat ≤ 57 := h.2
  rw [← Char.ofNat_toNat c]
  interval_cases c.toNat <;> decide

variable {fraction : List Char}

theorem canonical_body {body : List Char} (hrest : body.dropWhile Char.isDigit = '.' :: fraction)
    (hall : fraction.all Char.isDigit = true) :
    body = body.takeWhile Char.isDigit ++ '.' :: fraction ∧
      fraction.takeWhile Char.isDigit = fraction ∧ fraction.dropWhile Char.isDigit = [] := by
  refine ⟨?_, ?_, ?_⟩
  · rw [← hrest, takeWhile_append_dropWhile]
  · exact takeWhile_eq_self_iff.mpr (by simpa using hall)
  · exact dropWhile_eq_nil_iff.mpr (by simpa using hall)

theorem trim_canonical {first : Char} {middle : List Char}
    (hfirst : isJsWhitespace first = false) (hlength : fraction.length = 4)
    (hall : fraction.all Char.isDigit = true) :
    trim (first :: (middle ++ '.' :: fraction)) = first :: (middle ++ '.' :: fraction) := by
  obtain ⟨init, last, rfl⟩ : ∃ init last, fraction = init ++ [last] :=
    ⟨_, _, (dropLast_append_getLast (by rintro rfl; cases hlength)).symm⟩
  have hlast : isJsWhitespace last = false :=
    not_isJsWhitespace_of_isDigit (by simpa using (all_eq_true.mp hall) last (by simp))
  have := trim_eq_self (middle ++ '.' :: init) hfirst hlast
  simpa using this

variable {digits : List Char}

/-- **A canonical amount is the same to both readers.** -/
theorem matchDecimal_of_canonical {s : List Char} {negative : Bool}
    (h : matchCanonicalMoney s = some (negative, digits)) :
    ∃ m, matchDecimal (trim s) = some m ∧ m.negative = negative ∧ m.exponent = none ∧
      m.whole ++ m.fraction = digits ∧ m.fraction.length = 4 := by
  unfold matchCanonicalMoney at h
  split at h
  rename_i negative' body hsign
  dsimp only at h
  split at h
  · rename_i fraction hrest
    split_ifs at h with hshape
    obtain ⟨hwhole, hlength, hall⟩ := hshape
    obtain ⟨rfl, rfl⟩ := Prod.mk.inj (Option.some.inj h)
    obtain ⟨hbody, htake, hdrop⟩ := canonical_body hrest hall
    split at hsign
    · obtain ⟨rfl, rfl⟩ := Prod.mk.inj hsign
      rename_i body
      rw [hbody, trim_canonical (by decide) hlength hall, ← hbody]
      refine ⟨⟨true, body.takeWhile Char.isDigit, fraction, none⟩, ?_, rfl, rfl, rfl, hlength⟩
      simp [matchDecimal, hrest, htake, hdrop, hwhole]
    · obtain ⟨rfl, rfl⟩ := Prod.mk.inj hsign
      obtain ⟨first, middle, hfirst⟩ : ∃ first middle, s.takeWhile Char.isDigit = first :: middle :=
        exists_cons_of_ne_nil hwhole
      have hdigit : first.isDigit = true :=
        mem_takeWhile_imp (l := s) (p := Char.isDigit) (by simp [hfirst])
      have htrim : trim s = s := by
        rw [hbody, hfirst]
        exact trim_canonical (not_isJsWhitespace_of_isDigit hdigit) hlength hall
      rw [htrim]
      refine ⟨⟨false, s.takeWhile Char.isDigit, fraction, none⟩, ?_, rfl, rfl, rfl, hlength⟩
      have hnosign : ∀ rest, s ≠ '-' :: rest ∧ s ≠ '+' :: rest := by
        intro rest
        rw [hbody, hfirst, cons_append]
        constructor <;>
        · rintro heq
          obtain ⟨rfl, -⟩ := List.cons.inj heq
          cases hdigit
      unfold matchDecimal
      split
      rename_i negative body hpair
      split at hpair
      · exact absurd rfl (hnosign _).1
      · exact absurd rfl (hnosign _).2
      · obtain ⟨rfl, rfl⟩ := Prod.mk.inj hpair
        simp [hrest, htake, hdrop, hwhole]
  · cases h

/-! ### The other reader -/

/-- The digits before and behind the point, moved by the exponent along one run of digits. -/
def pointedDigits (wholePart fractionPart : List Char) (exponent : ℤ) : List Char × List Char :=
  let digits := if wholePart ++ fractionPart = [] then ['0'] else wholePart ++ fractionPart
  let decimalIndex : ℤ := wholePart.length + exponent
  if decimalIndex ≤ 0 then ([], List.replicate (-decimalIndex).toNat '0' ++ digits)
  else
    let digits := if digits.length ≤ decimalIndex then padEndZeros decimalIndex.toNat digits
      else digits
    (digits.take decimalIndex.toNat, digits.drop decimalIndex.toNat)

/-- Digits on the two sides of the point as canonical text of some places, unless a digit past
the last of them would be lost. -/
def normalizedText (negative : Bool) (parts : List Char × List Char) (decimalPlaces : ℕ) :
    Option (List Char) :=
  if decimalPlaces < parts.2.length ∧ hasNonzeroDigit (parts.2.drop decimalPlaces) then none
  else
    let whole := dropLeadingZeros parts.1
    let fraction := padEndZeros decimalPlaces (parts.2.take decimalPlaces)
    let isZero := whole = ['0'] ∧ !hasNonzeroDigit fraction
    some ((if negative ∧ ¬isZero then ['-'] else []) ++ whole ++
      if 0 < decimalPlaces then '.' :: fraction else [])

/-- Canonicalize a decimal to a number of places. -/
def normalizeDecimal (value : List Char) (decimalPlaces : ℕ) : Option (List Char) := do
  if 10 < decimalPlaces then none
  else
    let m ← matchDecimal (trim value)
    if MAX_EXACT_EXPONENT < |m.exponent.getD 0| then none
    else
      normalizedText m.negative (pointedDigits m.whole m.fraction (m.exponent.getD 0)) decimalPlaces

example : normalizeDecimal "-0012.5E-1".toList 4 = some "-1.2500".toList := by decide +kernel

/-! ### The same point -/

section Point

variable {whole fraction : List Char} {n : ℕ}

theorem padEndZeros_append (whole fraction : List Char) :
    padEndZeros (whole.length + n) (whole ++ fraction) = whole ++ padEndZeros n fraction := by
  rw [padEndZeros, padEndZeros, append_assoc, length_append, Nat.add_sub_add_left]

theorem padEndZeros_of_le (h : n ≤ digits.length) : padEndZeros n digits = digits := by
  rw [padEndZeros, Nat.sub_eq_zero_of_le h, replicate_zero, append_nil]

variable (h : ¬(whole = [] ∧ fraction = []))

include h

theorem pointedDigits_of_pos {exponent : ℤ} (index : ℕ) (hindex : whole.length + exponent = index)
    (hpos : 0 < index) :
    pointedDigits whole fraction exponent =
      ((padEndZeros index (whole ++ fraction)).take index,
        (padEndZeros index (whole ++ fraction)).drop index) := by
  have hdigits : whole ++ fraction ≠ [] := by simpa using h
  have hpad : (if ((whole ++ fraction).length : ℤ) ≤ index then
      padEndZeros index (whole ++ fraction) else whole ++ fraction) =
        padEndZeros index (whole ++ fraction) := by
    split_ifs with hle
    · rfl
    · exact (padEndZeros_of_le (by omega)).symm
  rw [pointedDigits, if_neg hdigits, hindex, if_neg (by omega), Int.toNat_natCast, hpad]

theorem pointedDigits_zero : pointedDigits whole fraction 0 = (whole, fraction) := by
  cases whole with
  | nil =>
    have hfraction : fraction ≠ [] := fun hf => h ⟨rfl, hf⟩
    simp [pointedDigits, hfraction]
  | cons c whole =>
    rw [pointedDigits_of_pos h _ (add_zero _) (by simp), padEndZeros_of_le (by simp),
      take_left, drop_left]

theorem pointedDigits_natCast (hn : 0 < n) :
    pointedDigits whole fraction n =
      (whole ++ (padEndZeros n fraction).take n, (padEndZeros n fraction).drop n) := by
  rw [pointedDigits_of_pos h (whole.length + n) (by push_cast; rfl) (by omega),
    padEndZeros_append, take_length_add_append, drop_length_add_append]

theorem pointedDigits_neg :
    pointedDigits whole fraction (-n) =
      ((padStartZeros n whole).take ((padStartZeros n whole).length - n),
        (padStartZeros n whole).drop ((padStartZeros n whole).length - n) ++ fraction) := by
  have hdigits : whole ++ fraction ≠ [] := by simpa using h
  rcases le_or_gt whole.length n with hle | hlt
  · have hlen : (padStartZeros n whole).length = n := by
      simp only [padStartZeros, length_append, length_replicate]
      omega
    rw [pointedDigits, if_neg hdigits, if_pos (by omega), hlen, Nat.sub_self, take_zero,
      drop_zero, padStartZeros, append_assoc]
    congr 3
    omega
  · have hpad : padStartZeros n whole = whole := by
      rw [padStartZeros, Nat.sub_eq_zero_of_le hlt.le, replicate_zero, nil_append]
    rw [pointedDigits_of_pos h (whole.length - n) (by omega) (by omega), hpad,
      padEndZeros_of_le (by simp; omega), take_append_of_le_length (by omega),
      drop_append_of_le_length (by omega)]

end Point

/-! ### The same text -/

section Text

variable {whole fraction : List Char} {negative : Bool}

theorem take_append_zeros (p : ℕ) (fraction : List Char) :
    (fraction ++ List.replicate p '0').take p = padEndZeros p (fraction.take p) := by
  rw [padEndZeros, take_append, take_replicate, length_take]
  congr 2
  omega

theorem isDigit_padEndZeros {p : ℕ} (h : ∀ c ∈ fraction, c.isDigit = true) :
    ∀ c ∈ padEndZeros p fraction, c.isDigit = true := by
  intro c hc
  rcases mem_append.mp hc with hc | hc
  · exact h c hc
  · rw [eq_of_mem_replicate hc]
    rfl

theorem toList_toString : (toString n).toList = Nat.toDigits 10 n :=
  Nat.toList_repr

theorem toList_padStart_digitsValue (hds : ∀ c ∈ ds, c.isDigit = true) (hlen : ds.length = 4) :
    (padStart 4 '0' (toString (digitsValue ds))).toList = ds := by
  have hlt : digitsValue ds < 10 ^ 4 := hlen ▸ digitsValue_lt hds
  have hfits := (Nat.length_toDigits_le_iff (b := 10) (by decide) (by decide : 0 < 4)).mpr hlt
  rw [padStart, String.toList_append, String.toList_ofList, ← String.length_toList, toList_toString]
  refine digits_eq_of_value (fun c hc => ?_) hds ?_ ?_
  · rcases mem_append.mp hc with hc | hc
    · rw [eq_of_mem_replicate hc]
      rfl
    · exact Nat.isDigit_of_mem_toDigits (by decide) (by decide) hc
  · rw [length_append, length_replicate, hlen]
    omega
  · rw [digitsValue_zeros, digitsValue_toDigits]

/-- The canonical text of an amount given by its whole part and its four places. -/
theorem toList_fromUnits {w : ℕ} (hds : ∀ c ∈ ds, c.isDigit = true) (hlen : ds.length = 4)
    (negative : Bool) :
    (fromUnits (if negative then -(w * SCALE + digitsValue ds : ℤ)
      else w * SCALE + digitsValue ds)).toList =
      (if negative ∧ ¬(w = 0 ∧ digitsValue ds = 0) then ['-'] else []) ++ Nat.toDigits 10 w ++
        '.' :: ds := by
  have hlt : digitsValue ds < 10000 := by
    have := digitsValue_lt hds
    rwa [hlen] at this
  set u : ℤ := if negative then -(w * SCALE + digitsValue ds : ℤ)
    else w * SCALE + digitsValue ds with hu
  have habs : u.natAbs = w * 10000 + digitsValue ds := by
    rw [hu, SCALE]
    split_ifs <;> omega
  have hneg : u < 0 ↔ negative = true ∧ ¬(w = 0 ∧ digitsValue ds = 0) := by
    rw [hu, SCALE]
    split_ifs with h <;> simp [h] <;> omega
  rw [fromUnits, habs, show (w * 10000 + digitsValue ds) / 10000 = w by omega,
    show (w * 10000 + digitsValue ds) % 10000 = digitsValue ds by omega]
  simp only [String.toList_append, toList_padStart_digitsValue hds hlen, toList_toString, hneg]
  split_ifs <;> simp

theorem isDigit_take_append_zeros (h : ∀ c ∈ fraction, c.isDigit = true) :
    ∀ c ∈ (fraction ++ ['0', '0', '0', '0']).take 4, c.isDigit = true := by
  intro c hc
  rcases mem_append.mp (mem_of_mem_take hc) with hc | hc
  · exact h c hc
  · rw [eq_of_mem_replicate (show c ∈ replicate 4 '0' from hc)]
    rfl

/-- What the units of two sides of a point come to, unless a digit would be lost. -/
def unitsOfParts (negative : Bool) (parts : List Char × List Char) : Option ℤ :=
  if 4 < parts.2.length ∧ hasNonzeroDigit (parts.2.drop 4) then none
  else
    some (if negative then
      -(digitsValue parts.1 * SCALE + digitsValue ((parts.2 ++ ['0', '0', '0', '0']).take 4) : ℤ)
      else digitsValue parts.1 * SCALE + digitsValue ((parts.2 ++ ['0', '0', '0', '0']).take 4))

/-- **The canonical text of the units is the normalized text.** -/
theorem map_fromUnits_unitsOfParts (hwhole : ∀ c ∈ whole, c.isDigit = true)
    (hfraction : ∀ c ∈ fraction, c.isDigit = true) (negative : Bool) :
    (unitsOfParts negative (whole, fraction)).map (fun u => (fromUnits u).toList) =
      normalizedText negative (whole, fraction) 4 := by
  have hplaces := isDigit_take_append_zeros hfraction
  have hlen : ((fraction ++ ['0', '0', '0', '0']).take 4).length = 4 := by simp
  have hpad : padEndZeros 4 (fraction.take 4) = (fraction ++ ['0', '0', '0', '0']).take 4 :=
    (take_append_zeros 4 fraction).symm
  have hzero : Nat.toDigits 10 (digitsValue whole) = ['0'] ↔ digitsValue whole = 0 := by
    refine ⟨fun h => ?_, fun h => by rw [h]; rfl⟩
    rw [← digitsValue_toDigits (digitsValue whole), h]
    rfl
  have hnone : (!hasNonzeroDigit ((fraction ++ ['0', '0', '0', '0']).take 4)) = true ↔
      digitsValue ((fraction ++ ['0', '0', '0', '0']).take 4) = 0 := by
    rw [digitsValue_eq_zero_iff hplaces, hasNonzeroDigit]
    simp
  unfold unitsOfParts normalizedText
  by_cases hlost : 4 < fraction.length ∧ hasNonzeroDigit (fraction.drop 4) = true
  · rw [if_pos hlost, if_pos hlost, map_none]
  · rw [if_neg hlost, if_neg hlost, map_some, toList_fromUnits hplaces hlen]
    simp only [hpad, hzero, hnone, dropLeadingZeros_eq hwhole, Nat.ofNat_pos, if_true]

end Text

/-! ### Agreement -/

theorem toUnitsGeneral_eq {s : List Char} {m : DecimalMatch} (hm : matchDecimal (trim s) = some m)
    (hexp : ¬MAX_EXACT_EXPONENT < |m.exponent.getD 0|) :
    toUnitsGeneral s =
      unitsOfParts m.negative (pointedDigits m.whole m.fraction (m.exponent.getD 0)) := by
  obtain ⟨-, -, hne⟩ := matchDecimal_digits hm
  simp only [toUnitsGeneral, hm, bind_eq_bind, bind_some, if_neg hexp]
  obtain ⟨n, hn | hn⟩ := Int.eq_nat_or_neg (m.exponent.getD 0) <;>
    rcases Nat.eq_zero_or_pos n with rfl | hpos
  · simp only [hn, Nat.cast_zero, pointedDigits_zero hne, lt_irrefl, if_false]
    rfl
  · have hlt : (0 : ℤ) < n := Nat.cast_pos.mpr hpos
    simp only [hn, if_pos hlt, Int.natAbs_natCast, pointedDigits_natCast hne hpos]
    rfl
  · simp only [hn, Nat.cast_zero, neg_zero, pointedDigits_zero hne, lt_irrefl, if_false]
    rfl
  · have hlt : -(n : ℤ) < 0 := neg_neg_of_pos (Nat.cast_pos.mpr hpos)
    simp only [hn, if_neg hlt.not_gt, if_pos hlt, Int.natAbs_neg, Int.natAbs_natCast,
      pointedDigits_neg hne]
    rfl

theorem isDigit_pointedDigits {whole : List Char} (hwhole : ∀ c ∈ whole, c.isDigit = true)
    (hfraction : ∀ c ∈ fraction, c.isDigit = true) (exponent : ℤ) :
    (∀ c ∈ (pointedDigits whole fraction exponent).1, c.isDigit = true) ∧
      ∀ c ∈ (pointedDigits whole fraction exponent).2, c.isDigit = true := by
  have hdigits : ∀ c ∈ if whole ++ fraction = [] then ['0'] else whole ++ fraction,
      c.isDigit = true := by
    split_ifs
    · simp
    · exact fun c hc => (mem_append.mp hc).elim (hwhole c) (hfraction c)
  unfold pointedDigits
  dsimp only
  generalize (if whole ++ fraction = [] then ['0'] else whole ++ fraction) = digits at hdigits ⊢
  split_ifs
  · refine ⟨by simp, fun c hc => ?_⟩
    rcases mem_append.mp hc with hc | hc
    · rw [eq_of_mem_replicate hc]
      rfl
    · exact hdigits c hc
  · have hpadded := isDigit_padEndZeros (p := (whole.length + exponent).toNat) hdigits
    exact ⟨fun c hc => hpadded c (mem_of_mem_take hc),
      fun c hc => hpadded c (mem_of_mem_drop hc)⟩
  · exact ⟨fun c hc => hdigits c (mem_of_mem_take hc),
      fun c hc => hdigits c (mem_of_mem_drop hc)⟩

theorem toUnitsGeneral_agrees (s : List Char) :
    (toUnitsGeneral s).map (fun u => (fromUnits u).toList) = normalizeDecimal s 4 := by
  cases hm : matchDecimal (trim s) with
  | none => simp [toUnitsGeneral, normalizeDecimal, hm]
  | some m =>
    by_cases hexp : MAX_EXACT_EXPONENT < |m.exponent.getD 0|
    · simp [toUnitsGeneral, normalizeDecimal, hm, hexp]
    · obtain ⟨hwhole, hfraction, -⟩ := matchDecimal_digits hm
      obtain ⟨hbefore, hbehind⟩ := isDigit_pointedDigits hwhole hfraction (m.exponent.getD 0)
      rw [toUnitsGeneral_eq hm hexp, map_fromUnits_unitsOfParts hbefore hbehind]
      simp [normalizeDecimal, hm, hexp]

/-- The short cut reads a canonical amount as the general path does. -/
theorem toUnits_eq_toUnitsGeneral (s : List Char) : toUnits s = toUnitsGeneral s := by
  unfold toUnits
  split
  · rename_i negative digits hcanonical
    obtain ⟨m, hm, rfl, hexp, rfl, hlength⟩ := matchDecimal_of_canonical hcanonical
    obtain ⟨-, -, hne⟩ := matchDecimal_digits hm
    have htake : (m.fraction ++ ['0', '0', '0', '0']).take 4 = m.fraction := by
      rw [take_append_of_le_length hlength.ge, take_of_length_le hlength.le]
    have hvalue : (digitsValue (m.whole ++ m.fraction) : ℤ) =
        digitsValue m.whole * SCALE + digitsValue m.fraction := by
      rw [digitsValue_append, hlength, SCALE]
      push_cast
      ring
    have hkept : ¬(4 < m.fraction.length ∧ hasNonzeroDigit (m.fraction.drop 4) = true) :=
      fun hlost => hlost.1.ne' hlength
    rw [toUnitsGeneral_eq hm (by rw [hexp]; decide), hexp, getD_none, pointedDigits_zero hne,
      unitsOfParts, if_neg hkept, htake, hvalue]
  · rfl

/-- **The two decimal readers agree on every text**, and the short cut of the first is none in
what it reads. -/
theorem toUnits_agrees (s : List Char) :
    (toUnits s).map (fun u => (fromUnits u).toList) = normalizeDecimal s 4 ∧
      toUnits s = toUnitsGeneral s := by
  rw [toUnits_eq_toUnitsGeneral]
  exact ⟨toUnitsGeneral_agrees s, rfl⟩

end OpenBooks
