import OpenBooks.Money.DecimalReaders
import Mathlib.Algebra.Order.Field.Power
import Mathlib.Tactic.FieldSimp
import Mathlib.Tactic.NormNum

/-!
# The number a decimal text stands for

A decimal notation stands for a rational number: its digits around the point, moved by its
exponent (`DecimalMatch.value`, `denoted`). Both readers of decimal text are
readers of that number. The exact one returns parts that stand for it
(`value_parseExactDecimalParts`); the money reader returns its ten-thousandths, and
refuses exactly the texts whose number has none or whose exponent is out of bounds
(`toUnits_eq_some_iff`).
-/

namespace OpenBooks

open List Option

/-! ### The number a text stands for -/

/-- The number a decimal notation stands for: its digits around the point, moved by its
exponent. -/
def DecimalMatch.value (m : DecimalMatch) : ℚ :=
  (if m.negative then -1 else 1) *
    (digitsValue m.whole + digitsValue m.fraction / 10 ^ m.fraction.length) *
    10 ^ (m.exponent.getD 0)

/-- The number a text stands for, when it is a decimal. -/
def denoted (text : List Char) : Option ℚ := (matchDecimal (trim text)).map DecimalMatch.value

/-- The number scaled units stand for. -/
def ExactDecimal.value (d : ExactDecimal) : ℚ := d.units / 10 ^ d.scale

/-! ### The parsed parts -/

theorem DecimalMatch.value_eq (m : DecimalMatch) :
    m.value = (if m.negative then -1 else 1) * digitsValue (m.whole ++ m.fraction) *
      (10 : ℚ) ^ (m.exponent.getD 0 - m.fraction.length) := by
  have hten : (10 : ℚ) ≠ 0 := by norm_num
  rw [DecimalMatch.value, digitsValue_append, zpow_sub₀ hten, zpow_natCast]
  push_cast
  field_simp

variable {text : List Char}

/-- **The parsed parts stand for the number of the text.** Without an exponent their scale is
the number of decimals as written. -/
theorem value_parseExactDecimalParts {allowScientific : Bool} {parts : ExactDecimal}
    (h : parseExactDecimalParts text allowScientific = some parts) :
    ∃ m, matchDecimal (trim text) = some m ∧ parts.value = m.value ∧
      (m.exponent = none → parts.scale = m.fraction.length) ∧
      (allowScientific = false → m.exponent = none) := by
  obtain ⟨m, hm, h⟩ := bind_eq_some_iff.mp h
  dsimp only at h
  by_cases hrefused : (!allowScientific && m.exponent.isSome) = true
  · rw [if_pos hrefused] at h
    cases h
  rw [if_neg hrefused] at h
  by_cases hexp : MAX_EXACT_EXPONENT < |m.exponent.getD 0|
  · rw [if_pos hexp] at h
    cases h
  rw [if_neg hexp] at h
  obtain rfl := Option.some.inj h
  refine ⟨m, hm, ?_, fun hnone => by simp [hnone], fun hplain => by simpa [hplain] using hrefused⟩
  rw [ExactDecimal.value, DecimalMatch.value_eq]
  by_cases hscale : (m.fraction.length : ℤ) - m.exponent.getD 0 < 0
  · obtain ⟨n, hn⟩ := Int.eq_ofNat_of_zero_le (neg_nonneg.mpr hscale.le)
    have hback : m.exponent.getD 0 - m.fraction.length = n := by omega
    rw [hback, zpow_natCast, if_pos hscale, hn, Int.toNat_natCast, Int.toNat_of_nonpos hscale.le]
    cases m.negative <;> simp
  · obtain ⟨n, hn⟩ := Int.eq_ofNat_of_zero_le (not_lt.mp hscale)
    have hback : m.exponent.getD 0 - m.fraction.length = -(n : ℤ) := by omega
    rw [hback, if_neg hscale, hn, Int.toNat_natCast, zpow_neg, zpow_natCast]
    cases m.negative <;> simp [div_eq_mul_inv]

theorem parseExactDecimalParts_of_plain {m : DecimalMatch}
    (hm : matchDecimal (trim text) = some m) (hexp : m.exponent = none) (allowScientific : Bool) :
    parseExactDecimalParts text allowScientific =
      some ⟨if m.negative then -(digitsValue (m.whole ++ m.fraction) : ℤ)
        else digitsValue (m.whole ++ m.fraction), m.fraction.length⟩ := by
  have hcap : ¬MAX_EXACT_EXPONENT < |(0 : ℤ)| := by decide
  have hlen : ¬(m.fraction.length : ℤ) < 0 := by omega
  simp only [parseExactDecimalParts, hm, bind_eq_bind, bind_some, hexp,
    isSome_none, Bool.and_false, Bool.false_eq_true, if_false, getD_none, if_neg hcap,
    sub_zero, if_neg hlen, Int.toNat_natCast]

/-! ### The money reader -/

/-- What the digits around a point are worth. -/
def pointedValue (parts : List Char × List Char) : ℚ :=
  digitsValue parts.1 + digitsValue parts.2 / 10 ^ parts.2.length

theorem digitsValue_append_zeros (ds : List Char) (n : ℕ) :
    digitsValue (ds ++ List.replicate n '0') = 10 ^ n * digitsValue ds := by
  have hzeros := digitsValue_zeros n []
  rw [append_nil] at hzeros
  rw [digitsValue_append, length_replicate, hzeros]
  rfl

theorem pointedValue_cut (ds : List Char) (n : ℕ) :
    pointedValue (ds.take n, ds.drop n) = digitsValue ds / 10 ^ (ds.length - n) := by
  have hten : (10 : ℚ) ^ (ds.length - n) ≠ 0 := by positivity
  conv_rhs => rw [← take_append_drop n ds, digitsValue_append, length_append]
  simp only [pointedValue, length_drop, length_take]
  have hlen : min n ds.length + (ds.length - n) - n = ds.length - n := by omega
  rw [hlen]
  push_cast
  field_simp

theorem pointedValue_pointedDigits {whole fraction : List Char}
    (hne : ¬(whole = [] ∧ fraction = [])) (exponent : ℤ) :
    pointedValue (pointedDigits whole fraction exponent) =
      digitsValue (whole ++ fraction) * (10 : ℚ) ^ (exponent - fraction.length) := by
  have hdigits : whole ++ fraction ≠ [] := by simpa using hne
  have hten : (10 : ℚ) ≠ 0 := by norm_num
  rw [pointedDigits, if_neg hdigits]
  dsimp only
  by_cases hindex : (whole.length : ℤ) + exponent ≤ 0
  · rw [if_pos hindex, pointedValue, digitsValue_zeros, length_append, length_replicate,
      length_append]
    obtain ⟨k, hk⟩ := Int.eq_ofNat_of_zero_le (neg_nonneg.mpr hindex)
    have hback : exponent - fraction.length =
        -((k + (whole.length + fraction.length) : ℕ) : ℤ) := by
      push_cast
      omega
    rw [hk, Int.toNat_natCast, hback, zpow_neg, zpow_natCast, show digitsValue [] = 0 from rfl]
    simp [div_eq_mul_inv]
  · obtain ⟨k, hk⟩ := Int.eq_ofNat_of_zero_le (not_le.mp hindex).le
    rw [if_neg hindex, hk, Int.toNat_natCast, pointedValue_cut]
    by_cases hlong : ((whole ++ fraction).length : ℤ) ≤ (k : ℤ)
    · have hlen : (whole ++ fraction).length = whole.length + fraction.length :=
        length_append
      obtain ⟨j, hj⟩ := Nat.exists_eq_add_of_le (Int.ofNat_le.mp hlong)
      have hback : exponent - fraction.length = j := by omega
      have hpad : padEndZeros k (whole ++ fraction) =
          whole ++ fraction ++ replicate j '0' := by
        rw [padEndZeros, hj, Nat.add_sub_cancel_left]
      have hnone : (whole ++ fraction ++ replicate j '0').length - k = 0 := by
        rw [length_append, length_replicate, hj, Nat.sub_self]
      rw [if_pos hlong, hpad, hnone, pow_zero, div_one, digitsValue_append_zeros, hback,
        zpow_natCast]
      push_cast
      ring
    · obtain ⟨j, hj⟩ := Nat.exists_eq_add_of_le (Int.ofNat_le.mp (not_le.mp hlong).le)
      have hlen : (whole ++ fraction).length = whole.length + fraction.length :=
        length_append
      have hback : exponent - fraction.length = -(j : ℤ) := by omega
      rw [if_neg hlong, hj, Nat.add_sub_cancel_left, hback, zpow_neg, zpow_natCast, div_eq_mul_inv]

/-- The units are the ten-thousandths of what the digits are worth, when these are whole. -/
theorem unitsOfParts_eq_some_iff {parts : List Char × List Char} {negative : Bool} {u : ℤ}
    (hdigits : ∀ c ∈ parts.2, c.isDigit = true) :
    unitsOfParts negative parts = some u ↔
      (u : ℚ) = (if negative then -1 else 1) * pointedValue parts * 10 ^ 4 := by
  have hunits : ∀ n : ℕ, (((if negative then -(digitsValue parts.1 * SCALE + n : ℤ)
      else digitsValue parts.1 * SCALE + n) : ℤ) : ℚ) =
        (if negative then -1 else 1) * (digitsValue parts.1 * 10 ^ 4 + n) := by
    intro n
    cases negative <;> simp only [Bool.false_eq_true, if_true, if_false, SCALE] <;> push_cast <;>
      ring
  have hsign : (if negative then -1 else 1 : ℚ) ≠ 0 := by cases negative <;> norm_num
  rw [unitsOfParts]
  rcases le_or_gt parts.2.length 4 with hshort | hlong
  · have hpad : (parts.2 ++ ['0', '0', '0', '0']).take 4 =
        parts.2 ++ replicate (4 - parts.2.length) '0' := by
      rw [show ['0', '0', '0', '0'] = replicate 4 '0' from rfl, take_append,
        take_of_length_le hshort, take_replicate, Nat.min_eq_left (by omega)]
    have hsplit : (10 : ℚ) ^ 4 = 10 ^ (4 - parts.2.length) * 10 ^ parts.2.length := by
      rw [← pow_add]
      congr 1
      omega
    have hvalue : pointedValue parts * 10 ^ 4 =
        digitsValue parts.1 * 10 ^ 4 + ((10 ^ (4 - parts.2.length) * digitsValue parts.2 : ℕ) : ℚ) := by
      rw [pointedValue, add_mul, hsplit]
      push_cast
      field_simp
    rw [if_neg fun h => h.1.not_ge hshort, some_inj, hpad, digitsValue_append_zeros,
      mul_assoc, hvalue, ← hunits, Int.cast_inj, eq_comm]
  · have htake : (parts.2 ++ ['0', '0', '0', '0']).take 4 = parts.2.take 4 :=
      take_append_of_le_length hlong.le
    set k := parts.2.length - 4 with hk
    have hbehind : digitsValue (parts.2.drop 4) < 10 ^ k := by
      rw [hk, ← length_drop]
      exact digitsValue_lt fun c hc => hdigits c (mem_of_mem_drop hc)
    have hten : (10 : ℚ) ^ k ≠ 0 := by positivity
    -- The digits past the fourth are what is left of a whole ten-thousandth.
    have hvalue : pointedValue parts * 10 ^ 4 * 10 ^ k =
        (digitsValue parts.1 * 10 ^ 4 + digitsValue (parts.2.take 4)) * 10 ^ k +
          digitsValue (parts.2.drop 4) := by
      have hlen : parts.2.length = 4 + k := by omega
      have hwhole : digitsValue parts.2 =
          10 ^ k * digitsValue (parts.2.take 4) + digitsValue (parts.2.drop 4) := by
        conv_lhs => rw [← take_append_drop 4 parts.2]
        rw [digitsValue_append, length_drop]
      rw [pointedValue, hwhole, hlen, pow_add]
      push_cast
      field_simp
      ring
    have hlost : (4 < parts.2.length ∧ hasNonzeroDigit (parts.2.drop 4) = true) ↔
        digitsValue (parts.2.drop 4) ≠ 0 := by
      rw [Ne, digitsValue_eq_zero_iff fun c hc => hdigits c (mem_of_mem_drop hc)]
      simp [hasNonzeroDigit, hlong]
    by_cases hzero : digitsValue (parts.2.drop 4) = 0
    · have hexact : pointedValue parts * 10 ^ 4 =
          digitsValue parts.1 * 10 ^ 4 + digitsValue (parts.2.take 4) := by
        rw [hzero, Nat.cast_zero, add_zero] at hvalue
        exact mul_right_cancel₀ hten hvalue
      rw [if_neg fun h => hlost.mp h hzero, some_inj, htake, mul_assoc, hexact, ← hunits,
        Int.cast_inj, eq_comm]
    · rw [if_pos (hlost.mpr hzero)]
      refine ⟨fun h => (by cases h), fun h => absurd ?_ hzero⟩
      have hdvd : (10 : ℤ) ^ k ∣ digitsValue (parts.2.drop 4) := by
        refine ⟨(if negative then -1 else 1) * u -
          (digitsValue parts.1 * 10 ^ 4 + digitsValue (parts.2.take 4)), ?_⟩
        have hcast : ((if negative then -1 else 1 : ℚ) * u) * 10 ^ k =
            pointedValue parts * 10 ^ 4 * 10 ^ k := by
          rw [h]
          cases negative <;> simp
        rw [hvalue] at hcast
        have hgoal : (digitsValue (parts.2.drop 4) : ℚ) = 10 ^ k *
            ((if negative then -1 else 1) * u -
              (digitsValue parts.1 * 10 ^ 4 + digitsValue (parts.2.take 4))) := by
          linarith
        exact_mod_cast hgoal
      have := Int.eq_zero_of_dvd_of_nonneg_of_lt (by positivity) (by exact_mod_cast hbehind) hdvd
      exact_mod_cast this

/-- **The money reader reads the number of the text**, when it has whole ten-thousandths and its
exponent is within bounds. -/
theorem toUnits_eq_some_iff {u : ℤ} :
    toUnits text = some u ↔ ∃ m, matchDecimal (trim text) = some m ∧
      |m.exponent.getD 0| ≤ MAX_EXACT_EXPONENT ∧ (u : ℚ) = m.value * 10 ^ 4 := by
  rw [toUnits_eq_toUnitsGeneral]
  cases hm : matchDecimal (trim text) with
  | none => simp [toUnitsGeneral, hm]
  | some m =>
    simp only [Option.some.injEq, exists_eq_left']
    by_cases hexp : MAX_EXACT_EXPONENT < |m.exponent.getD 0|
    · simp [toUnitsGeneral, hm, hexp]
    · obtain ⟨hwhole, hfraction, hne⟩ := matchDecimal_digits hm
      obtain ⟨-, hbehind⟩ := isDigit_pointedDigits hwhole hfraction (m.exponent.getD 0)
      rw [toUnitsGeneral_eq hm hexp, unitsOfParts_eq_some_iff hbehind,
        pointedValue_pointedDigits hne, DecimalMatch.value_eq, ← mul_assoc]
      exact (and_iff_right (not_lt.mp hexp)).symm

/-! ### Texts of the plain shape -/

/-- Decimals behind their point, and no point without decimals. -/
def pointed (fraction : List Char) : List Char := if fraction = [] then [] else '.' :: fraction

theorem trim_eq_self_of_forall (h : ∀ c ∈ text, isJsWhitespace c = false) : trim text = text := by
  have hkeep : ∀ l : List Char, (∀ c ∈ l, isJsWhitespace c = false) →
      l.dropWhile isJsWhitespace = l := by
    intro l hl
    cases l with
    | nil => rfl
    | cons c l => exact dropWhile_cons_of_neg (by simp [hl c mem_cons_self])
  rw [trim, hkeep text h, hkeep _ fun c hc => h c (mem_reverse.mp hc), reverse_reverse]

section Back

variable {whole fraction : List Char}

theorem takeWhile_whole (hwhole : ∀ c ∈ whole, c.isDigit = true) (fraction : List Char) :
    (whole ++ pointed fraction).takeWhile Char.isDigit = whole ∧
      (whole ++ pointed fraction).dropWhile Char.isDigit = pointed fraction := by
  have hpoint : (pointed fraction).takeWhile Char.isDigit = [] ∧
      (pointed fraction).dropWhile Char.isDigit = pointed fraction := by
    unfold pointed
    split_ifs
    · exact ⟨rfl, rfl⟩
    · exact ⟨takeWhile_cons_of_neg (by decide), dropWhile_cons_of_neg (by decide)⟩
  rw [takeWhile_append_of_pos hwhole, dropWhile_append_of_pos hwhole, hpoint.1, hpoint.2,
    append_nil]
  exact ⟨rfl, rfl⟩

/-- The mantissa behind the sign, read into its two sides. -/
theorem matchDecimal_mantissa {body : List Char} {negative : Bool}
    (htake : body.takeWhile Char.isDigit = whole)
    (hdrop : body.dropWhile Char.isDigit = pointed fraction) (hne : whole ≠ [])
    (hfraction : ∀ c ∈ fraction, c.isDigit = true)
    (hsign : (match text with
      | '-' :: rest => (true, rest)
      | '+' :: rest => (false, rest)
      | rest => (false, rest)) = (negative, body)) :
    matchDecimal text = some ⟨negative, whole, fraction, none⟩ := by
  have htakeF := takeWhile_eq_self_iff.mpr hfraction
  have hdropF := dropWhile_eq_nil_iff.mpr hfraction
  unfold matchDecimal
  split
  rename_i negative' body' hpair
  obtain ⟨rfl, rfl⟩ := Prod.mk.inj (hsign.symm.trans hpair)
  dsimp only
  rw [htake, hdrop]
  unfold pointed
  by_cases hnil : fraction = []
  · rw [if_pos hnil, hnil, if_neg fun h => hne h.1]
  · simp only [if_neg hnil, htakeF, hdropF, hne, false_and, if_false]

/-- A text of the canonical shape has the parts it was written with. -/
theorem matchDecimal_shape (hwhole : ∀ c ∈ whole, c.isDigit = true) (hne : whole ≠ [])
    (hfraction : ∀ c ∈ fraction, c.isDigit = true) (negative : Prop) [Decidable negative] :
    matchDecimal (trim ((if negative then ['-'] else []) ++ whole ++ pointed fraction)) =
      some ⟨decide negative, whole, fraction, none⟩ := by
  have hplain : ∀ c ∈ (if negative then ['-'] else []) ++ whole ++ pointed fraction,
      isJsWhitespace c = false := by
    intro c hc
    rcases mem_append.mp hc with hc | hc
    · rcases mem_append.mp hc with hc | hc
      · split_ifs at hc
        · rw [mem_singleton.mp hc]
          decide
        · cases hc
      · exact not_isJsWhitespace_of_isDigit (hwhole c hc)
    · unfold pointed at hc
      split_ifs at hc
      · cases hc
      · rcases mem_cons.mp hc with rfl | hc
        · decide
        · exact not_isJsWhitespace_of_isDigit (hfraction c hc)
  rw [trim_eq_self_of_forall hplain]
  obtain ⟨htake, hdrop⟩ := takeWhile_whole hwhole fraction
  by_cases hneg : negative
  · rw [if_pos hneg, decide_eq_true hneg, append_assoc, singleton_append]
    exact matchDecimal_mantissa htake hdrop hne hfraction rfl
  · rw [if_neg hneg, decide_eq_false hneg, nil_append]
    refine matchDecimal_mantissa htake hdrop hne hfraction ?_
    obtain ⟨first, rest, rfl⟩ := exists_cons_of_ne_nil hne
    have hfirst := hwhole first mem_cons_self
    split
    · rename_i heq
      rw [(List.cons.inj heq).1] at hfirst
      cases hfirst
    · rename_i heq
      rw [(List.cons.inj heq).1] at hfirst
      cases hfirst
    · rfl

end Back

/-- The text of an amount reads back as the amount. -/
theorem toUnits_fromUnits (u : ℤ) : toUnits (fromUnits u).toList = some u := by
  obtain ⟨ds, hds, hlen, hvalue⟩ : ∃ ds : List Char, (∀ c ∈ ds, c.isDigit = true) ∧
      ds.length = 4 ∧ digitsValue ds = u.natAbs % 10000 := by
    refine ⟨padStartZeros 4 (Nat.toDigits 10 (u.natAbs % 10000)), ?_, ?_, ?_⟩
    · intro c hc
      rcases mem_append.mp hc with hc | hc
      · rw [eq_of_mem_replicate hc]
        rfl
      · exact Nat.isDigit_of_mem_toDigits (by decide) (by decide) hc
    · have hfits := (Nat.length_toDigits_le_iff (b := 10) (n := u.natAbs % 10000) (k := 4)
        (by decide) (by decide)).mpr (Nat.mod_lt _ (by decide))
      rw [padStartZeros, length_append, length_replicate]
      omega
    · rw [padStartZeros, digitsValue_zeros, digitsValue_toDigits]
  set w := u.natAbs / 10000 with hw
  have hsplit : (u.natAbs : ℤ) = w * SCALE + digitsValue ds := by
    rw [hvalue, hw, SCALE]
    omega
  have hunits : u = if decide (u < 0) = true then -(w * SCALE + digitsValue ds : ℤ)
      else w * SCALE + digitsValue ds := by
    rw [← hsplit]
    split_ifs with h <;> simp at h <;> omega
  have htext := toList_fromUnits (w := w) hds hlen (decide (u < 0))
  rw [← hunits] at htext
  have hne : ds ≠ [] := by
    rintro rfl
    cases hlen
  have hpointed : '.' :: ds = pointed ds := (if_neg hne).symm
  rw [htext, hpointed, toUnits_eq_some_iff]
  have hdigits : ∀ c ∈ Nat.toDigits 10 w, c.isDigit = true :=
    fun c hc => Nat.isDigit_of_mem_toDigits (by decide) (by decide) hc
  refine ⟨_, matchDecimal_shape hdigits (ne_nil_of_length_pos Nat.length_toDigits_pos) hds _,
    (by decide : |(0 : ℤ)| ≤ MAX_EXACT_EXPONENT), ?_⟩
  have hnegative : decide (decide (u < 0) = true ∧ ¬(w = 0 ∧ digitsValue ds = 0)) =
      decide (u < 0) := by
    rw [decide_eq_decide]
    simp only [decide_eq_true_eq]
    rw [SCALE] at hsplit
    omega
  rw [DecimalMatch.value, hnegative, hlen, digitsValue_toDigits]
  conv_lhs => rw [hunits]
  rw [SCALE]
  cases decide (u < 0) <;> simp <;> ring

/-- **An amount survives its text**: what `fromUnits` writes is read back as the same units, and a
text is read as these units just when its number, with an exponent within bounds, is exactly
theirs, so that no digit beyond the fourth place is ever dropped. -/
theorem money_text_exact (u : ℤ) : toUnits (fromUnits u).toList = some u ∧
    ∀ text, toUnits text = some u ↔ ∃ m, matchDecimal (trim text) = some m ∧
      |m.exponent.getD 0| ≤ MAX_EXACT_EXPONENT ∧ (u : ℚ) = m.value * 10 ^ 4 :=
  ⟨toUnits_fromUnits u, fun _ => toUnits_eq_some_iff⟩

end OpenBooks
