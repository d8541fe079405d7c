import OpenBooks.Money.DecimalValue

/-!
# One decimal grammar, one canonical form

The response validator and the formula evaluator of the forms read decimal text through the exact
reader of `Money.DecimalText`, exponents allowed: `Forms.canonicalDecimal` is what a submitted value
is stored as, and `Forms.compareExactDecimals` is how two parsed decimals are ordered.

What a decimal text stands for is a rational number (`denoted`), and both functions are about that
number alone:

* the parsed parts stand for it (`value_parseExactDecimalParts`), so the comparison is the order of
  the numbers;
* the rendered text depends on the number and not on the scale it came at
  (`renderExactDecimal_congr`), and reads back as that number (`matchDecimal_renderExactDecimal`).
  So two texts have one canonical text exactly when they stand for one number, and the canonical
  text is its own;
* the money reader finds the ten-thousandths of the same number (`toUnits_of_places`).
-/

namespace OpenBooks

open List Option

namespace Forms

/-- A submitted value as the decimal readers tell them apart. A number is kept as the text it
prints as, which is all they look at: a number that is not finite prints as no decimal. -/
inductive Submitted
  | text (text : List Char)
  | number (text : List Char)
  | other

/-- Exact decimal content of a number. -/
def exactDecimalOfNumber (text : List Char) : Option ExactDecimal :=
  parseExactDecimalParts text true

/-- Normalize a submitted value to canonical exact-decimal text within `maxScale`, or nothing. -/
def canonicalDecimal (value : Submitted) (maxScale : ℕ) : Option (List Char) := do
  let parts ← match value with
    | .number text => exactDecimalOfNumber text
    | .text text => parseExactDecimalParts text true
    | .other => none
  if maxScale < parts.scale then none else some (renderExactDecimal parts.units parts.scale)

/-- Exact comparison of two parsed decimals. -/
def compareExactDecimals (left right : ExactDecimal) : ℤ :=
  let difference := left.units * 10 ^ right.scale - right.units * 10 ^ left.scale
  if difference < 0 then -1 else if 0 < difference then 1 else 0

example : canonicalDecimal (.text " -001.50e1 ".toList) 4 = some "-15".toList := by decide
example : canonicalDecimal (.number "1e-7".toList) 4 = none := by decide

theorem compareExactDecimals_eq (left right : ExactDecimal) :
    compareExactDecimals left right =
      if left.value < right.value then -1 else if right.value < left.value then 1 else 0 := by
  have hleft : (0 : ℚ) < 10 ^ left.scale := by positivity
  have hright : (0 : ℚ) < 10 ^ right.scale := by positivity
  have hlt : left.value < right.value ↔
      left.units * 10 ^ right.scale - right.units * 10 ^ left.scale < 0 := by
    rw [ExactDecimal.value, ExactDecimal.value, div_lt_div_iff₀ hleft hright, sub_neg]
    exact_mod_cast Iff.rfl
  have hgt : right.value < left.value ↔
      0 < left.units * 10 ^ right.scale - right.units * 10 ^ left.scale := by
    rw [ExactDecimal.value, ExactDecimal.value, div_lt_div_iff₀ hright hleft, sub_pos]
    exact_mod_cast Iff.rfl
  simp only [compareExactDecimals, hlt, hgt]

end Forms

/-! ### The rendered text -/

/-- A run of digits without its trailing zeros. -/
def stripZeros (ds : List Char) : List Char := (ds.reverse.dropWhile (· == '0')).reverse

variable (ds : List Char)

theorem stripZeros_append_zeros : ∃ j, ds = stripZeros ds ++ List.replicate j '0' := by
  refine ⟨(ds.reverse.takeWhile (· == '0')).length, ?_⟩
  have hzeros : ds.reverse.takeWhile (· == '0') =
      List.replicate (ds.reverse.takeWhile (· == '0')).length '0' :=
    eq_replicate_of_mem fun c hc => by simpa using mem_takeWhile_imp hc
  calc ds = ds.reverse.reverse := (reverse_reverse ds).symm
    _ = stripZeros ds ++ (ds.reverse.takeWhile (· == '0')).reverse := by
        rw [stripZeros, ← reverse_append, takeWhile_append_dropWhile]
    _ = _ := by rw [hzeros, reverse_replicate, length_replicate]

theorem stripZeros_append_zero : stripZeros (ds ++ ['0']) = stripZeros ds := by
  simp [stripZeros]

theorem isDigit_stripZeros {ds : List Char} (h : ∀ c ∈ ds, c.isDigit = true) :
    ∀ c ∈ stripZeros ds, c.isDigit = true := by
  obtain ⟨j, hj⟩ := stripZeros_append_zeros ds
  intro c hc
  exact h c (hj ▸ mem_append_left _ hc)

/-- Trailing zeros are worth nothing behind a point. -/
theorem value_stripZeros :
    (digitsValue (stripZeros ds) : ℚ) / 10 ^ (stripZeros ds).length =
      digitsValue ds / 10 ^ ds.length := by
  obtain ⟨j, hj⟩ := stripZeros_append_zeros ds
  have hvalue : digitsValue ds = 10 ^ j * digitsValue (stripZeros ds) := by
    have hzeros := digitsValue_zeros j []
    rw [append_nil] at hzeros
    conv_lhs => rw [hj]
    rw [digitsValue_append, length_replicate, hzeros]
    rfl
  have hlen : ds.length = (stripZeros ds).length + j := by
    conv_lhs => rw [hj]
    rw [length_append, length_replicate]
  rw [hvalue, hlen, pow_add]
  push_cast
  field_simp

theorem stripZeros_eq_nil {ds : List Char} (h : stripZeros ds = []) : digitsValue ds = 0 := by
  have hvalue := value_stripZeros ds
  rw [h, show digitsValue [] = 0 from rfl, Nat.cast_zero, zero_div, eq_comm, div_eq_zero_iff] at hvalue
  exact_mod_cast hvalue.resolve_right (by positivity)

/-- Every number below a power of ten has a text of that many digits. -/
theorem exists_digits {n k : ℕ} (h : n < 10 ^ k) :
    ∃ ds : List Char, (∀ c ∈ ds, c.isDigit = true) ∧ ds.length = k ∧ digitsValue ds = n := by
  induction k generalizing n with
  | zero => exact ⟨[], by simp, rfl, (Nat.lt_one_iff.mp h).symm⟩
  | succ k ih =>
    obtain ⟨ds, hds, hlen, hvalue⟩ := ih (n := n / 10) (by rw [pow_succ] at h; omega)
    obtain ⟨c, hc, hcvalue⟩ : ∃ c : Char, c.isDigit = true ∧ c.toNat - '0'.toNat = n % 10 := by
      have hall : ∀ d < 10, (Nat.digitChar d).isDigit = true ∧
          (Nat.digitChar d).toNat - '0'.toNat = d := by decide
      exact ⟨_, hall _ (Nat.mod_lt n (by decide))⟩
    refine ⟨ds ++ [c], ?_, by simp [hlen], ?_⟩
    · intro d hd
      rcases mem_append.mp hd with hd | hd
      · exact hds d hd
      · rwa [mem_singleton.mp hd]
    · rw [digitsValue_append_singleton, hvalue, hcvalue]
      omega

theorem toDigits_eq_zero_iff {n : ℕ} : Nat.toDigits 10 n = ['0'] ↔ n = 0 := by
  refine ⟨fun h => ?_, fun h => by rw [h]; rfl⟩
  rw [← digitsValue_toDigits n, h]
  rfl

/-- **The shape of a canonical text**: its sign, its whole part without leading zeros, and its
decimals without trailing ones. -/
theorem renderExactDecimal_eq (u : ℤ) {ds : List Char} (hds : ∀ c ∈ ds, c.isDigit = true)
    (hvalue : digitsValue ds = u.natAbs % 10 ^ ds.length) :
    renderExactDecimal u ds.length =
      (if u < 0 then ['-'] else []) ++ Nat.toDigits 10 (u.natAbs / 10 ^ ds.length) ++
        pointed (stripZeros ds) := by
  rcases Nat.eq_zero_or_pos ds.length with hlen | hlen
  · obtain rfl := length_eq_zero_iff.mp hlen
    simp [renderExactDecimal, pointed, stripZeros]
  set padded := padStartZeros (ds.length + 1) (Nat.toDigits 10 u.natAbs) with hpadded
  have hdigits : ∀ c ∈ padded, c.isDigit = true := by
    intro c hc
    rcases mem_append.mp hc with hc | hc
    · rw [eq_of_mem_replicate hc]
      rfl
    · exact Nat.isDigit_of_mem_toDigits (by decide) (by decide) hc
  have hlong : ds.length < padded.length := by
    rw [hpadded, padStartZeros, length_append, length_replicate]
    omega
  set cut := padded.length - ds.length with hcut
  have hdrop : (padded.drop cut).length = ds.length := by
    rw [length_drop]
    omega
  -- The digits before and behind the cut are the quotient and the remainder.
  have hwhole : u.natAbs = 10 ^ ds.length * digitsValue (padded.take cut) +
      digitsValue (padded.drop cut) := by
    rw [← hdrop, ← digitsValue_append, take_append_drop, hpadded, padStartZeros,
      digitsValue_zeros, digitsValue_toDigits]
  have hbehind : digitsValue (padded.drop cut) < 10 ^ ds.length :=
    hdrop ▸ digitsValue_lt fun c hc => hdigits c (mem_of_mem_drop hc)
  have hquotient : digitsValue (padded.take cut) = u.natAbs / 10 ^ ds.length := by
    rw [hwhole, Nat.mul_add_div (by positivity), Nat.div_eq_of_lt hbehind, add_zero]
  have hfraction : padded.drop cut = ds := by
    refine digits_eq_of_value (fun c hc => hdigits c (mem_of_mem_drop hc)) hds hdrop ?_
    rw [hvalue, hwhole, Nat.mul_add_mod, Nat.mod_eq_of_lt hbehind]
  have htake : dropLeadingZeros (padded.take cut) =
      Nat.toDigits 10 (u.natAbs / 10 ^ ds.length) := by
    rw [dropLeadingZeros_eq fun c hc => hdigits c (mem_of_mem_take hc), hquotient]
  have hsign : u < 0 → ¬(u.natAbs / 10 ^ ds.length = 0 ∧ stripZeros ds = []) := by
    rintro hneg ⟨hquot, hstrip⟩
    have hmod : u.natAbs % 10 ^ ds.length = 0 := hvalue ▸ stripZeros_eq_nil hstrip
    have := Nat.div_add_mod u.natAbs (10 ^ ds.length)
    rw [hquot, hmod] at this
    omega
  rw [renderExactDecimal, if_neg hlen.ne', toList_toString, ← hpadded]
  dsimp only
  rw [← hcut, hfraction, htake, ← stripZeros]
  simp only [toDigits_eq_zero_iff, pointed]
  by_cases hneg : u < 0
  · rw [if_pos ⟨hneg, hsign hneg⟩, if_pos hneg]
  · rw [if_neg fun h => hneg h.1, if_neg hneg]

theorem renderExactDecimal_succ (u : ℤ) (k : ℕ) :
    renderExactDecimal (u * 10) (k + 1) = renderExactDecimal u k := by
  obtain ⟨ds, hds, rfl, hvalue⟩ := exists_digits (n := u.natAbs % 10 ^ k) (k := k)
    (Nat.mod_lt _ (by positivity))
  have habs : (u * 10).natAbs = u.natAbs * 10 := by rw [Int.natAbs_mul]; rfl
  have hdigits : ∀ c ∈ ds ++ ['0'], c.isDigit = true := by
    intro c hc
    rcases mem_append.mp hc with hc | hc
    · exact hds c hc
    · rw [mem_singleton.mp hc]
      rfl
  have hlast : digitsValue (ds ++ ['0']) = (u * 10).natAbs % 10 ^ (ds ++ ['0']).length := by
    rw [digitsValue_append_singleton, hvalue, length_append, length_singleton, habs,
      pow_succ, Nat.mul_mod_mul_right]
    simp [mul_comm]
  have hnext := renderExactDecimal_eq (u * 10) hdigits hlast
  rw [length_append, length_singleton] at hnext
  rw [hnext, renderExactDecimal_eq u hds hvalue, stripZeros_append_zero, habs, pow_succ,
    Nat.mul_div_mul_right _ _ (by decide)]
  simp only [show u * 10 < 0 ↔ u < 0 by omega]

theorem renderExactDecimal_scale (u : ℤ) (k j : ℕ) :
    renderExactDecimal (u * 10 ^ j) (k + j) = renderExactDecimal u k := by
  induction j with
  | zero => simp
  | succ j ih => rw [pow_succ, ← mul_assoc, ← add_assoc, renderExactDecimal_succ, ih]

/-- **The canonical text depends on the number alone**, not on the scale it came at. -/
theorem renderExactDecimal_congr {p q : ExactDecimal} (h : p.value = q.value) :
    renderExactDecimal p.units p.scale = renderExactDecimal q.units q.scale := by
  obtain ⟨u, k⟩ := p
  obtain ⟨v, l⟩ := q
  wlog hle : k ≤ l generalizing u k v l
  · exact (this v l u k h.symm (by omega)).symm
  obtain ⟨j, rfl⟩ := Nat.exists_eq_add_of_le hle
  have hunits : v = u * 10 ^ j := by
    have hk : (10 : ℚ) ^ k ≠ 0 := by positivity
    have hj : (10 : ℚ) ^ j ≠ 0 := by positivity
    have hcross : (v : ℚ) = u * 10 ^ j := by
      simp only [ExactDecimal.value, pow_add] at h
      field_simp at h
      linarith
    exact_mod_cast hcross
  rw [hunits, renderExactDecimal_scale]

/-! ### Reading a canonical text back -/

/-- **A canonical text reads back as its number**, without an exponent and with no more decimals
than it came with. -/
theorem matchDecimal_renderExactDecimal (parts : ExactDecimal) :
    ∃ m, matchDecimal (trim (renderExactDecimal parts.units parts.scale)) = some m ∧
      m.value = parts.value ∧ m.exponent = none ∧ m.fraction.length ≤ parts.scale := by
  obtain ⟨u, k⟩ := parts
  obtain ⟨ds, hds, rfl, hvalue⟩ := exists_digits (n := u.natAbs % 10 ^ k) (k := k)
    (Nat.mod_lt _ (by positivity))
  refine ⟨⟨decide (u < 0), Nat.toDigits 10 (u.natAbs / 10 ^ ds.length), stripZeros ds, none⟩,
    ?_, ?_, rfl, ?_⟩
  · rw [renderExactDecimal_eq u hds hvalue]
    exact matchDecimal_shape
      (fun c hc => Nat.isDigit_of_mem_toDigits (by decide) (by decide) hc)
      (ne_nil_of_length_pos Nat.length_toDigits_pos) (isDigit_stripZeros hds) _
  · have habs : (u.natAbs : ℚ) = 10 ^ ds.length * (u.natAbs / 10 ^ ds.length : ℕ) +
        (u.natAbs % 10 ^ ds.length : ℕ) := by
      exact_mod_cast (Nat.div_add_mod u.natAbs (10 ^ ds.length)).symm
    have hsign : (if decide (u < 0) = true then -1 else 1) * (u.natAbs : ℚ) = u := by
      rw [Nat.cast_natAbs, Int.cast_abs]
      rcases lt_or_ge u 0 with hneg | hneg
      · rw [if_pos (decide_eq_true hneg), abs_of_neg (by exact_mod_cast hneg)]
        ring
      · rw [if_neg (by simpa using hneg), abs_of_nonneg (by exact_mod_cast hneg), one_mul]
    have hten : (10 : ℚ) ^ ds.length ≠ 0 := by positivity
    rw [DecimalMatch.value, ExactDecimal.value, value_stripZeros, digitsValue_toDigits, hvalue,
      ← hsign, habs]
    simp only [getD_none, zpow_zero, mul_one]
    field_simp
  · obtain ⟨j, hj⟩ := stripZeros_append_zeros ds
    dsimp only
    conv_rhs => rw [hj]
    simp

variable {text : List Char}

theorem toUnits_of_places {m : DecimalMatch} (hm : matchDecimal (trim text) = some m)
    (hexp : m.exponent = none) (hplaces : m.fraction.length ≤ 4) :
    ∃ u, toUnits text = some u ∧ (u : ℚ) = m.value * 10 ^ 4 := by
  have hdecimals : (digitsValue m.fraction : ℚ) / 10 ^ m.fraction.length * 10 ^ 4 =
      10 ^ (4 - m.fraction.length) * digitsValue m.fraction := by
    have hsplit : (10 : ℚ) ^ 4 = 10 ^ (4 - m.fraction.length) * 10 ^ m.fraction.length := by
      rw [← pow_add]
      congr 1
      omega
    rw [hsplit]
    field_simp
  have hwhole : (((if m.negative then -1 else 1) *
      (digitsValue m.whole * 10 ^ 4 + 10 ^ (4 - m.fraction.length) * digitsValue m.fraction) : ℤ) : ℚ)
        = m.value * 10 ^ 4 := by
    rw [DecimalMatch.value, hexp, getD_none, zpow_zero, mul_one, mul_assoc, add_mul, hdecimals]
    push_cast
    rfl
  exact ⟨_, toUnits_eq_some_iff.mpr ⟨m, hm, by rw [hexp]; decide, hwhole⟩, hwhole⟩

theorem toUnits_of_canonicalPlainDecimal {c : List Char}
    (h : canonicalPlainDecimal text 4 = some c) :
    ∃ u, toUnits text = some u ∧ toUnits c = some u ∧ denoted text = some ((u : ℚ) / 10 ^ 4) := by
  obtain ⟨parts, hparts, h⟩ := bind_eq_some_iff.mp h
  split_ifs at h with hscale
  obtain rfl := Option.some.inj h
  obtain ⟨m, hm, hvalue, hlength, hplain⟩ := value_parseExactDecimalParts hparts
  obtain ⟨m', hm', hvalue', hexp', hplaces'⟩ := matchDecimal_renderExactDecimal parts
  have hexp := hplain rfl
  obtain ⟨u, hu, huvalue⟩ := toUnits_of_places hm hexp (by rw [← hlength hexp]; omega)
  obtain ⟨u', hu', huvalue'⟩ := toUnits_of_places hm' hexp' (by omega)
  have hsame : u = u' := by
    have : (u : ℚ) = u' := by rw [huvalue, huvalue', ← hvalue, hvalue']
    exact_mod_cast this
  refine ⟨u, hu, hsame ▸ hu', ?_⟩
  rw [denoted, hm, map_some, huvalue, mul_div_cancel_right₀ _ (by positivity)]

/-! ### Canonical texts -/

namespace Forms

theorem canonicalDecimal_eq_some {c : List Char} {maxScale : ℕ}
    (h : canonicalDecimal (.text text) maxScale = some c) :
    ∃ parts, parseExactDecimalParts text true = some parts ∧ parts.scale ≤ maxScale ∧
      c = renderExactDecimal parts.units parts.scale := by
  obtain ⟨parts, hparts, h⟩ := bind_eq_some_iff.mp h
  dsimp only at h
  split_ifs at h with hscale
  exact ⟨parts, hparts, not_lt.mp hscale, (Option.some.inj h).symm⟩

theorem denoted_renderExactDecimal (parts : ExactDecimal) :
    denoted (renderExactDecimal parts.units parts.scale) = some parts.value := by
  obtain ⟨m, hm, hvalue, -, -⟩ := matchDecimal_renderExactDecimal parts
  rw [denoted, hm, map_some, hvalue]

variable {parts : ExactDecimal}

theorem denoted_of_parts {allowScientific : Bool}
    (h : parseExactDecimalParts text allowScientific = some parts) :
    denoted text = some parts.value := by
  obtain ⟨m, hm, hvalue, -, -⟩ := value_parseExactDecimalParts h
  rw [denoted, hm, map_some, hvalue]

theorem canonicalDecimal_renderExactDecimal {maxScale : ℕ} (hscale : parts.scale ≤ maxScale) :
    canonicalDecimal (.text (renderExactDecimal parts.units parts.scale)) maxScale =
      some (renderExactDecimal parts.units parts.scale) := by
  obtain ⟨m, hm, hvalue, hexp, hplaces⟩ := matchDecimal_renderExactDecimal parts
  have hback := parseExactDecimalParts_of_plain hm hexp true
  have hvalue' : ExactDecimal.value ⟨if m.negative then -(digitsValue (m.whole ++ m.fraction) : ℤ)
      else digitsValue (m.whole ++ m.fraction), m.fraction.length⟩ = parts.value :=
    Option.some.inj ((denoted_of_parts hback).symm.trans (denoted_renderExactDecimal parts))
  rw [canonicalDecimal]
  simp only [hback, bind_eq_bind, bind_some]
  rw [if_neg (by omega), renderExactDecimal_congr hvalue']

/-- **One decimal grammar, one canonical form.** At every scale two texts that are accepted have
one canonical text exactly when they stand for the same number, and that text is canonical
itself; parsed decimals compare as their numbers do; and a plain decimal of four places is read
as the same units as its canonical text. -/
theorem canonicalDecimal_denotes :
    (∀ s t c d m, canonicalDecimal (.text s) m = some c → canonicalDecimal (.text t) m = some d →
      (c = d ↔ denoted s = denoted t) ∧ canonicalDecimal (.text c) m = some c) ∧
    (∀ s t p q, parseExactDecimalParts s true = some p → parseExactDecimalParts t true = some q →
      ∃ x y : ℚ, denoted s = some x ∧ denoted t = some y ∧
        compareExactDecimals p q = if x < y then -1 else if y < x then 1 else 0) ∧
    (∀ s c, canonicalPlainDecimal s 4 = some c → ∃ u, toUnits s = some u ∧ toUnits c = some u) := by
  refine ⟨?_, ?_, ?_⟩
  · intro s t c d m hc hd
    obtain ⟨p, hp, hpscale, rfl⟩ := canonicalDecimal_eq_some hc
    obtain ⟨q, hq, -, rfl⟩ := canonicalDecimal_eq_some hd
    refine ⟨?_, canonicalDecimal_renderExactDecimal hpscale⟩
    rw [denoted_of_parts hp, denoted_of_parts hq, some_inj]
    constructor
    · intro htext
      have hsame := congrArg denoted htext
      rwa [denoted_renderExactDecimal, denoted_renderExactDecimal, some_inj] at hsame
    · exact renderExactDecimal_congr
  · intro s t p q hp hq
    exact ⟨_, _, denoted_of_parts hp, denoted_of_parts hq, compareExactDecimals_eq p q⟩
  · intro s c hc
    obtain ⟨u, hu, hu', -⟩ := toUnits_of_canonicalPlainDecimal hc
    exact ⟨u, hu, hu'⟩

/-- A scientific and a plain spelling of minus fifteen. -/
theorem canonicalDecimal_denotes_respelled :
    canonicalDecimal (.text "-001.50e1".toList) 4 = some "-15".toList ∧
      denoted "-001.50e1".toList = denoted "-15.0".toList :=
  have hleft : canonicalDecimal (.text "-001.50e1".toList) 4 = some "-15".toList := by decide
  have hright : canonicalDecimal (.text "-15.0".toList) 4 = some "-15".toList := by decide
  ⟨hleft, (canonicalDecimal_denotes.1 _ _ _ _ 4 hleft hright).1.mp rfl⟩

end Forms

end OpenBooks
