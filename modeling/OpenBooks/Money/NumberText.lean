import OpenBooks.Money.DecimalValue

/-!
# Text as a number

What `Number(text)` makes of a text: white space around it does not count, nothing stands for
zero, and beside decimals there are whole numbers to the bases 16, 8 and 2 and the word
`Infinity`. `numberOfText` is the number before it is rounded to a double, so a
comparison against a constant has to allow for the rounding
(`numberAtLeast400`).
-/

namespace OpenBooks

/-- The digit a character is to a base above ten. -/
def hexDigit (c : Char) : Option ℕ :=
  if c.isDigit then some (c.toNat - '0'.toNat)
  else if 'a' ≤ c ∧ c ≤ 'f' then some (c.toNat - 'a'.toNat + 10)
  else if 'A' ≤ c ∧ c ≤ 'F' then some (c.toNat - 'A'.toNat + 10)
  else none

def digitsToBase (base : ℕ) (ds : List Char) : Option ℕ :=
  if ds = [] then none
  else ds.foldlM (fun n c => (hexDigit c).bind fun d =>
    if d < base then some (base * n + d) else none) 0

/-- A whole number to one of the bases that have a prefix. -/
def prefixedInteger : List Char → Option ℕ
  | '0' :: b :: ds =>
    if b = 'x' ∨ b = 'X' then digitsToBase 16 ds
    else if b = 'o' ∨ b = 'O' then digitsToBase 8 ds
    else if b = 'b' ∨ b = 'B' then digitsToBase 2 ds
    else none
  | _ => none

/-- The least number that is rounded to infinity, up to half a step. -/
def TO_INFINITY : ℚ := 2 ^ 1024

/-- The number a text is converted to, before rounding; nothing where it is not a number. -/
def numberOfText (text : List Char) : Option ℚ :=
  let t := trim text
  if t = [] then some 0
  else if t = "Infinity".toList ∨ t = "+Infinity".toList then some TO_INFINITY
  else if t = "-Infinity".toList then some (-TO_INFINITY)
  else match prefixedInteger t with
    | some n => some n
    | none => (matchDecimal t).map DecimalMatch.value

/-- `Number(text) >= 400`: the step between doubles below 400 is `2⁻⁴⁴`, and from half of it on
they are rounded up. -/
def numberAtLeast400 (text : List Char) : Bool :=
  (numberOfText text).any fun q => 400 - 1 / 2 ^ 45 ≤ q

example : numberAtLeast400 " 4e2 ".toList = true ∧ numberAtLeast400 "0x18f".toList = false ∧
    numberAtLeast400 "ABC".toList = false ∧ numberAtLeast400 [] = false := by decide +kernel

theorem numberOfText_digits {ds : List Char} (hne : ds ≠ [])
    (hds : ∀ c ∈ ds, c.isDigit = true) : numberOfText ds = some (digitsValue ds : ℚ) := by
  have htrim : trim ds = ds :=
    trim_eq_self_of_forall fun c hc => not_isJsWhitespace_of_isDigit (hds c hc)
  have hmatch : matchDecimal ds = some ⟨false, ds, [], none⟩ := by
    have hnone : ∀ c ∈ ([] : List Char), c.isDigit = true := fun _ hc => nomatch hc
    simpa [pointed, htrim] using matchDecimal_shape hds hne hnone False
  have hword : ∀ word : String, (∃ c ∈ word.toList, c.isDigit = false) → ds ≠ word.toList := by
    rintro word ⟨c, hc, hdigit⟩ rfl
    exact absurd (hds c hc) (by simp [hdigit])
  have hprefix : prefixedInteger ds = none := by
    unfold prefixedInteger
    split
    · rename_i b more
      have hb := hds b (by simp)
      have hnot : ∀ c : Char, c.isDigit = false → b ≠ c := fun c hc h => by simp [h, hc] at hb
      simp [hnot 'x' rfl, hnot 'X' rfl, hnot 'o' rfl, hnot 'O' rfl, hnot 'b' rfl, hnot 'B' rfl]
    · rfl
  have hinfinity : ¬(ds = "Infinity".toList ∨ ds = "+Infinity".toList) := by
    rintro (h | h)
    · exact hword "Infinity" ⟨'I', by decide, rfl⟩ h
    · exact hword "+Infinity" ⟨'I', by decide, rfl⟩ h
  have hminus : ds ≠ "-Infinity".toList := hword "-Infinity" ⟨'I', by decide, rfl⟩
  rw [numberOfText, htrim, if_neg hne, if_neg hinfinity, if_neg hminus, hprefix, hmatch]
  simp [DecimalMatch.value, digitsValue]

theorem numberAtLeast400_digits {ds : List Char} (hne : ds ≠ [])
    (hds : ∀ c ∈ ds, c.isDigit = true) :
    numberAtLeast400 ds = decide (400 ≤ digitsValue ds) := by
  rw [numberAtLeast400, numberOfText_digits hne hds, Option.any_some]
  refine decide_eq_decide.mpr ⟨fun h => ?_, fun h => ?_⟩
  · by_contra hlt
    have hle : digitsValue ds ≤ 399 := by omega
    have hq : (digitsValue ds : ℚ) ≤ 399 := by exact_mod_cast hle
    norm_num at h
    linarith
  · have hq : (400 : ℚ) ≤ digitsValue ds := by exact_mod_cast h
    norm_num
    linarith

end OpenBooks
