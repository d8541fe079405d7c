import OpenBooks.Expression.Typing
import OpenBooks.Money.DecimalValue

/-!
# Running a compiled expression is safe

A well-typed tree over bound inputs evaluates to a value of its unit, or is refused for its numbers:
a clamp out of order, the digit limit, or a zero divisor (`evaluate_delivers`). The events that the
source leaves to its checker – a truth value against a number, an input without a value, an argument
that is not there, a unit mismatch – do not occur.

`compiled_delivers` carries this through `compileExpression` and the reading of inputs. The text
returned stands for the rounded amount (`rounded_denotes`).
-/

namespace OpenBooks

open Checked List

/-! ### Values and faults -/

/-- A value of a unit: a truth value exactly for the boolean one. -/
def HasType (type : ExpressionType) : Value → Prop
  | .boolean _ => type = .boolean
  | .number r => type ≠ .boolean ∧ 0 < r.denominator

/-- The refusals that a well-typed formula can come to. -/
def Permitted : EvaluationFault → Prop
  | .refused e => e.code = .invalidInput ∨ e.code = .limit ∨ e.code = .divisionByZero
  | _ => False

/-- A refusal of the language that is permitted. -/
def PermittedError (e : ExpressionError) : Prop := Permitted (.refused e)

theorem delivers_refused {α : Type} {P : α → Prop} {x : Except ExpressionError α}
    (h : Delivers PermittedError P x) : Delivers Permitted P (refused x) :=
  h.mapError fun _ he => he

def Bound (Γ : String → ExpressionType → Prop) (inputs : String → Option Value) : Prop :=
  ∀ name type, Γ name type → ∃ v, inputs name = some v ∧ HasType type v

section Values

variable {type : ExpressionType} {v : Value}

theorem HasType.asRational (h : HasType type v) (htype : type ≠ .boolean) :
    ∃ r, v = .number r ∧ v.asRational = .ok r ∧ 0 < r.denominator := by
  cases v with
  | number r => exact ⟨r, rfl, rfl, h.2⟩
  | boolean b => exact absurd h htype

theorem HasType.boolean (h : HasType .boolean v) : ∃ b, v = .boolean b := by
  cases v with
  | number r => exact absurd rfl h.1
  | boolean b => exact ⟨b, rfl⟩

/-- A fraction of a formula is refused for a zero divisor or for its size. -/
theorem formulaRational_delivers (a b : ℤ) :
    Delivers PermittedError (fun r : Rational => 0 < r.denominator) (formulaRational a b) := by
  cases h : formulaRational a b with
  | ok r => exact formulaRational_pos h
  | error e =>
    unfold formulaRational at h
    split at h
    · cases h
    · rw [← Except.error.inj h]
      exact .inr (.inr rfl)
    · rw [← Except.error.inj h]
      exact .inr (.inl rfl)

theorem productType_ne {a b t : ExpressionType} {divide : Bool} (ha : a ≠ .boolean)
    (hb : b ≠ .boolean) (h : productType a b divide = .ok t) : t ≠ .boolean := by
  unfold productType productType.incompatible at h
  repeat' split at h
  all_goals cases h
  all_goals first
    | assumption
    | simp

/-! ### Operations -/

variable {operator : Operator}

theorem numberOperation_delivers {a b : Rational}
    (hop : operator = .add ∨ operator = .sub ∨ operator = .mul ∨ operator = .div)
    (htype : type ≠ .boolean) :
    Delivers Permitted (HasType type) (numberOperation operator a b) := by
  rcases hop with rfl | rfl | rfl | rfl <;>
    exact (delivers_refused (formulaRational_delivers _ _)).map fun r hr => ⟨htype, hr⟩

theorem comparison_delivers (hop : operator ∈ comparisons.map Prod.snd) (a b : Rational) :
    Delivers Permitted (HasType .boolean) (numberOperation operator a b) := by
  simp only [comparisons, map_cons, map_nil, mem_cons, not_mem_nil, or_false] at hop
  rcases hop with rfl | rfl | rfl | rfl | rfl | rfl <;> rfl

variable {values : List Rational}

theorem clampValue_delivers (hlen : values.length = 3) (hpos : ∀ r ∈ values, 0 < r.denominator) :
    Delivers Permitted (fun r : Rational => 0 < r.denominator) (clampValue values) := by
  match values, hlen with
  | [value, low, high], _ =>
    simp only [clampValue]
    split_ifs
    · exact .inl rfl
    all_goals exact hpos _ (by simp)

theorem extremeValue_mem {sign : ℤ} (hne : values ≠ []) :
    ∃ r ∈ values, extremeValue sign values = .ok r := by
  match values, hne with
  | first :: rest, _ =>
    refine ⟨_, ?_, rfl⟩
    -- the chosen value is one of those seen
    have hmem : ∀ (rest : List Rational) (chosen : Rational),
        rest.foldl (fun chosen value =>
          if compareRational value chosen * sign < 0 then value else chosen) chosen ∈
            chosen :: rest := by
      intro rest
      induction rest with
      | nil => simp
      | cons x rest ih =>
        intro chosen
        rw [foldl_cons]
        have := ih (if compareRational x chosen * sign < 0 then x else chosen)
        rw [mem_cons] at this
        rcases this with h | h
        · rw [h]
          split_ifs <;> simp
        · simp [h]
    exact hmem rest first

end Values

/-! ### Trees -/

section Trees

variable {Γ : String → ExpressionType → Prop} {inputs : String → Option Value} {args : List Node}

theorem evaluateEvery_delivers
    (h : ∀ arg ∈ args, Delivers Permitted (HasType .boolean) (evaluate inputs arg)) :
    Delivers Permitted (fun _ => True) (evaluateEvery inputs args) := by
  induction args with
  | nil => exact trivial
  | cons arg args ih =>
    rw [evaluateEvery]
    refine (h arg (by simp)).bind fun v _ => ?_
    split_ifs
    · exact ih fun a ha => h a (by simp [ha])
    · exact trivial

theorem evaluateSome_delivers
    (h : ∀ arg ∈ args, Delivers Permitted (HasType .boolean) (evaluate inputs arg)) :
    Delivers Permitted (fun _ => True) (evaluateSome inputs args) := by
  induction args with
  | nil => exact trivial
  | cons arg args ih =>
    rw [evaluateSome]
    refine (h arg (by simp)).bind fun v _ => ?_
    split_ifs
    · exact trivial
    · exact ih fun a ha => h a (by simp [ha])

theorem evaluateAmounts_delivers {type : ExpressionType} (htype : type ≠ .boolean)
    (h : ∀ arg ∈ args, Delivers Permitted (HasType type) (evaluate inputs arg)) :
    Delivers Permitted (fun values : List Rational => values.length = args.length ∧
      ∀ r ∈ values, 0 < r.denominator) (evaluateAmounts inputs args) := by
  induction args with
  | nil => exact ⟨rfl, by simp⟩
  | cons arg args ih =>
    rw [evaluateAmounts]
    refine (h arg (by simp)).bind fun v hv => ?_
    obtain ⟨r, -, hr, hpos⟩ := hv.asRational htype
    rw [hr]
    refine (ih fun a ha => h a (by simp [ha])).bind fun values hvalues => ?_
    exact ⟨by simp [hvalues.1], forall_mem_cons.mpr ⟨hpos, hvalues.2⟩⟩

/-- **A well-typed tree delivers a value of its unit.** -/
theorem evaluate_delivers (hbound : Bound Γ inputs) {n : Node} (h : WellTyped Γ n) :
    Delivers Permitted (HasType n.type) (evaluate inputs n) := by
  induction h with
  | literal hden ht =>
    rw [evaluate]
    exact ⟨ht, hden⟩
  | @input name type hΓ =>
    obtain ⟨v, hv, htype⟩ := hbound name type hΓ
    rw [evaluate, hv]
    exact htype
  | @signed operand type _ _ ho ht ih =>
    rw [evaluate]
    refine ih.bind fun v hv => ?_
    obtain ⟨r, -, hr, hpos⟩ := hv.asRational ho
    rw [hr]
    exact ⟨ht, hpos⟩
  | @negate operand _ _ ho ih =>
    rw [evaluate]
    refine ih.bind fun v hv => ?_
    obtain ⟨r, -, hr, hpos⟩ := hv.asRational ho
    rw [hr]
    exact ⟨ho, hpos⟩
  | @additive operator left right hop _ _ hnum heq ihl ihr =>
    rw [evaluate]
    refine ihl.bind fun l hl => ihr.bind fun r hr => ?_
    obtain ⟨a, rfl, -⟩ := hl.asRational hnum
    obtain ⟨b, rfl, -⟩ := hr.asRational (heq ▸ hnum)
    exact numberOperation_delivers (by tauto) hnum
  | @multiplicative operator left right type hop _ _ hl hr hp ihl ihr =>
    rw [evaluate]
    refine ihl.bind fun lv hlv => ihr.bind fun rv hrv => ?_
    obtain ⟨a, rfl, -⟩ := hlv.asRational hl
    obtain ⟨b, rfl, -⟩ := hrv.asRational hr
    exact numberOperation_delivers (by tauto) (productType_ne hl hr hp)
  | @comparison operator left right hop _ _ heq _ ihl ihr =>
    rw [evaluate]
    refine ihl.bind fun l hl => ihr.bind fun r hr => ?_
    -- both sides are truth values or both are numbers, having one unit
    by_cases hbool : left.type = .boolean
    · obtain ⟨a, rfl⟩ := (hbool ▸ hl).boolean
      obtain ⟨b, rfl⟩ := ((heq.symm.trans hbool) ▸ hr).boolean
      exact rfl
    · obtain ⟨a, rfl, -⟩ := hl.asRational hbool
      obtain ⟨b, rfl, -⟩ := hr.asRational (heq ▸ hbool)
      exact comparison_delivers hop a b
  | @conditional condition yes no _ _ _ _ heq ihc ihy ihn =>
    rw [evaluate]
    refine ihc.bind fun c _ => ?_
    split_ifs
    · exact ihy
    · exact heq ▸ ihn
  | @connective function args hf hne _ ht ih =>
    have hargs : ∀ arg ∈ args, Delivers Permitted (HasType .boolean) (evaluate inputs arg) :=
      fun arg harg => ht arg harg ▸ ih arg harg
    rcases hf with rfl | rfl | rfl
    · rw [evaluate]
      exact (evaluateEvery_delivers hargs).map fun _ _ => rfl
    · rw [evaluate]
      exact (evaluateSome_delivers hargs).map fun _ _ => rfl
    · obtain ⟨arg, rest, rfl⟩ := exists_cons_of_ne_nil hne
      rw [evaluate]
      exact (hargs arg (by simp)).bind fun _ _ => rfl
  | @choice function args type hf hne _ ht hnum ih =>
    have hargs : ∀ arg ∈ args, Delivers Permitted (HasType type) (evaluate inputs arg) :=
      fun arg harg => ht arg harg ▸ ih arg harg
    have hextreme : ∀ sign, Delivers Permitted (HasType type)
        (evaluateAmounts inputs args >>= fun values => .number <$> extremeValue sign values) := by
      intro sign
      refine (evaluateAmounts_delivers hnum hargs).bind fun values hvalues => ?_
      have hvne : values ≠ [] := by
        rintro rfl
        exact hne (length_eq_zero_iff.mp hvalues.1.symm)
      obtain ⟨r, hr, hok⟩ := extremeValue_mem hvne
      rw [hok]
      exact ⟨hnum, hvalues.2 r hr⟩
    rcases hf with rfl | rfl | ⟨rfl, hlen⟩
    · rw [evaluate]
      exact hextreme 1
    · rw [evaluate]
      exact hextreme (-1)
    · rw [evaluate]
      refine (evaluateAmounts_delivers hnum hargs).bind fun values hvalues => ?_
      exact (clampValue_delivers (hvalues.1.trans hlen) hvalues.2).map fun r hr => ⟨hnum, hr⟩

end Trees

/-! ### Rounding -/

/-- Decimal text: an optional minus, digits, and as many places as the scale. -/
def IsDecimalText (scale : ℕ) (text : List Char) : Prop :=
  ∃ sign whole places : List Char, (sign = [] ∨ sign = ['-']) ∧ whole ≠ [] ∧
    places.length = scale ∧ (∀ c ∈ whole ++ places, c.isDigit) ∧
    text = sign ++ whole ++ if scale = 0 then [] else '.' :: places

theorem isDigit_toDigits (n : ℕ) : ∀ c ∈ Nat.toDigits 10 n, c.isDigit :=
  fun _ hc => Nat.isDigit_of_mem_toDigits (by decide) (by decide) hc

theorem padStartZeros_toDigits {width n : ℕ} (hwidth : 0 < width) (hn : n < 10 ^ width) :
    (padStartZeros width (Nat.toDigits 10 n)).length = width ∧
      ∀ c ∈ padStartZeros width (Nat.toDigits 10 n), c.isDigit := by
  have hlen := (Nat.length_toDigits_le_iff (by decide) hwidth).mpr hn
  refine ⟨by simp only [padStartZeros, length_append, length_replicate]; omega, ?_⟩
  intro c hc
  rcases mem_append.mp hc with hc | hc
  · rw [eq_of_mem_replicate hc]
    rfl
  · exact isDigit_toDigits n c hc

theorem isDecimalText_decimalText (scale : ℕ) (units : ℤ) :
    IsDecimalText scale (decimalText scale units) := by
  have hsign : (if units < 0 then ['-'] else ([] : List Char)) = [] ∨
      (if units < 0 then ['-'] else ([] : List Char)) = ['-'] := by
    split_ifs <;> simp
  have hwhole : wholeDigits scale units ≠ [] := Nat.toDigits_ne_nil
  rcases Nat.eq_zero_or_pos scale with rfl | hpos
  · refine ⟨_, wholeDigits 0 units, [], hsign, hwhole, rfl, ?_, by simp [decimalText]⟩
    rw [append_nil]
    exact isDigit_toDigits _
  · obtain ⟨hlen, hplaces⟩ := padStartZeros_toDigits hpos
      (Nat.mod_lt units.natAbs (Nat.pow_pos (by decide : 0 < 10)))
    refine ⟨_, wholeDigits scale units, _, hsign, hwhole, hlen, fun c hc => ?_, ?_⟩
    · rcases mem_append.mp hc with hc | hc
      · exact isDigit_toDigits _ c hc
      · exact hplaces c hc
    · simp [decimalText, hpos.ne']

theorem rounded_delivers (r : Rational) (rounding : ExpressionRounding) :
    Delivers PermittedError (IsDecimalText rounding.scale) (rounded r rounding) := by
  refine (Delivers.refuseIf fun _ => .inl rfl).bind fun _ _ => ?_
  refine (Delivers.refuseIf fun _ => .inr (.inl rfl)).bind fun _ _ => ?_
  exact isDecimalText_decimalText _ _

/-! ### Inputs -/

theorem decimal_delivers (raw : RawValue) (label : String) :
    Delivers PermittedError (fun r : Rational => 0 < r.denominator) (decimal raw label) := by
  refine (Delivers.refuseIf fun _ => .inr (.inl rfl)).bind fun _ _ => ?_
  refine (Delivers.orRefuse fun _ => .inl rfl).bind fun text _ => ?_
  refine (Delivers.refuseIf fun _ => .inr (.inl rfl)).bind fun _ _ => ?_
  exact formulaRational_delivers _ _

variable {types : List (String × ExpressionType)}

theorem readInput_delivers {name : String} {type : ExpressionType}
    (htype : types.lookup name = some type) (rawInputs : List (String × RawValue)) :
    Delivers Permitted (fun r : String × Value × Shown => r.1 = name ∧ HasType type r.2.1)
      (readInput types rawInputs name) := by
  refine (delivers_refused (Delivers.refuseIf fun _ => .inl rfl)).bind fun _ _ => ?_
  rw [htype]
  change Delivers _ _ (ite _ _ _)
  split_ifs with hbool
  · exact (Delivers.orRefuse fun _ => .inl rfl).bind fun b _ => ⟨rfl, hbool⟩
  · exact (delivers_refused (decimal_delivers _ _)).bind fun r hr => ⟨rfl, hbool, hr⟩

theorem lookup_read {S : String → Value → Prop} {names : List String}
    {read : List (String × Value × Shown)}
    (h : List.Forall₂ (fun name r => r.1 = name ∧ S name r.2.1) names read) {name : String}
    (hname : name ∈ names) :
    ∃ v, (read.map fun input => (input.1, input.2.1)).lookup name = some v ∧ S name v := by
  induction h with
  | nil => cases hname
  | @cons name' r names read hr _ ih =>
    obtain ⟨rfl, hS⟩ := hr
    rw [map_cons, lookup_cons]
    by_cases heq : name = r.1
    · exact ⟨r.2.1, by simp [heq], heq ▸ hS⟩
    · obtain ⟨v, hv, hSv⟩ := ih ((mem_cons.mp hname).resolve_left heq)
      exact ⟨v, by rw [beq_eq_false_iff_ne.mpr heq]; exact hv, hSv⟩

/-- Reading every input a formula names binds them all at their declared units. -/
theorem readInputs_delivers {dependencies : List String}
    (hdeclared : ∀ name ∈ dependencies, ∃ type, types.lookup name = some type)
    (rawInputs : List (String × RawValue)) :
    Delivers Permitted (fun read : List (String × Value × Shown) =>
        Bound (Named types dependencies) fun name =>
          (read.map fun input => (input.1, input.2.1)).lookup name)
      (dependencies.mapM (readInput types rawInputs)) := by
  let S : String → Value → Prop := fun name v =>
    ∀ type, types.lookup name = some type → HasType type v
  have hread : Delivers Permitted (Forall₂ (fun name r => r.1 = name ∧ S name r.2.1)
      dependencies) (dependencies.mapM (readInput types rawInputs)) := by
    refine Delivers.mapM fun name hname => ?_
    obtain ⟨type, htype⟩ := hdeclared name hname
    refine (readInput_delivers htype rawInputs).mono fun r hr => ⟨hr.1, fun type' htype' => ?_⟩
    exact Option.some.inj (htype.symm.trans htype') ▸ hr.2
  refine hread.mono fun read hread name type hnamed => ?_
  obtain ⟨v, hv, hS⟩ := lookup_read hread hnamed.2
  exact ⟨v, hv, hS type hnamed.1⟩

/-! ### Compiled expressions -/

/-- A result of a unit: a truth value exactly for the boolean one, else decimal text. -/
def ShownAs (type : ExpressionType) (scale : ℕ) : Shown → Prop
  | .boolean _ => type = .boolean
  | .decimal text => type ≠ .boolean ∧ IsDecimalText scale text

/-- **Well-typed formulas do not go wrong.** Whatever compiles, on whatever record of
inputs and with whatever rounding, returns a truth value exactly when its unit is the
boolean one and decimal text otherwise, or is refused as invalid input, for a limit or
for a zero divisor. -/
theorem compiled_delivers {source : List Char} {definitions : List ExpressionInput}
    {compiled : CompiledExpression} (h : compileExpression source definitions = .ok compiled)
    (rawInputs : Option (List (String × RawValue))) (rounding : ExpressionRounding) :
    Delivers Permitted (fun r => ShownAs compiled.resultType rounding.scale r.1)
      (compiled.evaluate rawInputs rounding) := by
  obtain ⟨hwt, hdeclared⟩ := compileExpression_wellTyped h
  refine (Delivers.orRefuse fun _ => .inl rfl).bind fun rawInputs _ => ?_
  refine (readInputs_delivers hdeclared rawInputs).bind fun read hread => ?_
  refine (evaluate_delivers hread hwt).bind fun v hv => ?_
  cases v with
  | boolean b => exact hv
  | number r =>
    exact (delivers_refused (rounded_delivers r rounding)).bind fun text htext => ⟨hv.1, htext⟩

/-- A formula that compiles, over one amount of money. -/
theorem compiled_delivers_markup :
    ∃ compiled, compileExpression "max(fee, -5) * 2".toList [⟨"fee", .money "USD"⟩] =
        .ok compiled ∧
      Delivers Permitted (fun r => ShownAs compiled.resultType 2 r.1)
        (compiled.evaluate (some [("fee", .text "1.50".toList)]) ⟨2, .halfEven, 15⟩) := by
  have hok : (compileExpression "max(fee, -5) * 2".toList [⟨"fee", .money "USD"⟩]).isOk := by
    decide +kernel
  cases h : compileExpression "max(fee, -5) * 2".toList [⟨"fee", .money "USD"⟩] with
  | ok compiled => exact ⟨compiled, rfl, compiled_delivers h _ _⟩
  | error e =>
    rw [h] at hok
    cases hok

/-! ### What is returned -/

/-- What `n / d` is rounded to: the nearest integer, a tie to the even one or to the one further
from zero, or the next integer on the way to zero. -/
def RoundedIn (n d units : ℤ) : RoundingMode → Prop
  | .halfEven => 2 * |n - d * units| ≤ d ∧ (2 * |n - d * units| = d → Even units)
  | .halfAwayFromZero => 2 * |n - d * units| ≤ d ∧ (2 * |n - d * units| = d → |n| < |d * units|)
  | .towardsZero => |n - d * units| < d ∧ |d * units| ≤ |n|

theorem ite_neg_eq_abs (n : ℤ) : (if n < 0 then -n else n) = |n| := by
  split_ifs with hneg
  · exact (abs_of_neg hneg).symm
  · exact (abs_of_nonneg (not_lt.mp hneg)).symm

theorem roundedIn_roundDiv {n d : ℤ} (hd : 0 < d) :
    RoundedIn n d (roundDiv n d) .halfAwayFromZero := by
  have hlow := Int.mul_ediv_self_le (x := |n| + d / 2) hd.ne'
  have hhigh := Int.lt_mul_ediv_self_add (x := |n| + d / 2) hd
  simp only [RoundedIn, roundDiv, ite_neg_eq_abs]
  generalize (|n| + d / 2) / d = k at *
  split_ifs with hneg
  · rw [mul_neg]
    generalize d * k = m at *
    simp only [abs_eq_max_neg] at *
    omega
  · generalize d * k = m at *
    simp only [abs_eq_max_neg] at *
    omega

theorem roundedIn_roundedUnits (mode : RoundingMode) {n d : ℤ} (hd : 0 < d) :
    RoundedIn n d (roundedUnits mode n d) mode := by
  have hsplit := Int.mul_tdiv_add_tmod n d
  have hlow := Int.lt_tmod_of_pos n hd
  have hhigh := Int.tmod_lt_of_pos n hd
  have hsign : (0 ≤ n → 0 ≤ n.tmod d) ∧ (n < 0 → n.tmod d ≤ 0) := by
    refine ⟨Int.tmod_nonneg d, fun hneg => ?_⟩
    have := Int.tmod_nonneg d (neg_nonneg.mpr hneg.le)
    rw [Int.neg_tmod] at this
    omega
  cases mode with
  | halfAwayFromZero => exact roundedIn_roundDiv hd
  | towardsZero =>
    simp only [RoundedIn, roundedUnits]
    have hnonneg : 0 ≤ n → 0 ≤ d * n.tdiv d := fun hn => mul_nonneg hd.le (Int.tdiv_nonneg hn hd.le)
    have hnonpos : n < 0 → d * n.tdiv d ≤ 0 := fun hn => by
      have := mul_nonneg hd.le (Int.tdiv_nonneg (neg_nonneg.mpr hn.le) hd.le)
      rw [Int.neg_tdiv, mul_neg] at this
      omega
    generalize d * n.tdiv d = m at *
    simp only [abs_eq_max_neg]
    omega
  | halfEven =>
    simp only [RoundedIn, roundedUnits]
    generalize n.tmod d = r at *
    generalize n.tdiv d = q at *
    have hodd : q.tmod 2 ≠ 0 ↔ q % 2 = 1 := by
      have hdvd : q.tmod 2 = 0 ↔ 2 ∣ q := ⟨Int.dvd_of_tmod_eq_zero, Int.tmod_eq_zero_of_dvd⟩
      rw [ne_eq, hdvd]
      omega
    simp only [hodd, Int.even_iff, ite_neg_eq_abs]
    have hstep : d * (q + 1) = d * q + d ∧ d * (q + -1) = d * q - d := ⟨by ring, by ring⟩
    by_cases hround : d < |r| * 2 ∨ |r| * 2 = d ∧ q % 2 = 1
    · rw [if_pos hround]
      split_ifs with hneg
      · rw [hstep.2]
        generalize d * q = m at *
        simp only [abs_eq_max_neg] at *
        omega
      · rw [hstep.1]
        generalize d * q = m at *
        simp only [abs_eq_max_neg] at *
        omega
    · rw [if_neg hround]
      generalize d * q = m at *
      simp only [abs_eq_max_neg] at *
      omega

/-- **Decimal text is read back as the units it was written from.** -/
theorem denoted_decimalText (scale : ℕ) (units : ℤ) :
    denoted (decimalText scale units) = some (units / 10 ^ scale : ℚ) := by
  have hwhole : ∀ c ∈ wholeDigits scale units, c.isDigit = true := isDigit_toDigits _
  obtain ⟨ds, hds, hlen, hvalue, htext⟩ : ∃ ds : List Char, (∀ c ∈ ds, c.isDigit = true) ∧
      ds.length = scale ∧ digitsValue ds = units.natAbs % 10 ^ scale ∧
      decimalText scale units =
        (if units < 0 then ['-'] else []) ++ wholeDigits scale units ++ pointed ds := by
    rcases Nat.eq_zero_or_pos scale with rfl | hpos
    · exact ⟨[], by simp, rfl, by rw [pow_zero, Nat.mod_one]; rfl, by simp [decimalText, pointed]⟩
    · obtain ⟨hlen, hdigits⟩ := padStartZeros_toDigits hpos
        (Nat.mod_lt units.natAbs (Nat.pow_pos (by decide : 0 < 10)))
      have hne := ne_nil_of_length_pos (hlen.symm ▸ hpos)
      refine ⟨_, hdigits, hlen, ?_, by simp [decimalText, pointed, hpos.ne', hne]⟩
      rw [padStartZeros, digitsValue_zeros, digitsValue_toDigits]
  rw [denoted, htext, matchDecimal_shape hwhole (ne_nil_of_length_pos Nat.length_toDigits_pos) hds]
  have habs : (units.natAbs : ℚ) = 10 ^ scale * (units.natAbs / 10 ^ scale : ℕ) +
      (units.natAbs % 10 ^ scale : ℕ) := by
    exact_mod_cast (Nat.div_add_mod units.natAbs (10 ^ scale)).symm
  have hsign : (if decide (units < 0) = true then -1 else 1) * (units.natAbs : ℚ) = units := by
    rcases lt_or_ge units 0 with hneg | hneg
    · rw [if_pos (decide_eq_true hneg), Nat.cast_natAbs, abs_of_neg hneg]
      push_cast
      ring
    · rw [if_neg (by simpa using hneg), Nat.cast_natAbs, abs_of_nonneg hneg, one_mul]
  have hten : (10 : ℚ) ^ scale ≠ 0 := by positivity
  simp only [Option.map_some, DecimalMatch.value, hlen, hvalue, wholeDigits, digitsValue_toDigits,
    Option.getD_none, zpow_zero, mul_one]
  rw [← hsign, habs]
  field_simp

/-- **A formula's amount is returned rounded as declared**: the text stands for whole units of the
declared scale, and they are what the amount is rounded to. -/
theorem rounded_denotes {value : Rational} (hpos : 0 < value.denominator)
    {rounding : ExpressionRounding} {text : List Char} (h : rounded value rounding = .ok text) :
    ∃ units : ℤ, denoted text = some (units / 10 ^ rounding.scale : ℚ) ∧
      RoundedIn (value.numerator * 10 ^ rounding.scale) value.denominator units rounding.mode := by
  simp only [rounded, bind_eq_ok, pure_eq_ok] at h
  obtain ⟨_, -, _, -, rfl⟩ := h
  exact ⟨_, denoted_decimalText _ _, roundedIn_roundedUnits _ hpos⟩

theorem rounded_denotes_eighth : ∃ units : ℤ,
    denoted "0.12".toList = some (units / 10 ^ 2 : ℚ) ∧ RoundedIn (1 * 10 ^ 2) 8 units .halfEven :=
  @rounded_denotes ⟨1, 8⟩ (by decide) ⟨2, .halfEven, 15⟩ _ (by decide +kernel)

end OpenBooks
