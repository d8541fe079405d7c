import OpenBooks.Expression.Safety

/-!
# Formulas respect currencies

Change the unit of one currency – quote it in cents instead of dollars – and every amount of that
currency is multiplied by one factor. A formula respects currencies if its result is then multiplied
by that factor when it is an amount of the currency, and is otherwise the same. `currency_scaling`
is that every compiled formula does, up to the digit limit.

Two runs are compared: one on the inputs as they are, one on scaled inputs and with the literals
that took a unit of the currency scaled too (`Node.scale`). The values of a node are related by the
factor of its unit (`ScaledBy`), which every operator keeps.
-/

namespace OpenBooks

open Checked List

/-! ### Scaling -/

/-- What an amount of a unit is multiplied by. -/
def scaleFactor (k : ℚ) (currency : String) (type : ExpressionType) : ℚ :=
  if type.currency? = some currency then k else 1

/-- A fraction multiplied by a factor. -/
def Rational.scale (k : ℚ) (r : Rational) : Rational := .ofRat (k * r.toRat)

/-- A value of a unit, scaled. -/
def Value.scale (k : ℚ) (currency : String) (type : ExpressionType) : Value → Value
  | .number r => .number (r.scale (scaleFactor k currency type))
  | .boolean b => .boolean b

/-- A literal multiplied by a factor, below its signs. -/
def Node.scaleLiteral (k : ℚ) : Node → Node
  | .literal value type => .literal (value.scale k) type
  | .negate operand type => .negate (operand.scaleLiteral k) type
  | n => n

mutual

/-- The tree with its literals scaled, each by the factor of its unit. The unit of a
negated literal is that of its sign. -/
def Node.scale (k : ℚ) (currency : String) : Node → Node
  | .literal value type => .literal (value.scale (scaleFactor k currency type)) type
  | .input name type => .input name type
  | .negate operand type =>
    if operand.isLiteral then .negate (operand.scaleLiteral (scaleFactor k currency type)) type
    else .negate (operand.scale k currency) type
  | .binary operator left right type =>
    .binary operator (left.scale k currency) (right.scale k currency) type
  | .call name args type => .call name (scaleNodes k currency args) type

def scaleNodes (k : ℚ) (currency : String) : List Node → List Node
  | [] => []
  | arg :: args => arg.scale k currency :: scaleNodes k currency args

end

/-- The inputs, each scaled by the factor of its declared unit. -/
def scaleInputs (k : ℚ) (currency : String) (types : List (String × ExpressionType))
    (inputs : String → Option Value) : String → Option Value :=
  fun name => (inputs name).map fun v =>
    v.scale k currency ((types.lookup name).getD .scalar)

/-! ### Related values -/

/-- Two values of a unit: one truth value, or numbers in the ratio of its factor. -/
inductive ScaledBy (k : ℚ) (currency : String) (type : ExpressionType) : Value → Value → Prop
  | boolean (b : Bool) : type = .boolean → ScaledBy k currency type (.boolean b) (.boolean b)
  | number {r r' : Rational} : type ≠ .boolean → 0 < r.denominator → 0 < r'.denominator →
      r'.toRat = scaleFactor k currency type * r.toRat →
      ScaledBy k currency type (.number r) (.number r')

/-- Two fractions in a ratio. -/
structure Ratio (f : ℚ) (r r' : Rational) : Prop where
  pos : 0 < r.denominator
  pos' : 0 < r'.denominator
  eq : r'.toRat = f * r.toRat

def DigitLimit : EvaluationFault → Prop
  | .refused e => e.code = .limit
  | _ => False

section Values

variable {k : ℚ} {currency : String} {type : ExpressionType} {v v' : Value}

theorem scaleFactor_pos (hk : 0 < k) (currency : String) (type : ExpressionType) :
    0 < scaleFactor k currency type := by
  unfold scaleFactor
  split_ifs
  · exact hk
  · exact one_pos

@[simp] theorem scaleFactor_scalar : scaleFactor k currency .scalar = 1 := rfl

@[simp] theorem scaleFactor_hours : scaleFactor k currency .hours = 1 := rfl

theorem scaleFactor_hourlyRate (c : String) :
    scaleFactor k currency (.hourlyRate c) = scaleFactor k currency (.money c) := rfl

theorem Ratio.scale {r : Rational} (h : 0 < r.denominator) (f : ℚ) : Ratio f r (r.scale f) :=
  ⟨h, Rational.ofRat_pos _, Rational.toRat_ofRat _⟩

theorem ScaledBy.ratio (h : ScaledBy k currency type v v') (htype : type ≠ .boolean) :
    ∃ r r', v = .number r ∧ v' = .number r' ∧ Ratio (scaleFactor k currency type) r r' := by
  cases h with
  | boolean b hb => exact absurd hb htype
  | @number r r' _ hpos hpos' heq => exact ⟨r, r', rfl, rfl, hpos, hpos', heq⟩

theorem ScaledBy.of_ratio {r r' : Rational} (htype : type ≠ .boolean)
    (h : Ratio (scaleFactor k currency type) r r') :
    ScaledBy k currency type (.number r) (.number r') :=
  .number htype h.pos h.pos' h.eq

theorem ScaledBy.eq_of_boolean (h : ScaledBy k currency .boolean v v') : v = v' := by
  cases h with
  | boolean b _ => rfl
  | number hne => exact absurd rfl hne

theorem HasType.scaledBy (h : HasType type v) :
    ScaledBy k currency type v (v.scale k currency type) := by
  cases v with
  | boolean b => exact .boolean b h
  | number r => exact .of_ratio h.1 (Ratio.scale h.2 _)

/-- **The unit of a product has the product of the factors**, and that of a quotient
their quotient. -/
theorem scaleFactor_productType (hk : 0 < k) (currency : String) {a b : ExpressionType} {divide : Bool}
    (h : productType a b divide = .ok type) :
    scaleFactor k currency type = if divide then scaleFactor k currency a / scaleFactor k currency b
      else scaleFactor k currency a * scaleFactor k currency b := by
  have hne : ∀ t, scaleFactor k currency t ≠ 0 := fun t => (scaleFactor_pos hk currency t).ne'
  unfold productType at h
  split at h
  · cases h
    simp
  · cases h
    simp
  · split_ifs at h with hsame
    · cases h
      rw [sameType_iff.mp hsame]
      simp [hne]
    · split at h
      · cases h
        simp [scaleFactor_hourlyRate]
      · split_ifs at h with hcurrency
        · cases h
          simp [hcurrency, scaleFactor_hourlyRate, hne]
        · cases h
      · cases h
  · cases h
    simp [scaleFactor_hourlyRate]
  · cases h
    simp [scaleFactor_hourlyRate]
  · cases h

/-! ### Operations -/

/-- Fractions in a ratio are refused alike, up to their size. -/
theorem formulaRational_parallel {a b a' b' : ℤ} {f : ℚ} (hzero : b = 0 ↔ b' = 0)
    (hval : (a' : ℚ) / b' = f * (a / b)) :
    Parallel DigitLimit (Ratio f) (refused (formulaRational a b))
      (refused (formulaRational a' b')) := by
  unfold formulaRational
  cases h : rational a b with
  | error e =>
    rcases rational_error h with ⟨rfl, hb⟩ | ⟨rfl, -⟩
    · have h' : rational a' b' = .error .divisionByZero := by
        rw [rational, if_pos (hzero.mp hb)]
      rw [h']
      exact .refuses _
    · exact .quitsLeft rfl
  | ok r =>
    obtain ⟨hb, hpos, hrat⟩ := toRat_rational h
    cases h' : rational a' b' with
    | error e =>
      rcases rational_error h' with ⟨rfl, hb'⟩ | ⟨rfl, -⟩
      · exact absurd (hzero.mpr hb') hb
      · exact .quitsRight rfl
    | ok r' =>
      obtain ⟨-, hpos', hrat'⟩ := toRat_rational h'
      exact .returns ⟨hpos, hpos', by rw [hrat', hval, hrat]⟩

variable {f g : ℚ} {a a' b b' : Rational}

theorem Rational.toRat_eq_zero (h : 0 < a.denominator) : a.toRat = 0 ↔ a.numerator = 0 := by
  have : (a.denominator : ℚ) ≠ 0 := by exact_mod_cast h.ne'
  rw [Rational.toRat, div_eq_zero_iff, or_iff_left this]
  exact_mod_cast Iff.rfl

theorem Ratio.numerator_eq_zero (h : Ratio f a a') (hf : 0 < f) :
    a.numerator = 0 ↔ a'.numerator = 0 := by
  rw [← Rational.toRat_eq_zero h.pos, ← Rational.toRat_eq_zero h.pos', h.eq, mul_eq_zero,
    or_iff_right hf.ne']

theorem Ratio.compare (ha : Ratio f a a') (hb : Ratio f b b') (hf : 0 < f) :
    compareRational a' b' = compareRational a b := by
  simp only [compareRational_eq ha.pos' hb.pos', compareRational_eq ha.pos hb.pos, ha.eq, hb.eq,
    mul_lt_mul_iff_right₀ hf]

theorem toRat_add (ha : 0 < a.denominator) (hb : 0 < b.denominator) :
    ((a.numerator * b.denominator + b.numerator * a.denominator : ℤ) : ℚ) /
      (a.denominator * b.denominator : ℤ) = a.toRat + b.toRat := by
  have ha' : (a.denominator : ℚ) ≠ 0 := by exact_mod_cast ha.ne'
  have hb' : (b.denominator : ℚ) ≠ 0 := by exact_mod_cast hb.ne'
  simp only [Rational.toRat]
  push_cast
  field_simp

theorem toRat_sub (ha : 0 < a.denominator) (hb : 0 < b.denominator) :
    ((a.numerator * b.denominator - b.numerator * a.denominator : ℤ) : ℚ) /
      (a.denominator * b.denominator : ℤ) = a.toRat - b.toRat := by
  have ha' : (a.denominator : ℚ) ≠ 0 := by exact_mod_cast ha.ne'
  have hb' : (b.denominator : ℚ) ≠ 0 := by exact_mod_cast hb.ne'
  simp only [Rational.toRat]
  push_cast
  field_simp

theorem toRat_mul (a b : Rational) :
    ((a.numerator * b.numerator : ℤ) : ℚ) / (a.denominator * b.denominator : ℤ) =
      a.toRat * b.toRat := by
  simp only [Rational.toRat]
  push_cast
  rw [div_mul_div_comm]

theorem toRat_div (a b : Rational) :
    ((a.numerator * b.denominator : ℤ) : ℚ) / (a.denominator * b.numerator : ℤ) =
      a.toRat / b.toRat := by
  simp only [Rational.toRat]
  push_cast
  rw [div_div_div_eq]

theorem denominators_zero (ha : Ratio f a a') (hb : Ratio g b b') :
    a.denominator * b.denominator = 0 ↔ a'.denominator * b'.denominator = 0 := by
  simp [ha.pos.ne', ha.pos'.ne', hb.pos.ne', hb.pos'.ne']

variable {operator : Operator}

theorem additive_parallel (hop : operator = .add ∨ operator = .sub) (htype : type ≠ .boolean)
    (ha : Ratio (scaleFactor k currency type) a a')
    (hb : Ratio (scaleFactor k currency type) b b') :
    Parallel DigitLimit (ScaledBy k currency type) (numberOperation operator a b)
      (numberOperation operator a' b') := by
  rcases hop with rfl | rfl
  · refine (formulaRational_parallel (denominators_zero ha hb) ?_).map fun r r' hr =>
      ScaledBy.of_ratio htype hr
    rw [toRat_add ha.pos hb.pos, toRat_add ha.pos' hb.pos', ha.eq, hb.eq, mul_add]
  · refine (formulaRational_parallel (denominators_zero ha hb) ?_).map fun r r' hr =>
      ScaledBy.of_ratio htype hr
    rw [toRat_sub ha.pos hb.pos, toRat_sub ha.pos' hb.pos', ha.eq, hb.eq, mul_sub]

theorem multiplicative_parallel (hk : 0 < k) {s t : ExpressionType}
    (hop : operator = .mul ∨ operator = .div) (htype : type ≠ .boolean)
    (hp : productType s t (operator = .div) = .ok type)
    (ha : Ratio (scaleFactor k currency s) a a') (hb : Ratio (scaleFactor k currency t) b b') :
    Parallel DigitLimit (ScaledBy k currency type) (numberOperation operator a b)
      (numberOperation operator a' b') := by
  have hfactor := scaleFactor_productType hk currency hp
  rcases hop with rfl | rfl
  · refine (formulaRational_parallel (denominators_zero ha hb) ?_).map fun r r' hr =>
      ScaledBy.of_ratio htype hr
    simp only [reduceCtorEq, decide_false, Bool.false_eq_true, if_false] at hfactor
    rw [toRat_mul, toRat_mul, ha.eq, hb.eq, hfactor]
    ring
  · have hzero : a.denominator * b.numerator = 0 ↔ a'.denominator * b'.numerator = 0 := by
      simp [ha.pos.ne', ha.pos'.ne', hb.numerator_eq_zero (scaleFactor_pos hk currency t)]
    refine (formulaRational_parallel hzero ?_).map fun r r' hr => ScaledBy.of_ratio htype hr
    simp only [decide_true, if_true] at hfactor
    rw [toRat_div, toRat_div, ha.eq, hb.eq, hfactor, mul_div_mul_comm]

theorem comparison_parallel (hop : operator ∈ comparisons.map Prod.snd) (hf : 0 < f)
    (ha : Ratio f a a') (hb : Ratio f b b') :
    Parallel DigitLimit (ScaledBy k currency .boolean) (numberOperation operator a b)
      (numberOperation operator a' b') := by
  have hcompare := ha.compare hb hf
  simp only [comparisons, map_cons, map_nil, mem_cons, not_mem_nil, or_false] at hop
  rcases hop with rfl | rfl | rfl | rfl | rfl | rfl
  all_goals
    simp only [numberOperation, hcompare]
    exact .returns (.boolean _ rfl)

variable {rs rs' : List Rational}

theorem clampValue_parallel (hf : 0 < f) (h : List.Forall₂ (Ratio f) rs rs') :
    Parallel DigitLimit (Ratio f) (clampValue rs) (clampValue rs') := by
  match h with
  | .nil | .cons _ .nil | .cons _ (.cons _ .nil) => exact .refuses _
  | .cons hv (.cons hl (.cons hh _)) =>
    simp only [clampValue, hl.compare hh hf, hv.compare hl hf, hv.compare hh hf]
    split_ifs
    · exact .refuses _
    · exact .returns hl
    · exact .returns hh
    · exact .returns hv

/-- Two runs choose in step. -/
theorem extreme_ratio (hf : 0 < f) (sign : ℤ) (h : List.Forall₂ (Ratio f) rs rs')
    {c c' : Rational} (hc : Ratio f c c') :
    Ratio f
      (rs.foldl (fun chosen value => if compareRational value chosen * sign < 0 then value
        else chosen) c)
      (rs'.foldl (fun chosen value => if compareRational value chosen * sign < 0 then value
        else chosen) c') := by
  induction h generalizing c c' with
  | nil => exact hc
  | cons hx _ ih =>
    rw [foldl_cons, foldl_cons, hx.compare hc hf]
    refine ih ?_
    split_ifs
    · exact hx
    · exact hc

theorem extremeValue_parallel (hf : 0 < f) (sign : ℤ) (h : List.Forall₂ (Ratio f) rs rs') :
    Parallel DigitLimit (Ratio f) (extremeValue sign rs) (extremeValue sign rs') := by
  match h with
  | .nil => exact .refuses _
  | .cons hfirst hrest => exact .returns (extreme_ratio hf sign hrest hfirst)

theorem Ratio.neg (h : Ratio f a a') :
    Ratio f ⟨-a.numerator, a.denominator⟩ ⟨-a'.numerator, a'.denominator⟩ := by
  refine ⟨h.pos, h.pos', ?_⟩
  have heq := h.eq
  simp only [Rational.toRat] at heq ⊢
  push_cast
  rw [neg_div, heq, neg_div, mul_neg]

end Values

/-! ### Trees -/

section Trees

variable {k : ℚ} {currency : String} {Γ : String → ExpressionType → Prop}
  {inputs inputs' : String → Option Value}

/-- The inputs of two runs, related at the units they are bound at. -/
def BoundScaled (k : ℚ) (currency : String) (Γ : String → ExpressionType → Prop)
    (inputs inputs' : String → Option Value) : Prop :=
  ∀ name type, Γ name type →
    ∃ v v', inputs name = some v ∧ inputs' name = some v' ∧ ScaledBy k currency type v v'

theorem literal_ratio {n : Node} (h : WellTyped Γ n) (hlit : n.isLiteral) (f : ℚ) :
    ∃ r r', evaluate inputs n = .ok (.number r) ∧
      evaluate inputs' (n.scaleLiteral f) = .ok (.number r') ∧ Ratio f r r' := by
  induction h with
  | @literal value type hden _ =>
    exact ⟨value, value.scale f, by rw [evaluate], by rw [Node.scaleLiteral, evaluate],
      Ratio.scale hden f⟩
  | signed hop _ _ _ ih =>
    obtain ⟨r, r', hr, hr', hratio⟩ := ih hop
    refine ⟨_, _, ?_, ?_, hratio.neg⟩
    · rw [evaluate, hr]
      rfl
    · rw [Node.scaleLiteral, evaluate, hr']
      rfl
  | negate hop => exact absurd hlit hop
  | _ => cases hlit

variable {args : List Node}

/-- Two runs of the truth values of arguments, for all of them and for one of them. -/
theorem evaluateTruths_parallel
    (h : ∀ arg ∈ args, Parallel DigitLimit (ScaledBy k currency .boolean) (evaluate inputs arg)
      (evaluate inputs' (arg.scale k currency))) :
    Parallel DigitLimit Eq (evaluateEvery inputs args)
        (evaluateEvery inputs' (scaleNodes k currency args)) ∧
      Parallel DigitLimit Eq (evaluateSome inputs args)
        (evaluateSome inputs' (scaleNodes k currency args)) := by
  induction args with
  | nil =>
    rw [scaleNodes, evaluateEvery, evaluateEvery, evaluateSome, evaluateSome]
    exact ⟨.returns rfl, .returns rfl⟩
  | cons arg args ih =>
    obtain ⟨hevery, hsome⟩ := ih fun a ha => h a (by simp [ha])
    rw [scaleNodes, evaluateEvery, evaluateEvery, evaluateSome, evaluateSome]
    constructor
    all_goals
      refine (h arg (by simp)).bind fun v v' hv => ?_
      rw [hv.eq_of_boolean]
      split_ifs
    · exact hevery
    · exact .returns rfl
    · exact .returns rfl
    · exact hsome

theorem evaluateAmounts_parallel {type : ExpressionType} (htype : type ≠ .boolean)
    (h : ∀ arg ∈ args, Parallel DigitLimit (ScaledBy k currency type) (evaluate inputs arg)
      (evaluate inputs' (arg.scale k currency))) :
    Parallel DigitLimit (List.Forall₂ (Ratio (scaleFactor k currency type)))
      (evaluateAmounts inputs args) (evaluateAmounts inputs' (scaleNodes k currency args)) := by
  induction args with
  | nil =>
    rw [scaleNodes, evaluateAmounts, evaluateAmounts]
    exact .returns .nil
  | cons arg args ih =>
    rw [scaleNodes, evaluateAmounts, evaluateAmounts]
    refine (h arg (by simp)).bind fun v v' hv => ?_
    obtain ⟨r, r', rfl, rfl, hratio⟩ := hv.ratio htype
    refine (ih fun a ha => h a (by simp [ha])).bind fun rs rs' hrs => ?_
    exact .returns (.cons hratio hrs)

/-- **Two runs of a well-typed tree stay in the ratio of its unit.** -/
theorem evaluate_parallel (hk : 0 < k) (hbound : BoundScaled k currency Γ inputs inputs')
    {n : Node} (h : WellTyped Γ n) :
    Parallel DigitLimit (ScaledBy k currency n.type) (evaluate inputs n)
      (evaluate inputs' (n.scale k currency)) := by
  have hpos := scaleFactor_pos hk currency
  induction h with
  | @literal value type hden ht =>
    rw [Node.scale, evaluate, evaluate]
    exact .returns (.of_ratio ht (Ratio.scale hden _))
  | @input name type hΓ =>
    obtain ⟨v, v', hv, hv', hscaled⟩ := hbound name type hΓ
    rw [Node.scale, evaluate, evaluate, hv, hv']
    exact .returns hscaled
  | @signed operand type hop hwt _ ht _ =>
    obtain ⟨r, r', hr, hr', hratio⟩ := literal_ratio hwt hop (scaleFactor k currency type)
    rw [Node.scale, if_pos hop, evaluate, evaluate, hr, hr']
    exact .returns (.of_ratio ht hratio.neg)
  | @negate operand hop _ ho ih =>
    rw [Node.scale, if_neg hop, evaluate, evaluate]
    refine ih.bind fun v v' hv => ?_
    obtain ⟨r, r', rfl, rfl, hratio⟩ := hv.ratio ho
    exact .returns (.of_ratio ho hratio.neg)
  | @additive operator left right hop _ _ hnum heq ihl ihr =>
    rw [Node.scale, evaluate, evaluate]
    refine ihl.bind fun l l' hl => ihr.bind fun r r' hr => ?_
    obtain ⟨a, a', rfl, rfl, ha⟩ := hl.ratio hnum
    obtain ⟨b, b', rfl, rfl, hb⟩ := (heq ▸ hr).ratio hnum
    exact additive_parallel hop hnum ha hb
  | @multiplicative operator left right type hop _ _ hl hr hp ihl ihr =>
    rw [Node.scale, evaluate, evaluate]
    refine ihl.bind fun lv lv' hlv => ihr.bind fun rv rv' hrv => ?_
    obtain ⟨a, a', rfl, rfl, ha⟩ := hlv.ratio hl
    obtain ⟨b, b', rfl, rfl, hb⟩ := hrv.ratio hr
    exact multiplicative_parallel hk hop (productType_ne hl hr hp) hp ha hb
  | @comparison operator left right hop _ _ heq _ ihl ihr =>
    rw [Node.scale, evaluate, evaluate]
    refine ihl.bind fun l l' hl => ihr.bind fun r r' hr => ?_
    by_cases hbool : left.type = .boolean
    · obtain rfl := (hbool ▸ hl).eq_of_boolean
      obtain rfl := ((heq.symm.trans hbool) ▸ hr).eq_of_boolean
      cases hl with
      | number hne => exact absurd hbool hne
      | boolean a _ =>
        cases hr with
        | number hne => exact absurd (heq.symm.trans hbool) hne
        | boolean b _ => exact .returns (.boolean _ rfl)
    · obtain ⟨a, a', rfl, rfl, ha⟩ := hl.ratio hbool
      obtain ⟨b, b', rfl, rfl, hb⟩ := (heq ▸ hr).ratio hbool
      exact comparison_parallel hop (hpos _) ha hb
  | @conditional condition yes no _ _ _ hc heq ihc ihy ihn =>
    simp only [Node.scale, scaleNodes, evaluate]
    refine ihc.bind fun c c' hcc => ?_
    have hsame : ScaledBy k currency .boolean c c' := hc ▸ hcc
    rw [hsame.eq_of_boolean]
    split_ifs
    · exact ihy
    · exact heq ▸ ihn
  | @connective function args hf hne _ ht ih =>
    have hargs : ∀ arg ∈ args, Parallel DigitLimit (ScaledBy k currency .boolean)
        (evaluate inputs arg) (evaluate inputs' (arg.scale k currency)) :=
      fun arg harg => ht arg harg ▸ ih arg harg
    rw [Node.scale]
    rcases hf with rfl | rfl | rfl
    · rw [evaluate, evaluate]
      exact (evaluateTruths_parallel hargs).1.map fun b b' hb => hb ▸ .boolean b rfl
    · rw [evaluate, evaluate]
      exact (evaluateTruths_parallel hargs).2.map fun b b' hb => hb ▸ .boolean b rfl
    · obtain ⟨arg, rest, rfl⟩ := exists_cons_of_ne_nil hne
      rw [scaleNodes, evaluate, evaluate]
      refine (hargs arg (by simp)).bind fun v v' hv => ?_
      rw [hv.eq_of_boolean]
      exact .returns (.boolean _ rfl)
  | @choice function args type hf _ _ ht hnum ih =>
    have hargs : ∀ arg ∈ args, Parallel DigitLimit (ScaledBy k currency type)
        (evaluate inputs arg) (evaluate inputs' (arg.scale k currency)) :=
      fun arg harg => ht arg harg ▸ ih arg harg
    have hamounts := evaluateAmounts_parallel hnum hargs
    rw [Node.scale]
    rcases hf with rfl | rfl | ⟨rfl, -⟩
    · rw [evaluate, evaluate]
      exact hamounts.bind fun rs rs' hrs =>
        (extremeValue_parallel (hpos type) 1 hrs).map fun r r' hr => .of_ratio hnum hr
    · rw [evaluate, evaluate]
      exact hamounts.bind fun rs rs' hrs =>
        (extremeValue_parallel (hpos type) (-1) hrs).map fun r r' hr => .of_ratio hnum hr
    · rw [evaluate, evaluate]
      exact hamounts.bind fun rs rs' hrs =>
        (clampValue_parallel (hpos type) hrs).map fun r r' hr => .of_ratio hnum hr

end Trees

/-! ### Compiled expressions -/

/-- **Formulas respect currencies.** In a compiled expression every operator has operands
of the units it needs; and multiplying every input and literal of one currency by a
positive factor multiplies the exact result by it when that is an amount of the
currency, and leaves it otherwise, unless a run meets the digit limit. -/
theorem currency_scaling {source : List Char} {definitions : List ExpressionInput}
    {compiled : CompiledExpression} (h : compileExpression source definitions = .ok compiled)
    (currency : String) {k : ℚ} (hk : 0 < k) {inputs : String → Option Value}
    (hbound : Bound (Named compiled.types compiled.dependencies) inputs) :
    WellTyped (Named compiled.types compiled.dependencies) compiled.root ∧
      Parallel DigitLimit (ScaledBy k currency compiled.resultType)
        (evaluate inputs compiled.root)
        (evaluate (scaleInputs k currency compiled.types inputs)
          (compiled.root.scale k currency)) := by
  obtain ⟨hwt, -⟩ := compileExpression_wellTyped h
  refine ⟨hwt, evaluate_parallel hk (fun name type hnamed => ?_) hwt⟩
  obtain ⟨v, hv, htype⟩ := hbound name type hnamed
  exact ⟨v, v.scale k currency type, hv, by simp [scaleInputs, hv, hnamed.1], htype.scaledBy⟩

/-- Dollars quoted in cents. -/
theorem currency_scaling_cents :
    ∃ compiled, compileExpression "max(fee, -5) * 2".toList [⟨"fee", .money "USD"⟩] =
        .ok compiled ∧
      Parallel DigitLimit (ScaledBy 100 "USD" compiled.resultType)
        (evaluate (fun _ => some (.number ⟨3, 2⟩)) compiled.root)
        (evaluate (scaleInputs 100 "USD" compiled.types fun _ => some (.number ⟨3, 2⟩))
          (compiled.root.scale 100 "USD")) := by
  have hok : (compileExpression "max(fee, -5) * 2".toList [⟨"fee", .money "USD"⟩]).toOption.map
      CompiledExpression.types = some [("fee", .money "USD")] := by
    decide +kernel
  cases h : compileExpression "max(fee, -5) * 2".toList [⟨"fee", .money "USD"⟩] with
  | ok compiled =>
    rw [h] at hok
    have htypes : compiled.types = [("fee", .money "USD")] := Option.some.inj hok
    refine ⟨compiled, rfl, (currency_scaling h "USD" (by norm_num) ?_).2⟩
    rintro name type ⟨hlookup, -⟩
    obtain ⟨-, rfl⟩ := Prod.mk.inj (mem_singleton.mp (htypes ▸ mem_of_lookup hlookup))
    exact ⟨_, rfl, by simp, by decide⟩
  | error e =>
    rw [h] at hok
    cases hok

end OpenBooks
