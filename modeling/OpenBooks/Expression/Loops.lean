import OpenBooks.Expression.Parser

/-!
# The loops of the parser run to their end

The parser's loops are bounded by the tokens that are left. The bound is never what
ends them: every pass takes a token (`factor_consumes`), so a loop that is given
more passes for no token more does the same (`loops_end`).
-/

namespace OpenBooks

open Checked

/-- A parser that takes at least one token whenever it returns. -/
def Consumes (p : Parser) : Prop :=
  ∀ s r, p s = .ok r → r.2.tokens.length < s.tokens.length

section Take

variable {s s' : ParserState}

theorem take_length {text : String} (h : s.take text = some s') :
    s'.tokens.length + 1 = s.tokens.length := by
  unfold ParserState.take at h
  split at h
  · rename_i token rest htokens
    split_ifs at h
    rw [← Option.some.inj h, htokens]
    rfl
  · cases h

variable {operators : List (String × Operator)}

theorem takeOperator_length {operator : Operator}
    (h : s.takeOperator operators = some (operator, s')) :
    s'.tokens.length + 1 = s.tokens.length := by
  unfold ParserState.takeOperator at h
  split at h
  · rename_i token rest htokens
    obtain ⟨o, -, heq⟩ := Option.map_eq_some_iff.mp h
    rw [← (Prod.mk.inj heq).2, htokens]
    rfl
  · cases h

theorem takeOperator_of_length_eq_zero (h : s.tokens.length = 0) :
    s.takeOperator operators = none := by
  rw [ParserState.takeOperator, List.length_eq_zero_iff.mp h]

end Take

/-! ### Chains -/

variable {r : Node × ParserState}

section Chain

variable {p : Parser} {left : Node} {s : ParserState}

section

variable (hp : Consumes p)

include hp

theorem productLoop_length (fuel : ℕ) (h : productLoop p fuel left s = .ok r) :
    r.2.tokens.length ≤ s.tokens.length := by
  induction fuel generalizing left s with
  | zero =>
    obtain rfl := Except.ok.inj h
    exact le_rfl
  | succ fuel ih =>
    unfold productLoop at h
    split at h
    · obtain rfl := Except.ok.inj h
      exact le_rfl
    · rename_i operator s₁ htake
      simp only [bind_eq_ok] at h
      obtain ⟨⟨right, s₂⟩, hright, _, -, _, -, type, -, hrest⟩ := h
      have h₁ := takeOperator_length htake
      have h₂ := hp _ _ hright
      have h₃ := ih hrest
      simp only at h₂ h₃
      omega

theorem product_consumes : Consumes (product p) := by
  intro s r h
  obtain ⟨⟨left, s₁⟩, hleft, hrest⟩ := bind_eq_ok.mp h
  exact (productLoop_length hp _ hrest).trans_lt (hp _ _ hleft)

theorem sumLoop_length (fuel : ℕ) (h : sumLoop p fuel left s = .ok r) :
    r.2.tokens.length ≤ s.tokens.length := by
  induction fuel generalizing left s with
  | zero =>
    obtain rfl := Except.ok.inj h
    exact le_rfl
  | succ fuel ih =>
    unfold sumLoop at h
    split at h
    · obtain rfl := Except.ok.inj h
      exact le_rfl
    · rename_i operator s₁ htake
      simp only [bind_eq_ok] at h
      obtain ⟨⟨right, s₂⟩, hright, _, -, _, -, _, -, hrest⟩ := h
      have h₁ := takeOperator_length htake
      have h₂ := product_consumes hp _ _ hright
      have h₃ := ih hrest
      simp only at h₂ h₃
      omega

theorem sum_consumes : Consumes (sum p) := by
  intro s r h
  obtain ⟨⟨left, s₁⟩, hleft, hrest⟩ := bind_eq_ok.mp h
  exact (sumLoop_length hp _ hrest).trans_lt (product_consumes hp _ _ hleft)

theorem expression_consumes : Consumes (expression p) := by
  intro s r h
  obtain ⟨⟨left, s₁⟩, hleft, hrest⟩ := bind_eq_ok.mp h
  have h₁ := sum_consumes hp _ _ hleft
  simp only at hrest h₁
  split at hrest
  · obtain rfl := Except.ok.inj hrest
    exact h₁
  · rename_i operator s₂ htake
    simp only [bind_eq_ok, pure_eq_ok] at hrest
    obtain ⟨⟨right, s₃⟩, hright, _, -, _, -, _, -, rfl⟩ := hrest
    have h₂ := takeOperator_length htake
    have h₃ := sum_consumes hp _ _ hright
    simp only at h₃ ⊢
    omega

end

variable {fuel : ℕ}

/-- **A product needs no pass beyond its tokens.** -/
theorem productLoop_fuel (hp : Consumes p) (h : s.tokens.length ≤ fuel) :
    productLoop p (fuel + 1) left s = productLoop p fuel left s := by
  induction fuel generalizing left s with
  | zero =>
    simp only [productLoop, takeOperator_of_length_eq_zero (Nat.le_zero.mp h)]
  | succ fuel ih =>
    rw [productLoop, productLoop]
    split
    · rfl
    · rename_i operator s₁ htake
      cases hright : p s₁ with
      | error e => rfl
      | ok r =>
        have h₁ := takeOperator_length htake
        have h₂ := hp _ _ hright
        have hnext : ∀ left, productLoop p (fuel + 1) left r.2 = productLoop p fuel left r.2 :=
          fun left => ih (by omega)
        change (do left.numeric; r.1.numeric; _) = (do left.numeric; r.1.numeric; _)
        simp only [hnext]

/-- **A sum needs no pass beyond its tokens.** -/
theorem sumLoop_fuel (hp : Consumes p) (h : s.tokens.length ≤ fuel) :
    sumLoop p (fuel + 1) left s = sumLoop p fuel left s := by
  induction fuel generalizing left s with
  | zero =>
    simp only [sumLoop, takeOperator_of_length_eq_zero (Nat.le_zero.mp h)]
  | succ fuel ih =>
    rw [sumLoop, sumLoop]
    split
    · rfl
    · rename_i operator s₁ htake
      cases hright : product p s₁ with
      | error e => rfl
      | ok r =>
        have h₁ := takeOperator_length htake
        have h₂ := product_consumes hp _ _ hright
        have hnext : ∀ left, sumLoop p (fuel + 1) left r.2 = sumLoop p fuel left r.2 :=
          fun left => ih (by omega)
        change (do left.numeric; r.1.numeric; _) = (do left.numeric; r.1.numeric; _)
        simp only [hnext]

/-- **The arguments of a call need no pass beyond their tokens.** -/
theorem argumentsLoop_fuel (hp : Consumes p) {args : List Node} (h : s.tokens.length ≤ fuel) :
    argumentsLoop p (fuel + 1) args s = argumentsLoop p fuel args s := by
  induction fuel generalizing args s with
  | zero =>
    rw [argumentsLoop, argumentsLoop]
    cases harg : p s with
    | error e => rfl
    | ok r =>
      have := hp _ _ harg
      omega
  | succ fuel ih =>
    rw [argumentsLoop, argumentsLoop]
    cases harg : p s with
    | error e => rfl
    | ok r =>
      have h₁ := hp _ _ harg
      cases htake : r.2.take "," with
      | some s₂ =>
        have h₂ := take_length htake
        simpa [bind, Except.bind, htake] using ih (by omega)
      | none => simp [bind, Except.bind, htake]

end Chain

/-! ### Calls and factors -/

theorem argumentsLoop_length {p : Parser} (hp : Consumes p) (fuel : ℕ) {args : List Node}
    {s : ParserState} {r : List Node × ParserState} (h : argumentsLoop p fuel args s = .ok r) :
    r.2.tokens.length ≤ s.tokens.length := by
  induction fuel generalizing args s with
  | zero =>
    obtain ⟨⟨arg, s₁⟩, harg, hrest⟩ := bind_eq_ok.mp h
    obtain rfl := Except.ok.inj hrest
    exact (hp _ _ harg).le
  | succ fuel ih =>
    obtain ⟨⟨arg, s₁⟩, harg, hrest⟩ := bind_eq_ok.mp h
    have h₁ := hp _ _ harg
    simp only at hrest h₁
    split at hrest
    · rename_i s₂ htake
      have h₂ := take_length htake
      have h₃ := ih hrest
      omega
    · obtain rfl := Except.ok.inj hrest
      exact h₁.le

theorem call_length {p : Parser} (hp : Consumes p) {name : String} {s : ParserState}
    (h : call p name s = .ok r) : r.2.tokens.length ≤ s.tokens.length := by
  simp only [call, bind_eq_ok, pure_eq_ok] at h
  obtain ⟨function, -, ⟨args, s₁⟩, hargs, node, -, rfl⟩ := h
  unfold callArguments at hargs
  split at hargs
  · rename_i s₂ htake
    obtain ⟨-, rfl⟩ := Prod.mk.inj (Except.ok.inj hargs)
    have := take_length htake
    simp only
    omega
  · simp only [bind_eq_ok, pure_eq_ok, orRefuse_eq_ok] at hargs
    obtain ⟨⟨args', s₂⟩, hloop, s₃, hclose, heq⟩ := hargs
    obtain ⟨-, rfl⟩ := Prod.mk.inj heq
    have h₁ := argumentsLoop_length hp _ hloop
    have h₂ := take_length hclose
    simp only at h₁ h₂ ⊢
    omega

theorem atom_consumes {types : List (String × ExpressionType)} {deeper : Parser}
    (hdeeper : Consumes deeper) : Consumes (atom types deeper) := by
  intro s r h
  unfold atom at h
  split at h
  · rename_i text rest htokens
    simp only [bind_eq_ok, pure_eq_ok] at h
    obtain ⟨value, -, rfl⟩ := h
    simp [htokens]
  · rename_i text rest htokens
    rw [htokens, List.length_cons, Nat.lt_succ_iff]
    split at h
    · rename_i s₁ htake
      have h₁ := take_length htake
      have h₂ := call_length (expression_consumes hdeeper) h
      simp only at h₁
      omega
    · simp only [inputNode, bind_eq_ok, pure_eq_ok] at h
      obtain ⟨type, -, rfl⟩ := h
      exact le_rfl
  · cases h

/-- **Every factor takes a token**, so the loops above it run to their end. -/
theorem factor_consumes (types : List (String × ExpressionType)) (levels : ℕ) :
    Consumes (factor types levels) := by
  induction levels with
  | zero =>
    intro s r h
    cases h
  | succ levels ih =>
    intro s r h
    unfold factor at h
    cases hminus : s.take "-" with
    | some s₁ =>
      simp only [hminus, bind_eq_ok, pure_eq_ok] at h
      obtain ⟨⟨operand, s₂⟩, hoperand, _, -, rfl⟩ := h
      have h₁ := take_length hminus
      have h₂ := ih _ _ hoperand
      simp only at h₂ ⊢
      omega
    | none =>
      cases hplus : s.take "+" with
      | some s₁ =>
        simp only [hminus, hplus] at h
        have h₁ := take_length hplus
        have h₂ := ih _ _ h
        omega
      | none =>
        cases hopen : s.take "(" with
        | some s₁ =>
          simp only [hminus, hplus, hopen, bind_eq_ok, orRefuse_eq_ok, pure_eq_ok] at h
          obtain ⟨⟨node, s₂⟩, hnode, s₃, hclose, rfl⟩ := h
          have h₁ := take_length hopen
          have h₂ := expression_consumes ih _ _ hnode
          have h₃ := take_length hclose
          simp only at h₂ h₃ ⊢
          omega
        | none =>
          simp only [hminus, hplus, hopen] at h
          exact atom_consumes ih _ _ h

/-- **The loops of the parser end by themselves**, whatever formula they read: given as many passes
as tokens are left, or more, each of them comes to the same. -/
theorem loops_end (types : List (String × ExpressionType)) (levels : ℕ) {s : ParserState}
    {fuel : ℕ} (h : s.tokens.length ≤ fuel) :
    (∀ left, productLoop (factor types levels) fuel left s =
      productLoop (factor types levels) s.tokens.length left s) ∧
    (∀ left, sumLoop (factor types levels) fuel left s =
      sumLoop (factor types levels) s.tokens.length left s) ∧
    ∀ args, argumentsLoop (expression (factor types levels)) fuel args s =
      argumentsLoop (expression (factor types levels)) s.tokens.length args s := by
  have hfactor := factor_consumes types levels
  induction fuel, h using Nat.le_induction with
  | base => exact ⟨fun _ => rfl, fun _ => rfl, fun _ => rfl⟩
  | succ fuel hfuel ih =>
    obtain ⟨hproduct, hsum, harguments⟩ := ih
    refine ⟨fun left => ?_, fun left => ?_, fun args => ?_⟩
    · rw [productLoop_fuel hfactor hfuel, hproduct]
    · rw [sumLoop_fuel hfactor hfuel, hsum]
    · rw [argumentsLoop_fuel (expression_consumes hfactor) hfuel, harguments]

theorem loops_end_pair :
    argumentsLoop (expression (factor [] 3)) 5 [] ⟨[⟨.number, "2"⟩, ⟨.symbol, ","⟩], []⟩ =
      argumentsLoop (expression (factor [] 3)) 2 [] ⟨[⟨.number, "2"⟩, ⟨.symbol, ","⟩], []⟩ :=
  (loops_end [] 3 (by decide)).2.2 []

end OpenBooks
