import OpenBooks.Expression.Evaluate
import OpenBooks.Lib.Outcome

/-!
# Well-typed formulas do not go wrong

A tree is well-typed (`WellTyped`) when every operator has operands of the units it needs. The
parser builds nothing else: `factor_sound` is by induction on the levels of nesting, with the loops
of a chain by induction on the tokens left.

What makes it more than reading the checks back is that a literal changes its unit after it is made.
A node the parser hands on is therefore *fitting* (`Fit`): well-typed, and if it is a literal, still
without a unit.

Evaluating a well-typed tree delivers a value of its unit or one of three refusals
(`evaluate_delivers`), and so does running a compiled expression (`compiled_delivers`).
-/

namespace OpenBooks

open Checked List Option

/-! ### Well-typed trees -/

/-- A tree whose operators have operands of the units they need. `Γ` says which inputs
are bound, and at which unit. -/
inductive WellTyped (Γ : String → ExpressionType → Prop) : Node → Prop
  | literal {value : Rational} {type : ExpressionType} : 0 < value.denominator →
      type ≠ .boolean → WellTyped Γ (.literal value type)
  | signed {operand : Node} {type : ExpressionType} : operand.isLiteral → WellTyped Γ operand →
      operand.type ≠ .boolean → type ≠ .boolean → WellTyped Γ (.negate operand type)
  | input {name : String} {type : ExpressionType} : Γ name type → WellTyped Γ (.input name type)
  | negate {operand : Node} : ¬operand.isLiteral → WellTyped Γ operand →
      operand.type ≠ .boolean → WellTyped Γ (.negate operand operand.type)
  | additive {operator : Operator} {left right : Node} : operator = .add ∨ operator = .sub →
      WellTyped Γ left → WellTyped Γ right → left.type ≠ .boolean → left.type = right.type →
      WellTyped Γ (.binary operator left right left.type)
  | multiplicative {operator : Operator} {left right : Node} {type : ExpressionType} :
      operator = .mul ∨ operator = .div → WellTyped Γ left → WellTyped Γ right →
      left.type ≠ .boolean → right.type ≠ .boolean →
      productType left.type right.type (operator = .div) = .ok type →
      WellTyped Γ (.binary operator left right type)
  | comparison {operator : Operator} {left right : Node} :
      operator ∈ comparisons.map Prod.snd → WellTyped Γ left → WellTyped Γ right →
      left.type = right.type → (left.type = .boolean → operator = .eq ∨ operator = .ne) →
      WellTyped Γ (.binary operator left right .boolean)
  | conditional {condition yes no : Node} : WellTyped Γ condition → WellTyped Γ yes →
      WellTyped Γ no → condition.type = .boolean → yes.type = no.type →
      WellTyped Γ (.call .ite [condition, yes, no] yes.type)
  | connective {function : FunctionName} {args : List Node} :
      function = .and ∨ function = .or ∨ function = .not → args ≠ [] →
      (∀ arg ∈ args, WellTyped Γ arg) → (∀ arg ∈ args, arg.type = .boolean) →
      WellTyped Γ (.call function args .boolean)
  | choice {function : FunctionName} {args : List Node} {type : ExpressionType} :
      function = .min ∨ function = .max ∨ (function = .clamp ∧ args.length = 3) → args ≠ [] →
      (∀ arg ∈ args, WellTyped Γ arg) → (∀ arg ∈ args, arg.type = type) → type ≠ .boolean →
      WellTyped Γ (.call function args type)

/-- A tree the parser hands on: well-typed, a literal among them without a unit. -/
structure Fit (Γ : String → ExpressionType → Prop) (n : Node) : Prop where
  wellTyped : WellTyped Γ n
  scalar : n.isLiteral → n.type = .scalar

section Typing

variable {Γ Δ : String → ExpressionType → Prop} {a b n : Node}

theorem WellTyped.mono (h : WellTyped Γ n) (hle : ∀ name type, Γ name type → Δ name type) :
    WellTyped Δ n := by
  induction h with
  | literal hden ht => exact .literal hden ht
  | signed hlit _ ho ht ih => exact .signed hlit ih ho ht
  | input hΓ => exact .input (hle _ _ hΓ)
  | negate hlit _ ho ih => exact .negate hlit ih ho
  | additive hop _ _ hnum heq ihl ihr => exact .additive hop ihl ihr hnum heq
  | multiplicative hop _ _ hl hr hp ihl ihr => exact .multiplicative hop ihl ihr hl hr hp
  | comparison hop _ _ heq hnum ihl ihr => exact .comparison hop ihl ihr heq hnum
  | conditional _ _ _ hc heq ihc ihy ihn => exact .conditional ihc ihy ihn hc heq
  | connective hf hne _ ht ih => exact .connective hf hne ih ht
  | choice hf hne _ ht hnum ih => exact .choice hf hne ih ht hnum

theorem Fit.mono (h : Fit Γ n) (hle : ∀ name type, Γ name type → Δ name type) : Fit Δ n :=
  ⟨h.wellTyped.mono hle, h.scalar⟩

theorem WellTyped.withType (h : WellTyped Γ n) (hlit : n.isLiteral) {t : ExpressionType}
    (ht : t ≠ .boolean) : WellTyped Γ (n.withType t) := by
  cases h with
  | literal hden _ => exact .literal hden ht
  | signed hop hwt ho _ => exact .signed hop hwt ho ht
  | negate hop hwt ho => exact absurd hlit hop
  | _ => cases hlit

/-! ### Taking a unit -/

theorem WellTyped.adopt (h : WellTyped Γ a) (b : Node) : WellTyped Γ (a.adopt b) := by
  unfold Node.adopt
  split_ifs with hcond
  · exact h.withType hcond.1 hcond.2.2
  · exact h

theorem adopt_type_ne (h : a.type ≠ .boolean) (b : Node) : (a.adopt b).type ≠ .boolean := by
  unfold Node.adopt
  split_ifs with hcond
  · rw [Node.type_withType]
    exact hcond.2.2
  · exact h

theorem adopt_of_not_isLiteral (h : ¬a.isLiteral) (b : Node) : a.adopt b = a := by
  simp [Node.adopt, h]

/-- Taking a unit it has already leaves a node as it is. -/
theorem adopt_of_type_eq (h : b.type = a.type) : a.adopt b = a := by
  simp [Node.adopt, h]

theorem matching_eq_ok {operation : String} {p : Node × Node} :
    matching a b operation = .ok p ↔
      p = (a.adopt b, b.adopt (a.adopt b)) ∧ (a.adopt b).type = (b.adopt (a.adopt b)).type := by
  simp only [matching, bind_eq_ok, refuseIf_eq_ok, pure_eq_ok, Bool.not_eq_true', Bool.not_eq_false,
    sameType_iff, eq_comm (a := p)]
  tauto

theorem numeric_eq_ok {u : Unit} : n.numeric = .ok u ↔ n.type ≠ .boolean := by
  simp [Node.numeric]

end Typing

/-! ### The arguments of a choice -/

variable {name : String}

section Align

variable {Γ : String → ExpressionType → Prop} {args : List Node} {a : Node}

/-- The anchor of a nonempty choice takes no unit from any argument: it is not a
literal, or all arguments are and none has a unit. -/
theorem anchor_adopt (hargs : ∀ arg ∈ args, Fit Γ arg) (ha : args[anchorOf args]? = some a)
    {b : Node} (hb : b ∈ args) : a.adopt b = a := by
  by_cases hlit : a.isLiteral
  · have hall : ∀ arg ∈ args, arg.isLiteral := by
      unfold anchorOf at ha
      cases hfind : args.findIdx? fun arg => !arg.isLiteral with
      | none => simpa using findIdx?_eq_none_iff.mp hfind
      | some k =>
        -- the anchor that was found is not a literal
        obtain ⟨hk, hnot, -⟩ := findIdx?_eq_some_iff_getElem.mp hfind
        rw [hfind, getD_some, getElem?_eq_getElem hk, Option.some.injEq] at ha
        rw [ha, hlit] at hnot
        simp at hnot
    refine adopt_of_type_eq ?_
    rw [(hargs b hb).scalar (hall b hb), (hargs a (mem_of_getElem? ha)).scalar hlit]
  · exact adopt_of_not_isLiteral hlit b

/-- The first `m` arguments matched with the anchor `a`, the others as they were. -/
def AlignedTo (args : List Node) (a : Node) (m : ℕ) (done : List Node) : Prop :=
  done.length = args.length ∧
    (∀ i, done[i]? = if i < m then args[i]?.map (·.adopt a) else args[i]?) ∧
    ∀ i < m, ∀ b, args[i]? = some b → b.type ≠ .boolean ∧ (b.adopt a).type = a.type

theorem alignedTo_zero (args : List Node) (a : Node) : AlignedTo args a 0 args := by
  simp [AlignedTo]

/-- One argument is matched. -/
theorem alignedTo_step (hargs : ∀ arg ∈ args, Fit Γ arg) (ha : args[anchorOf args]? = some a)
    {m : ℕ} (hm : m < args.length) {done done' : List Node} (h : AlignedTo args a m done)
    (hstep : alignArgument name (anchorOf args) done m = .ok done') :
    AlignedTo args a (m + 1) done' := by
  obtain ⟨hlen, hget, htypes⟩ := h
  have hself : a.adopt a = a := adopt_of_type_eq rfl
  have hanchor : done[anchorOf args]? = some a := by
    rw [hget, ha]
    split_ifs
    · rw [map_some, hself]
    · rfl
  have hb : args[m]? = some args[m] := getElem?_eq_getElem hm
  have hdone : done[m]? = some args[m] := by
    rw [hget, if_neg (lt_irrefl m), hb]
  have hkeep := anchor_adopt hargs ha (getElem_mem hm)
  simp only [alignArgument, hanchor, hdone, bind_eq_ok, pure_eq_ok, matching_eq_ok, hkeep,
    numeric_eq_ok] at hstep
  obtain ⟨_, hnum, _, ⟨rfl, htype⟩, rfl⟩ := hstep
  refine ⟨by simpa using hlen, fun i => ?_, fun i hi b hbi => ?_⟩
  · -- the anchor is written back as it was
    have hset : done.set (anchorOf args) a = done := by
      obtain ⟨hk, hval⟩ := List.getElem?_eq_some_iff.mp hanchor
      rw [← hval, set_getElem_self]
    rw [hset, getElem?_set]
    split_ifs with heq hlt hlt' hlt'
    · rw [← heq, hb, map_some]
    · omega
    · omega
    · omega
    · rw [hget, if_pos (by omega)]
    · rw [hget, if_neg (by omega)]
  · rcases Nat.lt_succ_iff_lt_or_eq.mp hi with hi | rfl
    · exact htypes i hi b hbi
    · obtain rfl := Option.some.inj (hb.symm.trans hbi)
      exact ⟨hnum, htype.symm⟩

variable {aligned : List Node}

theorem alignArguments_ok (hargs : ∀ arg ∈ args, Fit Γ arg) (ha : args[anchorOf args]? = some a)
    (h : alignArguments name args = .ok aligned) : AlignedTo args a args.length aligned := by
  have hrun : ∀ m ≤ args.length, ∀ done,
      (List.range m).foldlM (alignArgument name (anchorOf args)) args = .ok done →
      AlignedTo args a m done := by
    intro m
    induction m with
    | zero =>
      intro _ done hdone
      obtain rfl := Except.ok.inj hdone
      exact alignedTo_zero args a
    | succ m ih =>
      intro hm done hdone
      rw [range_succ, foldlM_append, bind_eq_ok] at hdone
      obtain ⟨prev, hprev, hlast⟩ := hdone
      simp only [foldlM_cons, foldlM_nil, bind_eq_ok, pure_eq_ok] at hlast
      obtain ⟨_, hlast, rfl⟩ := hlast
      exact alignedTo_step hargs ha hm (ih (by omega) prev hprev) hlast
  exact hrun args.length le_rfl aligned h

/-- **The arguments of a choice have one unit**, that of its anchor. -/
theorem aligned_wellTyped (hargs : ∀ arg ∈ args, Fit Γ arg) (ha : args[anchorOf args]? = some a)
    (h : AlignedTo args a args.length aligned) :
    aligned[anchorOf args]? = some a ∧ a.type ≠ .boolean ∧
      ∀ arg ∈ aligned, WellTyped Γ arg ∧ arg.type = a.type := by
  obtain ⟨hlen, hget, htypes⟩ := h
  have hself : a.adopt a = a := adopt_of_type_eq rfl
  obtain ⟨hk, -⟩ := List.getElem?_eq_some_iff.mp ha
  refine ⟨by rw [hget, if_pos hk, ha, map_some, hself], (htypes _ hk a ha).1, ?_⟩
  intro arg harg
  obtain ⟨i, hi⟩ := mem_iff_getElem?.mp harg
  have hilt : i < args.length := hlen ▸ (List.getElem?_eq_some_iff.mp hi).1
  rw [hget, if_pos hilt, getElem?_eq_getElem hilt, map_some] at hi
  obtain rfl := Option.some.inj hi
  have hmem := getElem_mem hilt
  exact ⟨(hargs _ hmem).wellTyped.adopt a, (htypes i hilt _ (getElem?_eq_getElem hilt)).2⟩

end Align

/-! ### The parser -/

theorem mem_of_lookup {β : Type} {l : List (String × β)} {k : String} {b : β}
    (h : l.lookup k = some b) : (k, b) ∈ l := by
  obtain ⟨l₁, l₂, rfl, -⟩ := List.lookup_eq_some_iff.mp h
  simp

section Parser

variable {types : List (String × ExpressionType)} {s s' : ParserState} {n : Node}

/-- An input is bound at its declared unit once the formula names it. -/
def Named (types : List (String × ExpressionType)) (dependencies : List String) (name : String)
    (type : ExpressionType) : Prop :=
  types.lookup name = some type ∧ name ∈ dependencies

/-- More inputs are named, all of them declared. -/
structure Grows (types : List (String × ExpressionType)) (ds ds' : List String) : Prop where
  subset : ds ⊆ ds'
  declared : ∀ name ∈ ds', name ∈ ds ∨ (types.lookup name).isSome

theorem Grows.refl (ds : List String) : Grows types ds ds :=
  ⟨Subset.refl _, fun _ hname => .inl hname⟩

theorem Grows.trans {ds₁ ds₂ ds₃ : List String} (h : Grows types ds₁ ds₂)
    (h' : Grows types ds₂ ds₃) : Grows types ds₁ ds₃ := by
  refine ⟨Subset.trans h.subset h'.subset, fun name hname => ?_⟩
  rcases h'.declared name hname with hname | hname
  · exact h.declared name hname
  · exact .inr hname

/-- A parse forgets no input, and its tree fits the inputs named so far. -/
structure Parsed (types : List (String × ExpressionType)) (s : ParserState)
    (r : Node × ParserState) : Prop where
  grows : Grows types s.dependencies r.2.dependencies
  fit : Fit (Named types r.2.dependencies) r.1

/-- A parser all of whose trees fit. -/
def Sound (types : List (String × ExpressionType)) (p : Parser) : Prop :=
  ∀ s r, p s = .ok r → Parsed types s r

theorem Fit.later {ds ds' : List String} (h : Fit (Named types ds) n) (hle : Grows types ds ds') :
    Fit (Named types ds') n :=
  h.mono fun _ _ hnamed => ⟨hnamed.1, hle.subset hnamed.2⟩

@[simp] theorem take_dependencies {text : String} (h : s.take text = some s') :
    s'.dependencies = s.dependencies := by
  unfold ParserState.take at h
  split at h
  · split_ifs at h
    rw [← Option.some.inj h]
  · cases h

variable {operator : Operator}

theorem takeOperator_eq_some {operators : List (String × Operator)}
    (h : s.takeOperator operators = some (operator, s')) :
    s'.dependencies = s.dependencies ∧ operator ∈ operators.map Prod.snd := by
  unfold ParserState.takeOperator at h
  split at h
  · obtain ⟨o, ho, heq⟩ := map_eq_some_iff.mp h
    obtain ⟨rfl, rfl⟩ := Prod.mk.inj heq
    exact ⟨rfl, mem_map.mpr ⟨_, mem_of_lookup ho, rfl⟩⟩
  · cases h

variable {left : Node} {type : ExpressionType}

/-- A tree over an operator is not a literal. -/
theorem fit_binary {Γ : String → ExpressionType → Prop} {right : Node}
    (h : WellTyped Γ (.binary operator left right type)) :
    Fit Γ (.binary operator left right type) :=
  ⟨h, fun hlit => by cases hlit⟩

variable {function : FunctionName}

theorem fit_call {Γ : String → ExpressionType → Prop} {args : List Node}
    (h : WellTyped Γ (.call function args type)) : Fit Γ (.call function args type) :=
  ⟨h, fun hlit => by cases hlit⟩

/-! #### Chains -/

variable {p : Parser}

section

variable (hp : Sound types p)

include hp

theorem productLoop_sound (fuel : ℕ) (hleft : Fit (Named types s.dependencies) left)
    {r : Node × ParserState} (h : productLoop p fuel left s = .ok r) : Parsed types s r := by
  induction fuel generalizing left s with
  | zero =>
    obtain rfl := Except.ok.inj h
    exact ⟨Grows.refl _, hleft⟩
  | succ fuel ih =>
    unfold productLoop at h
    split at h
    · obtain rfl := Except.ok.inj h
      exact ⟨Grows.refl _, hleft⟩
    · rename_i operator s₁ htake
      obtain ⟨hdeps, hop⟩ := takeOperator_eq_some htake
      simp only [bind_eq_ok, numeric_eq_ok] at h
      obtain ⟨⟨right, s₂⟩, hright, _, hl, _, hr, type, htype, hrest⟩ := h
      have hparsed := hp _ _ hright
      have hle : Grows types s.dependencies s₂.dependencies := hdeps ▸ hparsed.grows
      have hbin : WellTyped (Named types s₂.dependencies) (.binary operator left right type) :=
        .multiplicative (by simpa using hop) (hleft.later hle).wellTyped hparsed.fit.wellTyped
          hl hr htype
      have hfinal := ih (fit_binary hbin) hrest
      exact ⟨Grows.trans hle hfinal.grows, hfinal.fit⟩

theorem product_sound : Sound types (product p) := by
  intro s r h
  obtain ⟨⟨left, s₁⟩, hleft, hrest⟩ := bind_eq_ok.mp h
  have hparsed := hp _ _ hleft
  have hfinal := productLoop_sound hp _ hparsed.fit hrest
  exact ⟨Grows.trans hparsed.grows hfinal.grows, hfinal.fit⟩

theorem sumLoop_sound (fuel : ℕ) (hleft : Fit (Named types s.dependencies) left)
    {r : Node × ParserState} (h : sumLoop p fuel left s = .ok r) : Parsed types s r := by
  induction fuel generalizing left s with
  | zero =>
    obtain rfl := Except.ok.inj h
    exact ⟨Grows.refl _, hleft⟩
  | succ fuel ih =>
    unfold sumLoop at h
    split at h
    · obtain rfl := Except.ok.inj h
      exact ⟨Grows.refl _, hleft⟩
    · rename_i operator s₁ htake
      obtain ⟨hdeps, hop⟩ := takeOperator_eq_some htake
      simp only [bind_eq_ok, numeric_eq_ok, matching_eq_ok] at h
      obtain ⟨⟨right, s₂⟩, hright, _, hl, _, hr, _, ⟨rfl, htype⟩, hrest⟩ := h
      have hparsed := product_sound hp _ _ hright
      have hle : Grows types s.dependencies s₂.dependencies := hdeps ▸ hparsed.grows
      have hbin : WellTyped (Named types s₂.dependencies) (.binary operator (left.adopt right)
          (right.adopt (left.adopt right)) (left.adopt right).type) :=
        .additive (by simpa using hop) ((hleft.later hle).wellTyped.adopt right)
          (hparsed.fit.wellTyped.adopt _) (adopt_type_ne hl right) htype
      have hfinal := ih (fit_binary hbin) hrest
      exact ⟨Grows.trans hle hfinal.grows, hfinal.fit⟩

theorem sum_sound : Sound types (sum p) := by
  intro s r h
  obtain ⟨⟨left, s₁⟩, hleft, hrest⟩ := bind_eq_ok.mp h
  have hparsed := product_sound hp _ _ hleft
  have hfinal := sumLoop_sound hp _ hparsed.fit hrest
  exact ⟨Grows.trans hparsed.grows hfinal.grows, hfinal.fit⟩

theorem expression_sound : Sound types (expression p) := by
  intro s r h
  obtain ⟨⟨left, s₁⟩, hleft, hrest⟩ := bind_eq_ok.mp h
  have hparsed := sum_sound hp _ _ hleft
  simp only at hrest
  split at hrest
  · obtain rfl := Except.ok.inj hrest
    exact hparsed
  · rename_i operator s₂ htake
    obtain ⟨hdeps, hop⟩ := takeOperator_eq_some htake
    simp only [bind_eq_ok, numeric_eq_ok, matching_eq_ok, onlyIf_eq_ok, pure_eq_ok] at hrest
    obtain ⟨⟨right, s₃⟩, hright, _, ⟨rfl, htype⟩, _, hnum, _, -, rfl⟩ := hrest
    have hparsed' := sum_sound hp _ _ hright
    have hle : Grows types s₁.dependencies s₃.dependencies := hdeps ▸ hparsed'.grows
    refine ⟨Grows.trans hparsed.grows hle, fit_binary (.comparison hop
      ((hparsed.fit.later hle).wellTyped.adopt right) (hparsed'.fit.wellTyped.adopt _) htype
      fun hbool => ?_)⟩
    by_contra hne
    exact hnum (not_or.mp hne) hbool

end

/-! #### Calls -/

variable {r : List Node × ParserState}

theorem argumentsLoop_sound (hp : Sound types p) (fuel : ℕ) {args : List Node}
    (hargs : ∀ arg ∈ args, Fit (Named types s.dependencies) arg)
    (h : argumentsLoop p fuel args s = .ok r) :
    Grows types s.dependencies r.2.dependencies ∧
      ∀ arg ∈ r.1, Fit (Named types r.2.dependencies) arg := by
  -- the argument just parsed, after those before it
  have hmore : ∀ {s : ParserState} {args : List Node} {arg : Node} {s₁ : ParserState},
      p s = .ok (arg, s₁) → (∀ x ∈ args, Fit (Named types s.dependencies) x) →
      ∀ x ∈ args ++ [arg], Fit (Named types s₁.dependencies) x := by
    intro s args arg s₁ harg hargs x hx
    have hparsed := hp _ _ harg
    rcases mem_append.mp hx with hx | hx
    · exact (hargs x hx).later hparsed.grows
    · exact mem_singleton.mp hx ▸ hparsed.fit
  induction fuel generalizing args s with
  | zero =>
    obtain ⟨⟨arg, s₁⟩, harg, hrest⟩ := bind_eq_ok.mp h
    obtain rfl := Except.ok.inj hrest
    exact ⟨(hp _ _ harg).grows, hmore harg hargs⟩
  | succ fuel ih =>
    obtain ⟨⟨arg, s₁⟩, harg, hrest⟩ := bind_eq_ok.mp h
    simp only at hrest
    split at hrest
    · rename_i s₂ htake
      have hdeps := take_dependencies htake
      obtain ⟨hgrows, hfit⟩ := ih (hdeps ▸ hmore harg hargs) hrest
      exact ⟨Grows.trans (hp _ _ harg).grows (hdeps ▸ hgrows), hfit⟩
    · obtain rfl := Except.ok.inj hrest
      exact ⟨(hp _ _ harg).grows, hmore harg hargs⟩

variable {Γ : String → ExpressionType → Prop} {args : List Node}

theorem conditionalNode_sound (hargs : ∀ arg ∈ args, Fit Γ arg)
    (h : conditionalNode args = .ok n) : Fit Γ n := by
  unfold conditionalNode at h
  split at h
  · rename_i condition yes no
    simp only [bind_eq_ok, refuseIf_eq_ok, matching_eq_ok, pure_eq_ok, not_not] at h
    obtain ⟨_, hcond, _, ⟨rfl, htype⟩, rfl⟩ := h
    exact fit_call (.conditional (hargs condition (by simp)).wellTyped
      ((hargs yes (by simp)).wellTyped.adopt no) ((hargs no (by simp)).wellTyped.adopt _) hcond htype)
  · cases h

theorem connectiveNode_sound (hf : function = .and ∨ function = .or ∨ function = .not)
    (hne : args ≠ []) (hargs : ∀ arg ∈ args, Fit Γ arg)
    (h : connectiveNode name function args = .ok n) : Fit Γ n := by
  simp only [connectiveNode, bind_eq_ok, refuseIf_eq_ok, pure_eq_ok, not_exists, not_and,
    not_not] at h
  obtain ⟨_, htypes, rfl⟩ := h
  exact fit_call (.connective hf hne (fun arg harg => (hargs arg harg).wellTyped) htypes)

theorem choiceNode_sound
    (hf : function = .min ∨ function = .max ∨ (function = .clamp ∧ args.length = 3))
    (hne : args ≠ []) (hargs : ∀ arg ∈ args, Fit Γ arg)
    (h : choiceNode name function args = .ok n) : Fit Γ n := by
  simp only [choiceNode, bind_eq_ok, pure_eq_ok] at h
  obtain ⟨aligned, haligned, rfl⟩ := h
  have hanchor : anchorOf args < args.length := by
    unfold anchorOf
    cases hfind : args.findIdx? fun arg => !arg.isLiteral with
    | none => simpa using length_pos_of_ne_nil hne
    | some k => exact (findIdx?_eq_some_iff_getElem.mp hfind).1
  have ha := getElem?_eq_getElem hanchor
  have halign := alignArguments_ok hargs ha haligned
  obtain ⟨hget, hnum, hall⟩ := aligned_wellTyped hargs ha halign
  rw [hget, map_some, getD_some]
  have hlen : aligned.length = args.length := halign.1
  refine fit_call (.choice (by rwa [hlen]) ?_ (fun arg harg => (hall arg harg).1)
    (fun arg harg => (hall arg harg).2) hnum)
  exact fun hnil => hne (length_eq_zero_iff.mp (hlen ▸ hnil ▸ rfl))

theorem callNode_sound (hargs : ∀ arg ∈ args, Fit Γ arg)
    (h : callNode name function args = .ok n) : Fit Γ n := by
  obtain ⟨_, hcount, hrest⟩ := bind_eq_ok.mp h
  cases function with
  | ite => exact conditionalNode_sound hargs hrest
  | and | or | not =>
    simp only [checkCount, refuseIf_eq_ok, length_eq_zero_iff, not_not] at hcount
    refine connectiveNode_sound (by simp) ?_ hargs hrest
    rintro rfl
    simp at hcount
  | min | max =>
    simp only [checkCount, refuseIf_eq_ok, length_eq_zero_iff] at hcount
    exact choiceNode_sound (by simp) hcount hargs hrest
  | clamp =>
    simp only [checkCount, refuseIf_eq_ok, not_not] at hcount
    refine choiceNode_sound (by simpa using hcount) ?_ hargs hrest
    rintro rfl
    simp at hcount

theorem callArguments_sound (hp : Sound types p) (h : callArguments p name s = .ok r) :
    Grows types s.dependencies r.2.dependencies ∧
      ∀ arg ∈ r.1, Fit (Named types r.2.dependencies) arg := by
  unfold callArguments at h
  split at h
  · rename_i s₁ htake
    obtain rfl := Except.ok.inj h
    rw [take_dependencies htake]
    exact ⟨Grows.refl _, by simp⟩
  · simp only [bind_eq_ok, pure_eq_ok, orRefuse_eq_ok] at h
    obtain ⟨⟨args, s₁⟩, hloop, s₂, hclose, rfl⟩ := h
    rw [take_dependencies hclose]
    exact argumentsLoop_sound hp _ (by simp) hloop

theorem call_sound (hp : Sound types p) (name : String) : Sound types (call p name) := by
  intro s r h
  simp only [call, bind_eq_ok, pure_eq_ok, orRefuse_eq_ok] at h
  obtain ⟨function, -, ⟨args, s₁⟩, hargs, node, hnode, rfl⟩ := h
  obtain ⟨hgrows, hfit⟩ := callArguments_sound hp hargs
  exact ⟨hgrows, callNode_sound hfit hnode⟩

/-! #### Factors -/

theorem formulaRational_pos {a b : ℤ} {r : Rational} (h : formulaRational a b = .ok r) :
    0 < r.denominator := by
  unfold formulaRational at h
  split at h
  · rename_i r' hr
    obtain rfl := Except.ok.inj h
    exact (toRat_rational hr).2.1
  all_goals cases h

theorem decimal_pos {raw : RawValue} {label : String} {r : Rational}
    (h : decimal raw label = .ok r) : 0 < r.denominator := by
  simp only [decimal, bind_eq_ok] at h
  obtain ⟨_, -, _, -, _, -, h⟩ := h
  exact formulaRational_pos h

theorem inputNode_sound (name : String) : Sound types (inputNode types name) := by
  intro s r h
  simp only [inputNode, bind_eq_ok, orRefuse_eq_ok, pure_eq_ok] at h
  obtain ⟨type, htype, rfl⟩ := h
  have hmem : Grows types s.dependencies (s.depend name).dependencies ∧
      name ∈ (s.depend name).dependencies := by
    simp only [ParserState.depend]
    split_ifs with hin
    · exact ⟨Grows.refl _, hin⟩
    · refine ⟨⟨subset_append_left _ _, fun x hx => ?_⟩, by simp⟩
      rcases mem_append.mp hx with hx | hx
      · exact .inl hx
      · exact .inr (by rw [mem_singleton.mp hx, htype]; rfl)
  exact ⟨hmem.1, .input ⟨htype, hmem.2⟩, fun hlit => by cases hlit⟩

theorem atom_sound {deeper : Parser} (hdeeper : Sound types deeper) :
    Sound types (atom types deeper) := by
  intro s r h
  unfold atom at h
  split at h
  · simp only [bind_eq_ok, pure_eq_ok] at h
    obtain ⟨value, hvalue, rfl⟩ := h
    exact ⟨Grows.refl _, .literal (decimal_pos hvalue) (by simp), fun _ => rfl⟩
  · rename_i text rest _
    split at h
    · rename_i s₁ htake
      have hcall := call_sound (expression_sound hdeeper) text _ _ h
      exact ⟨take_dependencies htake ▸ hcall.grows, hcall.fit⟩
    · have hinput := inputNode_sound text _ _ h
      exact ⟨hinput.grows, hinput.fit⟩
  · cases h

/-- **Every factor fits**, whatever the levels of nesting left. -/
theorem factor_sound (types : List (String × ExpressionType)) (levels : ℕ) :
    Sound types (factor types levels) := by
  induction levels with
  | zero =>
    intro s r h
    cases h
  | succ levels ih =>
    intro s r h
    unfold factor at h
    cases hminus : s.take "-" with
    | some s₁ =>
      simp only [hminus, bind_eq_ok, numeric_eq_ok, pure_eq_ok] at h
      obtain ⟨⟨operand, s₂⟩, hoperand, _, hnum, rfl⟩ := h
      have hparsed := ih _ _ hoperand
      refine ⟨take_dependencies hminus ▸ hparsed.grows, ?_, hparsed.fit.scalar⟩
      by_cases hlit : operand.isLiteral
      · exact .signed hlit hparsed.fit.wellTyped hnum hnum
      · exact .negate hlit hparsed.fit.wellTyped hnum
    | none =>
      cases hplus : s.take "+" with
      | some s₁ =>
        simp only [hminus, hplus] at h
        have hparsed := ih _ _ h
        exact ⟨take_dependencies hplus ▸ hparsed.grows, hparsed.fit⟩
      | none =>
        cases hopen : s.take "(" with
        | some s₁ =>
          simp only [hminus, hplus, hopen, bind_eq_ok, orRefuse_eq_ok, pure_eq_ok] at h
          obtain ⟨⟨node, s₂⟩, hnode, s₃, hclose, rfl⟩ := h
          have hparsed := expression_sound ih _ _ hnode
          have hdeps := take_dependencies hclose
          exact ⟨hdeps ▸ take_dependencies hopen ▸ hparsed.grows, hdeps ▸ hparsed.fit⟩
        | none =>
          simp only [hminus, hplus, hopen] at h
          exact atom_sound ih _ _ h

end Parser

/-- **A compiled expression is well-typed** over the inputs it names, and these are
declared. -/
theorem compileExpression_wellTyped {source : List Char} {definitions : List ExpressionInput}
    {compiled : CompiledExpression} (h : compileExpression source definitions = .ok compiled) :
    WellTyped (Named compiled.types compiled.dependencies) compiled.root ∧
      ∀ name ∈ compiled.dependencies, ∃ type, compiled.types.lookup name = some type := by
  simp only [compileExpression, parse, bind_eq_ok, pure_eq_ok] at h
  obtain ⟨_, -, types, -, tokens, -, ⟨root, deps⟩, ⟨⟨node, s⟩, hnode, _, -, heq⟩, rfl⟩ := h
  obtain ⟨rfl, rfl⟩ := Prod.mk.inj heq
  have hparsed := expression_sound (factor_sound types _) _ _ hnode
  constructor
  · exact hparsed.fit.wellTyped.mono fun name type hnamed =>
      ⟨hnamed.1, (mem_insertionSort _).mpr hnamed.2⟩
  · intro name hname
    rcases hparsed.grows.declared name ((mem_insertionSort _).mp hname) with hin | hin
    · cases hin
    · exact isSome_iff_exists.mp hin

end OpenBooks
