import OpenBooks.Banking.StatementText
import OpenBooks.Money.DecimalRefusal
import OpenBooks.Money.DecimalValue

/-!
# Statement amounts

`normalizeAmount` reads the amount of a statement line. Currency signs and white space
are dropped, the marks of a negative amount are taken off one after another
(`stripSigns`), the separators are resolved to one point
(`resolveSeparators`), and the money reader does the rest – which has a sign rule of
its own.

Every conventional way of writing an amount is read as that amount (`Renders`,
`normalizeAmount_of_renders`), and what is returned is always canonical money. The sign
is right on one condition. A pair of parentheses, one trailing and one leading mark are taken
off, and a minus that is left behind them (`MinusLeft`) goes to the money reader, which
reads a negative amount that is then negated. `normalizeAmount_signs_iff` says that
this is the only way a marked amount comes out positive.
-/

namespace OpenBooks

open Checked List

/-! ### The reader -/

/-- What a lone comma means: SWIFT amounts have the decimal comma and no grouping, while human
input has no grammar. -/
inductive CommaMode
  | swiftDecimal
  | human
  deriving DecidableEq

/-- `[$€£\s]`. -/
def isAmountNoise (c : Char) : Bool := c ∈ ['$', '€', '£'] || isJsWhitespace c

/-- `/^\(.*\)$/`, with what is inside. -/
def insideParens : List Char → Option (List Char)
  | '(' :: rest => if rest.getLast? = some ')' then some rest.dropLast else none
  | _ => none

/-- The text without one leading sign. -/
def dropLeadingSign (negative : Bool) : List Char → Bool × List Char
  | '-' :: rest => (true, rest)
  | '+' :: rest => (negative, rest)
  | body => (negative, body)

/-- The text inside a pair of parentheses, without one trailing minus, without one leading sign;
and whether any of these marks the amount negative. -/
def stripSigns (s : List Char) : Bool × List Char :=
  let inner := (insideParens s).getD s
  let negative := (insideParens s).isSome || inner.getLast? = some '-'
  dropLeadingSign negative (if inner.getLast? = some '-' then inner.dropLast else inner)

/-- `/^(\d+),(\d{1,2})$/`. -/
def isCommaDecimal (s : List Char) : Bool :=
  match s.dropWhile Char.isDigit with
  | ',' :: tail => s.takeWhile Char.isDigit ≠ [] ∧ tail.all Char.isDigit ∧
      (tail.length = 1 ∨ tail.length = 2)
  | _ => false

/-- `/^\d{1,3}(,\d{3})+$/`. -/
def isCommaGrouped (s : List Char) : Bool :=
  match s.splitOn ',' with
  | first :: rest => first.all Char.isDigit ∧ 1 ≤ first.length ∧ first.length ≤ 3 ∧ rest ≠ [] ∧
      rest.all fun g => g.all Char.isDigit ∧ g.length = 3
  | [] => false

/-- Every comma as a point. -/
def dotCommas (s : List Char) : List Char := s.map fun c => if c = ',' then '.' else c

/-- The text with one point for its separators. The rightmost of two kinds is the point; a lone
comma is by the grammar of its source, or else has to show which it is. -/
def resolveSeparators (s : List Char) (label : String) (mode : CommaMode) :
    Except BankingError (List Char) :=
  if '.' ∈ s ∧ ',' ∈ s then
    .ok (if commaAfterPoint s then dotFirstComma (s.filter (· ≠ '.')) else s.filter (· ≠ ','))
  else if ',' ∈ s then
    match mode with
    | .swiftDecimal => .ok (dotCommas s)
    | .human => do
      refuseIf (s.count ',' = 1 ∧ ¬isCommaDecimal s)
        (⟨decimalNullRefusal label "a statement amount" (.text s) 4⟩ : BankingError)
      return if isCommaGrouped s then s.filter (· ≠ ',') else dotCommas s
  else .ok s

/-- Statement money lands in columns of fifteen whole digits. -/
def assertLedgerRange (units : ℤ) (message : String) : Except BankingError Unit :=
  refuseIf (999999999999999 < |units| / SCALE) ⟨message⟩

def amountText (raw : List Char) : List Char := (trim raw).filter fun c => !isAmountNoise c

/-- Normalize a raw amount to signed canonical money. -/
def normalizeAmount (raw : List Char) (label : String) (mode : CommaMode) :
    Except BankingError (List Char) := do
  let s := amountText raw
  refuseIf (s = []) (⟨label ++ ": empty amount"⟩ : BankingError)
  let text ← resolveSeparators (stripSigns s).2 label mode
  let units ← orRefuse (toUnits text)
    (⟨label ++ ": unparseable amount \"" ++ String.ofList raw ++ "\""⟩ : BankingError)
  let signed := if (stripSigns s).1 then -units else units
  assertLedgerRange signed
    (label ++ ": amount \"" ++ String.ofList raw ++ "\" is out of range for the ledger")
  return (fromUnits signed).toList

example : normalizeAmount "(€ 1.234,5)".toList "Amount" .human = .ok "-1234.5000".toList := by
  decide +kernel

/-! ### Conventional renderings -/

/-- The digits of a whole number: all in one group, or in groups of three behind a shorter or
equal first one. -/
structure DigitGroups (groups : List (List Char)) : Prop where
  digits : ∀ g ∈ groups, ∀ c ∈ g, c.isDigit = true
  nonempty : ∃ c g rest, groups = (c :: g) :: rest
  threes : groups.length = 1 ∨
    (∀ g ∈ groups.head?, g.length ≤ 3) ∧ ∀ g ∈ groups.tail, g.length = 3

/-- The texts of an amount without its sign, by its whole digits and its decimals. -/
inductive AmountText : List Char → List Char → List Char → Prop
  | whole {whole : List Char} (h : DigitGroups [whole]) : AmountText whole [] whole
  | commaGroups {groups : List (List Char)} (h : DigitGroups groups) (hmany : 2 < groups.length) :
      AmountText groups.flatten [] ([','].intercalate groups)
  | point {groups : List (List Char)} {fraction : List Char} (h : DigitGroups groups)
      (hdigits : ∀ c ∈ fraction, c.isDigit = true) (hne : fraction ≠ []) :
      AmountText groups.flatten fraction ([','].intercalate groups ++ '.' :: fraction)
  | comma {groups : List (List Char)} {fraction : List Char} (h : DigitGroups groups)
      (hdigits : ∀ c ∈ fraction, c.isDigit = true)
      (hplaces : fraction.length = 1 ∨ fraction.length = 2) :
      AmountText groups.flatten fraction (['.'].intercalate groups ++ ',' :: fraction)

/-- The text with at most one mark of a negative amount. -/
inductive SignText : Bool → List Char → List Char → Prop
  | unmarked (text : List Char) : SignText false text text
  | parens (text : List Char) : SignText true text ('(' :: (text ++ [')']))
  | leading (text : List Char) : SignText true text ('-' :: text)
  | trailing (text : List Char) : SignText true text (text ++ ['-'])

/-- Raw text that writes an amount, currency signs and white space aside. -/
def Renders (a : ℤ) (raw : List Char) : Prop :=
  ∃ whole fraction text negative, AmountText whole fraction text ∧
    SignText negative text (raw.filter fun c => !isAmountNoise c) ∧
    (a : ℚ) = (if negative then -1 else 1) * pointedValue (whole, fraction) * 10 ^ 4

/-! ### What a rendering goes through -/

section Renderings

variable {groups : List (List Char)} {whole fraction text : List Char} {sep : Char}

theorem filter_intercalate (h : ∀ g ∈ groups, sep ∉ g) :
    ([sep].intercalate groups).filter (· ≠ sep) = groups.flatten := by
  have hkeep : ∀ g ∈ groups, g.filter (· ≠ sep) = g := fun g hg =>
    filter_eq_self.mpr fun c hc => by
      have hne : c ≠ sep := by
        rintro rfl
        exact h g hg hc
      simpa using hne
  induction groups with
  | nil => simp
  | cons g groups ih =>
    have ih := ih (fun g' hg' => h g' (mem_cons_of_mem _ hg'))
      (fun g' hg' => hkeep g' (mem_cons_of_mem _ hg'))
    have hg := hkeep g mem_cons_self
    cases groups with
    | nil => simpa using hg
    | cons g' groups =>
      rw [intercalate_cons_cons, filter_append, filter_append, ih, hg]
      simp

theorem intercalate_concat (hne : groups ≠ []) (g : List Char) :
    [sep].intercalate (groups ++ [g]) = [sep].intercalate groups ++ sep :: g := by
  induction groups with
  | nil => exact absurd rfl hne
  | cons g' groups ih =>
    cases groups with
    | nil => simp [intercalate_cons_cons]
    | cons g'' groups =>
      rw [cons_append, cons_append, intercalate_cons_cons, ← cons_append,
        ih (cons_ne_nil _ _), intercalate_cons_cons]
      simp only [append_assoc]

theorem mem_intercalate (h : ∀ g ∈ groups, ∀ c ∈ g, c.isDigit = true) :
    ∀ c ∈ [sep].intercalate groups, c.isDigit = true ∨ c = sep := by
  induction groups with
  | nil => simp
  | cons g groups ih =>
    have hg := h g mem_cons_self
    have ih := ih fun g' hg' => h g' (mem_cons_of_mem _ hg')
    cases groups with
    | nil =>
      intro c hc
      exact .inl (hg c (by simpa using hc))
    | cons g' groups =>
      intro c hc
      rw [intercalate_cons_cons] at hc
      rcases mem_append.mp hc with hc | hc
      · rcases mem_append.mp hc with hc | hc
        · exact .inl (hg c hc)
        · exact .inr (mem_singleton.mp hc)
      · exact ih c hc

theorem count_intercalate (h : ∀ g ∈ groups, sep ∉ g) :
    ([sep].intercalate groups).count sep = groups.length - 1 := by
  induction groups with
  | nil => simp
  | cons g groups ih =>
    have ih := ih fun g' hg' => h g' (mem_cons_of_mem _ hg')
    have hg := count_eq_zero.mpr (h g mem_cons_self)
    cases groups with
    | nil => simpa using hg
    | cons g' groups =>
      rw [intercalate_cons_cons, count_append, count_append, ih, hg]
      simp
      omega

theorem not_mem_intercalate (h : ∀ g ∈ groups, sep ∉ g) :
    sep ∉ [sep].intercalate groups ↔ groups.length ≤ 1 := by
  rw [← count_eq_zero, count_intercalate h]
  omega

theorem isDigit_ne {c : Char} (h : c.isDigit = true) :
    c ≠ ',' ∧ c ≠ '.' ∧ c ≠ '-' ∧ c ≠ '+' ∧ c ≠ '(' ∧ c ≠ ')' := by
  refine ⟨?_, ?_, ?_, ?_, ?_, ?_⟩ <;> rintro rfl <;> cases h

theorem DigitGroups.not_mem (h : DigitGroups groups) (hsep : sep.isDigit = false) :
    ∀ g ∈ groups, sep ∉ g := by
  intro g hg hmem
  rw [h.digits g hg sep hmem] at hsep
  cases hsep

theorem AmountText.ends (h : AmountText whole fraction text) :
    (∃ c rest, text = c :: rest ∧ c.isDigit = true) ∧
      ∃ rest c, text = rest ++ [c] ∧ c.isDigit = true := by
  have hfirst : ∀ {sep groups}, DigitGroups groups →
      ∃ c rest, [sep].intercalate groups = c :: rest ∧ c.isDigit = true := by
    intro sep groups h
    obtain ⟨c, g, rest, rfl⟩ := h.nonempty
    have hc := h.digits _ mem_cons_self c mem_cons_self
    cases rest with
    | nil => exact ⟨c, g, by simp, hc⟩
    | cons g' rest => exact ⟨c, _, by rw [intercalate_cons_cons]; rfl, hc⟩
  have hlast : ∀ {ds : List Char}, (∀ c ∈ ds, c.isDigit = true) → ds ≠ [] →
      ∃ rest c, ds = rest ++ [c] ∧ c.isDigit = true := by
    intro ds hds hne
    exact ⟨_, _, (dropLast_append_getLast hne).symm, hds _ (getLast_mem hne)⟩
  have hbehind : ∀ {front ds : List Char} {c : Char}, (∃ rest d, ds = rest ++ [d] ∧
      d.isDigit = true) → ∃ rest d, front ++ c :: ds = rest ++ [d] ∧ d.isDigit = true := by
    rintro front ds c ⟨rest, d, rfl, hd⟩
    exact ⟨front ++ c :: rest, d, by simp, hd⟩
  have hmore : ∀ {front more : List Char}, (∃ c rest, front = c :: rest ∧ c.isDigit = true) →
      ∃ c rest, front ++ more = c :: rest ∧ c.isDigit = true := by
    rintro front more ⟨c, rest, rfl, hc⟩
    exact ⟨c, rest ++ more, rfl, hc⟩
  cases h with
  | whole h =>
    obtain ⟨c, g, rest, hgroups⟩ := h.nonempty
    obtain ⟨rfl, -⟩ := List.cons.inj hgroups
    exact ⟨⟨c, g, rfl, h.digits _ mem_cons_self c mem_cons_self⟩,
      hlast (h.digits _ mem_cons_self) (cons_ne_nil _ _)⟩
  | @commaGroups groups h hmany =>
    refine ⟨hfirst h, ?_⟩
    obtain ⟨init, g, rfl⟩ : ∃ init g, groups = init ++ [g] :=
      ⟨_, _, (dropLast_append_getLast (by rintro rfl; cases hmany)).symm⟩
    have hinit : init ≠ [] := by
      rintro rfl
      simp at hmany
    have hg : g ≠ [] := by
      have hthrees := h.threes.resolve_left (by omega)
      have := hthrees.2 g (by
        rw [tail_append_of_ne_nil hinit]
        simp)
      rintro rfl
      cases this
    obtain ⟨rest, c, rfl, hc⟩ := hlast (h.digits g (by simp)) hg
    refine ⟨[','].intercalate init ++ ',' :: rest, c, ?_, hc⟩
    rw [intercalate_concat hinit]
    simp
  | point h hdigits hne => exact ⟨hmore (hfirst h), hbehind (hlast hdigits hne)⟩
  | comma h hdigits hplaces =>
    exact ⟨hmore (hfirst h), hbehind (hlast hdigits (by rintro rfl; simp at hplaces))⟩

/-- The marks of a rendering are taken off, and nothing else. -/
theorem stripSigns_of_signText {negative : Bool} {core : List Char}
    (htext : AmountText whole fraction text) (h : SignText negative text core) :
    stripSigns core = (negative, text) := by
  obtain ⟨⟨c, front, hfront, hc⟩, rest, d, hrest, hd⟩ := htext.ends
  obtain ⟨-, -, hminus, hplus, hopen, hclose⟩ := isDigit_ne hc
  obtain ⟨-, -, hminus', -, -, hclose'⟩ := isDigit_ne hd
  have hlast : text.getLast? = some d := by rw [hrest, getLast?_concat]
  have hnot : text.getLast? ≠ some '-' := by
    rw [hlast]
    exact fun heq => hminus' (Option.some.inj heq)
  have hbare : insideParens text = none := by
    rw [hfront, insideParens.eq_def]
    split
    · rename_i heq
      exact absurd (List.cons.inj heq).1 hopen
    · rfl
  have hbody : ∀ negative : Bool, dropLeadingSign negative text = (negative, text) := by
    intro negative
    rw [hfront, dropLeadingSign.eq_def]
    split
    · rename_i heq
      exact absurd (List.cons.inj heq).1 hminus
    · rename_i heq
      exact absurd (List.cons.inj heq).1 hplus
    · rfl
  cases h with
  | unmarked =>
    rw [stripSigns, hbare, Option.getD_none, if_neg hnot, decide_eq_false hnot]
    exact hbody false
  | parens =>
    have hinside : insideParens ('(' :: (text ++ [')'])) = some text := by
      rw [insideParens, getLast?_concat, if_pos rfl, dropLast_concat]
    rw [stripSigns, hinside, Option.getD_some, if_neg hnot]
    exact hbody true
  | leading =>
    have hlast' : ('-' :: text).getLast? = some d := by
      rw [hrest, ← cons_append, getLast?_concat]
    have hnot' : ('-' :: text).getLast? ≠ some '-' := by
      rw [hlast']
      exact fun heq => hminus' (Option.some.inj heq)
    rw [stripSigns, show insideParens ('-' :: text) = none from rfl, Option.getD_none, if_neg hnot',
      dropLeadingSign]
  | trailing =>
    have hbare' : insideParens (text ++ ['-']) = none := by
      rw [hfront, cons_append, insideParens.eq_def]
      split
      · rename_i heq
        exact absurd (List.cons.inj heq).1 hopen
      · rfl
    rw [stripSigns, hbare', Option.getD_none, getLast?_concat, if_pos rfl, dropLast_concat]
    exact hbody true

variable {front more : List Char}

theorem dotFirstComma_append (h : ',' ∉ front) :
    dotFirstComma (front ++ ',' :: more) = front ++ '.' :: more := by
  induction front with
  | nil => rfl
  | cons c front ih =>
    have hc : c ≠ ',' := fun heq => h (heq ▸ mem_cons_self)
    rw [cons_append, dotFirstComma, if_neg hc,
      ih fun hmem => h (mem_cons_of_mem _ hmem), cons_append]

theorem commaAfterPoint_comma (hpoint : '.' ∈ front) (hcomma : ',' ∉ more) (hmore : '.' ∉ more) :
    commaAfterPoint (front ++ ',' :: more) = true := by
  have htake : (front ++ ',' :: more).reverse.takeWhile (· ≠ ',') = more.reverse := by
    rw [reverse_append, reverse_cons, append_assoc, takeWhile_append_of_pos fun c hc => ?_]
    · simp
    · have : c ≠ ',' := by
        rintro rfl
        exact hcomma (mem_reverse.mp hc)
      simpa using this
  rw [commaAfterPoint, htake]
  simp [hpoint, hmore]

theorem commaAfterPoint_point (hcomma : ',' ∉ more) :
    commaAfterPoint (front ++ '.' :: more) = false := by
  have hmem : '.' ∈ (front ++ '.' :: more).reverse.takeWhile (· ≠ ',') := by
    rw [reverse_append, reverse_cons, append_assoc, takeWhile_append_of_pos fun c hc => ?_]
    · simp
    · have : c ≠ ',' := by
        rintro rfl
        exact hcomma (mem_reverse.mp hc)
      simpa using this
  rw [commaAfterPoint]
  simp only [hmem, not_true_eq_false, and_false, decide_false]

theorem isCommaGrouped_intercalate (h : DigitGroups groups) (hmany : 2 < groups.length) :
    isCommaGrouped ([','].intercalate groups) = true := by
  have hsplit : ([','].intercalate groups).splitOn ',' = groups :=
    splitOn_intercalate ',' (h.not_mem (by decide)) (by rintro rfl; cases hmany)
  obtain ⟨c, g, rest, rfl⟩ := h.nonempty
  obtain ⟨hfirst, hrest⟩ := h.threes.resolve_left (by omega)
  have hne : rest ≠ [] := by
    rintro rfl
    simp at hmany
  have hlen : (c :: g).length ≤ 3 := hfirst _ rfl
  rw [isCommaGrouped, hsplit]
  simp only [decide_eq_true_eq]
  refine ⟨?_, by simp, hlen, hne, ?_⟩
  · exact all_eq_true.mpr (h.digits _ mem_cons_self)
  · refine all_eq_true.mpr fun g' hg' => ?_
    simp only [decide_eq_true_eq]
    exact ⟨all_eq_true.mpr (h.digits g' (mem_cons_of_mem _ hg')), hrest g' hg'⟩

/-- **A rendering resolves to its digits around one point.** -/
theorem resolveSeparators_of_amountText (h : AmountText whole fraction text) (label : String) :
    resolveSeparators text label .human = .ok (whole ++ pointed fraction) := by
  have hdigit : ∀ {ds : List Char} {c : Char}, (∀ d ∈ ds, d.isDigit = true) →
      c.isDigit = false → c ∉ ds := by
    intro ds c hds hc hmem
    rw [hds c hmem] at hc
    cases hc
  cases h with
  | whole h =>
    have hds := h.digits _ mem_cons_self
    have hcomma := hdigit hds (show ','.isDigit = false from rfl)
    rw [resolveSeparators, if_neg fun hmem => hcomma hmem.2, if_neg hcomma]
    simp [pointed]
  | @commaGroups groups h hmany =>
    have hnot := h.not_mem (show ','.isDigit = false by decide)
    have hcomma : ',' ∈ [','].intercalate groups := by
      by_contra hmem
      have := (not_mem_intercalate hnot).mp hmem
      omega
    have hpoint : '.' ∉ [','].intercalate groups := by
      intro hmem
      rcases mem_intercalate h.digits _ hmem with hc | hc <;> cases hc
    have hcount : ¬(([','].intercalate groups).count ',' = 1 ∧
        ¬isCommaDecimal ([','].intercalate groups) = true) := by
      rw [count_intercalate hnot]
      omega
    rw [resolveSeparators, if_neg fun hmem => hpoint hmem.1, if_pos hcomma]
    simp only [refuseIf, if_neg hcount, isCommaGrouped_intercalate h hmany, if_true]
    rw [filter_intercalate hnot]
    simp [pointed]
  | @point groups fraction h hdigits hne =>
    have hnot := h.not_mem (show ','.isDigit = false by decide)
    have hfraction := hdigit hdigits (show ','.isDigit = false from rfl)
    have hpointed : pointed fraction = '.' :: fraction := if_neg hne
    have hfilter : ([','].intercalate groups ++ '.' :: fraction).filter (· ≠ ',') =
        groups.flatten ++ '.' :: fraction := by
      rw [filter_append, filter_intercalate hnot, filter_eq_self.mpr]
      intro c hc
      have : c ≠ ',' := by
        rintro rfl
        rcases mem_cons.mp hc with hc | hc
        · cases hc
        · exact hfraction hc
      simpa using this
    rw [resolveSeparators, hpointed]
    by_cases hcomma : ',' ∈ [','].intercalate groups ++ '.' :: fraction
    · rw [if_pos ⟨by simp, hcomma⟩, commaAfterPoint_point hfraction, if_neg Bool.false_ne_true,
        hfilter]
    · rw [if_neg fun hmem => hcomma hmem.2, if_neg hcomma, ← hfilter, filter_eq_self.mpr]
      intro c hc
      have : c ≠ ',' := by
        rintro rfl
        exact hcomma hc
      simpa using this
  | @comma groups fraction h hdigits hplaces =>
    have hnot := h.not_mem (show '.'.isDigit = false by decide)
    have hpointed : pointed fraction = '.' :: fraction := by
      refine if_neg ?_
      rintro rfl
      simp at hplaces
    have hfront : ',' ∉ ['.'].intercalate groups := by
      intro hmem
      rcases mem_intercalate h.digits _ hmem with hc | hc <;> cases hc
    have hcomma : ',' ∈ ['.'].intercalate groups ++ ',' :: fraction := by simp
    have hmore := hdigit hdigits (show ','.isDigit = false from rfl)
    have hmore' := hdigit hdigits (show '.'.isDigit = false from rfl)
    rw [resolveSeparators, hpointed]
    by_cases hpoint : '.' ∈ ['.'].intercalate groups
    · have hfilter : (['.'].intercalate groups ++ ',' :: fraction).filter (· ≠ '.') =
          groups.flatten ++ ',' :: fraction := by
        rw [filter_append, filter_intercalate hnot, filter_eq_self.mpr]
        intro c hc
        have : c ≠ '.' := by
          rintro rfl
          rcases mem_cons.mp hc with hc | hc
          · cases hc
          · exact hmore' hc
        simpa using this
      have hflat : ',' ∉ groups.flatten := by
        intro hmem
        obtain ⟨g, hg, hc⟩ := mem_flatten.mp hmem
        have := h.digits g hg _ hc
        cases this
      rw [if_pos ⟨by simp [hpoint], hcomma⟩, commaAfterPoint_comma hpoint hmore hmore', if_pos rfl,
        hfilter, dotFirstComma_append hflat]
    · -- One group, so the comma stands alone behind digits.
      have hone : ['.'].intercalate groups = groups.flatten := by
        rw [← filter_intercalate hnot, filter_eq_self.mpr]
        intro c hc
        have : c ≠ '.' := by
          rintro rfl
          exact hpoint hc
        simpa using this
      have hflat : ∀ c ∈ groups.flatten, c.isDigit = true := by
        intro c hc
        obtain ⟨g, hg, hc⟩ := mem_flatten.mp hc
        exact h.digits g hg c hc
      have hne : groups.flatten ≠ [] := by
        obtain ⟨c, g, rest, rfl⟩ := h.nonempty
        simp
      rw [hone] at hcomma hpoint hfront ⊢
      have hno : ¬('.' ∈ groups.flatten ++ ',' :: fraction ∧
          ',' ∈ groups.flatten ++ ',' :: fraction) := by
        rintro ⟨hmem, -⟩
        rcases mem_append.mp hmem with hmem | hmem
        · exact hpoint hmem
        · rcases mem_cons.mp hmem with hmem | hmem
          · cases hmem
          · exact hmore' hmem
      have hcut : (groups.flatten ++ ',' :: fraction).takeWhile Char.isDigit = groups.flatten ∧
          (groups.flatten ++ ',' :: fraction).dropWhile Char.isDigit = ',' :: fraction := by
        rw [takeWhile_append_of_pos hflat, dropWhile_append_of_pos hflat]
        simp
      have hdecimal : isCommaDecimal (groups.flatten ++ ',' :: fraction) = true := by
        rw [isCommaDecimal, hcut.1, hcut.2]
        simp only [decide_eq_true_eq]
        exact ⟨hne, all_eq_true.mpr hdigits, hplaces⟩
      have hgrouped : isCommaGrouped (groups.flatten ++ ',' :: fraction) = false := by
        have hsplit : (groups.flatten ++ ',' :: fraction).splitOn ',' =
            [groups.flatten, fraction] := by
          have hplain : ∀ l ∈ [groups.flatten, fraction], ',' ∉ l := fun l hl => by
            rcases mem_cons.mp hl with rfl | hl
            · exact hfront
            · exact mem_singleton.mp hl ▸ hmore
          have := splitOn_intercalate ',' hplain (cons_ne_nil _ _)
          rwa [intercalate_cons_cons, intercalate_singleton, append_assoc] at this
        rw [isCommaGrouped, hsplit]
        simp only [decide_eq_false_iff_not]
        rintro ⟨-, -, -, -, hall⟩
        have := all_eq_true.mp hall fraction mem_cons_self
        simp only [decide_eq_true_eq] at this
        omega
      have hdots : dotCommas (groups.flatten ++ ',' :: fraction) =
          groups.flatten ++ '.' :: fraction := by
        have hkeep : ∀ ds : List Char, ',' ∉ ds → dotCommas ds = ds := by
          intro ds hds
          rw [dotCommas]
          conv_rhs => rw [← map_id ds]
          refine map_congr_left fun c hc => if_neg ?_
          rintro rfl
          exact hds hc
        have happend : dotCommas (groups.flatten ++ ',' :: fraction) =
            dotCommas groups.flatten ++ '.' :: dotCommas fraction := by
          simp [dotCommas]
        rw [happend, hkeep _ hfront, hkeep _ hmore]
      rw [if_neg hno, if_pos hcomma]
      simp only [refuseIf, hdecimal, not_true_eq_false, and_false, if_false, hgrouped,
        Bool.false_eq_true, hdots]
      rfl

theorem filter_trim {p : Char → Bool} (hp : ∀ c, isJsWhitespace c = true → p c = false)
    (raw : List Char) : (trim raw).filter p = raw.filter p := by
  have hdrop : ∀ l : List Char, (l.dropWhile isJsWhitespace).filter p = l.filter p := by
    intro l
    have hnone : (l.takeWhile isJsWhitespace).filter p = [] :=
      filter_eq_nil_iff.mpr fun c hc => by simp [hp c (mem_takeWhile_imp hc)]
    have hsplit := congrArg (List.filter p)
      (takeWhile_append_dropWhile (p := isJsWhitespace) (l := l))
    rwa [filter_append, hnone, nil_append] at hsplit
  rw [trim, filter_reverse, hdrop, filter_reverse, reverse_reverse, hdrop]

theorem amountText_eq (raw : List Char) :
    amountText raw = raw.filter fun c => !isAmountNoise c :=
  filter_trim (fun c hc => by simp [isAmountNoise, hc]) raw

/-- The digits of a rendering read as money. -/
theorem toUnits_of_amountText (h : AmountText whole fraction text) {u : ℤ}
    (hu : (u : ℚ) = pointedValue (whole, fraction) * 10 ^ 4) :
    toUnits (whole ++ pointed fraction) = some u := by
  have hflat : ∀ {groups : List (List Char)}, DigitGroups groups →
      (∀ c ∈ groups.flatten, c.isDigit = true) ∧ groups.flatten ≠ [] := by
    intro groups h
    refine ⟨fun c hc => ?_, ?_⟩
    · obtain ⟨g, hg, hc⟩ := mem_flatten.mp hc
      exact h.digits g hg c hc
    · obtain ⟨c, g, rest, rfl⟩ := h.nonempty
      simp
  have hdigits : (∀ c ∈ whole, c.isDigit = true) ∧ whole ≠ [] ∧
      ∀ c ∈ fraction, c.isDigit = true := by
    cases h with
    | whole h =>
      have := hflat h
      simp only [flatten_cons, flatten_nil, append_nil] at this
      exact ⟨this.1, this.2, by simp⟩
    | commaGroups h => exact ⟨(hflat h).1, (hflat h).2, by simp⟩
    | point h hfraction | comma h hfraction => exact ⟨(hflat h).1, (hflat h).2, hfraction⟩
  obtain ⟨hwhole, hne, hfraction⟩ := hdigits
  have hshape := matchDecimal_shape hwhole hne hfraction False
  rw [if_neg not_false, nil_append] at hshape
  refine toUnits_eq_some_iff.mpr ⟨_, hshape, (by decide : |(0 : ℤ)| ≤ MAX_EXACT_EXPONENT), ?_⟩
  rw [hu, DecimalMatch.value, pointedValue]
  simp

end Renderings

/-- A ledger amount: at most fifteen whole digits. -/
def InLedgerRange (a : ℤ) : Prop := |a| / SCALE ≤ 999999999999999

instance (a : ℤ) : Decidable (InLedgerRange a) := inferInstanceAs (Decidable (_ ≤ _))

variable {mode : CommaMode} {label : String}

/-- What is read, step by step. -/
theorem normalizeAmount_eq_ok {raw result : List Char} :
    normalizeAmount raw label mode = .ok result ↔ amountText raw ≠ [] ∧ ∃ text u,
      resolveSeparators (stripSigns (amountText raw)).2 label mode = .ok text ∧
      toUnits text = some u ∧
      InLedgerRange (if (stripSigns (amountText raw)).1 then -u else u) ∧
      result = (fromUnits (if (stripSigns (amountText raw)).1 then -u else u)).toList := by
  simp only [normalizeAmount, assertLedgerRange, bind_eq_ok, refuseIf_eq_ok, orRefuse_eq_ok,
    pure_eq_ok, not_lt, InLedgerRange]
  constructor
  · rintro ⟨_, hne, text, htext, u, hu, _, hrange, rfl⟩
    exact ⟨hne, text, u, htext, hu, hrange, rfl⟩
  · rintro ⟨hne, text, u, htext, hu, hrange, rfl⟩
    exact ⟨(), hne, text, htext, u, hu, (), hrange, rfl⟩

/-- **Every conventional rendering of an amount is read as that amount.** -/
theorem normalizeAmount_of_renders {a : ℤ} {raw : List Char} (h : Renders a raw)
    (hrange : InLedgerRange a) (label : String) :
    normalizeAmount raw label .human = .ok (fromUnits a).toList := by
  obtain ⟨whole, fraction, text, negative, htext, hsign, hvalue⟩ := h
  have hstrip := stripSigns_of_signText htext hsign
  rw [← amountText_eq] at hstrip
  have hne : amountText raw ≠ [] := by
    obtain ⟨⟨c, rest, rfl, -⟩, -⟩ := htext.ends
    have hcore : ∀ {core}, SignText negative (c :: rest) core → core ≠ [] := by
      rintro core (_ | _ | _ | _) <;> simp
    rw [amountText_eq]
    exact hcore hsign
  set u : ℤ := if negative then -a else a with hu
  have hunits : toUnits (whole ++ pointed fraction) = some u := by
    refine toUnits_of_amountText htext ?_
    rw [hu]
    cases negative <;> simp only [Bool.false_eq_true, if_true, if_false] at hvalue ⊢ <;>
      push_cast <;> rw [hvalue] <;> ring
  have hsigned : (if negative = true then -u else u) = a := by
    rw [hu]
    cases negative <;> simp
  rw [normalizeAmount_eq_ok, hstrip]
  exact ⟨hne, _, u, resolveSeparators_of_amountText htext label, hunits, hsigned ▸ hrange,
    congrArg (fun a => (fromUnits a).toList) hsigned.symm⟩

/-! ### Signs -/

/-- A mark of a negative amount: a pair of parentheses around it, a leading or a trailing
minus. -/
def Marked (s : List Char) : Prop :=
  s.head? = some '-' ∨ s.getLast? = some '-' ∨ (insideParens s).isSome

instance (s : List Char) : Decidable (Marked s) := inferInstanceAs (Decidable (_ ∨ _))

/-- A point or a comma. -/
def isSeparator (c : Char) : Bool := c = '.' || c = ','

/-- The text without its separators. -/
def withoutSeparators (s : List Char) : List Char := s.filter fun c => !isSeparator c

/-- A minus is left when the marks are taken off, in front of digits that are not all zero. -/
def MinusLeft (s : List Char) : Prop :=
  let rest := withoutSeparators (stripSigns s).2
  rest.head? = some '-' ∧
    (rest.takeWhile fun c => c ≠ 'e' && c ≠ 'E').any fun c => c.isDigit && c ≠ '0'

instance (s : List Char) : Decidable (MinusLeft s) := inferInstanceAs (Decidable (_ ∧ _))

variable (s : List Char)

theorem stripSigns_fst : (stripSigns s).1 = true ↔ Marked s := by
  have hlead : ∀ negative body, (dropLeadingSign negative body).1 = true ↔
      negative = true ∨ body.head? = some '-' := by
    intro negative body
    rw [dropLeadingSign.eq_def]
    split
    · simp
    · simp
    · rename_i hno _
      have : body.head? ≠ some '-' := by
        cases body with
        | nil => simp
        | cons c rest =>
          intro heq
          obtain rfl := Option.some.inj heq
          exact hno rest rfl
      simp [this]
  rw [stripSigns, hlead]
  cases hinside : insideParens s with
  | some inner => simp [Marked, hinside]
  | none =>
    by_cases hlast : s.getLast? = some '-'
    · simp [Marked, hinside, hlast]
    · simp [Marked, hinside, hlast]

theorem withoutSeparators_dotFirstComma :
    withoutSeparators (dotFirstComma s) = withoutSeparators s := by
  induction s with
  | nil => rfl
  | cons c s ih =>
    rw [dotFirstComma]
    split_ifs with hc
    · simp [withoutSeparators, isSeparator, hc]
    · rw [withoutSeparators, withoutSeparators, filter_cons, filter_cons]
      rw [withoutSeparators, withoutSeparators] at ih
      rw [ih]

theorem withoutSeparators_dotCommas : withoutSeparators (dotCommas s) = withoutSeparators s := by
  induction s with
  | nil => rfl
  | cons c s ih =>
    have hcons : dotCommas (c :: s) = (if c = ',' then '.' else c) :: dotCommas s := rfl
    rw [withoutSeparators, withoutSeparators] at ih
    rw [hcons, withoutSeparators, withoutSeparators, filter_cons, filter_cons, ih]
    by_cases hc : c = ','
    · simp [isSeparator, hc]
    · rw [if_neg hc]

theorem withoutSeparators_filter {s : List Char} {sep : Char} (hsep : isSeparator sep = true) :
    withoutSeparators (s.filter (· ≠ sep)) = withoutSeparators s := by
  rw [withoutSeparators, withoutSeparators, filter_filter]
  refine filter_congr fun c _ => ?_
  by_cases hc : c = sep
  · simp [hc, hsep]
  · simp [hc]

variable {text : List Char}

theorem withoutSeparators_resolve {s : List Char} (h : resolveSeparators s label mode = .ok text) :
    withoutSeparators text = withoutSeparators s := by
  unfold resolveSeparators at h
  by_cases hboth : '.' ∈ s ∧ ',' ∈ s
  · rw [if_pos hboth] at h
    obtain rfl := Except.ok.inj h
    split_ifs
    · rw [withoutSeparators_dotFirstComma, withoutSeparators_filter rfl]
    · exact withoutSeparators_filter rfl
  · rw [if_neg hboth] at h
    by_cases hcomma : ',' ∈ s
    · rw [if_pos hcomma] at h
      cases mode with
      | swiftDecimal =>
        obtain rfl := Except.ok.inj h
        exact withoutSeparators_dotCommas s
      | human =>
        obtain ⟨_, -, h⟩ := bind_eq_ok.mp h
        obtain rfl := pure_eq_ok.mp h
        split_ifs
        · exact withoutSeparators_filter rfl
        · exact withoutSeparators_dotCommas s
    · rw [if_neg hcomma] at h
      obtain rfl := Except.ok.inj h
      rfl

theorem matchDecimal_text {m : DecimalMatch} (h : matchDecimal text = some m) :
    ∃ sign point exponent, text = sign ++ m.whole ++ point ++ m.fraction ++ exponent ∧
      (m.negative = true ∧ sign = ['-'] ∨ m.negative = false ∧ (sign = [] ∨ sign = ['+'])) ∧
      (point = [] ∨ point = ['.']) ∧
      (exponent = [] ∨ ∃ e tail, exponent = e :: tail ∧ (e = 'e' ∨ e = 'E')) := by
  unfold matchDecimal at h
  split at h
  rename_i negative body hsign
  split at h
  rename_i fraction rest hrest
  obtain ⟨sign, rfl, hmark⟩ : ∃ sign, text = sign ++ body ∧
      (negative = true ∧ sign = ['-'] ∨ negative = false ∧ (sign = [] ∨ sign = ['+'])) := by
    split at hsign <;> obtain ⟨rfl, rfl⟩ := Prod.mk.inj hsign
    · exact ⟨['-'], rfl, .inl ⟨rfl, rfl⟩⟩
    · exact ⟨['+'], rfl, .inr ⟨rfl, .inr rfl⟩⟩
    · exact ⟨[], rfl, .inr ⟨rfl, .inl rfl⟩⟩
  obtain ⟨point, hbody, hpoint⟩ : ∃ point, body = body.takeWhile Char.isDigit ++ point ++
      fraction ++ rest ∧ (point = [] ∨ point = ['.']) := by
    have hcut := takeWhile_append_dropWhile (p := Char.isDigit) (l := body)
    split at hrest
    · rename_i more hmore
      obtain ⟨rfl, rfl⟩ := Prod.mk.inj hrest
      refine ⟨['.'], ?_, .inr rfl⟩
      rw [append_assoc, takeWhile_append_dropWhile, append_assoc, singleton_append, ← hmore, hcut]
    · obtain ⟨rfl, rfl⟩ := Prod.mk.inj hrest
      exact ⟨[], by simp, .inl rfl⟩
  have htext : sign ++ body = sign ++ body.takeWhile Char.isDigit ++ point ++ fraction ++ rest := by
    conv_lhs => rw [hbody]
    simp only [append_assoc]
  dsimp only at h
  split_ifs at h
  split at h
  · obtain rfl := Option.some.inj h
    exact ⟨sign, point, [], htext, hmark, hpoint, .inl rfl⟩
  · rename_i e tail
    split_ifs at h with he
    obtain ⟨x, -, rfl⟩ := Option.map_eq_some_iff.mp h
    exact ⟨sign, point, e :: tail, htext, hmark, hpoint, .inr ⟨e, tail, rfl, he⟩⟩

/-- Units below zero come from a minus and a digit that is not zero. -/
theorem units_neg_iff {m : DecimalMatch} {u : ℤ} (hdigits : ∀ c ∈ m.whole ++ m.fraction,
    c.isDigit = true) (hu : (u : ℚ) = m.value * 10 ^ 4) :
    u < 0 ↔ m.negative = true ∧ hasNonzeroDigit (m.whole ++ m.fraction) = true := by
  have hzero : hasNonzeroDigit (m.whole ++ m.fraction) = true ↔
      digitsValue (m.whole ++ m.fraction) ≠ 0 := by
    rw [Ne, digitsValue_eq_zero_iff hdigits, hasNonzeroDigit]
    simp only [any_eq_true, bne_iff_ne, ne_eq, not_forall, exists_prop]
  have hten : (0 : ℚ) < 10 ^ (m.exponent.getD 0 - m.fraction.length) * 10 ^ 4 := by positivity
  have hvalue : (u : ℚ) = (if m.negative then -1 else 1) *
      (digitsValue (m.whole ++ m.fraction) *
        (10 ^ (m.exponent.getD 0 - m.fraction.length) * 10 ^ 4)) := by
    rw [hu, DecimalMatch.value_eq]
    ring
  have hcast : u < 0 ↔ (u : ℚ) < 0 := by exact_mod_cast Iff.rfl
  have hnonneg : (0 : ℚ) ≤ digitsValue (m.whole ++ m.fraction) := by positivity
  rw [hcast, hvalue, hzero]
  cases m.negative
  · simp only [Bool.false_eq_true, if_false, one_mul, false_and, iff_false, not_lt]
    positivity
  · simp only [if_true, neg_one_mul, neg_lt_zero, true_and]
    rw [mul_pos_iff_of_pos_right hten]
    exact_mod_cast Nat.pos_iff_ne_zero

/-- **What the money reader makes negative**: a minus left in front of digits. -/
theorem units_neg_iff_minusLeft {s : List Char} {u : ℤ}
    (hs : ∀ c ∈ (stripSigns s).2, isJsWhitespace c = false)
    (htext : resolveSeparators (stripSigns s).2 label mode = .ok text)
    (hu : toUnits text = some u) : u < 0 ↔ MinusLeft s := by
  have hrest := withoutSeparators_resolve htext
  have htrim : trim text = text := by
    refine trim_eq_self_of_forall fun c hc => ?_
    by_cases hsep : isSeparator c = true
    · simp only [isSeparator, Bool.or_eq_true, decide_eq_true_eq] at hsep
      rcases hsep with rfl | rfl <;> decide
    · have hmem : c ∈ withoutSeparators text := mem_filter.mpr ⟨hc, by simpa using hsep⟩
      rw [hrest] at hmem
      exact hs c (mem_filter.mp hmem).1
  obtain ⟨m, hm, -, hvalue⟩ := toUnits_eq_some_iff.mp hu
  rw [htrim] at hm
  obtain ⟨hwhole, hfraction, hne⟩ := matchDecimal_digits hm
  have hdigits : ∀ c ∈ m.whole ++ m.fraction, c.isDigit = true := fun c hc =>
    (mem_append.mp hc).elim (hwhole c) (hfraction c)
  obtain ⟨sign, point, exponent, rfl, hsign, hpoint, hexponent⟩ := matchDecimal_text hm
  -- Without its separators the text is its sign, its digits and what is left of its exponent.
  obtain ⟨tail, hshape, htail⟩ : ∃ tail,
      withoutSeparators (sign ++ m.whole ++ point ++ m.fraction ++ exponent) =
        sign ++ (m.whole ++ m.fraction) ++ tail ∧
      (tail = [] ∨ ∃ e more, tail = e :: more ∧ (e = 'e' ∨ e = 'E')) := by
    have hkeep : ∀ ds : List Char, (∀ c ∈ ds, c.isDigit = true) → withoutSeparators ds = ds := by
      intro ds hds
      refine filter_eq_self.mpr fun c hc => ?_
      obtain ⟨hcomma, hpoint, -⟩ := isDigit_ne (hds c hc)
      simp [isSeparator, hcomma, hpoint]
    have hsign' : withoutSeparators sign = sign := by
      rcases hsign with ⟨-, rfl⟩ | ⟨-, rfl | rfl⟩ <;> rfl
    have hpoint' : withoutSeparators point = [] := by
      rcases hpoint with rfl | rfl <;> rfl
    have happend : ∀ a b : List Char,
        withoutSeparators (a ++ b) = withoutSeparators a ++ withoutSeparators b :=
      filter_append
    refine ⟨withoutSeparators exponent, ?_, ?_⟩
    · rw [happend, happend, happend, happend, hsign', hpoint', hkeep _ hwhole, hkeep _ hfraction]
      simp only [append_assoc, nil_append]
    · rcases hexponent with rfl | ⟨e, more, rfl, he⟩
      · exact .inl rfl
      · refine .inr ⟨e, withoutSeparators more, ?_, he⟩
        rcases he with rfl | rfl <;> rfl
  have htake : (sign ++ (m.whole ++ m.fraction) ++ tail).takeWhile
      (fun c => c ≠ 'e' && c ≠ 'E') = sign ++ (m.whole ++ m.fraction) := by
    rw [takeWhile_append_of_pos]
    · rcases htail with rfl | ⟨e, more, rfl, rfl | rfl⟩ <;> simp
    · intro c hc
      have : c ≠ 'e' ∧ c ≠ 'E' := by
        rcases mem_append.mp hc with hc | hc
        · rcases hsign with ⟨-, rfl⟩ | ⟨-, rfl | rfl⟩
          · rw [mem_singleton.mp hc]
            decide
          · cases hc
          · rw [mem_singleton.mp hc]
            decide
        · have := hdigits c hc
          constructor <;> rintro rfl <;> cases this
      simpa using this
  have hsome : ((sign ++ (m.whole ++ m.fraction)).any fun c => c.isDigit && c ≠ '0') =
      hasNonzeroDigit (m.whole ++ m.fraction) := by
    have hnone : (sign.any fun c => c.isDigit && c ≠ '0') = false := by
      rcases hsign with ⟨-, rfl⟩ | ⟨-, rfl | rfl⟩ <;> rfl
    have hall : ∀ ds : List Char, (∀ c ∈ ds, c.isDigit = true) →
        (ds.any fun c => c.isDigit && c ≠ '0') = hasNonzeroDigit ds := by
      intro ds hds
      rw [hasNonzeroDigit, Bool.eq_iff_iff]
      simp only [any_eq_true]
      constructor
      · rintro ⟨c, hc, hp⟩
        exact ⟨c, hc, by simpa [hds c hc] using hp⟩
      · rintro ⟨c, hc, hp⟩
        exact ⟨c, hc, by simpa [hds c hc] using hp⟩
    rw [any_append, hnone, Bool.false_or, hall _ hdigits]
  have hhead : (sign ++ (m.whole ++ m.fraction) ++ tail).head? = some '-' ↔
      m.negative = true := by
    rcases hsign with ⟨hneg, rfl⟩ | ⟨hneg, rfl | rfl⟩
    · simp [hneg]
    · obtain ⟨c, ds, hcons⟩ := exists_cons_of_ne_nil (l := m.whole ++ m.fraction)
        (by simpa using hne)
      have hc := hdigits c (by rw [hcons]; exact mem_cons_self)
      have hminus := (isDigit_ne hc).2.2.1
      simp [hneg, hcons, hminus]
    · simp [hneg]
  rw [units_neg_iff hdigits hvalue, MinusLeft, ← hrest, hshape, htake, hsome, hhead]

/-! ### The contract -/

/-- What is expected of the amount of a statement line: every conventional rendering is
recovered, the result is canonical money, and no marked amount comes out positive. -/
structure AmountContract (raw : List Char) (label : String) : Prop where
  recovers : ∀ a, InLedgerRange a → Renders a raw →
    normalizeAmount raw label .human = .ok (fromUnits a).toList
  canonical : ∀ text, normalizeAmount raw label .human = .ok text →
    ∃ u, toUnits text = some u ∧ text = (fromUnits u).toList
  signed : Marked (amountText raw) → ∀ text u, normalizeAmount raw label .human = .ok text →
    toUnits text = some u → u ≤ 0

/-- **Signs are right just when no minus is left.** Recovery and canonical results need no
condition; a marked amount that is accepted is never positive exactly when, the marks taken off,
no minus stands in front of digits that are not all zero. -/
theorem normalizeAmount_signs_iff (raw : List Char) (label : String) :
    AmountContract raw label ↔ (Marked (amountText raw) →
      (normalizeAmount raw label .human).isOk = true → ¬MinusLeft (amountText raw)) := by
  have hplain : ∀ c ∈ (stripSigns (amountText raw)).2, isJsWhitespace c = false := by
    have hsub : ∀ s : List Char, ∀ c ∈ (stripSigns s).2, c ∈ s := by
      intro s c hc
      have hlead : ∀ negative body, ∀ c ∈ (dropLeadingSign negative body).2, c ∈ body := by
        intro negative body c hc
        rw [dropLeadingSign.eq_def] at hc
        split at hc
        · exact mem_cons_of_mem _ hc
        · exact mem_cons_of_mem _ hc
        · exact hc
      have hinner : ∀ c ∈ (insideParens s).getD s, c ∈ s := by
        intro c hc
        rw [insideParens.eq_def] at hc
        split at hc
        · split_ifs at hc
          · exact mem_cons_of_mem _ (dropLast_subset _ hc)
          · exact hc
        · exact hc
      have hbody := hlead _ _ c hc
      split_ifs at hbody
      · exact hinner c (dropLast_subset _ hbody)
      · exact hinner c hbody
    intro c hc
    have := (mem_filter.mp (hsub _ c hc)).2
    simp only [isAmountNoise, Bool.not_or, Bool.and_eq_true, Bool.not_eq_true'] at this
    exact this.2
  constructor
  · rintro h hmarked hok hleft
    obtain ⟨text, htext⟩ := exists_of_isOk hok
    obtain ⟨-, resolved, u, hresolved, hu, -, hresult⟩ := normalizeAmount_eq_ok.mp htext
    rw [if_pos ((stripSigns_fst _).mpr hmarked)] at hresult
    have hneg := (units_neg_iff_minusLeft hplain hresolved hu).mpr hleft
    have := h.signed hmarked text (-u) htext (hresult ▸ toUnits_fromUnits (-u))
    omega
  · intro h
    refine ⟨fun a hrange hrenders => normalizeAmount_of_renders hrenders hrange label, ?_, ?_⟩
    · intro text htext
      obtain ⟨-, -, u, -, -, -, hresult⟩ := normalizeAmount_eq_ok.mp htext
      exact ⟨_, hresult ▸ toUnits_fromUnits _, hresult⟩
    · intro hmarked text v htext hv
      have hok : (normalizeAmount raw label .human).isOk = true := by rw [htext]; rfl
      obtain ⟨-, resolved, u, hresolved, hu, -, hresult⟩ := normalizeAmount_eq_ok.mp htext
      rw [if_pos ((stripSigns_fst _).mpr hmarked)] at hresult
      rw [hresult, toUnits_fromUnits, Option.some_inj] at hv
      have hnonneg : 0 ≤ u := not_lt.mp fun hneg =>
        h hmarked hok ((units_neg_iff_minusLeft hplain hresolved hu).mp hneg)
      omega

theorem double_minus_is_positive :
    normalizeAmount "--5.00".toList "CAMT.053 amount" .human = .ok "5.0000".toList ∧
      ¬AmountContract "--5.00".toList "CAMT.053 amount" := by
  have hread : normalizeAmount "--5.00".toList "CAMT.053 amount" .human =
      .ok "5.0000".toList := by decide +kernel
  refine ⟨hread, fun h => ?_⟩
  have := h.signed (by decide) _ 50000 hread (by decide)
  exact absurd this (by decide)

end OpenBooks
