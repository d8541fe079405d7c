import OpenBooks.Organization.OneRate

/-!
# Translating postings into a book

An accounting book may carry a subsidiary in another currency than the subsidiary's own. A posting
into such a book is restated by `translateLinesIntoBook`: a line in the book's currency counts at
its transaction amount, any other at the book's rate for its currency, and what the translated lines
of a subsidiary then miss zero by is either rounding – absorbed onto one line by
`absorbFxRoundingResidual` – or a currency difference, on a line of its own.

So a subsidiary the book restates always balances, and every line but the one that absorbs is at its
plain translation (`translateLinesIntoBook_balances`).

A group holds its lines with their places in the output, where absorption writes them back. What a
caller's lines carry besides the fields below is `rest`.
-/

namespace OpenBooks

open Checked List FirstSeen

/-! ### Lines and bases -/

/-- A refusal: of the translation itself, of a rate, or of the absorption. -/
inductive BookTranslationError
  | bookTranslation (message : String)
  | money (message : String)
  | subsidiary (e : SubsidiaryError)

/-- One subsidiary's measurement basis in one accounting book. -/
structure BookSubsidiaryBasis where
  subsidiaryId : String
  functionalCurrency : String
  bookCurrency : String
  rateType : String

structure TranslatableLine (ρ : Type) where
  accountId : String
  subsidiaryId : String
  amount : ℤ
  currency : String
  txnAmount : ℤ
  fxRate : ℤ
  taxCodeId : Option String := none
  isOpenItem : Bool := false
  memo : Option String := none
  rest : ρ

structure DifferenceRequest where
  subsidiaryId : String
  bookCurrency : String
  amount : ℤ

/-- What a translation is given besides the lines. -/
structure BookRequest (ρ : Type) where
  bases : String → Option BookSubsidiaryBasis
  rates : String → Option ℤ
  makeDifferenceLine : DifferenceRequest → Option (TranslatableLine ρ)
  bookLabel : String
  entryLabel : String

structure TranslationOutcome (ρ : Type) where
  lines : List (TranslatableLine ρ)
  absorbed : List (String × ℤ) := []
  differences : List (String × ℤ) := []

variable {ρ : Type}

/-- The line as absorption reads it. -/
def TranslatableLine.subLine (line : TranslatableLine ρ) : SubLine where
  accountId := line.accountId
  amount := line.amount
  txnAmount := some line.txnAmount
  currency := some line.currency
  fxRate := some line.fxRate
  subsidiaryId := line.subsidiaryId
  taxCodeId := line.taxCodeId
  isOpenItem := line.isOpenItem

def TranslatableLine.isControl (line : TranslatableLine ρ) : Bool :=
  (truthy line.taxCodeId).isSome || line.isOpenItem

/-- A basis is an identity when the book shares the subsidiary's functional currency. -/
def isIdentityBasis (basis : BookSubsidiaryBasis) : Bool :=
  basis.functionalCurrency = basis.bookCurrency

/-- Rate lookup key: rates are resolved per subsidiary because bases differ. -/
def rateKey (subsidiaryId currency : String) : String := subsidiaryId ++ ":" ++ currency

/-! ### The translation -/

/-- One line, and whether it joins its subsidiary's group. -/
def translateLine (request : BookRequest ρ) (line : TranslatableLine ρ) :
    Except BookTranslationError (TranslatableLine ρ × Bool) := do
  let basis ← orRefuse (request.bases line.subsidiaryId) (.bookTranslation
    (request.entryLabel ++ ": book " ++ request.bookLabel ++
      " has no measurement basis for subsidiary " ++ line.subsidiaryId))
  if isIdentityBasis basis then return (line, false)
  -- a zero monetary value carries no foreign exposure
  else if line.txnAmount = 0 ∧ line.amount = 0 then return (line, false)
  else if line.currency = basis.bookCurrency then
    return ({ line with amount := line.txnAmount, fxRate := RATE_SCALE }, true)
  else do
    refuseIf (line.txnAmount = 0 ∧ line.amount ≠ 0) (.bookTranslation
      (request.entryLabel ++ ": a " ++ line.currency ++
        " line carries a functional amount with no transaction amount — it remeasures the " ++
        basis.functionalCurrency ++ " ledger and has no value in book " ++ request.bookLabel ++
        " (" ++ basis.bookCurrency ++
        "); the book measures its own currency differences through its FX revaluation"))
    let rate ← orRefuse (request.rates (rateKey line.subsidiaryId line.currency)) (.bookTranslation
      (request.entryLabel ++ ": no " ++ basis.rateType ++ " rate for " ++ line.currency ++ "→" ++
        basis.bookCurrency ++ " is resolved for book " ++ request.bookLabel))
    let amount ← (translate line.txnAmount rate).mapError fun e => .money e.message
    return ({ line with amount := amount, fxRate := rate }, true)

/-- The translated lines of the subsidiaries that the book restates, with their places. -/
def translatedGroups (translated : List (TranslatableLine ρ × Bool)) :
    List (String × List (TranslatableLine ρ × ℕ)) :=
  groupBy (fun p : TranslatableLine ρ × ℕ => p.1.subsidiaryId)
    ((translated.zipIdx.filter fun p => p.1.2).map fun p => (p.1.1, p.2))

/-- What a group misses zero by is the rounding of its lines. -/
def isRounding (group : List (TranslatableLine ρ)) (total : ℤ) : Bool :=
  (group.map TranslatableLine.currency).dedup.length = 1 ∧
    (group.map TranslatableLine.txnAmount).sum = 0 ∧ 2 * |total| ≤ group.length ∧
    group.any fun line => !line.isControl

/-- Put the amounts of a group's lines at their places. -/
def writeBack (lines : List (TranslatableLine ρ)) (amounts : List (ℕ × ℤ)) :
    List (TranslatableLine ρ) :=
  amounts.foldl (fun lines p => lines.modify p.1 fun line => { line with amount := p.2 }) lines

/-- Settle what one subsidiary's group misses zero by. -/
def settleGroup (request : BookRequest ρ) (out : TranslationOutcome ρ)
    (g : String × List (TranslatableLine ρ × ℕ)) :
    Except BookTranslationError (TranslationOutcome ρ) :=
  let total := (g.2.map fun p => p.1.amount).sum
  if total = 0 then .ok out
  else if isRounding (g.2.map Prod.fst) total then do
    let settled ← (absorbFxRoundingResidual (g.2.map fun p => p.1.subLine)).mapError .subsidiary
    return { out with
      lines := writeBack out.lines ((g.2.map Prod.snd).zip (settled.map SubLine.amount))
      absorbed := out.absorbed ++ [(g.1, total)] }
  else do
    -- a group is opened by a line whose basis was found
    let bookCurrency := ((request.bases g.1).map BookSubsidiaryBasis.bookCurrency).getD ""
    let difference ← orRefuse (request.makeDifferenceLine
        { subsidiaryId := g.1, bookCurrency := bookCurrency, amount := -total }) (.bookTranslation
      (request.entryLabel ++ ": translating into book " ++ request.bookLabel ++ " leaves a " ++
        bookCurrency ++ " currency difference of " ++ fromUnits total ++ " for subsidiary " ++ g.1 ++
        " and the book has no currency difference account — set one on the book's multi-book settings and post again"))
    return { out with
      lines := out.lines ++ [difference]
      differences := out.differences ++ [(g.1, -total)] }

def translateLinesIntoBook (request : BookRequest ρ) (lines : List (TranslatableLine ρ)) :
    Except BookTranslationError (TranslationOutcome ρ) := do
  let translated ← lines.mapM (translateLine request)
  (translatedGroups translated).foldlM (settleGroup request) { lines := translated.map Prod.fst }

/-! ### One line -/

/-- The plain translation of a line: its transaction amount if it is in the book's currency, else
the transaction amount at the book's rate. A subsidiary that the book does not restate keeps its
amounts. -/
def plainAmount (request : BookRequest ρ) (line : TranslatableLine ρ) : ℤ :=
  match request.bases line.subsidiaryId with
  | none => line.amount
  | some basis =>
    if isIdentityBasis basis then line.amount
    else if line.currency = basis.bookCurrency then line.txnAmount
    else mulRate line.txnAmount
      ((request.rates (rateKey line.subsidiaryId line.currency)).getD 0)

/-- Whether the book restates a subsidiary. -/
def Restated (request : BookRequest ρ) (s : String) : Prop :=
  ∃ basis, request.bases s = some basis ∧ isIdentityBasis basis = false

/-- The line `line'` is `line` but for its amount and rate. -/
structure Restates (line line' : TranslatableLine ρ) : Prop where
  accountId : line'.accountId = line.accountId
  subsidiaryId : line'.subsidiaryId = line.subsidiaryId
  currency : line'.currency = line.currency
  txnAmount : line'.txnAmount = line.txnAmount
  taxCodeId : line'.taxCodeId = line.taxCodeId
  isOpenItem : line'.isOpenItem = line.isOpenItem
  memo : line'.memo = line.memo
  rest : line'.rest = line.rest

variable {line line' : TranslatableLine ρ}

theorem Restates.isControl (h : Restates line line') : line'.isControl = line.isControl := by
  rw [TranslatableLine.isControl, h.taxCodeId, h.isOpenItem, TranslatableLine.isControl]

theorem restates_with (line : TranslatableLine ρ) (amount fxRate : ℤ) :
    Restates line { line with amount := amount, fxRate := fxRate } :=
  ⟨rfl, rfl, rfl, rfl, rfl, rfl, rfl, rfl⟩

theorem mulRate_zero (rate : ℤ) : mulRate 0 rate = 0 := by
  rw [mulRate_eq_round, zero_mul, HalfAway.round_zero RATE_SCALE_pos]

/-- **What is made of one line.** -/
theorem translateLine_spec {request : BookRequest ρ} {joined : Bool}
    (h : translateLine request line = .ok (line', joined)) :
    Restates line line' ∧ line'.amount = plainAmount request line ∧
      (¬Restated request line.subsidiaryId → line' = line) ∧
      (joined = true → Restated request line.subsidiaryId) ∧
      (joined = false → Restated request line.subsidiaryId → line'.amount = 0) := by
  obtain ⟨basis, hbasis, hrest⟩ := bind_eq_ok.mp h
  have hbasis : request.bases line.subsidiaryId = some basis := orRefuse_eq_ok.mp hbasis
  have hself : Restates line line := ⟨rfl, rfl, rfl, rfl, rfl, rfl, rfl, rfl⟩
  have hrestated : Restated request line.subsidiaryId ↔ isIdentityBasis basis = false := by
    simp [Restated, hbasis]
  simp only [plainAmount, hbasis, hrestated]
  split_ifs at hrest with hidentity hzero hbook
  · obtain ⟨rfl, rfl⟩ := Prod.mk.inj (pure_eq_ok.mp hrest)
    simp [hself, hidentity]
  · obtain ⟨rfl, rfl⟩ := Prod.mk.inj (pure_eq_ok.mp hrest)
    obtain ⟨htxn, hamount⟩ := hzero
    simp [hself, hidentity, htxn, hamount, mulRate_zero]
  · obtain ⟨rfl, rfl⟩ := Prod.mk.inj (pure_eq_ok.mp hrest)
    refine ⟨restates_with line _ _, ?_⟩
    simp [hidentity, hbook]
  · simp only [translate, bind_eq_ok, orRefuse_eq_ok, mapError_eq_ok, pure_eq_ok] at hrest
    obtain ⟨-, -, rate, hrate, amount, ⟨-, -, rfl⟩, hline⟩ := hrest
    obtain ⟨rfl, rfl⟩ := Prod.mk.inj hline
    refine ⟨restates_with line _ _, ?_⟩
    simp [hidentity, hbook, hrate]

/-! ### Writing back -/

variable {group : List (TranslatableLine ρ × ℕ)}

theorem writeBack_self {lines : List (TranslatableLine ρ)}
    (h : ∀ p ∈ group, lines[p.2]? = some p.1) :
    writeBack lines ((group.map Prod.snd).zip (group.map fun p => p.1.amount)) = lines := by
  induction group with
  | nil => rfl
  | cons p group ih =>
    have hp : lines.modify p.2 (fun line => { line with amount := p.1.amount }) = lines := by
      refine ext_getElem? fun j => ?_
      rw [getElem?_modify]
      by_cases hj : p.2 = j
      · subst hj
        rw [h p mem_cons_self]
        simp
      · simp [hj]
    rw [map_cons, map_cons, zip_cons_cons, writeBack, foldl_cons, hp]
    exact ih fun q hq => h q (mem_cons_of_mem p hq)

def TranslatableLine.reduce (total : ℤ) (line : TranslatableLine ρ) : TranslatableLine ρ :=
  { line with amount := line.amount - total }

/-- **One reduced amount of a group is one reduced line.** -/
theorem writeBack_modify {lines : List (TranslatableLine ρ)}
    (hplaces : (group.map Prod.snd).Nodup) (h : ∀ p ∈ group, lines[p.2]? = some p.1) {i : ℕ}
    {p : TranslatableLine ρ × ℕ} (hp : group[i]? = some p) (total : ℤ) :
    writeBack lines ((group.map Prod.snd).zip
        ((group.map fun p => p.1.amount).modify i fun amount => amount - total)) =
      lines.modify p.2 (TranslatableLine.reduce total) := by
  induction group generalizing lines i with
  | nil => simp at hp
  | cons q group ih =>
    obtain ⟨hfirst, hnodup⟩ := nodup_cons.mp hplaces
    have hline := h q mem_cons_self
    cases i with
    | zero =>
      obtain rfl : q = p := by simpa using hp
      have hq : lines.modify q.2 (fun line => { line with amount := q.1.amount - total }) =
          lines.modify q.2 (TranslatableLine.reduce total) := by
        refine ext_getElem? fun j => ?_
        rw [getElem?_modify, getElem?_modify]
        by_cases hj : q.2 = j
        · subst hj
          rw [hline]
          simp [TranslatableLine.reduce]
        · simp [hj]
      rw [map_cons, map_cons, modify_zero_cons, zip_cons_cons, writeBack, foldl_cons, hq]
      refine writeBack_self fun q' hq' => ?_
      have hne : q.2 ≠ q'.2 := fun hc => hfirst (hc ▸ mem_map_of_mem hq')
      rw [getElem?_modify_ne _ _ hne]
      exact h q' (mem_cons_of_mem q hq')
    | succ i =>
      have hself : writeBack lines (([q].map Prod.snd).zip ([q].map fun p => p.1.amount)) = lines :=
        writeBack_self (by simpa using hline)
      rw [map_cons, map_cons, modify_succ_cons, zip_cons_cons, writeBack, foldl_cons]
      rw [show lines.modify q.2 (fun line => { line with amount := q.1.amount }) = lines from hself]
      exact ih hnodup (fun q' hq' => h q' (mem_cons_of_mem q hq')) (by simpa using hp)

/-! ### One group -/

def bookTotal (s : String) (lines : List (TranslatableLine ρ)) : ℤ :=
  ((lines.filter fun line => line.subsidiaryId = s).map TranslatableLine.amount).sum

/-- A group of translated lines: lines of its subsidiary at distinct places, which together have
the subsidiary's total. -/
structure Grouped (plain : List (TranslatableLine ρ)) (g : String × List (TranslatableLine ρ × ℕ)) :
    Prop where
  places : (g.2.map Prod.snd).Nodup
  line : ∀ p ∈ g.2, plain[p.2]? = some p.1 ∧ p.1.subsidiaryId = g.1
  total : (g.2.map fun p => p.1.amount).sum = bookTotal g.1 plain

/-- What has joined a group has the total of its subsidiary, if what has not is zero. -/
theorem joined_sum {s : String} (ts : List ((TranslatableLine ρ × Bool) × ℕ))
    (hzero : ∀ t ∈ ts, t.1.2 = false → t.1.1.subsidiaryId = s → t.1.1.amount = 0) :
    (((((ts.filter fun p => p.1.2).map fun p => (p.1.1, p.2)).filter
        fun p => p.1.subsidiaryId = s).map fun p => p.1.amount).sum) =
      (((ts.map fun p => p.1.1).filter fun line => line.subsidiaryId = s).map
        TranslatableLine.amount).sum := by
  induction ts with
  | nil => rfl
  | cons t ts ih =>
    have hrest := ih fun t' ht' => hzero t' (mem_cons_of_mem t ht')
    obtain ⟨⟨line, joined⟩, place⟩ := t
    cases joined with
    | true => by_cases hs : line.subsidiaryId = s <;> simpa [hs] using hrest
    | false =>
      by_cases hs : line.subsidiaryId = s
      · have hline : line.amount = 0 := hzero ((line, false), place) mem_cons_self rfl hs
        simpa [hs, hline] using hrest
      · simpa [hs] using hrest

variable {translated : List (TranslatableLine ρ × Bool)}
  {g : String × List (TranslatableLine ρ × ℕ)}

/-- The groups of translated lines, when those of a subsidiary with a group that have not joined
it are zero. -/
theorem grouped_of_mem {P : String → Prop}
    (hjoined : ∀ t ∈ translated, t.2 = true → P t.1.subsidiaryId)
    (hzero : ∀ t ∈ translated, t.2 = false → P t.1.subsidiaryId → t.1.amount = 0)
    (hg : g ∈ translatedGroups translated) : P g.1 ∧ Grouped (translated.map Prod.fst) g := by
  obtain ⟨⟨q, hq, hqs⟩, hgroup⟩ := mem_groupBy.mp (show (g.1, g.2) ∈ _ from hg)
  have hmem : ∀ p ∈ (translated.zipIdx.filter fun p => p.1.2).map (fun p => (p.1.1, p.2)),
      translated[p.2]? = some (p.1, true) := by
    intro p hp
    obtain ⟨t, ht, rfl⟩ := mem_map.mp hp
    obtain ⟨ht, hjoin⟩ := mem_filter.mp ht
    rw [mem_zipIdx_iff_getElem?.mp ht, ← hjoin]
  have hP : P g.1 := hqs ▸ hjoined _ (mem_of_getElem? (hmem q hq)) rfl
  refine ⟨hP, ⟨?_, ?_, ?_⟩⟩
  · have hplaces : ((translated.zipIdx.filter fun p => p.1.2).map
        fun p => (p.1.1, p.2)).map Prod.snd =
          (translated.zipIdx.filter fun p => p.1.2).map Prod.snd := by
      rw [map_map]
      rfl
    have hnodup : (translated.zipIdx.map Prod.snd).Nodup := by
      rw [zipIdx_map_snd]
      exact nodup_range'
    rw [hgroup]
    refine (filter_sublist.map _).nodup ?_
    rw [hplaces]
    exact (filter_sublist.map _).nodup hnodup
  · intro p hp
    rw [hgroup, mem_filter] at hp
    refine ⟨?_, by simpa using hp.2⟩
    rw [getElem?_map, hmem p hp.1, Option.map_some]
  · rw [hgroup, bookTotal, ← ListSum.map_zipIdx_fst Prod.fst translated]
    refine joined_sum translated.zipIdx fun t ht hfalse hs => ?_
    exact hzero t.1 (mem_of_getElem? (mem_zipIdx_iff_getElem?.mp ht)) hfalse (hs ▸ hP)

variable {out' : TranslationOutcome ρ}

/-- **What settling a group does**: nothing, when it balances; else one of its lines absorbs
what is missing, or a line of its own carries it. -/
theorem settleGroup_cases {request : BookRequest ρ} {out : TranslationOutcome ρ}
    {plain : List (TranslatableLine ρ)} (h : settleGroup request out g = .ok out')
    (hg : Grouped plain g) (hkept : ∀ p ∈ g.2, out.lines[p.2]? = some p.1) :
    bookTotal g.1 plain = 0 ∧ out' = out ∨
      (∃ p ∈ g.2, p.1.isControl = false ∧ out' = { out with
        lines := out.lines.modify p.2 (TranslatableLine.reduce (bookTotal g.1 plain))
        absorbed := out.absorbed ++ [(g.1, bookTotal g.1 plain)] }) ∨
      ∃ bookCurrency difference, request.makeDifferenceLine
          { subsidiaryId := g.1, bookCurrency := bookCurrency, amount := -bookTotal g.1 plain } =
            some difference ∧
        out' = { out with
          lines := out.lines ++ [difference]
          differences := out.differences ++ [(g.1, -bookTotal g.1 plain)] } := by
  rw [settleGroup, hg.total] at h
  split_ifs at h with hzero hrounding
  · exact Or.inl ⟨hzero, (Except.ok.inj h).symm⟩
  · obtain ⟨settled, habsorb, hout⟩ := bind_eq_ok.mp h
    obtain ⟨-, htxn, hbound, hfree⟩ := of_decide_eq_true hrounding
    have hamount : ∀ group : List (TranslatableLine ρ × ℕ),
        (group.map fun p => p.1.subLine).map SubLine.amount = group.map fun p => p.1.amount :=
      fun group => map_map
    have htotal : ((g.2.map fun p => p.1.subLine).map SubLine.amount).sum =
        bookTotal g.1 plain := by
      rw [hamount, hg.total]
    have hsub : ∀ l ∈ g.2.map fun p => p.1.subLine, l.subsidiaryId = g.1 :=
      forall_mem_map.mpr fun p hp => (hg.line p hp).2
    obtain ⟨i, l, ⟨hl, hcontrol, -⟩, hrun⟩ := absorb_single hsub
      (by simpa [SubLine.transactional, TranslatableLine.subLine, Function.comp_def] using htxn)
      (by rw [htotal]; simpa using hbound)
      (by
        obtain ⟨line, hline, hcontrol⟩ := any_eq_true.mp hfree
        obtain ⟨p, hp, rfl⟩ := mem_map.mp hline
        exact ⟨p.1.subLine, mem_map_of_mem hp, (Bool.not_eq_true' _).mp hcontrol⟩)
      (by rwa [htotal])
    rw [hrun, htotal, mapError_ok] at habsorb
    obtain rfl := Except.ok.inj habsorb
    rw [getElem?_map] at hl
    obtain ⟨p, hp, rfl⟩ := Option.map_eq_some_iff.mp hl
    refine Or.inr (Or.inl ⟨p, mem_of_getElem? hp, hcontrol, ?_⟩)
    have hsettled : ((g.2.map fun p => p.1.subLine).modify i
        (SubLine.reduce (bookTotal g.1 plain))).map SubLine.amount =
          (g.2.map fun p => p.1.amount).modify i fun amount => amount - bookTotal g.1 plain := by
      rw [← hamount]
      exact ListSum.map_modify (f := SubLine.reduce _) (g := SubLine.amount) (fun _ => rfl) i _
    rw [hsettled, writeBack_modify hg.places hkept hp] at hout
    exact (pure_eq_ok.mp hout).symm
  · obtain ⟨difference, hdifference, hout⟩ := bind_eq_ok.mp h
    exact Or.inr (Or.inr ⟨_, difference, orRefuse_eq_ok.mp hdifference, (pure_eq_ok.mp hout).symm⟩)

/-! ### The run over the groups -/

/-- No line of the subsidiary absorbed anything, and nothing is reported. -/
structure KeptAll (plain : List (TranslatableLine ρ)) (out : TranslationOutcome ρ) (s : String) :
    Prop where
  unreported : ∀ amount, (s, amount) ∉ out.absorbed
  line : ∀ (p : ℕ) (l : TranslatableLine ρ), plain[p]? = some l → l.subsidiaryId = s →
    out.lines[p]? = some l

/-- The line that absorbed what its subsidiary missed zero by, and the reported amount. -/
structure AbsorbedAt (plain : List (TranslatableLine ρ)) (out : TranslationOutcome ρ) (s : String)
    (p : ℕ) (amount : ℤ) : Prop where
  reported : (s, amount) ∈ out.absorbed
  line : ∃ l, plain[p]? = some l ∧ l.subsidiaryId = s ∧ l.isControl = false ∧
    out.lines[p]? = some (l.reduce amount)
  others : ∀ (q : ℕ) (l : TranslatableLine ρ), q ≠ p → plain[q]? = some l →
    l.subsidiaryId = s → out.lines[q]? = some l

/-- What settling leaves of the plain translations, in the course of it: every line of a
subsidiary is as it was, or one has absorbed what is reported; lines that were added, and
reports, are of subsidiaries settled; and these balance. -/
structure Settling (plain : List (TranslatableLine ρ)) (done : List String)
    (out : TranslationOutcome ρ) : Prop where
  length_le : plain.length ≤ out.lines.length
  deviation : ∀ s, KeptAll plain out s ∨ ∃ p amount, AbsorbedAt plain out s p amount
  added : ∀ l ∈ out.lines.drop plain.length, l.subsidiaryId ∈ done
  reported : ∀ r ∈ out.absorbed, r.1 ∈ done
  once : (out.absorbed.map Prod.fst).Nodup
  total : ∀ s, bookTotal s out.lines = if s ∈ done then 0 else bookTotal s plain

theorem Settling.start (plain : List (TranslatableLine ρ)) :
    Settling plain [] { lines := plain } where
  length_le := le_rfl
  deviation _ := Or.inl ⟨fun _ => not_mem_nil, fun _ _ h _ => h⟩
  added := by simp
  reported := by simp
  once := nodup_nil
  total _ := rfl

section Step

variable {plain : List (TranslatableLine ρ)} {done : List String} {out : TranslationOutcome ρ}
  {s₀ : String} {l : TranslatableLine ρ} (h : Settling plain done out) (hnew : s₀ ∉ done)

include h hnew

theorem Settling.untouched {p : ℕ} (hl : plain[p]? = some l) (hs : l.subsidiaryId = s₀) :
    out.lines[p]? = some l := by
  rcases h.deviation s₀ with hkept | ⟨q, amount, habsorbed⟩
  · exact hkept.line p l hl hs
  · exact absurd (h.reported _ habsorbed.reported) hnew

theorem Settling.total_of_not_mem : bookTotal s₀ out.lines = bookTotal s₀ plain := by
  rw [h.total, if_neg hnew]

/-- Settling one more subsidiary, to zero, changes no other total. -/
theorem total_step
    (hlines : ∀ s, bookTotal s out'.lines =
      bookTotal s out.lines - if s = s₀ then bookTotal s₀ plain else 0) (s : String) :
    bookTotal s out'.lines = if s ∈ done ++ [s₀] then 0 else bookTotal s plain := by
  rw [hlines]
  by_cases hs : s = s₀
  · subst hs
    rw [if_pos rfl, h.total_of_not_mem hnew, sub_self, if_pos (by simp)]
  · simp [hs, h.total]

/-- A group that balances is passed over. -/
theorem Settling.skip (hzero : bookTotal s₀ plain = 0) : Settling plain (done ++ [s₀]) out where
  length_le := h.length_le
  deviation := h.deviation
  added l hl := mem_append_left _ (h.added l hl)
  reported r hr := mem_append_left _ (h.reported r hr)
  once := h.once
  total := total_step h hnew (by simp [hzero])

theorem Settling.absorb {p : ℕ} (hl : plain[p]? = some l) (hs : l.subsidiaryId = s₀)
    (hcontrol : l.isControl = false) :
    Settling plain (done ++ [s₀]) { out with
      lines := out.lines.modify p (TranslatableLine.reduce (bookTotal s₀ plain))
      absorbed := out.absorbed ++ [(s₀, bookTotal s₀ plain)] } := by
  have hout := h.untouched hnew hl hs
  have hfresh : ∀ r ∈ out.absorbed, r.1 ≠ s₀ := fun r hr hc => hnew (hc ▸ h.reported r hr)
  -- the lines of other subsidiaries are elsewhere
  have helsewhere : ∀ q l', plain[q]? = some l' → l'.subsidiaryId ≠ s₀ → p ≠ q := by
    rintro q l' hl' hne rfl
    exact hne (by rw [← Option.some.inj (hl.symm.trans hl'), hs])
  refine ⟨by simpa using h.length_le, ?_, ?_, ?_, ?_, total_step h hnew fun s => ?_⟩
  · intro s
    by_cases hsame : s = s₀
    · subst hsame
      refine Or.inr ⟨p, bookTotal s plain, by simp, ⟨l, hl, hs, hcontrol, ?_⟩, ?_⟩
      · rw [getElem?_modify_eq, hout]
        rfl
      · intro q l' hq hl' hs'
        rw [getElem?_modify_ne _ _ hq.symm]
        exact h.untouched hnew hl' hs'
    · rcases h.deviation s with ⟨hnone, hkept⟩ | ⟨q, amount, ⟨hreported, hline, hothers⟩⟩
      · refine Or.inl ⟨fun amount => ?_, fun q l' hl' hs' => ?_⟩
        · simp [hnone, hsame]
        · rw [getElem?_modify_ne _ _ (helsewhere q l' hl' (hs' ▸ hsame))]
          exact hkept q l' hl' hs'
      · refine Or.inr ⟨q, amount, mem_append_left _ hreported, ?_, ?_⟩
        · obtain ⟨l', hl', hs', hfree, hreduced⟩ := hline
          refine ⟨l', hl', hs', hfree, ?_⟩
          rw [getElem?_modify_ne _ _ (helsewhere q l' hl' (hs' ▸ hsame))]
          exact hreduced
        · intro q' l' hq' hl' hs'
          rw [getElem?_modify_ne _ _ (helsewhere q' l' hl' (hs' ▸ hsame))]
          exact hothers q' l' hq' hl' hs'
  · have hp : p < plain.length := (List.getElem?_eq_some_iff.mp hl).1
    intro l' hl'
    rw [drop_modify_of_lt _ _ _ _ hp] at hl'
    exact mem_append_left _ (h.added l' hl')
  · intro r hr
    rcases mem_append.mp hr with hr | hr
    · exact mem_append_left _ (h.reported r hr)
    · simp [mem_singleton.mp hr]
  · rw [map_append, map_singleton, nodup_append]
    refine ⟨h.once, by simp, fun s hs' s' hs'' => ?_⟩
    obtain ⟨r, hr, rfl⟩ := mem_map.mp hs'
    rw [mem_singleton.mp hs'']
    exact hfresh r hr
  · have hsum := ListSum.sum_filter_modify (f := TranslatableLine.reduce (bookTotal s₀ plain)) hout
      (fun line => line.subsidiaryId = s) rfl TranslatableLine.amount
    rw [bookTotal, hsum, ← bookTotal, hs, TranslatableLine.reduce]
    by_cases hsame : s₀ = s
    · rw [if_pos (decide_eq_true hsame), if_pos hsame.symm]
      ring
    · rw [if_neg (by simpa using hsame), if_neg (Ne.symm hsame)]
      ring

theorem Settling.append {difference : TranslatableLine ρ} (hs : difference.subsidiaryId = s₀)
    (hamount : difference.amount = -bookTotal s₀ plain) (differences : List (String × ℤ)) :
    Settling plain (done ++ [s₀]) { out with
      lines := out.lines ++ [difference]
      differences := differences } := by
  have hkept : ∀ (p : ℕ) (l l' : TranslatableLine ρ), plain[p]? = some l →
      out.lines[p]? = some l' → (out.lines ++ [difference])[p]? = some l' := by
    intro p l l' hl hout
    rw [getElem?_append_left (List.getElem?_eq_some_iff.mp hout).1, hout]
  refine ⟨?_, ?_, ?_, fun r hr => mem_append_left _ (h.reported r hr), h.once,
    total_step h hnew fun s => ?_⟩
  · rw [length_append]
    exact h.length_le.trans (Nat.le_add_right _ _)
  · intro s
    rcases h.deviation s with ⟨hnone, hall⟩ | ⟨p, amount, ⟨hreported, hline, hothers⟩⟩
    · exact Or.inl ⟨hnone, fun p l hl hsub => hkept p l l hl (hall p l hl hsub)⟩
    · obtain ⟨l, hl, hsub, hfree, hreduced⟩ := hline
      exact Or.inr ⟨p, amount, hreported, ⟨l, hl, hsub, hfree, hkept p l _ hl hreduced⟩,
        fun q l' hq hl' hsub' => hkept q l' l' hl' (hothers q l' hq hl' hsub')⟩
  · intro l hl
    rw [drop_append_of_le_length h.length_le] at hl
    rcases mem_append.mp hl with hl | hl
    · exact mem_append_left _ (h.added l hl)
    · rw [mem_singleton.mp hl, hs]
      simp
  · rw [bookTotal, filter_append, map_append, sum_append, ← bookTotal]
    by_cases hsame : s = s₀
    · subst hsame
      simp [hs, hamount]
      ring
    · have : ¬s₀ = s := fun hc => hsame hc.symm
      simp [hs, hsame, this]

end Step

/-! ### The whole entry -/

section Run

variable {request : BookRequest ρ} {lines : List (TranslatableLine ρ)} {out : TranslationOutcome ρ}

/-- The lines as they are translated, before anything is settled. -/
structure PlainLines (request : BookRequest ρ) (lines : List (TranslatableLine ρ))
    (translated : List (TranslatableLine ρ × Bool)) : Prop where
  line : ∀ (p : ℕ) (l : TranslatableLine ρ), lines[p]? = some l →
    ∃ t, translated[p]? = some t ∧ Restates l t.1 ∧ t.1.amount = plainAmount request l ∧
      (¬Restated request l.subsidiaryId → t.1 = l)
  length_eq : translated.length = lines.length
  joined : ∀ t ∈ translated, t.2 = true → Restated request t.1.subsidiaryId
  zero : ∀ t ∈ translated, t.2 = false → Restated request t.1.subsidiaryId → t.1.amount = 0

theorem plainLines_of_mapM (h : lines.mapM (translateLine request) = .ok translated) :
    PlainLines request lines translated := by
  have hrun := mapM_eq_ok.mp h
  have hspec := forall_of_mapM (P := fun t => (t.2 = true → Restated request t.1.subsidiaryId) ∧
    (t.2 = false → Restated request t.1.subsidiaryId → t.1.amount = 0)) h fun l t ht => by
      obtain ⟨hkeeps, -, -, hjoined, hzero⟩ := translateLine_spec ht
      rw [hkeeps.subsidiaryId]
      exact ⟨hjoined, hzero⟩
  refine ⟨fun p l hl => ?_, hrun.length_eq.symm, fun t ht => (hspec t ht).1,
    fun t ht => (hspec t ht).2⟩
  obtain ⟨hp, rfl⟩ := List.getElem?_eq_some_iff.mp hl
  have hp' : p < translated.length := hrun.length_eq ▸ hp
  have ht := (forall₂_iff_get.mp hrun).2 p hp hp'
  obtain ⟨hkeeps, hamount, hsame, -⟩ := translateLine_spec ht
  exact ⟨_, getElem?_eq_getElem hp', hkeeps, hamount, hsame⟩

/-- **Settling all groups** leaves every restated subsidiary at zero. -/
theorem settling_of_run
    (hdifference : ∀ args difference, request.makeDifferenceLine args = some difference →
      difference.subsidiaryId = args.subsidiaryId ∧ difference.amount = args.amount)
    (hplain : PlainLines request lines translated)
    (h : (translatedGroups translated).foldlM (settleGroup request)
      { lines := translated.map Prod.fst } = .ok out) :
    ∃ done, Settling (translated.map Prod.fst) done out ∧ (∀ s ∈ done, Restated request s) ∧
      ∀ s, Restated request s → s ∉ done → bookTotal s (translated.map Prod.fst) = 0 := by
  refine ⟨(translatedGroups translated).map Prod.fst, ?_, ?_, fun s hs hnot => ?_⟩
  · refine foldlM_invariant (fun done out => Settling (translated.map Prod.fst)
      (done.map Prod.fst) out) h (Settling.start _) fun done g rest out out' hgroups hinv hg => ?_
    have hmem : g ∈ translatedGroups translated := by
      rw [hgroups]
      simp
    have hnodup : ((translatedGroups translated).map Prod.fst).Nodup :=
      nodup_map_fst_groupBy _ _
    rw [hgroups, map_append, map_cons] at hnodup
    have hnew : g.1 ∉ done.map Prod.fst := fun hmem =>
      (nodup_append.mp hnodup).2.2 _ hmem _ mem_cons_self rfl
    have hgrouped := (grouped_of_mem hplain.joined hplain.zero hmem).2
    have hkept : ∀ p ∈ g.2, out.lines[p.2]? = some p.1 := fun p hp =>
      hinv.untouched hnew (hgrouped.line p hp).1 (hgrouped.line p hp).2
    rw [map_append, map_singleton]
    rcases settleGroup_cases hg hgrouped hkept with ⟨hzero, rfl⟩ | ⟨p, hp, hcontrol, rfl⟩ |
      ⟨bookCurrency, difference, hline, rfl⟩
    · exact hinv.skip hnew hzero
    · exact hinv.absorb hnew (hgrouped.line p hp).1 (hgrouped.line p hp).2 hcontrol
    · obtain ⟨hsub, hamount⟩ := hdifference _ _ hline
      exact hinv.append hnew hsub hamount _
  · intro s hs
    obtain ⟨g, hg, rfl⟩ := mem_map.mp hs
    exact (grouped_of_mem hplain.joined hplain.zero hg).1
  · -- no line of such a subsidiary has joined a group, so all are zero
    refine sum_eq_zero fun x hx => ?_
    obtain ⟨l, hl, rfl⟩ := mem_map.mp hx
    obtain ⟨hl, hls⟩ := mem_filter.mp hl
    have hls : l.subsidiaryId = s := of_decide_eq_true hls
    obtain ⟨⟨l', joined⟩, ht, rfl⟩ := mem_map.mp hl
    cases joined with
    | false => exact hplain.zero _ ht rfl (hls ▸ hs)
    | true =>
      refine absurd ?_ hnot
      obtain ⟨p, hp⟩ := exists_mem_zipIdx ht
      rw [translatedGroups, map_fst_groupBy, FirstSeen.mem_keys]
      exact ⟨(l', p), mem_map.mpr ⟨((l', true), p), mem_filter.mpr ⟨hp, rfl⟩, rfl⟩, hls⟩

/-- Every line of a subsidiary is at its plain translation, and no absorption is reported. -/
def AllPlain (request : BookRequest ρ) (lines : List (TranslatableLine ρ))
    (out : TranslationOutcome ρ) (s : String) : Prop :=
  (∀ amount, (s, amount) ∉ out.absorbed) ∧
    ∀ (p : ℕ) (l : TranslatableLine ρ), lines[p]? = some l → l.subsidiaryId = s →
      out.lines[p]?.map TranslatableLine.amount = some (plainAmount request l)

/-- One line of a subsidiary, neither a tax leg nor an open item, is off its plain translation by
the reported amount; the others are at theirs. -/
def OneDeviates (request : BookRequest ρ) (lines : List (TranslatableLine ρ))
    (out : TranslationOutcome ρ) (s : String) (p : ℕ) (amount : ℤ) : Prop :=
  (s, amount) ∈ out.absorbed ∧
    (∃ l, lines[p]? = some l ∧ l.subsidiaryId = s ∧ l.isControl = false ∧
      out.lines[p]?.map TranslatableLine.amount = some (plainAmount request l - amount)) ∧
    ∀ (q : ℕ) (l : TranslatableLine ρ), q ≠ p → lines[q]? = some l → l.subsidiaryId = s →
      out.lines[q]?.map TranslatableLine.amount = some (plainAmount request l)

/-- **A translated entry balances in the book.** Every restated subsidiary sums to zero, others
are left alone; input lines keep their place, their transaction amount and their currency; and
in each subsidiary at most one line is off its plain translation, by what is reported. -/
theorem translateLinesIntoBook_balances
    (hdifference : ∀ args difference, request.makeDifferenceLine args = some difference →
      difference.subsidiaryId = args.subsidiaryId ∧ difference.amount = args.amount)
    (h : translateLinesIntoBook request lines = .ok out) :
    (∀ s, Restated request s → bookTotal s out.lines = 0) ∧
      (∀ (p : ℕ) (l : TranslatableLine ρ), lines[p]? = some l →
        ¬Restated request l.subsidiaryId → out.lines[p]? = some l) ∧
      (∀ l ∈ out.lines.drop lines.length, Restated request l.subsidiaryId) ∧
      (∀ (p : ℕ) (l : TranslatableLine ρ), lines[p]? = some l → ∃ l', out.lines[p]? = some l' ∧
        l'.txnAmount = l.txnAmount ∧ l'.currency = l.currency) ∧
      (out.absorbed.map Prod.fst).Nodup ∧
      ∀ s, AllPlain request lines out s ∨ ∃ p amount, OneDeviates request lines out s p amount := by
  obtain ⟨translated, hmap, hrun⟩ := bind_eq_ok.mp h
  have hplain := plainLines_of_mapM hmap
  obtain ⟨done, hsettled, hdone, hrest⟩ := settling_of_run hdifference hplain hrun
  have hline : ∀ (p : ℕ) (l : TranslatableLine ρ), lines[p]? = some l →
      ∃ l', (translated.map Prod.fst)[p]? = some l' ∧ Restates l l' ∧
        l'.amount = plainAmount request l ∧ (¬Restated request l.subsidiaryId → l' = l) := by
    intro p l hl
    obtain ⟨t, ht, hspec⟩ := hplain.line p l hl
    exact ⟨t.1, by rw [getElem?_map, ht, Option.map_some], hspec⟩
  refine ⟨fun s hs => ?_, fun p l hl hs => ?_, fun l hl => ?_, fun p l hl => ?_, hsettled.once,
    fun s => ?_⟩
  · rw [hsettled.total]
    split_ifs with hmem
    · rfl
    · exact hrest s hs hmem
  · obtain ⟨l', hl', hkeeps, -, hsame⟩ := hline p l hl
    obtain rfl := hsame hs
    exact hsettled.untouched (fun hmem => hs (hdone _ hmem)) hl' rfl
  · refine hdone _ (hsettled.added l ?_)
    rwa [length_map, hplain.length_eq]
  · obtain ⟨l', hl', hkeeps, -⟩ := hline p l hl
    rcases hsettled.deviation l'.subsidiaryId with hkept | ⟨q, amount, ⟨-, hone, hothers⟩⟩
    · exact ⟨l', hkept.line p l' hl' rfl, hkeeps.txnAmount, hkeeps.currency⟩
    · by_cases hpq : p = q
      · subst hpq
        obtain ⟨l₀, hl₀, -, -, hout⟩ := hone
        obtain rfl := Option.some.inj (hl'.symm.trans hl₀)
        exact ⟨_, hout, hkeeps.txnAmount, hkeeps.currency⟩
      · exact ⟨l', hothers p l' hpq hl' rfl, hkeeps.txnAmount, hkeeps.currency⟩
  · rcases hsettled.deviation s with hkept | ⟨p, amount, ⟨hreported, hone, hothers⟩⟩
    · refine Or.inl ⟨hkept.unreported, fun p l hl hs => ?_⟩
      obtain ⟨l', hl', hkeeps, hamount, -⟩ := hline p l hl
      rw [hkept.line p l' hl' (hkeeps.subsidiaryId.trans hs), Option.map_some, hamount]
    · refine Or.inr ⟨p, amount, hreported, ?_, fun q l hq hl hs => ?_⟩
      · obtain ⟨l₀, hl₀, hs, hcontrol, hout⟩ := hone
        have hp : p < (translated.map Prod.fst).length := (List.getElem?_eq_some_iff.mp hl₀).1
        rw [length_map, hplain.length_eq] at hp
        obtain ⟨l', hl', hkeeps, hamount, -⟩ := hline p _ (getElem?_eq_getElem hp)
        obtain rfl := Option.some.inj (hl₀.symm.trans hl')
        refine ⟨_, getElem?_eq_getElem hp, hkeeps.subsidiaryId.symm.trans hs,
          hkeeps.isControl.symm.trans hcontrol, ?_⟩
        rw [hout, Option.map_some, ← hamount]
        rfl
      · obtain ⟨l', hl', hkeeps, hamount, -⟩ := hline q l hl
        rw [hothers q l' hq hl' (hkeeps.subsidiaryId.trans hs), Option.map_some, hamount]

end Run

/-- A book in pounds for a subsidiary in euros, at a rate of one half. -/
def halfRateBook : BookRequest Unit where
  bases s := if s = "uk" then some
      { subsidiaryId := "uk", functionalCurrency := "EUR", bookCurrency := "GBP", rateType := "spot" }
    else none
  rates key := if key = "uk:EUR" then some 5000000000 else none
  makeDifferenceLine args := some
    { accountId := "7900", subsidiaryId := args.subsidiaryId, amount := args.amount,
      currency := args.bookCurrency, txnAmount := args.amount, fxRate := RATE_SCALE, rest := () }
  bookLabel := "GB"
  entryLabel := "journal entry 1"

/-- Two small lines that round up, and their counterpart. -/
def halfRateLines : List (TranslatableLine Unit) :=
  [{ accountId := "6000", subsidiaryId := "uk", amount := 1, currency := "EUR", txnAmount := 1,
      fxRate := RATE_SCALE, rest := () },
    { accountId := "6100", subsidiaryId := "uk", amount := 1, currency := "EUR", txnAmount := 1,
      fxRate := RATE_SCALE, rest := () },
    { accountId := "1000", subsidiaryId := "uk", amount := -2, currency := "EUR", txnAmount := -2,
      fxRate := RATE_SCALE, rest := () }]

/-- One of the lines that round up gives the difference back. -/
theorem translateLinesIntoBook_balances_halves :
    ∃ out, translateLinesIntoBook halfRateBook halfRateLines = .ok out ∧
      bookTotal "uk" out.lines = 0 ∧ out.absorbed = [("uk", 1)] := by
  have hreported : (translateLinesIntoBook halfRateBook halfRateLines).toOption.any
      (fun out => out.absorbed = [("uk", 1)]) = true := by decide +kernel
  obtain ⟨out, hrun, habsorbed⟩ := exists_of_any hreported
  obtain ⟨hbalances, -⟩ := translateLinesIntoBook_balances
    (by
      intro args difference h
      obtain rfl := Option.some.inj h
      exact ⟨rfl, rfl⟩) hrun
  exact ⟨out, hrun, hbalances "uk" ⟨_, rfl, by decide⟩, of_decide_eq_true habsorbed⟩

end OpenBooks
