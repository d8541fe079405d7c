import OpenBooks.Lib.ListSum
import OpenBooks.Payroll.DeductionProtection

/-!
# Deduction protection in a pay run

A protected order is measured against pay that the statutory pass has already taken its share
of; and where the order reduces what is taxed, the statutory pass depends on what the order
takes. The run therefore alternates the two: the statutory pass on what the orders take, then
the protection of what it leaves, until a pass takes what the pass before it took
(`DeductionProtection.settleDeductionProtection`). A run that has no such order needs
one pass of each.

Out of passes, a run whose last two passes lie within a cent settles on the lower amounts, and
runs the statutory pass on them once more. What protection then allows is computed, and is not
written: this is where an order can take more than it is allowed. It cannot where the statutory
pass leaves no less room when the orders take less, as in a cycle of a cent; where taking less
always leaves less, it does unless a ninth pass would have stood still
(`DeductionProtection.settleDeductionProtection_never_overtakes`).
-/

namespace OpenBooks.DeductionProtection

open Checked List

/-! ### Lines and orders -/

/-- A line of a stub, with what the protection of its order is configured by. -/
structure Line where
  kind : LineKind
  description : String
  amount : ℤ
  includeInDisposableEarnings : Bool
  accrualOnly : Bool
  nonCash : Bool
  taxTreatment : Option String
  protectionBase : ProtectionBase
  protectionMaxPercent : Option ℤ
  protectionPriority : Option ℤ
  protectionClass : Option String
  deriving DecidableEq

/-- A pre-tax treatment of a pack, and the bases it reduces. -/
structure PayrollDeductionTreatment where
  key : String
  reduces : List String

/-- Whether a protected line with a treatment moves the statutory pass. -/
def protectionTreatmentIterates (treatments : List PayrollDeductionTreatment)
    (treatment : Option String) : Bool :=
  match treatment with
  | none => false
  | some treatment =>
    if treatment = "none" then false
    else
      match treatments.find? fun candidate => candidate.key = treatment with
      | none => true
      | some declared => 0 < declared.reduces.length

def protectionNeedsIteration (components : List Line)
    (isPreTax : Option String → Bool) : Bool :=
  components.any fun component => component.taxTreatment.isSome && isPreTax component.taxTreatment

/-- What protection is settled for: the lines of a stub before the statutory pass, and the pass
itself, which rewrites the lines that are not protected. -/
structure ProtectionRun where
  lines : List Line
  gross : ℤ
  employeeLabel : String
  packTreatments : List PayrollDeductionTreatment
  exemptFloors : String → Option ℤ
  runStatutoryPass : List Line → List Line → Except String (List Line)

def Line.isProtected (line : Line) : Bool :=
  line.kind = .deduction ∧ line.protectionBase ≠ .none

namespace ProtectionRun

variable (run : ProtectionRun)

def protectedLines : List Line := run.lines.filter Line.isProtected

/-- The lines the statutory pass may rewrite. -/
def others : List Line := run.lines.filter fun line => !line.isProtected

/-- What each order asked for, captured before any pass caps it. -/
def protectionRequested : List ℤ := run.protectedLines.map Line.amount

end ProtectionRun

def Line.baseLine (protectedDeduction : Bool) (line : Line) : DisposableEarningsLine where
  kind := line.kind
  amount := line.amount
  includeInDisposableEarnings := line.includeInDisposableEarnings
  accrualOnly := line.accrualOnly
  nonCash := line.nonCash
  protectedDeduction := protectedDeduction

/-- Earnings paid by another instrument. -/
def nonCashEarnings (lines : List Line) : ℤ :=
  ((lines.filter fun line => line.kind = .earning ∧ ¬line.accrualOnly ∧ line.nonCash).map
    Line.amount).sum

def cashGrossEarnings (gross : ℤ) (lines : List Line) : ℤ := gross - nonCashEarnings lines

/-- The base lines of a stub: the protected lines are marked. -/
def baseLines (protectedLines others : List Line) : List DisposableEarningsLine :=
  others.map (Line.baseLine false) ++ protectedLines.map (Line.baseLine true)

/-- The cash left for the protected deductions. -/
def availablePay (gross : ℤ) (protectedLines others : List Line) : ℤ :=
  let unprotected := ((others.filter fun line => line.kind = .deduction).map Line.amount).sum
  let credits := (((others ++ protectedLines).filter fun line =>
    line.kind = .credit ∧ ¬line.accrualOnly).map Line.amount).sum
  cashGrossEarnings gross (others ++ protectedLines) - unprotected + credits

/-- An order as the pool sees it: its original request, never what an earlier pass took. -/
def protectedDeduction (exemptFloors : String → Option ℤ) (lines : List DisposableEarningsLine)
    (order : (Line × ℤ) × ℕ) : ProtectedDeduction where
  key := order.2
  requested := order.1.2
  maxPercent := order.1.1.protectionMaxPercent.getD 0
  priority := order.1.1.protectionPriority.getD 100
  base := protectedBase order.1.1.protectionBase lines
  exemptFloor := (order.1.1.protectionClass.filter fun c => c ≠ "").bind exemptFloors

/-- Protection over the current lines, the statutory ones included. -/
def protectionPass (run : ProtectionRun) (protectionRequested : List ℤ)
    (protectedLines others : List Line) : Except String ProtectionResult :=
  let lines := baseLines protectedLines others
  let available := availablePay run.gross protectedLines others
  applyDeductionProtection
    ((protectedLines.zip protectionRequested).zipIdx.map
      (protectedDeduction run.exemptFloors lines))
    (protectedBase .netPay lines) (if 0 < available then available else 0)

/-! ### Passes -/

/-- What an order takes after a pass. -/
structure SettledAmount where
  key : ℕ
  amount : ℤ
  deriving DecidableEq

def amountAt (entries : List SettledAmount) (key : ℕ) : Option ℤ :=
  (entries.find? fun entry => entry.key = key).map SettledAmount.amount

def entriesOf (result : ProtectionResult) : List SettledAmount :=
  result.applied.map fun answer => ⟨answer.key, answer.amount⟩

/-- Write what the orders take to their lines. -/
def applyPass (entries : List SettledAmount) (protectedLines : List Line) : List Line :=
  entries.foldl (fun lines entry => lines.modify entry.key fun line =>
    { line with amount := entry.amount }) protectedLines

/-- What the orders take before any pass: what they ask for. -/
def requestedEntries (protectedLines : List Line) : List SettledAmount :=
  protectedLines.zipIdx.map fun line => ⟨line.2, line.1.amount⟩

/-- Whether a pass takes what the pass before it took. -/
def protectionConverged (previous current : List SettledAmount) : Bool :=
  previous.length = current.length ∧
    current.all fun entry => amountAt previous entry.key = some entry.amount

/-- The lower of two amounts within a cent. -/
def settleEntry (previous : List SettledAmount) (entry : SettledAmount) : Option SettledAmount := do
  let amount ← amountAt previous entry.key
  let gap := if entry.amount ≤ amount then amount - entry.amount else entry.amount - amount
  if CENT < gap then none else return ⟨entry.key, lesser amount entry.amount⟩

/-- The last resort out of passes: the lower amounts, where the gap is a cent at most. -/
def settleProtectionOscillation (previous current : List SettledAmount) :
    Option (List SettledAmount) :=
  if previous.length ≠ current.length then none else current.mapM (settleEntry previous)

def PROTECTION_MAX_PASSES : ℕ := 8

/-- What protection settled on. -/
structure Settlement where
  lastProtection : Option ProtectionResult
  protectedLines : List Line
  others : List Line
  protectionRequested : List ℤ
  deriving DecidableEq

/-- One pass: the statutory pass on what the orders take, then the protection of what it
leaves. -/
def onePass (run : ProtectionRun) (protectedLines others : List Line) :
    Except String (ProtectionResult × List Line) := do
  let others ← run.runStatutoryPass protectedLines others
  let result ← protectionPass run run.protectionRequested protectedLines others
  return (result, others)

/-- Out of passes: settle within a cent, or refuse. -/
def settleLast (run : ProtectionRun) (previous current : List SettledAmount)
    (protectedLines others : List Line) : Except String Settlement := do
  let settled ← orRefuse (settleProtectionOscillation previous current)
    ("deduction protection did not converge for " ++ run.employeeLabel ++ " on " ++
      ", ".intercalate (protectedLines.map Line.description) ++ " after " ++
      toString PROTECTION_MAX_PASSES ++ " passes")
  let protectedLines := applyPass settled protectedLines
  -- the withholdings are computed from what is taken; what is taken is not looked at again
  let (result, others) ← onePass run protectedLines others
  return ⟨some result, protectedLines, others, run.protectionRequested⟩

/-- The passes that are left after this one. -/
def settlePasses (run : ProtectionRun) : ℕ → List SettledAmount → List Line → List Line →
    Except String Settlement
  | remaining, previous, protectedLines, others => do
    let protectedLines := applyPass previous protectedLines
    let (result, others) ← onePass run protectedLines others
    let current := entriesOf result
    if protectionConverged previous current then
      return ⟨some result, applyPass current protectedLines, others, run.protectionRequested⟩
    else
      match remaining with
      | 0 => settleLast run previous current protectedLines others
      | remaining + 1 => settlePasses run remaining current protectedLines others

/-- Protection driven to settlement by the statutory pass. -/
def settleDeductionProtection (run : ProtectionRun) : Except String Settlement :=
  if run.protectedLines = [] then do
    let others ← run.runStatutoryPass [] run.others
    return ⟨none, [], others, []⟩
  else if ¬protectionNeedsIteration run.protectedLines
      (protectionTreatmentIterates run.packTreatments) then do
    let (result, others) ← onePass run run.protectedLines run.others
    return ⟨some result, applyPass (entriesOf result) run.protectedLines, others,
      run.protectionRequested⟩
  else
    settlePasses run (PROTECTION_MAX_PASSES - 1) (requestedEntries run.protectedLines)
      run.protectedLines run.others

/-! ### Shortfalls -/

/-- The unpaid balance of an order. -/
structure DeductionShortfall where
  key : String
  requested : ℤ
  applied : ℤ
  shortfall : ℤ
  reason : ShortfallReason

/-- Why the order at a position is short, as the last pass saw it. -/
def Settlement.reasonAt (settlement : Settlement) (index : ℕ) : Option ShortfallReason := do
  let result ← settlement.lastProtection
  let entry ← result.shortfalls.find? fun entry => entry.key = index
  return entry.reason

def shortfallOf (settlement : Settlement) (order : (Line × ℤ) × ℕ) : Option DeductionShortfall :=
  let owed := order.1.2 - order.1.1.amount
  if owed ≤ 0 then none
  else some ⟨order.1.1.description, order.1.2, order.1.1.amount, owed,
    (settlement.reasonAt order.2).getD .protectedBase⟩

/-- The shortfalls of what a stub finally deducts. -/
def protectionShortfalls (settlement : Settlement) : List DeductionShortfall :=
  (settlement.protectedLines.zip settlement.protectionRequested).zipIdx.filterMap
    (shortfallOf settlement)

def totalShortfall (shortfalls : List DeductionShortfall) : ℤ :=
  (shortfalls.map DeductionShortfall.shortfall).sum

/-- Stamp the shortfalls into the factors of a stub. -/
def recordProtectionShortfalls (factors : String → Option ℤ) (settlement : Settlement) :
    String → Option ℤ :=
  let shortfalls := protectionShortfalls settlement
  if 0 < shortfalls.length then
    shortfalls.foldl
      (fun factors entry =>
        Function.update factors ("PROT_SHORT:" ++ entry.key) (some entry.shortfall))
      (Function.update factors "PROT_SHORT" (some (totalShortfall shortfalls)))
  else factors

/-! ### What a pass writes

The keys of a pass are the positions of the orders, each of them once, so that writing a pass
gives every order the amount under its position, whatever it took before. -/

/-- Every one of `n` orders has an amount, under its position. -/
def Covers (n : ℕ) (entries : List SettledAmount) : Prop :=
  (entries.map SettledAmount.key).Perm (List.range n)

variable {n : ℕ} {entries : List SettledAmount} {lines : List Line}

theorem Covers.nodup (h : Covers n entries) : (entries.map SettledAmount.key).Nodup :=
  h.symm.nodup nodup_range

/-- No order has more under the first amounts than under the second. -/
def AtMost (lower upper : List SettledAmount) : Prop :=
  ∀ i less more, amountAt lower i = some less → amountAt upper i = some more → less ≤ more

theorem amountAt_cons (entry : SettledAmount) (entries : List SettledAmount) (i : ℕ) :
    amountAt (entry :: entries) i =
      if entry.key = i then some entry.amount else amountAt entries i := by
  unfold amountAt
  rw [find?_cons]
  by_cases h : entry.key = i <;> simp [h]

theorem amountAt_eq_none (h : n ∉ entries.map SettledAmount.key) : amountAt entries n = none := by
  rw [amountAt, find?_eq_none.mpr, Option.map_none]
  intro entry hentry hkey
  exact h (mem_map.mpr ⟨entry, hentry, by simpa using hkey⟩)

variable {i : ℕ} {amount : ℤ}

theorem amountAt_eq_some_iff (h : (entries.map SettledAmount.key).Nodup) :
    amountAt entries i = some amount ↔ ⟨i, amount⟩ ∈ entries := by
  induction entries with
  | nil => simp [amountAt]
  | cons entry entries ih =>
    rw [map_cons, nodup_cons] at h
    rw [amountAt_cons, mem_cons]
    split_ifs with hkey
    · subst hkey
      have hnot : (⟨entry.key, amount⟩ : SettledAmount) ∉ entries := fun hmem =>
        h.1 (mem_map.mpr ⟨_, hmem, rfl⟩)
      obtain ⟨key, written⟩ := entry
      simp [hnot, eq_comm]
    · rw [ih h.2]
      refine ⟨Or.inr, fun hmem => hmem.resolve_left ?_⟩
      rintro rfl
      exact hkey rfl

theorem Covers.exists_amountAt (h : Covers n entries) (hi : i < n) :
    ∃ amount, amountAt entries i = some amount := by
  obtain ⟨⟨_, amount⟩, hentry, rfl⟩ := mem_map.mp (h.symm.mem_iff.mp (mem_range.mpr hi))
  exact ⟨amount, (amountAt_eq_some_iff h.nodup).mpr hentry⟩

variable {entry : SettledAmount}

theorem Covers.key_lt (h : Covers n entries) (hentry : entry ∈ entries) : entry.key < n :=
  mem_range.mp (h.mem_iff.mp (mem_map.mpr ⟨entry, hentry, rfl⟩))

theorem getElem?_applyPass (h : (entries.map SettledAmount.key).Nodup) (lines : List Line) (i : ℕ) :
    (applyPass entries lines)[i]? = lines[i]?.map fun line =>
      { line with amount := (amountAt entries i).getD line.amount } := by
  induction entries generalizing lines with
  | nil => simp [applyPass, amountAt]
  | cons entry entries ih =>
    rw [map_cons, nodup_cons] at h
    rw [applyPass, foldl_cons]
    change (applyPass entries _)[i]? = _
    rw [ih h.2, getElem?_modify, amountAt_cons]
    by_cases hkey : entry.key = i
    · subst hkey
      cases lines[entry.key]? <;> simp [amountAt_eq_none h.1]
    · simp [hkey]

theorem length_applyPass (entries : List SettledAmount) (lines : List Line) :
    (applyPass entries lines).length = lines.length := by
  induction entries generalizing lines with
  | nil => rfl
  | cons entry entries ih =>
    rw [applyPass, foldl_cons]
    exact (ih _).trans (length_modify _ _ _)

/-- **A pass writes over the pass before it.** -/
theorem applyPass_applyPass {later : List SettledAmount} (h : Covers lines.length entries)
    (hlater : Covers lines.length later) :
    applyPass later (applyPass entries lines) = applyPass later lines := by
  refine ext_getElem? fun i => ?_
  rw [getElem?_applyPass hlater.nodup, getElem?_applyPass h.nodup, getElem?_applyPass hlater.nodup]
  cases hline : lines[i]? with
  | none => rfl
  | some line =>
    obtain ⟨amount, hamount⟩ := hlater.exists_amountAt (List.getElem?_eq_some_iff.mp hline).1
    simp [hamount]

theorem requestedEntries_covers (lines : List Line) :
    Covers lines.length (requestedEntries lines) := by
  have hkeys : (requestedEntries lines).map SettledAmount.key = List.range lines.length := by
    rw [requestedEntries, map_map]
    exact (zipIdx_map_snd 0 lines).trans range_eq_range'.symm
  rw [Covers, hkeys]

/-! ### What a pass allows

A pass sees the orders only through what they ask for and how they are configured, and the bases
leave them out; so it allows the same whatever the orders take at the moment
(`DeductionProtection.protectionPass_applyPass`). -/

section Pass

variable {run : ProtectionRun} {requested : List ℤ} {others : List Line}
  {result : ProtectionResult}

theorem isOrder_baseLine (h : ∀ line ∈ lines, line.kind = .deduction) :
    ∀ line ∈ lines.map (Line.baseLine true), line.IsOrder := by
  intro line hline
  obtain ⟨original, horiginal, rfl⟩ := mem_map.mp hline
  exact ⟨h original horiginal, rfl⟩

section

variable (hkind : ∀ line ∈ lines, line.kind = .deduction)

include hkind

theorem kind_applyPass (h : (entries.map SettledAmount.key).Nodup) :
    ∀ line ∈ applyPass entries lines, line.kind = .deduction := by
  intro line hline
  obtain ⟨i, hi⟩ := mem_iff_getElem?.mp hline
  rw [getElem?_applyPass h] at hi
  obtain ⟨original, horiginal, rfl⟩ := Option.map_eq_some_iff.mp hi
  exact hkind original (mem_of_getElem? horiginal)

/-- Lines of another kind are looked for among the others only. -/
theorem filter_append_of_deduction {keep : Line → Bool}
    (hkeep : ∀ line, keep line = true → line.kind ≠ .deduction) (others : List Line) :
    (others ++ lines).filter keep = others.filter keep := by
  have hnone : lines.filter keep = [] :=
    filter_eq_nil_iff.mpr fun line hline hk => hkeep line hk (hkind line hline)
  rw [filter_append, hnone, append_nil]

theorem availablePay_eq (gross : ℤ) (others : List Line) :
    availablePay gross lines others = availablePay gross [] others := by
  unfold availablePay cashGrossEarnings nonCashEarnings
  rw [filter_append_of_deduction hkind (by simp +contextual) others,
    filter_append_of_deduction hkind (by simp +contextual) others, append_nil]

theorem protectedBase_baseLines (base : ProtectionBase) (others : List Line) :
    protectedBase base (baseLines lines others) = protectedBase base (baseLines [] others) := by
  unfold baseLines
  rw [protectedBase_append_protected base _ (isOrder_baseLine hkind), map_nil, append_nil]

/-- **A pass does not see what the orders take.** -/
theorem protectionPass_applyPass (h : (entries.map SettledAmount.key).Nodup) (requested : List ℤ)
    (others : List Line) :
    protectionPass run requested (applyPass entries lines) others =
      protectionPass run requested lines others := by
  have hkind' := kind_applyPass hkind h
  have horders : ((applyPass entries lines).zip requested).zipIdx.map
        (protectedDeduction run.exemptFloors (baseLines (applyPass entries lines) others)) =
      (lines.zip requested).zipIdx.map
        (protectedDeduction run.exemptFloors (baseLines lines others)) := by
    refine ext_getElem? fun i => ?_
    simp only [getElem?_map, getElem?_zipIdx, List.zip, getElem?_zipWith,
      getElem?_applyPass h]
    cases lines[i]? with
    | none => rfl
    | some line =>
      cases requested[i]? with
      | none => rfl
      | some r => simp [protectedDeduction, protectedBase_baseLines hkind, protectedBase_baseLines hkind']
  unfold protectionPass
  dsimp only
  rw [horders, availablePay_eq hkind', availablePay_eq hkind, protectedBase_baseLines hkind',
    protectedBase_baseLines hkind]

end

theorem entriesOf_covers (hlength : requested.length = lines.length)
    (h : protectionPass run requested lines others = .ok result) :
    Covers lines.length (entriesOf result) := by
  have hkeys := applied_keys h
  have hpositions : (((lines.zip requested).zipIdx.map
      (protectedDeduction run.exemptFloors (baseLines lines others))).map
        ProtectedDeduction.key) = List.range lines.length := by
    rw [map_map]
    refine (zipIdx_map_snd 0 _).trans ?_
    rw [length_zip, hlength, min_self, range_eq_range']
  rw [hpositions] at hkeys
  have hentries : (entriesOf result).map SettledAmount.key =
      result.applied.map AppliedDeduction.key := by
    rw [entriesOf, map_map]
    rfl
  rw [Covers, hentries]
  exact hkeys

/-- **A pass allows an order no more than it asked for.** -/
theorem amountAt_within (h : protectionPass run requested lines others = .ok result)
    (hamount : ⟨i, amount⟩ ∈ entriesOf result) :
    0 ≤ amount ∧ ∃ r, requested[i]? = some r ∧ amount ≤ r := by
  obtain ⟨answer, hanswer, hentry⟩ := mem_map.mp hamount
  obtain ⟨rfl, rfl⟩ := SettledAmount.mk.inj hentry
  obtain ⟨deduction, hdeduction, hwithin⟩ :=
    ListSum.exists_left_of_forall₂ (applied_answers h) hanswer
  have hmem := (mem_insertionSort _).mp hdeduction
  obtain ⟨⟨⟨line, r⟩, position⟩, hposition, rfl⟩ := mem_map.mp hmem
  refine ⟨hwithin.nonneg, r, ?_, hwithin.le_requested⟩
  have hzip := mem_zipIdx_iff_getElem?.mp hposition
  have hkey : answer.key = position := hwithin.key
  rw [hkey]
  exact (getElem?_zip_eq_some.mp hzip).2

end Pass

/-! ### The passes one after another -/

variable {others : List Line} {pass : ℕ} {others' : List Line}

namespace ProtectionRun

variable (run : ProtectionRun)

/-- What the orders take, and the other lines, after some passes, wherever the run stops. -/
def passes : ℕ → Except String (List SettledAmount × List Line)
  | 0 => .ok (requestedEntries run.protectedLines, run.others)
  | pass + 1 => do
    let (previous, others) ← passes pass
    let (result, others) ← onePass run (applyPass previous run.protectedLines) others
    return (entriesOf result, others)

/-- The pass after some passes takes what they took. -/
def FixedAt (pass : ℕ) : Prop :=
  ∃ previous others current others', run.passes pass = .ok (previous, others) ∧
    run.passes (pass + 1) = .ok (current, others') ∧ protectionConverged previous current = true

/-- **The last resort is not taken**: there is no order, or none that moves the statutory pass, or
some pass takes what the pass before it took. -/
def NoLastResort : Prop :=
  run.protectedLines = [] ∨
    protectionNeedsIteration run.protectedLines
      (protectionTreatmentIterates run.packTreatments) = false ∨
    ∃ pass < PROTECTION_MAX_PASSES, run.FixedAt pass

/-- What two passes allow, the second of them run on amounts that are nowhere higher. -/
def Responds (compare : List SettledAmount → List SettledAmount → Prop) : Prop :=
  ∀ taken lower others first others' second others'',
    Covers run.protectedLines.length taken → Covers run.protectedLines.length lower →
    AtMost lower taken →
    onePass run (applyPass taken run.protectedLines) others = .ok (first, others') →
    onePass run (applyPass lower run.protectedLines) others' = .ok (second, others'') →
    compare (entriesOf first) (entriesOf second)

/-- **The statutory pass gives way**: run on amounts that are nowhere higher, it leaves no order
less room. -/
def GivesWay : Prop := run.Responds fun first second => AtMost first second

/-- **The statutory pass takes away**: run on amounts that are nowhere higher, it leaves no order
more room. -/
def TakesAway : Prop := run.Responds fun first second => AtMost second first

variable {run}

theorem kind_protectedLines : ∀ line ∈ run.protectedLines, line.kind = .deduction := by
  intro line hline
  have hprotected := (mem_filter.mp hline).2
  simp only [Line.isProtected, decide_eq_true_eq] at hprotected
  exact hprotected.1

theorem length_protectionRequested :
    run.protectionRequested.length = run.protectedLines.length :=
  length_map _

variable {entries : List SettledAmount}

theorem onePass_applyPass {result : ProtectionResult}
    (hcovers : Covers run.protectedLines.length entries)
    (h : onePass run (applyPass entries run.protectedLines) others = .ok (result, others')) :
    protectionPass run run.protectionRequested run.protectedLines others' = .ok result ∧
      Covers run.protectedLines.length (entriesOf result) := by
  simp only [onePass, bind_eq_ok, pure_eq_ok, Prod.mk.injEq] at h
  obtain ⟨written, -, answered, hpass, rfl, rfl⟩ := h
  rw [protectionPass_applyPass kind_protectedLines hcovers.nodup] at hpass
  exact ⟨hpass, entriesOf_covers length_protectionRequested hpass⟩

theorem passes_covers (h : run.passes pass = .ok (entries, others)) :
    Covers run.protectedLines.length entries := by
  induction pass generalizing entries others with
  | zero =>
    obtain ⟨rfl, rfl⟩ := Prod.mk.inj (Except.ok.inj h)
    exact requestedEntries_covers _
  | succ pass ih =>
    simp only [passes, bind_eq_ok, pure_eq_ok, Prod.exists, Prod.mk.injEq] at h
    obtain ⟨previous, before, hprevious, result, after, hpass, rfl, rfl⟩ := h
    exact (onePass_applyPass (ih hprevious) hpass).2

/-- After a pass, each order takes between nothing and its request. -/
theorem passes_succ_within (h : run.passes (pass + 1) = .ok (entries, others))
    (hamount : amountAt entries i = some amount) :
    0 ≤ amount ∧ ∃ r, run.protectionRequested[i]? = some r ∧ amount ≤ r := by
  simp only [passes, bind_eq_ok, pure_eq_ok, Prod.exists, Prod.mk.injEq] at h
  obtain ⟨previous, before, hprevious, result, after, hpass, rfl, rfl⟩ := h
  obtain ⟨hpass, hcovers⟩ := onePass_applyPass (passes_covers hprevious) hpass
  exact amountAt_within hpass ((amountAt_eq_some_iff hcovers.nodup).mp hamount)

theorem amountAt_requestedEntries (lines : List Line) (i : ℕ) :
    amountAt (requestedEntries lines) i = lines[i]?.map Line.amount := by
  refine Option.ext fun amount => ?_
  rw [amountAt_eq_some_iff (requestedEntries_covers lines).nodup, requestedEntries, mem_map,
    Option.map_eq_some_iff]
  constructor
  · rintro ⟨⟨line, position⟩, hline, hentry⟩
    obtain ⟨rfl, rfl⟩ := SettledAmount.mk.inj hentry
    exact ⟨line, mem_zipIdx_iff_getElem?.mp hline, rfl⟩
  · rintro ⟨line, hline, rfl⟩
    exact ⟨(line, i), mem_zipIdx_iff_getElem?.mpr hline, rfl⟩

variable {later : List SettledAmount}

theorem onePass_of_passes_succ (h : run.passes pass = .ok (entries, others))
    (hnext : run.passes (pass + 1) = .ok (later, others')) :
    ∃ result, onePass run (applyPass entries run.protectedLines) others = .ok (result, others') ∧
      later = entriesOf result := by
  rw [passes, h, ok_bind] at hnext
  obtain ⟨⟨result, after⟩, hpass, hlater⟩ := bind_eq_ok.mp hnext
  obtain ⟨rfl, rfl⟩ := Prod.mk.inj (pure_eq_ok.mp hlater)
  exact ⟨result, hpass, rfl⟩

/-- **Where the statutory pass takes away, the passes come down**, from what is requested on. -/
theorem TakesAway.passes_succ_atMost (htakes : run.TakesAway)
    (h : run.passes pass = .ok (entries, others))
    (hnext : run.passes (pass + 1) = .ok (later, others')) : AtMost later entries := by
  induction pass generalizing entries others later others' with
  | zero =>
    obtain ⟨rfl, rfl⟩ := Prod.mk.inj (Except.ok.inj h)
    intro i less more hless hmore
    obtain ⟨-, r, hr, hle⟩ := passes_succ_within hnext hless
    rw [amountAt_requestedEntries] at hmore
    rw [protectionRequested, getElem?_map] at hr
    exact hle.trans (Option.some.inj (hr.symm.trans hmore)).le
  | succ pass ih =>
    obtain ⟨⟨previous, before⟩, hprevious, -⟩ := bind_eq_ok.mp h
    have hcovers := passes_covers h
    have hle := ih hprevious h
    obtain ⟨first, hfirst, rfl⟩ := onePass_of_passes_succ hprevious h
    obtain ⟨second, hsecond, rfl⟩ := onePass_of_passes_succ h hnext
    exact htakes _ _ _ _ _ _ _ (passes_covers hprevious) hcovers hle hfirst hsecond

end ProtectionRun

variable {previous : List SettledAmount}

/-- What the last resort takes for an order: the lower of the last two amounts. -/
theorem settleEntry_eq_some {settled : SettledAmount}
    (h : settleEntry previous entry = some settled) :
    settled.key = entry.key ∧ ∃ amount, amountAt previous entry.key = some amount ∧
      settled.amount = min amount entry.amount := by
  simp only [settleEntry, Option.bind_eq_bind, Option.bind_eq_some_iff] at h
  obtain ⟨amount, hamount, h⟩ := h
  generalize (if entry.amount ≤ amount then _ else _ : ℤ) = gap at h
  split_ifs at h
  obtain rfl := Option.some.inj h
  exact ⟨rfl, amount, hamount, lesser_eq_min _ _⟩

variable {current : List SettledAmount} {settled : List SettledAmount}

theorem settled_forall₂ (h : settleProtectionOscillation previous current = some settled) :
    List.Forall₂ (fun entry taken => settleEntry previous entry = some taken) current settled := by
  unfold settleProtectionOscillation at h
  split_ifs at h
  clear * - h
  induction current generalizing settled with
  | nil =>
    obtain rfl := Option.some.inj h
    exact .nil
  | cons entry current ih =>
    simp only [mapM_cons, Option.bind_eq_bind, Option.bind_eq_some_iff] at h
    obtain ⟨taken, htaken, rest, hrest, h⟩ := h
    obtain rfl := Option.some.inj h
    exact .cons htaken (ih hrest)

theorem settled_covers {n : ℕ} (hcovers : Covers n current)
    (h : settleProtectionOscillation previous current = some settled) : Covers n settled := by
  have hkeys : settled.map SettledAmount.key = current.map SettledAmount.key := by
    have hforall := settled_forall₂ h
    clear h hcovers
    induction hforall with
    | nil => rfl
    | cons hentry _ ih => rw [map_cons, map_cons, (settleEntry_eq_some hentry).1, ih]
  rw [Covers, hkeys]
  exact hcovers

/-- What the orders of a settlement take, and the pass over its final lines. -/
structure Takes (run : ProtectionRun) (entries : List SettledAmount) (again : ProtectionResult)
    (settlement : Settlement) : Prop where
  requested : settlement.protectionRequested = run.protectionRequested
  lines : settlement.protectedLines = applyPass entries run.protectedLines
  covers : Covers run.protectedLines.length entries
  within : ∀ i amount, amountAt entries i = some amount →
    0 ≤ amount ∧ ∃ r, run.protectionRequested[i]? = some r ∧ amount ≤ r
  again :
    protectionPass run run.protectionRequested run.protectedLines settlement.others = .ok again

/-- **A settlement that a pass confirms**: the orders take what the pass over the final lines
allows. -/
def Confirmed (run : ProtectionRun) (settlement : Settlement) : Prop :=
  ∃ again, Takes run (entriesOf again) again settlement

variable {run : ProtectionRun} {settlement : Settlement}

theorem confirmed_of_pass {result : ProtectionResult}
    (hpass : protectionPass run run.protectionRequested run.protectedLines settlement.others =
      .ok result)
    (hlines : settlement.protectedLines = applyPass (entriesOf result) run.protectedLines)
    (hrequested : settlement.protectionRequested = run.protectionRequested) :
    Confirmed run settlement := by
  have hcovers := entriesOf_covers ProtectionRun.length_protectionRequested hpass
  exact ⟨result, hrequested, hlines, hcovers, fun i amount hamount =>
    amountAt_within hpass ((amountAt_eq_some_iff hcovers.nodup).mp hamount), hpass⟩

/-- **A settlement of last resort**: the orders take the lower amounts of the last two passes. -/
def LastResort (run : ProtectionRun) (settlement : Settlement) : Prop :=
  ∃ previous others current others' settled again others'',
    run.passes (PROTECTION_MAX_PASSES - 1) = .ok (previous, others) ∧
    run.passes PROTECTION_MAX_PASSES = .ok (current, others') ∧
    settleProtectionOscillation previous current = some settled ∧
    onePass run (applyPass settled run.protectedLines) others' = .ok (again, others'') ∧
    settlement = ⟨some again, applyPass settled run.protectedLines, others'',
      run.protectionRequested⟩

/-- One more pass: either it confirms what the orders take, and the alternation stops, or it does
not, and the rest goes on from it. -/
theorem settlePasses_step {remaining : ℕ} {lines : List Line}
    (hpasses : run.passes pass = .ok (previous, others))
    (hlines : applyPass previous lines = applyPass previous run.protectedLines)
    (h : settlePasses run remaining previous lines others = .ok settlement) :
    ∃ current others', run.passes (pass + 1) = .ok (current, others') ∧
      (run.FixedAt pass ∧ Confirmed run settlement ∨
        ¬run.FixedAt pass ∧
          match remaining with
          | 0 => settleLast run previous current (applyPass previous run.protectedLines) others' =
              .ok settlement
          | remaining + 1 => settlePasses run remaining current
              (applyPass previous run.protectedLines) others' = .ok settlement) := by
  rw [settlePasses, hlines] at h
  obtain ⟨⟨result, others'⟩, hone, h⟩ := bind_eq_ok.mp h
  have hcovers := ProtectionRun.passes_covers hpasses
  obtain ⟨hpass, hcovers'⟩ := ProtectionRun.onePass_applyPass hcovers hone
  have hnext : run.passes (pass + 1) = .ok (entriesOf result, others') := by
    rw [ProtectionRun.passes, hpasses, ok_bind]
    dsimp only
    rw [hone]
    rfl
  refine ⟨entriesOf result, others', hnext, ?_⟩
  dsimp only at h
  split_ifs at h with hconverged
  · refine Or.inl ⟨⟨previous, others, _, _, hpasses, hnext, hconverged⟩, ?_⟩
    obtain rfl := pure_eq_ok.mp h
    exact confirmed_of_pass hpass (applyPass_applyPass hcovers hcovers') rfl
  · refine Or.inr ⟨?_, ?_⟩
    · rintro ⟨previous', before, current', after, hprevious', hcurrent', hfixed⟩
      rw [hpasses] at hprevious'
      rw [hnext] at hcurrent'
      obtain ⟨rfl, -⟩ := Prod.mk.inj (Except.ok.inj hprevious')
      obtain ⟨rfl, -⟩ := Prod.mk.inj (Except.ok.inj hcurrent')
      exact hconverged hfixed
    · cases remaining with
      | zero | succ remaining => exact h

/-- The last resort takes the lower amounts, and takes them once and for all. -/
theorem settleLast_spec
    (hprevious : run.passes (PROTECTION_MAX_PASSES - 1) = .ok (previous, others))
    (hcurrent : run.passes PROTECTION_MAX_PASSES = .ok (current, others'))
    (h : settleLast run previous current (applyPass previous run.protectedLines) others' =
      .ok settlement) : LastResort run settlement := by
  simp only [settleLast, bind_eq_ok, orRefuse_eq_ok, pure_eq_ok, Prod.exists] at h
  obtain ⟨settled, hsettled, again, others'', hagain, rfl⟩ := h
  have hcovers : Covers run.protectedLines.length settled :=
    settled_covers (ProtectionRun.passes_covers hcurrent) hsettled
  rw [applyPass_applyPass (ProtectionRun.passes_covers hprevious) hcovers] at hagain ⊢
  exact ⟨previous, others, current, others', settled, again, others'', hprevious, hcurrent,
    hsettled, hagain, rfl⟩

/-- **The alternation stops at the first pass that takes what the pass before it took**, and at
the last resort where there is none. -/
theorem settlePasses_spec {remaining : ℕ} (hpass : pass + remaining + 1 = PROTECTION_MAX_PASSES)
    {lines : List Line} (hpasses : run.passes pass = .ok (previous, others))
    (hlines : ∀ later, Covers run.protectedLines.length later →
      applyPass later lines = applyPass later run.protectedLines)
    (h : settlePasses run remaining previous lines others = .ok settlement) :
    (∃ p, pass ≤ p ∧ p < PROTECTION_MAX_PASSES ∧ run.FixedAt p) ∧ Confirmed run settlement ∨
      (∀ p, pass ≤ p → p < PROTECTION_MAX_PASSES → ¬run.FixedAt p) ∧ LastResort run settlement := by
  induction remaining generalizing pass previous others lines with
  | zero =>
    obtain ⟨current, others', hnext, hstep⟩ :=
      settlePasses_step hpasses (hlines previous (ProtectionRun.passes_covers hpasses)) h
    rcases hstep with ⟨hfixed, hconfirmed⟩ | ⟨hnot, hlast⟩
    · exact Or.inl ⟨⟨pass, le_rfl, by omega, hfixed⟩, hconfirmed⟩
    · refine Or.inr ⟨fun p hle hlt => ?_, ?_⟩
      · obtain rfl : p = pass := by omega
        exact hnot
      · have hseven : PROTECTION_MAX_PASSES - 1 = pass := by omega
        have height : PROTECTION_MAX_PASSES = pass + 1 := by omega
        exact settleLast_spec (hseven ▸ hpasses) (height ▸ hnext) hlast
  | succ remaining ih =>
    have hcovers := ProtectionRun.passes_covers hpasses
    obtain ⟨current, others', hnext, hstep⟩ := settlePasses_step hpasses (hlines previous hcovers) h
    rcases hstep with ⟨hfixed, hconfirmed⟩ | ⟨hnot, hrest⟩
    · exact Or.inl ⟨⟨pass, le_rfl, by omega, hfixed⟩, hconfirmed⟩
    · rcases ih (by omega) hnext (fun later hlater => applyPass_applyPass hcovers hlater) hrest with
        ⟨⟨p, hle, hlt, hfixed⟩, hconfirmed⟩ | ⟨hnone, hlast⟩
      · exact Or.inl ⟨⟨p, by omega, hlt, hfixed⟩, hconfirmed⟩
      · refine Or.inr ⟨fun p hle hlt => ?_, hlast⟩
        rcases eq_or_lt_of_le hle with rfl | hlt'
        · exact hnot
        · exact hnone p hlt' hlt

/-! ### What is reported -/

section Report

variable {settlement : Settlement} {factors : String → Option ℤ}

/-- The shortfalls of a settlement, reported. Orders that share a description share a figure under
it, the last one's; the total counts each. -/
structure Reported (factors : String → Option ℤ) (settlement : Settlement) : Prop where
  entry : ∀ order ∈ settlement.protectedLines.zip settlement.protectionRequested,
    order.1.amount < order.2 → ∃ shortfall ∈ protectionShortfalls settlement,
      shortfall.key = order.1.description ∧ shortfall.requested = order.2 ∧
        shortfall.applied = order.1.amount ∧ shortfall.shortfall = order.2 - order.1.amount
  total : (∃ order ∈ settlement.protectedLines.zip settlement.protectionRequested,
      order.1.amount < order.2) →
    recordProtectionShortfalls factors settlement "PROT_SHORT" =
      some ((settlement.protectedLines.zip settlement.protectionRequested).map fun order =>
        order.2 - order.1.amount).sum
  named : ∀ order ∈ settlement.protectedLines.zip settlement.protectionRequested,
    order.1.amount < order.2 →
    (∀ other ∈ settlement.protectedLines.zip settlement.protectionRequested,
      other.1.amount < other.2 → other.1.description = order.1.description →
        other.2 - other.1.amount = order.2 - order.1.amount) →
    recordProtectionShortfalls factors settlement ("PROT_SHORT:" ++ order.1.description) =
      some (order.2 - order.1.amount)

theorem mem_protectionShortfalls {shortfall : DeductionShortfall} :
    shortfall ∈ protectionShortfalls settlement ↔
      ∃ order i, (order, i) ∈
          (settlement.protectedLines.zip settlement.protectionRequested).zipIdx ∧
        order.1.amount < order.2 ∧
        shortfall = ⟨order.1.description, order.2, order.1.amount, order.2 - order.1.amount,
          (settlement.reasonAt i).getD .protectedBase⟩ := by
  simp only [protectionShortfalls, mem_filterMap, shortfallOf]
  constructor
  · rintro ⟨⟨order, i⟩, horder, h⟩
    dsimp only at h
    split_ifs at h with howed
    exact ⟨order, i, horder, by omega, (Option.some.inj h).symm⟩
  · rintro ⟨order, i, horder, hshort, rfl⟩
    refine ⟨(order, i), horder, ?_⟩
    dsimp only
    rw [if_neg (by omega)]

theorem totalShortfall_filterMap (settlement : Settlement) {orders : List ((Line × ℤ) × ℕ)}
    (h : ∀ order ∈ orders, order.1.1.amount ≤ order.1.2) :
    totalShortfall (orders.filterMap (shortfallOf settlement)) =
      (orders.map fun order => order.1.2 - order.1.1.amount).sum := by
  induction orders with
  | nil => rfl
  | cons order orders ih =>
    have hle := h order mem_cons_self
    have hrest := ih fun other hother => h other (mem_cons_of_mem _ hother)
    rw [filterMap_cons, map_cons, sum_cons, ← hrest]
    unfold shortfallOf
    dsimp only
    split_ifs with howed
    · have hzero : order.1.2 - order.1.1.amount = 0 := by omega
      rw [hzero, zero_add]
    · rfl

variable {figure : Option ℤ} {shortfalls : List DeductionShortfall}

theorem stamp_eq_of_forall {name : String}
    (h : ∀ entry ∈ shortfalls, "PROT_SHORT:" ++ entry.key = name → some entry.shortfall = figure)
    {factors : String → Option ℤ} (hfactors : factors name = figure) :
    shortfalls.foldl (fun factors entry =>
      Function.update factors ("PROT_SHORT:" ++ entry.key) (some entry.shortfall)) factors name =
      figure := by
  induction shortfalls generalizing factors with
  | nil => exact hfactors
  | cons entry shortfalls ih =>
    rw [foldl_cons]
    refine ih (fun other hother => h other (mem_cons_of_mem _ hother)) ?_
    rcases eq_or_ne name ("PROT_SHORT:" ++ entry.key) with rfl | hne
    · rw [Function.update_self]
      exact h entry mem_cons_self rfl
    · rw [Function.update_of_ne hne]
      exact hfactors

theorem stamp_eq_of_mem {name : String}
    (h : ∀ entry ∈ shortfalls, "PROT_SHORT:" ++ entry.key = name → some entry.shortfall = figure)
    (hmem : ∃ entry ∈ shortfalls, "PROT_SHORT:" ++ entry.key = name)
    (factors : String → Option ℤ) :
    shortfalls.foldl (fun factors entry =>
      Function.update factors ("PROT_SHORT:" ++ entry.key) (some entry.shortfall)) factors name =
      figure := by
  induction shortfalls generalizing factors with
  | nil =>
    obtain ⟨entry, hentry, -⟩ := hmem
    cases hentry
  | cons entry shortfalls ih =>
    have hrest : ∀ other ∈ shortfalls, "PROT_SHORT:" ++ other.key = name →
        some other.shortfall = figure := fun other hother => h other (mem_cons_of_mem _ hother)
    rw [foldl_cons]
    by_cases hentry : "PROT_SHORT:" ++ entry.key = name
    · refine stamp_eq_of_forall hrest ?_
      rw [hentry, Function.update_self]
      exact h entry mem_cons_self hentry
    · obtain ⟨other, hother, hname⟩ := hmem
      refine ih hrest ⟨other, (mem_cons.mp hother).resolve_left ?_, hname⟩ _
      rintro rfl
      exact hentry hname

/-- **What is requested and not taken is what is reported.** -/
theorem reported (factors : String → Option ℤ)
    (h : ∀ order ∈ settlement.protectedLines.zip settlement.protectionRequested,
      order.1.amount ≤ order.2) : Reported factors settlement := by
  have hentry : ∀ order ∈ settlement.protectedLines.zip settlement.protectionRequested,
      order.1.amount < order.2 → ∃ shortfall ∈ protectionShortfalls settlement,
        shortfall.key = order.1.description ∧ shortfall.requested = order.2 ∧
          shortfall.applied = order.1.amount ∧
          shortfall.shortfall = order.2 - order.1.amount := by
    intro order horder hshort
    obtain ⟨i, hi⟩ := exists_mem_zipIdx horder
    exact ⟨_, mem_protectionShortfalls.mpr ⟨order, i, hi, hshort, rfl⟩, rfl, rfl, rfl, rfl⟩
  have hstamped : ∀ order ∈ settlement.protectedLines.zip settlement.protectionRequested,
      order.1.amount < order.2 → 0 < (protectionShortfalls settlement).length := by
    intro order horder hshort
    obtain ⟨shortfall, hshortfall, -⟩ := hentry order horder hshort
    exact length_pos_of_mem hshortfall
  refine ⟨hentry, ?_, ?_⟩
  · rintro ⟨order, horder, hshort⟩
    have htotal : totalShortfall (protectionShortfalls settlement) =
        ((settlement.protectedLines.zip settlement.protectionRequested).map fun order =>
          order.2 - order.1.amount).sum := by
      refine (totalShortfall_filterMap settlement fun order horder => ?_).trans ?_
      · exact h order.1 (fst_mem_of_mem_zipIdx horder)
      · exact congrArg List.sum
          (ListSum.map_zipIdx_fst (fun order : Line × ℤ => order.2 - order.1.amount) _)
    unfold recordProtectionShortfalls
    rw [if_pos (hstamped order horder hshort), ← htotal]
    refine stamp_eq_of_forall (fun entry _ hname => ?_) (Function.update_self _ _ _)
    -- the total's name is shorter than any order's
    have hlength := congrArg String.length hname
    rw [String.length_append] at hlength
    have hlong : "PROT_SHORT".length < "PROT_SHORT:".length := by decide
    omega
  · intro order horder hshort hagree
    unfold recordProtectionShortfalls
    rw [if_pos (hstamped order horder hshort)]
    refine stamp_eq_of_mem (fun entry hmem hname => ?_) ?_ _
    · obtain ⟨other, i, hother, hshort', rfl⟩ := mem_protectionShortfalls.mp hmem
      rw [hagree other (fst_mem_of_mem_zipIdx hother) hshort' (by simpa using hname)]
    · obtain ⟨shortfall, hshortfall, hkey, -⟩ := hentry order horder hshort
      exact ⟨shortfall, hshortfall, by rw [hkey]⟩

end Report

/-! ### No order takes more than it is allowed -/

/-- One more pass over the final lines allows every order what it takes. -/
def AllowedAgain (run : ProtectionRun) (settlement : Settlement) : Prop :=
  ∃ again, protectionPass run settlement.protectionRequested settlement.protectedLines
      settlement.others = .ok again ∧
    ∀ i line, settlement.protectedLines[i]? = some line →
      ∃ allowed, amountAt (entriesOf again) i = some allowed ∧ line.amount ≤ allowed

/-- **A settlement never over-takes**: what its orders take, one more pass allows; it lies between
nothing and what they asked for; and what is missing is reported. -/
structure NeverOverTakes (run : ProtectionRun) (factors : String → Option ℤ)
    (settlement : Settlement) : Prop where
  allowed : AllowedAgain run settlement
  within : List.Forall₂ (fun original line => 0 ≤ line.amount ∧ line.amount ≤ original.amount)
    run.protectedLines settlement.protectedLines
  requested : settlement.protectionRequested = run.protectionRequested
  reported : Reported factors settlement

section Settled

variable {run : ProtectionRun} {entries : List SettledAmount} {again : ProtectionResult}
  {settlement : Settlement}

section

variable (h : Takes run entries again settlement)

include h

/-- A line of a settlement takes the amount under its position. -/
theorem Takes.getElem? (i : ℕ) :
    settlement.protectedLines[i]? = run.protectedLines[i]?.map fun line =>
      { line with amount := (amountAt entries i).getD line.amount } := by
  rw [h.lines, getElem?_applyPass h.covers.nodup]

/-- The lines of a settlement take amounts that one more pass allows just when the amounts are
under those of the pass. -/
theorem Takes.allowedAgain_iff :
    AllowedAgain run settlement ↔
      ∀ i taken allowed, amountAt entries i = some taken →
        amountAt (entriesOf again) i = some allowed → taken ≤ allowed := by
  have hagain : protectionPass run settlement.protectionRequested settlement.protectedLines
      settlement.others = .ok again := by
    rw [h.requested, h.lines,
      protectionPass_applyPass ProtectionRun.kind_protectedLines h.covers.nodup, h.again]
  have hcovers := entriesOf_covers ProtectionRun.length_protectionRequested h.again
  constructor
  · rintro ⟨again', hagain', hallowed⟩ i taken allowed htaken hamount
    rw [hagain] at hagain'
    obtain rfl := Except.ok.inj hagain'
    have hi : i < run.protectedLines.length :=
      h.covers.key_lt ((amountAt_eq_some_iff h.covers.nodup).mp htaken)
    obtain ⟨allowed', hamount', hle⟩ := hallowed i _ (by
      rw [h.getElem?, getElem?_eq_getElem hi]
      rfl)
    obtain rfl : allowed = allowed' := Option.some.inj (hamount.symm.trans hamount')
    simpa [htaken] using hle
  · refine fun hallowed => ⟨again, hagain, fun i line hline => ?_⟩
    rw [h.getElem?] at hline
    obtain ⟨original, horiginal, rfl⟩ := Option.map_eq_some_iff.mp hline
    have hi := (List.getElem?_eq_some_iff.mp horiginal).1
    obtain ⟨taken, htaken⟩ := h.covers.exists_amountAt hi
    obtain ⟨allowed, hamount⟩ := hcovers.exists_amountAt hi
    exact ⟨allowed, hamount, by simpa [htaken] using hallowed i taken allowed htaken hamount⟩

theorem Takes.within_requests :
    List.Forall₂ (fun original line => 0 ≤ line.amount ∧ line.amount ≤ original.amount)
      run.protectedLines settlement.protectedLines := by
  have hlength : run.protectedLines.length = settlement.protectedLines.length := by
    rw [h.lines, length_applyPass]
  refine forall₂_iff_get.mpr ⟨hlength, fun i hi hi' => ?_⟩
  obtain ⟨taken, htaken⟩ := h.covers.exists_amountAt hi
  obtain ⟨hnonneg, r, hr, hle⟩ := h.within i taken htaken
  rw [ProtectionRun.protectionRequested, getElem?_map, getElem?_eq_getElem hi,
    Option.map_some, Option.some.injEq] at hr
  have hline := h.getElem? i
  rw [getElem?_eq_getElem hi', getElem?_eq_getElem hi, htaken, Option.map_some,
    Option.some.injEq] at hline
  simp only [get_eq_getElem, hline, Option.getD_some, hr]
  exact ⟨hnonneg, hle⟩

/-- **All but the allowance holds of every settlement**, however it was reached. -/
theorem Takes.neverOverTakes_iff (factors : String → Option ℤ) :
    NeverOverTakes run factors settlement ↔ AllowedAgain run settlement := by
  refine ⟨NeverOverTakes.allowed, fun hallowed => ⟨hallowed, h.within_requests, h.requested,
    reported factors fun order horder => ?_⟩⟩
  obtain ⟨i, hi⟩ := mem_iff_getElem?.mp horder
  obtain ⟨hline, hrequest⟩ := getElem?_zip_eq_some.mp hi
  have hwithin := forall₂_iff_get.mp h.within_requests
  obtain ⟨hlength, hget⟩ := hwithin
  obtain ⟨hlt, hline⟩ := List.getElem?_eq_some_iff.mp hline
  have hle := (hget i (hlength ▸ hlt) hlt).2
  rw [h.requested, ProtectionRun.protectionRequested, getElem?_map,
    getElem?_eq_getElem (hlength ▸ hlt), Option.map_some, Option.some.injEq] at hrequest
  simp only [get_eq_getElem, hline] at hle
  exact hle.trans hrequest.le

end

theorem Confirmed.neverOverTakes (h : Confirmed run settlement) (factors : String → Option ℤ) :
    NeverOverTakes run factors settlement := by
  obtain ⟨again, htakes⟩ := h
  refine (htakes.neverOverTakes_iff factors).mpr (htakes.allowedAgain_iff.mpr ?_)
  intro i taken allowed htaken hallowed
  exact (Option.some.inj (htaken.symm.trans hallowed)).le

/-- **What a settlement of last resort takes**: the lower of the last two amounts, of which it is
within what one more pass allows that all depends. -/
theorem LastResort.spec (h : LastResort run settlement) (factors : String → Option ℤ) :
    ∃ previous others current others' settled again others'',
      run.passes (PROTECTION_MAX_PASSES - 1) = .ok (previous, others) ∧
      run.passes PROTECTION_MAX_PASSES = .ok (current, others') ∧
      Covers run.protectedLines.length settled ∧
      (∀ i taken, amountAt settled i = some taken → ∃ before after,
        amountAt previous i = some before ∧ amountAt current i = some after ∧
          taken = min before after) ∧
      onePass run (applyPass settled run.protectedLines) others' = .ok (again, others'') ∧
      (NeverOverTakes run factors settlement ↔ AtMost settled (entriesOf again)) := by
  obtain ⟨previous, others, current, others', settled, again, others'', hprevious, hcurrent,
    hsettled, hagain, rfl⟩ := h
  have hcovers := settled_covers (ProtectionRun.passes_covers hcurrent) hsettled
  have hlower : ∀ i taken, amountAt settled i = some taken → ∃ before after,
      amountAt previous i = some before ∧ amountAt current i = some after ∧
        taken = min before after := by
    intro i amount hamount
    obtain ⟨entry, hentry, hsettle⟩ := ListSum.exists_left_of_forall₂ (settled_forall₂ hsettled)
      ((amountAt_eq_some_iff hcovers.nodup).mp hamount)
    obtain ⟨hkey, before, hbefore, hmin⟩ := settleEntry_eq_some hsettle
    dsimp only at hkey hmin
    subst hkey
    exact ⟨before, entry.amount, hbefore,
      (amountAt_eq_some_iff (ProtectionRun.passes_covers hcurrent).nodup).mpr hentry, hmin⟩
  have htakes : Takes run settled again ⟨some again, applyPass settled run.protectedLines, others'',
      run.protectionRequested⟩ := by
    refine ⟨rfl, rfl, hcovers, fun i amount hamount => ?_,
      (ProtectionRun.onePass_applyPass hcovers hagain).1⟩
    obtain ⟨before, after, hbefore, hafter, rfl⟩ := hlower i amount hamount
    obtain ⟨hnonneg, -⟩ := ProtectionRun.passes_succ_within hprevious hbefore
    obtain ⟨hnonneg', r, hr, hle⟩ := ProtectionRun.passes_succ_within hcurrent hafter
    exact ⟨le_min hnonneg hnonneg', r, hr, (min_le_right _ _).trans hle⟩
  exact ⟨previous, others, current, others', settled, again, others'', hprevious, hcurrent, hcovers,
    hlower, hagain, (htakes.neverOverTakes_iff factors).trans htakes.allowedAgain_iff⟩

/-- **The last resort over-takes nothing where the statutory pass gives way**: what the last pass
allowed, the one on the lower amounts allows too. -/
theorem LastResort.neverOverTakes (h : LastResort run settlement) (hgives : run.GivesWay)
    (factors : String → Option ℤ) : NeverOverTakes run factors settlement := by
  obtain ⟨previous, others, current, others', settled, again, others'', hprevious, hcurrent, hcovers,
    hlower, hagain, hiff⟩ := h.spec factors
  obtain ⟨first, hfirst, rfl⟩ := ProtectionRun.onePass_of_passes_succ hprevious hcurrent
  refine hiff.mpr fun i taken allowed htaken hallowed => ?_
  obtain ⟨before, after, hbefore, hafter, rfl⟩ := hlower i taken htaken
  refine (min_le_right _ _).trans (hgives _ _ _ _ _ _ _ (ProtectionRun.passes_covers hprevious)
    hcovers (fun k less more hless hmore => ?_) hfirst hagain i after allowed hafter hallowed)
  obtain ⟨before', after', hbefore', -, rfl⟩ := hlower k less hless
  exact (min_le_left _ _).trans (Option.some.inj (hbefore'.symm.trans hmore)).le

/-- **Where the statutory pass takes away, the last resort over-takes** unless one pass more
stands still: the lower amounts are those of the last pass, and what it leads to is the next. -/
theorem LastResort.neverOverTakes_iff (h : LastResort run settlement) (htakes : run.TakesAway)
    (factors : String → Option ℤ) :
    NeverOverTakes run factors settlement ↔ run.FixedAt PROTECTION_MAX_PASSES := by
  obtain ⟨previous, others, current, others', settled, again, others'', hprevious, hcurrent, hcovers,
    hlower, hagain, hiff⟩ := h.spec factors
  have hcurrentCovers := ProtectionRun.passes_covers hcurrent
  have hsame : ∀ i taken, amountAt settled i = some taken → amountAt current i = some taken := by
    intro i taken htaken
    obtain ⟨before, after, hbefore, hafter, rfl⟩ := hlower i taken htaken
    rw [hafter, min_eq_right (htakes.passes_succ_atMost hprevious hcurrent i _ _ hafter hbefore)]
  have happly : applyPass settled run.protectedLines = applyPass current run.protectedLines := by
    refine ext_getElem? fun i => ?_
    rw [getElem?_applyPass hcovers.nodup, getElem?_applyPass hcurrentCovers.nodup]
    cases hline : run.protectedLines[i]? with
    | none => rfl
    | some line =>
      obtain ⟨taken, htaken⟩ := hcovers.exists_amountAt (List.getElem?_eq_some_iff.mp hline).1
      rw [htaken, hsame i taken htaken]
  have hnine : run.passes (PROTECTION_MAX_PASSES + 1) = .ok (entriesOf again, others'') := by
    rw [ProtectionRun.passes, hcurrent, ok_bind]
    dsimp only
    rw [← happly, hagain]
    rfl
  have hagainCovers := ProtectionRun.passes_covers hnine
  rw [hiff]
  constructor
  · intro hallowed
    refine ⟨current, others', _, others'', hcurrent, hnine, ?_⟩
    simp only [protectionConverged, decide_eq_true_eq, all_eq_true]
    have hlength := hcurrentCovers.length_eq.trans hagainCovers.length_eq.symm
    refine ⟨by simpa using hlength, fun entry hentry => ?_⟩
    obtain ⟨taken, htaken⟩ := hcovers.exists_amountAt (hagainCovers.key_lt hentry)
    have hentry := (amountAt_eq_some_iff hagainCovers.nodup).mpr hentry
    have hafter := hsame _ taken htaken
    rw [hafter, (hallowed _ _ _ htaken hentry).antisymm
      (htakes.passes_succ_atMost hcurrent hnine _ _ _ hentry hafter)]
  · rintro ⟨current', after, next, last, hcurrent', hnext, hfixed⟩ i taken allowed htaken hallowed
    rw [hcurrent] at hcurrent'
    rw [hnine] at hnext
    obtain ⟨rfl, -⟩ := Prod.mk.inj (Except.ok.inj hcurrent')
    obtain ⟨rfl, -⟩ := Prod.mk.inj (Except.ok.inj hnext)
    simp only [protectionConverged, decide_eq_true_eq, all_eq_true] at hfixed
    have hstands := hfixed.2 _ ((amountAt_eq_some_iff hagainCovers.nodup).mp hallowed)
    exact (Option.some.inj ((hsame i taken htaken).symm.trans hstands)).le

theorem protectionPass_nil (run : ProtectionRun) (requested : List ℤ) (others : List Line) :
    protectionPass run requested [] others = .ok ⟨[], []⟩ := by
  have hbase := protectedBase_nonneg .netPay (baseLines [] others)
  have havailable : ∀ available : ℤ, ¬(if 0 < available then available else 0) < 0 := by
    intro available
    split_ifs <;> omega
  simp only [protectionPass, applyDeductionProtection, requireNonNegative, zip_nil_left,
    zipIdx_nil, map_nil, insertionSort_nil, foldlM_nil, bind_eq_ok,
    refuseIf_eq_ok, pure_eq_ok]
  exact ⟨_, ⟨(), not_lt.mpr hbase, rfl⟩, _, ⟨(), havailable _, rfl⟩, _, rfl, rfl⟩

/-- **How a settlement is reached**: it is confirmed by a pass, or it is of last resort. -/
theorem settleDeductionProtection_spec
    (h : settleDeductionProtection run = .ok settlement) :
    run.NoLastResort ∧ Confirmed run settlement ∨
      ¬run.NoLastResort ∧ LastResort run settlement := by
  unfold settleDeductionProtection at h
  split_ifs at h with hnone hiterates
  · refine Or.inl ⟨Or.inl hnone, ?_⟩
    obtain ⟨others, -, hsettlement⟩ := bind_eq_ok.mp h
    obtain rfl := pure_eq_ok.mp hsettlement
    have hrequested : run.protectionRequested = [] := by
      rw [ProtectionRun.protectionRequested, hnone, map_nil]
    have hpass : protectionPass run run.protectionRequested run.protectedLines others =
        .ok ⟨[], []⟩ := by
      rw [hnone]
      exact protectionPass_nil run _ others
    refine confirmed_of_pass hpass ?_ hrequested.symm
    rw [hnone]
    rfl
  · rcases settlePasses_spec rfl rfl (fun _ _ => rfl) h with
      ⟨⟨p, -, hlt, hfixed⟩, hconfirmed⟩ | ⟨hnot, hlast⟩
    · exact Or.inl ⟨Or.inr (Or.inr ⟨p, hlt, hfixed⟩), hconfirmed⟩
    · refine Or.inr ⟨?_, hlast⟩
      rintro (hempty | hdone | ⟨p, hlt, hfixed⟩)
      · exact hnone hempty
      · rw [hdone] at hiterates
        cases hiterates
      · exact hnot p (Nat.zero_le p) hlt hfixed
  · refine Or.inl ⟨Or.inr (Or.inl (by simpa using hiterates)), ?_⟩
    obtain ⟨⟨result, others⟩, hone, hsettlement⟩ := bind_eq_ok.mp h
    obtain rfl := pure_eq_ok.mp hsettlement
    simp only [onePass, bind_eq_ok, pure_eq_ok, Prod.mk.injEq] at hone
    obtain ⟨written, -, answered, hpass, rfl, rfl⟩ := hone
    exact confirmed_of_pass hpass rfl rfl

/-- **Garnishment settlement over-takes only in the last resort**, and not there where the
statutory pass gives way; where the pass takes away, just if a ninth pass moves the amounts. -/
theorem settleDeductionProtection_never_overtakes (factors : String → Option ℤ)
    (h : settleDeductionProtection run = .ok settlement) :
    (run.NoLastResort ∨ run.GivesWay → NeverOverTakes run factors settlement) ∧
      (run.TakesAway → (NeverOverTakes run factors settlement ↔
        run.NoLastResort ∨ run.FixedAt PROTECTION_MAX_PASSES)) := by
  rcases settleDeductionProtection_spec h with ⟨hno, hconfirmed⟩ | ⟨hresort, hlast⟩
  · have hnever := hconfirmed.neverOverTakes factors
    exact ⟨fun _ => hnever, fun _ => iff_of_true hnever (Or.inl hno)⟩
  · refine ⟨fun hor => hlast.neverOverTakes (hor.resolve_left hresort) factors, fun htakes => ?_⟩
    rw [hlast.neverOverTakes_iff htakes]
    exact ⟨Or.inr, fun hor => hor.resolve_left hresort⟩

end Settled

/-! ### An order that takes what it is allowed, and one that takes more -/

/-- A salary of 1000. -/
def salaryLine : Line :=
  ⟨.earning, "Salary", 10000000, true, false, false, none, .none, none, none, none⟩

/-- A support order for 500, which reduces what is taxed. -/
def supportLine : Line :=
  ⟨.deduction, "Support", 5000000, true, false, false, some "support", .netPay, some 1000000, none,
    none⟩

/-- A withholding. -/
def taxLine (amount : ℤ) : Line :=
  ⟨.deduction, "Tax", amount, true, false, false, none, .none, none, none, none⟩

/-- A run of a salary and a support order that reduces what is taxed. -/
def supportRun (pass : List Line → List Line → Except String (List Line)) : ProtectionRun :=
  ⟨[salaryLine, supportLine], 10000000, "Employee", [⟨"support", ["income"]⟩], fun _ => none, pass⟩

/-- A statutory pass that withholds 700 and leaves the order 300. -/
def steadyPass (_ others : List Line) : Except String (List Line) :=
  .ok ((others.filter fun line => line.description ≠ "Tax") ++ [taxLine 7000000])

/-- What the order is settled at: the second pass takes what the first left. -/
def steadySettlement : Settlement :=
  ⟨some ⟨[⟨0, 5000000, 3000000, 3000000⟩], [⟨0, 5000000, 3000000, 2000000, .protectedBase⟩]⟩,
    [{ supportLine with amount := 3000000 }], [salaryLine, taxLine 7000000], [5000000]⟩

theorem settleDeductionProtection_never_overtakes_steady :
    NeverOverTakes (supportRun steadyPass) (fun _ => none) steadySettlement :=
  (settleDeductionProtection_never_overtakes (fun _ => none) (by decide +kernel)).1
    (.inl (.inr (.inr ⟨1, by decide, [⟨0, 3000000⟩], [salaryLine, taxLine 7000000], [⟨0, 3000000⟩],
      [salaryLine, taxLine 7000000], by decide +kernel, by decide +kernel, by decide⟩)))

/-- A statutory pass that re-derives a withholding, and leaves a cent less than the orders take. -/
def slowPass (protectedLines others : List Line) : Except String (List Line) :=
  .ok ((others.filter fun line => line.description ≠ "Tax") ++
    [taxLine (10000000 - (protectedLines.map Line.amount).sum + 100)])

/-- The support order creeps down a cent a pass, and still does when the passes run out. -/
def slowRun : ProtectionRun := supportRun slowPass

/-- What the creeping order is settled at: 499.92, where 499.91 is allowed. -/
def slowSettlement : Settlement :=
  ⟨some ⟨[⟨0, 5000000, 4999100, 4999100⟩], [⟨0, 5000000, 4999100, 900, .protectedBase⟩]⟩,
    [{ supportLine with amount := 4999200 }], [salaryLine, taxLine 5000900], [5000000]⟩

theorem settleDeductionProtection_slowRun :
    settleDeductionProtection slowRun = .ok slowSettlement := by
  decide +kernel

/-- **An order can take more than it is allowed**: the last statutory pass is run on the lower
amounts, and the protection of what it leaves is not written. -/
theorem slowRun_overtakes :
    ¬∀ (run : ProtectionRun) (factors : String → Option ℤ) (settlement : Settlement),
      settleDeductionProtection run = .ok settlement → NeverOverTakes run factors settlement := by
  intro h
  obtain ⟨again, hagain, hallowed⟩ :=
    (h slowRun (fun _ => none) slowSettlement settleDeductionProtection_slowRun).allowed
  have hpass : protectionPass slowRun slowSettlement.protectionRequested
      slowSettlement.protectedLines slowSettlement.others =
        .ok ⟨[⟨0, 5000000, 4999100, 4999100⟩], [⟨0, 5000000, 4999100, 900, .protectedBase⟩]⟩ := by
    decide +kernel
  rw [hpass] at hagain
  obtain rfl := Except.ok.inj hagain
  obtain ⟨allowed, hamount, hle⟩ := hallowed 0 { supportLine with amount := 4999200 } rfl
  obtain rfl : 4999100 = allowed := Option.some.inj hamount
  exact absurd hle (by decide)

end OpenBooks.DeductionProtection
