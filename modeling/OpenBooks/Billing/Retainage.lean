import OpenBooks.Lib.Checked
import OpenBooks.Money.Units

/-!
# Retainage of progress draws

Of each line of a draw a share is held back. The share is exact to a ten-thousandth, but what
is settled is in whole minor units of the currency: a line gets the change of the rounded
running total, and a draw starts from the totals of the draws before it, replayed. So what a
line gets depends on the lines before it and not on how they fall into draws
(`Retainage.settledLines_append`), and the settled total is the rounded one
(`Retainage.sum_settledLines`).
-/

namespace OpenBooks.Retainage

open Checked List

/-! ### Settlement -/

/-- Round a payable amount to its registered currency exponent, half away from zero. -/
def roundCurrencyMoney (amount : ℤ) (minorUnits : ℕ) : ℤ :=
  let rounded := roundDiv (if amount < 0 then -amount else amount) (quantum minorUnits) *
    quantum minorUnits
  if amount < 0 then -rounded else rounded

/-- One amount settled, with the running totals, exact and rounded. -/
def settleOne (minorUnits : ℕ) (running : ℤ × ℤ) (exact : ℤ) : ℤ × ℤ × ℤ :=
  let exactRunning := running.1 + exact
  let target := roundCurrencyMoney exactRunning minorUnits
  (target - running.2, exactRunning, target)

def settleAll (minorUnits : ℕ) : ℤ × ℤ → List ℤ → List ℤ
  | _, [] => []
  | running, exact :: rest =>
    let (settled, running) := settleOne minorUnits running exact
    settled :: settleAll minorUnits running rest

def settleCumulativeRetainage (priorExact currentExact : List ℤ) (minorUnits : ℤ) :
    Except String (List ℤ) := do
  refuseIf (minorUnits < 0 ∨ 4 < minorUnits)
    "Currency minor units must be an integer between zero and four"
  let running := priorExact.foldl (fun running exact =>
    (settleOne minorUnits.toNat running exact).2) (0, 0)
  return settleAll minorUnits.toNat running currentExact

/-! ### Applications for payment -/

structure AppLineInput where
  sovLineId : String
  scheduledValue : ℤ
  previousCompleted : ℤ
  previousMaterialsStored : ℤ
  thisPeriodCompleted : ℤ
  materialsStored : ℤ
  retainagePercent : ℤ

/-- Work of the period and the increase of the stored materials. -/
def AppLineInput.gross (l : AppLineInput) : ℤ :=
  l.thisPeriodCompleted + (l.materialsStored - l.previousMaterialsStored)

def AppLineInput.exactRetainage (l : AppLineInput) : ℤ :=
  if 0 < l.retainagePercent then mulPercent l.gross ⟨l.retainagePercent, 4, four_places_le⟩ 4 else 0

structure ExactLine where
  sovLineId : String
  grossThisPeriod : ℤ
  exactRetainage : ℤ
  completedToDate : ℤ
  percentComplete : String

def exactLine (l : AppLineInput) : Except String ExactLine := do
  refuseIf (∃ value ∈ [l.scheduledValue, l.previousCompleted, l.previousMaterialsStored,
    l.thisPeriodCompleted, l.materialsStored], value < 0)
    "Schedule values and application amounts cannot be negative"
  refuseIf (l.retainagePercent < 0 ∨ 100 * SCALE < l.retainagePercent)
    "Retainage percent must be between 0 and 100"
  refuseIf (l.materialsStored < l.previousMaterialsStored)
    ("Materials stored cannot fall below the balance prior applications billed — stored " ++
      "materials have left the site; handle the reduction through a credit or adjusting entry")
  let completedToDate := l.previousCompleted + l.gross
  refuseIf (l.scheduledValue < completedToDate) "Application amount exceeds the scheduled value"
  let percent :=
    if 0 < l.scheduledValue ∧ 0 ≤ completedToDate then
      formatMoney (mulRatio (100 * SCALE) completedToDate l.scheduledValue) 2
    else "0.00"
  return ⟨l.sovLineId, l.gross, l.exactRetainage, completedToDate, percent⟩

structure ComputedAppLine where
  sovLineId : String
  grossThisPeriod : ℤ
  retainageThisPeriod : ℤ
  netThisPeriod : ℤ
  completedToDate : ℤ
  percentComplete : String

structure ComputedApplication where
  lines : List ComputedAppLine
  grossThisPeriod : ℤ
  retainageThisPeriod : ℤ
  currentDue : ℤ

def computedLine (e : ExactLine) (settled : ℤ) : ComputedAppLine :=
  ⟨e.sovLineId, e.grossThisPeriod, settled, e.grossThisPeriod - settled, e.completedToDate,
    e.percentComplete⟩

def totalled (computed : List ComputedAppLine) : ComputedApplication :=
  let gross := (computed.map ComputedAppLine.grossThisPeriod).sum
  let retainage := (computed.map ComputedAppLine.retainageThisPeriod).sum
  ⟨computed, gross, retainage, gross - retainage⟩

structure RetainageSettlement where
  minorUnits : ℤ := 4
  priorExactRetainage : List ℤ := []

def computeApplication (lines : List AppLineInput) (settlement : RetainageSettlement) :
    Except String ComputedApplication := do
  let exacts ← lines.mapM exactLine
  let settled ← settleCumulativeRetainage settlement.priorExactRetainage
    (exacts.map ExactLine.exactRetainage) settlement.minorUnits
  return totalled (exacts.zipWith computedLine settled)

/-- The draws of a project in order, each replaying the lines of those before it. -/
def billDraws (minorUnits : ℤ) (prior : List ℤ) :
    List (List AppLineInput) → Except String (List ComputedApplication)
  | [] => return []
  | lines :: draws => do
    let app ← computeApplication lines ⟨minorUnits, prior⟩
    let apps ← billDraws minorUnits (prior ++ lines.map AppLineInput.exactRetainage) draws
    return app :: apps

/-! ### The rounded running total -/

section Rounding

variable {minorUnits : ℕ} {amount more : ℤ}

theorem roundCurrencyMoney_of_nonneg (h : 0 ≤ amount) :
    roundCurrencyMoney amount minorUnits =
      HalfAway.round amount (quantum minorUnits) * quantum minorUnits := by
  rw [roundCurrencyMoney, if_neg (not_lt.mpr h), if_neg (not_lt.mpr h), roundDiv_eq_round]

theorem roundCurrencyMoney_zero : roundCurrencyMoney 0 minorUnits = 0 := by
  rw [roundCurrencyMoney_of_nonneg le_rfl, HalfAway.round_zero (quantum_pos _), zero_mul]

theorem dvd_roundCurrencyMoney (h : 0 ≤ amount) :
    quantum minorUnits ∣ roundCurrencyMoney amount minorUnits := by
  rw [roundCurrencyMoney_of_nonneg h]
  exact Int.dvd_mul_left _ _

theorem roundCurrencyMoney_mono (h : 0 ≤ amount) (hle : amount ≤ more) :
    roundCurrencyMoney amount minorUnits ≤ roundCurrencyMoney more minorUnits := by
  rw [roundCurrencyMoney_of_nonneg h, roundCurrencyMoney_of_nonneg (h.trans hle)]
  exact mul_le_mul_of_nonneg_right (HalfAway.round_mono (quantum_pos _) hle) (quantum_pos _).le

/-- Whole minor units pass through the rounding. -/
theorem roundCurrencyMoney_add (h : 0 ≤ amount) (hmore : 0 ≤ more)
    (hwhole : quantum minorUnits ∣ more) :
    roundCurrencyMoney (amount + more) minorUnits =
      roundCurrencyMoney amount minorUnits + more := by
  obtain ⟨k, rfl⟩ := hwhole
  rw [mul_comm] at hmore ⊢
  rw [roundCurrencyMoney_of_nonneg h, roundCurrencyMoney_of_nonneg (add_nonneg h hmore),
    HalfAway.round_add_mul_of_nonneg (quantum_pos _) h (add_nonneg h hmore), add_mul]

end Rounding

/-! ### Settled lines -/

/-- A line accepted, as far as its settlement goes: its retainage lies within its gross. -/
theorem exactLine_ok {l : AppLineInput} {e : ExactLine} (h : exactLine l = .ok e) :
    e.exactRetainage = l.exactRetainage ∧ 0 ≤ e.exactRetainage ∧
      e.exactRetainage ≤ e.grossThisPeriod := by
  simp only [exactLine, bind_eq_ok, refuseIf_eq_ok, pure_eq_ok, mem_cons, not_mem_nil,
    not_exists, not_and, not_lt, not_or] at h
  obtain ⟨-, hvalues, -, ⟨-, hpercent⟩, -, hstored, -, -, rfl⟩ := h
  have hgross : 0 ≤ l.gross := by
    have := hvalues l.thisPeriodCompleted (by simp)
    unfold AppLineInput.gross
    omega
  refine ⟨rfl, ?_⟩
  dsimp only [AppLineInput.exactRetainage]
  split_ifs with hpositive
  · have hden : (0 : ℤ) < 100 * SCALE := by decide
    rw [mulPercent, show quantum 4 = 1 from rfl, mul_one, mul_one, roundDiv_eq_round]
    exact ⟨HalfAway.round_nonneg hden (mul_nonneg hgross hpositive.le),
      HalfAway.round_le_of_le_mul hden (mul_le_mul_of_nonneg_left hpercent hgross)⟩
  · exact ⟨le_rfl, hgross⟩

/-- Lines settled after an exact running total. -/
def settledLines (minorUnits : ℕ) : ℤ → List ExactLine → List ComputedAppLine
  | _, [] => []
  | total, e :: rest =>
    computedLine e (roundCurrencyMoney (total + e.exactRetainage) minorUnits -
      roundCurrencyMoney total minorUnits) ::
      settledLines minorUnits (total + e.exactRetainage) rest

section Settled

variable {minorUnits : ℕ} {total : ℤ} {exacts : List ExactLine}

def totalExact (exacts : List ExactLine) : ℤ := (exacts.map ExactLine.exactRetainage).sum

/-- **Settled lines do not see how they are grouped.** -/
theorem settledLines_append (more : List ExactLine) :
    settledLines minorUnits total (exacts ++ more) =
      settledLines minorUnits total exacts ++
        settledLines minorUnits (total + totalExact exacts) more := by
  induction exacts generalizing total with
  | nil => simp [settledLines, totalExact]
  | cons e exacts ih =>
    rw [cons_append, settledLines, ih, settledLines, cons_append, totalExact,
      totalExact, map_cons, sum_cons, add_assoc]

/-- **The settled total is the change of the rounded total.** -/
theorem sum_settledLines :
    ((settledLines minorUnits total exacts).map ComputedAppLine.retainageThisPeriod).sum =
      roundCurrencyMoney (total + totalExact exacts) minorUnits -
        roundCurrencyMoney total minorUnits := by
  induction exacts generalizing total with
  | nil => simp [settledLines, totalExact]
  | cons e exacts ih =>
    simp only [settledLines, map_cons, sum_cons, ih, computedLine, totalExact, add_assoc]
    ring

theorem settledLines_bounds (htotal : 0 ≤ total)
    (hexacts : ∀ e ∈ exacts, 0 ≤ e.exactRetainage ∧ e.exactRetainage ≤ e.grossThisPeriod) :
    ∀ line ∈ settledLines minorUnits total exacts,
      0 ≤ line.retainageThisPeriod ∧ quantum minorUnits ∣ line.retainageThisPeriod ∧
      line.netThisPeriod = line.grossThisPeriod - line.retainageThisPeriod ∧
      (quantum minorUnits ∣ line.grossThisPeriod →
        line.retainageThisPeriod ≤ line.grossThisPeriod) := by
  induction exacts generalizing total with
  | nil => simp [settledLines]
  | cons e exacts ih =>
    obtain ⟨⟨hnonneg, hgross⟩, hexacts⟩ := forall_mem_cons.mp hexacts
    refine forall_mem_cons.mpr ⟨⟨?_, ?_, rfl, fun hwhole => ?_⟩,
      ih (add_nonneg htotal hnonneg) hexacts⟩
    · exact sub_nonneg.mpr (roundCurrencyMoney_mono htotal (le_add_of_nonneg_right hnonneg))
    · exact Int.dvd_sub (dvd_roundCurrencyMoney (add_nonneg htotal hnonneg))
        (dvd_roundCurrencyMoney htotal)
    · -- the rounding of the total is at most that of the total and the gross
      exact sub_le_iff_le_add'.mpr
        ((roundCurrencyMoney_mono (add_nonneg htotal hnonneg) (add_le_add_right hgross total)).trans_eq
          (roundCurrencyMoney_add htotal (hnonneg.trans hgross) hwhole))

theorem zipWith_settleAll :
    exacts.zipWith computedLine (settleAll minorUnits
        (total, roundCurrencyMoney total minorUnits) (exacts.map ExactLine.exactRetainage)) =
      settledLines minorUnits total exacts := by
  induction exacts generalizing total with
  | nil => rfl
  | cons e exacts ih => exact congrArg (_ :: ·) ih

theorem foldl_settleOne (prior : List ℤ) :
    prior.foldl (fun running exact => (settleOne minorUnits running exact).2)
        (total, roundCurrencyMoney total minorUnits) =
      (total + prior.sum, roundCurrencyMoney (total + prior.sum) minorUnits) := by
  induction prior generalizing total with
  | nil => simp
  | cons exact prior ih =>
    rw [sum_cons, ← add_assoc]
    exact ih

end Settled

/-! ### Draws -/

section Draws

variable {minorUnits : ℤ} {lines : List AppLineInput} {prior : List ℤ}

theorem computeApplication_eq_ok (hunits : 0 ≤ minorUnits ∧ minorUnits ≤ 4)
    {app : ComputedApplication} :
    computeApplication lines ⟨minorUnits, prior⟩ = .ok app ↔
      ∃ exacts, lines.mapM exactLine = .ok exacts ∧
        totalled (settledLines minorUnits.toNat prior.sum exacts) = app := by
  have hprior := @foldl_settleOne minorUnits.toNat 0 prior
  rw [roundCurrencyMoney_zero, zero_add] at hprior
  simp only [computeApplication, settleCumulativeRetainage, bind_eq_ok, refuseIf_eq_ok,
    pure_eq_ok, hprior]
  constructor
  · rintro ⟨exacts, hexacts, _, ⟨_, _, rfl⟩, rfl⟩
    exact ⟨exacts, hexacts, by rw [zipWith_settleAll]⟩
  · rintro ⟨exacts, hexacts, rfl⟩
    exact ⟨exacts, hexacts, _, ⟨(), by omega, rfl⟩, by rw [zipWith_settleAll]⟩

theorem totalExact_of_mapM {exacts : List ExactLine} (h : lines.mapM exactLine = .ok exacts) :
    totalExact exacts = (lines.map AppLineInput.exactRetainage).sum :=
  mapM_sum h ExactLine.exactRetainage AppLineInput.exactRetainage
    fun _ _ _ he => (exactLine_ok he).1

variable {draws : List (List AppLineInput)} {apps : List ComputedApplication}

/-- **A run of draws settles the lines of all of them in order.** -/
theorem billDraws_ok (hunits : 0 ≤ minorUnits ∧ minorUnits ≤ 4)
    (h : billDraws minorUnits prior draws = .ok apps) :
    ∃ exacts, draws.flatten.mapM exactLine = .ok exacts ∧
      apps.flatMap ComputedApplication.lines =
        settledLines minorUnits.toNat prior.sum exacts := by
  induction draws generalizing prior apps with
  | nil =>
    obtain rfl := pure_eq_ok.mp h
    exact ⟨[], rfl, rfl⟩
  | cons lines draws ih =>
    simp only [billDraws, bind_eq_ok, pure_eq_ok] at h
    obtain ⟨app, happ, apps, hrest, rfl⟩ := h
    obtain ⟨exacts, hexacts, rfl⟩ := (computeApplication_eq_ok hunits).mp happ
    obtain ⟨more, hmore, hlines⟩ := ih hrest
    refine ⟨exacts ++ more, ?_, ?_⟩
    · rw [flatten_cons, mapM_append]
      exact bind_eq_ok.mpr ⟨_, hexacts, bind_eq_ok.mpr ⟨_, hmore, rfl⟩⟩
    · rw [flatMap_cons, hlines, settledLines_append, totalExact_of_mapM hexacts,
        sum_append]
      rfl

theorem billDraws_take (h : billDraws minorUnits prior draws = .ok apps) (k : ℕ) :
    billDraws minorUnits prior (draws.take k) = .ok (apps.take k) := by
  induction draws generalizing prior apps k with
  | nil =>
    obtain rfl := pure_eq_ok.mp h
    simp [billDraws, pure, Except.pure]
  | cons lines draws ih =>
    cases k with
    | zero => rfl
    | succ k =>
      simp only [billDraws, bind_eq_ok, pure_eq_ok] at h
      obtain ⟨app, happ, apps, hrest, rfl⟩ := h
      exact bind_eq_ok.mpr ⟨app, happ, bind_eq_ok.mpr ⟨_, ih hrest k, rfl⟩⟩

/-- **Retainage dust never strands.** Every line is settled in whole minor units of the
currency and within a gross that is, what was settled is after each draw the rounded total,
and the draws settle their lines as one application would. -/
theorem billDraws_settle (hunits : 0 ≤ minorUnits ∧ minorUnits ≤ 4)
    {draws : List (List AppLineInput)} {apps : List ComputedApplication}
    (h : billDraws minorUnits [] draws = .ok apps) :
    (∀ line ∈ apps.flatMap ComputedApplication.lines,
      0 ≤ line.retainageThisPeriod ∧ quantum minorUnits.toNat ∣ line.retainageThisPeriod ∧
      line.netThisPeriod = line.grossThisPeriod - line.retainageThisPeriod ∧
      (quantum minorUnits.toNat ∣ line.grossThisPeriod →
        line.retainageThisPeriod ≤ line.grossThisPeriod)) ∧
    (∀ k, (((apps.take k).flatMap ComputedApplication.lines).map
        ComputedAppLine.retainageThisPeriod).sum =
      roundCurrencyMoney ((draws.take k).flatten.map AppLineInput.exactRetainage).sum
        minorUnits.toNat) ∧
    ∃ whole, computeApplication draws.flatten ⟨minorUnits, []⟩ = .ok whole ∧
      whole.lines = apps.flatMap ComputedApplication.lines := by
  obtain ⟨exacts, hexacts, hlines⟩ := billDraws_ok hunits h
  refine ⟨?_, fun k => ?_, _, (computeApplication_eq_ok hunits).mpr ⟨exacts, hexacts, rfl⟩,
    hlines.symm⟩
  · rw [hlines]
    exact settledLines_bounds le_rfl (forall_of_mapM hexacts fun _ _ he => (exactLine_ok he).2)
  · obtain ⟨some, hsome, htaken⟩ := billDraws_ok hunits (billDraws_take h k)
    rw [htaken, sum_settledLines, sum_nil, roundCurrencyMoney_zero, sub_zero, zero_add,
      totalExact_of_mapM hsome]

theorem billDraws_settle_two :
    let draw : List AppLineInput := [⟨"a", 1000 * SCALE, 0, 0, 100 * SCALE, 0, 4000⟩]
    ∃ apps, billDraws 0 [] [draw, draw] = .ok apps ∧
      apps.map ComputedApplication.retainageThisPeriod = [0, 10000] ∧
      ∃ whole, computeApplication (draw ++ draw) ⟨0, []⟩ = .ok whole ∧
        whole.lines = apps.flatMap ComputedApplication.lines := by
  intro draw
  exact ⟨_, rfl, by decide, (@billDraws_settle 0 (by decide) [draw, draw] _ rfl).2.2⟩

end Draws

end OpenBooks.Retainage
