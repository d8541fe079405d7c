import OpenBooks.Inventory.RoundedSqrt
import OpenBooks.Lib.Comparators
import OpenBooks.Lib.FirstSeen
import OpenBooks.Lib.ListSum
import OpenBooks.Lib.Returns
import OpenBooks.Money.Units
import OpenBooks.Platform.CivilDays
import Mathlib.Data.List.ReduceOption

/-!
# Demand forecasts

`DemandForecast.forecastDemand` fits four families of models to the weekly demand of an item and
forecasts with the one that scores least on the weeks held out. Quantities are in ten-thousandths,
and every product and quotient is rounded to one.

The models divide by running levels, indices and intervals, none of which is zero there, so a
forecast is refused for the calendar only.

The season that a forecast reports is read off the length of the history and not off the model. A
season of 52 weeks is fitted from 104 weeks on, and one of 13 competes at any length; where that one
wins a history of 78 weeks or more, the report is wrong
(`DemandForecast.forecastDemand_explains_iff`).
-/

namespace OpenBooks.DemandForecast

open Checked List

/-! ### Exact decimals -/

/-- Why a forecast is refused. -/
inductive ForecastError
  | horizon
  | noHistory
  | noMethod
  | divisionByZero (dividend : ℤ)
  | range (e : RangeError)
  deriving DecidableEq

/-- The text a refusal is shown with. -/
def ForecastError.message : ForecastError → String
  | .horizon => "forecast horizon must be from 1 to 52 weeks"
  | .noHistory => "a forecast needs at least one week of demand history"
  | .noMethod => "no forecast method fits this demand history"
  | .divisionByZero dividend => "cannot divide \"" ++ fromUnits dividend ++ "\" by zero"
  | .range e => e.message

def ONE : ℤ := 10000

/-- The divisor is read at ten decimals. -/
def div (a b : ℤ) : Except ForecastError ℤ :=
  let divisorUnits := |b| * 1000000
  if divisorUnits = 0 then .error (.divisionByZero a)
  else
    let quotient := roundDiv (a * RATE_SCALE) divisorUnits
    .ok (if b < 0 then -quotient else quotient)

/-- A whole number as a decimal. -/
def whole (n : ℕ) : ℤ := n * ONE

/-- The mean of a list, 0 of none. -/
def mean (values : List ℤ) : Except ForecastError ℤ :=
  if values.length = 0 then .ok 0 else div values.sum (whole values.length)

/-- The mean absolute error of a prediction. -/
def mae (actual predicted : List ℤ) : Except ForecastError ℤ :=
  if actual.length = 0 then .ok 0
  else mean (List.zipWith (fun value prediction => |value - prediction|) actual predicted)

/-- The standard deviation of a list about its mean. -/
def decimalStd (values : List ℤ) : Except ForecastError ℤ :=
  if values.length = 0 then .ok 0
  else do
    let center ← mean values
    let squared := values.map fun value => mul (value - center) (value - center)
    let scaled := roundDiv squared.sum values.length * SCALE
    return roundedSqrtUnits scaled.toNat

/-! ### History -/

/-- A week of history; in a stockout the demand was not met. -/
structure DemandWeek where
  weekStart : CivilDate
  quantity : ℤ
  stockout : Bool

/-- A promotion, with the days it runs on. -/
structure PromotionWindow where
  code : String
  startsOn : CivilDate
  endsOn : CivilDate

/-- The quantities of the nearest weeks that are not stockouts, at most two or a pair at one
distance beyond one. Weeks that are not stockouts keep the quantity they came with. -/
def neighbours (weeks : List DemandWeek) (index : ℕ) : List ℤ :=
  let clean := fun i => ((weeks[i]?).filter fun week => !week.stockout).toList.map
    DemandWeek.quantity
  (List.range' 1 (weeks.length - 1)).foldl (fun found distance =>
    if 2 ≤ found.length then found
    else found ++ (if distance ≤ index then clean (index - distance) else []) ++
      clean (index + distance)) []

/-- The demand with stockouts filled in, and the weeks filled. -/
def imputeStockouts (weeks : List DemandWeek) : Except ForecastError (List ℤ × List CivilDate) := do
  let corrected ← weeks.zipIdx.mapM fun p =>
    if p.1.stockout then mean (neighbours weeks p.2) else .ok p.1.quantity
  return (corrected, (weeks.filter DemandWeek.stockout).map DemandWeek.weekStart)

/-- The gaps between weeks of demand, the weeks since the last one, and how many there were. -/
def averageDemandInterval (quantities : List ℤ) : Except ForecastError ℤ :=
  let (gaps, _, seen) := quantities.foldl (fun (gaps, since, seen) quantity =>
    if quantity ≠ 0 then (if 0 < seen then gaps ++ [since + 1] else gaps, 0, seen + 1)
    else (gaps, since + 1, seen)) (([] : List ℕ), 0, 0)
  if quantities.length = 0 then .ok 0
  else if gaps.length = 0 then .ok (if seen ≤ 1 then whole quantities.length else ONE)
  else div (whole gaps.sum) (whole gaps.length)

/-- A share of zeros of at least 0.4, or an interval above 1.32. -/
def isIntermittentDemand (quantities : List ℤ) : Except ForecastError Bool :=
  if quantities.length = 0 then .ok false
  else if 2 * quantities.length ≤ 5 * (quantities.filter (· = 0)).length then .ok true
  else do
    let interval ← averageDemandInterval quantities
    return 13200 < interval

/-- Whether a promotion runs in some part of a week. -/
def promoted (windows : List PromotionWindow) (weekStart : CivilDate) :
    Except ForecastError Bool := do
  let weekEnd ← (shiftDays weekStart 6).mapError .range
  return windows.any fun window => weekStart ≤ window.endsOn ∧ window.startsOn ≤ weekEnd

/-- What promotions multiply demand by, or why that was not measured. -/
structure PromotionLift where
  code : Option String
  factor : Option ℤ
  ignoredReason : Option String
  deriving DecidableEq

/-- The lift of promotions: mean demand in promoted weeks over that in the others. -/
def measurePromotionLift (weekStarts : List CivilDate) (quantities : List ℤ)
    (windows : List PromotionWindow) : Except ForecastError PromotionLift := do
  if windows.length = 0 then return ⟨none, none, none⟩
  let overlapped ← weekStarts.mapM (promoted windows)
  let marked := quantities.zip overlapped
  let promo := (marked.filter Prod.snd).map Prod.fst
  let base := (marked.filter (!·.2)).map Prod.fst
  if promo.length < 2 ∨ base.length < 2 then
    return ⟨none, none, some "fewer than two promoted or unpromoted weeks"⟩
  let baseMean ← mean base
  if baseMean ≤ 0 then return ⟨none, none, some "no baseline demand outside promotions"⟩
  let codes := (windows.map PromotionWindow.code).eraseDups.insertionSort
    fun s t => Comparators.compareTexts s t ≤ 0
  let factor ← div (← mean promo) baseMean
  return ⟨some (",".intercalate codes), some factor, none⟩

/-- The demand without the lift of promotions. -/
def dePromote (weekStarts : List CivilDate) (corrected : List ℤ) (windows : List PromotionWindow)
    (lift : PromotionLift) : Except ForecastError (List ℤ) :=
  match lift.factor.filter (0 < ·) with
  | none => .ok corrected
  | some factor => (corrected.zip weekStarts).mapM fun p => do
    if ← promoted windows p.2 then div p.1 factor else return p.1

/-! ### Models -/

/-- The methods a forecast can come from. -/
inductive ForecastMethod
  | seasonalAdditive
  | seasonalMultiplicative
  | crostonSba
  | movingAverage
  deriving DecidableEq

/-- The place of a method's name in the collation. -/
def ForecastMethod.rank : ForecastMethod → ℕ
  | .crostonSba => 0
  | .movingAverage => 1
  | .seasonalAdditive => 2
  | .seasonalMultiplicative => 3

/-- Which of the methods may compete. -/
inductive ForecastMethodPreference
  | auto
  | seasonal
  | intermittent
  | average
  deriving DecidableEq

/-- What a fit forecasts from: a level, or a level with a trend and a season of so many weeks. -/
inductive Projection
  | flat (level : ℤ)
  | seasonal (seasonLength : ℕ) (multiplicative : Bool) (trained : ℕ) (level trend : ℤ)
      (season : List ℤ)

/-- A fitted model: what it gives for the weeks it has seen, and what it projects. -/
structure Fit where
  method : ForecastMethod
  fitted : List ℤ
  projection : Projection

/-- The weeks after those that were fitted. -/
def Fit.forecast (fit : Fit) (steps : ℕ) : List ℤ :=
  match fit.projection with
  | .flat level => List.replicate steps level
  | .seasonal seasonLength multiplicative trained level trend season =>
    (List.range steps).map fun step =>
      let anchor := level + mul trend (whole (step + 1))
      let index := season.getD ((trained + step) % seasonLength) 0
      if multiplicative then mul anchor index else anchor + index

/-- The season length a model was fitted with. -/
def Fit.seasonLength (fit : Fit) : Option ℕ :=
  match fit.projection with
  | .flat _ => none
  | .seasonal seasonLength _ _ _ _ _ => some seasonLength

/-- The mean of the last 13 weeks. -/
def fitMovingAverage (train : List ℤ) : Except ForecastError Fit := do
  let window := train.drop (train.length - min 13 train.length)
  let level ← mean (if window.length = 0 then [0] else window)
  return ⟨.movingAverage, train.map fun _ => level, .flat level⟩

/-- Level, trend and seasonal indices after some weeks, and what was fitted of them. -/
structure SeasonalState where
  level : ℤ
  trend : ℤ
  season : List ℤ
  fitted : List ℤ

/-- A quotient by what is positive, else what stands in for it. -/
def divIfPositive (a b other : ℤ) : Except ForecastError ℤ :=
  if 0 < b then div a b else .ok other

/-- The seasonal index of a week, smoothed by 0.3. -/
def nextIndex (multiplicative : Bool) (quantity nextLevel previous : ℤ) : Except ForecastError ℤ :=
  if multiplicative then
    if 0 < nextLevel then do
      let ratio ← div quantity nextLevel
      return mul 3000 ratio + mul (ONE - 3000) previous
    else .ok previous
  else .ok (mul 3000 (quantity - nextLevel) + mul (ONE - 3000) previous)

/-- One week of triple exponential smoothing. -/
def seasonalStep (seasonLength : ℕ) (multiplicative : Bool) (state : SeasonalState) (p : ℤ × ℕ) :
    Except ForecastError SeasonalState := do
  let seasonalIndex := p.2 % seasonLength
  let previous := state.season.getD seasonalIndex 0
  let deseasonalized ← (if multiplicative then divIfPositive p.1 previous p.1
    else .ok (p.1 - previous))
  let nextLevel := mul 3000 deseasonalized + mul (ONE - 3000) (state.level + state.trend)
  let nextTrend := mul 1000 (nextLevel - state.level) + mul (ONE - 1000) state.trend
  let nextSeasonal ← nextIndex multiplicative p.1 nextLevel previous
  let fitted := if multiplicative then mul (state.level + state.trend) previous
    else state.level + state.trend + previous
  return ⟨nextLevel, nextTrend, state.season.set seasonalIndex nextSeasonal,
    state.fitted ++ [fitted]⟩

/-- The name of a seasonal model. -/
def seasonalMethod (multiplicative : Bool) : ForecastMethod :=
  if multiplicative then .seasonalMultiplicative else .seasonalAdditive

/-- Triple exponential smoothing, started from two whole seasons. -/
def fitSeasonal (seasonLength : ℕ) (multiplicative : Bool) (train : List ℤ) :
    Except ForecastError (Option Fit) := do
  if train.length < seasonLength * 2 then return none
  if multiplicative ∧ train.any (· ≤ 0) then return none
  let first := train.take seasonLength
  let second := (train.drop seasonLength).take seasonLength
  let level0 ← mean first
  let trend0 ← div ((← mean second) - level0) (whole seasonLength)
  let seasonal ← first.mapM fun quantity =>
    if multiplicative then divIfPositive quantity level0 ONE else .ok (quantity - level0)
  let final ← train.zipIdx.foldlM (seasonalStep seasonLength multiplicative)
    ⟨level0, trend0, seasonal, []⟩
  return some ⟨seasonalMethod multiplicative, final.fitted,
    .seasonal seasonLength multiplicative train.length final.level final.trend final.season⟩

/-- Size and interval of demand, and the weeks since the last. -/
structure CrostonState where
  size : ℤ
  interval : ℤ
  since : ℕ
  fitted : List ℤ

/-- The rate less the bias: one less half of 0.2. -/
def crostonRate (size interval : ℤ) : Except ForecastError ℤ := do
  let rate := mul size (← div ONE interval)
  return mul rate (ONE - (← div 2000 (whole 2)))

/-- One week: size and interval are smoothed when there is demand. -/
def crostonStep (state : CrostonState) (quantity : ℤ) : Except ForecastError CrostonState := do
  let since := state.since + 1
  let fitted ← crostonRate state.size state.interval
  if 0 < quantity then
    return ⟨mul 2000 quantity + mul (ONE - 2000) state.size,
      mul 2000 (whole since) + mul (ONE - 2000) state.interval, 0, state.fitted ++ [fitted]⟩
  else return ⟨state.size, state.interval, since, state.fitted ++ [fitted]⟩

/-- The rate of intermittent demand, with the bias corrected. -/
def fitCrostonSba (train : List ℤ) : Except ForecastError Fit :=
  match train.filter (0 < ·) with
  | [] => .ok ⟨.crostonSba, train.map fun _ => 0, .flat 0⟩
  | size :: rest => do
    let interval ← div (whole train.length) (whole (rest.length + 1))
    let final ← train.foldlM crostonStep ⟨size, interval, 0, []⟩
    let level ← crostonRate final.size final.interval
    return ⟨.crostonSba, final.fitted, .flat level⟩

/-! ### Selection -/

/-- A model that may be fitted. -/
inductive Candidate
  | seasonal (seasonLength : ℕ) (multiplicative : Bool)
  | crostonSba
  | movingAverage

/-- A model trained on a history, if the history is long enough for it. -/
def Candidate.fit : Candidate → List ℤ → Except ForecastError (Option Fit)
  | .seasonal seasonLength multiplicative, train => fitSeasonal seasonLength multiplicative train
  | .crostonSba, train => some <$> fitCrostonSba train
  | .movingAverage, train => some <$> fitMovingAverage train

def seasonal132 : List Candidate := [.seasonal 13 false, .seasonal 13 true]

def seasonal522 : List Candidate := [.seasonal 52 false, .seasonal 52 true]

/-- The models a preference admits, as far as the history is long enough. -/
def candidateFits (historyWeeks : ℕ) : ForecastMethodPreference → List Candidate
  | .average => [.movingAverage]
  | .intermittent => [.crostonSba, .movingAverage]
  | .seasonal => seasonal522 ++ seasonal132 ++ [.movingAverage]
  | .auto => (if 78 ≤ historyWeeks then seasonal522 else []) ++
      (if 26 ≤ historyWeeks then seasonal132 else []) ++ [.crostonSba, .movingAverage]

/-- The error of a model on weeks that were kept from it. -/
def holdoutMae (corrected : List ℤ) (holdoutWeeks : ℕ) (candidate : Candidate) :
    Except ForecastError (Option ℤ) := do
  if corrected.length ≤ holdoutWeeks then return none
  let train := corrected.take (corrected.length - holdoutWeeks)
  let holdout := corrected.drop (corrected.length - holdoutWeeks)
  match ← candidate.fit train with
  | none => return none
  | some fitted => some <$> mae holdout (fitted.forecast holdout.length)

/-- A fit and its error. -/
structure Scored where
  fit : Fit
  score : ℤ

/-- How many weeks are held out. -/
def holdoutWeeksOf (historyWeeks : ℕ) : ℕ :=
  if 8 ≤ historyWeeks then min 13 (max 4 (historyWeeks / 4)) else 0

/-- A candidate on the whole history, with its score on the weeks held out. -/
def scoreCandidate (history : List ℤ) (candidate : Candidate) :
    Except ForecastError (Option Scored) := do
  match ← candidate.fit history with
  | none => return none
  | some probe =>
    let holdoutWeeks := holdoutWeeksOf history.length
    let held ← (if 0 < holdoutWeeks then holdoutMae history holdoutWeeks candidate else .ok none)
    let score ← held.elim (mae history probe.fitted) .ok
    return some ⟨probe, score⟩

/-- A smaller score first; at the same score the method whose name comes first. -/
def Scored.before (a b : Scored) : Prop :=
  a.score < b.score ∨ a.score = b.score ∧ a.fit.method.rank ≤ b.fit.method.rank

instance : DecidableRel Scored.before := fun _ _ => inferInstanceAs (Decidable (_ ∨ _))

/-- The models that can be fitted, with their scores. -/
def scoreCandidates (preference : ForecastMethodPreference) (history : List ℤ) :
    Except ForecastError (List Scored) := do
  let scored ← (candidateFits history.length preference).mapM (scoreCandidate history)
  return scored.reduceOption

/-- The winner of the race, unless the demand is intermittent. -/
def chooseWinner (preference : ForecastMethodPreference) (history : List ℤ)
    (sorted : List Scored) : Except ForecastError Scored := do
  let first ← orRefuse sorted.head? .noMethod
  match sorted.find? (·.fit.method = .crostonSba) with
  | none => return first
  | some croston =>
    if preference = .auto then return if ← isIntermittentDemand history then croston else first
    else return first

/-! ### The forecast -/

/-- What a forecast is asked for. Weeks are whole, the rest has its defaults. -/
structure ForecastOptions where
  horizonWeeks : ℤ
  method : Option ForecastMethodPreference := none
  bandZ : Option ℤ := none
  promotionWindows : Option (List PromotionWindow) := none
  plannedPromotionWeeks : Option (List CivilDate) := none

/-- A week of the forecast, with its band. -/
structure ForecastPeriod where
  periodStart : CivilDate
  quantity : ℤ
  lower : ℤ
  upper : ℤ
  method : ForecastMethod

/-- What is said of a forecast: how it was chosen, and what was done to the history. -/
structure ForecastExplanation where
  method : ForecastMethod
  historyWeeks : ℕ
  holdoutWeeks : ℕ
  holdoutMaeByMethod : List (ForecastMethod × ℤ)
  stockoutWeeksImputed : List CivilDate
  seasonalPeakMonth : Option ℕ
  seasonalPeriodWeeks : Option ℕ
  promotionCode : Option String
  promotionLiftFactor : Option ℤ
  promotionIgnoredReason : Option String
  residualSigma : ℤ

/-- A forecast and its explanation. -/
structure ForecastResult where
  periods : List ForecastPeriod
  explanation : ForecastExplanation

/-- The month of a group, if its mean is above the peak so far. -/
def peakStep (peak : Option (ℕ × ℤ)) (group : (ℕ × ℕ) × List (CivilDate × ℤ)) :
    Except ForecastError (Option (ℕ × ℤ)) := do
  let average ← mean (group.2.map Prod.snd)
  return if peak.all (·.2 < average) then some (group.1.2, average) else peak

/-- The month of the highest mean demand, the first of them. -/
def peakDemandMonth (weekStarts : List CivilDate) (quantities : List ℤ) :
    Except ForecastError (Option ℕ) := do
  let byMonth := FirstSeen.groupBy (fun p => (p.1.year, p.1.month)) (weekStarts.zip quantities)
  let peak ← byMonth.foldlM peakStep none
  return peak.map Prod.fst

/-- The demand of a history, before and after promotions are taken out. -/
structure DemandHistory where
  corrected : List ℤ
  imputed : List CivilDate
  lift : PromotionLift
  dePromoted : List ℤ
  deriving DecidableEq

/-- The history a forecast is made from: stockouts filled in, and promotions taken out. -/
def demandHistory (weeks : List DemandWeek) (windows : List PromotionWindow) :
    Except ForecastError DemandHistory := do
  let (corrected, imputed) ← imputeStockouts weeks
  let lift ← measurePromotionLift (weeks.map DemandWeek.weekStart) corrected windows
  let dePromoted ← dePromote (weeks.map DemandWeek.weekStart) corrected windows lift
  return ⟨corrected, imputed, lift, dePromoted⟩

/-- A forecast week: lifted if a promotion is planned, not below zero, with its band. -/
def forecastPeriod (lift : PromotionLift) (uplift : List CivilDate) (method : ForecastMethod)
    (band : ℤ) (p : ℤ × CivilDate) : ForecastPeriod :=
  let lifted := if p.2 ∈ uplift then lift.factor.elim p.1 (mul p.1) else p.1
  let floored := if lifted < 0 then 0 else lifted
  ⟨p.2, floored, if floored - band < 0 then 0 else floored - band, floored + band, method⟩

/-- The season that is reported. -/
def seasonalPeriod (method : ForecastMethod) (historyWeeks : ℕ) : Option ℕ :=
  if method = .seasonalAdditive ∨ method = .seasonalMultiplicative then
    some (if 78 ≤ historyWeeks then 52 else 13)
  else none

/-- The start of a week after the last of the history. -/
def horizonStart (lastWeek : DemandWeek) (step : ℕ) : Except ForecastError CivilDate :=
  (shiftDays lastWeek.weekStart ((step + 1) * 7 : ℕ)).mapError .range

/-- The forecast, with what explains it. -/
def forecastDemand (weeks : List DemandWeek) (options : ForecastOptions) :
    Except ForecastError ForecastResult := do
  refuseIf (options.horizonWeeks < 1 ∨ 52 < options.horizonWeeks) .horizon
  let lastWeek ← orRefuse weeks.getLast? .noHistory
  let preference := options.method.getD .auto
  let history ← demandHistory weeks (options.promotionWindows.getD [])
  let scored ← scoreCandidates preference history.dePromoted
  let sorted := scored.insertionSort Scored.before
  let winner ← chooseWinner preference history.dePromoted sorted
  let sigma ← decimalStd (history.dePromoted.zipIdx.map fun p =>
    p.1 - winner.fit.fitted.getD p.2 p.1)
  let horizonStarts ← (List.range options.horizonWeeks.toNat).mapM (horizonStart lastWeek)
  let raw := winner.fit.forecast options.horizonWeeks.toNat
  let band := mul (options.bandZ.getD 12816) sigma
  let seasonalPeakMonth ← peakDemandMonth (weeks.map DemandWeek.weekStart) history.corrected
  return ⟨(raw.zip horizonStarts).map (forecastPeriod history.lift
      (options.plannedPromotionWeeks.getD []) winner.fit.method band),
    { method := winner.fit.method
      historyWeeks := history.dePromoted.length
      holdoutWeeks := holdoutWeeksOf history.dePromoted.length
      holdoutMaeByMethod := (FirstSeen.groupBy (·.fit.method) sorted).map fun group =>
        (group.1, (group.2.getLast?.map Scored.score).getD 0)
      stockoutWeeksImputed := history.imputed
      seasonalPeakMonth := seasonalPeakMonth
      seasonalPeriodWeeks := seasonalPeriod winner.fit.method history.dePromoted.length
      promotionCode := history.lift.code
      promotionLiftFactor := history.lift.factor
      promotionIgnoredReason := history.lift.ignoredReason
      residualSigma := sigma }⟩

/-! ### Nothing is divided by zero -/

section

variable {a b : ℤ} {history train values : List ℤ} {candidate : Candidate} {fit : Fit}

theorem returns_div (a : ℤ) (h : b ≠ 0) : Returns (div a b) := by
  have hunits : |b| * 1000000 ≠ 0 := mul_ne_zero (abs_ne_zero.mpr h) (by decide)
  rw [div]
  simp only [if_neg hunits]
  exact ⟨_, rfl⟩

theorem whole_pos {n : ℕ} (h : 0 < n) : 0 < whole n :=
  mul_pos (Int.natCast_pos.mpr h) (by decide)

theorem returns_mean (values : List ℤ) : Returns (mean values) :=
  returns_ite (fun _ => returns_ok 0) fun h =>
    returns_div _ (whole_pos (Nat.pos_of_ne_zero h)).ne'

theorem returns_mae (actual predicted : List ℤ) : Returns (mae actual predicted) :=
  returns_ite (fun _ => returns_ok 0) fun _ => returns_mean _

theorem exists_decimalStd (values : List ℤ) : ∃ sigma, decimalStd values = .ok sigma ∧ 0 ≤ sigma := by
  rw [decimalStd]
  split_ifs
  · exact ⟨0, rfl, le_rfl⟩
  · obtain ⟨center, hcenter⟩ := returns_mean values
    exact ⟨_, bind_eq_ok.mpr ⟨center, hcenter, rfl⟩, Int.natCast_nonneg _⟩

theorem returns_divIfPositive (a b other : ℤ) : Returns (divIfPositive a b other) :=
  returns_ite (fun h => returns_div a h.ne') fun _ => returns_ok other

theorem returns_isIntermittentDemand (history : List ℤ) :
    Returns (isIntermittentDemand history) := by
  refine returns_ite (fun _ => returns_ok _) fun _ => returns_ite (fun _ => returns_ok _) fun _ => ?_
  refine Returns.bind ?_ fun _ _ => returns_pure _
  rw [averageDemandInterval]
  exact returns_ite (fun _ => returns_ok _) fun _ => returns_ite (fun _ => returns_ok _) fun h =>
    returns_div _ (whole_pos (Nat.pos_of_ne_zero h)).ne'

/-! #### The interval of Croston's method -/

theorem returns_crostonRate {size interval : ℤ} (h : ONE ≤ interval) :
    Returns (crostonRate size interval) :=
  (returns_div _ ((by decide : (0 : ℤ) < ONE).trans_le h).ne').bind fun _ _ =>
    (returns_div _ (by decide)).bind fun _ _ => returns_pure _

theorem le_mul_of_le {c x y : ℤ} (hc : 0 ≤ c) (h : y * SCALE ≤ x) : c * y ≤ mul c x := by
  rw [mul, roundDiv_eq_round]
  refine HalfAway.le_round_of_mul_le SCALE_pos ?_
  rw [mul_assoc]
  exact mul_le_mul_of_nonneg_left h hc

/-- **The interval stays at one or above**: a fifth of at least one week and four fifths of it. -/
theorem crostonStep_keeps {state : CrostonState} (h : ONE ≤ state.interval) (quantity : ℤ) :
    ∃ state', crostonStep state quantity = .ok state' ∧ ONE ≤ state'.interval := by
  obtain ⟨fitted, hfitted⟩ : Returns (crostonRate state.size state.interval) :=
    returns_crostonRate h
  simp only [crostonStep, hfitted, ok_bind]
  split_ifs
  · refine ⟨_, rfl, ?_⟩
    have hsince : 2000 * 1 ≤ mul 2000 (whole (state.since + 1)) :=
      le_mul_of_le (by decide) (by rw [whole, ONE, SCALE]; push_cast; omega)
    have hold : (ONE - 2000) * 1 ≤ mul (ONE - 2000) state.interval :=
      le_mul_of_le (by decide) (by rwa [one_mul])
    simp only [ONE] at *
    omega
  · exact ⟨_, rfl, h⟩

theorem exists_fitCrostonSba (train : List ℤ) : ∃ fit, fitCrostonSba train = .ok fit := by
  rcases hsizes : train.filter (0 < ·) with _ | ⟨size, rest⟩
  · exact ⟨_, by rw [fitCrostonSba, hsizes]⟩
  have hlength : rest.length + 1 ≤ train.length := by
    have := length_filter_le (fun x : ℤ => decide (0 < x)) train
    rwa [hsizes, length_cons] at this
  have hone : whole (rest.length + 1) ≠ 0 := (whole_pos (Nat.succ_pos _)).ne'
  obtain ⟨interval, hinterval⟩ := returns_div (whole train.length) hone
  have hstart : ONE ≤ interval := by
    have hunits : |whole (rest.length + 1)| * 1000000 ≠ 0 :=
      mul_ne_zero (abs_ne_zero.mpr hone) (by decide)
    rw [div] at hinterval
    simp only [if_neg hunits, if_neg (whole_pos (Nat.succ_pos rest.length)).not_gt,
      Except.ok.injEq] at hinterval
    rw [← hinterval, roundDiv_eq_round]
    refine HalfAway.le_round_of_mul_le (mul_pos (abs_pos.mpr hone) (by decide)) ?_
    rw [abs_of_pos (whole_pos (Nat.succ_pos _)), whole, whole, ONE, RATE_SCALE]
    push_cast
    omega
  obtain ⟨final, hfinal, hkeeps⟩ : ∃ final, train.foldlM crostonStep ⟨size, interval, 0, []⟩ =
      .ok final ∧ ONE ≤ final.interval :=
    returns_foldlM _ hstart fun state hstate quantity _ => crostonStep_keeps hstate quantity
  obtain ⟨level, hlevel⟩ : Returns (crostonRate final.size final.interval) :=
    returns_crostonRate hkeeps
  rw [fitCrostonSba, hsizes]
  exact ⟨_, bind_eq_ok.mpr ⟨interval, hinterval, bind_eq_ok.mpr ⟨final, hfinal,
    bind_eq_ok.mpr ⟨level, hlevel, rfl⟩⟩⟩⟩

/-! #### The candidates -/

/-- The length of the season that a model repeats. -/
def Candidate.seasonLength : Candidate → Option ℕ
  | .seasonal seasonLength _ => some seasonLength
  | _ => none

/-- The method a model stands for. -/
def Candidate.method : Candidate → ForecastMethod
  | .seasonal _ multiplicative => seasonalMethod multiplicative
  | .crostonSba => .crostonSba
  | .movingAverage => .movingAverage

theorem returns_seasonalStep (seasonLength : ℕ) (multiplicative : Bool) (state : SeasonalState)
    (p : ℤ × ℕ) : Returns (seasonalStep seasonLength multiplicative state p) := by
  refine Returns.bind (returns_ite (fun _ => returns_divIfPositive _ _ _) fun _ => returns_ok _)
    fun _ _ => Returns.bind ?_ fun _ _ => returns_pure _
  exact returns_ite (fun _ => returns_ite (fun h => (returns_div _ h.ne').bind fun _ _ =>
    returns_pure _) fun _ => returns_ok _) fun _ => returns_ok _

variable {seasonLength : ℕ}

theorem returns_fitSeasonal (h : 0 < seasonLength) (multiplicative : Bool) (train : List ℤ) :
    Returns (fitSeasonal seasonLength multiplicative train) := by
  rw [fitSeasonal]
  refine returns_ite (fun _ => returns_pure _) fun _ => ?_
  refine returns_ite (fun _ => returns_pure _) fun _ => ?_
  refine (returns_mean _).bind fun level0 _ => (returns_mean _).bind fun _ _ =>
    (returns_div _ (whole_pos h).ne').bind fun _ _ => Returns.bind (returns_mapM fun quantity _ =>
      returns_ite (fun _ => returns_divIfPositive _ _ _) fun _ => returns_ok _) fun seasonal _ => ?_
  obtain ⟨final, hfinal, -⟩ := returns_foldlM (fun _ => True) trivial fun state _ p _ =>
    (returns_seasonalStep seasonLength multiplicative state p).imp fun _ h => ⟨h, trivial⟩
  exact Returns.bind ⟨final, hfinal⟩ fun _ _ => returns_pure _

theorem fitSeasonal_eq_some {multiplicative : Bool}
    (h : fitSeasonal seasonLength multiplicative train = .ok (some fit)) :
    fit.seasonLength = some seasonLength ∧
      fit.method = Candidate.method (.seasonal seasonLength multiplicative) ∧
      seasonLength * 2 ≤ train.length := by
  rw [fitSeasonal] at h
  by_cases hshort : train.length < seasonLength * 2
  · rw [if_pos hshort] at h
    cases pure_eq_ok.mp h
  rw [if_neg hshort] at h
  by_cases hzero : multiplicative ∧ train.any (· ≤ 0)
  · rw [if_pos hzero] at h
    cases pure_eq_ok.mp h
  rw [if_neg hzero] at h
  simp only [bind_eq_ok, pure_eq_ok] at h
  obtain ⟨_, -, _, -, _, -, _, -, _, -, h⟩ := h
  obtain rfl := Option.some.inj h
  exact ⟨rfl, rfl, not_lt.mp hshort⟩

theorem fit_eq_some (h : candidate.fit train = .ok (some fit)) :
    fit.seasonLength = candidate.seasonLength ∧ fit.method = candidate.method := by
  cases candidate with
  | seasonal seasonLength multiplicative =>
    obtain ⟨hlength, hmethod, -⟩ := fitSeasonal_eq_some h
    exact ⟨hlength, hmethod⟩
  | crostonSba =>
    obtain ⟨_, hfit, h⟩ := map_eq_ok.mp h
    obtain rfl := Option.some.inj h
    rw [fitCrostonSba] at hfit
    split at hfit
    · obtain rfl := Except.ok.inj hfit
      exact ⟨rfl, rfl⟩
    · simp only [bind_eq_ok, pure_eq_ok] at hfit
      obtain ⟨_, -, _, -, _, -, rfl⟩ := hfit
      exact ⟨rfl, rfl⟩
  | movingAverage =>
    obtain ⟨_, hfit, h⟩ := map_eq_ok.mp h
    obtain rfl := Option.some.inj h
    obtain ⟨_, -, hfit⟩ := bind_eq_ok.mp hfit
    obtain rfl := pure_eq_ok.mp hfit
    exact ⟨rfl, rfl⟩

theorem returns_fit (hseason : ∀ n ∈ candidate.seasonLength, 0 < n) (train : List ℤ) :
    Returns (candidate.fit train) := by
  cases candidate with
  | seasonal seasonLength multiplicative => exact returns_fitSeasonal (hseason _ rfl) _ _
  | crostonSba => exact Returns.map (exists_fitCrostonSba train) some
  | movingAverage => exact Returns.map ((returns_mean _).bind fun _ _ => returns_pure _) some

theorem returns_scoreCandidate (hseason : ∀ n ∈ candidate.seasonLength, 0 < n)
    (history : List ℤ) : Returns (scoreCandidate history candidate) := by
  refine (returns_fit hseason history).bind fun probe _ => ?_
  rcases probe with _ | probe
  · exact returns_pure _
  refine Returns.bind (returns_ite (fun _ => ?_) fun _ => returns_ok _) fun held _ => Returns.bind ?_
    fun _ _ => returns_pure _
  · rw [holdoutMae]
    refine returns_ite (fun _ => returns_pure _) fun _ =>
      (returns_fit hseason _).bind fun fitted _ => ?_
    rcases fitted with _ | fitted
    · exact returns_pure _
    · exact (returns_mae _ _).map some
  · rcases held with _ | score
    · exact returns_mae _ _
    · exact returns_ok _

theorem scoreCandidate_eq_some {scored : Scored}
    (h : scoreCandidate history candidate = .ok (some scored)) :
    candidate.fit history = .ok (some scored.fit) := by
  obtain ⟨probe, hprobe, h⟩ := bind_eq_ok.mp h
  rcases probe with _ | probe
  · cases pure_eq_ok.mp h
  · simp only [bind_eq_ok, pure_eq_ok] at h
    obtain ⟨_, -, _, -, h⟩ := h
    obtain rfl := Option.some.inj h
    exact hprobe

theorem seasonLength_of_mem {preference : ForecastMethodPreference} {n : ℕ}
    (h : candidate ∈ candidateFits n preference) :
    candidate.seasonLength = none ∨ candidate.seasonLength = some 13 ∨
      candidate.seasonLength = some 52 := by
  have hall : ∀ c ∈ [Candidate.crostonSba, .movingAverage] ++ seasonal132 ++ seasonal522,
      c.seasonLength = none ∨ c.seasonLength = some 13 ∨ c.seasonLength = some 52 := by decide
  refine hall candidate ?_
  cases preference <;> simp only [candidateFits] at h <;>
    (try split_ifs at h) <;> simp [seasonal132, seasonal522] at h ⊢ <;> tauto

end

/-! ### The head of a stable sort -/

/-- The first of the elements that none comes before. -/
def FirstLeast {α : Type} (r : α → α → Prop) (xs : List α) (e : α) : Prop :=
  ∃ pre post, xs = pre ++ e :: post ∧ (∀ x ∈ pre, ¬r x e) ∧ ∀ x ∈ post, r e x

theorem head?_insertionSort_iff {α : Type} {r : α → α → Prop} [DecidableRel r]
    (htotal : ∀ a b, r a b ∨ r b a) (htrans : ∀ a b c, r a b → r b c → r a c) {xs : List α}
    {e : α} : (xs.insertionSort r).head? = some e ↔ FirstLeast r xs e := by
  induction xs generalizing e with
  | nil => simp [FirstLeast]
  | cons a xs ih =>
    have hhead : ((a :: xs).insertionSort r).head? = (xs.insertionSort r).head?.elim (some a)
        fun h => if r a h then some a else some h := by
      rw [insertionSort_cons]
      cases xs.insertionSort r with
      | nil => rfl
      | cons h t =>
        rw [orderedInsert_cons]
        simp only [head?_cons, Option.elim_some]
        split_ifs <;> rfl
    rw [hhead]
    rcases hsort : (xs.insertionSort r).head? with _ | h
    · have hnil : xs = [] := by
        rw [head?_eq_none_iff] at hsort
        exact length_eq_zero_iff.mp ((length_insertionSort r xs) ▸ hsort ▸ rfl)
      subst hnil
      constructor
      · rintro h
        obtain rfl := Option.some.inj h
        exact ⟨[], [], rfl, by simp, by simp⟩
      · rintro ⟨pre, post, hsplit, -, -⟩
        rcases pre with _ | ⟨b, pre⟩
        · obtain ⟨rfl, -⟩ := List.cons.inj hsplit
          rfl
        · exact absurd (congrArg List.length hsplit) (by simp)
    · obtain ⟨pre, post, rfl, hpre, hpost⟩ := ih.mp hsort
      have hleast : ∀ x ∈ pre ++ h :: post, r h x := by
        intro x hx
        rcases mem_append.mp hx with hx | hx
        · exact (htotal h x).resolve_right (hpre x hx)
        · rcases mem_cons.mp hx with rfl | hx
          · exact (htotal x x).elim id id
          · exact hpost x hx
      simp only [Option.elim_some]
      constructor
      · intro he
        split_ifs at he with hah
        · obtain rfl := Option.some.inj he
          exact ⟨[], _, rfl, by simp, fun x hx => htrans _ _ _ hah (hleast x hx)⟩
        · obtain rfl := Option.some.inj he
          exact ⟨a :: pre, post, rfl, by simpa using ⟨hah, hpre⟩, hpost⟩
      · rintro ⟨pre', post', hsplit, hpre', hpost'⟩
        rcases pre' with _ | ⟨b, pre'⟩
        · obtain ⟨rfl, rfl⟩ := List.cons.inj hsplit
          rw [if_pos (hpost' h (by simp))]
        · obtain ⟨rfl, hrest⟩ := List.cons.inj hsplit
          have he := ih.mpr ⟨pre', post', hrest, fun x hx => hpre' x (by simp [hx]), hpost'⟩
          obtain rfl := Option.some.inj (hsort.symm.trans he)
          rw [if_neg (hpre' a (by simp))]

theorem before_total (a b : Scored) : a.before b ∨ b.before a := by
  unfold Scored.before
  omega

theorem before_trans (a b c : Scored) (hab : a.before b) (hbc : b.before c) : a.before c := by
  unfold Scored.before at *
  omega

/-! ### The season of the winner -/

section

variable {preference : ForecastMethodPreference} {history : List ℤ} {scored : List Scored}
  {e winner : Scored}

/-- What is known of a scored candidate: its method is seasonal just when it has a season, and a
season of 52 weeks has been seen twice. -/
def Seasoned (historyWeeks : ℕ) (e : Scored) : Prop :=
  (e.fit.seasonLength = none ∧ (e.fit.method = .crostonSba ∨ e.fit.method = .movingAverage)) ∨
    ((e.fit.method = .seasonalAdditive ∨ e.fit.method = .seasonalMultiplicative) ∧
      (e.fit.seasonLength = some 13 ∨ e.fit.seasonLength = some 52 ∧ 104 ≤ historyWeeks))

/-- **The season reported is the model's unless that is 13 weeks in a long history.** -/
theorem seasonalPeriod_eq_iff {historyWeeks : ℕ} (h : Seasoned historyWeeks e) :
    seasonalPeriod e.fit.method historyWeeks = e.fit.seasonLength ↔
      ¬(78 ≤ historyWeeks ∧ e.fit.seasonLength = some 13) := by
  rw [seasonalPeriod]
  rcases h with ⟨hnone, hmethod⟩ | ⟨hmethod, hseason | ⟨hseason, hlong⟩⟩
  · rcases hmethod with hmethod | hmethod <;> simp [hnone, hmethod]
  · rw [if_pos hmethod, hseason, Option.some.injEq]
    split_ifs with hlong
    · simp [hlong]
    · simp [hlong]
  · rw [if_pos hmethod, hseason, if_pos (by omega)]
    simp

theorem seasoned_of_mem (hscored : scoreCandidates preference history = .ok scored)
    (he : e ∈ scored) : Seasoned history.length e := by
  obtain ⟨results, hresults, h⟩ := bind_eq_ok.mp hscored
  obtain rfl := pure_eq_ok.mp h
  obtain ⟨candidate, hmem, hcandidate⟩ := ListSum.exists_left_of_forall₂ (mapM_eq_ok.mp hresults)
    (reduceOption_mem_iff.mp he)
  have hfit := scoreCandidate_eq_some hcandidate
  obtain ⟨hlength, hmethod⟩ := fit_eq_some hfit
  have hlong : candidate.seasonLength = some 52 → 104 ≤ history.length := by
    intro h52
    cases candidate with
    | seasonal seasonLength multiplicative =>
      obtain rfl : seasonLength = 52 := Option.some.inj h52
      exact (fitSeasonal_eq_some hfit).2.2
    | crostonSba | movingAverage => cases h52
  rw [Seasoned, hlength, hmethod]
  have hseason := seasonLength_of_mem hmem
  cases candidate with
  | seasonal seasonLength multiplicative =>
    refine Or.inr ⟨by cases multiplicative <;> simp [Candidate.method, seasonalMethod], ?_⟩
    rcases hseason with h | h | h
    · cases h
    · exact Or.inl h
    · exact Or.inr ⟨h, hlong h⟩
  | crostonSba => exact Or.inl ⟨rfl, Or.inl rfl⟩
  | movingAverage => exact Or.inl ⟨rfl, Or.inr rfl⟩

theorem exists_scored {candidate : Candidate} {fit : Fit}
    (hscored : scoreCandidates preference history = .ok scored)
    (hmem : candidate ∈ candidateFits history.length preference)
    (hfit : candidate.fit history = .ok (some fit)) : ∃ e ∈ scored, e.fit = fit := by
  obtain ⟨results, hresults, h⟩ := bind_eq_ok.mp hscored
  obtain rfl := pure_eq_ok.mp h
  obtain ⟨y, hy, hcandidate⟩ := exists_of_mapM hresults hmem
  simp only [scoreCandidate, hfit, ok_bind, bind_eq_ok, pure_eq_ok] at hcandidate
  obtain ⟨_, -, _, -, rfl⟩ := hcandidate
  exact ⟨_, reduceOption_mem_iff.mpr hy, rfl⟩

theorem returns_scoreCandidates (preference : ForecastMethodPreference) (history : List ℤ) :
    Returns (scoreCandidates preference history) := by
  refine Returns.bind (returns_mapM fun candidate hmem => returns_scoreCandidate ?_ history)
    fun _ _ => returns_pure _
  intro n hn
  rcases seasonLength_of_mem hmem with h | h | h <;> rw [h] at hn <;> cases hn <;> decide

/-- Whether the intermittent rule applies. -/
def Intermittent (preference : ForecastMethodPreference) (history : List ℤ) : Prop :=
  preference = .auto ∧ isIntermittentDemand history = .ok true

/-- **The winner**: by the intermittent rule the model of Croston, else the first of the least. -/
theorem chooseWinner_spec (hscored : scoreCandidates preference history = .ok scored) :
    ∃ winner, chooseWinner preference history (scored.insertionSort Scored.before) = .ok winner ∧
      winner ∈ scored ∧ (Intermittent preference history → winner.fit.seasonLength = none) ∧
        (¬Intermittent preference history → FirstLeast Scored.before scored winner) := by
  obtain ⟨average, haverage⟩ : ∃ fit, Candidate.movingAverage.fit history = .ok (some fit) :=
    (((returns_mean _).bind fun _ _ => returns_pure _).map some).elim fun a ha => by
      obtain ⟨fit, -, rfl⟩ := map_eq_ok.mp ha
      exact ⟨fit, ha⟩
  have hmem : Candidate.movingAverage ∈ candidateFits history.length preference := by
    cases preference <;> simp [candidateFits]
  obtain ⟨entry, hentry, -⟩ := exists_scored hscored hmem haverage
  have hsort : ∀ e, e ∈ scored.insertionSort Scored.before ↔ e ∈ scored := fun e =>
    (perm_insertionSort _ _).mem_iff
  obtain ⟨first, rest, hfirst⟩ : ∃ first rest,
      scored.insertionSort Scored.before = first :: rest :=
    exists_cons_of_ne_nil (ne_nil_of_mem ((hsort entry).mpr hentry))
  have hleast : FirstLeast Scored.before scored first :=
    (head?_insertionSort_iff before_total before_trans).mp (by rw [hfirst]; rfl)
  have hfirstMem : first ∈ scored := (hsort first).mp (hfirst ▸ mem_cons_self)
  obtain ⟨isIntermittent, hintermittent⟩ := returns_isIntermittentDemand history
  have hrefuse : orRefuse (scored.insertionSort Scored.before).head? ForecastError.noMethod =
      .ok first := orRefuse_eq_ok.mpr (by rw [hfirst]; rfl)
  simp only [chooseWinner, hrefuse, ok_bind, hintermittent]
  rcases hfind : (scored.insertionSort Scored.before).find? (·.fit.method = .crostonSba) with
    _ | croston
  · -- Under the automatic preference a model of Croston has been scored.
    simp only [hfind]
    refine ⟨first, rfl, hfirstMem, fun hrule => ?_, fun _ => hleast⟩
    obtain ⟨rfl, -⟩ := hrule
    obtain ⟨fit, hfit⟩ := exists_fitCrostonSba history
    have hcroston : Candidate.crostonSba.fit history = .ok (some fit) :=
      map_eq_ok.mpr ⟨fit, hfit, rfl⟩
    obtain ⟨e, he, rfl⟩ := exists_scored hscored (by simp [candidateFits]) hcroston
    have hmethod := (fit_eq_some hcroston).2
    have hnone := find?_eq_none.mp hfind e ((hsort e).mpr he)
    simp [hmethod, Candidate.method] at hnone
  · have hcroston := (hsort croston).mp (mem_of_find?_eq_some hfind)
    have hmethod := find?_some hfind
    simp only [decide_eq_true_eq] at hmethod
    have hseason : croston.fit.seasonLength = none := by
      rcases seasoned_of_mem hscored hcroston with h | ⟨h | h, -⟩
      · exact h.1
      · rw [hmethod] at h; cases h
      · rw [hmethod] at h; cases h
    simp only [hfind]
    split_ifs with hauto hrule
    · exact ⟨croston, rfl, hcroston, fun _ => hseason, fun hnot =>
        absurd ⟨hauto, hintermittent.trans (congrArg Except.ok hrule)⟩ hnot⟩
    · refine ⟨first, rfl, hfirstMem, fun ⟨_, h⟩ => ?_, fun _ => hleast⟩
      rw [hintermittent] at h
      exact absurd (Except.ok.inj h) hrule
    · exact ⟨first, rfl, hfirstMem, fun ⟨h, _⟩ => absurd h hauto, fun _ => hleast⟩

end

/-! ### The history -/

section

variable {weeks : List DemandWeek} {windows : List PromotionWindow} {weekStarts : List CivilDate}
  {quantities : List ℤ} {lift : PromotionLift}

theorem returns_promoted_iff {weekStart : CivilDate} : Returns (promoted windows weekStart) ↔
    weekStart.dayNumber + 6 ≤ lastCivilDay.dayNumber := by
  rw [← Nat.cast_ofNat, ← shiftDays_isOk_iff]
  constructor
  · rintro ⟨_, h⟩
    obtain ⟨weekEnd, hend, -⟩ := bind_eq_ok.mp h
    exact ⟨weekEnd, mapError_eq_ok.mp hend⟩
  · rintro ⟨weekEnd, hend⟩
    exact Returns.bind ⟨weekEnd, mapError_eq_ok.mpr hend⟩ fun _ _ => returns_pure _

theorem returns_measure_iff : Returns (measurePromotionLift weekStarts quantities windows) ↔
    (windows ≠ [] → ∀ weekStart ∈ weekStarts,
      weekStart.dayNumber + 6 ≤ lastCivilDay.dayNumber) := by
  rw [measurePromotionLift]
  by_cases hnone : windows = []
  · rw [if_pos (by rw [hnone]; rfl)]
    exact iff_of_true (returns_pure _) fun h => absurd hnone h
  rw [if_neg (mt length_eq_zero_iff.mp hnone)]
  constructor
  · rintro ⟨lift, h⟩ - weekStart hmem
    obtain ⟨overlapped, hoverlapped, -⟩ := bind_eq_ok.mp h
    obtain ⟨flag, -, hflag⟩ := exists_of_mapM hoverlapped hmem
    exact returns_promoted_iff.mp ⟨flag, hflag⟩
  · intro h
    refine (returns_mapM fun weekStart hmem =>
      returns_promoted_iff.mpr (h hnone weekStart hmem)).bind fun overlapped _ => ?_
    refine returns_ite (fun _ => returns_pure _) fun _ => (returns_mean _).bind fun baseMean _ => ?_
    refine returns_ite (fun _ => returns_pure _) fun hpos => (returns_mean _).bind fun _ _ => ?_
    exact (returns_div _ (not_le.mp hpos).ne').bind fun _ _ => returns_pure _

theorem factor_of_no_windows (h : measurePromotionLift weekStarts quantities [] = .ok lift) :
    lift.factor = none := by
  rw [measurePromotionLift, if_pos (show ([] : List PromotionWindow).length = 0 from rfl)] at h
  rw [← pure_eq_ok.mp h]

theorem returns_dePromote (h : lift.factor ≠ none → ∀ weekStart ∈ weekStarts,
    weekStart.dayNumber + 6 ≤ lastCivilDay.dayNumber) :
    Returns (dePromote weekStarts quantities windows lift) := by
  rcases hfactor : lift.factor.filter (0 < ·) with _ | factor
  · rw [dePromote, hfactor]
    exact returns_ok _
  · rw [dePromote, hfactor]
    obtain ⟨hsome, hpos⟩ := Option.filter_eq_some_iff.mp hfactor
    refine returns_mapM fun p hp => (returns_promoted_iff.mpr
      (h (by rw [hsome]; simp) p.2 (of_mem_zip hp).2)).bind fun _ _ => ?_
    exact returns_ite (fun _ => returns_div _ (of_decide_eq_true hpos).ne') fun _ => returns_pure _

theorem length_dePromote {dePromoted : List ℤ} (hlength : quantities.length = weekStarts.length)
    (h : dePromote weekStarts quantities windows lift = .ok dePromoted) :
    dePromoted.length = weekStarts.length := by
  rw [dePromote] at h
  split at h
  · rw [← Except.ok.inj h, hlength]
  · rw [← (mapM_eq_ok.mp h).length_eq, length_zip, hlength, min_self]

theorem exists_imputeStockouts (weeks : List DemandWeek) : ∃ corrected imputed,
    imputeStockouts weeks = .ok (corrected, imputed) ∧ corrected.length = weeks.length := by
  obtain ⟨corrected, hcorrected⟩ : Returns (weeks.zipIdx.mapM fun p =>
      if p.1.stockout then mean (neighbours weeks p.2) else .ok p.1.quantity) :=
    returns_mapM fun p _ => returns_ite (fun _ => returns_mean _) fun _ => returns_ok _
  refine ⟨corrected, _, bind_eq_ok.mpr ⟨corrected, hcorrected, rfl⟩, ?_⟩
  rw [← (mapM_eq_ok.mp hcorrected).length_eq, length_zipIdx]

theorem returns_demandHistory_iff : Returns (demandHistory weeks windows) ↔
    (windows ≠ [] → ∀ week ∈ weeks,
      week.weekStart.dayNumber + 6 ≤ lastCivilDay.dayNumber) := by
  obtain ⟨corrected, imputed, himpute, -⟩ := exists_imputeStockouts weeks
  have hmeasure := @returns_measure_iff windows (weeks.map DemandWeek.weekStart) corrected
  rw [forall_mem_map] at hmeasure
  rw [← hmeasure, demandHistory, himpute, ok_bind]
  constructor
  · rintro ⟨history, h⟩
    obtain ⟨lift, hlift, -⟩ := bind_eq_ok.mp h
    exact ⟨lift, hlift⟩
  · intro h
    refine h.bind fun lift hlift => (returns_dePromote fun hfactor => ?_).bind fun _ _ =>
      returns_pure _
    rcases eq_or_ne windows [] with rfl | hwindows
    · exact absurd (factor_of_no_windows hlift) hfactor
    · exact returns_measure_iff.mp h hwindows

theorem length_demandHistory {history : DemandHistory}
    (h : demandHistory weeks windows = .ok history) : history.dePromoted.length = weeks.length := by
  obtain ⟨corrected, imputed, himpute, hlength⟩ := exists_imputeStockouts weeks
  rw [demandHistory, himpute, ok_bind] at h
  obtain ⟨lift, -, h⟩ := bind_eq_ok.mp h
  obtain ⟨dePromoted, hdePromoted, h⟩ := bind_eq_ok.mp h
  rw [← pure_eq_ok.mp h, length_dePromote (by rw [length_map, hlength]) hdePromoted, length_map]

end

/-! ### What a forecast explains -/

/-- What a forecast is, and what it says of the winner of the race. -/
structure Reports (weeks : List DemandWeek) (options : ForecastOptions) (history : List ℤ)
    (scored : List Scored) (winner : Scored) (r : ForecastResult) : Prop where
  length : (r.periods.length : ℤ) = options.horizonWeeks
  weeks : ∀ (i : ℕ) (p : ForecastPeriod) (week : DemandWeek), r.periods[i]? = some p →
    weeks.getLast? = some week → p.periodStart.dayNumber = week.weekStart.dayNumber + 7 * (i + 1)
  band : ∀ p ∈ r.periods, 0 ≤ p.lower ∧ p.lower ≤ p.quantity ∧ p.quantity ≤ p.upper
  method : r.explanation.method = winner.fit.method
  least : ¬Intermittent (options.method.getD .auto) history → ∀ e ∈ scored, winner.score ≤ e.score
  season : r.explanation.seasonalPeriodWeeks = winner.fit.seasonLength

/-- The winner of the race is what a forecast says it is. -/
def Explains (weeks : List DemandWeek) (options : ForecastOptions) (r : ForecastResult) : Prop :=
  ∃ history scored winner,
    demandHistory weeks (options.promotionWindows.getD []) = .ok history ∧
      scoreCandidates (options.method.getD .auto) history.dePromoted = .ok scored ∧
      chooseWinner (options.method.getD .auto) history.dePromoted
        (scored.insertionSort Scored.before) = .ok winner ∧
      Reports weeks options history.dePromoted scored winner r

/-- The weeks asked for are in the calendar, and so are the weeks that promotions are laid over. -/
def OnCalendar (weeks : List DemandWeek) (options : ForecastOptions) : Prop :=
  (options.promotionWindows.getD [] ≠ [] → ∀ week ∈ weeks,
      week.weekStart.dayNumber + 6 ≤ lastCivilDay.dayNumber) ∧
    ∀ week ∈ weeks.getLast?,
      week.weekStart.dayNumber + 7 * options.horizonWeeks ≤ lastCivilDay.dayNumber

/-- In a history of 78 weeks or more a season of 13 weeks scores before every other candidate, and
the intermittent rule does not apply. -/
def ThirteenWeeksLead (preference : ForecastMethodPreference) (history : List ℤ) : Prop :=
  78 ≤ history.length ∧ ¬Intermittent preference history ∧ ∃ scored e,
    scoreCandidates preference history = .ok scored ∧ FirstLeast Scored.before scored e ∧
      e.fit.seasonLength = some 13

theorem length_forecast (fit : Fit) (steps : ℕ) : (fit.forecast steps).length = steps := by
  rw [Fit.forecast]
  split
  · exact length_replicate
  · rw [length_map, length_range]

theorem forecastPeriod_band {lift : PromotionLift} {uplift : List CivilDate}
    {method : ForecastMethod} {band : ℤ} (h : 0 ≤ band) (p : ℤ × CivilDate) :
    0 ≤ (forecastPeriod lift uplift method band p).lower ∧
      (forecastPeriod lift uplift method band p).lower ≤
        (forecastPeriod lift uplift method band p).quantity ∧
      (forecastPeriod lift uplift method band p).quantity ≤
        (forecastPeriod lift uplift method band p).upper := by
  simp only [forecastPeriod]
  split_ifs <;> omega

theorem returns_peakDemandMonth (weekStarts : List CivilDate) (quantities : List ℤ) :
    Returns (peakDemandMonth weekStarts quantities) := by
  obtain ⟨peak, hpeak, -⟩ := returns_foldlM (fun _ => True) trivial fun peak _ group _ =>
    Exists.imp (fun _ h => ⟨h, trivial⟩) (show Returns (peakStep peak group) from
      (returns_mean _).bind fun _ _ => returns_pure _)
  exact Returns.bind ⟨peak, hpeak⟩ fun _ _ => returns_pure _

section

variable {weeks : List DemandWeek} {options : ForecastOptions} {r : ForecastResult}
  {lastWeek : DemandWeek}

theorem horizonStart_eq_ok {step : ℕ} {start : CivilDate}
    (h : horizonStart lastWeek step = .ok start) :
    start.dayNumber = lastWeek.weekStart.dayNumber + 7 * (step + 1) := by
  rw [horizonStart, mapError_eq_ok, shiftDays_natCast_eq_ok] at h
  push_cast at h
  linarith

theorem returns_horizonStarts_iff {horizon : ℕ} (hpos : 0 < horizon) :
    Returns ((List.range horizon).mapM (horizonStart lastWeek)) ↔
      lastWeek.weekStart.dayNumber + 7 * horizon ≤ lastCivilDay.dayNumber := by
  constructor
  · rintro ⟨starts, h⟩
    obtain ⟨start, -, hstart⟩ := exists_of_mapM h (x := horizon - 1) (mem_range.mpr (by omega))
    have hlast := CivilDate.le_iff_dayNumber.mp (le_lastCivilDay start)
    have hnumber := horizonStart_eq_ok hstart
    omega
  · intro h
    refine returns_mapM fun step hstep => ?_
    have hlt := mem_range.mp hstep
    obtain ⟨start, hstart⟩ := shiftDays_isOk_iff.mpr
      (show lastWeek.weekStart.dayNumber + ((step + 1) * 7 : ℕ) ≤ _ by omega)
    exact ⟨start, mapError_eq_ok.mpr hstart⟩

/-- **A forecast is refused for the calendar only.** -/
theorem returns_forecastDemand (hweeks : weeks ≠ [])
    (hhorizon : 1 ≤ options.horizonWeeks ∧ options.horizonWeeks ≤ 52)
    (h : OnCalendar weeks options) : Returns (forecastDemand weeks options) := by
  have hlast := getLast?_eq_some_getLast hweeks
  refine (returns_refuseIf (by omega)).bind fun _ _ =>
    Returns.bind ⟨_, orRefuse_eq_ok.mpr hlast⟩ fun lastWeek hlastWeek =>
      (returns_demandHistory_iff.mpr h.1).bind fun history _ =>
        (returns_scoreCandidates _ _).bind fun scored hscored => ?_
  obtain ⟨winner, hwinner, -⟩ := chooseWinner_spec hscored
  have hcalendar := h.2 lastWeek (orRefuse_eq_ok.mp hlastWeek)
  refine Returns.bind ⟨winner, hwinner⟩ fun _ _ =>
    Returns.bind ((exists_decimalStd _).imp fun _ h => h.1) fun _ _ =>
      ((returns_horizonStarts_iff (by omega)).mpr (by omega)).bind fun _ _ =>
        (returns_peakDemandMonth _ _).bind fun _ _ => returns_pure _

/-- **What is returned** is all that it should be, but for the season that is reported. -/
theorem reports_of_forecastDemand
    (hhorizon : 1 ≤ options.horizonWeeks ∧ options.horizonWeeks ≤ 52)
    (hband : 0 ≤ options.bandZ.getD 12816) (h : forecastDemand weeks options = .ok r) :
    OnCalendar weeks options ∧ ∃ history scored winner,
      demandHistory weeks (options.promotionWindows.getD []) = .ok history ∧
      scoreCandidates (options.method.getD .auto) history.dePromoted = .ok scored ∧
      chooseWinner (options.method.getD .auto) history.dePromoted
        (scored.insertionSort Scored.before) = .ok winner ∧
      r.explanation.seasonalPeriodWeeks =
        seasonalPeriod winner.fit.method history.dePromoted.length ∧
      (r.explanation.seasonalPeriodWeeks = winner.fit.seasonLength →
        Reports weeks options history.dePromoted scored winner r) := by
  simp only [forecastDemand, bind_eq_ok, refuseIf_eq_ok, orRefuse_eq_ok, pure_eq_ok] at h
  obtain ⟨_, -, lastWeek, hlast, history, hhistory, scored, hscored, winner, hwinner, sigma, hsigma,
    starts, hstarts, peak, -, rfl⟩ := h
  have hlength : starts.length = options.horizonWeeks.toNat := by
    rw [← (mapM_eq_ok.mp hstarts).length_eq, length_range]
  refine ⟨⟨returns_demandHistory_iff.mp ⟨history, hhistory⟩, fun week hweek => ?_⟩, history, scored,
    winner, hhistory, hscored, hwinner, rfl, fun hseason => ?_⟩
  · obtain rfl : lastWeek = week := Option.some.inj (hlast.symm.trans hweek)
    have := (returns_horizonStarts_iff (by omega)).mp ⟨starts, hstarts⟩
    omega
  have hsigma' : 0 ≤ sigma := by
    obtain ⟨sigma', hok, hnonneg⟩ := exists_decimalStd (history.dePromoted.zipIdx.map fun p =>
      p.1 - winner.fit.fitted.getD p.2 p.1)
    rw [hok] at hsigma
    exact Except.ok.inj hsigma ▸ hnonneg
  have hnonneg : 0 ≤ mul (options.bandZ.getD 12816) sigma := by
    rw [mul, roundDiv_eq_round]
    exact HalfAway.round_nonneg SCALE_pos (mul_nonneg hband hsigma')
  constructor
  · rw [length_map, length_zip, length_forecast, hlength, min_self]
    omega
  · intro i p week hp hweek
    obtain rfl : lastWeek = week := Option.some.inj (hlast.symm.trans hweek)
    rw [getElem?_map] at hp
    obtain ⟨pair, hpair, rfl⟩ := Option.map_eq_some_iff.mp hp
    have hstart := (getElem?_zip_eq_some.mp hpair).2
    obtain ⟨hi, hget⟩ := List.getElem?_eq_some_iff.mp hstart
    have hok := (forall₂_iff_get.mp (mapM_eq_ok.mp hstarts)).2 i (by
      rw [length_range]; omega) hi
    rw [get_eq_getElem, getElem_range, get_eq_getElem, hget] at hok
    exact horizonStart_eq_ok hok
  · intro p hp
    obtain ⟨pair, -, rfl⟩ := mem_map.mp hp
    exact forecastPeriod_band hnonneg pair
  · rfl
  · intro hrule e he
    obtain ⟨winner', hwinner', -, -, hleast⟩ := chooseWinner_spec hscored
    rw [hwinner] at hwinner'
    obtain rfl := Except.ok.inj hwinner'
    obtain ⟨pre, post, rfl, hpre, hpost⟩ := hleast hrule
    have hbefore : winner.before e := by
      rcases mem_append.mp he with he | he
      · exact (before_total _ _).resolve_right (hpre e he)
      · rcases mem_cons.mp he with rfl | he
        · exact (before_total e e).elim id id
        · exact hpost e he
    unfold Scored.before at hbefore
    omega
  · exact hseason

theorem season_of_lead {history : DemandHistory} {scored : List Scored} {winner : Scored}
    (hscored : scoreCandidates (options.method.getD .auto) history.dePromoted = .ok scored)
    (hwinner : chooseWinner (options.method.getD .auto) history.dePromoted
      (scored.insertionSort Scored.before) = .ok winner) :
    seasonalPeriod winner.fit.method history.dePromoted.length = winner.fit.seasonLength ↔
      ¬ThirteenWeeksLead (options.method.getD .auto) history.dePromoted := by
  obtain ⟨winner', hwinner', hmem, hnone, hleast⟩ := chooseWinner_spec hscored
  rw [hwinner] at hwinner'
  obtain rfl := Except.ok.inj hwinner'
  rw [seasonalPeriod_eq_iff (seasoned_of_mem hscored hmem), not_iff_not]
  constructor
  · rintro ⟨hlong, hseason⟩
    have hrule : ¬Intermittent (options.method.getD .auto) history.dePromoted := fun hrule => by
      rw [hnone hrule] at hseason
      cases hseason
    exact ⟨hlong, hrule, scored, winner, hscored, hleast hrule, hseason⟩
  · rintro ⟨hlong, hrule, scored', e, hscored', he, hseason⟩
    obtain rfl := Except.ok.inj (hscored.symm.trans hscored')
    have hhead := fun x => @head?_insertionSort_iff _ Scored.before _ before_total before_trans scored x
    obtain rfl := Option.some.inj (((hhead _).mpr (hleast hrule)).symm.trans ((hhead _).mpr he))
    exact ⟨hlong, hseason⟩

/-- **A forecast explains itself just when no season of 13 weeks leads in a long history.** -/
theorem forecastDemand_explains_iff (hweeks : weeks ≠ [])
    (hhorizon : 1 ≤ options.horizonWeeks ∧ options.horizonWeeks ≤ 52)
    (hband : 0 ≤ options.bandZ.getD 12816) :
    (∃ r, forecastDemand weeks options = .ok r ∧ Explains weeks options r) ↔
      OnCalendar weeks options ∧
        ∀ history, demandHistory weeks (options.promotionWindows.getD []) = .ok history →
          ¬ThirteenWeeksLead (options.method.getD .auto) history.dePromoted := by
  constructor
  · rintro ⟨r, hr, history, scored, winner, hhistory, hscored, hwinner, hreports⟩
    obtain ⟨hcalendar, history', scored', winner', hhistory', hscored', hwinner', hseason, -⟩ :=
      reports_of_forecastDemand hhorizon hband hr
    obtain rfl := Except.ok.inj (hhistory.symm.trans hhistory')
    obtain rfl := Except.ok.inj (hscored.symm.trans hscored')
    obtain rfl := Except.ok.inj (hwinner.symm.trans hwinner')
    refine ⟨hcalendar, fun history' hhistory' => ?_⟩
    obtain rfl := Except.ok.inj (hhistory.symm.trans hhistory')
    exact (season_of_lead hscored hwinner).mp (hseason.symm.trans hreports.season)
  · rintro ⟨hcalendar, hlead⟩
    obtain ⟨r, hr⟩ := returns_forecastDemand hweeks hhorizon hcalendar
    obtain ⟨-, history, scored, winner, hhistory, hscored, hwinner, hseason, hreports⟩ :=
      reports_of_forecastDemand hhorizon hband hr
    exact ⟨r, hr, history, scored, winner, hhistory, hscored, hwinner, hreports
      (hseason.trans ((season_of_lead hscored hwinner).mpr (hlead history hhistory)))⟩

end

/-- A history of a single week. -/
def oneWeek : List DemandWeek := [⟨civilDay 2024 1 1, 50000, false⟩]

theorem forecastDemand_explains_oneWeek :
    ∃ r, forecastDemand oneWeek ⟨4, none, none, none, none⟩ = .ok r ∧
      Explains oneWeek ⟨4, none, none, none, none⟩ r := by
  refine (forecastDemand_explains_iff (by decide) (by decide) (by decide)).mpr ⟨⟨?_, ?_⟩, ?_⟩
  · exact fun h => absurd rfl h
  · rintro week ⟨⟩
    decide
  · rintro history hhistory ⟨hlong, -⟩
    rw [length_demandHistory hhistory] at hlong
    exact absurd hlong (by decide)

/-- A sale every thirteenth week. -/
def seasonQuantities : List ℤ := (List.replicate 6 (1300000 :: List.replicate 12 0)).flatten

/-- A year and a half of it, from the first Monday of 2024 on. -/
def seasonWeeks : List DemandWeek :=
  seasonQuantities.zipIdx.map fun p =>
    ⟨(daysLater (7 * p.2) (civilDay 2024 1 1)).getD lastCivilDay, p.1, false⟩

def seasonOptions : ForecastOptions := ⟨4, some .seasonal, none, none, none⟩

theorem seasonWeeks_misreported :
    ¬∃ r, forecastDemand seasonWeeks seasonOptions = .ok r ∧ Explains seasonWeeks seasonOptions r := by
  rintro ⟨r, hr, history, scored, winner, hhistory, hscored, hwinner, hreports⟩
  have hknown : demandHistory seasonWeeks [] =
      .ok ⟨seasonQuantities, [], ⟨none, none, none⟩, seasonQuantities⟩ := by decide +kernel
  obtain rfl := Except.ok.inj (hknown.symm.trans hhistory)
  have hhead : (scoreCandidates .seasonal seasonQuantities).toOption.any fun scored =>
      (scored.insertionSort Scored.before).head?.any (·.fit.seasonLength = some 13) := by
    decide +kernel
  have hscored' : scoreCandidates .seasonal seasonQuantities = .ok scored := hscored
  rw [hscored'] at hhead
  obtain ⟨e, he, hseason⟩ := (Option.any_eq_true _ _).mp
    (show (scored.insertionSort Scored.before).head?.any _ = true from hhead)
  obtain ⟨-, history', scored'', winner', hhistory', hscored'', hwinner', hreported, -⟩ :=
    reports_of_forecastDemand (by decide) (by decide) hr
  obtain rfl := Except.ok.inj (hhistory.symm.trans hhistory')
  obtain rfl := Except.ok.inj (hscored.symm.trans hscored'')
  obtain rfl := Except.ok.inj (hwinner.symm.trans hwinner')
  refine (season_of_lead hscored hwinner).mp (hreported.symm.trans hreports.season)
    ⟨by decide, fun h => absurd h.1 (by decide), scored, e, hscored, ?_, by simpa using hseason⟩
  exact (head?_insertionSort_iff before_total before_trans).mp he

end OpenBooks.DemandForecast
