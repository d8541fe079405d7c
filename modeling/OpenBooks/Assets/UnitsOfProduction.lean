import OpenBooks.Lib.Checked
import OpenBooks.Lib.Runs
import OpenBooks.Money.Units

/-!
# Depreciation by use

An asset depreciated by units of production is charged for each recording of its use, in
proportion to the units it is expected to produce in its life
(`computeUnitsOfProductionCharge`). Recordings are signed – a correction takes units
back – and each charge is rounded to money and capped so that what has been charged stays
between nothing and the depreciable basis.

The recording that reaches the last unit charges what is left of the basis. However the use
was split and corrected on the way, and however often the last unit was taken back and
produced again, an asset that has produced everything has been depreciated completely
(`usage_depreciates_within_basis`).
-/

namespace OpenBooks

open Checked

/-- A refusal of the depreciation engine. -/
structure DepreciationRefusalError where
  message : String

structure UnitsOfProductionChargeInput where
  cost : ℤ
  salvage : ℤ
  lifetimeUnits : ℤ
  periodUnits : ℤ
  unitsAlreadyRecorded : Option ℤ
  depreciationAlreadyPlanned : ℤ

/-- The charge for the units of a period, rounded once to ledger precision. -/
def computeUnitsOfProductionCharge (input : UnitsOfProductionChargeInput) :
    Except DepreciationRefusalError ℤ := do
  let basis := input.cost - input.salvage
  let lifetime := input.lifetimeUnits
  let period := input.periodUnits
  let priorUnits := input.unitsAlreadyRecorded.getD 0
  let already := input.depreciationAlreadyPlanned
  refuseIf (basis < 0)
    (⟨"salvage value cannot exceed acquisition cost"⟩ : DepreciationRefusalError)
  refuseIf (lifetime ≤ 0)
    (⟨"expected lifetime production units must be greater than zero"⟩ : DepreciationRefusalError)
  refuseIf (period = 0)
    (⟨"period production units must be non-zero"⟩ : DepreciationRefusalError)
  refuseIf (priorUnits < 0 ∨ lifetime < priorUnits ∨ priorUnits + period < 0 ∨
      lifetime < priorUnits + period)
    (⟨"recorded production must remain between zero and expected lifetime units"⟩ :
      DepreciationRefusalError)
  refuseIf (already < 0 ∨ basis < already)
    (⟨"existing depreciation exceeds the depreciable basis"⟩ : DepreciationRefusalError)
  let remaining := basis - already
  let magnitude := mulRatio basis (if period < 0 then -period else period) lifetime
  let proportional := if period < 0 then -magnitude else magnitude
  return if priorUnits + period = lifetime then remaining
    else if remaining < proportional then remaining
    else if proportional < -already then -already
    else proportional

/-! ### Recording use -/

/-- What is fixed about an asset depreciated by use. -/
structure ProductionAsset where
  cost : ℤ
  salvage : ℤ
  lifetimeUnits : ℤ

/-- The units recorded so far, and what was charged for them. -/
structure ProductionRecord where
  units : ℤ
  depreciation : ℤ

/-- Record a period's units and the charge for them. -/
def recordUsage (asset : ProductionAsset) (record : ProductionRecord) (periodUnits : ℤ) :
    Except DepreciationRefusalError ProductionRecord := do
  let charge ← computeUnitsOfProductionCharge ⟨asset.cost, asset.salvage, asset.lifetimeUnits,
    periodUnits, some record.units, record.depreciation⟩
  return ⟨record.units + periodUnits, record.depreciation + charge⟩

/-- Depreciation stays within the basis, and takes all of it at the last unit. -/
structure WithinBasis (asset : ProductionAsset) (record : ProductionRecord) : Prop where
  nonneg : 0 ≤ record.depreciation
  le_basis : record.depreciation ≤ asset.cost - asset.salvage
  complete : record.units = asset.lifetimeUnits →
    record.depreciation = asset.cost - asset.salvage

variable {asset : ProductionAsset} {record record' : ProductionRecord} {periodUnits : ℤ}

/-- **Every accepted recording leaves depreciation within the basis**, whatever was recorded
before it. -/
theorem recordUsage_withinBasis (h : recordUsage asset record periodUnits = .ok record') :
    record'.units = record.units + periodUnits ∧ WithinBasis asset record' := by
  simp only [recordUsage, computeUnitsOfProductionCharge, bind_eq_ok, refuseIf_eq_ok, pure_eq_ok,
    Option.getD_some] at h
  obtain ⟨charge, ⟨_, hbasis, _, -, _, -, _, hunits, _, halready, hcharge⟩, rfl⟩ := h
  refine ⟨rfl, ?_, ?_, fun hcomplete => ?_⟩
  · dsimp only
    split_ifs at hcharge <;> omega
  · dsimp only
    split_ifs at hcharge <;> omega
  · dsimp only at hcomplete ⊢
    rw [if_pos hcomplete] at hcharge
    omega

/-- **Depreciation by use stays between nothing and the basis, and is the basis whenever the
recorded units are those of the lifetime**, over every sequence of accepted recordings of an
asset that has been recorded or could be. -/
theorem usage_depreciates_within_basis {recordings : List ℤ}
    (hasset : recordings ≠ [] ∨ (asset.salvage ≤ asset.cost ∧ 0 < asset.lifetimeUnits))
    (h : Runs.Reached (recordUsage asset) ⟨0, 0⟩ recordings record) :
    record.units = recordings.sum ∧ 0 ≤ record.depreciation ∧
      record.depreciation ≤ asset.cost - asset.salvage ∧
      (record.units = asset.lifetimeUnits → record.depreciation = asset.cost - asset.salvage) := by
  have hsum : record.units = recordings.sum := by
    clear hasset
    induction h with
    | start => rfl
    | step _ hop ih => rw [(recordUsage_withinBasis hop).1, ih, List.sum_append, List.sum_singleton]
  refine ⟨hsum, ?_⟩
  cases h with
  | start =>
    obtain ⟨hsalvage, hlifetime⟩ := hasset.resolve_left fun hne => hne rfl
    refine ⟨le_rfl, sub_nonneg.mpr hsalvage, fun hzero => ?_⟩
    exact absurd hzero hlifetime.ne
  | step _ hop =>
    obtain ⟨-, hwithin⟩ := recordUsage_withinBasis hop
    exact ⟨hwithin.nonneg, hwithin.le_basis, hwithin.complete⟩

/-- A press of a thousand, expected to make three units. -/
def press : ProductionAsset := ⟨10000000, 0, 30000⟩

theorem press_depreciates_within_basis :
    ∃ record, Runs.Reached (recordUsage press) ⟨0, 0⟩ [10000, 20000, -20000, 20000] record ∧
      0 ≤ record.depreciation ∧ record.depreciation ≤ 10000000 - 0 ∧
      (record.units = 30000 → record.depreciation = 10000000 - 0) := by
  obtain ⟨record, hrun⟩ := exists_of_isOk (x := Runs.run (recordUsage press) ⟨0, 0⟩
    [10000, 20000, -20000, 20000]) (by decide +kernel)
  have hreached := Runs.Reached.of_run hrun
  exact ⟨record, hreached, (usage_depreciates_within_basis (.inl (by simp)) hreached).2⟩

end OpenBooks
