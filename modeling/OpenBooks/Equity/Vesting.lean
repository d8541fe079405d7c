import OpenBooks.Money.ExactArithmetic
import OpenBooks.Platform.CivilDate

/-!
# Vesting schedules

What a schedule has vested by a day, in the units a security was issued in. Nothing vests before
the issue; without a schedule all of it vests then; dated tranches vest on their dates; and a
time-based schedule vests nothing before its cliff and whole-share steps from there on. Months are
completed calendar months: one completes on the same day of the month, or on the last day of a
shorter one.
-/

namespace OpenBooks.Equity

open Checked

inductive VestingFrequency
  | monthly
  | quarterly
  | annual
  deriving DecidableEq

def VESTING_STEP_MONTHS : VestingFrequency → ℤ
  | .monthly => 1
  | .quarterly => 3
  | .annual => 12

structure VestingTranche where
  date : CivilDate
  quantity : ℤ

structure VestingTerms where
  issueDate : CivilDate
  quantity : ℤ
  vestingStart : Option CivilDate
  vestingMonths : Option ℤ
  cliffMonths : Option ℤ
  vestingFrequency : Option VestingFrequency
  vestingTranches : Option (List VestingTranche)

/-- Completed calendar months from one day to another. -/
def completedMonths (start stop : CivilDate) : ℤ :=
  if stop ≤ start then 0
  else
    let months : ℤ := ((stop.year : ℤ) - start.year) * 12 + ((stop.month : ℤ) - start.month)
    let months := if stop.day < min start.day (daysInMonth stop.year stop.month) then months - 1
      else months
    max 0 months

def hasVestingSchedule (terms : VestingTerms) : Bool :=
  0 < terms.vestingMonths.getD 0 ∨ 0 < (terms.vestingTranches.getD []).length

/-- Vested at a count of completed months. -/
def timeBasedVested (quantity months cliff total step : ℤ) : Except RationalError ℤ :=
  if months < cliff then .ok 0
  else if total ≤ months then .ok quantity
  else do
    let stepped := max cliff (months / step * step)
    let vested ← rational (quantity * stepped) total
    return floorShares vested

/-- Units the schedule has vested by a day, before any forfeiture. -/
def scheduledVested (terms : VestingTerms) (asOf : CivilDate) : Except RationalError ℤ :=
  if asOf < terms.issueDate then .ok 0
  else if 0 < (terms.vestingTranches.getD []).length then
    let vested := (((terms.vestingTranches.getD []).filter fun tranche =>
      tranche.date ≤ asOf).map VestingTranche.quantity).sum
    .ok (if vested < terms.quantity then vested else terms.quantity)
  else
    let total := terms.vestingMonths.getD 0
    if total ≤ 0 then .ok terms.quantity
    else
      timeBasedVested terms.quantity
        (completedMonths (terms.vestingStart.getD terms.issueDate) asOf)
        (terms.cliffMonths.getD 0) total
        (VESTING_STEP_MONTHS (terms.vestingFrequency.getD .monthly))

theorem scheduledVested_error {terms : VestingTerms} {asOf : CivilDate} {e : RationalError}
    (h : scheduledVested terms asOf = .error e) : e = .limit := by
  unfold scheduledVested timeBasedVested at h
  dsimp only at h
  split_ifs at h with hissue htranches htotal hcliff hend
  rcases hvested : rational _ (terms.vestingMonths.getD 0) with e' | vested
  · rw [hvested] at h
    obtain rfl := Except.error.inj h
    rcases rational_error hvested with ⟨-, hzero⟩ | ⟨rfl, -⟩
    · exact absurd hzero (not_le.mp htotal).ne'
    · rfl
  · rw [hvested] at h
    cases h

end OpenBooks.Equity
