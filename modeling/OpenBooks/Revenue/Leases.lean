import OpenBooks.Allocations.Shares
import OpenBooks.Forms.Decimals
import OpenBooks.Lib.ListSum
import OpenBooks.Money.PresentValue

/-!
# Lessee leases

A lease is measured once, at its commencement (`Leases.measureLesseeLease`): the liability is the
present value of what is unpaid, the right-of-use asset is that and the payment made at
commencement, the direct costs and the prepayments, less the incentives. The liability accretes to
zero over the term – in arrears by `accreteToZero`, in advance by `Leases.advanceAccretion`, where
interest follows the payment and the penultimate period absorbs the rounding. The finance model
amortizes the asset in equal parts beside the interest; the operating model recognises one level
cost, and what the interest leaves of it reduces the asset.

The two models split the cost differently and recognise the same cost over the term
(`Leases.both_models_cost_the_same`): every payment, and what was capitalized besides the liability.
However the rows accrete, their interest is what is paid beyond the liability
(`Leases.Retires.interest`).
-/

namespace OpenBooks

open List

namespace Leases

open Checked

/-! ### Refusals -/

/-- Who refuses a measurement: the lease domain, the present value arithmetic, or the money
kernel. -/
inductive LeaseRefusal
  | lease (message : String)
  | presentValue (error : PresentValueError)
  | kernel (message : String)

/-- Money as an exact decimal of at most four places. -/
def exactMoney (value : List Char) (label : String) : Except LeaseRefusal ℤ :=
  orRefuse ((canonicalDecimal value 4).bind toUnits)
    (.lease (label ++ " must be an exact decimal"))

/-- Money text straight to the kernel. -/
def kernelUnits (value : List Char) : Except LeaseRefusal ℤ :=
  orRefuse (toUnits value) (.kernel ("not a decimal number: \"" ++ String.ofList value ++ "\""))

/-- A number the language counts in exactly. -/
def isSafeInteger (n : ℤ) : Bool := |n| ≤ 9007199254740991

/-! ### The rate -/

/-- Percent carried at ten places. -/
def PERCENT_SCALE : ℤ := 10000000000

theorem percentDenominator_pos {periodsPerYear : ℤ} (h : 0 < periodsPerYear) :
    0 < 100 * PERCENT_SCALE * periodsPerYear :=
  Int.mul_pos (by decide) h

/-- `/^\d+(\.\d+)?$/`, split at its point. -/
def matchPercent (text : List Char) : Option (List Char × List Char) :=
  let whole := text.takeWhile Char.isDigit
  match text.dropWhile Char.isDigit with
  | [] => if whole = [] then none else some (whole, [])
  | '.' :: frac =>
    if whole ≠ [] ∧ frac ≠ [] ∧ frac.all Char.isDigit then some (whole, frac) else none
  | _ => none

/-- An annual percent as the exact rate of one of the year's periods. -/
def periodRateFromAnnualPercent (percent : List Char) (periodsPerYear : ℤ) :
    Except PresentValueError PeriodRate := do
  let (whole, frac) ← orRefuse (matchPercent (trim percent))
    ⟨"invalid rate percent: " ++ String.ofList percent⟩
  if h : isSafeInteger periodsPerYear ∧ 0 < periodsPerYear then
    refuseIf (10 < frac.length)
      (⟨"rate percent precision is limited to 10 decimal places"⟩ : PresentValueError)
    let percentUnits := digitsValue whole * PERCENT_SCALE.toNat +
      digitsValue (padEndZeros 10 frac)
    return ⟨percentUnits, 100 * PERCENT_SCALE * periodsPerYear, Int.natCast_nonneg _,
      percentDenominator_pos h.2⟩
  else .error ⟨"periodsPerYear must be a positive whole number"⟩

/-! ### Payments in advance -/

structure AdvanceArgs extends AccretionArgs where
  firstPaid : Bool

/-- The payment of the period at `index`: the first belongs to commencement, where it was paid
then. -/
def AdvanceArgs.paid (args : AdvanceArgs) (index : ℕ) : ℤ :=
  if index = 0 ∧ args.firstPaid then 0 else args.payment

/-- One period with its payment at the start and its interest at the end. The interest of the
penultimate period leaves exactly the final payment outstanding. -/
def advancePeriod (args : AdvanceArgs) (index : ℕ) (opening : ℤ) :
    Except LeaseRefusal AccretionPeriod := do
  let paid := args.paid index
  let remaining := opening - paid
  refuseIf (remaining < 0) (.lease "advance lease payment exceeds the measured liability")
  let computed := periodInterest remaining args.rate
  let closingInterest := args.payment - remaining
  let penultimate := index + 2 = args.periods
  let drift := closingInterest - computed
  let tolerance : ℤ := args.periods * 100
  onlyIf penultimate (refuseIf (closingInterest < 0 ∨ tolerance < drift ∨ tolerance < -drift)
    (.lease ("advance lease opening liability does not reconcile to its remaining payments " ++
      "and discount rate")))
  let interest := if penultimate then closingInterest else computed
  let balance := remaining + interest
  refuseIf (index + 1 = args.periods ∧ balance ≠ 0)
    (.lease "advance lease schedule does not retire the liability to zero")
  return ⟨index + 1, opening, interest, paid, balance⟩

/-- The rows of some periods from a balance on. -/
def advancePeriods (args : AdvanceArgs) :
    List ℕ → ℤ → Except LeaseRefusal (List AccretionPeriod)
  | [], _ => .ok []
  | index :: rest, opening => do
    let row ← advancePeriod args index opening
    let rows ← advancePeriods args rest row.closing
    return row :: rows

/-- Payments at period starts; interest accrues after the payment, at period end. -/
def advanceAccretion (args : AdvanceArgs) : Except LeaseRefusal (List AccretionPeriod) :=
  advancePeriods args (List.range args.periods) args.opening

/-! ### Measurement -/

inductive LeaseModel
  | finance
  | operating
  deriving DecidableEq

/-- What a measurement is asked for. The carried-in balances and the adjustments may be left
out; the timing is one of its two values by type, which the source checks. -/
structure LesseeArgs where
  payment : List Char
  periods : ℤ
  annualRatePercent : List Char
  periodsPerYear : ℤ
  timing : PaymentTiming
  model : LeaseModel
  openingLiability : Option (List Char)
  openingRouAsset : Option (List Char)
  initialDirectCosts : Option (List Char)
  prepayments : Option (List Char)
  incentives : Option (List Char)

/-- A row of the schedule: its accretion, and what its model recognises besides. -/
structure LesseeSchedulePeriod where
  line : AccretionPeriod
  amortization : Option ℤ
  singleCost : Option ℤ
  rouAdjustment : Option ℤ

structure LesseeMeasurement where
  liability : ℤ
  rouAsset : ℤ
  initialPayment : ℤ
  schedule : List LesseeSchedulePeriod

/-- A lease measured at commencement, before its model spreads it. -/
structure Commencement where
  liability : ℤ
  rouAsset : ℤ
  initialPayment : ℤ
  accretion : List AccretionPeriod

/-- The liability: the carried-in one, or the present value of what is unpaid. -/
def openingLiabilityOf (args : LesseeArgs) (rate : PeriodRate) (initialPayment : ℤ) :
    Except LeaseRefusal ℤ :=
  match args.openingLiability with
  | some text => exactMoney text "Opening liability"
  | none => do
    let units ← kernelUnits args.payment
    let value ← (presentValueOfLevelStream ⟨units, args.periods.toNat, rate, args.timing⟩).mapError
      .presentValue
    return value - initialPayment

/-- The rows that carry the liability to zero. -/
def leaseAccretion (args : LesseeArgs) (rate : PeriodRate) (payment liability initialPayment : ℤ) :
    Except LeaseRefusal (List AccretionPeriod) :=
  match args.timing with
  | .advance =>
    advanceAccretion ⟨⟨liability, payment, args.periods.toNat, rate⟩, initialPayment ≠ 0⟩
  | .arrears => do
    let units ← kernelUnits args.payment
    (accreteToZero ⟨liability, units, args.periods.toNat, rate⟩).mapError .presentValue

def commenceLease (args : LesseeArgs) : Except LeaseRefusal Commencement := do
  refuseIf (¬isSafeInteger args.periodsPerYear ∨ args.periodsPerYear ≤ 0)
    (.lease "periods per year must be a positive whole number")
  refuseIf (¬isSafeInteger args.periods ∨ args.periods < 1)
    (.lease "lease term must be a positive whole number of periods")
  refuseIf (100 * args.periodsPerYear < args.periods)
    (.lease "lease term exceeds the supported 100-year horizon for its payment frequency")
  let rate ← (periodRateFromAnnualPercent args.annualRatePercent args.periodsPerYear).mapError
    .presentValue
  let payment ← exactMoney args.payment "Payment amount"
  refuseIf (payment ≤ 0) (.lease "Payment amount must be positive")
  let initialPayment :=
    if args.timing = .advance ∧ args.openingLiability = none then payment else 0
  let adjustment := fun text : Option (List Char) =>
    exactMoney (text.getD ['0']) "Right-of-use cost adjustment"
  let directCosts ← adjustment args.initialDirectCosts
  let prepaid ← adjustment args.prepayments
  let incentive ← adjustment args.incentives
  refuseIf (directCosts < 0 ∨ prepaid < 0 ∨ incentive < 0)
    (.lease "Right-of-use cost adjustments must be non-negative")
  refuseIf (args.openingLiability ≠ none ∧ (directCosts ≠ 0 ∨ prepaid ≠ 0 ∨ incentive ≠ 0))
    (.lease ("opening right-of-use carrying amount must already include costs, prepayments " ++
      "and incentives"))
  let liability ← openingLiabilityOf args rate initialPayment
  refuseIf (liability < 0) (.lease "Opening liability must be non-negative")
  let rouAsset ← match args.openingRouAsset with
    | some text => exactMoney text "Opening right-of-use carrying amount"
    | none => pure (liability + initialPayment + directCosts + prepaid - incentive)
  refuseIf (rouAsset < 0) (.lease "Opening right-of-use carrying amount must be non-negative")
  let accretion ← leaseAccretion args rate payment liability initialPayment
  return ⟨liability, rouAsset, initialPayment, accretion⟩

/-- An amount in equal parts over the term. -/
def spread (periods : ℤ) (amount : ℤ) : Except LeaseRefusal (List ℤ) :=
  (apportion amount (List.replicate periods.toNat 1) .largestRemainder).mapError .kernel

/-- Finance model: the asset amortized in equal parts. -/
def financeSchedule (periods : ℤ) (lease : Commencement) :
    Except LeaseRefusal (List LesseeSchedulePeriod) := do
  let amortizations ← spread periods lease.rouAsset
  return (lease.accretion.zip amortizations).map fun p => ⟨p.1, some p.2, none, none⟩

/-- The total of what the rows recognise under one heading. -/
def total (heading : LesseeSchedulePeriod → Option ℤ) (schedule : List LesseeSchedulePeriod) : ℤ :=
  (schedule.map fun row => (heading row).getD 0).sum

/-- The payments spread as one level cost, shifted by the part of the asset that is not debt. -/
def levelCosts (periods totalPayments rouDelta : ℤ) : Except LeaseRefusal (List ℤ) := do
  let costs ← spread periods totalPayments
  if rouDelta = 0 then return costs
  else
    let shift ← spread periods rouDelta
    return (costs.zip shift).map fun p => p.1 + p.2

/-- Operating model: one level cost, and the asset gives up what the interest leaves of it. -/
def operatingSchedule (periods : ℤ) (lease : Commencement) :
    Except LeaseRefusal (List LesseeSchedulePeriod) := do
  let totalPayments := (lease.accretion.map AccretionPeriod.payment).sum
  let singleCosts ← levelCosts periods totalPayments (lease.rouAsset - lease.liability)
  let schedule : List LesseeSchedulePeriod := (lease.accretion.zip singleCosts).map fun p =>
    ⟨p.1, none, some p.2, some (p.2 - p.1.interest)⟩
  let consumed := total LesseeSchedulePeriod.rouAdjustment schedule
  refuseIf (consumed ≠ lease.rouAsset)
    (.lease ("operating schedule does not consume the right-of-use asset (" ++
      fromUnits consumed ++ " vs " ++ fromUnits lease.rouAsset ++ ")"))
  return schedule

/-- Measure a lease at commencement and build its full schedule. -/
def measureLesseeLease (args : LesseeArgs) : Except LeaseRefusal LesseeMeasurement := do
  let lease ← commenceLease args
  let schedule ← match args.model with
    | .finance => financeSchedule args.periods lease
    | .operating => operatingSchedule args.periods lease
  return ⟨lease.liability, lease.rouAsset, lease.initialPayment, schedule⟩

/-! ### Rows that retire a liability -/

/-- Rows that carry a balance to zero, each going on where the last one stopped. -/
structure Retires (opening : ℤ) (rows : List AccretionPeriod) : Prop where
  opens : rows.head?.map AccretionPeriod.opening = some opening
  chained : rows.IsChain fun row next => next.opening = row.closing
  steps : ∀ row ∈ rows, row.closing = row.opening - row.payment + row.interest
  closes : rows.getLast?.map AccretionPeriod.closing = some 0

variable {args : AdvanceArgs} {opening : ℤ} {rows : List AccretionPeriod} {index n : ℕ}

theorem Retires.single (row : AccretionPeriod)
    (hstep : row.closing = row.opening - row.payment + row.interest) (hzero : row.closing = 0) :
    Retires row.opening [row] where
  opens := rfl
  chained := .singleton row
  steps := by simpa using hstep
  closes := congrArg some hzero

theorem Retires.cons (row : AccretionPeriod) (h : Retires row.closing rows)
    (hstep : row.closing = row.opening - row.payment + row.interest) :
    Retires row.opening (row :: rows) where
  opens := rfl
  chained := by
    rw [isChain_cons]
    refine ⟨fun next hnext => ?_, h.chained⟩
    have hopens := h.opens
    rw [Option.mem_def.mp hnext] at hopens
    exact Option.some.inj hopens
  steps := forall_mem_cons.mpr ⟨hstep, h.steps⟩
  closes := by
    obtain ⟨last, hlast, hzero⟩ := Option.map_eq_some_iff.mp h.closes
    rw [getLast?_cons, hlast, Option.getD_some, Option.map_some, hzero]

/-- **The interest is what is paid beyond the liability.** -/
theorem Retires.interest (h : Retires opening rows) :
    (rows.map AccretionPeriod.interest).sum =
      (rows.map AccretionPeriod.payment).sum - opening := by
  obtain ⟨hopens, hchained, hsteps, hcloses⟩ := h
  induction rows generalizing opening with
  | nil => cases hopens
  | cons row rows ih =>
    obtain rfl := Option.some.inj hopens
    have hstep := hsteps row mem_cons_self
    have hrest := fun row hrow => hsteps row (mem_cons_of_mem _ hrow)
    cases rows with
    | nil =>
      have hzero : row.closing = 0 := Option.some.inj hcloses
      simp only [map_cons, map_nil, sum_cons, sum_nil]
      omega
    | cons next rows =>
      obtain ⟨hnext, hchained⟩ := isChain_cons_cons.mp hchained
      have hnext : some next.opening = some row.closing := congrArg some hnext
      have := ih hnext hchained hrest (by simpa using hcloses)
      have hsplit : ∀ g : AccretionPeriod → ℤ, ((row :: next :: rows).map g).sum =
          g row + ((next :: rows).map g).sum := fun g => by rw [map_cons, sum_cons]
      rw [hsplit, hsplit, this]
      omega

theorem retires_of_accretes {payment : ℤ} {ts : List ℕ} (h : Accretes payment opening ts rows) :
    Retires opening rows where
  opens := h.opens
  chained := h.chained
  steps row hrow := by
    obtain ⟨hpayment, hclosing⟩ := h.steps row hrow
    rw [hclosing, hpayment]
    ring
  closes := h.closes

/-! ### The rows in advance -/

theorem advancePeriod_eq_ok {row : AccretionPeriod}
    (h : advancePeriod args index opening = .ok row) :
    row.sequence = index + 1 ∧ row.opening = opening ∧ row.payment = args.paid index ∧
      row.closing = row.opening - row.payment + row.interest ∧
      (index + 1 = args.periods → row.closing = 0) := by
  simp only [advancePeriod, bind_eq_ok, refuseIf_eq_ok, onlyIf_eq_ok, pure_eq_ok] at h
  obtain ⟨-, -, -, -, -, hzero, rfl⟩ := h
  exact ⟨rfl, rfl, rfl, rfl, fun hlast => not_not.mp fun hne => hzero ⟨hlast, hne⟩⟩

theorem advancePeriods_eq_ok (hindex : index + n + 1 = args.periods)
    (h : advancePeriods args (List.range' index (n + 1)) opening = .ok rows) :
    Retires opening rows ∧ rows.map AccretionPeriod.sequence = List.range' (index + 1) (n + 1) ∧
      rows.map AccretionPeriod.payment = (List.range' index (n + 1)).map args.paid := by
  induction n generalizing index opening rows with
  | zero =>
    simp only [range'_succ, range'_zero, advancePeriods, bind_eq_ok, pure_eq_ok] at h
    obtain ⟨row, hrow, _, hnil, rfl⟩ := h
    obtain rfl := Except.ok.inj hnil
    obtain ⟨hsequence, rfl, hpayment, hstep, hzero⟩ := advancePeriod_eq_ok hrow
    exact ⟨.single row hstep (hzero hindex), by simp [hsequence], by simp [hpayment]⟩
  | succ n ih =>
    rw [range'_succ] at h
    simp only [advancePeriods, bind_eq_ok, pure_eq_ok] at h
    obtain ⟨row, hrow, rest, hrest, rfl⟩ := h
    obtain ⟨hsequence, rfl, hpayment, hstep, -⟩ := advancePeriod_eq_ok hrow
    obtain ⟨hretires, hsequences, hpayments⟩ := ih (by omega) hrest
    refine ⟨.cons row hretires hstep, ?_, ?_⟩
    · rw [map_cons, hsequences, hsequence]
      rfl
    · rw [map_cons, hpayments, hpayment]
      rfl

/-- In advance the first payment is left out when it belongs to commencement. -/
theorem sum_paid (args : AdvanceArgs) (hfirst : 1 ≤ args.periods) :
    ((List.range args.periods).map args.paid).sum =
      args.periods * args.payment - if args.firstPaid then args.payment else 0 := by
  obtain ⟨n, hn⟩ := Nat.exists_eq_add_of_le hfirst
  have hlater : (List.range' 1 n).map args.paid = replicate n args.payment := by
    refine eq_replicate_iff.mpr ⟨by simp, fun x hx => ?_⟩
    obtain ⟨i, hi, rfl⟩ := mem_map.mp hx
    have := (mem_range'_1.mp hi).1
    exact if_neg fun h => by omega
  rw [hn, range_eq_range', add_comm 1 n, range'_succ, map_cons, sum_cons,
    zero_add, hlater, sum_replicate, AdvanceArgs.paid, nsmul_eq_mul]
  cases args.firstPaid <;> simp <;> ring

/-! ### What a commencement adds up to -/

/-- The amounts a commencement was read from, and what it makes of them. -/
structure Commences (args : LesseeArgs) (payment directCosts prepaid incentive : ℤ)
    (lease : Commencement) : Prop where
  read_payment : exactMoney args.payment "Payment amount" = .ok payment
  read_directCosts : exactMoney (args.initialDirectCosts.getD ['0'])
    "Right-of-use cost adjustment" = .ok directCosts
  read_prepayments : exactMoney (args.prepayments.getD ['0'])
    "Right-of-use cost adjustment" = .ok prepaid
  read_incentives : exactMoney (args.incentives.getD ['0'])
    "Right-of-use cost adjustment" = .ok incentive
  periods_pos : 1 ≤ args.periods
  asset : lease.rouAsset = lease.liability + lease.initialPayment + directCosts + prepaid - incentive
  retires : Retires lease.liability lease.accretion
  numbered : lease.accretion.map AccretionPeriod.sequence = List.range' 1 args.periods.toNat
  paid : (lease.accretion.map AccretionPeriod.payment).sum =
    args.periods * payment - lease.initialPayment

theorem kernelUnits_of_exactMoney {text : List Char} {label : String} {units kernel : ℤ}
    (h : exactMoney text label = .ok units) (hkernel : kernelUnits text = .ok kernel) :
    kernel = units := by
  obtain ⟨c, hc, hunits⟩ := Option.bind_eq_some_iff.mp (orRefuse_eq_ok.mp h)
  obtain ⟨u, hu, hcu, -⟩ := toUnits_of_canonicalPlainDecimal hc
  rw [hcu] at hunits
  have hread := orRefuse_eq_ok.mp hkernel
  rw [hu, hunits] at hread
  exact (Option.some.inj hread).symm

variable {lease : Commencement} {args : LesseeArgs}

/-- The rows of either timing retire the liability and are paid what the commencement was not. -/
theorem leaseAccretion_eq_ok {rate : PeriodRate} {payment liability : ℤ}
    (hread : exactMoney args.payment "Payment amount" = .ok payment) (hpayment : 0 < payment)
    (hperiods : 1 ≤ args.periods)
    (h : leaseAccretion args rate payment liability
      (if args.timing = .advance then payment else 0) = .ok rows) :
    Retires liability rows ∧
      rows.map AccretionPeriod.sequence = List.range' 1 args.periods.toNat ∧
      (rows.map AccretionPeriod.payment).sum =
        args.periods * payment - if args.timing = .advance then payment else 0 := by
  have hcount : ((args.periods.toNat : ℕ) : ℤ) = args.periods := Int.toNat_of_nonneg (by omega)
  have hfirst : 1 ≤ args.periods.toNat := by omega
  cases htiming : args.timing with
  | arrears =>
    simp only [leaseAccretion, htiming, bind_eq_ok, mapError_eq_ok] at h
    obtain ⟨units, hunits, hrows⟩ := h
    obtain rfl := kernelUnits_of_exactMoney hread hunits
    have hlast : args.periods.toNat ≤ MAX_PRESENT_VALUE_PERIODS := by
      obtain ⟨_, hassert, -⟩ := bind_eq_ok.mp hrows
      have := refuseIf_eq_ok.mp hassert
      dsimp only at this
      omega
    obtain ⟨hcloses, hrefused⟩ := accreteToZero_spec ⟨liability, units, args.periods.toNat, rate⟩
      hfirst hlast
    have hfits : PlugFits ⟨liability, units, args.periods.toNat, rate⟩ := by
      by_contra hno
      rw [hrefused hno] at hrows
      cases hrows
    obtain ⟨rows', hrows', haccretes⟩ := hcloses hfits
    obtain rfl := Except.ok.inj (hrows.symm.trans hrows')
    refine ⟨retires_of_accretes haccretes, haccretes.sequence, ?_⟩
    have hpaid : rows.map AccretionPeriod.payment = replicate args.periods.toNat units := by
      have hlength := congrArg List.length haccretes.sequence
      rw [length_map, length_range'] at hlength
      refine eq_replicate_iff.mpr ⟨by rw [length_map, hlength], fun x hx => ?_⟩
      obtain ⟨row, hrow, rfl⟩ := mem_map.mp hx
      exact (haccretes.steps row hrow).1
    rw [hpaid, sum_replicate, nsmul_eq_mul, hcount]
    simp
  | advance =>
    simp only [leaseAccretion, htiming, if_true] at h
    obtain ⟨n, hn⟩ := Nat.exists_eq_add_of_le hfirst
    have hperiods' : 0 + n + 1 = args.periods.toNat := by omega
    have hrange : List.range args.periods.toNat = List.range' 0 (n + 1) := by
      rw [hn, add_comm, range_eq_range']
    rw [advanceAccretion] at h
    dsimp only at h
    rw [hrange] at h
    obtain ⟨hretires, hsequence, hpaid⟩ := advancePeriods_eq_ok hperiods' h
    have hsum := sum_paid ⟨⟨liability, payment, args.periods.toNat, rate⟩, decide (payment ≠ 0)⟩
      hfirst
    dsimp only at hsum
    rw [hrange, ← hpaid, hcount, if_pos (decide_eq_true hpayment.ne')] at hsum
    refine ⟨hretires, ?_, by simpa using hsum⟩
    rw [hsequence, ← hperiods']
    simp

theorem commenceLease_eq_ok (hliability : args.openingLiability = none)
    (hasset : args.openingRouAsset = none) (h : commenceLease args = .ok lease) :
    ∃ payment directCosts prepaid incentive,
      Commences args payment directCosts prepaid incentive lease := by
  simp only [commenceLease, bind_eq_ok, refuseIf_eq_ok, mapError_eq_ok, pure_eq_ok, hliability,
    hasset, and_true, openingLiabilityOf, not_or, not_lt] at h
  obtain ⟨_, -, _, ⟨-, hperiods⟩, _, -, rate, -, payment, hpayment, _, hpositive, directCosts,
    hdirect, prepaid, hprepaid, incentive, hincentive, _, -, _, -, liability, -, _, -, asset, rfl,
    _, -, accretion, haccretion, rfl⟩ := h
  obtain ⟨hretires, hnumbered, hpaid⟩ :=
    leaseAccretion_eq_ok hpayment (not_le.mp hpositive) hperiods haccretion
  exact ⟨payment, directCosts, prepaid, incentive, hpayment, hdirect, hprepaid, hincentive,
    hperiods, rfl, hretires, hnumbered, hpaid⟩

/-! ### The two models -/

variable {periods : ℤ}

theorem spread_spec (hperiods : 1 ≤ periods) (amount : ℤ) :
    ∃ parts, spread periods amount = .ok parts ∧ parts.sum = amount ∧
      parts.length = periods.toNat := by
  have hweights : ∀ w ∈ replicate periods.toNat (1 : ℤ), 0 ≤ w := by
    intro w hw
    rw [eq_of_mem_replicate hw]
    decide
  have hsum : 0 < (replicate periods.toNat (1 : ℤ)).sum := by
    rw [sum_replicate, nsmul_eq_mul, mul_one]
    omega
  have hresidual : ∀ k ∈ ApportionResidual.absorber? .largestRemainder,
      k < (replicate periods.toNat (1 : ℤ)).length := by
    rintro k ⟨⟩
  obtain ⟨parts, hparts⟩ : ∃ parts, apportion amount (replicate periods.toNat 1)
      .largestRemainder = .ok parts := by
    rcases eq_or_ne amount 0 with rfl | hne
    · exact ⟨_, apportion_zero hweights hresidual⟩
    · exact ⟨_, apportion_of_ne_zero hweights hsum hresidual hne⟩
  obtain ⟨hlength, htotal, -⟩ := shares_of_apportion hparts
  refine ⟨parts, by rw [spread, hparts]; rfl, htotal, ?_⟩
  rw [hlength, length_replicate]

/-- The lines of a schedule, whatever its model recognises beside them. -/
def lines (schedule : List LesseeSchedulePeriod) : List AccretionPeriod :=
  schedule.map LesseeSchedulePeriod.line

def totalInterest (schedule : List LesseeSchedulePeriod) : ℤ :=
  ((lines schedule).map AccretionPeriod.interest).sum

variable {accretion : List AccretionPeriod} {amounts : List ℤ}
  {f : AccretionPeriod × ℤ → LesseeSchedulePeriod}

theorem lines_map_zip (hf : ∀ p, (f p).line = p.1) (hlength : amounts.length = accretion.length) :
    lines ((accretion.zip amounts).map f) = accretion := by
  have hcomp : LesseeSchedulePeriod.line ∘ f = Prod.fst := funext hf
  rw [lines, map_map, hcomp, map_fst_zip hlength.ge]

theorem total_map_zip {heading : LesseeSchedulePeriod → Option ℤ}
    (hf : ∀ p, heading (f p) = some p.2) (hlength : amounts.length = accretion.length) :
    total heading ((accretion.zip amounts).map f) = amounts.sum := by
  have hcomp : (fun row => (heading row).getD 0) ∘ f = Prod.snd := funext fun p => by
    rw [Function.comp_apply, hf, Option.getD_some]
  rw [total, map_map, hcomp, map_snd_zip hlength.le]

theorem financeSchedule_spec (hperiods : 1 ≤ periods)
    (hlength : lease.accretion.length = periods.toNat) :
    ∃ schedule, financeSchedule periods lease = .ok schedule ∧ lines schedule = lease.accretion ∧
      total LesseeSchedulePeriod.amortization schedule = lease.rouAsset := by
  obtain ⟨parts, hparts, hsum, hparts'⟩ := spread_spec hperiods lease.rouAsset
  refine ⟨_, by rw [financeSchedule, hparts]; rfl, ?_, ?_⟩
  · exact lines_map_zip (fun _ => rfl) (hparts'.trans hlength.symm)
  · rw [total_map_zip (fun _ => rfl) (hparts'.trans hlength.symm), hsum]

/-- The level costs, shifted or not, come to the payments and what the asset holds beyond the
liability. -/
theorem levelCosts_spec (hperiods : 1 ≤ periods) (payments delta : ℤ) :
    ∃ costs, levelCosts periods payments delta = .ok costs ∧ costs.sum = payments + delta ∧
      costs.length = periods.toNat := by
  obtain ⟨costs, hcosts, hsum, hlength⟩ := spread_spec hperiods payments
  rw [levelCosts, hcosts, ok_bind]
  by_cases hzero : delta = 0
  · exact ⟨costs, if_pos hzero, by omega, hlength⟩
  · obtain ⟨shift, hshift, hshiftSum, hshiftLength⟩ := spread_spec hperiods delta
    have hsame : costs.length = shift.length := hlength.trans hshiftLength.symm
    refine ⟨(costs.zip shift).map fun p => p.1 + p.2, ?_, ?_, ?_⟩
    · rw [if_neg hzero, hshift]
      rfl
    · have hfst := map_fst_zip hsame.le
      have hsnd := map_snd_zip hsame.ge
      rw [sum_map_add, ← hsum, ← hshiftSum]
      exact congrArg₂ (· + ·) (congrArg List.sum hfst) (congrArg List.sum hsnd)
    · rw [length_map, length_zip, hlength, hshiftLength, min_self]

/-- The operating schedule gives up the whole asset, so it is never refused, and its single cost
is the payments and what the asset holds beyond the liability. -/
theorem operatingSchedule_spec (hperiods : 1 ≤ periods)
    (hlength : lease.accretion.length = periods.toNat)
    (hretires : Retires lease.liability lease.accretion) :
    ∃ schedule, operatingSchedule periods lease = .ok schedule ∧ lines schedule = lease.accretion ∧
      total LesseeSchedulePeriod.rouAdjustment schedule = lease.rouAsset ∧
      total LesseeSchedulePeriod.singleCost schedule =
        (lease.accretion.map AccretionPeriod.payment).sum + (lease.rouAsset - lease.liability) := by
  obtain ⟨singleCosts, hsingle, hsum, hcount⟩ := levelCosts_spec hperiods
    (lease.accretion.map AccretionPeriod.payment).sum (lease.rouAsset - lease.liability)
  have hsame := hcount.trans hlength.symm
  set schedule : List LesseeSchedulePeriod := (lease.accretion.zip singleCosts).map fun p =>
    ⟨p.1, none, some p.2, some (p.2 - p.1.interest)⟩ with hschedule
  have hconsumed : total LesseeSchedulePeriod.rouAdjustment schedule = lease.rouAsset := by
    have hfst := congrArg (fun l => (l.map AccretionPeriod.interest).sum) (map_fst_zip hsame.ge)
    have hsnd := congrArg List.sum (map_snd_zip hsame.le)
    have hinterest := hretires.interest
    simp only [map_map] at hfst
    calc total LesseeSchedulePeriod.rouAdjustment schedule
        = ((lease.accretion.zip singleCosts).map fun p => p.2 - p.1.interest).sum := by
          rw [total, hschedule, map_map]
          rfl
      _ = ((lease.accretion.zip singleCosts).map Prod.snd).sum -
          ((lease.accretion.zip singleCosts).map (AccretionPeriod.interest ∘ Prod.fst)).sum :=
          ListSum.sum_map_sub _ _ _
      _ = lease.rouAsset := by
          rw [hsnd, hfst, hsum, hinterest]
          ring
  refine ⟨schedule, ?_, lines_map_zip (fun _ => rfl) hsame, hconsumed, ?_⟩
  · rw [operatingSchedule]
    dsimp only
    rw [hsingle, ok_bind, ← hschedule, hconsumed, refuseIf, if_neg (not_not.mpr rfl)]
    rfl
  · rw [hschedule, total_map_zip (fun _ => rfl) hsame, hsum]

/-- **Both lease models recognise the same lifetime cost.** Where a lease without carried-in
balances is measured under one model it is under the other, at the same liability and asset;
their rows carry the liability to zero; the finance amortization and the operating adjustments
each make up the asset; and interest with amortization on the one side is the single cost on the
other – every payment, the direct costs and the prepayments, less the incentives. -/
theorem both_models_cost_the_same (args : LesseeArgs) (m : LesseeMeasurement)
    (hliability : args.openingLiability = none) (hasset : args.openingRouAsset = none)
    (h : measureLesseeLease args = .ok m) :
    ∃ finance operating : LesseeMeasurement, ∃ payment directCosts prepaid incentive : ℤ,
      measureLesseeLease { args with model := .finance } = .ok finance ∧
      measureLesseeLease { args with model := .operating } = .ok operating ∧
      (m = finance ∨ m = operating) ∧
      (∀ s, s = finance ∨ s = operating → s.liability = m.liability ∧ s.rouAsset = m.rouAsset ∧
        Retires s.liability (lines s.schedule) ∧
        (lines s.schedule).map AccretionPeriod.sequence = List.range' 1 args.periods.toNat) ∧
      total LesseeSchedulePeriod.amortization finance.schedule = m.rouAsset ∧
      total LesseeSchedulePeriod.rouAdjustment operating.schedule = m.rouAsset ∧
      totalInterest finance.schedule + total LesseeSchedulePeriod.amortization finance.schedule =
        total LesseeSchedulePeriod.singleCost operating.schedule ∧
      exactMoney args.payment "Payment amount" = .ok payment ∧
      exactMoney (args.initialDirectCosts.getD ['0']) "Right-of-use cost adjustment" =
        .ok directCosts ∧
      exactMoney (args.prepayments.getD ['0']) "Right-of-use cost adjustment" = .ok prepaid ∧
      exactMoney (args.incentives.getD ['0']) "Right-of-use cost adjustment" = .ok incentive ∧
      total LesseeSchedulePeriod.singleCost operating.schedule =
        args.periods * payment + directCosts + prepaid - incentive := by
  obtain ⟨lease, hlease, hmodel⟩ := bind_eq_ok.mp h
  obtain ⟨payment, directCosts, prepaid, incentive, hread⟩ :=
    commenceLease_eq_ok hliability hasset hlease
  have hlength : lease.accretion.length = args.periods.toNat := by
    rw [← length_map AccretionPeriod.sequence, hread.numbered, length_range']
  obtain ⟨amortized, hamortized, hfinanceLines, hfinance⟩ :=
    financeSchedule_spec hread.periods_pos hlength
  obtain ⟨levelled, hlevelled, hoperatingLines, hoperating, hcost⟩ :=
    operatingSchedule_spec hread.periods_pos hlength hread.retires
  have hinterest : totalInterest amortized =
      (lease.accretion.map AccretionPeriod.payment).sum - lease.liability := by
    rw [totalInterest, hfinanceLines]
    exact hread.retires.interest
  have hm : m = ⟨lease.liability, lease.rouAsset, lease.initialPayment, amortized⟩ ∨
      m = ⟨lease.liability, lease.rouAsset, lease.initialPayment, levelled⟩ := by
    cases hkind : args.model with
    | finance =>
      rw [hkind] at hmodel
      obtain ⟨schedule, hschedule, hm⟩ := bind_eq_ok.mp hmodel
      obtain rfl := Except.ok.inj (hamortized.symm.trans hschedule)
      exact .inl (pure_eq_ok.mp hm).symm
    | operating =>
      rw [hkind] at hmodel
      obtain ⟨schedule, hschedule, hm⟩ := bind_eq_ok.mp hmodel
      obtain rfl := Except.ok.inj (hlevelled.symm.trans hschedule)
      exact .inr (pure_eq_ok.mp hm).symm
  have hsame : lease.liability = m.liability ∧ lease.rouAsset = m.rouAsset := by
    rcases hm with rfl | rfl <;> exact ⟨rfl, rfl⟩
  refine ⟨⟨lease.liability, lease.rouAsset, lease.initialPayment, amortized⟩,
    ⟨lease.liability, lease.rouAsset, lease.initialPayment, levelled⟩, payment, directCosts,
    prepaid, incentive, ?_, ?_, hm, ?_, ?_, ?_, ?_, hread.read_payment, hread.read_directCosts,
    hread.read_prepayments, hread.read_incentives, ?_⟩
  · exact bind_eq_ok.mpr ⟨lease, hlease, bind_eq_ok.mpr ⟨amortized, hamortized, rfl⟩⟩
  · exact bind_eq_ok.mpr ⟨lease, hlease, bind_eq_ok.mpr ⟨levelled, hlevelled, rfl⟩⟩
  · rintro s (rfl | rfl)
    · exact ⟨hsame.1, hsame.2, hfinanceLines ▸ hread.retires, hfinanceLines ▸ hread.numbered⟩
    · exact ⟨hsame.1, hsame.2, hoperatingLines ▸ hread.retires, hoperatingLines ▸ hread.numbered⟩
  · exact hfinance.trans hsame.2
  · exact hoperating.trans hsame.2
  · dsimp only
    rw [hinterest, hfinance, hcost]
    ring
  · dsimp only
    rw [hcost, hread.paid, hread.asset]
    ring

/-- A year of monthly payments in advance, with costs and an incentive. -/
def yearInAdvance : LesseeArgs where
  payment := "1000".toList
  periods := 12
  annualRatePercent := "6.5".toList
  periodsPerYear := 12
  timing := .advance
  model := .operating
  openingLiability := none
  openingRouAsset := none
  initialDirectCosts := some "250.75".toList
  prepayments := none
  incentives := some "100".toList

theorem both_models_cost_the_same_yearInAdvance :
    ∃ finance operating : LesseeMeasurement,
      measureLesseeLease { yearInAdvance with model := .finance } = .ok finance ∧
      measureLesseeLease { yearInAdvance with model := .operating } = .ok operating ∧
      totalInterest finance.schedule + total LesseeSchedulePeriod.amortization finance.schedule =
        total LesseeSchedulePeriod.singleCost operating.schedule := by
  have hok : (measureLesseeLease yearInAdvance).isOk = true := by decide +kernel
  obtain ⟨m, hm⟩ := exists_of_isOk hok
  obtain ⟨finance, operating, -, -, -, -, hfinance, hoperating, -, -, -, -, hcost, -⟩ :=
    both_models_cost_the_same yearInAdvance m rfl rfl hm
  exact ⟨finance, operating, hfinance, hoperating, hcost⟩

end Leases

end OpenBooks
