import OpenBooks.Lib.Bands
import OpenBooks.Lib.Outcome
import OpenBooks.Payroll.EmployerAggregate
import Mathlib.Algebra.Order.BigOperators.Group.List
import Mathlib.Algebra.Order.Ring.Abs
import Mathlib.Tactic.FieldSimp

/-!
# Levies do not depend on how payroll is cut into stubs

Stubs are assessed one after another, each knowing only what the ones before it were stamped with.
Whatever the split, the whole comes to the same: the assessable amounts add up to what the allowance
leaves of the total, marginal bands to the price of that interval but for the rounding of each
slice, and an accruing allowance to the cumulative amount due, exactly (`aggregate_levy_totals`).

The argument is one for all allowances. After a total of `c` the levy stands at a mark – `c` itself,
`c` lifted to the shelter, `c` held under the ceiling – and a stub prices the interval from one mark
to the next.
-/

namespace OpenBooks

open Checked List Bands AggregateAllowance

/-! ### One slice -/

/-- The number a percentage text denotes. -/
def percentOf (percent : String) : ℚ :=
  match parseExactDecimalParts percent.toList false with
  | some d => d.units / 10 ^ d.scale
  | none => 0

/-- A refusal of anything but the band walk. -/
def Priced (e : LevyError) : Prop := e ≠ UNPRICED

/-- A percentage to the cent is within half a cent of the exact one. -/
theorem abs_mulPercent_sub_le (amount : ℤ) (percent : PlainPercent) :
    |(mulPercent amount percent 2 : ℚ) - amount * (percent.units / 10 ^ percent.places / 100)| ≤
      50 := by
  have hd : (0 : ℤ) < 100 * 10 ^ percent.places * quantum 2 := by
    unfold quantum
    positivity
  have hround := HalfAway.two_mul_abs_round_sub_le hd (amount * percent.units)
  rw [mulPercent, roundDiv_eq_round]
  set d : ℤ := 100 * 10 ^ percent.places * quantum 2 with hdef
  set r := HalfAway.round (amount * percent.units) d
  have hcast : (2 : ℚ) * |(r : ℚ) * d - amount * percent.units| ≤ d := by exact_mod_cast hround
  have hdq : (0 : ℚ) < d := by exact_mod_cast hd
  have hd' : (d : ℚ) = 100 * 10 ^ percent.places * 100 := by
    rw [hdef]
    norm_num [quantum]
  have hsplit : ((r * quantum 2 : ℤ) : ℚ) - amount * (percent.units / 10 ^ percent.places / 100) =
      (r * d - amount * percent.units) * (100 / d) := by
    have hq : ((quantum 2 : ℤ) : ℚ) = 100 := by norm_num [quantum]
    push_cast [hq]
    rw [hd']
    field_simp
  rw [hsplit, abs_mul, abs_of_pos (div_pos (by norm_num) hdq), mul_div_assoc', div_le_iff₀ hdq]
  linarith

theorem mulPercentText_delivers (amount : ℤ) (percent : String) :
    Delivers Priced (fun r : ℤ => |(r : ℚ) - amount * (percentOf percent / 100)| ≤ 50)
      (mulPercentText amount percent) := by
  unfold mulPercentText percentOf
  cases parseExactDecimalParts percent.toList false with
  | some d =>
    dsimp only
    split_ifs with hscale
    · exact abs_mulPercent_sub_le amount ⟨d.units, d.scale, hscale⟩
    · exact (nomatch ·)
  | none => exact (nomatch ·)

/-! ### The walk over the bands -/

/-- A band of the model as a priced piece of the line. -/
def AggregateBand.piece (band : AggregateBand) : Band :=
  ⟨band.upTo, percentOf band.percent / 100⟩

theorem AggregateBand.piece_top (band : AggregateBand) : band.piece.top = band.upTo := rfl

theorem AggregateBand.piece_rate (band : AggregateBand) :
    band.piece.rate = percentOf band.percent / 100 := rfl

variable {bands : List AggregateBand}

/-- **The walk prices the interval**: it comes to the end, and each slice is off by at most half
a cent. -/
theorem walkBands_delivers {stop : ℤ} {floor cursor : ℤ}
    (htable : Table floor (bands.map (·.piece))) (hfloor : floor ≤ cursor)
    (hcursor : cursor ≤ stop) :
    Delivers Priced (fun walked : ℤ × List ℤ => walked.1 = stop ∧
      |(walked.2.sum : ℚ) - price floor (bands.map (·.piece)) cursor stop| ≤
        50 * pieces floor (bands.map (·.piece)) cursor stop) (walkBands stop cursor bands) := by
  induction bands generalizing floor cursor with
  | nil => exact htable.elim
  | cons band bands ih =>
    by_cases hdone : stop ≤ cursor
    · -- the end was reached before
      have hprice := price_of_le htable (Or.inl hdone)
      rw [walkBands, if_pos hdone]
      refine ⟨le_antisymm hcursor hdone, ?_⟩
      rw [hprice]
      simp
    · cases htop : band.upTo with
      | none =>
        -- the open band takes everything that is left
        simp only [map_cons, Table, AggregateBand.piece_top, htop] at htable
        obtain rfl := map_eq_nil_iff.mp htable
        have hover : overlap floor none cursor stop = stop - cursor := by
          simp only [overlap, Option.elim]
          omega
        simp only [walkBands, if_neg hdone, htop, Option.getD_none, le_refl, if_true,
          not_le.mp hdone]
        refine (mulPercentText_delivers _ _).bind fun slice hslice => ?_
        refine ⟨rfl, ?_⟩
        simp only [map_cons, map_nil, price, pieces,
          AggregateBand.piece_top, AggregateBand.piece_rate, htop, hover, sum_cons,
          sum_nil]
        rw [if_pos (by omega)]
        simpa using hslice
      | some top =>
        simp only [map_cons, Table, AggregateBand.piece_top, htop] at htable
        obtain ⟨hlt, hrest⟩ := htable
        simp only [map_cons, price, pieces, AggregateBand.piece_top,
          AggregateBand.piece_rate, htop, Option.getD_some]
        rcases le_or_gt top cursor with hpassed | hinside
        · -- the walk is past this band
          have hover : overlap floor (some top) cursor stop = 0 := by
            simp only [overlap, Option.elim]
            omega
          have hend : (if top ≤ stop then top else stop) = top := if_pos (by omega)
          simp only [walkBands, if_neg hdone, htop, Option.getD_some, hend,
            if_neg (not_lt.mpr hpassed)]
          refine (ih hrest hpassed hcursor).mono fun walked hwalked => ?_
          simpa [hover] using hwalked
        · rcases le_or_gt top stop with hwhole | hlast
          · -- the walk takes the band to its ceiling and goes on above it
            have hover : overlap floor (some top) cursor stop = top - cursor := by
              simp only [overlap, Option.elim]
              omega
            simp only [walkBands, if_neg hdone, htop, Option.getD_some, if_pos hwhole,
              if_pos hinside]
            refine (mulPercentText_delivers _ _).bind fun slice hslice => ?_
            refine (ih hrest le_rfl hwhole).bind fun walked hwalked => ⟨hwalked.1, ?_⟩
            have hsum := hwalked.2
            rw [price_low hrest hinside.le le_rfl, pieces_low hrest hinside.le le_rfl,
              hover, if_pos (by omega)]
            rw [abs_le] at hslice hsum ⊢
            rw [sum_cons]
            push_cast at hslice hsum ⊢
            constructor <;> linarith
          · -- the walk ends within the band
            have hover : overlap floor (some top) cursor stop = stop - cursor := by
              simp only [overlap, Option.elim]
              omega
            simp only [walkBands, if_neg hdone, htop, Option.getD_some, if_neg (not_le.mpr hlast),
              if_pos (not_le.mp hdone)]
            refine (mulPercentText_delivers _ _).bind fun slice hslice => ?_
            have hstay : walkBands stop stop bands = .ok (stop, []) := by
              cases bands with
              | nil => exact hrest.elim
              | cons band bands => rw [walkBands, if_pos le_rfl]
            rw [hstay]
            refine ⟨rfl, ?_⟩
            rw [hover, price_of_le hrest (Or.inr hlast.le),
              pieces_of_le hrest (Or.inr hlast.le), if_pos (by omega)]
            simpa using hslice

/-! ### What acceptance gives -/

theorem table_of_assertBandsFrom {subject : String} {index : ℕ} {floor : ℤ}
    (h : assertBandsFrom subject index floor bands = .ok ()) (hne : bands ≠ [])
    (hlast : ∀ band ∈ bands.getLast?, band.upTo = none) :
    Table floor (bands.map (·.piece)) := by
  induction bands generalizing index floor with
  | nil => exact absurd rfl hne
  | cons band bands ih =>
    simp only [assertBandsFrom, bind_eq_ok] at h
    obtain ⟨_, -, h⟩ := h
    cases htop : band.upTo with
    | none =>
      simp only [htop, bind_eq_ok, refuseIf_eq_ok, not_not] at h
      obtain ⟨_, hnil, -⟩ := h
      simp [Table, AggregateBand.piece_top, htop, hnil]
    | some top =>
      simp only [htop, bind_eq_ok, refuseIf_eq_ok, not_le] at h
      obtain ⟨_, hlt, h⟩ := h
      have hmore : bands ≠ [] := by
        rintro rfl
        exact absurd (hlast band (by simp)) (by simp [htop])
      have hrest := ih h hmore fun b hb => hlast b (by
        rw [List.getLast?_cons_of_ne_nil hmore]
        exact hb)
      simp [Table, AggregateBand.piece_top, htop, hlt, hrest]

section Run

variable {run : AggregateRun}

/-- The band table that applies to the employer of a run, when its levy has one. -/
def AggregateRun.Table (run : AggregateRun) (table : List AggregateBand) : Prop :=
  ∃ bands classBands, run.levy.rate = .marginalBands bands classBands ∧
    selectBands run.levy run.tenantValues bands classBands = .ok table

variable {table : List AggregateBand}

theorem AggregateRun.Table.unique {table' : List AggregateBand} (h : run.Table table)
    (h' : run.Table table') : table = table' := by
  obtain ⟨bands, classBands, hrate, htable⟩ := h
  obtain ⟨bands', classBands', hrate', htable'⟩ := h'
  obtain ⟨rfl, rfl⟩ := AggregateRate.marginalBands.inj (hrate.symm.trans hrate')
  exact Except.ok.inj (htable.symm.trans htable')

theorem mem_of_selectBands {levy : AggregateLevy} {values : String → String → Option String}
    {bands : Option (List AggregateBand)} {classBands : List AggregateClassBands}
    (h : selectBands levy values bands classBands = .ok table) :
    table ∈ bands.toList ++ classBands.map (·.bands) := by
  unfold selectBands at h
  split at h
  · next entry hentry =>
    obtain rfl := Except.ok.inj h
    have hmem : entry ∈ classBands := (mem_filter.mp (by rw [hentry]; simp)).1
    exact mem_append_right _ (mem_map_of_mem hmem)
  · exact mem_append_left _ (by simpa using orRefuse_eq_ok.mp h)
  · cases h

variable (hvalid : assertAggregateLevyValid run.levy = .ok ())

include hvalid in
theorem AggregateRun.Table.rises (h : run.Table table) (hne : table ≠ []) :
    Bands.Table 0 (table.map (·.piece)) := by
  obtain ⟨bands, classBands, hrate, htable⟩ := h
  simp only [assertAggregateLevyValid, bind_eq_ok] at hvalid
  obtain ⟨_, -, _, -, _, -, _, -, _, hrateValid, -⟩ := hvalid
  simp only [assertRateValid, hrate, bind_eq_ok, forM_eq_ok] at hrateValid
  obtain ⟨_, -, _, hbands, -⟩ := hrateValid
  have htableValid := hbands table (mem_of_selectBands htable)
  simp only [assertBands, bind_eq_ok, refuseIf_eq_ok, not_exists, not_and, not_not] at htableValid
  obtain ⟨_, hfrom, hlast⟩ := htableValid
  exact table_of_assertBandsFrom hfrom hne hlast

include hvalid in
theorem nonneg_of_valid {amount : ℤ}
    (h : run.levy.allowance = .employerAllowance amount ∨
      run.levy.allowance = .perEmployeeCap amount) : 0 ≤ amount := by
  simp only [assertAggregateLevyValid, bind_eq_ok] at hvalid
  obtain ⟨_, -, _, -, _, -, _, -, _, -, _, hallowance, -⟩ := hvalid
  rcases h with h | h <;> simpa [assertAllowanceValid, h] using hallowance

/-! ### Marks -/

/-- Where a levy stands after a total: what has been priced lies below. -/
def AggregateAllowance.mark : AggregateAllowance → ℤ → ℤ
  | .employerAllowance amount, c => max c amount
  | .perEmployeeCap amount, c => min amount c
  | _, c => c

/-- What the stubs of a total are stamped with: all of it, or what fits under a ceiling. -/
def AggregateAllowance.earned : AggregateAllowance → ℤ → ℤ
  | .perEmployeeCap amount, c => min amount c
  | _, c => c

/-- What an allowance leaves of a total. -/
def AggregateAllowance.assessable : AggregateAllowance → ℤ → ℤ
  | .employerAllowance amount, c => max 0 (c - amount)
  | .perEmployeeCap amount, c => min amount c
  | _, c => c

variable (levy : AggregateLevy)

theorem earnKey_ne : earnKey levy ≠ levy.factorKey := by
  intro h
  have hlength := congrArg String.length h
  simp [earnKey, String.length_append] at hlength

theorem stamped_append (key : String) (history : List AggregateStubAssessment)
    (a : AggregateStubAssessment) :
    stamped key (history ++ [a]) = stamped key history + (a.factors.lookup key).getD 0 := by
  simp [stamped]

theorem lookup_earnKey (amount earn : ℤ) :
    [(levy.factorKey, amount), (earnKey levy, earn)].lookup (earnKey levy) = some earn := by
  rw [lookup_cons, beq_false_of_ne (earnKey_ne levy)]
  simp

/-- The amounts of one stub are right: within half a cent for each band of its interval. -/
def AggregateRun.Accurate (run : AggregateRun) (c c' : ℤ) (amount : ℤ) : Prop :=
  ∀ table, run.Table table →
    |(amount : ℚ) - price 0 (table.map (·.piece)) (run.levy.allowance.mark c)
      (run.levy.allowance.mark c')| ≤
      50 * pieces 0 (table.map (·.piece)) (run.levy.allowance.mark c)
        (run.levy.allowance.mark c')

/-- No table that applies is empty. -/
def AggregateRun.HasBands (run : AggregateRun) : Prop := ∀ table, run.Table table → table ≠ []

theorem priceMarginal_delivers {position assessable : ℤ}
    (htable : Table 0 (bands.map (·.piece))) (hposition : 0 ≤ position)
    (hassessable : 0 ≤ assessable) :
    Delivers Priced (fun amount : ℤ =>
      |(amount : ℚ) - price 0 (bands.map (·.piece)) position (position + assessable)| ≤
        50 * pieces 0 (bands.map (·.piece)) position (position + assessable))
      (priceMarginal position assessable bands) := by
  refine (walkBands_delivers htable hposition (by omega)).bind fun walked hwalked => ?_
  refine Delivers.bind (P := fun _ => True) ?_ fun _ _ => hwalked.2
  rw [hwalked.1, refuseIf, if_neg (lt_irrefl _)]
  trivial

theorem levyName_eq : levyName levy = "employer-aggregate levy \"" ++ levy.key ++ "\"" := rfl

theorem subject_ne_walk (text : String) :
    "employer-aggregate levy \"" ++ text ≠ "marginal band walk left base unpriced" := by
  intro h
  have hhead := congrArg (fun s => s.toList.head?) h
  simp at hhead

theorem named_priced (text : String) : Priced (.pack (levyName levy ++ text)) := by
  rw [Priced, UNPRICED, ne_eq, LevyError.pack.injEq, levyName_eq, String.append_assoc,
    String.append_assoc]
  exact subject_ne_walk _

theorem assertPercent_delivers (text value : String) :
    Delivers Priced (fun _ => True) (assertPercent (levyName levy ++ text) value) := by
  refine (Delivers.refuseIf fun _ => ?_).bind fun _ _ =>
    (Delivers.refuseIf fun _ => ?_).mono fun _ _ => trivial
  all_goals
    simp only [String.append_assoc]
    exact named_priced levy _

theorem selectBands_delivers (values : String → String → Option String)
    (bands : Option (List AggregateBand)) (classBands : List AggregateClassBands) :
    Delivers Priced (fun table => selectBands levy values bands classBands = .ok table)
      (selectBands levy values bands classBands) := by
  cases h : selectBands levy values bands classBands with
  | ok table => rfl
  | error e =>
    unfold selectBands at h
    split at h
    · cases h
    · cases bands with
      | some bands => cases h
      | none =>
        obtain rfl := Except.error.inj h
        simp only [String.append_assoc]
        exact named_priced levy _
    · obtain rfl := Except.error.inj h
      simp only [String.append_assoc]
      exact named_priced levy _

include hvalid in
theorem priceBase_delivers {priors : AggregateStubPriors} (hbands : run.HasBands)
    (hvalues : priors.tenantValues = run.tenantValues) {position assessable : ℤ}
    (hposition : 0 ≤ position) (hassessable : 0 ≤ assessable) :
    Delivers Priced (fun amount : ℤ => ∀ table, run.Table table →
      |(amount : ℚ) - price 0 (table.map (·.piece)) position (position + assessable)| ≤
        50 * pieces 0 (table.map (·.piece)) position (position + assessable))
      (priceBase run.levy priors position assessable) := by
  have hother : (∀ bands classBands, run.levy.rate ≠ .marginalBands bands classBands) →
      ∀ table, ¬run.Table table := by
    rintro hrate table ⟨bands, classBands, h, -⟩
    exact hrate bands classBands h
  unfold priceBase
  split
  · next percent hrate =>
    refine (mulPercentText_delivers _ _).mono fun amount _ table htable => ?_
    exact absurd htable (hother (by simp [hrate]) table)
  · next slotKey percentField hrate =>
    refine (Delivers.orRefuse fun _ => ?_).bind fun raw _ => ?_
    · simp only [String.append_assoc]
      exact named_priced run.levy _
    · refine (assertPercent_delivers run.levy _ _).bind fun _ _ => ?_
      refine (mulPercentText_delivers _ _).mono fun amount _ table htable => ?_
      exact absurd htable (hother (by simp [hrate]) table)
  · next bands classBands hrate =>
    refine (selectBands_delivers _ _ _ _).bind fun table hselect => ?_
    rw [hvalues] at hselect
    have htable : run.Table table := ⟨bands, classBands, hrate, hselect⟩
    refine (priceMarginal_delivers (htable.rises hvalid (hbands table htable)) hposition
      hassessable).mono fun amount hamount other hother => ?_
    rwa [hother.unique htable]

/-! ### One stub, from one mark to the next -/

/-- A levy that prices stub by stub, not cumulatively. -/
def AggregateAllowance.IsMarginal (allowance : AggregateAllowance) : Prop :=
  ∀ factKey month day, allowance ≠ .accruingAllowance factKey month day

def AggregateRun.excluded (run : AggregateRun) : Bool := isExcluded run.levy (run.priors [])

variable {b c : ℤ}

/-- The slice of a stub is the interval between two marks. -/
theorem pricedSlice_eq {levy : AggregateLevy} (hmarginal : levy.allowance.IsMarginal)
    (hb : 0 < b) :
    pricedSlice levy b (levy.allowance.earned c) =
      .ok (levy.allowance.mark c, levy.allowance.mark (c + b) - levy.allowance.mark c) := by
  unfold pricedSlice
  cases h : levy.allowance with
  | nothing => simp [earned, mark]
  | employerAllowance amount =>
    simp only [earned, mark, Except.ok.injEq, Prod.mk.injEq]
    constructor <;> split_ifs <;> omega
  | perEmployeeCap amount =>
    simp only [earned, mark, Except.ok.injEq, Prod.mk.injEq,
      true_and]
    split_ifs <;> omega
  | accruingAllowance factKey month day => exact absurd h (hmarginal _ _ _)

theorem mark_mono (allowance : AggregateAllowance) {c' : ℤ} (h : c ≤ c') :
    allowance.mark c ≤ allowance.mark c' := by
  cases allowance <;> simp only [mark] <;> omega

include hvalid in
theorem mark_nonneg (hc : 0 ≤ c) : 0 ≤ run.levy.allowance.mark c := by
  cases h : run.levy.allowance with
  | perEmployeeCap amount => exact le_min (nonneg_of_valid hvalid (Or.inr h)) hc
  | employerAllowance amount => exact le_max_of_le_left hc
  | _ => exact hc

/-- What a stub adds to the stamps: all of it past a shelter, the priced slice otherwise. -/
theorem earned_sub (allowance : AggregateAllowance) (b c : ℤ) :
    allowance.earned (c + b) - allowance.earned c =
      if allowance.isShelter then b else allowance.mark (c + b) - allowance.mark c := by
  cases allowance <;>
    simp [earned, isShelter, mark]

/-- What the next stub of a run comes to. -/
structure StubSound (run : AggregateRun) (c b : ℤ) (a : AggregateStubAssessment) : Prop where
  assessable : a.assessable = run.levy.allowance.mark (c + b) - run.levy.allowance.mark c
  earned : (a.factors.lookup (earnKey run.levy)).getD 0 =
    run.levy.allowance.earned (c + b) - run.levy.allowance.earned c
  amount : run.Accurate c (c + b) a.amount

variable {history : List AggregateStubAssessment}

include hvalid in
theorem assessMarginal_delivers (hmarginal : run.levy.allowance.IsMarginal) (hbands : run.HasBands)
    (hb : 0 < b) (hc : 0 ≤ c)
    (hprior : stamped (earnKey run.levy) history = run.levy.allowance.earned c) :
    Delivers Priced (StubSound run c b) (assessMarginal run.levy b (run.priors history)) := by
  have hmono := mark_mono run.levy.allowance (show c ≤ c + b by omega)
  have hpriors : (if run.levy.allowance.isCap then (run.priors history).employeePriorBase
      else (run.priors history).employerPriorBase) = run.levy.allowance.earned c := by
    rw [← hprior]
    exact ite_self _
  rw [assessMarginal, hpriors, pricedSlice_eq hmarginal hb, ok_bind]
  dsimp only
  by_cases hnone : run.levy.allowance.mark (c + b) - run.levy.allowance.mark c ≤ 0
  · -- nothing of the stub is priced, and a shelter still counts it on
    have hsame : run.levy.allowance.mark (c + b) = run.levy.allowance.mark c := by omega
    have hzero : run.Accurate c (c + b) 0 := by
      intro table htable
      have hrises := htable.rises hvalid (hbands table htable)
      rw [hsame, price_of_le hrises (Or.inl le_rfl)]
      simp
    rw [if_pos hnone]
    split_ifs with hshelter
    · refine ⟨by simp [hsame], ?_, hzero⟩
      rw [lookup_earnKey, earned_sub, if_pos hshelter]
      rfl
    · refine ⟨by simp [hsame, ZERO_ASSESSMENT], ?_, hzero⟩
      rw [earned_sub, if_neg hshelter, hsame, sub_self]
      rfl
  · rw [if_neg hnone]
    refine (priceBase_delivers hvalid hbands rfl (mark_nonneg hvalid hc) (by omega)).bind
      fun amount hamount => ?_
    refine ⟨rfl, ?_, fun table htable => ?_⟩
    · rw [lookup_earnKey, earned_sub]
      rfl
    · have htotal := hamount table htable
      rwa [add_sub_cancel] at htotal

include hvalid in
/-- **A stub prices the interval from one mark to the next.** -/
theorem assessStub_delivers (htiming : run.levy.timing = .perRun) (hexcluded : run.excluded = false)
    (hmarginal : run.levy.allowance.IsMarginal) (hbands : run.HasBands) (hb : 0 < b) (hc : 0 ≤ c)
    (hprior : stamped (earnKey run.levy) history = run.levy.allowance.earned c) :
    Delivers Priced (StubSound run c b)
      (assessAggregateLevyStub run.levy b (run.priors history)) := by
  have hstart : ¬(run.levy.timing = .annual ∨ b ≤ 0) := by
    rw [htiming]
    simp [hb]
  have hincluded : isExcluded run.levy (run.priors history) = false := hexcluded
  rw [assessAggregateLevyStub, if_neg hstart, hvalid, hincluded]
  have hdelivers := assessMarginal_delivers hvalid hmarginal hbands hb hc hprior
  cases hallowance : run.levy.allowance with
  | accruingAllowance factKey month day => exact absurd hallowance (hmarginal _ _ _)
  | _ => exact hdelivers

/-! ### Stub after stub, marginally -/

/-- How many slices the stubs of a list are priced in, from a total on: one for each stub and
band that meet. -/
def AggregateRun.sliceCount (run : AggregateRun) (table : List AggregateBand) : ℤ → List ℤ → ℕ
  | _, [] => 0
  | c, b :: bases =>
    pieces 0 (table.map (·.piece)) (run.levy.allowance.mark c)
      (run.levy.allowance.mark (c + b)) + run.sliceCount table (c + b) bases

theorem sliceCount_append (table : List AggregateBand) (c b : ℤ) (bases : List ℤ) :
    run.sliceCount table c (bases ++ [b]) = run.sliceCount table c bases +
      pieces 0 (table.map (·.piece)) (run.levy.allowance.mark (c + bases.sum))
        (run.levy.allowance.mark (c + bases.sum + b)) := by
  induction bases generalizing c with
  | nil => simp [AggregateRun.sliceCount]
  | cons b' bases ih =>
    simp only [cons_append, AggregateRun.sliceCount, ih, sum_cons, add_assoc]

/-- What holds between two stubs of a marginal levy. -/
structure MarginalSound (run : AggregateRun) (done : List ℤ)
    (history : List AggregateStubAssessment) : Prop where
  earned : stamped (earnKey run.levy) history = run.levy.allowance.earned done.sum
  assessable : (history.map (·.assessable)).sum =
    run.levy.allowance.mark done.sum - run.levy.allowance.mark 0
  amount : ∀ table, run.Table table →
    |((history.map (·.amount)).sum : ℚ) - price 0 (table.map (·.piece))
      (run.levy.allowance.mark 0) (run.levy.allowance.mark done.sum)| ≤
      50 * run.sliceCount table 0 done

include hvalid in
theorem marginalSound_nil (hbands : run.HasBands) : MarginalSound run [] [] where
  earned := by
    cases h : run.levy.allowance with
    | perEmployeeCap amount => exact (min_eq_right (nonneg_of_valid hvalid (Or.inr h))).symm
    | _ => rfl
  assessable := by simp
  amount table htable := by
    have hrises := htable.rises hvalid (hbands table htable)
    rw [sum_nil, price_of_le hrises (Or.inl le_rfl)]
    simp

include hvalid in
theorem MarginalSound.step {done : List ℤ} {a : AggregateStubAssessment} (hbands : run.HasBands)
    (hdone : 0 ≤ done.sum) (hb : 0 < b) (h : MarginalSound run done history)
    (ha : StubSound run done.sum b a) : MarginalSound run (done ++ [b]) (history ++ [a]) := by
  have hsum : (done ++ [b]).sum = done.sum + b := by simp
  refine ⟨?_, ?_, fun table htable => ?_⟩
  · rw [stamped_append, h.earned, ha.earned, hsum]
    omega
  · rw [map_append, sum_append, h.assessable, hsum, map_singleton,
      sum_singleton, ha.assessable]
    omega
  · have hrises := htable.rises hvalid (hbands table htable)
    have hsplit := price_add hrises (mark_mono run.levy.allowance hdone)
      (mark_mono run.levy.allowance (show done.sum ≤ done.sum + b by omega))
    have hbefore := h.amount table htable
    have hstub := ha.amount table htable
    rw [sliceCount_append, hsum, zero_add, ← hsplit, map_append, sum_append,
      map_singleton, sum_singleton]
    rw [abs_le] at hbefore hstub ⊢
    push_cast
    constructor <;> linarith

include hvalid in
/-- **The run of a marginal levy.** -/
theorem assessStubs_marginal (htiming : run.levy.timing = .perRun)
    (hexcluded : run.excluded = false) (hmarginal : run.levy.allowance.IsMarginal)
    (hbands : run.HasBands) {bases : List ℤ} (hpos : ∀ b ∈ bases, 0 < b) :
    Delivers Priced (MarginalSound run bases) (assessStubs run bases) := by
  refine Delivers.foldlM (MarginalSound run) (marginalSound_nil hvalid hbands)
    fun done b rest history hsplit hsound => ?_
  have hb : 0 < b := hpos b (by simp [hsplit])
  have hdone : 0 ≤ done.sum := List.sum_nonneg fun d hd => (hpos d (by simp [hsplit, hd])).le
  refine (assessStub_delivers hvalid htiming hexcluded hmarginal hbands hb hdone
    hsound.earned).bind fun a ha => ?_
  exact hsound.step hvalid hbands hdone hb ha

/-! ### Stub after stub, cumulatively -/

variable {percent : String}

theorem mulPercentText_eq_ok {amount r : ℤ} (h : mulPercentText amount percent = .ok r) :
    ∃ p : PlainPercent, parseExactDecimalParts percent.toList false = some ⟨p.units, p.places⟩ ∧
      r = mulPercent amount p 2 := by
  unfold mulPercentText at h
  split at h
  · next d hd =>
    split_ifs at h with hscale
    exact ⟨⟨d.units, d.scale, hscale⟩, hd, (Except.ok.inj h).symm⟩
  · cases h

variable {d : ExactDecimal}

theorem mulPercentText_mono (hd : parseExactDecimalParts percent.toList false = some d)
    (hunits : 0 ≤ d.units) {x y r r' : ℤ} (hxy : x ≤ y) (hx : mulPercentText x percent = .ok r)
    (hy : mulPercentText y percent = .ok r') : r ≤ r' := by
  obtain ⟨p, hp, rfl⟩ := mulPercentText_eq_ok hx
  obtain ⟨p', hp', rfl⟩ := mulPercentText_eq_ok hy
  obtain rfl : p = p' := by
    have hsame := (hp.symm.trans hp')
    cases p
    cases p'
    simpa using hsame
  have hnonneg : 0 ≤ p.units := by
    rw [hd] at hp
    cases hp
    exact hunits
  have hquantum : (0 : ℤ) < quantum 2 := by decide
  simp only [mulPercent, roundDiv_eq_round]
  refine mul_le_mul_of_nonneg_right (HalfAway.round_mono (by positivity) ?_) hquantum.le
  exact mul_le_mul_of_nonneg_right hxy hnonneg

/-- What holds between two stubs of a levy with an accruing allowance: everything is stamped,
and what is paid is what was due on the total so far. -/
structure AccruingSound (run : AggregateRun) (percent : String) (done : List ℤ)
    (history : List AggregateStubAssessment) : Prop where
  earned : stamped (earnKey run.levy) history = done.sum
  paid : stamped run.levy.factorKey history = (history.map (·.amount)).sum
  assessable : (history.map (·.assessable)).sum = done.sum
  start : done = [] → history = []
  amount : done ≠ [] → ∃ due, mulPercentText done.sum percent = .ok due ∧
    (history.map (·.amount)).sum =
      max 0 (due - accruedAllowance run.allowanceAnnual run.monthsElapsed)

theorem AccruingSound.step (hd : parseExactDecimalParts percent.toList false = some d)
    (hunits : 0 ≤ d.units) {done : List ℤ} {due : ℤ} (hb : 0 < b)
    (h : AccruingSound run percent done history)
    (hdue : mulPercentText (done.sum + b) percent = .ok due) (amount : ℤ)
    (hamount : amount = max 0 (due - accruedAllowance run.allowanceAnnual run.monthsElapsed -
      stamped run.levy.factorKey history)) :
    AccruingSound run percent (done ++ [b])
      (history ++ [⟨amount, b, [(run.levy.factorKey, amount), (earnKey run.levy, b)]⟩]) := by
  refine ⟨?_, ?_, ?_, fun hnil => absurd hnil (by simp), fun _ => ⟨due, by simpa using hdue, ?_⟩⟩
  · rw [stamped_append, lookup_earnKey, h.earned]
    simp
  · rw [stamped_append, h.paid]
    simp
  · simp [h.assessable]
  · rw [map_append, sum_append, map_singleton, sum_singleton]
    rw [h.paid] at hamount
    by_cases hnil : done = []
    · rw [h.start hnil] at hamount ⊢
      simpa using hamount
    · obtain ⟨before, hbefore, hpaid⟩ := h.amount hnil
      have hle := mulPercentText_mono hd hunits (by omega) hbefore hdue
      dsimp only
      omega

include hvalid in
theorem flat_of_accruing {factKey : String} {month day : ℤ}
    (hallowance : run.levy.allowance = .accruingAllowance factKey month day) :
    ∃ percent d, run.levy.rate = .flatPercent percent ∧
      parseExactDecimalParts percent.toList false = some d ∧ 0 ≤ d.units := by
  simp only [assertAggregateLevyValid, bind_eq_ok] at hvalid
  obtain ⟨_, -, _, -, _, -, _, -, _, hrate, _, -, _, -, _, -, _, -, haccrual⟩ := hvalid
  simp only [assertAccrualValid, hallowance, bind_eq_ok, refuseIf_eq_ok] at haccrual
  obtain ⟨_, hflat, -⟩ := haccrual
  cases h : run.levy.rate with
  | flatPercent percent =>
    simp only [assertRateValid, h, assertPercent, bind_eq_ok, refuseIf_eq_ok] at hrate
    obtain ⟨_, -, hsome⟩ := hrate
    obtain ⟨d, hd⟩ := Option.ne_none_iff_exists'.mp (by simpa using hsome)
    obtain ⟨hparse, hunits⟩ := Option.filter_eq_some_iff.mp
      (show (parseExactDecimalParts percent.toList false).filter (fun d => 0 ≤ d.units) = some d
        from hd)
    exact ⟨percent, d, rfl, hparse, by simpa using hunits⟩
  | _ => simp [h, AggregateRate.isFlat] at hflat

include hvalid in
/-- **The run of a levy with an accruing allowance.** -/
theorem assessStubs_accruing (htiming : run.levy.timing = .perRun)
    (hexcluded : run.excluded = false) {factKey : String} {month day : ℤ}
    (hallowance : run.levy.allowance = .accruingAllowance factKey month day)
    (hrate : run.levy.rate = .flatPercent percent)
    (hd : parseExactDecimalParts percent.toList false = some d) (hunits : 0 ≤ d.units)
    {bases : List ℤ} (hpos : ∀ b ∈ bases, 0 < b) :
    Delivers Priced (AccruingSound run percent bases) (assessStubs run bases) := by
  refine Delivers.foldlM (AccruingSound run percent) ⟨rfl, rfl, rfl, fun _ => rfl, by simp⟩
    fun done b rest history hsplit hsound => ?_
  have hb : 0 < b := hpos b (by simp [hsplit])
  have hstart : ¬(run.levy.timing = .annual ∨ b ≤ 0) := by
    rw [htiming]
    simp [hb]
  have hincluded : isExcluded run.levy (run.priors history) = false := hexcluded
  have hdue := mulPercentText_delivers (done.sum + b) percent
  have hstub : assessAggregateLevyStub run.levy b (run.priors history) =
      (mulPercentText (done.sum + b) percent >>= fun due =>
        let amount := max 0 (due - accruedAllowance run.allowanceAnnual run.monthsElapsed -
          stamped run.levy.factorKey history)
        .ok ⟨amount, b, [(run.levy.factorKey, amount), (earnKey run.levy, b)]⟩) := by
    rw [assessAggregateLevyStub, if_neg hstart, hvalid, hincluded, hallowance,
      assessAccruingAllowance, hrate]
    have hfloor : ∀ due : ℤ, (if 0 < due then due else 0) = max 0 due := by
      intro due
      split_ifs <;> omega
    simp only [AggregateRun.priors, hsound.earned, hfloor]
    rfl
  rw [hstub]
  cases hpriced : mulPercentText (done.sum + b) percent with
  | error e =>
    rw [hpriced] at hdue
    exact hdue
  | ok due => exact hsound.step hd hunits hb hpriced _ rfl

/-! ### However payroll is cut -/

theorem valid_of_mem {levies : List AggregateLevy} {levy : AggregateLevy}
    (h : assertAggregateLeviesValid levies = .ok ()) (hmem : levy ∈ levies) :
    assertAggregateLevyValid levy = .ok () := by
  simp only [assertAggregateLeviesValid, bind_eq_ok] at h
  obtain ⟨seen, h, -⟩ := h
  have hall := foldlM_invariant
    (fun done _ => ∀ l ∈ done, assertAggregateLevyValid l = .ok ()) h (by simp)
    fun done l rest seen seen' _ hdone hstep => by
      simp only [bind_eq_ok] at hstep
      obtain ⟨_, hl, -⟩ := hstep
      simpa [or_imp, forall_and] using ⟨hdone, hl⟩
  exact hall levy hmem

include hvalid in
theorem mark_sub_mark (total : ℤ) :
    run.levy.allowance.mark total - run.levy.allowance.mark 0 =
      run.levy.allowance.assessable total := by
  cases h : run.levy.allowance with
  | employerAllowance amount =>
    have hamount := nonneg_of_valid hvalid (Or.inl h)
    simp only [mark, assessable]
    omega
  | perEmployeeCap amount =>
    have hamount := nonneg_of_valid hvalid (Or.inr h)
    simp only [mark, assessable]
    omega
  | _ => simp [mark, assessable]

theorem accruedAllowance_nonneg {annual : ℤ} (h : 0 ≤ annual) (months : ℕ) :
    0 ≤ accruedAllowance annual months := by
  rw [accruedAllowance, roundDiv_eq_round]
  exact mul_nonneg (HalfAway.round_nonneg (by decide) (by positivity)) (by decide)

/-- What the assessments of a whole payroll come to. -/
structure TotalsAre (run : AggregateRun) (bases : List ℤ)
    (history : List AggregateStubAssessment) : Prop where
  /-- What the allowance leaves of the total. -/
  assessable : (history.map (·.assessable)).sum = run.levy.allowance.assessable bases.sum
  /-- The price of that interval, but for half a cent a slice. -/
  marginal : ∀ table, run.Table table →
    |((history.map (·.amount)).sum : ℚ) - price 0 (table.map (·.piece))
      (run.levy.allowance.mark 0) (run.levy.allowance.mark bases.sum)| ≤
      50 * run.sliceCount table 0 bases
  /-- The cumulative amount due, exactly. -/
  accruing : ∀ factKey month day percent due,
    run.levy.allowance = .accruingAllowance factKey month day →
    run.levy.rate = .flatPercent percent → mulPercentText bases.sum percent = .ok due →
    0 ≤ run.allowanceAnnual ∨ bases ≠ [] →
    (history.map (·.amount)).sum =
      max 0 (due - accruedAllowance run.allowanceAnnual run.monthsElapsed)

/-- **Employer-aggregate levies do not depend on how payroll is cut into stubs.** For every
accepted levy assessed per run, of an employer it does not exclude, and every list of positive
stub bases: the band walk leaves no base unpriced, and what is assessed depends only on the
total – but for the rounding of each slice of a marginal band. -/
theorem aggregate_levy_totals {levies : List AggregateLevy} {bases : List ℤ}
    (hlevies : assertAggregateLeviesValid levies = .ok ()) (hmem : run.levy ∈ levies)
    (htiming : run.levy.timing = .perRun) (hexcluded : run.excluded = false)
    (hbands : run.HasBands) (hpos : ∀ b ∈ bases, 0 < b) :
    assessStubs run bases ≠ .error UNPRICED ∧
      ∀ history, assessStubs run bases = .ok history → TotalsAre run bases history := by
  have hvalid := valid_of_mem hlevies hmem
  have htotal : 0 ≤ bases.sum := List.sum_nonneg fun b hb => (hpos b hb).le
  by_cases hmarginal : run.levy.allowance.IsMarginal
  · have hrun := assessStubs_marginal hvalid htiming hexcluded hmarginal hbands hpos
    refine ⟨fun h => ?_, fun history h => ?_⟩
    · rw [h] at hrun
      exact hrun rfl
    · rw [h] at hrun
      refine ⟨hrun.assessable.trans (mark_sub_mark hvalid _), hrun.amount, ?_⟩
      intro factKey month day percent due hallowance
      exact absurd hallowance (hmarginal _ _ _)
  · obtain ⟨factKey, month, day, hallowance⟩ :
        ∃ factKey month day, run.levy.allowance = .accruingAllowance factKey month day := by
      simpa [IsMarginal] using hmarginal
    obtain ⟨percent, d, hrate, hd, hunits⟩ := flat_of_accruing hvalid hallowance
    have hrun := assessStubs_accruing hvalid htiming hexcluded hallowance hrate hd hunits hpos
    refine ⟨fun h => ?_, fun history h => ?_⟩
    · rw [h] at hrun
      exact hrun rfl
    · rw [h] at hrun
      refine ⟨by rw [hrun.assessable, hallowance]; rfl, ?_, ?_⟩
      · rintro table ⟨bands, classBands, hother, -⟩
        rw [hrate] at hother
        cases hother
      · intro _ _ _ percent' due _ hrate' hdue hsome
        obtain rfl := AggregateRate.flatPercent.inj (hrate.symm.trans hrate')
        by_cases hnil : bases = []
        · -- no stub, no amount: the allowance covers a base of nothing
          have hannual : 0 ≤ run.allowanceAnnual := hsome.resolve_right (not_not.mpr hnil)
          have hzero : due = 0 := by
            obtain ⟨p, -, rfl⟩ := mulPercentText_eq_ok hdue
            simp [hnil, mulPercent, roundDiv_eq_round, HalfAway.round_zero, quantum]
          have haccrued := accruedAllowance_nonneg hannual run.monthsElapsed
          rw [hrun.start hnil, hzero, max_eq_left (by omega)]
          rfl
        · obtain ⟨due', hdue', hamount⟩ := hrun.amount hnil
          obtain rfl := Except.ok.inj (hdue.symm.trans hdue')
          exact hamount

end Run

/-! ### A health levy -/

/-- A levy in two bands above a shelter of 1,000.00, with a class of employers it excludes. -/
def healthLevy : AggregateLevy :=
  { key := "health", systemKey := "HEALTH", base := ⟨.gross, .org, none⟩, timing := .perRun
    rate := .marginalBands (some [⟨some 20000000, "1.95"⟩, ⟨none, "4.26"⟩]) []
    allowance := .employerAllowance 10000000, classSlotKey := none
    excludedBy := some ⟨"employer", "exempt"⟩, offset := none, factorKey := "EHT" }

def healthRun (exempt : String) : AggregateRun :=
  { levy := healthLevy, tenantValues := fun _ _ => some exempt, allowanceAnnual := 0
    monthsElapsed := 0 }

theorem aggregate_levy_totals_sample :
    ∃ history, assessStubs (healthRun "false") [8000000, 9990000, 7770000] = .ok history ∧
      TotalsAre (healthRun "false") [8000000, 9990000, 7770000] history := by
  have hvalid : assertAggregateLeviesValid [healthLevy] = .ok () := by decide +kernel
  have hbands : (healthRun "false").HasBands := by
    rintro table ⟨bands, classBands, hrate, htable⟩
    cases hrate
    cases htable
    simp
  have hpos : ∀ b ∈ [8000000, 9990000, 7770000], (0 : ℤ) < b := by decide
  obtain ⟨-, htotals⟩ := aggregate_levy_totals hvalid (by simp [healthRun]) rfl (by decide) hbands
    hpos
  obtain ⟨history, hrun⟩ : ∃ history,
      assessStubs (healthRun "false") [8000000, 9990000, 7770000] = .ok history :=
    exists_of_isOk (by decide +kernel)
  exact ⟨history, hrun, htotals history hrun⟩

/-- An employer of the excluded class is assessed nothing, whatever its payroll. -/
theorem excluded_employer_not_assessed :
    assertAggregateLeviesValid [healthLevy] = .ok () ∧ healthLevy.timing = .perRun ∧
      ∃ history, assessStubs (healthRun "true") [8000000, 9990000] = .ok history ∧
        (history.map (·.assessable)).sum ≠ healthLevy.allowance.assessable 17990000 := by
  have hrun : (assessStubs (healthRun "true") [8000000, 9990000]).toOption.any
      (fun history => (history.map (·.assessable)).sum ≠
        healthLevy.allowance.assessable 17990000) = true := by decide +kernel
  obtain ⟨history, hreturns, hne⟩ := exists_of_any hrun
  exact ⟨by decide +kernel, rfl, history, hreturns, by simpa using hne⟩

end OpenBooks
