import OpenBooks.Lib.Bands
import OpenBooks.Lib.Checked
import OpenBooks.Lib.FirstSeen
import OpenBooks.Money.DecimalRefusal
import Mathlib.Algebra.Order.BigOperators.Group.List
import Mathlib.Data.List.Sort

/-!
# Rating usage

A metered quantity is priced through bands: `rateUsage` checks that the bands cut
everything above zero into pieces and rates the quantity by the kind of the bands.

Quantities are in hundred-millionths (`QUANTITY_UNITS`), unit prices in
ten-billionths and amounts in ten-thousandths. Every line rounds once, from the product of its
price and its quantity, and the total is the sum of the lines.
-/

namespace OpenBooks

open Checked List FirstSeen Bands

/-! ### Bands and lines -/

structure RatingError where
  message : String

inductive RatingBandKind
  | graduated
  | volume
  | package
  | overage
  | commitShortfall
  | prepaidDrawdown
  deriving DecidableEq

def RatingBandKind.text : RatingBandKind → String
  | graduated => "graduated"
  | volume => "volume"
  | package => "package"
  | overage => "overage"
  | commitShortfall => "commit_shortfall"
  | prepaidDrawdown => "prepaid_drawdown"

inductive PackageRounding
  | up
  | down
  deriving DecidableEq

structure RatingBand where
  kind : RatingBandKind
  seq : ℤ
  /-- The ceiling, itself within the band; none is infinity. -/
  upToQty : Option ℤ
  unitPrice : ℤ
  flatAmount : ℤ := 0
  includedQty : ℤ := 0
  packageSize : Option ℤ := none
  packageRounding : Option PackageRounding := none

structure RateLine where
  kind : RatingBandKind
  bandSeq : ℤ
  quantity : ℤ
  unitPrice : ℤ
  amount : ℤ

def QUANTITY_UNITS : ℤ := 100000000

/-- A number as it is quoted in a refusal. -/
def suppliedNumber (units : ℤ) (scale : ℕ) : String :=
  suppliedValue (.text (renderExactDecimal units scale))

/-- An amount times exact factors, rounded once. -/
def mulDecimalFactors (amount : ℤ) (factors : List ℤ) : ℤ :=
  roundDiv (amount * factors.prod) (RATE_SCALE ^ factors.length)

/-- A quantity as a factor: factors have ten decimals. -/
def quantityFactor (quantity : ℤ) : ℤ := quantity * 100

def moneyFactor (amount : ℤ) : ℤ := amount * 1000000

/-- The line for a quantity in a band, at its unit price. -/
def usageLine (kind : RatingBandKind) (bandSeq quantity unitPrice : ℤ) : RateLine where
  kind := kind
  bandSeq := bandSeq
  quantity := quantity
  unitPrice := unitPrice
  amount := mulDecimalFactors SCALE [unitPrice, quantityFactor quantity]

/-- The line of a band's flat fee, if it has one. -/
def flatLine (kind : RatingBandKind) (band : RatingBand) : List RateLine :=
  if band.flatAmount = 0 then []
  else
    [{ kind := kind
       bandSeq := band.seq
       quantity := QUANTITY_UNITS
       unitPrice := moneyFactor band.flatAmount
       amount := mulDecimalFactors SCALE
        [moneyFactor band.flatAmount, quantityFactor QUANTITY_UNITS] }]

/-! ### The kinds -/

/-- Each band rates what of the total lies between the floor and its ceiling. -/
def rateGraduated (total : ℤ) : ℤ → List RatingBand → List RateLine
  | _, [] => []
  | floor, band :: bands =>
    let ceiling := band.upToQty.getD total
    let remaining := total - floor
    let take := if remaining ≤ 0 then 0
      else if remaining < ceiling - floor then remaining else ceiling - floor
    let lines := if 0 < take then
        usageLine .graduated band.seq take band.unitPrice :: flatLine .graduated band
      else []
    match band.upToQty with
    | none => lines
    | some top => lines ++ rateGraduated total top bands

/-- The first band whose ceiling holds the total. -/
def findLandedBand (total : ℤ) (placed : List RatingBand) : Except RatingError RatingBand :=
  orRefuse (placed.find? fun band => band.upToQty.all fun top => total ≤ top)
    ⟨"rating bands must cover [0, ∞)"⟩

/-- Everything at the price of the band that the total lands in. -/
def rateVolume (total : ℤ) (placed : List RatingBand) : Except RatingError (List RateLine) := do
  let band ← findLandedBand total placed
  return usageLine .volume band.seq total band.unitPrice :: flatLine .volume band

/-- Whole packages of the band that the total lands in. -/
def ratePackage (total : ℤ) (placed : List RatingBand) : Except RatingError (List RateLine) := do
  let band ← findLandedBand total placed
  let size ← orRefuse band.packageSize (⟨"rating band " ++ toString band.seq ++
    " is a package band without a packageSize — set the block size"⟩ : RatingError)
  let rounding ← orRefuse band.packageRounding (⟨"rating band " ++ toString band.seq ++
    " packageRounding must be \"up\" or \"down\" — got " ++ suppliedValue .null⟩ : RatingError)
  refuseIf (size ≤ 0) (⟨"rating band " ++ toString band.seq ++
    " packageSize must be greater than zero — got " ++ suppliedNumber size 8⟩ : RatingError)
  let blocks := if rounding = .up ∧ total % size ≠ 0 then total / size + 1 else total / size
  if blocks = 0 then return []
  else return usageLine .package band.seq (blocks * QUANTITY_UNITS) band.unitPrice ::
    flatLine .package band

/-- What goes beyond the included quantity, at the price of the one band. -/
def rateOverage (total : ℤ) (placed : List RatingBand) : Except RatingError (List RateLine) :=
  match placed with
  | [band] => do
    refuseIf (band.includedQty < 0) (⟨"rating band " ++ toString band.seq ++
      " includedQty cannot be negative — got " ++ suppliedNumber band.includedQty 8⟩ : RatingError)
    let excess := total - band.includedQty
    if excess ≤ 0 then return []
    else return usageLine .overage band.seq excess band.unitPrice :: flatLine .overage band
  | _ => .error ⟨"overage rates a single band: includedQty at zero, the excess at unitPrice"⟩

/-! ### Rating -/

/-- A unit price fits its column: at most eight decimals. -/
def checkUnitPrice (band : RatingBand) : Except RatingError Unit :=
  refuseIf (band.unitPrice % 100 ≠ 0) ⟨"rating band " ++ toString band.seq ++
    " unitPrice accepts at most 8 decimal places" ++
    " (document_lines.unit_price is numeric(28,8)) — got " ++ suppliedNumber band.unitPrice 10⟩

/-- Ceilings rise from the floor. -/
def checkCeilings : ℤ → List RatingBand → Except RatingError Unit
  | _, [] => .ok ()
  | floor, band :: bands =>
    match band.upToQty with
    | none => .ok ()
    | some top => do
      refuseIf (top ≤ floor) (⟨"rating band " ++ toString band.seq ++
        " upToQty must sit above the previous band's — bands overlap or leave no width"⟩ :
        RatingError)
      checkCeilings top bands

/-- The bands in the order in which they are read. -/
def orderedBands (bands : List RatingBand) : List RatingBand :=
  bands.insertionSort fun a b => a.seq ≤ b.seq

/-- The lines that a quantity is billed as. -/
def rateUsage (quantity : ℤ) (bands : List RatingBand) : Except RatingError (List RateLine) := do
  refuseIf (quantity < 0) (⟨"rated quantity cannot be negative — got " ++
    suppliedNumber quantity 8⟩ : RatingError)
  let first ← orRefuse bands.head? (⟨
    "rateUsage requires at least one rating band — a quantity with no price list has no rate"⟩ :
    RatingError)
  if quantity = 0 then return []
  else do
    let kinds := keys RatingBand.kind bands
    refuseIf (1 < kinds.length) (⟨"rateUsage rates one band kind per call — got " ++
      ", ".intercalate (kinds.map RatingBandKind.text)⟩ : RatingError)
    let ordered := orderedBands bands
    ordered.forM checkUnitPrice
    let openEnded := ordered.filter fun band => band.upToQty = none
    refuseIf (openEnded.length ≠ 1 ∨ ordered.getLast?.all (fun band => band.upToQty ≠ none) = true)
      (⟨"rating bands must cover [0, ∞): exactly one band carries a null upToQty (infinity), in the last sequence position"⟩ :
      RatingError)
    checkCeilings 0 ordered
    match first.kind with
    | .graduated => .ok (rateGraduated quantity 0 ordered)
    | .volume => rateVolume quantity ordered
    | .package => ratePackage quantity ordered
    | .overage => rateOverage quantity ordered
    | .commitShortfall => .error ⟨
      "commit_shortfall bands are not invoice lines — bill the shortfall with commitShortfall instead"⟩
    | .prepaidDrawdown => .error ⟨
      "prepaid_drawdown bands are not invoice lines — split the rated amount with applyPrepaid instead"⟩

/-! ### What is accepted -/

/-- A band as the library sees it. -/
def RatingBand.piece (band : RatingBand) : Band := ⟨band.upToQty, band.unitPrice⟩

/-- The bands rise from the floor, and the last is open. -/
def RatingTable (floor : ℤ) (bands : List RatingBand) : Prop :=
  Table floor (bands.map RatingBand.piece)

variable {floor : ℤ}

theorem ratingTable_cons {band : RatingBand} {bands : List RatingBand} :
    RatingTable floor (band :: bands) ↔ band.upToQty = none ∧ bands = [] ∨
      ∃ top, band.upToQty = some top ∧ floor < top ∧ RatingTable top bands := by
  rw [RatingTable, map_cons, table_cons, map_eq_nil_iff]
  rfl

theorem ratingTable_iff {placed : List RatingBand} :
    RatingTable floor placed ↔
      ¬((placed.filter fun band => band.upToQty = none).length ≠ 1 ∨
        placed.getLast?.all (fun band => band.upToQty ≠ none) = true) ∧
      checkCeilings floor placed = .ok () := by
  induction placed generalizing floor with
  | nil => simp [RatingTable, Table]
  | cons band placed ih =>
    rw [RatingTable, map_cons, Table, checkCeilings, RatingBand.piece]
    cases htop : band.upToQty with
    | none =>
      -- the open band is the only one, so it is the last
      simp only [map_eq_nil_iff, filter_cons, htop, decide_true, if_true, length_cons, and_true]
      constructor
      · rintro rfl
        simp [htop]
      · intro hchecks
        obtain ⟨hone, hlast⟩ := not_or.mp hchecks
        have hnone : placed.filter (fun band => band.upToQty = none) = [] := by
          rw [← length_eq_zero_iff]
          omega
        by_contra hne
        obtain ⟨last, hmem⟩ := Option.isSome_iff_exists.mp (getLast?_isSome.mpr hne)
        rw [getLast?_cons, hmem] at hlast
        refine filter_eq_nil_iff.mp hnone last (mem_of_getLast? hmem) ?_
        simpa using hlast
    | some top =>
      have hrest : Table top (placed.map RatingBand.piece) ↔ _ := ih
      dsimp only
      rw [hrest, refuseIf, filter_cons_of_neg (by simp [htop])]
      have hlast : (band :: placed).getLast?.all (fun band => band.upToQty ≠ none) =
          placed.getLast?.all (fun band => band.upToQty ≠ none) := by
        rw [getLast?_cons]
        cases placed.getLast? <;> simp [htop]
      rw [hlast]
      by_cases hfloor : floor < top
      · simp [hfloor, not_le.mpr hfloor, bind, Except.bind]
      · simp [hfloor, not_lt.mp hfloor, bind, Except.bind]

/-- Graduated bands, in whatever order they are given. -/
structure GraduatedBands (bands : List RatingBand) : Prop where
  kind : ∀ band ∈ bands, band.kind = .graduated
  price : ∀ band ∈ bands, band.unitPrice % 100 = 0
  table : RatingTable 0 (orderedBands bands)

variable {bands : List RatingBand}

/-- **What rating accepts of graduated bands**, at any quantity. -/
theorem rateUsage_eq_ok_iff (hkind : ∀ band ∈ bands, band.kind = .graduated) {quantity : ℤ}
    (hq : 0 < quantity) {lines : List RateLine} :
    rateUsage quantity bands = .ok lines ↔
      GraduatedBands bands ∧ rateGraduated quantity 0 (orderedBands bands) = lines := by
  have hchecks : (∀ band ∈ orderedBands bands, checkUnitPrice band = .ok ()) ↔
      ∀ band ∈ bands, band.unitPrice % 100 = 0 := by
    simp only [checkUnitPrice, refuseIf_eq_ok, not_not, orderedBands, mem_insertionSort]
  cases hhead : bands.head? with
  | none =>
    obtain rfl := head?_eq_none_iff.mp hhead
    constructor
    · intro hrun
      simp only [rateUsage, head?_nil, bind_eq_ok, orRefuse_eq_ok, reduceCtorEq, false_and,
        exists_false, and_false] at hrun
    · rintro ⟨⟨-, -, htable⟩, -⟩
      exact htable.elim
  | some first =>
    have hmem : first ∈ bands := mem_of_mem_head? hhead
    have hone : keys RatingBand.kind bands = [.graduated] := by
      rw [← map_fst_groupBy,
        groupBy_of_forall (ne_nil_of_mem hmem) hkind, map_singleton]
    simp only [rateUsage, hhead, if_neg hq.ne', hone, bind_eq_ok, refuseIf_eq_ok,
      orRefuse_eq_ok, forM_eq_ok, Option.some.injEq, exists_eq_left', hkind first hmem, hchecks,
      Except.ok.injEq]
    constructor
    · rintro ⟨-, -, -, -, -, hprice, -, hopen, _, hceilings, hlines⟩
      exact ⟨⟨hkind, hprice, ratingTable_iff.mpr ⟨hopen, hceilings⟩⟩, hlines⟩
    · rintro ⟨⟨-, hprice, htable⟩, hlines⟩
      obtain ⟨hopen, hceilings⟩ := ratingTable_iff.mp htable
      exact ⟨(), not_lt.mpr hq.le, (), by simp, (), hprice, (), hopen, (), hceilings, hlines⟩

/-! ### The walk over the bands -/

/-- The bands with what is below each of them. -/
def placedFrom : ℤ → List RatingBand → List (ℤ × RatingBand)
  | _, [] => []
  | floor, band :: bands => (floor, band) :: placedFrom (band.upToQty.getD floor) bands

/-- How much of a total, counted from zero, lies in a band. -/
def billed (total : ℤ) (p : ℤ × RatingBand) : ℤ := overlap p.1 p.2.upToQty 0 total

def bandLines (take : ℤ) (band : RatingBand) : List RateLine :=
  if 0 < take then
    usageLine .graduated band.seq take band.unitPrice :: flatLine .graduated band
  else []

/-- **The walk bills each band for what lies in it.** -/
theorem rateGraduated_eq (htable : RatingTable floor bands) (hfloor : 0 ≤ floor) (total : ℤ) :
    rateGraduated total floor bands =
      (placedFrom floor bands).flatMap fun p => bandLines (billed total p) p.2 := by
  induction bands generalizing floor with
  | nil => rfl
  | cons band bands ih =>
    rw [rateGraduated, placedFrom, flatMap_cons]
    obtain ⟨htop, rfl⟩ | ⟨top, htop, hlt, hrest⟩ := ratingTable_cons.mp htable
    · have htake : (if total - floor ≤ 0 then 0 else if total - floor < total - floor then
          total - floor else total - floor) = billed total (floor, band) := by
        simp only [billed, htop, overlap, Option.elim]
        split_ifs <;> omega
      simp only [htop, Option.getD_none, htake, placedFrom, flatMap_nil, append_nil]
      rfl
    · have htake : (if total - floor ≤ 0 then 0 else if total - floor < top - floor then
          total - floor else top - floor) = billed total (floor, band) := by
        simp only [billed, htop, overlap, Option.elim]
        split_ifs <;> omega
      simp only [htop, Option.getD_some, htake, ih hrest (hfloor.trans hlt.le)]
      rfl

/-- **The bands share out all that is above the floor.** -/
theorem sum_billed (htable : RatingTable floor bands) (hfloor : 0 ≤ floor) (total : ℤ) :
    ((placedFrom floor bands).map (billed total)).sum = max 0 (total - floor) := by
  induction bands generalizing floor with
  | nil => exact htable.elim
  | cons band bands ih =>
    rw [placedFrom, map_cons, sum_cons]
    obtain ⟨htop, rfl⟩ | ⟨top, htop, hlt, hrest⟩ := ratingTable_cons.mp htable
    · simp only [placedFrom, map_nil, sum_nil, billed, htop, overlap, Option.elim]
      omega
    · rw [htop, Option.getD_some, ih hrest (hfloor.trans hlt.le)]
      simp only [billed, htop, overlap, Option.elim]
      omega

/-! ### Amounts -/

/-- **A line rounds once**, from the product of its price and its quantity. -/
theorem mulDecimalFactors_eq_round (unitPrice quantity : ℤ) :
    mulDecimalFactors SCALE [unitPrice, quantityFactor quantity] =
      HalfAway.round (unitPrice * quantity) (10 ^ 14) := by
  have hproduct : SCALE * [unitPrice, quantityFactor quantity].prod =
      10 ^ 6 * (unitPrice * quantity) := by
    simp only [SCALE, quantityFactor, prod_cons, prod_nil]
    ring
  have hscale : RATE_SCALE ^ [unitPrice, quantityFactor quantity].length = 10 ^ 6 * 10 ^ 14 := by
    norm_num [RATE_SCALE]
  rw [mulDecimalFactors, roundDiv_eq_round, hproduct, hscale,
    HalfAway.round_mul_left (by norm_num) (by norm_num)]

theorem flat_amount (amount : ℤ) :
    mulDecimalFactors SCALE [moneyFactor amount, quantityFactor QUANTITY_UNITS] = amount := by
  have hproduct : moneyFactor amount * QUANTITY_UNITS = amount * 10 ^ 14 := by
    rw [moneyFactor, QUANTITY_UNITS]
    ring
  rw [mulDecimalFactors_eq_round, hproduct, HalfAway.round_mul_self (by norm_num)]

theorem amount_of_mem_bandLines {take : ℤ} {band : RatingBand} {line : RateLine}
    (h : line ∈ bandLines take band) :
    line.amount = HalfAway.round (line.unitPrice * line.quantity) (10 ^ 14) := by
  rw [bandLines] at h
  split_ifs at h
  · rcases mem_cons.mp h with rfl | h
    · exact mulDecimalFactors_eq_round _ _
    · rw [flatLine] at h
      split_ifs at h
      · cases h
      · obtain rfl := mem_singleton.mp h
        exact mulDecimalFactors_eq_round _ _
  · cases h

/-- What the lines come to. -/
def billedTotal (lines : List RateLine) : ℤ := (lines.map RateLine.amount).sum

theorem billedTotal_flatMap {α : Type} (xs : List α) (lines : α → List RateLine) :
    billedTotal (xs.flatMap lines) = (xs.map fun x => billedTotal (lines x)).sum := by
  induction xs with
  | nil => rfl
  | cons x xs ih =>
    rw [flatMap_cons, billedTotal, map_append, sum_append, map_cons,
      sum_cons, ← ih, billedTotal, billedTotal]

theorem billedTotal_bandLines (take : ℤ) (band : RatingBand) :
    billedTotal (bandLines take band) = if 0 < take then
      HalfAway.round (band.unitPrice * take) (10 ^ 14) + band.flatAmount else 0 := by
  rw [bandLines]
  split_ifs
  · rw [billedTotal, map_cons, sum_cons, usageLine, mulDecimalFactors_eq_round, flatLine]
    split_ifs with hflat <;> simp [hflat, flat_amount]
  · rfl

/-- **More in a band never bills less**, if neither its price nor its fee is negative. -/
theorem billedTotal_bandLines_mono {band : RatingBand} (hprice : 0 ≤ band.unitPrice)
    (hflat : 0 ≤ band.flatAmount) {take take' : ℤ} (h : take ≤ take') :
    billedTotal (bandLines take band) ≤ billedTotal (bandLines take' band) := by
  rw [billedTotal_bandLines, billedTotal_bandLines]
  split_ifs with htake htake'
  · have hround : HalfAway.round (band.unitPrice * take) (10 ^ 14) ≤
        HalfAway.round (band.unitPrice * take') (10 ^ 14) :=
      HalfAway.round_mono (by norm_num) (mul_le_mul_of_nonneg_left h hprice)
    omega
  · omega
  · have hround : 0 ≤ HalfAway.round (band.unitPrice * take') (10 ^ 14) :=
      HalfAway.round_nonneg (by norm_num) (mul_nonneg hprice (by omega))
    omega
  · rfl

theorem billed_mono (p : ℤ × RatingBand) {total total' : ℤ} (h : total ≤ total') :
    billed total p ≤ billed total' p := by
  rw [billed, billed, overlap, overlap]
  cases p.2.upToQty <;> simp only [Option.elim] <;> omega

theorem mem_of_mem_placedFrom {p : ℤ × RatingBand} (h : p ∈ placedFrom floor bands) :
    p.2 ∈ bands := by
  induction bands generalizing floor with
  | nil => cases h
  | cons band bands ih =>
    rcases mem_cons.mp h with rfl | h
    · exact mem_cons_self
    · exact mem_cons_of_mem band (ih h)

/-! ### The order in which bands are given -/

/-- One band ends where or before the other does, and the other may be the open one. -/
def EndsBelow (a b : RatingBand) : Prop :=
  ∃ top, a.upToQty = some top ∧ b.upToQty.all fun top' => top < top'

theorem EndsBelow.asymm {a b : RatingBand} (h : EndsBelow a b) (h' : EndsBelow b a) : False := by
  obtain ⟨top, htop, hbelow⟩ := h
  obtain ⟨top', htop', hbelow'⟩ := h'
  rw [htop'] at hbelow
  rw [htop] at hbelow'
  have hlt : top < top' := by simpa using hbelow
  have hlt' : top' < top := by simpa using hbelow'
  omega

theorem above_of_table (htable : RatingTable floor bands) :
    ∀ band ∈ bands, ∀ top ∈ band.upToQty, floor < top := by
  induction bands generalizing floor with
  | nil => simp
  | cons band bands ih =>
    intro band' hband' top' htop'
    obtain ⟨htop, rfl⟩ | ⟨top, htop, hlt, hrest⟩ := ratingTable_cons.mp htable
    · obtain rfl := mem_singleton.mp hband'
      rw [htop] at htop'
      cases htop'
    · rcases mem_cons.mp hband' with rfl | hband'
      · rw [htop] at htop'
        obtain rfl := Option.some.inj htop'
        exact hlt
      · exact hlt.trans (ih hrest band' hband' top' htop')

theorem pairwise_of_table (htable : RatingTable floor bands) : bands.Pairwise EndsBelow := by
  induction bands generalizing floor with
  | nil => exact List.Pairwise.nil
  | cons band bands ih =>
    obtain ⟨htop, rfl⟩ | ⟨top, htop, hlt, hrest⟩ := ratingTable_cons.mp htable
    · exact pairwise_singleton _ _
    · refine List.Pairwise.cons (fun band' hband' => ⟨top, htop, ?_⟩) (ih hrest)
      have habove := above_of_table hrest band' hband'
      cases htop' : band'.upToQty with
      | none => rfl
      | some top' => simpa using habove top' htop'

variable {bands' : List RatingBand}

/-- **Bands make one table only**, in whatever order they are given. -/
theorem ordered_eq_of_perm (hperm : bands'.Perm bands) (h : GraduatedBands bands)
    (h' : GraduatedBands bands') : orderedBands bands' = orderedBands bands := by
  refine Perm.eq_of_pairwise (fun a b _ _ hab hba => (hab.asymm hba).elim)
    (pairwise_of_table h'.table) (pairwise_of_table h.table) ?_
  exact (perm_insertionSort _ _).trans (hperm.trans (perm_insertionSort _ _).symm)

theorem ordered_eq_of_nodup (hperm : bands'.Perm bands)
    (hnodup : (bands.map RatingBand.seq).Nodup) : orderedBands bands' = orderedBands bands := by
  have hsorted : ∀ bands : List RatingBand,
      (orderedBands bands).Pairwise fun a b => a.seq ≤ b.seq := by
    have htotal : Std.Total fun a b : RatingBand => a.seq ≤ b.seq := ⟨fun a b => le_total _ _⟩
    have htrans : IsTrans RatingBand fun a b => a.seq ≤ b.seq := ⟨fun _ _ _ => le_trans⟩
    exact fun bands => pairwise_insertionSort _ bands
  refine Perm.eq_of_pairwise (fun a b ha hb hab hba => ?_) (hsorted bands') (hsorted bands)
    ((perm_insertionSort _ _).trans (hperm.trans (perm_insertionSort _ _).symm))
  have ha : a ∈ bands := hperm.subset ((mem_insertionSort _).mp ha)
  have hb : b ∈ bands := (mem_insertionSort _).mp hb
  exact inj_on_of_nodup_map hnodup ha hb (le_antisymm hab hba)

/-! ### Graduated rating -/

/-- **Graduated bands bill a quantity piece by piece.** Every band bills the part of the quantity
that lies in it, by one line and one more for its fee; the parts are the quantity; and every line
rounds once. So a larger quantity is never billed less, at prices and fees that are not negative,
and the order in which the bands are given does not matter. -/
theorem rateUsage_graduated {bands : List RatingBand} (h : GraduatedBands bands) {quantity : ℤ}
    (hq : 0 < quantity) :
    ∃ lines, rateUsage quantity bands = .ok lines ∧
      lines = ((placedFrom 0 (orderedBands bands)).flatMap
        fun p => bandLines (billed quantity p) p.2) ∧
      ((placedFrom 0 (orderedBands bands)).map (billed quantity)).sum = quantity ∧
      (∀ line ∈ lines, line.amount = HalfAway.round (line.unitPrice * line.quantity) (10 ^ 14)) ∧
      ((∀ band ∈ bands, 0 ≤ band.unitPrice ∧ 0 ≤ band.flatAmount) → ∀ quantity' lines',
        quantity ≤ quantity' → rateUsage quantity' bands = .ok lines' →
          billedTotal lines ≤ billedTotal lines') ∧
      ∀ bands', bands'.Perm bands →
        ((rateUsage quantity bands').isOk = true ∨ (bands.map RatingBand.seq).Nodup) →
          rateUsage quantity bands' = .ok lines := by
  have hlines : ∀ q : ℤ, rateGraduated q 0 (orderedBands bands) =
      (placedFrom 0 (orderedBands bands)).flatMap fun p => bandLines (billed q p) p.2 :=
    rateGraduated_eq h.table le_rfl
  refine ⟨_, (rateUsage_eq_ok_iff h.kind hq).mpr ⟨h, rfl⟩, hlines quantity, ?_, ?_, ?_, ?_⟩
  · rw [sum_billed h.table le_rfl]
    omega
  · intro line hline
    rw [hlines] at hline
    obtain ⟨p, -, hline⟩ := mem_flatMap.mp hline
    exact amount_of_mem_bandLines hline
  · intro hnonneg quantity' lines' hle hrun
    obtain ⟨-, rfl⟩ := (rateUsage_eq_ok_iff h.kind (hq.trans_le hle)).mp hrun
    rw [hlines, hlines, billedTotal_flatMap, billedTotal_flatMap]
    refine sum_le_sum fun p hp => ?_
    obtain ⟨hprice, hflat⟩ := hnonneg p.2 ((mem_insertionSort _).mp (mem_of_mem_placedFrom hp))
    exact billedTotal_bandLines_mono hprice hflat (billed_mono p hle)
  · intro bands' hperm hwhy
    have hkind : ∀ band ∈ bands', band.kind = .graduated := fun band hband =>
      h.kind band (hperm.subset hband)
    rw [rateUsage_eq_ok_iff hkind hq]
    rcases hwhy with hok | hnodup
    · obtain ⟨lines', hrun⟩ := exists_of_isOk hok
      obtain ⟨h', -⟩ := (rateUsage_eq_ok_iff hkind hq).mp hrun
      exact ⟨h', by rw [ordered_eq_of_perm hperm h h']⟩
    · have heq := ordered_eq_of_nodup hperm hnodup
      refine ⟨⟨hkind, fun band hband => h.price band (hperm.subset hband), ?_⟩, by rw [heq]⟩
      rw [heq]
      exact h.table

/-- Ten units at a price of two and a fee of one, and any more at a price of one half: given the
wrong way round, and met by fifteen units. -/
theorem rateUsage_graduated_fifteen :
    ∃ lines, rateUsage 1500000000
        [{ kind := .graduated, seq := 2, upToQty := none, unitPrice := 5000000000 },
          { kind := .graduated, seq := 1, upToQty := some 1000000000, unitPrice := 20000000000,
            flatAmount := 10000 }] = .ok lines ∧
      lines.length = 3 ∧ billedTotal lines = 235000 := by
  have hbands : GraduatedBands
      [{ kind := .graduated, seq := 2, upToQty := none, unitPrice := 5000000000 },
        { kind := .graduated, seq := 1, upToQty := some 1000000000, unitPrice := 20000000000,
          flatAmount := 10000 }] := ⟨by decide, by decide, by decide, rfl⟩
  obtain ⟨lines, hrun, hlines, -⟩ :=
    rateUsage_graduated hbands (show (0 : ℤ) < 1500000000 by decide)
  refine ⟨lines, hrun, ?_, ?_⟩
  · rw [hlines]
    decide
  · rw [hlines]
    decide

end OpenBooks
