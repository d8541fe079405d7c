import OpenBooks.Inventory.Costing

/-!
# Original cost

Beside its carrying value a layer keeps what its stock originally cost, where that
is known. Unknown provenance propagates (`sumOriginalCosts`); a draw
relieves a known basis in proportion and the balance keeps the residual
(`consumeOriginalCost`); and a basis is spread over carrying fragments
without losing a tick, then moved between them where a fragment would fall below
its carrying value (`splitOriginalCost`).

The only refusal is a take outside what is available, and no spread reaches it:
`splitOriginalCost_ok`. A spread over fragments loses nothing, and leaves
none below its carrying value where the basis reaches them all:
`splitOriginalCost_conserves`.
-/

namespace OpenBooks

open Checked List

/-- What an original-cost refusal names. -/
structure OriginalCostLocation where
  itemId : String
  stockLocationId : String
  layerId : Option ℕ := none

/-- The sum of known costs; one unknown makes it unknown. -/
def sumOriginalCosts (values : List (Option ℤ)) : Option ℤ :=
  List.sum <$> values.mapM id

/-- The refusal of a take outside what is available. -/
def originalCostRefusal (quantity available : ℤ) (location : OriginalCostLocation) :
    InventoryError :=
  let scope := ", ".intercalate
    ((if location.itemId ≠ "" then ["item " ++ location.itemId] else []) ++
      (if location.stockLocationId ≠ "" then ["location " ++ location.stockLocationId] else []) ++
      (location.layerId.map fun id => s!"layer {id}").toList)
  ⟨s!"original-cost allocation takes {fromUnits quantity} from {fromUnits available} available" ++
    (if scope ≠ "" then s!" ({scope})" else "") ++
    " — the cost layer's remaining basis is inconsistent; " ++
    "reverse the corrupting movement through a controlled reversal instead of editing the layer"⟩

/-- Relieve a basis in proportion to the quantity taken. -/
def consumeOriginalCost (basis : Option ℤ) (quantity available : ℤ)
    (location : OriginalCostLocation) : Except InventoryError (Option ℤ) :=
  match basis with
  | none => .ok none
  | some basis =>
    if available ≤ 0 ∨ quantity < 0 ∨ available < quantity then
      .error (originalCostRefusal quantity available location)
    else .ok (some (roundDiv (basis * quantity) available))

/-- What is left of a basis after a share; an unknown basis stays unknown. -/
def basisLeft : Option ℤ → Option ℤ → Option ℤ
  | some remaining, some share => some (remaining - share)
  | remaining, _ => remaining

/-- The shares of a basis over quantities, each out of what is left. -/
def originalCostShares (location : OriginalCostLocation) :
    Option ℤ → ℤ → List ℤ → Except InventoryError (List (Option ℤ))
  | _, _, [] => .ok []
  | remaining, quantity, value :: values => do
    let share ← consumeOriginalCost remaining value quantity location
    let shares ← originalCostShares location (basisLeft remaining share) (quantity - value) values
    return share :: shares

/-- One step of covering the deficit of fragment `i` from fragment `j`. -/
def coverFrom (values : List ℤ) (i : ℕ) (s : List ℤ × ℤ) (j : ℕ) : List ℤ × ℤ :=
  let (units, deficit) := s
  let surplus := units.getD j 0 - values.getD j 0
  if deficit ≤ 0 ∨ surplus ≤ 0 then (units, deficit)
  else
    let take := if deficit < surplus then deficit else surplus
    let raised := units.set i (units.getD i 0 + take)
    (raised.set j (raised.getD j 0 - take), deficit - take)

/-- Cover the deficit of fragment `i`, fragment after fragment. -/
def coverDeficit (values : List ℤ) (units : List ℤ) (i : ℕ) : List ℤ :=
  ((List.range units.length).foldl (coverFrom values i)
    (units, values.getD i 0 - units.getD i 0)).1

/-- Move basis between fragments so that none stays below its carrying value while
another is above. -/
def rebalance (values units : List ℤ) : List ℤ :=
  (List.range units.length).foldl (coverDeficit values) units

/-- Spread a known balance over exact carrying fragments. -/
def splitOriginalCost (basis : Option ℤ) (quantities carryingValues : List ℤ)
    (location : OriginalCostLocation) : Except InventoryError (List (Option ℤ)) := do
  let shares ← originalCostShares location basis quantities.sum quantities
  match basis with
  | none => return shares
  | some basis =>
    if carryingValues.sum ≤ basis then
      return (rebalance carryingValues (shares.map fun s => s.getD 0)).map some
    else return shares

/-! ### No spread refuses -/

theorem consumeOriginalCost_ok (basis : Option ℤ) {quantity available : ℤ}
    (location : OriginalCostLocation) (ha : 0 < available) (hq : 0 ≤ quantity)
    (hle : quantity ≤ available) :
    ∃ share, consumeOriginalCost basis quantity available location = .ok share := by
  cases basis with
  | none => exact ⟨none, rfl⟩
  | some b => exact ⟨_, if_neg (by omega)⟩

variable {quantities : List ℤ}

theorem originalCostShares_ok (location : OriginalCostLocation) (hpos : ∀ q ∈ quantities, 0 < q)
    (basis : Option ℤ) :
    ∃ shares, originalCostShares location basis quantities.sum quantities = .ok shares ∧
      shares.length = quantities.length := by
  induction quantities generalizing basis with
  | nil => exact ⟨[], rfl, rfl⟩
  | cons q qs ih =>
    have hq := hpos q (by simp)
    have hqs : 0 ≤ qs.sum := List.sum_nonneg fun x hx => (hpos x (by simp [hx])).le
    obtain ⟨share, hshare⟩ := consumeOriginalCost_ok basis location
      (show 0 < q + qs.sum by omega) hq.le (by omega)
    obtain ⟨shares, hshares, hlen⟩ := ih (fun x hx => hpos x (by simp [hx])) (basisLeft basis share)
    refine ⟨share :: shares, ?_, by simp [hlen]⟩
    rw [sum_cons, originalCostShares, hshare]
    simp only [add_sub_cancel_left, bind_eq_ok, Except.ok.injEq, pure_eq_ok]
    exact ⟨share, rfl, shares, hshares, rfl⟩

theorem coverFrom_length (values : List ℤ) (i : ℕ) (s : List ℤ × ℤ) (j : ℕ) :
    (coverFrom values i s j).1.length = s.1.length := by
  rw [coverFrom]
  simp only
  split_ifs <;> simp

theorem foldl_length {β γ : Type} (f : β → ℕ → β) (size : β → γ) (h : ∀ s j, size (f s j) = size s)
    (js : List ℕ) (s : β) : size (js.foldl f s) = size s := by
  induction js generalizing s with
  | nil => rfl
  | cons j js ih => rw [foldl_cons, ih, h]

theorem rebalance_length (values units : List ℤ) :
    (rebalance values units).length = units.length :=
  foldl_length _ List.length (fun _ i =>
    foldl_length (coverFrom values i) (fun s => s.1.length) (coverFrom_length values i) _ _) _ _

/-- **A spread over positive quantities never refuses**, and gives every quantity
its share. -/
theorem splitOriginalCost_ok (location : OriginalCostLocation) (hpos : ∀ q ∈ quantities, 0 < q)
    (basis : Option ℤ) (carryingValues : List ℤ) :
    ∃ shares, splitOriginalCost basis quantities carryingValues location = .ok shares ∧
      shares.length = quantities.length := by
  obtain ⟨shares, hshares, hlen⟩ := originalCostShares_ok location hpos basis
  cases basis with
  | none => exact ⟨shares, by simp [splitOriginalCost, hshares], hlen⟩
  | some b =>
    by_cases hle : carryingValues.sum ≤ b
    · exact ⟨_, by simp [splitOriginalCost, hshares, hle]; rfl, by simp [rebalance_length, hlen]⟩
    · exact ⟨shares, by simp [splitOriginalCost, hshares, hle], hlen⟩

/-! ### Conservation

Every share is taken out of what is left, and the last one takes all of it, so a spread over
fragments loses nothing. The repair moves basis between fragments: each move keeps the sum, and
a fragment that holds its carrying value keeps holding it, since a donor gives only what it has
above it. A deficit that no fragment can cover any more would leave the whole spread below the
carrying values, which the guard excludes. -/

/-- The shares of a known basis over fragments add up to it. -/
theorem originalCostShares_sum (location : OriginalCostLocation) (hpos : ∀ q ∈ quantities, 0 < q)
    (hne : quantities ≠ []) (basis : ℤ) :
    ∃ units : List ℤ, originalCostShares location (some basis) quantities.sum quantities =
        .ok (units.map some) ∧
      units.length = quantities.length ∧ units.sum = basis := by
  induction quantities generalizing basis with
  | nil => exact absurd rfl hne
  | cons q qs ih =>
    have hq := hpos q (by simp)
    have hqs : 0 ≤ qs.sum := List.sum_nonneg fun x hx => (hpos x (by simp [hx])).le
    have hshare : consumeOriginalCost (some basis) q (q + qs.sum) location =
        .ok (some (roundDiv (basis * q) (q + qs.sum))) := if_neg (by omega)
    rcases eq_or_ne qs [] with rfl | hqs'
    · -- the last fragment takes what is left
      have hall : roundDiv (basis * q) (q + ([] : List ℤ).sum) = basis := by
        rw [sum_nil, add_zero, roundDiv_eq_round, HalfAway.round_mul_self hq]
      rw [hall] at hshare
      refine ⟨[basis], ?_, rfl, by simp⟩
      rw [sum_cons, originalCostShares, hshare]
      rfl
    · obtain ⟨units, hunits, hlen, hsum⟩ := ih (fun x hx => hpos x (by simp [hx])) hqs'
        (basis - roundDiv (basis * q) (q + qs.sum))
      refine ⟨roundDiv (basis * q) (q + qs.sum) :: units, ?_, by simp [hlen], by simp [hsum]⟩
      rw [sum_cons, originalCostShares, hshare, ok_bind, add_sub_cancel_left, basisLeft, hunits]
      rfl

/-- A counted loop keeps an invariant that its steps carry from one count to the next. -/
theorem foldl_range_invariant {β : Type} {f : β → ℕ → β} {P : ℕ → β → Prop} {s : β} (h0 : P 0 s)
    (n : ℕ) (hstep : ∀ m < n, ∀ s, P m s → P (m + 1) (f s m)) :
    P n ((List.range n).foldl f s) := by
  induction n with
  | zero => exact h0
  | succ n ih =>
    rw [range_succ, foldl_append]
    exact hstep n (Nat.lt_succ_self n) _ (ih fun m hm => hstep m (by omega))

section Move

variable {units : List ℤ} {i j : ℕ}

/-- Basis moved from fragment `j` to fragment `i`. -/
def moved (units : List ℤ) (i j : ℕ) (take : ℤ) : List ℤ :=
  (units.set i (units.getD i 0 + take)).set j
    ((units.set i (units.getD i 0 + take)).getD j 0 - take)

theorem getD_set (units : List ℤ) {i : ℕ} (hi : i < units.length) (x : ℤ) (k : ℕ) :
    (units.set i x).getD k 0 = if k = i then x else units.getD k 0 := by
  simp only [getD_eq_getElem?_getD, getElem?_set]
  split_ifs <;> first | rfl | omega

theorem getD_moved (hi : i < units.length) (hj : j < units.length) (hij : j ≠ i) (take : ℤ)
    (k : ℕ) :
    (moved units i j take).getD k 0 =
      units.getD k 0 + (if k = i then take else 0) - if k = j then take else 0 := by
  rw [moved, getD_set _ (by simpa using hj), getD_set _ hi, getD_set _ hi, if_neg hij]
  split_ifs with h h' h'
  · exact absurd (h.symm.trans h') hij
  · rw [h, add_zero]
  · rw [h', sub_zero]
  · ring

theorem sum_set_add (hi : i < units.length) (x : ℤ) :
    (units.set i (units.getD i 0 + x)).sum = units.sum + x := by
  have hget : units.getD i 0 = units[i] := by
    rw [getD_eq_getElem?_getD, getElem?_eq_getElem hi, Option.getD_some]
  rw [sum_set', dif_pos hi, hget]
  ring

theorem sum_moved (hi : i < units.length) (hj : j < units.length) (take : ℤ) :
    (moved units i j take).sum = units.sum := by
  rw [moved, sub_eq_add_neg, sum_set_add (by simpa using hj), sum_set_add hi]
  ring

end Move

/-- Where the cover of fragment `i` stands after `m` fragments were asked. -/
structure Covering (values before : List ℤ) (i m : ℕ) (s : List ℤ × ℤ) : Prop where
  length : s.1.length = before.length
  sum : s.1.sum = before.sum
  deficit : s.2 = values.getD i 0 - s.1.getD i 0
  covered : ∀ k, values.getD k 0 ≤ before.getD k 0 → values.getD k 0 ≤ s.1.getD k 0
  spent : 0 < s.2 → ∀ j < m, s.1.getD j 0 ≤ values.getD j 0

variable {values before : List ℤ}

/-- **A fragment gives.** It gives no more than it has above its own carrying value; and unless
that covers the deficit, it gives all of it. -/
theorem Covering.taken {i m : ℕ} {units : List ℤ} {deficit take : ℤ} (hi : i < before.length)
    (hm : m < before.length) (h : Covering values before i m (units, deficit)) (hmi : m ≠ i)
    (htake : 0 ≤ take)
    (hsurplus : take ≤ units.getD m 0 - values.getD m 0)
    (hall : take = deficit ∨ take = units.getD m 0 - values.getD m 0) :
    Covering values before i (m + 1) (moved units i m take, deficit - take) := by
  have hlength : units.length = before.length := h.length
  have hgap : deficit = values.getD i 0 - units.getD i 0 := h.deficit
  have hmoved := getD_moved (hlength ▸ hi) (hlength ▸ hm) hmi take
  refine ⟨by simp [moved, hlength], ?_, ?_, fun k hk => ?_, fun hpos j hj => ?_⟩
  · exact (sum_moved (hlength ▸ hi) (hlength ▸ hm) take).trans h.sum
  · dsimp only
    rw [hmoved, if_pos rfl, if_neg (Ne.symm hmi), hgap]
    ring
  · have hcovered : values.getD k 0 ≤ units.getD k 0 := h.covered k hk
    dsimp only
    rw [hmoved]
    split_ifs with hki hkm hkm
    · omega
    · omega
    · subst hkm
      omega
    · omega
  · have hpos : 0 < deficit - take := hpos
    have hspent : ∀ j < m, units.getD j 0 ≤ values.getD j 0 := h.spent (by dsimp only; omega)
    dsimp only
    rw [hmoved]
    rcases Nat.lt_succ_iff_lt_or_eq.mp hj with hj | rfl
    · have := hspent j hj
      split_ifs with hji hjm hjm
      · omega
      · -- the covered fragment itself is still below its carrying value
        subst hji
        omega
      · omega
      · omega
    · rw [if_neg hmi, if_pos rfl]
      omega

/-- **Asking one more fragment.** -/
theorem Covering.step {i m : ℕ} {s : List ℤ × ℤ} (hi : i < before.length) (hm : m < before.length)
    (h : Covering values before i m s) :
    Covering values before i (m + 1) (coverFrom values i s m) := by
  obtain ⟨units, deficit⟩ := s
  have hdeficit : deficit = values.getD i 0 - units.getD i 0 := h.deficit
  unfold coverFrom
  dsimp only
  split_ifs with hskip hless
  · -- nothing to cover, or nothing to give
    refine ⟨h.length, h.sum, h.deficit, h.covered, fun hpos j hj => ?_⟩
    rcases Nat.lt_succ_iff_lt_or_eq.mp hj with hj | rfl
    · exact h.spent hpos j hj
    · have hpos : 0 < deficit := hpos
      dsimp only
      omega
  · refine h.taken hi hm ?_ (by omega) hless.le (Or.inl rfl)
    rintro rfl
    omega
  · refine h.taken hi hm ?_ (by omega) le_rfl (Or.inr rfl)
    rintro rfl
    omega

theorem forall₂_le_of_getD {units : List ℤ} (hlength : values.length = units.length)
    (hle : ∀ k, values.getD k 0 ≤ units.getD k 0) : List.Forall₂ (· ≤ ·) values units := by
  refine forall₂_iff_get.mpr ⟨hlength, fun k hk hk' => ?_⟩
  simpa [getD_eq_getElem?_getD, hk, hk'] using hle k

theorem sum_lt_of_getD {units : List ℤ} (hlength : units.length = values.length)
    (hle : ∀ k, units.getD k 0 ≤ values.getD k 0) {i : ℕ} (hi : i < units.length)
    (hlt : units.getD i 0 < values.getD i 0) : units.sum < values.sum := by
  have hraised : Forall₂ (· ≤ ·)
      (units.set i (units.getD i 0 + (values.getD i 0 - units.getD i 0))) values := by
    refine forall₂_le_of_getD (by simpa using hlength) fun k => ?_
    rw [getD_set units hi]
    split_ifs with h
    · rw [h]
      omega
    · exact hle k
  have hsum := hraised.sum_le_sum
  rw [sum_set_add hi] at hsum
  omega

/-- Where the cover of a fragment stands once every fragment was asked. -/
theorem exists_covering (values : List ℤ) {i : ℕ} (hi : i < before.length) :
    ∃ deficit, Covering values before i before.length (coverDeficit values before i, deficit) := by
  have hstart : Covering values before i 0 (before, values.getD i 0 - before.getD i 0) :=
    ⟨rfl, rfl, rfl, fun _ hk => hk, fun _ j hj => absurd hj (Nat.not_lt_zero j)⟩
  exact ⟨_, foldl_range_invariant hstart before.length fun m hm s hs => hs.step hi hm⟩

/-- **A deficit is covered**, where the basis reaches: were it not, no fragment would have
anything left to give, and the basis would fall short. -/
theorem le_coverDeficit (hlength : before.length = values.length)
    (hsum : values.sum ≤ before.sum) {i : ℕ} (hi : i < before.length) :
    values.getD i 0 ≤ (coverDeficit values before i).getD i 0 := by
  obtain ⟨deficit, hcover⟩ := exists_covering values hi
  have hsum' : (coverDeficit values before i).sum = before.sum := hcover.sum
  have hlength' : (coverDeficit values before i).length = before.length := hcover.length
  have hdeficit : deficit = values.getD i 0 - (coverDeficit values before i).getD i 0 :=
    hcover.deficit
  by_contra hshort
  have hspent : ∀ j < before.length,
      (coverDeficit values before i).getD j 0 ≤ values.getD j 0 :=
    hcover.spent (by dsimp only; omega)
  have hle : ∀ k, (coverDeficit values before i).getD k 0 ≤ values.getD k 0 := by
    intro k
    rcases lt_or_ge k before.length with hk | hk
    · exact hspent k hk
    · simp [getD_eq_getElem?_getD, hlength', hlength ▸ hk, hk]
  have hlt := sum_lt_of_getD (hlength'.trans hlength) hle (hlength' ▸ hi) (not_le.mp hshort)
  omega

/-- **The repair covers every fragment**, where the basis reaches, and keeps the sum. -/
theorem rebalance_covers (hlength : before.length = values.length)
    (hsum : values.sum ≤ before.sum) :
    (rebalance values before).sum = before.sum ∧
      List.Forall₂ (· ≤ ·) values (rebalance values before) := by
  have hend := foldl_range_invariant (f := coverDeficit values) (s := before)
    (P := fun m units => units.length = before.length ∧ units.sum = before.sum ∧
      ∀ k < m, values.getD k 0 ≤ units.getD k 0)
    ⟨rfl, rfl, fun _ hk => absurd hk (Nat.not_lt_zero _)⟩ before.length
    fun m hm units ⟨hlen, hunits, hcovered⟩ => by
      obtain ⟨deficit, hcover⟩ := exists_covering values (hlen ▸ hm)
      refine ⟨hcover.length.trans hlen, hcover.sum.trans hunits, fun k hk => ?_⟩
      rcases Nat.lt_succ_iff_lt_or_eq.mp hk with hk | rfl
      · exact hcover.covered k (hcovered k hk)
      · exact le_coverDeficit (hlen.trans hlength) (hunits ▸ hsum) (hlen ▸ hm)
  obtain ⟨hlen, hsum', hcovered⟩ := hend
  refine ⟨hsum', forall₂_le_of_getD (hlength.symm.trans hlen.symm) fun k => ?_⟩
  rcases lt_or_ge k before.length with hk | hk
  · exact hcovered k hk
  · simp [getD_eq_getElem?_getD, hk, hlength ▸ hk, rebalance_length]

/-- **A spread over fragments conserves the basis.** The shares add up to it; and where it
reaches all the carrying values together, each share reaches its own. -/
theorem splitOriginalCost_conserves (location : OriginalCostLocation)
    {quantities carryingValues : List ℤ} (hpos : ∀ q ∈ quantities, 0 < q) (hne : quantities ≠ [])
    (hlength : carryingValues.length = quantities.length) (basis : ℤ) :
    ∃ units : List ℤ, splitOriginalCost (some basis) quantities carryingValues location =
        .ok (units.map some) ∧
      units.length = quantities.length ∧ units.sum = basis ∧
      (carryingValues.sum ≤ basis → List.Forall₂ (· ≤ ·) carryingValues units) := by
  obtain ⟨units, hunits, hlen, hsum⟩ := originalCostShares_sum location hpos hne basis
  have hread : (units.map some).map (fun s => s.getD 0) = units := by
    simp
  by_cases hle : carryingValues.sum ≤ basis
  · obtain ⟨hsum', hcovers⟩ := rebalance_covers (hlen.trans hlength.symm) (hsum ▸ hle)
    refine ⟨rebalance carryingValues units, ?_, (rebalance_length _ _).trans hlen,
      hsum'.trans hsum, fun _ => hcovers⟩
    rw [splitOriginalCost, hunits, ok_bind]
    dsimp only
    rw [if_pos hle, hread]
    rfl
  · refine ⟨units, ?_, hlen, hsum, fun h => absurd h hle⟩
    rw [splitOriginalCost, hunits, ok_bind]
    dsimp only
    rw [if_neg hle]
    rfl

/-- The deficit of the first fragment is covered by the second. -/
theorem splitOriginalCost_conserves_two :
    ∃ units : List ℤ, splitOriginalCost (some 10) [10000, 10000] [6, 4] ⟨"", "", none⟩ =
        .ok (units.map some) ∧
      units.length = 2 ∧ units.sum = 10 ∧
      (([6, 4] : List ℤ).sum ≤ 10 → List.Forall₂ (· ≤ ·) [6, 4] units) :=
  have hpos : ∀ q ∈ ([10000, 10000] : List ℤ), 0 < q := by decide
  have hlength : ([6, 4] : List ℤ).length = ([10000, 10000] : List ℤ).length := rfl
  splitOriginalCost_conserves ⟨"", "", none⟩ hpos (cons_ne_nil _ _) hlength 10

/-- A spread over no fragments leaves the basis behind. -/
theorem splitOriginalCost_nil_loses_basis :
    ¬∀ (location : OriginalCostLocation) (basis : ℤ) (quantities carryingValues : List ℤ),
      0 ≤ basis → (∀ q ∈ quantities, 0 < q) → (∀ v ∈ carryingValues, 0 ≤ v) →
      carryingValues.length = quantities.length →
      ∃ units : List ℤ, splitOriginalCost (some basis) quantities carryingValues location =
          .ok (units.map some) ∧
        units.sum = basis ∧
        (carryingValues.sum ≤ basis → List.Forall₂ (· ≤ ·) carryingValues units) := by
  intro h
  obtain ⟨units, hunits, hsum, -⟩ := h ⟨"", "", none⟩ 10000 [] [] (by decide) (by simp) (by simp)
    rfl
  have hnil : splitOriginalCost (some 10000) [] [] ⟨"", "", none⟩ = .ok [] := rfl
  rw [hnil] at hunits
  have hempty : units = [] := map_eq_nil_iff.mp (Except.ok.inj hunits).symm
  rw [hempty] at hsum
  exact absurd hsum (by decide)

end OpenBooks
