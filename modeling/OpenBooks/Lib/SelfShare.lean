import Mathlib.Algebra.Order.BigOperators.Group.List
import Mathlib.Algebra.Order.Field.Basic
import Mathlib.Tactic.Linarith
import Mathlib.Tactic.Ring

/-!
# A total that some of its parts are shares of

Each part of a total is the greater of a fixed amount and a share of the total
itself. As long as the shares come to less than the whole, there is at most one
such total (`SelfShare.Balances.unique`), and it falls with the fixed amounts
(`SelfShare.Balances.antitone`). Once it is known which parts are shares, the total
is a quotient (`SelfShare.Solves`); taking further parts for shares, that were
shares already or short of them, only raises it (`SelfShare.Solves.le`).
-/

namespace SelfShare

open List

variable {α K : Type} [Field K] [LinearOrder K] [IsStrictOrderedRing K]
  {xs : List α} {p c d : K} {s s' k : α → K} {bound bound' : α → Bool}

/-- The parts of the total `c`. -/
def drawn (xs : List α) (s k : α → K) (c : K) : K := (xs.map fun x => max (s x) (k x * c)).sum

/-- The total is `p` and its parts. -/
def Balances (p : K) (xs : List α) (s k : α → K) (c : K) : Prop := c = p + drawn xs s k c

/-- A greater total gives the parts at most their shares of the difference. -/
theorem drawn_le (hk : ∀ x ∈ xs, 0 ≤ k x) (hcd : c ≤ d) :
    drawn xs s k d ≤ drawn xs s k c + (xs.map k).sum * (d - c) := by
  induction xs with
  | nil => simp [drawn]
  | cons x xs ih =>
    have hx := hk x (by simp)
    have hrest := ih fun y hy => hk y (by simp [hy])
    have hpart : max (s x) (k x * d) ≤ max (s x) (k x * c) + k x * (d - c) := by
      refine max_le ?_ ?_
      · have := le_max_left (s x) (k x * c)
        have := mul_nonneg hx (sub_nonneg.mpr hcd)
        linarith
      · have := le_max_right (s x) (k x * c)
        have hsplit : k x * d = k x * c + k x * (d - c) := by ring
        linarith
    simp only [drawn, map_cons, sum_cons] at hrest ⊢
    rw [add_mul]
    linarith

/-- What does not exceed `p` and its parts does not exceed the total. -/
theorem Balances.le (h : Balances p xs s k c) (hk : ∀ x ∈ xs, 0 ≤ k x) (hlt : (xs.map k).sum < 1)
    (hd : d ≤ p + drawn xs s k d) : d ≤ c := by
  by_contra hcd
  have hcd := lt_of_not_ge hcd
  have hdrawn := drawn_le (s := s) hk hcd.le
  have hshort : (xs.map k).sum * (d - c) < d - c :=
    mul_lt_of_lt_one_left (sub_pos.mpr hcd) hlt
  have hc : c = p + drawn xs s k c := h
  linarith

theorem Balances.antitone (h : Balances p xs s k c) (hd : Balances p xs s' k d)
    (hs : ∀ x ∈ xs, s' x ≤ s x) (hk : ∀ x ∈ xs, 0 ≤ k x) (hlt : (xs.map k).sum < 1) : d ≤ c :=
  h.le hk hlt <| (le_of_eq hd).trans <| add_le_add_right
    (sum_le_sum fun x hx => max_le_max (hs x hx) le_rfl) p

theorem Balances.unique (h : Balances p xs s k c) (hd : Balances p xs s k d)
    (hk : ∀ x ∈ xs, 0 ≤ k x) (hlt : (xs.map k).sum < 1) : d = c :=
  le_antisymm (h.le hk hlt (le_of_eq hd)) (hd.le hk hlt (le_of_eq h))

omit [IsStrictOrderedRing K] in
theorem Balances.perm {ys : List α} (h : Balances p xs s k c) (hp : xs.Perm ys) :
    Balances p ys s k c := by
  rw [Balances, drawn, ← (hp.map _).sum_eq]
  exact h

/-! ### Which parts are shares -/

/-- The fixed amounts of the parts that are not bound to the total. -/
def fixedSum (xs : List α) (s : α → K) (bound : α → Bool) : K :=
  (xs.map fun x => if bound x then 0 else s x).sum

/-- The shares of the parts that are. -/
def boundSum (xs : List α) (k : α → K) (bound : α → Bool) : K :=
  (xs.map fun x => if bound x then k x else 0).sum

/-- The total when just these parts are shares of it. -/
def Solves (p : K) (xs : List α) (s k : α → K) (bound : α → Bool) (c : K) : Prop :=
  c = (p + fixedSum xs s bound) / (1 - boundSum xs k bound)

omit [LinearOrder K] [IsStrictOrderedRing K] in
theorem fixedSum_concat (x : α) :
    fixedSum (xs ++ [x]) s bound = fixedSum xs s bound + if bound x then 0 else s x := by
  simp [fixedSum]

omit [LinearOrder K] [IsStrictOrderedRing K] in
theorem boundSum_concat (x : α) :
    boundSum (xs ++ [x]) k bound = boundSum xs k bound + if bound x then k x else 0 := by
  simp [boundSum]

theorem boundSum_lt_one (hk : ∀ x ∈ xs, 0 ≤ k x) (hlt : (xs.map k).sum < 1)
    (bound : α → Bool) : boundSum xs k bound < 1 := by
  refine lt_of_le_of_lt (sum_le_sum fun x hx => ?_) hlt
  split_ifs
  · exact le_rfl
  · exact hk x hx

omit [LinearOrder K] [IsStrictOrderedRing K] in
theorem fixedSum_add_boundSum (bound : α → Bool) (c : K) : fixedSum xs s bound + boundSum xs k bound * c =
    (xs.map fun x => if bound x then k x * c else s x).sum := by
  induction xs with
  | nil => simp [fixedSum, boundSum]
  | cons x xs ih =>
    simp only [fixedSum, boundSum, map_cons, sum_cons] at ih ⊢
    rw [← ih]
    split_ifs <;> ring

theorem Solves.eq (h : Solves p xs s k bound c) (hlt : boundSum xs k bound < 1) :
    c = p + (xs.map fun x => if bound x then k x * c else s x).sum := by
  rw [← fixedSum_add_boundSum]
  have hne : 1 - boundSum xs k bound ≠ 0 := (sub_pos.mpr hlt).ne'
  have := (eq_div_iff hne).mp h
  linarith

/-- Binding parts whose share is at least their fixed amount raises the total. -/
theorem Solves.le (h : Solves p xs s k bound c) (h' : Solves p xs s k bound' d)
    (hlt : boundSum xs k bound < 1) (hlt' : boundSum xs k bound' < 1)
    (hgrow : ∀ x ∈ xs, bound x = true → bound' x = true)
    (hnew : ∀ x ∈ xs, bound' x = true → s x ≤ k x * c) : c ≤ d := by
  have hc := h.eq hlt
  have hmore : (xs.map fun x => if bound x then k x * c else s x).sum ≤
      (xs.map fun x => if bound' x then k x * c else s x).sum := by
    refine sum_le_sum fun x hx => ?_
    by_cases hb : bound x = true
    · rw [if_pos hb, if_pos (hgrow x hx hb)]
    · rw [if_neg hb]
      split_ifs with hb'
      · exact hnew x hx hb'
      · exact le_rfl
  rw [← fixedSum_add_boundSum bound'] at hmore
  rw [Solves] at h'
  rw [h', le_div_iff₀ (sub_pos.mpr hlt')]
  linarith

/-- When the bound parts are the greater shares and the others the greater fixed
amounts, the total balances. -/
theorem Solves.balances (h : Solves p xs s k bound c) (hlt : boundSum xs k bound < 1)
    (hbound : ∀ x ∈ xs, bound x = true → s x ≤ k x * c)
    (hfree : ∀ x ∈ xs, ¬bound x = true → k x * c ≤ s x) : Balances p xs s k c := by
  rw [Balances, drawn]
  refine (h.eq hlt).trans (congrArg (p + ·) (congrArg List.sum (map_congr_left fun x hx => ?_)))
  split_ifs with hb
  · exact (max_eq_right (hbound x hx hb)).symm
  · exact (max_eq_left (hfree x hx hb)).symm

end SelfShare
