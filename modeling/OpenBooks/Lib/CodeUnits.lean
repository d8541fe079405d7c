import Mathlib.Data.List.Lex
import Mathlib.Data.Prod.Lex
import Mathlib.Data.Char

/-!
# Strings in code-unit order

A language that keeps a text as 16-bit code units compares two texts unit by unit. A
character above the basic plane is a pair of surrogates there, so the order is **not** the
order of the characters: a surrogate stands below the last eight thousand characters of the
basic plane.

`CodeUnits.encode` gives the units of a text and is injective
(`CodeUnits.encode_injective`) – the first unit says whether a second one belongs to it – so
the order of the units is a linear order on texts.
-/

namespace CodeUnits

open List

/-- The code units of one character. -/
def units (c : Char) : List ℕ :=
  if c.toNat < 0x10000 then [c.toNat]
  else [0xd800 + (c.toNat - 0x10000) / 0x400, 0xdc00 + (c.toNat - 0x10000) % 0x400]

/-- The code units of a text. -/
def encode (s : String) : List ℕ := s.toList.flatMap units

/-- No character is a surrogate, so the first unit of a pair is the first unit of no other
character. -/
theorem toNat_valid (c : Char) : c.toNat < 0xd800 ∨ 0xdfff < c.toNat ∧ c.toNat < 0x110000 :=
  c.valid

theorem units_append_inj {c d : Char} {cs ds : List ℕ} (h : units c ++ cs = units d ++ ds) :
    c = d ∧ cs = ds := by
  have hc := toNat_valid c
  have hd := toNat_valid d
  unfold units at h
  split_ifs at h with hc' hd' hd'
  · simp only [cons_append, nil_append, List.cons.injEq] at h
    exact ⟨Char.toNat_inj.mp h.1, h.2⟩
  · simp only [cons_append, nil_append, List.cons.injEq] at h
    omega
  · simp only [cons_append, nil_append, List.cons.injEq] at h
    omega
  · simp only [cons_append, nil_append, List.cons.injEq] at h
    exact ⟨Char.toNat_inj.mp (by omega), h.2.2⟩

theorem units_ne_nil (c : Char) : units c ≠ [] := by
  unfold units
  split_ifs
  · exact cons_ne_nil _ _
  · exact cons_ne_nil _ _

theorem flatMap_units_injective : Function.Injective (List.flatMap units) := by
  intro cs ds h
  induction cs generalizing ds with
  | nil =>
    cases ds with
    | nil => rfl
    | cons d ds =>
      rw [flatMap_nil, flatMap_cons] at h
      exact absurd (append_eq_nil_iff.mp h.symm).1 (units_ne_nil d)
  | cons c cs ih =>
    cases ds with
    | nil =>
      rw [flatMap_nil, flatMap_cons] at h
      exact absurd (append_eq_nil_iff.mp h).1 (units_ne_nil c)
    | cons d ds =>
      rw [flatMap_cons, flatMap_cons] at h
      obtain ⟨rfl, hrest⟩ := units_append_inj h
      rw [ih hrest]

/-- **Texts with the same units are the same.** -/
theorem encode_injective : Function.Injective encode := by
  intro s t h
  exact String.toList_inj.mp (flatMap_units_injective h)

end CodeUnits
