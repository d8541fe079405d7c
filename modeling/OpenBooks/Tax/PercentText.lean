import OpenBooks.Money.DecimalReaders
import OpenBooks.Tax.LineTaxes

/-!
# Two readers of one percentage

A rate is checked by the money reader, which takes an exponent and any number of trailing
zeros, and multiplied by the percentage reader, which takes neither an exponent nor more than
18 places. The two read the same sign: a rate that is not negative to the one is not negative
to the other (`readPercent_nonneg`).
-/

namespace OpenBooks

open List

theorem readPercent_eq_some {text : String} {p : PlainPercent}
    (h : readPercent text = some p) :
    ∃ m, matchDecimal (trim text.toList) = some m ∧ m.exponent = none ∧
      p.units = if m.negative then -(digitsValue (m.whole ++ m.fraction) : ℤ)
        else digitsValue (m.whole ++ m.fraction) := by
  obtain ⟨d, hd, h⟩ := Option.bind_eq_some_iff.mp h
  obtain ⟨m, hm, hd⟩ := Option.bind_eq_some_iff.mp hd
  split_ifs at h
  cases h
  refine ⟨m, hm, ?_⟩
  cases hexp : m.exponent with
  | some x => simp [hexp] at hd
  | none =>
    simp only [hexp, Option.isSome_none, Bool.not_false, Bool.and_false, Bool.false_eq_true,
      if_false, Option.getD_none] at hd
    split_ifs at hd with hbig hneg
    all_goals
      first
      | omega
      | (cases hd; exact ⟨rfl, by simp [hneg]⟩)

/-- **A rate that is not negative to the money reader is not negative to the percentage
reader.** -/
theorem readPercent_nonneg {text : String} {p : PlainPercent} {u : ℤ}
    (hu : toUnits text.toList = some u) (hnonneg : 0 ≤ u) (hp : readPercent text = some p) :
    0 ≤ p.units := by
  obtain ⟨m, hm, hexp, hunits⟩ := readPercent_eq_some hp
  cases hnegative : m.negative with
  | false =>
    rw [hunits, hnegative]
    simp
  | true =>
    -- A negative text that reads as a number not negative is a zero.
    suffices hzero : ∀ c ∈ m.whole ++ m.fraction, c = '0' by
      obtain ⟨hwhole, hfraction, -⟩ := matchDecimal_digits hm
      have hdigits : ∀ c ∈ m.whole ++ m.fraction, c.isDigit = true := fun c hc =>
        (mem_append.mp hc).elim (hwhole c) (hfraction c)
      rw [hunits, (digitsValue_eq_zero_iff hdigits).mpr hzero]
      simp
    obtain ⟨hwhole, hfraction, -⟩ := matchDecimal_digits hm
    unfold toUnits at hu
    split at hu
    · rename_i negative digits hcanonical
      obtain ⟨m', hm', hneg', -, hdigits', -⟩ := matchDecimal_of_canonical hcanonical
      obtain rfl : m = m' := Option.some.inj (hm.symm.trans hm')
      rw [← hneg', hnegative, ← hdigits', if_pos rfl, Option.some.injEq] at hu
      refine (digitsValue_eq_zero_iff ?_).mp (by omega)
      exact fun c hc => (mem_append.mp hc).elim (hwhole c) (hfraction c)
    · simp only [toUnitsGeneral, hm, hexp, hnegative, Option.bind_eq_bind, Option.bind_some,
        Option.getD_none] at hu
      split_ifs at hu with hbig hpos hneg hlost
      all_goals first | omega | skip
      simp only [Option.some.injEq] at hu
      have htake := isDigit_take_append_zeros hfraction
      have hSCALE := SCALE_pos
      have hwhole0 : digitsValue m.whole = 0 := by nlinarith
      have hfraction0 : digitsValue ((m.fraction ++ ['0', '0', '0', '0']).take 4) = 0 := by
        rw [hwhole0] at hu
        omega
      have hkept := (digitsValue_eq_zero_iff htake).mp hfraction0
      intro c hc
      rcases mem_append.mp hc with hc | hc
      · exact (digitsValue_eq_zero_iff hwhole).mp hwhole0 c hc
      · rw [← take_append_drop 4 m.fraction] at hc
        rcases mem_append.mp hc with hc | hc
        · exact hkept c (by rw [take_append]; exact mem_append_left _ hc)
        · -- A digit past the fourth place that is not zero would have been lost.
          by_contra hne
          have hdrop : m.fraction.drop 4 ≠ [] := by
            rintro hnil
            rw [hnil] at hc
            cases hc
          refine hlost ⟨by simpa using hdrop, ?_⟩
          rw [hasNonzeroDigit, any_eq_true]
          exact ⟨c, hc, by simpa using hne⟩

end OpenBooks
