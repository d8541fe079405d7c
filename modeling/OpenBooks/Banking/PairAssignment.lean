import OpenBooks.Lib.Comparators
import OpenBooks.Lib.Greedy
import Mathlib.Algebra.Order.Group.Unbundled.Int

/-!
# One-to-one assignment

Every line of a bank statement may match several lines of the ledger. The matcher scores the pairs,
and `assignOneToOne` chooses among them: the strongest pair claims its line and its candidate first,
and a pair whose line or candidate is claimed is passed over.

The ranking, `comparePairProposals`, asks eight keys in turn and tells two pairs apart unless they
are of the same line and candidate. So the choice does not depend on the order in which the pairs
come, and it is stable (`assignOneToOne_stable`): every pair passed over lost its line or its
candidate to a stronger one.
-/

namespace OpenBooks

open Comparators List

/-- A pair of a statement line and a ledger candidate, with what else the caller keeps on it. -/
structure PairProposal (ρ : Type) where
  lineId : String
  candidateId : String
  score : ℤ
  lagDays : ℤ
  preferred : Bool
  lineOrder : ℤ
  candidateOrder : ℤ
  rest : ρ
  deriving DecidableEq

variable {ρ : Type}

/-- The ranking of the pairs: the stronger one first. -/
def comparePairProposals (a b : PairProposal ρ) : ℤ :=
  firstNonzero [
    b.score - a.score,
    (b.preferred.toNat : ℤ) - a.preferred.toNat,
    |a.lagDays| - |b.lagDays|,
    ((decide (b.lagDays ≥ 0)).toNat : ℤ) - (decide (a.lagDays ≥ 0)).toNat,
    a.lineOrder - b.lineOrder,
    a.candidateOrder - b.candidateOrder,
    compareTexts a.lineId b.lineId,
    compareTexts a.candidateId b.candidateId]

/-- What is claimed, and by which pairs. -/
structure Assignment (ρ : Type) where
  usedLines : List String
  usedCandidates : List String
  out : List (PairProposal ρ)

def Assignment.claim (s : Assignment ρ) (proposal : PairProposal ρ) : Assignment ρ :=
  if proposal.lineId ∈ s.usedLines ∨ proposal.candidateId ∈ s.usedCandidates then s
  else
    { usedLines := s.usedLines ++ [proposal.lineId]
      usedCandidates := s.usedCandidates ++ [proposal.candidateId]
      out := s.out ++ [proposal] }

/-- Choose among the pairs, each line and each candidate once. -/
def assignOneToOne (proposals : List (PairProposal ρ)) : List (PairProposal ρ) :=
  ((sorted comparePairProposals proposals).foldl Assignment.claim ⟨[], [], []⟩).out

/-! ### The ranking -/

theorem coherent_comparePairProposals :
    Coherent (comparePairProposals : PairProposal ρ → PairProposal ρ → ℤ) := by
  refine coherent_firstNonzero [
    fun a b : PairProposal ρ => b.score - a.score,
    fun a b => (b.preferred.toNat : ℤ) - a.preferred.toNat,
    fun a b => |a.lagDays| - |b.lagDays|,
    fun a b => ((decide (b.lagDays ≥ 0)).toNat : ℤ) - (decide (a.lagDays ≥ 0)).toNat,
    fun a b => a.lineOrder - b.lineOrder,
    fun a b => a.candidateOrder - b.candidateOrder,
    fun a b => compareTexts a.lineId b.lineId,
    fun a b => compareTexts a.candidateId b.candidateId] ?_
  simp only [forall_mem_cons, not_mem_nil, false_imp_iff, implies_true, and_true]
  exact ⟨coherent_sub_swap _, coherent_sub_swap fun p : PairProposal ρ => (p.preferred.toNat : ℤ),
    coherent_sub fun p : PairProposal ρ => |p.lagDays|,
    coherent_sub_swap fun p : PairProposal ρ => ((decide (p.lagDays ≥ 0)).toNat : ℤ),
    coherent_sub _, coherent_sub _, coherent_compareTexts.comap _, coherent_compareTexts.comap _⟩

/-- Pairs that the ranking does not tell apart are of one line and one candidate. -/
theorem ids_eq_of_comparePairProposals {a b : PairProposal ρ} (h : comparePairProposals a b = 0) :
    (a.lineId, a.candidateId) = (b.lineId, b.candidateId) := by
  have hzero := (firstNonzero_eq_zero_iff _).mp h
  have hline : a.lineId = b.lineId := (compareTexts_eq_zero_iff _ _).mp (hzero _ (by simp))
  have hcandidate : a.candidateId = b.candidateId :=
    (compareTexts_eq_zero_iff _ _).mp (hzero _ (by simp))
  rw [hline, hcandidate]

/-! ### The sweep -/

/-- Two pairs that claim one line or one candidate. -/
def Contends (a b : PairProposal ρ) : Prop :=
  a.lineId = b.lineId ∨ a.candidateId = b.candidateId

instance : DecidableRel (Contends : PairProposal ρ → PairProposal ρ → Prop) :=
  fun _ _ => inferInstanceAs (Decidable (_ ∨ _))

theorem out_foldl_claim (proposals chosen : List (PairProposal ρ)) :
    (proposals.foldl Assignment.claim
      ⟨chosen.map (·.lineId), chosen.map (·.candidateId), chosen⟩).out =
      Greedy.sweep Contends chosen proposals := by
  induction proposals generalizing chosen with
  | nil => rfl
  | cons p rest ih =>
    have hused : (p.lineId ∈ chosen.map (·.lineId) ∨ p.candidateId ∈ chosen.map (·.candidateId)) ↔
        ∃ k ∈ chosen, Contends k p := by
      simp only [mem_map, Contends]
      constructor
      · rintro (⟨k, hk, heq⟩ | ⟨k, hk, heq⟩)
        · exact ⟨k, hk, Or.inl heq⟩
        · exact ⟨k, hk, Or.inr heq⟩
      · rintro ⟨k, hk, heq | heq⟩
        · exact Or.inl ⟨k, hk, heq⟩
        · exact Or.inr ⟨k, hk, heq⟩
    rw [foldl_cons, Greedy.sweep]
    by_cases hclaimed : ∃ k ∈ chosen, Contends k p
    · rw [if_pos hclaimed, Assignment.claim, if_pos (hused.mpr hclaimed), ih]
    · rw [if_neg hclaimed, Assignment.claim, if_neg (hused.not.mpr hclaimed), ← ih]
      simp only [map_append, map_cons, map_nil]

theorem assignOneToOne_eq_sweep (proposals : List (PairProposal ρ)) :
    assignOneToOne proposals =
      Greedy.sweep Contends [] (sorted comparePairProposals proposals) :=
  out_foldl_claim _ []

/-- **The choice is one-to-one, independent of the order of the pairs, and stable.** -/
theorem assignOneToOne_stable {proposals : List (PairProposal ρ)}
    (hdistinct : (proposals.map fun p => (p.lineId, p.candidateId)).Nodup) :
    ((assignOneToOne proposals).map (·.lineId)).Nodup ∧
      ((assignOneToOne proposals).map (·.candidateId)).Nodup ∧
      (∀ p ∈ assignOneToOne proposals, p ∈ proposals) ∧
      (∀ proposals', proposals'.Perm proposals →
        assignOneToOne proposals' = assignOneToOne proposals) ∧
      ∀ p ∈ proposals, p ∉ assignOneToOne proposals →
        ∃ q ∈ assignOneToOne proposals,
          (q.lineId = p.lineId ∨ q.candidateId = p.candidateId) ∧ comparePairProposals q p < 0 := by
  have hapart : ∀ a ∈ proposals, ∀ b ∈ proposals, comparePairProposals a b = 0 → a = b :=
    fun a ha b hb hzero =>
      inj_on_of_nodup_map hdistinct ha hb (ids_eq_of_comparePairProposals hzero)
  have hstrict : ([] ++ sorted comparePairProposals proposals).Pairwise
      fun a b => comparePairProposals a b < 0 :=
    pairwise_lt_sorted coherent_comparePairProposals hdistinct.of_map hapart
  have hfree : (assignOneToOne proposals).Pairwise fun a b => ¬Contends a b := by
    rw [assignOneToOne_eq_sweep]
    exact Greedy.pairwise_sweep List.Pairwise.nil _
  refine ⟨?_, ?_, ?_, ?_, ?_⟩
  · exact pairwise_map.mpr (hfree.imp fun hab heq => hab (Or.inl heq))
  · exact pairwise_map.mpr (hfree.imp fun hab heq => hab (Or.inr heq))
  · intro p hp
    rw [assignOneToOne_eq_sweep] at hp
    exact mem_sorted.mp ((Greedy.sublist_sweep [] _).subset hp)
  · intro proposals' hperm
    rw [assignOneToOne, assignOneToOne,
      sorted_eq_of_perm coherent_comparePairProposals hperm.symm hapart]
  · intro p hp hout
    rw [assignOneToOne_eq_sweep] at hout ⊢
    exact Greedy.exists_clash_of_not_mem hstrict (mem_sorted.mpr hp) hout

/-- A line with two candidates of one score, the second of which another line wants as well. -/
def contendedPairs : List (PairProposal Unit) := [
  ⟨"deposit", "invoice 2", 80, -1, true, 0, 1, ()⟩,
  ⟨"deposit", "invoice 1", 80, 1, true, 0, 0, ()⟩,
  ⟨"wire", "invoice 1", 65, 0, true, 1, 0, ()⟩]

/-- The bank date that lags wins over the one that leads, and the third pair goes without. -/
theorem assignOneToOne_stable_contended :
    assignOneToOne contendedPairs = [⟨"deposit", "invoice 1", 80, 1, true, 0, 0, ()⟩] ∧
      ∀ p ∈ contendedPairs, p ∉ assignOneToOne contendedPairs →
        ∃ q ∈ assignOneToOne contendedPairs,
          (q.lineId = p.lineId ∨ q.candidateId = p.candidateId) ∧ comparePairProposals q p < 0 := by
  have hdistinct : (contendedPairs.map fun p => (p.lineId, p.candidateId)).Nodup := by decide
  obtain ⟨-, -, -, -, hstable⟩ := assignOneToOne_stable hdistinct
  exact ⟨by decide +kernel, hstable⟩

end OpenBooks
