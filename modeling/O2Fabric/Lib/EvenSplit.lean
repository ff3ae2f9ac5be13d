/-
  O2Fabric.Lib.EvenSplit

  A domain of `total` indexes cut into `count` contiguous pieces of which the
  first `total % count` have one index more than the others.
-/

import Mathlib.Algebra.BigOperators.Intervals

namespace O2Fabric.EvenSplit

/-- Where a piece starts; the piece before it ends there. -/
def start (total count i : Nat) : Nat := i * (total / count) + min i (total % count)

variable {total count i j : Nat}

theorem start_zero : start total count 0 = 0 := by
  simp [start]

theorem start_last (h : 0 < count) : start total count count = total := by
  unfold start
  rw [Nat.min_eq_right (Nat.le_of_lt (Nat.mod_lt total h))]
  exact Nat.div_add_mod total count

theorem start_le_start (h : i ≤ j) : start total count i ≤ start total count j := by
  have hmul : i * (total / count) ≤ j * (total / count) := Nat.mul_le_mul_right _ h
  unfold start
  omega

theorem start_le_total (h : 0 < count) (hi : i ≤ count) : start total count i ≤ total := by
  calc start total count i ≤ start total count count := start_le_start hi
    _ = total := start_last h

/-- A piece that is not empty starts no earlier than its number. -/
theorem le_start_of_lt (h : start total count i < start total count (i + 1)) :
    i ≤ start total count i := by
  unfold start at h ⊢
  rcases Nat.eq_zero_or_pos (total / count) with hzero | hpos
  · rw [hzero] at h ⊢
    omega
  · have hmul : i * 1 ≤ i * (total / count) := Nat.mul_le_mul_left i hpos
    omega

/-- Every index is in exactly one piece. -/
theorem exists_unique_piece (h : 0 < count) {k : Nat} (hk : k < total) :
    ∃ i, (i < count ∧ start total count i ≤ k ∧ k < start total count (i + 1)) ∧
      ∀ j, j < count ∧ start total count j ≤ k ∧ k < start total count (j + 1) → j = i := by
  -- the last piece that starts no later
  have hex : ∃ i, k < start total count (i + 1) := by
    refine ⟨count - 1, ?_⟩
    rw [Nat.sub_add_cancel h, start_last h]
    exact hk
  classical
  refine ⟨Nat.find hex, ⟨?_, ?_, Nat.find_spec hex⟩, ?_⟩
  · have hle : Nat.find hex ≤ count - 1 := by
      apply Nat.find_min'
      rw [Nat.sub_add_cancel h, start_last h]
      exact hk
    omega
  · rcases Nat.eq_zero_or_pos (Nat.find hex) with hzero | hpos
    · rw [hzero, start_zero]
      exact Nat.zero_le k
    · have hbefore := Nat.find_min hex (Nat.sub_lt hpos Nat.one_pos)
      rw [Nat.sub_add_cancel hpos] at hbefore
      omega
  · rintro j ⟨-, hfrom, huntil⟩
    have hle : Nat.find hex ≤ j := Nat.find_min' hex huntil
    by_contra hne
    have hlater : start total count (Nat.find hex + 1) ≤ start total count j :=
      start_le_start (by omega)
    have hspec := Nat.find_spec hex
    omega

/-- The sums over the pieces add up to the sum over the domain. -/
theorem sum_pieces {M : Type*} [AddCommMonoid M] (f : Nat → M) (h : 0 < count) :
    ∑ i ∈ Finset.range count,
        ∑ k ∈ Finset.Ico (start total count i) (start total count (i + 1)), f k
      = ∑ k ∈ Finset.range total, f k := by
  have hupto : ∀ n, ∑ i ∈ Finset.range n,
      ∑ k ∈ Finset.Ico (start total count i) (start total count (i + 1)), f k
        = ∑ k ∈ Finset.Ico 0 (start total count n), f k := by
    intro n
    induction n with
    | zero => simp [start_zero]
    | succ n ih =>
      rw [Finset.sum_range_succ, ih, Finset.sum_Ico_consecutive _ (Nat.zero_le _)
        (start_le_start (Nat.le_succ n))]
  rw [hupto, start_last h, Finset.range_eq_Ico]

end O2Fabric.EvenSplit
