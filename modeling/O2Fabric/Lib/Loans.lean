/-
  O2Fabric.Lib.Loans

  Items issued one by one to parties, each of which takes at most one and gives
  it back when it finishes.  The books list who took what and who returned what;
  `Kept` says that they agree with where every party stands: an item is with the
  party that took it until that party has finished, and then it was returned once.
-/

import Mathlib.Data.List.Count

namespace O2Fabric.Loans

universe u

variable {ι : Type u}

inductive Standing
  | empty
  | holding (item : Nat)
  | finished
  deriving DecidableEq

/-- `total` items were issued, numbered from zero. -/
structure Books (ι : Type u) where
  total : Nat
  takes : List (ι × Nat)
  returns : List (ι × Nat)

/-- What one action of one party may do. -/
inductive Move (i : ι) (b : Books ι) : Standing → Books ι → Standing → Prop
  | keep (standing : Standing) : Move i b standing b standing
  | take : Move i b .empty
      { b with total := b.total + 1, takes := b.takes ++ [(i, b.total)] } (.holding b.total)
  | give (item : Nat) : Move i b (.holding item)
      { b with returns := b.returns ++ [(i, item)] } .finished
  | leave : Move i b .empty b .finished

variable [DecidableEq ι]

structure Kept (b : Books ι) (standing : ι → Standing) : Prop where
  issued : ∀ i item, (i, item) ∈ b.takes → item < b.total
  single : ∀ i j item, (i, item) ∈ b.takes → (j, item) ∈ b.takes → i = j
  held : ∀ i item, standing i = .holding item →
    (i, item) ∈ b.takes ∧ (i, item) ∉ b.returns
  settled : ∀ i item, (i, item) ∈ b.takes → standing i = .holding item ∨
    standing i = .finished ∧ b.returns.count (i, item) = 1
  honest : ∀ e ∈ b.returns, e ∈ b.takes

variable {b b' : Books ι} {standing : ι → Standing} {after : Standing} {i : ι}

theorem Kept.start (total : Nat) : Kept (⟨total, [], []⟩ : Books ι) fun _ => .empty := by
  constructor
  · intro i item hin
    exact absurd hin List.not_mem_nil
  · intro i j item hin
    exact absurd hin List.not_mem_nil
  · rintro i item ⟨⟩
  · intro i item hin
    exact absurd hin List.not_mem_nil
  · intro e hin
    exact absurd hin List.not_mem_nil

/-- Somebody else takes items. -/
theorem Kept.grow (h : Kept b standing) {total : Nat} (hle : b.total ≤ total) :
    Kept { b with total := total } standing :=
  { h with issued := fun i item hin => Nat.lt_of_lt_of_le (h.issued i item hin) hle }

/-- A party that is empty-handed and not finished has taken nothing. -/
theorem Kept.notMem_takes (h : Kept b standing) (hempty : standing i = .empty) (item : Nat) :
    (i, item) ∉ b.takes := by
  intro hin
  obtain hholding | ⟨hfinished, -⟩ := h.settled i item hin
  · rw [hempty] at hholding
    cases hholding
  · rw [hempty] at hfinished
    cases hfinished

theorem Kept.take (h : Kept b standing) (hempty : standing i = .empty) :
    Kept { b with total := b.total + 1, takes := b.takes ++ [(i, b.total)] }
      (Function.update standing i (.holding b.total)) := by
  -- the new item is nobody's yet
  have hnew : ∀ j, (j, b.total) ∉ b.takes := by
    intro j hin
    have := h.issued j b.total hin
    omega
  have hmem : ∀ j item, (j, item) ∈ b.takes ++ [(i, b.total)] →
      (j, item) ∈ b.takes ∨ j = i ∧ item = b.total := by
    intro j item hin
    rcases List.mem_append.mp hin with hin | hin
    · exact Or.inl hin
    · exact Or.inr (Prod.mk.inj (List.mem_singleton.mp hin))
  constructor
  · intro j item hin
    show item < b.total + 1
    obtain hin | ⟨-, rfl⟩ := hmem j item hin
    · have := h.issued j item hin
      omega
    · omega
  · intro j k item hj hk
    obtain hj' | ⟨rfl, rfl⟩ := hmem j item hj
    · obtain hk' | ⟨rfl, rfl⟩ := hmem k item hk
      · exact h.single j k item hj' hk'
      · exact absurd hj' (hnew j)
    · obtain hk' | ⟨rfl, -⟩ := hmem k _ hk
      · exact absurd hk' (hnew k)
      · rfl
  · intro j item hj
    by_cases hji : j = i
    · rw [hji, Function.update_self] at hj
      cases hj
      rw [hji]
      refine ⟨List.mem_append_right _ List.mem_cons_self, ?_⟩
      intro hreturned
      exact hnew i (h.honest _ hreturned)
    · rw [Function.update_of_ne hji] at hj
      obtain ⟨htaken, hreturned⟩ := h.held j item hj
      exact ⟨List.mem_append_left _ htaken, hreturned⟩
  · intro j item hin
    obtain hin' | ⟨rfl, rfl⟩ := hmem j item hin
    · have hji : j ≠ i := by
        rintro rfl
        exact h.notMem_takes hempty item hin'
      rw [Function.update_of_ne hji]
      exact h.settled j item hin'
    · rw [Function.update_self]
      exact Or.inl rfl
  · intro e he
    exact List.mem_append_left _ (h.honest e he)

theorem Kept.give (h : Kept b standing) {item : Nat} (hholding : standing i = .holding item) :
    Kept { b with returns := b.returns ++ [(i, item)] }
      (Function.update standing i .finished) := by
  obtain ⟨htaken, hreturned⟩ := h.held i item hholding
  constructor
  · exact h.issued
  · exact h.single
  · intro j item' hj
    by_cases hji : j = i
    · rw [hji, Function.update_self] at hj
      cases hj
    · rw [Function.update_of_ne hji] at hj
      obtain ⟨htaken', hreturned'⟩ := h.held j item' hj
      refine ⟨htaken', ?_⟩
      intro hin
      rcases List.mem_append.mp hin with hin | hin
      · exact hreturned' hin
      · exact hji (Prod.mk.inj (List.mem_singleton.mp hin)).1
  · intro j item' hin
    by_cases hji : j = i
    · subst hji
      rw [Function.update_self]
      -- the party holds one item, so this is the one
      obtain hsame | ⟨hfinished, -⟩ := h.settled j item' hin
      · rw [hholding] at hsame
        cases hsame
        refine Or.inr ⟨rfl, ?_⟩
        rw [List.count_append, List.count_eq_zero.mpr hreturned, List.count_singleton_self]
      · rw [hholding] at hfinished
        cases hfinished
    · rw [Function.update_of_ne hji]
      obtain hsame | ⟨hfinished, hcount⟩ := h.settled j item' hin
      · exact Or.inl hsame
      · refine Or.inr ⟨hfinished, ?_⟩
        have hother : (j, item') ∉ [(i, item)] := by
          intro hin
          exact hji (Prod.mk.inj (List.mem_singleton.mp hin)).1
        rw [List.count_append, hcount, List.count_eq_zero.mpr hother]
  · intro e he
    rcases List.mem_append.mp he with he | he
    · exact h.honest e he
    · rw [List.mem_singleton.mp he]
      exact htaken

theorem Kept.leave (h : Kept b standing) (hempty : standing i = .empty) :
    Kept b (Function.update standing i .finished) := by
  constructor
  · exact h.issued
  · exact h.single
  · intro j item hj
    by_cases hji : j = i
    · rw [hji, Function.update_self] at hj
      cases hj
    · rw [Function.update_of_ne hji] at hj
      exact h.held j item hj
  · intro j item hin
    have hji : j ≠ i := by
      rintro rfl
      exact h.notMem_takes hempty item hin
    rw [Function.update_of_ne hji]
    exact h.settled j item hin
  · exact h.honest

theorem Kept.move (h : Kept b standing) (hmove : Move i b (standing i) b' after) :
    Kept b' (Function.update standing i after) := by
  cases hbefore : standing i with
  | empty =>
    rw [hbefore] at hmove
    cases hmove with
    | keep =>
      rw [← hbefore, Function.update_eq_self]
      exact h
    | take => exact h.take hbefore
    | leave => exact h.leave hbefore
  | holding item =>
    rw [hbefore] at hmove
    cases hmove with
    | keep =>
      rw [← hbefore, Function.update_eq_self]
      exact h
    | give => exact h.give hbefore
  | finished =>
    rw [hbefore] at hmove
    cases hmove with
    | keep =>
      rw [← hbefore, Function.update_eq_self]
      exact h

end O2Fabric.Loans
