/-
  O2Fabric.Lib.Modify

  Counts and sums over a list, one element of which is changed in place, and
  the list itself where one element is replaced.
-/

import Mathlib.Algebra.BigOperators.Group.List.Basic
import Mathlib.Algebra.GroupWithZero.Nat

namespace O2Fabric.Modify

universe u

variable {α : Type u} {l : List α} {i : Nat} {x : α} {f : α → α}

/-- What a sum loses and gains when one of its terms is changed. -/
theorem sum_modify (weight : α → Nat) (h : l[i]? = some x) :
    ((l.modify i f).map weight).sum + weight x = (l.map weight).sum + weight (f x) := by
  induction l generalizing i with
  | nil => cases h
  | cons y rest ih =>
    cases i with
    | zero =>
      cases h
      show weight (f x) + (rest.map weight).sum + weight x
        = weight x + (rest.map weight).sum + weight (f x)
      omega
    | succ i =>
      have hrest := ih h
      show weight y + ((rest.modify i f).map weight).sum + weight x
        = weight y + (rest.map weight).sum + weight (f x)
      omega

/-- The same for how many elements meet a condition. -/
theorem countP_modify (cond : α → Bool) (h : l[i]? = some x) :
    (l.modify i f).countP cond + (cond x).toNat = l.countP cond + (cond (f x)).toNat := by
  have hsum : ∀ l : List α, l.countP cond = (l.map fun x => (cond x).toNat).sum := by
    intro l
    induction l with
    | nil => rfl
    | cons y rest ih =>
      rw [List.countP_cons, List.map_cons, List.sum_cons, ih]
      cases cond y <;> simp [Nat.add_comm]
  rw [hsum, hsum]
  exact sum_modify _ h

/-- An element after the change. -/
theorem getElem?_modify_some {j : Nat} {y : α} (h : (l.modify i f)[j]? = some y) :
    ∃ x, l[j]? = some x ∧ y = if i = j then f x else x := by
  rw [List.getElem?_modify] at h
  obtain ⟨x, hx, rfl⟩ := Option.map_eq_some_iff.mp h
  exact ⟨x, hx, by split <;> rfl⟩

/-! ## Replacing one element -/

/-- An element after one is replaced. -/
theorem getElem?_set_cases {j : Nat} {y z : α} (h : l[i]? = some x)
    (hj : (l.set i y)[j]? = some z) : (j = i ∧ z = y) ∨ (j ≠ i ∧ l[j]? = some z) := by
  by_cases hsame : j = i
  · subst hsame
    rw [List.getElem?_set_self (List.getElem?_eq_some_iff.mp h).1] at hj
    exact Or.inl ⟨rfl, (Option.some.inj hj).symm⟩
  · rw [List.getElem?_set_ne (Ne.symm hsame)] at hj
    exact Or.inr ⟨hsame, hj⟩

/-- What is replaced comes out, what replaces it goes in. -/
theorem perm_set (h : l[i]? = some x) (y : α) : (y :: l).Perm (x :: l.set i y) := by
  induction l generalizing i with
  | nil => cases h
  | cons z rest ih =>
    cases i with
    | zero =>
      cases h
      exact List.Perm.swap _ _ _
    | succ i =>
      have hrest := ih h
      exact (List.Perm.swap _ _ _).trans ((hrest.cons z).trans (List.Perm.swap _ _ _))

end O2Fabric.Modify
