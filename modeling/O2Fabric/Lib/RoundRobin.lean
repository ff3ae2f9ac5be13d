/-
  O2Fabric.Lib.RoundRobin

  Taking one element of each group in turn: the first of every group, then the
  second of every group that has one, and so on.  The rows together are the
  groups together (`rowsFrom_perm`), so nothing is taken twice and nothing that
  is in a group is missed.
-/

import Mathlib.Data.List.Flatten
import Mathlib.Data.List.Perm.Basic

namespace O2Fabric.RoundRobin

universe u

variable {α : Type u}

def row (groups : List (List α)) (depth : Nat) : List α :=
  groups.filterMap fun group => group[depth]?

/-- The rows from a depth on, so many of them. -/
def rowsFrom (groups : List (List α)) : Nat → Nat → List α
  | _, 0 => []
  | depth, count + 1 => row groups depth ++ rowsFrom groups (depth + 1) count

variable {groups : List (List α)} {depth : Nat}

theorem row_eq_nil :
    row groups depth = [] ↔ ∀ group ∈ groups, group.length ≤ depth := by
  unfold row
  rw [List.filterMap_eq_nil_iff]
  simp only [List.getElem?_eq_none_iff]

theorem row_cons (group : List α) (groups : List (List α)) (depth : Nat) :
    row (group :: groups) depth = group[depth]?.toList ++ row groups depth := by
  unfold row
  rw [List.filterMap_cons]
  cases group[depth]? with
  | none => rfl
  | some x => rfl

/-- Below an empty row there is nothing. -/
theorem rowsFrom_eq_nil (h : ∀ group ∈ groups, group.length ≤ depth) (count : Nat) :
    rowsFrom groups depth count = [] := by
  induction count generalizing depth with
  | zero => rfl
  | succ count ih =>
    have hbelow : ∀ group ∈ groups, group.length ≤ depth + 1 := by
      intro group hgroup
      have := h group hgroup
      omega
    rw [rowsFrom, row_eq_nil.mpr h, ih hbelow]
    rfl

/-- One row off the groups leaves what is below it. -/
theorem row_perm (groups : List (List α)) (depth : Nat) :
    (row groups depth ++ (groups.map (List.drop (depth + 1))).flatten).Perm
      (groups.map (List.drop depth)).flatten := by
  induction groups with
  | nil => exact .refl _
  | cons group rest ih =>
    rw [row_cons, List.map_cons, List.map_cons, List.flatten_cons, List.flatten_cons]
    by_cases hdepth : depth < group.length
    · rw [List.getElem?_eq_getElem hdepth, List.drop_eq_getElem_cons hdepth]
      -- the element of this group goes first on both sides
      refine List.Perm.cons _ ?_
      refine (List.perm_append_comm_assoc _ _ _).trans ?_
      exact ih.append_left _
    · have hnone : group[depth]? = none := List.getElem?_eq_none_iff.mpr (by omega)
      rw [hnone, List.drop_eq_nil_of_le (by omega), List.drop_eq_nil_of_le (by omega)]
      exact ih

theorem rowsFrom_perm {count : Nat} (h : ∀ group ∈ groups, group.length ≤ depth + count) :
    (rowsFrom groups depth count).Perm (groups.map (List.drop depth)).flatten := by
  induction count generalizing depth with
  | zero =>
    have hnil : (groups.map (List.drop depth)).flatten = [] := by
      rw [List.flatten_eq_nil_iff]
      intro rest hrest
      obtain ⟨group, hgroup, rfl⟩ := List.mem_map.mp hrest
      exact List.drop_eq_nil_of_le (h group hgroup)
    rw [hnil]
    exact .refl _
  | succ count ih =>
    have hbelow : ∀ group ∈ groups, group.length ≤ depth + 1 + count := by
      intro group hgroup
      have := h group hgroup
      omega
    exact ((ih hbelow).append_left _).trans (row_perm groups depth)

end O2Fabric.RoundRobin
