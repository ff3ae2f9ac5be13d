/-
  O2Fabric.Lib.Tally

  Counters kept by key, where a key that was never counted is absent.
-/

import O2Fabric.Lib.InsertionMap
import Mathlib.Algebra.BigOperators.Group.List.Basic
import Mathlib.Algebra.GroupWithZero.Nat
import Mathlib.Data.List.Perm.Subperm

namespace O2Fabric

universe u

namespace InsertionMap

variable {κ : Type u} [DecidableEq κ]

def count (m : InsertionMap κ Nat) (key : κ) : Nat := (m.get? key).getD 0

/-- `map[key] = (map[key] ?? 0) + 1`. -/
def bump (m : InsertionMap κ Nat) (key : κ) : InsertionMap κ Nat := m.set key (m.count key + 1)

/-- What was counted under all keys. -/
def total (m : InsertionMap κ Nat) : Nat := m.values.sum

theorem count_bump (m : InsertionMap κ Nat) (key key' : κ) :
    (m.bump key).count key' = if key' = key then m.count key + 1 else m.count key' := by
  unfold count bump
  rw [get?_set]
  by_cases h : key' = key
  · rw [if_pos h, if_pos h]
    rfl
  · rw [if_neg h, if_neg h]

theorem count_le_bump (m : InsertionMap κ Nat) (key key' : κ) :
    m.count key' ≤ (m.bump key).count key' := by
  rw [count_bump]
  by_cases h : key' = key
  · rw [if_pos h, h]
    omega
  · exact Nat.le_of_eq (if_neg h).symm

theorem mem_keys_bump {m : InsertionMap κ Nat} {key key' : κ} :
    key' ∈ (m.bump key).keys ↔ key' ∈ m.keys ∨ key' = key := mem_keys_set

theorem sum_write_lookup (key : κ) (entries : List (κ × Nat)) :
    ((write key ((lookup key entries).getD 0 + 1) entries).map Prod.snd).sum
      = (entries.map Prod.snd).sum + 1 := by
  induction entries with
  | nil => rfl
  | cons entry entries ih =>
    obtain ⟨k, n⟩ := entry
    by_cases h : k = key
    · rw [lookup, if_pos h, write, if_pos h]
      simp only [Option.getD_some, List.map_cons, List.sum_cons]
      omega
    · rw [lookup, if_neg h, write, if_neg h]
      simp only [List.map_cons, List.sum_cons, ih]
      omega

/-- A report more is one more in all. -/
theorem total_bump (m : InsertionMap κ Nat) (key : κ) : (m.bump key).total = m.total + 1 :=
  sum_write_lookup key m.entries

omit [DecidableEq κ] in
omit [DecidableEq κ] in
/-- With all keys in a list, there are no more of them than it has places. -/
theorem size_le_of_keys {ν : Type*} {m : InsertionMap κ ν} {closed : List κ}
    (h : ∀ key ∈ m.keys, key ∈ closed) : m.size ≤ closed.length := by
  rw [size_eq_length_keys]
  exact (m.keys_nodup.subperm h).length_le

end InsertionMap

end O2Fabric
