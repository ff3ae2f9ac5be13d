/-
  O2Fabric.Lib.KeyedSum

  Sums kept by key.  A map is worth the function from keys to totals, where a key
  that is absent is worth nothing at all rather than zero; such functions add up,
  and adding entries to a map adds their worth to its own.  What a map says in order
  of its keys is told by its worth.
-/

import O2Fabric.Lib.InsertionMap
import Mathlib.Algebra.BigOperators.Group.List.Basic
import Mathlib.Algebra.Group.WithOne.Basic
import Mathlib.Algebra.Group.Pi.Basic
import Mathlib.Data.List.Sort

namespace O2Fabric.KeyedSum

universe u v

variable {κ : Type u} {ν : Type v} [DecidableEq κ] [AddCommMonoid ν]

/-- `map.set(key, (map.get(key) ?? 0) + n)`. -/
def addEntry (m : InsertionMap κ ν) (e : κ × ν) : InsertionMap κ ν :=
  m.set e.1 ((m.get? e.1).getD 0 + e.2)

def addAll (m : InsertionMap κ ν) (l : List (κ × ν)) : InsertionMap κ ν := l.foldl addEntry m

/-- What is held under one key; an absent one is worth nothing. -/
def worthOf : Option ν → WithZero ν
  | none => 0
  | some n => (n : WithZero ν)

def totals (m : InsertionMap κ ν) (key : κ) : WithZero ν := worthOf (m.get? key)

def entryWorth (e : κ × ν) : κ → WithZero ν := Pi.single e.1 (e.2 : WithZero ν)

omit [DecidableEq κ] [AddCommMonoid ν] in
theorem worthOf_injective : Function.Injective (worthOf : Option ν → WithZero ν) := by
  rintro (_ | a) (_ | b) h
  · rfl
  · exact absurd h.symm WithZero.coe_ne_zero
  · exact absurd h WithZero.coe_ne_zero
  · exact congrArg some (WithZero.coe_inj.mp h)

omit [AddCommMonoid ν] in
@[simp] theorem totals_empty : totals (.empty : InsertionMap κ ν) = 0 := rfl

theorem totals_addEntry (m : InsertionMap κ ν) (e : κ × ν) :
    totals (addEntry m e) = totals m + entryWorth e := by
  funext key
  unfold totals addEntry entryWorth
  rw [InsertionMap.get?_set, Pi.add_apply, Pi.single_apply]
  by_cases hkey : key = e.1
  · rw [if_pos hkey, if_pos hkey, hkey]
    cases m.get? e.1 with
    | none =>
      show ((0 + e.2 : ν) : WithZero ν) = 0 + (e.2 : WithZero ν)
      rw [zero_add, zero_add]
    | some n => exact WithZero.coe_add n e.2
  · rw [if_neg hkey, if_neg hkey, add_zero]

theorem totals_addAll (m : InsertionMap κ ν) (l : List (κ × ν)) :
    totals (addAll m l) = totals m + (l.map entryWorth).sum := by
  induction l generalizing m with
  | nil => simp [addAll]
  | cons e l ih =>
    show totals (addAll (addEntry m e) l) = _
    rw [ih, totals_addEntry, List.map_cons, List.sum_cons, add_assoc]

/-- A map is worth its entries. -/
theorem totals_entries (m : InsertionMap κ ν) :
    (m.entries.map entryWorth).sum = totals m := by
  funext key
  have hentries : ∀ l : List (κ × ν), (l.map Prod.fst).Nodup →
      (l.map entryWorth).sum key = worthOf (InsertionMap.lookup key l) := by
    intro l hnodup
    induction l with
    | nil => rfl
    | cons e l ih =>
      rw [List.map_cons, List.nodup_cons] at hnodup
      rw [List.map_cons, List.sum_cons, Pi.add_apply, ih hnodup.2, entryWorth,
        Pi.single_apply, InsertionMap.lookup]
      by_cases hkey : e.1 = key
      · -- the key does not come again
        have hnone : InsertionMap.lookup key l = none := by
          rw [← Option.not_isSome_iff_eq_none, InsertionMap.lookup_isSome, ← hkey]
          exact hnodup.1
        rw [if_pos hkey.symm, if_pos hkey, hnone]
        exact add_zero _
      · rw [if_neg (Ne.symm hkey), if_neg hkey, zero_add]
  exact hentries m.entries m.keysNodup

theorem totals_addAll_entries (m m' : InsertionMap κ ν) :
    totals (addAll m m'.entries) = totals m + totals m' := by
  rw [totals_addAll, totals_entries]

omit [AddCommMonoid ν] in
theorem totals_ne_zero {m : InsertionMap κ ν} {key : κ} : totals m key ≠ 0 ↔ key ∈ m.keys := by
  rw [← InsertionMap.get?_isSome, totals]
  cases m.get? key with
  | none => simp [worthOf]
  | some n => simp [worthOf]

/-! ## In order of the keys -/

variable (le : κ → κ → Prop) [DecidableRel le]

/-- What a map holds, in order of its keys. -/
def sortedEntries (m : InsertionMap κ ν) : List (κ × ν) :=
  (m.keys.insertionSort le).map fun key => (key, (m.get? key).getD 0)

variable {le}

variable (le) in
theorem sortedEntries_perm (m : InsertionMap κ ν) : (sortedEntries le m).Perm m.entries := by
  refine ((List.perm_insertionSort le m.keys).map _).trans ?_
  have hsame : m.keys.map (fun key => (key, (m.get? key).getD 0)) = m.entries := by
    rw [InsertionMap.keys, List.map_map]
    conv_rhs => rw [← List.map_id m.entries]
    apply List.map_congr_left
    rintro ⟨key, n⟩ he
    show (key, (m.get? key).getD 0) = (key, n)
    rw [InsertionMap.get?_eq_some.mpr he]
    rfl
  rw [hsame]

/-- A map written from what it says is worth the same. -/
theorem totals_ofPairs_sortedEntries (m : InsertionMap κ ν) :
    totals (InsertionMap.ofPairs (sortedEntries le m)) = totals m := by
  have hperm := sortedEntries_perm le m
  have hnodup := (hperm.map Prod.fst).nodup_iff.mpr m.keysNodup
  funext key
  apply congrArg worthOf
  apply Option.ext
  intro n
  rw [InsertionMap.get?_eq_some, InsertionMap.get?_eq_some, InsertionMap.ofPairs_entries hnodup,
    hperm.mem_iff]

variable [Std.Total le] [IsTrans κ le] [Std.Antisymm le]

/-- Maps of one worth say the same in order of their keys. -/
theorem sortedEntries_congr {m m' : InsertionMap κ ν} (h : totals m = totals m') :
    sortedEntries le m = sortedEntries le m' := by
  have hget : ∀ key, m.get? key = m'.get? key := fun key => worthOf_injective (congrFun h key)
  have hkeys : m.keys.Perm m'.keys := by
    rw [List.perm_ext_iff_of_nodup m.keys_nodup m'.keys_nodup]
    intro key
    rw [← InsertionMap.get?_isSome, ← InsertionMap.get?_isSome, hget]
  have hsorted : m.keys.insertionSort le = m'.keys.insertionSort le := by
    apply List.Perm.eq_of_pairwise
    · exact fun a b _ _ hab hba => antisymm_of le hab hba
    · exact List.pairwise_insertionSort le m.keys
    · exact List.pairwise_insertionSort le m'.keys
    · exact (List.perm_insertionSort le m.keys).trans
        (hkeys.trans (List.perm_insertionSort le m'.keys).symm)
  unfold sortedEntries
  rw [hsorted]
  exact List.map_congr_left fun key _ => by rw [hget]

end O2Fabric.KeyedSum
