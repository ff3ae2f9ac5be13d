/-
  O2Fabric.Lib.Grouping

  Grouping values under keys in first-seen order: `pushAll` appends to the
  values already held under a key, `groupInto` does so for a whole list.

  A grouped map is determined by its keys and by the values under each
  (`ext_of_keys`), and both have a closed form (`keys_groupInto`,
  `valuesAt_groupInto`).  So grouping what was grouped before is grouping it
  all at once (`groupInto_entries`).
-/

import O2Fabric.Lib.InsertionMap

namespace O2Fabric.Grouping

universe u v

variable {κ : Type u} {ν : Type v} [DecidableEq κ]

/-- Append `vals` to what is held under `key`. -/
def pushAll (m : InsertionMap κ (List ν)) (e : κ × List ν) : InsertionMap κ (List ν) :=
  m.set e.1 ((m.get? e.1).getD [] ++ e.2)

/-- Append each entry in turn. -/
def groupInto (m : InsertionMap κ (List ν)) (l : List (κ × List ν)) : InsertionMap κ (List ν) :=
  l.foldl pushAll m

/-- What is held under `key`, nothing if it is absent. -/
def valuesAt (m : InsertionMap κ (List ν)) (key : κ) : List ν := (m.get? key).getD []

/-- The same keys in the same order, with the same values. -/
theorem ext_of_keys {m m' : InsertionMap κ (List ν)} (hkeys : m.keys = m'.keys)
    (hvalues : ∀ key, valuesAt m key = valuesAt m' key) : m = m' := by
  have hform : ∀ m : InsertionMap κ (List ν),
      m.entries = m.keys.map fun key => (key, valuesAt m key) := by
    intro m
    rw [InsertionMap.keys, List.map_map]
    conv_lhs => rw [← List.map_id m.entries]
    apply List.map_congr_left
    rintro ⟨key, vals⟩ he
    have hget : m.get? key = some vals := InsertionMap.get?_eq_some.mpr he
    show (key, vals) = (key, (m.get? key).getD [])
    rw [hget]
    rfl
  apply InsertionMap.ext
  rw [hform m, hform m', hkeys]
  exact List.map_congr_left fun key _ => by rw [hvalues key]

theorem valuesAt_pushAll (m : InsertionMap κ (List ν)) (e : κ × List ν) (key : κ) :
    valuesAt (pushAll m e) key = valuesAt m key ++ if e.1 = key then e.2 else [] := by
  rw [valuesAt, valuesAt, pushAll, InsertionMap.get?_set]
  by_cases h : key = e.1
  · simp [h]
  · simp [h, Ne.symm h]

/-- Under each key: what was there, then what the list holds for it, in order. -/
theorem valuesAt_groupInto (m : InsertionMap κ (List ν)) (l : List (κ × List ν)) (key : κ) :
    valuesAt (groupInto m l) key
      = valuesAt m key ++ (l.filter fun e => decide (e.1 = key)).flatMap Prod.snd := by
  induction l generalizing m with
  | nil => simp [groupInto]
  | cons e l ih =>
    show valuesAt (groupInto (pushAll m e) l) key = _
    rw [ih, valuesAt_pushAll, List.append_assoc]
    by_cases h : e.1 = key
    · simp [h]
    · simp [h]

/-- The keys that were there, then the new ones in first-seen order. -/
theorem keys_groupInto (m : InsertionMap κ (List ν)) (l : List (κ × List ν)) :
    (groupInto m l).keys
      = m.keys ++ (distinct (l.map Prod.fst)).filter fun key => decide (key ∉ m.keys) := by
  induction l generalizing m with
  | nil => simp [groupInto, distinct]
  | cons e l ih =>
    show (groupInto (pushAll m e) l).keys = _
    rw [ih, pushAll, InsertionMap.keys_set, List.map_cons, distinct]
    by_cases h : e.1 ∈ m.keys
    · -- The key is not new, so filtering it out once more changes nothing.
      rw [if_pos h, List.filter_cons_of_neg (by simpa using h), List.filter_filter]
      congr 1
      apply List.filter_congr
      intro key _
      by_cases hkey : key = e.1
      · simp [hkey, h]
      · simp [hkey]
    · rw [if_neg h, List.filter_cons_of_pos (by simpa using h), List.filter_filter,
        List.append_assoc, List.singleton_append]
      congr 2
      apply List.filter_congr
      intro key _
      simp [not_or]

theorem mem_keys_groupInto {m : InsertionMap κ (List ν)} {l : List (κ × List ν)} {key : κ} :
    key ∈ (groupInto m l).keys ↔ key ∈ m.keys ∨ key ∈ l.map Prod.fst := by
  rw [keys_groupInto, List.mem_append, List.mem_filter, mem_distinct, decide_eq_true_eq]
  constructor
  · rintro (hold | ⟨hnew, -⟩)
    · exact Or.inl hold
    · exact Or.inr hnew
  · intro h
    by_cases hold : key ∈ m.keys
    · exact Or.inl hold
    · exact Or.inr ⟨h.resolve_left hold, hold⟩

theorem flatMap_filter_lookup {entries : List (κ × List ν)}
    (hn : (entries.map Prod.fst).Nodup) (key : κ) :
    (entries.filter fun e => decide (e.1 = key)).flatMap Prod.snd
      = (InsertionMap.lookup key entries).getD [] := by
  induction entries with
  | nil => rfl
  | cons e rest ih =>
    rw [List.map_cons, List.nodup_cons] at hn
    by_cases h : e.1 = key
    · have hnone : rest.filter (fun e => decide (e.1 = key)) = [] := by
        rw [List.filter_eq_nil_iff]
        intro e' he' heq
        exact hn.1 (h ▸ of_decide_eq_true heq ▸ List.mem_map_of_mem he')
      rw [List.filter_cons_of_pos (by simpa using h), hnone]
      simp [InsertionMap.lookup, h]
    · rw [List.filter_cons_of_neg (by simpa using h), ih hn.2]
      simp [InsertionMap.lookup, h]

/-- Grouping a list into a map, or grouping it apart and then the groups, is
    the same. -/
theorem groupInto_entries (m : InsertionMap κ (List ν)) (l : List (κ × List ν)) :
    groupInto m (groupInto .empty l).entries = groupInto m l := by
  have hkeys : (groupInto .empty l).keys = distinct (l.map Prod.fst) := by
    rw [keys_groupInto]
    simp
  apply ext_of_keys
  · show (groupInto m (groupInto .empty l).entries).keys = _
    rw [keys_groupInto, keys_groupInto]
    show m.keys ++ (distinct (groupInto .empty l).keys).filter _ = _
    rw [hkeys, distinct_of_nodup (distinct_nodup _)]
  · intro key
    rw [valuesAt_groupInto, valuesAt_groupInto,
      flatMap_filter_lookup (groupInto .empty l).keysNodup]
    show _ ++ valuesAt (groupInto .empty l) key = _
    rw [valuesAt_groupInto]
    rfl

theorem flatMap_write_perm (key : κ) (vals : List ν) (entries : List (κ × List ν)) :
    ((InsertionMap.write key ((InsertionMap.lookup key entries).getD [] ++ vals) entries).flatMap
      Prod.snd).Perm (entries.flatMap Prod.snd ++ vals) := by
  induction entries with
  | nil => simp [InsertionMap.write, InsertionMap.lookup]
  | cons e rest ih =>
    by_cases h : e.1 = key
    · rw [InsertionMap.write, InsertionMap.lookup, if_pos h, if_pos h]
      simp only [Option.getD_some, List.flatMap_cons, List.append_assoc]
      exact List.perm_append_comm.append_left _
    · rw [InsertionMap.write, InsertionMap.lookup, if_neg h, if_neg h, List.flatMap_cons,
        List.flatMap_cons, List.append_assoc]
      exact ih.append_left _

/-- Grouping moves the values together and keeps each. -/
theorem flatMap_groupInto_perm (m : InsertionMap κ (List ν)) (l : List (κ × List ν)) :
    ((groupInto m l).entries.flatMap Prod.snd).Perm
      (m.entries.flatMap Prod.snd ++ l.flatMap Prod.snd) := by
  induction l generalizing m with
  | nil =>
    rw [List.flatMap_nil, List.append_nil]
    exact .refl _
  | cons e l ih =>
    refine (ih (pushAll m e)).trans ?_
    rw [List.flatMap_cons, ← List.append_assoc]
    exact (flatMap_write_perm e.1 e.2 m.entries).append_right _

/-- Grouping values by a key of their own keeps each key's values in order. -/
theorem mem_entries_groupInto {l : List ν} {f : ν → κ} {e : κ × List ν}
    (he : e ∈ (groupInto .empty (l.map fun x => (f x, [x]))).entries) :
    e.1 ∈ l.map f ∧ e.2 = l.filter fun x => decide (f x = e.1) := by
  constructor
  · have hkey := mem_keys_groupInto.mp (List.mem_map_of_mem (f := Prod.fst) he)
    rw [List.map_map] at hkey
    exact hkey.resolve_left (List.not_mem_nil (a := e.1))
  · have hget := InsertionMap.get?_eq_some.mpr he
    have hvalues := valuesAt_groupInto .empty (l.map fun x => (f x, [x])) e.1
    rw [valuesAt, hget, List.filter_map, List.flatMap_map, List.flatMap_singleton'] at hvalues
    exact hvalues

end O2Fabric.Grouping
