/-
  O2Fabric.Lib.InsertionMap

  A finite map that keeps the order in which its keys were first written, as
  an ECMAScript `Map` does: `set` on a present key replaces the value in place,
  `set` on a new key appends.  The key list carries its own distinctness, so
  no map with a repeated key can be built.
-/

import Mathlib.Data.List.Nodup

namespace O2Fabric

universe u v w

/-- Entries in insertion order, with pairwise distinct keys. -/
structure InsertionMap (κ : Type u) (ν : Type v) where
  entries : List (κ × ν)
  keysNodup : (entries.map Prod.fst).Nodup

namespace InsertionMap

variable {κ : Type u} {ν : Type v}

variable {m : InsertionMap κ ν}

@[ext] theorem ext {m' : InsertionMap κ ν} (h : m.entries = m'.entries) : m = m' := by
  cases m
  cases m'
  cases h
  rfl

/-- `new Map()`. -/
def empty : InsertionMap κ ν := ⟨[], List.nodup_nil⟩

/-- `map.keys()`, in insertion order. -/
def keys (m : InsertionMap κ ν) : List κ := m.entries.map Prod.fst

/-- `map.values()`, in insertion order. -/
def values (m : InsertionMap κ ν) : List ν := m.entries.map Prod.snd

/-- `map.size`. -/
def size (m : InsertionMap κ ν) : Nat := m.entries.length

@[simp] theorem entries_empty : (empty : InsertionMap κ ν).entries = [] := rfl

@[simp] theorem keys_empty : (empty : InsertionMap κ ν).keys = [] := rfl

theorem keys_nodup (m : InsertionMap κ ν) : m.keys.Nodup := m.keysNodup

theorem size_eq_length_keys (m : InsertionMap κ ν) : m.size = m.keys.length := by
  simp [size, keys]

variable [DecidableEq κ]

/-! ## Lookup -/

def lookup (key : κ) : List (κ × ν) → Option ν
  | [] => none
  | (k, v) :: rest => if k = key then some v else lookup key rest

/-- `map.get(key)`. -/
def get? (m : InsertionMap κ ν) (key : κ) : Option ν := lookup key m.entries

/-- `map.has(key)`. -/
def has (m : InsertionMap κ ν) (key : κ) : Bool := (m.get? key).isSome

variable {key : κ} {entries : List (κ × ν)}

theorem lookup_isSome :
    (lookup key entries).isSome ↔ key ∈ entries.map Prod.fst := by
  induction entries with
  | nil => simp [lookup]
  | cons e rest ih =>
    by_cases h : e.1 = key
    · simp [lookup, h]
    · simp only [lookup, if_neg h, ih, List.map_cons, List.mem_cons]
      exact ⟨Or.inr, fun h' => h'.resolve_left (fun he => h he.symm)⟩

theorem get?_isSome :
    (m.get? key).isSome ↔ key ∈ m.keys :=
  lookup_isSome

theorem get?_eq_none :
    m.get? key = none ↔ key ∉ m.keys := by
  rw [← get?_isSome]
  cases m.get? key <;> simp

variable {val : ν}

theorem lookup_of_mem (hn : (entries.map Prod.fst).Nodup) (h : (key, val) ∈ entries) :
    lookup key entries = some val := by
  induction entries with
  | nil => cases h
  | cons e rest ih =>
    rw [List.map_cons, List.nodup_cons] at hn
    rcases List.mem_cons.mp h with rfl | h
    · simp [lookup]
    · have hne : e.1 ≠ key := fun he =>
        hn.1 (he ▸ List.mem_map_of_mem (f := Prod.fst) h)
      rw [lookup, if_neg hne]
      exact ih hn.2 h

theorem mem_of_lookup (h : lookup key entries = some val) : (key, val) ∈ entries := by
  induction entries with
  | nil => cases h
  | cons e rest ih =>
    by_cases he : e.1 = key
    · rw [lookup, if_pos he] at h
      cases h
      cases he
      exact List.mem_cons_self
    · rw [lookup, if_neg he] at h
      exact List.mem_cons_of_mem _ (ih h)

theorem get?_eq_some :
    m.get? key = some val ↔ (key, val) ∈ m.entries :=
  ⟨mem_of_lookup, lookup_of_mem m.keysNodup⟩

/-- Maps that answer alike hold the same entries, in some order. -/
theorem entries_perm {m' : InsertionMap κ ν} (h : ∀ key, m.get? key = m'.get? key) :
    m.entries.Perm m'.entries := by
  have hnodup : ∀ m : InsertionMap κ ν, m.entries.Nodup := fun m => m.keysNodup.of_map _
  rw [List.perm_ext_iff_of_nodup (hnodup m) (hnodup m')]
  rintro ⟨key, val⟩
  rw [← get?_eq_some, ← get?_eq_some, h]

/-! ## Writing one key -/

/-- Replace the value at a present key, or append the pair. -/
def write (key : κ) (val : ν) : List (κ × ν) → List (κ × ν)
  | [] => [(key, val)]
  | (k, v) :: rest => if k = key then (k, val) :: rest else (k, v) :: write key val rest

theorem write_keys (key : κ) (val : ν) (entries : List (κ × ν)) :
    (write key val entries).map Prod.fst
      = if key ∈ entries.map Prod.fst then entries.map Prod.fst
        else entries.map Prod.fst ++ [key] := by
  induction entries with
  | nil => simp [write]
  | cons e rest ih =>
    by_cases h : e.1 = key
    · simp [write, h]
    · have hne : ¬ key = e.1 := fun he => h he.symm
      simp only [write, if_neg h, List.map_cons, List.mem_cons, hne, false_or, ih]
      split <;> rfl

theorem write_nodup (h : (entries.map Prod.fst).Nodup) :
    ((write key val entries).map Prod.fst).Nodup := by
  rw [write_keys]
  split
  · exact h
  · next hmem => exact List.nodup_append.mpr ⟨h, List.nodup_singleton _, by
      intro a ha b hb hab
      rw [List.mem_singleton] at hb
      exact hmem (hb ▸ hab ▸ ha)⟩

theorem lookup_write (key key' : κ) (val : ν) (entries : List (κ × ν)) :
    lookup key' (write key val entries)
      = if key' = key then some val else lookup key' entries := by
  induction entries with
  | nil =>
    by_cases h : key' = key
    · simp [write, lookup, h]
    · simp [write, lookup, h, Ne.symm h]
  | cons e rest ih =>
    by_cases he : e.1 = key
    · by_cases h : key' = key
      · simp [write, lookup, he, h]
      · simp [write, lookup, he, h, Ne.symm h]
    · rw [write, if_neg he, lookup, lookup, ih]
      by_cases h' : e.1 = key'
      · have hne : ¬ key' = key := fun hk => he (h'.trans hk)
        simp [h', hne]
      · simp [h']

/-- `map.set(key, val)`. -/
def set (m : InsertionMap κ ν) (key : κ) (val : ν) : InsertionMap κ ν :=
  ⟨write key val m.entries, write_nodup m.keysNodup⟩

@[simp] theorem get?_set_self (m : InsertionMap κ ν) (key : κ) (val : ν) :
    (m.set key val).get? key = some val := by
  simp [set, get?, lookup_write]

theorem get?_set (m : InsertionMap κ ν) (key key' : κ) (val : ν) :
    (m.set key val).get? key' = if key' = key then some val else m.get? key' :=
  lookup_write key key' val m.entries

theorem keys_set (m : InsertionMap κ ν) (key : κ) (val : ν) :
    (m.set key val).keys = if key ∈ m.keys then m.keys else m.keys ++ [key] :=
  write_keys key val m.entries

theorem mem_keys_set {key' : κ} :
    key' ∈ (m.set key val).keys ↔ key' ∈ m.keys ∨ key' = key := by
  rw [keys_set]
  split
  · next h => exact ⟨Or.inl, fun h' => h'.elim id (fun he => he ▸ h)⟩
  · simp

theorem write_of_notMem (h : key ∉ entries.map Prod.fst) :
    write key val entries = entries ++ [(key, val)] := by
  induction entries with
  | nil => rfl
  | cons e rest ih =>
    simp only [List.map_cons, List.mem_cons, not_or] at h
    rw [write, if_neg (fun he => h.1 he.symm), ih h.2, List.cons_append]

/-- A fresh key goes to the end. -/
theorem entries_set_of_notMem (h : key ∉ m.keys) :
    (m.set key val).entries = m.entries ++ [(key, val)] :=
  write_of_notMem h

/-! ## Deleting a key -/

/-- `map.delete(key)`. -/
def delete (m : InsertionMap κ ν) (key : κ) : InsertionMap κ ν :=
  ⟨m.entries.filter fun e => decide (e.1 ≠ key),
    m.keysNodup.sublist (List.filter_sublist.map _)⟩

theorem get?_delete (m : InsertionMap κ ν) (key key' : κ) :
    (m.delete key).get? key' = if key' = key then none else m.get? key' := by
  show lookup key' (m.entries.filter _) = if key' = key then none else lookup key' m.entries
  induction m.entries with
  | nil => simp [lookup]
  | cons e rest ih =>
    by_cases he : e.1 = key
    · rw [List.filter_cons_of_neg (by simpa using he), ih, lookup]
      by_cases h : key' = key
      · rw [if_pos h, if_pos h]
      · rw [if_neg h, if_neg h, if_neg fun hk => h (hk.symm.trans he)]
    · rw [List.filter_cons_of_pos (by simpa using he), lookup, lookup, ih]
      by_cases h : key' = key
      · rw [if_neg fun hk => he (hk.trans h), if_pos h, if_pos h]
      · rw [if_neg h, if_neg h]

variable {e : κ × ν}

theorem mem_entries_delete :
    e ∈ (m.delete key).entries ↔ e ∈ m.entries ∧ e.1 ≠ key := by
  show e ∈ m.entries.filter _ ↔ _
  rw [List.mem_filter, decide_eq_true_eq]

theorem keys_delete (m : InsertionMap κ ν) (key : κ) : (m.delete key).keys = m.keys.erase key := by
  rw [m.keys_nodup.erase_eq_filter]
  show (m.entries.filter fun e => decide (e.1 ≠ key)).map Prod.fst
    = (m.entries.map Prod.fst).filter (· != key)
  rw [List.filter_map]
  congr 1
  apply List.filter_congr
  intro e _
  rw [Function.comp_apply, bne, beq_eq_decide, decide_not]

/-- Where an entry lies: no other entry has its key. -/
theorem entries_split (h : m.get? key = some val) :
    ∃ before after, m.entries = before ++ (key, val) :: after ∧
      (∀ e ∈ before ++ after, e.1 ≠ key) := by
  obtain ⟨before, after, hentries⟩ := List.append_of_mem (get?_eq_some.mp h)
  refine ⟨before, after, hentries, ?_⟩
  have hnodup := m.keysNodup
  rw [hentries, List.map_append, List.map_cons, List.nodup_middle] at hnodup
  intro e he hkey
  apply (List.nodup_cons.mp hnodup).1
  rw [← List.map_append]
  exact List.mem_map.mpr ⟨e, he, hkey⟩

/-- A deleted entry, and what is left. -/
theorem perm_delete (h : m.get? key = some val) :
    m.entries.Perm ((key, val) :: (m.delete key).entries) := by
  obtain ⟨before, after, hentries, hothers⟩ := entries_split h
  have hleft : (m.delete key).entries = before ++ after := by
    show m.entries.filter _ = _
    rw [hentries, List.filter_append, List.filter_cons_of_neg (by simp), ← List.filter_append]
    apply List.filter_eq_self.mpr
    intro e he
    exact decide_eq_true (hothers e he)
  rw [hleft, hentries]
  exact List.perm_middle

/-- With no value twice, the entries with a given value are the one. -/
theorem filter_value [DecidableEq ν] (hnodup : m.values.Nodup) (h : m.get? key = some val) :
    (m.entries.filter fun e => decide (e.2 = val)) = [(key, val)] := by
  obtain ⟨before, after, hentries, -⟩ := entries_split h
  have hothers : ∀ e ∈ before ++ after, e.2 ≠ val := by
    unfold values at hnodup
    rw [hentries, List.map_append, List.map_cons, List.nodup_middle] at hnodup
    intro e he hval
    apply (List.nodup_cons.mp hnodup).1
    rw [← List.map_append]
    exact List.mem_map.mpr ⟨e, he, hval⟩
  have hnone : ((before ++ after).filter fun e => decide (e.2 = val)) = [] := by
    apply List.filter_eq_nil_iff.mpr
    intro e he
    simpa using hothers e he
  rw [hentries, List.filter_append, List.filter_cons_of_pos (by simp)]
  rw [List.filter_append, List.append_eq_nil_iff] at hnone
  rw [hnone.1, hnone.2]
  rfl

theorem entries_foldl_delete (gone : List (κ × ν)) (m : InsertionMap κ ν) :
    (gone.foldl (fun m e => m.delete e.1) m).entries
      = m.entries.filter fun e => decide (e.1 ∉ gone.map Prod.fst) := by
  induction gone generalizing m with
  | nil => simp
  | cons g rest ih =>
    rw [List.foldl_cons, ih, delete, List.filter_filter]
    apply List.filter_congr
    intro e _
    rw [List.map_cons, Bool.eq_iff_iff, Bool.and_eq_true, decide_eq_true_eq, decide_eq_true_eq,
      decide_eq_true_eq, List.mem_cons, not_or, and_comm]

/-- Deleting, one after another, the keys whose entries meet a condition. -/
theorem entries_delete_where (m : InsertionMap κ ν) (cond : κ × ν → Bool) :
    ((m.entries.filter cond).foldl (fun m e => m.delete e.1) m).entries
      = m.entries.filter fun e => !cond e := by
  rw [entries_foldl_delete]
  apply List.filter_congr
  intro e he
  rw [Bool.eq_iff_iff, decide_eq_true_eq, Bool.not_eq_true', Bool.eq_false_iff]
  apply not_congr
  constructor
  · rw [List.mem_map]
    rintro ⟨e', he', hkey⟩
    rw [List.mem_filter] at he'
    -- one entry a key
    have hsame : e' = e := by
      have hval := (get?_eq_some.mpr he'.1).symm.trans ((congrArg m.get? hkey).trans
        (get?_eq_some.mpr he))
      exact Prod.ext hkey (Option.some.inj hval)
    exact hsame ▸ he'.2
  · intro hcond
    exact List.mem_map_of_mem (List.mem_filter.mpr ⟨he, hcond⟩)

/-! ## Building a map from pairs -/

/-- `new Map(pairs)`: each pair is written in turn. -/
def ofPairs (pairs : List (κ × ν)) : InsertionMap κ ν :=
  pairs.foldl (fun m p => m.set p.1 p.2) empty

theorem mem_of_mem_write (h : e ∈ write key val entries) : e = (key, val) ∨ e ∈ entries := by
  induction entries with
  | nil => exact Or.inl (List.mem_singleton.mp h)
  | cons e' rest ih =>
    by_cases he : e'.1 = key
    · rw [write, if_pos he, List.mem_cons] at h
      exact h.imp (fun h => by rw [h, he]) (List.mem_cons_of_mem _)
    · rw [write, if_neg he, List.mem_cons] at h
      rcases h with rfl | h
      · exact Or.inr List.mem_cons_self
      · exact (ih h).imp_right (List.mem_cons_of_mem _)

theorem foldl_set_spec (pairs : List (κ × ν)) (m : InsertionMap κ ν) :
    (∀ key, key ∈ (pairs.foldl (fun m p => m.set p.1 p.2) m).keys
      ↔ key ∈ m.keys ∨ key ∈ pairs.map Prod.fst) ∧
    ∀ e ∈ (pairs.foldl (fun m p => m.set p.1 p.2) m).entries, e ∈ m.entries ∨ e ∈ pairs := by
  induction pairs generalizing m with
  | nil => simp
  | cons p rest ih =>
    obtain ⟨hkeys, hentries⟩ := ih (m.set p.1 p.2)
    refine ⟨fun key => ?_, fun e he => ?_⟩
    · rw [List.foldl_cons, hkeys, mem_keys_set, List.map_cons, List.mem_cons, or_assoc]
    · rcases hentries e he with h | h
      · rcases mem_of_mem_write h with rfl | h
        · exact Or.inr List.mem_cons_self
        · exact Or.inl h
      · exact Or.inr (List.mem_cons_of_mem _ h)

variable {pairs : List (κ × ν)}

theorem mem_keys_ofPairs :
    key ∈ (ofPairs pairs).keys ↔ key ∈ pairs.map Prod.fst := by
  rw [ofPairs, (foldl_set_spec pairs empty).1 key]
  simp only [keys_empty, List.not_mem_nil, false_or]

theorem mem_of_mem_entries_ofPairs (h : e ∈ (ofPairs pairs).entries) : e ∈ pairs := by
  have := (foldl_set_spec pairs empty).2 e h
  simpa only [entries_empty, List.not_mem_nil, false_or] using this

/-- Writing pairs of fresh, distinct keys appends them. -/
theorem foldl_set_entries (pairs : List (κ × ν)) (m : InsertionMap κ ν)
    (h : (m.keys ++ pairs.map Prod.fst).Nodup) :
    (pairs.foldl (fun m p => m.set p.1 p.2) m).entries = m.entries ++ pairs := by
  induction pairs generalizing m with
  | nil => simp
  | cons p rest ih =>
    have hfresh : p.1 ∉ m.keys := fun hm =>
      (List.nodup_append.mp h).2.2 _ hm _ (by simp) rfl
    rw [List.foldl_cons, ih]
    · rw [entries_set_of_notMem hfresh, List.append_assoc]
      rfl
    · rw [keys_set, if_neg hfresh, List.append_assoc]
      exact h

theorem ofPairs_entries (h : (pairs.map Prod.fst).Nodup) :
    (ofPairs pairs).entries = pairs := by
  rw [ofPairs, foldl_set_entries pairs empty (by simpa using h)]
  rfl

theorem mem_values_iff :
    val ∈ m.values ↔ ∃ key, m.get? key = some val := by
  rw [values, List.mem_map]
  constructor
  · rintro ⟨⟨key, k⟩, hentry, rfl⟩
    exact ⟨key, get?_eq_some.mpr hentry⟩
  · rintro ⟨key, hget⟩
    exact ⟨(key, val), get?_eq_some.mp hget, rfl⟩

end InsertionMap

/-- A place in a list with one more at the end. -/
theorem getElem?_concat_cases {α : Type u} {xs : List α} {x y : α} {k : Nat}
    (h : (xs ++ [x])[k]? = some y) : xs[k]? = some y ∨ (k = xs.length ∧ y = x) := by
  rcases Nat.lt_trichotomy k xs.length with hlt | heq | hgt
  · rw [List.getElem?_append_left hlt] at h
    exact Or.inl h
  · rw [heq, List.getElem?_concat_length] at h
    exact Or.inr ⟨heq, (Option.some.inj h).symm⟩
  · have := (List.getElem?_eq_some_iff.mp h).1
    rw [List.length_append, List.length_singleton] at this
    omega

/-! ## Reading several keys at once -/

theorem mapM_eq_some_iff {α : Type u} {β : Type v} {f : α → Option β} {xs : List α}
    {ys : List β} : xs.mapM f = some ys ↔ List.Forall₂ (fun x y => f x = some y) xs ys := by
  induction xs generalizing ys with
  | nil =>
    rw [List.forall₂_nil_left_iff]
    exact ⟨fun h => (Option.some.inj h).symm, fun h => by rw [h]; rfl⟩
  | cons x xs ih =>
    simp only [List.mapM_cons, Option.bind_eq_bind, Option.bind_eq_some_iff, Option.pure_def,
      Option.some.injEq, List.forall₂_cons_left_iff]
    constructor
    · rintro ⟨y, hy, rest, hrest, rfl⟩
      exact ⟨y, rest, hy, ih.mp hrest, rfl⟩
    · rintro ⟨y, rest, hy, hrest, rfl⟩
      exact ⟨y, hy, rest, ih.mpr hrest, rfl⟩

theorem exists_of_mem_of_forall₂ {α : Type u} {β : Type v} {R : α → β → Prop} {xs : List α}
    {ys : List β} (h : List.Forall₂ R xs ys) {x : α} (hx : x ∈ xs) : ∃ y ∈ ys, R x y := by
  induction h with
  | nil => cases hx
  | @cons x' y' xs ys hxy _ ih =>
    rcases List.mem_cons.mp hx with rfl | hx
    · exact ⟨y', List.mem_cons_self, hxy⟩
    · obtain ⟨y, hy, hr⟩ := ih hx
      exact ⟨y, List.mem_cons_of_mem _ hy, hr⟩

/-! ## Distinct elements -/

section

variable {α : Type u} [DecidableEq α]

/-- `[...new Set(l)]`: the distinct elements in first-seen order. -/
def distinct : List α → List α
  | [] => []
  | x :: rest => x :: (distinct rest).filter fun y => decide (y ≠ x)

variable {l : List α}

theorem mem_distinct {x : α} : x ∈ distinct l ↔ x ∈ l := by
  induction l with
  | nil => simp [distinct]
  | cons y rest ih =>
    rw [distinct, List.mem_cons, List.mem_cons, List.mem_filter, ih, decide_eq_true_eq]
    by_cases h : x = y
    · simp [h]
    · simp [h]

theorem distinct_nodup (l : List α) : (distinct l).Nodup := by
  induction l with
  | nil => exact List.nodup_nil
  | cons y rest ih =>
    rw [distinct, List.nodup_cons]
    refine ⟨?_, ih.filter _⟩
    intro h
    simpa using (List.mem_filter.mp h).2

theorem distinct_of_nodup (h : l.Nodup) : distinct l = l := by
  induction l with
  | nil => rfl
  | cons y rest ih =>
    rw [List.nodup_cons] at h
    rw [distinct, ih h.2, List.filter_eq_self.mpr]
    intro x hx
    have hne : x ≠ y := by
      rintro rfl
      exact h.1 hx
    simpa using hne

omit [DecidableEq α] in
theorem eq_of_mem_of_length_le_one {l : List α} (h : l.length ≤ 1) {x y : α} (hx : x ∈ l)
    (hy : y ∈ l) : x = y := by
  match l, h with
  | [z], _ => rw [List.mem_singleton.mp hx, List.mem_singleton.mp hy]

/-- All elements equal leaves at most one. -/
theorem length_distinct_le_one (h : ∀ x ∈ l, ∀ y ∈ l, x = y) :
    (distinct l).length ≤ 1 := by
  cases l with
  | nil => simp [distinct]
  | cons y rest =>
    have hnone : (distinct rest).filter (fun z => decide (z ≠ y)) = [] := by
      rw [List.filter_eq_nil_iff]
      intro z hz
      have := h z (List.mem_cons_of_mem _ (mem_distinct.mp hz)) y List.mem_cons_self
      simpa using this
    rw [distinct, hnone]
    simp

end

end O2Fabric
