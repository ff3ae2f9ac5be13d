/-
  O2Fabric.Lib.Holds

  Values kept under keys for as long as somebody holds them.  Taking a hold
  writes the value under its key and counts one more; giving it back counts one
  less, and the last one removes the key.

  `Balanced` ties the counts to the holds that were handed out.  `Faithful` says
  that what is kept under a key is what every open hold on it was taken with: a
  take that writes another value over a held one is the only thing that breaks it.
-/

import O2Fabric.Lib.InsertionMap

namespace O2Fabric

universe u v

/-- A value with the number of holds on it. -/
structure Kept (ν : Type v) where
  payload : ν
  holds : Nat
  deriving DecidableEq

/-- A hold as it was handed out: on which key, taken with which value, and
    whether it was given back. -/
structure Hold (κ : Type u) (ν : Type v) where
  key : κ
  payload : ν
  given : Bool
  deriving DecidableEq

namespace Holds

variable {κ : Type u} {ν : Type v} [DecidableEq κ]

def take (m : InsertionMap κ (Kept ν)) (key : κ) (payload : ν) : InsertionMap κ (Kept ν) :=
  m.set key ⟨payload, match m.get? key with
    | none => 1
    | some kept => kept.holds + 1⟩

def giveBack (m : InsertionMap κ (Kept ν)) (key : κ) : InsertionMap κ (Kept ν) :=
  match m.get? key with
  | none => m
  | some kept =>
    if kept.holds ≤ 1 then m.delete key else m.set key ⟨kept.payload, kept.holds - 1⟩

def taken (key : κ) (holds : List (Hold κ ν)) : Nat :=
  holds.countP fun h => !h.given && decide (h.key = key)

/-- The holds after the one at `i` is given back. -/
def settle (holds : List (Hold κ ν)) (i : Nat) (h : Hold κ ν) : List (Hold κ ν) :=
  holds.set i { h with given := true }

/-! ## Counting the open holds -/

variable {m : InsertionMap κ (Kept ν)} {holds : List (Hold κ ν)} {h : Hold κ ν} {i : Nat}

theorem taken_append (key key' : κ) (payload : ν) :
    taken key (holds ++ [⟨key', payload, false⟩])
      = taken key holds + if key' = key then 1 else 0 := by
  unfold taken
  rw [List.countP_append, List.countP_singleton]
  simp

theorem taken_settle (hat : holds[i]? = some h) (hopen : h.given = false) (key : κ) :
    taken key (settle holds i h) + (if h.key = key then 1 else 0) = taken key holds := by
  obtain ⟨hi, rfl⟩ := List.getElem?_eq_some_iff.mp hat
  unfold taken settle
  rw [List.countP_set hi]
  by_cases hkey : holds[i].key = key
  · -- the hold itself is one of those counted
    have hpos : 0 < holds.countP fun h => !h.given && decide (h.key = key) := by
      apply List.countP_pos_iff.mpr
      exact ⟨holds[i], List.getElem_mem hi, by simp [hopen, hkey]⟩
    simp only [hopen, hkey, decide_true, Bool.not_false, Bool.and_self, Bool.not_true,
      Bool.false_and, if_true, Bool.false_eq_true, if_false]
    omega
  · simp [hopen, hkey]

variable {key : κ}

theorem taken_pos : 0 < taken key holds ↔
    ∃ h ∈ holds, h.given = false ∧ h.key = key := by
  unfold taken
  rw [List.countP_pos_iff]
  simp

/-! ## The counts are the open holds -/

structure Balanced (m : InsertionMap κ (Kept ν)) (holds : List (Hold κ ν)) : Prop where
  held : ∀ key kept, m.get? key = some kept → kept.holds = taken key holds ∧ 0 < kept.holds
  free : ∀ key, m.get? key = none → taken key holds = 0

theorem Balanced.empty : Balanced (.empty : InsertionMap κ (Kept ν)) [] := by
  refine ⟨?_, fun _ _ => rfl⟩
  rintro key kept ⟨⟩

theorem Balanced.take (hb : Balanced m holds) (key : κ) (payload : ν) :
    Balanced (take m key payload) (holds ++ [⟨key, payload, false⟩]) := by
  unfold Holds.take
  constructor
  · intro key' kept hget
    rw [InsertionMap.get?_set] at hget
    rw [taken_append]
    by_cases hkey : key' = key
    · rw [if_pos hkey] at hget
      cases hget
      subst hkey
      rw [if_pos rfl]
      cases hbefore : m.get? key' with
      | none => exact ⟨by rw [hb.free key' hbefore], Nat.one_pos⟩
      | some kept =>
        obtain ⟨hcount, -⟩ := hb.held key' kept hbefore
        exact ⟨congrArg (· + 1) hcount, Nat.succ_pos _⟩
    · rw [if_neg hkey] at hget
      rw [if_neg (Ne.symm hkey)]
      exact hb.held key' kept hget
  · intro key' hget
    rw [InsertionMap.get?_set] at hget
    by_cases hkey : key' = key
    · rw [if_pos hkey] at hget
      cases hget
    · rw [if_neg hkey] at hget
      rw [taken_append, if_neg (Ne.symm hkey)]
      exact hb.free key' hget

/-- What giving back leaves under each key. -/
theorem get?_giveBack (key key' : κ) :
    (giveBack m key).get? key' =
      if key' = key then
        (m.get? key).bind fun kept =>
          if kept.holds ≤ 1 then none else some ⟨kept.payload, kept.holds - 1⟩
      else m.get? key' := by
  unfold giveBack
  cases hget : m.get? key with
  | none =>
    by_cases hkey : key' = key
    · rw [if_pos hkey, hkey, hget]
      rfl
    · rw [if_neg hkey]
  | some kept =>
    show (if kept.holds ≤ 1 then m.delete key
      else m.set key ⟨kept.payload, kept.holds - 1⟩).get? key' = _
    by_cases hlast : kept.holds ≤ 1
    · rw [if_pos hlast, InsertionMap.get?_delete, Option.bind_some, if_pos hlast]
    · rw [if_neg hlast, InsertionMap.get?_set, Option.bind_some, if_neg hlast]

theorem Balanced.giveBack (hb : Balanced m holds) (hat : holds[i]? = some h)
    (hopen : h.given = false) : Balanced (giveBack m h.key) (settle holds i h) := by
  have hcounts := taken_settle hat hopen
  constructor
  · intro key kept hget
    have hcount := hcounts key
    rw [get?_giveBack] at hget
    by_cases hkey : key = h.key
    · rw [if_pos hkey, Option.bind_eq_some_iff] at hget
      obtain ⟨kept', hbefore, hless⟩ := hget
      obtain ⟨hkept, -⟩ := hb.held _ kept' hbefore
      rw [← hkey] at hkept
      rw [if_pos hkey.symm] at hcount
      split at hless
      · cases hless
      · cases hless
        refine ⟨?_, ?_⟩
        · show kept'.holds - 1 = _
          omega
        · show 0 < kept'.holds - 1
          omega
    · rw [if_neg hkey] at hget
      rw [if_neg (Ne.symm hkey)] at hcount
      obtain ⟨hkept, hpos⟩ := hb.held key kept hget
      exact ⟨by omega, hpos⟩
  · intro key hget
    have hcount := hcounts key
    rw [get?_giveBack] at hget
    by_cases hkey : key = h.key
    · rw [if_pos hkey] at hget
      rw [if_pos hkey.symm] at hcount
      -- the hold given back was the last one
      cases hbefore : m.get? h.key with
      | none =>
        have := hb.free _ hbefore
        rw [← hkey] at this
        omega
      | some kept =>
        rw [hbefore, Option.bind_some] at hget
        obtain ⟨hkept, -⟩ := hb.held _ kept hbefore
        rw [← hkey] at hkept
        split at hget
        · omega
        · cases hget
    · rw [if_neg hkey] at hget
      rw [if_neg (Ne.symm hkey)] at hcount
      have := hb.free key hget
      omega

/-! ## What is kept is what is held -/

def Faithful (m : InsertionMap κ (Kept ν)) (holds : List (Hold κ ν)) : Prop :=
  ∀ h ∈ holds, h.given = false → ∃ n, m.get? h.key = some ⟨h.payload, n⟩

theorem Faithful.empty : Faithful (.empty : InsertionMap κ (Kept ν)) [] :=
  List.forall_mem_nil _

theorem Faithful.take (hf : Faithful m holds) {payload : ν}
    (hsame : ∀ kept, m.get? key = some kept → kept.payload = payload) :
    Faithful (take m key payload) (holds ++ [⟨key, payload, false⟩]) := by
  intro h hh hopen
  unfold Holds.take
  rw [InsertionMap.get?_set]
  rcases List.mem_append.mp hh with hh | hh
  · obtain ⟨n, hget⟩ := hf h hh hopen
    by_cases hkey : h.key = key
    · have hpayload : h.payload = payload := hsame _ (hkey ▸ hget)
      rw [if_pos hkey, ← hpayload]
      exact ⟨_, rfl⟩
    · rw [if_neg hkey]
      exact ⟨n, hget⟩
  · rw [List.mem_singleton.mp hh, if_pos rfl]
    exact ⟨_, rfl⟩

theorem Faithful.giveBack (hf : Faithful m holds) (hb : Balanced m holds)
    (hat : holds[i]? = some h) (hopen : h.given = false) :
    Faithful (giveBack m h.key) (settle holds i h) := by
  intro h' hh' hopen'
  have hin : h' ∈ holds := by
    rcases List.mem_or_eq_of_mem_set hh' with hin | rfl
    · exact hin
    · cases hopen'
  obtain ⟨n, hget⟩ := hf h' hin hopen'
  rw [get?_giveBack]
  by_cases hkey : h'.key = h.key
  · -- another hold on the key is still open, so it was not the last
    have hcount := taken_settle hat hopen h.key
    have hpos := taken_pos.mpr ⟨h', hh', hopen', hkey⟩
    rw [hkey] at hget
    obtain ⟨hkept, -⟩ := hb.held _ _ hget
    rw [if_pos rfl] at hcount
    have hmany : ¬ n ≤ 1 := by
      have : n = taken h.key holds := hkept
      omega
    rw [if_pos hkey, hget, Option.bind_some, if_neg hmany]
    exact ⟨_, rfl⟩
  · rw [if_neg hkey]
    exact ⟨n, hget⟩

/-- What is kept under a key, some open hold was taken with. -/
theorem Faithful.open_of_kept (hf : Faithful m holds) (hb : Balanced m holds) {kept : Kept ν}
    (hget : m.get? key = some kept) :
    ∃ h ∈ holds, h.given = false ∧ h.key = key ∧ h.payload = kept.payload := by
  obtain ⟨hcount, hpos⟩ := hb.held _ _ hget
  rw [hcount] at hpos
  obtain ⟨h, hh, hopen, rfl⟩ := taken_pos.mp hpos
  obtain ⟨n, hget'⟩ := hf h hh hopen
  rw [hget] at hget'
  cases hget'
  exact ⟨h, hh, hopen, rfl, rfl⟩

end Holds

end O2Fabric
