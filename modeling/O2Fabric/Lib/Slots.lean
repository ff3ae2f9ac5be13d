/-
  O2Fabric.Lib.Slots

  A table of keys, and parties that hold at most one of them each.  A party may
  take a key that is free and give back the one it holds; `Exact` says that the
  table is what the parties hold, and that no two hold the same key.  A table
  that is not kept (`none`) is exact.
-/

import Mathlib.Data.Finset.Basic

namespace O2Fabric.Slots

universe u v

variable {ι : Type u} {κ : Type v} {keys keys' : Option (Finset κ)} {slot : ι → Option κ}
  {after : Option κ}

/-- The table is what the parties hold, each key by one of them. -/
structure Exact (keys : Option (Finset κ)) (slot : ι → Option κ) : Prop where
  mem : ∀ held, keys = some held → ∀ key, key ∈ held ↔ ∃ i, slot i = some key
  unique : ∀ held, keys = some held → ∀ i j key,
    slot i = some key → slot j = some key → i = j

theorem Exact.start (hkeys : ∀ held, keys = some held → held = ∅) :
    Exact keys fun _ : ι => none := by
  constructor
  · intro held hheld key
    rw [hkeys held hheld]
    constructor
    · intro hin
      exact absurd hin (Finset.notMem_empty key)
    · rintro ⟨i, ⟨⟩⟩
  · rintro held - i j key ⟨⟩

/-- With nothing held the table is empty. -/
theorem Exact.idle {held : Finset κ} (h : Exact (some held) slot) (hidle : ∀ i, slot i = none) :
    held = ∅ := by
  apply Finset.eq_empty_of_forall_notMem
  intro key hin
  obtain ⟨i, hi⟩ := (h.mem held rfl key).mp hin
  rw [hidle i] at hi
  cases hi

variable [DecidableEq κ]

/-- What one action of one party may do: to the table, and to what it holds. -/
inductive Move (keys : Option (Finset κ)) :
    Option κ → Option (Finset κ) → Option κ → Prop
  | keep (slot : Option κ) : Move keys slot keys slot
  | take (key : κ) (fresh : ∀ held, keys = some held → key ∉ held) :
      Move keys none (keys.map (insert key)) (some key)
  | free (key : κ) : Move keys (some key) (keys.map fun held => held.erase key) none

/-- A key taken, and what becomes of it in the same action. -/
theorem Move.after_take {key : κ} (fresh : ∀ held, keys = some held → key ∉ held)
    (h : Move (keys.map (insert key)) (some key) keys' after) : Move keys none keys' after := by
  cases h with
  | keep => exact .take key fresh
  | free =>
    have hback : (keys.map (insert key)).map (fun held => held.erase key) = keys := by
      cases keys with
      | none => rfl
      | some held =>
        show some ((insert key held).erase key) = some held
        rw [Finset.erase_insert (fresh held rfl)]
    rw [hback]
    exact .keep none

/-- Who held nothing and holds nothing has left the table as it was. -/
theorem Move.eq_of_none (h : Move keys none keys' none) : keys' = keys := by
  cases h
  rfl

variable [DecidableEq ι]

theorem Exact.move (h : Exact keys slot) {i : ι} (hmove : Move keys (slot i) keys' after) :
    Exact keys' (Function.update slot i after) := by
  cases hbefore : slot i with
  | none =>
    rw [hbefore] at hmove
    cases hmove with
    | keep =>
      rw [← hbefore, Function.update_eq_self]
      exact h
    | take key fresh =>
      constructor
      · intro held hheld key'
        obtain ⟨held, rfl, rfl⟩ := Option.map_eq_some_iff.mp hheld
        rw [Finset.mem_insert, h.mem held rfl]
        constructor
        · rintro (rfl | ⟨j, hj⟩)
          · exact ⟨i, Function.update_self ..⟩
          · refine ⟨j, ?_⟩
            rw [Function.update_of_ne (by rintro rfl; rw [hbefore] at hj; cases hj)]
            exact hj
        · rintro ⟨j, hj⟩
          by_cases hji : j = i
          · rw [hji, Function.update_self] at hj
            exact Or.inl (Option.some.inj hj).symm
          · rw [Function.update_of_ne hji] at hj
            exact Or.inr ⟨j, hj⟩
      · intro held hheld j k key' hj hk
        obtain ⟨held, rfl, rfl⟩ := Option.map_eq_some_iff.mp hheld
        -- nobody else holds the key that was free
        have hother : ∀ j, j ≠ i → slot j ≠ some key := by
          intro j _ hslot
          exact fresh held rfl ((h.mem held rfl key).mpr ⟨j, hslot⟩)
        by_cases hji : j = i
        · by_cases hki : k = i
          · rw [hji, hki]
          · rw [hji, Function.update_self] at hj
            rw [Function.update_of_ne hki, ← hj] at hk
            exact absurd hk (hother k hki)
        · by_cases hki : k = i
          · rw [hki, Function.update_self] at hk
            rw [Function.update_of_ne hji, ← hk] at hj
            exact absurd hj (hother j hji)
          · rw [Function.update_of_ne hji] at hj
            rw [Function.update_of_ne hki] at hk
            exact h.unique held rfl j k key' hj hk
  | some key =>
    rw [hbefore] at hmove
    cases hmove with
    | keep =>
      rw [← hbefore, Function.update_eq_self]
      exact h
    | free =>
      constructor
      · intro held hheld key'
        obtain ⟨held, rfl, rfl⟩ := Option.map_eq_some_iff.mp hheld
        rw [Finset.mem_erase, h.mem held rfl]
        constructor
        · rintro ⟨hne, j, hj⟩
          refine ⟨j, ?_⟩
          rw [Function.update_of_ne]
          · exact hj
          · rintro rfl
            rw [hbefore] at hj
            exact hne (Option.some.inj hj).symm
        · rintro ⟨j, hj⟩
          by_cases hji : j = i
          · rw [hji, Function.update_self] at hj
            cases hj
          · rw [Function.update_of_ne hji] at hj
            refine ⟨?_, j, hj⟩
            rintro rfl
            exact hji (h.unique held rfl j i _ hj hbefore)
      · intro held hheld j k key' hj hk
        obtain ⟨held, rfl, rfl⟩ := Option.map_eq_some_iff.mp hheld
        have hstill : ∀ j, Function.update slot i none j = some key' → slot j = some key' := by
          intro j hj
          by_cases hji : j = i
          · rw [hji, Function.update_self] at hj
            cases hj
          · rw [Function.update_of_ne hji] at hj
            exact hj
        exact h.unique held rfl j k key' (hstill j hj) (hstill k hk)

end O2Fabric.Slots
