/-
  O2Fabric.Lib.Fallible

  Computations that can fail: a loop none of whose steps fails, and what the
  failures of a computation have in common.
-/

import Mathlib.Data.List.Defs

namespace O2Fabric

variable {ε α β : Type}

variable {f : α → Except ε β}

/-- A loop none of whose steps fails. -/
theorem mapM_ok {g : α → β} {items : List α} (h : ∀ item ∈ items, f item = .ok (g item)) :
    items.mapM f = .ok (items.map g) := by
  induction items with
  | nil => rfl
  | cons item items ih =>
    rw [List.mapM_cons, h item List.mem_cons_self,
      ih fun other hother => h other (List.mem_cons_of_mem item hother)]
    rfl

/-- Two steps succeed where each does. -/
theorem bind_ok {x : Except ε α} {b : β} :
    x >>= f = .ok b ↔ ∃ a, x = .ok a ∧ f a = .ok b := by
  cases x with
  | error e => simp [bind, Except.bind]
  | ok a => simp [bind, Except.bind]

/-- Everything that is thrown meets a condition. -/
def OnlyThrows (P : ε → Prop) (x : Except ε α) : Prop := ∀ e, x = .error e → P e

variable {P : ε → Prop}

theorem OnlyThrows.bind {x : Except ε α} (hx : OnlyThrows P x) (hf : ∀ a, OnlyThrows P (f a)) :
    OnlyThrows P (x >>= f) := by
  intro e he
  cases x with
  | error e' =>
    cases he
    exact hx e rfl
  | ok a => exact hf a e he

theorem OnlyThrows.pure (a : α) : OnlyThrows P (Pure.pure a : Except ε α) :=
  fun e he => by cases he

theorem OnlyThrows.mapM (hf : ∀ a, OnlyThrows P (f a)) (items : List α) :
    OnlyThrows P (items.mapM f) := by
  induction items with
  | nil => exact OnlyThrows.pure []
  | cons item items ih =>
    rw [List.mapM_cons]
    exact (hf item).bind fun b => ih.bind fun bs => OnlyThrows.pure (b :: bs)

end O2Fabric
