/-
  O2Fabric.Lib.SlidingWindow

  A limit on how many times fall in a window, wherever the window is put, and
  rows that hold the times a limiter has to count.

  A limiter that looks at its row before it admits, and whose row holds every
  time it has admitted that is still in the window, keeps the limit in every
  window: `Bounded.cons`, with `Holds.recent_le` for what it looks at.
-/

import Mathlib.Algebra.Order.Group.Defs
import Mathlib.Algebra.Order.Sub.Unbundled.Basic
import Mathlib.Data.List.Perm.Subperm

namespace O2Fabric.SlidingWindow

universe u

/-! ## Rows -/

section Rows

variable {α : Type u} [LinearOrder α] {floor floor' : α} {times times' row : List α}

def Holds (floor : α) (times row : List α) : Prop :=
  (times.filter fun time => decide (floor ≤ time)).Subperm row

theorem Holds.subperm (h : Holds floor times row) (hfewer : times'.Subperm times) :
    Holds floor times' row := (hfewer.filter _).trans h

theorem Holds.later (h : Holds floor times row) (hlater : floor ≤ floor') :
    Holds floor' times row := by
  refine List.Subperm.trans (List.Sublist.subperm ?_) h
  apply List.monotone_filter_right
  intro time htime
  rw [decide_eq_true_eq] at htime ⊢
  exact hlater.trans htime

theorem Holds.compact (h : Holds floor times row) :
    Holds floor times (row.filter fun time => decide (floor ≤ time)) := by
  have hboth := List.Subperm.filter (fun time => decide (floor ≤ time)) h
  rw [List.filter_filter] at hboth
  simpa only [Holds, Bool.and_self] using hboth

/-- One more time, and an entry for it. -/
theorem Holds.cons (h : Holds floor times row) (now : α) :
    Holds floor (now :: times) (row ++ [now]) := by
  have hmore : ((now :: times).filter fun time => decide (floor ≤ time)).Subperm (now :: row) := by
    rw [List.filter_cons]
    split
    · exact (List.subperm_cons now).mpr h
    · exact List.Subperm.trans h (List.sublist_cons_self now row).subperm
  exact hmore.trans (List.perm_append_singleton now row).symm.subperm

end Rows

/-! ## Windows -/

section Windows

variable {α : Type u} [AddCommGroup α] [LinearOrder α] {window floor now : α}
  {times times' row : List α} {limit : Nat}

/-- The times in the window that ends at `last`, its start excluded. -/
def within (window last : α) (times : List α) : List α :=
  times.filter fun time => decide (last - window < time ∧ time ≤ last)

/-- The times later than a window before `now`. -/
def recent (window now : α) (times : List α) : List α :=
  times.filter fun time => decide (now - window < time)

def Bounded (window : α) (limit : Nat) (times : List α) : Prop :=
  ∀ last, (within window last times).length ≤ limit

theorem Bounded.subperm (h : Bounded window limit times) (hfewer : times'.Subperm times) :
    Bounded window limit times' := fun last =>
  ((hfewer.filter _).length_le).trans (h last)

theorem Holds.recent_le (h : Holds floor times row) (hfloor : floor ≤ now - window) :
    (recent window now times).length ≤ (recent window now row).length := by
  have hrecent := (List.Subperm.filter (fun time => decide (now - window < time)) h).length_le
  rw [List.filter_filter] at hrecent
  have hsame : (times.filter fun time => decide (now - window < time) && decide (floor ≤ time))
      = recent window now times := by
    apply List.filter_congr
    intro time _
    by_cases hlate : now - window < time
    · simp [hlate, hfloor.trans hlate.le]
    · simp [hlate]
  rw [hsame] at hrecent
  exact hrecent

/-- One more time, where fewer than the limit are recent. -/
theorem Bounded.cons [IsOrderedAddMonoid α] (h : Bounded window limit times)
    (hroom : (recent window now times).length < limit) :
    Bounded window limit (now :: times) := by
  intro last
  by_cases hin : last - window < now ∧ now ≤ last
  · -- everything else in this window is recent
    have hrecent : (within window last times).length ≤ (recent window now times).length := by
      apply List.Sublist.length_le
      apply List.monotone_filter_right
      intro time htime
      rw [decide_eq_true_eq] at htime ⊢
      have hshift : now - window ≤ last - window := sub_le_sub_right hin.2 window
      exact lt_of_le_of_lt hshift htime.1
    have hcons : within window last (now :: times) = now :: within window last times :=
      List.filter_cons_of_pos (decide_eq_true hin)
    rw [hcons, List.length_cons]
    omega
  · have hcons : within window last (now :: times) = within window last times :=
      List.filter_cons_of_neg (by simpa using hin)
    rw [hcons]
    exact h last

end Windows

end O2Fabric.SlidingWindow
