/-
  O2Fabric.Lib.Lines

  A text of records, one to a line, that grows at its end.

  A text is `Complete` where its last line is ended.  What is appended to a
  complete text is read for itself; what is appended to a torn line is read as
  part of it.
-/

import Mathlib.Data.List.Basic

namespace O2Fabric.Lines

universe u v

variable {α : Type u} {ρ : Type v} [DecidableEq α] {sep : α} {line text more : List α}
  {read : List α → Option ρ}

/-- `text.split(sep)`. -/
def lines (sep : α) : List α → List (List α)
  | [] => [[]]
  | x :: rest =>
    if x = sep then [] :: lines sep rest
    else match lines sep rest with
      | [] => [[x]]
      | first :: others => (x :: first) :: others

def records (sep : α) (read : List α → Option ρ) (text : List α) : List ρ :=
  (lines sep text).filterMap read

/-- Every line is ended. -/
def Complete (sep : α) (text : List α) : Prop := text = [] ∨ text.getLast? = some sep

instance (sep : α) (text : List α) : Decidable (Complete sep text) :=
  inferInstanceAs (Decidable (_ ∨ _))

theorem lines_ne_nil (text : List α) : lines sep text ≠ [] := by
  cases text with
  | nil => exact List.cons_ne_nil _ _
  | cons x rest =>
    unfold lines
    split
    · exact List.cons_ne_nil _ _
    · split <;> exact List.cons_ne_nil _ _

theorem lines_append_sep (text more : List α) :
    lines sep (text ++ sep :: more) = lines sep text ++ lines sep more := by
  induction text with
  | nil => simp [lines]
  | cons x rest ih =>
    rw [List.cons_append, lines, lines, ih]
    by_cases hsep : x = sep
    · simp [hsep]
    · rw [if_neg hsep, if_neg hsep]
      cases hrest : lines sep rest with
      | nil => exact absurd hrest (lines_ne_nil rest)
      | cons first others => rfl

theorem lines_of_notMem (h : sep ∉ line) : lines sep line = [line] := by
  induction line with
  | nil => rfl
  | cons x rest ih =>
    have hne : x ≠ sep := fun heq => h (heq ▸ List.mem_cons_self)
    rw [lines, if_neg hne, ih fun hmem => h (List.mem_cons_of_mem _ hmem)]

/-- Where nothing is torn, what is appended is read for itself. -/
theorem records_append (hread : read [] = none) (h : Complete sep text) :
    records sep read (text ++ more) = records sep read text ++ records sep read more := by
  rcases h with rfl | hlast
  · simp [records, lines, hread]
  · obtain ⟨front, rfl⟩ := List.getLast?_eq_some_iff.mp hlast
    have hfront : lines sep (front ++ [sep]) = lines sep front ++ [[]] := lines_append_sep front []
    rw [List.append_assoc, List.singleton_append]
    unfold records
    rw [lines_append_sep, hfront, List.filterMap_append, List.filterMap_append]
    simp [hread]

theorem records_line (hread : read [] = none) (h : sep ∉ line) :
    records sep read (line ++ [sep]) = (read line).toList := by
  have hline : lines sep (line ++ [sep]) = lines sep line ++ [[]] := lines_append_sep line []
  unfold records
  rw [hline, lines_of_notMem h]
  cases hone : read line <;> simp [hone, hread]

omit [DecidableEq α] in
theorem complete_append (text line : List α) : Complete sep (text ++ (line ++ [sep])) := by
  right
  rw [← List.append_assoc, List.getLast?_concat]

end O2Fabric.Lines
