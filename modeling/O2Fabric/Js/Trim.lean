/-
  O2Fabric.Js.Trim

  White space at the ends of a string.
-/

import O2Fabric.Js.Text

namespace O2Fabric

/-- `'\n'`. -/
def LF : CodeUnit := 0x0A

/-- `' '`. -/
def SPACE : CodeUnit := 0x20

/-- White space and line terminators, as the language has them. -/
def isSpace (u : CodeUnit) : Bool :=
  ([0x09, 0x0A, 0x0B, 0x0C, 0x0D, 0x20, 0xA0, 0x1680, 0x2000, 0x2001, 0x2002, 0x2003, 0x2004, 0x2005,
    0x2006, 0x2007, 0x2008, 0x2009, 0x200A, 0x2028, 0x2029, 0x202F, 0x205F, 0x3000, 0xFEFF] :
    List CodeUnit).contains u

/-- `text.trim()`. -/
def trim (text : JsString) : JsString :=
  ((text.dropWhile isSpace).reverse.dropWhile isSpace).reverse

/-- Text without white space is left alone. -/
theorem trim_plain {text : JsString} (h : ∀ u ∈ text, isSpace u = false) : trim text = text := by
  have hdrop : ∀ l : JsString, (∀ u ∈ l, isSpace u = false) → l.dropWhile isSpace = l := by
    intro l hl
    cases l with
    | nil => rfl
    | cons u rest => rw [List.dropWhile_cons, hl u List.mem_cons_self, if_neg Bool.false_ne_true]
  unfold trim
  rw [hdrop text h, hdrop text.reverse fun u hu => h u (List.mem_reverse.mp hu),
    List.reverse_reverse]

end O2Fabric
