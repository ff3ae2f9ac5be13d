/-
  O2Fabric.Js.NumberText

  `Number(text)`, where it is finite.  Numbers are exact here: a text is the
  rational its digits say.
-/

import O2Fabric.Js.Json.RoundTrip
import O2Fabric.Js.Trim

namespace O2Fabric

open Json

/-- Digits with a point among them or without one, and an exponent, to the end of the text. -/
def decimalLiteral (text : JsString) : Option ℚ :=
  let whole := text.takeWhile Json.isDigit
  let (part, rest) := match text.dropWhile Json.isDigit with
    | 0x2E :: more => (more.takeWhile Json.isDigit, more.dropWhile Json.isDigit)
    | rest => ([], rest)
  if whole = [] ∧ part = [] then none
  else match parseExponent rest with
    | some (factor, []) =>
      some ((digitsValue whole + digitsValue part / 10 ^ part.length) * factor)
    | _ => none

/-- `0x`, `0o` or `0b`, and what follows. -/
def radixPrefix : JsString → Option (Nat × JsString)
  | 0x30 :: u :: digits =>
    if u.val = 0x78 ∨ u.val = 0x58 then some (16, digits)
    else if u.val = 0x6F ∨ u.val = 0x4F then some (8, digits)
    else if u.val = 0x62 ∨ u.val = 0x42 then some (2, digits)
    else none
  | _ => none

def radixLiteral (radix : Nat) (digits : JsString) : Option ℚ :=
  if digits = [] then none
  else (digits.foldlM (fun n u => (hexValue u).bind fun digit =>
    if digit < radix then some (n * radix + digit) else none) 0).map fun n : Nat => (n : ℚ)

/-- `Number(text)`, `none` where it is not finite. -/
def numberOf (text : JsString) : Option ℚ :=
  let body := trim text
  if body = [] then some 0
  else match radixPrefix body with
    | some (radix, digits) => radixLiteral radix digits
    | none =>
      match body with
      | 0x2D :: rest => (decimalLiteral rest).map fun x => -x
      | 0x2B :: rest => decimalLiteral rest
      | rest => decimalLiteral rest

theorem decimalLiteral_decimal (n : Nat) : decimalLiteral (decimal n) = some (n : ℚ) := by
  have hends : EndsDigits [] := fun u hu => by cases hu
  have hspan := span_digits (fun u hu => isDigit_of_mem_decimal (n := n) hu) hends
  rw [List.append_nil] at hspan
  unfold decimalLiteral
  rw [hspan.1, hspan.2]
  show (if decimal n = [] ∧ ([] : JsString) = [] then none
    else some (((digitsValue (decimal n) : ℚ) + (digitsValue [] : ℚ) / 10 ^ 0) * 1)) = _
  have hnone : (digitsValue [] : ℚ) = 0 := Nat.cast_zero
  rw [if_neg fun h => decimal_ne_nil n h.1, digitsValue_decimal, hnone, zero_div, add_zero, mul_one]

theorem not_space_of_digit {u : CodeUnit} (h : 48 ≤ u.val ∧ u.val ≤ 57) : isSpace u = false := by
  cases hspace : isSpace u with
  | false => rfl
  | true =>
    have hmem := List.contains_iff_mem.mp hspace
    have hfar : ∀ v ∈ ([0x09, 0x0A, 0x0B, 0x0C, 0x0D, 0x20, 0xA0, 0x1680, 0x2000, 0x2001, 0x2002,
        0x2003, 0x2004, 0x2005, 0x2006, 0x2007, 0x2008, 0x2009, 0x200A, 0x2028, 0x2029, 0x202F,
        0x205F, 0x3000, 0xFEFF] : List CodeUnit), ¬ (48 ≤ v.val ∧ v.val ≤ 57) := by
      intro v hv
      simp only [List.mem_cons, List.not_mem_nil, or_false] at hv
      rcases hv with rfl | rfl | rfl | rfl | rfl | rfl | rfl | rfl | rfl | rfl | rfl | rfl | rfl
        | rfl | rfl | rfl | rfl | rfl | rfl | rfl | rfl | rfl | rfl | rfl | rfl <;> decide
    exact absurd h (hfar u hmem)

theorem mem_integerText {z : ℤ} {u : CodeUnit} (h : u ∈ integerText z) :
    u = MINUS ∨ 48 ≤ u.val ∧ u.val ≤ 57 := by
  cases z with
  | ofNat n => exact Or.inr (mem_decimal h)
  | negSucc n =>
    rcases List.mem_cons.mp h with hminus | hdigit
    · exact Or.inl hminus
    · exact Or.inr (mem_decimal hdigit)

theorem integerText_ne_nil (z : ℤ) : integerText z ≠ [] := by
  cases z with
  | ofNat n => exact decimal_ne_nil n
  | negSucc n => exact List.cons_ne_nil _ _

theorem integerText_plain (z : ℤ) : ∀ u ∈ integerText z, isSpace u = false := by
  intro u hu
  rcases mem_integerText hu with rfl | hdigit
  · decide
  · exact not_space_of_digit hdigit

theorem radixPrefix_integerText (z : ℤ) : radixPrefix (integerText z) = none := by
  have hunits := fun u => mem_integerText (z := z) (u := u)
  unfold radixPrefix
  split
  · next u digits htext =>
    have hu := hunits u (by rw [htext]; exact List.mem_cons_of_mem _ List.mem_cons_self)
    have hrange : u.val = 45 ∨ 48 ≤ u.val ∧ u.val ≤ 57 := by
      rcases hu with rfl | hdigit
      · exact Or.inl rfl
      · exact Or.inr hdigit
    rw [if_neg (by omega), if_neg (by omega), if_neg (by omega)]
  · rfl

theorem numberOf_integerText (z : ℤ) : numberOf (integerText z) = some (z : ℚ) := by
  unfold numberOf
  rw [trim_plain (integerText_plain z)]
  dsimp only
  rw [if_neg (integerText_ne_nil z), radixPrefix_integerText]
  cases z with
  | ofNat n =>
    obtain ⟨u, units, hunits, hdigit⟩ := head_decimal n
    have hdecimal := decimalLiteral_decimal n
    show (match decimal n with
      | 0x2D :: rest => (decimalLiteral rest).map fun x => -x
      | 0x2B :: rest => decimalLiteral rest
      | rest => decimalLiteral rest) = some (((n : ℤ) : ℚ))
    rw [Int.cast_natCast, ← hdecimal, hunits]
    have hu := of_decide_eq_true hdigit
    split
    · next heq =>
      cases heq
      exact absurd hu (by decide)
    · next heq =>
      cases heq
      exact absurd hu (by decide)
    · rfl
  | negSucc n =>
    show (decimalLiteral (decimal (n + 1))).map (fun x => -x) = _
    rw [decimalLiteral_decimal, Option.map_some, Int.cast_negSucc]

end O2Fabric
