/-
  O2Fabric.Js.Number

  ECMAScript numbers with exact arithmetic: the finite values are rationals,
  and the three non-finite ones compare as the language says, so `NaN` is
  neither below, above nor equal to anything.
-/

import Mathlib.Data.Rat.Floor

namespace O2Fabric

inductive JsNumber
  | nan
  | negInfinity
  | finite (value : ℚ)
  | posInfinity
  deriving DecidableEq

namespace JsNumber

/-- `Math.max(a, b)`: `NaN` if either is. -/
def mathMax : JsNumber → JsNumber → JsNumber
  | nan, _ => nan
  | _, nan => nan
  | posInfinity, _ => posInfinity
  | _, posInfinity => posInfinity
  | negInfinity, b => b
  | a, negInfinity => a
  | finite a, finite b => finite (max a b)

/-- `a + b`. -/
def add : JsNumber → JsNumber → JsNumber
  | nan, _ => nan
  | _, nan => nan
  | posInfinity, negInfinity => nan
  | negInfinity, posInfinity => nan
  | posInfinity, _ => posInfinity
  | _, posInfinity => posInfinity
  | negInfinity, _ => negInfinity
  | _, negInfinity => negInfinity
  | finite a, finite b => finite (a + b)

/-- `a < b`. -/
def below : JsNumber → JsNumber → Bool
  | nan, _ => false
  | _, nan => false
  | finite a, finite b => decide (a < b)
  | a, b => decide (a ≠ b ∧ (a = negInfinity ∨ b = posInfinity))

/-- `a === b`. -/
def same (a b : JsNumber) : Bool := decide (a = b ∧ a ≠ nan)

/-- `count >= x` for a length or a counter. -/
def reachedBy (count : Nat) : JsNumber → Bool
  | nan => false
  | negInfinity => true
  | finite x => decide (x ≤ count)
  | posInfinity => false

/-- The value, where `Number.isInteger(x) && x >= 1`. -/
def positiveInteger? : JsNumber → Option Nat
  | finite x => if x.isInt && decide (1 ≤ x) then some x.num.toNat else none
  | _ => none

theorem positiveInteger?_pos {x : JsNumber} {n : Nat} (h : x.positiveInteger? = some n) :
    0 < n := by
  cases x with
  | finite q =>
    simp only [positiveInteger?, Option.ite_none_right_eq_some, Option.some.injEq,
      Bool.and_eq_true, decide_eq_true_eq] at h
    obtain ⟨⟨hint, hone⟩, rfl⟩ := h
    have hden : q.den = 1 := beq_iff_eq.mp hint
    have hnum : (q.num : ℚ) = q := (Rat.den_eq_one_iff q).mp hden
    have : (1 : ℤ) ≤ q.num := by
      rw [← hnum] at hone
      exact_mod_cast hone
    omega
  | nan => cases h
  | negInfinity => cases h
  | posInfinity => cases h

/-- A whole number from one on is itself. -/
theorem positiveInteger?_natCast {n : Nat} (h : 0 < n) :
    (finite (n : ℚ)).positiveInteger? = some n := by
  have hone : (1 : ℚ) ≤ n := by exact_mod_cast h
  have hint : (n : ℚ).isInt = true := beq_iff_eq.mpr (Rat.den_natCast n)
  show (if (n : ℚ).isInt && decide (1 ≤ (n : ℚ)) then some (n : ℚ).num.toNat else none) = some n
  rw [hint, decide_eq_true hone, Rat.num_natCast]
  rfl

end JsNumber

/-! ## From whole numbers -/

/-- `Number(n)`: to the nearest of the numbers with 53 significant bits, ties to even. -/
def toNumber (n : Nat) : Nat :=
  if n < 9007199254740992 then n
  else
    let unit := 2 ^ (n.log2 - 52)
    let below := n / unit
    let rest := n % unit
    if unit < 2 * rest ∨ unit = 2 * rest ∧ below % 2 = 1 then (below + 1) * unit else below * unit

/-- Below 2^53 nothing is rounded. -/
theorem toNumber_small {n : Nat} (h : n < 2 ^ 53) : toNumber n = n := by
  unfold toNumber
  exact if_pos h

/-- Rounding does not bring a number below 2^53. -/
theorem toNumber_large {n : Nat} (h : 2 ^ 53 ≤ n) : 2 ^ 53 ≤ toNumber n := by
  have hlog : 53 ≤ n.log2 := (Nat.le_log2 (by omega)).mpr h
  have hunit : 2 ^ 52 * 2 ^ (n.log2 - 52) = 2 ^ n.log2 := by
    rw [← Nat.pow_add]
    congr 1
    omega
  have hpow : 2 ^ 53 ≤ 2 ^ n.log2 := Nat.pow_le_pow_right (by omega) hlog
  -- what is cut off is less than a unit, and 2^52 units stay
  have hbelow : 2 ^ 52 ≤ n / 2 ^ (n.log2 - 52) := by
    rw [Nat.le_div_iff_mul_le (by positivity), hunit]
    exact Nat.log2_self_le (by omega)
  have hcut : 2 ^ n.log2 ≤ n / 2 ^ (n.log2 - 52) * 2 ^ (n.log2 - 52) := by
    rw [← hunit]
    exact Nat.mul_le_mul_right _ hbelow
  unfold toNumber
  rw [if_neg (by omega)]
  dsimp only
  split
  · rw [Nat.add_one_mul]
    omega
  · omega

/-- `Number.isSafeInteger(x)`. -/
def isSafeInteger (x : ℚ) : Bool := x.isInt && decide (|x| ≤ 2 ^ 53 - 1)

end O2Fabric
