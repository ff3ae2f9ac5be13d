/-
  O2Fabric.Lib.BigEndian

  Numbers as digits, high digit first: the fewest digits of a number, and the
  number that digits stand for.
-/

import Mathlib.Data.Nat.Digits.Lemmas

namespace O2Fabric.BigEndian

variable {b n d : Nat} {ds : List Nat}

/-- The digits of a number, none for zero. -/
def digits (b n : Nat) : List Nat := (Nat.digits b n).reverse

/-- The number that digits stand for, with what is to the left of them. -/
def valueFrom (b : Nat) (n : Nat) (ds : List Nat) : Nat := ds.foldl (fun n d => n * b + d) n

/-- The number that digits stand for. -/
def value (b : Nat) (ds : List Nat) : Nat := valueFrom b 0 ds

@[simp] theorem value_nil : value b [] = 0 := rfl

theorem valueFrom_cons : valueFrom b n (d :: ds) = valueFrom b (n * b + d) ds := rfl

theorem valueFrom_eq (b n : Nat) (ds : List Nat) :
    valueFrom b n ds = n * b ^ ds.length + Nat.ofDigits b ds.reverse := by
  induction ds generalizing n with
  | nil => simp [valueFrom]
  | cons d ds ih =>
    rw [valueFrom_cons, ih, Nat.ofDigits_reverse_cons, List.length_cons, pow_succ]
    have hdistrib : (n * b + d) * b ^ ds.length = n * (b ^ ds.length * b) + b ^ ds.length * d := by
      rw [Nat.add_mul, Nat.mul_assoc, Nat.mul_comm b, Nat.mul_comm d]
    omega

theorem value_eq_ofDigits (b : Nat) (ds : List Nat) : value b ds = Nat.ofDigits b ds.reverse := by
  rw [value, valueFrom_eq, Nat.zero_mul, Nat.zero_add]

theorem value_digits (b n : Nat) : value b (digits b n) = n := by
  rw [value_eq_ofDigits, digits, List.reverse_reverse, Nat.ofDigits_digits]

theorem digit_lt (hb : 1 < b) (hd : d ∈ digits b n) : d < b :=
  Nat.digits_lt_base hb (List.mem_reverse.mp hd)

theorem digits_ne_nil (hn : n ≠ 0) : digits b n ≠ [] := by
  unfold digits
  rw [ne_eq, List.reverse_eq_nil_iff, Nat.digits_eq_nil_iff_eq_zero]
  exact hn

/-- The first digit is not zero. -/
theorem head_digits_ne_zero (b n : Nat) : (digits b n).head? ≠ some 0 := by
  by_cases hn : n = 0
  · rw [hn]
    simp [digits]
  · have hne : Nat.digits b n ≠ [] := fun h => hn (Nat.digits_eq_nil_iff_eq_zero.mp h)
    have hlast := Nat.getLast_digit_ne_zero b hn
    have hhead : (digits b n).head? = some ((Nat.digits b n).getLast hne) := by
      rw [digits, List.head?_reverse, List.getLast?_eq_some_getLast hne]
    rw [hhead]
    exact fun h => hlast (Option.some.inj h)

/-- A number below a power of the base has no more digits than the power says. -/
theorem length_digits_le {k : Nat} (hb : 1 < b) (hn : n < b ^ k) : (digits b n).length ≤ k := by
  unfold digits
  rw [List.length_reverse]
  by_cases hzero : n = 0
  · simp [hzero]
  · exact (Nat.digits_length_le_iff hb n).mpr hn

theorem value_lt (hlt : ∀ d ∈ ds, d < b) (hb : 1 < b) : value b ds < b ^ ds.length := by
  rw [value_eq_ofDigits, ← List.length_reverse]
  exact Nat.ofDigits_lt_base_pow_length hb fun d hd => hlt d (List.mem_reverse.mp hd)

end O2Fabric.BigEndian
