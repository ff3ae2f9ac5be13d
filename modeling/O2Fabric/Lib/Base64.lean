/-
  O2Fabric.Lib.Base64

  Bytes as groups of six bits.  Three bytes are four groups; one byte left over
  is two groups and two are three, with the bits that are not used zero.
-/

import Mathlib.Order.Fin.Basic

namespace O2Fabric.Base64

abbrev Sextet := Fin 64

-- without it a digit's instance is found through Mathlib, where Mathlib is imported
instance neZeroSextet : @NeZero Nat Zero.ofOfNat0 64 := Nat.instNeZeroSucc

theorem mod_256_lt (n : Nat) : n % 256 < 256 := Nat.mod_lt n (by omega)

/-- The low byte of a number. -/
def byte (n : Nat) : Fin 256 := ⟨n % 256, mod_256_lt n⟩

@[simp] theorem val_byte (n : Nat) : (byte n).val = n % 256 := rfl

def encode : List (Fin 256) → List Sextet
  | a :: b :: c :: rest =>
    Fin.ofNat 64 (a.val / 4) :: Fin.ofNat 64 (a.val % 4 * 16 + b.val / 16)
      :: Fin.ofNat 64 (b.val % 16 * 4 + c.val / 64) :: Fin.ofNat 64 (c.val % 64) :: encode rest
  | [a, b] =>
    [Fin.ofNat 64 (a.val / 4), Fin.ofNat 64 (a.val % 4 * 16 + b.val / 16),
      Fin.ofNat 64 (b.val % 16 * 4)]
  | [a] => [Fin.ofNat 64 (a.val / 4), Fin.ofNat 64 (a.val % 4 * 16)]
  | [] => []

/-- One group left over is no byte: there is nothing it could be. -/
def decode : List Sextet → Option (List (Fin 256))
  | w :: x :: y :: z :: rest =>
    (decode rest).map fun bytes =>
      byte (w.val * 4 + x.val / 16) :: byte (x.val % 16 * 16 + y.val / 4)
        :: byte (y.val % 4 * 64 + z.val) :: bytes
  | [w, x, y] =>
    some [byte (w.val * 4 + x.val / 16), byte (x.val % 16 * 16 + y.val / 4)]
  | [w, x] => some [byte (w.val * 4 + x.val / 16)]
  | [_] => none
  | [] => some []

theorem decode_encode (bytes : List (Fin 256)) : decode (encode bytes) = some bytes := by
  induction bytes using encode.induct with
  | case1 a b c rest ih =>
    simp only [encode, decode, ih, Option.map_some, Option.some.injEq, List.cons.injEq, and_true]
    refine ⟨Fin.ext ?_, Fin.ext ?_, Fin.ext ?_⟩ <;> simp only [val_byte, Fin.val_ofNat] <;> omega
  | case2 a b =>
    simp only [encode, decode, Option.some.injEq, List.cons.injEq, and_true]
    refine ⟨Fin.ext ?_, Fin.ext ?_⟩ <;> simp only [val_byte, Fin.val_ofNat] <;> omega
  | case3 a =>
    simp only [encode, decode, Option.some.injEq, List.cons.injEq, and_true]
    refine Fin.ext ?_
    simp only [val_byte, Fin.val_ofNat]
    omega
  | case4 => rfl

/-- Only one group left over is not decoded. -/
theorem decode_eq_none_iff {groups : List Sextet} :
    decode groups = none ↔ groups.length % 4 = 1 := by
  induction groups using decode.induct with
  | case1 w x y z rest ih =>
    rw [decode, Option.map_eq_none_iff, ih]
    simp only [List.length_cons]
    omega
  | case2 w x y => simp [decode]
  | case3 w x => simp [decode]
  | case4 w => simp [decode]
  | case5 => simp [decode]

theorem encode_ne_nil {bytes : List (Fin 256)} (h : bytes ≠ []) : encode bytes ≠ [] := by
  intro hnil
  have hback := decode_encode bytes
  rw [hnil] at hback
  exact h (Option.some.inj hback).symm

end O2Fabric.Base64
