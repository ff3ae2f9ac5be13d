/-
  O2Fabric.Js.Hex

  Bytes from hexadecimal, as leniently as `Number.parseInt` reads it.
-/

import O2Fabric.Js.Json
import O2Fabric.Js.Trim

namespace O2Fabric

/-- `'+'`. -/
def PLUS : CodeUnit := 0x2B

/-- The digits at the front as a number, `none` where there is no digit. -/
def leadingHex (text : JsString) : Option Nat :=
  let digits := text.takeWhile fun u => (Json.hexValue u).isSome
  if digits = [] then none
  else some (digits.foldl (fun n u => 16 * n + (Json.hexValue u).getD 0) 0)

/-- What follows `0x`, where the text starts with it. -/
def withoutHexPrefix (text : JsString) : JsString :=
  match text with
  | zero :: x :: rest => if zero = 0x30 ∧ (x = 0x78 ∨ x = 0x58) then rest else text
  | _ => text

/-- `Number.parseInt(text, 16)`, `none` where it is not a number. -/
def parseIntHex (text : JsString) : Option ℤ :=
  match text.dropWhile isSpace with
  | [] => none
  | u :: rest =>
    if u = MINUS then (leadingHex (withoutHexPrefix rest)).map fun n => -(n : ℤ)
    else if u = PLUS then (leadingHex (withoutHexPrefix rest)).map fun n => (n : ℤ)
    else (leadingHex (withoutHexPrefix (u :: rest))).map fun n => (n : ℤ)

/-- What a byte array keeps of a number; what is not a number is zero. -/
def byteOf (n : Option ℤ) : Fin 256 := Fin.ofNat 256 ((n.getD 0) % 256).toNat

/-- Two code units a byte.  One that is left over is not read. -/
def fromHex : JsString → List (Fin 256)
  | a :: b :: rest => byteOf (parseIntHex [a, b]) :: fromHex rest
  | _ => []

theorem fromHex_toHex (bytes : List (Fin 256)) : fromHex (toHex bytes) = bytes := by
  have hbyte : ∀ byte : Fin 256, byteOf (parseIntHex
      [HEX.getD (byte.val / 16) NUL, HEX.getD (byte.val % 16) NUL]) = byte := by decide +kernel
  induction bytes with
  | nil => rfl
  | cons byte bytes ih =>
    have hcons : toHex (byte :: bytes)
        = HEX.getD (byte.val / 16) NUL :: HEX.getD (byte.val % 16) NUL :: toHex bytes := rfl
    rw [hcons, fromHex, hbyte byte, ih]

end O2Fabric
