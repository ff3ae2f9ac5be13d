/-
  O2Fabric.Lib.Cbor

  How canonical CBOR lays out a data item: a head with the shortest argument,
  then the item's content.  A map lists its entries by the length of the key's
  bytes, then by the bytes.  The items of an array and the values of a map lie
  in it as they are.
-/

import Mathlib.Data.List.Infix
import Mathlib.Data.List.Lex
import Mathlib.Data.List.Sort

namespace O2Fabric.Cbor

abbrev Byte := Fin 256

/-- The low byte of a number. -/
def byte (n : Nat) : Byte := ⟨n % 256, Nat.mod_lt n (by omega)⟩

/-- `n` in `width` bytes, high byte first. -/
def bigEndian : Nat → Nat → List Byte
  | 0, _ => []
  | width + 1, n => bigEndian width (n / 256) ++ [byte n]

/-- The head of an item: its major type, and an argument in as few bytes as hold it. -/
def head (major n : Nat) : List Byte :=
  if n < 24 then [byte (major * 32 + n)]
  else if n < 256 then byte (major * 32 + 24) :: bigEndian 1 n
  else if n < 65536 then byte (major * 32 + 25) :: bigEndian 2 n
  else if n < 4294967296 then byte (major * 32 + 26) :: bigEndian 4 n
  else byte (major * 32 + 27) :: bigEndian 8 n

/-! ## Items -/

def integer : Int → List Byte
  | .ofNat n => head 0 n
  | .negSucc n => head 1 n

def byteString (bytes : List Byte) : List Byte := head 2 bytes.length ++ bytes

def textString (utf8 : List Byte) : List Byte := head 3 utf8.length ++ utf8

def array (items : List (List Byte)) : List Byte := head 4 items.length ++ items.flatten

/-- Shorter keys come first, and keys of one length by their bytes. -/
def KeyLE (a b : List Byte × List Byte) : Prop :=
  a.1.length < b.1.length ∨ a.1.length = b.1.length ∧ a.1 ≤ b.1

instance : DecidableRel KeyLE := fun _ _ =>
  inferInstanceAs (Decidable (_ ∨ _))

def entry (e : List Byte × List Byte) : List Byte := textString e.1 ++ e.2

/-- `entries` are the keys' bytes, each with the encoding of its value. -/
def map (entries : List (List Byte × List Byte)) : List Byte :=
  head 5 entries.length ++ (entries.insertionSort KeyLE).flatMap entry

def tag (n : Nat) (item : List Byte) : List Byte := head 6 n ++ item

def boolean (b : Bool) : List Byte := if b then [byte 0xF5] else [byte 0xF4]

def null : List Byte := [byte 0xF6]

def double (bytes : List Byte) : List Byte := byte 0xFB :: bytes

/-! ## What lies in what -/

end O2Fabric.Cbor
