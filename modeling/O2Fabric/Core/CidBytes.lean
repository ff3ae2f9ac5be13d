/-
  O2Fabric.Core.CidBytes

  The bytes of a content address.  A version 1 address writes its version, codec,
  hash function and digest length as numbers of seven bits a byte before the
  digest; a version 0 address is the hash function, length and digest alone, told
  by the number of SHA-256 where the version would stand.  Reading the bytes needs
  nothing that follows them.
-/

import O2Fabric.Core.Platform
import O2Fabric.Lib.Reader

namespace O2Fabric

open Reader

/-- The parts of an address. -/
structure CidSpecs where
  version : Nat
  codec : Nat
  hashCode : Nat
  digest : Bytes

/-- The codec of every version 0 address. -/
def DAG_PB : Nat := 0x70

/-- The number of SHA-256 among the hash functions. -/
def SHA2_256 : Nat := 0x12

/-- The first address off some bytes. -/
def decodeCid : Reader (Fin 256) CidSpecs :=
  varint.andThen fun version =>
    if version = SHA2_256 then
      -- a bare digest: what was read is its hash function
      varint.andThen fun size => (items size).andThen fun digest =>
        give ⟨0, DAG_PB, SHA2_256, digest⟩
    else if version = 1 then
      varint.andThen fun codec => varint.andThen fun hashCode => varint.andThen fun size =>
        (items size).andThen fun digest => give ⟨1, codec, hashCode, digest⟩
    else fun _ => none

theorem local_decodeCid : Local decodeCid := by
  have hdigest : ∀ give' : Bytes → CidSpecs, Local (varint.andThen fun size =>
      (items size).andThen fun digest => give (give' digest)) := by
    intro give'
    exact local_varint.andThen fun size =>
      (local_items size).andThen fun digest => local_give (give' digest)
  refine local_varint.andThen fun version => ?_
  split
  · exact hdigest fun digest => ⟨0, DAG_PB, SHA2_256, digest⟩
  · split
    · exact local_varint.andThen fun codec => local_varint.andThen fun hashCode =>
        hdigest fun digest => ⟨1, codec, hashCode, digest⟩
    · intro l b rest h
      cases h

/-- A version 1 address. -/
def cidBytesV1 (codec hashCode : Nat) (digest : Bytes) : Bytes :=
  writeVarint 1 ++ (writeVarint codec ++ (writeVarint hashCode
    ++ (writeVarint digest.length ++ digest)))

theorem items_length (digest : Bytes) : items digest.length digest = some (digest, []) := by
  unfold items
  rw [if_pos (Nat.le_refl _), List.take_length, List.drop_length]

theorem word_cidBytesV1 (codec hashCode : Nat) (digest : Bytes) :
    Word decodeCid (cidBytesV1 codec hashCode digest) := by
  refine ⟨⟨1, codec, hashCode, digest⟩, ?_⟩
  unfold decodeCid cidBytesV1 Reader.andThen
  rw [varint_writeVarint]
  dsimp only [Option.bind_some]
  rw [if_neg (by decide), if_pos rfl]
  simp only [varint_writeVarint, Option.bind_some, items_length, give]

/-- The platform's addresses are such bytes, and an address is told by its bytes. -/
structure AddressBytes (p : Platform) : Prop where
  decodes : ∀ cid, Word decodeCid (p.cidBytes cid)
  separates : Function.Injective p.cidBytes

/-- Two byte strings that start with addresses start with one address each. -/
theorem AddressBytes.split {p : Platform} (h : AddressBytes p) {cid cid' : Cid}
    {rest rest' : Bytes} (hsame : p.cidBytes cid ++ rest = p.cidBytes cid' ++ rest') :
    cid = cid' ∧ rest = rest' := by
  obtain ⟨hbytes, hrest⟩ := local_decodeCid.word_unique (h.decodes cid) (h.decodes cid') hsame
  exact ⟨h.separates hbytes, hrest⟩

end O2Fabric
