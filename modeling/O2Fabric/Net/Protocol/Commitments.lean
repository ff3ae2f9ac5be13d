/-
  O2Fabric.Net.Protocol.Commitments

  What a commitment binds.  The digest is over a nonce of a fixed length, two
  addresses, an index of four bytes and an address, with nothing between them.
  Each part says where it ends, so the bytes are of one nonce, one shard and one
  answer.
-/

import O2Fabric.Core.CidBytes
import O2Fabric.Net.Protocol
import Mathlib.Logic.Equiv.List

namespace O2Fabric.Net.Protocol

open Job Reader

theorem uint32_length (n : Nat) : (uint32 n).length = 4 := rfl

/-- The four bytes tell an index that fits into them. -/
theorem uint32_inj {n m : Nat} (hn : n < 2 ^ 32) (hm : m < 2 ^ 32) (h : uint32 n = uint32 m) :
    n = m := by
  simp only [uint32, List.cons.injEq, and_true, Fin.ext_iff, Fin.val_ofNat] at h
  obtain ⟨h24, h16, h8, h0⟩ := h
  omega

/-- One digest is of one nonce, one shard and one answer. -/
theorem commitmentDigest_binds (p : Platform) (hsha : Function.Injective p.sha256)
    (hcids : AddressBytes p) {nonce nonce' : Bytes}
    (hnonce : nonce.length = CEREMONY_NONCE_BYTES) (hnonce' : nonce'.length = CEREMONY_NONCE_BYTES)
    {task task' : Job.Task} (hindex : task.partitionIndex < 2 ^ 32)
    (hindex' : task'.partitionIndex < 2 ^ 32) {resultCid resultCid' : Cid}
    (h : commitmentDigest p nonce task resultCid = commitmentDigest p nonce' task' resultCid') :
    nonce = nonce' ∧ task.moduleCid = task'.moduleCid ∧ task.inputCid = task'.inputCid ∧
      task.partitionIndex = task'.partitionIndex ∧ resultCid = resultCid' := by
  have hbytes := hsha (toHex_injective h)
  simp only [List.append_assoc] at hbytes
  -- the nonce is told by its length, and each part by where it ends
  obtain ⟨hsame, hbytes⟩ := List.append_inj hbytes (hnonce.trans hnonce'.symm)
  obtain ⟨hmodule, hbytes⟩ := hcids.split hbytes
  obtain ⟨hinput, hbytes⟩ := hcids.split hbytes
  obtain ⟨hfour, hresult⟩ := List.append_inj hbytes
    ((uint32_length task.partitionIndex).trans (uint32_length task'.partitionIndex).symm)
  exact ⟨hsame, hmodule, hinput, uint32_inj hindex hindex' hfour, hcids.separates hresult⟩

/-! ## Addresses that are their texts -/

/-- A version 1 address under the identity hash, whose digest is a number for the
    text. -/
def textAddress (cid : Cid) : Bytes :=
  cidBytesV1 0x71 0 (writeVarint (Encodable.encode cid.toText))

/-- The plain platform with such addresses, and with a hash that tells any two byte
    strings apart. -/
def bindingPlatform : Platform := { plain with sha256 := id, cidBytes := textAddress }

theorem bindingPlatform_addresses : AddressBytes bindingPlatform := by
  have hnumber : Function.Injective writeVarint := by
    intro n m h
    have hread := varint_writeVarint n []
    rw [h, varint_writeVarint m []] at hread
    exact (Prod.mk.inj (Option.some.inj hread)).1.symm
  refine ⟨fun cid => word_cidBytesV1 _ _ _, fun cid cid' h => ?_⟩
  have hrest := List.append_cancel_left (List.append_cancel_left (List.append_cancel_left h))
  have hword : ∀ n, Word varint (writeVarint n) := by
    intro n
    have hread := varint_writeVarint n []
    rw [List.append_nil] at hread
    exact ⟨n, hread⟩
  obtain ⟨-, hdigest⟩ := local_varint.word_unique (hword _) (hword _) hrest
  exact Cid.toText_injective (Encodable.encode_injective (hnumber hdigest))

def shardTask (i : Nat) : Job.Task := ⟨plainCid, plainCid, i, 12, .pub, none⟩

/-- The digests of one answer to two shards under one nonce differ. -/
theorem commitmentDigest_binds_shards :
    commitmentDigest bindingPlatform (List.replicate 32 0) (shardTask 1) plainCid
      ≠ commitmentDigest bindingPlatform (List.replicate 32 0) (shardTask 11) plainCid := by
  intro h
  have hnonce : (List.replicate 32 0 : Bytes).length = CEREMONY_NONCE_BYTES := rfl
  obtain ⟨-, -, -, hindex, -⟩ := commitmentDigest_binds bindingPlatform Function.injective_id
    bindingPlatform_addresses hnonce hnonce (by decide) (by decide) h
  exact absurd hindex (by decide)

end O2Fabric.Net.Protocol
