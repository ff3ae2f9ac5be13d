/-
  O2Fabric.Core.X509.SignedRegion

  Writing a decoded tree is a fixpoint, the reader stays in its window, and what
  a signature is taken over is where the first part of the certificate was read.
-/

import O2Fabric.Core.X509.Canonical

namespace O2Fabric.X509

section

variable {bytes : Bytes}

/-- What a tree is written as is read as this tree, wherever it lies. -/
theorem readTlv_encodeDer {node : DerNode} (hprofile : node.Profile) {depth offset next limit : Nat}
    (hordered : offset ≤ next) (hnext : next ≤ limit) (hlimit : limit ≤ bytes.length)
    (hdepth : next - offset ≤ depth) (hsmall : (encodeDer node).length < 256 ^ 127)
    (hbytes : subarray bytes offset next = encodeDer node) :
    readTlv depth bytes offset limit = .ok (node.canonical, next) := by
  apply readTlv_complete node.canonical depth offset next limit hordered hnext hlimit hdepth
  rw [hbytes]
  exact encodes_encodeDer node hprofile hsmall

/-- The first node within a written one: where it starts, and where it ends. -/
theorem first_child_read {tag : Fin 256} {first : DerNode} {rest : List DerNode}
    (hprofile : (DerNode.constructed tag (first :: rest)).Profile)
    (hsmall : bytes.length < 256 ^ 127)
    (hencode : encodeDer (.constructed tag (first :: rest)) = bytes) :
    ∃ contentOffset stop, readHeader bytes 0 bytes.length = .ok ⟨tag, contentOffset, bytes.length⟩ ∧
      readTlv (bytes.length - 1) bytes contentOffset bytes.length = .ok (first.canonical, stop) ∧
      encodeDer first = subarray bytes contentOffset stop := by
  obtain ⟨hallowed, -, hfirst, -⟩ := hprofile
  have hoctets : LengthOctets (encodeAll (first :: rest)).length
      (minimalLength (encodeAll (first :: rest)).length) := by
    refine @encodes_tlv tag _ ?_
    show (encodeDer (.constructed tag (first :: rest))).length < 256 ^ 127
    rw [hencode]
    exact hsmall
  have hwhole : subarray bytes 0 bytes.length
      = tag :: (minimalLength (encodeAll (first :: rest)).length ++ encodeAll (first :: rest)) := by
    rw [subarray_whole, ← hencode]
    rfl
  obtain ⟨contentOffset, hheader, hstart, hstop, hcontent⟩ :=
    readHeader_encoded hallowed hoctets hwhole (Nat.le_refl _) (Nat.le_refl _)
  have hlength : (encodeAll (first :: rest)).length = bytes.length - contentOffset := by
    rw [← hcontent, length_subarray (Nat.le_refl _)]
  have hsum : (encodeAll (first :: rest)).length
      = (encodeDer first).length + (encodeAll rest).length := List.length_append
  -- the child ends where its own bytes do
  obtain ⟨stop, hend⟩ : ∃ stop, stop = contentOffset + (encodeDer first).length := ⟨_, rfl⟩
  have hsplit : subarray bytes contentOffset bytes.length
      = subarray bytes contentOffset stop ++ subarray bytes stop bytes.length :=
    subarray_append (by omega) (by omega) (Nat.le_refl _)
  have hfront : (subarray bytes contentOffset stop).length = (encodeDer first).length := by
    rw [length_subarray (by omega)]
    omega
  rw [hcontent] at hsplit
  have hsame : encodeDer first = subarray bytes contentOffset stop :=
    (List.append_inj hsplit hfront.symm).1
  refine ⟨contentOffset, stop, hheader, ?_, hsame⟩
  exact readTlv_encodeDer hfirst (by omega) (by omega) (Nat.le_refl _) (by omega) (by omega)
    hsame.symm

end

/-- A tree's own encoding is canonical; a window is all the reader reads, and it ends further on and
    within; and what a signature is taken over is the slice that the first part was read from. -/
theorem signed_region_is_received :
    (∀ (b : Uint8Array) (node : DerNode), decodeDer b.bytes = .ok node →
      checkDerCanonical (encodeDer node) = true) ∧
    (∀ (depth : Nat) (bytes : Bytes) (offset limit : Nat),
      (∀ bytes', SameWithin bytes bytes' offset limit →
        readTlv depth bytes offset limit = readTlv depth bytes' offset limit) ∧
      ∀ node next, readTlv depth bytes offset limit = .ok (node, next) →
        offset < next ∧ next ≤ limit) ∧
    (∀ (decode : Bytes → Except JsString CanonicalValue) (bytes tbsBytes : Bytes)
      (certificate : X509Certificate),
      decodeX509Certificate decode bytes = .ok (certificate, tbsBytes) →
      ∃ root tbsNode rest contentOffset stop,
        decodeDer bytes = .ok root ∧ root.children = tbsNode :: rest ∧
        readHeader bytes 0 bytes.length = .ok ⟨root.tag, contentOffset, bytes.length⟩ ∧
        readTlv (bytes.length - 1) bytes contentOffset bytes.length = .ok (tbsNode, stop) ∧
        tbsBytes = subarray bytes contentOffset stop) := by
  refine ⟨?_, ?_, ?_⟩
  · intro b node h
    exact checkDerCanonical_encodeDer h
  · intro depth bytes offset limit
    constructor
    · intro bytes' hsame
      exact (readTlv_sameWithin depth).1 offset limit hsame
    · intro node next h
      exact readTlv_next h
  · intro decode bytes tbsBytes certificate h
    have hsize := (decodeX509Certificate_iff.mp h).1
    obtain ⟨tbsNode, outerAlgNode, sigNode, hdecode, hencode, -, rfl⟩ := tree_of_accepted h
    have hprofile := profile_of_decodeDer hdecode
    have hcanonical := canonical_of_accepted hdecode hencode hsize
    have htbs : tbsNode.canonical = tbsNode := by
      have hchildren := congrArg DerNode.children hcanonical
      exact (List.cons.inj hchildren).1
    have hsmall : bytes.length < 256 ^ 127 := Nat.lt_of_le_of_lt hsize (by decide)
    obtain ⟨contentOffset, stop, hheader, hread, hslice⟩ :=
      first_child_read hprofile hsmall hencode
    rw [htbs] at hread
    exact ⟨_, tbsNode, _, contentOffset, stop, hdecode, rfl, hheader, hread, hslice⟩

/-- The shortest certificate is accepted: what is signed is a slice of it, and it is canonical. -/
theorem signed_region_is_received_shortest :
    ∃ bytes certificate contentOffset stop,
      decodeX509Certificate noCbor bytes = .ok (certificate, subarray bytes contentOffset stop) ∧
      checkDerCanonical bytes = true := by
  obtain ⟨certificate, tbsBytes, hok, hdecode⟩ := tree_of_isSome
    (@shortest_profile [1] ed25519Bytes (List.replicate 65 0) [] trivial) rfl (by decide +kernel)
  have hsize := (decodeX509Certificate_iff.mp hok).1
  obtain ⟨root, -, -, contentOffset, stop, -, -, -, -, hslice⟩ :=
    signed_region_is_received.2.2 _ _ _ _ hok
  rw [hslice] at hok
  exact ⟨_, certificate, contentOffset, stop, hok,
    signed_region_is_received.1 ⟨_, Nat.lt_of_le_of_lt hsize (by decide)⟩ _ hdecode⟩

end O2Fabric.X509
