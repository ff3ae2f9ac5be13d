/-
  O2Fabric.Core.ResultAttestation

  `verifyCertificate` and `verifyCombineAttestation`.  The signatures and the
  X.509 form of a certificate are a parameter: what the checks of them answer.
-/

import O2Fabric.Core.Platform

namespace O2Fabric

/-- The checks of signatures, and of a certificate's X.509 form. -/
structure Signatures where
  /-- `checkX509Form`, described. -/
  x509Failure : NodeCertificate → Option JsString
  /-- The envelope is signed by the issuer it names. -/
  signedByIssuer : NodeCertificate → Bool
  /-- The signature is the node key's, over the merge of these inputs to this result. -/
  signedCombine : (nodeKey : JsString) → (inputCids : List Cid) → (resultCid : Cid) →
    (signature : JsString) → Bool

variable (p : Platform) (sigs : Signatures)

/-- Verify a node certificate against pinned provider keys. -/
def verifyCertificate (certificate : NodeCertificate) (trustedIssuers : List JsString) (now : ℚ) :
    Except JsString NodeCertificate :=
  if certificate.issuer ∉ trustedIssuers then
    .error (js "certificate issued by " ++ certificate.issuer
      ++ js ", which is not a pinned provider")
  else
    match sigs.x509Failure certificate with
    | some reason => .error reason
    | none =>
      if sigs.signedByIssuer certificate = false then
        .error (js "certificate for " ++ certificate.nodeKey ++ js " has an invalid signature")
      else if now < certificate.issuedAt then
        .error (js "certificate is not valid until "
          ++ p.numberText (.finite certificate.issuedAt) ++ js ", now "
          ++ p.numberText (.finite now))
      else if certificate.expiresAt ≤ now then
        .error (js "certificate expired at " ++ p.numberText (.finite certificate.expiresAt)
          ++ js ", now " ++ p.numberText (.finite now))
      else .ok certificate

/-- The issuer is pinned, both signatures' forms stand, and the time is right. -/
structure NodeCertificate.Valid (certificate : NodeCertificate) (trustedIssuers : List JsString)
    (now : ℚ) : Prop where
  pinned : certificate.issuer ∈ trustedIssuers
  formed : sigs.x509Failure certificate = none
  signed : sigs.signedByIssuer certificate = true
  started : certificate.issuedAt ≤ now
  unexpired : now < certificate.expiresAt

theorem verifyCertificate_ok {certificate checked : NodeCertificate}
    {trustedIssuers : List JsString} {now : ℚ} :
    verifyCertificate p sigs certificate trustedIssuers now = .ok checked ↔
      checked = certificate ∧ certificate.Valid sigs trustedIssuers now := by
  constructor
  · intro h
    unfold verifyCertificate at h
    split at h
    · cases h
    · next hpinned =>
      split at h
      · cases h
      · next hformed =>
        split at h
        · cases h
        · next hsigned =>
          split at h
          · cases h
          · next hstarted =>
            split at h
            · cases h
            · next hunexpired =>
              cases h
              exact ⟨rfl, not_not.mp hpinned, hformed, Bool.eq_true_of_not_eq_false hsigned,
                not_lt.mp hstarted, not_le.mp hunexpired⟩
  · rintro ⟨rfl, hvalid⟩
    unfold verifyCertificate
    rw [if_neg (not_not_intro hvalid.pinned), hvalid.formed]
    dsimp only
    rw [if_neg (by rw [hvalid.signed]; exact Bool.true_eq_false.mp), if_neg (not_lt.mpr hvalid.started),
      if_neg (not_le.mpr hvalid.unexpired)]

/-- Verify a node's statement about a combine, against pinned provider keys. -/
def verifyCombineAttestation (attested : AttestedResult) (inputCids : List Cid) (resultCid : Cid)
    (trustedIssuers : List JsString) (now : ℚ) : Except JsString NodeCertificate :=
  match attested with
  | .signedByNobody =>
    .error (js "the executor stated that it signs nothing — there is no attestation to check")
  | .signed attestation =>
    match verifyCertificate p sigs attestation.certificate trustedIssuers now with
    | .error reason =>
      .error (js "the attesting node's certificate did not verify: " ++ reason)
    | .ok certificate =>
      if sigs.signedCombine certificate.nodeKey inputCids resultCid attestation.signature then
        .ok certificate
      else
        .error (js "node " ++ certificate.nodeKey ++ js " did not sign " ++ resultCid.toText
          ++ js " as the merge of " ++ decimal inputCids.length
          ++ js " named inputs in that order")

/-- A statement by a certified node key over this merge. -/
structure StatesMerge (attested : AttestedResult) (inputCids : List Cid) (resultCid : Cid)
    (trustedIssuers : List JsString) (now : ℚ) (certificate : NodeCertificate) : Prop where
  signature : ∃ signature, attested = .signed ⟨certificate, signature⟩ ∧
    sigs.signedCombine certificate.nodeKey inputCids resultCid signature = true
  valid : certificate.Valid sigs trustedIssuers now

theorem verifyCombineAttestation_ok {attested : AttestedResult} {inputCids : List Cid}
    {resultCid : Cid} {trustedIssuers : List JsString} {now : ℚ} {checked : NodeCertificate} :
    verifyCombineAttestation p sigs attested inputCids resultCid trustedIssuers now = .ok checked ↔
      StatesMerge sigs attested inputCids resultCid trustedIssuers now checked := by
  cases attested with
  | signedByNobody =>
    constructor
    · intro h
      cases h
    · rintro ⟨⟨signature, h, -⟩, -⟩
      cases h
  | signed attestation =>
    obtain ⟨certificate, signature⟩ := attestation
    constructor
    · intro h
      unfold verifyCombineAttestation at h
      dsimp only at h
      cases hcertified : verifyCertificate p sigs certificate trustedIssuers now with
      | error reason =>
        rw [hcertified] at h
        cases h
      | ok found =>
        obtain ⟨rfl, hvalid⟩ := (verifyCertificate_ok p sigs).mp hcertified
        rw [hcertified] at h
        dsimp only at h
        split at h
        · next hsigned =>
          cases h
          exact ⟨⟨signature, rfl, hsigned⟩, hvalid⟩
        · cases h
    · rintro ⟨⟨signature', h, hsigned⟩, hvalid⟩
      cases h
      have hcertified := (verifyCertificate_ok p sigs).mpr ⟨rfl, hvalid⟩
      unfold verifyCombineAttestation
      dsimp only
      rw [hcertified]
      dsimp only
      rw [if_pos hsigned]

end O2Fabric
