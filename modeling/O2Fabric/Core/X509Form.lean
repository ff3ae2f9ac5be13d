/-
  O2Fabric.Core.X509Form

  `checkX509Form` and `verifyCertificate` in full: the X.509 form decoded and
  compared with the envelope, and both signatures.

  A step that throws answers `none`.  Texts of numbers are the platform's.
-/

import O2Fabric.Core.CertificateFailure
import O2Fabric.Core.DagCbor
import O2Fabric.Core.X509Encode

namespace O2Fabric.X509

/-- What is compared of one field: its name, what the envelope says and what the form says. -/
structure Disagreement where
  field : JsString
  envelope : JsString
  presented : JsString
  deriving DecidableEq

/-- `' '`. -/
def BLANK : CodeUnit := 0x20

def discoverabilityText : Discoverability → JsString
  | .seed => js "seed"
  | .viaRelay => js "via-relay"

/-- The fields that an X.509 form carries. -/
def fieldsOf (certificate : NodeCertificate) : X509EncodableFields where
  nodeKey := certificate.nodeKey
  userKey := certificate.userKey
  operatorId := certificate.operatorId
  discoverability := certificate.discoverability
  relayIds := certificate.relayIds
  issuedAt := certificate.issuedAt
  expiresAt := certificate.expiresAt
  issuer := certificate.issuer

/-- The bytes that a provider signs to make a certificate, `none` where they cannot be encoded. -/
def payloadOf (codec : DagCbor) (certificate : NodeCertificate) : Option Bytes :=
  codec.encodeCanonical (.record (
    [(js "nodeKey", .text certificate.nodeKey),
      (js "userKey", .text certificate.userKey),
      (js "operatorId", .text certificate.operatorId),
      (js "discoverability", .text (discoverabilityText certificate.discoverability)),
      (js "relayIds", .list ((certificate.relayIds.insertionSort (· ≤ ·)).map .text)),
      (js "issuedAt", .number (.finite certificate.issuedAt)),
      (js "expiresAt", .number (.finite certificate.expiresAt)),
      (js "issuer", .text certificate.issuer)]
    -- left out where there is none
    ++ certificate.x509.toList.map (fun form => (js "x509", .text form))
    ++ certificate.nextKeyCommitment.toList.map fun commitment =>
        (js "nextKeyCommitment", .text commitment)))

section

variable (p : Platform) (decode : Bytes → Except JsString CanonicalValue)
  -- `ed25519.verify(signature, message, key)`, `false` where it throws
  (verify : (signature : Bytes) → (message : Bytes) → (key : Bytes) → Bool)

/-- What the form says beside what the envelope says, in the order in which they are compared. -/
def comparisons (certificate : NodeCertificate) (presented : X509Certificate) :
    List Disagreement :=
  let second (ms : ℚ) : JsString := p.numberText (.finite (wholeSecond ms))
  [⟨js "subjectPublicKey", certificate.nodeKey, presented.subjectPublicKey⟩,
    ⟨js "subject commonName", certificate.nodeKey, presented.subjectCommonName⟩,
    ⟨js "issuer commonName", certificate.issuer, presented.issuerCommonName⟩,
    ⟨js "userKey", certificate.userKey, presented.userKey⟩,
    ⟨js "operatorId", certificate.operatorId, presented.operatorId⟩,
    ⟨js "discoverability", discoverabilityText certificate.discoverability,
      discoverabilityText presented.discoverability⟩,
    ⟨js "relayIds", join BLANK (certificate.relayIds.insertionSort (· ≤ ·)),
      join BLANK presented.relayIds⟩,
    ⟨js "notBefore", second certificate.issuedAt, p.numberText (.finite presented.notBefore)⟩,
    ⟨js "notAfter", second certificate.expiresAt, p.numberText (.finite presented.notAfter)⟩]

/-- The first comparison that fails. -/
def disagreement (certificate : NodeCertificate) (presented : X509Certificate) :
    Option Disagreement :=
  (comparisons p certificate presented).find? fun d => decide (d.envelope ≠ d.presented)

/-- The form's bytes compared with what the envelope would be written as, and then its signature. -/
def checkTbsBytes (certificate : NodeCertificate) (presented : X509Certificate)
    (tbsBytes : Bytes) : Option (Option X509FormFailure) := do
  let sorted := certificate.relayIds.insertionSort (· ≤ ·)
  let expected ← encodeX509Tbs { fieldsOf certificate with relayIds := sorted }
  if toHex expected ≠ toHex tbsBytes then
    return some (.mismatch (js "tbsCertificate bytes")
      (decimal expected.length ++ js " bytes re-encoded from the envelope")
      (decimal tbsBytes.length ++ js " bytes presented"))
  else if verify (fromHex presented.signature) tbsBytes (fromHex certificate.issuer) then
    return none
  else return some (.badSignature certificate.nodeKey)

/-- Why the X.509 form is refused; a certificate that has none is not. -/
def checkX509Form (certificate : NodeCertificate) : Option (Option X509FormFailure) :=
  match certificate.x509 with
  | none => some none
  | some x509 =>
    if isEvenLowerHex x509 = false then some (some .notHex)
    else
      match decodeX509Certificate decode (fromHex x509) with
      | .error failure => some (some (.profileRefused (describeX509Failure failure)))
      | .ok (presented, tbsBytes) =>
        match disagreement p certificate presented with
        | some d => some (some (.mismatch d.field d.envelope d.presented))
        | none => checkTbsBytes verify certificate presented tbsBytes

/-- Verify a certificate against pinned providers: why it is refused, and `none` within where it is
    not. -/
def verifyCertificate (codec : DagCbor) (certificate : NodeCertificate)
    (trustedIssuers : List JsString) (now : ℚ) : Option (Option CertificateFailure) :=
  if certificate.issuer ∉ trustedIssuers then some (some (.untrustedIssuer certificate.issuer))
  else
    match checkX509Form p decode verify certificate with
    | none => none
    | some (some failure) => some (some (.x509 failure))
    | some none => do
      let payload ← payloadOf codec certificate
      return certificateFailure
        { checkX509Form := fun _ => none
          signedByIssuer := fun certificate =>
            verify (fromHex certificate.signature) payload (fromHex certificate.issuer) }
        certificate trustedIssuers now

end

/-! ## Signing -/

structure SigningKey (verify : (signature : Bytes) → (message : Bytes) → (key : Bytes) → Bool) where
  publicKey : Bytes
  sign : (message : Bytes) → Bytes
  publicKey_length : publicKey.length = 32
  sign_length : ∀ message, (sign message).length = 64
  verifies : ∀ message, verify (sign message) message publicKey = true

variable {verify : (signature : Bytes) → (message : Bytes) → (key : Bytes) → Bool}

/-- The X.509 form of a certificate, signed; `none` where it cannot be encoded. -/
def x509FormOf (key : SigningKey verify) (certificate : NodeCertificate) : Option Bytes := do
  let tbs ← encodeX509Tbs (fieldsOf certificate)
  encodeX509Certificate (fieldsOf certificate) (key.sign tbs)

end O2Fabric.X509
