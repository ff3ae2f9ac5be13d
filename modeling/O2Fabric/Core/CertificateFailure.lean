/-
  O2Fabric.Core.CertificateFailure

  Why a certificate does not verify, by kind.  `verifyCertificate` answers the
  kind together with a line to show; the line says what the kind says.
-/

import O2Fabric.Core.ResultAttestation

namespace O2Fabric

/-- What `checkX509Form` refuses. -/
inductive X509FormFailure
  | notHex
  | profileRefused (profile : JsString)
  | mismatch (field envelope presented : JsString)
  | badSignature (nodeKey : JsString)
  deriving DecidableEq

inductive CertificateFailure
  | untrustedIssuer (issuer : JsString)
  | badSignature (nodeKey : JsString)
  | expired (expiresAt now : ℚ)
  | notYetValid (issuedAt now : ℚ)
  | x509 (failure : X509FormFailure)
  deriving DecidableEq

def X509FormFailure.kind : X509FormFailure → JsString
  | .notHex => js "x509-not-hex"
  | .profileRefused _ => js "x509-profile-refused"
  | .mismatch _ _ _ => js "x509-mismatch"
  | .badSignature _ => js "x509-bad-signature"

def CertificateFailure.kind : CertificateFailure → JsString
  | .untrustedIssuer _ => js "untrusted-issuer"
  | .badSignature _ => js "bad-signature"
  | .expired _ _ => js "expired"
  | .notYetValid _ _ => js "not-yet-valid"
  | .x509 failure => failure.kind

def describeX509CertificateFailure : X509FormFailure → JsString
  | .notHex => js "the certificate carries an x509 field that is not lowercase hex of even length"
  | .profileRefused profile =>
    js "the certificate's X.509 form is refused by this profile: " ++ profile
  | .mismatch field envelope presented =>
    js "the certificate's X.509 form disagrees with the envelope about " ++ field
      ++ js ": envelope says " ++ envelope ++ js ", the X.509 form says " ++ presented
  | .badSignature nodeKey =>
    js "the X.509 form for " ++ nodeKey
      ++ js " is not signed by the issuer that signed the envelope"

/-- The checks of a certificate's two signatures. -/
structure CertificateChecks where
  checkX509Form : NodeCertificate → Option X509FormFailure
  /-- The envelope is signed by the issuer it names. -/
  signedByIssuer : NodeCertificate → Bool

/-- The same checks, as what they come to for a reader. -/
def CertificateChecks.signatures (checks : CertificateChecks) : Signatures where
  x509Failure certificate := (checks.checkX509Form certificate).map describeX509CertificateFailure
  signedByIssuer := checks.signedByIssuer
  signedCombine _ _ _ _ := false

/-- The failure of `verifyCertificate`; `none` where the certificate verifies. -/
def certificateFailure (checks : CertificateChecks) (certificate : NodeCertificate)
    (trustedIssuers : List JsString) (now : ℚ) : Option CertificateFailure :=
  if certificate.issuer ∉ trustedIssuers then some (.untrustedIssuer certificate.issuer)
  else
    match checks.checkX509Form certificate with
    | some failure => some (.x509 failure)
    | none =>
      if checks.signedByIssuer certificate = false then some (.badSignature certificate.nodeKey)
      else if now < certificate.issuedAt then some (.notYetValid certificate.issuedAt now)
      else if certificate.expiresAt ≤ now then some (.expired certificate.expiresAt now)
      else none

variable (p : Platform)

/-- The line beside the kind. -/
def CertificateFailure.reason : CertificateFailure → JsString
  | .untrustedIssuer issuer =>
    js "certificate issued by " ++ issuer ++ js ", which is not a pinned provider"
  | .badSignature nodeKey => js "certificate for " ++ nodeKey ++ js " has an invalid signature"
  | .expired expiresAt now =>
    js "certificate expired at " ++ p.numberText (.finite expiresAt) ++ js ", now "
      ++ p.numberText (.finite now)
  | .notYetValid issuedAt now =>
    js "certificate is not valid until " ++ p.numberText (.finite issuedAt) ++ js ", now "
      ++ p.numberText (.finite now)
  | .x509 failure => describeX509CertificateFailure failure

variable {p} {checks : CertificateChecks} {certificate : NodeCertificate}
  {trustedIssuers : List JsString} {now : ℚ}

/-- The kind decides the answer and the line. -/
theorem verifyCertificate_eq :
    verifyCertificate p checks.signatures certificate trustedIssuers now =
      match certificateFailure checks certificate trustedIssuers now with
      | some failure => .error (failure.reason p)
      | none => .ok certificate := by
  have hform : checks.signatures.x509Failure certificate
      = (checks.checkX509Form certificate).map describeX509CertificateFailure := rfl
  have hsigned : checks.signatures.signedByIssuer certificate = checks.signedByIssuer certificate :=
    rfl
  unfold verifyCertificate certificateFailure
  rw [hform, hsigned]
  split
  · rfl
  · cases checks.checkX509Form certificate with
    | some failure => rfl
    | none =>
      dsimp only [Option.map_none]
      by_cases hforged : checks.signedByIssuer certificate = false
      · rw [if_pos hforged, if_pos hforged]
        rfl
      · rw [if_neg hforged, if_neg hforged]
        by_cases hearly : now < certificate.issuedAt
        · rw [if_pos hearly, if_pos hearly]
          rfl
        · rw [if_neg hearly, if_neg hearly]
          split <;> rfl

theorem certificateFailure_eq_none :
    certificateFailure checks certificate trustedIssuers now = none ↔
      certificate.Valid checks.signatures trustedIssuers now := by
  have hverdict := @verifyCertificate_eq plain checks certificate trustedIssuers now
  constructor
  · intro hnone
    rw [hnone] at hverdict
    exact ((verifyCertificate_ok plain checks.signatures).mp hverdict).2
  · intro hvalid
    rw [(verifyCertificate_ok plain checks.signatures).mpr ⟨rfl, hvalid⟩] at hverdict
    cases hfailure : certificateFailure checks certificate trustedIssuers now with
    | none => rfl
    | some failure =>
      rw [hfailure] at hverdict
      cases hverdict

/-- A certificate that was valid can only have expired since. -/
theorem NodeCertificate.Valid.later {later : ℚ}
    (h : certificate.Valid checks.signatures trustedIssuers now) (hlater : now ≤ later) :
    certificateFailure checks certificate trustedIssuers later =
      if certificate.expiresAt ≤ later then some (.expired certificate.expiresAt later)
      else none := by
  have hform : checks.checkX509Form certificate = none := Option.map_eq_none_iff.mp h.formed
  have hsigned : checks.signedByIssuer certificate = true := h.signed
  have hstarted : ¬ later < certificate.issuedAt := not_lt.mpr (h.started.trans hlater)
  unfold certificateFailure
  rw [if_neg (not_not_intro h.pinned), hform]
  dsimp only
  rw [if_neg (by rw [hsigned]; exact Bool.true_eq_false.mp), if_neg hstarted]

end O2Fabric
