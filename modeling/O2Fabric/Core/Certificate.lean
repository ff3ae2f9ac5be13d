/-
  O2Fabric.Core.Certificate

  What a provider states about a node, and what a node states about a result it
  produced.  Keys, issuers and signatures are the hex strings the source holds.
-/

import O2Fabric.Js.Text
import Mathlib.Data.Rat.Defs

namespace O2Fabric

inductive Discoverability
  | seed
  | viaRelay
  deriving DecidableEq

/-- A provider's signed statement about one node. -/
structure NodeCertificate where
  nodeKey : JsString
  userKey : JsString
  operatorId : JsString
  discoverability : Discoverability
  relayIds : List JsString
  issuedAt : ℚ
  expiresAt : ℚ
  issuer : JsString
  signature : JsString
  /-- The same statement as an X.509 certificate. -/
  x509 : Option JsString := none
  /-- A commitment to the key the node will rotate to next. -/
  nextKeyCommitment : Option JsString := none
  deriving DecidableEq

/-- A node's signed statement about one result. -/
structure ResultAttestation where
  certificate : NodeCertificate
  signature : JsString
  deriving DecidableEq

/-- A signed statement, or the statement that the node signs nothing. -/
inductive AttestedResult
  | signedByNobody
  | signed (attestation : ResultAttestation)
  deriving DecidableEq

end O2Fabric
