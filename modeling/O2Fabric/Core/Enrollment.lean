/-
  O2Fabric.Core.Enrollment

  What a node sends to be certified, and what a provider answers.
-/

import O2Fabric.Core.Certificate

namespace O2Fabric

/-- The provider's nonce this request spends, with the node's signature over it, or
    none. -/
inductive Freshness
  | answersNoChallenge
  | answer (nonce proof : JsString)
  deriving DecidableEq

structure EnrollmentRequest where
  nodeKey : JsString
  userKey : JsString
  operatorId : JsString
  discoverability : Discoverability
  relayIds : List JsString
  /-- A commitment to the key the node will rotate to next. -/
  nextKeyCommitment : Option JsString := none
  proofOfPossession : JsString
  ownerProof : JsString
  freshness : Freshness
  deriving DecidableEq

/-- A nonce a provider minted, and when it lets go of it. -/
structure EnrollmentChallenge where
  nonce : JsString
  expiresAt : ℚ
  deriving DecidableEq

inductive EnrollmentRefusal
  | badProofOfPossession (nodeKey : JsString)
  | badOwnerProof (userKey : JsString)
  | rateLimited (userKey : JsString) (limit windowMs retryAfterMs : ℚ)
  | issuanceBudgetExhausted (limit windowMs retryAfterMs : ℚ)
  | staleChallenge (ttlMs : ℚ)
  | operatorIdNotDerivable (supplied derived : JsString)
  deriving DecidableEq

inductive EnrollmentResult
  | issued (certificate : NodeCertificate)
  | refused (refusal : EnrollmentRefusal) (reason : JsString)
  deriving DecidableEq

end O2Fabric
