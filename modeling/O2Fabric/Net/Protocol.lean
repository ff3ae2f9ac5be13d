/-
  O2Fabric.Net.Protocol

  The requests and responses nodes exchange, as canonical values.  The kinds are
  read one after another, as the source has them; a frame that is none of them,
  or lacks what its kind has to carry, is read as nothing.
-/

import O2Fabric.Core.Canonical
import O2Fabric.Core.Job.CommitReveal
import O2Fabric.Core.Placement
import O2Fabric.Net.Protocol.Values

namespace O2Fabric.Net.Protocol

open O2Fabric.Job (Cost)

/-! ## Messages -/

/-- One unit of work as it is dispatched. -/
structure Task where
  moduleCid : Cid
  inputCid : Cid
  partitionIndex : Nat
  partitionCount : Nat
  label : Option Sovereignty
  ownerId : Option JsString
  moduleRecord : Option NameRecord
  deriving DecidableEq

inductive AgentRequest
  | exec (task : Task) (capability : Option (List Delegation))
  | commit (task : Task) (capability : Option (List Delegation))
  | reveal (handle : JsString)
  | block (cid : Cid)
  | providers (cid : Cid)
  | records (nodeKey : JsString)
  | offer (shardId : JsString)
  | reservations
  | report (outcome : Option StartOutcome) (declined : Option Nat)
  | combine (combineId : JsString) (inputCids : List Cid) (level : Nat)
  | enrol (request : EnrollmentRequest)
  | enrolChallenge
  deriving DecidableEq

inductive ExecutionOutcome
  | ok (output : CanonicalValue) (cost : Cost) (attestation : AttestedResult)
  | failed (reason : JsString)

inductive CommitOutcome
  | ok (digest handle : JsString)
  | failed (reason : JsString)

inductive RevealOutcome
  | ok (nonce : Bytes) (output : CanonicalValue) (cost : Cost) (attestation : AttestedResult)
  | failed (reason : JsString)

inductive AgentResponse
  | exec (outcome : ExecutionOutcome)
  | commit (outcome : CommitOutcome)
  | reveal (outcome : RevealOutcome)
  | block (bytes : Option Bytes)
  | providers (nodeKeys : List JsString)
  | records (records : Option NodeRecords)
  | offer (accepted : Bool) (reason : JsString) (capacity : Option NodeCapacity)
      (standing : OfferStanding)
  | reservations (peerIds : List JsString)
  | report (counts : List OutcomeCount) (declined : Nat)
  | combine (resultCid : Option Cid) (reason : JsString) (attestation : AttestedResult)
  | enrol (result : EnrollmentResult)
  | enrolChallenge (challenge : EnrollmentChallenge)
  | error (reason : JsString)

def MAX_COMMITMENT_HANDLE_CHARS : Nat := 128

def MAX_COMBINE_INPUTS : Nat := 64

def CEREMONY_NONCE_BYTES : Nat := 32

def kindField (kind : String) : JsString × CanonicalValue := (js "kind", .text (js kind))

/-! ## Requests -/

def sovereigntyText : Sovereignty → JsString
  | .pub => js "public"
  | .sovereign => js "sovereign"

def labelFields (task : Task) : List (JsString × CanonicalValue) :=
  match task.label with
  | none => []
  | some .sovereign =>
    (js "label", .text (sovereigntyText .sovereign))
      :: spread (js "ownerId") (task.ownerId.map CanonicalValue.text)
  | some .pub => [(js "label", .text (sovereigntyText .pub))]

def taskFields (kind : String) (task : Task) (capability : Option (List Delegation)) :
    List (JsString × CanonicalValue) :=
  [kindField kind,
    (js "moduleCid", .cid task.moduleCid),
    (js "inputCid", .cid task.inputCid),
    (js "partitionIndex", whole task.partitionIndex),
    (js "partitionCount", whole task.partitionCount)]
    ++ labelFields task
    ++ spread (js "moduleRecord") (task.moduleRecord.map nameRecordToValue)
    ++ spread (js "capability")
      (capability.map fun links => .list (links.map delegationToValue))

def taskFrame (kind : String) (task : Task) (capability : Option (List Delegation)) :
    CanonicalValue :=
  .record (taskFields kind task capability)

def encodeRequest : AgentRequest → CanonicalValue
  | .block cid => .record [kindField "block", (js "cid", .cid cid)]
  | .providers cid => .record [kindField "providers", (js "cid", .cid cid)]
  | .records nodeKey => .record [kindField "records", (js "nodeKey", .text nodeKey)]
  | .offer shardId => .record [kindField "offer", (js "shardId", .text shardId)]
  | .reservations => .record [kindField "reservations"]
  | .report none declined =>
    .record [kindField "report", (js "declined", whole (declined.getD 0))]
  | .report (some outcome) declined =>
    .record [kindField "report", (js "declined", whole (declined.getD 0)),
      (js "browser", .text outcome.browser), (js "result", .text (resultText outcome.result))]
  | .combine combineId inputCids level =>
    .record [kindField "combine", (js "combineId", .text combineId),
      (js "inputCids", .list (inputCids.map CanonicalValue.cid)), (js "level", whole level)]
  | .enrol request =>
    .record [kindField "enrol", (js "request", enrollmentRequestToValue request)]
  | .enrolChallenge => .record [kindField "enrol-challenge"]
  | .reveal handle => .record [kindField "reveal", (js "handle", .text handle)]
  | .commit task capability => taskFrame "commit" task capability
  | .exec task capability => taskFrame "exec" task capability

/-- `public`, or `sovereign` with an owner that is named. -/
def asLabel (fields : List (JsString × CanonicalValue)) :
    Option (Sovereignty × Option JsString) :=
  let label := asText (field fields (js "label"))
  if label = some (js "sovereign") then do
    let ownerId ← asText (field fields (js "ownerId"))
    if ownerId.length = 0 then none else return (.sovereign, some ownerId)
  else if label = some (js "public") then some (.pub, none)
  else none

/-- An absent chain is not an empty one. -/
def asCapability : Option CanonicalValue → Option (Option (List Delegation))
  | none => some none
  | some value => do
    let entries ← asList (some value)
    let links ← entries.mapM parseDelegation
    return some links

def parseTaskFrame (fields : List (JsString × CanonicalValue)) :
    Option (Task × Option (List Delegation)) := do
  let moduleCid ← asCid (field fields (js "moduleCid"))
  let inputCid ← asCid (field fields (js "inputCid"))
  let partitionIndex ← asIndex (field fields (js "partitionIndex"))
  let partitionCount ← asIndex (field fields (js "partitionCount"))
  if partitionCount = 0 ∨ partitionCount ≤ partitionIndex then none
  else do
    let (label, ownerId) ← asLabel fields
    let moduleRecord ← optional parseNameRecord (field fields (js "moduleRecord"))
    let capability ← asCapability (field fields (js "capability"))
    return ({ moduleCid, inputCid, partitionIndex, partitionCount, label := some label, ownerId,
              moduleRecord }, capability)

def parseReport (fields : List (JsString × CanonicalValue)) : AgentRequest :=
  let declined := some (asDeclined (field fields (js "declined")))
  match asText (field fields (js "browser")), asStartResult (field fields (js "result")) with
  | some browser, some result =>
    if isStartBrowserLabel browser then .report (some ⟨browser, result⟩) declined
    else .report none declined
  | _, _ => .report none declined

def parseCombine (fields : List (JsString × CanonicalValue)) : Option AgentRequest := do
  let combineId ← asText (field fields (js "combineId"))
  let level ← asIndex (field fields (js "level"))
  let inputCids ← asList (field fields (js "inputCids"))
  if combineId.length = 0 ∨ level < 1 then none
  -- the number of inputs is bounded before any is read
  else if inputCids.length < 2 ∨ MAX_COMBINE_INPUTS < inputCids.length then none
  else do
    let parsed ← inputCids.mapM fun element => asCid (some element)
    return .combine combineId parsed level

/-- A handle as a node mints them. -/
def asHandleText (value : Option CanonicalValue) : Option JsString := do
  let handle ← asText value
  if handle.length = 0 ∨ MAX_COMMITMENT_HANDLE_CHARS < handle.length then none
  else return handle

def parseRequest (body : CanonicalValue) : Option AgentRequest := do
  let fields ← asRecord body
  let kind ← asText (field fields (js "kind"))
  if kind = js "block" then do
    let cid ← asCid (field fields (js "cid"))
    return .block cid
  else if kind = js "providers" then do
    let cid ← asCid (field fields (js "cid"))
    return .providers cid
  else if kind = js "records" then do
    let nodeKey ← asText (field fields (js "nodeKey"))
    return .records nodeKey
  else if kind = js "offer" then do
    let shardId ← asText (field fields (js "shardId"))
    return .offer shardId
  else if kind = js "reservations" then some .reservations
  else if kind = js "report" then some (parseReport fields)
  else if kind = js "combine" then parseCombine fields
  else if kind = js "enrol" then do
    let request ← parseEnrollmentRequest (field fields (js "request"))
    return .enrol request
  else if kind = js "enrol-challenge" then some .enrolChallenge
  else if kind = js "reveal" then do
    let handle ← asHandleText (field fields (js "handle"))
    return .reveal handle
  else if kind = js "commit" then do
    let (task, capability) ← parseTaskFrame fields
    return .commit task capability
  else if kind ≠ js "exec" then none
  else do
    let (task, capability) ← parseTaskFrame fields
    return .exec task capability

/-! ## Responses -/

def costFields (cost : Cost) : List (JsString × CanonicalValue) :=
  [(js "fuelUsed", figure cost.fuel), (js "execMs", figure cost.execMs),
    (js "hostCalls", figure cost.hostCalls), (js "peakMemoryPages", figure cost.peakMemoryPages)]

def standingText : OfferStanding → JsString
  | .decliningThisOffer => js "declining-this-offer"
  | .decliningAllWork => js "declining-all-work"

def encodeResponse : AgentResponse → CanonicalValue
  | .error reason => .record [kindField "error", (js "reason", .text reason)]
  | .block none => .record [kindField "block", (js "found", .bool false)]
  | .block (some bytes) =>
    .record [kindField "block", (js "found", .bool true), (js "bytes", .bytes bytes)]
  | .providers nodeKeys => .record [kindField "providers", (js "nodeKeys", keyList nodeKeys)]
  | .records none => .record [kindField "records", (js "found", .bool false)]
  | .records (some records) =>
    .record [kindField "records", (js "found", .bool true),
      (js "certificate", certificateToValue records.certificate),
      (js "capabilities", capabilitiesToValue records.capabilities)]
  | .offer accepted reason none standing =>
    .record [kindField "offer", (js "accepted", .bool accepted), (js "reason", .text reason),
      (js "bounded", .bool false), (js "standing", .text (standingText standing))]
  | .offer accepted reason (some capacity) standing =>
    .record [kindField "offer", (js "accepted", .bool accepted), (js "reason", .text reason),
      (js "bounded", .bool true), (js "slots", figure capacity.slots),
      (js "inFlight", figure capacity.inFlight), (js "standing", .text (standingText standing))]
  | .enrol result => enrollmentResultToValue result
  | .enrolChallenge challenge =>
    .record [kindField "enrol-challenge", (js "nonce", .text challenge.nonce),
      (js "expiresAt", figure challenge.expiresAt)]
  | .reservations peerIds => .record [kindField "reservations", (js "peerIds", keyList peerIds)]
  | .combine none reason _ =>
    .record [kindField "combine", (js "found", .bool false), (js "reason", .text reason)]
  | .combine (some resultCid) reason attestation =>
    .record [kindField "combine", (js "found", .bool true), (js "resultCid", .cid resultCid),
      (js "reason", .text reason), (js "attestation", attestationToValue attestation)]
  | .report counts declined =>
    .record [kindField "report", (js "declined", whole declined),
      (js "counts", .list (counts.map countToValue))]
  | .commit (.ok digest handle) =>
    .record [kindField "commit", (js "ok", .bool true), (js "digest", .text digest),
      (js "handle", .text handle)]
  | .commit (.failed reason) =>
    .record [kindField "commit", (js "ok", .bool false), (js "reason", .text reason)]
  | .reveal (.ok nonce output cost attestation) =>
    .record ([kindField "reveal", (js "ok", .bool true), (js "nonce", .bytes nonce),
      (js "output", output)] ++ costFields cost
      ++ [(js "attestation", attestationToValue attestation)])
  | .reveal (.failed reason) =>
    .record [kindField "reveal", (js "ok", .bool false), (js "reason", .text reason)]
  | .exec (.ok output cost attestation) =>
    .record ([kindField "exec", (js "ok", .bool true), (js "output", output)] ++ costFields cost
      ++ [(js "attestation", attestationToValue attestation)])
  | .exec (.failed reason) =>
    .record [kindField "exec", (js "ok", .bool false), (js "reason", .text reason)]

/-- A figure no older than the field: one that is absent is zero. -/
def parseExecMs : Option CanonicalValue → Option ℚ
  | none => some 0
  | some value => do
    let x ← asFiniteNumber (some value)
    if x < 0 then none else return x

def parseGuestCount : Option CanonicalValue → Option ℚ
  | none => some 0
  | some value => do
    let x ← asFiniteNumber (some value)
    if isSafeInteger x = false ∨ x < 0 then none else return x

/-- The figures of a run. -/
def parseCost (fields : List (JsString × CanonicalValue)) : Option Cost := do
  let fuel ← asFiniteNumber (field fields (js "fuelUsed"))
  let execMs ← parseExecMs (field fields (js "execMs"))
  let hostCalls ← parseGuestCount (field fields (js "hostCalls"))
  let peakMemoryPages ← parseGuestCount (field fields (js "peakMemoryPages"))
  return { fuel, execMs, hostCalls, peakMemoryPages }

def asBytes : Option CanonicalValue → Option Bytes
  | some (.bytes bytes) => some bytes
  | _ => none

/-- Whether a flag of the record is set. -/
def flagged (fields : List (JsString × CanonicalValue)) (name : String) (b : Bool) : Prop :=
  asBoolean (field fields (js name)) = some b

instance (fields : List (JsString × CanonicalValue)) (name : String) (b : Bool) :
    Decidable (flagged fields name b) :=
  inferInstanceAs (Decidable (_ = _))

def refusalReason (fields : List (JsString × CanonicalValue)) : JsString :=
  stated (js "unspecified") (field fields (js "reason"))

def parseNodeRecords (fields : List (JsString × CanonicalValue)) : Option NodeRecords := do
  let certificate ← parseCertificate (field fields (js "certificate"))
  let capabilities ← parseCapabilities (field fields (js "capabilities"))
  return { certificate, capabilities }

def parseOffer (fields : List (JsString × CanonicalValue)) : Option AgentResponse := do
  let accepted ← asBoolean (field fields (js "accepted"))
  let reason := stated (js "") (field fields (js "reason"))
  let standing : OfferStanding :=
    if asText (field fields (js "standing")) = some (js "declining-all-work") then .decliningAllWork
    else .decliningThisOffer
  if ¬flagged fields "bounded" true then return .offer accepted reason none standing
  else do
    let slots ← asIndex (field fields (js "slots"))
    let inFlight ← asIndex (field fields (js "inFlight"))
    return .offer accepted reason (some ⟨slots, inFlight⟩) standing

def parseCommitOutcome (fields : List (JsString × CanonicalValue)) : Option CommitOutcome :=
  if flagged fields "ok" true then do
    let digest ← asText (field fields (js "digest"))
    let handle ← asHandleText (field fields (js "handle"))
    if digest.length = 0 then none else return .ok digest handle
  else if ¬flagged fields "ok" false then none
  else some (.failed (refusalReason fields))

def parseRevealOutcome (fields : List (JsString × CanonicalValue)) : Option RevealOutcome :=
  if flagged fields "ok" true then do
    let nonce ← asBytes (field fields (js "nonce"))
    let output ← field fields (js "output")
    let cost ← parseCost fields
    let attestation ← parseAttestation (field fields (js "attestation"))
    if nonce.length ≠ CEREMONY_NONCE_BYTES then none else return .ok nonce output cost attestation
  else if ¬flagged fields "ok" false then none
  else some (.failed (refusalReason fields))

def parseExecutionOutcome (fields : List (JsString × CanonicalValue)) : Option ExecutionOutcome :=
  if flagged fields "ok" true then do
    let output ← field fields (js "output")
    let cost ← parseCost fields
    let attestation ← parseAttestation (field fields (js "attestation"))
    return .ok output cost attestation
  else if ¬flagged fields "ok" false then none
  else some (.failed (refusalReason fields))

def parseCombined (fields : List (JsString × CanonicalValue)) : Option AgentResponse :=
  if ¬flagged fields "found" true then some (.combine none (refusalReason fields) .signedByNobody)
  else do
    let resultCid ← asCid (field fields (js "resultCid"))
    let attestation ← parseAttestation (field fields (js "attestation"))
    return .combine (some resultCid) (refusalReason fields) attestation

def parseChallenge (fields : List (JsString × CanonicalValue)) : Option EnrollmentChallenge := do
  let nonce ← asText (field fields (js "nonce"))
  let expiresAt ← asFiniteNumber (field fields (js "expiresAt"))
  if nonce.length = 0 then none else return { nonce, expiresAt }

def parseResponse (body : CanonicalValue) : Option AgentResponse := do
  let fields ← asRecord body
  let kind ← asText (field fields (js "kind"))
  if kind = js "error" then some (.error (refusalReason fields))
  else if kind = js "block" then
    if ¬flagged fields "found" true then some (.block none)
    else do
      let bytes ← asBytes (field fields (js "bytes"))
      return .block (some bytes)
  else if kind = js "providers" then do
    let nodeKeys ← asKeyList (field fields (js "nodeKeys"))
    return .providers nodeKeys
  else if kind = js "records" then
    if ¬flagged fields "found" true then some (.records none)
    else do
      let records ← parseNodeRecords fields
      return .records (some records)
  else if kind = js "offer" then parseOffer fields
  else if kind = js "reservations" then do
    let peerIds ← asKeyList (field fields (js "peerIds"))
    return .reservations peerIds
  else if kind = js "enrol" then do
    let result ← parseEnrollmentResult fields
    return .enrol result
  else if kind = js "enrol-challenge" then do
    let challenge ← parseChallenge fields
    return .enrolChallenge challenge
  else if kind = js "report" then do
    let counts ← parseCounts (field fields (js "counts"))
    return .report counts (asDeclined (field fields (js "declined")))
  else if kind = js "combine" then parseCombined fields
  else if kind = js "commit" then do
    let outcome ← parseCommitOutcome fields
    return .commit outcome
  else if kind = js "reveal" then do
    let outcome ← parseRevealOutcome fields
    return .reveal outcome
  else if kind = js "exec" then do
    let outcome ← parseExecutionOutcome fields
    return .exec outcome
  else none

/-! ## Stored records -/

def nodeRecordsToValue (records : NodeRecords) : CanonicalValue :=
  .record [(js "certificate", certificateToValue records.certificate),
    (js "capabilities", capabilitiesToValue records.capabilities)]

/-- Throws where an extension holds what has no encoding. -/
def encodeNodeRecords (codec : CanonicalCodec) (records : NodeRecords) : Except JsString Bytes :=
  codec.encode (nodeRecordsToValue records)

def decodeNodeRecords (codec : CanonicalCodec) (bytes : Bytes) : Option NodeRecords := do
  let value ← codec.decode bytes
  let fields ← asRecord value
  parseNodeRecords fields

end O2Fabric.Net.Protocol
