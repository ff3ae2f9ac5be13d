/-
  O2Fabric.Net.Agent.State

  A serving node.  Each request it receives is a thread of its own: the handler
  runs from one `await` to the next, and then the endpoint sends the reply.  The
  slot table, the egress tap, the durable set of sovereign addresses and the
  commitments pending are shared.

  What the node calls and does not define (its executor, its authorizer, its
  stores, its codec) answers through the events of a run, so each may return,
  refuse or fail at every call.
-/

import O2Fabric.Core.Capacity
import O2Fabric.Core.Job.CommitReveal
import O2Fabric.Lib.Threads
import O2Fabric.Net.CommitStore
import O2Fabric.Net.Egress

namespace O2Fabric.Net

open Job Threads

/-! ## The wire -/

/-- The requests that touch nothing but an index, a ledger or an authority. -/
inductive OtherRequest
  | providers
  | records
  | reservations
  | report
  | enrol
  | enrolChallenge
  deriving DecidableEq

inductive AgentRequest
  | exec (task : Task)
  | commit (task : Task)
  | reveal (handle : JsString)
  | block (cid : Cid)
  | offer (shardId : JsString)
  | combine (combineId : JsString) (inputCids : List Cid) (level : Nat)
  | other (request : OtherRequest)

inductive AgentResponse
  | exec (outcome : ExecutionOutcome CanonicalValue)
  | commit (outcome : CommitOutcome)
  | reveal (outcome : RevealOutcome)
  | block (bytes : Option Bytes)
  | offer (accepted : Bool) (reason : JsString) (capacity : Option NodeCapacity)
      (standing : OfferStanding)
  | combine (resultCid : Option Cid) (reason : JsString) (attestation : AttestedResult)
  | other (request : OtherRequest) (answer : CanonicalValue)
  | error (reason : JsString)

/-- A reply body: a response, or the shape of a handler that threw or of a reply
    that would not encode. -/
inductive ReplyBody
  | response (response : AgentResponse)
  | failed (text : JsString)

/-! ## What the node calls -/

/-- Something thrown.  Where its text is asked for, that may throw in turn
    (`String(x)` of an object without a prototype does): `undescribable` carries
    what the second error says. -/
inductive Cause
  | described (text : JsString)
  | undescribable (text : JsString)

/-- What a read of a store comes to. -/
inductive Found
  | found (bytes : Bytes)
  | missing
  | rejected (cause : Cause)

/-- What the authorizer says. -/
inductive Verdict
  | admits
  | refuses (reason : JsString)
  | threw (cause : Cause)

/-- What the calls before the executor come to: the authorizer's, and the dispatch
    listener's, which may throw. -/
structure Calls where
  verdict : Verdict
  listener : Option Cause

/-- What the pause control answers.  `broken` is an answer that is no boolean, by
    what it is described as. -/
inductive Pause
  | running
  | stopped
  | broken (described : JsString)
  | threw (cause : Cause)

/-- What the executor comes to. -/
inductive Ran
  | ok (output : CanonicalValue) (cost : Cost) (attestation : AttestedResult)
  | failed (reason : JsString)
  | threw (cause : Cause)

/-! ## The node's configuration -/

/-- `encodeBody` is the canonical encoding of a reply, `none` where the codec
    refuses; `encodeFrame` that of the frame around it, with the error's text.
    `decode` is `none` where it throws. -/
structure AgentOptions where
  nodeId : JsString
  capacity : Option LocalCapacity
  capacity_fresh : ∀ cap, capacity = some cap → cap.inFlight = ∅
  /-- Whether there is an egress tap; without one the node holds no registrations. -/
  taps : Bool
  /-- Whether the tap comes with a durable set of sovereign addresses. -/
  remembers : Bool
  pauses : Bool
  /-- `fabricCombiner`. -/
  combiner : List CanonicalValue → CanonicalValue
  /-- What is signed about a merge. -/
  attest : List Cid → Cid → AttestedResult
  encodeBody : ReplyBody → Option Bytes
  encodeFrame : Nat → ReplyBody → Except JsString Bytes
  decode : Bytes → Option CanonicalValue

/-- A combine as the node is asked for it. -/
structure CombineWork where
  from_ : JsString
  combineId : JsString
  inputCids : List Cid
  level : Nat

/-- A dispatch that was admitted.  `handle` is the name claimed for a commitment;
    without one it is an `exec`. -/
structure Work where
  from_ : JsString
  task : Task
  handle : Option JsString

def slotKey (task : Task) : JsString :=
  task.inputCid.toText ++ js ":" ++ decimal task.partitionIndex

def combineKey (inputCids : List Cid) : JsString :=
  js "combine:" ++ join COMMA (inputCids.map Cid.toText)

/-! ## What a request comes to -/

/-- Where the value of a reply comes from.  `recorded` says whether a stored block
    was in the durable set when it was handed out. -/
inductive Source
  | computed (computation : Nat)
  | stored (cid : Cid) (recorded : Bool)
  deriving DecidableEq

/-- How a reply ended. -/
inductive Fate
  /-- The transport was handed the frame, and its promise settled. -/
  | settled
  /-- The endpoint had closed. -/
  | abandoned
  /-- Neither the reply nor the refusal in its place could be encoded. -/
  | unencodable
  deriving DecidableEq

/-- Where the handling of one request stands. -/
inductive Phase
  | absent
  /-- Awaiting the block's bytes. -/
  | reading (from_ : JsString) (cid : Cid)
  /-- Awaiting an index, a ledger or an authority. -/
  | looking (from_ : JsString) (request : OtherRequest)
  /-- Admitted, awaiting the local store for the hold to take. -/
  | holding (work : Work)
  | executing (work : Work) (hold : Option Nat) (computation : Nat)
  /-- Awaiting the digest of a committed answer. -/
  | sealing (work : Work) (handle : JsString) (output : CanonicalValue) (cost : Cost)
      (attestation : AttestedResult) (computation : Nat)
  /-- Admitted, awaiting the next input of a combine; those before it were read. -/
  | combining (work : CombineWork) (inputs : List CanonicalValue)
  /-- Awaiting the address of the merged value. -/
  | merging (work : CombineWork) (merged : CanonicalValue) (computation : Nat)
  /-- Awaiting the store for the merged value. -/
  | storing (work : CombineWork) (resultCid : Cid) (computation : Nat)
  /-- The handler's promise has settled. -/
  | answered (from_ : JsString) (body : ReplyBody) (afterSent : Option Nat)
  /-- Awaiting the transport. -/
  | sending (afterSent : Option Nat)
  | done (fate : Fate)

/-- The key a request holds a slot under. -/
def Phase.slot : Phase → Option JsString
  | .holding work | .executing work _ _ => some (slotKey work.task)
  | .combining work _ | .merging work _ _ | .storing work _ _ => some (combineKey work.inputCids)
  | _ => none

/-- The hold a request has taken and not yet given back. -/
def Phase.hold : Phase → Option Nat
  | .executing _ hold _ | .answered _ _ hold | .sending hold => hold
  | _ => none

/-! ## What the requests share -/

/-- One run of the executor, or one merge of the combiner. -/
structure Computation where
  inputs : List Cid
  /-- The inputs that were in the durable set at that moment. -/
  recorded : List Cid
  /-- The label of the request; a combine has none. -/
  label : Option Sovereignty
  /-- What the authorizer had said; a node without one admits. -/
  verdict : Verdict

/-- A node that is serving. -/
structure Agent where
  capacity : Option LocalCapacity
  tap : Option Tap
  sovereignCids : List JsString
  pending : PendingCommitments
  closed : Bool
  /-- History: which request took which hold. -/
  takes : List (Nat × Nat)
  /-- History: the calls of `release` on holds, with the request that made them. -/
  releases : List (Nat × Nat)
  /-- History: the requests whose reply frame the transport was handed. -/
  frames : List Nat
  /-- History: what ran. -/
  computed : List Computation
  /-- History: the merged values the store was given, and the merges that made them. -/
  made : List (Cid × Nat)
  /-- History: the values handed to peers. -/
  given : List (JsString × Source)

def AgentOptions.start (options : AgentOptions) : Config Nat Agent Phase where
  shared :=
    { capacity := options.capacity
      tap := if options.taps then some (.start options.nodeId []) else none
      sovereignCids := []
      pending := .create options.nodeId
      closed := false
      takes := []
      releases := []
      frames := []
      computed := []
      made := []
      given := [] }
  locals _ := .absent

end O2Fabric.Net
