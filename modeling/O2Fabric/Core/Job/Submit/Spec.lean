/-
  O2Fabric.Core.Job.Submit.Spec

  What a job is submitted with and what comes back: the shards, the nodes and
  executors, the dials, the result of a shard and the receipt for it.

  Of an executor only its id and whether it can commit are kept: what it
  answers is part of a run.  Times and costs are exact.
-/

import O2Fabric.Core.Checkpoint
import O2Fabric.Core.Coverage
import O2Fabric.Core.Job.Agreement
import O2Fabric.Core.Lease
import O2Fabric.Core.Placement
import O2Fabric.Core.Speculation

namespace O2Fabric.Submit

open Job

/-! ## The specification -/

/-- Who may see a shard's value. -/
inductive ShardLabel
  | pub
  | sovereign (ownerId : JsString)
  deriving DecidableEq

structure ShardSpec where
  value : CanonicalValue
  label : ShardLabel

/-- An executor the requestor can reach. -/
structure JobExecutor where
  nodeId : JsString
  isCommitting : Bool
  deriving DecidableEq

/-- What to do with a shard whose quorum could not be composed. -/
inductive QuorumShortfall
  | runsAtAvailableRedundancy
  | refusesTheShard
  deriving DecidableEq

structure JobSpec where
  moduleCid : Cid
  shards : List ShardSpec
  executors : List JobExecutor
  nodes : List NodeDescriptor
  redundancy : JsNumber
  onQuorumShortfall : QuorumShortfall
  /-- An `admit` function is given.  Its answers are part of a run. -/
  admits : Bool
  leaseMs : Option ℚ

/-- The dials of speculation, each with its default where absent. -/
structure SpeculationDial where
  fraction : Option ℚ
  factor : Option ℚ
  watchdogMs : Option ℚ
  compareGraceMs : Option ℚ

inductive Speculation
  | duplicatesNoStragglers
  | dial (options : SpeculationDial)

/-- The dial a job has when its options name none. -/
def defaultSpeculation : Speculation := .dial ⟨none, none, none, none⟩

structure SubmitOptions where
  speculation : Speculation
  /-- A sink is given, rather than `'checkpoints-nothing'`. -/
  checkpoints : Bool
  resumeFrom : List Cid

def DEFAULT_SPECULATION_WATCHDOG_MS : ℚ := 250

namespace Speculation

def dialed : Speculation → SpeculationDial
  | duplicatesNoStragglers => ⟨none, none, none, none⟩
  | dial options => options

def fraction : Speculation → ℚ
  | duplicatesNoStragglers => 0
  | dial options => options.fraction.getD DEFAULT_SPECULATION_FRACTION

def factor (s : Speculation) : ℚ := s.dialed.factor.getD DEFAULT_STRAGGLER_FACTOR

/-- How long the comparison waits for copies that lost their race. -/
def graceMs (s : Speculation) : ℚ :=
  s.dialed.compareGraceMs.getD (s.dialed.watchdogMs.getD DEFAULT_SPECULATION_WATCHDOG_MS)

end Speculation

inductive SubmitError
  | noShards
  | badRedundancy (redundancy : JsNumber)
  | inputNotEncodable (partitionIndex : Nat) (detail : JsString)
  | missingNodeDescriptor (nodeId : JsString)
  | shardMissingOwner (partitionIndex : Nat)
  | checkpointUnreadable (failure : CheckpointFailure) (detail : JsString)
  | checkpointNamesAnotherJob (expected found : JsString)

def requestFor (shard : ShardSpec) (shardId : JsString) (redundancy : Nat) : PlacementRequest :=
  match shard.label with
  | .sovereign ownerId => ⟨shardId, .sovereign, some ownerId, .finite redundancy⟩
  | .pub => ⟨shardId, .pub, none, .finite redundancy⟩

/-- A sovereign shard is eligible on its owner's own nodes only. -/
theorem mem_eligibleNodes_requestFor {shard : ShardSpec} {ownerId : JsString}
    (hlabel : shard.label = .sovereign ownerId) {shardId : JsString} {redundancy : Nat}
    {nodes : List NodeDescriptor} {node : NodeDescriptor}
    (h : node ∈ eligibleNodes (requestFor shard shardId redundancy) nodes) :
    node ∈ nodes ∧ node.ownerId = ownerId ∧ node.canExecuteSovereign = true := by
  obtain ⟨hmem, howner⟩ := mem_eligibleNodes h
  rw [requestFor, hlabel] at howner
  obtain ⟨heq, hcan⟩ := howner rfl
  exact ⟨hmem, (Option.some.inj heq).symm, hcan⟩

/-- The shard id and the redundancy have no say in who is eligible. -/
theorem eligibleNodes_requestFor (shard : ShardSpec) (shardId shardId' : JsString)
    (redundancy redundancy' : Nat) (nodes : List NodeDescriptor) :
    eligibleNodes (requestFor shard shardId redundancy) nodes
      = eligibleNodes (requestFor shard shardId' redundancy') nodes := by
  rw [requestFor, requestFor]
  split <;> rfl

/-! ## Gates -/

/-- What became of composing a quorum for a shard. -/
inductive ShardQuorum
  | composed (operators : List JsString)
  | notComposed (refusal : QuorumRefusal) (reason : JsString)
  | notAttempted (reason : JsString)

/-- The pool a shard draws from, and whether it may be placed at all. -/
structure ShardGate where
  quorum : ShardQuorum
  pool : List NodeDescriptor
  degraded : Bool
  refusal : Option JsString

/-! ## The result of a shard -/

/-- A receipt, or why there is none. -/
inductive ShardAttestation
  | receipt (receipt : AttestationReceipt)
  | holdsNoVerifiedAttestation (reason : JsString) (agreeing verified : Nat)

/-- What became of a copy that lost its race. -/
inductive SpeculativeCopy
  | agreed (nodeIds : List JsString)
  | disagreed (nodeIds : List JsString) (resultCid : JsString)
  | failed (nodeIds : List JsString) (reason : JsString)
  | uncompared (nodeIds : List JsString) (reason : JsString)
  deriving DecidableEq

def SpeculativeCopy.isDisagreed : SpeculativeCopy → Bool
  | .disagreed .. => true
  | _ => false

inductive ShardEnding
  | agreed
  | disagreed
  | noUntriedNode
  | generationsSpent
  | neverPlaced
  | carriedFromCheckpoint
  deriving DecidableEq

structure ShardResult where
  partitionIndex : Nat
  inputCid : Cid
  verification : Verification
  attempted : List JsString
  generations : Nat
  ending : ShardEnding
  speculated : Bool
  judgedAt : Option ℚ
  disagreed : Bool
  copies : List SpeculativeCopy
  degraded : Bool
  quorum : ShardQuorum
  attestation : ShardAttestation
  rejections : List Rejection

def noAgreementToAttest (status : JsString) : ShardAttestation :=
  .holdsNoVerifiedAttestation
    (js "this shard is " ++ status
      ++ js " rather than agreed, so there is no agreement to attest") 0 0

/-! ## Receipts -/

section

variable (p : Platform)

/-- One agreeing replica checked against the descriptor it was discovered
    under, or why it stays unaccounted for. -/
def accountFor (work : ResultWork) (descriptors : InsertionMap JsString NodeDescriptor) (now : ℚ)
    (replica : AgreeingReplica) : Except JsString NodeCertificate :=
  match descriptors.get? replica.nodeId with
  | none => .error (replica.nodeId ++ js ": this requestor holds no descriptor for it")
  | some descriptor =>
    match descriptor.certificate with
    | none => .error (replica.nodeId ++ js ": this requestor holds no certificate for it")
    | some certificate =>
      match replica.attestation with
      | .signedByNobody =>
        .error (replica.nodeId ++ js ": the executor stated that it signs nothing")
      | .signed attestation =>
        if attestation.certificate.nodeKey ≠ certificate.nodeKey then
          .error (replica.nodeId ++ js ": answered under node key "
            ++ attestation.certificate.nodeKey ++ js ", which is not the "
            ++ certificate.nodeKey ++ js " it was discovered under")
        else
          match p.verifyResultAttestation replica.attestation work [certificate.issuer] now with
          | .error reason => .error (replica.nodeId ++ js ": " ++ reason)
          | .ok checked => .ok checked

def unaccounted? : Except JsString NodeCertificate → Option JsString
  | .error reason => some reason
  | .ok _ => none

/-- The receipt of an agreement; `none` where the code throws, because two
    replicas verified under one node key. -/
def receiptFor (agreeing : List AgreeingReplica) (work : ResultWork)
    (descriptors : InsertionMap JsString NodeDescriptor) (now : ℚ) : Option ShardAttestation :=
  let checked := agreeing.map (accountFor p work descriptors now)
  let verified := checked.filterMap Except.toOption
  let unaccounted := checked.filterMap unaccounted?
  if unaccounted ≠ [] ∨ verified = [] then
    some (.holdsNoVerifiedAttestation
      (if verified = [] then
        js "no agreeing replica produced a signed statement this requestor could check — "
          ++ (js "; ").intercalate unaccounted
      else
        js "only " ++ decimal verified.length ++ js " of " ++ decimal agreeing.length
          ++ js " agreeing replicas produced a signed statement this requestor could check, and a strength over that subset would state something this requestor cannot account for — "
          ++ (js "; ").intercalate unaccounted)
      agreeing.length verified.length)
  else if ¬ (verified.map NodeCertificate.nodeKey).Nodup then none
  else some (.receipt (attestationReceipt verified))

end

end O2Fabric.Submit
