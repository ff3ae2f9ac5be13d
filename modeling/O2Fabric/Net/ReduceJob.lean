/-
  O2Fabric.Net.ReduceJob

  `reduceJob`: the agreed outputs of a job become the leaves of a reduce over
  connected peers, and the statements of the peers become its receipt.

  What the peers reply and what the requestor's own ports and store say while the
  reduction runs are `Answers`, so a result about `reduceJob` holds whatever they
  do.  The statements are observed beside the reduce, by node id.  The source
  fills that map while the combines of a level run concurrently; one combine's
  replicas come in the order they were asked in.
-/

import O2Fabric.Core.Job.Submit.Result
import O2Fabric.Core.Reduce.FabricCombiner
import O2Fabric.Core.Reduce.Report
import O2Fabric.Core.ResultAttestation
import O2Fabric.Net.Combine

namespace O2Fabric.Net

open Reduce Submit

/-! ## Options -/

/-- The issuers combine certificates are accepted from. -/
inductive CombineTrustAnchors
  | checksNoCombineSignatures
  | trusts (issuers : List JsString)

/-- Whom a shard's partial is attributed to. -/
inductive ContributorAttribution
  | attributesEachShardToItsOwnPartitionIndex
  | owners (attribution : InsertionMap Nat JsString)

/-- The requestor's own capacity and authorizer, asked about a combine before the
    ranking is walked.  Either refuses with a reason. -/
structure LocalPorts where
  would : (shardId nodeId : JsString) → Option JsString
  /-- `none` is a requestor that serves unauthenticated. -/
  authorize : Option (CombineTask → List Cid → Option JsString)

inductive CombinePlacement
  | requiresRemoteCombining
  | prefersLocalCombining (ports : LocalPorts)

structure ReduceJobOptions where
  localId : JsString
  executors : List JsString
  /-- The error is what a projection that throws says. -/
  project : CanonicalValue → Nat → Except JsString CanonicalValue
  fanout : Option Nat
  redundancy : Option JsNumber
  trustedIssuers : CombineTrustAnchors
  contributors : ContributorAttribution
  placement : CombinePlacement

/-- What the rest of the world answers while a reduction runs. -/
structure Answers where
  exchange : CombineTask → Nat → JsString → Exchange
  /-- What the requestor's store holds when it runs a combine itself. -/
  held : CombineTask → Cid → Option Bytes
  combiner : List CanonicalValue → CanonicalValue
  /-- `Date.now()`. -/
  now : ℚ

/-! ## The requestor's own combines -/

section

variable (p : Platform)

/-- `localCombinePlacement(options).admits`. -/
def ReduceJobOptions.admitsLocally (options : ReduceJobOptions) (task : CombineTask) :
    LocalCombineAdmission :=
  match options.placement with
  | .requiresRemoteCombining =>
    .refused (js "this caller requires remote combining, so the requestor did not offer itself this combine")
  | .prefersLocalCombining ports =>
    match ports.would (js "combine:" ++ join COMMA task.inputCids) options.localId with
    | some reason => .refused reason
    | none =>
      match ports.authorize with
      | none => .ok
      | some authorize =>
        match task.inputCids.mapM p.parseCid with
        | none =>
          .refused (js "this combine names an input this requestor could not parse as a CID, so its own authorizer could not be asked about it")
        | some inputCids =>
          match authorize task inputCids with
          | some refusal => .refused (js "unauthorized: " ++ refusal)
          | none => .ok

variable (codec : Codec p)

def Answers.localRun (answers : Answers) (task : CombineTask) (executorId : JsString) : LocalRun :=
  localDispatch p ⟨answers.held task, answers.combiner, codec.decode, [LOCAL_COMBINE_EXECUTOR]⟩
    task executorId

def producedLocally : LocalRun → Option CombineProduct
  | .threw => none
  | .settled product => product

def localCombinePlacement (options : ReduceJobOptions) (answers : Answers) :
    LocalCombinePlacement where
  admits := options.admitsLocally p
  dispatch task _ executorId := producedLocally (answers.localRun p codec task executorId)

/-- A combine of the requestor's own rejects the whole reduction when it throws. -/
def threwLocally (options : ReduceJobOptions) (answers : Answers) (result : CombineResult) : Bool :=
  match result.calls with
  | [] => false
  | call :: _ =>
    match options.admitsLocally p call.task,
        answers.localRun p codec call.task LOCAL_COMBINE_EXECUTOR with
    | .ok, .threw => true
    | _, _ => false

end

/-! ## The leaves -/

def contributorFor (partitionIndex : Nat) : ContributorAttribution → Option JsString
  | .attributesEachShardToItsOwnPartitionIndex => some (js "shard-" ++ decimal partitionIndex)
  | .owners attribution => attribution.get? partitionIndex

/-- What the loop over the shards has gathered. -/
structure Gathered where
  contributions : List ReduceContribution
  leaves : List Cid
  skipped : List Nat

section

variable {p : Platform} (codec : Codec p)

/-- The partial of an agreed shard, or why there is none. -/
def projectShard (options : ReduceJobOptions) (output : CanonicalValue) (partitionIndex : Nat) :
    Except JsString ReduceContribution :=
  match options.project output partitionIndex with
  | .error message =>
    .error (js "the projection for shard " ++ decimal partitionIndex ++ js " threw: " ++ message)
  | .ok partialValue =>
    if (asFabricPartial partialValue).isNone then
      .error (js "the projection for shard " ++ decimal partitionIndex
        ++ js " did not produce a {counts, rows} partial")
    else
      match codec.encode partialValue with
      | .error error =>
        .error (js "the projection for shard " ++ decimal partitionIndex
          ++ js " is not encodable: " ++ error)
      | .ok bytes =>
        if MAX_PARTIAL_BYTES < bytes.length then
          .error (js "the projection for shard " ++ decimal partitionIndex ++ js " is "
            ++ decimal bytes.length ++ js " bytes, over the " ++ decimal MAX_PARTIAL_BYTES
            ++ js " byte partial budget")
        else
          match contributorFor partitionIndex options.contributors with
          | none =>
            .error (js "shard " ++ decimal partitionIndex
              ++ js " agreed but the caller's attribution names no contributor for it")
          | some contributorId => .ok ⟨contributorId, codec.blockCid bytes⟩

/-- One pass of the loop. -/
def gatherShard (options : ReduceJobOptions) (gathered : Gathered) (shard : ShardResult) :
    Except JsString Gathered :=
  match shard.verification with
  | .agreed _ output _ _ _ _ _ =>
    (projectShard codec options output shard.partitionIndex).map fun contribution =>
      ⟨gathered.contributions ++ [contribution], gathered.leaves ++ [contribution.cid],
        gathered.skipped⟩
  | _ => .ok { gathered with skipped := gathered.skipped ++ [shard.partitionIndex] }

def gatherShards (options : ReduceJobOptions) (shards : List ShardResult) :
    Except JsString Gathered :=
  shards.foldlM (gatherShard codec options) ⟨[], [], []⟩

end

/-! ## The receipt -/

/-- What one combine's replicas answered. -/
structure CombineObservation where
  inputCids : List Cid
  replicas : List CombineProduct

structure NoVerifiedAggregation where
  reason : JsString
  combines : Nat
  verified : Nat

inductive AggregateAttestation
  | receipt (receipt : AttestationReceipt)
  | holdsNoVerifiedAggregateAttestation (absence : NoVerifiedAggregation)

section

variable (p : Platform)

/-- One answer of a peer, kept under the node it is for. -/
def observeCall (observed : InsertionMap JsString CombineObservation) (call : CombineCall) :
    InsertionMap JsString CombineObservation :=
  match call.answer with
  | none => observed
  | some product =>
    -- the addresses parsed when the request was sent
    let entry := (observed.get? call.task.nodeId).getD
      ⟨(call.task.inputCids.mapM p.parseCid).getD [], []⟩
    observed.set call.task.nodeId { entry with replicas := entry.replicas ++ [product] }

/-- The requests of a combine that went to peers: all but the requestor's own, which
    is the first where there is one. -/
def peerCalls (options : ReduceJobOptions) (result : CombineResult) : List CombineCall :=
  match result.calls with
  | [] => []
  | call :: rest =>
    match options.admitsLocally p call.task with
    | .ok => rest
    | .refused _ => call :: rest

/-- What the peers answered over a whole reduce. -/
def observe (options : ReduceJobOptions) (results : List CombineResult) :
    InsertionMap JsString CombineObservation :=
  (results.flatMap (peerCalls p options)).foldl (observeCall p) .empty

variable (sigs : Signatures)

/-- One replica's statement checked against the merge that was asked for. -/
def checkReplica (trustedIssuers : List JsString) (now : ℚ) (nodeId : JsString)
    (inputCids : List Cid) (replica : CombineProduct) : Except JsString NodeCertificate :=
  match replica.attestation with
  | .signedByNobody => .error (nodeId ++ js ": a replica stated that it signs nothing")
  | .signed _ =>
    match verifyCombineAttestation p sigs replica.attestation inputCids replica.cid
        trustedIssuers now with
    | .error reason => .error (nodeId ++ js ": " ++ reason)
    | .ok certificate => .ok certificate

/-- What the loop over the nodes has gathered. -/
structure Accounts where
  receipts : List AttestationReceipt
  unaccounted : List JsString

def Accounts.leave (accounts : Accounts) (reasons : List JsString) : Accounts :=
  { accounts with unaccounted := accounts.unaccounted ++ reasons }

/-- One pass of the loop. -/
def accountNode (outcome : ReduceOutcome) (observed : InsertionMap JsString CombineObservation)
    (trustedIssuers : List JsString) (now : ℚ) (accounts : Accounts) (node : ReduceTreeNode) :
    Accounts :=
  if node.id ∈ outcome.locallyCombined then
    accounts.leave [node.id ++ js ": this requestor combined it in its own process, so the aggregation over these partials was performed by the party that wanted the answer and no independent node attested it"]
  else if node.id ∉ outcome.attestations.keys then
    accounts.leave [node.id ++ js ": no agreed statement was recorded for this combine"]
  else
    match observed.get? node.id with
    | none =>
      accounts.leave [node.id ++ js ": this requestor recorded no replica answer for this combine"]
    | some seen =>
      if seen.replicas = [] then
        accounts.leave [node.id ++ js ": this requestor recorded no replica answer for this combine"]
      else
        let checked := seen.replicas.map
          (checkReplica p sigs trustedIssuers now node.id seen.inputCids)
        let verified := checked.filterMap Except.toOption
        let accounts := accounts.leave (checked.filterMap unaccounted?)
        let keys := distinct (verified.map NodeCertificate.nodeKey)
        if keys.length ≠ verified.length then
          accounts.leave [node.id ++ js ": " ++ decimal verified.length
            ++ js " replicas verified under one node key (" ++ (js ", ").intercalate keys
            ++ js "), and a receipt built from that set would report redundancy this aggregation does not have"]
        else if verified = [] then accounts
        else { accounts with receipts := accounts.receipts ++ [attestationReceipt verified] }

/-- `receipts.reduce(...)`: the first of the lowest rank. -/
def weakestReceipt (first : AttestationReceipt) (rest : List AttestationReceipt) :
    AttestationReceipt :=
  rest.foldl
    (fun weakest receipt =>
      if attestationRank receipt.strength < attestationRank weakest.strength then receipt
      else weakest)
    first

/-- The aggregate receipt, over combine statements this requestor checked itself. -/
def aggregateAttestationOf (tree : ReduceTree) (outcome : ReduceOutcome)
    (observed : InsertionMap JsString CombineObservation) (trustedIssuers : CombineTrustAnchors)
    (now : ℚ) : AggregateAttestation :=
  let combines := tree.nodes.length
  if combines = 0 then
    .holdsNoVerifiedAggregateAttestation
      ⟨js "this reduction merged nothing — a single contribution is promoted rather than combined, so there is no aggregation to attest",
        0, 0⟩
  else
    match trustedIssuers with
    | .checksNoCombineSignatures =>
      .holdsNoVerifiedAggregateAttestation
        ⟨js "this requestor checks no combine signatures, so it holds no statement about who performed this aggregation",
          combines, 0⟩
    | .trusts issuers =>
      let accounts := tree.nodes.foldl (accountNode p sigs outcome observed issuers now) ⟨[], []⟩
      match accounts.receipts with
      | [] =>
        .holdsNoVerifiedAggregateAttestation
          ⟨js "no combine in this tree produced a statement this requestor could check — "
              ++ (js "; ").intercalate accounts.unaccounted,
            combines, 0⟩
      | first :: rest =>
        if accounts.unaccounted ≠ [] ∨ (first :: rest).length ≠ combines then
          .holdsNoVerifiedAggregateAttestation
            ⟨js "only " ++ decimal (first :: rest).length ++ js " of " ++ decimal combines
                ++ js " combines produced statements this requestor could check, and a strength over that subset would state something this requestor cannot account for — "
                ++ (js "; ").intercalate accounts.unaccounted,
              combines, (first :: rest).length⟩
        else .receipt (weakestReceipt first rest)

end

/-! ## The reduction -/

/-- A reduction that ran; `outcome.ok` says whether it succeeded. -/
structure Reduction where
  outcome : ReduceOutcome
  tree : ReduceTree
  leaves : List Cid
  skipped : List Nat
  aggregateAttestation : AggregateAttestation

inductive ReduceJobResult
  /-- A fanout no tree has, or a combine of the requestor's own that threw. -/
  | threw
  | refused (reason : JsString)
  | ok (reduction : Reduction)

section

variable (p : Platform) (codec : Codec p) (sigs : Signatures)

def ReduceJobOptions.reduceRun (options : ReduceJobOptions) (answers : Answers)
    (tree : ReduceTree) : ReduceRun where
  tree := tree
  executors := options.executors
  dispatch := remoteCombineDispatch p codec answers.exchange
  localCombine := .placement (localCombinePlacement p codec options answers)
  redundancy := options.redundancy

def ReduceJobOptions.results (options : ReduceJobOptions) (answers : Answers)
    (tree : ReduceTree) : List CombineResult :=
  executeResults p.hashText p.localeCompare (options.reduceRun p codec answers tree)

/-- Turn a completed job into a reduce over the executors. -/
def reduceJob (job : JobResult) (options : ReduceJobOptions) (answers : Answers) :
    ReduceJobResult :=
  if options.executors = [] then .refused (js "no executor to combine on")
  else
    match gatherShards codec options job.shards with
    | .error reason => .refused reason
    | .ok gathered =>
      if gathered.contributions = [] then
        .refused (js "no agreed shard produced a partial")
      else
        match deriveReduceTree p.hashText gathered.contributions
            (options.fanout.getD DEFAULT_FANOUT) with
        | .error _ => .threw
        | .ok tree =>
          let results := options.results p codec answers tree
          if results.any (threwLocally p codec options answers) then .threw
          else
            let outcome := executeReduce p.hashText p.localeCompare
              (options.reduceRun p codec answers tree)
            .ok ⟨outcome, tree, gathered.leaves, gathered.skipped,
              aggregateAttestationOf p sigs tree outcome (observe p options results)
                options.trustedIssuers answers.now⟩

end

end O2Fabric.Net
