/-
  O2Fabric.Core.Job.Submit.State

  A running job.  Each shard runs its own generation loop; the lease table, the
  speculation ledger, the durations seen so far, the checkpoint chain and the
  blockstore are shared.

  A shard's state holds the locals of its loop and of the dispatch it awaits.
  Its phase is where the loop stands: at an `await`, or between two of them
  where another shard can run.
-/

import O2Fabric.Core.Job.Submit.Prepare
import O2Fabric.Lib.Threads

namespace O2Fabric.Submit

open Job Threads

/-! ## One shard -/

/-- A dispatched copy, and what its promise has settled to. -/
structure Flight where
  nodeIds : List JsString
  speculative : Bool
  answer : Option Verification

/-- One generation being dispatched under its lease.  `copies` are the flights
    still in the race, by the first node of each. -/
structure Race where
  holderId : JsString
  startedAt : ℚ
  copies : InsertionMap JsString Nat
  answered : Option Verification
  speculated : Bool
  judgedAt : Option ℚ
  lease : Lease ℚ
  renewable : Bool
  watching : Bool

/-- What a dispatch under lease returns.  A lapse keeps nothing of the copies
    that were still in its race; which ones they were is history. -/
inductive Dispatched
  | answered (verification : Verification) (outstanding : List Nat)
  | lapsed (dropped : List Nat)

/-- A returned dispatch with what its generation still needs. -/
structure Returned where
  dispatched : Dispatched
  speculated : Bool
  judgedAt : Option ℚ
  holderId : JsString
  startedAt : ℚ

/-- A shard's result before the copies that lost are compared with it. -/
structure SettledShard where
  result : ShardResult
  outstanding : List Nat
  winnerCid : Option JsString

/-- Where a shard's loop stands. -/
inductive Phase
  /-- At the head of the generation loop, with the nodes to dispatch to. -/
  | granting (nodeIds : List JsString)
  /-- Awaiting the race of the copies and the timer. -/
  | racing (race : Race)
  /-- Awaiting the holder's answer to a probe made at `woke`. -/
  | probing (race : Race) (woke : ℚ)
  | returned (returned : Returned)
  /-- Awaiting the placement of another generation. -/
  | placing
  | ended (ending : ShardEnding)
  /-- The agreed output is in the store. -/
  | stored (ending : ShardEnding)
  /-- Awaiting its link of the checkpoint chain. -/
  | recording (ending : ShardEnding) (ticket : Nat)
  | settled (shard : SettledShard)
  | threw

/-- The generation loop still runs. -/
def Phase.looping : Phase → Bool
  | .granting _ | .racing _ | .probing _ _ | .returned _ | .placing => true
  | _ => false

structure ShardState where
  attempted : List JsString
  rejections : List Rejection
  outstanding : List Nat
  verification : Option Verification
  generations : Nat
  speculated : Bool
  judgedAt : Option ℚ
  placementDegraded : Bool
  flights : List Flight
  phase : Phase
  /-- History: the failures of every copy that answered `insufficient` while the
      loop was running.  No step reads it. -/
  reported : List Failure
  /-- History: the copies that were in a race when its lease lapsed.  No step reads
      it. -/
  dropped : List Nat

/-! ## What the shards share -/

/-- Where the link of the checkpoint chain that runs stands. -/
inductive Link
  | idle
  | writing (checkpoint : JobCheckpoint)
  | written (handle : Cid) (checkpoint : JobCheckpoint)
  | publishing

/-- The checkpoint chain: the shards it names, the handle it published last, the
    shards waiting for their link, and what was handed to the sink. -/
structure CheckpointLog where
  completed : List CompletedShard
  previous : Option JsString
  queue : List CompletedShard
  link : Link
  done : Nat
  published : List (Cid × JobCheckpoint)

structure Shared where
  leases : LeaseTable ℚ
  ledger : SpeculationLedger
  completedDurations : List ℚ
  log : CheckpointLog
  blocks : Blocks

/-! ## The start -/

/-- A shard with nothing behind it. -/
def freshShard (rejections : List Rejection) (placementDegraded : Bool) (phase : Phase) :
    ShardState where
  attempted := []
  rejections := rejections
  outstanding := []
  verification := none
  generations := 0
  speculated := false
  judgedAt := none
  placementDegraded := placementDegraded
  flights := []
  phase := phase
  reported := []
  dropped := []

def carriedResult (plan : ShardPlan) (shard : CarriedShard) : ShardResult where
  partitionIndex := plan.partitionIndex
  inputCid := plan.inputCid
  verification := .agreed shard.resultCid shard.output [] 0 [] 0 0
  attempted := []
  generations := 0
  ending := .carriedFromCheckpoint
  speculated := false
  judgedAt := none
  disagreed := false
  copies := []
  degraded := true
  quorum := .notAttempted
    (js "a checkpoint already named this shard’s answer, so this requestor dispatched it to nobody and composed no quorum for it")
  attestation := .holdsNoVerifiedAttestation
    (js "this shard’s answer was carried from a checkpoint, so this requestor holds no signature over it from anybody — the predecessor’s receipt, if it had one, is not in the checkpoint and a checkpoint could not be trusted to carry one")
    0 0
  rejections := []

def unplaceableResult (plan : ShardPlan) (reason : JsString) : ShardResult where
  partitionIndex := plan.partitionIndex
  inputCid := plan.inputCid
  verification := .insufficient reason []
  attempted := []
  generations := 0
  ending := .neverPlaced
  speculated := false
  judgedAt := none
  disagreed := false
  copies := []
  degraded := false
  quorum := plan.gate.quorum
  attestation := noAgreementToAttest (js "unplaceable")
  rejections := plan.rejections

def startShard (plan : ShardPlan) : ShardState :=
  match plan.carried with
  | some shard =>
    freshShard [] false
      (.settled ⟨carriedResult plan shard, [], some shard.resultCid.toText⟩)
  | none =>
    match plan.placement with
    | .unplaceable reason =>
      freshShard plan.rejections false (.settled ⟨unplaceableResult plan reason, [], none⟩)
    | .placed nodeIds degraded => freshShard plan.rejections degraded (.granting nodeIds)

/-- The chain of a job that has recorded nothing yet. -/
def startLog (job : PreparedJob) : CheckpointLog where
  completed := job.carried.entries.map fun entry => ⟨entry.1, entry.2.resultCid.toText⟩
  previous := job.resumedFrom.map Cid.toText
  queue := []
  link := .idle
  done := 0
  published := []

/-- The state in which every shard is about to run for the first time. -/
def Prepared.start (prepared : Prepared) : Config Nat Shared ShardState where
  shared := ⟨prepared.leases, prepared.ledger, [], startLog prepared.job, prepared.blocks⟩
  locals i :=
    match prepared.job.plans[i]? with
    | some plan => startShard plan
    | none => freshShard [] false (.granting [])

end O2Fabric.Submit

/-! # Step

The steps of a running job.  A shard's step runs its loop from one `await` to
the next; what it awaits (a clock, a node's answer, an admission) comes with
the event.  The timers a race waits on may fire at any time, so how long they
were set for is not kept.
-/

namespace O2Fabric.Submit

open Job Threads

/-! ## Events -/

/-- What a dispatch comes to: what each of its executors did, in order, or an
    error of the dispatch itself. -/
inductive DispatchAnswer
  | verified (outcomes : List (ExecutionOutcome CanonicalValue))
  | ceremony (outcomes : List (CommitOutcome × RevealOutcome))
  | threw (message : JsString)

/-- What a shard awaits, with the clock readings its next stretch makes. -/
inductive ShardEvent
  | grant (now startedAt at_ : ℚ)
  | answer (flight : Nat) (answer : DispatchAnswer)
  | deliver (key : JsString) (at_ : ℚ)
  | tick (woke at_ : ℚ)
  | probed (working : Bool) (at_ : ℚ)
  | resume (now at_ : ℚ)
  | place (ask : Nat → Offer → Admission)
  | store
  | record
  | finish

/-- What the checkpoint chain awaits. -/
inductive ChainEvent
  | begin (at_ : ℚ)
  | put
  | publish
  | acknowledged

/-! ## Dispatching -/

/-- A shard's task, as its executors get it. -/
def taskOf (job : PreparedJob) (plan : ShardPlan) : Task where
  moduleCid := job.spec.moduleCid
  inputCid := plan.inputCid
  partitionIndex := plan.partitionIndex
  partitionCount := job.spec.shards.length
  label := match plan.spec.label with
    | .pub => .pub
    | .sovereign _ => .sovereign
  ownerId := match plan.spec.label with
    | .pub => none
    | .sovereign ownerId => some ownerId

/-- The executors a dispatch to these nodes invokes. -/
def executorsOf (job : PreparedJob) (nodeIds : List JsString) : List JobExecutor :=
  nodeIds.filterMap (execByNodeId job.spec).get?

/-- A public shard on two or more committing executors runs as a ceremony. -/
def runsCeremony (job : PreparedJob) (plan : ShardPlan) (nodeIds : List JsString) : Bool :=
  decide (plan.spec.label = .pub) && decide (MIN_CEREMONY_REPLICAS ≤ nodeIds.length)
    && (executorsOf job nodeIds).all JobExecutor.isCommitting

/-- The answer is one that this dispatch can come to. -/
def DispatchAnswer.fits (ceremony : Bool) (nodeIds : List JsString) : DispatchAnswer → Bool
  | .verified outcomes => !ceremony && decide (outcomes.length = nodeIds.length)
  | .ceremony outcomes => ceremony && decide (outcomes.length = nodeIds.length)
  | .threw _ => true

/-- The verification a dispatch's promise settles to. -/
def verificationOf (p : Platform) (task : Task) (nodeIds : List JsString) :
    DispatchAnswer → Verification
  | .verified outcomes =>
    executeVerified p.canonicalCid task
      (List.zipWith (fun nodeId outcome => Executor.mk nodeId fun _ => outcome) nodeIds outcomes)
  | .ceremony outcomes =>
    executeCommitReveal p task
      (List.zipWith (fun nodeId (outcome : CommitOutcome × RevealOutcome) =>
        CommittingExecutor.mk nodeId (fun _ => outcome.1) fun _ => outcome.2) nodeIds outcomes)
  | .threw message => .insufficient (js "the dispatch itself threw: " ++ message) []

/-! ## Racing -/

namespace Race

def returns (race : Race) (dispatched : Dispatched) : Phase :=
  .returned ⟨dispatched, race.speculated, race.judgedAt, race.holderId, race.startedAt⟩

/-- The lease has run out, whatever its copies come to. -/
def lapses (race : Race) : Phase := race.returns (.lapsed race.copies.values)

/-- The head of the dispatch loop: the lease has run out, or the race goes on. -/
def top (race : Race) (at_ : ℚ) : Phase :=
  if race.lease.expired at_ then race.lapses else .racing race

end Race

/-- Merged into what came before, if anything did. -/
def mergeInto (before : Option Verification) (v : Verification) : Verification :=
  match before with
  | none => v
  | some before => mergeVerifications before v

section

variable (p : Platform) (job : PreparedJob) (plan : ShardPlan)

/-! ## The steps of a shard -/

/-- The race a granted lease starts, with the one copy placed. -/
def startRace (holderId : JsString) (startedAt : ℚ) (lease : Lease ℚ) (s : Shared)
    (st : ShardState) : Race where
  holderId := holderId
  startedAt := startedAt
  copies := InsertionMap.empty.set holderId st.flights.length
  answered := none
  speculated := false
  judgedAt := none
  lease := lease
  renewable := job.spec.admits
  watching := decide (0 < s.ledger.allowance)

/-- Take a lease and dispatch to the nodes, or leave the loop without one. -/
def grantStep (now startedAt at_ : ℚ) (s : Shared) (st : ShardState) :
    Option (Shared × ShardState) :=
  match st.phase with
  | .granting nodeIds =>
    let holderId := nodeIds.headD []
    match s.leases.grant plan.shardId holderId now with
    | (none, leases) =>
      some ({ s with leases := leases }, { st with phase := .ended .generationsSpent })
    | (some lease, leases) =>
      some ({ s with leases := leases },
        { st with
          generations := st.generations + 1
          attempted := st.attempted ++ nodeIds
          flights := st.flights ++ [⟨nodeIds, false, none⟩]
          phase := (startRace job holderId startedAt lease s st).top at_ })
  | _ => none

/-- A copy's promise settles. -/
def answerStep (k : Nat) (answer : DispatchAnswer) (s : Shared) (st : ShardState) :
    Option (Shared × ShardState) :=
  match st.flights[k]? with
  | some ⟨nodeIds, speculative, none⟩ =>
    if answer.fits (runsCeremony job plan nodeIds) nodeIds then
      let v := verificationOf p (taskOf job plan) nodeIds answer
      some (s,
        { st with
          flights := st.flights.set k ⟨nodeIds, speculative, some v⟩
          reported := if v.isInsufficient && st.phase.looping then st.reported ++ v.failures
            else st.reported })
    else none
  | _ => none

/-- The race is won by a copy that has settled. -/
def deliverStep (key : JsString) (at_ : ℚ) (s : Shared) (st : ShardState) :
    Option (Shared × ShardState) :=
  match st.phase with
  | .racing race =>
    match (race.copies.get? key).bind (st.flights[·]?) with
    | some ⟨_, _, some v⟩ =>
      let copies := race.copies.delete key
      let answered := mergeInto race.answered v
      let race := { race with copies := copies, answered := some answered }
      some (s,
        { st with
          phase :=
            if !v.isInsufficient || copies.size == 0 then
              race.returns (.answered answered copies.values)
            else race.top at_ })
    | _ => none
  | _ => none

/-- The look at the clock and the ledger that may start a speculative copy. -/
def speculate (woke : ℚ) (race : Race) (s : Shared) (st : ShardState) :
    Shared × ShardState × Race :=
  if !race.watching then (s, st, race)
  else if s.ledger.duplicated race.lease.taskId || s.ledger.remaining == 0 then
    (s, st, { race with watching := false })
  else
    match speculativeCandidates (plan.request 1) plan.gate.pool st.attempted with
    | [] => (s, st, { race with watching := false })
    | target :: _ =>
      if stragglers p [⟨race.lease.taskId, race.lease.nodeId, race.startedAt⟩] woke
          s.completedDurations job.options.speculation.factor = [] then (s, st, race)
      else
        match s.ledger.request race.lease.taskId with
        | (false, ledger) =>
          ({ s with ledger := ledger }, st, { race with watching := false })
        | (true, ledger) =>
          ({ s with ledger := ledger },
            { st with
              attempted := st.attempted ++ [target.nodeId]
              flights := st.flights ++ [⟨[target.nodeId], true, none⟩] },
            { race with
              speculated := true
              judgedAt := some woke
              copies := race.copies.set target.nodeId st.flights.length })

/-- The timer wins the race. -/
def tickStep (woke at_ : ℚ) (s : Shared) (st : ShardState) : Option (Shared × ShardState) :=
  match st.phase with
  | .racing race =>
    if race.lease.expired woke then some (s, { st with phase := race.lapses })
    else
      let (s, st, race) := speculate p job plan woke race s st
      if !race.renewable || !shouldRenew race.lease woke then
        some (s, { st with phase := race.top at_ })
      else some (s, { st with phase := .probing race woke })
  | _ => none

/-- The holder's answer to the probe: the lease is renewed, or never again. -/
def probedStep (working : Bool) (at_ : ℚ) (s : Shared) (st : ShardState) :
    Option (Shared × ShardState) :=
  match st.phase with
  | .probing race woke =>
    if working then
      match s.leases.renew race.lease.taskId race.lease.nodeId woke with
      | (none, leases) =>
        some ({ s with leases := leases }, { st with phase := race.lapses })
      | (some lease, leases) =>
        some ({ s with leases := leases },
          { st with phase := Race.top { race with lease := lease } at_ })
    else some (s, { st with phase := Race.top { race with renewable := false } at_ })
  | _ => none

/-- The generation is over: enter what came of it and decide what is next. -/
def resumeStep (now at_ : ℚ) (s : Shared) (st : ShardState) : Option (Shared × ShardState) :=
  match st.phase with
  | .returned r =>
    let st := { st with
      speculated := st.speculated || r.speculated
      judgedAt := st.judgedAt.or r.judgedAt }
    match r.dispatched with
    | .lapsed dropped =>
      some ({ s with leases := (s.leases.reap p at_ (some plan.shardId)).2 },
        { st with dropped := st.dropped ++ dropped, phase := .placing })
    | .answered v outstanding =>
      let verification := mergeInto st.verification v
      let s := if v.isInsufficient then s else
        { s with completedDurations := s.completedDurations ++ [max 1 (now - r.startedAt)] }
      let st := { st with
        outstanding := st.outstanding ++ outstanding
        verification := some verification }
      let done := { s with leases := (s.leases.complete plan.shardId r.holderId at_).2 }
      match verification with
      | .disagreed .. => some (done, { st with phase := .ended .disagreed })
      | _ =>
        if verification.isAgreed && decide (job.redundancy ≤ verification.replicaCount) then
          some (done, { st with phase := .ended .agreed })
        else
          some ({ s with leases := (s.leases.surrender plan.shardId r.holderId at_).2 },
            { st with phase := .placing })
  | _ => none

/-- Where another generation goes. -/
inductive Regeneration
  | placed (nodeIds : List JsString) (rejections : List Rejection) (degraded : Bool)
  | notPlaced (rejections : List Rejection)

/-- Place what is still wanted on nodes not tried yet. -/
def placeAgain (wanted : Nat) (tried : List JsString) (ask : Nat → Offer → Admission) :
    Regeneration :=
  let remaining := untried plan.gate.pool tried
  if remaining = [] then .notPlaced []
  else if !job.spec.admits then
    match planPlacement p (plan.request wanted) remaining with
    | .placed nodeIds degraded => .placed nodeIds [] degraded
    | .unplaceable _ => .notPlaced []
  else
    match (planWithOffers p [plan.request wanted] remaining ask).head? with
    | some (.placed nodeIds degraded rejections _) => .placed nodeIds rejections degraded
    | some (.unplaceable _ rejections _) => .notPlaced rejections
    | none => .notPlaced []

/-- The replicas still missing. -/
def wantedOf (verification : Option Verification) : Nat :=
  match verification with
  | some v => if v.isAgreed then job.redundancy - v.replicaCount else job.redundancy
  | none => job.redundancy

def placeStep (ask : Nat → Offer → Admission) (s : Shared) (st : ShardState) :
    Option (Shared × ShardState) :=
  match st.phase with
  | .placing =>
    match placeAgain p job plan (wantedOf job st.verification) st.attempted ask with
    | .placed nodeIds rejections degraded =>
      some (s,
        { st with
          rejections := st.rejections ++ rejections
          placementDegraded := st.placementDegraded || degraded
          phase := .granting nodeIds })
    | .notPlaced rejections =>
      some (s,
        { st with
          rejections := st.rejections ++ rejections
          phase := .ended .noUntriedNode })
  | _ => none

/-- What the loop came to. -/
def settledOf (ending : ShardEnding) (st : ShardState) : Verification :=
  st.verification.getD <| .insufficient
    (if ending = .generationsSpent then
      plan.shardId ++ js " used all " ++ decimal DEFAULT_MAX_GENERATIONS
        ++ js " of its dispatch generations without an answer"
    else js "no node answered for " ++ plan.shardId ++ js " and none is left untried") []

/-- The store with an output put, if it has an encoding. -/
def withOutput (output : CanonicalValue) (s : Shared) : Shared :=
  match p.canonicalCid output with
  | .ok cid => { s with blocks := s.blocks.put cid output }
  | .error _ => s

/-- An agreed output is put into the store. -/
def storeStep (s : Shared) (st : ShardState) : Option (Shared × ShardState) :=
  match st.phase with
  | .ended ending =>
    match settledOf plan ending st with
    | .agreed _ output _ _ _ _ _ => some (withOutput p output s, { st with phase := .stored ending })
    | _ => none
  | _ => none

/-- The number of links asked for so far. -/
def CheckpointLog.tickets (log : CheckpointLog) : Nat :=
  log.done + log.queue.length + match log.link with
    | .idle => 0
    | _ => 1

/-- The shard joins the checkpoint chain.  Without a sink there is nothing to
    wait for. -/
def recordStep (s : Shared) (st : ShardState) : Option (Shared × ShardState) :=
  match st.phase with
  | .stored ending =>
    match settledOf plan ending st with
    | .agreed resultCid _ _ _ _ _ _ =>
      if job.options.checkpoints then
        some ({ s with
            log := { s.log with
              queue := s.log.queue ++ [⟨plan.partitionIndex, resultCid.toText⟩] } },
          { st with phase := .recording ending (s.log.tickets + 1) })
      else some (s, { st with phase := .recording ending 0 })
    | _ => none
  | _ => none

def statusText : Verification → JsString
  | .agreed .. => js "agreed"
  | .disagreed .. => js "disagreed"
  | .insufficient .. => js "insufficient"

def resultOf (ending : ShardEnding) (attestation : ShardAttestation) (st : ShardState) :
    ShardResult :=
  let settled := settledOf plan ending st
  { partitionIndex := plan.partitionIndex
    inputCid := plan.inputCid
    verification := settled
    attempted := st.attempted
    generations := st.generations
    ending := ending
    speculated := st.speculated
    judgedAt := st.judgedAt
    disagreed := false
    copies := []
    degraded := plan.gate.degraded ||
      (if settled.isAgreed then decide (settled.replicaCount < job.redundancy)
        else st.placementDegraded)
    quorum := plan.gate.quorum
    attestation := attestation
    rejections := st.rejections }

/-- The receipt of what was agreed; `none` where building it throws. -/
def attestationOf (settled : Verification) : Option ShardAttestation :=
  match settled with
  | .agreed resultCid _ agreeing _ _ _ _ =>
    receiptFor p agreeing ⟨job.spec.moduleCid, plan.inputCid, plan.partitionIndex, resultCid⟩
      (descriptorByNodeId job.spec) job.now
  | v => some (noAgreementToAttest (statusText v))

/-- The shard's result is built, or building its receipt throws. -/
def settle (ending : ShardEnding) (st : ShardState) : ShardState :=
  let settled := settledOf plan ending st
  match attestationOf p job plan settled with
  | none => { st with phase := .threw }
  | some attestation =>
    { st with
      phase := .settled ⟨resultOf job plan ending attestation st, st.outstanding,
        settled.agreedCid.map Cid.toText⟩ }

/-- An agreed shard waits for its link of the chain before it settles. -/
def finishStep (s : Shared) (st : ShardState) : Option (Shared × ShardState) :=
  match st.phase with
  | .ended ending =>
    if (settledOf plan ending st).isAgreed then none else some (s, settle p job plan ending st)
  | .recording ending ticket =>
    if ticket ≤ s.log.done then some (s, settle p job plan ending st) else none
  | _ => none

def shardStep (event : ShardEvent) (s : Shared) (st : ShardState) : Option (Shared × ShardState) :=
  match event with
  | .grant now startedAt at_ => grantStep job plan now startedAt at_ s st
  | .answer k answer => answerStep p job plan k answer s st
  | .deliver key at_ => deliverStep key at_ s st
  | .tick woke at_ => tickStep p job plan woke at_ s st
  | .probed working at_ => probedStep working at_ s st
  | .resume now at_ => resumeStep p job plan now at_ s st
  | .place ask => placeStep p job plan ask s st
  | .store => storeStep p plan s st
  | .record => recordStep job plan s st
  | .finish => finishStep p job plan s st

end

/-! ## The steps of the checkpoint chain -/

/-- One stretch of the chain: the next link begins with its shard entered, its
    checkpoint is put into the store, it is handed to the sink, and the sink is
    done with it.  A checkpoint without an encoding stops the chain. -/
def chainStep (p : Platform) (job : PreparedJob) (event : ChainEvent) (s : Shared) :
    Option Shared :=
  match event, s.log.link, s.log.queue with
  | .begin at_, .idle, shard :: rest =>
    let completed := s.log.completed ++ [shard]
    let checkpoint := checkpointOf job.jobId job.spec.moduleCid.toText job.spec.shards.length
      completed (max 0 ⌊at_⌋).toNat s.log.previous
    some { s with
      log := { s.log with completed := completed, queue := rest, link := .writing checkpoint } }
  | .put, .writing checkpoint, _ =>
    match p.canonicalCid (toValue checkpoint) with
    | .error _ => none
    | .ok handle =>
      some { s with
        blocks := s.blocks.put handle (toValue checkpoint)
        log := { s.log with link := .written handle checkpoint } }
  | .publish, .written handle checkpoint, _ =>
    some { s with
      log := { s.log with
        previous := some handle.toText
        published := s.log.published ++ [(handle, checkpoint)]
        link := .publishing } }
  | .acknowledged, .publishing, _ =>
    some { s with log := { s.log with done := s.log.done + 1, link := .idle } }
  | _, _, _ => none

/-! ## The whole -/

/-- Every shard's loop over what the shards share. -/
def running (p : Platform) (job : PreparedJob) :
    System Nat Shared ShardState ShardEvent ChainEvent where
  own i event s st :=
    match job.plans[i]? with
    | none => none
    | some plan => shardStep p job plan event s st
  alone event s := chainStep p job event s

/-- A state some run of the prepared job reaches, along steps the guard admits. -/
abbrev ReachesWhere (p : Platform) (prepared : Prepared)
    (guard : Config Nat Shared ShardState → Event Nat ShardEvent ChainEvent → Prop)
    (c : Config Nat Shared ShardState) : Prop :=
  (running p prepared.job).Reaches guard prepared.start c

/-- A state some run of the prepared job reaches. -/
abbrev Reaches (p : Platform) (prepared : Prepared) (c : Config Nat Shared ShardState) : Prop :=
  ReachesWhere p prepared System.anything c

end O2Fabric.Submit
