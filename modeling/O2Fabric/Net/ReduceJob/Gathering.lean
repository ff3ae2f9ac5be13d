/-
  O2Fabric.Net.ReduceJob.Gathering

  What a reduction that ran was made from: one contribution for each agreed
  shard, in the order of the shards, the tree over them, and a result for each
  of its combines.
-/

import O2Fabric.Core.Reduce.Churn
import O2Fabric.Net.ReduceJob

namespace O2Fabric.Net

open Job Reduce Submit

/-- A loop that may refuse keeps what each of its passes keeps. -/
theorem foldlM_ok_induction {α ε σ : Type} {f : σ → α → Except ε σ} {P : List α → σ → Prop}
    {start : σ} (hstart : P [] start)
    (hstep : ∀ done x s s', P done s → f s x = .ok s' → P (done ++ [x]) s') {l : List α}
    {final : σ} (h : l.foldlM f start = .ok final) : P l final := by
  induction l using List.reverseRecOn generalizing final with
  | nil =>
    obtain rfl := Except.ok.inj h
    exact hstart
  | append_singleton done x ih =>
    rw [List.foldlM_append] at h
    cases hdone : done.foldlM f start with
    | error e =>
      rw [hdone] at h
      cases h
    | ok s =>
      rw [hdone] at h
      have hx : f s x = .ok final := by
        cases hfx : f s x with
        | error e =>
          simp [bind, Except.bind, List.foldlM, hfx] at h
        | ok s' =>
          simpa [bind, Except.bind, List.foldlM, hfx, pure, Except.pure] using h
      exact hstep done x s final (ih hdone) hx

def agreedShards (shards : List ShardResult) : List ShardResult :=
  shards.filter fun shard => shard.verification.isAgreed

theorem agreedShards_concat (done : List ShardResult) (shard : ShardResult) :
    agreedShards (done ++ [shard])
      = agreedShards done ++ if shard.verification.isAgreed then [shard] else [] := by
  show List.filter _ _ = List.filter _ _ ++ _
  rw [List.filter_append, List.filter_singleton, Bool.cond_eq_ite]

theorem forall₂_concat {α β : Type} {R : α → β → Prop} {as : List α} {bs : List β} {a : α} {b : β}
    (h : List.Forall₂ R as bs) (hab : R a b) : List.Forall₂ R (as ++ [a]) (bs ++ [b]) :=
  List.rel_append h (.cons hab .nil)

section

variable {p : Platform} {codec : Codec p} {options : ReduceJobOptions}

structure Contributes (codec : Codec p) (options : ReduceJobOptions) (shard : ShardResult)
    (contribution : ReduceContribution) : Prop where
  attributed : contributorFor shard.partitionIndex options.contributors
    = some contribution.contributorId
  projected : ∃ output partialValue bytes,
    options.project output shard.partitionIndex = .ok partialValue ∧
    codec.encode partialValue = .ok bytes ∧ bytes.length ≤ MAX_PARTIAL_BYTES ∧
    contribution.cid = codec.blockCid bytes

variable {shard : ShardResult}

theorem projectShard_ok {output : CanonicalValue} {contribution : ReduceContribution}
    (h : projectShard codec options output shard.partitionIndex = .ok contribution) :
    Contributes codec options shard contribution := by
  unfold projectShard at h
  cases hproject : options.project output shard.partitionIndex with
  | error message =>
    rw [hproject] at h
    cases h
  | ok partialValue =>
    rw [hproject] at h
    dsimp only at h
    split at h
    · cases h
    · cases hencode : codec.encode partialValue with
      | error error =>
        rw [hencode] at h
        cases h
      | ok bytes =>
        rw [hencode] at h
        dsimp only at h
        split at h
        · cases h
        · next hsmall =>
          cases hcontributor : contributorFor shard.partitionIndex options.contributors with
          | none =>
            rw [hcontributor] at h
            cases h
          | some contributorId =>
            rw [hcontributor] at h
            cases h
            exact ⟨hcontributor, output, partialValue, bytes, hproject, hencode,
              by omega, rfl⟩

/-- What the loop has gathered from the shards it has passed. -/
structure Gathered.Of (codec : Codec p) (options : ReduceJobOptions) (done : List ShardResult)
    (gathered : Gathered) : Prop where
  contributions : List.Forall₂ (Contributes codec options) (agreedShards done)
    gathered.contributions
  leaves : gathered.leaves = gathered.contributions.map ReduceContribution.cid
  skipped : gathered.skipped = (done.filter fun shard => !shard.verification.isAgreed).map
    ShardResult.partitionIndex

variable {gathered : Gathered}

/-- A shard that did not agree is skipped. -/
theorem Gathered.Of.skip {done : List ShardResult} (h : gathered.Of codec options done)
    (hagreed : shard.verification.isAgreed = false) :
    Gathered.Of codec options (done ++ [shard])
      { gathered with skipped := gathered.skipped ++ [shard.partitionIndex] } := by
  refine ⟨?_, h.leaves, ?_⟩
  · rw [agreedShards_concat, hagreed, if_neg Bool.false_ne_true, List.append_nil]
    exact h.contributions
  · rw [List.filter_append, List.map_append, ← h.skipped]
    simp [hagreed]

theorem gatherShard_of {done : List ShardResult} {gathered' : Gathered}
    (h : gathered.Of codec options done)
    (hstep : gatherShard codec options gathered shard = .ok gathered') :
    gathered'.Of codec options (done ++ [shard]) := by
  unfold gatherShard at hstep
  cases hverification : shard.verification with
  | agreed resultCid output agreeing replicas failures gross useful =>
    rw [hverification] at hstep
    dsimp only at hstep
    have hagreed : shard.verification.isAgreed = true := by rw [hverification]; rfl
    cases hproject : projectShard codec options output shard.partitionIndex with
    | error reason =>
      rw [hproject] at hstep
      cases hstep
    | ok contribution =>
      rw [hproject] at hstep
      cases hstep
      refine ⟨?_, ?_, ?_⟩
      · rw [agreedShards_concat, if_pos hagreed]
        exact forall₂_concat h.contributions (projectShard_ok hproject)
      · rw [List.map_append, ← h.leaves]
        rfl
      · rw [List.filter_append, List.map_append, ← h.skipped]
        simp [hagreed]
  | disagreed partitions failures gross =>
    rw [hverification] at hstep
    cases hstep
    exact h.skip (by rw [hverification]; rfl)
  | insufficient reason failures =>
    rw [hverification] at hstep
    cases hstep
    exact h.skip (by rw [hverification]; rfl)

theorem gatherShards_of {shards : List ShardResult}
    (h : gatherShards codec options shards = .ok gathered) :
    gathered.Of codec options shards := by
  apply foldlM_ok_induction (P := fun done g => g.Of codec options done) _ _ h
  · exact ⟨.nil, rfl, rfl⟩
  · intro done shard g g' hg hstep
    exact gatherShard_of hg hstep

end

/-! ## A reduction that ran -/

section

variable {p : Platform} {codec : Codec p} {sigs : Signatures} {job : JobResult}
  {options : ReduceJobOptions} {answers : Answers} {reduced : Reduction}

/-- What a reduction that ran was made from. -/
structure Reduction.Of (p : Platform) (codec : Codec p) (sigs : Signatures) (job : JobResult)
    (options : ReduceJobOptions) (answers : Answers) (reduced : Reduction) : Prop where
  executors : options.executors ≠ []
  gathered : ∃ gathered : Gathered, gathered.Of codec options job.shards ∧
    reduced.leaves = gathered.leaves ∧ reduced.skipped = gathered.skipped ∧
    deriveReduceTree p.hashText gathered.contributions (options.fanout.getD DEFAULT_FANOUT)
      = .ok reduced.tree
  outcome : reduced.outcome = (executeLevels p.hashText p.localeCompare
    (options.reduceRun p codec answers reduced.tree)).outcome reduced.tree
  aggregateAttestation : reduced.aggregateAttestation
    = aggregateAttestationOf p sigs reduced.tree reduced.outcome
        (observe p options (options.results p codec answers reduced.tree))
        options.trustedIssuers answers.now

theorem reduceJob_ok (h : reduceJob p codec sigs job options answers = .ok reduced) :
    reduced.Of p codec sigs job options answers := by
  unfold reduceJob at h
  split at h
  · cases h
  · next hexecutors =>
    cases hgather : gatherShards codec options job.shards with
    | error reason =>
      rw [hgather] at h
      cases h
    | ok gathered =>
      rw [hgather] at h
      dsimp only at h
      split at h
      · cases h
      · cases htree : deriveReduceTree p.hashText gathered.contributions
            (options.fanout.getD DEFAULT_FANOUT) with
        | error error =>
          rw [htree] at h
          cases h
        | ok tree =>
          rw [htree] at h
          dsimp only at h
          split at h
          · cases h
          · cases h
            refine ⟨hexecutors, ⟨gathered, gatherShards_of hgather, rfl, rfl, htree⟩, ?_, rfl⟩
            show (executeReduceTraced _ _ _).1 = _
            unfold executeReduceTraced
            rw [if_neg (show (options.reduceRun p codec answers tree).executors ≠ [] from
              hexecutors)]
            rfl

/-- The combines of the tree start at level one. -/
theorem Reduction.Of.one_le_level (h : reduced.Of p codec sigs job options answers)
    {node : ReduceTreeNode} (hnode : node ∈ reduced.tree.nodes) : 1 ≤ node.level := by
  obtain ⟨gathered, -, -, -, htree⟩ := h.gathered
  obtain ⟨hfanout, -, -, -, root, hrounds, -, -⟩ := deriveReduceTree_rounds htree
  exact (hrounds.node_spec hfanout node hnode).1.one_le_level

/-- The root is a leaf, or the id of a combine. -/
theorem Reduction.Of.root_mem (h : reduced.Of p codec sigs job options answers) :
    reduced.tree.rootId ∈ reduced.tree.leaves.map ReduceLeaf.id ∨
      ∃ node ∈ reduced.tree.nodes, node.id = reduced.tree.rootId := by
  obtain ⟨gathered, -, -, -, htree⟩ := h.gathered
  obtain ⟨hfanout, -, -, -, root, hrounds, -, -⟩ := deriveReduceTree_rounds htree
  rcases hrounds.mem_layer hfanout _ List.mem_cons_self with hleaf | ⟨node, hnode, hid, -⟩
  · exact Or.inl hleaf
  · exact Or.inr ⟨node, hnode, hid⟩

/-- Every combine of the tree has a result, and every result is of one. -/
theorem Reduction.Of.exists_result (h : reduced.Of p codec sigs job options answers)
    {node : ReduceTreeNode} :
    (∃ result ∈ options.results p codec answers reduced.tree, result.node = node) ↔
      node ∈ reduced.tree.nodes := by
  unfold ReduceJobOptions.results
  rw [exists_result_iff]
  exact ⟨And.left, fun hnode => ⟨hnode, h.one_le_level hnode⟩⟩

end

/-! ## Partials to run on -/

def rowsPartial (rows : Nat) : CanonicalValue :=
  .record [(js "counts", .record []), (js "rows", .number (.finite rows))]

/-- As many bytes as a partial has rows, and none for anything else. -/
def encodeRows (value : CanonicalValue) : Except JsString Bytes :=
  match asFabricPartial value with
  | some rows => .ok (List.replicate rows.rows.num.toNat 0)
  | none => .ok []

def unaryBlockCid (bytes : Bytes) : Cid := unaryCid bytes.length

/-- Texts hash by code unit, addresses read back, and every statement about a task's
    result verifies. -/
def countingPlatform : Platform :=
  { readingPlatform with
    hashText := codeUnitBytes
    canonicalCid := fun value => (encodeRows value).map unaryBlockCid
    refusesAttestation := fun _ _ _ _ => none }

theorem countingPlatform_parses (cid : Cid) : countingPlatform.parseCid cid.toText = some cid :=
  readingPlatform_parses cid

def countingCodec : Codec countingPlatform where
  encode := encodeRows
  decode bytes := some (rowsPartial bytes.length)
  blockCid := unaryBlockCid
  canonicalCid_eq _ := rfl

/-- The agreed shard of an owner whose two nodes ran it. -/
def ownedShard (partitionIndex : Nat) (owner : JsString) : ShardResult where
  partitionIndex := partitionIndex
  inputCid := plainCid
  verification := .agreed plainCid .null [] 2 [] 0 0
  attempted := []
  generations := 1
  ending := .agreed
  speculated := false
  judgedAt := none
  disagreed := false
  copies := []
  degraded := false
  quorum := .composed []
  attestation := .receipt ⟨.ownerDomain, [], 2, [js "o"], [js "i"], [owner], none⟩
  rejections := []

def jobOf (shards : List ShardResult) : JobResult where
  moduleCid := plainCid
  shards := shards
  attestation := none
  complete := true
  gross := 0
  useful := 0
  verificationMultiplier := 0
  redispatches := 0
  leaseHistory := []
  speculationMultiplier := 0
  speculationSpent := 0
  coverage := none

end O2Fabric.Net

/-! # Running

`reduceJob` while it runs, over the requestor's store.

The leaves are stored one after another; then the combines of one level run
concurrently, and the next level begins when all of them are through.  A
thread is one node of the tree, at its position in `tree.nodes`.  Its steps
are what runs between two of its `await`s: it reads an input, merges, stores,
asks a peer, is answered, is handed a block.  The store's writes may fail, and
a combine that throws makes the whole reduction reject while the others of its
level go on.

A store is what its port offers: blocks go in under the address of their bytes
and none is taken out.  Others may write to it at any time.
-/

namespace O2Fabric.Net

open Job Reduce Submit Threads

section

variable {p : Platform}

/-- Blocks under the text of the address of their bytes. -/
structure Blockstore (codec : Codec p) where
  blocks : InsertionMap JsString Bytes
  addressed : ∀ key bytes, blocks.get? key = some bytes → (codec.blockCid bytes).toText = key

namespace Blockstore

variable {codec : Codec p}

def empty : Blockstore codec := ⟨.empty, fun _ _ h => nomatch h⟩

def get (store : Blockstore codec) (cid : Cid) : Option Bytes := store.blocks.get? cid.toText

def put (store : Blockstore codec) (bytes : Bytes) : Blockstore codec where
  blocks := store.blocks.set (codec.blockCid bytes).toText bytes
  addressed := by
    intro key bytes' hget
    rw [InsertionMap.get?_set] at hget
    split at hget
    · next heq =>
      cases hget
      exact heq.symm
    · exact store.addressed key bytes' hget

end Blockstore

variable (p) (codec : Codec p)

/-! ## One combine -/

/-- A combine whose inputs are resolved: what it has gathered, and the executors it has
    not asked. -/
structure Placing where
  node : ReduceTreeNode
  task : CombineTask
  attempt : LocalAttempt
  rest : List JsString

inductive Combining
  | idle
  /-- The requestor's own combine, with the inputs it has not read. -/
  | reading (placing : Placing) (unread : List JsString) (inputs : List CanonicalValue)
  /-- Its result is being stored. -/
  | keeping (placing : Placing) (bytes : Bytes)
  | walking (placing : Placing)
  | asking (placing : Placing) (executorId : JsString)
  /-- The block of a result is asked for. -/
  | fetching (placing : Placing) (executorId : JsString) (product : CombineProduct)
  /-- It has come, and is being stored. -/
  | storing (placing : Placing) (executorId : JsString) (product : CombineProduct) (bytes : Bytes)
  | ended

def Placing.answered (placing : Placing) (executorId : JsString) (product : CombineProduct) :
    Placing :=
  let walk := placing.attempt.walk
  { placing with attempt := { placing.attempt with walk :=
    ⟨walk.produced ++ [⟨product.cid.toText, executorId, product.attestation⟩], walk.attempts,
      walk.calls ++ [⟨placing.task, executorId, some product⟩]⟩ } }

def Placing.unanswered (placing : Placing) (executorId : JsString) : Placing :=
  let walk := placing.attempt.walk
  { placing with attempt := { placing.attempt with walk :=
    ⟨walk.produced, walk.attempts + 1, walk.calls ++ [⟨placing.task, executorId, none⟩]⟩ } }

/-- The requestor's own combine produced nothing; that is no attempt. -/
def Placing.declined (placing : Placing) : Placing :=
  let walk := placing.attempt.walk
  { placing with attempt := ⟨⟨walk.produced, walk.attempts,
      walk.calls ++ [⟨placing.task, LOCAL_COMBINE_EXECUTOR, none⟩]⟩, false,
    some LOCAL_PRODUCED_NOTHING⟩ }

/-- The requestor's own combine is the first replica. -/
def Placing.combined (placing : Placing) (cid : Cid) : Placing :=
  let placing := placing.answered LOCAL_COMBINE_EXECUTOR ⟨cid, .signedByNobody⟩
  { placing with attempt := { placing.attempt with combinedLocally := true } }

/-- What the level loop is handed. -/
def Placing.result (placing : Placing) : CombineResult :=
  let attempt := placing.attempt
  match attempt.walk.produced with
  | [] => ⟨placing.node, none, attempt.walk.attempts, 0, [], attempt.combinedLocally,
      attempt.localRefusal, attempt.walk.calls⟩
  | accepted :: others =>
    ⟨placing.node, some accepted, attempt.walk.attempts, (accepted :: others).length,
      distinct ((accepted :: others).map Produced.cid), attempt.combinedLocally,
      attempt.localRefusal, attempt.walk.calls⟩

/-! ## The reduction -/

inductive ReduceStage
  | gathering (rest : List ShardResult) (gathered : Gathered)
  /-- A leaf is being stored. -/
  | storing (contribution : ReduceContribution) (bytes : Bytes) (rest : List ShardResult)
      (gathered : Gathered)
  | reducing (tree : ReduceTree) (level : Nat) (report : Report)
  | ended (outcome : ReduceOutcome)
  | refused (reason : JsString)
  | threw

/-- A combine asked for, and what the store held when it was. -/
structure CombineRequest where
  task : CombineTask
  executorId : JsString
  store : Blockstore codec

structure Reducing where
  store : Blockstore codec
  stage : ReduceStage
  /-- The results of the combines that are through, by position. -/
  results : InsertionMap Nat CombineResult
  broken : Bool
  /-- Every request made so far; no step reads it. -/
  requests : List (CombineRequest p codec)

namespace Reducing

variable {p} {codec}

def ask (s : Reducing p codec) (task : CombineTask) (executorId : JsString) : Reducing p codec :=
  { s with requests := s.requests ++ [⟨task, executorId, s.store⟩] }

def finish (s : Reducing p codec) (i : Nat) (result : CombineResult) : Reducing p codec :=
  { s with results := s.results.set i result }

def keep (s : Reducing p codec) (bytes : Bytes) : Reducing p codec :=
  { s with store := s.store.put bytes }

def break_ (s : Reducing p codec) : Reducing p codec := { s with broken := true }

end Reducing

/-- What the reduction is given besides its options. -/
structure ReducePorts where
  options : ReduceJobOptions
  combiner : List CanonicalValue → CanonicalValue

/-- `Math.max(1, redundancy ?? 1)`. -/
def ReduceJobOptions.wanted (options : ReduceJobOptions) : JsNumber :=
  JsNumber.mathMax (.finite 1) (options.redundancy.getD (.finite 1))

inductive CombineAction
  | begin
  | read
  | merge
  /-- The write of its own result, which may fail. -/
  | kept (written : Bool)
  | ask
  /-- The reply to the combine request; `none` where there is none that parses. -/
  | replied (response : Option AgentResponse)
  | handedOver (response : Option AgentResponse)
  | stored (written : Bool)
  | finish

variable {p} {codec} (ports : ReducePorts)

def beginCombine (s : Reducing p codec) (i : Nat) (node : ReduceTreeNode) (report : Report) :
    Reducing p codec × Combining :=
  match node.children.mapM report.resolved.get? with
  | none =>
    -- a child failed outright: nothing is placed, and nobody is asked
    (s.finish i ⟨node, none, 0, 0, [], false, none, []⟩, .ended)
  | some inputCids =>
    let task : CombineTask := ⟨node.id, inputCids, node.level⟩
    let ranked := rendezvousRank p.hashText p.localeCompare node.id ports.options.executors
    match ports.options.admitsLocally p task with
    | .refused reason => (s, .walking ⟨node, task, ⟨⟨[], 0, []⟩, false, some reason⟩, ranked⟩)
    | .ok =>
      (s.ask task LOCAL_COMBINE_EXECUTOR,
        .reading ⟨node, task, ⟨⟨[], 0, []⟩, false, none⟩, ranked⟩ inputCids [])

/-- The requestor reads its next input. -/
def readNext (s : Reducing p codec) (placing : Placing) (cidString : JsString)
    (unread : List JsString) (inputs : List CanonicalValue) : Reducing p codec × Combining :=
  match p.parseCid cidString with
  | none => (s.break_, .ended)
  | some cid =>
    match s.store.get cid with
    | none => (s, .walking placing.declined)
    | some bytes =>
      match codec.decode bytes with
      | none => (s.break_, .ended)
      | some decoded => (s, .reading placing unread (inputs ++ [decoded]))

def askNext (s : Reducing p codec) (placing : Placing) (executorId : JsString) :
    Reducing p codec × Combining :=
  match placing.task.inputCids.mapM p.parseCid with
  -- an input that is no address costs this combine an attempt, and no request is sent
  | none => (s, .walking (placing.unanswered executorId))
  | some _ => (s.ask placing.task executorId, .asking placing executorId)

/-- The block of a result has come, or not. -/
def handOver (s : Reducing p codec) (placing : Placing) (executorId : JsString)
    (product : CombineProduct) (response : Option AgentResponse) : Reducing p codec × Combining :=
  match repliedBytes response with
  | none => (s, .walking (placing.unanswered executorId))
  | some bytes =>
    if codec.blockCid bytes = product.cid then (s, .storing placing executorId product bytes)
    else (s, .walking (placing.unanswered executorId))

/-- One step of one combine; `none` is one that cannot be taken. -/
def combineStep (i : Nat) (action : CombineAction) (s : Reducing p codec) (l : Combining) :
    Option (Reducing p codec × Combining) :=
  match l, action with
  | .idle, .begin =>
    match s.stage with
    | .reducing tree level report =>
      match tree.nodes[i]? with
      | some node =>
        if node.level = level then some (beginCombine ports s i node report) else none
      | none => none
    | _ => none
  | .reading placing (cidString :: unread) inputs, .read =>
    some (readNext s placing cidString unread inputs)
  | .reading placing [] inputs, .merge =>
    match codec.encode (ports.combiner inputs) with
    | .error _ => some (s, .walking placing.declined)
    | .ok bytes => some (s, .keeping placing bytes)
  | .keeping placing bytes, .kept written =>
    if written then some (s.keep bytes, .walking (placing.combined (codec.blockCid bytes)))
    else some (s.break_, .ended)
  | .walking placing, .ask =>
    match placing.rest with
    | [] => none
    | executorId :: rest =>
      if JsNumber.reachedBy placing.attempt.walk.produced.length ports.options.wanted then none
      else some (askNext s { placing with rest := rest } executorId)
  | .walking placing, .finish =>
    if placing.rest = []
        ∨ JsNumber.reachedBy placing.attempt.walk.produced.length ports.options.wanted = true then
      some (s.finish i placing.result, .ended)
    else none
  | .asking placing executorId, .replied response =>
    match namedProduct response with
    | none => some (s, .walking (placing.unanswered executorId))
    | some product => some (s, .fetching placing executorId product)
  | .fetching placing executorId product, .handedOver response =>
    some (handOver s placing executorId product response)
  | .storing placing executorId product bytes, .stored written =>
    if written then some (s.keep bytes, .walking (placing.answered executorId product))
    else some (s.break_, .ended)
  | _, _ => none

/-- What happens to the reduction as a whole. -/
inductive ReduceAction
  /-- The next shard is projected. -/
  | project
  /-- The write of a leaf, which may fail. -/
  | stored (written : Bool)
  | derive
  | advance
  /-- Somebody else writes to the store. -/
  | write (bytes : Bytes)

/-- The bytes of a shard's partial. -/
def projectedBytes (codec : Codec p) (options : ReduceJobOptions) (output : CanonicalValue)
    (partitionIndex : Nat) : Option Bytes :=
  match options.project output partitionIndex with
  | .error _ => none
  | .ok partialValue => (codec.encode partialValue).toOption

def projectNext (codec : Codec p) (options : ReduceJobOptions) (shard : ShardResult)
    (rest : List ShardResult) (gathered : Gathered) : Option ReduceStage :=
  match shard.verification with
  | .agreed _ output _ _ _ _ _ =>
    match projectShard codec options output shard.partitionIndex with
    | .error reason => some (.refused reason)
    | .ok contribution =>
      (projectedBytes codec options output shard.partitionIndex).map fun bytes =>
        .storing contribution bytes rest gathered
  | _ => some (.gathering rest { gathered with skipped := gathered.skipped ++ [shard.partitionIndex] })

/-- The stage once every shard is gathered. -/
def deriveStage (options : ReduceJobOptions) (gathered : Gathered) : ReduceStage :=
  if gathered.contributions = [] then .refused (js "no agreed shard produced a partial")
  else
    match deriveReduceTree p.hashText gathered.contributions
        (options.fanout.getD DEFAULT_FANOUT) with
    | .error _ => .threw
    | .ok tree => .reducing tree 1 (.start tree)

def positionsAt (tree : ReduceTree) (level : Nat) : List Nat :=
  (List.range tree.nodes.length).filter fun i =>
    (tree.nodes[i]?).any fun node => decide (node.level = level)

def reduceStep (ports : ReducePorts) (action : ReduceAction) (s : Reducing p codec) :
    Option (Reducing p codec) :=
  match action, s.stage with
  | .project, .gathering (shard :: rest) gathered =>
    (projectNext codec ports.options shard rest gathered).map fun stage =>
      { s with stage := stage }
  | .stored written, .storing contribution bytes rest gathered =>
    if written then
      let gathered := ⟨gathered.contributions ++ [contribution],
        gathered.leaves ++ [contribution.cid], gathered.skipped⟩
      some { s.keep bytes with stage := .gathering rest gathered }
    else some { s with stage := .threw }
  | .derive, .gathering [] gathered =>
    some { s with stage := deriveStage (p := p) ports.options gathered }
  | .advance, .reducing tree level report =>
    -- a combine that threw has no result, so its level is never through
    if s.broken then none
    else if tree.maxLevel < level then some { s with stage := .ended (report.outcome tree) }
    else
      ((positionsAt tree level).mapM s.results.get?).map fun results =>
        { s with stage := .reducing tree (level + 1) (results.foldl Report.record report) }
  | .write bytes, _ => some (s.keep bytes)
  | _, _ => none

def reducing (ports : ReducePorts) :
    System Nat (Reducing p codec) Combining CombineAction ReduceAction where
  own := combineStep ports
  alone := reduceStep ports

/-- Where it starts, over a store that may hold anything. -/
def ReducePorts.start (ports : ReducePorts) (job : JobResult) (store : Blockstore codec) :
    Config Nat (Reducing p codec) Combining where
  shared :=
    ⟨store,
      if ports.options.executors = [] then .refused (js "no executor to combine on")
      else .gathering job.shards ⟨[], [], []⟩,
      .empty, false, []⟩
  locals _ := .idle

end

end O2Fabric.Net
