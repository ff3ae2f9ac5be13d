/-
  O2Fabric.Core.Job.Submit.Prepare

  What `submitJob` does before it dispatches anything: the checks, the input
  blocks, the resume, the quorum and the first placement of every shard.

  The first placement has two arms.  Without an admission function each shard
  takes the least loaded nodes of its pool, counting what the shards before it
  were given; with one, the shards of a pool are offered to it together.
-/

import O2Fabric.Core.Job.Submit.Spec

namespace O2Fabric.Submit

open Job

/-! ## Candidates and quorum -/

def execByNodeId (spec : JobSpec) : InsertionMap JsString JobExecutor :=
  .ofPairs (spec.executors.map fun e => (e.nodeId, e))

def descriptorByNodeId (spec : JobSpec) : InsertionMap JsString NodeDescriptor :=
  .ofPairs (spec.nodes.map fun n => (n.nodeId, n))

/-- The nodes with an executor behind them. -/
def candidateNodes (spec : JobSpec) : List NodeDescriptor :=
  spec.nodes.filter fun n => (execByNodeId spec).has n.nodeId

def peerIdByNodeKey (nodes : List NodeDescriptor) : InsertionMap JsString JsString :=
  .ofPairs (nodes.filterMap fun n => n.certificate.map fun c => (c.nodeKey, n.nodeId))

/-- The quorum composed over the candidates, where every one is certificated
    and more than one replica is asked for. -/
def compositionOf (p : Platform) (spec : JobSpec) (redundancy : Nat) : Option QuorumResult :=
  let nodes := candidateNodes spec
  let certificated := nodes.filterMap NodeDescriptor.certificate
  if nodes ≠ [] ∧ certificated.length = nodes.length ∧ 2 ≤ redundancy then
    some (composeQuorum p certificated
      { size := redundancy
        requireIndependentPaths := none
        requireDistinctIssuers := some false
        peerIdOf := some fun c => (peerIdByNodeKey nodes).get? c.nodeKey })
  else none

/-- The candidates whose certificates are among the members. -/
def quorumPool (spec : JobSpec) (members : List NodeCertificate) : List NodeDescriptor :=
  let keys := members.map NodeCertificate.nodeKey
  (candidateNodes spec).filter fun n =>
    match n.certificate with
    | none => false
    | some certificate => decide (certificate.nodeKey ∈ keys)

def gateOf (spec : JobSpec) (redundancy : Nat) (composition : Option QuorumResult)
    (shard : ShardSpec) : ShardGate :=
  let untouched := fun (reason : JsString) =>
    ShardGate.mk (.notAttempted reason) (candidateNodes spec) false none
  match shard.label with
  | .sovereign _ =>
    untouched (js "a sovereign shard runs on its owner’s own nodes, which is one operator — the composer would refuse it correctly and uselessly, so it is never handed one")
  | .pub =>
    if redundancy < 2 then
      untouched (js "redundancy 1 asks for no verification, so there is no quorum to compose")
    else
      match composition with
      | none =>
        untouched (js "this requestor holds no certificate for at least one candidate, so it has nothing to compose a quorum from — the receipt reports the named absence rather than a strength")
      | some (.composed members operators _) =>
        ⟨.composed operators, quorumPool spec members, false, none⟩
      | some (.refused refusal reason) =>
        ⟨.notComposed refusal reason, candidateNodes spec,
          decide (spec.onQuorumShortfall = .runsAtAvailableRedundancy),
          if spec.onQuorumShortfall = .refusesTheShard then some reason else none⟩

/-- The gate narrows the pool to a composed quorum. -/
def ShardGate.narrowed (gate : ShardGate) : Bool :=
  match gate.quorum with
  | .composed _ => true
  | _ => false

/-! ## Resuming -/

/-- An answer a checkpoint already named. -/
structure CarriedShard where
  resultCid : Cid
  output : CanonicalValue

/-- One shard of the recovered checkpoint, carried if its answer is at hand. -/
def carry (p : Platform) (blocks : Blocks) (partitionCount : Nat)
    (carried : InsertionMap Nat CarriedShard) (shard : CompletedShard) :
    InsertionMap Nat CarriedShard :=
  if partitionCount ≤ shard.partitionIndex then carried
  else
    match p.parseCid shard.resultCid with
    | none => carried
    | some resultCid =>
      match blocks resultCid with
      | some (.ok output) => carried.set shard.partitionIndex ⟨resultCid, output⟩
      | _ => carried

/-- What is carried over from the newest readable handle, and that handle. -/
def resumeState (p : Platform) (handles : List Cid) (blocks : Blocks) (jobId : JsString)
    (partitionCount : Nat) : Except SubmitError (InsertionMap Nat CarriedShard × Option Cid) :=
  match handles with
  | [] => .ok (.empty, none)
  | newest :: _ =>
    match recoverCheckpoint blocks handles 0 with
    | none =>
      let detail := js "none of the " ++ decimal handles.length
        ++ js " handle(s) offered for this resume was readable; the newest is "
      match readCheckpoint newest blocks with
      | .ok _ =>
        .error (.checkpointUnreadable (.blockMissing newest.toText)
          (detail ++ js "readable now, so the store changed under this read"))
      | .error (failure, reason) => .error (.checkpointUnreadable failure (detail ++ reason))
    | some (checkpoint, cid, _) =>
      if checkpoint.jobId ≠ jobId then
        .error (.checkpointNamesAnotherJob jobId checkpoint.jobId)
      else .ok (checkpoint.completed.foldl (carry p blocks partitionCount) .empty, some cid)

/-! ## First placement -/

structure ShardSeed where
  partitionIndex : Nat
  spec : ShardSpec
  inputCid : Cid
  carried : Option CarriedShard
  gate : ShardGate

/-- A shard and where it goes first.  `choices` are the nodes it was placed
    among, with the load they had then. -/
structure ShardPlan extends ShardSeed where
  choices : List NodeDescriptor
  placement : Placement
  rejections : List Rejection

def CARRIED_NOT_PLACED : JsString :=
  js "a checkpoint already named this shard’s answer, so this requestor placed it nowhere"

namespace ShardSeed

def shardId (seed : ShardSeed) : JsString := decimal seed.partitionIndex

def request (seed : ShardSeed) (redundancy : Nat) : PlacementRequest :=
  requestFor seed.spec seed.shardId redundancy

/-- Why the shard is not placed at all. -/
def refusal (seed : ShardSeed) : Option JsString :=
  match seed.carried with
  | some _ => some CARRIED_NOT_PLACED
  | none => seed.gate.refusal

end ShardSeed

/-- The nodes with what they were given so far added to their load. -/
def loaded (counts : InsertionMap JsString Nat) (nodes : List NodeDescriptor) :
    List NodeDescriptor :=
  nodes.map fun n => { n with load := n.load + (((counts.get? n.nodeId).getD 0 : Nat) : ℚ) }

def counted (counts : InsertionMap JsString Nat) : Placement → InsertionMap JsString Nat
  | .placed nodeIds _ =>
    nodeIds.foldl (fun counts id => counts.set id ((counts.get? id).getD 0 + 1)) counts
  | .unplaceable _ => counts

section

variable (p : Platform) (redundancy : Nat)

/-- The arm without an admission function. -/
def placeAlone : InsertionMap JsString Nat → List ShardSeed → List ShardPlan
  | _, [] => []
  | counts, seed :: rest =>
    match seed.refusal with
    | some reason => ⟨seed, [], .unplaceable reason, []⟩ :: placeAlone counts rest
    | none =>
      let nodesForShard := loaded counts seed.gate.pool
      let placement := planPlacement p (seed.request redundancy) nodesForShard
      ⟨seed, nodesForShard, placement, []⟩ :: placeAlone (counted counts placement) rest

/-- The shards offered to one pool together, each with its answer. -/
def offeredTo (narrowed : Bool) (ask : Nat → Offer → Admission) (seeds : List ShardSeed) :
    List (ShardSeed × OfferedPlacement) :=
  let group := seeds.filter fun seed => seed.refusal.isNone && seed.gate.narrowed == narrowed
  match group with
  | [] => []
  | first :: _ =>
    group.zip (planWithOffers p (group.map fun seed => seed.request redundancy) first.gate.pool
      ask)

/-- The arm with an admission function.  `ask` answers for either pool. -/
def placeOffered (ask : Bool → Nat → Offer → Admission) (seeds : List ShardSeed) :
    List ShardPlan :=
  let offered := offeredTo p redundancy true (ask true) seeds
    ++ offeredTo p redundancy false (ask false) seeds
  seeds.map fun seed =>
    match seed.refusal with
    | some reason => ⟨seed, [], .unplaceable reason, []⟩
    | none =>
      match offered.find? fun pair => pair.1.partitionIndex == seed.partitionIndex with
      | some pair => ⟨seed, seed.gate.pool, pair.2.toPlacement, pair.2.rejections⟩
      | none => ⟨seed, seed.gate.pool, .unplaceable [], []⟩

end

/-! ## The whole -/

/-- Everything about a job that does not change while it runs. -/
structure PreparedJob where
  spec : JobSpec
  options : SubmitOptions
  redundancy : Nat
  jobId : JsString
  carried : InsertionMap Nat CarriedShard
  resumedFrom : Option Cid
  now : ℚ
  plans : List ShardPlan

/-- How a submission ends before anything runs. -/
inductive Refusal
  | returned (error : SubmitError)
  | threw

/-- The address of each shard's value, each block put, or the first that has
    no canonical encoding. -/
def encodeInputs (p : Platform) :
    Nat → List ShardSpec → Blocks → Except SubmitError (List Cid × Blocks)
  | _, [], blocks => .ok ([], blocks)
  | i, shard :: rest, blocks =>
    match p.canonicalCid shard.value with
    | .error detail => .error (.inputNotEncodable i detail)
    | .ok cid =>
      match encodeInputs p (i + 1) rest (blocks.put cid shard.value) with
      | .error error => .error error
      | .ok (cids, blocks) => .ok (cid :: cids, blocks)

/-- `none` where the code throws. -/
def jobIdOf (p : Platform) (moduleCid : Cid) (inputCids : List Cid) : Option JsString :=
  (p.canonicalCid (.record [(js "module", .text moduleCid.toText),
    (js "inputs", .list (inputCids.map fun cid => .text cid.toText))])).toOption.map Cid.toText

def seedsOf (p : Platform) (spec : JobSpec) (redundancy : Nat) (inputCids : List Cid)
    (carried : InsertionMap Nat CarriedShard) : List ShardSeed :=
  let composition := compositionOf p spec redundancy
  (spec.shards.zip inputCids).zipIdx.map fun (shard, i) =>
    { partitionIndex := i
      spec := shard.1
      inputCid := shard.2
      carried := carried.get? i
      gate := gateOf spec redundancy composition shard.1 }

def plansOf (p : Platform) (spec : JobSpec) (redundancy : Nat) (inputCids : List Cid)
    (carried : InsertionMap Nat CarriedShard) (ask : Bool → Nat → Offer → Admission) :
    List ShardPlan :=
  let seeds := seedsOf p spec redundancy inputCids carried
  if spec.admits then placeOffered p redundancy ask seeds
  else placeAlone p redundancy .empty seeds

/-- The checks before anything is encoded. -/
def specError (spec : JobSpec) : Option SubmitError :=
  if spec.shards = [] then some .noShards
  else if spec.redundancy.positiveInteger? = none then some (.badRedundancy spec.redundancy)
  else
    match spec.executors.find? fun e => decide (e.nodeId ∉ spec.nodes.map NodeDescriptor.nodeId) with
    | some executor => some (.missingNodeDescriptor executor.nodeId)
    | none =>
      (spec.shards.findIdx? fun shard => decide (shard.label = .sovereign [])).map
        .shardMissingOwner

/-- What a prepared job starts with. -/
structure Prepared where
  job : PreparedJob
  leases : LeaseTable ℚ
  ledger : SpeculationLedger
  blocks : Blocks

/-- Everything up to the first dispatch. -/
def prepare (p : Platform) (spec : JobSpec) (options : SubmitOptions) (blocks : Blocks)
    (ask : Bool → Nat → Offer → Admission) (now : ℚ) : Except Refusal Prepared :=
  match specError spec, spec.redundancy.positiveInteger? with
  | some error, _ => .error (.returned error)
  | none, none => .error (.returned (.badRedundancy spec.redundancy))
  | none, some redundancy =>
    match SpeculationLedger.create spec.shards.length options.speculation.fraction,
      LeaseTable.create (spec.leaseMs.getD DEFAULT_LEASE_MS) DEFAULT_MAX_GENERATIONS with
    | some ledger, some leases =>
      match encodeInputs p 0 spec.shards blocks with
      | .error error => .error (.returned error)
      | .ok (inputCids, blocks) =>
        match jobIdOf p spec.moduleCid inputCids with
        | none => .error .threw
        | some jobId =>
          match resumeState p options.resumeFrom blocks jobId spec.shards.length with
          | .error error => .error (.returned error)
          | .ok (carried, resumedFrom) =>
            .ok ⟨⟨spec, options, redundancy, jobId, carried, resumedFrom, now,
              plansOf p spec redundancy inputCids carried ask⟩, leases, ledger, blocks⟩
    | _, _ => .error .threw

/-! ## What the first placement keeps to -/

theorem eligibleNodes_loaded (request : PlacementRequest) (counts : InsertionMap JsString Nat)
    (nodes : List NodeDescriptor) :
    eligibleNodes request (loaded counts nodes) = loaded counts (eligibleNodes request nodes) := by
  rw [eligibleNodes, eligibleNodes]
  split
  · rfl
  · rfl
  · rw [loaded, loaded, List.filter_map]
    rfl

variable {nodeIds : List JsString}

/-- Load decides who is taken, not who may be. -/
theorem drawn_of_loaded {request : PlacementRequest} {counts : InsertionMap JsString Nat}
    {nodes : List NodeDescriptor} (h : Drawn request (loaded counts nodes) nodeIds) :
    Drawn request nodes nodeIds := by
  refine ⟨h.ne_nil, fun nodeId hid => ?_⟩
  obtain ⟨node, hnode, rfl⟩ := h.eligible nodeId hid
  rw [eligibleNodes_loaded] at hnode
  obtain ⟨node', hnode', rfl⟩ := List.mem_map.mp hnode
  exact ⟨node', hnode', rfl⟩

/-- Every pool is a part of the candidates. -/
theorem pool_gateOf_sublist (spec : JobSpec) (redundancy : Nat)
    (composition : Option QuorumResult) (shard : ShardSpec) :
    (gateOf spec redundancy composition shard).pool.Sublist (candidateNodes spec) := by
  unfold gateOf
  dsimp only
  split
  · exact List.Sublist.refl _
  · split
    · exact List.Sublist.refl _
    · split
      · exact List.Sublist.refl _
      · exact List.filter_sublist
      · exact List.Sublist.refl _

variable {inputCids : List Cid}

theorem seedsOf_getElem? {p : Platform} {spec : JobSpec} {redundancy : Nat}
    {carried : InsertionMap Nat CarriedShard} {i : Nat} {seed : ShardSeed}
    (h : (seedsOf p spec redundancy inputCids carried)[i]? = some seed) :
    seed.partitionIndex = i ∧ spec.shards[i]? = some seed.spec ∧
      inputCids[i]? = some seed.inputCid ∧ seed.carried = carried.get? i ∧
      seed.gate = gateOf spec redundancy (compositionOf p spec redundancy) seed.spec := by
  rw [seedsOf, List.getElem?_map, List.getElem?_zipIdx, Option.map_map, Option.map_eq_some_iff] at h
  obtain ⟨⟨shard, cid⟩, hzip, rfl⟩ := h
  obtain ⟨hshard, hcid⟩ := List.getElem?_zip_eq_some.mp hzip
  simp only [Function.comp, Nat.zero_add]
  exact ⟨trivial, hshard, hcid, trivial, trivial⟩

theorem placeAlone_seeds (p : Platform) (redundancy : Nat) (counts : InsertionMap JsString Nat)
    (seeds : List ShardSeed) :
    (placeAlone p redundancy counts seeds).map ShardPlan.toShardSeed = seeds := by
  induction seeds generalizing counts with
  | nil => rfl
  | cons seed rest ih =>
    rw [placeAlone]
    split
    · rw [List.map_cons, ih]
    · rw [List.map_cons, ih]

theorem placeOffered_seeds (p : Platform) (redundancy : Nat)
    (ask : Bool → Nat → Offer → Admission) (seeds : List ShardSeed) :
    (placeOffered p redundancy ask seeds).map ShardPlan.toShardSeed = seeds := by
  rw [placeOffered, List.map_map]
  refine (List.map_congr_left fun seed _ => ?_).trans (List.map_id seeds)
  simp only [Function.comp]
  split
  · rfl
  · split <;> rfl

theorem plansOf_seeds (p : Platform) (spec : JobSpec) (redundancy : Nat) (inputCids : List Cid)
    (carried : InsertionMap Nat CarriedShard) (ask : Bool → Nat → Offer → Admission) :
    (plansOf p spec redundancy inputCids carried ask).map ShardPlan.toShardSeed
      = seedsOf p spec redundancy inputCids carried := by
  rw [plansOf]
  split
  · exact placeOffered_seeds p redundancy ask _
  · exact placeAlone_seeds p redundancy .empty _

variable {seeds : List ShardSeed} {degraded : Bool}

/-- A shard placed without offers took the least loaded of its choices. -/
theorem placeAlone_placed {p : Platform} {redundancy : Nat} {counts : InsertionMap JsString Nat}
    {plan : ShardPlan} (h : plan ∈ placeAlone p redundancy counts seeds)
    (hplaced : plan.placement = .placed nodeIds degraded) :
    plan.refusal = none ∧ (∃ counts, plan.choices = loaded counts plan.gate.pool) ∧
      planPlacement p (plan.request redundancy) plan.choices = .placed nodeIds degraded := by
  induction seeds generalizing counts with
  | nil => cases h
  | cons seed rest ih =>
    rw [placeAlone] at h
    split at h
    · rcases List.mem_cons.mp h with rfl | h
      · cases hplaced
      · exact ih h
    · next hrefusal =>
      rcases List.mem_cons.mp h with rfl | h
      · exact ⟨hrefusal, ⟨counts, rfl⟩, hplaced⟩
      · exact ih h

def SharePools (seeds : List ShardSeed) : Prop :=
  ∀ seed ∈ seeds, ∀ seed' ∈ seeds,
    seed.gate.narrowed = seed'.gate.narrowed → seed.gate.pool = seed'.gate.pool

theorem pool_gateOf (spec : JobSpec) (redundancy : Nat) (composition : Option QuorumResult)
    (shard : ShardSpec) :
    ((gateOf spec redundancy composition shard).narrowed = false ∧
      (gateOf spec redundancy composition shard).pool = candidateNodes spec) ∨
    ((gateOf spec redundancy composition shard).narrowed = true ∧
      ∃ members operators strength, composition = some (.composed members operators strength) ∧
        (gateOf spec redundancy composition shard).pool = quorumPool spec members) := by
  unfold gateOf
  dsimp only
  split
  · exact Or.inl ⟨rfl, rfl⟩
  · split
    · exact Or.inl ⟨rfl, rfl⟩
    · split
      · exact Or.inl ⟨rfl, rfl⟩
      · next members operators strength => exact Or.inr ⟨rfl, members, operators, strength, rfl, rfl⟩
      · exact Or.inl ⟨rfl, rfl⟩

theorem sharePools_seedsOf (p : Platform) (spec : JobSpec) (redundancy : Nat)
    (inputCids : List Cid) (carried : InsertionMap Nat CarriedShard) :
    SharePools (seedsOf p spec redundancy inputCids carried) := by
  intro seed hseed seed' hseed' hnarrowed
  obtain ⟨i, hi⟩ := List.mem_iff_getElem?.mp hseed
  obtain ⟨j, hj⟩ := List.mem_iff_getElem?.mp hseed'
  obtain ⟨-, -, -, -, hgate⟩ := seedsOf_getElem? hi
  obtain ⟨-, -, -, -, hgate'⟩ := seedsOf_getElem? hj
  rw [hgate, hgate'] at hnarrowed ⊢
  rcases pool_gateOf spec redundancy (compositionOf p spec redundancy) seed.spec with
    ⟨h1, hp1⟩ | ⟨h1, m1, o1, s1, hc1, hp1⟩ <;>
  rcases pool_gateOf spec redundancy (compositionOf p spec redundancy) seed'.spec with
    ⟨h2, hp2⟩ | ⟨h2, m2, o2, s2, hc2, hp2⟩
  · rw [hp1, hp2]
  · rw [h1, h2] at hnarrowed
    cases hnarrowed
  · rw [h1, h2] at hnarrowed
    cases hnarrowed
  · rw [hc1] at hc2
    cases hc2
    rw [hp1, hp2]

theorem partitionIndex_seedsOf (p : Platform) (spec : JobSpec) (redundancy : Nat)
    (inputCids : List Cid) (carried : InsertionMap Nat CarriedShard) :
    ((seedsOf p spec redundancy inputCids carried).map ShardSeed.partitionIndex).Nodup := by
  have hrange : (seedsOf p spec redundancy inputCids carried).map ShardSeed.partitionIndex
      = List.range (seedsOf p spec redundancy inputCids carried).length := by
    apply List.ext_getElem?
    intro i
    rw [List.getElem?_map]
    cases hi : (seedsOf p spec redundancy inputCids carried)[i]? with
    | none =>
      rw [List.getElem?_eq_none (by rw [List.length_range]; exact List.getElem?_eq_none_iff.mp hi)]
      rfl
    | some seed =>
      have hlt := (List.getElem?_eq_some_iff.mp hi).1
      rw [List.getElem?_range hlt, Option.map_some, (seedsOf_getElem? hi).1]
  rw [hrange]
  exact List.nodup_range

/-- What was offered to a pool, and what came of it. -/
theorem mem_offeredTo {p : Platform} {redundancy : Nat} {narrowed : Bool}
    {ask : Nat → Offer → Admission} (hpools : SharePools seeds)
    {pair : ShardSeed × OfferedPlacement} (h : pair ∈ offeredTo p redundancy narrowed ask seeds) :
    pair.1 ∈ seeds ∧ ∀ nodeIds degraded rejections probed,
      pair.2 = .placed nodeIds degraded rejections probed →
      Drawn (pair.1.request redundancy) pair.1.gate.pool nodeIds ∧ nodeIds.Nodup := by
  unfold offeredTo at h
  dsimp only at h
  split at h
  · cases h
  · next first rest hgroup =>
    have hfirst : first ∈ seeds.filter fun seed =>
        seed.refusal.isNone && seed.gate.narrowed == narrowed := by
      rw [hgroup]
      exact List.mem_cons_self
    obtain ⟨k, hk⟩ := List.mem_iff_getElem?.mp h
    obtain ⟨hseed, hplacement⟩ := List.getElem?_zip_eq_some.mp hk
    have hpair := List.mem_of_getElem? hseed
    simp only [List.mem_filter, Bool.and_eq_true, beq_iff_eq] at hfirst hpair
    have hpool : first.gate.pool = pair.1.gate.pool :=
      hpools first hfirst.1 pair.1 hpair.1 (hfirst.2.2.trans hpair.2.2.symm)
    refine ⟨hpair.1, ?_⟩
    intro nodeIds degraded rejections probed hplaced
    rw [hplaced] at hplacement
    obtain ⟨request, hrequest, hdrawn, hnodup⟩ := planWithOffers_drawn hplacement
    rw [List.getElem?_map, hseed, Option.map_some, Option.some.injEq] at hrequest
    rw [← hrequest, hpool] at hdrawn
    exact ⟨hdrawn, hnodup⟩

/-- A shard placed with offers went to distinct nodes of its pool. -/
theorem placeOffered_placed {p : Platform} {redundancy : Nat} {ask : Bool → Nat → Offer → Admission}
    (hpools : SharePools seeds) (hindex : (seeds.map ShardSeed.partitionIndex).Nodup)
    {plan : ShardPlan} (h : plan ∈ placeOffered p redundancy ask seeds)
    (hplaced : plan.placement = .placed nodeIds degraded) :
    plan.refusal = none ∧ Drawn (plan.request redundancy) plan.gate.pool nodeIds ∧
      nodeIds.Nodup := by
  rw [placeOffered] at h
  obtain ⟨seed, hseed, rfl⟩ := List.mem_map.mp h
  split at hplaced
  · cases hplaced
  · next hrefusal =>
    split at hplaced
    · next pair hfind =>
      have hmem := List.mem_of_find?_eq_some hfind
      have hsame : pair.1.partitionIndex = seed.partitionIndex := by
        have := List.find?_some hfind
        exact beq_iff_eq.mp this
      have hoffered : pair.1 ∈ seeds ∧ ∀ nodeIds degraded rejections probed,
          pair.2 = .placed nodeIds degraded rejections probed →
          Drawn (pair.1.request redundancy) pair.1.gate.pool nodeIds ∧ nodeIds.Nodup := by
        rcases List.mem_append.mp hmem with hmem | hmem
        · exact mem_offeredTo hpools hmem
        · exact mem_offeredTo hpools hmem
      have heq : pair.1 = seed :=
        List.inj_on_of_nodup_map hindex hoffered.1 hseed hsame
      rw [heq] at hoffered
      cases hplacement : pair.2 with
      | unplaceable => rw [hplacement] at hplaced; cases hplaced
      | placed nodeIds' degraded' rejections probed =>
        rw [hplacement] at hplaced
        cases hplaced
        exact ⟨hrefusal, hoffered.2 _ _ _ _ hplacement⟩
    · cases hplaced

/-- Where the first placement puts a shard. -/
theorem plansOf_placed {p : Platform} {spec : JobSpec} {redundancy : Nat}
    {carried : InsertionMap Nat CarriedShard} {ask : Bool → Nat → Offer → Admission}
    {plan : ShardPlan} (h : plan ∈ plansOf p spec redundancy inputCids carried ask)
    (hplaced : plan.placement = .placed nodeIds degraded) :
    plan.refusal = none ∧ Drawn (plan.request redundancy) plan.gate.pool nodeIds ∧
      (spec.admits = true ∨ TakesDistinct p (plan.request redundancy) plan.choices →
        nodeIds.Nodup) := by
  rw [plansOf] at h
  split at h
  · obtain ⟨hrefusal, hdrawn, hnodup⟩ := placeOffered_placed
      (sharePools_seedsOf p spec redundancy inputCids carried)
      (partitionIndex_seedsOf p spec redundancy inputCids carried) h hplaced
    exact ⟨hrefusal, hdrawn, fun _ => hnodup⟩
  · next hadmits =>
    obtain ⟨hrefusal, ⟨counts, hchoices⟩, hplan⟩ := placeAlone_placed h hplaced
    have hdrawn := planPlacement_drawn hplan
    rw [hchoices] at hdrawn
    refine ⟨hrefusal, drawn_of_loaded hdrawn, ?_⟩
    rintro (hallowed | htakes)
    · exact absurd hallowed hadmits
    · exact htakes.nodup hplan

/-! ## What a prepared job is -/

structure PreparedFrom (p : Platform) (spec : JobSpec) (options : SubmitOptions)
    (ask : Bool → Nat → Offer → Admission) (prepared : Prepared) : Prop where
  fromSpec : prepared.job.spec = spec
  fromOptions : prepared.job.options = options
  redundancy : spec.redundancy.positiveInteger? = some prepared.job.redundancy
  plans : ∃ inputCids, prepared.job.plans
    = plansOf p spec prepared.job.redundancy inputCids prepared.job.carried ask
  planned : prepared.job.plans.length = spec.shards.length
  leases : LeaseTable.create (spec.leaseMs.getD DEFAULT_LEASE_MS) DEFAULT_MAX_GENERATIONS
    = some prepared.leases
  ledger : SpeculationLedger.create spec.shards.length options.speculation.fraction
    = some prepared.ledger
  resumed : resumeState p options.resumeFrom prepared.blocks prepared.job.jobId
    spec.shards.length = .ok (prepared.job.carried, prepared.job.resumedFrom)

theorem encodeInputs_length {p : Platform} {i : Nat} {shards : List ShardSpec}
    {blocks blocks' : Blocks} (h : encodeInputs p i shards blocks = .ok (inputCids, blocks')) :
    inputCids.length = shards.length := by
  induction shards generalizing i blocks inputCids with
  | nil =>
    cases h
    rfl
  | cons shard rest ih =>
    rw [encodeInputs] at h
    split at h
    · cases h
    · split at h
      · cases h
      · next hrest =>
        cases h
        rw [List.length_cons, List.length_cons, ih hrest]

theorem length_plansOf (p : Platform) (spec : JobSpec) (redundancy : Nat)
    (hlen : inputCids.length = spec.shards.length) (carried : InsertionMap Nat CarriedShard)
    (ask : Bool → Nat → Offer → Admission) :
    (plansOf p spec redundancy inputCids carried ask).length = spec.shards.length := by
  have hseeds := congrArg List.length (plansOf_seeds p spec redundancy inputCids carried ask)
  rw [List.length_map] at hseeds
  rw [hseeds, seedsOf, List.length_map, List.length_zipIdx, List.length_zip, hlen, Nat.min_self]

theorem prepare_ok {p : Platform} {spec : JobSpec} {options : SubmitOptions} {blocks : Blocks}
    {ask : Bool → Nat → Offer → Admission} {now : ℚ} {prepared : Prepared}
    (h : prepare p spec options blocks ask now = .ok prepared) :
    PreparedFrom p spec options ask prepared := by
  unfold prepare at h
  split at h
  · cases h
  · cases h
  · next redundancy _ hredundancy =>
    split at h
    · next ledger leases hledger hleases =>
      split at h
      · cases h
      · next inputCids stored hencode =>
        have hlen := encodeInputs_length hencode
        split at h
        · cases h
        · next jobId _ =>
          split at h
          · cases h
          · next carried resumedFrom hresumed =>
            cases h
            exact ⟨rfl, rfl, hredundancy, ⟨inputCids, rfl⟩,
              length_plansOf p spec redundancy hlen carried ask, hleases, hledger,
              hresumed⟩
    · cases h

namespace PreparedFrom

variable {p : Platform} {spec : JobSpec} {options : SubmitOptions}
  {ask : Bool → Nat → Offer → Admission} {prepared : Prepared}

variable {i : Nat}

/-- What each plan says of its shard. -/
theorem plan (h : PreparedFrom p spec options ask prepared) {plan : ShardPlan}
    (hplan : prepared.job.plans[i]? = some plan) :
    plan.partitionIndex = i ∧ spec.shards[i]? = some plan.spec ∧
      plan.carried = prepared.job.carried.get? i ∧
      plan.gate = gateOf spec prepared.job.redundancy
        (compositionOf p spec prepared.job.redundancy) plan.spec := by
  obtain ⟨inputCids, hplans⟩ := h.plans
  have hseed : (seedsOf p spec prepared.job.redundancy inputCids prepared.job.carried)[i]?
      = some plan.toShardSeed := by
    rw [← plansOf_seeds p spec _ inputCids _ ask, ← hplans, List.getElem?_map, hplan]
    rfl
  obtain ⟨hindex, hspec, -, hcarried, hgate⟩ := seedsOf_getElem? hseed
  exact ⟨hindex, hspec, hcarried, hgate⟩

/-- A shard draws from nodes of the specification. -/
theorem mem_nodes (h : PreparedFrom p spec options ask prepared) {plan : ShardPlan}
    (hplan : prepared.job.plans[i]? = some plan) {node : NodeDescriptor}
    (hnode : node ∈ plan.gate.pool) : node ∈ spec.nodes := by
  obtain ⟨-, -, -, hgate⟩ := h.plan hplan
  rw [hgate] at hnode
  exact (List.mem_filter.mp ((pool_gateOf_sublist _ _ _ _).subset hnode)).1

/-- Where the first placement puts a shard. -/
theorem placed (h : PreparedFrom p spec options ask prepared) {plan : ShardPlan}
    (hplan : prepared.job.plans[i]? = some plan) {nodeIds : List JsString} {degraded : Bool}
    (hplaced : plan.placement = .placed nodeIds degraded) :
    plan.refusal = none ∧ Drawn (plan.request prepared.job.redundancy) plan.gate.pool nodeIds ∧
      (spec.admits = true ∨
        TakesDistinct p (plan.request prepared.job.redundancy) plan.choices → nodeIds.Nodup) := by
  obtain ⟨inputCids, hplans⟩ := h.plans
  have hmem : plan ∈ plansOf p spec prepared.job.redundancy inputCids prepared.job.carried ask := by
    rw [← hplans]
    exact List.mem_of_getElem? hplan
  exact plansOf_placed hmem hplaced

end PreparedFrom

end O2Fabric.Submit
