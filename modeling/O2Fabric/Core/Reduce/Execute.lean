/-
  O2Fabric.Core.Reduce.Execute

  `executeReduce`: the combines of one level are placed concurrently, each on
  the requestor first where the policy admits it and then down the rendezvous
  ranking until enough replicas have answered; the results of the level are
  then recorded in node order, and the next level begins.

  Dispatches are functions of the task, of the number of the request within the
  combine's own walk, and of the executor, so the same executor asked twice may
  answer twice differently.  Every request made is kept beside the report
  (`CombineCall`): the source does not keep it, the statements about who
  answered need it.  A dispatch that throws makes `executeReduce` throw and
  leaves no report.
-/

import O2Fabric.Core.Platform
import O2Fabric.Core.Reduce.Tree

namespace O2Fabric.Reduce

structure CombineTask where
  nodeId : JsString
  inputCids : List JsString
  level : Nat
  deriving DecidableEq

structure CombineProduct where
  cid : Cid
  attestation : AttestedResult
  deriving DecidableEq

/-- The answer to a request: `none` is an executor that is gone. -/
abbrev CombineDispatch := CombineTask → (call : Nat) → (executorId : JsString) →
  Option CombineProduct

inductive LocalCombineAdmission
  | ok
  | refused (reason : JsString)
  deriving DecidableEq

structure LocalCombinePlacement where
  admits : CombineTask → LocalCombineAdmission
  dispatch : CombineDispatch

inductive LocalCombine
  | combinesNothingLocally
  | placement (local_ : LocalCombinePlacement)

/-- The executor id recorded for a combine the requestor performed itself. -/
def LOCAL_COMBINE_EXECUTOR : JsString := js "the-requestor-itself"

def LOCAL_PRODUCED_NOTHING : JsString :=
  js "this node was admitted to combine locally and its own combiner produced nothing"

structure ReduceRun where
  tree : ReduceTree
  executors : List JsString
  dispatch : CombineDispatch
  localCombine : LocalCombine
  redundancy : Option JsNumber

/-- One accepted answer. -/
structure Produced where
  cid : JsString
  executorId : JsString
  attestation : AttestedResult
  deriving DecidableEq

/-- One request made, and its answer. -/
structure CombineCall where
  task : CombineTask
  executorId : JsString
  answer : Option CombineProduct
  deriving DecidableEq

/-- What a combine has gathered so far. -/
structure Walk where
  produced : List Produced
  attempts : Nat
  calls : List CombineCall
  deriving DecidableEq

/-- One request, and what its answer adds. -/
def Walk.ask (w : Walk) (dispatch : CombineDispatch) (task : CombineTask)
    (executorId : JsString) : Walk :=
  match dispatch task w.calls.length executorId with
  | none => ⟨w.produced, w.attempts + 1, w.calls ++ [⟨task, executorId, none⟩]⟩
  | some product =>
    ⟨w.produced ++ [⟨product.cid.toText, executorId, product.attestation⟩], w.attempts,
      w.calls ++ [⟨task, executorId, some product⟩]⟩

/-- Walk the ranking until `wanted` replicas have answered. -/
def walkRanking (dispatch : CombineDispatch) (task : CombineTask) (wanted : JsNumber) :
    List JsString → Walk → Walk
  | [], w => w
  | executorId :: rest, w =>
    if JsNumber.reachedBy w.produced.length wanted then w
    else walkRanking dispatch task wanted rest (w.ask dispatch task executorId)

/-- What the requestor's own attempt leaves: the walk so far, whether it
    combined, and why not. -/
structure LocalAttempt where
  walk : Walk
  combinedLocally : Bool
  localRefusal : Option JsString

def combineLocally (localCombine : LocalCombine) (task : CombineTask) : LocalAttempt :=
  match localCombine with
  | .combinesNothingLocally => ⟨⟨[], 0, []⟩, false, none⟩
  | .placement local_ =>
    match local_.admits task with
    | .refused reason => ⟨⟨[], 0, []⟩, false, some reason⟩
    | .ok =>
      match local_.dispatch task 0 LOCAL_COMBINE_EXECUTOR with
      | none =>
        -- A local attempt that produced nothing is not counted in `attempts`.
        ⟨⟨[], 0, [⟨task, LOCAL_COMBINE_EXECUTOR, none⟩]⟩, false,
          some LOCAL_PRODUCED_NOTHING⟩
      | some product =>
        ⟨⟨[⟨product.cid.toText, LOCAL_COMBINE_EXECUTOR, product.attestation⟩], 0,
          [⟨task, LOCAL_COMBINE_EXECUTOR, some product⟩]⟩, true, none⟩

structure CombineResult where
  node : ReduceTreeNode
  accepted : Option Produced
  attempts : Nat
  replicas : Nat
  cids : List JsString
  combinedLocally : Bool
  localRefusal : Option JsString
  calls : List CombineCall
  deriving DecidableEq

section

variable (sha256 : JsString → List (Fin 256)) (localeCompare : JsString → JsString → Int)

/-- `Math.max(1, run.redundancy ?? 1)`. -/
def ReduceRun.wanted (run : ReduceRun) : JsNumber :=
  JsNumber.mathMax (.finite 1) (run.redundancy.getD (.finite 1))

/-- Everything a combine with resolved inputs gathers. -/
def gather (run : ReduceRun) (task : CombineTask) : LocalAttempt :=
  let attempt := combineLocally run.localCombine task
  let ranked := rendezvousRank sha256 localeCompare task.nodeId run.executors
  { attempt with walk := walkRanking run.dispatch task run.wanted ranked attempt.walk }

/-- One combine of a level, from the values resolved before the level. -/
def combine (run : ReduceRun) (resolved : InsertionMap JsString JsString)
    (node : ReduceTreeNode) : CombineResult :=
  match node.children.mapM resolved.get? with
  | none =>
    -- A missing input means a child combine failed outright; nothing is placed.
    ⟨node, none, 0, 0, [], false, none, []⟩
  | some inputCids =>
    let g := gather sha256 localeCompare run ⟨node.id, inputCids, node.level⟩
    match g.walk.produced with
    | [] => ⟨node, none, g.walk.attempts, 0, [], g.combinedLocally, g.localRefusal,
        g.walk.calls⟩
    | accepted :: others =>
      ⟨node, some accepted, g.walk.attempts, (accepted :: others).length,
        distinct ((accepted :: others).map Produced.cid), g.combinedLocally, g.localRefusal,
        g.walk.calls⟩

end

/-- The maps and counters the level loop fills.  `minReplicas` is `none` while
    the source holds `Number.POSITIVE_INFINITY`. -/
structure Report where
  resolved : InsertionMap JsString JsString
  executedBy : InsertionMap JsString JsString
  attestations : InsertionMap JsString AttestedResult
  failed : List JsString
  locallyCombined : List JsString
  localRefusals : List (JsString × JsString)
  disagreements : List (JsString × List JsString)
  combines : Nat
  recomputes : Nat
  minReplicas : Option Nat
  calls : List CombineCall

/-- A leaf's value is already stored, so it starts resolved. -/
def Report.start (tree : ReduceTree) : Report where
  resolved := InsertionMap.ofPairs (tree.leaves.map fun leaf => (leaf.id, leaf.cid))
  executedBy := .empty
  attestations := .empty
  failed := []
  locallyCombined := []
  localRefusals := []
  disagreements := []
  combines := 0
  recomputes := 0
  minReplicas := none
  calls := []

/-- `Math.min(minReplicas, replicas)`. -/
def minWith (minReplicas : Option Nat) (replicas : Nat) : Option Nat :=
  some (match minReplicas with
    | none => replicas
    | some m => min m replicas)

/-- A refusal is recorded first, whatever became of the combine after it. -/
def pushRefusal (refusals : List (JsString × JsString)) (nodeId : JsString) :
    Option JsString → List (JsString × JsString)
  | none => refusals
  | some reason => refusals ++ [(nodeId, reason)]

/-- One pass of the loop over a level's results. -/
def Report.record (r : Report) (result : CombineResult) : Report :=
  let r := { r with
    calls := r.calls ++ result.calls
    localRefusals := pushRefusal r.localRefusals result.node.id result.localRefusal }
  match result.accepted with
  | none => { r with failed := r.failed ++ [result.node.id] }
  | some accepted =>
    let r := { r with
      locallyCombined :=
        if result.combinedLocally then r.locallyCombined ++ [result.node.id]
        else r.locallyCombined
      resolved := r.resolved.set result.node.id accepted.cid
      executedBy := r.executedBy.set result.node.id accepted.executorId
      combines := r.combines + 1
      recomputes := r.recomputes + result.attempts
      minReplicas := minWith r.minReplicas result.replicas }
    if 1 < result.cids.length then
      { r with disagreements := r.disagreements ++ [(result.node.id, result.cids)] }
    else { r with attestations := r.attestations.set result.node.id accepted.attestation }

def ReduceTree.atLevel (tree : ReduceTree) (level : Nat) : List ReduceTreeNode :=
  tree.nodes.filter fun node => decide (node.level = level)

/-- The highest level of the tree, 0 without combines. -/
def ReduceTree.maxLevel (tree : ReduceTree) : Nat :=
  tree.nodes.foldl (fun m node => max m node.level) 0

section

variable (sha256 : JsString → List (Fin 256)) (localeCompare : JsString → JsString → Int)

/-- A level completes before the next begins. -/
def executeLevel (run : ReduceRun) (r : Report) (level : Nat) : Report :=
  ((run.tree.atLevel level).map (combine sha256 localeCompare run r.resolved)).foldl
    Report.record r

/-- `for (let level = 1; level <= maxLevel; level++)`. -/
def executeLevels (run : ReduceRun) : Report :=
  (List.range' 1 run.tree.maxLevel).foldl (executeLevel sha256 localeCompare run)
    (.start run.tree)

end

structure ReduceOutcome where
  ok : Bool
  rootCid : Option JsString
  combines : Nat
  recomputes : Nat
  executedBy : InsertionMap JsString JsString
  attestations : InsertionMap JsString AttestedResult
  failed : List JsString
  disagreements : List (JsString × List JsString)
  minReplicas : Nat
  locallyCombined : List JsString
  localRefusals : List (JsString × JsString)

/-- The early return on an empty executor list. -/
def ReduceOutcome.noExecutors (tree : ReduceTree) : ReduceOutcome where
  ok := false
  rootCid := none
  combines := 0
  recomputes := 0
  executedBy := .empty
  attestations := .empty
  failed := [tree.rootId]
  disagreements := []
  minReplicas := 0
  locallyCombined := []
  localRefusals := []

/-- What the loop's maps and counters are returned as. -/
def Report.outcome (tree : ReduceTree) (r : Report) : ReduceOutcome where
  ok := (r.resolved.get? tree.rootId).isSome && r.failed.isEmpty && r.disagreements.isEmpty
  rootCid := r.resolved.get? tree.rootId
  combines := r.combines
  recomputes := r.recomputes
  executedBy := r.executedBy
  attestations := r.attestations
  failed := r.failed
  disagreements := r.disagreements
  minReplicas := r.minReplicas.getD 0
  locallyCombined := r.locallyCombined
  localRefusals := r.localRefusals

section

variable (sha256 : JsString → List (Fin 256)) (localeCompare : JsString → JsString → Int)

/-- The outcome, and the requests made to reach it. -/
def executeReduceTraced (run : ReduceRun) : ReduceOutcome × List CombineCall :=
  if run.executors = [] then (.noExecutors run.tree, [])
  else
    let r := executeLevels sha256 localeCompare run
    (r.outcome run.tree, r.calls)

/-- Execute a derived tree, falling through the rendezvous ranking on failure. -/
def executeReduce (run : ReduceRun) : ReduceOutcome :=
  (executeReduceTraced sha256 localeCompare run).1

end

end O2Fabric.Reduce

/-! # Local

`localDispatch`: a combine the requestor runs itself, over its own store.  It
reads and decodes its inputs in order, merges them and stores the result.
-/

namespace O2Fabric.Reduce

/-- What the inputs of a combine come to, read one after another. -/
inductive InputsRead
  /-- An address that does not parse, or a block that does not decode. -/
  | threw
  | missing
  | all (inputs : List CanonicalValue)

/-- What a combine of the requestor's own comes to. -/
inductive LocalRun
  | threw
  | settled (product : Option CombineProduct)

/-- `get` is what the store holds; `decode` is `none` where it throws. -/
structure LocalOptions where
  get : Cid → Option Bytes
  combiner : List CanonicalValue → CanonicalValue
  decode : Bytes → Option CanonicalValue
  liveNodes : List JsString

variable (p : Platform) (options : LocalOptions)

/-- The loop over the inputs; `inputs` are those already read. -/
def readInputs : List JsString → List CanonicalValue → InputsRead
  | [], inputs => .all inputs
  | cidString :: rest, inputs =>
    match p.parseCid cidString with
    | none => .threw
    | some cid =>
      match options.get cid with
      | none => .missing
      | some bytes =>
        match options.decode bytes with
        | none => .threw
        | some decoded => readInputs rest (inputs ++ [decoded])

def localDispatch (task : CombineTask) (executorId : JsString) : LocalRun :=
  if executorId ∈ options.liveNodes then
    match readInputs p options task.inputCids [] with
    | .threw => .threw
    | .missing => .settled none
    | .all inputs =>
      match p.canonicalCid (options.combiner inputs) with
      | .error _ => .settled none
      -- the requestor signs nothing about its own work
      | .ok cid => .settled (some ⟨cid, .signedByNobody⟩)
  else .settled none

end O2Fabric.Reduce
