/-
  O2Fabric.Core.Sovereignty

  Which nodes may run a shard, and the placement without offers: the least
  loaded eligible nodes, ties by node id.  A sovereign shard is eligible only
  on its owner's own nodes that can execute sovereign work.
-/

import O2Fabric.Core.Platform
import Mathlib.Data.List.Sort

namespace O2Fabric

/-- Who may run a shard. -/
inductive Sovereignty
  | pub
  | sovereign
  deriving DecidableEq

structure NodeDescriptor where
  nodeId : JsString
  ownerId : JsString
  canExecuteSovereign : Bool
  load : ℚ
  /-- `none` is `'carries-no-certificate'`. -/
  certificate : Option NodeCertificate

/-- What a shard asks of a placement. -/
structure PlacementRequest where
  shardId : JsString
  label : Sovereignty
  ownerId : Option JsString
  redundancy : JsNumber

/-- Where a shard goes, or why nowhere. -/
inductive Placement
  | placed (nodeIds : List JsString) (degraded : Bool)
  | unplaceable (reason : JsString)
  deriving DecidableEq

def eligibleNodes (request : PlacementRequest) (nodes : List NodeDescriptor) :
    List NodeDescriptor :=
  match request.label, request.ownerId with
  | .pub, _ => nodes
  | .sovereign, none => []
  | .sovereign, some ownerId =>
    nodes.filter fun node => decide (node.ownerId = ownerId) && node.canExecuteSovereign

/-- Why no node at all is eligible. -/
def noneEligible (request : PlacementRequest) : JsString :=
  match request.label with
  | .sovereign => js "no executable node for owner " ++ request.ownerId.getD (js "(unspecified)")
  | .pub => js "no nodes available"

section

variable (p : Platform)

/-- Least loaded first, ties by node id. -/
def byLoad (nodes : List NodeDescriptor) : List NodeDescriptor :=
  nodes.insertionSort (p.OrderedBy NodeDescriptor.load NodeDescriptor.nodeId)

/-- The nodes a placement of `count` replicas takes. -/
def leastLoadedOf (request : PlacementRequest) (nodes : List NodeDescriptor) (count : Nat) :
    List NodeDescriptor :=
  (byLoad p (eligibleNodes request nodes)).take count

/-- `planPlacement([request], nodes).placements[0]`: the source places each
    request of a list by itself. -/
def planPlacement (request : PlacementRequest) (nodes : List NodeDescriptor) : Placement :=
  match request.redundancy.positiveInteger? with
  | none =>
    .unplaceable
      (js "redundancy must be a positive integer, got " ++ p.numberText request.redundancy)
  | some redundancy =>
    if eligibleNodes request nodes = [] then .unplaceable (noneEligible request)
    else
      .placed ((leastLoadedOf p request nodes redundancy).map NodeDescriptor.nodeId)
        (decide ((leastLoadedOf p request nodes redundancy).length < redundancy))

end

/-! ## The nodes left untried -/

/-- `pool.filter((node) => !tried.has(node.nodeId))`. -/
def untried (pool : List NodeDescriptor) (tried : List JsString) : List NodeDescriptor :=
  pool.filter fun node => decide (node.nodeId ∉ tried)

/-! ## What a placement takes -/

variable {request : PlacementRequest} {nodes : List NodeDescriptor}

theorem mem_eligibleNodes {node : NodeDescriptor} (h : node ∈ eligibleNodes request nodes) :
    node ∈ nodes ∧ (request.label = .sovereign →
      request.ownerId = some node.ownerId ∧ node.canExecuteSovereign = true) := by
  cases hlabel : request.label with
  | pub =>
    rw [eligibleNodes, hlabel] at h
    exact ⟨h, fun hne => by cases hne⟩
  | sovereign =>
    cases howner : request.ownerId with
    | none =>
      rw [eligibleNodes, hlabel, howner] at h
      cases h
    | some ownerId =>
      simp only [eligibleNodes, hlabel, howner, List.mem_filter, Bool.and_eq_true,
        decide_eq_true_eq] at h
      exact ⟨h.1, fun _ => ⟨congrArg some h.2.1.symm, h.2.2⟩⟩

theorem eligibleNodes_sublist (request : PlacementRequest) (nodes : List NodeDescriptor) :
    (eligibleNodes request nodes).Sublist nodes := by
  rw [eligibleNodes]
  split
  · exact List.Sublist.refl _
  · exact List.nil_sublist _
  · exact List.filter_sublist

/-- Eligibility is decided by owner and capability, so it commutes with a
    filter on the nodes. -/
theorem eligibleNodes_filter (request : PlacementRequest) (nodes : List NodeDescriptor)
    (keep : NodeDescriptor → Bool) :
    eligibleNodes request (nodes.filter keep) = (eligibleNodes request nodes).filter keep := by
  cases hlabel : request.label with
  | pub => simp only [eligibleNodes, hlabel]
  | sovereign =>
    cases howner : request.ownerId with
    | none => simp only [eligibleNodes, hlabel, howner, List.filter_nil]
    | some ownerId =>
      simp only [eligibleNodes, hlabel, howner, List.filter_filter]
      exact List.filter_congr fun node _ => Bool.and_comm _ _

theorem byLoad_perm (p : Platform) (nodes : List NodeDescriptor) :
    (byLoad p nodes).Perm nodes := List.perm_insertionSort _ _

theorem mem_leastLoadedOf {p : Platform} {count : Nat} {node : NodeDescriptor}
    (h : node ∈ leastLoadedOf p request nodes count) : node ∈ eligibleNodes request nodes :=
  (byLoad_perm p _).subset (List.mem_of_mem_take h)

theorem length_leastLoadedOf (p : Platform) (request : PlacementRequest)
    (nodes : List NodeDescriptor) (count : Nat) :
    (leastLoadedOf p request nodes count).length
      = min count (eligibleNodes request nodes).length := by
  rw [leastLoadedOf, List.length_take, (byLoad_perm p _).length_eq]

/-- Ids of eligible nodes, and at least one. -/
structure Drawn (request : PlacementRequest) (nodes : List NodeDescriptor)
    (nodeIds : List JsString) : Prop where
  ne_nil : nodeIds ≠ []
  eligible : ∀ nodeId ∈ nodeIds, ∃ node ∈ eligibleNodes request nodes, node.nodeId = nodeId

variable {nodeIds : List JsString}

/-- What `Drawn` says of a part of the nodes it says of all. -/
theorem Drawn.of_filter {keep : NodeDescriptor → Bool}
    (h : Drawn request (nodes.filter keep) nodeIds) :
    Drawn request nodes nodeIds ∧
      ∀ nodeId ∈ nodeIds, ∃ node ∈ nodes, node.nodeId = nodeId ∧ keep node = true := by
  have hfrom : ∀ nodeId ∈ nodeIds, ∃ node ∈ eligibleNodes request nodes,
      node.nodeId = nodeId ∧ keep node = true := by
    intro nodeId hid
    obtain ⟨node, hnode, rfl⟩ := h.eligible nodeId hid
    rw [eligibleNodes_filter, List.mem_filter] at hnode
    exact ⟨node, hnode.1, rfl, hnode.2⟩
  refine ⟨⟨h.ne_nil, ?_⟩, ?_⟩
  · intro nodeId hid
    obtain ⟨node, hnode, heq, -⟩ := hfrom nodeId hid
    exact ⟨node, hnode, heq⟩
  · intro nodeId hid
    obtain ⟨node, hnode, heq, hkeep⟩ := hfrom nodeId hid
    exact ⟨node, (mem_eligibleNodes hnode).1, heq, hkeep⟩

variable {degraded : Bool}

/-- A placement that places takes the least loaded, and at least one node. -/
theorem planPlacement_placed {p : Platform}
    (h : planPlacement p request nodes = .placed nodeIds degraded) :
    ∃ redundancy, request.redundancy.positiveInteger? = some redundancy ∧
      eligibleNodes request nodes ≠ [] ∧
      nodeIds = (leastLoadedOf p request nodes redundancy).map NodeDescriptor.nodeId ∧
      degraded = decide (nodeIds.length < redundancy) := by
  rw [planPlacement] at h
  split at h
  · cases h
  · next redundancy hredundancy =>
    split at h
    · cases h
    · next hsome =>
      cases h
      refine ⟨redundancy, hredundancy, hsome, rfl, ?_⟩
      rw [List.length_map]

theorem planPlacement_drawn {p : Platform}
    (h : planPlacement p request nodes = .placed nodeIds degraded) :
    Drawn request nodes nodeIds := by
  obtain ⟨redundancy, hredundancy, hsome, hids, -⟩ := planPlacement_placed h
  refine ⟨?_, ?_⟩
  · have hone := JsNumber.positiveInteger?_pos hredundancy
    have hlen := length_leastLoadedOf p request nodes redundancy
    have hpos : 0 < (eligibleNodes request nodes).length := List.length_pos_of_ne_nil hsome
    apply List.ne_nil_of_length_pos
    rw [hids, List.length_map]
    omega
  · intro nodeId hid
    rw [hids] at hid
    obtain ⟨node, hnode, rfl⟩ := List.mem_map.mp hid
    exact ⟨node, mem_leastLoadedOf hnode, rfl⟩

/-- The nodes a placement takes have pairwise distinct ids. -/
def TakesDistinct (p : Platform) (request : PlacementRequest) (nodes : List NodeDescriptor) :
    Prop :=
  ∀ redundancy, request.redundancy.positiveInteger? = some redundancy →
    ((leastLoadedOf p request nodes redundancy).map NodeDescriptor.nodeId).Nodup

theorem TakesDistinct.nodup {p : Platform} (h : TakesDistinct p request nodes)
    (hplaced : planPlacement p request nodes = .placed nodeIds degraded) :
    nodeIds.Nodup := by
  obtain ⟨redundancy, hredundancy, -, rfl, -⟩ := planPlacement_placed hplaced
  exact h redundancy hredundancy

end O2Fabric
