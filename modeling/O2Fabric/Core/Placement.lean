/-
  O2Fabric.Core.Placement

  Placement with offers: the candidates of a request are ranked for it, a
  sample of `d` is taken, its least loaded node is asked, and the loop goes on
  without that node until enough have accepted or none is left.

  The answers of the admission function are an oracle on the number of
  questions asked so far, so they may depend on everything that went before.
-/

import O2Fabric.Core.Reduce.Tree
import O2Fabric.Core.Sovereignty

namespace O2Fabric

/-- The smallest sample, and the one taken when none is named. -/
def MIN_D : Nat := 2

/-- The largest sample. -/
def MAX_D : Nat := 4

def DEFAULT_D : Nat := 2

/-- A node that refused an offer, and why. -/
structure Rejection where
  nodeId : JsString
  reason : JsString
  deriving DecidableEq

/-- The room a node states. -/
structure NodeCapacity where
  slots : ℚ
  inFlight : ℚ
  deriving DecidableEq

/-- How far a refusal reaches. -/
inductive OfferStanding
  | decliningThisOffer
  | decliningAllWork
  deriving DecidableEq

/-- A node's answer to an offer.  No capacity is `'states-no-capacity'`. -/
inductive Admission
  | accepted (capacity : Option NodeCapacity)
  | refused (reason : JsString) (capacity : Option NodeCapacity) (standing : OfferStanding)

/-- One question put to one node. -/
structure Offer where
  shardId : JsString
  nodeId : JsString

/-- Where a shard goes once the offers are answered. -/
inductive OfferedPlacement
  | placed (nodeIds : List JsString) (degraded : Bool) (rejections : List Rejection)
      (probed : Nat)
  | unplaceable (reason : JsString) (rejections : List Rejection) (probed : Nat)

def OfferedPlacement.rejections : OfferedPlacement → List Rejection
  | .placed _ _ rejections _ => rejections
  | .unplaceable _ rejections _ => rejections

/-- The nodes a shard is placed on. -/
def OfferedPlacement.nodeIds : OfferedPlacement → List JsString
  | .placed nodeIds _ _ _ => nodeIds
  | .unplaceable _ _ _ => []

def OfferedPlacement.toPlacement : OfferedPlacement → Placement
  | .placed nodeIds degraded _ _ => .placed nodeIds degraded
  | .unplaceable reason _ _ => .unplaceable reason

section

variable (p : Platform)

/-- The `d` best ranked of the eligible nodes, each id once. -/
def sampleCandidates (shardId : JsString) (eligible : List NodeDescriptor) (d : Nat) :
    List NodeDescriptor :=
  let byId := InsertionMap.ofPairs (eligible.map fun node => (node.nodeId, node))
  ((Reduce.rendezvousRank p.hashText p.localeCompare shardId byId.keys).take d).filterMap byId.get?

/-- The first in load order. -/
def leastLoaded (sample : List NodeDescriptor) : Option NodeDescriptor := (byLoad p sample).head?

/-- The locals of the offer loop, with the admission function's own state. -/
structure Offering (σ : Type) where
  chosen : List JsString
  rejections : List Rejection
  probed : Nat
  state : σ

def Offering.told {σ : Type} (run : Offering σ) (nodeId : JsString) (answer : Admission × σ) :
    Offering σ :=
  match answer.1 with
  | .accepted _ =>
    ⟨run.chosen ++ [nodeId], run.rejections, run.probed + 1, answer.2⟩
  | .refused reason _ _ =>
    ⟨run.chosen, run.rejections ++ [⟨nodeId, reason⟩], run.probed + 1, answer.2⟩

/-- The offer loop.  Every round takes a node out of the pool, so the length of
    the pool is enough fuel. -/
def offerRounds {σ : Type} (shardId : JsString) (d redundancy : Nat)
    (admission : σ → Offer → Admission × σ) :
    Nat → List NodeDescriptor → Offering σ → Offering σ
  | 0, _, run => run
  | fuel + 1, pool, run =>
    if run.chosen.length < redundancy then
      match leastLoaded p (sampleCandidates p shardId pool d) with
      | none => run
      | some candidate =>
        offerRounds shardId d redundancy admission fuel
          (pool.filter fun node => decide (node.nodeId ≠ candidate.nodeId))
          (run.told candidate.nodeId (admission run.state ⟨shardId, candidate.nodeId⟩))
    else run

def placeWithOffers {σ : Type} (request : PlacementRequest) (nodes : List NodeDescriptor) (d : Nat)
    (admission : σ → Offer → Admission × σ) (state : σ) : OfferedPlacement × σ :=
  if d < MIN_D ∨ MAX_D < d then
    (.unplaceable (js "d must be an integer in [" ++ decimal MIN_D ++ js ", " ++ decimal MAX_D
      ++ js "], got " ++ decimal d) [] 0, state)
  else
    match request.redundancy.positiveInteger? with
    | none =>
      (.unplaceable
        (js "redundancy must be a positive integer, got " ++ p.numberText request.redundancy)
        [] 0, state)
    | some redundancy =>
      let pool := eligibleNodes request nodes
      if pool = [] then (.unplaceable (noneEligible request) [] 0, state)
      else
        let run := offerRounds p request.shardId d redundancy admission pool.length pool
          ⟨[], [], 0, state⟩
        if run.chosen = [] then
          (.unplaceable
            (if run.rejections ≠ [] then
              js "every eligible node refused " ++ request.shardId ++ js " ("
                ++ decimal run.rejections.length ++ js " refusals)"
            else js "no eligible node for " ++ request.shardId)
            run.rejections run.probed, run.state)
        else
          (.placed run.chosen (decide (run.chosen.length < redundancy)) run.rejections
            run.probed, run.state)

end

/-! ## Several requests over one pool -/

/-- What the answers so far stated: the room left on each node that stated any
    (`none` is no limit), and the nodes declining all work. -/
structure Standing where
  asked : Nat
  headroom : InsertionMap JsString (Option ℚ)
  stoodDown : List JsString

def Standing.start : Standing := ⟨0, .empty, []⟩

/-- The room a node is known to have; `none` is no limit. -/
def Standing.room (s : Standing) (nodeId : JsString) : Option ℚ :=
  (s.headroom.get? nodeId).join

/-- The node may still be offered work. -/
def Standing.isOpen (s : Standing) (nodeId : JsString) : Bool :=
  decide (nodeId ∉ s.stoodDown) && (s.room nodeId).all fun room => decide (0 < room)

/-- The capacity an answer states, entered. -/
def Standing.stated (s : Standing) (nodeId : JsString) : Option NodeCapacity → Standing
  | none => s
  | some capacity =>
    { s with
      headroom := s.headroom.set nodeId (some (max 0 (capacity.slots - capacity.inFlight))) }

/-- An answer entered: the room it states, then the slot it takes or the
    standing it declares. -/
def Standing.heard (s : Standing) (nodeId : JsString) : Admission → Standing
  | .accepted capacity =>
    let s := s.stated nodeId capacity
    { s with
      headroom := s.headroom.set nodeId ((s.room nodeId).map fun room => max 0 (room - 1)) }
  | .refused _ capacity standing =>
    let s := s.stated nodeId capacity
    match standing with
    | .decliningThisOffer => s
    | .decliningAllWork => { s with stoodDown := s.stoodDown ++ [nodeId] }

/-- The admission function that keeps the record. -/
def recording (ask : Nat → Offer → Admission) (s : Standing) (offer : Offer) :
    Admission × Standing :=
  let decision := ask s.asked offer
  (decision, { s.heard offer.nodeId decision with asked := s.asked + 1 })

/-- Why no node is left to offer to. -/
def noneOpen (shardId : JsString) (out full : Nat) : JsString :=
  if out = 0 then
    js "no candidate for " ++ shardId ++ js " has headroom left; all " ++ decimal full
      ++ js " are at the capacity they stated"
  else if full = 0 then
    js "no candidate for " ++ shardId ++ js " is available; all " ++ decimal out
      ++ js " have stepped out and are declining all work"
  else
    js "no candidate for " ++ shardId ++ js " is available; " ++ decimal full
      ++ js " are at the capacity they stated and " ++ decimal out ++ js " have stepped out"

section

variable (p : Platform)

/-- Place each request over the nodes that are still open. -/
def planFrom (nodes : List NodeDescriptor) (d : Nat) (ask : Nat → Offer → Admission) :
    Standing → List PlacementRequest → List OfferedPlacement
  | _, [] => []
  | s, request :: rest =>
    let available := nodes.filter fun node => s.isOpen node.nodeId
    if available = [] ∧ nodes ≠ [] then
      let out := (nodes.filter fun node => decide (node.nodeId ∈ s.stoodDown)).length
      .unplaceable (noneOpen request.shardId out (nodes.length - out)) [] 0
        :: planFrom nodes d ask s rest
    else
      let placed := placeWithOffers p request available d (recording ask) s
      placed.1 :: planFrom nodes d ask placed.2 rest

def planWithOffers (requests : List PlacementRequest) (nodes : List NodeDescriptor)
    (ask : Nat → Offer → Admission) (d : Nat := DEFAULT_D) : List OfferedPlacement :=
  planFrom p nodes d ask .start requests

end

/-! ## What the offers place -/

theorem mem_of_leastLoaded {p : Platform} {sample : List NodeDescriptor} {node : NodeDescriptor}
    (h : leastLoaded p sample = some node) : node ∈ sample :=
  (byLoad_perm p sample).subset (List.mem_of_mem_head? h)

theorem leastLoaded_eq_none {p : Platform} {sample : List NodeDescriptor}
    (h : leastLoaded p sample = none) : sample = [] := by
  have hnil : byLoad p sample = [] := List.head?_eq_none_iff.mp h
  have hperm := byLoad_perm p sample
  rw [hnil] at hperm
  exact hperm.nil_eq.symm

theorem mem_of_mem_sampleCandidates {p : Platform} {shardId : JsString}
    {eligible : List NodeDescriptor} {d : Nat} {node : NodeDescriptor}
    (h : node ∈ sampleCandidates p shardId eligible d) : node ∈ eligible := by
  obtain ⟨nodeId, -, hget⟩ := List.mem_filterMap.mp h
  have hmem := InsertionMap.mem_of_mem_entries_ofPairs (InsertionMap.get?_eq_some.mp hget)
  obtain ⟨node', hnode, heq⟩ := List.mem_map.mp hmem
  cases heq
  exact hnode

theorem sampleCandidates_ne_nil {p : Platform} {shardId : JsString}
    {eligible : List NodeDescriptor} {d : Nat} (hd : 0 < d) (hsome : eligible ≠ []) :
    sampleCandidates p shardId eligible d ≠ [] := by
  obtain ⟨node, rest, rfl⟩ := List.exists_cons_of_ne_nil hsome
  have hkey : node.nodeId ∈ (InsertionMap.ofPairs
      ((node :: rest).map fun node => (node.nodeId, node))).keys := by
    rw [InsertionMap.mem_keys_ofPairs]
    simp
  have hranked : (Reduce.rendezvousRank p.hashText p.localeCompare shardId (InsertionMap.ofPairs
      ((node :: rest).map fun node => (node.nodeId, node))).keys) ≠ [] :=
    List.ne_nil_of_mem ((Reduce.rendezvousRank_perm _ _ _ _).mem_iff.mpr hkey)
  obtain ⟨first, others, hfirst⟩ := List.exists_cons_of_ne_nil hranked
  -- The best ranked id is a key of the map, so the sample starts with its node.
  have hin : first ∈ (InsertionMap.ofPairs
      ((node :: rest).map fun node => (node.nodeId, node))).keys := by
    rw [← (Reduce.rendezvousRank_perm p.hashText p.localeCompare shardId _).mem_iff, hfirst]
    exact List.mem_cons_self
  obtain ⟨found, hfound⟩ := Option.isSome_iff_exists.mp (InsertionMap.get?_isSome.mpr hin)
  apply List.ne_nil_of_mem (a := found)
  rw [sampleCandidates]
  apply List.mem_filterMap.mpr
  refine ⟨first, ?_, hfound⟩
  rw [hfirst]
  obtain ⟨d, rfl⟩ := Nat.exists_eq_succ_of_ne_zero hd.ne'
  exact List.mem_cons_self

section

variable {p : Platform} {σ : Type} {shardId : JsString} {d redundancy : Nat}
  {admission : σ → Offer → Admission × σ}

theorem told_chosen (run : Offering σ) (nodeId : JsString) (answer : Admission × σ) :
    (run.told nodeId answer).chosen = run.chosen ∨
      (run.told nodeId answer).chosen = run.chosen ++ [nodeId] := by
  rw [Offering.told]
  split
  · exact Or.inr rfl
  · exact Or.inl rfl

variable (p shardId d redundancy admission) in
/-- The loop adds ids of the pool, each once, and never more than are wanted. -/
theorem offerRounds_chosen (fuel : Nat) (pool : List NodeDescriptor) (run : Offering σ) :
    ∃ added, (offerRounds p shardId d redundancy admission fuel pool run).chosen
        = run.chosen ++ added ∧
      added.Nodup ∧ (∀ nodeId ∈ added, ∃ node ∈ pool, node.nodeId = nodeId) ∧
      (run.chosen.length ≤ redundancy → (run.chosen ++ added).length ≤ redundancy) := by
  induction fuel generalizing pool run with
  | zero => exact ⟨[], by simp [offerRounds]⟩
  | succ fuel ih =>
    rw [offerRounds]
    split
    · next hwanted =>
      split
      · exact ⟨[], by simp⟩
      · next candidate hcandidate =>
        have hpool : candidate ∈ pool :=
          mem_of_mem_sampleCandidates (mem_of_leastLoaded hcandidate)
        obtain ⟨added, hchosen, hnodup, hfrom, hbound⟩ := ih
          (pool.filter fun node => decide (node.nodeId ≠ candidate.nodeId))
          (run.told candidate.nodeId (admission run.state ⟨shardId, candidate.nodeId⟩))
        have hpart : ∀ nodeId ∈ added, nodeId ≠ candidate.nodeId ∧
            ∃ node ∈ pool, node.nodeId = nodeId := by
          intro nodeId hid
          obtain ⟨node, hnode, rfl⟩ := hfrom nodeId hid
          obtain ⟨hmem, hne⟩ := List.mem_filter.mp hnode
          exact ⟨of_decide_eq_true hne, node, hmem, rfl⟩
        rcases told_chosen run candidate.nodeId
          (admission run.state ⟨shardId, candidate.nodeId⟩) with htold | htold
        · rw [htold] at hchosen hbound
          exact ⟨added, hchosen, hnodup, fun nodeId hid => (hpart nodeId hid).2, hbound⟩
        · rw [htold, List.append_assoc, List.singleton_append] at hchosen hbound
          refine ⟨candidate.nodeId :: added, hchosen, ?_, ?_, ?_⟩
          · exact List.nodup_cons.mpr ⟨fun hin => (hpart _ hin).1 rfl, hnodup⟩
          · intro nodeId hid
            rcases List.mem_cons.mp hid with rfl | hid
            · exact ⟨candidate, hpool, rfl⟩
            · exact (hpart nodeId hid).2
          · intro _
            apply hbound
            rw [List.length_append, List.length_singleton]
            omega
    · exact ⟨[], by simp⟩

/-- Everything `placeWithOffers` can come to. -/
theorem placeWithOffers_placed {request : PlacementRequest} {nodes : List NodeDescriptor}
    {state : σ} {nodeIds : List JsString} {degraded : Bool} {rejections : List Rejection}
    {probed : Nat}
    (h : (placeWithOffers p request nodes d admission state).1
      = .placed nodeIds degraded rejections probed) :
    ∃ redundancy, request.redundancy.positiveInteger? = some redundancy ∧
      nodeIds = (offerRounds p request.shardId d redundancy admission
        (eligibleNodes request nodes).length (eligibleNodes request nodes)
        ⟨[], [], 0, state⟩).chosen ∧
      nodeIds ≠ [] ∧ degraded = decide (nodeIds.length < redundancy) := by
  unfold placeWithOffers at h
  split at h
  · cases h
  · split at h
    · cases h
    · next redundancy hredundancy =>
      dsimp only at h
      split at h
      · cases h
      · split at h
        · cases h
        · next hsome =>
          cases h
          exact ⟨redundancy, hredundancy, rfl, hsome, rfl⟩

/-- Offers place distinct eligible nodes, at most as many as are asked for. -/
theorem placeWithOffers_drawn {request : PlacementRequest} {nodes : List NodeDescriptor}
    {state : σ} {nodeIds : List JsString} {degraded : Bool} {rejections : List Rejection}
    {probed : Nat}
    (h : (placeWithOffers p request nodes d admission state).1
      = .placed nodeIds degraded rejections probed) :
    Drawn request nodes nodeIds ∧ nodeIds.Nodup := by
  obtain ⟨redundancy, -, hids, hne, -⟩ := placeWithOffers_placed h
  obtain ⟨added, hchosen, hnodup, hfrom, -⟩ := offerRounds_chosen p request.shardId d redundancy
    admission (eligibleNodes request nodes).length (eligibleNodes request nodes) ⟨[], [], 0, state⟩
  rw [← hids, List.nil_append] at hchosen
  rw [hchosen] at hne ⊢
  exact ⟨⟨hne, hfrom⟩, hnodup⟩

end

theorem length_planFrom (p : Platform) (nodes : List NodeDescriptor) (d : Nat)
    (ask : Nat → Offer → Admission) (s : Standing) (requests : List PlacementRequest) :
    (planFrom p nodes d ask s requests).length = requests.length := by
  induction requests generalizing s with
  | nil => rfl
  | cons request rest ih =>
    rw [planFrom]
    split
    · rw [List.length_cons, List.length_cons, ih]
    · rw [List.length_cons, List.length_cons, ih]

variable {nodes : List NodeDescriptor}

/-- Each request of a plan with offers is placed on distinct nodes eligible
    for it. -/
theorem planFrom_drawn {p : Platform} {d : Nat} {ask : Nat → Offer → Admission} {s : Standing}
    {requests : List PlacementRequest} {k : Nat} {nodeIds : List JsString} {degraded : Bool}
    {rejections : List Rejection} {probed : Nat} (h : (planFrom p nodes d ask s requests)[k]?
      = some (.placed nodeIds degraded rejections probed)) :
    ∃ request, requests[k]? = some request ∧ Drawn request nodes nodeIds ∧ nodeIds.Nodup := by
  induction requests generalizing s k with
  | nil => simp [planFrom] at h
  | cons request rest ih =>
    rw [planFrom] at h
    cases k with
    | zero =>
      refine ⟨request, rfl, ?_⟩
      split at h
      · simp at h
      · rw [List.getElem?_cons_zero, Option.some.injEq] at h
        obtain ⟨hdrawn, hnodup⟩ := placeWithOffers_drawn h
        exact ⟨hdrawn.of_filter.1, hnodup⟩
    | succ k =>
      split at h
      · rw [List.getElem?_cons_succ] at h ⊢
        exact ih h
      · rw [List.getElem?_cons_succ] at h ⊢
        exact ih h

theorem planWithOffers_drawn {p : Platform} {ask : Nat → Offer → Admission}
    {requests : List PlacementRequest} {k : Nat} {nodeIds : List JsString} {degraded : Bool}
    {rejections : List Rejection} {probed : Nat} (h : (planWithOffers p requests nodes ask)[k]?
      = some (.placed nodeIds degraded rejections probed)) :
    ∃ request, requests[k]? = some request ∧ Drawn request nodes nodeIds ∧ nodeIds.Nodup :=
  planFrom_drawn h

/-! ## Offers that are all accepted -/

/-- No node is known to be full or out. -/
structure Standing.Clear (s : Standing) : Prop where
  nobodyOut : s.stoodDown = []
  unlimited : ∀ nodeId, s.room nodeId = none

theorem Standing.Clear.start : Standing.start.Clear := ⟨rfl, fun _ => rfl⟩

theorem Standing.Clear.isOpen {s : Standing} (h : s.Clear) (nodeId : JsString) :
    s.isOpen nodeId = true := by
  simp [Standing.isOpen, h.nobodyOut, h.unlimited]

/-- What every question keeps, the loop keeps. -/
theorem offerRounds_state (p : Platform) {σ : Type} (shardId : JsString) (d redundancy : Nat)
    {admission : σ → Offer → Admission × σ} {P : σ → Prop}
    (hkeep : ∀ s offer, P s → P (admission s offer).2) (fuel : Nat) (pool : List NodeDescriptor)
    (run : Offering σ) (hrun : P run.state) :
    P (offerRounds p shardId d redundancy admission fuel pool run).state := by
  induction fuel generalizing pool run with
  | zero => exact hrun
  | succ fuel ih =>
    rw [offerRounds]
    split
    · split
      · exact hrun
      · next candidate _ =>
        apply ih
        have hanswer := hkeep run.state ⟨shardId, candidate.nodeId⟩ hrun
        rw [Offering.told]
        split
        · exact hanswer
        · exact hanswer
    · exact hrun

theorem placeWithOffers_state {p : Platform} {σ : Type} {request : PlacementRequest} {d : Nat}
    {admission : σ → Offer → Admission × σ} {P : σ → Prop}
    (hkeep : ∀ s offer, P s → P (admission s offer).2) {s : σ} (hs : P s) :
    P (placeWithOffers p request nodes d admission s).2 := by
  have hrun := fun redundancy fuel pool =>
    offerRounds_state p request.shardId d redundancy hkeep fuel pool ⟨[], [], 0, s⟩ hs
  unfold placeWithOffers
  split
  · exact hs
  · split
    · exact hs
    · dsimp only
      split
      · exact hs
      · split
        · exact hrun _ _ _
        · exact hrun _ _ _

end O2Fabric
