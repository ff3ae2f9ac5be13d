/-
  O2Fabric.Core.Job.Submit.Sovereign

  A sovereign shard runs on its owner's own nodes, in every run of every job.

  Work reaches a node by a first placement, by a placement of another
  generation or as a speculative copy.  All of them draw from the eligible
  nodes of the shard's pool, so that is the invariant: every node a shard was
  or is about to be given is one of these.
-/

import O2Fabric.Core.Job.Submit.Effects
import O2Fabric.Core.Job.Submit.Result

namespace O2Fabric.Submit

open Job Threads

def MayRun (plan : ShardPlan) (nodeId : JsString) : Prop :=
  ∃ node ∈ eligibleNodes (plan.request 1) plan.gate.pool, node.nodeId = nodeId

variable {plan : ShardPlan} {nodeIds : List JsString}

/-- Whatever number of replicas a placement was for, it drew from these. -/
theorem mayRun_of_drawn {redundancy : Nat}
    (h : Drawn (plan.request redundancy) plan.gate.pool nodeIds) :
    ∀ nodeId ∈ nodeIds, MayRun plan nodeId := by
  intro nodeId hid
  obtain ⟨node, hnode, heq⟩ := h.eligible nodeId hid
  rw [ShardSeed.request, eligibleNodes_requestFor _ _ plan.shardId _ 1] at hnode
  exact ⟨node, hnode, heq⟩

variable {p : Platform} {job : PreparedJob}

/-- Another generation goes to eligible nodes that were not tried yet, in either
    arm. -/
theorem placeAgain_drawn {wanted : Nat} {tried : List JsString} {ask : Nat → Offer → Admission}
    {rejections : List Rejection} {degraded : Bool}
    (h : placeAgain p job plan wanted tried ask = .placed nodeIds rejections degraded) :
    Drawn (plan.request wanted) (untried plan.gate.pool tried) nodeIds ∧
      (job.spec.admits = true ∨
        TakesDistinct p (plan.request wanted) (untried plan.gate.pool tried) →
          nodeIds.Nodup) := by
  unfold placeAgain at h
  dsimp only at h
  split at h
  · cases h
  · split at h
    · next hadmits =>
      split at h
      · next hplaced =>
        cases h
        refine ⟨planPlacement_drawn hplaced, ?_⟩
        rintro (hallowed | htakes)
        · rw [hallowed] at hadmits
          cases hadmits
        · exact htakes.nodup hplaced
      · cases h
    · split at h
      · next hplaced =>
        cases h
        rw [List.head?_eq_getElem?] at hplaced
        obtain ⟨request, hrequest, hdrawn, hnodup⟩ := planWithOffers_drawn hplaced
        cases hrequest
        exact ⟨hdrawn, fun _ => hnodup⟩
      · cases h
      · cases h

/-- What was not tried is not tried again. -/
theorem notMem_of_drawn_untried {request : PlacementRequest} {pool : List NodeDescriptor}
    {tried : List JsString} (h : Drawn request (untried pool tried) nodeIds) :
    ∀ nodeId ∈ nodeIds, nodeId ∉ tried := by
  intro nodeId hid
  obtain ⟨node, hnode, rfl⟩ := h.eligible nodeId hid
  have := (mem_eligibleNodes hnode).1
  exact of_decide_eq_true (List.mem_filter.mp this).2

/-! ## The invariant -/

/-- Every node the shard was given, or is about to be, is one it may run on. -/
structure StaysHome (plan : ShardPlan) (st : ShardState) : Prop where
  attempted : ∀ nodeId ∈ st.attempted, MayRun plan nodeId
  flights : ∀ nodeIds ∈ st.flights.map Flight.nodeIds, ∀ nodeId ∈ nodeIds, MayRun plan nodeId
  granting : ∀ nodeIds, st.phase = .granting nodeIds → ∀ nodeId ∈ nodeIds, MayRun plan nodeId
  settled : ∀ shard, st.phase = .settled shard →
    ∀ nodeId ∈ shard.result.attempted, MayRun plan nodeId

theorem staysHome_start {spec : JobSpec} {options : SubmitOptions}
    {ask : Bool → Nat → Offer → Admission} {prepared : Prepared}
    (h : PreparedFrom p spec options ask prepared) {i : Nat}
    (hplan : prepared.job.plans[i]? = some plan) : StaysHome plan (startShard plan) := by
  unfold startShard
  split
  · refine ⟨List.forall_mem_nil _, List.forall_mem_nil _, fun _ h => Phase.noConfusion h, ?_⟩
    intro shard hphase
    cases hphase
    exact fun _ h => nomatch h
  · split
    · refine ⟨List.forall_mem_nil _, List.forall_mem_nil _, fun _ h => Phase.noConfusion h, ?_⟩
      intro shard hphase
      cases hphase
      exact List.forall_mem_nil _
    · next nodeIds degraded hplaced =>
      refine ⟨List.forall_mem_nil _, List.forall_mem_nil _, ?_, fun _ h => Phase.noConfusion h⟩
      intro nodeIds' hphase
      cases hphase
      exact mayRun_of_drawn (h.placed hplan hplaced).2.1

theorem StaysHome.step {s s' : Shared} {st st' : ShardState} (hst : StaysHome plan st)
    {event : ShardEvent} (h : shardStep p job plan event s st = some (s', st')) :
    StaysHome plan st' := by
  have hsettled : ∀ shard, st'.phase = .settled shard →
      ∀ nodeId ∈ shard.result.attempted, MayRun plan nodeId := by
    intro shard hphase
    rcases shardStep_settled h hphase with ⟨hbefore, -⟩ | ⟨ending, attestation, rfl, -⟩
    · exact hst.settled shard hbefore
    · exact hst.attempted
  cases shardStep_dispatching h with
  | stays hattempted hflights hgranting =>
    refine ⟨?_, ?_, ?_, hsettled⟩
    · rw [hattempted]
      exact hst.attempted
    · rw [hflights]
      exact hst.flights
    · exact fun nodeIds hphase => hst.granting nodeIds (hgranting nodeIds hphase)
  | granted nodeIds hphase hattempted hflights hgranting =>
    have hnew := hst.granting nodeIds hphase
    refine ⟨?_, ?_, fun nodeIds hphase => absurd hphase (hgranting nodeIds), hsettled⟩
    · rw [hattempted]
      exact List.forall_mem_append.mpr ⟨hst.attempted, hnew⟩
    · rw [hflights]
      exact List.forall_mem_append.mpr ⟨hst.flights, List.forall_mem_singleton.mpr hnew⟩
  | copied target hcandidate hattempted hflights hgranting =>
    have hnew : MayRun plan target.nodeId :=
      ⟨target, (mem_speculativeCandidates.mp hcandidate).1, rfl⟩
    refine ⟨?_, ?_, fun nodeIds hphase => absurd hphase (hgranting nodeIds), hsettled⟩
    · rw [hattempted]
      exact List.forall_mem_append.mpr ⟨hst.attempted, List.forall_mem_singleton.mpr hnew⟩
    · rw [hflights]
      exact List.forall_mem_append.mpr ⟨hst.flights,
        List.forall_mem_singleton.mpr (List.forall_mem_singleton.mpr hnew)⟩
  | placed ask _ nodeIds rejections degraded hphase hagain hattempted hflights hgranting =>
    refine ⟨?_, ?_, ?_, hsettled⟩
    · rw [hattempted]
      exact hst.attempted
    · rw [hflights]
      exact hst.flights
    · intro nodeIds' hphase'
      rw [hgranting] at hphase'
      cases hphase'
      exact mayRun_of_drawn (placeAgain_drawn hagain).1.of_filter.1

/-- In every state a run reaches, every shard stays on nodes it may run on. -/
theorem staysHome {spec : JobSpec} {options : SubmitOptions} {ask : Bool → Nat → Offer → Admission}
    {prepared : Prepared} (hprepared : PreparedFrom p spec options ask prepared)
    {c : Config Nat Shared ShardState} (hreach : Reaches p prepared c) {i : Nat}
    (hplan : prepared.job.plans[i]? = some plan) : StaysHome plan (c.locals i) := by
  have hall := System.Reaches.eachLocal hreach
    (I := fun i st => ∀ plan, prepared.job.plans[i]? = some plan → StaysHome plan st) ?_ ?_ i
  · exact hall plan hplan
  · intro i plan hplan
    rw [Prepared.start_locals hplan]
    exact staysHome_start hprepared hplan
  · intro c i event s l _ hI hstep plan hplan
    have hshard : shardStep p prepared.job plan event c.shared (c.locals i) = some (s, l) := by
      have := hstep
      simp only [running, hplan] at this
      exact this
    exact (hI plan hplan).step hshard

/-! ## The owner's own nodes -/

/-- The id of a node of the owner's that can execute sovereign work. -/
def OwnedBy (spec : JobSpec) (ownerId nodeId : JsString) : Prop :=
  ∃ node ∈ spec.nodes,
    node.nodeId = nodeId ∧ node.ownerId = ownerId ∧ node.canExecuteSovereign = true

theorem nodeId_of_mem_executorsOf {executor : JobExecutor} (h : executor ∈ executorsOf job nodeIds) :
    executor.nodeId ∈ nodeIds := by
  obtain ⟨nodeId, hid, hget⟩ := List.mem_filterMap.mp h
  have hentry := InsertionMap.mem_of_mem_entries_ofPairs (InsertionMap.get?_eq_some.mp hget)
  obtain ⟨executor', -, heq⟩ := List.mem_map.mp hentry
  cases heq
  exact hid

/-- No run takes a sovereign shard away from its owner: neither the nodes it was
    attempted on, nor the executors it invoked, nor the nodes its result
    reports. -/
theorem sovereign_shard_stays_home {p : Platform} {spec : JobSpec} {options : SubmitOptions}
    {blocks : Blocks} {ask : Bool → Nat → Offer → Admission} {now : ℚ} {prepared : Prepared}
    (hprepare : prepare p spec options blocks ask now = .ok prepared)
    {c : Config Nat Shared ShardState} (hreach : Reaches p prepared c) {i : Nat}
    {shard : ShardSpec} (hshard : spec.shards[i]? = some shard) {ownerId : JsString}
    (hlabel : shard.label = .sovereign ownerId) :
    (∀ nodeId ∈ (c.locals i).attempted, OwnedBy spec ownerId nodeId) ∧
    (∀ flight ∈ (c.locals i).flights, ∀ executor ∈ executorsOf prepared.job flight.nodeIds,
      OwnedBy spec ownerId executor.nodeId) ∧
    ∀ result, conclude p prepared.job c = some result →
      ∀ settled, result.shards[i]? = some settled →
        ∀ nodeId ∈ settled.attempted, OwnedBy spec ownerId nodeId := by
  have hprepared := prepare_ok hprepare
  cases hplan : prepared.job.plans[i]? with
  | none =>
    -- Every shard has a plan.
    have hlong := List.getElem?_eq_none_iff.mp hplan
    have hshort := (List.getElem?_eq_some_iff.mp hshard).1
    have := hprepared.planned
    omega
  | some plan =>
    obtain ⟨-, hspec, -, -⟩ := hprepared.plan hplan
    rw [hshard, Option.some.injEq] at hspec
    have howned : ∀ nodeId, MayRun plan nodeId → OwnedBy spec ownerId nodeId := by
      rintro nodeId ⟨node, hnode, rfl⟩
      obtain ⟨hpool, howner, hcan⟩ :=
        mem_eligibleNodes_requestFor (hspec ▸ hlabel) hnode
      exact ⟨node, hprepared.mem_nodes hplan hpool, rfl, howner, hcan⟩
    have hhome := staysHome hprepared hreach hplan
    refine ⟨?_, ?_, ?_⟩
    · exact fun nodeId hid => howned nodeId (hhome.attempted nodeId hid)
    · intro flight hflight executor hexecutor
      exact howned _ (hhome.flights _ (List.mem_map_of_mem hflight) _
        (nodeId_of_mem_executorsOf hexecutor))
    · intro result hconclude settled hsettled nodeId hid
      obtain ⟨-, hresult⟩ := conclude_getElem? hconclude hsettled
      obtain ⟨shard', hphase, rfl⟩ := settledResult_eq_some.mp hresult
      obtain ⟨copies, disagreed, heq⟩ := compared_eq p prepared.job shard' (c.locals i).flights
      rw [heq] at hid
      exact howned nodeId (hhome.settled shard' hphase nodeId hid)

/-- Two nodes of the owner's and one of somebody else's. -/
def ownedSpec : JobSpec :=
  bareSpec [⟨.null, .sovereign (js "o")⟩]
    [bareNode (js "k") (js "o"), bareNode (js "m") (js "x"), bareNode (js "n") (js "o")] 1

/-- The owner's first node lets its lease lapse, the second one answers. -/
def ownedRun : List (Event Nat ShardEvent ChainEvent) :=
  [.own 0 (.grant 0 0 0), .own 0 (.tick 40000 40000), .own 0 (.resume 40000 40000),
    .own 0 (.place fun _ _ => .accepted none), .own 0 (.grant 40000 40000 40000),
    .own 0 (.answer 1 (.verified [answers])), .own 0 (.deliver (js "n") 40001),
    .own 0 (.resume 40001 40001)]

theorem sovereign_shard_stays_home_lapsed :
    ∃ prepared c, playBare ownedSpec ownedRun = some (prepared, c) ∧
      (c.locals 0).attempted = [js "k", js "n"] ∧
      ∀ nodeId ∈ (c.locals 0).attempted, OwnedBy ownedSpec (js "o") nodeId := by
  have hrun : (playBare ownedSpec ownedRun).map (fun run => (run.2.locals 0).attempted)
      = some [js "k", js "n"] := by decide +kernel
  obtain ⟨⟨prepared, c⟩, hplay, hattempted⟩ := Option.map_eq_some_iff.mp hrun
  obtain ⟨hprepare, hrun⟩ := playOut_spec hplay
  have hreach : Reaches plain prepared c :=
    System.Reaches.of_run (fun _ _ _ => trivial) hrun
  exact ⟨prepared, c, hplay, hattempted,
    (sovereign_shard_stays_home (i := 0) hprepare hreach rfl rfl).1⟩

end O2Fabric.Submit

/-! # Attempted

A node appears at most once among the nodes a shard was attempted on, in every
run in which no placement without offers takes two nodes of one id (`Fresh`).
What a copy answers names nodes of that copy, each once.
-/

namespace O2Fabric.Submit

open Job Threads

/-! ## Nothing is dispatched twice -/

/-- What was attempted are the nodes of the flights, all distinct, and the nodes
    the loop stands before are distinct new ones. -/
structure Fresh (st : ShardState) : Prop where
  flights : (st.flights.map Flight.nodeIds).flatten = st.attempted
  nodup : st.attempted.Nodup
  granting : ∀ nodeIds, st.phase = .granting nodeIds →
    nodeIds.Nodup ∧ ∀ nodeId ∈ nodeIds, nodeId ∉ st.attempted

theorem nodup_append_of_notMem {xs ys : List JsString} (hxs : xs.Nodup) (hys : ys.Nodup)
    (h : ∀ y ∈ ys, y ∉ xs) : (xs ++ ys).Nodup :=
  List.nodup_append.mpr ⟨hxs, hys, fun _ hx y hy heq => h y hy (heq ▸ hx)⟩

/-- A placement without offers is about to take nodes of distinct ids only. -/
def PlacesApart (p : Platform) (job : PreparedJob) (plan : ShardPlan) (st : ShardState) : Prop :=
  job.spec.admits = true ∨
    TakesDistinct p (plan.request (wantedOf job st.verification))
      (untried plan.gate.pool st.attempted)

theorem Fresh.step {p : Platform} {job : PreparedJob} {plan : ShardPlan} {s s' : Shared}
    {st st' : ShardState} (hst : Fresh st) {event : ShardEvent}
    (hapart : ∀ ask, event = .place ask → PlacesApart p job plan st)
    (h : shardStep p job plan event s st = some (s', st')) : Fresh st' := by
  cases shardStep_dispatching h with
  | stays hattempted hflights hgranting =>
    refine ⟨?_, hattempted ▸ hst.nodup, ?_⟩
    · rw [hflights, hattempted]
      exact hst.flights
    · intro nodeIds hphase
      rw [hattempted]
      exact hst.granting nodeIds (hgranting nodeIds hphase)
  | granted nodeIds hphase hattempted hflights hgranting =>
    obtain ⟨hnodup, hnew⟩ := hst.granting nodeIds hphase
    refine ⟨?_, ?_, fun nodeIds hphase => absurd hphase (hgranting nodeIds)⟩
    · rw [hflights, hattempted, List.flatten_append, hst.flights, List.flatten_singleton]
    · rw [hattempted]
      exact nodup_append_of_notMem hst.nodup hnodup hnew
  | copied target hcandidate hattempted hflights hgranting =>
    refine ⟨?_, ?_, fun nodeIds hphase => absurd hphase (hgranting nodeIds)⟩
    · rw [hflights, hattempted, List.flatten_append, hst.flights, List.flatten_singleton]
    · rw [hattempted]
      apply nodup_append_of_notMem hst.nodup (List.nodup_singleton _)
      intro nodeId hid
      rw [List.mem_singleton.mp hid]
      exact (mem_speculativeCandidates.mp hcandidate).2
  | placed ask hevent nodeIds rejections degraded hphase hagain hattempted hflights hgranting =>
    refine ⟨?_, hattempted ▸ hst.nodup, ?_⟩
    · rw [hflights, hattempted]
      exact hst.flights
    · intro nodeIds' hphase'
      rw [hgranting] at hphase'
      cases hphase'
      obtain ⟨hdrawn, hnodup⟩ := placeAgain_drawn hagain
      rw [hattempted]
      exact ⟨hnodup (hapart ask hevent), notMem_of_drawn_untried hdrawn⟩

/-! ## What a copy's answer is worth -/

theorem map_zipWith_sublist {α β γ : Type} {f : α → β → γ} {g : γ → α}
    (h : ∀ x y, g (f x y) = x) (xs : List α) (ys : List β) :
    ((List.zipWith f xs ys).map g).Sublist xs := by
  induction xs generalizing ys with
  | nil => exact List.nil_sublist _
  | cons x xs ih =>
    cases ys with
    | nil => exact List.nil_sublist _
    | cons y ys =>
      rw [List.zipWith_cons_cons, List.map_cons, h]
      exact (ih ys).cons_cons x

/-- A verification that names only these nodes, in their order. -/
structure From (p : Platform) (nodeIds : List JsString) (v : Verification) : Prop where
  wellFormed : v.WellFormed p.canonicalCid
  agreeing : v.agreeingIds.Sublist nodeIds

theorem verificationOf_from (p : Platform) (task : Task) (nodeIds : List JsString)
    (answer : DispatchAnswer) : From p nodeIds (verificationOf p task nodeIds answer) := by
  cases answer with
  | verified outcomes =>
    refine ⟨executeVerified_wellFormed task _, ?_⟩
    exact (agreeingIds_executeVerified task _).trans
      (map_zipWith_sublist (fun _ _ => rfl) nodeIds outcomes)
  | ceremony outcomes =>
    refine ⟨executeCommitReveal_wellFormed _, ?_⟩
    exact (agreeingIds_executeCommitReveal _).trans
      (map_zipWith_sublist (fun _ _ => rfl) nodeIds outcomes)
  | threw message => exact ⟨trivial, List.nil_sublist _⟩

/-- The replicas counted are the ones named. -/
theorem replicaCount_of_wellFormed {p : Platform} {v : Verification}
    (h : v.WellFormed p.canonicalCid) : v.replicaCount = v.agreeingIds.length := by
  cases v with
  | agreed => exact h.2.1.trans (List.length_map _).symm
  | disagreed => rfl
  | insufficient => rfl

end O2Fabric.Submit
