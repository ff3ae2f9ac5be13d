/-
  O2Fabric.Core.Job.Submit.Result

  What `submitJob` returns once every shard has settled: the copies that lost
  their race compared with the winners, and the job's own figures.

  The comparison waits for a grace period.  `conclude` is what is returned if
  that period ends in the given state, so a copy has answered or it has not.
-/

import O2Fabric.Core.Job.Submit.Cases

namespace O2Fabric.Submit

open Job Threads

/-! ## The copies that lost -/

section

variable (p : Platform) (job : PreparedJob)

/-- One copy that lost, compared with what its shard agreed on. -/
def compareCopy (winnerCid : Option JsString) (flight : Flight) : SpeculativeCopy :=
  match winnerCid with
  | none =>
    .uncompared flight.nodeIds
      (js "this shard reached no single agreed result to compare this copy against")
  | some winnerCid =>
    match flight.answer with
    | none =>
      .uncompared flight.nodeIds
        (js "this copy had not answered "
          ++ p.numberText (.finite job.options.speculation.graceMs)
          ++ js "ms after the job settled")
    | some (.insufficient reason failures) =>
      .failed flight.nodeIds
        (if failures = [] then reason
        else (js "; ").intercalate (failures.map fun f => f.nodeId ++ js ": " ++ f.reason))
    | some (.disagreed partitions _ _) =>
      .disagreed flight.nodeIds ((js ", ").intercalate (partitions.map Prod.fst))
    | some (.agreed resultCid _ _ _ _ _ _) =>
      if resultCid.toText = winnerCid then .agreed flight.nodeIds
      else .disagreed flight.nodeIds resultCid.toText

/-- A settled shard's result with the copies that lost. -/
def compared (shard : SettledShard) (flights : List Flight) : ShardResult :=
  let copies := (shard.outstanding.filterMap (flights[·]?)).map (compareCopy p job shard.winnerCid)
  if copies = [] then shard.result
  else { shard.result with copies := copies, disagreed := copies.any SpeculativeCopy.isDisagreed }

end

/-! ## The job's figures -/

/-- The weakest attestation: the first missing one, or the first of the lowest
    rank. -/
def jobAttestationOf (shards : List ShardResult) : Option ShardAttestation :=
  match shards.find? fun shard =>
      match shard.attestation with
      | .receipt _ => false
      | .holdsNoVerifiedAttestation .. => true with
  | some absent => some absent.attestation
  | none =>
    match shards with
    | [] => none
    | first :: rest =>
      some (rest.foldl
        (fun weakest shard =>
          match weakest.attestation, shard.attestation with
          | .receipt w, .receipt r =>
            if attestationRank r.strength < attestationRank w.strength then shard
            else weakest
          | _, _ => weakest)
        first).attestation

def landedForItsOwner (shard : ShardResult) : Bool :=
  shard.verification.isAgreed && !shard.disagreed

/-- How many shards of each owner, in first-seen order. -/
def countByOwner (owners : List JsString) : InsertionMap JsString Nat :=
  owners.foldl (fun counts owner => counts.set owner ((counts.get? owner).getD 0 + 1)) .empty

def ownerOf (shard : ShardSpec) : Option JsString :=
  match shard.label with
  | .pub => none
  | .sovereign ownerId => some ownerId

/-- The owners all of whose shards landed, of those that have any; `none` where
    the job defines no owners. -/
def jobCoverageOf (specs : List ShardSpec) (shards : List ShardResult) : Option CoverageReport :=
  let owed := countByOwner (specs.filterMap ownerOf)
  let done := countByOwner ((shards.filter landedForItsOwner).filterMap fun shard =>
    specs[shard.partitionIndex]?.bind ownerOf)
  if owed.size = 0 then none
  else
    some (coverageOf owed.keys
      ((owed.entries.filter fun entry => decide (entry.2 ≤ (done.get? entry.1).getD 0)).map
        Prod.fst))

/-- What a shard's replicas cost. -/
def grossOf : Verification → Cost
  | .agreed _ _ _ _ _ gross _ => gross
  | .disagreed _ _ gross => gross
  | .insufficient .. => 0

/-- What its winning replica cost. -/
def usefulOf : Verification → Cost
  | .agreed _ _ _ _ _ _ useful => useful
  | _ => 0

structure JobResult where
  moduleCid : Cid
  shards : List ShardResult
  attestation : Option ShardAttestation
  complete : Bool
  gross : Cost
  useful : Cost
  verificationMultiplier : ℚ
  redispatches : Nat
  leaseHistory : List (LeaseEvent ℚ)
  speculationMultiplier : ℚ
  speculationSpent : Nat
  coverage : Option CoverageReport

/-- Agreed in full, with nothing against it. -/
def ShardResult.sound (shard : ShardResult) : Bool :=
  shard.verification.isAgreed && !shard.degraded && !shard.disagreed

def jobResultOf (job : PreparedJob) (s : Shared) (shards : List ShardResult) : JobResult :=
  let gross := Cost.total (shards.map fun shard => grossOf shard.verification)
  let useful := Cost.total (shards.map fun shard => usefulOf shard.verification)
  { moduleCid := job.spec.moduleCid
    shards := shards
    attestation := jobAttestationOf shards
    complete := shards.all ShardResult.sound
    gross := gross
    useful := useful
    verificationMultiplier := if useful.fuel = 0 then 0 else gross.fuel / useful.fuel
    redispatches := s.leases.redispatches
    leaseHistory := s.leases.history
    speculationMultiplier := s.ledger.multiplier
    speculationSpent := s.ledger.spent
    coverage := jobCoverageOf job.spec.shards shards }

def settledResult (p : Platform) (job : PreparedJob) (st : ShardState) : Option ShardResult :=
  match st.phase with
  | .settled shard => some (compared p job shard st.flights)
  | _ => none

/-- What is returned in this state; `none` while a shard has not settled. -/
def conclude (p : Platform) (job : PreparedJob) (c : Config Nat Shared ShardState) :
    Option JobResult :=
  ((List.range job.plans.length).mapM fun i => settledResult p job (c.locals i)).map
    (jobResultOf job c.shared)

/-! ## What a conclusion says of each shard -/

theorem settledResult_eq_some {p : Platform} {job : PreparedJob} {st : ShardState}
    {result : ShardResult} :
    settledResult p job st = some result
      ↔ ∃ shard, st.phase = .settled shard ∧ result = compared p job shard st.flights := by
  rw [settledResult]
  split
  · next shard hphase =>
    rw [Option.some.injEq]
    exact ⟨fun h => ⟨shard, hphase, h.symm⟩, by
      rintro ⟨shard', hphase', rfl⟩
      rw [hphase] at hphase'
      cases hphase'
      rfl⟩
  · next hphase =>
    constructor
    · exact fun h => nomatch h
    · rintro ⟨shard, heq, -⟩
      exact absurd heq (hphase shard)

/-- The comparison of the losing copies touches nothing but what it reports. -/
theorem compared_eq (p : Platform) (job : PreparedJob) (shard : SettledShard)
    (flights : List Flight) :
    ∃ copies disagreed, compared p job shard flights
      = { shard.result with copies := copies, disagreed := disagreed } := by
  rw [compared]
  split
  · exact ⟨shard.result.copies, shard.result.disagreed, rfl⟩
  · exact ⟨_, _, rfl⟩

variable {c : Config Nat Shared ShardState} {result : JobResult}

/-- Every shard's result in a conclusion is what the shard settled with. -/
theorem conclude_shards {p : Platform} {job : PreparedJob} (h : conclude p job c = some result) :
    ∃ shards, result = jobResultOf job c.shared shards ∧
      List.Forall₂ (fun i shard => settledResult p job (c.locals i) = some shard)
        (List.range job.plans.length) shards := by
  obtain ⟨shards, hshards, rfl⟩ := Option.map_eq_some_iff.mp h
  exact ⟨shards, rfl, mapM_eq_some_iff.mp hshards⟩

/-- Shard by shard, in the order of their partitions. -/
theorem conclude_getElem? {p : Platform} {job : PreparedJob} (h : conclude p job c = some result)
    {i : Nat} {shard : ShardResult} (hshard : result.shards[i]? = some shard) :
    i < job.plans.length ∧ settledResult p job (c.locals i) = some shard := by
  obtain ⟨shards, rfl, hall⟩ := conclude_shards h
  have hi : i < shards.length := (List.getElem?_eq_some_iff.mp hshard).1
  have hlen := hall.length_eq
  rw [List.length_range] at hlen
  obtain ⟨-, hget⟩ := List.forall₂_iff_get.mp hall
  have hrange : i < (List.range job.plans.length).length := by
    rw [List.length_range]
    omega
  have := hget i hrange hi
  rw [List.get_eq_getElem, List.get_eq_getElem, List.getElem_range] at this
  rw [show shards[i] = shard from (List.getElem?_eq_some_iff.mp hshard).2] at this
  exact ⟨by omega, this⟩

/-- Every shard has a result. -/
theorem conclude_at {p : Platform} {job : PreparedJob} (h : conclude p job c = some result)
    {i : Nat} (hi : i < job.plans.length) :
    ∃ shard, result.shards[i]? = some shard ∧ settledResult p job (c.locals i) = some shard := by
  have hlen : i < result.shards.length := by
    obtain ⟨shards, rfl, hall⟩ := conclude_shards h
    have := hall.length_eq
    rw [List.length_range] at this
    show i < shards.length
    omega
  have hshard : result.shards[i]? = some result.shards[i] := List.getElem?_eq_getElem hlen
  exact ⟨_, hshard, (conclude_getElem? h hshard).2⟩

/-! ## Playing a submission out -/

/-- A submission prepared and taken through some events. -/
def playOut (p : Platform) (spec : JobSpec) (options : SubmitOptions) (blocks : Blocks)
    (ask : Bool → Nat → Offer → Admission) (now : ℚ)
    (events : List (Event Nat ShardEvent ChainEvent)) :
    Option (Prepared × Config Nat Shared ShardState) :=
  (prepare p spec options blocks ask now).toOption.bind fun prepared =>
    ((running p prepared.job).run prepared.start events).map fun c => (prepared, c)

theorem playOut_spec {p : Platform} {spec : JobSpec} {options : SubmitOptions} {blocks : Blocks}
    {ask : Bool → Nat → Offer → Admission} {now : ℚ}
    {events : List (Event Nat ShardEvent ChainEvent)} {prepared : Prepared}
    (h : playOut p spec options blocks ask now events = some (prepared, c)) :
    prepare p spec options blocks ask now = .ok prepared ∧
      (running p prepared.job).run prepared.start events = some c := by
  simp only [playOut, Option.bind_eq_some_iff, Option.map_eq_some_iff, Prod.mk.injEq] at h
  obtain ⟨prepared', hprepare, c', hrun, rfl, rfl⟩ := h
  refine ⟨?_, hrun⟩
  cases hcase : prepare p spec options blocks ask now with
  | error _ =>
    rw [hcase] at hprepare
    cases hprepare
  | ok _ =>
    rw [hcase] at hprepare
    cases hprepare
    rfl

/-- The same along events that a guard admits where they happen. -/
def playWhere (p : Platform) (spec : JobSpec) (options : SubmitOptions) (blocks : Blocks)
    (ask : Bool → Nat → Offer → Admission) (now : ℚ)
    (guard : PreparedJob → Config Nat Shared ShardState → Event Nat ShardEvent ChainEvent → Prop)
    [∀ job c e, Decidable (guard job c e)] (events : List (Event Nat ShardEvent ChainEvent)) :
    Option (Prepared × Config Nat Shared ShardState) :=
  (prepare p spec options blocks ask now).toOption.bind fun prepared =>
    ((running p prepared.job).runWhere (guard prepared.job) prepared.start events).map
      fun c => (prepared, c)

theorem playWhere_spec {p : Platform} {spec : JobSpec} {options : SubmitOptions} {blocks : Blocks}
    {ask : Bool → Nat → Offer → Admission} {now : ℚ}
    {guard : PreparedJob → Config Nat Shared ShardState → Event Nat ShardEvent ChainEvent → Prop}
    [∀ job c e, Decidable (guard job c e)] {events : List (Event Nat ShardEvent ChainEvent)}
    {prepared : Prepared}
    (h : playWhere p spec options blocks ask now guard events = some (prepared, c)) :
    prepare p spec options blocks ask now = .ok prepared ∧
      ReachesWhere p prepared (guard prepared.job) c := by
  simp only [playWhere, Option.bind_eq_some_iff, Option.map_eq_some_iff, Prod.mk.injEq] at h
  obtain ⟨prepared', hprepare, c', hrun, rfl, rfl⟩ := h
  refine ⟨?_, System.Reaches.of_runWhere hrun⟩
  cases hcase : prepare p spec options blocks ask now with
  | error _ =>
    rw [hcase] at hprepare
    cases hprepare
  | ok _ =>
    rw [hcase] at hprepare
    cases hprepare
    rfl

/-- A node without a certificate that can execute sovereign work. -/
def bareNode (nodeId ownerId : JsString) : NodeDescriptor := ⟨nodeId, ownerId, true, 0, none⟩

/-- A job over such nodes, each with an executor that does not commit, and
    without an admission function. -/
def bareSpec (shards : List ShardSpec) (nodes : List NodeDescriptor) (redundancy : Nat) :
    JobSpec where
  moduleCid := plainCid
  shards := shards
  executors := nodes.map fun node => ⟨node.nodeId, false⟩
  nodes := nodes
  redundancy := .finite redundancy
  onQuorumShortfall := .runsAtAvailableRedundancy
  admits := false
  leaseMs := none

/-- No sink, no handles, and the default dial. -/
def bareOptions : SubmitOptions := ⟨defaultSpeculation, false, []⟩

/-- A submission over an empty store whose offers, if any, are all accepted. -/
def playBare (spec : JobSpec) (events : List (Event Nat ShardEvent ChainEvent)) :
    Option (Prepared × Config Nat Shared ShardState) :=
  playOut plain spec bareOptions (fun _ => none) (fun _ _ _ => .accepted none) 0 events

/-- The same along events that a guard admits. -/
def playBareWhere (spec : JobSpec)
    (guard : PreparedJob → Config Nat Shared ShardState → Event Nat ShardEvent ChainEvent → Prop)
    [∀ job c e, Decidable (guard job c e)] (events : List (Event Nat ShardEvent ChainEvent)) :
    Option (Prepared × Config Nat Shared ShardState) :=
  playWhere plain spec bareOptions (fun _ => none) (fun _ _ _ => .accepted none) 0 guard events

/-- A run that answers at no cost, unsigned. -/
def answers : ExecutionOutcome CanonicalValue := .ok .null 0 .signedByNobody

def refuses : ExecutionOutcome CanonicalValue := .failed (js "no room")

end O2Fabric.Submit
