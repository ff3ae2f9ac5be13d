/-
  O2Fabric.Core.Job.Submit.Cases

  Everything each step of a running job can do, guards included.  What is
  proved about runs is proved from these, without unfolding a step again.
-/

import O2Fabric.Core.Job.Submit.State

namespace O2Fabric.Submit

open Job Threads

variable {p : Platform} {job : PreparedJob} {plan : ShardPlan} {s s' : Shared}
  {st st' : ShardState}

/-- The head of the dispatch loop ends in one of two phases. -/
theorem top_cases (race : Race) (at_ : ℚ) :
    (race.lease.expired at_ = true ∧ race.top at_ = race.lapses) ∨
      (race.lease.expired at_ = false ∧ race.top at_ = .racing race) := by
  rw [Race.top]
  cases h : race.lease.expired at_ with
  | true => exact Or.inl ⟨rfl, rfl⟩
  | false => exact Or.inr ⟨rfl, rfl⟩

variable {at_ : ℚ}

theorem grantStep_cases {now startedAt : ℚ}
    (h : grantStep job plan now startedAt at_ s st = some (s', st')) :
    ∃ nodeIds, st.phase = .granting nodeIds ∧
      ((∃ leases, s.leases.grant plan.shardId (nodeIds.headD []) now = (none, leases) ∧
        s' = { s with leases := leases } ∧
        st' = { st with phase := .ended .generationsSpent }) ∨
      ∃ lease leases, s.leases.grant plan.shardId (nodeIds.headD []) now = (some lease, leases) ∧
        s' = { s with leases := leases } ∧
        st' = { st with
          generations := st.generations + 1
          attempted := st.attempted ++ nodeIds
          flights := st.flights ++ [⟨nodeIds, false, none⟩]
          phase := (startRace job (nodeIds.headD []) startedAt lease s st).top at_ }) := by
  unfold grantStep at h
  split at h
  · next nodeIds hphase =>
    refine ⟨nodeIds, hphase, ?_⟩
    dsimp only at h
    split at h
    · next leases hgrant =>
      cases h
      exact Or.inl ⟨leases, hgrant, rfl, rfl⟩
    · next lease leases hgrant =>
      cases h
      exact Or.inr ⟨lease, leases, hgrant, rfl, rfl⟩
  · cases h

theorem answerStep_cases {k : Nat} {answer : DispatchAnswer}
    (h : answerStep p job plan k answer s st = some (s', st')) :
    ∃ nodeIds speculative v, st.flights[k]? = some ⟨nodeIds, speculative, none⟩ ∧
      answer.fits (runsCeremony job plan nodeIds) nodeIds = true ∧
      v = verificationOf p (taskOf job plan) nodeIds answer ∧ s' = s ∧
      st' = { st with
        flights := st.flights.set k ⟨nodeIds, speculative, some v⟩
        reported := if v.isInsufficient && st.phase.looping then st.reported ++ v.failures
          else st.reported } := by
  unfold answerStep at h
  split at h
  · next nodeIds speculative hflight =>
    split at h
    · next hfits =>
      cases h
      exact ⟨nodeIds, speculative, _, hflight, hfits, rfl, rfl, rfl⟩
    · cases h
  · cases h

theorem deliverStep_cases {key : JsString} (h : deliverStep key at_ s st = some (s', st')) :
    ∃ race k flight v, st.phase = .racing race ∧ race.copies.get? key = some k ∧
      st.flights[k]? = some flight ∧ flight.answer = some v ∧ s' = s ∧
      (((v.isInsufficient = false ∨ (race.copies.delete key).size = 0) ∧
        st' = { st with
          phase := race.returns
            (.answered (mergeInto race.answered v) (race.copies.delete key).values) }) ∨
      (v.isInsufficient = true ∧ (race.copies.delete key).size ≠ 0 ∧
        st' = { st with
          phase := Race.top
            { race with
              copies := race.copies.delete key
              answered := some (mergeInto race.answered v) } at_ })) := by
  unfold deliverStep at h
  split at h
  · next race hphase =>
    split at h
    · next nodeIds speculative v hflight =>
      obtain ⟨k, hkey, hk⟩ := Option.bind_eq_some_iff.mp hflight
      cases h
      refine ⟨race, k, _, v, hphase, hkey, hk, rfl, rfl, ?_⟩
      cases hv : v.isInsufficient with
      | false => exact Or.inl ⟨Or.inl rfl, rfl⟩
      | true =>
        by_cases hsize : (race.copies.delete key).size = 0
        · refine Or.inl ⟨Or.inr hsize, ?_⟩
          simp only [Bool.not_true, Bool.false_or, hsize, beq_self_eq_true, if_true]
          rfl
        · refine Or.inr ⟨rfl, hsize, ?_⟩
          have hne : ((race.copies.delete key).size == 0) = false := beq_eq_false_iff_ne.mpr hsize
          simp only [Bool.not_true, Bool.false_or, hne, Bool.false_eq_true, if_false]
    · cases h
  · cases h

/-- The look that may start a copy starts none, or one on a candidate. -/
theorem speculate_cases (p : Platform) (job : PreparedJob) (plan : ShardPlan) (woke : ℚ)
    (race : Race) (s : Shared) (st : ShardState) :
    (∃ watching, speculate p job plan woke race s st
        = (s, st, { race with watching := watching })) ∨
    ∃ target others ledger, race.watching = true ∧
      s.ledger.duplicated race.lease.taskId = false ∧
      speculativeCandidates (plan.request 1) plan.gate.pool st.attempted = target :: others ∧
      s.ledger.request race.lease.taskId = (true, ledger) ∧
      speculate p job plan woke race s st
        = ({ s with ledger := ledger },
          { st with
            attempted := st.attempted ++ [target.nodeId]
            flights := st.flights ++ [⟨[target.nodeId], true, none⟩] },
          { race with
            speculated := true
            judgedAt := some woke
            copies := race.copies.set target.nodeId st.flights.length }) := by
  rw [speculate]
  split
  · exact Or.inl ⟨race.watching, rfl⟩
  · next hwatching =>
    split
    · exact Or.inl ⟨false, rfl⟩
    · next hopen =>
      split
      · exact Or.inl ⟨false, rfl⟩
      · next target others hcandidates =>
        split
        · exact Or.inl ⟨race.watching, rfl⟩
        · split
          · next ledger hrequest =>
            have hsame : ledger = s.ledger := by
              rcases s.ledger.request_cases race.lease.taskId with heq | ⟨_, heq, -⟩
              · rw [heq] at hrequest
                cases hrequest
                rfl
              · rw [heq] at hrequest
                cases hrequest
            rw [hsame]
            exact Or.inl ⟨false, rfl⟩
          · next ledger hrequest =>
            simp only [Bool.or_eq_true, not_or, Bool.not_eq_true] at hopen
            refine Or.inr ⟨target, others, ledger, ?_, hopen.1, hcandidates, hrequest, rfl⟩
            simpa using hwatching

theorem tickStep_cases {woke : ℚ} (h : tickStep p job plan woke at_ s st = some (s', st')) :
    ∃ race, st.phase = .racing race ∧
      ((race.lease.expired woke = true ∧ s' = s ∧
        st' = { st with phase := race.lapses }) ∨
      ∃ s₁ st₁ race₁, speculate p job plan woke race s st = (s₁, st₁, race₁) ∧
        race.lease.expired woke = false ∧ s' = s₁ ∧
        (st' = { st₁ with phase := race₁.top at_ } ∨
          (race₁.renewable = true ∧ shouldRenew race₁.lease woke = true ∧
            st' = { st₁ with phase := .probing race₁ woke }))) := by
  unfold tickStep at h
  split at h
  · next race hphase =>
    refine ⟨race, hphase, ?_⟩
    split at h
    · next hexpired =>
      cases h
      exact Or.inl ⟨hexpired, rfl, rfl⟩
    · next hexpired =>
      refine Or.inr ⟨_, _, _, rfl, by simpa using hexpired, ?_⟩
      dsimp only at h
      split at h
      · cases h
        exact ⟨rfl, Or.inl rfl⟩
      · next hrenew =>
        cases h
        simp only [Bool.or_eq_true, Bool.not_eq_true', not_or, Bool.not_eq_false] at hrenew
        exact ⟨rfl, Or.inr ⟨hrenew.1, hrenew.2, rfl⟩⟩
  · cases h

theorem probedStep_cases {working : Bool} (h : probedStep working at_ s st = some (s', st')) :
    ∃ race woke, st.phase = .probing race woke ∧
      ((working = false ∧ s' = s ∧
        st' = { st with phase := Race.top { race with renewable := false } at_ }) ∨
      (working = true ∧ ∃ leases,
        s.leases.renew race.lease.taskId race.lease.nodeId woke = (none, leases) ∧
        s' = { s with leases := leases } ∧ st' = { st with phase := race.lapses }) ∨
      (working = true ∧ ∃ lease leases,
        s.leases.renew race.lease.taskId race.lease.nodeId woke = (some lease, leases) ∧
        s' = { s with leases := leases } ∧
        st' = { st with phase := Race.top { race with lease := lease } at_ })) := by
  unfold probedStep at h
  split at h
  · next race woke hphase =>
    refine ⟨race, woke, hphase, ?_⟩
    split at h
    · next hworking =>
      split at h
      · next leases hrenew =>
        cases h
        exact Or.inr (Or.inl ⟨hworking, leases, hrenew, rfl, rfl⟩)
      · next lease leases hrenew =>
        cases h
        exact Or.inr (Or.inr ⟨hworking, lease, leases, hrenew, rfl, rfl⟩)
    · next hworking =>
      cases h
      exact Or.inl ⟨by simpa using hworking, rfl, rfl⟩
  · cases h

/-- What a returned generation leaves of the shard, whatever comes next. -/
def entered (r : Returned) (outstanding : List Nat) (verification : Option Verification)
    (st : ShardState) : ShardState :=
  { st with
    speculated := st.speculated || r.speculated
    judgedAt := st.judgedAt.or r.judgedAt
    outstanding := st.outstanding ++ outstanding
    verification := verification }

/-- The durations with one more, unless nobody answered. -/
def enteredDurations (now : ℚ) (r : Returned) (v : Verification) (s : Shared) : List ℚ :=
  if v.isInsufficient then s.completedDurations
  else s.completedDurations ++ [max 1 (now - r.startedAt)]

theorem resumeStep_cases {now : ℚ} (h : resumeStep p job plan now at_ s st = some (s', st')) :
    ∃ r, st.phase = .returned r ∧
      ((∃ dropped, r.dispatched = .lapsed dropped ∧
        s' = { s with leases := (s.leases.reap p at_ (some plan.shardId)).2 } ∧
        st' = { entered r [] st.verification st with
          dropped := st.dropped ++ dropped
          phase := .placing }) ∨
      ∃ v outstanding merged, r.dispatched = .answered v outstanding ∧
        merged = mergeInto st.verification v ∧
        ((s' = { s with
            completedDurations := enteredDurations now r v s
            leases := (s.leases.complete plan.shardId r.holderId at_).2 } ∧
          ((merged.isAgreed = false ∧ merged.isInsufficient = false ∧
            st' = { entered r outstanding (some merged) st with phase := .ended .disagreed }) ∨
          (merged.isAgreed = true ∧ job.redundancy ≤ merged.replicaCount ∧
            st' = { entered r outstanding (some merged) st with phase := .ended .agreed }))) ∨
        (s' = { s with
            completedDurations := enteredDurations now r v s
            leases := (s.leases.surrender plan.shardId r.holderId at_).2 } ∧
          (merged.isInsufficient = true ∨
            (merged.isAgreed = true ∧ merged.replicaCount < job.redundancy)) ∧
          st' = { entered r outstanding (some merged) st with phase := .placing }))) := by
  unfold resumeStep at h
  split at h
  · next r hphase =>
    refine ⟨r, hphase, ?_⟩
    dsimp only at h
    split at h
    · next dropped hdispatched =>
      cases h
      refine Or.inl ⟨dropped, hdispatched, rfl, ?_⟩
      rw [entered, List.append_nil]
    · next v outstanding hdispatched =>
      refine Or.inr ⟨v, outstanding, _, hdispatched, rfl, ?_⟩
      have hdurations : ∀ leases : LeaseTable ℚ → LeaseTable ℚ,
          ({ (if v.isInsufficient = true then s else
            { s with completedDurations := s.completedDurations ++ [max 1 (now - r.startedAt)] })
            with leases := leases (if v.isInsufficient = true then s else
            { s with
              completedDurations :=
                s.completedDurations ++ [max 1 (now - r.startedAt)] }).leases } : Shared)
            = { s with
              completedDurations := enteredDurations now r v s
              leases := leases s.leases } := by
        intro leases
        rw [enteredDurations]
        split <;> rfl
      split at h
      · next partitions failures gross hmerged =>
        cases h
        rw [hmerged]
        exact Or.inl ⟨hdurations fun t => (t.complete plan.shardId r.holderId at_).2,
          Or.inl ⟨rfl, rfl, rfl⟩⟩
      · next hmerged =>
        split at h
        · next henough =>
          cases h
          simp only [Bool.and_eq_true, decide_eq_true_eq] at henough
          exact Or.inl ⟨hdurations fun t => (t.complete plan.shardId r.holderId at_).2,
            Or.inr ⟨henough.1, henough.2, rfl⟩⟩
        · next hfew =>
          cases h
          refine Or.inr ⟨hdurations fun t => (t.surrender plan.shardId r.holderId at_).2,
            ?_, rfl⟩
          simp only [Bool.and_eq_true, decide_eq_true_eq, not_and, not_le] at hfew
          cases hcase : mergeInto st.verification v with
          | agreed =>
            rw [hcase] at hfew
            exact Or.inr ⟨rfl, hfew rfl⟩
          | disagreed partitions failures gross =>
            exact absurd hcase (hmerged partitions failures gross)
          | insufficient => exact Or.inl rfl
  · cases h

theorem placeStep_cases {ask : Nat → Offer → Admission}
    (h : placeStep p job plan ask s st = some (s', st')) :
    st.phase = .placing ∧ s' = s ∧
      ((∃ nodeIds rejections degraded,
        placeAgain p job plan (wantedOf job st.verification) st.attempted ask
          = .placed nodeIds rejections degraded ∧
        st' = { st with
          rejections := st.rejections ++ rejections
          placementDegraded := st.placementDegraded || degraded
          phase := .granting nodeIds }) ∨
      ∃ rejections,
        placeAgain p job plan (wantedOf job st.verification) st.attempted ask
          = .notPlaced rejections ∧
        st' = { st with
          rejections := st.rejections ++ rejections
          phase := .ended .noUntriedNode }) := by
  unfold placeStep at h
  split at h
  · next hphase =>
    refine ⟨hphase, ?_⟩
    split at h
    · next nodeIds rejections degraded hplaced =>
      cases h
      exact ⟨rfl, Or.inl ⟨nodeIds, rejections, degraded, hplaced, rfl⟩⟩
    · next rejections hplaced =>
      cases h
      exact ⟨rfl, Or.inr ⟨rejections, hplaced, rfl⟩⟩
  · cases h

theorem storeStep_cases (h : storeStep p plan s st = some (s', st')) :
    ∃ ending resultCid output agreeing replicas failures gross useful,
      st.phase = .ended ending ∧
      settledOf plan ending st
        = .agreed resultCid output agreeing replicas failures gross useful ∧
      s' = withOutput p output s ∧ st' = { st with phase := .stored ending } := by
  unfold storeStep at h
  split at h
  · next ending hphase =>
    split at h
    · next resultCid output agreeing replicas failures gross useful hsettled =>
      cases h
      exact ⟨ending, resultCid, output, agreeing, replicas, failures, gross, useful, hphase,
        hsettled, rfl, rfl⟩
    · cases h
  · cases h

theorem recordStep_cases (h : recordStep job plan s st = some (s', st')) :
    ∃ ending resultCid, st.phase = .stored ending ∧
      (settledOf plan ending st).agreedCid = some resultCid ∧
      ((job.options.checkpoints = true ∧
        s' = { s with
          log := { s.log with
            queue := s.log.queue ++ [⟨plan.partitionIndex, resultCid.toText⟩] } } ∧
        st' = { st with phase := .recording ending (s.log.tickets + 1) }) ∨
      (job.options.checkpoints = false ∧ s' = s ∧
        st' = { st with phase := .recording ending 0 })) := by
  unfold recordStep at h
  split at h
  · next ending hphase =>
    split at h
    · next resultCid output agreeing replicas failures gross useful hsettled =>
      refine ⟨ending, resultCid, hphase, by rw [hsettled]; rfl, ?_⟩
      split at h
      · next hsink =>
        cases h
        exact Or.inl ⟨hsink, rfl, rfl⟩
      · next hsink =>
        cases h
        exact Or.inr ⟨by simpa using hsink, rfl, rfl⟩
    · cases h
  · cases h

theorem finishStep_cases (h : finishStep p job plan s st = some (s', st')) :
    s' = s ∧ ∃ ending,
      ((st.phase = .ended ending ∧ (settledOf plan ending st).isAgreed = false) ∨
        ∃ ticket, st.phase = .recording ending ticket ∧ ticket ≤ s.log.done) ∧
      st' = settle p job plan ending st := by
  unfold finishStep at h
  split at h
  · next ending hphase =>
    split at h
    · cases h
    · next hsettled =>
      cases h
      exact ⟨rfl, ending, Or.inl ⟨hphase, by simpa using hsettled⟩, rfl⟩
  · next ending ticket hphase =>
    split at h
    · next hdone =>
      cases h
      exact ⟨rfl, ending, Or.inr ⟨ticket, hphase, hdone⟩, rfl⟩
    · cases h
  · cases h

/-- A shard settles with its result, or its receipt throws. -/
theorem settle_cases (p : Platform) (job : PreparedJob) (plan : ShardPlan) (ending : ShardEnding)
    (st : ShardState) :
    (attestationOf p job plan (settledOf plan ending st) = none ∧
      settle p job plan ending st = { st with phase := .threw }) ∨
    ∃ attestation, attestationOf p job plan (settledOf plan ending st) = some attestation ∧
      settle p job plan ending st = { st with
        phase := .settled ⟨resultOf job plan ending attestation st, st.outstanding,
          (settledOf plan ending st).agreedCid.map Cid.toText⟩ } := by
  rw [settle]
  split
  · next hnone => exact Or.inl ⟨hnone, rfl⟩
  · next attestation hsome => exact Or.inr ⟨attestation, hsome, rfl⟩

/-- The four stretches of the checkpoint chain. -/
theorem chainStep_cases {event : ChainEvent} (h : chainStep p job event s = some s') :
    (∃ at_ shard rest, event = .begin at_ ∧ s.log.link = .idle ∧ s.log.queue = shard :: rest ∧
      s' = { s with
        log := { s.log with
          completed := s.log.completed ++ [shard]
          queue := rest
          link := .writing (checkpointOf job.jobId job.spec.moduleCid.toText
            job.spec.shards.length (s.log.completed ++ [shard]) (max 0 ⌊at_⌋).toNat
            s.log.previous) } }) ∨
    (∃ checkpoint handle, event = .put ∧ s.log.link = .writing checkpoint ∧
      p.canonicalCid (toValue checkpoint) = .ok handle ∧
      s' = { s with
        blocks := s.blocks.put handle (toValue checkpoint)
        log := { s.log with link := .written handle checkpoint } }) ∨
    (∃ handle checkpoint, event = .publish ∧ s.log.link = .written handle checkpoint ∧
      s' = { s with
        log := { s.log with
          previous := some handle.toText
          published := s.log.published ++ [(handle, checkpoint)]
          link := .publishing } }) ∨
    (event = .acknowledged ∧ s.log.link = .publishing ∧
      s' = { s with log := { s.log with done := s.log.done + 1, link := .idle } }) := by
  unfold chainStep at h
  split at h
  · next at_ shard rest hlink hqueue =>
    cases h
    exact Or.inl ⟨at_, shard, rest, rfl, hlink, hqueue, rfl⟩
  · next checkpoint hlink =>
    split at h
    · cases h
    · next handle hhandle =>
      cases h
      exact Or.inr (Or.inl ⟨checkpoint, handle, rfl, hlink, hhandle, rfl⟩)
  · next handle checkpoint hlink =>
    cases h
    exact Or.inr (Or.inr (Or.inl ⟨handle, checkpoint, rfl, hlink, rfl⟩))
  · next hlink =>
    cases h
    exact Or.inr (Or.inr (Or.inr ⟨rfl, hlink, rfl⟩))
  · cases h

/-! ## The start -/

variable {i : Nat}

theorem Prepared.start_locals {prepared : Prepared} {plan : ShardPlan}
    (hplan : prepared.job.plans[i]? = some plan) : prepared.start.locals i = startShard plan := by
  simp only [Prepared.start, hplan]

/-- Each shard starts out as planned; past the last one there is nothing. -/
theorem Prepared.start_cases (prepared : Prepared) (i : Nat) :
    (∃ plan, prepared.job.plans[i]? = some plan ∧ prepared.start.locals i = startShard plan) ∨
    prepared.start.locals i = freshShard [] false (.granting []) := by
  cases hplan : prepared.job.plans[i]? with
  | some plan => exact Or.inl ⟨plan, rfl, Prepared.start_locals hplan⟩
  | none =>
    right
    simp only [Prepared.start, hplan]

variable {event : ShardEvent}

/-- A thread of the whole is its shard's step. -/
theorem shardStep_of_own (hplan : job.plans[i]? = some plan)
    (h : (running p job).own i event s st = some (s', st')) :
    shardStep p job plan event s st = some (s', st') := by
  simp only [running, hplan] at h
  exact h

/-- What holds of a shard at its start and is kept by its own steps holds of it
    in every state reached. -/
theorem eachShard {prepared : Prepared}
    {guard : Config Nat Shared ShardState → Event Nat ShardEvent ChainEvent → Prop}
    {c : Config Nat Shared ShardState} (hreach : ReachesWhere p prepared guard c)
    {I : Nat → ShardPlan → ShardState → Prop}
    (hinit : ∀ i plan, prepared.job.plans[i]? = some plan → I i plan (startShard plan))
    (hstep : ∀ c i plan event s l, guard c (.own i event) → prepared.job.plans[i]? = some plan →
      I i plan (c.locals i) → shardStep p prepared.job plan event c.shared (c.locals i) = some (s, l) →
      I i plan l) (hplan : prepared.job.plans[i]? = some plan) :
    I i plan (c.locals i) := by
  refine System.Reaches.eachLocal hreach
    (I := fun i st => ∀ plan, prepared.job.plans[i]? = some plan → I i plan st) ?_ ?_ i plan hplan
  · intro i plan hplan
    rw [Prepared.start_locals hplan]
    exact hinit i plan hplan
  · intro c i event s l hguard hI hown plan hplan
    exact hstep c i plan event s l hguard hplan (hI plan hplan) (shardStep_of_own hplan hown)

/-! ## The nodes a step gives a shard -/

/-- What a step does to the nodes a shard was given: nothing; the nodes its loop
    stood before are dispatched to; one speculative copy is dispatched; or a
    placement hands the loop its next nodes. -/
inductive Dispatching (p : Platform) (job : PreparedJob) (plan : ShardPlan) (event : ShardEvent)
    (st st' : ShardState) : Prop
  | stays (attempted : st'.attempted = st.attempted)
      (flights : st'.flights.map Flight.nodeIds = st.flights.map Flight.nodeIds)
      (granting : ∀ nodeIds, st'.phase = .granting nodeIds → st.phase = .granting nodeIds)
  | granted (nodeIds : List JsString) (phase : st.phase = .granting nodeIds)
      (attempted : st'.attempted = st.attempted ++ nodeIds)
      (flights : st'.flights.map Flight.nodeIds = st.flights.map Flight.nodeIds ++ [nodeIds])
      (granting : ∀ nodeIds, st'.phase ≠ .granting nodeIds)
  | copied (target : NodeDescriptor)
      (candidate : target ∈ speculativeCandidates (plan.request 1) plan.gate.pool st.attempted)
      (attempted : st'.attempted = st.attempted ++ [target.nodeId])
      (flights : st'.flights.map Flight.nodeIds
        = st.flights.map Flight.nodeIds ++ [[target.nodeId]])
      (granting : ∀ nodeIds, st'.phase ≠ .granting nodeIds)
  | placed (ask : Nat → Offer → Admission) (place : event = .place ask)
      (nodeIds : List JsString) (rejections : List Rejection) (degraded : Bool)
      (phase : st.phase = .placing)
      (again : placeAgain p job plan (wantedOf job st.verification) st.attempted ask
        = .placed nodeIds rejections degraded)
      (attempted : st'.attempted = st.attempted)
      (flights : st'.flights.map Flight.nodeIds = st.flights.map Flight.nodeIds)
      (granting : st'.phase = .granting nodeIds)

theorem top_ne_granting (race : Race) (at_ : ℚ) (nodeIds : List JsString) :
    race.top at_ ≠ .granting nodeIds := by
  rcases top_cases race at_ with ⟨-, heq⟩ | ⟨-, heq⟩ <;> rw [heq] <;> exact Phase.noConfusion

/-- A step that only moves on inside the loop, or out of it. -/
theorem Dispatching.of_phase {phase : Phase} (h : ∀ nodeIds, phase ≠ .granting nodeIds)
    {st₁ : ShardState} (hattempted : st₁.attempted = st.attempted)
    (hflights : st₁.flights = st.flights) :
    Dispatching p job plan event st { st₁ with phase := phase } :=
  .stays hattempted (congrArg _ hflights) fun nodeIds heq => absurd heq (h nodeIds)

theorem shardStep_dispatching (h : shardStep p job plan event s st = some (s', st')) :
    Dispatching p job plan event st st' := by
  have hnever : ∀ {phase : Phase}, (∀ nodeIds, phase ≠ .granting nodeIds) →
      Dispatching p job plan event st { st with phase := phase } :=
    fun hphase => .of_phase hphase rfl rfl
  cases event with
  | grant now startedAt at_ =>
    obtain ⟨nodeIds, hphase, ⟨_, -, -, rfl⟩ | ⟨lease, _, -, -, rfl⟩⟩ := grantStep_cases h
    · exact hnever fun _ => Phase.noConfusion
    · exact .granted nodeIds hphase rfl List.map_append (top_ne_granting _ at_)
  | answer k answer =>
    obtain ⟨nodeIds, speculative, v, hflight, -, -, -, rfl⟩ := answerStep_cases h
    refine .stays rfl ?_ fun _ heq => heq
    -- The answer is entered in the copy's own place.
    apply List.ext_getElem?
    intro j
    rw [List.getElem?_map, List.getElem?_map, List.getElem?_set]
    split
    · next heq =>
      subst heq
      rw [hflight]
      have hlt := (List.getElem?_eq_some_iff.mp hflight).1
      rw [if_pos hlt]
      rfl
    · rfl
  | deliver key at_ =>
    obtain ⟨race, k, flight, v, -, -, -, -, -, ⟨-, rfl⟩ | ⟨-, -, rfl⟩⟩ := deliverStep_cases h
    · exact hnever fun _ => Phase.noConfusion
    · exact hnever (top_ne_granting _ at_)
  | tick woke at_ =>
    obtain ⟨race, hphase, ⟨-, -, rfl⟩ | ⟨s₁, st₁, race₁, hspeculate, -, -, hst⟩⟩ :=
      tickStep_cases h
    · exact hnever fun _ => Phase.noConfusion
    · have hmoved : ∀ nodeIds, st'.phase ≠ .granting nodeIds := by
        intro nodeIds
        rcases hst with rfl | ⟨-, -, rfl⟩
        · exact top_ne_granting _ at_ nodeIds
        · exact Phase.noConfusion
      have hkept : st'.attempted = st₁.attempted ∧ st'.flights = st₁.flights := by
        rcases hst with rfl | ⟨-, -, rfl⟩ <;> exact ⟨rfl, rfl⟩
      rcases speculate_cases p job plan woke race s st with
        ⟨watching, heq⟩ | ⟨target, others, ledger, -, -, hcandidates, -, heq⟩
      · rw [heq] at hspeculate
        cases hspeculate
        exact .stays hkept.1 (congrArg _ hkept.2) fun nodeIds heq => absurd heq (hmoved nodeIds)
      · rw [heq] at hspeculate
        cases hspeculate
        refine .copied target ?_ hkept.1 ?_ hmoved
        · rw [hcandidates]
          exact List.mem_cons_self
        · rw [hkept.2, List.map_append]
          rfl
  | probed working at_ =>
    obtain ⟨race, woke, -, ⟨-, -, rfl⟩ | ⟨-, _, -, -, rfl⟩ | ⟨-, _, _, -, -, rfl⟩⟩ :=
      probedStep_cases h
    · exact hnever (top_ne_granting _ at_)
    · exact hnever fun _ => Phase.noConfusion
    · exact hnever (top_ne_granting _ at_)
  | resume now at_ =>
    obtain ⟨r, -, ⟨_, -, -, rfl⟩ | ⟨v, outstanding, merged, -, -,
      ⟨-, ⟨-, -, rfl⟩ | ⟨-, -, rfl⟩⟩ | ⟨-, -, rfl⟩⟩⟩ := resumeStep_cases h
    · exact .stays rfl rfl fun _ heq => Phase.noConfusion heq
    all_goals exact .of_phase (fun _ => Phase.noConfusion) rfl rfl
  | place ask =>
    obtain ⟨hphase, -, ⟨nodeIds, rejections, degraded, hplaced, rfl⟩ | ⟨_, -, rfl⟩⟩ :=
      placeStep_cases h
    · exact .placed ask rfl nodeIds rejections degraded hphase hplaced rfl rfl rfl
    · exact .stays rfl rfl fun _ heq => Phase.noConfusion heq
  | store =>
    obtain ⟨ending, _, _, _, _, _, _, _, -, -, -, rfl⟩ := storeStep_cases h
    exact hnever fun _ => Phase.noConfusion
  | record =>
    obtain ⟨ending, _, -, -, ⟨-, -, rfl⟩ | ⟨-, -, rfl⟩⟩ := recordStep_cases h
    all_goals exact hnever fun _ => Phase.noConfusion
  | finish =>
    obtain ⟨-, ending, -, rfl⟩ := finishStep_cases h
    rcases settle_cases p job plan ending st with ⟨-, heq⟩ | ⟨_, -, heq⟩ <;> rw [heq]
    all_goals exact hnever fun _ => Phase.noConfusion

/-- A settled shard was settled before, or it settles now with what its loop
    came to. -/
theorem shardStep_settled (h : shardStep p job plan event s st = some (s', st'))
    {shard : SettledShard} (hsettled : st'.phase = .settled shard) :
    (st.phase = .settled shard ∧ st'.attempted = st.attempted ∧
      st'.generations = st.generations ∧ st'.verification = st.verification ∧
      st'.reported = st.reported) ∨
    ∃ ending attestation, shard = ⟨resultOf job plan ending attestation st, st.outstanding,
        (settledOf plan ending st).agreedCid.map Cid.toText⟩ ∧
      st' = { st with phase := .settled shard } ∧ st.phase.looping = false ∧
      (((settledOf plan ending st).isAgreed = false ∧ st.phase = .ended ending) ∨
        ∃ ticket, st.phase = .recording ending ticket) ∧ event = .finish ∧ s' = s := by
  have htop : ∀ {race : Race} {at_ : ℚ}, race.top at_ ≠ .settled shard := by
    intro race at_
    rcases top_cases race at_ with ⟨-, heq⟩ | ⟨-, heq⟩ <;> rw [heq] <;> exact Phase.noConfusion
  cases event with
  | grant now startedAt at_ =>
    obtain ⟨nodeIds, -, ⟨_, -, -, rfl⟩ | ⟨lease, _, -, -, rfl⟩⟩ := grantStep_cases h
    · cases hsettled
    · exact absurd hsettled htop
  | answer k answer =>
    obtain ⟨nodeIds, speculative, v, -, -, -, -, rfl⟩ := answerStep_cases h
    have hphase : st.phase = .settled shard := hsettled
    have hlooping : st.phase.looping = false := by rw [hphase]; rfl
    exact Or.inl ⟨hphase, rfl, rfl, rfl, by simp [hlooping]⟩
  | deliver key at_ =>
    obtain ⟨race, k, flight, v, -, -, -, -, -, ⟨-, rfl⟩ | ⟨-, -, rfl⟩⟩ := deliverStep_cases h
    · cases hsettled
    · exact absurd hsettled htop
  | tick woke at_ =>
    obtain ⟨race, -, ⟨-, -, rfl⟩ | ⟨s₁, st₁, race₁, -, -, -, rfl | ⟨-, -, rfl⟩⟩⟩ :=
      tickStep_cases h
    · cases hsettled
    · exact absurd hsettled htop
    · cases hsettled
  | probed working at_ =>
    obtain ⟨race, woke, -, ⟨-, -, rfl⟩ | ⟨-, _, -, -, rfl⟩ | ⟨-, _, _, -, -, rfl⟩⟩ :=
      probedStep_cases h
    · exact absurd hsettled htop
    · cases hsettled
    · exact absurd hsettled htop
  | resume now at_ =>
    obtain ⟨r, -, ⟨_, -, -, rfl⟩ | ⟨v, outstanding, merged, -, -,
      ⟨-, ⟨-, -, rfl⟩ | ⟨-, -, rfl⟩⟩ | ⟨-, -, rfl⟩⟩⟩ := resumeStep_cases h
    all_goals cases hsettled
  | place ask =>
    obtain ⟨-, -, ⟨_, _, _, -, rfl⟩ | ⟨_, -, rfl⟩⟩ := placeStep_cases h
    all_goals cases hsettled
  | store =>
    obtain ⟨ending, _, _, _, _, _, _, _, -, -, -, rfl⟩ := storeStep_cases h
    cases hsettled
  | record =>
    obtain ⟨ending, _, -, -, ⟨-, -, rfl⟩ | ⟨-, -, rfl⟩⟩ := recordStep_cases h
    all_goals cases hsettled
  | finish =>
    obtain ⟨hshared, ending, hphase, rfl⟩ := finishStep_cases h
    rcases settle_cases p job plan ending st with ⟨-, heq⟩ | ⟨attestation, -, heq⟩
    · rw [heq] at hsettled
      cases hsettled
    · rw [heq] at hsettled ⊢
      cases hsettled
      refine Or.inr ⟨ending, attestation, rfl, rfl, ?_, ?_, rfl, hshared⟩
      · rcases hphase with ⟨hphase, -⟩ | ⟨ticket, hphase, -⟩ <;> rw [hphase] <;> rfl
      · rcases hphase with ⟨hphase, hno⟩ | ⟨ticket, hphase, -⟩
        · exact Or.inl ⟨hno, hphase⟩
        · exact Or.inr ⟨ticket, hphase⟩

end O2Fabric.Submit
