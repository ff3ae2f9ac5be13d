/-
  O2Fabric.Core.Job.Submit.Leases

  What a running job does to its lease table, and what the table's history says
  of each shard in the end.

  In every run a shard counts one generation for each dispatch the table has of
  it.  Its ending is in the history as well, wherever the clock readings let the
  table record what the loop decided: that is `OnTime`.
-/

import O2Fabric.Core.Job.Submit.Result
import O2Fabric.Core.Lease.Audited

namespace O2Fabric.Submit

open Job Threads LeaseTable

/-! ## What a step does to the table -/

/-- Where a shard's loop stands with the table. -/
inductive Stage
  | between
  /-- Under the lease of this node. -/
  | under (holderId : JsString)
  | out (ending : ShardEnding)
  | threw
  deriving DecidableEq

def Phase.stage : Phase → Stage
  | .granting _ | .placing => .between
  | .racing race | .probing race _ => .under race.holderId
  | .returned r => .under r.holderId
  | .ended ending | .stored ending | .recording ending _ => .out ending
  | .settled shard => .out shard.result.ending
  | .threw => .threw

/-- The lease a race runs under. -/
def Phase.lease? : Phase → Option (Lease ℚ)
  | .racing race | .probing race _ => some race.lease
  | _ => none

/-- The answer in hand is one the loop ends with: it disagrees, or it agrees at
    the redundancy asked for. -/
def finishes (job : PreparedJob) (st : ShardState) : Bool :=
  match st.phase with
  | .returned ⟨.answered v _, _, _, _, _⟩ =>
    let merged := mergeInto st.verification v
    !merged.isInsufficient &&
      (!merged.isAgreed || decide (job.redundancy ≤ merged.replicaCount))
  | _ => false

/-- Everything a step can do to the table, with where it takes the loop. -/
inductive Leasing (p : Platform) (job : PreparedJob) (plan : ShardPlan) (event : ShardEvent)
    (s s' : Shared) (st st' : ShardState) : Prop
  | idle (leases : s'.leases = s.leases) (generations : st'.generations = st.generations)
      (stage : st'.phase.stage = st.phase.stage ∨ st'.phase.stage = .threw)
      (lease : ∀ lease, st'.phase.lease? = some lease → st.phase.lease? = some lease)
  | gaveUp (leases : s'.leases = s.leases) (generations : st'.generations = st.generations)
      (before : st.phase.stage = .between) (after : st'.phase.stage = .out .noUntriedNode)
  | refused (now startedAt at_ : ℚ) (holderId : JsString) (leases : LeaseTable ℚ)
      (grant : event = .grant now startedAt at_)
      (answer : s.leases.grant plan.shardId holderId now = (none, leases))
      (table : s'.leases = leases) (generations : st'.generations = st.generations)
      (before : st.phase.stage = .between) (after : st'.phase.stage = .out .generationsSpent)
  | granted (now startedAt at_ : ℚ) (holderId : JsString) (lease : Lease ℚ)
      (leases : LeaseTable ℚ) (grant : event = .grant now startedAt at_)
      (answer : s.leases.grant plan.shardId holderId now = (some lease, leases))
      (table : s'.leases = leases) (generations : st'.generations = st.generations + 1)
      (before : st.phase.stage = .between) (after : st'.phase.stage = .under holderId)
      (inForce : ∀ inForce, st'.phase.lease? = some inForce → inForce = lease)
  | renewed (lease : Lease ℚ) (woke : ℚ) (before : st.phase.lease? = some lease)
      (table : s'.leases = (s.leases.renew lease.taskId lease.nodeId woke).2)
      (generations : st'.generations = st.generations)
      (stage : st'.phase.stage = st.phase.stage)
      (inForce : ∀ inForce, st'.phase.lease? = some inForce →
        (s.leases.renew lease.taskId lease.nodeId woke).1 = some inForce)
  | reaped (holderId : JsString) (at_ : ℚ)
      (table : s'.leases = (s.leases.reap p at_ (some plan.shardId)).2)
      (generations : st'.generations = st.generations)
      (before : st.phase.stage = .under holderId) (after : st'.phase.stage = .between)
  | surrendered (holderId : JsString) (at_ : ℚ)
      (table : s'.leases = (s.leases.surrender plan.shardId holderId at_).2)
      (generations : st'.generations = st.generations)
      (before : st.phase.stage = .under holderId) (after : st'.phase.stage = .between)
  | completed (now at_ : ℚ) (holderId : JsString) (ending : ShardEnding)
      (resume : event = .resume now at_) (final : finishes job st = true)
      (table : s'.leases = (s.leases.complete plan.shardId holderId at_).2)
      (generations : st'.generations = st.generations)
      (before : st.phase.stage = .under holderId) (after : st'.phase.stage = .out ending)
      (good : ending = .agreed ∨ ending = .disagreed)

theorem stage_top (race : Race) (at_ : ℚ) : (race.top at_).stage = .under race.holderId := by
  rcases top_cases race at_ with ⟨-, heq⟩ | ⟨-, heq⟩ <;> rw [heq] <;> rfl

/-- The lease at the head of the dispatch loop, if the race goes on. -/
theorem lease?_top {race : Race} {at_ : ℚ} {lease : Lease ℚ}
    (h : (race.top at_).lease? = some lease) : lease = race.lease := by
  rcases top_cases race at_ with ⟨-, heq⟩ | ⟨-, heq⟩
  · rw [heq] at h
    cases h
  · rw [heq] at h
    cases h
    rfl

theorem lease?_stage {phase : Phase} {lease : Lease ℚ} (h : phase.lease? = some lease) :
    ∃ holderId, phase.stage = .under holderId := by
  cases phase with
  | racing race => exact ⟨_, rfl⟩
  | probing race woke => exact ⟨_, rfl⟩
  | granting | returned | placing | ended | stored | recording | settled | threw => cases h

variable {p : Platform} {job : PreparedJob} {plan : ShardPlan} {s s' : Shared}
  {st st' : ShardState}

theorem finishes_eq {r : Returned} {v : Verification} {outstanding : List Nat}
    (hphase : st.phase = .returned r) (hanswered : r.dispatched = .answered v outstanding) :
    finishes job st = (!(mergeInto st.verification v).isInsufficient &&
      (!(mergeInto st.verification v).isAgreed
        || decide (job.redundancy ≤ (mergeInto st.verification v).replicaCount))) := by
  obtain ⟨dispatched, _, _, _, _⟩ := r
  cases hanswered
  unfold finishes
  rw [hphase]

variable {event : ShardEvent}

theorem shardStep_leasing (h : shardStep p job plan event s st = some (s', st')) :
    Leasing p job plan event s s' st st' := by
  cases event with
  | grant now startedAt at_ =>
    obtain ⟨nodeIds, hphase, ⟨leases, hgrant, rfl, rfl⟩ | ⟨lease, leases, hgrant, rfl, rfl⟩⟩ :=
      grantStep_cases h
    · exact .refused now startedAt at_ _ leases rfl hgrant rfl rfl (by rw [hphase]; rfl) rfl
    · exact .granted now startedAt at_ _ lease leases rfl hgrant rfl rfl (by rw [hphase]; rfl)
        (stage_top _ at_) fun _ => lease?_top
  | answer k answer =>
    obtain ⟨_, _, _, -, -, -, rfl, rfl⟩ := answerStep_cases h
    exact .idle rfl rfl (Or.inl rfl) fun _ hlease => hlease
  | deliver key at_ =>
    obtain ⟨race, _, _, _, hphase, -, -, -, rfl, ⟨-, rfl⟩ | ⟨-, -, rfl⟩⟩ := deliverStep_cases h
    · exact .idle rfl rfl (Or.inl (by rw [hphase]; rfl)) fun _ hlease => nomatch hlease
    · refine .idle rfl rfl (Or.inl ((stage_top _ at_).trans (by rw [hphase]; rfl))) ?_
      intro lease hlease
      rw [lease?_top hlease, hphase]
      rfl
  | tick woke at_ =>
    obtain ⟨race, hphase, ⟨-, rfl, rfl⟩ | ⟨s₁, st₁, race₁, hspeculate, -, rfl, hst⟩⟩ :=
      tickStep_cases h
    · exact .idle rfl rfl (Or.inl (by rw [hphase]; rfl)) fun _ hlease => nomatch hlease
    · -- A look at the ledger touches neither the table nor the lease.
      have hkept : s'.leases = s.leases ∧ st₁.generations = st.generations ∧
          race₁.holderId = race.holderId ∧ race₁.lease = race.lease := by
        rcases speculate_cases p job plan woke race s st with ⟨_, heq⟩ | ⟨_, _, _, -, -, -, -, heq⟩
        all_goals
          rw [heq] at hspeculate
          cases hspeculate
          exact ⟨rfl, rfl, rfl, rfl⟩
      obtain ⟨hleases, hgenerations, hholder, hlease⟩ := hkept
      have hbefore : st.phase.stage = .under race₁.holderId ∧
          st.phase.lease? = some race₁.lease := by
        rw [hphase, hholder, hlease]
        exact ⟨rfl, rfl⟩
      rcases hst with rfl | ⟨-, -, rfl⟩
      · refine .idle hleases hgenerations (Or.inl ((stage_top _ at_).trans hbefore.1.symm)) ?_
        intro lease htop
        rw [lease?_top htop]
        exact hbefore.2
      · refine .idle hleases hgenerations (Or.inl hbefore.1.symm) ?_
        rintro lease ⟨⟩
        exact hbefore.2
  | probed working at_ =>
    obtain ⟨race, woke, hphase, ⟨-, rfl, rfl⟩ | ⟨-, leases, hrenew, rfl, rfl⟩ |
      ⟨-, lease, leases, hrenew, rfl, rfl⟩⟩ := probedStep_cases h
    · refine .idle rfl rfl (Or.inl ((stage_top _ at_).trans (by rw [hphase]; rfl))) ?_
      intro lease hlease
      rw [lease?_top hlease, hphase]
      rfl
    · exact .renewed race.lease woke (by rw [hphase]; rfl) (by rw [hrenew]) rfl
        (by rw [hphase]; rfl) fun _ hlease => nomatch hlease
    · refine .renewed race.lease woke (by rw [hphase]; rfl) (by rw [hrenew]) rfl
        ((stage_top _ at_).trans (by rw [hphase]; rfl)) ?_
      intro inForce hlease
      rw [lease?_top hlease, hrenew]
  | resume now at_ =>
    obtain ⟨r, hphase, ⟨dropped, -, rfl, rfl⟩ | ⟨v, outstanding, merged, hanswered, rfl,
      ⟨rfl, ⟨hagreed, hinsufficient, rfl⟩ | ⟨hagreed, henough, rfl⟩⟩ | ⟨rfl, -, rfl⟩⟩⟩ :=
      resumeStep_cases h
    · exact .reaped r.holderId at_ rfl rfl (by rw [hphase]; rfl) rfl
    · refine .completed now at_ r.holderId .disagreed rfl ?_ rfl rfl (by rw [hphase]; rfl) rfl
        (Or.inr rfl)
      rw [finishes_eq hphase hanswered, hinsufficient, hagreed]
      rfl
    · have hsome : (mergeInto st.verification v).isInsufficient = false := by
        cases hcase : mergeInto st.verification v with
        | insufficient =>
          rw [hcase] at hagreed
          cases hagreed
        | agreed | disagreed => rfl
      refine .completed now at_ r.holderId .agreed rfl ?_ rfl rfl (by rw [hphase]; rfl) rfl
        (Or.inl rfl)
      rw [finishes_eq hphase hanswered, hsome, decide_eq_true henough, Bool.or_true]
      rfl
    · exact .surrendered r.holderId at_ rfl rfl (by rw [hphase]; rfl) rfl
  | place ask =>
    obtain ⟨hphase, rfl, ⟨_, _, _, -, rfl⟩ | ⟨_, -, rfl⟩⟩ := placeStep_cases h
    · exact .idle rfl rfl (Or.inl (by rw [hphase]; rfl)) fun _ hlease => nomatch hlease
    · exact .gaveUp rfl rfl (by rw [hphase]; rfl) rfl
  | store =>
    obtain ⟨ending, _, output, _, _, _, _, _, hphase, -, rfl, rfl⟩ := storeStep_cases h
    refine .idle ?_ rfl (Or.inl (by rw [hphase]; rfl)) fun _ hlease => nomatch hlease
    unfold withOutput
    split <;> rfl
  | record =>
    obtain ⟨ending, _, hphase, -, ⟨-, rfl, rfl⟩ | ⟨-, rfl, rfl⟩⟩ := recordStep_cases h
    all_goals
      exact .idle rfl rfl (Or.inl (by rw [hphase]; rfl)) fun _ hlease => nomatch hlease
  | finish =>
    obtain ⟨rfl, ending, hphase, rfl⟩ := finishStep_cases h
    have hbefore : st.phase.stage = .out ending := by
      rcases hphase with ⟨hphase, -⟩ | ⟨_, hphase, -⟩ <;> rw [hphase] <;> rfl
    rcases settle_cases p job plan ending st with ⟨-, heq⟩ | ⟨attestation, -, heq⟩
    · rw [heq]
      exact .idle rfl rfl (Or.inr rfl) fun _ hlease => nomatch hlease
    · rw [heq]
      exact .idle rfl rfl (Or.inl hbefore.symm) fun _ hlease => nomatch hlease

/-- The steps of the chain leave the table alone. -/
theorem chainStep_leases {event : ChainEvent} (h : chainStep p job event s = some s') :
    s'.leases = s.leases := by
  unfold chainStep at h
  split at h
  · cases h
    rfl
  · split at h
    · cases h
    · cases h
      rfl
  · cases h
    rfl
  · cases h
    rfl
  · cases h

/-! ## Generations are dispatches -/

/-- The table is in order, it allows the default number of generations, and the
    shard counts as many as the table has of its task. -/
structure Counted (taskId : JsString) (s : Shared) (st : ShardState) : Prop where
  audited : s.leases.Audited
  allowed : s.leases.maxGenerations = DEFAULT_MAX_GENERATIONS
  generations : st.generations = s.leases.dispatches taskId
  inForce : ∀ lease, st.phase.lease? = some lease → lease.taskId = taskId

theorem taskId_of_renew {t : LeaseTable ℚ} (h : t.Audited) {taskId nodeId : JsString} {now : ℚ}
    {lease : Lease ℚ} (hrenew : (t.renew taskId nodeId now).1 = some lease) :
    lease.taskId = taskId := by
  unfold renew at hrenew
  split at hrenew
  · cases hrenew
  · next existing hget =>
    split at hrenew
    · cases hrenew
    · cases hrenew
      exact (h.held taskId existing hget).1

/-- A step of a shard counts its generations, and touches no other task. -/
theorem Counted.step (hc : Counted plan.shardId s st)
    (h : shardStep p job plan event s st = some (s', st')) :
    Counted plan.shardId s' st' ∧ OnlyAt plan.shardId s.leases s'.leases := by
  have hout : ∀ {phase : Phase} {stage : Stage}, phase.stage = stage →
      (∀ holderId, stage ≠ .under holderId) →
      ∀ lease, phase.lease? = some lease → lease.taskId = plan.shardId := by
    intro phase stage hstage hnot lease hlease
    obtain ⟨holderId, hunder⟩ := lease?_stage hlease
    exact absurd (hstage.symm.trans hunder) (hnot holderId)
  have hquiet : ∀ {leases : LeaseTable ℚ}, Quiet plan.shardId s.leases leases →
      leases.Audited → s'.leases = leases → st'.generations = st.generations →
      (∀ lease, st'.phase.lease? = some lease → lease.taskId = plan.shardId) →
      Counted plan.shardId s' st' ∧ OnlyAt plan.shardId s.leases s'.leases := by
    rintro leases hquiet haudited rfl hgenerations hinForce
    refine ⟨⟨haudited, hquiet.only.maxGenerations.trans hc.allowed, ?_, hinForce⟩, hquiet.only⟩
    rw [hgenerations, hquiet.dispatches]
    exact hc.generations
  have hsound := hc.audited.sound
  cases shardStep_leasing h with
  | idle hleases hgenerations _ hlease =>
    exact hquiet (.refl plan.shardId hsound) hc.audited hleases hgenerations
      fun lease hin => hc.inForce lease (hlease lease hin)
  | gaveUp hleases hgenerations _ hafter =>
    exact hquiet (.refl plan.shardId hsound) hc.audited hleases hgenerations
      (hout hafter fun _ => Stage.noConfusion)
  | refused now startedAt at_ holderId leases _ hgrant htable hgenerations _ hafter =>
    have haudited := (hc.audited.grant plan.shardId holderId now).audited
    rw [hgrant] at haudited
    obtain ⟨t', heq, hq⟩ | ⟨_, _, heq, -⟩ := grant_spec hsound plan.shardId holderId now
    · rw [hgrant] at heq
      cases heq
      exact hquiet hq haudited htable hgenerations (hout hafter fun _ => Stage.noConfusion)
    · rw [hgrant] at heq
      cases heq
  | granted now startedAt at_ holderId lease leases _ hgrant htable hgenerations _ _ hinForce =>
    have haudited := (hc.audited.grant plan.shardId holderId now).audited
    rw [hgrant] at haudited
    obtain ⟨_, heq, -⟩ | ⟨lease', t', heq, hgranted⟩ :=
      grant_spec hsound plan.shardId holderId now
    · rw [hgrant] at heq
      cases heq
    · rw [hgrant] at heq
      cases heq
      subst htable
      refine ⟨⟨haudited, hgranted.only.maxGenerations.trans hc.allowed, ?_, ?_⟩, hgranted.only⟩
      · rw [hgenerations, hgranted.dispatches, hc.generations]
      · intro inForce hin
        rw [hinForce inForce hin]
        exact hgranted.forTask
  | renewed lease woke hbefore htable hgenerations _ hinForce =>
    have htask := hc.inForce lease hbefore
    rw [htask] at htable
    refine hquiet (renew_quiet hsound plan.shardId lease.nodeId woke)
      (hc.audited.renew plan.shardId lease.nodeId woke).audited htable hgenerations ?_
    intro inForce hin
    rw [taskId_of_renew hc.audited (hinForce inForce hin)]
    exact htask
  | reaped holderId at_ htable hgenerations _ hafter =>
    exact hquiet (reap_quiet hsound p at_ plan.shardId)
      (hc.audited.reapOne p at_ plan.shardId).audited htable hgenerations
      (hout hafter fun _ => Stage.noConfusion)
  | surrendered holderId at_ htable hgenerations _ hafter =>
    exact hquiet (surrender_quiet hsound plan.shardId holderId at_)
      (hc.audited.surrender plan.shardId holderId at_).audited htable hgenerations
      (hout hafter fun _ => Stage.noConfusion)
  | completed now at_ holderId ending _ _ htable hgenerations _ hafter _ =>
    exact hquiet (complete_quiet hsound plan.shardId holderId at_)
      (hc.audited.complete plan.shardId holderId at_).audited htable hgenerations
      (hout hafter fun _ => Stage.noConfusion)

variable {c : Config Nat Shared ShardState}

/-- In every run, whatever its guard. -/
theorem counts_dispatches {spec : JobSpec} {options : SubmitOptions}
    {ask : Bool → Nat → Offer → Admission} {prepared : Prepared}
    (hprepared : PreparedFrom p spec options ask prepared)
    {guard : Config Nat Shared ShardState → Event Nat ShardEvent ChainEvent → Prop}
    (hreach : ReachesWhere p prepared guard c) (i : Nat) :
    Counted (decimal i) c.shared (c.locals i) := by
  obtain ⟨haudited, hallowed, -, hnew⟩ := audited_of_create hprepared.leases
  refine System.Reaches.each hreach (I := fun i s st => Counted (decimal i) s st)
    (G := fun i s s' => s'.leases.Audited ∧ OnlyAt (decimal i) s.leases s'.leases)
    ?_ ?_ ?_ ?_ i
  · intro i
    obtain ⟨-, -, -, hdispatches⟩ := of_whereabouts_free (hnew (decimal i))
    have hfresh : (prepared.start.locals i).generations = 0 ∧
        (prepared.start.locals i).phase.lease? = none := by
      rcases prepared.start_cases i with ⟨plan, -, heq⟩ | heq <;> rw [heq]
      · unfold startShard
        split
        · exact ⟨rfl, rfl⟩
        · split <;> exact ⟨rfl, rfl⟩
      · exact ⟨rfl, rfl⟩
    refine ⟨haudited, hallowed, hfresh.1.trans hdispatches.symm, ?_⟩
    intro lease hlease
    rw [hfresh.2] at hlease
    cases hlease
  · intro c i event s st _ hI hstep
    cases hplan : prepared.job.plans[i]? with
    | none =>
      simp only [running, hplan] at hstep
      cases hstep
    | some plan =>
      simp only [running, hplan] at hstep
      obtain ⟨hindex, -⟩ := hprepared.plan hplan
      have hid : plan.shardId = decimal i := congrArg decimal hindex
      rw [← hid]
      obtain ⟨hcounted, honly⟩ := Counted.step (hid ▸ hI i) hstep
      exact ⟨hcounted, hcounted.audited, honly⟩
  · rintro i j s s' st hne ⟨haudited, honly⟩ hI
    have hother : decimal j ≠ decimal i := fun heq => hne (decimal_injective heq)
    refine ⟨haudited, honly.maxGenerations.trans hI.allowed, ?_, hI.inForce⟩
    rw [honly.dispatches _ hother]
    exact hI.generations
  · intro c event s j _ hstep hI
    have hleases := chainStep_leases hstep
    exact ⟨hleases ▸ hI.audited, hleases ▸ hI.allowed, hleases ▸ hI.generations, hI.inForce⟩

/-! ## The same story -/

/-- Where the table can have the task of a shard whose loop stands there. -/
def Stage.Allows : Stage → Whereabouts → Prop
  | .between, w => w.completions = 0
  | .under holderId, w => ∃ g, w = .held holderId g
  | .out ending, w =>
    match ending with
    | .agreed | .disagreed => ∃ g, w = .completed g
    | .generationsSpent => ∃ g, w = .abandoned g
    | .noUntriedNode => w.completions = 0
    | .neverPlaced | .carriedFromCheckpoint => w = .free 0
  | .threw, _ => True

/-- The table tells of the task what the shard's loop did.  A lease is left only
    where the loop is not over. -/
structure Told (taskId : JsString) (s : Shared) (st : ShardState) : Prop where
  stage : st.phase.stage.Allows (s.leases.whereabouts taskId)
  settled : ∀ shard, st.phase = .settled shard →
    (s.leases.whereabouts taskId).holds = 0 ∧ shard.result.generations = st.generations

/-- The clock readings of an event let the table record what the loop decided:
    a final answer is entered before the lease has run out, a lease that is
    still there has run out by the next grant, and none is there when a shard
    settles without a node to try. -/
def OnTime (job : PreparedJob) (c : Config Nat Shared ShardState) :
    Event Nat ShardEvent ChainEvent → Prop
  | .own i (.grant now _ _) =>
    ∀ lease ∈ c.shared.leases.held.get? (decimal i), lease.expiresAt ≤ now
  | .own i (.resume _ at_) => finishes job (c.locals i) = true →
      ∀ lease ∈ c.shared.leases.held.get? (decimal i), at_ < lease.expiresAt
  | .own i .finish => (c.locals i).phase.stage = .out .noUntriedNode →
      c.shared.leases.held.get? (decimal i) = none
  | _ => True

instance (job : PreparedJob) (c : Config Nat Shared ShardState)
    (e : Event Nat ShardEvent ChainEvent) : Decidable (OnTime job c e) :=
  match e with
  | .own i (.grant now _ _) => inferInstanceAs
      (Decidable (∀ lease ∈ c.shared.leases.held.get? (decimal i), lease.expiresAt ≤ now))
  | .own i (.resume _ at_) => inferInstanceAs (Decidable (finishes job (c.locals i) = true →
      ∀ lease ∈ c.shared.leases.held.get? (decimal i), at_ < lease.expiresAt))
  | .own i .finish => inferInstanceAs
      (Decidable ((c.locals i).phase.stage = .out .noUntriedNode →
        c.shared.leases.held.get? (decimal i) = none))
  | .own _ (.answer _ _) | .own _ (.deliver _ _) | .own _ (.tick _ _) | .own _ (.probed _ _)
  | .own _ (.place _) | .own _ .store | .own _ .record | .alone _ => isTrue trivial

theorem holds_of_none {t : LeaseTable ℚ} {taskId : JsString} (h : t.held.get? taskId = none) :
    (t.whereabouts taskId).holds = 0 := by
  unfold whereabouts
  split
  · rfl
  · split
    · rfl
    · rw [h]
      rfl

/-- A step on time keeps to the story. -/
theorem Told.step {i : Nat} (ht : Told (decimal i) c.shared (c.locals i))
    (hc : Counted (decimal i) c.shared (c.locals i)) (hid : plan.shardId = decimal i)
    (hontime : OnTime job c (.own i event))
    (h : shardStep p job plan event c.shared (c.locals i) = some (s', st')) :
    Told (decimal i) s' st' := by
  have hstage := ht.stage
  have haudited := hc.audited
  refine ⟨?_, ?_⟩
  · cases shardStep_leasing h with
    | idle hleases _ hsame _ =>
      rw [hleases]
      rcases hsame with hsame | hthrew
      · rw [hsame]
        exact hstage
      · rw [hthrew]
        trivial
    | gaveUp hleases _ hbefore hafter =>
      rw [hbefore] at hstage
      rw [hleases, hafter]
      exact hstage
    | refused now startedAt at_ holderId leases hevent hgrant htable _ hbefore hafter =>
      subst hevent
      rw [hbefore] at hstage
      rw [hid] at hgrant
      obtain ⟨_, heq, hgone⟩ | ⟨_, _, heq, -⟩ := haudited.grant_open hstage holderId
        fun lease hget => decide_eq_false (not_lt.mpr (hontime lease hget))
      · rw [hgrant] at heq
        cases heq
        rw [htable, hafter]
        exact hgone
      · rw [hgrant] at heq
        cases heq
    | granted now startedAt at_ holderId lease leases hevent hgrant htable _ hbefore hafter _ =>
      subst hevent
      rw [hbefore] at hstage
      rw [hid] at hgrant
      obtain ⟨_, heq, -⟩ | ⟨_, _, heq, hheld⟩ := haudited.grant_open hstage holderId
        fun lease hget => decide_eq_false (not_lt.mpr (hontime lease hget))
      · rw [hgrant] at heq
        cases heq
      · rw [hgrant] at heq
        cases heq
        rw [htable, hafter]
        exact hheld
    | renewed lease woke hbefore htable _ hsame _ =>
      have htask := hc.inForce lease hbefore
      rw [htask] at htable
      rw [hsame, htable, (haudited.renew (decimal i) lease.nodeId woke).landed]
      exact hstage
    | reaped holderId at_ htable _ hbefore hafter =>
      rw [hbefore] at hstage
      obtain ⟨g, hheld⟩ := hstage
      rw [hafter, htable, hid]
      rcases (haudited.reapOne p at_ (decimal i)).landed with heq | ⟨_, _, _, ⟨heq, -⟩ | heq⟩
      · rw [heq, hheld]
        rfl
      · rw [heq]
        rfl
      · rw [heq]
        rfl
    | surrendered holderId at_ htable _ hbefore hafter =>
      rw [hbefore] at hstage
      obtain ⟨g, hheld⟩ := hstage
      rw [hafter, htable, hid]
      rcases (haudited.surrender (decimal i) holderId at_).landed with
        ⟨hnot, -⟩ | ⟨_, _, ⟨heq, -⟩ | heq⟩
      · exact absurd hheld (hnot g)
      · rw [heq]
        rfl
      · rw [heq]
        rfl
    | completed now at_ holderId ending hevent hfinal htable _ hbefore hafter hgood =>
      subst hevent
      rw [hbefore] at hstage
      obtain ⟨g, hheld⟩ := hstage
      rw [hafter, htable, hid]
      rcases (haudited.complete (decimal i) holderId at_).landed with
        ⟨hnot, -⟩ | ⟨k, -, ⟨-, heq⟩ | ⟨⟨lease, hget, -, hlate⟩, -⟩⟩
      · exact absurd hheld (hnot g)
      · rw [heq]
        rcases hgood with rfl | rfl <;> exact ⟨k, rfl⟩
      · -- The deadline was not reached yet.
        have hearly := hontime hfinal lease hget
        exact absurd (of_decide_eq_true hlate) (not_le.mpr hearly)
  · intro shard hphase
    rcases shardStep_settled h hphase with ⟨hbefore, -, hgenerations, -⟩ |
      ⟨ending, attestation, rfl, rfl, -, hending, rfl, rfl⟩
    · have hsettled := ht.settled shard hbefore
      have hout : (c.locals i).phase.stage = .out shard.result.ending := by
        rw [hbefore]
        rfl
      have hleases : s'.leases = c.shared.leases := by
        cases shardStep_leasing h with
        | idle hleases => exact hleases
        | gaveUp hleases => exact hleases
        | refused _ _ _ _ _ _ _ _ _ hbetween | granted _ _ _ _ _ _ _ _ _ _ hbetween
        | reaped _ _ _ _ hbetween | surrendered _ _ _ _ hbetween
        | completed _ _ _ _ _ _ _ _ hbetween =>
          rw [hout] at hbetween
          cases hbetween
        | renewed lease woke hlease =>
          obtain ⟨_, hunder⟩ := lease?_stage hlease
          rw [hout] at hunder
          cases hunder
      rw [hleases, hgenerations]
      exact hsettled
    · refine ⟨?_, rfl⟩
      have hout : (c.locals i).phase.stage = .out ending := by
        rcases hending with ⟨-, hphase⟩ | ⟨_, hphase⟩ <;> rw [hphase] <;> rfl
      rw [hout] at hstage
      cases ending with
      | agreed | disagreed | generationsSpent =>
        obtain ⟨g, heq⟩ := hstage
        rw [heq]
        rfl
      | noUntriedNode => exact holds_of_none (hontime hout)
      | neverPlaced | carriedFromCheckpoint =>
        rw [hstage]
        rfl

theorem told_start (hnew : ∀ taskId, s.leases.whereabouts taskId = .free 0) (i : Nat) :
    Told (decimal i) s (startShard plan) := by
  unfold startShard
  split
  · refine ⟨hnew _, ?_⟩
    rintro shard ⟨⟩
    rw [hnew]
    exact ⟨rfl, rfl⟩
  · split
    · refine ⟨hnew _, ?_⟩
      rintro shard ⟨⟩
      rw [hnew]
      exact ⟨rfl, rfl⟩
    · refine ⟨?_, fun shard hphase => nomatch hphase⟩
      rw [hnew]
      rfl

/-- In every run on time. -/
theorem told {spec : JobSpec} {options : SubmitOptions} {ask : Bool → Nat → Offer → Admission}
    {prepared : Prepared} (hprepared : PreparedFrom p spec options ask prepared)
    (hreach : ReachesWhere p prepared (OnTime prepared.job) c) (i : Nat) :
    Told (decimal i) c.shared (c.locals i) := by
  obtain ⟨-, -, -, hnew⟩ := audited_of_create hprepared.leases
  have hcounted : ReachesWhere p prepared
      (fun c e => OnTime prepared.job c e ∧ ∀ i, Counted (decimal i) c.shared (c.locals i)) c :=
    System.Reaches.assuming hreach fun c hc i => counts_dispatches hprepared hc i
  refine System.Reaches.each hcounted (I := fun i s st => Told (decimal i) s st)
    (G := fun i s s' => OnlyAt (decimal i) s.leases s'.leases) ?_ ?_ ?_ ?_ i
  · intro i
    rcases prepared.start_cases i with ⟨plan, -, heq⟩ | heq <;> rw [heq]
    · exact told_start hnew i
    · refine ⟨?_, fun shard hphase => nomatch hphase⟩
      show (prepared.leases.whereabouts (decimal i)).completions = 0
      rw [hnew]
      rfl
  · rintro c i event s st ⟨hontime, hcounted⟩ hI hstep
    cases hplan : prepared.job.plans[i]? with
    | none =>
      simp only [running, hplan] at hstep
      cases hstep
    | some plan =>
      simp only [running, hplan] at hstep
      obtain ⟨hindex, -⟩ := hprepared.plan hplan
      have hid : plan.shardId = decimal i := congrArg decimal hindex
      have hstepped := Counted.step (hid ▸ hcounted i) hstep
      exact ⟨(hI i).step (hcounted i) hid hontime hstep, hid ▸ hstepped.2⟩
  · intro i j s s' st hne honly hI
    have hother : decimal j ≠ decimal i := fun heq => hne (decimal_injective heq)
    have hsame := honly.whereabouts hother
    exact ⟨hsame ▸ hI.stage, hsame ▸ hI.settled⟩
  · intro c event s j _ hstep hI
    have hleases := chainStep_leases hstep
    exact ⟨hleases ▸ hI.stage, hleases ▸ hI.settled⟩

/-- Where the loop ended with an answer, its task is completed, and only there. -/
theorem completions_of_allows {ending : ShardEnding} {w : Whereabouts}
    (h : (Stage.out ending).Allows w) :
    (ending = .agreed ∨ ending = .disagreed) ↔ w.completions = 1 := by
  cases ending with
  | agreed | disagreed =>
    obtain ⟨g, rfl⟩ := h
    simp [Whereabouts.completions]
  | generationsSpent =>
    obtain ⟨g, rfl⟩ := h
    simp [Whereabouts.completions]
  | noUntriedNode =>
    have hnone : w.completions = 0 := h
    simp [hnone]
  | neverPlaced | carriedFromCheckpoint =>
    have hfree : w = .free 0 := h
    simp [hfree, Whereabouts.completions]

/-- In every run on time, the history of the leases tells of each shard what its
    result says: whether it ended with an answer, that it ran out of
    generations, and how often a node lost it. -/
theorem lease_history_tells {spec : JobSpec} {options : SubmitOptions} {blocks : Blocks}
    {ask : Bool → Nat → Offer → Admission} {now : ℚ} {prepared : Prepared}
    (hprepare : prepare p spec options blocks ask now = .ok prepared)
    {c : Config Nat Shared ShardState}
    (hreach : ReachesWhere p prepared (OnTime prepared.job) c) {result : JobResult}
    (hconclude : conclude p prepared.job c = some result) {i : Nat} {shard : ShardResult}
    (hshard : result.shards[i]? = some shard) :
    ((shard.ending = .agreed ∨ shard.ending = .disagreed) ↔
      result.leaseHistory.countP (isCompletion (decimal i)) = 1) ∧
    (shard.ending = .generationsSpent →
      0 < result.leaseHistory.countP (isAbandonment (decimal i))) ∧
    result.leaseHistory.countP (isRelease (decimal i))
      + result.leaseHistory.countP (isCompletion (decimal i)) = shard.generations := by
  have hprepared := prepare_ok hprepare
  obtain ⟨-, hresult⟩ := conclude_getElem? hconclude hshard
  obtain ⟨shard', hphase, rfl⟩ := settledResult_eq_some.mp hresult
  obtain ⟨copies, disagreed, hcompared⟩ := compared_eq p prepared.job shard' (c.locals i).flights
  rw [hcompared]
  obtain ⟨_, rfl, -⟩ := conclude_shards hconclude
  show ((shard'.result.ending = .agreed ∨ shard'.result.ending = .disagreed) ↔
      c.shared.leases.history.countP (isCompletion (decimal i)) = 1) ∧
    (shard'.result.ending = .generationsSpent →
      0 < c.shared.leases.history.countP (isAbandonment (decimal i))) ∧
    c.shared.leases.history.countP (isRelease (decimal i))
      + c.shared.leases.history.countP (isCompletion (decimal i)) = shard'.result.generations
  have htold := told hprepared hreach i
  have hcounted := counts_dispatches hprepared hreach i
  obtain ⟨hholds, hgenerations⟩ := htold.settled shard' hphase
  have hstage := htold.stage
  rw [hphase] at hstage
  -- The history adds up from a fresh task to where the table has it now.
  have hadds := addsUp_of_replay (hcounted.audited.replays (decimal i))
  have hcompletions := hadds.completions
  have habandonments := hadds.abandonments
  have hreleases := hadds.releases
  rw [hcounted.audited.grants, ← hcounted.generations, ← hgenerations, hholds] at hreleases
  simp only [Whereabouts.completions, Whereabouts.abandonments, Whereabouts.holds, Nat.zero_add]
    at hcompletions habandonments hreleases
  refine ⟨?_, ?_, hreleases.symm⟩
  · rw [completions_of_allows hstage]
    unfold Whereabouts.completions
    rw [hcompletions]
  · intro hspent
    have hgone : (Stage.out .generationsSpent).Allows (c.shared.leases.whereabouts (decimal i)) :=
      hspent ▸ hstage
    obtain ⟨g, heq⟩ := hgone
    rw [habandonments, heq]
    exact Nat.one_pos

/-- A node answers in time, and the clock jumps past the deadline before the
    answer is entered. -/
def jumpingRun (jump : ℚ) : List (Event Nat ShardEvent ChainEvent) :=
  [.own 0 (.grant 0 0 0), .own 0 (.answer 0 (.verified [answers])), .own 0 (.deliver (js "k") 1),
    .own 0 (.resume 2 jump), .own 0 .store, .own 0 .record, .own 0 .finish]

def jumpingSpec : JobSpec := bareSpec [⟨.null, .pub⟩] [bareNode (js "k") (js "o")] 1

/-- Without a jump the completion is in the history. -/
theorem lease_history_tells_prompt : ∃ prepared c result shard,
    playBareWhere jumpingSpec OnTime (jumpingRun 3) = some (prepared, c) ∧
      conclude plain prepared.job c = some result ∧ result.shards[0]? = some shard ∧
      ((shard.ending = .agreed ∨ shard.ending = .disagreed) ↔
        result.leaseHistory.countP (isCompletion (decimal 0)) = 1) := by
  have hrun : ((playBareWhere jumpingSpec OnTime (jumpingRun 3)).bind fun run =>
      (conclude plain run.1.job run.2).bind fun result => result.shards[0]?).isSome = true := by
    decide +kernel
  obtain ⟨shard, hrun⟩ := Option.isSome_iff_exists.mp hrun
  obtain ⟨⟨prepared, c⟩, hplay, hrun⟩ := Option.bind_eq_some_iff.mp hrun
  obtain ⟨result, hconclude, hshard⟩ := Option.bind_eq_some_iff.mp hrun
  obtain ⟨hprepare, hreach⟩ := playWhere_spec hplay
  exact ⟨prepared, c, result, shard, hplay, hconclude, hshard,
    (lease_history_tells hprepare hreach hconclude hshard).1⟩

/-- With one there is none, and the shard agreed all the same. -/
theorem clock_jump_loses_completion : ∃ prepared c result shard,
    playBare jumpingSpec (jumpingRun 40000) = some (prepared, c) ∧
      conclude plain prepared.job c = some result ∧ result.shards[0]? = some shard ∧
      shard.ending = .agreed ∧
      result.leaseHistory.countP (isCompletion (decimal 0)) = 0 := by
  have hrun : ((playBare jumpingSpec (jumpingRun 40000)).bind fun run =>
      (conclude plain run.1.job run.2).bind fun result => result.shards[0]?.map fun shard =>
        decide (shard.ending = .agreed ∧
          result.leaseHistory.countP (isCompletion (decimal 0)) = 0)) = some true := by
    decide +kernel
  obtain ⟨⟨prepared, c⟩, hplay, hrun⟩ := Option.bind_eq_some_iff.mp hrun
  obtain ⟨result, hconclude, hrun⟩ := Option.bind_eq_some_iff.mp hrun
  obtain ⟨shard, hshard, hrun⟩ := Option.map_eq_some_iff.mp hrun
  obtain ⟨hending, hcount⟩ := of_decide_eq_true hrun
  exact ⟨prepared, c, result, shard, hplay, hconclude, hshard, hending, hcount⟩

end O2Fabric.Submit
