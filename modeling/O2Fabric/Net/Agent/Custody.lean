/-
  O2Fabric.Net.Agent.Custody

  The sovereign holds of a serving node over whole runs.  A dispatch takes its hold
  before the executor runs, the reply carries it through the endpoint, and the
  endpoint gives it back on every way out: the transport's promise has settled,
  the endpoint had closed, or no frame could be encoded.

  The hold is lost where the handler throws between the two, and the one thing that
  throws there is the text of what was caught.
-/

import O2Fabric.Lib.Loans
import O2Fabric.Net.Agent.Step

namespace O2Fabric.Net

open Job Threads

variable {p : Platform} {options : AgentOptions} {agent agent' : Agent}

/-! ## What is in custody -/

/-- The holds handed out, who took and who released which, the frames handed over,
    and whether the endpoint has closed. -/
def Agent.custody (agent : Agent) :
    Option (List (Hold JsString Bytes)) × List (Nat × Nat) × List (Nat × Nat) × List Nat × Bool :=
  (agent.tap.map Tap.holds, agent.takes, agent.releases, agent.frames, agent.closed)

variable {to_ : JsString} {body : ReplyBody}

theorem custody_of_scan {reason : Option JsString}
    (h : refusedReason options agent to_ body = (reason, agent')) :
    agent'.custody = agent.custody := by
  unfold refusedReason at h
  split at h
  · cases h
    rfl
  · next tap htap =>
    split at h
    · cases h
      rfl
    · split at h
      · cases h
        rfl
      · cases h
        -- a scan records, and hands out nothing
        unfold Agent.custody
        rw [htap]
        rfl

@[simp] theorem Agent.custody_gives (to_ : JsString) (computation : Option Nat) :
    (agent.gives to_ computation).custody = agent.custody := by
  cases computation <;> rfl

theorem Agent.custody_takeSlot {key : JsString} {reason : Option JsString}
    (h : agent.takeSlot p options key = (reason, agent')) : agent'.custody = agent.custody := by
  unfold Agent.takeSlot at h
  split at h
  · cases h
    rfl
  · split at h
    · cases h
      rfl
    · cases h
      rfl

/-- The handler is still running, or its reply still waits for the endpoint. -/
def Phase.early : Phase → Bool
  | .sending _ | .done _ => false
  | _ => true

/-- A commitment holds nothing, and nothing is held without a tap. -/
def Work.fits (options : AgentOptions) (work : Work) (hold : Option Nat) : Prop :=
  (work.handle ≠ none → hold = none) ∧ (hold ≠ none → options.taps = true)

/-- What a phase says of the dispatch it is about. -/
def Phase.tidy (options : AgentOptions) : Phase → Prop
  | .holding work => work.handle ≠ none → work.task.label ≠ .sovereign
  | .executing work hold _ => work.fits options hold
  | _ => True

structure Carries (options : AgentOptions) (hold : Option Nat) (agent : Agent)
    (next : Agent × Phase) : Prop where
  custody : next.1.custody = agent.custody
  hold : next.2.hold = hold
  early : next.2.early = true
  tidy : next.2.tidy options

theorem Carries.servingFailed (from_ : JsString) (cause : Cause) :
    Carries options none agent (agent, servingFailed options from_ cause) := by
  cases cause <;> exact ⟨rfl, rfl, rfl, trivial⟩

theorem Carries.replies {from_ : JsString} {response : AgentResponse}
    (h : agent'.custody = agent.custody) :
    Carries options none agent (agent', replies from_ response) :=
  ⟨h, rfl, rfl, trivial⟩

/-! ## Dispatches -/

/-- What is thrown can be put into words. -/
def Cause.worded : Cause → Bool
  | .described _ => true
  | .undescribable _ => false

/-- Whatever the calls before the executor throw can. -/
def Calls.worded (calls : Calls) : Bool :=
  match calls.verdict with
  | .admits => calls.listener.all Cause.worded
  | .refuses _ => true
  | .threw cause => cause.worded

theorem execReply_carries {work : Work} {hold : Option Nat} (computation : Option Nat)
    (outcome : ExecutionOutcome CanonicalValue) (hfits : work.fits options hold) :
    Carries options hold agent (execReply options agent work hold computation outcome) := by
  unfold execReply
  split
  · split
    · next hscan =>
      have hcustody := custody_of_scan hscan
      exact ⟨(Agent.custody_gives ..).trans hcustody, rfl, rfl, trivial⟩
    · next hscan =>
      have hcustody := custody_of_scan hscan
      exact ⟨hcustody, rfl, rfl, trivial⟩
  · next htaps =>
    have hnone : hold = none := by
      by_contra hsome
      exact htaps (hfits.2 hsome)
    rw [hnone]
    exact .replies (Agent.custody_gives ..)

theorem workFails_carries {work : Work} {hold : Option Nat} (computation : Option Nat)
    (reason : JsString) (hfits : work.fits options hold) :
    Carries options hold agent (workFails options agent work hold computation reason) := by
  unfold workFails
  split
  · next handle hhandle =>
    rw [hfits.1 (by rw [hhandle]; exact Option.some_ne_none handle)]
    exact .replies (Agent.custody_gives ..)
  · exact execReply_carries computation _ hfits

variable {hold : Option Nat}

theorem workThrows_carries {work : Work} (computation : Option Nat) {cause : Cause}
    (hfits : work.fits options hold) (hworded : hold ≠ none → cause.worded = true) :
    Carries options hold agent (workThrows options agent work hold computation cause) := by
  cases cause with
  | described text =>
    exact { @workFails_carries options (agent.releaseSlot (slotKey work.task)) work hold computation
      (js "execution failed on " ++ options.nodeId ++ js ": " ++ text) hfits with }
  | undescribable text =>
    have hnone : hold = none := by
      by_contra hsome
      cases hworded hsome
    rw [hnone]
    exact ⟨rfl, rfl, rfl, trivial⟩

theorem runWork_carries {work : Work} {hold : Option Nat} {calls : Calls}
    (hfits : work.fits options hold) (hworded : hold ≠ none → calls.worded = true) :
    Carries options hold agent (runWork options agent work hold calls) := by
  unfold Calls.worded at hworded
  unfold runWork
  split
  · next cause hverdict =>
    rw [hverdict] at hworded
    exact workThrows_carries none hfits hworded
  · exact { @workFails_carries options (agent.releaseSlot (slotKey work.task)) work hold none _ hfits with }
  · next hverdict =>
    rw [hverdict] at hworded
    split
    · next cause hlistener =>
      rw [hlistener] at hworded
      exact workThrows_carries none hfits hworded
    · exact ⟨rfl, rfl, rfl, hfits⟩

theorem workRan_carries {work : Work} {hold : Option Nat} (computation : Nat) {ran : Ran}
    (hfits : work.fits options hold)
    (hworded : ∀ cause, ran = .threw cause → hold ≠ none → cause.worded = true) :
    Carries options hold agent (workRan options agent work hold computation ran) := by
  cases ran with
  | ok output cost attestation =>
    unfold workRan
    dsimp only
    split
    · next handle hhandle =>
      rw [hfits.1 (by rw [hhandle]; exact Option.some_ne_none handle)]
      exact ⟨rfl, rfl, rfl, trivial⟩
    · exact { @execReply_carries options (agent.releaseSlot (slotKey work.task)) work hold
        (some computation) (.ok output cost attestation) hfits with }
  | failed reason =>
    exact { @workFails_carries options (agent.releaseSlot (slotKey work.task)) work hold
      (some computation) reason hfits with }
  | threw cause => exact workThrows_carries (some computation) hfits (hworded cause rfl)

theorem dispatch_carries (work : Work) (now : ℚ) (calls : Calls) :
    Carries options none agent (dispatch p options agent work now calls) := by
  unfold dispatch
  split
  · exact .replies rfl
  · next hcommit =>
    split
    · exact .replies rfl
    · split
      · exact .replies rfl
      · dsimp only
        split
        · next htake =>
          have hcustody := Agent.custody_takeSlot htake
          exact .replies hcustody
        · next taken htake =>
          have hcustody := Agent.custody_takeSlot htake
          split
          · refine ⟨hcustody, rfl, rfl, ?_⟩
            -- a sovereign commitment was refused above
            intro hhandle hlabel
            exact hcommit ⟨Option.isSome_iff_ne_none.mpr hhandle, hlabel⟩
          · have hrun := @runWork_carries options taken work none calls
              ⟨fun _ => rfl, fun hsome => absurd rfl hsome⟩ (fun hsome => absurd rfl hsome)
            exact { hrun with custody := hrun.custody.trans hcustody }

/-! ## The other branches -/

theorem combineFails_carries (work : CombineWork) (reason : JsString) :
    Carries options none agent (combineFails agent work reason) := .replies rfl

theorem combineThrows_carries (work : CombineWork) (cause : Cause) :
    Carries options none agent (combineThrows options agent work cause) :=
  { Carries.servingFailed work.from_ cause with custody := rfl }

theorem combineReads_carries (work : CombineWork) (inputs : List CanonicalValue) :
    Carries options none agent (combineReads options agent work inputs) := by
  unfold combineReads
  split <;> exact ⟨rfl, rfl, rfl, trivial⟩

theorem combineInput_carries (work : CombineWork) (inputs : List CanonicalValue) (cid : Cid)
    (found : Found) :
    Carries options none agent (combineInput options agent work inputs cid found) := by
  cases found with
  | rejected cause => exact combineThrows_carries ..
  | missing => exact combineFails_carries ..
  | found bytes =>
    unfold combineInput
    dsimp only
    split
    · exact combineFails_carries ..
    · split
      · exact combineFails_carries ..
      · exact combineReads_carries ..

theorem combineHashed_carries (work : CombineWork) (merged : CanonicalValue)
    (computation : Nat) :
    Carries options none agent (combineHashed p agent work merged computation) := by
  unfold combineHashed
  split
  · exact combineFails_carries ..
  · exact ⟨rfl, rfl, rfl, trivial⟩

theorem runCombine_carries (work : CombineWork) (verdict : Verdict) :
    Carries options none agent (runCombine p options agent work verdict) := by
  unfold runCombine
  split
  · next htake => exact .replies (Agent.custody_takeSlot htake)
  · next taken htake =>
    have hcustody := Agent.custody_takeSlot htake
    have hadmitted : Carries options none taken (combineAdmitted options taken work verdict) := by
      cases verdict with
      | admits => exact combineReads_carries ..
      | refuses reason => exact combineFails_carries ..
      | threw cause => exact combineThrows_carries ..
    exact { hadmitted with custody := hadmitted.custody.trans hcustody }

theorem blockAnswer_carries (from_ : JsString) (cid : Cid) (bytes : Option Bytes) :
    Carries options none agent (blockAnswer options agent from_ cid bytes) := by
  unfold blockAnswer
  split
  · exact .replies rfl
  · split
    · next hscan =>
      have hcustody := custody_of_scan hscan
      exact .replies hcustody
    · next hscan =>
      have hcustody := custody_of_scan hscan
      exact .replies hcustody

theorem revealAnswer_carries (from_ handle : JsString) (now : ℚ) :
    Carries options none agent (revealAnswer options agent from_ handle now) := by
  unfold revealAnswer
  split
  · split
    · next hscan =>
      have hcustody := custody_of_scan hscan
      exact .replies hcustody
    · next hscan =>
      have hcustody := custody_of_scan hscan
      exact .replies hcustody
  · dsimp only
    split
    · next hscan =>
      have hcustody := custody_of_scan hscan
      exact .replies ((Agent.custody_gives ..).trans hcustody)
    · next hscan =>
      have hcustody := custody_of_scan hscan
      exact .replies hcustody

theorem workSealed_carries (work : Work) (handle : JsString) (output : CanonicalValue)
    (cost : Cost) (attestation : AttestedResult) (computation : Nat) (nonce : Bytes) (now : ℚ) :
    Carries options none agent (workSealed p options agent work handle output cost attestation
      computation nonce now) := by
  unfold workSealed
  split
  · exact .replies rfl
  · exact .replies rfl

theorem answer_carries (from_ : JsString) (request : Option AgentRequest) (pause : Pause)
    (now : ℚ) (handle : JsString) (calls : Calls) :
    Carries options none agent (answer p options agent from_ request pause now handle calls) := by
  cases request with
  | none => exact .replies rfl
  | some request =>
    have hserve : Carries options none agent
        (serve p options agent from_ now handle calls request) := by
      cases request with
      | exec task => exact dispatch_carries ..
      | commit task => exact dispatch_carries ..
      | reveal handle => exact revealAnswer_carries ..
      | block cid => exact ⟨rfl, rfl, rfl, trivial⟩
      | offer shardId => exact .replies rfl
      | combine combineId inputCids level => exact runCombine_carries ..
      | other request => exact ⟨rfl, rfl, rfl, trivial⟩
    unfold answer
    dsimp only
    split
    · cases pause with
      | running => exact hserve
      | stopped => exact .replies rfl
      | broken described => exact .replies rfl
      | threw cause => exact .servingFailed ..
    · exact hserve

/-! ## One action of one request -/

/-- A hold is carried past everything that is thrown on the way, and the reply it
    goes with can be encoded, or the refusal in its place. -/
def HoldsCarried (options : AgentOptions) (c : Config Nat Agent Phase) :
    Event Nat Action Outside → Prop
  | .own i (.held (.found _) calls) => ∀ work, c.locals i = .holding work →
      work.task.label = .sovereign → calls.worded = true
  | .own i (.executed (.threw cause)) => ∀ work hold computation,
      c.locals i = .executing work (some hold) computation → cause.worded = true
  | .own i (.reply id) => ∀ to_ body hold, c.locals i = .answered to_ body (some hold) →
      c.shared.closed = false → encodeReply options id body ≠ none
  | _ => True

/-- Everything one action of a request does to what is in custody. -/
inductive Handover (options : AgentOptions) (i : Nat) (agent : Agent) (phase : Phase) :
    Agent → Phase → Prop
  | carried {agent' : Agent} {phase' : Phase} (early : phase.early = true)
      (carries : Carries options phase.hold agent (agent', phase')) :
      Handover options i agent phase agent' phase'
  | taken {agent' : Agent} {phase' : Phase} (work : Work) (tap : Tap) (cid : Cid)
      (payload : Bytes) (waits : phase = .holding work) (tapped : agent.tap = some tap)
      (carries : Carries options (some tap.holds.length) (agent.takeHold i cid payload).1
        (agent', phase')) :
      Handover options i agent phase agent' phase'
  | handed (to_ : JsString) (body : ReplyBody) (hold : Option Nat) (frame : Bytes)
      (waits : phase = .answered to_ body hold) :
      Handover options i agent phase
        { agent with
          tap := agent.tap.map fun tap => tap.after (.send to_ frame)
          frames := agent.frames ++ [i] } (.sending hold)
  | ended (fate : Fate) (running : ∀ fate, phase ≠ .done fate)
      (settled : fate = .settled → phase = .sending phase.hold)
      (abandoned : fate = .abandoned → agent.closed = true)
      (unencodable : fate = .unencodable → phase.hold = none ∧ phase.early = true) :
      Handover options i agent phase (agent.giveBack i phase.hold) (.done fate)

variable {i : Nat} {phase' : Phase}

theorem workHeld_handover {work : Work} {found : Found} {calls : Calls} {agent' : Agent}
    (htapped : agent.tap.isSome = options.taps) (htidy : (Phase.holding work).tidy options)
    (hworded : ∀ bytes, found = .found bytes → work.task.label = .sovereign →
      calls.worded = true) (h : workHeld options agent i work found calls = (agent', phase')) :
    Handover options i agent (.holding work) agent' phase' := by
  have hbare : Handover options i agent (.holding work)
      (runWork options agent work none calls).1 (runWork options agent work none calls).2 :=
    .carried rfl (runWork_carries ⟨fun _ => rfl, fun hsome => absurd rfl hsome⟩
      fun hsome => absurd rfl hsome)
  unfold workHeld at h
  split at h
  · rw [h] at hbare
    exact hbare
  · rw [h] at hbare
    exact hbare
  · next bytes hlabel =>
    have hcommit : work.handle = none := by
      by_contra hhandle
      exact htidy hhandle hlabel
    cases htap : agent.tap with
    | none =>
      -- without a tap nothing is taken
      unfold Agent.takeHold at h
      rw [htap] at h
      dsimp only at h
      rw [h] at hbare
      exact hbare
    | some tap =>
      have htaps : options.taps = true := by
        rw [← htapped, htap]
        rfl
      have hhold : (agent.takeHold i work.task.inputCid bytes).2 = some tap.holds.length := by
        unfold Agent.takeHold
        rw [htap]
      dsimp only at h
      rw [hhold] at h
      have hrun := @runWork_carries options
        (agent.takeHold i work.task.inputCid bytes).1 work (some tap.holds.length) calls
        ⟨fun hhandle => absurd hcommit hhandle, fun _ => htaps⟩
        (fun _ => hworded bytes rfl hlabel)
      rw [h] at hrun
      exact .taken work tap work.task.inputCid bytes rfl htap hrun
  · next cause hlabel =>
    obtain ⟨rfl, rfl⟩ := Prod.mk.inj h
    exact .carried rfl (.servingFailed ..)

theorem sendReply_handover {id : Nat} {agent' : Agent}
    (hencodes : hold ≠ none → agent.closed = false → encodeReply options id body ≠ none)
    (h : sendReply options agent i id to_ body hold = (agent', phase')) :
    Handover options i agent (.answered to_ body hold) agent' phase' := by
  unfold sendReply at h
  split at h
  · next hclosed =>
    cases h
    refine .ended .abandoned ?_ ?_ ?_ ?_
    · rintro fate ⟨⟩
    · rintro ⟨⟩
    · exact fun _ => hclosed
    · rintro ⟨⟩
  · next hclosed =>
    split at h
    · next hframe =>
      have hnone : hold = none := by
        by_contra hsome
        exact hencodes hsome (Bool.eq_false_iff.mpr hclosed) hframe
      cases h
      refine .ended .unencodable ?_ ?_ ?_ ?_
      · rintro fate ⟨⟩
      · rintro ⟨⟩
      · rintro ⟨⟩
      · exact fun _ => ⟨hnone, rfl⟩
    · next frame hframe =>
      cases h
      exact .handed to_ body hold frame rfl

variable {c : Config Nat Agent Phase} {phase : Phase}

theorem stepRequest_handover {action : Action} {agent : Agent}
    (hguard : HoldsCarried options c (.own i action)) (htapped : c.shared.tap.isSome = options.taps)
    (htidy : (c.locals i).tidy options)
    (h : stepRequest p options i action c.shared (c.locals i) = some (agent, phase)) :
    Handover options i c.shared (c.locals i) agent phase := by
  revert hguard htidy h
  cases hphase : c.locals i with
  | absent =>
    cases action with
    | arrive from_ request pause now handle calls =>
      intro _ _ h
      have hcarries := @answer_carries p options c.shared
        from_ request pause now handle calls
      rw [Option.some.inj h] at hcarries
      exact .carried rfl hcarries
    | _ => rintro _ _ ⟨⟩
  | reading from_ cid =>
    cases action with
    | read found =>
      intro _ _ h
      cases found with
      | found bytes =>
        have hcarries := @blockAnswer_carries options c.shared
          from_ cid (some bytes)
        rw [Option.some.inj h] at hcarries
        exact .carried rfl hcarries
      | missing =>
        have hcarries := @blockAnswer_carries options c.shared
          from_ cid none
        rw [Option.some.inj h] at hcarries
        exact .carried rfl hcarries
      | rejected cause =>
        cases h
        exact .carried rfl (.servingFailed ..)
    | _ => rintro _ _ ⟨⟩
  | looking from_ request =>
    cases action with
    | looked answer =>
      intro _ _ h
      cases answer with
      | ok value =>
        cases h
        exact .carried rfl (.replies rfl)
      | error cause =>
        cases h
        exact .carried rfl (.servingFailed ..)
    | _ => rintro _ _ ⟨⟩
  | holding work =>
    cases action with
    | held found calls =>
      intro hguard htidy h
      apply workHeld_handover htapped htidy _ (Option.some.inj h)
      rintro bytes rfl hlabel
      exact hguard work hphase hlabel
    | _ => rintro _ _ ⟨⟩
  | executing work hold computation =>
    cases action with
    | executed ran =>
      intro hguard hfits h
      have hcarries := @workRan_carries options c.shared work hold computation ran hfits (by
          rintro cause rfl hsome
          obtain ⟨k, rfl⟩ := Option.ne_none_iff_exists'.mp hsome
          exact hguard work k computation hphase)
      rw [Option.some.inj h] at hcarries
      exact .carried rfl hcarries
    | _ => rintro _ _ ⟨⟩
  | sealing work handle output cost attestation computation =>
    cases action with
    | digested failure nonce now =>
      intro _ _ h
      cases failure with
      | some cause =>
        cases h
        exact .carried rfl (.servingFailed ..)
      | none =>
        have hcarries := @workSealed_carries p options c.shared work handle output cost attestation computation nonce now
        rw [Option.some.inj h] at hcarries
        exact .carried rfl hcarries
    | _ => rintro _ _ ⟨⟩
  | combining work inputs =>
    cases action with
    | got found =>
      intro _ _ h
      simp only [stepRequest] at h
      split at h
      · cases h
      · next cid _ =>
        have hcarries := @combineInput_carries options c.shared work inputs cid found
        rw [Option.some.inj h] at hcarries
        exact .carried rfl hcarries
    | _ => rintro _ _ ⟨⟩
  | merging work merged computation =>
    cases action with
    | hashed failure =>
      intro _ _ h
      cases failure with
      | some cause =>
        have hcarries := @combineThrows_carries options c.shared work cause
        rw [Option.some.inj h] at hcarries
        exact .carried rfl hcarries
      | none =>
        have hcarries := @combineHashed_carries p options c.shared work merged computation
        rw [Option.some.inj h] at hcarries
        exact .carried rfl hcarries
    | _ => rintro _ _ ⟨⟩
  | storing work resultCid computation =>
    cases action with
    | stored failure =>
      intro _ _ h
      cases failure with
      | some cause =>
        have hcarries := @combineThrows_carries options c.shared work cause
        rw [Option.some.inj h] at hcarries
        exact .carried rfl hcarries
      | none =>
        cases h
        exact .carried rfl (.replies rfl)
    | _ => rintro _ _ ⟨⟩
  | answered to_ body hold =>
    cases action with
    | reply id =>
      intro hguard _ h
      apply sendReply_handover _ (Option.some.inj h)
      intro hsome hclosed
      obtain ⟨k, rfl⟩ := Option.ne_none_iff_exists'.mp hsome
      exact hguard to_ body k hphase hclosed
    | _ => rintro _ _ ⟨⟩
  | sending hold =>
    cases action with
    | sent =>
      intro _ _ h
      cases h
      refine .ended .settled ?_ ?_ ?_ ?_
      · rintro fate ⟨⟩
      · exact fun _ => rfl
      · rintro ⟨⟩
      · rintro ⟨⟩
    | _ => rintro _ _ ⟨⟩
  | done fate => cases action <;> rintro _ _ ⟨⟩

/-! ## The books -/

def Agent.holds (agent : Agent) : List (Hold JsString Bytes) :=
  (agent.tap.map Tap.holds).getD []

def Agent.books (agent : Agent) : Loans.Books Nat :=
  ⟨agent.holds.length, agent.takes, agent.releases⟩

/-- Where a request stands with its hold. -/
def Phase.standing : Phase → Loans.Standing
  | .executing _ (some hold) _ | .answered _ _ (some hold) | .sending (some hold) => .holding hold
  | .done _ => .finished
  | _ => .empty

theorem Phase.standing_of_hold (hrunning : ∀ fate, phase ≠ .done fate) :
    phase.standing = match phase.hold with
      | some hold => .holding hold
      | none => .empty := by
  cases phase with
  | executing work hold computation => cases hold <;> rfl
  | answered to_ body hold => cases hold <;> rfl
  | sending hold => cases hold <;> rfl
  | done fate => exact absurd rfl (hrunning fate)
  | _ => rfl

theorem Phase.done_of_finished (h : phase.standing = .finished) :
    ∃ fate, phase = .done fate := by
  by_contra hrunning
  rw [not_exists] at hrunning
  rw [standing_of_hold hrunning] at h
  split at h
  · cases h
  · cases h

/-- The release record says of a hold what the tap does. -/
def Agent.agrees (agent : Agent) : Prop :=
  ∀ i k, (i, k) ∈ agent.takes → ∃ hold, agent.holds[k]? = some hold ∧
    (hold.given = true ↔ (i, k) ∈ agent.releases)

/-- How a request that the endpoint is done with got there. -/
def Agent.settled (agent : Agent) (i : Nat) : Phase → Prop
  | .sending _ | .done .settled => i ∈ agent.frames
  | .done .abandoned => agent.closed = true
  | .done .unencodable => ∀ k, (i, k) ∉ agent.takes
  | _ => True

theorem Agent.settled_of_early (h : phase.early = true) :
    agent.settled i phase := by
  cases phase with
  | sending hold => cases h
  | done fate => cases h
  | _ => trivial

/-- What carries the custody of the holds from action to action. -/
structure InCustody (options : AgentOptions) (c : Config Nat Agent Phase) : Prop where
  books : Loans.Kept c.shared.books fun i => (c.locals i).standing
  agrees : c.shared.agrees
  tapped : c.shared.tap.isSome = options.taps
  tidy : ∀ i, (c.locals i).tidy options
  settled : ∀ i, c.shared.settled i (c.locals i)

theorem inCustody_start : InCustody options options.start := by
  refine ⟨Loans.Kept.start _, ?_, ?_, fun _ => trivial, fun _ => trivial⟩
  · intro i k hin
    exact absurd hin List.not_mem_nil
  · show (if options.taps then some (Tap.start options.nodeId []) else none).isSome = options.taps
    cases options.taps <;> rfl

/-! ## What the tap does to the holds -/

theorem Tap.holds_release {w : Tap} {k : Nat} {hold : Hold JsString Bytes}
    (hat : w.holds[k]? = some hold) (hopen : hold.given = false) :
    (w.after (.release k)).holds = Holds.settle w.holds k hold := by
  simp only [Tap.after, hat, hopen, Bool.false_eq_true, if_false]

/-- A call on the tap leaves the holds it does not release. -/
theorem Tap.holds_after (w : Tap) (call : TapCall) :
    w.holds.length ≤ (w.after call).holds.length ∧
      ∀ k < w.holds.length, call ≠ .release k → (w.after call).holds[k]? = w.holds[k]? := by
  cases call with
  | guard label payload =>
    show w.holds.length ≤ (w.holds ++ [_]).length ∧
      ∀ k < w.holds.length, _ → (w.holds ++ [_])[k]? = _
    refine ⟨by simp, ?_⟩
    intro k hk _
    rw [List.getElem?_append_left hk]
  | release j =>
    cases hat : w.holds[j]? with
    | none => simp only [Tap.after, hat, Nat.le_refl, implies_true, and_self]
    | some hold =>
      cases hopen : hold.given with
      | true => simp only [Tap.after, hat, hopen, if_true, Nat.le_refl, implies_true, and_self]
      | false =>
        rw [Tap.holds_release hat hopen, Holds.settle, List.length_set]
        refine ⟨Nat.le_refl _, ?_⟩
        intro k _ hne
        rw [List.getElem?_set_ne]
        rintro rfl
        exact hne rfl
  | send to_ message => exact ⟨Nat.le_refl _, fun _ _ _ => rfl⟩
  | refuse to_ frame => exact ⟨Nat.le_refl _, fun _ _ _ => rfl⟩
  | reset => exact ⟨Nat.le_refl _, fun _ _ _ => rfl⟩

/-! ## The books are kept -/

structure SameCustody (agent agent' : Agent) : Prop where
  tapped : agent'.tap.isSome = agent.tap.isSome
  holds : agent'.holds = agent.holds
  takes : agent'.takes = agent.takes
  releases : agent'.releases = agent.releases
  frames : agent'.frames = agent.frames
  closed : agent'.closed = agent.closed

theorem sameCustody (h : agent'.custody = agent.custody) : SameCustody agent agent' := by
  simp only [Agent.custody, Prod.mk.injEq] at h
  obtain ⟨hholds, htakes, hreleases, hframes, hclosed⟩ := h
  refine ⟨?_, ?_, htakes, hreleases, hframes, hclosed⟩
  · have hsome := congrArg Option.isSome hholds
    rw [Option.isSome_map, Option.isSome_map] at hsome
    exact hsome
  · show (agent'.tap.map Tap.holds).getD [] = (agent.tap.map Tap.holds).getD []
    rw [hholds]

theorem SameCustody.books (h : SameCustody agent agent') : agent'.books = agent.books := by
  unfold Agent.books
  rw [h.holds, h.takes, h.releases]

theorem SameCustody.agrees (h : SameCustody agent agent') (hagrees : agent.agrees) :
    agent'.agrees := by
  unfold Agent.agrees
  rw [h.holds, h.takes, h.releases]
  exact hagrees

/-- What may become of the record while another request keeps its say on it. -/
structure Onward (agent agent' : Agent) (j : Nat) : Prop where
  frames : ∀ i ∈ agent.frames, i ∈ agent'.frames
  closed : agent.closed = true → agent'.closed = true
  takes : ∀ k, (j, k) ∈ agent'.takes → (j, k) ∈ agent.takes

theorem SameCustody.onward (h : SameCustody agent agent') (j : Nat) : Onward agent agent' j := by
  refine ⟨?_, ?_, ?_⟩
  · rw [h.frames]
    exact fun _ hin => hin
  · rw [h.closed]
    exact fun hclosed => hclosed
  · rw [h.takes]
    exact fun _ hin => hin

theorem Onward.settled {j : Nat} (h : Onward agent agent' j) (hsettled : agent.settled j phase) :
    agent'.settled j phase := by
  cases phase with
  | sending hold => exact h.frames j hsettled
  | done fate =>
    cases fate with
    | settled => exact h.frames j hsettled
    | abandoned => exact h.closed hsettled
    | unencodable => exact fun k hin => hsettled k (h.takes k hin)
  | _ => trivial

/-- What one action has to show. -/
theorem InCustody.update (h : InCustody options c)
    (hmove : Loans.Move i c.shared.books (c.locals i).standing agent.books phase.standing)
    (hagrees : agent.agrees) (htapped : agent.tap.isSome = c.shared.tap.isSome)
    (htidy : phase.tidy options) (hsettled : agent.settled i phase)
    (honward : ∀ j, j ≠ i → Onward c.shared agent j) :
    InCustody options ⟨agent, Function.update c.locals i phase⟩ := by
  refine ⟨?_, hagrees, htapped.trans h.tapped, ?_, ?_⟩
  · have hstanding : (fun j => (Function.update c.locals i phase j).standing)
        = Function.update (fun j => (c.locals j).standing) i phase.standing := by
      funext j
      exact Function.apply_update (fun _ => Phase.standing) c.locals i phase j
    show Loans.Kept agent.books fun j => (Function.update c.locals i phase j).standing
    rw [hstanding]
    exact h.books.move hmove
  · intro j
    show (Function.update c.locals i phase j).tidy options
    by_cases hji : j = i
    · rw [hji, Function.update_self]
      exact htidy
    · rw [Function.update_of_ne hji]
      exact h.tidy j
  · intro j
    show agent.settled j (Function.update c.locals i phase j)
    by_cases hji : j = i
    · rw [hji, Function.update_self]
      exact hsettled
    · rw [Function.update_of_ne hji]
      exact (honward j hji).settled (h.settled j)

theorem Phase.standing_of_early (hearly : phase.early = true) (hearly' : phase'.early = true)
    (hhold : phase'.hold = phase.hold) :
    phase'.standing = phase.standing := by
  have hrunning : ∀ {phase : Phase}, phase.early = true → ∀ fate, phase ≠ .done fate := by
    rintro phase hearly fate rfl
    cases hearly
  rw [standing_of_hold (hrunning hearly), standing_of_hold (hrunning hearly'), hhold]

theorem InCustody.carried (h : InCustody options c) (hearly : (c.locals i).early = true)
    (hcarries : Carries options (c.locals i).hold c.shared (agent, phase)) :
    InCustody options ⟨agent, Function.update c.locals i phase⟩ := by
  have hsame := sameCustody hcarries.custody
  apply h.update
  · rw [hsame.books, Phase.standing_of_early hearly hcarries.early hcarries.hold]
    exact .keep _
  · exact hsame.agrees h.agrees
  · exact hsame.tapped
  · exact hcarries.tidy
  · exact Agent.settled_of_early hcarries.early
  · exact fun j _ => hsame.onward j

theorem InCustody.taken {c : Config Nat Agent Phase} {i : Nat} {phase : Phase} {work : Work}
    {tap : Tap} {cid : Cid} {payload : Bytes} (h : InCustody options c)
    (hwaits : c.locals i = .holding work) (htap : c.shared.tap = some tap)
    (hcarries : Carries options (some tap.holds.length) (c.shared.takeHold i cid payload).1
      (agent, phase)) :
    InCustody options ⟨agent, Function.update c.locals i phase⟩ := by
  have hsame := sameCustody hcarries.custody
  have hholds : c.shared.holds = tap.holds := by
    unfold Agent.holds
    rw [htap]
    rfl
  have htaken : (c.shared.takeHold i cid payload).1 =
      { c.shared with
        tap := some (tap.after (.guard cid.toText payload))
        takes := c.shared.takes ++ [(i, tap.holds.length)] } := by
    unfold Agent.takeHold
    rw [htap]
  rw [htaken] at hsame
  have hempty : (c.locals i).standing = .empty := by
    rw [hwaits]
    rfl
  -- a number that is new to the books
  have hfresh : ∀ j, (j, tap.holds.length) ∉ c.shared.takes := by
    intro j hin
    have hissued : tap.holds.length < c.shared.holds.length := h.books.issued j _ hin
    rw [hholds] at hissued
    omega
  have hgrown : agent.holds = tap.holds ++ [⟨cid.toText, payload, false⟩] := hsame.holds
  apply h.update
  · have hstanding : phase.standing = .holding tap.holds.length := by
      rw [Phase.standing_of_hold, hcarries.hold]
      rintro fate rfl
      cases hcarries.early
    have hbooks : agent.books =
        ⟨c.shared.books.total + 1, c.shared.books.takes ++ [(i, c.shared.books.total)],
          c.shared.books.returns⟩ := by
      rw [hsame.books]
      unfold Agent.books
      rw [hholds]
      show Loans.Books.mk (tap.holds ++ [_]).length _ _ = _
      rw [List.length_append]
      rfl
    have htotal : c.shared.books.total = tap.holds.length := congrArg List.length hholds
    rw [hbooks, hstanding, hempty, ← htotal]
    exact .take
  · intro j k hin
    rw [hsame.takes] at hin
    rw [hgrown, hsame.releases]
    rcases List.mem_append.mp hin with hin | hin
    · obtain ⟨hold, hat, hgiven⟩ := h.agrees j k hin
      rw [hholds] at hat
      have hk : k < tap.holds.length := (List.getElem?_eq_some_iff.mp hat).1
      rw [List.getElem?_append_left hk]
      exact ⟨hold, hat, hgiven⟩
    · obtain ⟨rfl, rfl⟩ := Prod.mk.inj (List.mem_singleton.mp hin)
      rw [List.getElem?_concat_length]
      refine ⟨_, rfl, ?_⟩
      constructor
      · rintro ⟨⟩
      · intro hreleased
        exact absurd (h.books.honest _ hreleased) (hfresh _)
  · rw [hsame.tapped, htap]
    rfl
  · exact hcarries.tidy
  · exact Agent.settled_of_early hcarries.early
  · intro j hji
    refine ⟨?_, ?_, ?_⟩
    · rw [hsame.frames]
      exact fun _ hin => hin
    · rw [hsame.closed]
      exact fun hclosed => hclosed
    · intro k hin
      rw [hsame.takes] at hin
      rcases List.mem_append.mp hin with hin | hin
      · exact hin
      · exact absurd (Prod.mk.inj (List.mem_singleton.mp hin)).1 hji

theorem InCustody.handed {frame : Bytes} (h : InCustody options c)
    (hwaits : c.locals i = .answered to_ body hold) :
    InCustody options ⟨{ c.shared with
        tap := c.shared.tap.map fun tap => tap.after (.send to_ frame)
        frames := c.shared.frames ++ [i] }, Function.update c.locals i (.sending hold)⟩ := by
  have hholds : Agent.holds { c.shared with
      tap := c.shared.tap.map fun tap => tap.after (.send to_ frame)
      frames := c.shared.frames ++ [i] } = c.shared.holds := by
    show ((c.shared.tap.map fun tap => tap.after (.send to_ frame)).map Tap.holds).getD [] = _
    rw [Option.map_map]
    rfl
  apply h.update
  · rw [hwaits]
    unfold Agent.books
    rw [hholds]
    cases hold <;> exact .keep _
  · unfold Agent.agrees
    rw [hholds]
    exact h.agrees
  · exact Option.isSome_map
  · trivial
  · exact List.mem_append_right _ List.mem_cons_self
  · intro j _
    exact ⟨fun _ hin => List.mem_append_left _ hin, fun hclosed => hclosed, fun _ hin => hin⟩

theorem InCustody.released {k : Nat} (h : InCustody options c)
    (hholding : (c.locals i).standing = .holding k) :
    (c.shared.giveBack i (some k)).agrees ∧
      (c.shared.giveBack i (some k)).holds.length = c.shared.holds.length := by
  obtain ⟨htaken, hreleased⟩ := h.books.held i k hholding
  obtain ⟨hold, hat, hgiven⟩ := h.agrees i k htaken
  have hopen : hold.given = false := by
    rw [Bool.eq_false_iff]
    exact fun htrue => hreleased (hgiven.mp htrue)
  have hholds : (c.shared.giveBack i (some k)).holds = Holds.settle c.shared.holds k hold := by
    cases htap : c.shared.tap with
    | none =>
      rw [Agent.holds, htap] at hat
      cases hat
    | some tap =>
      rw [Agent.holds, htap] at hat
      unfold Agent.holds Agent.giveBack
      rw [htap]
      exact Tap.holds_release hat hopen
  refine ⟨?_, ?_⟩
  · intro j k' hin
    obtain ⟨hold', hat', hgiven'⟩ := h.agrees j k' hin
    rw [hholds]
    show ∃ hold', (c.shared.holds.set k { hold with given := true })[k']? = some hold' ∧
      (hold'.given = true ↔ (j, k') ∈ c.shared.releases ++ [(i, k)])
    by_cases hk : k' = k
    · -- one hold, one request
      subst hk
      obtain rfl : j = i := h.books.single j i k' hin htaken
      have hlength : k' < c.shared.holds.length := (List.getElem?_eq_some_iff.mp hat).1
      rw [List.getElem?_set_self hlength]
      exact ⟨_, rfl, fun _ => List.mem_append_right _ List.mem_cons_self, fun _ => rfl⟩
    · rw [List.getElem?_set_ne (Ne.symm hk)]
      refine ⟨hold', hat', hgiven'.trans ?_⟩
      constructor
      · exact fun hin => List.mem_append_left _ hin
      · intro hin
        rcases List.mem_append.mp hin with hin | hin
        · exact hin
        · exact absurd (Prod.mk.inj (List.mem_singleton.mp hin)).2 hk
  · rw [hholds, Holds.settle, List.length_set]

theorem InCustody.ended {fate : Fate} (h : InCustody options c)
    (hrunning : ∀ fate, c.locals i ≠ .done fate)
    (hsettled : fate = .settled → c.locals i = .sending (c.locals i).hold)
    (habandoned : fate = .abandoned → c.shared.closed = true) (hunencodable : fate = .unencodable →
      (c.locals i).hold = none ∧ (c.locals i).early = true) :
    InCustody options
      ⟨c.shared.giveBack i (c.locals i).hold, Function.update c.locals i (.done fate)⟩ := by
  have hstanding := Phase.standing_of_hold hrunning
  have hfate : c.shared.settled i (.done fate) := by
    cases fate with
    | settled =>
      have hframe := h.settled i
      rw [hsettled rfl] at hframe
      exact hframe
    | abandoned => exact habandoned rfl
    | unencodable =>
      rw [(hunencodable rfl).1] at hstanding
      exact h.books.notMem_takes hstanding
  cases hhold : (c.locals i).hold with
  | none =>
    rw [hhold] at hstanding
    apply h.update
    · rw [hstanding]
      exact .leave
    · exact h.agrees
    · rfl
    · trivial
    · exact hfate
    · exact fun j _ => ⟨fun _ hin => hin, fun hclosed => hclosed, fun _ hin => hin⟩
  | some k =>
    rw [hhold] at hstanding
    obtain ⟨hagrees, hlength⟩ := h.released hstanding
    apply h.update
    · rw [hstanding]
      unfold Agent.books
      rw [hlength]
      exact .give k
    · exact hagrees
    · exact Option.isSome_map
    · trivial
    · cases fate with
      | settled => exact hfate
      | abandoned => exact hfate
      | unencodable => exact hfate
    · exact fun j _ => ⟨fun _ hin => hin, fun hclosed => hclosed, fun _ hin => hin⟩

theorem InCustody.handover {agent : Agent} (h : InCustody options c)
    (hmove : Handover options i c.shared (c.locals i) agent phase) :
    InCustody options ⟨agent, Function.update c.locals i phase⟩ := by
  cases hmove with
  | carried hearly hcarries => exact h.carried hearly hcarries
  | taken work tap cid payload hwaits htap hcarries => exact h.taken hwaits htap hcarries
  | handed to_ body hold frame hwaits => exact h.handed hwaits
  | ended fate hrunning hsettled habandoned hunencodable =>
    exact h.ended hrunning hsettled habandoned hunencodable

/-- What happens besides the requests touches no hold of theirs. -/
theorem InCustody.outside {action : Outside} {agent : Agent} (h : InCustody options c)
    (hstep : stepOutside options action c.shared = some agent) :
    InCustody options ⟨agent, c.locals⟩ := by
  have hquiet : agent.custody = c.shared.custody → InCustody options ⟨agent, c.locals⟩ := by
    intro hcustody
    have hsame := sameCustody hcustody
    refine ⟨?_, hsame.agrees h.agrees, hsame.tapped.trans h.tapped, h.tidy, ?_⟩
    · show Loans.Kept agent.books fun i => (c.locals i).standing
      rw [hsame.books]
      exact h.books
    · exact fun i => (hsame.onward i).settled (h.settled i)
  cases action with
  | close =>
    cases hstep
    refine ⟨h.books, h.agrees, h.tapped, h.tidy, ?_⟩
    intro i
    have honward : Onward c.shared { c.shared with closed := true } i :=
      ⟨fun _ hin => hin, fun _ => rfl, fun _ hin => hin⟩
    exact honward.settled (h.settled i)
  | record cid =>
    simp only [stepOutside] at hstep
    split at hstep
    · cases hstep
      exact hquiet rfl
    · cases hstep
  | govern dutyCycle =>
    simp only [stepOutside, Option.bind_eq_some_iff, Option.map_eq_some_iff] at hstep
    obtain ⟨cap, -, governed, -, rfl⟩ := hstep
    exact hquiet rfl
  | calls call =>
    simp only [stepOutside] at hstep
    split at hstep
    · next hreachable =>
      cases hstep
      cases htap : c.shared.tap with
      | none =>
        rw [htap] at hquiet
        apply hquiet
        unfold Agent.custody
        rw [htap]
        rfl
      | some tap =>
        have hholds : c.shared.holds = tap.holds := by
          unfold Agent.holds
          rw [htap]
          rfl
        obtain ⟨hlength, hkeep⟩ := tap.holds_after call
        refine ⟨?_, ?_, ?_, h.tidy, h.settled⟩
        · have hgrow := h.books.grow (show c.shared.holds.length ≤ (tap.after call).holds.length by
            rw [hholds]
            exact hlength)
          exact hgrow
        · intro i k hin
          obtain ⟨hold, hat, hgiven⟩ := h.agrees i k hin
          rw [hholds] at hat
          refine ⟨hold, ?_, hgiven⟩
          show (tap.after call).holds[k]? = some hold
          rw [hkeep k (List.getElem?_eq_some_iff.mp hat).1]
          · exact hat
          · -- the hold of a request is out of reach
            rintro rfl
            simp only [Agent.reachable, decide_eq_true_eq] at hreachable
            exact hreachable (List.mem_map_of_mem hin)
        · have htapped := h.tapped
          rw [htap] at htapped
          exact htapped
    · cases hstep

theorem inCustody (h : (serveAgent p options).Reaches (HoldsCarried options) options.start c) :
    InCustody options c := by
  apply h.invariant inCustody_start
  intro c e c' hguard hkept hstep
  obtain ⟨i, action, agent, phase, rfl, hown, rfl⟩ | ⟨action, agent, rfl, halone, rfl⟩ :=
    System.step_cases hstep
  · exact hkept.handover (stepRequest_handover hguard hkept.tapped (hkept.tidy i) hown)
  · exact hkept.outside halone

/-! ## A hold lives as long as its reply -/

/-- The holds of a node's requests at one moment. -/
structure HoldsFollowReplies (c : Config Nat Agent Phase) : Prop where
  /-- A request that is done has released its hold, once. -/
  once : ∀ i k fate, (i, k) ∈ c.shared.takes → c.locals i = .done fate →
    c.shared.releases.count (i, k) = 1
  /-- Until then the hold is open on the tap. -/
  open_ : ∀ i k, (i, k) ∈ c.shared.takes → (∀ fate, c.locals i ≠ .done fate) →
    (i, k) ∉ c.shared.releases ∧
      ∃ hold, c.shared.holds[k]? = some hold ∧ hold.given = false
  /-- Where it is released, the frame of that request was handed to the transport and
      has settled, or the endpoint had closed. -/
  after : ∀ i k, (i, k) ∈ c.shared.releases →
    (c.locals i = .done .settled ∧ i ∈ c.shared.frames) ∨
      c.locals i = .done .abandoned ∧ c.shared.closed = true
  /-- Nobody releases what another request took. -/
  own : ∀ i k, (i, k) ∈ c.shared.releases →
    (i, k) ∈ c.shared.takes ∧ ∀ j, (j, k) ∈ c.shared.takes → j = i

theorem InCustody.follow (h : InCustody options c) :
    HoldsFollowReplies c := by
  constructor
  · intro i k fate htaken hdone
    obtain hholding | ⟨-, hcount⟩ := h.books.settled i k htaken
    · rw [hdone] at hholding
      cases hholding
    · exact hcount
  · intro i k htaken hrunning
    obtain hholding | ⟨hfinished, -⟩ := h.books.settled i k htaken
    · obtain ⟨-, hreleased⟩ := h.books.held i k hholding
      obtain ⟨hold, hat, hgiven⟩ := h.agrees i k htaken
      refine ⟨hreleased, hold, hat, ?_⟩
      rw [Bool.eq_false_iff]
      exact fun htrue => hreleased (hgiven.mp htrue)
    · obtain ⟨fate, hdone⟩ := Phase.done_of_finished hfinished
      exact absurd hdone (hrunning fate)
  · intro i k hreleased
    have htaken : (i, k) ∈ c.shared.takes := h.books.honest _ hreleased
    obtain hholding | ⟨hfinished, -⟩ := h.books.settled i k htaken
    · exact absurd hreleased (h.books.held i k hholding).2
    · obtain ⟨fate, hdone⟩ := Phase.done_of_finished hfinished
      have hsettled := h.settled i
      rw [hdone] at hsettled ⊢
      cases fate with
      | settled => exact Or.inl ⟨rfl, hsettled⟩
      | abandoned => exact Or.inr ⟨rfl, hsettled⟩
      | unencodable => exact absurd htaken (hsettled k)
  · intro i k hreleased
    have htaken : (i, k) ∈ c.shared.takes := h.books.honest _ hreleased
    exact ⟨htaken, fun j hj => h.books.single j i k hj htaken⟩

/-- In every run in which no hold is lost to a throw or to a reply without a frame. -/
theorem holds_follow_replies (p : Platform) (options : AgentOptions)
    {c : Config Nat Agent Phase}
    (h : (serveAgent p options).Reaches (HoldsCarried options) options.start c) :
    HoldsFollowReplies c :=
  (inCustody h).follow

/-- Two dispatches of one input; the first reply settles, the second meets a closed
    endpoint. -/
def twoHoldsRun : List (Event Nat Action Outside) :=
  [.own 0 (asks (.exec ownedTask)),
    .own 1 (asks (.exec { ownedTask with partitionIndex := 1 })),
    .own 0 (.held (.found [1]) welcoming), .own 1 (.held (.found [1]) welcoming),
    .own 0 (.executed (.threw (.described (js "e")))), .own 0 (.reply 0), .own 0 .sent,
    .alone .close, .own 1 (.executed (.failed (js "e"))), .own 1 (.reply 1)]

theorem holds_follow_replies_two :
    ∃ c, (serveAgent plain plainOptions).run plainOptions.start twoHoldsRun = some c ∧
      c.shared.releases = [(0, 0), (1, 1)] ∧ HoldsFollowReplies c := by
  have hrun : ((serveAgent plain plainOptions).run plainOptions.start twoHoldsRun).map
      (fun c => c.shared.releases) = some [(0, 0), (1, 1)] := by
    decide +kernel
  obtain ⟨c, hrun, hreleases⟩ := Option.map_eq_some_iff.mp hrun
  refine ⟨c, hrun, hreleases,
    holds_follow_replies plain plainOptions (System.Reaches.of_run ?_ hrun)⟩
  intro c e he
  simp only [twoHoldsRun, List.mem_cons, List.not_mem_nil, or_false] at he
  rcases he with rfl | rfl | rfl | rfl | rfl | rfl | rfl | rfl | rfl | rfl
  · trivial
  · trivial
  · exact fun _ _ _ => rfl
  · exact fun _ _ _ => rfl
  · exact fun _ _ _ _ => rfl
  · rintro to_ body hold - - ⟨⟩
  · trivial
  · trivial
  · trivial
  · rintro to_ body hold - - ⟨⟩

/-- The executor throws something that has no text. -/
def wordlessRun : List (Event Nat Action Outside) :=
  [.own 0 (asks (.exec ownedTask)), .own 0 (.held (.found [1]) welcoming),
    .own 0 (.executed (.threw (.undescribable (js "e")))), .own 0 (.reply 0), .own 0 .sent]

/-- The request is done, and its hold was never released. -/
theorem wordless_throw_loses_hold :
    ∃ c, (serveAgent plain plainOptions).run plainOptions.start wordlessRun = some c ∧
      ¬ HoldsFollowReplies c := by
  have hrun : ((serveAgent plain plainOptions).run plainOptions.start wordlessRun).map
      (fun c => (c.shared.takes, c.shared.releases, (c.locals 0).standing))
      = some ([(0, 0)], [], .finished) := by
    decide +kernel
  obtain ⟨c, hrun, hend⟩ := Option.map_eq_some_iff.mp hrun
  refine ⟨c, hrun, ?_⟩
  intro hfollow
  simp only [Prod.mk.injEq] at hend
  obtain ⟨htakes, hreleases, hfinished⟩ := hend
  obtain ⟨fate, hdone⟩ := Phase.done_of_finished hfinished
  have hcount := hfollow.once 0 0 fate (by rw [htakes]; exact List.mem_cons_self) hdone
  rw [hreleases] at hcount
  cases hcount

end O2Fabric.Net
