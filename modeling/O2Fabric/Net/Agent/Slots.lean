/-
  O2Fabric.Net.Agent.Slots

  Admission over whole runs of a serving node: the keys in the slot table are the
  keys of the requests that were admitted and whose work has not settled.  One
  action of one request takes its key, gives it back or leaves the table alone.

  The exception is the read of the local store for a sovereign hold.  It stands
  after the admission and before the `try`, so where it rejects nothing gives the
  slot back.
-/

import O2Fabric.Lib.Slots
import O2Fabric.Net.Agent.Step

namespace O2Fabric.Net

open Job Threads

variable {p : Platform} {options : AgentOptions} {agent agent' : Agent}

/-- The keys that hold a slot; `none` for a node that accepts every offer. -/
def Agent.keys (agent : Agent) : Option (Finset JsString) :=
  agent.capacity.map LocalCapacity.inFlight

/-! ## What each piece does to the table -/

variable {key : JsString}

theorem Agent.takeSlot_refused {reason : JsString}
    (h : agent.takeSlot p options key = (some reason, agent')) : agent' = agent := by
  unfold Agent.takeSlot at h
  split at h
  · cases h
  · split at h
    · cases h
    · cases h
      rfl

theorem Agent.takeSlot_taken (h : agent.takeSlot p options key = (none, agent')) :
    (∀ held, agent.keys = some held → key ∉ held) ∧
      agent'.keys = agent.keys.map (insert key) := by
  unfold Agent.takeSlot at h
  unfold Agent.keys
  split at h
  · next hcap =>
    cases h
    rw [hcap]
    exact ⟨by rintro held ⟨⟩, rfl⟩
  · next cap hcap =>
    obtain ⟨capacity, hoffer, hfresh, -⟩ | ⟨reason, capacity, standing, hoffer⟩ :=
      cap.offer_cases (p := p) ⟨key, options.nodeId⟩
    · rw [hoffer] at h
      cases h
      rw [hcap]
      refine ⟨?_, rfl⟩
      rintro held ⟨⟩
      exact hfresh
    · rw [hoffer] at h
      cases h

@[simp] theorem Agent.keys_releaseSlot (key : JsString) :
    (agent.releaseSlot key).keys = agent.keys.map fun held => held.erase key := by
  unfold Agent.keys Agent.releaseSlot
  rw [Option.map_map, Option.map_map]
  rfl

/-- A scan leaves the slots as they were. -/
theorem keys_of_scan {to_ : JsString} {body : ReplyBody} {reason : Option JsString}
    (h : refusedReason options agent to_ body = (reason, agent')) : agent'.keys = agent.keys := by
  unfold refusedReason at h
  split at h
  · cases h
    rfl
  · split at h
    · cases h
      rfl
    · split at h
      · cases h
        rfl
      · cases h
        rfl

@[simp] theorem Agent.keys_compute (inputs : List Cid) (label : Option Sovereignty)
    (verdict : Verdict) : (agent.compute options inputs label verdict).keys = agent.keys := rfl

@[simp] theorem Agent.keys_gives (to_ : JsString) (computation : Option Nat) :
    (agent.gives to_ computation).keys = agent.keys := by
  cases computation <;> rfl

@[simp] theorem Agent.keys_takeHold (i : Nat) (cid : Cid) (payload : Bytes) :
    (agent.takeHold i cid payload).1.keys = agent.keys := by
  unfold Agent.takeHold
  split <;> rfl

@[simp] theorem Agent.keys_giveBack (i : Nat) (afterSent : Option Nat) :
    (agent.giveBack i afterSent).keys = agent.keys := by
  cases afterSent <;> rfl

@[simp] theorem slot_servingFailed (from_ : JsString) (cause : Cause) :
    (servingFailed options from_ cause).slot = none := by
  cases cause <;> rfl

@[simp] theorem slot_replies (from_ : JsString) (response : AgentResponse) :
    (replies from_ response).slot = none := rfl

/-! ## What each branch does -/

/-- A party that holds `slot` may do this. -/
def Moves (slot : Option JsString) (agent : Agent) (next : Agent × Phase) : Prop :=
  Slots.Move agent.keys slot next.1.keys next.2.slot

variable {next : Agent × Phase}

theorem Moves.keep {slot : Option JsString} (hkeys : next.1.keys = agent.keys)
    (hslot : next.2.slot = slot) :
    Moves slot agent next := by
  unfold Moves
  rw [hkeys, hslot]
  exact .keep slot

theorem Moves.free (hkeys : next.1.keys = agent.keys.map fun held => held.erase key)
    (hslot : next.2.slot = none) : Moves (some key) agent next := by
  unfold Moves
  rw [hkeys, hslot]
  exact .free key

theorem Moves.after_take (htake : agent.takeSlot p options key = (none, agent'))
    (h : Moves (some key) agent' next) : Moves none agent next := by
  obtain ⟨hfresh, hkeys⟩ := Agent.takeSlot_taken htake
  unfold Moves at h
  rw [hkeys] at h
  exact h.after_take hfresh

/-- The reply of an `exec` has nothing to do with slots. -/
theorem execReply_slots (work : Work) (hold computation : Option Nat)
    (outcome : ExecutionOutcome CanonicalValue) :
    (execReply options agent work hold computation outcome).1.keys = agent.keys ∧
      (execReply options agent work hold computation outcome).2.slot = none := by
  unfold execReply
  split
  · split
    · next hscan => exact ⟨(Agent.keys_gives ..).trans (keys_of_scan hscan), rfl⟩
    · next hscan => exact ⟨keys_of_scan hscan, rfl⟩
  · exact ⟨Agent.keys_gives .., rfl⟩

theorem workFails_slots (work : Work) (hold computation : Option Nat) (reason : JsString) :
    (workFails options agent work hold computation reason).1.keys = agent.keys ∧
      (workFails options agent work hold computation reason).2.slot = none := by
  unfold workFails
  split
  · exact ⟨Agent.keys_gives .., rfl⟩
  · exact execReply_slots ..

theorem workThrows_moves (work : Work) (hold computation : Option Nat) (cause : Cause) :
    Moves (some (slotKey work.task)) agent
      (workThrows options agent work hold computation cause) := by
  unfold workThrows
  cases cause with
  | described text =>
    obtain ⟨hkeys, hslot⟩ := @workFails_slots options
      (agent.releaseSlot (slotKey work.task)) work hold computation
      (js "execution failed on " ++ options.nodeId ++ js ": " ++ text)
    exact .free (hkeys.trans (Agent.keys_releaseSlot _)) hslot
  | undescribable text => exact .free (Agent.keys_releaseSlot _) rfl

theorem runWork_moves (work : Work) (hold : Option Nat) (calls : Calls) :
    Moves (some (slotKey work.task)) agent (runWork options agent work hold calls) := by
  unfold runWork
  split
  · exact workThrows_moves ..
  · next reason _ =>
    obtain ⟨hkeys, hslot⟩ := @workFails_slots options
      (agent.releaseSlot (slotKey work.task)) work hold none
      (js "unauthorized: " ++ reason)
    exact .free (hkeys.trans (Agent.keys_releaseSlot _)) hslot
  · split
    · exact workThrows_moves ..
    · exact .keep rfl rfl

theorem workRan_moves (work : Work) (hold : Option Nat) (computation : Nat) (ran : Ran) :
    Moves (some (slotKey work.task)) agent
      (workRan options agent work hold computation ran) := by
  cases ran with
  | ok output cost attestation =>
    unfold workRan
    dsimp only
    split
    · exact .free (Agent.keys_releaseSlot _) rfl
    · obtain ⟨hkeys, hslot⟩ := @execReply_slots options
        (agent.releaseSlot (slotKey work.task)) work hold (some computation)
        (.ok output cost attestation)
      exact .free (hkeys.trans (Agent.keys_releaseSlot _)) hslot
  | failed reason =>
    obtain ⟨hkeys, hslot⟩ := @workFails_slots options
      (agent.releaseSlot (slotKey work.task)) work hold (some computation) reason
    exact .free (hkeys.trans (Agent.keys_releaseSlot _)) hslot
  | threw cause => exact workThrows_moves ..

/-- The read of the local store does not reject, where a hold is to be taken. -/
def Work.readable (work : Work) : Found → Prop
  | .rejected _ => work.task.label ≠ .sovereign
  | _ => True

theorem workHeld_moves {i : Nat} {work : Work} {found : Found} (calls : Calls)
    (hread : work.readable found) :
    Moves (some (slotKey work.task)) agent (workHeld options agent i work found calls) := by
  unfold workHeld
  split
  · exact runWork_moves ..
  · exact runWork_moves ..
  · next bytes hlabel =>
    have hrun := @runWork_moves options (agent.takeHold i work.task.inputCid bytes).1 work
      (agent.takeHold i work.task.inputCid bytes).2 calls
    unfold Moves at hrun
    rw [Agent.keys_takeHold] at hrun
    exact hrun
  · next cause hlabel => exact absurd hlabel hread

theorem combineFails_moves (work : CombineWork) (reason : JsString) :
    Moves (some (combineKey work.inputCids)) agent (combineFails agent work reason) :=
  .free (Agent.keys_releaseSlot _) rfl

theorem combineThrows_moves (work : CombineWork) (cause : Cause) :
    Moves (some (combineKey work.inputCids)) agent (combineThrows options agent work cause) :=
  .free (Agent.keys_releaseSlot _) (slot_servingFailed ..)

theorem combineReads_moves (work : CombineWork) (inputs : List CanonicalValue) :
    Moves (some (combineKey work.inputCids)) agent (combineReads options agent work inputs) := by
  unfold combineReads
  split <;> exact .keep rfl rfl

theorem combineInput_moves (work : CombineWork) (inputs : List CanonicalValue) (cid : Cid)
    (found : Found) :
    Moves (some (combineKey work.inputCids)) agent
      (combineInput options agent work inputs cid found) := by
  cases found with
  | rejected cause => exact combineThrows_moves ..
  | missing => exact combineFails_moves ..
  | found bytes =>
    unfold combineInput
    dsimp only
    split
    · exact combineFails_moves ..
    · split
      · exact combineFails_moves ..
      · exact combineReads_moves ..

theorem combineHashed_moves (work : CombineWork) (merged : CanonicalValue) (computation : Nat) :
    Moves (some (combineKey work.inputCids)) agent
      (combineHashed p agent work merged computation) := by
  unfold combineHashed
  split
  · exact combineFails_moves ..
  · exact .keep rfl rfl

theorem combineStored_moves (work : CombineWork) (resultCid : Cid) (computation : Nat) :
    Moves (some (combineKey work.inputCids)) agent
      (combineStored options agent work resultCid computation) :=
  .free ((Agent.keys_gives ..).trans (Agent.keys_releaseSlot _)) rfl

theorem runCombine_moves (work : CombineWork) (verdict : Verdict) :
    Moves none agent (runCombine p options agent work verdict) := by
  unfold runCombine
  split
  · next htake =>
    rw [Agent.takeSlot_refused htake]
    exact .keep rfl rfl
  · next htake =>
    apply Moves.after_take htake
    cases verdict with
    | admits => exact combineReads_moves ..
    | refuses reason => exact combineFails_moves ..
    | threw cause => exact combineThrows_moves ..

theorem dispatch_moves (work : Work) (now : ℚ) (calls : Calls) :
    Moves none agent (dispatch p options agent work now calls) := by
  unfold dispatch
  split
  · exact .keep rfl rfl
  · split
    · exact .keep rfl rfl
    · split
      · exact .keep rfl rfl
      · dsimp only
        split
        · next htake =>
          rw [Agent.takeSlot_refused htake]
          exact .keep rfl rfl
        · next htake =>
          -- the claim of a name leaves the slots as they were
          apply Moves.after_take htake
          split
          · exact .keep rfl rfl
          · exact runWork_moves ..

theorem blockAnswer_moves (from_ : JsString) (cid : Cid) (bytes : Option Bytes) :
    Moves none agent (blockAnswer options agent from_ cid bytes) := by
  unfold blockAnswer
  split
  · exact .keep rfl rfl
  · split
    · next hscan =>
      have hkeys := keys_of_scan hscan
      exact .keep hkeys rfl
    · next hscan =>
      have hkeys := keys_of_scan hscan
      exact .keep hkeys rfl

theorem revealAnswer_moves (from_ handle : JsString) (now : ℚ) :
    Moves none agent (revealAnswer options agent from_ handle now) := by
  unfold revealAnswer
  split
  · next reason pending _ =>
    split
    · next hscan =>
      have hkeys := keys_of_scan hscan
      exact .keep hkeys rfl
    · next hscan =>
      have hkeys := keys_of_scan hscan
      exact .keep hkeys rfl
  · next entry pending _ =>
    dsimp only
    split
    · next hscan =>
      have hkeys := keys_of_scan hscan
      exact .keep ((Agent.keys_gives ..).trans hkeys) rfl
    · next hscan =>
      have hkeys := keys_of_scan hscan
      exact .keep hkeys rfl

theorem answer_moves (from_ : JsString) (request : Option AgentRequest) (pause : Pause) (now : ℚ)
    (handle : JsString) (calls : Calls) :
    Moves none agent (answer p options agent from_ request pause now handle calls) := by
  cases request with
  | none => exact .keep rfl rfl
  | some request =>
    have hserve : Moves none agent (serve p options agent from_ now handle calls request) := by
      cases request with
      | exec task => exact dispatch_moves ..
      | commit task => exact dispatch_moves ..
      | reveal handle => exact revealAnswer_moves ..
      | block cid => exact .keep rfl rfl
      | offer shardId => exact .keep rfl rfl
      | combine combineId inputCids level => exact runCombine_moves ..
      | other request => exact .keep rfl rfl
    unfold answer
    dsimp only
    split
    · cases pause with
      | running => exact hserve
      | stopped => exact .keep rfl rfl
      | broken described => exact .keep rfl rfl
      | threw cause => exact .keep rfl (slot_servingFailed ..)
    · exact hserve

theorem sendReply_moves (i id : Nat) (to_ : JsString) (body : ReplyBody)
    (afterSent : Option Nat) :
    Moves none agent (sendReply options agent i id to_ body afterSent) := by
  unfold sendReply
  split
  · exact .keep (Agent.keys_giveBack ..) rfl
  · split
    · exact .keep (Agent.keys_giveBack ..) rfl
    · exact .keep rfl rfl

/-! ## One action, and all of them -/

/-- Where the read of the local store rejects, no admitted sovereign dispatch waits
    for it. -/
def StoreAnswers (c : Config Nat Agent Phase) : Event Nat Action Outside → Prop
  | .own i (.held found _) => ∀ work, c.locals i = .holding work → work.readable found
  | _ => True

theorem stepRequest_moves {i : Nat} {action : Action} {phase : Phase}
    (hread : ∀ found calls work, action = .held found calls → phase = .holding work →
      work.readable found) (h : stepRequest p options i action agent phase = some next) :
    Moves phase.slot agent next := by
  unfold stepRequest at h
  split at h
  · -- a request arrives
    cases h
    exact answer_moves ..
  · -- the local tier has answered for a block
    split at h
    · cases h
      exact blockAnswer_moves ..
    · cases h
      exact blockAnswer_moves ..
    · cases h
      exact .keep rfl (slot_servingFailed ..)
  · -- an index, a ledger or an authority has answered
    split at h
    · cases h
      exact .keep rfl rfl
    · cases h
      exact .keep rfl (slot_servingFailed ..)
  · cases h
    exact workHeld_moves _ (hread _ _ _ rfl rfl)
  · cases h
    exact workRan_moves ..
  · -- the slot went back before the answer was hashed
    split at h
    · cases h
      exact .keep rfl (slot_servingFailed ..)
    · cases h
      unfold workSealed
      split <;> exact .keep rfl rfl
  · split at h
    · cases h
    · cases h
      exact combineInput_moves ..
  · split at h
    · cases h
      exact combineThrows_moves ..
    · cases h
      exact combineHashed_moves ..
  · split at h
    · cases h
      exact combineThrows_moves ..
    · cases h
      exact combineStored_moves ..
  · cases h
    exact sendReply_moves ..
  · cases h
    exact .keep (Agent.keys_giveBack ..) rfl
  · cases h

theorem stepOutside_keys {action : Outside} (h : stepOutside options action agent = some agent') :
    agent'.keys = agent.keys := by
  cases action with
  | close =>
    cases h
    rfl
  | record cid =>
    simp only [stepOutside] at h
    split at h
    · cases h
      rfl
    · cases h
  | govern dutyCycle =>
    simp only [stepOutside, Option.bind_eq_some_iff, Option.map_eq_some_iff] at h
    obtain ⟨cap, hcap, governed, hgoverned, rfl⟩ := h
    unfold LocalCapacity.governed at hgoverned
    split at hgoverned
    · cases hgoverned
      unfold Agent.keys
      rw [hcap]
      rfl
    · cases hgoverned
  | calls call =>
    simp only [stepOutside] at h
    split at h
    · cases h
      rfl
    · cases h

/-- The key each request holds. -/
def slots (c : Config Nat Agent Phase) (i : Nat) : Option JsString := (c.locals i).slot

theorem slots_exact {c : Config Nat Agent Phase}
    (h : (serveAgent p options).Reaches StoreAnswers options.start c) :
    Slots.Exact c.shared.keys (slots c) := by
  apply h.invariant
  · apply Slots.Exact.start
    intro held hheld
    obtain ⟨cap, hcap, rfl⟩ := Option.map_eq_some_iff.mp hheld
    exact options.capacity_fresh cap hcap
  · intro c e c' hguard hexact hstep
    obtain ⟨i, action, agent, phase, rfl, hown, rfl⟩ | ⟨b, agent, rfl, halone, rfl⟩ :=
      System.step_cases hstep
    · have hmoves : Moves (c.locals i).slot c.shared (agent, phase) := by
        apply stepRequest_moves _ hown
        rintro found calls work rfl hphase
        exact hguard work hphase
      have hslots : slots ⟨agent, Function.update c.locals i phase⟩
          = Function.update (slots c) i phase.slot := by
        funext j
        exact Function.apply_update (fun _ => Phase.slot) c.locals i phase j
      rw [hslots]
      exact hexact.move hmoves
    · show Slots.Exact agent.keys (slots c)
      rw [stepOutside_keys halone]
      exact hexact

/-! ## No slot leaks -/

/-- The slot table of a node at one moment, and what the next action may do to it. -/
structure SlotsKept (p : Platform) (options : AgentOptions) (c : Config Nat Agent Phase) :
    Prop where
  /-- The keys held are the keys of the admitted requests that are being handled. -/
  held : ∀ cap, c.shared.capacity = some cap →
    ∀ key, key ∈ cap.inFlight ↔ ∃ i, (c.locals i).slot = some key
  /-- Two such requests do not share a key. -/
  apart : ∀ cap, c.shared.capacity = some cap → ∀ i j key,
    (c.locals i).slot = some key → (c.locals j).slot = some key → i = j
  /-- With none there is none in flight. -/
  idle : ∀ cap, c.shared.capacity = some cap →
    (∀ i, (c.locals i).slot = none) → cap.inFlight.card = 0
  /-- An offer changes nothing. -/
  offers : ∀ i from_ pause now handle calls shardId agent phase,
    stepRequest p options i (.arrive from_ (some (.offer shardId)) pause now handle calls)
      c.shared (c.locals i) = some (agent, phase) → agent = c.shared
  /-- Neither does what leaves a request without a slot that had none. -/
  refused : ∀ i action agent phase,
    stepRequest p options i action c.shared (c.locals i) = some (agent, phase) →
    (c.locals i).slot = none → phase.slot = none → agent.keys = c.shared.keys

theorem offer_quiet {from_ : JsString} {pause : Pause} {now : ℚ} {handle shardId : JsString}
    {calls : Calls} :
    (answer p options agent from_ (some (.offer shardId)) pause now handle calls).1 = agent := by
  unfold answer
  dsimp only
  split
  · cases pause <;> rfl
  · rfl

/-- In every run in which the local store answers every read for a hold. -/
theorem no_slot_leaks (p : Platform) (options : AgentOptions) {c : Config Nat Agent Phase}
    (h : (serveAgent p options).Reaches StoreAnswers options.start c) :
    SlotsKept p options c := by
  have hexact := slots_exact h
  constructor
  · intro cap hcap key
    exact hexact.mem cap.inFlight (by rw [Agent.keys, hcap]; rfl) key
  · intro cap hcap
    exact hexact.unique cap.inFlight (by rw [Agent.keys, hcap]; rfl)
  · intro cap hcap hidle
    have hkeys : c.shared.keys = some cap.inFlight := by rw [Agent.keys, hcap]; rfl
    rw [hkeys] at hexact
    rw [hexact.idle hidle, Finset.card_empty]
  · intro i from_ pause now handle calls shardId agent phase hstep
    cases hphase : c.locals i with
    | absent =>
      rw [hphase] at hstep
      have hnext := congrArg Prod.fst (Option.some.inj hstep)
      exact hnext.symm.trans offer_quiet
    | _ =>
      rw [hphase] at hstep
      cases hstep
  · intro i action agent phase hstep hbefore hafter
    cases hread : action with
    | held found calls =>
      -- who awaits the store for a hold has a slot
      rw [hread] at hstep
      cases hphase : c.locals i with
      | holding work =>
        rw [hphase] at hbefore
        cases hbefore
      | _ =>
        rw [hphase] at hstep
        cases hstep
    | _ =>
      have hmoves : Moves (c.locals i).slot c.shared (agent, phase) := by
        apply stepRequest_moves _ hstep
        intro found calls work haction
        rw [hread] at haction
        cases haction
      unfold Moves at hmoves
      rw [hbefore, hafter] at hmoves
      exact hmoves.eq_of_none

/-- A dispatch that is admitted, the same one again, an offer, and then the executor
    throws something that has no text. -/
def crowdedRun : List (Event Nat Action Outside) :=
  [.own 0 (asks (.exec ownedTask)), .own 1 (asks (.exec ownedTask)),
    .own 2 (asks (.offer (js "s"))), .own 0 (.held .missing welcoming),
    .own 0 (.executed (.threw (.undescribable (js "e"))))]

theorem no_slot_leaks_crowded :
    ∃ c, (serveAgent plain plainOptions).run plainOptions.start crowdedRun = some c ∧
      SlotsKept plain plainOptions c := by
  have hrun : ((serveAgent plain plainOptions).run plainOptions.start crowdedRun).isSome := by
    decide +kernel
  obtain ⟨c, hrun⟩ := Option.isSome_iff_exists.mp hrun
  refine ⟨c, hrun, no_slot_leaks plain plainOptions (System.Reaches.of_run ?_ hrun)⟩
  intro c e he
  simp only [crowdedRun, List.mem_cons, List.not_mem_nil, or_false] at he
  rcases he with rfl | rfl | rfl | rfl | rfl
  · trivial
  · trivial
  · trivial
  · exact fun _ _ => trivial
  · trivial

/-- The local store rejects the read for a hold. -/
def brokenStoreRun : List (Event Nat Action Outside) :=
  [.own 0 (asks (.exec ownedTask)), .own 0 (.held (.rejected (.described (js "e"))) welcoming)]

/-- The request has had its answer, and its key is still in the table. -/
theorem rejected_read_leaks_slot :
    ∃ c, (serveAgent plain plainOptions).run plainOptions.start brokenStoreRun = some c ∧
      ¬ SlotsKept plain plainOptions c := by
  have hrun : ((serveAgent plain plainOptions).run plainOptions.start brokenStoreRun).map
      (fun c => ((c.locals 0).slot, c.shared.capacity.map fun cap => cap.inFlight.card))
      = some (none, some 1) := by
    decide +kernel
  obtain ⟨c, hrun, hend⟩ := Option.map_eq_some_iff.mp hrun
  refine ⟨c, hrun, ?_⟩
  intro hkept
  obtain ⟨hslot, hcard⟩ := Prod.mk.inj hend
  obtain ⟨cap, hcap, hcard⟩ := Option.map_eq_some_iff.mp hcard
  have hidle : ∀ i, (c.locals i).slot = none := by
    intro i
    by_cases hi : i = 0
    · rw [hi, hslot]
    · rw [System.run_locals hrun]
      · rfl
      · intro a hin
        simp only [brokenStoreRun, List.mem_cons, Event.own.injEq, List.not_mem_nil, or_false]
          at hin
        omega
  rw [hkept.idle cap hcap hidle] at hcard
  cases hcard

end O2Fabric.Net
