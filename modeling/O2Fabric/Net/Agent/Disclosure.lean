/-
  O2Fabric.Net.Agent.Disclosure

  What a serving node computes over the bytes it knows to be sovereign, and what of
  it reaches a peer.  A dispatch and a block request are checked against the durable
  set; a reveal hands out what a checked dispatch filed; a combine is not checked.

  `Derives` follows a value back to the computations it comes from, through the
  merged values that were stored and used again.
-/

import O2Fabric.Net.Agent.Step

namespace O2Fabric.Net

open Job Threads

variable {p : Platform} {options : AgentOptions} {agent agent' : Agent}

/-! ## Admitted computations -/

/-- Over recorded bytes, only for a request labelled sovereign that was admitted. -/
def Computation.proper (computation : Computation) : Prop :=
  computation.recorded ≠ [] →
    computation.label = some .sovereign ∧ computation.verdict = .admits

/-- A value comes from one of the first `n` computations, or from a block that was not
    recorded when it was handed out. -/
def Source.fine (n : Nat) : Source → Prop
  | .computed computation => computation < n
  | .stored _ recorded => recorded = false

variable {n : Nat}

theorem Source.fine_mono {m : Nat} (hle : m ≤ n) {source : Source} (h : source.fine m) :
    source.fine n := by
  cases source with
  | computed computation => exact Nat.lt_of_lt_of_le h hle
  | stored cid recorded => exact h

/-- What a node has computed, stored, filed and given is accounted for. -/
structure Agent.Discreet (agent : Agent) : Prop where
  proper : ∀ computation ∈ agent.computed, computation.proper
  given : ∀ e ∈ agent.given, e.2.fine agent.computed.length
  made : ∀ e ∈ agent.made, e.2 < agent.computed.length
  pending : ∀ e ∈ agent.pending.entries.entries, e.2.computation < agent.computed.length

/-- The computation a phase is about is one of the first `n`. -/
def Phase.within (n : Nat) : Phase → Prop
  | .executing _ _ computation | .sealing _ _ _ _ _ computation
  | .merging _ _ computation | .storing _ _ computation => computation < n
  | _ => True

variable {phase : Phase}

theorem Phase.within_mono {m : Nat} (hle : m ≤ n) (h : phase.within m) :
    phase.within n := by
  cases phase with
  | executing work hold computation => exact Nat.lt_of_lt_of_le h hle
  | sealing work handle output cost attestation computation => exact Nat.lt_of_lt_of_le h hle
  | merging work merged computation => exact Nat.lt_of_lt_of_le h hle
  | storing work resultCid computation => exact Nat.lt_of_lt_of_le h hle
  | _ => trivial

/-- A dispatch that waits for its hold was checked, and the check still holds. -/
def Phase.checked (options : AgentOptions) (agent : Agent) : Phase → Prop
  | .holding work =>
    work.task.label ≠ .sovereign → agent.knows options work.task.inputCid = false
  | _ => True

/-- What one action has to keep. -/
structure Proceeds (options : AgentOptions) (agent : Agent) (next : Agent × Phase) :
    Prop where
  discreet : next.1.Discreet
  cids : next.1.sovereignCids = agent.sovereignCids
  grows : agent.computed.length ≤ next.1.computed.length
  within : next.2.within next.1.computed.length
  checked : next.2.checked options next.1

/-! ## The record -/

/-- What this module is about. -/
def Agent.record (agent : Agent) :
    List Computation × List (JsString × Source) × List (Cid × Nat) × PendingCommitments ×
      List JsString :=
  (agent.computed, agent.given, agent.made, agent.pending, agent.sovereignCids)

theorem Agent.Discreet.of_record (h : agent.Discreet) (hsame : agent'.record = agent.record) :
    agent'.Discreet := by
  simp only [Agent.record, Prod.mk.injEq] at hsame
  obtain ⟨hcomputed, hgiven, hmade, hpending, -⟩ := hsame
  constructor
  · rw [hcomputed]
    exact h.proper
  · rw [hgiven, hcomputed]
    exact h.given
  · rw [hmade, hcomputed]
    exact h.made
  · rw [hpending, hcomputed]
    exact h.pending

variable {next : Agent × Phase}

/-- After a piece that leaves the record alone. -/
theorem Proceeds.of_record (h : Proceeds options agent next) (hsame : agent.record = agent'.record) :
    Proceeds options agent' next := by
  simp only [Agent.record, Prod.mk.injEq] at hsame
  obtain ⟨hcomputed, -, -, -, hcids⟩ := hsame
  exact { h with
    cids := h.cids.trans hcids
    grows := hcomputed ▸ h.grows }

theorem record_of_scan {to_ : JsString} {body : ReplyBody} {reason : Option JsString}
    (h : refusedReason options agent to_ body = (reason, agent')) :
    agent'.record = agent.record := by
  unfold refusedReason at h
  split at h
  · cases h
    rfl
  · split at h
    · cases h
      rfl
    · split at h
      · cases h
        rfl
      · cases h
        rfl

theorem record_of_takeSlot {key : JsString} {reason : Option JsString}
    (h : agent.takeSlot p options key = (reason, agent')) : agent'.record = agent.record := by
  unfold Agent.takeSlot at h
  split at h
  · cases h
    rfl
  · split at h
    · cases h
      rfl
    · cases h
      rfl

theorem record_takeHold (i : Nat) (cid : Cid) (payload : Bytes) :
    (agent.takeHold i cid payload).1.record = agent.record := by
  unfold Agent.takeHold
  split <;> rfl

theorem record_giveBack (i : Nat) (afterSent : Option Nat) :
    (agent.giveBack i afterSent).record = agent.record := by
  cases afterSent <;> rfl

/-- After a call on the commitments. -/
theorem Proceeds.of_pending {pending : PendingCommitments}
    (h : Proceeds options { agent with pending := pending } next) :
    Proceeds options agent next := ⟨h.discreet, h.cids, h.grows, h.within, h.checked⟩

/-- A reply that hands out nothing. -/
theorem Proceeds.still (h : agent.Discreet) (hsame : agent'.record = agent.record)
    (hwithin : phase.within agent'.computed.length) (hchecked : phase.checked options agent') :
    Proceeds options agent (agent', phase) := by
  have hdiscreet := h.of_record hsame
  simp only [Agent.record, Prod.mk.injEq] at hsame
  obtain ⟨hcomputed, -, -, -, hcids⟩ := hsame
  exact ⟨hdiscreet, hcids, Nat.le_of_eq (congrArg List.length hcomputed.symm), hwithin, hchecked⟩

theorem Proceeds.replies (h : agent.Discreet) (hsame : agent'.record = agent.record)
    {from_ : JsString} {response : AgentResponse} :
    Proceeds options agent (agent', replies from_ response) :=
  .still h hsame trivial trivial

theorem Proceeds.servingFailed (h : agent.Discreet) (hsame : agent'.record = agent.record)
    {from_ : JsString} {cause : Cause} :
    Proceeds options agent (agent', servingFailed options from_ cause) := by
  cases cause <;> exact .still h hsame trivial trivial

variable {computation : Option Nat}

/-- A computed value goes out. -/
theorem Agent.Discreet.gives (h : agent.Discreet) (to_ : JsString)
    (hwithin : ∀ n, computation = some n → n < agent.computed.length) :
    (agent.gives to_ computation).Discreet := by
  cases computation with
  | none => exact h
  | some n =>
    refine { h with given := ?_ }
    intro e he
    rcases List.mem_append.mp he with he | he
    · exact h.given e he
    · rw [List.mem_singleton.mp he]
      exact hwithin n rfl

theorem Proceeds.gives (h : agent.Discreet) (hsame : agent'.record = agent.record) {to_ : JsString}
    (hwithin : ∀ n, computation = some n → n < agent.computed.length) (hphase : ∀ n, phase.within n)
    (hchecked : ∀ agent, phase.checked options agent) :
    Proceeds options agent (agent'.gives to_ computation, phase) := by
  have hcomputed : agent'.computed = agent.computed := congrArg Prod.fst hsame
  have hdiscreet : (agent'.gives to_ computation).Discreet := by
    apply (h.of_record hsame).gives
    rw [hcomputed]
    exact hwithin
  have hcids : agent'.sovereignCids = agent.sovereignCids :=
    congrArg (fun record => record.2.2.2.2) hsame
  cases computation with
  | none =>
    exact ⟨hdiscreet, hcids, Nat.le_of_eq (congrArg List.length hcomputed.symm), hphase _,
      hchecked _⟩
  | some n =>
    exact ⟨hdiscreet, hcids, Nat.le_of_eq (congrArg List.length hcomputed.symm), hphase _,
      hchecked _⟩

/-- Something runs. -/
theorem Agent.Discreet.compute (h : agent.Discreet) {inputs : List Cid}
    {label : Option Sovereignty} {verdict : Verdict}
    (hproper : (∃ cid ∈ inputs, agent.knows options cid = true) →
      label = some .sovereign ∧ verdict = .admits) :
    (agent.compute options inputs label verdict).Discreet := by
  have hlength : agent.computed.length
      ≤ (agent.compute options inputs label verdict).computed.length := by
    show _ ≤ (agent.computed ++ [_]).length
    rw [List.length_append]
    omega
  constructor
  · intro computation hin
    rcases List.mem_append.mp hin with hin | hin
    · exact h.proper computation hin
    · rw [List.mem_singleton.mp hin]
      intro hrecorded
      apply hproper
      obtain ⟨cid, hcid⟩ := List.exists_mem_of_ne_nil _ hrecorded
      obtain ⟨hinput, hknown⟩ := List.mem_filter.mp hcid
      exact ⟨cid, hinput, hknown⟩
  · exact fun e he => Source.fine_mono hlength (h.given e he)
  · exact fun e he => Nat.lt_of_lt_of_le (h.made e he) hlength
  · exact fun e he => Nat.lt_of_lt_of_le (h.pending e he) hlength

theorem Proceeds.computes (h : agent.Discreet) {inputs : List Cid} {label : Option Sovereignty}
    {verdict : Verdict} (hproper : (∃ cid ∈ inputs, agent.knows options cid = true) →
      label = some .sovereign ∧ verdict = .admits)
    (hwithin : phase.within (agent.computed.length + 1))
    (hchecked : ∀ agent, phase.checked options agent) :
    Proceeds options agent (agent.compute options inputs label verdict, phase) := by
  have hlength : (agent.compute options inputs label verdict).computed.length
      = agent.computed.length + 1 := by
    show (agent.computed ++ [_]).length = _
    rw [List.length_append]
    rfl
  refine ⟨h.compute hproper, rfl, ?_, ?_, hchecked _⟩
  · show _ ≤ (agent.compute options inputs label verdict).computed.length
    omega
  · show phase.within (agent.compute options inputs label verdict).computed.length
    rw [hlength]
    exact hwithin

/-! ## Dispatches -/

variable {work : Work}

theorem execReply_proceeds (h : agent.Discreet) (hold : Option Nat)
    (outcome : ExecutionOutcome CanonicalValue)
    (hwithin : ∀ n, computation = some n → n < agent.computed.length) :
    Proceeds options agent (execReply options agent work hold computation outcome) := by
  unfold execReply
  split
  · split
    · next hscan =>
      have hrecord := record_of_scan hscan
      exact .gives h hrecord hwithin (fun _ => trivial) (fun _ => trivial)
    · next hscan =>
      have hrecord := record_of_scan hscan
      exact .still h hrecord trivial trivial
  · exact .gives h rfl hwithin (fun _ => trivial) (fun _ => trivial)

theorem workFails_proceeds (h : agent.Discreet) (hold : Option Nat) (reason : JsString)
    (hwithin : ∀ n, computation = some n → n < agent.computed.length) :
    Proceeds options agent (workFails options agent work hold computation reason) := by
  unfold workFails
  split
  · exact .gives h rfl hwithin (fun _ => trivial) (fun _ => trivial)
  · exact execReply_proceeds h hold _ hwithin

/-- Giving the slot back leaves the record alone. -/
theorem Agent.Discreet.releaseSlot (h : agent.Discreet) (key : JsString) :
    (agent.releaseSlot key).Discreet := h.of_record rfl

theorem workThrows_proceeds (h : agent.Discreet) (hold : Option Nat) (cause : Cause)
    (hwithin : ∀ n, computation = some n → n < agent.computed.length) :
    Proceeds options agent (workThrows options agent work hold computation cause) := by
  cases cause with
  | described text =>
    exact (workFails_proceeds (h.releaseSlot (slotKey work.task)) hold _ hwithin).of_record rfl
  | undescribable text =>
    show Proceeds options agent (agent.releaseSlot (slotKey work.task),
      servingFailed options work.from_ (.described text))
    apply Proceeds.servingFailed h
    rfl

theorem runWork_proceeds (h : agent.Discreet) (hold : Option Nat) (calls : Calls)
    (hknown : work.task.label ≠ .sovereign → agent.knows options work.task.inputCid = false) :
    Proceeds options agent (runWork options agent work hold calls) := by
  have hnothing : ∀ n, (none : Option Nat) = some n → n < agent.computed.length := by
    rintro n ⟨⟩
  unfold runWork
  split
  · exact workThrows_proceeds h hold _ hnothing
  · exact (workFails_proceeds (h.releaseSlot (slotKey work.task)) hold _ hnothing).of_record rfl
  · split
    · exact workThrows_proceeds h hold _ hnothing
    · apply Proceeds.computes h
      · rintro ⟨cid, hcid, hrecorded⟩
        rw [List.mem_singleton.mp hcid] at hrecorded
        refine ⟨?_, rfl⟩
        -- an unlabelled dispatch over a recorded input does not get here
        by_contra hlabel
        have hpublic : work.task.label ≠ .sovereign := fun heq => hlabel (congrArg some heq)
        rw [hknown hpublic] at hrecorded
        cases hrecorded
      · exact Nat.lt_succ_self _
      · exact fun _ => trivial

theorem workRan_proceeds (h : agent.Discreet) (hold : Option Nat) {computation : Nat}
    (ran : Ran) (hwithin : computation < agent.computed.length) :
    Proceeds options agent (workRan options agent work hold computation ran) := by
  have hcomputed : ∀ n, some computation = some n → n < agent.computed.length := by
    rintro n ⟨⟩
    exact hwithin
  have hreleased := h.releaseSlot (slotKey work.task)
  cases ran with
  | ok output cost attestation =>
    unfold workRan
    dsimp only
    split
    · apply Proceeds.still h
      · rfl
      · exact hwithin
      · trivial
    · exact (execReply_proceeds hreleased hold _ hcomputed).of_record rfl
  | failed reason => exact (workFails_proceeds hreleased hold _ hcomputed).of_record rfl
  | threw cause => exact workThrows_proceeds h hold cause hcomputed

theorem workHeld_proceeds (h : agent.Discreet) (i : Nat) (found : Found) (calls : Calls)
    (hchecked : (Phase.holding work).checked options agent) :
    Proceeds options agent (workHeld options agent i work found calls) := by
  unfold workHeld
  split
  · exact runWork_proceeds h none calls hchecked
  · exact runWork_proceeds h none calls hchecked
  · next bytes hlabel =>
    have hrecord := @record_takeHold agent i work.task.inputCid bytes
    exact (runWork_proceeds (h.of_record hrecord) _ calls
      (fun hpublic => absurd hlabel hpublic)).of_record hrecord
  · exact .servingFailed h rfl

theorem workSealed_proceeds (h : agent.Discreet) (handle : JsString) (output : CanonicalValue)
    (cost : Cost) (attestation : AttestedResult) {computation : Nat} (nonce : Bytes) (now : ℚ)
    (hwithin : computation < agent.computed.length) :
    Proceeds options agent (workSealed p options agent work handle output cost attestation
      computation nonce now) := by
  unfold workSealed
  split
  · exact .replies h rfl
  · refine ⟨{ h with pending := ?_ }, rfl, Nat.le_refl _, trivial, trivial⟩
    intro e he
    obtain rfl | he := PendingCommitments.mem_file he
    · exact hwithin
    · exact h.pending e he

/-- The names claimed and the answers left are among those there were. -/
theorem Agent.Discreet.of_pending (h : agent.Discreet) {pending : PendingCommitments}
    (hmem : ∀ e ∈ pending.entries.entries, e ∈ agent.pending.entries.entries) :
    ({ agent with pending := pending } : Agent).Discreet :=
  { h with pending := fun e he => h.pending e (hmem e he) }

theorem dispatch_proceeds (h : agent.Discreet) (now : ℚ) (calls : Calls) :
    Proceeds options agent (dispatch p options agent work now calls) := by
  unfold dispatch
  split
  · exact .replies h rfl
  · split
    · exact .replies h rfl
    · next hlabelled =>
      have hknown : work.task.label ≠ .sovereign →
          agent.knows options work.task.inputCid = false := by
        intro hpublic
        rw [Bool.eq_false_iff]
        exact fun hrecorded => hlabelled ⟨hpublic, hrecorded⟩
      split
      · next reason pending hreserved =>
        obtain ⟨handle, -, hreserve⟩ := Option.map_eq_some_iff.mp hreserved
        refine ⟨h.of_pending ?_, rfl, Nat.le_refl _, trivial, trivial⟩
        intro e he
        have hreserved : pending = (agent.pending.reserve handle now).2 := by rw [hreserve]
        rw [hreserved] at he
        exact PendingCommitments.mem_reserve he
      · dsimp only
        have hreserved : ∀ e ∈ (((work.handle.map fun handle =>
            agent.pending.reserve handle now).map Prod.snd).getD
              agent.pending).entries.entries, e ∈ agent.pending.entries.entries := by
          intro e he
          cases hhandle : work.handle with
          | none =>
            rw [hhandle] at he
            exact he
          | some handle =>
            rw [hhandle] at he
            exact PendingCommitments.mem_reserve he
        have hpending := h.of_pending hreserved
        split
        · next refused htake =>
          have hrecord := record_of_takeSlot htake
          exact ⟨hpending.of_record hrecord, congrArg (fun record => record.2.2.2.2) hrecord,
            Nat.le_of_eq (congrArg (fun record => record.1.length) hrecord.symm), trivial,
            trivial⟩
        · next taken htake =>
          have hrecord := record_of_takeSlot htake
          have hdiscreet := hpending.of_record hrecord
          have hcids : taken.sovereignCids = agent.sovereignCids :=
            congrArg (fun record => record.2.2.2.2) hrecord
          have hlength : agent.computed.length = taken.computed.length :=
            congrArg (fun record => record.1.length) hrecord.symm
          have hstill : taken.knows options work.task.inputCid
              = agent.knows options work.task.inputCid := by
            unfold Agent.knows
            rw [hcids]
          rw [← hstill] at hknown
          split
          · exact ⟨hdiscreet, hcids, Nat.le_of_eq hlength, trivial, hknown⟩
          · have hrun := @runWork_proceeds options taken work hdiscreet none calls hknown
            exact { hrun with
              cids := hrun.cids.trans hcids
              grows := Nat.le_trans (Nat.le_of_eq hlength) hrun.grows }

/-! ## Combines -/

variable {combine : CombineWork}

theorem combineFails_proceeds (h : agent.Discreet) (reason : JsString) :
    Proceeds options agent (combineFails agent combine reason) := by
  apply Proceeds.replies h
  rfl

theorem combineThrows_proceeds (h : agent.Discreet) (cause : Cause) :
    Proceeds options agent (combineThrows options agent combine cause) := by
  apply Proceeds.servingFailed h
  rfl

/-- The merge takes place where no input is left to read, and then none is recorded. -/
theorem combineReads_proceeds (h : agent.Discreet) (inputs : List CanonicalValue)
    (hunrecorded : ¬ inputs.length < combine.inputCids.length →
      ∀ cid ∈ combine.inputCids, agent.knows options cid = false) :
    Proceeds options agent (combineReads options agent combine inputs) := by
  unfold combineReads
  split
  · exact .still h rfl trivial trivial
  · next hlast =>
    apply Proceeds.computes h
    · rintro ⟨cid, hcid, hrecorded⟩
      rw [hunrecorded hlast cid hcid] at hrecorded
      cases hrecorded
    · exact Nat.lt_succ_self _
    · exact fun _ => trivial

theorem combineInput_proceeds (h : agent.Discreet) (inputs : List CanonicalValue) (cid : Cid)
    (found : Found)
    (hunrecorded : ∀ bytes, found = .found bytes → bytes.length ≤ MAX_PARTIAL_BYTES →
      options.decode bytes ≠ none → ¬ inputs.length + 1 < combine.inputCids.length →
      ∀ cid ∈ combine.inputCids, agent.knows options cid = false) :
    Proceeds options agent (combineInput options agent combine inputs cid found) := by
  cases found with
  | rejected cause => exact combineThrows_proceeds h cause
  | missing => exact combineFails_proceeds h _
  | found bytes =>
    unfold combineInput
    dsimp only
    split
    · exact combineFails_proceeds h _
    · next hsize =>
      split
      · exact combineFails_proceeds h _
      · next decoded hdecode =>
        apply combineReads_proceeds h
        intro hlast
        rw [List.length_append] at hlast
        apply hunrecorded bytes rfl (Nat.le_of_not_lt hsize) _ hlast
        rw [hdecode]
        exact Option.some_ne_none decoded

theorem combineHashed_proceeds (h : agent.Discreet) (merged : CanonicalValue)
    {computation : Nat} (hwithin : computation < agent.computed.length) :
    Proceeds options agent (combineHashed p agent combine merged computation) := by
  unfold combineHashed
  split
  · exact combineFails_proceeds h _
  · refine ⟨{ h with made := ?_ }, rfl, Nat.le_refl _, hwithin, trivial⟩
    intro e he
    rcases List.mem_append.mp he with he | he
    · exact h.made e he
    · rw [List.mem_singleton.mp he]
      exact hwithin

theorem combineStored_proceeds (h : agent.Discreet) (resultCid : Cid) {computation : Nat}
    (hwithin : computation < agent.computed.length) :
    Proceeds options agent (combineStored options agent combine resultCid computation) := by
  apply Proceeds.gives h
  · rfl
  · rintro n ⟨⟩
    exact hwithin
  · exact fun _ => trivial
  · exact fun _ => trivial

theorem runCombine_proceeds (h : agent.Discreet) (verdict : Verdict) :
    Proceeds options agent (runCombine p options agent combine verdict) := by
  unfold runCombine
  split
  · next htake => exact .replies h (record_of_takeSlot htake)
  · next taken htake =>
    have hrecord := record_of_takeSlot htake
    have hdiscreet := h.of_record hrecord
    have hadmitted : Proceeds options taken (combineAdmitted options taken combine verdict) := by
      cases verdict with
      | admits =>
        apply combineReads_proceeds hdiscreet
        -- only a combine of nothing merges at once
        intro hlast cid hcid
        have hnone := List.length_pos_of_mem hcid
        exact absurd hnone hlast
      | refuses reason => exact combineFails_proceeds hdiscreet _
      | threw cause => exact combineThrows_proceeds hdiscreet cause
    exact hadmitted.of_record hrecord

/-! ## Blocks and reveals -/

/-- A block goes out only where the durable set does not have its address. -/
theorem blockAnswer_proceeds (h : agent.Discreet) (from_ : JsString) (cid : Cid)
    (bytes : Option Bytes) :
    Proceeds options agent (blockAnswer options agent from_ cid bytes) := by
  unfold blockAnswer
  split
  · exact .replies h rfl
  · next hknown =>
    split
    · next hscan =>
      have hrecord := record_of_scan hscan
      exact .replies h hrecord
    · next scanned hscan =>
      have hrecord := record_of_scan hscan
      have hdiscreet := h.of_record hrecord
      have hcids : scanned.sovereignCids = agent.sovereignCids :=
        congrArg (fun record => record.2.2.2.2) hrecord
      refine ⟨{ hdiscreet with given := ?_ }, hcids,
        Nat.le_of_eq (congrArg (fun record => record.1.length) hrecord.symm), trivial,
        trivial⟩
      intro e he
      rcases List.mem_append.mp he with he | he
      · exact hdiscreet.given e he
      · rw [List.mem_singleton.mp he]
        show scanned.knows options cid = false
        unfold Agent.knows at hknown ⊢
        rw [hcids]
        exact Bool.eq_false_iff.mpr hknown

theorem revealAnswer_proceeds (h : agent.Discreet) (from_ handle : JsString) (now : ℚ) :
    Proceeds options agent (revealAnswer options agent from_ handle now) := by
  unfold revealAnswer
  split
  · next reason pending htake =>
    have hpending := h.of_pending (PendingCommitments.mem_take htake).1
    split
    · next hscan => exact .of_pending (.replies hpending (record_of_scan hscan))
    · next hscan => exact .of_pending (.replies hpending (record_of_scan hscan))
  · next entry pending htake =>
    have hpending := h.of_pending (PendingCommitments.mem_take htake).1
    have hwithin : entry.computation < agent.computed.length :=
      h.pending _ ((PendingCommitments.mem_take htake).2 entry rfl)
    dsimp only
    split
    · next hscan =>
      apply Proceeds.of_pending
      apply Proceeds.gives hpending (record_of_scan hscan)
      · rintro n ⟨⟩
        exact hwithin
      · exact fun _ => trivial
      · exact fun _ => trivial
    · next hscan => exact .of_pending (.replies hpending (record_of_scan hscan))

theorem answer_proceeds (h : agent.Discreet) (from_ : JsString) (request : Option AgentRequest)
    (pause : Pause) (now : ℚ) (handle : JsString) (calls : Calls) :
    Proceeds options agent (answer p options agent from_ request pause now handle calls) := by
  cases request with
  | none => exact .replies h rfl
  | some request =>
    have hserve : Proceeds options agent
        (serve p options agent from_ now handle calls request) := by
      cases request with
      | exec task => exact dispatch_proceeds h now calls
      | commit task => exact dispatch_proceeds h now calls
      | reveal handle => exact revealAnswer_proceeds h ..
      | block cid => exact .still h rfl trivial trivial
      | offer shardId => exact .replies h rfl
      | combine combineId inputCids level => exact runCombine_proceeds h _
      | other request => exact .still h rfl trivial trivial
    unfold answer
    dsimp only
    split
    · cases pause with
      | running => exact hserve
      | stopped => exact .replies h rfl
      | broken described => exact .replies h rfl
      | threw cause => exact .servingFailed h rfl
    · exact hserve

theorem sendReply_proceeds (h : agent.Discreet) (i id : Nat) (to_ : JsString)
    (body : ReplyBody) (afterSent : Option Nat) :
    Proceeds options agent (sendReply options agent i id to_ body afterSent) := by
  have hrecord := @record_giveBack agent i afterSent
  unfold sendReply
  split
  · exact .still h hrecord trivial trivial
  · split
    · exact .still h hrecord trivial trivial
    · refine .still h ?_ trivial trivial
      rfl

/-! ## One action, and all of them -/

/-- No combine merges an input that is in the durable set, and no address enters the
    set while an unlabelled dispatch that names it has been checked and does not run
    yet. -/
def MergesUnrecorded (options : AgentOptions) (c : Config Nat Agent Phase) :
    Event Nat Action Outside → Prop
  | .own i (.got (.found bytes)) => ∀ work inputs, c.locals i = .combining work inputs →
      bytes.length ≤ MAX_PARTIAL_BYTES → options.decode bytes ≠ none →
      ¬ inputs.length + 1 < work.inputCids.length →
      ∀ cid ∈ work.inputCids, c.shared.knows options cid = false
  | .alone (.record cid) => ∀ i work, c.locals i = .holding work →
      work.task.label ≠ .sovereign → work.task.inputCid ≠ cid
  | _ => True

variable {c : Config Nat Agent Phase}

theorem stepRequest_proceeds {i : Nat} {action : Action}
    (hguard : MergesUnrecorded options c (.own i action)) (h : c.shared.Discreet)
    (hwithin : (c.locals i).within c.shared.computed.length)
    (hchecked : (c.locals i).checked options c.shared)
    (hstep : stepRequest p options i action c.shared (c.locals i) = some next) :
    Proceeds options c.shared next := by
  revert hguard hwithin hchecked hstep
  cases hphase : c.locals i with
  | absent =>
    cases action with
    | arrive from_ request pause now handle calls =>
      rintro - - - ⟨⟩
      exact answer_proceeds h ..
    | _ => rintro - - - ⟨⟩
  | reading from_ cid =>
    cases action with
    | read found =>
      cases found with
      | found bytes =>
        rintro - - - ⟨⟩
        exact blockAnswer_proceeds h ..
      | missing =>
        rintro - - - ⟨⟩
        exact blockAnswer_proceeds h ..
      | rejected cause =>
        rintro - - - ⟨⟩
        exact .servingFailed h rfl
    | _ => rintro - - - ⟨⟩
  | looking from_ request =>
    cases action with
    | looked answer =>
      cases answer with
      | ok value =>
        rintro - - - ⟨⟩
        exact .replies h rfl
      | error cause =>
        rintro - - - ⟨⟩
        exact .servingFailed h rfl
    | _ => rintro - - - ⟨⟩
  | holding work =>
    cases action with
    | held found calls =>
      rintro - - hchecked ⟨⟩
      exact workHeld_proceeds h i found calls hchecked
    | _ => rintro - - - ⟨⟩
  | executing work hold computation =>
    cases action with
    | executed ran =>
      rintro - hwithin - ⟨⟩
      exact workRan_proceeds h hold ran hwithin
    | _ => rintro - - - ⟨⟩
  | sealing work handle output cost attestation computation =>
    cases action with
    | digested failure nonce now =>
      cases failure with
      | some cause =>
        rintro - - - ⟨⟩
        exact .servingFailed h rfl
      | none =>
        rintro - hwithin - ⟨⟩
        exact workSealed_proceeds h handle output cost attestation nonce now hwithin
    | _ => rintro - - - ⟨⟩
  | combining work inputs =>
    cases action with
    | got found =>
      intro hguard _ _ hstep
      simp only [stepRequest] at hstep
      split at hstep
      · cases hstep
      · next cid _ =>
        cases hstep
        apply combineInput_proceeds h
        rintro bytes rfl
        exact hguard work inputs hphase
    | _ => rintro - - - ⟨⟩
  | merging work merged computation =>
    cases action with
    | hashed failure =>
      cases failure with
      | some cause =>
        rintro - - - ⟨⟩
        exact combineThrows_proceeds h cause
      | none =>
        rintro - hwithin - ⟨⟩
        exact combineHashed_proceeds h merged hwithin
    | _ => rintro - - - ⟨⟩
  | storing work resultCid computation =>
    cases action with
    | stored failure =>
      cases failure with
      | some cause =>
        rintro - - - ⟨⟩
        exact combineThrows_proceeds h cause
      | none =>
        rintro - hwithin - ⟨⟩
        exact combineStored_proceeds h resultCid hwithin
    | _ => rintro - - - ⟨⟩
  | answered to_ body hold =>
    cases action with
    | reply id =>
      rintro - - - ⟨⟩
      exact sendReply_proceeds h ..
    | _ => rintro - - - ⟨⟩
  | sending hold =>
    cases action with
    | sent =>
      rintro - - - ⟨⟩
      exact .still h (record_giveBack i hold) trivial trivial
    | _ => rintro - - - ⟨⟩
  | done fate => cases action <;> rintro - - - ⟨⟩

/-- The record is in order, and so is every request. -/
structure InOrder (options : AgentOptions) (c : Config Nat Agent Phase) : Prop where
  discreet : c.shared.Discreet
  within : ∀ i, (c.locals i).within c.shared.computed.length
  checked : ∀ i, (c.locals i).checked options c.shared

theorem inOrder_start : InOrder options options.start := by
  refine ⟨?_, fun _ => trivial, fun _ => trivial⟩
  constructor
  · exact List.forall_mem_nil _
  · exact List.forall_mem_nil _
  · exact List.forall_mem_nil _
  · exact List.forall_mem_nil _

theorem Phase.checked_of_cids (hcids : agent'.sovereignCids = agent.sovereignCids)
    (h : phase.checked options agent) : phase.checked options agent' := by
  cases phase with
  | holding work =>
    intro hpublic
    unfold Agent.knows
    rw [hcids]
    exact h hpublic
  | _ => trivial

theorem InOrder.proceeds {i : Nat} (h : InOrder options c)
    (hproceeds : Proceeds options c.shared (agent, phase)) :
    InOrder options ⟨agent, Function.update c.locals i phase⟩ := by
  refine ⟨hproceeds.discreet, ?_, ?_⟩
  · intro j
    show (Function.update c.locals i phase j).within agent.computed.length
    by_cases hji : j = i
    · rw [hji, Function.update_self]
      exact hproceeds.within
    · rw [Function.update_of_ne hji]
      exact Phase.within_mono hproceeds.grows (h.within j)
  · intro j
    show (Function.update c.locals i phase j).checked options agent
    by_cases hji : j = i
    · rw [hji, Function.update_self]
      exact hproceeds.checked
    · rw [Function.update_of_ne hji]
      exact Phase.checked_of_cids hproceeds.cids (h.checked j)

theorem InOrder.outside {action : Outside} (h : InOrder options c)
    (hguard : MergesUnrecorded options c (.alone action))
    (hstep : stepOutside options action c.shared = some agent) :
    InOrder options ⟨agent, c.locals⟩ := by
  have hquiet : agent.record = c.shared.record → InOrder options ⟨agent, c.locals⟩ := by
    intro hrecord
    have hcomputed : agent.computed = c.shared.computed := congrArg Prod.fst hrecord
    have hcids : agent.sovereignCids = c.shared.sovereignCids :=
      congrArg (fun record => record.2.2.2.2) hrecord
    refine ⟨h.discreet.of_record hrecord, ?_, fun i => Phase.checked_of_cids hcids (h.checked i)⟩
    show ∀ i, (c.locals i).within agent.computed.length
    rw [hcomputed]
    exact h.within
  cases action with
  | close =>
    cases hstep
    exact hquiet rfl
  | record cid =>
    simp only [stepOutside] at hstep
    split at hstep
    · cases hstep
      refine ⟨{ h.discreet with }, h.within, ?_⟩
      intro i
      show (c.locals i).checked options _
      cases hphase : c.locals i with
      | holding work =>
        intro hpublic
        have hbefore := h.checked i
        rw [hphase] at hbefore
        have hunknown := hbefore hpublic
        have hother : work.task.inputCid.toText ≠ cid.toText := fun heq =>
          hguard i work hphase hpublic (Cid.toText_injective heq)
        unfold Agent.knows at hunknown ⊢
        simp only [Bool.and_eq_false_iff, decide_eq_false_iff_not, List.mem_append,
          List.mem_singleton, not_or] at hunknown ⊢
        obtain hoff | hout := hunknown
        · exact Or.inl hoff
        · exact Or.inr ⟨hout, hother⟩
      | _ => trivial
    · cases hstep
  | govern dutyCycle =>
    simp only [stepOutside, Option.bind_eq_some_iff, Option.map_eq_some_iff] at hstep
    obtain ⟨cap, -, governed, -, rfl⟩ := hstep
    exact hquiet rfl
  | calls call =>
    simp only [stepOutside] at hstep
    split at hstep
    · cases hstep
      exact hquiet rfl
    · cases hstep

theorem inOrder (h : (serveAgent p options).Reaches (MergesUnrecorded options) options.start c) :
    InOrder options c := by
  apply h.invariant inOrder_start
  intro c e c' hguard horder hstep
  obtain ⟨i, action, agent, phase, rfl, hown, rfl⟩ | ⟨action, agent, rfl, halone, rfl⟩ :=
    System.step_cases hstep
  · exact horder.proceeds
      (stepRequest_proceeds hguard horder.discreet (horder.within i) (horder.checked i) hown)
  · exact horder.outside hguard halone

/-! ## Recorded bytes meet no unlabelled computation -/

/-- The value comes from that computation: it is its result, or it is what the store
    has under an address that one of its merges was stored under, or it was computed
    from such a value. -/
inductive Derives (agent : Agent) : Source → Nat → Prop
  | result (n : Nat) : Derives agent (.computed n) n
  | block {cid : Cid} {recorded : Bool} {n : Nat} (made : (cid, n) ∈ agent.made) :
      Derives agent (.stored cid recorded) n
  | input {source : Source} {m n : Nat} {computation : Computation} {cid : Cid}
      (first : Derives agent source m) (ran : agent.computed[m]? = some computation)
      (uses : cid ∈ computation.inputs) (made : (cid, n) ∈ agent.made) :
      Derives agent source n

structure RecordedStaysHome (c : Config Nat Agent Phase) : Prop where
  /-- What ran over recorded bytes was labelled sovereign and admitted. -/
  admitted : ∀ computation ∈ c.shared.computed, computation.recorded ≠ [] →
    computation.label = some .sovereign ∧ computation.verdict = .admits
  blocks : ∀ to_ cid recorded, (to_, .stored cid recorded) ∈ c.shared.given →
    recorded = false
  /-- What a peer gets comes from computations that were, wherever they ran over
      recorded bytes. -/
  derived : ∀ to_ source n, (to_, source) ∈ c.shared.given → Derives c.shared source n →
    ∃ computation, c.shared.computed[n]? = some computation ∧
      (computation.recorded ≠ [] →
        computation.label = some .sovereign ∧ computation.verdict = .admits)

theorem Agent.Discreet.derives {source : Source} (h : agent.Discreet)
    (hderives : Derives agent source n) (hfine : source.fine agent.computed.length) :
    n < agent.computed.length := by
  cases hderives with
  | result => exact hfine
  | block made => exact h.made _ made
  | input first ran uses made => exact h.made _ made

/-- A combine over the plain address, and a request for what it stored. -/
def mergingRun : List (Event Nat Action Outside) :=
  [.own 0 (asks (.combine (js "c") [plainCid] 1)), .own 0 (.got (.found [1])),
    .own 0 (.hashed none), .own 0 (.stored none), .own 1 (asks (.block plainCid)),
    .own 1 (.read (.found [1]))]

/-- An address that is not the plain one. -/
def otherCid : Cid := ⟨js "d", by decide, by decide⟩

/-- What the guard asks of such a run, computed. -/
def mergesQuietly (c : Config Nat Agent Phase) : Event Nat Action Outside → Bool
  | .own i (.got _) =>
    match c.locals i with
    | .combining work _ => work.inputCids.all fun cid => !c.shared.knows plainOptions cid
    | _ => true
  | .alone (.record _) => false
  | _ => true

theorem mergesUnrecorded_of_quietly {e : Event Nat Action Outside} (h : mergesQuietly c e = true) :
    MergesUnrecorded plainOptions c e := by
  cases e with
  | own i action =>
    cases action with
    | got found =>
      cases found with
      | found bytes =>
        intro work inputs hphase _ _ _ cid hcid
        simp only [mergesQuietly, hphase] at h
        have hunknown := List.all_eq_true.mp h cid hcid
        rw [Bool.not_eq_true'] at hunknown
        exact hunknown
      | _ => trivial
    | _ => trivial
  | alone action =>
    cases action with
    | record cid => cases h
    | _ => trivial

end O2Fabric.Net
