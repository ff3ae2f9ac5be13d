/-
  O2Fabric.Net.Agent.Step

  `serveAgent` and the replying half of the RPC endpoint, from one `await` to the
  next.  `answer` is what runs when a request arrives; the other functions take it
  from the moment one awaited call has settled.

  A slot is taken before the first `await` of an `exec`, a `commit` or a `combine`
  and given back in a `finally`.  The sovereign hold is taken between the two, and
  the endpoint gives it back when the reply has settled.
-/

import O2Fabric.Net.Agent.State

namespace O2Fabric.Net

open Job Threads

/-- The largest partial a combine merges. -/
def MAX_PARTIAL_BYTES : Nat := 9216

variable (p : Platform) (options : AgentOptions) (agent : Agent)

/-! ## Shared pieces -/

/-- Take a slot; the reason of a refusal. -/
def Agent.takeSlot (key : JsString) : Option JsString × Agent :=
  match agent.capacity with
  | none => (none, agent)
  | some cap =>
    match cap.offer p ⟨key, options.nodeId⟩ with
    | (.accepted _, cap) => (none, { agent with capacity := some cap })
    | (.refused reason _ _, _) => (some reason, agent)

/-- `capacity?.release(key)`. -/
def Agent.releaseSlot (key : JsString) : Agent :=
  { agent with capacity := agent.capacity.map fun cap => cap.release key }

/-- The address is in the durable set of a node that keeps one. -/
def Agent.knows (cid : Cid) : Bool :=
  options.taps && options.remembers && decide (cid.toText ∈ agent.sovereignCids)

/-- Scan a candidate reply for registered payloads before it is handed to the exit. -/
def refusedReason (to_ : JsString) (body : ReplyBody) : Option JsString × Agent :=
  match agent.tap with
  | none => (none, agent)
  | some tap =>
    if tap.guard.registrations = [] then (none, agent)
    else
      match options.encodeBody body with
      | none => (none, agent)
      | some bytes =>
        ((tap.guard.refuse to_ bytes).1.map fun violated =>
            js "egress refused: " ++ violated ++ js " on " ++ options.nodeId,
          { agent with tap := some (tap.after (.refuse to_ bytes)) })

/-- The handler threw.  Where the cause has no text the handler's own catch throws,
    and the endpoint's answers. -/
def servingFailed (from_ : JsString) : Cause → Phase
  | .described text =>
    .answered from_ (.response (.error
      (js "serving failed on " ++ options.nodeId ++ js ": " ++ text))) none
  | .undescribable text => .answered from_ (.failed text) none

/-- A plain reply. -/
def replies (from_ : JsString) (response : AgentResponse) : Phase :=
  .answered from_ (.response response) none

/-- The executor or the combiner starts, on inputs of which some may be recorded. -/
def Agent.compute (inputs : List Cid) (label : Option Sovereignty) (verdict : Verdict) : Agent :=
  { agent with computed := agent.computed ++
      [⟨inputs, inputs.filter fun cid => agent.knows options cid, label, verdict⟩] }

/-- A value goes out to a peer. -/
def Agent.gives (to_ : JsString) (computation : Option Nat) : Agent :=
  match computation with
  | none => agent
  | some n => { agent with given := agent.given ++ [(to_, .computed n)] }

/-! ## Pausing -/

/-- The kinds a paused node declines. -/
def declinedWhilePaused : AgentRequest → Bool
  | .exec _ | .commit _ | .combine .. | .offer _ => true
  | .reveal _ | .block _ | .other _ => false

def pausedRefusal : JsString :=
  js "paused: " ++ options.nodeId ++ js " is declining all work right now"

def pauseMisreported (described : JsString) : JsString :=
  js "pause control broken: " ++ options.nodeId ++ js "'s pause control answered " ++ described
    ++ js " rather than true or false, so this node cannot say whether it is paused"

/-- The refusal in the shape the asking branch would have used. -/
def pausedAnswer (request : AgentRequest) (reason : JsString) : AgentResponse :=
  match request with
  | .combine .. => .combine none reason .signedByNobody
  | .offer _ => .offer false reason (agent.capacity.map LocalCapacity.capacity) .decliningAllWork
  | _ => .error reason

/-! ## Blocks, offers and reveals -/

/-- The `block` branch, once the local tier has answered. -/
def blockAnswer (from_ : JsString) (cid : Cid) (bytes : Option Bytes) : Agent × Phase :=
  -- the durable set is asked first, and by address
  if agent.knows options cid then
    (agent, replies from_ (.error
      (js "egress refused: " ++ cid.toText ++ js " on " ++ options.nodeId)))
  else
    match refusedReason options agent from_ (.response (.block bytes)) with
    | (some violated, agent) => (agent, replies from_ (.error violated))
    | (none, agent) =>
      ({ agent with given := agent.given ++ [(from_, .stored cid (agent.knows options cid))] },
        replies from_ (.block bytes))

/-- The `offer` branch.  An offer is a question and reserves nothing. -/
def offerAnswer (shardId : JsString) : AgentResponse :=
  match agent.capacity with
  | none => .offer true [] none .decliningThisOffer
  | some cap =>
    match cap.would p ⟨shardId, options.nodeId⟩ with
    | .accepted capacity => .offer true [] capacity .decliningThisOffer
    | .refused reason capacity standing => .offer false reason capacity standing

/-- The `reveal` branch. -/
def revealAnswer (from_ handle : JsString) (now : ℚ) : Agent × Phase :=
  match agent.pending.take handle from_ now with
  | (.error reason, pending) =>
    match refusedReason options { agent with pending := pending } from_
        (.response (.reveal (.failed reason))) with
    | (none, agent) => (agent, replies from_ (.reveal (.failed reason)))
    | (some violated, agent) => (agent, replies from_ (.reveal (.failed violated)))
  | (.ok entry, pending) =>
    let outcome := .revealed entry.nonce entry.output entry.cost entry.attestation
    match refusedReason options { agent with pending := pending } from_
        (.response (.reveal outcome)) with
    | (none, agent) =>
      (agent.gives from_ (some entry.computation), replies from_ (.reveal outcome))
    | (some violated, agent) => (agent, replies from_ (.reveal (.failed violated)))

/-! ## Combines -/

/-- The reply of a combine that produced nothing, after its slot is given back. -/
def combineFails (work : CombineWork) (reason : JsString) : Agent × Phase :=
  (agent.releaseSlot (combineKey work.inputCids),
    replies work.from_ (.combine none reason .signedByNobody))

/-- A combine that threw, after its slot is given back. -/
def combineThrows (work : CombineWork) (cause : Cause) : Agent × Phase :=
  (agent.releaseSlot (combineKey work.inputCids), servingFailed options work.from_ cause)

/-- The head of the loop over the inputs: the next one is read, or all are merged. -/
def combineReads (work : CombineWork) (inputs : List CanonicalValue) : Agent × Phase :=
  if inputs.length < work.inputCids.length then (agent, .combining work inputs)
  else
    (agent.compute options work.inputCids none .admits,
      .merging work (options.combiner inputs) agent.computed.length)

/-- One turn of the loop, once the store has answered for `cid`. -/
def combineInput (work : CombineWork) (inputs : List CanonicalValue) (cid : Cid) :
    Found → Agent × Phase
  | .rejected cause => combineThrows options agent work cause
  | .missing =>
    combineFails agent work
      (js "combine input " ++ cid.toText ++ js " not held and not obtainable")
  | .found bytes =>
    if MAX_PARTIAL_BYTES < bytes.length then
      combineFails agent work
        (js "combine input " ++ cid.toText ++ js " is " ++ decimal bytes.length
          ++ js " bytes, over the " ++ decimal MAX_PARTIAL_BYTES ++ js " byte partial budget")
    else
      match options.decode bytes with
      | none =>
        combineFails agent work (js "combine input " ++ cid.toText ++ js " did not decode")
      | some decoded => combineReads options agent work (inputs ++ [decoded])

/-- The merged value is hashed; the store is given it. -/
def combineHashed (work : CombineWork) (merged : CanonicalValue) (computation : Nat) :
    Agent × Phase :=
  match p.canonicalCid merged with
  | .error error => combineFails agent work (js "combine result is not encodable: " ++ error)
  | .ok resultCid =>
    ({ agent with made := agent.made ++ [(resultCid, computation)] },
      .storing work resultCid computation)

def combineStored (work : CombineWork) (resultCid : Cid) (computation : Nat) : Agent × Phase :=
  ((agent.releaseSlot (combineKey work.inputCids)).gives work.from_ (some computation),
    replies work.from_ (.combine (some resultCid) [] (options.attest work.inputCids resultCid)))

/-- `combineAdmitted`: the authorizer is asked before any block is read. -/
def combineAdmitted (work : CombineWork) : Verdict → Agent × Phase
  | .threw cause => combineThrows options agent work cause
  | .refuses reason => combineFails agent work (js "unauthorized: " ++ reason)
  | .admits => combineReads options agent work []

def runCombine (work : CombineWork) (verdict : Verdict) : Agent × Phase :=
  match agent.takeSlot p options (combineKey work.inputCids) with
  | (some reason, agent) =>
    (agent, replies work.from_ (.combine none reason .signedByNobody))
  | (none, agent) => combineAdmitted options agent work verdict

/-! ## Dispatches -/

/-- The reply of an `exec`: scanned, replaced on a hit, and sent with the hold that
    is given back once it has settled. -/
def execReply (work : Work) (hold computation : Option Nat)
    (outcome : ExecutionOutcome CanonicalValue) : Agent × Phase :=
  if options.taps then
    match refusedReason options agent work.from_ (.response (.exec outcome)) with
    | (none, agent) =>
      (agent.gives work.from_ computation,
        .answered work.from_ (.response (.exec outcome)) hold)
    | (some violated, agent) =>
      (agent, .answered work.from_ (.response (.exec (.failed violated))) hold)
  else (agent.gives work.from_ computation, replies work.from_ (.exec outcome))

/-- A dispatch that came to nothing, and why. -/
def workFails (work : Work) (hold computation : Option Nat) (reason : JsString) : Agent × Phase :=
  match work.handle with
  | some _ =>
    (agent.gives work.from_ computation, replies work.from_ (.commit (.failed reason)))
  | none => execReply options agent work hold computation (.failed reason)

/-- The `catch` around the execution, then the `finally`.  A cause without a text
    leaves the handler, and no `afterSent` goes with it. -/
def workThrows (work : Work) (hold computation : Option Nat) (cause : Cause) : Agent × Phase :=
  let agent := agent.releaseSlot (slotKey work.task)
  match cause with
  | .described text =>
    workFails options agent work hold computation
      (js "execution failed on " ++ options.nodeId ++ js ": " ++ text)
  | .undescribable text => (agent, servingFailed options work.from_ (.described text))

/-- The execution of an admitted dispatch, up to the executor's call. -/
def runWork (work : Work) (hold : Option Nat) (calls : Calls) : Agent × Phase :=
  match calls.verdict with
  | .threw cause => workThrows options agent work hold none cause
  | .refuses reason =>
    workFails options (agent.releaseSlot (slotKey work.task)) work hold none
      (js "unauthorized: " ++ reason)
  | .admits =>
    match calls.listener with
    | some cause => workThrows options agent work hold none cause
    | none =>
      (agent.compute options [work.task.inputCid] (some work.task.label) .admits,
        .executing work hold agent.computed.length)

/-- The executor settled. -/
def workRan (work : Work) (hold : Option Nat) (computation : Nat) : Ran → Agent × Phase
  | .threw cause => workThrows options agent work hold (some computation) cause
  | .failed reason =>
    workFails options (agent.releaseSlot (slotKey work.task)) work hold (some computation)
      reason
  | .ok output cost attestation =>
    let agent := agent.releaseSlot (slotKey work.task)
    match work.handle with
    | some handle => (agent, .sealing work handle output cost attestation computation)
    | none =>
      execReply options agent work hold (some computation) (.ok output cost attestation)

/-- The answer of a `commit` is digested and filed; only the digest goes out. -/
def workSealed (work : Work) (handle : JsString) (output : CanonicalValue) (cost : Cost)
    (attestation : AttestedResult) (computation : Nat) (nonce : Bytes) (now : ℚ) :
    Agent × Phase :=
  match p.canonicalCid output with
  | .error error =>
    (agent, replies work.from_ (.commit (.failed
      (js "output not encodable on " ++ options.nodeId ++ js ": " ++ error))))
  | .ok resultCid =>
    ({ agent with
        pending := agent.pending.file handle
          ⟨work.from_, nonce, output, cost, attestation, now, computation⟩ },
      replies work.from_ (.commit (.committed
        (commitmentDigest p nonce work.task resultCid) handle)))

/-- `takeSovereignHold`, with the request that takes it. -/
def Agent.takeHold (i : Nat) (cid : Cid) (payload : Bytes) : Agent × Option Nat :=
  match agent.tap with
  | none => (agent, none)
  | some tap =>
    ({ agent with
        tap := some (tap.after (.guard cid.toText payload))
        takes := agent.takes ++ [(i, tap.holds.length)] },
      some tap.holds.length)

/-- The local store has answered for the hold of an admitted dispatch. -/
def workHeld (i : Nat) (work : Work) (found : Found) (calls : Calls) : Agent × Phase :=
  match work.task.label, found with
  | .pub, _ | .sovereign, .missing => runWork options agent work none calls
  | .sovereign, .found bytes =>
    let (agent, hold) := agent.takeHold i work.task.inputCid bytes
    runWork options agent work hold calls
  -- the read stands before the `try`: its rejection passes the `finally` by
  | .sovereign, .rejected cause => (agent, servingFailed options work.from_ cause)

/-- The `exec` and `commit` branch up to its first `await`; `handle` is the name
    a commitment draws. -/
def dispatch (work : Work) (now : ℚ) (calls : Calls) : Agent × Phase :=
  if work.handle.isSome ∧ work.task.label = .sovereign then
    (agent, replies work.from_ (.commit (.failed
      (js "commit refused: the commit-reveal ceremony runs on public shards only, and this task is labelled sovereign on "
        ++ options.nodeId))))
  else if work.task.label ≠ .sovereign ∧ agent.knows options work.task.inputCid then
    (agent, replies work.from_ (.error
      (js "egress refused: " ++ work.task.inputCid.toText ++ js " on " ++ options.nodeId
        ++ js " is sovereign, and this dispatch is labelled public")))
  else
    match work.handle.map fun handle => agent.pending.reserve handle now with
    | some (.error reason, pending) =>
      ({ agent with pending := pending }, replies work.from_ (.commit (.failed reason)))
    | reserved =>
      let agent := { agent with pending := (reserved.map Prod.snd).getD agent.pending }
      match agent.takeSlot p options (slotKey work.task) with
      | (some reason, agent) => (agent, replies work.from_ (.error reason))
      | (none, agent) =>
        if options.taps then (agent, .holding work)
        else runWork options agent work none calls

/-! ## A request arrives -/

/-- What the branches make of a request that is not declined. -/
def serve (from_ : JsString) (now : ℚ) (handle : JsString) (calls : Calls) :
    AgentRequest → Agent × Phase
  | .block cid => (agent, .reading from_ cid)
  | .other request => (agent, .looking from_ request)
  | .offer shardId => (agent, replies from_ (offerAnswer p options agent shardId))
  | .combine combineId inputCids level =>
    runCombine p options agent ⟨from_, combineId, inputCids, level⟩ calls.verdict
  | .reveal handle => revealAnswer options agent from_ handle now
  | .exec task => dispatch p options agent ⟨from_, task, none⟩ now calls
  | .commit task => dispatch p options agent ⟨from_, task, some handle⟩ now calls

/-- `none` is a body that is no request. -/
def answer (from_ : JsString) (request : Option AgentRequest) (pause : Pause) (now : ℚ)
    (handle : JsString) (calls : Calls) : Agent × Phase :=
  match request with
  | none => (agent, replies from_ (.error (js "malformed request")))
  | some request =>
    if options.pauses && declinedWhilePaused request then
      match pause with
      | .threw cause => (agent, servingFailed options from_ cause)
      | .broken described =>
        (agent, replies from_ (pausedAnswer agent request (pauseMisreported options described)))
      | .stopped =>
        (agent, replies from_ (pausedAnswer agent request (pausedRefusal options)))
      | .running => serve p options agent from_ now handle calls request
    else serve p options agent from_ now handle calls request

/-! ## The reply -/

/-- `afterSent?.()`. -/
def Agent.giveBack (i : Nat) (afterSent : Option Nat) : Agent :=
  match afterSent with
  | none => agent
  | some hold =>
    { agent with
      tap := agent.tap.map fun tap => tap.after (.release hold)
      releases := agent.releases ++ [(i, hold)] }

/-- The response frame, or a named refusal where the reply does not encode. -/
def encodeReply (id : Nat) (body : ReplyBody) : Option Bytes :=
  match options.encodeFrame id body with
  | .ok frame => some frame
  | .error message => (options.encodeFrame id (.failed (js "reply " ++ message))).toOption

/-- The endpoint's turn, once the handler has settled. -/
def sendReply (i id : Nat) (to_ : JsString) (body : ReplyBody) (afterSent : Option Nat) :
    Agent × Phase :=
  if agent.closed then (agent.giveBack i afterSent, .done .abandoned)
  else
    match encodeReply options id body with
    | none => (agent.giveBack i afterSent, .done .unencodable)
    | some frame =>
      ({ agent with
          tap := agent.tap.map fun tap => tap.after (.send to_ frame)
          frames := agent.frames ++ [i] }, .sending afterSent)

/-! ## The system -/

/-- What a request does next: it arrives, or what it awaits settles. -/
inductive Action
  | arrive (from_ : JsString) (request : Option AgentRequest) (pause : Pause) (now : ℚ)
      (handle : JsString) (calls : Calls)
  | read (found : Found)
  | looked (answer : Except Cause CanonicalValue)
  | held (found : Found) (calls : Calls)
  | executed (ran : Ran)
  | digested (failure : Option Cause) (nonce : Bytes) (now : ℚ)
  | got (found : Found)
  | hashed (failure : Option Cause)
  | stored (failure : Option Cause)
  | reply (id : Nat)
  | sent

/-- What happens to the node besides its requests. -/
inductive Outside
  | close
  /-- A block is written whose bytes are sovereign. -/
  | record (cid : Cid)
  | govern (dutyCycle : ℚ)
  /-- Somebody else calls the tap; the holds of requests are out of reach. -/
  | calls (call : TapCall)

/-- One action of the request `i`. -/
def stepRequest (i : Nat) : Action → Agent → Phase → Option (Agent × Phase)
  | .arrive from_ request pause now handle calls, agent, .absent =>
    some (answer p options agent from_ request pause now handle calls)
  | .read found, agent, .reading from_ cid =>
    match found with
    | .found bytes => some (blockAnswer options agent from_ cid (some bytes))
    | .missing => some (blockAnswer options agent from_ cid none)
    | .rejected cause => some (agent, servingFailed options from_ cause)
  | .looked answer, agent, .looking from_ request =>
    match answer with
    | .ok value => some (agent, replies from_ (.other request value))
    | .error cause => some (agent, servingFailed options from_ cause)
  | .held found calls, agent, .holding work => some (workHeld options agent i work found calls)
  | .executed ran, agent, .executing work hold computation =>
    some (workRan options agent work hold computation ran)
  | .digested failure nonce now, agent,
      .sealing work handle output cost attestation computation =>
      match failure with
      | some cause => some (agent, servingFailed options work.from_ cause)
      | none =>
        some (workSealed p options agent work handle output cost attestation computation
          nonce now)
  | .got found, agent, .combining work inputs =>
    match work.inputCids[inputs.length]? with
    | none => none
    | some cid => some (combineInput options agent work inputs cid found)
  | .hashed failure, agent, .merging work merged computation =>
    match failure with
    | some cause => some (combineThrows options agent work cause)
    | none => some (combineHashed p agent work merged computation)
  | .stored failure, agent, .storing work resultCid computation =>
    match failure with
    | some cause => some (combineThrows options agent work cause)
    | none => some (combineStored options agent work resultCid computation)
  | .reply id, agent, .answered to_ body afterSent =>
    some (sendReply options agent i id to_ body afterSent)
  | .sent, agent, .sending afterSent => some (agent.giveBack i afterSent, .done .settled)
  | _, _, _ => none

def Agent.reachable : TapCall → Bool
  | .release hold => decide (hold ∉ agent.takes.map Prod.snd)
  | _ => true

def stepOutside : Outside → Agent → Option Agent
  | .close, agent => some { agent with closed := true }
  | .record cid, agent =>
    if options.taps && options.remembers then
      some { agent with sovereignCids := agent.sovereignCids ++ [cid.toText] }
    else none
  | .govern dutyCycle, agent =>
    agent.capacity.bind fun cap =>
      (cap.governed dutyCycle).map fun cap => { agent with capacity := some cap }
  | .calls call, agent =>
    if agent.reachable call then
      some { agent with tap := agent.tap.map fun tap => tap.after call }
    else none

/-- A node that serves: each request is a thread. -/
def serveAgent : System Nat Agent Phase Action Outside where
  own := stepRequest p options
  alone := stepOutside options

/-! ## A node to run on -/

/-- Two slots, a tap that remembers, and a codec for which everything has one encoding. -/
def plainOptions : AgentOptions where
  nodeId := js "n"
  capacity := some ⟨js "n", 2, 1, ∅, 0, Nat.two_pos, LocalCapacity.full_range⟩
  capacity_fresh := by
    rintro cap ⟨⟩
    rfl
  taps := true
  remembers := true
  pauses := false
  combiner _ := .null
  attest _ _ := .signedByNobody
  encodeBody _ := some []
  encodeFrame _ _ := .ok []
  decode _ := some .null

def ownedTask : Task := ⟨plainCid, plainCid, 0, 1, .sovereign, some (js "o")⟩

/-- An authorizer that admits, and a listener that hears. -/
def welcoming : Calls := ⟨.admits, none⟩

/-- A peer asks the node. -/
def asks (request : AgentRequest) : Action :=
  .arrive (js "k") (some request) .running 0 (js "h") welcoming

end O2Fabric.Net
