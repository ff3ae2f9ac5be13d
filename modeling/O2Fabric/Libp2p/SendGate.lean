/-
  O2Fabric.Libp2p.SendGate

  `Libp2pTransport.send`: at most so many streams to one peer at a time, and
  the rest of the sends wait in line.

  One event is what runs between two turns of the event loop: a call of `send`
  up to its first `await`, a stream that was opened, written to or closed, one
  that failed (by itself or by the send's timeout), the timeout of a send that
  waits, `stop`.  A send's signal is made in the turn that queues it, so it is
  never aborted there.

  Sends are numbered in the order of their calls.  `settlements` and `granted`
  are the calls of waiters' `resolve` and `reject` so far; no step reads them,
  nor `parked`, which says that a send was put in line.
-/

import O2Fabric.Net.Rpc

namespace O2Fabric.Libp2p

open O2Fabric.Net (SendRefusalReason)

/-! ## Constants -/

def RELAY_DATA_LIMIT_BYTES : Nat := 131072

def relayedBudgetPerDirection : Nat := RELAY_DATA_LIMIT_BYTES / 2

def WIRE_CHUNK_BYTES : Nat := 16384

def MAX_INBOUND_MESSAGE_BYTES : Nat := 8388608

def MAX_INBOUND_MESSAGES_IN_FLIGHT_PER_PEER : Nat := 4

def MAX_CONCURRENT_STREAMS_PER_PEER : Nat := 8

def MAX_QUEUED_SENDS_PER_PEER : Nat := 256

/-! ## Sends -/

/-- What this node's connections to one peer are good for. -/
inductive PeerPath
  | carriesWork
  | controlOnly
  | unconnected
  deriving DecidableEq

/-- What `send` rejects with. -/
inductive SendFailure
  | stopped
  | refused (reason : SendRefusalReason) (message : JsString)
  | timedOut
  /-- The dial, a write or the close. -/
  | stream (cause : JsString)

/-- How far a call of `send` has got. -/
inductive Phase
  | waiting
  | dialing
  | writing (offset : Nat)
  | sent
  | rejected (failure : SendFailure)

/-- The send has one of its peer's slots. -/
def Phase.holds : Phase → Bool
  | .dialing | .writing _ => true
  | _ => false

def Phase.waits : Phase → Bool
  | .waiting => true
  | _ => false

/-- One call of a waiter's `resolve` or `reject`. -/
inductive WaiterOutcome
  | granted
  | timedOut
  | stopped

structure Send where
  to_ : JsString
  byteLength : Nat
  phase : Phase
  parked : Bool
  settlements : List WaiterOutcome

/-- Streams in flight to one peer, and the sends that wait for one. -/
structure Gate where
  active : Nat
  queue : List Nat

structure GateSettings where
  localId : JsString
  maxStreamsPerPeer : Nat
  maxQueuedSends : Nat

structure Sender where
  stopped : Bool
  gates : InsertionMap JsString Gate
  peakStreams : InsertionMap JsString Nat
  sends : List Send
  granted : List Nat

namespace Sender

variable (c : GateSettings)

def start : Sender := ⟨false, .empty, .empty, [], []⟩

def peakStreamsTo (s : Sender) (to_ : JsString) : Nat := (s.peakStreams.get? to_).getD 0

def recordPeak (s : Sender) (to_ : JsString) (active : Nat) : Sender :=
  if s.peakStreamsTo to_ < active then
    { s with peakStreams := s.peakStreams.set to_ active }
  else s

def setGate (s : Sender) (to_ : JsString) (gate : Gate) : Sender :=
  { s with gates := s.gates.set to_ gate }

def setPhase (s : Sender) (send : Nat) (phase : Phase) : Sender :=
  { s with sends := s.sends.modify send fun r => { r with phase := phase } }

/-- The waiter's `resolve` or `reject`, and where the send goes on from there. -/
def settleWaiter (s : Sender) (send : Nat) (outcome : WaiterOutcome) (phase : Phase) : Sender :=
  { s with sends := s.sends.modify send fun r =>
      { r with phase := phase, settlements := r.settlements ++ [outcome] } }

def budgetRefusal (gate : Gate) (to_ : JsString) : SendFailure :=
  .refused .perPeerStreamBudget
    (c.localId ++ js " refused a send to " ++ to_ ++ js ": " ++ decimal gate.active ++ js " of "
      ++ decimal c.maxStreamsPerPeer ++ js " streams in use and " ++ decimal gate.queue.length
      ++ js " of " ++ decimal c.maxQueuedSends ++ js " sends queued")

def pathRefusal (to_ : JsString) (byteLength : Nat) : SendFailure :=
  .refused .controlOnlyPath
    (c.localId ++ js " refused a send to " ++ to_
      ++ js ": the only path to it is a relayed circuit, whose budget is "
      ++ decimal relayedBudgetPerDirection ++ js " bytes in each direction, and this message is "
      ++ decimal byteLength ++ js " bytes")

/-- `#acquire`, for a send that is filed under its number. -/
def acquire (s : Sender) (send : Nat) (to_ : JsString) : Sender :=
  -- an entry is made where there is none
  let gate := (s.gates.get? to_).getD ⟨0, []⟩
  if gate.active < c.maxStreamsPerPeer then
    (((s.setGate to_ { gate with active := gate.active + 1 }).recordPeak to_
      (gate.active + 1))).setPhase send .dialing
  else if c.maxQueuedSends ≤ gate.queue.length then
    (s.setGate to_ gate).setPhase send (.rejected (budgetRefusal c gate to_))
  else
    { s.setGate to_ { gate with queue := gate.queue ++ [send] } with
      sends := s.sends.modify send fun r => { r with phase := .waiting, parked := true } }

/-- `send`, up to its first `await`. -/
def send (s : Sender) (to_ : JsString) (byteLength : Nat) (path : PeerPath) : Sender :=
  let filed (phase : Phase) : Sender :=
    { s with sends := s.sends ++ [⟨to_, byteLength, phase, false, []⟩] }
  if s.stopped then filed (.rejected .stopped)
  else if relayedBudgetPerDirection < byteLength ∧ path = .controlOnly then
    filed (.rejected (pathRefusal c to_ byteLength))
  else (filed .waiting).acquire c s.sends.length to_

/-- `#release`: the slot goes to the next waiter if there is one, otherwise to the pool. -/
def release (s : Sender) (to_ : JsString) : Sender :=
  match s.gates.get? to_ with
  | none => s
  | some gate =>
    match gate.queue with
    | next :: queue =>
      let s := (s.setGate to_ { gate with queue := queue }).recordPeak to_ gate.active
      { s.settleWaiter next .granted .dialing with granted := s.granted ++ [next] }
    | [] =>
      if gate.active - 1 = 0 then { s with gates := s.gates.delete to_ }
      else s.setGate to_ { gate with active := gate.active - 1 }

/-- The `finally` of a send that had a slot. -/
def finish (s : Sender) (send : Nat) (to_ : JsString) (phase : Phase) : Sender :=
  (s.setPhase send phase).release to_

/-- The timeout of a send that waits: it leaves the line. -/
def leave (s : Sender) (send : Nat) (to_ : JsString) : Sender :=
  let s := match s.gates.get? to_ with
    | none => s
    | some gate => s.setGate to_ { gate with queue := gate.queue.erase send }
  s.settleWaiter send .timedOut (.rejected .timedOut)

def stop (s : Sender) : Sender :=
  if s.stopped then s
  else
    let s := (s.gates.values.flatMap Gate.queue).foldl
      (fun s send => s.settleWaiter send .stopped (.rejected .stopped)) { s with stopped := true }
    { s with gates := .empty }

inductive Event
  | send (to_ : JsString) (byteLength : Nat) (path : PeerPath)
  | opened (send : Nat)
  | written (send : Nat)
  | closed (send : Nat)
  | failed (send : Nat) (cause : JsString)
  | timedOut (send : Nat)
  | stop

/-- One event; `none` is one that cannot happen. -/
def step (s : Sender) : Event → Option Sender
  | .send to_ byteLength path => some (s.send c to_ byteLength path)
  | .opened send =>
    match s.sends[send]? with
    | some ⟨_, _, .dialing, _, _⟩ => some (s.setPhase send (.writing 0))
    | _ => none
  | .written send =>
    match s.sends[send]? with
    | some ⟨_, byteLength, .writing offset, _, _⟩ =>
      if offset < byteLength then some (s.setPhase send (.writing (offset + WIRE_CHUNK_BYTES)))
      else none
    | _ => none
  | .closed send =>
    match s.sends[send]? with
    | some ⟨to_, byteLength, .writing offset, _, _⟩ =>
      if byteLength ≤ offset then some (s.finish send to_ .sent) else none
    | _ => none
  | .failed send cause =>
    match s.sends[send]? with
    | some r =>
      if r.phase.holds then some (s.finish send r.to_ (.rejected (.stream cause))) else none
    | none => none
  | .timedOut send =>
    match s.sends[send]? with
    | some r => if r.phase.waits then some (s.leave send r.to_) else none
    | none => none
  | .stop => some s.stop

end Sender

end O2Fabric.Libp2p
