/-
  O2Fabric.Net.Rpc

  `RpcEndpoint` over a transport whose `send` returns a promise.

  One step is what runs between two turns of the event loop: a call of
  `request`, a timer, the end of a `send`, a message, the end of a handler,
  `close`.  A message that arrives while `send` is still being called is a step
  of its own, since the request has been filed by then.

  Every call of a promise's `resolve` and `reject` is kept, in order:
  `settlements` is what was called, not what the promise made of it.
  `arrived` and `calls` are the messages and the handler's invocations so far;
  no step reads `arrived`.
-/

import O2Fabric.Core.Checkpoint
import O2Fabric.Net.Agent.State

namespace O2Fabric.Net

/-- Why a node declined to send. -/
inductive SendRefusalReason
  | perPeerStreamBudget
  | controlOnlyPath

inductive RpcError
  | timeout (to_ : JsString) (afterMs : ℚ)
  | sendFailed (to_ detail : JsString)
  | sendRefused (to_ by_ : JsString) (reason : SendRefusalReason) (detail : JsString)
  | closed
  | undecodable (from_ detail : JsString)

inductive RequestFailure
  | rpc (error : RpcError)
  | notEncodable (what detail : JsString)

/-- One call of a request's `resolve` or `reject`.  `frame` is the message that led
    to it. -/
inductive Settlement
  | resolved (frame : Nat) (body : CanonicalValue)
  | rejected (failure : RequestFailure)

/-- What `send` rejects with: a `SendRefused`, or anything else. -/
inductive SendRejection
  | refused (by_ : JsString) (reason : SendRefusalReason) (message : JsString)
  | other (cause : Cause)

structure RpcOptions where
  encode : CanonicalValue → Except JsString Bytes
  /-- `none` where it throws. -/
  decode : Bytes → Option CanonicalValue
  timeoutMs : ℚ

/-- A call of `request`, with its promise and its timer. -/
structure Request where
  to_ : JsString
  /-- Absent where the endpoint was closed. -/
  id : Option Nat
  /-- The timer is set, and neither fired nor cleared. -/
  armed : Bool
  /-- The transport's promise is still open. -/
  sending : Bool
  settlements : List Settlement

structure HandlerCall where
  frame : Nat
  from_ : JsString
  id : ℤ
  body : CanonicalValue
  returned : Bool

/-- A response frame that was handed to the transport. -/
structure SentReply where
  frame : Nat
  to_ : JsString
  id : ℤ
  bytes : Bytes

structure RpcEndpoint where
  closed : Bool
  nextId : Nat
  handler : Bool
  /-- Which request is filed under a key. -/
  pending : InsertionMap JsString Nat
  requests : List Request
  arrived : List (JsString × Bytes)
  calls : List HandlerCall
  replies : List SentReply

def RpcEndpoint.start : RpcEndpoint := ⟨false, 1, false, .empty, [], [], [], []⟩

/-- NUL separator: no number's text contains one. -/
def pendingKey (peer : JsString) (id : ℤ) : JsString := peer ++ NUL :: integerText id

/-- `#nextId++`.  From `2^53` on, adding one gives the number itself. -/
def bump (id : Nat) : Nat := if id < 2 ^ 53 then id + 1 else id

/-- `{ k, id, body }`. -/
def frameOf (kind : JsString) (id : ℤ) (body : CanonicalValue) : CanonicalValue :=
  .record [(js "k", .text kind), (js "id", .number (.finite id)), (js "body", body)]

/-- What `#receive` reads off a message before it looks at the kind. -/
structure InboundFrame where
  kind : Option JsString
  id : ℤ
  body : CanonicalValue

def RpcOptions.inbound (options : RpcOptions) (message : Bytes) : Option InboundFrame :=
  match options.decode message with
  | some (.record fields) =>
    match field fields (js "id"), field fields (js "body") with
    | some (.number (.finite id)), some body =>
      if id.isInt then some ⟨asText (field fields (js "k")), id.num, body⟩ else none
    | _, _ => none
  | _ => none

/-! ## Promises and timers -/

def Request.settle (outcome : Settlement) (r : Request) : Request :=
  { r with settlements := r.settlements ++ [outcome] }

/-- `clearTimeout`. -/
def Request.disarm (r : Request) : Request := { r with armed := false }

namespace RpcEndpoint

def settle (endpoint : RpcEndpoint) (request : Nat) (outcome : Settlement) : RpcEndpoint :=
  { endpoint with requests := endpoint.requests.modify request (Request.settle outcome) }

def disarm (endpoint : RpcEndpoint) (request : Nat) : RpcEndpoint :=
  { endpoint with requests := endpoint.requests.modify request Request.disarm }

def unfile (endpoint : RpcEndpoint) (key : JsString) : RpcEndpoint :=
  { endpoint with pending := endpoint.pending.delete key }

/-! ## Requests -/

def request (options : RpcOptions) (endpoint : RpcEndpoint) (to_ : JsString)
    (body : CanonicalValue) : RpcEndpoint :=
  if endpoint.closed then
    { endpoint with requests := endpoint.requests ++
        [⟨to_, none, false, false, [.rejected (.rpc .closed)]⟩] }
  else
    let id := endpoint.nextId
    let endpoint := { endpoint with nextId := bump id }
    match options.encode (frameOf (js "req") id body) with
    | .error detail =>
      { endpoint with requests := endpoint.requests ++
          [⟨to_, some id, false, false, [.rejected (.notEncodable (js "rpc frame") detail)]⟩] }
    | .ok _ =>
      -- filed before it is sent
      { endpoint with
        pending := endpoint.pending.set (pendingKey to_ id) endpoint.requests.length
        requests := endpoint.requests ++ [⟨to_, some id, true, true, []⟩] }

def keyOf (r : Request) : Option JsString := r.id.map fun id : Nat => pendingKey r.to_ id

def timer (options : RpcOptions) (endpoint : RpcEndpoint) (request : Nat) :
    Option RpcEndpoint := do
  let r ← endpoint.requests[request]?
  let key ← keyOf r
  if r.armed then
    some (((endpoint.unfile key).disarm request).settle request
      (.rejected (.rpc (.timeout r.to_ options.timeoutMs))))
  else none

/-- The transport is done with a request. -/
def sendEnded (endpoint : RpcEndpoint) (request : Nat) : RpcEndpoint :=
  { endpoint with requests := endpoint.requests.modify request fun r => { r with sending := false } }

def failureOf (to_ : JsString) : SendRejection → Option RpcError
  | .refused by_ reason message => some (.sendRefused to_ by_ reason message)
  | .other (.described text) => some (.sendFailed to_ text)
  -- `String(cause)` throws before `reject` is called
  | .other (.undescribable _) => none

/-- The `catch` of a request's `send`. -/
def sendRejected (endpoint : RpcEndpoint) (request : Nat) (cause : SendRejection) :
    Option RpcEndpoint := do
  let r ← endpoint.requests[request]?
  let key ← keyOf r
  if r.sending then
    let endpoint := endpoint.sendEnded request
    match endpoint.pending.get? key with
    | none => some endpoint
    | some entry =>
      let endpoint := (endpoint.unfile key).disarm entry
      match failureOf r.to_ cause with
      | none => some endpoint
      | some error => some (endpoint.settle request (.rejected (.rpc error)))
  else none

def close (endpoint : RpcEndpoint) : RpcEndpoint :=
  if endpoint.closed then endpoint
  else
    { endpoint with
      closed := true
      pending := .empty
      requests := endpoint.pending.values.foldl (fun requests entry =>
        requests.modify entry fun r => r.disarm.settle (.rejected (.rpc .closed)))
        endpoint.requests }

/-! ## Messages -/

def receive (options : RpcOptions) (endpoint : RpcEndpoint) (from_ : JsString) (message : Bytes) :
    RpcEndpoint :=
  let frame := endpoint.arrived.length
  let endpoint := { endpoint with arrived := endpoint.arrived ++ [(from_, message)] }
  match options.inbound message with
  | none => endpoint
  | some inbound =>
    if inbound.kind = some (js "res") then
      let key := pendingKey from_ inbound.id
      match endpoint.pending.get? key with
      -- late or duplicate reply
      | none => endpoint
      | some entry =>
        ((endpoint.unfile key).disarm entry).settle entry (.resolved frame inbound.body)
    else if inbound.kind = some (js "req") ∧ endpoint.handler = true then
      { endpoint with
        calls := endpoint.calls ++ [⟨frame, from_, inbound.id, inbound.body, false⟩] }
    else endpoint

inductive HandlerOutcome
  | replied (body : CanonicalValue)
  | threw (cause : Cause)

def encodeReply (options : RpcOptions) (id : ℤ) (reply : CanonicalValue) : Option Bytes :=
  match options.encode (frameOf (js "res") id reply) with
  | .ok bytes => some bytes
  | .error detail =>
    (options.encode (frameOf (js "res") id (.record
      [(js "error", .text (js "reply rpc frame not encodable: " ++ detail))]))).toOption

/-- The body that is answered; `none` where a cause has no text, so nothing is. -/
def HandlerOutcome.reply : HandlerOutcome → Option CanonicalValue
  | .replied body => some body
  | .threw (.described text) => some (.record [(js "error", .text text)])
  | .threw (.undescribable _) => none

/-- The rest of `#receive`, once the handler is through. -/
def handled (options : RpcOptions) (endpoint : RpcEndpoint) (call : Nat)
    (outcome : HandlerOutcome) : Option RpcEndpoint := do
  let c ← endpoint.calls[call]?
  if c.returned then none
  else
    let calls := endpoint.calls.modify call fun c => { c with returned := true }
    let endpoint := { endpoint with calls := calls }
    if endpoint.closed then some endpoint
    else
      match outcome.reply.bind (encodeReply options c.id) with
      | none => some endpoint
      | some bytes =>
        some { endpoint with replies := endpoint.replies ++ [⟨c.frame, c.from_, c.id, bytes⟩] }

/-! ## Runs -/

inductive Action
  | request (to_ : JsString) (body : CanonicalValue)
  | timer (request : Nat)
  | sendResolved (request : Nat)
  | sendRejected (request : Nat) (cause : SendRejection)
  | serve
  | receive (from_ : JsString) (message : Bytes)
  | handled (call : Nat) (outcome : HandlerOutcome)
  | close

/-- One step; `none` is one that cannot be taken. -/
def step (options : RpcOptions) (endpoint : RpcEndpoint) : Action → Option RpcEndpoint
  | .request to_ body => some (endpoint.request options to_ body)
  | .timer request => endpoint.timer options request
  | .sendResolved request => some (endpoint.sendEnded request)
  | .sendRejected request cause => endpoint.sendRejected request cause
  | .serve => some { endpoint with handler := true }
  | .receive from_ message => some (endpoint.receive options from_ message)
  | .handled call outcome => endpoint.handled options call outcome
  | .close => some endpoint.close

/-- Steps taken one after another. -/
def run (options : RpcOptions) : RpcEndpoint → List Action → Option RpcEndpoint
  | endpoint, [] => some endpoint
  | endpoint, action :: rest => (endpoint.step options action).bind fun next => next.run options rest

end RpcEndpoint

end O2Fabric.Net
