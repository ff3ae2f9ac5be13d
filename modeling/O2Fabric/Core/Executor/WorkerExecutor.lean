/-
  O2Fabric.Core.Executor.WorkerExecutor

  `WorkerExecutor`: tasks on a pool of threads that can be killed.

  One event is what runs between two turns of the event loop: a call of
  `execute`, a block that was read for one, a thread's response or error, a
  deadline, `terminate`.  Threads are numbered as `createThread` made them, and
  neither it nor `post` throws.  A task's timer is set and cleared with its
  entry in `pending`, so a deadline is one of an id that is pending.

  `posted`, `killed` and `settlements` are the calls of `post`, `kill` and of a
  promise's `resolve` so far; no step reads the last two, and the first only to
  tell which answers a thread can give.
-/

import O2Fabric.Core.Job.CommitReveal

namespace O2Fabric.WorkerExecutor

open O2Fabric.Job (Cost ExecutionOutcome Task)

structure WorkerTaskRequest where
  id : Nat
  moduleBytes : Bytes
  inputBytes : Bytes
  partitionIndex : Nat
  partitionCount : Nat
  maxOutputBytes : Option JsNumber
  deriving DecidableEq

inductive WorkerTaskResponse
  | ok (id : Nat) (outputBytes : Bytes) (cost : Cost)
  | failed (id : Nat) (reason : JsString)

def WorkerTaskResponse.id : WorkerTaskResponse → Nat
  | .ok id _ _ => id
  | .failed id _ => id

/-- What `execute` resolves with. -/
abbrev Outcome := ExecutionOutcome CanonicalValue

/-- A thread, by the order in which it was made. -/
abbrev Thread := Nat

/-! ## Settings -/

def DEFAULT_TASK_DEADLINE_MS : JsNumber := .finite 10000

structure WorkerExecutorOptions where
  nodeId : JsString
  maxOutputBytes : Option JsNumber := none
  deadlineMs : Option JsNumber := none
  maxThreads : Option JsNumber := none

/-- What the constructor keeps of the options. -/
structure Settings where
  nodeId : JsString
  maxOutputBytes : Option JsNumber
  deadlineMs : JsNumber
  maxThreads : Nat
  positive : 0 < maxThreads

/-- The constructor; `hostCoreCount` is what the host answers. -/
def settings (p : Platform) (hostCoreCount : JsNumber) (options : WorkerExecutorOptions) :
    Except JsString Settings :=
  let maxThreads := options.maxThreads.getD hostCoreCount
  match h : maxThreads.positiveInteger? with
  | none => .error (js "maxThreads must be a positive integer, got " ++ p.numberText maxThreads)
  | some n =>
    .ok ⟨options.nodeId, options.maxOutputBytes,
      options.deadlineMs.getD DEFAULT_TASK_DEADLINE_MS, n, JsNumber.positiveInteger?_pos h⟩

/-! ## The pool -/

/-- A task that has a deadline running but no thread yet. -/
structure Queued where
  id : Nat
  request : WorkerTaskRequest

/-- How far a call of `execute` has got. -/
inductive Call
  | fetchingModule (task : Task)
  | fetchingInput (task : Task) (moduleBytes : Bytes)
  | accepted (id : Nat)
  | returned (outcome : Outcome)

structure Pool where
  /-- The ids that wait for an outcome, each with its timer. -/
  pending : List Nat
  live : List Thread
  /-- The last thread pushed comes first. -/
  idle : List Thread
  running : InsertionMap Nat Thread
  queue : List Queued
  nextId : Nat
  terminated : Bool
  started : Nat
  calls : List Call
  /-- How many threads were made. -/
  built : Nat
  posted : List (Thread × WorkerTaskRequest)
  killed : List Thread
  settlements : List (Nat × Outcome)

namespace Pool

variable (p : Platform) (decode : Bytes → Except JsString CanonicalValue) (c : Settings)

def start : Pool := ⟨[], [], [], .empty, [], 0, false, 0, [], 0, [], [], []⟩

/-- `#settle`: resolve the promise and clear the timer. -/
def settle (s : Pool) (id : Nat) (outcome : Outcome) : Pool :=
  if id ∈ s.pending then
    { s with
      pending := s.pending.erase id
      settlements := s.settlements ++ [(id, outcome)] }
  else s

def buildThread (s : Pool) : Thread × Pool :=
  (s.built, { s with live := s.live ++ [s.built], built := s.built + 1 })

/-- `#takeThread`: an idle thread, a new one if the pool has room, or nothing. -/
def takeThread (s : Pool) : Option (Thread × Pool) :=
  match s.idle with
  | thread :: idle => some (thread, { s with idle := idle })
  | [] => if c.maxThreads ≤ s.live.length then none else some s.buildThread

/-- `running.set` and `post`. -/
def hand (s : Pool) (thread : Thread) (id : Nat) (request : WorkerTaskRequest) : Pool :=
  { s with
    running := s.running.set id thread
    posted := s.posted ++ [(thread, request)] }

/-- The loop of `#drain`, over what is left of the queue. -/
def drainQueue : List Queued → Pool → Pool
  | [], s => { s with queue := [] }
  | next :: rest, s =>
    match s.takeThread c with
    | none => { s with queue := next :: rest }
    | some (thread, s) => drainQueue rest (s.hand thread next.id next.request)

def drain (s : Pool) : Pool := if s.terminated then s else drainQueue c s.queue s

def dispatch (s : Pool) (id : Nat) (request : WorkerTaskRequest) : Pool :=
  match s.takeThread c with
  | none => { s with queue := s.queue ++ [⟨id, request⟩] }
  | some (thread, s) => s.hand thread id request

/-- `#discardThread` up to its `#drain`. -/
def dropThread (s : Pool) (thread : Thread) (reason : JsString) : Pool :=
  let s := { s with
    live := s.live.erase thread
    idle := s.idle.erase thread
    killed := s.killed ++ [thread] }
  (s.running.entries.filter fun e => decide (e.2 = thread)).foldl
    (fun s e => { s with running := s.running.delete e.1 }.settle e.1 (.failed reason)) s

def discardThread (s : Pool) (thread : Thread) (reason : JsString) : Pool :=
  if thread ∈ s.live then (s.dropThread thread reason).drain c else s

/-! ## Events -/

def outcomeOf : WorkerTaskResponse → Outcome
  | .failed _ reason => .failed reason
  | .ok _ outputBytes cost =>
    match decode outputBytes with
    | .ok output => .ok output cost .signedByNobody
    | .error detail => .failed (js "worker output did not decode: " ++ detail)

def receive (s : Pool) (thread : Thread) (response : WorkerTaskResponse) : Pool :=
  let freed : Pool :=
    -- a late answer must not hand back a thread that was discarded
    if s.running.get? response.id = some thread then
      { s with
        running := s.running.delete response.id
        idle := if thread ∈ s.live then thread :: s.idle else s.idle }
    else s
  (freed.settle response.id (outcomeOf decode response)).drain c

/-- `execute`, up to its first `await`. -/
def execute (s : Pool) (task : Task) : Pool :=
  let call := if s.terminated then .returned (.failed (js "executor stopped"))
    else .fetchingModule task
  { s with calls := s.calls ++ [call] }

/-- The task gets an id, a promise and a timer. -/
def register (s : Pool) (call : Nat) : Pool :=
  { s with
    nextId := s.nextId + 1
    started := s.started + 1
    pending := s.pending ++ [s.nextId]
    calls := s.calls.set call (.accepted s.nextId) }

def requestOf (id : Nat) (task : Task) (moduleBytes inputBytes : Bytes) : WorkerTaskRequest :=
  ⟨id, moduleBytes, inputBytes, task.partitionIndex, task.partitionCount, c.maxOutputBytes⟩

/-- `execute`, from both blocks on. -/
def accept (s : Pool) (call : Nat) (task : Task) (moduleBytes inputBytes : Bytes) : Pool :=
  if s.terminated then
    { s with calls := s.calls.set call (.returned (.failed (js "executor stopped"))) }
  else
    (s.register call).dispatch c s.nextId (requestOf c s.nextId task moduleBytes inputBytes)

/-- A call of `execute` gets what it waits for from the blockstore: a block or
    none, or an error. -/
def fetched (s : Pool) (call : Nat) (answer : Except JsString (Option Bytes)) : Option Pool :=
  match s.calls[call]?, answer with
  | some (.fetchingModule _), .error message =>
    some { s with calls := s.calls.set call (.returned (.threw message)) }
  | some (.fetchingInput _ _), .error message =>
    some { s with calls := s.calls.set call (.returned (.threw message)) }
  | some (.fetchingModule task), .ok none =>
    some { s with calls := s.calls.set call (.returned (.failed
      (js "module block missing: " ++ task.moduleCid.toText))) }
  | some (.fetchingModule task), .ok (some moduleBytes) =>
    some { s with calls := s.calls.set call (.fetchingInput task moduleBytes) }
  | some (.fetchingInput task _), .ok none =>
    some { s with calls := s.calls.set call (.returned (.failed
      (js "input block missing: " ++ task.inputCid.toText))) }
  | some (.fetchingInput task moduleBytes), .ok (some inputBytes) =>
    some (s.accept c call task moduleBytes inputBytes)
  | _, _ => none

def deadlineReason : JsString :=
  js "execution exceeded " ++ p.numberText c.deadlineMs ++ js "ms on " ++ c.nodeId

def expire (s : Pool) (id : Nat) : Pool :=
  if id ∉ s.pending then s
  else
    match s.running.get? id with
    | none =>
      { s with queue := s.queue.eraseP fun entry => decide (entry.id = id) }.settle id
        (.failed (deadlineReason p c))
    | some thread =>
      ({ s with running := s.running.delete id }.settle id
          (.failed (deadlineReason p c))).discardThread c thread
        (js "thread terminated after a task exceeded its deadline on " ++ c.nodeId)

def terminate (s : Pool) : Pool :=
  -- stopped and emptied first, so that no thread is handed out on the way
  let s := { s with terminated := true, queue := [] }
  let s := s.live.foldl (fun s thread => s.discardThread c thread (js "executor stopped")) s
  let s := { s with idle := [], running := .empty }
  s.pending.foldl (fun s id => s.settle id (.failed (js "executor stopped"))) s

inductive Event
  | execute (task : Task)
  | fetched (call : Nat) (answer : Except JsString (Option Bytes))
  | response (thread : Thread) (response : WorkerTaskResponse)
  | error (thread : Thread) (reason : JsString)
  | deadline (id : Nat)
  | terminate

def WasPosted (s : Pool) (thread : Thread) (id : Nat) : Prop :=
  ∃ e ∈ s.posted, e.1 = thread ∧ e.2.id = id

instance (s : Pool) (thread : Thread) (id : Nat) : Decidable (s.WasPosted thread id) :=
  inferInstanceAs (Decidable (∃ e ∈ s.posted, _))

/-- One event; `none` is one that cannot happen. -/
def step (s : Pool) : Event → Option Pool
  | .execute task => some (s.execute task)
  | .fetched call answer => s.fetched c call answer
  | .response thread response =>
    if s.WasPosted thread response.id then some (s.receive decode c thread response) else none
  | .error thread reason =>
    if thread < s.built then
      some (s.discardThread c thread (js "worker error: " ++ reason))
    else none
  | .deadline id => if id ∈ s.pending then some (s.expire p c id) else none
  | .terminate => some (s.terminate c)

end Pool

end O2Fabric.WorkerExecutor
