/-
  O2Fabric.Core.Executor.Wasm

  The executor of WebAssembly tasks: what its four host functions do with a
  guest's memory, and what becomes of a run.

  A guest does as it likes between its calls, so a run is the calls it made,
  each with the memory as it was then.  Pointers and lengths reach the host as
  signed numbers.
-/

import Mathlib.Data.List.Induction
import O2Fabric.Core.Job.CommitReveal

namespace O2Fabric.Wasm

open O2Fabric.Job (Cost ExecutionOutcome Task)

def MAX_PARTITIONS : Nat := 0xffff

/-! ## Views of a memory -/

/-- `view.slice(start, end)`, which a negative index counts from the end of and which is clamped. -/
def viewSlice (view : Bytes) (start «end» : ℤ) : Bytes :=
  let at_ : ℤ → ℤ := fun index =>
    if index < 0 then max (view.length + index) 0 else min index view.length
  (view.drop (at_ start).toNat).take (at_ «end» - at_ start).toNat

/-- `view.set(source, offset)`, `none` where it throws. -/
def viewSet (view source : Bytes) (offset : ℤ) : Option Bytes :=
  if offset < 0 ∨ view.length < offset + source.length then none
  else
    some (view.take offset.toNat ++ source ++ view.drop (offset.toNat + source.length))

/-! ## Host functions -/

inductive HostCall
  | inputLen
  | inputRead (ptr len : BitVec 32)
  | outputWrite (ptr len : BitVec 32)
  | «partition»

/-- What the calls of `output_write` came to. -/
inductive OutputSlot
  | empty
  | written (bytes : Bytes)
  | refused (reason : JsString)

structure HostState where
  sink : OutputSlot
  readCursor : Nat

def HostState.initial : HostState := ⟨.empty, 0⟩

structure RunOptions where
  input : Bytes
  maxOutputBytes : JsNumber
  partitionIndex : Nat
  partitionCount : Nat
  /-- `String(x)`. -/
  numberText : JsNumber → JsString

/-- A range of the guest's memory: where it starts, and how long it is. -/
structure Range where
  offset : ℤ
  length : ℤ

/-- What a call leaves and returns; `touched` is what it read or wrote of the memory. -/
structure Answer where
  state : HostState
  memory : Option Bytes
  returns : Option ℤ
  touched : Option Range

/-- `((partitionIndex & 0xffff) << 16) | (partitionCount & 0xffff)`. -/
def packPartition (partitionIndex partitionCount : Nat) : BitVec 32 :=
  ((BitVec.ofNat 32 partitionIndex &&& 0xffff) <<< 16)
    ||| (BitVec.ofNat 32 partitionCount &&& 0xffff)

variable (options : RunOptions)

def inputRead (state : HostState) (memory : Option Bytes) (ptr len : ℤ) : Option Answer :=
  match memory with
  | none => some ⟨state, none, some 0, none⟩
  | some view =>
    let available : ℤ := options.input.length - state.readCursor
    let n := max 0 (min len available)
    if ptr < 0 ∨ view.length < ptr + n then some ⟨state, some view, some 0, none⟩
    else do
      let source := viewSlice options.input state.readCursor (state.readCursor + n)
      let memory ← viewSet view source ptr
      return {
        state := { state with readCursor := state.readCursor + n.toNat }
        memory := some memory
        returns := some n
        touched := some ⟨ptr, n⟩ }

/-- Why a write is refused, or the bytes that are taken. -/
def takeOutput (memory : Option Bytes) (ptr len : ℤ) : Except JsString Bytes :=
  match memory with
  | none => .error (js "module exported no memory to read output from")
  | some view =>
    if len < 0 then .error (js "output_write called with a length of " ++ integerText len)
    else if options.maxOutputBytes.below (.finite len) then
      .error (js "output-too-large: output of " ++ integerText len ++ js " bytes exceeds the "
        ++ options.numberText options.maxOutputBytes ++ js "-byte cap")
    else if ptr < 0 ∨ view.length < ptr + len then
      .error (js "output_write at " ++ integerText ptr ++ js " for " ++ integerText len
        ++ js " bytes is outside the module's " ++ decimal view.length ++ js "-byte memory")
    else .ok (viewSlice view ptr (ptr + len))

/-- A refusal is absorbing. -/
def outputWrite (state : HostState) (memory : Option Bytes) (ptr len : ℤ) : Answer :=
  match state.sink with
  | .refused _ => ⟨state, memory, none, none⟩
  | _ =>
    match takeOutput options memory ptr len with
    | .error reason => ⟨{ state with sink := .refused reason }, memory, none, none⟩
    | .ok bytes => ⟨{ state with sink := .written bytes }, memory, none, some ⟨ptr, len⟩⟩

/-- One call, `none` where it throws. -/
def hostCall (state : HostState) (memory : Option Bytes) : HostCall → Option Answer
  | .inputLen => some ⟨state, memory, some options.input.length, none⟩
  | .inputRead ptr len => inputRead options state memory ptr.toInt len.toInt
  | .outputWrite ptr len => some (outputWrite options state memory ptr.toInt len.toInt)
  | .partition =>
    some ⟨state, memory,
      some (packPartition options.partitionIndex options.partitionCount).toInt, none⟩

/-! ## Runs -/

/-- A call, and the memory as it is then; there is none before the module is instantiated, or where
    it exports none. -/
structure GuestCall where
  memory : Option Bytes
  call : HostCall

/-- The answers to the calls of a run, `none` where one throws. -/
def answersOf : HostState → List GuestCall → Option (List Answer)
  | _, [] => some []
  | state, step :: steps => do
    let answer ← hostCall options state step.memory step.call
    let answers ← answersOf answer.state steps
    return answer :: answers

def stateAfter (state : HostState) (answers : List Answer) : HostState :=
  answers.foldl (fun _ answer => answer.state) state

/-- How a run ends, but for what it wrote. -/
inductive Ending
  | instantiationFailed (cause : JsString)
  | noEntrypoint
  | trapped (cause : JsString)
  | returned (execMs : ℚ) (peakMemoryPages : Nat)

structure WasmExecutor where
  blocks : Cid → Option Bytes
  maxOutputBytes : JsNumber
  numberText : JsNumber → JsString
  /-- The value, or the text of what it throws. -/
  decodeCanonical : Bytes → Except JsString CanonicalValue

namespace WasmExecutor

variable (executor : WasmExecutor)

def runOptions (task : Task) (input : Bytes) : RunOptions where
  input := input
  maxOutputBytes := executor.maxOutputBytes
  partitionIndex := task.partitionIndex
  partitionCount := task.partitionCount
  numberText := executor.numberText

/-- What becomes of a run that returned. -/
def outcomeOf (input : Bytes) (hostCalls : Nat) (execMs : ℚ) (peakMemoryPages : Nat) :
    OutputSlot → ExecutionOutcome CanonicalValue
  | .refused reason => .failed reason
  | .empty => .failed (js "module produced no output")
  | .written bytes =>
    match executor.decodeCanonical bytes with
    | .error cause => .failed (js "output is not valid DAG-CBOR: " ++ cause)
    | .ok decoded =>
      .ok decoded
        { fuel := input.length + bytes.length
          execMs := execMs
          hostCalls := hostCalls
          peakMemoryPages := peakMemoryPages } .signedByNobody

/-- A task, with the calls that the guest makes and how it ends.  A host function that throws would
    end it too. -/
def execute (task : Task) (steps : List GuestCall) (ending : Ending) :
    ExecutionOutcome CanonicalValue :=
  if MAX_PARTITIONS < task.partitionCount then
    .failed (js "partitionCount exceeds " ++ decimal MAX_PARTITIONS)
  else
    match executor.blocks task.moduleCid, executor.blocks task.inputCid with
    | none, _ => .failed (js "module block missing: " ++ task.moduleCid.toText)
    | some _, none => .failed (js "input block missing: " ++ task.inputCid.toText)
    | some _, some input =>
      match ending, answersOf (executor.runOptions task input) .initial steps with
      | .instantiationFailed cause, _ => .failed (js "instantiation failed: " ++ cause)
      | .noEntrypoint, _ => .failed (js "module exports no \"run\" function")
      | .trapped cause, _ => .failed (js "trap during execution: " ++ cause)
      | .returned _ _, none => .failed (js "trap during execution: offset is out of bounds")
      | .returned execMs peakMemoryPages, some answers =>
        executor.outcomeOf input steps.length execMs peakMemoryPages
          (stateAfter .initial answers).sink

end WasmExecutor

end O2Fabric.Wasm

/-! # Sandbox

What no guest can do to its host: make it read or write beside the guest's
memory, get bytes that are not the next of its input, take back a refusal, or
have another output reported than the one it wrote last.
-/

namespace O2Fabric.Wasm

open O2Fabric.Job (Cost Task)

/-! ## Views -/

theorem viewSlice_inside {view : Bytes} {start len : Nat} (h : start + len ≤ view.length) :
    viewSlice view start (start + len) = (view.drop start).take len := by
  have hstart : (if (start : ℤ) < 0 then max ((view.length : ℤ) + start) 0
      else min (start : ℤ) view.length) = start := by
    split <;> omega
  have hend : (if (start + len : ℤ) < 0 then max ((view.length : ℤ) + (start + len)) 0
      else min (start + len : ℤ) view.length) = start + len := by
    split <;> omega
  simp only [viewSlice, hstart, hend]
  congr 1
  omega

/-- What is written inside a view is there afterwards, and nothing else has changed. -/
theorem viewSet_inside {view source : Bytes} {offset : Nat}
    (h : offset + source.length ≤ view.length) :
    ∃ view', viewSet view source offset = some view' ∧ view'.length = view.length ∧
      (view'.drop offset).take source.length = source ∧
      ∀ i, (i < offset ∨ offset + source.length ≤ i) → view'[i]? = view[i]? := by
  refine ⟨view.take offset ++ source ++ view.drop (offset + source.length), ?_, ?_, ?_, ?_⟩
  · rw [viewSet, if_neg (by omega), Int.toNat_natCast]
  · simp only [List.length_append, List.length_take, List.length_drop]
    omega
  · have htake : (view.take offset).length = offset := by
      rw [List.length_take]
      omega
    rw [List.append_assoc, List.drop_left' htake, List.take_left]
  · intro i hi
    rw [List.append_assoc]
    rcases hi with hbefore | hafter
    · rw [List.getElem?_append_left (by rw [List.length_take]; omega),
        List.getElem?_take_of_lt hbefore]
    · rw [List.getElem?_append_right (by rw [List.length_take]; omega),
        List.getElem?_append_right (by rw [List.length_take]; omega), List.getElem?_drop]
      congr 1
      rw [List.length_take]
      omega

/-! ## One call -/

variable {options : RunOptions}

/-- A call stays inside the guest's memory as it is then, and changes no byte it does not touch. -/
structure Contained (memory : Option Bytes) (answer : Answer) : Prop where
  inside : ∀ range ∈ answer.touched, ∃ view, memory = some view ∧ 0 ≤ range.offset ∧
    0 ≤ range.length ∧ range.offset + range.length ≤ view.length
  size : answer.memory.map List.length = memory.map List.length
  frame : ∀ view view', memory = some view → answer.memory = some view' → ∀ i : Nat,
    (∀ range ∈ answer.touched, i < range.offset ∨ range.offset + range.length ≤ i) →
      view'[i]? = view[i]?

variable {memory : Option Bytes} {state : HostState}

/-- A call that touches nothing. -/
theorem Contained.untouched {returns : Option ℤ} :
    Contained memory ⟨state, memory, returns, none⟩ where
  inside := by rintro range ⟨⟩
  size := rfl
  frame view view' hview hview' i _ := by
    cases hview.symm.trans hview'
    rfl

/-- The bytes a call has put into the guest's memory. -/
def deliveredBy (call : HostCall) (answer : Answer) : Bytes :=
  match call, answer.touched, answer.memory with
  | .inputRead _ _, some range, some view =>
    viewSlice view range.offset (range.offset + range.length)
  | _, _, _ => []

/-- What `input_read` does: it delivers the next bytes of the input, or nothing. -/
theorem inputRead_spec (options : RunOptions) (memory : Option Bytes) (ptr len : BitVec 32)
    (hcursor : state.readCursor ≤ options.input.length) :
    ∃ answer, hostCall options state memory (.inputRead ptr len) = some answer ∧
      Contained memory answer ∧ answer.state.sink = state.sink ∧
      ∃ n, answer.state.readCursor = state.readCursor + n ∧
        state.readCursor + n ≤ options.input.length ∧
        deliveredBy (.inputRead ptr len) answer
          = (options.input.drop state.readCursor).take n := by
  have hnothing : ∀ memory : Option Bytes,
      (⟨state, memory, some 0, none⟩ : Answer).state.sink = state.sink ∧
      ∃ n, (⟨state, memory, some 0, none⟩ : Answer).state.readCursor = state.readCursor + n ∧
        state.readCursor + n ≤ options.input.length ∧
        deliveredBy (.inputRead ptr len) ⟨state, memory, some 0, none⟩
          = (options.input.drop state.readCursor).take n :=
    fun memory => ⟨rfl, 0, rfl, hcursor, rfl⟩
  cases memory with
  | none => exact ⟨_, rfl, .untouched, hnothing none⟩
  | some view =>
    simp only [hostCall, inputRead]
    generalize hn : max 0 (min len.toInt (options.input.length - state.readCursor)) = n
    split
    · exact ⟨_, rfl, .untouched, hnothing (some view)⟩
    · next hinside =>
      -- the pointer and the count are natural numbers from here on
      obtain ⟨offset, hoffset⟩ := Int.eq_ofNat_of_zero_le (a := ptr.toInt) (by omega)
      obtain ⟨count, rfl⟩ := Int.eq_ofNat_of_zero_le (a := n) (by omega)
      rw [hoffset] at hinside ⊢
      have hcount : state.readCursor + count ≤ options.input.length := by omega
      have hsource : viewSlice options.input state.readCursor (state.readCursor + count)
          = (options.input.drop state.readCursor).take count := viewSlice_inside hcount
      have hlength : ((options.input.drop state.readCursor).take count).length = count := by
        rw [List.length_take, List.length_drop]
        omega
      have hfits : offset + ((options.input.drop state.readCursor).take count).length
          ≤ view.length := by
        rw [hlength]
        omega
      obtain ⟨view', hset, hsize, hwritten, hframe⟩ := viewSet_inside hfits
      rw [hlength] at hwritten hframe
      rw [hsource, hset]
      refine ⟨_, rfl, ⟨?_, ?_, ?_⟩, rfl, count, rfl, hcount, ?_⟩
      · rintro range ⟨⟩
        refine ⟨view, rfl, ?_⟩
        show 0 ≤ (offset : ℤ) ∧ 0 ≤ (count : ℤ) ∧ (offset : ℤ) + count ≤ view.length
        omega
      · exact congrArg some hsize
      · intro view₀ view₁ hview₀ hview₁ i hi
        cases hview₀
        cases hview₁
        have : (i : ℤ) < offset ∨ (offset : ℤ) + count ≤ i := hi ⟨offset, count⟩ rfl
        exact hframe i (by omega)
      · show viewSlice view' offset (offset + count) = _
        rw [viewSlice_inside (by omega), hwritten]

/-- Bytes that are taken are those of the memory, as many as were named, from the pointer on. -/
theorem takeOutput_eq_ok {ptr len : ℤ} {bytes : Bytes}
    (h : takeOutput options memory ptr len = .ok bytes) :
    ∃ view, memory = some view ∧ 0 ≤ ptr ∧ 0 ≤ len ∧ ptr + len ≤ view.length ∧
      bytes = (view.drop ptr.toNat).take len.toNat := by
  cases memory with
  | none => cases h
  | some view =>
    simp only [takeOutput] at h
    split at h
    · cases h
    · split at h
      · cases h
      · split at h
        · cases h
        · next hlen _ hinside =>
          cases h
          obtain ⟨offset, rfl⟩ := Int.eq_ofNat_of_zero_le (a := ptr) (by omega)
          obtain ⟨count, rfl⟩ := Int.eq_ofNat_of_zero_le (a := len) (by omega)
          exact ⟨view, rfl, by omega, by omega, by omega, viewSlice_inside (by omega)⟩

/-- What a write leaves in the sink. -/
def sinkAfter (options : RunOptions) (sink : OutputSlot) (memory : Option Bytes) (ptr len : ℤ) :
    OutputSlot :=
  match sink with
  | .refused reason => .refused reason
  | _ =>
    match takeOutput options memory ptr len with
    | .error reason => .refused reason
    | .ok bytes => .written bytes

/-- A write that is not stopped by an earlier refusal. -/
theorem outputWrite_open (options : RunOptions) (memory : Option Bytes) (ptr len : ℤ)
    (hopen : ∀ reason, state.sink ≠ .refused reason) :
    outputWrite options state memory ptr len =
        (match takeOutput options memory ptr len with
        | .error reason => ⟨{ state with sink := .refused reason }, memory, none, none⟩
        | .ok bytes => ⟨{ state with sink := .written bytes }, memory, none, some ⟨ptr, len⟩⟩) ∧
      sinkAfter options state.sink memory ptr len =
        (match takeOutput options memory ptr len with
        | .error reason => .refused reason
        | .ok bytes => .written bytes) := by
  obtain ⟨sink, cursor⟩ := state
  cases sink with
  | refused reason => exact absurd rfl (hopen reason)
  | empty => exact ⟨rfl, rfl⟩
  | written bytes => exact ⟨rfl, rfl⟩

theorem outputWrite_spec (options : RunOptions) (state : HostState) (memory : Option Bytes)
    (ptr len : ℤ) :
    Contained memory (outputWrite options state memory ptr len) ∧
      (outputWrite options state memory ptr len).state.sink
        = sinkAfter options state.sink memory ptr len ∧
      (outputWrite options state memory ptr len).state.readCursor = state.readCursor := by
  by_cases hrefused : ∃ reason, state.sink = .refused reason
  · obtain ⟨reason, hsink⟩ := hrefused
    have hanswer : outputWrite options state memory ptr len = ⟨state, memory, none, none⟩ := by
      unfold outputWrite
      rw [hsink]
    rw [hanswer]
    exact ⟨.untouched, by rw [hsink, sinkAfter], rfl⟩
  · obtain ⟨hanswer, hsink⟩ := outputWrite_open options memory ptr len
      fun reason hreason => hrefused ⟨reason, hreason⟩
    rw [hanswer, hsink]
    cases htaken : takeOutput options memory ptr len with
    | error reason => exact ⟨.untouched, rfl, rfl⟩
    | ok bytes =>
      obtain ⟨view, rfl, hptr, hlen, hinside, -⟩ := takeOutput_eq_ok htaken
      refine ⟨⟨?_, rfl, ?_⟩, rfl, rfl⟩
      · rintro range ⟨⟩
        exact ⟨view, rfl, hptr, hlen, hinside⟩
      · intro view₀ view₁ hview₀ hview₁ i _
        cases hview₀.symm.trans hview₁
        rfl

def stepSink (options : RunOptions) (sink : OutputSlot) (step : GuestCall) : OutputSlot :=
  match step.call with
  | .outputWrite ptr len => sinkAfter options sink step.memory ptr.toInt len.toInt
  | _ => sink

/-- No call throws, whatever it is given. -/
theorem hostCall_spec (options : RunOptions) (step : GuestCall)
    (hcursor : state.readCursor ≤ options.input.length) :
    ∃ answer, hostCall options state step.memory step.call = some answer ∧
      Contained step.memory answer ∧ answer.state.sink = stepSink options state.sink step ∧
      ∃ n, answer.state.readCursor = state.readCursor + n ∧
        state.readCursor + n ≤ options.input.length ∧
        deliveredBy step.call answer = (options.input.drop state.readCursor).take n := by
  obtain ⟨memory, call⟩ := step
  cases call with
  | inputLen => exact ⟨_, rfl, .untouched, rfl, 0, rfl, hcursor, rfl⟩
  | inputRead ptr len => exact inputRead_spec options memory ptr len hcursor
  | outputWrite ptr len =>
    obtain ⟨hcontained, hsink, hread⟩ :=
      outputWrite_spec options state memory ptr.toInt len.toInt
    exact ⟨_, rfl, hcontained, hsink, 0, hread, hcursor, rfl⟩
  | «partition» => exact ⟨_, rfl, .untouched, rfl, 0, rfl, hcursor, rfl⟩

/-! ## Runs -/

def delivered (steps : List GuestCall) (answers : List Answer) : Bytes :=
  (List.zipWith (fun step answer => deliveredBy step.call answer) steps answers).flatten

/-- A run is answered call by call, and its answers are contained. -/
theorem answersOf_spec (options : RunOptions) {state : HostState} (steps : List GuestCall)
    (hcursor : state.readCursor ≤ options.input.length) :
    ∃ answers, answersOf options state steps = some answers ∧
      List.Forall₂ (fun step answer => Contained step.memory answer) steps answers ∧
      (stateAfter state answers).sink = steps.foldl (stepSink options) state.sink ∧
      options.input.take state.readCursor ++ delivered steps answers
        = options.input.take (stateAfter state answers).readCursor := by
  induction steps generalizing state with
  | nil => exact ⟨[], rfl, .nil, rfl, List.append_nil _⟩
  | cons step steps ih =>
    obtain ⟨answer, hanswer, hcontained, hsink, n, hread, hmore, hdelivered⟩ :=
      hostCall_spec options step hcursor
    have hcursor' : answer.state.readCursor ≤ options.input.length := by omega
    obtain ⟨answers, hanswers, hall, hsinks, hbytes⟩ := ih hcursor'
    refine ⟨answer :: answers, ?_, .cons hcontained hall, ?_, ?_⟩
    · rw [answersOf, hanswer]
      simp only [Option.bind_eq_bind, Option.bind_some, hanswers]
      rfl
    · rw [List.foldl_cons, ← hsink]
      exact hsinks
    · have hfirst : options.input.take state.readCursor ++ deliveredBy step.call answer
          = options.input.take answer.state.readCursor := by
        rw [hdelivered, hread, List.take_add]
      show options.input.take state.readCursor
          ++ (deliveredBy step.call answer ++ delivered steps answers)
        = options.input.take (stateAfter answer.state answers).readCursor
      rw [← List.append_assoc, hfirst, hbytes]

/-! ## The output -/

theorem foldl_stepSink_refused (steps : List GuestCall) (reason : JsString) :
    steps.foldl (stepSink options) (.refused reason) = .refused reason := by
  induction steps with
  | nil => rfl
  | cons step steps ih =>
    have hstep : stepSink options (.refused reason) step = .refused reason := by
      unfold stepSink
      split <;> rfl
    rw [List.foldl_cons, hstep, ih]

def Accepts (options : RunOptions) (step : GuestCall) (bytes : Bytes) : Prop :=
  ∃ ptr len, step.call = .outputWrite ptr len ∧
    takeOutput options step.memory ptr.toInt len.toInt = .ok bytes

def AllAccepted (options : RunOptions) (steps : List GuestCall) : Prop :=
  ∀ step ∈ steps, ∀ ptr len, step.call = .outputWrite ptr len → ∃ bytes, Accepts options step bytes

variable {steps : List GuestCall}

/-- Where nothing is refused in the end, every write was accepted. -/
theorem allAccepted_of_foldl {sink : OutputSlot}
    (h : ∀ reason, steps.foldl (stepSink options) sink ≠ .refused reason) :
    AllAccepted options steps := by
  induction steps generalizing sink with
  | nil => exact fun step hstep => by cases hstep
  | cons step steps ih =>
    intro other hother ptr len hcall
    rcases List.mem_cons.mp hother with rfl | hlater
    · -- a write that is not accepted would be refused, and stay so
      cases htaken : takeOutput options other.memory ptr.toInt len.toInt with
      | ok bytes => exact ⟨bytes, ptr, len, hcall, htaken⟩
      | error reason =>
        have hrefused : ∃ why, stepSink options sink other = .refused why := by
          simp only [stepSink, hcall, sinkAfter, htaken]
          split
          · exact ⟨_, rfl⟩
          · exact ⟨_, rfl⟩
        obtain ⟨why, hwhy⟩ := hrefused
        refine absurd ?_ (h why)
        rw [List.foldl_cons, hwhy, foldl_stepSink_refused]
    · exact ih h other hlater ptr len hcall

/-- Bytes that are left were written last, and no write was refused. -/
theorem written_last {bytes : Bytes} (h : steps.foldl (stepSink options) .empty = .written bytes) :
    ∃ before step after, steps = before ++ step :: after ∧ Accepts options step bytes ∧
      ∀ later ∈ after, ∀ ptr len, later.call ≠ .outputWrite ptr len := by
  induction steps using List.reverseRecOn with
  | nil => cases h
  | append_singleton steps step ih =>
    rw [List.foldl_append, List.foldl_cons, List.foldl_nil] at h
    cases hcall : step.call with
    | outputWrite ptr len =>
      refine ⟨steps, step, [], rfl, ⟨ptr, len, hcall, ?_⟩, by rintro later ⟨⟩⟩
      simp only [stepSink, hcall, sinkAfter] at h
      split at h
      · cases h
      · split at h
        · cases h
        · next taken htaken =>
          cases h
          exact htaken
    | _ =>
      have hsame : stepSink options (steps.foldl (stepSink options) .empty) step
          = steps.foldl (stepSink options) .empty := by
        simp only [stepSink, hcall]
      rw [hsame] at h
      obtain ⟨before, last, after, rfl, haccepts, hnone⟩ := ih h
      refine ⟨before, last, after ++ [step], by simp, haccepts, ?_⟩
      intro later hlater ptr len hwrite
      rcases List.mem_append.mp hlater with hafter | hlast
      · exact hnone later hafter ptr len hwrite
      · rw [List.mem_singleton.mp hlast, hcall] at hwrite
        cases hwrite

/-- No call takes a refusal back. -/
theorem hostCall_refused {call : HostCall} {answer : Answer} {reason : JsString}
    (hrefused : state.sink = .refused reason) (h : hostCall options state memory call = some answer) :
    answer.state.sink = .refused reason := by
  cases call with
  | inputRead ptr len =>
    cases memory with
    | none =>
      cases h
      exact hrefused
    | some view =>
      simp only [hostCall, inputRead] at h
      split at h
      · cases h
        exact hrefused
      · simp only [Option.bind_eq_bind, Option.bind_eq_some_iff] at h
        obtain ⟨view', -, h⟩ := h
        cases h
        exact hrefused
  | outputWrite ptr len =>
    cases h
    rw [(outputWrite_spec options state memory ptr.toInt len.toInt).2.1, hrefused]
    rfl
  | _ =>
    cases h
    exact hrefused

/-- Once refused, always refused. -/
theorem refused_stays {answers : List Answer} {reason : JsString}
    (h : answersOf options state steps = some answers) (k : Nat)
    (hrefused : (stateAfter state (answers.take k)).sink = .refused reason) :
    (stateAfter state answers).sink = .refused reason := by
  induction steps generalizing state answers k with
  | nil =>
    cases h
    rwa [List.take_nil] at hrefused
  | cons step steps ih =>
    simp only [answersOf, Option.bind_eq_bind, Option.bind_eq_some_iff] at h
    obtain ⟨answer, hanswer, rest, hrest, h⟩ := h
    cases h
    show (stateAfter answer.state rest).sink = .refused reason
    cases k with
    | zero => exact ih hrest 0 (hostCall_refused hrefused hanswer)
    | succ k => exact ih hrest k hrefused

theorem unpack_packPartition {partitionIndex partitionCount : Nat}
    (hindex : partitionIndex < partitionCount) (hcount : partitionCount ≤ MAX_PARTITIONS) :
    (packPartition partitionIndex partitionCount >>> 16).toNat = partitionIndex ∧
      (packPartition partitionIndex partitionCount &&& 0xffff).toNat = partitionCount := by
  have hcount : partitionCount < 2 ^ 16 := Nat.lt_succ_of_le hcount
  have hlow : ∀ n : Nat, n < 2 ^ 16 → (BitVec.ofNat 32 n &&& 0xffff).toNat = n := by
    intro n hn
    rw [BitVec.toNat_and, BitVec.toNat_ofNat, Nat.mod_eq_of_lt (by omega)]
    exact Nat.and_two_pow_sub_one_of_lt_two_pow hn
  have hpacked : (packPartition partitionIndex partitionCount).toNat
      = partitionIndex * 2 ^ 16 + partitionCount := by
    rw [packPartition, BitVec.toNat_or, BitVec.toNat_shiftLeft, hlow _ (by omega), hlow _ hcount,
      Nat.shiftLeft_eq, Nat.mod_eq_of_lt (by omega), ← Nat.shiftLeft_eq,
      ← Nat.shiftLeft_add_eq_or_of_lt hcount, Nat.shiftLeft_eq]
  constructor
  · rw [BitVec.toNat_ushiftRight, hpacked, Nat.shiftRight_eq_div_pow]
    omega
  · rw [BitVec.toNat_and, hpacked]
    show (partitionIndex * 2 ^ 16 + partitionCount) &&& (2 ^ 16 - 1) = partitionCount
    rw [Nat.and_two_pow_sub_one_eq_mod]
    omega

/-- A run succeeds with the bytes it wrote last, and only where no write was refused. -/
theorem execute_eq_ok {executor : WasmExecutor} {task : Task} {ending : Ending}
    {output : CanonicalValue} {cost : Cost} {attestation : AttestedResult}
    (h : executor.execute task steps ending = .ok output cost attestation) :
    ∃ input, executor.blocks task.inputCid = some input ∧
      AllAccepted (executor.runOptions task input) steps ∧
      ∃ before step after bytes, steps = before ++ step :: after ∧
        Accepts (executor.runOptions task input) step bytes ∧
        (∀ later ∈ after, ∀ ptr len, later.call ≠ .outputWrite ptr len) ∧
        executor.decodeCanonical bytes = .ok output := by
  unfold WasmExecutor.execute at h
  split at h
  · cases h
  · split at h
    · cases h
    · cases h
    · next input _ hinput =>
      refine ⟨input, hinput, ?_⟩
      obtain ⟨answers, hanswers, -, hsink, -⟩ :=
        @answersOf_spec (executor.runOptions task input) .initial steps (Nat.zero_le _)
      rw [hanswers] at h
      cases ending with
      | instantiationFailed cause => cases h
      | noEntrypoint => cases h
      | trapped cause => cases h
      | returned execMs peakMemoryPages =>
        cases hlast : (stateAfter .initial answers).sink with
        | empty =>
          simp only [hlast, WasmExecutor.outcomeOf] at h
          cases h
        | refused reason =>
          simp only [hlast, WasmExecutor.outcomeOf] at h
          cases h
        | written bytes =>
          simp only [hlast, WasmExecutor.outcomeOf] at h
          rw [hlast] at hsink
          have hwritten : steps.foldl (stepSink (executor.runOptions task input)) .empty
              = .written bytes := hsink.symm
          obtain ⟨before, step, after, hsplit, haccepts, hnone⟩ := written_last hwritten
          refine ⟨allAccepted_of_foldl (by rw [hwritten]; rintro reason ⟨⟩), before, step,
            after, bytes, hsplit, haccepts, hnone, ?_⟩
          split at h
          · cases h
          · next decoded hdecoded =>
            cases h
            exact hdecoded

/-- Whatever a guest calls, the host stays inside its memory, delivers its input from the start on
    and keeps a refusal; a run succeeds with what was written last; and the partition is unpacked
    as it was packed. -/
theorem guests_are_contained :
    (∀ (options : RunOptions) (steps : List GuestCall),
      ∃ answers, answersOf options .initial steps = some answers ∧
        List.Forall₂ (fun step answer => Contained step.memory answer) steps answers ∧
        delivered steps answers <+: options.input ∧
        ∀ k reason, (stateAfter .initial (answers.take k)).sink = .refused reason →
          (stateAfter .initial answers).sink = .refused reason) ∧
    (∀ (executor : WasmExecutor) (task : Task) (steps : List GuestCall) (ending : Ending)
      (output : CanonicalValue) (cost : Cost) (attestation : AttestedResult),
      executor.execute task steps ending = .ok output cost attestation →
      ∃ input, executor.blocks task.inputCid = some input ∧
        AllAccepted (executor.runOptions task input) steps ∧
        ∃ (before : List GuestCall) (view : Bytes) (ptr len : BitVec 32) (after : List GuestCall),
          steps = before ++ ⟨some view, .outputWrite ptr len⟩ :: after ∧
          (∀ later ∈ after, ∀ ptr len, later.call ≠ .outputWrite ptr len) ∧
          0 ≤ ptr.toInt ∧ 0 ≤ len.toInt ∧ ptr.toInt + len.toInt ≤ view.length ∧
          executor.decodeCanonical ((view.drop ptr.toInt.toNat).take len.toInt.toNat)
            = .ok output) ∧
    (∀ partitionIndex partitionCount, partitionIndex < partitionCount →
      partitionCount ≤ MAX_PARTITIONS →
      (packPartition partitionIndex partitionCount >>> 16).toNat = partitionIndex ∧
      (packPartition partitionIndex partitionCount &&& 0xffff).toNat = partitionCount) := by
  refine ⟨?_, ?_, fun _ _ => unpack_packPartition⟩
  · intro options steps
    obtain ⟨answers, hanswers, hcontained, -, hdelivered⟩ :=
      @answersOf_spec options .initial steps (Nat.zero_le _)
    refine ⟨answers, hanswers, hcontained, ?_, fun k reason => refused_stays hanswers k⟩
    rw [show HostState.initial.readCursor = 0 from rfl, List.take_zero, List.nil_append] at hdelivered
    rw [hdelivered]
    exact List.take_prefix _ _
  · intro executor task steps ending output cost attestation h
    obtain ⟨input, hinput, hall, before, step, after, bytes, hsplit, haccepts, hnone, hdecoded⟩ :=
      execute_eq_ok h
    obtain ⟨ptr, len, hcall, htaken⟩ := haccepts
    obtain ⟨view, hmemory, hptr, hlen, hinside, rfl⟩ := takeOutput_eq_ok htaken
    obtain ⟨memory, call⟩ := step
    cases hcall
    cases hmemory
    exact ⟨input, hinput, hall, before, view, ptr, len, after, hsplit, hnone, hptr, hlen, hinside,
      hdecoded⟩

/-- A node that holds one module and one input, each two bytes long. -/
def smallExecutor : WasmExecutor where
  blocks _ := some [7, 8]
  maxOutputBytes := .finite 4
  numberText _ := js "4"
  decodeCanonical bytes := .ok (.bytes bytes)

def smallTask : Task where
  moduleCid := ⟨js "m", by decide, by decide⟩
  inputCid := ⟨js "i", by decide, by decide⟩
  partitionIndex := 2
  partitionCount := 3
  label := .pub
  ownerId := none

/-- Its guest reads its input twice, and writes what it has read. -/
def smallSteps : List GuestCall :=
  [⟨some [0, 0, 0], .inputRead 1 5⟩, ⟨some [0, 7, 8], .inputRead 3 1⟩,
    ⟨some [0, 7, 8], .outputWrite 1 2⟩]

theorem execute_small : ∃ cost, smallExecutor.execute smallTask smallSteps (.returned 1 1)
    = .ok (.bytes [7, 8]) cost .signedByNobody := ⟨_, rfl⟩

theorem guests_are_contained_small :
    (∃ input, smallExecutor.blocks smallTask.inputCid = some input ∧
      AllAccepted (smallExecutor.runOptions smallTask input) smallSteps) ∧
    (packPartition 2 3 >>> 16).toNat = 2 ∧ (packPartition 2 3 &&& 0xffff).toNat = 3 := by
  obtain ⟨-, hruns, hpartition⟩ := guests_are_contained
  obtain ⟨cost, hexecuted⟩ := execute_small
  obtain ⟨input, hinput, hall, -⟩ := hruns smallExecutor smallTask smallSteps _ _ _ _ hexecuted
  exact ⟨⟨input, hinput, hall⟩, hpartition 2 3 (by decide) (by decide)⟩

end O2Fabric.Wasm
