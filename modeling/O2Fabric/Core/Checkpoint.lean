/-
  O2Fabric.Core.Checkpoint

  Checkpoints of a job: which shards were completed with which result, and the
  handle of the checkpoint before.  Written as a canonical record under its own
  content address, read back with every field checked.

  A blockstore is what it answers `get` with: nothing, bytes that do not
  decode, or the value the bytes decode to.
-/

import O2Fabric.Core.Platform
import O2Fabric.Lib.InsertionMap
import Mathlib.Data.List.Sort

namespace O2Fabric

/-! ## The store -/

/-- What a block decodes to, or why it does not. -/
abbrev Block := Except JsString CanonicalValue

/-- The blocks a store holds. -/
abbrev Blocks := Cid → Option Block

/-- The store holds this block. -/
def Blocks.Holds (blocks : Blocks) (cid : Cid) : Prop := (blocks cid).isSome

/-- A canonical encoding put under its address. -/
def Blocks.put (blocks : Blocks) (cid : Cid) (value : CanonicalValue) : Blocks :=
  Function.update blocks cid (some (.ok value))

theorem Blocks.holds_put_self (blocks : Blocks) (cid : Cid) (value : CanonicalValue) :
    (blocks.put cid value).Holds cid := by
  rw [Holds, put, Function.update_self]
  rfl

/-- Nothing a store holds goes when a block is put. -/
theorem Blocks.Holds.put {blocks : Blocks} {cid : Cid} (h : blocks.Holds cid) (cid' : Cid)
    (value : CanonicalValue) : (blocks.put cid' value).Holds cid := by
  by_cases heq : cid = cid'
  · subst heq
    exact holds_put_self blocks cid value
  · rw [Holds, Blocks.put, Function.update_of_ne heq]
    exact h

/-! ## Checkpoints -/

/-- A shard that is done, and the text of its result's address. -/
structure CompletedShard where
  partitionIndex : Nat
  resultCid : JsString
  deriving DecidableEq

structure JobCheckpoint where
  jobId : JsString
  moduleCid : JsString
  partitionCount : Nat
  completed : List CompletedShard
  at_ : Nat
  previous : Option JsString
  deriving DecidableEq

/-- A checkpoint over a state, one entry a partition (the last one stands), in
    order of partition. -/
def checkpointOf (jobId moduleCid : JsString) (partitionCount : Nat)
    (completed : List CompletedShard) (at_ : Nat) (previous : Option JsString) : JobCheckpoint where
  jobId := jobId
  moduleCid := moduleCid
  partitionCount := partitionCount
  completed :=
    (InsertionMap.ofPairs (completed.map fun shard => (shard.partitionIndex, shard.resultCid))
      |>.entries.map fun entry => CompletedShard.mk entry.1 entry.2).insertionSort
        fun a b => a.partitionIndex ≤ b.partitionIndex
  at_ := at_
  previous := previous

def whole (n : Nat) : CanonicalValue := .number (.finite n)

def toValue (checkpoint : JobCheckpoint) : CanonicalValue :=
  .record [
    (js "jobId", .text checkpoint.jobId),
    (js "moduleCid", .text checkpoint.moduleCid),
    (js "partitionCount", whole checkpoint.partitionCount),
    (js "completed", .list (checkpoint.completed.map fun shard =>
      .record [(js "partitionIndex", whole shard.partitionIndex),
        (js "resultCid", .text shard.resultCid)])),
    (js "at", whole checkpoint.at_),
    (js "previous", (checkpoint.previous.map CanonicalValue.text).getD .null)]

/-! ## Reading one back -/

inductive CheckpointFailure
  | blockMissing (cid : JsString)
  | undecodable (cid : JsString)
  | malformed (cid field : JsString)
  deriving DecidableEq

def field (fields : List (JsString × CanonicalValue)) (name : JsString) : Option CanonicalValue :=
  InsertionMap.lookup name fields

@[simp] theorem field_nil (name : JsString) : field [] name = none := rfl

@[simp] theorem field_cons (key name : JsString) (value : CanonicalValue)
    (fields : List (JsString × CanonicalValue)) :
    field ((key, value) :: fields) name = if key = name then some value else field fields name :=
  rfl

@[simp] theorem field_append (fields more : List (JsString × CanonicalValue)) (name : JsString) :
    field (fields ++ more) name = (field fields name).or (field more name) := by
  induction fields with
  | nil => simp
  | cons entry fields ih =>
    obtain ⟨key, value⟩ := entry
    rw [List.cons_append, field_cons, field_cons, ih]
    split <;> simp

def asRecord : CanonicalValue → Option (List (JsString × CanonicalValue))
  | .record fields => some fields
  | _ => none

/-- `asRecord` of a checkpoint, which takes a link for an object too: it has none of the fields. -/
def asObject : CanonicalValue → Option (List (JsString × CanonicalValue))
  | .record fields => some fields
  | .cid _ => some []
  | _ => none

def asText : Option CanonicalValue → Option JsString
  | some (.text text) => some text
  | _ => none

def asWholeNumber : Option CanonicalValue → Option Nat
  | some (.number (.finite x)) => if x.isInt && decide (0 ≤ x) then some x.num.toNat else none
  | _ => none

/-- `null` or a text. -/
def asHandle : Option CanonicalValue → Option (Option JsString)
  | some .null => some none
  | some (.text text) => some (some text)
  | _ => none

def asList : Option CanonicalValue → Option (List CanonicalValue)
  | some (.list items) => some items
  | _ => none

@[simp] theorem asText_text (text : JsString) : asText (some (.text text)) = some text := rfl

@[simp] theorem asList_list (items : List CanonicalValue) :
    asList (some (.list items)) = some items := rfl

theorem asWholeNumber_whole (n : Nat) : asWholeNumber (some (whole n)) = some n := by
  have hint : (n : ℚ).isInt = true := beq_iff_eq.mpr (Rat.den_natCast n)
  simp [asWholeNumber, whole, hint]

/-- One entry of a checkpoint's `completed`. -/
def asCompletedShard (partitionCount : Nat) (entry : CanonicalValue) : Option CompletedShard := do
  let fields ← asObject entry
  let partitionIndex ← asWholeNumber (field fields (js "partitionIndex"))
  let resultCid ← asText (field fields (js "resultCid"))
  if partitionIndex < partitionCount then some ⟨partitionIndex, resultCid⟩ else none

/-- The field, or the failure that names it. -/
def required {α : Type} (label name : JsString) (value : Option α) :
    Except (CheckpointFailure × JsString) α :=
  match value with
  | some value => .ok value
  | none =>
    .error (.malformed label name, js "checkpoint " ++ label ++ js " has an unusable " ++ name)

/-- Read a checkpoint, or say what is wrong with it. -/
def readCheckpoint (cid : Cid) (blocks : Blocks) :
    Except (CheckpointFailure × JsString) JobCheckpoint := do
  let label := cid.toText
  match blocks cid with
  | none =>
    .error (.blockMissing label, js "checkpoint block " ++ label ++ js " is not available")
  | some (.error message) =>
    .error (.undecodable label,
      js "checkpoint block " ++ label ++ js " did not decode: " ++ message)
  | some (.ok decoded) =>
    match asObject decoded with
    | none =>
      .error (.malformed label (js "root"), js "checkpoint " ++ label ++ js " is not a record")
    | some fields => do
      let jobId ← required label (js "jobId") (asText (field fields (js "jobId")))
      let moduleCid ← required label (js "moduleCid") (asText (field fields (js "moduleCid")))
      let previous ← required label (js "previous") (asHandle (field fields (js "previous")))
      let partitionCount ← required label (js "partitionCount")
        (asWholeNumber (field fields (js "partitionCount")))
      let at_ ← required label (js "at") (asWholeNumber (field fields (js "at")))
      let entries ← required label (js "completed")
        (asList (field fields (js "completed")))
      let completed ← required label (js "completed")
        (entries.mapM (asCompletedShard partitionCount))
      return checkpointOf jobId moduleCid partitionCount completed at_ previous

/-- The newest readable of some handles, and how many were skipped before it. -/
def recoverCheckpoint (blocks : Blocks) : List Cid → Nat → Option (JobCheckpoint × Cid × Nat)
  | [], _ => none
  | cid :: rest, skipped =>
    match readCheckpoint cid blocks with
    | .ok checkpoint => some (checkpoint, cid, skipped)
    | .error _ => recoverCheckpoint blocks rest (skipped + 1)

/-! ## What a checkpoint says -/

/-- Over distinct partitions a checkpoint names each shard, and no other. -/
theorem checkpointOf_completed_perm {jobId moduleCid : JsString} {partitionCount : Nat}
    {completed : List CompletedShard} {at_ : Nat} {previous : Option JsString}
    (h : (completed.map CompletedShard.partitionIndex).Nodup) :
    (checkpointOf jobId moduleCid partitionCount completed at_ previous).completed.Perm
      completed := by
  have hpairs : ((completed.map fun shard => (shard.partitionIndex, shard.resultCid)).map
      Prod.fst).Nodup := by
    rw [List.map_map]
    exact h
  show List.Perm (List.insertionSort _ _) completed
  refine (List.perm_insertionSort _ _).trans ?_
  rw [InsertionMap.ofPairs_entries hpairs, List.map_map]
  show List.Perm (completed.map id) completed
  rw [List.map_id]

end O2Fabric
