/-
  O2Fabric.Core.Checkpoint.Resume

  `writeCheckpoint`, and what is read back of it.  A block is kept under the
  address of its bytes, and whatever is found there is decoded and checked
  field by field; `remainingWork` is what a resumed job still has to run.

  The decoder and the address of some bytes are parameters.  A block that does
  not decode answers the message of what is thrown.
-/

import O2Fabric.Core.DagCbor
import O2Fabric.Lib.Fallible

namespace O2Fabric.Checkpoint

/-! ## The store -/

/-- The blocks that a store holds, as bytes under their addresses. -/
abbrev ByteStore := Cid → Option Bytes

/-- What a reader finds in a store. -/
def decoded (decodeCanonical : Bytes → Except JsString CanonicalValue) (store : ByteStore) : Blocks :=
  fun cid => (store cid).map decodeCanonical

section

variable (codec : DagCbor) (address : Bytes → Cid)

/-- Write a checkpoint: its address and the store with it; `none` where it throws. -/
def writeCheckpoint (checkpoint : JobCheckpoint) (store : ByteStore) : Option (Cid × ByteStore) := do
  let bytes ← codec.encodeCanonical (toValue checkpoint)
  return (address bytes, Function.update store (address bytes) (some bytes))

end

/-- Partition indices still to run. -/
def remainingWork (checkpoint : JobCheckpoint) : List Nat :=
  let done := checkpoint.completed.map CompletedShard.partitionIndex
  (List.range checkpoint.partitionCount).filter fun i => decide (i ∉ done)

/-! ## The completed shards -/

/-- No partition stands with two results. -/
def ConflictFree (completed : List CompletedShard) : Prop :=
  ∀ a ∈ completed, ∀ b ∈ completed, a.partitionIndex = b.partitionIndex → a = b

/-- The shards of a checkpoint, whatever the job and the clock. -/
def completedOf (completed : List CompletedShard) : List CompletedShard :=
  (checkpointOf [] [] 0 completed 0 none).completed

variable {completed : List CompletedShard}

variable {shard : CompletedShard}

/-- Every shard of a checkpoint is one that was given, and no partition is lost. -/
theorem mem_completedOf (h : shard ∈ completedOf completed) :
    shard ∈ completed := by
  simp only [completedOf, checkpointOf, List.mem_insertionSort, List.mem_map] at h
  obtain ⟨entry, hentry, rfl⟩ := h
  obtain ⟨given, hgiven, rfl⟩ := List.mem_map.mp (InsertionMap.mem_of_mem_entries_ofPairs hentry)
  exact hgiven

theorem completedOf_indices {i : Nat} :
    i ∈ (completedOf completed).map CompletedShard.partitionIndex ↔
      i ∈ completed.map CompletedShard.partitionIndex := by
  have hkeys : i ∈ (InsertionMap.ofPairs (completed.map fun shard =>
      (shard.partitionIndex, shard.resultCid))).keys ↔ i ∈ _ := InsertionMap.mem_keys_ofPairs
  rw [List.map_map] at hkeys
  show _ ↔ i ∈ completed.map (Prod.fst ∘ fun shard => (shard.partitionIndex, shard.resultCid))
  rw [← hkeys]
  simp [completedOf, checkpointOf, InsertionMap.keys]

theorem completedOf_increasing (completed : List CompletedShard) :
    (completedOf completed).Pairwise fun a b => a.partitionIndex < b.partitionIndex := by
  have hsorted : (completedOf completed).Pairwise fun a b => a.partitionIndex ≤ b.partitionIndex := by
    have : Std.Total fun a b : CompletedShard => a.partitionIndex ≤ b.partitionIndex :=
      ⟨fun a b => Nat.le_total _ _⟩
    have : IsTrans CompletedShard fun a b => a.partitionIndex ≤ b.partitionIndex :=
      ⟨fun _ _ _ => Nat.le_trans⟩
    exact List.pairwise_insertionSort _ _
  have hdistinct : (completedOf completed).Pairwise
      fun a b => a.partitionIndex ≠ b.partitionIndex := by
    refine List.pairwise_map.mp ?_
    have hkeys := InsertionMap.keys_nodup (InsertionMap.ofPairs (completed.map fun shard =>
      (shard.partitionIndex, shard.resultCid)))
    refine (((List.perm_insertionSort _ _).map CompletedShard.partitionIndex).nodup_iff).mpr ?_
    rw [List.map_map]
    exact hkeys
  exact (hsorted.and hdistinct).imp fun ⟨hle, hne⟩ => lt_of_le_of_ne hle hne

/-- Where no partition stands with two results, a checkpoint has just the shards it was given. -/
theorem mem_completedOf_iff (h : ConflictFree completed) :
    shard ∈ completedOf completed ↔ shard ∈ completed := by
  refine ⟨mem_completedOf, fun hgiven => ?_⟩
  obtain ⟨kept, hkept, hindex⟩ := List.mem_map.mp
    (completedOf_indices.mpr (List.mem_map_of_mem hgiven))
  rw [h shard hgiven kept (mem_completedOf hkept) hindex.symm]
  exact hkept

theorem increasing_ext {xs ys : List CompletedShard}
    (hxs : xs.Pairwise fun a b => a.partitionIndex < b.partitionIndex)
    (hys : ys.Pairwise fun a b => a.partitionIndex < b.partitionIndex)
    (hmem : ∀ shard, shard ∈ xs ↔ shard ∈ ys) : xs = ys := by
  have : Std.Antisymm fun a b : CompletedShard => a.partitionIndex < b.partitionIndex :=
    ⟨fun _ _ hab hba => absurd (hab.trans hba) (lt_irrefl _)⟩
  have : Std.Irrefl fun a b : CompletedShard => a.partitionIndex < b.partitionIndex :=
    ⟨fun _ => lt_irrefl _⟩
  exact hxs.eq_of_mem_iff hys (fun {shard} => hmem shard)

/-- The order and the repetitions of a list without conflicts leave no trace. -/
theorem completedOf_eq {other : List CompletedShard} (h : ConflictFree completed)
    (hmem : ∀ shard, shard ∈ other ↔ shard ∈ completed) :
    completedOf other = completedOf completed := by
  have hother : ConflictFree other := fun a ha b hb => h a ((hmem a).mp ha) b ((hmem b).mp hb)
  apply increasing_ext (completedOf_increasing other) (completedOf_increasing completed)
  intro shard
  rw [mem_completedOf_iff hother, mem_completedOf_iff h, hmem]

/-- A list that increases is kept as it is. -/
theorem completedOf_self
    (h : completed.Pairwise fun a b => a.partitionIndex < b.partitionIndex) :
    completedOf completed = completed := by
  have hnodup : (completed.map CompletedShard.partitionIndex).Nodup :=
    List.pairwise_map.mpr (h.imp fun hlt => hlt.ne)
  apply increasing_ext (completedOf_increasing completed) h
  intro shard
  exact mem_completedOf_iff fun a ha b hb => List.inj_on_of_nodup_map hnodup ha hb

/-! ## What is read -/

/-- Strictly in order of partition, and inside the job. -/
structure WellFormed (checkpoint : JobCheckpoint) : Prop where
  increasing : checkpoint.completed.Pairwise fun a b => a.partitionIndex < b.partitionIndex
  inside : ∀ shard ∈ checkpoint.completed, shard.partitionIndex < checkpoint.partitionCount

variable {partitionCount : Nat}

theorem asCompletedShard_inside {entry : CanonicalValue}
    (h : asCompletedShard partitionCount entry = some shard) :
    shard.partitionIndex < partitionCount := by
  simp only [asCompletedShard, Option.bind_eq_bind, Option.bind_eq_some_iff,
    Option.ite_none_right_eq_some, Option.some.injEq] at h
  obtain ⟨fields, -, i, -, resultCid, -, hlt, rfl⟩ := h
  exact hlt

structure Reads (fields : List (JsString × CanonicalValue)) (checkpoint : JobCheckpoint)
    (completed : List CompletedShard) : Prop where
  jobId : asText (field fields (js "jobId")) = some checkpoint.jobId
  moduleCid : asText (field fields (js "moduleCid")) = some checkpoint.moduleCid
  previous : asHandle (field fields (js "previous")) = some checkpoint.previous
  partitionCount : asWholeNumber (field fields (js "partitionCount"))
    = some checkpoint.partitionCount
  at_ : asWholeNumber (field fields (js "at")) = some checkpoint.at_
  entries : ∃ entries, asList (field fields (js "completed")) = some entries ∧
    entries.mapM (asCompletedShard checkpoint.partitionCount) = some completed
  completed : checkpoint.completed = completedOf completed

theorem required_ok {α : Type} {label name : JsString} {value : Option α} {found : α} :
    required label name value = .ok found ↔ value = some found := by
  cases value with
  | none => simp [required]
  | some value => simp [required]

variable {cid : Cid} {blocks : Blocks} {checkpoint : JobCheckpoint}

/-- A checkpoint is read exactly where each of its fields is. -/
theorem readCheckpoint_ok :
    readCheckpoint cid blocks = .ok checkpoint ↔
      ∃ value fields completed, blocks cid = some (.ok value) ∧ asObject value = some fields ∧
        Reads fields checkpoint completed := by
  unfold readCheckpoint
  dsimp only
  cases hblock : blocks cid with
  | none => simp
  | some block =>
    cases block with
    | error message => simp
    | ok value =>
      cases hfields : asObject value with
      | none => simp [hfields]
      | some fields =>
        simp only [hfields, bind_ok, required_ok]
        constructor
        · rintro ⟨jobId, hjob, moduleCid, hmodule, previous, hprevious, partitionCount,
            hcount, at_, hat, entries, hentries, completed, hcompleted, hcheckpoint⟩
          cases hcheckpoint
          exact ⟨value, fields, completed, rfl, hfields, hjob, hmodule, hprevious, hcount, hat,
            ⟨entries, hentries, hcompleted⟩, rfl⟩
        · rintro ⟨value', fields', completed, hvalue, hfields', hreads⟩
          cases hvalue
          rw [hfields] at hfields'
          cases hfields'
          obtain ⟨entries, hentries, hcompleted⟩ := hreads.entries
          refine ⟨_, hreads.jobId, _, hreads.moduleCid, _, hreads.previous, _,
            hreads.partitionCount, _, hreads.at_, entries, hentries, completed, hcompleted, ?_⟩
          obtain ⟨jobId, moduleCid, partitionCount, shards, at_, previous⟩ := checkpoint
          obtain rfl : shards = _ := hreads.completed
          rfl

theorem readCheckpoint_wellFormed (h : readCheckpoint cid blocks = .ok checkpoint) :
    WellFormed checkpoint := by
  obtain ⟨value, fields, completed, -, -, hreads⟩ := readCheckpoint_ok.mp h
  obtain ⟨entries, -, hcompleted⟩ := hreads.entries
  constructor
  · rw [hreads.completed]
    exact completedOf_increasing completed
  · intro shard hshard
    rw [hreads.completed] at hshard
    obtain ⟨entry, -, hentry⟩ := exists_of_mem_of_forall₂
      (mapM_eq_some_iff.mp hcompleted).flip (mem_completedOf hshard)
    exact asCompletedShard_inside hentry

def label : CheckpointFailure → JsString
  | .blockMissing cid => cid
  | .undecodable cid => cid
  | .malformed cid _ => cid

/-- Whatever a store holds, what is thrown names the address that was read. -/
theorem readCheckpoint_names (cid : Cid) (blocks : Blocks) :
    OnlyThrows (fun failed => label failed.1 = cid.toText) (readCheckpoint cid blocks) := by
  have hrequired : ∀ {α : Type} (name : JsString) (value : Option α),
      OnlyThrows (fun failed => label failed.1 = cid.toText) (required cid.toText name value) := by
    intro α name value failed hfailed
    cases value with
    | none =>
      cases hfailed
      rfl
    | some value => cases hfailed
  have hthrow : ∀ (failure : CheckpointFailure) (reason : JsString),
      label failure = cid.toText →
      OnlyThrows (fun failed => label failed.1 = cid.toText)
        (.error (failure, reason) : Except (CheckpointFailure × JsString) JobCheckpoint) := by
    intro failure reason hlabel failed hfailed
    cases hfailed
    exact hlabel
  unfold readCheckpoint
  dsimp only
  split
  · exact hthrow _ _ rfl
  · exact hthrow _ _ rfl
  · split
    · exact hthrow _ _ rfl
    · refine (hrequired _ _).bind fun jobId => (hrequired _ _).bind fun moduleCid =>
        (hrequired _ _).bind fun previous => (hrequired _ _).bind fun partitionCount =>
        (hrequired _ _).bind fun at_ => (hrequired _ _).bind fun entries =>
        (hrequired _ _).bind fun completed => OnlyThrows.pure _

/-! ## What was written -/

def shardToValue (shard : CompletedShard) : CanonicalValue :=
  .record [(js "partitionIndex", whole shard.partitionIndex),
    (js "resultCid", .text shard.resultCid)]

theorem asCompletedShard_same {entry : CanonicalValue} (h : (shardToValue shard).Same entry)
    (hinside : shard.partitionIndex < partitionCount) :
    asCompletedShard partitionCount entry = some shard := by
  obtain ⟨fields, rfl, -, hsame⟩ := h.of_record (by simp)
  have hindex := asWholeNumber_same (hsame (js "partitionIndex"))
  have hresult := asText_same (hsame (js "resultCid"))
  simp [asWholeNumber_whole] at hindex hresult
  simp [asCompletedShard, asObject, ← hindex, ← hresult, hinside]

theorem mapM_asCompletedShard_same {shards : List CompletedShard} {entries : List CanonicalValue}
    (h : List.Forall₂ CanonicalValue.Same (shards.map shardToValue) entries)
    (hinside : ∀ shard ∈ shards, shard.partitionIndex < partitionCount) :
    entries.mapM (asCompletedShard partitionCount) = some shards := by
  induction shards generalizing entries with
  | nil =>
    cases h
    rfl
  | cons shard shards ih =>
    cases h with
    | cons hhead htail =>
      have hone := asCompletedShard_same hhead (hinside shard List.mem_cons_self)
      have hrest := ih htail fun other hother =>
        hinside other (List.mem_cons_of_mem shard hother)
      simp [hone, hrest]

/-- What is decoded of a checkpoint's bytes is read as that checkpoint. -/
theorem readCheckpoint_same {value : CanonicalValue} (hblock : blocks cid = some (.ok value))
    (hsame : (toValue checkpoint).Same value) (h : WellFormed checkpoint) :
    readCheckpoint cid blocks = .ok checkpoint := by
  obtain ⟨fields, rfl, -, hfield⟩ := hsame.of_record (by simp)
  have hjob := asText_same (hfield (js "jobId"))
  have hmodule := asText_same (hfield (js "moduleCid"))
  have hcount := asWholeNumber_same (hfield (js "partitionCount"))
  have hat := asWholeNumber_same (hfield (js "at"))
  have hprevious := asHandle_same (hfield (js "previous"))
  have hcompleted := hfield (js "completed")
  simp [asWholeNumber_whole] at hjob hmodule hcount hat hprevious hcompleted
  refine readCheckpoint_ok.mpr ⟨_, fields, checkpoint.completed, hblock, rfl, hjob.symm,
    hmodule.symm, ?_, hcount.symm, hat.symm, ?_, (completedOf_self h.increasing).symm⟩
  · rw [← hprevious]
    cases checkpoint.previous <;> rfl
  · cases hfound : field fields (js "completed") with
    | none =>
      rw [hfound] at hcompleted
      cases hcompleted
    | some found =>
      rw [hfound] at hcompleted
      cases hcompleted with
      | some hlist =>
        cases hlist with
        | list each => exact ⟨_, rfl, mapM_asCompletedShard_same each h.inside⟩

/-! ## Resuming -/

/-- What is still to run and what is done are the job's partitions, each once. -/
theorem remainingWork_partitions (h : WellFormed checkpoint) :
    (remainingWork checkpoint ++ checkpoint.completed.map CompletedShard.partitionIndex).Perm
      (List.range checkpoint.partitionCount) := by
  have hdone : (checkpoint.completed.map CompletedShard.partitionIndex).Nodup :=
    List.pairwise_map.mpr (h.increasing.imp fun hlt => hlt.ne)
  rw [List.perm_ext_iff_of_nodup _ List.nodup_range]
  · intro i
    rw [List.mem_append, remainingWork, List.mem_filter, decide_eq_true_eq, List.mem_range]
    constructor
    · rintro (⟨hlt, -⟩ | hmem)
      · exact hlt
      · obtain ⟨shard, hshard, rfl⟩ := List.mem_map.mp hmem
        exact h.inside shard hshard
    · intro hlt
      by_cases hmem : i ∈ checkpoint.completed.map CompletedShard.partitionIndex
      · exact Or.inr hmem
      · exact Or.inl ⟨hlt, hmem⟩
  · rw [List.nodup_append]
    refine ⟨List.nodup_range.filter _, hdone, ?_⟩
    rintro i hi _ hmem rfl
    exact of_decide_eq_true (List.mem_filter.mp hi).2 hmem

theorem toValue_encodes (codec : DagCbor) (checkpoint : JobCheckpoint) :
    (codec.encodeCanonical (toValue checkpoint)).isSome = true := by
  cases hprevious : checkpoint.previous <;> simp [toValue, whole, hprevious]

/-- A checkpoint over distinct or repeated shards, in whatever order, is written under one address
    and read back as it was; whatever a store holds, what is read is a failure that names the
    address or a checkpoint whose shards are in order and inside the job; and what such a
    checkpoint leaves to run is just the rest of the job. -/
theorem checkpoint_resumes (codec : DagCbor) (address : Bytes → Cid)
    (decodeCanonical : Bytes → Except JsString CanonicalValue) :
    (∀ jobId moduleCid partitionCount completed at_ previous,
      let checkpoint := checkpointOf jobId moduleCid partitionCount completed at_ previous
      (∀ shard ∈ completed, shard.partitionIndex < partitionCount) →
      -- the codec gives back what it was given
      (∀ bytes, codec.encodeCanonical (toValue checkpoint) = some bytes →
        ∃ value, decodeCanonical bytes = .ok value ∧ (toValue checkpoint).Same value) →
      ∀ store, ∃ cid store',
        writeCheckpoint codec address checkpoint store = some (cid, store') ∧
        readCheckpoint cid (decoded decodeCanonical store') = .ok checkpoint) ∧
    (∀ jobId moduleCid partitionCount completed other at_ previous store,
      ConflictFree completed → (∀ shard, shard ∈ other ↔ shard ∈ completed) →
      (writeCheckpoint codec address
          (checkpointOf jobId moduleCid partitionCount other at_ previous) store).map Prod.fst
        = (writeCheckpoint codec address
          (checkpointOf jobId moduleCid partitionCount completed at_ previous) store).map Prod.fst) ∧
    (∀ cid store,
      (∃ failure reason, readCheckpoint cid (decoded decodeCanonical store) = .error (failure, reason) ∧
        label failure = cid.toText) ∨
      ∃ checkpoint, readCheckpoint cid (decoded decodeCanonical store) = .ok checkpoint ∧
        WellFormed checkpoint ∧
        (remainingWork checkpoint ++ checkpoint.completed.map CompletedShard.partitionIndex).Perm
          (List.range checkpoint.partitionCount)) := by
  refine ⟨?_, ?_, ?_⟩
  · intro jobId moduleCid partitionCount completed at_ previous checkpoint hinside hround store
    obtain ⟨bytes, hbytes⟩ := Option.isSome_iff_exists.mp (toValue_encodes codec checkpoint)
    obtain ⟨value, hdecoded, hsame⟩ := hround bytes hbytes
    have hwell : WellFormed checkpoint :=
      ⟨completedOf_increasing completed, fun shard hshard => hinside shard (mem_completedOf hshard)⟩
    refine ⟨address bytes, Function.update store (address bytes) (some bytes), ?_, ?_⟩
    · simp [writeCheckpoint, hbytes]
    · apply readCheckpoint_same _ hsame hwell
      simp [decoded, hdecoded]
  · intro jobId moduleCid partitionCount completed other at_ previous store hfree hmem
    have hsame : checkpointOf jobId moduleCid partitionCount other at_ previous
        = checkpointOf jobId moduleCid partitionCount completed at_ previous := by
      have heq := completedOf_eq hfree hmem
      exact congrArg (fun shards => JobCheckpoint.mk jobId moduleCid partitionCount shards at_ previous)
        heq
    rw [hsame]
  · intro cid store
    cases hread : readCheckpoint cid (decoded decodeCanonical store) with
    | error failed =>
      exact Or.inl ⟨failed.1, failed.2, rfl, readCheckpoint_names cid _ failed hread⟩
    | ok checkpoint =>
      have hwell := readCheckpoint_wellFormed hread
      exact Or.inr ⟨checkpoint, rfl, hwell, remainingWork_partitions hwell⟩

/-- A job of three partitions, of which the last is done, and is named twice. -/
theorem checkpoint_resumes_third :
    let checkpoint := checkpointOf (js "j") (js "m") 3 [⟨2, js "r"⟩, ⟨2, js "r"⟩] 7 none
    ∃ cid store', writeCheckpoint plainDagCbor (fun _ => plainCid) checkpoint (fun _ => none)
        = some (cid, store') ∧
      readCheckpoint cid (decoded (fun _ => .ok (toValue checkpoint).inOrder) store') = .ok checkpoint :=
  (checkpoint_resumes plainDagCbor (fun _ => plainCid) _).1 (js "j") (js "m") 3
    [⟨2, js "r"⟩, ⟨2, js "r"⟩] 7 none (by decide)
    (fun _ _ => ⟨_, rfl, CanonicalValue.same_inOrder _⟩) fun _ => none

end O2Fabric.Checkpoint
