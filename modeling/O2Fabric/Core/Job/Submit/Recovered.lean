/-
  O2Fabric.Core.Job.Submit.Recovered

  What a requestor that comes back finds of a job: the handles it published, and
  a store that may have lost some of the blocks.
-/

import O2Fabric.Core.Checkpoint.Lineage
import O2Fabric.Core.Job.Submit.Published

namespace O2Fabric.Submit

open Checkpoint Job Threads

variable {p : Platform} {spec : JobSpec} {options : SubmitOptions}
  {ask : Bool → Nat → Offer → Admission} {prepared : Prepared}
  {c : Config Nat Shared ShardState} {store : Blocks} {n : Nat} {entry : Cid × JobCheckpoint}

/-- Of what was published a store has lost some blocks and kept the others. -/
def Keeps (store : Blocks) (published : List (Cid × JobCheckpoint)) : Prop :=
  ∀ entry ∈ published, store entry.1 = none ∨
    ∃ value, store entry.1 = some (.ok value) ∧ (toValue entry.2).Same value

/-- The block of a published checkpoint is still there. -/
def held (store : Blocks) (entry : Cid × JobCheckpoint) : Bool := (store entry.1).isSome

/-- Each of these is the handle of a checkpoint published after this one. -/
def After (published : List (Cid × JobCheckpoint)) (n : Nat) (seen : List JsString) : Prop :=
  ∀ text ∈ seen, ∃ m e, n < m ∧ published[m]? = some e ∧ e.1.toText = text

theorem carry_inside {blocks : Blocks} {count : Nat} {completed : List CompletedShard}
    {carried : InsertionMap Nat CarriedShard} (h : ∀ entry ∈ carried.entries, entry.1 < count) :
    ∀ entry ∈ (completed.foldl (carry p blocks count) carried).entries, entry.1 < count := by
  induction completed generalizing carried with
  | nil => exact h
  | cons shard rest ih =>
    apply ih
    intro entry hmem
    rw [carry] at hmem
    split at hmem
    · exact h entry hmem
    next hlt =>
    split at hmem
    · exact h entry hmem
    split at hmem
    · rcases InsertionMap.mem_of_mem_write hmem with rfl | hold
      · exact Nat.not_le.mp hlt
      · exact h entry hold
    · exact h entry hmem

section

variable (hprepared : PreparedFrom p spec options ask prepared)
include hprepared

/-- What is carried over is of the job. -/
theorem carriedShards_inside :
    ∀ shard ∈ carriedShards prepared.job, shard.partitionIndex < spec.shards.length := by
  intro shard hshard
  obtain ⟨entry, hentry, rfl⟩ := List.mem_map.mp hshard
  have hresumed := hprepared.resumed
  generalize prepared.job.carried = carried at hresumed hentry
  generalize prepared.job.resumedFrom = resumedFrom at hresumed
  unfold resumeState at hresumed
  split at hresumed
  · cases hresumed
    cases hentry
  · split at hresumed
    · dsimp only at hresumed
      split at hresumed <;> cases hresumed
    · split at hresumed
      · cases hresumed
      · cases hresumed
        exact carry_inside (List.forall_mem_nil _) entry hentry

variable (h : Recorded p prepared.job c) (hstore : Keeps store c.shared.log.published)
  (hentry : c.shared.log.published[n]? = some entry)
include h hstore hentry

/-- A published checkpoint whose block is there reads back as it was written. -/
theorem read_published : store entry.1 = none ∨ readCheckpoint entry.1 store = .ok entry.2 := by
  refine (hstore entry (List.mem_of_getElem? hentry)).imp_right ?_
  rintro ⟨value, hblock, hsame⟩
  obtain ⟨at_, heq⟩ := h.linked.views n entry hentry
  obtain ⟨-, hnames, -⟩ := published_names hprepared h hentry
  refine readCheckpoint_same hblock hsame ⟨by rw [heq]; exact completedOf_increasing _, ?_⟩
  intro shard hshard
  have hcount : entry.2.partitionCount = spec.shards.length := by
    rw [heq, ← hprepared.fromSpec]
    rfl
  rw [hcount]
  rcases List.mem_append.mp (hnames.mem_iff.mp hshard) with hcarried | hrecorded
  · exact carriedShards_inside hprepared shard hcarried
  · obtain ⟨plan, hplan⟩ := h.known shard (List.mem_of_mem_take hrecorded)
    rw [← hprepared.planned]
    exact (List.getElem?_eq_some_iff.mp hplan).1

/-- No two published checkpoints that are there have one handle. -/
theorem handles_distinct {m : Nat} {other : Cid × JobCheckpoint}
    (hother : c.shared.log.published[m]? = some other) (hheld : store entry.1 ≠ none)
    (hhandle : other.1 = entry.1) : m = n := by
  have hread := (read_published hprepared h hstore hentry).resolve_left hheld
  have hread' := (read_published hprepared h hstore hother).resolve_left (hhandle ▸ hheld)
  rw [hhandle, hread] at hread'
  obtain ⟨-, hnames, hn⟩ := published_names hprepared h hentry
  obtain ⟨-, hnames', hm⟩ := published_names hprepared h hother
  have hlength := hnames.length_eq.symm.trans
    ((congrArg (fun checkpoint => checkpoint.completed.length) (Except.ok.inj hread')).trans
      hnames'.length_eq)
  simp only [List.length_append, List.length_take] at hlength
  omega

variable {resolve : JsString → Option Cid} (seen : List JsString)

/-- One round of the walk, at a published checkpoint after which the others were seen. -/
theorem walk_step (hseen : After c.shared.log.published n seen) (rounds : Nat) :
    checkpointChain store resolve (rounds + 1) seen (some entry.1)
    = if held store entry then
        (checkpointChain store resolve rounds (entry.1.toText :: seen)
          (entry.2.previous.bind resolve)).map (entry.2 :: ·)
      else some [] := by
  rw [checkpointChain]
  rcases read_published hprepared h hstore hentry with hlost | hread
  · obtain ⟨_, hnot⟩ := readCheckpoint_missing hlost
    rw [hnot, held, hlost]
    split <;> rfl
  · have hthere : store entry.1 ≠ none := fun hnone => by
      rw [readCheckpoint, hnone] at hread
      cases hread
    have hnew : entry.1.toText ∉ seen := fun hmem => by
      obtain ⟨m, other, hm, hother, htext⟩ := hseen _ hmem
      have hsame := handles_distinct hprepared h hstore hentry hother hthere
        (Cid.toText_injective htext)
      omega
    rw [if_neg hnew, hread, held, Option.isSome_iff_ne_none.mpr hthere]
    rfl

/-- The walk from a published checkpoint of a job started afresh. -/
theorem walk_published (hfresh : prepared.job.resumedFrom = none)
    (hresolve : ∀ e ∈ c.shared.log.published, resolve e.1.toText = some e.1)
    (hseen : After c.shared.log.published n seen) :
    checkpointChain store resolve (n + 2) seen (some entry.1)
      = some (((c.shared.log.published.take (n + 1)).reverse.takeWhile (held store)).map
          Prod.snd) := by
  induction n generalizing entry seen with
  | zero =>
    have hprevious := (published_names hprepared h hentry).1
    rw [walk_step hprepared h hstore hentry seen hseen, List.take_add_one, hentry, hprevious,
      CheckpointLog.handleBefore, hfresh]
    cases hheld : held store entry <;> simp [hheld, checkpointChain]
  | succ n ih =>
    obtain ⟨hprevious, -, -⟩ := published_names hprepared h hentry
    obtain ⟨before, hbefore⟩ : ∃ before, c.shared.log.published[n]? = some before :=
      ⟨_, List.getElem?_eq_getElem
        (Nat.lt_of_succ_lt (List.getElem?_eq_some_iff.mp hentry).1)⟩
    rw [walk_step hprepared h hstore hentry seen hseen, List.take_add_one, hentry, hprevious,
      CheckpointLog.handleBefore, hbefore]
    have hnext := ih hbefore (entry.1.toText :: seen) ?_
    · show (if _ then (checkpointChain store resolve (n + 2) _ (resolve before.1.toText)).map _
        else _) = _
      rw [hresolve before (List.mem_of_getElem? hbefore), hnext]
      cases hheld : held store entry <;> simp [hheld]
    · intro text htext
      rcases List.mem_cons.mp htext with rfl | hold
      · exact ⟨n + 1, entry, Nat.lt_succ_self n, hentry, rfl⟩
      · obtain ⟨m, other, hm, hother⟩ := hseen text hold
        exact ⟨m, other, Nat.lt_of_succ_lt hm, hother⟩

end

/-- Whatever the interleaving and whichever blocks are lost since, what a job published is
    recovered from its handles: the newest checkpoint whose block is left, with the number
    lost before it.  From any of its handles, the walk back through a job started afresh
    finds just the checkpoints up to the first that is lost. -/
theorem published_checkpoints_recover {blocks : Blocks} {now : ℚ}
    (hprepare : prepare p spec options blocks ask now = .ok prepared)
    (hsink : options.checkpoints = true) (hreach : Reaches p prepared c)
    (hstore : Keeps store c.shared.log.published) :
    recoverCheckpoint store (c.shared.log.published.reverse.map Prod.fst) 0
      = ((c.shared.log.published.reverse.findIdx? (held store)).bind fun lost =>
          c.shared.log.published.reverse[lost]?.map fun e => (e.2, e.1, lost)) ∧
    ∀ resolve : JsString → Option Cid,
      (∀ e ∈ c.shared.log.published, resolve e.1.toText = some e.1) →
      prepared.job.resumedFrom = none → ∀ n entry, c.shared.log.published[n]? = some entry →
      checkpointChain store resolve (n + 2) [] (some entry.1)
        = some (((c.shared.log.published.take (n + 1)).reverse.takeWhile (held store)).map
            Prod.snd) := by
  have hprepared := prepare_ok hprepare
  have h := recorded_reached hprepared (by rw [hprepared.fromOptions]; exact hsink) hreach
  refine ⟨?_, fun resolve hresolve hfresh n entry hentry =>
    walk_published hprepared h hstore hentry [] hfresh hresolve (List.forall_mem_nil _)⟩
  rw [recoverCheckpoint_eq fun e he => ?_]
  · simp only [Nat.zero_add]
    rfl
  · obtain ⟨n, hentry⟩ := List.mem_iff_getElem?.mp (List.mem_reverse.mp he)
    exact read_published hprepared h hstore hentry

def singleSpec : JobSpec := bareSpec [⟨.null, .pub⟩] [bareNode (js "k") (js "o")] 1

/-- One shard, up to the checkpoint handed to the sink. -/
def singleRun : List (Event Nat ShardEvent ChainEvent) :=
  [.own 0 (.grant 0 0 0), .own 0 (.answer 0 (.verified [answers])), .own 0 (.deliver (js "k") 1),
    .own 0 (.resume 1 1), .own 0 .store, .own 0 .record, .alone (.begin 2), .alone .put,
    .alone .publish]

theorem published_checkpoints_recover_single : ∃ prepared c entry,
    playOut plain singleSpec chainedOptions (fun _ => none) (fun _ _ _ => .accepted none) 0
      singleRun = some (prepared, c) ∧
    c.shared.log.published = [entry] ∧
    recoverCheckpoint (fun _ => some (.ok (toValue entry.2).inOrder)) [entry.1] 0
      = some (entry.2, entry.1, 0) ∧
    checkpointChain (fun _ => some (.ok (toValue entry.2).inOrder)) (fun _ => some entry.1) 2 []
      (some entry.1) = some [entry.2] := by
  have hrun : (playOut plain singleSpec chainedOptions (fun _ => none)
      (fun _ _ _ => .accepted none) 0 singleRun).map
        (fun run => (run.2.shared.log.published.length, run.1.job.resumedFrom))
      = some (1, none) := by
    decide +kernel
  obtain ⟨⟨prepared, c⟩, hplay, hrun⟩ := Option.map_eq_some_iff.mp hrun
  obtain ⟨hlength, hfresh⟩ := Prod.mk.inj hrun
  obtain ⟨entry, hpublished⟩ := List.length_eq_one_iff.mp hlength
  obtain ⟨hprepare, hrun⟩ := playOut_spec hplay
  have hreach : Reaches plain prepared c := System.Reaches.of_run (fun _ _ _ => trivial) hrun
  have hkeeps : Keeps (fun _ => some (.ok (toValue entry.2).inOrder)) c.shared.log.published := by
    rw [show c.shared.log.published = [entry] from hpublished]
    exact List.forall_mem_singleton.mpr (Or.inr ⟨_, rfl, CanonicalValue.same_inOrder _⟩)
  obtain ⟨hrecovers, hwalks⟩ := published_checkpoints_recover hprepare rfl hreach hkeeps
  have hwalk := hwalks (fun _ => some entry.1)
  rw [show c.shared.log.published = [entry] from hpublished] at hrecovers hwalk
  exact ⟨prepared, c, entry, hplay, hpublished, hrecovers, hwalk
    (List.forall_mem_singleton.mpr rfl) hfresh 0 entry rfl⟩

end O2Fabric.Submit
