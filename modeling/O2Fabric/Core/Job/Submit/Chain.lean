/-
  O2Fabric.Core.Job.Submit.Chain

  The checkpoints a job publishes form one chain of growing complete views, in
  every interleaving of its shards with the writes of the chain.

  `recorded` lists the shards that joined the chain, in order.  `Linked` says of
  the log alone where the chain stands in that list: what was begun, what waits
  and what each published checkpoint names.  `Kept` says of one shard that it
  joined exactly if its loop is past that point, and what it joined with.  A
  shard changes of the log only what belongs to it, so the second is kept by
  rely and guarantee.
-/

import O2Fabric.Core.Job.Submit.Sovereign

namespace O2Fabric.Submit

open Job Threads

/-! ## The chain -/

/-- The shards carried over from the checkpoint resumed from. -/
def carriedShards (job : PreparedJob) : List CompletedShard := (startLog job).completed

def Link.begun : Link → Nat
  | .idle => 0
  | _ => 1

/-- A link has reached the sink. -/
def Link.handed : Link → Nat
  | .publishing => 1
  | _ => 0

namespace CheckpointLog

def begun (log : CheckpointLog) : Nat := log.done + log.link.begun

/-- How many checkpoints were handed to the sink. -/
def handed (log : CheckpointLog) : Nat := log.done + log.link.handed

/-- The shards that joined the chain, in order. -/
def recorded (job : PreparedJob) (log : CheckpointLog) : List CompletedShard :=
  (log.completed ++ log.queue).drop (carriedShards job).length

/-- What the published checkpoint of this number is to name as the one before. -/
def handleBefore (job : PreparedJob) (log : CheckpointLog) : Nat → Option JsString
  | 0 => job.resumedFrom.map Cid.toText
  | n + 1 => log.published[n]?.map fun entry => entry.1.toText

theorem recorded_eq {job : PreparedJob} {log : CheckpointLog} {shards : List CompletedShard}
    (h : log.completed ++ log.queue = carriedShards job ++ shards) :
    log.recorded job = shards := by
  rw [recorded, h, List.drop_left]

end CheckpointLog

/-- The checkpoint of the carried shards and the first `n + 1` that joined. -/
def viewOf (job : PreparedJob) (recorded : List CompletedShard) (n at_ : Nat)
    (previous : Option JsString) : JobCheckpoint :=
  checkpointOf job.jobId job.spec.moduleCid.toText job.spec.shards.length
    (carriedShards job ++ recorded.take (n + 1)) at_ previous

/-- Where the chain stands in the list of those that joined. -/
structure Linked (job : PreparedJob) (log : CheckpointLog) : Prop where
  entered : log.completed = carriedShards job ++ (log.recorded job).take log.begun
  waiting : log.queue = (log.recorded job).drop log.begun
  room : log.begun ≤ (log.recorded job).length
  count : log.published.length = log.handed
  previous : log.previous = log.handleBefore job log.published.length
  views : ∀ n entry, log.published[n]? = some entry → ∃ at_,
    entry.2 = viewOf job (log.recorded job) n at_ (log.handleBefore job n)
  writing : ∀ checkpoint, (log.link = .writing checkpoint ∨
      ∃ handle, log.link = .written handle checkpoint) → ∃ at_,
    checkpoint = viewOf job (log.recorded job) log.done at_ log.previous

variable {p : Platform} {job : PreparedJob} {plan : ShardPlan} {s s' : Shared}
  {st st' : ShardState}

variable {log : CheckpointLog}

theorem Linked.all (h : Linked job log) :
    log.completed ++ log.queue = carriedShards job ++ log.recorded job := by
  conv_lhs => rw [h.entered, h.waiting, List.append_assoc, List.take_append_drop]

theorem CheckpointLog.handed_le_begun (log : CheckpointLog) : log.handed ≤ log.begun := by
  apply Nat.add_le_add_left
  cases log.link with
  | idle | writing | written => exact Nat.zero_le _
  | publishing => exact Nat.le_refl _

variable {log' : CheckpointLog}

/-- A checkpoint once published, the ones up to it do not change. -/
theorem handleBefore_of_prefix {more : List (Cid × JobCheckpoint)}
    (h : log'.published = log.published ++ more) {n : Nat} (hn : n ≤ log.published.length) :
    log'.handleBefore job n = log.handleBefore job n := by
  cases n with
  | zero => rfl
  | succ n =>
    show log'.published[n]?.map _ = log.published[n]?.map _
    rw [h, List.getElem?_append_left hn]

theorem Linked.join (h : Linked job log) (entry : CompletedShard) :
    Linked job { log with queue := log.queue ++ [entry] } ∧
      ({ log with queue := log.queue ++ [entry] } : CheckpointLog).recorded job
        = log.recorded job ++ [entry] := by
  have hrecorded : ({ log with queue := log.queue ++ [entry] } : CheckpointLog).recorded job
      = log.recorded job ++ [entry] := by
    apply CheckpointLog.recorded_eq
    show log.completed ++ (log.queue ++ [entry]) = _
    rw [← List.append_assoc, h.all, List.append_assoc]
  have htake : ∀ n, n ≤ (log.recorded job).length →
      (log.recorded job ++ [entry]).take n = (log.recorded job).take n :=
    fun n hn => List.take_append_of_le_length hn
  have hroom := h.room
  have hhanded := h.count
  have hle := log.handed_le_begun
  refine ⟨⟨?_, ?_, ?_, h.count, h.previous, ?_, ?_⟩, hrecorded⟩
  · rw [hrecorded]
    show log.completed = carriedShards job ++ (log.recorded job ++ [entry]).take log.begun
    rw [htake _ hroom]
    exact h.entered
  · rw [hrecorded]
    show log.queue ++ [entry] = (log.recorded job ++ [entry]).drop log.begun
    rw [List.drop_append_of_le_length hroom, ← h.waiting]
  · rw [hrecorded, List.length_append]
    exact Nat.le_add_right_of_le hroom
  · intro n published hpublished
    obtain ⟨at_, heq⟩ := h.views n published hpublished
    have hn : n < log.published.length := (List.getElem?_eq_some_iff.mp hpublished).1
    refine ⟨at_, ?_⟩
    rw [hrecorded, viewOf, htake (n + 1) (by omega)]
    exact heq
  · intro checkpoint hlink
    obtain ⟨at_, heq⟩ := h.writing checkpoint hlink
    -- The link that runs is among those begun.
    have hbegun : log.begun = log.done + 1 := by
      rw [CheckpointLog.begun]
      rcases hlink with hlink | ⟨_, hlink⟩ <;> rw [show log.link = _ from hlink] <;> rfl
    refine ⟨at_, ?_⟩
    rw [hrecorded, viewOf, htake (log.done + 1) (by omega)]
    exact heq

/-- The next of a list is where it is dropped to. -/
theorem take_succ_of_drop {α : Type} {xs rest : List α} {x : α} {n : Nat}
    (h : xs.drop n = x :: rest) :
    xs.take (n + 1) = xs.take n ++ [x] ∧ xs.drop (n + 1) = rest ∧ n + 1 ≤ xs.length := by
  have hlt : n < xs.length := by
    by_contra hge
    rw [List.drop_of_length_le (by omega)] at h
    cases h
  rw [List.drop_eq_getElem_cons hlt] at h
  obtain ⟨hx, hrest⟩ := List.cons.inj h
  refine ⟨?_, hrest, hlt⟩
  rw [← hx]
  exact List.take_succ_eq_append_getElem hlt

/-- Where nothing is entered and no link begins, the list is as it was. -/
theorem Linked.same (log' : CheckpointLog) (h : Linked job log)
    (hcompleted : log'.completed = log.completed) (hqueue : log'.queue = log.queue)
    (hbegun : log'.begun = log.begun) :
    log'.recorded job = log.recorded job ∧
      log'.completed = carriedShards job ++ (log'.recorded job).take log'.begun ∧
      log'.queue = (log'.recorded job).drop log'.begun ∧
      log'.begun ≤ (log'.recorded job).length := by
  have hrecorded : log'.recorded job = log.recorded job := by
    rw [CheckpointLog.recorded, hcompleted, hqueue]
    rfl
  rw [hrecorded, hbegun, hcompleted, hqueue]
  exact ⟨rfl, h.entered, h.waiting, h.room⟩

/-- The next link begins. -/
theorem Linked.begin (h : Linked job log) (hidle : log.link = .idle) {shard : CompletedShard}
    {rest : List CompletedShard} (hqueue : log.queue = shard :: rest) (at_ : Nat)
    (hafter : log' = { log with
      completed := log.completed ++ [shard]
      queue := rest
      link := .writing (checkpointOf job.jobId job.spec.moduleCid.toText job.spec.shards.length
        (log.completed ++ [shard]) at_ log.previous) }) :
    Linked job log' ∧ log'.recorded job = log.recorded job := by
  subst hafter
  have hbegun : log.begun = log.done := by
    rw [CheckpointLog.begun, hidle]
    rfl
  have hwaiting := h.waiting
  rw [hqueue, hbegun] at hwaiting
  obtain ⟨htake, hdrop, hlt⟩ := take_succ_of_drop hwaiting.symm
  have hcompleted : log.completed ++ [shard]
      = carriedShards job ++ (log.recorded job).take (log.done + 1) := by
    have hentered := h.entered
    rw [hbegun] at hentered
    rw [htake, ← List.append_assoc, ← hentered]
  have hrecorded : ({ log with
        completed := log.completed ++ [shard]
        queue := rest
        link := .writing (checkpointOf job.jobId job.spec.moduleCid.toText job.spec.shards.length
          (log.completed ++ [shard]) at_ log.previous) } : CheckpointLog).recorded job
      = log.recorded job := by
    apply CheckpointLog.recorded_eq
    show log.completed ++ [shard] ++ rest = _
    rw [← h.all, hqueue, List.append_assoc, List.singleton_append]
  refine ⟨⟨?_, ?_, ?_, ?_, h.previous, ?_, ?_⟩, hrecorded⟩
  · rw [hrecorded]
    exact hcompleted
  · rw [hrecorded]
    exact hdrop.symm
  · rw [hrecorded]
    exact hlt
  · have hcount := h.count
    rw [CheckpointLog.handed, hidle] at hcount
    exact hcount
  · rw [hrecorded]
    exact h.views
  · rintro checkpoint (hlink | ⟨_, hlink⟩)
    · cases hlink
      refine ⟨at_, ?_⟩
      rw [hrecorded, viewOf, ← hcompleted]
    · cases hlink

/-- Its checkpoint is in the store. -/
theorem Linked.put (h : Linked job log) {checkpoint : JobCheckpoint}
    (hlink : log.link = .writing checkpoint) (handle : Cid)
    (hafter : log' = { log with link := .written handle checkpoint }) :
    Linked job log' ∧ log'.recorded job = log.recorded job := by
  subst hafter
  obtain ⟨hrecorded, hentered, hwaiting, hroom⟩ :=
    h.same { log with link := .written handle checkpoint } rfl rfl
      (by rw [CheckpointLog.begun, CheckpointLog.begun, hlink]; rfl)
  refine ⟨⟨hentered, hwaiting, hroom, ?_, h.previous, h.views, ?_⟩, hrecorded⟩
  · have hcount := h.count
    rw [CheckpointLog.handed, hlink] at hcount
    exact hcount
  · rintro checkpoint' (hwriting | ⟨_, hwritten⟩)
    · cases hwriting
    · cases hwritten
      exact h.writing checkpoint (Or.inl hlink)

/-- It is handed to the sink. -/
theorem Linked.publish (h : Linked job log) {handle : Cid} {checkpoint : JobCheckpoint}
    (hlink : log.link = .written handle checkpoint) (hafter : log' = { log with
      previous := some handle.toText
      published := log.published ++ [(handle, checkpoint)]
      link := .publishing }) :
    Linked job log' ∧ log'.recorded job = log.recorded job := by
  obtain ⟨hrecorded, hentered, hwaiting, hroom⟩ :=
    h.same log' (by rw [hafter]) (by rw [hafter])
      (by rw [hafter, CheckpointLog.begun, CheckpointLog.begun, hlink]; rfl)
  have hpublished : log'.published = log.published ++ [(handle, checkpoint)] := by rw [hafter]
  have hcount : log.published.length = log.done := by
    rw [h.count, CheckpointLog.handed, hlink]
    rfl
  refine ⟨⟨hentered, hwaiting, hroom, ?_, ?_, ?_, ?_⟩, hrecorded⟩
  · rw [hpublished, List.length_append, hcount, hafter]
    rfl
  · rw [hpublished, List.length_append]
    show _ = log'.published[log.published.length]?.map _
    rw [hpublished, List.getElem?_concat_length, hafter]
    rfl
  · intro n entry hentry
    rw [hrecorded]
    have hentry' := hentry
    rw [hpublished] at hentry'
    rcases Nat.lt_or_ge n log.published.length with hlt | hge
    · rw [List.getElem?_append_left hlt] at hentry'
      rw [ handleBefore_of_prefix hpublished (Nat.le_of_lt hlt)]
      exact h.views n entry hentry'
    · -- The one just published: it was written with what was published before it.
      have hlt := (List.getElem?_eq_some_iff.mp hentry').1
      rw [List.length_append, List.length_singleton] at hlt
      have hn : n = log.published.length := by omega
      subst hn
      rw [List.getElem?_concat_length, Option.some.injEq] at hentry'
      obtain ⟨at_, heq⟩ := h.writing checkpoint (Or.inr ⟨handle, hlink⟩)
      refine ⟨at_, ?_⟩
      rw [ handleBefore_of_prefix hpublished (Nat.le_refl _), ← h.previous, hcount, ← hentry']
      exact heq
  · rw [hafter]
    rintro checkpoint' (hwriting | ⟨_, hwritten⟩)
    · cases hwriting
    · cases hwritten

/-- The sink is done with it. -/
theorem Linked.acknowledge (h : Linked job log) (hlink : log.link = .publishing)
    (hafter : log' = { log with done := log.done + 1, link := .idle }) :
    Linked job log' ∧ log'.recorded job = log.recorded job := by
  subst hafter
  obtain ⟨hrecorded, hentered, hwaiting, hroom⟩ :=
    h.same { log with done := log.done + 1, link := .idle } rfl rfl
      (by rw [CheckpointLog.begun, CheckpointLog.begun, hlink]; rfl)
  refine ⟨⟨hentered, hwaiting, hroom, ?_, h.previous, h.views, ?_⟩, hrecorded⟩
  · have hcount := h.count
    rw [CheckpointLog.handed, hlink] at hcount
    exact hcount
  · rintro checkpoint' (hwriting | ⟨_, hwritten⟩)
    · cases hwriting
    · cases hwritten

/-- A stretch of the chain: nobody joins, nothing that is done or held goes. -/
theorem Linked.chainStep {event : ChainEvent} (h : Linked job s.log)
    (hstep : chainStep p job event s = some s') :
    Linked job s'.log ∧ s'.log.recorded job = s.log.recorded job ∧ s.log.done ≤ s'.log.done ∧
      ∀ cid, s.blocks.Holds cid → s'.blocks.Holds cid := by
  obtain ⟨at_, shard, rest, -, hidle, hqueue, rfl⟩ | ⟨checkpoint, handle, -, hlink, -, rfl⟩ |
    ⟨handle, checkpoint, -, hlink, rfl⟩ | ⟨-, hlink, rfl⟩ := chainStep_cases hstep
  · obtain ⟨hlinked, hrecorded⟩ := h.begin hidle hqueue _ rfl
    exact ⟨hlinked, hrecorded, Nat.le_refl _, fun _ hheld => hheld⟩
  · obtain ⟨hlinked, hrecorded⟩ := h.put hlink handle rfl
    exact ⟨hlinked, hrecorded, Nat.le_refl _, fun _ hheld => hheld.put _ _⟩
  · obtain ⟨hlinked, hrecorded⟩ := h.publish hlink rfl
    exact ⟨hlinked, hrecorded, Nat.le_refl _, fun _ hheld => hheld⟩
  · obtain ⟨hlinked, hrecorded⟩ := h.acknowledge hlink rfl
    exact ⟨hlinked, hrecorded, Nat.le_succ _, fun _ hheld => hheld⟩

/-! ## The shards -/

/-- The loop is past the point where an agreed shard joins the chain. -/
def Phase.hasRecorded : Phase → Bool
  | .recording _ _ | .settled _ | .threw => true
  | _ => false

/-- The address the loop agreed on. -/
def agreedIn (st : ShardState) : Option Cid := st.verification.bind VerificationResult.agreedCid

/-- What the shard of this partition has joined the chain with, if it has. -/
def entryOf (i : Nat) (st : ShardState) : List CompletedShard :=
  if st.phase.hasRecorded then
    ((agreedIn st).map fun cid => CompletedShard.mk i cid.toText).toList
  else []

/-- What the log and the store say of this shard. -/
structure Kept (p : Platform) (job : PreparedJob) (i : Nat) (plan : ShardPlan) (s : Shared)
    (st : ShardState) : Prop where
  wellFormed : Throughout (VerificationResult.WellFormed p.canonicalCid) st
  joined : (s.log.recorded job).filter (fun entry => decide (entry.partitionIndex = i))
    = entryOf i st
  recording : ∀ ending ticket, st.phase = .recording ending ticket → ∃ n cid,
    ticket = n + 1 ∧ agreedIn st = some cid ∧ (s.log.recorded job)[n]? = some ⟨i, cid.toText⟩
  settled : ∀ shard, st.phase = .settled shard → ∀ entry ∈ entryOf i st,
    ∃ n < s.log.done, (s.log.recorded job)[n]? = some entry
  stored : ∀ ending, st.phase = .stored ending → ∀ cid, agreedIn st = some cid →
    s.blocks.Holds cid
  carried : ∀ shard, plan.carried = some shard → st.verification = none ∧
    st.phase = .settled ⟨carriedResult plan shard, [], some shard.resultCid.toText⟩
  result : plan.carried = none → ∀ shard, st.phase = .settled shard →
    shard.result.verification.agreedCid = agreedIn st

/-- What shard `i` may change of what is shared: it may join, under its own
    partition, and put blocks. -/
structure Guarantees (job : PreparedJob) (i : Nat) (s s' : Shared) : Prop where
  recorded : ∃ more, s'.log.recorded job = s.log.recorded job ++ more ∧
    ∀ entry ∈ more, entry.partitionIndex = i
  done : s.log.done ≤ s'.log.done
  blocks : ∀ cid, s.blocks.Holds cid → s'.blocks.Holds cid

theorem Guarantees.refl (i : Nat) (s : Shared) : Guarantees job i s s :=
  ⟨⟨[], (List.append_nil _).symm, List.forall_mem_nil _⟩, Nat.le_refl _, fun _ h => h⟩

/-- A change that leaves the log and the store. -/
theorem Guarantees.of_same (i : Nat) (hlog : s'.log = s.log) (hblocks : s'.blocks = s.blocks) :
    Guarantees job i s s' := by
  refine ⟨⟨[], ?_, List.forall_mem_nil _⟩, ?_, ?_⟩
  · rw [hlog, List.append_nil]
  · rw [hlog]
  · rw [hblocks]
    exact fun _ h => h

variable {i : Nat}

/-- What other shards do, and the chain, leaves a shard as it is. -/
theorem Kept.stable (h : Kept p job i plan s st) {more : List CompletedShard}
    (hrecorded : s'.log.recorded job = s.log.recorded job ++ more)
    (hother : ∀ entry ∈ more, entry.partitionIndex ≠ i) (hdone : s.log.done ≤ s'.log.done)
    (hblocks : ∀ cid, s.blocks.Holds cid → s'.blocks.Holds cid) : Kept p job i plan s' st := by
  have hprefix : ∀ (n : Nat) entry, (s.log.recorded job)[n]? = some entry →
      (s'.log.recorded job)[n]? = some entry := by
    intro n entry hentry
    rw [hrecorded, List.getElem?_append_left (List.getElem?_eq_some_iff.mp hentry).1]
    exact hentry
  refine ⟨h.wellFormed, ?_, ?_, ?_, ?_, h.carried, h.result⟩
  · have hnone : more.filter (fun entry => decide (entry.partitionIndex = i)) = [] := by
      rw [List.filter_eq_nil_iff]
      intro entry hentry hsame
      exact hother entry hentry (of_decide_eq_true hsame)
    rw [hrecorded, List.filter_append, hnone, List.append_nil]
    exact h.joined
  · intro ending ticket hphase
    obtain ⟨n, cid, hticket, hagreed, hentry⟩ := h.recording ending ticket hphase
    exact ⟨n, cid, hticket, hagreed, hprefix n _ hentry⟩
  · intro shard hphase entry hentry
    obtain ⟨n, hn, hat⟩ := h.settled shard hphase entry hentry
    exact ⟨n, Nat.lt_of_lt_of_le hn hdone, hprefix n _ hat⟩
  · exact fun ending hphase cid hagreed => hblocks cid (h.stored ending hphase cid hagreed)

theorem agreedCid_settledOf (ending : ShardEnding) (st : ShardState) :
    (settledOf plan ending st).agreedCid = agreedIn st := by
  rw [settledOf, agreedIn]
  cases st.verification <;> rfl

theorem isAgreed_iff_agreedCid {v : Verification} : v.isAgreed = false ↔ v.agreedCid = none := by
  cases v with
  | agreed =>
    constructor
    · intro h
      cases h
    · intro h
      cases h
  | disagreed | insufficient => exact ⟨fun _ => rfl, fun _ => rfl⟩

theorem entryOf_eq_nil (h : st.phase.hasRecorded = false) : entryOf i st = [] := by
  rw [entryOf, h]
  rfl

theorem entryOf_eq (h : st.phase.hasRecorded = true) :
    entryOf i st = ((agreedIn st).map fun cid => CompletedShard.mk i cid.toText).toList := by
  rw [entryOf, h]
  rfl

/-- The tickets handed out are as many as joined. -/
theorem Linked.tickets (h : Linked job log) :
    log.tickets = (log.recorded job).length := by
  have hlen := congrArg List.length h.waiting
  rw [List.length_drop] at hlen
  have hroom := h.room
  have hbegun : log.begun = log.done + log.link.begun := rfl
  have htickets : log.tickets = log.done + log.queue.length + log.link.begun := by
    rw [CheckpointLog.tickets]
    cases log.link <;> rfl
  omega

/-- A shard that carries an answer is past the point from the start. -/
theorem Kept.carried_none (h : Kept p job i plan s st) (hphase : st.phase.hasRecorded = false) :
    plan.carried = none := by
  cases hcarried : plan.carried with
  | none => rfl
  | some shard =>
    rw [(h.carried shard hcarried).2] at hphase
    cases hphase

/-- A step before that point, or of a shard not past it. -/
theorem Kept.apart (h : Kept p job i plan s st)
    (hall : Throughout (VerificationResult.WellFormed p.canonicalCid) st')
    (hbefore : st.phase.hasRecorded = false) (hafter : st'.phase.hasRecorded = false)
    (hstored : ∀ ending, st'.phase ≠ .stored ending) (hlog : s'.log = s.log) :
    Kept p job i plan s' st' := by
  have hnone := h.carried_none hbefore
  refine ⟨hall, ?_, ?_, ?_, ?_, ?_, ?_⟩
  · rw [hlog, h.joined, entryOf_eq_nil hbefore, entryOf_eq_nil hafter]
  · intro ending ticket hphase
    rw [hphase] at hafter
    cases hafter
  · intro shard hphase
    rw [hphase] at hafter
    cases hafter
  · exact fun ending hphase => absurd hphase (hstored ending)
  · intro shard hcarried
    rw [hnone] at hcarried
    cases hcarried
  · intro _ shard hphase
    rw [hphase] at hafter
    cases hafter

/-- A step that leaves the phase and what was agreed. -/
theorem Kept.waits (h : Kept p job i plan s st)
    (hall : Throughout (VerificationResult.WellFormed p.canonicalCid) st')
    (hphase : st'.phase = st.phase) (hverification : st'.verification = st.verification) :
    Kept p job i plan s st' := by
  have hagreed : agreedIn st' = agreedIn st := by rw [agreedIn, agreedIn, hverification]
  have hentry : entryOf i st' = entryOf i st := by rw [entryOf, entryOf, hphase, hagreed]
  refine ⟨hall, ?_, ?_, ?_, ?_, ?_, ?_⟩
  · rw [hentry]
    exact h.joined
  · rw [hphase, hagreed]
    exact h.recording
  · rw [hphase, hentry]
    exact h.settled
  · rw [hphase, hagreed]
    exact h.stored
  · rw [hphase, hverification]
    exact h.carried
  · rw [hphase, hagreed]
    exact h.result

/-- The agreed output is put under its own address. -/
theorem Kept.store (h : Kept p job i plan s st) (hstep : storeStep p plan s st = some (s', st')) :
    Kept p job i plan s' st' ∧ Guarantees job i s s' ∧ s'.log = s.log := by
  obtain ⟨ending, resultCid, output, agreeing, replicas, failures, gross, useful, hphase, hsettled,
    rfl, rfl⟩ := storeStep_cases hstep
  have hbefore : st.phase.hasRecorded = false := by
    rw [hphase]
    rfl
  have hagreed : agreedIn st = some resultCid := by
    rw [← @agreedCid_settledOf plan ending, hsettled]
    rfl
  have hcid : p.canonicalCid output = .ok resultCid := by
    cases hverification : st.verification with
    | none =>
      rw [agreedIn, hverification] at hagreed
      cases hagreed
    | some v =>
      rw [settledOf, hverification] at hsettled
      have hv := h.wellFormed.verification v hverification
      rw [show v = _ from hsettled] at hv
      exact hv.1
  have hput : withOutput p output s = { s with blocks := s.blocks.put resultCid output } := by
    rw [withOutput, hcid]
  rw [hput]
  have hnone := h.carried_none hbefore
  refine ⟨⟨⟨h.wellFormed.answers, h.wellFormed.verification, ?_⟩, ?_, ?_, ?_, ?_, ?_, ?_⟩,
    ⟨⟨[], (List.append_nil _).symm, List.forall_mem_nil _⟩, Nat.le_refl _,
      fun _ hheld => hheld.put _ _⟩, rfl⟩
  · intro v hv
    cases hv
  · rw [entryOf_eq_nil rfl]
    exact h.joined.trans (entryOf_eq_nil hbefore)
  · exact fun _ _ hphase => Phase.noConfusion hphase
  · exact fun _ hphase => Phase.noConfusion hphase
  · intro _ _ cid hcid'
    rw [show agreedIn st = some cid from hcid', Option.some.injEq] at hagreed
    rw [hagreed]
    exact Blocks.holds_put_self _ _ _
  · intro shard hcarried
    rw [hnone] at hcarried
    cases hcarried
  · exact fun _ _ hphase => Phase.noConfusion hphase

/-- The shard joins the chain. -/
theorem Kept.record {i : Nat} (h : Kept p job i plan s st) (hindex : plan.partitionIndex = i)
    (hsink : job.options.checkpoints = true) (hlinked : Linked job s.log)
    (hstep : recordStep job plan s st = some (s', st')) :
    Kept p job i plan s' st' ∧ Guarantees job i s s' ∧ Linked job s'.log ∧
      ∃ cid, s'.log.recorded job = s.log.recorded job ++ [⟨i, cid.toText⟩] ∧
        s'.blocks = s.blocks ∧ s.blocks.Holds cid := by
  obtain ⟨ending, resultCid, hphase, hsettled, ⟨-, rfl, rfl⟩ | ⟨hno, -, -⟩⟩ := recordStep_cases hstep
  · rw [agreedCid_settledOf] at hsettled
    obtain ⟨hjoined, hrecorded⟩ := hlinked.join ⟨i, resultCid.toText⟩
    have hbefore : st.phase.hasRecorded = false := by
      rw [hphase]
      rfl
    have hnone := h.carried_none hbefore
    rw [hindex]
    refine ⟨⟨⟨h.wellFormed.answers, h.wellFormed.verification, ?_⟩, ?_, ?_, ?_, ?_, ?_, ?_⟩,
      ⟨⟨_, hrecorded, ?_⟩, Nat.le_refl _, fun _ hheld => hheld⟩, hjoined, resultCid, hrecorded, rfl,
      h.stored ending hphase resultCid hsettled⟩
    · intro v hv
      cases hv
    · rw [hrecorded, List.filter_append, h.joined, entryOf_eq_nil hbefore, entryOf_eq rfl]
      have hself : List.filter (fun entry : CompletedShard => decide (entry.partitionIndex = i))
          [⟨i, resultCid.toText⟩] = [⟨i, resultCid.toText⟩] := by simp
      show [] ++ _ = ((agreedIn st).map _).toList
      rw [hsettled, hself]
      rfl
    · intro _ ticket hticket
      cases hticket
      refine ⟨(s.log.recorded job).length, resultCid, ?_, hsettled, ?_⟩
      · rw [hlinked.tickets]
      · rw [hrecorded, List.getElem?_concat_length]
    · exact fun _ hphase => Phase.noConfusion hphase
    · exact fun _ hphase => Phase.noConfusion hphase
    · intro shard hcarried
      rw [hnone] at hcarried
      cases hcarried
    · exact fun _ _ hphase => Phase.noConfusion hphase
    · exact List.forall_mem_singleton.mpr rfl
  · rw [hsink] at hno
    cases hno

/-- The shard settles, once its link is done if it joined. -/
theorem Kept.finish (h : Kept p job i plan s st)
    (hstep : finishStep p job plan s st = some (s', st')) :
    Kept p job i plan s' st' ∧ s' = s := by
  obtain ⟨rfl, ending, hphase, rfl⟩ := finishStep_cases hstep
  refine ⟨?_, rfl⟩
  have hnotSettled : ∀ shard, st.phase ≠ .settled shard := by
    rintro shard heq
    rcases hphase with ⟨hphase, -⟩ | ⟨_, hphase, -⟩ <;>
      · rw [hphase] at heq
        cases heq
  have hnone : plan.carried = none := by
    cases hcarried : plan.carried with
    | none => rfl
    | some shard => exact absurd (h.carried shard hcarried).2 (hnotSettled _)
  -- What it joined with, joined or not, is what it agreed on.
  have hentry : entryOf i st = ((agreedIn st).map fun cid => CompletedShard.mk i cid.toText).toList := by
    rcases hphase with ⟨hphase, hno⟩ | ⟨_, hphase, -⟩
    · rw [isAgreed_iff_agreedCid, agreedCid_settledOf] at hno
      rw [hno, entryOf_eq_nil (by rw [hphase]; rfl)]
      rfl
    · exact entryOf_eq (by rw [hphase]; rfl)
  have hdone : ∀ entry ∈ entryOf i st, ∃ n < s'.log.done, (s'.log.recorded job)[n]? = some entry := by
    intro entry hmem
    rcases hphase with ⟨hphase, -⟩ | ⟨ticket, hphase, hticket⟩
    · rw [entryOf_eq_nil (by rw [hphase]; rfl)] at hmem
      exact absurd hmem List.not_mem_nil
    · obtain ⟨n, cid, rfl, hagreed, hat⟩ := h.recording ending ticket hphase
      rw [hentry, hagreed] at hmem
      rw [List.mem_singleton.mp hmem]
      exact ⟨n, hticket, hat⟩
  have hmoved : ∀ {phase : Phase}, phase.hasRecorded = true → phase.inHand = none →
      (∀ ending ticket, phase ≠ .recording ending ticket) → (∀ ending, phase ≠ .stored ending) →
      (∀ shard, phase = .settled shard → shard.result.verification.agreedCid = agreedIn st) →
      Kept p job i plan s' { st with phase := phase } := by
    intro phase hrecorded hinHand hrecording hstored hresult
    have hsame : entryOf i { st with phase := phase } = entryOf i st := by
      rw [hentry]
      exact entryOf_eq hrecorded
    refine ⟨⟨h.wellFormed.answers, h.wellFormed.verification, ?_⟩, ?_, ?_, ?_, ?_, ?_, ?_⟩
    · show ∀ v, phase.inHand = some v → _
      rw [hinHand]
      intro v hv
      cases hv
    · rw [hsame]
      exact h.joined
    · exact fun ending ticket heq => absurd heq (hrecording ending ticket)
    · rw [hsame]
      exact fun _ _ => hdone
    · exact fun ending heq => absurd heq (hstored ending)
    · intro shard hcarried
      rw [hnone] at hcarried
      cases hcarried
    · exact fun _ => hresult
  rcases settle_cases p job plan ending st with ⟨-, heq⟩ | ⟨attestation, -, heq⟩
  · rw [heq]
    exact hmoved rfl rfl (fun _ _ => Phase.noConfusion) (fun _ => Phase.noConfusion)
      fun _ => Phase.noConfusion
  · rw [heq]
    refine hmoved rfl rfl (fun _ _ => Phase.noConfusion) (fun _ => Phase.noConfusion) ?_
    intro shard hshard
    cases hshard
    exact agreedCid_settledOf ending st

/-- What a shard's own step keeps, and what it changes for the others. -/
theorem Kept.step (h : Kept p job i plan s st) (hindex : plan.partitionIndex = i)
    (hsink : job.options.checkpoints = true) (hlinked : Linked job s.log) {event : ShardEvent}
    (hstep : shardStep p job plan event s st = some (s', st')) :
    Kept p job i plan s' st' ∧ Guarantees job i s s' ∧ Linked job s'.log ∧
      ∀ entry ∈ s'.log.recorded job, entry ∈ s.log.recorded job ∨
        entry.partitionIndex = i ∧ ∃ cid : Cid, cid.toText = entry.resultCid ∧ s'.blocks.Holds cid := by
  have hall : Throughout (VerificationResult.WellFormed p.canonicalCid) st' :=
    (shardStep_effects hstep).invariant h.wellFormed fun _ _ hst heffect =>
      hst.effect (fun _ _ => (verificationOf_from _ _ _ _).wellFormed)
        (fun _ _ => mergeVerifications_wellFormed) heffect
  -- Most steps are apart from all of this.
  have hapart : st.phase.hasRecorded = false → st'.phase.hasRecorded = false →
      (∀ ending, st'.phase ≠ .stored ending) → s'.log = s.log → s'.blocks = s.blocks →
      Kept p job i plan s' st' ∧ Guarantees job i s s' ∧ Linked job s'.log ∧
        ∀ entry ∈ s'.log.recorded job, entry ∈ s.log.recorded job ∨
          entry.partitionIndex = i ∧
            ∃ cid : Cid, cid.toText = entry.resultCid ∧ s'.blocks.Holds cid := by
    intro hbefore hafter hstored hlog hblocks
    refine ⟨h.apart hall hbefore hafter hstored hlog, .of_same i hlog hblocks, ?_, ?_⟩
    · rw [hlog]
      exact hlinked
    · rw [hlog]
      exact fun _ => Or.inl
  have htop : ∀ {race : Race} {at_ : ℚ}, (race.top at_).hasRecorded = false ∧
      ∀ ending, race.top at_ ≠ .stored ending := by
    intro race at_
    rcases top_cases race at_ with ⟨-, heq⟩ | ⟨-, heq⟩ <;> rw [heq] <;>
      exact ⟨rfl, fun _ => Phase.noConfusion⟩
  cases event with
  | grant now startedAt at_ =>
    obtain ⟨nodeIds, hphase, ⟨_, -, rfl, rfl⟩ | ⟨lease, _, -, rfl, rfl⟩⟩ := grantStep_cases hstep
    · exact hapart (by rw [hphase]; rfl) rfl (fun _ => Phase.noConfusion) rfl rfl
    · exact hapart (by rw [hphase]; rfl) htop.1 htop.2 rfl rfl
  | answer k answer =>
    obtain ⟨nodeIds, speculative, v, -, -, -, rfl, rfl⟩ := answerStep_cases hstep
    exact ⟨h.waits hall rfl rfl, .refl i _, hlinked, fun _ => Or.inl⟩
  | deliver key at_ =>
    obtain ⟨race, k, flight, v, hphase, -, -, -, rfl, ⟨-, rfl⟩ | ⟨-, -, rfl⟩⟩ :=
      deliverStep_cases hstep
    · exact hapart (by rw [hphase]; rfl) rfl (fun _ => Phase.noConfusion) rfl rfl
    · exact hapart (by rw [hphase]; rfl) htop.1 htop.2 rfl rfl
  | tick woke at_ =>
    obtain ⟨race, hphase, ⟨-, rfl, rfl⟩ | ⟨s₁, st₁, race₁, hspeculate, -, rfl, hst⟩⟩ :=
      tickStep_cases hstep
    · exact hapart (by rw [hphase]; rfl) rfl (fun _ => Phase.noConfusion) rfl rfl
    · have hshared : s'.log = s.log ∧ s'.blocks = s.blocks := by
        rcases speculate_cases p job plan woke race s st with ⟨_, heq⟩ | ⟨_, _, _, -, -, -, -, heq⟩
        · rw [heq] at hspeculate
          cases hspeculate
          exact ⟨rfl, rfl⟩
        · rw [heq] at hspeculate
          cases hspeculate
          exact ⟨rfl, rfl⟩
      rcases hst with rfl | ⟨-, -, rfl⟩
      · exact hapart (by rw [hphase]; rfl) htop.1 htop.2 hshared.1 hshared.2
      · exact hapart (by rw [hphase]; rfl) rfl (fun _ => Phase.noConfusion) hshared.1 hshared.2
  | probed working at_ =>
    obtain ⟨race, woke, hphase, ⟨-, rfl, rfl⟩ | ⟨-, _, -, rfl, rfl⟩ | ⟨-, _, _, -, rfl, rfl⟩⟩ :=
      probedStep_cases hstep
    · exact hapart (by rw [hphase]; rfl) htop.1 htop.2 rfl rfl
    · exact hapart (by rw [hphase]; rfl) rfl (fun _ => Phase.noConfusion) rfl rfl
    · exact hapart (by rw [hphase]; rfl) htop.1 htop.2 rfl rfl
  | resume now at_ =>
    obtain ⟨r, hphase, ⟨_, -, rfl, rfl⟩ | ⟨v, outstanding, merged, -, -,
      ⟨rfl, ⟨-, -, rfl⟩ | ⟨-, -, rfl⟩⟩ | ⟨rfl, -, rfl⟩⟩⟩ := resumeStep_cases hstep
    all_goals exact hapart (by rw [hphase]; rfl) rfl (fun _ => Phase.noConfusion) rfl rfl
  | place ask =>
    obtain ⟨hphase, rfl, ⟨_, _, _, -, rfl⟩ | ⟨_, -, rfl⟩⟩ := placeStep_cases hstep
    all_goals exact hapart (by rw [hphase]; rfl) rfl (fun _ => Phase.noConfusion) rfl rfl
  | store =>
    obtain ⟨hkept, hguarantees, hlog⟩ := h.store hstep
    refine ⟨hkept, hguarantees, ?_, ?_⟩
    · rw [hlog]
      exact hlinked
    · rw [hlog]
      exact fun _ => Or.inl
  | record =>
    obtain ⟨hkept, hguarantees, hjoined, cid, hrecorded, hblocks, hheld⟩ :=
      h.record hindex hsink hlinked hstep
    refine ⟨hkept, hguarantees, hjoined, ?_⟩
    rw [hrecorded, hblocks]
    intro entry hmem
    rcases List.mem_append.mp hmem with hold | hnew
    · exact Or.inl hold
    · rw [List.mem_singleton.mp hnew]
      exact Or.inr ⟨rfl, cid, rfl, hheld⟩
  | finish =>
    obtain ⟨hkept, rfl⟩ := h.finish hstep
    exact ⟨hkept, .refl i _, hlinked, fun _ => Or.inl⟩

/-! ## The whole -/

/-- What holds of the log, the store and every shard together. -/
structure Recorded (p : Platform) (job : PreparedJob) (c : Config Nat Shared ShardState) :
    Prop where
  linked : Linked job c.shared.log
  kept : ∀ (i : Nat) plan, job.plans[i]? = some plan → Kept p job i plan c.shared (c.locals i)
  held : ∀ entry ∈ carriedShards job ++ c.shared.log.recorded job,
    ∃ cid : Cid, cid.toText = entry.resultCid ∧ c.shared.blocks.Holds cid
  known : ∀ entry ∈ c.shared.log.recorded job, ∃ plan, job.plans[entry.partitionIndex]? = some plan

/-- What is carried over is in the store. -/
theorem held_of_carry {blocks : Blocks} {partitionCount : Nat} {completed : List CompletedShard}
    {carried : InsertionMap Nat CarriedShard}
    (h : ∀ entry ∈ carried.entries, blocks.Holds entry.2.resultCid) :
    ∀ entry ∈ (completed.foldl (carry p blocks partitionCount) carried).entries,
      blocks.Holds entry.2.resultCid := by
  induction completed generalizing carried with
  | nil => exact h
  | cons shard rest ih =>
    apply ih
    intro entry hmem
    rw [carry] at hmem
    split at hmem
    · exact h entry hmem
    · split at hmem
      · exact h entry hmem
      · split at hmem
        · next output hblock =>
          rcases InsertionMap.mem_of_mem_write hmem with rfl | hold
          · show (blocks _).isSome = true
            rw [hblock]
            rfl
          · exact h entry hold
        · exact h entry hmem

theorem held_of_resumeState {handles : List Cid} {blocks : Blocks} {jobId : JsString}
    {partitionCount : Nat} {carried : InsertionMap Nat CarriedShard} {resumedFrom : Option Cid}
    (h : resumeState p handles blocks jobId partitionCount = .ok (carried, resumedFrom)) :
    ∀ entry ∈ carried.entries, blocks.Holds entry.2.resultCid := by
  unfold resumeState at h
  split at h
  · cases h
    exact List.forall_mem_nil _
  · split at h
    · dsimp only at h
      split at h <;> cases h
    · split at h
      · cases h
      · cases h
        exact held_of_carry (List.forall_mem_nil _)

theorem recorded_start {spec : JobSpec} {options : SubmitOptions}
    {ask : Bool → Nat → Offer → Admission} {prepared : Prepared}
    (h : PreparedFrom p spec options ask prepared) : Recorded p prepared.job prepared.start := by
  have hrecorded : (startLog prepared.job).recorded prepared.job = [] :=
    CheckpointLog.recorded_eq (by rw [List.append_nil]; exact List.append_nil _)
  refine ⟨⟨?_, ?_, Nat.zero_le _, rfl, rfl, ?_, ?_⟩, ?_, ?_, ?_⟩
  · show (startLog prepared.job).completed = carriedShards prepared.job ++ List.take 0 _
    rw [List.take_zero, List.append_nil]
    rfl
  · show [] = ((startLog prepared.job).recorded prepared.job).drop 0
    rw [hrecorded]
    rfl
  · intro n entry hentry
    cases hentry
  · rintro checkpoint (hlink | ⟨_, hlink⟩) <;> cases hlink
  · intro i plan hplan
    rw [Prepared.start_locals hplan]
    have hentry : entryOf i (startShard plan) = [] := by
      have hnone : agreedIn (startShard plan) = none := by
        unfold startShard
        split
        · rfl
        · split <;> rfl
      rw [entryOf, hnone]
      split <;> rfl
    refine ⟨throughout_start _ plan, ?_, ?_, ?_, ?_, ?_, ?_⟩
    · rw [hentry]
      show ((startLog prepared.job).recorded prepared.job).filter _ = []
      rw [hrecorded]
      rfl
    · unfold startShard
      split
      · exact fun _ _ => Phase.noConfusion
      · split <;> exact fun _ _ => Phase.noConfusion
    · rw [hentry]
      exact fun _ _ => List.forall_mem_nil _
    · unfold startShard
      split
      · exact fun _ => Phase.noConfusion
      · split <;> exact fun _ => Phase.noConfusion
    · intro shard hcarried
      rw [startShard, hcarried]
      exact ⟨rfl, rfl⟩
    · intro hcarried shard hphase
      rw [startShard, hcarried] at hphase ⊢
      dsimp only at hphase ⊢
      split at hphase
      · cases hphase
        rfl
      · cases hphase
  · show ∀ entry ∈ carriedShards prepared.job ++ (startLog prepared.job).recorded prepared.job, _
    rw [hrecorded, List.append_nil]
    intro entry hmem
    obtain ⟨shard, hshard, rfl⟩ := List.mem_map.mp hmem
    exact ⟨shard.2.resultCid, rfl, held_of_resumeState h.resumed shard hshard⟩
  · show ∀ entry ∈ (startLog prepared.job).recorded prepared.job, _
    rw [hrecorded]
    exact List.forall_mem_nil _

theorem recorded_reached {spec : JobSpec} {options : SubmitOptions}
    {ask : Bool → Nat → Offer → Admission} {prepared : Prepared}
    (hprepared : PreparedFrom p spec options ask prepared)
    (hsink : prepared.job.options.checkpoints = true) {c : Config Nat Shared ShardState}
    (hreach : Reaches p prepared c) : Recorded p prepared.job c := by
  apply System.Reaches.invariant hreach (recorded_start hprepared)
  intro c e c' _ hc hstep
  obtain ⟨i, event, s, l, rfl, hown, rfl⟩ | ⟨event, s, rfl, halone, rfl⟩ := System.step_cases hstep
  · cases hplan : prepared.job.plans[i]? with
    | none =>
      simp only [running, hplan] at hown
      cases hown
    | some plan =>
      obtain ⟨hkept, hguarantees, hlinked, hnew⟩ := (hc.kept i plan hplan).step
        (hprepared.plan hplan).1 hsink hc.linked (shardStep_of_own hplan hown)
      obtain ⟨more, hmore, hits⟩ := hguarantees.recorded
      refine ⟨hlinked, ?_, ?_, ?_⟩
      · intro j other hother
        by_cases hji : j = i
        · subst hji
          rw [hplan, Option.some.injEq] at hother
          subst hother
          show Kept p prepared.job j plan s (Function.update c.locals j l j)
          rw [Function.update_self]
          exact hkept
        · show Kept p prepared.job j other s (Function.update c.locals i l j)
          rw [Function.update_of_ne hji]
          exact (hc.kept j other hother).stable hmore
            (fun entry hentry heq => hji (heq.symm.trans (hits entry hentry)))
            hguarantees.done hguarantees.blocks
      · intro entry hmem
        rcases List.mem_append.mp hmem with hcarried | hrecorded
        · obtain ⟨cid, htext, hheld⟩ := hc.held entry (List.mem_append_left _ hcarried)
          exact ⟨cid, htext, hguarantees.blocks cid hheld⟩
        · rcases hnew entry hrecorded with hold | ⟨-, hheld⟩
          · obtain ⟨cid, htext, hheld⟩ := hc.held entry (List.mem_append_right _ hold)
            exact ⟨cid, htext, hguarantees.blocks cid hheld⟩
          · exact hheld
      · intro entry hmem
        rcases hnew entry hmem with hold | ⟨hindex, -⟩
        · exact hc.known entry hold
        · exact ⟨plan, by rw [hindex]; exact hplan⟩
  · obtain ⟨hlinked, hrecorded, hdone, hblocks⟩ := hc.linked.chainStep halone
    refine ⟨hlinked, ?_, ?_, ?_⟩
    · intro j plan hplan
      exact (hc.kept j plan hplan).stable (by rw [hrecorded, List.append_nil])
        (List.forall_mem_nil _) hdone hblocks
    · show ∀ entry ∈ carriedShards prepared.job ++ s.log.recorded prepared.job, _
      rw [hrecorded]
      intro entry hmem
      obtain ⟨cid, htext, hheld⟩ := hc.held entry hmem
      exact ⟨cid, htext, hblocks cid hheld⟩
    · show ∀ entry ∈ s.log.recorded prepared.job, _
      rw [hrecorded]
      exact hc.known

end O2Fabric.Submit
