/-
  O2Fabric.Core.Executor.Pool

  What holds of the pool between any two events, whatever they are.

  `Sound` is kept by every operation, also in the middle of an event; `Placed`
  and `Busy` hold at the end of each: `#drain` is what brings `Busy` back.
-/

import O2Fabric.Core.Executor.WorkerExecutor
import O2Fabric.Lib.Steps
import Mathlib.Data.List.Range

namespace O2Fabric.WorkerExecutor.Pool

open O2Fabric.Job (Cost ExecutionOutcome Task)
open O2Fabric.Steps

variable {p : Platform} {decode : Bytes → Except JsString CanonicalValue} {c : Settings}
  {s s' : Pool}

def queuedIds (s : Pool) : List Nat := s.queue.map Queued.id

def startedIds (s : Pool) : List Nat := s.posted.map fun e => e.2.id

def settledIds (s : Pool) : List Nat := s.settlements.map Prod.fst

/-! ## What `#settle` leaves as it is -/

section

variable (s : Pool) (id : Nat) (outcome : Outcome)

@[simp] theorem settle_live : (s.settle id outcome).live = s.live := by
  unfold settle
  split <;> rfl

@[simp] theorem settle_idle : (s.settle id outcome).idle = s.idle := by
  unfold settle
  split <;> rfl

@[simp] theorem settle_running : (s.settle id outcome).running = s.running := by
  unfold settle
  split <;> rfl

@[simp] theorem settle_queue : (s.settle id outcome).queue = s.queue := by
  unfold settle
  split <;> rfl

@[simp] theorem settle_nextId : (s.settle id outcome).nextId = s.nextId := by
  unfold settle
  split <;> rfl

@[simp] theorem settle_terminated : (s.settle id outcome).terminated = s.terminated := by
  unfold settle
  split <;> rfl

@[simp] theorem settle_built : (s.settle id outcome).built = s.built := by
  unfold settle
  split <;> rfl

@[simp] theorem settle_posted : (s.settle id outcome).posted = s.posted := by
  unfold settle
  split <;> rfl

@[simp] theorem settle_killed : (s.settle id outcome).killed = s.killed := by
  unfold settle
  split <;> rfl

end

theorem settle_pending (s : Pool) (id : Nat) (outcome : Outcome) :
    (s.settle id outcome).pending = s.pending.erase id := by
  unfold settle
  split
  · rfl
  · next hout => rw [List.erase_of_not_mem hout]

/-- An id goes from `pending` to the settlements, or nothing happens. -/
theorem settle_promises (s : Pool) (id : Nat) (outcome : Outcome) :
    ((s.settle id outcome).pending ++ (s.settle id outcome).settledIds).Perm
      (s.pending ++ s.settledIds) := by
  unfold settle
  split
  · next hin =>
    show (s.pending.erase id ++ (s.settlements ++ [(id, outcome)]).map Prod.fst).Perm _
    rw [List.map_append, ← List.append_assoc]
    show ((s.pending.erase id ++ s.settledIds) ++ [id]).Perm _
    have hback : (id :: s.pending.erase id).Perm s.pending := (List.perm_cons_erase hin).symm
    exact (List.perm_append_singleton id _).trans (hback.append_right s.settledIds)
  · exact List.Perm.refl _

theorem mem_settledIds_settle {id : Nat} (h : id ∈ s.pending) (outcome : Outcome) :
    id ∈ (s.settle id outcome).settledIds := by
  unfold settle
  rw [if_pos h]
  show id ∈ (s.settlements ++ [(id, outcome)]).map Prod.fst
  simp

/-- What was settled stays settled, as it was. -/
theorem settle_settlements_prefix (s : Pool) (id : Nat) (outcome : Outcome) :
    s.settlements <+: (s.settle id outcome).settlements := by
  unfold settle
  split
  · exact List.prefix_append _ _
  · exact List.prefix_refl _

/-! ## The invariants -/

/-- What holds also in the middle of an event. -/
structure Sound (c : Settings) (s : Pool) : Prop where
  threads : (s.idle ++ s.running.values).Perm s.live
  made : (s.live ++ s.killed).Perm (List.range s.built)
  bounded : s.live.length ≤ c.maxThreads
  promises : (s.pending ++ s.settledIds).Perm (List.range s.nextId)
  fifo : (s.startedIds ++ s.queuedIds).Pairwise (· < ·)
  issued : ∀ id ∈ s.startedIds ++ s.queuedIds, id < s.nextId
  requests : ∀ entry ∈ s.queue, entry.request.id = entry.id
  handed : ∀ id thread, s.running.get? id = some thread → s.WasPosted thread id

/-- Every promise that waits belongs to a task that runs or queues. -/
def Placed (s : Pool) : Prop := s.pending.Perm (s.running.keys ++ s.queuedIds)

/-- Nothing queues while a thread could take it. -/
def Busy (c : Settings) (s : Pool) : Prop :=
  s.queue ≠ [] → s.idle = [] ∧ s.live.length = c.maxThreads

/-- Nothing is left after `terminate`. -/
def Stopped (s : Pool) : Prop :=
  s.terminated = true → s.live = [] ∧ s.queue = [] ∧ s.pending = []

/-- What holds between two events. -/
structure Kept (c : Settings) (s : Pool) : Prop where
  sound : s.Sound c
  placed : s.Placed
  busy : s.Busy c
  stopped : s.Stopped

namespace Sound

theorem live_nodup (h : s.Sound c) : s.live.Nodup :=
  (List.nodup_append.mp (h.made.nodup_iff.mpr List.nodup_range)).1

theorem values_nodup (h : s.Sound c) : s.running.values.Nodup :=
  (List.nodup_append.mp (h.threads.nodup_iff.mpr h.live_nodup)).2.1

theorem posted_once (h : s.Sound c) {id : Nat} {thread other : Thread}
    (hthread : s.WasPosted thread id) (hother : s.WasPosted other id) : thread = other := by
  obtain ⟨e, he, rfl, hid⟩ := hthread
  obtain ⟨e', he', rfl, hid'⟩ := hother
  have hnodup : (s.posted.map fun e => e.2.id).Nodup := by
    have hpair := (List.pairwise_append.mp h.fifo).1
    exact hpair.imp fun hlt => Nat.ne_of_lt hlt
  have hsame : e = e' := List.inj_on_of_nodup_map hnodup he he' (hid.trans hid'.symm)
  rw [hsame]

end Sound

/-! ## Settling and freeing -/

theorem Sound.settle (h : s.Sound c) (id : Nat) (outcome : Outcome) :
    (s.settle id outcome).Sound c := by
  constructor
  · simpa using h.threads
  · simpa using h.made
  · simpa using h.bounded
  · rw [settle_nextId]
    exact (settle_promises s id outcome).trans h.promises
  · simpa [startedIds, queuedIds] using h.fifo
  · simpa [startedIds, queuedIds] using h.issued
  · simpa using h.requests
  · simpa [WasPosted] using h.handed

variable {thread : Thread}

/-- The threads that are left when a running one is taken out. -/
theorem Sound.threads_without (h : s.Sound c) {id : Nat} (hruns : s.running.get? id = some thread) :
    thread ∈ s.live ∧
      (s.idle ++ (s.running.delete id).values).Perm (s.live.erase thread) := by
  have hvalues : s.running.values.Perm (thread :: (s.running.delete id).values) :=
    (InsertionMap.perm_delete hruns).map Prod.snd
  have hlive : (thread :: (s.idle ++ (s.running.delete id).values)).Perm s.live := by
    calc thread :: (s.idle ++ (s.running.delete id).values)
        |>.Perm (s.idle ++ thread :: (s.running.delete id).values) := List.perm_middle.symm
      _ |>.Perm (s.idle ++ s.running.values) := hvalues.symm.append_left _
      _ |>.Perm s.live := h.threads
  refine ⟨hlive.subset List.mem_cons_self, ?_⟩
  have herase := hlive.erase thread
  rwa [List.erase_cons_head] at herase

/-- A task is done: its thread is idle again. -/
theorem Sound.free (h : s.Sound c) {id : Nat} (hruns : s.running.get? id = some thread) :
    Sound c { s with running := s.running.delete id, idle := thread :: s.idle } := by
  obtain ⟨hin, hothers⟩ := h.threads_without hruns
  constructor
  · exact (hothers.cons thread).trans (List.perm_cons_erase hin).symm
  · exact h.made
  · exact h.bounded
  · exact h.promises
  · exact h.fifo
  · exact h.issued
  · exact h.requests
  · intro id' other hget
    rw [InsertionMap.get?_delete] at hget
    split at hget
    · cases hget
    · exact h.handed id' other hget

/-- A running task is settled, and its entry is gone. -/
theorem Placed.retire (h : s.Placed) {id : Nat}
    (hruns : id ∈ s.running.keys) (outcome : Outcome) (idle : List Thread) :
    Placed (settle { s with running := s.running.delete id, idle := idle } id outcome) := by
  unfold Placed
  rw [settle_pending, settle_running, queuedIds, settle_queue]
  show (s.pending.erase id).Perm ((s.running.delete id).keys ++ s.queuedIds)
  rw [InsertionMap.keys_delete, ← List.erase_append_left _ hruns]
  exact h.erase id

/-! ## Ending a thread -/

/-- The state that `#discardThread` starts from, the thread taken out. -/
def without (s : Pool) (thread : Thread) : Pool :=
  { s with
    live := s.live.erase thread
    idle := s.idle.erase thread
    killed := s.killed ++ [thread] }

theorem dropThread_of_running (hnodup : s.running.values.Nodup) {id : Nat}
    (hruns : s.running.get? id = some thread) (reason : JsString) :
    s.dropThread thread reason
      = settle { s.without thread with running := s.running.delete id } id (.failed reason) := by
  show (s.running.entries.filter _).foldl _ (s.without thread) = _
  rw [InsertionMap.filter_value hnodup hruns]
  rfl

theorem dropThread_of_idle (hidle : thread ∉ s.running.values) (reason : JsString) :
    s.dropThread thread reason = s.without thread := by
  show (s.running.entries.filter _).foldl _ (s.without thread) = _
  have hnone : (s.running.entries.filter fun e => decide (e.2 = thread)) = [] := by
    apply List.filter_eq_nil_iff.mpr
    intro e he hval
    exact hidle (List.mem_map.mpr ⟨e, he, of_decide_eq_true hval⟩)
  rw [hnone]
  rfl

/-- Either it is idle, or it runs one task. -/
theorem Sound.idle_or_running (_ : s.Sound c) (thread : Thread) :
    thread ∉ s.running.values ∨ ∃ id, s.running.get? id = some thread := by
  by_cases hin : thread ∈ s.running.values
  · obtain ⟨⟨id, _⟩, he, rfl⟩ := List.mem_map.mp hin
    exact Or.inr ⟨id, InsertionMap.get?_eq_some.mpr he⟩
  · exact Or.inl hin

/-- The live threads and the killed ones, when one of the first is killed. -/
theorem Sound.made_without (h : s.Sound c) (hin : thread ∈ s.live) :
    (s.live.erase thread ++ (s.killed ++ [thread])).Perm (List.range s.built) := by
  rw [← List.append_assoc]
  calc s.live.erase thread ++ s.killed ++ [thread]
      |>.Perm (thread :: (s.live.erase thread ++ s.killed)) := List.perm_append_singleton _ _
    _ |>.Perm (s.live ++ s.killed) := (List.perm_cons_erase hin).symm.append_right _
    _ |>.Perm (List.range s.built) := h.made

/-- What `#discardThread` does before it drains. -/
structure Dropped (s s' : Pool) (thread : Thread) : Prop where
  live : s'.live = s.live.erase thread
  killed : s'.killed = s.killed ++ [thread]
  queue : s'.queue = s.queue
  nextId : s'.nextId = s.nextId
  terminated : s'.terminated = s.terminated
  posted : s'.posted = s.posted
  settlements : s.settlements <+: s'.settlements

theorem Sound.dropped (h : s.Sound c) (thread : Thread) (reason : JsString) :
    Dropped s (s.dropThread thread reason) thread := by
  rcases h.idle_or_running thread with hidle | ⟨id, hruns⟩
  · rw [dropThread_of_idle hidle]
    exact ⟨rfl, rfl, rfl, rfl, rfl, rfl, List.prefix_refl _⟩
  · rw [dropThread_of_running h.values_nodup hruns]
    constructor
    case settlements =>
      exact settle_settlements_prefix { s.without thread with running := s.running.delete id } id _
    all_goals simp [without]

theorem Sound.dropThread (h : s.Sound c) (hin : thread ∈ s.live) (reason : JsString) :
    (s.dropThread thread reason).Sound c := by
  have hbounded : (s.live.erase thread).length ≤ c.maxThreads :=
    Nat.le_trans List.length_erase_le h.bounded
  rcases h.idle_or_running thread with hidle | ⟨id, hruns⟩
  · rw [dropThread_of_idle hidle]
    constructor
    · have hmem : thread ∈ s.idle :=
        (List.mem_append.mp (h.threads.symm.subset hin)).resolve_right hidle
      show (s.idle.erase thread ++ s.running.values).Perm (s.live.erase thread)
      rw [← List.erase_append_left _ hmem]
      exact h.threads.erase thread
    · exact h.made_without hin
    · exact hbounded
    · exact h.promises
    · exact h.fifo
    · exact h.issued
    · exact h.requests
    · exact h.handed
  · rw [dropThread_of_running h.values_nodup hruns]
    apply Sound.settle
    constructor
    · -- a thread that runs is not idle
      have hbusy : thread ∉ s.idle := by
        have hdisjoint := (List.nodup_append.mp (h.threads.nodup_iff.mpr h.live_nodup)).2.2
        intro hmem
        exact hdisjoint thread hmem thread
          (List.mem_map.mpr ⟨(id, thread), InsertionMap.get?_eq_some.mp hruns, rfl⟩) rfl
      show (s.idle.erase thread ++ (s.running.delete id).values).Perm (s.live.erase thread)
      rw [List.erase_of_not_mem hbusy]
      exact (h.threads_without hruns).2
    · exact h.made_without hin
    · exact hbounded
    · exact h.promises
    · exact h.fifo
    · exact h.issued
    · exact h.requests
    · exact (h.free hruns).handed

theorem Placed.dropThread (h : s.Placed) (hs : s.Sound c) (thread : Thread) (reason : JsString) :
    (s.dropThread thread reason).Placed := by
  rcases hs.idle_or_running thread with hidle | ⟨id, hruns⟩
  · rw [dropThread_of_idle hidle]
    exact h
  · rw [dropThread_of_running hs.values_nodup hruns]
    have hkey : id ∈ s.running.keys :=
      InsertionMap.get?_isSome.mp (by rw [hruns]; rfl)
    have hplaced : Placed (s.without thread) := h
    exact hplaced.retire hkey _ _

/-! ## Handing tasks to threads -/

theorem takeThread_none : s.takeThread c = none ↔ s.idle = [] ∧ c.maxThreads ≤ s.live.length := by
  unfold takeThread
  cases s.idle with
  | nil => simp
  | cons thread idle => simp

variable {taken : Pool}

theorem takeThread_cases (h : s.takeThread c = some (thread, taken)) :
    (∃ idle, s.idle = thread :: idle ∧ taken = { s with idle := idle }) ∨
      (s.idle = [] ∧ s.live.length < c.maxThreads ∧ thread = s.built ∧
        taken = { s with live := s.live ++ [s.built], built := s.built + 1 }) := by
  unfold takeThread at h
  split at h
  · next first idle hidle =>
    cases h
    exact Or.inl ⟨idle, hidle, rfl⟩
  · next hidle =>
    split at h
    · cases h
    · next hroom =>
      cases h
      exact Or.inr ⟨hidle, by omega, rfl, rfl⟩

variable {next : Queued} {rest : List Queued}

/-- What is in the queue was not handed out before. -/
theorem Sound.head_notMem (h : Sound c { s with queue := next :: rest }) :
    next.id ∉ s.running.keys := by
  intro hruns
  obtain ⟨thread, hget⟩ := Option.isSome_iff_exists.mp (InsertionMap.get?_isSome.mpr hruns)
  obtain ⟨e, he, -, hid⟩ := h.handed next.id thread hget
  have hstarted : next.id ∈ s.startedIds := List.mem_map.mpr ⟨e, he, hid⟩
  have hlt := (List.pairwise_append.mp h.fifo).2.2 next.id hstarted next.id List.mem_cons_self
  omega

theorem values_set {id : Nat} (hfree : id ∉ s.running.keys) :
    (s.running.set id thread).values = s.running.values ++ [thread] := by
  unfold InsertionMap.values
  rw [InsertionMap.entries_set_of_notMem hfree, List.map_append]
  rfl

/-- The head of the queue gets a thread. -/
theorem Sound.hand (h : Sound c { s with queue := next :: rest })
    (htake : s.takeThread c = some (thread, taken)) :
    Sound c { taken.hand thread next.id next.request with queue := rest } := by
  have hfree := h.head_notMem
  have hid : next.request.id = next.id := h.requests next List.mem_cons_self
  -- the head leaves the queue and joins the tasks that were started
  have hline : (s.posted ++ [(thread, next.request)]).map (fun e => e.2.id) ++ rest.map Queued.id
      = s.posted.map (fun e => e.2.id) ++ (next :: rest).map Queued.id := by
    rw [List.map_append, List.append_assoc]
    show _ ++ next.request.id :: rest.map Queued.id = _ ++ next.id :: rest.map Queued.id
    rw [hid]
  have hfifo : ((s.posted ++ [(thread, next.request)]).map (fun e => e.2.id)
      ++ rest.map Queued.id).Pairwise (· < ·) := by
    rw [hline]
    exact h.fifo
  have hissued : ∀ id ∈ (s.posted ++ [(thread, next.request)]).map (fun e => e.2.id)
      ++ rest.map Queued.id, id < s.nextId := by
    rw [hline]
    exact h.issued
  have hrequests : ∀ entry ∈ rest, entry.request.id = entry.id :=
    fun entry hin => h.requests entry (List.mem_cons_of_mem _ hin)
  have hhanded : ∀ id other, (s.running.set next.id thread).get? id = some other →
      ∃ e ∈ s.posted ++ [(thread, next.request)], e.1 = other ∧ e.2.id = id := by
    intro id other hget
    rw [InsertionMap.get?_set] at hget
    split at hget
    · next heq =>
      cases hget
      exact ⟨(thread, next.request), by simp, rfl, hid.trans heq.symm⟩
    · obtain ⟨e, he, hthread⟩ := h.handed id other hget
      exact ⟨e, List.mem_append_left _ he, hthread⟩
  have hthreads : (s.idle ++ s.running.values).Perm s.live := h.threads
  have hmade : (s.live ++ s.killed).Perm (List.range s.built) := h.made
  obtain ⟨idle, hidle, rfl⟩ | ⟨hidle, hroom, rfl, rfl⟩ := takeThread_cases htake
  · constructor
    · show (idle ++ (s.running.set next.id thread).values).Perm s.live
      rw [values_set hfree, ← List.append_assoc]
      rw [hidle] at hthreads
      exact (List.perm_append_singleton thread _).trans hthreads
    · exact hmade
    · exact h.bounded
    · exact h.promises
    · exact hfifo
    · exact hissued
    · exact hrequests
    · exact hhanded
  · constructor
    · show (s.idle ++ (s.running.set next.id s.built).values).Perm (s.live ++ [s.built])
      rw [values_set hfree, ← List.append_assoc]
      exact hthreads.append_right [s.built]
    · show (s.live ++ [s.built] ++ s.killed).Perm (List.range (s.built + 1))
      rw [List.range_succ, List.append_assoc]
      calc s.live ++ ([s.built] ++ s.killed)
          |>.Perm (s.built :: (s.live ++ s.killed)) := List.perm_middle
        _ |>.Perm (s.live ++ s.killed ++ [s.built]) := (List.perm_append_singleton _ _).symm
        _ |>.Perm (List.range s.built ++ [s.built]) := hmade.append_right _
    · show (s.live ++ [s.built]).length ≤ c.maxThreads
      rw [List.length_append, List.length_singleton]
      omega
    · exact h.promises
    · exact hfifo
    · exact hissued
    · exact hrequests
    · exact hhanded

/-- The keys that run and the ids that queue are the same before and after. -/
theorem Placed.hand (h : Placed { s with queue := next :: rest }) (hfree : next.id ∉ s.running.keys)
    (htake : s.takeThread c = some (thread, taken)) :
    Placed { taken.hand thread next.id next.request with queue := rest } := by
  have hkeys : (s.running.set next.id thread).keys = s.running.keys ++ [next.id] := by
    rw [InsertionMap.keys_set, if_neg hfree]
  have hplaces : s.pending.Perm
      ((s.running.set next.id thread).keys ++ rest.map Queued.id) := by
    rw [hkeys, List.append_assoc]
    exact h
  obtain ⟨idle, -, rfl⟩ | ⟨-, -, rfl, rfl⟩ := takeThread_cases htake
  · exact hplaces
  · exact hplaces

/-- What handing out threads leaves as it is. -/
structure Drained (s s' : Pool) : Prop where
  terminated : s'.terminated = s.terminated
  killed : s'.killed = s.killed
  settlements : s'.settlements = s.settlements
  pending : s'.pending = s.pending

theorem hand_drained (htake : s.takeThread c = some (thread, taken)) (id : Nat)
    (request : WorkerTaskRequest) :
    Drained s (taken.hand thread id request) := by
  obtain ⟨idle, -, rfl⟩ | ⟨-, -, rfl, rfl⟩ := takeThread_cases htake
  · exact ⟨rfl, rfl, rfl, rfl⟩
  · exact ⟨rfl, rfl, rfl, rfl⟩

theorem drainQueue_drained (queue : List Queued) (s : Pool) :
    Drained s (drainQueue c queue s) := by
  induction queue generalizing s with
  | nil => exact ⟨rfl, rfl, rfl, rfl⟩
  | cons next rest ih =>
    unfold drainQueue
    split
    · exact ⟨rfl, rfl, rfl, rfl⟩
    · next thread taken htake =>
      have hhand := hand_drained htake next.id next.request
      have hrest := ih (taken.hand thread next.id next.request)
      exact ⟨hrest.terminated.trans hhand.terminated, hrest.killed.trans hhand.killed,
        hrest.settlements.trans hhand.settlements, hrest.pending.trans hhand.pending⟩

theorem drain_drained (s : Pool) : Drained s (s.drain c) := by
  unfold drain
  split
  · exact ⟨rfl, rfl, rfl, rfl⟩
  · exact drainQueue_drained s.queue s

/-- `#drain` keeps what holds in the middle of an event, and leaves nothing queueing
    while a thread could take it.  By induction on the queue. -/
theorem drainQueue_kept {queue : List Queued} (h : Sound c { s with queue := queue })
    (hplaced : Placed { s with queue := queue }) :
    (drainQueue c queue s).Sound c ∧ (drainQueue c queue s).Placed ∧
      (drainQueue c queue s).Busy c := by
  induction queue generalizing s with
  | nil => exact ⟨h, hplaced, fun hne => absurd rfl hne⟩
  | cons next rest ih =>
    unfold drainQueue
    split
    · next hfull =>
      refine ⟨h, hplaced, fun _ => ?_⟩
      obtain ⟨hidle, hlength⟩ := takeThread_none.mp hfull
      have hbounded : s.live.length ≤ c.maxThreads := h.bounded
      exact ⟨hidle, Nat.le_antisymm hbounded hlength⟩
    · next thread taken htake =>
      exact ih (h.hand htake) (hplaced.hand h.head_notMem htake)

theorem Sound.drain (h : s.Sound c) (hplaced : s.Placed) (hstopped : s.Stopped) :
    (s.drain c).Kept c := by
  unfold Pool.drain
  split
  · next hterminated =>
    have hempty := (hstopped hterminated).2.1
    exact ⟨h, hplaced, fun hne => absurd hempty hne, hstopped⟩
  · next hterminated =>
    obtain ⟨hsound, hplaces, hbusy⟩ := drainQueue_kept h hplaced
    refine ⟨hsound, hplaces, hbusy, fun hlate => absurd ?_ hterminated⟩
    rw [← (drainQueue_drained s.queue s).terminated]
    exact hlate

/-! ## One event -/

theorem Kept.discardThread (h : s.Kept c) (thread : Thread) (reason : JsString) :
    (s.discardThread c thread reason).Kept c := by
  unfold Pool.discardThread
  split
  · next hin =>
    apply (h.sound.dropThread hin reason).drain (h.placed.dropThread h.sound thread reason)
    -- a pool that is stopped has no thread to discard
    intro hterminated
    rw [(h.sound.dropped thread reason).terminated] at hterminated
    rw [(h.stopped hterminated).1] at hin
    exact absurd hin List.not_mem_nil
  · exact h

/-- What is answered now was posted before: it runs on that thread, or it is settled. -/
theorem Kept.answered (h : s.Kept c) {id : Nat} (hposted : s.WasPosted thread id)
    (hlate : s.running.get? id ≠ some thread) :
    id ∉ s.pending := by
  intro hpending
  rcases List.mem_append.mp (h.placed.subset hpending) with hruns | hqueued
  · obtain ⟨other, hget⟩ := Option.isSome_iff_exists.mp (InsertionMap.get?_isSome.mpr hruns)
    have hsame := h.sound.posted_once hposted (h.sound.handed id other hget)
    rw [hsame] at hlate
    exact hlate hget
  · obtain ⟨e, he, -, hid⟩ := hposted
    have hstarted : id ∈ s.startedIds := List.mem_map.mpr ⟨e, he, hid⟩
    have hlt := (List.pairwise_append.mp h.sound.fifo).2.2 id hstarted id hqueued
    omega

theorem Kept.receive (h : s.Kept c) {response : WorkerTaskResponse}
    (hposted : s.WasPosted thread response.id) : (s.receive decode c thread response).Kept c := by
  unfold Pool.receive
  split
  · next hruns =>
    have hin := (h.sound.threads_without hruns).1
    rw [if_pos hin]
    apply ((h.sound.free hruns).settle _ _).drain
    · have hkey : response.id ∈ s.running.keys :=
        InsertionMap.get?_isSome.mp (by rw [hruns]; rfl)
      exact h.placed.retire hkey _ _
    · intro hterminated
      rw [settle_terminated] at hterminated
      rw [(h.stopped hterminated).1] at hin
      exact absurd hin List.not_mem_nil
  · next hlate =>
    have hsettled := h.answered hposted hlate
    have hsame : s.settle response.id (outcomeOf decode response) = s := if_neg hsettled
    show ((s.settle response.id (outcomeOf decode response)).drain c).Kept c
    rw [hsame]
    exact h.sound.drain h.placed h.stopped

/-- A task that is accepted stands at the end of the queue, if only for a moment. -/
theorem Sound.enqueue (h : s.Sound c) (call : Nat) {request : WorkerTaskRequest}
    (hid : request.id = s.nextId) :
    Sound c { s.register call with queue := s.queue ++ [⟨s.nextId, request⟩] } := by
  have hline : s.posted.map (fun e => e.2.id) ++ (s.queue ++ [Queued.mk s.nextId request]).map Queued.id
      = (s.startedIds ++ s.queuedIds) ++ [s.nextId] := by
    rw [List.map_append, ← List.append_assoc]
    rfl
  constructor
  · exact h.threads
  · exact h.made
  · exact h.bounded
  · show (s.pending ++ [s.nextId] ++ s.settledIds).Perm (List.range (s.nextId + 1))
    rw [List.range_succ, List.append_assoc]
    calc s.pending ++ ([s.nextId] ++ s.settledIds)
        |>.Perm (s.nextId :: (s.pending ++ s.settledIds)) := List.perm_middle
      _ |>.Perm (s.pending ++ s.settledIds ++ [s.nextId]) := (List.perm_append_singleton _ _).symm
      _ |>.Perm (List.range s.nextId ++ [s.nextId]) := h.promises.append_right _
  · show (s.posted.map (fun e => e.2.id)
      ++ (s.queue ++ [Queued.mk s.nextId request]).map Queued.id).Pairwise (· < ·)
    rw [hline, List.pairwise_append]
    refine ⟨h.fifo, List.pairwise_singleton _ _, ?_⟩
    intro id hin last hlast
    rw [List.mem_singleton.mp hlast]
    exact h.issued id hin
  · show ∀ id ∈ s.posted.map (fun e => e.2.id)
      ++ (s.queue ++ [Queued.mk s.nextId request]).map Queued.id, id < s.nextId + 1
    rw [hline]
    intro id hin
    rcases List.mem_append.mp hin with hold | hnew
    · have hlt := h.issued id hold
      omega
    · rw [List.mem_singleton.mp hnew]
      omega
  · intro entry hin
    rcases List.mem_append.mp hin with hold | hnew
    · exact h.requests entry hold
    · rw [List.mem_singleton.mp hnew]
      exact hid
  · exact h.handed

/-- A task is given to a thread, or put in line. -/
theorem dispatch_kept {id : Nat} {request : WorkerTaskRequest}
    (h : Sound c { s with queue := s.queue ++ [⟨id, request⟩] })
    (hplaced : Placed { s with queue := s.queue ++ [⟨id, request⟩] }) (hbusy : s.Busy c)
    (hrunning : s.terminated = false) : (s.dispatch c id request).Kept c := by
  unfold dispatch
  split
  · next hfull =>
    obtain ⟨hidle, hlength⟩ := takeThread_none.mp hfull
    refine ⟨h, hplaced, fun _ => ?_, fun hlate => ?_⟩
    · exact ⟨hidle, Nat.le_antisymm h.bounded hlength⟩
    · exact absurd (hlate.symm.trans hrunning) (by decide)
  · next thread taken htake =>
    -- a thread was there, so nothing was queueing
    have hempty : s.queue = [] := by
      by_contra hne
      obtain ⟨hidle, hlength⟩ := hbusy hne
      have hnone := takeThread_none.mpr ⟨hidle, hlength.ge⟩
      rw [hnone] at htake
      cases htake
    have hsame : (taken.hand thread id request).queue = [] := by
      obtain ⟨idle, -, rfl⟩ | ⟨-, -, rfl, rfl⟩ := takeThread_cases htake
      · exact hempty
      · exact hempty
    have hterminated : (taken.hand thread id request).terminated = false :=
      (hand_drained htake id request).terminated.trans hrunning
    rw [hempty, List.nil_append] at h hplaced
    have hsound := h.hand htake
    have hplaces := hplaced.hand h.head_notMem htake
    have hstate : { taken.hand thread id request with queue := [] }
        = taken.hand thread id request := by
      rw [← hsame]
    rw [hstate] at hsound hplaces
    refine ⟨hsound, hplaces, fun hne => absurd hsame hne, fun hlate => ?_⟩
    exact absurd (hlate.symm.trans hterminated) (by decide)

/-- Nothing that matters here is in `calls`. -/
theorem Kept.of_calls (h : s.Kept c) (calls : List Call) : Kept c { s with calls := calls } := by
  obtain ⟨hsound, hplaced, hbusy, hstopped⟩ := h
  refine ⟨?_, hplaced, hbusy, hstopped⟩
  exact ⟨hsound.threads, hsound.made, hsound.bounded, hsound.promises, hsound.fifo, hsound.issued,
    hsound.requests, hsound.handed⟩

theorem Kept.accept (h : s.Kept c) (call : Nat) (task : Task) (moduleBytes inputBytes : Bytes) :
    (s.accept c call task moduleBytes inputBytes).Kept c := by
  unfold Pool.accept
  split
  · exact h.of_calls _
  · next hrunning =>
    apply dispatch_kept (h.sound.enqueue call rfl)
    · show (s.pending ++ [s.nextId]).Perm
        (s.running.keys ++ (s.queue ++ [Queued.mk s.nextId _]).map Queued.id)
      rw [List.map_append, ← List.append_assoc]
      exact h.placed.append_right _
    · exact h.busy
    · exact Bool.eq_false_iff.mpr hrunning

theorem Kept.fetched (h : s.Kept c) {call : Nat} {answer : Except JsString (Option Bytes)}
    (hfetched : s.fetched c call answer = some s') : s'.Kept c := by
  unfold Pool.fetched at hfetched
  split at hfetched
  case h_6 =>
      cases hfetched
      exact h.accept _ _ _ _
  case h_7 => cases hfetched
  all_goals
    cases hfetched
    exact h.of_calls _

/-! ## Deadlines -/

/-- A task that waits in line is taken out of it. -/
theorem Kept.expire_queued (h : s.Kept c) {id : Nat} (hin : id ∈ s.pending)
    (hqueued : s.running.get? id = none) (outcome : Outcome) :
    Kept c (settle { s with queue := s.queue.eraseP fun entry => decide (entry.id = id) } id
      outcome) := by
  have hsub : (s.queue.eraseP fun entry => decide (entry.id = id)).Sublist s.queue :=
    List.eraseP_sublist
  have hids : (s.queue.eraseP fun entry => decide (entry.id = id)).map Queued.id
      = s.queuedIds.erase id := by
    rw [List.erase_eq_eraseP', queuedIds, List.eraseP_map]
    rfl
  have hsound : Sound c { s with queue := s.queue.eraseP fun entry => decide (entry.id = id) } := by
    have hline : (s.startedIds ++ (s.queue.eraseP fun entry => decide (entry.id = id)).map
        Queued.id).Sublist (s.startedIds ++ s.queuedIds) :=
      (hsub.map Queued.id).append_left s.startedIds
    constructor
    · exact h.sound.threads
    · exact h.sound.made
    · exact h.sound.bounded
    · exact h.sound.promises
    · exact h.sound.fifo.sublist hline
    · exact fun other hother => h.sound.issued other (hline.subset hother)
    · exact fun entry hentry => h.sound.requests entry (hsub.subset hentry)
    · exact h.sound.handed
  refine ⟨hsound.settle id outcome, ?_, ?_, ?_⟩
  · unfold Placed
    rw [settle_pending, settle_running, queuedIds, settle_queue]
    show (s.pending.erase id).Perm (s.running.keys ++ _)
    rw [hids, ← List.erase_append_right _ (InsertionMap.get?_eq_none.mp hqueued)]
    exact h.placed.erase id
  · unfold Busy
    rw [settle_queue, settle_idle, settle_live]
    intro hne
    apply h.busy
    intro hempty
    apply hne
    show s.queue.eraseP _ = []
    rw [hempty]
    rfl
  · intro hterminated
    rw [settle_terminated] at hterminated
    rw [(h.stopped hterminated).2.2] at hin
    exact absurd hin List.not_mem_nil

/-- Settling a task and then ending its thread is ending the thread it runs on. -/
theorem dropThread_expired (hnodup : s.running.values.Nodup) {id : Nat}
    (hruns : s.running.get? id = some thread) (late reason : JsString) :
    (settle { s with running := s.running.delete id } id (.failed late)).dropThread thread reason
      = s.dropThread thread late := by
  have hgone : thread ∉ (s.running.delete id).values := by
    have hperm : s.running.values.Perm (thread :: (s.running.delete id).values) :=
      (InsertionMap.perm_delete hruns).map Prod.snd
    exact (List.nodup_cons.mp (hperm.nodup_iff.mp hnodup)).1
  rw [dropThread_of_running hnodup hruns, dropThread_of_idle (by simpa using hgone)]
  unfold without settle
  dsimp only
  split <;> rfl

theorem Kept.expire (h : s.Kept c) {id : Nat} (hin : id ∈ s.pending) :
    (s.expire p c id).Kept c := by
  unfold Pool.expire
  rw [if_neg (not_not_intro hin)]
  split
  · next hqueued => exact h.expire_queued hin hqueued _
  · next thread hruns =>
    have hlive := (h.sound.threads_without hruns).1
    unfold Pool.discardThread
    rw [if_pos (by simpa using hlive), dropThread_expired h.sound.values_nodup hruns]
    have hdiscard := h.discardThread thread (deadlineReason p c)
    unfold Pool.discardThread at hdiscard
    rwa [if_pos hlive] at hdiscard

end O2Fabric.WorkerExecutor.Pool
