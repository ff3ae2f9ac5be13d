/-
  O2Fabric.Core.Executor.Safety

  The pool over whole runs: how many threads live, where each accepted task is,
  in which order tasks start, what a deadline kills, and what is left after
  `terminate`.
-/

import O2Fabric.Core.Executor.Pool

namespace O2Fabric.WorkerExecutor.Pool

open O2Fabric.Job (Cost ExecutionOutcome Task)
open O2Fabric.Steps

variable {p : Platform} {decode : Bytes → Except JsString CanonicalValue} {c : Settings}
  {s s' : Pool}

/-! ## Stopping -/

/-- Discarding every thread of a pool that takes no more work. -/
theorem discardAll (reason : JsString) (threads : List Thread) (h : s.Sound c)
    (hlive : s.live = threads) (hterminated : s.terminated = true) (hqueue : s.queue = []) :
    ∀ s', s' = threads.foldl (fun s thread => s.discardThread c thread reason) s →
      s'.Sound c ∧ s'.live = [] ∧ s'.terminated = true ∧ s'.queue = [] ∧ s'.posted = s.posted := by
  induction threads generalizing s with
  | nil =>
    rintro s' rfl
    exact ⟨h, hlive, hterminated, hqueue, rfl⟩
  | cons thread rest ih =>
    rintro s' rfl
    have hin : thread ∈ s.live := by
      rw [hlive]
      exact List.mem_cons_self
    have hdropped := h.dropped thread reason
    have hlate := hdropped.terminated.trans hterminated
    -- nothing is drained once the pool is stopped
    have hone : s.discardThread c thread reason = s.dropThread thread reason := by
      unfold Pool.discardThread Pool.drain
      rw [if_pos hin, if_pos hlate]
    have hrest : (s.dropThread thread reason).live = rest := by
      rw [hdropped.live, hlive, List.erase_cons_head]
    rw [List.foldl_cons, hone]
    obtain ⟨hsound, hnone, hstill, hempty, hposted⟩ := ih (h.dropThread hin reason) hrest hlate
      (hdropped.queue.trans hqueue) _ rfl
    exact ⟨hsound, hnone, hstill, hempty, hposted.trans hdropped.posted⟩

/-- Settling everything that is pending. -/
theorem settleAll (outcome : Outcome) (ids : List Nat) (h : s.Sound c) (hpending : s.pending = ids) :
    ∀ s', s' = ids.foldl (fun s id => s.settle id outcome) s →
      s'.Sound c ∧ s'.pending = [] ∧ s'.live = s.live ∧ s'.terminated = s.terminated ∧
        s'.queue = s.queue ∧ s'.running = s.running ∧ s'.posted = s.posted := by
  induction ids generalizing s with
  | nil =>
    rintro s' rfl
    exact ⟨h, hpending, rfl, rfl, rfl, rfl, rfl⟩
  | cons id rest ih =>
    rintro s' rfl
    have hrest : (s.settle id outcome).pending = rest := by
      rw [settle_pending, hpending, List.erase_cons_head]
    rw [List.foldl_cons]
    simpa using ih (h.settle id outcome) hrest _ rfl

/-- What `terminate` leaves: no thread, no queue, nothing pending, nothing started. -/
structure Ended (c : Settings) (s s' : Pool) : Prop where
  sound : s'.Sound c
  terminated : s'.terminated = true
  live : s'.live = []
  queue : s'.queue = []
  running : s'.running = .empty
  pending : s'.pending = []
  posted : s'.posted = s.posted

theorem Sound.terminate (h : s.Sound c) : Ended c s (s.terminate c) := by
  have hemptied : Sound c { s with terminated := true, queue := [] } := by
    have hline : (s.startedIds ++ ([] : List Queued).map Queued.id).Sublist
        (s.startedIds ++ s.queuedIds) := (List.nil_sublist _).append_left s.startedIds
    constructor
    · exact h.threads
    · exact h.made
    · exact h.bounded
    · exact h.promises
    · exact h.fifo.sublist hline
    · exact fun id hid => h.issued id (hline.subset hid)
    · exact fun entry hentry => absurd hentry List.not_mem_nil
    · exact h.handed
  unfold Pool.terminate
  obtain ⟨hsound, hnone, hterminated, hqueue, hposted⟩ :=
    discardAll (js "executor stopped") s.live hemptied rfl rfl rfl _ rfl
  generalize hafter : s.live.foldl (fun s thread => s.discardThread c thread (js "executor stopped"))
    { s with terminated := true, queue := [] } = after at hsound hnone hterminated hqueue hposted
  have hcleared : Sound c { after with idle := [], running := .empty } := by
    constructor
    · rw [hnone]
      exact List.Perm.refl _
    · exact hsound.made
    · exact hsound.bounded
    · exact hsound.promises
    · exact hsound.fifo
    · exact hsound.issued
    · exact hsound.requests
    · intro id thread hget
      cases hget
  obtain ⟨hend, hpending, hlive, hlate, hempty, hrunning, hsame⟩ :=
    settleAll (.failed (js "executor stopped")) after.pending hcleared rfl _ rfl
  simp only [hafter]
  exact ⟨hend, hlate.trans hterminated, hlive.trans hnone, hempty.trans hqueue, hrunning, hpending,
    hsame.trans hposted⟩

theorem Kept.terminate (h : s.Kept c) : (s.terminate c).Kept c := by
  have hended := h.sound.terminate
  refine ⟨hended.sound, ?_, fun hne => absurd hended.queue hne, fun _ => ?_⟩
  · unfold Placed
    rw [hended.pending, hended.running, queuedIds, hended.queue]
    exact List.Perm.refl _
  · exact ⟨hended.live, hended.queue, hended.pending⟩

/-! ## Runs -/

theorem start_kept : (start).Kept c := by
  refine ⟨⟨?_, ?_, ?_, ?_, ?_, ?_, ?_, ?_⟩, ?_, ?_, ?_⟩
  · exact List.Perm.refl _
  · exact List.Perm.refl _
  · exact Nat.zero_le _
  · exact List.Perm.refl _
  · exact List.Pairwise.nil
  · exact fun id hid => absurd hid List.not_mem_nil
  · exact fun entry hentry => absurd hentry List.not_mem_nil
  · intro id thread hget
    cases hget
  · exact List.Perm.refl _
  · exact fun hne => absurd rfl hne
  · intro hterminated
    cases hterminated

/-- What holds between two events holds after the second. -/
theorem step_kept (h : s.Kept c) {e : Event} (hstep : step p decode c s e = some s') :
    s'.Kept c := by
  cases e with
  | execute task =>
    cases hstep
    exact h.of_calls _
  | fetched call answer => exact h.fetched hstep
  | response thread response =>
    simp only [step, Option.ite_none_right_eq_some, Option.some.injEq] at hstep
    obtain ⟨hposted, rfl⟩ := hstep
    exact h.receive hposted
  | error thread reason =>
    simp only [step, Option.ite_none_right_eq_some, Option.some.injEq] at hstep
    obtain ⟨-, rfl⟩ := hstep
    exact h.discardThread thread _
  | deadline id =>
    simp only [step, Option.ite_none_right_eq_some, Option.some.injEq] at hstep
    obtain ⟨hpending, rfl⟩ := hstep
    exact h.expire hpending
  | terminate =>
    cases hstep
    exact h.terminate

theorem reaches_kept (h : Reaches (step p decode c) anything start s) : s.Kept c :=
  h.invariant start_kept fun _ _ _ _ hkept hstep => step_kept hkept hstep

/-- A pool that is stopped stays so, and starts nothing. -/
theorem step_stopped (h : s.Kept c) (hterminated : s.terminated = true) {e : Event}
    (hstep : step p decode c s e = some s') : s'.terminated = true ∧ s'.posted = s.posted := by
  obtain ⟨hlive, hqueue, hpending⟩ := h.stopped hterminated
  have hdiscard : ∀ thread reason, s.discardThread c thread reason = s := by
    intro thread reason
    unfold discardThread
    rw [hlive]
    exact if_neg List.not_mem_nil
  cases e with
  | execute task =>
    cases hstep
    exact ⟨hterminated, rfl⟩
  | fetched call answer =>
    simp only [step, fetched] at hstep
    split at hstep
    case h_6 =>
        cases hstep
        unfold accept
        rw [if_pos hterminated]
        exact ⟨hterminated, rfl⟩
    case h_7 => cases hstep
    all_goals
      cases hstep
      exact ⟨hterminated, rfl⟩
  | response thread response =>
    simp only [step, Option.ite_none_right_eq_some, Option.some.injEq] at hstep
    obtain ⟨hposted, rfl⟩ := hstep
    have hlate : s.running.get? response.id ≠ some thread := by
      intro hruns
      have hin := (h.sound.threads_without hruns).1
      rw [hlive] at hin
      exact absurd hin List.not_mem_nil
    have hsettled : s.settle response.id (outcomeOf decode response) = s :=
      if_neg (h.answered hposted hlate)
    unfold receive
    rw [if_neg hlate]
    show ((s.settle response.id (outcomeOf decode response)).drain c).terminated = true ∧
      ((s.settle response.id (outcomeOf decode response)).drain c).posted = s.posted
    rw [hsettled, Pool.drain, if_pos hterminated]
    exact ⟨hterminated, rfl⟩
  | error thread reason =>
    simp only [step, Option.ite_none_right_eq_some, Option.some.injEq] at hstep
    obtain ⟨-, rfl⟩ := hstep
    rw [hdiscard]
    exact ⟨hterminated, rfl⟩
  | deadline id =>
    simp only [step, hpending, List.not_mem_nil, if_false] at hstep
    cases hstep
  | terminate =>
    cases hstep
    have hended := h.sound.terminate
    exact ⟨hended.terminated, hended.posted⟩

theorem reaches_stopped (h : Reaches (step p decode c) anything s s') (hkept : s.Kept c)
    (hterminated : s.terminated = true) :
    s'.live = [] ∧ s'.posted = s.posted := by
  have hall : s'.Kept c ∧ s'.terminated = true ∧ s'.posted = s.posted := by
    apply h.invariant (I := fun s' => s'.Kept c ∧ s'.terminated = true ∧ s'.posted = s.posted)
    · exact ⟨hkept, hterminated, rfl⟩
    · rintro before e after - ⟨hbefore, hlate, hposted⟩ hstep
      obtain ⟨hlate', hposted'⟩ := step_stopped hbefore hlate hstep
      exact ⟨step_kept hbefore hstep, hlate', hposted'.trans hposted⟩
  exact ⟨(hall.1.stopped hall.2.1).1, hall.2.2⟩

/-! ## Deadlines -/

/-- The deadline settles its task, and kills the thread it runs on, if it runs. -/
theorem Kept.deadline (h : s.Kept c) {id : Nat} (hin : id ∈ s.pending) :
    id ∈ (s.expire p c id).settledIds ∧
      (s.expire p c id).killed = s.killed ++ (s.running.get? id).toList := by
  unfold Pool.expire
  rw [if_neg (not_not_intro hin)]
  split
  · next hqueued =>
    constructor
    · apply mem_settledIds_settle
      exact hin
    · rw [settle_killed, hqueued]
      exact (List.append_nil _).symm
  · next thread hruns =>
    have hlive := (h.sound.threads_without hruns).1
    have hdropped := h.sound.dropped thread (deadlineReason p c)
    unfold Pool.discardThread
    rw [if_pos (by simpa using hlive), dropThread_expired h.sound.values_nodup hruns]
    have hdrained := drain_drained (c := c) (s.dropThread thread (deadlineReason p c))
    constructor
    · unfold settledIds
      rw [hdrained.settlements, dropThread_of_running h.sound.values_nodup hruns]
      apply mem_settledIds_settle
      exact hin
    · rw [hdrained.killed, hdropped.killed, hruns]
      rfl

/-! ## Safety -/

/-- What holds of the pool between any two events. -/
structure Safe (p : Platform) (decode : Bytes → Except JsString CanonicalValue) (c : Settings)
    (s : Pool) : Prop where
  bounded : s.live.length ≤ c.maxThreads
  /-- A live thread is idle, or it runs one task.  A killed one never lives again. -/
  threads : s.live.Nodup ∧ (s.idle ++ s.running.values).Perm s.live ∧
    (s.live ++ s.killed).Perm (List.range s.built)
  /-- An accepted task is in one place, and a settled one was settled once. -/
  places : (s.running.keys ++ s.queuedIds ++ s.settledIds).Perm (List.range s.nextId)
  busy : s.queue ≠ [] → s.idle = [] ∧ s.live.length = c.maxThreads
  fifo : (s.startedIds ++ s.queuedIds).Pairwise (· < ·)
  /-- A task that is not settled has a deadline to come, which settles it. -/
  deadline : ∀ id ∈ s.running.keys ++ s.queuedIds, ∃ s',
    step p decode c s (.deadline id) = some s' ∧ id ∈ s'.settledIds ∧
      s'.killed = s.killed ++ (s.running.get? id).toList
  stopped : s.terminated = true → s.live = [] ∧ s.settledIds.Perm (List.range s.nextId) ∧
    ∀ s', Reaches (step p decode c) anything s s' → s'.live = [] ∧ s'.posted = s.posted

theorem Kept.safe (h : s.Kept c) : s.Safe p decode c := by
  have hplaces : (s.running.keys ++ s.queuedIds ++ s.settledIds).Perm (List.range s.nextId) :=
    (h.placed.append_right s.settledIds).symm.trans h.sound.promises
  constructor
  · exact h.sound.bounded
  · exact ⟨h.sound.live_nodup, h.sound.threads, h.sound.made⟩
  · exact hplaces
  · exact h.busy
  · exact h.sound.fifo
  · intro id hin
    have hpending : id ∈ s.pending := h.placed.symm.subset hin
    exact ⟨s.expire p c id, if_pos hpending, h.deadline hpending⟩
  · intro hterminated
    obtain ⟨hlive, -, hpending⟩ := h.stopped hterminated
    have hpromises := h.sound.promises
    rw [hpending, List.nil_append] at hpromises
    exact ⟨hlive, hpromises, fun s' hrun => reaches_stopped hrun h hterminated⟩

/-- Whatever happens to it, in whatever order, the pool is safe. -/
theorem pool_is_safe (p : Platform) (decode : Bytes → Except JsString CanonicalValue)
    (c : Settings) {s : Pool} (h : Reaches (step p decode c) anything start s) :
    s.Safe p decode c :=
  (reaches_kept h).safe

/-! ## A run -/

def single : Settings := ⟨js "n", none, DEFAULT_TASK_DEADLINE_MS, 1, Nat.one_pos⟩

def someTask : Task := ⟨plainCid, plainCid, 0, 1, .pub, none⟩

/-- Two tasks on one thread; the first runs over its deadline. -/
def overrun : List Event :=
  [.execute someTask, .execute someTask, .fetched 0 (.ok (some [])), .fetched 0 (.ok (some [])),
    .fetched 1 (.ok (some [])), .fetched 1 (.ok (some [])), .deadline 0]

theorem pool_is_safe_overrun : ∃ s,
    run (step plain (fun _ => .ok .null) single) start overrun = some s ∧
      s.settledIds = [0] ∧ s.running.keys = [1] ∧ s.killed = [0] ∧
      s.Safe plain (fun _ => .ok .null) single := by
  have hrun : ∃ s, run (step plain (fun _ => .ok .null) single) start overrun = some s ∧
      s.settledIds = [0] ∧ s.running.keys = [1] ∧ s.killed = [0] := ⟨_, rfl, rfl, rfl, rfl⟩
  obtain ⟨s, hrun, hsettled, hruns, hkilled⟩ := hrun
  exact ⟨s, hrun, hsettled, hruns, hkilled, pool_is_safe plain (fun _ => .ok .null) single
    (Reaches.of_run (fun _ _ _ => trivial) hrun)⟩

end O2Fabric.WorkerExecutor.Pool
