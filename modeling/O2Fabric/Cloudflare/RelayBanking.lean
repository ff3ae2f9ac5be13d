/-
  O2Fabric.Cloudflare.RelayBanking

  When the bootstrap object reads its relay journal and when it banks: the log
  is restored before the fabric is built, a frame banks a marker that storage
  does not have, and a close banks what there is.

  No handler is delivered while storage is awaited, so what waits for storage
  is one task.  The relay's own activity comes in at any time.
-/

import O2Fabric.Cloudflare.RelayServiceJournal
import O2Fabric.Lib.Steps

namespace O2Fabric.RelayBanking

open RelayServiceLog RelayServiceJournal

/-- What waits for storage. -/
inductive Task
  /-- `#relayLogOnce` reads the journal. -/
  | restoring
  /-- `writeRelayServiceJournal` reads what is stored, before it writes these totals. -/
  | checking (totals : RelayServiceTotals)
  | putting (totals : RelayServiceTotals) (bytes : Bytes)

structure Bootstrap where
  /-- What is under the journal's key. -/
  stored : Option Bytes
  relayLog : Log
  /-- `#relayRestored` is set. -/
  asked : Bool
  markerBanked : Bool
  task : Option Task
  /-- All that the instances of this object have observed. -/
  activity : List Activity
  /-- What handlers have failed with, of the journal's own. -/
  thrown : List RelayJournalError

def Bootstrap.init : Bootstrap := ⟨none, Log.init, false, false, none, [], []⟩

inductive Event
  /-- The fabric opens a stream or is handed one. -/
  | opened (stream : Stream) (now : ℤ)
  /-- Data on a stream, either way. -/
  | carried (id : Nat) (byteLength : Nat)
  /-- A request that builds the fabric, or waits for it. -/
  | fabric
  | webSocketMessage
  | webSocketClose
  | alarm
  /-- A read completes, or throws. -/
  | read (ok : Bool)
  /-- A put completes, or fails without effect. -/
  | put (ok : Bool)
  /-- The instance is evicted; a put that is under way may have taken effect. -/
  | evict (landed : Bool)

namespace Bootstrap

def relayLogOnce (s : Bootstrap) : Bootstrap :=
  if s.asked then s else { s with asked := true, task := some .restoring }

/-- `#bankRelayLog`, as far as it runs before it waits. -/
def bankRelayLog (s : Bootstrap) : Bootstrap :=
  if s.relayLog.restored then { s with task := some (.checking s.relayLog.report) } else s

def markerIsOnlyInMemory (s : Bootstrap) : Bool :=
  !s.markerBanked && s.relayLog.restored && s.relayLog.report.firstInboundHopStreamAt.isSome

/-- A handler is delivered where nothing waits for storage. -/
def deliver (s : Bootstrap) (handler : Bootstrap → Bootstrap) : Option Bootstrap :=
  match s.task with
  | none => some (handler s)
  | some _ => none

/-- The log takes the stored history in. -/
def restore (s : Bootstrap) (banked : RelayServiceTotals) : Bootstrap :=
  { s with
    task := none
    relayLog := s.relayLog.restore banked
    markerBanked := s.markerBanked || banked.firstInboundHopStreamAt.isSome }

/-- A handler, or what waits for it, fails. -/
def throw (s : Bootstrap) (error : RelayJournalError) : Bootstrap :=
  { s with task := none, thrown := s.thrown ++ [error] }

/-- Storage's answer to the read that is under way. -/
def readDone (fraction : ℚ → JsString) (s : Bootstrap) (ok : Bool) : Option Bootstrap :=
  match s.task with
  | some .restoring =>
    if ok then
      match readRelayServiceJournal s.stored with
      | .ok banked => some (s.restore banked)
      | .error error => some (s.throw error)
    else some { s with task := none }
  | some (.checking totals) =>
    if ok then
      match writeRelayServiceJournal fraction s.stored totals with
      | .ok bytes => some { s with task := some (.putting totals bytes) }
      | .error error => some (s.throw error)
    else some { s with task := none }
  | _ => none

def putDone (s : Bootstrap) (ok : Bool) : Option Bootstrap :=
  match s.task with
  | some (.putting totals bytes) =>
    if ok then
      some { s with
        task := none
        stored := some bytes
        markerBanked := s.markerBanked || totals.firstInboundHopStreamAt.isSome }
    else some { s with task := none }
  | _ => none

def fresh (s : Bootstrap) (stored : Option Bytes) : Bootstrap :=
  { s with stored := stored, relayLog := Log.init, asked := false, markerBanked := false, task := none }

def evict (s : Bootstrap) (landed : Bool) : Bootstrap :=
  match s.task, landed with
  | some (.putting _ bytes), true => s.fresh (some bytes)
  | _, _ => s.fresh s.stored

def step (fraction : ℚ → JsString) (s : Bootstrap) : Event → Option Bootstrap
  | .opened stream now =>
    some { s with
      relayLog := s.relayLog.observe stream now
      activity := s.activity ++ s.relayLog.opens stream }
  | .carried id byteLength =>
    some { s with
      relayLog := s.relayLog.carry id byteLength
      activity := s.activity ++ s.relayLog.carries id byteLength }
  | .fabric => s.deliver relayLogOnce
  | .webSocketMessage =>
    s.deliver fun s => if s.markerIsOnlyInMemory then s.bankRelayLog else s
  | .webSocketClose => s.deliver bankRelayLog
  -- the sweep has nothing of the journal
  | .alarm => s.deliver id
  | .read ok => s.readDone fraction ok
  | .put ok => s.putDone ok
  | .evict landed => some (s.evict landed)

end Bootstrap

end O2Fabric.RelayBanking

/-! # Never backwards

The relay journal never goes backwards, and never counts anything twice.

An instance that is not restored holds only what it saw itself, so what it
saw and what is stored add up; one that is restored holds both.
-/

namespace O2Fabric.RelayBanking

open RelayServiceLog RelayServiceJournal Steps Bootstrap

variable {fraction : ℚ → JsString} {s s' : Bootstrap} {stored : RelayServiceTotals}

/-- How the log in memory stands to what is stored and to what was observed. -/
def Accounts (stored : RelayServiceTotals) (log : Log) (activity : List Activity) : Prop :=
  if log.restored then
    Follows stored log.report ∧ ∀ c, log.report.counter c ≤ total activity c
  else ∀ c, log.report.counter c + stored.counter c ≤ total activity c

def TaskHolds (fraction : ℚ → JsString) (stored : RelayServiceTotals) (log : Log) (asked : Bool) :
    Option Task → Prop
  | none => True
  | some .restoring => log.restored = false ∧ asked = true
  | some (.checking totals) =>
    log.restored = true ∧ Whole totals ∧ Follows stored totals ∧ Follows totals log.report
  | some (.putting totals bytes) =>
    log.restored = true ∧ Whole totals ∧ Follows stored totals ∧ Follows totals log.report ∧
      bytes = encodeTotals fraction totals

structure Kept (fraction : ℚ → JsString) (s : Bootstrap) (stored : RelayServiceTotals) :
    Prop where
  read : readRelayServiceJournal s.stored = .ok stored
  whole : Whole stored
  wholeLog : Whole s.relayLog.report
  accounts : Accounts stored s.relayLog s.activity
  unasked : s.asked = false → s.relayLog.restored = false
  task : TaskHolds fraction stored s.relayLog s.asked s.task
  thrown : s.thrown = []

theorem kept_init (fraction : ℚ → JsString) : Kept fraction Bootstrap.init NO_RELAY_SERVICE where
  read := rfl
  whole := whole_none
  wholeLog := whole_none
  accounts := by
    show ∀ c, (0 : ℚ) + 0 ≤ total [] c
    intro c
    have hnone : total [] c = 0 := rfl
    rw [hnone, Nat.cast_zero, add_zero]
  unasked _ := rfl
  task := trivial
  thrown := rfl

/-- What is stored is no more than was observed. -/
theorem Kept.le_total (h : Kept fraction s stored) (c : RelayCounter) :
    stored.counter c ≤ total s.activity c := by
  have haccounts := h.accounts
  have hlog := h.wholeLog.nonneg c
  unfold Accounts at haccounts
  split at haccounts
  · exact (haccounts.1.counter c).trans (haccounts.2 c)
  · have := haccounts c
    linarith

/-- A log that has seen more, by as much as there was to see. -/
theorem Accounts.grows {log log' : Log} {activity activity' : List Activity}
    (h : Accounts stored log activity) (hrestored : log'.restored = log.restored)
    (hfollows : Follows log.report log'.report)
    (hcounts : ∀ c, log'.report.counter c + (total activity c : ℚ)
      = log.report.counter c + total activity' c) :
    Accounts stored log' activity' := by
  unfold Accounts at h ⊢
  rw [hrestored]
  split at h
  · next hon =>
    rw [if_pos hon]
    refine ⟨h.1.trans hfollows, fun c => ?_⟩
    have hold := h.2 c
    have hnew := hcounts c
    linarith
  · next hoff =>
    rw [if_neg hoff]
    intro c
    have hold := h c
    have hnew := hcounts c
    linarith

theorem TaskHolds.grows {log log' : Log} {asked : Bool} {task : Option Task}
    (h : TaskHolds fraction stored log asked task) (hrestored : log'.restored = log.restored)
    (hfollows : Follows log.report log'.report) : TaskHolds fraction stored log' asked task := by
  unfold TaskHolds at h ⊢
  split
  · trivial
  · exact ⟨hrestored.trans h.1, h.2⟩
  · obtain ⟨hon, hwhole, hstored, hlog⟩ := h
    exact ⟨hrestored.trans hon, hwhole, hstored, hlog.trans hfollows⟩
  · obtain ⟨hon, hwhole, hstored, hlog, hbytes⟩ := h
    exact ⟨hrestored.trans hon, hwhole, hstored, hlog.trans hfollows, hbytes⟩

/-- The log observes something more. -/
theorem Kept.observes (h : Kept fraction s stored) {log' : Log} {more : List Activity}
    (hrestored : log'.restored = s.relayLog.restored)
    (hfollows : Follows s.relayLog.report log'.report) (hwhole : Whole log'.report)
    (hcounts : ∀ c, log'.report.counter c + (total s.activity c : ℚ)
      = s.relayLog.report.counter c + total (s.activity ++ more) c) :
    Kept fraction { s with relayLog := log', activity := s.activity ++ more } stored where
  read := h.read
  whole := h.whole
  wholeLog := hwhole
  accounts := h.accounts.grows hrestored hfollows hcounts
  unasked hasked := hrestored.trans (h.unasked hasked)
  task := h.task.grows hrestored hfollows
  thrown := h.thrown

/-- The same log waits for something else. -/
theorem Kept.waits (h : Kept fraction s stored) {task : Option Task} {asked markerBanked : Bool}
    (htask : TaskHolds fraction stored s.relayLog asked task)
    (hasked : asked = false → s.relayLog.restored = false) :
    Kept fraction { s with task := task, asked := asked, markerBanked := markerBanked }
      stored where
  read := h.read
  whole := h.whole
  wholeLog := h.wholeLog
  accounts := h.accounts
  unasked := hasked
  task := htask
  thrown := h.thrown

theorem Kept.banks (h : Kept fraction s stored) : Kept fraction s.bankRelayLog stored := by
  unfold bankRelayLog
  split
  · next hrestored =>
    have haccounts := h.accounts
    rw [Accounts, if_pos hrestored] at haccounts
    exact h.waits
      ⟨hrestored, h.wholeLog, haccounts.1, Follows.refl _⟩ h.unasked
  · exact h

/-- A fresh instance over a record that follows the one that was stored. -/
theorem Kept.restarts (h : Kept fraction s stored) {bytes : Option Bytes}
    {next : RelayServiceTotals} (hread : readRelayServiceJournal bytes = .ok next)
    (hwhole : Whole next) (hle : ∀ c, next.counter c ≤ total s.activity c) :
    Kept fraction (s.fresh bytes) next where
  read := hread
  whole := hwhole
  wholeLog := whole_none
  accounts := by
    show ∀ c, (0 : ℚ) + next.counter c ≤ total s.activity c
    intro c
    have := hle c
    linarith
  unasked _ := rfl
  task := trivial
  thrown := h.thrown

theorem Kept.puts (h : Kept fraction s stored) {totals : RelayServiceTotals} {bytes : Bytes}
    (htask : s.task = some (.putting totals bytes)) :
    readRelayServiceJournal (some bytes) = .ok totals ∧ Whole totals ∧ Follows stored totals ∧
      Follows totals s.relayLog.report ∧ s.relayLog.restored = true ∧
      ∀ c, totals.counter c ≤ total s.activity c := by
  have hholds := h.task
  rw [htask] at hholds
  obtain ⟨hrestored, hwhole, hstored, hlog, hbytes⟩ := hholds
  have haccounts := h.accounts
  rw [Accounts, if_pos hrestored] at haccounts
  refine ⟨?_, hwhole, hstored, hlog, hrestored, ?_⟩
  · rw [hbytes]
    exact read_encode fraction hwhole
  · exact fun c => (hlog.counter c).trans (haccounts.2 c)

theorem Kept.readDone (h : Kept fraction s stored) {ok : Bool}
    (hstep : s.readDone fraction ok = some s') : Kept fraction s' stored := by
  have hholds := h.task
  unfold Bootstrap.readDone at hstep
  split at hstep
  · next htask =>
    rw [htask] at hholds
    cases ok with
    | false =>
      cases hstep
      exact h.waits trivial h.unasked
    | true =>
      simp only [if_true, h.read] at hstep
      cases hstep
      obtain ⟨hoff, hasked⟩ := hholds
      have haccounts := h.accounts
      rw [Accounts, if_neg (by rw [hoff]; exact Bool.false_ne_true)] at haccounts
      refine ⟨h.read, h.whole, h.wholeLog.restore h.whole, ?_, ?_, trivial, h.thrown⟩
      · show Follows stored (s.relayLog.restore stored).report ∧
          ∀ c, s.relayLog.report.counter c + stored.counter c ≤ total s.activity c
        exact ⟨follows_restore h.wholeLog.nonneg stored, haccounts⟩
      · intro hunasked
        have : s.asked = false := hunasked
        rw [hasked] at this
        cases this
  · next totals htask =>
    rw [htask] at hholds
    obtain ⟨hrestored, hwhole, hstored, hlog⟩ := hholds
    cases ok with
    | false =>
      cases hstep
      exact h.waits trivial h.unasked
    | true =>
      simp only [if_true, write_follows h.read hstored] at hstep
      cases hstep
      exact h.waits ⟨hrestored, hwhole, hstored, hlog, rfl⟩ h.unasked
  · cases hstep

/-- A put that completes stores what follows. -/
theorem Kept.putDone (h : Kept fraction s stored) {ok : Bool} (hstep : s.putDone ok = some s') :
    ∃ next, Kept fraction s' next ∧ Follows stored next := by
  unfold Bootstrap.putDone at hstep
  split at hstep
  · next totals bytes htask =>
    cases ok with
    | false =>
      cases hstep
      exact ⟨stored, h.waits trivial h.unasked, Follows.refl stored⟩
    | true =>
      cases hstep
      obtain ⟨hread, hwhole, hstored, hlog, hrestored, -⟩ := h.puts htask
      have haccounts := h.accounts
      rw [Accounts, if_pos hrestored] at haccounts
      refine ⟨totals, ⟨hread, hwhole, h.wholeLog, ?_, h.unasked, trivial, h.thrown⟩, hstored⟩
      show Accounts totals s.relayLog s.activity
      rw [Accounts, if_pos hrestored]
      exact ⟨hlog, haccounts.2⟩
  · cases hstep

/-- An eviction stores what follows, or nothing. -/
theorem Kept.evicts (h : Kept fraction s stored) (landed : Bool) :
    ∃ next, Kept fraction (s.evict landed) next ∧ Follows stored next := by
  unfold Bootstrap.evict
  split
  · next totals bytes htask =>
    obtain ⟨hread, hwhole, hstored, -, -, hle⟩ := h.puts htask
    exact ⟨totals, h.restarts hread hwhole hle, hstored⟩
  · exact ⟨stored, h.restarts h.read h.whole h.le_total, Follows.refl stored⟩

theorem deliver_eq_some {handler : Bootstrap → Bootstrap} (h : s.deliver handler = some s') :
    s.task = none ∧ s' = handler s := by
  unfold deliver at h
  split at h
  · next htask =>
    cases h
    exact ⟨htask, rfl⟩
  · cases h

/-- Whatever happens, what is stored after it follows what was stored before. -/
theorem Kept.step (h : Kept fraction s stored) {e : Event} (hstep : s.step fraction e = some s') :
    ∃ next, Kept fraction s' next ∧ Follows stored next := by
  have same : Kept fraction s' stored → ∃ next, Kept fraction s' next ∧ Follows stored next :=
    fun hkept => ⟨stored, hkept, Follows.refl stored⟩
  cases e with
  | opened stream now =>
    cases hstep
    exact same (h.observes (restored_observe _ _ _) (follows_observe _ _ _)
      (h.wholeLog.observe stream now) (counter_observe _ _ _ _))
  | carried id byteLength =>
    cases hstep
    exact same (h.observes (restored_carry _ _ _) (follows_carry _ _ _)
      (h.wholeLog.carry id byteLength) (counter_carry _ _ _ _))
  | fabric =>
    obtain ⟨-, rfl⟩ := deliver_eq_some hstep
    apply same
    unfold relayLogOnce
    split
    · exact h
    · next hasked =>
      have hoff := h.unasked (Bool.eq_false_iff.mpr hasked)
      exact h.waits ⟨hoff, rfl⟩ fun _ => hoff
  | webSocketMessage =>
    obtain ⟨-, rfl⟩ := deliver_eq_some hstep
    apply same
    show Kept fraction (if s.markerIsOnlyInMemory then s.bankRelayLog else s) stored
    split
    · exact h.banks
    · exact h
  | webSocketClose =>
    obtain ⟨-, rfl⟩ := deliver_eq_some hstep
    exact same h.banks
  | alarm =>
    obtain ⟨-, rfl⟩ := deliver_eq_some hstep
    exact same h
  | read ok => exact same (h.readDone hstep)
  | put ok => exact h.putDone hstep
  | evict landed =>
    cases hstep
    exact h.evicts landed

theorem Kept.run (h : Kept fraction s stored)
    (hrun : Reaches (Bootstrap.step fraction) anything s s') :
    ∃ next, Kept fraction s' next ∧ Follows stored next := by
  refine hrun.invariant (I := fun t => ∃ next, Kept fraction t next ∧ Follows stored next)
    ⟨stored, h, Follows.refl stored⟩ ?_
  rintro t e t' - ⟨next, hkept, hfollows⟩ hstep
  obtain ⟨next', hkept', hfollows'⟩ := hkept.step hstep
  exact ⟨next', hkept', hfollows.trans hfollows'⟩

/-- In every run, over any evictions and however much is observed before a restore: the totals in
    storage never decrease and the marker there is never unset or moved later, no total exceeds
    what was observed, and no handler fails with an error of the journal. -/
theorem relay_journal_never_backwards (fraction : ℚ → JsString)
    (h : Reaches (Bootstrap.step fraction) anything Bootstrap.init s)
    (hlater : Reaches (Bootstrap.step fraction) anything s s') :
    ∃ before after : RelayServiceTotals,
      readRelayServiceJournal s.stored = .ok before ∧
      readRelayServiceJournal s'.stored = .ok after ∧
      (∀ c, before.counter c ≤ after.counter c) ∧
      (∀ t, before.firstInboundHopStreamAt = some t →
        ∃ t', after.firstInboundHopStreamAt = some t' ∧ t' ≤ t) ∧
      (∀ c, after.counter c ≤ total s'.activity c) ∧
      s'.thrown = [] := by
  obtain ⟨before, hbefore, -⟩ := (kept_init fraction).run h
  obtain ⟨after, hafter, hfollows⟩ := hbefore.run hlater
  exact ⟨before, after, hbefore.read, hafter.read, hfollows.counter, hfollows.marker,
    hafter.le_total, hafter.thrown⟩

/-- A relay that is used, evicted before anything is banked, used again and closed. -/
theorem relay_journal_after_eviction :
    ∃ (s : Bootstrap) (totals : RelayServiceTotals),
      readRelayServiceJournal s.stored = .ok totals ∧
      ∀ c, totals.counter c ≤ total s.activity c := by
  let fraction : ℚ → JsString := fun _ => []
  let hop (id : Nat) : Stream := ⟨id, true, RELAY_HOP_PROTOCOL⟩
  let events : List Event :=
    [.fabric, .read true, .opened (hop 0) 1700, .webSocketMessage, .read true, .put true,
      .carried 0 120, .evict false, .opened (hop 1) 1800, .fabric, .carried 1 40, .read true,
      .webSocketClose, .read true, .put true]
  have hruns : ((Steps.run (Bootstrap.step fraction) Bootstrap.init events).map
      fun s => s.stored.isSome) = some true := by decide +kernel
  obtain ⟨s, hrun, -⟩ := Option.map_eq_some_iff.mp hruns
  have hreaches : Reaches (Bootstrap.step fraction) anything Bootstrap.init s :=
    Reaches.of_run (fun _ _ _ => trivial) hrun
  obtain ⟨-, totals, -, hread, -, -, hle, -⟩ :=
    relay_journal_never_backwards fraction hreaches Reaches.refl
  exact ⟨s, totals, hread, hle⟩

end O2Fabric.RelayBanking
