/-
  O2Fabric.Libp2p.SendGate.Events

  What each event of the send gate keeps, and what it does to the peaks.
-/

import O2Fabric.Lib.Steps
import O2Fabric.Libp2p.SendGate.Gates

namespace O2Fabric.Libp2p.Sender

variable {c : GateSettings} {s s' : Sender} {peer to_ : JsString} {i : Nat} {r : Send}

/-! ## Sends that go on or end -/

/-- What one event leaves: the invariants, and peaks that are up to date. -/
def Next (c : GateSettings) (s s' : Sender) : Prop := s'.Kept c ∧ Peaked s s'

/-- Where the number of streams does not grow, neither do the peaks. -/
theorem Kept.peaks_same (h : s.Kept c) (hless : ∀ peer, s'.activeTo peer ≤ s.activeTo peer)
    (hsame : ∀ peer, s'.peakStreamsTo peer = s.peakStreamsTo peer) :
    (∀ peer, s'.activeTo peer ≤ s'.peakStreamsTo peer) ∧ Peaked s s' := by
  constructor
  · intro peer
    rw [hsame]
    exact Nat.le_trans (hless peer) (h.peaks peer)
  · intro peer
    rw [hsame]
    exact (Nat.max_eq_left (Nat.le_trans (hless peer) (h.peaks peer))).symm

/-- After `stop` a send that had a slot just ends. -/
theorem Shut.moved {r' : Send} (h : s.Shut c) (hmoved : Moved s s' i r r')
    (hwaits : r'.phase.waits = false) (hgates : s'.gates = s.gates)
    (hless : ∀ peer, s'.activeTo peer ≤ s.activeTo peer) : s'.Shut c := by
  refine ⟨hgates.trans h.gates, ?_, fun peer => Nat.le_trans (hless peer) (h.bounded peer)⟩
  intro j peer hj
  rw [hmoved.waitsFor, hwaits] at hj
  split at hj
  · cases hj.2
  · exact h.nobody j peer hj

/-- A send that had a slot ends. -/
theorem Kept.finish (h : s.Kept c) (hr : s.sends[i]? = some r) (hholds : r.phase.holds = true)
    (phase : Phase) (hfree : phase.holds = false) (hdone : phase.waits = false) :
    Next c s (s.finish i r.to_ phase) ∧
      (s.stopped = false → Passed s (s.finish i r.to_ phase) r.to_) := by
  have hmoved := moved_setPhase hr phase
  have hwaits := not_waiting_of_holds hholds
  have hactive : ∀ peer, (s.setPhase i phase).activeTo peer + oneTo r.to_ peer = s.activeTo peer := by
    intro peer
    have hcount := hmoved.activeTo peer
    rw [holdsFor_toNat peer hholds, holdsFor_toNat_zero peer hfree] at hcount
    exact hcount
  have haccounted := hmoved.accounted h.accounted
    ((h.accounted i r hr).of_not_waiting hwaits hdone rfl rfl)
  have hlogged : ∀ j ∈ s.granted, j < (s.setPhase i phase).sends.length := by
    intro j hj
    rw [hmoved.length]
    exact h.logged j hj
  unfold Sender.finish
  cases hstopped : s.stopped with
  | true =>
    have hshut := h.shut hstopped
    -- no gate is left, so nothing is given back
    have hnone : (s.setPhase i phase).release r.to_ = s.setPhase i phase := by
      unfold release
      have hgates : (s.setPhase i phase).gates = .empty := hshut.gates
      rw [hgates]
      rfl
    rw [hnone]
    have hless : ∀ peer, (s.setPhase i phase).activeTo peer ≤ s.activeTo peer := by
      intro peer
      have hcount := hactive peer
      omega
    obtain ⟨hpeaks, hpeaked⟩ := h.peaks_same hless fun _ => rfl
    refine ⟨⟨⟨fun hrunning => ?_, fun _ => ?_, haccounted, hlogged, hpeaks⟩, hpeaked⟩, ?_⟩
    · exact absurd (hstopped.symm.trans hrunning) (by decide)
    · exact hshut.moved hmoved hdone rfl hless
    · intro hrunning
      cases hrunning
  | false =>
    have howed : (s.setPhase i phase).Open c (oneTo r.to_) := by
      apply (h.running hstopped).moved hmoved (hdone.trans hwaits.symm) _ rfl rfl
      intro peer
      rw [hactive, Nat.add_zero]
    have hreleased := howed.release
    have hless : ∀ peer, ((s.setPhase i phase).release r.to_).activeTo peer ≤ s.activeTo peer := by
      intro peer
      rw [← hactive]
      exact hreleased.active peer
    have hpeak : (s.setPhase i phase).activeTo r.to_ + 1 ≤ s.peakStreamsTo r.to_ := by
      have hcount := hactive r.to_
      rw [oneTo_self] at hcount
      rw [hcount]
      exact h.peaks r.to_
    obtain ⟨hpeaks, hpeaked⟩ := h.peaks_same hless (hreleased.peaks hpeak)
    refine ⟨⟨⟨fun _ => hreleased.opened, fun hlate => ?_, hreleased.accounted haccounted,
      hreleased.logged hlogged, hpeaks⟩, hpeaked⟩, fun _ => hreleased.passed⟩
    have hlate' : s.stopped = true := hreleased.stopped.symm.trans hlate
    exact absurd (hstopped.symm.trans hlate') (by decide)

/-- A send that has a slot and keeps it. -/
theorem Kept.progress (h : s.Kept c) (hr : s.sends[i]? = some r) (hholds : r.phase.holds = true)
    {phase : Phase} (hstill : phase.holds = true) : Next c s (s.setPhase i phase) := by
  have hmoved := moved_setPhase hr phase
  have hwaits := not_waiting_of_holds hholds
  have hdone := not_waiting_of_holds hstill
  have hactive : ∀ peer, (s.setPhase i phase).activeTo peer = s.activeTo peer :=
    hmoved.active_same (hstill.trans hholds.symm)
  obtain ⟨hpeaks, hpeaked⟩ := h.peaks_same (fun peer => (hactive peer).le) fun _ => rfl
  refine ⟨⟨fun hrunning => ?_, fun hstopped => ?_, ?_, ?_, hpeaks⟩, hpeaked⟩
  · apply (h.running hrunning).moved hmoved (hdone.trans hwaits.symm) _ rfl rfl
    intro peer
    rw [hactive]
  · exact (h.shut hstopped).moved hmoved hdone rfl fun peer => (hactive peer).le
  · exact hmoved.accounted h.accounted
      ((h.accounted i r hr).of_not_waiting hwaits hdone rfl rfl)
  · intro j hj
    rw [hmoved.length]
    exact h.logged j hj

/-- A send leaves the line at its timeout. -/
theorem Kept.leave (hmax : 1 ≤ c.maxStreamsPerPeer) (h : s.Kept c) (hr : s.sends[i]? = some r) (hwaits : r.phase.waits = true) :
    Next c s (s.leave i r.to_) := by
  have hline : s.WaitsFor i r.to_ := ⟨r, hr, rfl, hwaits⟩
  have hrunning : s.stopped = false := by
    by_contra hstopped
    exact (h.shut (Bool.eq_true_of_not_eq_false hstopped)).nobody i r.to_ hline
  have hopen := h.running hrunning
  have hqueue : (s.gateOf r.to_).queue ≠ [] := by
    rw [← hopen.line] at hline
    exact List.ne_nil_of_mem hline
  have hpos : 0 < (s.gateOf r.to_).active := by
    rw [hopen.busy r.to_ hqueue]
    exact hmax
  have hget := get?_of_active hpos
  unfold Sender.leave
  rw [hget]
  dsimp only
  have hmoved : Moved s ((s.setGate r.to_ { s.gateOf r.to_ with
      queue := (s.gateOf r.to_).queue.erase i }).settleWaiter i .timedOut (.rejected .timedOut)) i r
      { r with phase := .rejected .timedOut, settlements := r.settlements ++ [.timedOut] } :=
    ⟨hr, ⟨_, rfl, rfl⟩, rfl⟩
  have hactive := hmoved.active_same (Eq.symm (holds_of_waits hwaits))
  obtain ⟨hpeaks, hpeaked⟩ := h.peaks_same (fun peer => (hactive peer).le) fun _ => rfl
  refine ⟨⟨fun _ => ?_, fun hlate => ?_, ?_, ?_, hpeaks⟩, hpeaked⟩
  · have hlog := hmoved.grantedTo_same rfl
    apply hopen.unqueued rfl _ hmoved hwaits rfl
    · intro peer
      rw [hactive]
    · exact fun peer _ => hlog peer
    · rw [hlog]
      exact (hopen.fifo r.to_).sublist (List.erase_sublist.append_left _)
    · exact regated_set rfl hpos
  · exact absurd (hrunning.symm.trans hlate) (by decide)
  · exact hmoved.accounted h.accounted ((h.accounted i r hr).settle hwaits rfl _)
  · intro j hj
    rw [hmoved.length]
    exact h.logged j hj

/-! ## A new send -/

structure Filed (s s' : Sender) (r : Send) : Prop where
  sends : s'.sends = s.sends ++ [r]
  granted : s'.granted = s.granted

namespace Filed

theorem activeTo (h : Filed s s' r) (peer : JsString) :
    s'.activeTo peer = s.activeTo peer + (holdsFor peer r).toNat := by
  unfold Sender.activeTo
  rw [h.sends, List.countP_append, List.countP_singleton]
  cases holdsFor peer r <;> rfl

theorem waitsFor (h : Filed s s' r) (j : Nat) (peer : JsString) :
    s'.WaitsFor j peer ↔
      s.WaitsFor j peer ∨ j = s.sends.length ∧ r.to_ = peer ∧ r.phase.waits = true := by
  unfold WaitsFor
  rw [h.sends]
  rcases Nat.lt_trichotomy j s.sends.length with hlt | rfl | hgt
  · rw [List.getElem?_append_left hlt]
    constructor
    · exact Or.inl
    · rintro (hold | ⟨heq, -⟩)
      · exact hold
      · omega
  · rw [List.getElem?_concat_length, List.getElem?_eq_none (Nat.le_refl _)]
    constructor
    · rintro ⟨_, ⟨⟩, hpeer, hwaits⟩
      exact Or.inr ⟨rfl, hpeer, hwaits⟩
    · rintro (⟨_, ⟨⟩, -⟩ | ⟨-, hpeer, hwaits⟩)
      exact ⟨r, rfl, hpeer, hwaits⟩
  · rw [List.getElem?_eq_none (by rw [List.length_append, List.length_singleton]; omega),
      List.getElem?_eq_none (by omega)]
    constructor
    · rintro ⟨_, ⟨⟩, -⟩
    · rintro (⟨_, ⟨⟩, -⟩ | ⟨heq, -⟩)
      omega

theorem grantedTo (h : Filed s s' r) (hlogged : ∀ i ∈ s.granted, i < s.sends.length)
    (peer : JsString) : s'.grantedTo peer = s.grantedTo peer := by
  unfold Sender.grantedTo
  rw [h.granted]
  apply List.filter_congr
  intro j hj
  rw [h.sends, List.getElem?_append_left (hlogged j hj)]

theorem logged (h : Filed s s' r) (hlogged : ∀ i ∈ s.granted, i < s.sends.length) :
    ∀ i ∈ s'.granted, i < s'.sends.length := by
  intro i hi
  rw [h.granted] at hi
  rw [h.sends, List.length_append]
  exact Nat.lt_add_right _ (hlogged i hi)

theorem accounted (h : Filed s s' r) (hall : ∀ (j : Nat) q, s.sends[j]? = some q → Accounted q)
    (hr : Accounted r) : ∀ (j : Nat) q, s'.sends[j]? = some q → Accounted q := by
  intro j q hq
  rw [h.sends] at hq
  rcases getElem?_concat_cases hq with hold | ⟨-, rfl⟩
  · exact hall j q hold
  · exact hr

end Filed

/-- A send that is refused changes nothing else. -/
theorem Kept.refused (h : s.Kept c) (hfiled : Filed s s' r) (hwaits : r.phase.waits = false)
    (hfree : r.phase.holds = false) (haccounted : Accounted r) (hstopped : s'.stopped = s.stopped)
    (hgates : ∀ peer, s'.gates.get? peer = s.gates.get? peer) (hempty : s.gates = .empty → s'.gates = .empty)
    (hpeak : s'.peakStreams = s.peakStreams) : Next c s s' := by
  have hactive : ∀ peer, s'.activeTo peer = s.activeTo peer := by
    intro peer
    rw [hfiled.activeTo, holdsFor_toNat_zero peer hfree, Nat.add_zero]
  have hline : ∀ j peer, s'.WaitsFor j peer ↔ s.WaitsFor j peer := by
    intro j peer
    rw [hfiled.waitsFor, hwaits]
    simp
  have hgate : ∀ peer, s'.gateOf peer = s.gateOf peer := by
    intro peer
    unfold gateOf
    rw [hgates]
  obtain ⟨hpeaks, hpeaked⟩ := h.peaks_same (fun peer => (hactive peer).le) fun peer => by
    unfold peakStreamsTo
    rw [hpeak]
  refine ⟨⟨fun hrunning => ?_, fun hlate => ?_, hfiled.accounted h.accounted haccounted,
    hfiled.logged h.logged, hpeaks⟩, hpeaked⟩
  · have hopen := h.running (hstopped.symm.trans hrunning)
    constructor
    · intro peer
      rw [hgate, hactive]
      exact hopen.active peer
    · intro peer gate hget
      rw [hgates] at hget
      exact hopen.present peer gate hget
    · intro peer
      rw [hgate]
      exact hopen.bounded peer
    · intro peer
      rw [hgate]
      exact hopen.room peer
    · intro peer
      rw [hgate]
      exact hopen.busy peer
    · intro peer j
      rw [hgate, hline]
      exact hopen.line peer j
    · intro peer
      rw [hgate, hfiled.grantedTo h.logged]
      exact hopen.fifo peer
  · have hshut := h.shut (hstopped.symm.trans hlate)
    refine ⟨hempty hshut.gates, ?_, ?_⟩
    · intro j peer
      rw [hline]
      exact hshut.nobody j peer
    · intro peer
      rw [hactive]
      exact hshut.bounded peer

/-- A send that finds a free slot. -/
theorem Kept.admitted (h : s.Kept c) (hrunning : s.stopped = false) (hfiled : Filed s s' r)
    (hholds : r.phase.holds = true) (haccounted : Accounted r)
    (hroom : (s.gateOf r.to_).active < c.maxStreamsPerPeer)
    (hgates : s'.gates = s.gates.set r.to_
      { s.gateOf r.to_ with active := (s.gateOf r.to_).active + 1 })
    (hpeak : ∀ peer, s'.peakStreamsTo peer = if peer = r.to_ then
      max (s.peakStreamsTo r.to_) ((s.gateOf r.to_).active + 1) else s.peakStreamsTo peer)
    (hstopped : s'.stopped = s.stopped) : Next c s s' := by
  have hopen := h.running hrunning
  have hregated := regated_set hgates (Nat.succ_pos _)
  have hactive : ∀ peer, s'.activeTo peer = s.activeTo peer + oneTo r.to_ peer := by
    intro peer
    rw [hfiled.activeTo, holdsFor_toNat peer hholds]
  have hcount : (s.gateOf r.to_).active = s.activeTo r.to_ := hopen.active r.to_
  have hpeaked : Peaked s s' := by
    intro peer
    rw [hpeak, hactive]
    split
    · next heq =>
      rw [heq, oneTo_self, hcount]
    · next hne =>
      rw [oneTo, if_neg hne, Nat.add_zero]
      exact (Nat.max_eq_left (h.peaks peer)).symm
  refine ⟨⟨fun _ => ?_, fun hlate => ?_, hfiled.accounted h.accounted haccounted,
    hfiled.logged h.logged, fun peer => ?_⟩, hpeaked⟩
  · constructor
    · intro peer
      rw [hregated.gates, hactive, Nat.add_zero]
      split
      · next heq =>
        rw [heq, oneTo_self, ← hcount]
      · next hne =>
        rw [oneTo, if_neg hne]
        exact hopen.active peer
    · intro peer other hget
      rcases hregated.present peer other hget with hpos | hold
      · exact hpos
      · exact hopen.present peer other hold
    · intro peer
      rw [hregated.gates]
      split
      · exact hroom
      · exact hopen.bounded peer
    · intro peer
      rw [hregated.gates]
      split
      · exact hopen.room r.to_
      · exact hopen.room peer
    · intro peer
      rw [hregated.gates]
      split
      · intro hqueue
        have hfull := hopen.busy r.to_ hqueue
        omega
      · exact hopen.busy peer
    · intro peer j
      rw [hregated.gates, hfiled.waitsFor, not_waiting_of_holds hholds, ← hopen.line]
      split
      · next heq =>
        rw [heq]
        simp
      · simp
    · intro peer
      rw [hregated.gates, hfiled.grantedTo h.logged]
      split
      · next heq =>
        rw [heq]
        exact hopen.fifo r.to_
      · exact hopen.fifo peer
  · exact absurd (hrunning.symm.trans (hstopped.symm.trans hlate)) (by decide)
  · rw [hpeaked]
    exact Nat.le_max_right _ _

/-- A send that is put in line. -/
theorem Kept.parked (hmax : 1 ≤ c.maxStreamsPerPeer) (h : s.Kept c) (hrunning : s.stopped = false)
    (hfiled : Filed s s' r) (hwaits : r.phase.waits = true) (haccounted : Accounted r)
    (hfull : ¬ (s.gateOf r.to_).active < c.maxStreamsPerPeer)
    (hroom : (s.gateOf r.to_).queue.length < c.maxQueuedSends)
    (hgates : s'.gates = s.gates.set r.to_
      { s.gateOf r.to_ with queue := (s.gateOf r.to_).queue ++ [s.sends.length] })
    (hpeak : s'.peakStreams = s.peakStreams) (hstopped : s'.stopped = s.stopped) : Next c s s' := by
  have hopen := h.running hrunning
  have hpos : 0 < (s.gateOf r.to_).active := by omega
  have hregated := regated_set hgates hpos
  have hactive : ∀ peer, s'.activeTo peer = s.activeTo peer := by
    intro peer
    rw [hfiled.activeTo, holdsFor_toNat_zero peer (holds_of_waits hwaits), Nat.add_zero]
  obtain ⟨hpeaks, hpeaked⟩ := h.peaks_same (fun peer => (hactive peer).le) fun peer => by
    unfold peakStreamsTo
    rw [hpeak]
  refine ⟨⟨fun _ => ?_, fun hlate => ?_, hfiled.accounted h.accounted haccounted,
    hfiled.logged h.logged, hpeaks⟩, hpeaked⟩
  · constructor
    · intro peer
      rw [hregated.gates, hactive, ← hopen.active]
      split
      · next heq => rw [heq]
      · rfl
    · intro peer other hget
      rcases hregated.present peer other hget with hmore | hold
      · exact hmore
      · exact hopen.present peer other hold
    · intro peer
      rw [hregated.gates]
      split
      · exact hopen.bounded r.to_
      · exact hopen.bounded peer
    · intro peer
      rw [hregated.gates]
      split
      · show ((s.gateOf r.to_).queue ++ [s.sends.length]).length ≤ c.maxQueuedSends
        rw [List.length_append, List.length_singleton]
        omega
      · exact hopen.room peer
    · intro peer
      rw [hregated.gates]
      split
      · intro _
        exact Nat.le_antisymm (hopen.bounded r.to_) (Nat.le_of_not_lt hfull)
      · exact hopen.busy peer
    · intro peer j
      rw [hregated.gates, hfiled.waitsFor, ← hopen.line]
      split
      · next heq =>
        rw [heq]
        simp [hwaits]
      · next hne =>
        have hother : ¬ r.to_ = peer := fun heq => hne heq.symm
        simp [hother]
    · intro peer
      rw [hregated.gates, hfiled.grantedTo h.logged]
      split
      · next heq =>
        rw [heq]
        -- the last to arrive has the highest number
        show (s.grantedTo r.to_ ++ ((s.gateOf r.to_).queue ++ [s.sends.length])).Pairwise (· < ·)
        rw [← List.append_assoc, List.pairwise_append]
        refine ⟨hopen.fifo r.to_, List.pairwise_singleton _ _, ?_⟩
        intro j hj last hlast
        rw [List.mem_singleton.mp hlast]
        rcases List.mem_append.mp hj with hgranted | hqueued
        · exact h.logged j (List.mem_of_mem_filter hgranted)
        · exact ((hopen.line r.to_ j).mp hqueued).lt
      · exact hopen.fifo peer
  · exact absurd (hrunning.symm.trans (hstopped.symm.trans hlate)) (by decide)

theorem modify_last {α : Type} (l : List α) (x : α) (f : α → α) :
    (l ++ [x]).modify l.length f = l ++ [f x] := by
  induction l with
  | nil => rfl
  | cons y rest ih => exact congrArg (y :: ·) ih

/-- A call of `send`. -/
theorem Kept.send (hmax : 1 ≤ c.maxStreamsPerPeer) (h : s.Kept c) (to_ : JsString)
    (byteLength : Nat) (path : PeerPath) : Next c s (s.send c to_ byteLength path) := by
  unfold Sender.send
  dsimp only
  split
  · exact h.refused ⟨rfl, rfl⟩ rfl rfl ⟨(fun hwaiting => by cases hwaiting), rfl⟩ rfl
      (fun _ => rfl) id rfl
  · next hstopped =>
    have hrunning := Bool.eq_false_iff.mpr hstopped
    split
    · exact h.refused ⟨rfl, rfl⟩ rfl rfl ⟨(fun hwaiting => by cases hwaiting), rfl⟩ rfl
        (fun _ => rfl) id rfl
    · unfold acquire
      dsimp only
      split
      · next hroom =>
        apply h.admitted (r := ⟨to_, byteLength, .dialing, false, []⟩) hrunning
        · constructor
          · simp [setPhase, setGate, modify_last]
          · simp [setPhase, setGate]
        · rfl
        · exact ⟨(fun hwaiting => by cases hwaiting), rfl⟩
        · exact hroom
        · simp [setPhase, setGate, gateOf]
        · exact fun peer => peakStreamsTo_recordPeak _ to_ peer _
        · simp [setPhase, setGate]
      · next hfull =>
        have hpos : 0 < (s.gateOf to_).active := Nat.lt_of_lt_of_le hmax (Nat.le_of_not_lt hfull)
        split
        · next hlong =>
          apply h.refused (r := ⟨to_, byteLength,
            .rejected (budgetRefusal c (s.gateOf to_) to_), false, []⟩)
          · constructor
            · simp [setPhase, setGate, gateOf, modify_last]
            · rfl
          · rfl
          · rfl
          · exact ⟨(fun hwaiting => by cases hwaiting), rfl⟩
          · rfl
          · -- the entry was there, and is written as it was
            intro peer
            show (s.gates.set to_ (s.gateOf to_)).get? peer = s.gates.get? peer
            rw [InsertionMap.get?_set]
            split
            · next heq => rw [heq, get?_of_active hpos]
            · rfl
          · intro hempty
            have hget := get?_of_active hpos
            rw [hempty] at hget
            cases hget
          · rfl
        · next hshort =>
          apply h.parked (r := ⟨to_, byteLength, .waiting, true, []⟩) hmax hrunning
          · constructor
            · simp [modify_last]
            · rfl
          · rfl
          · exact ⟨fun _ => rfl, rfl⟩
          · exact hfull
          · exact Nat.lt_of_not_le hshort
          · rfl
          · rfl
          · rfl

end O2Fabric.Libp2p.Sender

/-! # Fair

The send gate over whole runs: how many streams are open to a peer, who waits
for one and in which order, and what becomes of a slot that is released.
-/

namespace O2Fabric.Libp2p.Sender

open O2Fabric.Steps

variable {c : GateSettings} {s s' : Sender} {peer to_ : JsString} {i : Nat} {r : Send}

/-! ## Stopping -/

/-- Waiters settled one after another, each of them once. -/
structure Dismissed (s s' : Sender) (ids : List Nat) : Prop where
  active : ∀ peer, s'.activeTo peer = s.activeTo peer
  waitsFor : ∀ j peer, s'.WaitsFor j peer ↔ j ∉ ids ∧ s.WaitsFor j peer
  accounted : (∀ (j : Nat) q, s.sends[j]? = some q → Accounted q) →
    ∀ (j : Nat) q, s'.sends[j]? = some q → Accounted q
  length : s'.sends.length = s.sends.length
  granted : s'.granted = s.granted
  peaks : s'.peakStreams = s.peakStreams
  stopped : s'.stopped = s.stopped

theorem dismissAll (ids : List Nat) (hnodup : ids.Nodup) (hline : ∀ j ∈ ids, ∃ peer, s.WaitsFor j peer) :
    Dismissed s (ids.foldl (fun s i => s.settleWaiter i .stopped (.rejected .stopped)) s) ids := by
  induction ids generalizing s with
  | nil =>
    exact ⟨fun _ => rfl, by simp, id, rfl, rfl, rfl, rfl⟩
  | cons next rest ih =>
    obtain ⟨hnext, hrest⟩ := List.nodup_cons.mp hnodup
    obtain ⟨_, r, hr, rfl, hwaits⟩ := hline next List.mem_cons_self
    have hmoved := moved_settleWaiter hr .stopped (.rejected .stopped)
    have hstep : ∀ j peer, (s.settleWaiter next .stopped (.rejected .stopped)).WaitsFor j peer ↔
        j ≠ next ∧ s.WaitsFor j peer := by
      intro j peer
      rw [hmoved.waitsFor]
      by_cases hj : j = next
      · simp [hj, Phase.waits]
      · simp [hj]
    have hlater := ih hrest (s := s.settleWaiter next .stopped (.rejected .stopped)) (by
      intro j hj
      obtain ⟨peer, hwaiting⟩ := hline j (List.mem_cons_of_mem _ hj)
      exact ⟨peer, (hstep j peer).mpr ⟨fun heq => hnext (heq ▸ hj), hwaiting⟩⟩)
    rw [List.foldl_cons]
    constructor
    · intro peer
      rw [hlater.active]
      exact hmoved.active_same (holds_of_waits hwaits).symm peer
    · intro j peer
      rw [hlater.waitsFor, hstep, List.mem_cons, not_or]
      exact and_assoc.symm.trans (and_congr_left' And.comm)
    · intro hall
      exact hlater.accounted (hmoved.accounted hall ((hall next r hr).settle hwaits rfl _))
    · rw [hlater.length, hmoved.length]
    · exact hlater.granted
    · exact hlater.peaks
    · exact hlater.stopped

/-- Everybody who waits stands in one queue, once. -/
theorem Open.everybody {owed : JsString → Nat} (h : s.Open c owed) :
    (s.gates.values.flatMap Gate.queue).Nodup ∧
      ∀ j, j ∈ s.gates.values.flatMap Gate.queue ↔ ∃ peer, s.WaitsFor j peer := by
  have hmem : ∀ e ∈ s.gates.entries, ∀ j, j ∈ e.2.queue ↔ s.WaitsFor j e.1 := by
    intro e he j
    have hget : s.gates.get? e.1 = some e.2 := InsertionMap.get?_eq_some.mpr he
    rw [← h.line, gateOf_of_get? hget]
  have hflat : s.gates.values.flatMap Gate.queue = s.gates.entries.flatMap fun e => e.2.queue := by
    unfold InsertionMap.values
    rw [List.flatMap_map]
  rw [hflat]
  constructor
  · rw [List.nodup_flatMap]
    constructor
    · intro e he
      have hget : s.gates.get? e.1 = some e.2 := InsertionMap.get?_eq_some.mpr he
      have hpair := (List.pairwise_append.mp (h.fifo e.1)).2.1
      rw [gateOf_of_get? hget] at hpair
      exact hpair.imp fun hlt => Nat.ne_of_lt hlt
    · have hkeys := List.pairwise_map.mp s.gates.keysNodup
      apply hkeys.imp_of_mem
      intro e e' he he' hne j hj hj'
      have hwaits := (hmem e he j).mp hj
      exact hne (hwaits.unique ((hmem e' he' j).mp hj'))
  · intro j
    rw [List.mem_flatMap]
    constructor
    · rintro ⟨e, he, hj⟩
      exact ⟨e.1, (hmem e he j).mp hj⟩
    · rintro ⟨peer, hwaits⟩
      have hin := (h.line peer j).mpr hwaits
      unfold gateOf at hin
      cases hget : s.gates.get? peer with
      | none =>
        rw [hget] at hin
        cases hin
      | some gate =>
        rw [hget] at hin
        exact ⟨(peer, gate), InsertionMap.get?_eq_some.mp hget, hin⟩

theorem Kept.stop (h : s.Kept c) : Next c s s.stop := by
  unfold Sender.stop
  split
  · next hstopped =>
    refine ⟨h, fun peer => ?_⟩
    exact (Nat.max_eq_left (h.peaks peer)).symm
  · next hstopped =>
    have hopen := h.running (Bool.eq_false_iff.mpr hstopped)
    obtain ⟨hnodup, hall⟩ := hopen.everybody
    have hdismissed := dismissAll (s := { s with stopped := true }) _ hnodup
      fun j hj => (hall j).mp hj
    obtain ⟨hpeaks, hpeaked⟩ := h.peaks_same (fun peer => (hdismissed.active peer).le) fun peer => by
      unfold peakStreamsTo
      rw [hdismissed.peaks]
    refine ⟨⟨fun hrunning => ?_, fun _ => ⟨rfl, ?_, ?_⟩, hdismissed.accounted h.accounted, ?_,
      hpeaks⟩, hpeaked⟩
    · have hrunning' : true = false := hdismissed.stopped.symm.trans hrunning
      cases hrunning'
    · intro j peer hj
      obtain ⟨hout, hwaits⟩ := (hdismissed.waitsFor j peer).mp hj
      exact hout ((hall j).mpr ⟨peer, hwaits⟩)
    · intro peer
      have hbounded := hopen.bounded peer
      rw [hopen.active] at hbounded
      exact Nat.le_trans (hdismissed.active peer).le hbounded
    · intro j hj
      have hj' : j ∈ s.granted := by
        rw [← hdismissed.granted]
        exact hj
      show j < _
      rw [hdismissed.length]
      exact h.logged j hj'

/-! ## Runs -/

theorem start_kept : (start).Kept c := by
  refine ⟨fun _ => ⟨?_, ?_, ?_, ?_, ?_, ?_, ?_⟩, ?_, ?_, ?_, ?_⟩
  · exact fun _ => rfl
  · intro peer gate hget
    cases hget
  · exact fun _ => Nat.zero_le _
  · exact fun _ => Nat.zero_le _
  · exact fun _ hne => absurd rfl hne
  · intro peer j
    constructor
    · intro hin
      cases hin
    · rintro ⟨r, hr, -⟩
      cases hr
  · exact fun _ => List.Pairwise.nil
  · intro hstopped
    cases hstopped
  · intro j r hr
    cases hr
  · exact fun j hj => absurd hj List.not_mem_nil
  · exact fun _ => Nat.zero_le _

/-- The send whose slot the event releases. -/
def Event.ends : Event → Option Nat
  | .closed i | .failed i _ => some i
  | _ => none

/-- What one event leaves, and where a slot goes that it releases. -/
theorem step_next (hmax : 1 ≤ c.maxStreamsPerPeer) (h : s.Kept c) {e : Event}
    (hstep : step c s e = some s') :
    Next c s s' ∧ (s.stopped = false → ∀ i r, e.ends = some i → s.sends[i]? = some r →
      Passed s s' r.to_) := by
  cases e with
  | send to_ byteLength path =>
    cases hstep
    exact ⟨h.send hmax to_ byteLength path, fun _ i r hends => nomatch hends⟩
  | opened i =>
    simp only [step] at hstep
    split at hstep
    · next hr =>
      cases hstep
      exact ⟨h.progress hr rfl rfl, fun _ i r hends => nomatch hends⟩
    · cases hstep
  | written i =>
    simp only [step] at hstep
    split at hstep
    · next hr =>
      simp only [Option.ite_none_right_eq_some, Option.some.injEq] at hstep
      obtain ⟨-, rfl⟩ := hstep
      exact ⟨h.progress hr rfl rfl, fun _ i r hends => nomatch hends⟩
    · cases hstep
  | closed i =>
    simp only [step] at hstep
    split at hstep
    · next hr =>
      simp only [Option.ite_none_right_eq_some, Option.some.injEq] at hstep
      obtain ⟨-, rfl⟩ := hstep
      obtain ⟨hnext, hpassed⟩ := h.finish hr rfl .sent rfl rfl
      refine ⟨hnext, fun hrunning j q hends hq => ?_⟩
      cases hends
      rw [hr] at hq
      cases hq
      exact hpassed hrunning
    · cases hstep
  | failed i cause =>
    simp only [step] at hstep
    split at hstep
    · next r hr =>
      simp only [Option.ite_none_right_eq_some, Option.some.injEq] at hstep
      obtain ⟨hholds, rfl⟩ := hstep
      obtain ⟨hnext, hpassed⟩ := h.finish hr hholds (.rejected (.stream cause)) rfl rfl
      refine ⟨hnext, fun hrunning j q hends hq => ?_⟩
      cases hends
      rw [hr] at hq
      cases hq
      exact hpassed hrunning
    · cases hstep
  | timedOut i =>
    simp only [step] at hstep
    split at hstep
    · next r hr =>
      simp only [Option.ite_none_right_eq_some, Option.some.injEq] at hstep
      obtain ⟨hwaits, rfl⟩ := hstep
      exact ⟨h.leave hmax hr hwaits, fun _ i r hends => nomatch hends⟩
    · cases hstep
  | stop =>
    cases hstep
    exact ⟨h.stop, fun _ i r hends => nomatch hends⟩

theorem reaches_kept (hmax : 1 ≤ c.maxStreamsPerPeer) (h : Reaches (step c) anything start s) :
    s.Kept c :=
  h.invariant start_kept fun _ _ _ _ hkept hstep => (step_next hmax hkept hstep).1.1

/-- The most streams to the peer in any state of the run. -/
def highest (peer : JsString) (visited : List Sender) : Nat :=
  (visited.map fun s => s.activeTo peer).foldr max 0

/-- What holds of the gate between any two events of a run. -/
structure Fair (c : GateSettings) (visited : List Sender) (s : Sender) : Prop where
  bounded : ∀ peer, s.activeTo peer ≤ c.maxStreamsPerPeer
  counted : ∀ peer gate, s.gates.get? peer = some gate →
    gate.active = s.activeTo peer ∧ gate.queue.length ≤ c.maxQueuedSends ∧
      (gate.queue ≠ [] → gate.active = c.maxStreamsPerPeer)
  entries : s.stopped = false → ∀ peer, (s.gates.get? peer).isSome ↔ 0 < s.activeTo peer
  stopped : s.stopped = true → s.gates = .empty ∧ ∀ i peer, ¬ s.WaitsFor i peer
  line : ∀ i peer, i ∈ (s.gateOf peer).queue ↔ s.WaitsFor i peer
  /-- In the order of their calls: who got a slot after waiting, then who waits. -/
  fifo : s.stopped = false → ∀ peer, (s.grantedTo peer ++ (s.gateOf peer).queue).Pairwise (· < ·)
  settled : ∀ (i : Nat) r, s.sends[i]? = some r → Accounted r
  /-- Who waits has a timeout to come. -/
  ends : ∀ i peer, s.WaitsFor i peer →
    ∃ s', step c s (.timedOut i) = some s' ∧ ¬ s'.WaitsFor i peer
  passed : s.stopped = false → ∀ e s', step c s e = some s' → ∀ i r, e.ends = some i →
    s.sends[i]? = some r → Passed s s' r.to_
  peaks : ∀ peer, s.peakStreamsTo peer = highest peer visited

theorem Kept.fair (hmax : 1 ≤ c.maxStreamsPerPeer) (h : s.Kept c) {visited : List Sender}
    (hpeaks : ∀ peer, s.peakStreamsTo peer = highest peer visited) : s.Fair c visited := by
  have hempty : s.stopped = true → ∀ peer, s.gates.get? peer = none := by
    intro hstopped peer
    rw [(h.shut hstopped).gates]
    rfl
  constructor
  · intro peer
    cases hstopped : s.stopped with
    | true => exact (h.shut hstopped).bounded peer
    | false =>
      have hbounded := (h.running hstopped).bounded peer
      rw [(h.running hstopped).active] at hbounded
      exact hbounded
  · intro peer gate hget
    cases hstopped : s.stopped with
    | true =>
      rw [hempty hstopped] at hget
      cases hget
    | false =>
      have hopen := h.running hstopped
      rw [← gateOf_of_get? hget]
      exact ⟨hopen.active peer, hopen.room peer, hopen.busy peer⟩
  · intro hrunning peer
    have hopen := h.running hrunning
    have hcount : (s.gateOf peer).active = s.activeTo peer := hopen.active peer
    rw [← hcount]
    constructor
    · intro hthere
      obtain ⟨gate, hget⟩ := Option.isSome_iff_exists.mp hthere
      rw [gateOf_of_get? hget]
      exact hopen.present peer gate hget
    · intro hpos
      rw [get?_of_active hpos]
      rfl
  · intro hstopped
    exact ⟨(h.shut hstopped).gates, (h.shut hstopped).nobody⟩
  · intro i peer
    cases hstopped : s.stopped with
    | true =>
      unfold gateOf
      rw [hempty hstopped]
      exact ⟨fun hin => absurd hin List.not_mem_nil,
        fun hwaits => absurd hwaits ((h.shut hstopped).nobody i peer)⟩
    | false => exact (h.running hstopped).line peer i
  · exact fun hrunning => (h.running hrunning).fifo
  · exact h.accounted
  · rintro i _ ⟨r, hr, rfl, hwaits⟩
    refine ⟨s.leave i r.to_, ?_, ?_⟩
    · simp [step, hr, hwaits]
    · rintro ⟨q, hq, -, hagain⟩
      have hafter : (s.leave i r.to_).sends[i]?
          = some { r with phase := .rejected .timedOut, settlements := r.settlements ++ [.timedOut] } := by
        unfold Sender.leave settleWaiter
        dsimp only
        rw [List.getElem?_modify_eq]
        split <;> simp [setGate, hr]
      rw [hafter] at hq
      cases hq
      cases hagain
  · intro hrunning e s' hstep
    exact (step_next hmax h hstep).2 hrunning
  · exact hpeaks

/-- Whatever happens to it, in whatever order, the gate is fair. -/
theorem gate_is_fair (c : GateSettings) (hmax : 1 ≤ c.maxStreamsPerPeer) {visited : List Sender}
    {s : Sender} (h : Path (step c) anything start visited s) : s.Fair c visited := by
  apply (reaches_kept hmax h.reaches).fair hmax
  induction h with
  | start =>
    intro peer
    rfl
  | next hbefore _ hstep ih =>
    intro peer
    have hpeaked := (step_next hmax (reaches_kept hmax hbefore.reaches) hstep).1.2
    rw [hpeaked, ih, Nat.max_comm]
    rfl

/-! ## A run -/

/-- One stream to a peer at a time, and one send that waits. -/
def narrow : GateSettings := ⟨js "n", 1, 1⟩

/-- Three sends to one peer: one has the slot, one waits, one is refused.  The first
    ends, and the second has the slot. -/
def threeSends : List Event :=
  [.send (js "p") 1 .carriesWork, .send (js "p") 1 .carriesWork, .send (js "p") 1 .carriesWork,
    .opened 0, .written 0, .closed 0]

theorem gate_is_fair_three_sends : ∃ visited s,
    Path (step narrow) anything start visited s ∧ s.granted = [1] ∧ s.Fair narrow visited := by
  have hrun : ∃ s, run (step narrow) start threeSends = some s ∧ s.granted = [1] :=
    ⟨_, rfl, rfl⟩
  obtain ⟨s, hrun, hgranted⟩ := hrun
  have hstart : Path (step narrow) anything start [start] start := Path.start
  obtain ⟨visited, hpath⟩ := hstart.run (fun _ _ _ => trivial) hrun
  exact ⟨visited, s, hpath, hgranted, gate_is_fair narrow (Nat.le_refl 1) hpath⟩

end O2Fabric.Libp2p.Sender
