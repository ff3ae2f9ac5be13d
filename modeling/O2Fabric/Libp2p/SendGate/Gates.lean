/-
  O2Fabric.Libp2p.SendGate.Gates

  The gates and the sends, between two events.

  Until `stop`, `Open` ties every gate to the sends: its count is the number of
  sends that hold a slot, its queue the sends that wait.  A slot that is on its
  way from one to the other is `owed`.
-/

import O2Fabric.Lib.Modify
import O2Fabric.Libp2p.SendGate

namespace O2Fabric.Libp2p.Sender

variable {c : GateSettings} {s s' : Sender} {peer to_ : JsString} {i : Nat} {r : Send}

/-! ## Readings -/

def holdsFor (peer : JsString) (r : Send) : Bool := r.phase.holds && decide (r.to_ = peer)

/-- Streams to the peer that are being opened, written to or closed. -/
def activeTo (s : Sender) (peer : JsString) : Nat := s.sends.countP (holdsFor peer)

def gateOf (s : Sender) (peer : JsString) : Gate := (s.gates.get? peer).getD ⟨0, []⟩

/-- The send waits for a slot to the peer. -/
def WaitsFor (s : Sender) (i : Nat) (peer : JsString) : Prop :=
  ∃ r, s.sends[i]? = some r ∧ r.to_ = peer ∧ r.phase.waits = true

/-- The waiters for the peer that got a slot, in the order in which they did. -/
def grantedTo (s : Sender) (peer : JsString) : List Nat :=
  s.granted.filter fun i => decide ((s.sends[i]?).map Send.to_ = some peer)

/-- A waiter that waits no longer was settled once. -/
def Accounted (r : Send) : Prop :=
  (r.phase.waits = true → r.parked = true) ∧
    r.settlements.length = if r.parked = true ∧ r.phase.waits = false then 1 else 0

/-! ## The gates -/

@[simp] theorem gateOf_setGate (s : Sender) (to_ peer : JsString) (gate : Gate) :
    (s.setGate to_ gate).gateOf peer = if peer = to_ then gate else s.gateOf peer := by
  unfold gateOf setGate
  dsimp only
  rw [InsertionMap.get?_set]
  split <;> rfl

theorem gateOf_delete (s : Sender) (to_ peer : JsString) :
    gateOf { s with gates := s.gates.delete to_ } peer
      = if peer = to_ then ⟨0, []⟩ else s.gateOf peer := by
  unfold gateOf
  dsimp only
  rw [InsertionMap.get?_delete]
  split <;> rfl

variable {gate : Gate}

theorem gateOf_of_get? (h : s.gates.get? peer = some gate) : s.gateOf peer = gate := by
  unfold gateOf
  rw [h]
  rfl

theorem get?_of_active (h : 0 < (s.gateOf peer).active) :
    s.gates.get? peer = some (s.gateOf peer) := by
  unfold gateOf at *
  cases hgate : s.gates.get? peer with
  | none =>
    rw [hgate] at h
    cases h
  | some gate => rfl

theorem peakStreamsTo_recordPeak (s : Sender) (to_ peer : JsString) (active : Nat) :
    (s.recordPeak to_ active).peakStreamsTo peer
      = if peer = to_ then max (s.peakStreamsTo to_) active else s.peakStreamsTo peer := by
  unfold recordPeak
  split
  · next hmore =>
    unfold peakStreamsTo at hmore ⊢
    dsimp only
    rw [InsertionMap.get?_set]
    split
    · rw [Nat.max_eq_right (Nat.le_of_lt hmore)]
      rfl
    · rfl
  · next hless =>
    split
    · next heq =>
      rw [heq, Nat.max_eq_left (Nat.le_of_not_lt hless)]
    · rfl

@[simp] theorem recordPeak_sends (s : Sender) (to_ : JsString) (active : Nat) :
    (s.recordPeak to_ active).sends = s.sends := by
  unfold recordPeak
  split <;> rfl

@[simp] theorem recordPeak_gates (s : Sender) (to_ : JsString) (active : Nat) :
    (s.recordPeak to_ active).gates = s.gates := by
  unfold recordPeak
  split <;> rfl

@[simp] theorem recordPeak_granted (s : Sender) (to_ : JsString) (active : Nat) :
    (s.recordPeak to_ active).granted = s.granted := by
  unfold recordPeak
  split <;> rfl

@[simp] theorem recordPeak_stopped (s : Sender) (to_ : JsString) (active : Nat) :
    (s.recordPeak to_ active).stopped = s.stopped := by
  unfold recordPeak
  split <;> rfl

/-! ## One send changes -/

/-- One send has gone from `r` to `r'`; the others are as they were. -/
structure Moved (s s' : Sender) (i : Nat) (r r' : Send) : Prop where
  before : s.sends[i]? = some r
  sends : ∃ f : Send → Send, s'.sends = s.sends.modify i f ∧ f r = r'
  to_ : r'.to_ = r.to_

namespace Moved

variable {r' : Send}

theorem length (h : Moved s s' i r r') : s'.sends.length = s.sends.length := by
  obtain ⟨f, hsends, -⟩ := h.sends
  rw [hsends, List.length_modify]

theorem get? (h : Moved s s' i r r') (j : Nat) :
    s'.sends[j]? = if j = i then some r' else s.sends[j]? := by
  obtain ⟨f, hsends, hf⟩ := h.sends
  rw [hsends, List.getElem?_modify]
  by_cases hj : j = i
  · rw [hj, if_pos rfl, h.before]
    simp [hf]
  · rw [if_neg hj]
    have hne : ¬ i = j := fun heq => hj heq.symm
    simp [hne]

theorem activeTo (h : Moved s s' i r r') (peer : JsString) :
    s'.activeTo peer + (holdsFor peer r).toNat = s.activeTo peer + (holdsFor peer r').toNat := by
  obtain ⟨f, hsends, hf⟩ := h.sends
  unfold Sender.activeTo
  rw [hsends, ← hf]
  exact Modify.countP_modify (holdsFor peer) h.before

theorem waitsFor (h : Moved s s' i r r') (j : Nat) (peer : JsString) :
    s'.WaitsFor j peer ↔
      if j = i then r.to_ = peer ∧ r'.phase.waits = true else s.WaitsFor j peer := by
  unfold WaitsFor
  rw [h.get? j]
  by_cases hj : j = i
  · rw [if_pos hj, if_pos hj, ← h.to_]
    constructor
    · rintro ⟨_, ⟨⟩, hpeer, hwaits⟩
      exact ⟨hpeer, hwaits⟩
    · rintro ⟨hpeer, hwaits⟩
      exact ⟨r', rfl, hpeer, hwaits⟩
  · rw [if_neg hj, if_neg hj]

theorem destination (h : Moved s s' i r r') (j : Nat) :
    (s'.sends[j]?).map Send.to_ = (s.sends[j]?).map Send.to_ := by
  rw [h.get? j]
  by_cases hj : j = i
  · rw [if_pos hj, hj, h.before]
    exact congrArg some h.to_
  · rw [if_neg hj]

theorem accounted (h : Moved s s' i r r') (hall : ∀ (j : Nat) q, s.sends[j]? = some q → Accounted q)
    (hr : Accounted r') : ∀ (j : Nat) q, s'.sends[j]? = some q → Accounted q := by
  intro j q hq
  rw [h.get? j] at hq
  by_cases hj : j = i
  · rw [if_pos hj] at hq
    cases hq
    exact hr
  · rw [if_neg hj] at hq
    exact hall j q hq

end Moved

theorem moved_setPhase (h : s.sends[i]? = some r) (phase : Phase) :
    Moved s (s.setPhase i phase) i r { r with phase := phase } :=
  ⟨h, ⟨_, rfl, rfl⟩, rfl⟩

theorem moved_settleWaiter (h : s.sends[i]? = some r) (outcome : WaiterOutcome) (phase : Phase) :
    Moved s (s.settleWaiter i outcome phase) i r
      { r with phase := phase, settlements := r.settlements ++ [outcome] } :=
  ⟨h, ⟨_, rfl, rfl⟩, rfl⟩

/-! ## The invariants -/

/-- The gates are what the sends make of them.  `owed` counts slots that were
    released and not yet given to anybody. -/
structure Open (c : GateSettings) (s : Sender) (owed : JsString → Nat) : Prop where
  active : ∀ peer, (s.gateOf peer).active = s.activeTo peer + owed peer
  present : ∀ peer gate, s.gates.get? peer = some gate → 0 < gate.active
  bounded : ∀ peer, (s.gateOf peer).active ≤ c.maxStreamsPerPeer
  room : ∀ peer, (s.gateOf peer).queue.length ≤ c.maxQueuedSends
  busy : ∀ peer, (s.gateOf peer).queue ≠ [] → (s.gateOf peer).active = c.maxStreamsPerPeer
  line : ∀ peer i, i ∈ (s.gateOf peer).queue ↔ s.WaitsFor i peer
  fifo : ∀ peer, (s.grantedTo peer ++ (s.gateOf peer).queue).Pairwise (· < ·)

/-- After `stop`: no gate, nobody waits, and the streams still open run out. -/
structure Shut (c : GateSettings) (s : Sender) : Prop where
  gates : s.gates = .empty
  nobody : ∀ i peer, ¬ s.WaitsFor i peer
  bounded : ∀ peer, s.activeTo peer ≤ c.maxStreamsPerPeer

/-- What holds between two events. -/
structure Kept (c : GateSettings) (s : Sender) : Prop where
  running : s.stopped = false → s.Open c fun _ => 0
  shut : s.stopped = true → s.Shut c
  accounted : ∀ (i : Nat) r, s.sends[i]? = some r → Accounted r
  logged : ∀ i ∈ s.granted, i < s.sends.length
  peaks : ∀ peer, s.activeTo peer ≤ s.peakStreamsTo peer

/-- The peaks keep up with the streams. -/
def Peaked (s s' : Sender) : Prop :=
  ∀ peer, s'.peakStreamsTo peer = max (s.peakStreamsTo peer) (s'.activeTo peer)

/-- A number in line is that of a send. -/
theorem WaitsFor.lt (h : s.WaitsFor i peer) : i < s.sends.length := by
  obtain ⟨r, hr, -, -⟩ := h
  exact (List.getElem?_eq_some_iff.mp hr).1

/-- A send waits for one peer only. -/
theorem WaitsFor.unique {other : JsString} (h : s.WaitsFor i peer) (h' : s.WaitsFor i other) :
    peer = other := by
  obtain ⟨r, hr, rfl, -⟩ := h
  obtain ⟨r', hr', rfl, -⟩ := h'
  rw [hr] at hr'
  cases hr'
  rfl

theorem Moved.active_same {r' : Send} (h : Moved s s' i r r')
    (hholds : r'.phase.holds = r.phase.holds) (peer : JsString) :
    s'.activeTo peer = s.activeTo peer := by
  have hcount := h.activeTo peer
  have hsame : holdsFor peer r' = holdsFor peer r := by
    unfold holdsFor
    rw [hholds, h.to_]
  rw [hsame] at hcount
  omega

/-- A send that neither begins nor ceases to wait, with its slot accounted for. -/
theorem Open.moved {owed owed' : JsString → Nat} {r' : Send} (h : s.Open c owed)
    (hmoved : Moved s s' i r r') (hwaits : r'.phase.waits = r.phase.waits)
    (hactive : ∀ peer, s'.activeTo peer + owed' peer = s.activeTo peer + owed peer)
    (hgates : s'.gates = s.gates) (hgranted : s'.granted = s.granted) : s'.Open c owed' := by
  have hgate : ∀ peer, s'.gateOf peer = s.gateOf peer := by
    intro peer
    unfold gateOf
    rw [hgates]
  have hline : ∀ j peer, s'.WaitsFor j peer ↔ s.WaitsFor j peer := by
    intro j peer
    rw [hmoved.waitsFor]
    by_cases hj : j = i
    · rw [if_pos hj, hj, hwaits]
      constructor
      · rintro ⟨hpeer, hw⟩
        exact ⟨r, hmoved.before, hpeer, hw⟩
      · rintro ⟨q, hq, hpeer, hw⟩
        rw [hmoved.before] at hq
        cases hq
        exact ⟨hpeer, hw⟩
    · rw [if_neg hj]
  have hlog : ∀ peer, s'.grantedTo peer = s.grantedTo peer := by
    intro peer
    unfold grantedTo
    rw [hgranted]
    apply List.filter_congr
    intro j _
    rw [hmoved.destination j]
  constructor
  · intro peer
    rw [hgate, hactive]
    exact h.active peer
  · intro peer gate hget
    rw [hgates] at hget
    exact h.present peer gate hget
  · intro peer
    rw [hgate]
    exact h.bounded peer
  · intro peer
    rw [hgate]
    exact h.room peer
  · intro peer
    rw [hgate]
    exact h.busy peer
  · intro peer j
    rw [hgate, hline]
    exact h.line peer j
  · intro peer
    rw [hgate, hlog]
    exact h.fifo peer

/-! ## A slot is released -/

/-- One slot to the peer, on its way. -/
def oneTo (to_ peer : JsString) : Nat := if peer = to_ then 1 else 0

@[simp] theorem oneTo_self (to_ : JsString) : oneTo to_ to_ = 1 := if_pos rfl

theorem holdsFor_toNat (peer : JsString) (hholds : r.phase.holds = true) :
    (holdsFor peer r).toNat = oneTo r.to_ peer := by
  unfold holdsFor oneTo
  rw [hholds, Bool.true_and]
  by_cases hpeer : r.to_ = peer
  · simp [hpeer]
  · have hne : ¬ peer = r.to_ := fun heq => hpeer heq.symm
    simp [hpeer, hne]

theorem holdsFor_toNat_zero (peer : JsString) (hfree : r.phase.holds = false) :
    (holdsFor peer r).toNat = 0 := by
  unfold holdsFor
  rw [hfree]
  rfl

variable {phase : Phase}

theorem holds_of_waits (h : phase.waits = true) : phase.holds = false := by
  cases phase <;> first | rfl | cases h

/-- The gate of one peer is written, the other gates are as they were. -/
structure Regated (s s' : Sender) (to_ : JsString) (gate : Gate) : Prop where
  gates : ∀ peer, s'.gateOf peer = if peer = to_ then gate else s.gateOf peer
  present : ∀ peer other, s'.gates.get? peer = some other → 0 < other.active ∨
    s.gates.get? peer = some other

theorem not_waiting_of_holds (h : phase.holds = true) : phase.waits = false := by
  cases phase <;> first | rfl | cases h

theorem regated_set (h : s'.gates = s.gates.set to_ gate) (hpos : 0 < gate.active) :
    Regated s s' to_ gate := by
  constructor
  · intro peer
    have hgates := gateOf_setGate s to_ peer gate
    unfold gateOf at hgates ⊢
    rw [h]
    exact hgates
  · intro peer other hget
    rw [h, InsertionMap.get?_set] at hget
    split at hget
    · cases hget
      exact Or.inl hpos
    · exact Or.inr hget

/-- A send leaves the line, to take a slot or to end. -/
theorem Open.unqueued {owed owed' : JsString → Nat} {r' : Send} (h : s.Open c owed)
    (hgate : s.gateOf r.to_ = gate)
    (hregated : Regated s s' r.to_ { gate with queue := gate.queue.erase i })
    (hmoved : Moved s s' i r r') (hwaits : r.phase.waits = true) (hdone : r'.phase.waits = false)
    (hactive : ∀ peer, s'.activeTo peer + owed' peer = s.activeTo peer + owed peer)
    (hlog : ∀ peer, peer ≠ r.to_ → s'.grantedTo peer = s.grantedTo peer)
    (hfifo : (s'.grantedTo r.to_ ++ gate.queue.erase i).Pairwise (· < ·)) : s'.Open c owed' := by
  have hline : ∀ j peer, s'.WaitsFor j peer ↔ j ≠ i ∧ s.WaitsFor j peer := by
    intro j peer
    rw [hmoved.waitsFor]
    by_cases hj : j = i
    · simp [hj, hdone]
    · simp [hj]
  have hnodup : gate.queue.Nodup := by
    have hpair := (List.pairwise_append.mp (h.fifo r.to_)).2.1
    rw [hgate] at hpair
    exact hpair.imp fun hlt => Nat.ne_of_lt hlt
  constructor
  · intro peer
    rw [hregated.gates, hactive, ← h.active]
    split
    · next heq =>
      rw [heq, hgate]
    · rfl
  · intro peer other hget
    rcases hregated.present peer other hget with hpos | hold
    · exact hpos
    · exact h.present peer other hold
  · intro peer
    rw [hregated.gates]
    split
    · have hbounded := h.bounded r.to_
      rw [hgate] at hbounded
      exact hbounded
    · exact h.bounded peer
  · intro peer
    rw [hregated.gates]
    split
    · have hroom := h.room r.to_
      rw [hgate] at hroom
      exact Nat.le_trans List.length_erase_le hroom
    · exact h.room peer
  · intro peer
    rw [hregated.gates]
    split
    · intro hne
      have hbusy := h.busy r.to_
      rw [hgate] at hbusy
      apply hbusy
      intro hempty
      apply hne
      show gate.queue.erase i = []
      rw [hempty]
      rfl
    · exact h.busy peer
  · intro peer j
    rw [hregated.gates, hline, ← h.line]
    split
    · next heq =>
      rw [heq, hgate]
      exact hnodup.mem_erase_iff
    · next hne =>
      constructor
      · intro hin
        refine ⟨fun hj => ?_, hin⟩
        rw [h.line, hj] at hin
        exact hne (hin.unique ⟨r, hmoved.before, rfl, hwaits⟩)
      · exact fun hin => hin.2
  · intro peer
    rw [hregated.gates]
    split
    · next heq =>
      rw [heq]
      exact hfifo
    · next hne =>
      rw [hlog peer hne]
      exact h.fifo peer

theorem Moved.grantedTo {r' : Send} (h : Moved s s' i r r') (more : List Nat)
    (hgranted : s'.granted = s.granted ++ more) (peer : JsString) :
    s'.grantedTo peer = s.grantedTo peer
      ++ more.filter fun j => decide ((s.sends[j]?).map Send.to_ = some peer) := by
  unfold Sender.grantedTo
  rw [hgranted, ← List.filter_append]
  apply List.filter_congr
  intro j _
  rw [h.destination j]

theorem Moved.grantedTo_same {r' : Send} (h : Moved s s' i r r') (hgranted : s'.granted = s.granted)
    (peer : JsString) : s'.grantedTo peer = s.grantedTo peer := by
  rw [h.grantedTo [] (hgranted.trans (List.append_nil _).symm), List.filter_nil, List.append_nil]

/-- The first in line gets the slot. -/
theorem Open.handed {next : Nat} {queue : List Nat} {active : Nat} {r' : Send}
    (h : s.Open c (oneTo r.to_)) (hgate : s.gateOf r.to_ = ⟨active, next :: queue⟩)
    (hregated : Regated s s' r.to_ ⟨active, queue⟩) (hmoved : Moved s s' next r r')
    (hwaits : r.phase.waits = true) (hholds : r'.phase.holds = true)
    (hgranted : s'.granted = s.granted ++ [next]) : s'.Open c fun _ => 0 := by
  have hfirst : (next :: queue).erase next = queue := List.erase_cons_head next queue
  apply h.unqueued hgate _ hmoved hwaits (not_waiting_of_holds hholds)
  · intro peer
    have hcount := hmoved.activeTo peer
    rw [holdsFor_toNat_zero peer (holds_of_waits hwaits), holdsFor_toNat peer hholds,
      hmoved.to_] at hcount
    omega
  · intro peer hne
    have hother : ¬ r.to_ = peer := fun heq => hne heq.symm
    rw [hmoved.grantedTo _ hgranted]
    simp [hmoved.before, hother]
  · have hfifo := h.fifo r.to_
    rw [hgate] at hfifo
    have hlast : s'.grantedTo r.to_ = s.grantedTo r.to_ ++ [next] := by
      rw [hmoved.grantedTo _ hgranted]
      simp [hmoved.before]
    rw [hlast]
    show (s.grantedTo r.to_ ++ [next] ++ (next :: queue).erase next).Pairwise (· < ·)
    rw [hfirst, List.append_assoc]
    exact hfifo
  · show Regated s s' r.to_ ⟨active, (next :: queue).erase next⟩
    rw [hfirst]
    exact hregated

/-- Nobody waits: the slot goes back to the pool. -/
theorem Open.returned {active : Nat} (h : s.Open c (oneTo to_))
    (hgate : s.gateOf to_ = ⟨active, []⟩) (hregated : Regated s s' to_ ⟨active - 1, []⟩)
    (hsends : s'.sends = s.sends) (hgranted : s'.granted = s.granted) : s'.Open c fun _ => 0 := by
  have hactive : ∀ peer, s'.activeTo peer = s.activeTo peer := by
    intro peer
    unfold activeTo
    rw [hsends]
  have hline : ∀ j peer, s'.WaitsFor j peer ↔ s.WaitsFor j peer := by
    intro j peer
    unfold WaitsFor
    rw [hsends]
  have hlog : ∀ peer, s'.grantedTo peer = s.grantedTo peer := by
    intro peer
    unfold grantedTo
    rw [hgranted, hsends]
  constructor
  · intro peer
    rw [hregated.gates, hactive, Nat.add_zero]
    split
    · next heq =>
      have hcount := h.active to_
      rw [hgate, oneTo_self] at hcount
      rw [heq]
      show active - 1 = s.activeTo to_
      have hcount' : active = s.activeTo to_ + 1 := hcount
      omega
    · next hne =>
      have hcount := h.active peer
      rw [oneTo, if_neg hne] at hcount
      exact hcount
  · intro peer other hget
    rcases hregated.present peer other hget with hpos | hold
    · exact hpos
    · exact h.present peer other hold
  · intro peer
    rw [hregated.gates]
    split
    · have hbounded := h.bounded to_
      rw [hgate] at hbounded
      exact Nat.le_trans (Nat.sub_le active 1) hbounded
    · exact h.bounded peer
  · intro peer
    rw [hregated.gates]
    split
    · exact Nat.zero_le _
    · exact h.room peer
  · intro peer
    rw [hregated.gates]
    split
    · exact fun hne => absurd rfl hne
    · exact h.busy peer
  · intro peer j
    rw [hregated.gates, hline, ← h.line]
    split
    · next heq =>
      rw [heq, hgate]
    · exact Iff.rfl
  · intro peer
    rw [hregated.gates, hlog]
    have hfifo := h.fifo peer
    split
    · next heq =>
      rw [heq, hgate] at hfifo
      rw [heq]
      exact hfifo
    · exact hfifo

/-- What becomes of a slot: the first in line has it, or it is the pool's again. -/
def Passed (s s' : Sender) (to_ : JsString) : Prop :=
  (∃ next, (s.gateOf to_).queue = next :: (s'.gateOf to_).queue ∧
      s'.granted = s.granted ++ [next] ∧ (s'.gateOf to_).active = (s.gateOf to_).active) ∨
    ((s.gateOf to_).queue = [] ∧ (s'.gateOf to_).queue = [] ∧ s'.granted = s.granted ∧
      (s'.gateOf to_).active + 1 = (s.gateOf to_).active)

/-- Everything `#release` can do while the gates are there. -/
theorem release_cases (hget : s.gates.get? to_ = some gate) (hactive : 0 < gate.active) :
    (∃ next queue, gate.queue = next :: queue ∧
        Regated s (s.release to_) to_ ⟨gate.active, queue⟩ ∧
        (s.release to_).sends = (s.settleWaiter next .granted .dialing).sends ∧
        (s.release to_).granted = s.granted ++ [next] ∧
        (s.release to_).peakStreams = (s.recordPeak to_ gate.active).peakStreams ∧
        (s.release to_).stopped = s.stopped) ∨
      (gate.queue = [] ∧ Regated s (s.release to_) to_ ⟨gate.active - 1, []⟩ ∧
        (s.release to_).sends = s.sends ∧ (s.release to_).granted = s.granted ∧
        (s.release to_).peakStreams = s.peakStreams ∧ (s.release to_).stopped = s.stopped) := by
  obtain ⟨active, queue⟩ := gate
  unfold release
  rw [hget]
  cases queue with
  | cons next queue =>
    refine Or.inl ⟨next, queue, rfl, ?_, ?_, ?_, ?_, ?_⟩
    · have hpos : 0 < active := hactive
      exact regated_set (by simp [settleWaiter, setGate]) hpos
    · simp [settleWaiter, setGate]
    · simp [setGate]
    · unfold settleWaiter recordPeak setGate peakStreamsTo
      dsimp only
      split <;> rfl
    · simp [settleWaiter, setGate]
  | nil =>
    refine Or.inr ⟨rfl, ?_⟩
    dsimp only
    split
    · next hlast =>
      refine ⟨⟨?_, ?_⟩, rfl, rfl, rfl, rfl⟩
      · intro peer
        rw [gateOf_delete, hlast]
      · intro peer other hother
        dsimp only at hother
        rw [InsertionMap.get?_delete] at hother
        split at hother
        · cases hother
        · exact Or.inr hother
    · next hmore =>
      refine ⟨?_, rfl, rfl, rfl, rfl⟩
      exact regated_set rfl (Nat.pos_of_ne_zero hmore)

theorem Accounted.of_not_waiting {r r' : Send} (h : Accounted r) (hr : r.phase.waits = false)
    (hr' : r'.phase.waits = false) (hparked : r'.parked = r.parked)
    (hsettlements : r'.settlements = r.settlements) : Accounted r' := by
  refine ⟨fun hwaits => ?_, ?_⟩
  · rw [hr'] at hwaits
    cases hwaits
  · rw [hsettlements, h.2, hparked, hr, hr']

/-- A waiter that is settled now was not settled before. -/
theorem Accounted.settle {r : Send} (h : Accounted r) (hwaits : r.phase.waits = true)
    (hdone : phase.waits = false) (outcome : WaiterOutcome) :
    Accounted { r with phase := phase, settlements := r.settlements ++ [outcome] } := by
  have hnone : r.settlements.length = 0 := by
    rw [h.2, hwaits]
    simp
  refine ⟨fun hagain => ?_, ?_⟩
  · have hagain' : phase.waits = true := hagain
    rw [hdone] at hagain'
    cases hagain'
  · show (r.settlements ++ [outcome]).length = if r.parked = true ∧ phase.waits = false then 1 else 0
    rw [List.length_append, hnone, if_pos ⟨h.1 hwaits, hdone⟩]
    rfl

/-- What `#release` does with the slot it is given. -/
structure Released (c : GateSettings) (s s' : Sender) (to_ : JsString) : Prop where
  opened : s'.Open c fun _ => 0
  passed : Passed s s' to_
  active : ∀ peer, s'.activeTo peer ≤ s.activeTo peer + oneTo to_ peer
  accounted : (∀ (i : Nat) r, s.sends[i]? = some r → Accounted r) →
    ∀ (i : Nat) r, s'.sends[i]? = some r → Accounted r
  logged : (∀ i ∈ s.granted, i < s.sends.length) → ∀ i ∈ s'.granted, i < s'.sends.length
  peaks : s.activeTo to_ + 1 ≤ s.peakStreamsTo to_ →
    ∀ peer, s'.peakStreamsTo peer = s.peakStreamsTo peer
  stopped : s'.stopped = s.stopped

theorem Open.release (h : s.Open c (oneTo to_)) : Released c s (s.release to_) to_ := by
  have hcount : (s.gateOf to_).active = s.activeTo to_ + 1 := by
    rw [h.active, oneTo_self]
  have hget : s.gates.get? to_ = some (s.gateOf to_) := get?_of_active (by omega)
  generalize hgate : s.gateOf to_ = gate at hget hcount
  obtain ⟨next, queue, hqueue, hregated, hsends, hgranted, hpeaks, hstill⟩ |
    ⟨hqueue, hregated, hsends, hgranted, hpeaks, hstill⟩ := release_cases hget (by omega)
  · have hsame : gate = ⟨gate.active, next :: queue⟩ := by
      rw [← hqueue]
    have hline : s.WaitsFor next to_ := by
      rw [← h.line, hgate, hqueue]
      exact List.mem_cons_self
    obtain ⟨q, hq, rfl, hwaiting⟩ := hline
    have hmoved : Moved s (s.release q.to_) next q
        { q with phase := .dialing, settlements := q.settlements ++ [.granted] } :=
      ⟨hq, ⟨_, hsends, rfl⟩, rfl⟩
    have hactive : ∀ peer, (s.release q.to_).activeTo peer = s.activeTo peer + oneTo q.to_ peer := by
      intro peer
      have hplus := hmoved.activeTo peer
      rw [holdsFor_toNat_zero peer (holds_of_waits hwaiting), holdsFor_toNat peer rfl] at hplus
      exact hplus
    constructor
    · exact h.handed (hgate.trans hsame) hregated hmoved hwaiting rfl hgranted
    · refine Or.inl ⟨next, ?_⟩
      rw [hregated.gates, if_pos rfl, hgate]
      exact ⟨hqueue, hgranted, rfl⟩
    · exact fun peer => (hactive peer).le
    · intro hall
      exact hmoved.accounted hall ((hall next q hq).settle hwaiting rfl _)
    · intro hall i hi
      rw [hmoved.length]
      rw [hgranted] at hi
      rcases List.mem_append.mp hi with hold | hnew
      · exact hall i hold
      · rw [List.mem_singleton.mp hnew]
        exact (List.getElem?_eq_some_iff.mp hq).1
    · intro hpeak peer
      have hrecord := peakStreamsTo_recordPeak s q.to_ peer gate.active
      unfold peakStreamsTo at hrecord hpeak ⊢
      rw [hpeaks, hrecord]
      split
      · next heq =>
        rw [heq, hcount]
        exact Nat.max_eq_left hpeak
      · rfl
    · exact hstill
  · have hsame : gate = ⟨gate.active, []⟩ := by
      rw [← hqueue]
    constructor
    · exact h.returned (hgate.trans hsame) hregated hsends hgranted
    · refine Or.inr ?_
      rw [hregated.gates, if_pos rfl, hgate]
      refine ⟨hqueue, rfl, hgranted, ?_⟩
      show gate.active - 1 + 1 = gate.active
      omega
    · intro peer
      unfold activeTo
      rw [hsends]
      exact Nat.le_add_right _ _
    · intro hall
      rw [hsends]
      exact hall
    · intro hall
      rw [hsends, hgranted]
      exact hall
    · intro _ peer
      unfold peakStreamsTo
      rw [hpeaks]
    · exact hstill

end O2Fabric.Libp2p.Sender
