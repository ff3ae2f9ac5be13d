/-
  O2Fabric.Libp2p.Inbound

  `readMessage` and the budget it reads under: what a peer's unfinished reads
  hold is counted per peer, across all of them.

  One event is what runs between two turns of the event loop: a stream that is
  opened, a chunk of it, its end, its failure (a reset, a timeout), `stop`.
  A read that is refused first waits for the stream's iterator to close and
  gives its bytes back then.  `stop` does not end the reads that are going on.
  `dispatched` are the calls of `#dispatch` so far; no step reads it.
-/

import O2Fabric.Lib.Modify
import O2Fabric.Lib.Steps
import O2Fabric.Libp2p.SendGate

namespace O2Fabric.Libp2p

inductive ReadPhase
  | reading
  /-- `InboundTooLarge` is thrown, the iterator closes. -/
  | tooLarge
  /-- `InboundOverBudget` is thrown, the iterator closes. -/
  | overBudget
  | finished
  deriving DecidableEq

/-- One call of `readMessage`. -/
structure Read where
  from_ : JsString
  chunks : List Bytes
  total : Nat
  /-- What the call has charged to its peer. -/
  held : Nat
  phase : ReadPhase

/-- A chunk that is taken: charged first, then pushed. -/
def Read.push (maxMessageBytes : Nat) (r : Read) (chunk : Bytes) : Read :=
  { r with
    chunks := r.chunks ++ [chunk]
    total := r.total + chunk.length
    held := r.held + chunk.length
    phase := if maxMessageBytes < r.total + chunk.length then .tooLarge else .reading }

structure Receiver where
  stopped : Bool
  /-- Bytes each peer is holding across its unfinished reads. -/
  inboundBacklog : InsertionMap JsString Nat
  reads : List Read
  refusedInbound : Nat
  refusedOverBudget : Nat
  dispatched : List (JsString × Bytes)

namespace Receiver

def maxBacklogBytes (maxMessageBytes : Nat) : Nat :=
  maxMessageBytes * MAX_INBOUND_MESSAGES_IN_FLIGHT_PER_PEER

def start : Receiver := ⟨false, .empty, [], 0, 0, []⟩

def backlogOf (s : Receiver) (peer : JsString) : Nat := (s.inboundBacklog.get? peer).getD 0

/-- `budget.release`: what the call took is given back. -/
def release (s : Receiver) (read : Nat) (r : Read) : Receiver :=
  let remaining : Int := s.backlogOf r.from_ - r.held
  { s with
    inboundBacklog :=
      if 0 < remaining then s.inboundBacklog.set r.from_ remaining.toNat
      else s.inboundBacklog.delete r.from_
    reads := s.reads.modify read fun r => { r with held := 0, phase := .finished } }

/-- One turn of the loop of `readMessage`. -/
def chunk (maxMessageBytes : Nat) (s : Receiver) (read : Nat) (bytes : Bytes) : Option Receiver :=
  match s.reads[read]? with
  | some r =>
    if r.phase ≠ .reading then none
    else
      let running := s.backlogOf r.from_ + bytes.length
      if maxBacklogBytes maxMessageBytes < running then
        some { s with reads := s.reads.modify read fun r => { r with phase := .overBudget } }
      else
        some { s with
          inboundBacklog := s.inboundBacklog.set r.from_ running
          reads := s.reads.modify read fun r => r.push maxMessageBytes bytes }
  | none => none

/-- The stream has ended: the chunks are one message. -/
def ended (s : Receiver) (read : Nat) : Option Receiver :=
  match s.reads[read]? with
  | some r =>
    if r.phase ≠ .reading then none
    else
      some { s.release read r with
        dispatched := s.dispatched ++ [(r.from_, r.chunks.flatten)] }
  | none => none

def failed (s : Receiver) (read : Nat) : Option Receiver :=
  match s.reads[read]? with
  | some r => if r.phase ≠ .reading then none else some (s.release read r)
  | none => none

/-- The iterator of a read that was refused has closed. -/
def closed (s : Receiver) (read : Nat) : Option Receiver :=
  match s.reads[read]? with
  | some r =>
    match r.phase with
    | .tooLarge => some { s.release read r with refusedInbound := s.refusedInbound + 1 }
    | .overBudget => some { s.release read r with refusedOverBudget := s.refusedOverBudget + 1 }
    | _ => none
  | none => none

def stop (s : Receiver) : Receiver :=
  if s.stopped then s else { s with stopped := true, inboundBacklog := .empty }

inductive Event
  | opened (from_ : JsString)
  | chunk (read : Nat) (bytes : Bytes)
  | ended (read : Nat)
  | failed (read : Nat)
  | closed (read : Nat)
  | stop

/-- One event; `none` is one that cannot happen. -/
def step (maxMessageBytes : Nat) (s : Receiver) : Event → Option Receiver
  | .opened from_ => some { s with reads := s.reads ++ [⟨from_, [], 0, 0, .reading⟩] }
  | .chunk read bytes => s.chunk maxMessageBytes read bytes
  | .ended read => s.ended read
  | .failed read => s.failed read
  | .closed read => s.closed read
  | .stop => some s.stop

end Receiver

end O2Fabric.Libp2p

/-! # Budget

What is counted against a peer, and what its unfinished reads hold.

The two are the same as long as `stop` finds nothing held: it clears the
counters and leaves the reads going, which then charge from zero.
-/

namespace O2Fabric.Libp2p.Receiver

open O2Fabric.Steps

variable {maxMessageBytes : Nat} {s s' t : Receiver} {i : Nat} {r : Read} {peer : JsString}

/-! ## What is held -/

def bytesOf (r : Read) : Nat := (r.chunks.map List.length).sum

/-- What a read holds of a peer's, while it is unfinished. -/
def retained (peer : JsString) (r : Read) : Nat :=
  if r.phase ≠ .finished ∧ r.from_ = peer then bytesOf r else 0

/-- What the peer's unfinished reads hold together. -/
def retainedBy (s : Receiver) (peer : JsString) : Nat := (s.reads.map (retained peer)).sum

def Unfinished (s : Receiver) (peer : JsString) : Prop :=
  ∃ (i : Nat) (r : Read), s.reads[i]? = some r ∧ r.phase ≠ .finished ∧ r.from_ = peer

/-- The backlog is what is held, within the budget; messages are within the bound. -/
structure Budgeted (maxMessageBytes : Nat) (s : Receiver) : Prop where
  exact : ∀ peer, s.backlogOf peer = s.retainedBy peer
  bounded : ∀ peer, s.retainedBy peer ≤ maxBacklogBytes maxMessageBytes
  delivered : ∀ m ∈ s.dispatched, m.2.length ≤ maxMessageBytes
  dropped : ∀ peer, ¬ s.Unfinished peer → s.inboundBacklog.get? peer = none

/-- An unfinished read has charged and counted what it holds. -/
structure Metered (maxMessageBytes : Nat) (r : Read) : Prop where
  held : r.phase ≠ .finished → r.held = bytesOf r
  total : r.total = bytesOf r
  within : r.phase = .reading → bytesOf r ≤ maxMessageBytes

/-- What holds between two events. -/
structure Kept (maxMessageBytes : Nat) (s : Receiver) : Prop where
  budgeted : s.Budgeted maxMessageBytes
  metered : ∀ (i : Nat) r, s.reads[i]? = some r → Metered maxMessageBytes r

theorem retained_of_unfinished (h : r.phase ≠ .finished) : retained r.from_ r = bytesOf r :=
  if_pos ⟨h, rfl⟩

theorem retained_of_ne (h : r.from_ ≠ peer) : retained peer r = 0 :=
  if_neg fun hboth => h hboth.2

theorem retained_of_finished (h : r.phase = .finished) : retained peer r = 0 :=
  if_neg fun hboth => hboth.1 h

/-! ## One counter -/

theorem backlogOf_release (s : Receiver) (i : Nat) (r : Read) (peer : JsString) :
    (s.release i r).backlogOf peer
      = if peer = r.from_ then s.backlogOf r.from_ - r.held else s.backlogOf peer := by
  unfold release backlogOf
  dsimp only
  split
  · next hmore =>
    rw [InsertionMap.get?_set]
    split
    · show ((s.backlogOf r.from_ : Int) - r.held).toNat = s.backlogOf r.from_ - r.held
      omega
    · rfl
  · next hnone =>
    rw [InsertionMap.get?_delete]
    split
    · show 0 = s.backlogOf r.from_ - r.held
      have hless : ¬ 0 < (s.backlogOf r.from_ : Int) - r.held := hnone
      omega
    · rfl

/-- An entry that is left after a release. -/
theorem get?_release {n : Nat} (h : (s.release i r).inboundBacklog.get? peer = some n) :
    peer ≠ r.from_ ∧ s.inboundBacklog.get? peer = some n ∨
      peer = r.from_ ∧ r.held < s.backlogOf r.from_ := by
  unfold release at h
  dsimp only at h
  split at h
  · next hmore =>
    rw [InsertionMap.get?_set] at h
    split at h
    · next heq => exact Or.inr ⟨heq, by omega⟩
    · next hne => exact Or.inl ⟨hne, h⟩
  · rw [InsertionMap.get?_delete] at h
    split at h
    · cases h
    · next hne => exact Or.inl ⟨hne, h⟩

/-! ## One read -/

/-- With something held, some read is unfinished. -/
theorem unfinished_of_retained (h : 0 < s.retainedBy peer) : s.Unfinished peer := by
  by_contra hnone
  have hzero : s.retainedBy peer = 0 := by
    unfold retainedBy
    apply List.sum_eq_zero
    intro n hn
    obtain ⟨r, hr, rfl⟩ := List.mem_map.mp hn
    obtain ⟨i, hi⟩ := List.mem_iff_getElem?.mp hr
    apply if_neg
    rintro ⟨hunfinished, hfrom⟩
    exact hnone ⟨i, r, hi, hunfinished, hfrom⟩
  omega

theorem bytesOf_push (maxMessageBytes : Nat) (r : Read) (chunk : Bytes) :
    bytesOf (r.push maxMessageBytes chunk) = bytesOf r + chunk.length := by
  show ((r.chunks ++ [chunk]).map List.length).sum = (r.chunks.map List.length).sum + chunk.length
  rw [List.map_append, List.sum_append]
  rfl

theorem length_flatten (r : Read) : r.chunks.flatten.length = bytesOf r := List.length_flatten

theorem Metered.push (h : Metered maxMessageBytes r) (hreading : r.phase = .reading)
    (chunk : Bytes) : Metered maxMessageBytes (r.push maxMessageBytes chunk) := by
  have hheld : r.held = bytesOf r := h.held (by rw [hreading]; exact ReadPhase.noConfusion)
  refine ⟨fun _ => ?_, ?_, fun hstill => ?_⟩
  · rw [bytesOf_push, ← hheld]
    rfl
  · rw [bytesOf_push, ← h.total]
    rfl
  · have hphase : (if maxMessageBytes < r.total + chunk.length then ReadPhase.tooLarge
        else .reading) = .reading := hstill
    rw [bytesOf_push, ← h.total]
    by_contra hmore
    rw [if_pos (by omega)] at hphase
    cases hphase

variable {f : Read → Read}

/-- What the reads hold when one of them changes. -/
theorem retainedBy_modify (hr : s.reads[i]? = some r) (ht : t.reads = s.reads.modify i f)
    (peer : JsString) :
    t.retainedBy peer + retained peer r = s.retainedBy peer + retained peer (f r) := by
  unfold retainedBy
  rw [ht]
  exact Modify.sum_modify (retained peer) hr

/-- A read that is unfinished, after another has changed or this one has gone on. -/
theorem Unfinished.modify (h : s.Unfinished peer) (ht : t.reads = s.reads.modify i f)
    (hf : ∀ r, s.reads[i]? = some r → r.phase ≠ .finished → r.from_ = peer →
      (f r).phase ≠ .finished ∧ (f r).from_ = peer) : t.Unfinished peer := by
  obtain ⟨j, q, hq, hunfinished, hfrom⟩ := h
  have hnext : t.reads[j]? = some (if i = j then f q else q) := by
    rw [ht, List.getElem?_modify, hq]
    split <;> rfl
  refine ⟨j, _, hnext, ?_⟩
  split
  · next heq =>
    subst heq
    exact hf q hq hunfinished hfrom
  · exact ⟨hunfinished, hfrom⟩

/-! ## The steps -/

/-- A read gives back what it holds. -/
theorem Kept.release (h : s.Kept maxMessageBytes) (hr : s.reads[i]? = some r)
    (hunfinished : r.phase ≠ .finished) : (s.release i r).Kept maxMessageBytes := by
  have hheld : r.held = bytesOf r := (h.metered i r hr).held hunfinished
  have hleft : ∀ peer, (s.release i r).retainedBy peer + retained peer r = s.retainedBy peer := by
    intro peer
    have hsum := retainedBy_modify (t := s.release i r) hr rfl peer
    rw [retained_of_finished (r := { r with held := 0, phase := .finished }) rfl] at hsum
    exact hsum
  have hexact : ∀ peer, (s.release i r).backlogOf peer = (s.release i r).retainedBy peer := by
    intro peer
    have hpeer := hleft peer
    have hbefore := h.budgeted.exact peer
    rw [backlogOf_release]
    split
    · next heq =>
      subst heq
      rw [retained_of_unfinished hunfinished] at hpeer
      omega
    · next hne =>
      rw [retained_of_ne fun heq => hne heq.symm] at hpeer
      omega
  refine ⟨⟨hexact, ?_, h.budgeted.delivered, ?_⟩, ?_⟩
  · intro peer
    have hpeer := hleft peer
    have hbefore := h.budgeted.bounded peer
    omega
  · intro peer hnone
    cases hget : (s.release i r).inboundBacklog.get? peer with
    | none => rfl
    | some n =>
      exfalso
      apply hnone
      obtain ⟨hne, hold⟩ | ⟨heq, hmore⟩ := get?_release hget
      · have hother : s.Unfinished peer := by
          by_contra hgone
          rw [h.budgeted.dropped peer hgone] at hold
          cases hold
        apply hother.modify (t := s.release i r) rfl
        intro q hq _ hfrom
        rw [hr] at hq
        cases hq
        exact absurd hfrom.symm hne
      · -- something is left of this peer's, so some read holds it
        apply unfinished_of_retained
        rw [← hexact, heq, backlogOf_release, if_pos rfl]
        omega
  · intro j q hq
    obtain ⟨x, hx, rfl⟩ := Modify.getElem?_modify_some hq
    have hbefore := h.metered j x hx
    split
    · exact ⟨fun hne => absurd rfl hne, hbefore.total, nofun⟩
    · exact hbefore

/-- A read goes on, with `n` bytes more that are charged to its peer. -/
theorem Kept.goes_on {n : Nat} (h : s.Kept maxMessageBytes) (hr : s.reads[i]? = some r)
    (hbefore : r.phase ≠ .finished) (hafter : (f r).phase ≠ .finished)
    (hfrom : (f r).from_ = r.from_) (hbytes : bytesOf (f r) = bytesOf r + n)
    (hmetered : Metered maxMessageBytes (f r)) (hreads : s'.reads = s.reads.modify i f)
    (hdispatched : s'.dispatched = s.dispatched)
    (hcount : s'.backlogOf r.from_ = s.backlogOf r.from_ + n) (hother : ∀ peer, peer ≠ r.from_ →
      s'.inboundBacklog.get? peer = s.inboundBacklog.get? peer)
    (hfits : s.backlogOf r.from_ + n ≤ maxBacklogBytes maxMessageBytes) :
    s'.Kept maxMessageBytes := by
  have hgrown : s'.retainedBy r.from_ = s.retainedBy r.from_ + n := by
    have hsum := retainedBy_modify hr hreads r.from_
    have hmine : retained r.from_ (f r) = bytesOf (f r) := by
      rw [← hfrom]
      exact retained_of_unfinished hafter
    rw [retained_of_unfinished hbefore, hmine] at hsum
    omega
  have hsame : ∀ peer, peer ≠ r.from_ → s'.retainedBy peer = s.retainedBy peer := by
    intro peer hne
    have hsum := retainedBy_modify hr hreads peer
    rw [retained_of_ne fun heq => hne heq.symm,
      retained_of_ne fun heq => hne (heq.symm.trans hfrom)] at hsum
    exact hsum
  refine ⟨⟨?_, ?_, ?_, ?_⟩, ?_⟩
  · intro peer
    have hexact := h.budgeted.exact peer
    by_cases hpeer : peer = r.from_
    · subst hpeer
      omega
    · have hcounter : s'.backlogOf peer = s.backlogOf peer := by
        unfold backlogOf
        rw [hother peer hpeer]
      have hheld := hsame peer hpeer
      omega
  · intro peer
    have hexact := h.budgeted.exact peer
    by_cases hpeer : peer = r.from_
    · subst hpeer
      omega
    · rw [hsame peer hpeer]
      exact h.budgeted.bounded peer
  · rw [hdispatched]
    exact h.budgeted.delivered
  · intro peer hnone
    -- the read is unfinished on both sides, so the peer is another one
    have hpeer : peer ≠ r.from_ := by
      rintro rfl
      apply hnone
      refine ⟨i, f r, ?_, hafter, hfrom⟩
      rw [hreads, List.getElem?_modify_eq, hr]
      rfl
    rw [hother peer hpeer]
    apply h.budgeted.dropped
    intro hsome
    apply hnone
    apply hsome.modify hreads
    intro q hq _ hq'
    rw [hr] at hq
    cases hq
    exact absurd hq'.symm hpeer
  · intro j q hq
    rw [hreads] at hq
    obtain ⟨x, hx, rfl⟩ := Modify.getElem?_modify_some hq
    split
    · next heq =>
      subst heq
      rw [hr] at hx
      cases hx
      exact hmetered
    · exact h.metered j x hx

theorem ne_finished_of_reading (h : r.phase = .reading) : r.phase ≠ .finished := by
  rw [h]
  exact ReadPhase.noConfusion

/-- A chunk is charged to the peer and pushed, or the read is refused. -/
theorem Kept.chunk {bytes : Bytes} (h : s.Kept maxMessageBytes)
    (hstep : s.chunk maxMessageBytes i bytes = some s') : s'.Kept maxMessageBytes := by
  unfold Receiver.chunk at hstep
  split at hstep
  case h_2 => cases hstep
  case h_1 r hr =>
    split at hstep
    · cases hstep
    · next hphase =>
      have hreading : r.phase = .reading := not_not.mp hphase
      have hmetered := h.metered i r hr
      have hheld := hmetered.held (ne_finished_of_reading hreading)
      dsimp only at hstep
      split at hstep
      · cases hstep
        refine Kept.goes_on (n := 0) h hr (ne_finished_of_reading hreading) ReadPhase.noConfusion
          rfl rfl ⟨fun _ => hheld, hmetered.total, fun hstill => ReadPhase.noConfusion hstill⟩ rfl rfl rfl
          (fun _ _ => rfl) ?_
        rw [h.budgeted.exact]
        exact h.budgeted.bounded r.from_
      · next hfits =>
        cases hstep
        have hpushed : (r.push maxMessageBytes bytes).phase ≠ .finished := by
          unfold Read.push
          dsimp only
          split <;> exact ReadPhase.noConfusion
        refine Kept.goes_on h hr (ne_finished_of_reading hreading) hpushed rfl
          (bytesOf_push maxMessageBytes r bytes) (hmetered.push hreading bytes) rfl rfl ?_ ?_
          (by omega)
        · show (InsertionMap.get? _ _).getD 0 = _
          rw [InsertionMap.get?_set_self]
          rfl
        · intro peer hne
          show InsertionMap.get? _ _ = _
          rw [InsertionMap.get?_set, if_neg hne]

/-- What is delivered is one message's worth. -/
theorem Kept.ended (h : s.Kept maxMessageBytes) (hstep : s.ended i = some s') :
    s'.Kept maxMessageBytes := by
  unfold Receiver.ended at hstep
  split at hstep
  case h_2 => cases hstep
  case h_1 r hr =>
    split at hstep
    · cases hstep
    · next hphase =>
      have hreading : r.phase = .reading := not_not.mp hphase
      have hreleased := h.release hr (ne_finished_of_reading hreading)
      cases hstep
      refine ⟨⟨hreleased.budgeted.exact, hreleased.budgeted.bounded, ?_,
        hreleased.budgeted.dropped⟩, hreleased.metered⟩
      intro m hm
      obtain hm | hm := List.mem_append.mp hm
      · exact h.budgeted.delivered m hm
      · rw [List.mem_singleton.mp hm]
        show r.chunks.flatten.length ≤ maxMessageBytes
        rw [length_flatten]
        exact (h.metered i r hr).within hreading

/-- A stream that is opened holds nothing yet. -/
theorem Kept.opened (h : s.Kept maxMessageBytes) (from_ : JsString) :
    Receiver.Kept maxMessageBytes { s with reads := s.reads ++ [⟨from_, [], 0, 0, .reading⟩] } := by
  have hheld : ∀ peer, Receiver.retainedBy
      { s with reads := s.reads ++ [⟨from_, [], 0, 0, .reading⟩] } peer = s.retainedBy peer := by
    intro peer
    show ((s.reads ++ [_]).map (retained peer)).sum = (s.reads.map (retained peer)).sum
    rw [List.map_append, List.sum_append]
    show _ + ((if _ then bytesOf _ else 0) + 0) = _
    split <;> rfl
  refine ⟨⟨?_, ?_, h.budgeted.delivered, ?_⟩, ?_⟩
  · intro peer
    rw [hheld]
    exact h.budgeted.exact peer
  · intro peer
    rw [hheld]
    exact h.budgeted.bounded peer
  · intro peer hnone
    apply h.budgeted.dropped
    rintro ⟨j, q, hq, hunfinished, hfrom⟩
    have hj : j < s.reads.length := (List.getElem?_eq_some_iff.mp hq).1
    exact hnone ⟨j, q, (List.getElem?_append_left hj).trans hq, hunfinished, hfrom⟩
  · intro j q hq
    obtain hq | ⟨_, rfl⟩ := getElem?_concat_cases hq
    · exact h.metered j q hq
    · exact ⟨fun _ => rfl, rfl, fun _ => Nat.zero_le _⟩

/-! ## `stop` -/

/-- `stop` finds nothing held, or has been called before. -/
def Unburdened (s : Receiver) (e : Event) : Prop :=
  e = .stop → s.stopped = false → ∀ peer, s.retainedBy peer = 0

/-- Clearing the counters keeps them right only where nothing is held. -/
theorem Kept.stop (h : s.Kept maxMessageBytes) (hnothing : ∀ peer, s.retainedBy peer = 0) :
    s.stop.Kept maxMessageBytes := by
  unfold Receiver.stop
  split
  · exact h
  · refine ⟨⟨?_, h.budgeted.bounded, h.budgeted.delivered, fun peer _ => rfl⟩, h.metered⟩
    intro peer
    exact (hnothing peer).symm

theorem nothing_of_budgeted_stop (h : s.stop.Budgeted maxMessageBytes)
    (hfirst : s.stopped = false) (peer : JsString) : s.retainedBy peer = 0 := by
  have hexact := h.exact peer
  unfold Receiver.stop at hexact
  rw [hfirst] at hexact
  exact hexact.symm

/-- Every other event keeps the count. -/
theorem Kept.step {e : Event} (hguard : s.Unburdened e) (h : s.Kept maxMessageBytes)
    (hstep : step maxMessageBytes s e = some s') : s'.Kept maxMessageBytes := by
  cases e with
  | opened from_ =>
    cases hstep
    exact h.opened from_
  | chunk read bytes => exact h.chunk hstep
  | ended read => exact h.ended hstep
  | failed read =>
    have hfailed : s.failed read = some s' := hstep
    unfold Receiver.failed at hfailed
    split at hfailed
    · split at hfailed
      · cases hfailed
      · next hr hphase =>
        cases hfailed
        exact h.release hr (ne_finished_of_reading (not_not.mp hphase))
    · cases hfailed
  | closed read =>
    have hclosed : s.closed read = some s' := hstep
    unfold Receiver.closed at hclosed
    split at hclosed
    · next r hr =>
      have hkept : r.phase ≠ .finished → (s.release read r).Kept maxMessageBytes :=
        h.release hr
      split at hclosed
      · next hphase =>
        cases hclosed
        have hreleased := hkept (by rw [hphase]; exact ReadPhase.noConfusion)
        exact ⟨⟨hreleased.budgeted.exact, hreleased.budgeted.bounded,
          hreleased.budgeted.delivered, hreleased.budgeted.dropped⟩, hreleased.metered⟩
      · next hphase =>
        cases hclosed
        have hreleased := hkept (by rw [hphase]; exact ReadPhase.noConfusion)
        exact ⟨⟨hreleased.budgeted.exact, hreleased.budgeted.bounded,
          hreleased.budgeted.delivered, hreleased.budgeted.dropped⟩, hreleased.metered⟩
      · cases hclosed
    · cases hclosed
  | stop =>
    cases hstep
    by_cases hfirst : s.stopped = false
    · exact h.stop (hguard rfl hfirst)
    · have hagain : s.stopped = true := by simpa using hfirst
      unfold Receiver.stop
      rw [if_pos hagain]
      exact h

theorem kept_start : start.Kept maxMessageBytes := by
  refine ⟨⟨fun _ => rfl, fun _ => Nat.zero_le _, nofun, fun _ _ => rfl⟩, ?_⟩
  intro i r hr
  cases hr

theorem reaches_kept (h : Reaches (step maxMessageBytes) Unburdened start s) :
    s.Kept maxMessageBytes :=
  h.invariant kept_start fun _ _ _ hguard hkept hstep => hkept.step hguard hstep

/-- Four reads of one peer are at the budget of 4 bytes when `stop` comes; a fifth
    then takes a byte more. -/
def crowded : List Event :=
  List.replicate 5 (.opened []) ++
    [.chunk 0 [1], .chunk 1 [1], .chunk 2 [1], .chunk 3 [1], .stop, .chunk 4 [1]]

/-- As long as `stop` finds nothing held the counters are what the unfinished
    reads hold, within the budget; the first `stop` that does find something
    ends that. -/
theorem backlog_is_budgeted (maxMessageBytes : Nat) (s : Receiver)
    (h : Reaches (step maxMessageBytes) Unburdened start s) :
    s.Budgeted maxMessageBytes ∧
      ∀ e s', step maxMessageBytes s e = some s' →
        (s'.Budgeted maxMessageBytes ↔ s.Unburdened e) := by
  have hkept := reaches_kept h
  refine ⟨hkept.budgeted, fun e s' hstep => ⟨?_, fun hguard => (hkept.step hguard hstep).budgeted⟩⟩
  rintro hnext rfl hfirst
  cases hstep
  exact nothing_of_budgeted_stop hnext hfirst

/-- One peer sends a message within the bound, and it is delivered. -/
theorem backlog_is_budgeted_one_message :
    ∃ s : Receiver, Reaches (step 4) Unburdened start s ∧ s.dispatched = [([], [1, 2])] ∧
      s.Budgeted 4 ∧ ∀ e s', step 4 s e = some s' → (s'.Budgeted 4 ↔ s.Unburdened e) := by
  have hrun : ∃ s, run (step 4) start [.opened [], .chunk 0 [1, 2], .ended 0] = some s ∧
      s.dispatched = [([], [1, 2])] := by
    refine ⟨_, rfl, ?_⟩
    decide
  obtain ⟨s, hs, hdelivered⟩ := hrun
  have hreaches : Reaches (step 4) Unburdened start s := by
    apply Reaches.of_run _ hs
    intro s e he hstop
    subst hstop
    simp at he
  exact ⟨s, hreaches, hdelivered, backlog_is_budgeted 4 s hreaches⟩

/-- After a `stop` with reads going on, one peer holds more than its budget. -/
theorem stop_forgets_what_is_held :
    ¬ ∀ (maxMessageBytes : Nat) (s : Receiver),
      Reaches (step maxMessageBytes) anything start s → s.Budgeted maxMessageBytes := by
  intro h
  have hrun : ∃ s, run (step 1) start crowded = some s ∧ s.retainedBy [] = 5 :=
    ⟨_, rfl, by decide⟩
  obtain ⟨s, hs, hheld⟩ := hrun
  have hbudgeted := h 1 s (Reaches.of_run (fun _ _ _ => trivial) hs)
  have hwithin := hbudgeted.bounded []
  rw [hheld] at hwithin
  revert hwithin
  decide

end O2Fabric.Libp2p.Receiver
