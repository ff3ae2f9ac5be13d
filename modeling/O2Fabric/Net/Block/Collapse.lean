/-
  O2Fabric.Net.Block.Collapse

  `FetchingBlockstore.get` over a local tier that takes its time, turn by turn.
  A call reads the local tier, goes on from what it read, and joins the attempt
  under its key or begins one; an attempt fetches, hashes, stores, returns, and is
  then taken off the map.

  A block is fetched once as long as no call goes on from a miss that is out of
  date: one that was read before the block was stored and is looked at after its
  attempt has left the map.
-/

import O2Fabric.Net.Block

namespace O2Fabric.Net.Collapse

open O2Fabric.Steps

/-- Where a call of `get` has come. -/
inductive CallPhase
  /-- The local tier is reading. -/
  | reading
  /-- It has read this, and the call has not gone on. -/
  | read (held : Option Bytes)
  /-- The call awaits the attempt of this number. -/
  | awaiting (attempt : Nat)
  | returned (bytes : Option Bytes)
  deriving DecidableEq

structure Call where
  cid : Cid
  phase : CallPhase

inductive AttemptPhase
  /-- `source.fetch` is under way. -/
  | fetching
  /-- `blockCid` is under way. -/
  | hashing (bytes : Bytes)
  /-- `local.put` is under way, and the block is not in its place. -/
  | storing (bytes : Bytes)
  /-- The block is in its place, and `local.put` is under way. -/
  | stored (bytes : Bytes)
  /-- `#fetchAndVerify` is over. -/
  | finishing (outcome : Option Bytes)
  /-- The attempt is off the map, and settled. -/
  | settled (outcome : Option Bytes)

structure Attempt where
  cid : Cid
  phase : AttemptPhase

/-- The store; the attempts are those ever begun, and the map has their numbers. -/
structure Store {p : Platform} (codec : Codec p) where
  local_ : Blockstore codec
  inFlight : InsertionMap JsString Nat
  fetched : Nat
  rejected : Nat
  attempts : List Attempt
  calls : List Call

inductive Event
  | get (cid : Cid)
  /-- The local tier answers a call's read. -/
  | read (call : Nat)
  | looked (call : Nat)
  | fetched (attempt : Nat) (answer : Option Bytes)
  | hashed (attempt : Nat)
  /-- The local tier has the block. -/
  | stored (attempt : Nat)
  /-- Its `put` is over. -/
  | put (attempt : Nat)
  /-- The callback of `finally`. -/
  | removed (attempt : Nat)
  /-- A call gets what its attempt brought. -/
  | resumed (call : Nat)

namespace Store

variable {p : Platform} {codec : Codec p}

def start (local_ : Blockstore codec) : Store codec := ⟨local_, .empty, 0, 0, [], []⟩

def setCall (s : Store codec) (i : Nat) (c : Call) (phase : CallPhase) : Store codec :=
  { s with calls := s.calls.set i { c with phase := phase } }

def setAttempt (s : Store codec) (i : Nat) (a : Attempt) (phase : AttemptPhase) : Store codec :=
  { s with attempts := s.attempts.set i { a with phase := phase } }

/-- `get`, after the local tier has answered.  The source is asked in the turn
    that begins the attempt. -/
def looked (s : Store codec) (i : Nat) (c : Call) : Option Bytes → Store codec
  | some bytes => s.setCall i c (.returned (some bytes))
  | none =>
    match s.inFlight.get? c.cid.toText with
    | some existing => s.setCall i c (.awaiting existing)
    | none =>
      { s.setCall i c (.awaiting s.attempts.length) with
        attempts := s.attempts ++ [⟨c.cid, .fetching⟩]
        inFlight := s.inFlight.set c.cid.toText s.attempts.length }

/-- One turn; `none` is one that cannot come. -/
def step (s : Store codec) : Event → Option (Store codec)
  | .get cid => some { s with calls := s.calls ++ [⟨cid, .reading⟩] }
  | .read i => do
    let c ← s.calls[i]?
    match c.phase with
    | .reading => some (s.setCall i c (.read (s.local_.get c.cid)))
    | _ => none
  | .looked i => do
    let c ← s.calls[i]?
    match c.phase with
    | .read held => some (s.looked i c held)
    | _ => none
  | .fetched i answer => do
    let a ← s.attempts[i]?
    match a.phase, answer with
    | .fetching, some bytes => some (s.setAttempt i a (.hashing bytes))
    | .fetching, none => some (s.setAttempt i a (.finishing none))
    | _, _ => none
  | .hashed i => do
    let a ← s.attempts[i]?
    match a.phase with
    | .hashing bytes =>
      if codec.blockCid bytes = a.cid then some (s.setAttempt i a (.storing bytes))
      else some { s.setAttempt i a (.finishing none) with rejected := s.rejected + 1 }
    | _ => none
  | .stored i => do
    let a ← s.attempts[i]?
    match a.phase with
    | .storing bytes =>
      some { s.setAttempt i a (.stored bytes) with local_ := s.local_.put bytes }
    | _ => none
  | .put i => do
    let a ← s.attempts[i]?
    match a.phase with
    | .stored bytes =>
      some { s.setAttempt i a (.finishing (some bytes)) with fetched := s.fetched + 1 }
    | _ => none
  | .removed i => do
    let a ← s.attempts[i]?
    match a.phase with
    | .finishing outcome =>
      some { s.setAttempt i a (.settled outcome) with
        inFlight := s.inFlight.delete a.cid.toText }
    | _ => none
  | .resumed i => do
    let c ← s.calls[i]?
    match c.phase with
    | .awaiting attempt => do
      let a ← s.attempts[attempt]?
      match a.phase with
      | .settled outcome => some (s.setCall i c (.returned outcome))
      | _ => none
    | _ => none

/-! ## The collapse -/

/-- How often the source has been asked for this CID. -/
def fetches (s : Store codec) (cid : Cid) : Nat :=
  s.attempts.countP fun a => decide (a.cid = cid)

/-- The source answers for this CID with something other than its block. -/
def dishonest (s : Store codec) (cid : Cid) (block : Bytes) : Event → Bool
  | .fetched i answer =>
    (s.attempts[i]?).any fun a => decide (a.cid = cid) && decide (answer ≠ some block)
  | _ => false

/-- A call goes on from a miss when the block is there and its attempt is gone. -/
def staleMiss (s : Store codec) (cid : Cid) : Event → Bool
  | .looked i =>
    (s.calls[i]?).any fun c => decide (c.cid = cid) && decide (c.phase = .read none)
      && (s.inFlight.get? cid.toText).isNone && (s.local_.get cid).isSome
  | _ => false

/-- Nothing is left to come but other calls. -/
def AtRest (s : Store codec) : Prop := ∀ e s', step s e = some s' → ∃ cid, e = .get cid

/-- One fetch for all the calls, and the block for each. -/
structure Collapsed (cid : Cid) (block : Bytes) (s : Store codec) : Prop where
  once : s.fetches cid ≤ 1
  returned : ∀ c ∈ s.calls, c.cid = cid → ∀ outcome, c.phase = .returned outcome →
    outcome = some block
  ends : s.AtRest → (∃ c ∈ s.calls, c.cid = cid) → s.fetches cid = 1 ∧
    ∀ c ∈ s.calls, c.cid = cid → c.phase = .returned (some block)

/-! ## What holds between two turns -/

end Store

def AttemptPhase.Hashes {p : Platform} (codec : Codec p) (cid : Cid) : AttemptPhase → Prop
  | .storing bytes => codec.blockCid bytes = cid
  | _ => True

/-- The attempt has the block, as far as it has come. -/
def AttemptPhase.Brings (block : Bytes) : AttemptPhase → Prop
  | .fetching => True
  | .hashing bytes | .storing bytes | .stored bytes => bytes = block
  | .finishing outcome | .settled outcome => outcome = some block

/-- What the local tier has when the attempt has come here. -/
def AttemptPhase.held (block : Bytes) : AttemptPhase → Option Bytes
  | .stored _ | .finishing _ | .settled _ => some block
  | _ => none

/-- What the map has for the attempt of this number. -/
def AttemptPhase.running (i : Nat) : AttemptPhase → Option Nat
  | .settled _ => none
  | _ => some i

/-- An attempt that has left the map has left the block behind. -/
theorem AttemptPhase.held_of_running {block : Bytes} {i : Nat} {phase : AttemptPhase}
    (h : phase.running i = none) : phase.held block = some block := by
  cases phase with
  | settled _ => rfl
  | fetching => cases h
  | hashing _ => cases h
  | storing _ => cases h
  | stored _ => cases h
  | finishing _ => cases h

def CallPhase.Follows (block : Bytes) (attempt : Option Nat) : CallPhase → Prop
  | .reading | .read none => True
  | .read (some bytes) => bytes = block ∧ attempt.isSome
  | .awaiting i => attempt = some i
  | .returned outcome => outcome = some block ∧ attempt.isSome

namespace Store

variable {p : Platform} {codec : Codec p} {cid : Cid} {block : Bytes} {s s' : Store codec}

/-- The CID has no attempt, or this one. -/
inductive Stage (cid : Cid) (block : Bytes) (s : Store codec) : Option Nat → Prop
  | fresh (hnone : ∀ a ∈ s.attempts, a.cid ≠ cid) (hlocal : s.local_.get cid = none)
      (hmap : s.inFlight.get? cid.toText = none) : Stage cid block s none
  | attempted {i : Nat} {a : Attempt} (ha : s.attempts[i]? = some a) (hcid : a.cid = cid)
      (honly : ∀ j b, s.attempts[j]? = some b → b.cid = cid → j = i)
      (hbrings : a.phase.Brings block) (hlocal : s.local_.get cid = a.phase.held block)
      (hmap : s.inFlight.get? cid.toText = a.phase.running i) : Stage cid block s (some i)

structure Kept (cid : Cid) (block : Bytes) (s : Store codec) : Prop where
  hashes : ∀ a ∈ s.attempts, a.phase.Hashes codec a.cid
  stage : ∃ attempt, Stage cid block s attempt ∧
    ∀ c ∈ s.calls, c.cid = cid → c.phase.Follows block attempt

theorem kept_start {local_ : Blockstore codec} (hlocal : local_.get cid = none) :
    Kept cid block (start local_) := by
  refine ⟨List.forall_mem_nil _, none, ?_, List.forall_mem_nil _⟩
  exact .fresh (List.forall_mem_nil _) hlocal rfl

variable {i : Nat} {c : Call}

/-- A call goes on, and the rest is as it was. -/
theorem Kept.setCall (h : Kept cid block s) {phase : CallPhase} (hc : s.calls[i]? = some c)
    (hphase : c.cid = cid → ∀ attempt, Stage cid block s attempt →
      c.phase.Follows block attempt → phase.Follows block attempt) :
    Kept cid block (s.setCall i c phase) := by
  obtain ⟨attempt, hstage, hcalls⟩ := h.stage
  refine ⟨h.hashes, attempt, ?_, ?_⟩
  · cases hstage with
    | fresh hnone hlocal hmap => exact .fresh hnone hlocal hmap
    | attempted ha hcid honly hbrings hlocal hmap =>
      exact .attempted ha hcid honly hbrings hlocal hmap
  · intro d hd hdcid
    obtain hold | rfl := List.mem_or_eq_of_mem_set hd
    · exact hcalls d hold hdcid
    · exact hphase hdcid attempt hstage (hcalls c (List.mem_of_getElem? hc) hdcid)

/-- An attempt goes on.  One for another CID leaves this one's place and key
    alone; this one's has them as its phase says. -/
theorem Kept.setAttempt (h : Kept cid block s) {a : Attempt} (ha : s.attempts[i]? = some a)
    (phase : AttemptPhase) (hhashes : phase.Hashes codec a.cid)
    (hattempts : s'.attempts = s.attempts.set i { a with phase := phase })
    (hcalls : s'.calls = s.calls) (hother : a.cid ≠ cid → s'.local_.get cid = s.local_.get cid ∧
      s'.inFlight.get? cid.toText = s.inFlight.get? cid.toText)
    (hown : a.cid = cid → a.phase.Brings block → s.local_.get cid = a.phase.held block →
      s.inFlight.get? cid.toText = a.phase.running i →
        phase.Brings block ∧ s'.local_.get cid = phase.held block ∧
          s'.inFlight.get? cid.toText = phase.running i) : Kept cid block s' := by
  have hlt : i < s.attempts.length := (List.getElem?_eq_some_iff.mp ha).1
  obtain ⟨attempt, hstage, hfollow⟩ := h.stage
  refine ⟨?_, attempt, ?_, hcalls ▸ hfollow⟩
  · intro b hb
    rw [hattempts] at hb
    obtain hold | rfl := List.mem_or_eq_of_mem_set hb
    · exact h.hashes b hold
    · exact hhashes
  · cases hstage with
    | fresh hnone hlocal hmap =>
      have hne := hnone a (List.mem_of_getElem? ha)
      refine .fresh ?_ ((hother hne).1.trans hlocal) ((hother hne).2.trans hmap)
      intro b hb
      rw [hattempts] at hb
      obtain hold | rfl := List.mem_or_eq_of_mem_set hb
      · exact hnone b hold
      · exact hne
    | @attempted k d hd hcid honly hbrings hlocal hmap =>
      -- the numbers of the attempts and their CIDs are as they were
      have honly' : ∀ j b, s'.attempts[j]? = some b → b.cid = cid → j = k := by
        intro j b hj hb
        rw [hattempts] at hj
        by_cases hij : i = j
        · subst hij
          rw [List.getElem?_set_self hlt] at hj
          cases hj
          exact honly i a ha hb
        · rw [List.getElem?_set_ne hij] at hj
          exact honly j b hj hb
      by_cases hik : i = k
      · subst hik
        rw [ha] at hd
        cases hd
        obtain ⟨hbrings', hlocal', hmap'⟩ := hown hcid hbrings hlocal hmap
        have ha' : s'.attempts[i]? = some { a with phase := phase } := by
          rw [hattempts]
          exact List.getElem?_set_self hlt
        exact .attempted ha' hcid honly' hbrings' hlocal' hmap'
      · have hne : a.cid ≠ cid := fun hsame => hik (honly i a ha hsame)
        have hd' : s'.attempts[k]? = some d := by
          rw [hattempts, List.getElem?_set_ne hik]
          exact hd
        exact .attempted hd' hcid honly' hbrings ((hother hne).1.trans hlocal)
          ((hother hne).2.trans hmap)

/-- A call begins an attempt: the first for its CID, unless it goes on from a miss
    that is out of date. -/
theorem Kept.begins (h : Kept cid block s) (hnew : s.inFlight.get? c.cid.toText = none)
    (htimely : c.cid = cid → s.local_.get cid = none) :
    Kept cid block { s.setCall i c (.awaiting s.attempts.length) with
      attempts := s.attempts ++ [⟨c.cid, .fetching⟩]
      inFlight := s.inFlight.set c.cid.toText s.attempts.length } := by
  obtain ⟨attempt, hstage, hcalls⟩ := h.stage
  have hhashes : ∀ a ∈ s.attempts ++ [⟨c.cid, .fetching⟩], a.phase.Hashes codec a.cid := by
    intro a ha
    obtain hold | hlast := List.mem_append.mp ha
    · exact h.hashes a hold
    · cases List.mem_singleton.mp hlast
      trivial
  by_cases hcid : c.cid = cid
  · -- there was no attempt before
    have hlocal := htimely hcid
    rw [hcid] at hnew
    cases hstage with
    | attempted _ _ _ _ hheld hmap =>
      rw [hnew] at hmap
      rw [AttemptPhase.held_of_running hmap.symm] at hheld
      rw [hheld] at hlocal
      cases hlocal
    | fresh hnone _ _ =>
      refine ⟨hhashes, some s.attempts.length, ?_, ?_⟩
      · refine .attempted (a := ⟨c.cid, .fetching⟩) List.getElem?_concat_length hcid ?_ trivial
          hlocal ?_
        · intro j b hj hb
          obtain hold | ⟨hlast, -⟩ := getElem?_concat_cases hj
          · exact absurd hb (hnone b (List.mem_of_getElem? hold))
          · exact hlast
        · show (s.inFlight.set c.cid.toText _).get? cid.toText = _
          rw [hcid]
          exact InsertionMap.get?_set_self _ _ _
      · intro d hd hdcid
        obtain hold | rfl := List.mem_or_eq_of_mem_set hd
        · -- a call that follows no attempt follows any
          have hfollows := hcalls d hold hdcid
          match hphase : d.phase, hfollows with
          | .reading, _ => trivial
          | .read none, _ => trivial
        · rfl
  · have hkey : cid.toText ≠ c.cid.toText := fun hsame => hcid (Cid.toText_injective hsame).symm
    have hmap : (s.inFlight.set c.cid.toText s.attempts.length).get? cid.toText
        = s.inFlight.get? cid.toText := by
      rw [InsertionMap.get?_set, if_neg hkey]
    refine ⟨hhashes, attempt, ?_, ?_⟩
    · cases hstage with
      | fresh hnone hlocal hfree =>
        refine .fresh ?_ hlocal (hmap.trans hfree)
        intro a ha
        obtain hold | hlast := List.mem_append.mp ha
        · exact hnone a hold
        · cases List.mem_singleton.mp hlast
          exact hcid
      | @attempted k a ha hacid honly hbrings hlocal hrunning =>
        have hlt : k < s.attempts.length := (List.getElem?_eq_some_iff.mp ha).1
        refine .attempted ?_ hacid ?_ hbrings hlocal (hmap.trans hrunning)
        · exact (List.getElem?_append_left hlt).trans ha
        · intro j b hj hb
          obtain hold | ⟨-, rfl⟩ := getElem?_concat_cases hj
          · exact honly j b hold hb
          · exact absurd hb hcid
    · intro d hd hdcid
      obtain hold | rfl := List.mem_or_eq_of_mem_set hd
      · exact hcalls d hold hdcid
      · exact absurd hdcid hcid

/-! ## One turn -/

theorem get_put (store : Blockstore codec) (bytes : Bytes) (cid : Cid) :
    (store.put bytes).get cid = if codec.blockCid bytes = cid then some bytes else store.get cid := by
  show (store.blocks.set _ bytes).get? cid.toText = _
  rw [InsertionMap.get?_set]
  by_cases hsame : codec.blockCid bytes = cid
  · rw [if_pos hsame, if_pos (congrArg Cid.toText hsame.symm)]
  · rw [if_neg hsame, if_neg fun h => hsame (Cid.toText_injective h).symm]
    rfl

variable {attempt : Option Nat}

/-- A read answers with the block or, before it is there, with nothing. -/
theorem Stage.read (h : Stage cid block s attempt) :
    CallPhase.Follows block attempt (.read (s.local_.get cid)) := by
  cases h with
  | fresh _ hlocal _ =>
    rw [hlocal]
    trivial
  | attempted _ _ _ _ hlocal _ =>
    rw [hlocal]
    unfold AttemptPhase.held
    split
    · exact ⟨rfl, rfl⟩
    · exact ⟨rfl, rfl⟩
    · exact ⟨rfl, rfl⟩
    · trivial

/-- The map has no other attempt for the CID. -/
theorem Stage.existing (h : Stage cid block s attempt) (hmap : s.inFlight.get? cid.toText = some i) :
    attempt = some i := by
  cases h with
  | fresh _ _ hnone =>
    rw [hnone] at hmap
    cases hmap
  | attempted _ _ _ _ _ hrunning =>
    rw [hrunning] at hmap
    unfold AttemptPhase.running at hmap
    split at hmap
    · cases hmap
    · exact hmap

theorem Kept.looked (h : Kept cid block s) {held : Option Bytes} (hc : s.calls[i]? = some c)
    (hphase : c.phase = .read held) (htimely : s.staleMiss cid (.looked i) = false) :
    Kept cid block (s.looked i c held) := by
  cases held with
  | some bytes =>
    apply h.setCall hc
    intro _ attempt _ hfollows
    rw [hphase] at hfollows
    exact ⟨congrArg some hfollows.1, hfollows.2⟩
  | none =>
    unfold Store.looked
    dsimp only
    split
    · next existing hexisting =>
      apply h.setCall hc
      intro hcid attempt hstage _
      exact hstage.existing (hcid ▸ hexisting)
    · next hnew =>
      apply h.begins hnew
      intro hcid
      simpa [staleMiss, hc, hcid, hphase, hcid ▸ hnew] using htimely

theorem Kept.step (h : Kept cid block s) (hblock : codec.blockCid block = cid) {e : Event}
    (hhonest : s.dishonest cid block e = false) (htimely : s.staleMiss cid e = false)
    (hstep : s.step e = some s') : Kept cid block s' := by
  cases e with
  | get cid' =>
    cases hstep
    obtain ⟨attempt, hstage, hcalls⟩ := h.stage
    refine ⟨h.hashes, attempt, ?_, ?_⟩
    · cases hstage with
      | fresh hnone hlocal hmap => exact .fresh hnone hlocal hmap
      | attempted ha hcid honly hbrings hlocal hmap =>
        exact .attempted ha hcid honly hbrings hlocal hmap
    · intro c hc hcid
      obtain hold | hnew := List.mem_append.mp hc
      · exact hcalls c hold hcid
      · cases List.mem_singleton.mp hnew
        trivial
  | read i =>
    obtain ⟨c, hc, hstep⟩ := Option.bind_eq_some_iff.mp hstep
    split at hstep
    · cases hstep
      apply h.setCall hc
      intro hcid attempt hstage _
      exact hcid ▸ hstage.read
    · cases hstep
  | looked i =>
    obtain ⟨c, hc, hstep⟩ := Option.bind_eq_some_iff.mp hstep
    split at hstep
    · next held hphase =>
      cases hstep
      exact h.looked hc hphase htimely
    · cases hstep
  | fetched i answer =>
    obtain ⟨a, ha, hstep⟩ := Option.bind_eq_some_iff.mp hstep
    have hanswer : a.cid = cid → answer = some block := by
      intro hcid
      simpa [dishonest, ha, hcid] using hhonest
    split at hstep
    · next hphase _ =>
      cases hstep
      refine h.setAttempt ha (.hashing _) trivial rfl rfl (fun _ => ⟨rfl, rfl⟩) ?_
      intro hcid _ hlocal hmap
      rw [hphase] at hlocal hmap
      exact ⟨Option.some.inj (hanswer hcid), hlocal, hmap⟩
    · cases hstep
      refine h.setAttempt ha (.finishing none) trivial rfl rfl (fun _ => ⟨rfl, rfl⟩) ?_
      intro hcid
      cases hanswer hcid
    · cases hstep
  | hashed i =>
    obtain ⟨a, ha, hstep⟩ := Option.bind_eq_some_iff.mp hstep
    split at hstep
    · next bytes hphase =>
      split at hstep
      · next hhash =>
        cases hstep
        refine h.setAttempt ha (.storing bytes) hhash rfl rfl (fun _ => ⟨rfl, rfl⟩) ?_
        intro _ hbrings hlocal hmap
        rw [hphase] at hbrings hlocal hmap
        exact ⟨hbrings, hlocal, hmap⟩
      · next hhash =>
        -- the block hashes to the CID
        cases hstep
        refine h.setAttempt ha (.finishing none) trivial rfl rfl (fun _ => ⟨rfl, rfl⟩) ?_
        intro hcid hbrings
        rw [hphase] at hbrings
        exact absurd (hbrings ▸ hblock.trans hcid.symm) hhash
    · cases hstep
  | stored i =>
    obtain ⟨a, ha, hstep⟩ := Option.bind_eq_some_iff.mp hstep
    split at hstep
    · next bytes hphase =>
      cases hstep
      have hhash := h.hashes a (List.mem_of_getElem? ha)
      rw [hphase] at hhash
      refine h.setAttempt ha (.stored bytes) trivial rfl rfl ?_ ?_
      · intro hne
        refine ⟨?_, rfl⟩
        show (s.local_.put bytes).get cid = _
        rw [get_put, if_neg fun hsame => hne (hhash.symm.trans hsame)]
      · intro hcid hbrings _ hmap
        rw [hphase] at hbrings hmap
        refine ⟨hbrings, ?_, hmap⟩
        show (s.local_.put bytes).get cid = _
        rw [get_put, if_pos (hhash.trans hcid)]
        exact congrArg some hbrings
    · cases hstep
  | put i =>
    obtain ⟨a, ha, hstep⟩ := Option.bind_eq_some_iff.mp hstep
    split at hstep
    · next bytes hphase =>
      cases hstep
      refine h.setAttempt ha (.finishing (some bytes)) trivial rfl rfl (fun _ => ⟨rfl, rfl⟩) ?_
      intro _ hbrings hlocal hmap
      rw [hphase] at hbrings hlocal hmap
      exact ⟨congrArg some hbrings, hlocal, hmap⟩
    · cases hstep
  | removed i =>
    obtain ⟨a, ha, hstep⟩ := Option.bind_eq_some_iff.mp hstep
    split at hstep
    · next outcome hphase =>
      cases hstep
      refine h.setAttempt ha (.settled outcome) trivial rfl rfl ?_ ?_
      · intro hne
        refine ⟨rfl, ?_⟩
        show (s.inFlight.delete a.cid.toText).get? cid.toText = _
        rw [InsertionMap.get?_delete,
          if_neg fun hsame => hne (Cid.toText_injective hsame).symm]
      · intro hcid hbrings hlocal _
        rw [hphase] at hbrings hlocal
        refine ⟨hbrings, hlocal, ?_⟩
        show (s.inFlight.delete a.cid.toText).get? cid.toText = _
        rw [InsertionMap.get?_delete, if_pos (congrArg Cid.toText hcid.symm)]
        rfl
    · cases hstep
  | resumed i =>
    obtain ⟨c, hc, hstep⟩ := Option.bind_eq_some_iff.mp hstep
    split at hstep
    · next attempt hphase =>
      obtain ⟨a, ha, hstep⟩ := Option.bind_eq_some_iff.mp hstep
      split at hstep
      · next outcome hsettled =>
        cases hstep
        apply h.setCall hc
        intro _ followed hstage hfollows
        rw [hphase] at hfollows
        cases hfollows
        cases hstage with
        | attempted ha' _ _ hbrings _ _ =>
          rw [ha] at ha'
          cases ha'
          rw [hsettled] at hbrings
          exact ⟨hbrings, rfl⟩
      · cases hstep
    · cases hstep

/-! ## A whole run -/

/-- One place of a list is the only one. -/
theorem countP_eq_one {α : Type} {q : α → Bool} {l : List α} {a : α} (ha : l[i]? = some a)
    (hq : q a = true) (honly : ∀ j b, l[j]? = some b → q b = true → j = i) : l.countP q = 1 := by
  induction l generalizing i with
  | nil => simp at ha
  | cons x l ih =>
    cases i with
    | zero =>
      rw [List.getElem?_cons_zero] at ha
      cases ha
      have hnone : l.countP q = 0 := by
        apply List.countP_eq_zero.mpr
        intro b hb hqb
        obtain ⟨j, hj⟩ := List.getElem?_of_mem hb
        exact Nat.succ_ne_zero j (honly (j + 1) b hj hqb)
      rw [List.countP_cons_of_pos hq, hnone]
    | succ i =>
      have hnot : ¬ q x = true := fun hqx => Nat.succ_ne_zero i (honly 0 x rfl hqx).symm
      rw [List.countP_cons_of_neg hnot]
      exact ih ha fun j b hj hqb => Nat.succ.inj (honly (j + 1) b hj hqb)

/-- The source is asked once for a CID that has an attempt, and not for another. -/
theorem Stage.fetches (h : Stage cid block s attempt) :
    s.fetches cid = if attempt.isSome then 1 else 0 := by
  unfold Store.fetches
  cases h with
  | fresh hnone _ _ =>
    apply List.countP_eq_zero.mpr
    intro a ha
    simpa using hnone a ha
  | @attempted i a ha hcid honly _ _ _ =>
    apply countP_eq_one ha (decide_eq_true hcid)
    exact fun j b hj hb => honly j b hj (of_decide_eq_true hb)

/-- A call that awaits an attempt is not the end: the attempt goes on, or the call
    does. -/
theorem step_of_awaiting {k : Nat} {a : Attempt} (hc : s.calls[i]? = some c)
    (hphase : c.phase = .awaiting k) (ha : s.attempts[k]? = some a) :
    ∃ e s', s.step e = some s' ∧ ∀ cid, e ≠ .get cid := by
  cases hattempt : a.phase with
  | fetching => exact ⟨.fetched k none, _, by simp [Store.step, ha, hattempt]; rfl, nofun⟩
  | hashing bytes =>
    by_cases hhash : codec.blockCid bytes = a.cid
    · exact ⟨.hashed k, _, by simp [Store.step, ha, hattempt, hhash]; rfl, nofun⟩
    · exact ⟨.hashed k, _, by simp [Store.step, ha, hattempt, hhash]; rfl, nofun⟩
  | storing bytes => exact ⟨.stored k, _, by simp [Store.step, ha, hattempt]; rfl, nofun⟩
  | stored bytes => exact ⟨.put k, _, by simp [Store.step, ha, hattempt]; rfl, nofun⟩
  | finishing outcome => exact ⟨.removed k, _, by simp [Store.step, ha, hattempt]; rfl, nofun⟩
  | settled outcome =>
    exact ⟨.resumed i, _, by simp [Store.step, hc, hphase, ha, hattempt]; rfl, nofun⟩

theorem Kept.collapsed (h : Kept cid block s) : Collapsed cid block s := by
  obtain ⟨attempt, hstage, hcalls⟩ := h.stage
  have hcount := hstage.fetches
  refine ⟨?_, ?_, ?_⟩
  · rw [hcount]
    split <;> omega
  · intro c hc hcid outcome hphase
    have hfollows := hcalls c hc hcid
    rw [hphase] at hfollows
    exact hfollows.1
  · intro hrest hsome
    have hreturned : ∀ c ∈ s.calls, c.cid = cid →
        c.phase = .returned (some block) ∧ attempt.isSome := by
      intro c hc hcid
      have hfollows := hcalls c hc hcid
      obtain ⟨i, hi⟩ := List.getElem?_of_mem hc
      have hover : ¬ ∃ e s', s.step e = some s' ∧ ∀ cid, e ≠ .get cid := by
        rintro ⟨e, s', hstep, hnot⟩
        obtain ⟨cid', rfl⟩ := hrest e s' hstep
        exact hnot cid' rfl
      cases hphase : c.phase with
      | returned outcome =>
        rw [hphase] at hfollows
        exact ⟨congrArg _ hfollows.1, hfollows.2⟩
      | reading =>
        exact absurd ⟨.read i, _, by simp [Store.step, hi, hphase]; rfl, nofun⟩ hover
      | read held =>
        exact absurd ⟨.looked i, _, by simp [Store.step, hi, hphase]; rfl, nofun⟩ hover
      | awaiting k =>
        rw [hphase] at hfollows
        cases hfollows
        cases hstage with
        | attempted ha _ _ _ _ _ => exact absurd (step_of_awaiting hi hphase ha) hover
    obtain ⟨c, hc, hcid⟩ := hsome
    refine ⟨?_, fun c hc hcid => (hreturned c hc hcid).1⟩
    rw [hcount, if_pos (hreturned c hc hcid).2]

/-- A call that goes on from a miss that is out of date has the source asked again. -/
theorem Kept.fetches_again (h : Kept cid block s) {e : Event} (hstale : s.staleMiss cid e = true)
    (hstep : s.step e = some s') : s'.fetches cid = 2 := by
  cases e with
  | looked i =>
    obtain ⟨c, hc, hstep⟩ := Option.bind_eq_some_iff.mp hstep
    simp only [staleMiss, hc, Option.any_some, Bool.and_eq_true, decide_eq_true_eq,
      Option.isNone_iff_eq_none] at hstale
    obtain ⟨⟨⟨hcid, hphase⟩, hmap⟩, hheld⟩ := hstale
    rw [hphase] at hstep
    cases hstep
    obtain ⟨attempt, hstage, -⟩ := h.stage
    have hone : s.fetches cid = 1 := by
      rw [hstage.fetches]
      cases hstage with
      | fresh _ hlocal _ => rw [hlocal] at hheld; cases hheld
      | attempted => rfl
    unfold Store.fetches at hone ⊢
    unfold Store.looked
    rw [hcid, hmap]
    dsimp only
    rw [List.countP_append, hone]
    simp
  | _ => cases hstale

/-- Where the source is honest and no call goes on from a miss that is out of
    date, there is one fetch for all the calls of a CID and the block for each; and
    the turn in which one does is the turn of a second fetch. -/
theorem gets_collapse {local_ : Blockstore codec} (hblock : codec.blockCid block = cid)
    (hlocal : local_.get cid = none)
    (h : Reaches step (fun s e => s.dishonest cid block e = false ∧ s.staleMiss cid e = false)
      (start local_) s) :
    Collapsed cid block s ∧
    ∀ e s', s.dishonest cid block e = false → s.step e = some s' →
      (s'.fetches cid ≤ 1 ↔ s.staleMiss cid e = false) := by
  have hkept : Kept cid block s := by
    apply h.invariant (kept_start hlocal)
    intro s e s' hguard hs hstep
    exact hs.step hblock hguard.1 hguard.2 hstep
  refine ⟨hkept.collapsed, fun e s' hhonest hstep => ?_⟩
  cases hstale : s.staleMiss cid e with
  | false =>
    have honce := (hkept.step hblock hhonest hstale hstep).collapsed.once
    exact ⟨fun _ => rfl, fun _ => honce⟩
  | true =>
    have hagain := hkept.fetches_again hstale hstep
    constructor
    · intro honce
      omega
    · intro hfalse
      cases hfalse

/-! ## Two calls -/

open FetchingBlockstore (markedCid markedCodec)

/-- Two calls, the second of which joins the attempt of the first. -/
def joining : List Event :=
  [.get markedCid, .get markedCid, .read 0, .looked 0, .read 1, .looked 1, .fetched 0 (some [1]),
    .hashed 0, .stored 0, .put 0, .removed 0, .resumed 0, .resumed 1]

theorem gets_collapse_joining : ∃ s, run step (start (.empty : Blockstore markedCodec)) joining
    = some s ∧ s.fetches markedCid = 1 ∧ Collapsed markedCid [1] s := by
  have hrun : ∃ s, runWhere step
      (fun s e => s.dishonest markedCid [1] e = false ∧ s.staleMiss markedCid e = false)
      (start (.empty : Blockstore markedCodec)) joining = some s ∧
      run step (start (.empty : Blockstore markedCodec)) joining = some s ∧
      s.fetches markedCid = 1 := ⟨_, rfl, rfl, rfl⟩
  obtain ⟨s, hguarded, hs, hone⟩ := hrun
  have hblock : markedCodec.blockCid [1] = markedCid := rfl
  exact ⟨s, hs, hone, (gets_collapse hblock rfl (Reaches.of_runWhere hguarded)).1⟩

/-- Two calls, the second of which reads before the block is stored and goes on
    after the attempt of the first is gone. -/
def missing : List Event :=
  [.get markedCid, .get markedCid, .read 0, .read 1, .looked 0, .fetched 0 (some [1]), .hashed 0,
    .stored 0, .put 0, .removed 0, .looked 1]

/-- The block is fetched twice. -/
theorem stale_miss_fetches_again :
    ¬ ∀ s, Reaches step (fun s e => s.dishonest markedCid [1] e = false)
      (start (.empty : Blockstore markedCodec)) s → s.fetches markedCid ≤ 1 := by
  intro h
  have hrun : ∃ s, runWhere step (fun s e => s.dishonest markedCid [1] e = false)
      (start (.empty : Blockstore markedCodec)) missing = some s ∧ s.fetches markedCid = 2 :=
    ⟨_, rfl, rfl⟩
  obtain ⟨s, hs, htwo⟩ := hrun
  have honce := h s (Reaches.of_runWhere hs)
  omega

end Store

end O2Fabric.Net.Collapse
