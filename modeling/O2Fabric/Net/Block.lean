/-
  O2Fabric.Net.Block

  `FetchingBlockstore` over an `RpcBlockSource`: a block that the local tier
  does not have is asked of the peers, one after another.

  The first peer that answers with bytes ends the walk, and the hash is checked
  after it.  So what the walk brings is kept only if it is the block, and the
  walk brings the block only if no peer before an honest one sends other bytes.

  One event is what runs between two turns of the event loop.  What the peers
  reply is part of the event in which the walk over them ends: nothing else the
  store does depends on how far a walk has come.
-/

import O2Fabric.Lib.Steps
import O2Fabric.Net.Protocol.RoundTrip
import O2Fabric.Net.ReduceJob.Gathering

namespace O2Fabric.Net

open O2Fabric.Steps O2Fabric.Net.Protocol

/-- What comes of one request to one peer. -/
inductive PeerReply
  | unreachable
  | replied (body : CanonicalValue)

/-- What the reply is read as; `null` for a peer that cannot be reached. -/
def PeerReply.response : PeerReply → Option Protocol.AgentResponse
  | .unreachable => none
  | .replied body => parseResponse body

/-- The bytes the peer replies with; any other reply is a miss. -/
def PeerReply.bytes (reply : PeerReply) : Option Bytes :=
  match reply.response with
  | some (.block bytes) => bytes
  | _ => none

/-- `RpcBlockSource.fetch`, from what each peer of the list replies. -/
def RpcBlockSource.fetch (replies : List PeerReply) : Option Bytes :=
  replies.findSome? PeerReply.bytes

/-! ## The store -/

inductive GetPhase
  /-- The local tier has been read. -/
  | looking (held : Option Bytes)
  /-- The attempt under the call's key is awaited. -/
  | waiting
  | resolved (bytes : Option Bytes)
  | rejected

/-- One call of `get`. -/
structure GetCall where
  cid : Cid
  phase : GetPhase

structure FetchingBlockstore {p : Platform} (codec : Codec p) where
  local_ : Blockstore codec
  /-- The CIDs that are being fetched, by their text. -/
  inFlight : InsertionMap JsString Cid
  fetched : Nat
  rejected : Nat
  calls : List GetCall

namespace FetchingBlockstore

variable {p : Platform} {codec : Codec p}

def start (local_ : Blockstore codec) : FetchingBlockstore codec := ⟨local_, .empty, 0, 0, []⟩

/-- A call that awaits the attempt under this key gets what came of it. -/
def GetCall.settle (key : JsString) (outcome : GetPhase) (call : GetCall) : GetCall :=
  match call.phase with
  | .waiting => if call.cid.toText = key then { call with phase := outcome } else call
  | _ => call

def settle (s : FetchingBlockstore codec) (key : JsString) (outcome : GetPhase) :
    FetchingBlockstore codec :=
  { s with
    inFlight := s.inFlight.delete key
    calls := s.calls.map (GetCall.settle key outcome) }

/-- `get`, after the local tier has answered. -/
def looked (s : FetchingBlockstore codec) (call : Nat) : Option (FetchingBlockstore codec) :=
  match s.calls[call]? with
  | some c =>
    match c.phase with
    | .looking (some bytes) =>
      some { s with calls := s.calls.set call { c with phase := .resolved (some bytes) } }
    | .looking none =>
      let s := { s with calls := s.calls.set call { c with phase := .waiting } }
      if s.inFlight.has c.cid.toText then some s
      else some { s with inFlight := s.inFlight.set c.cid.toText c.cid }
    | _ => none
  | none => none

/-- `#fetchAndVerify`; `takes` is whether the local tier takes the write. -/
def fetchAndVerify (s : FetchingBlockstore codec) (key : JsString) (replies : List PeerReply)
    (takes : Bool) : Option (FetchingBlockstore codec) :=
  match s.inFlight.get? key with
  | some cid =>
    match RpcBlockSource.fetch replies with
    | none => some (s.settle key (.resolved none))
    | some bytes =>
      if codec.blockCid bytes ≠ cid then
        some { s.settle key (.resolved none) with rejected := s.rejected + 1 }
      else if takes = true then
        some { s.settle key (.resolved (some bytes)) with
          local_ := s.local_.put bytes
          fetched := s.fetched + 1 }
      else some (s.settle key .rejected)
  | none => none

inductive Event
  | put (bytes : Bytes)
  | get (cid : Cid)
  | looked (call : Nat)
  /-- The walk over the peers ends, for the attempt under this key. -/
  | walked (key : JsString) (replies : List PeerReply) (takes : Bool)

/-- One event; `none` is one that cannot happen. -/
def step (s : FetchingBlockstore codec) : Event → Option (FetchingBlockstore codec)
  | .put bytes => some { s with local_ := s.local_.put bytes }
  | .get cid => some { s with calls := s.calls ++ [⟨cid, .looking (s.local_.get cid)⟩] }
  | .looked call => s.looked call
  | .walked key replies takes => s.fetchAndVerify key replies takes

/-! ## The walk -/

/-- This peer replies with the block. -/
def Serves (codec : Codec p) (cid : Cid) (reply : PeerReply) : Prop :=
  ∃ bytes, reply.bytes = some bytes ∧ codec.blockCid bytes = cid

/-- The first peer of the list that replies with bytes replies with the block. -/
def FirstServes (codec : Codec p) (cid : Cid) (replies : List PeerReply) : Prop :=
  ∃ before reply after, replies = before ++ reply :: after ∧
    (∀ earlier ∈ before, earlier.bytes = none) ∧ Serves codec cid reply

variable {replies : List PeerReply}

theorem fetch_eq_some {bytes : Bytes} :
    RpcBlockSource.fetch replies = some bytes ↔
      ∃ before reply after, replies = before ++ reply :: after ∧
        (∀ earlier ∈ before, earlier.bytes = none) ∧
        reply.bytes = some bytes := by
  unfold RpcBlockSource.fetch
  rw [List.findSome?_eq_some_iff]
  constructor
  · rintro ⟨before, reply, after, hreplies, hbytes, hnone⟩
    exact ⟨before, reply, after, hreplies, hnone, hbytes⟩
  · rintro ⟨before, reply, after, hreplies, hnone, hbytes⟩
    exact ⟨before, reply, after, hreplies, hbytes, hnone⟩

theorem firstServes_iff {cid : Cid} :
    FirstServes codec cid replies ↔
      ∃ bytes, RpcBlockSource.fetch replies = some bytes ∧ codec.blockCid bytes = cid := by
  constructor
  · rintro ⟨before, reply, after, hreplies, hnone, bytes, hbytes, hhash⟩
    exact ⟨bytes, fetch_eq_some.mpr ⟨before, reply, after, hreplies, hnone, hbytes⟩, hhash⟩
  · rintro ⟨bytes, hfetch, hhash⟩
    obtain ⟨before, reply, after, hreplies, hnone, hbytes⟩ := fetch_eq_some.mp hfetch
    exact ⟨before, reply, after, hreplies, hnone, bytes, hbytes, hhash⟩

/-! ## What is returned and stored -/

/-- Nothing but the block asked for is returned, or stored under its address. -/
structure Verified (s : FetchingBlockstore codec) : Prop where
  returned : ∀ call bytes, call ∈ s.calls → call.phase = .resolved (some bytes) →
    codec.blockCid bytes = call.cid
  stored : ∀ cid bytes, s.local_.get cid = some bytes → codec.blockCid bytes = cid

/-- What holds between two events. -/
structure Kept (s : FetchingBlockstore codec) : Prop where
  verified : s.Verified
  looking : ∀ call bytes, call ∈ s.calls → call.phase = .looking (some bytes) →
    codec.blockCid bytes = call.cid
  waiting : ∀ call, call ∈ s.calls → call.phase = .waiting →
    s.inFlight.get? call.cid.toText = some call.cid
  keyed : ∀ key cid, s.inFlight.get? key = some cid → cid.toText = key

variable {s s' : FetchingBlockstore codec}

/-- What a store holds under an address hashes to it. -/
theorem addressed_get {store : Blockstore codec} {cid : Cid} {bytes : Bytes}
    (h : store.get cid = some bytes) : codec.blockCid bytes = cid :=
  Cid.toText_injective (store.addressed cid.toText bytes h)

/-- The calls that await an attempt get what it brings, and the others go on. -/
theorem Kept.settle (h : s.Kept) {key : JsString} {outcome : GetPhase}
    (houtcome : ∀ (call : GetCall) bytes, call.cid.toText = key → outcome = .resolved (some bytes) →
      codec.blockCid bytes = call.cid)
    (hover : outcome ≠ .waiting ∧ ∀ held, outcome ≠ .looking held) :
    (s.settle key outcome).Kept := by
  have hcases : ∀ call ∈ (s.settle key outcome).calls,
      call ∈ s.calls ∧ (call.phase = .waiting → call.cid.toText ≠ key) ∨
        call.cid.toText = key ∧ call.phase = outcome := by
    intro call hcall
    obtain ⟨before, hbefore, rfl⟩ := List.mem_map.mp hcall
    unfold GetCall.settle
    split
    · split
      · next hkey => exact Or.inr ⟨hkey, rfl⟩
      · next hkey => exact Or.inl ⟨hbefore, fun _ => hkey⟩
    · next hnot => exact Or.inl ⟨hbefore, fun hwaiting => absurd hwaiting hnot⟩
  refine ⟨⟨?_, h.verified.stored⟩, ?_, ?_, ?_⟩
  · intro call bytes hcall hphase
    obtain ⟨hold, -⟩ | ⟨hkey, hout⟩ := hcases call hcall
    · exact h.verified.returned call bytes hold hphase
    · exact houtcome call bytes hkey (hout.symm.trans hphase)
  · intro call bytes hcall hphase
    obtain ⟨hold, -⟩ | ⟨-, hout⟩ := hcases call hcall
    · exact h.looking call bytes hold hphase
    · exact absurd (hout.symm.trans hphase) (hover.2 _)
  · intro call hcall hphase
    obtain ⟨hold, hother⟩ | ⟨-, hout⟩ := hcases call hcall
    · show (s.inFlight.delete key).get? call.cid.toText = some call.cid
      rw [InsertionMap.get?_delete, if_neg (hother hphase)]
      exact h.waiting call hold hphase
    · exact absurd (hout.symm.trans hphase) hover.1
  · intro key' cid hget
    have hdeleted : (s.inFlight.delete key).get? key' = some cid := hget
    rw [InsertionMap.get?_delete] at hdeleted
    split at hdeleted
    · cases hdeleted
    · exact h.keyed key' cid hdeleted

/-- A call goes on from what the local tier answered. -/
theorem Kept.looked (h : s.Kept) {i : Nat} (hstep : s.looked i = some s') : s'.Kept := by
  unfold FetchingBlockstore.looked at hstep
  split at hstep
  case h_2 => cases hstep
  case h_1 c hc =>
    have hmem : c ∈ s.calls := List.mem_of_getElem? hc
    split at hstep
    · next bytes hphase =>
      cases hstep
      refine ⟨⟨?_, h.verified.stored⟩, ?_, ?_, h.keyed⟩
      · intro call bytes' hcall hresolved
        obtain hold | rfl := List.mem_or_eq_of_mem_set hcall
        · exact h.verified.returned call bytes' hold hresolved
        · cases hresolved
          exact h.looking c bytes hmem hphase
      · intro call bytes' hcall hlooking
        obtain hold | rfl := List.mem_or_eq_of_mem_set hcall
        · exact h.looking call bytes' hold hlooking
        · cases hlooking
      · intro call hcall hwaiting
        obtain hold | rfl := List.mem_or_eq_of_mem_set hcall
        · exact h.waiting call hold hwaiting
        · cases hwaiting
    · -- a miss: the call awaits the attempt that is under way, or begins one
      have hkept : ∀ inFlight : InsertionMap JsString Cid,
          inFlight.get? c.cid.toText = some c.cid →
          (∀ key cid, s.inFlight.get? key = some cid → inFlight.get? key = some cid) →
          (∀ key cid, inFlight.get? key = some cid → cid.toText = key) →
          Kept { s with
            calls := s.calls.set i { c with phase := .waiting }
            inFlight := inFlight } := by
        intro inFlight hmine hothers hkeyed
        refine ⟨⟨?_, h.verified.stored⟩, ?_, ?_, hkeyed⟩
        · intro call bytes hcall hresolved
          obtain hold | rfl := List.mem_or_eq_of_mem_set hcall
          · exact h.verified.returned call bytes hold hresolved
          · cases hresolved
        · intro call bytes hcall hlooking
          obtain hold | rfl := List.mem_or_eq_of_mem_set hcall
          · exact h.looking call bytes hold hlooking
          · cases hlooking
        · intro call hcall hwaiting
          obtain hold | rfl := List.mem_or_eq_of_mem_set hcall
          · exact hothers _ _ (h.waiting call hold hwaiting)
          · exact hmine
      dsimp only at hstep
      split at hstep
      · next hhas =>
        cases hstep
        obtain ⟨cid, hcid⟩ := Option.isSome_iff_exists.mp hhas
        have hsame : cid = c.cid := Cid.toText_injective (h.keyed _ cid hcid)
        exact hkept s.inFlight (hsame ▸ hcid) (fun _ _ hget => hget) h.keyed
      · next hhas =>
        cases hstep
        apply hkept
        · exact InsertionMap.get?_set_self _ _ _
        · intro key cid hget
          have hne : key ≠ c.cid.toText := by
            rintro rfl
            exact hhas (Option.isSome_iff_exists.mpr ⟨cid, hget⟩)
          rw [InsertionMap.get?_set, if_neg hne]
          exact hget
        · intro key cid hget
          rw [InsertionMap.get?_set] at hget
          split at hget
          · next heq =>
            cases hget
            exact heq.symm
          · exact h.keyed key cid hget
    · cases hstep

/-- The attempt under a key is for the CID that the key is the text of. -/
theorem Kept.fetchAndVerify (h : s.Kept) {key : JsString} {takes : Bool}
    (hstep : s.fetchAndVerify key replies takes = some s') : s'.Kept := by
  have hnothing : (s.settle key (.resolved none)).Kept := by
    apply h.settle
    · intro call bytes _ hsome
      cases hsome
    · exact ⟨GetPhase.noConfusion, fun _ => GetPhase.noConfusion⟩
  unfold FetchingBlockstore.fetchAndVerify at hstep
  split at hstep
  case h_2 => cases hstep
  case h_1 cid hcid =>
    split at hstep
    · cases hstep
      exact hnothing
    · next bytes hbytes =>
      split at hstep
      · cases hstep
        exact ⟨⟨hnothing.verified.returned, hnothing.verified.stored⟩, hnothing.looking,
          hnothing.waiting, hnothing.keyed⟩
      · next hhash =>
        split at hstep
        · cases hstep
          have hkept : (s.settle key (.resolved (some bytes))).Kept := by
            apply h.settle
            · intro call bytes' hkey hsome
              cases hsome
              rw [not_not.mp hhash]
              exact Cid.toText_injective ((h.keyed key cid hcid).trans hkey.symm)
            · exact ⟨GetPhase.noConfusion, fun _ => GetPhase.noConfusion⟩
          exact ⟨⟨hkept.verified.returned, fun _ _ => addressed_get⟩, hkept.looking,
            hkept.waiting, hkept.keyed⟩
        · cases hstep
          apply h.settle
          · intro call bytes' _ hsome
            cases hsome
          · exact ⟨GetPhase.noConfusion, fun _ => GetPhase.noConfusion⟩

theorem Kept.step {e : Event} (h : s.Kept) (hstep : step s e = some s') : s'.Kept := by
  cases e with
  | put bytes =>
    cases hstep
    exact ⟨⟨h.verified.returned, fun _ _ => addressed_get⟩, h.looking, h.waiting, h.keyed⟩
  | get cid =>
    cases hstep
    refine ⟨⟨?_, h.verified.stored⟩, ?_, ?_, h.keyed⟩
    · intro call bytes hcall hresolved
      obtain hold | hnew := List.mem_append.mp hcall
      · exact h.verified.returned call bytes hold hresolved
      · cases List.mem_singleton.mp hnew
        cases hresolved
    · intro call bytes hcall hlooking
      obtain hold | hnew := List.mem_append.mp hcall
      · exact h.looking call bytes hold hlooking
      · cases List.mem_singleton.mp hnew
        exact addressed_get (GetPhase.looking.inj hlooking)
    · intro call hcall hwaiting
      obtain hold | hnew := List.mem_append.mp hcall
      · exact h.waiting call hold hwaiting
      · cases List.mem_singleton.mp hnew
        cases hwaiting
  | looked call => exact h.looked hstep
  | walked key replies takes => exact h.fetchAndVerify hstep

theorem reaches_kept {local_ : Blockstore codec} (h : Reaches step anything (start local_) s) :
    s.Kept := by
  have hstart : (start local_).Kept := by
    refine ⟨⟨?_, fun _ _ => addressed_get⟩, ?_, ?_, ?_⟩
    · intro call bytes hcall
      cases hcall
    · intro call bytes hcall
      cases hcall
    · intro call hcall
      cases hcall
    · intro key cid hget
      cases hget
  exact h.invariant hstart fun _ _ _ _ hkept hstep => hkept.step hstep

/-! ## What a call comes to -/

/-- A call that waits is settled by the end of the walk for its CID. -/
theorem settled_of_waiting {i : Nat} {call : GetCall} (hcall : s.calls[i]? = some call)
    (hwaiting : call.phase = .waiting) (outcome : GetPhase) :
    (s.settle call.cid.toText outcome).calls[i]? = some { call with phase := outcome } := by
  show (s.calls.map _)[i]? = _
  rw [List.getElem?_map, hcall]
  show some (GetCall.settle _ _ call) = _
  unfold GetCall.settle
  rw [hwaiting]
  dsimp only
  rw [if_pos rfl]

/-- Every call returns the block or nothing, and where it was fetched it returns the
    block if and only if the first peer that replied with bytes replied with it. -/
theorem get_returns_the_block (local_ : Blockstore codec) (s : FetchingBlockstore codec)
    (h : Reaches step anything (start local_) s) :
    s.Verified ∧
      ∀ (i : Nat) call, s.calls[i]? = some call → call.phase = .waiting →
        ∀ replies takes, (∃ reply ∈ replies, Serves codec call.cid reply) →
          ∃ s', step s (.walked call.cid.toText replies takes) = some s' ∧
            ((∃ bytes, s'.calls[i]? = some { call with phase := .resolved (some bytes) } ∧
                codec.blockCid bytes = call.cid) ↔
              FirstServes codec call.cid replies ∧ takes = true) := by
  have hkept := reaches_kept h
  refine ⟨hkept.verified, fun i call hcall hwaiting replies takes _ => ?_⟩
  have hattempt := hkept.waiting call (List.mem_of_getElem? hcall) hwaiting
  have hsettled := settled_of_waiting hcall hwaiting
  rw [firstServes_iff]
  show ∃ s', s.fetchAndVerify call.cid.toText replies takes = some s' ∧ _
  unfold FetchingBlockstore.fetchAndVerify
  rw [hattempt]
  dsimp only
  cases hfetch : RpcBlockSource.fetch replies with
  | none =>
    refine ⟨_, rfl, ?_⟩
    rw [hsettled]
    simp
  | some bytes =>
    dsimp only
    by_cases hhash : codec.blockCid bytes = call.cid
    · rw [if_neg (not_not_intro hhash)]
      cases takes with
      | true =>
        refine ⟨_, rfl, ?_⟩
        show (∃ bytes', (s.settle call.cid.toText _).calls[i]? = _ ∧ _) ↔ _
        rw [hsettled]
        simp [hhash]
      | false =>
        refine ⟨_, rfl, ?_⟩
        rw [hsettled]
        simp
    · rw [if_pos hhash]
      refine ⟨_, rfl, ?_⟩
      show (∃ bytes', (s.settle call.cid.toText _).calls[i]? = _ ∧ _) ↔ _
      rw [hsettled]
      simp [hhash]

/-! ## Two peers -/

def markedCid : Cid := ⟨js "b", by decide, by decide⟩

/-- A codec under which the empty block has one address and every other block another. -/
def markedCodec : Codec plain where
  encode _ := .ok []
  decode _ := none
  blockCid bytes := if bytes = [] then plainCid else markedCid
  canonicalCid_eq _ := rfl

def servesBlock (bytes : Bytes) : PeerReply := .replied (encodeResponse (.block (some bytes)))

theorem bytes_servesBlock (bytes : Bytes) : (servesBlock bytes).bytes = some bytes := by
  have hread : parseResponse (encodeResponse (.block (some bytes))) = some (.block (some bytes)) :=
    parseResponse_encodeResponse ⟨trivial, fun _ hcertificate => by cases hcertificate⟩
  unfold PeerReply.bytes servesBlock PeerReply.response
  dsimp only
  rw [hread]

theorem serves_marked : Serves markedCodec markedCid (servesBlock [1]) :=
  ⟨[1], bytes_servesBlock [1], rfl⟩

/-- A call that waits for the block at `markedCid`. -/
def asked : List Event := [.get markedCid, .looked 0]

theorem asked_waits :
    ∃ s, Reaches step anything (start (.empty : Blockstore markedCodec)) s ∧
      s.calls[0]? = some ⟨markedCid, .waiting⟩ := by
  have hrun : ∃ s, run step (start (.empty : Blockstore markedCodec)) asked = some s ∧
      s.calls[0]? = some ⟨markedCid, .waiting⟩ := ⟨_, rfl, rfl⟩
  obtain ⟨s, hs, hcall⟩ := hrun
  exact ⟨s, Reaches.of_run (fun _ _ _ => trivial) hs, hcall⟩

/-- An unreachable peer before the honest one does no harm. -/
theorem get_returns_the_block_unreachable_first :
    ∃ (s s' : FetchingBlockstore markedCodec) (bytes : Bytes),
      Reaches step anything (start .empty) s ∧
        step s (.walked markedCid.toText [.unreachable, servesBlock [1]] true) = some s' ∧
        s'.calls[0]? = some ⟨markedCid, .resolved (some bytes)⟩ := by
  obtain ⟨s, hs, hcall⟩ := asked_waits
  have hget := (get_returns_the_block .empty s hs).2 0 ⟨markedCid, .waiting⟩ hcall rfl
    [.unreachable, servesBlock [1]] true ⟨servesBlock [1], by simp, serves_marked⟩
  obtain ⟨s', hstep, hblock⟩ := hget
  have hfirst : FirstServes markedCodec markedCid [.unreachable, servesBlock [1]] := by
    refine ⟨[.unreachable], servesBlock [1], [], rfl, ?_, serves_marked⟩
    intro earlier hearlier
    cases List.mem_singleton.mp hearlier
    rfl
  obtain ⟨bytes, hbytes, -⟩ := hblock.mpr ⟨hfirst, rfl⟩
  exact ⟨s, s', bytes, hs, hstep, hbytes⟩

/-- A peer that sends other bytes and comes first denies the block. -/
theorem liar_denies_the_block :
    ¬ ∀ (p : Platform) (codec : Codec p) (local_ : Blockstore codec) (s : FetchingBlockstore codec),
      Reaches step anything (start local_) s →
        ∀ (i : Nat) call, s.calls[i]? = some call → call.phase = .waiting →
          ∀ replies, (∃ reply ∈ replies, Serves codec call.cid reply) →
            ∀ s', step s (.walked call.cid.toText replies true) = some s' →
              ∃ bytes, s'.calls[i]? = some { call with phase := .resolved (some bytes) } ∧
                codec.blockCid bytes = call.cid := by
  intro h
  obtain ⟨s, hs, hcall⟩ := asked_waits
  have hwaits := (reaches_kept hs).waiting _ (List.mem_of_getElem? hcall) rfl
  have hlied : RpcBlockSource.fetch [servesBlock [], servesBlock [1]] = some [] := by
    unfold RpcBlockSource.fetch
    rw [List.findSome?_cons, bytes_servesBlock]
  have hother : markedCodec.blockCid [] ≠ markedCid := by decide
  have hstep : step s (.walked markedCid.toText [servesBlock [], servesBlock [1]] true)
      = some { s.settle markedCid.toText (.resolved none) with rejected := s.rejected + 1 } := by
    show s.fetchAndVerify markedCid.toText [servesBlock [], servesBlock [1]] true = _
    unfold FetchingBlockstore.fetchAndVerify
    rw [hwaits, hlied]
    dsimp only
    rw [if_pos hother]
  have hsettled := settled_of_waiting hcall rfl (.resolved none)
  obtain ⟨bytes, hbytes, -⟩ := h plain markedCodec .empty s hs 0 _ hcall rfl
    [servesBlock [], servesBlock [1]] ⟨servesBlock [1], by simp, serves_marked⟩ _ hstep
  have hnone : (s.settle markedCid.toText (.resolved none)).calls[0]?
      = some ⟨markedCid, .resolved (some bytes)⟩ := hbytes
  rw [hsettled] at hnone
  cases hnone

end FetchingBlockstore

end O2Fabric.Net
