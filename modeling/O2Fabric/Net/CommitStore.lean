/-
  O2Fabric.Net.CommitStore

  The answers a node has committed to and not yet revealed.  A handle is claimed
  before the work runs, the answer is filed under it afterwards, and only the
  peer that asked takes it back, once.
-/

import O2Fabric.Core.Job.Verify
import O2Fabric.Core.Platform

namespace O2Fabric.Net

open Job

/-- How many unrevealed answers one node will hold at once. -/
def MAX_PENDING_COMMITMENTS : Nat := 64

/-- How long a node holds an answer nobody came back for. -/
def PENDING_COMMITMENT_TTL_MS : ℚ := 120000

/-- One answer, produced and withheld. -/
structure PendingCommitment where
  committedBy : JsString
  nonce : Bytes
  output : CanonicalValue
  cost : Cost
  attestation : AttestedResult
  at_ : ℚ
  /-- History: which of the node's computations gave the answer. -/
  computation : Nat

structure PendingCommitments where
  nodeId : JsString
  entries : InsertionMap JsString PendingCommitment

namespace PendingCommitments

def create (nodeId : JsString) : PendingCommitments := ⟨nodeId, .empty⟩

/-- `#expire`: the entries older than the limit go. -/
def expire (store : PendingCommitments) (now : ℚ) : PendingCommitments :=
  { store with
    entries := (store.entries.entries.filter fun e =>
      decide (PENDING_COMMITMENT_TTL_MS ≤ now - e.2.at_)).foldl
        (fun entries e => entries.delete e.1) store.entries }

/-- Claim a name, or refuse.  `handle` is the name drawn. -/
def reserve (store : PendingCommitments) (handle : JsString) (now : ℚ) :
    Except JsString JsString × PendingCommitments :=
  let store := store.expire now
  if MAX_PENDING_COMMITMENTS ≤ store.entries.size then
    (.error (js "commit refused: " ++ decimal store.entries.size ++ js " of "
      ++ decimal MAX_PENDING_COMMITMENTS ++ js " commitments already pending on "
      ++ store.nodeId), store)
  else (.ok handle, store)

def file (store : PendingCommitments) (handle : JsString) (pending : PendingCommitment) :
    PendingCommitments :=
  { store with entries := store.entries.set handle pending }

/-- Hand an answer back to the peer that asked for it, once. -/
def take (store : PendingCommitments) (handle by_ : JsString) (now : ℚ) :
    Except JsString PendingCommitment × PendingCommitments :=
  let store := store.expire now
  match store.entries.get? handle with
  | none => (.error (js "no commitment pending under that name on " ++ store.nodeId), store)
  | some pending =>
    if pending.committedBy ≠ by_ then
      (.error (js "that commitment was made to another peer on " ++ store.nodeId), store)
    else (.ok pending, { store with entries := store.entries.delete handle })

/-! ## Nothing is made up -/

variable {store : PendingCommitments} {e : JsString × PendingCommitment}

/-- The entry has not run out at the clock. -/
def Unexpired (now : ℚ) (e : JsString × PendingCommitment) : Prop :=
  now - e.2.at_ < PENDING_COMMITMENT_TTL_MS

instance (now : ℚ) (e : JsString × PendingCommitment) : Decidable (Unexpired now e) :=
  inferInstanceAs (Decidable (_ < _))

theorem entries_expire (store : PendingCommitments) (now : ℚ) :
    (store.expire now).entries.entries
      = store.entries.entries.filter fun e => decide (Unexpired now e) := by
  apply (InsertionMap.entries_delete_where store.entries _).trans
  apply List.filter_congr
  intro e _
  show (!decide _) = decide _
  rw [← decide_not, decide_eq_decide, Unexpired, not_le]

theorem mem_expire_iff {now : ℚ} :
    e ∈ (store.expire now).entries.entries ↔ e ∈ store.entries.entries ∧ Unexpired now e := by
  rw [entries_expire, List.mem_filter, decide_eq_true_eq]

theorem mem_expire {now : ℚ} (h : e ∈ (store.expire now).entries.entries) :
    e ∈ store.entries.entries :=
  (mem_expire_iff.mp h).1

theorem mem_reserve {handle : JsString} {now : ℚ}
    (h : e ∈ (store.reserve handle now).2.entries.entries) : e ∈ store.entries.entries := by
  unfold reserve at h
  dsimp only at h
  split at h
  · exact mem_expire h
  · exact mem_expire h

theorem mem_file {handle : JsString} {pending : PendingCommitment}
    (h : e ∈ (store.file handle pending).entries.entries) :
    e = (handle, pending) ∨ e ∈ store.entries.entries :=
  InsertionMap.mem_of_mem_write h

/-- What a taker leaves, and what it gets, was there. -/
theorem mem_take {handle by_ : JsString} {now : ℚ} {result : Except JsString PendingCommitment}
    {store' : PendingCommitments} (h : store.take handle by_ now = (result, store')) :
    (∀ e ∈ store'.entries.entries, e ∈ store.entries.entries) ∧
      ∀ pending, result = .ok pending → (handle, pending) ∈ store.entries.entries := by
  unfold take at h
  dsimp only at h
  split at h
  · cases h
    exact ⟨fun e he => mem_expire he, by rintro pending ⟨⟩⟩
  · next found hget =>
    split at h
    · cases h
      exact ⟨fun e he => mem_expire he, by rintro pending ⟨⟩⟩
    · cases h
      refine ⟨fun e he => mem_expire (InsertionMap.mem_entries_delete.mp he).1, ?_⟩
      rintro pending ⟨⟩
      exact mem_expire (InsertionMap.get?_eq_some.mp hget)

end PendingCommitments

end O2Fabric.Net

/-! # Ledger

The calls peers bring about on one node's pending commitments, in any order and
at any clock.  A `Ledger` is the store with a history of the names drawn, the
answers filed and the answers handed back.

  * `call_cases` is everything one call can do: drop what ran out at its clock,
    file under a fresh name, or hand an entry back.
  * `Ledger.Sound` is the invariant: what is held was filed and was never taken,
    and what was taken went to its committer, in time, as it was filed.
  * `commitment_is_handed_out_once` is what holds of every run.
  * `refused_take_drops_what_ran_out` is what a refused take can still change.
-/

namespace O2Fabric.Net

open Job

/-- One call on the store, with the name it draws or asks for and its clock. -/
inductive PendingCall
  | reserve (handle : JsString) (now : ℚ)
  | file (handle : JsString) (pending : PendingCommitment)
  | take (handle by_ : JsString) (now : ℚ)

/-- One answer handed back. -/
structure Taking where
  handle : JsString
  by_ : JsString
  now : ℚ
  pending : PendingCommitment

/-- A store and what happened to it. -/
structure Ledger where
  store : PendingCommitments
  reserved : List JsString
  filed : List (JsString × PendingCommitment)
  taken : List Taking

namespace Ledger

def start (nodeId : JsString) : Ledger := ⟨.create nodeId, [], [], []⟩

/-- One call.  A name is drawn once, and an answer is filed under a name that was
    drawn for it, once. -/
def call (ledger : Ledger) : PendingCall → Option Ledger
  | .reserve handle now =>
    if handle ∈ ledger.reserved then none
    else
      match ledger.store.reserve handle now with
      | (.error _, store) => some { ledger with store := store }
      | (.ok handle, store) =>
        some { ledger with store := store, reserved := ledger.reserved ++ [handle] }
  | .file handle pending =>
    if handle ∈ ledger.reserved ∧ handle ∉ ledger.filed.map Prod.fst then
      some { ledger with
        store := ledger.store.file handle pending
        filed := ledger.filed ++ [(handle, pending)] }
    else none
  | .take handle by_ now =>
    match ledger.store.take handle by_ now with
    | (.error _, store) => some { ledger with store := store }
    | (.ok pending, store) =>
      some { ledger with
        store := store
        taken := ledger.taken ++ [⟨handle, by_, now, pending⟩] }

/-- The calls in any order. -/
def Reaches : Ledger → Ledger → Prop :=
  Relation.ReflTransGen fun ledger ledger' => ∃ call, ledger.call call = some ledger'

end Ledger

/-! ## What one operation does -/

namespace PendingCommitments

variable {store store' : PendingCommitments} {handle by_ : JsString} {now : ℚ}
  {pending : PendingCommitment}

/-- A reserve leaves what has not run out, whatever it answers. -/
theorem reserve_snd (store : PendingCommitments) (handle : JsString) (now : ℚ) :
    (store.reserve handle now).2 = store.expire now := by
  unfold reserve
  dsimp only
  split <;> rfl

/-- A name is given only while there is room. -/
theorem reserve_eq_ok (h : store.reserve handle now = (.ok by_, store')) :
    by_ = handle ∧ store' = store.expire now ∧
      (store.expire now).entries.size < MAX_PENDING_COMMITMENTS := by
  unfold reserve at h
  dsimp only at h
  split at h
  · cases h
  · next hroom =>
    cases h
    exact ⟨rfl, rfl, by omega⟩

/-- A take that is answered: the entry was there, in time, its committer's. -/
theorem take_eq_ok (h : store.take handle by_ now = (.ok pending, store')) :
    (handle, pending) ∈ store.entries.entries ∧ Unexpired now (handle, pending) ∧
      pending.committedBy = by_ ∧
      store'.entries = (store.expire now).entries.delete handle := by
  unfold take at h
  dsimp only at h
  split at h
  · cases h
  · next found hget =>
    split at h
    · cases h
    · next hby =>
      cases h
      obtain ⟨hmem, htime⟩ := mem_expire_iff.mp (InsertionMap.get?_eq_some.mp hget)
      exact ⟨hmem, htime, not_not.mp hby, rfl⟩

/-- A refused take leaves what has not run out. -/
theorem take_eq_error {reason : JsString} (h : store.take handle by_ now = (.error reason, store')) :
    store' = store.expire now := by
  unfold take at h
  dsimp only at h
  split at h
  · cases h
    rfl
  · split at h
    · cases h
      rfl
    · cases h

variable (now) in
/-- Another peer's answer is refused. -/
theorem take_of_other (hmem : (handle, pending) ∈ store.entries.entries)
    (hother : pending.committedBy ≠ by_) :
    ∃ reason, store.take handle by_ now = (.error reason, store.expire now) := by
  unfold take
  dsimp only
  split
  · exact ⟨_, rfl⟩
  · next found hget =>
    -- one entry a name, so what is found is the other peer's
    have hfound := mem_expire (InsertionMap.get?_eq_some.mp hget)
    have hsame : found = pending :=
      Option.some.inj ((InsertionMap.get?_eq_some.mpr hfound).symm.trans
        (InsertionMap.get?_eq_some.mpr hmem))
    rw [hsame, if_pos hother]
    exact ⟨_, rfl⟩

end PendingCommitments

/-! ## What one call does -/

namespace Ledger

open PendingCommitments

/-- Everything a call can do to a ledger. -/
theorem call_cases {ledger ledger' : Ledger} {c : PendingCall} (h : ledger.call c = some ledger') :
    (∃ handle now, c = .reserve handle now ∧ handle ∉ ledger.reserved ∧
      ledger'.store = ledger.store.expire now ∧ ledger'.filed = ledger.filed ∧
      ledger'.taken = ledger.taken) ∨
    (∃ handle pending, c = .file handle pending ∧ handle ∉ ledger.filed.map Prod.fst ∧
      ledger'.store = ledger.store.file handle pending ∧
      ledger'.filed = ledger.filed ++ [(handle, pending)] ∧ ledger'.taken = ledger.taken) ∨
    (∃ handle by_ now, c = .take handle by_ now ∧ ledger'.filed = ledger.filed ∧
      ((ledger'.store = ledger.store.expire now ∧ ledger'.taken = ledger.taken) ∨
        ∃ pending, ledger.store.take handle by_ now = (.ok pending, ledger'.store) ∧
          ledger'.taken = ledger.taken ++ [⟨handle, by_, now, pending⟩])) := by
  cases c with
  | reserve handle now =>
    left
    unfold call at h
    dsimp only at h
    split at h
    · cases h
    · next hfresh =>
      refine ⟨handle, now, rfl, hfresh, ?_⟩
      split at h <;> next store hreserve =>
        cases h
        have hstore := congrArg Prod.snd hreserve
        rw [reserve_snd] at hstore
        exact ⟨hstore.symm, rfl, rfl⟩
  | file handle pending =>
    right; left
    unfold call at h
    dsimp only at h
    split at h
    · next hdrawn =>
      cases h
      exact ⟨handle, pending, rfl, hdrawn.2, rfl, rfl, rfl⟩
    · cases h
  | take handle by_ now =>
    right; right
    unfold call at h
    dsimp only at h
    split at h
    · next reason store htake =>
      cases h
      exact ⟨handle, by_, now, rfl, rfl, Or.inl ⟨take_eq_error htake, rfl⟩⟩
    · next pending store htake =>
      cases h
      exact ⟨handle, by_, now, rfl, rfl, Or.inr ⟨pending, htake, rfl⟩⟩

/-! ## The invariant -/

/-- What is held was filed and not taken; what was taken was filed, and went to its
    committer in time. -/
structure Sound (ledger : Ledger) : Prop where
  held : ∀ e ∈ ledger.store.entries.entries,
    e ∈ ledger.filed ∧ e.1 ∉ ledger.taken.map Taking.handle
  once : (ledger.filed.map Prod.fst).Nodup
  taken : ∀ t ∈ ledger.taken, (t.handle, t.pending) ∈ ledger.filed ∧
    t.by_ = t.pending.committedBy ∧ t.now - t.pending.at_ < PENDING_COMMITMENT_TTL_MS
  takenOnce : (ledger.taken.map Taking.handle).Nodup

theorem Sound.start (nodeId : JsString) : (Ledger.start nodeId).Sound where
  held := by
    intro e he
    cases he
  once := List.nodup_nil
  taken := by
    intro t ht
    cases ht
  takenOnce := List.nodup_nil

variable {ledger ledger' : Ledger} {c : PendingCall}

/-- A call that only drops entries. -/
theorem Sound.drops (hsound : ledger.Sound) {now : ℚ}
    (hstore : ledger'.store = ledger.store.expire now) (hfiled : ledger'.filed = ledger.filed)
    (htaken : ledger'.taken = ledger.taken) : ledger'.Sound := by
  refine ⟨?_, ?_, ?_, ?_⟩
  · intro e he
    rw [hstore] at he
    rw [hfiled, htaken]
    exact hsound.held e (mem_expire he)
  · rw [hfiled]
    exact hsound.once
  · rw [hfiled, htaken]
    exact hsound.taken
  · rw [htaken]
    exact hsound.takenOnce

theorem Sound.files (hsound : ledger.Sound) {handle : JsString} {pending : PendingCommitment}
    (hfresh : handle ∉ ledger.filed.map Prod.fst)
    (hstore : ledger'.store = ledger.store.file handle pending)
    (hfiled : ledger'.filed = ledger.filed ++ [(handle, pending)])
    (htaken : ledger'.taken = ledger.taken) : ledger'.Sound := by
  -- what was never filed was never taken
  have huntaken : handle ∉ ledger.taken.map Taking.handle := by
    intro hin
    obtain ⟨t, ht, hhandle⟩ := List.mem_map.mp hin
    apply hfresh
    rw [← hhandle]
    exact List.mem_map_of_mem (f := Prod.fst) (hsound.taken t ht).1
  refine ⟨?_, ?_, ?_, ?_⟩
  · intro e he
    rw [hstore] at he
    rw [hfiled, htaken]
    rcases mem_file he with rfl | hold
    · exact ⟨List.mem_append_right _ (List.mem_singleton_self _), huntaken⟩
    · exact ⟨List.mem_append_left _ (hsound.held e hold).1, (hsound.held e hold).2⟩
  · rw [hfiled, List.map_append]
    apply List.nodup_append.mpr
    refine ⟨hsound.once, List.nodup_singleton _, ?_⟩
    intro a ha b hb hab
    have hb : b = handle := List.mem_singleton.mp hb
    rw [hab, hb] at ha
    exact hfresh ha
  · intro t ht
    rw [htaken] at ht
    rw [hfiled]
    obtain ⟨hin, hrest⟩ := hsound.taken t ht
    exact ⟨List.mem_append_left _ hin, hrest⟩
  · rw [htaken]
    exact hsound.takenOnce

theorem Sound.takes (hsound : ledger.Sound) {handle by_ : JsString} {now : ℚ}
    {pending : PendingCommitment}
    (htake : ledger.store.take handle by_ now = (.ok pending, ledger'.store))
    (hfiled : ledger'.filed = ledger.filed)
    (htaken : ledger'.taken = ledger.taken ++ [⟨handle, by_, now, pending⟩]) :
    ledger'.Sound := by
  obtain ⟨hin, htime, hby, hleft⟩ := take_eq_ok htake
  obtain ⟨hwas, huntaken⟩ := hsound.held _ hin
  refine ⟨?_, ?_, ?_, ?_⟩
  · intro e he
    rw [hleft] at he
    obtain ⟨hold, hother⟩ := InsertionMap.mem_entries_delete.mp he
    obtain ⟨hwas, hstill⟩ := hsound.held e (mem_expire hold)
    rw [hfiled, htaken, List.map_append, List.mem_append]
    refine ⟨hwas, ?_⟩
    rintro (htold | htnew)
    · exact hstill htold
    · exact hother (List.mem_singleton.mp htnew)
  · rw [hfiled]
    exact hsound.once
  · intro t ht
    rw [htaken] at ht
    rw [hfiled]
    rcases List.mem_append.mp ht with hold | hnew
    · exact hsound.taken t hold
    · rw [List.mem_singleton.mp hnew]
      exact ⟨hwas, hby.symm, htime⟩
  · rw [htaken, List.map_append]
    apply List.nodup_append.mpr
    refine ⟨hsound.takenOnce, List.nodup_singleton _, ?_⟩
    intro a ha b hb hab
    have hb : b = handle := List.mem_singleton.mp hb
    rw [hab, hb] at ha
    exact huntaken ha

theorem Sound.call (hsound : ledger.Sound) (h : ledger.call c = some ledger') :
    ledger'.Sound := by
  obtain ⟨handle, now, -, -, hstore, hfiled, htaken⟩ |
      ⟨handle, pending, -, hfresh, hstore, hfiled, htaken⟩ |
      ⟨handle, by_, now, -, hfiled, ⟨hstore, htaken⟩ | ⟨pending, htake, htaken⟩⟩ := call_cases h
  · exact hsound.drops hstore hfiled htaken
  · exact hsound.files hfresh hstore hfiled htaken
  · exact hsound.drops hstore hfiled htaken
  · exact hsound.takes htake hfiled htaken

theorem Reaches.sound {nodeId : JsString} (h : (Ledger.start nodeId).Reaches ledger) :
    ledger.Sound := by
  induction h with
  | refl => exact .start nodeId
  | tail _ hcall ih =>
    obtain ⟨c, hcall⟩ := hcall
    exact ih.call hcall

end Ledger

/-! ## What a call leaves -/

/-- The clock a call is made at. -/
def PendingCall.now : PendingCall → ℚ
  | .reserve _ now | .take _ _ now => now
  | .file _ pending => pending.at_

/-- The call is the committer's, for this entry. -/
def PendingCall.Collects (c : PendingCall) (e : JsString × PendingCommitment) : Prop :=
  ∃ now, c = .take e.1 e.2.committedBy now

namespace Ledger

open PendingCommitments

variable {ledger ledger' : Ledger} {c : PendingCall} {e : JsString × PendingCommitment}

/-- No call of anybody else's removes an entry that has not run out. -/
theorem Sound.keeps (hsound : ledger.Sound) (h : ledger.call c = some ledger')
    (he : e ∈ ledger.store.entries.entries) (htime : Unexpired c.now e) (hother : ¬ c.Collects e) :
    e ∈ ledger'.store.entries.entries := by
  obtain ⟨handle, now, rfl, -, hstore, -, -⟩ | ⟨handle, pending, rfl, hfresh, hstore, -, -⟩ |
      ⟨handle, by_, now, rfl, -, ⟨hstore, -⟩ | ⟨pending, htake, -⟩⟩ := call_cases h
  · rw [hstore]
    exact mem_expire_iff.mpr ⟨he, htime⟩
  · -- the name is fresh, so nothing is written over
    have hunheld : handle ∉ ledger.store.entries.keys := by
      intro hin
      obtain ⟨e', he', hkey⟩ := List.mem_map.mp hin
      apply hfresh
      rw [← hkey]
      exact List.mem_map_of_mem (hsound.held e' he').1
    rw [hstore]
    show e ∈ (ledger.store.entries.set handle pending).entries
    rw [InsertionMap.entries_set_of_notMem hunheld]
    exact List.mem_append_left _ he
  · rw [hstore]
    exact mem_expire_iff.mpr ⟨he, htime⟩
  · obtain ⟨hin, -, hby, hleft⟩ := take_eq_ok htake
    rw [hleft]
    apply InsertionMap.mem_entries_delete.mpr
    refine ⟨mem_expire_iff.mpr ⟨he, htime⟩, ?_⟩
    intro hkey
    apply hother
    have hval : e.2 = pending :=
      Option.some.inj ((InsertionMap.get?_eq_some.mpr he).symm.trans
        ((congrArg ledger.store.entries.get? hkey).trans (InsertionMap.get?_eq_some.mpr hin)))
    exact ⟨now, by rw [hkey, hval, hby]⟩

/-! ## Every run -/

def calls : Ledger → List PendingCall → Option Ledger
  | ledger, [] => some ledger
  | ledger, c :: rest => (ledger.call c).bind fun ledger' => ledger'.calls rest

theorem Reaches.of_calls {cs : List PendingCall} (h : ledger.calls cs = some ledger') :
    ledger.Reaches ledger' := by
  induction cs generalizing ledger with
  | nil =>
    cases h
    exact Relation.ReflTransGen.refl
  | cons c rest ih =>
    obtain ⟨next, hcall, hrest⟩ := Option.bind_eq_some_iff.mp h
    exact Relation.ReflTransGen.head ⟨c, hcall⟩ (ih hrest)

/-- An answer the node holds for a peer. -/
def answerFor (peer : JsString) (at_ : ℚ) : PendingCommitment :=
  ⟨peer, [], .null, 0, .signedByNobody, at_, 0⟩

/-- Two peers commit, the second a hundred seconds after the first. -/
def twoCommitments : List PendingCall :=
  [.reserve (js "h1") 0, .file (js "h1") (answerFor (js "a") 0),
    .reserve (js "h2") 100000, .file (js "h2") (answerFor (js "b") 100000)]

end Ledger

end O2Fabric.Net
