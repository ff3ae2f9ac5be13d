/-
  O2Fabric.Libp2p.DhtRecordIndex

  The index answered by a hash table: the providers of a block and the records
  of a node, each read from the events of one bounded walk.

  The walk is untrusted, and may end early: it fails, or its time is up.  A
  second index answers beside it for providers, and after it for records.
-/

import O2Fabric.Net.Protocol.NodeRecords

namespace O2Fabric.DhtRecordIndex

open O2Fabric.Net.Protocol

abbrev Bytes := List (Fin 256)

/-! ## Walks -/

structure PeerInfo where
  id : JsString
  multiaddrs : List JsString
  deriving DecidableEq

/-- What a walk yields. -/
inductive QueryEvent
  | provider (providers : List PeerInfo)
  | value (value : Bytes)
  | other (name : JsString)

inductive Ending
  | completes
  | fails
  /-- The signal of its timer aborts it. -/
  | timesOut
  deriving DecidableEq

/-- What a walk yields before it ends. -/
structure Walk where
  events : List QueryEvent
  ends : Ending

structure Options where
  codec : CanonicalCodec
  /-- The key a peer id names, where it names one. -/
  nodeKeyForPeerId : JsString → Option JsString
  verify : JsString → NodeRecords → Bool
  /-- Another index's `recordsFor`, or the decision to ask none. -/
  recordsFallback : Option (JsString → Except JsString (Option NodeRecords))
  /-- Whether there is a sink for addresses. -/
  addresses : Bool
  /-- This node's key, or `'answers-about-itself-too'`. -/
  self : JsString

/-! ## Providers -/

/-- What has been read of a walk for providers. -/
structure Found where
  found : List JsString := []
  unnamedProviders : Nat := 0
  /-- What the sink was handed. -/
  addressed : List PeerInfo := []

variable (options : Options)

def readProvider (read : Found) (info : PeerInfo) : Found :=
  match options.nodeKeyForPeerId info.id with
  | none => { read with unnamedProviders := read.unnamedProviders + 1 }
  | some nodeKey =>
    if nodeKey = options.self then read
    else
      { read with
        addressed := if options.addresses then read.addressed ++ [info] else read.addressed
        found := read.found ++ [nodeKey] }

def readProviders (read : Found) : QueryEvent → Found
  | .provider providers => providers.foldl (readProvider options) read
  | _ => read

/-- `#dhtProviders`, and what it has counted and handed on. -/
def dhtProviders (walk : Walk) : List JsString × Found :=
  let read := walk.events.foldl (readProviders options) {}
  match walk.ends with
  | .completes => (read.found, read)
  -- A failure contributes nothing.
  | .fails => ([], read)
  | .timesOut => ([], read)

/-- `providers`, where `fromPeers` is what the composed index answers. -/
def providers (walk : Walk) (fromPeers : Except JsString (List JsString)) : List JsString :=
  sortedDistinct ((dhtProviders options walk).1 ++ fromPeers.toOption.getD [])

/-! ## Records -/

/-- The first value that decodes and verifies, and how many did not verify before it. -/
def readValues (nodeKey : JsString) : List QueryEvent → Option NodeRecords × Nat
  | [] => (none, 0)
  | .value value :: rest =>
    match decodeNodeRecords options.codec value with
    | none => readValues nodeKey rest
    | some records =>
      if options.verify nodeKey records then (some records, 0)
      else ((readValues nodeKey rest).1, (readValues nodeKey rest).2 + 1)
  | _ :: rest => readValues nodeKey rest

/-- `#dhtRecords`: however the walk ends, what it has not found it answers as none. -/
def dhtRecords (nodeKey : JsString) (walk : Walk) : Option NodeRecords × Nat :=
  readValues options nodeKey walk.events

def recordsFor (nodeKey : JsString) (walk : Walk) : Except JsString (Option NodeRecords) :=
  match (dhtRecords options nodeKey walk).1 with
  | some records => .ok (some records)
  | none =>
    match options.recordsFallback with
    | none => .ok none
    | some fallback => fallback nodeKey

/-! ## What is answered -/

/-- The walk names this key as a provider's, and it is not this node's own. -/
def Yields (walk : Walk) (nodeKey : JsString) : Prop :=
  nodeKey ≠ options.self ∧ ∃ infos, .provider infos ∈ walk.events ∧
    ∃ info ∈ infos, options.nodeKeyForPeerId info.id = some nodeKey

/-- The records a value carries, where they verify for the key asked. -/
def verified (nodeKey : JsString) : QueryEvent → Option NodeRecords
  | .value value => (decodeNodeRecords options.codec value).filter (options.verify nodeKey)
  | _ => none

variable {options} {nodeKey : JsString}

variable {read : Found}

theorem mem_readProvider {info : PeerInfo} :
    nodeKey ∈ (readProvider options read info).found ↔
      nodeKey ∈ read.found ∨
        (nodeKey ≠ options.self ∧ options.nodeKeyForPeerId info.id = some nodeKey) := by
  unfold readProvider
  split
  · next hnone => simp [hnone]
  · next key hkey =>
    split
    · next hself =>
      rw [hkey]
      constructor
      · exact Or.inl
      · rintro (hold | ⟨hother, hsame⟩)
        · exact hold
        · cases hsame
          exact absurd hself hother
    · next hother =>
      rw [hkey]
      simp only [List.mem_append, List.mem_singleton]
      constructor
      · rintro (hold | rfl)
        · exact Or.inl hold
        · exact Or.inr ⟨hother, rfl⟩
      · rintro (hold | ⟨-, hsame⟩)
        · exact Or.inl hold
        · exact Or.inr (Option.some.inj hsame).symm

theorem mem_foldl_readProvider {infos : List PeerInfo} :
    nodeKey ∈ (infos.foldl (readProvider options) read).found ↔
      nodeKey ∈ read.found ∨
        (nodeKey ≠ options.self ∧
          ∃ info ∈ infos, options.nodeKeyForPeerId info.id = some nodeKey) := by
  induction infos generalizing read with
  | nil => simp
  | cons info rest ih =>
    rw [List.foldl_cons, ih, mem_readProvider]
    simp only [List.mem_cons, exists_eq_or_imp]
    tauto

theorem mem_foldl_readProviders {events : List QueryEvent} :
    nodeKey ∈ (events.foldl (readProviders options) read).found ↔
      nodeKey ∈ read.found ∨
        (nodeKey ≠ options.self ∧ ∃ infos, .provider infos ∈ events ∧
          ∃ info ∈ infos, options.nodeKeyForPeerId info.id = some nodeKey) := by
  induction events generalizing read with
  | nil => simp
  | cons event rest ih =>
    rw [List.foldl_cons, ih]
    cases event with
    | provider infos =>
      show (nodeKey ∈ (infos.foldl (readProvider options) read).found ∨ _) ↔ _
      rw [mem_foldl_readProvider]
      constructor
      · rintro ((hold | ⟨hother, hhere⟩) | ⟨hother, later, hmem, hinfo⟩)
        · exact Or.inl hold
        · exact Or.inr ⟨hother, infos, List.mem_cons_self, hhere⟩
        · exact Or.inr ⟨hother, later, List.mem_cons_of_mem _ hmem, hinfo⟩
      · rintro (hold | ⟨hother, some', hmem, hinfo⟩)
        · exact Or.inl (Or.inl hold)
        · rcases List.mem_cons.mp hmem with hhere | hlater
          · cases hhere
            exact Or.inl (Or.inr ⟨hother, hinfo⟩)
          · exact Or.inr ⟨hother, some', hlater, hinfo⟩
    | value value => simp [readProviders]
    | other name => simp [readProviders]

/-- The keys a walk contributes: all it named where it ended, none where it did not. -/
theorem mem_dhtProviders {walk : Walk} :
    nodeKey ∈ (dhtProviders options walk).1 ↔
      walk.ends = .completes ∧ Yields options walk nodeKey := by
  unfold dhtProviders
  dsimp only
  split
  · next hends =>
    rw [mem_foldl_readProviders]
    simp [hends, Yields]
  · next hends => simp [hends]
  · next hends => simp [hends]

theorem sorted_sortedDistinct (texts : List JsString) :
    (sortedDistinct texts).Pairwise (· < ·) := by
  have hsorted : (sortedDistinct texts).Pairwise (· ≤ ·) := List.pairwise_insertionSort _ _
  have hnodup : (sortedDistinct texts).Nodup :=
    (List.perm_insertionSort _ _).nodup_iff.mpr (distinct_nodup texts)
  exact (hsorted.and hnodup).imp fun h => lt_of_le_of_ne h.1 h.2

theorem readValues_eq (events : List QueryEvent) :
    (readValues options nodeKey events).1 = events.findSome? (verified options nodeKey) := by
  induction events with
  | nil => rfl
  | cons event rest ih =>
    rw [List.findSome?_cons]
    cases event with
    | value value =>
      have hhere : verified options nodeKey (.value value) =
          (decodeNodeRecords options.codec value).filter (options.verify nodeKey) := rfl
      rw [hhere, readValues]
      cases hdecode : decodeNodeRecords options.codec value with
      | none => exact ih
      | some records =>
        rw [Option.filter_some]
        cases hverify : options.verify nodeKey records with
        | true => simp [hverify]
        | false => simpa [hverify] using ih
    | provider infos => exact ih
    | other name => exact ih

/-- A node key and the peer id it has. -/
def aNodeKey : JsString :=
  js "d75a980182b10ab7d54bfed3c964073a0ee172f3daa62325af021a68f707511a"

def aPeer : PeerInfo := ⟨js "12D3KooWQK1wnefoLrcVHbbnf5tLzbopUd3K3bFAoJpA7YJgL5pV", []⟩

def anIndex : Options where
  -- no value is read
  codec := ⟨fun _ => .error [], fun _ => none⟩
  nodeKeyForPeerId := fun id => if id = aPeer.id then some aNodeKey else none
  verify := fun _ _ => false
  recordsFallback := none
  addresses := false
  self := js "answers-about-itself-too"

def cutShort : Walk := ⟨[.provider [aPeer]], .timesOut⟩

end O2Fabric.DhtRecordIndex
