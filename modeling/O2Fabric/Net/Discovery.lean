/-
  O2Fabric.Net.Discovery

  `RpcRecordIndex`: the record index that the connected peers serve.

  Who provides a block is what all the peers name together.  The records of a
  node are the first that a peer answers with, in the order of the peers, and
  they are judged after the walk.  So who answers first decides.
-/

import O2Fabric.Net.Block
import O2Fabric.Net.Protocol.NodeRecords

namespace O2Fabric.Net

open O2Fabric.Net.Protocol

/-- The keys the peer names; nothing from one that does not answer the question. -/
def PeerReply.nodeKeys (reply : PeerReply) : List JsString :=
  match reply.response with
  | some (.providers nodeKeys) => nodeKeys
  | _ => []

def PeerReply.records (reply : PeerReply) : Option NodeRecords :=
  match reply.response with
  | some (.records records) => records
  | _ => none

/-- What each connected peer replies, in the order of the list, to either request. -/
structure RpcRecordIndex where
  providerReplies : Cid → List PeerReply
  recordReplies : JsString → List PeerReply

namespace RpcRecordIndex

variable (index : RpcRecordIndex)

def providers (cid : Cid) : List JsString :=
  sortedDistinct ((index.providerReplies cid).flatMap PeerReply.nodeKeys)

def recordsFor (nodeKey : JsString) : Option NodeRecords :=
  (index.recordReplies nodeKey).findSome? PeerReply.records

/-- The index as a port.  A peer that cannot be reached rejects nothing. -/
def toRecordIndex : RecordIndex where
  providers cid := .ok (index.providers cid)
  recordsFor nodeKey := .ok (index.recordsFor nodeKey)

/-- Some peer names the key as a provider's. -/
def Named (cid : Cid) (nodeKey : JsString) : Prop :=
  ∃ reply ∈ index.providerReplies cid, nodeKey ∈ reply.nodeKeys

variable (checks : RecordChecks) (query : ExecutorQuery) (options : DiscoveryOptions)

/-- The peer answers with records for the key that verify and qualify. -/
def Vouches (nodeKey : JsString) (reply : PeerReply) : Prop :=
  ∃ records, reply.records = some records ∧ Qualifies checks query options nodeKey records

/-- The first peer that answers with records for the key answers with ones that qualify. -/
def FirstVouches (nodeKey : JsString) : Prop :=
  ∃ before reply after, index.recordReplies nodeKey = before ++ reply :: after ∧
    (∀ earlier ∈ before, earlier.records = none) ∧ Vouches checks query options nodeKey reply

theorem named_iff {cid : Cid} {nodeKey : JsString} :
    nodeKey ∈ index.providers cid ↔ index.Named cid nodeKey := by
  unfold providers Named
  rw [mem_sortedDistinct, List.mem_flatMap]

theorem firstVouches_iff {nodeKey : JsString} :
    index.FirstVouches checks query options nodeKey ↔
      ∃ records, index.recordsFor nodeKey = some records ∧
        Qualifies checks query options nodeKey records := by
  unfold recordsFor
  constructor
  · rintro ⟨before, reply, after, hreplies, hnone, records, hrecords, hqualifies⟩
    refine ⟨records, ?_, hqualifies⟩
    rw [List.findSome?_eq_some_iff]
    exact ⟨before, reply, after, hreplies, hrecords, hnone⟩
  · rintro ⟨records, hfirst, hqualifies⟩
    rw [List.findSome?_eq_some_iff] at hfirst
    obtain ⟨before, reply, after, hreplies, hrecords, hnone⟩ := hfirst
    exact ⟨before, reply, after, hreplies, hnone, records, hrecords, hqualifies⟩

def everySigned : RecordChecks where
  checkX509Form _ := none
  signedByIssuer _ := true
  signedByNode _ _ _ := true

/-- The records of the plain node, with a certificate of an issuer nobody pins. -/
def strayRecords : NodeRecords :=
  { plainRecords with certificate := { plainRecords.certificate with issuer := js "99" } }

def answersRecords (records : NodeRecords) : PeerReply :=
  .replied (encodeResponse (.records (some records)))

def answersProviders (nodeKeys : List JsString) : PeerReply :=
  .replied (encodeResponse (.providers nodeKeys))

/-- Both peers name the plain node; the first holds the stray records. -/
def strayFirst : RpcRecordIndex where
  providerReplies _ := [answersProviders [js "ab"], answersProviders [js "ab"]]
  recordReplies _ := [answersRecords strayRecords, answersRecords plainRecords]

def anyExecutor : ExecutorQuery := ⟨plainCid, none, none⟩

def pinsOne : DiscoveryOptions := ⟨[js "ef"], 1, none⟩

theorem records_answersRecords {records : NodeRecords} (hcanonical : records.capabilities.Canonical)
    (hkey : records.certificate.nextKeyCommitment = none) :
    (answersRecords records).records = some records := by
  have hcrosses : (Protocol.AgentResponse.records (some records)).Crosses := by
    refine ⟨hcanonical, ?_⟩
    intro certificate hmem
    rw [List.mem_singleton.mp hmem]
    exact hkey
  have hread := parseResponse_encodeResponse hcrosses
  unfold PeerReply.records answersRecords PeerReply.response
  dsimp only
  rw [hread]

theorem plainRecords_canonical : plainRecords.capabilities.Canonical :=
  ⟨List.pairwise_singleton _ _, List.nodup_singleton _⟩

theorem plainRecords_qualify : Qualifies everySigned anyExecutor pinsOne (js "ab") plainRecords where
  certified := ⟨by decide, rfl, rfl, by decide, by decide⟩
  certificateKey := rfl
  capabilitiesKey := rfl
  verified := by decide
  honoured := by decide
  featured := by
    intro feature hfeature
    cases hfeature
  cleared := by
    intro userKey huser
    cases huser

end RpcRecordIndex

end O2Fabric.Net
