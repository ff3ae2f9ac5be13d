/-
  O2Fabric.Net.Agent.NamedRefusal

  The replies that are scanned before they are sent: the candidate, the refusal
  that takes its place where the scan finds a payload, and the frame that goes
  through the exit.

  The scan reads the candidate's body.  The exit reads the frame around it, and
  of a refusal all of it, so a payload that lies in the bytes of the frame before
  the body, or in those of the refusal, stops a reply that the scan let through.
-/

import O2Fabric.Core.DagCbor
import O2Fabric.Net.Protocol
import O2Fabric.Net.Rpc

namespace O2Fabric.Net.NamedRefusal

open Protocol (encodeResponse kindField)

/-! ## Replies -/

/-- A reply that may carry a payload.  `recorded` is the address of a block that is in the durable
    set of sovereign ones. -/
inductive Candidate
  | exec (outcome : Protocol.ExecutionOutcome)
  | reveal (outcome : Protocol.RevealOutcome)
  | block (bytes : Option Bytes) (recorded : Option Cid)

namespace Candidate

def response : Candidate → Protocol.AgentResponse
  | .exec outcome => .exec outcome
  | .reveal outcome => .reveal outcome
  | .block bytes _ => .block bytes

/-- What goes out in its place. -/
def refused (reason : JsString) : Candidate → Protocol.AgentResponse
  | .exec _ => .exec (.failed reason)
  | .reveal _ => .reveal (.failed reason)
  | .block _ _ => .error reason

def recorded : Candidate → Option Cid
  | .block _ recorded => recorded
  | _ => none

end Candidate

/-- A node as far as it replies.  `detail` is `JSON.stringify(error)` of a value without an
    encoding. -/
structure Replier where
  nodeId : JsString
  codec : DagCbor
  detail : CanonicalValue → JsString
  decode : Bytes → Option CanonicalValue
  timeoutMs : ℚ

def Replier.rpc (node : Replier) : RpcOptions where
  encode value :=
    match node.codec.encodeCanonical value with
    | some bytes => .ok bytes
    | none => .error (node.detail value)
  decode := node.decode
  timeoutMs := node.timeoutMs

section

variable (node : Replier) (guard : EgressGuard)

def egressRefused (violated : JsString) : JsString :=
  js "egress refused: " ++ violated ++ js " on " ++ node.nodeId

/-- The reason to send instead of the body, and the guard with what it has recorded. -/
def refusedReason (to_ : JsString) (body : CanonicalValue) : Option JsString × EgressGuard :=
  if guard.registrations = [] then (none, guard)
  else
    match node.codec.encodeCanonical body with
    | none => (none, guard)
    | some bytes =>
      ((guard.refuse to_ bytes).1.map (egressRefused node), (guard.refuse to_ bytes).2)

/-- The reply of the `exec`, `reveal` and `block` branches. -/
def replyTo (to_ : JsString) (candidate : Candidate) : Protocol.AgentResponse × EgressGuard :=
  match candidate.recorded with
  -- asked first, and by address
  | some cid => (candidate.refused (egressRefused node cid.toText), guard)
  | none =>
    match refusedReason node guard to_ (encodeResponse candidate.response) with
    | (none, guard) => (candidate.response, guard)
    | (some reason, guard) => (candidate.refused reason, guard)

/-- The reply's frame goes to the exit; `none` where there is no frame. -/
def sendReply (id : ℤ) (to_ : JsString) (candidate : Candidate) :
    Option (Except EgressRefusal Bytes) :=
  let reply := replyTo node guard to_ candidate
  (RpcEndpoint.encodeReply node.rpc id (encodeResponse reply.1)).map fun frame =>
    (reply.2.send to_ frame).1

/-- The reply leaves the node. -/
def Leaves (id : ℤ) (to_ : JsString) (candidate : Candidate) : Prop :=
  ∃ frame, sendReply node guard id to_ candidate = some (.ok frame)

end

/-! ## Bytes -/

def textBytes (text : String) : Bytes := Cbor.textString (textEncoder (js text))

section

variable (codec : DagCbor)

/-- The bytes of a response frame before its body. -/
def envelope (id : ℤ) : Bytes :=
  Cbor.head 5 3 ++ textBytes "k" ++ textBytes "res" ++ textBytes "id"
    ++ (codec.encodeNumber (.finite id)).getD [] ++ textBytes "body"

end

/-- The bytes of `{kind, ok: false, reason}`. -/
def failedBytes (kind : String) (reason : JsString) : Bytes :=
  Cbor.head 5 3 ++ textBytes "ok" ++ Cbor.boolean false ++ textBytes "kind" ++ textBytes kind
    ++ textBytes "reason" ++ Cbor.textString (textEncoder reason)

/-- The bytes of `{kind: 'error', reason}`. -/
def errorBytes (reason : JsString) : Bytes :=
  Cbor.head 5 2 ++ textBytes "kind" ++ textBytes "error" ++ textBytes "reason"
    ++ Cbor.textString (textEncoder reason)

/-- The bytes of `{error}`, which stands for a reply without an encoding. -/
def unencodedBytes (text : JsString) : Bytes :=
  Cbor.head 5 1 ++ textBytes "error" ++ Cbor.textString (textEncoder text)

def Candidate.refusedBytes (reason : JsString) : Candidate → Bytes
  | .exec _ => failedBytes "exec" reason
  | .reveal _ => failedBytes "reveal" reason
  | .block _ _ => errorBytes reason

section

variable {codec : DagCbor}

theorem keyLE_of_shorter {name name' : String} {value value' : Bytes}
    (h : (textEncoder (js name)).length < (textEncoder (js name')).length) :
    Cbor.KeyLE (textEncoder (js name), value) (textEncoder (js name'), value') :=
  .inl h

/-- The body comes last in a frame, as its name is the longest. -/
theorem encode_frame (id : ℤ) (body : CanonicalValue) :
    codec.encodeCanonical (frameOf (js "res") id body)
      = (codec.encodeCanonical body).map fun bytes => envelope codec id ++ bytes := by
  have hid : codec.encodeNumber (.finite id)
      = some ((codec.encodeNumber (.finite id)).getD []) := by
    unfold DagCbor.encodeNumber
    dsimp only
    split
    · rfl
    · rfl
  simp only [frameOf, DagCbor.encodeCanonical, DagCbor.encodeFields]
  rw [hid]
  cases codec.encodeCanonical body with
  | none => rfl
  | some bytes =>
    have hordered : [(textEncoder (js "k"), Cbor.textString (textEncoder (js "res"))),
        (textEncoder (js "id"), (codec.encodeNumber (.finite id)).getD []),
        (textEncoder (js "body"), bytes)].Pairwise Cbor.KeyLE := by
      have hk : (textEncoder (js "k")).length < (textEncoder (js "id")).length := by decide
      have hid : (textEncoder (js "id")).length < (textEncoder (js "body")).length := by decide
      simp only [List.pairwise_cons, List.mem_cons, List.not_mem_nil, or_false, forall_eq_or_imp,
        forall_eq, List.Pairwise.nil, and_true, IsEmpty.forall_iff, implies_true]
      exact ⟨⟨keyLE_of_shorter hk, keyLE_of_shorter (hk.trans hid)⟩, keyLE_of_shorter hid⟩
    simp only [Option.bind_eq_bind, Option.bind_some, Option.map_some, pure]
    rw [Cbor.map, List.Pairwise.insertionSort_eq hordered]
    simp only [envelope, textBytes, Cbor.entry, List.flatMap_cons, List.flatMap_nil,
      List.append_nil, List.append_assoc, List.length_cons, List.length_nil]

theorem encode_failed (kind : String) (reason : JsString) :
    codec.encodeCanonical
        (.record [kindField kind, (js "ok", .bool false), (js "reason", .text reason)])
      = some (failedBytes kind reason) := by
  have hok : (textEncoder (js "ok")).length < (textEncoder (js "kind")).length := by decide
  have hkind : (textEncoder (js "kind")).length < (textEncoder (js "reason")).length := by decide
  have hlater : ∀ {value value' : Bytes}, ¬ Cbor.KeyLE (textEncoder (js "kind"), value)
      (textEncoder (js "ok"), value') := by
    intro value value' h
    rcases h with hshorter | ⟨hsame, -⟩
    · exact Nat.lt_asymm hok hshorter
    · exact hok.ne hsame.symm
  have hsorted : ∀ value value' value'' : Bytes,
      [(textEncoder (js "kind"), value), (textEncoder (js "ok"), value'),
          (textEncoder (js "reason"), value'')].insertionSort Cbor.KeyLE
        = [(textEncoder (js "ok"), value'), (textEncoder (js "kind"), value),
          (textEncoder (js "reason"), value'')] := by
    intro value value' value''
    simp only [List.insertionSort_cons, List.insertionSort_nil, List.orderedInsert_nil,
      List.orderedInsert_cons, if_neg hlater, if_pos (keyLE_of_shorter hkind),
      if_pos (keyLE_of_shorter (hok.trans hkind))]
  simp only [kindField, DagCbor.encodeCanonical, DagCbor.encodeFields, Option.bind_eq_bind,
    Option.bind_some, Option.map_some, pure, Cbor.map, hsorted]
  simp only [failedBytes, textBytes, Cbor.entry, List.flatMap_cons, List.flatMap_nil,
    List.append_nil, List.append_assoc, List.length_cons, List.length_nil]

theorem encode_error (reason : JsString) :
    codec.encodeCanonical (.record [kindField "error", (js "reason", .text reason)])
      = some (errorBytes reason) := by
  have hkind : (textEncoder (js "kind")).length < (textEncoder (js "reason")).length := by decide
  have hordered : ∀ value value' : Bytes,
      [(textEncoder (js "kind"), value), (textEncoder (js "reason"), value')].Pairwise
        Cbor.KeyLE := fun _ _ =>
    List.pairwise_pair.mpr (keyLE_of_shorter hkind)
  simp only [kindField, DagCbor.encodeCanonical, DagCbor.encodeFields, Option.bind_eq_bind,
    Option.bind_some, Option.map_some, pure, Cbor.map,
    List.Pairwise.insertionSort_eq (hordered _ _)]
  simp only [errorBytes, textBytes, Cbor.entry, List.flatMap_cons, List.flatMap_nil,
    List.append_nil, List.append_assoc, List.length_cons, List.length_nil]

theorem encode_unencoded (text : JsString) :
    codec.encodeCanonical (.record [(js "error", .text text)]) = some (unencodedBytes text) := by
  simp only [DagCbor.encodeCanonical, DagCbor.encodeFields, Option.bind_eq_bind, Option.bind_some,
    Option.map_some, pure, Cbor.map, List.insertionSort_cons, List.insertionSort_nil,
    List.orderedInsert_nil]
  simp only [unencodedBytes, textBytes, Cbor.entry, List.flatMap_cons, List.flatMap_nil,
    List.append_nil, List.append_assoc, List.length_cons, List.length_nil]

/-- A refusal always has an encoding. -/
theorem encode_refused (candidate : Candidate) (reason : JsString) :
    codec.encodeCanonical (encodeResponse (candidate.refused reason))
      = some (candidate.refusedBytes reason) := by
  cases candidate with
  | exec outcome => exact encode_failed "exec" reason
  | reveal outcome => exact encode_failed "reveal" reason
  | block bytes recorded => exact encode_error reason

end

/-! ## The two scans -/

/-- What lies in two runs lies in the second, or begins in the first. -/
theorem infix_append_iff {payload before body : Bytes} :
    payload <:+: before ++ body ↔
      (∃ start < before.length, payload <+: (before ++ body).drop start) ∨ payload <:+: body := by
  constructor
  · rintro ⟨front, rest, hsplit⟩
    have hdrop : (before ++ body).drop front.length = payload ++ rest := by
      rw [← hsplit, List.append_assoc, List.drop_left]
    by_cases hstart : front.length < before.length
    · exact .inl ⟨front.length, hstart, rest, hdrop.symm⟩
    · -- the run begins in the body
      right
      have hwithin : (before ++ body).drop front.length
          = body.drop (front.length - before.length) := by
        rw [List.drop_append, List.drop_eq_nil_of_le (by omega), List.nil_append]
      have hprefix : payload <+: body.drop (front.length - before.length) :=
        ⟨rest, by rw [← hdrop, hwithin]⟩
      exact hprefix.isInfix.trans (List.drop_suffix _ _).isInfix
  · rintro (⟨start, -, hprefix⟩ | hin)
    · exact hprefix.isInfix.trans (List.drop_suffix _ _).isInfix
    · exact hin.trans (List.suffix_append _ _).isInfix

section

variable (guard : EgressGuard)

/-- No registered payload lies in these bytes. -/
def Absent (bytes : Bytes) : Prop :=
  ∀ label kept, guard.guarded.get? label = some kept → kept.payload ≠ [] →
    ¬ kept.payload <:+: bytes

/-- A registered payload begins in the first `n` of these bytes. -/
def BeginsWithin (n : Nat) (bytes : Bytes) : Prop :=
  ∃ label kept, guard.guarded.get? label = some kept ∧ kept.payload ≠ [] ∧
    ∃ start < n, kept.payload <+: bytes.drop start

variable {guard}

theorem violationIn_append {before body : Bytes} :
    guard.violationIn (before ++ body) = none ↔
      ¬ BeginsWithin guard before.length (before ++ body) ∧ guard.violationIn body = none := by
  rw [EgressGuard.violationIn_eq_none, EgressGuard.violationIn_eq_none]
  constructor
  · intro h
    constructor
    · rintro ⟨label, kept, hget, hne, hbegins⟩
      exact h label kept hget hne (infix_append_iff.mpr (.inl hbegins))
    · intro label kept hget hne hin
      exact h label kept hget hne (infix_append_iff.mpr (.inr hin))
  · rintro ⟨hbegins, hbody⟩ label kept hget hne hin
    rcases infix_append_iff.mp hin with hbefore | hin
    · exact hbegins ⟨label, kept, hget, hne, hbefore⟩
    · exact hbody label kept hget hne hin

theorem violationIn_of_registrations_nil (h : guard.registrations = []) (frame : Bytes) :
    guard.violationIn frame = none := by
  have hentries : guard.guarded.entries = [] := List.map_eq_nil_iff.mp h
  rw [EgressGuard.violationIn, hentries]
  rfl

/-- A scan changes nothing that is guarded. -/
theorem violationIn_refuse (to_ : JsString) (bytes frame : Bytes) :
    (guard.refuse to_ bytes).2.violationIn frame = guard.violationIn frame := by
  have hguarded : (guard.refuse to_ bytes).2.guarded = guard.guarded := by
    unfold EgressGuard.refuse
    split
    · rfl
    · rfl
  rw [EgressGuard.violationIn, hguarded]
  rfl

end

/-! ## What leaves -/

section

variable {node : Replier} {guard : EgressGuard} {id : ℤ} {to_ : JsString} {candidate : Candidate}

variable {bytes : Bytes}

theorem rpc_encode {body : CanonicalValue} (h : node.codec.encodeCanonical body = some bytes) :
    node.rpc.encode (frameOf (js "res") id body) = .ok (envelope node.codec id ++ bytes) := by
  simp only [Replier.rpc, encode_frame, h, Option.map_some]

theorem encodeReply_some {body : CanonicalValue} (h : node.codec.encodeCanonical body = some bytes) :
    RpcEndpoint.encodeReply node.rpc id body = some (envelope node.codec id ++ bytes) := by
  rw [RpcEndpoint.encodeReply, rpc_encode h]

/-- Where a reply has no encoding, a named error stands for it. -/
theorem encodeReply_none {body : CanonicalValue} (h : node.codec.encodeCanonical body = none) :
    RpcEndpoint.encodeReply node.rpc id body
      = some (envelope node.codec id ++ unencodedBytes (js "reply rpc frame not encodable: "
          ++ node.detail (frameOf (js "res") id body))) := by
  have hframe : node.rpc.encode (frameOf (js "res") id body)
      = .error (node.detail (frameOf (js "res") id body)) := by
    simp only [Replier.rpc, encode_frame, h, Option.map_none]
  rw [RpcEndpoint.encodeReply, hframe]
  dsimp only
  rw [rpc_encode (encode_unencoded _)]
  rfl

/-- The exit scans the frame for what was registered when the reply was scanned. -/
theorem leaves_iff (hframe : RpcEndpoint.encodeReply node.rpc id
      (encodeResponse (replyTo node guard to_ candidate).1) = some bytes)
    (hscan : (replyTo node guard to_ candidate).2.violationIn bytes = guard.violationIn bytes) :
    Leaves node guard id to_ candidate ↔ guard.violationIn bytes = none := by
  have hsent : sendReply node guard id to_ candidate
      = some ((replyTo node guard to_ candidate).2.send to_ bytes).1 := by
    rw [sendReply, hframe]
    rfl
  rw [Leaves, hsent, ← hscan]
  constructor
  · rintro ⟨frame, h⟩
    exact (EgressGuard.send_ok.mp (Option.some.inj h)).1
  · intro h
    exact ⟨bytes, congrArg some (EgressGuard.send_ok.mpr ⟨h, rfl⟩)⟩

/-- What was scanned goes out as it is, or a refusal in its place. -/
theorem replyTo_unrecorded {body : Bytes} (hrecorded : candidate.recorded = none)
    (hbody : node.codec.encodeCanonical (encodeResponse candidate.response) = some body) :
    (replyTo node guard to_ candidate).1
        = ((guard.violationIn body).map fun label =>
            candidate.refused (egressRefused node label)).getD candidate.response ∧
      ∀ frame, (replyTo node guard to_ candidate).2.violationIn frame
        = guard.violationIn frame := by
  unfold replyTo refusedReason
  rw [hrecorded]
  dsimp only
  by_cases hregistrations : guard.registrations = []
  · rw [if_pos hregistrations, violationIn_of_registrations_nil hregistrations]
    exact ⟨rfl, fun _ => rfl⟩
  · rw [if_neg hregistrations, hbody]
    dsimp only
    have hscan := @violationIn_refuse guard to_ body
    cases hviolation : guard.violationIn body with
    | none =>
      have hnone : (guard.refuse to_ body).1 = none := by
        simp only [EgressGuard.refuse, hviolation]
      rw [hnone]
      exact ⟨rfl, hscan⟩
    | some label =>
      have hsome : (guard.refuse to_ body).1 = some label := by
        simp only [EgressGuard.refuse, hviolation]
      rw [hsome]
      exact ⟨rfl, hscan⟩

theorem replyTo_unencodable (hrecorded : candidate.recorded = none)
    (hbody : node.codec.encodeCanonical (encodeResponse candidate.response) = none) :
    replyTo node guard to_ candidate = (candidate.response, guard) := by
  unfold replyTo refusedReason
  rw [hrecorded]
  dsimp only
  by_cases hregistrations : guard.registrations = []
  · rw [if_pos hregistrations]
  · rw [if_neg hregistrations, hbody]

end

/-- Where the scanned body goes out, no registered payload begins before it; where anything else
    does, none lies in it or before it. -/
def Clear (node : Replier) (guard : EgressGuard) (id : ℤ) (candidate : Candidate) : Prop :=
  match candidate.recorded, node.codec.encodeCanonical (encodeResponse candidate.response) with
  | some cid, _ =>
    Absent guard (envelope node.codec id
      ++ candidate.refusedBytes (egressRefused node cid.toText))
  | none, none =>
    Absent guard (envelope node.codec id ++ unencodedBytes (js "reply rpc frame not encodable: "
      ++ node.detail (frameOf (js "res") id (encodeResponse candidate.response))))
  | none, some body =>
    match guard.violationIn body with
    | some label =>
      Absent guard (envelope node.codec id
        ++ candidate.refusedBytes (egressRefused node label))
    | none =>
      ¬ BeginsWithin guard (envelope node.codec id).length (envelope node.codec id ++ body)

/-- A reply leaves exactly where the registered payloads are clear of the bytes that were not
    scanned before it was sent. -/
theorem reply_leaves_iff (node : Replier) (guard : EgressGuard) (id : ℤ) (to_ : JsString)
    (candidate : Candidate) :
    Leaves node guard id to_ candidate ↔ Clear node guard id candidate := by
  unfold Clear
  cases hrecorded : candidate.recorded with
  | some cid =>
    have hreply : replyTo node guard to_ candidate
        = (candidate.refused (egressRefused node cid.toText), guard) := by
      rw [replyTo, hrecorded]
    rw [leaves_iff (encodeReply_some (by rw [hreply]; exact encode_refused candidate _))
      (by rw [hreply])]
    exact EgressGuard.violationIn_eq_none
  | none =>
    cases hbody : node.codec.encodeCanonical (encodeResponse candidate.response) with
    | none =>
      have hreply := @replyTo_unencodable node guard to_ candidate hrecorded hbody
      have hframe := @encodeReply_none node id _ hbody
      rw [leaves_iff (by rw [hreply]; exact hframe) (by rw [hreply])]
      exact EgressGuard.violationIn_eq_none
    | some body =>
      obtain ⟨hreply, hscan⟩ :=
        @replyTo_unrecorded node guard to_ candidate body hrecorded hbody
      dsimp only
      cases hviolation : guard.violationIn body with
      | some label =>
        rw [hviolation] at hreply
        rw [leaves_iff (encodeReply_some (by rw [hreply]; exact encode_refused candidate _))
          (hscan _)]
        exact EgressGuard.violationIn_eq_none
      | none =>
        rw [hviolation] at hreply
        rw [leaves_iff (encodeReply_some (by rw [hreply]; exact hbody)) (hscan _),
          violationIn_append]
        exact and_iff_left hviolation

/-- A node that holds the text `id` as a sovereign payload. -/
def holdingId : EgressGuard :=
  (EgressGuard.create (js "n") (js "o")).guard (js "c") [0x62, 0x69, 0x64]

def replyingNode : Replier := ⟨js "n", ⟨fun _ => [], fun _ => []⟩, fun _ => [], fun _ => none, 0⟩

/-- A run whose output is that text. -/
def answersId : Candidate := .exec (.ok (.text (js "id")) ⟨1, 0, 0, 0⟩ .signedByNobody)

/-- A frame names its own field so: the refusal of a reply that carries the payload does not leave
    either. -/
theorem named_refusal_stays :
    ¬ ∀ (node : Replier) (guard : EgressGuard) (id : ℤ) (to_ : JsString) (candidate : Candidate)
      (body : Bytes) (label : JsString), candidate.recorded = none →
      node.codec.encodeCanonical (encodeResponse candidate.response) = some body →
      guard.violationIn body = some label → Leaves node guard id to_ candidate := by
  intro hclaim
  have hhit : (replyingNode.codec.encodeCanonical (encodeResponse answersId.response)).bind
      holdingId.violationIn = some (js "c") := by
    decide +kernel
  obtain ⟨body, hbody, hviolation⟩ := Option.bind_eq_some_iff.mp hhit
  obtain ⟨frame, hleaves⟩ := hclaim replyingNode holdingId 1 (js "k") answersId body (js "c") rfl
    hbody hviolation
  have hstays : (sendReply replyingNode holdingId 1 (js "k") answersId).map Except.isOk
      = some false := by
    decide +kernel
  rw [hleaves] at hstays
  cases hstays

end O2Fabric.Net.NamedRefusal
