/-
  O2Fabric.Libp2p.PeerVerifier

  One verdict per peer, from the certificate it presents.

  One event is what runs between two turns of the event loop: a peer that
  connects or disconnects, a call of `verify`, a read of `verifiedPeers`, and
  the turns of an ask (its cache answers, its peer answers, the certificate is
  saved, its verdict settles).  The set of connected peers changes with the
  event that tells of it, except that a peer may arrive unseen, before the
  listeners are attached.  `start` asks about those with `verify`.

  An event in which the clock is read carries the readings.  `connection`,
  which counts a peer's connections, and what an ask keeps of its connection
  and of the certificate it accepted are read by no step.

  The verifier pins somebody: one that pins nobody attaches no listeners.
-/

import O2Fabric.Net.Protocol

namespace O2Fabric.Libp2p

open O2Fabric.Net.Protocol

/-! ## Verdicts -/

/-- Why a peer is not a verified peer. -/
inductive PeerFailure
  | certificate (failure : CertificateFailure)
  | nodeKeyMismatch (expected presented : JsString)
  | noRecords (nodeKey : JsString)
  | unidentifiablePeer (peerId : JsString)
  | unanswerablePeer (peerId detail : JsString)
  | unreachable (peerId detail : JsString)

def PeerFailure.kind : PeerFailure → JsString
  | .certificate failure => failure.kind
  | .nodeKeyMismatch _ _ => js "nodeKey-mismatch"
  | .noRecords _ => js "no-records"
  | .unidentifiablePeer _ => js "unidentifiable-peer"
  | .unanswerablePeer _ _ => js "unanswerable-peer"
  | .unreachable _ _ => js "unreachable"

inductive PeerVerdict
  | accepted (certificate : NodeCertificate)
  | refused (failure : PeerFailure) (reason : JsString)

def PeerVerdict.ok : PeerVerdict → Bool
  | .accepted _ => true
  | .refused _ _ => false

/-- The refusals that cannot become an acceptance while the connection lives. -/
def FINAL : List JsString :=
  [js "unidentifiable-peer", js "nodeKey-mismatch", js "bad-signature", js "untrusted-issuer",
    js "x509-not-hex", js "x509-profile-refused", js "x509-mismatch", js "x509-bad-signature"]

def DEFAULT_VERDICT_RETRY_FLOOR_MS : ℚ := 5000

/-- The kind of a response, as its frame names it. -/
def responseKind : AgentResponse → JsString
  | .exec _ => js "exec"
  | .commit _ => js "commit"
  | .reveal _ => js "reveal"
  | .block _ => js "block"
  | .providers _ => js "providers"
  | .records _ => js "records"
  | .offer _ _ _ _ => js "offer"
  | .reservations _ => js "reservations"
  | .report _ _ => js "report"
  | .combine _ _ _ => js "combine"
  | .enrol _ => js "enrol"
  | .enrolChallenge _ => js "enrol-challenge"
  | .error _ => js "error"

structure PeerVerifierOptions where
  trustedIssuers : List JsString
  retryFloorMs : ℚ := DEFAULT_VERDICT_RETRY_FLOOR_MS
  certificates : Bool
  nodeKeyForPeerId : JsString → Option JsString
  checks : CertificateChecks

/-! ## Asks -/

/-- Where a certificate that was accepted came from. -/
inductive CertificateSource
  | cache
  | peer
  deriving DecidableEq

/-- A certificate that was accepted, and the clock reading it was checked at. -/
structure Evidence where
  source : CertificateSource
  certificate : NodeCertificate
  now : ℚ

/-- How far one ask has got. -/
inductive AskStage
  /-- The cache is asked for the expected key's certificate. -/
  | loading (expected : JsString)
  | requesting (expected : JsString)
  | saving (certificate : NodeCertificate)
  | decided (verdict : PeerVerdict)
  | settled (verdict : PeerVerdict)

/-- Which ask it is: whom it asks, in which of the peer's connections, and when. -/
structure AskKey where
  peer : JsString
  generation : Nat
  connection : Nat
  at_ : ℚ

structure Ask extends AskKey where
  evidence : Option Evidence
  stage : AskStage

/-- The most recent ask of a peer. -/
structure LastAsk where
  generation : Nat
  at_ : ℚ

structure PeerVerifier where
  stopped : Bool
  connected : List JsString
  connection : JsString → Nat
  /-- The ask, by its generation, that callers share. -/
  inFlight : InsertionMap JsString Nat
  verdicts : InsertionMap JsString PeerVerdict
  lastAsk : InsertionMap JsString LastAsk
  generations : Nat
  asks : List Ask
  clock : ℚ

namespace PeerVerifier

variable (p : Platform) (c : PeerVerifierOptions)

def start (clock : ℚ) : PeerVerifier :=
  ⟨false, [], fun _ => 0, .empty, .empty, .empty, 0, [], clock⟩

def unidentifiable (peer : JsString) : PeerVerdict :=
  .refused (.unidentifiablePeer peer)
    (js "peer id " ++ peer ++ js " names no Ed25519 key, so no node key can be expected of it")

def unaskable (peer detail : JsString) : PeerVerdict :=
  .refused (.unreachable peer detail)
    (js "peer " ++ peer ++ js " could not be asked for its records: " ++ detail)

def unanswerable (peer detail : JsString) : PeerVerdict :=
  .refused (.unanswerablePeer peer detail)
    (js "peer " ++ peer ++ js " answered a records request with " ++ detail)

/-- `#accept`: the key the peer authenticated with, and then the certificate. -/
def accept (peer expected : JsString) (certificate : NodeCertificate) (now : ℚ) : PeerVerdict :=
  if certificate.nodeKey ≠ expected then
    .refused (.nodeKeyMismatch expected certificate.nodeKey)
      (js "peer " ++ peer ++ js " presented a certificate for " ++ certificate.nodeKey
        ++ js ", but its peer id implies " ++ expected)
  else
    match certificateFailure c.checks certificate c.trustedIssuers now with
    | some failure => .refused (.certificate failure) (failure.reason p)
    | none => .accepted certificate

/-- What `#decide` makes of the peer's answer; `error` is a request that was rejected. -/
def answered (peer expected : JsString) (reply : Except JsString CanonicalValue) (now : ℚ) :
    PeerVerdict :=
  match reply with
  | .error detail => unaskable peer detail
  | .ok body =>
    match parseResponse body with
    | none => unanswerable peer (js "an unparseable frame")
    | some (.records none) =>
      .refused (.noRecords expected)
        (js "peer " ++ peer ++ js " holds no records for " ++ expected)
    | some (.records (some records)) => accept p c peer expected records.certificate now
    | some response => unanswerable peer (js "a " ++ responseKind response ++ js " frame")

/-- `#decide` up to its first wait. -/
def firstStage (peer : JsString) : AskStage :=
  match c.nodeKeyForPeerId peer with
  | none => .decided (unidentifiable peer)
  | some expected => if c.certificates = true then .loading expected else .requesting expected

/-! ## Asking -/

/-- A new ask, which the callers from now on share. -/
def issue (s : PeerVerifier) (peer : JsString) (now : ℚ) : PeerVerifier :=
  let generation := s.generations + 1
  { s with
    generations := generation
    lastAsk := s.lastAsk.set peer ⟨generation, now⟩
    asks := s.asks ++ [⟨⟨peer, generation, s.connection peer, now⟩, none, firstStage c peer⟩]
    inFlight := s.inFlight.set peer generation }

def verify (s : PeerVerifier) (peer : JsString) (now : ℚ) : PeerVerifier :=
  if s.inFlight.has peer then s else s.issue c peer now

/-- The cache has answered; `none` is also a cache that could not be read. -/
def loaded (s : PeerVerifier) (ask : Nat) (remembered : Option NodeCertificate) (now : ℚ) :
    Option PeerVerifier :=
  match s.asks[ask]? with
  | some a =>
    match a.stage with
    | .loading expected =>
      -- a certificate that is refused is not the peer's answer, so the peer is asked
      let next : Ask :=
        match remembered with
        | none => { a with stage := .requesting expected }
        | some certificate =>
          match accept p c a.peer expected certificate now with
          | .accepted certificate =>
            { a with
              stage := .decided (.accepted certificate)
              evidence := some ⟨.cache, certificate, now⟩ }
          | .refused _ _ => { a with stage := .requesting expected }
      some { s with asks := s.asks.set ask next }
    | _ => none
  | none => none

/-- The peer has answered, or cannot. -/
def replied (s : PeerVerifier) (ask : Nat) (reply : Except JsString CanonicalValue) (now : ℚ) :
    Option PeerVerifier :=
  match s.asks[ask]? with
  | some a =>
    match a.stage with
    | .requesting expected =>
      let next : Ask :=
        match answered p c a.peer expected reply now with
        | .accepted certificate =>
          { a with
            stage :=
              if c.certificates = true then .saving certificate
              else .decided (.accepted certificate)
            evidence := some ⟨.peer, certificate, now⟩ }
        | .refused failure reason => { a with stage := .decided (.refused failure reason) }
      some { s with asks := s.asks.set ask next }
    | _ => none
  | none => none

/-- The certificate is in the cache, or the cache cannot be written. -/
def saved (s : PeerVerifier) (ask : Nat) : Option PeerVerifier :=
  match s.asks[ask]? with
  | some a =>
    match a.stage with
    | .saving certificate =>
      some { s with asks := s.asks.set ask { a with stage := .decided (.accepted certificate) } }
    | _ => none
  | none => none

/-- Something below has thrown. -/
def threw (s : PeerVerifier) (ask : Nat) (detail : JsString) : Option PeerVerifier :=
  match s.asks[ask]? with
  | some a =>
    let next : Ask := { a with stage := .decided (unaskable a.peer detail) }
    match a.stage with
    | .loading _ => some { s with asks := s.asks.set ask next }
    | .requesting _ => some { s with asks := s.asks.set ask next }
    | _ => none
  | none => none

/-- The verdict settles, and stands if the ask is still the peer's most recent one. -/
def settle (s : PeerVerifier) (ask : Nat) : Option PeerVerifier :=
  match s.asks[ask]? with
  | some a =>
    match a.stage with
    | .decided verdict =>
      let asks := s.asks.set ask { a with stage := .settled verdict }
      if (s.lastAsk.get? a.peer).map LastAsk.generation = some a.generation then
        some { s with asks := asks, verdicts := s.verdicts.set a.peer verdict }
      else some { s with asks := asks }
    | _ => none
  | none => none

/-! ## Reading -/

/-- The readings of the clock in one `#refresh`. -/
structure Readings where
  expiry : ℚ
  floor : ℚ
  asked : ℚ

def demoteIfExpired (s : PeerVerifier) (peer : JsString) (settled : PeerVerdict) (now : ℚ) :
    PeerVerifier × PeerVerdict :=
  match settled with
  | .refused failure reason => (s, .refused failure reason)
  | .accepted certificate =>
    if now < certificate.expiresAt then (s, .accepted certificate)
    else
      match certificateFailure c.checks certificate c.trustedIssuers now with
      | none => (s, .accepted certificate)
      | some failure =>
        let demoted := PeerVerdict.refused (.certificate failure) (failure.reason p)
        ({ s with verdicts := s.verdicts.set peer demoted }, demoted)

/-- A new ask instead of the one that is shared, outside of the retry floor. -/
def askAgain (s : PeerVerifier) (peer : JsString) (r : Readings) : PeerVerifier :=
  if r.floor - ((s.lastAsk.get? peer).map LastAsk.at_).getD 0 < c.retryFloorMs then s
  else { s with inFlight := s.inFlight.delete peer }.verify c peer r.asked

/-- Ask again about one peer, if asking again could change the answer. -/
def refresh (s : PeerVerifier) (peer : JsString) (r : Readings) : PeerVerifier :=
  if s.stopped then s
  else
    match s.verdicts.get? peer with
    | none => s.verify c peer r.asked
    | some settled =>
      let standing := s.demoteIfExpired p c peer settled r.expiry
      match standing.2 with
      | .accepted _ => standing.1
      | .refused failure _ =>
        if failure.kind ∈ FINAL then standing.1 else standing.1.askAgain c peer r

/-- `#refresh` of one peer after another, while the clock goes on. -/
def refreshAll (s : PeerVerifier) : List JsString → List Readings → Option PeerVerifier
  | [], [] => some s
  | peer :: peers, r :: readings =>
    if s.clock ≤ r.expiry ∧ r.expiry ≤ r.floor ∧ r.floor ≤ r.asked then
      refreshAll { s.refresh p c peer r with clock := r.asked } peers readings
    else none
  | _, _ => none

/-- What a read of `verifiedPeers` answers, after its refreshes. -/
def verifiedPeers (s : PeerVerifier) : List JsString :=
  if c.trustedIssuers = [] then s.connected
  else s.connected.filter fun peer => (s.verdicts.get? peer).any PeerVerdict.ok

/-! ## Events -/

/-- The peer connects; `seen` is whether the listener is told. -/
def connect (s : PeerVerifier) (peer : JsString) (seen : Bool) (now : ℚ) : Option PeerVerifier :=
  if peer ∈ s.connected then none
  else
    let s := { s with
      connected := s.connected ++ [peer]
      connection := fun other => if other = peer then s.connection peer + 1 else s.connection other }
    if seen = true ∧ s.stopped = false then some (s.verify c peer now) else some s

def disconnect (s : PeerVerifier) (peer : JsString) : Option PeerVerifier :=
  if peer ∉ s.connected then none
  else
    let s := { s with connected := s.connected.erase peer }
    if s.stopped then some s
    else
      some { s with
        inFlight := s.inFlight.delete peer
        verdicts := s.verdicts.delete peer
        lastAsk := s.lastAsk.delete peer }

inductive Event
  | connect (peer : JsString) (seen : Bool) (now : ℚ)
  | disconnect (peer : JsString)
  | verify (peer : JsString) (now : ℚ)
  | read (readings : List Readings)
  | loaded (ask : Nat) (remembered : Option NodeCertificate) (now : ℚ)
  | replied (ask : Nat) (reply : Except JsString CanonicalValue) (now : ℚ)
  | saved (ask : Nat)
  | threw (ask : Nat) (detail : JsString)
  | settle (ask : Nat)
  | stop

/-- The clock at the event's reading; it does not go back. -/
def reads (s : PeerVerifier) (now : ℚ) : Option PeerVerifier :=
  if s.clock ≤ now then some { s with clock := now } else none

/-- One event; `none` is one that cannot happen. -/
def step (s : PeerVerifier) : Event → Option PeerVerifier
  | .connect peer seen now => do (← s.reads now).connect c peer seen now
  | .disconnect peer => s.disconnect peer
  | .verify peer now => do some ((← s.reads now).verify c peer now)
  | .read readings =>
    if c.trustedIssuers = [] then some s else s.refreshAll p c s.connected readings
  | .loaded ask remembered now => do (← s.reads now).loaded p c ask remembered now
  | .replied ask reply now => do (← s.reads now).replied p c ask reply now
  | .saved ask => s.saved ask
  | .threw ask detail => s.threw ask detail
  | .settle ask => s.settle ask
  | .stop => some { s with stopped := true }

end PeerVerifier

end O2Fabric.Libp2p
