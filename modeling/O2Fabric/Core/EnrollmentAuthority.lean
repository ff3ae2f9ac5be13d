/-
  O2Fabric.Core.EnrollmentAuthority

  A provider that certifies nodes: its challenges, its two budgets, and the
  history they are counted in.

  The history is the host's and is reached through a port whose calls may
  throw.  Keys, signatures and the X.509 form are parameters.
-/

import O2Fabric.Core.Enrollment
import O2Fabric.Core.Platform
import O2Fabric.Lib.InsertionMap
import O2Fabric.Lib.SlidingWindow
import Mathlib.Data.List.Sort

namespace O2Fabric

open SlidingWindow

def DEFAULT_ISSUANCE_WINDOW_MS : ℚ := 3600000

def DEFAULT_MAX_PER_WINDOW : Nat := 64

def DEFAULT_CERTIFICATE_LIFETIME_MS : ℚ := 3600000

def ENROLLMENT_CHALLENGE_TTL_MS : ℚ := 60000

def operatorIdFor (userKey : JsString) : JsString := js "visitor:" ++ userKey.take 16

/-- What a node signs to prove it holds the private half of `nodeKey`. -/
def possessionChallenge (nodeKey userKey : JsString) : CanonicalValue :=
  .record [(js "purpose", .text (js "o2-enrol")), (js "nodeKey", .text nodeKey),
    (js "userKey", .text userKey)]

def challengeAnswerBytes (nonce nodeKey userKey : JsString) : CanonicalValue :=
  .record [(js "purpose", .text (js "o2-enrol-challenge")), (js "nonce", .text nonce),
    (js "nodeKey", .text nodeKey), (js "userKey", .text userKey)]

/-- What the provider signs with, and what it checks signatures with. -/
structure ProviderKeys where
  issuer : JsString
  /-- The signature over everything else the certificate says. -/
  sign : NodeCertificate → JsString
  /-- The X.509 form, where this provider issues it. -/
  x509 : Option (NodeCertificate → JsString)
  /-- `ed25519.verify(signature, message, key)`, `false` where it throws. -/
  verify : (signature : JsString) → (message : CanonicalValue) → (key : JsString) → Bool

inductive IssuanceBudget
  | issuesWithoutAnAggregateBudget
  | perWindow (limit : Nat)

/-- Where both budgets read their history.  A call that throws answers `none`. -/
structure IssuanceLedger (σ : Type) where
  issuedTo : σ → JsString → Option (List ℚ)
  issuedToAnybody : σ → Option (List ℚ)
  record : σ → JsString → ℚ → Option σ

structure AuthorityOptions where
  keys : ProviderKeys
  maxPerWindow : Nat := DEFAULT_MAX_PER_WINDOW
  maxIssuedPerWindow : IssuanceBudget
  windowMs : ℚ := DEFAULT_ISSUANCE_WINDOW_MS
  certificateLifetimeMs : ℚ := DEFAULT_CERTIFICATE_LIFETIME_MS
  challengeTtlMs : ℚ := ENROLLMENT_CHALLENGE_TTL_MS

namespace EnrollmentAuthority

variable {σ : Type} (p : Platform) (o : AuthorityOptions)

/-! ## Challenges -/

/-- The challenges minted and not spent, with the instant each stops being spendable. -/
abbrev Challenges := InsertionMap JsString ℚ

/-- A challenge with the nonce drawn for it.  What has expired is dropped. -/
def mintChallenge (challenges : Challenges) (now : ℚ) (nonce : JsString) :
    Challenges × EnrollmentChallenge :=
  let expired := challenges.entries.filter fun e => decide (e.2 ≤ now)
  let live := expired.foldl (fun live e => live.delete e.1) challenges
  let expiresAt := now + o.challengeTtlMs
  (live.set nonce expiresAt, ⟨nonce, expiresAt⟩)

def stale (why : JsString) : EnrollmentResult :=
  .refused (.staleChallenge o.challengeTtlMs)
    (js "enrolment challenge " ++ why ++ js "; ask this provider for another and answer it within "
      ++ p.numberText (.finite o.challengeTtlMs) ++ js "ms")

def notPossessed (request : EnrollmentRequest) : EnrollmentResult :=
  .refused (.badProofOfPossession request.nodeKey)
    (js "node " ++ request.nodeKey ++ js " did not prove possession of its key")

/-- Spend the challenge a request answers, or say why it could not be spent. -/
def redeemChallenge (challenges : Challenges) (request : EnrollmentRequest) (now : ℚ) :
    Challenges × Option EnrollmentResult :=
  match request.freshness with
  | .answersNoChallenge => (challenges, some (stale p o (js "was never asked for")))
  | .answer nonce proof =>
    match challenges.get? nonce with
    | none => (challenges, some (stale p o (js "is not one this provider is holding")))
    | some expiresAt =>
      if expiresAt ≤ now then (challenges, some (stale p o (js "expired")))
      else if o.keys.verify proof (challengeAnswerBytes nonce request.nodeKey request.userKey)
          request.nodeKey then (challenges.delete nonce, none)
      else (challenges, some (notPossessed request))

/-! ## Enrolment -/

/-- Possession of the node key, consent of the owner, and the operator identity. -/
def entitlement (request : EnrollmentRequest) : Option EnrollmentResult :=
  let challenge := possessionChallenge request.nodeKey request.userKey
  if o.keys.verify request.proofOfPossession challenge request.nodeKey = false then
    some (notPossessed request)
  else if o.keys.verify request.ownerProof challenge request.userKey = false then
    some (.refused (.badOwnerProof request.userKey)
      (js "user " ++ request.userKey ++ js " did not consent to node " ++ request.nodeKey
        ++ js " claiming their key"))
  else if request.operatorId ≠ operatorIdFor request.userKey then
    some (.refused (.operatorIdNotDerivable request.operatorId (operatorIdFor request.userKey))
      (js "this provider derives a node's operator identity from its user key and will not certify "
        ++ request.operatorId ++ js "; the only value it would sign for user " ++ request.userKey
        ++ js " is " ++ operatorIdFor request.userKey))
  else none

/-- `Math.min(...times)`, for times that are not none at all. -/
def oldest (times : List ℚ) : ℚ := times.min?.getD 0

def rateLimited (request : EnrollmentRequest) (now : ℚ) (recent : List ℚ) : EnrollmentResult :=
  .refused (.rateLimited request.userKey o.maxPerWindow o.windowMs
      (oldest recent + o.windowMs - now))
    (js "user " ++ request.userKey ++ js " has enrolled " ++ decimal recent.length
      ++ js " nodes in the last " ++ p.numberText (.finite o.windowMs) ++ js "ms (limit "
      ++ decimal o.maxPerWindow ++ js ")")

def budgetExhausted (limit : Nat) (now : ℚ) (issued : List ℚ) : EnrollmentResult :=
  .refused (.issuanceBudgetExhausted limit o.windowMs (oldest issued + o.windowMs - now))
    (js "this provider has issued " ++ decimal issued.length ++ js " certificates in the last "
      ++ p.numberText (.finite o.windowMs) ++ js "ms (limit " ++ decimal limit ++ js ")")

/-- What the certificate says, signed. -/
def certify (request : EnrollmentRequest) (now : ℚ) : NodeCertificate :=
  let fields : NodeCertificate := {
    nodeKey := request.nodeKey
    userKey := request.userKey
    operatorId := operatorIdFor request.userKey
    discoverability := request.discoverability
    relayIds := request.relayIds.insertionSort (· ≤ ·)
    issuedAt := now
    expiresAt := now + o.certificateLifetimeMs
    issuer := o.keys.issuer
    signature := []
    nextKeyCommitment := request.nextKeyCommitment }
  let unsigned := { fields with x509 := o.keys.x509.map fun (form : NodeCertificate → JsString) => form fields }
  { unsigned with signature := o.keys.sign unsigned }

/-- The refusal of the aggregate budget, `none` where the ledger throws. -/
def aggregate (ledger : IssuanceLedger σ) (history : σ) (now : ℚ) :
    Option (Option EnrollmentResult) :=
  match o.maxIssuedPerWindow with
  | .issuesWithoutAnAggregateBudget => some none
  | .perWindow limit => do
    let issued := recent o.windowMs now (← ledger.issuedToAnybody history)
    some (if limit ≤ issued.length then some (budgetExhausted p o limit now issued) else none)

/-- `enrol`, with the history it leaves; `none` where the ledger throws. -/
def enrol (ledger : IssuanceLedger σ) (history : σ) (request : EnrollmentRequest) (now : ℚ) :
    Option (σ × EnrollmentResult) :=
  match entitlement o request with
  | some refused => some (history, refused)
  | none => do
    let recent := recent o.windowMs now (← ledger.issuedTo history request.userKey)
    if o.maxPerWindow ≤ recent.length then
      some (history, rateLimited p o request now recent)
    else
      match ← aggregate p o ledger history now with
      | some refused => some (history, refused)
      | none =>
        -- recorded only on success
        let history ← ledger.record history request.userKey now
        some (history, .issued (certify o request now))

/-- `certifyFreshly`: the challenge first, and only then the enrolment. -/
def certifyFreshly (challenges : Challenges) (ledger : IssuanceLedger σ) (history : σ)
    (request : EnrollmentRequest) (now : ℚ) : Option (Challenges × σ × EnrollmentResult) :=
  match redeemChallenge p o challenges request now with
  | (challenges, some stale) => some (challenges, history, stale)
  | (challenges, none) => do
    let (history, result) ← enrol p o ledger history request now
    some (challenges, history, result)

/-! ## What an enrolment does -/

variable {p o} {challenges challenges' : Challenges} {ledger : IssuanceLedger σ}
  {history history' : σ} {request : EnrollmentRequest} {now : ℚ} {result : EnrollmentResult}

/-- A request that is certified: both budgets have room, and it is recorded. -/
structure Issues (p : Platform) (o : AuthorityOptions) (ledger : IssuanceLedger σ)
    (history history' : σ) (request : EnrollmentRequest) (now : ℚ) : Prop where
  user : ∃ times, ledger.issuedTo history request.userKey = some times ∧
    (recent o.windowMs now times).length < o.maxPerWindow
  anybody : ∀ limit, o.maxIssuedPerWindow = .perWindow limit →
    ∃ times, ledger.issuedToAnybody history = some times ∧
      (recent o.windowMs now times).length < limit
  recorded : ledger.record history request.userKey now = some history'

/-- A refusal, and the history it was refused over where that was the aggregate budget's. -/
structure Refuses (o : AuthorityOptions) (ledger : IssuanceLedger σ) (history : σ) (now : ℚ)
    (refusal : EnrollmentRefusal) : Prop where
  exhausted : ∀ limit windowMs retryAfterMs,
    refusal = .issuanceBudgetExhausted limit windowMs retryAfterMs →
    ∃ budget times, o.maxIssuedPerWindow = .perWindow budget ∧
      ledger.issuedToAnybody history = some times ∧ budget ≤ (recent o.windowMs now times).length

theorem entitlement_refuses {refused : EnrollmentResult} (h : entitlement o request = some refused) :
    ∃ refusal reason, refused = .refused refusal reason ∧ Refuses o ledger history now refusal := by
  unfold entitlement at h
  dsimp only at h
  split at h
  · cases h
    exact ⟨_, _, rfl, ⟨fun _ _ _ h => by cases h⟩⟩
  · split at h
    · cases h
      exact ⟨_, _, rfl, ⟨fun _ _ _ h => by cases h⟩⟩
    · split at h
      · cases h
        exact ⟨_, _, rfl, ⟨fun _ _ _ h => by cases h⟩⟩
      · cases h

theorem aggregate_cases {refused : Option EnrollmentResult}
    (h : aggregate p o ledger history now = some refused) :
    (refused = none ∧ ∀ limit, o.maxIssuedPerWindow = .perWindow limit →
      ∃ times, ledger.issuedToAnybody history = some times ∧
        (recent o.windowMs now times).length < limit) ∨
    ∃ refusal reason, refused = some (.refused refusal reason) ∧
      Refuses o ledger history now refusal := by
  unfold aggregate at h
  split at h
  case h_1 hnone =>
    cases h
    exact Or.inl ⟨rfl, fun limit hlimit => by cases hnone.symm.trans hlimit⟩
  case h_2 budget hbudget =>
    obtain ⟨times, htimes, h⟩ := Option.bind_eq_some_iff.mp h
    cases h
    split
    case isTrue hfull =>
      exact Or.inr ⟨_, _, rfl, ⟨fun _ _ _ _ => ⟨budget, times, hbudget, htimes, hfull⟩⟩⟩
    case isFalse hroom =>
      refine Or.inl ⟨rfl, ?_⟩
      intro limit hlimit
      cases hbudget.symm.trans hlimit
      exact ⟨times, htimes, Nat.lt_of_not_le hroom⟩

/-- A request is refused and the history stays, or it is certified and recorded. -/
theorem enrol_cases (h : enrol p o ledger history request now = some (history', result)) :
    (history' = history ∧ ∃ refusal reason, result = .refused refusal reason ∧
      Refuses o ledger history now refusal) ∨
    result = .issued (certify o request now) ∧ Issues p o ledger history history' request now := by
  unfold enrol at h
  split at h
  case h_1 refused hrefused =>
    cases h
    exact Or.inl ⟨rfl, entitlement_refuses hrefused⟩
  case h_2 =>
    obtain ⟨times, htimes, h⟩ := Option.bind_eq_some_iff.mp h
    dsimp only at h
    split at h
    · cases h
      exact Or.inl ⟨rfl, _, _, rfl, ⟨fun _ _ _ h => by cases h⟩⟩
    · next hroom =>
      obtain ⟨refused, haggregate, h⟩ := Option.bind_eq_some_iff.mp h
      rcases aggregate_cases haggregate with ⟨rfl, hanybody⟩ | ⟨refusal, reason, rfl, hrefuses⟩
      · obtain ⟨recorded, hrecorded, h⟩ := Option.bind_eq_some_iff.mp h
        cases h
        exact Or.inr ⟨rfl, ⟨times, htimes, Nat.lt_of_not_le hroom⟩, hanybody, hrecorded⟩
      · cases h
        exact Or.inl ⟨rfl, _, _, rfl, hrefuses⟩

/-- What is certified was asked for by the holders of both keys. -/
theorem entitlement_of_issued {certificate : NodeCertificate}
    (h : enrol p o ledger history request now = some (history', .issued certificate)) :
    entitlement o request = none := by
  cases hentitled : entitlement o request with
  | none => rfl
  | some refused =>
    have hrefuses : ∃ refusal reason, refused = .refused refusal reason ∧
        Refuses o ledger history now refusal := entitlement_refuses hentitled
    obtain ⟨refusal, reason, hrefused, -⟩ := hrefuses
    unfold enrol at h
    rw [hentitled, hrefused] at h
    cases h

theorem redeemChallenge_refuses
    (h : redeemChallenge p o challenges request now = (challenges', some result)) :
    ∃ refusal reason, result = .refused refusal reason ∧ Refuses o ledger history now refusal := by
  unfold redeemChallenge at h
  split at h
  · cases h
    exact ⟨_, _, rfl, ⟨fun _ _ _ h => by cases h⟩⟩
  · split at h
    · cases h
      exact ⟨_, _, rfl, ⟨fun _ _ _ h => by cases h⟩⟩
    · split at h
      · cases h
        exact ⟨_, _, rfl, ⟨fun _ _ _ h => by cases h⟩⟩
      · split at h
        · cases h
        · cases h
          exact ⟨_, _, rfl, ⟨fun _ _ _ h => by cases h⟩⟩

/-- The same for a request whose challenge is redeemed first. -/
theorem certifyFreshly_cases
    (h : certifyFreshly p o challenges ledger history request now
      = some (challenges', history', result)) :
    (history' = history ∧ ∃ refusal reason, result = .refused refusal reason ∧
      Refuses o ledger history now refusal) ∨
    result = .issued (certify o request now) ∧ Issues p o ledger history history' request now := by
  unfold certifyFreshly at h
  split at h
  case h_1 redeemed stale hstale =>
    cases h
    exact Or.inl ⟨rfl, redeemChallenge_refuses hstale⟩
  case h_2 =>
    obtain ⟨⟨enrolled, answer⟩, henrol, h⟩ := Option.bind_eq_some_iff.mp h
    cases h
    exact enrol_cases henrol

end EnrollmentAuthority

end O2Fabric
