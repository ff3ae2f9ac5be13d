/-
  O2Fabric.Cloudflare.HostedEnrolment

  Certificates issued by a hosted object, whose issuance history is in its
  storage: two rows are read before the authority is asked and written back
  after it has certified.

  One event is what runs between two awaits of a request, so that requests
  interleave at every await.  A request whose put has failed is over, and the
  put has been carried out or has not.  An eviction takes everything that is
  not in the storage; a put that an eviction overtakes is one that failed just
  before it.
-/

import O2Fabric.Core.EnrollmentAuthority
import O2Fabric.Lib.Modify

namespace O2Fabric.Cloudflare

open EnrollmentAuthority

/-! ## Rows -/

def RETAINED_ISSUANCE_MS : ℚ := DEFAULT_ISSUANCE_WINDOW_MS * 2

def MAX_AGGREGATE_BUDGET : Nat := 2048

/-- The budget of a deployment that issues. -/
structure HostedBudget where
  maxIssuedPerWindow : Nat
  positive : 0 < maxIssuedPerWindow
  atMost : maxIssuedPerWindow ≤ MAX_AGGREGATE_BUDGET

/-- What `JSON.parse` makes of a stored row. -/
inductive StoredRow
  /-- It throws, or the value is no array. -/
  | unreadable
  /-- An array, where what is not a finite number is `none`. -/
  | array (elements : List (Option ℚ))

def timestamps : Option StoredRow → List ℚ
  | some (.array elements) => elements.filterMap id
  | _ => []

def encode (values : List ℚ) : StoredRow := .array (values.map some)

theorem timestamps_encode (values : List ℚ) : timestamps (some (encode values)) = values := by
  show (values.map some).filterMap id = values
  rw [List.filterMap_map]
  exact List.filterMap_some

/-- Timestamps newer than the retention bound, oldest first. -/
def retained (row : Option StoredRow) (now : ℚ) : List ℚ :=
  ((timestamps row).filter fun at_ => decide (now - RETAINED_ISSUANCE_MS ≤ at_)).insertionSort
    (· ≤ ·)

/-- The two rows of one request. -/
inductive Row
  | anybody
  | forUser
  deriving DecidableEq

structure HostedProvider (κ : Type) where
  platform : Platform
  keys : ProviderKeys
  budget : HostedBudget
  reserved : List JsString
  /-- `new Key(path)`. -/
  newKey : JsString → κ

namespace HostedProvider

variable {κ : Type} (c : HostedProvider κ)

def ISSUANCE_JOURNAL_KEY : κ := c.newKey (js "/journal/issuance")

def issuanceKeyFor (userKey : JsString) : κ :=
  c.newKey (js "/journal/issuance-user/" ++ userKey)

def keyOf (userKey : JsString) : Row → κ
  | .anybody => c.ISSUANCE_JOURNAL_KEY
  | .forUser => c.issuanceKeyFor userKey

/-- The path of a user's row is another than that of everybody's. -/
def KeysApart : Prop := ∀ userKey, c.issuanceKeyFor userKey ≠ c.ISSUANCE_JOURNAL_KEY

def authority : AuthorityOptions where
  keys := c.keys
  maxIssuedPerWindow := .perWindow c.budget.maxIssuedPerWindow

end HostedProvider

/-! ## The ledger -/

/-- One request's history. -/
structure LoadedIssuance where
  userKey : JsString
  anybody : List ℚ
  forUser : List ℚ

def LoadedIssuance.row (loaded : LoadedIssuance) : Row → List ℚ
  | .anybody => loaded.anybody
  | .forUser => loaded.forUser

/-- The ledger the authority holds; its contents are swapped per request. -/
structure HostedIssuance where
  current : Option LoadedIssuance
  recorded : Bool

namespace HostedIssuance

def bind (loaded : LoadedIssuance) : HostedIssuance := ⟨some loaded, false⟩

def clear : HostedIssuance := ⟨none, false⟩

def issuedTo (ledger : HostedIssuance) (userKey : JsString) : Option (List ℚ) := do
  let loaded ← ledger.current
  some (if userKey = loaded.userKey then loaded.forUser else [])

/-- A reserved key does not see the shared window. -/
def issuedToAnybody (reserved : List JsString) (ledger : HostedIssuance) : Option (List ℚ) := do
  let loaded ← ledger.current
  some (if loaded.userKey ∈ reserved then [] else loaded.anybody)

/-- Nor does it consume it. -/
def record (reserved : List JsString) (ledger : HostedIssuance) (userKey : JsString) (at_ : ℚ) :
    Option HostedIssuance := do
  let loaded ← ledger.current
  some ⟨some { loaded with
    anybody := if loaded.userKey ∈ reserved then loaded.anybody else loaded.anybody ++ [at_]
    forUser := if userKey = loaded.userKey then loaded.forUser ++ [at_] else loaded.forUser }, true⟩

def port (reserved : List JsString) : IssuanceLedger HostedIssuance where
  issuedTo := issuedTo
  issuedToAnybody := issuedToAnybody reserved
  record := record reserved

/-- What `flush` writes, if it writes. -/
def flush (ledger : HostedIssuance) : Option LoadedIssuance :=
  if ledger.recorded then ledger.current else none

end HostedIssuance

/-! ## Requests -/

/-- How far the read of one row has got. -/
inductive Read
  | asking
  | reading
  | done (values : List ℚ)

inductive Stage
  | loading (reads : Row → Read)
  /-- A put of this row is under way. -/
  | writing (row : Row) (loaded : LoadedIssuance) (result : EnrollmentResult)
  | replying (result : EnrollmentResult)
  | finished

def Stage.isWriting : Stage → Bool
  | .writing _ _ _ => true
  | _ => false

/-- An `enrol` request, and the clock's reading it is certified at. -/
structure Call where
  request : EnrollmentRequest
  now : ℚ
  /-- No row was being written when it began, and none has been since. -/
  alone : Bool
  stage : Stage

structure Answer where
  request : EnrollmentRequest
  result : EnrollmentResult

structure HostedObject (κ : Type) where
  challenges : Challenges
  ledger : HostedIssuance
  calls : List Call
  rows : κ → Option StoredRow
  clock : ℚ
  /-- The certificates signed, and the requests answered, the latest first. -/
  signed : List NodeCertificate
  answers : List Answer

namespace HostedObject

variable {κ : Type} [DecidableEq κ] (c : HostedProvider κ)

/-- An object over some storage, with no request under way. -/
def start (rows : κ → Option StoredRow) (clock : ℚ) : HostedObject κ :=
  ⟨.empty, .clear, [], rows, clock, [], []⟩

variable (s : HostedObject κ)

def write (key : κ) (row : StoredRow) : κ → Option StoredRow :=
  fun other => if other = key then some row else s.rows other

def setStage (i : Nat) (call : Call) (stage : Stage) : List Call :=
  s.calls.set i { call with stage }

/-- A request arrives: the clock is read, and its rows are asked for. -/
def begins (request : EnrollmentRequest) (now : ℚ) : Option (HostedObject κ) :=
  if s.clock ≤ now then
    let alone := !s.calls.any fun call => call.stage.isWriting
    some { s with
      calls := s.calls ++ [⟨request, now, alone, .loading fun _ => .asking⟩]
      clock := now }
  else none

/-- `store.has` has settled for one row. -/
def checked (i : Nat) (row : Row) (ok : Bool) : Option (HostedObject κ) := do
  let call ← s.calls[i]?
  match call.stage with
  | .loading reads =>
    match reads row with
    | .asking =>
      if ok then
        let read := if (s.rows (c.keyOf call.request.userKey row)).isSome then Read.reading
          else .done []
        some { s with calls := s.setStage i call (.loading (Function.update reads row read)) }
      else some { s with calls := s.setStage i call .finished }
    | _ => none
  | _ => none

/-- `store.get` has settled for one row.  One that throws reads as no history. -/
def got (i : Nat) (row : Row) (ok : Bool) : Option (HostedObject κ) := do
  let call ← s.calls[i]?
  match call.stage with
  | .loading reads =>
    match reads row with
    | .reading =>
      let values := if ok then retained (s.rows (c.keyOf call.request.userKey row)) call.now
        else []
      some { s with
        calls := s.setStage i call (.loading (Function.update reads row (.done values))) }
    | _ => none
  | _ => none

/-- Both rows are there: the ledger is bound, the authority asked, and what it recorded
    begins to be written. -/
def certifies (i : Nat) : Option (HostedObject κ) := do
  let call ← s.calls[i]?
  match call.stage with
  | .loading reads =>
    match reads .anybody, reads .forUser with
    | .done anybody, .done forUser =>
      match certifyFreshly c.platform c.authority s.challenges (HostedIssuance.port c.reserved)
          (.bind ⟨call.request.userKey, anybody, forUser⟩) call.request call.now with
      -- the authority threw
      | none => some { s with ledger := .clear, calls := s.setStage i call .finished }
      | some (challenges, ledger, result) =>
        match ledger.flush with
        | none => some { s with
            challenges, ledger, calls := s.setStage i call (.replying result) }
        | some loaded =>
          let calls := s.setStage i call (.writing .anybody loaded result)
          let signed := match result with
            | .issued certificate => certificate :: s.signed
            | .refused _ _ => s.signed
          some { s with
            challenges, ledger, signed
            calls := calls.map fun call => { call with alone := false } }
    | _, _ => none
  | _ => none

inductive Put
  | acknowledged
  | failedWritten
  | failedUnwritten
  deriving DecidableEq

/-- A put of `flush` has settled. -/
def put (i : Nat) (outcome : Put) : Option (HostedObject κ) := do
  let call ← s.calls[i]?
  match call.stage with
  | .writing row loaded result =>
    let key := c.keyOf loaded.userKey row
    let rows := if outcome = .failedUnwritten then s.rows
      else s.write key (encode (loaded.row row))
    if outcome = .acknowledged then
      let next := match row with
        | .anybody => Stage.writing .forUser loaded result
        | .forUser => .replying result
      some { s with rows, calls := s.setStage i call next }
    else some { s with rows, ledger := .clear, calls := s.setStage i call .finished }
  | _ => none

/-- The request is answered, and the ledger unbound. -/
def replies (i : Nat) : Option (HostedObject κ) := do
  let call ← s.calls[i]?
  match call.stage with
  | .replying result => some { s with
      ledger := .clear
      calls := s.setStage i call .finished
      answers := ⟨call.request, result⟩ :: s.answers }
  | _ => none

/-- An `enrol-challenge` request, with the nonce drawn for it. -/
def challenged (now : ℚ) (nonce : JsString) : Option (HostedObject κ) :=
  if s.clock ≤ now then
    some { s with
      challenges := (mintChallenge c.authority s.challenges now nonce).1
      clock := now }
  else none

/-- The object is evicted, and built again over its storage. -/
def evicted : HostedObject κ := { s with challenges := .empty, ledger := .clear, calls := [] }

/-! ## Events -/

inductive Event
  | begins (request : EnrollmentRequest) (now : ℚ)
  | checked (call : Nat) (row : Row) (ok : Bool)
  | got (call : Nat) (row : Row) (ok : Bool)
  | certifies (call : Nat)
  | put (call : Nat) (outcome : Put)
  | replies (call : Nat)
  | challenged (now : ℚ) (nonce : JsString)
  | evicted

def step (s : HostedObject κ) : Event → Option (HostedObject κ)
  | .begins request now => s.begins request now
  | .checked i row ok => s.checked c i row ok
  | .got i row ok => s.got c i row ok
  | .certifies i => s.certifies c i
  | .put i outcome => s.put c i outcome
  | .replies i => s.replies i
  | .challenged now nonce => s.challenged c now nonce
  | .evicted => some s.evicted

end HostedObject

end O2Fabric.Cloudflare

/-! # Requests

What one request does to the list of requests, and what comes of the one
that asks the authority: `certifies_cases`.
-/

namespace O2Fabric.Cloudflare

open EnrollmentAuthority SlidingWindow

def certificateOf : EnrollmentResult → Option NodeCertificate
  | .issued certificate => some certificate
  | .refused _ _ => none

/-- The certificate a request is about to be answered with. -/
def Stage.ready : Stage → Option NodeCertificate
  | .replying result => certificateOf result
  | _ => none

/-- The certificate a request may come to be answered with. -/
def Stage.promised : Stage → Option NodeCertificate
  | .replying result => certificateOf result
  | .writing _ _ result => certificateOf result
  | _ => none

/-- When the certificates to keys outside the reserved lane were issued. -/
def HostedProvider.issuedToOthers {κ : Type} (c : HostedProvider κ) (certificates : List NodeCertificate) : List ℚ :=
  (certificates.filter fun certificate => decide (certificate.userKey ∉ c.reserved)).map
    NodeCertificate.issuedAt

theorem HostedProvider.issuedToOthers_cons {κ : Type} (c : HostedProvider κ)
    {certificate : NodeCertificate} (hopen : certificate.userKey ∉ c.reserved)
    (certificates : List NodeCertificate) :
    c.issuedToOthers (certificate :: certificates)
      = certificate.issuedAt :: c.issuedToOthers certificates := by
  unfold HostedProvider.issuedToOthers
  rw [List.filter_cons, if_pos (decide_eq_true hopen), List.map_cons]

namespace HostedObject

variable {κ : Type} {c : HostedProvider κ} {s s' : HostedObject κ} {i : Nat} {call : Call}

def certificates (s : HostedObject κ) : List NodeCertificate :=
  s.answers.filterMap fun answer => certificateOf answer.result

/-- The certificates answered, and those whose record is written. -/
def durable (s : HostedObject κ) : List NodeCertificate :=
  s.certificates ++ s.calls.filterMap fun call => call.stage.ready

/-- The certificates answered, and those that may come to be. -/
def promised (s : HostedObject κ) : List NodeCertificate :=
  s.certificates ++ s.calls.filterMap fun call => call.stage.promised

theorem certificates_durable : s.certificates.Subperm s.durable :=
  (List.sublist_append_left _ _).subperm

theorem certificates_promised : s.certificates.Subperm s.promised :=
  (List.sublist_append_left _ _).subperm

/-- What the stage of one call contributes, before and after it changes. -/
theorem filterMap_setStage {f : Stage → Option NodeCertificate} (hcall : s.calls[i]? = some call)
    (stage : Stage) :
    ((f stage).toList ++ s.calls.filterMap fun call => f call.stage).Perm
      ((f call.stage).toList ++ (s.setStage i call stage).filterMap fun call => f call.stage) := by
  have hperm := (Modify.perm_set hcall { call with stage }).filterMap fun call => f call.stage
  have hcons : ∀ (x : Call) (l : List Call), (x :: l).filterMap (fun call => f call.stage)
      = (f x.stage).toList ++ l.filterMap fun call => f call.stage := by
    intro x l
    cases hf : f x.stage <;> simp [hf]
  rw [hcons, hcons] at hperm
  exact hperm

theorem setStage_cases {stage : Stage} {j : Nat} {other : Call} (hcall : s.calls[i]? = some call)
    (hj : (s.setStage i call stage)[j]? = some other) :
    (j = i ∧ other = { call with stage }) ∨ (j ≠ i ∧ s.calls[j]? = some other) :=
  Modify.getElem?_set_cases hcall hj

/-! ## Certifying -/

/-- What the authority has recorded in a ledger that was bound to one request's rows. -/
theorem port_records {request : EnrollmentRequest} {now : ℚ} {reserved : List JsString}
    {anybody forUser : List ℚ} {ledger : HostedIssuance}
    (h : Issues c.platform c.authority (HostedIssuance.port reserved)
      (.bind ⟨request.userKey, anybody, forUser⟩) ledger request now) :
    (recent DEFAULT_ISSUANCE_WINDOW_MS now forUser).length < DEFAULT_MAX_PER_WINDOW ∧
    (request.userKey ∉ reserved →
      (recent DEFAULT_ISSUANCE_WINDOW_MS now anybody).length < c.budget.maxIssuedPerWindow) ∧
    ledger.flush = some ⟨request.userKey,
      if request.userKey ∈ reserved then anybody else anybody ++ [now], forUser ++ [now]⟩ := by
  refine ⟨?_, ?_, ?_⟩
  · obtain ⟨times, htimes, hroom⟩ := h.user
    have htimes : some (if request.userKey = request.userKey then forUser else []) = some times :=
      htimes
    rw [if_pos rfl] at htimes
    cases htimes
    exact hroom
  · intro hopen
    obtain ⟨times, htimes, hroom⟩ := h.anybody c.budget.maxIssuedPerWindow rfl
    have htimes : some (if request.userKey ∈ reserved then [] else anybody) = some times := htimes
    rw [if_neg hopen] at htimes
    cases htimes
    exact hroom
  · have hrecorded : some (⟨some ⟨request.userKey,
        if request.userKey ∈ reserved then anybody else anybody ++ [now],
        if request.userKey = request.userKey then forUser ++ [now] else forUser⟩, true⟩
          : HostedIssuance) = some ledger := h.recorded
    rw [if_pos rfl] at hrecorded
    cases hrecorded
    rfl

/-- The state a request leaves whose issuance begins to be written. -/
def issued (s : HostedObject κ) (i : Nat) (call : Call) (challenges : Challenges)
    (ledger : HostedIssuance) (loaded : LoadedIssuance) (certificate : NodeCertificate) :
    HostedObject κ :=
  { s with
    challenges, ledger
    signed := certificate :: s.signed
    calls := (s.setStage i call (.writing .anybody loaded (.issued certificate))).map
      fun call => { call with alone := false } }

/-- What a request is that comes to be certified, and what comes of it. -/
theorem certifies_cases (hstep : s.certifies c i = some s') :
    ∃ call reads anybody forUser, s.calls[i]? = some call ∧ call.stage = .loading reads ∧
      reads .anybody = .done anybody ∧ reads .forUser = .done forUser ∧
      ((∃ challenges ledger stage, s' = { s with
          challenges, ledger, calls := s.setStage i call stage } ∧
        (stage = .finished ∨ ∃ refusal reason, stage = .replying (.refused refusal reason) ∧
          Refuses c.authority (HostedIssuance.port c.reserved)
            (.bind ⟨call.request.userKey, anybody, forUser⟩) call.now refusal)) ∨
      ∃ challenges ledger loaded,
        ledger.flush = some loaded ∧
        Issues c.platform c.authority (HostedIssuance.port c.reserved)
          (.bind ⟨call.request.userKey, anybody, forUser⟩) ledger call.request call.now ∧
        s' = s.issued i call challenges ledger loaded
          (certify c.authority call.request call.now)) := by
  obtain ⟨call, hcall, hstep⟩ := Option.bind_eq_some_iff.mp hstep
  split at hstep
  case h_2 => cases hstep
  case h_1 reads hstage =>
    split at hstep
    case h_2 => cases hstep
    case h_1 anybody forUser hanybody hforUser =>
      refine ⟨call, reads, anybody, forUser, hcall, hstage, hanybody, hforUser, ?_⟩
      split at hstep
      case h_1 =>
        cases hstep
        exact Or.inl ⟨_, _, _, rfl, Or.inl rfl⟩
      case h_2 challenges ledger result hcertify =>
        rcases certifyFreshly_cases hcertify with ⟨rfl, refusal, reason, rfl, hrefuses⟩ |
          ⟨rfl, hissues⟩
        · -- what is only bound has nothing to flush
          cases hstep
          exact Or.inl ⟨_, _, _, rfl, Or.inr ⟨refusal, reason, rfl, hrefuses⟩⟩
        · obtain ⟨-, -, hflush⟩ := port_records hissues
          rw [hflush] at hstep
          cases hstep
          exact Or.inr ⟨challenges, ledger, _, hflush, hissues, rfl⟩

/-- Where nothing is being written, what may be answered is recorded. -/
theorem promised_of_quiet (hquiet : ∀ other ∈ s.calls, other.stage.isWriting = false) :
    s.promised = s.durable := by
  have hcalls : (s.calls.filterMap fun call => call.stage.promised)
      = s.calls.filterMap fun call => call.stage.ready := by
    apply List.filterMap_congr
    intro other hmem
    have hother := hquiet other hmem
    cases hstage : other.stage with
    | writing row loaded result =>
      rw [hstage] at hother
      cases hother
    | _ => rfl
  unfold promised durable
  rw [hcalls]

end HostedObject

end O2Fabric.Cloudflare
