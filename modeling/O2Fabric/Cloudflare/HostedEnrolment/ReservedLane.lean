/-
  O2Fabric.Cloudflare.HostedEnrolment.ReservedLane

  The reserved lane, in any run: what is issued in it does not count against
  the shared budget, and is not refused by it.
-/

import O2Fabric.Cloudflare.HostedEnrolment.Alone

namespace O2Fabric.Cloudflare

open EnrollmentAuthority SlidingWindow O2Fabric.Steps

namespace HostedObject

variable {κ : Type} {c : HostedProvider κ} {s s' : HostedObject κ}
  {rows : κ → Option StoredRow} {i : Nat} {call : Call}

/-- What a request has of the shared window: nothing that was not there at the start or
    issued outside the reserved lane. -/
structure InLane (c : HostedProvider κ) (shared : List ℚ) (call : Call) : Prop where
  loads : ∀ reads values, call.stage = .loading reads → reads .anybody = .done values →
    values.Subperm shared
  writes : ∀ row loaded result, call.stage = .writing row loaded result →
    loaded.anybody.Subperm shared ∧ ∃ certificate, result = .issued certificate
  replies : ∀ limit windowMs retryAfterMs reason, call.request.userKey ∈ c.reserved →
    call.stage ≠ .replying (.refused (.issuanceBudgetExhausted limit windowMs retryAfterMs) reason)

/-- What could be in the shared window. -/
def shared (c : HostedProvider κ) (rows : κ → Option StoredRow) (s : HostedObject κ) : List ℚ :=
  timestamps (rows c.ISSUANCE_JOURNAL_KEY) ++ c.issuedToOthers s.signed

structure Lane (c : HostedProvider κ) (rows : κ → Option StoredRow) (s : HostedObject κ) :
    Prop where
  row : (timestamps (s.rows c.ISSUANCE_JOURNAL_KEY)).Subperm (shared c rows s)
  calls : ∀ call ∈ s.calls, InLane c (shared c rows s) call
  answers : ∀ answer ∈ s.answers, answer.request.userKey ∈ c.reserved →
    ∀ limit windowMs retryAfterMs reason,
      answer.result ≠ .refused (.issuanceBudgetExhausted limit windowMs retryAfterMs) reason

variable {times : List ℚ}

theorem InLane.finished : InLane c times { call with stage := .finished } := by
  refine ⟨?_, ?_, ?_⟩
  · intro reads values hstage
    cases hstage
  · intro row loaded result hstage
    cases hstage
  · intro limit windowMs retryAfterMs reason _ hstage
    cases hstage

theorem InLane.read {reads : Row → Read} (h : InLane c times call)
    (hstage : call.stage = .loading reads) {row : Row} {read : Read}
    (hread : ∀ values, row = .anybody → read = .done values → values.Subperm times) :
    InLane c times { call with stage := .loading (Function.update reads row read) } := by
  refine ⟨?_, ?_, ?_⟩
  · intro reads' values hreads hdone
    cases hreads
    by_cases hrow : row = .anybody
    · subst hrow
      rw [Function.update_self] at hdone
      exact hread values rfl hdone
    · rw [Function.update_of_ne (Ne.symm hrow)] at hdone
      exact h.loads reads values hstage hdone
  · intro row loaded result hstage'
    cases hstage'
  · intro limit windowMs retryAfterMs reason _ hstage'
    cases hstage'

theorem InLane.mono {times' : List ℚ} (h : InLane c times call) (hmore : times.Subperm times') :
    InLane c times' call :=
  ⟨fun reads values hstage hdone => (h.loads reads values hstage hdone).trans hmore,
    fun row loaded result hstage => (h.writes row loaded result hstage).imp_left
      fun hloaded => hloaded.trans hmore,
    h.replies⟩

/-- One request changes its stage. -/
theorem Lane.calls_set (h : Lane c rows s) {stage : Stage}
    (hnew : InLane c (shared c rows s) { call with stage }) :
    ∀ other ∈ s.setStage i call stage, InLane c (shared c rows s) other := by
  intro other hmem
  rcases List.mem_or_eq_of_mem_set hmem with hmem | rfl
  · exact h.calls other hmem
  · exact hnew

theorem Lane.certifies (h : Lane c rows s) (hstep : s.certifies c i = some s') :
    Lane c rows s' := by
  obtain ⟨call, reads, anybody, forUser, hcall, hstage, hanybody, hforUser, hcases⟩ :=
    certifies_cases hstep
  have hcallLane := h.calls call (List.mem_of_getElem? hcall)
  rcases hcases with ⟨challenges, ledger, stage, rfl, hover⟩ |
    ⟨challenges, ledger, loaded, hflush, hissues, rfl⟩
  · refine ⟨h.row, h.calls_set ?_, h.answers⟩
    rcases hover with rfl | ⟨refusal, reason, rfl, hrefuses⟩
    · exact InLane.finished
    · refine ⟨?_, ?_, ?_⟩
      · intro reads values hstage'
        cases hstage'
      · intro row loaded result hstage'
        cases hstage'
      · intro limit windowMs retryAfterMs reason' hreserved hstage'
        cases hstage'
        -- a reserved key sees an empty window, which no budget is exhausted by
        obtain ⟨budget, times, hbudget, htimes, hfull⟩ := hrefuses.exhausted _ _ _ rfl
        have htimes : some (if call.request.userKey ∈ c.reserved then [] else anybody)
            = some times := htimes
        rw [if_pos hreserved] at htimes
        cases htimes
        cases hbudget
        have hpositive := c.budget.positive
        exact absurd hpositive (Nat.not_lt.mpr hfull)
  · obtain ⟨-, -, hrecorded⟩ := port_records hissues
    cases hflush.symm.trans hrecorded
    have hloads := hcallLane.loads reads anybody hstage hanybody
    have hmore : (shared c rows s).Subperm (timestamps (rows c.ISSUANCE_JOURNAL_KEY)
        ++ c.issuedToOthers (certify c.authority call.request call.now :: s.signed)) := by
      refine (List.subperm_append_left _).mpr ?_
      exact ((List.sublist_cons_self _ _).filter _).map _ |>.subperm
    have hloaded : (if call.request.userKey ∈ c.reserved then anybody
        else anybody ++ [call.now]).Subperm (timestamps (rows c.ISSUANCE_JOURNAL_KEY)
          ++ c.issuedToOthers (certify c.authority call.request call.now :: s.signed)) := by
      split
      · exact hloads.trans hmore
      · next hopen =>
        have hcons : c.issuedToOthers (certify c.authority call.request call.now :: s.signed)
            = call.now :: c.issuedToOthers s.signed := c.issuedToOthers_cons hopen _
        rw [hcons]
        refine List.Subperm.trans ?_ List.perm_middle.symm.subperm
        refine (List.perm_append_singleton call.now anybody).subperm.trans ?_
        exact (List.subperm_cons call.now).mpr hloads
    refine ⟨h.row.trans hmore, ?_, h.answers⟩
    intro other hmem
    obtain ⟨before, hbefore, rfl⟩ := List.mem_map.mp hmem
    have hlane : InLane c (timestamps (rows c.ISSUANCE_JOURNAL_KEY)
        ++ c.issuedToOthers (certify c.authority call.request call.now :: s.signed)) before := by
      rcases List.mem_or_eq_of_mem_set hbefore with hbefore | rfl
      · exact (h.calls before hbefore).mono hmore
      · refine ⟨?_, ?_, ?_⟩
        · intro reads values hstage'
          cases hstage'
        · intro row loaded result hstage'
          cases hstage'
          exact ⟨hloaded, _, rfl⟩
        · intro limit windowMs retryAfterMs reason _ hstage'
          cases hstage'
    exact ⟨hlane.loads, hlane.writes, hlane.replies⟩

theorem Lane.checked (h : Lane c rows s) {row : Row} {ok : Bool}
    (hstep : s.checked c i row ok = some s') : Lane c rows s' := by
  obtain ⟨call, hcall, hstep⟩ := Option.bind_eq_some_iff.mp hstep
  have hcallLane := h.calls call (List.mem_of_getElem? hcall)
  split at hstep
  case h_2 => cases hstep
  case h_1 reads hstage =>
    split at hstep
    case h_2 => cases hstep
    case h_1 =>
      split at hstep
      · cases hstep
        refine ⟨h.row, h.calls_set (hcallLane.read hstage ?_), h.answers⟩
        intro values _ hdone
        split at hdone
        · cases hdone
        · cases hdone
          exact List.nil_subperm
      · cases hstep
        exact ⟨h.row, h.calls_set InLane.finished, h.answers⟩

theorem Lane.got (h : Lane c rows s) {row : Row} {ok : Bool}
    (hstep : s.got c i row ok = some s') : Lane c rows s' := by
  obtain ⟨call, hcall, hstep⟩ := Option.bind_eq_some_iff.mp hstep
  have hcallLane := h.calls call (List.mem_of_getElem? hcall)
  split at hstep
  case h_2 => cases hstep
  case h_1 reads hstage =>
    split at hstep
    case h_2 => cases hstep
    case h_1 =>
      cases hstep
      refine ⟨h.row, h.calls_set (hcallLane.read hstage ?_), h.answers⟩
      intro values hrow hdone
      subst hrow
      cases hdone
      split
      · have hperm : (retained (s.rows c.ISSUANCE_JOURNAL_KEY) call.now).Perm _ :=
          List.perm_insertionSort _ _
        exact (hperm.subperm.trans (List.filter_sublist).subperm).trans h.row
      · exact List.nil_subperm

theorem Lane.replies (h : Lane c rows s) (hstep : s.replies i = some s') : Lane c rows s' := by
  obtain ⟨call, hcall, hstep⟩ := Option.bind_eq_some_iff.mp hstep
  have hcallLane := h.calls call (List.mem_of_getElem? hcall)
  split at hstep
  case h_2 => cases hstep
  case h_1 result hstage =>
    cases hstep
    refine ⟨h.row, h.calls_set InLane.finished, ?_⟩
    intro answer hmem hreserved limit windowMs retryAfterMs reason hresult
    rcases List.mem_cons.mp hmem with rfl | hmem
    · have hresult : result = _ := hresult
      subst hresult
      exact hcallLane.replies limit windowMs retryAfterMs reason hreserved hstage
    · exact h.answers answer hmem hreserved limit windowMs retryAfterMs reason hresult

variable [DecidableEq κ]

theorem Lane.put (h : Lane c rows s) (hkeys : c.KeysApart) {outcome : Put}
    (hstep : s.put c i outcome = some s') : Lane c rows s' := by
  obtain ⟨call, hcall, hstep⟩ := Option.bind_eq_some_iff.mp hstep
  split at hstep
  case h_2 => cases hstep
  case h_1 row loaded result hstage =>
    have hcallLane := h.calls call (List.mem_of_getElem? hcall)
    obtain ⟨hloaded, certificate, rfl⟩ := hcallLane.writes row loaded result hstage
    have hrow : (timestamps ((if outcome = .failedUnwritten then s.rows
        else s.write (c.keyOf loaded.userKey row) (encode (loaded.row row)))
          c.ISSUANCE_JOURNAL_KEY)).Subperm (shared c rows s) := by
      split
      · exact h.row
      · cases row with
        | anybody =>
          show (timestamps (if c.ISSUANCE_JOURNAL_KEY = c.ISSUANCE_JOURNAL_KEY then _
            else _)).Subperm _
          rw [if_pos rfl, timestamps_encode]
          exact hloaded
        | forUser =>
          show (timestamps (if c.ISSUANCE_JOURNAL_KEY = c.issuanceKeyFor loaded.userKey then _
            else _)).Subperm _
          rw [if_neg (Ne.symm (hkeys loaded.userKey))]
          exact h.row
    dsimp only at hstep
    split at hstep
    · cases hstep
      refine ⟨hrow, h.calls_set ?_, h.answers⟩
      cases row with
      | anybody =>
        refine ⟨?_, ?_, ?_⟩
        · intro reads values hstage'
          cases hstage'
        · intro row loaded' result hstage'
          cases hstage'
          exact ⟨hloaded, certificate, rfl⟩
        · intro limit windowMs retryAfterMs reason _ hstage'
          cases hstage'
      | forUser =>
        refine ⟨?_, ?_, ?_⟩
        · intro reads values hstage'
          cases hstage'
        · intro row loaded' result hstage'
          cases hstage'
        · intro limit windowMs retryAfterMs reason _ hstage'
          cases hstage'
    · cases hstep
      exact ⟨hrow, h.calls_set InLane.finished, h.answers⟩

theorem Lane.step (h : Lane c rows s) (hkeys : c.KeysApart) {e : Event}
    (hstep : step c s e = some s') : Lane c rows s' := by
  cases e with
  | begins request now =>
    have hstep : s.begins request now = some s' := hstep
    unfold HostedObject.begins at hstep
    split at hstep
    case isFalse => cases hstep
    case isTrue =>
      cases hstep
      refine ⟨h.row, ?_, h.answers⟩
      intro call hmem
      rcases List.mem_append.mp hmem with hmem | hmem
      · exact h.calls call hmem
      · rw [List.mem_singleton.mp hmem]
        refine ⟨?_, ?_, ?_⟩
        · intro reads values hstage hdone
          cases hstage
          cases hdone
        · intro row loaded result hstage
          cases hstage
        · intro limit windowMs retryAfterMs reason _ hstage
          cases hstage
  | checked i row ok => exact h.checked hstep
  | got i row ok => exact h.got hstep
  | certifies i => exact h.certifies hstep
  | put i outcome => exact h.put hkeys hstep
  | replies i => exact h.replies hstep
  | challenged now nonce =>
    have hstep : s.challenged c now nonce = some s' := hstep
    unfold HostedObject.challenged at hstep
    split at hstep
    · cases hstep
      exact ⟨h.row, h.calls, h.answers⟩
    · cases hstep
  | evicted =>
    cases hstep
    refine ⟨h.row, ?_, h.answers⟩
    intro call hmem
    cases hmem

/-- In any run whatever. -/
theorem reaches_lane (hkeys : c.KeysApart) {guard : HostedObject κ → Event → Prop} {clock : ℚ}
    (h : Reaches (step c) guard (start rows clock) s) : Lane c rows s := by
  refine h.invariant ⟨?_, ?_, ?_⟩ fun _ _ _ _ hlane hstep => hlane.step hkeys hstep
  · exact (List.sublist_append_left _ _).subperm
  · intro call hmem
    cases hmem
  · intro answer hmem
    cases hmem

end HostedObject

end O2Fabric.Cloudflare

/-! # Budgets

The budgets of a hosted provider over whole runs.

They are kept, and what is answered is in the storage, as long as a request
is certified only where it has been alone and no `get` fails.  Two requests
that have both read their rows before either has written are both certified,
and a `get` that fails reads as no history.
-/

namespace O2Fabric.Cloudflare.HostedObject

open EnrollmentAuthority SlidingWindow O2Fabric.Steps

variable {κ : Type} [DecidableEq κ] {c : HostedProvider κ} {s s' : HostedObject κ}
  {rows : κ → Option StoredRow} {i : Nat}

/-- What the budgets come to, over the storage the object was started on. -/
structure Sound (c : HostedProvider κ) (rows : κ → Option StoredRow) (s : HostedObject κ) :
    Prop where
  shared : Bounded DEFAULT_ISSUANCE_WINDOW_MS c.budget.maxIssuedPerWindow
    (c.issuedToOthers s.certificates)
  perUser : ∀ userKey, Bounded DEFAULT_ISSUANCE_WINDOW_MS DEFAULT_MAX_PER_WINDOW
    ((s.certificates.filter fun certificate => decide (certificate.userKey = userKey)).map
      NodeCertificate.issuedAt)
  recorded : Recorded c s s.certificates
  /-- A reserved key's issuance is not counted. -/
  uncounted : (timestamps (s.rows c.ISSUANCE_JOURNAL_KEY)).Subperm
    (timestamps (rows c.ISSUANCE_JOURNAL_KEY) ++ c.issuedToOthers s.signed)
  unrefused : ∀ answer ∈ s.answers, answer.request.userKey ∈ c.reserved →
    ∀ limit windowMs retryAfterMs reason,
      answer.result ≠ .refused (.issuanceBudgetExhausted limit windowMs retryAfterMs) reason

/-- Certificates that count in a row, picked out another way. -/
theorem issuedAt_subperm {certificates : List NodeCertificate} {cond : NodeCertificate → Bool}
    {key : κ} (hcounts : ∀ certificate, cond certificate = true → c.Counts key certificate) :
    ((certificates.filter cond).map NodeCertificate.issuedAt).Subperm
      (c.issuedIn key certificates) := by
  refine List.Sublist.subperm (List.Sublist.map _ ?_)
  apply List.monotone_filter_right
  intro certificate hcond
  exact decide_eq_true (hcounts certificate hcond)

theorem Kept.sound (h : Kept c s) (hlane : Lane c rows s) (hkeys : c.KeysApart) :
    Sound c rows s := by
  refine ⟨?_, ?_, h.recorded.subperm certificates_durable, hlane.row, hlane.answers⟩
  · have hbounded := (h.bounded c.ISSUANCE_JOURNAL_KEY).subperm
      (issuedIn_subperm certificates_promised _)
    rw [HostedProvider.limit, if_pos rfl] at hbounded
    refine hbounded.subperm (issuedAt_subperm ?_)
    intro certificate hopen
    exact Or.inl ⟨rfl, of_decide_eq_true hopen⟩
  · intro userKey
    have hbounded := (h.bounded (c.issuanceKeyFor userKey)).subperm
      (issuedIn_subperm certificates_promised _)
    rw [HostedProvider.limit, if_neg (hkeys userKey)] at hbounded
    refine hbounded.subperm (issuedAt_subperm ?_)
    intro certificate hown
    exact Or.inr (congrArg c.issuanceKeyFor (of_decide_eq_true hown).symm)

/-- What one event may answer was in the storage before it. -/
theorem answered_durable {e : Event} (hstep : step c s e = some s') :
    s'.certificates.Subperm s.durable := by
  have hsame : s'.answers = s.answers → s'.certificates.Subperm s.durable := by
    intro hanswers
    unfold certificates
    rw [hanswers]
    exact certificates_durable
  cases e with
  | begins request now =>
    have hstep : s.begins request now = some s' := hstep
    unfold HostedObject.begins at hstep
    split at hstep
    · cases hstep
      exact hsame rfl
    · cases hstep
  | checked i row ok =>
    obtain ⟨call, hcall, hstep⟩ := Option.bind_eq_some_iff.mp hstep
    split at hstep
    case h_2 => cases hstep
    case h_1 =>
      split at hstep
      case h_2 => cases hstep
      case h_1 =>
        split at hstep
        · cases hstep
          exact hsame rfl
        · cases hstep
          exact hsame rfl
  | got i row ok =>
    obtain ⟨call, hcall, hstep⟩ := Option.bind_eq_some_iff.mp hstep
    split at hstep
    case h_2 => cases hstep
    case h_1 =>
      split at hstep
      case h_2 => cases hstep
      case h_1 =>
        cases hstep
        exact hsame rfl
  | certifies i =>
    obtain ⟨_, _, _, _, _, _, _, _, hcases⟩ := certifies_cases hstep
    rcases hcases with ⟨_, _, _, rfl, _⟩ | ⟨_, _, _, _, _, rfl⟩
    · exact hsame rfl
    · exact hsame rfl
  | put i outcome =>
    obtain ⟨call, hcall, hstep⟩ := Option.bind_eq_some_iff.mp hstep
    split at hstep
    case h_2 => cases hstep
    case h_1 =>
      dsimp only at hstep
      split at hstep
      · cases hstep
        exact hsame rfl
      · cases hstep
        exact hsame rfl
  | replies i =>
    obtain ⟨call, hcall, hstep⟩ := Option.bind_eq_some_iff.mp hstep
    split at hstep
    case h_2 => cases hstep
    case h_1 result hstage =>
      cases hstep
      have hready := filterMap_setStage (f := Stage.ready) hcall .finished
      rw [hstage] at hready
      have hcons : certificates { s with answers := ⟨call.request, result⟩ :: s.answers }
          = (certificateOf result).toList ++ s.certificates := by
        cases result <;> rfl
      show (certificates { s with answers := ⟨call.request, result⟩ :: s.answers }).Subperm _
      rw [hcons]
      refine List.perm_append_comm.subperm.trans ((List.subperm_append_left _).mpr ?_)
      exact (List.sublist_append_left _ _).subperm.trans hready.symm.subperm
  | challenged now nonce =>
    have hstep : s.challenged c now nonce = some s' := hstep
    unfold HostedObject.challenged at hstep
    split at hstep
    · cases hstep
      exact hsame rfl
    · cases hstep
  | evicted =>
    cases hstep
    exact hsame rfl

/-- In every run whose steps are clean the budgets hold, and no certificate is answered
    before its record is in the storage. -/
theorem budgets_hold (c : HostedProvider κ) (hkeys : c.KeysApart) (rows : κ → Option StoredRow)
    (clock : ℚ) (s : HostedObject κ) (h : Reaches (step c) Clean (start rows clock) s) :
    Sound c rows s ∧ ∀ e s', step c s e = some s' → Recorded c s s'.certificates := by
  have hkept := reaches_kept hkeys h
  refine ⟨hkept.sound (reaches_lane hkeys h) hkeys, ?_⟩
  intro e s' hstep
  exact hkept.recorded.subperm (answered_durable hstep)

/-! ## Alone, and side by side -/

instance : (e : Event) → Decidable (Clean s e)
  | .begins _ _ => instDecidableTrue
  | .checked _ _ _ => instDecidableTrue
  | .got _ _ ok => inferInstanceAs (Decidable (ok = true))
  | .certifies i => inferInstanceAs (Decidable (∀ call ∈ s.calls[i]?, call.alone = true))
  | .put _ _ => instDecidableTrue
  | .replies _ => instDecidableTrue
  | .challenged _ _ => instDecidableTrue
  | .evicted => instDecidableTrue

/-- A provider that accepts every signature, and issues one certificate a window. -/
def oneAWindow : HostedProvider JsString where
  platform := plain
  keys := ⟨js "issuer", fun _ => js "signed", none, fun _ _ _ => true⟩
  budget := ⟨1, by decide, by decide⟩
  reserved := []
  newKey := id

theorem oneAWindow_keysApart : oneAWindow.KeysApart := by
  intro userKey h
  have hlength : (js "/journal/issuance-user/" ++ userKey).length
      = (js "/journal/issuance").length := congrArg List.length h
  rw [List.length_append] at hlength
  have huser : (js "/journal/issuance-user/").length = 23 := by decide
  have hshared : (js "/journal/issuance").length = 17 := by decide
  omega

/-- A request that answers the challenge with this nonce. -/
def asks (userKey nonce : JsString) : EnrollmentRequest where
  nodeKey := js "node"
  userKey := userKey
  operatorId := operatorIdFor userKey
  discoverability := .seed
  relayIds := []
  proofOfPossession := js "proof"
  ownerProof := js "proof"
  freshness := .answer nonce (js "proof")

/-- One request, from its challenge to its answer. -/
theorem budgets_hold_alone : ∃ s, Reaches (step oneAWindow) Clean (start (fun _ => none) 0) s ∧
    s.certificates.length = 1 ∧ Sound oneAWindow (fun _ => none) s := by
  have hcomputed : (runWhere (step oneAWindow) Clean (start (fun _ => none) 0)
      [.challenged 0 (js "1"), .begins (asks (js "a") (js "1")) 0, .checked 0 .anybody true,
        .checked 0 .forUser true, .certifies 0, .put 0 .acknowledged, .put 0 .acknowledged,
        .replies 0]).map (fun s => s.certificates.length) = some 1 := by decide +kernel
  obtain ⟨s, hrun, hone⟩ := Option.map_eq_some_iff.mp hcomputed
  have hreaches : Reaches (step oneAWindow) Clean (start (fun _ => none) 0) s :=
    Reaches.of_runWhere hrun
  exact ⟨s, hreaches, hone,
    (budgets_hold oneAWindow oneAWindow_keysApart (fun _ => none) 0 s hreaches).1⟩

/-- Two requests that both read their rows before either writes are both certified. -/
theorem side_by_side_over_issues :
    ¬ ∀ s, Reaches (step oneAWindow) anything (start (fun _ => none) 0) s →
      Sound oneAWindow (fun _ => none) s := by
  intro hsound
  have hcomputed : (run (step oneAWindow) (start (fun _ => none) 0)
      [.challenged 0 (js "1"), .challenged 0 (js "2"), .begins (asks (js "a") (js "1")) 0,
        .begins (asks (js "b") (js "2")) 0, .checked 0 .anybody true, .checked 0 .forUser true,
        .checked 1 .anybody true, .checked 1 .forUser true, .certifies 0, .certifies 1,
        .put 0 .acknowledged, .put 0 .acknowledged, .put 1 .acknowledged, .put 1 .acknowledged,
        .replies 0, .replies 1]).map
      (fun s => (within DEFAULT_ISSUANCE_WINDOW_MS 0
        (oneAWindow.issuedToOthers s.certificates)).length) = some 2 := by decide +kernel
  obtain ⟨s, hrun, htwo⟩ := Option.map_eq_some_iff.mp hcomputed
  have hreaches : Reaches (step oneAWindow) anything (start (fun _ => none) 0) s :=
    Reaches.of_run (fun _ _ _ => trivial) hrun
  have hlimit := (hsound s hreaches).shared 0
  rw [htwo] at hlimit
  exact absurd hlimit (by decide)

end O2Fabric.Cloudflare.HostedObject
