/-
  O2Fabric.Core.EnrollmentAuthority.Budgets

  One authority and any sequence of enrolments, over a history that remembers
  what is recorded: the in-process one, or a host's.

  A budget is asked over everything later than a window before the clock, the
  future included, so a clock that goes back only makes an authority stricter.
  That is why no order of the clock readings is assumed.
-/

import O2Fabric.Core.EnrollmentAuthority

namespace O2Fabric

/-! ## The history of one process -/

/-- A history that lives and dies with the authority. -/
structure InProcessIssuance where
  byUser : InsertionMap JsString (List ℚ)
  anybody : List ℚ

namespace InProcessIssuance

def new : InProcessIssuance := ⟨.empty, []⟩

def issuedTo (history : InProcessIssuance) (userKey : JsString) : List ℚ :=
  (history.byUser.get? userKey).getD []

def issuedToAnybody (history : InProcessIssuance) : List ℚ := history.anybody

def record (history : InProcessIssuance) (userKey : JsString) (issuedAt : ℚ) : InProcessIssuance :=
  ⟨match history.byUser.get? userKey with
    | none => history.byUser.set userKey [issuedAt]
    | some existing => history.byUser.set userKey (existing ++ [issuedAt]),
    history.anybody ++ [issuedAt]⟩

/-- The port onto it.  No call throws. -/
def ledger : IssuanceLedger InProcessIssuance where
  issuedTo history userKey := some (history.issuedTo userKey)
  issuedToAnybody history := some history.issuedToAnybody
  record history userKey issuedAt := some (history.record userKey issuedAt)

theorem issuedTo_record (history : InProcessIssuance) (userKey other : JsString) (issuedAt : ℚ) :
    (history.record userKey issuedAt).issuedTo other
      = history.issuedTo other ++ if other = userKey then [issuedAt] else [] := by
  unfold record issuedTo
  cases hget : history.byUser.get? userKey with
  | none =>
    show ((history.byUser.set userKey [issuedAt]).get? other).getD [] = _
    rw [InsertionMap.get?_set]
    by_cases hother : other = userKey
    · simp [hother, hget]
    · simp [hother]
  | some existing =>
    show ((history.byUser.set userKey (existing ++ [issuedAt])).get? other).getD [] = _
    rw [InsertionMap.get?_set]
    by_cases hother : other = userKey
    · simp [hother, hget]
    · simp [hother]

end InProcessIssuance

namespace EnrollmentAuthority

open SlidingWindow

/-! ## Histories that remember -/

/-- A certificate that was issued, as a history has it. -/
abbrev Issue := JsString × ℚ

def timesOf (issues : List Issue) (userKey : JsString) : List ℚ :=
  (issues.filter fun issue => decide (issue.1 = userKey)).map Prod.snd

theorem timesOf_append (issues more : List Issue) (userKey : JsString) :
    timesOf (issues ++ more) userKey = timesOf issues userKey ++ timesOf more userKey := by
  simp [timesOf]

theorem timesOf_singleton (userKey other : JsString) (issuedAt : ℚ) :
    timesOf [(userKey, issuedAt)] other = if other = userKey then [issuedAt] else [] := by
  by_cases hother : other = userKey
  · simp [timesOf, hother]
  · have hne : ¬ userKey = other := fun h => hother h.symm
    simp [timesOf, hother, hne]

/-- What a history is a history of.  Its calls may throw; where they answer, they answer with all
    that was recorded, in any order. -/
structure Remembers {σ : Type} (ledger : IssuanceLedger σ) (of : σ → List Issue → Prop) : Prop where
  issuedTo : ∀ history issues userKey times, of history issues →
    ledger.issuedTo history userKey = some times → times.Perm (timesOf issues userKey)
  issuedToAnybody : ∀ history issues times, of history issues →
    ledger.issuedToAnybody history = some times → times.Perm (issues.map Prod.snd)
  record : ∀ history issues userKey issuedAt history', of history issues →
    ledger.record history userKey issuedAt = some history' →
    of history' (issues ++ [(userKey, issuedAt)])

/-- The in-process history has every time under its user key and among all. -/
structure InProcessIssuance.Of (history : InProcessIssuance) (issues : List Issue) : Prop where
  byUser : ∀ userKey, history.issuedTo userKey = timesOf issues userKey
  anybody : history.anybody = issues.map Prod.snd

theorem InProcessIssuance.of_new : InProcessIssuance.Of .new [] where
  byUser _ := rfl
  anybody := rfl

theorem InProcessIssuance.remembers :
    Remembers InProcessIssuance.ledger InProcessIssuance.Of where
  issuedTo history issues userKey times hof htimes := by
    cases htimes
    rw [hof.byUser]
  issuedToAnybody history issues times hof htimes := by
    cases htimes
    exact List.Perm.of_eq hof.anybody
  record history issues userKey issuedAt history' hof hrecord := by
    cases hrecord
    refine ⟨?_, ?_⟩
    · intro other
      rw [InProcessIssuance.issuedTo_record, hof.byUser, timesOf_append, timesOf_singleton]
    · show history.anybody ++ [issuedAt] = _
      rw [hof.anybody, List.map_append]
      rfl

/-! ## A sequence of enrolments -/

/-- One call of `enrol`. -/
structure Call where
  request : EnrollmentRequest
  now : ℤ
  deriving DecidableEq

/-- The history, and the certificates issued so far. -/
structure Served (σ : Type) where
  history : σ
  issued : List NodeCertificate

section

variable {σ : Type} (p : Platform) (o : AuthorityOptions)
  -- what a certificate is signed over can be encoded; `enrol` throws where it cannot
  (encodes : NodeCertificate → Bool) (ledger : IssuanceLedger σ)

/-- `enrol`, and the history it leaves; `none` where it throws. -/
def enrolOrThrow (history : σ) (call : Call) : Option (σ × EnrollmentResult) :=
  match enrol p o ledger history call.request call.now with
  | some (recorded, .issued certificate) =>
    -- the forms are built before anything is recorded
    if encodes certificate then some (recorded, .issued certificate) else none
  | other => other

def serve (s : Served σ) (call : Call) : Served σ :=
  match enrolOrThrow p o encodes ledger s.history call with
  | some (history, .issued certificate) => ⟨history, s.issued ++ [certificate]⟩
  | some (history, .refused _ _) => ⟨history, s.issued⟩
  | none => s

/-- What is left after calls in order. -/
def served (start : σ) (calls : List Call) : Served σ :=
  calls.foldl (serve p o encodes ledger) ⟨start, []⟩

/-- What calls in order are answered; `none` is a call that throws. -/
def answers : Served σ → List Call → List (Option EnrollmentResult)
  | _, [] => []
  | s, call :: calls =>
    (enrolOrThrow p o encodes ledger s.history call).map Prod.snd
      :: answers (serve p o encodes ledger s call) calls

end

variable {σ : Type} {p : Platform} {o : AuthorityOptions} {encodes : NodeCertificate → Bool}
  {ledger : IssuanceLedger σ} {s : Served σ} {call : Call}

/-- A call issues a certificate and records it, or changes nothing. -/
theorem serve_cases (p : Platform) (o : AuthorityOptions) (encodes : NodeCertificate → Bool)
    (ledger : IssuanceLedger σ) (s : Served σ) (call : Call) :
    (∃ history, Issues p o ledger s.history history call.request call.now ∧
      entitlement o call.request = none ∧
      encodes (certify o call.request call.now) = true ∧
      enrolOrThrow p o encodes ledger s.history call
        = some (history, .issued (certify o call.request call.now)) ∧
      serve p o encodes ledger s call
        = ⟨history, s.issued ++ [certify o call.request call.now]⟩) ∨
    ((∀ history certificate, enrolOrThrow p o encodes ledger s.history call
        ≠ some (history, .issued certificate)) ∧
      serve p o encodes ledger s call = s) := by
  cases henrol : enrol p o ledger s.history call.request call.now with
  | none =>
    right
    have hthrown : enrolOrThrow p o encodes ledger s.history call = none := by
      unfold enrolOrThrow
      rw [henrol]
    unfold serve
    rw [hthrown]
    exact ⟨(fun _ _ h => by cases h), rfl⟩
  | some answer =>
    obtain ⟨history, result⟩ := answer
    rcases enrol_cases henrol with ⟨rfl, refusal, reason, rfl, -⟩ | ⟨rfl, hissues⟩
    · right
      have hrefused : enrolOrThrow p o encodes ledger s.history call
          = some (s.history, .refused refusal reason) := by
        unfold enrolOrThrow
        rw [henrol]
      unfold serve
      rw [hrefused]
      exact ⟨(fun _ _ h => by cases h), rfl⟩
    · by_cases hencodes : encodes (certify o call.request call.now)
      · left
        have hissued : enrolOrThrow p o encodes ledger s.history call
            = some (history, .issued (certify o call.request call.now)) := by
          unfold enrolOrThrow
          rw [henrol]
          exact if_pos hencodes
        refine ⟨history, hissues, entitlement_of_issued henrol, hencodes, hissued, ?_⟩
        unfold serve
        rw [hissued]
      · right
        have hthrown : enrolOrThrow p o encodes ledger s.history call = none := by
          unfold enrolOrThrow
          rw [henrol]
          exact if_neg hencodes
        unfold serve
        rw [hthrown]
        exact ⟨(fun _ _ h => by cases h), rfl⟩

/-! ## The budgets -/

theorem bounded_recent {window now : ℚ} {limit : Nat} {times recorded : List ℚ}
    (h : Bounded window limit times) (hperm : recorded.Perm times)
    (hroom : (recent window now recorded).length < limit) :
    Bounded window limit (times ++ [now]) := by
  have hsame : (recent window now times).length = (recent window now recorded).length :=
    ((hperm.filter _).length_eq).symm
  have hcons : Bounded window limit (now :: times) := h.cons (by omega)
  exact hcons.subperm (List.perm_append_singleton now times).subperm

/-- What the issued certificates say, as a history has it. -/
def issuesOf (issued : List NodeCertificate) : List Issue :=
  issued.map fun certificate => (certificate.userKey, certificate.issuedAt)

theorem issuesOf_append (issued more : List NodeCertificate) :
    issuesOf (issued ++ more) = issuesOf issued ++ issuesOf more := List.map_append

/-- The history is of the certificates that were issued, and both budgets hold over them. -/
structure Budgeted (o : AuthorityOptions) (of : σ → List Issue → Prop) (s : Served σ) : Prop where
  remembered : of s.history (issuesOf s.issued)
  perUser : ∀ userKey, Bounded o.windowMs o.maxPerWindow (timesOf (issuesOf s.issued) userKey)
  shared : ∀ limit, o.maxIssuedPerWindow = .perWindow limit →
    Bounded o.windowMs limit ((issuesOf s.issued).map Prod.snd)

theorem bounded_nil {window : ℚ} {limit : Nat} : Bounded window limit ([] : List ℚ) :=
  fun _ => Nat.zero_le _

theorem Budgeted.serve {of : σ → List Issue → Prop} (hremembers : Remembers ledger of)
    (h : Budgeted o of s) (call : Call) :
    Budgeted o of (EnrollmentAuthority.serve p o encodes ledger s call) := by
  rcases serve_cases p o encodes ledger s call with ⟨history, hissues, -, -, -, hserved⟩ | ⟨-, hsame⟩
  · rw [hserved]
    have hissued : issuesOf (s.issued ++ [certify o call.request call.now])
        = issuesOf s.issued ++ [(call.request.userKey, (call.now : ℚ))] := issuesOf_append _ _
    refine ⟨?_, ?_, ?_⟩
    · rw [hissued]
      exact hremembers.record _ _ _ _ _ h.remembered hissues.recorded
    · intro userKey
      rw [hissued, timesOf_append, timesOf_singleton]
      by_cases hkey : userKey = call.request.userKey
      · rw [if_pos hkey, hkey]
        obtain ⟨times, htimes, hroom⟩ := hissues.user
        exact bounded_recent (h.perUser _)
          (hremembers.issuedTo _ _ _ _ h.remembered htimes) hroom
      · rw [if_neg hkey, List.append_nil]
        exact h.perUser userKey
    · intro limit hlimit
      rw [hissued, List.map_append]
      obtain ⟨times, htimes, hroom⟩ := hissues.anybody limit hlimit
      exact bounded_recent (h.shared limit hlimit)
        (hremembers.issuedToAnybody _ _ _ h.remembered htimes) hroom
  · rw [hsame]
    exact h

/-- The budgets hold over all that a sequence of calls has issued. -/
theorem budgeted_served {of : σ → List Issue → Prop} (hremembers : Remembers ledger of)
    {start : σ} (hstart : of start []) (calls : List Call) :
    Budgeted o of (served p o encodes ledger start calls) := by
  have hrun : ∀ s : Served σ, Budgeted o of s →
      Budgeted o of (calls.foldl (EnrollmentAuthority.serve p o encodes ledger) s) := by
    induction calls with
    | nil => exact fun s h => h
    | cons call calls ih => exact fun s h => ih _ (h.serve hremembers call)
  exact hrun ⟨start, []⟩ ⟨hstart, fun _ => bounded_nil, fun _ _ => bounded_nil⟩

/-- Over every sequence of calls, with the clock going any way, no window has more certificates
    than its budget.  A call that is refused, or throws, leaves what later calls are answered as
    it was. -/
theorem issuance_bounded_over_runs (p : Platform) (o : AuthorityOptions) (encodes : NodeCertificate → Bool)
    (calls : List Call) :
    (∀ userKey, Bounded o.windowMs o.maxPerWindow
      (timesOf (issuesOf (served p o encodes InProcessIssuance.ledger .new calls).issued) userKey)) ∧
    (∀ limit, o.maxIssuedPerWindow = .perWindow limit → Bounded o.windowMs limit
      ((issuesOf (served p o encodes InProcessIssuance.ledger .new calls).issued).map Prod.snd)) ∧
    ∀ call, (∀ history certificate,
        enrolOrThrow p o encodes InProcessIssuance.ledger
          (served p o encodes InProcessIssuance.ledger .new calls).history call
            ≠ some (history, .issued certificate)) →
      served p o encodes InProcessIssuance.ledger .new (calls ++ [call])
        = served p o encodes InProcessIssuance.ledger .new calls ∧
      ∀ later, answers p o encodes InProcessIssuance.ledger
          (served p o encodes InProcessIssuance.ledger .new (calls ++ [call])) later
        = answers p o encodes InProcessIssuance.ledger
          (served p o encodes InProcessIssuance.ledger .new calls) later := by
  have hbudgeted : Budgeted o InProcessIssuance.Of
      (served p o encodes InProcessIssuance.ledger .new calls) :=
    budgeted_served InProcessIssuance.remembers InProcessIssuance.of_new calls
  refine ⟨hbudgeted.perUser, hbudgeted.shared, ?_⟩
  intro call hnot
  have hserved : served p o encodes InProcessIssuance.ledger .new (calls ++ [call])
      = serve p o encodes InProcessIssuance.ledger
          (served p o encodes InProcessIssuance.ledger .new calls) call := by
    unfold served
    rw [List.foldl_append]
    rfl
  have hsame : served p o encodes InProcessIssuance.ledger .new (calls ++ [call])
      = served p o encodes InProcessIssuance.ledger .new calls := by
    rw [hserved]
    rcases serve_cases p o encodes InProcessIssuance.ledger
      (served p o encodes InProcessIssuance.ledger .new calls) call with
      ⟨history, -, -, -, hissued, -⟩ | ⟨-, hsame⟩
    · exact absurd hissued (hnot history _)
    · exact hsame
  refine ⟨hsame, fun later => ?_⟩
  rw [hsame]

end EnrollmentAuthority

end O2Fabric
