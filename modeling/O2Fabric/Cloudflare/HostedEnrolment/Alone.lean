/-
  O2Fabric.Cloudflare.HostedEnrolment.Alone

  What holds in a run where requests are certified alone.

  A request is alone if no row is being written from when it begins to when it
  is certified.  Then what it has read is still what the rows hold, and the
  rows hold every certificate that may count against it: `Alone`.  While it
  writes, what it writes holds them too, and its own: `Writing`.
-/

import O2Fabric.Cloudflare.HostedEnrolment
import O2Fabric.Lib.Steps

namespace O2Fabric.Cloudflare

open EnrollmentAuthority SlidingWindow O2Fabric.Steps

namespace HostedProvider

variable {κ : Type} [DecidableEq κ] (c : HostedProvider κ)

/-- The certificate counts against the budget that is kept in this row. -/
def Counts (key : κ) (certificate : NodeCertificate) : Prop :=
  key = c.ISSUANCE_JOURNAL_KEY ∧ certificate.userKey ∉ c.reserved ∨
    key = c.issuanceKeyFor certificate.userKey

instance (key : κ) (certificate : NodeCertificate) : Decidable (c.Counts key certificate) :=
  inferInstanceAs (Decidable (_ ∨ _))

def issuedIn (key : κ) (certificates : List NodeCertificate) : List ℚ :=
  (certificates.filter fun certificate => decide (c.Counts key certificate)).map
    NodeCertificate.issuedAt

def limit (key : κ) : Nat :=
  if key = c.ISSUANCE_JOURNAL_KEY then c.budget.maxIssuedPerWindow else DEFAULT_MAX_PER_WINDOW

end HostedProvider

namespace HostedObject

variable {κ : Type} [DecidableEq κ] {c : HostedProvider κ} {s s' : HostedObject κ}
  {rows : κ → Option StoredRow} {i : Nat} {call : Call}

/-- Every one of the certificates that the rows have not been let go of has an entry of its
    own in the rows it counts in. -/
def Recorded (c : HostedProvider κ) (s : HostedObject κ) (certificates : List NodeCertificate) :
    Prop :=
  ∀ now, (∀ certificate ∈ s.signed, certificate.issuedAt ≤ now) → ∀ key,
    Holds (now - RETAINED_ISSUANCE_MS) (c.issuedIn key certificates) (timestamps (s.rows key))

/-- A request that is certified has been alone, and a `get` does not fail. -/
def Clean (s : HostedObject κ) : Event → Prop
  | .certifies i => ∀ call, s.calls[i]? = some call → call.alone = true
  | .got _ _ ok => ok = true
  | _ => True

/-! ## Times -/

variable {certificates : List NodeCertificate}

theorem issuedIn_subperm {certificates' : List NodeCertificate}
    (h : certificates'.Subperm certificates) (key : κ) :
    (c.issuedIn key certificates').Subperm (c.issuedIn key certificates) := by
  obtain ⟨kept, hperm, hsub⟩ := h.filter fun certificate => decide (c.Counts key certificate)
  exact ⟨kept.map NodeCertificate.issuedAt, hperm.map _, hsub.map _⟩

variable {certificate : NodeCertificate}

theorem issuedIn_cons {key : κ} :
    c.issuedIn key (certificate :: certificates)
      = if c.Counts key certificate then
          certificate.issuedAt :: c.issuedIn key certificates
        else c.issuedIn key certificates := by
  unfold HostedProvider.issuedIn
  rw [List.filter_cons]
  by_cases hcounts : c.Counts key certificate
  · rw [if_pos (decide_eq_true hcounts), if_pos hcounts, List.map_cons]
  · rw [if_neg (by simpa using hcounts), if_neg hcounts]

theorem retained_perm (row : Option StoredRow) (now : ℚ) :
    (retained row now).Perm
      ((timestamps row).filter fun at_ => decide (now - RETAINED_ISSUANCE_MS ≤ at_)) :=
  List.perm_insertionSort _ _

theorem window_le_retained (now : ℚ) :
    now - RETAINED_ISSUANCE_MS ≤ now - DEFAULT_ISSUANCE_WINDOW_MS := by
  unfold RETAINED_ISSUANCE_MS DEFAULT_ISSUANCE_WINDOW_MS
  linarith

/-! ## Between two events -/

/-- A request under way that has been alone. -/
structure Alone (c : HostedProvider κ) (s : HostedObject κ) (call : Call) (reads : Row → Read) :
    Prop where
  quiet : ∀ other ∈ s.calls, other.stage.isWriting = false
  latest : ∀ certificate ∈ s.signed, certificate.issuedAt ≤ call.now
  holds : ∀ row values, reads row = .done values →
    Holds (call.now - RETAINED_ISSUANCE_MS)
      (c.issuedIn (c.keyOf call.request.userKey row) s.durable) values

/-- A request whose record is being written, as far as this row. -/
structure Writing (c : HostedProvider κ) (s : HostedObject κ) (i : Nat) (row : Row)
    (loaded : LoadedIssuance) (certificate : NodeCertificate) : Prop where
  single : ∀ (j : Nat) other, s.calls[j]? = some other → other.stage.isWriting = true → j = i
  signed : certificate ∈ s.signed
  latest : ∀ other ∈ s.signed, other.issuedAt ≤ certificate.issuedAt
  userKey : certificate.userKey = loaded.userKey
  holds : ∀ row, Holds (certificate.issuedAt - RETAINED_ISSUANCE_MS)
    (c.issuedIn (c.keyOf loaded.userKey row) (certificate :: s.durable)) (loaded.row row)
  written : row = .forUser → Holds (certificate.issuedAt - RETAINED_ISSUANCE_MS)
    (c.issuedIn c.ISSUANCE_JOURNAL_KEY (certificate :: s.durable))
    (timestamps (s.rows c.ISSUANCE_JOURNAL_KEY))

/-- What holds between two events of a run whose steps are clean. -/
structure Kept (c : HostedProvider κ) (s : HostedObject κ) : Prop where
  arrived : ∀ call ∈ s.calls, call.now ≤ s.clock
  clocked : ∀ certificate ∈ s.signed, certificate.issuedAt ≤ s.clock
  recorded : Recorded c s s.durable
  bounded : ∀ key, Bounded DEFAULT_ISSUANCE_WINDOW_MS (c.limit key) (c.issuedIn key s.promised)
  alone : ∀ (i : Nat) call reads, s.calls[i]? = some call → call.alone = true →
    call.stage = .loading reads → Alone c s call reads
  writing : ∀ (i : Nat) call row loaded result, s.calls[i]? = some call →
    call.stage = .writing row loaded result →
    ∃ certificate, result = .issued certificate ∧ Writing c s i row loaded certificate

theorem Recorded.subperm {certificates' : List NodeCertificate} (h : Recorded c s certificates)
    (hfewer : certificates'.Subperm certificates) :
    Recorded c s certificates' := fun now hlatest key =>
  (h now hlatest key).subperm (issuedIn_subperm hfewer key)

/-- A request that moves on: it writes only if it did before, and what it needs to have read
    or recorded, it has. -/
structure Moved (c : HostedProvider κ) (s : HostedObject κ) (clock : ℚ) (j : Nat) (call : Call) :
    Prop where
  arrived : call.now ≤ clock
  writes : call.stage.isWriting = true →
    ∃ before, s.calls[j]? = some before ∧ before.stage.isWriting = true
  loads : ∀ reads, call.alone = true → call.stage = .loading reads → Alone c s call reads
  records : ∀ row loaded result, call.stage = .writing row loaded result →
    ∃ certificate, result = .issued certificate ∧ Writing c s j row loaded certificate

theorem Moved.idle {clock : ℚ} {j : Nat} (harrived : call.now ≤ clock)
    (hwriting : call.stage.isWriting = false)
    (hloads : ∀ reads, call.alone = true → call.stage = .loading reads → Alone c s call reads) :
    Moved c s clock j call := by
  refine ⟨harrived, ?_, hloads, ?_⟩
  · intro hwrites
    rw [hwriting] at hwrites
    cases hwrites
  · intro row loaded result hstage
    rw [hstage] at hwriting
    cases hwriting

/-- Requests move on, and nothing is written. -/
theorem Kept.moves (h : Kept c s) (hsigned : s'.signed = s.signed) (hclock : s.clock ≤ s'.clock)
    (hrows : s'.rows = s.rows) (hdurable : s'.durable.Subperm s.durable)
    (hpromised : s'.promised.Subperm s.promised)
    (hcalls : ∀ (j : Nat) other, s'.calls[j]? = some other →
      s.calls[j]? = some other ∨ Moved c s s'.clock j other) : Kept c s' := by
  have hwrites : ∀ (j : Nat) other, s'.calls[j]? = some other → other.stage.isWriting = true →
      ∃ before, s.calls[j]? = some before ∧ before.stage.isWriting = true := by
    intro j other hj hwrites
    rcases hcalls j other hj with hsame | hmoved
    · exact ⟨other, hsame, hwrites⟩
    · exact hmoved.writes hwrites
  have halone : ∀ other reads, Alone c s other reads → Alone c s' other reads := by
    intro other reads hother
    refine ⟨?_, ?_, ?_⟩
    · intro other' hmem
      obtain ⟨j, hj⟩ := List.mem_iff_getElem?.mp hmem
      rw [Bool.eq_false_iff]
      intro hwriting
      obtain ⟨before, hbefore, hwriting⟩ := hwrites j other' hj hwriting
      rw [hother.quiet before (List.mem_of_getElem? hbefore)] at hwriting
      cases hwriting
    · rw [hsigned]
      exact hother.latest
    · intro row values hread
      exact (hother.holds row values hread).subperm (issuedIn_subperm hdurable _)
  have hwriting : ∀ (j : Nat) row loaded certificate, Writing c s j row loaded certificate →
      Writing c s' j row loaded certificate := by
    intro j row loaded certificate h
    have hfewer := (List.subperm_cons certificate).mpr hdurable
    refine ⟨?_, ?_, ?_, h.userKey, ?_, ?_⟩
    · intro k other hk hwriting
      obtain ⟨before, hbefore, hwriting⟩ := hwrites k other hk hwriting
      exact h.single k before hbefore hwriting
    · rw [hsigned]
      exact h.signed
    · rw [hsigned]
      exact h.latest
    · intro row
      exact (h.holds row).subperm (issuedIn_subperm hfewer _)
    · intro hrow
      rw [hrows]
      exact (h.written hrow).subperm (issuedIn_subperm hfewer _)
  refine ⟨?_, ?_, ?_, ?_, ?_, ?_⟩
  · intro other hmem
    obtain ⟨j, hj⟩ := List.mem_iff_getElem?.mp hmem
    rcases hcalls j other hj with hsame | hmoved
    · exact (h.arrived other (List.mem_of_getElem? hsame)).trans hclock
    · exact hmoved.arrived
  · intro certificate hmem
    rw [hsigned] at hmem
    exact (h.clocked certificate hmem).trans hclock
  · have hbefore := h.recorded.subperm hdurable
    unfold Recorded at hbefore ⊢
    rw [hsigned, hrows]
    exact hbefore
  · intro key
    exact (h.bounded key).subperm (issuedIn_subperm hpromised key)
  · intro j other reads hj hown hstage
    rcases hcalls j other hj with hsame | hmoved
    · exact halone other reads (h.alone j other reads hsame hown hstage)
    · exact halone other reads (hmoved.loads reads hown hstage)
  · intro j other row loaded result hj hstage
    have hbefore : ∃ certificate, result = .issued certificate ∧
        Writing c s j row loaded certificate := by
      rcases hcalls j other hj with hsame | hmoved
      · exact h.writing j other row loaded result hsame hstage
      · exact hmoved.records row loaded result hstage
    obtain ⟨certificate, hresult, hrecords⟩ := hbefore
    exact ⟨certificate, hresult, hwriting j row loaded certificate hrecords⟩

/-! ## Loading -/

/-- A call that stays without a certificate. -/
theorem Kept.stays (h : Kept c s) {stage : Stage} (hcall : s.calls[i]? = some call)
    (hbefore : call.stage.promised = none ∧ call.stage.ready = none)
    (hafter : stage.promised = none ∧ stage.ready = none) (hwriting : stage.isWriting = false)
    (halone : ∀ reads, call.alone = true → stage = .loading reads →
      Alone c s { call with stage } reads)
    (challenges : Challenges) (ledger : HostedIssuance) :
    Kept c { s with challenges, ledger, calls := s.setStage i call stage } := by
  have hdurable := filterMap_setStage (f := Stage.ready) hcall stage
  have hpromised := filterMap_setStage (f := Stage.promised) hcall stage
  rw [hbefore.2, hafter.2] at hdurable
  rw [hbefore.1, hafter.1] at hpromised
  refine h.moves rfl (le_refl s.clock) rfl ?_ ?_ ?_
  · exact (hdurable.symm.append_left s.certificates).subperm
  · exact (hpromised.symm.append_left s.certificates).subperm
  · intro j other hj
    rcases setStage_cases hcall hj with ⟨-, rfl⟩ | ⟨-, hj⟩
    · exact Or.inr (Moved.idle (h.arrived call (List.mem_of_getElem? hcall)) hwriting halone)
    · exact Or.inl hj

variable {row : Row}

theorem Alone.read {reads : Row → Read} (h : Alone c s call reads) {stage : Stage} {read : Read}
    (hread : ∀ values, read = .done values →
      Holds (call.now - RETAINED_ISSUANCE_MS)
        (c.issuedIn (c.keyOf call.request.userKey row) s.durable) values) :
    Alone c s { call with stage } (Function.update reads row read) := by
  refine ⟨h.quiet, h.latest, ?_⟩
  intro other values hdone
  by_cases hsame : other = row
  · subst hsame
    rw [Function.update_self] at hdone
    exact hread values hdone
  · rw [Function.update_of_ne hsame] at hdone
    exact h.holds other values hdone

variable {now : ℚ}

theorem Kept.begins (h : Kept c s) {request : EnrollmentRequest}
    (hstep : s.begins request now = some s') : Kept c s' := by
  unfold HostedObject.begins at hstep
  split at hstep
  case isFalse => cases hstep
  case isTrue hclock =>
    cases hstep
    refine h.moves rfl hclock rfl ?_ ?_ ?_
    · show (s.certificates ++ (s.calls ++ [_]).filterMap _).Subperm _
      rw [List.filterMap_append]
      exact (List.append_nil _ ▸ List.Subperm.refl _)
    · show (s.certificates ++ (s.calls ++ [_]).filterMap _).Subperm _
      rw [List.filterMap_append]
      exact (List.append_nil _ ▸ List.Subperm.refl _)
    · intro j other hj
      rcases getElem?_concat_cases hj with hj | ⟨-, rfl⟩
      · exact Or.inl hj
      · refine Or.inr (Moved.idle (le_refl now) rfl ?_)
        intro reads hquiet hreads
        cases hreads
        refine ⟨?_, ?_, ?_⟩
        · intro other hother
          dsimp only at hquiet
          rw [Bool.not_eq_true', List.any_eq_false] at hquiet
          exact Bool.eq_false_iff.mpr (hquiet other hother)
        · intro certificate hmem
          exact (h.clocked certificate hmem).trans hclock
        · intro row values hdone
          cases hdone

theorem Kept.checked (h : Kept c s) {row : Row} {ok : Bool}
    (hstep : s.checked c i row ok = some s') : Kept c s' := by
  obtain ⟨call, hcall, hstep⟩ := Option.bind_eq_some_iff.mp hstep
  split at hstep
  case h_2 => cases hstep
  case h_1 reads hstage =>
    have hbefore : call.stage.promised = none ∧ call.stage.ready = none := by
      rw [hstage]
      exact ⟨rfl, rfl⟩
    split at hstep
    case h_2 => cases hstep
    case h_1 hasking =>
      split at hstep
      · cases hstep
        refine h.stays hcall hbefore ⟨rfl, rfl⟩ rfl ?_ s.challenges s.ledger
        intro reads' hown hreads
        cases hreads
        have halone := h.alone i call reads hcall hown hstage
        refine halone.read ?_
        intro values hdone
        split at hdone
        · cases hdone
        · next habsent =>
          cases hdone
          -- no row, and so nothing it would have to hold
          have hholds := h.recorded call.now halone.latest (c.keyOf call.request.userKey row)
          rw [Option.not_isSome_iff_eq_none.mp habsent] at hholds
          exact hholds
      · cases hstep
        exact h.stays hcall hbefore ⟨rfl, rfl⟩ rfl (fun _ _ hreads => by cases hreads) _ _

theorem Kept.got (h : Kept c s) {ok : Bool} (hclean : Clean s (.got i row ok))
    (hstep : s.got c i row ok = some s') : Kept c s' := by
  obtain ⟨call, hcall, hstep⟩ := Option.bind_eq_some_iff.mp hstep
  split at hstep
  case h_2 => cases hstep
  case h_1 reads hstage =>
    have hbefore : call.stage.promised = none ∧ call.stage.ready = none := by
      rw [hstage]
      exact ⟨rfl, rfl⟩
    split at hstep
    case h_2 => cases hstep
    case h_1 hreading =>
      cases hstep
      refine h.stays hcall hbefore ⟨rfl, rfl⟩ rfl ?_ s.challenges s.ledger
      intro reads' hown hreads
      cases hreads
      have halone := h.alone i call reads hcall hown hstage
      refine halone.read ?_
      intro values hdone
      cases hdone
      have hok : ok = true := hclean
      rw [if_pos hok]
      have hholds := h.recorded call.now halone.latest (c.keyOf call.request.userKey row)
      exact hholds.compact.trans (retained_perm _ _).symm.subperm

theorem Kept.replies (h : Kept c s) (hstep : s.replies i = some s') : Kept c s' := by
  obtain ⟨call, hcall, hstep⟩ := Option.bind_eq_some_iff.mp hstep
  split at hstep
  case h_2 => cases hstep
  case h_1 result hstage =>
    cases hstep
    have hdurable := filterMap_setStage (f := Stage.ready) hcall .finished
    have hpromised := filterMap_setStage (f := Stage.promised) hcall .finished
    rw [hstage] at hdurable hpromised
    -- the certificate moves from the requests to the answers
    have hmoves : ∀ calls calls' : List NodeCertificate,
        calls.Perm ((certificateOf result).toList ++ calls') →
        (((⟨call.request, result⟩ :: s.answers).filterMap fun answer =>
          certificateOf answer.result) ++ calls').Perm (s.certificates ++ calls) := by
      intro calls calls' hperm
      have hcons : ((⟨call.request, result⟩ :: s.answers).filterMap fun answer =>
          certificateOf answer.result) = (certificateOf result).toList ++ s.certificates := by
        cases result <;> rfl
      rw [hcons, List.append_assoc]
      exact (List.perm_append_comm_assoc _ _ _).trans (hperm.symm.append_left s.certificates)
    refine h.moves rfl (le_refl s.clock) rfl ?_ ?_ ?_
    · exact (hmoves _ _ hdurable).subperm
    · exact (hmoves _ _ hpromised).subperm
    · intro j other hj
      rcases setStage_cases hcall hj with ⟨-, rfl⟩ | ⟨-, hj⟩
      · exact Or.inr (Moved.idle (h.arrived call (List.mem_of_getElem? hcall)) rfl
          fun _ _ hreads => by cases hreads)
      · exact Or.inl hj

theorem Kept.challenged (h : Kept c s) {nonce : JsString}
    (hstep : s.challenged c now nonce = some s') : Kept c s' := by
  unfold HostedObject.challenged at hstep
  split at hstep
  case isFalse => cases hstep
  case isTrue hclock =>
    cases hstep
    exact h.moves rfl hclock rfl (List.Subperm.refl _) (List.Subperm.refl _)
      fun j other hj => Or.inl hj

theorem Kept.evicted (h : Kept c s) : Kept c s.evicted := by
  refine h.moves rfl (le_refl s.clock) rfl ?_ ?_ ?_
  · exact ((List.nil_sublist _).append_left s.certificates).subperm
  · exact ((List.nil_sublist _).append_left s.certificates).subperm
  · intro j other hj
    cases hj

/-! ## Writing -/

variable {loaded : LoadedIssuance}

/-- What a row of the request that is writing counts, once it is written. -/
theorem Writing.row_holds {row' : Row} (h : Writing c s i row loaded certificate)
    (hlatest : ∀ other ∈ s.signed, other.issuedAt ≤ now) :
    Holds (now - RETAINED_ISSUANCE_MS)
      (c.issuedIn (c.keyOf loaded.userKey row') (certificate :: s.durable))
      (timestamps (some (encode (loaded.row row')))) := by
  rw [timestamps_encode]
  exact (h.holds row').later (sub_le_sub_right (hlatest certificate h.signed) _)

variable {result : EnrollmentResult}

/-- A row is written, whether or not the put is acknowledged. -/
theorem Kept.lands (h : Kept c s) (hkeys : c.KeysApart) (hcall : s.calls[i]? = some call)
    (hstage : call.stage = .writing row loaded result) :
    Kept c { s with rows := s.write (c.keyOf loaded.userKey row) (encode (loaded.row row)) } := by
  obtain ⟨certificate, hresult, hwriting⟩ := h.writing i call row loaded result hcall hstage
  have hfewer : s.durable.Subperm (certificate :: s.durable) :=
    (List.sublist_cons_self certificate s.durable).subperm
  refine ⟨h.arrived, h.clocked, ?_, h.bounded, ?_, ?_⟩
  · intro now hlatest key
    show Holds _ _ (timestamps (if key = c.keyOf loaded.userKey row then _ else s.rows key))
    split
    · next hkey =>
      rw [hkey]
      exact (hwriting.row_holds hlatest).subperm (issuedIn_subperm hfewer _)
    · exact h.recorded now hlatest key
  · intro j other reads hj hown hreads
    have halone := h.alone j other reads hj hown hreads
    exact ⟨halone.quiet, halone.latest, halone.holds⟩
  · intro j other row' loaded' result' hj hstage'
    obtain ⟨certificate', hresult', hwriting'⟩ := h.writing j other row' loaded' result' hj hstage'
    refine ⟨certificate', hresult', hwriting'.single, hwriting'.signed, hwriting'.latest,
      hwriting'.userKey, hwriting'.holds, ?_⟩
    intro hrow
    -- nobody else is writing, so this is the request itself, at its second row
    have hsame : j = i := hwriting.single j other hj (by rw [hstage']; rfl)
    subst hsame
    cases hcall.symm.trans hj
    cases hstage.symm.trans hstage'
    subst hrow
    show Holds _ _ (timestamps (if c.ISSUANCE_JOURNAL_KEY = c.issuanceKeyFor loaded.userKey
      then _ else s.rows c.ISSUANCE_JOURNAL_KEY))
    rw [if_neg (Ne.symm (hkeys loaded.userKey))]
    exact hwriting'.written rfl

/-- A request whose put has failed. -/
theorem Kept.fails (h : Kept c s) (hcall : s.calls[i]? = some call)
    (hready : call.stage.ready = none) (ledger : HostedIssuance) :
    Kept c { s with ledger, calls := s.setStage i call .finished } := by
  have hdurable := filterMap_setStage (f := Stage.ready) hcall .finished
  have hpromised := filterMap_setStage (f := Stage.promised) hcall .finished
  rw [hready] at hdurable
  refine h.moves rfl (le_refl s.clock) rfl ?_ ?_ ?_
  · exact (hdurable.symm.append_left s.certificates).subperm
  · refine List.Subperm.trans ?_ ((hpromised.symm.append_left s.certificates).subperm)
    exact (List.subperm_append_left s.certificates).mpr (List.sublist_append_right _ _).subperm
  · intro j other hj
    rcases setStage_cases hcall hj with ⟨-, rfl⟩ | ⟨-, hj⟩
    · exact Or.inr (Moved.idle (h.arrived call (List.mem_of_getElem? hcall)) rfl
        fun _ _ hreads => by cases hreads)
    · exact Or.inl hj

/-- On to the row of the user. -/
theorem Kept.advances (h : Kept c s) (hcall : s.calls[i]? = some call)
    (hstage : call.stage = .writing .anybody loaded result)
    (hwritten : timestamps (s.rows c.ISSUANCE_JOURNAL_KEY) = loaded.anybody) :
    Kept c { s with calls := s.setStage i call (.writing .forUser loaded result) } := by
  have hdurable := filterMap_setStage (f := Stage.ready) hcall (.writing .forUser loaded result)
  have hpromised := filterMap_setStage (f := Stage.promised) hcall (.writing .forUser loaded result)
  rw [hstage] at hdurable hpromised
  have hpromised := (List.perm_append_left_iff _).mp hpromised
  refine h.moves rfl (le_refl s.clock) rfl ?_ ?_ ?_
  · exact (hdurable.symm.append_left s.certificates).subperm
  · exact (hpromised.symm.append_left s.certificates).subperm
  · intro j other hj
    rcases setStage_cases hcall hj with ⟨rfl, rfl⟩ | ⟨-, hj⟩
    · refine Or.inr ⟨h.arrived call (List.mem_of_getElem? hcall), ?_, ?_, ?_⟩
      · intro _
        exact ⟨call, hcall, by rw [hstage]; rfl⟩
      · intro reads _ hreads
        cases hreads
      · intro row loaded' result' hstage'
        cases hstage'
        obtain ⟨certificate, hresult, hwriting⟩ := h.writing j call _ _ _ hcall hstage
        refine ⟨certificate, hresult, hwriting.single, hwriting.signed, hwriting.latest,
          hwriting.userKey, hwriting.holds, ?_⟩
        intro _
        rw [hwritten]
        exact hwriting.holds .anybody
    · exact Or.inl hj

/-- A put that is acknowledged is the last of its request: both rows hold the issuance. -/
theorem Kept.records (h : Kept c s) (hcall : s.calls[i]? = some call)
    (hstage : call.stage = .writing .forUser loaded result)
    (hwritten : timestamps (s.rows (c.issuanceKeyFor loaded.userKey)) = loaded.forUser) :
    Kept c { s with calls := s.setStage i call (.replying result) } := by
  obtain ⟨certificate, hresult, hwriting⟩ := h.writing i call _ _ _ hcall hstage
  subst hresult
  have hdurable := filterMap_setStage (f := Stage.ready) hcall (.replying (.issued certificate))
  have hpromised := filterMap_setStage (f := Stage.promised) hcall (.replying (.issued certificate))
  rw [hstage] at hdurable hpromised
  have hpromised := (List.perm_append_left_iff _).mp hpromised
  have hmore : (s.certificates ++ (s.setStage i call (.replying (.issued certificate))).filterMap
      fun call => call.stage.ready).Subperm (certificate :: s.durable) := by
    refine List.Perm.subperm ?_
    refine (hdurable.symm.append_left s.certificates).trans ?_
    exact List.perm_middle
  have hwrites : s.calls[i]? = some call ∧ call.stage.isWriting = true := by
    rw [hstage]
    exact ⟨hcall, rfl⟩
  refine ⟨?_, h.clocked, ?_, ?_, ?_, ?_⟩
  · intro other hmem
    obtain ⟨j, hj⟩ := List.mem_iff_getElem?.mp hmem
    rcases setStage_cases hcall hj with ⟨-, rfl⟩ | ⟨-, hj⟩
    · exact h.arrived call (List.mem_of_getElem? hcall)
    · exact h.arrived other (List.mem_of_getElem? hj)
  · intro now hlatest key
    have hfloor : certificate.issuedAt - RETAINED_ISSUANCE_MS ≤ now - RETAINED_ISSUANCE_MS :=
      sub_le_sub_right (hlatest certificate hwriting.signed) _
    refine Holds.subperm ?_ (issuedIn_subperm hmore key)
    by_cases hshared : key = c.ISSUANCE_JOURNAL_KEY
    · rw [hshared]
      exact (hwriting.written rfl).later hfloor
    · by_cases huser : key = c.issuanceKeyFor loaded.userKey
      · have hholds := hwriting.holds .forUser
        rw [huser]
        show Holds _ _ (timestamps (s.rows (c.issuanceKeyFor loaded.userKey)))
        rw [hwritten]
        exact hholds.later hfloor
      · -- the issuance does not count there
        have hnot : ¬ c.Counts key certificate := by
          rintro (⟨hkey, -⟩ | hkey)
          · exact hshared hkey
          · rw [hwriting.userKey] at hkey
            exact huser hkey
        rw [issuedIn_cons, if_neg hnot]
        exact h.recorded now hlatest key
  · intro key
    exact (h.bounded key).subperm
      (issuedIn_subperm (hpromised.symm.append_left s.certificates).subperm key)
  · intro j other reads hj hown hreads
    rcases setStage_cases hcall hj with ⟨-, rfl⟩ | ⟨-, hj⟩
    · cases hreads
    · have hquiet := (h.alone j other reads hj hown hreads).quiet call
        (List.mem_of_getElem? hcall)
      rw [hwrites.2] at hquiet
      cases hquiet
  · intro j other row loaded' result' hj hstage'
    rcases setStage_cases hcall hj with ⟨-, rfl⟩ | ⟨hne, hj⟩
    · cases hstage'
    · have hsame := hwriting.single j other hj (by rw [hstage']; rfl)
      exact absurd hsame hne

theorem Kept.put (h : Kept c s) (hkeys : c.KeysApart) {outcome : Put}
    (hstep : s.put c i outcome = some s') : Kept c s' := by
  obtain ⟨call, hcall, hstep⟩ := Option.bind_eq_some_iff.mp hstep
  split at hstep
  case h_2 => cases hstep
  case h_1 row loaded result hstage =>
    have hlands := h.lands hkeys hcall hstage
    have hready : call.stage.ready = none := by
      rw [hstage]
      rfl
    cases outcome with
    | failedUnwritten =>
      cases hstep
      exact h.fails hcall hready .clear
    | failedWritten =>
      cases hstep
      exact hlands.fails hcall hready .clear
    | acknowledged =>
      cases hstep
      have hwritten : ∀ key, timestamps (s.write key (encode (loaded.row row)) key)
          = loaded.row row := by
        intro key
        show timestamps (if key = key then _ else s.rows key) = _
        rw [if_pos rfl, timestamps_encode]
      cases row with
      | anybody => exact hlands.advances hcall hstage (hwritten c.ISSUANCE_JOURNAL_KEY)
      | forUser => exact hlands.records hcall hstage (hwritten (c.issuanceKeyFor loaded.userKey))

/-! ## Certifying -/

/-- A request that has been alone is certified: what it has loaded and recorded holds what
    it has to, and there was room. -/
theorem Kept.issued (h : Kept c s) {reads : Row → Read} (hcall : s.calls[i]? = some call)
    (hstage : call.stage = .loading reads) (halone : Alone c s call reads)
    (hissuedAt : certificate.issuedAt = call.now) (huserKey : certificate.userKey = loaded.userKey)
    (hholds : ∀ row, Holds (call.now - RETAINED_ISSUANCE_MS)
      (c.issuedIn (c.keyOf loaded.userKey row) (certificate :: s.durable)) (loaded.row row))
    (hroom : ∀ key, c.Counts key certificate →
      (recent DEFAULT_ISSUANCE_WINDOW_MS call.now (c.issuedIn key s.durable)).length < c.limit key)
    (challenges : Challenges) (ledger : HostedIssuance) :
    Kept c (s.issued i call challenges ledger loaded certificate) := by
  have hdurable := filterMap_setStage (f := Stage.ready) hcall
    (.writing .anybody loaded (.issued certificate))
  have hpromised := filterMap_setStage (f := Stage.promised) hcall
    (.writing .anybody loaded (.issued certificate))
  rw [hstage] at hdurable hpromised
  -- nothing is recorded yet, and one more certificate may come to be answered
  have hsame : (s.issued i call challenges ledger loaded certificate).durable.Subperm
      s.durable := by
    refine List.Perm.subperm ?_
    show (s.certificates ++ (List.map _ _).filterMap _).Perm _
    rw [List.filterMap_map]
    exact hdurable.symm.append_left s.certificates
  have hmore : (s.issued i call challenges ledger loaded certificate).promised.Subperm
      (certificate :: s.durable) := by
    refine List.Perm.subperm ?_
    rw [← promised_of_quiet halone.quiet]
    show (s.certificates ++ (List.map _ _).filterMap _).Perm _
    rw [List.filterMap_map]
    exact (hpromised.symm.append_left s.certificates).trans List.perm_middle
  have harrived := h.arrived call (List.mem_of_getElem? hcall)
  have hcalls : ∀ (j : Nat) other,
      (s.issued i call challenges ledger loaded certificate).calls[j]? = some other →
      other.alone = false ∧
        (j = i ∧ other.now = call.now ∧
          other.stage = .writing .anybody loaded (.issued certificate) ∨
        j ≠ i ∧ other.stage.isWriting = false ∧
          ∃ before, s.calls[j]? = some before ∧ other.now = before.now) := by
    intro j other hj
    obtain ⟨before, hbefore, rfl⟩ := Option.map_eq_some_iff.mp (List.getElem?_map.symm.trans hj)
    refine ⟨rfl, ?_⟩
    rcases setStage_cases hcall hbefore with ⟨rfl, rfl⟩ | ⟨hne, hbefore⟩
    · exact Or.inl ⟨rfl, rfl, rfl⟩
    · exact Or.inr ⟨hne, halone.quiet before (List.mem_of_getElem? hbefore), before, hbefore, rfl⟩
  refine ⟨?_, ?_, ?_, ?_, ?_, ?_⟩
  · intro other hmem
    obtain ⟨j, hj⟩ := List.mem_iff_getElem?.mp hmem
    obtain ⟨-, ⟨-, hnow, -⟩ | ⟨-, -, before, hbefore, hnow⟩⟩ := hcalls j other hj
    · rw [hnow]
      exact harrived
    · rw [hnow]
      exact h.arrived before (List.mem_of_getElem? hbefore)
  · intro other hmem
    rcases List.mem_cons.mp hmem with rfl | hmem
    · rw [hissuedAt]
      exact harrived
    · exact h.clocked other hmem
  · intro now hlatest key
    have hbefore := h.recorded now (fun other hmem => hlatest other (List.mem_cons_of_mem _ hmem))
    exact (hbefore key).subperm (issuedIn_subperm hsame key)
  · intro key
    refine Bounded.subperm ?_ (issuedIn_subperm hmore key)
    have hbounded := h.bounded key
    rw [promised_of_quiet halone.quiet] at hbounded
    rw [issuedIn_cons, hissuedAt]
    split
    · next hcounts => exact hbounded.cons (hroom key hcounts)
    · exact hbounded
  · intro j other reads' hj hown _
    rw [(hcalls j other hj).1] at hown
    cases hown
  · intro j other row loaded' result' hj hstage'
    obtain ⟨-, ⟨rfl, -, hwriting⟩ | ⟨-, hidle, -⟩⟩ := hcalls j other hj
    · cases hwriting.symm.trans hstage'
      refine ⟨certificate, rfl, ?_, List.mem_cons_self, ?_, huserKey, ?_, ?_⟩
      · intro k other' hk hwrites
        obtain ⟨-, ⟨hsame, -⟩ | ⟨-, hidle, -⟩⟩ := hcalls k other' hk
        · exact hsame
        · rw [hidle] at hwrites
          cases hwrites
      · intro other' hmem
        rcases List.mem_cons.mp hmem with rfl | hmem
        · exact le_refl _
        · rw [hissuedAt]
          exact halone.latest other' hmem
      · intro row
        rw [hissuedAt]
        exact (hholds row).subperm
          (issuedIn_subperm ((List.subperm_cons certificate).mpr hsame) _)
      · intro hrow
        cases hrow
    · rw [hstage'] at hidle
      cases hidle

theorem Kept.certifies (h : Kept c s) (hkeys : c.KeysApart) (hclean : Clean s (.certifies i))
    (hstep : s.certifies c i = some s') : Kept c s' := by
  obtain ⟨call, reads, anybody, forUser, hcall, hstage, hanybody, hforUser, hcases⟩ :=
    certifies_cases hstep
  have hbefore : call.stage.promised = none ∧ call.stage.ready = none := by
    rw [hstage]
    exact ⟨rfl, rfl⟩
  rcases hcases with ⟨challenges, ledger, stage, rfl, hover⟩ |
    ⟨challenges, ledger, loaded, hflush, hissues, rfl⟩
  · rcases hover with rfl | ⟨refusal, reason, rfl, -⟩
    · exact h.stays hcall hbefore ⟨rfl, rfl⟩ rfl (fun _ _ hreads => by cases hreads) _ _
    · exact h.stays hcall hbefore ⟨rfl, rfl⟩ rfl (fun _ _ hreads => by cases hreads) _ _
  · have halone := h.alone i call reads hcall (hclean call hcall) hstage
    obtain ⟨huserRoom, hsharedRoom, hrecorded⟩ := port_records hissues
    cases hflush.symm.trans hrecorded
    have hshared := halone.holds .anybody anybody hanybody
    have huser := halone.holds .forUser forUser hforUser
    have hapart := hkeys call.request.userKey
    refine h.issued hcall hstage halone rfl rfl ?_ ?_ challenges ledger
    · intro row
      cases row with
      | forUser =>
        have hcounts : c.Counts (c.issuanceKeyFor call.request.userKey)
            (certify c.authority call.request call.now) := Or.inr rfl
        have hcons := huser.cons call.now
        show Holds _ (c.issuedIn (c.issuanceKeyFor call.request.userKey) _) _
        rw [issuedIn_cons, if_pos hcounts]
        exact hcons
      | anybody =>
        show Holds _ (c.issuedIn c.ISSUANCE_JOURNAL_KEY _) (if call.request.userKey ∈ c.reserved
          then anybody else anybody ++ [call.now])
        rw [issuedIn_cons]
        by_cases hreserved : call.request.userKey ∈ c.reserved
        · -- what is issued in the reserved lane does not count here
          have hnot : ¬ c.Counts c.ISSUANCE_JOURNAL_KEY
              (certify c.authority call.request call.now) := by
            rintro (⟨-, hopen⟩ | hkey)
            · exact hopen hreserved
            · exact hapart hkey.symm
          rw [if_pos hreserved, if_neg hnot]
          exact hshared
        · have hcounts : c.Counts c.ISSUANCE_JOURNAL_KEY
              (certify c.authority call.request call.now) := Or.inl ⟨rfl, hreserved⟩
          rw [if_neg hreserved, if_pos hcounts]
          exact hshared.cons call.now
    · intro key hcounts
      rcases hcounts with ⟨rfl, hopen⟩ | rfl
      · rw [HostedProvider.limit, if_pos rfl]
        exact lt_of_le_of_lt (hshared.recent_le (window_le_retained call.now)) (hsharedRoom hopen)
      · rw [HostedProvider.limit, if_neg (hkeys _)]
        exact lt_of_le_of_lt (huser.recent_le (window_le_retained call.now)) huserRoom

theorem Kept.step (h : Kept c s) (hkeys : c.KeysApart) {e : Event} (hclean : Clean s e)
    (hstep : step c s e = some s') : Kept c s' := by
  cases e with
  | begins request now => exact h.begins hstep
  | checked i row ok => exact h.checked hstep
  | got i row ok => exact h.got hclean hstep
  | certifies i => exact h.certifies hkeys hclean hstep
  | put i outcome => exact h.put hkeys hstep
  | replies i => exact h.replies hstep
  | challenged now nonce => exact h.challenged hstep
  | evicted =>
    cases hstep
    exact h.evicted

theorem kept_start (rows : κ → Option StoredRow) (clock : ℚ) : Kept c (start rows clock) := by
  refine ⟨?_, ?_, ?_, ?_, ?_, ?_⟩
  · intro call hmem
    cases hmem
  · intro certificate hmem
    cases hmem
  · intro now _ key
    exact List.nil_subperm
  · intro key last
    exact Nat.zero_le _
  · intro i call reads hcall
    cases hcall
  · intro i call row loaded result hcall
    cases hcall

theorem reaches_kept (hkeys : c.KeysApart) {clock : ℚ}
    (h : Reaches (step c) Clean (start rows clock) s) : Kept c s :=
  h.invariant (kept_start rows clock) fun _ _ _ hclean hkept hstep => hkept.step hkeys hclean hstep

end HostedObject

end O2Fabric.Cloudflare
