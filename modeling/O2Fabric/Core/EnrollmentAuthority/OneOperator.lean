/-
  O2Fabric.Core.EnrollmentAuthority.OneOperator

  Whether one user key is one operator.

  A user key is named by a string.  Its holder is proved over the bytes the
  string decodes to, but the operator identity is cut out of the string and the
  budget is counted under it, and many strings decode to one key.  `OneSpelling`
  is what a sequence of enrolments has to keep to for that not to matter.
-/

import O2Fabric.Core.EnrollmentAuthority.Budgets
import O2Fabric.Js.Hex
import Mathlib.Data.List.Induction

namespace O2Fabric.EnrollmentAuthority

open SlidingWindow

/-- The strings decode to the same key, of 32 bytes. -/
def SameKey (a b : JsString) : Prop := fromHex a = fromHex b ∧ (fromHex a).length = 32

instance (a b : JsString) : Decidable (SameKey a b) := inferInstanceAs (Decidable (_ ∧ _))

/-- When certificates were issued to a key, however it was spelled. -/
def timesOfKey (issues : List Issue) (userKey : JsString) : List ℚ :=
  (issues.filter fun issue => decide (SameKey issue.1 userKey)).map Prod.snd

/-- One user key is one operator: it has one operator identity, the count of its certificates that
    its next enrolment is measured by is of all of them, and they keep one budget. -/
structure OneOperator (o : AuthorityOptions) (issued : List NodeCertificate) : Prop where
  operator : ∀ a ∈ issued, ∀ b ∈ issued, SameKey a.userKey b.userKey → a.operatorId = b.operatorId
  counted : ∀ a ∈ issued, (fromHex a.userKey).length = 32 →
    timesOf (issuesOf issued) a.userKey = timesOfKey (issuesOf issued) a.userKey
  budget : ∀ a ∈ issued, Bounded o.windowMs o.maxPerWindow (timesOfKey (issuesOf issued) a.userKey)

/-- Certificates for one key spell it the same way. -/
def OneSpelling (issued : List NodeCertificate) : Prop :=
  ∀ a ∈ issued, ∀ b ∈ issued, SameKey a.userKey b.userKey → a.userKey = b.userKey

section

variable {σ : Type} (p : Platform) (o : AuthorityOptions) (encodes : NodeCertificate → Bool)
  (ledger : IssuanceLedger σ)

/-- The limits leave room for one more certificate, and its forms and its record can be made. -/
structure Room (history : σ) (call : Call) : Prop where
  user : ∃ times, ledger.issuedTo history call.request.userKey = some times ∧
    (recent o.windowMs call.now times).length < o.maxPerWindow
  anybody : ∀ limit, o.maxIssuedPerWindow = .perWindow limit →
    ∃ times, ledger.issuedToAnybody history = some times ∧
      (recent o.windowMs call.now times).length < limit
  recorded : ∃ history', ledger.record history call.request.userKey call.now = some history'
  encoded : encodes (certify o call.request call.now) = true

/-- A user key that was certified is spelled as it was then, unless the request is refused all the
    same: it is not entitled to what it asks for, or there is no room for it. -/
def Spelled (s : Served σ) (call : Call) : Prop :=
  ∀ a ∈ s.issued, SameKey a.userKey call.request.userKey →
    a.userKey = call.request.userKey ∨ entitlement o call.request ≠ none ∨
      ¬ Room o encodes ledger s.history call

def AllSpelled (start : σ) (calls : List Call) : Prop :=
  ∀ before call after, calls = before ++ call :: after →
    Spelled o encodes ledger (served p o encodes ledger start before) call

end

/-! ## Spellings and counts -/

variable {issued : List NodeCertificate} {a : NodeCertificate}

theorem mem_issuesOf (h : a ∈ issued) :
    (a.userKey, a.issuedAt) ∈ issuesOf issued :=
  List.mem_map_of_mem (f := fun certificate => (certificate.userKey, certificate.issuedAt)) h

/-- Counting by string and by key agree where every certificate is spelled alike. -/
theorem timesOf_eq_timesOfKey (h : OneSpelling issued) (ha : a ∈ issued)
    (hlength : (fromHex a.userKey).length = 32) :
    timesOf (issuesOf issued) a.userKey = timesOfKey (issuesOf issued) a.userKey := by
  unfold timesOf timesOfKey
  congr 1
  apply List.filter_congr
  intro issue hissue
  obtain ⟨b, hb, rfl⟩ := List.mem_map.mp hissue
  have hiff : b.userKey = a.userKey ↔ SameKey b.userKey a.userKey := by
    constructor
    · intro hsame
      exact ⟨congrArg fromHex hsame, by rw [hsame]; exact hlength⟩
    · exact h b hb a ha
  exact decide_eq_decide.mpr hiff

/-- Where the two counts agree, so do the spellings. -/
theorem eq_of_counted {b : NodeCertificate} (hb : b ∈ issued)
    (hcounted : timesOf (issuesOf issued) a.userKey = timesOfKey (issuesOf issued) a.userKey)
    (hkey : SameKey b.userKey a.userKey) (hlength : (fromHex a.userKey).length = 32) :
    b.userKey = a.userKey := by
  -- the issues counted by string are among those counted by key, and as many
  have hsublist : ((issuesOf issued).filter fun issue => decide (issue.1 = a.userKey)).Sublist
      ((issuesOf issued).filter fun issue => decide (SameKey issue.1 a.userKey)) := by
    apply List.monotone_filter_right
    intro issue hissue
    rw [decide_eq_true_eq] at hissue ⊢
    exact ⟨congrArg fromHex hissue, by rw [hissue]; exact hlength⟩
  have hcount := congrArg List.length hcounted
  rw [timesOf, timesOfKey, List.length_map, List.length_map] at hcount
  have hsame := hsublist.eq_of_length hcount
  have hmem : (b.userKey, b.issuedAt) ∈
      (issuesOf issued).filter fun issue => decide (SameKey issue.1 a.userKey) :=
    List.mem_filter.mpr ⟨mem_issuesOf hb, decide_eq_true hkey⟩
  rw [← hsame] at hmem
  exact of_decide_eq_true (List.mem_filter.mp hmem).2

theorem SameKey.symm {a b : JsString} (h : SameKey a b) : SameKey b a :=
  ⟨h.1.symm, by rw [← h.1]; exact h.2⟩

/-- What was issued says what its user key derives. -/
def Derived (issued : List NodeCertificate) : Prop :=
  ∀ a ∈ issued, a.operatorId = operatorIdFor a.userKey

theorem oneOperator_iff {o : AuthorityOptions} (hderived : Derived issued)
    (hbounded : ∀ userKey, Bounded o.windowMs o.maxPerWindow (timesOf (issuesOf issued) userKey)) :
    OneOperator o issued ↔ OneSpelling issued := by
  constructor
  · intro h a ha b hb hkey
    have hlength : (fromHex b.userKey).length = 32 := hkey.symm.2
    exact eq_of_counted ha (h.counted b hb hlength) hkey hlength
  · intro h
    refine ⟨?_, ?_, ?_⟩
    · intro a ha b hb hkey
      rw [hderived a ha, hderived b hb, h a ha b hb hkey]
    · exact fun a ha hlength => timesOf_eq_timesOfKey h ha hlength
    · intro a ha
      by_cases hlength : (fromHex a.userKey).length = 32
      · rw [← timesOf_eq_timesOfKey h ha hlength]
        exact hbounded a.userKey
      · -- nothing is spelled as a key that has another length
        have hnone : timesOfKey (issuesOf issued) a.userKey = [] := by
          unfold timesOfKey
          rw [List.map_eq_nil_iff, List.filter_eq_nil_iff]
          intro issue _ hsame
          exact hlength (of_decide_eq_true hsame).symm.2
        rw [hnone]
        exact bounded_nil

/-! ## Sequences of enrolments -/

variable {σ : Type} {p : Platform} {o : AuthorityOptions} {encodes : NodeCertificate → Bool}
  {ledger : IssuanceLedger σ} {s : Served σ} {call : Call} {start : σ}

/-- A request that is entitled and has room is certified. -/
theorem serve_issues (hentitled : entitlement o call.request = none)
    (hroom : Room o encodes ledger s.history call) :
    ∃ history, serve p o encodes ledger s call
      = ⟨history, s.issued ++ [certify o call.request call.now]⟩ := by
  obtain ⟨times, htimes, huser⟩ := hroom.user
  obtain ⟨history', hrecorded⟩ := hroom.recorded
  have haggregate : aggregate p o ledger s.history call.now = some none := by
    unfold aggregate
    cases hbudget : o.maxIssuedPerWindow with
    | issuesWithoutAnAggregateBudget => rfl
    | perWindow limit =>
      obtain ⟨all, hall, hshared⟩ := hroom.anybody limit hbudget
      simp [hall, not_le.mpr hshared]
  have henrol : enrol p o ledger s.history call.request call.now
      = some (history', .issued (certify o call.request call.now)) := by
    unfold enrol
    rw [hentitled]
    simp [htimes, not_le.mpr huser, haggregate, hrecorded]
  refine ⟨history', ?_⟩
  unfold serve enrolOrThrow
  simp only [henrol, hroom.encoded, if_true]

/-- A call that issues is entitled and has room. -/
theorem serve_issued_cases (p : Platform) (o : AuthorityOptions)
    (encodes : NodeCertificate → Bool) (ledger : IssuanceLedger σ) (s : Served σ) (call : Call) :
    (entitlement o call.request = none ∧ Room o encodes ledger s.history call ∧
      (serve p o encodes ledger s call).issued = s.issued ++ [certify o call.request call.now]) ∨
    (serve p o encodes ledger s call).issued = s.issued := by
  rcases serve_cases p o encodes ledger s call with
    ⟨history, hissues, hentitled, hencodes, -, hserved⟩ | ⟨-, hsame⟩
  · left
    refine ⟨hentitled, ⟨hissues.user, hissues.anybody, ⟨history, hissues.recorded⟩, hencodes⟩, ?_⟩
    rw [hserved]
  · right
    rw [hsame]

theorem served_concat (p : Platform) (o : AuthorityOptions) (encodes : NodeCertificate → Bool)
    (ledger : IssuanceLedger σ) (start : σ) (calls : List Call) (call : Call) :
    served p o encodes ledger start (calls ++ [call])
      = serve p o encodes ledger (served p o encodes ledger start calls) call := by
  unfold served
  rw [List.foldl_append]
  rfl

theorem derived_served (calls : List Call) :
    Derived (served p o encodes ledger start calls).issued := by
  induction calls using List.reverseRecOn with
  | nil => exact fun a ha => by cases ha
  | append_singleton calls call ih =>
    rw [served_concat]
    rcases serve_issued_cases p o encodes ledger (served p o encodes ledger start calls) call with
      ⟨-, -, hissued⟩ | hissued
    · rw [hissued]
      intro a ha
      rcases List.mem_append.mp ha with ha | ha
      · exact ih a ha
      · rw [List.mem_singleton.mp ha]
        rfl
    · rw [hissued]
      exact ih

/-- One call: the certificates are spelled alike after it exactly if they were before it, and it is
    spelled as they are. -/
theorem oneSpelling_serve (h : OneSpelling s.issued) :
    OneSpelling (serve p o encodes ledger s call).issued ↔ Spelled o encodes ledger s call := by
  constructor
  · intro hafter a ha hkey
    by_cases hentitled : entitlement o call.request = none
    · by_cases hroom : Room o encodes ledger s.history call
      · left
        obtain ⟨history, hserved⟩ := @serve_issues σ p o encodes ledger s call hentitled hroom
        rw [hserved] at hafter
        exact hafter a (List.mem_append_left _ ha) (certify o call.request call.now)
          (List.mem_append_right _ List.mem_cons_self) hkey
      · exact Or.inr (Or.inr hroom)
    · exact Or.inr (Or.inl hentitled)
  · intro hspelled
    rcases serve_issued_cases p o encodes ledger s call with ⟨hentitled, hroom, hissued⟩ | hissued
    · have hnew : ∀ a ∈ s.issued, SameKey a.userKey call.request.userKey →
          a.userKey = call.request.userKey := by
        intro a ha hkey
        rcases hspelled a ha hkey with hsame | hrefused | hfull
        · exact hsame
        · exact absurd hentitled hrefused
        · exact absurd hroom hfull
      rw [hissued]
      intro a ha b hb hkey
      rcases List.mem_append.mp ha with ha | ha
      · rcases List.mem_append.mp hb with hb | hb
        · exact h a ha b hb hkey
        · rw [List.mem_singleton.mp hb] at hkey ⊢
          exact hnew a ha hkey
      · rw [List.mem_singleton.mp ha] at hkey ⊢
        rcases List.mem_append.mp hb with hb | hb
        · exact (hnew b hb hkey.symm).symm
        · rw [List.mem_singleton.mp hb]
    · rw [hissued]
      exact h

/-- Fewer certificates are spelled alike if more are. -/
theorem OneSpelling.before (h : OneSpelling (serve p o encodes ledger s call).issued) :
    OneSpelling s.issued := by
  rcases serve_issued_cases p o encodes ledger s call with ⟨-, -, hissued⟩ | hissued
  · rw [hissued] at h
    exact fun a ha b hb => h a (List.mem_append_left _ ha) b (List.mem_append_left _ hb)
  · rw [hissued] at h
    exact h

theorem allSpelled_concat (calls : List Call) (call : Call) :
    AllSpelled p o encodes ledger start (calls ++ [call]) ↔
      AllSpelled p o encodes ledger start calls ∧
        Spelled o encodes ledger (served p o encodes ledger start calls) call := by
  constructor
  · intro h
    refine ⟨?_, h calls call [] rfl⟩
    intro before one after hcalls
    apply h before one (after ++ [call])
    rw [hcalls, List.append_assoc]
    rfl
  · rintro ⟨hcalls, hlast⟩ before one after hsplit
    rcases List.eq_nil_or_concat after with rfl | ⟨after, last, rfl⟩
    · obtain ⟨rfl, hone⟩ := List.append_inj' hsplit rfl
      cases hone
      exact hlast
    · have hregrouped : calls ++ [call] = (before ++ one :: after) ++ [last] := by
        rw [hsplit, List.concat_eq_append, List.append_assoc]
        rfl
      obtain ⟨hinit, -⟩ := List.append_inj' hregrouped rfl
      exact hcalls before one after hinit

theorem oneSpelling_served (calls : List Call) :
    OneSpelling (served p o encodes ledger start calls).issued ↔
      AllSpelled p o encodes ledger start calls := by
  induction calls using List.reverseRecOn with
  | nil =>
    refine iff_of_true (fun a ha => by cases ha) ?_
    intro before call after hsplit
    exact absurd hsplit.symm (List.append_ne_nil_of_right_ne_nil _ (List.cons_ne_nil _ _))
  | append_singleton calls call ih =>
    rw [served_concat, allSpelled_concat]
    constructor
    · intro h
      have hbefore := h.before
      exact ⟨ih.mp hbefore, (oneSpelling_serve hbefore).mp h⟩
    · rintro ⟨hcalls, hlast⟩
      exact (oneSpelling_serve (ih.mpr hcalls)).mpr hlast

/-- Over any history that remembers, one user key is one operator exactly if every request spells
    its user key as those certified before it. -/
theorem one_key_one_operator (p : Platform) (o : AuthorityOptions)
    (encodes : NodeCertificate → Bool) {σ : Type} (ledger : IssuanceLedger σ)
    (of : σ → List Issue → Prop) (hremembers : Remembers ledger of) (start : σ)
    (hstart : of start []) (calls : List Call) :
    OneOperator o (served p o encodes ledger start calls).issued ↔
      AllSpelled p o encodes ledger start calls := by
  have hbudgeted : Budgeted o of (served p o encodes ledger start calls) :=
    budgeted_served hremembers hstart calls
  rw [oneOperator_iff (derived_served calls) hbudgeted.perUser]
  exact oneSpelling_served calls

/-! ## One key, spelled twice -/

/-- Signatures are over decoded keys: a key of 32 bytes is its own signature. -/
def decodingAuthority : AuthorityOptions where
  keys := ⟨js "issuer", fun _ => js "signed", none, fun signature _ key =>
    decide (fromHex signature = fromHex key ∧ (fromHex key).length = 32)⟩
  maxPerWindow := 1
  maxIssuedPerWindow := .issuesWithoutAnAggregateBudget

/-- A user's key in small letters. -/
def smallKey : JsString :=
  js "abababababababababababababababababababababababababababababababab"

def capitalKey : JsString :=
  js "ABABABABABABABABABABABABABABABABABABABABABABABABABABABABABABABAB"

/-- The holder of the key asks for itself under one spelling. -/
def asking (userKey : JsString) : EnrollmentRequest where
  nodeKey := smallKey
  userKey := userKey
  operatorId := operatorIdFor userKey
  discoverability := .seed
  relayIds := []
  proofOfPossession := smallKey
  ownerProof := smallKey
  freshness := .answersNoChallenge

/-- Asked twice under one spelling, the second time past the budget. -/
theorem one_key_one_operator_small :
    OneOperator decodingAuthority (served plain decodingAuthority (fun _ => true)
      InProcessIssuance.ledger .new [⟨asking smallKey, 0⟩, ⟨asking smallKey, 1⟩]).issued := by
  apply (one_key_one_operator plain decodingAuthority (fun _ => true) InProcessIssuance.ledger
    InProcessIssuance.Of InProcessIssuance.remembers .new InProcessIssuance.of_new _).mpr
  apply (oneSpelling_served _).mp
  unfold OneSpelling
  decide +kernel

/-- Two certificates in one window for one key, whose budget is one, and of two operators. -/
theorem spelled_twice : ¬ ∀ (p : Platform) (o : AuthorityOptions)
    (encodes : NodeCertificate → Bool) (calls : List Call),
    OneOperator o (served p o encodes InProcessIssuance.ledger .new calls).issued := by
  intro hclaim
  have hone := hclaim plain decodingAuthority (fun _ => true)
    [⟨asking smallKey, 0⟩, ⟨asking capitalKey, 1⟩]
  have hspelled := (oneOperator_iff (derived_served _)
    (budgeted_served InProcessIssuance.remembers InProcessIssuance.of_new _).perUser).mp hone
  revert hspelled
  unfold OneSpelling
  decide

end O2Fabric.EnrollmentAuthority
