/-
  O2Fabric.Core.EnrollmentAuthority.SingleUse

  Challenges are minted and spent by any number of peers in any order, at any
  clock reading.  A nonce is drawn once.
-/

import O2Fabric.Core.EnrollmentAuthority
import O2Fabric.Lib.Steps

namespace O2Fabric.EnrollmentAuthority

open Steps

/-! ## Minting drops what has expired, and nothing else -/

theorem get?_foldl_delete (gone : List (JsString × ℚ)) (live : Challenges) (nonce : JsString) :
    (gone.foldl (fun live e => live.delete e.1) live).get? nonce
      = if nonce ∈ gone.map Prod.fst then none else live.get? nonce := by
  induction gone generalizing live with
  | nil => rfl
  | cons e gone ih =>
    rw [List.foldl_cons, ih, InsertionMap.get?_delete, List.map_cons]
    by_cases hhead : nonce = e.1
    · simp [hhead]
    · have hrest : nonce ∈ e.1 :: gone.map Prod.fst ↔ nonce ∈ gone.map Prod.fst := by
        rw [List.mem_cons, or_iff_right hhead]
      rw [if_neg hhead]
      by_cases hin : nonce ∈ gone.map Prod.fst
      · rw [if_pos hin, if_pos (hrest.mpr hin)]
      · rw [if_neg hin, if_neg (fun h => hin (hrest.mp h))]

theorem get?_mintChallenge (o : AuthorityOptions) (challenges : Challenges) (now : ℚ)
    (nonce other : JsString) :
    (mintChallenge o challenges now nonce).1.get? other
      = if other = nonce then some (now + o.challengeTtlMs)
        else (challenges.get? other).filter fun expiresAt => decide (now < expiresAt) := by
  show ((((challenges.entries.filter fun e => decide (e.2 ≤ now)).foldl
    (fun live e => live.delete e.1) challenges)).set nonce (now + o.challengeTtlMs)).get? other = _
  rw [InsertionMap.get?_set]
  by_cases hnonce : other = nonce
  · rw [if_pos hnonce, if_pos hnonce]
  · rw [if_neg hnonce, if_neg hnonce, get?_foldl_delete]
    have hexpired : other ∈ (challenges.entries.filter fun e => decide (e.2 ≤ now)).map Prod.fst ↔
        ∃ expiresAt, challenges.get? other = some expiresAt ∧ expiresAt ≤ now := by
      simp only [List.mem_map, List.mem_filter, decide_eq_true_eq]
      constructor
      · rintro ⟨⟨key, expiresAt⟩, ⟨hmem, hle⟩, rfl⟩
        exact ⟨expiresAt, InsertionMap.get?_eq_some.mpr hmem, hle⟩
      · rintro ⟨expiresAt, hget, hle⟩
        exact ⟨(other, expiresAt), ⟨InsertionMap.get?_eq_some.mp hget, hle⟩, rfl⟩
    cases hget : challenges.get? other with
    | none =>
      rw [hget] at hexpired
      simp [hexpired]
    | some expiresAt =>
      rw [hget] at hexpired
      by_cases hle : expiresAt ≤ now
      · have hin := hexpired.mpr ⟨expiresAt, rfl, hle⟩
        rw [if_pos hin]
        simp [Option.filter, not_lt.mpr hle]
      · have hout : ¬ other ∈ (challenges.entries.filter
            fun e => decide (e.2 ≤ now)).map Prod.fst := by
          intro hin
          obtain ⟨late, heq, hlate⟩ := hexpired.mp hin
          cases heq
          exact hle hlate
        rw [if_neg hout]
        simp [Option.filter, not_le.mp hle]

/-! ## Spending -/

structure Spends (o : AuthorityOptions) (challenges : Challenges) (request : EnrollmentRequest)
    (now : ℚ) (nonce : JsString) : Prop where
  answers : ∃ proof, request.freshness = .answer nonce proof ∧
    o.keys.verify proof (challengeAnswerBytes nonce request.nodeKey request.userKey)
      request.nodeKey = true
  unspent : ∃ expiresAt, challenges.get? nonce = some expiresAt ∧ now < expiresAt

variable {p : Platform} {o : AuthorityOptions} {challenges : Challenges}
  {request : EnrollmentRequest} {now : ℚ}

/-- A redemption spends the challenge it answers, or is refused and changes nothing. -/
theorem redeemChallenge_cases (p : Platform) (o : AuthorityOptions) (challenges : Challenges)
    (request : EnrollmentRequest) (now : ℚ) :
    (∃ nonce, Spends o challenges request now nonce ∧
      redeemChallenge p o challenges request now = (challenges.delete nonce, none)) ∨
    ∃ refused, redeemChallenge p o challenges request now = (challenges, some refused) := by
  unfold redeemChallenge
  cases hfreshness : request.freshness with
  | answersNoChallenge => exact Or.inr ⟨_, rfl⟩
  | answer nonce proof =>
    cases hget : challenges.get? nonce with
    | none =>
      simp only [hget]
      exact Or.inr ⟨_, rfl⟩
    | some expiresAt =>
      simp only [hget]
      by_cases hexpired : expiresAt ≤ now
      · rw [if_pos hexpired]
        exact Or.inr ⟨_, rfl⟩
      · rw [if_neg hexpired]
        by_cases hproof : o.keys.verify proof
            (challengeAnswerBytes nonce request.nodeKey request.userKey) request.nodeKey = true
        · rw [if_pos hproof]
          exact Or.inl ⟨nonce, ⟨⟨proof, hfreshness, hproof⟩, expiresAt, hget,
            not_le.mp hexpired⟩, rfl⟩
        · rw [if_neg hproof]
          exact Or.inr ⟨_, rfl⟩

/-! ## Any interleaving -/

inductive ChallengeEvent
  | mint (now : ℚ) (nonce : JsString)
  | redeem (request : EnrollmentRequest) (now : ℚ)
  deriving DecidableEq

/-- A challenge that was spent: the request that answered it, and when. -/
structure Spent where
  nonce : JsString
  request : EnrollmentRequest
  now : ℚ

/-- What the authority holds, every challenge it minted, and every redemption that was let
    through. -/
structure Exchanged where
  challenges : Challenges
  minted : List EnrollmentChallenge
  spent : List Spent

namespace Exchanged

def new : Exchanged := ⟨.empty, [], []⟩

/-- The nonce a request says it answers. -/
def nonceOf (request : EnrollmentRequest) : JsString :=
  match request.freshness with
  | .answersNoChallenge => []
  | .answer nonce _ => nonce

def step (p : Platform) (o : AuthorityOptions) (s : Exchanged) : ChallengeEvent → Option Exchanged
  | .mint now nonce =>
    some ⟨(mintChallenge o s.challenges now nonce).1,
      (mintChallenge o s.challenges now nonce).2 :: s.minted, s.spent⟩
  | .redeem request now =>
    some ⟨(redeemChallenge p o s.challenges request now).1, s.minted,
      if (redeemChallenge p o s.challenges request now).2 = none
        then ⟨nonceOf request, request, now⟩ :: s.spent else s.spent⟩

/-- A nonce that is drawn was not drawn before. -/
def Fresh (s : Exchanged) : ChallengeEvent → Prop
  | .mint _ nonce => nonce ∉ s.minted.map EnrollmentChallenge.nonce
  | .redeem _ _ => True

instance (s : Exchanged) : (event : ChallengeEvent) → Decidable (s.Fresh event)
  | .mint _ nonce => inferInstanceAs (Decidable (nonce ∉ s.minted.map EnrollmentChallenge.nonce))
  | .redeem _ _ => instDecidableTrue

variable {s s' : Exchanged}

/-- What one redemption leaves. -/
theorem step_redeem (h : s.step p o (.redeem request now) = some s') :
    (∃ nonce, Spends o s.challenges request now nonce ∧
      s' = ⟨s.challenges.delete nonce, s.minted, ⟨nonce, request, now⟩ :: s.spent⟩) ∨ s' = s := by
  cases h
  rcases redeemChallenge_cases p o s.challenges request now with
    ⟨nonce, hspends, hresult⟩ | ⟨refused, hresult⟩
  · left
    obtain ⟨proof, hfreshness, -⟩ := hspends.answers
    have hnonce : nonceOf request = nonce := by
      unfold nonceOf
      rw [hfreshness]
    refine ⟨nonce, hspends, ?_⟩
    rw [hresult, hnonce]
    rfl
  · right
    rw [hresult]
    rfl

/-- A spent challenge was minted, was answered for just this nonce and these keys, and had not
    expired. -/
structure SpentRightly (o : AuthorityOptions) (minted : List EnrollmentChallenge)
    (spent : Spent) : Prop where
  answers : ∃ proof, spent.request.freshness = .answer spent.nonce proof ∧
    o.keys.verify proof
      (challengeAnswerBytes spent.nonce spent.request.nodeKey spent.request.userKey)
      spent.request.nodeKey = true
  inTime : ∃ expiresAt, ⟨spent.nonce, expiresAt⟩ ∈ minted ∧ spent.now < expiresAt

theorem SpentRightly.mono {minted minted' : List EnrollmentChallenge} {spent : Spent}
    (h : SpentRightly o minted spent) (hsubset : minted ⊆ minted') :
    SpentRightly o minted' spent := by
  obtain ⟨expiresAt, hminted, hlate⟩ := h.inTime
  exact ⟨h.answers, expiresAt, hsubset hminted, hlate⟩

/-- What holds after any interleaving. -/
structure Sound (o : AuthorityOptions) (s : Exchanged) : Prop where
  /-- No nonce was drawn twice. -/
  fresh : (s.minted.map EnrollmentChallenge.nonce).Nodup
  held : ∀ nonce expiresAt, s.challenges.get? nonce = some expiresAt →
    ⟨nonce, expiresAt⟩ ∈ s.minted
  gone : ∀ spent ∈ s.spent, s.challenges.get? spent.nonce = none
  once : (s.spent.map Spent.nonce).Nodup
  rightly : ∀ spent ∈ s.spent, SpentRightly o s.minted spent

theorem sound_new : Sound o new where
  fresh := List.nodup_nil
  held nonce expiresAt h := by cases h
  gone spent h := by cases h
  once := List.nodup_nil
  rightly spent h := by cases h

theorem Sound.mint (h : Sound o s) {nonce : JsString} (hfresh : s.Fresh (.mint now nonce))
    (hstep : s.step p o (.mint now nonce) = some s') : Sound o s' := by
  cases hstep
  refine ⟨List.nodup_cons.mpr ⟨hfresh, h.fresh⟩, ?_, ?_, h.once, ?_⟩
  · intro other expiresAt hheld
    rw [get?_mintChallenge] at hheld
    by_cases hother : other = nonce
    · rw [if_pos hother] at hheld
      cases hheld
      rw [hother]
      exact List.mem_cons_self
    · rw [if_neg hother] at hheld
      obtain ⟨hget, -⟩ := Option.filter_eq_some_iff.mp hheld
      exact List.mem_cons_of_mem _ (h.held other expiresAt hget)
  · intro spent hspent
    show (mintChallenge o s.challenges now nonce).1.get? spent.nonce = none
    obtain ⟨expiresAt, hminted, -⟩ := (h.rightly spent hspent).inTime
    have hother : spent.nonce ≠ nonce := by
      rintro rfl
      exact hfresh (List.mem_map_of_mem (f := EnrollmentChallenge.nonce) hminted)
    rw [get?_mintChallenge, if_neg hother, h.gone spent hspent]
    rfl
  · exact fun spent hspent => (h.rightly spent hspent).mono (List.subset_cons_self _ _)

theorem Sound.redeem (h : Sound o s) (hstep : s.step p o (.redeem request now) = some s') :
    Sound o s' := by
  rcases step_redeem hstep with ⟨nonce, hspends, rfl⟩ | rfl
  · obtain ⟨expiresAt, hheld, hlate⟩ := hspends.unspent
    have hminted := h.held nonce expiresAt hheld
    refine ⟨h.fresh, ?_, ?_, ?_, ?_⟩
    · intro other expires hother
      rw [InsertionMap.get?_delete] at hother
      by_cases hnonce : other = nonce
      · rw [if_pos hnonce] at hother
        cases hother
      · rw [if_neg hnonce] at hother
        exact h.held other expires hother
    · intro spent hspent
      show (s.challenges.delete nonce).get? spent.nonce = none
      rw [InsertionMap.get?_delete]
      rcases List.mem_cons.mp hspent with rfl | hspent
      · exact if_pos rfl
      · rw [h.gone spent hspent, ite_self]
    · -- it was held, so it was not spent before
      have hnew : nonce ∉ s.spent.map Spent.nonce := by
        intro hin
        obtain ⟨spent, hspent, hsame⟩ := List.mem_map.mp hin
        have hgone := h.gone spent hspent
        rw [hsame, hheld] at hgone
        cases hgone
      exact List.nodup_cons.mpr ⟨hnew, h.once⟩
    · intro spent hspent
      rcases List.mem_cons.mp hspent with rfl | hspent
      · exact ⟨hspends.answers, expiresAt, hminted, hlate⟩
      · exact h.rightly spent hspent
  · exact h

theorem sound_of_reaches (h : Reaches (step p o) Fresh new s) : Sound o s := by
  refine h.invariant sound_new ?_
  intro s event s' hfresh hsound hstep
  cases event with
  | mint now nonce => exact hsound.mint hfresh hstep
  | redeem request now => exact hsound.redeem hstep

/-- Every challenge is spent at most once, in time, by an answer to just it from these keys; a
    refused redemption spends none; and minting drops none that could still be spent. -/
theorem single_use (p : Platform) (o : AuthorityOptions) (s : Exchanged)
    (h : Reaches (step p o) Fresh new s) :
    (s.spent.map Spent.nonce).Nodup ∧
    (∀ spent ∈ s.spent, SpentRightly o s.minted spent) ∧
    (∀ request now challenges refused,
      redeemChallenge p o s.challenges request now = (challenges, some refused) →
      challenges = s.challenges) ∧
    (∀ nonce expiresAt, s.challenges.get? nonce = some expiresAt →
      ∀ now drawn, now < expiresAt → s.Fresh (.mint now drawn) →
      (mintChallenge o s.challenges now drawn).1.get? nonce = some expiresAt) := by
  have hsound := sound_of_reaches h
  refine ⟨hsound.once, hsound.rightly, ?_, ?_⟩
  · intro request now challenges refused hredeem
    rcases redeemChallenge_cases p o s.challenges request now with
      ⟨nonce, -, hresult⟩ | ⟨other, hresult⟩
    · rw [hresult] at hredeem
      cases hredeem
    · rw [hresult] at hredeem
      cases hredeem
      rfl
  · intro nonce expiresAt hheld now drawn hlate hfresh
    have hother : nonce ≠ drawn := by
      rintro rfl
      exact hfresh (List.mem_map_of_mem (f := EnrollmentChallenge.nonce) (hsound.held _ _ hheld))
    rw [get?_mintChallenge, if_neg hother, hheld]
    simp [Option.filter, hlate]

def keyedAuthority : AuthorityOptions where
  keys := ⟨js "issuer", fun _ => js "signed", none, fun signature _ key => decide (signature = key)⟩
  maxIssuedPerWindow := .issuesWithoutAnAggregateBudget

/-- A request of node `a` that answers the challenge with this nonce. -/
def answering (nonce proof : JsString) : EnrollmentRequest where
  nodeKey := js "a"
  userKey := js "u"
  operatorId := operatorIdFor (js "u")
  discoverability := .seed
  relayIds := []
  proofOfPossession := js "a"
  ownerProof := js "u"
  freshness := .answer nonce proof

/-- A junk answer, the right one, and the right one again. -/
theorem single_use_once : ∃ s, Reaches (step plain keyedAuthority) Fresh new s ∧
    s.spent.map Spent.now = [30] ∧ (s.spent.map Spent.nonce).Nodup := by
  have hcomputed : (runWhere (step plain keyedAuthority) Fresh new
      [.mint 10 (js "n"), .redeem (answering (js "n") (js "b")) 20,
        .redeem (answering (js "n") (js "a")) 30, .redeem (answering (js "n") (js "a")) 40]).map
      (fun s => s.spent.map Spent.now) = some [30] := by decide +kernel
  obtain ⟨s, hrun, honce⟩ := Option.map_eq_some_iff.mp hcomputed
  have hreach : Reaches (step plain keyedAuthority) Fresh new s := Reaches.of_runWhere hrun
  exact ⟨s, hreach, honce, (single_use plain keyedAuthority s hreach).1⟩

end Exchanged

end O2Fabric.EnrollmentAuthority
