/-
  O2Fabric.Cloudflare.HostedIdentity

  The seed of a hosted object: read, migrated from its plaintext form, or
  minted, under the platform's secret.

  One event is what a call does between two key derivations, which is where
  other calls run: its storage operations are not interleaved with theirs.  A
  call is evicted between two events, or right after a write inside one.
-/

import O2Fabric.Core.SealedSecret
import O2Fabric.Lib.Modify
import O2Fabric.Lib.Steps
import O2Fabric.Libp2p.IdentityProtection

namespace O2Fabric.Cloudflare

open O2Fabric.Libp2p

def HOSTED_IDENTITY_KEY : JsString := js "/identity/seed"

def SEALED_HOSTED_IDENTITY_KEY : JsString := js "/identity/sealed-seed"

def HOSTED_IDENTITY_SECRET_BINDING : JsString := js "O2_IDENTITY_SECRET"

/-- Why no seed is returned. -/
inductive HostedIdentityError
  | secretMissing
  | weakPassphrase (received : Nat)
  /-- An envelope that does not open, with what was thrown. -/
  | sealedUnlock (cause : JsString)
  | malformedStoredSeed (key : JsString) (received : Nat)
  /-- A storage operation threw. -/
  | storage

def HostedIdentityError.message : HostedIdentityError → JsString
  | .secretMissing => js "no " ++ HOSTED_IDENTITY_SECRET_BINDING
      ++ js " is bound to this Worker, so this object's identity "
      ++ js "seed cannot be sealed or opened — refusing to mint a new identity, which would give "
      ++ js "this object a different PeerId from the one published in every bootstrap list that "
      ++ js "names it. Set it with `wrangler secret put " ++ HOSTED_IDENTITY_SECRET_BINDING
      ++ js "` and the stored identity comes back unchanged."
  | .weakPassphrase received => weakPassphraseMessage received
  | .sealedUnlock cause => SEALED_HOSTED_IDENTITY_KEY ++ js " did not open — either "
      ++ HOSTED_IDENTITY_SECRET_BINDING ++ js " is not the secret this envelope was sealed under, or "
      ++ js "the envelope has been altered, and the authenticated cipher reports the same failure "
      ++ js "for both, so this refusal does not claim to know which (" ++ cause ++ js "). Refusing "
      ++ js "to mint a new identity — starting anyway would give this object a different PeerId and "
      ++ js "orphan every bootstrap list and multiaddr naming the old one."
  | .malformedStoredSeed key received => key ++ js " holds " ++ decimal received
      ++ js " bytes, expected exactly " ++ decimal SEED_BYTES
      ++ js " — refusing to reinterpret it as a new identity"
  | .storage => js "storage"

/-- The passphrase the seed is sealed under; an empty secret is an absent one. -/
def hostedIdentityProtection (secret : Option JsString) : Except HostedIdentityError JsString :=
  match secret with
  | none => .error .secretMissing
  | some [] => .error .secretMissing
  | some passphrase =>
    match assertUsablePassphrase (.passphrase passphrase) with
    | .error received => .error (.weakPassphrase received)
    | .ok () => .ok passphrase

/-- `openHostedSeed`, when the key is derived. -/
def openHostedSeed (v : SecretSeal) (stored : Bytes) (passphrase : JsString) :
    Except HostedIdentityError Bytes :=
  match v.openSecret stored passphrase with
  | .error cause => .error (.sealedUnlock cause)
  | .ok opened =>
    if opened.length ≠ SEED_BYTES then
      .error (.malformedStoredSeed SEALED_HOSTED_IDENTITY_KEY opened.length)
    else .ok opened

/-! ## Calls -/

/-- Which derivation a call awaits, or how it ended. -/
inductive SeedStage
  | opening (envelope : Bytes)
  /-- The plaintext seed it has read is sealed. -/
  | migrating (seed : Bytes)
  /-- The envelope it has read back is opened. -/
  | verifying (seed envelope : Bytes)
  | minting (seed : Bytes)
  | returned (seed : Bytes)
  | refused (error : HostedIdentityError)
  | evicted

structure SeedCall where
  passphrase : JsString
  stage : SeedStage

structure HostedSeedStore where
  /-- Under `HOSTED_IDENTITY_KEY`. -/
  plaintext : Option Bytes
  /-- Under `SEALED_HOSTED_IDENTITY_KEY`. -/
  envelope : Option Bytes

inductive Write
  | takes
  | throws
  /-- It does nothing and does not say so. -/
  | drops
  deriving DecidableEq

structure HostedSeeds where
  store : HostedSeedStore
  calls : List SeedCall
  minted : List Bytes

namespace HostedSeeds

def start (store : HostedSeedStore) : HostedSeeds := ⟨store, [], []⟩

variable (v : SecretSeal) (s : HostedSeeds)

def setStage (i : Nat) (call : SeedCall) (stage : SeedStage) : List SeedCall :=
  s.calls.set i { call with stage }

/-- What a call is left at that has or has not survived its last write. -/
def ifSurvives (survives : Bool) (stage : SeedStage) : SeedStage :=
  if survives then stage else .evicted

/-- `loadOrCreateHostedSeed(store, secret)` up to its first derivation, with the seed it
    draws if it mints. -/
def called (secret : Option JsString) (drawn : Seed) : HostedSeeds :=
  match hostedIdentityProtection secret with
  | .error error => { s with calls := s.calls ++ [⟨secret.getD [], .refused error⟩] }
  | .ok passphrase =>
    match s.store.envelope with
    | some envelope => { s with calls := s.calls ++ [⟨passphrase, .opening envelope⟩] }
    | none =>
      match s.store.plaintext with
      | some legacy =>
        let stage :=
          if legacy.length ≠ SEED_BYTES then
            SeedStage.refused (.malformedStoredSeed HOSTED_IDENTITY_KEY legacy.length)
          else .migrating legacy
        { s with calls := s.calls ++ [⟨passphrase, stage⟩] }
      | none => { s with
          calls := s.calls ++ [⟨passphrase, .minting drawn.bytes⟩]
          minted := drawn.bytes :: s.minted }

/-- The seed is sealed.  A migration writes the envelope and reads it back; a mint looks for
    an envelope once more, and writes its own where there is none. -/
def sealed_ (i : Nat) (drawn : Bytes) (put : Write) (survives : Bool) : Option HostedSeeds := do
  let call ← s.calls[i]?
  match call.stage with
  | .migrating seed =>
    let envelope := if put = .takes then some (v.sealSecret seed call.passphrase drawn)
      else s.store.envelope
    let stage :=
      if put = .throws then SeedStage.refused .storage
      else ifSurvives survives (match envelope with
        | none => .refused
            (.sealedUnlock (js "Error: the envelope this migration just wrote is not there"))
        | some envelope => .verifying seed envelope)
    some { s with store := { s.store with envelope }, calls := s.setStage i call stage }
  | .minting seed =>
    match s.store.envelope with
    | some envelope => some { s with calls := s.setStage i call (.opening envelope) }
    | none =>
      let envelope := if put = .takes then some (v.sealSecret seed call.passphrase drawn)
        else none
      let stage :=
        if put = .throws then SeedStage.refused .storage
        else ifSurvives survives (.returned seed)
      some { s with store := { s.store with envelope }, calls := s.setStage i call stage }
  | _ => none

/-- The envelope is opened.  A migration that finds the bytes it has sealed deletes the
    plaintext. -/
def opened (i : Nat) (delete : Write) (survives : Bool) : Option HostedSeeds := do
  let call ← s.calls[i]?
  match call.stage with
  | .opening envelope =>
    let stage := match openHostedSeed v envelope call.passphrase with
      | .error error => SeedStage.refused error
      | .ok seed => .returned seed
    some { s with calls := s.setStage i call stage }
  | .verifying seed envelope =>
    match openHostedSeed v envelope call.passphrase with
    | .error error => some { s with calls := s.setStage i call (.refused error) }
    | .ok reopened =>
      if reopened ≠ seed then
        some { s with calls := s.setStage i call (.refused (.sealedUnlock
          (js "Error: the envelope this migration just wrote opened to different bytes"))) }
      else
        let plaintext := if delete = .takes then none else s.store.plaintext
        let stage := if delete = .throws then SeedStage.refused .storage
          else ifSurvives survives (.returned seed)
        some { s with
          store := { s.store with plaintext }
          calls := s.setStage i call stage }
  | _ => none

def SeedStage.Over : SeedStage → Bool
  | .returned _ => true
  | .refused _ => true
  | .evicted => true
  | _ => false

def evicts (i : Nat) : Option HostedSeeds := do
  let call ← s.calls[i]?
  if SeedStage.Over call.stage then none
  else some { s with calls := s.setStage i call .evicted }

/-! ## Events -/

inductive Event
  | called (secret : Option JsString) (drawn : Seed)
  | sealed_ (call : Nat) (drawn : Bytes) (put : Write) (survives : Bool)
  | opened (call : Nat) (delete : Write) (survives : Bool)
  | evicts (call : Nat)

def step (s : HostedSeeds) : Event → Option HostedSeeds
  | .called secret drawn => some (s.called secret drawn)
  | .sealed_ i drawn put survives => s.sealed_ v i drawn put survives
  | .opened i delete survives => s.opened v i delete survives
  | .evicts i => s.evicts i

end HostedSeeds

end O2Fabric.Cloudflare

/-! # Kept

A hosted identity is minted once and kept.

The store changes in three ways: an envelope is written by a migration or by
a mint, and the plaintext is deleted by a migration.  `Sound` is what each
call under way knows of the store; every one of the three keeps it for every
other call.
-/

namespace O2Fabric.Cloudflare

open O2Fabric.Steps

def HostedSeedStore.HoldsIdentity (store : HostedSeedStore) : Prop :=
  store.plaintext ≠ none ∨ store.envelope ≠ none

namespace HostedSeeds

variable {v : SecretSeal} {reliable : Prop} {store : HostedSeedStore} {s s' : HostedSeeds}

/-- A put takes effect or throws. -/
def Reliable (_ : HostedSeeds) : Event → Prop
  | .sealed_ _ _ put _ => put ≠ .drops
  | _ => True

/-- The envelope in the store opens to this secret. -/
def Keeps (v : SecretSeal) (store : HostedSeedStore) (secret : Bytes) : Prop :=
  ∃ envelope, store.envelope = some envelope ∧ v.HoldsSecret envelope secret

/-- The seed of a migration is the identity of this store. -/
def Migrates (v : SecretSeal) (store : HostedSeedStore) (seed : Bytes) : Prop :=
  (Keeps v store seed ∨ store.envelope = none ∧ store.plaintext = some seed) ∧
    ∀ legacy, store.plaintext = some legacy → legacy = seed

/-- What the store has to be for a call at this stage.  What a call returned is kept where puts
    are reliable. -/
def Sound (v : SecretSeal) (reliable : Prop) (store : HostedSeedStore) : SeedStage → Prop
  | .opening envelope => store.envelope ≠ none ∧
      ∀ secret, v.HoldsSecret envelope secret → Keeps v store secret
  | .migrating seed => Migrates v store seed
  | .verifying seed _ => Keeps v store seed ∧ Migrates v store seed
  | .minting _ => store.plaintext = none
  | .returned seed => reliable → Keeps v store seed
  | .refused _ => True
  | .evicted => True

def Kept (v : SecretSeal) (reliable : Prop) (s : HostedSeeds) : Prop :=
  ∀ call ∈ s.calls, Sound v reliable s.store call.stage

/-- What a step does to the identity of a store that was this at first. -/
structure KeepsIdentity (v : SecretSeal) (first : HostedSeedStore) (s : HostedSeeds) (e : Event)
    (s' : HostedSeeds) : Prop where
  /-- A minted seed is stored where there is no identity. -/
  mints : ∀ i drawn put survives call seed, e = .sealed_ i drawn put survives →
    s.calls[i]? = some call → call.stage = .minting seed → s'.store ≠ s.store →
      ¬ s.store.HoldsIdentity
  /-- Where an envelope does not open, nothing is written or minted. -/
  refuses : ∀ i delete survives call error, e = .opened i delete survives →
    s'.calls[i]? = some call → call.stage = .refused error →
      s'.store = s.store ∧ s'.minted = s.minted
  holds : s.store.HoldsIdentity → s'.store.HoldsIdentity
  same : ∀ secret, Keeps v s.store secret → Keeps v s'.store secret
  /-- The plaintext is deleted by a call that has read an envelope back and opened it to the
      same bytes. -/
  deletes : ∀ legacy, s.store.plaintext = some legacy → s'.store.plaintext ≠ some legacy →
    ∃ i delete survives call envelope, e = .opened i delete survives ∧
      s.calls[i]? = some call ∧ call.stage = .verifying legacy envelope ∧
      openHostedSeed v envelope call.passphrase = .ok legacy ∧
      (∃ before, Reaches (step v) anything (start first) before ∧
        Reaches (step v) anything before s ∧ before.store.envelope = some envelope) ∧
      Keeps v s'.store legacy

/-! ## The store changes -/

variable {secret : Bytes}

theorem Keeps.some_envelope (h : Keeps v store secret) : store.envelope ≠ none := by
  obtain ⟨envelope, henvelope, -⟩ := h
  rw [henvelope]
  exact Option.some_ne_none envelope

theorem Keeps.inj (hideal : v.Ideal) {secret' : Bytes} (h : Keeps v store secret)
    (h' : Keeps v store secret') : secret = secret' := by
  obtain ⟨envelope, henvelope, hholds⟩ := h
  obtain ⟨envelope', henvelope', hholds'⟩ := h'
  rw [henvelope] at henvelope'
  cases henvelope'
  exact hideal.holdsSecret_inj hholds hholds'

variable {seed : Bytes} {stage : SeedStage}

/-- A migration writes an envelope of the seed. -/
theorem Sound.migrated (hideal : v.Ideal) {envelope : Bytes} (hseed : Migrates v store seed)
    (hnew : v.HoldsSecret envelope seed) (h : Sound v reliable store stage) :
    Sound v reliable { store with envelope := some envelope } stage := by
  have hkeeps : Keeps v { store with envelope := some envelope } seed := ⟨envelope, rfl, hnew⟩
  -- what the envelope that was there opens to is the seed as well
  have hsame : ∀ secret, Keeps v store secret →
      Keeps v { store with envelope := some envelope } secret := by
    intro secret hsecret
    rcases hseed.1 with hbefore | ⟨hnone, -⟩
    · rw [hsecret.inj hideal hbefore]
      exact hkeeps
    · exact absurd hnone hsecret.some_envelope
  have hmigrates : ∀ other, Migrates v store other →
      Migrates v { store with envelope := some envelope } other := by
    intro other hother
    refine ⟨?_, hother.2⟩
    rcases hother.1 with hbefore | ⟨-, hlegacy⟩
    · exact Or.inl (hsame other hbefore)
    · rw [hseed.2 other hlegacy]
      exact Or.inl hkeeps
  cases stage with
  | opening read => exact ⟨Option.some_ne_none _, fun secret hread => hsame secret (h.2 secret hread)⟩
  | migrating other => exact hmigrates other h
  | verifying other read => exact ⟨hsame other h.1, hmigrates other h.2⟩
  | minting minted => exact h
  | returned other => exact fun hreliable => hsame other (h hreliable)
  | refused _ => trivial
  | evicted => trivial

/-- A mint writes where there is nothing. -/
theorem Sound.minted {envelope : Bytes} (hnone : store.envelope = none)
    (hplain : store.plaintext = none) (h : Sound v reliable store stage) :
    Sound v reliable { store with envelope := some envelope } stage := by
  have hkeeps : ∀ secret, ¬ Keeps v store secret := fun secret hsecret =>
    hsecret.some_envelope hnone
  have hmigrates : ∀ seed, ¬ Migrates v store seed := by
    rintro seed ⟨hbefore | ⟨-, hlegacy⟩, -⟩
    · exact hkeeps seed hbefore
    · rw [hplain] at hlegacy
      cases hlegacy
  cases stage with
  | opening read => exact absurd hnone h.1
  | migrating other => exact absurd h (hmigrates other)
  | verifying other read => exact absurd h.1 (hkeeps other)
  | minting minted => exact h
  | returned other => exact fun hreliable => absurd (h hreliable) (hkeeps other)
  | refused _ => trivial
  | evicted => trivial

/-- The plaintext of what an envelope keeps is deleted. -/
theorem Sound.deleted (hsome : store.envelope ≠ none) (h : Sound v reliable store stage) :
    Sound v reliable { store with plaintext := none } stage := by
  have hmigrates : ∀ seed, Migrates v store seed →
      Migrates v { store with plaintext := none } seed := by
    intro seed hseed
    refine ⟨Or.inl ?_, ?_⟩
    · exact hseed.1.resolve_right fun hnone => hsome hnone.1
    · intro legacy hlegacy
      cases hlegacy
  cases stage with
  | opening read => exact h
  | migrating other => exact hmigrates other h
  | verifying other read => exact ⟨h.1, hmigrates other h.2⟩
  | minting minted => rfl
  | returned other => exact h
  | refused _ => trivial
  | evicted => trivial

/-! ## One event -/

/-- What is known of the store goes on being so, and what one more call knows is so. -/
structure Goes (v : SecretSeal) (reliable : Prop) (s s' : HostedSeeds) : Prop where
  store : ∀ stage, Sound v reliable s.store stage → Sound v reliable s'.store stage
  calls : ∀ call ∈ s'.calls, call ∈ s.calls ∨ Sound v reliable s'.store call.stage

theorem Kept.goes (h : Kept v reliable s) (hgoes : Goes v reliable s s') : Kept v reliable s' := by
  intro call hcall
  rcases hgoes.calls call hcall with hbefore | hsound
  · exact hgoes.store call.stage (h call hbefore)
  · exact hsound

variable {i : Nat}

theorem Kept.call {call : SeedCall} (h : Kept v reliable s) (hcall : s.calls[i]? = some call) :
    Sound v reliable s.store call.stage :=
  h call (List.mem_of_getElem? hcall)

/-- One call goes on to a stage that is sound in the store it leaves. -/
theorem Goes.set {call : SeedCall}
    (hstore : ∀ stage, Sound v reliable s.store stage → Sound v reliable store stage)
    (hstage : Sound v reliable store stage) :
    Goes v reliable s { s with store, calls := s.setStage i call stage } := by
  refine ⟨hstore, ?_⟩
  intro other hother
  rcases List.mem_or_eq_of_mem_set hother with hmem | rfl
  · exact Or.inl hmem
  · exact Or.inr hstage

/-- One call goes on and the store is left alone. -/
theorem Goes.leave {call : SeedCall} (hstage : Sound v reliable s.store stage) :
    Goes v reliable s { s with calls := s.setStage i call stage } :=
  Goes.set (fun _ => id) hstage

theorem Goes.called (secret : Option JsString) (drawn : Libp2p.Seed) :
    Goes v reliable s (s.called secret drawn) := by
  have happend : ∀ (passphrase : JsString) (stage : SeedStage), Sound v reliable s.store stage →
      ∀ call ∈ s.calls ++ [⟨passphrase, stage⟩],
        call ∈ s.calls ∨ Sound v reliable s.store call.stage := by
    intro passphrase stage hstage call hcall
    rcases List.mem_append.mp hcall with hbefore | hnew
    · exact Or.inl hbefore
    · rw [List.mem_singleton.mp hnew]
      exact Or.inr hstage
  unfold HostedSeeds.called
  split
  · exact ⟨fun _ => id, happend _ _ trivial⟩
  · split
    next envelope henvelope =>
      refine ⟨fun _ => id, happend _ _ ⟨?_, ?_⟩⟩
      · rw [henvelope]
        exact Option.some_ne_none envelope
      · exact fun secret hsecret => ⟨envelope, henvelope, hsecret⟩
    next hnone =>
      split
      next legacy hlegacy =>
        refine ⟨fun _ => id, happend _ _ ?_⟩
        split
        · trivial
        · refine ⟨Or.inr ⟨hnone, hlegacy⟩, ?_⟩
          intro legacy' hlegacy'
          rw [hlegacy] at hlegacy'
          exact (Option.some.inj hlegacy').symm
      next hplain => exact ⟨fun _ => id, happend _ _ hplain⟩

variable {survives : Bool}

theorem Sound.ifSurvives (h : Sound v reliable store stage) :
    Sound v reliable store (ifSurvives survives stage) := by
  cases survives with
  | true => exact h
  | false => trivial

variable {drawn : Bytes} {put : Write}

theorem Goes.sealed_ (hideal : v.Ideal) (h : Kept v reliable s) (hput : reliable → put ≠ .drops)
    (hstep : s.sealed_ v i drawn put survives = some s') : Goes v reliable s s' := by
  unfold HostedSeeds.sealed_ at hstep
  obtain ⟨call, hcall, hstep⟩ := Option.bind_eq_some_iff.mp hstep
  have hsound := h.call hcall
  have hseal : ∀ seed, v.HoldsSecret (v.sealSecret seed call.passphrase drawn) seed :=
    fun seed => hideal.holdsSecret_seal call.passphrase drawn
  cases hstage : call.stage with
  | migrating seed =>
    rw [hstage] at hstep hsound
    cases hstep
    -- written or not, what is sound stays so, this call's seed too
    have hstore : ∀ stage, Sound v reliable s.store stage →
        Sound v reliable { s.store with
          envelope := if put = .takes then some (v.sealSecret seed call.passphrase drawn)
            else s.store.envelope } stage := by
      intro stage hbefore
      split
      · exact hbefore.migrated hideal hsound (hseal seed)
      · exact hbefore
    refine Goes.set hstore ?_
    by_cases hthrows : put = .throws
    · rw [if_pos hthrows]
      trivial
    · rw [if_neg hthrows]
      refine Sound.ifSurvives ?_
      have hmigrates := hstore (.migrating seed) hsound
      cases hwritten : (if put = .takes then some (v.sealSecret seed call.passphrase drawn)
        else s.store.envelope) with
      | none => trivial
      | some envelope =>
        rw [hwritten] at hmigrates
        refine ⟨hmigrates.1.resolve_right ?_, hmigrates⟩
        rintro ⟨hnone, -⟩
        cases hnone
  | minting seed =>
    rw [hstage] at hstep hsound
    cases henvelope : s.store.envelope with
    | some envelope =>
      simp only [henvelope] at hstep
      cases hstep
      refine Goes.leave ⟨?_, ?_⟩
      · rw [henvelope]
        exact Option.some_ne_none envelope
      · exact fun secret hsecret => ⟨envelope, henvelope, hsecret⟩
    | none =>
      simp only [henvelope] at hstep
      cases hstep
      have hstore : ∀ stage, Sound v reliable s.store stage →
          Sound v reliable { s.store with
            envelope := if put = .takes then some (v.sealSecret seed call.passphrase drawn)
              else none } stage := by
        intro stage hbefore
        split
        · exact hbefore.minted henvelope hsound
        · rw [← henvelope]
          exact hbefore
      refine Goes.set hstore ?_
      by_cases hthrows : put = .throws
      · rw [if_pos hthrows]
        trivial
      · rw [if_neg hthrows]
        refine Sound.ifSurvives ?_
        -- a put that neither throws nor drops has written what is returned
        intro hreliable
        have htakes : put = .takes := by
          have hdrops := hput hreliable
          cases put <;> simp_all
        exact ⟨v.sealSecret seed call.passphrase drawn, if_pos htakes, hseal seed⟩
  | opening _ => rw [hstage] at hstep; cases hstep
  | verifying _ _ => rw [hstage] at hstep; cases hstep
  | returned _ => rw [hstage] at hstep; cases hstep
  | refused _ => rw [hstage] at hstep; cases hstep
  | evicted => rw [hstage] at hstep; cases hstep

/-- What an opened envelope held. -/
theorem holdsSecret_of_openHostedSeed {stored : Bytes} {passphrase : JsString}
    (h : openHostedSeed v stored passphrase = .ok seed) : v.HoldsSecret stored seed := by
  unfold openHostedSeed at h
  split at h
  · cases h
  next opened hopened =>
    split at h
    · cases h
    · cases h
      exact ⟨passphrase, hopened⟩

theorem Goes.opened {delete : Write} (h : Kept v reliable s)
    (hstep : s.opened v i delete survives = some s') : Goes v reliable s s' := by
  unfold HostedSeeds.opened at hstep
  obtain ⟨call, hcall, hstep⟩ := Option.bind_eq_some_iff.mp hstep
  have hsound := h.call hcall
  cases hstage : call.stage with
  | opening envelope =>
    rw [hstage] at hstep hsound
    cases hstep
    refine Goes.leave ?_
    split
    · trivial
    next seed hopened =>
      intro _
      exact hsound.2 seed (holdsSecret_of_openHostedSeed hopened)
  | verifying seed envelope =>
    rw [hstage] at hstep hsound
    dsimp only at hstep
    split at hstep
    · cases hstep
      exact Goes.leave trivial
    · split at hstep
      · cases hstep
        exact Goes.leave trivial
      · cases hstep
        have hstore : ∀ stage, Sound v reliable s.store stage →
            Sound v reliable { s.store with
              plaintext := if delete = .takes then none else s.store.plaintext } stage := by
          intro stage hbefore
          split
          · exact hbefore.deleted hsound.1.some_envelope
          · exact hbefore
        refine Goes.set hstore ?_
        have hreturns : Sound v reliable { s.store with
            plaintext := if delete = .takes then none else s.store.plaintext }
            (.returned seed) := hstore (.returned seed) fun _ => hsound.1
        by_cases hthrows : delete = .throws
        · rw [if_pos hthrows]
          trivial
        · rw [if_neg hthrows]
          exact Sound.ifSurvives hreturns
  | migrating _ => rw [hstage] at hstep; cases hstep
  | minting _ => rw [hstage] at hstep; cases hstep
  | returned _ => rw [hstage] at hstep; cases hstep
  | refused _ => rw [hstage] at hstep; cases hstep
  | evicted => rw [hstage] at hstep; cases hstep

theorem Goes.evicts (hstep : s.evicts i = some s') : Goes v reliable s s' := by
  unfold HostedSeeds.evicts at hstep
  obtain ⟨call, -, hstep⟩ := Option.bind_eq_some_iff.mp hstep
  split at hstep
  · cases hstep
  · cases hstep
    exact Goes.leave trivial

variable {e : Event}

theorem Goes.step (hideal : v.Ideal) (h : Kept v reliable s) (hput : reliable → Reliable s e)
    (hstep : HostedSeeds.step v s e = some s') :
    Goes v reliable s s' := by
  cases e with
  | called secret drawn =>
    cases hstep
    exact Goes.called secret drawn
  | sealed_ i drawn put survives => exact Goes.sealed_ hideal h hput hstep
  | opened i delete survives => exact Goes.opened h hstep
  | evicts i => exact Goes.evicts hstep

theorem kept_start : Kept v reliable (start store) := List.forall_mem_nil _

/-- In a run whose puts take effect or throw, and in any run without the seeds returned. -/
theorem Kept.of_reaches (hideal : v.Ideal) {guard : HostedSeeds → Event → Prop}
    (hput : reliable → ∀ s e, guard s e → Reliable s e)
    (h : Reaches (HostedSeeds.step v) guard (start store) s) : Kept v reliable s := by
  refine h.invariant kept_start ?_
  intro s e s' hguard hkept hstep
  exact hkept.goes (Goes.step hideal hkept (fun hreliable => hput hreliable s e hguard) hstep)

/-! ## What a step does -/

/-- A mint writes where there is no envelope. -/
theorem envelope_none_of_mint {call : SeedCall} (hstep : s.sealed_ v i drawn put survives = some s')
    (hcall : s.calls[i]? = some call) (hstage : call.stage = .minting seed)
    (hwrites : s'.store ≠ s.store) : s.store.envelope = none := by
  unfold HostedSeeds.sealed_ at hstep
  rw [hcall] at hstep
  cases henvelope : s.store.envelope with
  | none => rfl
  | some envelope =>
    simp only [hstage, henvelope, Option.bind_eq_bind, Option.bind_some] at hstep
    cases hstep
    exact absurd rfl hwrites

/-- An envelope that is opened leaves the store, or is what the plaintext is deleted for. -/
theorem opened_cases {delete : Write} (hstep : s.opened v i delete survives = some s') :
    ∃ call stage, s.calls[i]? = some call ∧ (∀ seed envelope, stage ≠ .verifying seed envelope) ∧
      (s' = { s with calls := s.setStage i call stage } ∨
      ∃ seed envelope, call.stage = .verifying seed envelope ∧
        openHostedSeed v envelope call.passphrase = .ok seed ∧
        (∀ error, stage ≠ .refused error) ∧
        s' = { s with
          store := { s.store with plaintext := none }
          calls := s.setStage i call stage }) := by
  unfold HostedSeeds.opened at hstep
  obtain ⟨call, hcall, hstep⟩ := Option.bind_eq_some_iff.mp hstep
  cases hstage : call.stage with
  | opening envelope =>
    rw [hstage] at hstep
    cases hstep
    refine ⟨call, _, hcall, ?_, Or.inl rfl⟩
    intro seed envelope'
    split <;> simp
  | verifying seed envelope =>
    rw [hstage] at hstep
    dsimp only at hstep
    split at hstep
    · cases hstep
      exact ⟨call, _, hcall, by simp, Or.inl rfl⟩
    next reopened hopened =>
      split at hstep
      · cases hstep
        exact ⟨call, _, hcall, by simp, Or.inl rfl⟩
      next hsame =>
        cases hstep
        have hreopened : reopened = seed := not_not.mp hsame
        refine ⟨call, if delete = .throws then .refused .storage
          else ifSurvives survives (.returned seed), hcall, ?_, ?_⟩
        · intro seed' envelope'
          cases delete <;> cases survives <;> simp [ifSurvives]
        · by_cases htakes : delete = .takes
          · subst htakes
            refine Or.inr ⟨seed, envelope, hstage, hreopened ▸ hopened, ?_, rfl⟩
            intro error
            cases survives <;> simp [ifSurvives]
          · refine Or.inl ?_
            rw [if_neg htakes]
  | migrating _ => rw [hstage] at hstep; cases hstep
  | minting _ => rw [hstage] at hstep; cases hstep
  | returned _ => rw [hstage] at hstep; cases hstep
  | refused _ => rw [hstage] at hstep; cases hstep
  | evicted => rw [hstage] at hstep; cases hstep

theorem mem_setStage {call other : SeedCall} (h : other ∈ s.setStage i call stage) :
    other ∈ s.calls ∨ other.stage = stage := by
  rcases List.mem_or_eq_of_mem_set h with hmem | rfl
  · exact Or.inl hmem
  · exact Or.inr rfl

/-- A call that seals leaves the plaintext, and reads back what the store then holds. -/
theorem sealed_leaves (hstep : s.sealed_ v i drawn put survives = some s') :
    s'.store.plaintext = s.store.plaintext ∧
    ∀ call ∈ s'.calls, ∀ seed envelope, call.stage = .verifying seed envelope →
      call ∈ s.calls ∨ s'.store.envelope = some envelope := by
  unfold HostedSeeds.sealed_ at hstep
  obtain ⟨call, -, hstep⟩ := Option.bind_eq_some_iff.mp hstep
  split at hstep
  next seed _ =>
    cases hstep
    refine ⟨rfl, fun other hother seed' envelope hverifying => ?_⟩
    refine (mem_setStage hother).imp_right fun hstage => ?_
    rw [hverifying] at hstage
    cases hwritten : (if put = .takes then some (v.sealSecret seed call.passphrase drawn)
      else s.store.envelope) with
    | none =>
      simp only [hwritten] at hstage
      cases survives <;> cases put <;> cases hstage
    | some written =>
      simp only [hwritten] at hstage
      cases survives <;> cases put <;> cases hstage <;> rfl
  next seed _ =>
    split at hstep
    · cases hstep
      refine ⟨rfl, fun other hother seed' envelope hverifying => ?_⟩
      refine (mem_setStage hother).imp_right fun hstage => ?_
      rw [hverifying] at hstage
      cases hstage
    · cases hstep
      refine ⟨rfl, fun other hother seed' envelope hverifying => ?_⟩
      refine (mem_setStage hother).imp_right fun hstage => ?_
      rw [hverifying] at hstage
      cases survives <;> cases put <;> cases hstage
  · cases hstep

theorem evicts_leaves (hstep : s.evicts i = some s') :
    s'.store = s.store ∧
    ∀ call ∈ s'.calls, ∀ seed envelope, call.stage = .verifying seed envelope → call ∈ s.calls := by
  unfold HostedSeeds.evicts at hstep
  obtain ⟨call, -, hstep⟩ := Option.bind_eq_some_iff.mp hstep
  split at hstep
  · cases hstep
  · cases hstep
    refine ⟨rfl, fun other hother seed envelope hverifying => ?_⟩
    refine (mem_setStage hother).resolve_right fun hstage => ?_
    rw [hverifying] at hstage
    cases hstage

theorem called_leaves (secret : Option JsString) (drawn : Libp2p.Seed) :
    (s.called secret drawn).store = s.store ∧
    ∀ call ∈ (s.called secret drawn).calls, ∀ seed envelope,
      call.stage = .verifying seed envelope → call ∈ s.calls := by
  have happend : ∀ (passphrase : JsString) (stage : SeedStage),
      (∀ seed envelope, stage ≠ .verifying seed envelope) →
      ∀ call ∈ s.calls ++ [⟨passphrase, stage⟩], ∀ seed envelope,
        call.stage = .verifying seed envelope → call ∈ s.calls := by
    intro passphrase stage hstage call hcall seed envelope hverifying
    rcases List.mem_append.mp hcall with hbefore | hnew
    · exact hbefore
    · rw [List.mem_singleton.mp hnew] at hverifying
      exact absurd hverifying (hstage seed envelope)
  unfold HostedSeeds.called
  split
  · exact ⟨rfl, happend _ _ (by simp)⟩
  · split
    · exact ⟨rfl, happend _ _ (by simp)⟩
    · split
      · refine ⟨rfl, happend _ _ ?_⟩
        intro seed envelope
        split <;> simp
      · exact ⟨rfl, happend _ _ (by simp)⟩

/-- A call comes to open what it has read back where the store holds it. -/
theorem verifying_step (hstep : step v s e = some s') :
    ∀ call ∈ s'.calls, ∀ seed envelope, call.stage = .verifying seed envelope →
      call ∈ s.calls ∨ s'.store.envelope = some envelope := by
  cases e with
  | called secret drawn =>
    cases hstep
    exact fun call hcall seed envelope hstage =>
      Or.inl ((called_leaves secret drawn).2 call hcall seed envelope hstage)
  | sealed_ i drawn put survives => exact (sealed_leaves hstep).2
  | opened i delete survives =>
    intro call hcall seed envelope hverifying
    obtain ⟨earlier, stage, -, hother, rfl | ⟨_, _, -, -, -, rfl⟩⟩ := opened_cases hstep
    all_goals
      refine Or.inl ((mem_setStage hcall).resolve_right fun hstage => ?_)
      exact hother seed envelope (hstage.symm.trans hverifying)
  | evicts i =>
    exact fun call hcall seed envelope hstage =>
      Or.inl ((evicts_leaves hstep).2 call hcall seed envelope hstage)

/-- The envelope a migration opens is one the store has held. -/
theorem read_back {envelope : Bytes} {call : SeedCall}
    (h : Reaches (step v) anything (start store) s) (hmem : call ∈ s.calls)
    (hstage : call.stage = .verifying seed envelope) :
    ∃ before, Reaches (step v) anything (start store) before ∧
      Reaches (step v) anything before s ∧ before.store.envelope = some envelope := by
  induction h with
  | refl => cases hmem
  | @tail s s' hreach hlast ih =>
    obtain ⟨e, -, hstep⟩ := hlast
    rcases verifying_step hstep call hmem seed envelope hstage with hbefore | hheld
    · obtain ⟨before, hfirst, hrest, hheld⟩ := ih hbefore
      exact ⟨before, hfirst, hrest.tail trivial hstep, hheld⟩
    · exact ⟨s', Reaches.tail hreach trivial hstep, Reaches.refl, hheld⟩

/-- The plaintext goes where an envelope has opened to it. -/
theorem plaintext_step (hstep : step v s e = some s') {legacy : Bytes}
    (hlegacy : s.store.plaintext = some legacy) (hgone : s'.store.plaintext ≠ some legacy) :
    ∃ i delete survives call seed envelope, e = .opened i delete survives ∧
      s.calls[i]? = some call ∧ call.stage = .verifying seed envelope ∧
      openHostedSeed v envelope call.passphrase = .ok seed := by
  cases e with
  | called secret drawn =>
    cases hstep
    rw [(called_leaves secret drawn).1] at hgone
    exact absurd hlegacy hgone
  | sealed_ i drawn put survives =>
    rw [(sealed_leaves hstep).1] at hgone
    exact absurd hlegacy hgone
  | opened i delete survives =>
    obtain ⟨call, stage, hcall, -, rfl | ⟨seed, envelope, hverifying, hopened, -⟩⟩ :=
      opened_cases hstep
    · exact absurd hlegacy hgone
    · exact ⟨i, delete, survives, call, seed, envelope, rfl, hcall, hverifying, hopened⟩
  | evicts i =>
    rw [(evicts_leaves hstep).1] at hgone
    exact absurd hlegacy hgone

theorem Goes.keeps (hgoes : Goes v reliable s s') (h : Keeps v s.store secret) :
    Keeps v s'.store secret := by
  obtain ⟨envelope, henvelope, hholds⟩ := h
  have hread : Sound v reliable s.store (.opening envelope) :=
    ⟨by simp [henvelope], fun secret hsecret => ⟨envelope, henvelope, hsecret⟩⟩
  exact (hgoes.store _ hread).2 secret hholds

theorem Goes.envelope (hgoes : Goes v reliable s s') (h : s.store.envelope ≠ none) :
    s'.store.envelope ≠ none := by
  obtain ⟨envelope, henvelope⟩ := Option.ne_none_iff_exists'.mp h
  have hread : Sound v reliable s.store (.opening envelope) :=
    ⟨h, fun secret hsecret => ⟨envelope, henvelope, hsecret⟩⟩
  exact (hgoes.store _ hread).1

/-! ## Whole runs -/

def returnedSeed : SeedStage → Option Bytes
  | .returned seed => some seed
  | _ => none

end HostedSeeds

end O2Fabric.Cloudflare
