/-
  O2Fabric.Node.IdentityStore.MintedOnce

  A node identity on disk is minted once, as long as no call renames its
  envelope over another call's.

  Between a call's look at the envelope and its rename any number of other
  calls may come and go, and nothing looks again.  A rename over an envelope
  that does not open to the seed the call has migrated, under the passphrase
  the call was given, is the one step that loses an identity.  `Goes` is what
  the other steps may change of the directory, and what every call knows of
  the directory, `Sound`, survives it.
-/

import O2Fabric.Node.IdentityStore

namespace O2Fabric.Node

open O2Fabric.Libp2p O2Fabric.Threads O2Fabric.Threads.System

variable {v : SecretSeal} {dir dir' : SeedDirectory} {call call' : SeedLoad} {c c' : SeedLoads}
  {passphrase passphrase' : JsString} {seed seed' : Bytes}

/-- The envelope in the directory opens to this seed. -/
def Keeps (v : SecretSeal) (dir : SeedDirectory) (passphrase : JsString) (seed : Bytes) : Prop :=
  ∃ text, dir.envelope = some text ∧ openSealedSeed v text passphrase = .ok seed

/-! ## The condition -/

def Usable : IdentityProtection → Bool
  | .passphrase passphrase => decide (PASSPHRASE_MIN_LENGTH ≤ passphrase.length)
  | .writesNoNewSecret => false

/-- The call is about to rename its envelope over one that is not of the seed it has migrated,
    or not under the passphrase it was given. -/
def Overwrites (v : SecretSeal) (dir : SeedDirectory) (call : SeedLoad) : Bool :=
  match call.stage, call.protection, dir.envelope with
  | .written seed migrating, .passphrase passphrase, some text =>
    match openSealedSeed v text passphrase with
    | .ok held => !(migrating && decide (held = seed))
    | .error _ => true
  | _, _, _ => false

/-- Every call is given a usable passphrase. -/
def Given (_ : SeedLoads) : Event Nat Act Empty → Prop
  | .own _ (.calls protection) => Usable protection = true
  | _ => True

/-- And no call renames over the envelope of another. -/
def Clean (v : SecretSeal) (c : SeedLoads) : Event Nat Act Empty → Prop
  | .own _ (.calls protection) => Usable protection = true
  | .own i .renames => Overwrites v c.shared (c.locals i) = false
  | _ => True

/-! ## What is claimed -/

/-- A call that was started after the seed was returned, under the same passphrase: it is not
    refused, and the only seed it returns is that one. -/
def Returns (v : SecretSeal) (passphrase : JsString) (seed : Bytes) (dir : SeedDirectory)
    (call : SeedLoad) : Prop :=
  match call.stage with
  | .uncalled => True
  | .starting => Keeps v dir passphrase seed
  | .opening text => openSealedSeed v text passphrase = .ok seed
  | .returned seed' _ => seed' = seed
  | .crashed => True
  | _ => False

/-- What a step does to the identity in the directory. -/
structure KeepsIdentity (v : SecretSeal) (c : SeedLoads) (e : Event Nat Act Empty)
    (c' : SeedLoads) : Prop where
  /-- A minted seed comes into a directory that holds none. -/
  mints : ∀ i seed, e = .own i .renames → (c.locals i).stage = .written seed false →
    c.shared = ⟨none, none⟩
  /-- What the envelope opens to it goes on opening to. -/
  opens : ∀ passphrase seed, Keeps v c.shared passphrase seed → Keeps v c'.shared passphrase seed
  /-- The plaintext is unlinked where an envelope of the same bytes is in place. -/
  unlinks : ∀ legacy, c.shared.legacy = some legacy → c'.shared.legacy ≠ some legacy →
    ∃ passphrase, Keeps v c.shared passphrase legacy

/-! ## What the steps may change -/

structure Goes (v : SecretSeal) (dir dir' : SeedDirectory) : Prop where
  keeps : ∀ passphrase seed, Keeps v dir passphrase seed → Keeps v dir' passphrase seed
  legacy : dir'.legacy = dir.legacy ∨ dir'.legacy = none

theorem Goes.refl : Goes v dir dir := ⟨fun _ _ => id, Or.inl rfl⟩

/-- Where the seed of a call comes from. -/
def From (dir : SeedDirectory) (seed : Bytes) : Bool → Prop
  | true => ∀ legacy, dir.legacy = some legacy → legacy = seed
  | false => dir.legacy = none

theorem From.mono {migrating : Bool} (h : From dir seed migrating) (hgoes : Goes v dir dir') :
    From dir' seed migrating := by
  cases migrating with
  | true =>
    intro legacy hlegacy
    rcases hgoes.legacy with hsame | hnone
    · exact h legacy (hsame ▸ hlegacy)
    · rw [hnone] at hlegacy
      cases hlegacy
  | false =>
    rcases hgoes.legacy with hsame | hnone
    · exact hsame.trans h
    · exact hnone

/-- What a call knows of the directory at each stage, given its passphrase. -/
def Knows (v : SecretSeal) (dir : SeedDirectory) (passphrase : JsString)
    (temporary : Option Bytes) : LoadStage → Prop
  | .opening text => ∀ passphrase seed, openSealedSeed v text passphrase = .ok seed →
      Keeps v dir passphrase seed
  | .sealing seed migrating => seed.length = SEED_BYTES ∧ From dir seed migrating
  | .writing seed migrating envelope => From dir seed migrating ∧
      openSealedSeed v envelope passphrase = .ok seed
  | .written seed migrating => From dir seed migrating ∧
      ∃ envelope, temporary = some envelope ∧ openSealedSeed v envelope passphrase = .ok seed
  | .rereading seed => From dir seed true ∧ Keeps v dir passphrase seed
  | .verifying seed _ => From dir seed true ∧ Keeps v dir passphrase seed
  | .unlinking seed => From dir seed true ∧ Keeps v dir passphrase seed
  | .returned seed _ => Keeps v dir passphrase seed
  | _ => True

/-- Every call there is has a passphrase, and knows what it knows. -/
def Sound (v : SecretSeal) (dir : SeedDirectory) (call : SeedLoad) : Prop :=
  call.stage = .uncalled ∨
    ∃ passphrase, call.protection = .passphrase passphrase ∧
      Knows v dir passphrase call.temporary call.stage

theorem Knows.mono {temporary : Option Bytes} {stage : LoadStage}
    (h : Knows v dir passphrase temporary stage) (hgoes : Goes v dir dir') :
    Knows v dir' passphrase temporary stage := by
  cases stage with
  | opening text => exact fun other seed hopens => hgoes.keeps other seed (h other seed hopens)
  | sealing seed migrating => exact ⟨h.1, h.2.mono hgoes⟩
  | writing seed migrating envelope => exact ⟨h.1.mono hgoes, h.2⟩
  | written seed migrating => exact ⟨h.1.mono hgoes, h.2⟩
  | rereading seed => exact ⟨h.1.mono hgoes, hgoes.keeps passphrase seed h.2⟩
  | verifying seed text => exact ⟨h.1.mono hgoes, hgoes.keeps passphrase seed h.2⟩
  | unlinking seed => exact ⟨h.1.mono hgoes, hgoes.keeps passphrase seed h.2⟩
  | returned seed unprotected => exact hgoes.keeps passphrase seed h
  | uncalled => trivial
  | starting => trivial
  | withoutEnvelope => trivial
  | refused error => trivial
  | crashed => trivial

theorem Sound.mono (h : Sound v dir call) (hgoes : Goes v dir dir') : Sound v dir' call :=
  h.imp_right fun ⟨passphrase, hunder, hknows⟩ => ⟨passphrase, hunder, hknows.mono hgoes⟩

/-! ## Opening -/

theorem openSealedSeed_ok (h : openSealedSeed v text passphrase = .ok seed) :
    v.openSecret text passphrase = .ok seed ∧ seed.length = SEED_BYTES := by
  unfold openSealedSeed at h
  split at h
  · cases h
  next opened hopened =>
    split at h
    · cases h
    next hlength =>
      cases h
      exact ⟨hopened, not_not.mp hlength⟩

theorem openSealedSeed_seal (hideal : v.Ideal) (hlength : seed.length = SEED_BYTES)
    (drawn : Bytes) :
    openSealedSeed v (v.sealSecret seed passphrase drawn) passphrase = .ok seed := by
  unfold openSealedSeed
  rw [hideal.opens]
  exact if_neg (not_not.mpr hlength)

/-- An envelope opens under one passphrase, to one seed. -/
theorem Keeps.inj (hideal : v.Ideal) (h : Keeps v dir passphrase seed)
    (h' : Keeps v dir passphrase' seed') : passphrase = passphrase' ∧ seed = seed' := by
  obtain ⟨text, htext, hopens⟩ := h
  obtain ⟨text', htext', hopens'⟩ := h'
  rw [htext] at htext'
  cases htext'
  exact hideal.one _ _ _ _ _ (openSealedSeed_ok hopens).1 (openSealedSeed_ok hopens').1

/-! ## One action -/

theorem Sound.knows (h : Sound v dir call) (hcalled : call.stage ≠ .uncalled) :
    ∃ passphrase, call.protection = .passphrase passphrase ∧
      Knows v dir passphrase call.temporary call.stage :=
  h.resolve_left hcalled

/-- Where the directory is left alone, what the call comes to know is all there is to show. -/
theorem Sound.leave {stage : LoadStage} {temporary : Option Bytes}
    (hunder : call.protection = .passphrase passphrase)
    (hknows : Knows v dir passphrase temporary stage) :
    Sound v dir ⟨call.protection, temporary, stage⟩ ∧ Goes v dir dir :=
  ⟨Or.inr ⟨passphrase, hunder, hknows⟩, Goes.refl⟩

theorem calls_sound {protection : IdentityProtection} (hgiven : Usable protection = true)
    (hstep : calls dir call protection = some (dir', call')) :
    Sound v dir' call' ∧ Goes v dir dir' := by
  unfold calls at hstep
  split at hstep
  · cases hstep
    cases protection with
    | writesNoNewSecret => cases hgiven
    | passphrase passphrase =>
      refine ⟨Or.inr ⟨passphrase, rfl, ?_⟩, Goes.refl⟩
      split <;> trivial
  · cases hstep

theorem readsEnvelope_sound (h : Sound v dir call)
    (hstep : readsEnvelope dir call = some (dir', call')) :
    Sound v dir' call' ∧ Goes v dir dir' := by
  unfold readsEnvelope at hstep
  split at hstep
  next hstage =>
    cases hstep
    obtain ⟨passphrase, hunder, -⟩ := h.knows (by simp [hstage])
    refine Sound.leave hunder ?_
    cases henvelope : dir.envelope with
    | none => trivial
    | some text =>
      simp only [hunder]
      exact fun other seed hopens => ⟨text, henvelope, hopens⟩
  · cases hstep

theorem readsLegacy_sound {drawn : Seed} (h : Sound v dir call)
    (hstep : readsLegacy dir call drawn = some (dir', call')) :
    Sound v dir' call' ∧ Goes v dir dir' := by
  unfold readsLegacy at hstep
  split at hstep
  next hstage =>
    cases hstep
    obtain ⟨passphrase, hunder, -⟩ := h.knows (by simp [hstage])
    refine Sound.leave hunder ?_
    cases hlegacy : dir.legacy with
    | none =>
      simp only [hunder]
      exact ⟨drawn.width, hlegacy⟩
    | some legacy =>
      simp only [hunder]
      by_cases hlength : legacy.length ≠ SEED_BYTES
      · rw [if_pos hlength]
        trivial
      · rw [if_neg hlength]
        refine ⟨not_not.mp hlength, ?_⟩
        intro other hother
        rw [hlegacy] at hother
        exact (Option.some.inj hother).symm
  · cases hstep

theorem seals_sound (hideal : v.Ideal) {drawn : Bytes} (h : Sound v dir call)
    (hstep : seals v dir call drawn = some (dir', call')) :
    Sound v dir' call' ∧ Goes v dir dir' := by
  unfold seals at hstep
  split at hstep
  next seed migrating passphrase hstage hunder =>
    cases hstep
    obtain ⟨passphrase', hunder', hknows⟩ := h.knows (by simp [hstage])
    rw [hstage] at hknows
    exact Sound.leave hunder ⟨hknows.2, openSealedSeed_seal hideal hknows.1 drawn⟩
  · cases hstep

theorem writes_sound (h : Sound v dir call) (hstep : writes dir call = some (dir', call')) :
    Sound v dir' call' ∧ Goes v dir dir' := by
  unfold writes at hstep
  split at hstep
  next seed migrating envelope hstage =>
    cases hstep
    obtain ⟨passphrase, hunder, hknows⟩ := h.knows (by simp [hstage])
    rw [hstage] at hknows
    exact Sound.leave hunder ⟨hknows.1, envelope, rfl, hknows.2⟩
  · cases hstep

/-- A rename into an empty place, or over an envelope of the same seed under the same
    passphrase. -/
theorem renames_sound (hideal : v.Ideal) (h : Sound v dir call)
    (hown : Overwrites v dir call = false) (hstep : renames dir call = some (dir', call')) :
    Sound v dir' call' ∧ Goes v dir dir' := by
  unfold renames at hstep
  split at hstep
  next seed migrating hstage =>
    cases hstep
    obtain ⟨passphrase, hunder, hknows⟩ := h.knows (by simp [hstage])
    rw [hstage] at hknows
    obtain ⟨hfrom, envelope, htemporary, hopens⟩ := hknows
    have hkeeps : Keeps v { dir with envelope := call.temporary } passphrase seed :=
      ⟨envelope, htemporary, hopens⟩
    have hgoes : Goes v dir { dir with envelope := call.temporary } := by
      refine ⟨?_, Or.inl rfl⟩
      intro other held hheld
      obtain ⟨text, htext, hother⟩ := hheld
      -- the envelope in place is the call's own seed under its own passphrase
      simp only [Overwrites, hstage, hunder, htext] at hown
      split at hown
      next found hfound =>
        simp only [Bool.not_eq_false', Bool.and_eq_true, decide_eq_true_eq] at hown
        have hplace : Keeps v dir passphrase seed := ⟨text, htext, hown.2 ▸ hfound⟩
        obtain ⟨rfl, rfl⟩ := Keeps.inj hideal ⟨text, htext, hother⟩ hplace
        exact hkeeps
      · cases hown
    refine ⟨Or.inr ⟨passphrase, hunder, ?_⟩, hgoes⟩
    cases migrating with
    | true => exact ⟨hfrom.mono hgoes, hkeeps⟩
    | false => exact hkeeps
  · cases hstep

theorem rereads_sound (h : Sound v dir call) (hstep : rereads dir call = some (dir', call')) :
    Sound v dir' call' ∧ Goes v dir dir' := by
  unfold rereads at hstep
  split at hstep
  next seed hstage =>
    cases hstep
    obtain ⟨passphrase, hunder, hknows⟩ := h.knows (by simp [hstage])
    rw [hstage] at hknows
    refine Sound.leave hunder ?_
    split
    · trivial
    · exact hknows
  · cases hstep

theorem opens_sound (h : Sound v dir call) (hstep : opens v dir call = some (dir', call')) :
    Sound v dir' call' ∧ Goes v dir dir' := by
  unfold opens at hstep
  split at hstep
  next text passphrase hstage hunder =>
    cases hstep
    obtain ⟨passphrase', hunder', hknows⟩ := h.knows (by simp [hstage])
    rw [hstage] at hknows
    refine Sound.leave hunder ?_
    split
    · trivial
    next seed hopened => exact hknows passphrase seed hopened
  next seed text passphrase hstage hunder =>
    cases hstep
    obtain ⟨passphrase', hunder', hknows⟩ := h.knows (by simp [hstage])
    rw [hstage] at hknows
    rw [hunder] at hunder'
    cases hunder'
    refine Sound.leave hunder ?_
    split
    · trivial
    · split
      · trivial
      · exact hknows
  · cases hstep

theorem unlinks_sound (h : Sound v dir call) (hstep : unlinks dir call = some (dir', call')) :
    Sound v dir' call' ∧ Goes v dir dir' := by
  unfold unlinks at hstep
  split at hstep
  next seed hstage =>
    obtain ⟨passphrase, hunder, hknows⟩ := h.knows (by simp [hstage])
    rw [hstage] at hknows
    split at hstep
    · cases hstep
      exact Sound.leave hunder trivial
    · cases hstep
      exact ⟨Or.inr ⟨passphrase, hunder, hknows.2⟩, fun _ _ => id, Or.inr rfl⟩
  · cases hstep

theorem crashes_sound {written : Nat} (h : Sound v dir call)
    (hstep : crashes dir call written = some (dir', call')) :
    Sound v dir' call' ∧ Goes v dir dir' := by
  have hover : ∀ temporary, call.stage ≠ .uncalled →
      Sound v dir ⟨call.protection, temporary, .crashed⟩ ∧ Goes v dir dir := by
    intro temporary hcalled
    obtain ⟨passphrase, hunder, -⟩ := h.knows hcalled
    exact Sound.leave hunder trivial
  unfold crashes at hstep
  split at hstep
  case h_5 seed migrating envelope hstage =>
    cases hstep
    exact hover _ (by simp [hstage])
  case h_6 hcalled _ _ _ _ =>
    cases hstep
    exact hover _ hcalled
  all_goals cases hstep

variable {i : Nat} {a : Act}

theorem own_sound (hideal : v.Ideal) (hclean : Clean v c (.own i a))
    (h : Sound v c.shared (c.locals i))
    (hstep : (loadOrCreateSealedSeed v).own i a c.shared (c.locals i) = some (dir', call')) :
    Sound v dir' call' ∧ Goes v c.shared dir' := by
  cases a with
  | calls protection => exact calls_sound hclean hstep
  | readsEnvelope => exact readsEnvelope_sound h hstep
  | readsLegacy drawn => exact readsLegacy_sound h hstep
  | seals drawn => exact seals_sound hideal h hstep
  | writes => exact writes_sound h hstep
  | renames => exact renames_sound hideal h hclean hstep
  | rereads => exact rereads_sound h hstep
  | opens => exact opens_sound h hstep
  | unlinks => exact unlinks_sound h hstep
  | crashes written => exact crashes_sound h hstep

/-! ## Whole runs -/

theorem sound_of_reaches (hideal : v.Ideal) {first : SeedDirectory}
    (h : (loadOrCreateSealedSeed v).Reaches (Clean v) (SeedLoads.start first) c) (i : Nat) :
    Sound v c.shared (c.locals i) := by
  refine h.each (I := fun _ dir call => Sound v dir call) (G := fun _ => Goes v) ?_ ?_ ?_ ?_ i
  · exact fun _ => Or.inl rfl
  · intro c i a dir' call' hclean hsound hstep
    exact own_sound hideal hclean (hsound i) hstep
  · intro i j dir dir' call _ hgoes hsound
    exact hsound.mono hgoes
  · intro c b
    exact b.elim

/-- Only an `unlink` changes the plaintext. -/
theorem unlinks_of_legacy {legacy : Bytes}
    (hstep : (loadOrCreateSealedSeed v).own i a dir call = some (dir', call'))
    (hlegacy : dir.legacy = some legacy) (hgone : dir'.legacy ≠ some legacy) :
    ∃ seed, call.stage = .unlinking seed := by
  have hsame : dir'.legacy = dir.legacy → ∃ seed, call.stage = .unlinking seed :=
    fun h => absurd (h.trans hlegacy) hgone
  cases a with
  | unlinks =>
    change unlinks dir call = some (dir', call') at hstep
    unfold unlinks at hstep
    split at hstep
    next seed hstage => exact ⟨seed, hstage⟩
    · cases hstep
  | calls protection =>
    change calls dir call protection = some (dir', call') at hstep
    unfold calls at hstep
    split at hstep <;> cases hstep
    exact hsame rfl
  | readsEnvelope =>
    change readsEnvelope dir call = some (dir', call') at hstep
    unfold readsEnvelope at hstep
    split at hstep <;> cases hstep
    exact hsame rfl
  | readsLegacy drawn =>
    change readsLegacy dir call drawn = some (dir', call') at hstep
    unfold readsLegacy at hstep
    split at hstep <;> cases hstep
    exact hsame rfl
  | seals drawn =>
    change seals v dir call drawn = some (dir', call') at hstep
    unfold seals at hstep
    split at hstep <;> cases hstep
    exact hsame rfl
  | writes =>
    change writes dir call = some (dir', call') at hstep
    unfold writes at hstep
    split at hstep <;> cases hstep
    exact hsame rfl
  | renames =>
    change renames dir call = some (dir', call') at hstep
    unfold renames at hstep
    split at hstep <;> cases hstep
    exact hsame rfl
  | rereads =>
    change rereads dir call = some (dir', call') at hstep
    unfold rereads at hstep
    split at hstep <;> cases hstep
    exact hsame rfl
  | opens =>
    change opens v dir call = some (dir', call') at hstep
    unfold opens at hstep
    split at hstep <;> cases hstep <;> exact hsame rfl
  | crashes written =>
    change crashes dir call written = some (dir', call') at hstep
    unfold crashes at hstep
    split at hstep <;> cases hstep <;> exact hsame rfl

/-- What a step of any call does, where every call is sound. -/
theorem keepsIdentity_of_sound (hideal : v.Ideal) {e : Event Nat Act Empty}
    (hsound : ∀ i, Sound v c.shared (c.locals i)) (hclean : Clean v c e)
    (hstep : (loadOrCreateSealedSeed v).step c e = some c') : KeepsIdentity v c e c' := by
  obtain ⟨i, a, dir', call', rfl, hown, rfl⟩ | ⟨b, _⟩ := step_cases hstep
  · have hgoes := (own_sound hideal hclean (hsound i) hown).2
    refine ⟨?_, hgoes.keeps, ?_⟩
    · intro j seed heq hstage
      cases heq
      obtain ⟨passphrase, hunder, hknows⟩ := (hsound i).knows (by simp [hstage])
      rw [hstage] at hknows
      have hlegacy : c.shared.legacy = none := hknows.1
      have henvelope : c.shared.envelope = none := by
        cases htext : c.shared.envelope with
        | none => rfl
        | some text =>
          -- a mint overwrites whatever is in place
          have hover : Overwrites v c.shared (c.locals i) = false := hclean
          simp only [Overwrites, hstage, hunder, htext, Bool.false_and, Bool.not_false] at hover
          split at hover <;> cases hover
      show SeedDirectory.mk c.shared.envelope c.shared.legacy = ⟨none, none⟩
      rw [hlegacy, henvelope]
    · intro legacy hlegacy hgone
      obtain ⟨seed, hstage⟩ := unlinks_of_legacy hown hlegacy hgone
      obtain ⟨passphrase, -, hknows⟩ := (hsound i).knows (by simp [hstage])
      rw [hstage] at hknows
      have hseed : legacy = seed := hknows.1 legacy hlegacy
      exact ⟨passphrase, hseed ▸ hknows.2⟩
  · exact b.elim

/-! ## Later calls -/

theorem Returns.mono (h : Returns v passphrase seed dir call) (hgoes : Goes v dir dir') :
    Returns v passphrase seed dir' call := by
  obtain ⟨protection, temporary, stage⟩ := call
  cases stage with
  | starting => exact hgoes.keeps passphrase seed h
  | uncalled => trivial
  | opening text => exact h
  | returned seed' unprotected => exact h
  | crashed => trivial
  | withoutEnvelope => exact h
  | sealing seed migrating => exact h
  | writing seed migrating envelope => exact h
  | written seed migrating => exact h
  | rereading seed => exact h
  | verifying seed text => exact h
  | unlinking seed => exact h
  | refused error => exact h

/-- A later call, wherever it has got to. -/
def LaterCall (v : SecretSeal) (passphrase : JsString) (seed : Bytes) (dir : SeedDirectory)
    (call : SeedLoad) : Prop :=
  call.stage = .uncalled ∨
    (call.protection = .passphrase passphrase → Returns v passphrase seed dir call)

theorem LaterCall.own (hkeeps : Keeps v dir passphrase seed)
    (hgiven : ∀ protection, a = .calls protection → Usable protection = true)
    (h : LaterCall v passphrase seed dir call)
    (hstep : (loadOrCreateSealedSeed v).own i a dir call = some (dir', call')) :
    LaterCall v passphrase seed dir' call' := by
  have hreturns : call.stage ≠ .uncalled → call.protection = .passphrase passphrase →
      Returns v passphrase seed dir call := fun hcalled => h.resolve_left hcalled
  -- a stage that no later call gets to
  have hnever : ∀ {P : Prop} (stage : LoadStage), call.stage = stage →
      stage ≠ .uncalled → ¬ Returns v passphrase seed dir ⟨call.protection, call.temporary, stage⟩ →
      call.protection = .passphrase passphrase → P := by
    intro P stage hstage hcalled hnot hunder
    refine absurd ?_ hnot
    rw [← hstage]
    exact hreturns (hstage ▸ hcalled) hunder
  cases a with
  | calls protection =>
    change calls dir call protection = some (dir', call') at hstep
    unfold calls at hstep
    split at hstep
    · cases hstep
      cases protection with
      | writesNoNewSecret => cases hgiven _ rfl
      | passphrase given =>
        have husable : ¬ given.length < PASSPHRASE_MIN_LENGTH := by
          have := of_decide_eq_true (hgiven _ rfl)
          omega
        refine Or.inr fun _ => ?_
        simp only [assertUsablePassphrase, if_neg husable]
        exact hkeeps
    · cases hstep
  | readsEnvelope =>
    change readsEnvelope dir call = some (dir', call') at hstep
    unfold readsEnvelope at hstep
    split at hstep
    · cases hstep
      obtain ⟨text, htext, hopens⟩ := hkeeps
      refine Or.inr fun hunder => ?_
      replace hunder : call.protection = .passphrase passphrase := hunder
      simp only [htext, hunder]
      exact hopens
    · cases hstep
  | opens =>
    change opens v dir call = some (dir', call') at hstep
    unfold opens at hstep
    split at hstep
    next text given hstage hgiven =>
      cases hstep
      refine Or.inr fun hunder => ?_
      replace hunder : call.protection = .passphrase passphrase := hunder
      have hopens := hreturns (by simp [hstage]) hunder
      rw [hgiven] at hunder
      cases hunder
      unfold Returns at hopens
      simp only [hstage] at hopens
      simp only [Returns, hopens]
    next seed' text given hstage _ =>
      cases hstep
      exact Or.inr (hnever _ hstage (by simp) id)
    · cases hstep
  | crashes written =>
    change crashes dir call written = some (dir', call') at hstep
    unfold crashes at hstep
    split at hstep <;> cases hstep <;> exact Or.inr fun _ => trivial
  | readsLegacy drawn =>
    change readsLegacy dir call drawn = some (dir', call') at hstep
    unfold readsLegacy at hstep
    split at hstep
    next hstage =>
      cases hstep
      exact Or.inr (hnever _ hstage (by simp) id)
    · cases hstep
  | seals drawn =>
    change seals v dir call drawn = some (dir', call') at hstep
    unfold seals at hstep
    split at hstep
    next hstage _ =>
      cases hstep
      exact Or.inr (hnever _ hstage (by simp) id)
    · cases hstep
  | writes =>
    change writes dir call = some (dir', call') at hstep
    unfold writes at hstep
    split at hstep
    next hstage =>
      cases hstep
      exact Or.inr (hnever _ hstage (by simp) id)
    · cases hstep
  | renames =>
    change renames dir call = some (dir', call') at hstep
    unfold renames at hstep
    split at hstep
    next hstage =>
      cases hstep
      exact Or.inr (hnever _ hstage (by simp) id)
    · cases hstep
  | rereads =>
    change rereads dir call = some (dir', call') at hstep
    unfold rereads at hstep
    split at hstep
    next hstage =>
      cases hstep
      exact Or.inr (hnever _ hstage (by simp) id)
    · cases hstep
  | unlinks =>
    change unlinks dir call = some (dir', call') at hstep
    unfold unlinks at hstep
    split at hstep
    next hstage =>
      split at hstep <;> cases hstep <;> exact Or.inr (hnever _ hstage (by simp) id)
    · cases hstep

/-- The seed a call has returned stays in place, and later calls under its passphrase return it. -/
theorem later_returns (hideal : v.Ideal) {first : SeedDirectory}
    (h : (loadOrCreateSealedSeed v).Reaches (Clean v) (SeedLoads.start first) c)
    (hkeeps : Keeps v c.shared passphrase seed)
    (hlater : (loadOrCreateSealedSeed v).Reaches (Clean v) c c') :
    Keeps v c'.shared passphrase seed ∧
      ∀ j, (c.locals j).stage = .uncalled →
        LaterCall v passphrase seed c'.shared (c'.locals j) := by
  have hall : Keeps v c'.shared passphrase seed ∧ (∀ i, Sound v c'.shared (c'.locals i)) ∧
      ∀ j, (c.locals j).stage = .uncalled →
        LaterCall v passphrase seed c'.shared (c'.locals j) := by
    refine hlater.invariant (I := fun c' => Keeps v c'.shared passphrase seed ∧
      (∀ i, Sound v c'.shared (c'.locals i)) ∧ ∀ j, (c.locals j).stage = .uncalled →
        LaterCall v passphrase seed c'.shared (c'.locals j)) ?_ ?_
    · exact ⟨hkeeps, sound_of_reaches hideal h, fun j huncalled => Or.inl huncalled⟩
    · rintro s e s' hclean ⟨hheld, hsound, hcalls⟩ hstep
      obtain ⟨i, a, dir', call', rfl, hown, rfl⟩ | ⟨b, _⟩ := step_cases hstep
      · obtain ⟨hsound', hgoes⟩ := own_sound hideal hclean (hsound i) hown
        refine ⟨hgoes.keeps passphrase seed hheld, ?_, ?_⟩
        · intro j
          by_cases hsame : j = i
          · subst hsame
            show Sound v dir' (Function.update s.locals j call' j)
            rw [Function.update_self]
            exact hsound'
          · show Sound v dir' (Function.update s.locals i call' j)
            rw [Function.update_of_ne hsame]
            exact (hsound j).mono hgoes
        · intro j huncalled
          by_cases hsame : j = i
          · subst hsame
            show LaterCall v passphrase seed dir' (Function.update s.locals j call' j)
            rw [Function.update_self]
            refine (hcalls j huncalled).own hheld ?_ hown
            rintro protection rfl
            exact hclean
          · show LaterCall v passphrase seed dir' (Function.update s.locals i call' j)
            rw [Function.update_of_ne hsame]
            exact (hcalls j huncalled).imp_right fun hreturns hunder => (hreturns hunder).mono hgoes
      · exact b.elim
  exact ⟨hall.1, hall.2.2⟩

variable {j : Nat}

theorem step_opens {text : Bytes} (hstage : (c.locals j).stage = .opening text)
    (hunder : (c.locals j).protection = .passphrase passphrase)
    (hopens : openSealedSeed v text passphrase = .ok seed) :
    ∃ c', (loadOrCreateSealedSeed v).step c (.own j .opens) = some c' ∧
      (c'.locals j).stage = .returned seed false := by
  have hown : opens v c.shared (c.locals j)
      = some (c.shared, { c.locals j with stage := .returned seed false }) := by
    simp only [opens, hstage, hunder, hopens]
  refine ⟨⟨c.shared, Function.update c.locals j { c.locals j with stage := .returned seed false }⟩,
    ?_, ?_⟩
  · show (opens v c.shared (c.locals j)).map _ = _
    rw [hown]
    rfl
  · show (Function.update c.locals j _ j).stage = _
    rw [Function.update_self]

theorem step_readsEnvelope {text : Bytes} (hstage : (c.locals j).stage = .starting)
    (hunder : (c.locals j).protection = .passphrase passphrase)
    (htext : c.shared.envelope = some text) :
    ∃ c', (loadOrCreateSealedSeed v).step c (.own j .readsEnvelope) = some c' ∧
      (c'.locals j).stage = .opening text ∧
      (c'.locals j).protection = .passphrase passphrase := by
  have hown : readsEnvelope c.shared (c.locals j)
      = some (c.shared, { c.locals j with stage := .opening text }) := by
    simp only [readsEnvelope, hstage, hunder, htext]
  refine ⟨⟨c.shared, Function.update c.locals j { c.locals j with stage := .opening text }⟩,
    ?_, ?_⟩
  · show (readsEnvelope c.shared (c.locals j)).map _ = _
    rw [hown]
    rfl
  · show (Function.update c.locals j _ j).stage = _ ∧ (Function.update c.locals j _ j).protection = _
    rw [Function.update_self]
    exact ⟨rfl, hunder⟩

/-- Left to itself, a later call returns. -/
theorem Returns.progress (h : Returns v passphrase seed c.shared (c.locals j))
    (hunder : (c.locals j).protection = .passphrase passphrase)
    (hcalled : (c.locals j).stage ≠ .uncalled) (hruns : (c.locals j).stage ≠ .crashed) :
    ∃ (acts : List Act) (c' : SeedLoads) (unprotected : Bool),
      (loadOrCreateSealedSeed v).run c (acts.map (Event.own j)) = some c' ∧
      (c'.locals j).stage = .returned seed unprotected := by
  cases hstage : (c.locals j).stage with
  | starting =>
    simp only [Returns, hstage] at h
    obtain ⟨text, htext, hopens⟩ := h
    obtain ⟨c₁, hfirst, hopening, hunder₁⟩ := step_readsEnvelope (v := v) hstage hunder htext
    obtain ⟨c₂, hsecond, hreturned⟩ := step_opens hopening hunder₁ hopens
    refine ⟨[.readsEnvelope, .opens], c₂, false, ?_, hreturned⟩
    simp [System.run, hfirst, hsecond]
  | opening text =>
    simp only [Returns, hstage] at h
    obtain ⟨c₁, hfirst, hreturned⟩ := step_opens hstage hunder h
    refine ⟨[.opens], c₁, false, ?_, hreturned⟩
    simp [System.run, hfirst]
  | returned seed' unprotected =>
    simp only [Returns, hstage] at h
    exact ⟨[], c, unprotected, rfl, hstage.trans (by rw [h])⟩
  | uncalled => exact absurd hstage hcalled
  | crashed => exact absurd hstage hruns
  | withoutEnvelope => simp only [Returns, hstage] at h
  | sealing seed migrating => simp only [Returns, hstage] at h
  | writing seed migrating envelope => simp only [Returns, hstage] at h
  | written seed migrating => simp only [Returns, hstage] at h
  | rereading seed => simp only [Returns, hstage] at h
  | verifying seed text => simp only [Returns, hstage] at h
  | unlinking seed => simp only [Returns, hstage] at h
  | refused error => simp only [Returns, hstage] at h

instance (v : SecretSeal) (c : SeedLoads) : (e : Event Nat Act Empty) → Decidable (Clean v c e)
  | .own _ (.calls protection) => inferInstanceAs (Decidable (Usable protection = true))
  | .own _ .renames => inferInstanceAs (Decidable (_ = false))
  | .own _ .readsEnvelope => instDecidableTrue
  | .own _ (.readsLegacy _) => instDecidableTrue
  | .own _ (.seals _) => instDecidableTrue
  | .own _ .writes => instDecidableTrue
  | .own _ .rereads => instDecidableTrue
  | .own _ .opens => instDecidableTrue
  | .own _ .unlinks => instDecidableTrue
  | .own _ (.crashes _) => instDecidableTrue
  | .alone _ => instDecidableTrue

def owner : IdentityProtection := .passphrase (js "the owner's passphrase")

def returnedSeed : LoadStage → Option Bytes
  | .returned seed _ => some seed
  | _ => none

end O2Fabric.Node
