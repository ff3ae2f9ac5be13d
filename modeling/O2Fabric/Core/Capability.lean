/-
  O2Fabric.Core.Capability

  `verifyChain`: who may act on an owner's data.  The owner delegates to a key,
  that key to another, and the node that is asked checks the whole chain: from
  the owner's key to its own, each link signed by the holder of the one before.

  A payload that cannot be encoded throws out of the whole check, before the
  signature is looked at.
-/

import O2Fabric.Core.SignedNameResolver
import Mathlib.Data.List.Chain

namespace O2Fabric.Capability

/-! ## The payload -/

def abilityText : Ability → JsString
  | .execute => js "execute"
  | .read => js "read"
  | .delegate => js "delegate"

/-- Everything that the signature covers. -/
def payloadValue (delegation : Delegation) : CanonicalValue :=
  .record
    [(js "issuer", .text delegation.issuer),
      (js "audience", .text delegation.audience),
      (js "ownerId", .text delegation.ownerId),
      (js "abilities", .list
        (((delegation.abilities.map abilityText).insertionSort (· ≤ ·)).map .text)),
      (js "expiresAt", .number (.finite delegation.expiresAt))]

variable (sigs : NameSignatures)

/-- The bytes a delegation's signature covers; `none` where it throws. -/
def payloadOf (delegation : Delegation) : Option Bytes :=
  sigs.codec.encodeCanonical (payloadValue delegation)

/-! ## The check -/

inductive ChainFailure
  | emptyChain
  | wrongRoot (index : Nat) (expected found : JsString)
  | brokenLink (index : Nat) (expected found : JsString)
  | badSignature (index : Nat) (issuer : JsString)
  | expired (index : Nat) (expiresAt now : ℚ)
  | ownerMismatch (index : Nat) (expected found : JsString)
  | missingAbility (index : Nat) (ability : Ability)
  | notDelegable (index : Nat)
  | wrongAudience (expected found : JsString)
  | tooDeep (depth limit : Nat)
  deriving DecidableEq

/-- The most links a chain may carry. -/
def MAX_CHAIN_DEPTH : Nat := 8

def describeFailure : ChainFailure → JsString
  | .emptyChain => js "no capability chain supplied"
  | .wrongRoot _ expected found =>
    js "link 0 is issued by " ++ found ++ js ", but the data owner's key is " ++ expected
  | .brokenLink index expected found =>
    js "link " ++ decimal index ++ js " is issued by " ++ found ++ js ", but link "
      ++ decimal (index - 1) ++ js " delegated to " ++ expected
  | .badSignature index issuer =>
    js "link " ++ decimal index ++ js " has an invalid signature for issuer " ++ issuer
  | .expired index expiresAt now =>
    js "link " ++ decimal index ++ js " expired at " ++ sigs.numberText expiresAt ++ js ", now "
      ++ sigs.numberText now
  | .ownerMismatch index expected found =>
    js "link " ++ decimal index ++ js " is scoped to owner " ++ found ++ js ", not " ++ expected
  | .missingAbility index ability =>
    js "link " ++ decimal index ++ js " does not carry the \"" ++ abilityText ability
      ++ js "\" ability"
  | .notDelegable index =>
    js "link " ++ decimal index
      ++ js " was re-delegated, but its issuer was never granted \"delegate\""
  | .wrongAudience expected found =>
    js "chain ends at " ++ found ++ js ", but this node is " ++ expected
  | .tooDeep depth limit =>
    js "chain carries " ++ decimal depth ++ js " links, more than the " ++ decimal limit
      ++ js " allowed"

inductive ChainResult
  | ok (audience : JsString) (expiresAt : JsNumber)
  | refused (failure : ChainFailure) (reason : JsString)

structure VerifyOptions where
  /-- The chain must start here. -/
  ownerKey : JsString
  ownerId : JsString
  /-- The node that checks the chain, which must end with it. -/
  audience : JsString
  ability : Ability
  now : ℚ

/-- Why the check ends before the last link. -/
inductive Stopped
  | threw
  | refused (failure : ChainFailure)

/-- `Math.min(earliest, x)` for a number that is finite. -/
def earlier (earliest : JsNumber) (x : ℚ) : JsNumber :=
  match earliest with
  | .nan => .nan
  | .negInfinity => .negInfinity
  | .finite y => .finite (min y x)
  | .posInfinity => .finite x

/-- The link before, if there is one, was granted `delegate`. -/
def MayDelegate (previous : Option Delegation) : Prop :=
  ∀ before ∈ previous, .delegate ∈ before.abilities

instance : DecidablePred MayDelegate := fun previous =>
  inferInstanceAs (Decidable (∀ before ∈ previous, .delegate ∈ before.abilities))

variable (options : VerifyOptions)

/-- One turn of the loop: `previous` is the link before this one, and the answer is the key
    that the next link has to be issued by. -/
def checkLink (i : Nat) (previous : Option Delegation) (expectedIssuer : JsString)
    (link : Delegation) : Except Stopped JsString :=
  if link.issuer ≠ expectedIssuer then
    .error (.refused
      (if i = 0 then .wrongRoot 0 options.ownerKey link.issuer
        else .brokenLink i expectedIssuer link.issuer))
  else if link.ownerId ≠ options.ownerId then
    .error (.refused (.ownerMismatch i options.ownerId link.ownerId))
  else
    match payloadOf sigs link with
    | none => .error .threw
    | some payload =>
      if !sigs.verify link.signature payload link.issuer then
        .error (.refused (.badSignature i link.issuer))
      else if link.expiresAt ≤ options.now then
        .error (.refused (.expired i link.expiresAt options.now))
      else if options.ability ∉ link.abilities then
        .error (.refused (.missingAbility i options.ability))
      -- a link after the first is there because the one before was delegated on
      else if ¬ MayDelegate previous then
        .error (.refused (.notDelegable i))
      else .ok link.audience

/-- The loop over the links from the `i`-th on. -/
def checkLinks : (i : Nat) → (previous : Option Delegation) → (expectedIssuer : JsString) →
    List Delegation → Except Stopped JsString
  | _, _, expectedIssuer, [] => .ok expectedIssuer
  | i, previous, expectedIssuer, link :: rest => do
    let audience ← checkLink sigs options i previous expectedIssuer link
    checkLinks (i + 1) (some link) audience rest

/-- The check of a chain that is neither empty nor too deep. -/
def checkChain (chain : List Delegation) : Except Stopped JsString :=
  if chain.length = 0 then .error (.refused .emptyChain)
  else if MAX_CHAIN_DEPTH < chain.length then
    .error (.refused (.tooDeep chain.length MAX_CHAIN_DEPTH))
  else do
    let reached ← checkLinks sigs options 0 none options.ownerKey chain
    if reached ≠ options.audience then
      .error (.refused (.wrongAudience options.audience reached))
    else return reached

/-- Verify a delegation chain end to end; `none` where it throws. -/
def verifyChain (chain : List Delegation) : Option ChainResult :=
  match checkChain sigs options chain with
  | .error .threw => none
  | .error (.refused failure) => some (.refused failure (describeFailure sigs failure))
  | .ok reached =>
    -- the chain is only valid until its earliest expiry
    let expiresAt := chain.foldl (fun earliest link => earlier earliest link.expiresAt) .posInfinity
    some (.ok reached expiresAt)

/-! ## What an accepted chain says -/

/-- What every link has to say, whatever stands before and after it. -/
structure Grants (link : Delegation) : Prop where
  owner : link.ownerId = options.ownerId
  signed : ∃ payload, payloadOf sigs link = some payload ∧
    sigs.verify link.signature payload link.issuer = true
  alive : options.now < link.expiresAt
  able : options.ability ∈ link.abilities

/-- The owner's authority, delegated link after link to the audience. -/
structure Delegates (chain : List Delegation) : Prop where
  nonempty : 1 ≤ chain.length
  shallow : chain.length ≤ MAX_CHAIN_DEPTH
  root : ∀ first ∈ chain.head?, first.issuer = options.ownerKey
  passed : chain.IsChain fun previous link => link.issuer = previous.audience
  arrives : ∀ last ∈ chain.getLast?, last.audience = options.audience
  grants : ∀ link ∈ chain, Grants sigs options link
  delegable : ∀ link ∈ chain.dropLast, .delegate ∈ link.abilities

/-- The chain is accepted, whatever expiry is answered. -/
def Accepts (chain : List Delegation) : Prop :=
  ∃ expiresAt, verifyChain sigs options chain = some (.ok options.audience expiresAt)

variable {sigs options}

variable {audience : JsString} {link : Delegation}

/-- A link says nothing of who asks. -/
theorem Grants.toAudience (h : Grants sigs options link) :
    Grants sigs { options with audience := audience } link :=
  ⟨h.owner, h.signed, h.alive, h.able⟩

theorem checkLink_ok {i : Nat} {previous : Option Delegation} {expectedIssuer : JsString} :
    checkLink sigs options i previous expectedIssuer link = .ok audience ↔
      link.issuer = expectedIssuer ∧ Grants sigs options link ∧
        MayDelegate previous ∧ link.audience = audience := by
  by_cases hissuer : link.issuer = expectedIssuer
  · by_cases howner : link.ownerId = options.ownerId
    · cases hpayload : payloadOf sigs link with
      | none =>
        simp only [checkLink, hissuer, howner, hpayload, ne_eq, not_true_eq_false, if_false]
        constructor
        · intro h
          cases h
        · rintro ⟨-, hgrants, -⟩
          obtain ⟨payload, hsome, -⟩ := hgrants.signed
          rw [hpayload] at hsome
          cases hsome
      | some payload =>
        have hgrants : Grants sigs options link ↔
            sigs.verify link.signature payload link.issuer = true ∧
              options.now < link.expiresAt ∧ options.ability ∈ link.abilities := by
          constructor
          · rintro ⟨-, ⟨payload', hsome, hsigned⟩, halive, hable⟩
            rw [hpayload] at hsome
            cases hsome
            exact ⟨hsigned, halive, hable⟩
          · rintro ⟨hsigned, halive, hable⟩
            exact ⟨howner, ⟨payload, hpayload, hsigned⟩, halive, hable⟩
        rw [hgrants]
        -- each check in turn
        by_cases hsigned : sigs.verify link.signature payload link.issuer = true
        · by_cases halive : link.expiresAt ≤ options.now
          · simp [checkLink, hissuer, howner, hpayload, hissuer ▸ hsigned, halive,
              not_lt.mpr halive]
          · by_cases hable : options.ability ∈ link.abilities
            · by_cases hdelegable : MayDelegate previous
              · simp [checkLink, hissuer, howner, hpayload, hissuer ▸ hsigned, halive,
                  not_le.mp halive, hable, hdelegable]
              · simp [checkLink, hissuer, howner, hpayload, hissuer ▸ hsigned, halive, hable,
                  hdelegable]
            · simp [checkLink, hissuer, howner, hpayload, hissuer ▸ hsigned, halive, hable]
        · simp [checkLink, hissuer, howner, hpayload, hissuer ▸ hsigned]
    · have hnot : ¬ Grants sigs options link := fun hgrants => howner hgrants.owner
      simp [checkLink, hissuer, howner, hnot]
  · simp [checkLink, hissuer]

variable {chain : List Delegation}

/-- The loop answers the key that the last link names, exactly where each link stands. -/
theorem checkLinks_ok {i : Nat} {previous : Option Delegation} {expectedIssuer : JsString} :
    checkLinks sigs options i previous expectedIssuer chain = .ok audience ↔
      (∀ first ∈ chain.head?, first.issuer = expectedIssuer ∧ MayDelegate previous) ∧
      (chain.IsChain fun previous link => link.issuer = previous.audience) ∧
      (∀ link ∈ chain, Grants sigs options link) ∧
      (∀ link ∈ chain.dropLast, .delegate ∈ link.abilities) ∧
      (chain.getLast?.map Delegation.audience).getD expectedIssuer = audience := by
  induction chain generalizing i previous expectedIssuer with
  | nil => simp [checkLinks]
  | cons link rest ih =>
    have hstep : checkLinks sigs options i previous expectedIssuer (link :: rest) = .ok audience ↔
        ∃ next, checkLink sigs options i previous expectedIssuer link = .ok next ∧
          checkLinks sigs options (i + 1) (some link) next rest = .ok audience := by
      rw [checkLinks]
      cases checkLink sigs options i previous expectedIssuer link with
      | error stopped => simp [bind, Except.bind]
      | ok next => simp [bind, Except.bind]
    rw [hstep]
    simp only [checkLink_ok, ih]
    cases rest with
    | nil => simp; tauto
    | cons after rest => simp [List.getLast?_cons, MayDelegate]; tauto

/-- The check stops nowhere exactly where the chain delegates to the audience. -/
theorem checkChain_ok :
    checkChain sigs options chain = .ok audience ↔
      audience = options.audience ∧ Delegates sigs options chain := by
  unfold checkChain
  by_cases hempty : chain.length = 0
  · rw [if_pos hempty]
    have hnot : ¬ Delegates sigs options chain := fun hchain => by
      have := hchain.nonempty
      omega
    simp [hnot]
  rw [if_neg hempty]
  by_cases hdeep : MAX_CHAIN_DEPTH < chain.length
  · rw [if_pos hdeep]
    have hnot : ¬ Delegates sigs options chain := fun hchain => by
      have := hchain.shallow
      omega
    simp [hnot]
  rw [if_neg hdeep]
  -- the last link is there, so what the loop answers is its audience
  have hlast : chain.getLast? = some (chain.getLast (by rintro rfl; exact hempty rfl)) :=
    List.getLast?_eq_some_getLast _
  have hloop : ∀ reached, checkLinks sigs options 0 none options.ownerKey chain = .ok reached ↔
      Delegates sigs { options with audience := reached } chain := by
    intro reached
    rw [checkLinks_ok, hlast]
    constructor
    · rintro ⟨hroot, hpassed, hgrants, hdelegable, hreached⟩
      refine ⟨by omega, by omega, fun first hfirst => (hroot first hfirst).1, hpassed, ?_,
        fun link hlink => (hgrants link hlink).toAudience, hdelegable⟩
      rw [hlast]
      rintro link hlink
      cases hlink
      exact hreached
    · intro hchain
      refine ⟨fun first hfirst => ⟨hchain.root first hfirst, by simp [MayDelegate]⟩, hchain.passed,
        fun link hlink => (hchain.grants link hlink).toAudience, hchain.delegable, ?_⟩
      exact hchain.arrives _ hlast
  cases hreached : checkLinks sigs options 0 none options.ownerKey chain with
  | error stopped =>
    have hnot : ¬ Delegates sigs options chain := fun hchain => by
      rw [(hloop options.audience).mpr hchain] at hreached
      cases hreached
    simp [bind, Except.bind, hnot]
  | ok reached =>
    have hchain : Delegates sigs { options with audience := reached } chain :=
      (hloop reached).mp hreached
    by_cases haudience : reached = options.audience
    · subst haudience
      have : Delegates sigs options chain := hchain
      simp [bind, Except.bind, this, pure, Except.pure, eq_comm]
    · have hnot : ¬ Delegates sigs options chain := fun hother => by
        have := (hchain.arrives _ hlast).symm.trans (hother.arrives _ hlast)
        exact haudience this
      simp [bind, Except.bind, haudience, hnot]

theorem accepts_iff :
    Accepts sigs options chain ↔ Delegates sigs options chain := by
  unfold Accepts verifyChain
  constructor
  · rintro ⟨expiresAt, h⟩
    split at h
    · cases h
    · cases h
    · next reached hreached => exact (checkChain_ok.mp hreached).2
  · intro hchain
    rw [checkChain_ok.mpr ⟨rfl, hchain⟩]
    exact ⟨_, rfl⟩

/-! ## The earliest expiry -/

theorem earliest_of_finite (links : List Delegation) (x : ℚ) :
    links.foldl (fun earliest link => earlier earliest link.expiresAt) (.finite x)
      = .finite (links.foldl (fun earliest link => min earliest link.expiresAt) x) := by
  induction links generalizing x with
  | nil => rfl
  | cons link links ih =>
    rw [List.foldl_cons, List.foldl_cons]
    exact ih (min x link.expiresAt)

theorem foldl_min_isLeast (links : List Delegation) (x : ℚ) :
    IsLeast {y | y = x ∨ ∃ link ∈ links, link.expiresAt = y}
      (links.foldl (fun earliest link => min earliest link.expiresAt) x) := by
  induction links generalizing x with
  | nil => simp [IsLeast, lowerBounds]
  | cons link links ih =>
    rw [List.foldl_cons]
    obtain ⟨hmem, hleast⟩ := ih (min x link.expiresAt)
    refine ⟨?_, ?_⟩
    · obtain hmin | ⟨other, hother, heq⟩ := hmem
      · rw [hmin]
        obtain hle | hle := le_total x link.expiresAt
        · exact Or.inl (min_eq_left hle)
        · exact Or.inr ⟨link, by simp, (min_eq_right hle).symm⟩
      · exact Or.inr ⟨other, by simp [hother], heq⟩
    · have hbound := hleast (Or.inl rfl)
      rintro y (rfl | ⟨other, hother, rfl⟩)
      · exact hbound.trans (min_le_left _ _)
      · obtain rfl | hother := List.mem_cons.mp hother
        · exact hbound.trans (min_le_right _ _)
        · exact hleast (Or.inr ⟨other, hother, rfl⟩)

/-- What is answered for an accepted chain: the audience, and the earliest expiry in it. -/
theorem verifyChain_ok {expiresAt : JsNumber}
    (h : verifyChain sigs options chain = some (.ok audience expiresAt)) :
    audience = options.audience ∧ ∃ earliest : ℚ, expiresAt = .finite earliest ∧
      IsLeast {x | ∃ link ∈ chain, link.expiresAt = x} earliest := by
  unfold verifyChain at h
  split at h
  · cases h
  · cases h
  · next reached hreached =>
    obtain ⟨rfl, hchain⟩ := checkChain_ok.mp hreached
    cases h
    refine ⟨rfl, ?_⟩
    cases chain with
    | nil => exact absurd hchain.nonempty (by simp)
    | cons first rest =>
      refine ⟨_, earliest_of_finite rest first.expiresAt, ?_⟩
      have hleast := foldl_min_isLeast rest first.expiresAt
      have hset : {y | y = first.expiresAt ∨ ∃ link ∈ rest, link.expiresAt = y}
          = {x | ∃ link ∈ first :: rest, link.expiresAt = x} := by
        ext y
        simp [eq_comm]
      rwa [hset] at hleast

/-! ## Authority only attenuates -/

variable {last : Delegation}

/-- A chain that delegates is one that has delegated to whoever each of its links names. -/
theorem Delegates.front {start : List Delegation} (h : Delegates sigs options chain)
    (hstart : start <+: chain) (hlast : start.getLast? = some last) :
    Delegates sigs { options with audience := last.audience } start := by
  obtain ⟨rest, rfl⟩ := hstart
  have hne : start ≠ [] := by
    rintro rfl
    cases hlast
  have hlength := h.shallow
  rw [List.length_append] at hlength
  refine ⟨List.length_pos_iff.mpr hne, by omega, ?_, h.passed.left_of_append, ?_, ?_, ?_⟩
  · intro first hfirst
    exact h.root first (by rw [List.head?_append_of_ne_nil _ hne]; exact hfirst)
  · intro link hlink
    rw [hlast] at hlink
    cases hlink
    rfl
  · intro link hlink
    exact (h.grants link (List.mem_append_left rest hlink)).toAudience
  · intro link hlink
    apply h.delegable link
    by_cases hrest : rest = []
    · rw [hrest, List.append_nil]
      exact hlink
    · rw [List.dropLast_append_of_ne_nil hrest]
      exact List.mem_append_left _ (List.dropLast_subset start hlink)

/-- What one more link needs: the holder has granted it, was itself granted `delegate`, and the
    chain has room for it. -/
theorem delegates_concat (h : Delegates sigs options chain) (hlast : chain.getLast? = some last) :
    Delegates sigs { options with audience := link.audience } (chain ++ [link]) ↔
      chain.length < MAX_CHAIN_DEPTH ∧ .delegate ∈ last.abilities ∧
        link.issuer = options.audience ∧ Grants sigs options link := by
  have haudience : last.audience = options.audience := h.arrives last hlast
  have hmem : last ∈ chain := List.mem_of_getLast? hlast
  have hne : chain ≠ [] := List.ne_nil_of_mem hmem
  constructor
  · intro hnext
    have hlength := hnext.shallow
    rw [List.length_append, List.length_singleton] at hlength
    refine ⟨by omega, ?_, ?_, (hnext.grants link (by simp)).toAudience⟩
    · apply hnext.delegable
      rw [List.dropLast_concat]
      exact hmem
    · rw [← haudience]
      exact (List.isChain_append.mp hnext.passed).2.2 last hlast link rfl
  · rintro ⟨hlength, hdelegable, hissuer, hgrants⟩
    refine ⟨by simp, by simp; omega, ?_, ?_, by simp, ?_, ?_⟩
    · intro first hfirst
      rw [List.head?_append_of_ne_nil _ hne] at hfirst
      exact h.root first hfirst
    · rw [List.isChain_append]
      refine ⟨h.passed, List.isChain_singleton _, ?_⟩
      intro before hbefore after hafter
      rw [hlast] at hbefore
      cases hbefore
      cases hafter
      rw [hissuer, haudience]
    · intro other hother
      obtain hother | hother := List.mem_append.mp hother
      · exact (h.grants other hother).toAudience
      · rw [List.mem_singleton.mp hother]
        exact hgrants.toAudience
    · intro other hother
      rw [List.dropLast_concat] at hother
      obtain hother | rfl : other ∈ chain.dropLast ∨ other = last := by
        rw [← List.dropLast_append_getLast? last hlast, List.mem_append,
          List.mem_singleton] at hother
        exact hother
      · exact h.delegable other hother
      · exact hdelegable

/-- The holder of this key signs what it is given. -/
def Signs (sigs : NameSignatures) (key : JsString) : Prop :=
  ∀ payload, ∃ signature, sigs.verify signature payload key = true

theorem payloadOf_isSome (sigs : NameSignatures) (delegation : Delegation) :
    (payloadOf sigs delegation).isSome = true := by
  simp [payloadOf, payloadValue]

/-- Whoever holds the end of a chain that has room extends it exactly where it may delegate. -/
theorem extends_iff (h : Accepts sigs options chain) (hlast : chain.getLast? = some last)
    (hsigns : Signs sigs options.audience) :
    (∃ link, Accepts sigs { options with audience := link.audience } (chain ++ [link])) ↔
      chain.length < MAX_CHAIN_DEPTH ∧ .delegate ∈ last.abilities := by
  have hchain : Delegates sigs options chain := accepts_iff.mp h
  constructor
  · rintro ⟨link, hlink⟩
    obtain ⟨hlength, hdelegable, -, -⟩ := (delegates_concat hchain hlast).mp (accepts_iff.mp hlink)
    exact ⟨hlength, hdelegable⟩
  · rintro ⟨hlength, hdelegable⟩
    -- the holder grants nothing but what is asked for, to itself, for a moment more
    let unsigned : Delegation :=
      ⟨options.audience, options.audience, options.ownerId, [options.ability], options.now + 1, []⟩
    obtain ⟨payload, hpayload⟩ := Option.isSome_iff_exists.mp (payloadOf_isSome sigs unsigned)
    obtain ⟨signature, hsigned⟩ := hsigns payload
    refine ⟨{ unsigned with signature := signature }, accepts_iff.mpr ?_⟩
    refine (delegates_concat hchain hlast).mpr ⟨hlength, hdelegable, rfl, rfl, ?_, ?_, ?_⟩
    · exact ⟨payload, hpayload, hsigned⟩
    · exact lt_add_one options.now
    · exact List.mem_singleton.mpr rfl

/-- A chain is accepted exactly where each link delegates to the next, until its earliest expiry;
    so is what it starts with, asked for by whoever that delegates to; and whoever holds its end
    extends it, where it is not as deep as a chain may be, exactly with `delegate` in the last
    link. -/
theorem verifyChain_attenuates (sigs : NameSignatures) (options : VerifyOptions)
    (chain : List Delegation) :
    (Accepts sigs options chain ↔ Delegates sigs options chain) ∧
    (∀ audience expiresAt, verifyChain sigs options chain = some (.ok audience expiresAt) →
      audience = options.audience ∧ ∃ earliest : ℚ, expiresAt = .finite earliest ∧
        IsLeast {x | ∃ link ∈ chain, link.expiresAt = x} earliest) ∧
    (Accepts sigs options chain → ∀ start last, start <+: chain → start.getLast? = some last →
      Accepts sigs { options with audience := last.audience } start) ∧
    (Accepts sigs options chain → chain.length < MAX_CHAIN_DEPTH →
      Signs sigs options.audience → ∀ last, chain.getLast? = some last →
      ((∃ link, Accepts sigs { options with audience := link.audience } (chain ++ [link])) ↔
        .delegate ∈ last.abilities)) := by
  refine ⟨accepts_iff, fun audience expiresAt => verifyChain_ok, ?_, ?_⟩
  · intro haccepted start last hstart hlast
    exact accepts_iff.mpr ((accepts_iff.mp haccepted).front hstart hlast)
  · intro haccepted hlength hsigns last hlast
    rw [extends_iff haccepted hlast hsigns]
    exact and_iff_right hlength

/-! ## As deep as a chain may be -/

def obliging : NameSignatures := ⟨plainDagCbor, fun _ _ _ => true, fun _ => []⟩

/-- A key that delegates to itself. -/
def loop : Delegation := ⟨js "k", js "k", js "o", [.execute, .delegate], 1, []⟩

def asked : VerifyOptions := ⟨js "k", js "o", js "k", .execute, 0⟩

theorem loops_accepted (depth : Nat) (hpositive : 1 ≤ depth) (hdepth : depth ≤ MAX_CHAIN_DEPTH) :
    Accepts obliging asked (List.replicate depth loop) := by
  obtain ⟨payload, hpayload⟩ := Option.isSome_iff_exists.mp (payloadOf_isSome obliging loop)
  have hgrants : Grants obliging asked loop :=
    ⟨rfl, ⟨payload, hpayload, rfl⟩, by decide, by decide⟩
  have heach : ∀ link ∈ List.replicate depth loop, link = loop :=
    fun link hlink => List.eq_of_mem_replicate hlink
  refine accepts_iff.mpr ⟨by simpa using hpositive, by simpa using hdepth, ?_, ?_, ?_, ?_, ?_⟩
  · intro first hfirst
    rw [heach first (List.mem_of_head? hfirst)]
    rfl
  · exact List.isChain_replicate_of_rel depth rfl
  · intro last hlast
    rw [heach last (List.mem_of_getLast? hlast)]
    rfl
  · intro link hlink
    rw [heach link hlink]
    exact hgrants
  · intro link hlink
    rw [heach link (List.dropLast_subset _ hlink)]
    decide

/-- Eight links are accepted, the last of them may be delegated on, and no ninth is. -/
theorem deepest_chain_ends :
    ¬ ∀ (sigs : NameSignatures) (options : VerifyOptions) (chain : List Delegation),
      Accepts sigs options chain → Signs sigs options.audience →
      ∀ last, chain.getLast? = some last →
      ((∃ link, Accepts sigs { options with audience := link.audience } (chain ++ [link])) ↔
        .delegate ∈ last.abilities) := by
  intro hclaim
  have haccepted := loops_accepted 8 (by decide) (by decide)
  have hsigns : Signs obliging asked.audience := fun _ => ⟨[], rfl⟩
  have hextended := (hclaim obliging asked _ haccepted hsigns loop rfl).mpr (by decide)
  have hroom := ((extends_iff haccepted rfl hsigns).mp hextended).1
  exact absurd hroom (by decide)

/-- One link, and a second after it. -/
theorem verifyChain_attenuates_single :
    ∃ link, Accepts obliging { asked with audience := link.audience } ([loop] ++ [link]) :=
  ((verifyChain_attenuates obliging asked [loop]).2.2.2
    (loops_accepted 1 (by decide) (by decide)) (by decide) (fun _ => ⟨[], rfl⟩) loop
    rfl).mpr (by decide)

end O2Fabric.Capability
