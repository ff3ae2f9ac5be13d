/-
  O2Fabric.Core.SignedNameResolver

  The resolver of signed names: which records it accepts, under anchors pinned
  when it is made, and what a name resolves to.
-/

import O2Fabric.Core.DagCbor
import O2Fabric.Core.Naming

namespace O2Fabric

/-- What signatures on names and delegations rest on. -/
structure NameSignatures where
  codec : DagCbor
  /-- `ed25519.verify(fromHex(signature), payload, fromHex(key))`, `false` where it throws. -/
  verify : (signature : JsString) → (payload : Bytes) → (key : JsString) → Bool
  /-- `String(x)`. -/
  numberText : ℚ → JsString

/-- Why a record is not accepted, or a name does not resolve. -/
inductive ResolveFailure
  | unknownName (name : JsString)
  | untrustedSigner (name signer : JsString)
  | badSignature (name signer : JsString)
  | expired (name : JsString) (expiresAt now : ℚ)
  | rollback (name : JsString) (haveVersion offered : Nat)
  | authorityChanged (name haveAuthority offered : JsString)
  | untrustedRoot (name root : JsString)
  | delegationMismatch (name signer delegate : JsString)
  | badDelegationSignature (name root delegate : JsString)
  | delegationExpired (name : JsString) (expiresAt now : ℚ)
  | delegationOutlived (name : JsString) (recordExpiresAt delegationExpiresAt : ℚ)
  deriving DecidableEq

inductive ResolveResult
  | ok (cid : Cid)
  | refused (failure : ResolveFailure) (reason : JsString)
  deriving DecidableEq

/-- The pinned key a record is taken to rest on: the root its delegation names, or its signer. -/
def authorityOf (record : NameRecord) : JsString :=
  match record.delegation with
  | some delegation => delegation.root
  | none => record.signer

structure SignedNameResolver where
  anchors : List JsString
  records : InsertionMap JsString NameRecord

namespace SignedNameResolver

/-- `new SignedNameResolver(trustAnchors)`. -/
def new (trustAnchors : List JsString) : SignedNameResolver := ⟨trustAnchors, .empty⟩

variable (sigs : NameSignatures)

def describeResolveFailure : ResolveFailure → JsString
  | .unknownName name =>
    js "no signed mapping for \"" ++ name ++ js "\" — a bare CID is not executable"
  | .untrustedSigner name signer =>
    js "\"" ++ name ++ js "\" is signed by " ++ signer ++ js ", which is not a pinned trust anchor"
  | .badSignature name signer =>
    js "\"" ++ name ++ js "\" has an invalid signature for " ++ signer
  | .expired name expiresAt now =>
    js "\"" ++ name ++ js "\" expired at " ++ sigs.numberText expiresAt ++ js ", now "
      ++ sigs.numberText now
  | .rollback name haveVersion offered =>
    js "\"" ++ name ++ js "\" offered version " ++ decimal offered ++ js ", but "
      ++ decimal haveVersion ++ js " is already known"
  | .authorityChanged name haveAuthority offered =>
    js "\"" ++ name ++ js "\" is already held under " ++ haveAuthority
      ++ js " and was offered under " ++ offered
      ++ js " — two pinned anchors disagree, and this resolver refuses rather "
      ++ js "than picking one"
  | .untrustedRoot name root =>
    js "\"" ++ name ++ js "\" is signed under a delegation from " ++ root ++ js ", "
      ++ js "which is not a pinned trust anchor"
  | .delegationMismatch name signer delegate =>
    js "\"" ++ name ++ js "\" is signed by " ++ signer ++ js " but carries a delegation to "
      ++ delegate ++ js " — a delegation authorises one key and not the bearer"
  | .badDelegationSignature name root delegate =>
    js "\"" ++ name ++ js "\" carries a delegation of " ++ delegate ++ js " that " ++ root
      ++ js " did not sign"
  | .delegationExpired name expiresAt now =>
    js "\"" ++ name ++ js "\" is signed under a delegation that lapsed at "
      ++ sigs.numberText expiresAt ++ js ", now " ++ sigs.numberText now
  | .delegationOutlived name recordExpiresAt delegationExpiresAt =>
    js "\"" ++ name ++ js "\" expires at " ++ sigs.numberText recordExpiresAt
      ++ js ", outliving the delegation that authorised it, which lapses at "
      ++ sigs.numberText delegationExpiresAt

/-- The bytes a delegation's signature covers; `none` where it throws. -/
def delegationPayloadOf (delegation : NameDelegation) : Option Bytes :=
  sigs.codec.encodeCanonical (.record
    [(js "root", .text delegation.root), (js "delegate", .text delegation.delegate),
      (js "expiresAt", .number (.finite delegation.expiresAt))])

/-- The bytes a record's signature covers; `none` where it throws. -/
def payloadOf (record : NameRecord) : Option Bytes :=
  sigs.codec.encodeCanonical (.record
    ([(js "name", .text record.name), (js "cid", .cid record.cid),
        (js "version", .number (.finite record.version)),
        (js "expiresAt", .number (.finite record.expiresAt)),
        (js "signer", .text record.signer)]
      ++ (match record.translationKeyCid with
          | none => []
          | some key => [(js "translationKeyCid", .cid key)])
      ++ (match record.delegation with
          | none => []
          | some delegation =>
            [(js "delegation", .record
              [(js "root", .text delegation.root), (js "delegate", .text delegation.delegate),
                (js "expiresAt", .number (.finite delegation.expiresAt)),
                (js "signature", .text delegation.signature)])])
      ++ (if record.wantsNetworkReach then [(js "wantsNetworkReach", .bool true)] else [])))

/-- The root has signed this delegation.  A payload that throws is caught. -/
def delegationSigned (delegation : NameDelegation) : Bool :=
  match delegationPayloadOf sigs delegation with
  | some payload => sigs.verify delegation.signature payload delegation.root
  | none => false

/-- Why `record.signer` was not entitled to sign, if it was not. -/
def authorise (resolver : SignedNameResolver) (record : NameRecord) (now : ℚ) :
    Option ResolveFailure :=
  -- an anchor's record is not asked about the delegation it carries
  if record.signer ∈ resolver.anchors then none
  else match record.delegation with
    | none => some (.untrustedSigner record.name record.signer)
    | some delegation =>
      if delegation.delegate ≠ record.signer then
        some (.delegationMismatch record.name record.signer delegation.delegate)
      else if delegation.root ∉ resolver.anchors then
        some (.untrustedRoot record.name delegation.root)
      else if !delegationSigned sigs delegation then
        some (.badDelegationSignature record.name delegation.root delegation.delegate)
      else if delegation.expiresAt ≤ now then
        some (.delegationExpired record.name delegation.expiresAt now)
      else if delegation.expiresAt < record.expiresAt then
        some (.delegationOutlived record.name record.expiresAt delegation.expiresAt)
      else none

def refuse (failure : ResolveFailure) : ResolveResult :=
  .refused failure (describeResolveFailure sigs failure)

/-- Why a record of a name that is held is refused, if it is. -/
def againstHeld (existing record : NameRecord) : Option ResolveFailure :=
  if authorityOf existing ≠ authorityOf record then
    some (.authorityChanged record.name (authorityOf existing) (authorityOf record))
  else if record.version < existing.version then
    some (.rollback record.name existing.version record.version)
  else none

/-- Offer a record.  `none` where its payload throws, with nothing accepted. -/
def accept (resolver : SignedNameResolver) (record : NameRecord) (now : ℚ) :
    Option ResolveResult × SignedNameResolver :=
  match resolver.authorise sigs record now with
  | some failure => (some (refuse sigs failure), resolver)
  | none =>
    match payloadOf sigs record with
    | none => (none, resolver)
    | some payload =>
      if !sigs.verify record.signature payload record.signer then
        (some (refuse sigs (.badSignature record.name record.signer)), resolver)
      else if record.expiresAt ≤ now then
        (some (refuse sigs (.expired record.name record.expiresAt now)), resolver)
      else match (resolver.records.get? record.name).bind (againstHeld · record) with
        | some failure => (some (refuse sigs failure), resolver)
        | none =>
          (some (.ok record.cid),
            { resolver with records := resolver.records.set record.name record })

/-- Resolve a name already accepted. -/
def resolve (resolver : SignedNameResolver) (name : JsString) (now : ℚ) : ResolveResult :=
  match resolver.records.get? name with
  | none => refuse sigs (.unknownName name)
  | some record =>
    if record.expiresAt ≤ now then refuse sigs (.expired name record.expiresAt now)
    else .ok record.cid

/-! ## What each answer says -/

/-- A delegation to the signer that holds for this record at this time. -/
structure Warrants (resolver : SignedNameResolver) (delegation : NameDelegation)
    (record : NameRecord) (now : ℚ) : Prop where
  delegate : delegation.delegate = record.signer
  root : delegation.root ∈ resolver.anchors
  signed : delegationSigned sigs delegation = true
  alive : now < delegation.expiresAt
  outlives : record.expiresAt ≤ delegation.expiresAt

variable {sigs} {resolver : SignedNameResolver} {record : NameRecord} {now : ℚ}

/-- Two ways to be entitled, and no third. -/
theorem authorise_eq_none :
    resolver.authorise sigs record now = none ↔
      record.signer ∈ resolver.anchors ∨
        ∃ delegation, record.delegation = some delegation ∧
          resolver.Warrants sigs delegation record now := by
  by_cases hanchor : record.signer ∈ resolver.anchors
  · rw [authorise, if_pos hanchor]
    exact iff_of_true rfl (Or.inl hanchor)
  · rw [authorise, if_neg hanchor, or_iff_right hanchor]
    cases hdelegation : record.delegation with
    | none => simp
    | some delegation =>
      simp only [Option.some.injEq, exists_eq_left']
      constructor
      · intro hnone
        -- each check in turn has passed
        by_cases hdelegate : delegation.delegate = record.signer
        · by_cases hroot : delegation.root ∈ resolver.anchors
          · by_cases hsigned : delegationSigned sigs delegation = true
            · by_cases halive : delegation.expiresAt ≤ now
              · simp [hdelegate, hroot, hsigned, halive] at hnone
              · by_cases houtlived : delegation.expiresAt < record.expiresAt
                · simp [hdelegate, hroot, hsigned, halive, houtlived] at hnone
                · exact ⟨hdelegate, hroot, hsigned, not_le.mp halive, not_lt.mp houtlived⟩
            · simp [hdelegate, hroot, hsigned] at hnone
          · simp [hdelegate, hroot] at hnone
        · simp [hdelegate] at hnone
      · intro hwarrants
        simp [hwarrants.delegate, hwarrants.root, hwarrants.signed,
          not_le.mpr hwarrants.alive, not_lt.mpr hwarrants.outlives]

theorem againstHeld_eq_none {existing : NameRecord} :
    againstHeld existing record = none ↔
      authorityOf existing = authorityOf record ∧ existing.version ≤ record.version := by
  by_cases hauthority : authorityOf existing = authorityOf record
  · by_cases hversion : record.version < existing.version
    · simp [againstHeld, hauthority, hversion]
    · simp [againstHeld, hauthority, hversion]
      omega
  · simp [againstHeld, hauthority]

structure Accepted (sigs : NameSignatures) (resolver : SignedNameResolver) (record : NameRecord)
    (now : ℚ) : Prop where
  entitled : resolver.authorise sigs record now = none
  signed : ∃ payload, payloadOf sigs record = some payload ∧
    sigs.verify record.signature payload record.signer = true
  alive : now < record.expiresAt
  sameAuthority : ∀ existing, resolver.records.get? record.name = some existing →
    authorityOf existing = authorityOf record
  noRollback : ∀ existing, resolver.records.get? record.name = some existing →
    existing.version ≤ record.version

/-- A record is accepted and held, or nothing changes. -/
theorem accept_cases (sigs : NameSignatures) (resolver : SignedNameResolver) (record : NameRecord)
    (now : ℚ) :
    (Accepted sigs resolver record now ∧
      resolver.accept sigs record now
        = (some (.ok record.cid),
            { resolver with records := resolver.records.set record.name record })) ∨
    ((∀ cid, (resolver.accept sigs record now).1 ≠ some (.ok cid)) ∧
      (resolver.accept sigs record now).2 = resolver) := by
  unfold accept
  cases hentitled : resolver.authorise sigs record now with
  | some failure => exact Or.inr ⟨fun cid => by simp [refuse], rfl⟩
  | none =>
    cases hpayload : payloadOf sigs record with
    | none => exact Or.inr ⟨fun cid => by simp, rfl⟩
    | some payload =>
      cases hsigned : sigs.verify record.signature payload record.signer with
      | false => exact Or.inr ⟨fun cid => by simp [hsigned, refuse], by simp [hsigned]⟩
      | true =>
        by_cases halive : record.expiresAt ≤ now
        · exact Or.inr ⟨fun cid => by simp [hsigned, halive, refuse], by simp [hsigned, halive]⟩
        · cases hheld : (resolver.records.get? record.name).bind (againstHeld · record) with
          | some failure =>
            exact Or.inr ⟨fun cid => by simp [hsigned, halive, refuse],
              by simp [hsigned, halive]⟩
          | none =>
            have hagainst : ∀ existing, resolver.records.get? record.name = some existing →
                againstHeld existing record = none := by
              intro existing hexisting
              rw [hexisting] at hheld
              exact hheld
            refine Or.inl ⟨⟨hentitled, ⟨payload, hpayload, hsigned⟩, not_le.mp halive, ?_, ?_⟩,
              by simp [hsigned, halive]⟩
            · intro existing hexisting
              exact (againstHeld_eq_none.mp (hagainst existing hexisting)).1
            · intro existing hexisting
              exact (againstHeld_eq_none.mp (hagainst existing hexisting)).2

theorem resolve_ok {name : JsString} {cid : Cid} (h : resolver.resolve sigs name now = .ok cid) :
    ∃ record, resolver.records.get? name = some record ∧ record.cid = cid ∧
      now < record.expiresAt := by
  unfold resolve at h
  cases hget : resolver.records.get? name with
  | none => simp [hget, refuse] at h
  | some record =>
    by_cases halive : record.expiresAt ≤ now
    · simp [hget, halive, refuse] at h
    · simp only [hget, if_neg halive, ResolveResult.ok.injEq] at h
      exact ⟨record, rfl, h, not_le.mp halive⟩

end SignedNameResolver

end O2Fabric
