/-
  O2Fabric.Core.Discovery.Accounted

  `discoverExecutors` with what it throws.  The checks of a provider's records
  are those of the certificate's X.509 form, of the two signatures and of the
  payload that a node signs; where one of these cannot be encoded the check
  throws, and what it throws ends the search for every provider.

  Without a throw each provider is accounted for once: as an executor, or with
  the first condition that it does not meet.
-/

import O2Fabric.Core.Discovery
import O2Fabric.Core.X509Encode.RoundTrip
import O2Fabric.Core.X509Form

namespace O2Fabric.Discovery

/-! ## The search -/

/-- What the checks of the signatures rest on. -/
structure Verifiers where
  platform : Platform
  /-- `decodeCanonical`, of the fields in an X.509 form. -/
  decode : Bytes → Except JsString CanonicalValue
  /-- `ed25519.verify(signature, message, key)`, `false` where it throws. -/
  verify : (signature : Bytes) → (message : Bytes) → (key : Bytes) → Bool
  codec : DagCbor

variable (v : Verifiers)

/-- `none` within where the certificate verifies, and `none` where the check throws. -/
def certificateVerdict (certificate : NodeCertificate) (trustedIssuers : List JsString) (now : ℚ) :
    Option (Option CertificateFailure) :=
  X509.verifyCertificate v.platform v.decode v.verify v.codec certificate trustedIssuers now

/-- `none` where the payload cannot be encoded. -/
def verifyCapabilityRecord (record : CapabilityRecord) (now : ℚ) : Option Bool :=
  if now < record.issuedAt ∨ record.expiresAt ≤ now then some false
  else
    match capabilityPayload record with
    | .error _ => some false
    | .ok payload => do
      let bytes ← v.codec.encodeCanonical payload
      return v.verify (fromHex record.signature) bytes (fromHex record.nodeKey)

variable (query : ExecutorQuery) (options : DiscoveryOptions)

/-- What is left to judge of records that verify. -/
def judgeQuery (nodeKey : JsString) (records : NodeRecords) :
    Except ExclusionReason DiscoveredExecutor :=
  let unhonoured := unhonouredCritical records.capabilities (options.understands.getD [])
  if 0 < unhonoured.length then
    .error (.criticalExtensionNotUnderstood nodeKey unhonoured)
  else
    let missing := (query.requiredFeatures.getD []).filter fun feature =>
      decide (feature ∉ records.capabilities.features)
    if 0 < missing.length then .error (.missingFeatures nodeKey missing)
    else
      match query.sovereignFor with
      | none => .ok ⟨nodeKey, records.certificate, records.capabilities⟩
      | some sovereignFor =>
        if sovereignFor ∉ records.capabilities.sovereignFor then
          .error (.notClearedForOwner nodeKey sovereignFor)
        else .ok ⟨nodeKey, records.certificate, records.capabilities⟩

/-- One turn of the loop over the providers; `none` where a check throws. -/
def judgeProvider (nodeKey : JsString) (answer : Option NodeRecords) :
    Option (Except ExclusionReason DiscoveredExecutor) :=
  match answer with
  | none => some (.error (.noRecords nodeKey))
  | some records =>
    match certificateVerdict v records.certificate options.trustedIssuers options.now with
    | none => none
    | some (some failure) => some (.error (.invalidCertificate nodeKey failure))
    | some none =>
      if records.certificate.nodeKey ≠ nodeKey ∨ records.capabilities.nodeKey ≠ nodeKey then
        some (.error (.certificateMismatch nodeKey records.capabilities.nodeKey))
      else
        match verifyCapabilityRecord v records.capabilities options.now with
        | none => none
        | some false => some (.error (.invalidCapabilityRecord nodeKey))
        | some true => some (judgeQuery query options nodeKey records)

/-- `error` is a rejection by the index, and `none` where a check of some records throws. -/
def discoverExecutors (index : RecordIndex) : Option (Except JsString DiscoveryResult) :=
  match index.providers query.inputCid with
  | .error rejection => some (.error rejection)
  | .ok named =>
    let providers := sortedDistinct named
    -- asked together; the rejection of the earliest provider is the one that is thrown
    match providers.mapM index.recordsFor with
    | .error rejection => some (.error rejection)
    | .ok settled => do
      let judged ← (providers.zip settled).mapM fun asked =>
        judgeProvider v query options asked.1 asked.2
      return .ok (judged.foldl DiscoveryResult.add ⟨[], [], providers.length⟩)

def holding (named : List JsString) (answer : JsString → Option NodeRecords) : RecordIndex where
  providers _ := .ok named
  recordsFor nodeKey := .ok (answer nodeKey)

/-! ## The conditions -/

/-- What a provider has to meet, in the order in which it is asked. -/
inductive Condition
  | recorded
  | certified
  | sameKey
  | verified
  | honoured
  | featured
  | cleared
  deriving DecidableEq

def Condition.place : Condition → Nat
  | .recorded => 0
  | .certified => 1
  | .sameKey => 2
  | .verified => 3
  | .honoured => 4
  | .featured => 5
  | .cleared => 6

def Condition.Of (nodeKey : JsString) (records : NodeRecords) : Condition → Prop
  | .recorded => True
  | .certified => certificateVerdict v records.certificate options.trustedIssuers options.now
      = some none
  | .sameKey => records.certificate.nodeKey = nodeKey ∧ records.capabilities.nodeKey = nodeKey
  | .verified => verifyCapabilityRecord v records.capabilities options.now = some true
  | .honoured => ∀ one ∈ records.capabilities.extensions, one.critical = true →
      one.id ∈ UNDERSTOOD_EXTENSIONS ∨ one.id ∈ options.understands.getD []
  | .featured => ∀ feature ∈ query.requiredFeatures.getD [],
      feature ∈ records.capabilities.features
  | .cleared => ∀ userKey ∈ query.sovereignFor, userKey ∈ records.capabilities.sovereignFor

def Meets (nodeKey : JsString) (answer : Option NodeRecords) (condition : Condition) : Prop :=
  ∃ records, answer = some records ∧ condition.Of v query options nodeKey records

def conditionOf : ExclusionReason → Condition
  | .noRecords _ => .recorded
  | .invalidCertificate _ _ => .certified
  | .certificateMismatch _ _ => .sameKey
  | .invalidCapabilityRecord _ => .verified
  | .criticalExtensionNotUnderstood _ _ => .honoured
  | .missingFeatures _ _ => .featured
  | .notClearedForOwner _ _ => .cleared

def providerOf : ExclusionReason → JsString
  | .noRecords nodeKey => nodeKey
  | .invalidCertificate nodeKey _ => nodeKey
  | .certificateMismatch nodeKey _ => nodeKey
  | .invalidCapabilityRecord nodeKey => nodeKey
  | .criticalExtensionNotUnderstood nodeKey _ => nodeKey
  | .missingFeatures nodeKey _ => nodeKey
  | .notClearedForOwner nodeKey _ => nodeKey

/-- The reason is about the first condition that is not met. -/
structure NamesFirst (nodeKey : JsString) (answer : Option NodeRecords)
    (reason : ExclusionReason) : Prop where
  provider : providerOf reason = nodeKey
  fails : ¬ Meets v query options nodeKey answer (conditionOf reason)
  first : ∀ condition : Condition, condition.place < (conditionOf reason).place →
    Meets v query options nodeKey answer condition

/-- Every provider is accounted for, once. -/
structure Accounts (named : List JsString) (answer : JsString → Option NodeRecords)
    (result : DiscoveryResult) : Prop where
  split : (result.executors.map DiscoveredExecutor.nodeKey
    ++ result.excluded.map fun exclusion => providerOf exclusion.reason).Perm (distinct named)
  counted : result.providers = result.executors.length + result.excluded.length
  sorted : (result.executors.map DiscoveredExecutor.nodeKey).Pairwise (· < ·)
  qualified : ∀ nodeKey, nodeKey ∈ result.executors.map DiscoveredExecutor.nodeKey ↔
    nodeKey ∈ named ∧ ∀ condition, Meets v query options nodeKey (answer nodeKey) condition
  held : ∀ executor ∈ result.executors,
    answer executor.nodeKey = some ⟨executor.certificate, executor.capabilities⟩
  named : ∀ exclusion ∈ result.excluded,
    NamesFirst v query options (providerOf exclusion.reason) (answer (providerOf exclusion.reason))
      exclusion.reason

/-- The X.509 form says what the envelope does, and the envelope cannot be written as one. -/
def FormThrows (certificate : NodeCertificate) : Prop :=
  ∃ form presented tbsBytes, certificate.x509 = some form ∧ X509.isEvenLowerHex form = true ∧
    X509.decodeX509Certificate v.decode (fromHex form) = .ok (presented, tbsBytes) ∧
    X509.disagreement v.platform certificate presented = none ∧
    X509.encodeX509Tbs { X509.fieldsOf certificate with
      relayIds := certificate.relayIds.insertionSort (· ≤ ·) } = none

/-- A provider's records that a check throws over: the X.509 form of a pinned issuer's certificate,
    or what the node signed, cannot be encoded. -/
def Unencodable (nodeKey : JsString) (records : NodeRecords) : Prop :=
  (records.certificate.issuer ∈ options.trustedIssuers ∧ FormThrows v records.certificate) ∨
  (certificateVerdict v records.certificate options.trustedIssuers options.now = some none ∧
    (records.certificate.nodeKey = nodeKey ∧ records.capabilities.nodeKey = nodeKey) ∧
    ¬ (options.now < records.capabilities.issuedAt ∨
      records.capabilities.expiresAt ≤ options.now) ∧
    ∃ payload, capabilityPayload records.capabilities = .ok payload ∧
      v.codec.encodeCanonical payload = none)

/-! ## What throws -/

variable {v query options}

theorem checkX509Form_eq_none {certificate : NodeCertificate} :
    X509.checkX509Form v.platform v.decode v.verify certificate = none ↔
      FormThrows v certificate := by
  unfold X509.checkX509Form FormThrows
  cases hform : certificate.x509 with
  | none => simp
  | some form =>
    by_cases hhex : X509.isEvenLowerHex form = true
    · cases hdecoded : X509.decodeX509Certificate v.decode (fromHex form) with
      | error failure => simp [hhex, hdecoded]
      | ok found =>
        obtain ⟨presented, tbsBytes⟩ := found
        cases hdisagreement : X509.disagreement v.platform certificate presented with
        | some d => simp [hhex, hdecoded, hdisagreement]
        | none =>
          cases hexpected : X509.encodeX509Tbs { X509.fieldsOf certificate with
              relayIds := certificate.relayIds.insertionSort (· ≤ ·) } with
          | none => simp [hhex, hdecoded, hdisagreement, X509.checkTbsBytes, hexpected]
          | some expected =>
            have hsome : X509.checkTbsBytes v.verify certificate presented tbsBytes
                ≠ none := by
              simp only [X509.checkTbsBytes, hexpected, Option.bind_eq_bind,
                Option.bind_some]
              split
              · simp
              · split <;> simp
            simp [hhex, hdecoded, hdisagreement, hsome]
    · simp [hhex]

theorem payloadOf_isSome (codec : DagCbor) (certificate : NodeCertificate) :
    (X509.payloadOf codec certificate).isSome = true := by
  unfold X509.payloadOf
  cases certificate.x509 <;> cases certificate.nextKeyCommitment <;> simp

theorem certificateVerdict_eq_none {certificate : NodeCertificate} {trustedIssuers : List JsString}
    {now : ℚ} :
    certificateVerdict v certificate trustedIssuers now = none ↔
      certificate.issuer ∈ trustedIssuers ∧ FormThrows v certificate := by
  rw [← checkX509Form_eq_none]
  unfold certificateVerdict X509.verifyCertificate
  by_cases hpinned : certificate.issuer ∈ trustedIssuers
  · cases hform : X509.checkX509Form v.platform v.decode v.verify certificate with
    | none => simp [hpinned]
    | some verdict =>
      cases verdict with
      | some failure => simp [hpinned]
      | none =>
        obtain ⟨payload, hpayload⟩ :=
          Option.isSome_iff_exists.mp (payloadOf_isSome v.codec certificate)
        simp [hpinned, hpayload]
  · simp [hpinned]

theorem verifyCapabilityRecord_eq_none {record : CapabilityRecord} {now : ℚ} :
    verifyCapabilityRecord v record now = none ↔
      ¬ (now < record.issuedAt ∨ record.expiresAt ≤ now) ∧
      ∃ payload, capabilityPayload record = .ok payload ∧
        v.codec.encodeCanonical payload = none := by
  unfold verifyCapabilityRecord
  by_cases htime : now < record.issuedAt ∨ record.expiresAt ≤ now
  · simp [htime]
  · cases hpayload : capabilityPayload record with
    | error duplicate => simp [htime]
    | ok payload => cases hbytes : v.codec.encodeCanonical payload <;> simp [htime, hbytes]

variable {nodeKey : JsString}

/-- The turn throws over records that cannot be encoded, and over no others. -/
theorem judgeProvider_eq_none {answer : Option NodeRecords} :
    judgeProvider v query options nodeKey answer = none ↔
      ∃ records, answer = some records ∧ Unencodable v options nodeKey records := by
  cases answer with
  | none => simp [judgeProvider]
  | some records =>
    have hthrows := @certificateVerdict_eq_none v records.certificate options.trustedIssuers
      options.now
    simp only [judgeProvider, Option.some.injEq, exists_eq_left', Unencodable, ← hthrows]
    cases hverdict : certificateVerdict v records.certificate options.trustedIssuers
        options.now with
    | none => simp
    | some verdict =>
      cases verdict with
      | some failure => simp
      | none =>
        by_cases hkeys : records.certificate.nodeKey = nodeKey ∧
            records.capabilities.nodeKey = nodeKey
        · rw [← verifyCapabilityRecord_eq_none]
          have hnot : ¬ (records.certificate.nodeKey ≠ nodeKey ∨
              records.capabilities.nodeKey ≠ nodeKey) := by
            simp [hkeys.1, hkeys.2]
          rw [if_neg hnot]
          cases hverified : verifyCapabilityRecord v records.capabilities options.now with
          | none => simp [hkeys]
          | some verified => cases verified <;> simp [hkeys]
        · have hmismatch : records.certificate.nodeKey ≠ nodeKey ∨
              records.capabilities.nodeKey ≠ nodeKey := by
            tauto
          simp [hmismatch, hkeys]

/-! ## Without a throw -/

/-! ## What each turn answers -/

theorem unhonoured_iff {nodeKey : JsString} {records : NodeRecords} :
    0 < (unhonouredCritical records.capabilities (options.understands.getD [])).length ↔
      ¬ Condition.honoured.Of v query options nodeKey records := by
  simp [unhonouredCritical, Condition.Of, List.length_pos_iff, not_or]

theorem missing_iff {nodeKey : JsString} {records : NodeRecords} :
    0 < ((query.requiredFeatures.getD []).filter fun feature =>
        decide (feature ∉ records.capabilities.features)).length ↔
      ¬ Condition.featured.Of v query options nodeKey records := by
  simp [Condition.Of, List.length_pos_iff]

/-- Records that verify: an executor where the last three conditions are met, and otherwise the
    first of the three that is not. -/
theorem judgeQuery_cases (v : Verifiers) (query : ExecutorQuery) (options : DiscoveryOptions)
    (nodeKey : JsString) (records : NodeRecords) :
    (judgeQuery query options nodeKey records
        = .ok ⟨nodeKey, records.certificate, records.capabilities⟩ ∧
      Condition.honoured.Of v query options nodeKey records ∧
      Condition.featured.Of v query options nodeKey records ∧
      Condition.cleared.Of v query options nodeKey records) ∨
    (∃ extensionIds, judgeQuery query options nodeKey records
        = .error (.criticalExtensionNotUnderstood nodeKey extensionIds) ∧
      ¬ Condition.honoured.Of v query options nodeKey records) ∨
    (∃ missing, judgeQuery query options nodeKey records
        = .error (.missingFeatures nodeKey missing) ∧
      Condition.honoured.Of v query options nodeKey records ∧
      ¬ Condition.featured.Of v query options nodeKey records) ∨
    (∃ userKey, judgeQuery query options nodeKey records
        = .error (.notClearedForOwner nodeKey userKey) ∧
      Condition.honoured.Of v query options nodeKey records ∧
      Condition.featured.Of v query options nodeKey records ∧
      ¬ Condition.cleared.Of v query options nodeKey records) := by
  have hunhonoured := @unhonoured_iff v query options nodeKey records
  have hmissing := @missing_iff v query options nodeKey records
  unfold judgeQuery
  dsimp only
  by_cases hhonoured : Condition.honoured.Of v query options nodeKey records
  · rw [if_neg (by rw [hunhonoured]; exact not_not_intro hhonoured)]
    by_cases hfeatured : Condition.featured.Of v query options nodeKey records
    · rw [if_neg (by rw [hmissing]; exact not_not_intro hfeatured)]
      cases howner : query.sovereignFor with
      | none =>
        refine Or.inl ⟨rfl, hhonoured, hfeatured, ?_⟩
        simp [Condition.Of, howner]
      | some sovereignFor =>
        by_cases hcleared : sovereignFor ∈ records.capabilities.sovereignFor
        · refine Or.inl ⟨by simp [hcleared], hhonoured, hfeatured, ?_⟩
          simpa [Condition.Of, howner] using hcleared
        · refine Or.inr (Or.inr (Or.inr ⟨sovereignFor, by simp [hcleared], hhonoured, hfeatured,
            ?_⟩))
          simpa [Condition.Of, howner] using hcleared
    · rw [if_pos (hmissing.mpr hfeatured)]
      exact Or.inr (Or.inr (Or.inl ⟨_, rfl, hhonoured, hfeatured⟩))
  · rw [if_pos (hunhonoured.mpr hhonoured)]
    exact Or.inr (Or.inl ⟨_, rfl, hhonoured⟩)

theorem meets_some {records : NodeRecords} {condition : Condition} :
    Meets v query options nodeKey (some records) condition ↔
      condition.Of v query options nodeKey records := by
  simp [Meets]

theorem NamesFirst.of_records {records : NodeRecords} {reason : ExclusionReason}
    (hprovider : providerOf reason = nodeKey)
    (hfails : ¬ (conditionOf reason).Of v query options nodeKey records)
    (hfirst : ∀ condition : Condition, condition.place < (conditionOf reason).place →
      condition.Of v query options nodeKey records) :
    NamesFirst v query options nodeKey (some records) reason :=
  ⟨hprovider, fun h => hfails (meets_some.mp h),
    fun condition hplace => meets_some.mpr (hfirst condition hplace)⟩

/-- A turn that does not throw: an executor that meets every condition, or the first that is not
    met. -/
theorem judgeProvider_cases {answer : Option NodeRecords}
    {verdict : Except ExclusionReason DiscoveredExecutor}
    (h : judgeProvider v query options nodeKey answer = some verdict) :
    (∃ records, answer = some records ∧
      verdict = .ok ⟨nodeKey, records.certificate, records.capabilities⟩ ∧
      ∀ condition, Meets v query options nodeKey answer condition) ∨
    ∃ reason, verdict = .error reason ∧ NamesFirst v query options nodeKey answer reason := by
  cases answer with
  | none =>
    cases h
    refine Or.inr ⟨_, rfl, rfl, ?_, ?_⟩
    · rintro ⟨records, hrecords, -⟩
      cases hrecords
    · intro condition hplace
      exact absurd hplace (Nat.not_lt_zero _)
  | some records =>
    simp only [judgeProvider] at h
    split at h
    · cases h
    · next failure hverdict =>
      cases h
      refine Or.inr ⟨_, rfl, NamesFirst.of_records rfl ?_ ?_⟩
      · simp [conditionOf, Condition.Of, hverdict]
      · intro condition hplace
        cases condition <;> simp [conditionOf, Condition.place, Condition.Of] at hplace ⊢
    · next hcertified =>
      split at h
      · next hmismatch =>
        cases h
        refine Or.inr ⟨_, rfl, NamesFirst.of_records rfl ?_ ?_⟩
        · rintro ⟨hcertificate, hcapabilities⟩
          exact hmismatch.elim (fun hne => hne hcertificate) fun hne => hne hcapabilities
        · intro condition hplace
          cases condition <;>
            simp [conditionOf, Condition.place, Condition.Of, hcertified] at hplace ⊢
      · next hkeys =>
        have hsame : Condition.sameKey.Of v query options nodeKey records :=
          ⟨not_not.mp (not_or.mp hkeys).1, not_not.mp (not_or.mp hkeys).2⟩
        split at h
        · cases h
        · next hunverified =>
          cases h
          refine Or.inr ⟨_, rfl, NamesFirst.of_records rfl ?_ ?_⟩
          · simp [conditionOf, Condition.Of, hunverified]
          · intro condition hplace
            cases condition <;>
              simp [conditionOf, Condition.place] at hplace <;>
              first | exact hsame | simp [Condition.Of, hcertified]
        · next hverified =>
          cases h
          obtain ⟨hok, hhonoured, hfeatured, hcleared⟩ | ⟨_, herror, hfails⟩ |
            ⟨_, herror, hhonoured, hfails⟩ | ⟨_, herror, hhonoured, hfeatured, hfails⟩ :=
            judgeQuery_cases v query options nodeKey records
          · refine Or.inl ⟨records, rfl, hok, fun condition => meets_some.mpr ?_⟩
            cases condition with
            | recorded => trivial
            | certified => exact hcertified
            | sameKey => exact hsame
            | verified => exact hverified
            | honoured => exact hhonoured
            | featured => exact hfeatured
            | cleared => exact hcleared
          all_goals
            refine Or.inr ⟨_, herror, NamesFirst.of_records rfl hfails ?_⟩
            intro condition hplace
            cases condition <;>
              simp [conditionOf, Condition.place] at hplace <;>
              first | exact hsame | exact hhonoured | exact hfeatured |
                exact hcertified | exact hverified | trivial

/-! ## The whole search -/

def executor? : Except ExclusionReason DiscoveredExecutor → Option DiscoveredExecutor
  | .ok executor => some executor
  | .error _ => none

def exclusion? : Except ExclusionReason DiscoveredExecutor → Option Exclusion
  | .ok _ => none
  | .error reason => some ⟨reason, describeExclusion reason⟩

/-- The loop sorts what is judged into the two lists. -/
theorem foldl_add (judged : List (Except ExclusionReason DiscoveredExecutor))
    (result : DiscoveryResult) :
    judged.foldl DiscoveryResult.add result =
      { result with
        executors := result.executors ++ judged.filterMap executor?
        excluded := result.excluded ++ judged.filterMap exclusion? } := by
  induction judged generalizing result with
  | nil => simp
  | cons verdict judged ih =>
    rw [List.foldl_cons, ih]
    cases verdict <;> simp [DiscoveryResult.add, executor?, exclusion?, List.filterMap_cons]

theorem sortedDistinct_increasing (named : List JsString) :
    (sortedDistinct named).Pairwise (· < ·) := by
  have hsorted : (sortedDistinct named).Pairwise (· ≤ ·) := List.pairwise_insertionSort _ _
  have hnodup : (sortedDistinct named).Nodup :=
    (List.perm_insertionSort _ _).nodup_iff.mpr (distinct_nodup named)
  exact (hsorted.and hnodup).imp fun ⟨hle, hne⟩ => lt_of_le_of_ne hle hne

/-- What is listed of the providers, by its key, is the providers of that kind. -/
theorem keys_filterMap {α : Type} {listed : JsString → Option α} {key : α → JsString}
    {providers : List JsString}
    (h : ∀ nodeKey ∈ providers, ∀ found, listed nodeKey = some found → key found = nodeKey) :
    (providers.filterMap listed).map key
      = providers.filter fun nodeKey => (listed nodeKey).isSome := by
  induction providers with
  | nil => rfl
  | cons nodeKey providers ih =>
    have hrest := ih fun other hother => h other (List.mem_cons_of_mem nodeKey hother)
    cases hfound : listed nodeKey with
    | none => simp [hfound, hrest]
    | some found =>
      have hkey := h nodeKey List.mem_cons_self found hfound
      simp [hfound, hrest, hkey]

/-- Providers that are each judged are each accounted for. -/
theorem accounts_of_judged {named : List JsString} {answer : JsString → Option NodeRecords}
    {judge : JsString → Except ExclusionReason DiscoveredExecutor}
    (h : ∀ nodeKey ∈ named,
      judgeProvider v query options nodeKey (answer nodeKey) = some (judge nodeKey)) :
    Accounts v query options named answer
      (((sortedDistinct named).map judge).foldl DiscoveryResult.add
        ⟨[], [], (sortedDistinct named).length⟩) := by
  have hjudged : ∀ nodeKey ∈ sortedDistinct named,
      judgeProvider v query options nodeKey (answer nodeKey) = some (judge nodeKey) :=
    fun nodeKey hmem => h nodeKey (mem_sortedDistinct.mp hmem)
  have hexecutors : (((sortedDistinct named).map judge).filterMap executor?).map
      DiscoveredExecutor.nodeKey
        = (sortedDistinct named).filter fun nodeKey => (executor? (judge nodeKey)).isSome := by
    rw [List.filterMap_map]
    apply keys_filterMap
    intro nodeKey hmem executor hfound
    obtain ⟨records, -, hverdict, -⟩ | ⟨reason, hverdict, -⟩ :=
      judgeProvider_cases (hjudged nodeKey hmem)
    · simp [hverdict, executor?] at hfound
      rw [← hfound]
    · simp [hverdict, executor?] at hfound
  have hexcluded : (((sortedDistinct named).map judge).filterMap exclusion?).map
      (fun exclusion => providerOf exclusion.reason)
        = (sortedDistinct named).filter fun nodeKey => (exclusion? (judge nodeKey)).isSome := by
    rw [List.filterMap_map]
    apply keys_filterMap
    intro nodeKey hmem exclusion hfound
    obtain ⟨records, -, hverdict, -⟩ | ⟨reason, hverdict, hnames⟩ :=
      judgeProvider_cases (hjudged nodeKey hmem)
    · simp [hverdict, exclusion?] at hfound
    · simp [hverdict, exclusion?] at hfound
      rw [← hfound]
      exact hnames.provider
  have hother : ((sortedDistinct named).filter fun nodeKey => (exclusion? (judge nodeKey)).isSome)
      = (sortedDistinct named).filter fun nodeKey =>
          !(executor? (judge nodeKey)).isSome := by
    apply List.filter_congr
    intro nodeKey hmem
    cases judge nodeKey <;> simp [executor?, exclusion?]
  rw [foldl_add]
  simp only [List.nil_append]
  have hsplit : ((((sortedDistinct named).map judge).filterMap executor?).map
      DiscoveredExecutor.nodeKey
        ++ (((sortedDistinct named).map judge).filterMap exclusion?).map
          fun exclusion => providerOf exclusion.reason).Perm (sortedDistinct named) := by
    rw [hexecutors, hexcluded, hother]
    exact List.filter_append_perm _ _
  refine ⟨?_, ?_, ?_, ?_, ?_, ?_⟩
  · exact hsplit.trans (List.perm_insertionSort _ _)
  · have hlength := hsplit.length_eq
    simpa using hlength.symm
  · show (List.map DiscoveredExecutor.nodeKey _).Pairwise (· < ·)
    rw [hexecutors]
    exact (sortedDistinct_increasing named).filter _
  · intro nodeKey
    show nodeKey ∈ List.map DiscoveredExecutor.nodeKey _ ↔ _
    rw [hexecutors, List.mem_filter, mem_sortedDistinct]
    apply and_congr_right
    intro hnamed
    obtain ⟨records, -, hverdict, hmeets⟩ | ⟨reason, hverdict, hnames⟩ :=
      judgeProvider_cases (h nodeKey hnamed)
    · simp [hverdict, executor?, hmeets]
    · simp only [hverdict, executor?, Option.isSome_none, Bool.false_eq_true, false_iff]
      exact fun hmeets => hnames.fails (hmeets _)
  · intro executor hmem
    obtain ⟨verdict, hverdict, hfound⟩ := List.mem_filterMap.mp hmem
    obtain ⟨nodeKey, hnodeKey, rfl⟩ := List.mem_map.mp hverdict
    obtain ⟨records, hrecords, hok, -⟩ | ⟨reason, herror, -⟩ :=
      judgeProvider_cases (hjudged nodeKey hnodeKey)
    · simp [hok, executor?] at hfound
      rw [← hfound]
      exact hrecords
    · simp [herror, executor?] at hfound
  · intro exclusion hmem
    obtain ⟨verdict, hverdict, hfound⟩ := List.mem_filterMap.mp hmem
    obtain ⟨nodeKey, hnodeKey, rfl⟩ := List.mem_map.mp hverdict
    obtain ⟨records, -, hok, -⟩ | ⟨reason, herror, hnames⟩ :=
      judgeProvider_cases (hjudged nodeKey hnodeKey)
    · simp [hok, exclusion?] at hfound
    · simp [herror, exclusion?] at hfound
      rw [← hfound]
      show NamesFirst v query options (providerOf reason) (answer (providerOf reason)) reason
      rw [hnames.provider]
      exact hnames

/-- The search of an index by what it holds. -/
theorem discoverExecutors_holding (v : Verifiers) (query : ExecutorQuery)
    (options : DiscoveryOptions) (named : List JsString) (answer : JsString → Option NodeRecords) :
    discoverExecutors v query options (holding named answer)
      = ((sortedDistinct named).mapM fun nodeKey =>
          judgeProvider v query options nodeKey (answer nodeKey)).map fun judged =>
        .ok (judged.foldl DiscoveryResult.add ⟨[], [], (sortedDistinct named).length⟩) := by
  have hsettled : (sortedDistinct named).mapM (holding named answer).recordsFor
      = .ok ((sortedDistinct named).map answer) := mapM_ok fun nodeKey _ => rfl
  unfold discoverExecutors
  show (match (sortedDistinct named).mapM (holding named answer).recordsFor with
    | .error rejection => _
    | .ok settled => _) = _
  rw [hsettled]
  dsimp only
  rw [← List.map_prod_left_eq_zip, List.mapM_map]
  exact Option.map_eq_bind.symm

/-- A search that ends has met nothing that cannot be encoded. -/
theorem encodes_of_found {named : List JsString} {answer : JsString → Option NodeRecords}
    {found : Except JsString DiscoveryResult}
    (h : discoverExecutors v query options (holding named answer) = some found) :
    ∀ nodeKey ∈ named, ∀ records, answer nodeKey = some records →
      ¬ Unencodable v options nodeKey records := by
  intro nodeKey hnamed records hrecords hthrows
  rw [discoverExecutors_holding] at h
  obtain ⟨judged, hjudged, -⟩ := Option.map_eq_some_iff.mp h
  obtain ⟨verdict, -, hverdict⟩ := exists_of_mem_of_forall₂ (mapM_eq_some_iff.mp hjudged)
    (mem_sortedDistinct.mpr hnamed)
  rw [judgeProvider_eq_none.mpr ⟨records, hrecords, hthrows⟩] at hverdict
  cases hverdict

/-- Every provider is accounted for once exactly where no provider's records throw. -/
theorem discoverExecutors_accounts_iff (v : Verifiers) (query : ExecutorQuery)
    (options : DiscoveryOptions) (named : List JsString) (answer : JsString → Option NodeRecords) :
    (∃ result, discoverExecutors v query options (holding named answer) = some (.ok result) ∧
      Accounts v query options named answer result) ↔
    ∀ nodeKey ∈ named, ∀ records, answer nodeKey = some records →
      ¬ Unencodable v options nodeKey records := by
  constructor
  · rintro ⟨result, hresult, -⟩
    exact encodes_of_found hresult
  · intro hencodes
    have hsome : ∀ nodeKey ∈ named, ∃ verdict,
        judgeProvider v query options nodeKey (answer nodeKey) = some verdict := by
      intro nodeKey hnamed
      apply Option.ne_none_iff_exists'.mp
      intro hnone
      obtain ⟨records, hrecords, hthrows⟩ := judgeProvider_eq_none.mp hnone
      exact hencodes nodeKey hnamed records hrecords hthrows
    let judge : JsString → Except ExclusionReason DiscoveredExecutor := fun nodeKey =>
      (judgeProvider v query options nodeKey (answer nodeKey)).getD (.error (.noRecords nodeKey))
    have hjudge : ∀ nodeKey ∈ named,
        judgeProvider v query options nodeKey (answer nodeKey) = some (judge nodeKey) := by
      intro nodeKey hnamed
      obtain ⟨verdict, hverdict⟩ := hsome nodeKey hnamed
      simp [judge, hverdict]
    refine ⟨_, ?_, accounts_of_judged hjudge⟩
    have hloop : (sortedDistinct named).mapM (fun nodeKey =>
        judgeProvider v query options nodeKey (answer nodeKey))
        = some ((sortedDistinct named).map judge) := by
      rw [mapM_eq_some_iff, List.forall₂_map_right_iff, List.forall₂_same]
      exact fun nodeKey hmem => hjudge nodeKey (mem_sortedDistinct.mp hmem)
    rw [discoverExecutors_holding, hloop]
    rfl

/-! ## Half a millisecond -/

/-- A time that is no whole number of milliseconds has no serial number. -/
theorem encodeX509Tbs_eq_none {fields : X509.X509EncodableFields}
    (h : ∀ n : Nat, fields.issuedAt ≠ n) : X509.encodeX509Tbs fields = none := by
  rw [X509.encodeX509Tbs, Option.map_eq_none_iff]
  apply Option.eq_none_iff_forall_ne_some.mpr
  intro tbs htbs
  obtain ⟨contents, hcontents, -⟩ := X509.buildTbs_iff.mp htbs
  obtain ⟨n, hn, -⟩ := X509.serialBytes_some hcontents.serial
  exact h n hn

/-- A certificate's own form, beside an envelope of half a millisecond later. -/
def halfLater (form : JsString) : NodeCertificate where
  nodeKey := X509.sampleFields.nodeKey
  userKey := X509.sampleFields.userKey
  operatorId := X509.sampleFields.operatorId
  discoverability := X509.sampleFields.discoverability
  relayIds := X509.sampleFields.relayIds
  issuedAt := 3400000000247 / 2
  expiresAt := X509.sampleFields.expiresAt
  issuer := X509.sampleFields.issuer
  signature := []
  x509 := some form

def strict : Verifiers where
  platform := plain
  decode := X509.readsBack (js "visitor:bbbbbbbbbbbbbbbb") [js "relay-1", js "relay-2"]
  verify _ _ _ := false
  codec := plainDagCbor

theorem halfLater_throws : ∃ form, FormThrows strict (halfLater form) := by
  obtain ⟨bytes, tbsBytes, serial, -, -, -, hdecode⟩ :=
    X509.decodeX509Certificate_encode X509.sampleFields_admissible
      (@List.length_replicate (Fin 256) 64 7) (X509.readsBack_text _ _) X509.sampleFields_list
  rw [← fromHex_toHex bytes] at hdecode
  refine ⟨_, _, _, _, rfl, X509.isEvenLowerHex_toHex bytes, hdecode, ?_, ?_⟩
  · simp [X509.disagreement, X509.comparisons, halfLater, strict, plain]
  · apply encodeX509Tbs_eq_none
    intro n hn
    have htwice : (3400000000247 : ℚ) = ((2 * n : Nat) : ℚ) := by
      push_cast
      have : (3400000000247 / 2 : ℚ) = n := hn
      linarith
    have : 3400000000247 = 2 * n := by exact_mod_cast htwice
    omega

/-- One provider's certificate, that nobody has to have signed, ends the search. -/
theorem one_certificate_ends_the_search :
    ¬ ∀ (v : Verifiers) (query : ExecutorQuery) (options : DiscoveryOptions)
      (named : List JsString) (answer : JsString → Option NodeRecords),
      ∃ result, discoverExecutors v query options (holding named answer) = some (.ok result) ∧
        Accounts v query options named answer result := by
  intro hclaim
  obtain ⟨form, hthrows⟩ := halfLater_throws
  let record : CapabilityRecord := ⟨X509.sampleFields.nodeKey, [], [], 0, 1, [], []⟩
  let options : DiscoveryOptions := ⟨[X509.sampleFields.issuer], 1700000000500, none⟩
  obtain ⟨result, hresult, -⟩ := hclaim strict ⟨plainCid, none, none⟩ options
    [X509.sampleFields.nodeKey] fun _ => some ⟨halfLater form, record⟩
  exact encodes_of_found hresult X509.sampleFields.nodeKey (List.mem_singleton.mpr rfl) _ rfl
    (Or.inl ⟨List.mem_singleton.mpr rfl, hthrows⟩)

end O2Fabric.Discovery
