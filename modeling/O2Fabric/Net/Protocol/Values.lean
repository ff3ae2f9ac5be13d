/-
  O2Fabric.Net.Protocol.Values

  The records that requests and responses carry, each with its writer and its
  reader.  A reader takes `undefined` for an absent field, and answers nothing
  where any field is not what it has to be.
-/

import O2Fabric.Core.Checkpoint
import O2Fabric.Core.Discovery
import O2Fabric.Core.Enrollment
import O2Fabric.Core.Naming
import O2Fabric.Core.StartOutcome
import O2Fabric.Lib.Format

namespace O2Fabric.Net.Protocol

/-! ## Fields -/

/-- `...(value === undefined ? {} : { [name]: value })`. -/
def spread (name : JsString) (value : Option CanonicalValue) : List (JsString × CanonicalValue) :=
  (value.map fun value => (name, value)).toList

def figure (x : ℚ) : CanonicalValue := .number (.finite x)

def keyList (keys : List JsString) : CanonicalValue := .list (keys.map CanonicalValue.text)

def asIndex (value : Option CanonicalValue) : Option Nat := asWholeNumber value

def asKeyList (value : Option CanonicalValue) : Option (List JsString) := do
  let entries ← asList value
  entries.mapM fun entry => asText (some entry)

def asFiniteNumber : Option CanonicalValue → Option ℚ
  | some (.number (.finite x)) => some x
  | _ => none

def asBoolean : Option CanonicalValue → Option Bool
  | some (.bool b) => some b
  | _ => none

/-- `CID.asCID(value ?? null)`. -/
def asCid : Option CanonicalValue → Option Cid
  | some (.cid cid) => some cid
  | _ => none

/-- A field that may be absent, but not hold anything else. -/
def optional {α : Type} (read : Option CanonicalValue → Option α) :
    Option CanonicalValue → Option (Option α)
  | none => some none
  | some value => (read (some value)).map some

@[simp] theorem field_spread (key name : JsString) (value : Option CanonicalValue) :
    field (spread key value) name = if key = name then value else none := by
  cases value with
  | none => simp [spread]
  | some value => simp [spread]

@[simp] theorem asRecord_record (fields : List (JsString × CanonicalValue)) :
    asRecord (.record fields) = some fields := rfl

@[simp] theorem asBoolean_bool (b : Bool) : asBoolean (some (.bool b)) = some b := rfl

@[simp] theorem asCid_cid (cid : Cid) : asCid (some (.cid cid)) = some cid := rfl

@[simp] theorem asFiniteNumber_figure (x : ℚ) : asFiniteNumber (some (figure x)) = some x := rfl

@[simp] theorem asIndex_whole (n : Nat) : asIndex (some (whole n)) = some n := by
  have hint : ((n : ℚ)).isInt = true := beq_iff_eq.mpr (Rat.den_natCast n)
  have hnonneg : (0 : ℚ) ≤ n := Nat.cast_nonneg n
  show (if (n : ℚ).isInt && decide (0 ≤ (n : ℚ)) then some (n : ℚ).num.toNat else none) = some n
  rw [hint, decide_eq_true hnonneg, Rat.num_natCast]
  rfl

@[simp] theorem asKeyList_keyList (keys : List JsString) :
    asKeyList (some (keyList keys)) = some keys := by
  show (keys.map CanonicalValue.text).mapM (fun entry => asText (some entry)) = some keys
  rw [mapM_eq_some_iff, List.forall₂_map_left_iff, List.forall₂_same]
  intro key _
  rfl

/-- An optional field that was written by what reads it is read. -/
theorem optional_map {α : Type} {read : Option CanonicalValue → Option α} {write : α → CanonicalValue}
    {value : Option α} (h : ∀ a, value = some a → read (some (write a)) = some a) :
    optional read (value.map write) = some value := by
  cases value with
  | none => rfl
  | some a =>
    show (read (some (write a))).map some = some (some a)
    rw [h a rfl]
    rfl

/-! ## Certificates -/

def discoverabilityText : Discoverability → JsString
  | .seed => js "seed"
  | .viaRelay => js "via-relay"

def asDiscoverability (value : Option CanonicalValue) : Option Discoverability :=
  if asText value = some (js "seed") then some .seed
  else if asText value = some (js "via-relay") then some .viaRelay
  else none

@[simp] theorem asDiscoverability_text (d : Discoverability) :
    asDiscoverability (some (.text (discoverabilityText d))) = some d := by
  cases d <;> simp [asDiscoverability, discoverabilityText]

def certificateToValue (certificate : NodeCertificate) : CanonicalValue :=
  .record ([
    (js "nodeKey", .text certificate.nodeKey),
    (js "userKey", .text certificate.userKey),
    (js "operatorId", .text certificate.operatorId),
    (js "discoverability", .text (discoverabilityText certificate.discoverability)),
    (js "relayIds", keyList certificate.relayIds),
    (js "issuedAt", figure certificate.issuedAt),
    (js "expiresAt", figure certificate.expiresAt),
    (js "issuer", .text certificate.issuer),
    (js "signature", .text certificate.signature)]
    ++ spread (js "x509") (certificate.x509.map CanonicalValue.text))

def parseCertificate (value : Option CanonicalValue) : Option NodeCertificate := do
  let fields ← value.bind asRecord
  let nodeKey ← asText (field fields (js "nodeKey"))
  let userKey ← asText (field fields (js "userKey"))
  let operatorId ← asText (field fields (js "operatorId"))
  let issuer ← asText (field fields (js "issuer"))
  let signature ← asText (field fields (js "signature"))
  let discoverability ← asDiscoverability (field fields (js "discoverability"))
  let relayIds ← asKeyList (field fields (js "relayIds"))
  let issuedAt ← asFiniteNumber (field fields (js "issuedAt"))
  let expiresAt ← asFiniteNumber (field fields (js "expiresAt"))
  let x509 ← optional asText (field fields (js "x509"))
  return {
    nodeKey, userKey, operatorId, discoverability, relayIds, issuedAt, expiresAt, issuer,
    signature, x509 }

def certificates : Format NodeCertificate (Option CanonicalValue) where
  encode certificate := some (certificateToValue certificate)
  parse := parseCertificate

/-- A certificate comes back unless it commits its node to a next key. -/
theorem certificates_exact :
    certificates.Exact fun certificate => certificate.nextKeyCommitment = none where
  reads := by
    intro certificate h
    obtain ⟨_, _, _, _, _, _, _, _, _, x509, _⟩ := certificate
    cases h
    have hx509 : optional asText (x509.map CanonicalValue.text) = some x509 :=
      optional_map fun text _ => asText_text text
    simp [certificates, certificateToValue, parseCertificate, hx509]
  accepts := by
    intro value certificate h
    simp only [certificates, parseCertificate, Option.bind_eq_bind, Option.bind_eq_some_iff,
      Option.pure_def, Option.some.injEq] at h
    obtain ⟨_, _, _, _, _, _, _, _, _, _, _, _, _, _, _, _, _, _, _, _, _, _, rfl⟩ := h
    rfl

/-- The certificate a statement about a result carries. -/
def attestedCertificates : AttestedResult → List NodeCertificate
  | .signedByNobody => []
  | .signed attestation => [attestation.certificate]

/-- The sentinel crosses as the type's own literal. -/
def attestationToValue : AttestedResult → CanonicalValue
  | .signedByNobody => .text (js "signed-by-nobody")
  | .signed attestation =>
    .record [(js "certificate", certificateToValue attestation.certificate),
      (js "signature", .text attestation.signature)]

def parseAttestation (value : Option CanonicalValue) : Option AttestedResult :=
  if asText value = some (js "signed-by-nobody") then some .signedByNobody
  else do
    let fields ← value.bind asRecord
    let certificate ← parseCertificate (field fields (js "certificate"))
    let signature ← asText (field fields (js "signature"))
    return .signed ⟨certificate, signature⟩

def attestations : Format AttestedResult (Option CanonicalValue) where
  encode attestation := some (attestationToValue attestation)
  parse := parseAttestation

theorem attestations_exact :
    attestations.Exact fun attestation =>
      ∀ certificate ∈ attestedCertificates attestation, certificate.nextKeyCommitment = none where
  reads := by
    intro attestation h
    cases attestation with
    | signedByNobody => simp [attestations, attestationToValue, parseAttestation]
    | signed attestation =>
      have hread : parseCertificate (some (certificateToValue attestation.certificate))
          = some attestation.certificate :=
        certificates_exact.reads (h _ (List.mem_singleton_self _))
      simp [attestations, attestationToValue, parseAttestation, asText, hread]
  accepts := by
    intro value attestation h
    replace h : parseAttestation value = some attestation := h
    unfold parseAttestation at h
    split at h
    · cases h
      simp [attestedCertificates]
    · simp only [Option.bind_eq_bind, Option.bind_eq_some_iff, Option.pure_def,
        Option.some.injEq] at h
      obtain ⟨_, -, certificate, hread, _, -, rfl⟩ := h
      intro other hother
      rw [List.mem_singleton.mp hother]
      exact certificates_exact.accepts hread

/-! ## Enrolment -/

def freshnessToValue : Freshness → CanonicalValue
  | .answersNoChallenge => .text (js "answers-no-challenge")
  | .answer nonce proof => .record [(js "nonce", .text nonce), (js "proof", .text proof)]

def enrollmentRequestToValue (request : EnrollmentRequest) : CanonicalValue :=
  .record [
    (js "nodeKey", .text request.nodeKey),
    (js "userKey", .text request.userKey),
    (js "operatorId", .text request.operatorId),
    (js "discoverability", .text (discoverabilityText request.discoverability)),
    (js "relayIds", keyList request.relayIds),
    (js "proofOfPossession", .text request.proofOfPossession),
    (js "ownerProof", .text request.ownerProof),
    (js "freshness", freshnessToValue request.freshness)]

def parseFreshness (value : Option CanonicalValue) : Option Freshness :=
  if asText value = some (js "answers-no-challenge") then some .answersNoChallenge
  else do
    let fields ← value.bind asRecord
    let nonce ← asText (field fields (js "nonce"))
    let proof ← asText (field fields (js "proof"))
    return .answer nonce proof

def parseEnrollmentRequest (value : Option CanonicalValue) : Option EnrollmentRequest := do
  let fields ← value.bind asRecord
  let nodeKey ← asText (field fields (js "nodeKey"))
  let userKey ← asText (field fields (js "userKey"))
  let operatorId ← asText (field fields (js "operatorId"))
  let proofOfPossession ← asText (field fields (js "proofOfPossession"))
  let ownerProof ← asText (field fields (js "ownerProof"))
  let discoverability ← asDiscoverability (field fields (js "discoverability"))
  let relayIds ← asKeyList (field fields (js "relayIds"))
  let freshness ← parseFreshness (field fields (js "freshness"))
  return {
    nodeKey, userKey, operatorId, discoverability, relayIds, proofOfPossession, ownerProof,
    freshness }

@[simp] theorem parseFreshness_toValue (freshness : Freshness) :
    parseFreshness (some (freshnessToValue freshness)) = some freshness := by
  cases freshness with
  | answersNoChallenge => simp [freshnessToValue, parseFreshness]
  | answer nonce proof => simp [freshnessToValue, parseFreshness, asText]

def enrollmentRequests : Format EnrollmentRequest (Option CanonicalValue) where
  encode request := some (enrollmentRequestToValue request)
  parse := parseEnrollmentRequest

/-- A request comes back unless it commits its node to a next key. -/
theorem enrollmentRequests_exact :
    enrollmentRequests.Exact fun request => request.nextKeyCommitment = none where
  reads := by
    intro request h
    obtain ⟨_, _, _, _, _, _, _, _, _⟩ := request
    cases h
    simp [enrollmentRequests, enrollmentRequestToValue, parseEnrollmentRequest]
  accepts := by
    intro value request h
    simp only [enrollmentRequests, parseEnrollmentRequest, Option.bind_eq_bind,
      Option.bind_eq_some_iff, Option.pure_def, Option.some.injEq] at h
    obtain ⟨_, _, _, _, _, _, _, _, _, _, _, _, _, _, _, _, _, _, rfl⟩ := h
    rfl

def refusalToValue : EnrollmentRefusal → CanonicalValue
  | .badProofOfPossession nodeKey =>
    .record [(js "kind", .text (js "bad-proof-of-possession")), (js "nodeKey", .text nodeKey)]
  | .badOwnerProof userKey =>
    .record [(js "kind", .text (js "bad-owner-proof")), (js "userKey", .text userKey)]
  | .issuanceBudgetExhausted limit windowMs retryAfterMs =>
    .record [(js "kind", .text (js "issuance-budget-exhausted")), (js "limit", figure limit),
      (js "windowMs", figure windowMs), (js "retryAfterMs", figure retryAfterMs)]
  | .staleChallenge ttlMs =>
    .record [(js "kind", .text (js "stale-challenge")), (js "ttlMs", figure ttlMs)]
  | .operatorIdNotDerivable supplied derived =>
    .record [(js "kind", .text (js "operator-id-not-derivable")),
      (js "supplied", .text supplied), (js "derived", .text derived)]
  | .rateLimited userKey limit windowMs retryAfterMs =>
    .record [(js "kind", .text (js "rate-limited")), (js "userKey", .text userKey),
      (js "limit", figure limit), (js "windowMs", figure windowMs),
      (js "retryAfterMs", figure retryAfterMs)]

def enrollmentResultToValue : EnrollmentResult → CanonicalValue
  | .issued certificate =>
    .record [(js "kind", .text (js "enrol")), (js "ok", .bool true),
      (js "certificate", certificateToValue certificate)]
  | .refused refusal reason =>
    .record [(js "kind", .text (js "enrol")), (js "ok", .bool false),
      (js "reason", .text reason), (js "refusal", refusalToValue refusal)]

def parseEnrollmentRefusal (value : Option CanonicalValue) : Option EnrollmentRefusal := do
  let fields ← value.bind asRecord
  let kind := asText (field fields (js "kind"))
  if kind = some (js "bad-proof-of-possession") then do
    let nodeKey ← asText (field fields (js "nodeKey"))
    return .badProofOfPossession nodeKey
  else if kind = some (js "bad-owner-proof") then do
    let userKey ← asText (field fields (js "userKey"))
    return .badOwnerProof userKey
  else if kind = some (js "issuance-budget-exhausted") then do
    let limit ← asFiniteNumber (field fields (js "limit"))
    let windowMs ← asFiniteNumber (field fields (js "windowMs"))
    let retryAfterMs ← asFiniteNumber (field fields (js "retryAfterMs"))
    return .issuanceBudgetExhausted limit windowMs retryAfterMs
  else if kind = some (js "stale-challenge") then do
    let ttlMs ← asFiniteNumber (field fields (js "ttlMs"))
    return .staleChallenge ttlMs
  else if kind = some (js "operator-id-not-derivable") then do
    let supplied ← asText (field fields (js "supplied"))
    let derived ← asText (field fields (js "derived"))
    return .operatorIdNotDerivable supplied derived
  else if kind ≠ some (js "rate-limited") then none
  else do
    let userKey ← asText (field fields (js "userKey"))
    let limit ← asFiniteNumber (field fields (js "limit"))
    let windowMs ← asFiniteNumber (field fields (js "windowMs"))
    let retryAfterMs ← asFiniteNumber (field fields (js "retryAfterMs"))
    return .rateLimited userKey limit windowMs retryAfterMs

/-- `typeof reason === 'string' ? reason : fallback`. -/
def stated (fallback : JsString) (reason : Option CanonicalValue) : JsString :=
  (asText reason).getD fallback

@[simp] theorem stated_text (fallback reason : JsString) :
    stated fallback (some (.text reason)) = reason := rfl

/-- Reads the fields of an answer: its `kind` has been read. -/
def parseEnrollmentResult (fields : List (JsString × CanonicalValue)) :
    Option EnrollmentResult :=
  if asBoolean (field fields (js "ok")) = some true then do
    let certificate ← parseCertificate (field fields (js "certificate"))
    return .issued certificate
  else if asBoolean (field fields (js "ok")) ≠ some false then none
  else do
    let refusal ← parseEnrollmentRefusal (field fields (js "refusal"))
    return .refused refusal (stated (js "unspecified") (field fields (js "reason")))

/-- Each of the six refusals is read as the one it is. -/
@[simp] theorem parseEnrollmentRefusal_toValue (refusal : EnrollmentRefusal) :
    parseEnrollmentRefusal (some (refusalToValue refusal)) = some refusal := by
  cases refusal <;> simp [refusalToValue, parseEnrollmentRefusal]

def issuedCertificates : EnrollmentResult → List NodeCertificate
  | .issued certificate => [certificate]
  | .refused _ _ => []

def enrollmentResults : Format EnrollmentResult CanonicalValue where
  encode := enrollmentResultToValue
  parse value := (asRecord value).bind parseEnrollmentResult

theorem enrollmentResults_exact :
    enrollmentResults.Exact fun result =>
      ∀ certificate ∈ issuedCertificates result, certificate.nextKeyCommitment = none where
  reads := by
    intro result h
    cases result with
    | issued certificate =>
      have hread : parseCertificate (some (certificateToValue certificate)) = some certificate :=
        certificates_exact.reads (h _ (List.mem_singleton_self _))
      simp [enrollmentResults, enrollmentResultToValue, parseEnrollmentResult, hread]
    | refused refusal reason =>
      simp [enrollmentResults, enrollmentResultToValue, parseEnrollmentResult]
  accepts := by
    intro value result h
    obtain ⟨fields, -, h⟩ := Option.bind_eq_some_iff.mp h
    unfold parseEnrollmentResult at h
    split at h
    · simp only [Option.bind_eq_bind, Option.bind_eq_some_iff, Option.pure_def,
        Option.some.injEq] at h
      obtain ⟨certificate, hread, rfl⟩ := h
      intro other hother
      rw [List.mem_singleton.mp hother]
      exact certificates_exact.accepts hread
    · split at h
      · cases h
      · simp only [Option.bind_eq_bind, Option.bind_eq_some_iff, Option.pure_def,
          Option.some.injEq] at h
        obtain ⟨refusal, -, rfl⟩ := h
        simp [issuedCertificates]

/-! ## Capability records -/

def extensionToValue (one : CapabilityExtension) : CanonicalValue :=
  .record [(js "id", .text one.id), (js "critical", .bool one.critical), (js "value", one.value)]

def extensionsToValue (extensions : List CapabilityExtension) : Option CanonicalValue :=
  if extensions.length = 0 then none else some (.list (extensions.map extensionToValue))

def capabilityFields (capabilities : CapabilityRecord) : List (JsString × CanonicalValue) :=
  [(js "nodeKey", .text capabilities.nodeKey),
    (js "features", keyList capabilities.features),
    (js "sovereignFor", keyList capabilities.sovereignFor),
    (js "issuedAt", figure capabilities.issuedAt),
    (js "expiresAt", figure capabilities.expiresAt),
    (js "signature", .text capabilities.signature)]
    ++ spread (js "extensions") (extensionsToValue capabilities.extensions)

def capabilitiesToValue (capabilities : CapabilityRecord) : CanonicalValue :=
  .record (capabilityFields capabilities)

/-- One entry of `extensions`: these three fields and no other. -/
def asExtension (entry : CanonicalValue) : Option CapabilityExtension := do
  let fields ← asRecord entry
  let id ← asText (field fields (js "id"))
  let critical ← asBoolean (field fields (js "critical"))
  let carried ← field fields (js "value")
  if fields.length ≠ 3 then none else return ⟨id, critical, carried⟩

def extensionEntries : Format CapabilityExtension CanonicalValue where
  encode := extensionToValue
  parse := asExtension

theorem extensionEntries_exact : extensionEntries.Exact fun _ => True where
  reads := by
    intro one _
    simp [extensionEntries, extensionToValue, asExtension]
  accepts _ := trivial

def asExtensions : Option CanonicalValue → Option (List CapabilityExtension)
  | none => some []
  | some value => do
    let entries ← asList (some value)
    let extensions ← entries.mapM asExtension
    -- an id that was seen before refuses the list
    if (extensions.map CapabilityExtension.id).Nodup then return sortExtensions extensions
    else none

def CAPABILITY_KEYS : List JsString :=
  [js "nodeKey", js "features", js "sovereignFor", js "issuedAt", js "expiresAt", js "extensions",
    js "signature"]

/-- Whether a record has a key that its type has no place for. -/
def hasUnknownKey (fields : List (JsString × CanonicalValue)) : Bool :=
  fields.any fun entry => decide (entry.1 ∉ CAPABILITY_KEYS)

theorem hasUnknownKey_capabilityFields (capabilities : CapabilityRecord) :
    hasUnknownKey (capabilityFields capabilities) = false := by
  unfold hasUnknownKey capabilityFields
  cases extensionsToValue capabilities.extensions with
  | none => simp [spread, CAPABILITY_KEYS]
  | some value => simp [spread, CAPABILITY_KEYS]

def parseCapabilities (value : Option CanonicalValue) : Option CapabilityRecord := do
  let fields ← value.bind asRecord
  let nodeKey ← asText (field fields (js "nodeKey"))
  let signature ← asText (field fields (js "signature"))
  let features ← asKeyList (field fields (js "features"))
  let sovereignFor ← asKeyList (field fields (js "sovereignFor"))
  let issuedAt ← asFiniteNumber (field fields (js "issuedAt"))
  let expiresAt ← asFiniteNumber (field fields (js "expiresAt"))
  let extensions ← asExtensions (field fields (js "extensions"))
  if hasUnknownKey fields then none
  else return { nodeKey, features, sovereignFor, issuedAt, expiresAt, extensions, signature }

/-- An empty list is not written, and an absent one is empty. -/
theorem asExtensions_toValue {extensions : List CapabilityExtension}
    (hsorted : extensions.Pairwise CapabilityExtension.NotAfter)
    (hdistinct : (extensions.map CapabilityExtension.id).Nodup) :
    asExtensions (extensionsToValue extensions) = some extensions := by
  unfold extensionsToValue
  by_cases hempty : extensions.length = 0
  · rw [if_pos hempty, List.length_eq_zero_iff.mp hempty]
    rfl
  · have hread : (extensions.map extensionToValue).mapM asExtension = some extensions :=
      extensionEntries_exact.list.reads fun _ _ => trivial
    rw [if_neg hempty]
    simp [asExtensions, hread, hdistinct, sortExtensions_of_sorted hsorted]

/-- What is read is in order and without a repetition, whatever order it came in. -/
theorem asExtensions_some {value : Option CanonicalValue} {extensions : List CapabilityExtension}
    (h : asExtensions value = some extensions) :
    extensions.Pairwise CapabilityExtension.NotAfter ∧
      (extensions.map CapabilityExtension.id).Nodup := by
  cases value with
  | none =>
    cases h
    simp
  | some value =>
    simp only [asExtensions, Option.bind_eq_bind, Option.bind_eq_some_iff, Option.pure_def,
      Option.ite_none_right_eq_some, Option.some.injEq] at h
    obtain ⟨entries, -, given, -, hdistinct, rfl⟩ := h
    refine ⟨sortExtensions_sorted given, ?_⟩
    exact ((sortExtensions_perm given).map CapabilityExtension.id).nodup_iff.mpr hdistinct

def capabilityRecords : Format CapabilityRecord (Option CanonicalValue) where
  encode capabilities := some (capabilitiesToValue capabilities)
  parse := parseCapabilities

theorem capabilityRecords_exact : capabilityRecords.Exact CapabilityRecord.Canonical where
  reads := by
    intro capabilities h
    have hread := asExtensions_toValue h.sorted h.distinct
    have hkeys := hasUnknownKey_capabilityFields capabilities
    show parseCapabilities (some (.record (capabilityFields capabilities))) = some capabilities
    simp only [parseCapabilities, Option.bind_eq_bind, Option.bind_some, asRecord_record, hkeys]
    simp [capabilityFields, hread]
  accepts := by
    intro value capabilities h
    simp only [capabilityRecords, parseCapabilities, Option.bind_eq_bind, Option.bind_eq_some_iff,
      Option.pure_def, Option.ite_none_left_eq_some, Option.some.injEq] at h
    obtain ⟨_, _, _, _, _, _, _, _, _, _, _, _, _, _, extensions, hread, _, rfl⟩ := h
    obtain ⟨hsorted, hdistinct⟩ := asExtensions_some hread
    exact ⟨hsorted, hdistinct⟩

/-! ## Counts of starts -/

def MAX_REPORTED_COUNT : Nat := 65536

def resultText : StartResult → JsString
  | .started => js "started"
  | .failed cause => cause.text

def asStartResult (value : Option CanonicalValue) : Option StartResult := do
  let text ← asText value
  if text = js "started" then return .started
  else (START_FAILURES.find? fun failure => decide (failure.text = text)).map StartResult.failed

@[simp] theorem asStartResult_text (result : StartResult) :
    asStartResult (some (.text (resultText result))) = some result := by
  cases result with
  | started => simp [asStartResult, resultText]
  | failed cause =>
    cases cause <;> simp [asStartResult, resultText, StartFailure.text, START_FAILURES]

def asReportedCount (value : Option CanonicalValue) : Option Nat := do
  let count ← asIndex value
  if count = 0 ∨ MAX_REPORTED_COUNT < count then none else return count

/-- `asReportedCount(value) ?? 0`. -/
def asDeclined (value : Option CanonicalValue) : Nat := (asReportedCount value).getD 0

theorem asReportedCount_some {value : Option CanonicalValue} {count : Nat}
    (h : asReportedCount value = some count) : 1 ≤ count ∧ count ≤ MAX_REPORTED_COUNT := by
  simp only [asReportedCount, Option.bind_eq_bind, Option.bind_eq_some_iff, Option.pure_def,
    Option.ite_none_left_eq_some, Option.some.injEq] at h
  obtain ⟨_, -, hbounds, rfl⟩ := h
  omega

theorem asReportedCount_whole {count : Nat} (hlow : 1 ≤ count) (hhigh : count ≤ MAX_REPORTED_COUNT) :
    asReportedCount (some (whole count)) = some count := by
  have hbounds : ¬(count = 0 ∨ MAX_REPORTED_COUNT < count) := by omega
  simp [asReportedCount, hbounds]

theorem asDeclined_le (value : Option CanonicalValue) : asDeclined value ≤ MAX_REPORTED_COUNT := by
  unfold asDeclined
  cases h : asReportedCount value with
  | none => exact Nat.zero_le _
  | some count => exact (asReportedCount_some h).2

theorem asDeclined_whole {declined : Nat} (h : declined ≤ MAX_REPORTED_COUNT) :
    asDeclined (some (whole declined)) = declined := by
  rcases Nat.eq_zero_or_pos declined with rfl | hpos
  · simp [asDeclined, asReportedCount]
  · simp [asDeclined, asReportedCount_whole hpos h]

/-- A count this build can file. -/
structure OutcomeCountFits (count : OutcomeCount) : Prop where
  browser : isStartBrowserLabel count.browser = true
  low : 1 ≤ count.count
  high : count.count ≤ MAX_REPORTED_COUNT

def countToValue (entry : OutcomeCount) : CanonicalValue :=
  .record [(js "browser", .text entry.browser), (js "result", .text (resultText entry.result)),
    (js "count", whole entry.count)]

/-- One entry, or nothing where it is dropped. -/
def asCount (fields : List (JsString × CanonicalValue)) : Option OutcomeCount := do
  let browser ← asText (field fields (js "browser"))
  let count ← asReportedCount (field fields (js "count"))
  let result ← asStartResult (field fields (js "result"))
  if isStartBrowserLabel browser then return ⟨browser, result, count⟩ else none

/-- An entry that is no record refuses the list; one that does not fit is dropped. -/
def parseCounts (value : Option CanonicalValue) : Option (List OutcomeCount) := do
  let entries ← asList value
  let records ← entries.mapM asRecord
  return records.filterMap asCount

theorem asCount_some {fields : List (JsString × CanonicalValue)} {entry : OutcomeCount}
    (h : asCount fields = some entry) : OutcomeCountFits entry := by
  simp only [asCount, Option.bind_eq_bind, Option.bind_eq_some_iff, Option.pure_def,
    Option.ite_none_right_eq_some, Option.some.injEq] at h
  obtain ⟨browser, -, count, hcount, result, -, hlabel, rfl⟩ := h
  have hbounds := asReportedCount_some hcount
  exact ⟨hlabel, hbounds.1, hbounds.2⟩

def countLists : Format (List OutcomeCount) (Option CanonicalValue) where
  encode counts := some (.list (counts.map countToValue))
  parse := parseCounts

theorem countLists_exact : countLists.Exact fun counts => ∀ entry ∈ counts, OutcomeCountFits entry where
  reads := by
    intro counts h
    show (do
      let records ← (counts.map countToValue).mapM asRecord
      return records.filterMap asCount) = some counts
    induction counts with
    | nil => rfl
    | cons entry rest ih =>
      obtain ⟨hlabel, hlow, hhigh⟩ := h entry List.mem_cons_self
      have hrest := ih fun other hother => h other (List.mem_cons_of_mem _ hother)
      simp only [Option.bind_eq_bind, Option.bind_eq_some_iff, Option.pure_def,
        Option.some.injEq] at hrest
      obtain ⟨records, hrecords, hcounts⟩ := hrest
      simp [countToValue, hrecords, asCount, asReportedCount_whole hlow hhigh, hlabel, hcounts]
  accepts := by
    intro value counts h
    simp only [countLists, parseCounts, Option.bind_eq_bind, Option.bind_eq_some_iff,
      Option.pure_def, Option.some.injEq] at h
    obtain ⟨_, -, records, -, rfl⟩ := h
    intro entry hentry
    obtain ⟨fields, -, hread⟩ := List.mem_filterMap.mp hentry
    exact asCount_some hread

/-! ## Capability chains and name records -/

def abilityText : Ability → JsString
  | .execute => js "execute"
  | .read => js "read"
  | .delegate => js "delegate"

def asAbility (value : CanonicalValue) : Option Ability :=
  if asText (some value) = some (js "execute") then some .execute
  else if asText (some value) = some (js "read") then some .read
  else if asText (some value) = some (js "delegate") then some .delegate
  else none

def abilities : Format Ability CanonicalValue where
  encode ability := .text (abilityText ability)
  parse := asAbility

theorem abilities_exact : abilities.Exact fun _ => True where
  reads := by
    intro ability _
    cases ability <;> simp [abilities, asAbility, abilityText]
  accepts _ := trivial

def delegationToValue (link : Delegation) : CanonicalValue :=
  .record [
    (js "issuer", .text link.issuer),
    (js "audience", .text link.audience),
    (js "ownerId", .text link.ownerId),
    (js "abilities", .list (link.abilities.map fun ability => .text (abilityText ability))),
    (js "expiresAt", figure link.expiresAt),
    (js "signature", .text link.signature)]

def parseDelegation (value : CanonicalValue) : Option Delegation := do
  let fields ← asRecord value
  let issuer ← asText (field fields (js "issuer"))
  let audience ← asText (field fields (js "audience"))
  let ownerId ← asText (field fields (js "ownerId"))
  let signature ← asText (field fields (js "signature"))
  let expiresAt ← asFiniteNumber (field fields (js "expiresAt"))
  let entries ← asList (field fields (js "abilities"))
  let abilities ← entries.mapM asAbility
  return { issuer, audience, ownerId, abilities, expiresAt, signature }

def delegations : Format Delegation CanonicalValue where
  encode := delegationToValue
  parse := parseDelegation

theorem delegations_exact : delegations.Exact fun _ => True where
  reads := by
    intro link _
    have hread : (link.abilities.map fun ability => CanonicalValue.text (abilityText ability)).mapM
        asAbility = some link.abilities := abilities_exact.list.reads fun _ _ => trivial
    simp [delegations, delegationToValue, parseDelegation, hread]
  accepts _ := trivial

def nameDelegationToValue (delegation : NameDelegation) : CanonicalValue :=
  .record [
    (js "root", .text delegation.root),
    (js "delegate", .text delegation.delegate),
    (js "expiresAt", figure delegation.expiresAt),
    (js "signature", .text delegation.signature)]

def nameRecordToValue (record : NameRecord) : CanonicalValue :=
  .record ([
    (js "name", .text record.name),
    (js "cid", .cid record.cid),
    (js "version", whole record.version),
    (js "expiresAt", figure record.expiresAt),
    (js "signer", .text record.signer)]
    ++ spread (js "translationKeyCid") (record.translationKeyCid.map CanonicalValue.cid)
    ++ spread (js "delegation") (record.delegation.map nameDelegationToValue)
    ++ spread (js "wantsNetworkReach")
      (if record.wantsNetworkReach then some (.bool true) else none)
    ++ [(js "signature", .text record.signature)])

def parseNameDelegation (value : Option CanonicalValue) : Option NameDelegation := do
  let fields ← value.bind asRecord
  let root ← asText (field fields (js "root"))
  let delegate ← asText (field fields (js "delegate"))
  let signature ← asText (field fields (js "signature"))
  let expiresAt ← asFiniteNumber (field fields (js "expiresAt"))
  return { root, delegate, expiresAt, signature }

/-- `true` or absent. -/
def asWish : Option CanonicalValue → Option Bool
  | none => some false
  | some value => if asBoolean (some value) = some true then some true else none

def parseNameRecord (value : Option CanonicalValue) : Option NameRecord := do
  let fields ← value.bind asRecord
  let name ← asText (field fields (js "name"))
  let signer ← asText (field fields (js "signer"))
  let signature ← asText (field fields (js "signature"))
  let cid ← asCid (field fields (js "cid"))
  let version ← asIndex (field fields (js "version"))
  let expiresAt ← asFiniteNumber (field fields (js "expiresAt"))
  let translationKeyCid ← optional asCid (field fields (js "translationKeyCid"))
  let delegation ← optional parseNameDelegation (field fields (js "delegation"))
  let wantsNetworkReach ← asWish (field fields (js "wantsNetworkReach"))
  return {
    name, cid, version, expiresAt, signer, signature, translationKeyCid, delegation,
    wantsNetworkReach }

/-- Every field that is signed comes back, present or absent as it was. -/
@[simp] theorem parseNameRecord_toValue (record : NameRecord) :
    parseNameRecord (some (nameRecordToValue record)) = some record := by
  have htranslation : optional asCid (record.translationKeyCid.map CanonicalValue.cid)
      = some record.translationKeyCid := optional_map fun cid _ => asCid_cid cid
  have hdelegation : optional parseNameDelegation (record.delegation.map nameDelegationToValue)
      = some record.delegation := by
    apply optional_map
    intro delegation _
    simp [nameDelegationToValue, parseNameDelegation]
  have hwish : asWish (if record.wantsNetworkReach then some (.bool true) else none)
      = some record.wantsNetworkReach := by
    cases record.wantsNetworkReach <;> rfl
  simp [nameRecordToValue, parseNameRecord, htranslation, hdelegation, hwish]

end O2Fabric.Net.Protocol
