/-
  O2Fabric.Net.Protocol.NodeRecords

  Records as they are stored: encoded, and decoded from a codec that lists the
  fields of a record in an order of its own.  A reader takes a field by its
  name, so it reads the same from both; the values of extensions are carried
  through as they are.
-/

import O2Fabric.Core.DagCbor
import O2Fabric.Net.Protocol.RoundTrip

namespace O2Fabric.Net.Protocol

/-! ## The same record -/

/-- The same extension, but for the order of fields in its value. -/
structure SameExtension (a b : CapabilityExtension) : Prop where
  id : a.id = b.id
  critical : a.critical = b.critical
  value : a.value.Same b.value

structure SameRecords (x y : NodeRecords) : Prop where
  certificate : x.certificate = y.certificate
  rest : { x.capabilities with extensions := [] } = { y.capabilities with extensions := [] }
  extensions : List.Forall₂ SameExtension x.capabilities.extensions y.capabilities.extensions

theorem SameExtension.ids {left right : List CapabilityExtension}
    (h : List.Forall₂ SameExtension left right) :
    left.map CapabilityExtension.id = right.map CapabilityExtension.id := by
  induction h with
  | nil => rfl
  | cons hhead _ ih => rw [List.map_cons, List.map_cons, hhead.id, ih]

theorem notAfter_iff_ids (extensions : List CapabilityExtension) :
    extensions.Pairwise CapabilityExtension.NotAfter ↔
      (extensions.map CapabilityExtension.id).Pairwise fun a b => compareExtensionIds a b ≤ 0 := by
  rw [List.pairwise_map]
  exact Iff.rfl

/-- The order and the distinctness of extensions are those of their ids. -/
theorem canonical_iff_of_same {a b : CapabilityRecord}
    (h : List.Forall₂ SameExtension a.extensions b.extensions) : a.Canonical ↔ b.Canonical := by
  have hids := SameExtension.ids h
  constructor
  · rintro ⟨hsorted, hdistinct⟩
    rw [notAfter_iff_ids, hids, ← notAfter_iff_ids] at hsorted
    rw [hids] at hdistinct
    exact ⟨hsorted, hdistinct⟩
  · rintro ⟨hsorted, hdistinct⟩
    rw [notAfter_iff_ids, ← hids, ← notAfter_iff_ids] at hsorted
    rw [← hids] at hdistinct
    exact ⟨hsorted, hdistinct⟩

/-! ## Readers -/

section

variable {value value' : Option CanonicalValue} (h : SameField value value')

include h

theorem asFiniteNumber_same : asFiniteNumber value = asFiniteNumber value' := by
  cases h with
  | none => rfl
  | some hsame => cases hsame <;> rfl

theorem asBoolean_same : asBoolean value = asBoolean value' := by
  cases h with
  | none => rfl
  | some hsame => cases hsame <;> rfl

theorem asDiscoverability_same : asDiscoverability value = asDiscoverability value' := by
  rw [asDiscoverability, asDiscoverability, asText_same h]

theorem asKeyList_same : asKeyList value = asKeyList value' := by
  cases h with
  | none => rfl
  | some hsame =>
    cases hsame with
    | list each =>
      simp only [asKeyList, asList_list, Option.bind_eq_bind, Option.bind_some]
      induction each with
      | nil => rfl
      | cons hhead _ ih =>
        rw [List.mapM_cons, List.mapM_cons, ih, asText_same (.some hhead)]
    | _ => rfl

theorem optionalText_same : optional asText value = optional asText value' := by
  cases h with
  | none => rfl
  | some hsame =>
    show (asText _).map some = (asText _).map some
    rw [asText_same (.some hsame)]

end

/-! ## Certificates and capability records -/

theorem certificateFields_nodup (certificate : NodeCertificate) :
    ∃ fields, certificateToValue certificate = .record fields ∧
      (fields.map Prod.fst).Nodup := by
  refine ⟨_, rfl, ?_⟩
  cases certificate.x509 <;> simp [spread]

/-- A certificate is read from the same value as it is from its own. -/
theorem parseCertificate_same {certificate : NodeCertificate} {value : CanonicalValue}
    (h : (certificateToValue certificate).Same value) :
    parseCertificate (some value) = parseCertificate (some (certificateToValue certificate)) := by
  obtain ⟨fields, hfields, hnodup⟩ := certificateFields_nodup certificate
  rw [hfields] at h ⊢
  obtain ⟨fields', rfl, -, hsame⟩ := h.of_record hnodup
  simp only [parseCertificate, Option.bind_eq_bind, Option.bind_some, asRecord_record, asText_same (hsame _),
    asDiscoverability_same (hsame _), asKeyList_same (hsame _), asFiniteNumber_same (hsame _),
    optionalText_same (hsame _)]

theorem asExtension_same {one : CapabilityExtension} {value : CanonicalValue}
    (h : (extensionToValue one).Same value) :
    ∃ one', asExtension value = some one' ∧ SameExtension one one' := by
  have hnodup : ([(js "id", CanonicalValue.text one.id), (js "critical", .bool one.critical),
      (js "value", one.value)].map Prod.fst).Nodup := by simp
  obtain ⟨fields', rfl, hkeys, hsame⟩ := h.of_record hnodup
  have hid := asText_same (hsame (js "id"))
  have hcritical := asBoolean_same (hsame (js "critical"))
  have hlength := hkeys.length_eq
  have hcarried := hsame (js "value")
  simp at hid hcritical hlength hcarried
  cases hvalue : field fields' (js "value") with
  | none =>
    rw [hvalue] at hcarried
    cases hcarried
  | some carried =>
    rw [hvalue] at hcarried
    cases hcarried with
    | some hsame =>
      refine ⟨⟨one.id, one.critical, carried⟩, ?_, rfl, rfl, hsame⟩
      simp [asExtension, ← hid, ← hcritical, hvalue, ← hlength]

variable {extensions : List CapabilityExtension}

theorem mapM_asExtension_same {values : List CanonicalValue}
    (h : List.Forall₂ CanonicalValue.Same (extensions.map extensionToValue) values) :
    ∃ extensions', values.mapM asExtension = some extensions' ∧
      List.Forall₂ SameExtension extensions extensions' := by
  induction extensions generalizing values with
  | nil =>
    cases h
    exact ⟨[], rfl, .nil⟩
  | cons one extensions ih =>
    cases h with
    | cons hhead htail =>
      obtain ⟨one', hone, hsame⟩ := asExtension_same hhead
      obtain ⟨extensions', hread, hrest⟩ := ih htail
      exact ⟨one' :: extensions', by simp [hone, hread], .cons hsame hrest⟩

/-- Extensions in order are read in that order, each the same. -/
theorem asExtensions_same {value : Option CanonicalValue}
    (hsorted : extensions.Pairwise CapabilityExtension.NotAfter)
    (hdistinct : (extensions.map CapabilityExtension.id).Nodup)
    (h : SameField (extensionsToValue extensions) value) :
    ∃ extensions', asExtensions value = some extensions' ∧
      List.Forall₂ SameExtension extensions extensions' := by
  unfold extensionsToValue at h
  split at h
  · next hempty =>
    cases h
    rw [List.length_eq_zero_iff.mp hempty]
    exact ⟨[], rfl, .nil⟩
  · cases h with
    | some hsame =>
      cases hsame with
      | list each =>
        obtain ⟨extensions', hread, hrel⟩ := mapM_asExtension_same each
        have hids := SameExtension.ids hrel
        refine ⟨extensions', ?_, hrel⟩
        have hsorted' : extensions'.Pairwise CapabilityExtension.NotAfter := by
          rw [notAfter_iff_ids, ← hids, ← notAfter_iff_ids]
          exact hsorted
        rw [hids] at hdistinct
        simp [asExtensions, hread, hdistinct, sortExtensions_of_sorted hsorted']

theorem capabilityFields_nodup (capabilities : CapabilityRecord) :
    ((capabilityFields capabilities).map Prod.fst).Nodup := by
  unfold capabilityFields
  cases extensionsToValue capabilities.extensions <;> simp [spread]

theorem hasUnknownKey_perm {fields fields' : List (JsString × CanonicalValue)}
    (h : (fields.map Prod.fst).Perm (fields'.map Prod.fst)) :
    hasUnknownKey fields' = hasUnknownKey fields := by
  have hkeys : ∀ fields : List (JsString × CanonicalValue),
      hasUnknownKey fields = (fields.map Prod.fst).any fun key => decide (key ∉ CAPABILITY_KEYS) := by
    intro fields
    rw [List.any_map]
    rfl
  rw [hkeys, hkeys, h.symm.any_eq]

/-- A capability record in order is read, each of its extensions the same. -/
theorem parseCapabilities_same {capabilities : CapabilityRecord} {value : CanonicalValue}
    (hcanonical : capabilities.Canonical) (h : (capabilitiesToValue capabilities).Same value) :
    ∃ extensions, parseCapabilities (some value) = some { capabilities with extensions } ∧
      List.Forall₂ SameExtension capabilities.extensions extensions := by
  obtain ⟨fields', rfl, hkeys, hsame⟩ := h.of_record (capabilityFields_nodup capabilities)
  have hextensions : field (capabilityFields capabilities) (js "extensions")
      = extensionsToValue capabilities.extensions := by
    simp [capabilityFields]
  have hread := hsame (js "extensions")
  rw [hextensions] at hread
  obtain ⟨extensions, hextensions', hrel⟩ :=
    asExtensions_same hcanonical.sorted hcanonical.distinct hread
  refine ⟨extensions, ?_, hrel⟩
  have hunknown : hasUnknownKey fields' = false := by
    rw [hasUnknownKey_perm hkeys, hasUnknownKey_capabilityFields]
  simp only [parseCapabilities, Option.bind_eq_bind, Option.bind_some, asRecord_record, ← asText_same (hsame _),
    ← asKeyList_same (hsame _), ← asFiniteNumber_same (hsame _), hextensions', hunknown]
  simp [capabilityFields]

/-! ## Stored and read again -/

theorem sameRecords_of_extensions (records : NodeRecords)
    (h : List.Forall₂ SameExtension records.capabilities.extensions extensions) :
    SameRecords records
      ⟨records.certificate, { records.capabilities with extensions := extensions }⟩ :=
  ⟨rfl, rfl, h⟩

/-- Records come back from their encoding exactly if the extensions are in order, each
    under an id of its own, and the certificate commits its node to no next key. -/
theorem decodeNodeRecords_iff {codec : CanonicalCodec} (hround : codec.RoundTrips) {records : NodeRecords}
    {bytes : Bytes} (hencoded : encodeNodeRecords codec records = .ok bytes) :
    (∃ decoded, decodeNodeRecords codec bytes = some decoded ∧ SameRecords records decoded) ↔
      records.capabilities.Canonical ∧ records.certificate.nextKeyCommitment = none := by
  obtain ⟨value, hdecoded, hvalue⟩ := hround _ _ hencoded
  have hnodup : ([(js "certificate", certificateToValue records.certificate),
      (js "capabilities", capabilitiesToValue records.capabilities)].map Prod.fst).Nodup := by simp
  obtain ⟨fields, rfl, -, hsame⟩ := hvalue.of_record hnodup
  have hread : decodeNodeRecords codec bytes = parseNodeRecords fields := by
    simp [decodeNodeRecords, hdecoded]
  rw [hread]
  constructor
  · rintro ⟨decoded, hparsed, hrecords⟩
    obtain ⟨hkey, hcanonical⟩ := parseNodeRecords_some hparsed
    rw [← hrecords.certificate] at hkey
    exact ⟨(canonical_iff_of_same hrecords.extensions).mpr hcanonical, hkey⟩
  · rintro ⟨hcanonical, hkey⟩
    have hcertificate := hsame (js "certificate")
    have hcapabilities := hsame (js "capabilities")
    simp only [field_cons, if_true, js_inj, String.reduceEq, if_false] at hcertificate hcapabilities
    cases hc : field fields (js "certificate") with
    | none =>
      rw [hc] at hcertificate
      cases hcertificate
    | some certificate =>
      cases hk : field fields (js "capabilities") with
      | none =>
        rw [hk] at hcapabilities
        cases hcapabilities
      | some capabilities =>
        rw [hc] at hcertificate
        rw [hk] at hcapabilities
        obtain ⟨hcertificate⟩ := hcertificate
        obtain ⟨hcapabilities⟩ := hcapabilities
        have hown : parseCertificate (some (certificateToValue records.certificate))
            = some records.certificate := certificates_exact.reads hkey
        obtain ⟨extensions, hparsed, hrel⟩ := parseCapabilities_same hcanonical hcapabilities
        refine ⟨_, ?_, sameRecords_of_extensions records hrel⟩
        simp [parseNodeRecords, hc, hk, parseCertificate_same hcertificate, hown, hparsed]

/-- What the wire promises to carry arrives as it was sent, unless it commits a node to
    a next key; and whatever is read is read again from its own encoding. -/
theorem wire_loses_nothing_iff (codec : CanonicalCodec) (hround : codec.RoundTrips) :
    (∀ request, parseRequest (encodeRequest request) = some request ↔ request.Crosses) ∧
    (∀ response, parseResponse (encodeResponse response) = some response ↔ response.Crosses) ∧
    (∀ records bytes, encodeNodeRecords codec records = .ok bytes →
      ((∃ decoded, decodeNodeRecords codec bytes = some decoded ∧ SameRecords records decoded) ↔
        records.capabilities.Canonical ∧ records.certificate.nextKeyCommitment = none)) ∧
    (∀ body request, parseRequest body = some request →
      parseRequest (encodeRequest request) = some request) ∧
    (∀ body response, parseResponse body = some response →
      parseResponse (encodeResponse response) = some response) :=
  ⟨fun _ => requests_exact.returns_iff, fun _ => responses_exact.returns_iff,
    fun _ _ hencoded => decodeNodeRecords_iff hround hencoded,
    fun _ _ hread => requests_exact.reread hread, fun _ _ hread => responses_exact.reread hread⟩

/-- A node that commits to no next key, with an extension whose value lists its fields
    against their order. -/
def plainRecords : NodeRecords where
  certificate := {
    nodeKey := js "ab", userKey := js "cd", operatorId := js "op", discoverability := .seed,
    relayIds := [], issuedAt := 0, expiresAt := 5, issuer := js "ef", signature := js "01" }
  capabilities := {
    nodeKey := js "ab", features := [js "simd"], sovereignFor := [], issuedAt := 0, expiresAt := 5,
    extensions := [⟨js "urn:x", false, .record [(js "bb", .null), (js "a", .bool true)]⟩],
    signature := js "02" }

theorem wire_loses_nothing_iff_stored :
    ∃ bytes decoded, encodeNodeRecords (plainDagCbor.only (nodeRecordsToValue plainRecords))
        plainRecords = .ok bytes ∧
      decodeNodeRecords (plainDagCbor.only (nodeRecordsToValue plainRecords)) bytes = some decoded ∧
      SameRecords plainRecords decoded := by
  have hsome : (plainDagCbor.encodeCanonical (nodeRecordsToValue plainRecords)).isSome := by
    decide +kernel
  obtain ⟨bytes, hbytes⟩ := Option.isSome_iff_exists.mp hsome
  have hencoded := DagCbor.only_encode hbytes
  have hcanonical : plainRecords.capabilities.Canonical :=
    ⟨List.pairwise_singleton _ _, List.nodup_singleton _⟩
  obtain ⟨-, -, hstored, -⟩ := wire_loses_nothing_iff
    (plainDagCbor.only (nodeRecordsToValue plainRecords)) (plainDagCbor.only_roundTrips _)
  obtain ⟨decoded, hdecoded, hsame⟩ := (hstored plainRecords bytes hencoded).mpr ⟨hcanonical, rfl⟩
  exact ⟨bytes, decoded, hencoded, hdecoded, hsame⟩

/-- A request of a node that names the key it will rotate to. -/
def committedRequest : EnrollmentRequest where
  nodeKey := js "ab"
  userKey := js "cd"
  operatorId := js "op"
  discoverability := .seed
  relayIds := []
  nextKeyCommitment := some (js "9f")
  proofOfPossession := js "01"
  ownerProof := js "02"
  freshness := .answersNoChallenge

/-- The certificate it is issued, with the commitment under the issuer's signature. -/
def committedCertificate : NodeCertificate :=
  { plainRecords.certificate with nextKeyCommitment := some (js "9f") }

/-- Neither comes back, and nothing says so: each is read without its commitment. -/
theorem key_commitment_is_lost :
    (AgentRequest.enrol committedRequest).InWire ∧
    parseRequest (encodeRequest (.enrol committedRequest)) ≠ some (.enrol committedRequest) ∧
    (AgentResponse.enrol (.issued committedCertificate)).InWire ∧
    parseResponse (encodeResponse (.enrol (.issued committedCertificate)))
      ≠ some (.enrol (.issued committedCertificate)) ∧
    parseResponse (encodeResponse (.enrol (.issued committedCertificate)))
      = some (.enrol (.issued plainRecords.certificate)) := by
  refine ⟨trivial, ?_, trivial, ?_, ?_⟩
  · intro hreturns
    have hkey := (parseRequest_crosses hreturns).noNextKey
    cases hkey
  · intro hreturns
    have hkey := (parseResponse_crosses hreturns).noNextKey committedCertificate
      (List.mem_singleton_self _)
    cases hkey
  · -- what is written of the two certificates is one value
    have hwritten : encodeResponse (.enrol (.issued committedCertificate))
        = encodeResponse (.enrol (.issued plainRecords.certificate)) := rfl
    have hcrosses : (AgentResponse.enrol (.issued plainRecords.certificate)).Crosses := by
      refine ⟨trivial, ?_⟩
      intro certificate hmem
      rw [List.mem_singleton.mp hmem]
      rfl
    rw [hwritten]
    exact parseResponse_encodeResponse hcrosses

end O2Fabric.Net.Protocol
