/-
  O2Fabric.Net.Protocol.RoundTrip

  What the wire promises to carry arrives as it was sent.  Each kind has its
  domain; a message comes back exactly if it is in the domain and commits no
  node to a next key: the writers have no place for a `nextKeyCommitment`.
-/

import O2Fabric.Net.Protocol

namespace O2Fabric.Net.Protocol

open O2Fabric.Job (Cost)

/-! ## The wire's domain -/

/-- A label, an owner exactly where the label is sovereign, and an index below the
    count. -/
structure Task.InWire (task : Task) : Prop where
  index : task.partitionIndex < task.partitionCount
  labelled : task.label = some .pub ∧ task.ownerId = none ∨
    task.label = some .sovereign ∧ ∃ ownerId, task.ownerId = some ownerId ∧ ownerId ≠ []

def HandleFits (handle : JsString) : Prop :=
  1 ≤ handle.length ∧ handle.length ≤ MAX_COMMITMENT_HANDLE_CHARS

def AgentRequest.InWire : AgentRequest → Prop
  | .exec task _ => task.InWire
  | .commit task _ => task.InWire
  | .reveal handle => HandleFits handle
  | .report outcome declined =>
    (∀ start ∈ outcome, isStartBrowserLabel start.browser = true) ∧
      ∃ count ≤ MAX_REPORTED_COUNT, declined = some count
  | .combine combineId inputCids level =>
    combineId ≠ [] ∧ 2 ≤ inputCids.length ∧ inputCids.length ≤ MAX_COMBINE_INPUTS ∧ 1 ≤ level
  | _ => True

def AgentRequest.nextKeyCommitment : AgentRequest → Option JsString
  | .enrol request => request.nextKeyCommitment
  | _ => none

/-- What comes back of a request: one in the domain that commits to no next key. -/
structure AgentRequest.Crosses (request : AgentRequest) : Prop where
  inWire : request.InWire
  noNextKey : request.nextKeyCommitment = none

def IsGuestCount (x : ℚ) : Prop := isSafeInteger x = true ∧ 0 ≤ x

structure CostFits (cost : Cost) : Prop where
  execMs : 0 ≤ cost.execMs
  hostCalls : IsGuestCount cost.hostCalls
  peakMemoryPages : IsGuestCount cost.peakMemoryPages

def AgentResponse.InWire : AgentResponse → Prop
  | .exec (.ok _ cost _) => CostFits cost
  | .commit (.ok digest handle) => digest ≠ [] ∧ HandleFits handle
  | .reveal (.ok nonce _ cost _) => nonce.length = CEREMONY_NONCE_BYTES ∧ CostFits cost
  | .records (some held) => held.capabilities.Canonical
  | .offer _ _ (some capacity) _ =>
    (∃ slots : Nat, capacity.slots = slots) ∧ ∃ inFlight : Nat, capacity.inFlight = inFlight
  | .report counts declined =>
    (∀ entry ∈ counts, OutcomeCountFits entry) ∧ declined ≤ MAX_REPORTED_COUNT
  -- there is no result to make a statement about
  | .combine none _ attestation => attestation = .signedByNobody
  | .enrolChallenge challenge => challenge.nonce ≠ []
  | _ => True

def AgentResponse.certificates : AgentResponse → List NodeCertificate
  | .exec (.ok _ _ attestation) => attestedCertificates attestation
  | .reveal (.ok _ _ _ attestation) => attestedCertificates attestation
  | .records (some held) => [held.certificate]
  | .combine _ _ attestation => attestedCertificates attestation
  | .enrol result => issuedCertificates result
  | _ => []

/-- What comes back of a response: one in the domain, where no certificate commits its
    node to a next key. -/
structure AgentResponse.Crosses (response : AgentResponse) : Prop where
  inWire : response.InWire
  noNextKey : ∀ certificate ∈ response.certificates, certificate.nextKeyCommitment = none

/-! ## Ladders -/

/-- One rung: what is answered is answered here or further down. -/
theorem rung {α : Type} {c : Prop} [Decidable c] {here below : Option α} {a : α} {P : Prop}
    (h : (if c then here else below) = some a) (hhere : here = some a → P)
    (hbelow : below = some a → P) : P := by
  split at h
  · exact hhere h
  · exact hbelow h

theorem of_built {α β : Type} {read : Option α} {build : α → β} {message : β} {P : β → Prop}
    (h : (read.bind fun a => some (build a)) = some message)
    (hbuilt : ∀ a, read = some a → P (build a)) : P message := by
  obtain ⟨a, hread, hmessage⟩ := Option.bind_eq_some_iff.mp h
  rw [← Option.some.inj hmessage]
  exact hbuilt a hread

/-! ## Tasks -/

theorem asCapability_toValue (capability : Option (List Delegation)) :
    asCapability (capability.map fun links => .list (links.map delegationToValue))
      = some capability := by
  cases capability with
  | none => rfl
  | some links =>
    have hread : (links.map delegationToValue).mapM parseDelegation = some links :=
      delegations_exact.list.reads fun _ _ => trivial
    simp [asCapability, hread]

theorem kind_taskFields (kind : String) (task : Task) (capability : Option (List Delegation)) :
    field (taskFields kind task capability) (js "kind") = some (.text (js kind)) := by
  simp [taskFields, kindField]

/-- A task that is in the domain is read from its frame, and so is its chain. -/
theorem parseTaskFrame_taskFields {kind : String} {task : Task}
    {capability : Option (List Delegation)} (h : task.InWire) :
    parseTaskFrame (taskFields kind task capability) = some (task, capability) := by
  have hcapability := asCapability_toValue capability
  have hrecord : optional parseNameRecord (task.moduleRecord.map nameRecordToValue)
      = some task.moduleRecord := optional_map fun record _ => parseNameRecord_toValue record
  have hindex : ¬(task.partitionCount = 0 ∨ task.partitionCount ≤ task.partitionIndex) := by
    have := h.index
    omega
  obtain ⟨_, _, _, _, label, owner, _⟩ := task
  rcases h.labelled with ⟨hlabel, howner⟩ | ⟨hlabel, ownerId, howner, hne⟩
  · replace hlabel : label = some .pub := hlabel
    replace howner : owner = none := howner
    subst hlabel howner
    simp [taskFields, parseTaskFrame, kindField, labelFields, asLabel, sovereigntyText, hcapability,
      hrecord, hindex]
  · replace hlabel : label = some .sovereign := hlabel
    replace howner : owner = some ownerId := howner
    subst hlabel howner
    simp [taskFields, parseTaskFrame, kindField, labelFields, asLabel, sovereigntyText, hcapability,
      hrecord, hindex, hne]

variable {fields : List (JsString × CanonicalValue)}

theorem asLabel_some {label : Sovereignty} {ownerId : Option JsString}
    (h : asLabel fields = some (label, ownerId)) :
    label = .pub ∧ ownerId = none ∨ label = .sovereign ∧ ∃ owner, ownerId = some owner ∧ owner ≠ [] := by
  simp only [asLabel] at h
  split at h
  · simp only [Option.bind_eq_bind, Option.bind_eq_some_iff, Option.pure_def,
      Option.ite_none_left_eq_some, Option.some.injEq, Prod.mk.injEq] at h
    obtain ⟨owner, -, hne, rfl, rfl⟩ := h
    exact Or.inr ⟨rfl, owner, rfl, fun hnil => hne (by rw [hnil]; rfl)⟩
  · split at h
    · cases h
      exact Or.inl ⟨rfl, rfl⟩
    · cases h

/-- What is read from a frame is in the domain. -/
theorem parseTaskFrame_inWire {task : Task} {capability : Option (List Delegation)}
    (h : parseTaskFrame fields = some (task, capability)) :
    task.InWire := by
  simp only [parseTaskFrame, Option.bind_eq_bind, Option.bind_eq_some_iff, Option.pure_def,
    Option.ite_none_left_eq_some, Option.some.injEq, Prod.mk.injEq, Prod.exists] at h
  obtain ⟨_, -, _, -, index, -, count, -, hindex, label, ownerId, hlabel, _, -, _, -, rfl, -⟩ := h
  refine ⟨?_, ?_⟩
  · show index < count
    omega
  · rcases asLabel_some hlabel with ⟨rfl, rfl⟩ | ⟨rfl, owner, rfl, hne⟩
    · exact Or.inl ⟨rfl, rfl⟩
    · exact Or.inr ⟨rfl, owner, rfl, hne⟩

/-! ## Requests -/

theorem asHandleText_text {handle : JsString} (h : HandleFits handle) :
    asHandleText (some (.text handle)) = some handle := by
  have hbounds : ¬(handle.length = 0 ∨ MAX_COMMITMENT_HANDLE_CHARS < handle.length) := by
    have hlow := h.1
    have hhigh := h.2
    omega
  simp only [asHandleText, asText_text, Option.bind_eq_bind, Option.bind_some, Option.pure_def]
  rw [if_neg hbounds]

variable {value : Option CanonicalValue}

theorem asHandleText_some {handle : JsString} (h : asHandleText value = some handle) :
    HandleFits handle := by
  simp only [asHandleText, Option.bind_eq_bind, Option.bind_eq_some_iff, Option.pure_def,
    Option.ite_none_left_eq_some, Option.some.injEq] at h
  obtain ⟨_, -, hbounds, rfl⟩ := h
  exact ⟨by omega, by omega⟩

/-- A report is always read as one in the domain. -/
theorem parseReport_crosses (fields : List (JsString × CanonicalValue)) :
    (parseReport fields).Crosses := by
  have hdeclined : ∃ count ≤ MAX_REPORTED_COUNT,
      some (asDeclined (field fields (js "declined"))) = some count :=
    ⟨_, asDeclined_le _, rfl⟩
  simp only [parseReport]
  split
  · split
    · next hlabel =>
      refine ⟨⟨?_, hdeclined⟩, rfl⟩
      rintro start ⟨⟩
      exact hlabel
    · exact ⟨⟨by simp, hdeclined⟩, rfl⟩
  · exact ⟨⟨by simp, hdeclined⟩, rfl⟩

variable {request : AgentRequest}

theorem parseCombine_crosses (h : parseCombine fields = some request) : request.Crosses := by
  simp only [parseCombine, Option.bind_eq_bind, Option.bind_eq_some_iff, Option.pure_def,
    Option.ite_none_left_eq_some, Option.some.injEq] at h
  obtain ⟨combineId, -, level, -, elements, -, hid, hcount, inputCids, hread, rfl⟩ := h
  -- one input is read for each element
  have hlength : elements.length = inputCids.length := (mapM_eq_some_iff.mp hread).length_eq
  refine ⟨⟨?_, by omega, by omega, by omega⟩, rfl⟩
  rintro rfl
  exact hid (Or.inl rfl)

def requests : Format AgentRequest CanonicalValue where
  encode := encodeRequest
  parse := parseRequest

theorem parseRequest_encodeRequest (hcrosses : request.Crosses) :
    parseRequest (encodeRequest request) = some request := by
  obtain ⟨h, hkey⟩ := hcrosses
  cases request with
  | block cid => simp [encodeRequest, parseRequest, kindField]
  | providers cid => simp [encodeRequest, parseRequest, kindField]
  | records nodeKey => simp [encodeRequest, parseRequest, kindField]
  | offer shardId => simp [encodeRequest, parseRequest, kindField]
  | reservations => simp [encodeRequest, parseRequest, kindField]
  | enrolChallenge => simp [encodeRequest, parseRequest, kindField]
  | report outcome declined =>
    obtain ⟨hlabel, count, hcount, rfl⟩ := h
    have hread := asDeclined_whole hcount
    cases outcome with
    | none => simp [encodeRequest, parseRequest, parseReport, kindField, hread, asText]
    | some start =>
      have hbrowser := hlabel start rfl
      simp [encodeRequest, parseRequest, parseReport, kindField, hread, hbrowser]
  | combine combineId inputCids level =>
    obtain ⟨hid, hlow, hhigh, hlevel⟩ := h
    have hfits : ¬(combineId.length = 0 ∨ level < 1) := by
      have hpos := List.length_pos_of_ne_nil hid
      omega
    have hcount : ¬(inputCids.length < 2 ∨ MAX_COMBINE_INPUTS < inputCids.length) := by omega
    have hread : (inputCids.map CanonicalValue.cid).mapM (fun element => asCid (some element))
        = some inputCids := by
      rw [mapM_eq_some_iff, List.forall₂_map_left_iff, List.forall₂_same]
      exact fun cid _ => asCid_cid cid
    simp only [encodeRequest, parseRequest, parseCombine, kindField, asRecord_record, field_cons,
      js_inj, String.reduceEq, if_true, if_false, Option.bind_eq_bind, Option.bind_some,
      asText_text, asIndex_whole, asList_list, List.length_map]
    rw [if_neg hfits, if_neg hcount, hread]
    rfl
  | enrol request =>
    have hread : parseEnrollmentRequest (some (enrollmentRequestToValue request)) = some request :=
      enrollmentRequests_exact.reads hkey
    simp [encodeRequest, parseRequest, kindField, hread]
  | reveal handle =>
    simp [encodeRequest, parseRequest, kindField, asHandleText_text h]
  | commit task capability =>
    have hkind := kind_taskFields "commit" task capability
    have hread : parseTaskFrame (taskFields "commit" task capability) = some (task, capability) :=
      parseTaskFrame_taskFields h
    simp [encodeRequest, parseRequest, taskFrame, hkind, hread]
  | exec task capability =>
    have hkind := kind_taskFields "exec" task capability
    have hread : parseTaskFrame (taskFields "exec" task capability) = some (task, capability) :=
      parseTaskFrame_taskFields h
    simp [encodeRequest, parseRequest, taskFrame, hkind, hread]

/-- Whatever is read is in the domain, and it commits no node to a next key. -/
theorem parseRequest_crosses {body : CanonicalValue} (h : parseRequest body = some request) :
    request.Crosses := by
  simp only [parseRequest, Option.bind_eq_bind, Option.bind_eq_some_iff, Option.pure_def] at h
  obtain ⟨fields, -, kind, -, h⟩ := h
  refine rung h ?block fun h => rung h ?providers fun h => rung h ?records fun h =>
    rung h ?offer fun h => rung h ?reservations fun h => rung h ?report fun h =>
    rung h ?combine fun h => rung h ?enrol fun h => rung h ?enrolChallenge fun h =>
    rung h ?reveal fun h => rung h ?commit fun h => rung h ?unknown ?exec
  case block => exact fun h => of_built h fun _ _ => ⟨trivial, rfl⟩
  case providers => exact fun h => of_built h fun _ _ => ⟨trivial, rfl⟩
  case records => exact fun h => of_built h fun _ _ => ⟨trivial, rfl⟩
  case offer => exact fun h => of_built h fun _ _ => ⟨trivial, rfl⟩
  case reservations =>
      rintro ⟨⟩
      exact ⟨trivial, rfl⟩
  case report =>
      rintro ⟨⟩
      exact parseReport_crosses fields
  case combine => exact parseCombine_crosses
  case enrol =>
      exact fun h => of_built h fun request hread =>
        ⟨trivial, enrollmentRequests_exact.accepts hread⟩
  case enrolChallenge =>
      rintro ⟨⟩
      exact ⟨trivial, rfl⟩
  case reveal => exact fun h => of_built h fun _ hread => ⟨asHandleText_some hread, rfl⟩
  case commit => exact fun h => of_built h fun _ hread => ⟨parseTaskFrame_inWire hread, rfl⟩
  case unknown =>
      rintro ⟨⟩
  case exec => exact fun h => of_built h fun _ hread => ⟨parseTaskFrame_inWire hread, rfl⟩

/-- A request comes back exactly if it is in the domain and commits to no next key. -/
theorem requests_exact : requests.Exact AgentRequest.Crosses where
  reads h := parseRequest_encodeRequest h
  accepts h := parseRequest_crosses h

/-! ## Responses -/

variable {x : ℚ}

theorem parseGuestCount_figure (h : IsGuestCount x) :
    parseGuestCount (some (figure x)) = some x := by
  have hfits : ¬(isSafeInteger x = false ∨ x < 0) := by
    simp [h.1, h.2]
  simp only [parseGuestCount, asFiniteNumber_figure, Option.bind_eq_bind, Option.bind_some,
    Option.pure_def]
  rw [if_neg hfits]

theorem parseGuestCount_some (h : parseGuestCount value = some x) : IsGuestCount x := by
  cases value with
  | none =>
    cases h
    exact ⟨by norm_num [isSafeInteger, Rat.isInt], le_refl 0⟩
  | some value =>
    simp only [parseGuestCount, Option.bind_eq_bind, Option.bind_eq_some_iff, Option.pure_def,
      Option.ite_none_left_eq_some, Option.some.injEq] at h
    obtain ⟨_, -, hfits, rfl⟩ := h
    rw [not_or, Bool.not_eq_false, not_lt] at hfits
    exact hfits

theorem parseExecMs_figure (h : 0 ≤ x) : parseExecMs (some (figure x)) = some x := by
  simp only [parseExecMs, asFiniteNumber_figure, Option.bind_eq_bind, Option.bind_some,
    Option.pure_def]
  rw [if_neg (not_lt.mpr h)]

theorem parseExecMs_some (h : parseExecMs value = some x) :
    0 ≤ x := by
  cases value with
  | none =>
    cases h
    exact le_refl 0
  | some value =>
    simp only [parseExecMs, Option.bind_eq_bind, Option.bind_eq_some_iff, Option.pure_def,
      Option.ite_none_left_eq_some, Option.some.injEq] at h
    obtain ⟨_, -, hfits, rfl⟩ := h
    exact not_lt.mp hfits

theorem parseCost_some {cost : Cost} (h : parseCost fields = some cost) : CostFits cost := by
  simp only [parseCost, Option.bind_eq_bind, Option.bind_eq_some_iff, Option.pure_def,
    Option.some.injEq] at h
  obtain ⟨_, -, _, hms, _, hcalls, _, hpeak, rfl⟩ := h
  exact ⟨parseExecMs_some hms, parseGuestCount_some hcalls, parseGuestCount_some hpeak⟩

theorem parseNodeRecords_some {records : NodeRecords} (h : parseNodeRecords fields = some records) :
    records.certificate.nextKeyCommitment = none ∧ records.capabilities.Canonical := by
  simp only [parseNodeRecords, Option.bind_eq_bind, Option.bind_eq_some_iff, Option.pure_def,
    Option.some.injEq] at h
  obtain ⟨_, hcertificate, _, hcapabilities, rfl⟩ := h
  exact ⟨certificates_exact.accepts hcertificate, capabilityRecords_exact.accepts hcapabilities⟩

variable {response : AgentResponse}

theorem parseOffer_crosses (h : parseOffer fields = some response) : response.Crosses := by
  simp only [parseOffer, Option.bind_eq_bind, Option.bind_eq_some_iff, Option.pure_def] at h
  obtain ⟨accepted, -, h⟩ := h
  refine rung h ?unbounded ?bounded
  case unbounded =>
      rintro ⟨⟩
      exact ⟨trivial, by simp [AgentResponse.certificates]⟩
  case bounded =>
      intro h
      simp only [Option.bind_eq_some_iff, Option.some.injEq] at h
      obtain ⟨slots, -, inFlight, -, rfl⟩ := h
      exact ⟨⟨⟨slots, rfl⟩, inFlight, rfl⟩, by simp [AgentResponse.certificates]⟩

theorem parseCombined_crosses (h : parseCombined fields = some response) : response.Crosses := by
  simp only [parseCombined, Option.bind_eq_bind, Option.pure_def] at h
  refine rung h ?missing ?found
  case missing =>
      rintro ⟨⟩
      exact ⟨rfl, by simp [AgentResponse.certificates, attestedCertificates]⟩
  case found =>
      intro h
      simp only [Option.bind_eq_some_iff, Option.some.injEq] at h
      obtain ⟨resultCid, -, attestation, hread, rfl⟩ := h
      exact ⟨trivial, attestations_exact.accepts hread⟩

theorem parseCommitOutcome_crosses {outcome : CommitOutcome}
    (h : parseCommitOutcome fields = some outcome) :
    (AgentResponse.commit outcome).Crosses := by
  simp only [parseCommitOutcome, Option.bind_eq_bind, Option.pure_def] at h
  refine rung h ?ok fun h => rung h ?unstated ?failed
  case ok =>
      intro h
      simp only [Option.bind_eq_some_iff, Option.ite_none_left_eq_some, Option.some.injEq] at h
      obtain ⟨digest, -, handle, hhandle, hdigest, rfl⟩ := h
      refine ⟨⟨?_, asHandleText_some hhandle⟩, by simp [AgentResponse.certificates]⟩
      rintro rfl
      exact hdigest rfl
  case unstated =>
      rintro ⟨⟩
  case failed =>
      rintro ⟨⟩
      exact ⟨trivial, by simp [AgentResponse.certificates]⟩

theorem parseRevealOutcome_crosses {outcome : RevealOutcome}
    (h : parseRevealOutcome fields = some outcome) :
    (AgentResponse.reveal outcome).Crosses := by
  simp only [parseRevealOutcome, Option.bind_eq_bind, Option.pure_def] at h
  refine rung h ?ok fun h => rung h ?unstated ?failed
  case ok =>
      intro h
      simp only [Option.bind_eq_some_iff, Option.ite_none_left_eq_some, Option.some.injEq] at h
      obtain ⟨nonce, -, output, -, cost, hcost, attestation, hread, hnonce, rfl⟩ := h
      exact ⟨⟨not_not.mp hnonce, parseCost_some hcost⟩, attestations_exact.accepts hread⟩
  case unstated =>
      rintro ⟨⟩
  case failed =>
      rintro ⟨⟩
      exact ⟨trivial, by simp [AgentResponse.certificates]⟩

theorem parseExecutionOutcome_crosses {outcome : ExecutionOutcome}
    (h : parseExecutionOutcome fields = some outcome) :
    (AgentResponse.exec outcome).Crosses := by
  simp only [parseExecutionOutcome, Option.bind_eq_bind, Option.pure_def] at h
  refine rung h ?ok fun h => rung h ?unstated ?failed
  case ok =>
      intro h
      simp only [Option.bind_eq_some_iff, Option.some.injEq] at h
      obtain ⟨output, -, cost, hcost, attestation, hread, rfl⟩ := h
      exact ⟨parseCost_some hcost, attestations_exact.accepts hread⟩
  case unstated =>
      rintro ⟨⟩
  case failed =>
      rintro ⟨⟩
      exact ⟨trivial, by simp [AgentResponse.certificates]⟩

def responses : Format AgentResponse CanonicalValue where
  encode := encodeResponse
  parse := parseResponse

theorem kind_enrollmentResult (result : EnrollmentResult) :
    ∃ fields, enrollmentResultToValue result = .record fields ∧
      field fields (js "kind") = some (.text (js "enrol")) := by
  cases result with
  | issued certificate => exact ⟨_, rfl, by simp⟩
  | refused refusal reason => exact ⟨_, rfl, by simp⟩

theorem parseResponse_encodeResponse (hcrosses : response.Crosses) :
    parseResponse (encodeResponse response) = some response := by
  obtain ⟨h, hkeys⟩ := hcrosses
  cases response with
  | error reason => simp [encodeResponse, parseResponse, kindField, refusalReason]
  | block bytes =>
    cases bytes with
    | none => simp [encodeResponse, parseResponse, kindField, flagged]
    | some bytes => simp [encodeResponse, parseResponse, kindField, flagged, asBytes]
  | providers nodeKeys => simp [encodeResponse, parseResponse, kindField]
  | reservations peerIds => simp [encodeResponse, parseResponse, kindField]
  | records records =>
    cases records with
    | none => simp [encodeResponse, parseResponse, kindField, flagged]
    | some records =>
      have hcertificate : parseCertificate (some (certificateToValue records.certificate))
          = some records.certificate :=
        certificates_exact.reads (hkeys _ (List.mem_singleton_self _))
      have hcapabilities : parseCapabilities (some (capabilitiesToValue records.capabilities))
          = some records.capabilities := capabilityRecords_exact.reads h
      simp [encodeResponse, parseResponse, kindField, flagged, parseNodeRecords, hcertificate,
        hcapabilities]
  | offer accepted reason capacity standing =>
    cases capacity with
    | none =>
      cases standing <;>
        simp [encodeResponse, parseResponse, kindField, flagged, parseOffer, standingText]
    | some capacity =>
      obtain ⟨⟨slots, hslots⟩, inFlight, hinFlight⟩ := h
      have hread : ∀ n : Nat, asIndex (some (figure n)) = some n := asIndex_whole
      obtain ⟨_, _⟩ := capacity
      replace hslots : _ = (slots : ℚ) := hslots
      replace hinFlight : _ = (inFlight : ℚ) := hinFlight
      subst hslots hinFlight
      cases standing <;>
        simp [encodeResponse, parseResponse, kindField, flagged, parseOffer, standingText, hread]
  | enrol result =>
    have hread := enrollmentResults_exact.reads hkeys
    obtain ⟨fields, hfields, hkind⟩ := kind_enrollmentResult result
    simp only [enrollmentResults, hfields, asRecord_record, Option.bind_some] at hread
    simp [encodeResponse, parseResponse, hfields, hkind, hread]
  | enrolChallenge challenge =>
    have hne : challenge.nonce ≠ [] := h
    simp [encodeResponse, parseResponse, kindField, parseChallenge, hne]
  | report counts declined =>
    have hcounts : parseCounts (some (.list (counts.map countToValue))) = some counts :=
      countLists_exact.reads h.1
    simp [encodeResponse, parseResponse, kindField, hcounts, asDeclined_whole h.2]
  | combine resultCid reason attestation =>
    cases resultCid with
    | none =>
      have hnobody : attestation = .signedByNobody := h
      simp [encodeResponse, parseResponse, parseCombined, kindField, flagged, refusalReason,
        hnobody]
    | some resultCid =>
      have hread : parseAttestation (some (attestationToValue attestation)) = some attestation :=
        attestations_exact.reads hkeys
      simp [encodeResponse, parseResponse, parseCombined, kindField, flagged, refusalReason,
        hread]
  | commit outcome =>
    cases outcome with
    | ok digest handle =>
      have hhandle := asHandleText_text h.2
      simp [encodeResponse, parseResponse, parseCommitOutcome, kindField, flagged, h.1, hhandle]
    | failed reason =>
      simp [encodeResponse, parseResponse, parseCommitOutcome, kindField, flagged,
        refusalReason]
  | reveal outcome =>
    cases outcome with
    | ok nonce output cost attestation =>
      obtain ⟨hnonce, hfits⟩ := h
      have hread : parseAttestation (some (attestationToValue attestation)) = some attestation :=
        attestations_exact.reads hkeys
      have hms := parseExecMs_figure hfits.execMs
      have hcalls := parseGuestCount_figure hfits.hostCalls
      have hpeak := parseGuestCount_figure hfits.peakMemoryPages
      simp [encodeResponse, parseResponse, parseRevealOutcome, kindField, flagged, asBytes,
        costFields, parseCost, hnonce, hread, hms, hcalls, hpeak]
    | failed reason =>
      simp [encodeResponse, parseResponse, parseRevealOutcome, kindField, flagged,
        refusalReason]
  | exec outcome =>
    cases outcome with
    | ok output cost attestation =>
      have hread : parseAttestation (some (attestationToValue attestation)) = some attestation :=
        attestations_exact.reads hkeys
      have hms := parseExecMs_figure h.execMs
      have hcalls := parseGuestCount_figure h.hostCalls
      have hpeak := parseGuestCount_figure h.peakMemoryPages
      simp [encodeResponse, parseResponse, parseExecutionOutcome, kindField, flagged, costFields,
        parseCost, hread, hms, hcalls, hpeak]
    | failed reason =>
      simp [encodeResponse, parseResponse, parseExecutionOutcome, kindField, flagged,
        refusalReason]

/-- Whatever is read is in the domain, and no certificate in it commits its node to a
    next key. -/
theorem parseResponse_crosses {body : CanonicalValue} (h : parseResponse body = some response) :
    response.Crosses := by
  simp only [parseResponse, Option.bind_eq_bind, Option.bind_eq_some_iff, Option.pure_def] at h
  obtain ⟨fields, -, kind, -, h⟩ := h
  refine rung h ?error fun h => rung h ?block fun h => rung h ?providers fun h =>
    rung h ?records fun h => rung h ?offer fun h => rung h ?reservations fun h =>
    rung h ?enrol fun h => rung h ?enrolChallenge fun h => rung h ?report fun h =>
    rung h ?combine fun h => rung h ?commit fun h => rung h ?reveal fun h => rung h ?exec ?unknown
  case error =>
      rintro ⟨⟩
      exact ⟨trivial, by simp [AgentResponse.certificates]⟩
  case block =>
      refine fun h => rung h ?_ fun h => of_built h fun _ _ =>
        ⟨trivial, by simp [AgentResponse.certificates]⟩
      rintro ⟨⟩
      exact ⟨trivial, by simp [AgentResponse.certificates]⟩
  case providers =>
      exact fun h => of_built h fun _ _ => ⟨trivial, by simp [AgentResponse.certificates]⟩
  case records =>
      refine fun h => rung h ?_ fun h => of_built h fun held hread => ?_
      · rintro ⟨⟩
        exact ⟨trivial, by simp [AgentResponse.certificates]⟩
      · obtain ⟨hkey, hcanonical⟩ := parseNodeRecords_some hread
        exact ⟨hcanonical, by simpa [AgentResponse.certificates] using hkey⟩
  case offer => exact parseOffer_crosses
  case reservations =>
      exact fun h => of_built h fun _ _ => ⟨trivial, by simp [AgentResponse.certificates]⟩
  case enrol =>
      refine fun h => of_built h fun result hread => ⟨trivial, ?_⟩
      have hparse : enrollmentResults.parse (.record fields) = some result := hread
      exact enrollmentResults_exact.accepts hparse
  case enrolChallenge =>
      refine fun h => of_built h fun challenge hread => ?_
      simp only [parseChallenge, Option.bind_eq_bind, Option.bind_eq_some_iff, Option.pure_def,
        Option.ite_none_left_eq_some, Option.some.injEq] at hread
      obtain ⟨nonce, -, expiresAt, -, hne, rfl⟩ := hread
      refine ⟨?_, by simp [AgentResponse.certificates]⟩
      rintro rfl
      exact hne rfl
  case report =>
      exact fun h => of_built h fun counts hread =>
        ⟨⟨countLists_exact.accepts hread, asDeclined_le _⟩, by simp [AgentResponse.certificates]⟩
  case combine => exact parseCombined_crosses
  case commit => exact fun h => of_built h fun _ hread => parseCommitOutcome_crosses hread
  case reveal => exact fun h => of_built h fun _ hread => parseRevealOutcome_crosses hread
  case exec => exact fun h => of_built h fun _ hread => parseExecutionOutcome_crosses hread
  case unknown =>
      rintro ⟨⟩

/-- A response comes back exactly if it is in the domain and carries no certificate that
    commits to a next key. -/
theorem responses_exact : responses.Exact AgentResponse.Crosses where
  reads h := parseResponse_encodeResponse h
  accepts h := parseResponse_crosses h

end O2Fabric.Net.Protocol
