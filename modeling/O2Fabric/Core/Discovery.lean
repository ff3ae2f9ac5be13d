/-
  O2Fabric.Core.Discovery

  What a node states about itself: the features it has, whose data it may read,
  and a list of extensions, kept in the order of their ids' UTF-8 bytes.
-/

import O2Fabric.Core.CertificateFailure
import O2Fabric.Core.Quorum
import O2Fabric.Js.Utf8
import O2Fabric.Lib.Fallible

namespace O2Fabric

/-! ## Extensions -/

/-- A prefix comes first, otherwise the first byte in which two differ decides. -/
def compareBytes : Bytes → Bytes → Int
  | [], [] => 0
  | [], _ :: _ => -1
  | _ :: _, [] => 1
  | byte :: left, other :: right =>
    if byte ≠ other then if byte < other then -1 else 1 else compareBytes left right

def compareExtensionIds (a b : JsString) : Int := compareBytes (textEncoder a) (textEncoder b)

theorem compareBytes_total (left right : Bytes) :
    compareBytes left right ≤ 0 ∨ compareBytes right left ≤ 0 := by
  induction left generalizing right with
  | nil => cases right <;> simp [compareBytes]
  | cons byte left ih =>
    cases right with
    | nil => simp [compareBytes]
    | cons other right =>
      rcases lt_trichotomy byte other with hlt | rfl | hgt
      · simp [compareBytes, hlt, hlt.ne]
      · simpa [compareBytes] using ih right
      · simp [compareBytes, hgt, hgt.ne]

theorem compareBytes_trans {left mid right : Bytes} (h : compareBytes left mid ≤ 0)
    (h' : compareBytes mid right ≤ 0) : compareBytes left right ≤ 0 := by
  induction left generalizing mid right with
  | nil => cases right <;> simp [compareBytes]
  | cons byte left ih =>
    cases mid with
    | nil => simp [compareBytes] at h
    | cons other mid =>
      cases right with
      | nil => simp [compareBytes] at h'
      | cons third right =>
        rcases lt_trichotomy byte other with hlt | rfl | hgt
        · rcases lt_trichotomy other third with hlt' | rfl | hgt'
          · have := hlt.trans hlt'
            simp [compareBytes, this, this.ne]
          · simp [compareBytes, hlt, hlt.ne]
          · simp [compareBytes, hgt'.ne', hgt'.not_gt] at h'
        · rcases lt_trichotomy byte third with hlt' | rfl | hgt'
          · simp [compareBytes, hlt', hlt'.ne]
          · simp only [compareBytes, ne_eq, not_true_eq_false, if_false] at h h' ⊢
            exact ih h h'
          · simp [compareBytes, hgt'.ne', hgt'.not_gt] at h'
        · simp [compareBytes, hgt.ne', hgt.not_gt] at h

/-- Something a record says that this build may have no name for. -/
structure CapabilityExtension where
  id : JsString
  critical : Bool
  value : CanonicalValue

/-- `compareExtensionIds(a.id, b.id) <= 0`. -/
def CapabilityExtension.NotAfter (a b : CapabilityExtension) : Prop :=
  compareExtensionIds a.id b.id ≤ 0

instance : DecidableRel CapabilityExtension.NotAfter := fun a b =>
  inferInstanceAs (Decidable (compareExtensionIds a.id b.id ≤ 0))

instance : Std.Total CapabilityExtension.NotAfter := ⟨fun _ _ => compareBytes_total _ _⟩

instance : IsTrans CapabilityExtension CapabilityExtension.NotAfter :=
  ⟨fun _ _ _ h h' => compareBytes_trans h h'⟩

/-- `extensions.sort((a, b) => compareExtensionIds(a.id, b.id))`. -/
def sortExtensions (extensions : List CapabilityExtension) : List CapabilityExtension :=
  extensions.insertionSort CapabilityExtension.NotAfter

/-! ## Records -/

structure CapabilityRecord where
  nodeKey : JsString
  features : List JsString
  sovereignFor : List JsString
  issuedAt : ℚ
  expiresAt : ℚ
  extensions : List CapabilityExtension
  signature : JsString

/-- What an index holds about one node. -/
structure NodeRecords where
  certificate : NodeCertificate
  capabilities : CapabilityRecord

/-- The extensions are in order, and no id comes twice. -/
structure CapabilityRecord.Canonical (record : CapabilityRecord) : Prop where
  sorted : record.extensions.Pairwise CapabilityExtension.NotAfter
  distinct : (record.extensions.map CapabilityExtension.id).Nodup

theorem sortExtensions_of_sorted {extensions : List CapabilityExtension}
    (h : extensions.Pairwise CapabilityExtension.NotAfter) : sortExtensions extensions = extensions :=
  List.Pairwise.insertionSort_eq h

theorem sortExtensions_sorted (extensions : List CapabilityExtension) :
    (sortExtensions extensions).Pairwise CapabilityExtension.NotAfter :=
  List.pairwise_insertionSort _ extensions

theorem sortExtensions_perm (extensions : List CapabilityExtension) :
    (sortExtensions extensions).Perm extensions :=
  List.perm_insertionSort _ extensions

end O2Fabric

/-! # Executors

`discoverExecutors`: who can run a task, from the address of its input alone.

Each provider of the input is looked up and judged by itself, on the records
the index has for it: the certificate, then whose records they are, then the
capability record, then whether it fits the query.  The first thing that is
wrong is the reason it is left out for.
-/

namespace O2Fabric

/-! ## Capability records -/

/-- The first id that comes twice in a row. -/
def repeatedId : List CapabilityExtension → Option JsString
  | previous :: current :: rest =>
    if previous.id = current.id then some current.id else repeatedId (current :: rest)
  | _ => none

/-- The extensions in order, or an id that comes twice. -/
def orderExtensions (extensions : List CapabilityExtension) :
    Except JsString (List CapabilityExtension) :=
  let ordered := sortExtensions extensions
  match repeatedId ordered with
  | some duplicate => .error duplicate
  | none => .ok ordered

def keyTexts (keys : List JsString) : CanonicalValue :=
  .list ((keys.insertionSort (· ≤ ·)).map CanonicalValue.text)

/-- What a node signs of its record, or an extension id that comes twice. -/
def capabilityPayload (record : CapabilityRecord) : Except JsString CanonicalValue :=
  match orderExtensions record.extensions with
  | .error duplicate => .error duplicate
  | .ok ordered =>
    .ok (.record (
      [(js "nodeKey", .text record.nodeKey),
        (js "features", keyTexts record.features),
        (js "sovereignFor", keyTexts record.sovereignFor),
        (js "issuedAt", .number (.finite record.issuedAt)),
        (js "expiresAt", .number (.finite record.expiresAt))]
      -- a record without extensions is signed as it was before there were any
      ++ if ordered.length = 0 then []
        else [(js "extensions", .list (ordered.map fun one =>
          .record [(js "id", .text one.id), (js "critical", .bool one.critical),
            (js "value", one.value)]))]))

/-- The checks of the signatures in a node's records. -/
structure RecordChecks extends CertificateChecks where
  signedByNode : (nodeKey : JsString) → (payload : CanonicalValue) → (signature : JsString) → Bool

def verifyCapabilityRecord (checks : RecordChecks) (record : CapabilityRecord) (now : ℚ) : Bool :=
  if now < record.issuedAt ∨ record.expiresAt ≤ now then false
  else
    match capabilityPayload record with
    | .error _ => false
    | .ok payload => checks.signedByNode record.nodeKey payload record.signature

/-- The extension ids this build knows how to honour. -/
def UNDERSTOOD_EXTENSIONS : List JsString := []

/-- The critical extensions that neither this build nor the caller understands. -/
def unhonouredCritical (record : CapabilityRecord) (understands : List JsString) : List JsString :=
  (record.extensions.filter fun one =>
    decide (one.critical = true ∧ one.id ∉ UNDERSTOOD_EXTENSIONS ∧ one.id ∉ understands)).map
      CapabilityExtension.id

/-! ## The query -/

structure ExecutorQuery where
  inputCid : Cid
  requiredFeatures : Option (List JsString)
  sovereignFor : Option JsString

/-- Why a provider of the data is not a candidate executor. -/
inductive ExclusionReason
  | noRecords (nodeKey : JsString)
  | invalidCertificate (nodeKey : JsString) (failure : CertificateFailure)
  | invalidCapabilityRecord (nodeKey : JsString)
  | criticalExtensionNotUnderstood (nodeKey : JsString) (extensionIds : List JsString)
  | certificateMismatch (nodeKey recordKey : JsString)
  | missingFeatures (nodeKey : JsString) (missing : List JsString)
  | notClearedForOwner (nodeKey userKey : JsString)

def describeExclusion : ExclusionReason → JsString
  | .noRecords nodeKey =>
    nodeKey ++ js " provides the data but no records for it reached this reader — the index "
      ++ js "holds none, no peer answered, or an answer was refused as unreadable by this build"
  | .invalidCertificate nodeKey failure =>
    nodeKey ++ js " has an unusable certificate (" ++ failure.kind ++ js ")"
  | .invalidCapabilityRecord nodeKey => nodeKey ++ js " has an unusable capability record"
  | .criticalExtensionNotUnderstood nodeKey extensionIds =>
    js "this build does not understand " ++ (js ", ").intercalate extensionIds
      ++ js ", which " ++ nodeKey ++ js " marked critical — its record verified, and this reader "
      ++ js "is the one that cannot honour it"
  | .certificateMismatch nodeKey recordKey =>
    js "records for " ++ nodeKey ++ js " carry a capability record for " ++ recordKey
  | .missingFeatures nodeKey missing =>
    nodeKey ++ js " lacks required engine features: " ++ (js ", ").intercalate missing
  | .notClearedForOwner nodeKey userKey =>
    nodeKey ++ js " is not cleared to execute sovereign data for " ++ userKey

structure Exclusion where
  reason : ExclusionReason
  detail : JsString

structure DiscoveredExecutor where
  nodeKey : JsString
  certificate : NodeCertificate
  capabilities : CapabilityRecord

structure DiscoveryResult where
  executors : List DiscoveredExecutor
  excluded : List Exclusion
  providers : Nat

structure DiscoveryOptions where
  trustedIssuers : List JsString
  now : ℚ
  understands : Option (List JsString)

/-- Content routing and the record store; `error` is a rejection. -/
structure RecordIndex where
  providers : Cid → Except JsString (List JsString)
  recordsFor : JsString → Except JsString (Option NodeRecords)

variable (checks : RecordChecks) (query : ExecutorQuery) (options : DiscoveryOptions)

/-- One turn of the loop over the providers. -/
def judgeProvider (nodeKey : JsString) (records : Option NodeRecords) :
    Except ExclusionReason DiscoveredExecutor :=
  match records with
  | none => .error (.noRecords nodeKey)
  | some ⟨certificate, capabilities⟩ =>
    match certificateFailure checks.toCertificateChecks certificate options.trustedIssuers
        options.now with
    | some failure => .error (.invalidCertificate nodeKey failure)
    | none =>
      if certificate.nodeKey ≠ nodeKey ∨ capabilities.nodeKey ≠ nodeKey then
        .error (.certificateMismatch nodeKey capabilities.nodeKey)
      else if verifyCapabilityRecord checks capabilities options.now = false then
        .error (.invalidCapabilityRecord nodeKey)
      else
        let unhonoured := unhonouredCritical capabilities (options.understands.getD [])
        if 0 < unhonoured.length then
          .error (.criticalExtensionNotUnderstood nodeKey unhonoured)
        else
          let missing := (query.requiredFeatures.getD []).filter fun feature =>
            decide (feature ∉ capabilities.features)
          if 0 < missing.length then .error (.missingFeatures nodeKey missing)
          else
            match query.sovereignFor with
            | none => .ok ⟨nodeKey, certificate, capabilities⟩
            | some sovereignFor =>
              if sovereignFor ∉ capabilities.sovereignFor then
                .error (.notClearedForOwner nodeKey sovereignFor)
              else .ok ⟨nodeKey, certificate, capabilities⟩

def DiscoveryResult.add (result : DiscoveryResult) :
    Except ExclusionReason DiscoveredExecutor → DiscoveryResult
  | .ok executor => { result with executors := result.executors ++ [executor] }
  | .error reason =>
    { result with excluded := result.excluded ++ [⟨reason, describeExclusion reason⟩] }

def discoverExecutors (index : RecordIndex) : Except JsString DiscoveryResult := do
  let named ← index.providers query.inputCid
  let providers := sortedDistinct named
  -- asked together; the rejection of the earliest provider is the one that is thrown
  let settled ← providers.mapM index.recordsFor
  let judged := (providers.zip settled).map fun asked =>
    judgeProvider checks query options asked.1 asked.2
  return judged.foldl DiscoveryResult.add ⟨[], [], providers.length⟩

/-! ## Who is found -/

/-- These records verify for this key, and fit the query. -/
structure Qualifies (nodeKey : JsString) (records : NodeRecords) : Prop where
  certified : records.certificate.Valid checks.signatures options.trustedIssuers options.now
  certificateKey : records.certificate.nodeKey = nodeKey
  capabilitiesKey : records.capabilities.nodeKey = nodeKey
  verified : verifyCapabilityRecord checks records.capabilities options.now = true
  honoured : unhonouredCritical records.capabilities (options.understands.getD []) = []
  featured : ∀ feature ∈ query.requiredFeatures.getD [], feature ∈ records.capabilities.features
  cleared : ∀ userKey ∈ query.sovereignFor, userKey ∈ records.capabilities.sovereignFor

variable {checks query options}

/-- A provider is an executor exactly where its records qualify. -/
theorem judgeProvider_ok {nodeKey : JsString} {records : Option NodeRecords}
    {executor : DiscoveredExecutor} :
    judgeProvider checks query options nodeKey records = .ok executor ↔
      ∃ held, records = some held ∧ Qualifies checks query options nodeKey held ∧
        executor = ⟨nodeKey, held.certificate, held.capabilities⟩ := by
  constructor
  · intro h
    cases records with
    | none => cases h
    | some held =>
      obtain ⟨certificate, capabilities⟩ := held
      unfold judgeProvider at h
      dsimp only at h
      split at h
      · cases h
      · next hcertified =>
        split at h
        · cases h
        · next hkeys =>
          obtain ⟨hcertificate, hcapabilities⟩ := not_or.mp hkeys
          split at h
          · cases h
          · next hverified =>
            split at h
            · cases h
            · next hhonoured =>
              split at h
              · cases h
              · next hfeatured =>
                have hall : ∀ feature ∈ query.requiredFeatures.getD [],
                    feature ∈ capabilities.features := by
                  intro feature hfeature
                  by_contra hlacks
                  apply hfeatured
                  exact List.length_pos_of_mem
                    (List.mem_filter.mpr ⟨hfeature, decide_eq_true hlacks⟩)
                have hqualifies : (∀ userKey ∈ query.sovereignFor,
                    userKey ∈ capabilities.sovereignFor) →
                    Qualifies checks query options nodeKey
                      ⟨certificate, capabilities⟩ := fun hcleared =>
                  ⟨certificateFailure_eq_none.mp hcertified, not_not.mp hcertificate,
                    not_not.mp hcapabilities, Bool.eq_true_of_not_eq_false hverified,
                    List.length_eq_zero_iff.mp (Nat.eq_zero_of_not_pos hhonoured), hall,
                    hcleared⟩
                split at h
                · next hpublic =>
                  cases h
                  refine ⟨_, rfl, hqualifies ?_, rfl⟩
                  intro userKey huser
                  rw [hpublic] at huser
                  cases huser
                · next sovereignFor hsovereign =>
                  split at h
                  · cases h
                  · next hcleared =>
                    cases h
                    refine ⟨_, rfl, hqualifies ?_, rfl⟩
                    intro userKey huser
                    rw [hsovereign] at huser
                    cases huser
                    exact not_not.mp hcleared
  · rintro ⟨⟨certificate, capabilities⟩, rfl, h, rfl⟩
    have hkeys : ¬ (certificate.nodeKey ≠ nodeKey ∨ capabilities.nodeKey ≠ nodeKey) :=
      not_or.mpr ⟨not_not_intro h.certificateKey, not_not_intro h.capabilitiesKey⟩
    have hverified : ¬ verifyCapabilityRecord checks capabilities options.now = false := by
      rw [h.verified]
      exact Bool.true_eq_false.mp
    have hhonoured : unhonouredCritical capabilities (options.understands.getD []) = [] :=
      h.honoured
    have hfeatured : (query.requiredFeatures.getD []).filter
        (fun feature => decide (feature ∉ capabilities.features)) = [] := by
      apply List.filter_eq_nil_iff.mpr
      intro feature hfeature hlacks
      exact of_decide_eq_true hlacks (h.featured feature hfeature)
    unfold judgeProvider
    dsimp only
    rw [certificateFailure_eq_none.mpr h.certified]
    dsimp only
    rw [if_neg hkeys, if_neg hverified, hhonoured, hfeatured]
    show (match query.sovereignFor with
      | none => _
      | some sovereignFor => _) = _
    cases hsovereign : query.sovereignFor with
    | none => rfl
    | some sovereignFor =>
      have hcleared : sovereignFor ∈ capabilities.sovereignFor := h.cleared sovereignFor hsovereign
      exact if_neg (not_not_intro hcleared)

/-- The loop keeps what is judged well. -/
theorem mem_executors_foldl {judged : List (Except ExclusionReason DiscoveredExecutor)}
    {result : DiscoveryResult} {executor : DiscoveredExecutor} :
    executor ∈ (judged.foldl DiscoveryResult.add result).executors ↔
      executor ∈ result.executors ∨ .ok executor ∈ judged := by
  induction judged generalizing result with
  | nil => simp
  | cons one judged ih =>
    rw [List.foldl_cons, ih]
    cases one with
    | error reason => simp [DiscoveryResult.add]
    | ok found => simp [DiscoveryResult.add, or_assoc]

theorem mem_sortedDistinct {texts : List JsString} {text : JsString} :
    text ∈ sortedDistinct texts ↔ text ∈ texts := by
  unfold sortedDistinct
  rw [(List.perm_insertionSort _ _).mem_iff, mem_distinct]

/-- Over an index that does not reject, the loop judges each provider on its records. -/
theorem discoverExecutors_judges {index : RecordIndex} {named : List JsString}
    {answer : JsString → Option NodeRecords}
    (hproviders : index.providers query.inputCid = .ok named)
    (hrecords : ∀ nodeKey, index.recordsFor nodeKey = .ok (answer nodeKey)) :
    discoverExecutors checks query options index =
      .ok (((sortedDistinct named).map fun nodeKey =>
          judgeProvider checks query options nodeKey (answer nodeKey)).foldl DiscoveryResult.add
        ⟨[], [], (sortedDistinct named).length⟩) := by
  have hsettled : (sortedDistinct named).mapM index.recordsFor
      = .ok ((sortedDistinct named).map answer) := mapM_ok fun nodeKey _ => hrecords nodeKey
  unfold discoverExecutors
  rw [hproviders]
  show (do
    let settled ← (sortedDistinct named).mapM index.recordsFor
    pure ((((sortedDistinct named).zip settled).map fun asked : JsString × Option NodeRecords =>
      judgeProvider checks query options asked.1 asked.2).foldl DiscoveryResult.add _)) = _
  rw [hsettled]
  show Except.ok _ = _
  rw [← List.map_prod_left_eq_zip, List.map_map]
  rfl

/-- Over an index that does not reject, a provider is listed exactly where the records
    the index answers with for it qualify. -/
theorem discoverExecutors_lists {index : RecordIndex} {named : List JsString}
    {answer : JsString → Option NodeRecords}
    (hproviders : index.providers query.inputCid = .ok named)
    (hrecords : ∀ nodeKey, index.recordsFor nodeKey = .ok (answer nodeKey)) :
    ∃ result, discoverExecutors checks query options index = .ok result ∧
      ∀ nodeKey, nodeKey ∈ result.executors.map DiscoveredExecutor.nodeKey ↔
        nodeKey ∈ named ∧
          ∃ records, answer nodeKey = some records ∧
            Qualifies checks query options nodeKey records := by
  refine ⟨_, discoverExecutors_judges hproviders hrecords, fun nodeKey => ?_⟩
  constructor
  · intro hlisted
    obtain ⟨executor, hexecutor, rfl⟩ := List.mem_map.mp hlisted
    obtain hnone | hjudged := mem_executors_foldl.mp hexecutor
    · cases hnone
    · obtain ⟨asked, hasked, hok⟩ := List.mem_map.mp hjudged
      obtain ⟨held, hheld, hqualifies, rfl⟩ := judgeProvider_ok.mp hok
      exact ⟨mem_sortedDistinct.mp hasked, held, hheld, hqualifies⟩
  · rintro ⟨hnamed, held, hheld, hqualifies⟩
    have hok := judgeProvider_ok.mpr ⟨held, hheld, hqualifies, rfl⟩
    apply List.mem_map.mpr
    refine ⟨⟨nodeKey, held.certificate, held.capabilities⟩,
      mem_executors_foldl.mpr (Or.inr ?_), rfl⟩
    exact List.mem_map.mpr ⟨nodeKey, mem_sortedDistinct.mpr hnamed, hok⟩

end O2Fabric
