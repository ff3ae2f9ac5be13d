/-
  O2Fabric.Core.EnrollmentAuthority.IssuedVerifies

  What an authority issues, and when it verifies: always without the X.509
  form, and with it where the profile has room for what was asked.

  The issuing half asks nothing of the relay identifiers, and refuses a time by
  comparing its year, which a time that no date holds passes.
-/

import O2Fabric.Core.EnrollmentAuthority.Budgets
import O2Fabric.Core.X509Encode.RoundTrip
import O2Fabric.Core.X509Form
import O2Fabric.Js.WellFormed

namespace O2Fabric.EnrollmentAuthority

open X509 (SigningKey payloadOf x509FormOf fieldsOf cborText cborTexts wholeSecond TbsContents
  X509EncodableFields)

variable {verify : (signature : Bytes) → (message : Bytes) → (key : Bytes) → Bool}

/-! ## An authority with a key -/

def authorityKeys (codec : DagCbor) (key : SigningKey verify) (issuesX509 : Bool) :
    ProviderKeys where
  issuer := toHex key.publicKey
  sign certificate := toHex (key.sign ((payloadOf codec certificate).getD []))
  x509 :=
    if issuesX509 then some fun certificate => toHex ((x509FormOf key certificate).getD [])
    else none
  verify signature message k :=
    match codec.encodeCanonical message with
    | some bytes => verify (fromHex signature) bytes (fromHex k)
    | none => false

def authority (codec : DagCbor) (key : SigningKey verify) (issuesX509 : Bool)
    (limits : AuthorityOptions) : AuthorityOptions :=
  { limits with keys := authorityKeys codec key issuesX509 }

/-- The payload and the form can be encoded; `enrol` throws where one cannot. -/
def formsEncode (codec : DagCbor) (key : SigningKey verify) (issuesX509 : Bool)
    (certificate : NodeCertificate) : Bool :=
  (payloadOf codec certificate).isSome && (!issuesX509 || (x509FormOf key certificate).isSome)

/-- `dagCbor.decode` of the two values of the form: half a pair comes back as U+FFFD. -/
structure ReadsBack (decode : Bytes → Except JsString CanonicalValue) (operatorId : JsString)
    (relayIds : List JsString) : Prop where
  operatorId : decode (cborText operatorId) = .ok (.text (toWellFormed operatorId))
  relayIds : decode (cborTexts relayIds)
    = .ok (.list (relayIds.map fun id => .text (toWellFormed id)))

/-- The profile has room: few relay identifiers, each short and of whole code points, and an end
    that a date holds. -/
structure Fits (relayIds : List JsString) (expiresAt : ℚ) : Prop where
  count : relayIds.length ≤ X509.MAX_RELAY_ID_COUNT
  short : ∀ id ∈ relayIds, (textEncoder id).length ≤ X509.MAX_RELAY_ID_BYTES
  wellFormed : ∀ id ∈ relayIds, isWellFormed id = true
  ends : wholeSecond expiresAt ≤ MAX_TIME

/-! ## What is issued -/

section

variable {σ : Type} {p : Platform} {o : AuthorityOptions} {encodes : NodeCertificate → Bool}
  {ledger : IssuanceLedger σ} {history history' : σ} {call : Call} {certificate : NodeCertificate}

theorem certified_of_issued
    (h : enrolOrThrow p o encodes ledger history call = some (history', .issued certificate)) :
    certificate = certify o call.request call.now ∧ encodes certificate = true := by
  unfold enrolOrThrow at h
  cases henrol : enrol p o ledger history call.request call.now with
  | none =>
    rw [henrol] at h
    cases h
  | some answer =>
    obtain ⟨recorded, result⟩ := answer
    rw [henrol] at h
    rcases enrol_cases henrol with ⟨-, refusal, reason, rfl, -⟩ | ⟨rfl, -⟩
    · cases h
    · by_cases hencodes : encodes (certify o call.request call.now) = true
      · dsimp only at h
        rw [if_pos hencodes] at h
        cases h
        exact ⟨rfl, hencodes⟩
      · dsimp only at h
        rw [if_neg hencodes] at h
        cases h

end

section

variable {codec : DagCbor} {key : SigningKey verify} {issuesX509 : Bool}
  {limits : AuthorityOptions} {request : EnrollmentRequest} {now : ℚ}

/-- The envelope is signed by the issuer it names. -/
theorem envelope_signed {payload : Bytes}
    (hpayload : payloadOf codec (certify (authority codec key issuesX509 limits) request now)
      = some payload) :
    verify (fromHex (certify (authority codec key issuesX509 limits) request now).signature) payload
      (fromHex (certify (authority codec key issuesX509 limits) request now).issuer) = true := by
  have hsignature : (certify (authority codec key issuesX509 limits) request now).signature
      = toHex (key.sign ((payloadOf codec
          (certify (authority codec key issuesX509 limits) request now)).getD [])) := rfl
  have hissuer : (certify (authority codec key issuesX509 limits) request now).issuer
      = toHex key.publicKey := rfl
  rw [hsignature, hissuer, hpayload, fromHex_toHex, fromHex_toHex]
  exact key.verifies payload

/-- Within its time, a certificate of the authority's verifies exactly where its form does. -/
theorem verifies_iff_form {p : Platform} {decode : Bytes → Except JsString CanonicalValue}
    {certificate : NodeCertificate} {payload : Bytes}
    (hcertificate : certificate = certify (authority codec key issuesX509 limits) request now)
    (hpayload : payloadOf codec certificate = some payload) {t : ℚ}
    (hstarted : certificate.issuedAt ≤ t) (hunexpired : t < certificate.expiresAt) :
    X509.verifyCertificate p decode verify codec certificate [toHex key.publicKey] t = some none ↔
      X509.checkX509Form p decode verify certificate = some none := by
  have hpinned : ¬ certificate.issuer ∉ [toHex key.publicKey] := by
    rw [hcertificate]
    exact not_not_intro List.mem_cons_self
  have hsigned : verify (fromHex certificate.signature) payload (fromHex certificate.issuer)
      = true := by
    rw [hcertificate] at hpayload ⊢
    exact envelope_signed hpayload
  have hearly : ¬ t < certificate.issuedAt := not_lt.mpr hstarted
  have hlate : ¬ certificate.expiresAt ≤ t := not_le.mpr hunexpired
  unfold X509.verifyCertificate
  rw [if_neg hpinned]
  cases hform : X509.checkX509Form p decode verify certificate with
  | none => simp
  | some form =>
    cases form with
    | some failure => simp
    | none =>
      rw [hpayload]
      simp [certificateFailure, not_not.mp hpinned, hsigned, hearly, hlate]

end

/-! ## The form -/

/-- A form that was encoded, as the tree it was written from. -/
theorem x509FormOf_some {key : SigningKey verify} {certificate : NodeCertificate} {form : Bytes}
    (h : x509FormOf key certificate = some form) :
    ∃ contents : TbsContents, contents.Of (fieldsOf certificate) ∧
      X509.encodeX509Tbs (fieldsOf certificate)
        = some (X509.encodeDer (X509.tbsTree (fieldsOf certificate) contents)) ∧
      form = X509.encodeDer (X509.certificateTree (fieldsOf certificate) contents
        (key.sign (X509.encodeDer (X509.tbsTree (fieldsOf certificate) contents)))) := by
  unfold x509FormOf at h
  obtain ⟨tbs, htbs, h⟩ := Option.bind_eq_some_iff.mp h
  have htree := htbs
  unfold X509.encodeX509Tbs at htree
  obtain ⟨node, hnode, rfl⟩ := Option.map_eq_some_iff.mp htree
  obtain ⟨contents, hcontents, rfl⟩ := X509.buildTbs_iff.mp hnode
  refine ⟨contents, hcontents, htbs, ?_⟩
  unfold X509.encodeX509Certificate at h
  rw [hnode, X509.algorithmIdentifier_eq, guard, if_pos (key.sign_length _)] at h
  cases h
  rfl

theorem disagreement_eq_none {p : Platform} {certificate : NodeCertificate}
    {presented : X509.X509Certificate} :
    X509.disagreement p certificate presented = none ↔
      ∀ d ∈ X509.comparisons p certificate presented, d.envelope = d.presented := by
  unfold X509.disagreement
  rw [List.find?_eq_none]
  simp only [decide_eq_true_eq, not_not]

/-- Sixteen characters of a key and what is before them are few, and plain. -/
theorem operatorIdFor_plain {userKey : JsString} (h : Ascii userKey) :
    Ascii (operatorIdFor userKey) ∧
      (textEncoder (operatorIdFor userKey)).length ≤ X509.MAX_OPERATOR_ID_BYTES := by
  have hascii : Ascii (operatorIdFor userKey) := by
    intro u hu
    rcases List.mem_append.mp hu with hin | hin
    · have hall : (js "visitor:").all (fun u => decide (u.val < 0x80)) = true := by decide
      exact of_decide_eq_true (List.all_eq_true.mp hall u hin)
    · exact h u (List.mem_of_mem_take hin)
  refine ⟨hascii, ?_⟩
  have hprefix : (js "visitor:").length = 8 := by decide
  have htake : (userKey.take 16).length ≤ 16 := by
    rw [List.length_take]
    exact Nat.min_le_left _ _
  rw [length_textEncoder hascii, operatorIdFor, List.length_append, hprefix]
  show _ ≤ 64
  omega

theorem wholeSecond_mono {ms ms' : ℚ} (h : ms ≤ ms') : wholeSecond ms ≤ wholeSecond ms' := by
  have hfloor : ⌊ms / 1000⌋ ≤ ⌊ms' / 1000⌋ := by
    apply Int.floor_le_floor
    exact div_le_div_of_nonneg_right h (by norm_num)
  unfold X509.wholeSecond
  omega

theorem wholeSecond_nonneg {ms : ℚ} (h : 0 ≤ ms) : 0 ≤ wholeSecond ms := by
  have hfloor : 0 ≤ ⌊ms / 1000⌋ := Int.floor_nonneg.mpr (div_nonneg h (by norm_num))
  unfold X509.wholeSecond
  omega

theorem lt_wholeSecond_add (ms : ℚ) : ms < wholeSecond ms + 1000 := by
  have hfloor := Int.lt_floor_add_one (ms / 1000)
  have hsecond : ((wholeSecond ms : ℤ) : ℚ) = (⌊ms / 1000⌋ : ℚ) * 1000 := by
    unfold X509.wholeSecond
    push_cast
    rfl
  rw [hsecond]
  linarith

/-- A certificate as the authority makes it, but for its signature: what is sorted and derived is. -/
structure Made (key : SigningKey verify) (certificate : NodeCertificate) : Prop where
  operatorId : certificate.operatorId = operatorIdFor certificate.userKey
  sorted : certificate.relayIds.insertionSort (· ≤ ·) = certificate.relayIds
  issuer : certificate.issuer = toHex key.publicKey
  started : 0 ≤ certificate.issuedAt
  lasts : certificate.issuedAt < certificate.expiresAt

section

variable {key : SigningKey verify} {certificate : NodeCertificate} {contents : TbsContents}
  {decode : Bytes → Except JsString CanonicalValue} {form : Bytes} {p : Platform}

/-- What the profile reads of the form, where it reads it. -/
theorem decode_form (hmade : Made key certificate)
    (hreads : ReadsBack decode certificate.operatorId certificate.relayIds)
    (hcontents : contents.Of (fieldsOf certificate)) {signature : Bytes}
    (hsignature : signature.length = 64) {presented : X509.X509Certificate} {tbsBytes : Bytes} :
    X509.decodeX509Certificate decode
        (X509.encodeDer (X509.certificateTree (fieldsOf certificate) contents signature))
        = .ok (presented, tbsBytes) ↔
      (certificate.relayIds.length ≤ X509.MAX_RELAY_ID_COUNT ∧
        (∀ id ∈ certificate.relayIds, (textEncoder id).length ≤ X509.MAX_RELAY_ID_BYTES) ∧
        wholeSecond certificate.expiresAt ≤ MAX_TIME) ∧
      presented = X509.certificateFor (fieldsOf certificate) contents.serial certificate.operatorId
        (certificate.relayIds.map toWellFormed) signature ∧
      tbsBytes = X509.encodeDer (X509.tbsTree (fieldsOf certificate) contents) := by
  have huserKey : Ascii certificate.userKey := (X509.hexToBytes_some hcontents.userKey).2.1
  obtain ⟨hplain, hshort⟩ := operatorIdFor_plain huserKey
  have hwhole : toWellFormed certificate.operatorId = certificate.operatorId := by
    rw [hmade.operatorId]
    exact (toWellFormed_eq_iff _).mpr (isWellFormed_ascii hplain)
  have hoperatorShort : (textEncoder certificate.operatorId).length
      ≤ X509.MAX_OPERATOR_ID_BYTES := by
    rw [hmade.operatorId]
    exact hshort
  have hdecodeOperator := hreads.operatorId
  rw [hwhole] at hdecodeOperator
  have hoperator := X509.readOperatorId_ok hdecodeOperator hoperatorShort
  have hsize : (cborText certificate.operatorId).length ≤ X509.MAX_EXTENSION_BYTES :=
    (X509.length_cborText_le hoperatorShort (by decide)).trans (by decide)
  have hsorted : X509.sortedRelayIds (fieldsOf certificate) = certificate.relayIds := hmade.sorted
  have hdecodeRelays : decode (cborTexts (X509.sortedRelayIds (fieldsOf certificate)))
      = .ok (.list ((certificate.relayIds.map toWellFormed).map CanonicalValue.text)) := by
    rw [hsorted, hreads.relayIds, List.map_map]
    rfl
  rw [X509.decode_certificateTree hcontents]
  constructor
  · rintro ⟨-, tbsNode, hassemble, rfl⟩
    obtain ⟨-, hexpires, -, rfl, relayIds, hrelays, rfl⟩ :=
      (X509.assemble_certificateTree hcontents hsignature hoperator hsize).mp hassemble
    obtain ⟨hcount, hids, rfl⟩ := (X509.readRelayIds_iff hdecodeRelays).mp hrelays
    rw [List.length_map] at hcount
    refine ⟨⟨hcount, ?_, (of_decide_eq_true hexpires).2⟩, rfl, rfl⟩
    intro id hid
    have hread := hids (toWellFormed id) (List.mem_map_of_mem hid)
    rw [textEncoder_toWellFormed] at hread
    exact hread
  · rintro ⟨⟨hcount, hids, hends⟩, rfl, rfl⟩
    have hread : ∀ id ∈ certificate.relayIds.map toWellFormed,
        (textEncoder id).length ≤ X509.MAX_RELAY_ID_BYTES := by
      intro id hid
      obtain ⟨written, hwritten, rfl⟩ := List.mem_map.mp hid
      rw [textEncoder_toWellFormed]
      exact hids written hwritten
    have hextension : (cborTexts (X509.sortedRelayIds (fieldsOf certificate))).length
        ≤ X509.MAX_EXTENSION_BYTES := by
      rw [hsorted]
      exact X509.length_cborTexts_le hcount hids
    -- the issue is before an end that a date holds
    obtain ⟨n, hn, -, -⟩ := X509.serialBytes_some hcontents.serial
    have hissuedAt : certificate.issuedAt = n := hn
    have hbefore : wholeSecond certificate.issuedAt ≤ wholeSecond certificate.expiresAt :=
      wholeSecond_mono hmade.lasts.le
    have hzero := wholeSecond_nonneg hmade.started
    have hsmall : n < 256 ^ 7 := by
      have hlt : (n : ℚ) < wholeSecond certificate.expiresAt + 1000 := by
        rw [← hissuedAt]
        exact hmade.lasts.trans (lt_wholeSecond_add _)
      have hint : (n : ℤ) < wholeSecond certificate.expiresAt + 1000 := by exact_mod_cast hlt
      unfold MAX_TIME at hends
      omega
    have hissuer : X509.hexToBytes certificate.issuer = some key.publicKey := by
      rw [hmade.issuer]
      unfold X509.hexToBytes
      rw [if_pos (X509.isEvenLowerHex_toHex _), fromHex_toHex]
    have hwithin := X509.length_certificateTree_le hcontents hissuer key.publicKey_length hn hsmall
      hsignature hoperatorShort hextension
    have hissued : isTime (wholeSecond certificate.issuedAt) = true :=
      decide_eq_true ⟨by unfold MAX_TIME; omega, by omega⟩
    have hexpires : isTime (wholeSecond certificate.expiresAt) = true :=
      decide_eq_true ⟨by unfold MAX_TIME; omega, hends⟩
    refine ⟨hwithin, X509.tbsTree (fieldsOf certificate) contents, ?_, rfl⟩
    refine (X509.assemble_certificateTree hcontents hsignature hoperator hsize).mpr
      ⟨hissued, hexpires, hextension, rfl, certificate.relayIds.map toWellFormed, ?_, rfl⟩
    rw [X509.readRelayIds_iff hdecodeRelays, List.length_map]
    exact ⟨hcount, hread, rfl⟩

/-- The form passes its checks exactly where the profile has room for the certificate. -/
theorem form_checks_iff (hmade : Made key certificate)
    (hreads : ReadsBack decode certificate.operatorId certificate.relayIds)
    (hform : x509FormOf key certificate = some form) (hx509 : certificate.x509 = some (toHex form)) :
    X509.checkX509Form p decode verify certificate = some none ↔
      Fits certificate.relayIds certificate.expiresAt := by
  obtain ⟨contents, hcontents, htbs, rfl⟩ := x509FormOf_some hform
  have hdecoded := @decode_form verify key certificate contents decode hmade hreads hcontents _
    (key.sign_length (X509.encodeDer (X509.tbsTree (fieldsOf certificate) contents)))
  unfold X509.checkX509Form
  rw [hx509]
  dsimp only
  rw [X509.isEvenLowerHex_toHex, if_neg (fun h => by cases h), fromHex_toHex]
  constructor
  · intro h
    split at h
    · cases h
    · rename_i presented tbsBytes hok
      obtain ⟨⟨hcount, hids, hends⟩, rfl, rfl⟩ := hdecoded.mp hok
      split at h
      · cases h
      · rename_i hagree
        -- the relays agree as one text
        have hrelays := disagreement_eq_none.mp hagree ⟨js "relayIds",
          join X509.BLANK (certificate.relayIds.insertionSort (· ≤ ·)),
          join X509.BLANK (certificate.relayIds.map toWellFormed)⟩ (by
            unfold X509.comparisons X509.certificateFor
            simp)
        rw [hmade.sorted] at hrelays
        have hlengths : certificate.relayIds.map List.length
            = (certificate.relayIds.map toWellFormed).map List.length := by
          rw [List.map_map]
          exact List.map_congr_left fun id _ => (length_toWellFormed id).symm
        have hsame := join_inj_of_lengths hlengths hrelays
        have hmap : certificate.relayIds.map toWellFormed
            = certificate.relayIds.map fun relay => relay := by
          rw [List.map_id']
          exact hsame.symm
        refine ⟨hcount, hids, ?_, hends⟩
        intro relay hrelay
        exact (toWellFormed_eq_iff relay).mp (List.map_inj_left.mp hmap relay hrelay)
  · intro hfits
    have hwhole : certificate.relayIds.map toWellFormed = certificate.relayIds := by
      calc certificate.relayIds.map toWellFormed
          = certificate.relayIds.map (fun relay => relay) := List.map_congr_left
            fun relay hrelay => (toWellFormed_eq_iff relay).mpr (hfits.wellFormed relay hrelay)
        _ = certificate.relayIds := List.map_id' _
    have hok := hdecoded.mpr ⟨⟨hfits.count, hfits.short, hfits.ends⟩, rfl, rfl⟩
    rw [hwhole] at hok
    rw [hok]
    dsimp only
    have hagree := (@disagreement_eq_none p certificate
      (X509.certificateFor (fieldsOf certificate) contents.serial certificate.operatorId
        certificate.relayIds (key.sign (X509.encodeDer
          (X509.tbsTree (fieldsOf certificate) contents))))).mpr (by
      intro d hd
      unfold X509.comparisons at hd
      rw [hmade.sorted] at hd
      simp only [List.mem_cons, List.not_mem_nil, or_false] at hd
      rcases hd with rfl | rfl | rfl | rfl | rfl | rfl | rfl | rfl | rfl
      all_goals rfl)
    have hsameFields : { fieldsOf certificate with
        relayIds := certificate.relayIds.insertionSort (· ≤ ·) } = fieldsOf certificate := by
      rw [hmade.sorted]
      rfl
    have hverifies := key.verifies (X509.encodeDer (X509.tbsTree (fieldsOf certificate) contents))
    rw [hagree]
    dsimp only
    unfold X509.checkTbsBytes
    dsimp only
    rw [hsameFields, htbs, hmade.issuer]
    have hsignature : ∀ signature, (X509.certificateFor (fieldsOf certificate) contents.serial
        certificate.operatorId certificate.relayIds signature).signature = toHex signature :=
      fun _ => rfl
    simp only [Option.bind_eq_bind, Option.bind_some, ne_eq, not_true_eq_false, if_false, hsignature,
      fromHex_toHex, hverifies, if_true]
    rfl

end

/-! ## Everything that is issued -/

theorem made_certify {codec : DagCbor} {key : SigningKey verify} {issuesX509 : Bool}
    {limits : AuthorityOptions} {request : EnrollmentRequest} {now : ℚ} (hnow : 0 ≤ now)
    (hlifetime : 0 < limits.certificateLifetimeMs) :
    Made key (certify (authority codec key issuesX509 limits) request now) where
  operatorId := rfl
  sorted := List.Pairwise.insertionSort_eq (List.pairwise_insertionSort _ request.relayIds)
  issuer := rfl
  started := hnow
  lasts := by
    show now < now + limits.certificateLifetimeMs
    linarith

/-- The order of the identifiers makes no difference. -/
theorem fits_sorted {relayIds : List JsString} {expiresAt : ℚ} :
    Fits (relayIds.insertionSort (· ≤ ·)) expiresAt ↔ Fits relayIds expiresAt := by
  have hperm := List.perm_insertionSort (· ≤ ·) relayIds
  constructor
  · rintro ⟨hcount, hshort, hwell, hends⟩
    rw [hperm.length_eq] at hcount
    exact ⟨hcount, fun id hid => hshort id (hperm.mem_iff.mpr hid),
      fun id hid => hwell id (hperm.mem_iff.mpr hid), hends⟩
  · rintro ⟨hcount, hshort, hwell, hends⟩
    rw [← hperm.length_eq] at hcount
    exact ⟨hcount, fun id hid => hshort id (hperm.mem_iff.mp hid),
      fun id hid => hwell id (hperm.mem_iff.mp hid), hends⟩

/-- A certificate that is issued verifies over all its time against its issuer, exactly where it has
    no X.509 form or the profile has room for it. -/
theorem issued_verifies (p : Platform) (codec : DagCbor)
    {decode : Bytes → Except JsString CanonicalValue} (key : SigningKey verify) (issuesX509 : Bool)
    (limits : AuthorityOptions) (hlifetime : 0 < limits.certificateLifetimeMs) {σ : Type}
    {ledger : IssuanceLedger σ} {history history' : σ} {request : EnrollmentRequest} {now : ℤ}
    (hnow : 0 ≤ now) {certificate : NodeCertificate}
    (hissued : enrolOrThrow p (authority codec key issuesX509 limits)
      (formsEncode codec key issuesX509) ledger history ⟨request, now⟩
        = some (history', .issued certificate))
    (hreads : ReadsBack decode (operatorIdFor request.userKey)
      (request.relayIds.insertionSort (· ≤ ·))) :
    (∀ t, certificate.issuedAt ≤ t → t < certificate.expiresAt →
      X509.verifyCertificate p decode verify codec certificate [toHex key.publicKey] t
        = some none) ↔
      (issuesX509 = true → Fits request.relayIds (now + limits.certificateLifetimeMs)) := by
  obtain ⟨hcertificate, hencodes⟩ := certified_of_issued hissued
  have hmade : Made key certificate := by
    rw [hcertificate]
    exact made_certify (by exact_mod_cast hnow) hlifetime
  rw [formsEncode, Bool.and_eq_true, Bool.or_eq_true, Bool.not_eq_true'] at hencodes
  obtain ⟨payload, hpayload⟩ := Option.isSome_iff_exists.mp hencodes.1
  -- over its time the form decides
  have hform : (∀ t, certificate.issuedAt ≤ t → t < certificate.expiresAt →
      X509.verifyCertificate p decode verify codec certificate [toHex key.publicKey] t = some none) ↔
      X509.checkX509Form p decode verify certificate = some none := by
    constructor
    · intro h
      have hnonempty := hmade.lasts
      exact (verifies_iff_form hcertificate hpayload (le_refl _) hnonempty).mp
        (h _ (le_refl _) hnonempty)
    · intro h t hstarted hunexpired
      exact (verifies_iff_form hcertificate hpayload hstarted hunexpired).mpr h
  rw [hform]
  cases hissues : issuesX509 with
  | false =>
    have hnone : certificate.x509 = none := by
      rw [hcertificate, hissues]
      rfl
    have hpasses : X509.checkX509Form p decode verify certificate = some none := by
      unfold X509.checkX509Form
      rw [hnone]
    exact ⟨fun _ h => (by cases h), fun _ => hpasses⟩
  | true =>
    have hencoded : (x509FormOf key certificate).isSome = true := by
      rcases hencodes.2 with hfalse | hsome
      · rw [hissues] at hfalse
        cases hfalse
      · exact hsome
    obtain ⟨form, hsome⟩ := Option.isSome_iff_exists.mp hencoded
    have hx509 : certificate.x509 = some (toHex form) := by
      have hmap : certificate.x509
          = some (toHex ((x509FormOf key certificate).getD [])) := by
        rw [hcertificate, hissues]
        rfl
      rw [hmap, hsome]
      rfl
    have hreads' : ReadsBack decode certificate.operatorId certificate.relayIds := by
      rw [hcertificate]
      exact hreads
    rw [form_checks_iff hmade hreads' hsome hx509, hcertificate]
    have hsorted : Fits (certify (authority codec key issuesX509 limits) request now).relayIds
        (certify (authority codec key issuesX509 limits) request now).expiresAt
        ↔ Fits request.relayIds (now + limits.certificateLifetimeMs) := fits_sorted
    rw [hsorted]
    exact ⟨fun h _ => h, fun h => h rfl⟩

/-! ## Requests -/

def oneSignature : SigningKey (fun _ _ _ => true) where
  publicKey := List.replicate 32 1
  sign _ := List.replicate 64 7
  publicKey_length := List.length_replicate
  sign_length _ := List.length_replicate
  verifies _ := rfl

/-- A codec for values without doubles and links. -/
def plainCodec : DagCbor := ⟨fun _ => [], fun _ => []⟩

def hourly : AuthorityOptions where
  keys := authorityKeys plainCodec oneSignature true
  maxIssuedPerWindow := .issuesWithoutAnAggregateBudget

def relayed (relayIds : List JsString) : EnrollmentRequest where
  nodeKey := List.replicate 64 0x61
  userKey := List.replicate 64 0x62
  operatorId := operatorIdFor (List.replicate 64 0x62)
  discoverability := .viaRelay
  relayIds := relayIds
  proofOfPossession := []
  ownerProof := []
  freshness := .answersNoChallenge

/-- One relay: the certificate verifies to the end of its hour. -/
theorem issued_verifies_relayed :
    ∃ certificate : NodeCertificate, certificate.x509 ≠ none ∧
      ∀ t, certificate.issuedAt ≤ t → t < certificate.expiresAt →
        X509.verifyCertificate plain
          (X509.readsBack (operatorIdFor (List.replicate 64 0x62)) [js "relay"]) (fun _ _ _ => true)
          plainCodec certificate [toHex (List.replicate 32 1)] t = some none := by
  have hanswer : (enrolOrThrow plain (authority plainCodec oneSignature true hourly)
      (formsEncode plainCodec oneSignature true) InProcessIssuance.ledger .new
      ⟨relayed [js "relay"], 1700000000000⟩).map Prod.snd
      = some (.issued (certify (authority plainCodec oneSignature true hourly)
        (relayed [js "relay"]) (1700000000000 : ℤ))) := by
    decide +kernel
  obtain ⟨⟨history', result⟩, hissued, rfl⟩ := Option.map_eq_some_iff.mp hanswer
  have hoperator : toWellFormed (operatorIdFor (List.replicate 64 0x62))
      = operatorIdFor (List.replicate 64 0x62) := by
    decide
  have hrelay : toWellFormed (js "relay") = js "relay" := by decide
  have hother : cborTexts [js "relay"] ≠ cborText (operatorIdFor (List.replicate 64 0x62)) := by
    decide
  have hreads : ReadsBack (X509.readsBack (operatorIdFor (List.replicate 64 0x62)) [js "relay"])
      (operatorIdFor (relayed [js "relay"]).userKey)
      ((relayed [js "relay"]).relayIds.insertionSort (· ≤ ·)) := by
    refine ⟨?_, ?_⟩
    · show X509.readsBack _ _ (cborText (operatorIdFor (List.replicate 64 0x62))) = _
      rw [X509.readsBack_text]
      exact congrArg (fun text => Except.ok (CanonicalValue.text text)) hoperator.symm
    · show X509.readsBack _ _ (cborTexts [js "relay"])
        = .ok (.list ([js "relay"].map fun id => .text (toWellFormed id)))
      rw [X509.readsBack_list hother, List.map_singleton, List.map_singleton, hrelay]
  have hfits : Fits (relayed [js "relay"]).relayIds
      ((1700000000000 : ℤ) + hourly.certificateLifetimeMs) := by
    refine ⟨by decide, ?_, ?_, by decide +kernel⟩
    · exact List.forall_mem_singleton.mpr (by decide +kernel)
    · exact List.forall_mem_singleton.mpr (by decide +kernel)
  refine ⟨_, ?_, (issued_verifies plain plainCodec oneSignature true hourly (by decide +kernel)
    (by decide) hissued hreads).mpr fun _ => hfits⟩
  intro hnone
  cases hnone

/-- Nine relays: the certificate is issued, and its own issuer's verifiers refuse it. -/
theorem ninth_relay_refused :
    ¬ ∀ (verify : (signature : Bytes) → (message : Bytes) → (key : Bytes) → Bool) (p : Platform)
      (codec : DagCbor) (decode : Bytes → Except JsString CanonicalValue) (key : SigningKey verify)
      (issuesX509 : Bool) (limits : AuthorityOptions) (σ : Type) (ledger : IssuanceLedger σ)
      (history history' : σ) (request : EnrollmentRequest) (now : ℤ)
      (certificate : NodeCertificate),
      0 < limits.certificateLifetimeMs → 0 ≤ now →
      enrolOrThrow p (authority codec key issuesX509 limits) (formsEncode codec key issuesX509)
        ledger history ⟨request, now⟩ = some (history', .issued certificate) →
      ReadsBack decode (operatorIdFor request.userKey) (request.relayIds.insertionSort (· ≤ ·)) →
      ∀ t, certificate.issuedAt ≤ t → t < certificate.expiresAt →
        X509.verifyCertificate p decode verify codec certificate [toHex key.publicKey] t
          = some none := by
  intro hclaim
  have hanswer : (enrolOrThrow plain (authority plainCodec oneSignature true hourly)
      (formsEncode plainCodec oneSignature true) InProcessIssuance.ledger .new
      ⟨relayed (List.replicate 9 (js "relay")), 1700000000000⟩).map Prod.snd
      = some (.issued (certify (authority plainCodec oneSignature true hourly)
        (relayed (List.replicate 9 (js "relay"))) (1700000000000 : ℤ))) := by
    decide +kernel
  obtain ⟨⟨history', result⟩, hissued, rfl⟩ := Option.map_eq_some_iff.mp hanswer
  have hoperator : toWellFormed (operatorIdFor (List.replicate 64 0x62))
      = operatorIdFor (List.replicate 64 0x62) := by
    decide
  have hrelay : toWellFormed (js "relay") = js "relay" := by decide
  have hother : cborTexts (List.replicate 9 (js "relay"))
      ≠ cborText (operatorIdFor (List.replicate 64 0x62)) := by
    decide
  have hreads : ReadsBack
      (X509.readsBack (operatorIdFor (List.replicate 64 0x62)) (List.replicate 9 (js "relay")))
      (operatorIdFor (relayed (List.replicate 9 (js "relay"))).userKey)
      ((relayed (List.replicate 9 (js "relay"))).relayIds.insertionSort (· ≤ ·)) := by
    refine ⟨?_, ?_⟩
    · show X509.readsBack _ _ (cborText (operatorIdFor (List.replicate 64 0x62))) = _
      rw [X509.readsBack_text]
      exact congrArg (fun text => Except.ok (CanonicalValue.text text)) hoperator.symm
    · show X509.readsBack _ _ (cborTexts (List.replicate 9 (js "relay")))
        = .ok (.list ((List.replicate 9 (js "relay")).map fun id => .text (toWellFormed id)))
      rw [X509.readsBack_list hother, List.map_replicate, List.map_replicate, hrelay]
  have hverified := hclaim (fun _ _ _ => true) plain plainCodec _ oneSignature true hourly _ _ _ _ _
    _ _ (by decide +kernel) (by decide) hissued hreads 1700000000000 (le_refl _) (by decide +kernel)
  have hrefused : X509.verifyCertificate plain
      (X509.readsBack (operatorIdFor (List.replicate 64 0x62)) (List.replicate 9 (js "relay")))
      (fun _ _ _ => true) plainCodec
      (certify (authority plainCodec oneSignature true hourly)
        (relayed (List.replicate 9 (js "relay"))) (1700000000000 : ℤ))
      [toHex (List.replicate 32 1)] 1700000000000 ≠ some none := by
    decide +kernel
  exact hrefused hverified

end O2Fabric.EnrollmentAuthority
