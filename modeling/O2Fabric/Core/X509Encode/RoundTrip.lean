/-
  O2Fabric.Core.X509Encode.RoundTrip

  What the issuing half writes, the profile reads: the fields again, with the
  relay identifiers sorted, the times on their second and the serial number in
  its fewest octets.
-/

import O2Fabric.Core.X509Encode.Reading

namespace O2Fabric.X509

section

variable {fields : X509EncodableFields} {contents : TbsContents} {signature : Bytes}
  {decode : Bytes → Except JsString CanonicalValue}

/-- A certificate for the fields, with what was read of its serial number, its operator and its
    relays. -/
def certificateFor (fields : X509EncodableFields) (serial : Bytes) (operatorId : JsString)
    (relayIds : List JsString) (signature : Bytes) : X509Certificate where
  version := 2
  serialNumber := toHex serial
  issuerCommonName := fields.issuer
  notBefore := wholeSecond fields.issuedAt
  notAfter := wholeSecond fields.expiresAt
  subjectCommonName := fields.nodeKey
  subjectPublicKey := fields.nodeKey
  userKey := fields.userKey
  operatorId := operatorId
  discoverability := fields.discoverability
  relayIds := relayIds
  signature := toHex signature

/-- The tree is a certificate where its times are times and its relays are read. -/
theorem assemble_certificateTree (h : contents.Of fields) (hsignature : signature.length = 64)
    {operatorId : JsString}
    (hoperator : readOperatorId decode ⟨EXT_OPERATOR_ID, cborText fields.operatorId⟩
      = .ok operatorId)
    (hsize : (cborText fields.operatorId).length ≤ MAX_EXTENSION_BYTES)
    {certificate : X509Certificate} {tbsNode : DerNode} :
    assembleCertificate decode (certificateTree fields contents signature)
        = .ok (certificate, tbsNode) ↔
      isTime (wholeSecond fields.issuedAt) = true ∧ isTime (wholeSecond fields.expiresAt) = true ∧
      (cborTexts (sortedRelayIds fields)).length ≤ MAX_EXTENSION_BYTES ∧
      tbsNode = tbsTree fields contents ∧
      ∃ relayIds, readRelayIds decode ⟨EXT_RELAY_IDS, cborTexts (sortedRelayIds fields)⟩
          = .ok relayIds ∧
        certificate = certificateFor fields contents.serial operatorId relayIds signature := by
  rw [assembleCertificate_iff]
  constructor
  · rintro ⟨-, -, outer, sig, tbs, extensions, hchildren, hread, -, -, -, -, hextensions, rfl⟩
    cases hchildren
    obtain ⟨hissued, hexpires, rfl⟩ := (assembleTbs_tbsTree h).mp hread
    obtain ⟨hids, relayIds, hrelays, rfl⟩ := (readExtensions_tree h hoperator hsize).mp hextensions
    exact ⟨hissued, hexpires, hids, rfl, relayIds, hrelays, rfl⟩
  · rintro ⟨hissued, hexpires, hids, rfl, relayIds, hrelays, rfl⟩
    have hlength : (DerNode.primitive 0x03 (0x00 :: signature)).content.length = 65 := by
      rw [DerNode.content_primitive, List.length_cons, hsignature]
    exact ⟨rfl, rfl, algorithmOf ed25519Bytes, .primitive 0x03 (0x00 :: signature), _, _, rfl,
      (assembleTbs_tbsTree h).mpr ⟨hissued, hexpires, rfl⟩, rfl, checkAlgorithm_ed25519, rfl, hlength,
      (readExtensions_tree h hoperator hsize).mpr ⟨hids, relayIds, hrelays, rfl⟩, rfl⟩

/-- What was written is accepted where it is not too large, and read as its tree. -/
theorem decode_certificateTree (h : contents.Of fields) {certificate : X509Certificate}
    {tbsBytes : Bytes} :
    decodeX509Certificate decode (encodeDer (certificateTree fields contents signature))
        = .ok (certificate, tbsBytes) ↔
      (encodeDer (certificateTree fields contents signature)).length ≤ MAX_CERTIFICATE_BYTES ∧
      ∃ tbsNode, assembleCertificate decode (certificateTree fields contents signature)
          = .ok (certificate, tbsNode) ∧ tbsBytes = encodeDer tbsNode := by
  obtain ⟨n, -, hserial, -⟩ := serialBytes_some h.serial
  have hread : (encodeDer (certificateTree fields contents signature)).length
        ≤ MAX_CERTIFICATE_BYTES →
      decodeDer (encodeDer (certificateTree fields contents signature))
        = .ok (certificateTree fields contents signature) := by
    intro hsize
    have hdecode := decodeDer_encodeDer certificateTree_profile
      (Nat.lt_of_le_of_lt hsize (by decide))
    rw [certificateTree_canonical hserial.minimal] at hdecode
    exact hdecode
  rw [decodeX509Certificate_iff]
  constructor
  · rintro ⟨hsize, root, tbsNode, hdecode, hassemble, -, rfl⟩
    rw [hread hsize] at hdecode
    cases hdecode
    exact ⟨hsize, tbsNode, hassemble, rfl⟩
  · rintro ⟨hsize, tbsNode, hassemble, rfl⟩
    exact ⟨hsize, _, tbsNode, hread hsize, hassemble, rfl, rfl⟩

end

/-! ## Sizes -/

theorem length_bigEndian (width n : Nat) : (Cbor.bigEndian width n).length = width := by
  induction width generalizing n with
  | zero => rfl
  | succ width ih =>
    rw [Cbor.bigEndian, List.length_append, ih]
    rfl

theorem length_head_small (major : Nat) {n : Nat} (h : n < 256) : (Cbor.head major n).length ≤ 2 := by
  unfold Cbor.head
  split
  · simp
  · rw [List.length_cons, length_bigEndian]

variable {text : JsString}

theorem length_cborText_le {most : Nat} (h : (textEncoder text).length ≤ most) (hsmall : most < 256) :
    (cborText text).length ≤ most + 2 := by
  have hhead := @length_head_small 3 (textEncoder text).length (by omega)
  unfold cborText Cbor.textString
  rw [List.length_append]
  omega

theorem length_flatten_le {lists : List Bytes} {most : Nat}
    (h : ∀ bytes ∈ lists, bytes.length ≤ most) : lists.flatten.length ≤ lists.length * most := by
  induction lists with
  | nil => simp
  | cons bytes lists ih =>
    have hfirst := h bytes List.mem_cons_self
    have hrest := ih fun other hother => h other (List.mem_cons_of_mem _ hother)
    rw [List.flatten_cons, List.length_append, List.length_cons, Nat.succ_mul]
    omega

/-- Eight identifiers of 128 bytes are well within the limit of an extension. -/
theorem length_cborTexts_le {ids : List JsString} (hcount : ids.length ≤ MAX_RELAY_ID_COUNT)
    (hids : ∀ id ∈ ids, (textEncoder id).length ≤ MAX_RELAY_ID_BYTES) :
    (cborTexts ids).length ≤ MAX_EXTENSION_BYTES := by
  have height : ids.length ≤ 8 := hcount
  have hhead := @length_head_small 4 ids.length (by omega)
  have hitems : ∀ bytes ∈ ids.map cborText, bytes.length ≤ 130 := by
    intro bytes hbytes
    obtain ⟨id, hid, rfl⟩ := List.mem_map.mp hbytes
    exact length_cborText_le (hids id hid) (by decide)
  have hflat := length_flatten_le hitems
  rw [List.length_map] at hflat
  unfold cborTexts Cbor.array
  rw [List.length_append, List.length_map]
  show _ ≤ 2048
  omega

theorem sortedRelayIds_mem {fields : X509EncodableFields} {id : JsString} :
    id ∈ sortedRelayIds fields ↔ id ∈ fields.relayIds :=
  (List.perm_insertionSort _ fields.relayIds).mem_iff

theorem length_sortedRelayIds (fields : X509EncodableFields) :
    (sortedRelayIds fields).length = fields.relayIds.length :=
  (List.perm_insertionSort _ fields.relayIds).length_eq

/-- A number below two to the fifty-sixth needs eight octets at most, with its sign. -/
theorem length_serial_le {n : Nat} (h : n < 256 ^ 7) {issuedAt : ℚ} (hn : issuedAt = n)
    {serial : Bytes} (hserial : serialBytes issuedAt = some serial) : serial.length ≤ 8 := by
  obtain ⟨m, hm, -, hlength⟩ := serialBytes_some hserial
  have hsame : m = n := by
    have hcast : (m : ℚ) = (n : ℚ) := hm.symm.trans hn
    exact_mod_cast hcast
  rw [hsame] at hlength
  have hdigits := @BigEndian.length_digits_le 256 n 7 (by omega) h
  omega

section

variable {fields : X509EncodableFields} {contents : TbsContents} {signature : Bytes}

theorem length_textEncoder_key {text : JsString} {bytes : Bytes}
    (h : hexToBytes text = some bytes) : (textEncoder text).length = 2 * bytes.length := by
  obtain ⟨-, hascii, hlength⟩ := hexToBytes_some h
  rw [length_textEncoder hascii, hlength]

/-- A certificate of few and short relay identifiers is within its limit. -/
theorem length_certificateTree_le (h : contents.Of fields) {issuer : Bytes}
    (hissuer : hexToBytes fields.issuer = some issuer) (hissuerLength : issuer.length = 32) {n : Nat}
    (hn : fields.issuedAt = n) (hsmall : n < 256 ^ 7) (hsignature : signature.length = 64)
    (hoperatorId : (textEncoder fields.operatorId).length ≤ MAX_OPERATOR_ID_BYTES)
    (hrelayIds : (cborTexts (sortedRelayIds fields)).length ≤ MAX_EXTENSION_BYTES) :
    (encodeDer (certificateTree fields contents signature)).length ≤ MAX_CERTIFICATE_BYTES := by
  have hissuerName := length_textEncoder_key hissuer
  have hnodeName := length_textEncoder_key h.nodeKey
  have hnodeKey := h.nodeKeyLength
  have hoperator : (cborText fields.operatorId).length ≤ 66 :=
    length_cborText_le hoperatorId (by decide)
  exact length_certificateTree (by omega) (by omega) (length_serial_le hsmall hn h.serial)
    (utcTimeBytes_some h.notBefore).1 (utcTimeBytes_some h.notAfter).1 h.nodeKeyLength
    h.userKeyLength hsignature (by omega) hrelayIds

end

/-! ## The round trip -/

/-- A key in hexadecimal: 64 lowercase digits. -/
def isKeyHex (text : JsString) : Bool := decide (text.length = 64) && text.all isLowerHex

/-- The fields the profile has room for. -/
structure Admissible (fields : X509EncodableFields) (issuedAt : Nat) (expiresAt : ℤ) : Prop where
  nodeKey : isKeyHex fields.nodeKey = true
  userKey : isKeyHex fields.userKey = true
  issuer : isKeyHex fields.issuer = true
  operatorId : (textEncoder fields.operatorId).length ≤ MAX_OPERATOR_ID_BYTES
  relayIdCount : fields.relayIds.length ≤ MAX_RELAY_ID_COUNT
  relayIds : ∀ id ∈ fields.relayIds, (textEncoder id).length ≤ MAX_RELAY_ID_BYTES
  issued : fields.issuedAt = issuedAt
  expires : fields.expiresAt = expiresAt
  issuedYear : 1970 ≤ getUTCFullYear issuedAt ∧ getUTCFullYear issuedAt ≤ 2049
  expiresYear : 1970 ≤ getUTCFullYear expiresAt ∧ getUTCFullYear expiresAt ≤ 2049

theorem hexToBytes_key (h : isKeyHex text = true) :
    ∃ bytes, hexToBytes text = some bytes ∧ bytes.length = 32 := by
  rw [isKeyHex, Bool.and_eq_true] at h
  obtain ⟨hlength, hall⟩ := h
  have hsixtyFour : text.length = 64 := of_decide_eq_true hlength
  have heven : isEvenLowerHex text = true := by
    rw [isEvenLowerHex, Bool.and_eq_true]
    refine ⟨decide_eq_true ?_, hall⟩
    omega
  refine ⟨fromHex text, ?_, ?_⟩
  · unfold hexToBytes
    rw [if_pos heven]
  · rw [length_fromHex, hsixtyFour]

theorem serialBytes_nat (n : Nat) : ∃ serial, serialBytes (n : ℚ) = some serial := by
  have hinteger : (n : ℚ).den = 1 ∧ 0 ≤ (n : ℚ) := ⟨rfl, Nat.cast_nonneg n⟩
  unfold serialBytes
  rw [if_pos hinteger]
  exact ⟨_, rfl⟩

theorem wholeSecond_int (z : ℤ) : wholeSecond (z : ℚ) = z / 1000 * 1000 := by
  have hfloor : ⌊(z : ℚ) / 1000⌋ = z / 1000 := by
    have hdiv := Rat.floor_intCast_div_natCast z 1000
    exact_mod_cast hdiv
  rw [wholeSecond, hfloor]

theorem getUTCFullYear_wholeSecond (z : ℤ) :
    getUTCFullYear (z / 1000 * 1000) = getUTCFullYear z := by
  have hday : z / 1000 * 1000 / 86400000 = z / 86400000 := by omega
  unfold getUTCFullYear dayOfTime
  rw [hday]

/-- The years of two digits lie within a hundred years or so of 1970. -/
theorem day_of_year {day : ℤ} (hyear : 1970 ≤ Calendar.yearOfDay day ∧ Calendar.yearOfDay day ≤ 2049) :
    0 ≤ day ∧ day < 30000 := by
  have hnonneg := Calendar.dayInYear_nonneg day
  have hlt := Calendar.dayInYear_lt day
  have hle : Calendar.dayInYear day < 366 := by
    split at hlt <;> omega
  unfold Calendar.dayInYear Calendar.dayFromYear at hnonneg hle
  omega

theorem utcTimeBytes_int {z : ℤ} (hyear : 1970 ≤ getUTCFullYear z ∧ getUTCFullYear z ≤ 2049) :
    isTime (wholeSecond (z : ℚ)) = true ∧ ∃ content, utcTimeBytes (z : ℚ) = some content := by
  have hday := day_of_year hyear
  unfold dayOfTime at hday
  have htime : isTime (wholeSecond (z : ℚ)) = true := by
    rw [wholeSecond_int]
    apply decide_eq_true
    unfold MAX_TIME
    omega
  refine ⟨htime, ?_⟩
  unfold utcTimeBytes
  dsimp only
  rw [if_pos htime, wholeSecond_int, getUTCFullYear_wholeSecond, if_neg (by omega)]
  exact ⟨_, rfl⟩

theorem contents_of_admissible {fields : X509EncodableFields} {issuedAt : Nat} {expiresAt : ℤ}
    (h : Admissible fields issuedAt expiresAt) : ∃ contents : TbsContents, contents.Of fields := by
  obtain ⟨nodeKey, hnodeKey, hnodeKeyLength⟩ := hexToBytes_key h.nodeKey
  obtain ⟨userKey, huserKey, huserKeyLength⟩ := hexToBytes_key h.userKey
  obtain ⟨issuer, hissuer, -⟩ := hexToBytes_key h.issuer
  obtain ⟨serial, hserial⟩ := serialBytes_nat issuedAt
  obtain ⟨-, notBefore, hnotBefore⟩ := utcTimeBytes_int h.issuedYear
  obtain ⟨-, notAfter, hnotAfter⟩ := utcTimeBytes_int h.expiresYear
  refine ⟨⟨nodeKey, userKey, serial, notBefore, notAfter⟩, hnodeKey, huserKey, hnodeKeyLength,
    huserKeyLength, ⟨issuer, hissuer⟩, ?_, ?_, ?_⟩
  · rw [h.issued]
    exact hserial
  · rw [h.issued]
    exact_mod_cast hnotBefore
  · rw [h.expires]
    exact hnotAfter

/-- Decoding undoes encoding: for fields the profile has room for and a signature, where the codec
    reads back the operator's identity and the sorted relay identifiers, what is written is accepted
    and read as these fields, and what is signed is what was to be signed. -/
theorem decodeX509Certificate_encode {fields : X509EncodableFields} {issuedAt : Nat}
    {expiresAt : ℤ} (hfields : Admissible fields issuedAt expiresAt) {signature : Bytes}
    (hsignature : signature.length = 64) {decode : Bytes → Except JsString CanonicalValue}
    (hoperatorId : decode (cborText fields.operatorId) = .ok (.text fields.operatorId))
    (hrelayIds : decode (cborTexts (sortedRelayIds fields))
      = .ok (.list ((sortedRelayIds fields).map CanonicalValue.text))) :
    ∃ bytes tbsBytes serial, encodeX509Certificate fields signature = some bytes ∧
      encodeX509Tbs fields = some tbsBytes ∧ PositiveInteger issuedAt serial ∧
      decodeX509Certificate decode bytes = .ok (
        { version := 2
          serialNumber := toHex serial
          issuerCommonName := fields.issuer
          notBefore := issuedAt / 1000 * 1000
          notAfter := expiresAt / 1000 * 1000
          subjectCommonName := fields.nodeKey
          subjectPublicKey := fields.nodeKey
          userKey := fields.userKey
          operatorId := fields.operatorId
          discoverability := fields.discoverability
          relayIds := fields.relayIds.insertionSort (· ≤ ·)
          signature := toHex signature }, tbsBytes) := by
  obtain ⟨contents, hcontents⟩ := contents_of_admissible hfields
  have htbs : buildTbs fields = some (tbsTree fields contents) :=
    buildTbs_iff.mpr ⟨contents, hcontents, rfl⟩
  obtain ⟨n, hn, hserial, -⟩ := serialBytes_some hcontents.serial
  have hsame : n = issuedAt := by
    have hcast : (n : ℚ) = (issuedAt : ℚ) := hn.symm.trans hfields.issued
    exact_mod_cast hcast
  rw [hsame] at hserial
  refine ⟨encodeDer (certificateTree fields contents signature), encodeDer (tbsTree fields contents),
    contents.serial, ?_, ?_, hserial, ?_⟩
  · unfold encodeX509Certificate
    rw [htbs, algorithmIdentifier_eq, guard, if_pos hsignature]
    rfl
  · unfold encodeX509Tbs
    rw [htbs]
    rfl
  -- every limit holds
  have hcount : (sortedRelayIds fields).length ≤ MAX_RELAY_ID_COUNT := by
    rw [length_sortedRelayIds]
    exact hfields.relayIdCount
  have hids : ∀ id ∈ sortedRelayIds fields, (textEncoder id).length ≤ MAX_RELAY_ID_BYTES :=
    fun id hid => hfields.relayIds id (sortedRelayIds_mem.mp hid)
  have hextension := length_cborTexts_le hcount hids
  have hoperatorSize : (cborText fields.operatorId).length ≤ MAX_EXTENSION_BYTES :=
    (length_cborText_le hfields.operatorId (by decide)).trans (by decide)
  obtain ⟨issuer, hissuer, hissuerLength⟩ := hexToBytes_key hfields.issuer
  have hday := day_of_year hfields.issuedYear
  unfold dayOfTime at hday
  have hsize := length_certificateTree_le hcontents hissuer hissuerLength hfields.issued
    (by omega) hsignature hfields.operatorId hextension
  -- and every time is one
  have hissued : isTime (wholeSecond fields.issuedAt) = true := by
    rw [hfields.issued]
    exact_mod_cast (utcTimeBytes_int hfields.issuedYear).1
  have hexpires : isTime (wholeSecond fields.expiresAt) = true := by
    rw [hfields.expires]
    exact (utcTimeBytes_int hfields.expiresYear).1
  refine (decode_certificateTree hcontents).mpr ⟨hsize, tbsTree fields contents, ?_, rfl⟩
  refine (assemble_certificateTree hcontents hsignature
    (readOperatorId_ok hoperatorId hfields.operatorId) hoperatorSize).mpr
    ⟨hissued, hexpires, hextension, rfl, sortedRelayIds fields,
      (readRelayIds_iff hrelayIds).mpr ⟨hcount, hids, rfl⟩, ?_⟩
  have hbefore : wholeSecond fields.issuedAt = issuedAt / 1000 * 1000 := by
    rw [hfields.issued]
    exact_mod_cast wholeSecond_int issuedAt
  have hafter : wholeSecond fields.expiresAt = expiresAt / 1000 * 1000 := by
    rw [hfields.expires]
    exact wholeSecond_int expiresAt
  unfold certificateFor sortedRelayIds
  rw [hbefore, hafter]

def readsBack (text : JsString) (list : List JsString) (bytes : Bytes) :
    Except JsString CanonicalValue :=
  if bytes = cborText text then .ok (.text text)
  else if bytes = cborTexts list then .ok (.list (list.map CanonicalValue.text))
  else .error []

theorem readsBack_text (text : JsString) (list : List JsString) :
    readsBack text list (cborText text) = .ok (.text text) := if_pos rfl

theorem readsBack_list {list : List JsString} (h : cborTexts list ≠ cborText text) :
    readsBack text list (cborTexts list) = .ok (.list (list.map CanonicalValue.text)) := by
  unfold readsBack
  rw [if_neg h, if_pos rfl]

/-- Two relays, out of order, and times that are not on a second. -/
def sampleFields : X509EncodableFields where
  nodeKey := List.replicate 64 0x61
  userKey := List.replicate 64 0x62
  operatorId := js "visitor:bbbbbbbbbbbbbbbb"
  discoverability := .viaRelay
  relayIds := [js "relay-2", js "relay-1"]
  issuedAt := 1700000000123
  expiresAt := 1700003600123
  issuer := List.replicate 64 0x63

theorem sampleFields_admissible : Admissible sampleFields 1700000000123 1700003600123 := by
  refine ⟨?_, ?_, ?_, ?_, ?_, ?_, ?_, ?_, ?_, ?_⟩
  · decide
  · decide
  · decide
  · decide
  · decide
  · decide
  · norm_num [sampleFields]
  · norm_num [sampleFields]
  · decide
  · decide

theorem sampleFields_sorted : sortedRelayIds sampleFields = [js "relay-1", js "relay-2"] := by decide

theorem sampleFields_list : readsBack (js "visitor:bbbbbbbbbbbbbbbb") [js "relay-1", js "relay-2"]
    (cborTexts (sortedRelayIds sampleFields))
      = .ok (.list ((sortedRelayIds sampleFields).map CanonicalValue.text)) := by
  have hother : cborTexts [js "relay-1", js "relay-2"] ≠ cborText (js "visitor:bbbbbbbbbbbbbbbb") := by
    decide
  rw [sampleFields_sorted]
  exact readsBack_list hother

theorem decodeX509Certificate_encode_sample :
    ∃ bytes tbsBytes certificate,
      encodeX509Certificate sampleFields (List.replicate 64 7) = some bytes ∧
      decodeX509Certificate
          (readsBack (js "visitor:bbbbbbbbbbbbbbbb") [js "relay-1", js "relay-2"]) bytes
        = .ok (certificate, tbsBytes) ∧
      certificate.relayIds = [js "relay-1", js "relay-2"] ∧
      certificate.notBefore = 1700000000000 := by
  obtain ⟨bytes, tbsBytes, serial, hencode, -, -, hdecode⟩ :=
    decodeX509Certificate_encode sampleFields_admissible (@List.length_replicate (Fin 256) 64 7)
      (readsBack_text _ _) sampleFields_list
  refine ⟨bytes, tbsBytes, _, hencode, hdecode, sampleFields_sorted, ?_⟩
  show ((1700000000123 : Nat) : ℤ) / 1000 * 1000 = 1700000000000
  norm_num

end O2Fabric.X509
