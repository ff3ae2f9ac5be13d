/-
  O2Fabric.Core.X509Encode.Reading

  What each reader reads of what was written: keys in hexadecimal, times on
  their second, names, and the extensions as far as the codec reads them back.
-/

import O2Fabric.Core.X509Encode

namespace O2Fabric.X509

/-! ## Hexadecimal -/

/-- A lowercase digit is one of the sixteen. -/
theorem lowerHex_digit {u : CodeUnit} (h : isLowerHex u = true) :
    ∃ i : Fin 16, HEX.getD i.val NUL = u := by
  have hall : ∀ k : Fin 128, isLowerHex (Fin.ofNat 65536 k.val) = true →
      ∃ i : Fin 16, HEX.getD i.val NUL = Fin.ofNat 65536 k.val := by
    decide +kernel
  have hranges := of_decide_eq_true h
  have hback : Fin.ofNat 65536 u.val = u := Fin.ext (Nat.mod_eq_of_lt u.isLt)
  have hdigit := hall ⟨u.val, by omega⟩
  dsimp only at hdigit
  rw [hback] at hdigit
  exact hdigit h

/-- What is lowercase hexadecimal is what its bytes are written as. -/
theorem toHex_fromHex : (text : JsString) → isEvenLowerHex text = true →
    toHex (fromHex text) = text
  | [], _ => rfl
  | [_], h => by
    rw [isEvenLowerHex, Bool.and_eq_true] at h
    have hodd : 1 % 2 = 0 := of_decide_eq_true h.1
    omega
  | a :: b :: rest, h => by
    have hpair : ∀ i j : Fin 16,
        byteOf (parseIntHex [HEX.getD i.val NUL, HEX.getD j.val NUL])
          = Fin.ofNat 256 (16 * i.val + j.val) := by
      decide
    rw [isEvenLowerHex, Bool.and_eq_true, List.all_cons, List.all_cons, Bool.and_eq_true,
      Bool.and_eq_true] at h
    obtain ⟨heven, ha, hb, hrest⟩ := h
    have hlength : rest.length % 2 = 0 := by
      have hwhole : (rest.length + 1 + 1) % 2 = 0 := of_decide_eq_true heven
      omega
    have hrestEven : isEvenLowerHex rest = true := by
      rw [isEvenLowerHex, Bool.and_eq_true]
      exact ⟨decide_eq_true hlength, hrest⟩
    obtain ⟨i, rfl⟩ := lowerHex_digit ha
    obtain ⟨j, rfl⟩ := lowerHex_digit hb
    have hbyte := hpair i j
    have hval : (Fin.ofNat 256 (16 * i.val + j.val)).val = 16 * i.val + j.val :=
      Nat.mod_eq_of_lt (by omega)
    have hhigh : (16 * i.val + j.val) / 16 = i.val := by omega
    have hlow : (16 * i.val + j.val) % 16 = j.val := by omega
    have hcons : toHex (fromHex (HEX.getD i.val NUL :: HEX.getD j.val NUL :: rest))
        = HEX.getD ((byteOf (parseIntHex [HEX.getD i.val NUL, HEX.getD j.val NUL])).val / 16) NUL
          :: HEX.getD
            ((byteOf (parseIntHex [HEX.getD i.val NUL, HEX.getD j.val NUL])).val % 16) NUL
          :: toHex (fromHex rest) := rfl
    rw [hcons, hbyte, hval, hhigh, hlow, toHex_fromHex rest hrestEven]

theorem length_fromHex : (text : JsString) → (fromHex text).length = text.length / 2
  | [] => rfl
  | [_] => by simp [fromHex]
  | a :: b :: rest => by
    have ih := length_fromHex rest
    have hcons : (fromHex (a :: b :: rest)).length = (fromHex rest).length + 1 := rfl
    rw [hcons, List.length_cons, List.length_cons]
    omega

theorem isEvenLowerHex_toHex (bytes : Bytes) : isEvenLowerHex (toHex bytes) = true := by
  have hbyte : ∀ byte : Fin 256, isLowerHex (HEX.getD (byte.val / 16) NUL) = true ∧
      isLowerHex (HEX.getD (byte.val % 16) NUL) = true := by
    decide +kernel
  induction bytes with
  | nil => rfl
  | cons byte bytes ih =>
    rw [isEvenLowerHex, Bool.and_eq_true] at ih
    have hcons : toHex (byte :: bytes)
        = HEX.getD (byte.val / 16) NUL :: HEX.getD (byte.val % 16) NUL :: toHex bytes := rfl
    have hlength : (toHex bytes).length % 2 = 0 := of_decide_eq_true ih.1
    rw [hcons, isEvenLowerHex, Bool.and_eq_true]
    constructor
    · apply decide_eq_true
      rw [List.length_cons, List.length_cons]
      omega
    · rw [List.all_cons, List.all_cons, (hbyte byte).1, (hbyte byte).2, ih.2]
      rfl

theorem hexToBytes_some {hex : JsString} {bytes : Bytes} (h : hexToBytes hex = some bytes) :
    toHex bytes = hex ∧ Ascii hex ∧ hex.length = 2 * bytes.length := by
  unfold hexToBytes at h
  by_cases hhex : isEvenLowerHex hex = true
  · rw [if_pos hhex] at h
    cases h
    have hparts := hhex
    rw [isEvenLowerHex, Bool.and_eq_true] at hparts
    have heven : hex.length % 2 = 0 := of_decide_eq_true hparts.1
    refine ⟨toHex_fromHex hex hhex, ?_, ?_⟩
    · intro u hu
      have hrange := of_decide_eq_true (List.all_eq_true.mp hparts.2 u hu)
      omega
    · rw [length_fromHex]
      omega
  · rw [if_neg hhex] at h
    cases h

/-! ## Times -/

/-- Two digits, and what they are read as. -/
theorem two_digits {v : Nat} (h : v < 100) :
    ∃ tens ones : CodeUnit, two v = [tens, ones] ∧ Json.isDigit tens = true ∧
      Json.isDigit ones = true ∧ twoDigits tens ones = v := by
  have hall : ∀ v : Fin 100,
      two v.val = [Fin.ofNat 65536 (48 + v.val / 10), Fin.ofNat 65536 (48 + v.val % 10)] ∧
      Json.isDigit (Fin.ofNat 65536 (48 + v.val / 10)) = true ∧
      Json.isDigit (Fin.ofNat 65536 (48 + v.val % 10)) = true ∧
      twoDigits (Fin.ofNat 65536 (48 + v.val / 10)) (Fin.ofNat 65536 (48 + v.val % 10)) = v.val := by
    decide
  exact ⟨_, _, hall ⟨v, h⟩⟩

theorem ascii_digit {u : CodeUnit} (h : Json.isDigit u = true) : u.val < 0x80 := by
  unfold Json.isDigit at h
  have hrange := of_decide_eq_true h
  omega

/-- A time that a date holds is read back on its second; a time that none holds is not a time. -/
theorem utcTimeBytes_some {ms : ℚ} {content : Bytes} (h : utcTimeBytes ms = some content) :
    content.length ≤ 32 ∧
      parseUtcTime content = if isTime (wholeSecond ms) then some (wholeSecond ms) else none := by
  unfold utcTimeBytes at h
  dsimp only at h
  by_cases htime : isTime (wholeSecond ms) = true
  · rw [if_pos htime] at h ⊢
    have hsecond : wholeSecond ms % 1000 = 0 := Int.mul_emod_left _ _
    generalize wholeSecond ms = time at h hsecond
    have hmonth := getUTCMonth_lt time
    have hdate := getUTCDate_le time
    have hhours := getUTCHours_lt time
    have hminutes := getUTCMinutes_lt time
    have hseconds := getUTCSeconds_lt time
    by_cases hyear : getUTCFullYear time < 1950 ∨ 2049 < getUTCFullYear time
    · rw [if_pos hyear] at h
      cases h
    · rw [if_neg hyear] at h
      cases h
      obtain ⟨y, y', hy, hyd, hyd', hyv⟩ :=
        two_digits (v := (getUTCFullYear time % 100).toNat) (by omega)
      obtain ⟨m, m', hm, hmd, hmd', hmv⟩ := two_digits (v := getUTCMonth time + 1) (by omega)
      obtain ⟨d, d', hd, hdd, hdd', hdv⟩ := two_digits (v := getUTCDate time) (by omega)
      obtain ⟨hh, hh', hhh, hhd, hhd', hhv⟩ := two_digits (v := getUTCHours time) (by omega)
      obtain ⟨mi, mi', hmi, hmid, hmid', hmiv⟩ := two_digits (v := getUTCMinutes time) (by omega)
      obtain ⟨s, s', hs, hsd, hsd', hsv⟩ := two_digits (v := getUTCSeconds time) (by omega)
      have htext : two (getUTCFullYear time % 100).toNat ++ two (getUTCMonth time + 1)
          ++ two (getUTCDate time) ++ two (getUTCHours time) ++ two (getUTCMinutes time)
          ++ two (getUTCSeconds time) ++ js "Z"
          = [y, y', m, m', d, d', hh, hh', mi, mi', s, s', 0x5A] := by
        rw [hy, hm, hd, hhh, hmi, hs]
        rfl
      rw [htext]
      have hdigits : [y, y', m, m', d, d', hh, hh', mi, mi', s, s'].all Json.isDigit = true := by
        simp only [List.all_cons, List.all_nil, hyd, hyd', hmd, hmd', hdd, hdd', hhd, hhd', hmid,
          hmid', hsd, hsd', Bool.and_self]
      have hascii : Ascii [y, y', m, m', d, d', hh, hh', mi, mi', s, s', 0x5A] := by
        intro u hu
        have hsplit : u ∈ [y, y', m, m', d, d', hh, hh', mi, mi', s, s'] ++ [0x5A] := hu
        rcases List.mem_append.mp hsplit with hin | hin
        · exact ascii_digit (List.all_eq_true.mp hdigits u hin)
        · rw [List.mem_singleton.mp hin]
          decide
      refine ⟨?_, ?_⟩
      · rw [length_textEncoder hascii]
        show 13 ≤ 32
        omega
      · unfold parseUtcTime
        rw [textDecoder_textEncoder hascii]
        dsimp only
        rw [if_pos ⟨hdigits, rfl⟩, hyv, hmv, hdv, hhv, hmiv, hsv]
        have hcentury : (if 50 ≤ (getUTCFullYear time % 100).toNat
            then 1900 + ((getUTCFullYear time % 100).toNat : ℤ)
            else 2000 + ((getUTCFullYear time % 100).toNat : ℤ)) = getUTCFullYear time := by
          split <;> omega
        have hpred : ((getUTCMonth time + 1 : Nat) : ℤ) - 1 = getUTCMonth time := by omega
        rw [hcentury, hpred, dateUTC_fields hsecond]
  · rw [if_neg htime] at h ⊢
    cases h
    exact ⟨by decide, by decide⟩

/-! ## Names, keys and extensions -/

theorem checkAlgorithm_ed25519 : checkAlgorithm (algorithmOf ed25519Bytes) = none := by
  decide

theorem readName_nameNode {commonName : JsString} (h : Ascii commonName) :
    readName (some (nameNode commonName)) = .ok commonName := by
  have hread : readName (some (nameNode commonName))
      = if decodeOid commonNameContent ≠ ID_AT_COMMON_NAME then
          .error (malformed (js "expected id-at-commonName as the AttributeTypeAndValue.type") 0)
        else .ok (textDecoder (textEncoder commonName)) := by
    simp [readName, nameNode]
  rw [hread, decodeOid_commonName, if_neg (not_not_intro rfl), textDecoder_textEncoder h]

/-- Both times, or neither. -/
theorem readValidity_times (notBefore notAfter : Bytes) :
    readValidity (some (.constructed 0x30 [.primitive 0x17 notBefore, .primitive 0x17 notAfter]))
      = match parseUtcTime notBefore, parseUtcTime notAfter with
        | some notBefore, some notAfter => .ok (notBefore, notAfter)
        | _, _ => .error (malformed (js "malformed UTCTime content") 0) := rfl

section

variable {fields : X509EncodableFields} {contents : TbsContents} {signature : Bytes}
  {decode : Bytes → Except JsString CanonicalValue}

/-- The signed part is read as the fields where both times are times. -/
theorem assembleTbs_tbsTree (h : contents.Of fields) {tbs : TbsFields} :
    assembleTbs (tbsTree fields contents) = .ok tbs ↔
      isTime (wholeSecond fields.issuedAt) = true ∧ isTime (wholeSecond fields.expiresAt) = true ∧
      tbs =
        { version := 2
          serialNumber := toHex contents.serial
          issuerCommonName := fields.issuer
          notBefore := wholeSecond fields.issuedAt
          notAfter := wholeSecond fields.expiresAt
          subjectCommonName := fields.nodeKey
          subjectPublicKey := fields.nodeKey
          extensionsNode := some
            (.constructed 0xA3 [.constructed 0x30 (extensionNodes fields contents)]) } := by
  obtain ⟨issuer, hissuer⟩ := h.issuer
  have hissuerName := readName_nameNode (hexToBytes_some hissuer).2.1
  have hnodeName := readName_nameNode (hexToBytes_some h.nodeKey).2.1
  have hkeyHex := (hexToBytes_some h.nodeKey).1
  have hnotBefore := (utcTimeBytes_some h.notBefore).2
  have hnotAfter := (utcTimeBytes_some h.notAfter).2
  have hspki : readSubjectPublicKey (some
      (.constructed 0x30 [algorithmOf ed25519Bytes, .primitive 0x03 (0x00 :: contents.nodeKey)]))
      = .ok fields.nodeKey := by
    have hlength : (0x00 :: contents.nodeKey : Bytes).length = 33 := by
      rw [List.length_cons, h.nodeKeyLength]
    have htag : (algorithmOf ed25519Bytes).tag = 0x30 := rfl
    simp [readSubjectPublicKey, Option.filter, htag, checkAlgorithm_ed25519, h.nodeKeyLength,
      hkeyHex]
  have hversion : readVersion (tbsTree fields contents).children
      = .ok (2, (tbsTree fields contents).children.drop 1) := rfl
  have hserial : readSerialNumber (some (.primitive 0x02 contents.serial))
      = .ok (toHex contents.serial) := rfl
  have halgorithm : checkTbsAlgorithm (some (algorithmOf ed25519Bytes)) = .ok () := by
    decide
  have hvalidity : readValidity (some (.constructed 0x30
      [.primitive 0x17 contents.notBefore, .primitive 0x17 contents.notAfter]))
      = if isTime (wholeSecond fields.issuedAt) = true ∧ isTime (wholeSecond fields.expiresAt) = true
        then .ok (wholeSecond fields.issuedAt, wholeSecond fields.expiresAt)
        else .error (malformed (js "malformed UTCTime content") 0) := by
    rw [readValidity_times, hnotBefore, hnotAfter]
    by_cases hbefore : isTime (wholeSecond fields.issuedAt) = true
    · by_cases hafter : isTime (wholeSecond fields.expiresAt) = true
      · simp [hbefore, hafter]
      · simp [hbefore, hafter]
    · simp [hbefore]
  unfold assembleTbs
  rw [hversion]
  simp only [ok_bind, tbsTree, DerNode.children_constructed, List.drop_succ_cons, List.drop_zero,
    List.getElem?_cons_zero, List.getElem?_cons_succ, hserial, halgorithm, hissuerName, hnodeName,
    hspki, hvalidity]
  by_cases hboth : isTime (wholeSecond fields.issuedAt) = true ∧
      isTime (wholeSecond fields.expiresAt) = true
  · rw [if_pos hboth, ok_bind]
    simp [hboth.1, hboth.2, Option.filter, eq_comm]
  · rw [if_neg hboth]
    constructor
    · intro h
      cases h
    · rintro ⟨hbefore, hafter, -⟩
      exact absurd ⟨hbefore, hafter⟩ hboth

/-! ## The extensions -/

theorem parseExtension_extensionNode (oid payload : Bytes) :
    parseExtension (extensionNode oid payload) = .ok ⟨decodeOid oid, payload⟩ := rfl

theorem parse_extensionNodes :
    parseExtensionList (.constructed 0xA3 [.constructed 0x30 (extensionNodes fields contents)])
      = .ok [⟨EXT_USER_KEY, contents.userKey⟩, ⟨EXT_OPERATOR_ID, cborText fields.operatorId⟩,
          ⟨EXT_DISCOVERABILITY, [discoverabilityByte fields.discoverability]⟩,
          ⟨EXT_RELAY_IDS, cborTexts (sortedRelayIds fields)⟩] := by
  simp [parseExtensionList, extensionNodes, parseEach, parseExtension_extensionNode,
    decodeOid_userKey, decodeOid_operatorId, decodeOid_discoverability, decodeOid_relayIds]

/-- The four identifiers are four. -/
theorem extension_ids_nodup :
    [EXT_USER_KEY, EXT_OPERATOR_ID, EXT_DISCOVERABILITY, EXT_RELAY_IDS].Nodup := by
  decide

theorem readExtensions_tree (h : contents.Of fields) {operatorId : JsString}
    (hoperator : readOperatorId decode ⟨EXT_OPERATOR_ID, cborText fields.operatorId⟩
      = .ok operatorId)
    (hsize : (cborText fields.operatorId).length ≤ MAX_EXTENSION_BYTES)
    {extensions : ExtensionFields} :
    readExtensions decode
        (.constructed 0xA3 [.constructed 0x30 (extensionNodes fields contents)]) = .ok extensions ↔
      (cborTexts (sortedRelayIds fields)).length ≤ MAX_EXTENSION_BYTES ∧
      ∃ relayIds, readRelayIds decode ⟨EXT_RELAY_IDS, cborTexts (sortedRelayIds fields)⟩
          = .ok relayIds ∧
        extensions = ⟨fields.userKey, operatorId, fields.discoverability, relayIds⟩ := by
  have hnodup := extension_ids_nodup
  simp only [List.nodup_cons, List.mem_cons, List.not_mem_nil, or_false, not_or,
    List.nodup_nil, and_true, not_false_eq_true] at hnodup
  obtain ⟨⟨h12, h13, h14⟩, ⟨h23, h24⟩, h34⟩ := hnodup
  have huserKeySize : ¬ MAX_EXTENSION_BYTES < contents.userKey.length := by
    rw [h.userKeyLength]
    decide
  have hbyte : readExtension decode
      ⟨EXT_DISCOVERABILITY, [discoverabilityByte fields.discoverability]⟩
      ⟨fields.userKey, operatorId, .seed, []⟩
      = .ok ⟨fields.userKey, operatorId, fields.discoverability, []⟩ := by
    unfold readExtension
    rw [if_neg (Ne.symm h13), if_neg (Ne.symm h23), if_pos rfl]
    cases fields.discoverability with
    | seed => rfl
    | viaRelay => rfl
  have huserKey : readExtension decode ⟨EXT_USER_KEY, contents.userKey⟩ {}
      = .ok ⟨fields.userKey, [], .seed, []⟩ := by
    unfold readExtension
    rw [if_pos rfl, if_neg (not_not_intro h.userKeyLength), (hexToBytes_some h.userKey).1]
  have hoperatorId : readExtension decode ⟨EXT_OPERATOR_ID, cborText fields.operatorId⟩
      ⟨fields.userKey, [], .seed, []⟩ = .ok ⟨fields.userKey, operatorId, .seed, []⟩ := by
    unfold readExtension
    rw [if_neg (Ne.symm h12), if_pos rfl, hoperator]
  have hfour : ¬ MAX_EXTENSION_COUNT < 4 := by decide
  have hone : ¬ MAX_EXTENSION_BYTES < 1 := by decide
  unfold readExtensions
  rw [parse_extensionNodes]
  dsimp only [List.length_cons, List.length_nil]
  rw [if_neg hfour, readEach, if_neg List.not_mem_nil, if_neg huserKeySize, huserKey]
  dsimp only
  rw [readEach, if_neg (by simp [Ne.symm h12]), if_neg (Nat.not_lt.mpr hsize), hoperatorId]
  dsimp only
  rw [readEach, if_neg (by simp [Ne.symm h13, Ne.symm h23]), List.length_singleton, if_neg hone,
    hbyte]
  dsimp only
  rw [readEach, if_neg (by simp [Ne.symm h14, Ne.symm h24, Ne.symm h34])]
  dsimp only
  by_cases hids : MAX_EXTENSION_BYTES < (cborTexts (sortedRelayIds fields)).length
  · rw [if_pos hids]
    constructor
    · intro h
      cases h
    · rintro ⟨hle, -⟩
      omega
  · rw [if_neg hids, readExtension, if_neg (Ne.symm h14), if_neg (Ne.symm h24),
      if_neg (Ne.symm h34), if_pos rfl]
    cases hread : readRelayIds decode ⟨EXT_RELAY_IDS, cborTexts (sortedRelayIds fields)⟩ with
    | error failure =>
      constructor
      · intro h
        cases h
      · rintro ⟨-, relayIds, h, -⟩
        cases h
    | ok relayIds =>
      constructor
      · intro h
        cases h
        exact ⟨by omega, relayIds, rfl, rfl⟩
      · rintro ⟨-, relayIds', h, rfl⟩
        cases h
        rfl

/-- The operator's identity, where the codec reads it back and it is not too long. -/
theorem readOperatorId_ok {operatorId read : JsString}
    (hdecode : decode (cborText operatorId) = .ok (.text read))
    (hshort : (textEncoder read).length ≤ MAX_OPERATOR_ID_BYTES) :
    readOperatorId decode ⟨EXT_OPERATOR_ID, cborText operatorId⟩ = .ok read := by
  unfold readOperatorId
  dsimp only
  rw [hdecode]
  dsimp only
  rw [if_neg (by omega)]

theorem texts_map (ids : List JsString) : texts (ids.map CanonicalValue.text) = some ids := by
  induction ids with
  | nil => rfl
  | cons id ids ih =>
    rw [List.map_cons, texts, ih]
    rfl

theorem tooLong_eq_none {oid : JsString} {ids : List JsString} :
    tooLong oid ids = none ↔ ∀ id ∈ ids, (textEncoder id).length ≤ MAX_RELAY_ID_BYTES := by
  induction ids with
  | nil => simp [tooLong]
  | cons id ids ih =>
    rw [tooLong, List.forall_mem_cons]
    by_cases hlong : MAX_RELAY_ID_BYTES < (textEncoder id).length
    · rw [if_pos hlong]
      constructor
      · intro h
        cases h
      · rintro ⟨hshort, -⟩
        omega
    · rw [if_neg hlong, ih]
      constructor
      · intro hrest
        exact ⟨by omega, hrest⟩
      · rintro ⟨-, hrest⟩
        exact hrest

/-- The relay identifiers as the codec reads them back, where they are few and short. -/
theorem readRelayIds_iff {written read relayIds : List JsString}
    (hdecode : decode (cborTexts written) = .ok (.list (read.map CanonicalValue.text))) :
    readRelayIds decode ⟨EXT_RELAY_IDS, cborTexts written⟩ = .ok relayIds ↔
      read.length ≤ MAX_RELAY_ID_COUNT ∧
      (∀ id ∈ read, (textEncoder id).length ≤ MAX_RELAY_ID_BYTES) ∧ relayIds = read := by
  unfold readRelayIds
  dsimp only
  rw [hdecode]
  dsimp only
  rw [texts_map]
  dsimp only
  by_cases hmany : MAX_RELAY_ID_COUNT < read.length
  · rw [if_pos hmany]
    constructor
    · intro h
      cases h
    · rintro ⟨hfew, -⟩
      omega
  · rw [if_neg hmany, ← @tooLong_eq_none EXT_RELAY_IDS]
    cases hlong : tooLong EXT_RELAY_IDS read with
    | some failure =>
      constructor
      · intro h
        cases h
      · rintro ⟨-, h, -⟩
        cases h
    | none =>
      constructor
      · intro h
        cases h
        exact ⟨by omega, rfl, rfl⟩
      · rintro ⟨-, -, rfl⟩
        rfl

end

end O2Fabric.X509
