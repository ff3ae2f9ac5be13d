/-
  O2Fabric.Core.X509Encode

  The certificate profile's issuing half: a certificate's fields as a tree, and
  the tree as bytes.

  Each function that throws answers `none` where it does.  `dagCbor.encode` is
  written out for the two kinds of value that it is given here.
-/

import O2Fabric.Core.X509.Canonical
import O2Fabric.Js.Hex
import O2Fabric.Lib.Cbor

namespace O2Fabric.X509

/-- The fields of a node's certificate that its X.509 form carries. -/
structure X509EncodableFields where
  nodeKey : JsString
  userKey : JsString
  operatorId : JsString
  discoverability : Discoverability
  relayIds : List JsString
  issuedAt : ℚ
  expiresAt : ℚ
  issuer : JsString

/-! ## Contents -/

/-- `/[0-9a-f]/`. -/
def isLowerHex (u : CodeUnit) : Bool :=
  decide (0x30 ≤ u.val ∧ u.val ≤ 0x39 ∨ 0x61 ≤ u.val ∧ u.val ≤ 0x66)

/-- `text.length % 2 === 0 && /^[0-9a-f]*$/.test(text)`. -/
def isEvenLowerHex (text : JsString) : Bool := decide (text.length % 2 = 0) && text.all isLowerHex

/-- Bytes from hexadecimal, and from nothing else. -/
def hexToBytes (hex : JsString) : Option Bytes :=
  if isEvenLowerHex hex then some (fromHex hex) else none

/-- `BigInt(part)` of decimal digits; no other text is asked for here. -/
def bigInt (part : JsString) : Option Nat :=
  if part.all Json.isDigit then some (part.foldl (fun n u => 10 * n + (u.val - 48)) 0) else none

/-- Seven bits an octet, high bits first, the high bit set on all but the last. -/
def arcBytes (value : Nat) : Bytes :=
  (BigEndian.digits 128 (value / 128)).map (fun chunk => byteOfNat (chunk ||| 0x80))
    ++ [byteOfNat (value % 128)]

/-- Dotted decimal as the content of an object identifier. -/
def oidBytes (dotted : JsString) : Option Bytes := do
  match ← (dotted.splitOn DOT).mapM bigInt with
  | first :: second :: arcs => some (byteOfNat (first * 40 + second) :: arcs.flatMap arcBytes)
  | _ => none

/-- `String(value).padStart(2, '0')`. -/
def two (value : Nat) : JsString :=
  List.replicate (2 - (decimal value).length) 0x30 ++ decimal value

/-- `Math.floor(ms / 1000) * 1000`. -/
def wholeSecond (ms : ℚ) : ℤ := ⌊ms / 1000⌋ * 1000

/-- `YYMMDDHHMMSSZ`.  No comparison holds of a year that is not a number, so a time that no date
    holds is not refused. -/
def utcTimeBytes (ms : ℚ) : Option Bytes :=
  let time := wholeSecond ms
  if isTime time then
    let year := getUTCFullYear time
    if year < 1950 ∨ 2049 < year then none
    else some (textEncoder (two (year % 100).toNat ++ two (getUTCMonth time + 1)
      ++ two (getUTCDate time) ++ two (getUTCHours time) ++ two (getUTCMinutes time)
      ++ two (getUTCSeconds time) ++ js "Z"))
  else some (textEncoder (js "NaNNaNNaNNaNNaNNaNZ"))

/-- The fewest octets of a positive INTEGER. -/
def serialBytes (issuedAt : ℚ) : Option Bytes :=
  if issuedAt.den = 1 ∧ 0 ≤ issuedAt then
    let digits := (BigEndian.digits 256 issuedAt.num.toNat).map byteOfNat
    let digits := if digits = [] then [0] else digits
    -- an octet in front, where the first would say a negative number
    some (if (digits.headD 0).val &&& 0x80 ≠ 0 then 0 :: digits else digits)
  else none

/-- `dagCbor.encode` of a text. -/
def cborText (text : JsString) : Bytes := Cbor.textString (textEncoder text)

/-- `dagCbor.encode` of a list of texts. -/
def cborTexts (list : List JsString) : Bytes := Cbor.array (list.map cborText)

/-! ## The tree -/

def rdnName (commonName : JsString) : Option DerNode := do
  let oid ← oidBytes ID_AT_COMMON_NAME
  return .constructed 0x30 [.constructed 0x31 [.constructed 0x30
    [.primitive 0x06 oid, .primitive 0x0C (textEncoder commonName)]]]

/-- No parameters, ever. -/
def algorithmIdentifier : Option DerNode := do
  return .constructed 0x30 [.primitive 0x06 (← oidBytes ID_ED25519)]

/-- Two children: what is not critical does not say so. -/
def extension (oid : JsString) (payload : Bytes) : Option DerNode := do
  return .constructed 0x30 [.primitive 0x06 (← oidBytes oid), .primitive 0x04 payload]

def buildTbs (fields : X509EncodableFields) : Option DerNode := do
  let nodeKeyBytes ← hexToBytes fields.nodeKey
  let userKeyBytes ← hexToBytes fields.userKey
  guard (nodeKeyBytes.length = 32)
  guard (userKeyBytes.length = 32)
  let _ ← hexToBytes fields.issuer
  let extensions := [
    ← extension EXT_USER_KEY userKeyBytes,
    ← extension EXT_OPERATOR_ID (cborText fields.operatorId),
    ← extension EXT_DISCOVERABILITY [if fields.discoverability = .seed then 0x00 else 0x01],
    ← extension EXT_RELAY_IDS (cborTexts (fields.relayIds.insertionSort (· ≤ ·)))]
  return .constructed 0x30 [
    .constructed 0xA0 [.primitive 0x02 [0x02]],
    .primitive 0x02 (← serialBytes fields.issuedAt),
    ← algorithmIdentifier,
    ← rdnName fields.issuer,
    .constructed 0x30 [
      .primitive 0x17 (← utcTimeBytes fields.issuedAt),
      .primitive 0x17 (← utcTimeBytes fields.expiresAt)],
    ← rdnName fields.nodeKey,
    .constructed 0x30 [← algorithmIdentifier, .primitive 0x03 (0x00 :: nodeKeyBytes)],
    .constructed 0xA3 [.constructed 0x30 extensions]]

/-- The bytes that a signature is taken over. -/
def encodeX509Tbs (fields : X509EncodableFields) : Option Bytes :=
  (buildTbs fields).map encodeDer

/-- The certificate around a signature that was already taken. -/
def encodeX509Certificate (fields : X509EncodableFields) (signature : Bytes) : Option Bytes := do
  guard (signature.length = 64)
  return encodeDer (.constructed 0x30 [← buildTbs fields, ← algorithmIdentifier,
    .primitive 0x03 (0x00 :: signature)])

end O2Fabric.X509

/-! # Tree

The tree that is built, written out: its contents, that it is in profile and
canonical, and how long it is.
-/

namespace O2Fabric.X509

/-! ## Object identifiers -/

def arcContent : Bytes :=
  [0x69, 0x81, 0x88, 0xB1, 0xEF, 0xC7, 0x8A, 0xDD, 0xD2, 0x99, 0x87, 0xBD, 0xAB, 0xE5, 0x82, 0x8D,
    0x81, 0x90, 0xD8, 0x1C]

def commonNameContent : Bytes := [0x55, 0x04, 0x03]

theorem oidBytes_ed25519 : oidBytes ID_ED25519 = some ed25519Bytes := by decide

theorem oidBytes_commonName : oidBytes ID_AT_COMMON_NAME = some commonNameContent := by
  decide

theorem oidBytes_userKey : oidBytes EXT_USER_KEY = some (arcContent ++ [1]) := by decide

theorem oidBytes_operatorId : oidBytes EXT_OPERATOR_ID = some (arcContent ++ [2]) := by
  decide

theorem oidBytes_discoverability : oidBytes EXT_DISCOVERABILITY = some (arcContent ++ [3]) := by
  decide

theorem oidBytes_relayIds : oidBytes EXT_RELAY_IDS = some (arcContent ++ [4]) := by decide

theorem decodeOid_ed25519 : decodeOid ed25519Bytes = ID_ED25519 := by decide

theorem decodeOid_commonName : decodeOid commonNameContent = ID_AT_COMMON_NAME := by decide

theorem decodeOid_userKey : decodeOid (arcContent ++ [1]) = EXT_USER_KEY := by decide

theorem decodeOid_operatorId : decodeOid (arcContent ++ [2]) = EXT_OPERATOR_ID := by decide

theorem decodeOid_discoverability : decodeOid (arcContent ++ [3]) = EXT_DISCOVERABILITY := by
  decide

theorem decodeOid_relayIds : decodeOid (arcContent ++ [4]) = EXT_RELAY_IDS := by decide

/-! ## The tree -/

def nameNode (commonName : JsString) : DerNode :=
  .constructed 0x30 [.constructed 0x31 [.constructed 0x30
    [.primitive 0x06 commonNameContent, .primitive 0x0C (textEncoder commonName)]]]

def extensionNode (oid payload : Bytes) : DerNode :=
  .constructed 0x30 [.primitive 0x06 oid, .primitive 0x04 payload]

def discoverabilityByte (discoverability : Discoverability) : Fin 256 :=
  if discoverability = .seed then 0x00 else 0x01

/-- The relay identifiers, in the order in which they are written. -/
def sortedRelayIds (fields : X509EncodableFields) : List JsString :=
  fields.relayIds.insertionSort (· ≤ ·)

/-- The contents that are computed from the fields and may not be. -/
structure TbsContents where
  nodeKey : Bytes
  userKey : Bytes
  serial : Bytes
  notBefore : Bytes
  notAfter : Bytes

structure TbsContents.Of (contents : TbsContents) (fields : X509EncodableFields) : Prop where
  nodeKey : hexToBytes fields.nodeKey = some contents.nodeKey
  userKey : hexToBytes fields.userKey = some contents.userKey
  nodeKeyLength : contents.nodeKey.length = 32
  userKeyLength : contents.userKey.length = 32
  issuer : ∃ bytes, hexToBytes fields.issuer = some bytes
  serial : serialBytes fields.issuedAt = some contents.serial
  notBefore : utcTimeBytes fields.issuedAt = some contents.notBefore
  notAfter : utcTimeBytes fields.expiresAt = some contents.notAfter

section

variable (fields : X509EncodableFields) (contents : TbsContents)

def extensionNodes : List DerNode :=
  [extensionNode (arcContent ++ [1]) contents.userKey,
    extensionNode (arcContent ++ [2]) (cborText fields.operatorId),
    extensionNode (arcContent ++ [3]) [discoverabilityByte fields.discoverability],
    extensionNode (arcContent ++ [4]) (cborTexts (sortedRelayIds fields))]

def tbsTree : DerNode :=
  .constructed 0x30 [
    .constructed 0xA0 [.primitive 0x02 [0x02]],
    .primitive 0x02 contents.serial,
    algorithmOf ed25519Bytes,
    nameNode fields.issuer,
    .constructed 0x30 [.primitive 0x17 contents.notBefore, .primitive 0x17 contents.notAfter],
    nameNode fields.nodeKey,
    .constructed 0x30 [algorithmOf ed25519Bytes, .primitive 0x03 (0x00 :: contents.nodeKey)],
    .constructed 0xA3 [.constructed 0x30 (extensionNodes fields contents)]]

def certificateTree (signature : Bytes) : DerNode :=
  .constructed 0x30 [tbsTree fields contents, algorithmOf ed25519Bytes,
    .primitive 0x03 (0x00 :: signature)]

end

variable {fields : X509EncodableFields} {contents : TbsContents} {signature : Bytes}

theorem algorithmIdentifier_eq : algorithmIdentifier = some (algorithmOf ed25519Bytes) := by
  unfold algorithmIdentifier
  rw [oidBytes_ed25519]
  rfl

theorem rdnName_eq (commonName : JsString) : rdnName commonName = some (nameNode commonName) := by
  unfold rdnName
  rw [oidBytes_commonName]
  rfl

theorem extension_eq {oid : JsString} {content : Bytes} (h : oidBytes oid = some content)
    (payload : Bytes) : extension oid payload = some (extensionNode content payload) := by
  unfold extension
  rw [h]
  rfl

theorem of_guard {p : Prop} [Decidable p] {u : Unit} (h : (guard p : Option Unit) = some u) : p := by
  by_cases hp : p
  · exact hp
  · rw [guard, if_neg hp] at h
    cases h

/-- The tree is built where every content is computed, and then it is this one. -/
theorem buildTbs_iff {tbs : DerNode} :
    buildTbs fields = some tbs ↔
      ∃ contents : TbsContents, contents.Of fields ∧ tbs = tbsTree fields contents := by
  have huserKey := extension_eq oidBytes_userKey
  have hoperatorId := extension_eq oidBytes_operatorId
  have hdiscoverability := extension_eq oidBytes_discoverability
  have hrelayIds := extension_eq oidBytes_relayIds
  unfold buildTbs
  simp only [algorithmIdentifier_eq, rdnName_eq, huserKey, hoperatorId, hdiscoverability, hrelayIds,
    Option.bind_eq_bind, Option.bind_some, Option.pure_def]
  constructor
  · intro h
    obtain ⟨nodeKey, hnodeKey, h⟩ := Option.bind_eq_some_iff.mp h
    obtain ⟨userKey, huserKey, h⟩ := Option.bind_eq_some_iff.mp h
    obtain ⟨_, hnodeKeyLength, h⟩ := Option.bind_eq_some_iff.mp h
    obtain ⟨_, huserKeyLength, h⟩ := Option.bind_eq_some_iff.mp h
    obtain ⟨issuer, hissuer, h⟩ := Option.bind_eq_some_iff.mp h
    obtain ⟨serial, hserial, h⟩ := Option.bind_eq_some_iff.mp h
    obtain ⟨notBefore, hnotBefore, h⟩ := Option.bind_eq_some_iff.mp h
    obtain ⟨notAfter, hnotAfter, h⟩ := Option.bind_eq_some_iff.mp h
    cases h
    refine ⟨⟨nodeKey, userKey, serial, notBefore, notAfter⟩, ?_, rfl⟩
    exact ⟨hnodeKey, huserKey, of_guard hnodeKeyLength, of_guard huserKeyLength, ⟨issuer, hissuer⟩, hserial, hnotBefore, hnotAfter⟩
  · rintro ⟨contents, hcontents, rfl⟩
    obtain ⟨issuer, hissuer⟩ := hcontents.issuer
    rw [hcontents.nodeKey, hcontents.userKey, hissuer, hcontents.serial, hcontents.notBefore,
      hcontents.notAfter]
    simp only [Option.bind_some, hcontents.nodeKeyLength, hcontents.userKeyLength]
    rfl

/-! ## The serial number -/

/-- The fewest octets of a number that is not negative. -/
structure PositiveInteger (n : Nat) (content : Bytes) : Prop where
  nonempty : content ≠ []
  minimal : MinimalInteger content
  positive : (content.headD 0).val < 0x80
  value : numberOfBytes content = n

theorem numberOfBytes_zero_cons (bytes : Bytes) :
    numberOfBytes (0 :: bytes) = numberOfBytes bytes := by
  unfold numberOfBytes BigEndian.value
  rw [List.map_cons, BigEndian.valueFrom_cons]
  rfl

/-- The bits of an octet below 128. -/
theorem high_bit (octet : Fin 256) : octet.val &&& 0x80 = 0 ↔ octet.val < 0x80 := by
  have hall : ∀ octet : Fin 256, octet.val &&& 0x80 = 0 ↔ octet.val < 0x80 := by decide +kernel
  exact hall octet

theorem serialBytes_some {issuedAt : ℚ} {serial : Bytes} (h : serialBytes issuedAt = some serial) :
    ∃ n : Nat, issuedAt = n ∧ PositiveInteger n serial ∧
      serial.length ≤ (BigEndian.digits 256 n).length + 1 := by
  unfold serialBytes at h
  by_cases hinteger : issuedAt.den = 1 ∧ 0 ≤ issuedAt
  · rw [if_pos hinteger] at h
    dsimp only at h
    have hnum : 0 ≤ issuedAt.num := Rat.num_nonneg.mpr hinteger.2
    refine ⟨issuedAt.num.toNat, ?_, ?_⟩
    · have hcast : ((issuedAt.num.toNat : ℤ) : ℚ) = (issuedAt.num : ℚ) := by
        rw [Int.toNat_of_nonneg hnum]
      have hwhole : (issuedAt.num : ℚ) = issuedAt := Rat.coe_int_num_of_den_eq_one hinteger.1
      rw [← hwhole, ← hcast]
      rfl
    · have hvalue := numberOfBytes_digits issuedAt.num.toNat
      have hhead := BigEndian.head_digits_ne_zero 256 issuedAt.num.toNat
      have hdigit := fun d => @BigEndian.digit_lt 256 issuedAt.num.toNat d (by omega)
      generalize BigEndian.digits 256 issuedAt.num.toNat = digits at h hvalue hhead hdigit
      cases digits with
      | nil =>
        cases h
        exact ⟨⟨by decide, trivial, by decide, hvalue⟩, by decide⟩
      | cons first rest =>
        have hfirst : first < 256 := hdigit first List.mem_cons_self
        have hne : first ≠ 0 := fun hzero => hhead (by rw [hzero]; rfl)
        have hval : (byteOfNat first).val = first := val_byteOfNat hfirst
        rw [List.map_cons, if_neg (List.cons_ne_nil _ _), List.headD_cons] at h
        by_cases hhigh : (byteOfNat first).val &&& 0x80 ≠ 0
        · rw [if_pos hhigh] at h
          cases h
          refine ⟨⟨List.cons_ne_nil _ _, ?_, Nat.zero_lt_succ _, ?_⟩, ?_⟩
          · rintro (⟨-, hlow⟩ | ⟨hff, -⟩)
            · exact hhigh hlow
            · exact absurd hff (by decide)
          · rw [numberOfBytes_zero_cons]
            exact hvalue
          · rw [List.length_cons, List.length_cons, List.length_map, List.length_cons]
        · rw [if_neg hhigh] at h
          rw [not_not, high_bit] at hhigh
          cases h
          refine ⟨⟨List.cons_ne_nil _ _, ?_, hhigh, hvalue⟩, ?_⟩
          · cases rest with
            | nil => exact trivial
            | cons second others =>
              rintro (⟨hzero, -⟩ | ⟨hff, -⟩)
              · rw [hzero] at hval
                exact hne hval.symm
              · rw [hff] at hhigh
                exact absurd hhigh (by decide)
          · rw [List.length_cons, List.length_map, List.length_cons]
            omega
  · rw [if_neg hinteger] at h
    cases h

/-! ## In profile, and canonical -/

theorem canonicalContent_copied {tag : Fin 256} (hinteger : tag ≠ 0x02) (hbits : tag ≠ 0x03)
    (hboolean : tag ≠ 0x01) (content : Bytes) : canonicalContent tag content = content := by
  unfold canonicalContent
  rw [if_neg hinteger, if_neg hbits, if_neg hboolean]

theorem canonicalContent_whole (data : Bytes) :
    canonicalContent 0x03 (0x00 :: data) = 0x00 :: data := by
  show canonicalizeBitString (0x00 :: data) = _
  rw [canonicalizeBitString_cons, if_pos (Or.inr rfl)]

theorem certificateTree_profile : (certificateTree fields contents signature).Profile := by
  simp [certificateTree, tbsTree, extensionNodes, extensionNode, nameNode, algorithmOf,
    DerNode.Profile, DerNode.ProfileAll, ALLOWED_TAGS, isConstructed]

theorem certificateTree_canonical (hserial : MinimalInteger contents.serial) :
    (certificateTree fields contents signature).canonical
      = certificateTree fields contents signature := by
  have hserial' : canonicalContent 0x02 contents.serial = contents.serial :=
    canonicalizeInteger_of_minimal hserial
  have hversion : canonicalContent 0x02 [0x02] = [0x02] := rfl
  have hkey := canonicalContent_whole contents.nodeKey
  have hsignature := canonicalContent_whole signature
  have hoctets := @canonicalContent_copied 0x04 (by decide) (by decide) (by decide)
  have hoid := @canonicalContent_copied 0x06 (by decide) (by decide) (by decide)
  have htext := @canonicalContent_copied 0x0C (by decide) (by decide) (by decide)
  have htime := @canonicalContent_copied 0x17 (by decide) (by decide) (by decide)
  simp only [certificateTree, tbsTree, extensionNodes, extensionNode, nameNode, algorithmOf,
    DerNode.canonical, DerNode.canonicalAll, hserial', hversion, hkey, hsignature, hoctets, hoid,
    htext, htime]

/-! ## Its size -/

mutual

/-- Five octets more than its content for each node. -/
def weight : DerNode → Nat
  | .primitive _ content => content.length + 5
  | .constructed _ children => weightAll children + 5

def weightAll : List DerNode → Nat
  | [] => 0
  | child :: rest => weight child + weightAll rest

end

theorem length_minimalLength_small {n : Nat} (h : n < 256 ^ 2) : (minimalLength n).length ≤ 3 := by
  unfold minimalLength
  split
  · rw [List.length_singleton]
    omega
  · have hcount : (BigEndian.digits 256 n).length ≤ 2 := BigEndian.length_digits_le (by omega) h
    rw [List.length_cons, List.length_map]
    omega

mutual

/-- Nothing of fewer than two to the sixteen octets needs more for its tags and lengths. -/
theorem length_encodeDer_weight : (node : DerNode) → weight node < 65536 →
    (encodeDer node).length ≤ weight node
  | .primitive tag content => by
    intro hweight
    have hcontent := length_canonicalContent tag content
    have hlength := length_tlv tag (canonicalContent tag content)
    have hbound : content.length + 5 < 65536 := hweight
    have hminimal := @length_minimalLength_small (canonicalContent tag content).length (by omega)
    show (tlv tag (canonicalContent tag content)).length ≤ content.length + 5
    omega
  | .constructed tag children => by
    intro hweight
    have hbound : weightAll children + 5 < 65536 := hweight
    have hchildren := length_encodeAll_weight children (by omega)
    have hlength := length_tlv tag (encodeAll children)
    have hminimal := @length_minimalLength_small (encodeAll children).length (by omega)
    show (tlv tag (encodeAll children)).length ≤ weightAll children + 5
    omega

theorem length_encodeAll_weight : (children : List DerNode) → weightAll children < 65536 →
    (encodeAll children).length ≤ weightAll children
  | [] => fun _ => Nat.le_refl _
  | child :: rest => by
    intro hweight
    have hbound : weight child + weightAll rest < 65536 := hweight
    have hchild := length_encodeDer_weight child (by omega)
    have hrest := length_encodeAll_weight rest (by omega)
    have hsum : (encodeAll (child :: rest)).length
        = (encodeDer child).length + (encodeAll rest).length := List.length_append
    show _ ≤ weight child + weightAll rest
    omega

end

/-- The whole is as long as its contents, and at most so much longer. -/
theorem length_certificateTree (hissuer : (textEncoder fields.issuer).length ≤ 64)
    (hnodeName : (textEncoder fields.nodeKey).length ≤ 64)
    (hserial : contents.serial.length ≤ 8) (hnotBefore : contents.notBefore.length ≤ 32)
    (hnotAfter : contents.notAfter.length ≤ 32) (hnodeKey : contents.nodeKey.length = 32)
    (huserKey : contents.userKey.length = 32) (hsignature : signature.length = 64)
    (hoperatorId : (cborText fields.operatorId).length ≤ 256)
    (hrelayIds : (cborTexts (sortedRelayIds fields)).length ≤ MAX_EXTENSION_BYTES) :
    (encodeDer (certificateTree fields contents signature)).length ≤ MAX_CERTIFICATE_BYTES := by
  have hweight : weight (certificateTree fields contents signature) ≤ 4096 := by
    simp only [MAX_EXTENSION_BYTES] at hrelayIds
    simp only [certificateTree, tbsTree, extensionNodes, extensionNode, nameNode, algorithmOf, weight,
      weightAll, List.length_cons, List.length_nil, arcContent, commonNameContent, ed25519Bytes,
      List.length_append]
    omega
  exact (length_encodeDer_weight _ (by omega)).trans hweight

end O2Fabric.X509
