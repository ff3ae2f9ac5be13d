/-
  O2Fabric.Core.X509

  The certificate profile: `decodeX509Certificate`, from the tree that was read
  to the fields, with every refusal by name.

  `dagCbor.decode` is a parameter: the value, or the message of what it throws.
-/

import O2Fabric.Core.Canonical
import O2Fabric.Core.X509.Der
import O2Fabric.Js.Date
import O2Fabric.Js.Json
import O2Fabric.Js.Utf8

namespace O2Fabric.X509

def MAX_CERTIFICATE_BYTES : Nat := 4096

def MAX_EXTENSION_BYTES : Nat := 2048

def MAX_EXTENSION_COUNT : Nat := 8

/-- The project's own arc: a 128-bit number under `2.25`. -/
def X509_EXTENSION_ARC : JsString := js "2.25.90646451481742754111882377486934486044"

def EXT_USER_KEY : JsString := X509_EXTENSION_ARC ++ js ".1"

def EXT_OPERATOR_ID : JsString := X509_EXTENSION_ARC ++ js ".2"

def EXT_DISCOVERABILITY : JsString := X509_EXTENSION_ARC ++ js ".3"

def EXT_RELAY_IDS : JsString := X509_EXTENSION_ARC ++ js ".4"

def ID_ED25519 : JsString := js "1.3.101.112"

def ID_AT_COMMON_NAME : JsString := js "2.5.4.3"

def MAX_OPERATOR_ID_BYTES : Nat := 64

def MAX_RELAY_ID_COUNT : Nat := 8

def MAX_RELAY_ID_BYTES : Nat := 128

def preParseCheck (bytes : Bytes) : Option X509Failure :=
  if MAX_CERTIFICATE_BYTES < bytes.length then
    some (.certificateTooLarge bytes.length MAX_CERTIFICATE_BYTES)
  else none

/-! ## Contents -/

/-- `'.'`. -/
def DOT : CodeUnit := 0x2E

/-- The further arcs: seven bits an octet, high bits first.  What does not end is not an arc. -/
def arcsFrom : (value : Nat) → Bytes → List Nat
  | _, [] => []
  | value, byte :: rest =>
    let value := value * 128 + (byte.val &&& 0x7F)
    if byte.val &&& 0x80 = 0 then value :: arcsFrom 0 rest else arcsFrom value rest

/-- An object identifier in dotted decimal. -/
def decodeOid (bytes : Bytes) : JsString :=
  match bytes with
  | [] => []
  | first :: rest =>
    join DOT (decimal (first.val / 40) :: decimal (first.val % 40)
      :: (arcsFrom 0 rest).map decimal)

/-- `Number(text)` of two digits. -/
def twoDigits (tens ones : CodeUnit) : Nat := 10 * (tens.val - 48) + (ones.val - 48)

/-- `YYMMDDHHMMSSZ` as a time, `none` for any other shape. -/
def parseUtcTime (content : Bytes) : Option ℤ :=
  match textDecoder content with
  | [y, y', m, m', d, d', h, h', mi, mi', s, s', z] =>
    if [y, y', m, m', d, d', h, h', mi, mi', s, s'].all Json.isDigit ∧ z = 0x5A then
      let yy := twoDigits y y'
      let year : ℤ := if 50 ≤ yy then 1900 + yy else 2000 + yy
      some (dateUTC year ((twoDigits m m' : ℤ) - 1) (twoDigits d d') (twoDigits h h')
        (twoDigits mi mi') (twoDigits s s'))
    else none
  | _ => none

/-- The version's number.  It is read without a sign. -/
def readSmallInteger (content : Bytes) : Nat := numberOfBytes content

/-! ## Names and algorithms -/

/-- The common name of a name that is nothing else. -/
def readName (node : Option DerNode) : Except X509Failure JsString :=
  let expected := malformed
    (js "expected a Name SEQUENCE containing exactly one RelativeDistinguishedName") 0
  match node with
  | none => .error expected
  | some node =>
    if node.tag ≠ 0x30 then .error expected
    else
      match node.children with
      | [rdn] =>
        if rdn.tag ≠ 0x31 then
          .error (malformed (js "expected a RelativeDistinguishedName SET") 0)
        else
          match rdn.children with
          | [] => .error (malformed (js "expected a RelativeDistinguishedName SET") 0)
          | [atv] =>
            let pair := malformed
              (js "expected an AttributeTypeAndValue SEQUENCE with exactly two children") 0
            if atv.tag ≠ 0x30 then .error pair
            else
              match atv.children with
              | [typeNode, valueNode] =>
                if typeNode.tag ≠ 0x06 ∨ decodeOid typeNode.content ≠ ID_AT_COMMON_NAME then
                  .error (malformed
                    (js "expected id-at-commonName as the AttributeTypeAndValue.type") 0)
                else if valueNode.tag ≠ 0x0C then
                  .error (malformed
                    (js "AttributeTypeAndValue.value must be UTF8String") 0)
                else .ok (textDecoder valueNode.content)
              | _ => .error pair
          | _ => .error .multiValuedRdn
      | _ => .error expected

/-- Ed25519, and no parameters. -/
def checkAlgorithm (node : DerNode) : Option X509Failure :=
  match node.children with
  | [] => some (malformed (js "expected an OBJECT IDENTIFIER as AlgorithmIdentifier.algorithm") 0)
  | oidNode :: parameters =>
    if oidNode.tag ≠ 0x06 then
      some (malformed (js "expected an OBJECT IDENTIFIER as AlgorithmIdentifier.algorithm") 0)
    else if decodeOid oidNode.content ≠ ID_ED25519 then
      some (.unrecognisedAlgorithm (decodeOid oidNode.content))
    else if parameters ≠ [] then
      some (.algorithmParametersPresent (decodeOid oidNode.content))
    else none

/-! ## Extensions -/

structure ExtensionFields where
  userKey : JsString := []
  operatorId : JsString := []
  discoverability : Discoverability := .seed
  relayIds : List JsString := []
  deriving DecidableEq

structure RawExtension where
  extnId : JsString
  extnValue : Bytes
  deriving DecidableEq

/-- The identifier and the value of one extension, whatever it says of being critical. -/
def parseExtension (ext : DerNode) : Except X509Failure RawExtension :=
  let read (extnIdNode extnValueNode : DerNode) : Except X509Failure RawExtension :=
    if extnIdNode.tag ≠ 0x06 then
      .error (malformed (js "expected Extension.extnID OBJECT IDENTIFIER") 0)
    else if extnValueNode.tag ≠ 0x04 then
      .error (malformed (js "expected Extension.extnValue OCTET STRING") 0)
    else .ok ⟨decodeOid extnIdNode.content, extnValueNode.content⟩
  if ext.tag ≠ 0x30 then .error (malformed (js "expected an Extension SEQUENCE") 0)
  else
    match ext.children with
    | [extnIdNode, extnValueNode] => read extnIdNode extnValueNode
    | [extnIdNode, criticalNode, extnValueNode] =>
      if criticalNode.tag ≠ 0x01 then
        .error (malformed (js "expected Extension.critical BOOLEAN") 0)
      else read extnIdNode extnValueNode
    | _ => .error (malformed (js "expected an Extension SEQUENCE with 2 or 3 children") 0)

def parseEach : List DerNode → Except X509Failure (List RawExtension)
  | [] => .ok []
  | ext :: rest =>
    match parseExtension ext with
    | .error failure => .error failure
    | .ok raw =>
      match parseEach rest with
      | .error failure => .error failure
      | .ok more => .ok (raw :: more)

/-- The extensions in the first node of the wrapper. -/
def parseExtensionList (extensionsNode : DerNode) : Except X509Failure (List RawExtension) :=
  let expected := malformed
    (js "expected an Extensions SEQUENCE inside the [3] EXPLICIT wrapper") 0
  match extensionsNode.children with
  | [] => .error expected
  | wrapped :: _ => if wrapped.tag ≠ 0x30 then .error expected else parseEach wrapped.children

/-- The texts of a list of nothing else. -/
def texts : List CanonicalValue → Option (List JsString)
  | [] => some []
  | .text text :: rest => (texts rest).map (text :: ·)
  | _ :: _ => none

/-- The first identifier that is too long, as a refusal. -/
def tooLong (oid : JsString) : List JsString → Option X509Failure
  | [] => none
  | id :: rest =>
    if MAX_RELAY_ID_BYTES < (textEncoder id).length then
      some (.extensionTooLarge oid (textEncoder id).length MAX_RELAY_ID_BYTES)
    else tooLong oid rest

section

variable (decode : Bytes → Except JsString CanonicalValue)

def readOperatorId (ext : RawExtension) : Except X509Failure JsString :=
  match decode ext.extnValue with
  | .error message =>
    .error (malformed (js "operatorId extension is not valid dag-cbor: " ++ message) 0)
  | .ok (.text decoded) =>
    if MAX_OPERATOR_ID_BYTES < (textEncoder decoded).length then
      .error (.extensionTooLarge ext.extnId (textEncoder decoded).length MAX_OPERATOR_ID_BYTES)
    else .ok decoded
  | .ok _ => .error (malformed (js "operatorId extension must decode to a string") 0)

def readRelayIds (ext : RawExtension) : Except X509Failure (List JsString) :=
  let expected := malformed (js "relayIds extension must decode to an array of strings") 0
  match decode ext.extnValue with
  | .error message =>
    .error (malformed (js "relayIds extension is not valid dag-cbor: " ++ message) 0)
  | .ok (.list items) =>
    match texts items with
    | none => .error expected
    | some decoded =>
      if MAX_RELAY_ID_COUNT < decoded.length then
        .error (.extensionTooLarge ext.extnId decoded.length MAX_RELAY_ID_COUNT)
      else
        match tooLong ext.extnId decoded with
        | some failure => .error failure
        | none => .ok decoded
  | .ok _ => .error expected

/-- What one extension says, over what those before it said. -/
def readExtension (ext : RawExtension) (fields : ExtensionFields) :
    Except X509Failure ExtensionFields :=
  if ext.extnId = EXT_USER_KEY then
    if ext.extnValue.length ≠ 32 then
      .error (malformed (js "userKey extension must be exactly 32 raw bytes") 0)
    else .ok { fields with userKey := toHex ext.extnValue }
  else if ext.extnId = EXT_OPERATOR_ID then
    match readOperatorId decode ext with
    | .error failure => .error failure
    | .ok decoded => .ok { fields with operatorId := decoded }
  else if ext.extnId = EXT_DISCOVERABILITY then
    if ext.extnValue = [0x00] then .ok { fields with discoverability := .seed }
    else if ext.extnValue = [0x01] then .ok { fields with discoverability := .viaRelay }
    else .error (malformed (js "discoverability extension must be a single 0x00 or 0x01 byte") 0)
  else if ext.extnId = EXT_RELAY_IDS then
    match readRelayIds decode ext with
    | .error failure => .error failure
    | .ok decoded => .ok { fields with relayIds := decoded }
  else .error (.unrecognisedExtension ext.extnId)

def readEach : (seen : List JsString) → List RawExtension → ExtensionFields →
    Except X509Failure ExtensionFields
  | _, [], fields => .ok fields
  | seen, ext :: rest, fields =>
    if ext.extnId ∈ seen then .error (.duplicateExtension ext.extnId)
    else if MAX_EXTENSION_BYTES < ext.extnValue.length then
      .error (.extensionTooLarge ext.extnId ext.extnValue.length MAX_EXTENSION_BYTES)
    else
      match readExtension decode ext fields with
      | .error failure => .error failure
      | .ok fields => readEach (ext.extnId :: seen) rest fields

def readExtensions (extensionsNode : DerNode) : Except X509Failure ExtensionFields :=
  match parseExtensionList extensionsNode with
  | .error failure => .error failure
  | .ok list =>
    if MAX_EXTENSION_COUNT < list.length then
      .error (.tooManyExtensions list.length MAX_EXTENSION_COUNT)
    else readEach decode [] list {}

end

/-! ## The part that is signed -/

/-- The version, which may be left out, and what comes after it. -/
def readVersion (children : List DerNode) : Except X509Failure (Nat × List DerNode) :=
  match children with
  | [] => .ok (0, [])
  | first :: rest =>
    if first.tag = 0xA0 then
      let expected := malformed (js "expected version INTEGER wrapped by [0] EXPLICIT") 0
      match first.children with
      | [] => .error expected
      | inner :: _ =>
        if inner.tag ≠ 0x02 then .error expected else .ok (readSmallInteger inner.content, rest)
    else .ok (0, first :: rest)

def readSerialNumber (node : Option DerNode) : Except X509Failure JsString :=
  match node.filter fun node => decide (node.tag = 0x02) with
  | none => .error (malformed (js "expected serialNumber INTEGER") 0)
  | some serialNode => .ok (toHex serialNode.content)

def checkTbsAlgorithm (node : Option DerNode) : Except X509Failure Unit :=
  match node.filter fun node => decide (node.tag = 0x30) with
  | none =>
    .error (malformed (js "expected TBSCertificate.signature AlgorithmIdentifier SEQUENCE") 0)
  | some tbsAlgNode =>
    match checkAlgorithm tbsAlgNode with
    | some failure => .error failure
    | none => .ok ()

def readValidity (node : Option DerNode) : Except X509Failure (ℤ × ℤ) :=
  let expected := malformed (js "expected Validity SEQUENCE with notBefore and notAfter") 0
  match node.filter fun node => decide (node.tag = 0x30) with
  | none => .error expected
  | some validityNode =>
    match validityNode.children with
    | [notBeforeNode, notAfterNode] =>
      if notBeforeNode.tag = 0x18 ∨ notAfterNode.tag = 0x18 then .error .generalizedTimePresent
      else if notBeforeNode.tag ≠ 0x17 ∨ notAfterNode.tag ≠ 0x17 then
        .error (malformed (js "expected UTCTime for notBefore/notAfter") 0)
      else
        match parseUtcTime notBeforeNode.content, parseUtcTime notAfterNode.content with
        | some notBefore, some notAfter => .ok (notBefore, notAfter)
        | _, _ => .error (malformed (js "malformed UTCTime content") 0)
    | _ => .error expected

def readSubjectPublicKey (node : Option DerNode) : Except X509Failure JsString :=
  let expected := malformed
    (js "expected SubjectPublicKeyInfo SEQUENCE with algorithm and subjectPublicKey") 0
  match node.filter fun node => decide (node.tag = 0x30) with
  | none => .error expected
  | some spkiNode =>
    match spkiNode.children with
    | [spkiAlgNode, spkiKeyNode] =>
      if spkiAlgNode.tag ≠ 0x30 then
        .error (malformed
          (js "expected SubjectPublicKeyInfo.algorithm AlgorithmIdentifier SEQUENCE") 0)
      else
        match checkAlgorithm spkiAlgNode with
        | some failure => .error failure
        | none =>
          if spkiKeyNode.tag ≠ 0x03 ∨ spkiKeyNode.content.length ≠ 33 then
            .error (malformed
              (js "expected a 32-byte Ed25519 key in subjectPublicKey BIT STRING "
                ++ js "(33 bytes with the unused-bits octet)") 0)
          else .ok (toHex (spkiKeyNode.content.drop 1))
    | _ => .error expected

structure TbsFields where
  version : Nat
  serialNumber : JsString
  issuerCommonName : JsString
  notBefore : ℤ
  notAfter : ℤ
  subjectCommonName : JsString
  subjectPublicKey : JsString
  extensionsNode : Option DerNode

/-- The grammar by position.  A unique identifier is looked for in one place, and nothing is asked
    of what follows the extensions, or of what is there in their place. -/
def assembleTbs (tbs : DerNode) : Except X509Failure TbsFields := do
  let (version, children) ← readVersion tbs.children
  let serialNumber ← readSerialNumber children[0]?
  checkTbsAlgorithm children[1]?
  let issuerCommonName ← readName children[2]?
  let (notBefore, notAfter) ← readValidity children[3]?
  let subjectCommonName ← readName children[4]?
  let subjectPublicKey ← readSubjectPublicKey children[5]?
  if children[6]?.any fun node => decide (node.tag = 0x81 ∨ node.tag = 0x82) then
    .error .uniqueIdentifierPresent
  else
    .ok { version, serialNumber, issuerCommonName, notBefore, notAfter, subjectCommonName,
          subjectPublicKey,
          extensionsNode := children[6]?.filter fun node => decide (node.tag = 0xA3) }

/-! ## Certificates -/

structure X509Certificate where
  version : Nat
  serialNumber : JsString
  issuerCommonName : JsString
  notBefore : ℤ
  notAfter : ℤ
  subjectCommonName : JsString
  subjectPublicKey : JsString
  userKey : JsString
  operatorId : JsString
  discoverability : Discoverability
  relayIds : List JsString
  signature : JsString
  deriving DecidableEq

def describeX509Failure : X509Failure → JsString
  | .certificateTooLarge bytes limit =>
    js "certificate is " ++ decimal bytes ++ js " bytes, more than the " ++ decimal limit
      ++ js " allowed"
  | .malformedDer detail offset =>
    js "malformed DER at offset " ++ decimal offset ++ js ": " ++ detail
  | .unrecognisedAlgorithm oid =>
    js "algorithm OID " ++ oid ++ js " is not id-Ed25519 (" ++ ID_ED25519
      ++ js "), the only algorithm this profile accepts"
  | .algorithmParametersPresent oid =>
    js "algorithm OID " ++ oid
      ++ js " carries a parameters field, which RFC 8410 §10 requires be absent"
  | .nonCanonicalEncoding reason => js "certificate is not canonical DER: " ++ reason
  | .extensionTooLarge oid bytes limit =>
    js "extension " ++ oid ++ js " is " ++ decimal bytes ++ js ", more than the " ++ decimal limit
      ++ js " allowed"
  | .tooManyExtensions count limit =>
    js "certificate carries " ++ decimal count ++ js " extensions, more than the "
      ++ decimal limit ++ js " allowed"
  | .duplicateExtension oid => js "extension " ++ oid ++ js " appears more than once"
  | .unrecognisedExtension oid =>
    js "extension " ++ oid ++ js " is not one of this profile's four recognised extensions"
  | .uniqueIdentifierPresent =>
    js "certificate carries an issuerUniqueID or subjectUniqueID, which RFC 5280 §4.1.2.8 forbids"
  | .multiValuedRdn =>
    js "issuer or subject Name's RelativeDistinguishedName carries more than one "
      ++ js "AttributeTypeAndValue"
  | .generalizedTimePresent =>
    js "notBefore or notAfter uses GeneralizedTime instead of the UTCTime this profile requires"

/-- The extensions of a certificate that may have none. -/
def readOptionalExtensions (decode : Bytes → Except JsString CanonicalValue) :
    (extensionsNode : Option DerNode) → Except X509Failure ExtensionFields
  | none => .ok {}
  | some extensionsNode => readExtensions decode extensionsNode

def certificateOf (tbs : TbsFields) (extensions : ExtensionFields) (sigNode : DerNode) :
    X509Certificate where
  version := tbs.version
  serialNumber := tbs.serialNumber
  issuerCommonName := tbs.issuerCommonName
  notBefore := tbs.notBefore
  notAfter := tbs.notAfter
  subjectCommonName := tbs.subjectCommonName
  subjectPublicKey := tbs.subjectPublicKey
  userKey := extensions.userKey
  operatorId := extensions.operatorId
  discoverability := extensions.discoverability
  relayIds := extensions.relayIds
  signature := toHex (sigNode.content.drop 1)

/-- The tree as a certificate: its three parts, and the fields of the first. -/
def assembleCertificate (decode : Bytes → Except JsString CanonicalValue) (root : DerNode) :
    Except X509Failure (X509Certificate × DerNode) :=
  let expected := malformed (js "expected a Certificate SEQUENCE with exactly 3 children "
    ++ js "(tbsCertificate, signatureAlgorithm, signatureValue)") 0
  if root.tag ≠ 0x30 then .error expected
  else
    match root.children with
    | [tbsNode, outerAlgNode, sigNode] =>
      if tbsNode.tag ≠ 0x30 then .error (malformed (js "expected TBSCertificate SEQUENCE") 0)
      else
        match assembleTbs tbsNode with
        | .error failure => .error failure
        | .ok tbs =>
          if outerAlgNode.tag ≠ 0x30 then
            .error (malformed
              (js "expected Certificate.signatureAlgorithm AlgorithmIdentifier SEQUENCE") 0)
          else
            match checkAlgorithm outerAlgNode with
            | some failure => .error failure
            | none =>
              if sigNode.tag ≠ 0x03 ∨ sigNode.content.length ≠ 65 then
                .error (malformed
                  (js "expected a 64-byte Ed25519 signature in signatureValue BIT STRING "
                    ++ js "(65 bytes with the unused-bits octet)") 0)
              else
                match readOptionalExtensions decode tbs.extensionsNode with
                | .error failure => .error failure
                | .ok extensions => .ok (certificateOf tbs extensions sigNode, tbsNode)
    | _ => .error expected

/-- The certificate's fields, and the bytes that a signature over it is taken over. -/
def decodeX509Certificate (decode : Bytes → Except JsString CanonicalValue) (bytes : Bytes) :
    Except X509Failure (X509Certificate × Bytes) :=
  match preParseCheck bytes with
  | some failure => .error failure
  | none =>
    match decodeDer bytes with
    | .error failure => .error failure
    | .ok root =>
      match assembleCertificate decode root with
      | .error failure => .error failure
      | .ok (certificate, tbsNode) =>
        -- asked last, so that a refusal by name comes first
        if checkDerCanonical bytes then .ok (certificate, encodeDer tbsNode)
        else
          .error (.nonCanonicalEncoding
            (js "the certificate is not byte-identical to its own canonical DER re-encoding"))

end O2Fabric.X509
