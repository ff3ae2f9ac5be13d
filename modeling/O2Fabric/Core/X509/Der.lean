/-
  O2Fabric.Core.X509.Der

  The bounded reader of tags, lengths and contents, and the writer that gives a
  tree its one canonical form.

  The reader takes lengths that are longer than they need be, and contents as
  they are: what is not canonical is found by writing the tree again.  A number
  that is too large for any input is written with all its digits in a refusal.
-/

import O2Fabric.Core.Platform
import O2Fabric.Lib.BigEndian

namespace O2Fabric.X509

/-- One tag, length and content: bytes, or what is constructed of others. -/
inductive DerNode
  | primitive (tag : Fin 256) (content : Bytes)
  | constructed (tag : Fin 256) (children : List DerNode)

namespace DerNode

def tag : DerNode → Fin 256
  | .primitive tag _ => tag
  | .constructed tag _ => tag

/-- Empty for a constructed node. -/
def content : DerNode → Bytes
  | .primitive _ content => content
  | .constructed _ _ => []

/-- Empty for a primitive node. -/
def children : DerNode → List DerNode
  | .primitive _ _ => []
  | .constructed _ children => children

section

variable (t : Fin 256) (bytes : Bytes) (nodes : List DerNode)

@[simp] theorem tag_primitive : (primitive t bytes).tag = t := rfl

@[simp] theorem tag_constructed : (constructed t nodes).tag = t := rfl

@[simp] theorem content_primitive : (primitive t bytes).content = bytes := rfl

@[simp] theorem children_constructed : (constructed t nodes).children = nodes := rfl

end

end DerNode

/-- Every refusal, with what it names. -/
inductive X509Failure
  | certificateTooLarge (bytes limit : Nat)
  | malformedDer (detail : JsString) (offset : Nat)
  | unrecognisedAlgorithm (oid : JsString)
  | algorithmParametersPresent (oid : JsString)
  | nonCanonicalEncoding (reason : JsString)
  | extensionTooLarge (oid : JsString) (bytes limit : Nat)
  | tooManyExtensions (count limit : Nat)
  | duplicateExtension (oid : JsString)
  | unrecognisedExtension (oid : JsString)
  | uniqueIdentifierPresent
  | multiValuedRdn
  | generalizedTimePresent
  deriving DecidableEq

/-- SEQUENCE, SET, INTEGER, BIT STRING, OCTET STRING, NULL, OBJECT IDENTIFIER, UTCTime,
    GeneralizedTime, BOOLEAN, UTF8String, `[1]`, `[2]`, `[0]` and `[3]`. -/
def ALLOWED_TAGS : List (Fin 256) :=
  [0x30, 0x31, 0x02, 0x03, 0x04, 0x05, 0x06, 0x17, 0x18, 0x01, 0x0C, 0x81, 0x82, 0xA0, 0xA3]

def isHighTagNumberForm (tagByte : Fin 256) : Bool := tagByte.val &&& 0x1F == 0x1F

/-- The bit that is set for what is constructed. -/
def isConstructed (tagByte : Fin 256) : Bool := tagByte.val &&& 0x20 != 0

def malformed (detail : JsString) (offset : Nat) : X509Failure := .malformedDer detail offset

/-- `n.toString(16)` of a byte. -/
def hexOfByte (byte : Fin 256) : JsString :=
  if byte.val < 16 then [HEX.getD byte.val NUL] else toHex [byte]

/-- The number bytes stand for, high byte first. -/
def numberOfBytes (bytes : Bytes) : Nat := BigEndian.value 256 (bytes.map Fin.val)

/-- `bytes.subarray(start, stop)`. -/
def subarray (bytes : Bytes) (start stop : Nat) : Bytes := (bytes.take stop).drop start

/-- What the tag and the length say: where the content starts, and where it ends. -/
structure TlvHeader where
  tag : Fin 256
  contentOffset : Nat
  contentEnd : Nat
  deriving DecidableEq

/-- The length octets: the length, and where the content starts. -/
def readLength (bytes : Bytes) (lengthOffset limit : Nat) : Except X509Failure (Nat × Nat) :=
  if limit ≤ lengthOffset then
    .error (malformed (js "truncated input: expected a length octet") lengthOffset)
  else
    let firstLengthByte := (bytes.getD lengthOffset 0).val
    if firstLengthByte = 0x80 then
      .error (malformed (js "indefinite-length form (0x80) is BER-only; DER forbids it")
        lengthOffset)
    else if firstLengthByte ≤ 0x7F then .ok (firstLengthByte, lengthOffset + 1)
    else
      let byteCount := firstLengthByte &&& 0x7F
      let lengthBytesStart := lengthOffset + 1
      let lengthBytesEnd := lengthBytesStart + byteCount
      if limit < lengthBytesEnd then
        .error (malformed (js "truncated input: declared long-form length runs past the buffer")
          lengthBytesStart)
      else .ok (numberOfBytes (subarray bytes lengthBytesStart lengthBytesEnd), lengthBytesEnd)

/-- `readTlv` up to the content. -/
def readHeader (bytes : Bytes) (offset limit : Nat) : Except X509Failure TlvHeader :=
  if limit ≤ offset then
    .error (malformed (js "truncated input: expected a tag byte") offset)
  else
    let tagByte := bytes.getD offset 0
    if isHighTagNumberForm tagByte then
      .error (malformed (js "high-tag-number form is out of profile (tag byte 0x"
        ++ hexOfByte tagByte ++ js ")") offset)
    else if tagByte ∉ ALLOWED_TAGS then
      .error (malformed (js "tag byte 0x" ++ hexOfByte tagByte
        ++ js " is not in this profile's 12 allowed tags") offset)
    else
      match readLength bytes (offset + 1) limit with
      | .error failure => .error failure
      | .ok (contentLength, contentOffset) =>
        if limit < contentOffset + contentLength then
          .error (malformed (js "declared length " ++ decimal contentLength
            ++ js " runs past the end of the buffer") contentOffset)
        else .ok ⟨tagByte, contentOffset, contentOffset + contentLength⟩

mutual

/-- Read one node from `offset`, never at or past `limit`, and where the next starts.  `depth`
    bounds the descent; what a window's length allows is never used up. -/
def readTlv : (depth : Nat) → Bytes → (offset limit : Nat) → Except X509Failure (DerNode × Nat)
  | 0, _, offset, _ => .error (malformed [] offset)
  | depth + 1, bytes, offset, limit =>
    match readHeader bytes offset limit with
    | .error failure => .error failure
    | .ok header =>
      if isConstructed header.tag then
        match readChildren depth bytes header.contentOffset header.contentEnd with
        | .error failure => .error failure
        | .ok children => .ok (.constructed header.tag children, header.contentEnd)
      else
        .ok (.primitive header.tag (subarray bytes header.contentOffset header.contentEnd),
          header.contentEnd)

def readChildren : (depth : Nat) → Bytes → (childOffset contentEnd : Nat) →
    Except X509Failure (List DerNode)
  | 0, _, childOffset, _ => .error (malformed [] childOffset)
  | depth + 1, bytes, childOffset, contentEnd =>
    if childOffset < contentEnd then
      match readTlv depth bytes childOffset contentEnd with
      | .error failure => .error failure
      | .ok (child, next) =>
        match readChildren depth bytes next contentEnd with
        | .error failure => .error failure
        | .ok rest => .ok (child :: rest)
    else .ok []

end

/-- Decode one tree.  What follows it is not read. -/
def decodeDer (bytes : Bytes) : Except X509Failure DerNode :=
  (readTlv (bytes.length + 1) bytes 0 bytes.length).map Prod.fst

/-- The low byte of a number. -/
def byteOfNat (n : Nat) : Fin 256 := Fin.ofNat 256 n

/-- The fewest octets for a length: one up to 127, and otherwise a count and digits. -/
def minimalLength (contentLength : Nat) : Bytes :=
  if contentLength ≤ 0x7F then [byteOfNat contentLength]
  else
    let lengthBytes := BigEndian.digits 256 contentLength
    byteOfNat (0x80 ||| lengthBytes.length) :: lengthBytes.map byteOfNat

/-- The minimal two's complement form: leading octets that only repeat the sign are left out. -/
def canonicalizeInteger : Bytes → Bytes
  | leading :: next :: rest =>
    if leading = 0x00 ∧ next.val &&& 0x80 = 0 ∨ leading = 0xFF ∧ next.val &&& 0x80 ≠ 0 then
      canonicalizeInteger (next :: rest)
    else leading :: next :: rest
  | content => content

/-- `(0xff << unusedBits) & 0xff`: a shift takes the low five bits of its count. -/
def unusedMask (unusedBits : Nat) : Nat := (0xFF <<< (unusedBits % 32)) &&& 0xFF

/-- The padding bits of the last octet are zero. -/
def canonicalizeBitString : Bytes → Bytes
  | [] => []
  | unusedBits :: data =>
    if data = [] ∨ unusedBits = 0 then unusedBits :: data
    else
      unusedBits :: (data.dropLast
        ++ [byteOfNat ((data.getLastD 0).val &&& unusedMask unusedBits.val)])

/-- One octet, all bits alike.  No octet is taken for a zero. -/
def canonicalizeBoolean (content : Bytes) : Bytes := [if content.headD 0 ≠ 0 then 0xFF else 0x00]

def canonicalContent (tag : Fin 256) (content : Bytes) : Bytes :=
  if tag = 0x02 then canonicalizeInteger content
  else if tag = 0x03 then canonicalizeBitString content
  else if tag = 0x01 then canonicalizeBoolean content
  else content

def tlv (tag : Fin 256) (content : Bytes) : Bytes :=
  tag :: (minimalLength content.length ++ content)

mutual

def encodeDer : DerNode → Bytes
  | .primitive tag content => tlv tag (canonicalContent tag content)
  | .constructed tag children => tlv tag (encodeAll children)

def encodeAll : List DerNode → Bytes
  | [] => []
  | child :: rest => encodeDer child ++ encodeAll rest

end

/-- The bytes are what their tree is written as. -/
def checkDerCanonical (bytes : Bytes) : Bool :=
  match decodeDer bytes with
  | .error _ => false
  | .ok node => decide (encodeDer node = bytes)

end O2Fabric.X509
