/-
  O2Fabric.Core.X509.Canonical

  The canonical form of a tree, and that writing a tree is reading its canonical
  form: what the writer writes is read back, and is written the same again.
-/

import O2Fabric.Core.X509
import O2Fabric.Core.X509.Grammar
import O2Fabric.Lib.Fallible

namespace O2Fabric.X509

/-! ## Canonical contents -/

theorem byteOfNat_val (byte : Fin 256) : byteOfNat byte.val = byte :=
  Fin.ext (Nat.mod_eq_of_lt byte.isLt)

variable {n : Nat}

theorem val_byteOfNat (h : n < 256) : (byteOfNat n).val = n := Nat.mod_eq_of_lt h

/-- No leading octet only repeats the sign. -/
def MinimalInteger : Bytes → Prop
  | leading :: next :: _ =>
    ¬ (leading = 0x00 ∧ next.val &&& 0x80 = 0 ∨ leading = 0xFF ∧ next.val &&& 0x80 ≠ 0)
  | _ => True

theorem minimalInteger_canonicalize (content : Bytes) :
    MinimalInteger (canonicalizeInteger content) := by
  induction content with
  | nil => exact trivial
  | cons leading rest ih =>
    cases rest with
    | nil => exact trivial
    | cons next rest =>
      unfold canonicalizeInteger
      split
      · exact ih
      · next hkept => exact hkept

theorem canonicalizeInteger_of_minimal {content : Bytes} (h : MinimalInteger content) :
    canonicalizeInteger content = content := by
  match content, h with
  | [], _ => rfl
  | [_], _ => rfl
  | leading :: next :: rest, h =>
    unfold canonicalizeInteger
    exact if_neg h

theorem length_canonicalizeInteger (content : Bytes) :
    (canonicalizeInteger content).length ≤ content.length := by
  induction content with
  | nil => exact Nat.le_refl _
  | cons leading rest ih =>
    cases rest with
    | nil => exact Nat.le_refl _
    | cons next rest =>
      unfold canonicalizeInteger
      split
      · exact ih.trans (Nat.le_succ _)
      · exact Nat.le_refl _

/-- The bits a mask leaves are left by it again. -/
theorem byteOfNat_and_and (octet : Fin 256) (mask : Nat) :
    byteOfNat ((byteOfNat (octet.val &&& mask)).val &&& mask) = byteOfNat (octet.val &&& mask) := by
  have hlt : octet.val &&& mask < 256 := Nat.lt_of_le_of_lt Nat.and_le_left octet.isLt
  rw [val_byteOfNat hlt, Nat.and_assoc, Nat.and_self]

theorem canonicalizeBitString_cons (unusedBits : Fin 256) (data : Bytes) :
    canonicalizeBitString (unusedBits :: data)
      = if data = [] ∨ unusedBits = 0 then unusedBits :: data
        else unusedBits :: (data.dropLast
          ++ [byteOfNat ((data.getLastD 0).val &&& unusedMask unusedBits.val)]) := rfl

theorem canonicalizeBitString_idem (content : Bytes) :
    canonicalizeBitString (canonicalizeBitString content) = canonicalizeBitString content := by
  cases content with
  | nil => rfl
  | cons unusedBits data =>
    rw [canonicalizeBitString_cons]
    by_cases hwhole : data = [] ∨ unusedBits = 0
    · rw [if_pos hwhole, canonicalizeBitString_cons, if_pos hwhole]
    · have hagain : ¬ (data.dropLast
          ++ [byteOfNat ((data.getLastD 0).val &&& unusedMask unusedBits.val)] = [] ∨
            unusedBits = 0) := by
        rintro (hempty | hzero)
        · exact absurd hempty (List.append_ne_nil_of_right_ne_nil _ (List.cons_ne_nil _ _))
        · exact hwhole (Or.inr hzero)
      rw [if_neg hwhole, canonicalizeBitString_cons, if_neg hagain, List.dropLast_concat,
        List.getLastD_concat, byteOfNat_and_and]

theorem length_canonicalizeBitString (content : Bytes) :
    (canonicalizeBitString content).length = content.length := by
  cases content with
  | nil => rfl
  | cons unusedBits data =>
    rw [canonicalizeBitString_cons]
    by_cases hwhole : data = [] ∨ unusedBits = 0
    · rw [if_pos hwhole]
    · have hdata : 0 < data.length := List.length_pos_of_ne_nil fun h => hwhole (Or.inl h)
      rw [if_neg hwhole]
      simp only [List.length_cons, List.length_append, List.length_dropLast, List.length_nil]
      omega

theorem canonicalizeBoolean_idem (content : Bytes) :
    canonicalizeBoolean (canonicalizeBoolean content) = canonicalizeBoolean content := by
  unfold canonicalizeBoolean
  split <;> decide

theorem canonicalContent_idem (tag : Fin 256) (content : Bytes) :
    canonicalContent tag (canonicalContent tag content) = canonicalContent tag content := by
  unfold canonicalContent
  by_cases hinteger : tag = 0x02
  · rw [if_pos hinteger, if_pos hinteger]
    exact canonicalizeInteger_of_minimal (minimalInteger_canonicalize content)
  · rw [if_neg hinteger, if_neg hinteger]
    by_cases hbits : tag = 0x03
    · rw [if_pos hbits, if_pos hbits]
      exact canonicalizeBitString_idem content
    · rw [if_neg hbits, if_neg hbits]
      by_cases hboolean : tag = 0x01
      · rw [if_pos hboolean, if_pos hboolean]
        exact canonicalizeBoolean_idem content
      · rw [if_neg hboolean, if_neg hboolean]

/-- Only a BOOLEAN without an octet grows, by one. -/
theorem length_canonicalContent (tag : Fin 256) (content : Bytes) :
    (canonicalContent tag content).length ≤ content.length + 1 := by
  have hinteger := length_canonicalizeInteger content
  have hbits := length_canonicalizeBitString content
  unfold canonicalContent canonicalizeBoolean
  split
  · omega
  · split
    · omega
    · split
      · rw [List.length_singleton]
        omega
      · omega

/-! ## Minimal lengths -/

theorem numberOfBytes_digits (n : Nat) :
    numberOfBytes ((BigEndian.digits 256 n).map byteOfNat) = n := by
  have hdigits : ((BigEndian.digits 256 n).map byteOfNat).map Fin.val = BigEndian.digits 256 n := by
    rw [List.map_map]
    calc (BigEndian.digits 256 n).map (Fin.val ∘ byteOfNat)
        = (BigEndian.digits 256 n).map id := List.map_congr_left fun d hd =>
          val_byteOfNat (BigEndian.digit_lt (by omega) hd)
      _ = BigEndian.digits 256 n := List.map_id _
  rw [numberOfBytes, hdigits, BigEndian.value_digits]

theorem or_128 (h : n < 128) : 0x80 ||| n = 128 + n := by
  have hsum := Nat.two_pow_add_eq_or_of_lt (i := 7) h 1
  exact hsum.symm

theorem lengthOctets_minimal (h : n < 256 ^ 127) : LengthOctets n (minimalLength n) := by
  unfold minimalLength
  by_cases hshort : n ≤ 0x7F
  · rw [if_pos hshort]
    exact Or.inl ⟨byteOfNat n, rfl, val_byteOfNat (by omega), hshort⟩
  · rw [if_neg hshort]
    have hcount : (BigEndian.digits 256 n).length ≤ 127 := BigEndian.length_digits_le (by omega) h
    have hpos : 0 < (BigEndian.digits 256 n).length :=
      List.length_pos_of_ne_nil (BigEndian.digits_ne_nil (by omega))
    refine Or.inr ⟨_, _, rfl, ?_, ?_, numberOfBytes_digits n⟩
    · rw [List.length_map]
      exact hpos
    · rw [List.length_map, or_128 (by omega)]
      exact val_byteOfNat (by omega)

/-- A length that an index can be needs at most nine octets. -/
theorem length_minimalLength_le (h : n < 256 ^ 8) : (minimalLength n).length ≤ 9 := by
  unfold minimalLength
  split
  · rw [List.length_singleton]
    omega
  · have hcount : (BigEndian.digits 256 n).length ≤ 8 := BigEndian.length_digits_le (by omega) h
    rw [List.length_cons, List.length_map]
    omega

/-! ## Trees -/

namespace DerNode

mutual

/-- The tree with every content in its canonical form. -/
def canonical : DerNode → DerNode
  | .primitive tag content => .primitive tag (canonicalContent tag content)
  | .constructed tag children => .constructed tag (canonicalAll children)

def canonicalAll : List DerNode → List DerNode
  | [] => []
  | child :: rest => canonical child :: canonicalAll rest

end

mutual

/-- Every tag is one of the profile's, and says whether its node is constructed. -/
def Profile : DerNode → Prop
  | .primitive tag _ => tag ∈ ALLOWED_TAGS ∧ isConstructed tag = false
  | .constructed tag children =>
    tag ∈ ALLOWED_TAGS ∧ isConstructed tag = true ∧ ProfileAll children

def ProfileAll : List DerNode → Prop
  | [] => True
  | child :: rest => Profile child ∧ ProfileAll rest

end

end DerNode

mutual

/-- A tree is written as its canonical form is. -/
theorem encodeDer_canonical : (node : DerNode) → encodeDer node.canonical = encodeDer node
  | .primitive tag content => by
    show tlv tag (canonicalContent tag (canonicalContent tag content))
      = tlv tag (canonicalContent tag content)
    rw [canonicalContent_idem]
  | .constructed tag children => by
    show tlv tag (encodeAll (DerNode.canonicalAll children)) = tlv tag (encodeAll children)
    rw [encodeAll_canonicalAll children]

theorem encodeAll_canonicalAll : (children : List DerNode) →
    encodeAll (DerNode.canonicalAll children) = encodeAll children
  | [] => rfl
  | child :: rest => by
    show encodeDer child.canonical ++ encodeAll (DerNode.canonicalAll rest)
      = encodeDer child ++ encodeAll rest
    rw [encodeDer_canonical child, encodeAll_canonicalAll rest]

end

mutual

theorem profile_of_encodes : (node : DerNode) → ∀ bytes, Encodes node bytes → node.Profile
  | .primitive _ _ => by
    rintro bytes ⟨hallowed, hprimitive, -⟩
    exact ⟨hallowed, hprimitive⟩
  | .constructed _ children => by
    rintro bytes ⟨hallowed, hconstructed, octets, body, -, hbody, -⟩
    exact ⟨hallowed, hconstructed, profileAll_of_encodesAll children body hbody⟩

theorem profileAll_of_encodesAll : (children : List DerNode) → ∀ bytes,
    EncodesAll children bytes → DerNode.ProfileAll children
  | [] => fun _ _ => trivial
  | child :: rest => by
    rintro bytes ⟨first, others, hfirst, hothers, -⟩
    exact ⟨profile_of_encodes child first hfirst, profileAll_of_encodesAll rest others hothers⟩

end

theorem length_tlv (tag : Fin 256) (content : Bytes) :
    (tlv tag content).length = 1 + (minimalLength content.length).length + content.length := by
  unfold tlv
  rw [List.length_cons, List.length_append]
  omega

/-- What the writer writes encodes the canonical form. -/
theorem encodes_tlv {tag : Fin 256} {content : Bytes} (h : (tlv tag content).length < 256 ^ 127) :
    LengthOctets content.length (minimalLength content.length) := by
  have hlength := length_tlv tag content
  exact lengthOctets_minimal (by omega)

mutual

theorem encodes_encodeDer : (node : DerNode) → node.Profile →
    (encodeDer node).length < 256 ^ 127 → Encodes node.canonical (encodeDer node)
  | .primitive tag content => by
    rintro ⟨hallowed, hprimitive⟩ hsmall
    exact ⟨hallowed, hprimitive, _, encodes_tlv hsmall, rfl⟩
  | .constructed tag children => by
    rintro ⟨hallowed, hconstructed, hchildren⟩ hsmall
    have hlength := length_tlv tag (encodeAll children)
    have hbody : (encodeAll children).length < 256 ^ 127 := by
      have hwhole : (tlv tag (encodeAll children)).length < 256 ^ 127 := hsmall
      omega
    exact ⟨hallowed, hconstructed, _, _, encodes_tlv hsmall,
      encodesAll_encodeAll children hchildren hbody, rfl⟩

theorem encodesAll_encodeAll : (children : List DerNode) → DerNode.ProfileAll children →
    (encodeAll children).length < 256 ^ 127 →
    EncodesAll (DerNode.canonicalAll children) (encodeAll children)
  | [] => fun _ _ => rfl
  | child :: rest => by
    rintro ⟨hchild, hrest⟩ hsmall
    have hlength : (encodeAll (child :: rest)).length
        = (encodeDer child).length + (encodeAll rest).length := List.length_append
    exact ⟨_, _, encodes_encodeDer child hchild (by omega),
      encodesAll_encodeAll rest hrest (by omega), rfl⟩

end

variable {node : DerNode}

/-- What was written is read back, in its canonical form. -/
theorem decodeDer_encodeDer (hprofile : node.Profile) (hsmall : (encodeDer node).length < 256 ^ 127) :
    decodeDer (encodeDer node) = .ok node.canonical := by
  refine decodeDer_iff.mpr ⟨(encodeDer node).length, Nat.le_refl _, ?_⟩
  rw [List.take_length]
  exact encodes_encodeDer node hprofile hsmall

theorem profile_of_decodeDer {bytes : Bytes} (h : decodeDer bytes = .ok node) :
    node.Profile := by
  obtain ⟨next, -, hencodes⟩ := decodeDer_iff.mp h
  exact profile_of_encodes node _ hencodes

/-! ## Sizes -/

mutual

/-- A tree is written in at most ten times what it was read from. -/
theorem length_encodeDer_le : (node : DerNode) → ∀ bytes, Encodes node bytes →
    bytes.length < 2 ^ 53 → (encodeDer node).length ≤ 10 * bytes.length
  | .primitive tag content => by
    rintro bytes ⟨-, -, octets, hoctets, rfl⟩ hsmall
    have hpos := hoctets.ne_nil
    have hcontent := length_canonicalContent tag content
    rw [List.length_cons, List.length_append] at hsmall ⊢
    have hlength := length_tlv tag (canonicalContent tag content)
    have hminimal : (minimalLength (canonicalContent tag content).length).length ≤ 9 :=
      length_minimalLength_le (by omega)
    show (tlv tag (canonicalContent tag content)).length ≤ _
    omega
  | .constructed tag children => by
    rintro bytes ⟨-, -, octets, body, hoctets, hbody, rfl⟩ hsmall
    have hpos := hoctets.ne_nil
    rw [List.length_cons, List.length_append] at hsmall ⊢
    have hchildren := length_encodeAll_le children body hbody (by omega)
    have hlength := length_tlv tag (encodeAll children)
    have hminimal : (minimalLength (encodeAll children).length).length ≤ 9 :=
      length_minimalLength_le (by omega)
    show (tlv tag (encodeAll children)).length ≤ _
    omega

theorem length_encodeAll_le : (children : List DerNode) → ∀ bytes, EncodesAll children bytes →
    bytes.length < 2 ^ 53 → (encodeAll children).length ≤ 10 * bytes.length
  | [] => by
    rintro bytes rfl -
    exact Nat.le_refl _
  | child :: rest => by
    rintro bytes ⟨first, others, hfirst, hothers, rfl⟩ hsmall
    rw [List.length_append] at hsmall ⊢
    have hchild := length_encodeDer_le child first hfirst (by omega)
    have hrest := length_encodeAll_le rest others hothers (by omega)
    have hlength : (encodeAll (child :: rest)).length
        = (encodeDer child).length + (encodeAll rest).length := List.length_append
    omega

end

/-- No byte array is longer than the language lets one be. -/
structure Uint8Array where
  bytes : Bytes
  short : bytes.length < 2 ^ 53

theorem length_encodeDer_lt {b : Uint8Array} (h : decodeDer b.bytes = .ok node) :
    (encodeDer node).length < 256 ^ 127 := by
  obtain ⟨next, hnext, hencodes⟩ := decodeDer_iff.mp h
  have hshort := b.short
  have htake : (b.bytes.take next).length ≤ b.bytes.length := by
    rw [List.length_take]
    exact Nat.min_le_right _ _
  have hbound := length_encodeDer_le node _ hencodes (by omega)
  omega

/-- Whatever tree is decoded, what it is written as is canonical. -/
theorem checkDerCanonical_encodeDer {b : Uint8Array} (h : decodeDer b.bytes = .ok node) :
    checkDerCanonical (encodeDer node) = true := by
  have hread := decodeDer_encodeDer (profile_of_decodeDer h) (length_encodeDer_lt h)
  unfold checkDerCanonical
  rw [hread]
  exact decide_eq_true (encodeDer_canonical node)

end O2Fabric.X509

/-! # Accepted

What is known of bytes that `decodeX509Certificate` accepts: their tree, its
three parts, and that they are what this tree is written as.
-/

namespace O2Fabric.X509

theorem ok_bind {α β : Type} (a : α) (next : α → Except X509Failure β) :
    ((Except.ok a : Except X509Failure α) >>= next) = next a := rfl

section

variable {decode : Bytes → Except JsString CanonicalValue} {bytes tbsBytes : Bytes}
  {certificate : X509Certificate} {root tbsNode : DerNode}

/-- Accepted bytes are within the limit, and what their tree is written as. -/
theorem decodeX509Certificate_iff :
    decodeX509Certificate decode bytes = .ok (certificate, tbsBytes) ↔
      bytes.length ≤ MAX_CERTIFICATE_BYTES ∧
      ∃ root tbsNode, decodeDer bytes = .ok root ∧
        assembleCertificate decode root = .ok (certificate, tbsNode) ∧
        encodeDer root = bytes ∧ tbsBytes = encodeDer tbsNode := by
  unfold decodeX509Certificate preParseCheck
  by_cases hsize : MAX_CERTIFICATE_BYTES < bytes.length
  · rw [if_pos hsize]
    constructor
    · intro h
      cases h
    · rintro ⟨hle, -⟩
      omega
  · rw [if_neg hsize]
    dsimp only
    cases hroot : decodeDer bytes with
    | error failure =>
      constructor
      · intro h
        cases h
      · rintro ⟨-, root, tbsNode, h, -⟩
        cases h
    | ok root =>
      dsimp only
      cases hassemble : assembleCertificate decode root with
      | error failure =>
        constructor
        · intro h
          cases h
        · rintro ⟨-, root', tbsNode, h, hsome, -⟩
          cases h
          rw [hassemble] at hsome
          cases hsome
      | ok assembled =>
        obtain ⟨certificate', tbsNode⟩ := assembled
        have hcanonical : checkDerCanonical bytes = decide (encodeDer root = bytes) := by
          unfold checkDerCanonical
          rw [hroot]
        dsimp only
        rw [hcanonical]
        by_cases hsame : encodeDer root = bytes
        · rw [if_pos (decide_eq_true hsame)]
          constructor
          · intro h
            cases h
            exact ⟨by omega, root, tbsNode, rfl, hassemble, hsame, rfl⟩
          · rintro ⟨-, root', tbsNode', h, hsome, -, rfl⟩
            cases h
            rw [hassemble] at hsome
            cases hsome
            rfl
        · have hdiffers : ¬ decide (encodeDer root = bytes) = true := by
            rw [decide_eq_true_eq]
            exact hsame
          rw [if_neg hdiffers]
          constructor
          · intro h
            cases h
          · rintro ⟨-, root', tbsNode', h, -, hsame', -⟩
            cases h
            exact absurd hsame' hsame

/-- The three parts, each checked. -/
theorem assembleCertificate_iff :
    assembleCertificate decode root = .ok (certificate, tbsNode) ↔
      root.tag = 0x30 ∧ tbsNode.tag = 0x30 ∧
      ∃ outerAlgNode sigNode tbs extensions, root.children = [tbsNode, outerAlgNode, sigNode] ∧
        assembleTbs tbsNode = .ok tbs ∧ outerAlgNode.tag = 0x30 ∧
        checkAlgorithm outerAlgNode = none ∧ sigNode.tag = 0x03 ∧ sigNode.content.length = 65 ∧
        readOptionalExtensions decode tbs.extensionsNode = .ok extensions ∧
        certificate = certificateOf tbs extensions sigNode := by
  constructor
  · intro h
    unfold assembleCertificate at h
    dsimp only at h
    split at h
    · cases h
    · rename_i hroot
      split at h
      · rename_i tbsNode' outerAlgNode sigNode hchildren
        split at h
        · cases h
        · rename_i htbs
          split at h
          · cases h
          · rename_i tbs hassemble
            split at h
            · cases h
            · rename_i houter
              split at h
              · cases h
              · rename_i halgorithm
                split at h
                · cases h
                · rename_i hsig
                  split at h
                  · cases h
                  · rename_i extensions hextensions
                    cases h
                    rw [not_or, not_not, not_not] at hsig
                    exact ⟨not_not.mp hroot, not_not.mp htbs, outerAlgNode, sigNode, tbs,
                      extensions, hchildren, hassemble, not_not.mp houter, halgorithm, hsig.1, hsig.2,
                      hextensions, rfl⟩
      · cases h
  · rintro ⟨hroot, htbs, outerAlgNode, sigNode, tbs, extensions, hchildren, hassemble, houter,
      halgorithm, hsig, hlength, hextensions, rfl⟩
    unfold assembleCertificate
    simp only [hroot, hchildren, htbs, hassemble, houter, halgorithm, hsig, hlength, hextensions,
      ne_eq, not_true_eq_false, or_self, if_false]

/-- Of accepted bytes: the tree's first part is what is signed, and writing the tree is the identity
    on it. -/
theorem tree_of_accepted (h : decodeX509Certificate decode bytes = .ok (certificate, tbsBytes)) :
    ∃ tbsNode outerAlgNode sigNode,
      decodeDer bytes = .ok (.constructed 0x30 [tbsNode, outerAlgNode, sigNode]) ∧
      encodeDer (.constructed 0x30 [tbsNode, outerAlgNode, sigNode]) = bytes ∧
      tbsNode.tag = 0x30 ∧ tbsBytes = encodeDer tbsNode := by
  obtain ⟨-, root, tbsNode, hdecode, hassemble, hencode, rfl⟩ := decodeX509Certificate_iff.mp h
  obtain ⟨hroot, htbs, outerAlgNode, sigNode, -, -, hchildren, -⟩ :=
    assembleCertificate_iff.mp hassemble
  refine ⟨tbsNode, outerAlgNode, sigNode, ?_, ?_, htbs, rfl⟩
  · cases root with
    | primitive tag content => cases hchildren
    | constructed tag children =>
      have htag : tag = 0x30 := hroot
      have hparts : children = [tbsNode, outerAlgNode, sigNode] := hchildren
      rw [hdecode, htag, hparts]
  · cases root with
    | primitive tag content => cases hchildren
    | constructed tag children =>
      have htag : tag = 0x30 := hroot
      have hparts : children = [tbsNode, outerAlgNode, sigNode] := hchildren
      rw [← hencode, htag, hparts]

/-- Its contents are canonical as they are. -/
theorem canonical_of_accepted (hdecode : decodeDer bytes = .ok root)
    (hencode : encodeDer root = bytes) (hsize : bytes.length ≤ MAX_CERTIFICATE_BYTES) : root.canonical = root := by
  have hsmall : (encodeDer root).length < 256 ^ 127 := by
    rw [hencode]
    exact Nat.lt_of_le_of_lt hsize (by decide)
  have hread := decodeDer_encodeDer (profile_of_decodeDer hdecode) hsmall
  rw [hencode, hdecode] at hread
  exact (Except.ok.inj hread).symm

end

/-! ## Accepted certificates -/

def algorithmOf (oid : Bytes) : DerNode := .constructed 0x30 [.primitive 0x06 oid]

def emptyName : DerNode :=
  .constructed 0x30 [.constructed 0x31 [.constructed 0x30
    [.primitive 0x06 [0x55, 0x04, 0x03], .primitive 0x0C []]]]

def epoch : DerNode := .primitive 0x17 (textEncoder (js "700101000000Z"))

/-- A certificate without a version, with whatever follows its key. -/
def shortest (serial oid signature : Bytes) (more : List DerNode) : DerNode :=
  .constructed 0x30
    [.constructed 0x30
      ([.primitive 0x02 serial, algorithmOf oid, emptyName, .constructed 0x30 [epoch, epoch],
        emptyName, .constructed 0x30 [algorithmOf oid, .primitive 0x03 (List.replicate 33 0)]] ++ more),
      algorithmOf oid, .primitive 0x03 signature]

/-- `2B 65 70`. -/
def ed25519Bytes : Bytes := [0x2B, 0x65, 0x70]

/-- No extension is read by the certificates here. -/
def noCbor (_ : Bytes) : Except JsString CanonicalValue := .error []

/-- The result without the refusal. -/
def accepted (bytes : Bytes) : Option (X509Certificate × Bytes) :=
  (decodeX509Certificate noCbor bytes).toOption

theorem decode_of_accepted {bytes : Bytes} (h : (accepted bytes).isSome = true) :
    ∃ certificate tbsBytes, decodeX509Certificate noCbor bytes = .ok (certificate, tbsBytes) := by
  unfold accepted at h
  cases hresult : decodeX509Certificate noCbor bytes with
  | error failure =>
    rw [hresult] at h
    cases h
  | ok result => exact ⟨result.1, result.2, rfl⟩

/-- A canonical tree in profile whose bytes are accepted: the bytes are decoded to it. -/
theorem tree_of_isSome {node : DerNode} (hprofile : node.Profile) (hcanonical : node.canonical = node)
    (haccepted : (accepted (encodeDer node)).isSome = true) :
    ∃ certificate tbsBytes,
      decodeX509Certificate noCbor (encodeDer node) = .ok (certificate, tbsBytes) ∧
      decodeDer (encodeDer node) = .ok node := by
  obtain ⟨certificate, tbsBytes, hok⟩ := decode_of_accepted haccepted
  have hsize := (decodeX509Certificate_iff.mp hok).1
  have hdecode := decodeDer_encodeDer hprofile (Nat.lt_of_le_of_lt hsize (by decide))
  rw [hcanonical] at hdecode
  exact ⟨certificate, tbsBytes, hok, hdecode⟩

theorem shortest_profile (serial oid signature : Bytes) {more : List DerNode}
    (hmore : DerNode.ProfileAll more) : (shortest serial oid signature more).Profile := by
  simp [shortest, algorithmOf, emptyName, epoch, DerNode.Profile, DerNode.ProfileAll, ALLOWED_TAGS,
    isConstructed, hmore]

end O2Fabric.X509
