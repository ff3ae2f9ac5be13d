/-
  O2Fabric.Core.X509.Distinguished

  The distinguished encodings of the standard, node by node, and which accepted
  bytes are one.

  The gate compares the bytes with what their tree is written as.  Where the
  writer repairs a content, the comparison finds what is not distinguished; where
  it copies one, an identifier of any octets and an INTEGER of none go through.
-/

import O2Fabric.Core.X509.Canonical

namespace O2Fabric.X509

/-! ## The standard's rules -/

structure FewestOctets (length : Nat) (octets : Bytes) : Prop where
  denotes : LengthOctets length octets
  fewest : ∀ octets', LengthOctets length octets' → octets.length ≤ octets'.length

/-- At most seven bits are unused; they are bits of the last octet, and zero. -/
def ZeroPadded : Bytes → Prop
  | [] => False
  | unusedBits :: data =>
    unusedBits.val ≤ 7 ∧ (data = [] → unusedBits = 0) ∧
      (data.getLastD 0).val % 2 ^ unusedBits.val = 0

/-- Subidentifiers one after another: none starts with an octet that adds nothing, and the last one
    ends. -/
def Subidentifiers : (starts : Bool) → Bytes → Prop
  | starts, [] => starts = true
  | starts, octet :: rest =>
    (starts = true → octet ≠ 0x80) ∧ Subidentifiers (decide (octet.val < 0x80)) rest

instance decidableSubidentifiers : (starts : Bool) → (content : Bytes) →
    Decidable (Subidentifiers starts content)
  | starts, [] => inferInstanceAs (Decidable (starts = true))
  | starts, octet :: rest =>
    have := decidableSubidentifiers (decide (octet.val < 0x80)) rest
    inferInstanceAs (Decidable ((starts = true → octet ≠ 0x80) ∧
      Subidentifiers (decide (octet.val < 0x80)) rest))

structure DistinguishedContent (tag : Fin 256) (content : Bytes) : Prop where
  integer : tag = 0x02 → content ≠ [] ∧ MinimalInteger content
  boolean : tag = 0x01 → content = [0x00] ∨ content = [0xFF]
  bitString : tag = 0x03 → ZeroPadded content
  objectIdentifier : tag = 0x06 → content ≠ [] ∧ Subidentifiers true content

mutual

def Distinguished : DerNode → Bytes → Prop
  | .primitive tag content, bytes =>
    DistinguishedContent tag content ∧
    ∃ octets, FewestOctets content.length octets ∧ bytes = tag :: (octets ++ content)
  | .constructed tag children, bytes =>
    ∃ octets body, FewestOctets body.length octets ∧ DistinguishedAll children body ∧
      bytes = tag :: (octets ++ body)

/-- The distinguished encodings of the nodes, one after another. -/
def DistinguishedAll : List DerNode → Bytes → Prop
  | [], bytes => bytes = []
  | child :: rest, bytes =>
    ∃ first others, Distinguished child first ∧ DistinguishedAll rest others ∧
      bytes = first ++ others

end

/-! ## What the gate does not ask -/

mutual

/-- The contents of a tree, with their tags. -/
def contentsOf : DerNode → List (Fin 256 × Bytes)
  | .primitive tag content => [(tag, content)]
  | .constructed _ children => contentsOfAll children

def contentsOfAll : List DerNode → List (Fin 256 × Bytes)
  | [] => []
  | child :: rest => contentsOf child ++ contentsOfAll rest

end

/-- An INTEGER has an octet; a BIT STRING starts with a count up to seven, which is zero where
    nothing follows; an OBJECT IDENTIFIER is of whole subidentifiers in their fewest octets. -/
def Copied (tag : Fin 256) (content : Bytes) : Prop :=
  (tag = 0x02 → content ≠ []) ∧
  (tag = 0x03 → content ≠ [] ∧ (content.headD 0).val ≤ 7 ∧
    (content.length = 1 → content.headD 0 = 0)) ∧
  (tag = 0x06 → content ≠ [] ∧ Subidentifiers true content)

instance decidableCopied (tag : Fin 256) (content : Bytes) : Decidable (Copied tag content) :=
  inferInstanceAs (Decidable (
    (tag = 0x02 → content ≠ []) ∧
    (tag = 0x03 → content ≠ [] ∧ (content.headD 0).val ≤ 7 ∧
      (content.length = 1 → content.headD 0 = 0)) ∧
    (tag = 0x06 → content ≠ [] ∧ Subidentifiers true content)))

/-! ## Contents -/

section

variable {tag : Fin 256} {content : Bytes}

/-- Bits that the mask of the writer leaves as they are were zero. -/
theorem zero_of_masked : ∀ unusedBits : Fin 8, ∀ octet : Fin 256,
    byteOfNat (octet.val &&& unusedMask unusedBits.val) = octet →
      octet.val % 2 ^ unusedBits.val = 0 := by
  decide +kernel

theorem zeroPadded_of_canonical (hcanonical : canonicalizeBitString content = content)
    (hne : content ≠ []) (hcount : (content.headD 0).val ≤ 7)
    (hempty : content.length = 1 → content.headD 0 = 0) : ZeroPadded content := by
  cases content with
  | nil => exact absurd rfl hne
  | cons unusedBits data =>
    have hseven : unusedBits.val ≤ 7 := hcount
    refine ⟨hseven, ?_, ?_⟩
    · rintro rfl
      exact hempty rfl
    · by_cases hwhole : data = [] ∨ unusedBits = 0
      · rcases hwhole with rfl | rfl
        · exact Nat.zero_mod _
        · exact Nat.mod_one _
      · rw [canonicalizeBitString_cons, if_neg hwhole] at hcanonical
        have hdata : data ≠ [] := fun h => hwhole (Or.inl h)
        have hlast := congrArg (fun bytes => List.getLastD bytes 0) (List.cons.inj hcanonical).2
        rw [List.getLastD_concat] at hlast
        exact zero_of_masked ⟨unusedBits.val, by omega⟩ _ hlast

theorem boolean_of_canonical (hcanonical : canonicalizeBoolean content = content) :
    content = [0x00] ∨ content = [0xFF] := by
  unfold canonicalizeBoolean at hcanonical
  rw [← hcanonical]
  split
  · exact Or.inr rfl
  · exact Or.inl rfl

theorem copied_of_distinguished (h : DistinguishedContent tag content) : Copied tag content := by
  obtain ⟨hinteger, -, hbits, hoid⟩ := h
  refine ⟨fun htag => (hinteger htag).1, ?_, hoid⟩
  intro htag
  have hpadded := hbits htag
  cases content with
  | nil => exact absurd hpadded id
  | cons unusedBits data =>
    obtain ⟨hseven, hempty, -⟩ := hpadded
    refine ⟨List.cons_ne_nil _ _, hseven, ?_⟩
    intro hlength
    exact hempty (List.length_eq_zero_iff.mp (Nat.succ.inj hlength))

/-- A content that the writer leaves as it is: what it repairs is in order. -/
theorem distinguished_of_copied (hcanonical : canonicalContent tag content = content)
    (h : Copied tag content) : DistinguishedContent tag content := by
  obtain ⟨hinteger, hbits, hoid⟩ := h
  refine ⟨?_, ?_, ?_, hoid⟩
  · rintro rfl
    have hminimal := minimalInteger_canonicalize content
    have hsame : canonicalizeInteger content = content := hcanonical
    rw [hsame] at hminimal
    exact ⟨hinteger rfl, hminimal⟩
  · rintro rfl
    exact boolean_of_canonical hcanonical
  · rintro rfl
    obtain ⟨hne, hcount, hempty⟩ := hbits rfl
    exact zeroPadded_of_canonical hcanonical hne hcount hempty

end

/-! ## Trees -/

/-- The writer's length octets are the fewest. -/
theorem fewestOctets_minimal {n : Nat} (h : n < 256 ^ 127) : FewestOctets n (minimalLength n) := by
  refine ⟨lengthOctets_minimal h, ?_⟩
  intro octets' hoctets
  unfold minimalLength
  by_cases hshort : n ≤ 0x7F
  · rw [if_pos hshort]
    exact hoctets.ne_nil
  · rw [if_neg hshort]
    rcases hoctets with ⟨octet, -, -, hle⟩ | ⟨count, digits, rfl, -, -, hvalue⟩
    · omega
    · have hdigits : n < 256 ^ digits.length := by
        have hbytes : ∀ d ∈ digits.map Fin.val, d < 256 := by
          intro d hd
          obtain ⟨octet, -, rfl⟩ := List.mem_map.mp hd
          exact octet.isLt
        have hlt := BigEndian.value_lt hbytes (by omega)
        rw [List.length_map] at hlt
        rw [← hvalue]
        exact hlt
      have hfew := BigEndian.length_digits_le (by omega) hdigits
      rw [List.length_cons, List.length_cons, List.length_map]
      omega

mutual

theorem copied_of_tree : (node : DerNode) → ∀ bytes, Distinguished node bytes →
    ∀ part ∈ contentsOf node, Copied part.1 part.2
  | .primitive tag content => by
    rintro bytes ⟨hcontent, -⟩ part hpart
    have hone : part = (tag, content) := List.mem_singleton.mp hpart
    rw [hone]
    exact copied_of_distinguished hcontent
  | .constructed _ children => by
    rintro bytes ⟨-, body, -, hbody, -⟩ part hpart
    exact copied_of_trees children body hbody part hpart

theorem copied_of_trees : (children : List DerNode) → ∀ bytes, DistinguishedAll children bytes →
    ∀ part ∈ contentsOfAll children, Copied part.1 part.2
  | [] => by
    intro _ _ part hpart
    exact absurd hpart List.not_mem_nil
  | child :: rest => by
    rintro bytes ⟨first, others, hfirst, hothers, -⟩ part hpart
    rcases List.mem_append.mp hpart with hin | hin
    · exact copied_of_tree child first hfirst part hin
    · exact copied_of_trees rest others hothers part hin

end

mutual

/-- A tree that the writer leaves as it is, is written with distinguished encodings. -/
theorem distinguished_of_tree : (node : DerNode) → node.canonical = node →
    (encodeDer node).length < 256 ^ 127 → (∀ part ∈ contentsOf node, Copied part.1 part.2) →
    Distinguished node (encodeDer node)
  | .primitive tag content => by
    intro hcanonical hsmall hparts
    have hsame : canonicalContent tag content = content := (DerNode.primitive.inj hcanonical).2
    have hwritten : encodeDer (.primitive tag content)
        = tag :: (minimalLength content.length ++ content) := by
      show tlv tag (canonicalContent tag content) = _
      rw [hsame]
      rfl
    have hlength : content.length < 256 ^ 127 := by
      rw [hwritten, List.length_cons, List.length_append] at hsmall
      omega
    have hcopied : Copied tag content := hparts (tag, content) (List.mem_singleton.mpr rfl)
    exact ⟨distinguished_of_copied hsame hcopied, _, fewestOctets_minimal hlength, hwritten⟩
  | .constructed tag children => by
    intro hcanonical hsmall hparts
    have hlength : (encodeAll children).length < 256 ^ 127 := by
      have hwhole := length_tlv tag (encodeAll children)
      have htlv : (tlv tag (encodeAll children)).length < 256 ^ 127 := hsmall
      omega
    have hbody := distinguished_of_trees children (DerNode.constructed.inj hcanonical).2 hlength
      hparts
    exact ⟨_, _, fewestOctets_minimal hlength, hbody, rfl⟩

theorem distinguished_of_trees : (children : List DerNode) →
    DerNode.canonicalAll children = children → (encodeAll children).length < 256 ^ 127 →
    (∀ part ∈ contentsOfAll children, Copied part.1 part.2) →
    DistinguishedAll children (encodeAll children)
  | [] => fun _ _ _ => rfl
  | child :: rest => by
    intro hcanonical hsmall hparts
    obtain ⟨hchild, hrest⟩ := List.cons.inj hcanonical
    have hsum : (encodeAll (child :: rest)).length
        = (encodeDer child).length + (encodeAll rest).length := List.length_append
    refine ⟨_, _, distinguished_of_tree child hchild (by omega) ?_,
      distinguished_of_trees rest hrest (by omega) ?_, rfl⟩
    · intro part hpart
      exact hparts part (List.mem_append_left _ hpart)
    · intro part hpart
      exact hparts part (List.mem_append_right _ hpart)

end

/-- Accepted bytes are distinguished at every node exactly where what the writer copies is: the
    lengths, the signs, the BOOLEANs and the padding always are. -/
theorem accepted_distinguished {decode : Bytes → Except JsString CanonicalValue}
    {bytes tbsBytes : Bytes} {certificate : X509Certificate} {root : DerNode}
    (haccepted : decodeX509Certificate decode bytes = .ok (certificate, tbsBytes))
    (hdecode : decodeDer bytes = .ok root) :
    Distinguished root bytes ↔ ∀ part ∈ contentsOf root, Copied part.1 part.2 := by
  obtain ⟨hsize, root', -, hdecode', -, hencode, -⟩ := decodeX509Certificate_iff.mp haccepted
  rw [hdecode] at hdecode'
  cases hdecode'
  have hcanonical := canonical_of_accepted hdecode hencode hsize
  constructor
  · intro h
    exact copied_of_tree root bytes h
  · intro hparts
    have hsmall : (encodeDer root).length < 256 ^ 127 := by
      rw [hencode]
      exact Nat.lt_of_le_of_lt hsize (by decide)
    have hwritten := distinguished_of_tree root hcanonical hsmall hparts
    rw [hencode] at hwritten
    exact hwritten

/-- The shortest certificate is a distinguished encoding. -/
theorem accepted_distinguished_shortest :
    ∃ bytes root, decodeDer bytes = .ok root ∧ Distinguished root bytes := by
  obtain ⟨certificate, tbsBytes, hok, hdecode⟩ := tree_of_isSome
    (@shortest_profile [1] ed25519Bytes (List.replicate 65 0) [] trivial) rfl
    (by decide +kernel)
  exact ⟨_, _, hdecode, (accepted_distinguished hok hdecode).mpr (by decide +kernel)⟩

/-- An octet that adds nothing, before the second of the algorithm's subidentifiers. -/
def paddedOid : Bytes := [0x2B, 0x80, 0x65, 0x70]

/-- It is read as the same algorithm, and copied. -/
theorem padded_oid_accepted :
    ¬ ∀ (decode : Bytes → Except JsString CanonicalValue) (bytes tbsBytes : Bytes)
      (certificate : X509Certificate) (root : DerNode),
      decodeX509Certificate decode bytes = .ok (certificate, tbsBytes) →
      decodeDer bytes = .ok root → Distinguished root bytes := by
  intro hclaim
  obtain ⟨certificate, tbsBytes, hok, hdecode⟩ := tree_of_isSome
    (@shortest_profile [1] paddedOid (List.replicate 65 0) [] trivial) rfl
    (by decide +kernel)
  have hcopied := copied_of_tree _ _ (hclaim _ _ _ _ _ hok hdecode)
  have hnot : ¬ ∀ part ∈ contentsOf (shortest [1] paddedOid (List.replicate 65 0) []),
      Copied part.1 part.2 := by
    decide
  exact hnot hcopied

end O2Fabric.X509
