/-
  O2Fabric.Core.X509.Grammar

  What the reader reads.  `Encodes` is the grammar of tags, lengths and
  contents, with lengths as long as they like: the reader accepts exactly the
  encodings that lie in its window, and what lies outside makes no difference.
-/

import O2Fabric.Core.X509.Der

namespace O2Fabric.X509

/-! ## Windows -/

section

variable {bytes bytes' : Bytes} {start middle stop : Nat}

theorem length_subarray (h : stop ≤ bytes.length) :
    (subarray bytes start stop).length = stop - start := by
  unfold subarray
  rw [List.length_drop, List.length_take]
  omega

theorem subarray_self : subarray bytes start start = [] := by
  unfold subarray
  apply List.drop_of_length_le
  rw [List.length_take]
  omega

theorem subarray_append (hstart : start ≤ middle) (hmiddle : middle ≤ stop)
    (h : stop ≤ bytes.length) :
    subarray bytes start stop = subarray bytes start middle ++ subarray bytes middle stop := by
  unfold subarray
  have hfirst : bytes.take middle = (bytes.take stop).take middle := by
    rw [List.take_take, Nat.min_eq_left hmiddle]
  have hsplit : bytes.take stop = bytes.take middle ++ (bytes.take stop).drop middle := by
    rw [hfirst, List.take_append_drop]
  conv_lhs => rw [hsplit]
  rw [List.drop_append_of_le_length]
  rw [List.length_take]
  omega

theorem subarray_cons (hstart : start < stop) (h : stop ≤ bytes.length) :
    subarray bytes start stop = bytes.getD start 0 :: subarray bytes (start + 1) stop := by
  have hin : start < (bytes.take stop).length := by
    rw [List.length_take]
    omega
  have hget : bytes.getD start 0 = (bytes.take stop)[start] := by
    rw [List.getElem_take, List.getD_eq_getElem?_getD, List.getElem?_eq_getElem, Option.getD_some]
  unfold subarray
  rw [List.drop_eq_getElem_cons hin, hget]

theorem subarray_whole (bytes : Bytes) : subarray bytes 0 bytes.length = bytes := by
  unfold subarray
  rw [List.take_length, List.drop_zero]

/-- The same bytes from `start` up to `stop`. -/
def SameWithin (bytes bytes' : Bytes) (start stop : Nat) : Prop :=
  ∀ i, start ≤ i → i < stop → bytes[i]? = bytes'[i]?

theorem SameWithin.getD (h : SameWithin bytes bytes' start stop) {i : Nat} (hstart : start ≤ i)
    (hstop : i < stop) : bytes.getD i 0 = bytes'.getD i 0 := by
  rw [List.getD_eq_getElem?_getD, List.getD_eq_getElem?_getD, h i hstart hstop]

theorem SameWithin.inner (h : SameWithin bytes bytes' start stop) {start' stop' : Nat}
    (hstart : start ≤ start') (hstop : stop' ≤ stop) : SameWithin bytes bytes' start' stop' :=
  fun i hfrom hto => h i (hstart.trans hfrom) (hto.trans_le hstop)

theorem SameWithin.subarray (h : SameWithin bytes bytes' start stop) :
    subarray bytes start stop = subarray bytes' start stop := by
  apply List.ext_getElem?
  intro i
  unfold X509.subarray
  rw [List.getElem?_drop, List.getElem?_drop, List.getElem?_take, List.getElem?_take]
  by_cases hin : start + i < stop
  · rw [if_pos hin, if_pos hin, h (start + i) (by omega) hin]
  · rw [if_neg hin, if_neg hin]

end

/-! ## Lengths -/

/-- Octets that say a length: one, or a count of further octets and these. -/
def LengthOctets (length : Nat) (octets : Bytes) : Prop :=
  (∃ octet : Fin 256, octets = [octet] ∧ octet.val = length ∧ length ≤ 127) ∨
  ∃ count digits, octets = count :: digits ∧ 0 < digits.length ∧
    count.val = 128 + digits.length ∧ numberOfBytes digits = length

theorem LengthOctets.ne_nil {length : Nat} {octets : Bytes} (h : LengthOctets length octets) :
    0 < octets.length := by
  rcases h with ⟨octet, rfl, -, -⟩ | ⟨count, digits, rfl, -, -, -⟩
  · exact Nat.zero_lt_one
  · exact Nat.succ_pos _

theorem and_127 (octet : Fin 256) : octet.val &&& 0x7F = octet.val % 128 :=
  Nat.and_two_pow_sub_one_eq_mod octet.val 7

section

variable {bytes : Bytes} {offset limit next : Nat} {length : Nat}

theorem readLength_next (h : readLength bytes offset limit = .ok (length, next)) :
    offset < next ∧ next ≤ limit := by
  unfold readLength at h
  by_cases hlimit : limit ≤ offset
  · rw [if_pos hlimit] at h
    cases h
  · rw [if_neg hlimit] at h
    dsimp only at h
    by_cases hindefinite : (bytes.getD offset 0).val = 0x80
    · rw [if_pos hindefinite] at h
      cases h
    · rw [if_neg hindefinite] at h
      by_cases hshort : (bytes.getD offset 0).val ≤ 0x7F
      · rw [if_pos hshort] at h
        cases h
        omega
      · rw [if_neg hshort] at h
        by_cases hpast : limit < offset + 1 + ((bytes.getD offset 0).val &&& 0x7F)
        · rw [if_pos hpast] at h
          cases h
        · rw [if_neg hpast] at h
          cases h
          omega

theorem readLength_ok (h : readLength bytes offset limit = .ok (length, next))
    (hlimit : limit ≤ bytes.length) : LengthOctets length (subarray bytes offset next) := by
  have hnext := readLength_next h
  unfold readLength at h
  rw [if_neg (by omega)] at h
  dsimp only at h
  by_cases hindefinite : (bytes.getD offset 0).val = 0x80
  · rw [if_pos hindefinite] at h
    cases h
  · rw [if_neg hindefinite] at h
    have hcons : subarray bytes offset next
        = bytes.getD offset 0 :: subarray bytes (offset + 1) next :=
      subarray_cons hnext.1 (by omega)
    by_cases hshort : (bytes.getD offset 0).val ≤ 0x7F
    · rw [if_pos hshort] at h
      cases h
      rw [hcons, subarray_self]
      exact Or.inl ⟨_, rfl, rfl, hshort⟩
    · rw [if_neg hshort] at h
      by_cases hpast : limit < offset + 1 + ((bytes.getD offset 0).val &&& 0x7F)
      · rw [if_pos hpast] at h
        cases h
      · rw [if_neg hpast] at h
        cases h
        have hcount := and_127 (bytes.getD offset 0)
        have hbyte := (bytes.getD offset 0).isLt
        have hdigits : (subarray bytes (offset + 1)
            (offset + 1 + ((bytes.getD offset 0).val &&& 0x7F))).length
            = (bytes.getD offset 0).val &&& 0x7F := by
          rw [length_subarray (by omega)]
          omega
        rw [hcons]
        refine Or.inr ⟨_, _, rfl, ?_, ?_, rfl⟩
        · rw [hdigits]
          omega
        · rw [hdigits]
          omega

theorem readLength_of (h : LengthOctets length (subarray bytes offset next)) (hnext : next ≤ limit)
    (hlimit : limit ≤ bytes.length) : readLength bytes offset limit = .ok (length, next) := by
  have hsize : (subarray bytes offset next).length = next - offset := length_subarray (by omega)
  have hpos := h.ne_nil
  have hcons : subarray bytes offset next
      = bytes.getD offset 0 :: subarray bytes (offset + 1) next :=
    subarray_cons (by omega) (by omega)
  unfold readLength
  rw [if_neg (by omega)]
  dsimp only
  rcases h with ⟨octet, hoctets, rfl, hshort⟩ | ⟨count, digits, hoctets, hdigits, hcount, rfl⟩
  · rw [hoctets] at hcons hsize
    obtain ⟨rfl, -⟩ := List.cons.inj hcons
    have hone : next = offset + 1 := by
      have : ([bytes.getD offset 0] : Bytes).length = 1 := rfl
      omega
    rw [if_neg (by omega), if_pos hshort, hone]
  · rw [hoctets] at hcons hsize
    obtain ⟨rfl, hrest⟩ := List.cons.inj hcons
    rw [List.length_cons] at hsize
    have hlow := and_127 (bytes.getD offset 0)
    have hbyte := (bytes.getD offset 0).isLt
    have hend : offset + 1 + ((bytes.getD offset 0).val &&& 0x7F) = next := by omega
    rw [if_neg (by omega), if_neg (by omega), hend, if_neg (by omega), ← hrest]

end

/-! ## Headers -/

section

variable {bytes : Bytes} {offset limit : Nat} {header : TlvHeader}

/-- What holds of a header that was read, besides its bytes. -/
structure HeaderIn (offset limit : Nat) (header : TlvHeader) : Prop where
  allowed : header.tag ∈ ALLOWED_TAGS
  start : offset + 2 ≤ header.contentOffset
  ordered : header.contentOffset ≤ header.contentEnd
  stop : header.contentEnd ≤ limit

theorem readHeader_ok (h : readHeader bytes offset limit = .ok header) :
    HeaderIn offset limit header ∧ bytes.getD offset 0 = header.tag ∧
      readLength bytes (offset + 1) limit
        = .ok (header.contentEnd - header.contentOffset, header.contentOffset) := by
  unfold readHeader at h
  by_cases hlimit : limit ≤ offset
  · rw [if_pos hlimit] at h
    cases h
  · rw [if_neg hlimit] at h
    dsimp only at h
    by_cases hhigh : isHighTagNumberForm (bytes.getD offset 0) = true
    · rw [if_pos hhigh] at h
      cases h
    · rw [if_neg hhigh] at h
      by_cases hallowed : bytes.getD offset 0 ∈ ALLOWED_TAGS
      · rw [if_neg (not_not_intro hallowed)] at h
        cases hlength : readLength bytes (offset + 1) limit with
        | error failure =>
          rw [hlength] at h
          cases h
        | ok read =>
          obtain ⟨contentLength, contentOffset⟩ := read
          rw [hlength] at h
          dsimp only at h
          by_cases hpast : limit < contentOffset + contentLength
          · rw [if_pos hpast] at h
            cases h
          · rw [if_neg hpast] at h
            cases h
            have hnext := readLength_next hlength
            refine ⟨⟨hallowed, ?_, ?_, ?_⟩, rfl, ?_⟩
            · show offset + 2 ≤ contentOffset
              omega
            · show contentOffset ≤ contentOffset + contentLength
              omega
            · show contentOffset + contentLength ≤ limit
              omega
            · show _ = Except.ok (contentOffset + contentLength - contentOffset, contentOffset)
              rw [Nat.add_sub_cancel_left]
      · rw [if_pos hallowed] at h
        cases h

/-- No tag of the profile has the form of a high tag number. -/
theorem not_highTagNumberForm {tag : Fin 256} (h : tag ∈ ALLOWED_TAGS) :
    isHighTagNumberForm tag = false := by
  have hall : ∀ tag ∈ ALLOWED_TAGS, isHighTagNumberForm tag = false := by decide +kernel
  exact hall tag h

theorem readHeader_of (hin : HeaderIn offset limit header) (htag : bytes.getD offset 0 = header.tag)
    (hlength : readLength bytes (offset + 1) limit
      = .ok (header.contentEnd - header.contentOffset, header.contentOffset)) :
    readHeader bytes offset limit = .ok header := by
  have hstart := hin.start
  have hordered := hin.ordered
  have hstop := hin.stop
  unfold readHeader
  rw [if_neg (by omega)]
  dsimp only
  rw [htag, not_highTagNumberForm hin.allowed, if_neg Bool.false_ne_true,
    if_neg (not_not_intro hin.allowed), hlength]
  dsimp only
  rw [if_neg (by omega)]
  have hend : header.contentOffset + (header.contentEnd - header.contentOffset)
      = header.contentEnd := by omega
  rw [hend]

end

/-! ## The reader stays in its window -/

section

variable {bytes bytes' : Bytes} {offset limit : Nat}

theorem readLength_sameWithin (h : SameWithin bytes bytes' offset limit) :
    readLength bytes offset limit = readLength bytes' offset limit := by
  unfold readLength
  by_cases hlimit : limit ≤ offset
  · rw [if_pos hlimit, if_pos hlimit]
  · rw [if_neg hlimit, if_neg hlimit]
    dsimp only
    rw [h.getD (Nat.le_refl offset) (by omega)]
    by_cases hpast : limit < offset + 1 + ((bytes'.getD offset 0).val &&& 0x7F)
    · rw [if_pos hpast, if_pos hpast]
    · rw [if_neg hpast, if_neg hpast,
        (h.inner (Nat.le_succ offset) (Nat.le_of_not_lt hpast)).subarray]

theorem readHeader_sameWithin (h : SameWithin bytes bytes' offset limit) :
    readHeader bytes offset limit = readHeader bytes' offset limit := by
  unfold readHeader
  by_cases hlimit : limit ≤ offset
  · rw [if_pos hlimit, if_pos hlimit]
  · rw [if_neg hlimit, if_neg hlimit]
    dsimp only
    rw [h.getD (Nat.le_refl offset) (by omega),
      readLength_sameWithin (h.inner (Nat.le_succ offset) (Nat.le_refl limit))]

/-- Where the next node starts: past this one, and not past the limit. -/
theorem readTlv_next {depth next : Nat} {node : DerNode}
    (h : readTlv depth bytes offset limit = .ok (node, next)) : offset < next ∧ next ≤ limit := by
  cases depth with
  | zero => cases h
  | succ depth =>
    unfold readTlv at h
    cases hheader : readHeader bytes offset limit with
    | error failure =>
      rw [hheader] at h
      cases h
    | ok header =>
      rw [hheader] at h
      have hin := (readHeader_ok hheader).1
      have hstart := hin.start
      have hordered := hin.ordered
      have hstop := hin.stop
      dsimp only at h
      by_cases hconstructed : isConstructed header.tag = true
      · rw [if_pos hconstructed] at h
        cases hchildren : readChildren depth bytes header.contentOffset header.contentEnd with
        | error failure =>
          rw [hchildren] at h
          cases h
        | ok children =>
          rw [hchildren] at h
          cases h
          omega
      · rw [if_neg hconstructed] at h
        cases h
        omega

/-- Bytes outside the window make no difference. -/
theorem readTlv_sameWithin (depth : Nat) :
    (∀ offset limit, SameWithin bytes bytes' offset limit →
      readTlv depth bytes offset limit = readTlv depth bytes' offset limit) ∧
    ∀ offset limit, SameWithin bytes bytes' offset limit →
      readChildren depth bytes offset limit = readChildren depth bytes' offset limit := by
  induction depth with
  | zero => exact ⟨fun _ _ _ => rfl, fun _ _ _ => rfl⟩
  | succ depth ih =>
    constructor
    · intro offset limit h
      unfold readTlv
      rw [readHeader_sameWithin h]
      cases hheader : readHeader bytes' offset limit with
      | error failure => rfl
      | ok header =>
        have hin := (readHeader_ok hheader).1
        have hstart := hin.start
        have hinner : SameWithin bytes bytes' header.contentOffset header.contentEnd :=
          h.inner (by omega) hin.stop
        dsimp only
        rw [ih.2 _ _ hinner, hinner.subarray]
    · intro offset limit h
      unfold readChildren
      rw [ih.1 offset limit h]
      by_cases hmore : offset < limit
      · rw [if_pos hmore, if_pos hmore]
        cases hchild : readTlv depth bytes' offset limit with
        | error failure => rfl
        | ok read =>
          obtain ⟨child, next⟩ := read
          have hnext := readTlv_next hchild
          dsimp only
          rw [ih.2 next limit (h.inner (by omega) (Nat.le_refl limit))]
      · rw [if_neg hmore, if_neg hmore]

end

/-! ## The grammar -/

mutual

/-- The bytes are an encoding of the node, its lengths in any number of octets. -/
def Encodes : DerNode → Bytes → Prop
  | .primitive tag content, bytes =>
    tag ∈ ALLOWED_TAGS ∧ isConstructed tag = false ∧
    ∃ octets, LengthOctets content.length octets ∧ bytes = tag :: (octets ++ content)
  | .constructed tag children, bytes =>
    tag ∈ ALLOWED_TAGS ∧ isConstructed tag = true ∧
    ∃ octets body, LengthOctets body.length octets ∧ EncodesAll children body ∧
      bytes = tag :: (octets ++ body)

def EncodesAll : List DerNode → Bytes → Prop
  | [], bytes => bytes = []
  | child :: rest, bytes =>
    ∃ first others, Encodes child first ∧ EncodesAll rest others ∧ bytes = first ++ others

end

section

variable {bytes : Bytes}

/-- The header's bytes and the content's make up what was read. -/
theorem subarray_header {offset limit : Nat} {header : TlvHeader} (hin : HeaderIn offset limit header)
    (htag : bytes.getD offset 0 = header.tag) (hlimit : limit ≤ bytes.length) :
    subarray bytes offset header.contentEnd
      = header.tag :: (subarray bytes (offset + 1) header.contentOffset
        ++ subarray bytes header.contentOffset header.contentEnd) := by
  have hstart := hin.start
  have hordered := hin.ordered
  have hstop := hin.stop
  rw [subarray_cons (by omega) (by omega), htag]
  congr 1
  exact subarray_append (by omega) hordered (by omega)

/-- What is read was encoded there. -/
theorem readTlv_sound (depth : Nat) :
    (∀ offset limit node next, limit ≤ bytes.length →
      readTlv depth bytes offset limit = .ok (node, next) →
      Encodes node (subarray bytes offset next)) ∧
    ∀ offset limit children, offset ≤ limit → limit ≤ bytes.length →
      readChildren depth bytes offset limit = .ok children →
      EncodesAll children (subarray bytes offset limit) := by
  induction depth with
  | zero =>
    constructor
    · intro offset limit node next _ h
      cases h
    · intro offset limit children _ _ h
      cases h
  | succ depth ih =>
    constructor
    · intro offset limit node next hlimit h
      unfold readTlv at h
      cases hheader : readHeader bytes offset limit with
      | error failure =>
        rw [hheader] at h
        cases h
      | ok header =>
        rw [hheader] at h
        obtain ⟨hin, htag, hlength⟩ := readHeader_ok hheader
        have hordered := hin.ordered
        have hstop := hin.stop
        have hoctets := readLength_ok hlength hlimit
        have hsize : (subarray bytes header.contentOffset header.contentEnd).length
            = header.contentEnd - header.contentOffset := length_subarray (by omega)
        rw [← hsize] at hoctets
        dsimp only at h
        by_cases hconstructed : isConstructed header.tag = true
        · rw [if_pos hconstructed] at h
          cases hchildren : readChildren depth bytes header.contentOffset header.contentEnd with
          | error failure =>
            rw [hchildren] at h
            cases h
          | ok children =>
            rw [hchildren] at h
            cases h
            have hbody := ih.2 _ _ children hordered (by omega) hchildren
            rw [subarray_header hin htag hlimit]
            exact ⟨hin.allowed, hconstructed, _, _, hoctets, hbody, rfl⟩
        · rw [if_neg hconstructed] at h
          cases h
          rw [subarray_header hin htag hlimit]
          exact ⟨hin.allowed, Bool.eq_false_iff.mpr hconstructed, _, hoctets, rfl⟩
    · intro offset limit children hordered hlimit h
      unfold readChildren at h
      by_cases hmore : offset < limit
      · rw [if_pos hmore] at h
        cases hchild : readTlv depth bytes offset limit with
        | error failure =>
          rw [hchild] at h
          cases h
        | ok read =>
          obtain ⟨child, next⟩ := read
          rw [hchild] at h
          dsimp only at h
          have hnext := readTlv_next hchild
          cases hrest : readChildren depth bytes next limit with
          | error failure =>
            rw [hrest] at h
            cases h
          | ok rest =>
            rw [hrest] at h
            cases h
            have hfirst := ih.1 offset limit child next hlimit hchild
            have hothers := ih.2 next limit rest hnext.2 hlimit hrest
            exact ⟨_, _, hfirst, hothers, subarray_append (by omega) hnext.2 hlimit⟩
      · rw [if_neg hmore] at h
        cases h
        have hend : offset = limit := by omega
        rw [hend, subarray_self]
        rfl

/-- A tag, octets that say a length, and a content of this length, where they lie. -/
theorem readHeader_encoded {offset next limit : Nat} {tag : Fin 256} {octets content : Bytes}
    (hallowed : tag ∈ ALLOWED_TAGS) (hoctets : LengthOctets content.length octets)
    (hbytes : subarray bytes offset next = tag :: (octets ++ content)) (hnext : next ≤ limit)
    (hlimit : limit ≤ bytes.length) :
    ∃ contentOffset, readHeader bytes offset limit = .ok ⟨tag, contentOffset, next⟩ ∧
      offset + 2 ≤ contentOffset ∧ contentOffset ≤ next ∧
      subarray bytes contentOffset next = content := by
  have hsize : (subarray bytes offset next).length = next - offset := length_subarray (by omega)
  have hpos := hoctets.ne_nil
  rw [hbytes, List.length_cons, List.length_append] at hsize
  have hcons : subarray bytes offset next
      = bytes.getD offset 0 :: subarray bytes (offset + 1) next :=
    subarray_cons (by omega) (by omega)
  rw [hbytes] at hcons
  obtain ⟨htag, hrest⟩ := List.cons.inj hcons
  -- the length ends where its octets do
  obtain ⟨contentOffset, hcontent⟩ : ∃ contentOffset, contentOffset = offset + 1 + octets.length :=
    ⟨_, rfl⟩
  have hsplit : subarray bytes (offset + 1) next
      = subarray bytes (offset + 1) contentOffset ++ subarray bytes contentOffset next :=
    subarray_append (by omega) (by omega) (by omega)
  have hfirst : (subarray bytes (offset + 1) contentOffset).length = octets.length := by
    rw [length_subarray (by omega)]
    omega
  rw [hsplit] at hrest
  obtain ⟨hsame, hbody⟩ := List.append_inj hrest hfirst.symm
  rw [hsame] at hoctets
  refine ⟨contentOffset, ?_, by omega, by omega, hbody.symm⟩
  apply readHeader_of
  · refine ⟨hallowed, ?_, ?_, hnext⟩
    · show offset + 2 ≤ contentOffset
      omega
    · show contentOffset ≤ next
      omega
  · exact htag.symm
  · have hlength : next - contentOffset = content.length := by omega
    show readLength bytes (offset + 1) limit = .ok (next - contentOffset, contentOffset)
    rw [hlength]
    exact readLength_of hoctets (by omega) hlimit

theorem Encodes.length_ge {node : DerNode} {encoded : Bytes} (h : Encodes node encoded) :
    2 ≤ encoded.length := by
  cases node with
  | primitive tag content =>
    obtain ⟨-, -, octets, hoctets, rfl⟩ := h
    have hpos := hoctets.ne_nil
    rw [List.length_cons, List.length_append]
    omega
  | constructed tag children =>
    obtain ⟨-, -, octets, body, hoctets, -, rfl⟩ := h
    have hpos := hoctets.ne_nil
    rw [List.length_cons, List.length_append]
    omega

mutual

/-- What was encoded there is read. -/
theorem readTlv_complete : (node : DerNode) → ∀ depth offset next limit, offset ≤ next →
    next ≤ limit → limit ≤ bytes.length → next - offset ≤ depth →
    Encodes node (subarray bytes offset next) →
    readTlv depth bytes offset limit = .ok (node, next)
  | .primitive tag content => by
    intro depth offset next limit hordered hnext hlimit hdepth h
    have hlength := h.length_ge
    rw [length_subarray (by omega)] at hlength
    obtain ⟨hallowed, hprimitive, octets, hoctets, hbytes⟩ := h
    obtain ⟨contentOffset, hheader, -, -, hcontent⟩ :=
      readHeader_encoded hallowed hoctets hbytes hnext hlimit
    cases depth with
    | zero => omega
    | succ depth =>
      unfold readTlv
      rw [hheader]
      dsimp only
      rw [hprimitive, if_neg Bool.false_ne_true, hcontent]
  | .constructed tag children => by
    intro depth offset next limit hordered hnext hlimit hdepth h
    have hlength := h.length_ge
    rw [length_subarray (by omega)] at hlength
    obtain ⟨hallowed, hconstructed, octets, body, hoctets, hbody, hbytes⟩ := h
    obtain ⟨contentOffset, hheader, hstart, hstop, hcontent⟩ :=
      readHeader_encoded hallowed hoctets hbytes hnext hlimit
    cases depth with
    | zero => omega
    | succ depth =>
      rw [← hcontent] at hbody
      have hchildren := readChildren_complete children depth contentOffset next hstop
        (by omega) (by omega) hbody
      unfold readTlv
      rw [hheader]
      dsimp only
      rw [if_pos hconstructed, hchildren]

theorem readChildren_complete : (children : List DerNode) → ∀ depth offset stop, offset ≤ stop →
    stop ≤ bytes.length → stop - offset + 1 ≤ depth →
    EncodesAll children (subarray bytes offset stop) →
    readChildren depth bytes offset stop = .ok children
  | [] => by
    intro depth offset stop hordered hstop hdepth h
    have hsize : (subarray bytes offset stop).length = stop - offset := length_subarray hstop
    have hempty : subarray bytes offset stop = [] := h
    rw [hempty] at hsize
    cases depth with
    | zero => omega
    | succ depth =>
      unfold readChildren
      rw [if_neg (by rw [List.length_nil] at hsize; omega)]
  | child :: rest => by
    intro depth offset stop hordered hstop hdepth h
    obtain ⟨first, others, hfirst, hothers, hbytes⟩ := h
    have hlength := hfirst.length_ge
    have hsize : (subarray bytes offset stop).length = stop - offset := length_subarray hstop
    rw [hbytes, List.length_append] at hsize
    -- the child ends where its bytes do
    obtain ⟨next, hnext⟩ : ∃ next, next = offset + first.length := ⟨_, rfl⟩
    have hsplit : subarray bytes offset stop
        = subarray bytes offset next ++ subarray bytes next stop :=
      subarray_append (by omega) (by omega) hstop
    have hfront : (subarray bytes offset next).length = first.length := by
      rw [length_subarray (by omega)]
      omega
    rw [hbytes] at hsplit
    obtain ⟨rfl, rfl⟩ := List.append_inj hsplit hfront.symm
    cases depth with
    | zero => omega
    | succ depth =>
      have hchild := readTlv_complete child depth offset next stop (by omega) (by omega) hstop
        (by omega) hfirst
      have hmore := readChildren_complete rest depth next stop (by omega) hstop (by omega)
        hothers
      unfold readChildren
      rw [if_pos (by omega), hchild]
      dsimp only
      rw [hmore]

end

/-- The reader reads exactly what is encoded at its front, to where the encoding ends. -/
theorem decodeDer_iff {node : DerNode} :
    decodeDer bytes = .ok node ↔ ∃ next, next ≤ bytes.length ∧ Encodes node (bytes.take next) := by
  unfold decodeDer
  constructor
  · intro h
    cases hread : readTlv (bytes.length + 1) bytes 0 bytes.length with
    | error failure =>
      rw [hread] at h
      cases h
    | ok read =>
      obtain ⟨root, next⟩ := read
      rw [hread] at h
      cases h
      have hnext := readTlv_next hread
      have hencodes := (readTlv_sound _).1 0 _ root next (Nat.le_refl _) hread
      exact ⟨next, hnext.2, hencodes⟩
  · rintro ⟨next, hnext, h⟩
    have hread := readTlv_complete node (bytes.length + 1) 0 next bytes.length (Nat.zero_le _) hnext
      (Nat.le_refl _) (by omega) h
    rw [hread]
    rfl

end

end O2Fabric.X509
