/-
  O2Fabric.Core.X509.Exhausted

  What the grammar by position leaves unread: children of the signed part after
  the last one it reads, and children of the two wrappers after the first.
-/

import O2Fabric.Core.X509.Canonical

namespace O2Fabric.X509

/-! ## Tags -/

mutual

def tagsOf : DerNode → List (Fin 256)
  | .primitive tag _ => [tag]
  | .constructed tag children => tag :: tagsOfAll children

def tagsOfAll : List DerNode → List (Fin 256)
  | [] => []
  | child :: rest => tagsOf child ++ tagsOfAll rest

end

/-- No `issuerUniqueID` and no `subjectUniqueID`. -/
def NoUniqueId (node : DerNode) : Prop := ∀ tag ∈ tagsOf node, tag ≠ 0x81 ∧ tag ≠ 0x82

section

variable {node : DerNode}

theorem tagsOf_eq (node : DerNode) : tagsOf node = node.tag :: tagsOfAll node.children := by
  cases node with
  | primitive tag content => rfl
  | constructed tag children => rfl

theorem mem_tagsOfAll {tag : Fin 256} {children : List DerNode} (h : tag ∈ tagsOfAll children) :
    ∃ child ∈ children, tag ∈ tagsOf child := by
  induction children with
  | nil => exact absurd h List.not_mem_nil
  | cons child rest ih =>
    rcases List.mem_append.mp h with hin | hin
    · exact ⟨child, List.mem_cons_self, hin⟩
    · obtain ⟨child', hchild, htag⟩ := ih hin
      exact ⟨child', List.mem_cons_of_mem _ hchild, htag⟩

/-- A node whose tag is another, and whose children have none. -/
theorem noUniqueId_of (htag : node.tag ≠ 0x81 ∧ node.tag ≠ 0x82)
    (hchildren : ∀ child ∈ node.children, NoUniqueId child) : NoUniqueId node := by
  intro tag hin
  rw [tagsOf_eq] at hin
  rcases List.mem_cons.mp hin with rfl | hin
  · exact htag
  · obtain ⟨child, hchild, hmem⟩ := mem_tagsOfAll hin
    exact hchildren child hchild tag hmem

theorem profile_of_mem {children : List DerNode} (h : DerNode.ProfileAll children) :
    ∀ child ∈ children, child.Profile := by
  induction children with
  | nil =>
    intro child hchild
    exact absurd hchild List.not_mem_nil
  | cons first rest ih =>
    intro child hchild
    rcases List.mem_cons.mp hchild with rfl | hin
    · exact h.1
    · exact ih h.2 child hin

theorem profile_children (h : node.Profile) : ∀ child ∈ node.children, child.Profile := by
  cases node with
  | primitive tag content =>
    intro child hchild
    exact absurd hchild List.not_mem_nil
  | constructed tag children => exact profile_of_mem h.2.2

/-- A tag says whether there are children. -/
theorem noUniqueId_primitive (h : node.Profile) (hprimitive : isConstructed node.tag = false)
    (htag : node.tag ≠ 0x81 ∧ node.tag ≠ 0x82) : NoUniqueId node := by
  apply noUniqueId_of htag
  cases node with
  | primitive tag content =>
    intro child hchild
    exact absurd hchild List.not_mem_nil
  | constructed tag children =>
    have hconstructed : isConstructed tag = true := h.2.1
    have hfalse : isConstructed tag = false := hprimitive
    rw [hfalse] at hconstructed
    cases hconstructed

end

/-! ## What each reader has read -/

section

variable {node : DerNode}

theorem checkAlgorithm_none (h : checkAlgorithm node = none) :
    ∃ oidNode, node.children = [oidNode] ∧ oidNode.tag = 0x06 := by
  unfold checkAlgorithm at h
  split at h
  · cases h
  · rename_i oidNode parameters hchildren
    split at h
    · cases h
    · rename_i htag
      split at h
      · cases h
      · split at h
        · cases h
        · rename_i hparameters
          rw [not_not.mp hparameters] at hchildren
          exact ⟨oidNode, hchildren, not_not.mp htag⟩

variable {found : Option DerNode}

theorem readName_ok {name : JsString} (h : readName found = .ok name) :
    ∃ node rdn atv typeNode valueNode, found = some node ∧ node.tag = 0x30 ∧
      node.children = [rdn] ∧ rdn.tag = 0x31 ∧ rdn.children = [atv] ∧ atv.tag = 0x30 ∧
      atv.children = [typeNode, valueNode] ∧ typeNode.tag = 0x06 ∧ valueNode.tag = 0x0C := by
  cases found with
  | none => cases h
  | some node =>
    unfold readName at h
    dsimp only at h
    split at h
    · cases h
    · rename_i htag
      split at h
      · rename_i rdn hrdn
        split at h
        · cases h
        · rename_i hset
          split at h
          · cases h
          · rename_i atv hatv
            split at h
            · cases h
            · rename_i hpair
              split at h
              · rename_i typeNode valueNode hchildren
                split at h
                · cases h
                · rename_i htype
                  split at h
                  · cases h
                  · rename_i hvalue
                    rw [not_or, not_not, not_not] at htype
                    exact ⟨node, rdn, atv, typeNode, valueNode, rfl, not_not.mp htag, hrdn,
                      not_not.mp hset, hatv, not_not.mp hpair, hchildren, htype.1,
                      not_not.mp hvalue⟩
              · cases h
          · cases h
      · cases h

theorem filter_tag {tag : Fin 256} {node : DerNode}
    (h : (found.filter fun node => decide (node.tag = tag)) = some node) :
    found = some node ∧ node.tag = tag := by
  obtain ⟨hfound, htag⟩ := Option.filter_eq_some_iff.mp h
  exact ⟨hfound, of_decide_eq_true htag⟩

theorem readSerialNumber_ok {serial : JsString} (h : readSerialNumber found = .ok serial) :
    ∃ node, found = some node ∧ node.tag = 0x02 := by
  unfold readSerialNumber at h
  split at h
  · cases h
  · rename_i node hnode
    exact ⟨node, filter_tag hnode⟩

theorem checkTbsAlgorithm_ok (h : checkTbsAlgorithm found = .ok ()) :
    ∃ node, found = some node ∧ node.tag = 0x30 ∧ checkAlgorithm node = none := by
  unfold checkTbsAlgorithm at h
  split at h
  · cases h
  · rename_i node hnode
    split at h
    · cases h
    · rename_i halgorithm
      obtain ⟨hfound, htag⟩ := filter_tag hnode
      exact ⟨node, hfound, htag, halgorithm⟩

theorem readValidity_ok {validity : ℤ × ℤ} (h : readValidity found = .ok validity) :
    ∃ node notBefore notAfter, found = some node ∧ node.tag = 0x30 ∧
      node.children = [notBefore, notAfter] ∧ notBefore.tag = 0x17 ∧ notAfter.tag = 0x17 := by
  unfold readValidity at h
  dsimp only at h
  split at h
  · cases h
  · rename_i node hnode
    split at h
    · rename_i notBefore notAfter hchildren
      split at h
      · cases h
      · split at h
        · cases h
        · rename_i htags
          rw [not_or, not_not, not_not] at htags
          obtain ⟨hfound, htag⟩ := filter_tag hnode
          exact ⟨node, notBefore, notAfter, hfound, htag, hchildren, htags.1, htags.2⟩
    · cases h

theorem readSubjectPublicKey_ok {key : JsString} (h : readSubjectPublicKey found = .ok key) :
    ∃ node algorithm bits, found = some node ∧ node.tag = 0x30 ∧
      node.children = [algorithm, bits] ∧ algorithm.tag = 0x30 ∧ checkAlgorithm algorithm = none ∧
      bits.tag = 0x03 := by
  unfold readSubjectPublicKey at h
  dsimp only at h
  split at h
  · cases h
  · rename_i node hnode
    split at h
    · rename_i algorithm bits hchildren
      split at h
      · cases h
      · rename_i halgorithm
        split at h
        · cases h
        · rename_i hchecked
          split at h
          · cases h
          · rename_i hbits
            rw [not_or, not_not, not_not] at hbits
            obtain ⟨hfound, htag⟩ := filter_tag hnode
            exact ⟨node, algorithm, bits, hfound, htag, hchildren, not_not.mp halgorithm, hchecked,
              hbits.1⟩
    · cases h

/-- The version's wrapper, where there is one, has been taken off the front. -/
theorem readVersion_ok {children rest : List DerNode} {version : Nat}
    (h : readVersion children = .ok (version, rest)) :
    (children = rest ∧ ∀ first ∈ rest.head?, first.tag ≠ 0xA0) ∨
    ∃ wrapper inner others, children = wrapper :: rest ∧ wrapper.tag = 0xA0 ∧
      wrapper.children = inner :: others ∧ inner.tag = 0x02 := by
  unfold readVersion at h
  dsimp only at h
  split at h
  · cases h
    left
    refine ⟨rfl, ?_⟩
    intro first hfirst
    cases hfirst
  · rename_i first others
    split at h
    · rename_i htag
      split at h
      · cases h
      · rename_i inner more hinner
        split at h
        · cases h
        · rename_i hinteger
          cases h
          exact Or.inr ⟨first, inner, more, rfl, htag, hinner, not_not.mp hinteger⟩
    · rename_i htag
      cases h
      left
      refine ⟨rfl, ?_⟩
      intro first' hfirst
      cases hfirst
      exact htag

theorem parseExtension_ok {ext : DerNode} {raw : RawExtension}
    (h : parseExtension ext = .ok raw) :
    ext.tag = 0x30 ∧ ∀ child ∈ ext.children,
      child.tag = 0x06 ∨ child.tag = 0x01 ∨ child.tag = 0x04 := by
  unfold parseExtension at h
  dsimp only at h
  split at h
  · cases h
  · rename_i htag
    refine ⟨not_not.mp htag, ?_⟩
    split at h
    · rename_i extnId extnValue hchildren
      rw [hchildren]
      split at h
      · cases h
      · rename_i hid
        split at h
        · cases h
        · rename_i hvalue
          simp only [not_not.mp hid, not_not.mp hvalue, List.forall_mem_cons, true_or, or_true,
            List.not_mem_nil, false_implies, implies_true, and_true]
    · rename_i extnId critical extnValue hchildren
      rw [hchildren]
      split at h
      · cases h
      · rename_i hcritical
        split at h
        · cases h
        · rename_i hid
          split at h
          · cases h
          · rename_i hvalue
            simp only [not_not.mp hid, not_not.mp hcritical, not_not.mp hvalue,
              List.forall_mem_cons, true_or, or_true, List.not_mem_nil, false_implies,
              implies_true, and_true]
    · cases h

theorem parseEach_ok {list : List DerNode} {raws : List RawExtension}
    (h : parseEach list = .ok raws) : ∀ ext ∈ list, ∃ raw, parseExtension ext = .ok raw := by
  induction list generalizing raws with
  | nil =>
    intro ext hext
    exact absurd hext List.not_mem_nil
  | cons first rest ih =>
    unfold parseEach at h
    split at h
    · cases h
    · rename_i raw hraw
      split at h
      · cases h
      · rename_i more hmore
        intro ext hext
        rcases List.mem_cons.mp hext with rfl | hin
        · exact ⟨raw, hraw⟩
        · exact ih hmore ext hin

theorem readExtensions_ok {decode : Bytes → Except JsString CanonicalValue} {wrapper : DerNode}
    {fields : ExtensionFields} (h : readExtensions decode wrapper = .ok fields) :
    ∃ list others, wrapper.children = list :: others ∧ list.tag = 0x30 ∧
      ∀ ext ∈ list.children, ∃ raw, parseExtension ext = .ok raw := by
  unfold readExtensions at h
  split at h
  · cases h
  · rename_i raws hraws
    unfold parseExtensionList at hraws
    dsimp only at hraws
    split at hraws
    · cases hraws
    · rename_i list others hchildren
      split at hraws
      · cases hraws
      · rename_i htag
        exact ⟨list, others, hchildren, not_not.mp htag, parseEach_ok hraws⟩

end

/-! ## The signed part -/

/-- The children of the signed part by position: the version that may be left out, the six that may
    not, and the others. -/
structure Parts where
  version : Option DerNode
  serial : DerNode
  algorithm : DerNode
  issuer : DerNode
  validity : DerNode
  subject : DerNode
  spki : DerNode
  more : List DerNode

namespace Parts

variable (p : Parts)

def six : List DerNode := [p.serial, p.algorithm, p.issuer, p.validity, p.subject, p.spki]

def children : List DerNode := p.version.toList ++ (p.six ++ p.more)

structure Reads : Prop where
  version : ∀ wrapper ∈ p.version, wrapper.tag = 0xA0 ∧
    ∃ inner others, wrapper.children = inner :: others ∧ inner.tag = 0x02
  serial : p.serial.tag = 0x02
  algorithm : p.algorithm.tag = 0x30 ∧ checkAlgorithm p.algorithm = none
  issuer : ∃ name, readName (some p.issuer) = .ok name
  validity : ∃ times, readValidity (some p.validity) = .ok times
  subject : ∃ name, readName (some p.subject) = .ok name
  spki : ∃ key, readSubjectPublicKey (some p.spki) = .ok key

/-- The tags of the six. -/
structure Tagged : Prop where
  serial : p.serial.tag = 0x02
  algorithm : p.algorithm.tag = 0x30
  issuer : p.issuer.tag = 0x30
  validity : p.validity.tag = 0x30
  subject : p.subject.tag = 0x30
  spki : p.spki.tag = 0x30

variable {p}

theorem Reads.tagged (h : p.Reads) : p.Tagged := by
  obtain ⟨issuerName, hissuer⟩ := h.issuer
  obtain ⟨times, hvalidity⟩ := h.validity
  obtain ⟨subjectName, hsubject⟩ := h.subject
  obtain ⟨key, hspki⟩ := h.spki
  obtain ⟨issuer, -, -, -, -, hsomeIssuer, hissuerTag, -⟩ := readName_ok hissuer
  obtain ⟨validity, -, -, hsomeValidity, hvalidityTag, -⟩ := readValidity_ok hvalidity
  obtain ⟨subject, -, -, -, -, hsomeSubject, hsubjectTag, -⟩ := readName_ok hsubject
  obtain ⟨spki, -, -, hsomeSpki, hspkiTag, -⟩ := readSubjectPublicKey_ok hspki
  cases hsomeIssuer
  cases hsomeValidity
  cases hsomeSubject
  cases hsomeSpki
  exact ⟨h.serial, h.algorithm.1, hissuerTag, hvalidityTag, hsubjectTag, hspkiTag⟩

/-- None of the six is a wrapper. -/
theorem Tagged.six (h : p.Tagged) : ∀ child ∈ p.six, child.tag = 0x02 ∨ child.tag = 0x30 := by
  unfold Parts.six
  simp only [List.forall_mem_cons, h.serial, h.algorithm, h.issuer, h.validity, h.subject, h.spki,
    true_or, or_true, List.not_mem_nil, false_implies, implies_true, and_true]

end Parts

theorem six_of_getElem? {rest : List DerNode} {n0 n1 n2 n3 n4 n5 : DerNode}
    (h0 : rest[0]? = some n0) (h1 : rest[1]? = some n1) (h2 : rest[2]? = some n2)
    (h3 : rest[3]? = some n3) (h4 : rest[4]? = some n4) (h5 : rest[5]? = some n5) :
    rest = [n0, n1, n2, n3, n4, n5] ++ rest.drop 6 := by
  match rest, h0, h1, h2, h3, h4, h5 with
  | [], h0, _, _, _, _, _ => cases h0
  | [_], _, h1, _, _, _, _ => cases h1
  | [_, _], _, _, h2, _, _, _ => cases h2
  | [_, _, _], _, _, _, h3, _, _ => cases h3
  | [_, _, _, _], _, _, _, _, h4, _ => cases h4
  | [_, _, _, _, _], _, _, _, _, _, h5 => cases h5
  | _ :: _ :: _ :: _ :: _ :: _ :: _, h0, h1, h2, h3, h4, h5 =>
    cases h0
    cases h1
    cases h2
    cases h3
    cases h4
    cases h5
    rfl

variable {tbs : DerNode} {fields : TbsFields}

/-- What the grammar by position has read. -/
theorem assembleTbs_ok (h : assembleTbs tbs = .ok fields) :
    ∃ p : Parts, tbs.children = p.children ∧ p.Reads ∧
      fields.extensionsNode = p.more.head?.filter fun node => decide (node.tag = 0xA3) := by
  unfold assembleTbs at h
  obtain ⟨⟨version, rest⟩, hversion, h⟩ := bind_ok.mp h
  obtain ⟨serialNumber, hserial, h⟩ := bind_ok.mp h
  obtain ⟨_, halgorithm, h⟩ := bind_ok.mp h
  obtain ⟨issuerName, hissuer, h⟩ := bind_ok.mp h
  obtain ⟨times, hvalidity, h⟩ := bind_ok.mp h
  obtain ⟨subjectName, hsubject, h⟩ := bind_ok.mp h
  obtain ⟨key, hspki, h⟩ := bind_ok.mp h
  obtain ⟨serial, hsome0, hserialTag⟩ := readSerialNumber_ok hserial
  obtain ⟨algorithm, hsome1, halgorithmTag, hchecked⟩ := checkTbsAlgorithm_ok halgorithm
  obtain ⟨issuer, -, -, -, -, hsome2, -⟩ := readName_ok hissuer
  obtain ⟨validity, -, -, hsome3, -⟩ := readValidity_ok hvalidity
  obtain ⟨subject, -, -, -, -, hsome4, -⟩ := readName_ok hsubject
  obtain ⟨spki, -, -, hsome5, -⟩ := readSubjectPublicKey_ok hspki
  have hrest := six_of_getElem? hsome0 hsome1 hsome2 hsome3 hsome4 hsome5
  have hextensions : fields.extensionsNode
      = rest[6]?.filter fun node => decide (node.tag = 0xA3) := by
    split at h
    · cases h
    · cases h
      rfl
  rw [hsome2] at hissuer
  rw [hsome3] at hvalidity
  rw [hsome4] at hsubject
  rw [hsome5] at hspki
  have hmore : rest[6]? = (rest.drop 6).head? := List.head?_drop.symm
  rw [hmore] at hextensions
  rcases readVersion_ok hversion with ⟨hnone, -⟩ | ⟨wrapper, inner, others, hcons, htag, hin, hinner⟩
  · refine ⟨⟨none, serial, algorithm, issuer, validity, subject, spki, rest.drop 6⟩, ?_, ?_,
      hextensions⟩
    · rw [hnone]
      exact hrest
    · refine ⟨?_, hserialTag, ⟨halgorithmTag, hchecked⟩, ⟨_, hissuer⟩, ⟨_, hvalidity⟩,
        ⟨_, hsubject⟩, ⟨_, hspki⟩⟩
      intro wrapper hwrapper
      cases hwrapper
  · refine ⟨⟨some wrapper, serial, algorithm, issuer, validity, subject, spki, rest.drop 6⟩, ?_, ?_,
      hextensions⟩
    · rw [hcons]
      exact congrArg (wrapper :: ·) hrest
    · refine ⟨?_, hserialTag, ⟨halgorithmTag, hchecked⟩, ⟨_, hissuer⟩, ⟨_, hvalidity⟩,
        ⟨_, hsubject⟩, ⟨_, hspki⟩⟩
      intro wrapper' hwrapper
      cases hwrapper
      exact ⟨htag, inner, others, hin, hinner⟩

/-! ## Nothing unread -/

/-- The signed part is these children, in this order, and no other; a wrapper holds one node. -/
def ReadWhole (tbs : DerNode) : Prop :=
  ∃ p : Parts, tbs.children = p.children ∧ p.Tagged ∧
    (∀ wrapper ∈ p.version, wrapper.tag = 0xA0 ∧ wrapper.children.length = 1) ∧
    p.more.length ≤ 1 ∧ ∀ wrapper ∈ p.more, wrapper.tag = 0xA3 ∧ wrapper.children.length = 1

def afterVersion (tbs : DerNode) : List DerNode :=
  match tbs.children with
  | [] => []
  | first :: rest => if first.tag = 0xA0 then rest else first :: rest

/-- After the version there are at most seven, the seventh of them the extensions, and no wrapper
    is of any other number of nodes than one. -/
structure Spent (tbs : DerNode) : Prop where
  seven : (afterVersion tbs).length ≤ 7
  seventh : ∀ last ∈ (afterVersion tbs)[6]?, last.tag = 0xA3
  wrappers : ∀ child ∈ tbs.children, child.tag = 0xA0 ∨ child.tag = 0xA3 →
    child.children.length = 1

theorem afterVersion_parts {p : Parts} (htagged : p.Tagged) (hchildren : tbs.children = p.children)
    (hversion : ∀ wrapper ∈ p.version, wrapper.tag = 0xA0) :
    afterVersion tbs = p.six ++ p.more := by
  unfold afterVersion
  rw [hchildren]
  cases hp : p.version with
  | none =>
    have hwhole : p.children = p.serial :: (p.six ++ p.more).tail := by
      unfold Parts.children
      rw [hp]
      rfl
    have hother : p.serial.tag ≠ 0xA0 := by
      rw [htagged.serial]
      decide
    rw [hwhole]
    dsimp only
    rw [if_neg hother]
    rfl
  | some wrapper =>
    have hwhole : p.children = wrapper :: (p.six ++ p.more) := by
      unfold Parts.children
      rw [hp]
      rfl
    have htag : wrapper.tag = 0xA0 := hversion wrapper hp
    rw [hwhole]
    dsimp only
    rw [if_pos htag]

theorem spent_of_readWhole (h : ReadWhole tbs) : Spent tbs := by
  obtain ⟨p, hchildren, htagged, hversion, hone, hmore⟩ := h
  have hafter := afterVersion_parts htagged hchildren fun wrapper hw => (hversion wrapper hw).1
  refine ⟨?_, ?_, ?_⟩
  · rw [hafter, List.length_append]
    show 6 + p.more.length ≤ 7
    omega
  · rw [hafter]
    intro last hlast
    have hhead : p.more[0]? = some last := hlast
    exact (hmore last (List.mem_of_getElem? hhead)).1
  · intro child hchild hwrapper
    rw [hchildren] at hchild
    rcases List.mem_append.mp hchild with hin | hin
    · exact (hversion child (Option.mem_toList.mp hin)).2
    · rcases List.mem_append.mp hin with hsix | hin
      · rcases htagged.six child hsix with htag | htag
        · rw [htag] at hwrapper
          exact absurd hwrapper (by decide)
        · rw [htag] at hwrapper
          exact absurd hwrapper (by decide)
      · exact (hmore child hin).2

/-- What follows the six is the extensions, alone. -/
theorem Spent.more {p : Parts} (h : Spent tbs) (hafter : afterVersion tbs = p.six ++ p.more) :
    ∀ wrapper ∈ p.more, p.more = [wrapper] ∧ wrapper.tag = 0xA3 := by
  intro wrapper hwrapper
  have hseven := h.seven
  have hseventh := h.seventh
  rw [hafter] at hseven hseventh
  rw [List.length_append] at hseven
  have hsix : p.six.length = 6 := rfl
  cases hmore : p.more with
  | nil =>
    rw [hmore] at hwrapper
    exact absurd hwrapper List.not_mem_nil
  | cons first rest =>
    rw [hmore] at hseven hwrapper hseventh
    have hempty : rest = [] := List.length_eq_zero_iff.mp (by
      rw [List.length_cons] at hseven
      omega)
    rw [hempty] at hwrapper ⊢
    rw [List.mem_singleton.mp hwrapper]
    exact ⟨rfl, hseventh first rfl⟩

theorem readWhole_of_spent (hread : assembleTbs tbs = .ok fields) (h : Spent tbs) :
    ReadWhole tbs := by
  obtain ⟨p, hchildren, hreads, -⟩ := assembleTbs_ok hread
  have hafter := afterVersion_parts hreads.tagged hchildren fun wrapper hw =>
    (hreads.version wrapper hw).1
  have hwrappers := h.wrappers
  rw [hchildren] at hwrappers
  refine ⟨p, hchildren, hreads.tagged, ?_, ?_, ?_⟩
  · intro wrapper hwrapper
    have htag := (hreads.version wrapper hwrapper).1
    exact ⟨htag, hwrappers wrapper (List.mem_append_left _ (Option.mem_toList.mpr hwrapper))
      (Or.inl htag)⟩
  · have hseven := h.seven
    rw [hafter, List.length_append] at hseven
    have hsix : p.six.length = 6 := rfl
    omega
  · intro wrapper hwrapper
    have htag := (h.more hafter wrapper hwrapper).2
    exact ⟨htag, hwrappers wrapper (List.mem_append_right _ (List.mem_append_right _ hwrapper))
      (Or.inr htag)⟩

/-! ## No unique identifier -/

section

variable {node : DerNode}

theorem noUniqueId_leaf {tag : Fin 256} (h : node.Profile) (htag : node.tag = tag)
    (hprimitive : isConstructed tag = false) (hother : tag ≠ 0x81 ∧ tag ≠ 0x82) :
    NoUniqueId node := by
  apply noUniqueId_primitive h
  · rw [htag]
    exact hprimitive
  · rw [htag]
    exact hother

/-- A node with one of the other tags, and nothing wrong below it. -/
theorem noUniqueId_node {tag : Fin 256} {children : List DerNode} (htag : node.tag = tag)
    (hchildren : node.children = children) (hother : tag ≠ 0x81 ∧ tag ≠ 0x82)
    (hbelow : ∀ child ∈ children, NoUniqueId child) : NoUniqueId node := by
  apply noUniqueId_of
  · rw [htag]
    exact hother
  · rw [hchildren]
    exact hbelow

theorem noUniqueId_algorithm (h : node.Profile) (htag : node.tag = 0x30)
    (hchecked : checkAlgorithm node = none) : NoUniqueId node := by
  obtain ⟨oidNode, hchildren, hoid⟩ := checkAlgorithm_none hchecked
  have hprofile := profile_children h
  rw [hchildren] at hprofile
  refine noUniqueId_node htag hchildren (by decide) ?_
  exact List.forall_mem_singleton.mpr
    (noUniqueId_leaf (List.forall_mem_singleton.mp hprofile) hoid (by decide) (by decide))

theorem noUniqueId_name (h : node.Profile) {name : JsString}
    (hread : readName (some node) = .ok name) : NoUniqueId node := by
  obtain ⟨_, rdn, atv, typeNode, valueNode, hsome, htag, hrdn, hrdnTag, hatv, hatvTag, hpair, htype,
    hvalue⟩ := readName_ok hread
  cases hsome
  have hrdnProfile := profile_children h
  rw [hrdn] at hrdnProfile
  have hatvProfile := profile_children (List.forall_mem_singleton.mp hrdnProfile)
  rw [hatv] at hatvProfile
  have hpairProfile := profile_children (List.forall_mem_singleton.mp hatvProfile)
  rw [hpair] at hpairProfile
  obtain ⟨htypeProfile, hvalueProfile⟩ := List.forall_mem_cons.mp hpairProfile
  have hatvNone : NoUniqueId atv := by
    refine noUniqueId_node hatvTag hpair (by decide) (List.forall_mem_cons.mpr ⟨?_, ?_⟩)
    · exact noUniqueId_leaf htypeProfile htype (by decide) (by decide)
    · exact List.forall_mem_singleton.mpr
        (noUniqueId_leaf (List.forall_mem_singleton.mp hvalueProfile) hvalue (by decide) (by decide))
  have hrdnNone : NoUniqueId rdn :=
    noUniqueId_node hrdnTag hatv (by decide) (List.forall_mem_singleton.mpr hatvNone)
  exact noUniqueId_node htag hrdn (by decide) (List.forall_mem_singleton.mpr hrdnNone)

theorem noUniqueId_validity (h : node.Profile) {times : ℤ × ℤ}
    (hread : readValidity (some node) = .ok times) : NoUniqueId node := by
  obtain ⟨_, notBefore, notAfter, hsome, htag, hchildren, hbefore, hafter⟩ := readValidity_ok hread
  cases hsome
  have hprofile := profile_children h
  rw [hchildren] at hprofile
  obtain ⟨hbeforeProfile, hafterProfile⟩ := List.forall_mem_cons.mp hprofile
  refine noUniqueId_node htag hchildren (by decide) (List.forall_mem_cons.mpr ⟨?_, ?_⟩)
  · exact noUniqueId_leaf hbeforeProfile hbefore (by decide) (by decide)
  · exact List.forall_mem_singleton.mpr
      (noUniqueId_leaf (List.forall_mem_singleton.mp hafterProfile) hafter (by decide) (by decide))

theorem noUniqueId_spki (h : node.Profile) {key : JsString}
    (hread : readSubjectPublicKey (some node) = .ok key) : NoUniqueId node := by
  obtain ⟨_, algorithm, bits, hsome, htag, hchildren, halgorithm, hchecked, hbits⟩ :=
    readSubjectPublicKey_ok hread
  cases hsome
  have hprofile := profile_children h
  rw [hchildren] at hprofile
  obtain ⟨halgorithmProfile, hbitsProfile⟩ := List.forall_mem_cons.mp hprofile
  refine noUniqueId_node htag hchildren (by decide) (List.forall_mem_cons.mpr ⟨?_, ?_⟩)
  · exact noUniqueId_algorithm halgorithmProfile halgorithm hchecked
  · exact List.forall_mem_singleton.mpr
      (noUniqueId_leaf (List.forall_mem_singleton.mp hbitsProfile) hbits (by decide) (by decide))

theorem noUniqueId_extension (h : node.Profile) {raw : RawExtension}
    (hread : parseExtension node = .ok raw) : NoUniqueId node := by
  obtain ⟨htag, hchildren⟩ := parseExtension_ok hread
  have hprofile := profile_children h
  refine noUniqueId_node htag rfl (by decide) ?_
  intro child hchild
  rcases hchildren child hchild with hoid | hboolean | hoctets
  · exact noUniqueId_leaf (hprofile child hchild) hoid (by decide) (by decide)
  · exact noUniqueId_leaf (hprofile child hchild) hboolean (by decide) (by decide)
  · exact noUniqueId_leaf (hprofile child hchild) hoctets (by decide) (by decide)

/-- The wrapper of the extensions, where it holds nothing but them. -/
theorem noUniqueId_extensions (h : node.Profile) (htag : node.tag = 0xA3)
    (hone : node.children.length = 1) {decode : Bytes → Except JsString CanonicalValue}
    {fields : ExtensionFields} (hread : readExtensions decode node = .ok fields) :
    NoUniqueId node := by
  obtain ⟨list, others, hchildren, hlistTag, hparsed⟩ := readExtensions_ok hread
  have hprofile := profile_children h
  rw [hchildren] at hone hprofile
  have hempty : others = [] := List.length_eq_zero_iff.mp (by
    rw [List.length_cons] at hone
    omega)
  have hlistProfile : list.Profile := (List.forall_mem_cons.mp hprofile).1
  have hlist : NoUniqueId list := by
    refine noUniqueId_node hlistTag rfl (by decide) ?_
    intro ext hext
    obtain ⟨raw, hraw⟩ := hparsed ext hext
    exact noUniqueId_extension (profile_children hlistProfile ext hext) hraw
  rw [hempty] at hchildren
  exact noUniqueId_node htag hchildren (by decide) (List.forall_mem_singleton.mpr hlist)

/-- The wrapper of the version, where it holds nothing else. -/
theorem noUniqueId_version (h : node.Profile) (htag : node.tag = 0xA0)
    (hone : node.children.length = 1) {inner : DerNode} {others : List DerNode}
    (hchildren : node.children = inner :: others) (hinner : inner.tag = 0x02) :
    NoUniqueId node := by
  have hprofile := profile_children h
  rw [hchildren] at hone hprofile
  have hempty : others = [] := List.length_eq_zero_iff.mp (by
    rw [List.length_cons] at hone
    omega)
  rw [hempty] at hchildren
  refine noUniqueId_node htag hchildren (by decide) (List.forall_mem_singleton.mpr ?_)
  exact noUniqueId_leaf (List.forall_mem_cons.mp hprofile).1 hinner (by decide) (by decide)

end

/-- A signed part that is read whole has no unique identifier anywhere in it. -/
theorem noUniqueId_tbs {decode : Bytes → Except JsString CanonicalValue}
    {extensions : ExtensionFields} (h : tbs.Profile) (htag : tbs.tag = 0x30)
    (hread : assembleTbs tbs = .ok fields)
    (hextensions : readOptionalExtensions decode fields.extensionsNode = .ok extensions)
    (hspent : Spent tbs) : NoUniqueId tbs := by
  obtain ⟨p, hchildren, hreads, hnode⟩ := assembleTbs_ok hread
  have hprofile := profile_children h
  have hwrappers := hspent.wrappers
  obtain ⟨issuerName, hissuer⟩ := hreads.issuer
  obtain ⟨times, hvalidity⟩ := hreads.validity
  obtain ⟨subjectName, hsubject⟩ := hreads.subject
  obtain ⟨key, hspki⟩ := hreads.spki
  have hafter := afterVersion_parts hreads.tagged hchildren fun wrapper hw =>
    (hreads.version wrapper hw).1
  refine noUniqueId_node htag hchildren (by decide) ?_
  rw [hchildren] at hprofile hwrappers
  intro child hchild
  have hchildProfile := hprofile child hchild
  rcases List.mem_append.mp hchild with hin | hin
  · obtain ⟨hversionTag, inner, others, hinner, hinteger⟩ :=
      hreads.version child (Option.mem_toList.mp hin)
    exact noUniqueId_version hchildProfile hversionTag
      (hwrappers child hchild (Or.inl hversionTag)) hinner hinteger
  · rcases List.mem_append.mp hin with hsix | hmore
    · have hcases : child = p.serial ∨ child = p.algorithm ∨ child = p.issuer ∨
          child = p.validity ∨ child = p.subject ∨ child = p.spki := by
        simpa only [Parts.six, List.mem_cons, List.not_mem_nil, or_false] using hsix
      rcases hcases with rfl | rfl | rfl | rfl | rfl | rfl
      · exact noUniqueId_leaf hchildProfile hreads.serial (by decide) (by decide)
      · exact noUniqueId_algorithm hchildProfile hreads.algorithm.1 hreads.algorithm.2
      · exact noUniqueId_name hchildProfile hissuer
      · exact noUniqueId_validity hchildProfile hvalidity
      · exact noUniqueId_name hchildProfile hsubject
      · exact noUniqueId_spki hchildProfile hspki
    · -- the one that follows the six is what the extensions were read from
      obtain ⟨hmoreIs, hmoreTag⟩ := hspent.more hafter child hmore
      have hsome : fields.extensionsNode = some child := by
        rw [hnode, hmoreIs]
        exact Option.filter_eq_some_iff.mpr ⟨rfl, decide_eq_true hmoreTag⟩
      rw [hsome] at hextensions
      exact noUniqueId_extensions hchildProfile hmoreTag (hwrappers child hchild (Or.inr hmoreTag))
        hextensions

/-- Of an accepted certificate, the signed part has no child but those that are read, in order, each
    wrapper one, and no unique identifier is anywhere, exactly where nothing is left after the
    reading. -/
theorem accepted_read_whole {decode : Bytes → Except JsString CanonicalValue}
    {bytes tbsBytes : Bytes} {certificate : X509Certificate} {root tbsNode : DerNode}
    (haccepted : decodeX509Certificate decode bytes = .ok (certificate, tbsBytes))
    (hdecode : decodeDer bytes = .ok root) (htbs : root.children.head? = some tbsNode) :
    ReadWhole tbsNode ∧ NoUniqueId root ↔ Spent tbsNode := by
  constructor
  · rintro ⟨hwhole, -⟩
    exact spent_of_readWhole hwhole
  · intro hspent
    obtain ⟨-, root', tbsNode', hdecode', hassemble, -⟩ := decodeX509Certificate_iff.mp haccepted
    rw [hdecode] at hdecode'
    cases hdecode'
    obtain ⟨hroot, htbsTag, outer, sig, fields, extensions, hchildren, hread, houter, hchecked, hsig,
      -, hextensions, -⟩ := assembleCertificate_iff.mp hassemble
    rw [hchildren] at htbs
    cases htbs
    have hprofile := profile_children (profile_of_decodeDer hdecode)
    rw [hchildren] at hprofile
    simp only [List.forall_mem_cons] at hprofile
    obtain ⟨htbsProfile, houterProfile, hsigProfile, -⟩ := hprofile
    refine ⟨readWhole_of_spent hread hspent, noUniqueId_node hroot hchildren (by decide) ?_⟩
    have htbsNone := noUniqueId_tbs htbsProfile htbsTag hread hextensions hspent
    have houterNone := noUniqueId_algorithm houterProfile houter hchecked
    have hsigNone := noUniqueId_leaf hsigProfile hsig (by decide) (by decide)
    exact List.forall_mem_cons.mpr ⟨htbsNone, List.forall_mem_cons.mpr
      ⟨houterNone, List.forall_mem_singleton.mpr hsigNone⟩⟩

/-- The shortest certificate is read whole. -/
theorem accepted_read_whole_shortest :
    ∃ bytes root tbsNode, decodeDer bytes = .ok root ∧ root.children.head? = some tbsNode ∧
      ReadWhole tbsNode ∧ NoUniqueId root := by
  obtain ⟨certificate, tbsBytes, hok, hdecode⟩ := tree_of_isSome
    (@shortest_profile [1] ed25519Bytes (List.replicate 65 0) [] trivial) rfl (by decide +kernel)
  refine ⟨_, _, _, hdecode, rfl, (accepted_read_whole hok hdecode rfl).mpr ⟨?_, ?_, ?_⟩⟩
  · decide
  · intro last hlast
    cases hlast
  · decide

/-- Extensions that are none, and an `issuerUniqueID` after them. -/
def identified : List DerNode := [.constructed 0xA3 [.constructed 0x30 []], .primitive 0x81 []]

/-- It is looked for before the extensions only. -/
theorem unique_id_accepted :
    ¬ ∀ (decode : Bytes → Except JsString CanonicalValue) (bytes tbsBytes : Bytes)
      (certificate : X509Certificate) (root tbsNode : DerNode),
      decodeX509Certificate decode bytes = .ok (certificate, tbsBytes) →
      decodeDer bytes = .ok root → root.children.head? = some tbsNode →
      ReadWhole tbsNode ∧ NoUniqueId root := by
  intro hclaim
  have hmore : DerNode.ProfileAll identified := by
    simp [identified, DerNode.ProfileAll, DerNode.Profile, ALLOWED_TAGS, isConstructed]
  obtain ⟨certificate, tbsBytes, hok, hdecode⟩ := tree_of_isSome
    (shortest_profile [1] ed25519Bytes (List.replicate 65 0) hmore) rfl (by decide +kernel)
  have hnone := (hclaim _ _ _ _ _ _ hok hdecode rfl).2
  have hin : 0x81 ∈ tagsOf (shortest [1] ed25519Bytes (List.replicate 65 0) identified) := by
    decide +kernel
  exact (hnone 0x81 hin).1 rfl

end O2Fabric.X509
