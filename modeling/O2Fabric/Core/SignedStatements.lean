/-
  O2Fabric.Core.SignedStatements

  What is signed in the fabric: nine kinds of statement, each with the record
  whose canonical encoding a signature covers.  The record is told by its kind,
  and by every field of the statement but for the orders that it forgets, so a
  signature over one statement is a signature over no other.

  Injective is the encoder on the values that are canonical; which these are is
  a parameter.  (A text with an unpaired surrogate is encoded as another text,
  so values that hold one are not among them.)
-/

import O2Fabric.Core.Capability
import O2Fabric.Core.Discovery
import O2Fabric.Core.EnrollmentAuthority
import O2Fabric.Core.X509Form

namespace O2Fabric.Signed

/-! ## Statements -/

inductive Statement
  | capabilityDelegation (delegation : Delegation)
  | nameDelegation (delegation : NameDelegation)
  | nameRecord (record : NameRecord)
  | capabilityRecord (record : CapabilityRecord)
  | certificate (certificate : NodeCertificate)
  | possession (nodeKey userKey : JsString)
  | challengeAnswer (nonce nodeKey userKey : JsString)
  | result (work : ResultWork) (nodeKey : JsString)
  | combine (inputCids : List Cid) (resultCid : Cid) (nodeKey : JsString)

abbrev Fields := List (JsString × CanonicalValue)

def texts (list : List JsString) : CanonicalValue := .list (list.map .text)

def sorted (list : List JsString) : CanonicalValue := texts (list.insertionSort (· ≤ ·))

def figure (x : ℚ) : CanonicalValue := .number (.finite x)

def delegationFields (delegation : Delegation) : Fields :=
  [(js "issuer", .text delegation.issuer), (js "audience", .text delegation.audience),
    (js "ownerId", .text delegation.ownerId),
    (js "abilities", sorted (delegation.abilities.map Capability.abilityText)),
    (js "expiresAt", figure delegation.expiresAt)]

def nameDelegationFields (delegation : NameDelegation) : Fields :=
  [(js "root", .text delegation.root), (js "delegate", .text delegation.delegate),
    (js "expiresAt", figure delegation.expiresAt)]

def nameRecordFields (record : NameRecord) : Fields :=
  [(js "name", .text record.name), (js "cid", .cid record.cid),
      (js "version", figure record.version), (js "expiresAt", figure record.expiresAt),
      (js "signer", .text record.signer)]
    ++ (match record.translationKeyCid with
        | none => []
        | some key => [(js "translationKeyCid", .cid key)])
    ++ (match record.delegation with
        | none => []
        | some delegation =>
          [(js "delegation", .record
            (nameDelegationFields delegation ++ [(js "signature", .text delegation.signature)]))])
    ++ (if record.wantsNetworkReach then [(js "wantsNetworkReach", .bool true)] else [])

def extensionValue (one : CapabilityExtension) : CanonicalValue :=
  .record [(js "id", .text one.id), (js "critical", .bool one.critical), (js "value", one.value)]

def capabilityFields (record : CapabilityRecord) (ordered : List CapabilityExtension) : Fields :=
  [(js "nodeKey", .text record.nodeKey), (js "features", sorted record.features),
      (js "sovereignFor", sorted record.sovereignFor), (js "issuedAt", figure record.issuedAt),
      (js "expiresAt", figure record.expiresAt)]
    ++ if ordered.length = 0 then []
      else [(js "extensions", .list (ordered.map extensionValue))]

def certificateFields (certificate : NodeCertificate) : Fields :=
  [(js "nodeKey", .text certificate.nodeKey), (js "userKey", .text certificate.userKey),
      (js "operatorId", .text certificate.operatorId),
      (js "discoverability", .text (X509.discoverabilityText certificate.discoverability)),
      (js "relayIds", sorted certificate.relayIds), (js "issuedAt", figure certificate.issuedAt),
      (js "expiresAt", figure certificate.expiresAt), (js "issuer", .text certificate.issuer)]
    ++ certificate.x509.toList.map (fun form => (js "x509", .text form))
    ++ certificate.nextKeyCommitment.toList.map fun commitment =>
        (js "nextKeyCommitment", .text commitment)

/-- `resultChallenge(work, nodeKey)`. -/
def resultFields (work : ResultWork) (nodeKey : JsString) : Fields :=
  [(js "purpose", .text (js "o2-result")), (js "moduleCid", .cid work.moduleCid),
    (js "inputCid", .cid work.inputCid), (js "partitionIndex", figure work.partitionIndex),
    (js "outputCid", .cid work.outputCid), (js "nodeKey", .text nodeKey)]

/-- `combineChallenge(inputCids, resultCid, nodeKey)`: the inputs in the order of the merge. -/
def combineFields (inputCids : List Cid) (resultCid : Cid) (nodeKey : JsString) : Fields :=
  [(js "purpose", .text (js "o2-combine")), (js "inputCids", .list (inputCids.map .cid)),
    (js "resultCid", .cid resultCid), (js "nodeKey", .text nodeKey)]

/-- The record that is signed; a capability record with an id that comes twice has none. -/
def Statement.fields : Statement → Option Fields
  | .capabilityDelegation delegation => some (delegationFields delegation)
  | .nameDelegation delegation => some (nameDelegationFields delegation)
  | .nameRecord record => some (nameRecordFields record)
  | .capabilityRecord record =>
    match orderExtensions record.extensions with
    | .error _ => none
    | .ok ordered => some (capabilityFields record ordered)
  | .certificate issued => some (certificateFields issued)
  | .possession nodeKey userKey =>
    some [(js "purpose", .text (js "o2-enrol")), (js "nodeKey", .text nodeKey),
      (js "userKey", .text userKey)]
  | .challengeAnswer nonce nodeKey userKey =>
    some [(js "purpose", .text (js "o2-enrol-challenge")), (js "nonce", .text nonce),
      (js "nodeKey", .text nodeKey), (js "userKey", .text userKey)]
  | .result work nodeKey => some (resultFields work nodeKey)
  | .combine inputCids resultCid nodeKey => some (combineFields inputCids resultCid nodeKey)

def Statement.payload (statement : Statement) : Option CanonicalValue :=
  statement.fields.map .record

/-- The bytes that a signature covers. -/
def Statement.bytes (codec : DagCbor) (statement : Statement) : Option Bytes :=
  statement.payload.bind codec.encodeCanonical

/-! ### The builders -/

section

variable (sigs : NameSignatures)

theorem bytes_capabilityDelegation (delegation : Delegation) :
    (Statement.capabilityDelegation delegation).bytes sigs.codec
      = Capability.payloadOf sigs delegation := rfl

theorem bytes_nameDelegation (delegation : NameDelegation) :
    (Statement.nameDelegation delegation).bytes sigs.codec
      = SignedNameResolver.delegationPayloadOf sigs delegation := rfl

theorem bytes_nameRecord (record : NameRecord) :
    (Statement.nameRecord record).bytes sigs.codec = SignedNameResolver.payloadOf sigs record := rfl

theorem payload_capabilityRecord (record : CapabilityRecord) :
    (Statement.capabilityRecord record).payload = (capabilityPayload record).toOption := by
  unfold capabilityPayload
  simp only [Statement.payload, Statement.fields]
  cases orderExtensions record.extensions <;> rfl

theorem bytes_certificate (codec : DagCbor) (certificate : NodeCertificate) :
    (Statement.certificate certificate).bytes codec = X509.payloadOf codec certificate := rfl

theorem payload_possession (nodeKey userKey : JsString) :
    (Statement.possession nodeKey userKey).payload
      = some (possessionChallenge nodeKey userKey) := rfl

theorem payload_challengeAnswer (nonce nodeKey userKey : JsString) :
    (Statement.challengeAnswer nonce nodeKey userKey).payload
      = some (challengeAnswerBytes nonce nodeKey userKey) := rfl

end

/-! ## The kind of a record -/

inductive Kind
  | capabilityDelegation
  | nameDelegation
  | nameRecord
  | capabilityRecord
  | certificate
  | possession
  | challengeAnswer
  | result
  | combine
  deriving DecidableEq

def Statement.kind : Statement → Kind
  | .capabilityDelegation _ => .capabilityDelegation
  | .nameDelegation _ => .nameDelegation
  | .nameRecord _ => .nameRecord
  | .capabilityRecord _ => .capabilityRecord
  | .certificate _ => .certificate
  | .possession _ _ => .possession
  | .challengeAnswer _ _ _ => .challengeAnswer
  | .result _ _ => .result
  | .combine _ _ _ => .combine

/-- What tells the kinds apart: the purpose, where one is named, and the fields that only one of
    the other kinds has. -/
structure Marks where
  purpose : Option JsString
  audience : Bool
  root : Bool
  signer : Bool
  features : Bool
  operatorId : Bool
  deriving DecidableEq

def marksOf (fields : Fields) : Marks where
  purpose := asText (field fields (js "purpose"))
  audience := (field fields (js "audience")).isSome
  root := (field fields (js "root")).isSome
  signer := (field fields (js "signer")).isSome
  features := (field fields (js "features")).isSome
  operatorId := (field fields (js "operatorId")).isSome

def Kind.marks : Kind → Marks
  | .capabilityDelegation => ⟨none, true, false, false, false, false⟩
  | .nameDelegation => ⟨none, false, true, false, false, false⟩
  | .nameRecord => ⟨none, false, false, true, false, false⟩
  | .capabilityRecord => ⟨none, false, false, false, true, false⟩
  | .certificate => ⟨none, false, false, false, false, true⟩
  | .possession => ⟨some (js "o2-enrol"), false, false, false, false, false⟩
  | .challengeAnswer => ⟨some (js "o2-enrol-challenge"), false, false, false, false, false⟩
  | .result => ⟨some (js "o2-result"), false, false, false, false, false⟩
  | .combine => ⟨some (js "o2-combine"), false, false, false, false, false⟩

theorem Kind.marks_injective : Function.Injective Kind.marks := by
  intro a b h
  cases a <;> cases b <;> simp [Kind.marks] at h ⊢

/-- Whatever is left out of a record, its marks are those of its kind. -/
theorem marksOf_fields {statement : Statement} {fields : Fields}
    (h : statement.fields = some fields) : marksOf fields = statement.kind.marks := by
  cases statement with
  | capabilityDelegation delegation =>
    cases h
    simp [marksOf, delegationFields, Kind.marks, Statement.kind, asText]
  | nameDelegation delegation =>
    cases h
    simp [marksOf, nameDelegationFields, Kind.marks, Statement.kind, asText]
  | nameRecord record =>
    cases h
    cases hkey : record.translationKeyCid <;> cases hdelegation : record.delegation <;>
      cases hreach : record.wantsNetworkReach <;>
      simp [marksOf, nameRecordFields, Kind.marks, Statement.kind, asText, hkey, hdelegation,
        hreach]
  | capabilityRecord record =>
    simp only [Statement.fields] at h
    split at h
    · cases h
    · next ordered _ =>
      cases h
      by_cases hnone : ordered.length = 0 <;>
        simp [marksOf, capabilityFields, Kind.marks, Statement.kind, asText, hnone]
  | certificate issued =>
    cases h
    cases hx509 : issued.x509 <;> cases hnext : issued.nextKeyCommitment <;>
      simp [marksOf, certificateFields, Kind.marks, Statement.kind, asText, hx509, hnext]
  | possession nodeKey userKey =>
    cases h
    simp [marksOf, Kind.marks, Statement.kind]
  | challengeAnswer nonce nodeKey userKey =>
    cases h
    simp [marksOf, Kind.marks, Statement.kind]
  | result work nodeKey =>
    cases h
    simp [marksOf, resultFields, Kind.marks, Statement.kind]
  | combine inputCids resultCid nodeKey =>
    cases h
    simp [marksOf, combineFields, Kind.marks, Statement.kind]

theorem marksOf_same {fields fields' : Fields}
    (h : ∀ name, SameField (field fields name) (field fields' name)) :
    marksOf fields = marksOf fields' := by
  have hisSome : ∀ name, (field fields name).isSome = (field fields' name).isSome := by
    intro name
    have hname := h name
    revert hname
    generalize field fields name = left
    generalize field fields' name = right
    intro hname
    cases hname <;> rfl
  simp only [marksOf, hisSome, asText_same (h _)]

theorem keys_nodup {statement : Statement} {fields : Fields}
    (h : statement.fields = some fields) : (fields.map Prod.fst).Nodup := by
  cases statement with
  | nameRecord record =>
    cases h
    cases hkey : record.translationKeyCid <;> cases hdelegation : record.delegation <;>
      cases hreach : record.wantsNetworkReach <;>
      simp [nameRecordFields, hkey, hdelegation, hreach]
  | capabilityRecord record =>
    simp only [Statement.fields] at h
    split at h
    · cases h
    · next ordered _ =>
      cases h
      by_cases hnone : ordered.length = 0 <;> simp [capabilityFields, hnone]
  | certificate issued =>
    cases h
    cases hx509 : issued.x509 <;> cases hnext : issued.nextKeyCommitment <;>
      simp [certificateFields, hx509, hnext]
  | _ =>
    cases h
    simp [delegationFields, nameDelegationFields, resultFields, combineFields]

/-! ## The fields of a kind -/

@[simp] theorem sameField_none_some {value : CanonicalValue} : ¬ SameField none (some value) := by
  rintro ⟨⟩

@[simp] theorem sameField_some_none {value : CanonicalValue} : ¬ SameField (some value) none := by
  rintro ⟨⟩

@[simp] theorem sameField_none : SameField none none := .none

@[simp] theorem sameField_some {a b : CanonicalValue} :
    SameField (some a) (some b) ↔ a.Same b := by
  constructor
  · intro h
    cases h with
    | some hsame => exact hsame
  · exact .some

@[simp] theorem same_text {a b : JsString} :
    (CanonicalValue.text a).Same (.text b) ↔ a = b := by
  constructor
  · rintro ⟨⟩
    rfl
  · rintro rfl
    exact .text a

@[simp] theorem same_figure {a b : ℚ} : (figure a).Same (figure b) ↔ a = b := by
  constructor
  · rintro ⟨⟩
    rfl
  · rintro rfl
    exact .number _

@[simp] theorem same_cid {a b : Cid} : (CanonicalValue.cid a).Same (.cid b) ↔ a = b := by
  constructor
  · rintro ⟨⟩
    rfl
  · rintro rfl
    exact .cid a

@[simp] theorem same_bool {a b : Bool} : (CanonicalValue.bool a).Same (.bool b) ↔ a = b := by
  constructor
  · rintro ⟨⟩
    rfl
  · rintro rfl
    exact .bool a

theorem same_list {a b : List CanonicalValue} :
    (CanonicalValue.list a).Same (.list b) ↔ List.Forall₂ CanonicalValue.Same a b := by
  constructor
  · rintro ⟨⟩
    assumption
  · exact .list

@[simp] theorem same_cids {a b : List Cid} :
    (CanonicalValue.list (a.map .cid)).Same (.list (b.map .cid)) ↔ a = b := by
  rw [same_list, List.forall₂_map_left_iff, List.forall₂_map_right_iff]
  simp [List.forall₂_eq_eq_eq]

/-- A list that is sorted before it is signed is told but for its order. -/
theorem perm_of_same_sorted {a b : List JsString} (h : (sorted a).Same (sorted b)) : a.Perm b := by
  have heach := same_list.mp h
  rw [List.forall₂_map_left_iff, List.forall₂_map_right_iff] at heach
  simp only [same_text, List.forall₂_eq_eq_eq] at heach
  calc a.Perm (a.insertionSort (· ≤ ·)) := (List.perm_insertionSort _ a).symm
    _ = b.insertionSort (· ≤ ·) := heach
    List.Perm _ b := List.perm_insertionSort _ b

theorem abilityText_injective : Function.Injective Capability.abilityText := by
  intro a b h
  cases a <;> cases b <;> simp [Capability.abilityText] at h ⊢

theorem discoverabilityText_injective : Function.Injective X509.discoverabilityText := by
  intro a b h
  cases a <;> cases b <;> simp [X509.discoverabilityText] at h ⊢

/-- The same extension, but for the order of fields in its value. -/
structure SameExtension (a b : CapabilityExtension) : Prop where
  id : a.id = b.id
  critical : a.critical = b.critical
  value : a.value.Same b.value

theorem sameExtension_of_same {a b : CapabilityExtension}
    (h : (extensionValue a).Same (extensionValue b)) : SameExtension a b := by
  obtain ⟨fields, hfields, -, hsame⟩ := h.of_record (by simp)
  cases hfields
  have hid := hsame (js "id")
  have hcritical := hsame (js "critical")
  have hvalue := hsame (js "value")
  simp at hid hcritical hvalue
  exact ⟨hid, hcritical, hvalue⟩

/-- The same statement, but for the orders that are not signed, and for the signature itself. -/
inductive Statement.Same : Statement → Statement → Prop
  | capabilityDelegation {a b : Delegation} (abilities : a.abilities.Perm b.abilities)
      (rest : { a with abilities := [], signature := [] }
        = { b with abilities := [], signature := [] }) :
      Same (.capabilityDelegation a) (.capabilityDelegation b)
  | nameDelegation {a b : NameDelegation}
      (rest : { a with signature := [] } = { b with signature := [] }) :
      Same (.nameDelegation a) (.nameDelegation b)
  | nameRecord {a b : NameRecord}
      (rest : { a with signature := [] } = { b with signature := [] }) :
      Same (.nameRecord a) (.nameRecord b)
  | capabilityRecord {a b : CapabilityRecord} (features : a.features.Perm b.features)
      (sovereignFor : a.sovereignFor.Perm b.sovereignFor)
      (extensions : ∃ left right, a.extensions.Perm left ∧ b.extensions.Perm right ∧
        List.Forall₂ SameExtension left right)
      (rest : { a with features := [], sovereignFor := [], extensions := [], signature := [] }
        = { b with features := [], sovereignFor := [], extensions := [], signature := [] }) :
      Same (.capabilityRecord a) (.capabilityRecord b)
  | certificate {a b : NodeCertificate} (relayIds : a.relayIds.Perm b.relayIds)
      (rest : { a with relayIds := [], signature := [] }
        = { b with relayIds := [], signature := [] }) :
      Same (.certificate a) (.certificate b)
  | possession {nodeKey userKey : JsString} :
      Same (.possession nodeKey userKey) (.possession nodeKey userKey)
  | challengeAnswer {nonce nodeKey userKey : JsString} :
      Same (.challengeAnswer nonce nodeKey userKey) (.challengeAnswer nonce nodeKey userKey)
  | result {work : ResultWork} {nodeKey : JsString} : Same (.result work nodeKey) (.result work nodeKey)
  | combine {inputCids : List Cid} {resultCid : Cid} {nodeKey : JsString} :
      Same (.combine inputCids resultCid nodeKey) (.combine inputCids resultCid nodeKey)

theorem capabilityDelegation_same {a b : Delegation}
    (h : ∀ name, SameField (field (delegationFields a) name) (field (delegationFields b) name)) :
    Statement.Same (.capabilityDelegation a) (.capabilityDelegation b) := by
  have hissuer := h (js "issuer")
  have haudience := h (js "audience")
  have howner := h (js "ownerId")
  have habilities := h (js "abilities")
  have hexpires := h (js "expiresAt")
  simp [delegationFields] at hissuer haudience howner habilities hexpires
  refine .capabilityDelegation ?_ ?_
  · exact (List.map_perm_map_iff abilityText_injective).mp (perm_of_same_sorted habilities)
  · simp [hissuer, haudience, howner, hexpires]

theorem nameDelegation_same {a b : NameDelegation}
    (h : ∀ name, SameField (field (nameDelegationFields a) name)
      (field (nameDelegationFields b) name)) :
    Statement.Same (.nameDelegation a) (.nameDelegation b) := by
  have hroot := h (js "root")
  have hdelegate := h (js "delegate")
  have hexpires := h (js "expiresAt")
  simp [nameDelegationFields] at hroot hdelegate hexpires
  exact .nameDelegation (by simp [hroot, hdelegate, hexpires])

/-- A delegation inside a record is signed with its own signature. -/
theorem delegation_eq {a b : NameDelegation}
    (h : (CanonicalValue.record (nameDelegationFields a ++ [(js "signature", .text a.signature)])).Same
      (.record (nameDelegationFields b ++ [(js "signature", .text b.signature)]))) : a = b := by
  obtain ⟨fields, hfields, -, hsame⟩ := h.of_record (by simp [nameDelegationFields])
  cases hfields
  have hroot := hsame (js "root")
  have hdelegate := hsame (js "delegate")
  have hexpires := hsame (js "expiresAt")
  have hsignature := hsame (js "signature")
  simp [nameDelegationFields] at hroot hdelegate hexpires hsignature
  cases a
  cases b
  simp_all

/-- The fields that a record may be without. -/
theorem nameRecord_optional (record : NameRecord) :
    field (nameRecordFields record) (js "translationKeyCid")
      = record.translationKeyCid.map CanonicalValue.cid ∧
    field (nameRecordFields record) (js "delegation")
      = record.delegation.map (fun delegation => .record
          (nameDelegationFields delegation ++ [(js "signature", .text delegation.signature)])) ∧
    field (nameRecordFields record) (js "wantsNetworkReach")
      = if record.wantsNetworkReach then some (.bool true) else none := by
  cases hkey : record.translationKeyCid <;> cases hdelegation : record.delegation <;>
    cases hreach : record.wantsNetworkReach <;>
    simp [nameRecordFields, hkey, hdelegation, hreach]

theorem nameRecord_same {a b : NameRecord}
    (h : ∀ name, SameField (field (nameRecordFields a) name) (field (nameRecordFields b) name)) :
    Statement.Same (.nameRecord a) (.nameRecord b) := by
  have hname := h (js "name")
  have hcid := h (js "cid")
  have hversion := h (js "version")
  have hexpires := h (js "expiresAt")
  have hsigner := h (js "signer")
  have hkey := h (js "translationKeyCid")
  have hdelegation := h (js "delegation")
  have hreach := h (js "wantsNetworkReach")
  rw [(nameRecord_optional a).1, (nameRecord_optional b).1] at hkey
  rw [(nameRecord_optional a).2.1, (nameRecord_optional b).2.1] at hdelegation
  rw [(nameRecord_optional a).2.2, (nameRecord_optional b).2.2] at hreach
  simp [nameRecordFields] at hname hcid hversion hexpires hsigner
  have hkeys : a.translationKeyCid = b.translationKeyCid := by
    cases ha : a.translationKeyCid <;> cases hb : b.translationKeyCid <;>
      simp [ha, hb] at hkey ⊢
    exact hkey
  have hdelegations : a.delegation = b.delegation := by
    cases ha : a.delegation <;> cases hb : b.delegation <;>
      simp only [ha, hb, Option.map_none, Option.map_some, sameField_some, sameField_none_some,
        sameField_some_none] at hdelegation
    · rfl
    · rw [delegation_eq hdelegation]
  have hreaches : a.wantsNetworkReach = b.wantsNetworkReach := by
    cases ha : a.wantsNetworkReach <;> cases hb : b.wantsNetworkReach <;>
      simp [ha, hb] at hreach ⊢
  exact .nameRecord (by simp [hname, hcid, hversion, hexpires, hsigner, hkeys, hdelegations,
    hreaches])

theorem certificate_optional (certificate : NodeCertificate) :
    field (certificateFields certificate) (js "x509") = certificate.x509.map CanonicalValue.text ∧
    field (certificateFields certificate) (js "nextKeyCommitment")
      = certificate.nextKeyCommitment.map CanonicalValue.text := by
  cases hx509 : certificate.x509 <;> cases hnext : certificate.nextKeyCommitment <;>
    simp [certificateFields, hx509, hnext]

theorem optionalText_eq {a b : Option JsString}
    (h : SameField (a.map CanonicalValue.text) (b.map CanonicalValue.text)) : a = b := by
  cases a <;> cases b <;> simp at h ⊢
  exact h

theorem certificate_same {a b : NodeCertificate}
    (h : ∀ name, SameField (field (certificateFields a) name) (field (certificateFields b) name)) :
    Statement.Same (.certificate a) (.certificate b) := by
  have hnode := h (js "nodeKey")
  have huser := h (js "userKey")
  have hoperator := h (js "operatorId")
  have hdiscoverability := h (js "discoverability")
  have hrelays := h (js "relayIds")
  have hissued := h (js "issuedAt")
  have hexpires := h (js "expiresAt")
  have hissuer := h (js "issuer")
  have hx509 := h (js "x509")
  have hnext := h (js "nextKeyCommitment")
  rw [(certificate_optional a).1, (certificate_optional b).1] at hx509
  rw [(certificate_optional a).2, (certificate_optional b).2] at hnext
  simp [certificateFields] at hnode huser hoperator hdiscoverability hrelays hissued hexpires hissuer
  refine .certificate (perm_of_same_sorted hrelays) ?_
  simp [hnode, huser, hoperator, discoverabilityText_injective hdiscoverability, hissued, hexpires,
    hissuer, optionalText_eq hx509, optionalText_eq hnext]

/-- The extensions of a record, absent where there are none. -/
theorem capability_extensions (record : CapabilityRecord) (ordered : List CapabilityExtension) :
    field (capabilityFields record ordered) (js "extensions")
      = if ordered.length = 0 then none else some (.list (ordered.map extensionValue)) := by
  by_cases hnone : ordered.length = 0 <;> simp [capabilityFields, hnone]

theorem orderExtensions_perm {extensions ordered : List CapabilityExtension}
    (h : orderExtensions extensions = .ok ordered) : extensions.Perm ordered := by
  unfold orderExtensions at h
  dsimp only at h
  split at h
  · cases h
  · cases h
    exact (sortExtensions_perm extensions).symm

theorem capabilityRecord_same {a b : CapabilityRecord} {left right : List CapabilityExtension}
    (hleft : orderExtensions a.extensions = .ok left)
    (hright : orderExtensions b.extensions = .ok right)
    (h : ∀ name, SameField (field (capabilityFields a left) name)
      (field (capabilityFields b right) name)) :
    Statement.Same (.capabilityRecord a) (.capabilityRecord b) := by
  have hnode := h (js "nodeKey")
  have hfeatures := h (js "features")
  have hsovereign := h (js "sovereignFor")
  have hissued := h (js "issuedAt")
  have hexpires := h (js "expiresAt")
  have hextensions := h (js "extensions")
  rw [capability_extensions, capability_extensions] at hextensions
  simp [capabilityFields] at hnode hfeatures hsovereign hissued hexpires
  refine .capabilityRecord (perm_of_same_sorted hfeatures) (perm_of_same_sorted hsovereign)
    ⟨left, right, orderExtensions_perm hleft, orderExtensions_perm hright, ?_⟩ ?_
  · by_cases hl : left.length = 0 <;> by_cases hr : right.length = 0 <;>
      simp only [hl, hr, if_true, if_false, sameField_none_some, sameField_some_none,
        sameField_some, same_list] at hextensions
    · rw [List.length_eq_zero_iff.mp hl, List.length_eq_zero_iff.mp hr]
      exact .nil
    · rw [List.forall₂_map_left_iff, List.forall₂_map_right_iff] at hextensions
      exact hextensions.imp fun _ _ => sameExtension_of_same
  · simp [hnode, hissued, hexpires]

/-- Statements with the same record are the same. -/
theorem same_of_fields {s t : Statement} {fields fields' : Fields}
    (hs : s.fields = some fields) (ht : t.fields = some fields')
    (h : ∀ name, SameField (field fields name) (field fields' name)) : s.Same t := by
  have hkind : s.kind = t.kind := by
    apply Kind.marks_injective
    rw [← marksOf_fields hs, ← marksOf_fields ht]
    exact marksOf_same h
  cases s with
  | capabilityDelegation a =>
    cases t <;> simp [Statement.kind] at hkind
    cases hs
    cases ht
    exact capabilityDelegation_same h
  | nameDelegation a =>
    cases t <;> simp [Statement.kind] at hkind
    cases hs
    cases ht
    exact nameDelegation_same h
  | nameRecord a =>
    cases t <;> simp [Statement.kind] at hkind
    cases hs
    cases ht
    exact nameRecord_same h
  | capabilityRecord a =>
    cases t <;> simp [Statement.kind] at hkind
    simp only [Statement.fields] at hs ht
    split at hs
    · cases hs
    · next left hleft =>
      split at ht
      · cases ht
      · next right hright =>
        cases hs
        cases ht
        exact capabilityRecord_same hleft hright h
  | certificate a =>
    cases t <;> simp [Statement.kind] at hkind
    cases hs
    cases ht
    exact certificate_same h
  | possession nodeKey userKey =>
    cases t <;> simp [Statement.kind] at hkind
    cases hs
    cases ht
    have hnode := h (js "nodeKey")
    have huser := h (js "userKey")
    simp at hnode huser
    rw [hnode, huser]
    exact .possession
  | challengeAnswer nonce nodeKey userKey =>
    cases t <;> simp [Statement.kind] at hkind
    cases hs
    cases ht
    have hnonce := h (js "nonce")
    have hnode := h (js "nodeKey")
    have huser := h (js "userKey")
    simp at hnonce hnode huser
    rw [hnonce, hnode, huser]
    exact .challengeAnswer
  | result work nodeKey =>
    cases t <;> simp [Statement.kind] at hkind
    cases hs
    cases ht
    have hmodule := h (js "moduleCid")
    have hinput := h (js "inputCid")
    have hindex := h (js "partitionIndex")
    have houtput := h (js "outputCid")
    have hnode := h (js "nodeKey")
    simp [resultFields] at hmodule hinput hindex houtput hnode
    next other nodeKey' =>
      cases work
      cases other
      simp only at hmodule hinput hindex houtput
      rw [hmodule, hinput, hindex, houtput, hnode]
      exact .result
  | combine inputCids resultCid nodeKey =>
    cases t <;> simp [Statement.kind] at hkind
    cases hs
    cases ht
    have hinputs := h (js "inputCids")
    have hresult := h (js "resultCid")
    have hnode := h (js "nodeKey")
    simp [combineFields] at hinputs hresult hnode
    rw [hinputs, hresult, hnode]
    exact .combine

/-! ## One signature, one statement -/

/-- The encoder tells these values apart. -/
def InjectiveOn (codec : DagCbor) (canonical : Set CanonicalValue) : Prop :=
  ∀ v ∈ canonical, ∀ w ∈ canonical, ∀ bytes, codec.encodeCanonical v = some bytes →
    codec.encodeCanonical w = some bytes → v.Same w

/-- What is signed of the statement, if anything, is canonical. -/
def Statement.Canonical (statement : Statement) (canonical : Set CanonicalValue) : Prop :=
  ∀ value, statement.payload = some value → value ∈ canonical

theorem same_of_bytes {codec : DagCbor} {canonical : Set CanonicalValue}
    (hinjective : InjectiveOn codec canonical) {s t : Statement} (hs : s.Canonical canonical)
    (ht : t.Canonical canonical) {bytes : Bytes} (hleft : s.bytes codec = some bytes)
    (hright : t.bytes codec = some bytes) : s.Same t := by
  obtain ⟨v, hv, hvbytes⟩ := Option.bind_eq_some_iff.mp hleft
  obtain ⟨w, hw, hwbytes⟩ := Option.bind_eq_some_iff.mp hright
  have hsame : v.Same w := hinjective v (hs v hv) w (ht w hw) bytes hvbytes hwbytes
  obtain ⟨fields, hfields, rfl⟩ := Option.map_eq_some_iff.mp hv
  obtain ⟨fields', hfields', rfl⟩ := Option.map_eq_some_iff.mp hw
  obtain ⟨listed, hlisted, -, heach⟩ := hsame.of_record (keys_nodup hfields)
  cases hlisted
  exact same_of_fields hfields hfields' heach

def twoAbilities (abilities : List Ability) : Statement :=
  .capabilityDelegation ⟨js "k", js "l", js "o", abilities, 1, []⟩

mutual

theorem same_refl : (value : CanonicalValue) → value.Same value
  | .null => .null
  | .bool b => .bool b
  | .number x => .number x
  | .text t => .text t
  | .bytes b => .bytes b
  | .cid c => .cid c
  | .list items => .list (items_refl items)
  | .record fields => .record rfl (fields_refl fields) (List.Perm.refl fields)

theorem items_refl : (items : List CanonicalValue) → List.Forall₂ CanonicalValue.Same items items
  | [] => .nil
  | item :: items => .cons (same_refl item) (items_refl items)

theorem fields_refl : (fields : Fields) →
    List.Forall₂ CanonicalValue.Same (fields.map Prod.snd) (fields.map Prod.snd)
  | [] => .nil
  | (_, value) :: fields => .cons (same_refl value) (fields_refl fields)

end

end O2Fabric.Signed
