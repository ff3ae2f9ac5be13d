/-
  O2Fabric.Core.Naming.FileForm

  A signed name as the text of a file: what a publisher hands to an operator,
  and what the operator reads of it.

  The texts of JSON and of addresses are parameters.
-/

import O2Fabric.Core.SignedNameResolver
import O2Fabric.Core.X509Encode.Reading
import O2Fabric.Core.X509Form

namespace O2Fabric.NameFile

open X509 (SigningKey isLowerHex isEvenLowerHex_toHex)

structure NameTexts where
  /-- `JSON.stringify(value, null, 2)`. -/
  stringify : CanonicalValue → JsString
  /-- `JSON.parse(text)`, `none` where it throws. -/
  parse : JsString → Option CanonicalValue
  /-- `CID.parse(text)`, `none` where it throws. -/
  parseCid : JsString → Option Cid

/-! ## Signing -/

/-- A record without its signer and its signature. -/
structure NameFields where
  name : JsString
  cid : Cid
  version : Nat
  expiresAt : ℚ
  translationKeyCid : Option Cid
  delegation : Option NameDelegation
  wantsNetworkReach : Bool

/-- `{ ...fields, signer }`, with a signature. -/
def NameFields.record (fields : NameFields) (signer signature : JsString) : NameRecord where
  name := fields.name
  cid := fields.cid
  version := fields.version
  expiresAt := fields.expiresAt
  signer := signer
  signature := signature
  translationKeyCid := fields.translationKeyCid
  delegation := fields.delegation
  wantsNetworkReach := fields.wantsNetworkReach

variable {verify : (signature : Bytes) → (message : Bytes) → (key : Bytes) → Bool}

/-- Sign a name → CID mapping; `none` where the record has no encoding. -/
def signName (sigs : NameSignatures) (key : SigningKey verify) (fields : NameFields) :
    Option NameRecord := do
  let signer := toHex key.publicKey
  let payload ← SignedNameResolver.payloadOf sigs (fields.record signer [])
  return fields.record signer (toHex (key.sign payload))

/-! ## Writing -/

def delegationValue (delegation : NameDelegation) : CanonicalValue :=
  .record
    [(js "root", .text delegation.root), (js "delegate", .text delegation.delegate),
      (js "expiresAt", .number (.finite delegation.expiresAt)),
      (js "signature", .text delegation.signature)]

/-- The fields that are written; an absent one is left out. -/
def fileFields (record : NameRecord) : List (JsString × CanonicalValue) :=
  [(js "name", .text record.name), (js "cid", .text record.cid.toText),
      (js "version", whole record.version), (js "expiresAt", .number (.finite record.expiresAt))]
    ++ record.translationKeyCid.toList.map (fun key => (js "translationKeyCid", .text key.toText))
    ++ [(js "signer", .text record.signer)]
    ++ record.delegation.toList.map (fun one => (js "delegation", delegationValue one))
    ++ (if record.wantsNetworkReach then [(js "wantsNetworkReach", .bool true)] else [])
    ++ [(js "signature", .text record.signature)]

def fileValue (record : NameRecord) : CanonicalValue := .record (fileFields record)

/-- A signed name record as a line of JSON. -/
def encodeNameRecord (texts : NameTexts) (record : NameRecord) : JsString :=
  texts.stringify (fileValue record)

/-! ## Reading -/

def isHex (text : JsString) (length : Nat) : Bool :=
  decide (text.length = length) && text.all isLowerHex

/-- The field, where `isHex(value, length)`. -/
def asHex (value : Option CanonicalValue) (length : Nat) : Option JsString := do
  let text ← asText value
  if isHex text length then some text else none

/-- The field, where `typeof value === 'number' && Number.isFinite(value)`. -/
def asFinite : Option CanonicalValue → Option ℚ
  | some (.number (.finite x)) => some x
  | _ => none

/-- `{ ...parsed }` of an object.  What is no record has none of the names that are asked for. -/
def spread : CanonicalValue → Option (List (JsString × CanonicalValue))
  | .record fields => some fields
  | .list _ => some []
  | _ => none

/-- A field that may be absent: present and malformed is refused rather than dropped. -/
def asOptional {α : Type} (value : Option CanonicalValue) (read : CanonicalValue → Option α) :
    Option (Option α) :=
  match value with
  | none => some none
  | some value => (read value).map some

def asDelegation (value : CanonicalValue) : Option NameDelegation := do
  let fields ← spread value
  let root ← asHex (field fields (js "root")) 64
  let delegate ← asHex (field fields (js "delegate")) 64
  let expiresAt ← asFinite (field fields (js "expiresAt"))
  let signature ← asHex (field fields (js "signature")) 128
  return ⟨root, delegate, expiresAt, signature⟩

/-- The literal `true`. -/
def asTrue : CanonicalValue → Option Unit
  | .bool true => some ()
  | _ => none

/-- The inverse, `none` on anything malformed. -/
def decodeNameRecord (texts : NameTexts) (text : JsString) : Option NameRecord := do
  let parsed ← texts.parse text
  let value ← spread parsed
  let name ← asText (field value (js "name"))
  guard (name ≠ [])
  let cidText ← asText (field value (js "cid"))
  let version ← asWholeNumber (field value (js "version"))
  let expiresAt ← asFinite (field value (js "expiresAt"))
  let signer ← asHex (field value (js "signer")) 64
  let signature ← asHex (field value (js "signature")) 128
  let cid ← texts.parseCid cidText
  let translationKeyCid ← asOptional (field value (js "translationKeyCid"))
    fun text => asText (some text) >>= texts.parseCid
  let delegation ← asOptional (field value (js "delegation")) asDelegation
  let wantsNetworkReach ← asOptional (field value (js "wantsNetworkReach")) asTrue
  return ⟨name, cid, version, expiresAt, signer, signature, translationKeyCid, delegation,
    wantsNetworkReach.isSome⟩

/-! ## What is read at all -/

/-- The keys and the signature of a delegation are lowercase hexadecimal, and whole. -/
structure HexDelegation (delegation : NameDelegation) : Prop where
  root : isHex delegation.root 64 = true
  delegate : isHex delegation.delegate 64 = true
  signature : isHex delegation.signature 128 = true

structure Readable (record : NameRecord) : Prop where
  name : record.name ≠ []
  signer : isHex record.signer 64 = true
  signature : isHex record.signature 128 = true
  delegation : ∀ delegation ∈ record.delegation, HexDelegation delegation

theorem asHex_eq_some {value : Option CanonicalValue} {length : Nat} {text : JsString}
    (h : asHex value length = some text) : isHex text length = true := by
  simp only [asHex, Option.bind_eq_bind, Option.bind_eq_some_iff] at h
  obtain ⟨text', -, htext⟩ := h
  split at htext
  · next hhex =>
    cases htext
    exact hhex
  · cases htext

@[simp] theorem asHex_text (text : JsString) (length : Nat) :
    asHex (some (.text text)) length = if isHex text length then some text else none := rfl

theorem asDelegation_eq_some {value : CanonicalValue} {delegation : NameDelegation}
    (h : asDelegation value = some delegation) : HexDelegation delegation := by
  simp only [asDelegation, Option.bind_eq_bind, Option.bind_eq_some_iff] at h
  obtain ⟨fields, -, root, hroot, delegate, hdelegate, expiresAt, -, signature, hsignature, h⟩ := h
  cases h
  exact ⟨asHex_eq_some hroot, asHex_eq_some hdelegate, asHex_eq_some hsignature⟩

/-- The writer's object of a delegation is read as that delegation, or refused. -/
theorem asDelegation_delegationValue (delegation delegation' : NameDelegation) :
    asDelegation (delegationValue delegation) = some delegation'
      ↔ HexDelegation delegation ∧ delegation' = delegation := by
  have hfields : asDelegation (delegationValue delegation) = (do
      let root ← asHex (some (.text delegation.root)) 64
      let delegate ← asHex (some (.text delegation.delegate)) 64
      let signature ← asHex (some (.text delegation.signature)) 128
      return ⟨root, delegate, delegation.expiresAt, signature⟩) := by
    simp [asDelegation, delegationValue, spread, asFinite]
  rw [hfields]
  simp only [asHex_text, Option.bind_eq_bind, Option.bind_eq_some_iff,
    Option.ite_none_right_eq_some, Option.some.injEq]
  constructor
  · rintro ⟨root, ⟨hroot, rfl⟩, delegate, ⟨hdelegate, rfl⟩, signature, ⟨hsignature, rfl⟩, h⟩
    cases h
    exact ⟨⟨hroot, hdelegate, hsignature⟩, rfl⟩
  · rintro ⟨hhex, rfl⟩
    exact ⟨_, ⟨hhex.root, rfl⟩, _, ⟨hhex.delegate, rfl⟩, _, ⟨hhex.signature, rfl⟩, rfl⟩

variable {texts : NameTexts}

/-- What the reader takes is readable. -/
theorem readable_of_decode {text : JsString} {record : NameRecord}
    (h : decodeNameRecord texts text = some record) : Readable record := by
  simp only [decodeNameRecord, Option.bind_eq_bind, Option.bind_eq_some_iff, Option.guard_eq_some'] at h
  obtain ⟨parsed, -, value, -, name, -, -, hname, cidText, -, version, -, expiresAt, -, signer,
    hsigner, signature, hsignature, cid, -, key, -, delegation, hdelegation, reach, -, h⟩ := h
  cases h
  refine ⟨hname, asHex_eq_some hsigner, asHex_eq_some hsignature, ?_⟩
  intro one hone
  cases hvalue : field value (js "delegation") with
  | none =>
    rw [hvalue] at hdelegation
    cases hdelegation
    cases hone
  | some given =>
    rw [hvalue] at hdelegation
    simp only [asOptional, Option.map_eq_some_iff] at hdelegation
    obtain ⟨read, hread, rfl⟩ := hdelegation
    cases hone
    exact asDelegation_eq_some hread

/-! ## The round trip -/

/-- JSON keeps the object that is written. -/
def NameTexts.Keeps (texts : NameTexts) (record : NameRecord) : Prop :=
  texts.parse (texts.stringify (fileValue record)) = some (fileValue record)

variable {record : NameRecord}

theorem field_optional {α : Type} (given : Option α) (key name : JsString)
    (value : α → CanonicalValue) :
    field (given.toList.map fun one => (key, value one)) name
      = if key = name then given.map value else none := by
  cases given <;> simp

theorem field_flag (flag : Bool) (key name : JsString) (value : CanonicalValue) :
    field (if flag then [(key, value)] else []) name
      = if key = name then (if flag then some value else none) else none := by
  cases flag <;> simp

theorem asOptional_delegation (delegation delegation' : Option NameDelegation) :
    asOptional (delegation.map delegationValue) asDelegation = some delegation'
      ↔ (∀ one ∈ delegation, HexDelegation one) ∧ delegation' = delegation := by
  cases delegation with
  | none => simp [asOptional, eq_comm]
  | some delegation =>
    simp only [Option.map_some, asOptional, Option.map_eq_some_iff,
      asDelegation_delegationValue, Option.mem_some_iff, forall_eq']
    constructor
    · rintro ⟨one, ⟨hhex, rfl⟩, rfl⟩
      exact ⟨hhex, rfl⟩
    · rintro ⟨hhex, rfl⟩
      exact ⟨delegation, ⟨hhex, rfl⟩, rfl⟩

/-- What was written is read back, as far as it is readable. -/
theorem decodeNameRecord_encode (hjson : texts.Keeps record)
    (hcid : ∀ cid : Cid, texts.parseCid cid.toText = some cid) (record' : NameRecord) :
    decodeNameRecord texts (encodeNameRecord texts record) = some record'
      ↔ Readable record ∧ record' = record := by
  have hparse : texts.parse (encodeNameRecord texts record) = some (fileValue record) := hjson
  have hkey : (asOptional (record.translationKeyCid.map fun key => .text key.toText)
      fun text => (asText (some text)).bind texts.parseCid) = some record.translationKeyCid := by
    cases record.translationKeyCid <;> simp [asOptional, hcid]
  have hreach : asOptional (if record.wantsNetworkReach then some (.bool true) else none) asTrue
      = some (if record.wantsNetworkReach then some () else none) := by
    cases record.wantsNetworkReach <;> rfl
  have hreached : (if record.wantsNetworkReach then some () else none).isSome
      = record.wantsNetworkReach := by
    cases record.wantsNetworkReach <;> rfl
  -- every field is found where the writer put it, and only four of them can be refused
  have hreads : decodeNameRecord texts (encodeNameRecord texts record) = (do
      guard (record.name ≠ [])
      let signer ← asHex (some (.text record.signer)) 64
      let signature ← asHex (some (.text record.signature)) 128
      let delegation ← asOptional (record.delegation.map delegationValue) asDelegation
      return { record with signer := signer, signature := signature, delegation := delegation }) := by
    simp [decodeNameRecord, hparse, fileValue, fileFields, field_optional, field_flag, spread,
      asWholeNumber_whole, asFinite, hcid, hkey, hreach, hreached]
  rw [hreads]
  simp only [asHex_text, Option.bind_eq_bind, Option.bind_eq_some_iff, Option.guard_eq_some',
    Option.ite_none_right_eq_some, Option.some.injEq, asOptional_delegation]
  constructor
  · rintro ⟨-, hname, _, ⟨hsigner, rfl⟩, _, ⟨hsignature, rfl⟩, _, ⟨hdelegation, rfl⟩, h⟩
    cases h
    exact ⟨⟨hname, hsigner, hsignature, hdelegation⟩, rfl⟩
  · rintro ⟨hreadable, rfl⟩
    exact ⟨(), hreadable.name, _, ⟨hreadable.signer, rfl⟩, _, ⟨hreadable.signature, rfl⟩, _,
      ⟨hreadable.delegation, rfl⟩, rfl⟩

/-! ## What is signed -/

theorem length_toHex (bytes : Bytes) : (toHex bytes).length = 2 * bytes.length := by
  induction bytes with
  | nil => rfl
  | cons byte bytes ih =>
    have hcons : (toHex (byte :: bytes)).length = (toHex bytes).length + 2 := rfl
    rw [hcons, ih, List.length_cons]
    omega

theorem isHex_toHex {bytes : Bytes} {length : Nat} (h : 2 * bytes.length = length) :
    isHex (toHex bytes) length = true := by
  have heven := isEvenLowerHex_toHex bytes
  rw [X509.isEvenLowerHex, Bool.and_eq_true] at heven
  rw [isHex, length_toHex, h, decide_eq_true rfl, heven.2]
  rfl

/-- A signed record is readable, but for its name and for the delegation it was given. -/
theorem readable_signName {sigs : NameSignatures} {key : SigningKey verify} {fields : NameFields}
    (h : signName sigs key fields = some record) :
    Readable record ↔ record.name ≠ [] ∧ ∀ one ∈ record.delegation, HexDelegation one := by
  simp only [signName, Option.bind_eq_bind, Option.bind_eq_some_iff] at h
  obtain ⟨payload, -, h⟩ := h
  cases h
  constructor
  · intro hreadable
    exact ⟨hreadable.name, hreadable.delegation⟩
  · rintro ⟨hname, hdelegation⟩
    refine ⟨hname, isHex_toHex ?_, isHex_toHex ?_, hdelegation⟩
    · rw [key.publicKey_length]
    · rw [key.sign_length]

/-! ## One file -/

def plainKey : SigningKey (fun _ _ _ => true) where
  publicKey := List.replicate 32 2
  sign _ := List.replicate 64 9
  publicKey_length := List.length_replicate
  sign_length _ := List.length_replicate
  verifies _ := rfl

def plainSigs : NameSignatures := ⟨plainDagCbor, fun _ _ _ => true, fun _ => []⟩

/-- A name that wants network reach, and is signed under a delegation where one is given. -/
def kernelFields (delegation : Option NameDelegation) : NameFields where
  name := js "kernel"
  cid := ⟨js "bafy", by decide, by decide⟩
  version := 3
  expiresAt := 1800000000000
  translationKeyCid := none
  delegation := delegation
  wantsNetworkReach := true

def kernelRecord (delegation : Option NameDelegation) : NameRecord :=
  (kernelFields delegation).record (toHex (List.replicate 32 2)) (toHex (List.replicate 64 9))

theorem signName_kernel (delegation : Option NameDelegation) :
    signName plainSigs plainKey (kernelFields delegation) = some (kernelRecord delegation) := by
  have hsome : (SignedNameResolver.payloadOf plainSigs ((kernelFields delegation).record
      (toHex plainKey.publicKey) [])).isSome = true := by
    cases delegation with
    | none =>
      simp [SignedNameResolver.payloadOf, kernelFields, NameFields.record]
      simp [DagCbor.encodeCanonical]
    | some delegation =>
      simp [SignedNameResolver.payloadOf, kernelFields, NameFields.record]
      simp [DagCbor.encodeCanonical]
  obtain ⟨payload, hpayload⟩ := Option.isSome_iff_exists.mp hsome
  simp only [signName, hpayload]
  rfl

def capitals : NameDelegation where
  root := toHex (List.replicate 32 2)
  delegate := List.replicate 64 0x41
  expiresAt := 1900000000000
  signature := toHex (List.replicate 64 3)

/-- Its lines of the file. -/
def capitalsText : JsString :=
  js "  \"delegation\": \x7b\n    \"root\": \"" ++ toHex (List.replicate 32 2)
    ++ js "\",\n    \"delegate\": \"" ++ List.replicate 64 0x41
    ++ js "\",\n    \"expiresAt\": 1900000000000,\n    \"signature\": \""
    ++ toHex (List.replicate 64 3) ++ js "\"\n  \x7d,\n"

/-- The file of a `kernelRecord`, around the lines of its delegation. -/
def kernelText (delegation : JsString) : JsString :=
  js "\x7b\n  \"name\": \"kernel\",\n  \"cid\": \"bafy\",\n  \"version\": 3,\n"
    ++ js "  \"expiresAt\": 1800000000000,\n  \"signer\": \"" ++ toHex (List.replicate 32 2)
    ++ js "\",\n" ++ delegation ++ js "  \"wantsNetworkReach\": true,\n  \"signature\": \""
    ++ toHex (List.replicate 64 9) ++ js "\"\n\x7d"

/-- JSON as far as one file goes, and addresses that are their texts. -/
def oneFile (text : JsString) (record : NameRecord) : NameTexts where
  stringify _ := text
  parse given := if given = text then some (fileValue record) else none
  parseCid := readingPlatform.parseCid

theorem oneFile_parseCid (text : JsString) (record : NameRecord) (cid : Cid) :
    (oneFile text record).parseCid cid.toText = some cid :=
  readingPlatform_parses cid

theorem oneFile_keeps (text : JsString) (record : NameRecord) :
    (oneFile text record).Keeps record :=
  if_pos rfl

/-! ## Signed names in files -/

/-- A signed record survives the file form exactly where its delegation, if it has one, is in
    lowercase hexadecimal; and whatever is read of a file does. -/
theorem name_records_survive_the_file (texts : NameTexts)
    (hcid : ∀ cid : Cid, texts.parseCid cid.toText = some cid) :
    (∀ (sigs : NameSignatures) (verify : Bytes → Bytes → Bytes → Bool) (key : SigningKey verify)
      (fields : NameFields) (record : NameRecord), signName sigs key fields = some record →
      record.name ≠ [] → texts.Keeps record →
      (decodeNameRecord texts (encodeNameRecord texts record) = some record ↔
        ∀ one ∈ record.delegation, HexDelegation one)) ∧
    (∀ (text : JsString) (record : NameRecord), decodeNameRecord texts text = some record →
      texts.Keeps record →
      decodeNameRecord texts (encodeNameRecord texts record) = some record) := by
  constructor
  · intro sigs verify key fields record hsigned hname hjson
    rw [decodeNameRecord_encode hjson hcid, readable_signName hsigned]
    constructor
    · rintro ⟨⟨-, hdelegation⟩, -⟩
      exact hdelegation
    · exact fun hdelegation => ⟨⟨hname, hdelegation⟩, rfl⟩
  · intro text record hread hjson
    exact (decodeNameRecord_encode hjson hcid record).mpr ⟨readable_of_decode hread, rfl⟩

theorem name_records_survive_the_file_kernel :
    decodeNameRecord (oneFile (kernelText []) (kernelRecord none)) (kernelText [])
      = some (kernelRecord none) :=
  ((name_records_survive_the_file (oneFile (kernelText []) (kernelRecord none))
      (oneFile_parseCid _ _)).1 plainSigs _ plainKey (kernelFields none) (kernelRecord none)
    (signName_kernel none) (by decide) (oneFile_keeps _ _)).mpr (by rintro _ ⟨⟩)

/-- It is signed for, and then refused. -/
theorem capital_delegate_is_refused :
    signName plainSigs plainKey (kernelFields (some capitals))
        = some (kernelRecord (some capitals)) ∧
      encodeNameRecord (oneFile (kernelText capitalsText) (kernelRecord (some capitals)))
        (kernelRecord (some capitals)) = kernelText capitalsText ∧
      decodeNameRecord (oneFile (kernelText capitalsText) (kernelRecord (some capitals)))
        (kernelText capitalsText) ≠ some (kernelRecord (some capitals)) := by
  refine ⟨signName_kernel _, rfl, ?_⟩
  intro hread
  have hhex := ((readable_of_decode hread).delegation capitals rfl).delegate
  revert hhex
  decide

end O2Fabric.NameFile
