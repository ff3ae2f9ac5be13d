/-
  O2Fabric.Core.DagCbor

  `encodeCanonical`: a canonical value as DAG-CBOR.  A link is tag 42 around its
  bytes after a zero; a number is an integer where it is a safe one and a double
  otherwise, and has no encoding where it is not finite.  The eight bytes of a
  double and the bytes of a link are a parameter.
-/

import O2Fabric.Core.Canonical
import O2Fabric.Js.Utf8
import O2Fabric.Lib.Cbor

namespace O2Fabric

structure DagCbor where
  /-- A number's IEEE 754 double, high byte first. -/
  double : ℚ → Bytes
  cidBytes : Cid → Bytes

namespace DagCbor

variable (codec : DagCbor)

def encodeNumber : JsNumber → Option Bytes
  | .finite x =>
    if isSafeInteger x then some (Cbor.integer x.num) else some (Cbor.double (codec.double x))
  | _ => none

mutual

/-- `encodeCanonical(value)`, `none` where it does not encode. -/
def encodeCanonical : CanonicalValue → Option Bytes
  | .null => some Cbor.null
  | .bool b => some (Cbor.boolean b)
  | .number x => codec.encodeNumber x
  | .text text => some (Cbor.textString (textEncoder text))
  | .bytes bytes => some (Cbor.byteString bytes)
  | .cid cid => some (Cbor.tag 42 (Cbor.byteString (Cbor.byte 0 :: codec.cidBytes cid)))
  | .list items => (encodeItems items).map Cbor.array
  | .record fields => (encodeFields fields).map Cbor.map

def encodeItems : List CanonicalValue → Option (List Bytes)
  | [] => some []
  | item :: items => do
    let head ← encodeCanonical item
    let rest ← encodeItems items
    return head :: rest

def encodeFields : List (JsString × CanonicalValue) → Option (List (Bytes × Bytes))
  | [] => some []
  | (name, value) :: fields => do
    let head ← encodeCanonical value
    let rest ← encodeFields fields
    return (textEncoder name, head) :: rest

end

variable {codec}

@[simp] theorem encodeCanonical_finite (x : ℚ) :
    (codec.encodeCanonical (.number (.finite x))).isSome = true := by
  rw [encodeCanonical, encodeNumber]
  split <;> rfl

@[simp] theorem encodeCanonical_null : codec.encodeCanonical .null = some Cbor.null := by
  rw [encodeCanonical]

@[simp] theorem encodeCanonical_text (text : JsString) :
    codec.encodeCanonical (.text text) = some (Cbor.textString (textEncoder text)) := by
  rw [encodeCanonical]

theorem encodeItems_isSome {items : List CanonicalValue} :
    (codec.encodeItems items).isSome = true ↔
      ∀ item ∈ items, (codec.encodeCanonical item).isSome = true := by
  induction items with
  | nil => simp [encodeItems]
  | cons item items ih =>
    simp only [List.forall_mem_cons, ← ih]
    cases hitem : codec.encodeCanonical item <;> cases hitems : codec.encodeItems items <;>
      simp [encodeItems, hitem, hitems]

theorem encodeFields_isSome {fields : List (JsString × CanonicalValue)} :
    (codec.encodeFields fields).isSome = true ↔
      ∀ entry ∈ fields, (codec.encodeCanonical entry.2).isSome = true := by
  induction fields with
  | nil => simp [encodeFields]
  | cons entry fields ih =>
    simp only [List.forall_mem_cons, ← ih]
    cases hentry : codec.encodeCanonical entry.2 <;>
      cases hfields : codec.encodeFields fields <;> simp [encodeFields, hentry, hfields]

/-- A list encodes where its items do, and a record where the values of its fields do. -/
@[simp] theorem encodeCanonical_list_isSome {items : List CanonicalValue} :
    (codec.encodeCanonical (.list items)).isSome = true ↔
      ∀ item ∈ items, (codec.encodeCanonical item).isSome = true := by
  rw [encodeCanonical, Option.isSome_map, encodeItems_isSome]

@[simp] theorem encodeCanonical_record_isSome {fields : List (JsString × CanonicalValue)} :
    (codec.encodeCanonical (.record fields)).isSome = true ↔
      ∀ entry ∈ fields, (codec.encodeCanonical entry.2).isSome = true := by
  rw [encodeCanonical, Option.isSome_map, encodeFields_isSome]

end DagCbor

/-! ## The order of fields -/

/-- The order in which a record's fields are encoded, and listed once decoded. -/
def FieldLE (a b : JsString × CanonicalValue) : Prop :=
  Cbor.KeyLE (textEncoder a.1, []) (textEncoder b.1, [])

instance : DecidableRel FieldLE := fun a b =>
  inferInstanceAs (Decidable (Cbor.KeyLE (textEncoder a.1, []) (textEncoder b.1, [])))

namespace CanonicalValue

mutual

/-- The value as its encoding lists it. -/
def inOrder : CanonicalValue → CanonicalValue
  | .list items => .list (itemsInOrder items)
  | .record fields => .record ((fieldsInOrder fields).insertionSort FieldLE)
  | .null => .null
  | .bool b => .bool b
  | .number x => .number x
  | .text t => .text t
  | .bytes b => .bytes b
  | .cid c => .cid c

def itemsInOrder : List CanonicalValue → List CanonicalValue
  | [] => []
  | item :: items => inOrder item :: itemsInOrder items

def fieldsInOrder : List (JsString × CanonicalValue) → List (JsString × CanonicalValue)
  | [] => []
  | (name, value) :: fields => (name, inOrder value) :: fieldsInOrder fields

end

theorem keys_fieldsInOrder (fields : List (JsString × CanonicalValue)) :
    (fieldsInOrder fields).map Prod.fst = fields.map Prod.fst := by
  induction fields with
  | nil => rfl
  | cons entry fields ih =>
    obtain ⟨name, value⟩ := entry
    rw [fieldsInOrder, List.map_cons, List.map_cons, ih]

mutual

theorem same_inOrder : (value : CanonicalValue) → value.Same value.inOrder
  | .null => .null
  | .bool b => .bool b
  | .number x => .number x
  | .text t => .text t
  | .bytes b => .bytes b
  | .cid c => .cid c
  | .list items => .list (same_itemsInOrder items)
  | .record fields =>
    .record (keys_fieldsInOrder fields).symm (same_fieldsInOrder fields)
      (List.perm_insertionSort FieldLE (fieldsInOrder fields)).symm

theorem same_itemsInOrder : (items : List CanonicalValue) →
    List.Forall₂ CanonicalValue.Same items (itemsInOrder items)
  | [] => .nil
  | item :: items => .cons (same_inOrder item) (same_itemsInOrder items)

theorem same_fieldsInOrder : (fields : List (JsString × CanonicalValue)) →
    List.Forall₂ CanonicalValue.Same (fields.map Prod.snd) ((fieldsInOrder fields).map Prod.snd)
  | [] => .nil
  | (_, value) :: fields => .cons (same_inOrder value) (same_fieldsInOrder fields)

end

end CanonicalValue

/-! ## A codec -/

open Classical in
/-- DAG-CBOR for one value: it is encoded, and it comes back with its fields in the
    order of the encoding. -/
noncomputable def DagCbor.only (codec : DagCbor) (value : CanonicalValue) : CanonicalCodec where
  encode v :=
    match codec.encodeCanonical v with
    | some bytes => if v = value then .ok bytes else .error []
    | none => .error []
  decode bytes := if codec.encodeCanonical value = some bytes then some value.inOrder else none

theorem DagCbor.only_roundTrips (codec : DagCbor) (value : CanonicalValue) :
    (codec.only value).RoundTrips := by
  intro v bytes hencoded
  simp only [only] at hencoded
  split at hencoded
  · next found hfound =>
    split at hencoded
    · next heq =>
      cases hencoded
      subst heq
      exact ⟨v.inOrder, if_pos hfound, v.same_inOrder⟩
    · cases hencoded
  · cases hencoded

theorem DagCbor.only_encode {codec : DagCbor} {value : CanonicalValue} {bytes : Bytes}
    (h : codec.encodeCanonical value = some bytes) : (codec.only value).encode value = .ok bytes := by
  simp [only, h]

/-- A codec whose doubles and links have no bytes of their own. -/
def plainDagCbor : DagCbor := ⟨fun _ => [], fun _ => []⟩

end O2Fabric
