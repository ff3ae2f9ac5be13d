/-
  O2Fabric.Core.Canonical

  The canonical codec, and when two values are the same one.  A record is a set
  of fields: the codec writes them in an order of its own, so what it reads back
  may list them otherwise than what was written.
-/

import O2Fabric.Core.Checkpoint

namespace O2Fabric

/-- The same value, but for the order in which records list their fields. -/
inductive CanonicalValue.Same : CanonicalValue → CanonicalValue → Prop
  | null : Same .null .null
  | bool (b : Bool) : Same (.bool b) (.bool b)
  | number (x : JsNumber) : Same (.number x) (.number x)
  | text (text : JsString) : Same (.text text) (.text text)
  | bytes (bytes : Bytes) : Same (.bytes bytes) (.bytes bytes)
  | cid (cid : Cid) : Same (.cid cid) (.cid cid)
  | list {items items' : List CanonicalValue} (each : List.Forall₂ Same items items') :
      Same (.list items) (.list items')
  | record {fields inOrder fields' : List (JsString × CanonicalValue)}
      (keys : fields.map Prod.fst = inOrder.map Prod.fst)
      (values : List.Forall₂ Same (fields.map Prod.snd) (inOrder.map Prod.snd))
      (moved : inOrder.Perm fields') : Same (.record fields) (.record fields')

/-- `encodeCanonical` and `decodeCanonical`. -/
structure CanonicalCodec where
  encode : CanonicalValue → Except JsString Bytes
  /-- `none` where it throws. -/
  decode : Bytes → Option CanonicalValue

/-- What was encoded is decoded as the same value. -/
def CanonicalCodec.RoundTrips (codec : CanonicalCodec) : Prop :=
  ∀ value bytes, codec.encode value = .ok bytes →
    ∃ value', codec.decode bytes = some value' ∧ value.Same value'

/-! ## Reading the same value -/

/-- A field of the same record: both absent, or the same value. -/
abbrev SameField : Option CanonicalValue → Option CanonicalValue → Prop :=
  Option.Rel CanonicalValue.Same

variable {fields : List (JsString × CanonicalValue)}

theorem lookup_rel {fields' : List (JsString × CanonicalValue)}
    (keys : fields.map Prod.fst = fields'.map Prod.fst)
    (values : List.Forall₂ CanonicalValue.Same (fields.map Prod.snd) (fields'.map Prod.snd))
    (name : JsString) : SameField (field fields name) (field fields' name) := by
  induction fields generalizing fields' with
  | nil =>
    cases fields' with
    | nil => exact .none
    | cons entry rest => simp at keys
  | cons entry fields ih =>
    cases fields' with
    | nil => simp at keys
    | cons entry' fields' =>
      simp only [List.map_cons, List.cons.injEq, List.forall₂_cons] at keys values
      have hrest := ih keys.2 values.2
      obtain ⟨key, value⟩ := entry
      obtain ⟨key', value'⟩ := entry'
      obtain rfl : key = key' := keys.1
      show SameField (if key = name then some value else field fields name)
        (if key = name then some value' else field fields' name)
      split
      · exact .some values.1
      · exact hrest

theorem field_eq_some_iff (hkeys : (fields.map Prod.fst).Nodup) {name : JsString}
    {value : CanonicalValue} :
    field fields name = some value ↔ (name, value) ∈ fields :=
  ⟨InsertionMap.mem_of_lookup, InsertionMap.lookup_of_mem hkeys⟩

/-- A record with distinct keys is the same record in any order. -/
theorem field_perm {fields' : List (JsString × CanonicalValue)} (hperm : fields.Perm fields')
    (hkeys : (fields.map Prod.fst).Nodup) (name : JsString) :
    field fields name = field fields' name := by
  have hkeys' : (fields'.map Prod.fst).Nodup := (hperm.map Prod.fst).nodup_iff.mp hkeys
  apply Option.ext
  intro value
  rw [field_eq_some_iff hkeys, field_eq_some_iff hkeys', hperm.mem_iff]

/-- What the same value as a record is: a record with the same keys and, under each,
    the same value. -/
theorem CanonicalValue.Same.of_record {value : CanonicalValue}
    (h : (CanonicalValue.record fields).Same value) (hkeys : (fields.map Prod.fst).Nodup) :
    ∃ fields', value = .record fields' ∧
      (fields.map Prod.fst).Perm (fields'.map Prod.fst) ∧
      ∀ name, SameField (field fields name) (field fields' name) := by
  cases h with
  | @record _ inOrder fields' keys values moved =>
    have hnodup : (inOrder.map Prod.fst).Nodup := keys ▸ hkeys
    refine ⟨fields', rfl, ?_, ?_⟩
    · rw [keys]
      exact moved.map Prod.fst
    · intro name
      rw [← field_perm moved hnodup name]
      exact lookup_rel keys values name

section

variable {value value' : Option CanonicalValue} (h : SameField value value')

include h

theorem asText_same : asText value = asText value' := by
  cases h with
  | none => rfl
  | some hsame => cases hsame <;> rfl

theorem asHandle_same : asHandle value = asHandle value' := by
  cases h with
  | none => rfl
  | some hsame => cases hsame <;> rfl

theorem asWholeNumber_same : asWholeNumber value = asWholeNumber value' := by
  cases h with
  | none => rfl
  | some hsame => cases hsame <;> rfl

end

end O2Fabric
