/-
  O2Fabric.Core.Reduce.FabricCombiner

  The one merge of the fabric: a sum of counts by key, and a sum of rows.  What is
  not a partial counts for nothing.

  A plain object takes no number under `__proto__`: the assignment goes to an
  accessor, which passes a number over.  So a partial read off an object that has
  that key of its own has it no more.
-/

import Mathlib.Algebra.Group.Prod
import O2Fabric.Core.Platform
import O2Fabric.Lib.KeyedSum

namespace O2Fabric.Reduce

open KeyedSum

/-! ## The merge -/

/-- The key that a plain object has an accessor for. -/
def PROTO : JsString := js "__proto__"

/-- `object[key] = n`, on a plain object. -/
def assign (object : InsertionMap JsString ℚ) (e : JsString × ℚ) : InsertionMap JsString ℚ :=
  if e.1 = PROTO then object else object.set e.1 e.2

/-- `{}` with each entry assigned in turn. -/
def plainObject (entries : List (JsString × ℚ)) : InsertionMap JsString ℚ :=
  entries.foldl assign .empty

/-- A value the fabric's combiner counts. -/
structure FabricPartial where
  counts : InsertionMap JsString ℚ
  rows : ℚ

/-- `typeof n === 'number' && Number.isFinite(n)`. -/
def finiteNumber : CanonicalValue → Option ℚ
  | .number (.finite value) => some value
  | _ => none

/-- The entries of a record, where all of them are finite numbers. -/
def finiteEntries (entries : List (JsString × CanonicalValue)) : Option (List (JsString × ℚ)) :=
  entries.mapM fun entry => (finiteNumber entry.2).map fun n => (entry.1, n)

def asFabricPartial : CanonicalValue → Option FabricPartial
  | .record fields =>
    match (fields.lookup (js "rows")).bind finiteNumber with
    | none => none
    | some rows =>
      match fields.lookup (js "counts") with
      | some (.record entries) =>
        (finiteEntries entries).map fun checked => ⟨plainObject checked, rows⟩
      | _ => none
  | _ => none

/-- The loop of the combiner. -/
def absorb (merged : FabricPartial) (input : CanonicalValue) : FabricPartial :=
  match asFabricPartial input with
  | none => merged
  | some part => ⟨addAll merged.counts part.counts.entries, merged.rows + part.rows⟩

def numberFields (entries : List (JsString × ℚ)) : List (JsString × CanonicalValue) :=
  entries.map fun e => (e.1, .number (.finite e.2))

def fabricCombiner (inputs : List CanonicalValue) : CanonicalValue :=
  let merged := inputs.foldl absorb ⟨.empty, 0⟩
  .record [(js "counts", .record
      (numberFields (plainObject (sortedEntries (· ≤ ·) merged.counts)).entries)),
    (js "rows", .number (.finite merged.rows))]

/-! ## What a value is worth -/

/-- What counts and rows come to.  Such worths add up. -/
abbrev Worth := (JsString → WithZero ℚ) × ℚ

def FabricPartial.worth (part : FabricPartial) : Worth := (totals part.counts, part.rows)

/-- What a value adds to a merge. -/
def worth (value : CanonicalValue) : Worth :=
  ((asFabricPartial value).map FabricPartial.worth).getD 0

/-- The counts a value states, under whatever keys. -/
def countEntries : CanonicalValue → List (JsString × ℚ)
  | .record fields =>
    match fields.lookup (js "counts") with
    | some (.record entries) => (finiteEntries entries).getD []
    | _ => []
  | _ => []

def stated (value : CanonicalValue) : Worth :=
  ((asFabricPartial value).map fun part =>
    (totals (InsertionMap.ofPairs (countEntries value)), part.rows)).getD 0

/-! ## Plain objects -/

theorem plainObject_get? (entries : List (JsString × ℚ)) (key : JsString) :
    (plainObject entries).get? key
      = if key = PROTO then none else (InsertionMap.ofPairs entries).get? key := by
  have hfold : ∀ m m' : InsertionMap JsString ℚ,
      (m.get? key = if key = PROTO then none else m'.get? key) →
      (entries.foldl assign m).get? key = if key = PROTO then none
        else (entries.foldl (fun m e => m.set e.1 e.2) m').get? key := by
    induction entries with
    | nil => exact fun _ _ h => h
    | cons e rest ih =>
      intro m m' h
      apply ih
      unfold assign
      split
      · next hproto =>
        -- the key is not the one that is written
        rw [h, InsertionMap.get?_set]
        by_cases hkey : key = PROTO
        · rw [if_pos hkey, if_pos hkey]
        · rw [if_neg hkey, if_neg hkey, if_neg fun hsame => hkey (hsame.trans hproto)]
      · next hother =>
        rw [InsertionMap.get?_set, InsertionMap.get?_set]
        by_cases hsame : key = e.1
        · rw [if_pos hsame, if_neg fun hkey => hother (hsame.symm.trans hkey), if_pos hsame]
        · rw [if_neg hsame, if_neg hsame, h]
  apply hfold
  split <;> rfl

theorem totals_plainObject (entries : List (JsString × ℚ)) (key : JsString) :
    totals (plainObject entries) key
      = if key = PROTO then 0 else totals (InsertionMap.ofPairs entries) key := by
  unfold totals
  rw [plainObject_get?]
  split <;> rfl

/-- Without that key, a plain object is a map like any other. -/
theorem plainObject_of_notMem {entries : List (JsString × ℚ)}
    (h : PROTO ∉ entries.map Prod.fst) : plainObject entries = InsertionMap.ofPairs entries := by
  have hfold : ∀ m, entries.foldl assign m
      = entries.foldl (fun m e => m.set e.1 e.2) m := by
    induction entries with
    | nil => exact fun _ => rfl
    | cons e rest ih =>
      intro m
      rw [List.map_cons, List.mem_cons, not_or] at h
      rw [List.foldl_cons, List.foldl_cons, assign, if_neg (Ne.symm h.1), ih h.2]
  exact hfold .empty

theorem finiteEntries_numberFields (entries : List (JsString × ℚ)) :
    finiteEntries (numberFields entries) = some entries := by
  unfold finiteEntries numberFields
  rw [mapM_eq_some_iff, List.forall₂_map_left_iff, List.forall₂_same]
  exact fun e _ => rfl

/-! ## The merge adds worths -/

theorem worth_absorb (merged : FabricPartial) (value : CanonicalValue) :
    (absorb merged value).worth = merged.worth + worth value := by
  unfold absorb worth
  cases asFabricPartial value with
  | none => exact (add_zero _).symm
  | some part => exact Prod.ext (totals_addAll_entries merged.counts part.counts) rfl

theorem worth_foldl_absorb (merged : FabricPartial) (inputs : List CanonicalValue) :
    (inputs.foldl absorb merged).worth = merged.worth + (inputs.map worth).sum := by
  induction inputs generalizing merged with
  | nil => simp
  | cons value inputs ih => rw [List.foldl_cons, ih, worth_absorb, List.map_cons, List.sum_cons,
      add_assoc]

/-- What a value adds under the key of the accessor is nothing. -/
theorem worth_proto (value : CanonicalValue) : (worth value).1 PROTO = 0 := by
  unfold worth
  cases hpart : asFabricPartial value with
  | none => rfl
  | some part =>
    have hcounts : ∃ entries, part.counts = plainObject entries := by
      unfold asFabricPartial at hpart
      split at hpart
      · split at hpart
        · cases hpart
        · split at hpart
          · obtain ⟨checked, -, rfl⟩ := Option.map_eq_some_iff.mp hpart
            exact ⟨checked, rfl⟩
          · cases hpart
      · cases hpart
    obtain ⟨entries, hentries⟩ := hcounts
    show totals part.counts PROTO = 0
    rw [hentries, totals_plainObject, if_pos rfl]

/-- What the loop of the combiner ends with. -/
def mergedOf (inputs : List CanonicalValue) : FabricPartial := inputs.foldl absorb ⟨.empty, 0⟩

theorem worth_mergedOf (inputs : List CanonicalValue) :
    (mergedOf inputs).worth = (inputs.map worth).sum := by
  unfold mergedOf
  rw [worth_foldl_absorb]
  exact zero_add _

theorem proto_notMem_mergedOf (inputs : List CanonicalValue) :
    PROTO ∉ (mergedOf inputs).counts.keys := by
  rw [← totals_ne_zero, not_not]
  have hworth := congrArg (fun w : Worth => w.1 PROTO) (worth_mergedOf inputs)
  have hnone : ∀ inputs : List CanonicalValue, ((inputs.map worth).sum).1 PROTO = 0 := by
    intro inputs
    induction inputs with
    | nil => rfl
    | cons value inputs ih =>
      rw [List.map_cons, List.sum_cons, Prod.fst_add, Pi.add_apply, worth_proto, ih, add_zero]
  exact hworth.trans (hnone inputs)

/-- The result, with its keys in order. -/
theorem fabricCombiner_eq (inputs : List CanonicalValue) :
    fabricCombiner inputs = .record
      [(js "counts", .record (numberFields (sortedEntries (· ≤ ·) (mergedOf inputs).counts))),
        (js "rows", .number (.finite (mergedOf inputs).rows))] := by
  have hperm := sortedEntries_perm (· ≤ ·) (mergedOf inputs).counts
  have hkeys := hperm.map Prod.fst
  have hproto : PROTO ∉ (sortedEntries (· ≤ ·) (mergedOf inputs).counts).map Prod.fst := by
    rw [hkeys.mem_iff]
    exact proto_notMem_mergedOf inputs
  have hnodup := hkeys.nodup_iff.mpr (mergedOf inputs).counts.keysNodup
  show CanonicalValue.record [(js "counts", .record (numberFields
    (plainObject (sortedEntries (· ≤ ·) (mergedOf inputs).counts)).entries)), _] = _
  rw [plainObject_of_notMem hproto, InsertionMap.ofPairs_entries hnodup]
  rfl

/-- The result is a partial. -/
theorem asFabricPartial_fabricCombiner (inputs : List CanonicalValue) :
    asFabricPartial (fabricCombiner inputs) = some
      ⟨plainObject (sortedEntries (· ≤ ·) (mergedOf inputs).counts), (mergedOf inputs).rows⟩ := by
  rw [fabricCombiner_eq]
  have hfound : ∀ counts rows : CanonicalValue,
      [(js "counts", counts), (js "rows", rows)].lookup (js "rows") = some rows ∧
      [(js "counts", counts), (js "rows", rows)].lookup (js "counts") = some counts :=
    fun counts rows => ⟨rfl, rfl⟩
  unfold asFabricPartial
  dsimp only
  rw [(hfound _ _).1, (hfound _ _).2]
  dsimp only [Option.bind_some, finiteNumber]
  rw [finiteEntries_numberFields]
  rfl

end O2Fabric.Reduce

/-! # Fold

The fabric's merge is a fold of a commutative monoid: its result is told by the
sum of what its inputs are worth, and is worth that sum itself.  So groups,
permutations and what is no partial change nothing.  What an input is worth is
what it states, except under the key that no plain object takes a number for.
-/

namespace O2Fabric.Reduce

open KeyedSum

/-- The result is worth what the inputs are worth together. -/
theorem worth_fabricCombiner (inputs : List CanonicalValue) :
    worth (fabricCombiner inputs) = (inputs.map worth).sum := by
  rw [← worth_mergedOf]
  unfold worth
  rw [asFabricPartial_fabricCombiner]
  refine Prod.ext ?_ rfl
  funext key
  show totals (plainObject (sortedEntries (· ≤ ·) (mergedOf inputs).counts)) key
    = totals (mergedOf inputs).counts key
  rw [totals_plainObject, totals_ofPairs_sortedEntries]
  split
  · next hproto =>
    subst hproto
    by_contra hne
    exact proto_notMem_mergedOf inputs (totals_ne_zero.mp (Ne.symm hne))
  · rfl

/-- Inputs that are worth the same together have one result. -/
theorem fabricCombiner_congr {inputs inputs' : List CanonicalValue}
    (h : (inputs.map worth).sum = (inputs'.map worth).sum) :
    fabricCombiner inputs = fabricCombiner inputs' := by
  rw [← worth_mergedOf, ← worth_mergedOf] at h
  have hcounts : totals (mergedOf inputs).counts = totals (mergedOf inputs').counts :=
    congrArg Prod.fst h
  have hrows : (mergedOf inputs).rows = (mergedOf inputs').rows := congrArg Prod.snd h
  rw [fabricCombiner_eq, fabricCombiner_eq, sortedEntries_congr hcounts, hrows]

/-! ## The laws -/

/-- How the inputs are cut, how they are ordered and what else is among them is
    nothing to the result, which is a partial. -/
structure MonoidLaws (inputs : List CanonicalValue) : Prop where
  grouped : ∀ groups : List (List CanonicalValue), groups.flatten = inputs →
    fabricCombiner (groups.map fabricCombiner) = fabricCombiner inputs
  permuted : ∀ inputs', inputs'.Perm inputs → fabricCombiner inputs' = fabricCombiner inputs
  malformed : ∀ before value after, inputs = before ++ value :: after →
    asFabricPartial value = none → fabricCombiner inputs = fabricCombiner (before ++ after)
  accepted : (asFabricPartial (fabricCombiner inputs)).isSome

theorem monoidLaws (inputs : List CanonicalValue) : MonoidLaws inputs where
  grouped groups hgroups := by
    apply fabricCombiner_congr
    have heach : (groups.map fabricCombiner).map worth
        = (groups.map (List.map worth)).map List.sum := by
      rw [List.map_map, List.map_map]
      exact List.map_congr_left fun group _ => worth_fabricCombiner group
    rw [heach, ← List.sum_flatten, ← List.map_flatten, hgroups]
  permuted inputs' hperm := fabricCombiner_congr (hperm.map worth).sum_eq
  malformed before value after hinputs hnone := by
    have hnothing : worth value = 0 := by
      unfold worth
      rw [hnone]
      rfl
    apply fabricCombiner_congr
    rw [hinputs, List.map_append, List.map_cons, List.map_append, List.sum_append, List.sum_append,
      List.sum_cons, hnothing, zero_add]
  accepted := by
    rw [asFabricPartial_fabricCombiner]
    rfl

/-! ## What is stated -/

/-- A value that is there so many times counts so many times. -/
def Multiplied (inputs : List CanonicalValue) : Prop :=
  ∀ value k rest, inputs.Perm (List.replicate k value ++ rest) →
    stated (fabricCombiner inputs) = k • stated value + stated (fabricCombiner rest)

/-- A partial that states no count under the key of the accessor. -/
def TakesAllKeys (value : CanonicalValue) : Prop :=
  (asFabricPartial value).isSome → PROTO ∉ (countEntries value).map Prod.fst

variable {value : CanonicalValue}

/-- A partial's counts are those it states, assigned to a plain object. -/
theorem counts_of_asFabricPartial {part : FabricPartial} (h : asFabricPartial value = some part) :
    part.counts = plainObject (countEntries value) := by
  unfold asFabricPartial at h
  unfold countEntries
  split at h
  · split at h
    · cases h
    · split at h
      · obtain ⟨checked, hchecked, rfl⟩ := Option.map_eq_some_iff.mp h
        dsimp only
        rw [hchecked]
        rfl
      · cases h
  · cases h

/-- A value is worth what it states, but for the one key. -/
theorem worth_eq_stated (value : CanonicalValue) :
    (worth value).2 = (stated value).2 ∧
      ∀ key, (worth value).1 key = if key = PROTO then 0 else (stated value).1 key := by
  unfold worth stated
  cases hpart : asFabricPartial value with
  | none => exact ⟨rfl, fun key => (ite_self _).symm⟩
  | some part =>
    refine ⟨rfl, fun key => ?_⟩
    show totals part.counts key = _
    rw [counts_of_asFabricPartial hpart, totals_plainObject]
    rfl

/-- It states something under that key exactly if it is a partial with a count there. -/
theorem stated_proto :
    (stated value).1 PROTO = 0 ↔ TakesAllKeys value := by
  unfold stated TakesAllKeys
  cases asFabricPartial value with
  | none => exact ⟨fun _ => nofun, fun _ => rfl⟩
  | some part =>
    have hkey : totals (InsertionMap.ofPairs (countEntries value)) PROTO ≠ 0 ↔
        PROTO ∈ (countEntries value).map Prod.fst := by
      rw [totals_ne_zero, InsertionMap.mem_keys_ofPairs]
    constructor
    · exact fun hnone _ hin => hkey.mpr hin hnone
    · intro hnotin
      by_contra hne
      exact hnotin rfl (hkey.mp hne)

theorem stated_eq_worth (h : TakesAllKeys value) :
    stated value = worth value := by
  obtain ⟨hrows, hcounts⟩ := worth_eq_stated value
  refine Prod.ext (funext fun key => ?_) hrows.symm
  rw [hcounts]
  split
  · next hproto =>
    rw [hproto]
    exact stated_proto.mpr h
  · rfl

/-- A result has no count under that key. -/
theorem takesAllKeys_fabricCombiner (inputs : List CanonicalValue) :
    TakesAllKeys (fabricCombiner inputs) := by
  intro _ hin
  have hentries : countEntries (fabricCombiner inputs)
      = sortedEntries (· ≤ ·) (mergedOf inputs).counts := by
    rw [fabricCombiner_eq]
    show (finiteEntries (numberFields _)).getD [] = _
    rw [finiteEntries_numberFields]
    rfl
  rw [hentries, ((sortedEntries_perm _ (mergedOf inputs).counts).map Prod.fst).mem_iff] at hin
  exact proto_notMem_mergedOf inputs hin

/-- The merge is a fold of what its inputs state exactly if none of them states a
    count under the key that a plain object takes no number for. -/
theorem fabricCombiner_fold_iff (inputs : List CanonicalValue) :
    (MonoidLaws inputs ∧ Multiplied inputs) ↔ ∀ value ∈ inputs, TakesAllKeys value := by
  constructor
  · rintro ⟨-, hmultiplied⟩ value hvalue
    obtain ⟨before, after, hsplit⟩ := List.append_of_mem hvalue
    have honce := hmultiplied value 1 (before ++ after) (hsplit ▸ List.perm_middle)
    have hproto := congrArg (fun w : Worth => w.1 PROTO) honce
    simp only [one_nsmul, Prod.fst_add, Pi.add_apply] at hproto
    rw [stated_proto.mpr (takesAllKeys_fabricCombiner _),
      stated_proto.mpr (takesAllKeys_fabricCombiner _), add_zero] at hproto
    exact stated_proto.mp hproto.symm
  · intro hkeys
    refine ⟨monoidLaws inputs, fun value k rest hperm => ?_⟩
    rw [stated_eq_worth (takesAllKeys_fabricCombiner _),
      stated_eq_worth (takesAllKeys_fabricCombiner _), worth_fabricCombiner, worth_fabricCombiner,
      (hperm.map worth).sum_eq, List.map_append, List.sum_append, List.map_replicate,
      List.sum_replicate]
    cases k with
    | zero => rw [zero_nsmul, zero_nsmul]
    | succ k =>
      have hin : value ∈ inputs := hperm.mem_iff.mpr (by simp)
      rw [stated_eq_worth (hkeys value hin)]

/-! ## The accessor's key -/

/-- A partial with one count of five, under the accessor's key. -/
def protoPartial : CanonicalValue :=
  .record [(js "counts", .record [(PROTO, .number (.finite 5))]), (js "rows", .number (.finite 1))]

theorem proto_count_is_lost : (asFabricPartial protoPartial).isSome ∧
    fabricCombiner [protoPartial, protoPartial]
      = .record [(js "counts", .record []), (js "rows", .number (.finite 2))] ∧
    ¬ Multiplied [protoPartial] := by
  have hrows : (mergedOf [protoPartial, protoPartial]).rows = 2 := by
    show (0 + 1 + 1 : ℚ) = 2
    rw [zero_add]
    exact one_add_one_eq_two
  have hcounts : (mergedOf [protoPartial, protoPartial]).counts = .empty := rfl
  refine ⟨rfl, ?_, fun h => ?_⟩
  · rw [fabricCombiner_eq, hcounts, hrows]
    rfl
  have honce := h protoPartial 1 [] (.refl _)
  have hproto := congrArg (fun w : Worth => w.1 PROTO) honce
  simp only [one_nsmul, Prod.fst_add, Pi.add_apply] at hproto
  rw [stated_proto.mpr (takesAllKeys_fabricCombiner _),
    stated_proto.mpr (takesAllKeys_fabricCombiner _), add_zero] at hproto
  exact stated_proto.mp hproto.symm rfl (.head _)

end O2Fabric.Reduce
