/-
  O2Fabric.Cloudflare.DoDatastore

  A datastore over the storage of a durable object, which other modules keep
  their own entries in.

  A value is put under its key's name as it is.  Presence is decided three times,
  by `has`, by `get` and by what a query lists, and a key is refused by the
  namespace its name is normalised into.
-/

import Mathlib.Data.List.DropRight
import O2Fabric.Js.WellFormed
import O2Fabric.Lib.InsertionMap

namespace O2Fabric.DoDatastore

abbrev Bytes := List (Fin 256)

/-- `'/'`. -/
def SLASH : CodeUnit := 0x2F

/-! ## Keys -/

/-- `while (length > 1 && last === '/')`: drop it. -/
def dropSlashes : JsString → JsString
  | [] => []
  | first :: rest => first :: rest.rdropWhile (· == SLASH)

/-- `Key.clean()`. -/
def clean (text : JsString) : JsString :=
  dropSlashes (if text.head? = some SLASH then text else SLASH :: text)

/-- A key, by its name.  The package keeps the name in UTF-8. -/
structure Key where
  name : JsString
  cleaned : clean (toWellFormed name) = name

instance : DecidableEq Key := fun a b =>
  decidable_of_iff (a.name = b.name) ⟨fun h => by cases a; cases b; cases h; rfl, congrArg Key.name⟩

theorem Key.ext {a b : Key} (h : a.name = b.name) : a = b := by
  cases a
  cases b
  cases h
  rfl

/-- What ends in a slash breaks no pair there. -/
theorem isWellFormed_slash {text : JsString} (h : isWellFormed (text ++ [SLASH]) = true) :
    isWellFormed text = true := by
  fun_induction isWellFormed text with
  | case1 => rfl
  | case2 u =>
    rw [List.singleton_append, isWellFormed] at h
    split at h
    · cases h
    · next hhigh =>
      rw [Bool.and_eq_true] at h
      have hlow := of_decide_eq_true h.1
      exact decide_eq_true (by omega)
  | case3 u v text hhigh ih =>
    rw [List.cons_append, List.cons_append, isWellFormed, if_pos hhigh, Bool.and_eq_true] at h
    rw [h.1, ih h.2]
    rfl
  | case4 u v text hhigh ih =>
    rw [List.cons_append, List.cons_append, isWellFormed, if_neg hhigh, Bool.and_eq_true] at h
    rw [h.1, ih h.2]
    rfl

theorem isWellFormed_rdropWhile {text : JsString} (h : isWellFormed text = true) :
    isWellFormed (text.rdropWhile (· == SLASH)) = true := by
  induction text using List.reverseRecOn with
  | nil => exact h
  | append_singleton text u ih =>
    rw [List.rdropWhile_concat]
    split
    · next hu =>
      rw [beq_iff_eq.mp hu] at h
      exact ih (isWellFormed_slash h)
    · exact h

theorem isWellFormed_slash_cons (text : JsString) :
    isWellFormed (SLASH :: text) = isWellFormed text :=
  (textEncoder_wellFormed (show isWellFormed [SLASH] = true from rfl) text).2.1

/-- A key's name begins with its first slash. -/
theorem clean_eq (text : JsString) :
    ∃ rest, clean text = SLASH :: rest.rdropWhile (· == SLASH) ∧
      (isWellFormed text = true → isWellFormed rest = true) := by
  unfold clean
  split
  · next hhead =>
    cases text with
    | nil => cases hhead
    | cons u rest =>
      cases hhead
      exact ⟨rest, rfl, fun h => (isWellFormed_slash_cons rest).symm.trans h⟩
  · exact ⟨text, rfl, id⟩

/-- Cleaning a text of whole characters leaves one, and leaves nothing to clean. -/
theorem clean_clean {text : JsString} (h : isWellFormed text = true) :
    clean (toWellFormed (clean text)) = clean text := by
  obtain ⟨rest, hclean, hrest⟩ := clean_eq text
  have hwell : isWellFormed (clean text) = true := by
    rw [hclean, isWellFormed_slash_cons]
    exact isWellFormed_rdropWhile (hrest h)
  rw [(toWellFormed_eq_iff _).mpr hwell, hclean]
  show dropSlashes (SLASH :: _) = _
  rw [dropSlashes, List.rdropWhile_idempotent]

/-- What has been made whole is whole. -/
theorem isWellFormed_toWellFormed (text : JsString) : isWellFormed (toWellFormed text) = true := by
  fun_induction toWellFormed text with
  | case1 => rfl
  | case2 u => exact decide_eq_true (unpaired_val u).1
  | case3 u v rest hpair ih =>
    rw [isWellFormed, if_pos ⟨hpair.1, hpair.2.1⟩, ih, decide_eq_true ⟨hpair.2.2.1, hpair.2.2.2⟩]
    rfl
  | case4 u v rest hpair ih =>
    have hsingle : isWellFormed [unpaired u] = true := decide_eq_true (unpaired_val u).1
    exact (textEncoder_wellFormed hsingle _).2.1.trans ih

/-- `new Key(text)`. -/
def Key.new (text : JsString) : Key :=
  ⟨clean (toWellFormed text), clean_clean (isWellFormed_toWellFormed text)⟩

/-- A key's name names that key. -/
@[simp] theorem Key.new_name (key : Key) : Key.new key.name = key := Key.ext key.cleaned

/-! ## The store -/

inductive Stored
  | bytes (bytes : Bytes)
  /-- A value that is no `Uint8Array`. -/
  | other
  deriving DecidableEq

/-- The storage of a durable object.  The order its `list` gives is not modelled. -/
abbrev Storage := InsertionMap JsString Stored

inductive RefusedNamespace
  | dhtDatastore
  | fabricKeyspace
  deriving DecidableEq

/-- The namespace without its last slash. -/
def RefusedNamespace.root : RefusedNamespace → JsString
  | .dhtDatastore => js "/dht"
  | .fabricKeyspace => js "/o2"

def RefusedNamespace.text (refused : RefusedNamespace) : JsString := refused.root ++ [SLASH]

example : RefusedNamespace.dhtDatastore.text = js "/dht/" := by decide

def refusedKeyPrefixes : List RefusedNamespace := [.dhtDatastore, .fabricKeyspace]

/-- `text.replace(/\/+/g, '/')`. -/
def collapseSlashes : JsString → JsString
  | [] => []
  | u :: rest =>
    if u = SLASH ∧ rest.head? = some SLASH then collapseSlashes rest
    else u :: collapseSlashes rest

/-- `text.replace(/\/+$/, '')`. -/
def dropTrailingSlashes (text : JsString) : JsString := text.rdropWhile (· == SLASH)

/-- Why a put is rejected. -/
inductive PutError
  | refused (key : JsString) (matchedPrefix : RefusedNamespace)
  | storage

def PutError.message : PutError → JsString
  | .refused key matched =>
    js "refusing to store a record-shaped key until the Phase 31 expiry sweep lands beside " ++
      js "it: " ++ key ++ js " normalises into " ++ matched.text
  | .storage => js "storage"

/-- Why a get is rejected. -/
inductive GetError
  | notFound (key : JsString)
  | notBytes (key : JsString)

def GetError.message : GetError → JsString
  | .notFound key => js "Not Found: " ++ key
  | .notBytes key => js "durable object storage holds a non-Uint8Array value at " ++ key

section

-- `toLowerCase`
variable (lower : JsString → JsString)

def classificationNameFor (key : Key) : JsString :=
  lower (dropTrailingSlashes (collapseSlashes key.name))

def refusedPrefixFor (key : Key) : Option RefusedNamespace :=
  let name := classificationNameFor lower key ++ [SLASH]
  refusedKeyPrefixes.find? fun refused => refused.text.isPrefixOf name

/-- Whether a store, given a sweep or not, may hold keys of this namespace. -/
def admits (sweptBy : Bool) (refused : RefusedNamespace) : Bool :=
  sweptBy && decide (refused = .dhtDatastore)

/-- `put`.  `accepts` is whether the storage takes the value. -/
def put (sweptBy : Bool) (storage : Storage) (key : Key) (val : Bytes) (accepts : Bool) :
    Except PutError Key × Storage :=
  let write : Except PutError Key × Storage :=
    if accepts then (.ok key, storage.set key.name (.bytes val)) else (.error .storage, storage)
  match refusedPrefixFor lower key with
  | some refused =>
    if admits sweptBy refused then write else (.error (.refused key.name refused), storage)
  | none => write

end

def get (storage : Storage) (key : Key) : Except GetError Bytes :=
  match storage.get? key.name with
  | none => .error (.notFound key.name)
  | some .other => .error (.notBytes key.name)
  | some (.bytes bytes) => .ok bytes

def has (storage : Storage) (key : Key) : Bool :=
  match storage.get? key.name with
  | some (.bytes _) => true
  | _ => false

def delete (storage : Storage) (key : Key) : Storage := storage.delete key.name

def keyForStoredName (name : JsString) : Option Key :=
  let key := Key.new name
  if key.name = name then some key else none

/-- `storage.list`, with the prefix pushed down where there is one. -/
def list (storage : Storage) (within : Option JsString) : List (JsString × Stored) :=
  match within with
  | none => storage.entries
  | some text => storage.entries.filter fun entry => text.isPrefixOf entry.1

def pairs (storage : Storage) (within : Option JsString) : List (Key × Bytes) :=
  (list storage within).filterMap fun entry =>
    match keyForStoredName entry.1, entry.2 with
    | some key, .bytes value => some (key, value)
    | _, _ => none

/-- `queryKeys`, where the query filters by its prefix and nothing else. -/
def queryKeys (storage : Storage) (within : Option JsString) : List Key :=
  ((pairs storage within).map Prod.fst).filter fun key =>
    within.all fun text => text.isPrefixOf key.name

/-! ## One key, one answer -/

variable {storage : Storage} {key : Key}

variable {name : JsString}

/-- Only a key's own name stands for it. -/
theorem keyForStoredName_eq_some :
    keyForStoredName name = some key ↔ name = key.name := by
  unfold keyForStoredName
  constructor
  · intro h
    obtain ⟨hname, hkey⟩ := Option.ite_none_right_eq_some.mp h
    cases hkey
    exact hname.symm
  · rintro rfl
    simp

variable {val : Bytes}

theorem get_eq_ok :
    get storage key = .ok val ↔ storage.get? key.name = some (.bytes val) := by
  unfold get
  split
  · next hnone => simp [hnone]
  · next hother => simp [hother]
  · next bytes hbytes => simp [hbytes]

theorem has_eq_true : has storage key = true ↔ ∃ val, get storage key = .ok val := by
  unfold has
  split
  · next bytes hbytes => exact ⟨fun _ => ⟨bytes, get_eq_ok.mpr hbytes⟩, fun _ => rfl⟩
  · next hnot =>
    refine ⟨nofun, ?_⟩
    rintro ⟨val, hval⟩
    exact absurd (get_eq_ok.mp hval) (hnot val)

/-- The pairs of a query are what `get` answers for the keys under its prefix. -/
theorem mem_pairs {within : Option JsString} :
    (key, val) ∈ pairs storage within ↔
      get storage key = .ok val ∧ within.all fun text => text.isPrefixOf key.name := by
  have hlist : ∀ entry, entry ∈ list storage within ↔
      entry ∈ storage.entries ∧ within.all fun text => text.isPrefixOf entry.1 := by
    intro entry
    cases within with
    | none => simp [list]
    | some text => simp [list]
  rw [get_eq_ok, InsertionMap.get?_eq_some]
  unfold pairs
  rw [List.mem_filterMap]
  constructor
  · rintro ⟨⟨name, value⟩, hmem, hpair⟩
    split at hpair
    · next found bytes hkey hvalue =>
      cases hpair
      cases hvalue
      cases keyForStoredName_eq_some.mp hkey
      exact (hlist _).mp hmem
    · cases hpair
  · intro h
    refine ⟨(key.name, .bytes val), (hlist _).mpr h, ?_⟩
    have hkey : keyForStoredName key.name = some key := keyForStoredName_eq_some.mpr rfl
    rw [hkey]

theorem mem_queryKeys {within : Option JsString} :
    key ∈ queryKeys storage within ↔
      (∃ val, get storage key = .ok val) ∧ within.all fun text => text.isPrefixOf key.name := by
  unfold queryKeys
  rw [List.mem_filter, List.mem_map]
  constructor
  · rintro ⟨⟨⟨found, val⟩, hmem, rfl⟩, hwithin⟩
    exact ⟨⟨val, (mem_pairs.mp hmem).1⟩, hwithin⟩
  · rintro ⟨⟨val, hval⟩, hwithin⟩
    exact ⟨⟨(key, val), mem_pairs.mpr ⟨hval, hwithin⟩, rfl⟩, hwithin⟩

/-! ## What is refused -/

/-- A name that is a namespace's, or lies below it. -/
def Within (refused : RefusedNamespace) (name : JsString) : Prop :=
  name = refused.root ∨ ∃ rest, name = refused.root ++ SLASH :: rest

theorem text_prefix_iff {refused : RefusedNamespace} :
    refused.text.isPrefixOf (name ++ [SLASH]) = true ↔ Within refused name := by
  rw [List.isPrefixOf_iff_prefix]
  unfold RefusedNamespace.text Within
  constructor
  · rintro ⟨rest, hrest⟩
    rcases List.eq_nil_or_concat rest with rfl | ⟨before, last, rfl⟩
    · rw [List.append_nil] at hrest
      exact Or.inl (List.append_cancel_right hrest).symm
    · rw [List.concat_eq_append, ← List.append_assoc] at hrest
      obtain ⟨hname, -⟩ := List.append_inj' hrest rfl
      exact Or.inr ⟨before, by rw [← hname]; simp⟩
  · rintro (rfl | ⟨rest, rfl⟩)
    · exact List.prefix_refl _
    · exact ⟨rest ++ [SLASH], by simp⟩

/-- No name lies in both. -/
theorem Within.unique {a b : RefusedNamespace} (ha : Within a name) (hb : Within b name) :
    a = b := by
  have hsecond : ∀ refused : RefusedNamespace, Within refused name →
      name[1]? = refused.root[1]? := by
    rintro refused (rfl | ⟨rest, rfl⟩)
    · rfl
    · cases refused <;> rfl
  have hsame := (hsecond a ha).symm.trans (hsecond b hb)
  cases a <;> cases b
  · rfl
  · exact absurd hsame (by decide)
  · exact absurd hsame (by decide)
  · rfl

theorem refusedPrefixFor_eq_some {lower : JsString → JsString} {refused : RefusedNamespace} :
    refusedPrefixFor lower key = some refused ↔
      Within refused (classificationNameFor lower key) := by
  have hfind : ∀ found, refusedPrefixFor lower key = some found →
      Within found (classificationNameFor lower key) := by
    intro found hfound
    have htext := List.find?_some hfound
    exact text_prefix_iff.mp htext
  constructor
  · exact hfind refused
  · intro h
    cases hfound : refusedPrefixFor lower key with
    | none =>
      have hmem : refused ∈ refusedKeyPrefixes := by cases refused <;> decide
      exact absurd (text_prefix_iff.mpr h) (List.find?_eq_none.mp hfound refused hmem)
    | some found => rw [(hfind found hfound).unique h]

variable {sweptBy accepts : Bool}

/-- A put is refused, as nothing it writes to, by its key and the sweep alone. -/
theorem put_refused_iff {lower : JsString → JsString} {matched : RefusedNamespace} :
    (put lower sweptBy storage key val accepts).1 = .error (.refused key.name matched) ↔
      Within matched (classificationNameFor lower key) ∧
        ¬ (sweptBy = true ∧ matched = .dhtDatastore) := by
  have hwrite : ∀ refused : RefusedNamespace,
      (if accepts then ((.ok key : Except PutError Key), storage.set key.name (.bytes val))
        else (.error .storage, storage)).1 ≠ .error (.refused key.name refused) := by
    intro refused
    split <;> nofun
  have hadmits : ∀ refused, admits sweptBy refused = true ↔
      (sweptBy = true ∧ refused = .dhtDatastore) := by
    intro refused
    rw [admits, Bool.and_eq_true, decide_eq_true_eq]
  unfold put
  cases hprefix : refusedPrefixFor lower key with
  | none =>
    refine ⟨fun h => absurd h (hwrite matched), fun ⟨hwithin, _⟩ => ?_⟩
    rw [refusedPrefixFor_eq_some.mpr hwithin] at hprefix
    cases hprefix
  | some refused =>
    have hwithin := refusedPrefixFor_eq_some.mp hprefix
    dsimp only
    split
    · next hadmitted =>
      refine ⟨fun h => absurd h (hwrite matched), fun ⟨hmatched, hnot⟩ => ?_⟩
      rw [hmatched.unique hwithin] at hnot
      exact absurd ((hadmits refused).mp hadmitted) hnot
    · next hadmitted =>
      constructor
      · intro h
        cases h
        exact ⟨hwithin, fun hswept => hadmitted ((hadmits _).mpr hswept)⟩
      · rintro ⟨hmatched, -⟩
        rw [hmatched.unique hwithin]

/-- Only a put that resolves changes the storage. -/
theorem put_error {lower : JsString → JsString} {error : PutError}
    (h : (put lower sweptBy storage key val accepts).1 = .error error) :
    (put lower sweptBy storage key val accepts).2 = storage := by
  unfold put at h ⊢
  dsimp only at h ⊢
  split at h
  · split at h
    · next hadmitted =>
      rw [if_pos hadmitted]
      cases accepts
      · rfl
      · cases h
    · next hadmitted => rw [if_neg hadmitted]
  · cases accepts
    · rfl
    · cases h

/-! ## What stays under a key -/

/-- What is done to the storage: by the store, or by another module. -/
inductive Op
  | put (key : Key) (val : Bytes) (accepts : Bool)
  | delete (key : Key)
  | foreign (name : JsString) (value : Option Stored)

def apply (lower : JsString → JsString) (sweptBy : Bool) (storage : Storage) : Op → Storage
  | .put key val accepts => (put lower sweptBy storage key val accepts).2
  | .delete key => delete storage key
  | .foreign name (some value) => storage.set name value
  | .foreign name none => storage.delete name

/-- It puts or deletes this key, or writes over its entry. -/
def Op.touches (key : Key) : Op → Prop
  | .put other _ _ => other = key
  | .delete other => other = key
  | .foreign name _ => name = key.name

theorem put_get? {lower : JsString → JsString} {other : Key} (h : other ≠ key) :
    (put lower sweptBy storage other val accepts).2.get? key.name = storage.get? key.name := by
  have hname : key.name ≠ other.name := fun hsame => h (Key.ext hsame.symm)
  have hset : (storage.set other.name (.bytes val)).get? key.name = storage.get? key.name := by
    rw [InsertionMap.get?_set, if_neg hname]
  unfold put
  dsimp only
  split
  · split
    · cases accepts
      · rfl
      · exact hset
    · rfl
  · cases accepts
    · rfl
    · exact hset

theorem apply_get? {lower : JsString → JsString} {op : Op} (h : ¬ op.touches key) :
    (apply lower sweptBy storage op).get? key.name = storage.get? key.name := by
  cases op with
  | put other val accepts => exact put_get? h
  | delete other =>
    have hname : key.name ≠ other.name := fun hsame => h (Key.ext hsame.symm)
    show (storage.delete other.name).get? key.name = _
    rw [InsertionMap.get?_delete, if_neg hname]
  | foreign name value =>
    cases value with
    | none =>
      show (storage.delete name).get? key.name = _
      rw [InsertionMap.get?_delete, if_neg (Ne.symm h)]
    | some value =>
      show (storage.set name value).get? key.name = _
      rw [InsertionMap.get?_set, if_neg (Ne.symm h)]

theorem get_foldl {lower : JsString → JsString} {ops : List Op} (h : ∀ op ∈ ops, ¬ op.touches key) :
    get (ops.foldl (apply lower sweptBy) storage) key = get storage key := by
  induction ops generalizing storage with
  | nil => rfl
  | cons op rest ih =>
    rw [List.foldl_cons, ih fun op hop => h op (List.mem_cons_of_mem _ hop)]
    unfold get
    rw [apply_get? (h op List.mem_cons_self)]

theorem put_ok {lower : JsString → JsString}
    (h : (put lower sweptBy storage key val accepts).1 = .ok key) :
    get (put lower sweptBy storage key val accepts).2 key = .ok val := by
  rw [get_eq_ok]
  unfold put at h ⊢
  dsimp only at h ⊢
  split at h
  · split at h
    · next hadmitted =>
      rw [if_pos hadmitted]
      cases accepts
      · cases h
      · exact InsertionMap.get?_set_self _ _ _
    · cases h
  · cases accepts
    · cases h
    · exact InsertionMap.get?_set_self _ _ _

/-- Over any storage: the three ways a key is present are one; a put is refused, and
    changes nothing, exactly where its name is a refused namespace's; and what was put
    stays until something else is put under that key. -/
theorem one_key_one_answer (lower : JsString → JsString) (sweptBy : Bool) (storage : Storage)
    (key : Key) :
    (has storage key = true ↔ ∃ val, get storage key = .ok val) ∧
    (has storage key = true ↔ key ∈ queryKeys storage none) ∧
    (∀ val accepts,
      ((∃ matched, (put lower sweptBy storage key val accepts).1 =
          .error (.refused key.name matched)) ↔
        ∃ matched, Within matched (classificationNameFor lower key) ∧
          ¬ (sweptBy = true ∧ matched = .dhtDatastore)) ∧
      (∀ error, (put lower sweptBy storage key val accepts).1 = .error error →
        (put lower sweptBy storage key val accepts).2 = storage) ∧
      ((put lower sweptBy storage key val accepts).1 = .ok key →
        ∀ ops : List Op, (∀ op ∈ ops, ¬ op.touches key) →
          get (ops.foldl (apply lower sweptBy)
            (put lower sweptBy storage key val accepts).2) key = .ok val)) := by
  refine ⟨has_eq_true, ?_, ?_⟩
  · rw [has_eq_true, mem_queryKeys]
    simp
  · intro val accepts
    refine ⟨exists_congr fun matched => put_refused_iff, fun error herror => put_error herror, ?_⟩
    intro hput ops hops
    rw [get_foldl hops, put_ok hput]

end O2Fabric.DoDatastore
