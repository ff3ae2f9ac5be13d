/-
  O2Fabric.Libp2p.DhtRecordSweep

  What bounds the DHT's part of a datastore: one walk over the entries under a
  prefix, run once over the value records and once over the provider entries,
  that deletes what a clock says has ended and counts what it did.
-/

import O2Fabric.Net.Protocol

namespace O2Fabric.DhtSweep

open Net.Protocol

/-- `'/'`. -/
def SLASH : CodeUnit := 0x2F

def DEFAULT_DHT_DATASTORE_PREFIX : JsString := js "/dht"

/-- Names and values; a listing is in the order of writing. -/
abbrev Datastore := InsertionMap JsString Bytes

/-- `query({ prefix })`, which is complete before the first entry is yielded. -/
def query (datastore : Datastore) (keyPrefix : JsString) : List (JsString × Bytes) :=
  datastore.entries.filter fun entry => keyPrefix.isPrefixOf entry.1

structure SweepCounts where
  swept : Nat
  kept : Nat
  undecodable : Nat
  deriving DecidableEq

inductive Verdict
  | delete
  | keep
  | undecodable
  deriving DecidableEq

/-- The body of the walk's loop. -/
def visit (decide : JsString × Bytes → Verdict) (done : SweepCounts × Datastore)
    (entry : JsString × Bytes) : SweepCounts × Datastore :=
  match decide entry with
  | .undecodable => ({ done.1 with undecodable := done.1.undecodable + 1 }, done.2)
  | .keep => ({ done.1 with kept := done.1.kept + 1 }, done.2)
  | .delete => ({ done.1 with swept := done.1.swept + 1 }, done.2.delete entry.1)

def walk (datastore : Datastore) (keyPrefix : JsString) (decide : JsString × Bytes → Verdict) :
    SweepCounts × Datastore :=
  (query datastore keyPrefix).foldl (visit decide) (⟨0, 0, 0⟩, datastore)

/-- What the stored bytes are read with, `none` where reading throws. -/
structure StoredForms where
  /-- The value in a `Libp2pRecord`. -/
  deserialize : Bytes → Option Bytes
  /-- `varint.decode`. -/
  decodeVarint : Bytes → Option JsNumber
  codec : CanonicalCodec

/-- What both sweeps need; the clock is read once a pass. -/
structure SweepOptions where
  now : JsNumber
  datastorePrefix : Option JsString

structure ProviderSweepOptions extends SweepOptions where
  validityMs : JsNumber
  selfPeerId : JsString

def SweepOptions.familyPrefix (options : SweepOptions) (family : JsString) : JsString :=
  options.datastorePrefix.getD DEFAULT_DHT_DATASTORE_PREFIX ++ family

def SweepOptions.recordPrefix (options : SweepOptions) : JsString :=
  options.familyPrefix (js "/record")

def SweepOptions.providerPrefix (options : SweepOptions) : JsString :=
  options.familyPrefix (js "/provider")

section

variable (forms : StoredForms)

/-- The expiry of the capabilities in a stored value record. -/
def storedExpiry (value : Bytes) : Option JsNumber := do
  let stored ← forms.deserialize value
  let records ← decodeNodeRecords forms.codec stored
  return .finite records.capabilities.expiresAt

def valueVerdict (options : SweepOptions) (entry : JsString × Bytes) : Verdict :=
  match storedExpiry forms entry.2 with
  | none => .undecodable
  | some expiresAt =>
    if expiresAt.below options.now || expiresAt.same options.now then .delete else .keep

def sweepValueRecords (options : SweepOptions) (datastore : Datastore) :
    SweepCounts × Datastore :=
  walk datastore options.recordPrefix (valueVerdict forms options)

/-- `key.split('/').pop()`, which is never undefined. -/
def lastSegment (key : JsString) : JsString := ((key.splitOn SLASH).getLast?).getD []

def providerVerdict (options : ProviderSweepOptions) (entry : JsString × Bytes) : Verdict :=
  let peerId := lastSegment entry.1
  if peerId = [] then .undecodable
  else if peerId = options.selfPeerId then .keep
  else
    match forms.decodeVarint entry.2 with
    | none => .undecodable
    | some created =>
      if (created.add options.validityMs).below options.now then .delete else .keep

def sweepProviderRecords (options : ProviderSweepOptions) (datastore : Datastore) :
    SweepCounts × Datastore :=
  walk datastore options.providerPrefix (providerVerdict forms options)

structure DhtSweepCounts where
  values : SweepCounts
  providers : SweepCounts
  deriving DecidableEq

/-- Both families, one after the other. -/
def sweepDhtRecords (options : ProviderSweepOptions) (datastore : Datastore) :
    DhtSweepCounts × Datastore :=
  let (values, datastore) := sweepValueRecords forms options.toSweepOptions datastore
  let (providers, datastore) := sweepProviderRecords forms options datastore
  (⟨values, providers⟩, datastore)

end

end O2Fabric.DhtSweep

/-! # Expired

A pass of both sweeps deletes what has ended at its clock and nothing else,
its counts add up to what is under each prefix, and a second pass at the same
clock finds nothing to delete.
-/

namespace O2Fabric.DhtSweep

open Net.Protocol

/-! ## One walk -/

section

variable (decide : JsString × Bytes → Verdict)

/-- How many entries of a listing get a verdict. -/
def given (verdict : Verdict) (listing : List (JsString × Bytes)) : Nat :=
  listing.countP fun entry => decide entry == verdict

theorem foldl_visit (listing : List (JsString × Bytes)) (counts : SweepCounts)
    (datastore : Datastore) :
    listing.foldl (visit decide) (counts, datastore)
      = (⟨counts.swept + given decide .delete listing, counts.kept + given decide .keep listing,
          counts.undecodable + given decide .undecodable listing⟩,
        (listing.filter fun entry => decide entry == .delete).foldl
          (fun store entry => store.delete entry.1) datastore) := by
  induction listing generalizing counts datastore with
  | nil => rfl
  | cons entry rest ih =>
    rw [List.foldl_cons, visit]
    cases hverdict : decide entry <;>
      simp [given, hverdict, ih, Nat.add_assoc, Nat.add_comm 1]

/-- The counts are those of the verdicts over the listing. -/
theorem walk_counts (datastore : Datastore) (keyPrefix : JsString) :
    (walk datastore keyPrefix decide).1
      = ⟨given decide .delete (query datastore keyPrefix),
          given decide .keep (query datastore keyPrefix),
          given decide .undecodable (query datastore keyPrefix)⟩ := by
  rw [walk, foldl_visit]
  simp only [Nat.zero_add]

/-- What stays is what the walk did not reach or did not decide to delete. -/
theorem walk_entries (datastore : Datastore) (keyPrefix : JsString) :
    (walk datastore keyPrefix decide).2.entries
      = datastore.entries.filter fun entry =>
          !(keyPrefix.isPrefixOf entry.1 && decide entry == .delete) := by
  rw [walk, foldl_visit, query, List.filter_filter]
  show ((datastore.entries.filter _).foldl _ datastore).entries = _
  rw [InsertionMap.entries_delete_where]
  exact List.filter_congr fun entry _ => by rw [Bool.and_comm]

theorem given_sum (listing : List (JsString × Bytes)) :
    given decide .delete listing + given decide .keep listing
      + given decide .undecodable listing = listing.length := by
  induction listing with
  | nil => rfl
  | cons entry rest ih =>
    simp only [given, List.countP_cons, List.length_cons] at ih ⊢
    cases decide entry <;> simp <;> omega

/-- The counts of a walk add up to what is under its prefix. -/
theorem walk_total (datastore : Datastore) (keyPrefix : JsString) :
    (walk datastore keyPrefix decide).1.swept + (walk datastore keyPrefix decide).1.kept
      + (walk datastore keyPrefix decide).1.undecodable
      = (query datastore keyPrefix).length := by
  rw [walk_counts]
  exact given_sum decide _

/-- Under its prefix a walk leaves what it did not decide to delete. -/
theorem query_walk (datastore : Datastore) (keyPrefix : JsString) :
    query (walk datastore keyPrefix decide).2 keyPrefix
      = (query datastore keyPrefix).filter fun entry => !(decide entry == .delete) := by
  rw [query, query, walk_entries, List.filter_filter, List.filter_filter]
  apply List.filter_congr
  intro entry _
  cases keyPrefix.isPrefixOf entry.1 <;> simp

/-- Under a prefix apart from its own a walk changes nothing. -/
theorem query_walk_apart (datastore : Datastore) {keyPrefix other : JsString}
    (hapart : ∀ key : JsString, other.isPrefixOf key = true → keyPrefix.isPrefixOf key = false) :
    query (walk datastore keyPrefix decide).2 other = query datastore other := by
  rw [query, query, walk_entries, List.filter_filter]
  apply List.filter_congr
  intro entry _
  cases hother : other.isPrefixOf entry.1 with
  | false => simp
  | true => simp [hapart _ hother]

/-- Where nothing under its prefix is to be deleted, a walk leaves the store as it is. -/
theorem walk_rests {datastore : Datastore} {keyPrefix : JsString}
    (h : ∀ entry ∈ query datastore keyPrefix, decide entry ≠ .delete) :
    (walk datastore keyPrefix decide).2 = datastore := by
  apply InsertionMap.ext
  rw [walk_entries, List.filter_eq_self]
  intro entry hentry
  rw [Bool.not_eq_true', Bool.and_eq_false_iff]
  cases hunder : keyPrefix.isPrefixOf entry.1 with
  | false => exact .inl rfl
  | true =>
    have hstays := h entry (List.mem_filter.mpr ⟨hentry, hunder⟩)
    exact .inr (beq_eq_false_iff_ne.mpr hstays)

/-- A walk again over what a walk left. -/
theorem given_left (verdict : Verdict) (listing : List (JsString × Bytes)) :
    given decide verdict (listing.filter fun entry => !(decide entry == .delete))
      = if verdict = .delete then 0 else given decide verdict listing := by
  induction listing with
  | nil => cases verdict <;> rfl
  | cons entry rest ih =>
    rw [List.filter_cons]
    cases hverdict : decide entry <;> cases verdict <;> simp_all [given]

end

/-! ## What has ended -/

section

variable (forms : StoredForms)

/-- A stored value record whose capabilities expire no later than the clock. -/
def ValueEnded (now : JsNumber) (value : Bytes) : Prop :=
  ∃ stored records, forms.deserialize value = some stored ∧
    decodeNodeRecords forms.codec stored = some records ∧
    ((JsNumber.finite records.capabilities.expiresAt).below now = true ∨
      JsNumber.finite records.capabilities.expiresAt = now)

/-- An entry about another provider that has outlived its validity at the clock. -/
def ProviderEnded (options : ProviderSweepOptions) (entry : JsString × Bytes) : Prop :=
  lastSegment entry.1 ≠ [] ∧ lastSegment entry.1 ≠ options.selfPeerId ∧
    ∃ created, forms.decodeVarint entry.2 = some created ∧
      (created.add options.validityMs).below options.now = true

/-- An entry of either family that has ended. -/
def Ended (options : ProviderSweepOptions) (entry : JsString × Bytes) : Prop :=
  (options.recordPrefix <+: entry.1 ∧ ValueEnded forms options.now entry.2) ∨
    (options.providerPrefix <+: entry.1 ∧ ProviderEnded forms options entry)

theorem valueVerdict_delete_iff (options : SweepOptions) (entry : JsString × Bytes) :
    valueVerdict forms options entry = .delete ↔ ValueEnded forms options.now entry.2 := by
  unfold valueVerdict storedExpiry ValueEnded
  cases hstored : forms.deserialize entry.2 with
  | none => simp
  | some stored =>
    cases hrecords : decodeNodeRecords forms.codec stored with
    | none => simp [hrecords]
    | some records => simp [hrecords, JsNumber.same, or_iff_not_imp_left]

theorem providerVerdict_delete_iff (options : ProviderSweepOptions) (entry : JsString × Bytes) :
    providerVerdict forms options entry = .delete ↔ ProviderEnded forms options entry := by
  simp only [providerVerdict, ProviderEnded]
  by_cases hempty : lastSegment entry.1 = []
  · simp [hempty]
  · by_cases hself : lastSegment entry.1 = options.selfPeerId
    · rw [if_neg hempty, if_pos hself]
      simp [hself]
    · rw [if_neg hempty, if_neg hself]
      cases hcreated : forms.decodeVarint entry.2 <;> simp [hempty, hself]

end

/-- No key is under both prefixes: they part at the letter after the slash. -/
theorem prefixes_apart (options : SweepOptions) (key : JsString)
    (h : options.providerPrefix.isPrefixOf key = true) :
    options.recordPrefix.isPrefixOf key = false := by
  rw [Bool.eq_false_iff]
  intro h'
  obtain ⟨rest, rfl⟩ := List.isPrefixOf_iff_prefix.mp h
  obtain ⟨rest', hrest⟩ := List.isPrefixOf_iff_prefix.mp h'
  rw [SweepOptions.providerPrefix, SweepOptions.recordPrefix, SweepOptions.familyPrefix,
    SweepOptions.familyPrefix, List.append_assoc, List.append_assoc] at hrest
  have hsecond := congrArg (fun text : JsString => text[1]?) (List.append_cancel_left hrest)
  have hrecord : js "/record" = 0x2F :: 0x72 :: js "ecord" := by decide
  have hprovider : js "/provider" = 0x2F :: 0x70 :: js "rovider" := by decide
  rw [hrecord, hprovider] at hsecond
  exact absurd hsecond (by simp)

/-! ## A pass, and a second one -/

section

variable (forms : StoredForms) (options : ProviderSweepOptions) (datastore : Datastore)

/-- What the first of the two sweeps leaves. -/
def afterValues : Datastore := (sweepValueRecords forms options.toSweepOptions datastore).2

theorem sweepDhtRecords_eq :
    sweepDhtRecords forms options datastore
      = (⟨(sweepValueRecords forms options.toSweepOptions datastore).1,
          (sweepProviderRecords forms options (afterValues forms options datastore)).1⟩,
        (sweepProviderRecords forms options (afterValues forms options datastore)).2) := rfl

theorem mem_sweepDhtRecords {entry : JsString × Bytes} :
    entry ∈ (sweepDhtRecords forms options datastore).2.entries ↔
      entry ∈ datastore.entries ∧ ¬ Ended forms options entry := by
  rw [sweepDhtRecords_eq]
  show entry ∈ (walk (walk datastore _ _).2 _ _).2.entries ↔ _
  rw [walk_entries, walk_entries, List.mem_filter, List.mem_filter, and_assoc]
  apply and_congr_right
  intro _
  rw [Bool.not_eq_true', Bool.not_eq_true', Bool.eq_false_iff, Bool.eq_false_iff, ← not_or]
  simp only [Bool.and_eq_true, beq_iff_eq, valueVerdict_delete_iff, providerVerdict_delete_iff,
    List.isPrefixOf_iff_prefix, Ended]

theorem query_records_left :
    query (sweepDhtRecords forms options datastore).2 options.recordPrefix
      = (query datastore options.recordPrefix).filter
          fun entry => !(valueVerdict forms options.toSweepOptions entry == .delete) := by
  rw [sweepDhtRecords_eq]
  show query (walk (walk datastore _ _).2 _ _).2 _ = _
  rw [query_walk_apart, query_walk]
  -- the same two prefixes, asked the other way
  intro key hrecord
  by_contra hprovider
  rw [prefixes_apart _ _ (Bool.not_eq_false _ ▸ hprovider)] at hrecord
  cases hrecord

theorem query_providers_left :
    query (sweepDhtRecords forms options datastore).2 options.providerPrefix
      = (query datastore options.providerPrefix).filter
          fun entry => !(providerVerdict forms options entry == .delete) := by
  rw [sweepDhtRecords_eq]
  show query (walk (walk datastore _ _).2 _ _).2 _ = _
  rw [query_walk, query_walk_apart _ _ (prefixes_apart _)]

/-- The counts of a pass, family by family. -/
theorem sweepDhtRecords_counts :
    (sweepDhtRecords forms options datastore).1
      = ⟨(walk datastore options.recordPrefix (valueVerdict forms options.toSweepOptions)).1,
          (walk datastore options.providerPrefix (providerVerdict forms options)).1⟩ := by
  rw [sweepDhtRecords_eq]
  show DhtSweepCounts.mk (walk datastore _ _).1 (walk (walk datastore _ _).2 _ _).1 = _
  rw [walk_counts, walk_counts, walk_counts, query_walk_apart _ _ (prefixes_apart _)]

end

/-- One pass deletes exactly what has ended at its clock, and a second one nothing. -/
theorem sweep_deletes_what_has_ended (forms : StoredForms) (options : ProviderSweepOptions)
    (datastore : Datastore) :
    let first := sweepDhtRecords forms options datastore
    let second := sweepDhtRecords forms options first.2
    (∀ entry, entry ∈ first.2.entries ↔
      entry ∈ datastore.entries ∧ ¬ Ended forms options entry) ∧
    first.1.values.swept + first.1.values.kept + first.1.values.undecodable
      = (query datastore options.recordPrefix).length ∧
    first.1.providers.swept + first.1.providers.kept + first.1.providers.undecodable
      = (query datastore options.providerPrefix).length ∧
    second.2 = first.2 ∧
    second.1 = ⟨⟨0, first.1.values.kept, first.1.values.undecodable⟩,
      ⟨0, first.1.providers.kept, first.1.providers.undecodable⟩⟩ := by
  intro first second
  refine ⟨fun _ => mem_sweepDhtRecords forms options datastore, ?_, ?_, ?_, ?_⟩
  · show (sweepDhtRecords forms options datastore).1.values.swept + _ + _ = _
    rw [sweepDhtRecords_counts]
    exact walk_total _ _ _
  · show (sweepDhtRecords forms options datastore).1.providers.swept + _ + _ = _
    rw [sweepDhtRecords_counts]
    exact walk_total _ _ _
  · -- what is left has not ended, so neither walk finds anything to delete
    have hvalues : afterValues forms options first.2 = first.2 := by
      apply walk_rests
      intro entry hentry
      rw [query_records_left, List.mem_filter, Bool.not_eq_true', beq_eq_false_iff_ne] at hentry
      exact hentry.2
    show (sweepDhtRecords forms options first.2).2 = first.2
    rw [sweepDhtRecords_eq, hvalues]
    apply walk_rests
    intro entry hentry
    rw [query_providers_left, List.mem_filter, Bool.not_eq_true', beq_eq_false_iff_ne] at hentry
    exact hentry.2
  · show (sweepDhtRecords forms options first.2).1 = _
    simp only [first, sweepDhtRecords_counts, walk_counts, query_records_left,
      query_providers_left, given_left]
    rfl

end O2Fabric.DhtSweep
