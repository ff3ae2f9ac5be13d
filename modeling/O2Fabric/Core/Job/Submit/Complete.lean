/-
  O2Fabric.Core.Job.Submit.Complete

  What a job's `complete` and its coverage say of its shards.

  Coverage counts, for each owner, the shards it is owed and those that landed;
  the two counts meet exactly where all of them did.  Completeness is about
  every answer: of a complete job no two answers to one shard differ, except for
  a copy whose race had lapsed before it answered.  Such an answer is not read
  at all, by design: a lapse abandons the dispatch.
-/

import O2Fabric.Core.Job.Submit.Heard
import Mathlib.Data.List.Induction

namespace O2Fabric.Submit

open Job Threads

/-! ## Counting for owners -/

theorem countByOwner_concat (owners : List JsString) (owner : JsString) :
    countByOwner (owners ++ [owner])
      = (countByOwner owners).set owner (((countByOwner owners).get? owner).getD 0 + 1) :=
  List.foldl_concat ..

/-- Each owner is counted as often as it is named. -/
theorem getD_countByOwner (owners : List JsString) (owner : JsString) :
    ((countByOwner owners).get? owner).getD 0 = owners.countP fun o => decide (o = owner) := by
  induction owners using List.reverseRecOn with
  | nil => rfl
  | append_singleton owners o ih =>
    rw [countByOwner_concat, InsertionMap.get?_set, List.countP_append, List.countP_singleton,
      ← ih]
    by_cases heq : owner = o
    · rw [if_pos heq, if_pos (decide_eq_true heq.symm), heq]
      rfl
    · rw [if_neg heq, if_neg (by simpa using Ne.symm heq)]
      rfl

variable {owner : JsString}

/-- The owners counted are the ones named. -/
theorem mem_keys_countByOwner {owners : List JsString} :
    owner ∈ (countByOwner owners).keys ↔ owner ∈ owners := by
  induction owners using List.reverseRecOn with
  | nil => exact Iff.rfl
  | append_singleton owners o ih =>
    rw [countByOwner_concat, InsertionMap.mem_keys_set, List.mem_append, List.mem_singleton, ih]

variable {α : Type}

theorem countP_filter_le (xs : List α) (f : α → Option JsString) (q : α → Bool) (owner : JsString) :
    ((xs.filter q).filterMap f).countP (fun o => decide (o = owner))
      ≤ (xs.filterMap f).countP fun o => decide (o = owner) :=
  List.Sublist.countP_le (List.filter_sublist.filterMap f)

/-- Filtering loses none of an owner's exactly where it keeps all of them. -/
theorem countP_le_filter_iff (xs : List α) (f : α → Option JsString) (q : α → Bool)
    (owner : JsString) :
    (xs.filterMap f).countP (fun o => decide (o = owner))
        ≤ ((xs.filter q).filterMap f).countP (fun o => decide (o = owner))
      ↔ ∀ x ∈ xs, f x = some owner → q x = true := by
  induction xs with
  | nil => exact ⟨fun _ _ hx => absurd hx List.not_mem_nil, fun _ => Nat.le_refl _⟩
  | cons x rest ih =>
    have hle := countP_filter_le rest f q owner
    rw [List.forall_mem_cons, ← ih]
    cases hf : f x with
    | none =>
      rw [List.filterMap_cons_none hf]
      cases hq : q x with
      | true =>
        rw [List.filter_cons_of_pos hq, List.filterMap_cons_none hf]
        exact ⟨fun h => ⟨fun heq => (Option.some_ne_none _ heq.symm).elim, h⟩, And.right⟩
      | false =>
        rw [List.filter_cons_of_neg (by rw [hq]; exact Bool.false_ne_true)]
        exact ⟨fun h => ⟨fun heq => (Option.some_ne_none _ heq.symm).elim, h⟩, And.right⟩
    | some o =>
      rw [List.filterMap_cons_some hf, List.countP_cons]
      cases hq : q x with
      | true =>
        rw [List.filter_cons_of_pos hq, List.filterMap_cons_some hf, List.countP_cons]
        constructor
        · exact fun h => ⟨fun _ => rfl, by omega⟩
        · exact fun h => Nat.add_le_add_right h.2 _
      | false =>
        rw [List.filter_cons_of_neg (by rw [hq]; exact Bool.false_ne_true)]
        by_cases ho : o = owner
        · -- One of the owner's is dropped, and the rest cannot make up for it.
          rw [if_pos (decide_eq_true ho)]
          constructor
          · intro h
            omega
          · intro h
            exact absurd (h.1 (by rw [ho])) Bool.false_ne_true
        · rw [if_neg (by simpa using ho)]
          exact ⟨fun h => ⟨fun heq => absurd (Option.some.inj heq) ho, h⟩, And.right⟩

/-! ## Coverage -/

/-- The owners a job's shards name, each once. -/
def ownersOf (specs : List ShardSpec) : List JsString :=
  (countByOwner (specs.filterMap ownerOf)).keys

theorem mem_ownersOf {specs : List ShardSpec} :
    owner ∈ ownersOf specs ↔ ∃ shard ∈ specs, shard.label = .sovereign owner := by
  rw [ownersOf, mem_keys_countByOwner, List.mem_filterMap]
  have hlabel : ∀ shard : ShardSpec, ownerOf shard = some owner ↔ shard.label = .sovereign owner := by
    intro shard
    rw [ownerOf]
    cases shard.label with
    | pub => exact ⟨fun h => (Option.some_ne_none _ h.symm).elim, fun h => nomatch h⟩
    | sovereign o =>
      rw [Option.some.injEq, ShardLabel.sovereign.injEq]
  constructor
  · rintro ⟨shard, hmem, howner⟩
    exact ⟨shard, hmem, (hlabel shard).mp howner⟩
  · rintro ⟨shard, hmem, howner⟩
    exact ⟨shard, hmem, (hlabel shard).mpr howner⟩

variable {expected contributed : List JsString}

theorem coverageOf_missing :
    owner ∈ (coverageOf expected contributed).missing
      ↔ owner ∈ expected ∧ owner ∉ contributed := by
  show owner ∈ List.insertionSort _ _ ↔ _
  rw [List.mem_insertionSort, List.mem_filter, mem_distinct, decide_eq_true_eq, mem_distinct]

theorem coverageOf_covered (expected contributed : List JsString) :
    (coverageOf expected contributed).covered
      = ((distinct expected).filter
          fun owner => decide (owner ∉ (coverageOf expected contributed).missing)).length := by
  show (List.filter _ _).length = _
  congr 1
  apply List.filter_congr
  intro owner hmem
  rw [decide_eq_decide, coverageOf_missing, mem_distinct, not_and_not_right]
  exact ⟨fun h _ => h, fun h => h (mem_distinct.mp hmem)⟩

theorem insertionSort_congr {l l' : List JsString} (hl : l.Nodup) (hl' : l'.Nodup)
    (h : ∀ x, x ∈ l ↔ x ∈ l') :
    l.insertionSort (· ≤ ·) = l'.insertionSort (· ≤ ·) := by
  have hsame : l.Perm l' := (List.perm_ext_iff_of_nodup hl hl').mpr h
  have hsorted := (List.perm_insertionSort (· ≤ ·) l).trans
    (hsame.trans (List.perm_insertionSort (· ≤ ·) l').symm)
  exact hsorted.eq_of_pairwise' (List.pairwise_insertionSort _ l) (List.pairwise_insertionSort _ l')

/-- A report depends only on which owners are expected and which contributed. -/
theorem coverageOf_congr {expected' contributed' : List JsString}
    (hexpected : ∀ owner, owner ∈ expected ↔ owner ∈ expected')
    (hcontributed : ∀ owner, owner ∈ contributed ↔ owner ∈ contributed') :
    coverageOf expected contributed = coverageOf expected' contributed' := by
  have hperm : (distinct expected).Perm (distinct expected') := by
    rw [List.perm_ext_iff_of_nodup (distinct_nodup _) (distinct_nodup _)]
    intro owner
    rw [mem_distinct, mem_distinct, hexpected]
  have hgot : ∀ owner, owner ∈ distinct contributed ↔ owner ∈ distinct contributed' := by
    intro owner
    rw [mem_distinct, mem_distinct, hcontributed]
  have hcovered : ((distinct expected).filter fun owner =>
        decide (owner ∈ distinct contributed)).length
      = ((distinct expected').filter fun owner =>
          decide (owner ∈ distinct contributed')).length := by
    simp only [hgot]
    exact (hperm.filter _).length_eq
  have hmissing : ((distinct expected).filter fun owner =>
        decide (owner ∉ distinct contributed)).insertionSort (· ≤ ·)
      = ((distinct expected').filter fun owner =>
          decide (owner ∉ distinct contributed')).insertionSort (· ≤ ·) := by
    apply insertionSort_congr ((distinct_nodup _).filter _) ((distinct_nodup _).filter _)
    intro owner
    simp only [List.mem_filter, hgot, hperm.mem_iff]
  have hunexpected : ((distinct contributed).filter fun owner =>
        decide (owner ∉ distinct expected)).insertionSort (· ≤ ·)
      = ((distinct contributed').filter fun owner =>
          decide (owner ∉ distinct expected')).insertionSort (· ≤ ·) := by
    apply insertionSort_congr ((distinct_nodup _).filter _) ((distinct_nodup _).filter _)
    intro owner
    simp only [List.mem_filter, hgot, hperm.mem_iff]
  unfold coverageOf
  dsimp only
  rw [hcovered, hmissing, hunexpected, hperm.length_eq]

/-- With nobody unexpected, complete is having somebody to cover and missing nobody. -/
theorem coverageOf_complete (hsub : ∀ owner ∈ contributed, owner ∈ expected) :
    (coverageOf expected contributed).complete = true
      ↔ expected ≠ [] ∧ ∀ owner ∈ expected, owner ∈ contributed := by
  have hunexpected : (coverageOf expected contributed).unexpected = [] := by
    rw [List.eq_nil_iff_forall_not_mem]
    intro owner hmem
    change owner ∈ List.insertionSort _ _ at hmem
    rw [List.mem_insertionSort, List.mem_filter, mem_distinct, decide_eq_true_eq,
      mem_distinct] at hmem
    exact hmem.2 (hsub owner hmem.1)
  have hmissing : (coverageOf expected contributed).missing = []
      ↔ ∀ owner ∈ expected, owner ∈ contributed := by
    rw [List.eq_nil_iff_forall_not_mem]
    constructor
    · intro hnone owner hmem
      by_contra hno
      exact hnone owner (coverageOf_missing.mpr ⟨hmem, hno⟩)
    · intro hall owner hmem
      obtain ⟨hin, hno⟩ := coverageOf_missing.mp hmem
      exact hno (hall owner hin)
  have hpos : 0 < (distinct expected).length ↔ expected ≠ [] := by
    rw [List.length_pos_iff_exists_mem]
    constructor
    · rintro ⟨owner, hmem⟩
      exact List.ne_nil_of_mem (mem_distinct.mp hmem)
    · intro hne
      obtain ⟨owner, hmem⟩ := List.exists_mem_of_ne_nil expected hne
      exact ⟨owner, mem_distinct.mpr hmem⟩
  show decide (0 < (distinct expected).length ∧ (coverageOf expected contributed).missing = [] ∧
    (coverageOf expected contributed).unexpected = []) = true ↔ _
  rw [decide_eq_true_eq, hpos, hmissing, hunexpected]
  exact and_congr_right fun _ => and_iff_left rfl

def AllLanded (specs : List ShardSpec) (shards : List ShardResult) (owner : JsString) : Prop :=
  ∀ (i : Nat) (spec : ShardSpec) (shard : ShardResult), specs[i]? = some spec →
    spec.label = .sovereign owner → shards[i]? = some shard → landedForItsOwner shard = true

section

variable {specs : List ShardSpec} {shards : List ShardResult}

structure Matching (specs : List ShardSpec) (shards : List ShardResult) : Prop where
  length : shards.length = specs.length
  index : ∀ (i : Nat) shard, shards[i]? = some shard → shard.partitionIndex = i

/-- An owner's count of landed shards reaches what it is owed exactly if all
    landed. -/
theorem owed_le_done_iff (h : Matching specs shards) (owner : JsString) :
    ((countByOwner (specs.filterMap ownerOf)).get? owner).getD 0
        ≤ ((countByOwner ((shards.filter landedForItsOwner).filterMap fun shard =>
            specs[shard.partitionIndex]?.bind ownerOf)).get? owner).getD 0
      ↔ AllLanded specs shards owner := by
  rw [getD_countByOwner, getD_countByOwner]
  -- Both lists are read off the shards paired with their results.
  have hspecs : specs.filterMap ownerOf
      = (specs.zip shards).filterMap fun pair => ownerOf pair.1 := by
    conv_lhs => rw [← List.map_fst_zip (show specs.length ≤ shards.length by rw [h.length])]
    rw [List.filterMap_map]
    rfl
  have hshards : (shards.filter landedForItsOwner).filterMap (fun shard =>
        specs[shard.partitionIndex]?.bind ownerOf)
      = ((specs.zip shards).filter fun pair => landedForItsOwner pair.2).filterMap
          fun pair => ownerOf pair.1 := by
    conv_lhs => rw [← List.map_snd_zip (show shards.length ≤ specs.length by rw [h.length])]
    rw [List.filter_map, List.filterMap_map]
    apply List.filterMap_congr
    intro pair hpair
    obtain ⟨i, hi⟩ := List.mem_iff_getElem?.mp (List.mem_of_mem_filter hpair)
    obtain ⟨hspec, hshard⟩ := List.getElem?_zip_eq_some.mp hi
    show (specs[pair.2.partitionIndex]?).bind ownerOf = _
    rw [h.index i _ hshard, hspec]
    rfl
  rw [hspecs, hshards, countP_le_filter_iff]
  constructor
  · intro hall i spec shard hspec hlabel hshard
    refine hall (spec, shard) (List.mem_of_getElem? (List.getElem?_zip_eq_some.mpr ⟨hspec, hshard⟩)) ?_
    show ownerOf spec = some owner
    rw [ownerOf, hlabel]
  · intro hall pair hpair howner
    obtain ⟨i, hi⟩ := List.mem_iff_getElem?.mp hpair
    obtain ⟨hspec, hshard⟩ := List.getElem?_zip_eq_some.mp hi
    refine hall i pair.1 pair.2 hspec ?_ hshard
    rw [ownerOf] at howner
    cases hlabel : pair.1.label with
    | pub => rw [hlabel] at howner; cases howner
    | sovereign o => rw [hlabel] at howner; cases howner; rfl

/-- Without an owner there is no coverage to report. -/
theorem jobCoverageOf_eq_none :
    jobCoverageOf specs shards = none ↔ ∀ shard ∈ specs, shard.label = .pub := by
  have hsize : (countByOwner (specs.filterMap ownerOf)).size = 0 ↔ ownersOf specs = [] := by
    rw [InsertionMap.size_eq_length_keys, List.length_eq_zero_iff, ownersOf]
  have hempty : ownersOf specs = [] ↔ ∀ shard ∈ specs, shard.label = .pub := by
    rw [List.eq_nil_iff_forall_not_mem]
    constructor
    · intro hnone shard hmem
      cases hlabel : shard.label with
      | pub => rfl
      | sovereign owner => exact absurd (mem_ownersOf.mpr ⟨shard, hmem, hlabel⟩) (hnone owner)
    · intro hall owner howner
      obtain ⟨shard, hmem, hlabel⟩ := mem_ownersOf.mp howner
      rw [hall shard hmem] at hlabel
      cases hlabel
  rw [← hempty, ← hsize, jobCoverageOf]
  split
  · next hzero => exact iff_of_true rfl hzero
  · next hsome => exact iff_of_false (Option.some_ne_none _) hsome

/-- A coverage report is over the job's owners, and those of them contributed all of
    whose shards landed. -/
theorem jobCoverageOf_got (h : Matching specs shards) {report : CoverageReport}
    (hreport : jobCoverageOf specs shards = some report) :
    ownersOf specs ≠ [] ∧ ∃ got, report = coverageOf (ownersOf specs) got ∧
      ∀ owner, owner ∈ got ↔ owner ∈ ownersOf specs ∧ AllLanded specs shards owner := by
  rw [jobCoverageOf] at hreport
  split at hreport
  · cases hreport
  · next hsome =>
    have hreport := (Option.some.inj hreport).symm
    subst hreport
    have hentry : ∀ entry ∈ (countByOwner (specs.filterMap ownerOf)).entries,
        ((countByOwner (specs.filterMap ownerOf)).get? entry.1).getD 0 = entry.2 := by
      intro entry hmem
      rw [InsertionMap.get?_eq_some.mpr hmem]
      rfl
    refine ⟨?_, _, rfl, ?_⟩
    · rwa [InsertionMap.size_eq_length_keys, List.length_eq_zero_iff] at hsome
    · -- Who contributed: the owners that got what they are owed.
      intro owner
      rw [List.mem_map, ← owed_le_done_iff h]
      constructor
      · rintro ⟨entry, hmem, rfl⟩
        obtain ⟨hin, hle⟩ := List.mem_filter.mp hmem
        refine ⟨List.mem_map_of_mem hin, ?_⟩
        rw [hentry entry hin]
        exact of_decide_eq_true hle
      · rintro ⟨howner, hle⟩
        obtain ⟨entry, hin, rfl⟩ := List.mem_map.mp howner
        refine ⟨entry, List.mem_filter.mpr ⟨hin, ?_⟩, rfl⟩
        rw [hentry entry hin] at hle
        exact decide_eq_true hle

/-- What a coverage report says: an owner is missing unless all of its shards
    landed, and the report is complete if nobody is. -/
theorem jobCoverageOf_eq_some (h : Matching specs shards) {report : CoverageReport}
    (hreport : jobCoverageOf specs shards = some report) :
    (∀ owner, owner ∈ report.missing ↔ owner ∈ ownersOf specs ∧ ¬ AllLanded specs shards owner) ∧
      report.covered
        = ((ownersOf specs).filter fun owner => decide (owner ∉ report.missing)).length ∧
      (report.complete = true ↔ ∀ owner ∈ ownersOf specs, AllLanded specs shards owner) := by
  obtain ⟨hne, got, rfl, hgot⟩ := jobCoverageOf_got h hreport
  refine ⟨fun owner => ?_, ?_, ?_⟩
  · rw [coverageOf_missing, hgot]
    exact and_congr_right fun howner => not_congr (and_iff_right howner)
  · have hnodup : (ownersOf specs).Nodup := InsertionMap.keys_nodup _
    rw [coverageOf_covered, distinct_of_nodup hnodup]
  · refine Iff.trans (coverageOf_complete fun owner hmem => ((hgot owner).mp hmem).1) ?_
    constructor
    · exact fun hall owner howner => ((hgot owner).mp (hall.2 owner howner)).2
    · exact fun hall => ⟨hne, fun owner howner => (hgot owner).mpr ⟨howner, hall owner howner⟩⟩

end

/-! ## A settled shard -/

variable {p : Platform} {job : PreparedJob} {plan : ShardPlan} {s s' : Shared}
  {st st' : ShardState}

structure Closed (plan : ShardPlan) (st : ShardState) (shard : SettledShard) : Prop where
  index : shard.result.partitionIndex = plan.partitionIndex
  copies : shard.result.copies = []
  disagreed : shard.result.disagreed = false
  winner : shard.winnerCid = shard.result.verification.agreedCid.map Cid.toText
  outstanding : shard.outstanding = st.outstanding
  heard : st.flights = [] ∨ shard.result.verification.cids = cidsOf st.verification

variable {event : ShardEvent} {shard : SettledShard}

/-- Once a shard has settled its copies still answer, and nothing else happens. -/
theorem shardStep_of_settled (hsettled : st.phase = .settled shard)
    (h : shardStep p job plan event s st = some (s', st')) :
    st'.outstanding = st.outstanding ∧ st'.verification = st.verification ∧
      st'.flights.length = st.flights.length := by
  cases event with
  | grant now startedAt at_ =>
    obtain ⟨_, hphase, -⟩ := grantStep_cases h
    rw [hsettled] at hphase
    cases hphase
  | answer k answer =>
    obtain ⟨_, _, _, -, -, -, -, rfl⟩ := answerStep_cases h
    exact ⟨rfl, rfl, List.length_set⟩
  | deliver key at_ =>
    obtain ⟨_, _, _, _, hphase, -⟩ := deliverStep_cases h
    rw [hsettled] at hphase
    cases hphase
  | tick woke at_ =>
    obtain ⟨_, hphase, -⟩ := tickStep_cases h
    rw [hsettled] at hphase
    cases hphase
  | probed working at_ =>
    obtain ⟨_, _, hphase, -⟩ := probedStep_cases h
    rw [hsettled] at hphase
    cases hphase
  | resume now at_ =>
    obtain ⟨_, hphase, -⟩ := resumeStep_cases h
    rw [hsettled] at hphase
    cases hphase
  | place ask =>
    obtain ⟨hphase, -⟩ := placeStep_cases h
    rw [hsettled] at hphase
    cases hphase
  | store =>
    obtain ⟨_, _, _, _, _, _, _, _, hphase, -⟩ := storeStep_cases h
    rw [hsettled] at hphase
    cases hphase
  | record =>
    obtain ⟨_, _, hphase, -⟩ := recordStep_cases h
    rw [hsettled] at hphase
    cases hphase
  | finish =>
    obtain ⟨-, _, ⟨hphase, -⟩ | ⟨_, hphase, -⟩, -⟩ := finishStep_cases h
    all_goals
      rw [hsettled] at hphase
      cases hphase

/-- What the loop came to has the addresses it took in. -/
theorem cids_settledOf (ending : ShardEnding) (st : ShardState) :
    (settledOf plan ending st).cids = cidsOf st.verification := by
  rw [settledOf]
  cases st.verification <;> rfl

theorem Closed.step (hst : ∀ shard, st.phase = .settled shard → Closed plan st shard)
    (h : shardStep p job plan event s st = some (s', st')) :
    ∀ shard, st'.phase = .settled shard → Closed plan st' shard := by
  intro shard hphase
  rcases shardStep_settled h hphase with ⟨hbefore, -⟩ | ⟨ending, attestation, rfl, rfl, -⟩
  · obtain ⟨hindex, hcopies, hdisagreed, hwinner, houtstanding, hheard⟩ := hst shard hbefore
    obtain ⟨hout, hver, hlen⟩ := shardStep_of_settled hbefore h
    refine ⟨hindex, hcopies, hdisagreed, hwinner, houtstanding.trans hout.symm, ?_⟩
    rw [hver]
    refine hheard.imp_left fun hnil => ?_
    rw [hnil] at hlen
    exact List.length_eq_zero_iff.mp hlen
  · exact ⟨rfl, rfl, rfl, rfl, rfl, Or.inr (cids_settledOf ending st)⟩

theorem closed_start (plan : ShardPlan) :
    ∀ shard, (startShard plan).phase = .settled shard → Closed plan (startShard plan) shard := by
  unfold startShard
  split
  · intro shard hphase
    cases hphase
    exact ⟨rfl, rfl, rfl, rfl, rfl, Or.inl rfl⟩
  · split
    · intro shard hphase
      cases hphase
      exact ⟨rfl, rfl, rfl, rfl, rfl, Or.inl rfl⟩
    · intro shard hphase
      cases hphase

/-- An answer once given stays. -/
theorem Effect.answered_kept (h : Effect p job plan event st st') {k : Nat} {flight : Flight}
    {v : Verification} (hflight : st.flights[k]? = some flight) (hanswer : flight.answer = some v) :
    st'.flights[k]? = some flight := by
  have hgrown : ∀ more, (st.flights ++ [more])[k]? = some flight := by
    intro more
    rw [List.getElem?_append_left (List.getElem?_eq_some_iff.mp hflight).1]
    exact hflight
  cases h with
  | idle hunmoved _ => rw [hunmoved.flights]; exact hflight
  | placed _ _ _ _ _ _ _ hunmoved _ => rw [hunmoved.flights]; exact hflight
  | granted _ _ _ _ _ hafter => subst hafter; exact hgrown _
  | copied _ _ _ _ _ _ _ hafter => subst hafter; exact hgrown _
  | answered j _ _ _ _ hsilent _ _ hafter =>
    subst hafter
    show (st.flights.set j _)[k]? = some flight
    rw [List.getElem?_set, if_neg]
    · exact hflight
    · rintro rfl
      rw [hsilent, Option.some.injEq] at hflight
      rw [← hflight] at hanswer
      cases hanswer
  | won _ _ _ _ _ _ _ _ _ _ hafter => subst hafter; exact hflight
  | waited _ _ _ _ _ _ _ _ _ _ hafter => subst hafter; exact hflight
  | lapsed _ _ _ _ hafter => subst hafter; exact hflight
  | reaped _ _ _ _ hafter => subst hafter; exact hflight
  | entered _ _ _ _ _ _ _ hafter => subst hafter; exact hflight

/-- What the comparison makes of a settled shard. -/
theorem compared_spec (p : Platform) (job : PreparedJob) (hshard : Closed plan st shard)
    (flights : List Flight) :
    (compared p job shard flights).verification = shard.result.verification ∧
      (compared p job shard flights).partitionIndex = plan.partitionIndex ∧
      (compared p job shard flights).copies
        = (shard.outstanding.filterMap (flights[·]?)).map (compareCopy p job shard.winnerCid) ∧
      (compared p job shard flights).disagreed
        = (compared p job shard flights).copies.any SpeculativeCopy.isDisagreed := by
  rw [compared]
  dsimp only
  split
  · next hnone =>
    refine ⟨rfl, hshard.index, hshard.copies.trans hnone.symm, ?_⟩
    rw [hshard.disagreed, hshard.copies]
    rfl
  · exact ⟨rfl, hshard.index, rfl, rfl⟩

variable {prepared : Prepared} {c : Config Nat Shared ShardState} {result : JobResult}

/-- Every shard of a conclusion is one that settled, compared. -/
theorem concluded (hreach : Reaches p prepared c)
    (hconclude : conclude p prepared.job c = some result) {i : Nat} {settled : ShardResult}
    (hsettled : result.shards[i]? = some settled) :
    ∃ plan shard, prepared.job.plans[i]? = some plan ∧ (c.locals i).phase = .settled shard ∧
      Closed plan (c.locals i) shard ∧
      settled = compared p prepared.job shard (c.locals i).flights := by
  obtain ⟨hi, hresult⟩ := conclude_getElem? hconclude hsettled
  obtain ⟨shard, hphase, heq⟩ := settledResult_eq_some.mp hresult
  have hplan : prepared.job.plans[i]? = some prepared.job.plans[i] := List.getElem?_eq_getElem hi
  refine ⟨_, shard, hplan, hphase, ?_, heq⟩
  refine eachShard hreach
    (I := fun _ plan st => ∀ shard, st.phase = .settled shard → Closed plan st shard) ?_ ?_ hplan
    shard hphase
  · exact fun _ plan _ => closed_start plan
  · exact fun c i plan event s l _ _ hI hstep => Closed.step hI hstep

theorem matching_conclude {spec : JobSpec} {options : SubmitOptions}
    {ask : Bool → Nat → Offer → Admission} (hprepared : PreparedFrom p spec options ask prepared)
    (hreach : Reaches p prepared c) (hconclude : conclude p prepared.job c = some result) :
    Matching spec.shards result.shards := by
  refine ⟨?_, ?_⟩
  · obtain ⟨shards, rfl, hall⟩ := conclude_shards hconclude
    have hlen := hall.length_eq
    rw [List.length_range, hprepared.planned] at hlen
    exact hlen.symm
  · intro i settled hsettled
    obtain ⟨plan, shard, hplan, -, hclosed, rfl⟩ := concluded hreach hconclude hsettled
    rw [(compared_spec p _ hclosed _).2.1]
    exact (hprepared.plan hplan).1

/-- A shard lands with an agreement that no copy contradicts. -/
theorem landedForItsOwner_iff {settled : ShardResult}
    (h : settled.disagreed = settled.copies.any SpeculativeCopy.isDisagreed) :
    landedForItsOwner settled = true ↔ settled.verification.isAgreed = true ∧
      ∀ copy ∈ settled.copies, copy.isDisagreed = false := by
  rw [landedForItsOwner, h, Bool.and_eq_true, Bool.not_eq_true', List.any_eq_false]
  exact and_congr_right fun _ => forall₂_congr fun _ _ => Bool.not_eq_true _ |>.to_iff

/-! ## What was answered -/

/-- An executor answered a value of this address: it ran, or it revealed what it
    had committed to. -/
def DispatchAnswer.Names (p : Platform) (task : Task) : DispatchAnswer → Cid → Prop
  | .verified outcomes, cid => ∃ output cost attestation,
      ExecutionOutcome.ok output cost attestation ∈ outcomes ∧ p.canonicalCid output = .ok cid
  | .ceremony outcomes, cid => ∃ digest handle nonce output cost attestation,
      (CommitOutcome.committed digest handle, RevealOutcome.revealed nonce output cost attestation)
        ∈ outcomes ∧ p.canonicalCid output = .ok cid ∧ commitmentDigest p nonce task cid = digest
  | .threw _, _ => False

theorem mem_zipWith_of_mem {β γ : Type} (f : α → β → γ) {xs : List α} {ys : List β}
    (hlen : ys.length = xs.length) {y : β} (hy : y ∈ ys) :
    ∃ x ∈ xs, f x y ∈ List.zipWith f xs ys := by
  obtain ⟨i, hi⟩ := List.mem_iff_getElem?.mp hy
  have hlt : i < xs.length := by
    have := (List.getElem?_eq_some_iff.mp hi).1
    omega
  refine ⟨xs[i], List.getElem_mem hlt, List.mem_iff_getElem?.mpr ⟨i, ?_⟩⟩
  rw [List.getElem?_zipWith, List.getElem?_eq_getElem hlt, hi]

/-- What an executor of the dispatch answered is in its verification. -/
theorem mem_cids_verificationOf {task : Task} {nodeIds : List JsString} {answer : DispatchAnswer}
    (hfits : answer.fits (runsCeremony job plan nodeIds) nodeIds = true) {cid : Cid}
    (h : answer.Names p task cid) : cid.toText ∈ (verificationOf p task nodeIds answer).cids := by
  cases answer with
  | verified outcomes =>
    obtain ⟨output, cost, attestation, hmem, hcid⟩ := h
    simp only [DispatchAnswer.fits, Bool.and_eq_true, decide_eq_true_eq] at hfits
    obtain ⟨nodeId, -, hin⟩ := mem_zipWith_of_mem
      (fun nodeId outcome => Executor.mk nodeId fun _ : Task => outcome) hfits.2 hmem
    refine (mem_cids_executeVerified task _).mpr ⟨_, hin,
      ⟨nodeId, cid, output, cost, attestation⟩, ?_, rfl⟩
    simp only [runOne, hcid]
  | ceremony outcomes =>
    obtain ⟨digest, handle, nonce, output, cost, attestation, hmem, hcid, hdigest⟩ := h
    simp only [DispatchAnswer.fits, runsCeremony, Bool.and_eq_true, decide_eq_true_eq] at hfits
    obtain ⟨⟨⟨-, henough⟩, -⟩, hlen⟩ := hfits
    obtain ⟨nodeId, -, hin⟩ := mem_zipWith_of_mem
      (fun nodeId (outcome : CommitOutcome × RevealOutcome) =>
        CommittingExecutor.mk nodeId (fun _ => outcome.1) fun _ => outcome.2) hlen hmem
    refine (mem_cids_executeCommitReveal ?_).mpr ⟨_, hin, ⟨_, digest, handle⟩, rfl,
      ⟨nodeId, cid, output, cost, attestation⟩, ?_, rfl⟩
    · rw [List.length_zipWith, hlen, Nat.min_self]
      exact henough
    · simp only [revealOne, hcid, hdigest, ne_eq, not_true_eq_false, if_false]
  | threw message => exact absurd h id

/-- An answer given in a run is at its copy's place in the end. -/
theorem answered_in_run {events : List (Event Nat ShardEvent ChainEvent)}
    {c₀ : Config Nat Shared ShardState} (hrun : (running p prepared.job).run c₀ events = some c)
    {i k : Nat} {answer : DispatchAnswer} (hevent : .own i (.answer k answer) ∈ events)
    (hplan : prepared.job.plans[i]? = some plan) :
    ∃ nodeIds speculative, (c.locals i).flights[k]?
        = some ⟨nodeIds, speculative,
            some (verificationOf p (taskOf prepared.job plan) nodeIds answer)⟩ ∧
      answer.fits (runsCeremony prepared.job plan nodeIds) nodeIds = true := by
  obtain ⟨c₁, c₂, hstep, hrest⟩ := System.run_of_mem hrun hevent
  obtain ⟨j, event, s, l, heq, hown, rfl⟩ | ⟨_, _, heq, -⟩ := System.step_cases hstep
  · cases heq
    simp only [running, hplan] at hown
    obtain ⟨nodeIds, speculative, v, hflight, hfits, rfl, -, rfl⟩ := answerStep_cases hown
    refine ⟨nodeIds, speculative, ?_, hfits⟩
    refine System.Reaches.eachLocal hrest
      (I := fun j st => j = i → st.flights[k]? = some ⟨nodeIds, speculative,
        some (verificationOf p (taskOf prepared.job plan) nodeIds answer)⟩) ?_ ?_ i rfl
    · rintro j rfl
      show (Function.update c₁.locals j _ j).flights[k]? = _
      rw [Function.update_self]
      exact List.getElem?_set_self (List.getElem?_eq_some_iff.mp hflight).1
    · rintro c j event s l - hI hnext rfl
      exact (shardStep_effects (shardStep_of_own hplan hnext)).invariant (hI rfl) fun _ _ hst heffect =>
        heffect.answered_kept hst rfl
  · cases heq

/-! ## The meaning of completeness -/

/-- An owner in the covered set: one of the job's, and not missing. -/
def Covers (spec : JobSpec) (result : JobResult) (owner : JsString) : Prop :=
  ∃ report, result.coverage = some report ∧ owner ∈ ownersOf spec.shards ∧
    owner ∉ report.missing

/-- Of a sound shard all answers that the job read are one address. -/
theorem answers_of_sound (hst : Tracked st) (hphase : st.phase = .settled shard)
    (hclosed : Closed plan st shard) (hsound : (compared p job shard st.flights).sound = true) :
    ∃ text, ∀ (k : Nat) flight v, st.flights[k]? = some flight → flight.answer = some v →
      k ∉ st.dropped → ∀ x ∈ v.cids, x = text := by
  obtain ⟨hverification, -, hcopies, hdisagreed⟩ := compared_spec p job hclosed st.flights
  rw [ShardResult.sound, hverification, hdisagreed, Bool.and_eq_true, Bool.and_eq_true,
    Bool.not_eq_true', Bool.not_eq_true', List.any_eq_false] at hsound
  obtain ⟨⟨hagreed, -⟩, hquiet⟩ := hsound
  cases hresult : shard.result.verification with
  | disagreed => rw [hresult] at hagreed; cases hagreed
  | insufficient => rw [hresult] at hagreed; cases hagreed
  | agreed resultCid output agreeing replicas failures gross useful =>
    have hwinner : shard.winnerCid = some resultCid.toText := by
      rw [hclosed.winner, hresult]
      rfl
    refine ⟨resultCid.toText, ?_⟩
    intro k flight v hflight hanswer hdropped x hx
    have haccounted := hst.accounted k flight hflight
    rw [hphase] at haccounted
    cases haccounted with
    | dropped hleft =>
      rw [show (Phase.settled shard).dropping = [] from rfl, List.append_nil] at hleft
      exact absurd hleft hdropped
    | outstanding hwaiting =>
      -- It lost its race and was compared with the winner.
      rw [show (Phase.settled shard).handed = [] from rfl, List.append_nil,
        ← hclosed.outstanding] at hwaiting
      have hcopy : compareCopy p job shard.winnerCid flight
          ∈ (compared p job shard st.flights).copies := by
        rw [hcopies]
        exact List.mem_map_of_mem (List.mem_filterMap.mpr ⟨k, hwaiting, hflight⟩)
      have hno := hquiet _ hcopy
      cases v with
      | agreed cid =>
        simp only [compareCopy, hwinner, hanswer] at hno
        split at hno
        · next hsame => exact (List.mem_singleton.mp hx).trans hsame
        · exact absurd rfl hno
      | disagreed =>
        simp only [compareCopy, hwinner, hanswer] at hno
        exact absurd rfl hno
      | insufficient => exact absurd hx List.not_mem_nil
    | racing key hcopy => exact get?_empty_ne hcopy
    | heard w hw htaken =>
      rw [hanswer, Option.some.injEq] at hw
      have hin := htaken x (hw ▸ hx)
      rw [mem_heard, hphase] at hin
      rcases hclosed.heard with hnil | hcids
      · rw [hnil] at hflight
        cases hflight
      · rw [hresult] at hcids
        have hin := hin.resolve_right List.not_mem_nil
        rw [← hcids] at hin
        exact List.mem_singleton.mp hin

/-- An owner's shards all landed: each agreed, and no copy of it disagrees. -/
theorem allLanded_conclude (hreach : Reaches p prepared c)
    (hconclude : conclude p prepared.job c = some result) {specs : List ShardSpec} :
    AllLanded specs result.shards owner ↔
      ∀ (i : Nat) shard settled, specs[i]? = some shard → shard.label = .sovereign owner →
        result.shards[i]? = some settled → settled.verification.isAgreed = true ∧
          ∀ copy ∈ settled.copies, copy.isDisagreed = false := by
  have hlanded : ∀ (i : Nat) (settled : ShardResult), result.shards[i]? = some settled →
      (landedForItsOwner settled = true ↔ settled.verification.isAgreed = true ∧
        ∀ copy ∈ settled.copies, copy.isDisagreed = false) := by
    intro i settled hsettled
    obtain ⟨_, _, -, -, hclosed, rfl⟩ := concluded hreach hconclude hsettled
    exact landedForItsOwner_iff (compared_spec p _ hclosed _).2.2.2
  constructor
  · intro hall i shard settled hshard hlabel hsettled
    exact (hlanded i settled hsettled).mp (hall i shard settled hshard hlabel hsettled)
  · intro hall i shard settled hshard hlabel hsettled
    exact (hlanded i settled hsettled).mpr (hall i shard settled hshard hlabel hsettled)

/-- The figures of a conclusion are read off its shards. -/
theorem conclude_figures (h : conclude p job c = some result) :
    result.coverage = jobCoverageOf job.spec.shards result.shards ∧
      (result.complete = true ↔ ∀ settled ∈ result.shards, settled.sound = true) := by
  obtain ⟨shards, rfl, -⟩ := conclude_shards h
  exact ⟨rfl, List.all_eq_true⟩

def secondCid : Cid := ⟨js "e", by decide, by decide⟩

/-- On this platform `null` has one address and everything else another. -/
def forked : Platform :=
  { plain with canonicalCid := fun
      | .null => .ok plainCid
      | _ => .ok secondCid }

/-- A run that answers something else than `answers`. -/
def differs : ExecutionOutcome CanonicalValue := .ok (.text []) 0 .signedByNobody

/-- One shard over two nodes. -/
def forkedSpec (label : ShardLabel) (redundancy : Nat) : JobSpec :=
  bareSpec [⟨.null, label⟩] [bareNode (js "k") (js "o"), bareNode (js "m") (js "o")] redundancy

/-- A submission of it played out on the forked platform. -/
def playForked (label : ShardLabel) (redundancy : Nat)
    (events : List (Event Nat ShardEvent ChainEvent)) :
    Option (Prepared × Config Nat Shared ShardState) :=
  playOut forked (forkedSpec label redundancy) bareOptions (fun _ => none)
    (fun _ _ _ => .accepted none) 0 events

/-- Both nodes answer one dispatch, and not the same. -/
def splitRun : List (Event Nat ShardEvent ChainEvent) :=
  [.own 0 (.grant 0 0 0), .own 0 (.answer 0 (.verified [answers, differs])),
    .own 0 (.deliver (js "k") 1), .own 0 (.resume 1 1), .own 0 .finish]

/-- The first node lets its lease lapse and answers after the second one, not the
    same. -/
def lateRun : List (Event Nat ShardEvent ChainEvent) :=
  [.own 0 (.grant 0 0 0), .own 0 (.tick 40000 40000), .own 0 (.resume 40000 40000),
    .own 0 (.place fun _ _ => .accepted none), .own 0 (.grant 40000 40000 40000),
    .own 0 (.answer 1 (.verified [answers])), .own 0 (.deliver (js "m") 40001),
    .own 0 (.resume 40001 40001), .own 0 .store, .own 0 .record, .own 0 .finish,
    .own 0 (.answer 0 (.verified [differs]))]

end O2Fabric.Submit
