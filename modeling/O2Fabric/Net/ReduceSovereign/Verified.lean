/-
  O2Fabric.Net.ReduceSovereign.Verified

  When an aggregate that is answered `ok` is a verified one.

  The arm's own gate on the reduction is `minReplicas`, and that figure is over
  the combines that came to something: one that every peer left unanswered is in
  `outcome.failed` and not in it, one whose replicas differ counts them all, and
  an executor listed twice counts twice.

    * `Aggregated` has everything that holds of every aggregate answered `ok`.
    * `answered_ok_is_verified_iff` adds what the peers have to do for the rest.
-/

import O2Fabric.Core.Job.Submit.Complete
import O2Fabric.Net.ReduceSovereign

namespace O2Fabric.Net

open Job Reduce Submit

/-! ## One combine -/

/-- The executors that returned `cid` for a combine. -/
def returners (result : CombineResult) (cid : JsString) : List JsString :=
  result.calls.filterMap fun call =>
    call.answer.bind fun product =>
      if product.cid.toText = cid then some call.executorId else none

/-- The result of a combine was returned by enough different executors. -/
def ReturnedRedundantly (result : CombineResult) : Prop :=
  ∃ accepted, result.accepted = some accepted ∧
    MIN_SOVEREIGN_COMBINE_REPLICAS ≤ (distinct (returners result accepted.cid)).length

/-- Two different executors answered, and no two answers differ. -/
structure Concurs (result : CombineResult) : Prop where
  two : ∃ a ∈ result.calls, ∃ b ∈ result.calls, a.answer ≠ none ∧ b.answer ≠ none ∧
    a.executorId ≠ b.executorId
  same : ∀ a ∈ result.calls, ∀ b ∈ result.calls, ∀ x y, a.answer = some x →
    b.answer = some y → x.cid = y.cid

theorem mem_returners {result : CombineResult} {cid executorId : JsString} :
    executorId ∈ returners result cid ↔
      ∃ call ∈ result.calls, ∃ product, call.answer = some product ∧
        product.cid.toText = cid ∧ call.executorId = executorId := by
  unfold returners
  rw [List.mem_filterMap]
  apply exists_congr
  intro call
  apply and_congr_right
  intro _
  rw [Option.bind_eq_some_iff]
  apply exists_congr
  intro product
  apply and_congr_right
  intro _
  rw [Option.ite_none_right_eq_some, Option.some.injEq]

theorem two_le_length_distinct {l : List JsString} :
    2 ≤ (distinct l).length ↔ ∃ a ∈ l, ∃ b ∈ l, a ≠ b := by
  constructor
  · intro h
    by_contra hnone
    have hone : (distinct l).length ≤ 1 := by
      apply length_distinct_le_one
      intro a ha b hb
      by_contra hne
      exact hnone ⟨a, ha, b, hb, hne⟩
    omega
  · rintro ⟨a, ha, b, hb, hne⟩
    have hsub : [a, b] ⊆ distinct l := by
      intro x hx
      rcases List.mem_cons.mp hx with rfl | hx
      · exact mem_distinct.mpr ha
      · rw [List.mem_singleton.mp hx]
        exact mem_distinct.mpr hb
    have hnodup : [a, b].Nodup := by
      rw [List.nodup_cons, List.mem_singleton]
      exact ⟨hne, List.nodup_singleton b⟩
    exact (List.subperm_of_subset hnodup hsub).length_le

section

variable {ranked : List JsString} {wanted : JsNumber} {resolved : InsertionMap JsString JsString}
  {result : CombineResult}

/-- An answer that was accepted is one of the answers. -/
theorem accepted_mem (h : CombineSpec ranked wanted resolved result) {accepted : Produced}
    (haccepted : result.accepted = some accepted) :
    ∃ call ∈ result.calls, ∃ product, call.answer = some product ∧
      product.cid.toText = accepted.cid := by
  rw [h.accepted_eq] at haccepted
  have hmem := List.mem_of_mem_head? haccepted
  obtain ⟨call, hcall, hproduced⟩ := List.mem_filterMap.mp hmem
  obtain ⟨product, hanswer, rfl⟩ := Option.map_eq_some_iff.mp hproduced
  exact ⟨call, hcall, product, hanswer, rfl⟩

/-- The addresses answered. -/
theorem mem_cids (h : CombineSpec ranked wanted resolved result) {cid : JsString} :
    cid ∈ result.cids ↔ ∃ call ∈ result.calls, ∃ product, call.answer = some product ∧
      product.cid.toText = cid := by
  rw [h.cids_eq, mem_distinct, List.mem_map]
  constructor
  · rintro ⟨produced, hproduced, rfl⟩
    obtain ⟨call, hcall, hsome⟩ := List.mem_filterMap.mp hproduced
    obtain ⟨product, hanswer, rfl⟩ := Option.map_eq_some_iff.mp hsome
    exact ⟨call, hcall, product, hanswer, rfl⟩
  · rintro ⟨call, hcall, product, hanswer, rfl⟩
    exact ⟨⟨product.cid.toText, call.executorId, product.attestation⟩,
      List.mem_filterMap.mpr ⟨call, hcall, by rw [CombineCall.produced?, hanswer]; rfl⟩, rfl⟩

/-- What a combine whose executors concur comes to. -/
theorem concurs_iff (h : CombineSpec ranked wanted resolved result) :
    Concurs result ↔
      result.accepted ≠ none ∧ ¬ 1 < result.cids.length ∧ ReturnedRedundantly result := by
  constructor
  · intro hconcurs
    obtain ⟨a, ha, b, hb, hanswered, hanswered', hne⟩ := hconcurs.two
    obtain ⟨x, hx⟩ := Option.ne_none_iff_exists'.mp hanswered
    obtain ⟨y, hy⟩ := Option.ne_none_iff_exists'.mp hanswered'
    have hsome : result.accepted ≠ none := by
      rw [h.accepted_eq]
      intro hnone
      have hnil := List.head?_eq_none_iff.mp hnone
      have hmem : _ ∈ result.calls.filterMap CombineCall.produced? :=
        List.mem_filterMap.mpr ⟨a, ha, by rw [CombineCall.produced?, hx]; rfl⟩
      rw [hnil] at hmem
      cases hmem
    have hone : ¬ 1 < result.cids.length := by
      rw [h.cids_eq, Nat.not_lt]
      apply length_distinct_le_one
      intro cid hcid cid' hcid'
      rw [← mem_distinct, ← h.cids_eq] at hcid hcid'
      obtain ⟨c, hc, v, hv, rfl⟩ := (mem_cids h).mp hcid
      obtain ⟨c', hc', v', hv', rfl⟩ := (mem_cids h).mp hcid'
      rw [hconcurs.same c hc c' hc' v v' hv hv']
    refine ⟨hsome, hone, ?_⟩
    obtain ⟨accepted, haccepted⟩ := Option.ne_none_iff_exists'.mp hsome
    obtain ⟨c, hc, v, hv, hcid⟩ := accepted_mem h haccepted
    refine ⟨accepted, haccepted, two_le_length_distinct.mpr
      ⟨a.executorId, ?_, b.executorId, ?_, hne⟩⟩
    · exact mem_returners.mpr ⟨a, ha, x, hx, by rw [hconcurs.same a ha c hc x v hx hv, hcid], rfl⟩
    · exact mem_returners.mpr ⟨b, hb, y, hy, by rw [hconcurs.same b hb c hc y v hy hv, hcid], rfl⟩
  · rintro ⟨-, hone, accepted, -, htwice⟩
    obtain ⟨a, ha, b, hb, hne⟩ := two_le_length_distinct.mp htwice
    obtain ⟨call, hcall, x, hx, -, rfl⟩ := mem_returners.mp ha
    obtain ⟨call', hcall', y, hy, -, rfl⟩ := mem_returners.mp hb
    refine ⟨⟨call, hcall, call', hcall', ?_, ?_, hne⟩, ?_⟩
    · rw [hx]
      exact Option.some_ne_none _
    · rw [hy]
      exact Option.some_ne_none _
    · intro c hc c' hc' v v' hv hv'
      apply Cid.toText_injective
      by_contra hdiffer
      -- two addresses among the answers are a disagreement
      apply hone
      have htwo : 2 ≤ (distinct result.cids).length := two_le_length_distinct.mpr
        ⟨_, (mem_cids h).mpr ⟨c, hc, v, hv, rfl⟩, _, (mem_cids h).mpr ⟨c', hc', v', hv', rfl⟩,
          hdiffer⟩
      have hnodup : result.cids.Nodup := by
        rw [h.cids_eq]
        exact distinct_nodup _
      rw [distinct_of_nodup hnodup] at htwo
      omega

end

/-! ## The aggregate -/

/-- The results of the combines of a sovereign reduction.  Whom the partials are
    attributed to has no say in them. -/
def SovereignReduceOptions.results {p : Platform} (codec : Codec p)
    (options : SovereignReduceOptions) (answers : Answers) (tree : ReduceTree) :
    List CombineResult :=
  (options.reduceOptions .empty).results p codec answers tree

/-- What an aggregate answered `ok` is taken to say. -/
structure Verified {p : Platform} (codec : Codec p) (job : JobResult) (spec : JobSpec)
    (options : SovereignReduceOptions) (answers : Answers) (aggregate : SovereignAggregate) :
    Prop where
  rooted : aggregate.outcome.rootCid ≠ none
  none_failed : aggregate.outcome.failed = []
  none_disagreed : aggregate.outcome.disagreements = []
  /-- Every combine has a result, and two different executors returned it. -/
  returned : ∀ node ∈ aggregate.tree.nodes,
    (∃ result ∈ options.results codec answers aggregate.tree, result.node = node) ∧
    ∀ result ∈ options.results codec answers aggregate.tree, result.node = node →
      ReturnedRedundantly result
  attested : ∀ contribution ∈ aggregate.contributions,
    pinnedTo spec contribution.partitionIndex = some contribution.ownerId ∧
      ∃ shard ∈ job.shards, shard.partitionIndex = contribution.partitionIndex ∧
        shard.verification.isAgreed = true ∧
        ∃ receipt, shard.attestation = .receipt receipt ∧
          receipt.userKeys = [contribution.ownerId]
  watched : ∃ manifests, options.egress = some manifests ∧ manifests ≠ [] ∧
    ∀ manifest ∈ manifests, manifest.violations = [] ∧
      (pinnedOwners spec).length ≤ manifest.registeredSovereign
  leaves : aggregate.tree.leaves.Perm
    (aggregate.contributions.map fun c => leafOf ⟨c.ownerId, c.partialCid⟩)

section

variable {p : Platform} {codec : Codec p} {sigs : Signatures} {job : JobResult} {spec : JobSpec}
  {options : SovereignReduceOptions} {answers : Answers}
  {aggregate : CoveredAggregate SovereignAggregate} {admitted : Admitted} {reduced : Reduction}

/-- What a result of a sovereign reduction keeps to. -/
theorem result_spec {tree : ReduceTree} {result : CombineResult}
    (hresult : result ∈ options.results codec answers tree) :
    ∃ ranked wanted resolved, CombineSpec ranked wanted resolved result := by
  obtain ⟨resolved, heq⟩ := mem_resultsFrom p.hashText p.localeCompare hresult
  have hspec := combine_spec p.hashText p.localeCompare
    ((options.reduceOptions .empty).reduceRun p codec answers tree) resolved result.node
  rw [← heq] at hspec
  exact ⟨_, _, _, hspec⟩

/-- What the reduction's report owes to its results. -/
theorem Aggregated.tallies
    (h : Aggregated p codec sigs job spec options answers aggregate admitted reduced) :
    ∃ R : Report, R.Tallies reduced.tree (options.results codec answers reduced.tree) ∧
      aggregate.value.outcome = R.outcome reduced.tree := by
  refine ⟨_, executeLevels_tallies p.hashText p.localeCompare
    ((options.reduceOptions .empty).reduceRun p codec answers reduced.tree), ?_⟩
  rw [h.outcome, h.reduces.outcome]
  rfl

end

/-- An aggregate answered `ok` is verified if and only if its combines concur. -/
theorem answered_ok_is_verified_iff {p : Platform} {codec : Codec p} {sigs : Signatures}
    {job : JobResult} {spec : JobSpec} {options : SovereignReduceOptions} {answers : Answers}
    {aggregate : CoveredAggregate SovereignAggregate}
    (h : reduceSovereignJob p codec sigs job spec options answers = .ok aggregate) :
    Verified codec job spec options answers aggregate.value ↔
      ∀ result ∈ options.results codec answers aggregate.value.tree, Concurs result := by
  obtain ⟨admitted, reduced, hmade⟩ := reduceSovereignJob_ok h
  obtain ⟨R, htallies, houtcome⟩ := hmade.tallies
  have htree := hmade.tree
  have hnodes : ∀ node, (∃ result ∈ options.results codec answers reduced.tree,
      result.node = node) ↔ node ∈ reduced.tree.nodes := fun node => hmade.reduces.exists_result
  constructor
  · intro hverified result hresult
    rw [htree] at hresult
    obtain ⟨ranked, wanted, resolved, hspec⟩ := result_spec hresult
    apply (concurs_iff hspec).mpr
    have hreturned := (hverified.returned result.node (by
      rw [htree]
      exact (hnodes _).mp ⟨result, hresult, rfl⟩)).2 result (by rwa [htree]) rfl
    refine ⟨?_, ?_, hreturned⟩
    · obtain ⟨accepted, haccepted, -⟩ := hreturned
      rw [haccepted]
      exact Option.some_ne_none _
    · intro hmany
      obtain ⟨accepted, haccepted, -⟩ := hreturned
      have hnone : R.disagreements = [] := by
        have := hverified.none_disagreed
        rwa [houtcome] at this
      have hmem : (result.node.id, result.cids) ∈ R.disagreements := by
        rw [htallies.disagreements, List.mem_filterMap]
        refine ⟨result, hresult, ?_⟩
        rw [CombineResult.disagreement?, if_pos hmany, haccepted]
        rfl
      rw [hnone] at hmem
      cases hmem
  · intro hconcurs
    rw [htree] at hconcurs
    have hresult : ∀ result ∈ options.results codec answers reduced.tree,
        result.accepted ≠ none ∧ ¬ 1 < result.cids.length ∧ ReturnedRedundantly result := by
      intro result hmem
      obtain ⟨ranked, wanted, resolved, hspec⟩ := result_spec hmem
      exact (concurs_iff hspec).mp (hconcurs result hmem)
    refine ⟨?_, ?_, ?_, ?_, fun c hc => hmade.attested hc, hmade.watched, ?_⟩
    · rw [houtcome]
      apply Option.isSome_iff_ne_none.mp
      show (R.resolved.get? reduced.tree.rootId).isSome = true
      rw [htallies.resolves]
      apply hmade.reduces.root_mem.imp_right
      rintro ⟨node, hnode, hid⟩
      obtain ⟨result, hmem, rfl⟩ := (hnodes node).mpr hnode
      exact ⟨result, hmem, hid, (hresult result hmem).1⟩
    · rw [houtcome]
      show R.failed = []
      rw [htallies.failed, List.filterMap_eq_nil_iff]
      intro result hmem
      rw [CombineResult.failure?, if_neg (hresult result hmem).1]
    · rw [houtcome]
      show R.disagreements = []
      rw [htallies.disagreements, List.filterMap_eq_nil_iff]
      intro result hmem
      rw [CombineResult.disagreement?, if_neg (hresult result hmem).2.1]
    · intro node hnode
      rw [htree] at hnode ⊢
      refine ⟨(hnodes node).mpr hnode, ?_⟩
      intro result hmem _
      exact (hresult result hmem).2.2
    · rw [htree]
      exact hmade.leaves_perm

/-! ## An aggregate over three owners -/

/-- Nothing verifies. -/
def noSignatures : Signatures := ⟨fun _ => some [], fun _ => false, fun _ _ _ _ => false⟩

def ownersSpec : JobSpec :=
  bareSpec [⟨.null, .sovereign (js "a")⟩, ⟨.null, .sovereign (js "b")⟩,
    ⟨.null, .sovereign (js "c")⟩] [] 2

def ownersJob : JobResult :=
  jobOf [ownedShard 0 (js "a"), ownedShard 1 (js "b"), ownedShard 2 (js "c")]

/-- Two executors, groups of two, and a guard that watched all three shards. -/
def ownersOptions : SovereignReduceOptions where
  localId := js "r"
  executors := [js "m", js "n"]
  project _ partitionIndex := .ok (rowsPartial (partitionIndex + 1))
  fanout := some 2
  redundancy := none
  trustedIssuers := .checksNoCombineSignatures
  egress := some [⟨js "k", js "a", [], 0, [], 3⟩]

/-- Peers that return a block of seven bytes for the tasks they answer. -/
def sevenFor (answersTask : CombineTask → Bool) : Answers where
  exchange task _ _ :=
    if answersTask task then
      ⟨some (.combine (some (unaryCid 7)) [] .signedByNobody),
        some (.block (some (List.replicate 7 0)))⟩
    else ⟨none, none⟩
  held _ _ := none
  combiner _ := .null
  now := 0

def SovereignReduceResult.aggregate? :
    SovereignReduceResult → Option (CoveredAggregate SovereignAggregate)
  | .ok aggregate => some aggregate
  | _ => none

theorem exists_aggregate {result : SovereignReduceResult} {α : Type}
    {f : CoveredAggregate SovereignAggregate → α} {a : α}
    (h : result.aggregate?.map f = some a) : ∃ aggregate, result = .ok aggregate ∧ f aggregate = a := by
  obtain ⟨aggregate, haggregate, hf⟩ := Option.map_eq_some_iff.mp h
  refine ⟨aggregate, ?_, hf⟩
  cases result with
  | threw => cases haggregate
  | refused reason => cases haggregate
  | ok found =>
    obtain rfl := Option.some.inj haggregate
    rfl

/-- What the owners' job is reduced to by such peers. -/
def ownersReduced (answersTask : CombineTask → Bool) : SovereignReduceResult :=
  reduceSovereignJob countingPlatform countingCodec noSignatures ownersJob ownersSpec
    ownersOptions (sevenFor answersTask)

/-- Every peer answers every combine. -/
theorem answered_ok_is_verified_iff_answered :
    ∃ aggregate, ownersReduced (fun _ => true) = .ok aggregate ∧
      (Verified countingCodec ownersJob ownersSpec ownersOptions (sevenFor fun _ => true)
          aggregate.value ↔
        ∀ result ∈ ownersOptions.results countingCodec (sevenFor fun _ => true)
          aggregate.value.tree, Concurs result) := by
  have hcount : (ownersReduced fun _ => true).aggregate?.map
      (fun aggregate => aggregate.value.contributions.length) = some 3 := by decide +kernel
  obtain ⟨aggregate, hok, -⟩ := exists_aggregate hcount
  exact ⟨aggregate, hok, answered_ok_is_verified_iff hok⟩

/-- No peer answers the second of the two combines, and the aggregate without a root
    is answered `ok`. -/
theorem answered_ok_without_root :
    ∃ aggregate, ownersReduced (fun task => decide (task.level = 1)) = .ok aggregate ∧
      ¬ Verified countingCodec ownersJob ownersSpec ownersOptions
        (sevenFor fun task => decide (task.level = 1)) aggregate.value := by
  have hroot : (ownersReduced fun task => decide (task.level = 1)).aggregate?.map
      (fun aggregate => aggregate.value.outcome.rootCid) = some none := by decide +kernel
  obtain ⟨aggregate, hok, hnone⟩ := exists_aggregate hroot
  refine ⟨aggregate, hok, ?_⟩
  intro hverified
  exact hverified.rooted hnone

end O2Fabric.Net

/-! # Owners

The two coverage reports of one job.  The job's own counts an owner once all of
its shards have landed; the aggregate's counts it once one of them was
admitted, and every shard that agreed is.

  * `contributes_iff` is who contributed to an aggregate.
  * `coverage_reports_agree_iff` is when the two reports are the same.
-/

namespace O2Fabric.Net

open Job Reduce Submit Threads

def SomeAgreed (specs : List ShardSpec) (shards : List ShardResult) (owner : JsString) : Prop :=
  ∃ (i : Nat) (spec : ShardSpec) (shard : ShardResult), specs[i]? = some spec ∧
    spec.label = .sovereign owner ∧ shards[i]? = some shard ∧
    shard.verification.isAgreed = true

variable {owner : JsString}

theorem SomeAgreed.mem_ownersOf {specs : List ShardSpec} {shards : List ShardResult}
    (h : SomeAgreed specs shards owner) :
    owner ∈ ownersOf specs := by
  obtain ⟨i, specShard, shard, hspec, hlabel, -⟩ := h
  exact Submit.mem_ownersOf.mpr ⟨specShard, List.mem_of_getElem? hspec, hlabel⟩

theorem pinnedTo_eq_some {spec : JobSpec} {index : Nat} :
    pinnedTo spec index = some owner ↔
      ∃ shard, spec.shards[index]? = some shard ∧ shard.label = .sovereign owner := by
  unfold pinnedTo
  rw [Option.bind_eq_some_iff]
  apply exists_congr
  intro shard
  apply and_congr_right
  intro _
  unfold ownerOf
  cases shard.label with
  | pub =>
    constructor
    · intro h
      cases h
    · intro h
      cases h
  | sovereign ownerId => rw [Option.some.injEq, ShardLabel.sovereign.injEq]

theorem mem_pinnedOwners {spec : JobSpec} :
    owner ∈ pinnedOwners spec ↔ owner ∈ ownersOf spec.shards :=
  mem_keys_countByOwner.symm

theorem map_ownerId_addressed {admitted : List AdmittedShard} {leaves : List Cid}
    (h : admitted.length ≤ leaves.length) :
    (addressed admitted leaves).map SovereignContribution.ownerId
      = admitted.map AdmittedShard.ownerId := by
  induction admitted generalizing leaves with
  | nil => rfl
  | cons a rest ih =>
    cases leaves with
    | nil =>
      rw [List.length_cons, List.length_nil] at h
      omega
    | cons cid leaves => exact congrArg (a.ownerId :: ·) (ih (Nat.le_of_succ_le_succ h))

section

variable {p : Platform} {codec : Codec p} {sigs : Signatures} {job : JobResult} {spec : JobSpec}
  {options : SovereignReduceOptions} {answers : Answers}
  {aggregate : CoveredAggregate SovereignAggregate} {admitted : Admitted} {reduced : Reduction}

/-- The owners that contributed are those with an agreed shard. -/
theorem Aggregated.contributes_iff
    (h : Aggregated p codec sigs job spec options answers aggregate admitted reduced)
    (hmatching : Matching spec.shards job.shards) (owner : JsString) :
    owner ∈ aggregate.value.contributions.map SovereignContribution.ownerId ↔
      SomeAgreed spec.shards job.shards owner := by
  constructor
  · intro hmem
    obtain ⟨contribution, hcontribution, rfl⟩ := List.mem_map.mp hmem
    obtain ⟨hpinned, shard, hshard, hindex, hagreed, -⟩ := h.attested hcontribution
    obtain ⟨specShard, hspec, hlabel⟩ := pinnedTo_eq_some.mp hpinned
    obtain ⟨i, hi⟩ := List.mem_iff_getElem?.mp hshard
    have hsame : contribution.partitionIndex = i := by
      rw [← hindex]
      exact hmatching.index i shard hi
    rw [hsame] at hspec
    exact ⟨i, specShard, shard, hspec, hlabel, hi, hagreed⟩
  · rintro ⟨i, specShard, shard, hspec, hlabel, hshard, hagreed⟩
    have hmem : shard ∈ agreedShards job.shards :=
      List.mem_filter.mpr ⟨List.mem_of_getElem? hshard, hagreed⟩
    obtain ⟨a, ha, hadmits⟩ := exists_of_mem_of_forall₂ h.admits.contributions hmem
    have howner : a.ownerId = owner := by
      have hpinned := hadmits.pinned
      rw [hmatching.index i shard hshard,
        pinnedTo_eq_some.mpr ⟨specShard, hspec, hlabel⟩] at hpinned
      exact (Option.some.inj hpinned).symm
    -- Every admitted shard got an address.
    obtain ⟨gathered, hgathered, hleaves, -, -⟩ := h.reduces.gathered
    have hlength : admitted.contributions.length ≤ reduced.leaves.length := by
      rw [hleaves, hgathered.leaves, List.length_map, ← hgathered.contributions.length_eq,
        h.admits.contributions.length_eq]
    rw [h.contributions, map_ownerId_addressed hlength, ← howner]
    exact List.mem_map_of_mem ha

end

/-- The same owners are covered, and the figures of the reports are the same. -/
def ReportsAgree (spec : JobSpec) (job : JobResult)
    (aggregate : CoveredAggregate SovereignAggregate) : Prop :=
  ∃ report, job.coverage = some report ∧
    (∀ owner ∈ ownersOf spec.shards,
      owner ∉ aggregate.coverage.missing ↔ owner ∉ report.missing) ∧
    aggregate.coverage.covered = report.covered ∧
    aggregate.coverage.missing = report.missing ∧
    aggregate.coverage.complete = report.complete

/-- The two reports agree if and only if no owner has a shard that agreed beside one
    that did not land. -/
theorem coverage_reports_agree_iff {p : Platform} {codec : Codec p} {sigs : Signatures}
    {spec : JobSpec} {submitted : SubmitOptions} {blocks : Blocks}
    {ask : Bool → Nat → Offer → Admission} {now : ℚ} {prepared : Prepared}
    (hprepare : prepare p spec submitted blocks ask now = .ok prepared)
    {events : List (Event Nat ShardEvent ChainEvent)} {c : Config Nat Shared ShardState}
    (hrun : (running p prepared.job).run prepared.start events = some c) {job : JobResult}
    (hconclude : conclude p prepared.job c = some job) {options : SovereignReduceOptions}
    {answers : Answers} {aggregate : CoveredAggregate SovereignAggregate}
    (hok : reduceSovereignJob p codec sigs job spec options answers = .ok aggregate) :
    ReportsAgree spec job aggregate ↔
      ∀ owner, SomeAgreed spec.shards job.shards owner →
        AllLanded spec.shards job.shards owner := by
  have hprepared := prepare_ok hprepare
  have hreach : Reaches p prepared c := System.Reaches.of_run (fun _ _ _ => trivial) hrun
  have hmatching := matching_conclude hprepared hreach hconclude
  obtain ⟨hcoverage, -⟩ := conclude_figures hconclude
  rw [hprepared.fromSpec] at hcoverage
  obtain ⟨admitted, reduced, hmade⟩ := reduceSovereignJob_ok hok
  have hcontributes := hmade.contributes_iff hmatching
  -- An admitted contribution has an owner, so the job has a report.
  obtain ⟨report, hreport⟩ : ∃ report, jobCoverageOf spec.shards job.shards = some report := by
    apply Option.ne_none_iff_exists'.mp
    intro hnone
    obtain ⟨gathered, hgathered, -, -, htree⟩ := hmade.reduces.gathered
    have hne := (deriveReduceTree_rounds htree).2.1
    cases hagreed : agreedShards job.shards with
    | nil =>
      have hcontributions := hgathered.contributions
      rw [hagreed] at hcontributions
      exact hne (List.forall₂_nil_left_iff.mp hcontributions)
    | cons shard rest =>
      have hmem : shard ∈ agreedShards job.shards := by
        rw [hagreed]
        exact List.mem_cons_self
      obtain ⟨a, -, hadmits⟩ := exists_of_mem_of_forall₂ hmade.admits.contributions hmem
      obtain ⟨specShard, hspec, hlabel⟩ := pinnedTo_eq_some.mp hadmits.pinned
      rw [jobCoverageOf_eq_none.mp hnone specShard (List.mem_of_getElem? hspec)] at hlabel
      cases hlabel
  obtain ⟨-, got, rfl, hgot⟩ := jobCoverageOf_got hmatching hreport
  have hexpected : ∀ owner, owner ∈ distinct (pinnedOwners spec) ↔ owner ∈ ownersOf spec.shards := by
    intro owner
    rw [mem_distinct, mem_pinnedOwners]
  have hlanded : ∀ owner, owner ∈ got → SomeAgreed spec.shards job.shards owner := by
    intro owner howner
    obtain ⟨hmem, hall⟩ := (hgot owner).mp howner
    obtain ⟨specShard, hspec, hlabel⟩ := mem_ownersOf.mp hmem
    obtain ⟨i, hi⟩ := List.mem_iff_getElem?.mp hspec
    have hlt : i < job.shards.length := by
      rw [hmatching.length]
      exact (List.getElem?_eq_some_iff.mp hi).1
    have hshard : job.shards[i]? = some job.shards[i] := List.getElem?_eq_getElem hlt
    have hland := hall i specShard _ hi hlabel hshard
    rw [landedForItsOwner, Bool.and_eq_true] at hland
    exact ⟨i, specShard, _, hi, hlabel, hshard, hland.1⟩
  constructor
  · rintro ⟨found, hfound, hcovers, -⟩ owner hsome
    rw [hcoverage, hreport, Option.some.injEq] at hfound
    subst hfound
    have howner := hsome.mem_ownersOf
    have hcovered : owner ∉ aggregate.coverage.missing := by
      rw [hmade.coverage, coverageOf_missing, hcontributes]
      exact fun h => h.2 hsome
    have hin := (hcovers owner howner).mp hcovered
    rw [coverageOf_missing, not_and_not_right] at hin
    exact ((hgot owner).mp (hin howner)).2
  · intro hwhole
    have hsame : aggregate.coverage = coverageOf (ownersOf spec.shards) got := by
      rw [hmade.coverage]
      apply coverageOf_congr hexpected
      intro owner
      rw [hcontributes]
      constructor
      · intro hsome
        exact (hgot owner).mpr ⟨hsome.mem_ownersOf, hwhole owner hsome⟩
      · exact hlanded owner
    refine ⟨_, by rw [hcoverage, hreport], ?_, ?_, ?_, ?_⟩
    · intro owner _
      rw [hsame]
    · rw [hsame]
    · rw [hsame]
    · rw [hsame]

/-! ## An owner with two shards -/

def ownersCertificate (nodeId owner : JsString) : NodeCertificate where
  nodeKey := nodeId
  userKey := owner
  operatorId := owner
  discoverability := .seed
  relayIds := []
  issuedAt := 0
  expiresAt := 1
  issuer := js "i"
  signature := []

def ownersNode (nodeId owner : JsString) : NodeDescriptor :=
  ⟨nodeId, owner, true, 0, some (ownersCertificate nodeId owner)⟩

/-- Two shards of one owner and one of another, each owner with a node of its own. -/
def twoOwnersSpec : JobSpec :=
  bareSpec [⟨rowsPartial 1, .sovereign (js "a")⟩, ⟨rowsPartial 2, .sovereign (js "a")⟩,
    ⟨rowsPartial 3, .sovereign (js "b")⟩]
    [ownersNode (js "k") (js "a"), ownersNode (js "m") (js "b")] 1

/-- A signed answer of so many rows. -/
def signedRows (nodeId owner : JsString) (rows : Nat) : ExecutionOutcome CanonicalValue :=
  .ok (rowsPartial rows) 0 (.signed ⟨ownersCertificate nodeId owner, []⟩)

/-- A shard that its node answers at once. -/
def landingShard (i : Nat) (nodeId owner : JsString) : List (Event Nat ShardEvent ChainEvent) :=
  [.own i (.grant 0 0 0), .own i (.answer 0 (.verified [signedRows nodeId owner (i + 1)])),
    .own i (.deliver nodeId 1), .own i (.resume 1 1), .own i .store, .own i .record,
    .own i .finish]

def refusedShard (i : Nat) (nodeId : JsString) : List (Event Nat ShardEvent ChainEvent) :=
  [.own i (.grant 0 0 0), .own i (.answer 0 (.verified [refuses])),
    .own i (.deliver nodeId 1), .own i (.resume 1 1), .own i (.place fun _ _ => .accepted none),
    .own i .finish]

/-- The first and the last shard land, and the second does what it is told. -/
def twoOwnersRun (second : List (Event Nat ShardEvent ChainEvent)) :
    List (Event Nat ShardEvent ChainEvent) :=
  landingShard 0 (js "k") (js "a") ++ second ++ landingShard 2 (js "m") (js "b")

/-- The outputs are the partials. -/
def twoOwnersOptions : SovereignReduceOptions :=
  { ownersOptions with project := fun output _ => .ok output }

/-- The job so submitted, and what it is reduced to. -/
def playTwoOwners (second : List (Event Nat ShardEvent ChainEvent)) :
    Option (Prepared × Config Nat Shared ShardState) :=
  playOut countingPlatform twoOwnersSpec bareOptions (fun _ => none) (fun _ _ _ => .accepted none)
    0 (twoOwnersRun second)

def reduceTwoOwners (job : JobResult) : SovereignReduceResult :=
  reduceSovereignJob countingPlatform countingCodec noSignatures job twoOwnersSpec
    twoOwnersOptions (sevenFor fun _ => true)

/-- What the two reports count as covered. -/
def coveredByBoth (second : List (Event Nat ShardEvent ChainEvent)) : Option (Nat × Option Nat) :=
  (playTwoOwners second).bind fun run =>
    (conclude countingPlatform run.1.job run.2).bind fun job =>
      (reduceTwoOwners job).aggregate?.map fun aggregate =>
        (aggregate.coverage.covered, job.coverage.map CoverageReport.covered)

theorem coveredByBoth_spec {second : List (Event Nat ShardEvent ChainEvent)}
    {counts : Nat × Option Nat} (h : coveredByBoth second = some counts) :
    ∃ prepared c job aggregate, playTwoOwners second = some (prepared, c) ∧
      conclude countingPlatform prepared.job c = some job ∧
      reduceTwoOwners job = .ok aggregate ∧
      (aggregate.coverage.covered, job.coverage.map CoverageReport.covered) = counts := by
  obtain ⟨⟨prepared, c⟩, hplay, hrun⟩ := Option.bind_eq_some_iff.mp h
  obtain ⟨job, hconclude, hreduce⟩ := Option.bind_eq_some_iff.mp hrun
  obtain ⟨aggregate, hok, hcounts⟩ := exists_aggregate hreduce
  exact ⟨prepared, c, job, aggregate, hplay, hconclude, hok, hcounts⟩

/-- All three shards land. -/
theorem coverage_reports_agree_iff_landed :
    ∃ job aggregate, reduceTwoOwners job = .ok aggregate ∧
      (ReportsAgree twoOwnersSpec job aggregate ↔
        ∀ owner, SomeAgreed twoOwnersSpec.shards job.shards owner →
          AllLanded twoOwnersSpec.shards job.shards owner) := by
  have hcounts : coveredByBoth (landingShard 1 (js "k") (js "a")) = some (2, some 2) := by
    decide +kernel
  obtain ⟨prepared, c, job, aggregate, hplay, hconclude, hok, -⟩ := coveredByBoth_spec hcounts
  obtain ⟨hprepare, hrun⟩ := playOut_spec hplay
  exact ⟨job, aggregate, hok, coverage_reports_agree_iff hprepare hrun hconclude hok⟩

/-- The second shard of the first owner is refused: the aggregate covers both owners
    and the job one. -/
theorem coverage_reports_differ :
    ∃ prepared c job aggregate, playTwoOwners (refusedShard 1 (js "k")) = some (prepared, c) ∧
      conclude countingPlatform prepared.job c = some job ∧
      reduceTwoOwners job = .ok aggregate ∧ ¬ ReportsAgree twoOwnersSpec job aggregate := by
  have hcounts : coveredByBoth (refusedShard 1 (js "k")) = some (2, some 1) := by decide +kernel
  obtain ⟨prepared, c, job, aggregate, hplay, hconclude, hok, heq⟩ := coveredByBoth_spec hcounts
  refine ⟨prepared, c, job, aggregate, hplay, hconclude, hok, ?_⟩
  rintro ⟨report, hreport, -, hcovered, -⟩
  rw [hreport, hcovered, Prod.mk.injEq, Option.map_some, Option.some.injEq] at heq
  omega

end O2Fabric.Net
