/-
  O2Fabric.Net.ReduceSovereign

  `reduceSovereignJob`: the owner-pinned partials of a job, aggregated by peers,
  with the coverage over owners attached.

  Whose shard is whose is the specification's; who produced it is read from the
  shard's verified receipt.  The two are compared before a partial is admitted.
-/

import O2Fabric.Net.ReduceJob.Gathering

namespace O2Fabric.Net

open Job Reduce Submit

/-- Replicas every combine in a sovereign reduction must achieve. -/
def MIN_SOVEREIGN_COMBINE_REPLICAS : Nat := 2

/-- An aggregate that cannot be read without its coverage. -/
structure CoveredAggregate (α : Type) where
  value : α
  coverage : CoverageReport

/-- Pair an aggregate with the coverage it was computed over. -/
def withCoverage {α : Type} (value : α) (expected contributed : List JsString) :
    CoveredAggregate α :=
  ⟨value, coverageOf expected contributed⟩

structure SovereignReduceOptions where
  localId : JsString
  executors : List JsString
  project : CanonicalValue → Nat → Except JsString CanonicalValue
  fanout : Option Nat
  redundancy : Option JsNumber
  trustedIssuers : CombineTrustAnchors
  /-- `none` is `'holds-no-egress-manifest'`. -/
  egress : Option (List EgressManifest)

/-- A shard that was admitted, before its partial has an address. -/
structure AdmittedShard where
  ownerId : JsString
  partitionIndex : Nat
  operators : List JsString

structure SovereignContribution where
  ownerId : JsString
  partitionIndex : Nat
  partialCid : Cid
  operators : List JsString

structure SovereignEgressReading where
  manifests : Nat
  registeredSovereign : Nat
  pinnedShards : Nat
  totalBytes : Nat

structure SovereignAggregate where
  outcome : ReduceOutcome
  tree : ReduceTree
  contributions : List SovereignContribution
  aggregateAttestation : AggregateAttestation
  egress : SovereignEgressReading

inductive SovereignReduceResult
  | threw
  | refused (reason : JsString)
  | ok (aggregate : CoveredAggregate SovereignAggregate)

/-! ## The checks before the reduction -/

/-- `pinned.get(index)`: the owner a shard is pinned to. -/
def pinnedTo (spec : JobSpec) (index : Nat) : Option JsString := spec.shards[index]?.bind ownerOf

/-- `pinned.values()`, one for each pinned shard. -/
def pinnedOwners (spec : JobSpec) : List JsString := spec.shards.filterMap ownerOf

/-- The operators of the nodes that ran a shard's map for its owner, or why this
    requestor cannot say the owner's nodes ran it. -/
def attestedOwnerOf (shard : ShardResult) (owner : JsString) : Except JsString (List JsString) :=
  match shard.attestation with
  | .holdsNoVerifiedAttestation reason _ _ =>
    .error (js "shard " ++ decimal shard.partitionIndex ++ js " is pinned to owner " ++ owner
      ++ js " but carries no verified attestation, so this requestor cannot say the owner's own node produced it — "
      ++ reason)
  | .receipt receipt =>
    let keys := receipt.userKeys
    if owner ∉ keys then
      .error (js "shard " ++ decimal shard.partitionIndex ++ js " is pinned to owner " ++ owner
        ++ js " but its map was attested under user key(s) " ++ (js ", ").intercalate keys
        ++ js ", which do not include that owner")
    else if 1 < keys.length then
      .error (js "shard " ++ decimal shard.partitionIndex ++ js " is pinned to owner " ++ owner
        ++ js " but its map was also attested under "
        ++ (js ", ").intercalate (keys.filter fun key => decide (key ≠ owner))
        ++ js "; a partial the owner did not solely produce is not owner-attested")
    else .ok receipt.operators

/-- What the loop over the shards has admitted. -/
structure Admitted where
  contributions : List AdmittedShard
  attribution : InsertionMap Nat JsString

/-- One pass of the loop. -/
def admitShard (spec : JobSpec) (admitted : Admitted) (shard : ShardResult) :
    Except JsString Admitted :=
  match pinnedTo spec shard.partitionIndex with
  | none =>
    .error (js "shard " ++ decimal shard.partitionIndex
      ++ js " is not owner-pinned; a sovereign aggregation over a mixed job would compute one number and report coverage for another")
  | some owner =>
    -- a shard that did not agree is a hole in the dataset, which the coverage reports
    if shard.verification.isAgreed then
      (attestedOwnerOf shard owner).map fun operators =>
        ⟨admitted.contributions ++ [⟨owner, shard.partitionIndex, operators⟩],
          admitted.attribution.set shard.partitionIndex owner⟩
    else .ok admitted

def admitShards (spec : JobSpec) (shards : List ShardResult) : Except JsString Admitted :=
  shards.foldlM (admitShard spec) ⟨[], .empty⟩

/-- The egress evidence, read: what the weakest guard registered. -/
def readEgress (pinnedShards : Nat) : Option (List EgressManifest) →
    Except JsString SovereignEgressReading
  | none =>
    .error (js "this requestor holds no egress manifest, and a sovereign aggregate’s claim is carried by the manifest and the coverage report rather than by a quorum — use reduceJob if the claim is not wanted")
  | some [] =>
    .error (js "an empty manifest list is not a manifest: nothing watched this job’s owner-pinned rows, so there is no reading to attach to the aggregate")
  | some (first :: rest) =>
    let manifests := first :: rest
    match manifests.find? fun manifest => decide (manifest.violations ≠ []) with
    | some manifest =>
      .error (js "node " ++ manifest.nodeId ++ js " (owner " ++ manifest.ownerId
        ++ js ") attempted to send " ++ decimal manifest.violations.length
        ++ js " frame(s) carrying registered sovereign payload(s) — "
        ++ (js ", ").intercalate (distinct manifest.violations)
        ++ js "; the bytes stayed home but the aggregate would be reporting a run whose map tried to move data")
    | none =>
      let registeredSovereign :=
        rest.foldl (fun least manifest => min least manifest.registeredSovereign)
          first.registeredSovereign
      if registeredSovereign < pinnedShards then
        .error (js "this job pins " ++ decimal pinnedShards
          ++ js " shard(s) to an owner but the weakest guard reports having registered "
          ++ decimal registeredSovereign
          ++ js "; a guard that was never given the rows cannot report that none of them left, and an empty violations list from it means only that it was watching nothing")
      else
        .ok ⟨manifests.length, registeredSovereign, pinnedShards,
          manifests.foldl (fun sum manifest => sum + manifest.totalBytes) 0⟩

/-! ## The checks after it -/

/-- What a tree keys an owner's partial on. -/
def SovereignContribution.leafKey (contribution : SovereignContribution) : JsString :=
  leafId contribution.ownerId contribution.partialCid

/-- The first contribution whose leaf is one already seen. -/
def mergedContribution : List SovereignContribution → (seen : List JsString) →
    Option SovereignContribution
  | [], _ => none
  | contribution :: rest, seen =>
    if contribution.leafKey ∈ seen then some contribution
    else mergedContribution rest (contribution.leafKey :: seen)

def addressed (contributions : List AdmittedShard) (leaves : List Cid) :
    List SovereignContribution :=
  List.zipWith (fun contribution cid =>
    ⟨contribution.ownerId, contribution.partitionIndex, cid, contribution.operators⟩)
    contributions leaves

section

variable (p : Platform) (codec : Codec p) (sigs : Signatures)

/-- The replicas asked for. -/
def SovereignReduceOptions.wanted (options : SovereignReduceOptions) : JsNumber :=
  options.redundancy.getD (.finite MIN_SOVEREIGN_COMBINE_REPLICAS)

/-- The options of the reduction on the shared path. -/
def SovereignReduceOptions.reduceOptions (options : SovereignReduceOptions)
    (attribution : InsertionMap Nat JsString) : ReduceJobOptions where
  localId := options.localId
  executors := options.executors
  project := options.project
  fanout := options.fanout
  redundancy := some options.wanted
  trustedIssuers := options.trustedIssuers
  contributors := .owners attribution
  placement := .requiresRemoteCombining

/-- What is made of a reduction that ran. -/
def concludeAggregate (spec : JobSpec) (egress : SovereignEgressReading)
    (contributions : List AdmittedShard) (reduced : Reduction) : SovereignReduceResult :=
  if reduced.leaves.length ≠ contributions.length then
    .refused (js "this arm admitted " ++ decimal contributions.length
      ++ js " contribution(s) but the reduce projected " ++ decimal reduced.leaves.length
      ++ js " partial(s); the two disagree about which shards agreed")
  else
    let admitted := addressed contributions reduced.leaves
    match mergedContribution admitted [] with
    | some contribution =>
      .refused (js "owner " ++ contribution.ownerId
        ++ js " contributed two partials with the same address ("
        ++ contribution.partialCid.toText
        ++ js "); a reduce tree keys a leaf on (contributor, cid), so these merge into one leaf and the aggregate would count that owner’s data once instead of twice")
    | none =>
      if reduced.tree.nodes = [] then
        .refused (js "this reduction merged nothing — a single contribution is promoted rather than combined, so no aggregation was performed and there is nothing for this arm to verify")
      else if reduced.outcome.minReplicas < MIN_SOVEREIGN_COMBINE_REPLICAS then
        .refused (js "the weakest combine in this tree was performed by "
          ++ decimal reduced.outcome.minReplicas ++ js " executor(s), below the "
          ++ decimal MIN_SOVEREIGN_COMBINE_REPLICAS
          ++ js " a sovereign aggregation is verified at; the aggregation over contributions is the only half of this job’s claim that redundancy can carry")
      else
        .ok (withCoverage
          ⟨reduced.outcome, reduced.tree, admitted, reduced.aggregateAttestation, egress⟩
          (distinct (pinnedOwners spec)) (admitted.map SovereignContribution.ownerId))

/-- Aggregate a job's owner-pinned partials, with the sovereignty claim attached. -/
def reduceSovereignJob (job : JobResult) (spec : JobSpec) (options : SovereignReduceOptions)
    (answers : Answers) : SovereignReduceResult :=
  if options.wanted.below (.finite MIN_SOVEREIGN_COMBINE_REPLICAS) then
    .refused (js "a sovereign aggregation asks for at least "
      ++ decimal MIN_SOVEREIGN_COMBINE_REPLICAS
      ++ js " replicas per combine and this one asked for " ++ p.numberText options.wanted
      ++ js "; the aggregation over contributions is what carries the verification claim for owner-pinned data, and one executor verifies nothing")
  else if pinnedOwners spec = [] then
    .refused (js "this job pins no shard to an owner, so there is no sovereign contribution to aggregate — running this arm over public shards would report a sovereignty claim about a job that made none")
  else
    match readEgress (pinnedOwners spec).length options.egress with
    | .error reason => .refused reason
    | .ok egress =>
      match admitShards spec job.shards with
      | .error reason => .refused reason
      | .ok admitted =>
        if admitted.contributions = [] then
          .refused (js "no owner-pinned shard agreed: this job defined "
            ++ decimal (pinnedOwners spec).length
            ++ js " of them and none produced an output to summarise")
        else
          match reduceJob p codec sigs job (options.reduceOptions admitted.attribution)
              answers with
          | .threw => .threw
          | .refused reason => .refused reason
          | .ok reduced => concludeAggregate spec egress admitted.contributions reduced

end

end O2Fabric.Net

/-! # Admission

What an aggregate that is answered `ok` was made from: every agreed shard was
admitted under its pinned owner, the manifests are clean, and the reduction is
over the admitted contributions, one leaf each.
-/

namespace O2Fabric.Net

open Job Reduce Submit

/-! ## The shards -/

/-- A shard's own owner, and the receipt that names that owner alone. -/
structure Admits (spec : JobSpec) (shard : ShardResult) (admitted : AdmittedShard) : Prop where
  pinned : pinnedTo spec shard.partitionIndex = some admitted.ownerId
  index : admitted.partitionIndex = shard.partitionIndex
  attested : ∃ receipt, shard.attestation = .receipt receipt ∧
    receipt.userKeys = [admitted.ownerId] ∧ admitted.operators = receipt.operators

theorem attestedOwnerOf_ok {shard : ShardResult} {owner : JsString} {operators : List JsString}
    (h : attestedOwnerOf shard owner = .ok operators) :
    ∃ receipt, shard.attestation = .receipt receipt ∧ receipt.userKeys = [owner] ∧
      operators = receipt.operators := by
  unfold attestedOwnerOf at h
  cases hattestation : shard.attestation with
  | holdsNoVerifiedAttestation reason agreeing verified =>
    rw [hattestation] at h
    cases h
  | receipt receipt =>
    rw [hattestation] at h
    dsimp only at h
    split at h
    · cases h
    · next howner =>
      split at h
      · cases h
      · next hfew =>
        cases h
        refine ⟨receipt, rfl, ?_, rfl⟩
        have hmem := not_not.mp howner
        match hkeys : receipt.userKeys, hmem, hfew with
        | [key], hmem, _ => rw [List.mem_singleton.mp hmem]
        | _ :: _ :: rest, _, hfew =>
          simp only [List.length_cons] at hfew
          omega

/-- What the admission loop has done with the shards it has passed. -/
structure Admitted.Of (spec : JobSpec) (done : List ShardResult) (admitted : Admitted) :
    Prop where
  contributions : List.Forall₂ (Admits spec) (agreedShards done) admitted.contributions
  attribution : ∀ shard ∈ agreedShards done,
    admitted.attribution.get? shard.partitionIndex = pinnedTo spec shard.partitionIndex

theorem admitShard_of {spec : JobSpec} {done : List ShardResult} {shard : ShardResult}
    {admitted admitted' : Admitted} (h : admitted.Of spec done)
    (hstep : admitShard spec admitted shard = .ok admitted') :
    admitted'.Of spec (done ++ [shard]) := by
  unfold admitShard at hstep
  cases hpinned : pinnedTo spec shard.partitionIndex with
  | none =>
    rw [hpinned] at hstep
    cases hstep
  | some owner =>
    rw [hpinned] at hstep
    dsimp only at hstep
    split at hstep
    · next hagreed =>
      cases hattested : attestedOwnerOf shard owner with
      | error reason =>
        rw [hattested] at hstep
        cases hstep
      | ok operators =>
        rw [hattested] at hstep
        cases hstep
        refine ⟨?_, ?_⟩
        · rw [agreedShards_concat, if_pos hagreed]
          apply forall₂_concat h.contributions
          exact ⟨hpinned, rfl, attestedOwnerOf_ok hattested⟩
        · rw [agreedShards_concat, if_pos hagreed]
          intro shard' hshard'
          -- a later shard of the same partition has the same owner
          show (admitted.attribution.set shard.partitionIndex owner).get? _ = _
          rw [InsertionMap.get?_set]
          split
          · next heq => rw [heq, hpinned]
          · next hne =>
            rcases List.mem_append.mp hshard' with hbefore | hlast
            · exact h.attribution shard' hbefore
            · rw [List.mem_singleton.mp hlast] at hne
              exact absurd rfl hne
    · next hagreed =>
      cases hstep
      have hsame : agreedShards (done ++ [shard]) = agreedShards done := by
        rw [agreedShards_concat, if_neg hagreed, List.append_nil]
      refine ⟨?_, ?_⟩
      · rw [hsame]
        exact h.contributions
      · rw [hsame]
        exact h.attribution

theorem admitShards_of {spec : JobSpec} {shards : List ShardResult} {admitted : Admitted}
    (h : admitShards spec shards = .ok admitted) : admitted.Of spec shards := by
  apply foldlM_ok_induction (P := fun done a => a.Of spec done) _ _ h
  · refine ⟨.nil, ?_⟩
    intro shard hshard
    cases hshard
  · intro done shard a a' ha hstep
    exact admitShard_of ha hstep

/-! ## The manifests -/

theorem foldl_min_le {α : Type} (f : α → Nat) (l : List α) (least : Nat) :
    l.foldl (fun least x => min least (f x)) least ≤ least ∧
      ∀ x ∈ l, l.foldl (fun least x => min least (f x)) least ≤ f x := by
  induction l generalizing least with
  | nil => exact ⟨Nat.le_refl _, fun x hx => absurd hx List.not_mem_nil⟩
  | cons y rest ih =>
    obtain ⟨hleast, hrest⟩ := ih (min least (f y))
    refine ⟨Nat.le_trans hleast (Nat.min_le_left _ _), ?_⟩
    intro x hx
    rcases List.mem_cons.mp hx with rfl | hx
    · exact Nat.le_trans hleast (Nat.min_le_right _ _)
    · exact hrest x hx

/-- A reading is of manifests that are clean and watched every pinned shard. -/
theorem readEgress_ok {pinnedShards : Nat} {egress : Option (List EgressManifest)}
    {reading : SovereignEgressReading} (h : readEgress pinnedShards egress = .ok reading) :
    ∃ manifests, egress = some manifests ∧ manifests ≠ [] ∧
      ∀ manifest ∈ manifests, manifest.violations = [] ∧
        pinnedShards ≤ manifest.registeredSovereign := by
  unfold readEgress at h
  split at h
  · cases h
  · cases h
  · next first rest =>
    dsimp only at h
    split at h
    · cases h
    · next hclean =>
      split at h
      · cases h
      · next hwatched =>
        refine ⟨first :: rest, rfl, List.cons_ne_nil _ _, ?_⟩
        have hle := foldl_min_le EgressManifest.registeredSovereign rest
          first.registeredSovereign
        intro manifest hmanifest
        refine ⟨?_, ?_⟩
        · have hnone := List.find?_eq_none.mp hclean manifest hmanifest
          rw [decide_eq_true_eq] at hnone
          exact not_not.mp hnone
        · rcases List.mem_cons.mp hmanifest with rfl | hrest
          · have := hle.1
            omega
          · have := hle.2 manifest hrest
            omega

/-! ## The leaves -/

/-- The contributions handed to the tree are the admitted ones. -/
theorem map_addressed {p : Platform} {codec : Codec p} {spec : JobSpec}
    {options : ReduceJobOptions} {attribution : InsertionMap Nat JsString}
    (howners : options.contributors = .owners attribution) {shards : List ShardResult}
    (hattribution : ∀ shard ∈ shards,
      attribution.get? shard.partitionIndex = pinnedTo spec shard.partitionIndex)
    {admitted : List AdmittedShard} (hshardsted : List.Forall₂ (Admits spec) shards admitted)
    {contributions : List ReduceContribution}
    (hcontributions : List.Forall₂ (Contributes codec options) shards contributions) :
    (addressed admitted (contributions.map ReduceContribution.cid)).map
      (fun c => ReduceContribution.mk c.ownerId c.partialCid) = contributions := by
  induction hshardsted generalizing contributions with
  | nil =>
    cases hcontributions
    rfl
  | @cons shard a shards admitted hshardss _ ih =>
    cases hcontributions with
    | @cons _ contribution _ rest hcontributes hrest =>
      have howner : a.ownerId = contribution.contributorId := by
        have hattributed := hcontributes.attributed
        rw [howners] at hattributed
        have hget := hattribution shard List.mem_cons_self
        rw [hshardss.pinned] at hget
        exact Option.some.inj (hget.symm.trans hattributed)
      have htail := ih (fun s hs => hattribution s (List.mem_cons_of_mem _ hs)) hrest
      show ReduceContribution.mk a.ownerId contribution.cid :: _ = _
      rw [howner]
      exact congrArg (contribution :: ·) htail

/-- An addressed contribution is an admitted shard's. -/
theorem mem_addressed {admitted : List AdmittedShard} {leaves : List Cid}
    {contribution : SovereignContribution} (h : contribution ∈ addressed admitted leaves) :
    ∃ a ∈ admitted, a.ownerId = contribution.ownerId ∧
      a.partitionIndex = contribution.partitionIndex := by
  induction admitted generalizing leaves with
  | nil => cases h
  | cons a rest ih =>
    cases leaves with
    | nil => cases h
    | cons cid leaves =>
      rcases List.mem_cons.mp h with rfl | h
      · exact ⟨a, List.mem_cons_self, rfl, rfl⟩
      · obtain ⟨a', ha', heq⟩ := ih h
        exact ⟨a', List.mem_cons_of_mem _ ha', heq⟩

theorem mergedContribution_none {contributions : List SovereignContribution}
    {seen : List JsString} (h : mergedContribution contributions seen = none) :
    (contributions.map SovereignContribution.leafKey).Nodup ∧
      ∀ contribution ∈ contributions, contribution.leafKey ∉ seen := by
  induction contributions generalizing seen with
  | nil => exact ⟨List.nodup_nil, fun c hc => absurd hc List.not_mem_nil⟩
  | cons contribution rest ih =>
    unfold mergedContribution at h
    split at h
    · cases h
    · next hnew =>
      obtain ⟨hnodup, hunseen⟩ := ih h
      refine ⟨List.nodup_cons.mpr ⟨?_, hnodup⟩, ?_⟩
      · intro hmem
        obtain ⟨c, hc, hkey⟩ := List.mem_map.mp hmem
        exact hunseen c hc (hkey ▸ List.mem_cons_self)
      · intro c hc
        rcases List.mem_cons.mp hc with rfl | hc
        · exact hnew
        · exact fun hseen => hunseen c hc (List.mem_cons_of_mem _ hseen)

/-- Distinct contributions become the leaves of their tree, one each. -/
theorem sortedLeaves_perm (contributions : List ReduceContribution)
    (h : (contributions.map fun c => (leafOf c).id).Nodup) :
    (sortedLeaves contributions).Perm (contributions.map leafOf) := by
  rw [List.perm_ext_iff_of_nodup ((sortedLeaves_ids_nodup contributions).of_map _)
    (List.Nodup.of_map ReduceLeaf.id (by rwa [List.map_map]))]
  intro leaf
  rw [mem_sortedLeaves, List.mem_map]

/-! ## An aggregate that was answered -/

/-- What an aggregate answered `ok` was made from. -/
structure Aggregated (p : Platform) (codec : Codec p) (sigs : Signatures) (job : JobResult)
    (spec : JobSpec) (options : SovereignReduceOptions) (answers : Answers)
    (aggregate : CoveredAggregate SovereignAggregate) (admitted : Admitted)
    (reduced : Reduction) : Prop where
  watched : ∃ manifests, options.egress = some manifests ∧ manifests ≠ [] ∧
    ∀ manifest ∈ manifests, manifest.violations = [] ∧
      (pinnedOwners spec).length ≤ manifest.registeredSovereign
  admits : admitted.Of spec job.shards
  reduces : reduced.Of p codec sigs job (options.reduceOptions admitted.attribution) answers
  contributions : aggregate.value.contributions
    = addressed admitted.contributions reduced.leaves
  unmerged : mergedContribution aggregate.value.contributions [] = none
  combines : reduced.tree.nodes ≠ []
  outcome : aggregate.value.outcome = reduced.outcome
  tree : aggregate.value.tree = reduced.tree
  coverage : aggregate.coverage = coverageOf (distinct (pinnedOwners spec))
    (aggregate.value.contributions.map SovereignContribution.ownerId)

section

variable {p : Platform} {codec : Codec p} {sigs : Signatures} {job : JobResult} {spec : JobSpec}
  {options : SovereignReduceOptions} {answers : Answers}
  {aggregate : CoveredAggregate SovereignAggregate} {admitted : Admitted} {reduced : Reduction}

theorem reduceSovereignJob_ok
    (h : reduceSovereignJob p codec sigs job spec options answers = .ok aggregate) :
    ∃ admitted reduced,
      Aggregated p codec sigs job spec options answers aggregate admitted reduced := by
  unfold reduceSovereignJob at h
  split at h
  · cases h
  · split at h
    · cases h
    · cases hegress : readEgress (pinnedOwners spec).length options.egress with
      | error reason =>
        rw [hegress] at h
        cases h
      | ok egress =>
        rw [hegress] at h
        dsimp only at h
        cases hshards : admitShards spec job.shards with
        | error reason =>
          rw [hshards] at h
          cases h
        | ok admitted =>
          rw [hshards] at h
          dsimp only at h
          split at h
          · cases h
          · cases hreduce : reduceJob p codec sigs job
                (options.reduceOptions admitted.attribution) answers with
            | threw =>
              rw [hreduce] at h
              cases h
            | refused reason =>
              rw [hreduce] at h
              cases h
            | ok reduced =>
              rw [hreduce] at h
              dsimp only [concludeAggregate] at h
              split at h
              · cases h
              · split at h
                · cases h
                · next hunmerged =>
                  split at h
                  · cases h
                  · next hcombines =>
                    split at h
                    · cases h
                    · cases h
                      exact ⟨admitted, reduced, readEgress_ok hegress,
                        admitShards_of hshards, reduceJob_ok hreduce, rfl, hunmerged,
                        hcombines, rfl, rfl, rfl⟩

namespace Aggregated

/-- The contributions handed to the tree are the admitted ones. -/
theorem map_contributions
    (h : Aggregated p codec sigs job spec options answers aggregate admitted reduced) :
    ∃ fanout, 2 ≤ fanout ∧ deriveReduceTree p.hashText
      (aggregate.value.contributions.map fun c => ⟨c.ownerId, c.partialCid⟩) fanout
        = .ok reduced.tree := by
  obtain ⟨gathered, hgathered, hleaves, -, htree⟩ := h.reduces.gathered
  refine ⟨_, (deriveReduceTree_rounds htree).1, ?_⟩
  rw [h.contributions, hleaves, hgathered.leaves,
    map_addressed rfl h.admits.attribution h.admits.contributions hgathered.contributions]
  exact htree

/-- Each admitted contribution is one leaf, and there are no others. -/
theorem leaves_perm
    (h : Aggregated p codec sigs job spec options answers aggregate admitted reduced) :
    reduced.tree.leaves.Perm
      (aggregate.value.contributions.map fun c => leafOf ⟨c.ownerId, c.partialCid⟩) := by
  obtain ⟨fanout, hfanout, htree⟩ := h.map_contributions
  rw [(deriveReduceTree_rounds htree).2.2.1]
  have hperm := sortedLeaves_perm (aggregate.value.contributions.map fun c =>
    ⟨c.ownerId, c.partialCid⟩) (by
      rw [List.map_map]
      exact (mergedContribution_none h.unmerged).1)
  rwa [List.map_map] at hperm

/-- Each of them is an agreed shard's, attested under its pinned owner alone. -/
theorem attested
    (h : Aggregated p codec sigs job spec options answers aggregate admitted reduced)
    {contribution : SovereignContribution} (hc : contribution ∈ aggregate.value.contributions) :
    pinnedTo spec contribution.partitionIndex = some contribution.ownerId ∧
      ∃ shard ∈ job.shards, shard.partitionIndex = contribution.partitionIndex ∧
        shard.verification.isAgreed = true ∧
        ∃ receipt, shard.attestation = .receipt receipt ∧
          receipt.userKeys = [contribution.ownerId] := by
  rw [h.contributions] at hc
  obtain ⟨a, ha, howner, hindex⟩ := mem_addressed hc
  obtain ⟨shard, hshard, hshardss⟩ := exists_of_mem_of_forall₂ h.admits.contributions.flip ha
  obtain ⟨hmem, hagreed⟩ := List.mem_filter.mp hshard
  obtain ⟨receipt, hreceipt, hkeys, -⟩ := hshardss.attested
  rw [← howner, ← hindex, hshardss.index]
  exact ⟨hshardss.pinned, shard, hmem, rfl, hagreed, receipt, hreceipt, hkeys⟩

end Aggregated

end

end O2Fabric.Net
