/-
  O2Fabric.Core.Job.Submit.Distinct

  The replicas that agreed on a shard are distinct nodes, and its generations are
  the grants in the history of the leases, in every run in which no placement
  without offers takes two nodes of one id and no receipt is over two statements
  under one key.

  `Gathers` carries this: the nodes gathered so far as agreeing are distinct, and
  the copies still in the race are on none of them.
-/

import O2Fabric.Core.Job.Submit.Sovereign
import O2Fabric.Core.Job.Submit.Leases

namespace O2Fabric.Submit

open Job Threads LeaseTable

/-! ## What is gathered -/

/-- The nodes a verification names, where there is one. -/
def idsOf (v : Option Verification) : List JsString := (v.map VerificationResult.agreeingIds).getD []

/-- The nodes gathered as agreeing so far, earlier generations first. -/
def gathered (st : ShardState) : List JsString := idsOf st.verification ++ idsOf st.phase.inHand

/-- The gathered nodes are distinct and attempted, the copies still in the race are on
    other nodes and on no node twice, and an answer names nodes of its copy. -/
structure Gathers (st : ShardState) : Prop where
  nodup : (gathered st).Nodup
  attempted : ∀ nodeId ∈ gathered st, nodeId ∈ st.attempted
  apart : ∀ key k, st.phase.copies.get? key = some k → ∃ f, st.flights[k]? = some f ∧
    f.nodeIds.Nodup ∧ ∀ nodeId ∈ f.nodeIds, nodeId ∈ st.attempted ∧ nodeId ∉ gathered st
  disjoint : ∀ key key' k k' f f', st.phase.copies.get? key = some k →
    st.phase.copies.get? key' = some k' → key ≠ key' → st.flights[k]? = some f →
    st.flights[k']? = some f' → ∀ nodeId ∈ f.nodeIds, nodeId ∉ f'.nodeIds
  answers : ∀ f ∈ st.flights, ∀ v, f.answer = some v → v.agreeingIds.Sublist f.nodeIds

theorem idsOf_mergeInto (before : Option Verification) (v : Verification) :
    (idsOf (some (mergeInto before v))).Sublist (idsOf before ++ v.agreeingIds) := by
  cases before with
  | none => exact List.Sublist.refl _
  | some w => exact agreeingIds_mergeVerifications w v

variable {p : Platform} {job : PreparedJob} {plan : ShardPlan} {s s' : Shared}
  {st st' : ShardState}

/-- Nothing is launched, and no more is gathered. -/
theorem Gathers.shrink (hst : Gathers st) (hflights : st'.flights = st.flights)
    (hattempted : st'.attempted = st.attempted)
    (hcopies : ∀ key k, st'.phase.copies.get? key = some k → st.phase.copies.get? key = some k)
    (hgathered : (gathered st').Sublist (gathered st)) : Gathers st' := by
  refine ⟨hst.nodup.sublist hgathered, ?_, ?_, ?_, ?_⟩
  · intro nodeId hid
    rw [hattempted]
    exact hst.attempted nodeId (hgathered.subset hid)
  · intro key k hcopy
    obtain ⟨f, hf, hnodup, hall⟩ := hst.apart key k (hcopies key k hcopy)
    refine ⟨f, hflights ▸ hf, hnodup, fun nodeId hid => ?_⟩
    rw [hattempted]
    exact ⟨(hall nodeId hid).1, fun hin => (hall nodeId hid).2 (hgathered.subset hin)⟩
  · intro key key' k k' f f' hcopy hcopy' hne hf hf'
    rw [hflights] at hf hf'
    exact hst.disjoint key key' k k' f f' (hcopies key k hcopy) (hcopies key' k' hcopy') hne hf hf'
  · rw [hflights]
    exact hst.answers

/-- A copy is launched on new nodes. -/
theorem Gathers.launch (hst : Gathers st) (key : JsString) {nodeIds : List JsString}
    {speculative : Bool} (hnodup : nodeIds.Nodup) (hnew : ∀ nodeId ∈ nodeIds, nodeId ∉ st.attempted)
    (hflights : st'.flights = st.flights ++ [⟨nodeIds, speculative, none⟩])
    (hattempted : st'.attempted = st.attempted ++ nodeIds)
    (hcopies : st'.phase.copies = st.phase.copies.set key st.flights.length)
    (hverification : st'.verification = st.verification)
    (hinHand : st'.phase.inHand = st.phase.inHand) : Gathers st' := by
  have hgathered : gathered st' = gathered st := by
    rw [gathered, gathered, hverification, hinHand]
  have hlaunched : st'.flights[st.flights.length]? = some ⟨nodeIds, speculative, none⟩ := by
    rw [hflights, List.getElem?_append_right (Nat.le_refl _), Nat.sub_self]
    rfl
  have hkept : ∀ {k : Nat} {f : Flight}, st.flights[k]? = some f → st'.flights[k]? = some f := by
    intro k f hf
    rw [hflights, List.getElem?_append_left (List.getElem?_eq_some_iff.mp hf).1]
    exact hf
  -- A copy in the race is the new one or one that was there.
  have hcases : ∀ key' k, st'.phase.copies.get? key' = some k →
      (key' = key ∧ k = st.flights.length) ∨ (key' ≠ key ∧ st.phase.copies.get? key' = some k) := by
    intro key' k hget
    rw [hcopies, InsertionMap.get?_set] at hget
    split at hget
    · next heq => exact Or.inl ⟨heq, (Option.some.inj hget).symm⟩
    · next hne => exact Or.inr ⟨hne, hget⟩
  have hold : ∀ {key' : JsString} {k : Nat} {f : Flight}, st.phase.copies.get? key' = some k → st'.flights[k]? = some f →
      st.flights[k]? = some f ∧ ∀ nodeId ∈ f.nodeIds, nodeId ∈ st.attempted := by
    intro key' k f hcopy hf
    obtain ⟨g, hg, -, hall⟩ := hst.apart key' k hcopy
    rw [hkept hg] at hf
    cases hf
    exact ⟨hg, fun nodeId hid => (hall nodeId hid).1⟩
  refine ⟨hgathered ▸ hst.nodup, ?_, ?_, ?_, ?_⟩
  · intro nodeId hid
    rw [hgathered] at hid
    rw [hattempted]
    exact List.mem_append_left _ (hst.attempted nodeId hid)
  · intro key' k hcopy
    rw [hgathered, hattempted]
    rcases hcases key' k hcopy with ⟨-, rfl⟩ | ⟨-, hcopy⟩
    · refine ⟨_, hlaunched, hnodup, fun nodeId hid => ⟨List.mem_append_right _ hid, fun hin => ?_⟩⟩
      exact hnew nodeId hid (hst.attempted nodeId hin)
    · obtain ⟨f, hf, hdistinct, hall⟩ := hst.apart key' k hcopy
      exact ⟨f, hkept hf, hdistinct, fun nodeId hid =>
        ⟨List.mem_append_left _ (hall nodeId hid).1, (hall nodeId hid).2⟩⟩
  · intro key₁ key₂ k₁ k₂ f₁ f₂ hcopy₁ hcopy₂ hne hf₁ hf₂ nodeId hid hid'
    rcases hcases key₁ k₁ hcopy₁ with ⟨rfl, rfl⟩ | ⟨-, hcopy₁⟩
    · rcases hcases key₂ k₂ hcopy₂ with ⟨rfl, -⟩ | ⟨-, hcopy₂⟩
      · exact hne rfl
      · rw [hlaunched, Option.some.injEq] at hf₁
        subst hf₁
        exact hnew nodeId hid ((hold hcopy₂ hf₂).2 nodeId hid')
    · rcases hcases key₂ k₂ hcopy₂ with ⟨rfl, rfl⟩ | ⟨-, hcopy₂⟩
      · rw [hlaunched, Option.some.injEq] at hf₂
        subst hf₂
        exact hnew nodeId hid' ((hold hcopy₁ hf₁).2 nodeId hid)
      · exact hst.disjoint key₁ key₂ k₁ k₂ f₁ f₂ hcopy₁ hcopy₂ hne (hold hcopy₁ hf₁).1
          (hold hcopy₂ hf₂).1 nodeId hid hid'
  · rw [hflights]
    refine List.forall_mem_append.mpr ⟨hst.answers, List.forall_mem_singleton.mpr fun v hv => ?_⟩
    cases hv

/-- A copy's answer is taken in, and the copy leaves the race. -/
theorem Gathers.takes (hst : Gathers st) {key : JsString} {k : Nat} {flight : Flight}
    {v : Verification} (hcopy : st.phase.copies.get? key = some k)
    (hflight : st.flights[k]? = some flight) (hanswer : flight.answer = some v)
    (hflights : st'.flights = st.flights) (hattempted : st'.attempted = st.attempted)
    (hcopies : ∀ key' k', st'.phase.copies.get? key' = some k' →
      key' ≠ key ∧ st.phase.copies.get? key' = some k')
    (hgathered : (gathered st').Sublist (gathered st ++ v.agreeingIds)) : Gathers st' := by
  obtain ⟨f, hf, hdistinct, hall⟩ := hst.apart key k hcopy
  rw [hflight, Option.some.injEq] at hf
  subst hf
  have hnamed := hst.answers flight (List.mem_of_getElem? hflight) v hanswer
  refine ⟨?_, ?_, ?_, ?_, ?_⟩
  · refine (nodup_append_of_notMem hst.nodup (hdistinct.sublist hnamed) ?_).sublist hgathered
    exact fun nodeId hid => (hall nodeId (hnamed.subset hid)).2
  · intro nodeId hid
    rw [hattempted]
    rcases List.mem_append.mp (hgathered.subset hid) with hin | hin
    · exact hst.attempted nodeId hin
    · exact (hall nodeId (hnamed.subset hin)).1
  · intro key' k' hcopy'
    obtain ⟨hne, hget⟩ := hcopies key' k' hcopy'
    obtain ⟨f, hf, hdistinct', hall'⟩ := hst.apart key' k' hget
    refine ⟨f, hflights ▸ hf, hdistinct', fun nodeId hid => ?_⟩
    rw [hattempted]
    refine ⟨(hall' nodeId hid).1, fun hin => ?_⟩
    rcases List.mem_append.mp (hgathered.subset hin) with hin | hin
    · exact (hall' nodeId hid).2 hin
    · exact hst.disjoint key' key k' k f flight hget hcopy hne hf hflight nodeId hid
        (hnamed.subset hin)
  · intro key₁ key₂ k₁ k₂ f₁ f₂ hcopy₁ hcopy₂ hne hf₁ hf₂
    rw [hflights] at hf₁ hf₂
    exact hst.disjoint key₁ key₂ k₁ k₂ f₁ f₂ (hcopies key₁ k₁ hcopy₁).2 (hcopies key₂ k₂ hcopy₂).2
      hne hf₁ hf₂
  · rw [hflights]
    exact hst.answers

/-- A copy settles. -/
theorem Gathers.settles (hst : Gathers st) {k : Nat} {nodeIds : List JsString} {speculative : Bool}
    {v : Verification} (hflight : st.flights[k]? = some ⟨nodeIds, speculative, none⟩)
    (hnamed : v.agreeingIds.Sublist nodeIds)
    (hflights : st'.flights = st.flights.set k ⟨nodeIds, speculative, some v⟩)
    (hattempted : st'.attempted = st.attempted) (hphase : st'.phase = st.phase)
    (hverification : st'.verification = st.verification) : Gathers st' := by
  have hgathered : gathered st' = gathered st := by
    rw [gathered, gathered, hverification, hphase]
  have hlt := (List.getElem?_eq_some_iff.mp hflight).1
  -- Every copy is on the nodes it was on.
  have hforth : ∀ {j : Nat} {f : Flight}, st.flights[j]? = some f →
      ∃ f', st'.flights[j]? = some f' ∧ f'.nodeIds = f.nodeIds := by
    intro j f hf
    rw [hflights]
    by_cases hj : k = j
    · subst hj
      rw [hflight, Option.some.injEq] at hf
      exact ⟨_, List.getElem?_set_self hlt, by rw [← hf]⟩
    · exact ⟨f, by rw [List.getElem?_set_ne hj]; exact hf, rfl⟩
  have hback : ∀ {j : Nat} {f' : Flight}, st'.flights[j]? = some f' →
      ∃ f, st.flights[j]? = some f ∧ f'.nodeIds = f.nodeIds := by
    intro j f' hf'
    rw [hflights] at hf'
    by_cases hj : k = j
    · subst hj
      rw [List.getElem?_set_self hlt, Option.some.injEq] at hf'
      exact ⟨_, hflight, by rw [← hf']⟩
    · rw [List.getElem?_set_ne hj] at hf'
      exact ⟨f', hf', rfl⟩
  refine ⟨hgathered ▸ hst.nodup, ?_, ?_, ?_, ?_⟩
  · rw [hgathered, hattempted]
    exact hst.attempted
  · intro key j hcopy
    rw [hphase] at hcopy
    obtain ⟨f, hf, hdistinct, hall⟩ := hst.apart key j hcopy
    obtain ⟨f', hf', hsame⟩ := hforth hf
    refine ⟨f', hf', hsame ▸ hdistinct, ?_⟩
    rw [hsame, hgathered, hattempted]
    exact hall
  · intro key₁ key₂ k₁ k₂ f₁ f₂ hcopy₁ hcopy₂ hne hf₁ hf₂
    rw [hphase] at hcopy₁ hcopy₂
    obtain ⟨g₁, hg₁, hsame₁⟩ := hback hf₁
    obtain ⟨g₂, hg₂, hsame₂⟩ := hback hf₂
    rw [hsame₁, hsame₂]
    exact hst.disjoint key₁ key₂ k₁ k₂ g₁ g₂ hcopy₁ hcopy₂ hne hg₁ hg₂
  · rw [hflights]
    intro f hmem w hw
    rcases List.mem_or_eq_of_mem_set hmem with hold | rfl
    · exact hst.answers f hold w hw
    · rw [← Option.some.inj hw]
      exact hnamed

variable {event : ShardEvent}

/-- Every effect but a placement's keeps what is gathered apart. -/
theorem Gathers.effect (hst : Gathers st) (hnew : ∀ nodeIds, st.phase = .granting nodeIds →
      nodeIds.Nodup ∧ ∀ nodeId ∈ nodeIds, nodeId ∉ st.attempted)
    (h : Effect p job plan event st st') : Gathers st' := by
  have hempty : ∀ (key : JsString) (k : Nat),
      (InsertionMap.empty : InsertionMap JsString Nat).get? key = some k →
      st.phase.copies.get? key = some k := fun _ _ => get?_empty_ne
  have hunmoved : Unmoved st st' → Gathers st' := by
    intro h
    refine hst.shrink h.flights h.attempted (fun key k hcopy => h.copies ▸ hcopy) ?_
    rw [gathered, gathered, h.verification, h.inHand]
  cases h with
  | idle h _ => exact hunmoved h
  | placed _ _ _ _ _ _ _ h _ => exact hunmoved h
  | granted nodeIds race hphase hcopies hanswered hafter =>
    subst hafter
    obtain ⟨hnodup, hall⟩ := hnew nodeIds hphase
    refine hst.launch (nodeIds.headD []) hnodup hall rfl rfl ?_ rfl ?_
    · rw [hphase]
      exact hcopies
    · rw [hphase]
      exact hanswered
  | copied race race' target hphase hcandidate hcopies hanswered hafter =>
    subst hafter
    refine hst.launch target.nodeId (List.nodup_singleton _) ?_ rfl rfl ?_ rfl ?_
    · intro nodeId hid
      rw [List.mem_singleton.mp hid]
      exact (mem_speculativeCandidates.mp hcandidate).2
    · rw [hphase]
      exact hcopies
    · rw [hphase]
      exact hanswered
  | answered k nodeIds speculative answer v hflight _ hv hafter =>
    subst hafter
    exact hst.settles hflight (hv ▸ (verificationOf_from p _ nodeIds answer).agreeing) rfl rfl rfl
      rfl
  | won race key k flight v hphase hcopy hflight hanswer _ hafter =>
    subst hafter
    have hgathered : gathered st = idsOf st.verification ++ idsOf race.answered := by
      rw [gathered, hphase]
      rfl
    refine hst.takes (by rw [hphase]; exact hcopy) hflight hanswer rfl rfl
      (fun _ _ => get?_empty_ne) ?_
    rw [hgathered, List.append_assoc]
    exact (List.Sublist.refl _).append (idsOf_mergeInto race.answered v)
  | waited race key k flight v hphase hcopy hflight hanswer _ hafter =>
    subst hafter
    have hgathered : gathered st = idsOf st.verification ++ idsOf race.answered := by
      rw [gathered, hphase]
      rfl
    refine hst.takes (by rw [hphase]; exact hcopy) hflight hanswer rfl rfl ?_ ?_
    · intro key' k' hget
      change (race.copies.delete key).get? key' = some k' at hget
      rw [InsertionMap.get?_delete] at hget
      split at hget
      · cases hget
      · next hne =>
        rw [hphase]
        exact ⟨hne, hget⟩
    · rw [hgathered, List.append_assoc]
      exact (List.Sublist.refl _).append (idsOf_mergeInto race.answered v)
  | lapsed race _ _ _ hafter =>
    subst hafter
    refine hst.shrink rfl rfl hempty ?_
    exact (List.Sublist.refl _).append (List.nil_sublist _)
  | reaped r dropped _ _ hafter =>
    subst hafter
    refine hst.shrink rfl rfl hempty ?_
    exact (List.Sublist.refl _).append (List.nil_sublist _)
  | entered r v outstanding next hphase hdispatched honward hafter =>
    subst hafter
    obtain ⟨dispatched, speculated, judgedAt, holderId, startedAt⟩ := r
    change dispatched = _ at hdispatched
    subst hdispatched
    have hbare : next.copies = .empty ∧ next.inHand = none := by
      rcases honward with rfl | ⟨ending, rfl⟩ <;> exact ⟨rfl, rfl⟩
    refine hst.shrink rfl rfl ?_ ?_
    · show ∀ key k, next.copies.get? key = some k → _
      rw [hbare.1]
      exact hempty
    · show (idsOf (some (mergeInto st.verification v)) ++ idsOf next.inHand).Sublist _
      have hgathered : gathered st = idsOf st.verification ++ v.agreeingIds := by
        rw [gathered, hphase]
        rfl
      rw [hbare.2, hgathered]
      show (_ ++ []).Sublist _
      rw [List.append_nil]
      exact idsOf_mergeInto st.verification v

theorem Gathers.step (hst : Gathers st) (hfresh : Fresh st)
    (h : shardStep p job plan event s st = some (s', st')) : Gathers st' := by
  by_cases hplace : ∃ ask, event = .place ask
  · obtain ⟨ask, rfl⟩ := hplace
    obtain ⟨hphase, -, ⟨_, _, _, -, rfl⟩ | ⟨_, -, rfl⟩⟩ := placeStep_cases h
    all_goals
      refine hst.shrink rfl rfl (fun _ _ => get?_empty_ne) ?_
      rw [gathered, gathered, hphase]
      exact List.Sublist.refl _
  · -- The nodes the loop stands before are new until they are dispatched to.
    refine ((shardStep_effects h).invariant (I := fun st => Gathers st ∧ ∀ nodeIds,
      st.phase = .granting nodeIds → nodeIds.Nodup ∧ ∀ nodeId ∈ nodeIds, nodeId ∉ st.attempted)
      ⟨hst, hfresh.granting⟩ ?_).1
    rintro st st' ⟨hst, hnew⟩ heffect
    refine ⟨hst.effect hnew heffect, ?_⟩
    cases heffect with
    | idle hunmoved hgranting =>
      intro nodeIds hphase
      rw [hunmoved.attempted]
      exact hnew nodeIds (hgranting nodeIds hphase)
    | placed ask hevent => exact absurd ⟨ask, hevent⟩ hplace
    | granted _ _ _ _ _ hafter => exact hafter ▸ fun _ hphase => nomatch hphase
    | copied _ _ _ _ _ _ _ hafter => exact hafter ▸ fun _ hphase => nomatch hphase
    | answered _ _ _ _ _ _ _ _ hafter => exact hafter ▸ hnew
    | won _ _ _ _ _ _ _ _ _ _ hafter => exact hafter ▸ fun _ hphase => nomatch hphase
    | waited _ _ _ _ _ _ _ _ _ _ hafter => exact hafter ▸ fun _ hphase => nomatch hphase
    | lapsed _ _ _ _ hafter => exact hafter ▸ fun _ hphase => nomatch hphase
    | reaped _ _ _ _ hafter => exact hafter ▸ fun _ hphase => nomatch hphase
    | entered r v outstanding next hphase hdispatched honward hafter =>
      rcases honward with rfl | ⟨ending, rfl⟩ <;> exact hafter ▸ fun _ hphase => nomatch hphase

/-! ## The steps that keep nodes apart -/

/-- The keys of a receipt: what the replicas of an agreement verified under, where all
    of them are accounted for. -/
def receiptKeys (p : Platform) (job : PreparedJob) (plan : ShardPlan) : Verification → List JsString
  | .agreed resultCid _ agreeing _ _ _ _ =>
    let checked := agreeing.map (accountFor p
      ⟨job.spec.moduleCid, plan.inputCid, plan.partitionIndex, resultCid⟩
      (descriptorByNodeId job.spec) job.now)
    if checked.filterMap unaccounted? = [] then
      (checked.filterMap Except.toOption).map NodeCertificate.nodeKey
    else []
  | _ => []

/-- The first placement, made without offers, takes nodes of distinct ids only. -/
def PlacedApart (p : Platform) (job : PreparedJob) : Prop :=
  job.spec.admits = true ∨ ∀ plan ∈ job.plans, TakesDistinct p (plan.request job.redundancy) plan.choices

/-- No placement takes two nodes of one id, and no receipt is over one key twice. -/
def KeepsApart (p : Platform) (job : PreparedJob) (c : Config Nat Shared ShardState) :
    Event Nat ShardEvent ChainEvent → Prop
  | .own i (.place _) => ∀ plan ∈ job.plans[i]?, PlacesApart p job plan (c.locals i)
  | .own i .finish => ∀ plan ∈ job.plans[i]?, ∀ v ∈ (c.locals i).verification,
      (receiptKeys p job plan v).Nodup
  | _ => True

instance (p : Platform) (request : PlacementRequest) (nodes : List NodeDescriptor) :
    Decidable (TakesDistinct p request nodes) :=
  inferInstanceAs (Decidable (∀ redundancy ∈ request.redundancy.positiveInteger?,
    ((leastLoadedOf p request nodes redundancy).map NodeDescriptor.nodeId).Nodup))

instance (p : Platform) (job : PreparedJob) : Decidable (PlacedApart p job) :=
  inferInstanceAs (Decidable (_ ∨ _))

instance (p : Platform) (job : PreparedJob) (c : Config Nat Shared ShardState)
    (e : Event Nat ShardEvent ChainEvent) : Decidable (KeepsApart p job c e) :=
  match e with
  | .own i (.place _) => inferInstanceAs (Decidable (∀ plan ∈ job.plans[i]?,
      job.spec.admits = true ∨ TakesDistinct p
        (plan.request (wantedOf job (c.locals i).verification))
        (untried plan.gate.pool (c.locals i).attempted)))
  | .own i .finish => inferInstanceAs (Decidable (∀ plan ∈ job.plans[i]?,
      ∀ v ∈ (c.locals i).verification, (receiptKeys p job plan v).Nodup))
  | .own _ (.grant _ _ _) | .own _ (.answer _ _) | .own _ (.deliver _ _) | .own _ (.tick _ _)
  | .own _ (.probed _ _) | .own _ (.resume _ _) | .own _ .store | .own _ .record | .alone _ =>
    isTrue trivial

/-- A receipt is built exactly if its keys are distinct. -/
theorem attestationOf_eq_none (p : Platform) (job : PreparedJob) (plan : ShardPlan)
    (v : Verification) : attestationOf p job plan v = none ↔ ¬ (receiptKeys p job plan v).Nodup := by
  cases v with
  | agreed resultCid output agreeing replicas failures gross useful =>
    unfold attestationOf receiptKeys receiptFor
    dsimp only
    generalize agreeing.map (accountFor p _ _ _) = checked
    by_cases hnone : checked.filterMap unaccounted? = []
    · simp only [hnone, ne_eq, not_true_eq_false, false_or, if_true]
      split
      · next hempty => simp [hempty]
      · simp
    · rw [if_pos (Or.inl hnone), if_neg hnone]
      simp
  | disagreed => simp [attestationOf, receiptKeys]
  | insufficient => simp [attestationOf, receiptKeys]

/-- Everything a shard's nodes are, while its loop runs and in its result. -/
structure Distinct (p : Platform) (st : ShardState) : Prop where
  fresh : Fresh st
  gathers : Gathers st
  wellFormed : Throughout (VerificationResult.WellFormed p.canonicalCid) st
  built : st.phase ≠ .threw
  settled : ∀ shard, st.phase = .settled shard →
    shard.result.attempted.Nodup ∧ shard.result.verification.agreeingIds.Nodup ∧
      shard.result.verification.replicaCount = shard.result.verification.agreeingIds.length ∧
      shard.result.generations = st.generations

theorem agreeingIds_settledOf (ending : ShardEnding) (st : ShardState) :
    (settledOf plan ending st).agreeingIds = idsOf st.verification := by
  rw [settledOf]
  cases st.verification <;> rfl

/-- A shard throws only where its receipt does. -/
theorem shardStep_threw (h : shardStep p job plan event s st = some (s', st'))
    (hbefore : st.phase ≠ .threw) (hthrew : st'.phase = .threw) : event = .finish ∧
      ∃ ending, attestationOf p job plan (settledOf plan ending st) = none := by
  have htop : ∀ {race : Race} {at_ : ℚ}, race.top at_ ≠ .threw := by
    intro race at_
    rcases top_cases race at_ with ⟨-, heq⟩ | ⟨-, heq⟩ <;> rw [heq] <;> exact Phase.noConfusion
  cases event with
  | grant now startedAt at_ =>
    obtain ⟨nodeIds, -, ⟨_, -, -, rfl⟩ | ⟨lease, _, -, -, rfl⟩⟩ := grantStep_cases h
    · cases hthrew
    · exact absurd hthrew htop
  | answer k answer =>
    obtain ⟨nodeIds, speculative, v, -, -, -, -, rfl⟩ := answerStep_cases h
    exact absurd hthrew hbefore
  | deliver key at_ =>
    obtain ⟨race, k, flight, v, -, -, -, -, -, ⟨-, rfl⟩ | ⟨-, -, rfl⟩⟩ := deliverStep_cases h
    · cases hthrew
    · exact absurd hthrew htop
  | tick woke at_ =>
    obtain ⟨race, -, ⟨-, -, rfl⟩ | ⟨s₁, st₁, race₁, -, -, -, rfl | ⟨-, -, rfl⟩⟩⟩ :=
      tickStep_cases h
    · cases hthrew
    · exact absurd hthrew htop
    · cases hthrew
  | probed working at_ =>
    obtain ⟨race, woke, -, ⟨-, -, rfl⟩ | ⟨-, _, -, -, rfl⟩ | ⟨-, _, _, -, -, rfl⟩⟩ :=
      probedStep_cases h
    · exact absurd hthrew htop
    · cases hthrew
    · exact absurd hthrew htop
  | resume now at_ =>
    obtain ⟨r, -, ⟨_, -, -, rfl⟩ | ⟨v, outstanding, merged, -, -,
      ⟨-, ⟨-, -, rfl⟩ | ⟨-, -, rfl⟩⟩ | ⟨-, -, rfl⟩⟩⟩ := resumeStep_cases h
    all_goals cases hthrew
  | place ask =>
    obtain ⟨-, -, ⟨_, _, _, -, rfl⟩ | ⟨_, -, rfl⟩⟩ := placeStep_cases h
    all_goals cases hthrew
  | store =>
    obtain ⟨ending, _, _, _, _, _, _, _, -, -, -, rfl⟩ := storeStep_cases h
    cases hthrew
  | record =>
    obtain ⟨ending, _, -, -, ⟨-, -, rfl⟩ | ⟨-, -, rfl⟩⟩ := recordStep_cases h
    all_goals cases hthrew
  | finish =>
    obtain ⟨-, ending, -, rfl⟩ := finishStep_cases h
    rcases settle_cases p job plan ending st with ⟨hnone, -⟩ | ⟨_, -, heq⟩
    · exact ⟨rfl, ending, hnone⟩
    · rw [heq] at hthrew
      cases hthrew

theorem Distinct.step {c : Config Nat Shared ShardState} {i : Nat} (hst : Distinct p (c.locals i))
    (hplan : job.plans[i]? = some plan) (hapart : KeepsApart p job c (.own i event))
    (h : shardStep p job plan event c.shared (c.locals i) = some (s', st')) : Distinct p st' := by
  refine ⟨?_, hst.gathers.step hst.fresh h, ?_, fun hthrew => ?_, fun shard hphase => ?_⟩
  · refine hst.fresh.step (fun ask hevent => ?_) h
    subst hevent
    exact hapart plan hplan
  · exact (shardStep_effects h).invariant hst.wellFormed fun _ _ hall heffect =>
      hall.effect (fun _ _ => (verificationOf_from _ _ _ _).wellFormed)
        (fun _ _ => mergeVerifications_wellFormed) heffect
  · obtain ⟨rfl, ending, hnone⟩ := shardStep_threw h hst.built hthrew
    apply (attestationOf_eq_none p job plan _).mp hnone
    rw [settledOf]
    cases hv : (c.locals i).verification with
    | none => exact List.nodup_nil
    | some v => exact hapart plan hplan v hv
  · rcases shardStep_settled h hphase with ⟨hbefore, -, hgenerations, -, -⟩ |
      ⟨ending, attestation, rfl, rfl, -⟩
    · rw [hgenerations]
      exact hst.settled shard hbefore
    · have hids := @agreeingIds_settledOf plan ending (c.locals i)
      refine ⟨hst.fresh.nodup, ?_, ?_, rfl⟩
      · show (settledOf plan ending (c.locals i)).agreeingIds.Nodup
        rw [hids]
        exact hst.gathers.nodup.sublist (List.sublist_append_left _ _)
      · show (settledOf plan ending (c.locals i)).replicaCount
          = (settledOf plan ending (c.locals i)).agreeingIds.length
        rw [settledOf]
        cases hv : (c.locals i).verification with
        | none => rfl
        | some v => exact replicaCount_of_wellFormed (hst.wellFormed.verification v hv)

section

variable {spec : JobSpec} {options : SubmitOptions} {blocks : Blocks}
  {ask : Bool → Nat → Offer → Admission} {now : ℚ} {prepared : Prepared}
  {c : Config Nat Shared ShardState}

theorem distinct_start (hprepared : PreparedFrom p spec options ask prepared)
    (hplaced : PlacedApart p prepared.job) {i : Nat} (hplan : prepared.job.plans[i]? = some plan) :
    Distinct p (startShard plan) := by
  have hfresh : ∀ {rejections : List Rejection} {degraded : Bool} {phase : Phase},
      phase.inHand = none → phase.copies = .empty → phase ≠ .threw →
      (∀ nodeIds, phase = .granting nodeIds → nodeIds.Nodup) →
      (∀ shard, phase = .settled shard → shard.result.attempted.Nodup ∧
        shard.result.verification.agreeingIds.Nodup ∧
        shard.result.verification.replicaCount = shard.result.verification.agreeingIds.length ∧
        shard.result.generations = 0) →
      Throughout (VerificationResult.WellFormed p.canonicalCid)
        (freshShard rejections degraded phase) →
      Distinct p (freshShard rejections degraded phase) := by
    intro rejections degraded phase hinHand hcopies hbuilt hgranting hsettled hwellFormed
    have hgathered : gathered (freshShard rejections degraded phase) = [] := by
      rw [gathered]
      show idsOf none ++ idsOf phase.inHand = []
      rw [hinHand]
      rfl
    have hnocopy : ∀ key k, (freshShard rejections degraded phase).phase.copies.get? key ≠ some k := by
      intro key k hcopy
      change phase.copies.get? key = some k at hcopy
      rw [hcopies] at hcopy
      exact get?_empty_ne hcopy
    refine ⟨⟨rfl, List.nodup_nil, fun nodeIds hphase => ⟨hgranting nodeIds hphase, ?_⟩⟩, ?_,
      hwellFormed, hbuilt, hsettled⟩
    · exact fun _ _ => List.not_mem_nil
    · refine ⟨?_, ?_, fun key k hcopy => absurd hcopy (hnocopy key k),
        fun key _ k _ _ _ hcopy => absurd hcopy (hnocopy key k), List.forall_mem_nil _⟩
      · rw [hgathered]
        exact List.nodup_nil
      · rw [hgathered]
        exact List.forall_mem_nil _
  have hwellFormed := throughout_start (VerificationResult.WellFormed p.canonicalCid) plan
  unfold startShard at hwellFormed ⊢
  split
  · next hcarried =>
    rw [hcarried] at hwellFormed
    refine hfresh rfl rfl Phase.noConfusion (fun _ => Phase.noConfusion) ?_ hwellFormed
    rintro shard ⟨⟩
    exact ⟨List.nodup_nil, List.nodup_nil, rfl, rfl⟩
  · next hcarried =>
    rw [hcarried] at hwellFormed
    split
    · next hplacement =>
      rw [hplacement] at hwellFormed
      refine hfresh rfl rfl Phase.noConfusion (fun _ => Phase.noConfusion) ?_ hwellFormed
      rintro shard ⟨⟩
      exact ⟨List.nodup_nil, List.nodup_nil, rfl, rfl⟩
    · next nodeIds degraded hplacement =>
      rw [hplacement] at hwellFormed
      refine hfresh rfl rfl Phase.noConfusion (fun nodeIds' hphase => ?_)
        (fun _ => Phase.noConfusion) hwellFormed
      cases hphase
      refine (hprepared.placed hplan hplacement).2.2 ?_
      rw [← hprepared.fromSpec]
      exact hplaced.imp_right fun htakes => htakes plan (List.mem_of_getElem? hplan)

/-- In every run that keeps nodes apart. -/
theorem distinct_of_reaches (hprepared : PreparedFrom p spec options ask prepared)
    (hplaced : PlacedApart p prepared.job)
    (hreach : ReachesWhere p prepared (KeepsApart p prepared.job) c) {i : Nat}
    (hplan : prepared.job.plans[i]? = some plan) : Distinct p (c.locals i) := by
  apply eachShard hreach (I := fun _ _ st => Distinct p st) ?_ ?_ hplan
  · exact fun i plan hplan => distinct_start hprepared hplaced hplan
  · exact fun c i plan event s l hguard hplan hst hstep => hst.step hplan hguard hstep

end

/-- Two replicas of one public shard. -/
def pairedSpec (other : JsString) : JobSpec :=
  bareSpec [⟨.null, .pub⟩] [bareNode (js "k") (js "o"), bareNode other (js "o")] 2

/-- Both answer. -/
def pairedRun : List (Event Nat ShardEvent ChainEvent) :=
  [.own 0 (.grant 0 0 0), .own 0 (.answer 0 (.verified [answers, answers])),
    .own 0 (.deliver (js "k") 1), .own 0 (.resume 1 1), .own 0 .store, .own 0 .record,
    .own 0 .finish]

end O2Fabric.Submit
