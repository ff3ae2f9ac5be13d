/-
  O2Fabric.Core.Placement.Exhaustive

  The offer loop without a bound on its rounds.  A round takes the node it asks
  out of the pool under its id, so the loop ends, asks no id twice, and where it
  ends short of what is wanted it has asked every id there was.  The answers have
  no say in it.
-/

import O2Fabric.Core.Placement

namespace O2Fabric

/-- The number of nodes asked. -/
def OfferedPlacement.probed : OfferedPlacement → Nat
  | .placed _ _ _ probed => probed
  | .unplaceable _ _ probed => probed

section

variable (p : Platform) {σ : Type} (shardId : JsString) (d redundancy : Nat)
  (admission : σ → Offer → Admission × σ)

/-- One round of the loop: the node asked, the pool left and the locals after its
    answer.  There is none where the loop is left. -/
def offerRound (pool : List NodeDescriptor) (run : Offering σ) :
    Option (NodeDescriptor × List NodeDescriptor × Offering σ) :=
  if run.chosen.length < redundancy ∧ pool ≠ [] then
    (leastLoaded p (sampleCandidates p shardId pool d)).map fun candidate =>
      (candidate, pool.filter fun node => decide (node.nodeId ≠ candidate.nodeId),
        run.told candidate.nodeId (admission run.state ⟨shardId, candidate.nodeId⟩))
  else none

/-- The loop from a pool and its locals is left with other locals, after asking
    these nodes in this order. -/
inductive OfferRun :
    List NodeDescriptor → Offering σ → List NodeDescriptor → Offering σ → Prop
  | left {pool run} (h : offerRound p shardId d redundancy admission pool run = none) :
      OfferRun pool run [] run
  | asked {pool run candidate rest next offered last}
      (h : offerRound p shardId d redundancy admission pool run = some (candidate, rest, next))
      (more : OfferRun rest next offered last) :
      OfferRun pool run (candidate :: offered) last

end

section

variable {p : Platform} {σ : Type} {shardId : JsString} {d redundancy : Nat}
  {admission : σ → Offer → Admission × σ} {pool : List NodeDescriptor} {run : Offering σ}

/-! ## One round -/

theorem offerRound_eq_some {candidate : NodeDescriptor} {rest : List NodeDescriptor}
    {next : Offering σ}
    (h : offerRound p shardId d redundancy admission pool run = some (candidate, rest, next)) :
    run.chosen.length < redundancy ∧
    leastLoaded p (sampleCandidates p shardId pool d) = some candidate ∧ candidate ∈ pool ∧
    rest = pool.filter (fun node => decide (node.nodeId ≠ candidate.nodeId)) ∧
    next = run.told candidate.nodeId (admission run.state ⟨shardId, candidate.nodeId⟩) := by
  unfold offerRound at h
  split at h
  · next hgoes =>
    obtain ⟨found, hfound, heq⟩ := Option.map_eq_some_iff.mp h
    cases heq
    have hin := mem_of_mem_sampleCandidates (mem_of_leastLoaded hfound)
    exact ⟨hgoes.1, hfound, hin, rfl, rfl⟩
  · cases h

theorem offerRound_eq_none (hd : 0 < d) :
    offerRound p shardId d redundancy admission pool run = none ↔
      redundancy ≤ run.chosen.length ∨ pool = [] := by
  unfold offerRound
  split
  · next hgoes =>
    -- a pool that is not empty has a node to sample
    rw [Option.map_eq_none_iff]
    constructor
    · intro hnone
      exact absurd (leastLoaded_eq_none hnone) (sampleCandidates_ne_nil hd hgoes.2)
    · rintro (henough | hempty)
      · exact absurd hgoes.1 (Nat.not_lt.mpr henough)
      · exact absurd hempty hgoes.2
  · next hleft =>
    rw [not_and_or, not_not, Nat.not_lt] at hleft
    simp [hleft]

/-- An answer is an acceptance or a rejection, and one more node was asked. -/
theorem told_entered (run : Offering σ) (nodeId : JsString) (answer : Admission × σ) :
    ((run.told nodeId answer).chosen ++ (run.told nodeId answer).rejections.map
      Rejection.nodeId).Perm (nodeId :: (run.chosen ++ run.rejections.map Rejection.nodeId)) ∧
    (run.told nodeId answer).probed = run.probed + 1 := by
  rw [Offering.told]
  split
  · refine ⟨?_, rfl⟩
    rw [List.append_assoc]
    exact List.perm_middle
  · refine ⟨?_, rfl⟩
    rw [List.map_append, ← List.append_assoc]
    exact List.perm_append_singleton _ _

/-! ## A whole run -/

variable {offered : List NodeDescriptor} {last : Offering σ}

theorem offerRun_offerRounds (hd : 0 < d) (fuel : Nat) (pool : List NodeDescriptor)
    (run : Offering σ) (hfuel : pool.length ≤ fuel) :
    ∃ offered, OfferRun p shardId d redundancy admission pool run offered
      (offerRounds p shardId d redundancy admission fuel pool run) := by
  induction fuel generalizing pool run with
  | zero =>
    have hempty : pool = [] := List.eq_nil_of_length_eq_zero (Nat.le_zero.mp hfuel)
    exact ⟨[], .left ((offerRound_eq_none hd).mpr (Or.inr hempty))⟩
  | succ fuel ih =>
    rw [offerRounds]
    by_cases hwanted : run.chosen.length < redundancy
    · rw [if_pos hwanted]
      split
      · next hnone =>
        have hempty : pool = [] := by
          by_contra hsome
          exact sampleCandidates_ne_nil hd hsome (leastLoaded_eq_none hnone)
        exact ⟨[], .left ((offerRound_eq_none hd).mpr (Or.inr hempty))⟩
      · next candidate hcandidate =>
        have hin := mem_of_mem_sampleCandidates (mem_of_leastLoaded hcandidate)
        -- the node asked is not in the pool that is left
        have hshorter : (pool.filter fun node =>
            decide (node.nodeId ≠ candidate.nodeId)).length < pool.length := by
          apply List.length_filter_lt_length_iff_exists.mpr
          exact ⟨candidate, hin, by simp⟩
        obtain ⟨offered, hrun⟩ := ih _
          (run.told candidate.nodeId (admission run.state ⟨shardId, candidate.nodeId⟩))
          (Nat.le_of_lt_succ (Nat.lt_of_lt_of_le hshorter hfuel))
        refine ⟨candidate :: offered, .asked ?_ hrun⟩
        rw [offerRound, if_pos ⟨hwanted, List.ne_nil_of_mem hin⟩, hcandidate]
        rfl
    · rw [if_neg hwanted]
      exact ⟨[], .left ((offerRound_eq_none hd).mpr (Or.inl (Nat.le_of_not_lt hwanted)))⟩

theorem OfferRun.unique (h : OfferRun p shardId d redundancy admission pool run offered last)
    {offered' : List NodeDescriptor} {last' : Offering σ}
    (h' : OfferRun p shardId d redundancy admission pool run offered' last') :
    offered' = offered ∧ last' = last := by
  induction h generalizing offered' with
  | left hnone =>
    cases h' with
    | left _ => exact ⟨rfl, rfl⟩
    | asked hsome _ => rw [hnone] at hsome; cases hsome
  | asked hsome _ ih =>
    cases h' with
    | left hnone => rw [hsome] at hnone; cases hnone
    | asked hsome' more =>
      rw [hsome] at hsome'
      cases hsome'
      obtain ⟨rfl, rfl⟩ := ih more
      exact ⟨rfl, rfl⟩

/-- The nodes asked are of the pool, and no two of one id. -/
theorem OfferRun.offered_once
    (h : OfferRun p shardId d redundancy admission pool run offered last) :
    (∀ node ∈ offered, node ∈ pool) ∧ (offered.map NodeDescriptor.nodeId).Nodup := by
  induction h with
  | left _ => exact ⟨List.forall_mem_nil _, List.nodup_nil⟩
  | @asked pool run candidate rest next offered last hsome _ ih =>
    obtain ⟨-, -, hin, rfl, -⟩ := offerRound_eq_some hsome
    obtain ⟨hfrom, hnodup⟩ := ih
    constructor
    · rw [List.forall_mem_cons]
      exact ⟨hin, fun node hnode => List.mem_of_mem_filter (hfrom node hnode)⟩
    · -- no other node with the id of the candidate is left
      rw [List.map_cons, List.nodup_cons]
      refine ⟨fun hagain => ?_, hnodup⟩
      obtain ⟨node, hnode, hsame⟩ := List.mem_map.mp hagain
      exact of_decide_eq_true (List.mem_filter.mp (hfrom node hnode)).2 hsame

/-- Every node asked has answered, one way or the other. -/
theorem OfferRun.entered (h : OfferRun p shardId d redundancy admission pool run offered last) :
    (last.chosen ++ last.rejections.map Rejection.nodeId).Perm
      (offered.map NodeDescriptor.nodeId ++ (run.chosen ++ run.rejections.map Rejection.nodeId)) ∧
    last.probed = run.probed + offered.length := by
  induction h with
  | left _ => exact ⟨.refl _, rfl⟩
  | @asked pool run candidate rest next offered last hsome _ ih =>
    obtain ⟨-, -, -, -, rfl⟩ := offerRound_eq_some hsome
    obtain ⟨htold, hone⟩ := told_entered run candidate.nodeId
      (admission run.state ⟨shardId, candidate.nodeId⟩)
    obtain ⟨hperm, hprobed⟩ := ih
    constructor
    · refine hperm.trans ((htold.append_left _).trans ?_)
      exact List.perm_middle
    · rw [hprobed, hone, List.length_cons]
      omega

/-- A run that ends short of what is wanted has asked every id of the pool. -/
theorem OfferRun.exhausts (hd : 0 < d)
    (h : OfferRun p shardId d redundancy admission pool run offered last)
    (hshort : last.chosen.length < redundancy) :
    ∀ node ∈ pool, node.nodeId ∈ offered.map NodeDescriptor.nodeId := by
  induction h with
  | left hnone =>
    rcases (offerRound_eq_none hd).mp hnone with henough | rfl
    · exact absurd hshort (Nat.not_lt.mpr henough)
    · exact List.forall_mem_nil _
  | @asked pool run candidate rest next offered last hsome _ ih =>
    obtain ⟨-, -, -, rfl, -⟩ := offerRound_eq_some hsome
    intro node hnode
    rw [List.map_cons, List.mem_cons]
    by_cases hsame : node.nodeId = candidate.nodeId
    · exact Or.inl hsame
    · exact Or.inr (ih hshort node (List.mem_filter.mpr ⟨hnode, decide_eq_true hsame⟩))

end

/-! ## The placement -/

/-- What a placement reports is what the run over the eligible nodes ended with. -/
theorem placeWithOffers_reports {p : Platform} {σ : Type} {request : PlacementRequest}
    {nodes : List NodeDescriptor} {d redundancy : Nat} {admission : σ → Offer → Admission × σ}
    {state : σ} (hd : MIN_D ≤ d ∧ d ≤ MAX_D)
    (hredundancy : request.redundancy.positiveInteger? = some redundancy)
    {last : Offering σ} (hlast : offerRounds p request.shardId d redundancy admission
      (eligibleNodes request nodes).length (eligibleNodes request nodes) ⟨[], [], 0, state⟩
        = last) :
    (placeWithOffers p request nodes d admission state).1.nodeIds = last.chosen ∧
    (placeWithOffers p request nodes d admission state).1.rejections = last.rejections ∧
    (placeWithOffers p request nodes d admission state).1.probed = last.probed := by
  have hrange : ¬ (d < MIN_D ∨ MAX_D < d) := by omega
  unfold placeWithOffers
  rw [if_neg hrange, hredundancy]
  dsimp only
  by_cases hempty : eligibleNodes request nodes = []
  · rw [if_pos hempty, ← hlast, hempty]
    exact ⟨rfl, rfl, rfl⟩
  · rw [if_neg hempty, hlast]
    by_cases hnone : last.chosen = []
    · rw [if_pos hnone, hnone]
      exact ⟨rfl, rfl, rfl⟩
    · rw [if_neg hnone]
      exact ⟨rfl, rfl, rfl⟩

/-- A placement by offers ends whatever the nodes answer.  It asks eligible nodes
    only, none of them twice, and all of them where it ends short; every one asked
    is placed on or has refused. -/
theorem placeWithOffers_exhausts (p : Platform) {σ : Type} (request : PlacementRequest)
    (nodes : List NodeDescriptor) {d redundancy : Nat} (hd : MIN_D ≤ d ∧ d ≤ MAX_D)
    (hredundancy : request.redundancy.positiveInteger? = some redundancy)
    (admission : σ → Offer → Admission × σ) (state : σ)
    {placement : OfferedPlacement}
    (hplacement : (placeWithOffers p request nodes d admission state).1 = placement) :
    ∃ offered last,
      OfferRun p request.shardId d redundancy admission (eligibleNodes request nodes)
        ⟨[], [], 0, state⟩ offered last ∧
      (∀ offered' last', OfferRun p request.shardId d redundancy admission
        (eligibleNodes request nodes) ⟨[], [], 0, state⟩ offered' last' →
          offered' = offered ∧ last' = last) ∧
      placement.nodeIds = last.chosen ∧ placement.rejections = last.rejections ∧
      placement.probed = last.probed ∧
      (offered.map NodeDescriptor.nodeId).Nodup ∧
      (∀ node ∈ offered, node ∈ eligibleNodes request nodes) ∧
      placement.nodeIds.Nodup ∧
      placement.probed = offered.length ∧
      placement.probed = placement.nodeIds.length + placement.rejections.length ∧
      (placement.nodeIds.length < redundancy →
        ∀ node ∈ eligibleNodes request nodes,
          node.nodeId ∈ offered.map NodeDescriptor.nodeId) ∧
      (request.label = .sovereign → ∀ node ∈ offered,
        request.ownerId = some node.ownerId ∧ node.canExecuteSovereign = true) := by
  have hpos : 0 < d := Nat.lt_of_lt_of_le Nat.two_pos hd.1
  obtain ⟨offered, hrun⟩ : ∃ offered, OfferRun p request.shardId d redundancy admission
      (eligibleNodes request nodes) ⟨[], [], 0, state⟩ offered _ :=
    offerRun_offerRounds hpos _ _ _ (Nat.le_refl (eligibleNodes request nodes).length)
  generalize hlast : offerRounds p request.shardId d redundancy admission
    (eligibleNodes request nodes).length (eligibleNodes request nodes) ⟨[], [], 0, state⟩ = last
    at hrun
  obtain ⟨hnodeIds, hrejections, hprobed⟩ := placeWithOffers_reports hd hredundancy hlast
  rw [hplacement] at hnodeIds hrejections hprobed
  obtain ⟨hfrom, honce⟩ := hrun.offered_once
  obtain ⟨hentered, hcount⟩ := hrun.entered
  rw [List.map_nil, List.append_nil, List.append_nil] at hentered
  rw [Nat.zero_add] at hcount
  have hchosen : last.chosen.Nodup :=
    (hentered.nodup_iff.mpr honce).sublist (List.sublist_append_left _ _)
  have hlength := hentered.length_eq
  rw [List.length_append, List.length_map, List.length_map] at hlength
  refine ⟨offered, last, hrun, fun _ _ h => hrun.unique h, hnodeIds, hrejections, hprobed, honce,
    hfrom, hnodeIds ▸ hchosen, hprobed.trans hcount, ?_, ?_, ?_⟩
  · rw [hprobed, hnodeIds, hrejections, hcount, hlength]
  · rw [hnodeIds]
    exact hrun.exhausts hpos
  · intro hlabel node hnode
    exact (mem_eligibleNodes (hfrom node hnode)).2 hlabel

/-- An owner's node that is listed twice, one that another owner has, and one that
    cannot run sovereign work. -/
def ownersNodes : List NodeDescriptor :=
  [⟨js "m", js "o", true, 1, none⟩, ⟨js "n", js "o", true, 0, none⟩,
    ⟨js "n", js "o", true, 2, none⟩, ⟨js "q", js "z", true, 0, none⟩,
    ⟨js "r", js "o", false, 0, none⟩]

def refusesFirst (asked : Nat) (_ : Offer) : Admission × Nat :=
  if asked = 0 then (.refused (js "busy") none .decliningThisOffer, 1)
  else (.accepted none, asked + 1)

theorem placeWithOffers_exhausts_owner :
    (placeWithOffers plain ⟨js "s", .sovereign, some (js "o"), .finite 3⟩ ownersNodes 2
      refusesFirst 0).1.nodeIds = [js "n"] ∧
    ∃ offered last, OfferRun plain (js "s") 2 3 refusesFirst
        (eligibleNodes ⟨js "s", .sovereign, some (js "o"), .finite 3⟩ ownersNodes)
        ⟨[], [], 0, 0⟩ offered last ∧
      (offered.map NodeDescriptor.nodeId).Nodup ∧
      js "m" ∈ offered.map NodeDescriptor.nodeId ∧ js "n" ∈ offered.map NodeDescriptor.nodeId := by
  have hplaced : (placeWithOffers plain ⟨js "s", .sovereign, some (js "o"), .finite 3⟩ ownersNodes 2
      refusesFirst 0).1.nodeIds = [js "n"] := by
    decide
  refine ⟨hplaced, ?_⟩
  obtain ⟨offered, last, hrun, -, -, -, -, honce, -, -, -, -, hall, -⟩ :=
    placeWithOffers_exhausts plain ⟨js "s", .sovereign, some (js "o"), .finite 3⟩ ownersNodes
      (show MIN_D ≤ 2 ∧ 2 ≤ MAX_D by decide) (show JsNumber.positiveInteger? (.finite 3) = some 3
        from rfl) refusesFirst 0 rfl
  have hshort := hall (by rw [hplaced]; decide)
  exact ⟨offered, last, hrun, honce, hshort ⟨js "m", js "o", true, 1, none⟩ (.head _),
    hshort ⟨js "n", js "o", true, 0, none⟩ (.tail _ (.head _))⟩

end O2Fabric
