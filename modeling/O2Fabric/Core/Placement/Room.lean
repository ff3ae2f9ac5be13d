/-
  O2Fabric.Core.Placement.Room

  How many shards of one plan a node gets that states the same room in every
  answer.  The tally is overwritten from each answer before the acceptance is
  taken off it, so it never falls below the stated room less one: a node with
  room for one is closed by the first shard it accepts, and a node with room for
  more stays open for every shard of the plan.
-/

import O2Fabric.Core.Capacity

namespace O2Fabric

/-! ## Nodes that answer the same throughout -/

/-- Every node states one capacity in all its answers, and accepts while that has
    room. -/
structure ReservesNothing (capacity : JsString → NodeCapacity) (ask : Nat → Offer → Admission) :
    Prop where
  accepts : ∀ k offer, (capacity offer.nodeId).inFlight < (capacity offer.nodeId).slots →
    ask k offer = .accepted (some (capacity offer.nodeId))
  refuses : ∀ k offer, ¬ (capacity offer.nodeId).inFlight < (capacity offer.nodeId).slots →
    ∃ reason standing, ask k offer = .refused reason (some (capacity offer.nodeId)) standing

def roomOf (capacity : JsString → NodeCapacity) (nodeId : JsString) : ℚ :=
  (capacity nodeId).slots - (capacity nodeId).inFlight

def shardsOn (nodeId : JsString) (plan : List OfferedPlacement) : Nat :=
  plan.countP fun placement => decide (nodeId ∈ placement.nodeIds)

/-- Nodes that run nothing and answer through `would`. -/
theorem reservesNothing_would (p : Platform) (nodes : JsString → LocalCapacity)
    (hidle : ∀ nodeId, (nodes nodeId).inFlight = ∅) :
    ReservesNothing (fun nodeId => (nodes nodeId).capacity)
      fun _ offer => (nodes offer.nodeId).would p offer := by
  have hfresh : ∀ offer : Offer, offer.shardId ∉ (nodes offer.nodeId).inFlight := by
    intro offer
    rw [hidle]
    exact Finset.notMem_empty _
  constructor
  · intro _ offer hroom
    have hslots : ¬ (nodes offer.nodeId).slots ≤ (nodes offer.nodeId).inFlight.card := by
      have hroom : (((nodes offer.nodeId).inFlight.card : Nat) : ℚ) < (nodes offer.nodeId).slots :=
        hroom
      exact Nat.not_le.mpr (by exact_mod_cast hroom)
    simp only [LocalCapacity.would, LocalCapacity.decision, if_neg (hfresh offer), if_neg hslots]
  · intro _ offer hfull
    have hslots : (nodes offer.nodeId).slots ≤ (nodes offer.nodeId).inFlight.card := by
      have hfull : ¬ (((nodes offer.nodeId).inFlight.card : Nat) : ℚ) < (nodes offer.nodeId).slots :=
        hfull
      exact Nat.not_lt.mp (by exact_mod_cast hfull)
    simp only [LocalCapacity.would, LocalCapacity.decision, if_neg (hfresh offer), if_pos hslots]
    exact ⟨_, _, rfl⟩

section

variable {capacity : JsString → NodeCapacity} {ask : Nat → Offer → Admission}
  {nodeId : JsString} {s : Standing}

theorem roomOf_pos : 0 < roomOf capacity nodeId ↔
    (capacity nodeId).inFlight < (capacity nodeId).slots := by
  unfold roomOf
  exact (Rat.lt_iff_sub_pos _ _).symm

/-! ## What one answer does to the tally -/

theorem recording_isOpen_of_ne (ask : Nat → Offer → Admission) (s : Standing) {offer : Offer}
    (hne : nodeId ≠ offer.nodeId) :
    (recording ask s offer).2.isOpen nodeId = s.isOpen nodeId := by
  have hset : ∀ (m : InsertionMap JsString (Option ℚ)) (room : Option ℚ),
      (m.set offer.nodeId room).get? nodeId = m.get? nodeId := by
    intro m room
    rw [InsertionMap.get?_set, if_neg hne]
  have hstated : ∀ c, ((s.stated offer.nodeId c).headroom.get? nodeId) = s.headroom.get? nodeId ∧
      (s.stated offer.nodeId c).stoodDown = s.stoodDown := by
    rintro (_ | c)
    · exact ⟨rfl, rfl⟩
    · exact ⟨hset _ _, rfl⟩
  show (decide (nodeId ∉ (s.heard offer.nodeId (ask s.asked offer)).stoodDown) &&
    (((s.heard offer.nodeId (ask s.asked offer)).headroom.get? nodeId).join).all
      fun room => decide (0 < room)) = _
  cases ask s.asked offer with
  | accepted c =>
    obtain ⟨hroom, hout⟩ := hstated c
    show (decide (nodeId ∉ (s.stated offer.nodeId c).stoodDown) &&
      ((((s.stated offer.nodeId c).headroom.set offer.nodeId _).get? nodeId).join).all _) = _
    rw [hset, hroom, hout]
    rfl
  | refused reason c standing =>
    obtain ⟨hroom, hout⟩ := hstated c
    cases standing with
    | decliningThisOffer =>
      show (decide (nodeId ∉ (s.stated offer.nodeId c).stoodDown) &&
        (((s.stated offer.nodeId c).headroom.get? nodeId).join).all _) = _
      rw [hroom, hout]
      rfl
    | decliningAllWork =>
      have hmem : (nodeId ∉ s.stoodDown ++ [offer.nodeId]) ↔ nodeId ∉ s.stoodDown := by
        simp [hne]
      show (decide (nodeId ∉ (s.stated offer.nodeId c).stoodDown ++ [offer.nodeId]) &&
        (((s.stated offer.nodeId c).headroom.get? nodeId).join).all _) = _
      rw [hroom, hout, decide_eq_decide.mpr hmem]
      rfl

/-- A node with room accepts, and is open afterwards if it had room for two. -/
theorem recording_accepted (hask : ReservesNothing capacity ask) (s : Standing) (offer : Offer)
    (hroom : 0 < roomOf capacity offer.nodeId) :
    (recording ask s offer).1 = .accepted (some (capacity offer.nodeId)) ∧
    (recording ask s offer).2.isOpen offer.nodeId
      = (decide (offer.nodeId ∉ s.stoodDown) && decide (1 < roomOf capacity offer.nodeId)) := by
  have hanswer := hask.accepts s.asked offer (roomOf_pos.mp hroom)
  refine ⟨hanswer, ?_⟩
  have htally : ((s.heard offer.nodeId (.accepted (some (capacity offer.nodeId)))).headroom.get?
      offer.nodeId).join = some (max 0 (max 0 (roomOf capacity offer.nodeId) - 1)) := by
    unfold Standing.heard Standing.stated Standing.room
    dsimp only
    rw [InsertionMap.get?_set_self, InsertionMap.get?_set_self]
    rfl
  show (decide (offer.nodeId ∉ (s.heard offer.nodeId (ask s.asked offer)).stoodDown) &&
    (((s.heard offer.nodeId (ask s.asked offer)).headroom.get? offer.nodeId).join).all
      fun room => decide (0 < room)) = _
  rw [hanswer, htally, max_eq_right (le_of_lt hroom)]
  have hpos : 0 < max 0 (roomOf capacity offer.nodeId - 1) ↔ 1 < roomOf capacity offer.nodeId := by
    rw [lt_max_iff]
    rw [← Rat.lt_iff_sub_pos]
    exact or_iff_right (lt_irrefl 0)
  show (decide (offer.nodeId ∉ s.stoodDown) && decide (0 < max 0 _)) = _
  rw [decide_eq_decide.mpr hpos]

/-- A node without room refuses. -/
theorem recording_refused (hask : ReservesNothing capacity ask) (s : Standing) (offer : Offer)
    (hfull : ¬ 0 < roomOf capacity offer.nodeId) :
    ∃ reason standing,
      (recording ask s offer).1 = .refused reason (some (capacity offer.nodeId)) standing :=
  hask.refuses s.asked offer fun hroom => hfull (roomOf_pos.mpr hroom)

/-- A node with room for one at most that is closed stays closed. -/
theorem recording_keeps_closed (hask : ReservesNothing capacity ask)
    (hpos : 0 < roomOf capacity nodeId) (hone : roomOf capacity nodeId ≤ 1) (offer : Offer)
    (hclosed : s.isOpen nodeId = false) : (recording ask s offer).2.isOpen nodeId = false := by
  by_cases hsame : nodeId = offer.nodeId
  · subst hsame
    rw [(recording_accepted hask s _ hpos).2, decide_eq_false (not_lt.mpr hone), Bool.and_false]
  · rw [recording_isOpen_of_ne ask s hsame]
    exact hclosed

/-- A node with room for more that is open stays open. -/
theorem recording_keeps_open (hask : ReservesNothing capacity ask)
    (hmore : 1 < roomOf capacity nodeId) (offer : Offer) (hopen : s.isOpen nodeId = true) :
    (recording ask s offer).2.isOpen nodeId = true := by
  by_cases hsame : nodeId = offer.nodeId
  · subst hsame
    have hin : decide (offer.nodeId ∉ s.stoodDown) = true := (Bool.and_eq_true_iff.mp hopen).1
    have hpos : 0 < roomOf capacity offer.nodeId := lt_trans (by decide) hmore
    rw [(recording_accepted hask s _ hpos).2, hin, decide_eq_true hmore]
    rfl
  · rw [recording_isOpen_of_ne ask s hsame]
    exact hopen

/-! ## What one request does -/

variable {p : Platform} {σ : Type} {shardId : JsString} {d redundancy : Nat}

/-- What every answer entered keeps, the loop keeps. -/
theorem offerRounds_invariant {admission : σ → Offer → Admission × σ} {Q : Offering σ → Prop}
    (hkeep : ∀ run nodeId, Q run →
      Q (run.told nodeId (admission run.state ⟨shardId, nodeId⟩))) (fuel : Nat)
    (pool : List NodeDescriptor) (run : Offering σ) (hrun : Q run) :
    Q (offerRounds p shardId d redundancy admission fuel pool run) := by
  induction fuel generalizing pool run with
  | zero => exact hrun
  | succ fuel ih =>
    rw [offerRounds]
    split
    · split
      · exact hrun
      · exact ih _ _ (hkeep _ _ hrun)
    · exact hrun

theorem told_state (run : Offering σ) (nodeId : JsString) (answer : Admission × σ) :
    (run.told nodeId answer).state = answer.2 := by
  rw [Offering.told]
  split <;> rfl

/-- A node without room is never chosen. -/
theorem offerRounds_never (hask : ReservesNothing capacity ask)
    (hfull : ¬ 0 < roomOf capacity nodeId) (fuel : Nat) (pool : List NodeDescriptor)
    (run : Offering Standing) (hrun : nodeId ∉ run.chosen) :
    nodeId ∉ (offerRounds p shardId d redundancy (recording ask) fuel pool run).chosen := by
  refine offerRounds_invariant (Q := fun run => nodeId ∉ run.chosen) ?_ fuel pool run hrun
  intro run asked hrun
  by_cases hsame : nodeId = asked
  · subst hsame
    obtain ⟨reason, standing, hrefused⟩ :=
      recording_refused hask run.state ⟨shardId, nodeId⟩ hfull
    rw [Offering.told, hrefused]
    exact hrun
  · rcases told_chosen run asked (recording ask run.state ⟨shardId, asked⟩) with heq | heq
    · rw [heq]
      exact hrun
    · rw [heq, List.mem_append, List.mem_singleton, not_or]
      exact ⟨hrun, hsame⟩

/-- A node with room for one at most is closed once it is chosen. -/
theorem offerRounds_closes (hask : ReservesNothing capacity ask) (hpos : 0 < roomOf capacity nodeId)
    (hone : roomOf capacity nodeId ≤ 1) (fuel : Nat) (pool : List NodeDescriptor)
    (run : Offering Standing) (hrun : nodeId ∈ run.chosen → run.state.isOpen nodeId = false) :
    nodeId ∈ (offerRounds p shardId d redundancy (recording ask) fuel pool run).chosen →
      (offerRounds p shardId d redundancy (recording ask) fuel pool run).state.isOpen nodeId
        = false := by
  refine offerRounds_invariant (Q := fun run => nodeId ∈ run.chosen →
    run.state.isOpen nodeId = false) ?_ fuel pool run hrun
  intro run asked hrun hin
  rw [told_state]
  by_cases hsame : nodeId = asked
  · subst hsame
    rw [(recording_accepted hask run.state ⟨shardId, nodeId⟩ hpos).2,
      decide_eq_false (not_lt.mpr hone), Bool.and_false]
  · rw [recording_isOpen_of_ne ask run.state hsame]
    apply hrun
    rcases told_chosen run asked (recording ask run.state ⟨shardId, asked⟩) with heq | heq
    · rwa [heq] at hin
    · rw [heq, List.mem_append, List.mem_singleton] at hin
      exact hin.resolve_right hsame

/-- Where more replicas are asked for than there are nodes, every node of the pool
    that has room is chosen. -/
theorem offerRounds_takes (hask : ReservesNothing capacity ask) (hpos : 0 < roomOf capacity nodeId)
    (hd : 0 < d) (fuel : Nat) (pool : List NodeDescriptor) (run : Offering Standing)
    (hfuel : pool.length ≤ fuel) (hmany : run.chosen.length + pool.length ≤ redundancy)
    (hin : nodeId ∈ run.chosen ∨ ∃ node ∈ pool, node.nodeId = nodeId) :
    nodeId ∈ (offerRounds p shardId d redundancy (recording ask) fuel pool run).chosen := by
  induction fuel generalizing pool run with
  | zero =>
    have hnil : pool = [] := List.length_eq_zero_iff.mp (Nat.le_zero.mp hfuel)
    rcases hin with hin | ⟨node, hnode, -⟩
    · exact hin
    · rw [hnil] at hnode
      cases hnode
  | succ fuel ih =>
    rcases hin with hin | ⟨node, hnode, hid⟩
    · -- what is chosen stays chosen
      obtain ⟨added, hchosen, -⟩ :=
        offerRounds_chosen p shardId d redundancy (recording ask) (fuel + 1) pool run
      rw [hchosen]
      exact List.mem_append_left _ hin
    · have hlength := List.length_pos_of_mem hnode
      rw [offerRounds, if_pos (by omega)]
      split
      · next hnone =>
        have hempty := leastLoaded_eq_none hnone
        exact absurd hempty (sampleCandidates_ne_nil hd (List.ne_nil_of_mem hnode))
      · next candidate hcandidate =>
        have hcandidate := mem_of_mem_sampleCandidates (mem_of_leastLoaded hcandidate)
        have hfewer : (pool.filter fun node =>
            decide (node.nodeId ≠ candidate.nodeId)).length < pool.length := by
          apply List.length_filter_lt_length_iff_exists.mpr
          exact ⟨candidate, hcandidate, by simp⟩
        have hgrown : (run.told candidate.nodeId
            (recording ask run.state ⟨shardId, candidate.nodeId⟩)).chosen.length
              ≤ run.chosen.length + 1 := by
          rcases told_chosen run candidate.nodeId
            (recording ask run.state ⟨shardId, candidate.nodeId⟩) with heq | heq
          · rw [heq]
            omega
          · rw [heq, List.length_append, List.length_singleton]
        apply ih
        · omega
        · omega
        · by_cases hsame : node.nodeId = candidate.nodeId
          · left
            have haccepted := (recording_accepted hask run.state
              ⟨shardId, candidate.nodeId⟩
              (show 0 < roomOf capacity candidate.nodeId by rwa [← hsame, hid])).1
            rw [Offering.told, haccepted, ← hsame, hid]
            exact List.mem_append_right _ List.mem_cons_self
          · right
            exact ⟨node, List.mem_filter.mpr ⟨hnode, decide_eq_true hsame⟩, hid⟩

/-- A placement by offers is a run of the offer loop over some of the nodes, or
    nothing at all. -/
theorem placeWithOffers_run (request : PlacementRequest) (nodes : List NodeDescriptor) (d : Nat)
    (admission : σ → Offer → Admission × σ) (state : σ) :
    ∃ redundancy fuel pool, (∀ node ∈ pool, node ∈ nodes) ∧
      (placeWithOffers p request nodes d admission state).1.nodeIds
        = (offerRounds p request.shardId d redundancy admission fuel pool
            ⟨[], [], 0, state⟩).chosen ∧
      (placeWithOffers p request nodes d admission state).2
        = (offerRounds p request.shardId d redundancy admission fuel pool
            ⟨[], [], 0, state⟩).state := by
  unfold placeWithOffers
  split
  · exact ⟨0, 0, [], List.forall_mem_nil _, rfl, rfl⟩
  · split
    · exact ⟨0, 0, [], List.forall_mem_nil _, rfl, rfl⟩
    · next redundancy hredundancy =>
      dsimp only
      split
      · exact ⟨0, 0, [], List.forall_mem_nil _, rfl, rfl⟩
      · refine ⟨redundancy, (eligibleNodes request nodes).length, eligibleNodes request nodes,
          fun node hnode => (eligibleNodes_sublist request nodes).subset hnode, ?_⟩
        split
        · next hnone =>
          rw [hnone]
          exact ⟨rfl, rfl⟩
        · exact ⟨rfl, rfl⟩

/-! ## What a whole plan does -/

theorem shardsOn_cons (nodeId : JsString) (placement : OfferedPlacement)
    (plan : List OfferedPlacement) :
    shardsOn nodeId (placement :: plan)
      = shardsOn nodeId plan + if nodeId ∈ placement.nodeIds then 1 else 0 := by
  unfold shardsOn
  rw [List.countP_cons]
  simp

variable {nodes : List NodeDescriptor}

/-- A node outside the list gets no shard. -/
theorem shardsOn_outside {requests : List PlacementRequest}
    (hout : ∀ node ∈ nodes, node.nodeId ≠ nodeId) :
    shardsOn nodeId (planFrom p nodes d ask s requests) = 0 := by
  unfold shardsOn
  rw [List.countP_eq_zero]
  intro placement hplacement
  obtain ⟨k, hk⟩ := List.mem_iff_getElem?.mp hplacement
  rw [decide_eq_true_eq]
  cases placement with
  | unplaceable reason rejections probed => exact List.not_mem_nil
  | placed nodeIds degraded rejections probed =>
    obtain ⟨request, -, ⟨-, hdrawn⟩, -⟩ := planFrom_drawn hk
    intro hin
    obtain ⟨node, hnode, hid⟩ := hdrawn nodeId hin
    exact hout node ((eligibleNodes_sublist request nodes).subset hnode) hid

/-- Nor does a node without room. -/
theorem shardsOn_full (hask : ReservesNothing capacity ask) (hfull : ¬ 0 < roomOf capacity nodeId)
    (requests : List PlacementRequest) :
    shardsOn nodeId (planFrom p nodes d ask s requests) = 0 := by
  induction requests generalizing s with
  | nil => rfl
  | cons request rest ih =>
    rw [planFrom]
    split
    · rw [shardsOn_cons, ih]
      rfl
    · obtain ⟨redundancy, fuel, pool, -, hids, -⟩ := placeWithOffers_run (p := p) request
        (nodes.filter fun node => s.isOpen node.nodeId) d (recording ask) s
      have hnever : nodeId ∉ (offerRounds p request.shardId d redundancy (recording ask) fuel
          pool ⟨[], [], 0, s⟩).chosen :=
        offerRounds_never hask hfull fuel pool _ List.not_mem_nil
      rw [shardsOn_cons, ih, hids, if_neg hnever]

/-- A node with room for one at most gets one at most, and none once it is closed. -/
theorem shardsOn_one (hask : ReservesNothing capacity ask) (hpos : 0 < roomOf capacity nodeId)
    (hone : roomOf capacity nodeId ≤ 1) (requests : List PlacementRequest) :
    shardsOn nodeId (planFrom p nodes d ask s requests)
      ≤ if s.isOpen nodeId then 1 else 0 := by
  induction requests generalizing s with
  | nil => exact Nat.zero_le _
  | cons request rest ih =>
    rw [planFrom]
    split
    · rw [shardsOn_cons]
      exact ih
    · obtain ⟨redundancy, fuel, pool, hpool, hids, hstate⟩ := placeWithOffers_run (p := p) request
        (nodes.filter fun node => s.isOpen node.nodeId) d (recording ask) s
      have hcloses : nodeId ∈ (offerRounds p request.shardId d redundancy (recording ask) fuel
          pool ⟨[], [], 0, s⟩).chosen → (offerRounds p request.shardId d redundancy
            (recording ask) fuel pool ⟨[], [], 0, s⟩).state.isOpen nodeId = false :=
        offerRounds_closes hask hpos hone fuel pool _ fun hin => absurd hin List.not_mem_nil
      have hrest := ih (s := (placeWithOffers p request
        (nodes.filter fun node => s.isOpen node.nodeId) d (recording ask) s).2)
      rw [shardsOn_cons]
      rw [← hids, ← hstate] at hcloses
      by_cases hin : nodeId ∈ (placeWithOffers p request
          (nodes.filter fun node => s.isOpen node.nodeId) d (recording ask) s).1.nodeIds
      · -- it was open, and is closed for the rest
        have hopen : s.isOpen nodeId = true := by
          obtain ⟨added, hchosen, -, hfrom, -⟩ := offerRounds_chosen p request.shardId d
            redundancy (recording ask) fuel pool ⟨[], [], 0, s⟩
          rw [hids, hchosen, List.nil_append] at hin
          obtain ⟨node, hnode, rfl⟩ := hfrom nodeId hin
          exact (List.mem_filter.mp (hpool node hnode)).2
        rw [hcloses hin] at hrest
        rw [if_pos hin, if_pos hopen]
        simpa using hrest
      · rw [if_neg hin]
        by_cases hopen : s.isOpen nodeId = true
        · rw [if_pos hopen]
          refine hrest.trans ?_
          split <;> omega
        · -- closed stays closed
          have hclosed : s.isOpen nodeId = false := Bool.eq_false_iff.mpr hopen
          have hstill : (placeWithOffers p request
              (nodes.filter fun node => s.isOpen node.nodeId) d (recording ask) s).2.isOpen nodeId
                = false :=
            placeWithOffers_state (P := fun s : Standing => s.isOpen nodeId = false)
              (fun s offer h => recording_keeps_closed hask hpos hone offer h) hclosed
          rw [hstill] at hrest
          rw [if_neg hopen]
          exact hrest

/-- A request any node may serve, for as many replicas as there are nodes. -/
def everywhere (count : Nat) : PlacementRequest where
  shardId := []
  label := .pub
  ownerId := none
  redundancy := .finite count

/-- It goes to every open node with room. -/
theorem everywhere_placed (hask : ReservesNothing capacity ask) (hpos : 0 < roomOf capacity nodeId)
    (p : Platform) (hd : MIN_D ≤ d ∧ d ≤ MAX_D) (hin : ∃ node ∈ nodes, node.nodeId = nodeId)
    (hopen : s.isOpen nodeId = true) :
    nodeId ∈ (placeWithOffers p (everywhere nodes.length)
      (nodes.filter fun node => s.isOpen node.nodeId) d (recording ask) s).1.nodeIds := by
  obtain ⟨node, hnode, rfl⟩ := hin
  have havailable : node ∈ nodes.filter fun node => s.isOpen node.nodeId :=
    List.mem_filter.mpr ⟨hnode, hopen⟩
  have hmin : 2 ≤ d := hd.1
  have hchosen : node.nodeId ∈ (offerRounds p (everywhere nodes.length).shardId d nodes.length
      (recording ask) (nodes.filter fun node => s.isOpen node.nodeId).length
      (nodes.filter fun node => s.isOpen node.nodeId) ⟨[], [], 0, s⟩).chosen := by
    apply offerRounds_takes hask hpos (by omega) _ _ _ (Nat.le_refl _)
    · rw [List.length_nil, Nat.zero_add]
      exact List.length_filter_le _ _
    · exact Or.inr ⟨node, havailable, rfl⟩
  have hrange : ¬ (d < MIN_D ∨ MAX_D < d) :=
    not_or.mpr ⟨Nat.not_lt.mpr hd.1, Nat.not_lt.mpr hd.2⟩
  have hcount : (everywhere nodes.length).redundancy.positiveInteger? = some nodes.length :=
    JsNumber.positiveInteger?_natCast (List.length_pos_of_mem hnode)
  have heligible : eligibleNodes (everywhere nodes.length)
      (nodes.filter fun node => s.isOpen node.nodeId)
        = nodes.filter fun node => s.isOpen node.nodeId := rfl
  simp only [placeWithOffers, hcount, if_neg hrange, heligible,
    if_neg (List.ne_nil_of_mem havailable), if_neg (List.ne_nil_of_mem hchosen)]
  exact hchosen

/-- A node with room for more than one takes it every time. -/
theorem shardsOn_more (hask : ReservesNothing capacity ask) (hmore : 1 < roomOf capacity nodeId)
    (p : Platform) (hd : MIN_D ≤ d ∧ d ≤ MAX_D) (hin : ∃ node ∈ nodes, node.nodeId = nodeId)
    (m : Nat) (hopen : s.isOpen nodeId = true) :
    shardsOn nodeId (planFrom p nodes d ask s (List.replicate m (everywhere nodes.length))) = m := by
  induction m generalizing s with
  | zero => rfl
  | succ m ih =>
    have hpos : 0 < roomOf capacity nodeId := lt_trans (by decide) hmore
    have hplaced := everywhere_placed hask hpos p hd hin hopen
    have hstill : (placeWithOffers p (everywhere nodes.length)
        (nodes.filter fun node => s.isOpen node.nodeId) d (recording ask) s).2.isOpen nodeId
          = true :=
      placeWithOffers_state (P := fun s : Standing => s.isOpen nodeId = true)
        (fun s offer h => recording_keeps_open hask hmore offer h) hopen
    have hsome : ¬ ((nodes.filter fun node => s.isOpen node.nodeId) = [] ∧ nodes ≠ []) := by
      rintro ⟨hnil, -⟩
      obtain ⟨node, hnode, rfl⟩ := hin
      exact List.ne_nil_of_mem (List.mem_filter.mpr ⟨hnode, hopen⟩) hnil
    rw [List.replicate_succ, planFrom, if_neg hsome, shardsOn_cons, if_pos hplaced, ih hstill]

end

/-- A node that runs nothing. -/
def idleNode (maxConcurrent : Nat) (h : 0 < maxConcurrent) : LocalCapacity :=
  ⟨js "n", maxConcurrent, 1, ∅, 0, h, by decide, by decide⟩

def oneNode : List NodeDescriptor := [⟨js "n", js "o", true, 0, none⟩]

end O2Fabric
