/-
  O2Fabric.Net.Agent.Unrevealed

  How many answers a serving node holds at once.  A commit is checked against the
  store when it arrives and puts its answer there when its execution has settled,
  and the ones under way in between are in no count.

    * `limit_holds_when_counted`: where the commits under way are counted with the
      answers held whenever one is taken on, the limit holds in every state.
    * `overlapping_commits_pile_up`: otherwise as many answers are held at once as
      commits overlap.
-/

import O2Fabric.Net.Agent.Commits

namespace O2Fabric.Net

open Job Threads PendingCommitments

variable {p : Platform} {options : AgentOptions} {agent agent' : Agent}

/-! ## Taking a commit on -/

/-- A commit that arrives is taken on: the node is not paused, the task is a public
    one on data it does not know to be sovereign, and there is room in the store
    and a slot for it. -/
def Agent.takesOn (p : Platform) (options : AgentOptions) (agent : Agent) (task : Task)
    (pause : Pause) (now : ℚ) : Prop :=
  (options.pauses = true → pause = .running) ∧ task.label ≠ .sovereign ∧
    agent.knows options task.inputCid = false ∧
    (agent.pending.expire now).entries.size < MAX_PENDING_COMMITMENTS ∧
    (agent.takeSlot p options (slotKey task)).1 = none

variable {now : ℚ}

theorem dispatch_claim {from_ handle : JsString} {task : Task} {calls : Calls}
    (h : (dispatch p options agent ⟨from_, task, some handle⟩ now calls).2.claim ≠ none) :
    task.label ≠ .sovereign ∧ agent.knows options task.inputCid = false ∧
      (agent.pending.expire now).entries.size < MAX_PENDING_COMMITMENTS ∧
      (agent.takeSlot p options (slotKey task)).1 = none := by
  unfold dispatch at h
  split at h
  · exact absurd rfl h
  · next hpublic =>
    have hlabel : task.label ≠ .sovereign := fun hsovereign => hpublic ⟨rfl, hsovereign⟩
    split at h
    · exact absurd rfl h
    · next hunknown =>
      have hknows : agent.knows options task.inputCid = false := by
        apply Bool.eq_false_iff.mpr
        exact fun hknows => hunknown ⟨hlabel, hknows⟩
      dsimp only [Option.map_some] at h
      cases hreserve : agent.pending.reserve handle now with
      | mk answer pending =>
        rw [hreserve] at h
        cases answer with
        | error reason => exact absurd rfl h
        | ok name =>
          obtain ⟨-, -, hroom⟩ := reserve_eq_ok hreserve
          refine ⟨hlabel, hknows, hroom, ?_⟩
          -- the slot table does not see the store
          have hslot : (Agent.takeSlot p options { agent with pending := pending }
              (slotKey task)).1 = (agent.takeSlot p options (slotKey task)).1 := by
            unfold Agent.takeSlot
            dsimp only
            cases agent.capacity with
            | none => rfl
            | some cap =>
              dsimp only
              cases cap.offer p ⟨slotKey task, options.nodeId⟩ with
              | mk answer cap => cases answer <;> rfl
          rw [← hslot]
          dsimp only [Option.map_some, Option.getD_some] at h
          split at h
          · exact absurd rfl h
          · next htake => rw [htake]

theorem revealAnswer_claim (from_ handle : JsString) (now : ℚ) :
    (revealAnswer options agent from_ handle now).2.claim = none := by
  unfold revealAnswer
  split
  · split <;> rfl
  · dsimp only
    split <;> rfl

/-- Only a commit that is taken on claims a name. -/
theorem answer_claim {from_ : JsString} {request : Option AgentRequest} {pause : Pause}
    {handle : JsString} {calls : Calls}
    (h : (answer p options agent from_ request pause now handle calls).2.claim ≠ none) :
    ∃ task, request = some (.commit task) ∧ agent.takesOn p options task pause now := by
  cases request with
  | none => exact absurd rfl h
  | some request =>
    have hserve : (serve p options agent from_ now handle calls request).2.claim ≠ none →
        ∃ task, request = .commit task ∧ task.label ≠ .sovereign ∧
          agent.knows options task.inputCid = false ∧
          (agent.pending.expire now).entries.size < MAX_PENDING_COMMITMENTS ∧
          (agent.takeSlot p options (slotKey task)).1 = none := by
      intro hclaim
      have hleaves : LeavesStore none agent
          (serve p options agent from_ now handle calls request) → False := by
        rintro ⟨-, hnone | hnone⟩
        · exact hclaim hnone
        · exact hclaim hnone
      cases request with
      | exec task => exact (hleaves (dispatch_exec_leaves ..)).elim
      | commit task => exact ⟨task, rfl, dispatch_claim hclaim⟩
      | reveal name => exact absurd (revealAnswer_claim ..) hclaim
      | block cid => exact absurd rfl hclaim
      | offer shardId => exact absurd rfl hclaim
      | combine combineId inputCids level => exact (hleaves (runCombine_leaves ..)).elim
      | other request => exact absurd rfl hclaim
    have hrunning : (options.pauses = true → pause = .running) ∧
        (serve p options agent from_ now handle calls request).2.claim ≠ none := by
      unfold answer at h
      dsimp only at h
      split at h
      · cases pause with
        | running => exact ⟨fun _ => rfl, h⟩
        | stopped => exact absurd rfl h
        | broken described => exact absurd rfl h
        | threw cause => exact absurd (claim_servingFailed ..) h
      · next hgoes =>
        refine ⟨?_, h⟩
        intro hpauses
        -- a request that is served while paused claims nothing
        obtain ⟨task, rfl, -⟩ := hserve h
        exact absurd (by rw [hpauses]; rfl) hgoes
    obtain ⟨task, rfl, htakes⟩ := hserve hrunning.2
    exact ⟨task, rfl, hrunning.1, htakes⟩

/-! ## The commits under way are counted -/

/-- The requests in a set are commits under way. -/
def UnderWay (c : Config Nat Agent Phase) (s : Finset Nat) : Prop :=
  ∀ i ∈ s, (c.locals i).claim ≠ none

/-- A commit is taken on only while the answers held and the commits under way are
    together fewer than the limit. -/
def CountsUnderWay (p : Platform) (options : AgentOptions) (c : Config Nat Agent Phase) :
    Event Nat Action Outside → Prop
  | .own _ (.arrive _ (some (.commit task)) pause now _ _) =>
    c.shared.takesOn p options task pause now → ∀ s, UnderWay c s →
      (c.shared.pending.expire now).entries.size + s.card < MAX_PENDING_COMMITMENTS
  | _ => True

/-- The answers held that have not run out at the clock. -/
def Agent.unrevealed (agent : Agent) (now : ℚ) : List (JsString × PendingCommitment) :=
  agent.pending.entries.entries.filter fun e => decide (Unexpired now e)

/-- The node holds no more unrevealed answers than its limit, whatever the time. -/
def WithinLimit (agent : Agent) : Prop :=
  ∀ now, (agent.unrevealed now).length ≤ MAX_PENDING_COMMITMENTS

theorem size_expire_le (store : PendingCommitments) (now : ℚ) :
    (store.expire now).entries.size ≤ store.entries.size := by
  unfold InsertionMap.size
  rw [entries_expire]
  exact List.length_filter_le _ _

theorem size_take_le (store : PendingCommitments) (handle by_ : JsString) (now : ℚ) :
    (store.take handle by_ now).2.entries.size ≤ store.entries.size := by
  cases htake : store.take handle by_ now with
  | mk answer store' =>
    cases answer with
    | error reason =>
      rw [take_eq_error htake]
      exact size_expire_le store now
    | ok pending =>
      obtain ⟨-, -, -, hleft⟩ := take_eq_ok htake
      have hdelete : store'.entries.size ≤ (store.expire now).entries.size := by
        rw [hleft]
        exact List.length_filter_le _ _
      exact hdelete.trans (size_expire_le store now)

theorem size_file_le (store : PendingCommitments) (handle : JsString)
    (entry : PendingCommitment) :
    (store.file handle entry).entries.size ≤ store.entries.size + 1 := by
  show (store.entries.set handle entry).size ≤ store.entries.size + 1
  rw [InsertionMap.size_eq_length_keys, InsertionMap.size_eq_length_keys, InsertionMap.keys_set]
  split
  · omega
  · rw [List.length_append, List.length_singleton]

/-- The invariant: held and under way together are within the limit. -/
def Counted (c : Config Nat Agent Phase) : Prop :=
  ∀ s, UnderWay c s → c.shared.pending.entries.size + s.card ≤ MAX_PENDING_COMMITMENTS

variable {c c' : Config Nat Agent Phase}

variable {i : Nat} {phase : Phase} {s : Finset Nat}

/-- The commits under way after an action of `i`, without `i`, were under way. -/
theorem UnderWay.erase (h : UnderWay ⟨agent, Function.update c.locals i phase⟩ s) :
    UnderWay c (s.erase i) := by
  intro j hj
  obtain ⟨hne, hin⟩ := Finset.mem_erase.mp hj
  have hj : (Function.update c.locals i phase j).claim ≠ none := h j hin
  rw [Function.update_of_ne hne] at hj
  exact hj

/-- The same with `i` in the set, where it was under way before. -/
theorem UnderWay.of_update (h : UnderWay ⟨agent, Function.update c.locals i phase⟩ s)
    (hwas : phase.claim ≠ none → (c.locals i).claim ≠ none) : UnderWay c s := by
  intro j hin
  have hj : (Function.update c.locals i phase j).claim ≠ none := h j hin
  by_cases hne : j = i
  · subst hne
    rw [Function.update_self] at hj
    exact hwas hj
  · rw [Function.update_of_ne hne] at hj
    exact hj

theorem Counted.opens (hcounted : Counted c) {drawn : JsString}
    (hroom : phase.claim ≠ none → ∀ s, UnderWay c s →
      (c.shared.pending.expire now).entries.size + s.card < MAX_PENDING_COMMITMENTS)
    (h : Opens drawn now c.shared.pending agent.pending phase.claim) :
    Counted ⟨agent, Function.update c.locals i phase⟩ := by
  intro s hs
  show agent.pending.entries.size + s.card ≤ MAX_PENDING_COMMITMENTS
  generalize hpending : agent.pending = pending at h
  generalize hclaim : phase.claim = claim at h hroom
  cases h with
  | quiet => exact hcounted s (hs.of_update fun hne => absurd hclaim hne)
  | refused =>
    have hbefore := hcounted s (hs.of_update fun hne => absurd hclaim hne)
    have hless := size_expire_le c.shared.pending now
    omega
  | claim =>
    have hbefore := hroom (by simp) (s.erase i) hs.erase
    have hcard := Finset.pred_card_le_card_erase (s := s) (a := i)
    omega
  | take handle by_ =>
    have hbefore := hcounted s (hs.of_update fun hne => absurd hclaim hne)
    have hless := size_take_le c.shared.pending handle by_ now
    omega

theorem Counted.claims (hcounted : Counted c)
    (h : Claims c.shared.pending (c.locals i).claim agent.pending phase.claim) :
    Counted ⟨agent, Function.update c.locals i phase⟩ := by
  intro s hs
  show agent.pending.entries.size + s.card ≤ MAX_PENDING_COMMITMENTS
  generalize hpending : agent.pending = pending at h
  generalize hclaim : phase.claim = claim at h
  generalize hwas : (c.locals i).claim = was at h
  cases h with
  | keep =>
    apply hcounted s (hs.of_update _)
    rw [hclaim, hwas]
    exact fun hne => hne
  | drop => exact hcounted s (hs.of_update fun hne => absurd hclaim hne)
  | file handle entry =>
    -- the answer takes the place of the commit that made it
    have hnot : i ∉ s := by
      intro hin
      have hi : (Function.update c.locals i phase i).claim ≠ none := hs i hin
      rw [Function.update_self] at hi
      exact hi hclaim
    have hbefore := hcounted (insert i s) (by
      intro j hj
      rcases Finset.mem_insert.mp hj with rfl | hin
      · rw [hwas]
        simp
      · exact hs.of_update (fun hne => absurd hclaim hne) j hin)
    rw [Finset.card_insert_of_notMem hnot] at hbefore
    have hone := size_file_le c.shared.pending handle entry
    omega

theorem Counted.step (hcounted : Counted c) {e : Event Nat Action Outside}
    (hguard : CountsUnderWay p options c e) (h : (serveAgent p options).step c e = some c') :
    Counted c' := by
  obtain ⟨i, action, agent, phase, rfl, hown, rfl⟩ | ⟨b, agent, rfl, halone, rfl⟩ :=
    System.step_cases h
  · obtain ⟨from_, request, pause, now, drawn, calls, rfl, hidle, hanswer, hopens⟩ | hclaims :=
      stepRequest_claims hown
    · apply hcounted.opens _ hopens
      intro hclaim s hs
      have hclaim : (answer p options c.shared from_ request pause now drawn calls).2.claim
          ≠ none := by
        rw [← hanswer]
        exact hclaim
      obtain ⟨task, rfl, htakes⟩ := answer_claim hclaim
      exact hguard htakes s hs
    · exact hcounted.claims hclaims
  · intro s hs
    show agent.pending.entries.size + s.card ≤ MAX_PENDING_COMMITMENTS
    rw [stepOutside_pending halone]
    exact hcounted s hs

/-- Nobody is under way where nobody has a claim. -/
theorem UnderWay.eq_empty (h : UnderWay c s) (hidle : ∀ i, (c.locals i).claim = none) : s = ∅ := by
  apply Finset.eq_empty_of_forall_notMem
  exact fun i hin => h i hin (hidle i)

theorem counted_reached (h : (serveAgent p options).Reaches (CountsUnderWay p options)
    options.start c) : Counted c := by
  apply h.invariant
  · intro s hs
    rw [hs.eq_empty fun _ => rfl]
    show 0 + 0 ≤ MAX_PENDING_COMMITMENTS
    omega
  · intro c e c' hguard hcounted hstep
    exact hcounted.step hguard hstep

/-- In every run in which a commit is taken on only while the answers held and the
    commits under way are together fewer than the limit, the limit holds. -/
theorem limit_holds_when_counted (p : Platform) (options : AgentOptions)
    (h : (serveAgent p options).Reaches (CountsUnderWay p options) options.start c) :
    WithinLimit c.shared := by
  intro now
  have hcounted := counted_reached h ∅ (by intro i hin; cases hin)
  have hfilter := List.length_filter_le (fun e => decide (Unexpired now e))
    c.shared.pending.entries.entries
  have hsize : c.shared.pending.entries.entries.length ≤ MAX_PENDING_COMMITMENTS := hcounted
  exact hfilter.trans hsize

/-! ## Commits that overlap -/

/-- A node that accepts every offer and has no tap. -/
def openOptions : AgentOptions :=
  { plainOptions with
    capacity := none
    capacity_fresh := by rintro cap ⟨⟩
    taps := false }

/-- One of many partitions of a public task. -/
def partitionTask (i : Nat) : Task := ⟨plainCid, plainCid, i, i + 1, .pub, none⟩

/-- The name its commitment draws. -/
def partitionHandle (i : Nat) : JsString :=
  toHex (List.replicate 15 0 ++ [Fin.ofNat 256 i])

def partitionWork (i : Nat) : Work := ⟨js "k", partitionTask i, some (partitionHandle i)⟩

/-- The commit of partition `i` arrives. -/
def commitArrives (i : Nat) : Event Nat Action Outside :=
  .own i (.arrive (js "k") (some (.commit (partitionTask i))) .running 0 (partitionHandle i)
    welcoming)

theorem partitionHandle_inj {j : Nat} (hi : i < 256) (hj : j < 256)
    (h : partitionHandle i = partitionHandle j) : i = j := by
  have hbytes := List.append_cancel_left (toHex_injective h)
  have hlast := congrArg Fin.val (List.singleton_inj.mp hbytes)
  rw [Fin.val_ofNat, Fin.val_ofNat, Nat.mod_eq_of_lt hi, Nat.mod_eq_of_lt hj] at hlast
  exact hlast

/-- One commit from its arrival to its filing. -/
def oneCommit : List (Event Nat Action Outside) :=
  [commitArrives 0, .own 0 (.executed (.ok .null 0 .signedByNobody)), .own 0 (.digested none [] 0)]

theorem limit_holds_when_counted_one :
    ∃ c, (serveAgent plain openOptions).run openOptions.start oneCommit = some c ∧
      (c.shared.unrevealed 0).length = 1 ∧ WithinLimit c.shared := by
  have hheld : ((serveAgent plain openOptions).run openOptions.start oneCommit).map
      (fun c => (c.shared.unrevealed 0).length) = some 1 := by decide +kernel
  obtain ⟨c, hrun, hone⟩ := Option.map_eq_some_iff.mp hheld
  refine ⟨c, hrun, hone, limit_holds_when_counted plain openOptions ?_⟩
  obtain ⟨c₁, hfirst, hrest⟩ := Option.bind_eq_some_iff.mp hrun
  apply System.Reaches.head _ hfirst (System.Reaches.of_run _ hrest)
  · intro _ s hs
    rw [hs.eq_empty fun _ => rfl]
    decide
  · intro c e he
    simp only [List.mem_cons, List.not_mem_nil, or_false] at he
    rcases he with rfl | rfl <;> trivial

/-- A commit that arrives at such a node while it holds nothing goes to the executor. -/
theorem commit_arrives (hcapacity : c.shared.capacity = none)
    (hempty : c.shared.pending.entries = .empty) (habsent : c.locals i = .absent) :
    ∃ agent, (serveAgent plain openOptions).step c (commitArrives i)
        = some ⟨agent, Function.update c.locals i
            (.executing (partitionWork i) none c.shared.computed.length)⟩ ∧
      agent.capacity = none ∧ agent.pending.entries = .empty := by
  have hexpire : (c.shared.pending.expire 0).entries = .empty := by
    unfold PendingCommitments.expire
    rw [hempty]
    rfl
  have hroom : c.shared.pending.reserve (partitionHandle i) 0
      = (.ok (partitionHandle i), c.shared.pending.expire 0) := by
    unfold PendingCommitments.reserve
    dsimp only
    rw [hexpire]
    rfl
  have hanswer : stepRequest plain openOptions i
      (.arrive (js "k") (some (.commit (partitionTask i))) .running 0 (partitionHandle i)
        welcoming) c.shared .absent
      = some (dispatch plain openOptions c.shared (partitionWork i) 0 welcoming) := rfl
  have hdispatch : ∃ agent, dispatch plain openOptions c.shared (partitionWork i) 0 welcoming
      = (agent, .executing (partitionWork i) none c.shared.computed.length) ∧
        agent.capacity = none ∧ agent.pending = c.shared.pending.expire 0 := by
    unfold dispatch
    rw [if_neg (by rintro ⟨-, ⟨⟩⟩), if_neg (by rintro ⟨-, ⟨⟩⟩)]
    have hmap : (partitionWork i).handle.map (fun handle => c.shared.pending.reserve handle 0)
        = some (.ok (partitionHandle i), c.shared.pending.expire 0) := congrArg some hroom
    rw [hmap]
    dsimp only [Option.map_some, Option.getD_some]
    unfold Agent.takeSlot
    dsimp only
    rw [hcapacity]
    exact ⟨_, rfl, rfl, rfl⟩
  obtain ⟨agent, hdispatch, hcap, hpending⟩ := hdispatch
  refine ⟨agent, ?_, hcap, ?_⟩
  · show (stepRequest plain openOptions i _ c.shared (c.locals i)).map _ = _
    rw [habsent, hanswer, hdispatch]
    rfl
  · rw [hpending, hexpire]

/-- Any number of commits may be executing at once. -/
theorem commits_overlap (n : Nat) :
    ∃ c, (serveAgent plain openOptions).Reaches System.anything openOptions.start c ∧
      c.shared.capacity = none ∧ c.shared.pending.entries = .empty ∧
      (∀ i < n, ∃ computation, c.locals i = .executing (partitionWork i) none computation) ∧
      ∀ i, n ≤ i → c.locals i = .absent := by
  induction n with
  | zero =>
    refine ⟨openOptions.start, .refl, rfl, rfl, ?_, fun _ _ => rfl⟩
    intro i hi
    omega
  | succ n ih =>
    obtain ⟨c, hreaches, hcapacity, hempty, hexecuting, habsent⟩ := ih
    obtain ⟨agent, hstep, hcap, hpending⟩ := commit_arrives hcapacity hempty
      (habsent n (Nat.le_refl n))
    refine ⟨_, hreaches.tail trivial hstep, hcap, hpending, ?_, ?_⟩
    · intro i hi
      rcases Nat.lt_succ_iff_lt_or_eq.mp hi with hlt | rfl
      · obtain ⟨computation, hphase⟩ := hexecuting i hlt
        refine ⟨computation, ?_⟩
        show Function.update _ _ _ i = _
        rw [Function.update_of_ne (by omega), hphase]
      · exact ⟨_, Function.update_self ..⟩
    · intro i hi
      show Function.update _ _ _ i = _
      rw [Function.update_of_ne (by omega)]
      exact habsent i (by omega)

/-- The execution of a commit settles, then its digest, and its answer is filed. -/
theorem commit_settles {computation : Nat}
    (hphase : c.locals i = .executing (partitionWork i) none computation) :
    ∃ agent phase, (serveAgent plain openOptions).Reaches System.anything c
        ⟨agent, Function.update c.locals i phase⟩ ∧
      agent.pending = c.shared.pending.file (partitionHandle i)
        ⟨js "k", [], .null, 0, .signedByNobody, 0, computation⟩ := by
  have hran : (serveAgent plain openOptions).step c
      (.own i (.executed (.ok .null 0 .signedByNobody)))
      = some ⟨c.shared.releaseSlot (slotKey (partitionTask i)), Function.update c.locals i
          (.sealing (partitionWork i) (partitionHandle i) .null 0 .signedByNobody
            computation)⟩ := by
    show (stepRequest plain openOptions i _ c.shared (c.locals i)).map _ = _
    rw [hphase]
    rfl
  have hfiled : ∃ agent phase, (serveAgent plain openOptions).step
      ⟨c.shared.releaseSlot (slotKey (partitionTask i)), Function.update c.locals i
        (.sealing (partitionWork i) (partitionHandle i) .null 0 .signedByNobody computation)⟩
      (.own i (.digested none [] 0)) = some ⟨agent, Function.update c.locals i phase⟩ ∧
      agent.pending = c.shared.pending.file (partitionHandle i)
        ⟨js "k", [], .null, 0, .signedByNobody, 0, computation⟩ := by
    refine ⟨{ c.shared.releaseSlot (slotKey (partitionTask i)) with
        pending := c.shared.pending.file (partitionHandle i)
          ⟨js "k", [], .null, 0, .signedByNobody, 0, computation⟩ },
      replies (js "k") (.commit (.committed
        (commitmentDigest plain [] (partitionTask i) plainCid) (partitionHandle i))), ?_, rfl⟩
    show (stepRequest plain openOptions i _ _ (Function.update c.locals i _ i)).map _ = _
    rw [Function.update_self]
    show some (Config.mk _ (Function.update (Function.update c.locals i _) i _)) = _
    rw [Function.update_idem]
    rfl
  obtain ⟨agent, phase, hfiled, hpending⟩ := hfiled
  exact ⟨agent, phase, (System.Reaches.refl.tail trivial hran).tail trivial hfiled, hpending⟩

/-- As many unrevealed answers are held at once as commits overlap. -/
theorem overlapping_commits_pile_up {n : Nat} (hn : n ≤ 256) :
    ∃ c, (serveAgent plain openOptions).Reaches System.anything openOptions.start c ∧
      (c.shared.unrevealed 0).length = n := by
  have hsettle : ∀ m ≤ n, ∃ c,
      (serveAgent plain openOptions).Reaches System.anything openOptions.start c ∧
      c.shared.pending.entries.keys = (List.range m).map partitionHandle ∧
      (∀ e ∈ c.shared.pending.entries.entries, e.2.at_ = 0) ∧
      ∀ i < n, m ≤ i → ∃ computation,
        c.locals i = .executing (partitionWork i) none computation := by
    intro m
    induction m with
    | zero =>
      intro _
      obtain ⟨c, hreaches, -, hempty, hexecuting, -⟩ := commits_overlap n
      refine ⟨c, hreaches, ?_, ?_, fun i hi _ => hexecuting i hi⟩
      · rw [hempty]
        rfl
      · intro e he
        rw [hempty] at he
        cases he
    | succ m ih =>
      intro hm
      obtain ⟨c, hreaches, hkeys, htimes, hexecuting⟩ := ih (by omega)
      obtain ⟨computation, hphase⟩ := hexecuting m (by omega) (Nat.le_refl m)
      obtain ⟨agent, phase, hsettles, hpending⟩ := commit_settles hphase
      have hfresh : partitionHandle m ∉ c.shared.pending.entries.keys := by
        rw [hkeys, List.mem_map]
        rintro ⟨j, hj, hname⟩
        have hlt := List.mem_range.mp hj
        have hsame := partitionHandle_inj (by omega) (by omega) hname
        omega
      refine ⟨_, hreaches.trans hsettles, ?_, ?_, ?_⟩
      · show agent.pending.entries.keys = _
        rw [hpending]
        show (c.shared.pending.entries.set _ _).keys = _
        rw [InsertionMap.keys_set, if_neg hfresh, hkeys, List.range_succ, List.map_append,
          List.map_singleton]
      · intro e he
        replace he : e ∈ agent.pending.entries.entries := he
        rw [hpending] at he
        rcases mem_file he with rfl | hold
        · rfl
        · exact htimes e hold
      · intro i hi hmi
        obtain ⟨computation, hphase⟩ := hexecuting i hi (by omega)
        refine ⟨computation, ?_⟩
        show Function.update _ _ _ i = _
        rw [Function.update_of_ne (by omega), hphase]
  obtain ⟨c, hreaches, hkeys, htimes, -⟩ := hsettle n (Nat.le_refl n)
  refine ⟨c, hreaches, ?_⟩
  have hall : c.shared.unrevealed 0 = c.shared.pending.entries.entries := by
    apply List.filter_eq_self.mpr
    intro e he
    rw [decide_eq_true_eq, Unexpired, htimes e he]
    decide +kernel
  rw [hall]
  have hlength := congrArg List.length hkeys
  rw [List.length_map, List.length_range] at hlength
  rw [← hlength]
  exact (List.length_map ..).symm

/-- One commit more than the limit, each arriving before the first has settled. -/
theorem limit_is_passed :
    ¬ ∀ c, (serveAgent plain openOptions).Reaches System.anything openOptions.start c →
      WithinLimit c.shared := by
  intro hclaim
  obtain ⟨c, hreaches, hlength⟩ :=
    overlapping_commits_pile_up (n := MAX_PENDING_COMMITMENTS + 1) (by decide)
  have hle := hclaim c hreaches 0
  omega

end O2Fabric.Net
