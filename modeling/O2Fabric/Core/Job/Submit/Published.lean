/-
  O2Fabric.Core.Job.Submit.Published

  The published checkpoints form one chain: each names the one before it, each
  names one shard more than the one before it, nothing it names is missing from
  the store, and once the job is over the last one names every shard that has an
  answer.
-/

import O2Fabric.Core.Job.Submit.Chain

namespace O2Fabric.Submit

open Job Threads

variable {p : Platform} {job : PreparedJob} {plan : ShardPlan}

/-! ## What the checkpoints name -/

/-- A list in which no two share a key. -/
theorem nodup_map_of_filter {α : Type} {f : α → Nat} {xs : List α}
    (h : ∀ i, (xs.filter fun x => decide (f x = i)).length ≤ 1) : (xs.map f).Nodup := by
  induction xs with
  | nil => exact List.nodup_nil
  | cons x rest ih =>
    rw [List.map_cons, List.nodup_cons]
    refine ⟨fun hmem => ?_, ih fun i => ?_⟩
    · obtain ⟨y, hy, heq⟩ := List.mem_map.mp hmem
      have hone := h (f x)
      have hin : y ∈ rest.filter fun other => decide (f other = f x) :=
        List.mem_filter.mpr ⟨hy, decide_eq_true heq⟩
      have hpos := List.length_pos_of_mem hin
      rw [List.filter_cons_of_pos (by simp), List.length_cons] at hone
      omega
    · exact ((List.sublist_cons_self x rest).filter _).length_le.trans (h i)

theorem length_entryOf_le (i : Nat) (st : ShardState) : (entryOf i st).length ≤ 1 := by
  rw [entryOf]
  split
  · cases agreedIn st with
    | none => exact Nat.zero_le _
    | some cid => exact Nat.le_refl _
  · exact Nat.zero_le _

section

variable {c : Config Nat Shared ShardState}

/-- No shard joins twice. -/
theorem Recorded.nodup (h : Recorded p job c) :
    ((c.shared.log.recorded job).map CompletedShard.partitionIndex).Nodup := by
  apply nodup_map_of_filter
  intro i
  cases hplan : job.plans[i]? with
  | some plan =>
    rw [(h.kept i plan hplan).joined]
    exact length_entryOf_le i _
  | none =>
    rw [List.filter_eq_nil_iff.mpr]
    · exact Nat.zero_le _
    · intro entry hmem heq
      obtain ⟨plan, hsome⟩ := h.known entry hmem
      rw [of_decide_eq_true heq, hplan] at hsome
      cases hsome

/-- What a shard joined with is in the list exactly if it is its own. -/
theorem Recorded.mem_iff (h : Recorded p job c) {i : Nat} (hplan : job.plans[i]? = some plan)
    {entry : CompletedShard} :
    entry ∈ entryOf i (c.locals i)
      ↔ entry ∈ c.shared.log.recorded job ∧ entry.partitionIndex = i := by
  rw [← (h.kept i plan hplan).joined, List.mem_filter, decide_eq_true_eq]

/-- A shard that carries an answer has not joined. -/
theorem Recorded.entryOf_carried (h : Recorded p job c) {i : Nat}
    (hplan : job.plans[i]? = some plan) {shard : CarriedShard}
    (hcarried : plan.carried = some shard) : entryOf i (c.locals i) = [] := by
  have hnone : agreedIn (c.locals i) = none := by
    rw [agreedIn, ((h.kept i plan hplan).carried shard hcarried).1]
    rfl
  rw [entryOf, hnone]
  split <;> rfl

end

section

variable {spec : JobSpec} {options : SubmitOptions} {ask : Bool → Nat → Offer → Admission}
  {prepared : Prepared} {c : Config Nat Shared ShardState}

theorem mem_carriedShards (hprepared : PreparedFrom p spec options ask prepared) {i : Nat}
    (hplan : prepared.job.plans[i]? = some plan) {text : JsString} :
    ⟨i, text⟩ ∈ carriedShards prepared.job
      ↔ ∃ shard, plan.carried = some shard ∧ shard.resultCid.toText = text := by
  rw [(hprepared.plan hplan).2.2.1]
  constructor
  · intro hmem
    obtain ⟨⟨j, shard⟩, hentry, heq⟩ := List.mem_map.mp hmem
    cases heq
    exact ⟨shard, InsertionMap.get?_eq_some.mpr hentry, rfl⟩
  · rintro ⟨shard, hget, rfl⟩
    exact List.mem_map.mpr ⟨(i, shard), InsertionMap.get?_eq_some.mp hget, rfl⟩

/-- Carried or joined, a partition is named once. -/
theorem nodup_entries (hprepared : PreparedFrom p spec options ask prepared)
    (h : Recorded p prepared.job c) :
    ((carriedShards prepared.job ++ c.shared.log.recorded prepared.job).map
      CompletedShard.partitionIndex).Nodup := by
  rw [List.map_append, List.nodup_append]
  refine ⟨?_, h.nodup, ?_⟩
  · have hkeys : (carriedShards prepared.job).map CompletedShard.partitionIndex
        = prepared.job.carried.keys := List.map_map
    rw [hkeys]
    exact InsertionMap.keys_nodup _
  · intro i hcarried j hrecorded heq
    subst heq
    obtain ⟨⟨_, text⟩, hentry, rfl⟩ := List.mem_map.mp hcarried
    obtain ⟨entry, hmem, hindex⟩ := List.mem_map.mp hrecorded
    obtain ⟨plan, hplan⟩ := h.known entry hmem
    rw [hindex] at hplan
    obtain ⟨shard, hshard, -⟩ := (mem_carriedShards hprepared hplan).mp hentry
    have hin := (h.mem_iff hplan).mpr ⟨hmem, hindex⟩
    rw [h.entryOf_carried hplan hshard] at hin
    exact absurd hin List.not_mem_nil

/-- What the published checkpoint of this number names. -/
theorem published_names (hprepared : PreparedFrom p spec options ask prepared)
    (h : Recorded p prepared.job c) {n : Nat} {entry : Cid × JobCheckpoint}
    (hentry : c.shared.log.published[n]? = some entry) :
    entry.2.previous = c.shared.log.handleBefore prepared.job n ∧
      entry.2.completed.Perm (carriedShards prepared.job
        ++ (c.shared.log.recorded prepared.job).take (n + 1)) ∧
      n < (c.shared.log.recorded prepared.job).length := by
  obtain ⟨at_, heq⟩ := h.linked.views n entry hentry
  have hn := (List.getElem?_eq_some_iff.mp hentry).1
  rw [h.linked.count] at hn
  refine ⟨by rw [heq]; rfl, ?_, ?_⟩
  · rw [heq, viewOf]
    apply checkpointOf_completed_perm
    exact (nodup_entries hprepared h).sublist
      (((List.Sublist.refl _).append (List.take_sublist _ _)).map _)
  · exact Nat.lt_of_lt_of_le hn (c.shared.log.handed_le_begun.trans h.linked.room)

/-- Once every shard has settled, everything that joined was published. -/
theorem published_all (h : Recorded p prepared.job c) {result : JobResult}
    (hconclude : conclude p prepared.job c = some result) :
    c.shared.log.published.length = (c.shared.log.recorded prepared.job).length := by
  have hsettled : ∀ n < (c.shared.log.recorded prepared.job).length, n < c.shared.log.done := by
    intro n hn
    have hat := List.getElem?_eq_getElem hn
    obtain ⟨plan, hplan⟩ := h.known _ (List.getElem_mem hn)
    obtain ⟨settled, -, hresult⟩ := conclude_at hconclude (List.getElem?_eq_some_iff.mp hplan).1
    obtain ⟨shard, hphase, -⟩ := settledResult_eq_some.mp hresult
    obtain ⟨m, hm, hagain⟩ := (h.kept _ plan hplan).settled shard hphase _
      ((h.mem_iff hplan).mpr ⟨List.getElem_mem hn, rfl⟩)
    -- It joined once, so its link is this one.
    have hmlen := (List.getElem?_eq_some_iff.mp hagain).1
    have hsame : (c.shared.log.recorded prepared.job)[m]
        = (c.shared.log.recorded prepared.job)[n] :=
      (List.getElem?_eq_some_iff.mp hagain).2
    have hindex : m = n := (h.nodup.of_map _).getElem_inj_iff.mp hsame
    omega
  have hhanded : c.shared.log.done ≤ c.shared.log.handed := Nat.le_add_right _ _
  have hbegun := c.shared.log.handed_le_begun.trans h.linked.room
  rw [h.linked.count]
  by_contra hne
  have := hsettled c.shared.log.handed (by omega)
  omega

/-- Once every shard has settled, those that agreed are the ones that carried
    their answer and the ones that joined. -/
theorem mem_entries_iff (hprepared : PreparedFrom p spec options ask prepared)
    (h : Recorded p prepared.job c) {result : JobResult}
    (hconclude : conclude p prepared.job c = some result) (entry : CompletedShard) :
    (entry ∈ carriedShards prepared.job ∨ entry ∈ c.shared.log.recorded prepared.job) ↔
      entry ∈ carriedShards prepared.job ∨ ∃ settled cid,
        result.shards[entry.partitionIndex]? = some settled ∧
          settled.verification.agreedCid = some cid ∧ cid.toText = entry.resultCid := by
  constructor
  · rintro (hcarried | hrecorded)
    · exact Or.inl hcarried
    · right
      obtain ⟨plan, hplan⟩ := h.known entry hrecorded
      obtain ⟨settled, hsettled, hresult⟩ :=
        conclude_at hconclude (List.getElem?_eq_some_iff.mp hplan).1
      obtain ⟨shard, hphase, rfl⟩ := settledResult_eq_some.mp hresult
      have hin := (h.mem_iff hplan).mpr ⟨hrecorded, rfl⟩
      have hfresh : plan.carried = none := by
        cases hcarried : plan.carried with
        | none => rfl
        | some shard =>
          rw [h.entryOf_carried hplan hcarried] at hin
          exact absurd hin List.not_mem_nil
      rw [entryOf_eq (by rw [hphase]; rfl)] at hin
      obtain ⟨cid, hcid, heq⟩ := Option.map_eq_some_iff.mp (Option.mem_toList.mp hin)
      refine ⟨_, cid, hsettled, ?_, by rw [← heq]⟩
      obtain ⟨copies, disagreed, hcompared⟩ :=
        compared_eq p prepared.job shard (c.locals entry.partitionIndex).flights
      rw [hcompared]
      exact ((h.kept _ plan hplan).result hfresh shard hphase).trans hcid
  · rintro (hcarried | ⟨settled, cid, hsettled, hcid, htext⟩)
    · exact Or.inl hcarried
    · obtain ⟨hi, hresult⟩ := conclude_getElem? hconclude hsettled
      obtain ⟨shard, hphase, rfl⟩ := settledResult_eq_some.mp hresult
      have hplan := List.getElem?_eq_getElem hi
      obtain ⟨copies, disagreed, hcompared⟩ :=
        compared_eq p prepared.job shard (c.locals entry.partitionIndex).flights
      rw [hcompared] at hcid
      have hself : (⟨entry.partitionIndex, cid.toText⟩ : CompletedShard) = entry := by
        rw [htext]
      cases hcarried : prepared.job.plans[entry.partitionIndex].carried with
      | some carried =>
        left
        have hsame := ((h.kept _ _ hplan).carried carried hcarried).2
        rw [hphase, Phase.settled.injEq] at hsame
        rw [hsame] at hcid
        cases hcid
        rw [← hself]
        exact (mem_carriedShards hprepared hplan).mpr ⟨carried, hcarried, rfl⟩
      | none =>
        right
        have hagreed := ((h.kept _ _ hplan).result hcarried shard hphase).symm.trans hcid
        refine ((h.mem_iff hplan).mp ?_).1
        rw [entryOf_eq (by rw [hphase]; rfl), hagreed]
        exact List.mem_singleton.mpr hself.symm

/-- One chain of growing complete views, in every state a run reaches: the first
    checkpoint names the handle resumed from and each later one the one before
    it, each names one shard more, and all it names is in the store.  At the end
    the last one names what was carried and what agreed. -/
theorem checkpoints_form_one_chain {blocks : Blocks} {now : ℚ}
    (hprepare : prepare p spec options blocks ask now = .ok prepared)
    (hsink : options.checkpoints = true) (hreach : Reaches p prepared c) :
    (∀ n entry, c.shared.log.published[n]? = some entry →
      entry.2.previous = c.shared.log.handleBefore prepared.job n ∧
      entry.2.completed.Perm (carriedShards prepared.job
        ++ (c.shared.log.recorded prepared.job).take (n + 1))) ∧
    (∀ first, c.shared.log.published[0]? = some first →
      first.2.previous = prepared.job.resumedFrom.map Cid.toText) ∧
    (∀ n before after, c.shared.log.published[n]? = some before →
      c.shared.log.published[n + 1]? = some after →
      after.2.previous = some before.1.toText ∧
      ∃ shard, shard.partitionIndex ∉ before.2.completed.map CompletedShard.partitionIndex ∧
        after.2.completed.Perm (before.2.completed ++ [shard])) ∧
    (∀ entry ∈ c.shared.log.published, ∀ shard ∈ entry.2.completed,
      ∃ cid : Cid, cid.toText = shard.resultCid ∧ c.shared.blocks.Holds cid) ∧
    ∀ result, conclude p prepared.job c = some result →
      (∀ last, c.shared.log.published.getLast? = some last → ∀ shard,
        shard ∈ last.2.completed ↔ shard ∈ carriedShards prepared.job ∨ ∃ settled cid,
          result.shards[shard.partitionIndex]? = some settled ∧
            settled.verification.agreedCid = some cid ∧ cid.toText = shard.resultCid) ∧
      (c.shared.log.published = [] → ∀ (i : Nat) settled cid, result.shards[i]? = some settled →
        settled.verification.agreedCid = some cid →
        ⟨i, cid.toText⟩ ∈ carriedShards prepared.job) := by
  have hprepared := prepare_ok hprepare
  have h := recorded_reached hprepared (by rw [hprepared.fromOptions]; exact hsink) hreach
  refine ⟨?_, ?_, ?_, ?_, ?_⟩
  · intro n entry hentry
    obtain ⟨hprevious, hnames, -⟩ := published_names hprepared h hentry
    exact ⟨hprevious, hnames⟩
  · exact fun first hfirst => (published_names hprepared h hfirst).1
  · intro n before after hbefore hafter
    obtain ⟨-, hnames, -⟩ := published_names hprepared h hbefore
    obtain ⟨hprevious, hnames', hlt⟩ := published_names hprepared h hafter
    refine ⟨?_, (c.shared.log.recorded prepared.job)[n + 1], ?_, ?_⟩
    · rw [hprevious]
      show c.shared.log.published[n]?.map _ = _
      rw [hbefore]
      rfl
    · -- The names up to here and the next one are distinct.
      have hnodup := (nodup_entries hprepared h).sublist
        (((List.Sublist.refl _).append (List.take_sublist (n + 2) _)).map _)
      rw [List.take_succ_eq_append_getElem hlt, ← List.append_assoc, List.map_append,
        List.nodup_append] at hnodup
      intro hmem
      rw [(hnames.map _).mem_iff] at hmem
      exact hnodup.2.2 _ hmem _ (List.mem_singleton.mpr rfl) rfl
    · refine hnames'.trans ?_
      rw [List.take_succ_eq_append_getElem hlt, ← List.append_assoc]
      exact hnames.symm.append_right _
  · intro entry hentry shard hshard
    obtain ⟨n, hn⟩ := List.mem_iff_getElem?.mp hentry
    obtain ⟨-, hnames, -⟩ := published_names hprepared h hn
    apply h.held
    rcases List.mem_append.mp (hnames.mem_iff.mp hshard) with hcarried | hrecorded
    · exact List.mem_append_left _ hcarried
    · exact List.mem_append_right _ (List.mem_of_mem_take hrecorded)
  · intro result hconclude
    have hlength := published_all h hconclude
    refine ⟨?_, ?_⟩
    · intro last hlast shard
      rw [List.getLast?_eq_getElem?] at hlast
      obtain ⟨-, hnames, hlt⟩ := published_names hprepared h hlast
      have hall : (c.shared.log.recorded prepared.job).take
          (c.shared.log.published.length - 1 + 1) = c.shared.log.recorded prepared.job :=
        List.take_of_length_le (by omega)
      rw [hall] at hnames
      rw [hnames.mem_iff, List.mem_append]
      exact mem_entries_iff hprepared h hconclude shard
    · intro hnone i settled cid hsettled hcid
      rw [hnone] at hlength
      have hempty := List.length_eq_zero_iff.mp hlength.symm
      have hin := (mem_entries_iff hprepared h hconclude ⟨i, cid.toText⟩).mpr
        (Or.inr ⟨settled, cid, hsettled, hcid, rfl⟩)
      rw [hempty] at hin
      exact hin.resolve_right List.not_mem_nil

end

/-- Two shards that settle the other way round, with a sink. -/
def chainedRun : List (Event Nat ShardEvent ChainEvent) :=
  [.own 0 (.grant 0 0 0), .own 1 (.grant 0 0 0), .own 1 (.answer 0 (.verified [answers])),
    .own 1 (.deliver (js "k") 1), .own 1 (.resume 1 1), .own 1 .store, .own 1 .record,
    .alone (.begin 2), .own 0 (.answer 0 (.verified [answers])), .own 0 (.deliver (js "k") 2),
    .own 0 (.resume 2 2), .own 0 .store, .own 0 .record, .alone .put, .alone .publish,
    .alone .acknowledged, .own 1 .finish, .alone (.begin 3), .alone .put, .alone .publish,
    .alone .acknowledged, .own 0 .finish]

def chainedSpec : JobSpec :=
  bareSpec [⟨.null, .pub⟩, ⟨.null, .pub⟩] [bareNode (js "k") (js "o")] 1

def chainedOptions : SubmitOptions := ⟨defaultSpeculation, true, []⟩

theorem checkpoints_form_one_chain_two : ∃ prepared c result first second,
    playOut plain chainedSpec chainedOptions (fun _ => none) (fun _ _ _ => .accepted none) 0
      chainedRun = some (prepared, c) ∧
    conclude plain prepared.job c = some result ∧
    c.shared.log.published = [first, second] ∧ second.2.previous = some first.1.toText := by
  have hrun : ((playOut plain chainedSpec chainedOptions (fun _ => none)
      (fun _ _ _ => .accepted none) 0 chainedRun).bind fun run =>
        (conclude plain run.1.job run.2).map fun _ => run.2.shared.log.published.length)
      = some 2 := by
    decide +kernel
  obtain ⟨⟨prepared, c⟩, hplay, hrun⟩ := Option.bind_eq_some_iff.mp hrun
  obtain ⟨result, hconclude, hlength⟩ := Option.map_eq_some_iff.mp hrun
  obtain ⟨first, second, hpublished⟩ := List.length_eq_two.mp hlength
  obtain ⟨hprepare, hrun⟩ := playOut_spec hplay
  have hreach : Reaches plain prepared c := System.Reaches.of_run (fun _ _ _ => trivial) hrun
  refine ⟨prepared, c, result, first, second, hplay, hconclude, hpublished, ?_⟩
  refine ((checkpoints_form_one_chain hprepare rfl hreach).2.2.1 0 first second ?_ ?_).1
  · show c.shared.log.published[0]? = _
    rw [show c.shared.log.published = [first, second] from hpublished]
    rfl
  · show c.shared.log.published[1]? = _
    rw [show c.shared.log.published = [first, second] from hpublished]
    rfl

end O2Fabric.Submit
