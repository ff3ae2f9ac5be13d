/-
  O2Fabric.Core.Reduce.Report

  The report of `executeReduce` is consistent with itself and with the requests
  that were made, for every tree of distinct ids, every dispatch and every local
  placement: a combine is executed or failed, never both; a failure reaches
  every combine above it; and `minReplicas` counts the answers accepted for the
  least answered combine.
-/

import O2Fabric.Core.Reduce.History

namespace O2Fabric.Reduce

/-! ## Who answered for a combine -/

/-- The executors whose answers were accepted for the combine, one an answer. -/
def answeredBy (calls : List CombineCall) (nodeId : JsString) : List JsString :=
  (calls.filter fun call => decide (call.task.nodeId = nodeId) && call.answer.isSome).map
    CombineCall.executorId

theorem filterMap_produced?_executorId (calls : List CombineCall) :
    (calls.filterMap CombineCall.produced?).map Produced.executorId
      = (calls.filter fun call => call.answer.isSome).map CombineCall.executorId := by
  induction calls with
  | nil => rfl
  | cons call rest ih =>
    cases hanswer : call.answer <;> simp [CombineCall.produced?, hanswer] at ih ⊢ <;> exact ih

/-- Distinct node ids keep the requests of one combine apart from all others; `of`
    is any choice among each combine's requests. -/
theorem filter_calls_eq {of : CombineResult → List CombineCall} {rs : List CombineResult}
    (hids : (rs.map fun r => r.node.id).Nodup)
    (htask : ∀ r ∈ rs, ∀ call ∈ of r, call.task.nodeId = r.node.id) {r : CombineResult}
    (hr : r ∈ rs) :
    (rs.flatMap of).filter (fun call => decide (call.task.nodeId = r.node.id)) = of r := by
  have hself : ∀ r' ∈ rs, ∀ id, r'.node.id = id →
      (of r').filter (fun call => decide (call.task.nodeId = id)) = of r' := by
    intro r' hr' id hid
    rw [List.filter_eq_self]
    intro call hcall
    simpa [hid] using htask r' hr' call hcall
  have hother : ∀ r' ∈ rs, ∀ id, r'.node.id ≠ id →
      (of r').filter (fun call => decide (call.task.nodeId = id)) = [] := by
    intro r' hr' id hid
    rw [List.filter_eq_nil_iff]
    intro call hcall heq
    exact hid ((htask r' hr' call hcall).symm.trans (of_decide_eq_true heq))
  rw [List.filter_flatMap]
  induction rs with
  | nil => cases hr
  | cons r' rest ih =>
    rw [List.map_cons, List.nodup_cons] at hids
    rw [List.flatMap_cons]
    have hrest : ∀ r'' ∈ rest, r'' ∈ r' :: rest := fun _ => List.mem_cons_of_mem r'
    rcases List.mem_cons.mp hr with rfl | hr
    · rw [hself r List.mem_cons_self _ rfl]
      have hnone : rest.flatMap (fun r' => (of r').filter
          (fun call => decide (call.task.nodeId = r.node.id))) = [] := by
        rw [List.flatMap_eq_nil_iff]
        intro r'' hr''
        refine hother r'' (hrest r'' hr'') _ fun heq => hids.1 ?_
        exact List.mem_map.mpr ⟨r'', hr'', heq⟩
      rw [hnone, List.append_nil]
    · have hne : r'.node.id ≠ r.node.id := fun heq =>
        hids.1 (List.mem_map.mpr ⟨r, hr, heq.symm⟩)
      rw [hother r' List.mem_cons_self _ hne, List.nil_append]
      exact ih hids.2 (fun r'' hr'' => htask r'' (hrest r'' hr'')) hr
        (fun r'' hr'' => hself r'' (hrest r'' hr''))
        (fun r'' hr'' => hother r'' (hrest r'' hr''))

/-! ## The least count of replicas -/

theorem foldl_minWith (l : List Nat) : l.foldl minWith none = l.min? := by
  have hsome : ∀ (l : List Nat) (m : Nat), l.foldl minWith (some m) = some (l.foldl min m) := by
    intro l
    induction l with
    | nil => intro m; rfl
    | cons k rest ih => intro m; exact ih (min m k)
  cases l with
  | nil => rfl
  | cons k rest => exact hsome rest k

theorem ReduceRun.one_le_wanted (run : ReduceRun) {x : ℚ} (hwanted : run.wanted = .finite x) :
    1 ≤ x := by
  rw [ReduceRun.wanted] at hwanted
  generalize run.redundancy.getD (.finite 1) = redundancy at hwanted
  cases redundancy with
  | nan => cases hwanted
  | negInfinity =>
    obtain rfl := JsNumber.finite.inj hwanted
    exact le_refl _
  | finite q =>
    obtain rfl := JsNumber.finite.inj hwanted
    exact le_max_left _ _
  | posInfinity => cases hwanted

/-! ## Descendants -/

/-- `n` stands above `m`: through its children, or theirs. -/
inductive Above (tree : ReduceTree) : ReduceTreeNode → ReduceTreeNode → Prop
  | child {n m : ReduceTreeNode} : n ∈ tree.nodes → m ∈ tree.nodes → m.id ∈ n.children →
      Above tree n m
  | trans {n m k : ReduceTreeNode} : Above tree n m → Above tree m k → Above tree n k

/-! ## Consistency -/

/-- What the report says, and what the requests made say. -/
structure ReduceOutcome.Consistent (run : ReduceRun) (calls : List CombineCall)
    (o : ReduceOutcome) : Prop where
  failed_or_executed : ∀ n ∈ run.tree.nodes,
    (n.id ∈ o.failed ∧ n.id ∉ o.executedBy.keys) ∨ (n.id ∉ o.failed ∧ n.id ∈ o.executedBy.keys)
  combines_eq : o.combines = o.executedBy.size
  attested_iff : ∀ id, id ∈ o.attestations.keys ↔
    id ∈ o.executedBy.keys ∧ id ∉ o.disagreements.map Prod.fst
  local_or_refused : ∀ id ∈ o.locallyCombined, id ∉ o.localRefusals.map Prod.fst
  failed_above : ∀ n m, Above run.tree n m → m.id ∈ o.failed → n.id ∈ o.failed
  ok_iff : o.ok = true ↔ o.rootCid ≠ none ∧ o.failed = [] ∧ o.disagreements = []
  /-- `minReplicas` is the least number of answers accepted for an executed combine. -/
  minReplicas_none : o.executedBy.keys = [] → o.minReplicas = 0
  minReplicas_mem : o.executedBy.keys ≠ [] →
    ∃ id ∈ o.executedBy.keys, o.minReplicas = (answeredBy calls id).length
  minReplicas_le : ∀ id ∈ o.executedBy.keys, o.minReplicas ≤ (answeredBy calls id).length
  /-- Without repeats in the executor list, those answers are of distinct executors. -/
  answeredBy_nodup : run.executors.Nodup → LOCAL_COMBINE_EXECUTOR ∉ run.executors →
    ∀ id ∈ o.executedBy.keys, (answeredBy calls id).Nodup
  /-- At most `max(1, redundancy)` of them, rounded up to a whole number. -/
  minReplicas_bound : ∀ x, run.wanted = .finite x → (o.minReplicas : ℤ) ≤ ⌈x⌉

namespace Executed

variable {sha256 : JsString → List (Fin 256)} {localeCompare : JsString → JsString → Int}
  {run : ReduceRun} {rs : List CombineResult} {R : Report}

variable {r : CombineResult}

theorem answeredBy_eq (h : Executed sha256 localeCompare run rs R) (hr : r ∈ rs) :
    answeredBy R.calls r.node.id
      = (r.calls.filterMap CombineCall.produced?).map Produced.executorId := by
  have htask : ∀ r ∈ rs, ∀ call ∈ r.calls, call.task.nodeId = r.node.id := by
    intro r hr call hcall
    obtain ⟨inputCids, -, heq⟩ := (h.spec hr).task_eq call hcall
    rw [heq]
  have hids := (List.nodup_append.mp h.ids_nodup).2.1
  rw [filterMap_produced?_executorId, answeredBy, h.describes.calls, ← List.filter_filter,
    List.filter_comm, filter_calls_eq hids htask hr]

theorem length_answeredBy (h : Executed sha256 localeCompare run rs R) (hr : r ∈ rs) :
    (answeredBy R.calls r.node.id).length = r.replicas := by
  rw [h.answeredBy_eq hr, List.length_map, (h.spec hr).replicas_eq]

variable {n : ReduceTreeNode}

theorem failed_or_executed (h : Executed sha256 localeCompare run rs R) (hn : n ∈ run.tree.nodes)
    (hlevel : 1 ≤ n.level) :
    (n.id ∈ R.failed ∧ n.id ∉ R.executedBy.keys)
      ∨ (n.id ∉ R.failed ∧ n.id ∈ R.executedBy.keys) := by
  obtain ⟨r, hr, rfl⟩ := h.covers n hn hlevel
  rw [h.mem_failed, h.mem_executedBy]
  cases haccepted : r.accepted with
  | none =>
    refine Or.inl ⟨⟨r, hr, rfl, haccepted⟩, ?_⟩
    rintro ⟨r', hr', hid, hsome⟩
    rw [h.result_unique hr' hr hid, haccepted] at hsome
    exact hsome rfl
  | some accepted =>
    refine Or.inr ⟨?_, r, hr, rfl, by simp [haccepted]⟩
    rintro ⟨r', hr', hid, hnone⟩
    rw [h.result_unique hr' hr hid, haccepted] at hnone
    cases hnone

theorem attested_iff (h : Executed sha256 localeCompare run rs R) (id : JsString) :
    id ∈ R.attestations.keys ↔
      id ∈ R.executedBy.keys ∧ id ∉ R.disagreements.map Prod.fst := by
  have hdisagreed : id ∈ R.disagreements.map Prod.fst ↔
      ∃ r ∈ rs, r.node.id = id ∧ r.accepted ≠ none ∧ 1 < r.cids.length := by
    rw [h.describes.disagreements, List.map_filterMap, List.mem_filterMap]
    refine exists_congr fun r => and_congr_right fun _ => ?_
    rw [CombineResult.disagreement?]
    split
    · next hmany => cases haccepted : r.accepted <;> simp [hmany]
    · next hfew => simp [hfew]
  have hattested : id ∈ R.attestations.keys ↔
      ∃ r ∈ rs, r.node.id = id ∧ r.accepted ≠ none ∧ ¬ 1 < r.cids.length := by
    rw [InsertionMap.keys, h.describes.attestations, List.map_filterMap, List.mem_filterMap]
    refine exists_congr fun r => and_congr_right fun _ => ?_
    rw [CombineResult.attested?]
    split
    · next hmany => simp [hmany]
    · next hfew => cases haccepted : r.accepted <;> simp [hfew]
  rw [hattested, hdisagreed, h.mem_executedBy]
  constructor
  · rintro ⟨r, hr, hid, haccepted, hfew⟩
    refine ⟨⟨r, hr, hid, haccepted⟩, ?_⟩
    rintro ⟨r', hr', hid', -, hmany⟩
    exact hfew (h.result_unique hr' hr (hid'.trans hid.symm) ▸ hmany)
  · rintro ⟨⟨r, hr, hid, haccepted⟩, hnot⟩
    exact ⟨r, hr, hid, haccepted, fun hmany => hnot ⟨r, hr, hid, haccepted, hmany⟩⟩

theorem local_or_refused (h : Executed sha256 localeCompare run rs R) :
    ∀ id ∈ R.locallyCombined, id ∉ R.localRefusals.map Prod.fst := by
  intro id hlocal hrefused
  rw [h.describes.locallyCombined, List.mem_filterMap] at hlocal
  rw [h.describes.localRefusals, List.map_filterMap, List.mem_filterMap] at hrefused
  obtain ⟨r, hr, hlocal⟩ := hlocal
  obtain ⟨r', hr', hrefused⟩ := hrefused
  rw [CombineResult.local?] at hlocal
  split at hlocal
  · next hcombined =>
    obtain ⟨accepted, -, hid⟩ := Option.map_eq_some_iff.mp hlocal
    have hnone := (h.spec hr).locally hcombined
    simp only [CombineResult.refusal?, Option.map_map, Option.map_eq_some_iff,
      Function.comp_apply] at hrefused
    obtain ⟨reason, hreason, hid'⟩ := hrefused
    rw [h.result_unique hr' hr (hid'.trans hid.symm), hnone] at hreason
    cases hreason
  · cases hlocal

/-- A failed child leaves its parent without an input. -/
theorem failed_of_child (h : Executed sha256 localeCompare run rs R) (hids : run.tree.ids.Nodup)
    (hlevels : ∀ n ∈ run.tree.nodes, 1 ≤ n.level) {m : ReduceTreeNode} (hn : n ∈ run.tree.nodes)
    (hm : m ∈ run.tree.nodes) (hchild : m.id ∈ n.children) (hfailed : m.id ∈ R.failed) :
    n.id ∈ R.failed := by
  obtain ⟨r, hr, rfl⟩ := h.covers n hn (hlevels n hn)
  by_contra hnot
  have haccepted : r.accepted ≠ none := fun hnone => hnot (h.mem_failed.mpr ⟨r, hr, rfl, hnone⟩)
  obtain ⟨cids, hinputs⟩ := Option.ne_none_iff_exists'.mp ((h.spec hr).inputs haccepted)
  obtain ⟨cid, -, hcid⟩ := exists_of_mem_of_forall₂ (mapM_eq_some_iff.mp hinputs) hchild
  obtain ⟨r', hr', hid', hnone⟩ := h.mem_failed.mp hfailed
  rcases h.resolved_eq_some.mp hcid with ⟨leaf, hleaf, hid, -⟩ | ⟨r'', hr'', hid'', a, hsome, -⟩
  · exact (List.nodup_append.mp hids).2.2 _ (List.mem_map_of_mem hleaf) _
      (List.mem_map_of_mem hm) hid
  · rw [h.result_unique hr'' hr' (hid''.trans hid'.symm), hnone] at hsome
    cases hsome

theorem failed_above (h : Executed sha256 localeCompare run rs R) (hids : run.tree.ids.Nodup)
    (hlevels : ∀ n ∈ run.tree.nodes, 1 ≤ n.level) {m : ReduceTreeNode} (habove : Above run.tree n m)
    (hfailed : m.id ∈ R.failed) :
    n.id ∈ R.failed := by
  induction habove with
  | child hn hm hchild => exact h.failed_of_child hids hlevels hn hm hchild hfailed
  | trans _ _ ih1 ih2 => exact ih1 (ih2 hfailed)

/-- The accepted answers' counts, and the executed combines they belong to. -/
theorem mem_achieved (h : Executed sha256 localeCompare run rs R) {k : Nat} :
    k ∈ rs.filterMap CombineResult.achieved? ↔
      ∃ id ∈ R.executedBy.keys, k = (answeredBy R.calls id).length := by
  rw [List.mem_filterMap]
  constructor
  · rintro ⟨r, hr, hk⟩
    obtain ⟨accepted, haccepted, rfl⟩ := Option.map_eq_some_iff.mp hk
    exact ⟨r.node.id, h.mem_executedBy.mpr ⟨r, hr, rfl, by simp [haccepted]⟩,
      (h.length_answeredBy hr).symm⟩
  · rintro ⟨id, hid, rfl⟩
    obtain ⟨r, hr, rfl, haccepted⟩ := h.mem_executedBy.mp hid
    obtain ⟨accepted, haccepted⟩ := Option.ne_none_iff_exists'.mp haccepted
    exact ⟨r, hr, by simp [CombineResult.achieved?, haccepted, h.length_answeredBy hr]⟩

/-- The counter holds the least count, or its start value if nothing was executed. -/
theorem minReplicas_cases (h : Executed sha256 localeCompare run rs R) :
    (R.minReplicas = none ∧ R.executedBy.keys = []) ∨
    ∃ m, R.minReplicas = some m ∧
      (∃ id ∈ R.executedBy.keys, m = (answeredBy R.calls id).length) ∧
      ∀ id ∈ R.executedBy.keys, m ≤ (answeredBy R.calls id).length := by
  rw [h.describes.minReplicas, foldl_minWith]
  cases hmin : (rs.filterMap CombineResult.achieved?).min? with
  | none =>
    refine Or.inl ⟨rfl, List.eq_nil_iff_forall_not_mem.mpr fun id hid => ?_⟩
    have hmem := h.mem_achieved.mpr ⟨id, hid, rfl⟩
    rw [List.min?_eq_none_iff.mp hmin] at hmem
    cases hmem
  | some m =>
    refine Or.inr ⟨m, rfl, h.mem_achieved.mp (List.min?_mem hmin), fun id hid => ?_⟩
    exact (List.le_min?_iff hmin).mp (Nat.le_refl m) _ (h.mem_achieved.mpr ⟨id, hid, rfl⟩)

theorem answeredBy_nodup (h : Executed sha256 localeCompare run rs R)
    (hexecutors : run.executors.Nodup) (hsentinel : LOCAL_COMBINE_EXECUTOR ∉ run.executors)
    (hr : r ∈ rs) : (answeredBy R.calls r.node.id).Nodup := by
  obtain ⟨asked, hinitial, hcalls⟩ := (h.spec hr).executors
  have hperm := rendezvousRank_perm sha256 localeCompare r.node.id run.executors
  have hasked : asked.Nodup := (hperm.nodup_iff.mpr hexecutors).sublist hinitial.sublist
  have hnotAsked : LOCAL_COMBINE_EXECUTOR ∉ asked := fun hmem =>
    hsentinel (hperm.subset (hinitial.subset hmem))
  have hnodup : (r.calls.map CombineCall.executorId).Nodup := by
    rcases hcalls with hcalls | hcalls
    · rwa [hcalls]
    · rw [hcalls, List.nodup_cons]
      exact ⟨hnotAsked, hasked⟩
  rw [h.answeredBy_eq hr, filterMap_produced?_executorId]
  exact hnodup.sublist (List.filter_sublist.map _)

theorem replicas_le (h : Executed sha256 localeCompare run rs R) {x : ℚ}
    (hwanted : run.wanted = .finite x) (hr : r ∈ rs) :
    (r.replicas : ℤ) ≤ ⌈x⌉ := by
  have hone : 1 ≤ x := run.one_le_wanted hwanted
  have hceil : (1 : ℤ) ≤ ⌈x⌉ := by
    have : (1 : ℚ) ≤ (⌈x⌉ : ℤ) := le_trans hone (Int.le_ceil x)
    exact_mod_cast this
  have hle := (h.spec hr).replicas_le ⌈x⌉.toNat (by omega) (by
    intro k
    rw [hwanted]
    rcases Nat.lt_or_ge k ⌈x⌉.toNat with hk | hk
    · exact Or.inl hk
    · refine Or.inr (decide_eq_true ?_)
      have hk' : ⌈x⌉ ≤ (k : ℤ) := by omega
      calc x ≤ (⌈x⌉ : ℤ) := Int.le_ceil x
        _ ≤ ((k : ℤ) : ℚ) := by exact_mod_cast hk'
        _ = (k : ℚ) := by norm_cast)
  omega

end Executed

section

variable (sha256 : JsString → List (Fin 256)) (localeCompare : JsString → JsString → Int)

/-- The report is consistent whatever the executors answer.  An empty executor
    list is refused before anything is asked, and reports its root as failed. -/
theorem executeReduce_consistent (run : ReduceRun) (hids : run.tree.ids.Nodup)
    (hlevels : ∀ n ∈ run.tree.nodes, 1 ≤ n.level) :
    (run.executors ≠ [] →
      (executeReduceTraced sha256 localeCompare run).1.Consistent run
        (executeReduceTraced sha256 localeCompare run).2) ∧
    (run.executors = [] →
      executeReduceTraced sha256 localeCompare run = (.noExecutors run.tree, [])) := by
  refine ⟨fun hexecutors => ?_, fun hexecutors => ?_⟩
  · obtain ⟨rs, h⟩ := executeLevels_executed sha256 localeCompare hids
    rw [executeReduceTraced, if_neg hexecutors]
    generalize executeLevels sha256 localeCompare run = R at h
    have hmin : R.minReplicas.getD 0 = 0 ∧ R.executedBy.keys = [] ∨
        (∃ id ∈ R.executedBy.keys, R.minReplicas.getD 0 = (answeredBy R.calls id).length) ∧
        ∀ id ∈ R.executedBy.keys, R.minReplicas.getD 0 ≤ (answeredBy R.calls id).length := by
      rcases h.minReplicas_cases with ⟨hnone, hkeys⟩ | ⟨m, hsome, hmem, hle⟩
      · exact Or.inl ⟨by rw [hnone]; rfl, hkeys⟩
      · rw [hsome]
        exact Or.inr ⟨hmem, hle⟩
    exact {
      failed_or_executed := fun n hn => h.failed_or_executed hn (hlevels n hn)
      combines_eq := by
        show R.combines = R.executedBy.size
        rw [h.describes.combines, InsertionMap.size, h.describes.executedBy]
      attested_iff := h.attested_iff
      local_or_refused := h.local_or_refused
      failed_above := fun n m => h.failed_above hids hlevels
      ok_iff := by
        simp [Report.outcome, Option.isSome_iff_ne_none, and_assoc]
      minReplicas_none := fun hkeys => by
        rcases hmin with ⟨hzero, -⟩ | ⟨⟨id, hid, -⟩, -⟩
        · exact hzero
        · rw [show R.executedBy.keys = [] from hkeys] at hid
          cases hid
      minReplicas_mem := fun hkeys => by
        rcases hmin with ⟨-, hnil⟩ | ⟨hmem, -⟩
        · exact absurd hnil hkeys
        · exact hmem
      minReplicas_le := fun id hid => by
        rcases hmin with ⟨-, hnil⟩ | ⟨-, hle⟩
        · have hmem : id ∈ R.executedBy.keys := hid
          rw [hnil] at hmem
          cases hmem
        · exact hle id hid
      answeredBy_nodup := fun hnodup hsentinel id hid => by
        obtain ⟨r, hr, rfl, -⟩ := h.mem_executedBy.mp hid
        exact h.answeredBy_nodup hnodup hsentinel hr
      minReplicas_bound := fun x hx => by
        show ((R.minReplicas.getD 0 : ℕ) : ℤ) ≤ ⌈x⌉
        rcases hmin with ⟨hzero, -⟩ | ⟨⟨id, hid, heq⟩, -⟩
        · rw [hzero]
          have hone : (1 : ℚ) ≤ x := run.one_le_wanted hx
          have : (0 : ℚ) ≤ (⌈x⌉ : ℤ) := le_trans (by linarith) (Int.le_ceil x)
          exact_mod_cast this
        · obtain ⟨r, hr, rfl, -⟩ := h.mem_executedBy.mp hid
          rw [heq, h.length_answeredBy hr]
          exact h.replicas_le hx hr }
  · rw [executeReduceTraced, if_pos hexecutors]

end

/-! ## Runs outside those bounds -/

/-- Three leaves under two combines. -/
def threeLeafTree : ReduceTree :=
  ⟨[⟨js "a", js "x"⟩, ⟨js "b", js "x"⟩, ⟨js "c", js "x"⟩],
    [⟨js "ab", [js "a", js "b"], 1⟩, ⟨js "abc", [js "ab", js "c"], 2⟩], js "abc", 2, 2⟩

/-- A dispatch every executor answers alike. -/
def alwaysAnswers (cid : Cid) : CombineDispatch := fun _ _ _ => some ⟨cid, .signedByNobody⟩

/-- A run over the three leaves in which every request is answered. -/
def threeLeafRun (executors : List JsString) (redundancy : Option JsNumber) : ReduceRun :=
  ⟨threeLeafTree, executors, alwaysAnswers ⟨js "y", by decide, by decide⟩,
    .combinesNothingLocally, redundancy⟩

/-- What such a run comes to, under a hash that ranks nobody above anybody. -/
def threeLeafOutcome (executors : List JsString) (redundancy : Option JsNumber) :
    ReduceOutcome × List CombineCall :=
  executeReduceTraced (fun _ => []) (fun _ _ => 0) (threeLeafRun executors redundancy)

theorem executeReduce_consistent_threeLeaf :
    ([js "m", js "n"] ≠ [] →
      (threeLeafOutcome [js "m", js "n"] none).1.Consistent (threeLeafRun [js "m", js "n"] none)
        (threeLeafOutcome [js "m", js "n"] none).2) ∧
    ([js "m", js "n"] = [] →
      threeLeafOutcome [js "m", js "n"] none = (.noExecutors threeLeafTree, [])) :=
  executeReduce_consistent _ _ (threeLeafRun [js "m", js "n"] none) (by decide) (by decide)

/-- Where the bounds matter: without executors the inner combine is neither
    executed nor failed; an executor listed twice is two replicas; and a
    redundancy of 3/2 is met by two. -/
theorem executeReduce_outside_bounds :
    (js "ab" ∉ (threeLeafOutcome [] none).1.failed
      ∧ js "ab" ∉ (threeLeafOutcome [] none).1.executedBy.keys) ∧
    ((threeLeafOutcome [js "m", js "m"] (some (.finite 2))).1.minReplicas = 2
      ∧ (distinct (answeredBy (threeLeafOutcome [js "m", js "m"] (some (.finite 2))).2
          (js "ab"))).length = 1) ∧
    ((threeLeafRun [js "m", js "n"] (some (.finite (3 / 2)))).wanted = .finite (3 / 2)
      ∧ 3 / 2 < ((threeLeafOutcome [js "m", js "n"] (some (.finite (3 / 2)))).1.minReplicas : ℚ)) := by
  decide +kernel

end O2Fabric.Reduce

/-! # Tally

What the report says of the results it was made from, for any tree.  Where two
combines have one id the entries of its maps are shared, so a lookup says less
than it does under distinct ids (`Report.Describes`); the lists and the counter
are the results' own.
-/

namespace O2Fabric.Reduce

section

variable (sha256 : JsString → List (Fin 256)) (localeCompare : JsString → JsString → Int)

/-- The results of the levels from `r` on, in the order they are recorded. -/
def resultsFrom (run : ReduceRun) : List Nat → Report → List CombineResult
  | [], _ => []
  | level :: rest, r =>
    (run.tree.atLevel level).map (combine sha256 localeCompare run r.resolved)
      ++ resultsFrom run rest (executeLevel sha256 localeCompare run r level)

def executeResults (run : ReduceRun) : List CombineResult :=
  resultsFrom sha256 localeCompare run (List.range' 1 run.tree.maxLevel) (.start run.tree)

theorem foldl_resultsFrom (run : ReduceRun) (levels : List Nat) (r : Report) :
    (resultsFrom sha256 localeCompare run levels r).foldl Report.record r
      = levels.foldl (executeLevel sha256 localeCompare run) r := by
  induction levels generalizing r with
  | nil => rfl
  | cons level rest ih =>
    rw [resultsFrom, List.foldl_append, List.foldl_cons]
    exact ih _

/-- The report is the results, recorded in order. -/
theorem executeLevels_eq (run : ReduceRun) :
    executeLevels sha256 localeCompare run
      = (executeResults sha256 localeCompare run).foldl Report.record (.start run.tree) :=
  (foldl_resultsFrom sha256 localeCompare run _ _).symm

theorem History.resultsFrom {run : ReduceRun} {done : List Nat} {rs : List CombineResult}
    (h : History sha256 localeCompare run done rs) (levels : List Nat) :
    History sha256 localeCompare run (done ++ levels)
      (rs ++ Reduce.resultsFrom sha256 localeCompare run levels
        (rs.foldl Report.record (.start run.tree))) := by
  induction levels generalizing done rs with
  | nil =>
    rw [List.append_nil, Reduce.resultsFrom, List.append_nil]
    exact h
  | cons level rest ih =>
    have hnext := ih (h.level level)
    rw [List.append_assoc, List.append_assoc, List.foldl_append] at hnext
    exact hnext

/-- Under distinct ids the results and the report are all that `Executed` says. -/
theorem executeResults_executed {run : ReduceRun} (hids : run.tree.ids.Nodup) :
    Executed sha256 localeCompare run (executeResults sha256 localeCompare run)
      (executeLevels sha256 localeCompare run) := by
  have hhistory := History.resultsFrom sha256 localeCompare (.start : History _ _ run [] [])
    (List.range' 1 run.tree.maxLevel)
  rw [executeLevels_eq]
  exact Executed.of_history hids hhistory

/-- Every result is a combine over values resolved before it. -/
theorem mem_resultsFrom {run : ReduceRun} {levels : List Nat} {r : Report} {result : CombineResult}
    (h : result ∈ resultsFrom sha256 localeCompare run levels r) :
    ∃ resolved, result = combine sha256 localeCompare run resolved result.node := by
  induction levels generalizing r with
  | nil => cases h
  | cons level rest ih =>
    rcases List.mem_append.mp h with hin | hin
    · obtain ⟨node, -, rfl⟩ := List.mem_map.mp hin
      exact ⟨r.resolved, by rw [combine_node]⟩
    · exact ih hin

/-- The results are of the nodes, level by level. -/
theorem map_node_resultsFrom (run : ReduceRun) (levels : List Nat) (r : Report) :
    (resultsFrom sha256 localeCompare run levels r).map CombineResult.node
      = levels.flatMap run.tree.atLevel := by
  induction levels generalizing r with
  | nil => rfl
  | cons level rest ih =>
    rw [resultsFrom, List.map_append, ih, List.map_map, List.flatMap_cons]
    congr 1
    conv => rhs; rw [← List.map_id (run.tree.atLevel level)]
    apply List.map_congr_left
    exact fun node _ => combine_node sha256 localeCompare run r.resolved node

/-- Every node at a level of at least one has a result, and every result is a
    node's. -/
theorem exists_result_iff (run : ReduceRun) {node : ReduceTreeNode} :
    (∃ result ∈ executeResults sha256 localeCompare run, result.node = node) ↔
      node ∈ run.tree.nodes ∧ 1 ≤ node.level := by
  have hnodes := map_node_resultsFrom sha256 localeCompare run
    (List.range' 1 run.tree.maxLevel) (.start run.tree)
  rw [← List.mem_map, executeResults, hnodes, List.mem_flatMap]
  constructor
  · rintro ⟨level, hlevel, hin⟩
    obtain ⟨hnode, heq⟩ := List.mem_filter.mp hin
    rw [of_decide_eq_true heq]
    exact ⟨hnode, (List.mem_range'_1.mp hlevel).1⟩
  · rintro ⟨hnode, hone⟩
    have hle := level_le_maxLevel hnode
    exact ⟨node.level, List.mem_range'_1.mpr ⟨hone, by omega⟩,
      List.mem_filter.mpr ⟨hnode, by simp⟩⟩

end

/-! ## The tally -/

/-- What the report owes to the results, whatever their ids. -/
structure Report.Tallies (tree : ReduceTree) (rs : List CombineResult) (R : Report) : Prop where
  resolves : ∀ id, (R.resolved.get? id).isSome = true ↔
    id ∈ tree.leaves.map ReduceLeaf.id ∨ ∃ r ∈ rs, r.node.id = id ∧ r.accepted ≠ none
  attests : ∀ id, id ∈ R.attestations.keys ↔
    ∃ r ∈ rs, r.node.id = id ∧ r.accepted ≠ none ∧ ¬ 1 < r.cids.length
  failed : R.failed = rs.filterMap CombineResult.failure?
  locallyCombined : R.locallyCombined = rs.filterMap CombineResult.local?
  disagreements : R.disagreements = rs.filterMap CombineResult.disagreement?
  minReplicas : R.minReplicas = (rs.filterMap CombineResult.achieved?).foldl minWith none
  calls : R.calls = rs.flatMap CombineResult.calls

theorem Report.Tallies.start (tree : ReduceTree) : (Report.start tree).Tallies tree [] := by
  refine ⟨?_, ?_, rfl, rfl, rfl, rfl, rfl⟩
  · intro id
    show ((InsertionMap.ofPairs (tree.leaves.map fun leaf => (leaf.id, leaf.cid))).get? id).isSome
      = true ↔ _
    rw [InsertionMap.get?_isSome, InsertionMap.mem_keys_ofPairs, List.map_map]
    constructor
    · exact Or.inl
    · rintro (hleaf | ⟨r, hr, -⟩)
      · exact hleaf
      · cases hr
  · intro id
    constructor
    · intro hid
      cases hid
    · rintro ⟨r, hr, -⟩
      cases hr

/-- One pass of the recording loop. -/
theorem Report.Tallies.record {tree : ReduceTree} {rs : List CombineResult} {R : Report}
    (h : R.Tallies tree rs) (r : CombineResult) : (R.record r).Tallies tree (rs ++ [r]) := by
  have hsnoc : ∀ (P : CombineResult → Prop),
      (∃ r' ∈ rs ++ [r], P r') ↔ (∃ r' ∈ rs, P r') ∨ P r := by
    intro P
    simp only [List.mem_append, List.mem_singleton, or_and_right, exists_or, exists_eq_left]
  cases haccepted : r.accepted with
  | none =>
    have hrecord : R.record r = { R with
        calls := R.calls ++ r.calls
        localRefusals := pushRefusal R.localRefusals r.node.id r.localRefusal
        failed := R.failed ++ [r.node.id] } := by
      unfold Report.record
      dsimp only
      rw [haccepted]
    rw [hrecord]
    refine ⟨?_, ?_, ?_, ?_, ?_, ?_, ?_⟩
    · intro id
      rw [h.resolves id, hsnoc]
      constructor
      · rintro (hleaf | hbefore)
        · exact Or.inl hleaf
        · exact Or.inr (Or.inl hbefore)
      · rintro (hleaf | hbefore | ⟨-, hsome⟩)
        · exact Or.inl hleaf
        · exact Or.inr hbefore
        · exact absurd haccepted hsome
    · intro id
      rw [h.attests id, hsnoc]
      constructor
      · exact Or.inl
      · rintro (hbefore | ⟨-, hsome, -⟩)
        · exact hbefore
        · exact absurd haccepted hsome
    · rw [List.filterMap_append, h.failed]
      simp [CombineResult.failure?, haccepted]
    · rw [List.filterMap_append, h.locallyCombined]
      simp [CombineResult.local?, haccepted]
    · rw [List.filterMap_append, h.disagreements]
      simp [CombineResult.disagreement?, haccepted]
    · rw [List.filterMap_append, h.minReplicas]
      simp [CombineResult.achieved?, haccepted]
    · rw [List.flatMap_append, h.calls]
      simp
  | some accepted =>
    have hresolves : ∀ id, ((R.resolved.set r.node.id accepted.cid).get? id).isSome = true ↔
        id ∈ tree.leaves.map ReduceLeaf.id ∨
          ∃ r' ∈ rs ++ [r], r'.node.id = id ∧ r'.accepted ≠ none := by
      intro id
      rw [InsertionMap.get?_isSome, InsertionMap.mem_keys_set, ← InsertionMap.get?_isSome,
        h.resolves id, hsnoc]
      constructor
      · rintro ((hleaf | hbefore) | rfl)
        · exact Or.inl hleaf
        · exact Or.inr (Or.inl hbefore)
        · exact Or.inr (Or.inr ⟨rfl, by rw [haccepted]; exact Option.some_ne_none _⟩)
      · rintro (hleaf | hbefore | ⟨rfl, -⟩)
        · exact Or.inl (Or.inl hleaf)
        · exact Or.inl (Or.inr hbefore)
        · exact Or.inr rfl
    have hfailed : R.failed = (rs ++ [r]).filterMap CombineResult.failure? := by
      simp [h.failed, CombineResult.failure?, haccepted]
    have hlocally : (if r.combinedLocally then R.locallyCombined ++ [r.node.id]
        else R.locallyCombined) = (rs ++ [r]).filterMap CombineResult.local? := by
      cases hlocal : r.combinedLocally <;>
        simp [h.locallyCombined, CombineResult.local?, haccepted, hlocal]
    have hachieved : minWith R.minReplicas r.replicas
        = ((rs ++ [r]).filterMap CombineResult.achieved?).foldl minWith none := by
      simp [h.minReplicas, CombineResult.achieved?, haccepted]
    have hcalls : R.calls ++ r.calls = (rs ++ [r]).flatMap CombineResult.calls := by
      simp [h.calls]
    unfold Report.record
    dsimp only
    rw [haccepted]
    dsimp only
    split
    · next hmany =>
      refine ⟨hresolves, ?_, hfailed, hlocally, ?_, hachieved, hcalls⟩
      · intro id
        rw [h.attests id, hsnoc]
        constructor
        · exact Or.inl
        · rintro (hbefore | ⟨-, -, hfew⟩)
          · exact hbefore
          · exact absurd hmany hfew
      · simp [h.disagreements, CombineResult.disagreement?, hmany, haccepted]
    · next hfew =>
      refine ⟨hresolves, ?_, hfailed, hlocally, ?_, hachieved, hcalls⟩
      · intro id
        rw [InsertionMap.mem_keys_set, h.attests id, hsnoc]
        constructor
        · rintro (hbefore | rfl)
          · exact Or.inl hbefore
          · exact Or.inr ⟨rfl, by rw [haccepted]; exact Option.some_ne_none _, hfew⟩
        · rintro (hbefore | ⟨rfl, -, -⟩)
          · exact Or.inl hbefore
          · exact Or.inr rfl
      · simp [h.disagreements, CombineResult.disagreement?, hfew]

/-- What the report of a run owes to its results. -/
theorem executeLevels_tallies (sha256 : JsString → List (Fin 256))
    (localeCompare : JsString → JsString → Int) (run : ReduceRun) :
    (executeLevels sha256 localeCompare run).Tallies run.tree
      (executeResults sha256 localeCompare run) := by
  rw [executeLevels_eq]
  induction executeResults sha256 localeCompare run using List.reverseRecOn with
  | nil => exact .start run.tree
  | append_singleton rs r ih =>
    rw [List.foldl_concat]
    exact ih.record r

end O2Fabric.Reduce
