/-
  O2Fabric.Core.Reduce.History

  `executeReduce` seen as the list of its results.  Each combine keeps enough to
  say what it gathered (`combine_spec`); the level loop is one fold of
  `Report.record` over the results in order (`executeLevels_history`); and the
  maps and counters that fold fills are projections of that list
  (`Report.Describes`).
-/

import O2Fabric.Core.Reduce.Execute
import Mathlib.Data.List.Induction

namespace O2Fabric.Reduce

/-! ## What one combine gathers -/

/-- The accepted answer a request led to. -/
def CombineCall.produced? (call : CombineCall) : Option Produced :=
  call.answer.map fun product => ⟨product.cid.toText, call.executorId, product.attestation⟩

/-- A walk keeps the answers of its requests, all of them about one task. -/
structure Walk.Sound (task : CombineTask) (w : Walk) : Prop where
  produced_eq : w.produced = w.calls.filterMap CombineCall.produced?
  task_eq : ∀ call ∈ w.calls, call.task = task

/-- Whatever a dispatch answers satisfies `Answer`. -/
def CombineDispatch.Answers (dispatch : CombineDispatch)
    (Answer : CombineTask → CombineProduct → Prop) : Prop :=
  ∀ task call executorId product, dispatch task call executorId = some product →
    Answer task product

/-- Whatever the walk was answered satisfies `Answer`. -/
def Walk.AnsweredBy (Answer : CombineTask → CombineProduct → Prop) (w : Walk) :
    Prop :=
  ∀ call ∈ w.calls, ∀ product, call.answer = some product → Answer call.task product

section

variable {dispatch : CombineDispatch} {task : CombineTask} {w : Walk}

theorem Walk.Sound.ask (h : w.Sound task) (executorId : JsString) :
    (w.ask dispatch task executorId).Sound task := by
  rw [Walk.ask]
  split
  · refine ⟨?_, ?_⟩
    · simp [h.produced_eq, CombineCall.produced?]
    · intro call hcall
      rcases List.mem_append.mp hcall with hcall | hcall
      · exact h.task_eq call hcall
      · rw [List.mem_singleton.mp hcall]
  · refine ⟨?_, ?_⟩
    · simp [h.produced_eq, CombineCall.produced?]
    · intro call hcall
      rcases List.mem_append.mp hcall with hcall | hcall
      · exact h.task_eq call hcall
      · rw [List.mem_singleton.mp hcall]

variable {wanted : JsNumber}

theorem Walk.Sound.walkRanking (h : w.Sound task) (ranked : List JsString) :
    (walkRanking dispatch task wanted ranked w).Sound task := by
  induction ranked generalizing w with
  | nil => exact h
  | cons executorId rest ih =>
    rw [Reduce.walkRanking]
    split
    · exact h
    · exact ih (h.ask executorId)

theorem Walk.AnsweredBy.ask {Answer : CombineTask → CombineProduct → Prop}
    (h : w.AnsweredBy Answer)
    (hdispatch : dispatch.Answers Answer)
    (executorId : JsString) : (w.ask dispatch task executorId).AnsweredBy Answer := by
  rw [Walk.ask]
  split
  · intro call hcall product hanswer
    rcases List.mem_append.mp hcall with hcall | hcall
    · exact h call hcall product hanswer
    · rw [List.mem_singleton.mp hcall] at hanswer
      cases hanswer
  · next product' hproduct =>
    intro call hcall product hanswer
    rcases List.mem_append.mp hcall with hcall | hcall
    · exact h call hcall product hanswer
    · rw [List.mem_singleton.mp hcall] at hanswer ⊢
      obtain rfl := Option.some.inj hanswer
      exact hdispatch _ _ _ _ hproduct

theorem Walk.AnsweredBy.walkRanking {Answer : CombineTask → CombineProduct → Prop}
    (h : w.AnsweredBy Answer) (hdispatch : dispatch.Answers Answer) (ranked : List JsString) :
    (walkRanking dispatch task wanted ranked w).AnsweredBy Answer := by
  induction ranked generalizing w with
  | nil => exact h
  | cons executorId rest ih =>
    rw [Reduce.walkRanking]
    split
    · exact h
    · exact ih (h.ask hdispatch executorId)

/-- The walk asks a prefix of the ranking, in order. -/
theorem walkRanking_executors {wanted : JsNumber} (ranked : List JsString) (w : Walk) :
    ∃ asked, asked <+: ranked ∧
      (walkRanking dispatch task wanted ranked w).calls.map CombineCall.executorId
        = w.calls.map CombineCall.executorId ++ asked := by
  induction ranked generalizing w with
  | nil => exact ⟨[], List.nil_prefix, by simp [walkRanking]⟩
  | cons executorId rest ih =>
    rw [walkRanking]
    split
    · exact ⟨[], List.nil_prefix, by simp⟩
    · obtain ⟨asked, hinitial, hcalls⟩ := ih (w.ask dispatch task executorId)
      refine ⟨executorId :: asked, (List.prefix_cons_inj _).mpr hinitial, ?_⟩
      rw [hcalls, Walk.ask]
      split <;> simp

/-- The walk adds the answers of its dispatch to the requests made before it. -/
theorem walkRanking_calls {wanted : JsNumber} (ranked : List JsString) (w : Walk) :
    ∃ asked, (walkRanking dispatch task wanted ranked w).calls = w.calls ++ asked ∧
      ∀ call ∈ asked, call.task = task ∧ ∃ n, call.answer = dispatch task n call.executorId := by
  induction ranked generalizing w with
  | nil => exact ⟨[], (List.append_nil _).symm, fun call hcall => absurd hcall List.not_mem_nil⟩
  | cons executorId rest ih =>
    rw [walkRanking]
    split
    · exact ⟨[], (List.append_nil _).symm, fun call hcall => absurd hcall List.not_mem_nil⟩
    · obtain ⟨asked, hcalls, hasked⟩ := ih (w.ask dispatch task executorId)
      have hask : (w.ask dispatch task executorId).calls
          = w.calls ++ [⟨task, executorId, dispatch task w.calls.length executorId⟩] := by
        rw [Walk.ask]
        split
        · next hnone => rw [hnone]
        · next product hsome => rw [hsome]
      refine ⟨⟨task, executorId, dispatch task w.calls.length executorId⟩ :: asked, ?_, ?_⟩
      · rw [hcalls, hask, List.append_assoc, List.singleton_append]
      · intro call hcall
        rcases List.mem_cons.mp hcall with rfl | hcall
        · exact ⟨rfl, w.calls.length, rfl⟩
        · exact hasked call hcall

/-- An answer is only asked for while the count is short of `wanted`. -/
theorem length_produced_walkRanking {bound : Nat}
    (hbound : ∀ k, k < bound ∨ JsNumber.reachedBy k wanted) (ranked : List JsString) {w : Walk}
    (hw : w.produced.length ≤ bound) :
    (walkRanking dispatch task wanted ranked w).produced.length ≤ bound := by
  induction ranked generalizing w with
  | nil => exact hw
  | cons executorId rest ih =>
    rw [walkRanking]
    split
    · exact hw
    · next hshort =>
      refine ih ?_
      have hlt := (hbound w.produced.length).resolve_right hshort
      rw [Walk.ask]
      split
      · exact hw
      · rw [List.length_append, List.length_singleton]
        exact hlt

end

/-- The requestor's own attempt: at most one request, to itself. -/
structure LocalAttempt.Sound (task : CombineTask) (a : LocalAttempt) : Prop where
  walk : a.walk.Sound task
  produced_le : a.walk.produced.length ≤ 1
  executors : a.walk.calls.map CombineCall.executorId = []
    ∨ a.walk.calls.map CombineCall.executorId = [LOCAL_COMBINE_EXECUTOR]
  locally : a.combinedLocally = true → a.localRefusal = none

theorem combineLocally_sound (localCombine : LocalCombine) (task : CombineTask) :
    (combineLocally localCombine task).Sound task := by
  unfold combineLocally
  split
  · exact ⟨⟨rfl, by simp⟩, by simp, Or.inl rfl, by simp⟩
  · split
    · exact ⟨⟨rfl, by simp⟩, by simp, Or.inl rfl, by simp⟩
    · split
      · exact ⟨⟨rfl, by simp⟩, by simp, Or.inr rfl, by simp⟩
      · exact ⟨⟨rfl, by simp⟩, by simp, Or.inr rfl, by simp⟩

/-- Whatever the requestor's own combiner answers satisfies `Answer`. -/
def LocalCombine.Answers (localCombine : LocalCombine)
    (Answer : CombineTask → CombineProduct → Prop) : Prop :=
  ∀ p, localCombine = .placement p → p.dispatch.Answers Answer

theorem combineLocally_answeredBy {Answer : CombineTask → CombineProduct → Prop}
    {localCombine : LocalCombine} (h : localCombine.Answers Answer) (task : CombineTask) :
    (combineLocally localCombine task).walk.AnsweredBy Answer := by
  have hnone : ∀ calls : List CombineCall, (∀ call ∈ calls, call.answer = none) →
      (Walk.mk [] 0 calls).AnsweredBy Answer := by
    intro calls hcalls call hcall product hanswer
    rw [hcalls call hcall] at hanswer
    cases hanswer
  unfold combineLocally
  split
  · exact hnone [] (by simp)
  · next p =>
    split
    · exact hnone [] (by simp)
    · split
      · exact hnone _ (by simp)
      · next product hproduct =>
        intro call hcall product' hanswer
        rw [List.mem_singleton.mp hcall] at hanswer ⊢
        obtain rfl := Option.some.inj hanswer
        exact h p rfl _ _ _ _ hproduct

/-- One combine, as far as its report entries depend on it. -/
structure CombineSpec (ranked : List JsString) (wanted : JsNumber)
    (resolved : InsertionMap JsString JsString) (r : CombineResult) : Prop where
  /-- What was accepted is the first answer, and every answer is a replica. -/
  accepted_eq : r.accepted = (r.calls.filterMap CombineCall.produced?).head?
  replicas_eq : r.replicas = (r.calls.filterMap CombineCall.produced?).length
  cids_eq : r.cids = distinct ((r.calls.filterMap CombineCall.produced?).map Produced.cid)
  /-- Every request names the node and the values resolved below it. -/
  task_eq : ∀ call ∈ r.calls, ∃ inputCids, r.node.children.mapM resolved.get? = some inputCids
    ∧ call.task = ⟨r.node.id, inputCids, r.node.level⟩
  /-- A combine that accepted anything had every input. -/
  inputs : r.accepted ≠ none → r.node.children.mapM resolved.get? ≠ none
  locally : r.combinedLocally = true → r.localRefusal = none
  /-- Who was asked: the requestor at most once, then the ranking's first. -/
  executors : ∃ asked, asked <+: ranked ∧ (r.calls.map CombineCall.executorId = asked
    ∨ r.calls.map CombineCall.executorId = LOCAL_COMBINE_EXECUTOR :: asked)
  replicas_le : ∀ bound, 1 ≤ bound → (∀ k, k < bound ∨ JsNumber.reachedBy k wanted) →
    r.replicas ≤ bound

section

variable (sha256 : JsString → List (Fin 256)) (localeCompare : JsString → JsString → Int)

theorem combine_node (run : ReduceRun) (resolved : InsertionMap JsString JsString)
    (node : ReduceTreeNode) : (combine sha256 localeCompare run resolved node).node = node := by
  unfold combine
  split
  · rfl
  · dsimp only
    split <;> rfl

/-- Everything a combine gathers, its own attempt and the ranking together. -/
theorem gather_spec (run : ReduceRun) (task : CombineTask) :
    let g := gather sha256 localeCompare run task
    g.walk.Sound task ∧ (g.combinedLocally = true → g.localRefusal = none)
      ∧ (∃ asked, asked <+: rendezvousRank sha256 localeCompare task.nodeId run.executors ∧
        (g.walk.calls.map CombineCall.executorId = asked
          ∨ g.walk.calls.map CombineCall.executorId = LOCAL_COMBINE_EXECUTOR :: asked))
      ∧ ∀ bound, 1 ≤ bound → (∀ k, k < bound ∨ JsNumber.reachedBy k run.wanted) →
        g.walk.produced.length ≤ bound := by
  intro g
  have hlocal := combineLocally_sound run.localCombine task
  obtain ⟨asked, hinitial, hcalls⟩ := @walkRanking_executors run.dispatch task run.wanted
    (rendezvousRank sha256 localeCompare task.nodeId run.executors)
    (combineLocally run.localCombine task).walk
  refine ⟨hlocal.walk.walkRanking _, hlocal.locally, ⟨asked, hinitial, ?_⟩, ?_⟩
  · rcases hlocal.executors with h | h
    · exact Or.inl (by rw [show g.walk.calls.map _ = _ from hcalls, h, List.nil_append])
    · exact Or.inr (by rw [show g.walk.calls.map _ = _ from hcalls, h, List.singleton_append])
  · intro bound hone hbound
    exact length_produced_walkRanking hbound _ (Nat.le_trans hlocal.produced_le hone)

theorem combine_spec (run : ReduceRun) (resolved : InsertionMap JsString JsString)
    (node : ReduceTreeNode) :
    CombineSpec (rendezvousRank sha256 localeCompare node.id run.executors) run.wanted resolved
      (combine sha256 localeCompare run resolved node) := by
  unfold combine
  split
  · -- Nothing was asked.
    exact ⟨rfl, rfl, rfl, by simp, by simp, by simp, ⟨[], List.nil_prefix, Or.inl rfl⟩,
      fun _ _ _ => Nat.zero_le _⟩
  · next inputCids hinputs =>
    obtain ⟨hsound, hlocally, hexecutors, hbound⟩ :=
      gather_spec sha256 localeCompare run ⟨node.id, inputCids, node.level⟩
    dsimp only
    split
    · next hproduced =>
      have hnone := hsound.produced_eq
      rw [hproduced] at hnone
      exact ⟨by simp [← hnone], by simp [← hnone], by simp [← hnone, distinct],
        fun call hcall => ⟨inputCids, hinputs, hsound.task_eq call hcall⟩, by simp, hlocally,
        hexecutors, fun _ _ _ => Nat.zero_le _⟩
    · next accepted others hproduced =>
      have hsome := hsound.produced_eq
      rw [hproduced] at hsome
      refine ⟨by simp [← hsome], by simp [← hsome], by simp only [← hsome],
        fun call hcall => ⟨inputCids, hinputs, hsound.task_eq call hcall⟩, ?_, hlocally,
        hexecutors, ?_⟩
      · intro _
        simp [hinputs]
      · intro bound hone hreached
        simpa [hproduced] using hbound bound hone hreached

/-- The requests of one combine: the requestor's own, if it was admitted, and then the
    executors', about one task. -/
inductive CombineCalls (run : ReduceRun) (r : CombineResult) : Prop
  | none : r.calls = [] → CombineCalls run r
  | asked (task : CombineTask) :
      (∀ p, run.localCombine = .placement p → p.admits task ≠ .ok) →
      (∀ call ∈ r.calls, call.task = task ∧
        ∃ n, call.answer = run.dispatch task n call.executorId) → CombineCalls run r
  | local_ (task : CombineTask) (p : LocalCombinePlacement) (answer : Option CombineProduct)
      (asked : List CombineCall) :
      run.localCombine = .placement p → p.admits task = .ok →
      r.calls = ⟨task, LOCAL_COMBINE_EXECUTOR, answer⟩ :: asked →
      r.combinedLocally = answer.isSome →
      (∀ call ∈ asked, call.task = task ∧
        ∃ n, call.answer = run.dispatch task n call.executorId) → CombineCalls run r

theorem combine_calls (run : ReduceRun) (resolved : InsertionMap JsString JsString)
    (node : ReduceTreeNode) :
    CombineCalls run (combine sha256 localeCompare run resolved node) := by
  unfold combine
  split
  · exact .none rfl
  · next inputCids _ =>
    generalize htask : CombineTask.mk node.id inputCids node.level = task
    obtain ⟨asked, hcalls, hasked⟩ := @walkRanking_calls run.dispatch task run.wanted
      (rendezvousRank sha256 localeCompare task.nodeId run.executors)
      (combineLocally run.localCombine task).walk
    -- Both forms of the result carry the walk's requests and what the requestor did.
    have hresult : ∀ r : CombineResult,
        r.calls = (gather sha256 localeCompare run task).walk.calls →
        r.combinedLocally = (gather sha256 localeCompare run task).combinedLocally →
        CombineCalls run r := by
      intro r hrcalls hrlocal
      have hr : r.calls = (combineLocally run.localCombine task).walk.calls ++ asked :=
        hrcalls.trans hcalls
      have hl : r.combinedLocally = (combineLocally run.localCombine task).combinedLocally :=
        hrlocal
      cases hlocalCombine : run.localCombine with
      | combinesNothingLocally =>
        rw [hlocalCombine] at hr
        refine .asked task (fun p hp => ?_) ?_
        · rw [hlocalCombine] at hp
          cases hp
        · rw [hr]
          exact hasked
      | placement p =>
        rw [hlocalCombine] at hr hl
        unfold combineLocally at hr hl
        cases hadmits : p.admits task with
        | refused reason =>
          simp only [hadmits, List.nil_append] at hr
          refine .asked task (fun p' hp' => ?_) ?_
          · rw [hlocalCombine] at hp'
            cases hp'
            rw [hadmits]
            intro h
            cases h
          · rw [hr]
            exact hasked
        | ok =>
          cases hanswer : p.dispatch task 0 LOCAL_COMBINE_EXECUTOR with
          | none =>
            simp only [hadmits, hanswer, List.singleton_append] at hr hl
            exact .local_ task p none asked hlocalCombine hadmits hr hl hasked
          | some product =>
            simp only [hadmits, hanswer, List.singleton_append] at hr hl
            exact .local_ task p (some product) asked hlocalCombine hadmits hr hl hasked
    dsimp only
    split
    · exact hresult _ rfl rfl
    · exact hresult _ rfl rfl

theorem combine_answeredBy {Answer : CombineTask → CombineProduct → Prop} {run : ReduceRun}
    (hdispatch : run.dispatch.Answers Answer) (hlocal : run.localCombine.Answers Answer)
    (resolved : InsertionMap JsString JsString) (node : ReduceTreeNode) :
    ∀ call ∈ (combine sha256 localeCompare run resolved node).calls, ∀ product,
      call.answer = some product → Answer call.task product := by
  unfold combine
  split
  · simp
  · next inputCids hinputs =>
    have hgather : (gather sha256 localeCompare run
        ⟨node.id, inputCids, node.level⟩).walk.AnsweredBy Answer :=
      (combineLocally_answeredBy hlocal _).walkRanking hdispatch _
    dsimp only
    split
    · exact hgather
    · exact hgather

end

/-! ## The loop as one fold -/

section

variable (sha256 : JsString → List (Fin 256)) (localeCompare : JsString → JsString → Int)

/-- The results of the levels done so far, in the order they were recorded. -/
inductive History (run : ReduceRun) : List Nat → List CombineResult → Prop
  | start : History run [] []
  | level {levels : List Nat} {rs : List CombineResult} (level : Nat) :
      History run levels rs →
      History run (levels ++ [level]) (rs ++ (run.tree.atLevel level).map
        (combine sha256 localeCompare run
          (rs.foldl Report.record (.start run.tree)).resolved))

theorem executeLevels_history (run : ReduceRun) :
    ∃ rs, History sha256 localeCompare run (List.range' 1 run.tree.maxLevel) rs ∧
      executeLevels sha256 localeCompare run = rs.foldl Report.record (.start run.tree) := by
  rw [executeLevels]
  induction List.range' 1 run.tree.maxLevel using List.reverseRecOn with
  | nil => exact ⟨[], .start, rfl⟩
  | append_singleton levels level ih =>
    obtain ⟨rs, hhistory, heq⟩ := ih
    refine ⟨_, hhistory.level level, ?_⟩
    rw [List.foldl_append, List.foldl_append, heq]
    rfl

end

/-! ## The report as projections of the results -/

namespace CombineResult

/-- The entry a result adds to each map and list of the report, if any. -/
def resolution? (r : CombineResult) : Option (JsString × JsString) :=
  r.accepted.map fun accepted => (r.node.id, accepted.cid)

def executor? (r : CombineResult) : Option (JsString × JsString) :=
  r.accepted.map fun accepted => (r.node.id, accepted.executorId)

def attested? (r : CombineResult) : Option (JsString × AttestedResult) :=
  if 1 < r.cids.length then none
  else r.accepted.map fun accepted => (r.node.id, accepted.attestation)

def disagreement? (r : CombineResult) : Option (JsString × List JsString) :=
  if 1 < r.cids.length then r.accepted.map fun _ => (r.node.id, r.cids) else none

def failure? (r : CombineResult) : Option JsString :=
  if r.accepted = none then some r.node.id else none

def local? (r : CombineResult) : Option JsString :=
  if r.combinedLocally then r.accepted.map fun _ => r.node.id else none

def refusal? (r : CombineResult) : Option (JsString × JsString) :=
  r.localRefusal.map fun reason => (r.node.id, reason)

def achieved? (r : CombineResult) : Option Nat := r.accepted.map fun _ => r.replicas

end CombineResult

/-- The report is what the results, taken in order, add up to. -/
structure Report.Describes (tree : ReduceTree) (rs : List CombineResult) (R : Report) : Prop where
  resolved : R.resolved.entries
    = tree.leaves.map (fun leaf => (leaf.id, leaf.cid)) ++ rs.filterMap CombineResult.resolution?
  executedBy : R.executedBy.entries = rs.filterMap CombineResult.executor?
  attestations : R.attestations.entries = rs.filterMap CombineResult.attested?
  failed : R.failed = rs.filterMap CombineResult.failure?
  locallyCombined : R.locallyCombined = rs.filterMap CombineResult.local?
  localRefusals : R.localRefusals = rs.filterMap CombineResult.refusal?
  disagreements : R.disagreements = rs.filterMap CombineResult.disagreement?
  combines : R.combines = (rs.filterMap CombineResult.executor?).length
  minReplicas : R.minReplicas = (rs.filterMap CombineResult.achieved?).foldl minWith none
  calls : R.calls = rs.flatMap CombineResult.calls

/-- Distinct ids: those of the leaves and of the nodes recorded so far. -/
def idsOf (tree : ReduceTree) (rs : List CombineResult) : List JsString :=
  tree.leaves.map ReduceLeaf.id ++ rs.map fun r => r.node.id

theorem keys_filterMap_subset {β : Type} {f : CombineResult → Option (JsString × β)}
    (hf : ∀ r e, f r = some e → e.1 = r.node.id) (rs : List CombineResult) :
    ∀ id ∈ (rs.filterMap f).map Prod.fst, id ∈ rs.map fun r => r.node.id := by
  intro id hid
  obtain ⟨e, he, rfl⟩ := List.mem_map.mp hid
  obtain ⟨r, hr, hre⟩ := List.mem_filterMap.mp he
  exact List.mem_map.mpr ⟨r, hr, (hf r e hre).symm⟩

variable {r : CombineResult}

theorem resolution?_fst {e : JsString × JsString} (h : r.resolution? = some e) :
    e.1 = r.node.id := by
  obtain ⟨accepted, -, rfl⟩ := Option.map_eq_some_iff.mp h
  rfl

theorem executor?_fst {e : JsString × JsString} (h : r.executor? = some e) : e.1 = r.node.id := by
  obtain ⟨accepted, -, rfl⟩ := Option.map_eq_some_iff.mp h
  rfl

theorem attested?_fst {e : JsString × AttestedResult} (h : r.attested? = some e) :
    e.1 = r.node.id := by
  rw [CombineResult.attested?] at h
  split at h
  · cases h
  · obtain ⟨accepted, -, rfl⟩ := Option.map_eq_some_iff.mp h
    rfl

variable {tree : ReduceTree}

theorem Report.Describes.start (hids : (tree.leaves.map ReduceLeaf.id).Nodup) :
    (Report.start tree).Describes tree [] := by
  refine ⟨?_, rfl, rfl, rfl, rfl, rfl, rfl, rfl, rfl, rfl⟩
  rw [Report.start, InsertionMap.ofPairs_entries, List.filterMap_nil, List.append_nil]
  rwa [List.map_map]

/-- One pass of the recording loop. -/
theorem Report.Describes.record {tree : ReduceTree} {rs : List CombineResult} {R : Report}
    (h : R.Describes tree rs) {r : CombineResult} (hids : (idsOf tree (rs ++ [r])).Nodup) :
    (R.record r).Describes tree (rs ++ [r]) := by
  rw [idsOf, List.map_append, ← List.append_assoc, List.nodup_append] at hids
  have hfresh : r.node.id ∉ tree.leaves.map ReduceLeaf.id ++ rs.map fun r => r.node.id :=
    fun hmem => hids.2.2 _ hmem _ (by simp) rfl
  have hresolved : r.node.id ∉ R.resolved.keys := by
    rw [InsertionMap.keys, h.resolved, List.map_append, List.map_map]
    intro hmem
    refine hfresh (List.mem_append.mpr ?_)
    exact (List.mem_append.mp hmem).imp_right
      (keys_filterMap_subset (fun _ _ => resolution?_fst) rs _)
  have hexecuted : r.node.id ∉ R.executedBy.keys := by
    rw [InsertionMap.keys, h.executedBy]
    exact fun hmem => hfresh (List.mem_append_right _
      (keys_filterMap_subset (fun _ _ => executor?_fst) rs _ hmem))
  have hattested : r.node.id ∉ R.attestations.keys := by
    rw [InsertionMap.keys, h.attestations]
    exact fun hmem => hfresh (List.mem_append_right _
      (keys_filterMap_subset (fun _ _ => attested?_fst) rs _ hmem))
  have hrefusals : pushRefusal R.localRefusals r.node.id r.localRefusal
      = (rs ++ [r]).filterMap CombineResult.refusal? := by
    cases hrefusal : r.localRefusal <;>
      simp [h.localRefusals, CombineResult.refusal?, hrefusal, pushRefusal]
  have hcalls : R.calls ++ r.calls = (rs ++ [r]).flatMap CombineResult.calls := by
    simp [h.calls]
  unfold Report.record
  cases haccepted : r.accepted with
  | none =>
    constructor
    · simp [h.resolved, CombineResult.resolution?, haccepted]
    · simp [h.executedBy, CombineResult.executor?, haccepted]
    · simp [h.attestations, CombineResult.attested?, haccepted]
    · simp [h.failed, CombineResult.failure?, haccepted]
    · simp [h.locallyCombined, CombineResult.local?, haccepted]
    · exact hrefusals
    · simp [h.disagreements, CombineResult.disagreement?, haccepted]
    · simp [h.combines, CombineResult.executor?, haccepted]
    · simp [h.minReplicas, CombineResult.achieved?, haccepted]
    · exact hcalls
  | some accepted =>
    have hlocally : (if r.combinedLocally then R.locallyCombined ++ [r.node.id]
        else R.locallyCombined) = (rs ++ [r]).filterMap CombineResult.local? := by
      cases hlocal : r.combinedLocally <;>
        simp [h.locallyCombined, CombineResult.local?, haccepted, hlocal]
    have hresolution : (R.resolved.set r.node.id accepted.cid).entries
        = tree.leaves.map (fun leaf => (leaf.id, leaf.cid))
          ++ (rs ++ [r]).filterMap CombineResult.resolution? := by
      rw [InsertionMap.entries_set_of_notMem hresolved, h.resolved]
      simp [CombineResult.resolution?, haccepted]
    have hexecutor : (R.executedBy.set r.node.id accepted.executorId).entries
        = (rs ++ [r]).filterMap CombineResult.executor? := by
      rw [InsertionMap.entries_set_of_notMem hexecuted, h.executedBy]
      simp [CombineResult.executor?, haccepted]
    have hcount : R.combines + 1
        = ((rs ++ [r]).filterMap CombineResult.executor?).length := by
      simp [h.combines, CombineResult.executor?, haccepted]
    have hachieved : minWith R.minReplicas r.replicas
        = ((rs ++ [r]).filterMap CombineResult.achieved?).foldl minWith none := by
      simp [h.minReplicas, CombineResult.achieved?, haccepted]
    have hfailed : R.failed = (rs ++ [r]).filterMap CombineResult.failure? := by
      simp [h.failed, CombineResult.failure?, haccepted]
    dsimp only
    split
    · next hmany =>
      refine ⟨hresolution, hexecutor, ?_, hfailed, hlocally, hrefusals, ?_, hcount, hachieved,
        hcalls⟩
      · simp [h.attestations, CombineResult.attested?, hmany]
      · simp [h.disagreements, CombineResult.disagreement?, hmany, haccepted]
    · next hmany =>
      refine ⟨hresolution, hexecutor, ?_, hfailed, hlocally, hrefusals, ?_, hcount, hachieved,
        hcalls⟩
      · rw [InsertionMap.entries_set_of_notMem hattested, h.attestations]
        simp [CombineResult.attested?, hmany, haccepted]
      · simp [h.disagreements, CombineResult.disagreement?, hmany]

/-- The recording loop over all results. -/
theorem Report.describes_foldl (rs : List CombineResult) (hids : (idsOf tree rs).Nodup) :
    (rs.foldl Report.record (.start tree)).Describes tree rs := by
  induction rs using List.reverseRecOn with
  | nil => exact .start (List.nodup_append.mp hids).1
  | append_singleton rs r ih =>
    have hinitial : (idsOf tree rs).Nodup := by
      rw [idsOf, List.map_append, ← List.append_assoc] at hids
      exact (List.nodup_append.mp hids).1
    rw [List.foldl_append]
    exact (ih hinitial).record hids

/-! ## What a whole history says -/

namespace History

variable {sha256 : JsString → List (Fin 256)} {localeCompare : JsString → JsString → Int}
  {run : ReduceRun} {levels : List Nat} {rs : List CombineResult}

theorem nodes_eq (h : History sha256 localeCompare run levels rs) :
    rs.map CombineResult.node = levels.flatMap run.tree.atLevel := by
  induction h with
  | start => rfl
  | level level _ ih =>
    rw [List.map_append, ih, List.flatMap_append, List.map_map]
    simp [Function.comp_def, combine_node]

/-- Every result is a combine over what the results before it resolved. -/
theorem result_eq (h : History sha256 localeCompare run levels rs) :
    ∀ r ∈ rs, ∃ before, before <+: rs ∧
      r = combine sha256 localeCompare run
        (before.foldl Report.record (.start run.tree)).resolved r.node := by
  induction h with
  | start => simp
  | @level levels rs level _ ih =>
    intro r hr
    rcases List.mem_append.mp hr with hr | hr
    · obtain ⟨before, hinitial, heq⟩ := ih r hr
      exact ⟨before, hinitial.trans (List.prefix_append _ _), heq⟩
    · obtain ⟨node, -, rfl⟩ := List.mem_map.mp hr
      exact ⟨rs, List.prefix_append _ _, by rw [combine_node]⟩

/-- A level holds each node once, so the levels together do. -/
theorem nodes_nodup (h : History sha256 localeCompare run levels rs)
    (hnodes : run.tree.nodes.Nodup) (hlevels : levels.Nodup) :
    (rs.map CombineResult.node).Nodup := by
  rw [h.nodes_eq, List.nodup_flatMap]
  refine ⟨fun level _ => hnodes.filter _, hlevels.imp ?_⟩
  intro level level' hne n hn hn'
  have h1 := of_decide_eq_true (List.mem_filter.mp hn).2
  have h2 := of_decide_eq_true (List.mem_filter.mp hn').2
  exact hne (h1.symm.trans h2)

theorem node_mem (h : History sha256 localeCompare run levels rs) {r : CombineResult}
    (hr : r ∈ rs) : r.node ∈ run.tree.nodes := by
  have hmem : r.node ∈ levels.flatMap run.tree.atLevel :=
    h.nodes_eq ▸ List.mem_map_of_mem hr
  obtain ⟨level, -, hn⟩ := List.mem_flatMap.mp hmem
  exact List.mem_of_mem_filter hn

theorem ids_nodup (h : History sha256 localeCompare run levels rs) (hids : run.tree.ids.Nodup)
    (hlevels : levels.Nodup) : (idsOf run.tree rs).Nodup := by
  obtain ⟨hleaves, hnodes, hdisjoint⟩ := List.nodup_append.mp hids
  refine List.nodup_append.mpr ⟨hleaves, ?_, ?_⟩
  · have hmap : (rs.map fun r => r.node.id)
        = (rs.map CombineResult.node).map ReduceTreeNode.id := by
      rw [List.map_map]
      rfl
    rw [hmap]
    refine List.Nodup.map_on ?_ (h.nodes_nodup (hnodes.of_map _) hlevels)
    intro n hn n' hn' heq
    obtain ⟨r, hr, rfl⟩ := List.mem_map.mp hn
    obtain ⟨r', hr', rfl⟩ := List.mem_map.mp hn'
    exact List.inj_on_of_nodup_map hnodes (h.node_mem hr) (h.node_mem hr') heq
  · intro a ha b hb
    obtain ⟨r, hr, rfl⟩ := List.mem_map.mp hb
    exact hdisjoint a ha _ (List.mem_map_of_mem (h.node_mem hr))

end History

theorem level_le_maxLevel {n : ReduceTreeNode} (hn : n ∈ tree.nodes) :
    n.level ≤ tree.maxLevel := by
  have hfold : ∀ (nodes : List ReduceTreeNode) (m : Nat),
      m ≤ nodes.foldl (fun m node => max m node.level) m ∧
        ∀ n ∈ nodes, n.level ≤ nodes.foldl (fun m node => max m node.level) m := by
    intro nodes
    induction nodes with
    | nil => intro m; simp
    | cons node rest ih =>
      intro m
      obtain ⟨hm, hrest⟩ := ih (max m node.level)
      refine ⟨Nat.le_trans (Nat.le_max_left _ _) hm, fun n hn => ?_⟩
      rcases List.mem_cons.mp hn with rfl | hn
      · exact Nat.le_trans (Nat.le_max_right _ _) hm
      · exact hrest n hn
  exact (hfold tree.nodes 0).2 n hn

/-- Everything the level loop leaves, for a tree of distinct ids: its results,
    one a node, each a combine over values that are still the resolved ones at
    the end, and the report they add up to. -/
structure Executed (sha256 : JsString → List (Fin 256))
    (localeCompare : JsString → JsString → Int) (run : ReduceRun) (rs : List CombineResult)
    (R : Report) : Prop where
  describes : R.Describes run.tree rs
  ids_nodup : (idsOf run.tree rs).Nodup
  node_mem : ∀ r ∈ rs, r.node ∈ run.tree.nodes
  covers : ∀ n ∈ run.tree.nodes, 1 ≤ n.level → ∃ r ∈ rs, r.node = n
  result_eq : ∀ r ∈ rs, ∃ resolved : InsertionMap JsString JsString,
    (∀ id cid, resolved.get? id = some cid → R.resolved.get? id = some cid) ∧
      r = combine sha256 localeCompare run resolved r.node

theorem Executed.of_history {sha256 : JsString → List (Fin 256)}
    {localeCompare : JsString → JsString → Int} {run : ReduceRun} {rs : List CombineResult}
    (hids : run.tree.ids.Nodup)
    (hhistory : History sha256 localeCompare run (List.range' 1 run.tree.maxLevel) rs) :
    Executed sha256 localeCompare run rs (rs.foldl Report.record (.start run.tree)) := by
  have hnodup := hhistory.ids_nodup hids List.nodup_range'
  refine ⟨Report.describes_foldl rs hnodup, hnodup, fun r hr => hhistory.node_mem hr, ?_, ?_⟩
  · intro n hn hlevel
    have hmem : n ∈ rs.map CombineResult.node := by
      rw [hhistory.nodes_eq, List.mem_flatMap]
      have hle := level_le_maxLevel hn
      exact ⟨n.level, List.mem_range'_1.mpr ⟨hlevel, by omega⟩,
        List.mem_filter.mpr ⟨hn, by simp⟩⟩
    exact List.mem_map.mp hmem
  · intro r hr
    obtain ⟨before, hinitial, hcombine⟩ := hhistory.result_eq r hr
    refine ⟨_, ?_, hcombine⟩
    have hbefore : (idsOf run.tree before).Nodup :=
      hnodup.sublist ((hinitial.sublist.map _).append_left _)
    intro id cid hget
    rw [InsertionMap.get?_eq_some, (Report.describes_foldl _ hnodup).resolved]
    rw [InsertionMap.get?_eq_some, (Report.describes_foldl _ hbefore).resolved] at hget
    exact (List.mem_append.mp hget).elim (List.mem_append_left _)
      (fun h => List.mem_append_right _ ((hinitial.sublist.filterMap _).subset h))

theorem executeLevels_executed (sha256 : JsString → List (Fin 256))
    (localeCompare : JsString → JsString → Int) {run : ReduceRun} (hids : run.tree.ids.Nodup) :
    ∃ rs, Executed sha256 localeCompare run rs (executeLevels sha256 localeCompare run) := by
  obtain ⟨rs, hhistory, heq⟩ := executeLevels_history sha256 localeCompare run
  rw [heq]
  exact ⟨rs, .of_history hids hhistory⟩

namespace Executed

variable {sha256 : JsString → List (Fin 256)} {localeCompare : JsString → JsString → Int}
  {run : ReduceRun} {rs : List CombineResult} {R : Report}

theorem result_unique (h : Executed sha256 localeCompare run rs R) {r r' : CombineResult}
    (hr : r ∈ rs) (hr' : r' ∈ rs) (hid : r.node.id = r'.node.id) : r = r' :=
  List.inj_on_of_nodup_map (List.nodup_append.mp h.ids_nodup).2.1 hr hr' hid

/-- The specification of a result, with its inputs as they stand at the end. -/
theorem spec (h : Executed sha256 localeCompare run rs R) {r : CombineResult} (hr : r ∈ rs) :
    CombineSpec (rendezvousRank sha256 localeCompare r.node.id run.executors) run.wanted
      R.resolved r := by
  obtain ⟨resolved, hkept, hcombine⟩ := h.result_eq r hr
  have hspec := combine_spec sha256 localeCompare run resolved r.node
  rw [← hcombine] at hspec
  have hmapM : ∀ ids cids : List JsString,
      ids.mapM resolved.get? = some cids → ids.mapM R.resolved.get? = some cids := by
    intro ids cids h
    exact mapM_eq_some_iff.mpr ((mapM_eq_some_iff.mp h).imp hkept)
  exact { hspec with
    task_eq := fun call hcall => by
      obtain ⟨inputCids, hinputs, htask⟩ := hspec.task_eq call hcall
      exact ⟨inputCids, hmapM _ _ hinputs, htask⟩
    inputs := fun haccepted => by
      obtain ⟨cids, hcids⟩ := Option.ne_none_iff_exists'.mp (hspec.inputs haccepted)
      rw [hmapM _ _ hcids]
      simp }

variable {id : JsString}

/-- An id resolves to a leaf's address, or to what its combine accepted. -/
theorem resolved_eq_some (h : Executed sha256 localeCompare run rs R) {cid : JsString} :
    R.resolved.get? id = some cid ↔
      (∃ leaf ∈ run.tree.leaves, leaf.id = id ∧ leaf.cid = cid) ∨
      ∃ r ∈ rs, r.node.id = id ∧ ∃ accepted, r.accepted = some accepted ∧ accepted.cid = cid := by
  rw [InsertionMap.get?_eq_some, h.describes.resolved, List.mem_append, List.mem_map,
    List.mem_filterMap]
  simp only [Prod.mk.injEq, CombineResult.resolution?, Option.map_eq_some_iff]
  refine or_congr_right ⟨?_, ?_⟩
  · rintro ⟨r, hr, accepted, haccepted, hid, hcid⟩
    exact ⟨r, hr, hid, accepted, haccepted, hcid⟩
  · rintro ⟨r, hr, hid, accepted, haccepted, hcid⟩
    exact ⟨r, hr, accepted, haccepted, hid, hcid⟩

theorem mem_failed (h : Executed sha256 localeCompare run rs R) :
    id ∈ R.failed ↔ ∃ r ∈ rs, r.node.id = id ∧ r.accepted = none := by
  rw [h.describes.failed, List.mem_filterMap]
  refine exists_congr fun r => and_congr_right fun _ => ?_
  rw [CombineResult.failure?]
  split
  · next hnone => simp [hnone]
  · next hsome => simp [hsome]

theorem mem_executedBy (h : Executed sha256 localeCompare run rs R) :
    id ∈ R.executedBy.keys ↔ ∃ r ∈ rs, r.node.id = id ∧ r.accepted ≠ none := by
  rw [InsertionMap.keys, h.describes.executedBy, List.map_filterMap, List.mem_filterMap]
  refine exists_congr fun r => and_congr_right fun _ => ?_
  cases haccepted : r.accepted <;> simp [CombineResult.executor?, haccepted]

end Executed

end O2Fabric.Reduce
