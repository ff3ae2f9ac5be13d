/-
  O2Fabric.Core.Reduce.Churn

  Whatever answers are missing, whoever is asked and however often, a reduce
  that reports a root reports the right one: the fold of all leaf values, in
  leaf-id order.

  The values below a combine are those of a run of leaves (`Below`), and what
  has resolved under an id is the fold of the values below it
  (`Executed.value_of_below`), by induction on the tree.
-/

import O2Fabric.Core.Reduce.History
import O2Fabric.Core.Reduce.Identity

namespace O2Fabric.Reduce

open TreeFold

/-! ## The leaves below an id -/

/-- A span of the tree: a leaf, or a combine over a row of two or more spans. -/
inductive Below (leaves : List ReduceLeaf) (nodes : List ReduceTreeNode) : Span → Prop
  | leaf {l : ReduceLeaf} : l ∈ leaves → Below leaves nodes (leafSpan l)
  | combine {n : ReduceTreeNode} {row : List Span} : n ∈ nodes → n.children = row.map Span.id →
      2 ≤ row.length → (∀ s ∈ row, Below leaves nodes s) →
      Below leaves nodes ⟨n.id, row.flatMap Span.leaves⟩

variable {leaves : List ReduceLeaf} {nodes : List ReduceTreeNode}

theorem Below.leaves_ne_nil {s : Span} (h : Below leaves nodes s) : s.leaves ≠ [] := by
  induction h with
  | leaf _ => simp [leafSpan]
  | @combine n row _ _ hlen _ ih =>
    obtain ⟨s, hs⟩ := List.exists_mem_of_length_pos (show 0 < row.length by omega)
    obtain ⟨l, hl⟩ := List.exists_mem_of_ne_nil _ (ih s hs)
    exact List.ne_nil_of_mem (List.mem_flatMap.mpr ⟨s, hs, hl⟩)

theorem Below.two_le {row : List Span} (hlen : 2 ≤ row.length) (h : ∀ s ∈ row, Below leaves nodes s) :
    2 ≤ (row.flatMap Span.leaves).length := by
  match row, hlen with
  | s :: t :: rest, _ =>
    have hs := List.length_pos_of_ne_nil (h s (by simp)).leaves_ne_nil
    have ht := List.length_pos_of_ne_nil (h t (by simp)).leaves_ne_nil
    simp only [List.flatMap_cons, List.length_append]
    omega

theorem Rounds.span_below {sha256 : JsString → List (Fin 256)} {fanout : Nat} {d : Derivation}
    {spans : List Span} (hf : 2 ≤ fanout) (h : Rounds sha256 fanout leaves d spans)
    (hnodes : ∀ n ∈ d.nodes, n ∈ nodes) : ∀ s ∈ spans, Below leaves nodes s := by
  induction h with
  | start =>
    intro s hs
    obtain ⟨l, hl, rfl⟩ := List.mem_map.mp hs
    exact .leaf hl
  | @round d spans hr _ ih =>
    have hprev := ih fun n hn => hnodes n (List.mem_append_left _ hn)
    intro s hs
    rw [layerUp_eq hf] at hs
    rcases List.mem_append.mp hs with hs | hs
    · obtain ⟨row, hrow, rfl⟩ := List.mem_map.mp hs
      have hnode := hnodes _ (hr.combine_mem_round hf hrow)
      exact .combine hnode rfl (length_of_mem_groups hrow).1
        fun s hs => hprev s (mem_of_mem_groups hf hrow hs)
    · exact hprev s (mem_of_mem_lone hf hs)

/-! ## What resolves under an id -/

theorem map_eq_of_forall₂ {α β γ : Type} {R : α → β → Prop} {f : α → γ} {g : β → γ}
    {xs : List α} {ys : List β} (h : List.Forall₂ R xs ys)
    (hfg : ∀ x ∈ xs, ∀ y, R x y → g y = f x) : ys.map g = xs.map f := by
  induction h with
  | nil => rfl
  | @cons x y xs ys hxy _ ih =>
    rw [List.map_cons, List.map_cons, hfg x List.mem_cons_self y hxy,
      ih fun x' hx' => hfg x' (List.mem_cons_of_mem _ hx')]

section

variable {V : Type} (cidOf : V → Cid) (value : JsString → V) (f : List V → V)

/-- The answer is the address of the fold of the values the task names. -/
def FoldsInputs (task : CombineTask) (product : CombineProduct) : Prop :=
  product.cid = cidOf (f (task.inputCids.map value))

def leafValues (leaves : List ReduceLeaf) : List V := leaves.map fun l => value l.cid

end

namespace Executed

variable {sha256 : JsString → List (Fin 256)} {localeCompare : JsString → JsString → Int}
  {run : ReduceRun} {rs : List CombineResult} {R : Report}
  {V : Type} {cidOf : V → Cid} {value : JsString → V} {f : List V → V}

variable {r : CombineResult}

/-- Every answer a result gathered is honest. -/
theorem honest (h : Executed sha256 localeCompare run rs R)
    (hdispatch : run.dispatch.Answers (FoldsInputs cidOf value f))
    (hlocal : run.localCombine.Answers (FoldsInputs cidOf value f)) (hr : r ∈ rs)
    {produced : Produced} (hproduced : produced ∈ r.calls.filterMap CombineCall.produced?) :
    ∃ inputCids, r.node.children.mapM R.resolved.get? = some inputCids ∧
      produced.cid = (cidOf (f (inputCids.map value))).toText := by
  obtain ⟨call, hcall, hsome⟩ := List.mem_filterMap.mp hproduced
  obtain ⟨product, hanswer, rfl⟩ := Option.map_eq_some_iff.mp hsome
  obtain ⟨inputCids, hinputs, htask⟩ := (h.spec hr).task_eq call hcall
  obtain ⟨resolved, -, hcombine⟩ := h.result_eq r hr
  refine ⟨inputCids, hinputs, ?_⟩
  have hfolds := combine_answeredBy sha256 localeCompare hdispatch hlocal resolved r.node
  rw [← hcombine] at hfolds
  have := hfolds call hcall product hanswer
  rw [FoldsInputs, htask] at this
  rw [this]

/-- A leaf's id resolves to the leaf's address and to nothing else. -/
theorem resolved_leaf (h : Executed sha256 localeCompare run rs R) (hids : run.tree.ids.Nodup)
    {l : ReduceLeaf} (hl : l ∈ run.tree.leaves) {cid : JsString}
    (hcid : R.resolved.get? l.id = some cid) : cid = l.cid := by
  obtain ⟨hleaves, -, hdisjoint⟩ := List.nodup_append.mp hids
  rcases h.resolved_eq_some.mp hcid with ⟨l', hl', hid, rfl⟩ | ⟨r, hr, hid, -⟩
  · rw [List.inj_on_of_nodup_map hleaves hl' hl hid]
  · exact absurd hid.symm (hdisjoint _ (List.mem_map_of_mem hl) _
      (List.mem_map_of_mem (h.node_mem r hr)))

/-- What has resolved under an id is the fold of the leaf values below it. -/
theorem value_of_below (h : Executed sha256 localeCompare run rs R)
    (hids : run.tree.ids.Nodup) (hvalue : ∀ v, value (cidOf v).toText = v) (hf : Regroups f)
    (hdispatch : run.dispatch.Answers (FoldsInputs cidOf value f))
    (hlocal : run.localCombine.Answers (FoldsInputs cidOf value f)) {s : Span}
    (hs : Below run.tree.leaves run.tree.nodes s) :
    ∀ cid, R.resolved.get? s.id = some cid →
      value cid = summary f (leafValues value s.leaves) ∧
        (2 ≤ s.leaves.length → cid = (cidOf (f (leafValues value s.leaves))).toText) := by
  obtain ⟨-, hnodes, hdisjoint⟩ := List.nodup_append.mp hids
  induction hs with
  | @leaf l hl =>
    intro cid hcid
    rw [h.resolved_leaf hids hl hcid]
    exact ⟨rfl, by simp [leafSpan]⟩
  | @combine n row hn hchildren hlen hrow ih =>
    intro cid hcid
    rcases h.resolved_eq_some.mp hcid with ⟨l, hl, hid, -⟩ | ⟨r, hr, hid, a, haccepted, rfl⟩
    · exact absurd hid (hdisjoint _ (List.mem_map_of_mem hl) _ (List.mem_map_of_mem hn))
    · have hnode : r.node = n := List.inj_on_of_nodup_map hnodes (h.node_mem r hr) hn hid
      have hfirst : a ∈ r.calls.filterMap CombineCall.produced? := by
        have := (h.spec hr).accepted_eq
        rw [haccepted] at this
        exact List.mem_of_mem_head? this.symm
      obtain ⟨inputCids, hinputs, hcid'⟩ := h.honest hdispatch hlocal hr hfirst
      rw [hnode, hchildren] at hinputs
      -- Each input is the fold below its child, so folding the inputs folds the row.
      have hinputValues : inputCids.map value
          = (row.map fun s => leafValues value s.leaves).map (summary f) := by
        have hforall := mapM_eq_some_iff.mp hinputs
        rw [List.forall₂_map_left_iff] at hforall
        rw [List.map_map]
        exact map_eq_of_forall₂ hforall fun s hs cid hcid => (ih s hs cid hcid).1
      have hfold : f (inputCids.map value)
          = f (leafValues value (row.flatMap Span.leaves)) := by
        rw [hinputValues, hf.fold_summaries]
        · simp [leafValues, List.flatMap_def, List.map_flatten, Function.comp_def]
        · intro g hg
          obtain ⟨s, hs, rfl⟩ := List.mem_map.mp hg
          simpa [leafValues] using (hrow s hs).leaves_ne_nil
      have htwo := Below.two_le hlen hrow
      rw [hcid', hfold, hvalue, summary_of_two_le (by simpa [leafValues] using htwo)]
      exact ⟨rfl, fun _ => rfl⟩

/-- A combine accepted something exactly when some request for it was answered. -/
theorem accepted_iff_answered (h : Executed sha256 localeCompare run rs R) (hr : r ∈ rs) :
    r.accepted ≠ none ↔
      ∃ call ∈ R.calls, call.task.nodeId = r.node.id ∧ call.answer ≠ none := by
  have hproduced : r.accepted ≠ none ↔ ∃ call ∈ r.calls, call.answer ≠ none := by
    rw [(h.spec hr).accepted_eq, ne_eq, List.head?_eq_none_iff, List.filterMap_eq_nil_iff]
    simp [CombineCall.produced?]
  have htask : ∀ r ∈ rs, ∀ call ∈ r.calls, call.task.nodeId = r.node.id := by
    intro r hr call hcall
    obtain ⟨inputCids, -, heq⟩ := (h.spec hr).task_eq call hcall
    rw [heq]
  rw [hproduced, h.describes.calls]
  constructor
  · rintro ⟨call, hcall, hanswer⟩
    exact ⟨call, List.mem_flatMap.mpr ⟨r, hr, hcall⟩, htask r hr call hcall, hanswer⟩
  · rintro ⟨call, hcall, hid, hanswer⟩
    obtain ⟨r', hr', hcall⟩ := List.mem_flatMap.mp hcall
    rw [h.result_unique hr hr' (hid.symm.trans (htask r' hr' call hcall))]
    exact ⟨call, hcall, hanswer⟩

/-- Honest replicas of one combine agree: they folded the same inputs. -/
theorem length_cids_le_one (h : Executed sha256 localeCompare run rs R)
    (hdispatch : run.dispatch.Answers (FoldsInputs cidOf value f))
    (hlocal : run.localCombine.Answers (FoldsInputs cidOf value f)) (hr : r ∈ rs) :
    r.cids.length ≤ 1 := by
  rw [(h.spec hr).cids_eq]
  apply length_distinct_le_one
  intro x hx y hy
  obtain ⟨p, hp, rfl⟩ := List.mem_map.mp hx
  obtain ⟨q, hq, rfl⟩ := List.mem_map.mp hy
  obtain ⟨inputCids, hinputs, hpcid⟩ := h.honest hdispatch hlocal hr hp
  obtain ⟨inputCids', hinputs', hqcid⟩ := h.honest hdispatch hlocal hr hq
  rw [hinputs] at hinputs'
  obtain rfl := Option.some.inj hinputs'
  rw [hpcid, hqcid]

/-- Where every combine accepted something, nothing failed and the root resolved. -/
theorem ok_of_all_accepted (h : Executed sha256 localeCompare run rs R)
    (hdispatch : run.dispatch.Answers (FoldsInputs cidOf value f))
    (hlocal : run.localCombine.Answers (FoldsInputs cidOf value f))
    (hlevels : ∀ n ∈ run.tree.nodes, 1 ≤ n.level) {root : Span}
    (hroot : Below run.tree.leaves run.tree.nodes root) (hrootId : root.id = run.tree.rootId)
    (hall : ∀ r ∈ rs, r.accepted ≠ none) : (R.outcome run.tree).ok = true := by
  have hfailed : R.failed = [] := by
    rw [List.eq_nil_iff_forall_not_mem]
    intro id hid
    obtain ⟨r, hr, -, hnone⟩ := h.mem_failed.mp hid
    exact hall r hr hnone
  have hagreed : R.disagreements = [] := by
    rw [h.describes.disagreements, List.filterMap_eq_nil_iff]
    intro r hr
    have hfew := h.length_cids_le_one hdispatch hlocal hr
    rw [CombineResult.disagreement?, if_neg (by omega)]
  have hresolved : ∃ cid, R.resolved.get? root.id = some cid := by
    cases hroot with
    | @leaf l hl => exact ⟨l.cid, h.resolved_eq_some.mpr (Or.inl ⟨l, hl, rfl, rfl⟩)⟩
    | @combine n row hn _ _ _ =>
      obtain ⟨r, hr, rfl⟩ := h.covers n hn (hlevels n hn)
      obtain ⟨a, ha⟩ := Option.ne_none_iff_exists'.mp (hall r hr)
      exact ⟨a.cid, h.resolved_eq_some.mpr (Or.inr ⟨r, hr, rfl, a, ha, rfl⟩)⟩
  obtain ⟨cid, hcid⟩ := hresolved
  rw [hrootId] at hcid
  simp [Report.outcome, hcid, hfailed, hagreed]

end Executed

/-! ## Correct whatever the churn -/

/-- The address a reduce should end at: that of the fold of all leaf values, or
    the leaf's own where there is only one, since nothing is combined then. -/
def expectedRoot {V : Type} (cidOf : V → Cid) (value : JsString → V) (f : List V → V) :
    List ReduceLeaf → JsString
  | [l] => l.cid
  | leaves => (cidOf (f (leafValues value leaves))).toText

theorem expectedRoot_of_two_le {V : Type} {cidOf : V → Cid} {value : JsString → V} {f : List V → V}
    (h : 2 ≤ leaves.length) :
    expectedRoot cidOf value f leaves = (cidOf (f (leafValues value leaves))).toText := by
  match leaves, h with
  | _ :: _ :: _, _ => rfl

/-- A reported root is the expected one, whatever the fanout, the missing
    answers, the redundancy and the local policy; and the reduce is `ok` exactly
    when every combine was answered at least once. -/
theorem executeReduce_correct_under_churn (sha256 : JsString → List (Fin 256))
    (localeCompare : JsString → JsString → Int) {V : Type} {cidOf : V → Cid}
    {value : JsString → V} {f : List V → V} (hvalue : ∀ v, value (cidOf v).toText = v)
    (hf : Regroups f) {contributions : List ReduceContribution} {fanout : Nat} {run : ReduceRun}
    (htree : deriveReduceTree sha256 contributions fanout = .ok run.tree)
    (hids : run.tree.ids.Nodup) (hexecutors : run.executors ≠ [])
    (hdispatch : run.dispatch.Answers (FoldsInputs cidOf value f))
    (hlocal : run.localCombine.Answers (FoldsInputs cidOf value f)) :
    (∀ rootCid, (executeReduceTraced sha256 localeCompare run).1.rootCid = some rootCid →
      rootCid = expectedRoot cidOf value f (sortedLeaves contributions)) ∧
    ((executeReduceTraced sha256 localeCompare run).1.ok = true ↔
      ∀ n ∈ run.tree.nodes, ∃ call ∈ (executeReduceTraced sha256 localeCompare run).2,
        call.task.nodeId = n.id ∧ call.answer ≠ none) := by
  obtain ⟨hfanout, -, hleaves, -, root, hr, hrootId, hrootLeaves⟩ := deriveReduceTree_rounds htree
  have hbelow : Below run.tree.leaves run.tree.nodes root :=
    hr.span_below hfanout (fun n hn => hn) root (by simp)
  have hlevels : ∀ n ∈ run.tree.nodes, 1 ≤ n.level := fun n hn =>
    (hr.node_spec hfanout n hn).1.one_le_level
  obtain ⟨rs, h⟩ := executeLevels_executed sha256 localeCompare hids
  rw [executeReduceTraced, if_neg hexecutors]
  generalize executeLevels sha256 localeCompare run = R at h
  refine ⟨fun rootCid hrootCid => ?_, fun hok n hn => ?_, fun hall => ?_⟩
  · have hget : R.resolved.get? root.id = some rootCid := hrootId ▸ hrootCid
    obtain ⟨-, hmany⟩ := h.value_of_below hids hvalue hf hdispatch hlocal hbelow rootCid hget
    rw [hrootLeaves] at hmany
    rw [← hleaves]
    rcases Nat.lt_or_ge run.tree.leaves.length 2 with hfew | htwo
    · -- A single leaf is the root, and nothing is combined.
      have hone : run.tree.leaves.length = 1 := by
        have := List.length_pos_of_ne_nil hbelow.leaves_ne_nil
        rw [hrootLeaves] at this
        omega
      obtain ⟨l, hl⟩ := List.length_eq_one_iff.mp hone
      rw [hl]
      cases hbelow with
      | @leaf l' hl' =>
        obtain rfl : l' = l := by simpa [hl] using hl'
        exact h.resolved_leaf hids (by simp [hl]) hget
      | @combine n row _ _ hlen hrow =>
        have := Below.two_le hlen hrow
        simp only at hrootLeaves
        rw [hrootLeaves] at this
        omega
    · rw [expectedRoot_of_two_le htwo]
      exact hmany htwo
  · have hfailed : R.failed = [] := by
      simp only [Report.outcome, Bool.and_eq_true, List.isEmpty_iff] at hok
      exact hok.1.2
    obtain ⟨r, hr', rfl⟩ := h.covers n hn (hlevels n hn)
    refine (h.accepted_iff_answered hr').mp fun hnone => ?_
    have := h.mem_failed.mpr ⟨r, hr', rfl, hnone⟩
    rw [hfailed] at this
    cases this
  · refine h.ok_of_all_accepted hdispatch hlocal hlevels hbelow hrootId fun r hr' => ?_
    exact (h.accepted_iff_answered hr').mpr (hall r.node (h.node_mem r hr'))

/-! ## A fold, and a single leaf -/

/-- `n` letters. -/
def unary (n : Nat) : JsString := List.replicate n ⟨0x61, by decide⟩

theorem NUL_notMem_unary (n : Nat) : NUL ∉ unary n := by
  intro h
  exact absurd (congrArg Fin.val (List.eq_of_mem_replicate h)) (by decide)

theorem PIPE_notMem_unary (n : Nat) : PIPE ∉ unary n := by
  intro h
  exact absurd (congrArg Fin.val (List.eq_of_mem_replicate h)) (by decide)

/-- Numbers stored in unary: the address of `n` is `n` letters long. -/
def unaryCid (n : Nat) : Cid := ⟨unary n, NUL_notMem_unary n, PIPE_notMem_unary n⟩

/-- Every executor adds up the numbers it is given. -/
def unarySum : CombineDispatch := fun task _ _ =>
  some ⟨unaryCid (task.inputCids.map List.length).sum, .signedByNobody⟩

theorem unarySum_answers : CombineDispatch.Answers unarySum
    (FoldsInputs unaryCid List.length List.sum) := by
  intro task call executorId product h
  obtain rfl := Option.some.inj h
  rfl

def twoNumbers : List ReduceContribution := [⟨js "a", unaryCid 1⟩, ⟨js "b", unaryCid 2⟩]

/-- A run over `tree` in which every executor adds up. -/
def unaryRun (tree : ReduceTree) (dispatch : CombineDispatch) : ReduceRun :=
  ⟨tree, [js "m"], dispatch, .combinesNothingLocally, none⟩

theorem executeReduce_correct_under_churn_sum :
    ∃ tree, deriveReduceTree codeUnitBytes twoNumbers 4 = .ok tree ∧
      (∀ rootCid, (executeReduceTraced codeUnitBytes (fun _ _ => 0)
          (unaryRun tree unarySum)).1.rootCid = some rootCid →
        rootCid = expectedRoot unaryCid List.length List.sum (sortedLeaves twoNumbers)) ∧
      ((executeReduceTraced codeUnitBytes (fun _ _ => 0) (unaryRun tree unarySum)).1.ok = true ↔
        ∀ n ∈ tree.nodes, ∃ call ∈ (executeReduceTraced codeUnitBytes (fun _ _ => 0)
          (unaryRun tree unarySum)).2, call.task.nodeId = n.id ∧ call.answer ≠ none) := by
  have htree : deriveReduceTree codeUnitBytes twoNumbers 4 = .ok (unaryRun _ unarySum).tree := rfl
  refine ⟨_, htree, ?_⟩
  refine executeReduce_correct_under_churn codeUnitBytes (fun _ _ => 0) (f := List.sum) ?_ ?_ htree
    ?_ ?_ unarySum_answers ?_
  · exact fun n => List.length_replicate
  · exact fun gs _ => List.sum_flatten
  · decide
  · exact List.cons_ne_nil _ _
  · exact fun p hp => nomatch hp

/-- With one leaf nothing is combined: the root is the leaf's address, and not
    that of the constant fold, which regroups. -/
theorem executeReduce_single_leaf :
    ∃ tree, deriveReduceTree codeUnitBytes [⟨js "a", unaryCid 1⟩] 4 = .ok tree ∧
      Regroups (fun _ : List Nat => 0) ∧
      CombineDispatch.Answers (fun _ _ _ => some ⟨unaryCid 0, .signedByNobody⟩)
        (FoldsInputs unaryCid List.length fun _ => 0) ∧
      (executeReduce codeUnitBytes (fun _ _ => 0)
          (unaryRun tree fun _ _ _ => some ⟨unaryCid 0, .signedByNobody⟩)).rootCid
        = some (unaryCid 1).toText ∧
      (unaryCid 1).toText ≠ (unaryCid 0).toText := by
  refine ⟨_, rfl, fun _ _ => rfl, ?_, by decide, by decide⟩
  intro task call executorId product h
  obtain rfl := Option.some.inj h
  rfl

end O2Fabric.Reduce
