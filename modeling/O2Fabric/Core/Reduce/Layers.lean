/-
  O2Fabric.Core.Reduce.Layers

  What every round of the construction loop keeps.

  The loop carries ids only.  Beside each id of the layer stands the run of
  leaves below it (a `Span`), and `Rounds` says that a derivation state and a
  row of spans arose from the leaves by the same rounds.  The invariants are
  proved once, by induction on `Rounds`:

    * `Rounds.layer_eq` / `Rounds.leaves_eq` — the layer is the spans' ids, and
      the spans cut the leaf list into consecutive runs;
    * `Rounds.perm` — the ids already consumed and the ids still in the layer
      are together exactly the leaf ids and the combine ids;
    * `Rounds.node_spec` — every combine has `2 … fanout` children, each of them
      a leaf or a combine of a lower level.
-/

import O2Fabric.Core.Reduce.Tree
import Mathlib.Data.List.Perm.Basic

namespace O2Fabric.Reduce

open TreeFold
open scoped List

/-! ## The sorted leaves -/

theorem leafId_injective {c c' : ReduceContribution}
    (h : leafId c.contributorId c.cid = leafId c'.contributorId c'.cid) : c = c' := by
  -- The address has no NUL, so the last NUL of the id is the separator.
  obtain ⟨contributorId, cid⟩ := c
  obtain ⟨contributorId', cid'⟩ := c'
  obtain ⟨hid, hcid⟩ := append_separator_inj cid.nulFree cid'.nulFree h
  rw [ReduceContribution.mk.injEq]
  exact ⟨hid, Cid.toText_injective hcid⟩

variable {contributions : List ReduceContribution}

theorem mem_sortedLeaves {l : ReduceLeaf} :
    l ∈ sortedLeaves contributions ↔ ∃ c ∈ contributions, leafOf c = l := by
  rw [sortedLeaves, List.mem_insertionSort, InsertionMap.values, List.mem_map]
  constructor
  · rintro ⟨e, he, rfl⟩
    obtain ⟨c, hc, rfl⟩ := List.mem_map.mp (InsertionMap.mem_of_mem_entries_ofPairs he)
    exact ⟨c, hc, rfl⟩
  · rintro ⟨c, hc, rfl⟩
    have hkey : (leafOf c).id
        ∈ (InsertionMap.ofPairs (contributions.map fun c => ((leafOf c).id, leafOf c))).keys := by
      rw [InsertionMap.mem_keys_ofPairs, List.map_map]
      exact List.mem_map_of_mem (f := fun c => (leafOf c).id) hc
    obtain ⟨e, he, hfst⟩ := List.mem_map.mp hkey
    obtain ⟨c', hc', rfl⟩ := List.mem_map.mp (InsertionMap.mem_of_mem_entries_ofPairs he)
    refine ⟨_, he, ?_⟩
    -- The entry under this key was written by a contribution with the same id.
    have hsame : c' = c := leafId_injective hfst
    rw [hsame]

/-- The leaf ids are strictly increasing. -/
theorem sortedLeaves_pairwise (contributions : List ReduceContribution) :
    (sortedLeaves contributions).Pairwise (fun a b => a.id < b.id) := by
  have : Std.Total (fun a b : ReduceLeaf => a.id ≤ b.id) := ⟨fun a b => le_total a.id b.id⟩
  have : IsTrans ReduceLeaf (fun a b => a.id ≤ b.id) := ⟨fun _ _ _ => le_trans⟩
  have hsorted := List.pairwise_insertionSort (fun a b : ReduceLeaf => a.id ≤ b.id)
    (InsertionMap.ofPairs (contributions.map fun c => ((leafOf c).id, leafOf c))).values
  have hnodup : ((sortedLeaves contributions).map ReduceLeaf.id).Nodup := by
    have hperm := (List.perm_insertionSort (fun a b : ReduceLeaf => a.id ≤ b.id)
      (InsertionMap.ofPairs (contributions.map fun c => ((leafOf c).id, leafOf c))).values).map
        ReduceLeaf.id
    refine hperm.nodup_iff.mpr ?_
    have hkeys := (InsertionMap.ofPairs
      (contributions.map fun c => ((leafOf c).id, leafOf c))).keysNodup
    rw [InsertionMap.values, List.map_map]
    convert hkeys using 1
    apply List.map_congr_left
    intro e he
    obtain ⟨c, -, rfl⟩ := List.mem_map.mp (InsertionMap.mem_of_mem_entries_ofPairs he)
    rfl
  rw [List.Nodup, List.pairwise_map] at hnodup
  exact (hsorted.and hnodup).imp fun h => lt_of_le_of_ne h.1 h.2

theorem sortedLeaves_ids_nodup (contributions : List ReduceContribution) :
    ((sortedLeaves contributions).map ReduceLeaf.id).Nodup := by
  rw [List.Nodup, List.pairwise_map]
  exact (sortedLeaves_pairwise contributions).imp fun h => ne_of_lt h

/-- The leaves depend only on which contributions occur. -/
theorem sortedLeaves_congr {cs cs' : List ReduceContribution} (h : ∀ c, c ∈ cs ↔ c ∈ cs') :
    sortedLeaves cs = sortedLeaves cs' := by
  refine List.Perm.eq_of_pairwise ?_ (sortedLeaves_pairwise cs) (sortedLeaves_pairwise cs') ?_
  · intro a b _ _ hab hba
    exact absurd (lt_trans hab hba) (lt_irrefl _)
  · rw [List.perm_ext_iff_of_nodup ((sortedLeaves_ids_nodup cs).of_map _)
      ((sortedLeaves_ids_nodup cs').of_map _)]
    intro l
    simp only [mem_sortedLeaves, h]

theorem sortedLeaves_ne_nil (h : contributions ≠ []) :
    sortedLeaves contributions ≠ [] := by
  obtain ⟨c, hc⟩ := List.exists_mem_of_ne_nil _ h
  exact List.ne_nil_of_mem (mem_sortedLeaves.mpr ⟨c, hc, rfl⟩)

theorem NUL_mem_leaf_id {l : ReduceLeaf} (h : l ∈ sortedLeaves contributions) : NUL ∈ l.id := by
  obtain ⟨c, -, rfl⟩ := mem_sortedLeaves.mp h
  simp [leafOf, leafId]

/-! ## One round -/

section

variable (sha256 : JsString → List (Fin 256))

/-- An id of a layer, with the leaves below it. -/
structure Span where
  id : JsString
  leaves : List ReduceLeaf

def leafSpan (l : ReduceLeaf) : Span := ⟨l.id, [l]⟩

def combineSpan (row : List Span) : Span :=
  ⟨combineId sha256 (row.map Span.id), row.flatMap Span.leaves⟩

theorem layerNodes_eq {fanout : Nat} (hf : 2 ≤ fanout) (level : Nat) (layer : List JsString) :
    layerNodes sha256 fanout level layer
      = (groups fanout layer).map fun g => ⟨combineId sha256 g, g, level⟩ := by
  have hslice : ∀ ss : List (List JsString), (∀ s ∈ ss, s ≠ []) →
      ss.filterMap (sliceNode sha256 level)
        = (ss.filter fun g => decide (2 ≤ g.length)).map
            fun g => ⟨combineId sha256 g, g, level⟩ := by
    intro ss
    induction ss with
    | nil => intro _; rfl
    | cons s ss ih =>
      intro h
      have hrest := ih fun s' hs' => h s' (List.mem_cons_of_mem _ hs')
      match s, h s List.mem_cons_self with
      | [x], _ =>
        rw [List.filterMap_cons_none (by rfl), hrest, List.filter_cons_of_neg (by simp)]
      | x :: y :: rest, _ =>
        rw [List.filterMap_cons_some (by rfl), hrest, List.filter_cons_of_pos (by simp),
          List.map_cons]
  refine hslice _ fun s hs => ?_
  exact ne_nil_of_mem_slices (by omega) hs

theorem nextLayer_eq {fanout : Nat} (hf : 2 ≤ fanout) (layer : List JsString) :
    nextLayer sha256 fanout layer
      = (groups fanout layer).map (combineId sha256) ++ lone fanout layer :=
  layerUp_eq hf _ _

/-- The derivation state and the row of spans the same rounds lead to. -/
inductive Rounds (fanout : Nat) (leaves : List ReduceLeaf) : Derivation → List Span → Prop
  | start : Rounds fanout leaves ⟨[], leaves.map ReduceLeaf.id, 1⟩ (leaves.map leafSpan)
  | round {d : Derivation} {spans : List Span} :
      Rounds fanout leaves d spans → 1 < d.layer.length →
      Rounds fanout leaves (d.round sha256 fanout) (layerUp fanout (combineSpan sha256) spans)

end

namespace Rounds

variable {sha256 : JsString → List (Fin 256)} {fanout : Nat} {leaves : List ReduceLeaf}
  {d : Derivation} {spans : List Span}

theorem layer_eq (h : Rounds sha256 fanout leaves d spans) : d.layer = spans.map Span.id := by
  induction h with
  | start => simp [leafSpan, Function.comp_def]
  | @round d spans _ _ ih =>
    show layerUp fanout (combineId sha256) d.layer = _
    rw [ih, map_layerUp]
    intro g _
    match g with
    | [] => rfl
    | [s] => rfl
    | _ :: _ :: _ => rfl

theorem one_le_level (h : Rounds sha256 fanout leaves d spans) : 1 ≤ d.level := by
  induction h with
  | start => exact Nat.le_refl 1
  | round _ _ ih => exact Nat.le_succ_of_le ih

/-- The spans cut the leaf list into consecutive runs, none of them empty. -/
theorem leaves_eq (hf : 2 ≤ fanout) (h : Rounds sha256 fanout leaves d spans) :
    spans.flatMap Span.leaves = leaves ∧ ∀ s ∈ spans, s.leaves ≠ [] := by
  induction h with
  | start => simp [leafSpan, List.flatMap_map]
  | @round d spans _ _ ih =>
    obtain ⟨hflat, hne⟩ := ih
    have hsplit := flatten_groups_append_lone hf spans
    rw [layerUp_eq hf]
    refine ⟨?_, ?_⟩
    · rw [List.flatMap_append, List.flatMap_map]
      simp only [combineSpan]
      rw [← List.flatMap_assoc, List.flatMap_id', ← List.flatMap_append, hsplit, hflat]
    · intro s hs
      rcases List.mem_append.mp hs with hs | hs
      · obtain ⟨g, hg, rfl⟩ := List.mem_map.mp hs
        obtain ⟨s, hs⟩ := List.exists_mem_of_length_pos
          (show 0 < g.length by have := (length_of_mem_groups hg).1; omega)
        obtain ⟨l, hl⟩ := List.exists_mem_of_ne_nil _ (hne s (mem_of_mem_groups hf hg hs))
        exact List.ne_nil_of_mem (List.mem_flatMap.mpr ⟨s, hs, hl⟩)
      · exact hne s (mem_of_mem_lone hf hs)

/-- Consumed ids and layer ids are together the leaf ids and the combine ids. -/
theorem perm (hf : 2 ≤ fanout) (h : Rounds sha256 fanout leaves d spans) :
    (d.nodes.flatMap ReduceTreeNode.children ++ d.layer).Perm
      (leaves.map ReduceLeaf.id ++ d.nodes.map ReduceTreeNode.id) := by
  induction h with
  | start => simp
  | @round d spans _ _ ih =>
    have hsplit := flatten_groups_append_lone hf d.layer
    have hnodes : (d.round sha256 fanout).nodes
        = d.nodes ++ (groups fanout d.layer).map
            (fun g => ⟨combineId sha256 g, g, d.level⟩) := by
      rw [Derivation.round, layerNodes_eq sha256 hf]
    have hlayer : (d.round sha256 fanout).layer
        = (groups fanout d.layer).map (combineId sha256) ++ lone fanout d.layer :=
      nextLayer_eq sha256 hf d.layer
    rw [hnodes, hlayer, List.flatMap_append, List.map_append, List.flatMap_map, List.map_map]
    simp only [Function.comp_def, List.flatMap_id']
    calc _ = d.nodes.flatMap ReduceTreeNode.children
              ++ ((groups fanout d.layer).flatten
                ++ ((groups fanout d.layer).map (combineId sha256) ++ lone fanout d.layer)) := by
            rw [List.append_assoc]
      _ ~ d.nodes.flatMap ReduceTreeNode.children
              ++ ((groups fanout d.layer).flatten
                ++ (lone fanout d.layer ++ (groups fanout d.layer).map (combineId sha256))) :=
            (List.perm_append_comm.append_left _).append_left _
      _ = (d.nodes.flatMap ReduceTreeNode.children ++ d.layer)
              ++ (groups fanout d.layer).map (combineId sha256) := by
            rw [← List.append_assoc (groups fanout d.layer).flatten, hsplit, List.append_assoc]
      _ ~ (leaves.map ReduceLeaf.id ++ d.nodes.map ReduceTreeNode.id)
              ++ (groups fanout d.layer).map (combineId sha256) := ih.append_right _
      _ = _ := List.append_assoc _ _ _

/-- Every id of the layer is a leaf, or a combine of an earlier round. -/
theorem mem_layer (hf : 2 ≤ fanout) (h : Rounds sha256 fanout leaves d spans) :
    ∀ id ∈ d.layer, id ∈ leaves.map ReduceLeaf.id ∨
      ∃ m ∈ d.nodes, m.id = id ∧ m.level < d.level := by
  induction h with
  | start => exact fun id hid => Or.inl hid
  | @round d spans _ _ ih =>
    intro id hid
    rw [Derivation.round, layerNodes_eq sha256 hf] at *
    simp only [nextLayer_eq sha256 hf, List.mem_append, List.mem_map] at hid ⊢
    rcases hid with ⟨g, hg, rfl⟩ | hid
    · exact Or.inr ⟨_, Or.inr ⟨g, hg, rfl⟩, rfl, Nat.lt_succ_self _⟩
    · rcases ih id (mem_of_mem_lone hf hid) with h | ⟨m, hm, hid, hlt⟩
      · exact Or.inl (List.mem_map.mp h)
      · exact Or.inr ⟨m, Or.inl hm, hid, Nat.lt_succ_of_lt hlt⟩

/-- What is known of one combine of the tree. -/
structure NodeSpec (sha256 : JsString → List (Fin 256)) (fanout : Nat)
    (leaves : List ReduceLeaf) (nodes : List ReduceTreeNode) (n : ReduceTreeNode) : Prop where
  id_eq : n.id = combineId sha256 n.children
  two_le : 2 ≤ n.children.length
  le_fanout : n.children.length ≤ fanout
  one_le_level : 1 ≤ n.level
  below : ∀ c ∈ n.children, c ∈ leaves.map ReduceLeaf.id ∨
    ∃ m ∈ nodes, m.id = c ∧ m.level < n.level

theorem node_spec (hf : 2 ≤ fanout) (h : Rounds sha256 fanout leaves d spans) :
    ∀ n ∈ d.nodes, NodeSpec sha256 fanout leaves d.nodes n ∧ n.level < d.level := by
  induction h with
  | start => simp
  | @round d spans hr _ ih =>
    intro n hn
    rw [Derivation.round, layerNodes_eq sha256 hf] at *
    rcases List.mem_append.mp hn with hn | hn
    · obtain ⟨hspec, hlt⟩ := ih n hn
      refine ⟨{ hspec with below := fun c hc => ?_ }, Nat.lt_succ_of_lt hlt⟩
      exact (hspec.below c hc).imp_right fun ⟨m, hm, h⟩ => ⟨m, List.mem_append_left _ hm, h⟩
    · obtain ⟨g, hg, rfl⟩ := List.mem_map.mp hn
      obtain ⟨h2, hle⟩ := length_of_mem_groups hg
      refine ⟨⟨rfl, h2, hle, hr.one_le_level, fun c hc => ?_⟩, Nat.lt_succ_self _⟩
      exact (hr.mem_layer hf c (mem_of_mem_groups hf hg hc)).imp_right
        fun ⟨m, hm, h⟩ => ⟨m, List.mem_append_left _ hm, h⟩

/-- The combine a round pushes for a group of spans. -/
theorem combine_mem_round (hf : 2 ≤ fanout) (h : Rounds sha256 fanout leaves d spans)
    {row : List Span} (hrow : row ∈ groups fanout spans) :
    ⟨combineId sha256 (row.map Span.id), row.map Span.id, d.level⟩
      ∈ (d.round sha256 fanout).nodes := by
  have hgroup : row.map Span.id ∈ groups fanout d.layer := by
    rw [h.layer_eq, groups, map_slices, List.mem_filter]
    obtain ⟨hslice, hlong⟩ := List.mem_filter.mp hrow
    exact ⟨List.mem_map_of_mem hslice, by simpa using hlong⟩
  rw [Derivation.round, layerNodes_eq sha256 hf]
  exact List.mem_append_right _ (List.mem_map_of_mem hgroup)

/-- A round takes at least one id off a layer of two or more, so a fuel of one
    round an id reaches a layer of exactly one id. -/
theorem loop_single (hf : 2 ≤ fanout) (h : Rounds sha256 fanout leaves d spans) (fuel : Nat)
    (hne : d.layer ≠ []) (hlen : d.layer.length ≤ fuel) :
    ∃ root, Rounds sha256 fanout leaves (d.loop sha256 fanout fuel) [root] := by
  induction fuel generalizing d spans with
  | zero => exact absurd (List.length_pos_of_ne_nil hne) (by omega)
  | succ fuel ih =>
    rw [Derivation.loop]
    split
    · next hmany =>
      have hshorter : (d.round sha256 fanout).layer.length < d.layer.length :=
        length_layerUp_lt hf _ hmany
      exact ih (h.round hmany) (layerUp_ne_nil hf _ hne) (by omega)
    · next hfew =>
      have hpos := List.length_pos_of_ne_nil hne
      have hone : spans.length = 1 := by
        have := congrArg List.length h.layer_eq
        rw [List.length_map] at this
        omega
      obtain ⟨root, rfl⟩ := List.length_eq_one_iff.mp hone
      exact ⟨root, h⟩

end Rounds

/-! ## The derived tree -/

section

variable {sha256 : JsString → List (Fin 256)} {fanout : Nat}

variable (sha256) in
/-- The loop ends on one span, which covers every leaf. -/
theorem derivation_rounds (hf : 2 ≤ fanout) {leaves : List ReduceLeaf} (hne : leaves ≠ []) :
    ∃ root, Rounds sha256 fanout leaves (derivation sha256 leaves fanout) [root]
      ∧ root.leaves = leaves := by
  have hstart : Rounds sha256 fanout leaves _ _ := .start
  obtain ⟨root, h⟩ := hstart.loop_single hf leaves.length (by simpa using hne) (by simp)
  exact ⟨root, h, by simpa using (h.leaves_eq hf).1⟩

/-- `deriveReduceTree` succeeds on a non-empty list and a fanout of two or more. -/
theorem deriveReduceTree_ok (hf : 2 ≤ fanout) {contributions : List ReduceContribution}
    (hne : contributions ≠ []) :
    deriveReduceTree sha256 contributions fanout
      = .ok ⟨sortedLeaves contributions,
          (derivation sha256 (sortedLeaves contributions) fanout).nodes,
          (derivation sha256 (sortedLeaves contributions) fanout).layer.headD [], fanout,
          (derivation sha256 (sortedLeaves contributions) fanout).level - 1⟩ := by
  rw [deriveReduceTree, if_neg (by omega), if_neg hne]

/-- Everything a successful derivation says, in one place: the leaves, and the
    rounds that led to the nodes and to the root. -/
theorem deriveReduceTree_rounds {contributions : List ReduceContribution} {tree : ReduceTree}
    (h : deriveReduceTree sha256 contributions fanout = .ok tree) :
    2 ≤ fanout ∧ contributions ≠ [] ∧ tree.leaves = sortedLeaves contributions
      ∧ tree.fanout = fanout
      ∧ ∃ root, Rounds sha256 fanout tree.leaves ⟨tree.nodes, [tree.rootId], tree.depth + 1⟩ [root]
        ∧ root.id = tree.rootId ∧ root.leaves = tree.leaves := by
  rw [deriveReduceTree] at h
  split at h
  · cases h
  next hf =>
  split at h
  · cases h
  next hne =>
  have hf' : 2 ≤ fanout := by omega
  obtain rfl := Except.ok.inj h
  obtain ⟨root, hr, hroot⟩ := derivation_rounds sha256 hf' (sortedLeaves_ne_nil hne)
  refine ⟨hf', hne, rfl, rfl, root, ?_, ?_, hroot⟩
  · have hlayer := hr.layer_eq
    have hlevel := hr.one_le_level
    generalize derivation sha256 (sortedLeaves contributions) fanout = d at hr hlayer hlevel ⊢
    obtain ⟨nodes, layer, level⟩ := d
    simp only [List.map_cons, List.map_nil] at hlayer hlevel
    subst hlayer
    simpa [Nat.sub_add_cancel hlevel] using hr
  · simp [hr.layer_eq]

end

end O2Fabric.Reduce
