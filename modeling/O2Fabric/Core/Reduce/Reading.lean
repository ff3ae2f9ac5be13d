/-
  O2Fabric.Core.Reduce.Reading

  Reading a derived tree from its root.  The tree refers to its nodes by id
  only, so a reader resolves each child id to the node it finds under that id.

  Whatever the ids, the tree depends on the set of contributions alone and its
  combines have `2 … fanout` children.  That the reading gives back the sorted
  leaves needs the combines over a leaf to have ids of their own: a leaf is a
  child of one combine only (`Rounds.leafChildren_nodup`), so a reader who is
  sent elsewhere by that combine's id never meets the leaf
  (`Rounds.leafy_ids_nodup`).
-/

import O2Fabric.Core.Reduce.Identity
import Mathlib.Data.List.Pairwise

namespace O2Fabric.Reduce

open TreeFold

/-! ## The reading -/

/-- Read every child of a combine, left to right. -/
def readRow (read : JsString → Option (List ReduceLeaf)) :
    List JsString → Option (List ReduceLeaf)
  | [] => some []
  | c :: cs => do
    let ls ← read c
    let rest ← readRow read cs
    pure (ls ++ rest)

def ReduceTree.leaf? (tree : ReduceTree) (id : JsString) : Option ReduceLeaf :=
  tree.leaves.find? fun l => l.id = id

def ReduceTree.node? (tree : ReduceTree) (id : JsString) : Option ReduceTreeNode :=
  tree.nodes.find? fun n => n.id = id

/-- The leaves met below `id`, through at most `fuel` combines. -/
def ReduceTree.readFrom (tree : ReduceTree) : Nat → JsString → Option (List ReduceLeaf)
  | 0, id => (tree.leaf? id).map fun l => [l]
  | fuel + 1, id =>
    match tree.leaf? id with
    | some l => some [l]
    | none =>
      match tree.node? id with
      | some n => readRow (tree.readFrom fuel) n.children
      | none => none

/-- The leaves of the tree, as met from its root. -/
def ReduceTree.read (tree : ReduceTree) : Option (List ReduceLeaf) :=
  tree.readFrom tree.depth tree.rootId

theorem find?_key_eq_some {α : Type} {key : α → JsString} {l : List α} {k : JsString} {x : α}
    (h : l.find? (fun y => key y = k) = some x) : x ∈ l ∧ key x = k :=
  ⟨List.mem_of_find?_eq_some h, by simpa using List.find?_some h⟩

theorem readRow_spans {read : JsString → Option (List ReduceLeaf)} {row : List Span}
    (h : ∀ s ∈ row, read s.id = some s.leaves) :
    readRow read (row.map Span.id) = some (row.flatMap Span.leaves) := by
  induction row with
  | nil => rfl
  | cons s row ih =>
    rw [List.map_cons, readRow, h s List.mem_cons_self,
      ih fun s' hs' => h s' (List.mem_cons_of_mem _ hs')]
    rfl

theorem mem_of_readRow {read : JsString → Option (List ReduceLeaf)} {cs : List JsString}
    {ls : List ReduceLeaf} (h : readRow read cs = some ls) {l : ReduceLeaf} (hl : l ∈ ls) :
    ∃ c ∈ cs, ∃ below, read c = some below ∧ l ∈ below := by
  induction cs generalizing ls with
  | nil =>
    obtain rfl := Option.some.inj h
    cases hl
  | cons c cs ih =>
    simp only [readRow, Option.bind_eq_bind, Option.bind_eq_some_iff, Option.pure_def,
      Option.some.injEq] at h
    obtain ⟨below, hc, rest, hrest, rfl⟩ := h
    rcases List.mem_append.mp hl with hl | hl
    · exact ⟨c, List.mem_cons_self, below, hc, hl⟩
    · obtain ⟨c', hc', found⟩ := ih hrest hl
      exact ⟨c', List.mem_cons_of_mem _ hc', found⟩

/-- A leaf met below `id` is `id` itself, or a child of a combine that is found
    under its own id. -/
theorem ReduceTree.mem_readFrom {tree : ReduceTree} :
    ∀ {fuel : Nat} {id : JsString} {ls : List ReduceLeaf}, tree.readFrom fuel id = some ls →
      ∀ l ∈ ls, l.id = id ∨ ∃ n ∈ tree.nodes, tree.node? n.id = some n ∧ l.id ∈ n.children := by
  have hself : ∀ {id : JsString} {l' : ReduceLeaf}, tree.leaf? id = some l' →
      ∀ l ∈ [l'], l.id = id := by
    intro id l' h l hl
    rw [List.mem_singleton.mp hl]
    exact (find?_key_eq_some h).2
  intro fuel
  induction fuel with
  | zero =>
    intro id ls h l hl
    obtain ⟨l', hleaf, rfl⟩ := Option.map_eq_some_iff.mp h
    exact Or.inl (hself hleaf l hl)
  | succ fuel ih =>
    intro id ls h l hl
    rw [ReduceTree.readFrom] at h
    split at h
    · next l' hleaf =>
      obtain rfl := Option.some.inj h
      exact Or.inl (hself hleaf l hl)
    · split at h
      · next n hnode =>
        obtain ⟨hmem, hid⟩ := find?_key_eq_some hnode
        obtain ⟨c, hc, below, hread, hl'⟩ := mem_of_readRow h hl
        rcases ih hread l hl' with rfl | found
        · exact Or.inr ⟨n, hmem, by rw [hid]; exact hnode, hc⟩
        · exact Or.inr found
      · cases h

/-! ## The reading of a derived tree -/

theorem find?_key_of_mem {α : Type} (key : α → JsString) {l : List α} (h : (l.map key).Nodup) {x : α}
    (hx : x ∈ l) : l.find? (fun y => key y = key x) = some x := by
  induction l with
  | nil => cases hx
  | cons y l ih =>
    rw [List.map_cons, List.nodup_cons] at h
    rcases List.mem_cons.mp hx with rfl | hx
    · simp
    · rw [List.find?_cons_of_neg, ih h.2 hx]
      intro heq
      exact h.1 (by rw [of_decide_eq_true heq]; exact List.mem_map_of_mem hx)

namespace Rounds

variable {sha256 : JsString → List (Fin 256)} {fanout : Nat} {leaves : List ReduceLeaf}
  {d : Derivation} {spans : List Span}

/-- Where combines are found under their ids, every id of the layer reads as
    the leaves below it. -/
theorem readFrom_eq (hf : 2 ≤ fanout) {tree : ReduceTree}
    (hleaf : ∀ l ∈ leaves, tree.leaf? l.id = some l)
    (h : Rounds sha256 fanout leaves d spans)
    (hnode : ∀ n ∈ d.nodes, tree.leaf? n.id = none ∧ tree.node? n.id = some n) :
    ∀ fuel, d.level ≤ fuel + 1 → ∀ s ∈ spans, tree.readFrom fuel s.id = some s.leaves := by
  induction h with
  | start =>
    intro fuel _ s hs
    obtain ⟨l, hl, rfl⟩ := List.mem_map.mp hs
    cases fuel with
    | zero => simp [ReduceTree.readFrom, leafSpan, hleaf l hl]
    | succ fuel => simp [ReduceTree.readFrom, leafSpan, hleaf l hl]
  | @round d spans hr _ ih =>
    have hprev := ih fun n hn => hnode n (List.mem_append_left _ hn)
    intro fuel hfuel s hs
    have hlevel : d.level ≤ fuel := Nat.le_of_succ_le_succ hfuel
    rw [layerUp_eq hf] at hs
    rcases List.mem_append.mp hs with hs | hs
    · -- A combine over a row of spans: one fuel for it, the rest for the row.
      obtain ⟨row, hrow, rfl⟩ := List.mem_map.mp hs
      obtain ⟨fuel, rfl⟩ : ∃ k, fuel = k + 1 :=
        ⟨fuel - 1, by have := hr.one_le_level; omega⟩
      obtain ⟨hnotLeaf, hfound⟩ := hnode _ (hr.combine_mem_round hf hrow)
      have hcombine : (combineSpan sha256 row).id = combineId sha256 (row.map Span.id) := rfl
      rw [ReduceTree.readFrom, hcombine, hnotLeaf, hfound]
      exact readRow_spans fun s hs => hprev fuel hlevel s (mem_of_mem_groups hf hrow hs)
    · -- A promoted span.
      exact hprev fuel (by omega) s (mem_of_mem_lone hf hs)

/-- Every leaf id is a child of at most one combine, however the ids collide. -/
theorem leafChildren_nodup (hf : 2 ≤ fanout) (hleaves : (leaves.map ReduceLeaf.id).Nodup)
    (h : Rounds sha256 fanout leaves d spans) :
    ((d.nodes.flatMap ReduceTreeNode.children ++ d.layer).filter
      (fun id => decide (NUL ∈ id))).Nodup := by
  have hperm := (h.perm hf).filter (fun id => decide (NUL ∈ id))
  have hhex : (d.nodes.map ReduceTreeNode.id).filter (fun id => decide (NUL ∈ id)) = [] := by
    rw [List.filter_eq_nil_iff]
    intro id hid hnul
    obtain ⟨n, hn, rfl⟩ := List.mem_map.mp hid
    exact h.NUL_notMem_id hf hn (of_decide_eq_true hnul)
  refine hperm.nodup_iff.mpr ?_
  rw [List.filter_append, hhex, List.append_nil]
  exact hleaves.filter _

/-- No leaf id is a child of both combines. -/
def ShareNoLeaf (n n' : ReduceTreeNode) : Prop :=
  ∀ id, NUL ∈ id → ¬ (id ∈ n.children ∧ id ∈ n'.children)

instance : Std.Symm ShareNoLeaf :=
  ⟨fun _ _ h id hnul hboth => h id hnul hboth.symm⟩

theorem pairwise_shareNoLeaf (hf : 2 ≤ fanout) (hleaves : (leaves.map ReduceLeaf.id).Nodup)
    (h : Rounds sha256 fanout leaves d spans) : d.nodes.Pairwise ShareNoLeaf := by
  have honce := h.leafChildren_nodup hf hleaves
  rw [List.filter_append, List.nodup_append] at honce
  obtain ⟨hchildren, -, -⟩ := honce
  rw [List.flatMap_def, List.filter_flatten, List.map_map, List.nodup_flatten] at hchildren
  refine (List.pairwise_map.mp hchildren.2).imp ?_
  intro n n' hdis id hnul ⟨hn, hn'⟩
  exact hdis (List.mem_filter.mpr ⟨hn, by simpa using hnul⟩)
    (List.mem_filter.mpr ⟨hn', by simpa using hnul⟩)

/-- If every leaf is met from the root, the combines over a leaf have distinct
    ids: the one combine a leaf is a child of must be found under its id. -/
theorem leafy_ids_nodup (hf : 2 ≤ fanout)
    (hleaves : (leaves.map ReduceLeaf.id).Nodup) {tree : ReduceTree} {root : Span}
    (h : Rounds sha256 fanout leaves ⟨tree.nodes, [tree.rootId], tree.depth + 1⟩ [root])
    (hread : tree.read = some leaves) :
    ((tree.nodes.filter (fun n => decide (HoldsLeaf n.children))).map ReduceTreeNode.id).Nodup := by
  have hdisjoint := h.pairwise_shareNoLeaf hf hleaves
  have hroot := (List.nodup_append.mp
    (List.filter_append _ _ ▸ h.leafChildren_nodup hf hleaves)).2.2
  -- A child id with a NUL is a leaf's, and that leaf is met below its parent only.
  have hfound : ∀ n ∈ tree.nodes, HoldsLeaf n.children → tree.node? n.id = some n := by
    intro n hn hholds
    obtain ⟨c, hc, hnul⟩ := holdsLeaf_iff.mp hholds
    have hmem : c ∈ leaves.map ReduceLeaf.id := by
      rcases (h.node_spec hf n hn).1.below c hc with hmem | ⟨m, hm, rfl, -⟩
      · exact hmem
      · exact absurd hnul (h.NUL_notMem_id hf hm)
    obtain ⟨l, hl, rfl⟩ := List.mem_map.mp hmem
    rcases ReduceTree.mem_readFrom hread l hl with heq | ⟨n', hn', hself, hc'⟩
    · refine absurd rfl (hroot l.id ?_ l.id ?_)
      · exact List.mem_filter.mpr ⟨List.mem_flatMap.mpr ⟨n, hn, hc⟩, by simpa using hnul⟩
      · exact List.mem_filter.mpr ⟨by simp [heq], by simpa using hnul⟩
    · have hsame : n = n' := by
        by_contra hne
        exact hdisjoint.forall hn hn' hne l.id hnul ⟨hc, hc'⟩
      rw [hsame]
      exact hself
  rw [List.Nodup, List.pairwise_map, List.pairwise_filter]
  refine hdisjoint.imp_of_mem ?_
  intro n n' hn hn' hdis hholds hholds' hid
  have hnn' : n = n' := by
    have h1 := hfound n hn (of_decide_eq_true hholds)
    rw [hid, hfound n' hn' (of_decide_eq_true hholds')] at h1
    exact (Option.some.inj h1).symm
  obtain ⟨c, hc, hnul⟩ := holdsLeaf_iff.mp (of_decide_eq_true hholds)
  exact hdis c hnul ⟨hc, hnn' ▸ hc⟩

end Rounds

/-! ## A canonical tree -/

/-- What every participant may rely on without negotiating the topology. -/
structure CanonicalTree (sha256 : JsString → List (Fin 256))
    (contributions : List ReduceContribution) (fanout : Nat) (tree : ReduceTree) : Prop where
  /-- The same set of pairs, in any order and with any repetitions, gives this tree. -/
  determined : ∀ contributions' : List ReduceContribution,
    (∀ c, c ∈ contributions' ↔ c ∈ contributions) →
      deriveReduceTree sha256 contributions' fanout = .ok tree
  /-- The leaves are the distinct contributions, in strictly increasing id order. -/
  leaves_mem : ∀ l, l ∈ tree.leaves ↔ ∃ c ∈ contributions, leafOf c = l
  leaves_sorted : tree.leaves.Pairwise fun a b => a.id < b.id
  /-- Read from the root, each leaf appears once and in that order. -/
  read_eq : tree.read = some tree.leaves
  children_length : ∀ n ∈ tree.nodes, 2 ≤ n.children.length ∧ n.children.length ≤ fanout
  /-- Below a node are leaves and nodes of lower level only. -/
  children_below : ∀ n ∈ tree.nodes, ∀ c ∈ n.children, c ∈ tree.leaves.map ReduceLeaf.id ∨
    (∃ m ∈ tree.nodes, m.id = c) ∧ ∀ m ∈ tree.nodes, m.id = c → m.level < n.level
  /-- The loop ends with exactly one id in its layer. -/
  one_root : (derivation sha256 tree.leaves fanout).layer = [tree.rootId]

section

variable {sha256 : JsString → List (Fin 256)} {fanout : Nat}
  {contributions : List ReduceContribution} {tree : ReduceTree}

theorem deriveReduceTree_congr {contributions' : List ReduceContribution}
    (h : ∀ c, c ∈ contributions' ↔ c ∈ contributions) :
    deriveReduceTree sha256 contributions' fanout
      = deriveReduceTree sha256 contributions fanout := by
  have hnil : contributions' = [] ↔ contributions = [] := by
    simp only [List.eq_nil_iff_forall_not_mem, h]
  rw [deriveReduceTree, deriveReduceTree, sortedLeaves_congr h]
  simp only [hnil]

theorem derivation_layer (h : deriveReduceTree sha256 contributions fanout = .ok tree) :
    (derivation sha256 tree.leaves fanout).layer = [tree.rootId] := by
  obtain ⟨hf, hne, hleaves, -, -⟩ := deriveReduceTree_rounds h
  rw [deriveReduceTree_ok hf hne] at h
  obtain rfl := Except.ok.inj h
  obtain ⟨root, hr, -⟩ := derivation_rounds sha256 hf (sortedLeaves_ne_nil hne)
  rw [hr.layer_eq]
  simp

/-- Distinct node ids make the tree canonical. -/
theorem canonicalTree_of_nodes_nodup
    (h : deriveReduceTree sha256 contributions fanout = .ok tree)
    (hids : (tree.nodes.map ReduceTreeNode.id).Nodup) :
    CanonicalTree sha256 contributions fanout tree := by
  obtain ⟨hf, hne, hleaves, -, root, hr, hrootId, hrootLeaves⟩ := deriveReduceTree_rounds h
  have hnul : ∀ l ∈ tree.leaves, NUL ∈ l.id := fun l hl => NUL_mem_leaf_id (hleaves ▸ hl)
  have hnode : ∀ n ∈ tree.nodes, tree.leaf? n.id = none ∧ tree.node? n.id = some n := by
    intro n hn
    refine ⟨?_, find?_key_of_mem ReduceTreeNode.id hids hn⟩
    rw [ReduceTree.leaf?, List.find?_eq_none]
    intro l hl heq
    exact hr.NUL_notMem_id hf hn (of_decide_eq_true heq ▸ hnul l hl)
  have hleaf : ∀ l ∈ tree.leaves, tree.leaf? l.id = some l := fun l hl =>
    find?_key_of_mem ReduceLeaf.id (hleaves ▸ sortedLeaves_ids_nodup contributions) hl
  exact {
    determined := fun contributions' hsame => by rw [deriveReduceTree_congr hsame, h]
    leaves_mem := fun l => by rw [hleaves, mem_sortedLeaves]
    leaves_sorted := by
      rw [hleaves]
      exact sortedLeaves_pairwise contributions
    read_eq := by
      have := hr.readFrom_eq hf hleaf hnode tree.depth (Nat.le_refl _) root (by simp)
      rwa [hrootId, hrootLeaves] at this
    children_length := fun n hn =>
      ⟨(hr.node_spec hf n hn).1.two_le, (hr.node_spec hf n hn).1.le_fanout⟩
    children_below := fun n hn c hc => by
      refine ((hr.node_spec hf n hn).1.below c hc).imp_right ?_
      rintro ⟨m, hm, hmid, hlt⟩
      refine ⟨⟨m, hm, hmid⟩, fun m' hm' hid => ?_⟩
      rwa [List.inj_on_of_nodup_map hids hm' hm (hid.trans hmid.symm)]
    one_root := derivation_layer h }

/-- A reading that gives back every leaf makes the node ids distinct. -/
theorem nodes_nodup_of_read (hash : Function.Injective sha256)
    (h : deriveReduceTree sha256 contributions fanout = .ok tree)
    (hread : tree.read = some tree.leaves) : (tree.nodes.map ReduceTreeNode.id).Nodup := by
  obtain ⟨hf, hne, hleaves, -, root, hr, hrootId, hrootLeaves⟩ := deriveReduceTree_rounds h
  have hnul : ∀ l ∈ tree.leaves, NUL ∈ l.id := fun l hl => NUL_mem_leaf_id (hleaves ▸ hl)
  have hnodup : (tree.leaves.map ReduceLeaf.id).Nodup :=
    hleaves ▸ sortedLeaves_ids_nodup contributions
  refine hr.ids_nodup hash hf hnul hnodup ?_
  have hleafy := hr.leafy_ids_nodup hf hnodup hread
  rw [List.filter_map, List.map_map]
  have hhash : ((tree.nodes.filter (fun n => decide (HoldsLeaf n.children))).map
        ReduceTreeNode.id)
      = ((tree.nodes.filter (fun n => decide (HoldsLeaf n.children))).map
          (join PIPE ∘ ReduceTreeNode.children)).map (hashOf sha256) := by
    rw [List.map_map]
    refine List.map_congr_left fun n hn => ?_
    exact (hr.node_spec hf n (List.mem_filter.mp hn).1).1.id_eq
  rw [hhash] at hleafy
  exact hleafy.of_map _

end

/-- A derived tree is canonical if and only if no two of the groups that combine
    a leaf are spelled alike. -/
theorem canonicalTree_iff_spellings_distinct {sha256 : JsString → List (Fin 256)} {fanout : Nat}
    {contributions : List ReduceContribution} {tree : ReduceTree}
    (hash : Function.Injective sha256)
    (h : deriveReduceTree sha256 contributions fanout = .ok tree) :
    CanonicalTree sha256 contributions fanout tree
      ↔ (leafSpellings sha256 fanout contributions).Nodup := by
  rw [← nodes_nodup_iff hash h]
  exact ⟨fun hcanonical => nodes_nodup_of_read hash h hcanonical.read_eq,
    canonicalTree_of_nodes_nodup h⟩

theorem canonicalTree_iff_spellings_distinct_pair :
    ∃ tree, deriveReduceTree codeUnitBytes [⟨js "a", zCid⟩, ⟨js "b", zCid⟩] 4 = .ok tree ∧
      (CanonicalTree codeUnitBytes [⟨js "a", zCid⟩, ⟨js "b", zCid⟩] 4 tree ↔
        (leafSpellings codeUnitBytes 4 [⟨js "a", zCid⟩, ⟨js "b", zCid⟩]).Nodup) :=
  ⟨_, rfl, canonicalTree_iff_spellings_distinct codeUnitBytes_injective rfl⟩

/-- Over `collidingContributions` the reading does not give the leaves back. -/
theorem reading_loses_a_leaf :
    ¬ ∀ (sha256 : JsString → List (Fin 256)) (contributions : List ReduceContribution)
        (fanout : Nat) (tree : ReduceTree), Function.Injective sha256 → 2 ≤ fanout →
        deriveReduceTree sha256 contributions fanout = .ok tree →
        CanonicalTree sha256 contributions fanout tree := by
  intro hall
  have hok : deriveReduceTree codeUnitBytes collidingContributions 2 = .ok _ := rfl
  have hread := (hall _ _ _ _ codeUnitBytes_injective (by decide) hok).read_eq
  have hids := nodes_nodup_of_read codeUnitBytes_injective hok hread
  rw [nodes_nodup_iff codeUnitBytes_injective hok] at hids
  have hsame : ¬ (leafSpellings codeUnitBytes 2 collidingContributions).Nodup := by decide
  exact hsame hids

end O2Fabric.Reduce
