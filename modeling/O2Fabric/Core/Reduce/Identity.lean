/-
  O2Fabric.Core.Reduce.Identity

  When the ids of a derived tree are distinct.

  A combine's id hashes its children's ids joined by `|`, and a leaf's id embeds
  a contributor id, which may hold any code unit.  So two groups that combine
  leaves can be spelled alike.  Groups of combine ids cannot: those are
  hexadecimal, hence free of `|` and NUL.  The ids are therefore distinct
  exactly when the groups that combine at least one leaf are spelled
  differently (`Rounds.ids_nodup_iff`), and these groups can be listed from the
  leaf ids alone (`leafGroups`, `Rounds.leafGroups_eq`).
-/

import O2Fabric.Core.Reduce.Layers

namespace O2Fabric.Reduce

open TreeFold

/-! ## The groups that combine a leaf -/

section

variable (sha256 : JsString → List (Fin 256)) (fanout : Nat)

/-- The group in which a leaf promoted behind `front` is combined at last.  It
    keeps being promoted while what stands before it fills whole slices. -/
def promotedGroup (last : JsString) : Nat → List JsString → List (List JsString)
  | 0, _ => []
  | fuel + 1, front =>
    if front = [] then []
    else if fanout ∣ front.length then
      promotedGroup last fuel ((groups fanout front).map (combineId sha256))
    else [front.drop (front.length / fanout * fanout) ++ [last]]

/-- Every group with a leaf in it: the slices of two or more leaf ids, and the
    group a promoted last leaf ends up in. -/
def leafGroups (ids : List JsString) : List (List JsString) :=
  groups fanout ids ++ (lone fanout ids).flatMap fun last =>
    promotedGroup sha256 fanout last ids.length ((groups fanout ids).map (combineId sha256))

/-- The texts whose hashes are the ids of those groups. -/
def leafSpellings (contributions : List ReduceContribution) : List JsString :=
  (leafGroups sha256 fanout ((sortedLeaves contributions).map ReduceLeaf.id)).map (join PIPE)

end

/-- A group holds a leaf id exactly when its spelling has a NUL. -/
def HoldsLeaf (group : List JsString) : Prop := NUL ∈ join PIPE group

instance (group : List JsString) : Decidable (HoldsLeaf group) :=
  inferInstanceAs (Decidable (NUL ∈ join PIPE group))

theorem holdsLeaf_iff {group : List JsString} : HoldsLeaf group ↔ ∃ c ∈ group, NUL ∈ c := by
  constructor
  · intro h
    exact (mem_of_mem_join h).resolve_left (by decide)
  · rintro ⟨c, hc, hnul⟩
    exact mem_join_of_mem hc hnul

/-! ## Listing them while the loop runs -/

section

variable {sha256 : JsString → List (Fin 256)} {fanout : Nat}

theorem NUL_notMem_combineId (children : List JsString) :
    NUL ∉ combineId sha256 children := NUL_notMem_toHex _

theorem PIPE_notMem_combineId (children : List JsString) :
    PIPE ∉ combineId sha256 children := PIPE_notMem_toHex _

theorem combineId_eq_iff (hash : Function.Injective sha256) {g g' : List JsString} :
    combineId sha256 g = combineId sha256 g' ↔ join PIPE g = join PIPE g' :=
  ⟨fun h => hash (toHex_injective h), fun h => by rw [combineId, combineId, h]⟩

/-- Where the loop stands as far as leaves are concerned: at the leaf layer, or
    above it with at most one leaf left, promoted to the end of the layer. -/
inductive LeafProgress (sha256 : JsString → List (Fin 256)) (fanout : Nat)
    (ids : List JsString) (d : Derivation) : Prop
  | start (nodes : d.nodes = []) (layer : d.layer = ids)
  | above (front tail : List JsString) (fuel : Nat)
      (layer : d.layer = front ++ tail)
      (front_hex : ∀ id ∈ front, NUL ∉ id)
      (tail_leaf : ∀ id ∈ tail, NUL ∈ id)
      (tail_le : tail.length ≤ 1)
      (fuel_enough : front.length ≤ fuel)
      (listed : (d.nodes.map ReduceTreeNode.children).filter (fun g => decide (HoldsLeaf g))
          ++ tail.flatMap (fun last => promotedGroup sha256 fanout last fuel front)
        = leafGroups sha256 fanout ids)

theorem filter_holdsLeaf_eq_nil {gs : List (List JsString)}
    (h : ∀ g ∈ gs, ∀ id ∈ g, NUL ∉ id) : gs.filter (fun g => decide (HoldsLeaf g)) = [] := by
  rw [List.filter_eq_nil_iff]
  intro g hg hleaf
  obtain ⟨id, hid, hnul⟩ := holdsLeaf_iff.mp (of_decide_eq_true hleaf)
  exact h g hg id hid hnul

theorem children_round (hf : 2 ≤ fanout) (d : Derivation) :
    (d.round sha256 fanout).nodes.map ReduceTreeNode.children
      = d.nodes.map ReduceTreeNode.children ++ groups fanout d.layer := by
  rw [Derivation.round, layerNodes_eq sha256 hf, List.map_append, List.map_map]
  simp [Function.comp_def]

theorem layer_round (hf : 2 ≤ fanout) (d : Derivation) :
    (d.round sha256 fanout).layer
      = (groups fanout d.layer).map (combineId sha256) ++ lone fanout d.layer :=
  nextLayer_eq sha256 hf d.layer

theorem leafProgress_start_round (hf : 2 ≤ fanout) {ids : List JsString} {d : Derivation}
    (hids : ∀ id ∈ ids, NUL ∈ id) (nodes : d.nodes = []) (layer : d.layer = ids) :
    LeafProgress sha256 fanout ids (d.round sha256 fanout) := by
  refine .above ((groups fanout ids).map (combineId sha256)) (lone fanout ids) ids.length
    ?_ ?_ ?_ (length_lone_le hf ids) ?_ ?_
  · rw [layer_round hf, layer]
  · intro id hid
    obtain ⟨g, -, rfl⟩ := List.mem_map.mp hid
    exact NUL_notMem_combineId g
  · exact fun id hid => hids id (mem_of_mem_lone hf hid)
  · rw [List.length_map]
    rcases eq_or_ne ids [] with rfl | hne
    · simp
    · exact Nat.le_of_lt (length_groups_lt hf hne)
  · have hall : (groups fanout ids).filter (fun g => decide (HoldsLeaf g)) = groups fanout ids := by
      rw [List.filter_eq_self]
      intro g hg
      obtain ⟨id, hid⟩ := List.exists_mem_of_length_pos
        (show 0 < g.length by have := (length_of_mem_groups hg).1; omega)
      exact decide_eq_true (holdsLeaf_iff.mpr ⟨id, hid, hids id (mem_of_mem_groups hf hg hid)⟩)
    rw [children_round hf, nodes, layer, List.map_nil, List.nil_append, hall, leafGroups]

theorem leafProgress_above_round (hf : 2 ≤ fanout) {ids front tail : List JsString} {fuel : Nat}
    {d : Derivation} (hmany : 1 < d.layer.length) (layer : d.layer = front ++ tail)
    (front_hex : ∀ id ∈ front, NUL ∉ id) (tail_leaf : ∀ id ∈ tail, NUL ∈ id)
    (tail_le : tail.length ≤ 1) (fuel_enough : front.length ≤ fuel)
    (listed : (d.nodes.map ReduceTreeNode.children).filter (fun g => decide (HoldsLeaf g))
        ++ tail.flatMap (fun last => promotedGroup sha256 fanout last fuel front)
      = leafGroups sha256 fanout ids) :
    LeafProgress sha256 fanout ids (d.round sha256 fanout) := by
  have hex_groups : ∀ {l : List JsString}, (∀ id ∈ l, id ∈ front) →
      (groups fanout l).filter (fun g => decide (HoldsLeaf g)) = [] := fun hl =>
    filter_holdsLeaf_eq_nil fun g hg id hid => front_hex id (hl id (mem_of_mem_groups hf hg hid))
  have hex_hashes : ∀ gs : List (List JsString), ∀ id ∈ gs.map (combineId sha256), NUL ∉ id := by
    intro gs id hid
    obtain ⟨g, -, rfl⟩ := List.mem_map.mp hid
    exact NUL_notMem_combineId g
  match tail, tail_le with
  | [], _ =>
    -- No leaf is left: neither are groups that hold one.
    rw [List.append_nil] at layer
    refine .above ((groups fanout front).map (combineId sha256) ++ lone fanout front) []
      _ (by rw [layer_round hf, layer, List.append_nil]) ?_ (by simp) (by simp)
      (Nat.le_refl _) ?_
    · intro id hid
      rcases List.mem_append.mp hid with h | h
      · exact hex_hashes _ id h
      · exact front_hex id (mem_of_mem_lone hf h)
    · rw [children_round hf, layer, List.filter_append, hex_groups fun id hid => hid,
        List.append_nil]
      simpa using listed
  | [last], _ =>
    have hfront : front ≠ [] := by
      rintro rfl
      rw [layer] at hmany
      simp at hmany
    obtain ⟨fuel, rfl⟩ : ∃ k, fuel = k + 1 :=
      ⟨fuel - 1, by have := List.length_pos_of_ne_nil hfront; omega⟩
    simp only [List.flatMap_cons, List.flatMap_nil, List.append_nil, promotedGroup,
      if_neg hfront] at listed
    by_cases hd : fanout ∣ front.length
    · -- The leaf is promoted once more.
      rw [if_pos hd] at listed
      refine .above ((groups fanout front).map (combineId sha256)) [last] fuel ?_
        (hex_hashes _) tail_leaf (by simp) ?_ ?_
      · rw [layer_round hf, layer, groups_append_of_dvd hf last hd, lone_append hf, if_pos hd]
      · rw [List.length_map]
        have := length_groups_lt hf hfront
        omega
      · rw [children_round hf, layer, groups_append_of_dvd hf last hd, List.filter_append,
          hex_groups fun id hid => hid, List.append_nil]
        simpa using listed
    · -- The leaf is combined with the ids left over before it.
      rw [if_neg hd] at listed
      have hlast : HoldsLeaf (front.drop (front.length / fanout * fanout) ++ [last]) :=
        holdsLeaf_iff.mpr ⟨last, by simp, tail_leaf last (by simp)⟩
      refine .above ((groups fanout (front ++ [last])).map (combineId sha256)) [] _ ?_
        (hex_hashes _) (by simp) (by simp) (Nat.le_refl _) ?_
      · rw [layer_round hf, layer, lone_append hf, if_neg hd]
      · rw [children_round hf, layer, groups_append_of_not_dvd hf last hd, List.filter_append,
          List.filter_append, hex_groups fun id hid => List.mem_of_mem_take hid,
          List.nil_append, List.filter_cons_of_pos (by simpa using hlast)]
        simpa using listed

end

namespace Rounds

variable {sha256 : JsString → List (Fin 256)} {fanout : Nat} {leaves : List ReduceLeaf}
  {d : Derivation} {spans : List Span}

theorem leafProgress (hf : 2 ≤ fanout) (hleaf : ∀ l ∈ leaves, NUL ∈ l.id)
    (h : Rounds sha256 fanout leaves d spans) :
    LeafProgress sha256 fanout (leaves.map ReduceLeaf.id) d := by
  induction h with
  | start => exact .start rfl rfl
  | @round d spans _ hmany ih =>
    cases ih with
    | start nodes layer =>
      exact leafProgress_start_round hf (by simpa using hleaf) nodes layer
    | above front tail fuel layer front_hex tail_leaf tail_le fuel_enough listed =>
      exact leafProgress_above_round hf hmany layer front_hex tail_leaf tail_le fuel_enough
        listed

/-- Once one id is left, the combines over a leaf are exactly `leafGroups`. -/
theorem leafGroups_eq (hf : 2 ≤ fanout) (hleaf : ∀ l ∈ leaves, NUL ∈ l.id)
    (h : Rounds sha256 fanout leaves d spans) (hone : d.layer.length = 1) :
    (d.nodes.map ReduceTreeNode.children).filter (fun g => decide (HoldsLeaf g))
      = leafGroups sha256 fanout (leaves.map ReduceLeaf.id) := by
  cases h.leafProgress hf hleaf with
  | start nodes layer =>
    obtain ⟨id, hid⟩ := List.length_eq_one_iff.mp hone
    rw [nodes, ← layer, hid, leafGroups, groups_singleton hf, lone_singleton hf]
    simp [promotedGroup]
  | above front tail fuel layer front_hex tail_leaf tail_le fuel_enough listed =>
    match tail, tail_le with
    | [], _ => simpa using listed
    | [last], _ =>
      have hfront : front = [] := by
        rw [layer, List.length_append, List.length_singleton] at hone
        exact List.length_eq_zero_iff.mp (by omega)
      have hnone : promotedGroup sha256 fanout last fuel [] = [] := by
        cases fuel with
        | zero => rfl
        | succ fuel => simp [promotedGroup]
      rw [hfront] at listed
      simpa [hnone] using listed

theorem NUL_notMem_id (hf : 2 ≤ fanout) (h : Rounds sha256 fanout leaves d spans)
    {n : ReduceTreeNode} (hn : n ∈ d.nodes) : NUL ∉ n.id := by
  rw [(h.node_spec hf n hn).1.id_eq]
  exact NUL_notMem_combineId _

/-- Each id is below at most one combine, once the combine ids are distinct. -/
theorem consumed_nodup (hf : 2 ≤ fanout) (hleaf : ∀ l ∈ leaves, NUL ∈ l.id)
    (hleaves : (leaves.map ReduceLeaf.id).Nodup) (h : Rounds sha256 fanout leaves d spans)
    (hids : (d.nodes.map ReduceTreeNode.id).Nodup) :
    (d.nodes.flatMap ReduceTreeNode.children ++ d.layer).Nodup := by
  rw [(h.perm hf).nodup_iff, List.nodup_append]
  refine ⟨hleaves, hids, ?_⟩
  intro a ha b hb hab
  obtain ⟨l, hl, rfl⟩ := List.mem_map.mp ha
  obtain ⟨n, hn, rfl⟩ := List.mem_map.mp hb
  exact h.NUL_notMem_id hf hn (hab ▸ hleaf l hl)

/-- Two different groups without a leaf are spelled differently. -/
theorem hex_spellings_nodup (hf : 2 ≤ fanout) (h : Rounds sha256 fanout leaves d spans)
    (hleaf : ∀ l ∈ leaves, NUL ∈ l.id)
    (hconsumed : (d.nodes.flatMap ReduceTreeNode.children).Nodup) :
    (((d.nodes.map ReduceTreeNode.children).filter (fun g => decide (¬ HoldsLeaf g))).map
      (join PIPE)).Nodup := by
  have hdistinct : (d.nodes.map ReduceTreeNode.children).Nodup := by
    rw [List.flatMap_def] at hconsumed
    have hdisjoint := (List.nodup_flatten.mp hconsumed).2
    refine List.Pairwise.imp_of_mem ?_ hdisjoint
    intro g g' hg _ hdis heq
    obtain ⟨n, hn, rfl⟩ := List.mem_map.mp hg
    obtain ⟨c, hc⟩ := List.exists_mem_of_length_pos
      (show 0 < n.children.length by have := (h.node_spec hf n hn).1.two_le; omega)
    exact hdis hc (heq ▸ hc)
  refine List.Nodup.map_on ?_ (hdistinct.filter _)
  intro g hg g' hg' hjoin
  -- A child without a NUL is a combine id, so it has no `|` either.
  have hplain : ∀ g ∈ (d.nodes.map ReduceTreeNode.children).filter
      (fun g => decide (¬ HoldsLeaf g)), g ≠ [] ∧ ∀ c ∈ g, PIPE ∉ c := by
    intro g hg
    obtain ⟨hmem, hno⟩ := List.mem_filter.mp hg
    obtain ⟨n, hn, rfl⟩ := List.mem_map.mp hmem
    have hspec := (h.node_spec hf n hn).1
    refine ⟨List.ne_nil_of_length_pos (by have := hspec.two_le; omega), fun c hc => ?_⟩
    rcases hspec.below c hc with hmem | ⟨m, hm, rfl, -⟩
    · obtain ⟨l, hl, rfl⟩ := List.mem_map.mp hmem
      exact absurd (holdsLeaf_iff.mpr ⟨_, hc, hleaf l hl⟩) (of_decide_eq_true hno)
    · rw [(h.node_spec hf m hm).1.id_eq]
      exact PIPE_notMem_combineId _
  exact join_inj (hplain g hg).1 (hplain g' hg').1 (hplain g hg).2 (hplain g' hg').2 hjoin

theorem ids_eq (hf : 2 ≤ fanout) (h : Rounds sha256 fanout leaves d spans) :
    d.nodes.map ReduceTreeNode.id
      = (d.nodes.map ReduceTreeNode.children).map (combineId sha256) := by
  rw [List.map_map]
  exact List.map_congr_left fun n hn => (h.node_spec hf n hn).1.id_eq

/-- The combine ids are distinct when the groups over a leaf are spelled apart. -/
theorem ids_nodup (hash : Function.Injective sha256) (hf : 2 ≤ fanout)
    (hleaf : ∀ l ∈ leaves, NUL ∈ l.id) (hleaves : (leaves.map ReduceLeaf.id).Nodup)
    (h : Rounds sha256 fanout leaves d spans)
    (hspell : (((d.nodes.map ReduceTreeNode.children).filter
      (fun g => decide (HoldsLeaf g))).map (join PIPE)).Nodup) :
    (d.nodes.map ReduceTreeNode.id).Nodup := by
  induction h with
  | start => simp
  | @round d spans hr hmany ih =>
    -- The ids of the earlier rounds are distinct, so no id is consumed twice.
    have hprev : (d.nodes.map ReduceTreeNode.id).Nodup := by
      refine ih (hspell.sublist ?_)
      rw [children_round hf, List.filter_append, List.map_append]
      exact List.sublist_append_left _ _
    have hconsumed : ((d.round sha256 fanout).nodes.flatMap ReduceTreeNode.children).Nodup := by
      have hbefore := hr.consumed_nodup hf hleaf hleaves hprev
      rw [← flatten_groups_append_lone hf d.layer, ← List.append_assoc] at hbefore
      rw [List.flatMap_def, children_round hf, List.flatten_append, ← List.flatMap_def]
      exact hbefore.sublist (List.sublist_append_left _ _)
    have hhex := (hr.round hmany).hex_spellings_nodup hf hleaf hconsumed
    have hall : (((d.round sha256 fanout).nodes.map ReduceTreeNode.children).map
        (join PIPE)).Nodup := by
      rw [List.Nodup, List.pairwise_map]
      rw [List.Nodup, List.pairwise_map, List.pairwise_filter] at hspell hhex
      refine (hspell.and hhex).imp ?_
      intro g g' ⟨hl, hn⟩ hjoin
      by_cases hg : HoldsLeaf g
      · exact hl (by simpa using hg) (by simpa [HoldsLeaf, ← hjoin] using hg) hjoin
      · exact hn (by simpa using hg) (by simpa [HoldsLeaf, ← hjoin] using hg) hjoin
    rw [(hr.round hmany).ids_eq hf]
    refine List.Nodup.map_on ?_ (hall.of_map _)
    intro g hg g' hg' heq
    exact List.inj_on_of_nodup_map hall hg hg' ((combineId_eq_iff hash).mp heq)

theorem ids_nodup_iff (hash : Function.Injective sha256) (hf : 2 ≤ fanout)
    (hleaf : ∀ l ∈ leaves, NUL ∈ l.id) (hleaves : (leaves.map ReduceLeaf.id).Nodup)
    (h : Rounds sha256 fanout leaves d spans) (hone : d.layer.length = 1) :
    (d.nodes.map ReduceTreeNode.id).Nodup ↔
      ((leafGroups sha256 fanout (leaves.map ReduceLeaf.id)).map (join PIPE)).Nodup := by
  rw [← h.leafGroups_eq hf hleaf hone]
  refine ⟨fun hids => ?_, h.ids_nodup hash hf hleaf hleaves⟩
  -- Groups spelled alike would hash to one id, whatever the hash.
  have hhash : d.nodes.map ReduceTreeNode.id
      = ((d.nodes.map ReduceTreeNode.children).map (join PIPE)).map (hashOf sha256) := by
    rw [h.ids_eq hf, List.map_map (g := hashOf sha256)]
    rfl
  rw [hhash] at hids
  exact (hids.of_map _).sublist (List.filter_sublist.map _)

end Rounds

/-! ## Distinct ids of a derived tree -/

section

variable {sha256 : JsString → List (Fin 256)} {fanout : Nat}
  {contributions : List ReduceContribution} {tree : ReduceTree}

theorem nodes_nodup_iff (hash : Function.Injective sha256)
    (h : deriveReduceTree sha256 contributions fanout = .ok tree) :
    (tree.nodes.map ReduceTreeNode.id).Nodup
      ↔ (leafSpellings sha256 fanout contributions).Nodup := by
  obtain ⟨hf, -, hleaves, -, root, hr, -, -⟩ := deriveReduceTree_rounds h
  rw [leafSpellings, ← hleaves]
  refine hr.ids_nodup_iff hash hf ?_ ?_ rfl
  · rw [hleaves]
    exact fun l hl => NUL_mem_leaf_id hl
  · rw [hleaves]
    exact sortedLeaves_ids_nodup contributions

theorem ids_nodup_iff_nodes_nodup (h : deriveReduceTree sha256 contributions fanout = .ok tree) :
    tree.ids.Nodup ↔ (tree.nodes.map ReduceTreeNode.id).Nodup := by
  obtain ⟨hf, -, hleaves, -, root, hr, -, -⟩ := deriveReduceTree_rounds h
  rw [ReduceTree.ids, List.nodup_append]
  refine ⟨fun h => h.2.1, fun hids => ⟨?_, hids, ?_⟩⟩
  · rw [hleaves]
    exact sortedLeaves_ids_nodup contributions
  · intro a ha b hb hab
    obtain ⟨l, hl, rfl⟩ := List.mem_map.mp ha
    obtain ⟨n, hn, rfl⟩ := List.mem_map.mp hb
    exact hr.NUL_notMem_id hf hn (hab ▸ NUL_mem_leaf_id (hleaves ▸ hl))

end

/-! ## Two groups spelled alike -/

/-- Two bytes a code unit: an injective stand-in for the digest. -/
def codeUnitBytes (input : JsString) : List (Fin 256) :=
  input.flatMap fun u => [Fin.ofNat 256 (u.val / 256), Fin.ofNat 256 (u.val % 256)]

theorem codeUnitBytes_injective : Function.Injective codeUnitBytes := by
  intro xs
  induction xs with
  | nil =>
    intro ys h
    cases ys with
    | nil => rfl
    | cons y ys => simp [codeUnitBytes] at h
  | cons x xs ih =>
    intro ys h
    cases ys with
    | nil => simp [codeUnitBytes] at h
    | cons y ys =>
      simp only [codeUnitBytes, List.flatMap_cons, List.cons_append, List.nil_append,
        List.cons.injEq, Fin.ext_iff, Fin.val_ofNat] at h
      obtain ⟨hhigh, hlow, hrest⟩ := h
      have hx := x.isLt
      have hy := y.isLt
      rw [ih hrest, Fin.ext (show x.val = y.val by omega)]

/-- The address every contribution below offers. -/
def zCid : Cid := ⟨js "z", by decide, by decide⟩

/-- Four contributors whose leaf ids, two by two, join to one text. -/
def collidingContributions : List ReduceContribution :=
  [⟨js "a", zCid⟩, ⟨js "a\x00z0\x00z|b", zCid⟩, ⟨js "a\x00z|a\x00z0", zCid⟩, ⟨js "b", zCid⟩]

/-! ## Exactly when the ids are distinct -/

/-- The ids of a derived tree are distinct if and only if no two of the groups
    that combine a leaf are spelled alike. -/
theorem ids_distinct_iff_spellings_distinct {sha256 : JsString → List (Fin 256)} {fanout : Nat}
    {contributions : List ReduceContribution} {tree : ReduceTree}
    (hash : Function.Injective sha256)
    (h : deriveReduceTree sha256 contributions fanout = .ok tree) :
    tree.ids.Nodup ↔ (leafSpellings sha256 fanout contributions).Nodup := by
  rw [ids_nodup_iff_nodes_nodup h, nodes_nodup_iff hash h]

theorem ids_distinct_iff_spellings_distinct_pair :
    ∃ tree, deriveReduceTree codeUnitBytes [⟨js "a", zCid⟩, ⟨js "b", zCid⟩] 4 = .ok tree ∧
      (tree.ids.Nodup ↔
        (leafSpellings codeUnitBytes 4 [⟨js "a", zCid⟩, ⟨js "b", zCid⟩]).Nodup) :=
  ⟨_, rfl, ids_distinct_iff_spellings_distinct codeUnitBytes_injective rfl⟩

/-- An injective hash is not enough: over `collidingContributions` two combines
    of the first round share an id. -/
theorem ids_collide :
    ¬ ∀ (sha256 : JsString → List (Fin 256)) (contributions : List ReduceContribution)
        (fanout : Nat) (tree : ReduceTree), Function.Injective sha256 → 2 ≤ fanout →
        deriveReduceTree sha256 contributions fanout = .ok tree → tree.ids.Nodup := by
  intro hall
  have hok : deriveReduceTree codeUnitBytes collidingContributions 2 = .ok _ := rfl
  have hids := hall _ _ _ _ codeUnitBytes_injective (by decide) hok
  rw [ids_nodup_iff_nodes_nodup hok, nodes_nodup_iff codeUnitBytes_injective hok] at hids
  have hsame : ¬ (leafSpellings codeUnitBytes 2 collidingContributions).Nodup := by decide
  exact hsame hids

end O2Fabric.Reduce
