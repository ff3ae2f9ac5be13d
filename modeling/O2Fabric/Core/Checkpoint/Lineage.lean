/-
  O2Fabric.Core.Checkpoint.Lineage

  The walk from a checkpoint back through the ones before it, while their blocks
  are there, and recovery from the handles that a caller kept.
-/

import O2Fabric.Core.Checkpoint.Resume

namespace O2Fabric.Checkpoint

/-- The checkpoints from `current` back; `none` where the rounds do not suffice. -/
def checkpointChain (blocks : Blocks) (resolve : JsString → Option Cid) :
    (rounds : Nat) → (seen : List JsString) → (current : Option Cid) →
      Option (List JobCheckpoint)
  | 0, _, _ => none
  | _ + 1, _, none => some []
  | rounds + 1, seen, some cid =>
    -- a corrupted chain could point at itself
    if cid.toText ∈ seen then some []
    else
      match readCheckpoint cid blocks with
      | .error _ => some []
      | .ok checkpoint =>
        (checkpointChain blocks resolve rounds (cid.toText :: seen)
          (checkpoint.previous.bind resolve)).map (checkpoint :: ·)

theorem readCheckpoint_missing {blocks : Blocks} {cid : Cid} (h : blocks cid = none) :
    ∃ failure, readCheckpoint cid blocks = .error failure :=
  ⟨_, by rw [readCheckpoint, h]⟩

/-- Whatever a store holds, checkpoints that point at each other in a circle included, the
    walk ends, and it is no longer than the blocks held. -/
theorem walk_ends (held : List Cid) {blocks : Blocks} {resolve : JsString → Option Cid}
    (hheld : ∀ cid checkpoint, readCheckpoint cid blocks = .ok checkpoint → cid ∈ held)
    {rounds : Nat} {seen : List JsString} (start : Option Cid) (hnodup : seen.Nodup)
    (hseen : seen ⊆ held.map Cid.toText) (hrounds : held.length + 2 ≤ rounds + seen.length) :
    ∃ chain, checkpointChain blocks resolve rounds seen start = some chain ∧
      chain.length + seen.length ≤ held.length := by
  -- the handles seen are distinct, so no more than are held
  have hle := (List.subperm_of_subset hnodup hseen).length_le
  rw [List.length_map] at hle
  induction rounds generalizing seen start with
  | zero => omega
  | succ rounds ih =>
    have hended : ∃ chain, some [] = some chain ∧ chain.length + seen.length ≤ held.length :=
      ⟨([] : List JobCheckpoint), rfl, (Nat.zero_add _).trans_le hle⟩
    cases start with
    | none => exact hended
    | some cid =>
      rw [checkpointChain]
      split
      · exact hended
      next hnew =>
      split
      · exact hended
      next checkpoint hread =>
      have hmore : cid.toText :: seen ⊆ held.map Cid.toText :=
        List.cons_subset.mpr ⟨List.mem_map_of_mem (hheld cid checkpoint hread), hseen⟩
      have hnodup := List.nodup_cons.mpr ⟨hnew, hnodup⟩
      have hle := (List.subperm_of_subset hnodup hmore).length_le
      rw [List.length_map] at hle
      obtain ⟨chain, hchain, hlength⟩ := ih (checkpoint.previous.bind resolve) hnodup hmore
        (by rw [List.length_cons]; omega) hle
      rw [List.length_cons] at hlength
      exact ⟨checkpoint :: chain, by rw [hchain]; rfl, by rw [List.length_cons]; omega⟩

/-- One checkpoint, whose previous one is itself. -/
def circle : Blocks := fun cid =>
  if cid = plainCid then some (.ok (toValue ⟨[], [], 0, [], 0, some []⟩)) else none

theorem walk_ends_circle : ∃ chain,
    checkpointChain circle (fun _ => some plainCid) 3 [] (some plainCid) = some chain ∧
    chain.length + 0 ≤ 1 := by
  refine walk_ends [plainCid] (fun cid _ hread => ?_) _ List.nodup_nil (List.nil_subset _) le_rfl
  by_contra hmem
  rw [List.mem_singleton] at hmem
  obtain ⟨_, hlost⟩ := readCheckpoint_missing (show circle cid = none from if_neg hmem)
  rw [hlost] at hread
  cases hread

/-- Over handles that read back or are lost, the newest that is left is recovered, and how
    many were lost before it. -/
theorem recoverCheckpoint_eq {blocks : Blocks} {kept : List (Cid × JobCheckpoint)}
    (h : ∀ e ∈ kept, blocks e.1 = none ∨ readCheckpoint e.1 blocks = .ok e.2) (skipped : Nat) :
    recoverCheckpoint blocks (kept.map Prod.fst) skipped
      = (kept.findIdx? fun e => (blocks e.1).isSome).bind fun lost =>
          kept[lost]?.map fun e => (e.2, e.1, skipped + lost) := by
  induction kept generalizing skipped with
  | nil => rfl
  | cons e kept ih =>
    obtain ⟨hfirst, hrest⟩ := List.forall_mem_cons.mp h
    rw [List.map_cons, recoverCheckpoint, List.findIdx?_cons]
    cases hblock : blocks e.1 with
    | none =>
      obtain ⟨_, hlost⟩ := readCheckpoint_missing hblock
      rw [hlost]
      show recoverCheckpoint blocks (kept.map Prod.fst) (skipped + 1) = _
      rw [ih hrest]
      cases kept.findIdx? fun e => (blocks e.1).isSome with
      | none => rfl
      | some lost =>
        show _ = kept[lost]?.map fun e => (e.2, e.1, skipped + (lost + 1))
        rw [Nat.add_comm lost 1, ← Nat.add_assoc]
        rfl
    | some block =>
      rw [hblock] at hfirst
      rw [hfirst.resolve_left (by simp)]
      rfl

end O2Fabric.Checkpoint
