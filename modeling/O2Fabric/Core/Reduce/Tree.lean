/-
  O2Fabric.Core.Reduce.Tree

  `deriveReduceTree`: the aggregation tree as a pure function of the
  contributions.  The leaves are the distinct contributions sorted by id; each
  round slices the current layer into groups of `fanout` and gives every group
  of two or more a combine node whose id is the hash of its children's ids
  joined by `|`.

  The hash is the composite `nobleSha256 ∘ TextEncoder().encode`, a parameter;
  `hashOf` is its hexadecimal form.
-/

import Mathlib.Data.List.Sort
import O2Fabric.Core.Cid
import O2Fabric.Lib.InsertionMap
import O2Fabric.Lib.TreeFold

namespace O2Fabric.Reduce

open TreeFold (slices)

/-- `DEFAULT_FANOUT`: children per combine. -/
def DEFAULT_FANOUT : Nat := 4

/-- One partial, and whose data produced it. -/
structure ReduceContribution where
  contributorId : JsString
  cid : Cid
  deriving DecidableEq

/-- What identifies a leaf, and where its value lives. -/
structure ReduceLeaf where
  id : JsString
  cid : JsString
  deriving DecidableEq

/-- A combine of the derived tree. -/
structure ReduceTreeNode where
  id : JsString
  children : List JsString
  level : Nat
  deriving DecidableEq

structure ReduceTree where
  leaves : List ReduceLeaf
  nodes : List ReduceTreeNode
  rootId : JsString
  fanout : Nat
  depth : Nat
  deriving DecidableEq

/-- All ids of the tree, leaves first. -/
def ReduceTree.ids (tree : ReduceTree) : List JsString :=
  tree.leaves.map ReduceLeaf.id ++ tree.nodes.map ReduceTreeNode.id

/-- `contributorId`, NUL, then the partial's address. -/
def leafId (contributorId : JsString) (cid : Cid) : JsString :=
  contributorId ++ NUL :: cid.toText

def leafOf (c : ReduceContribution) : ReduceLeaf :=
  ⟨leafId c.contributorId c.cid, c.cid.toText⟩

/-- The distinct leaves, sorted by id: the same contributor offering the same
    partial twice is one leaf. -/
def sortedLeaves (contributions : List ReduceContribution) : List ReduceLeaf :=
  (InsertionMap.ofPairs (contributions.map fun c => ((leafOf c).id, leafOf c))).values.insertionSort
    fun a b => a.id ≤ b.id

section

variable (sha256 : JsString → List (Fin 256))

/-- Synchronous hash of a string, hex-encoded. -/
def hashOf (input : JsString) : JsString := toHex (sha256 input)

/-- The id of a combine over `children`. -/
def combineId (children : List JsString) : JsString := hashOf sha256 (join PIPE children)

/-- The combine node a slice of the layer gets; a lone child gets none. -/
def sliceNode (level : Nat) : List JsString → Option ReduceTreeNode
  | [_] => none
  | children => some ⟨combineId sha256 children, children, level⟩

/-- The combine nodes one round pushes. -/
def layerNodes (fanout level : Nat) (layer : List JsString) : List ReduceTreeNode :=
  (slices fanout layer).filterMap (sliceNode sha256 level)

/-- The layer one round leaves behind; a lone child is promoted. -/
def nextLayer (fanout : Nat) (layer : List JsString) : List JsString :=
  TreeFold.layerUp fanout (combineId sha256) layer

/-- What the construction loop carries from round to round. -/
structure Derivation where
  nodes : List ReduceTreeNode
  layer : List JsString
  level : Nat
  deriving DecidableEq

/-- One round of the loop body. -/
def Derivation.round (fanout : Nat) (d : Derivation) : Derivation :=
  ⟨d.nodes ++ layerNodes sha256 fanout d.level d.layer, nextLayer sha256 fanout d.layer,
    d.level + 1⟩

/-- `while (layer.length > 1)`, for at most `fuel` rounds. -/
def Derivation.loop (fanout : Nat) : Nat → Derivation → Derivation
  | 0, d => d
  | fuel + 1, d =>
    if 1 < d.layer.length then Derivation.loop fanout fuel (d.round sha256 fanout) else d

/-- The loop over the leaf ids.  A round shortens a layer of two or more ids, so
    one round a leaf is fuel enough (`derivation_rounds`). -/
def derivation (leaves : List ReduceLeaf) (fanout : Nat) : Derivation :=
  Derivation.loop sha256 fanout leaves.length ⟨[], leaves.map ReduceLeaf.id, 1⟩

/-- The two refusals of `deriveReduceTree`. -/
inductive RangeError
  | badFanout (fanout : Nat)
  | noPartial
  deriving DecidableEq

/-- Derive the reduce tree from a set of contributions. -/
def deriveReduceTree (contributions : List ReduceContribution) (fanout : Nat) :
    Except RangeError ReduceTree :=
  if fanout < 2 then .error (.badFanout fanout)
  else if contributions = [] then .error .noPartial
  else
    let leaves := sortedLeaves contributions
    let d := derivation sha256 leaves fanout
    .ok ⟨leaves, d.nodes, d.layer.headD [], fanout, d.level - 1⟩

end

end O2Fabric.Reduce

/-! # Rendezvous

Rendezvous (highest-random-weight) ranking: every candidate scored by the
hash of the key and its id, highest score first.  The tail of the ranking is
the fallback list.
-/

namespace O2Fabric.Reduce

section

variable (sha256 : JsString → List (Fin 256)) (localeCompare : JsString → JsString → Int)

/-- The hash of `key|nodeId`. -/
def score (key nodeId : JsString) : JsString := hashOf sha256 (key ++ PIPE :: nodeId)

/-- The comparator does not put `b` before `a`; equal scores fall back to
    `localeCompare`. -/
def Ranks (key a b : JsString) : Prop :=
  score sha256 key b < score sha256 key a
    ∨ score sha256 key a = score sha256 key b ∧ localeCompare a b ≤ 0

instance (key : JsString) : DecidableRel (Ranks sha256 localeCompare key) := fun _ _ =>
  inferInstanceAs (Decidable (_ ∨ _))

/-- Rank nodes for a key.  All candidates come back, not just the winner. -/
def rendezvousRank (key : JsString) (nodeIds : List JsString) : List JsString :=
  nodeIds.insertionSort (Ranks sha256 localeCompare key)

theorem rendezvousRank_perm (key : JsString) (nodeIds : List JsString) :
    (rendezvousRank sha256 localeCompare key nodeIds).Perm nodeIds :=
  List.perm_insertionSort _ _

end

end O2Fabric.Reduce
