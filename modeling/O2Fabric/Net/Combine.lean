/-
  O2Fabric.Net.Combine

  `remoteCombineDispatch`: one combine on a peer.  The peer is asked for the
  merge, then for the block it names, and what it sends is kept only if it
  hashes to that name.  A rejected request, a reply that does not parse and a
  reply of another kind are all the peer's silence.

  The store's writes complete: one that fails makes the whole reduction reject.
-/

import O2Fabric.Core.Reduce.Execute
import O2Fabric.Net.Agent.Step

namespace O2Fabric.Net

open Reduce

/-- The codec of the blocks.  A block's address is that of its bytes. -/
structure Codec (p : Platform) where
  encode : CanonicalValue → Except JsString Bytes
  /-- `none` where it throws. -/
  decode : Bytes → Option CanonicalValue
  blockCid : Bytes → Cid
  canonicalCid_eq : ∀ value, p.canonicalCid value = (encode value).map blockCid

/-- The replies to the two requests of one combine; `none` is a request that was
    rejected, or a reply that does not parse. -/
structure Exchange where
  combine : Option AgentResponse
  block : Option AgentResponse

def namedProduct : Option AgentResponse → Option CombineProduct
  | some (.combine (some resultCid) _ attestation) => some ⟨resultCid, attestation⟩
  | _ => none

/-- The bytes a block reply carries. -/
def repliedBytes : Option AgentResponse → Option Bytes
  | some (.block bytes) => bytes
  | _ => none

variable (p : Platform) (codec : Codec p)

def remoteCombineDispatch (exchange : CombineTask → Nat → JsString → Exchange) :
    CombineDispatch := fun task call executorId =>
  -- an input that is no address costs this combine an attempt
  if (task.inputCids.mapM p.parseCid).isNone then none
  else
    let reply := exchange task call executorId
    match namedProduct reply.combine with
    | none => none
    | some product =>
      match repliedBytes reply.block with
      | none => none
      | some bytes => if codec.blockCid bytes = product.cid then some product else none

/-- A product is one the peer named, for addresses that were sent to it, and whose
    block it handed over. -/
theorem remoteCombineDispatch_eq_some {exchange : CombineTask → Nat → JsString → Exchange}
    {task : CombineTask} {call : Nat} {executorId : JsString} {product : CombineProduct} :
    remoteCombineDispatch p codec exchange task call executorId = some product ↔
      (∃ inputCids, task.inputCids.mapM p.parseCid = some inputCids) ∧
        namedProduct (exchange task call executorId).combine = some product ∧
        ∃ bytes, repliedBytes (exchange task call executorId).block = some bytes ∧
          codec.blockCid bytes = product.cid := by
  unfold remoteCombineDispatch
  dsimp only
  cases hparsed : task.inputCids.mapM p.parseCid with
  | none =>
    simp
  | some inputCids =>
    cases hnamed : namedProduct (exchange task call executorId).combine with
    | none => simp
    | some named =>
      cases hbytes : repliedBytes (exchange task call executorId).block with
      | none => simp
      | some bytes =>
        by_cases hhash : codec.blockCid bytes = named.cid
        · simp only [Option.isNone_some, Bool.false_eq_true, if_false, if_pos hhash,
            Option.some.injEq, exists_eq', true_and]
          constructor
          · rintro rfl
            exact ⟨rfl, bytes, rfl, hhash⟩
          · exact And.left
        · simp only [Option.isNone_some, Bool.false_eq_true, if_false, if_neg hhash,
            Option.some.injEq, exists_eq', true_and]
          constructor
          · intro h
            cases h
          · rintro ⟨rfl, bytes', rfl, hhash'⟩
            exact absurd hhash' hhash

end O2Fabric.Net
