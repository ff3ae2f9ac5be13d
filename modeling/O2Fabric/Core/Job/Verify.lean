/-
  O2Fabric.Core.Job.Verify

  `executeVerified`: one task on several executors, its results compared by
  content address.  Two answers agree when their canonical encodings have one
  address; a disagreement is reported with every group, never voted on.

  Costs are summed exactly.  `canonicalCid` is a parameter: it gives the address
  of a value, or the error the source stringifies when a value has no canonical
  encoding.
-/

import O2Fabric.Core.Certificate
import O2Fabric.Core.Cid
import O2Fabric.Lib.Grouping
import Mathlib.Algebra.Order.Ring.Unbundled.Rat

namespace O2Fabric.Job

open Grouping

/-! ## Costs -/

/-- What one run cost: fuel, milliseconds, host calls, memory pages. -/
@[ext] structure Cost where
  fuel : ℚ
  execMs : ℚ
  hostCalls : ℚ
  peakMemoryPages : ℚ
  deriving DecidableEq

namespace Cost

instance : Zero Cost := ⟨⟨0, 0, 0, 0⟩⟩

instance : Add Cost := ⟨fun a b =>
  ⟨a.fuel + b.fuel, a.execMs + b.execMs, a.hostCalls + b.hostCalls,
    a.peakMemoryPages + b.peakMemoryPages⟩⟩

protected theorem zero_add (a : Cost) : 0 + a = a := by
  ext <;> exact zero_add _

protected theorem add_zero (a : Cost) : a + 0 = a := by
  ext <;> exact add_zero _

protected theorem add_assoc (a b c : Cost) : a + b + c = a + (b + c) := by
  ext <;> exact add_assoc _ _ _

/-- `costs.reduce((sum, c) => sum + c, 0)`, in every field. -/
def total (costs : List Cost) : Cost := costs.foldl (fun sum c => sum + c) 0

theorem foldl_add (costs : List Cost) (c : Cost) :
    costs.foldl (fun sum c => sum + c) c = c + total costs := by
  induction costs generalizing c with
  | nil => exact (Cost.add_zero c).symm
  | cons d rest ih => rw [total, List.foldl_cons, List.foldl_cons, ih, ih (0 + d),
      Cost.zero_add, Cost.add_assoc]

theorem total_append (costs costs' : List Cost) :
    total (costs ++ costs') = total costs + total costs' := by
  rw [total, List.foldl_append, foldl_add]
  rfl

end Cost

/-! ## Executors and their receipts -/

/-- What an executor's `execute` comes to. -/
inductive ExecutionOutcome (V : Type)
  | ok (output : V) (cost : Cost) (attestation : AttestedResult)
  | failed (reason : JsString)
  | threw (message : JsString)

/-- A node that runs tasks. -/
structure Executor (Task V : Type) where
  nodeId : JsString
  execute : Task → ExecutionOutcome V

/-- A replica that answered, and what it signed. -/
structure AgreeingReplica where
  nodeId : JsString
  attestation : AttestedResult
  deriving DecidableEq

/-- A replica that failed, and why. -/
structure Failure where
  nodeId : JsString
  reason : JsString
  deriving DecidableEq

/-- A successful run. -/
structure Answer (V : Type) where
  nodeId : JsString
  resultCid : Cid
  output : V
  cost : Cost
  attestation : AttestedResult
  deriving DecidableEq

/-- One executor's part in a verification. -/
inductive Receipt (V : Type)
  | answered (answer : Answer V)
  | failed (failure : Failure)
  deriving DecidableEq

def Receipt.answer? {V : Type} : Receipt V → Option (Answer V)
  | .answered answer => some answer
  | .failed _ => none

def Receipt.failure? {V : Type} : Receipt V → Option Failure
  | .answered _ => none
  | .failed failure => some failure

section

variable {Task V : Type} (canonicalCid : V → Except JsString Cid)

/-- Run a task on one executor; a throw is that executor's failure. -/
def runOne (executor : Executor Task V) (task : Task) : Receipt V :=
  match executor.execute task with
  | .threw message =>
    .failed ⟨executor.nodeId,
      js "execute threw on " ++ executor.nodeId ++ js ": " ++ message⟩
  | .failed reason => .failed ⟨executor.nodeId, reason⟩
  | .ok output cost attestation =>
    match canonicalCid output with
    | .error error => .failed ⟨executor.nodeId, js "output not encodable: " ++ error⟩
    | .ok cid => .answered ⟨executor.nodeId, cid, output, cost, attestation⟩

end

/-! ## Verification -/

inductive VerificationResult (V : Type)
  | agreed (resultCid : Cid) (output : V) (agreeing : List AgreeingReplica) (replicas : Nat)
      (failures : List Failure) (gross useful : Cost)
  | disagreed (partitions : List (JsString × List JsString)) (failures : List Failure)
      (gross : Cost)
  | insufficient (reason : JsString) (failures : List Failure)
  deriving DecidableEq

def VerificationResult.failures {V : Type} : VerificationResult V → List Failure
  | .agreed _ _ _ _ failures _ _ => failures
  | .disagreed _ failures _ => failures
  | .insufficient _ failures => failures

section

variable {V : Type}

/-- The answers, grouped by the text of their address in first-seen order. -/
def groupsOf (answered : List (Answer V)) : InsertionMap JsString (List JsString) :=
  groupInto .empty (answered.map fun a => (a.resultCid.toText, [a.nodeId]))

/-- The comparison over the receipts of every executor. -/
def verifyReceipts (receipts : List (Receipt V)) : VerificationResult V :=
  let failures := receipts.filterMap Receipt.failure?
  let answered := receipts.filterMap Receipt.answer?
  let gross := Cost.total (answered.map Answer.cost)
  match answered with
  | [] => .insufficient (js "every executor failed") failures
  | winner :: _ =>
    if 1 < (groupsOf answered).size then
      .disagreed (groupsOf answered).entries failures gross
    else
      .agreed winner.resultCid winner.output
        (answered.map fun a => ⟨a.nodeId, a.attestation⟩) answered.length failures gross
        winner.cost

/-- Run a task on every executor and compare. -/
def executeVerified {Task : Type} (canonicalCid : V → Except JsString Cid) (task : Task)
    (executors : List (Executor Task V)) : VerificationResult V :=
  if executors = [] then .insufficient (js "no executors supplied") []
  else verifyReceipts (executors.map fun e => runOne canonicalCid e task)

end

end O2Fabric.Job
