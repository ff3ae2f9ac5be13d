/-
  O2Fabric.Core.Speculation

  Speculative duplicates: which dispatch counts as a straggler, how many
  duplicates a job may spend, and which nodes may take one.
-/

import O2Fabric.Core.Sovereignty

namespace O2Fabric

def DEFAULT_SPECULATION_FRACTION : ℚ := 1 / 10

def DEFAULT_STRAGGLER_FACTOR : ℚ := 3 / 2

/-- Fewer finished dispatches than this say nothing about the usual duration. -/
def MIN_SAMPLES : Nat := 3

/-- A dispatch without an answer yet. -/
structure InFlight where
  taskId : JsString
  nodeId : JsString
  startedAt : ℚ

/-- The middle value, or the mean of the two middle ones; `0` of nothing. -/
def median (values : List ℚ) : ℚ :=
  let sorted := values.insertionSort (· ≤ ·)
  let mid := sorted.length / 2
  if sorted.length % 2 = 1 then sorted.getD mid 0
  else (sorted.getD (mid - 1) 0 + sorted.getD mid 0) / 2

/-- The dispatches that take longer than `factor` times the usual duration. -/
def stragglers (p : Platform) (inFlight : List InFlight) (now : ℚ) (completed : List ℚ)
    (factor : ℚ) : List InFlight :=
  if completed.length < MIN_SAMPLES then []
  else
    let threshold := median completed * factor
    if 0 < threshold then
      (inFlight.filter fun task => decide (threshold < now - task.startedAt)).insertionSort
        (p.OrderedBy InFlight.startedAt InFlight.taskId)
    else []

/-- What a job may spend on duplicates, and has spent; one duplicate a task. -/
structure SpeculationLedger where
  tasks : Nat
  allowance : Nat
  duplicates : List JsString
  spent : Nat
  withinAllowance : spent ≤ allowance

namespace SpeculationLedger

/-- A new ledger; `none` where the constructor throws. -/
def create (tasks : Nat) (fraction : ℚ) : Option SpeculationLedger :=
  if 0 ≤ fraction then some ⟨tasks, ⌊tasks * fraction⌋.toNat, [], 0, Nat.zero_le _⟩ else none

def remaining (ledger : SpeculationLedger) : Nat := ledger.allowance - ledger.spent

def duplicated (ledger : SpeculationLedger) (taskId : JsString) : Bool :=
  decide (taskId ∈ ledger.duplicates)

/-- Dispatches made for each task asked for. -/
def multiplier (ledger : SpeculationLedger) : ℚ :=
  if ledger.tasks = 0 then 0 else (ledger.tasks + ledger.spent) / ledger.tasks

/-- Spend one duplicate on a task, if there is one left and it has none yet. -/
def request (ledger : SpeculationLedger) (taskId : JsString) : Bool × SpeculationLedger :=
  if h : ledger.spent < ledger.allowance ∧ taskId ∉ ledger.duplicates then
    (true, { ledger with
      duplicates := ledger.duplicates ++ [taskId]
      spent := ledger.spent + 1
      withinAllowance := h.1 })
  else (false, ledger)

theorem request_cases (ledger : SpeculationLedger) (taskId : JsString) :
    ledger.request taskId = (false, ledger) ∨
      ∃ ledger', ledger.request taskId = (true, ledger') ∧
        ledger'.duplicates = ledger.duplicates ++ [taskId] ∧
        ledger'.allowance = ledger.allowance := by
  rw [request]
  split
  · exact Or.inr ⟨_, rfl, rfl, rfl⟩
  · exact Or.inl rfl

end SpeculationLedger

/-- The eligible nodes that have not had the task yet. -/
def speculativeCandidates (request : PlacementRequest) (nodes : List NodeDescriptor)
    (excluding : List JsString) : List NodeDescriptor :=
  (eligibleNodes request nodes).filter fun node => decide (node.nodeId ∉ excluding)

theorem mem_speculativeCandidates {request : PlacementRequest} {nodes : List NodeDescriptor}
    {excluding : List JsString} {node : NodeDescriptor} :
    node ∈ speculativeCandidates request nodes excluding
      ↔ node ∈ eligibleNodes request nodes ∧ node.nodeId ∉ excluding := by
  rw [speculativeCandidates, List.mem_filter, decide_eq_true_eq]

end O2Fabric
