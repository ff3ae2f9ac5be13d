/-
  O2Fabric.Core.Lease

  The lease table: which node holds a task and until when, how many times each
  task was dispatched, and the history of what happened.  A table that could
  not be constructed (a lease of no length, no generation at all) cannot be
  built here either.

  A clock is any type with an addition and two comparisons, and nothing is
  assumed of them: the table has to be right about readings that jump, and
  about ones that do not compare.
-/

import Mathlib.Data.List.Sort
import O2Fabric.Core.Platform
import O2Fabric.Lib.InsertionMap

namespace O2Fabric

def DEFAULT_LEASE_MS : ℚ := 30000

/-- The number of times a task may be dispatched. -/
def DEFAULT_MAX_GENERATIONS : Nat := 3

/-- The part of a term after which the holder is asked whether it still works. -/
def RENEW_AT : ℚ := 2 / 3

/-- What is asked of clock readings: `a + b`, `a > 0`, `a > b` and `a <= b`. -/
class Clock (τ : Type) where
  add : τ → τ → τ
  positive : τ → Bool
  gt : τ → τ → Bool
  le : τ → τ → Bool

instance rationalClock : Clock ℚ where
  add a b := a + b
  positive a := decide (0 < a)
  gt a b := decide (b < a)
  le a b := decide (a ≤ b)

instance numberClock : Clock JsNumber where
  add := JsNumber.add
  positive a := (JsNumber.finite 0).below a
  gt a b := b.below a
  le a b := a.below b || a.same b

/-- One node's hold on one task. -/
structure Lease (τ : Type) where
  taskId : JsString
  nodeId : JsString
  grantedAt : τ
  renewedAt : Option τ
  expiresAt : τ
  generation : Nat
  deriving DecidableEq

/-- What the history records. -/
inductive LeaseEvent (τ : Type)
  | granted (taskId nodeId : JsString) (at_ : τ) (generation : Nat)
  | renewed (taskId nodeId : JsString) (at_ expiresAt : τ)
  | completed (taskId nodeId : JsString) (at_ : τ) (generation : Nat)
  | expired (taskId nodeId : JsString) (at_ : τ) (generation : Nat)
  | surrendered (taskId nodeId : JsString) (at_ : τ) (generation : Nat)
  | staleCompletion (taskId nodeId : JsString) (at_ : τ) (heldBy : Option JsString)
  | abandoned (taskId : JsString) (at_ : τ) (generations : Nat)
  deriving DecidableEq

/-- A lease that ran out. -/
structure Reaped where
  taskId : JsString
  previousHolder : JsString
  generation : Nat
  redispatchable : Bool
  deriving DecidableEq

structure LeaseTable (τ : Type) [Clock τ] where
  leaseMs : τ
  maxGenerations : Nat
  held : InsertionMap JsString (Lease τ)
  generations : InsertionMap JsString Nat
  abandoned : List JsString
  completed : List JsString
  history : List (LeaseEvent τ)
  leaseMsPos : Clock.positive leaseMs = true
  maxGenerationsPos : 0 < maxGenerations

variable {τ : Type} [Clock τ]

namespace LeaseTable

/-- A new table; `none` where the constructor throws. -/
def create (leaseMs : τ) (maxGenerations : Nat) : Option (LeaseTable τ) :=
  if h : Clock.positive leaseMs = true ∧ 0 < maxGenerations then
    some ⟨leaseMs, maxGenerations, .empty, .empty, [], [], [], h.1, h.2⟩
  else none

def dispatches (t : LeaseTable τ) (taskId : JsString) : Nat := (t.generations.get? taskId).getD 0

/-- Every dispatch of a task after its first. -/
def redispatches (t : LeaseTable τ) : Nat := (t.generations.values.map fun g => g - 1).sum

def note (t : LeaseTable τ) (event : LeaseEvent τ) : LeaseTable τ :=
  { t with history := t.history ++ [event] }

def expire (t : LeaseTable τ) (lease : Lease τ) (now : τ) : LeaseTable τ :=
  { t with held := t.held.delete lease.taskId }.note
    (.expired lease.taskId lease.nodeId now lease.generation)

def abandon (t : LeaseTable τ) (taskId : JsString) (now : τ) (generations : Nat) : LeaseTable τ :=
  if taskId ∈ t.abandoned then t
  else { t with abandoned := t.abandoned ++ [taskId] }.note (.abandoned taskId now generations)

/-- The part of `grant` behind its two checks. -/
def dispatch (t : LeaseTable τ) (taskId nodeId : JsString) (now : τ) :
    Option (Lease τ) × LeaseTable τ :=
  let generation := t.dispatches taskId + 1
  if t.maxGenerations < generation then (none, t.abandon taskId now (generation - 1))
  else
    let lease : Lease τ := ⟨taskId, nodeId, now, none, Clock.add now t.leaseMs, generation⟩
    (some lease,
      { t with
        held := t.held.set taskId lease
        generations := t.generations.set taskId generation }.note
          (.granted taskId nodeId now generation))

def grant (t : LeaseTable τ) (taskId nodeId : JsString) (now : τ) :
    Option (Lease τ) × LeaseTable τ :=
  if taskId ∈ t.completed ∨ taskId ∈ t.abandoned then (none, t)
  else
    match t.held.get? taskId with
    | none => t.dispatch taskId nodeId now
    | some existing =>
      if Clock.gt existing.expiresAt now then (none, t)
      else (t.expire existing now).dispatch taskId nodeId now

def renew (t : LeaseTable τ) (taskId nodeId : JsString) (now : τ) :
    Option (Lease τ) × LeaseTable τ :=
  match t.held.get? taskId with
  | none => (none, t)
  | some lease =>
    if lease.nodeId ≠ nodeId ∨ Clock.le lease.expiresAt now then (none, t)
    else
      let renewed := { lease with renewedAt := some now, expiresAt := Clock.add now t.leaseMs }
      (some renewed,
        { t with held := t.held.set taskId renewed }.note
          (.renewed taskId nodeId now renewed.expiresAt))

def complete (t : LeaseTable τ) (taskId nodeId : JsString) (now : τ) : Bool × LeaseTable τ :=
  match t.held.get? taskId with
  | none => (false, t.note (.staleCompletion taskId nodeId now none))
  | some lease =>
    if lease.nodeId ≠ nodeId then
      (false, t.note (.staleCompletion taskId nodeId now (some lease.nodeId)))
    else if Clock.le lease.expiresAt now then
      -- The holder itself is late: its lease goes, and the work does not count.
      (false, { t with held := t.held.delete taskId }.note
        (.staleCompletion taskId nodeId now (some lease.nodeId)))
    else
      (true,
        { t with
          held := t.held.delete taskId
          completed := if taskId ∈ t.completed then t.completed else t.completed ++ [taskId] }.note
            (.completed taskId nodeId now lease.generation))

def surrender (t : LeaseTable τ) (taskId nodeId : JsString) (now : τ) : Bool × LeaseTable τ :=
  match t.held.get? taskId with
  | none => (false, t)
  | some lease =>
    if lease.nodeId ≠ nodeId then (false, t)
    else
      let t := { t with held := t.held.delete taskId }.note
        (.surrendered taskId nodeId now lease.generation)
      (true, if t.maxGenerations ≤ lease.generation then t.abandon taskId now lease.generation
        else t)

def reapLease (now : τ) (acc : List Reaped × LeaseTable τ) (lease : Lease τ) :
    List Reaped × LeaseTable τ :=
  if Clock.gt lease.expiresAt now then acc
  else
    let redispatchable := decide (lease.generation < acc.2.maxGenerations)
    let t := acc.2.expire lease now
    (acc.1 ++ [⟨lease.taskId, lease.nodeId, lease.generation, redispatchable⟩],
      if redispatchable then t else t.abandon lease.taskId now lease.generation)

/-- Expire the leases that ran out: all of them, or one task's. -/
def reap (t : LeaseTable τ) (p : Platform) (now : τ) (taskId : Option JsString) :
    List Reaped × LeaseTable τ :=
  let scope :=
    match taskId with
    | none => t.held.values
    | some taskId => (t.held.get? taskId).toList
  let reaped := scope.foldl (reapLease now) ([], t)
  (reaped.1.insertionSort (p.OrderedBy (fun _ => 0) Reaped.taskId), reaped.2)

end LeaseTable

/-- `checkLease(lease, now).expired`. -/
def Lease.expired (lease : Lease ℚ) (now : ℚ) : Bool := decide (lease.expiresAt ≤ now)

/-- The term has run far enough, and not out. -/
def shouldRenew (lease : Lease ℚ) (now : ℚ) : Bool :=
  let termStart := lease.renewedAt.getD lease.grantedAt
  let span := lease.expiresAt - termStart
  decide (0 < span) && decide (span * RENEW_AT ≤ now - termStart) && decide (now < lease.expiresAt)

/-! ## What the operations keep -/

def grantsOf (taskId : JsString) (history : List (LeaseEvent τ)) : Nat :=
  history.countP fun event =>
    match event with
    | .granted granted _ _ _ => decide (granted = taskId)
    | _ => false

namespace LeaseTable

/-- Leases are held under their own task, the history has one grant for each
    dispatch, and no task has more dispatches than it may. -/
structure Sound (t : LeaseTable τ) : Prop where
  keyed : ∀ taskId lease, t.held.get? taskId = some lease → lease.taskId = taskId
  counted : ∀ taskId, grantsOf taskId t.history = t.dispatches taskId
  bounded : ∀ taskId, t.dispatches taskId ≤ t.maxGenerations

/-- The second table differs from the first in one task only. -/
structure OnlyAt (taskId : JsString) (t t' : LeaseTable τ) : Prop where
  leaseMs : t'.leaseMs = t.leaseMs
  maxGenerations : t'.maxGenerations = t.maxGenerations
  held : ∀ other, other ≠ taskId → t'.held.get? other = t.held.get? other
  dispatches : ∀ other, other ≠ taskId → t'.dispatches other = t.dispatches other
  abandoned : ∀ other, other ≠ taskId → (other ∈ t'.abandoned ↔ other ∈ t.abandoned)
  completed : ∀ other, other ≠ taskId → (other ∈ t'.completed ↔ other ∈ t.completed)

theorem OnlyAt.refl (taskId : JsString) (t : LeaseTable τ) : OnlyAt taskId t t :=
  ⟨rfl, rfl, fun _ _ => rfl, fun _ _ => rfl, fun _ _ => Iff.rfl, fun _ _ => Iff.rfl⟩

variable {taskId : JsString} {t : LeaseTable τ}

theorem OnlyAt.trans {t' t'' : LeaseTable τ} (h : OnlyAt taskId t t') (h' : OnlyAt taskId t' t'') :
    OnlyAt taskId t t'' where
  leaseMs := h'.leaseMs.trans h.leaseMs
  maxGenerations := h'.maxGenerations.trans h.maxGenerations
  held other hne := (h'.held other hne).trans (h.held other hne)
  dispatches other hne := (h'.dispatches other hne).trans (h.dispatches other hne)
  abandoned other hne := (h'.abandoned other hne).trans (h.abandoned other hne)
  completed other hne := (h'.completed other hne).trans (h.completed other hne)

/-- Every operation but a successful grant: the table stays sound, only the one
    task is touched, and the dispatches stay as they are. -/
structure Quiet (taskId : JsString) (t t' : LeaseTable τ) : Prop where
  sound : t'.Sound
  only : OnlyAt taskId t t'
  dispatches : ∀ other, t'.dispatches other = t.dispatches other

theorem Quiet.refl (taskId : JsString) (h : t.Sound) : Quiet taskId t t :=
  ⟨h, .refl taskId t, fun _ => rfl⟩

theorem Quiet.trans {t' t'' : LeaseTable τ} (h : Quiet taskId t t') (h' : Quiet taskId t' t'') :
    Quiet taskId t t'' :=
  ⟨h'.sound, h.only.trans h'.only,
    fun other => (h'.dispatches other).trans (h.dispatches other)⟩

omit [Clock τ] in
theorem grantsOf_append (taskId : JsString) (history : List (LeaseEvent τ)) (event : LeaseEvent τ) :
    grantsOf taskId (history ++ [event])
      = grantsOf taskId history + grantsOf taskId [event] := List.countP_append

/-- An operation that changes what is kept of one task and notes an event. -/
theorem Quiet.of_note (h : t.Sound) (held : InsertionMap JsString (Lease τ))
    (abandoned completed : List JsString) {event : LeaseEvent τ}
    (hevent : ∀ other, grantsOf other [event] = 0)
    (hheld : ∀ other, other ≠ taskId → held.get? other = t.held.get? other)
    (hat : ∀ lease, held.get? taskId = some lease → lease.taskId = taskId)
    (habandoned : ∀ other, other ≠ taskId → (other ∈ abandoned ↔ other ∈ t.abandoned))
    (hcompleted : ∀ other, other ≠ taskId → (other ∈ completed ↔ other ∈ t.completed)) :
    Quiet taskId t
      ({ t with held := held, abandoned := abandoned, completed := completed }.note event) := by
  refine ⟨⟨?_, ?_, ?_⟩, ⟨rfl, rfl, hheld, fun _ _ => rfl, habandoned, hcompleted⟩, fun _ => rfl⟩
  · intro other lease hlease
    by_cases hne : other = taskId
    · subst hne
      exact hat lease hlease
    · exact h.keyed other lease ((hheld other hne).symm.trans hlease)
  · intro other
    show grantsOf other (t.history ++ [event]) = t.dispatches other
    rw [grantsOf_append, hevent]
    exact h.counted other
  · exact h.bounded

theorem abandon_quiet (h : t.Sound) (taskId : JsString) (now : τ) (generations : Nat) :
    Quiet taskId t (t.abandon taskId now generations) := by
  rw [abandon]
  split
  · exact .refl taskId h
  · apply Quiet.of_note h t.held (t.abandoned ++ [taskId]) t.completed (fun _ => rfl)
    · exact fun _ _ => rfl
    · exact h.keyed taskId
    · intro other hne
      simp [hne]
    · exact fun _ _ => Iff.rfl

theorem get?_held_delete_ne {other : JsString} (hne : other ≠ taskId) :
    (t.held.delete taskId).get? other = t.held.get? other := by
  rw [InsertionMap.get?_delete, if_neg hne]

theorem get?_held_delete_self (t : LeaseTable τ) (taskId : JsString) :
    (t.held.delete taskId).get? taskId = none := by
  rw [InsertionMap.get?_delete, if_pos rfl]

theorem taskId_of_get?_held_delete {lease : Lease τ}
    (h : (t.held.delete taskId).get? taskId = some lease) : lease.taskId = taskId := by
  rw [get?_held_delete_self] at h
  cases h

theorem expire_quiet (h : t.Sound) {lease : Lease τ} (hlease : lease.taskId = taskId) (now : τ) :
    Quiet taskId t (t.expire lease now) := by
  subst hlease
  apply Quiet.of_note h (t.held.delete lease.taskId) t.abandoned t.completed (fun _ => rfl)
  · exact fun other hne => get?_held_delete_ne hne
  · exact fun _ hgone => taskId_of_get?_held_delete hgone
  · exact fun _ _ => Iff.rfl
  · exact fun _ _ => Iff.rfl

/-! ### The operations one by one -/

theorem renew_quiet (h : t.Sound) (taskId nodeId : JsString) (now : τ) :
    Quiet taskId t (t.renew taskId nodeId now).2 := by
  rw [renew]
  split
  · exact .refl taskId h
  · next lease hlease =>
    split
    · exact .refl taskId h
    · apply Quiet.of_note h
        (t.held.set taskId { lease with renewedAt := some now, expiresAt := Clock.add now t.leaseMs })
        t.abandoned t.completed (fun _ => rfl)
      · intro other hne
        rw [InsertionMap.get?_set, if_neg hne]
      · intro held hheld
        rw [InsertionMap.get?_set_self] at hheld
        cases hheld
        exact h.keyed taskId lease hlease
      · exact fun _ _ => Iff.rfl
      · exact fun _ _ => Iff.rfl

theorem complete_quiet (h : t.Sound) (taskId nodeId : JsString) (now : τ) :
    Quiet taskId t (t.complete taskId nodeId now).2 := by
  have hstale : ∀ heldBy, Quiet taskId t
      (t.note (.staleCompletion taskId nodeId now heldBy)) := by
    intro heldBy
    exact Quiet.of_note h t.held t.abandoned t.completed (fun _ => rfl) (fun _ _ => rfl)
      (h.keyed taskId) (fun _ _ => Iff.rfl) (fun _ _ => Iff.rfl)
  rw [complete]
  split
  · exact hstale none
  · next lease hlease =>
    split
    · exact hstale (some lease.nodeId)
    · split
      · exact Quiet.of_note h (t.held.delete taskId) t.abandoned t.completed (fun _ => rfl)
          (fun _ hne => get?_held_delete_ne hne) (fun _ hgone => taskId_of_get?_held_delete hgone)
          (fun _ _ => Iff.rfl) (fun _ _ => Iff.rfl)
      · apply Quiet.of_note h (t.held.delete taskId) t.abandoned
          (if taskId ∈ t.completed then t.completed else t.completed ++ [taskId]) (fun _ => rfl)
          (fun _ hne => get?_held_delete_ne hne) (fun _ hgone => taskId_of_get?_held_delete hgone)
          (fun _ _ => Iff.rfl)
        intro other hne
        split
        · exact Iff.rfl
        · simp [hne]

theorem surrender_quiet (h : t.Sound) (taskId nodeId : JsString) (now : τ) :
    Quiet taskId t (t.surrender taskId nodeId now).2 := by
  rw [surrender]
  split
  · exact .refl taskId h
  · next lease hlease =>
    split
    · exact .refl taskId h
    · have hgone : Quiet taskId t ({ t with held := t.held.delete taskId }.note
          (.surrendered taskId nodeId now lease.generation)) :=
        Quiet.of_note h (t.held.delete taskId) t.abandoned t.completed (fun _ => rfl)
          (fun _ hne => get?_held_delete_ne hne) (fun _ hgone => taskId_of_get?_held_delete hgone)
          (fun _ _ => Iff.rfl) (fun _ _ => Iff.rfl)
      dsimp only
      split
      · exact hgone.trans (abandon_quiet hgone.sound _ _ _)
      · exact hgone

theorem reap_quiet (h : t.Sound) (p : Platform) (now : τ) (taskId : JsString) :
    Quiet taskId t (t.reap p now (some taskId)).2 := by
  show Quiet taskId t ((t.held.get? taskId).toList.foldl (reapLease now) ([], t)).2
  cases hheld : t.held.get? taskId with
  | none => exact .refl taskId h
  | some lease =>
    have hkey := h.keyed taskId lease hheld
    show Quiet taskId t (reapLease now ([], t) lease).2
    rw [reapLease]
    split
    · exact .refl taskId h
    · have hexpired := expire_quiet h hkey now
      dsimp only
      split
      · exact hexpired
      · rw [hkey]
        exact hexpired.trans (abandon_quiet hexpired.sound _ _ _)

/-- A grant took place: one more dispatch of the task, to the node, counted and
    held. -/
structure Granted (taskId nodeId : JsString) (t : LeaseTable τ) (lease : Lease τ)
    (t' : LeaseTable τ) : Prop where
  forTask : lease.taskId = taskId
  toNode : lease.nodeId = nodeId
  sound : t'.Sound
  only : OnlyAt taskId t t'
  dispatches : t'.dispatches taskId = t.dispatches taskId + 1

theorem dispatches_set (t : LeaseTable τ) (held : InsertionMap JsString (Lease τ))
    (history : List (LeaseEvent τ)) (taskId other : JsString) (generation : Nat) :
    dispatches { t with
      held := held, generations := t.generations.set taskId generation, history := history } other
      = if other = taskId then generation else t.dispatches other := by
  show ((t.generations.set taskId generation).get? other).getD 0 = _
  rw [InsertionMap.get?_set]
  split
  · rfl
  · rfl

/-- `dispatch` gives up the task, or it grants it. -/
theorem dispatch_spec (h : t.Sound) (taskId nodeId : JsString) (now : τ) :
    (∃ t', t.dispatch taskId nodeId now = (none, t') ∧ Quiet taskId t t') ∨
    ∃ lease t', t.dispatch taskId nodeId now = (some lease, t') ∧
      Granted taskId nodeId t lease t' := by
  rw [dispatch]
  dsimp only
  split
  · exact Or.inl ⟨_, rfl, abandon_quiet h _ _ _⟩
  · next hmore =>
    have hbound : t.dispatches taskId + 1 ≤ t.maxGenerations := by omega
    have hcount := fun other => dispatches_set t
      (t.held.set taskId ⟨taskId, nodeId, now, none, Clock.add now t.leaseMs, t.dispatches taskId + 1⟩)
      (t.history ++ [.granted taskId nodeId now (t.dispatches taskId + 1)]) taskId other
      (t.dispatches taskId + 1)
    refine Or.inr ⟨_, _, rfl, rfl, rfl, ⟨?_, ?_, ?_⟩, ⟨rfl, rfl, ?_, ?_, fun _ _ => Iff.rfl,
      fun _ _ => Iff.rfl⟩, (hcount taskId).trans (if_pos rfl)⟩
    · intro other lease hlease
      rw [note, InsertionMap.get?_set] at hlease
      split at hlease
      · next heq =>
        cases hlease
        exact heq.symm
      · exact h.keyed other lease hlease
    · intro other
      refine Eq.trans ?_ (hcount other).symm
      show grantsOf other (t.history ++ [.granted taskId nodeId now _]) = _
      rw [grantsOf_append, h.counted]
      split
      · next heq =>
        subst heq
        simp [grantsOf]
      · next hne =>
        simp [grantsOf, Ne.symm hne]
    · intro other
      refine Nat.le_trans (hcount other).le ?_
      split
      · exact hbound
      · exact h.bounded other
    · intro other hne
      show (t.held.set taskId _).get? other = t.held.get? other
      rw [InsertionMap.get?_set, if_neg hne]
    · intro other hne
      exact (hcount other).trans (if_neg hne)

theorem grant_spec (h : t.Sound) (taskId nodeId : JsString) (now : τ) :
    (∃ t', t.grant taskId nodeId now = (none, t') ∧ Quiet taskId t t') ∨
    ∃ lease t', t.grant taskId nodeId now = (some lease, t') ∧
      Granted taskId nodeId t lease t' := by
  rw [grant]
  split
  · exact Or.inl ⟨t, rfl, .refl taskId h⟩
  · split
    · exact dispatch_spec h taskId nodeId now
    · next existing hheld =>
      split
      · exact Or.inl ⟨t, rfl, .refl taskId h⟩
      · have hexpired := expire_quiet h (h.keyed taskId existing hheld) now
        obtain ⟨t', heq, hquiet⟩ | ⟨lease, t', heq, hgranted⟩ :=
          dispatch_spec hexpired.sound taskId nodeId now
        · exact Or.inl ⟨t', heq, hexpired.trans hquiet⟩
        · refine Or.inr ⟨lease, t', heq, hgranted.forTask, hgranted.toNode, hgranted.sound,
            hexpired.only.trans hgranted.only, ?_⟩
          rw [hgranted.dispatches, hexpired.dispatches]

end LeaseTable

end O2Fabric

/-! # Trail

What the history of a lease table may say of one task, as an automaton that
reads events.  What an accepted history is good for (endings, numbers, one
release between two grants) is read off the automaton alone, without the
table.
-/

namespace O2Fabric.LeaseTable

variable {τ : Type}

/-! ## The automaton -/

/-- Where a task stands. -/
inductive Whereabouts
  /-- Nobody has it, and this many generations are used. -/
  | free (generation : Nat)
  | held (nodeId : JsString) (generation : Nat)
  | completed (generation : Nat)
  | abandoned (generation : Nat)
  deriving DecidableEq

namespace Whereabouts

def generation : Whereabouts → Nat
  | .free g | .held _ g | .completed g | .abandoned g => g

def ended : Whereabouts → Bool
  | .completed _ | .abandoned _ => true
  | _ => false

end Whereabouts

def taskOf : LeaseEvent τ → JsString
  | .granted t _ _ _ | .renewed t _ _ _ | .completed t _ _ _ | .expired t _ _ _
  | .surrendered t _ _ _ | .staleCompletion t _ _ _ | .abandoned t _ _ => t

/-- Where an event of its own takes a task; `none` where it cannot happen. -/
def follow (w : Whereabouts) : LeaseEvent τ → Option Whereabouts
  | .granted _ nodeId _ g =>
    match w with
    | .free k => if g = k + 1 then some (.held nodeId g) else none
    | _ => none
  | .renewed _ nodeId _ _ =>
    match w with
    | .held holder _ => if nodeId = holder then some w else none
    | _ => none
  | .completed _ nodeId _ g =>
    if w = .held nodeId g then some (.completed g) else none
  | .expired _ nodeId _ g | .surrendered _ nodeId _ g =>
    if w = .held nodeId g then some (.free g) else none
  | .staleCompletion _ nodeId _ heldBy =>
    match w with
    | .held holder g =>
      if heldBy ≠ some holder then none
      -- The holder itself loses the task, anybody else changes nothing.
      else if nodeId = holder then some (.free g)
      else some w
    | _ => if heldBy = none then some w else none
  | .abandoned _ _ g => if w = .free g then some (.abandoned g) else none

/-- Events of other tasks change nothing. -/
def read (taskId : JsString) (w : Whereabouts) (event : LeaseEvent τ) : Option Whereabouts :=
  if taskOf event = taskId then follow w event else some w

def replay (taskId : JsString) (w : Whereabouts) (history : List (LeaseEvent τ)) :
    Option Whereabouts :=
  history.foldlM (read taskId) w

variable {taskId : JsString} {w w' : Whereabouts} {event : LeaseEvent τ}
  {history : List (LeaseEvent τ)}

theorem replay_cons :
    replay taskId w (event :: history) = some w'
      ↔ ∃ w₁, read taskId w event = some w₁ ∧ replay taskId w₁ history = some w' := by
  show (read taskId w event).bind _ = some w' ↔ _
  exact Option.bind_eq_some_iff

theorem replay_append {pre post : List (LeaseEvent τ)} :
    replay taskId w (pre ++ post) = some w'
      ↔ ∃ w₁, replay taskId w pre = some w₁ ∧ replay taskId w₁ post = some w' := by
  unfold replay
  rw [List.foldlM_append]
  exact Option.bind_eq_some_iff

/-! ## What an accepted history is good for -/

def isGrant (taskId : JsString) : LeaseEvent τ → Bool
  | .granted t _ _ _ => decide (t = taskId)
  | _ => false

def isCompletion (taskId : JsString) : LeaseEvent τ → Bool
  | .completed t _ _ _ => decide (t = taskId)
  | _ => false

def isAbandonment (taskId : JsString) : LeaseEvent τ → Bool
  | .abandoned t _ _ => decide (t = taskId)
  | _ => false

/-- The task's holder loses it: its lease ran out, it gave the task back, or it
    reported itself done too late. -/
def isRelease (taskId : JsString) : LeaseEvent τ → Bool
  | .expired t _ _ _ | .surrendered t _ _ _ => decide (t = taskId)
  | .staleCompletion t nodeId _ heldBy => decide (t = taskId ∧ heldBy = some nodeId)
  | _ => false

/-- The release is of this node's lease, and of this generation where the event
    gives one. -/
def releases (nodeId : JsString) (generation : Nat) : LeaseEvent τ → Prop
  | .expired _ n _ g | .surrendered _ n _ g => n = nodeId ∧ g = generation
  | .staleCompletion _ n _ _ => n = nodeId
  | _ => False

/-- The generation a grant of the task carries. -/
def grantOf (taskId : JsString) : LeaseEvent τ → Option Nat
  | .granted t _ _ g => if t = taskId then some g else none
  | _ => none

/-- What one event does, kind by kind. -/
theorem read_cases (h : read taskId w event = some w') :
    (w' = w ∧ isGrant taskId event = false ∧ isCompletion taskId event = false ∧
      isAbandonment taskId event = false ∧ isRelease taskId event = false) ∨
    (∃ k nodeId at_, w = .free k ∧ w' = .held nodeId (k + 1) ∧
      event = .granted taskId nodeId at_ (k + 1)) ∨
    (∃ nodeId g at_, w = .held nodeId g ∧ w' = .completed g ∧
      event = .completed taskId nodeId at_ g) ∨
    (∃ g at_, w = .free g ∧ w' = .abandoned g ∧ event = .abandoned taskId at_ g) ∨
    ∃ nodeId g, w = .held nodeId g ∧ w' = .free g ∧ isGrant taskId event = false ∧
      isCompletion taskId event = false ∧ isAbandonment taskId event = false ∧
      isRelease taskId event = true ∧ releases nodeId g event := by
  unfold read at h
  split at h
  · next htask =>
    cases event with
    | granted t nodeId at_ g =>
      cases htask
      cases w with
      | free k =>
        obtain ⟨rfl, h⟩ := Option.ite_none_right_eq_some.mp h
        cases h
        exact Or.inr (Or.inl ⟨k, nodeId, at_, rfl, rfl, rfl⟩)
      | held | completed | abandoned => cases h
    | renewed t nodeId at_ expiresAt =>
      cases w with
      | held holder g =>
        obtain ⟨-, h⟩ := Option.ite_none_right_eq_some.mp h
        cases h
        exact Or.inl ⟨rfl, rfl, rfl, rfl, rfl⟩
      | free | completed | abandoned => cases h
    | completed t nodeId at_ g =>
      cases htask
      obtain ⟨rfl, hnext⟩ := Option.ite_none_right_eq_some.mp h
      cases hnext
      exact Or.inr (Or.inr (Or.inl ⟨nodeId, g, at_, rfl, rfl, rfl⟩))
    | expired t nodeId at_ g =>
      cases htask
      obtain ⟨rfl, hnext⟩ := Option.ite_none_right_eq_some.mp h
      cases hnext
      exact Or.inr (Or.inr (Or.inr (Or.inr ⟨nodeId, g, rfl, rfl, rfl, rfl, rfl,
        decide_eq_true rfl, rfl, rfl⟩)))
    | surrendered t nodeId at_ g =>
      cases htask
      obtain ⟨rfl, hnext⟩ := Option.ite_none_right_eq_some.mp h
      cases hnext
      exact Or.inr (Or.inr (Or.inr (Or.inr ⟨nodeId, g, rfl, rfl, rfl, rfl, rfl,
        decide_eq_true rfl, rfl, rfl⟩)))
    | staleCompletion t nodeId at_ heldBy =>
      cases htask
      have hidle : heldBy = none → w' = w →
          w' = w ∧ isGrant t (.staleCompletion t nodeId at_ heldBy) = false ∧
          isCompletion t (.staleCompletion t nodeId at_ heldBy) = false ∧
          isAbandonment t (.staleCompletion t nodeId at_ heldBy) = false ∧
          isRelease t (.staleCompletion t nodeId at_ heldBy) = false := by
        rintro rfl rfl
        exact ⟨rfl, rfl, rfl, rfl, decide_eq_false fun h => nomatch h.2⟩
      cases w with
      | held holder g =>
        simp only [follow] at h
        split at h
        · cases h
        · next hholder =>
          obtain rfl := not_not.mp hholder
          split at h
          · next heq =>
            cases heq
            cases h
            exact Or.inr (Or.inr (Or.inr (Or.inr ⟨nodeId, g, rfl, rfl, rfl, rfl, rfl,
              decide_eq_true ⟨rfl, rfl⟩, rfl⟩)))
          · next hne =>
            cases h
            refine Or.inl ⟨rfl, rfl, rfl, rfl, decide_eq_false ?_⟩
            rintro ⟨-, heq⟩
            exact hne (Option.some.inj heq).symm
      | free g =>
        obtain ⟨hnone, h⟩ := Option.ite_none_right_eq_some.mp h
        exact Or.inl (hidle hnone (Option.some.inj h).symm)
      | completed g =>
        obtain ⟨hnone, h⟩ := Option.ite_none_right_eq_some.mp h
        exact Or.inl (hidle hnone (Option.some.inj h).symm)
      | abandoned g =>
        obtain ⟨hnone, h⟩ := Option.ite_none_right_eq_some.mp h
        exact Or.inl (hidle hnone (Option.some.inj h).symm)
    | abandoned t at_ g =>
      cases htask
      obtain ⟨rfl, hnext⟩ := Option.ite_none_right_eq_some.mp h
      cases hnext
      exact Or.inr (Or.inr (Or.inr (Or.inl ⟨g, at_, rfl, rfl, rfl⟩)))
  · next hother =>
    cases h
    refine Or.inl ⟨rfl, ?_⟩
    cases event <;> simp_all [isGrant, isCompletion, isAbandonment, isRelease, taskOf]

variable {nodeId : JsString}

/-- Where an event that is a grant of the task leads. -/
theorem read_granted {at_ : τ} {g : Nat}
    (h : read taskId w (.granted taskId nodeId at_ g) = some w') :
    w = .free (g - 1) ∧ w' = .held nodeId g := by
  have hgrant : isGrant taskId (.granted taskId nodeId at_ g) = true := decide_eq_true rfl
  obtain ⟨-, hnot, -⟩ | ⟨k, _, _, rfl, rfl, heq⟩ | ⟨_, _, _, -, -, heq⟩ | ⟨_, _, -, -, heq⟩ |
    ⟨_, _, -, -, hnot, -⟩ := read_cases h
  · rw [hnot] at hgrant
    cases hgrant
  · cases heq
    exact ⟨rfl, rfl⟩
  · cases heq
  · cases heq
  · rw [hnot] at hgrant
    cases hgrant

/-! ### Counting -/

/-- One where the task is held. -/
def Whereabouts.holds : Whereabouts → Nat
  | .held _ _ => 1
  | _ => 0

def Whereabouts.completions : Whereabouts → Nat
  | .completed _ => 1
  | _ => 0

def Whereabouts.abandonments : Whereabouts → Nat
  | .abandoned _ => 1
  | _ => 0

structure AddsUp (taskId : JsString) (w w' : Whereabouts) (history : List (LeaseEvent τ)) :
    Prop where
  completions : w.completions + history.countP (isCompletion taskId) = w'.completions
  abandonments : w.abandonments + history.countP (isAbandonment taskId) = w'.abandonments
  releases : w.holds + history.countP (isGrant taskId)
    = history.countP (isRelease taskId) + history.countP (isCompletion taskId) + w'.holds
  generations : w.generation + history.countP (isGrant taskId) = w'.generation
  numbered : history.filterMap (grantOf taskId)
    = List.range' (w.generation + 1) (history.countP (isGrant taskId))

theorem grantOf_eq_none (h : isGrant taskId event = false) : grantOf taskId event = none := by
  cases event with
  | granted t nodeId at_ g => exact if_neg (of_decide_eq_false h)
  | renewed | completed | expired | surrendered | staleCompletion | abandoned => rfl

theorem AddsUp.one (h : read taskId w event = some w') : AddsUp taskId w w' [event] := by
  obtain ⟨rfl, hgrant, hcompletion, habandonment, hrelease⟩ | ⟨k, nodeId, at_, rfl, rfl, rfl⟩ |
    ⟨nodeId, g, at_, rfl, rfl, rfl⟩ | ⟨g, at_, rfl, rfl, rfl⟩ |
    ⟨nodeId, g, rfl, rfl, hgrant, hcompletion, habandonment, hrelease, -⟩ := read_cases h
  · constructor <;> simp [hgrant, hcompletion, habandonment, hrelease, grantOf_eq_none hgrant]
  · constructor <;> simp [isGrant, isCompletion, isAbandonment, isRelease, grantOf,
      Whereabouts.completions, Whereabouts.abandonments, Whereabouts.holds,
      Whereabouts.generation]
  · constructor <;> simp [isGrant, isCompletion, isAbandonment, isRelease, grantOf,
      Whereabouts.completions, Whereabouts.abandonments, Whereabouts.holds,
      Whereabouts.generation]
  · constructor <;> simp [isGrant, isCompletion, isAbandonment, isRelease, grantOf,
      Whereabouts.completions, Whereabouts.abandonments, Whereabouts.holds,
      Whereabouts.generation]
  · constructor <;> simp [hgrant, hcompletion, habandonment, hrelease, grantOf_eq_none hgrant,
      Whereabouts.completions, Whereabouts.abandonments, Whereabouts.holds,
      Whereabouts.generation]

theorem AddsUp.append {w₁ : Whereabouts} {pre post : List (LeaseEvent τ)}
    (hpre : AddsUp taskId w w₁ pre) (hpost : AddsUp taskId w₁ w' post) :
    AddsUp taskId w w' (pre ++ post) := by
  have hgenerations := hpre.generations
  constructor
  · rw [List.countP_append, ← Nat.add_assoc, hpre.completions]
    exact hpost.completions
  · rw [List.countP_append, ← Nat.add_assoc, hpre.abandonments]
    exact hpost.abandonments
  · have hleft := hpre.releases
    have hright := hpost.releases
    simp only [List.countP_append]
    omega
  · rw [List.countP_append, ← Nat.add_assoc, hpre.generations]
    exact hpost.generations
  · rw [List.filterMap_append, hpre.numbered, hpost.numbered, List.countP_append,
      ← List.range'_append]
    congr 2
    omega

theorem addsUp_of_replay (h : replay taskId w history = some w') :
    AddsUp taskId w w' history := by
  induction history generalizing w with
  | nil =>
    cases h
    constructor <;> simp
  | cons event rest ih =>
    obtain ⟨w₁, hevent, hrest⟩ := replay_cons.mp h
    exact (AddsUp.one hevent).append (ih hrest)

/-! ### Order -/

/-- Once it ended, nothing but reports of others is said of the task. -/
theorem replay_ended (hended : w.ended = true) (h : replay taskId w history = some w') :
    w' = w ∧ ∀ event ∈ history, isGrant taskId event = false := by
  induction history with
  | nil =>
    cases h
    exact ⟨rfl, List.forall_mem_nil _⟩
  | cons event rest ih =>
    obtain ⟨w₁, hevent, hrest⟩ := replay_cons.mp h
    obtain ⟨rfl, hgrant, -⟩ | ⟨_, _, _, rfl, -⟩ | ⟨_, _, _, rfl, -⟩ | ⟨_, _, rfl, -⟩ |
      ⟨_, _, rfl, -⟩ := read_cases hevent
    · obtain ⟨heq, hrest⟩ := ih hrest
      exact ⟨heq, List.forall_mem_cons.mpr ⟨hgrant, hrest⟩⟩
    · cases hended
    · cases hended
    · cases hended
    · cases hended

/-- Until the next grant, only the lease that is held is released. -/
theorem replay_releases {generation : Nat}
    (hheld : ∀ n g, w = .held n g → n = nodeId ∧ g = generation)
    (hnone : ∀ event ∈ history, isGrant taskId event = false)
    (h : replay taskId w history = some w') :
    ∀ event ∈ history, isRelease taskId event = true → releases nodeId generation event := by
  induction history generalizing w with
  | nil => exact List.forall_mem_nil _
  | cons event rest ih =>
    obtain ⟨w₁, hevent, hrest⟩ := replay_cons.mp h
    obtain ⟨hgrant, hrestnone⟩ := List.forall_mem_cons.mp hnone
    obtain ⟨rfl, -, -, -, hidle⟩ | ⟨_, _, _, -, -, rfl⟩ | ⟨_, _, _, -, rfl, rfl⟩ |
      ⟨_, _, -, rfl, rfl⟩ | ⟨n, g, hw, rfl, -, -, -, -, hreleases⟩ := read_cases hevent
    · refine List.forall_mem_cons.mpr ⟨fun hrelease => ?_, ih hheld hrestnone hrest⟩
      rw [hidle] at hrelease
      cases hrelease
    · exact absurd (decide_eq_true rfl) (Bool.eq_false_iff.mp hgrant)
    · exact List.forall_mem_cons.mpr ⟨Bool.noConfusion,
        ih (fun _ _ heq => Whereabouts.noConfusion heq) hrestnone hrest⟩
    · exact List.forall_mem_cons.mpr ⟨Bool.noConfusion,
        ih (fun _ _ heq => Whereabouts.noConfusion heq) hrestnone hrest⟩
    · obtain ⟨rfl, rfl⟩ := hheld n g hw
      exact List.forall_mem_cons.mpr ⟨fun _ => hreleases,
        ih (fun _ _ heq => Whereabouts.noConfusion heq) hrestnone hrest⟩

/-- A held task is held as it was granted last, or as it was at the start. -/
theorem replay_held {generation : Nat}
    (h : replay taskId w history = some (.held nodeId generation)) :
    (w = .held nodeId generation ∧ history.filter (isGrant taskId) = []) ∨
      ∃ at_, (history.filter (isGrant taskId)).getLast?
        = some (.granted taskId nodeId at_ generation) := by
  induction history generalizing w with
  | nil =>
    cases h
    exact Or.inl ⟨rfl, rfl⟩
  | cons event rest ih =>
    obtain ⟨w₁, hevent, hrest⟩ := replay_cons.mp h
    rcases ih hrest with ⟨rfl, hnone⟩ | ⟨at_, hlast⟩
    · -- The last grant, if there is one, is this event.
      obtain ⟨rfl, hgrant, -⟩ | ⟨k, n, at_, rfl, heq, rfl⟩ | ⟨_, _, _, -, heq, -⟩ |
        ⟨_, _, -, heq, -⟩ | ⟨_, _, -, heq, -⟩ := read_cases hevent
      · exact Or.inl ⟨rfl, by rw [List.filter_cons_of_neg (by simp [hgrant]), hnone]⟩
      · cases heq
        refine Or.inr ⟨at_, ?_⟩
        have hgrant : isGrant taskId (.granted taskId nodeId at_ (k + 1)) = true :=
          decide_eq_true rfl
        rw [List.filter_cons_of_pos hgrant, hnone]
        rfl
      · cases heq
      · cases heq
      · cases heq
    · refine Or.inr ⟨at_, ?_⟩
      rw [List.filter_cons]
      split
      · rw [List.getLast?_cons, hlast]
        rfl
      · exact hlast

end O2Fabric.LeaseTable
