/-
  O2Fabric.Core.Lease.Audited

  The lease table as a refinement of the automaton of its history: replaying
  the history from a task nobody was given leads, for every task, to where the
  table has it.

  Each of the five operations is followed to the automaton once.  From that, in
  every run: the history is an audit trail, and a task is left in limbo only by
  a holder of the last generation who completes too late.
-/

import O2Fabric.Core.Lease
import Mathlib.Data.List.Induction

namespace O2Fabric.LeaseTable

variable {τ : Type} [Clock τ]

/-! ## The table follows the automaton -/

def whereabouts (t : LeaseTable τ) (taskId : JsString) : Whereabouts :=
  if taskId ∈ t.completed then .completed (t.dispatches taskId)
  else if taskId ∈ t.abandoned then .abandoned (t.dispatches taskId)
  else
    match t.held.get? taskId with
    | some lease => .held lease.nodeId lease.generation
    | none => .free (t.dispatches taskId)

/-- The three collections are disjoint, a lease is of the latest dispatch of its
    task, no task has too many, and the history leads to where the table has
    each task. -/
structure Audited (t : LeaseTable τ) : Prop where
  held : ∀ taskId lease, t.held.get? taskId = some lease → lease.taskId = taskId ∧
    lease.generation = t.dispatches taskId ∧ taskId ∉ t.completed ∧ taskId ∉ t.abandoned
  apart : ∀ taskId ∈ t.completed, taskId ∉ t.abandoned
  bounded : ∀ taskId, t.dispatches taskId ≤ t.maxGenerations
  replays : ∀ taskId, replay taskId (.free 0) t.history = some (t.whereabouts taskId)

variable {t t' : LeaseTable τ} {taskId : JsString}

variable {lease : Lease τ}

theorem whereabouts_held (hcompleted : taskId ∉ t.completed) (habandoned : taskId ∉ t.abandoned)
    (hget : t.held.get? taskId = some lease) :
    t.whereabouts taskId = .held lease.nodeId lease.generation := by
  rw [whereabouts, if_neg hcompleted, if_neg habandoned, hget]

theorem Audited.whereabouts_held (h : t.Audited) (hget : t.held.get? taskId = some lease) :
    t.whereabouts taskId = .held lease.nodeId lease.generation := by
  obtain ⟨-, -, hcompleted, habandoned⟩ := h.held taskId lease hget
  exact LeaseTable.whereabouts_held hcompleted habandoned hget

theorem whereabouts_completed (hcompleted : taskId ∈ t.completed) :
    t.whereabouts taskId = .completed (t.dispatches taskId) := if_pos hcompleted

theorem whereabouts_abandoned (hcompleted : taskId ∉ t.completed)
    (habandoned : taskId ∈ t.abandoned) :
    t.whereabouts taskId = .abandoned (t.dispatches taskId) := by
  rw [whereabouts, if_neg hcompleted, if_pos habandoned]

theorem whereabouts_free (hcompleted : taskId ∉ t.completed) (habandoned : taskId ∉ t.abandoned)
    (hget : t.held.get? taskId = none) : t.whereabouts taskId = .free (t.dispatches taskId) := by
  rw [whereabouts, if_neg hcompleted, if_neg habandoned, hget]

variable {g : Nat}

theorem of_whereabouts_free (h : t.whereabouts taskId = .free g) :
    taskId ∉ t.completed ∧ taskId ∉ t.abandoned ∧ t.held.get? taskId = none ∧
      t.dispatches taskId = g := by
  unfold whereabouts at h
  split at h
  · cases h
  · next hcompleted =>
    split at h
    · cases h
    · next habandoned =>
      split at h
      · cases h
      · next hnone =>
        cases h
        exact ⟨hcompleted, habandoned, hnone, rfl⟩

variable {nodeId : JsString}

theorem of_whereabouts_held (h : t.whereabouts taskId = .held nodeId g) :
    ∃ lease, t.held.get? taskId = some lease ∧ lease.nodeId = nodeId ∧
      lease.generation = g := by
  unfold whereabouts at h
  split at h
  · cases h
  · split at h
    · cases h
    · split at h
      · next lease hget =>
        cases h
        exact ⟨lease, hget, rfl, rfl⟩
      · cases h

theorem OnlyAt.whereabouts (h : OnlyAt taskId t t') {other : JsString} (hne : other ≠ taskId) :
    t'.whereabouts other = t.whereabouts other := by
  rw [LeaseTable.whereabouts, LeaseTable.whereabouts, h.dispatches other hne, h.held other hne]
  simp only [h.completed other hne, h.abandoned other hne]

variable {event : LeaseEvent τ}

/-- One event of one task, followed by the automaton. -/
theorem Audited.move (h : t.Audited) (htask : taskOf event = taskId)
    (hhistory : t'.history = t.history ++ [event]) (honly : OnlyAt taskId t t')
    (hheld : ∀ lease, t'.held.get? taskId = some lease → lease.taskId = taskId ∧
      lease.generation = t'.dispatches taskId ∧ taskId ∉ t'.completed ∧ taskId ∉ t'.abandoned)
    (hapart : taskId ∈ t'.completed → taskId ∉ t'.abandoned)
    (hbounded : t'.dispatches taskId ≤ t'.maxGenerations)
    (hfollow : follow (t.whereabouts taskId) event = some (t'.whereabouts taskId)) :
    t'.Audited := by
  refine ⟨?_, ?_, ?_, ?_⟩
  · intro other lease hget
    by_cases hne : other = taskId
    · subst hne
      exact hheld lease hget
    · rw [honly.held other hne] at hget
      rw [honly.dispatches other hne, honly.completed other hne, honly.abandoned other hne]
      exact h.held other lease hget
  · intro other hcompleted
    by_cases hne : other = taskId
    · subst hne
      exact hapart hcompleted
    · rw [honly.abandoned other hne]
      exact h.apart other ((honly.completed other hne).mp hcompleted)
  · intro other
    by_cases hne : other = taskId
    · subst hne
      exact hbounded
    · rw [honly.dispatches other hne, honly.maxGenerations]
      exact h.bounded other
  · intro other
    rw [hhistory]
    refine replay_append.mpr ⟨t.whereabouts other, h.replays other, ?_⟩
    refine replay_cons.mpr ⟨t'.whereabouts other, ?_, rfl⟩
    rw [read, htask]
    by_cases hne : taskId = other
    · subst hne
      rw [if_pos rfl]
      exact hfollow
    · rw [if_neg hne, honly.whereabouts (Ne.symm hne)]

/-! ### The moves of the table -/

/-- A lease goes. -/
theorem Audited.release (h : t.Audited) (hget : t.held.get? taskId = some lease)
    (event : LeaseEvent τ) (htask : taskOf event = taskId)
    (hfollow : follow (.held lease.nodeId lease.generation) event
      = some (.free lease.generation)) :
    ({ t with held := t.held.delete taskId }.note event).Audited ∧
      ({ t with held := t.held.delete taskId }.note event).whereabouts taskId
        = .free lease.generation := by
  obtain ⟨-, hgeneration, hcompleted, habandoned⟩ := h.held taskId lease hget
  have hfree : ({ t with held := t.held.delete taskId }.note event).whereabouts taskId
      = .free lease.generation := by
    rw [hgeneration]
    exact whereabouts_free hcompleted habandoned (get?_held_delete_self t taskId)
  refine ⟨h.move htask rfl ?_ ?_ (fun hin => absurd hin hcompleted) (h.bounded taskId) ?_, hfree⟩
  · exact ⟨rfl, rfl, fun _ hne => get?_held_delete_ne hne, fun _ _ => rfl, fun _ _ => Iff.rfl,
      fun _ _ => Iff.rfl⟩
  · intro lease' hget'
    have hgone : ({ t with held := t.held.delete taskId }.note event).held.get? taskId = none :=
      get?_held_delete_self t taskId
    rw [hget'] at hgone
    cases hgone
  · rw [hfree, h.whereabouts_held hget]
    exact hfollow

/-- A task nobody has is given up. -/
theorem Audited.abandon (h : t.Audited) (hfree : t.whereabouts taskId = .free g) (now : τ) :
    (t.abandon taskId now g).Audited ∧
      (t.abandon taskId now g).whereabouts taskId = .abandoned g := by
  obtain ⟨hcompleted, habandoned, hnone, rfl⟩ := of_whereabouts_free hfree
  rw [LeaseTable.abandon, if_neg habandoned]
  have hgone : ({ t with abandoned := t.abandoned ++ [taskId] }.note
      (.abandoned taskId now (t.dispatches taskId))).whereabouts taskId
        = .abandoned (t.dispatches taskId) :=
    whereabouts_abandoned hcompleted (List.mem_append_right _ List.mem_cons_self)
  have htask : taskOf (.abandoned taskId now (t.dispatches taskId)) = taskId := rfl
  refine ⟨h.move htask rfl ?_ ?_ (fun hin => absurd hin hcompleted) (h.bounded taskId) ?_, hgone⟩
  · refine ⟨rfl, rfl, fun _ _ => rfl, fun _ _ => rfl, ?_, fun _ _ => Iff.rfl⟩
    intro other hne
    show other ∈ t.abandoned ++ [taskId] ↔ _
    simp [hne]
  · intro lease hget
    rw [show t.held.get? taskId = some lease from hget] at hnone
    cases hnone
  · rw [hgone, hfree]
    exact if_pos rfl

/-- A late report that costs nobody the task. -/
theorem Audited.noteStale (h : t.Audited) (taskId nodeId : JsString) (now : τ)
    (hnot : ∀ lease, t.held.get? taskId = some lease → lease.nodeId ≠ nodeId) :
    (t.note (.staleCompletion taskId nodeId now
      ((t.held.get? taskId).map Lease.nodeId))).Audited := by
  have htask : taskOf (.staleCompletion taskId nodeId now ((t.held.get? taskId).map Lease.nodeId))
      = taskId := rfl
  refine h.move htask rfl ⟨rfl, rfl, fun _ _ => rfl, fun _ _ => rfl,
    fun _ _ => Iff.rfl, fun _ _ => Iff.rfl⟩ (h.held taskId) (h.apart taskId) (h.bounded taskId) ?_
  show follow (t.whereabouts taskId) _ = some (t.whereabouts taskId)
  cases hget : t.held.get? taskId with
  | none =>
    unfold whereabouts
    split
    · simp [follow]
    · split
      · simp [follow]
      · simp [follow, hget]
  | some lease =>
    rw [h.whereabouts_held hget]
    simp [follow, Ne.symm (hnot lease hget)]

/-! ### The operations of the table -/

/-- A table that came out of an operation on one task: audited, with nothing
    changed for the others, and with the task somewhere it can be left. -/
structure Left (taskId : JsString) (t t' : LeaseTable τ) (landed : Whereabouts → Prop) :
    Prop where
  audited : t'.Audited
  only : OnlyAt taskId t t'
  landed : landed (t'.whereabouts taskId)

theorem Left.same (h : t.Audited) (taskId : JsString) :
    Left taskId t t (· = t.whereabouts taskId) :=
  ⟨h, .refl taskId t, rfl⟩

/-- Anything further asked of the landing. -/
theorem Left.imp {landed landed' : Whereabouts → Prop} (h : Left taskId t t' landed)
    (himp : ∀ w, landed w → landed' w) : Left taskId t t' landed' :=
  ⟨h.audited, h.only, himp _ h.landed⟩

theorem Audited.generation (h : t.Audited) (taskId : JsString) :
    (t.whereabouts taskId).generation = t.dispatches taskId := by
  unfold whereabouts
  split
  · rfl
  · split
    · rfl
    · split
      · next lease hget => exact (h.held taskId lease hget).2.1
      · rfl

/-- The grants of a task are its dispatches. -/
theorem Audited.grants (h : t.Audited) (taskId : JsString) :
    t.history.countP (isGrant taskId) = t.dispatches taskId := by
  have hadds := (addsUp_of_replay (h.replays taskId)).generations
  rw [h.generation] at hadds
  simpa [Whereabouts.generation] using hadds

theorem Audited.sound (h : t.Audited) : t.Sound where
  keyed taskId lease hget := (h.held taskId lease hget).1
  counted taskId := by
    rw [← h.grants taskId]
    apply List.countP_congr
    intro event _
    cases event <;> simp [isGrant]
  bounded := h.bounded

/-- The lease of a further dispatch. -/
def leaseOf (t : LeaseTable τ) (taskId nodeId : JsString) (now : τ) : Lease τ :=
  ⟨taskId, nodeId, now, none, Clock.add now t.leaseMs, t.dispatches taskId + 1⟩

/-- The table with a further dispatch granted. -/
def given (t : LeaseTable τ) (taskId nodeId : JsString) (now : τ) : LeaseTable τ :=
  { t with
    held := t.held.set taskId (t.leaseOf taskId nodeId now)
    generations := t.generations.set taskId (t.dispatches taskId + 1) }.note
      (.granted taskId nodeId now (t.dispatches taskId + 1))

theorem dispatch_of_lt (hmore : t.dispatches taskId < t.maxGenerations) (nodeId : JsString)
    (now : τ) : t.dispatch taskId nodeId now
      = (some (t.leaseOf taskId nodeId now), t.given taskId nodeId now) := by
  rw [LeaseTable.dispatch]
  exact if_neg (by omega)

theorem dispatch_of_le (hspent : t.maxGenerations ≤ t.dispatches taskId) (nodeId : JsString)
    (now : τ) : t.dispatch taskId nodeId now
      = (none, t.abandon taskId now (t.dispatches taskId)) := by
  rw [LeaseTable.dispatch]
  exact if_pos (by omega)

/-- A dispatch of a task nobody has: to the node, or given up. -/
theorem Audited.dispatch (h : t.Audited) (hfree : t.whereabouts taskId = .free g)
    (nodeId : JsString) (now : τ) :
    Left taskId t (t.dispatch taskId nodeId now).2 fun w =>
      (g < t.maxGenerations ∧ w = .held nodeId (g + 1)) ∨
        (t.maxGenerations ≤ g ∧ w = .abandoned g) := by
  obtain ⟨hcompleted, habandoned, hnone, rfl⟩ := of_whereabouts_free hfree
  by_cases hmore : t.dispatches taskId < t.maxGenerations
  · rw [dispatch_of_lt hmore]
    have honly : OnlyAt taskId t (t.given taskId nodeId now) := by
      obtain ⟨t', heq, -⟩ | ⟨lease, t', heq, hgranted⟩ := dispatch_spec h.sound taskId nodeId now
      · rw [dispatch_of_lt hmore] at heq
        cases heq
      · rw [dispatch_of_lt hmore] at heq
        cases heq
        exact hgranted.only
    have hcount : (t.given taskId nodeId now).dispatches taskId = t.dispatches taskId + 1 :=
      (dispatches_set t _ _ taskId taskId _).trans (if_pos rfl)
    have hget : (t.given taskId nodeId now).held.get? taskId
        = some (t.leaseOf taskId nodeId now) := InsertionMap.get?_set_self _ _ _
    have hheld : (t.given taskId nodeId now).whereabouts taskId
        = .held nodeId (t.dispatches taskId + 1) :=
      LeaseTable.whereabouts_held (t := t.given taskId nodeId now) hcompleted habandoned hget
    refine ⟨?_, honly, Or.inl ⟨hmore, hheld⟩⟩
    have htask : taskOf (.granted taskId nodeId now (t.dispatches taskId + 1)) = taskId := rfl
    refine h.move htask rfl honly ?_ (fun hin => absurd hin hcompleted) ?_ ?_
    · intro lease hlease
      rw [hget] at hlease
      cases hlease
      exact ⟨rfl, hcount.symm, hcompleted, habandoned⟩
    · rw [hcount]
      exact hmore
    · rw [hheld, hfree]
      exact if_pos rfl
  · rw [dispatch_of_le (by omega)]
    obtain ⟨haudited, hgone⟩ := h.abandon hfree now
    exact ⟨haudited, (abandon_quiet h.sound taskId now _).only, Or.inr ⟨by omega, hgone⟩⟩

/-- An expiry, which lets the task go. -/
theorem Audited.expire (h : t.Audited) (hget : t.held.get? taskId = some lease) (now : τ) :
    Left taskId t (t.expire lease now) (· = .free lease.generation) := by
  obtain ⟨hkey, -⟩ := h.held taskId lease hget
  have hquiet := expire_quiet h.sound hkey now
  subst hkey
  obtain ⟨haudited, hfree⟩ := h.release hget
    (.expired lease.taskId lease.nodeId now lease.generation) rfl (if_pos rfl)
  exact ⟨haudited, hquiet.only, hfree⟩

/-- Where it was, or anywhere but without a holder and without a generation. -/
def Tidied (t : LeaseTable τ) (taskId : JsString) (w : Whereabouts) : Prop :=
  w = t.whereabouts taskId ∨ w ≠ .free t.maxGenerations

theorem Audited.grant (h : t.Audited) (taskId nodeId : JsString) (now : τ) :
    Left taskId t (t.grant taskId nodeId now).2 (t.Tidied taskId) := by
  have hland : ∀ g w, (g < t.maxGenerations ∧ w = .held nodeId (g + 1)) ∨
      (t.maxGenerations ≤ g ∧ w = .abandoned g) → t.Tidied taskId w := by
    rintro g w (⟨-, rfl⟩ | ⟨-, rfl⟩)
    · exact Or.inr Whereabouts.noConfusion
    · exact Or.inr Whereabouts.noConfusion
  rw [LeaseTable.grant]
  split
  · exact (Left.same h taskId).imp fun w hw => Or.inl hw
  · next hopen =>
    split
    · next hnone =>
      obtain ⟨hcompleted, habandoned⟩ := not_or.mp hopen
      exact (h.dispatch (whereabouts_free hcompleted habandoned hnone) nodeId now).imp
        (hland _)
    · next existing hget =>
      split
      · exact (Left.same h taskId).imp fun w hw => Or.inl hw
      · -- The old lease expires first, so that the history says why the task is free.
        have hexpired := h.expire hget now
        have hgranted := hexpired.audited.dispatch hexpired.landed nodeId now
        refine ⟨hgranted.audited, hexpired.only.trans hgranted.only, ?_⟩
        apply hland existing.generation
        rw [← hexpired.only.maxGenerations]
        exact hgranted.landed

/-- A grant of a task that is not completed, and whose lease, if there is one,
    has run out: to the node, or the task is given up. -/
theorem Audited.grant_open (h : t.Audited) (hopen : (t.whereabouts taskId).completions = 0)
    (nodeId : JsString) {now : τ}
    (hlive : ∀ lease, t.held.get? taskId = some lease → Clock.gt lease.expiresAt now = false) :
    (∃ t', t.grant taskId nodeId now = (none, t') ∧ ∃ g, t'.whereabouts taskId = .abandoned g) ∨
      ∃ lease t', t.grant taskId nodeId now = (some lease, t') ∧
        ∃ g, t'.whereabouts taskId = .held nodeId g := by
  have hcompleted : taskId ∉ t.completed := by
    intro hin
    rw [whereabouts_completed hin] at hopen
    cases hopen
  have hdispatch : ∀ {t : LeaseTable τ} {g : Nat}, t.Audited → t.whereabouts taskId = .free g →
      (∃ t', t.dispatch taskId nodeId now = (none, t') ∧
        ∃ g, t'.whereabouts taskId = .abandoned g) ∨
      ∃ lease t', t.dispatch taskId nodeId now = (some lease, t') ∧
        ∃ g, t'.whereabouts taskId = .held nodeId g := by
    intro t g h hfree
    obtain ⟨-, -, -, hcount⟩ := of_whereabouts_free hfree
    have hlanded := (h.dispatch hfree nodeId now).landed
    by_cases hmore : t.dispatches taskId < t.maxGenerations
    · rw [dispatch_of_lt hmore] at hlanded ⊢
      refine Or.inr ⟨_, _, rfl, ?_⟩
      rcases hlanded with ⟨-, heq⟩ | ⟨hspent, -⟩
      · exact ⟨_, heq⟩
      · omega
    · rw [dispatch_of_le (by omega)] at hlanded ⊢
      refine Or.inl ⟨_, rfl, ?_⟩
      rcases hlanded with ⟨hlt, -⟩ | ⟨-, heq⟩
      · omega
      · exact ⟨_, heq⟩
  rw [LeaseTable.grant]
  split
  · next hended =>
    have habandoned := hended.resolve_left hcompleted
    exact Or.inl ⟨t, rfl, _, whereabouts_abandoned hcompleted habandoned⟩
  · next hfresh =>
    split
    · next hnone =>
      obtain ⟨-, habandoned⟩ := not_or.mp hfresh
      exact hdispatch h (whereabouts_free hcompleted habandoned hnone)
    · next existing hget =>
      rw [hlive existing hget, if_neg Bool.false_ne_true]
      have hexpired := h.expire hget now
      exact hdispatch hexpired.audited hexpired.landed

def extended (t : LeaseTable τ) (taskId : JsString) (lease : Lease τ) (now : τ) : LeaseTable τ :=
  { t with
    held := t.held.set taskId
      { lease with renewedAt := some now, expiresAt := Clock.add now t.leaseMs } }.note
        (.renewed taskId lease.nodeId now (Clock.add now t.leaseMs))

/-- A renewal leaves the task where it is. -/
theorem Audited.renew (h : t.Audited) (taskId nodeId : JsString) (now : τ) :
    Left taskId t (t.renew taskId nodeId now).2 (· = t.whereabouts taskId) := by
  have honly := (renew_quiet h.sound taskId nodeId now).only
  revert honly
  rw [LeaseTable.renew]
  split
  · exact fun _ => Left.same h taskId
  · next lease hget =>
    split
    · exact fun _ => Left.same h taskId
    · next hlive =>
      obtain rfl := not_not.mp (not_or.mp hlive).1
      obtain ⟨hkey, hgeneration, hcompleted, habandoned⟩ := h.held taskId lease hget
      intro honly
      have hnew : (t.extended taskId lease now).held.get? taskId
          = some { lease with renewedAt := some now, expiresAt := Clock.add now t.leaseMs } :=
        InsertionMap.get?_set_self _ _ _
      have hheld : (t.extended taskId lease now).whereabouts taskId
          = .held lease.nodeId lease.generation :=
        (LeaseTable.whereabouts_held (t := t.extended taskId lease now) hcompleted habandoned
          hnew).trans rfl
      have hsame := h.whereabouts_held hget
      refine ⟨?_, honly, hheld.trans hsame.symm⟩
      have htask : taskOf (.renewed taskId lease.nodeId now (Clock.add now t.leaseMs))
          = taskId := rfl
      show (t.extended taskId lease now).Audited
      refine h.move htask rfl honly ?_
        (fun hin => absurd hin hcompleted) (h.bounded taskId) ?_
      · intro lease' hlease
        rw [hnew] at hlease
        cases hlease
        exact ⟨hkey, hgeneration, hcompleted, habandoned⟩
      · rw [hheld, hsame]
        exact if_pos rfl

def finished (t : LeaseTable τ) (taskId : JsString) (lease : Lease τ) (now : τ) : LeaseTable τ :=
  { t with
    held := t.held.delete taskId
    completed := if taskId ∈ t.completed then t.completed else t.completed ++ [taskId] }.note
      (.completed taskId lease.nodeId now lease.generation)

/-- The holder reports too late. -/
def Late (t : LeaseTable τ) (taskId nodeId : JsString) (now : τ) : Prop :=
  ∃ lease, t.held.get? taskId = some lease ∧ lease.nodeId = nodeId ∧
    Clock.le lease.expiresAt now = true

/-- A completion by anybody but the holder leaves the task as it is.  The holder
    completes it, or loses it where it is late. -/
theorem Audited.complete (h : t.Audited) (taskId nodeId : JsString) (now : τ) :
    Left taskId t (t.complete taskId nodeId now).2 fun w =>
      ((∀ g, t.whereabouts taskId ≠ .held nodeId g) ∧ w = t.whereabouts taskId) ∨
        ∃ g, t.whereabouts taskId = .held nodeId g ∧
          ((¬ t.Late taskId nodeId now ∧ w = .completed g) ∨
            (t.Late taskId nodeId now ∧ w = .free g)) := by
  have honly := (complete_quiet h.sound taskId nodeId now).only
  revert honly
  rw [LeaseTable.complete]
  split
  · next hnone =>
    have haudited := h.noteStale taskId nodeId now (by
      rw [hnone]
      rintro _ ⟨⟩)
    rw [hnone] at haudited
    refine fun honly => ⟨haudited, honly, Or.inl ⟨fun g heq => ?_, rfl⟩⟩
    obtain ⟨lease, hget, -⟩ := of_whereabouts_held heq
    rw [hnone] at hget
    cases hget
  · next lease hget =>
    split
    · next hother =>
      have haudited := h.noteStale taskId nodeId now (by
        rw [hget]
        rintro _ ⟨⟩
        exact hother)
      rw [hget] at haudited
      refine fun honly => ⟨haudited, honly, Or.inl ⟨fun g heq => ?_, rfl⟩⟩
      obtain ⟨lease', hget', hnode, -⟩ := of_whereabouts_held heq
      rw [hget] at hget'
      cases hget'
      exact hother hnode
    · next hholder =>
      obtain rfl := not_not.mp hholder
      have hwhere := h.whereabouts_held hget
      split
      · next hlate =>
        obtain ⟨haudited, hfree⟩ := h.release hget
          (.staleCompletion taskId lease.nodeId now (some lease.nodeId)) rfl
          (by simp [follow])
        exact fun honly => ⟨haudited, honly, Or.inr ⟨lease.generation, hwhere,
          Or.inr ⟨⟨lease, hget, rfl, hlate⟩, hfree⟩⟩⟩
      · next hontime =>
        intro honly
        obtain ⟨hkey, hgeneration, hcompleted, habandoned⟩ := h.held taskId lease hget
        have hin : taskId ∈ (t.finished taskId lease now).completed := by
          show taskId ∈ if taskId ∈ t.completed then t.completed
            else t.completed ++ [taskId]
          rw [if_neg hcompleted]
          exact List.mem_append_right _ List.mem_cons_self
        have hdone : (t.finished taskId lease now).whereabouts taskId
            = .completed lease.generation := by
          rw [whereabouts_completed hin, hgeneration]
          rfl
        refine ⟨?_, honly, Or.inr ⟨lease.generation, hwhere, Or.inl ⟨?_, hdone⟩⟩⟩
        · have htask : taskOf (.completed taskId lease.nodeId now lease.generation)
              = taskId := rfl
          show (t.finished taskId lease now).Audited
          refine h.move htask rfl honly ?_
            (fun _ => habandoned) (h.bounded taskId) ?_
          · intro lease' hlease
            have hgone : (t.finished taskId lease now).held.get? taskId = none :=
              get?_held_delete_self t taskId
            rw [hgone] at hlease
            cases hlease
          · rw [hdone, hwhere]
            exact if_pos rfl
        · rintro ⟨lease', hget', -, hlate⟩
          rw [hget] at hget'
          cases hget'
          exact hontime hlate

/-- Given back: free with a generation left, or given up. -/
def GivenBack (t : LeaseTable τ) (g : Nat) (w : Whereabouts) : Prop :=
  (w = .free g ∧ g < t.maxGenerations) ∨ w = .abandoned g

theorem GivenBack.tidied {w : Whereabouts} (h : t.GivenBack g w) (taskId : JsString) :
    t.Tidied taskId w := by
  rcases h with ⟨rfl, hmore⟩ | rfl
  · refine Or.inr ?_
    rintro ⟨⟩
    exact Nat.lt_irrefl _ hmore
  · exact Or.inr Whereabouts.noConfusion

/-- A task without a holder is given up where that was its last generation. -/
theorem Audited.giveUp (h : t.Audited) (hfree : t.whereabouts taskId = .free g) (now : τ) :
    Left taskId t (if t.maxGenerations ≤ g then t.abandon taskId now g else t)
      (t.GivenBack g) := by
  split
  · obtain ⟨haudited, hgone⟩ := h.abandon hfree now
    exact ⟨haudited, (abandon_quiet h.sound taskId now g).only, Or.inr hgone⟩
  · next hmore => exact ⟨h, .refl taskId t, Or.inl ⟨hfree, by omega⟩⟩

/-- The holder gives the task back.  Anybody else changes nothing. -/
theorem Audited.surrender (h : t.Audited) (taskId nodeId : JsString) (now : τ) :
    Left taskId t (t.surrender taskId nodeId now).2 fun w =>
      ((∀ g, t.whereabouts taskId ≠ .held nodeId g) ∧ w = t.whereabouts taskId) ∨
        ∃ g, t.whereabouts taskId = .held nodeId g ∧ t.GivenBack g w := by
  rw [LeaseTable.surrender]
  split
  · next hnone =>
    refine (Left.same h taskId).imp fun w hw => Or.inl ⟨fun g heq => ?_, hw⟩
    obtain ⟨lease, hget, -⟩ := of_whereabouts_held heq
    rw [hnone] at hget
    cases hget
  · next lease hget =>
    split
    · next hother =>
      refine (Left.same h taskId).imp fun w hw => Or.inl ⟨fun g heq => ?_, hw⟩
      obtain ⟨lease', hget', hnode, -⟩ := of_whereabouts_held heq
      rw [hget] at hget'
      cases hget'
      exact hother hnode
    · next hholder =>
      obtain rfl := not_not.mp hholder
      obtain ⟨haudited, hfree⟩ := h.release hget
        (.surrendered taskId lease.nodeId now lease.generation) rfl (if_pos rfl)
      have hgone := haudited.giveUp hfree now
      refine ⟨hgone.audited, OnlyAt.trans ?_ hgone.only,
        Or.inr ⟨lease.generation, h.whereabouts_held hget, hgone.landed⟩⟩
      exact ⟨rfl, rfl, fun _ hne => get?_held_delete_ne hne, fun _ _ => rfl,
        fun _ _ => Iff.rfl, fun _ _ => Iff.rfl⟩

/-- A held task stays where its lease still runs, and is given back where not. -/
theorem Audited.reapLease (h : t.Audited) (hget : t.held.get? taskId = some lease)
    (reaped : List Reaped) (now : τ) :
    Left taskId t (LeaseTable.reapLease now (reaped, t) lease).2 fun w =>
      w = t.whereabouts taskId ∨ t.GivenBack lease.generation w := by
  obtain ⟨rfl, -⟩ := h.held taskId lease hget
  rw [LeaseTable.reapLease]
  split
  · exact (Left.same h _).imp fun w hw => Or.inl hw
  · have hexpired := h.expire hget now
    have hgone := hexpired.audited.giveUp hexpired.landed now
    have hlanded := hgone.landed
    unfold GivenBack at hlanded
    rw [hexpired.only.maxGenerations] at hgone hlanded
    have heq : (if decide (lease.generation < t.maxGenerations) = true then t.expire lease now
        else (t.expire lease now).abandon lease.taskId now lease.generation)
        = if t.maxGenerations ≤ lease.generation
          then (t.expire lease now).abandon lease.taskId now lease.generation
          else t.expire lease now := by
      by_cases hlast : t.maxGenerations ≤ lease.generation
      · rw [if_pos hlast, if_neg (by simpa using hlast)]
      · rw [if_neg hlast, if_pos (by simpa using hlast)]
    have hleft : Left lease.taskId t
        (if decide (lease.generation < t.maxGenerations) = true then t.expire lease now
          else (t.expire lease now).abandon lease.taskId now lease.generation)
        fun w => w = t.whereabouts lease.taskId ∨ t.GivenBack lease.generation w := by
      rw [heq]
      exact ⟨hgone.audited, hexpired.only.trans hgone.only, Or.inr hlanded⟩
    exact hleft

/-- The sweep of one task. -/
theorem Audited.reapOne (h : t.Audited) (p : Platform) (now : τ) (taskId : JsString) :
    Left taskId t (t.reap p now (some taskId)).2 fun w =>
      w = t.whereabouts taskId ∨
        ∃ nodeId g, t.whereabouts taskId = .held nodeId g ∧ t.GivenBack g w := by
  show Left taskId t ((t.held.get? taskId).toList.foldl (LeaseTable.reapLease now) ([], t)).2 _
  cases hget : t.held.get? taskId with
  | none => exact (Left.same h taskId).imp fun w hw => Or.inl hw
  | some lease =>
    refine (h.reapLease hget [] now).imp fun w hw => ?_
    rcases hw with hsame | hback
    · exact Or.inl hsame
    · exact Or.inr ⟨lease.nodeId, lease.generation, h.whereabouts_held hget, hback⟩

/-! ## Whole runs -/

/-- The second table is audited, and it has no task where only the first one may
    leave it: without a holder, without an ending and without a generation. -/
structure Tidier (t t' : LeaseTable τ) : Prop where
  audited : t'.Audited
  maxGenerations : t'.maxGenerations = t.maxGenerations
  landed : ∀ taskId, t.Tidied taskId (t'.whereabouts taskId)

theorem Left.tidier (h : Left taskId t t' (t.Tidied taskId)) : Tidier t t' := by
  refine ⟨h.audited, h.only.maxGenerations, fun other => ?_⟩
  by_cases hne : other = taskId
  · subst hne
    exact h.landed
  · exact Or.inl (h.only.whereabouts hne)

theorem Tidier.refl (h : t.Audited) : Tidier t t := ⟨h, rfl, fun _ => Or.inl rfl⟩

theorem Tidier.trans {t'' : LeaseTable τ} (h : Tidier t t') (h' : Tidier t' t'') :
    Tidier t t'' := by
  refine ⟨h'.audited, h'.maxGenerations.trans h.maxGenerations, fun taskId => ?_⟩
  rcases h'.landed taskId with heq | hne
  · rw [heq]
    exact h.landed taskId
  · rw [h.maxGenerations] at hne
    exact Or.inr hne

/-- Leases of different tasks, reaped one after the other. -/
theorem reapLeases_tidier {leases : List (Lease τ)} {reaped : List Reaped} (h : t.Audited)
    (hheld : ∀ lease ∈ leases, t.held.get? lease.taskId = some lease)
    (hapart : (leases.map Lease.taskId).Nodup) (now : τ) :
    Tidier t (leases.foldl (LeaseTable.reapLease now) (reaped, t)).2 := by
  induction leases generalizing t reaped with
  | nil => exact .refl h
  | cons lease rest ih =>
    obtain ⟨hlease, hrest⟩ := List.forall_mem_cons.mp hheld
    obtain ⟨hnot, hapart⟩ := List.nodup_cons.mp hapart
    have hstep : Left lease.taskId t (LeaseTable.reapLease now (reaped, t) lease).2
        (t.Tidied lease.taskId) :=
      (h.reapLease hlease reaped now).imp fun w hw =>
        hw.elim Or.inl fun hback => hback.tidied lease.taskId
    refine hstep.tidier.trans (ih hstep.audited ?_ hapart)
    intro other hother
    -- The leases still to come are of other tasks.
    have hne : other.taskId ≠ lease.taskId := fun heq =>
      hnot (heq ▸ List.mem_map_of_mem hother)
    rw [hstep.only.held other.taskId hne]
    exact hrest other hother

theorem Audited.reap (h : t.Audited) (p : Platform) (now : τ) (scope : Option JsString) :
    Tidier t (t.reap p now scope).2 := by
  cases scope with
  | none =>
    have hget : ∀ lease ∈ t.held.values, t.held.get? lease.taskId = some lease := by
      intro lease hlease
      obtain ⟨⟨key, lease'⟩, hentry, rfl⟩ := List.mem_map.mp hlease
      have hget := InsertionMap.get?_eq_some.mpr hentry
      obtain ⟨hkey, -⟩ := h.held key lease' hget
      rw [hkey]
      exact hget
    apply reapLeases_tidier h hget
    have hkeys : t.held.values.map Lease.taskId = t.held.keys := by
      unfold InsertionMap.values InsertionMap.keys
      rw [List.map_map]
      apply List.map_congr_left
      intro entry hentry
      exact (h.held entry.1 entry.2 (InsertionMap.get?_eq_some.mpr hentry)).1
    rw [hkeys]
    exact t.held.keys_nodup
  | some taskId =>
    show Tidier t ((t.held.get? taskId).toList.foldl (LeaseTable.reapLease now) ([], t)).2
    apply reapLeases_tidier h
    · intro lease hlease
      have hget := Option.mem_toList.mp hlease
      obtain ⟨hkey, -⟩ := h.held taskId lease hget
      rw [hkey]
      exact hget
    · cases t.held.get? taskId with
      | none => exact List.nodup_nil
      | some lease => exact List.nodup_singleton _

/-- A call of one of the table's operations. -/
inductive Call (τ : Type)
  | grant (taskId nodeId : JsString) (now : τ)
  | renew (taskId nodeId : JsString) (now : τ)
  | complete (taskId nodeId : JsString) (now : τ)
  | surrender (taskId nodeId : JsString) (now : τ)
  | reap (now : τ) (taskId : Option JsString)

def after (p : Platform) (t : LeaseTable τ) : Call τ → LeaseTable τ
  | .grant taskId nodeId now => (t.grant taskId nodeId now).2
  | .renew taskId nodeId now => (t.renew taskId nodeId now).2
  | .complete taskId nodeId now => (t.complete taskId nodeId now).2
  | .surrender taskId nodeId now => (t.surrender taskId nodeId now).2
  | .reap now taskId => (t.reap p now taskId).2

def afterAll (p : Platform) (t : LeaseTable τ) (calls : List (Call τ)) : LeaseTable τ :=
  calls.foldl (after p) t

/-- Every call keeps the table audited. -/
theorem Audited.after (h : t.Audited) (p : Platform) (call : Call τ) :
    (t.after p call).Audited ∧ (t.after p call).maxGenerations = t.maxGenerations := by
  cases call with
  | grant taskId nodeId now =>
    have hleft := h.grant taskId nodeId now
    exact ⟨hleft.audited, hleft.only.maxGenerations⟩
  | renew taskId nodeId now =>
    have hleft := h.renew taskId nodeId now
    exact ⟨hleft.audited, hleft.only.maxGenerations⟩
  | complete taskId nodeId now =>
    have hleft := h.complete taskId nodeId now
    exact ⟨hleft.audited, hleft.only.maxGenerations⟩
  | surrender taskId nodeId now =>
    have hleft := h.surrender taskId nodeId now
    exact ⟨hleft.audited, hleft.only.maxGenerations⟩
  | reap now taskId =>
    have htidier := h.reap p now taskId
    exact ⟨htidier.audited, htidier.maxGenerations⟩

theorem Audited.afterAll (h : t.Audited) (p : Platform) (calls : List (Call τ)) :
    (t.afterAll p calls).Audited ∧ (t.afterAll p calls).maxGenerations = t.maxGenerations := by
  induction calls generalizing t with
  | nil => exact ⟨h, rfl⟩
  | cons call rest ih =>
    obtain ⟨haudited, hmax⟩ := h.after p call
    obtain ⟨hall, hallmax⟩ := ih haudited
    exact ⟨hall, hallmax.trans hmax⟩

/-- A new table has nothing to audit. -/
theorem audited_of_create {leaseMs : τ} {maxGenerations : Nat}
    (hcreate : create leaseMs maxGenerations = some t) :
    t.Audited ∧ t.maxGenerations = maxGenerations ∧ 0 < maxGenerations ∧
      ∀ taskId, t.whereabouts taskId = .free 0 := by
  obtain ⟨hpos, heq⟩ := Option.dite_none_right_eq_some.mp hcreate
  cases heq
  refine ⟨⟨?_, ?_, ?_, ?_⟩, rfl, hpos.2, fun _ => rfl⟩
  · exact fun _ _ hget => nomatch hget
  · exact fun _ hin => nomatch hin
  · exact fun _ => Nat.zero_le _
  · exact fun _ => rfl

/-! ## The history as an audit trail -/

/-- What can be relied on when a table and its history are read. -/
structure AuditTrail (maxGenerations : Nat) (t : LeaseTable τ) : Prop where
  /-- No task is in two of the three collections. -/
  disjoint : ∀ taskId, (t.held.get? taskId ≠ none → taskId ∉ t.completed) ∧
    (t.held.get? taskId ≠ none → taskId ∉ t.abandoned) ∧
    (taskId ∈ t.completed → taskId ∉ t.abandoned)
  endsOnce : ∀ taskId,
    t.history.countP (isCompletion taskId) + t.history.countP (isAbandonment taskId) ≤ 1
  /-- It is not granted again. -/
  endsForGood : ∀ taskId pre event post, t.history = pre ++ event :: post →
    isCompletion taskId event = true ∨ isAbandonment taskId event = true →
    ∀ later ∈ post, isGrant taskId later = false
  /-- The grants are numbered from one on, and not past the bound. -/
  numbered : ∀ taskId, ∃ k ≤ maxGenerations,
    t.history.filterMap (grantOf taskId) = List.range' 1 k
  /-- Between two grants the first holder lost the task, once. -/
  releasedOnce : ∀ taskId pre nodeId at_ g mid nodeId' at' g' post,
    t.history = pre ++ .granted taskId nodeId at_ g :: (mid ++
      .granted taskId nodeId' at' g' :: post) →
    (∀ event ∈ mid, isGrant taskId event = false) →
    ∃ event, mid.filter (isRelease taskId) = [event] ∧ releases nodeId g event
  /-- A task is completed by the node it was granted to last, as that generation. -/
  byHolder : ∀ taskId pre nodeId at_ g post,
    t.history = pre ++ .completed taskId nodeId at_ g :: post →
    ∃ granted, (pre.filter (isGrant taskId)).getLast? = some (.granted taskId nodeId granted g)

theorem Audited.endsOnce (h : t.Audited) (taskId : JsString) :
    t.history.countP (isCompletion taskId) + t.history.countP (isAbandonment taskId) ≤ 1 := by
  have hadds := addsUp_of_replay (h.replays taskId)
  have hcompletions := hadds.completions
  have habandonments := hadds.abandonments
  have hone : (t.whereabouts taskId).completions + (t.whereabouts taskId).abandonments ≤ 1 := by
    cases t.whereabouts taskId <;> simp [Whereabouts.completions, Whereabouts.abandonments]
  simp only [Whereabouts.completions, Whereabouts.abandonments] at hcompletions habandonments hone
  omega

variable {pre post : List (LeaseEvent τ)}

/-- The two sides of an event of the history. -/
theorem Audited.split (h : t.Audited) (hsplit : t.history = pre ++ event :: post)
    (taskId : JsString) :
    ∃ w w', replay taskId (.free 0) pre = some w ∧ read taskId w event = some w' ∧
      replay taskId w' post = some (t.whereabouts taskId) := by
  have hreplay := h.replays taskId
  rw [hsplit] at hreplay
  obtain ⟨w, hpre, hrest⟩ := replay_append.mp hreplay
  obtain ⟨w', hevent, hpost⟩ := replay_cons.mp hrest
  exact ⟨w, w', hpre, hevent, hpost⟩

theorem Audited.endsForGood (h : t.Audited) (hsplit : t.history = pre ++ event :: post)
    (hends : isCompletion taskId event = true ∨ isAbandonment taskId event = true) :
    ∀ later ∈ post, isGrant taskId later = false := by
  obtain ⟨w, w', -, hevent, hpost⟩ := h.split hsplit taskId
  have hended : w'.ended = true := by
    obtain ⟨-, -, hcompletion, habandonment, -⟩ | ⟨_, _, _, -, -, rfl⟩ | ⟨_, _, _, -, rfl, -⟩ |
      ⟨_, _, -, rfl, -⟩ | ⟨_, _, -, -, -, hcompletion, habandonment, -⟩ := read_cases hevent
    · simp [hcompletion, habandonment] at hends
    · simp [isCompletion, isAbandonment] at hends
    · rfl
    · rfl
    · simp [hcompletion, habandonment] at hends
  exact (replay_ended hended hpost).2

theorem Audited.releasedOnce (h : t.Audited) {nodeId' : JsString} {at_ at' : τ} {g' : Nat}
    {mid : List (LeaseEvent τ)} (hsplit : t.history = pre ++ .granted taskId nodeId at_ g :: (mid ++
      .granted taskId nodeId' at' g' :: post)) (hnone : ∀ event ∈ mid, isGrant taskId event = false) :
    ∃ event, mid.filter (isRelease taskId) = [event] ∧ releases nodeId g event := by
  obtain ⟨w, w₁, -, hfirst, hrest⟩ := h.split hsplit taskId
  obtain ⟨w₂, hmid, hrest⟩ := replay_append.mp hrest
  obtain ⟨w₃, hsecond, -⟩ := replay_cons.mp hrest
  obtain ⟨-, rfl⟩ := read_granted hfirst
  obtain ⟨rfl, -⟩ := read_granted hsecond
  -- The task went from held to free, without a grant and without an ending.
  have hadds := addsUp_of_replay hmid
  have hgrants : mid.countP (isGrant taskId) = 0 :=
    List.countP_eq_zero.mpr fun event hin => by simp [hnone event hin]
  have hcompletions := hadds.completions
  have hreleases := hadds.releases
  simp only [Whereabouts.completions, Whereabouts.holds, hgrants] at hcompletions hreleases
  have hone : (mid.filter (isRelease taskId)).length = 1 := by
    rw [← List.countP_eq_length_filter]
    omega
  obtain ⟨event, hevent⟩ := List.length_eq_one_iff.mp hone
  refine ⟨event, hevent, ?_⟩
  have hin : event ∈ mid.filter (isRelease taskId) := by
    rw [hevent]
    exact List.mem_cons_self
  obtain ⟨hmem, hrelease⟩ := List.mem_filter.mp hin
  refine replay_releases ?_ hnone hmid event hmem hrelease
  rintro n k ⟨⟩
  exact ⟨rfl, rfl⟩

theorem Audited.byHolder (h : t.Audited) {at_ : τ}
    (hsplit : t.history = pre ++ .completed taskId nodeId at_ g :: post) :
    ∃ granted,
      (pre.filter (isGrant taskId)).getLast? = some (.granted taskId nodeId granted g) := by
  obtain ⟨w, w', hpre, hevent, -⟩ := h.split hsplit taskId
  have hheld : w = .held nodeId g := by
    unfold read at hevent
    rw [if_pos (show taskOf (.completed taskId nodeId at_ g) = taskId from rfl)] at hevent
    exact (Option.ite_none_right_eq_some.mp hevent).1
  rw [hheld] at hpre
  rcases replay_held hpre with ⟨hstart, -⟩ | hlast
  · cases hstart
  · exact hlast

/-- Whatever is called with whatever ids and clock readings, the table and its
    history are an audit trail. -/
theorem audit_trail (p : Platform) {leaseMs : τ} {maxGenerations : Nat} {start : LeaseTable τ}
    (hcreate : create leaseMs maxGenerations = some start) (calls : List (Call τ)) :
    AuditTrail maxGenerations (start.afterAll p calls) := by
  obtain ⟨hstart, hmax, -⟩ := audited_of_create hcreate
  obtain ⟨h, hsame⟩ := hstart.afterAll p calls
  refine ⟨?_, h.endsOnce, ?_, ?_, ?_, ?_⟩
  · intro taskId
    have hheld : (start.afterAll p calls).held.get? taskId ≠ none →
        taskId ∉ (start.afterAll p calls).completed ∧
          taskId ∉ (start.afterAll p calls).abandoned := by
      intro hsome
      obtain ⟨lease, hget⟩ := Option.ne_none_iff_exists'.mp hsome
      exact (h.held taskId lease hget).2.2
    exact ⟨fun hsome => (hheld hsome).1, fun hsome => (hheld hsome).2, h.apart taskId⟩
  · exact fun taskId pre event post hsplit hends => h.endsForGood hsplit hends
  · intro taskId
    refine ⟨_, ?_, (addsUp_of_replay (h.replays taskId)).numbered⟩
    rw [h.grants taskId, ← hmax, ← hsame]
    exact h.bounded taskId
  · exact fun _ _ _ _ _ _ _ _ _ _ hsplit hnone => h.releasedOnce hsplit hnone
  · exact fun _ _ _ _ _ _ hsplit => h.byHolder hsplit

/-- A table of two generations, read at a clock that reads `NaN` once: the first
    holder's lease neither counts as live then nor as run out. -/
theorem audit_trail_nan : ∃ start, create (JsNumber.finite 10) 2 = some start ∧
    AuditTrail 2 (start.afterAll plain [.grant (js "t") (js "n") (.finite 0),
      .grant (js "t") (js "m") .nan, .complete (js "t") (js "m") (.finite 5)]) :=
  have hcreate : create (JsNumber.finite 10) 2 = some _ := rfl
  ⟨_, hcreate, audit_trail plain hcreate _⟩

/-! ## Tasks in limbo -/

/-- A task has used up its generations, nobody has it, it is not completed, and
    yet it is not reported abandoned. -/
def Limbo (t : LeaseTable τ) (taskId : JsString) : Prop :=
  t.maxGenerations ≤ t.dispatches taskId ∧ t.held.get? taskId = none ∧ taskId ∉ t.completed ∧
    taskId ∉ t.abandoned

theorem Audited.limbo_iff (h : t.Audited) :
    t.Limbo taskId ↔ t.whereabouts taskId = .free t.maxGenerations := by
  constructor
  · rintro ⟨hspent, hnone, hcompleted, habandoned⟩
    rw [whereabouts_free hcompleted habandoned hnone, Whereabouts.free.injEq]
    exact Nat.le_antisymm (h.bounded taskId) hspent
  · intro hfree
    obtain ⟨hcompleted, habandoned, hnone, hcount⟩ := of_whereabouts_free hfree
    exact ⟨hcount.ge, hnone, hcompleted, habandoned⟩

/-- The call is a completion by the holder of a task's last generation, whose
    lease has run out by then. -/
def Forgets (t : LeaseTable τ) (call : Call τ) : Prop :=
  ∃ taskId nodeId now, call = .complete taskId nodeId now ∧ t.Late taskId nodeId now ∧
    t.maxGenerations ≤ t.dispatches taskId

/-- No other call leaves a task in limbo that was not. -/
theorem Audited.tidier (h : t.Audited) (p : Platform) {call : Call τ}
    (hcall : ¬ t.Forgets call) : Tidier t (t.after p call) := by
  cases call with
  | grant taskId nodeId now => exact (h.grant taskId nodeId now).tidier
  | renew taskId nodeId now =>
    exact ((h.renew taskId nodeId now).imp fun _ hw => Or.inl hw).tidier
  | surrender taskId nodeId now =>
    refine ((h.surrender taskId nodeId now).imp ?_).tidier
    rintro w (⟨-, heq⟩ | ⟨g, -, hback⟩)
    · exact Or.inl heq
    · exact hback.tidied taskId
  | reap now taskId => exact h.reap p now taskId
  | complete taskId nodeId now =>
    refine ((h.complete taskId nodeId now).imp ?_).tidier
    rintro w (⟨-, heq⟩ | ⟨g, hheld, ⟨-, rfl⟩ | ⟨hlate, rfl⟩⟩)
    · exact Or.inl heq
    · exact Or.inr Whereabouts.noConfusion
    · refine Or.inr ?_
      rintro ⟨⟩
      have hcount := h.generation taskId
      rw [hheld] at hcount
      exact hcall ⟨taskId, nodeId, now, rfl, hlate, Nat.le_of_eq hcount⟩

/-- That one does. -/
theorem Audited.limbo_of_forgets (h : t.Audited) (p : Platform) {call : Call τ}
    (hcall : t.Forgets call) : ∃ taskId, (t.after p call).Limbo taskId := by
  obtain ⟨taskId, nodeId, now, rfl, hlate, hspent⟩ := hcall
  have hleft := h.complete taskId nodeId now
  refine ⟨taskId, (hleft.audited.limbo_iff).mpr ?_⟩
  rcases hleft.landed with ⟨hnot, -⟩ | ⟨g, hheld, ⟨hontime, -⟩ | ⟨-, hfree⟩⟩
  · obtain ⟨lease, hget, rfl, -⟩ := hlate
    exact absurd (h.whereabouts_held hget) (hnot _)
  · exact absurd hlate hontime
  · have hcount := h.generation taskId
    have hbound := h.bounded taskId
    rw [hheld] at hcount
    rw [hfree, hleft.only.maxGenerations, Whereabouts.free.injEq]
    simp only [Whereabouts.generation] at hcount
    omega

/-- A run leaves no task in limbo, at any point, exactly when none of its calls
    is such a completion. -/
theorem no_limbo_iff (p : Platform) {leaseMs : τ} {maxGenerations : Nat} {start : LeaseTable τ}
    (hcreate : create leaseMs maxGenerations = some start) (calls : List (Call τ)) :
    (∀ pre post, calls = pre ++ post → ∀ taskId, ¬ (start.afterAll p pre).Limbo taskId) ↔
      ∀ pre call post, calls = pre ++ call :: post → ¬ (start.afterAll p pre).Forgets call := by
  obtain ⟨hstart, hmax, hpos, hnew⟩ := audited_of_create hcreate
  have hlast : ∀ pre call, start.afterAll p (pre ++ [call])
      = (start.afterAll p pre).after p call := fun pre call => List.foldl_append
  constructor
  · intro hnever pre call post hsplit hforgets
    obtain ⟨taskId, hlimbo⟩ := (hstart.afterAll p pre).1.limbo_of_forgets p hforgets
    rw [← hlast] at hlimbo
    refine hnever (pre ++ [call]) post ?_ taskId hlimbo
    rw [hsplit, List.append_assoc]
    rfl
  · intro hnever pre
    induction pre using List.reverseRecOn with
    | nil =>
      intro post _ taskId hlimbo
      have hfree := (hstart.limbo_iff).mp hlimbo
      rw [hnew taskId, hmax, Whereabouts.free.injEq] at hfree
      omega
    | append_singleton pre call ih =>
      intro post hsplit taskId
      rw [List.append_assoc] at hsplit
      have haudited := (hstart.afterAll p pre).1
      have htidier := haudited.tidier p (hnever pre call post hsplit)
      rw [hlast, htidier.audited.limbo_iff, htidier.maxGenerations]
      rcases htidier.landed taskId with heq | hne
      · rw [heq, ← haudited.limbo_iff]
        exact ih _ hsplit taskId
      · exact hne

/-- The holder of the only generation completes too late, and the task is gone. -/
def lateRun : List (Call ℚ) := [.grant (js "t") (js "n") 0, .complete (js "t") (js "n") 20]

theorem no_limbo_iff_late : ∃ start, create (10 : ℚ) 1 = some start ∧
    ((∀ pre post, lateRun = pre ++ post → ∀ taskId, ¬ (start.afterAll plain pre).Limbo taskId) ↔
      ∀ pre call post, lateRun = pre ++ call :: post →
        ¬ (start.afterAll plain pre).Forgets call) :=
  have hcreate : create (10 : ℚ) 1 = some _ := rfl
  ⟨_, hcreate, no_limbo_iff plain hcreate lateRun⟩

theorem late_completion_leaves_limbo :
    ∃ start, create (10 : ℚ) 1 = some start ∧ (start.afterAll plain lateRun).Limbo (js "t") := by
  refine ⟨_, rfl, ?_⟩
  unfold Limbo
  decide +kernel

end O2Fabric.LeaseTable
