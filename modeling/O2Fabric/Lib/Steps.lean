/-
  O2Fabric.Lib.Steps

  A state and the events that change it.  An event that cannot happen in a
  state has no next state.  Any sequence of events that can happen one after
  another is a run.

  `Reaches` is reachability along the events a guard admits, so that a result
  about every run whose steps meet a condition is a result about it.
  `Reaches.invariant` is the induction rule for it.
-/

import Mathlib.Logic.Relation

namespace O2Fabric.Steps

universe u v

variable {S : Type u} {E : Type v} {step : S → E → Option S} {guard guard' : S → E → Prop}
  {s₀ s s' : S}

/-- Events taken in order. -/
def run (step : S → E → Option S) : S → List E → Option S
  | s, [] => some s
  | s, e :: rest => (step s e).bind fun next => run step next rest

/-- Events taken in order, each of which the guard admits where it is taken. -/
def runWhere (step : S → E → Option S) (guard : S → E → Prop) [∀ s e, Decidable (guard s e)] :
    S → List E → Option S
  | s, [] => some s
  | s, e :: rest =>
    if guard s e then (step s e).bind fun next => runWhere step guard next rest else none

/-- Reachability along events that the guard admits where they are taken. -/
def Reaches (step : S → E → Option S) (guard : S → E → Prop) : S → S → Prop :=
  Relation.ReflTransGen fun s s' => ∃ e, guard s e ∧ step s e = some s'

/-- No event is left out. -/
def anything : S → E → Prop := fun _ _ => True

namespace Reaches

theorem refl : Reaches step guard s s := Relation.ReflTransGen.refl

theorem tail {e : E} (h : Reaches step guard s₀ s) (hguard : guard s e)
    (hstep : step s e = some s') : Reaches step guard s₀ s' :=
  Relation.ReflTransGen.tail h ⟨e, hguard, hstep⟩

theorem head {e : E} (hguard : guard s₀ e) (hstep : step s₀ e = some s)
    (h : Reaches step guard s s') : Reaches step guard s₀ s' :=
  Relation.ReflTransGen.head ⟨e, hguard, hstep⟩ h

/-- A weaker guard admits the same runs. -/
theorem mono (h : Reaches step guard s₀ s) (hweaker : ∀ s e, guard s e → guard' s e) :
    Reaches step guard' s₀ s := by
  have hlink : ∀ s s' : S, (∃ e, guard s e ∧ step s e = some s') →
      ∃ e, guard' s e ∧ step s e = some s' := by
    rintro s s' ⟨e, hguard, hnext⟩
    exact ⟨e, hweaker s e hguard, hnext⟩
  exact Relation.ReflTransGen.mono hlink _ _ h

/-- What holds at the start and is kept by every admitted event holds in every
    state reached. -/
theorem invariant {I : S → Prop} (h : Reaches step guard s₀ s) (hinit : I s₀)
    (hkeep : ∀ s e s', guard s e → I s → step s e = some s' → I s') : I s := by
  induction h with
  | refl => exact hinit
  | tail _ hlast ih =>
    obtain ⟨e, hguard, hnext⟩ := hlast
    exact hkeep _ e _ hguard ih hnext

/-- A sequence of events that runs to its end, with every event admitted. -/
theorem of_run {events : List E} (hguard : ∀ s, ∀ e ∈ events, guard s e)
    (h : run step s₀ events = some s) : Reaches step guard s₀ s := by
  induction events generalizing s₀ with
  | nil =>
    cases h
    exact refl
  | cons e rest ih =>
    simp only [run, Option.bind_eq_some_iff] at h
    obtain ⟨s₁, hfirst, hrest⟩ := h
    exact head (hguard s₀ e List.mem_cons_self) hfirst
      (ih (fun s e he => hguard s e (List.mem_cons_of_mem _ he)) hrest)

/-- The same where the guard is asked on the way. -/
theorem of_runWhere [∀ s e, Decidable (guard s e)] {events : List E}
    (h : runWhere step guard s₀ events = some s) : Reaches step guard s₀ s := by
  induction events generalizing s₀ with
  | nil =>
    cases h
    exact refl
  | cons e rest ih =>
    simp only [runWhere, Option.ite_none_right_eq_some, Option.bind_eq_some_iff] at h
    obtain ⟨hadmitted, s₁, hfirst, hrest⟩ := h
    exact head hadmitted hfirst (ih hrest)

end Reaches

/-! ## The states of a run -/

/-- A run with the states it goes through, the last first. -/
inductive Path (step : S → E → Option S) (guard : S → E → Prop) (s₀ : S) : List S → S → Prop
  | start : Path step guard s₀ [s₀] s₀
  | next {visited : List S} {s s' : S} {e : E} (h : Path step guard s₀ visited s)
      (hguard : guard s e) (hstep : step s e = some s') : Path step guard s₀ (s' :: visited) s'

theorem Path.reaches {visited : List S} (h : Path step guard s₀ visited s) :
    Reaches step guard s₀ s := by
  induction h with
  | start => exact Reaches.refl
  | next _ hguard hstep ih => exact ih.tail hguard hstep

/-- A run that goes on from the end of another. -/
theorem Path.run {visited : List S} (h : Path step guard s₀ visited s) {events : List E}
    (hguard : ∀ s, ∀ e ∈ events, guard s e) (hrun : Steps.run step s events = some s') :
    ∃ more, Path step guard s₀ more s' := by
  induction events generalizing s visited with
  | nil =>
    cases hrun
    exact ⟨visited, h⟩
  | cons e rest ih =>
    simp only [Steps.run, Option.bind_eq_some_iff] at hrun
    obtain ⟨s₁, hfirst, hrest⟩ := hrun
    exact ih (h.next (hguard s e List.mem_cons_self) hfirst)
      (fun s e he => hguard s e (List.mem_cons_of_mem _ he)) hrest

end O2Fabric.Steps
