/-
  O2Fabric.Lib.Threads

  Threads with private states over one shared state.  A thread acts on the
  shared state and on its own; the shared state also has actions of its own.
  Any interleaving of enabled actions is a run.

  `Reaches` is reachability along the actions a guard admits, so that a
  result about every run whose steps meet a condition is a result about it.
  `Reaches.invariant` is the induction rule for a property of the whole
  configuration, `Reaches.each` the rely-guarantee rule for a property of one
  thread.
-/

import Mathlib.Logic.Relation
import Mathlib.Logic.Function.Basic

namespace O2Fabric.Threads

universe u v w x y

/-- What a thread can do, and what can happen to the shared state alone.
    `none` is an action that is not enabled. -/
structure System (ι : Type u) (S : Type v) (L : Type w) (A : Type x) (B : Type y) where
  own : ι → A → S → L → Option (S × L)
  alone : B → S → Option S

/-- One action of a run. -/
inductive Event (ι : Type u) (A : Type x) (B : Type y)
  | own (thread : ι) (action : A)
  | alone (action : B)

/-- The shared state and every thread's own. -/
structure Config (ι : Type u) (S : Type v) (L : Type w) where
  shared : S
  locals : ι → L

section

variable {ι : Type u} {S : Type v} {L : Type w} {A : Type x} {B : Type y} [DecidableEq ι]

namespace System

/-- One action taken. -/
def step (sys : System ι S L A B) (c : Config ι S L) : Event ι A B → Option (Config ι S L)
  | .own i a =>
    (sys.own i a c.shared (c.locals i)).map fun next =>
      ⟨next.1, Function.update c.locals i next.2⟩
  | .alone b => (sys.alone b c.shared).map fun shared => ⟨shared, c.locals⟩

/-- A sequence of actions taken in order. -/
def run (sys : System ι S L A B) : Config ι S L → List (Event ι A B) → Option (Config ι S L)
  | c, [] => some c
  | c, e :: rest => (sys.step c e).bind fun c' => sys.run c' rest

/-- A sequence of actions each of which the guard admits where it is taken. -/
def runWhere (sys : System ι S L A B) (guard : Config ι S L → Event ι A B → Prop)
    [∀ c e, Decidable (guard c e)] : Config ι S L → List (Event ι A B) → Option (Config ι S L)
  | c, [] => some c
  | c, e :: rest =>
    if guard c e then (sys.step c e).bind fun c' => sys.runWhere guard c' rest else none

/-- Everything `step` can do. -/
theorem step_cases {sys : System ι S L A B} {c c' : Config ι S L} {e : Event ι A B}
    (h : sys.step c e = some c') :
    (∃ i a s l, e = .own i a ∧ sys.own i a c.shared (c.locals i) = some (s, l) ∧
      c' = ⟨s, Function.update c.locals i l⟩) ∨
    ∃ b s, e = .alone b ∧ sys.alone b c.shared = some s ∧ c' = ⟨s, c.locals⟩ := by
  cases e with
  | own i a =>
    simp only [step, Option.map_eq_some_iff] at h
    obtain ⟨⟨s, l⟩, hown, rfl⟩ := h
    exact Or.inl ⟨i, a, s, l, rfl, hown, rfl⟩
  | alone b =>
    simp only [step, Option.map_eq_some_iff] at h
    obtain ⟨s, halone, rfl⟩ := h
    exact Or.inr ⟨b, s, rfl, halone, rfl⟩

variable {events : List (Event ι A B)}

/-- What the guard lets through is a run. -/
theorem run_of_runWhere {sys : System ι S L A B} {guard : Config ι S L → Event ι A B → Prop}
    [∀ c e, Decidable (guard c e)] {c c' : Config ι S L} (h : sys.runWhere guard c events = some c') :
    sys.run c events = some c' := by
  induction events generalizing c with
  | nil => exact h
  | cons e rest ih =>
    simp only [runWhere, Option.ite_none_right_eq_some, Option.bind_eq_some_iff] at h
    obtain ⟨-, c₁, hstep, hrest⟩ := h
    simp only [run, Option.bind_eq_some_iff]
    exact ⟨c₁, hstep, ih hrest⟩

/-- A thread that takes no part in a run is where it was. -/
theorem run_locals {sys : System ι S L A B} {c c' : Config ι S L} (h : sys.run c events = some c')
    {i : ι} (hother : ∀ a, .own i a ∉ events) :
    c'.locals i = c.locals i := by
  induction events generalizing c with
  | nil =>
    cases h
    rfl
  | cons e rest ih =>
    simp only [run, Option.bind_eq_some_iff] at h
    obtain ⟨c₁, hstep, hrest⟩ := h
    rw [ih hrest fun a hin => hother a (List.mem_cons_of_mem _ hin)]
    obtain ⟨j, a, s, l, rfl, -, rfl⟩ | ⟨b, s, rfl, -, rfl⟩ := step_cases hstep
    · show Function.update c.locals j l i = c.locals i
      apply Function.update_of_ne
      rintro rfl
      exact hother a List.mem_cons_self
    · rfl

/-- Reachability along actions that the guard admits where they are taken. -/
def Reaches (sys : System ι S L A B) (guard : Config ι S L → Event ι A B → Prop) :
    Config ι S L → Config ι S L → Prop :=
  Relation.ReflTransGen fun c c' => ∃ e, guard c e ∧ sys.step c e = some c'

/-- No action is left out. -/
def anything : Config ι S L → Event ι A B → Prop := fun _ _ => True

variable {sys : System ι S L A B} {guard guard' : Config ι S L → Event ι A B → Prop}
  {c₀ c c' : Config ι S L}

namespace Reaches

theorem refl : sys.Reaches guard c₀ c₀ := Relation.ReflTransGen.refl

theorem tail {e : Event ι A B} (h : sys.Reaches guard c₀ c) (hguard : guard c e)
    (hstep : sys.step c e = some c') : sys.Reaches guard c₀ c' :=
  Relation.ReflTransGen.tail h ⟨e, hguard, hstep⟩

/-- A weaker guard admits the same runs. -/
theorem mono (h : sys.Reaches guard c₀ c) (hweaker : ∀ c e, guard c e → guard' c e) :
    sys.Reaches guard' c₀ c := by
  have hstep : ∀ c c' : Config ι S L, (∃ e, guard c e ∧ sys.step c e = some c') →
      ∃ e, guard' c e ∧ sys.step c e = some c' := by
    rintro c c' ⟨e, hguard, hnext⟩
    exact ⟨e, hweaker c e hguard, hnext⟩
  exact Relation.ReflTransGen.mono hstep _ _ h

/-- What holds at the start and is kept by every admitted action holds in
    every state reached. -/
theorem invariant {I : Config ι S L → Prop} (h : sys.Reaches guard c₀ c) (hinit : I c₀)
    (hstep : ∀ c e c', guard c e → I c → sys.step c e = some c' → I c') : I c := by
  induction h with
  | refl => exact hinit
  | tail _ hlast ih =>
    obtain ⟨e, hguard, hnext⟩ := hlast
    exact hstep _ e _ hguard ih hnext

/-- What holds in every state reached may be assumed of the states in between. -/
theorem assuming {A : Config ι S L → Prop} (h : sys.Reaches guard c₀ c)
    (hA : ∀ c, sys.Reaches guard c₀ c → A c) :
    sys.Reaches (fun c e => guard c e ∧ A c) c₀ c := by
  induction h with
  | refl => exact refl
  | tail hfirst hlast ih =>
    obtain ⟨e, hguard, hnext⟩ := hlast
    exact tail ih ⟨hguard, hA _ hfirst⟩ hnext

/-- Rely-guarantee.  `I i` is a property of thread `i` and the shared state;
    `G i` is what the actions of thread `i` may change of the shared state. -/
theorem each {I : ι → S → L → Prop} {G : ι → S → S → Prop} (h : sys.Reaches guard c₀ c)
    (hinit : ∀ i, I i c₀.shared (c₀.locals i))
    (hown : ∀ c i a s l, guard c (.own i a) → (∀ j, I j c.shared (c.locals j)) →
      sys.own i a c.shared (c.locals i) = some (s, l) → I i s l ∧ G i c.shared s)
    (hstable : ∀ i j s s' l, j ≠ i → G i s s' → I j s l → I j s' l)
    (halone : ∀ c b s j, guard c (.alone b) → sys.alone b c.shared = some s →
      I j c.shared (c.locals j) → I j s (c.locals j)) (j : ι) :
    I j c.shared (c.locals j) := by
  revert j
  apply h.invariant hinit
  intro c e c' hguard hI hstep j
  obtain ⟨i, a, s, l, rfl, hnext, rfl⟩ | ⟨b, s, rfl, hnext, rfl⟩ := step_cases hstep
  · obtain ⟨hkeep, hguarantee⟩ := hown c i a s l hguard hI hnext
    by_cases hji : j = i
    · subst hji
      show I j s (Function.update c.locals j l j)
      rw [Function.update_self]
      exact hkeep
    · show I j s (Function.update c.locals i l j)
      rw [Function.update_of_ne hji]
      exact hstable i j _ _ _ hji hguarantee (hI j)
  · exact halone c b s j hguard hnext (hI j)

/-- A property that only the thread's own state has a say in. -/
theorem eachLocal {I : ι → L → Prop} (h : sys.Reaches guard c₀ c)
    (hinit : ∀ i, I i (c₀.locals i))
    (hown : ∀ c i a s l, guard c (.own i a) → I i (c.locals i) →
      sys.own i a c.shared (c.locals i) = some (s, l) → I i l) (j : ι) :
    I j (c.locals j) := by
  apply each (I := fun i _ l => I i l) (G := fun _ _ _ => True) h hinit
  · intro c i a s l hguard hI hnext
    exact ⟨hown c i a s l hguard (hI i) hnext, trivial⟩
  · intro i j s s' l _ _ hI
    exact hI
  · intro c b s j _ _ hI
    exact hI

theorem head {e : Event ι A B} (hguard : guard c₀ e) (hstep : sys.step c₀ e = some c)
    (h : sys.Reaches guard c c') : sys.Reaches guard c₀ c' :=
  Relation.ReflTransGen.head ⟨e, hguard, hstep⟩ h

/-- A sequence of actions that runs to its end, with every action admitted. -/
theorem of_run {events : List (Event ι A B)} (hguard : ∀ c, ∀ e ∈ events, guard c e)
    (h : sys.run c₀ events = some c) : sys.Reaches guard c₀ c := by
  induction events generalizing c₀ with
  | nil =>
    cases h
    exact refl
  | cons e rest ih =>
    simp only [run, Option.bind_eq_some_iff] at h
    obtain ⟨c₁, hfirst, hrest⟩ := h
    exact head (hguard c₀ e List.mem_cons_self) hfirst
      (ih (fun c e he => hguard c e (List.mem_cons_of_mem _ he)) hrest)

/-- The same where the guard is asked on the way. -/
theorem of_runWhere [∀ c e, Decidable (guard c e)] {events : List (Event ι A B)}
    (h : sys.runWhere guard c₀ events = some c) : sys.Reaches guard c₀ c := by
  induction events generalizing c₀ with
  | nil =>
    cases h
    exact refl
  | cons e rest ih =>
    simp only [runWhere, Option.ite_none_right_eq_some, Option.bind_eq_some_iff] at h
    obtain ⟨hadmitted, c₁, hfirst, hrest⟩ := h
    exact head hadmitted hfirst (ih hrest)

end Reaches

/-- An action of a run was enabled where the run had got to, and the run went on
    from there. -/
theorem run_of_mem (h : sys.run c events = some c') {e : Event ι A B} (he : e ∈ events) :
    ∃ c₁ c₂, sys.step c₁ e = some c₂ ∧ sys.Reaches anything c₂ c' := by
  induction events generalizing c with
  | nil => exact absurd he List.not_mem_nil
  | cons first rest ih =>
    simp only [run, Option.bind_eq_some_iff] at h
    obtain ⟨c₁, hstep, hrest⟩ := h
    rcases List.mem_cons.mp he with rfl | hin
    · exact ⟨c, c₁, hstep, Reaches.of_run (fun _ _ _ => trivial) hrest⟩
    · exact ih hrest hin

end System

end

end O2Fabric.Threads
