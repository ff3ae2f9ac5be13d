/-
  O2Fabric.Lib.Total

  Programs that change a state and may stop, and what they are sure to end with.

  `Ends m post s` says that `m`, started in `s`, does not stop and ends as `post`
  says: it is the weakest precondition for total correctness.  A loop is given
  the number of rounds it may take, and the loop rule asks for an invariant and
  for a measure that every round lowers; it holds for every number of rounds
  above the measure.
-/

import Mathlib.Order.Basic

namespace O2Fabric

/-- Why a program stops. -/
inductive Stop (ε : Type)
  | exhausted
  | failed (fault : ε)
  deriving DecidableEq

/-- A program over states `σ` that may stop. -/
abbrev Program (σ ε α : Type) := StateT σ (Except (Stop ε)) α

namespace Program

variable {σ ε α β γ : Type} {m : Program σ ε α} {f : α → Program σ ε β} {s : σ}

/-- The program stops for a reason of its own. -/
def fail (fault : ε) : Program σ ε α := fun _ => .error (.failed fault)

/-- A loop of at most so many rounds; a round goes on with what it carries or leaves. -/
def loop (body : β → Program σ ε (β ⊕ α)) : Nat → β → Program σ ε α
  | 0, _ => fun _ => .error .exhausted
  | rounds + 1, b => do
    match ← body b with
    | .inl b => loop body rounds b
    | .inr a => pure a

/-- Started in `s` the program ends, as `post` says. -/
def Ends (m : Program σ ε α) (post : α → σ → Prop) (s : σ) : Prop :=
  ∃ a s', m s = .ok (a, s') ∧ post a s'

variable {post : α → σ → Prop}

theorem ends_pure {a : α} :
    Ends (pure a : Program σ ε α) post s ↔ post a s := by
  constructor
  · rintro ⟨a', s', h, hpost⟩
    cases h
    exact hpost
  · intro hpost
    exact ⟨a, s, rfl, hpost⟩

theorem ends_bind {post : β → σ → Prop} :
    Ends (m >>= f) post s ↔ Ends m (fun a s' => Ends (f a) post s') s := by
  show (∃ b s', (m s).bind (fun x => f x.1 x.2) = .ok (b, s') ∧ _) ↔ _
  unfold Ends
  cases hm : m s with
  | error stop => simp [Except.bind]
  | ok x =>
    obtain ⟨a, s'⟩ := x
    constructor
    · rintro ⟨b, s'', hrun, hpost⟩
      exact ⟨a, s', rfl, b, s'', hrun, hpost⟩
    · rintro ⟨_, _, heq, b, s'', hrun, hpost⟩
      cases heq
      exact ⟨b, s'', hrun, hpost⟩

theorem Ends.mono {post' : α → σ → Prop} (h : Ends m post s) (himp : ∀ a s', post a s' → post' a s') :
    Ends m post' s := by
  obtain ⟨a, s', hrun, hpost⟩ := h
  exact ⟨a, s', hrun, himp a s' hpost⟩

/-- What is carried out of a step is there for what follows. -/
theorem Ends.andThen {mid : α → σ → Prop} {post : β → σ → Prop} (h : Ends m mid s)
    (hnext : ∀ a s', mid a s' → Ends (f a) post s') : Ends (m >>= f) post s :=
  ends_bind.mpr (h.mono hnext)

/-- The loop rule: an invariant, and a measure that a round which goes on lowers. -/
theorem ends_loop {body : β → Program σ ε (β ⊕ α)} (inv : β → σ → Prop) (measure : β → σ → Nat)
    (hround : ∀ b s, inv b s → Ends (body b) (fun r s' => match r with
      | .inl b' => inv b' s' ∧ measure b' s' < measure b s
      | .inr a => post a s') s) {rounds : Nat} {b : β} {s : σ} (hinv : inv b s)
    (hrounds : measure b s < rounds) :
    Ends (loop body rounds b) post s := by
  induction rounds generalizing b s with
  | zero => omega
  | succ rounds ih =>
    rw [loop]
    refine (hround b s hinv).andThen ?_
    intro r s' hr
    cases r with
    | inl b' => exact ih hr.1 (by omega)
    | inr a => exact ends_pure.mpr hr

end Program

end O2Fabric
