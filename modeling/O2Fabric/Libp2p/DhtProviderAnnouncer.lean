/-
  O2Fabric.Libp2p.DhtProviderAnnouncer

  Which of the blocks a node holds it advertises.

  One event is what runs between two turns of the event loop: a block that the
  store has put, an observation, a call of `sweep`, `sweepSoon` or
  `retractAll`, the microtask `sweepSoon` has left, a sweep that reaches the
  front of the queue, and the settling of what a sweep or a retraction awaits.

  The router is seen from outside.  A `provide` that succeeds leaves the CID
  scheduled to be provided again, a `cancelReprovide` that succeeds takes it
  off the schedule, and a call that fails leaves the schedule as it was.
-/

import O2Fabric.Core.Cid
import O2Fabric.Lib.InsertionMap
import O2Fabric.Lib.Steps

namespace O2Fabric.Libp2p

/-! ## Maps of CIDs -/

/-- A `Map` from the text of a CID to the CID. -/
structure CidMap where
  byText : InsertionMap JsString Cid
  addressed : ∀ e ∈ byText.entries, e.1 = e.2.toText

namespace CidMap

def empty : CidMap := ⟨.empty, fun _ h => by cases h⟩

def has (m : CidMap) (cid : Cid) : Bool := m.byText.has cid.toText

def set (m : CidMap) (cid : Cid) : CidMap :=
  ⟨m.byText.set cid.toText cid, by
    intro e he
    rcases InsertionMap.mem_of_mem_write he with rfl | he
    · rfl
    · exact m.addressed e he⟩

def delete (m : CidMap) (cid : Cid) : CidMap :=
  ⟨m.byText.delete cid.toText, fun e he =>
    m.addressed e (InsertionMap.mem_entries_delete.mp he).1⟩

/-- The CIDs, in the order they are walked in. -/
def cids (m : CidMap) : List Cid := m.byText.values

variable {m : CidMap} {cid other : Cid}

theorem toText_inj : other.toText = cid.toText ↔ other = cid :=
  Cid.toText_injective.eq_iff

theorem has_set : (m.set cid).has other = true ↔ other = cid ∨ m.has other = true := by
  show ((m.byText.set _ _).get? _).isSome = true ↔ _ ∨ (m.byText.get? _).isSome = true
  rw [InsertionMap.get?_set]
  by_cases h : other = cid
  · simp [h]
  · rw [if_neg (mt toText_inj.mp h)]
    simp [h]

theorem has_delete : (m.delete cid).has other = true ↔ other ≠ cid ∧ m.has other = true := by
  show ((m.byText.delete _).get? _).isSome = true ↔ _ ∧ (m.byText.get? _).isSome = true
  rw [InsertionMap.get?_delete]
  by_cases h : other = cid
  · simp [h]
  · rw [if_neg (mt toText_inj.mp h)]
    simp [h]

theorem mem_cids : cid ∈ m.cids ↔ m.has cid = true := by
  show cid ∈ m.byText.values ↔ (m.byText.get? cid.toText).isSome = true
  rw [InsertionMap.mem_values_iff, Option.isSome_iff_exists]
  constructor
  · rintro ⟨key, hget⟩
    have hkey := m.addressed _ (InsertionMap.get?_eq_some.mp hget)
    dsimp only at hkey
    exact ⟨cid, hkey ▸ hget⟩
  · rintro ⟨cid', hget⟩
    have hkey := m.addressed _ (InsertionMap.get?_eq_some.mp hget)
    dsimp only at hkey
    have hsame : cid = cid' := toText_inj.mp hkey
    exact ⟨cid.toText, hsame ▸ hget⟩

theorem cids_nodup (m : CidMap) : m.cids.Nodup := by
  have hkeys : m.byText.entries.map Prod.fst = m.cids.map Cid.toText := by
    show _ = (m.byText.entries.map Prod.snd).map Cid.toText
    rw [List.map_map]
    exact List.map_congr_left m.addressed
  have hnodup := m.byText.keysNodup
  rw [hkeys] at hnodup
  exact List.Nodup.of_map _ hnodup

end CidMap

/-! ## Sweeps -/

/-- What `withhold` is: the predicate, or the stated decision. -/
inductive Withhold
  | predicate
  | advertisesEverythingItHolds
  deriving DecidableEq

/-- What the predicate comes to for one CID. -/
inductive Answer
  | cleared
  | withheld
  | threw
  deriving DecidableEq

/-- Whether a CID is withheld; nobody is asked where everything is advertised. -/
def Withhold.withheldNow : Withhold → Answer → Option Bool
  | .advertisesEverythingItHolds, .cleared => some false
  | .advertisesEverythingItHolds, _ => none
  | .predicate, .cleared => some false
  | .predicate, .withheld => some true
  -- "I could not check" is not "it is safe to say"
  | .predicate, .threw => some true

structure SweepOutcome where
  announced : Nat
  withheld : Nat
  retracted : Nat
  refused : Nat
  deriving DecidableEq

/-- What a sweep awaits, and the CIDs that half of it has left. -/
inductive SweepStage
  | asking (cid : Cid) (left : List Cid)
  | providing (cid : Cid) (left : List Cid)
  | rechecking (cid : Cid) (left : List Cid)
  | cancelling (cid : Cid) (left : List Cid)

structure Sweep where
  number : Nat
  outcome : SweepOutcome
  stage : SweepStage

/-- A call of `retractAll`: the CIDs it has left, of which it awaits the first. -/
structure Retraction where
  left : List Cid
  retracted : Nat

/-- What is seen of the announcer from outside. -/
inductive Seen
  | cleared (sweep : Nat) (cid : Cid)
  | provideCalled (sweep : Nat) (cid : Cid)
  | provided (cid : Cid)
  | retracted (cid : Cid)

structure DhtProviderAnnouncer where
  pending : CidMap
  announced : CidMap
  sweepScheduled : Bool
  /-- Sweeps that wait for the one before them. -/
  queued : Nat
  sweeping : Option Sweep
  sweeps : Nat
  outcomes : List SweepOutcome
  retractions : List Retraction
  /-- The observer of the block store, by whether it also asks for a sweep. -/
  observer : Option Bool
  beforeObserver : List Cid
  /-- What the router provides again. -/
  scheduled : List Cid
  /-- The latest first. -/
  seen : List Seen
  stored : List Cid
  observed : List Cid
  /-- What `retractAll` has removed and nothing has brought back. -/
  removed : List Cid

namespace DhtProviderAnnouncer

def start : DhtProviderAnnouncer where
  pending := .empty
  announced := .empty
  sweepScheduled := false
  queued := 0
  sweeping := none
  sweeps := 0
  outcomes := []
  retractions := []
  observer := none
  beforeObserver := []
  scheduled := []
  seen := []
  stored := []
  observed := []
  removed := []

variable (s : DhtProviderAnnouncer)

def observe (cid : Cid) : DhtProviderAnnouncer :=
  let told := { s with
    observed := cid :: s.observed
    removed := s.removed.filter fun other => decide (other ≠ cid) }
  if s.announced.has cid then told else { told with pending := s.pending.set cid }

def sweep : DhtProviderAnnouncer := { s with queued := s.queued + 1 }

def sweepSoon : DhtProviderAnnouncer :=
  if s.sweepScheduled then s else { s with sweepScheduled := true }

/-- The microtask of `sweepSoon`. -/
def turn : Option DhtProviderAnnouncer :=
  if s.sweepScheduled then some { s with sweepScheduled := false, queued := s.queued + 1 }
  else none

/-- On to the next CID of the second half, or to the end. -/
def recheck (number : Nat) (outcome : SweepOutcome) : List Cid → DhtProviderAnnouncer
  | cid :: left => { s with sweeping := some ⟨number, outcome, .rechecking cid left⟩ }
  | [] => { s with sweeping := none, outcomes := s.outcomes ++ [outcome] }

/-- On to the next CID of the first half, or to what is announced by then. -/
def ask (number : Nat) (outcome : SweepOutcome) : List Cid → DhtProviderAnnouncer
  | cid :: left => { s with sweeping := some ⟨number, outcome, .asking cid left⟩ }
  | [] => s.recheck number outcome s.announced.cids

/-- A sweep whose turn has come takes what is pending. -/
def sweepOnce : Option DhtProviderAnnouncer :=
  match s.sweeping, s.queued with
  | none, queued + 1 =>
    some ({ s with queued, pending := .empty, sweeps := s.sweeps + 1 }.ask s.sweeps
      ⟨0, 0, 0, 0⟩ s.pending.cids)
  | _, _ => none

/-- The withholding predicate has settled. -/
def answered (withhold : Withhold) (answer : Answer) : Option DhtProviderAnnouncer := do
  let withheld ← withhold.withheldNow answer
  match s.sweeping with
  | some ⟨number, outcome, .asking cid left⟩ =>
    if withheld then
      some ({ s with pending := s.pending.set cid }.ask number
        { outcome with withheld := outcome.withheld + 1 } left)
    else
      some { s with
        sweeping := some ⟨number, outcome, .providing cid left⟩
        seen := .provideCalled number cid :: .cleared number cid :: s.seen }
  | some ⟨number, outcome, .rechecking cid left⟩ =>
    if withheld then
      some { s with sweeping := some ⟨number, outcome, .cancelling cid left⟩ }
    else some (s.recheck number outcome left)
  | _ => none

/-- `provide` has settled. -/
def provided (ok : Bool) : Option DhtProviderAnnouncer :=
  match s.sweeping with
  | some ⟨number, outcome, .providing cid left⟩ =>
    if ok then
      some ({ s with
        announced := s.announced.set cid
        scheduled := cid :: s.scheduled
        seen := .provided cid :: s.seen }.ask number
          { outcome with announced := outcome.announced + 1 } left)
    else
      some ({ s with pending := s.pending.set cid }.ask number
        { outcome with refused := outcome.refused + 1 } left)
  | _ => none

/-- `cancelReprovide` has settled.  The CID is deleted whether or not it succeeded. -/
def unannounce (cid : Cid) (ok : Bool) : DhtProviderAnnouncer :=
  { s with
    announced := s.announced.delete cid
    scheduled := if ok then s.scheduled.filter fun other => decide (other ≠ cid) else s.scheduled
    seen := if ok then .retracted cid :: s.seen else s.seen }

/-- The `cancelReprovide` of a sweep has settled. -/
def cancelled (ok : Bool) : Option DhtProviderAnnouncer :=
  match s.sweeping with
  | some ⟨number, outcome, .cancelling cid left⟩ =>
    some ({ s.unannounce cid ok with
      pending := s.pending.set cid
      removed := s.removed.filter fun other => decide (other ≠ cid) }.recheck number
        { outcome with retracted := outcome.retracted + 1 } left)
  | _ => none

def retractAll : DhtProviderAnnouncer :=
  { s with retractions := s.retractions ++ [⟨s.announced.cids, 0⟩] }

/-- The `cancelReprovide` of a `retractAll` has settled. -/
def retracted (call : Nat) (ok : Bool) : Option DhtProviderAnnouncer :=
  match s.retractions[call]? with
  | some ⟨cid :: left, count⟩ =>
    some { s.unannounce cid ok with
      retractions := s.retractions.set call ⟨left, count + 1⟩
      removed := if s.announced.has cid then cid :: s.removed else s.removed }
  | _ => none

/-! ## The block store that is observed -/

/-- The observer is called. -/
def notify (soon : Bool) (cid : Cid) : DhtProviderAnnouncer :=
  if soon then (s.observe cid).sweepSoon else s.observe cid

/-- The inner store has put a block. -/
def put (cid : Cid) : DhtProviderAnnouncer :=
  let stored := { s with stored := cid :: s.stored }
  match s.observer with
  | none => { stored with beforeObserver := s.beforeObserver ++ [cid] }
  | some soon => stored.notify soon cid

def observeWith (soon : Bool) : DhtProviderAnnouncer :=
  s.beforeObserver.foldl (fun s cid => s.notify soon cid)
    { s with observer := some soon, beforeObserver := [] }

/-! ## Events -/

inductive Event
  | put (cid : Cid)
  | observeWith (soon : Bool)
  | observe (cid : Cid)
  | sweep
  | sweepSoon
  | turn
  | sweepOnce
  | answered (answer : Answer)
  | provided (ok : Bool)
  | cancelled (ok : Bool)
  | retractAll
  | retracted (call : Nat) (ok : Bool)

def step (withhold : Withhold) (s : DhtProviderAnnouncer) : Event → Option DhtProviderAnnouncer
  | .put cid => some (s.put cid)
  | .observeWith soon => some (s.observeWith soon)
  | .observe cid => some (s.observe cid)
  | .sweep => some s.sweep
  | .sweepSoon => some s.sweepSoon
  | .turn => s.turn
  | .sweepOnce => s.sweepOnce
  | .answered answer => s.answered withhold answer
  | .provided ok => s.provided ok
  | .cancelled ok => s.cancelled ok
  | .retractAll => some s.retractAll
  | .retracted call ok => s.retracted call ok

end DhtProviderAnnouncer

end O2Fabric.Libp2p

/-! # Bookkeeping

What the announcer's two sets say, over whole runs.

They say what they should as long as no CID is observed again between the
sweep that takes it and the success of its `provide`, and no
`cancelReprovide` of a CID that is still announced fails.  The first leaves
the CID in both sets, the second takes it out of `announced` while the
router goes on providing it.
-/

namespace O2Fabric.Libp2p

/-- A `provide` of the CID is called, or has succeeded. -/
def Seen.Provides (cid : Cid) : Seen → Prop
  | .provideCalled _ other => other = cid
  | .provided other => other = cid
  | _ => False

namespace DhtProviderAnnouncer

open O2Fabric.Steps

/-! ## What holds -/

/-- Every time the CID was provided it has been retracted since. -/
def RetractedSince (cid : Cid) (seen : List Seen) : Prop :=
  ∀ newer older, seen = newer ++ .provided cid :: older → .retracted cid ∈ newer

/-- What the bookkeeping comes to. -/
structure Sound (s : DhtProviderAnnouncer) : Prop where
  disjoint : ∀ cid, s.announced.has cid = true → s.pending.has cid = false
  covered : s.sweeping = none → ∀ cid ∈ s.observed,
    s.pending.has cid = true ∨ s.announced.has cid = true ∨ cid ∈ s.removed
  /-- Nothing the store has put is unaccounted for. -/
  buffered : ∀ cid ∈ s.stored, cid ∈ s.observed ∨ s.observer = none ∧ cid ∈ s.beforeObserver
  cleared : ∀ sweep cid older, .provideCalled sweep cid :: older <:+ s.seen →
    .cleared sweep cid ∈ older
  once : ∀ seen cid older, seen :: older <:+ s.seen → seen.Provides cid → RetractedSince cid older
  scheduled : ∀ cid, cid ∈ s.scheduled ↔ s.announced.has cid = true

/-- The CID whose `provide` succeeds is not pending, and the CID whose
    `cancelReprovide` fails is not announced. -/
def Clean (s : DhtProviderAnnouncer) : Event → Prop
  | .provided true => ∀ number outcome cid left,
      s.sweeping = some ⟨number, outcome, .providing cid left⟩ → s.pending.has cid = false
  | .cancelled false => ∀ number outcome cid left,
      s.sweeping = some ⟨number, outcome, .cancelling cid left⟩ → s.announced.has cid = false
  | .retracted call false => ∀ cid left count,
      s.retractions[call]? = some ⟨cid :: left, count⟩ → s.announced.has cid = false
  | _ => True

/-- The CIDs the first half of a sweep has taken and not come to. -/
def takenBy : Option Sweep → List Cid
  | some ⟨_, _, .asking cid left⟩ => cid :: left
  | some ⟨_, _, .providing cid left⟩ => cid :: left
  | _ => []

variable {withhold : Withhold} {s s' : DhtProviderAnnouncer} {taken waiting left : List Cid}
  {cid : Cid} {seen : List Seen}

/-! ## What was seen -/

theorem RetractedSince.cons (h : RetractedSince cid seen) {e : Seen} (hother : e ≠ .provided cid) :
    RetractedSince cid (e :: seen) := by
  intro newer older hsplit
  cases newer with
  | nil => exact absurd (List.cons.inj hsplit).1 hother
  | cons e' newer =>
    have hrest := (List.cons.inj hsplit).2
    exact List.mem_cons_of_mem _ (h newer older hrest)

theorem RetractedSince.retracted : RetractedSince cid (.retracted cid :: seen) := by
  intro newer older hsplit
  cases newer with
  | nil => cases (List.cons.inj hsplit).1
  | cons e newer =>
    rw [← (List.cons.inj hsplit).1]
    exact List.mem_cons_self

/-! ## Between two events -/

/-- What holds where a sweep has taken some CIDs and has not come to them, and the
    observer has not been called for some that the store has put. -/
structure Kept (taken waiting : List Cid) (s : DhtProviderAnnouncer) : Prop where
  disjoint : ∀ cid, s.announced.has cid = true → s.pending.has cid = false
  covered : ∀ cid ∈ s.observed, s.pending.has cid = true ∨ s.announced.has cid = true ∨
    cid ∈ s.removed ∨ cid ∈ taken
  takenNodup : taken.Nodup
  unannounced : ∀ cid ∈ taken, s.announced.has cid = false
  buffered : ∀ cid ∈ s.stored, cid ∈ s.observed ∨ cid ∈ waiting
  drained : s.observer ≠ none → s.beforeObserver = []
  cleared : ∀ sweep cid older, .provideCalled sweep cid :: older <:+ s.seen →
    .cleared sweep cid ∈ older
  once : ∀ seen cid older, seen :: older <:+ s.seen → seen.Provides cid → RetractedSince cid older
  since : ∀ cid, s.announced.has cid = false → RetractedSince cid s.seen
  scheduled : ∀ cid, cid ∈ s.scheduled ↔ s.announced.has cid = true

def KeptNow (s : DhtProviderAnnouncer) : Prop := Kept (takenBy s.sweeping) s.beforeObserver s

theorem KeptNow.taking (h : KeptNow s) {sweeping : Option Sweep} (hsweeping : s.sweeping = sweeping) :
    Kept (takenBy sweeping) s.beforeObserver s := hsweeping ▸ h

/-- Where a sweep stands, and which calls are under way, is not what is kept. -/
theorem Kept.control (h : Kept taken waiting s) (sweepScheduled : Bool) (queued : Nat)
    (sweeping : Option Sweep) (sweeps : Nat) (outcomes : List SweepOutcome)
    (retractions : List Retraction) :
    Kept taken waiting
      { s with sweepScheduled, queued, sweeping, sweeps, outcomes, retractions } :=
  ⟨h.disjoint, h.covered, h.takenNodup, h.unannounced, h.buffered, h.drained, h.cleared, h.once,
    h.since, h.scheduled⟩

theorem Kept.recheck (h : Kept [] s.beforeObserver s) (number : Nat) (outcome : SweepOutcome)
    (left : List Cid) : KeptNow (s.recheck number outcome left) := by
  cases left with
  | nil => exact h.control _ _ none _ (s.outcomes ++ [outcome]) _
  | cons cid left => exact h.control _ _ (some ⟨number, outcome, .rechecking cid left⟩) _ _ _

theorem Kept.ask (h : Kept left s.beforeObserver s) (number : Nat) (outcome : SweepOutcome) :
    KeptNow (s.ask number outcome left) := by
  cases left with
  | nil => exact h.recheck number outcome s.announced.cids
  | cons cid left => exact h.control _ _ (some ⟨number, outcome, .asking cid left⟩) _ _ _

/-! ## One event -/

theorem Kept.observe (h : Kept taken (cid :: waiting) s) : Kept taken waiting (s.observe cid) := by
  have hbuffered : ∀ other ∈ s.stored, other ∈ cid :: s.observed ∨ other ∈ waiting := by
    intro other hother
    rcases h.buffered other hother with hseen | hwaiting
    · exact Or.inl (List.mem_cons_of_mem _ hseen)
    · rcases List.mem_cons.mp hwaiting with rfl | hwaiting
      · exact Or.inl List.mem_cons_self
      · exact Or.inr hwaiting
  -- what was covered before, with the CID no longer among the removed
  have hothers : ∀ other ∈ s.observed, other ≠ cid →
      s.pending.has other = true ∨ s.announced.has other = true ∨
        other ∈ (s.removed.filter fun other => decide (other ≠ cid)) ∨ other ∈ taken := by
    intro other hother hne
    rcases h.covered other hother with hpending | hannounced | hremoved | htaken
    · exact Or.inl hpending
    · exact Or.inr (Or.inl hannounced)
    · exact Or.inr (Or.inr (Or.inl (List.mem_filter.mpr ⟨hremoved, decide_eq_true hne⟩)))
    · exact Or.inr (Or.inr (Or.inr htaken))
  show Kept taken waiting (if s.announced.has cid = true then _ else _)
  split
  case isTrue hannounced =>
    refine ⟨h.disjoint, ?_, h.takenNodup, h.unannounced, hbuffered, h.drained, h.cleared, h.once,
      h.since, h.scheduled⟩
    intro other hother
    by_cases hsame : other = cid
    · rw [hsame]
      exact Or.inr (Or.inl hannounced)
    · exact hothers other ((List.mem_cons.mp hother).resolve_left hsame) hsame
  case isFalse hnot =>
    refine ⟨?_, ?_, h.takenNodup, h.unannounced, hbuffered, h.drained, h.cleared, h.once, h.since,
      h.scheduled⟩
    · intro other hother
      have hne : other ≠ cid := by
        rintro rfl
        exact hnot hother
      have hpending := h.disjoint other hother
      rw [Bool.eq_false_iff] at hpending ⊢
      intro hset
      rcases CidMap.has_set.mp hset with hsame | hset
      · exact hne hsame
      · exact hpending hset
    · intro other hother
      by_cases hsame : other = cid
      · exact Or.inl (CidMap.has_set.mpr (Or.inl hsame))
      · have hbefore := hothers other ((List.mem_cons.mp hother).resolve_left hsame) hsame
        exact hbefore.imp_left fun hpending => CidMap.has_set.mpr (Or.inr hpending)

theorem Kept.notify (h : Kept taken (cid :: waiting) s) (soon : Bool) :
    Kept taken waiting (s.notify soon cid) := by
  unfold DhtProviderAnnouncer.notify
  split
  · unfold DhtProviderAnnouncer.sweepSoon
    split
    · exact h.observe
    · exact h.observe.control true _ _ _ _ _
  · exact h.observe

/-- The observer neither moves a sweep nor touches the buffer. -/
theorem notify_leaves (s : DhtProviderAnnouncer) (soon : Bool) (cid : Cid) :
    (s.notify soon cid).sweeping = s.sweeping ∧
    (s.notify soon cid).beforeObserver = s.beforeObserver ∧
    (s.notify soon cid).observer = s.observer := by
  have hobserve : (s.observe cid).sweeping = s.sweeping ∧
      (s.observe cid).beforeObserver = s.beforeObserver ∧
      (s.observe cid).observer = s.observer := by
    unfold DhtProviderAnnouncer.observe
    dsimp only
    split <;> exact ⟨rfl, rfl, rfl⟩
  unfold DhtProviderAnnouncer.notify
  split
  · unfold DhtProviderAnnouncer.sweepSoon
    split <;> exact hobserve
  · exact hobserve

theorem Kept.now (h : Kept taken waiting s) {sweeping : Option Sweep}
    (hsweeping : s.sweeping = sweeping) (htaken : takenBy sweeping = taken)
    (hwaiting : s.beforeObserver = waiting) : KeptNow s := by
  rw [KeptNow, hsweeping, htaken, hwaiting]
  exact h

theorem KeptNow.put (h : KeptNow s) (cid : Cid) : KeptNow (s.put cid) := by
  have hstored : ∀ waiting' : List Cid, cid ∈ waiting' →
      (∀ other ∈ s.beforeObserver, other ∈ waiting') →
      ∀ other ∈ cid :: s.stored, other ∈ s.observed ∨ other ∈ waiting' := by
    intro waiting' hmem hmore other hother
    rcases List.mem_cons.mp hother with rfl | hother
    · exact Or.inr hmem
    · exact (h.buffered other hother).imp_right (hmore other)
  unfold DhtProviderAnnouncer.put
  cases hobserver : s.observer with
  | none =>
    have hbuffered := hstored (s.beforeObserver ++ [cid]) (by simp)
      fun other hother => List.mem_append_left _ hother
    exact ⟨h.disjoint, h.covered, h.takenNodup, h.unannounced, hbuffered,
      fun hsome => absurd rfl hsome, h.cleared, h.once, h.since, h.scheduled⟩
  | some soon =>
    have hbuffered := hstored (cid :: s.beforeObserver) List.mem_cons_self
      fun other hother => List.mem_cons_of_mem _ hother
    have hkept : Kept (takenBy s.sweeping) (cid :: s.beforeObserver)
        { s with observer := some soon, stored := cid :: s.stored } :=
      ⟨h.disjoint, h.covered, h.takenNodup, h.unannounced, hbuffered,
        fun _ => h.drained (by rw [hobserver]; exact Option.some_ne_none _), h.cleared, h.once,
        h.since, h.scheduled⟩
    obtain ⟨hsweeping, hbefore, -⟩ := notify_leaves
      { s with observer := some soon, stored := cid :: s.stored } soon cid
    exact (hkept.notify soon).now hsweeping rfl hbefore

theorem Kept.replay {buffered : List Cid} (soon : Bool) (h : Kept taken buffered s) :
    Kept taken [] (buffered.foldl (fun s cid => s.notify soon cid) s) := by
  induction buffered generalizing s with
  | nil => exact h
  | cons cid rest ih => exact ih (h.notify soon)

theorem replay_leaves (buffered : List Cid) (soon : Bool) (s : DhtProviderAnnouncer) :
    (buffered.foldl (fun s cid => s.notify soon cid) s).sweeping = s.sweeping ∧
    (buffered.foldl (fun s cid => s.notify soon cid) s).beforeObserver = s.beforeObserver := by
  induction buffered generalizing s with
  | nil => exact ⟨rfl, rfl⟩
  | cons cid rest ih =>
    obtain ⟨hsweeping, hbefore⟩ := ih (s.notify soon cid)
    obtain ⟨hsweeping', hbefore', -⟩ := notify_leaves s soon cid
    exact ⟨hsweeping.trans hsweeping', hbefore.trans hbefore'⟩

theorem KeptNow.observeWith (h : KeptNow s) (soon : Bool) : KeptNow (s.observeWith soon) := by
  have hkept : Kept (takenBy s.sweeping) s.beforeObserver
      { s with observer := some soon, beforeObserver := [] } :=
    ⟨h.disjoint, h.covered, h.takenNodup, h.unannounced, h.buffered, fun _ => rfl, h.cleared,
      h.once, h.since, h.scheduled⟩
  obtain ⟨hsweeping, hbefore⟩ := replay_leaves s.beforeObserver soon
    { s with observer := some soon, beforeObserver := [] }
  exact (hkept.replay soon).now hsweeping rfl hbefore

/-- A CID that is taken back. -/
theorem Kept.pend (h : Kept (cid :: left) waiting s) :
    Kept left waiting { s with pending := s.pending.set cid } := by
  obtain ⟨hcid, hleft⟩ := List.nodup_cons.mp h.takenNodup
  refine ⟨?_, ?_, hleft, fun other hother => h.unannounced other (List.mem_cons_of_mem _ hother),
    h.buffered, h.drained, h.cleared, h.once, h.since, h.scheduled⟩
  · intro other hother
    have hne : other ≠ cid := by
      rintro rfl
      rw [h.unannounced other List.mem_cons_self] at hother
      cases hother
    have hpending := h.disjoint other hother
    rw [Bool.eq_false_iff] at hpending ⊢
    intro hset
    rcases CidMap.has_set.mp hset with hsame | hset
    · exact hne hsame
    · exact hpending hset
  · intro other hother
    rcases h.covered other hother with hpending | hannounced | hremoved | htaken
    · exact Or.inl (CidMap.has_set.mpr (Or.inr hpending))
    · exact Or.inr (Or.inl hannounced)
    · exact Or.inr (Or.inr (Or.inl hremoved))
    · rcases List.mem_cons.mp htaken with hsame | htaken
      · exact Or.inl (CidMap.has_set.mpr (Or.inl hsame))
      · exact Or.inr (Or.inr (Or.inr htaken))

/-- The predicate clears a CID, and it is provided. -/
theorem Kept.clear (h : Kept (cid :: left) waiting s) (number : Nat) :
    Kept (cid :: left) waiting
      { s with seen := .provideCalled number cid :: .cleared number cid :: s.seen } := by
  refine ⟨h.disjoint, h.covered, h.takenNodup, h.unannounced, h.buffered, h.drained, ?_, ?_, ?_,
    h.scheduled⟩
  · intro sweep other older hsuffix
    rcases List.suffix_cons_iff.mp hsuffix with hlast | hsuffix
    · cases hlast
      exact List.mem_cons_self
    · rcases List.suffix_cons_iff.mp hsuffix with hlast | hsuffix
      · cases hlast
      · exact h.cleared sweep other older hsuffix
  · intro seen other older hsuffix hprovides
    rcases List.suffix_cons_iff.mp hsuffix with hlast | hsuffix
    · cases hlast
      have hsame : cid = other := hprovides
      subst hsame
      exact (h.since cid (h.unannounced cid List.mem_cons_self)).cons (fun hsame => by cases hsame)
    · rcases List.suffix_cons_iff.mp hsuffix with hlast | hsuffix
      · cases hlast
        cases hprovides
      · exact h.once seen other older hsuffix hprovides
  · intro other hother
    exact ((h.since other hother).cons (fun hsame => by cases hsame)).cons
      (fun hsame => by cases hsame)

/-- A CID that is not pending is provided. -/
theorem Kept.announce (h : Kept (cid :: left) waiting s) (hclean : s.pending.has cid = false) :
    Kept left waiting { s with
      announced := s.announced.set cid
      scheduled := cid :: s.scheduled
      seen := .provided cid :: s.seen } := by
  obtain ⟨hcid, hleft⟩ := List.nodup_cons.mp h.takenNodup
  have hnew : ∀ other, (s.announced.set cid).has other = false →
      other ≠ cid ∧ s.announced.has other = false := by
    intro other hother
    rw [Bool.eq_false_iff] at hother
    have hneither := mt CidMap.has_set.mpr hother
    exact ⟨fun hsame => hneither (Or.inl hsame),
      Bool.eq_false_iff.mpr fun hhas => hneither (Or.inr hhas)⟩
  refine ⟨?_, ?_, hleft, ?_, h.buffered, h.drained, ?_, ?_, ?_, ?_⟩
  · intro other hother
    rcases CidMap.has_set.mp hother with hsame | hother
    · rw [hsame]
      exact hclean
    · exact h.disjoint other hother
  · intro other hother
    rcases h.covered other hother with hpending | hannounced | hremoved | htaken
    · exact Or.inl hpending
    · exact Or.inr (Or.inl (CidMap.has_set.mpr (Or.inr hannounced)))
    · exact Or.inr (Or.inr (Or.inl hremoved))
    · rcases List.mem_cons.mp htaken with hsame | htaken
      · exact Or.inr (Or.inl (CidMap.has_set.mpr (Or.inl hsame)))
      · exact Or.inr (Or.inr (Or.inr htaken))
  · intro other hother
    have hne : other ≠ cid := by
      rintro rfl
      exact hcid hother
    have hbefore := h.unannounced other (List.mem_cons_of_mem _ hother)
    rw [Bool.eq_false_iff] at hbefore ⊢
    intro hset
    rcases CidMap.has_set.mp hset with hsame | hset
    · exact hne hsame
    · exact hbefore hset
  · intro sweep other older hsuffix
    rcases List.suffix_cons_iff.mp hsuffix with hlast | hsuffix
    · cases hlast
    · exact h.cleared sweep other older hsuffix
  · intro seen other older hsuffix hprovides
    rcases List.suffix_cons_iff.mp hsuffix with hlast | hsuffix
    · cases hlast
      have hsame : cid = other := hprovides
      subst hsame
      exact h.since cid (h.unannounced cid List.mem_cons_self)
    · exact h.once seen other older hsuffix hprovides
  · intro other hother
    obtain ⟨hne, hbefore⟩ := hnew other hother
    refine (h.since other hbefore).cons ?_
    intro hsame
    cases hsame
    exact hne rfl
  · intro other
    rw [List.mem_cons, h.scheduled other]
    exact CidMap.has_set.symm

variable {ok : Bool}

/-- A CID is retracted, or the call has failed for one that is not announced, and what
    `announced` loses by it is elsewhere. -/
theorem Kept.unannounce (h : Kept taken waiting s)
    (hclean : ok = false → s.announced.has cid = false) {pending : CidMap} {removed : List Cid}
    (hpending : ∀ other, pending.has other = true → other = cid ∨ s.pending.has other = true)
    (hcovers : ∀ other, s.pending.has other = true ∨ other ∈ s.removed ∨
      other = cid ∧ s.announced.has cid = true → pending.has other = true ∨ other ∈ removed) :
    Kept taken waiting { s.unannounce cid ok with pending, removed } := by
  -- what is not announced any more was not before, or is the CID retracted just now
  have hsince : ∀ other, (s.announced.delete cid).has other = false →
      s.announced.has other = false ∨ other = cid ∧ ok = true := by
    intro other hother
    rw [Bool.eq_false_iff] at hother ⊢
    by_cases hsame : other = cid
    · cases ok with
      | true => exact Or.inr ⟨hsame, rfl⟩
      | false => exact Or.inl (hsame ▸ Bool.eq_false_iff.mp (hclean rfl))
    · exact Or.inl fun hhas => hother (CidMap.has_delete.mpr ⟨hsame, hhas⟩)
  have hdisjoint : ∀ other, (s.announced.delete cid).has other = true →
      pending.has other = false := by
    intro other hother
    obtain ⟨hne, hbefore⟩ := CidMap.has_delete.mp hother
    have hnot := h.disjoint other hbefore
    rw [Bool.eq_false_iff] at hnot ⊢
    exact fun hhas => ((hpending other hhas).resolve_left hne |> hnot)
  have hcovered : ∀ other ∈ s.observed, pending.has other = true ∨
      (s.announced.delete cid).has other = true ∨ other ∈ removed ∨ other ∈ taken := by
    intro other hother
    have helse : s.pending.has other = true ∨ other ∈ s.removed ∨
        other = cid ∧ s.announced.has cid = true →
        pending.has other = true ∨ (s.announced.delete cid).has other = true ∨
          other ∈ removed ∨ other ∈ taken := fun hwhere =>
      (hcovers other hwhere).imp_right fun hremoved => Or.inr (Or.inl hremoved)
    rcases h.covered other hother with hwas | hannounced | hremoved | htaken
    · exact helse (Or.inl hwas)
    · by_cases hsame : other = cid
      · exact helse (Or.inr (Or.inr ⟨hsame, hsame ▸ hannounced⟩))
      · exact Or.inr (Or.inl (CidMap.has_delete.mpr ⟨hsame, hannounced⟩))
    · exact helse (Or.inr (Or.inl hremoved))
    · exact Or.inr (Or.inr (Or.inr htaken))
  have hunannounced : ∀ other ∈ taken, (s.announced.delete cid).has other = false := by
    intro other hother
    have hbefore := h.unannounced other hother
    rw [Bool.eq_false_iff] at hbefore ⊢
    exact fun hhas => hbefore (CidMap.has_delete.mp hhas).2
  cases ok with
  | false =>
    refine ⟨hdisjoint, hcovered, h.takenNodup, hunannounced, h.buffered, h.drained, h.cleared,
      h.once, ?_, ?_⟩
    · intro other hother
      rcases hsince other hother with hbefore | ⟨-, hok⟩
      · exact h.since other hbefore
      · cases hok
    · intro other
      show other ∈ s.scheduled ↔ (s.announced.delete cid).has other = true
      rw [h.scheduled other, CidMap.has_delete]
      -- the CID was not announced, so nothing has been deleted
      refine ⟨fun hhas => ⟨?_, hhas⟩, And.right⟩
      rintro rfl
      rw [hclean rfl] at hhas
      cases hhas
  | true =>
    refine ⟨hdisjoint, hcovered, h.takenNodup, hunannounced, h.buffered, h.drained, ?_, ?_, ?_, ?_⟩
    · intro sweep other older hsuffix
      rcases List.suffix_cons_iff.mp hsuffix with hlast | hsuffix
      · cases hlast
      · exact h.cleared sweep other older hsuffix
    · intro seen other older hsuffix hprovides
      rcases List.suffix_cons_iff.mp hsuffix with hlast | hsuffix
      · cases hlast
        cases hprovides
      · exact h.once seen other older hsuffix hprovides
    · intro other hother
      rcases hsince other hother with hbefore | ⟨rfl, -⟩
      · exact (h.since other hbefore).cons (fun hsame => by cases hsame)
      · exact RetractedSince.retracted
    · intro other
      show other ∈ (s.scheduled.filter fun other => decide (other ≠ cid))
        ↔ (s.announced.delete cid).has other = true
      rw [List.mem_filter, h.scheduled other, CidMap.has_delete, decide_eq_true_eq, and_comm]

theorem KeptNow.answered (h : KeptNow s) {answer : Answer}
    (hstep : s.answered withhold answer = some s') : KeptNow s' := by
  obtain ⟨withheld, -, hstep⟩ := Option.bind_eq_some_iff.mp hstep
  split at hstep
  case h_1 number outcome cid left hsweeping =>
    have hkept : Kept (cid :: left) s.beforeObserver s := h.taking hsweeping
    split at hstep
    · cases hstep
      exact hkept.pend.ask number _
    · cases hstep
      exact (hkept.clear number).control _ _ (some ⟨number, outcome, .providing cid left⟩) _ _ _
  case h_2 number outcome cid left hsweeping =>
    have hkept : Kept [] s.beforeObserver s := h.taking hsweeping
    split at hstep
    · cases hstep
      exact hkept.control _ _ (some ⟨number, outcome, .cancelling cid left⟩) _ _ _
    · cases hstep
      exact hkept.recheck number outcome left
  case h_3 => cases hstep

theorem KeptNow.provided (h : KeptNow s) (hclean : Clean s (.provided ok))
    (hstep : s.provided ok = some s') : KeptNow s' := by
  unfold DhtProviderAnnouncer.provided at hstep
  split at hstep
  case h_2 => cases hstep
  case h_1 number outcome cid left hsweeping =>
    have hkept : Kept (cid :: left) s.beforeObserver s := h.taking hsweeping
    cases ok with
    | false =>
      cases hstep
      exact hkept.pend.ask number _
    | true =>
      cases hstep
      exact (hkept.announce (hclean number outcome cid left hsweeping)).ask number _

theorem KeptNow.cancelled (h : KeptNow s) (hclean : Clean s (.cancelled ok))
    (hstep : s.cancelled ok = some s') : KeptNow s' := by
  unfold DhtProviderAnnouncer.cancelled at hstep
  split at hstep
  case h_2 => cases hstep
  case h_1 number outcome cid left hsweeping =>
    cases hstep
    have hkept : Kept [] s.beforeObserver s := h.taking hsweeping
    have hfailed : ok = false → s.announced.has cid = false := by
      rintro rfl
      exact hclean number outcome cid left hsweeping
    have hback : Kept [] s.beforeObserver { s.unannounce cid ok with
        pending := s.pending.set cid
        removed := s.removed.filter fun other => decide (other ≠ cid) } := by
      refine hkept.unannounce hfailed (fun other => CidMap.has_set.mp) ?_
      rintro other (hpending | hremoved | ⟨hsame, -⟩)
      · exact Or.inl (CidMap.has_set.mpr (Or.inr hpending))
      · by_cases hsame : other = cid
        · exact Or.inl (CidMap.has_set.mpr (Or.inl hsame))
        · exact Or.inr (List.mem_filter.mpr ⟨hremoved, decide_eq_true hsame⟩)
      · exact Or.inl (CidMap.has_set.mpr (Or.inl hsame))
    exact hback.recheck number _ left

theorem KeptNow.retracted (h : KeptNow s) {call : Nat} (hclean : Clean s (.retracted call ok))
    (hstep : s.retracted call ok = some s') :
    KeptNow s' := by
  unfold DhtProviderAnnouncer.retracted at hstep
  split at hstep
  case h_2 => cases hstep
  case h_1 cid left count hcall =>
    cases hstep
    have hfailed : ok = false → s.announced.has cid = false := by
      rintro rfl
      exact hclean cid left count hcall
    have hgone : Kept (takenBy s.sweeping) s.beforeObserver { s.unannounce cid ok with
        pending := s.pending
        removed := if s.announced.has cid then cid :: s.removed else s.removed } := by
      refine Kept.unannounce h hfailed (fun other => Or.inr) ?_
      rintro other (hpending | hremoved | ⟨rfl, hannounced⟩)
      · exact Or.inl hpending
      · refine Or.inr ?_
        split
        · exact List.mem_cons_of_mem _ hremoved
        · exact hremoved
      · rw [if_pos hannounced]
        exact Or.inr List.mem_cons_self
    exact hgone.control _ _ _ _ _ (s.retractions.set call ⟨left, count + 1⟩)

theorem KeptNow.sweepOnce (h : KeptNow s) (hstep : s.sweepOnce = some s') : KeptNow s' := by
  unfold DhtProviderAnnouncer.sweepOnce at hstep
  split at hstep
  case h_2 => cases hstep
  case h_1 queued hsweeping hqueued =>
    cases hstep
    have hkept : Kept [] s.beforeObserver s := h.taking hsweeping
    -- what was pending is what the sweep takes
    have hswap : Kept s.pending.cids s.beforeObserver { s with pending := .empty } := by
      refine ⟨fun _ _ => rfl, ?_, s.pending.cids_nodup, ?_, hkept.buffered, hkept.drained,
        hkept.cleared, hkept.once, hkept.since, hkept.scheduled⟩
      · intro cid hcid
        rcases hkept.covered cid hcid with hpending | hannounced | hremoved | htaken
        · exact Or.inr (Or.inr (Or.inr (CidMap.mem_cids.mpr hpending)))
        · exact Or.inr (Or.inl hannounced)
        · exact Or.inr (Or.inr (Or.inl hremoved))
        · cases htaken
      · intro cid hcid
        rw [Bool.eq_false_iff]
        intro hannounced
        have hnot := hkept.disjoint cid hannounced
        rw [CidMap.mem_cids.mp hcid] at hnot
        cases hnot
    exact (hswap.control s.sweepScheduled queued s.sweeping (s.sweeps + 1) s.outcomes
      s.retractions).ask s.sweeps _

theorem KeptNow.observe (h : KeptNow s) (cid : Cid) : KeptNow (s.observe cid) := by
  have hwaits : Kept (takenBy s.sweeping) (cid :: s.beforeObserver) s :=
    ⟨h.disjoint, h.covered, h.takenNodup, h.unannounced,
      fun other hother => (h.buffered other hother).imp_right (List.mem_cons_of_mem _), h.drained,
      h.cleared, h.once, h.since, h.scheduled⟩
  obtain ⟨hsweeping, hbefore, -⟩ := notify_leaves s false cid
  exact hwaits.observe.now hsweeping rfl hbefore

theorem KeptNow.sweepSoon (h : KeptNow s) : KeptNow s.sweepSoon := by
  unfold DhtProviderAnnouncer.sweepSoon
  split
  · exact h
  · exact h.control true _ _ _ _ _

theorem KeptNow.turn (h : KeptNow s) (hstep : s.turn = some s') : KeptNow s' := by
  unfold DhtProviderAnnouncer.turn at hstep
  split at hstep
  · cases hstep
    exact h.control false (s.queued + 1) _ _ _ _
  · cases hstep

theorem KeptNow.step (h : KeptNow s) {e : Event} (hclean : Clean s e)
    (hstep : step withhold s e = some s') : KeptNow s' := by
  cases e with
  | put cid =>
    cases hstep
    exact h.put cid
  | observeWith soon =>
    cases hstep
    exact h.observeWith soon
  | observe cid =>
    cases hstep
    exact h.observe cid
  | sweep =>
    cases hstep
    exact h.control _ (s.queued + 1) _ _ _ _
  | sweepSoon =>
    cases hstep
    exact h.sweepSoon
  | turn => exact h.turn hstep
  | sweepOnce => exact h.sweepOnce hstep
  | answered answer => exact h.answered hstep
  | provided ok => exact h.provided hclean hstep
  | cancelled ok => exact h.cancelled hclean hstep
  | retractAll =>
    cases hstep
    exact h.control _ _ _ _ _ (s.retractions ++ [⟨s.announced.cids, 0⟩])
  | retracted call ok => exact h.retracted hclean hstep

theorem kept_start : KeptNow start := by
  refine ⟨?_, ?_, List.nodup_nil, ?_, ?_, ?_, ?_, ?_, ?_, ?_⟩
  · intro cid _
    rfl
  · intro cid hcid
    cases hcid
  · intro cid hcid
    cases hcid
  · intro cid hcid
    cases hcid
  · intro _
    rfl
  · intro sweep cid older hsuffix
    cases List.suffix_nil.mp hsuffix
  · intro seen cid older hsuffix
    cases List.suffix_nil.mp hsuffix
  · intro cid _ newer older hsplit
    cases newer <;> cases hsplit
  · intro cid
    refine ⟨fun hmem => ?_, fun hhas => ?_⟩
    · cases hmem
    · cases hhas

theorem KeptNow.sound (h : KeptNow s) : Sound s := by
  refine ⟨h.disjoint, ?_, ?_, h.cleared, h.once, h.scheduled⟩
  · intro hidle cid hcid
    have hnone : takenBy s.sweeping = [] := by
      rw [hidle]
      rfl
    rcases h.covered cid hcid with hpending | hannounced | hremoved | htaken
    · exact Or.inl hpending
    · exact Or.inr (Or.inl hannounced)
    · exact Or.inr (Or.inr hremoved)
    · rw [hnone] at htaken
      cases htaken
  · intro cid hcid
    rcases h.buffered cid hcid with hobserved | hwaiting
    · exact Or.inl hobserved
    · refine Or.inr ⟨?_, hwaiting⟩
      by_contra hobserver
      rw [h.drained hobserver] at hwaiting
      cases hwaiting

/-! ## What breaks it -/

theorem recheck_leaves (s : DhtProviderAnnouncer) (number : Nat) (outcome : SweepOutcome)
    (left : List Cid) : (s.recheck number outcome left).announced = s.announced ∧
    (s.recheck number outcome left).pending = s.pending ∧
    (s.recheck number outcome left).scheduled = s.scheduled := by
  cases left <;> exact ⟨rfl, rfl, rfl⟩

theorem ask_leaves (s : DhtProviderAnnouncer) (number : Nat) (outcome : SweepOutcome)
    (left : List Cid) : (s.ask number outcome left).announced = s.announced ∧
    (s.ask number outcome left).pending = s.pending ∧
    (s.ask number outcome left).scheduled = s.scheduled := by
  cases left with
  | nil => exact recheck_leaves s number outcome s.announced.cids
  | cons cid left => exact ⟨rfl, rfl, rfl⟩

/-- The CID ends up in both sets. -/
theorem Sound.provided (h : Sound s') (hstep : s.provided true = some s') :
    Clean s (.provided true) := by
  intro number outcome cid left hsweeping
  unfold DhtProviderAnnouncer.provided at hstep
  split at hstep
  case h_2 hnot => exact absurd hsweeping (hnot number outcome cid left)
  case h_1 hhere =>
    cases hsweeping.symm.trans hhere
    cases hstep
    obtain ⟨hannounced, hpending, -⟩ := ask_leaves { s with
      announced := s.announced.set cid
      scheduled := cid :: s.scheduled
      seen := .provided cid :: s.seen } number
        { outcome with announced := outcome.announced + 1 } left
    have hin : (s.announced.set cid).has cid = true := CidMap.has_set.mpr (Or.inl rfl)
    have hout := h.disjoint cid (hannounced ▸ hin)
    rw [hpending] at hout
    exact hout

/-- The router goes on providing what has been deleted. -/
theorem Sound.unannounce (h : Sound s') (hbefore : Sound s)
    (hannounced : s'.announced = s.announced.delete cid) (hscheduled : s'.scheduled = s.scheduled) :
    s.announced.has cid = false := by
  rw [Bool.eq_false_iff]
  intro hhas
  have hin := (hbefore.scheduled cid).mpr hhas
  rw [← hscheduled, h.scheduled cid, hannounced] at hin
  exact (CidMap.has_delete.mp hin).1 rfl

theorem Sound.clean (h : Sound s') (hbefore : Sound s) {e : Event}
    (hstep : step withhold s e = some s') : Clean s e := by
  cases e with
  | provided ok =>
    cases ok with
    | true => exact h.provided hstep
    | false => trivial
  | cancelled ok =>
    cases ok with
    | true => trivial
    | false =>
      intro number outcome cid left hsweeping
      have hstep : s.cancelled false = some s' := hstep
      unfold DhtProviderAnnouncer.cancelled at hstep
      rw [hsweeping] at hstep
      cases hstep
      obtain ⟨hannounced, -, hscheduled⟩ := recheck_leaves { s.unannounce cid false with
        pending := s.pending.set cid
        removed := s.removed.filter fun other => decide (other ≠ cid) } number
          { outcome with retracted := outcome.retracted + 1 } left
      exact h.unannounce hbefore hannounced hscheduled
  | retracted call ok =>
    cases ok with
    | true => trivial
    | false =>
      intro cid left count hcall
      have hstep : s.retracted call false = some s' := hstep
      unfold DhtProviderAnnouncer.retracted at hstep
      rw [hcall] at hstep
      cases hstep
      exact h.unannounce hbefore rfl rfl
  | _ => trivial

theorem reaches_kept (h : Reaches (step withhold) Clean start s) : KeptNow s :=
  h.invariant kept_start fun _ _ _ hclean hkept hstep => hkept.step hclean hstep

/-- In every run whose steps are clean the bookkeeping is sound, and the first step that is
    not clean breaks it. -/
theorem sound_while_clean (withhold : Withhold) (s : DhtProviderAnnouncer)
    (h : Reaches (step withhold) Clean start s) :
    Sound s ∧ ∀ e s', step withhold s e = some s' → (Sound s' ↔ Clean s e) := by
  have hkept := reaches_kept h
  refine ⟨hkept.sound, ?_⟩
  intro e s' hstep
  constructor
  · intro hsound
    exact hsound.clean hkept.sound hstep
  · intro hclean
    exact (hkept.step hclean hstep).sound

def someBlock : Cid := ⟨js "block", by decide, by decide⟩

/-- A block that is announced and retracted again. -/
theorem sound_once_retracted : ∃ s, run (step .predicate) start
    [.observe someBlock, .sweep, .sweepOnce, .answered .cleared, .provided true, .retractAll,
      .retracted 0 true] = some s ∧ Sound s := by
  refine ⟨_, rfl, (sound_while_clean .predicate _ ?_).1⟩
  have hobserved : Reaches (step .predicate) Clean start _ :=
    Reaches.refl.tail (e := Event.observe someBlock) trivial rfl
  have hswept := hobserved.tail (e := Event.sweep) trivial rfl
  have hasked := hswept.tail (e := Event.sweepOnce) trivial rfl
  have hcleared := hasked.tail (e := Event.answered .cleared) trivial rfl
  have hprovided := hcleared.tail (e := Event.provided true) (fun _ _ _ _ _ => rfl) rfl
  have hretracting := hprovided.tail (e := Event.retractAll) trivial rfl
  exact hretracting.tail (e := Event.retracted 0 true) trivial rfl

/-- A block that is put again while it is being provided ends up in both sets. -/
theorem unsound_when_observed_again :
    ¬ ∀ s, Reaches (step .predicate) anything start s → Sound s := by
  intro hsound
  have hrun : ∃ s, run (step .predicate) start
      [.observe someBlock, .sweep, .sweepOnce, .answered .cleared, .observe someBlock,
        .provided true] = some s ∧
      s.announced.has someBlock = true ∧ s.pending.has someBlock = true :=
    ⟨_, rfl, rfl, rfl⟩
  obtain ⟨s, hrun, hannounced, hpending⟩ := hrun
  have hreaches : Reaches (step .predicate) anything start s :=
    Reaches.of_run (fun _ _ _ => trivial) hrun
  have hnot := (hsound s hreaches).disjoint someBlock hannounced
  rw [hpending] at hnot
  cases hnot

end DhtProviderAnnouncer

end O2Fabric.Libp2p
