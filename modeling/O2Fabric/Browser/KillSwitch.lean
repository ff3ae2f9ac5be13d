/-
  O2Fabric.Browser.KillSwitch

  A tab's reading of whether it has been told to stop: polls are started by a
  timer, each awaits its answer, and the answer that is read is the directive
  in force.

  Nothing keeps two polls apart, so their answers come in any order.
-/

import Mathlib.Data.List.MinMax
import O2Fabric.Js.Json
import O2Fabric.Lib.Steps

namespace O2Fabric.KillSwitch

open Steps

/-! ## The directive -/

/-- Which client versions a halt applies to. -/
inductive Versions
  | all
  | only (versions : List JsString)
  deriving DecidableEq

structure AdmissionDirective where
  region : Option JsString
  halted : Bool
  versions : Versions
  since : Option ℚ
  note : JsString
  deriving DecidableEq

/-- What an object with no directive stored reports. -/
def ADMITTING : AdmissionDirective := ⟨none, false, .all, none, []⟩

def isHaltedFor (directive : AdmissionDirective) (clientVersion : Option JsString) : Bool :=
  if !directive.halted then false
  else
    match directive.versions, clientVersion with
    | .all, _ => true
    | .only _, none => false
    | .only versions, some version => versions.contains version

def readString : Json → Option JsString
  | .string text => some text
  | _ => none

/-- `versions`, where it is `'all'` or a list of strings. -/
def readVersions : Json → Option Versions
  | .string text => if text = js "all" then some .all else none
  | .list items => (items.mapM readString).map .only
  | _ => none

/-- The `admission` field of `/self`, or `null`. -/
def readAdmission (body : Json) : Option AdmissionDirective :=
  match body with
  | .record fields =>
    match Json.field fields (js "admission") with
    | some (.record admission) =>
      match Json.field admission (js "halted"), Json.field admission (js "versions") with
      | some (.bool halted), some versions =>
        (readVersions versions).map fun versions =>
          { region := (Json.field admission (js "region")).bind readString
            halted
            versions
            since := match Json.field admission (js "since") with
              | some (.number since) => some since
              | _ => none
            note := ((Json.field admission (js "note")).bind readString).getD [] }
      | _, _ => none
    | _ => none
  | _ => none

/-! ## The poller -/

structure State where
  directive : AdmissionDirective := ADMITTING
  timer : Bool := false
  firstHaltedAt : Option ℚ := none
  reads : Nat := 0
  failures : Nat := 0
  /-- Polls are numbered as they are issued. -/
  issued : Nat := 0
  /-- The polls whose `fetch` is awaited. -/
  fetching : List Nat := []
  /-- The polls whose body is awaited. -/
  parsing : List Nat := []
  /-- The polls that have read a directive, as they did. -/
  installs : List (Nat × AdmissionDirective) := []

def State.halted (s : State) (clientVersion : Option JsString) : Bool :=
  isHaltedFor s.directive clientVersion

def poll (s : State) : State :=
  { s with issued := s.issued + 1, fetching := s.fetching ++ [s.issued] }

inductive Event
  | starts
  | ticks
  | polls
  | stops
  | responds (i : Nat) (ok : Bool)
  | reads (i : Nat) (body : Json) (now : ℚ)
  /-- It is refused, its body is no JSON, or its time is up. -/
  | fails (i : Nat)

/-- What the poll `i` does with its body. -/
def install (clientVersion : Option JsString) (s : State) (i : Nat) (body : Json) (now : ℚ) :
    State :=
  match readAdmission body with
  | none => { s with parsing := s.parsing.erase i, failures := s.failures + 1 }
  | some directive =>
    { s with
      directive
      parsing := s.parsing.erase i
      reads := s.reads + 1
      installs := s.installs ++ [(i, directive)]
      firstHaltedAt :=
        if s.firstHaltedAt = none ∧ isHaltedFor directive clientVersion then some now
        else s.firstHaltedAt }

def step (clientVersion : Option JsString) (s : State) : Event → Option State
  | .starts => some (if s.timer then s else { poll s with timer := true })
  | .ticks => if s.timer then some (poll s) else none
  | .polls => some (poll s)
  | .stops => some { s with timer := false }
  | .responds i ok =>
    if i ∈ s.fetching then
      if ok then
        some { s with fetching := s.fetching.erase i, parsing := s.parsing ++ [i] }
      else some { s with fetching := s.fetching.erase i, failures := s.failures + 1 }
    else none
  | .reads i body now =>
    if i ∈ s.parsing then some (install clientVersion s i body now) else none
  | .fails i =>
    if i ∈ s.fetching then
      some { s with fetching := s.fetching.erase i, failures := s.failures + 1 }
    else if i ∈ s.parsing then
      some { s with parsing := s.parsing.erase i, failures := s.failures + 1 }
    else none

/-- A poller that nobody has started. -/
def initial : State := {}

/-! ## What is asked of it -/

/-- The directive in force is the one that the poll issued last has read, of
    those that have read one. -/
structure FollowsNewest (s : State) : Prop where
  admitting : s.installs = [] → s.directive = ADMITTING
  newest : ∀ entry ∈ s.installs, (∀ other ∈ s.installs, other.1 ≤ entry.1) →
    s.directive = entry.2

/-- An answer with another directive comes before those of the polls issued later. -/
def InOrder (s : State) (e : Event) : Prop :=
  ∀ i body now directive, e = .reads i body now → readAdmission body = some directive →
    (∀ entry ∈ s.installs, entry.1 < i) ∨ directive = s.directive

/-! ## What a step can do -/

variable {clientVersion : Option JsString} {s s' : State} {i : Nat}

theorem install_none {body : Json} {now : ℚ} (h : readAdmission body = none) :
    install clientVersion s i body now =
      { s with parsing := s.parsing.erase i, failures := s.failures + 1 } := by
  unfold install
  rw [h]

theorem install_some {body : Json} {now : ℚ} {directive : AdmissionDirective}
    (h : readAdmission body = some directive) : install clientVersion s i body now =
      { s with
        directive
        parsing := s.parsing.erase i
        reads := s.reads + 1
        installs := s.installs ++ [(i, directive)]
        firstHaltedAt :=
          if s.firstHaltedAt = none ∧ isHaltedFor directive clientVersion then some now
          else s.firstHaltedAt } := by
  unfold install
  rw [h]

variable {e : Event}

/-- Everything a step can do: it leaves the directive, or a poll installs the
    one it has read. -/
theorem step_cases (h : step clientVersion s e = some s') :
    (s'.directive = s.directive ∧ s'.installs = s.installs ∧ InOrder s e) ∨
    (∃ i body now directive, e = .reads i body now ∧ readAdmission body = some directive ∧
      s'.directive = directive ∧ s'.installs = s.installs ++ [(i, directive)]) := by
  have hordered : (∀ i body now, e ≠ .reads i body now) → InOrder s e :=
    fun hother i body now _ he => absurd he (hother i body now)
  cases e with
  | starts =>
    left
    simp only [step, Option.some.injEq] at h
    subst h
    split
    · exact ⟨rfl, rfl, hordered (by simp)⟩
    · exact ⟨rfl, rfl, hordered (by simp)⟩
  | ticks =>
    left
    simp only [step, Option.ite_none_right_eq_some, Option.some.injEq] at h
    obtain ⟨-, rfl⟩ := h
    exact ⟨rfl, rfl, hordered (by simp)⟩
  | polls | stops =>
    left
    cases h
    exact ⟨rfl, rfl, hordered (by simp)⟩
  | responds i ok =>
    left
    simp only [step, Option.ite_none_right_eq_some] at h
    obtain ⟨-, h⟩ := h
    split at h
    · cases h
      exact ⟨rfl, rfl, hordered (by simp)⟩
    · cases h
      exact ⟨rfl, rfl, hordered (by simp)⟩
  | reads i body now =>
    simp only [step, Option.ite_none_right_eq_some, Option.some.injEq] at h
    obtain ⟨-, rfl⟩ := h
    cases hread : readAdmission body with
    | none =>
      left
      rw [install_none hread]
      refine ⟨rfl, rfl, ?_⟩
      -- It has read no directive.
      intro j body' now' directive he hsome
      cases he
      rw [hread] at hsome
      cases hsome
    | some directive =>
      right
      rw [install_some hread]
      exact ⟨i, body, now, directive, rfl, hread, rfl, rfl⟩
  | fails i =>
    left
    simp only [step] at h
    split at h
    · cases h
      exact ⟨rfl, rfl, hordered (by simp)⟩
    · simp only [Option.ite_none_right_eq_some, Option.some.injEq] at h
      obtain ⟨-, rfl⟩ := h
      exact ⟨rfl, rfl, hordered (by simp)⟩

/-! ## Whole runs -/

theorem follows_initial : FollowsNewest initial :=
  ⟨fun _ => rfl, fun _ h => (by cases h)⟩

/-- An answer in order is the newest, or says what is in force. -/
theorem follows_step (h : FollowsNewest s) (hinOrder : InOrder s e)
    (hstep : step clientVersion s e = some s') : FollowsNewest s' := by
  obtain ⟨hdirective, hinstalls, -⟩ |
    ⟨i, body, now, directive, he, hread, hdirective, hinstalls⟩ := step_cases hstep
  · refine ⟨fun hnone => ?_, fun entry hentry hall => ?_⟩
    · rw [hdirective]
      exact h.admitting (hinstalls ▸ hnone)
    · rw [hdirective]
      exact h.newest entry (hinstalls ▸ hentry) (hinstalls ▸ hall)
  · refine ⟨fun hnone => by simp [hinstalls] at hnone, fun entry hentry hall => ?_⟩
    rw [hdirective]
    rw [hinstalls, List.mem_append, List.mem_singleton] at hentry
    obtain hold | rfl := hentry
    · obtain hlater | hsame := hinOrder i body now directive he hread
      · -- The answer read now is newer than `entry`.
        have hle := hall (i, directive) (by simp [hinstalls])
        have hlt := hlater entry hold
        exact absurd hle (by omega)
      · rw [hsame]
        exact h.newest entry hold fun other hother =>
          hall other (by simp [hinstalls, hother])
    · rfl

/-- An answer out of order overrides the directive of the newest poll. -/
theorem not_follows_step (h : FollowsNewest s) (hstale : ¬ InOrder s e)
    (hstep : step clientVersion s e = some s') : ¬ FollowsNewest s' := by
  obtain ⟨-, -, hinOrder⟩ |
    ⟨i, body, now, directive, rfl, hread, hdirective, hinstalls⟩ := step_cases hstep
  · exact absurd hinOrder hstale
  · have hexists : (∃ entry ∈ s.installs, i ≤ entry.1) ∧ directive ≠ s.directive := by
      by_contra hnot
      refine hstale fun j body' now' directive' he hread' => ?_
      cases he
      cases hread.symm.trans hread'
      by_cases hsame : directive = s.directive
      · exact .inr hsame
      · refine .inl fun entry hentry => ?_
        by_contra hge
        exact hnot ⟨⟨entry, hentry, by omega⟩, hsame⟩
    obtain ⟨⟨later, hlater, hle⟩, hother⟩ := hexists
    intro hfollows
    -- The newest of the polls that had read a directive is the newest still.
    obtain ⟨newest, hmem, hmax⟩ : ∃ newest ∈ s.installs, ∀ other ∈ s.installs,
        other.1 ≤ newest.1 := by
      obtain ⟨newest, hmax⟩ := Option.ne_none_iff_exists'.mp
        fun hnone => List.ne_nil_of_mem hlater (((List.argmax_eq_none (f := Prod.fst)).mp hnone))
      exact ⟨newest, List.argmax_mem hmax, fun other hother => List.le_of_mem_argmax hother hmax⟩
    have hbefore := h.newest newest hmem hmax
    have hafter := hfollows.newest newest (by simp [hinstalls, hmem]) fun other hmem' => by
      rw [hinstalls, List.mem_append, List.mem_singleton] at hmem'
      obtain hold | rfl := hmem'
      · exact hmax other hold
      · exact hle.trans (hmax later hlater)
    rw [hdirective] at hafter
    exact hother (hafter.trans hbefore.symm)

/-- Where the answers that differ come in the order of their polls, the directive
    in force is always that of the newest poll, and an answer out of order
    overrides it. -/
theorem newest_order_stands_while_in_order (clientVersion : Option JsString) (s : State)
    (h : Reaches (step clientVersion) InOrder initial s) :
    FollowsNewest s ∧
      ∀ e s', step clientVersion s e = some s' → ¬ InOrder s e → ¬ FollowsNewest s' := by
  have hkept : FollowsNewest s := h.invariant follows_initial
    fun _ _ _ hinOrder hfollows hstep => follows_step hfollows hinOrder hstep
  exact ⟨hkept, fun e s' hstep hstale => not_follows_step hkept hstale hstep⟩

/-! Two polls in flight: the halt that the second reads, and the older answer. -/

def selfAdmission (halted : Bool) : Json :=
  .record [(js "admission", .record [(js "halted", .bool halted),
    (js "versions", .string (js "all"))])]

def HALTING : AdmissionDirective := { ADMITTING with halted := true }

def haltRead : State where
  directive := HALTING
  timer := true
  firstHaltedAt := some 7
  reads := 1
  issued := 2
  fetching := [0]
  installs := [(1, HALTING)]

theorem readAdmission_halting : readAdmission (selfAdmission true) = some HALTING := by
  simp [readAdmission, selfAdmission, Json.field, InsertionMap.lookup, readVersions, HALTING,
    ADMITTING]

theorem readAdmission_admitting : readAdmission (selfAdmission false) = some ADMITTING := by
  simp [readAdmission, selfAdmission, Json.field, InsertionMap.lookup, readVersions, ADMITTING]

/-- Two polls are issued, and the second has its answer. -/
def twoInFlight : State := { timer := true, issued := 2, fetching := [0], parsing := [1] }

theorem twoInFlight_reached : Reaches (step none) InOrder initial twoInFlight := by
  have hinOrder : ∀ s e, (∀ i body now, e ≠ .reads i body now) → InOrder s e :=
    fun s e hother i body now _ he => absurd he (hother i body now)
  have hstarted : Reaches (step none) InOrder initial
      { timer := true, issued := 1, fetching := [0] } :=
    Reaches.refl.tail (hinOrder initial .starts (by simp)) rfl
  have hticked : Reaches (step none) InOrder initial
      { timer := true, issued := 2, fetching := [0, 1] } :=
    hstarted.tail (hinOrder _ .ticks (by simp)) rfl
  exact hticked.tail (hinOrder _ (.responds 1 true) (by simp)) rfl

theorem reads_halt : step none twoInFlight (.reads 1 (selfAdmission true) 7) = some haltRead := by
  simp only [step, install_some readAdmission_halting]
  rfl

theorem haltRead_reached : Reaches (step none) InOrder initial haltRead :=
  twoInFlight_reached.tail
    (fun _ _ _ _ _ _ => .inl fun entry hentry => by simp [twoInFlight] at hentry) reads_halt

theorem newest_order_stands_after_halt : FollowsNewest haltRead ∧
    ∀ e s', step none haltRead e = some s' → ¬ InOrder haltRead e → ¬ FollowsNewest s' :=
  newest_order_stands_while_in_order none haltRead haltRead_reached

/-- The answer of the first poll is the last to come. -/
def resumed : State where
  directive := ADMITTING
  timer := true
  firstHaltedAt := some 7
  reads := 2
  issued := 2
  installs := [(1, HALTING), (0, ADMITTING)]

theorem stale_poll_overrides_halt : ¬ ∀ (clientVersion : Option JsString) (s : State),
    Reaches (step clientVersion) anything initial s → FollowsNewest s := by
  intro hall
  have hhalted : Reaches (step none) anything initial haltRead :=
    haltRead_reached.mono fun _ _ _ => trivial
  have hresponds : step none haltRead (.responds 0 true) =
      some { haltRead with fetching := [], parsing := [0] } := rfl
  have hreads : step none { haltRead with fetching := [], parsing := [0] }
      (.reads 0 (selfAdmission false) 9) = some resumed := by
    simp only [step, install_some readAdmission_admitting]
    rfl
  have hfollows := hall none resumed ((hhalted.tail trivial hresponds).tail trivial hreads)
  have hnewest := hfollows.newest (1, HALTING) List.mem_cons_self (by decide)
  exact absurd hnewest (by decide)

end O2Fabric.KillSwitch
