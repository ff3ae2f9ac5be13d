/-
  O2Fabric.Core.Job.Submit.Effects

  What happens to the copies of a shard and to their answers, one thing at a
  time.  A step of a shard is a sequence of these effects, so an invariant that
  each of them keeps is kept by every step (`Effect.invariant`).

  The same race goes through three phases; `copies`, `inHand`, `handed` and
  `dropping` read off a phase what it holds, wherever that is kept.
-/

import O2Fabric.Core.Job.Submit.Cases

namespace O2Fabric.Submit

open Job Threads

/-! ## What a phase holds -/

namespace Phase

def isRacing : Phase → Bool
  | .racing _ | .probing _ _ => true
  | _ => false

/-- The copies in the running race. -/
def copies : Phase → InsertionMap JsString Nat
  | .racing race | .probing race _ => race.copies
  | _ => .empty

/-- What the running generation has so far. -/
def inHand : Phase → Option Verification
  | .racing race | .probing race _ => race.answered
  | .returned ⟨.answered v _, _, _, _, _⟩ => some v
  | _ => none

/-- The copies that a won race hands on. -/
def handed : Phase → List Nat
  | .returned ⟨.answered _ outstanding, _, _, _, _⟩ => outstanding
  | _ => []

/-- The copies that a lapsed race leaves behind. -/
def dropping : Phase → List Nat
  | .returned ⟨.lapsed dropped, _, _, _, _⟩ => dropped
  | _ => []

end Phase

/-- In an empty race there is no copy. -/
theorem get?_empty_ne {key : JsString} {k : Nat} {P : Prop}
    (h : (InsertionMap.empty : InsertionMap JsString Nat).get? key = some k) : P := by
  cases h

/-- Nothing happened to the copies and their answers. -/
structure Unmoved (st st' : ShardState) : Prop where
  attempted : st'.attempted = st.attempted
  flights : st'.flights = st.flights
  verification : st'.verification = st.verification
  outstanding : st'.outstanding = st.outstanding
  reported : st'.reported = st.reported
  dropped : st'.dropped = st.dropped
  racing : st'.phase.isRacing = st.phase.isRacing
  copies : st'.phase.copies = st.phase.copies
  inHand : st'.phase.inHand = st.phase.inHand
  handed : st'.phase.handed = st.phase.handed
  dropping : st'.phase.dropping = st.phase.dropping

/-- One thing that happens. -/
inductive Effect (p : Platform) (job : PreparedJob) (plan : ShardPlan) (event : ShardEvent)
    (st st' : ShardState) : Prop
  | idle (unmoved : Unmoved st st')
      (granting : ∀ nodeIds, st'.phase = .granting nodeIds → st.phase = .granting nodeIds)
  /-- A placement hands the loop its next nodes. -/
  | placed (ask : Nat → Offer → Admission) (place : event = .place ask) (nodeIds : List JsString)
      (rejections : List Rejection) (degraded : Bool) (phase : st.phase = .placing)
      (again : placeAgain p job plan (wantedOf job st.verification) st.attempted ask
        = .placed nodeIds rejections degraded)
      (unmoved : Unmoved st st') (granting : st'.phase = .granting nodeIds)
  /-- They are dispatched to, which starts a race. -/
  | granted (nodeIds : List JsString) (race : Race) (phase : st.phase = .granting nodeIds)
      (copies : race.copies = InsertionMap.empty.set (nodeIds.headD []) st.flights.length)
      (answered : race.answered = none)
      (after : st' = { st with
        generations := st.generations + 1
        attempted := st.attempted ++ nodeIds
        flights := st.flights ++ [⟨nodeIds, false, none⟩]
        phase := .racing race })
  /-- A speculative copy joins the race. -/
  | copied (race race' : Race) (target : NodeDescriptor) (phase : st.phase = .racing race)
      (candidate : target ∈ speculativeCandidates (plan.request 1) plan.gate.pool st.attempted)
      (copies : race'.copies = race.copies.set target.nodeId st.flights.length)
      (answered : race'.answered = race.answered)
      (after : st' = { st with
        attempted := st.attempted ++ [target.nodeId]
        flights := st.flights ++ [⟨[target.nodeId], true, none⟩]
        phase := .racing race' })
  /-- A copy's promise settles. -/
  | answered (k : Nat) (nodeIds : List JsString) (speculative : Bool) (answer : DispatchAnswer)
      (v : Verification) (flight : st.flights[k]? = some ⟨nodeIds, speculative, none⟩)
      (fits : answer.fits (runsCeremony job plan nodeIds) nodeIds = true)
      (verified : v = verificationOf p (taskOf job plan) nodeIds answer)
      (after : st' = { st with
        flights := st.flights.set k ⟨nodeIds, speculative, some v⟩
        reported := if v.isInsufficient && st.phase.looping then st.reported ++ v.failures
          else st.reported })
  /-- A copy's answer ends the race. -/
  | won (race : Race) (key : JsString) (k : Nat) (flight : Flight) (v : Verification)
      (phase : st.phase = .racing race) (copy : race.copies.get? key = some k)
      (at_ : st.flights[k]? = some flight) (answer : flight.answer = some v)
      (ending : v.isInsufficient = false ∨ (race.copies.delete key).size = 0)
      (after : st' = { st with
        phase := race.returns
          (.answered (mergeInto race.answered v) (race.copies.delete key).values) })
  /-- A copy's refusal leaves its siblings in the race. -/
  | waited (race : Race) (key : JsString) (k : Nat) (flight : Flight) (v : Verification)
      (phase : st.phase = .racing race) (copy : race.copies.get? key = some k)
      (at_ : st.flights[k]? = some flight) (answer : flight.answer = some v)
      (refused : v.isInsufficient = true)
      (after : st' = { st with
        phase := .racing { race with
          copies := race.copies.delete key
          answered := some (mergeInto race.answered v) } })
  /-- The lease of the race runs out. -/
  | lapsed (race : Race) (copies : st.phase.copies = race.copies)
      (inHand : st.phase.inHand = race.answered)
      (running : st.phase = .racing race ∨ ∃ woke, st.phase = .probing race woke)
      (after : st' = { st with phase := race.lapses })
  /-- A lapsed generation is entered. -/
  | reaped (r : Returned) (dropped : List Nat) (phase : st.phase = .returned r)
      (dispatched : r.dispatched = .lapsed dropped)
      (after : st' = { entered r [] st.verification st with
        dropped := st.dropped ++ dropped
        phase := .placing })
  /-- An answered generation is entered, and the loop goes on or ends. -/
  | entered (r : Returned) (v : Verification) (outstanding : List Nat) (next : Phase)
      (phase : st.phase = .returned r) (dispatched : r.dispatched = .answered v outstanding)
      (onward : next = .placing ∨ ∃ ending, next = .ended ending)
      (after : st' = { entered r outstanding (some (mergeInto st.verification v)) st with
        phase := next })

variable {p : Platform} {job : PreparedJob} {plan : ShardPlan} {s s' : Shared}
  {st st' : ShardState}

abbrev Effects (p : Platform) (job : PreparedJob) (plan : ShardPlan) (event : ShardEvent) :
    ShardState → ShardState → Prop :=
  Relation.ReflTransGen (Effect p job plan event)

variable {event : ShardEvent}

/-- What every effect keeps, every sequence of them keeps. -/
theorem Effects.invariant {I : ShardState → Prop} (h : Effects p job plan event st st') (hst : I st)
    (hstep : ∀ st st', I st → Effect p job plan event st st' → I st') : I st' := by
  induction h with
  | refl => exact hst
  | tail _ hlast ih => exact hstep _ _ ih hlast

/-- The head of the dispatch loop lapses or does nothing. -/
theorem effects_top (race : Race) (at_ : ℚ) (st' : ShardState)
    (hbefore : Effects p job plan event st { st' with phase := .racing race }) :
    Effects p job plan event st { st' with phase := race.top at_ } := by
  rcases top_cases race at_ with ⟨-, heq⟩ | ⟨-, heq⟩
  · rw [heq]
    exact hbefore.tail (.lapsed race rfl rfl (Or.inl rfl) rfl)
  · rw [heq]
    exact hbefore

/-- A step that only moves on. -/
theorem effects_idle (hunmoved : Unmoved st st')
    (hgranting : ∀ nodeIds, st'.phase ≠ .granting nodeIds) : Effects p job plan event st st' :=
  .single (.idle hunmoved fun nodeIds hphase => absurd hphase (hgranting nodeIds))

theorem shardStep_effects (h : shardStep p job plan event s st = some (s', st')) :
    Effects p job plan event st st' := by
  cases event with
  | grant now startedAt at_ =>
    obtain ⟨nodeIds, hphase, ⟨_, -, -, rfl⟩ | ⟨lease, _, -, -, rfl⟩⟩ := grantStep_cases h
    · refine effects_idle ⟨rfl, rfl, rfl, rfl, rfl, rfl, ?_, ?_, ?_, ?_, ?_⟩ fun _ => Phase.noConfusion
      all_goals rw [hphase]; rfl
    · refine effects_top (startRace job (nodeIds.headD []) startedAt lease s st) at_
        { st with
          generations := st.generations + 1
          attempted := st.attempted ++ nodeIds
          flights := st.flights ++ [⟨nodeIds, false, none⟩] } ?_
      exact .single (.granted nodeIds _ hphase rfl rfl rfl)
  | answer k answer =>
    obtain ⟨nodeIds, speculative, v, hflight, hfits, hv, -, rfl⟩ := answerStep_cases h
    exact .single (.answered k nodeIds speculative answer v hflight hfits hv rfl)
  | deliver key at_ =>
    obtain ⟨race, k, flight, v, hphase, hcopy, hflight, hanswer, -, ⟨hover, rfl⟩ |
      ⟨hrefused, -, rfl⟩⟩ := deliverStep_cases h
    · exact .single (.won race key k flight v hphase hcopy hflight hanswer hover rfl)
    · exact effects_top _ at_ st
        (.single (.waited race key k flight v hphase hcopy hflight hanswer hrefused rfl))
  | tick woke at_ =>
    obtain ⟨race, hphase, ⟨-, -, rfl⟩ | ⟨s₁, st₁, race₁, hspeculate, -, -, hst⟩⟩ :=
      tickStep_cases h
    · exact .single (.lapsed race (by rw [hphase]; rfl) (by rw [hphase]; rfl) (Or.inl hphase) rfl)
    · have hlook : Effects p job plan (.tick woke at_) st { st₁ with phase := .racing race₁ } := by
        rcases speculate_cases p job plan woke race s st with
          ⟨watching, heq⟩ | ⟨target, others, ledger, -, -, hcandidates, -, heq⟩
        · rw [heq] at hspeculate
          cases hspeculate
          refine effects_idle ⟨rfl, rfl, rfl, rfl, rfl, rfl, ?_, ?_, ?_, ?_, ?_⟩
            fun _ => Phase.noConfusion
          all_goals rw [hphase]; rfl
        · rw [heq] at hspeculate
          cases hspeculate
          have hmem : target ∈ speculativeCandidates (plan.request 1) plan.gate.pool st.attempted := by
            rw [hcandidates]
            exact List.mem_cons_self
          refine .single (.copied race { race with
            speculated := true
            judgedAt := some woke
            copies := race.copies.set target.nodeId st.flights.length } target hphase hmem rfl rfl ?_)
          rfl
      rcases hst with rfl | ⟨-, -, rfl⟩
      · exact effects_top race₁ at_ st₁ hlook
      · refine hlook.trans (effects_idle ⟨rfl, rfl, rfl, rfl, rfl, rfl, rfl, rfl, rfl, rfl, rfl⟩ ?_)
        exact fun _ => Phase.noConfusion
  | probed working at_ =>
    obtain ⟨race, woke, hphase, ⟨-, -, rfl⟩ | ⟨-, _, -, -, rfl⟩ | ⟨-, lease, _, -, -, rfl⟩⟩ :=
      probedStep_cases h
    · refine effects_top _ at_ st (effects_idle ⟨rfl, rfl, rfl, rfl, rfl, rfl, ?_, ?_, ?_, ?_, ?_⟩
        fun _ => Phase.noConfusion)
      all_goals rw [hphase]; rfl
    · exact .single (.lapsed race (by rw [hphase]; rfl) (by rw [hphase]; rfl)
        (Or.inr ⟨woke, hphase⟩) rfl)
    · refine effects_top _ at_ st (effects_idle ⟨rfl, rfl, rfl, rfl, rfl, rfl, ?_, ?_, ?_, ?_, ?_⟩
        fun _ => Phase.noConfusion)
      all_goals rw [hphase]; rfl
  | resume now at_ =>
    obtain ⟨r, hphase, ⟨dropped, hlapsed, -, rfl⟩ | ⟨v, outstanding, merged, hanswered, rfl,
      ⟨-, ⟨-, -, rfl⟩ | ⟨-, -, rfl⟩⟩ | ⟨-, -, rfl⟩⟩⟩ := resumeStep_cases h
    · exact .single (.reaped r dropped hphase hlapsed rfl)
    · exact .single (.entered r v outstanding _ hphase hanswered (Or.inr ⟨_, rfl⟩) rfl)
    · exact .single (.entered r v outstanding _ hphase hanswered (Or.inr ⟨_, rfl⟩) rfl)
    · exact .single (.entered r v outstanding _ hphase hanswered (Or.inl rfl) rfl)
  | place ask =>
    obtain ⟨hphase, -, ⟨nodeIds, rejections, degraded, hplaced, rfl⟩ | ⟨_, -, rfl⟩⟩ :=
      placeStep_cases h
    · refine .single (.placed ask rfl nodeIds rejections degraded hphase hplaced
        ⟨rfl, rfl, rfl, rfl, rfl, rfl, ?_, ?_, ?_, ?_, ?_⟩ rfl)
      all_goals rw [hphase]; rfl
    · refine effects_idle ⟨rfl, rfl, rfl, rfl, rfl, rfl, ?_, ?_, ?_, ?_, ?_⟩ fun _ => Phase.noConfusion
      all_goals rw [hphase]; rfl
  | store =>
    obtain ⟨ending, _, _, _, _, _, _, _, hphase, -, -, rfl⟩ := storeStep_cases h
    refine effects_idle ⟨rfl, rfl, rfl, rfl, rfl, rfl, ?_, ?_, ?_, ?_, ?_⟩ fun _ => Phase.noConfusion
    all_goals rw [hphase]; rfl
  | record =>
    obtain ⟨ending, _, hphase, -, ⟨-, -, rfl⟩ | ⟨-, -, rfl⟩⟩ := recordStep_cases h
    all_goals
      refine effects_idle ⟨rfl, rfl, rfl, rfl, rfl, rfl, ?_, ?_, ?_, ?_, ?_⟩
        fun _ => Phase.noConfusion
    all_goals rw [hphase]; rfl
  | finish =>
    obtain ⟨-, ending, hphase, rfl⟩ := finishStep_cases h
    have hempty : st.phase.isRacing = false ∧ st.phase.copies = .empty ∧
        st.phase.inHand = none ∧ st.phase.handed = [] ∧ st.phase.dropping = [] := by
      rcases hphase with ⟨hphase, -⟩ | ⟨_, hphase, -⟩ <;> rw [hphase] <;>
        exact ⟨rfl, rfl, rfl, rfl, rfl⟩
    obtain ⟨hracing, hcopies, hinHand, hhanded, hdropping⟩ := hempty
    rcases settle_cases p job plan ending st with ⟨-, heq⟩ | ⟨_, -, heq⟩ <;> rw [heq]
    all_goals
      exact effects_idle ⟨rfl, rfl, rfl, rfl, rfl, rfl, hracing.symm, hcopies.symm,
        hinHand.symm, hhanded.symm, hdropping.symm⟩ fun _ => Phase.noConfusion

/-! ## What every verification of a shard is -/

/-- Every verification the shard holds is of this kind. -/
structure Throughout (Q : Verification → Prop) (st : ShardState) : Prop where
  answers : ∀ flight ∈ st.flights, ∀ v, flight.answer = some v → Q v
  verification : ∀ v, st.verification = some v → Q v
  inHand : ∀ v, st.phase.inHand = some v → Q v

section

variable {Q : Verification → Prop}

theorem of_mergeInto (hmerge : ∀ v w, Q v → Q w → Q (mergeVerifications v w))
    {before : Option Verification} {v : Verification} (hbefore : ∀ w, before = some w → Q w)
    (hv : Q v) : Q (mergeInto before v) := by
  cases before with
  | none => exact hv
  | some before => exact hmerge before v (hbefore before rfl) hv

/-- What dispatches come to and merges keep is so throughout. -/
theorem Throughout.effect (hst : Throughout Q st) {event : ShardEvent}
    (hdispatch : ∀ nodeIds answer, Q (verificationOf p (taskOf job plan) nodeIds answer))
    (hmerge : ∀ v w, Q v → Q w → Q (mergeVerifications v w))
    (h : Effect p job plan event st st') : Throughout Q st' := by
  have hnothing : ∀ v, (none : Option Verification) = some v → Q v := by
    intro v hv
    cases hv
  have hanswered : ∀ race, st.phase = .racing race → ∀ v, race.answered = some v → Q v := by
    intro race hphase
    have := hst.inHand
    rwa [hphase] at this
  cases h with
  | idle hunmoved _ =>
    refine ⟨?_, ?_, ?_⟩
    · rw [hunmoved.flights]
      exact hst.answers
    · rw [hunmoved.verification]
      exact hst.verification
    · rw [hunmoved.inHand]
      exact hst.inHand
  | placed _ _ _ _ _ _ _ hunmoved _ =>
    refine ⟨?_, ?_, ?_⟩
    · rw [hunmoved.flights]
      exact hst.answers
    · rw [hunmoved.verification]
      exact hst.verification
    · rw [hunmoved.inHand]
      exact hst.inHand
  | granted nodeIds race _ _ hnone hafter =>
    subst hafter
    refine ⟨List.forall_mem_append.mpr ⟨hst.answers, List.forall_mem_singleton.mpr hnothing⟩,
      hst.verification, ?_⟩
    show ∀ v, race.answered = some v → Q v
    rw [hnone]
    exact hnothing
  | copied race race' _ hphase _ _ hsame hafter =>
    subst hafter
    refine ⟨List.forall_mem_append.mpr ⟨hst.answers, List.forall_mem_singleton.mpr hnothing⟩,
      hst.verification, ?_⟩
    show ∀ v, race'.answered = some v → Q v
    rw [hsame]
    exact hanswered race hphase
  | answered _ _ _ _ _ _ _ hv hafter =>
    subst hafter
    refine ⟨?_, hst.verification, hst.inHand⟩
    intro flight hmem w hw
    rcases List.mem_or_eq_of_mem_set hmem with hold | rfl
    · exact hst.answers flight hold w hw
    · rw [← Option.some.inj hw, hv]
      exact hdispatch _ _
  | won race _ _ flight v hphase _ hflight hanswer _ hafter =>
    subst hafter
    refine ⟨hst.answers, hst.verification, ?_⟩
    intro w hw
    rw [← Option.some.inj hw]
    exact of_mergeInto hmerge (hanswered race hphase)
      (hst.answers flight (List.mem_of_getElem? hflight) v hanswer)
  | waited race _ _ flight v hphase _ hflight hanswer _ hafter =>
    subst hafter
    refine ⟨hst.answers, hst.verification, ?_⟩
    intro w hw
    rw [← Option.some.inj hw]
    exact of_mergeInto hmerge (hanswered race hphase)
      (hst.answers flight (List.mem_of_getElem? hflight) v hanswer)
  | lapsed race _ _ _ hafter =>
    subst hafter
    exact ⟨hst.answers, hst.verification, hnothing⟩
  | reaped _ _ _ _ hafter =>
    subst hafter
    exact ⟨hst.answers, hst.verification, hnothing⟩
  | entered r v outstanding next hphase hdispatched honward hafter =>
    subst hafter
    obtain ⟨dispatched, speculated, judgedAt, holderId, startedAt⟩ := r
    change dispatched = _ at hdispatched
    subst hdispatched
    have hv : Q v := by
      have := hst.inHand
      rw [hphase] at this
      exact this v rfl
    refine ⟨hst.answers, ?_, ?_⟩
    · intro w hw
      rw [← Option.some.inj hw]
      exact of_mergeInto hmerge hst.verification hv
    · rcases honward with rfl | ⟨ending, rfl⟩ <;> exact hnothing

theorem throughout_start (Q : Verification → Prop) (plan : ShardPlan) :
    Throughout Q (startShard plan) := by
  have hnothing : ∀ v, (none : Option Verification) = some v → Q v := by
    intro v hv
    cases hv
  unfold startShard
  split
  · exact ⟨List.forall_mem_nil _, hnothing, hnothing⟩
  · split
    · exact ⟨List.forall_mem_nil _, hnothing, hnothing⟩
    · exact ⟨List.forall_mem_nil _, hnothing, hnothing⟩

end

end O2Fabric.Submit
