/-
  O2Fabric.Core.Job.Submit.Reported

  A refusal that a copy reports while its shard's loop runs is among the failures
  of the shard's result, in every run none of whose steps `loses` one.

  While the loop runs, a refusal is in what earlier generations came to, in what
  this one has so far, or with a copy of the race that has settled and was not
  read.  The loop takes nothing else along.
-/

import O2Fabric.Core.Job.Submit.Heard

namespace O2Fabric.Submit

open Job Threads

/-! ## The steps that lose a refusal -/

/-- A copy in the race has settled with a refusal that the loop has not read. -/
def unread (flights : List Flight) (copies : InsertionMap JsString Nat) : Bool :=
  copies.values.any fun k =>
    ((flights[k]?).bind Flight.answer).any VerificationResult.isInsufficient

/-- A refusal came out of the race, read or not. -/
def Race.refused (race : Race) (flights : List Flight) : Bool :=
  race.answered.isSome || unread flights race.copies

/-- An agreement that holds a refusal that was reported. -/
def agreesBeside (reported : List Failure) (v : Verification) : Bool :=
  v.isAgreed && v.failures.any fun f => decide (f ∈ reported)

/-- The step loses a refusal. -/
def loses (p : Platform) (job : PreparedJob) (plan : ShardPlan) (event : ShardEvent) (s : Shared)
    (st : ShardState) : Bool :=
  match event, st.phase with
  | .answer k answer, phase =>
    match st.flights[k]? with
    -- the race of the copy is over
    | some flight =>
      phase.looping && decide (k ∉ phase.copies.values)
        && (verificationOf p (taskOf job plan) flight.nodeIds answer).isInsufficient
    | none => false
  | .deliver key at_, .racing race =>
    match ((race.copies.get? key).bind (st.flights[·]?)).bind Flight.answer with
    | some v =>
      -- the lease has run out with the refusal just read, or the race ends beside another
      if v.isInsufficient && (race.copies.delete key).size != 0 then race.lease.expired at_
      else unread st.flights (race.copies.delete key)
    | none => false
  | .tick woke at_, .racing race =>
    race.refused st.flights && (race.lease.expired woke
      || !(race.renewable && shouldRenew race.lease woke) && race.lease.expired at_)
  | .probed working at_, .probing race woke =>
    race.refused st.flights &&
      match working, (s.leases.renew race.lease.taskId race.lease.nodeId woke).1 with
      | true, some lease => lease.expired at_
      | true, none => true
      | false, _ => race.lease.expired at_
  | .resume _ _, .returned r =>
    match r.dispatched, st.verification with
    | .answered v _, some before => agreesBeside st.reported before || agreesBeside st.reported v
    | _, _ => false
  | _, _ => false

/-- A step that loses no refusal. -/
def Hears (p : Platform) (job : PreparedJob) (c : Config Nat Shared ShardState) :
    Event Nat ShardEvent ChainEvent → Prop
  | .own i event => ∀ plan ∈ job.plans[i]?, loses p job plan event c.shared (c.locals i) = false
  | .alone _ => True

instance (p : Platform) (job : PreparedJob) (c : Config Nat Shared ShardState)
    (e : Event Nat ShardEvent ChainEvent) : Decidable (Hears p job c e) :=
  match e with
  | .own i event => inferInstanceAs (Decidable (∀ plan ∈ job.plans[i]?,
      loses p job plan event c.shared (c.locals i) = false))
  | .alone _ => isTrue trivial

/-! ## Where a refusal is -/

/-- The loop will come to this failure. -/
inductive Remembers (st : ShardState) (f : Failure) : Prop
  | earlier (v : Verification) (entered : st.verification = some v) (mem : f ∈ v.failures)
  | inHand (v : Verification) (answered : st.phase.inHand = some v) (mem : f ∈ v.failures)
  | settled (key : JsString) (k : Nat) (flight : Flight) (v : Verification)
      (copy : st.phase.copies.get? key = some k) (at_ : st.flights[k]? = some flight)
      (answer : flight.answer = some v) (refused : v.isInsufficient = true) (mem : f ∈ v.failures)

variable {p : Platform} {job : PreparedJob} {plan : ShardPlan} {s s' : Shared}
  {st st' : ShardState} {f : Failure}

variable {key : JsString} {v : Verification}

theorem isInsufficient_of_read {flights : List Flight} {copies : InsertionMap JsString Nat}
    (h : unread flights copies = false) {k : Nat} {flight : Flight}
    (hcopy : copies.get? key = some k) (hflight : flights[k]? = some flight)
    (hanswer : flight.answer = some v) : v.isInsufficient = false := by
  have hnone := List.any_eq_false.mp h k (InsertionMap.mem_values_iff.mpr ⟨key, hcopy⟩)
  rw [hflight, Option.bind_some, hanswer] at hnone
  exact Bool.not_eq_true _ ▸ hnone

/-- With nothing in the race, it is in what earlier generations came to. -/
theorem Remembers.before (h : Remembers st f) (hinHand : st.phase.inHand = none)
    (hread : unread st.flights st.phase.copies = false) :
    ∃ v, st.verification = some v ∧ f ∈ v.failures := by
  cases h with
  | earlier v hentered hmem => exact ⟨v, hentered, hmem⟩
  | inHand v hanswered _ =>
    rw [hinHand] at hanswered
    cases hanswered
  | settled key k flight v hcopy hflight hanswer hrefused _ =>
    rw [isInsufficient_of_read hread hcopy hflight hanswer] at hrefused
    cases hrefused

theorem isAgreed_of_isInsufficient (h : v.isInsufficient = true) :
    v.isAgreed = false := by
  cases v <;> first | rfl | cases h

/-- A merge keeps the failures of what came before, where that is no agreement. -/
theorem mem_failures_of_before {before : Option Verification} {w : Verification}
    (hbefore : before = some w) (hmem : f ∈ w.failures) (hagreed : w.isAgreed = false) :
    f ∈ (mergeInto before v).failures := by
  subst hbefore
  show f ∈ (mergeVerifications w v).failures
  rw [failures_mergeVerifications, kept_eq, hagreed]
  exact List.mem_append_left _ hmem

/-- It keeps the failures of what is merged in, where that is no agreement or there
    was nothing before. -/
theorem mem_failures_of_merged {before : Option Verification} (hmem : f ∈ v.failures)
    (hagreed : before = none ∨ v.isAgreed = false) :
    f ∈ (mergeInto before v).failures := by
  cases before with
  | none => exact hmem
  | some w =>
    show f ∈ (mergeVerifications w v).failures
    rw [failures_mergeVerifications, kept_eq v, hagreed.resolve_left (Option.some_ne_none w)]
    exact List.mem_append_right _ hmem

/-- An agreement beside no reported refusal holds none of them. -/
theorem isAgreed_of_agreesBeside {reported : List Failure} (h : agreesBeside reported v = false)
    (hreported : f ∈ reported) (hmem : f ∈ v.failures) :
    v.isAgreed = false := by
  cases hagreed : v.isAgreed with
  | false => rfl
  | true =>
    rw [agreesBeside, hagreed, Bool.true_and] at h
    exact absurd (decide_eq_true hreported) (List.any_eq_false.mp h f hmem)

/-- Where the loop has it does not depend on the rest of the state. -/
theorem Remembers.same (h : Remembers st f) (hverification : st'.verification = st.verification)
    (hflights : st'.flights = st.flights) (hinHand : st'.phase.inHand = st.phase.inHand)
    (hcopies : st'.phase.copies = st.phase.copies) : Remembers st' f := by
  cases h with
  | earlier v hentered hmem => exact .earlier v (hverification.trans hentered) hmem
  | inHand v hanswered hmem => exact .inHand v (hinHand.trans hanswered) hmem
  | settled key k flight v hcopy hflight hanswer hrefused hmem =>
    exact .settled key k flight v (hcopies ▸ hcopy) (hflights ▸ hflight) hanswer hrefused hmem

variable {race : Race}

/-- A race that no refusal came out of leaves none behind. -/
theorem Remembers.lapses (h : Remembers st f) (hinHand : st.phase.inHand = race.answered)
    (hcopies : st.phase.copies = race.copies) (hquiet : race.refused st.flights = false) :
    Remembers { st with phase := race.lapses } f := by
  obtain ⟨hanswered, hread⟩ := Bool.or_eq_false_iff.mp hquiet
  have hnone : st.phase.inHand = none := hinHand.trans (Option.isSome_eq_false_iff.mp hanswered |>
    Option.isNone_iff_eq_none.mp)
  obtain ⟨v, hv, hmem⟩ := h.before hnone (by rw [hcopies]; exact hread)
  exact .earlier v hv hmem

variable {at_ : ℚ}

/-- At the head of the dispatch loop. -/
theorem Remembers.top (h : Remembers { st with phase := .racing race } f)
    (hquiet : race.lease.expired at_ = true → race.refused st.flights = false) :
    Remembers { st with phase := race.top at_ } f := by
  rcases top_cases race at_ with ⟨hexpired, heq⟩ | ⟨-, heq⟩
  · rw [heq]
    exact h.lapses rfl rfl (hquiet hexpired)
  · rw [heq]
    exact h

/-! ## Step by step -/

theorem Remembers.answer {k : Nat} {answer : DispatchAnswer}
    (h : shardStep p job plan (.answer k answer) s st = some (s', st'))
    (hkeeps : loses p job plan (.answer k answer) s st = false)
    (hall : ∀ f ∈ st.reported, Remembers st f) : ∀ f ∈ st'.reported, Remembers st' f := by
  obtain ⟨nodeIds, speculative, v, hflight, -, hv, -, rfl⟩ := answerStep_cases h
  have hold : ∀ f ∈ st.reported, Remembers { st with
      flights := st.flights.set k ⟨nodeIds, speculative, some v⟩
      reported := if v.isInsufficient && st.phase.looping then st.reported ++ v.failures
        else st.reported } f := by
    intro f hf
    cases hall f hf with
    | earlier w hentered hmem => exact .earlier w hentered hmem
    | inHand w hanswered hmem => exact .inHand w hanswered hmem
    | settled key j flight w hcopy hat hanswer hrefused hmem =>
      refine .settled key j flight w hcopy ?_ hanswer hrefused hmem
      -- The copy that settles now had not settled.
      show (st.flights.set k _)[j]? = some flight
      rw [List.getElem?_set, if_neg]
      · exact hat
      · rintro rfl
        rw [hflight, Option.some.injEq] at hat
        rw [← hat] at hanswer
        cases hanswer
  intro f hf
  change f ∈ (if v.isInsufficient && st.phase.looping then st.reported ++ v.failures
    else st.reported) at hf
  split at hf
  · next hreports =>
    rcases List.mem_append.mp hf with hf | hmem
    · exact hold f hf
    · obtain ⟨hrefused, hlooping⟩ := Bool.and_eq_true_iff.mp hreports
      have hracing : k ∈ st.phase.copies.values := by
        simp only [loses, hflight, hlooping, Bool.true_and, ← hv, hrefused, Bool.and_true,
          decide_eq_false_iff_not, not_not] at hkeeps
        exact hkeeps
      obtain ⟨key, hcopy⟩ := InsertionMap.mem_values_iff.mp hracing
      have hlt := (List.getElem?_eq_some_iff.mp hflight).1
      exact .settled key k _ v hcopy (List.getElem?_set_self hlt) rfl hrefused hmem
  · exact hold f hf

theorem Remembers.deliver (hst : Tracked st)
    (h : shardStep p job plan (.deliver key at_) s st = some (s', st'))
    (hkeeps : loses p job plan (.deliver key at_) s st = false)
    (hall : ∀ f ∈ st.reported, Remembers st f) : ∀ f ∈ st'.reported, Remembers st' f := by
  obtain ⟨race, k, flight, v, hphase, hcopy, hflight, hanswer, -, hcase⟩ := deliverStep_cases h
  simp only [loses, hphase, hcopy, Option.bind_some, hflight, hanswer] at hkeeps
  have hwaiting : ∀ w, race.answered = some w → w.isAgreed = false := by
    intro w hw
    refine isAgreed_of_isInsufficient (hst.waiting ?_ w ?_)
    · rw [hphase]
      rfl
    · rw [hphase]
      exact hw
  -- What the loop had and what the copy answered are in the merge.
  have hmerged : ∀ f ∈ st.reported, (∃ w, st.verification = some w ∧ f ∈ w.failures) ∨
      f ∈ (mergeInto race.answered v).failures ∨
      ∃ key' k' flight' v', (race.copies.delete key).get? key' = some k' ∧
        st.flights[k']? = some flight' ∧ flight'.answer = some v' ∧ v'.isInsufficient = true ∧
        f ∈ v'.failures := by
    intro f hf
    cases hall f hf with
    | earlier w hentered hmem => exact Or.inl ⟨w, hentered, hmem⟩
    | inHand w hanswered hmem =>
      rw [hphase] at hanswered
      exact Or.inr (Or.inl (mem_failures_of_before hanswered hmem (hwaiting w hanswered)))
    | settled key' k' flight' v' hcopy' hflight' hanswer' hrefused' hmem =>
      rw [hphase] at hcopy'
      change race.copies.get? key' = some k' at hcopy'
      by_cases hkey : key' = key
      · subst hkey
        rw [hcopy, Option.some.injEq] at hcopy'
        rw [← hcopy', hflight, Option.some.injEq] at hflight'
        rw [← hflight', hanswer, Option.some.injEq] at hanswer'
        subst hanswer'
        exact Or.inr (Or.inl (mem_failures_of_merged hmem
          (Or.inr (isAgreed_of_isInsufficient hrefused'))))
      · refine Or.inr (Or.inr ⟨key', k', flight', v', ?_, hflight', hanswer', hrefused', hmem⟩)
        rw [InsertionMap.get?_delete, if_neg hkey]
        exact hcopy'
  rcases hcase with ⟨hover, rfl⟩ | ⟨hrefused, hsize, rfl⟩
  · have hread : unread st.flights (race.copies.delete key) = false := by
      rcases hover with hanswered | hempty
      · simpa [hanswered] using hkeeps
      · simpa [hempty] using hkeeps
    intro f hf
    rcases hmerged f hf with ⟨w, hw, hmem⟩ | hmem | ⟨key', k', flight', v', hcopy', hflight',
      hanswer', hrefused', -⟩
    · exact .earlier w hw hmem
    · exact .inHand _ rfl hmem
    · rw [isInsufficient_of_read hread hcopy' hflight' hanswer'] at hrefused'
      cases hrefused'
  · intro f hf
    refine Remembers.top ?_ ?_
    · rcases hmerged f hf with ⟨w, hw, hmem⟩ | hmem | ⟨key', k', flight', v', hcopy', hflight',
        hanswer', hrefused', hmem⟩
      · exact .earlier w hw hmem
      · exact .inHand _ rfl hmem
      · exact .settled key' k' flight' v' hcopy' hflight' hanswer' hrefused' hmem
    · intro hexpired
      change race.lease.expired at_ = true at hexpired
      have hne : ((race.copies.delete key).size != 0) = true := bne_iff_ne.mpr hsize
      rw [hrefused, hne, Bool.and_true, if_pos rfl, hexpired] at hkeeps
      cases hkeeps

/-- Where the lease is renewed the tick goes on to the probe. -/
theorem tickStep_probing {woke : ℚ} (hphase : st.phase = .racing race)
    (h : tickStep p job plan woke at_ s st = some (s', st'))
    (hlive : race.lease.expired woke = false) (hrenewable : race.renewable = true)
    (hdue : shouldRenew race.lease woke = true) : ∃ race', st'.phase = .probing race' woke := by
  unfold tickStep at h
  rw [hphase] at h
  simp only [hlive, Bool.false_eq_true, if_false] at h
  rcases speculate_cases p job plan woke race s st with ⟨watching, heq⟩ | ⟨_, _, _, -, -, -, -, heq⟩
  all_goals
    rw [heq] at h
    simp only [hrenewable, hdue, Bool.not_true, Bool.or_self, Bool.false_eq_true, if_false] at h
    cases h
    exact ⟨_, rfl⟩

/-- A copy that has just joined the race has not settled. -/
theorem unread_set {copies : InsertionMap JsString Nat} {nodeIds : List JsString}
    {speculative : Bool} {flights : List Flight} (h : unread flights copies = false) :
    unread (flights ++ [⟨nodeIds, speculative, none⟩]) (copies.set key flights.length) = false := by
  apply List.any_eq_false.mpr
  intro k hk
  obtain ⟨key', hget⟩ := InsertionMap.mem_values_iff.mp hk
  rw [Bool.not_eq_true, Option.any_eq_false]
  intro v hv
  obtain ⟨flight, hflight, hanswer⟩ := Option.bind_eq_some_iff.mp hv
  rcases getElem?_concat_cases hflight with hold | ⟨-, rfl⟩
  · rw [InsertionMap.get?_set] at hget
    split at hget
    · rw [← Option.some.inj hget] at hold
      exact absurd (List.getElem?_eq_some_iff.mp hold).1 (Nat.lt_irrefl _)
    · exact isInsufficient_of_read h hget hold hanswer
  · cases hanswer

theorem Remembers.tick {woke : ℚ} (hst : Tracked st)
    (h : shardStep p job plan (.tick woke at_) s st = some (s', st'))
    (hkeeps : loses p job plan (.tick woke at_) s st = false)
    (hall : ∀ f ∈ st.reported, Remembers st f) : ∀ f ∈ st'.reported, Remembers st' f := by
  obtain ⟨race, hphase, hcase⟩ := tickStep_cases h
  simp only [loses, hphase] at hkeeps
  rcases hcase with ⟨hexpired, -, rfl⟩ | ⟨s₁, st₁, race₁, hspeculate, hlive, -, hst'⟩
  · rw [hexpired, Bool.true_or, Bool.and_true] at hkeeps
    intro f hf
    exact (hall f hf).lapses (by rw [hphase]; rfl) (by rw [hphase]; rfl) hkeeps
  · -- The look may add a copy, and that is all it does to the race.
    have hlook : st₁.reported = st.reported ∧ race₁.lease = race.lease ∧
        (race.refused st.flights = false → race₁.refused st₁.flights = false) ∧
        ∀ f, Remembers st f → Remembers { st₁ with phase := .racing race₁ } f := by
      rcases speculate_cases p job plan woke race s st with
        ⟨watching, heq⟩ | ⟨target, others, ledger, -, -, hcandidates, -, heq⟩
      · rw [heq] at hspeculate
        cases hspeculate
        refine ⟨rfl, rfl, id, fun f hf => hf.same rfl rfl ?_ ?_⟩
        · rw [hphase]
          rfl
        · rw [hphase]
          rfl
      · rw [heq] at hspeculate
        cases hspeculate
        refine ⟨rfl, rfl, fun hquiet => ?_, fun f hf => ?_⟩
        · obtain ⟨hanswered, hread⟩ := Bool.or_eq_false_iff.mp hquiet
          exact Bool.or_eq_false_iff.mpr ⟨hanswered, unread_set hread⟩
        · cases hf with
          | earlier v hentered hmem => exact .earlier v hentered hmem
          | inHand v hanswered hmem =>
            rw [hphase] at hanswered
            exact .inHand v hanswered hmem
          | settled key k flight v hcopy hflight hanswer hrefused hmem =>
            have hkey := hst.keys key k hcopy
            rw [hphase] at hcopy
            change race.copies.get? key = some k at hcopy
            refine .settled key k flight v ?_ ?_ hanswer hrefused hmem
            · show (race.copies.set target.nodeId st.flights.length).get? key = some k
              -- No copy in the race has the new one's key.
              have htarget : target ∈ speculativeCandidates (plan.request 1) plan.gate.pool
                  st.attempted := by
                rw [hcandidates]
                exact List.mem_cons_self
              have hfresh := (mem_speculativeCandidates.mp htarget).2
              have hne : key ≠ target.nodeId := fun heq => hfresh (heq ▸ hkey)
              rw [InsertionMap.get?_set, if_neg hne]
              exact hcopy
            · show (st.flights ++ [_])[k]? = some flight
              rw [List.getElem?_append_left (List.getElem?_eq_some_iff.mp hflight).1]
              exact hflight
    obtain ⟨hreported, hlease, hquiet, hkept⟩ := hlook
    rcases hst' with rfl | ⟨-, -, rfl⟩
    · intro f hf
      change f ∈ st₁.reported at hf
      rw [hreported] at hf
      refine (hkept f (hall f hf)).top fun hexpired => hquiet ?_
      rw [hlease] at hexpired
      have hnotDue : (race.renewable && shouldRenew race.lease woke) = false := by
        cases hdue : race.renewable && shouldRenew race.lease woke with
        | false => rfl
        | true =>
          obtain ⟨hrenewable, hshould⟩ := Bool.and_eq_true_iff.mp hdue
          obtain ⟨race', hprobing⟩ := tickStep_probing hphase h hlive hrenewable hshould
          rcases top_cases race₁ at_ with ⟨-, heq⟩ | ⟨-, heq⟩
          · change race₁.top at_ = _ at hprobing
            rw [heq] at hprobing
            cases hprobing
          · change race₁.top at_ = _ at hprobing
            rw [heq] at hprobing
            cases hprobing
      simpa [hnotDue, hexpired] using hkeeps
    · intro f hf
      change f ∈ st₁.reported at hf
      rw [hreported] at hf
      exact (hkept f (hall f hf)).same rfl rfl rfl rfl

theorem Remembers.probed {working : Bool}
    (h : shardStep p job plan (.probed working at_) s st = some (s', st'))
    (hkeeps : loses p job plan (.probed working at_) s st = false)
    (hall : ∀ f ∈ st.reported, Remembers st f) : ∀ f ∈ st'.reported, Remembers st' f := by
  obtain ⟨race, woke, hphase, hcase⟩ := probedStep_cases h
  have hinHand : st.phase.inHand = race.answered := by
    rw [hphase]
    rfl
  have hcopies : st.phase.copies = race.copies := by
    rw [hphase]
    rfl
  simp only [loses, hphase] at hkeeps
  rcases hcase with ⟨rfl, -, rfl⟩ | ⟨rfl, leases, hrenew, -, rfl⟩ | ⟨rfl, lease, leases, hrenew, -, rfl⟩
  · intro f hf
    refine Remembers.top ((hall f hf).same rfl rfl hinHand.symm hcopies.symm) fun hexpired => ?_
    change race.lease.expired at_ = true at hexpired
    show race.refused st.flights = false
    simpa [hexpired] using hkeeps
  · rw [hrenew, Bool.and_true] at hkeeps
    exact fun f hf => (hall f hf).lapses hinHand hcopies hkeeps
  · intro f hf
    refine Remembers.top ((hall f hf).same rfl rfl hinHand.symm hcopies.symm) fun hexpired => ?_
    change lease.expired at_ = true at hexpired
    show race.refused st.flights = false
    simpa [hrenew, hexpired] using hkeeps

theorem Remembers.resume {now : ℚ}
    (h : shardStep p job plan (.resume now at_) s st = some (s', st'))
    (hkeeps : loses p job plan (.resume now at_) s st = false)
    (hall : ∀ f ∈ st.reported, Remembers st f) : ∀ f ∈ st'.reported, Remembers st' f := by
  obtain ⟨⟨dispatched, speculated, judgedAt, holderId, startedAt⟩, hphase, ⟨dropped, rfl, -, rfl⟩ |
    ⟨v, outstanding, merged, rfl, rfl, hcase⟩⟩ := resumeStep_cases h
  · intro f hf
    obtain ⟨v, hv, hmem⟩ := (hall f hf).before (by rw [hphase]; rfl) (by rw [hphase]; rfl)
    exact .earlier v hv hmem
  · simp only [loses, hphase] at hkeeps
    have hmerged : ∀ f ∈ st.reported, f ∈ (mergeInto st.verification v).failures := by
      intro f hf
      have hagreed : ∀ w, st.verification = some w →
          agreesBeside st.reported w = false ∧ agreesBeside st.reported v = false := by
        intro w hw
        rw [hw] at hkeeps
        exact Bool.or_eq_false_iff.mp hkeeps
      cases hall f hf with
      | earlier w hentered hmem =>
        exact mem_failures_of_before hentered hmem
          (isAgreed_of_agreesBeside (hagreed w hentered).1 hf hmem)
      | inHand w hanswered hmem =>
        rw [hphase] at hanswered
        cases hanswered
        refine mem_failures_of_merged hmem ?_
        cases hbefore : st.verification with
        | none => exact Or.inl rfl
        | some w => exact Or.inr (isAgreed_of_agreesBeside (hagreed w hbefore).2 hf hmem)
      | settled key k flight w hcopy _ _ _ _ =>
        rw [hphase] at hcopy
        cases hcopy
    rcases hcase with ⟨-, ⟨-, -, rfl⟩ | ⟨-, -, rfl⟩⟩ | ⟨-, -, rfl⟩
    all_goals exact fun f hf => .earlier _ rfl (hmerged f hf)

/-- A shard's step that loses no refusal. -/
theorem Remembers.step {event : ShardEvent} (hst : Tracked st)
    (h : shardStep p job plan event s st = some (s', st'))
    (hkeeps : loses p job plan event s st = false)
    (hall : ∀ f ∈ st.reported, Remembers st f) : ∀ f ∈ st'.reported, Remembers st' f := by
  -- Outside a race, only what earlier generations came to is left.
  have hbare : st.phase.inHand = none → st.phase.copies = .empty → st'.reported = st.reported →
      st'.verification = st.verification → ∀ f ∈ st'.reported, Remembers st' f := by
    intro hinHand hcopies hreported hverification f hf
    rw [hreported] at hf
    obtain ⟨v, hv, hmem⟩ := (hall f hf).before hinHand (by rw [hcopies]; rfl)
    exact .earlier v (hverification.trans hv) hmem
  cases event with
  | grant now startedAt at_ =>
    obtain ⟨nodeIds, hphase, ⟨_, -, -, rfl⟩ | ⟨lease, _, -, -, rfl⟩⟩ := grantStep_cases h
    all_goals exact hbare (by rw [hphase]; rfl) (by rw [hphase]; rfl) rfl rfl
  | answer k answer => exact Remembers.answer h hkeeps hall
  | deliver key at_ => exact Remembers.deliver hst h hkeeps hall
  | tick woke at_ => exact Remembers.tick hst h hkeeps hall
  | probed working at_ => exact Remembers.probed h hkeeps hall
  | resume now at_ => exact Remembers.resume h hkeeps hall
  | place ask =>
    obtain ⟨hphase, -, ⟨_, _, _, -, rfl⟩ | ⟨_, -, rfl⟩⟩ := placeStep_cases h
    all_goals exact hbare (by rw [hphase]; rfl) (by rw [hphase]; rfl) rfl rfl
  | store =>
    obtain ⟨ending, _, _, _, _, _, _, _, hphase, -, -, rfl⟩ := storeStep_cases h
    exact hbare (by rw [hphase]; rfl) (by rw [hphase]; rfl) rfl rfl
  | record =>
    obtain ⟨ending, _, hphase, -, ⟨-, -, rfl⟩ | ⟨-, -, rfl⟩⟩ := recordStep_cases h
    all_goals exact hbare (by rw [hphase]; rfl) (by rw [hphase]; rfl) rfl rfl
  | finish =>
    obtain ⟨-, ending, hphase, rfl⟩ := finishStep_cases h
    have hempty : st.phase.inHand = none ∧ st.phase.copies = .empty := by
      rcases hphase with ⟨hphase, -⟩ | ⟨_, hphase, -⟩ <;> rw [hphase] <;> exact ⟨rfl, rfl⟩
    rcases settle_cases p job plan ending st with ⟨-, heq⟩ | ⟨_, -, heq⟩ <;> rw [heq] at hbare ⊢
    all_goals exact hbare hempty.1 hempty.2 rfl rfl

/-- Every refusal reported so far is kept, and the result has them all. -/
structure Remembered (st : ShardState) : Prop where
  held : ∀ f ∈ st.reported, Remembers st f
  settled : ∀ shard, st.phase = .settled shard →
    ∀ f ∈ st.reported, f ∈ shard.result.verification.failures

theorem Remembered.step {event : ShardEvent} (hst : Tracked st) (hall : Remembered st)
    (hkeeps : loses p job plan event s st = false)
    (h : shardStep p job plan event s st = some (s', st')) : Remembered st' := by
  refine ⟨Remembers.step hst h hkeeps hall.held, ?_⟩
  intro shard hphase f hf
  rcases shardStep_settled h hphase with ⟨hbefore, -, -, -, hreported⟩ |
    ⟨ending, attestation, rfl, rfl, -, hended, -, -⟩
  · rw [hreported] at hf
    exact hall.settled shard hbefore f hf
  · have hempty : st.phase.inHand = none ∧ st.phase.copies = .empty := by
      rcases hended with ⟨-, hphase⟩ | ⟨_, hphase⟩ <;> rw [hphase] <;> exact ⟨rfl, rfl⟩
    obtain ⟨v, hv, hmem⟩ := (hall.held f hf).before hempty.1 (by rw [hempty.2]; rfl)
    show f ∈ (settledOf plan ending st).failures
    rw [settledOf, hv]
    exact hmem

theorem remembered_start (plan : ShardPlan) : Remembered (startShard plan) := by
  have hnone : (startShard plan).reported = [] := by
    unfold startShard
    split
    · rfl
    · split <;> rfl
  refine ⟨fun f hf => ?_, fun shard _ f hf => ?_⟩
  · rw [hnone] at hf
    cases hf
  · rw [hnone] at hf
    cases hf

section

variable {spec : JobSpec} {options : SubmitOptions} {blocks : Blocks}
  {ask : Bool → Nat → Offer → Admission} {now : ℚ} {prepared : Prepared}
  {c : Config Nat Shared ShardState}

/-- In every state that a run reaches without losing a refusal, none is lost. -/
theorem remembered (hprepared : PreparedFrom p spec options ask prepared)
    (hreach : ReachesWhere p prepared (Hears p prepared.job) c) {i : Nat}
    (hplan : prepared.job.plans[i]? = some plan) : Remembered (c.locals i) := by
  refine (eachShard hreach (I := fun _ _ st =>
    Throughout VerificationResult.Split st ∧ Tracked st ∧ Remembered st) ?_ ?_ hplan).2.2
  · exact fun i plan hplan => ⟨throughout_start _ plan, tracked_start hprepared hplan,
      remembered_start plan⟩
  · rintro c i plan event s l hguard hplan ⟨hall, hst, hremembered⟩ hstep
    refine ⟨?_, hst.step hall hstep, hremembered.step hst (hguard plan hplan) hstep⟩
    exact (shardStep_effects hstep).invariant hall fun _ _ hall heffect =>
      hall.effect (fun _ _ => verificationOf_split _ _ _ _)
        (fun _ _ hv hw => (cids_mergeVerifications hv hw).2) heffect

/-- No refusal is lost: what a copy reported while its shard's loop ran is among the
    failures of the shard's result, in every run none of whose steps loses one. -/
theorem refusals_reach_the_result (hprepare : prepare p spec options blocks ask now = .ok prepared)
    (hreach : ReachesWhere p prepared (Hears p prepared.job) c) {result : JobResult}
    (hconclude : conclude p prepared.job c = some result) {i : Nat} {shard : ShardResult}
    (hshard : result.shards[i]? = some shard) :
    ∀ f ∈ (c.locals i).reported, f ∈ shard.verification.failures := by
  intro f hf
  obtain ⟨hi, hresult⟩ := conclude_getElem? hconclude hshard
  obtain ⟨settled, hphase, rfl⟩ := settledResult_eq_some.mp hresult
  have hall := remembered (prepare_ok hprepare) hreach (List.getElem?_eq_getElem hi)
  obtain ⟨copies, disagreed, heq⟩ :=
    compared_eq p prepared.job settled (c.locals i).flights
  rw [heq]
  exact hall.settled settled hphase f hf

end

/-- Four shards on three nodes, and a duplicate for each that straggles. -/
def stragglingSpec : JobSpec :=
  bareSpec (List.replicate 4 ⟨.null, .pub⟩)
    [bareNode (js "k") (js "o"), bareNode (js "m") (js "o"), bareNode (js "n") (js "o")] 1

def stragglingOptions : SubmitOptions := ⟨.dial ⟨some 1, none, none, none⟩, false, []⟩

/-- A shard that its node answers at once. -/
def promptRun (i : Nat) (nodeId : JsString) : List (Event Nat ShardEvent ChainEvent) :=
  [.own i (.grant 0 0 0), .own i (.answer 0 (.verified [answers])), .own i (.deliver nodeId 1),
    .own i (.resume 1 1), .own i .store, .own i .record, .own i .finish]

/-- All answer but the first, which gets a duplicate that refuses. -/
def stragglingRun : List (Event Nat ShardEvent ChainEvent) :=
  promptRun 1 (js "m") ++ promptRun 2 (js "n") ++ promptRun 3 (js "k")
    ++ [.own 0 (.grant 0 0 0), .own 0 (.tick 100 100), .own 0 (.answer 1 (.verified [refuses])),
      .own 0 (.deliver (js "m") 101)]

/-- Then the first answers. -/
def refusedRun : List (Event Nat ShardEvent ChainEvent) :=
  stragglingRun ++ [.own 0 (.answer 0 (.verified [answers])), .own 0 (.deliver (js "k") 102),
    .own 0 (.resume 102 102), .own 0 .store, .own 0 .record, .own 0 .finish]

/-- Then the first lets its lease lapse, and the third node answers. -/
def silentRun : List (Event Nat ShardEvent ChainEvent) :=
  stragglingRun ++ [.own 0 (.tick 40000 40000), .own 0 (.resume 40000 40000),
    .own 0 (.place fun _ _ => .accepted none), .own 0 (.grant 40000 40000 40000),
    .own 0 (.answer 2 (.verified [answers])), .own 0 (.deliver (js "n") 40001),
    .own 0 (.resume 40001 40001), .own 0 .store, .own 0 .record, .own 0 .finish]

theorem refusals_reach_the_result_refused : ∃ prepared c result shard f,
    playWhere plain stragglingSpec stragglingOptions (fun _ => none) (fun _ _ _ => .accepted none)
      0 (Hears plain) refusedRun = some (prepared, c) ∧
    conclude plain prepared.job c = some result ∧ result.shards[0]? = some shard ∧
    (c.locals 0).reported = [f] ∧ f ∈ shard.verification.failures := by
  have hrun : ((playWhere plain stragglingSpec stragglingOptions (fun _ => none)
      (fun _ _ _ => .accepted none) 0 (Hears plain) refusedRun).bind fun run =>
        (conclude plain run.1.job run.2).bind fun result => result.shards[0]?.map fun _ =>
          (run.2.locals 0).reported.length) = some 1 := by
    decide +kernel
  obtain ⟨⟨prepared, c⟩, hplay, hrun⟩ := Option.bind_eq_some_iff.mp hrun
  obtain ⟨result, hconclude, hrun⟩ := Option.bind_eq_some_iff.mp hrun
  obtain ⟨shard, hshard, hlength⟩ := Option.map_eq_some_iff.mp hrun
  obtain ⟨f, hreported⟩ := List.length_eq_one_iff.mp hlength
  obtain ⟨hprepare, hreach⟩ := playWhere_spec hplay
  refine ⟨prepared, c, result, shard, f, hplay, hconclude, hshard, hreported, ?_⟩
  exact refusals_reach_the_result hprepare hreach hconclude hshard f
    (hreported ▸ List.mem_singleton_self f)

/-- A refusal that was read goes when the lease of its race runs out. -/
theorem lapse_loses_a_refusal : ∃ prepared c result shard,
    playOut plain stragglingSpec stragglingOptions (fun _ => none) (fun _ _ _ => .accepted none)
      0 silentRun = some (prepared, c) ∧
    conclude plain prepared.job c = some result ∧ result.shards[0]? = some shard ∧
    ∃ f ∈ (c.locals 0).reported, f ∉ shard.verification.failures := by
  have hrun : ((playOut plain stragglingSpec stragglingOptions (fun _ => none)
      (fun _ _ _ => .accepted none) 0 silentRun).bind fun run =>
        (conclude plain run.1.job run.2).bind fun result => result.shards[0]?.map fun shard =>
          ((run.2.locals 0).reported.length, shard.verification.failures.length)) = some (1, 0) := by
    decide +kernel
  obtain ⟨⟨prepared, c⟩, hplay, hrun⟩ := Option.bind_eq_some_iff.mp hrun
  obtain ⟨result, hconclude, hrun⟩ := Option.bind_eq_some_iff.mp hrun
  obtain ⟨shard, hshard, hlengths⟩ := Option.map_eq_some_iff.mp hrun
  obtain ⟨hreported, hfailures⟩ := Prod.mk.inj hlengths
  obtain ⟨f, hreported⟩ := List.length_eq_one_iff.mp hreported
  refine ⟨prepared, c, result, shard, hplay, hconclude, hshard, f, ?_, ?_⟩
  · rw [show (c.locals 0).reported = [f] from hreported]
    exact List.mem_singleton_self f
  · rw [List.length_eq_zero_iff.mp hfailures]
    exact List.not_mem_nil

end O2Fabric.Submit
