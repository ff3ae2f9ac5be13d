/-
  O2Fabric.Core.Job.Submit.Heard

  No answer is lost sight of.  At any time a copy of a shard is in the race, is
  handed on to the comparison, was still silent when the lease of its race ran
  out, or has answered and every address it answered is one the loop has taken
  in.

  The last kind relies on two facts that are kept along: a race goes on only
  while nothing but refusals came out of it, so a lapse takes no address with it;
  and no copy joins a race under the key of another.
-/

import O2Fabric.Core.Job.Submit.Sovereign

namespace O2Fabric.Submit

open Job Threads

/-! ## What was taken in -/

/-- The addresses answered in a verification, where there is one. -/
def cidsOf (v : Option Verification) : List JsString := (v.map VerificationResult.cids).getD []

/-- The addresses the loop has taken in, from earlier generations and this one. -/
def heard (st : ShardState) : List JsString := cidsOf st.verification ++ cidsOf st.phase.inHand

variable {before : Option Verification} {v : Verification}

/-- Merged in, an answer adds its addresses to those there were. -/
theorem cids_mergeInto (hbefore : ∀ w, before = some w → w.Split) (hv : v.Split) :
    (∀ x, x ∈ (mergeInto before v).cids ↔ x ∈ cidsOf before ∨ x ∈ v.cids) ∧
      (mergeInto before v).Split := by
  cases before with
  | none => exact ⟨fun x => (or_iff_right List.not_mem_nil).symm, hv⟩
  | some before => exact cids_mergeVerifications (hbefore before rfl) hv

/-- Refusals merge into a refusal. -/
theorem isInsufficient_mergeInto (hbefore : ∀ w, before = some w → w.isInsufficient = true)
    (hv : v.isInsufficient = true) :
    (mergeInto before v).isInsufficient = true := by
  cases before with
  | none => exact hv
  | some before =>
    have hw := hbefore before rfl
    cases before <;> cases hw
    cases v <;> cases hv
    rfl

/-- A refusal has no address. -/
theorem cidsOf_of_refusals (h : ∀ w, before = some w → w.isInsufficient = true) :
    cidsOf before = [] := by
  cases before with
  | none => rfl
  | some before =>
    have hw := h before rfl
    cases before <;> cases hw
    rfl

theorem verificationOf_split (p : Platform) (task : Task) (nodeIds : List JsString)
    (answer : DispatchAnswer) : (verificationOf p task nodeIds answer).Split := by
  cases answer with
  | verified outcomes => exact executeVerified_split task _
  | ceremony outcomes => exact executeCommitReveal_split _
  | threw message => trivial

/-! ## Where a copy is -/

/-- What has become of the copy at this place of the list. -/
inductive Accounted (dropped outstanding : List Nat) (copies : InsertionMap JsString Nat)
    (heard : List JsString) (k : Nat) (flight : Flight) : Prop
  | dropped (left : k ∈ dropped)
  | outstanding (waiting : k ∈ outstanding)
  | racing (key : JsString) (copy : copies.get? key = some k)
  | heard (v : Verification) (answer : flight.answer = some v) (taken : ∀ x ∈ v.cids, x ∈ heard)

/-- Whatever was accounted for still is, where nothing is taken away. -/
theorem Accounted.mono {dropped dropped' outstanding outstanding' : List Nat}
    {copies copies' : InsertionMap JsString Nat} {heard heard' : List JsString} {k : Nat}
    {flight : Flight} (h : Accounted dropped outstanding copies heard k flight)
    (hdropped : dropped ⊆ dropped') (houtstanding : outstanding ⊆ outstanding')
    (hcopies : ∀ key, copies.get? key = some k →
      Accounted dropped' outstanding' copies' heard' k flight) (hheard : heard ⊆ heard') :
    Accounted dropped' outstanding' copies' heard' k flight := by
  cases h with
  | dropped hleft => exact .dropped (hdropped hleft)
  | outstanding hwaiting => exact .outstanding (houtstanding hwaiting)
  | racing key hcopy => exact hcopies key hcopy
  | heard v hanswer htaken => exact .heard v hanswer fun x hx => hheard (htaken x hx)

/-- Nor where one copy is taken out of the race with its addresses taken in. -/
theorem Accounted.delivered {dropped dropped' outstanding outstanding' : List Nat}
    {copies copies' : InsertionMap JsString Nat} {heard heard' : List JsString} {k j : Nat}
    {flights : List Flight} {flight other : Flight} {key : JsString}
    (h : Accounted dropped outstanding copies heard j other) (hother : flights[j]? = some other)
    (hcopy : copies.get? key = some k) (hflight : flights[k]? = some flight)
    (hanswer : flight.answer = some v) (hdropped : dropped ⊆ dropped')
    (houtstanding : outstanding ⊆ outstanding') (hheard : heard ⊆ heard')
    (htaken : ∀ x ∈ v.cids, x ∈ heard') (hrest : ∀ key', (copies.delete key).get? key' = some j →
      Accounted dropped' outstanding' copies' heard' j other) :
    Accounted dropped' outstanding' copies' heard' j other := by
  refine h.mono hdropped houtstanding (fun key' hget => ?_) hheard
  by_cases hkey : key' = key
  · -- It is the one that was delivered.
    rw [hkey, hcopy, Option.some.injEq] at hget
    rw [← hget, hflight, Option.some.injEq] at hother
    exact .heard v (hother ▸ hanswer) htaken
  · apply hrest key'
    rw [InsertionMap.get?_delete, if_neg hkey]
    exact hget

/-- Every copy is accounted for. -/
structure Tracked (st : ShardState) : Prop where
  granting : ∀ nodeIds, st.phase = .granting nodeIds → nodeIds ≠ []
  keys : ∀ key k, st.phase.copies.get? key = some k → key ∈ st.attempted
  waiting : st.phase.isRacing = true → ∀ v, st.phase.inHand = some v → v.isInsufficient = true
  accounted : ∀ k flight, st.flights[k]? = some flight →
    Accounted (st.dropped ++ st.phase.dropping) (st.outstanding ++ st.phase.handed)
      st.phase.copies (heard st) k flight

theorem mem_heard {st : ShardState} {x : JsString} :
    x ∈ heard st ↔ x ∈ cidsOf st.verification ∨ x ∈ cidsOf st.phase.inHand := List.mem_append

theorem append_nil_subset (xs ys : List Nat) : xs ++ [] ⊆ xs ++ ys := by
  rw [List.append_nil]
  exact List.subset_append_left xs ys

variable {p : Platform} {job : PreparedJob} {plan : ShardPlan} {s s' : Shared}
  {st st' : ShardState}

/-- A step that only moves on leaves every copy where it was. -/
theorem Tracked.unmoved (hst : Tracked st) (h : Unmoved st st')
    (hgranting : ∀ nodeIds, st'.phase = .granting nodeIds → nodeIds ≠ []) : Tracked st' := by
  refine ⟨hgranting, ?_, ?_, ?_⟩
  · rw [h.copies, h.attempted]
    exact hst.keys
  · rw [h.racing, h.inHand]
    exact hst.waiting
  · intro k flight hflight
    rw [h.flights] at hflight
    have hheard : heard st' = heard st := by
      rw [heard, heard, h.verification, h.inHand]
    rw [h.dropped, h.dropping, h.outstanding, h.handed, h.copies, hheard]
    exact hst.accounted k flight hflight

theorem Tracked.effect {event : ShardEvent} (hst : Tracked st)
    (hall : Throughout VerificationResult.Split st)
    (h : Effect p job plan event st st') : Tracked st' := by
  have hnever : ∀ {phase : Phase}, (∀ nodeIds, phase ≠ .granting nodeIds) →
      ∀ nodeIds, phase = .granting nodeIds → nodeIds ≠ [] :=
    fun hphase nodeIds heq => absurd heq (hphase nodeIds)
  have hrefusals : ∀ race, st.phase = .racing race →
      ∀ v, race.answered = some v → v.isInsufficient = true := by
    intro race hphase
    have := hst.waiting
    rw [hphase] at this
    exact this rfl
  have hsplit : ∀ race, st.phase = .racing race → ∀ v, race.answered = some v → v.Split := by
    intro race hphase
    have := hall.inHand
    rwa [hphase] at this
  cases h with
  | idle hunmoved hgranting =>
    exact hst.unmoved hunmoved fun nodeIds hphase => hst.granting nodeIds (hgranting nodeIds hphase)
  | placed ask _ nodeIds rejections degraded _ hagain hunmoved hgranting =>
    refine hst.unmoved hunmoved fun nodeIds' hphase => ?_
    rw [hgranting] at hphase
    cases hphase
    exact (placeAgain_drawn hagain).1.ne_nil
  | granted nodeIds race hphase hcopies hanswered hafter =>
    subst hafter
    obtain ⟨first, rest, rfl⟩ := List.exists_cons_of_ne_nil (hst.granting nodeIds hphase)
    refine ⟨hnever fun _ => Phase.noConfusion, ?_, ?_, ?_⟩
    · intro key k hget
      change race.copies.get? key = some k at hget
      rw [hcopies, InsertionMap.get?_set] at hget
      split at hget
      · next heq =>
        rw [heq]
        exact List.mem_append_right _ List.mem_cons_self
      · exact get?_empty_ne hget
    · intro _ v hv
      change race.answered = some v at hv
      rw [hanswered] at hv
      cases hv
    · intro k flight hflight
      rcases getElem?_concat_cases hflight with hold | ⟨rfl, -⟩
      · have hbefore := hst.accounted k flight hold
        rw [hphase] at hbefore
        refine hbefore.mono (List.Subset.refl _) (List.Subset.refl _) (fun _ => get?_empty_ne) ?_
        intro x hx
        rw [mem_heard, hphase] at hx
        exact mem_heard.mpr (Or.inl (hx.resolve_right List.not_mem_nil))
      · refine .racing first ?_
        show race.copies.get? first = _
        rw [hcopies]
        exact InsertionMap.get?_set_self _ _ _
  | copied race race' target hphase hcandidate hcopies hanswered hafter =>
    subst hafter
    have hfresh : target.nodeId ∉ st.attempted := (mem_speculativeCandidates.mp hcandidate).2
    have hkeys : ∀ key k, race.copies.get? key = some k → key ∈ st.attempted := by
      have := hst.keys
      rwa [hphase] at this
    refine ⟨hnever fun _ => Phase.noConfusion, ?_, ?_, ?_⟩
    · intro key k hget
      change race'.copies.get? key = some k at hget
      rw [hcopies, InsertionMap.get?_set] at hget
      split at hget
      · next heq =>
        rw [heq]
        exact List.mem_append_right _ List.mem_cons_self
      · exact List.mem_append_left _ (hkeys key k hget)
    · intro _ v hv
      change race'.answered = some v at hv
      rw [hanswered] at hv
      exact hrefusals race hphase v hv
    · intro k flight hflight
      rcases getElem?_concat_cases hflight with hold | ⟨rfl, -⟩
      · have hbefore := hst.accounted k flight hold
        rw [hphase] at hbefore
        refine hbefore.mono (List.Subset.refl _) (List.Subset.refl _) ?_ ?_
        · intro key hget
          refine .racing key ?_
          show race'.copies.get? key = some k
          -- No copy in the race has the new one's key.
          have hne : key ≠ target.nodeId := fun heq => hfresh (heq ▸ hkeys key k hget)
          rw [hcopies, InsertionMap.get?_set, if_neg hne]
          exact hget
        · intro x hx
          rw [mem_heard, hphase] at hx
          refine mem_heard.mpr (hx.imp_right fun h => ?_)
          show x ∈ cidsOf race'.answered
          rw [hanswered]
          exact h
      · refine .racing target.nodeId ?_
        show race'.copies.get? _ = _
        rw [hcopies]
        exact InsertionMap.get?_set_self _ _ _
  | answered k nodeIds speculative answer v hflight hfits hv hafter =>
    subst hafter
    refine ⟨hst.granting, hst.keys, hst.waiting, ?_⟩
    intro j flight hget
    rw [List.getElem?_set] at hget
    split at hget
    · next heq =>
      subst heq
      -- A copy that had not answered was not taken in yet.
      have hbefore := hst.accounted k _ hflight
      cases hbefore with
      | dropped hleft => exact .dropped hleft
      | outstanding hwaiting => exact .outstanding hwaiting
      | racing key hcopy => exact .racing key hcopy
      | heard w hanswer _ => cases hanswer
    · exact hst.accounted j flight hget
  | won race key k flight v hphase hcopy hflight hanswer hending hafter =>
    subst hafter
    have hv : v.Split := hall.answers flight (List.mem_of_getElem? hflight) v hanswer
    obtain ⟨hcids, -⟩ := cids_mergeInto (hsplit race hphase) hv
    refine ⟨hnever fun _ => Phase.noConfusion, fun _ _ => get?_empty_ne, (fun h => by cases h), ?_⟩
    intro j other hother
    have hbefore := hst.accounted j other hother
    rw [hphase] at hbefore
    refine hbefore.delivered hother hcopy hflight hanswer (List.Subset.refl _) ?_ ?_ ?_ ?_
    · exact append_nil_subset _ _
    · intro x hx
      rw [mem_heard, hphase] at hx
      exact mem_heard.mpr (hx.imp_right fun h => (hcids x).mpr (Or.inl h))
    · exact fun x hx => mem_heard.mpr (Or.inr ((hcids x).mpr (Or.inr hx)))
    · exact fun key' hget => .outstanding (List.mem_append_right _ (InsertionMap.mem_values_iff.mpr ⟨key', hget⟩))
  | waited race key k flight v hphase hcopy hflight hanswer hrefused hafter =>
    subst hafter
    have hv : v.Split := hall.answers flight (List.mem_of_getElem? hflight) v hanswer
    obtain ⟨hcids, -⟩ := cids_mergeInto (hsplit race hphase) hv
    have hkeys : ∀ key k, race.copies.get? key = some k → key ∈ st.attempted := by
      have := hst.keys
      rwa [hphase] at this
    refine ⟨hnever fun _ => Phase.noConfusion, ?_, ?_, ?_⟩
    · intro key' j hget
      change (race.copies.delete key).get? key' = some j at hget
      rw [InsertionMap.get?_delete] at hget
      split at hget
      · cases hget
      · exact hkeys key' j hget
    · intro _ w hw
      cases hw
      exact isInsufficient_mergeInto (hrefusals race hphase) hrefused
    · intro j other hother
      have hbefore := hst.accounted j other hother
      rw [hphase] at hbefore
      refine hbefore.delivered hother hcopy hflight hanswer (List.Subset.refl _)
        (List.Subset.refl _) ?_ ?_ ?_
      · intro x hx
        rw [mem_heard, hphase] at hx
        exact mem_heard.mpr (hx.imp_right fun h => (hcids x).mpr (Or.inl h))
      · exact fun x hx => mem_heard.mpr (Or.inr ((hcids x).mpr (Or.inr hx)))
      · exact fun key' hget => .racing key' hget
  | lapsed race hcopies hinHand hrunning hafter =>
    subst hafter
    have hbare : st.phase.dropping = [] ∧ st.phase.handed = [] ∧ st.phase.isRacing = true := by
      rcases hrunning with hphase | ⟨woke, hphase⟩ <;> rw [hphase] <;> exact ⟨rfl, rfl, rfl⟩
    obtain ⟨hdropping, hhanded, hracing⟩ := hbare
    refine ⟨hnever fun _ => Phase.noConfusion, fun _ _ => get?_empty_ne, (fun h => by cases h), ?_⟩
    intro j other hother
    have hbefore := hst.accounted j other hother
    rw [hdropping, hhanded, hcopies] at hbefore
    refine hbefore.mono ?_ (List.Subset.refl _) ?_ ?_
    · exact append_nil_subset _ _
    · exact fun key hget => .dropped (List.mem_append_right _ (InsertionMap.mem_values_iff.mpr ⟨key, hget⟩))
    · intro x hx
      -- Only refusals came out of the race, and they have no address.
      rw [mem_heard, cidsOf_of_refusals (hst.waiting hracing)] at hx
      exact mem_heard.mpr (Or.inl (hx.resolve_right List.not_mem_nil))
  | reaped r dropped hphase hdispatched hafter =>
    subst hafter
    obtain ⟨dispatched, speculated, judgedAt, holderId, startedAt⟩ := r
    change dispatched = _ at hdispatched
    subst hdispatched
    refine ⟨hnever fun _ => Phase.noConfusion, fun _ _ => get?_empty_ne, (fun h => by cases h), ?_⟩
    intro j other hother
    have hbefore := hst.accounted j other hother
    rw [hphase] at hbefore
    refine hbefore.mono ?_ ?_ (fun _ => get?_empty_ne) ?_
    · exact List.subset_append_left _ _
    · show st.outstanding ++ [] ⊆ st.outstanding ++ [] ++ []
      exact List.subset_append_left _ _
    · intro x hx
      rw [mem_heard, hphase] at hx
      exact mem_heard.mpr hx
  | entered r v outstanding next hphase hdispatched honward hafter =>
    subst hafter
    obtain ⟨dispatched, speculated, judgedAt, holderId, startedAt⟩ := r
    change dispatched = _ at hdispatched
    subst hdispatched
    have hv : v.Split := by
      have := hall.inHand
      rw [hphase] at this
      exact this v rfl
    obtain ⟨hcids, -⟩ := cids_mergeInto hall.verification hv
    have hbare : next.isRacing = false ∧ next.copies = .empty ∧ next.inHand = none ∧
        ∀ nodeIds, next ≠ .granting nodeIds := by
      rcases honward with rfl | ⟨ending, rfl⟩ <;> exact ⟨rfl, rfl, rfl, fun _ => Phase.noConfusion⟩
    obtain ⟨hracing, hcopies, hinHand, hgranting⟩ := hbare
    refine ⟨hnever hgranting, ?_, ?_, ?_⟩
    · show ∀ key k, next.copies.get? key = some k → _
      rw [hcopies]
      exact fun _ _ => get?_empty_ne
    · show next.isRacing = true → _
      rw [hracing]
      exact fun h => by cases h
    · intro j other hother
      have hbefore := hst.accounted j other hother
      rw [hphase] at hbefore
      refine hbefore.mono ?_ ?_ (fun _ => get?_empty_ne) ?_
      · exact append_nil_subset _ _
      · show st.outstanding ++ outstanding ⊆ st.outstanding ++ outstanding ++ next.handed
        exact List.subset_append_left _ _
      · intro x hx
        rw [mem_heard, hphase] at hx
        exact mem_heard.mpr (Or.inl ((hcids x).mpr hx))

/-- A shard's step is a sequence of these. -/
theorem Tracked.step (hst : Tracked st) (hall : Throughout VerificationResult.Split st)
    {event : ShardEvent} (h : shardStep p job plan event s st = some (s', st')) : Tracked st' := by
  refine ((shardStep_effects h).invariant
    (I := fun st => Throughout VerificationResult.Split st ∧ Tracked st) ⟨hall, hst⟩ ?_).2
  rintro st st' ⟨hall, hst⟩ heffect
  exact ⟨hall.effect (fun _ _ => verificationOf_split _ _ _ _)
    (fun _ _ hv hw => (cids_mergeVerifications hv hw).2) heffect, hst.effect hall heffect⟩

theorem tracked_start {spec : JobSpec} {options : SubmitOptions}
    {ask : Bool → Nat → Offer → Admission} {prepared : Prepared}
    (h : PreparedFrom p spec options ask prepared) {i : Nat}
    (hplan : prepared.job.plans[i]? = some plan) : Tracked (startShard plan) := by
  have hfresh : ∀ {rejections : List Rejection} {degraded : Bool} {phase : Phase},
      phase.isRacing = false → phase.copies = .empty →
      (∀ nodeIds, phase = .granting nodeIds → nodeIds ≠ []) →
      Tracked (freshShard rejections degraded phase) := by
    intro rejections degraded phase hracing hcopies hgranting
    refine ⟨hgranting, ?_, ?_, ?_⟩
    · show ∀ key k, phase.copies.get? key = some k → _
      rw [hcopies]
      exact fun _ _ => get?_empty_ne
    · show phase.isRacing = true → _
      rw [hracing]
      exact fun h => by cases h
    · intro k flight hflight
      cases hflight
  unfold startShard
  split
  · exact hfresh rfl rfl fun _ => Phase.noConfusion
  · split
    · exact hfresh rfl rfl fun _ => Phase.noConfusion
    · next nodeIds degraded hplaced =>
      refine hfresh rfl rfl fun nodeIds' hphase => ?_
      cases hphase
      exact (h.placed hplan hplaced).2.1.ne_nil

/-- In every state a run reaches, every copy is accounted for. -/
theorem tracked {spec : JobSpec} {options : SubmitOptions} {ask : Bool → Nat → Offer → Admission}
    {prepared : Prepared} (hprepared : PreparedFrom p spec options ask prepared)
    {c : Config Nat Shared ShardState} (hreach : Reaches p prepared c) {i : Nat}
    (hplan : prepared.job.plans[i]? = some plan) : Tracked (c.locals i) := by
  refine (eachShard hreach
    (I := fun _ _ st => Throughout VerificationResult.Split st ∧ Tracked st) ?_ ?_ hplan).2
  · exact fun i plan hplan => ⟨throughout_start _ plan, tracked_start hprepared hplan⟩
  · rintro c i plan event s l - - ⟨hall, hst⟩ hstep
    refine ⟨?_, hst.step hall hstep⟩
    exact (shardStep_effects hstep).invariant hall fun _ _ hall heffect =>
      hall.effect (fun _ _ => verificationOf_split _ _ _ _)
        (fun _ _ hv hw => (cids_mergeVerifications hv hw).2) heffect

end O2Fabric.Submit
