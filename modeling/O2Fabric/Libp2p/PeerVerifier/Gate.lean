/-
  O2Fabric.Libp2p.PeerVerifier.Gate

  Who passes the gate, and which answers it believes.

  Every event keeps what holds of the asks; so a peer that `verifiedPeers`
  lists has an acceptance from an ask of its current connection.  An answer
  becomes the verdict exactly where no later ask of the connection has been
  issued: the generation separates asks, and not only connections.
-/

import O2Fabric.Libp2p.PeerVerifier.Asks

namespace O2Fabric.Libp2p.PeerVerifier

open O2Fabric.Steps

variable {p : Platform} {c : PeerVerifierOptions} {s s' : PeerVerifier} {i : Nat} {a : Ask}
  {peer : JsString} {now : ℚ}

/-! ## Events keep what holds -/

/-- Before `stop`, with `verify` called for connected peers. -/
def Admitted (s : PeerVerifier) (e : Event) : Prop :=
  e ≠ .stop ∧ ∀ peer now, e = .verify peer now → peer ∈ s.connected

theorem reads_eq_some (h : s.reads now = some s') : s.clock ≤ now ∧ s' = { s with clock := now } := by
  unfold reads at h
  split at h
  · next hclock =>
    cases h
    exact ⟨hclock, rfl⟩
  · cases h

theorem accept_ok {expected : JsString} {certificate held : NodeCertificate}
    (h : accept p c peer expected certificate now = .accepted held) :
    held = certificate ∧ certificate.nodeKey = expected ∧
      certificate.Valid c.checks.signatures c.trustedIssuers now := by
  unfold accept at h
  split at h
  · cases h
  · next hkey =>
    split at h
    · cases h
    · next hfailure =>
      cases h
      exact ⟨rfl, not_not.mp hkey, certificateFailure_eq_none.mp hfailure⟩

/-- An answer that is accepted is a certificate the peer has sent. -/
theorem answered_ok {expected : JsString} {reply : Except JsString CanonicalValue}
    {certificate : NodeCertificate}
    (h : answered p c peer expected reply now = .accepted certificate) :
    certificate.nodeKey = expected ∧
      certificate.Valid c.checks.signatures c.trustedIssuers now := by
  unfold answered at h
  split at h
  · cases h
  · split at h
    · cases h
    · cases h
    · next records _ =>
      obtain ⟨rfl, hkey, hvalid⟩ := accept_ok h
      exact ⟨hkey, hvalid⟩
    · cases h

/-- The stages that lead to a verdict. -/
theorem Kept.loaded (h : Kept c s) {remembered : Option NodeCertificate} (hclock : s.clock = now)
    (hstep : s.loaded p c i remembered now = some s') : Kept c s' := by
  unfold PeerVerifier.loaded at hstep
  split at hstep
  case h_2 => cases hstep
  case h_1 a ha =>
    split at hstep
    case h_2 => cases hstep
    case h_1 expected hstage =>
      have hopen : ¬ a.stage.Settled := by
        rw [hstage]
        exact id
      have hexpected := h.judged.expected a (List.mem_of_getElem? ha) expected (Or.inl hstage)
      dsimp only at hstep
      have hasked : Kept c { s with asks := s.asks.set i { a with stage := .requesting expected } } := by
        refine h.progress ha ?_ hopen ?_ ?_
        · rfl
        · intro expected' hnext
          obtain hnext | hnext := hnext
          · cases hnext
          · cases hnext
            exact hexpected
        · intro certificate haccepts
          exact haccepts.elim
      split at hstep
      · cases hstep
        exact hasked
      · next certificate =>
        split at hstep
        · next held haccepted =>
          cases hstep
          obtain ⟨rfl, hkey, hvalid⟩ := accept_ok haccepted
          refine h.progress ha ?_ hopen ?_ ?_
          · rfl
          · intro expected' hnext
            obtain hnext | hnext := hnext <;> cases hnext
          · intro certificate' haccepts
            cases haccepts
            refine ⟨?_, _, rfl, rfl, hvalid, hclock.ge⟩
            rw [hkey]
            exact hexpected
        · cases hstep
          exact hasked

theorem Kept.replied (h : Kept c s) {reply : Except JsString CanonicalValue} (hclock : s.clock = now)
    (hstep : s.replied p c i reply now = some s') : Kept c s' := by
  unfold PeerVerifier.replied at hstep
  split at hstep
  case h_2 => cases hstep
  case h_1 a ha =>
    split at hstep
    case h_2 => cases hstep
    case h_1 expected hstage =>
      have hopen : ¬ a.stage.Settled := by
        rw [hstage]
        exact id
      have hexpected := h.judged.expected a (List.mem_of_getElem? ha) expected (Or.inr hstage)
      dsimp only at hstep
      split at hstep
      · next certificate haccepted =>
        cases hstep
        obtain ⟨hkey, hvalid⟩ := answered_ok haccepted
        refine h.progress ha ?_ hopen ?_ ?_
        · rfl
        · intro expected' hnext
          dsimp only at hnext
          split at hnext <;> obtain hnext | hnext := hnext <;> cases hnext
        · intro certificate' haccepts
          have hsame : certificate' = certificate := by
            dsimp only at haccepts
            split at haccepts
            · exact haccepts.symm
            · cases haccepts
              rfl
          subst hsame
          refine ⟨?_, _, rfl, rfl, hvalid, hclock.ge⟩
          rw [hkey]
          exact hexpected
      · cases hstep
        refine h.progress ha ?_ hopen ?_ ?_
        · rfl
        · intro expected' hnext
          obtain hnext | hnext := hnext <;> cases hnext
        · intro certificate haccepts
          cases haccepts

theorem Kept.saved (h : Kept c s) (hstep : s.saved i = some s') : Kept c s' := by
  unfold PeerVerifier.saved at hstep
  split at hstep
  case h_2 => cases hstep
  case h_1 a ha =>
    split at hstep
    case h_2 => cases hstep
    case h_1 certificate hstage =>
      cases hstep
      have hopen : ¬ a.stage.Settled := by
        rw [hstage]
        exact id
      refine h.progress ha ?_ hopen ?_ ?_
      · rfl
      · intro expected hnext
        obtain hnext | hnext := hnext <;> cases hnext
      · intro certificate' haccepts
        cases haccepts
        have hsaving : a.stage.Accepts certificate := by
          rw [hstage]
          rfl
        obtain ⟨hnamed, hchecked⟩ := h.judged.vouched a (List.mem_of_getElem? ha) certificate hsaving
        exact ⟨hnamed, hchecked⟩

theorem Kept.threw (h : Kept c s) {detail : JsString} (hstep : s.threw i detail = some s') :
    Kept c s' := by
  unfold PeerVerifier.threw at hstep
  split at hstep
  case h_2 => cases hstep
  case h_1 a ha =>
    have hrefused : ¬ a.stage.Settled →
        Kept c { s with asks := s.asks.set i { a with stage := .decided (unaskable a.peer detail) } } := by
      intro hopen
      refine h.progress ha ?_ hopen ?_ ?_
      · rfl
      · intro expected hnext
        obtain hnext | hnext := hnext <;> cases hnext
      · intro certificate haccepts
        cases haccepts
    dsimp only at hstep
    split at hstep
    · next hstage =>
      cases hstep
      exact hrefused (by rw [hstage]; exact id)
    · next hstage =>
      cases hstep
      exact hrefused (by rw [hstage]; exact id)
    · cases hstep

/-! ## The most recent ask -/

theorem keys_getElem? (ha : s.asks[i]? = some a) : s.keys[i]? = some a.toAskKey := by
  unfold keys
  rw [List.getElem?_map, ha]
  rfl

/-- No later ask of the peer's connection has been issued. -/
def Latest (s : PeerVerifier) (i : Nat) (a : Ask) : Prop :=
  ∀ (j : Nat) b, i < j → s.asks[j]? = some b → b.peer = a.peer → b.connection ≠ a.connection

/-- The generation says that the ask is the last of a connection that goes on. -/
theorem Ordered.last_of_generation (h : Ordered c s) (ha : s.asks[i]? = some a)
    (hgeneration : (s.lastAsk.get? a.peer).map LastAsk.generation = some a.generation) :
    s.lastAsk.get? a.peer = some ⟨i + 1, a.at_⟩ ∧ a.peer ∈ s.connected ∧
      a.connection = s.connection a.peer ∧ s.Latest i a := by
  obtain ⟨l, hl, hsame⟩ := Option.map_eq_some_iff.mp hgeneration
  obtain ⟨hconnected, i₀, k, hk, rfl, hpeer, hconnection, hlast⟩ := h.last a.peer l hl
  have hnumber := h.numbered i a.toAskKey (keys_getElem? ha)
  have hi : i₀ = i := by
    dsimp only at hsame
    omega
  subst hi
  rw [keys_getElem? ha] at hk
  cases hk
  refine ⟨hl, hconnected, hconnection, ?_⟩
  intro j b hj hb hpeer' hconnection'
  have hle := hlast j b.toAskKey (keys_getElem? hb) hpeer' (hconnection'.trans hconnection)
  omega

theorem Ordered.generation_of_latest (h : Ordered c s) (ha : s.asks[i]? = some a)
    (hconnected : a.peer ∈ s.connected) (hconnection : a.connection = s.connection a.peer)
    (hlatest : s.Latest i a) :
    (s.lastAsk.get? a.peer).map LastAsk.generation = some a.generation := by
  have hkey := keys_getElem? ha
  obtain ⟨l, hl⟩ := h.asked a.toAskKey (List.mem_of_getElem? hkey) hconnected hconnection
  obtain ⟨-, i₀, k, hk, rfl, hpeer, hconnection₀, hlast⟩ := h.last a.peer l hl
  have hle : i ≤ i₀ := hlast i a.toAskKey hkey rfl hconnection
  have hnumber := h.numbered i a.toAskKey hkey
  have hi : i₀ = i := by
    by_contra hne
    have hk' : (s.asks.map Ask.toAskKey)[i₀]? = some k := hk
    rw [List.getElem?_map] at hk'
    obtain ⟨b, hb, rfl⟩ := Option.map_eq_some_iff.mp hk'
    exact hlatest i₀ b (by omega) hb hpeer (hconnection₀.trans hconnection.symm)
  subst hi
  rw [hl]
  exact congrArg some hnumber.symm

theorem Kept.settle (h : Kept c s) (hstep : s.settle i = some s') : Kept c s' := by
  unfold PeerVerifier.settle at hstep
  split at hstep
  case h_2 => cases hstep
  case h_1 a ha =>
    split at hstep
    case h_2 => cases hstep
    case h_1 verdict hstage =>
      have hopen : ¬ a.stage.Settled := by
        rw [hstage]
        exact id
      have hsettled : Kept c { s with asks := s.asks.set i { a with stage := .settled verdict } } := by
        refine h.progress ha ?_ hopen ?_ ?_
        · rfl
        · intro expected hnext
          obtain hnext | hnext := hnext <;> cases hnext
        · intro certificate haccepts
          have hdecided : a.stage.Accepts certificate := by
            rw [hstage]
            exact haccepts
          obtain ⟨hnamed, hchecked⟩ :=
            h.judged.vouched a (List.mem_of_getElem? ha) certificate hdecided
          exact ⟨hnamed, hchecked⟩
      dsimp only at hstep
      split at hstep
      · next hgeneration =>
        cases hstep
        apply hsettled.judge
        intro peer verdict' hget
        rw [InsertionMap.get?_set] at hget
        split at hget
        · next heq =>
          cases hget
          refine ⟨i, _, ?_, List.getElem?_set_self (List.getElem?_eq_some_iff.mp ha).1, ?_, ?_⟩
          · rw [heq]
            exact (h.ordered.last_of_generation ha hgeneration).1
          · intro certificate _
            rfl
          · intro failure reason _ _
            trivial
        · exact hsettled.judged.stands peer verdict' hget
      · cases hstep
        exact hsettled

/-! ## Connections -/

theorem Kept.connect (h : Kept c s) {seen : Bool} (hclock : s.clock = now)
    (hstep : s.connect c peer seen now = some s') : Kept c s' := by
  unfold PeerVerifier.connect at hstep
  split at hstep
  · cases hstep
  · next hnew =>
    have ho := h.ordered
    have harrived : Kept c { s with
        connected := s.connected ++ [peer]
        connection := fun other =>
          if other = peer then s.connection peer + 1 else s.connection other } := by
      refine ⟨⟨ho.running, ?_, ho.counted, ho.numbered, ?_, ?_, ?_, ho.shared, ho.spaced,
        ho.clocked⟩, h.judged.expected, ?_, h.judged.stands⟩
      · exact List.nodup_append.mpr ⟨ho.distinct, List.nodup_singleton _, by
          intro other hother peer' hpeer'
          rw [List.mem_singleton.mp hpeer']
          rintro rfl
          exact hnew hother⟩
      · intro k hk
        have hbound := ho.connections k hk
        dsimp only
        split
        · next heq =>
          rw [← heq]
          omega
        · exact hbound
      · intro other l hl
        obtain ⟨hmem, i, k, hk, hl', hpeer, hconnection, hlast⟩ := ho.last other l hl
        have hne : other ≠ peer := fun heq => hnew (heq ▸ hmem)
        refine ⟨List.mem_append_left _ hmem, i, k, hk, hl', hpeer, ?_, ?_⟩
        · dsimp only
          rw [if_neg hne]
          exact hconnection
        · intro j k' hk' hpeer' hconnection'
          dsimp only at hconnection'
          rw [if_neg hne] at hconnection'
          exact hlast j k' hk' hpeer' hconnection'
      · intro k hk hmem hconnection
        have hbound := ho.connections k hk
        dsimp only at hconnection
        split at hconnection
        · next heq =>
          rw [← heq] at hconnection
          omega
        · next hne =>
          obtain hmem | hmem := List.mem_append.mp hmem
          · exact ho.asked k hk hmem hconnection
          · exact absurd (List.mem_singleton.mp hmem) hne
      · intro a ha certificate haccepts
        obtain ⟨hnamed, hchecked⟩ := h.judged.vouched a ha certificate haccepts
        exact ⟨hnamed, hchecked⟩
    dsimp only at hstep
    split at hstep
    · cases hstep
      exact harrived.verifyNow (List.mem_append_right _ (List.mem_singleton_self peer)) hclock
    · cases hstep
      exact harrived

theorem Kept.disconnect (h : Kept c s) (hstep : s.disconnect peer = some s') : Kept c s' := by
  unfold PeerVerifier.disconnect at hstep
  split at hstep
  · cases hstep
  · have ho := h.ordered
    dsimp only at hstep
    rw [if_neg (by rw [ho.running]; exact Bool.false_ne_true)] at hstep
    cases hstep
    refine ⟨⟨ho.running, ho.distinct.erase peer, ho.counted, ho.numbered, ho.connections, ?_, ?_, ?_,
      ho.spaced, ho.clocked⟩, h.judged.expected, ?_, ?_⟩
    · intro other l hl
      have hdeleted : (s.lastAsk.delete peer).get? other = some l := hl
      rw [InsertionMap.get?_delete] at hdeleted
      split at hdeleted
      · cases hdeleted
      · next hne =>
        obtain ⟨hmem, hrest⟩ := ho.last other l hdeleted
        exact ⟨(ho.distinct.mem_erase_iff).mpr ⟨hne, hmem⟩, hrest⟩
    · intro k hk hmem hconnection
      obtain ⟨hne, hmem⟩ := (ho.distinct.mem_erase_iff).mp hmem
      show ∃ l, (s.lastAsk.delete peer).get? k.peer = some l
      rw [InsertionMap.get?_delete, if_neg hne]
      exact ho.asked k hk hmem hconnection
    · intro other
      show (s.inFlight.delete peer).has other = true ↔
        ∃ l, (s.lastAsk.delete peer).get? other = some l
      by_cases hne : other = peer
      · unfold InsertionMap.has
        rw [InsertionMap.get?_delete, InsertionMap.get?_delete, if_pos hne, if_pos hne]
        simp
      · rw [has_delete hne, InsertionMap.get?_delete, if_neg hne]
        exact ho.shared other
    · intro a ha certificate haccepts
      obtain ⟨hnamed, hchecked⟩ := h.judged.vouched a ha certificate haccepts
      exact ⟨hnamed, hchecked⟩
    · intro other verdict hget
      have hdeleted : (s.verdicts.delete peer).get? other = some verdict := hget
      rw [InsertionMap.get?_delete] at hdeleted
      split at hdeleted
      · cases hdeleted
      · next hne =>
        obtain ⟨i, a, hlast, ha, hstands⟩ := h.judged.stands other verdict hdeleted
        refine ⟨i, a, ?_, ha, hstands⟩
        show (s.lastAsk.delete peer).get? other = _
        rw [InsertionMap.get?_delete, if_neg hne]
        exact hlast

end O2Fabric.Libp2p.PeerVerifier
