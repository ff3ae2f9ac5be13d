/-
  O2Fabric.Libp2p.PeerVerifier.Sound

  The gate over whole runs, and the answers that are not believed.

  An answer becomes the peer's verdict exactly where no later ask of the
  connection has been issued.  So a peer whose answers take longer than the
  retry floor is asked again before it is believed, however often it answers.
-/

import O2Fabric.Libp2p.PeerVerifier.Gate
import O2Fabric.Net.Protocol.NodeRecords

namespace O2Fabric.Libp2p.PeerVerifier

open O2Fabric.Steps O2Fabric.Net.Protocol

variable {p : Platform} {c : PeerVerifierOptions} {s s' : PeerVerifier} {i : Nat} {a : Ask}
  {peer : JsString} {now : ℚ}

/-- The clock has been read. -/
theorem of_reads {f : PeerVerifier → Option PeerVerifier}
    (h : (do f (← s.reads now)) = some s') :
    s.clock ≤ now ∧ f { s with clock := now } = some s' := by
  obtain ⟨t, ht, hf⟩ := Option.bind_eq_some_iff.mp h
  obtain ⟨hclock, rfl⟩ := reads_eq_some ht
  exact ⟨hclock, hf⟩

variable {e : Event}

theorem Kept.step (hpinned : c.trustedIssuers ≠ []) (hadmitted : s.Admitted e) (h : Kept c s)
    (hstep : step p c s e = some s') : Kept c s' := by
  cases e with
  | connect peer seen now =>
    obtain ⟨hclock, hconnect⟩ := of_reads hstep
    exact (h.later hclock).connect rfl hconnect
  | disconnect peer => exact h.disconnect hstep
  | verify peer now =>
    obtain ⟨hclock, hverify⟩ := of_reads hstep
    cases hverify
    exact (h.later hclock).verifyNow (hadmitted.2 peer now rfl) rfl
  | read readings =>
    unfold PeerVerifier.step at hstep
    dsimp only at hstep
    rw [if_neg hpinned] at hstep
    exact (h.refreshAll (fun _ hmem => hmem) h.ordered.distinct hstep).1
  | loaded ask remembered now =>
    obtain ⟨hclock, hloaded⟩ := of_reads hstep
    exact (h.later hclock).loaded rfl hloaded
  | replied ask reply now =>
    obtain ⟨hclock, hreplied⟩ := of_reads hstep
    exact (h.later hclock).replied rfl hreplied
  | saved ask => exact h.saved hstep
  | threw ask detail => exact h.threw hstep
  | settle ask => exact h.settle hstep
  | stop => exact absurd rfl hadmitted.1

theorem kept_start (clock : ℚ) : Kept c (start clock) := by
  refine ⟨⟨rfl, List.nodup_nil, rfl, ?_, ?_, ?_, ?_, ?_, ?_, ?_⟩, ?_, ?_, ?_⟩
  · intro i k hk
    cases hk
  · intro k hk
    cases hk
  · intro peer l hl
    cases hl
  · intro k hk
    cases hk
  · intro peer
    constructor
    · intro hhas
      cases hhas
    · rintro ⟨l, hl⟩
      cases hl
  · intro i j k k' _ hk
    cases hk
  · intro k hk
    cases hk
  · intro a ha
    cases ha
  · intro a ha
    cases ha
  · intro peer verdict hget
    cases hget

theorem reaches_kept (hpinned : c.trustedIssuers ≠ []) {clock : ℚ}
    (h : Reaches (step p c) Admitted (start clock) s) : Kept c s :=
  h.invariant (kept_start clock) fun _ _ _ hadmitted hkept hstep => hkept.step hpinned hadmitted hstep

/-! ## Who is listed -/

/-- An ask of the peer's current connection has settled with a certificate that names the
    peer's key, was valid when it was checked, and is not expired at this reading. -/
def Passes (c : PeerVerifierOptions) (s : PeerVerifier) (peer : JsString) (expiry : ℚ) : Prop :=
  ∃ (i : Nat) (a : Ask) (evidence : Evidence), s.asks[i]? = some a ∧ a.peer = peer ∧
    a.connection = s.connection peer ∧ a.stage = .settled (.accepted evidence.certificate) ∧
    s.verdicts.get? peer = some (.accepted evidence.certificate) ∧ a.evidence = some evidence ∧
    c.nodeKeyForPeerId peer = some evidence.certificate.nodeKey ∧
    evidence.certificate.Valid c.checks.signatures c.trustedIssuers evidence.now ∧
    expiry < evidence.certificate.expiresAt

theorem Kept.passes (h : Kept c s) {certificate : NodeCertificate} {expiry : ℚ}
    (hverdict : s.verdicts.get? peer = some (.accepted certificate))
    (hunlapsed : expiry < certificate.expiresAt) : Passes c s peer expiry := by
  obtain ⟨i, a, hlast, ha, hstands⟩ := h.judged.stands peer _ hverdict
  obtain ⟨-, i₀, k, hk, hl, hpeer, hconnection, -⟩ := h.ordered.last peer _ hlast
  have hi : i = i₀ := Nat.succ_injective (congrArg LastAsk.generation hl)
  subst hi
  rw [keys_getElem? ha] at hk
  cases hk
  have hsettled := hstands.accepted certificate rfl
  have haccepts : a.stage.Accepts certificate := by
    rw [hsettled]
    rfl
  obtain ⟨hnamed, evidence, hevidence, rfl, hvalid, -⟩ :=
    h.judged.vouched a (List.mem_of_getElem? ha) certificate haccepts
  rw [hpeer] at hnamed
  exact ⟨i, a, evidence, ha, hpeer, hconnection, hsettled, hverdict, hevidence, hnamed, hvalid,
    hunlapsed⟩

/-- Whom a read lists, with the reading the expiry of their certificates was checked at. -/
theorem Kept.listed (hpinned : c.trustedIssuers ≠ []) (h : Kept c s) {readings : List Readings}
    (hstep : PeerVerifier.step p c s (.read readings) = some s') (hlisted : peer ∈ s'.verifiedPeers c) :
    ∃ (i : Nat) (r : Readings), s.connected[i]? = some peer ∧ readings[i]? = some r ∧
      peer ∈ s'.connected ∧ Passes c s' peer r.expiry := by
  have hread : s.refreshAll p c s.connected readings = some s' := by
    unfold PeerVerifier.step at hstep
    dsimp only at hstep
    rw [if_neg hpinned] at hstep
    exact hstep
  obtain ⟨hkept, hthrough⟩ := h.refreshAll (fun _ hmem => hmem) h.ordered.distinct hread
  unfold verifiedPeers at hlisted
  rw [if_neg hpinned] at hlisted
  obtain ⟨hconnected, hok⟩ := List.mem_filter.mp hlisted
  cases hverdict : s'.verdicts.get? peer with
  | none =>
    rw [hverdict] at hok
    cases hok
  | some verdict =>
    rw [hverdict] at hok
    cases verdict with
    | refused failure reason => cases hok
    | accepted certificate =>
      rw [hthrough.connected] at hconnected
      obtain ⟨i, hi⟩ := List.mem_iff_getElem?.mp hconnected
      have hlength : i < readings.length := by
        rw [← hthrough.paired]
        exact (List.getElem?_eq_some_iff.mp hi).1
      have hreading : readings[i]? = some readings[i] := List.getElem?_eq_getElem hlength
      have hunlapsed := hthrough.unlapsed i peer readings[i] certificate hi hreading hverdict
      refine ⟨i, readings[i], hi, hreading, ?_, hkept.passes hverdict hunlapsed⟩
      rw [hthrough.connected]
      exact hconnected

/-! ## Which answers count -/

def Event.ask : Event → Option Nat
  | .loaded ask _ _ => some ask
  | .replied ask _ _ => some ask
  | .saved ask => some ask
  | .threw ask _ => some ask
  | .settle ask => some ask
  | _ => none

theorem loaded_leaves {remembered : Option NodeCertificate}
    (h : s.loaded p c i remembered now = some s') :
    s'.verdicts = s.verdicts ∧ s'.keys = s.keys := by
  unfold PeerVerifier.loaded at h
  split at h
  case h_2 => cases h
  case h_1 a ha =>
    split at h
    · cases h
      refine ⟨rfl, keys_set ha ?_⟩
      split
      · rfl
      · split <;> rfl
    · cases h

theorem replied_leaves {reply : Except JsString CanonicalValue}
    (h : s.replied p c i reply now = some s') :
    s'.verdicts = s.verdicts ∧ s'.keys = s.keys := by
  unfold PeerVerifier.replied at h
  split at h
  case h_2 => cases h
  case h_1 a ha =>
    split at h
    · cases h
      refine ⟨rfl, keys_set ha ?_⟩
      split <;> rfl
    · cases h

theorem saved_leaves (h : s.saved i = some s') :
    s'.verdicts = s.verdicts ∧ s'.keys = s.keys := by
  unfold PeerVerifier.saved at h
  split at h
  case h_2 => cases h
  case h_1 a ha =>
    split at h
    · cases h
      exact ⟨rfl, keys_set ha rfl⟩
    · cases h

theorem threw_leaves {detail : JsString} (h : s.threw i detail = some s') :
    s'.verdicts = s.verdicts ∧ s'.keys = s.keys := by
  unfold PeerVerifier.threw at h
  split at h
  case h_2 => cases h
  case h_1 a ha =>
    dsimp only at h
    split at h
    · cases h
      exact ⟨rfl, keys_set ha rfl⟩
    · cases h
      exact ⟨rfl, keys_set ha rfl⟩
    · cases h

/-- What a settled ask leaves: the verdicts, but for its own peer's where its generation
    is the peer's most recent one. -/
theorem settle_cases (ha : s.asks[i]? = some a) (h : s.settle i = some s') :
    s'.keys = s.keys ∧ ∃ verdict, a.stage = .decided verdict ∧
      ((s.lastAsk.get? a.peer).map LastAsk.generation = some a.generation ∧
          s'.verdicts = s.verdicts.set a.peer verdict ∨
        (s.lastAsk.get? a.peer).map LastAsk.generation ≠ some a.generation ∧
          s'.verdicts = s.verdicts) := by
  unfold PeerVerifier.settle at h
  rw [ha] at h
  dsimp only at h
  split at h
  case h_2 => cases h
  case h_1 verdict hstage =>
    split at h
    · next hgeneration =>
      cases h
      exact ⟨keys_set ha rfl, verdict, hstage, Or.inl ⟨hgeneration, rfl⟩⟩
    · next hgeneration =>
      cases h
      exact ⟨keys_set ha rfl, verdict, hstage, Or.inr ⟨hgeneration, rfl⟩⟩

/-- An answer to an ask of an earlier connection changes no verdict. -/
theorem Kept.earlier (h : Kept c s) (he : e.ask = some i) (ha : s.asks[i]? = some a)
    (hearlier : a.peer ∈ s.connected → a.connection ≠ s.connection a.peer)
    (hstep : PeerVerifier.step p c s e = some s') : s'.verdicts = s.verdicts := by
  cases e with
  | loaded ask remembered now =>
    obtain ⟨-, hloaded⟩ := of_reads hstep
    exact (loaded_leaves hloaded).1
  | replied ask reply now =>
    obtain ⟨-, hreplied⟩ := of_reads hstep
    exact (replied_leaves hreplied).1
  | saved ask => exact (saved_leaves hstep).1
  | threw ask detail => exact (threw_leaves hstep).1
  | settle ask =>
    cases he
    obtain ⟨-, verdict, -, ⟨hgeneration, -⟩ | ⟨-, hverdicts⟩⟩ := settle_cases ha hstep
    · obtain ⟨-, hconnected, hconnection, -⟩ := h.ordered.last_of_generation ha hgeneration
      exact absurd hconnection (hearlier hconnected)
    · exact hverdicts
  | connect peer seen now => cases he
  | disconnect peer => cases he
  | verify peer now => cases he
  | read readings => cases he
  | stop => cases he

/-! ## Final refusals -/

theorem asksOf_of_keys (h : s'.keys = s.keys) (peer : JsString) : s'.asksOf peer = s.asksOf peer := by
  unfold asksOf
  rw [h]

/-- A final refusal stands until the peer disconnects, and the peer is not asked. -/
theorem Kept.final_stays (hpinned : c.trustedIssuers ≠ []) (h : Kept c s) {failure : PeerFailure}
    {reason : JsString} (hverdict : s.verdicts.get? peer = some (.refused failure reason))
    (hfinal : failure.kind ∈ FINAL) (hne : e ≠ .disconnect peer) (hadmitted : s.Admitted e)
    (hstep : PeerVerifier.step p c s e = some s') :
    s'.verdicts.get? peer = s.verdicts.get? peer ∧ s'.asksOf peer = s.asksOf peer := by
  obtain ⟨i₀, a₀, hlast, ha₀, hstands⟩ := h.judged.stands peer _ hverdict
  have hconnected : peer ∈ s.connected := (h.ordered.last peer _ hlast).1
  have hleft : s'.verdicts = s.verdicts ∧ s'.keys = s.keys →
      s'.verdicts.get? peer = s.verdicts.get? peer ∧ s'.asksOf peer = s.asksOf peer := by
    rintro ⟨hverdicts, hkeys⟩
    exact ⟨by rw [hverdicts], asksOf_of_keys hkeys peer⟩
  cases e with
  | connect other seen now =>
    obtain ⟨-, hconnect⟩ := of_reads hstep
    unfold PeerVerifier.connect at hconnect
    split at hconnect
    · cases hconnect
    · next hnew =>
      have hother : peer ≠ other := fun heq => hnew (heq ▸ hconnected)
      dsimp only at hconnect
      split at hconnect
      · cases hconnect
        exact ⟨by rw [verdicts_verify], verify_leaves hother⟩
      · cases hconnect
        exact ⟨rfl, rfl⟩
  | disconnect other =>
    have hother : peer ≠ other := fun heq => hne (heq ▸ rfl)
    have hdisconnect : s.disconnect other = some s' := hstep
    unfold PeerVerifier.disconnect at hdisconnect
    split at hdisconnect
    · cases hdisconnect
    · dsimp only at hdisconnect
      split at hdisconnect
      · cases hdisconnect
        exact ⟨rfl, rfl⟩
      · cases hdisconnect
        refine ⟨?_, rfl⟩
        show (s.verdicts.delete other).get? peer = _
        rw [InsertionMap.get?_delete, if_neg hother]
  | verify other now =>
    obtain ⟨-, hverify⟩ := of_reads hstep
    cases hverify
    refine ⟨by rw [verdicts_verify], ?_⟩
    by_cases hother : peer = other
    · -- the promise of its last ask is shared
      subst hother
      have hshared : s.inFlight.has peer = true := (h.ordered.shared peer).mpr ⟨_, hlast⟩
      unfold PeerVerifier.verify
      rw [if_pos hshared]
      rfl
    · exact verify_leaves hother
  | read readings =>
    have hread : s.refreshAll p c s.connected readings = some s' := by
      unfold PeerVerifier.step at hstep
      dsimp only at hstep
      rw [if_neg hpinned] at hstep
      exact hstep
    obtain ⟨-, hthrough⟩ := h.refreshAll (fun _ hmem => hmem) h.ordered.distinct hread
    exact hthrough.final peer failure reason hverdict hfinal
  | loaded ask remembered now =>
    obtain ⟨hverdicts, hkeys⟩ := loaded_leaves (of_reads hstep).2
    exact hleft ⟨hverdicts, hkeys⟩
  | replied ask reply now =>
    obtain ⟨hverdicts, hkeys⟩ := replied_leaves (of_reads hstep).2
    exact hleft ⟨hverdicts, hkeys⟩
  | saved ask => exact hleft (saved_leaves hstep)
  | threw ask detail => exact hleft (threw_leaves hstep)
  | settle ask =>
    have hsettle : s.settle ask = some s' := hstep
    cases ha : s.asks[ask]? with
    | none =>
      unfold PeerVerifier.settle at hsettle
      rw [ha] at hsettle
      cases hsettle
    | some a =>
      obtain ⟨hkeys, verdict, hdecided, hset | ⟨-, hverdicts⟩⟩ := settle_cases ha hsettle
      · obtain ⟨hgeneration, hverdicts⟩ := hset
        refine ⟨?_, asksOf_of_keys hkeys peer⟩
        rw [hverdicts, InsertionMap.get?_set]
        split
        · next hpeer =>
          -- the peer's most recent ask has settled, and this one has not
          have hmine := (h.ordered.last_of_generation ha hgeneration).1
          rw [← hpeer, hlast] at hmine
          have hask : i₀ = ask :=
            Nat.succ_injective (congrArg LastAsk.generation (Option.some.inj hmine))
          subst hask
          rw [ha₀] at ha
          cases ha
          have hsettled := hstands.final failure reason rfl hfinal
          rw [hdecided] at hsettled
          exact hsettled.elim
        · rfl
      · exact ⟨by rw [hverdicts], asksOf_of_keys hkeys peer⟩
  | stop => exact absurd rfl hadmitted.1

/-- Until the peer disconnects. -/
def Staying (peer : JsString) (s : PeerVerifier) (e : Event) : Prop :=
  s.Admitted e ∧ e ≠ .disconnect peer

theorem Kept.final_for_the_connection (hpinned : c.trustedIssuers ≠ []) (h : Kept c s)
    {failure : PeerFailure} {reason : JsString}
    (hverdict : s.verdicts.get? peer = some (.refused failure reason)) (hfinal : failure.kind ∈ FINAL)
    (hrun : Reaches (PeerVerifier.step p c) (Staying peer) s s') :
    s'.verdicts.get? peer = s.verdicts.get? peer ∧ s'.asksOf peer = s.asksOf peer := by
  have hall : Kept c s' ∧ s'.verdicts.get? peer = s.verdicts.get? peer ∧
      s'.asksOf peer = s.asksOf peer := by
    apply hrun.invariant (I := fun t => Kept c t ∧ t.verdicts.get? peer = s.verdicts.get? peer ∧
      t.asksOf peer = s.asksOf peer) ⟨h, rfl, rfl⟩
    rintro t e t' ⟨hadmitted, hne⟩ ⟨hkept, hsame, hasks⟩ hstep
    obtain ⟨hsame', hasks'⟩ :=
      hkept.final_stays hpinned (hsame.trans hverdict) hfinal hne hadmitted hstep
    exact ⟨hkept.step hpinned hadmitted hstep, hsame'.trans hsame, hasks'.trans hasks⟩
  exact hall.2

/-! ## The gate -/

structure Sound (p : Platform) (c : PeerVerifierOptions) (s : PeerVerifier) : Prop where
  /-- Whom a read lists is connected, and passes at the reading taken for it. -/
  listed : ∀ readings s' peer, step p c s (.read readings) = some s' → peer ∈ s'.verifiedPeers c →
    ∃ (i : Nat) (r : Readings), s.connected[i]? = some peer ∧ readings[i]? = some r ∧
      peer ∈ s'.connected ∧ Passes c s' peer r.expiry
  /-- No turn of an ask of an earlier connection changes a verdict. -/
  earlier : ∀ (i : Nat) a e s', e.ask = some i → s.asks[i]? = some a →
    (a.peer ∈ s.connected → a.connection ≠ s.connection a.peer) → step p c s e = some s' →
      s'.verdicts = s.verdicts
  /-- A peer with a final refusal keeps it, and is not asked, until it disconnects. -/
  final : ∀ peer failure reason s', s.verdicts.get? peer = some (.refused failure reason) →
    failure.kind ∈ FINAL → Reaches (step p c) (Staying peer) s s' →
      s'.verdicts.get? peer = s.verdicts.get? peer ∧ s'.asksOf peer = s.asksOf peer
  /-- Two asks of one connection are a retry floor apart. -/
  spaced : ∀ (i j : Nat) a b, i < j → s.asks[i]? = some a → s.asks[j]? = some b →
    a.peer = b.peer → a.connection = b.connection → a.at_ + c.retryFloorMs ≤ b.at_

/-- In every run before `stop`, under pinned issuers. -/
theorem gate_is_sound (p : Platform) (c : PeerVerifierOptions) (clock : ℚ) (s : PeerVerifier)
    (hpinned : c.trustedIssuers ≠ []) (h : Reaches (step p c) Admitted (start clock) s) :
    Sound p c s := by
  have hkept := reaches_kept hpinned h
  refine ⟨?_, ?_, ?_, ?_⟩
  · intro readings s' peer hstep hlisted
    exact hkept.listed hpinned hstep hlisted
  · intro i a e s' he ha hearlier hstep
    exact hkept.earlier he ha hearlier hstep
  · intro peer failure reason s' hverdict hfinal hrun
    exact hkept.final_for_the_connection hpinned hverdict hfinal hrun
  · intro i j a b hij ha hb hpeer hconnection
    exact hkept.ordered.spaced i j a.toAskKey b.toAskKey hij (keys_getElem? ha) (keys_getElem? hb)
      hpeer hconnection

/-! ## Which acceptances are believed -/

/-- An acceptance of the current connection that no later ask has overtaken becomes the
    verdict if and only if no later ask of the connection has been issued. -/
theorem acceptance_is_believed_iff (p : Platform) (c : PeerVerifierOptions) (clock : ℚ)
    (s : PeerVerifier) (hpinned : c.trustedIssuers ≠ [])
    (h : Reaches (step p c) Admitted (start clock) s) (i : Nat) (a : Ask)
    (certificate : NodeCertificate) (s' : PeerVerifier) (ha : s.asks[i]? = some a)
    (hdecided : a.stage = .decided (.accepted certificate)) (hconnected : a.peer ∈ s.connected)
    (hconnection : a.connection = s.connection a.peer)
    (hovertaken : ∀ (j : Nat) b, i < j → s.asks[j]? = some b → b.peer = a.peer →
      b.connection = a.connection → ¬ b.stage.Settled)
    (hstep : step p c s (.settle i) = some s') :
    s'.verdicts.get? a.peer = some (.accepted certificate) ↔ s.Latest i a := by
  have hkept := reaches_kept hpinned h
  obtain ⟨-, verdict, hverdict, hcases⟩ := settle_cases ha hstep
  rw [hdecided] at hverdict
  cases hverdict
  constructor
  · intro hbelieved
    obtain ⟨hgeneration, -⟩ | ⟨-, hverdicts⟩ := hcases
    · exact (hkept.ordered.last_of_generation ha hgeneration).2.2.2
    · -- it stood before, so the most recent ask, which is a later one, has settled with it
      rw [hverdicts] at hbelieved
      obtain ⟨i₀, b, hlast, hb, hstands⟩ := hkept.judged.stands a.peer _ hbelieved
      obtain ⟨-, i₁, k, hk, hl, hpeer, hconnection', hlater⟩ := hkept.ordered.last a.peer _ hlast
      have hi : i₀ = i₁ := Nat.succ_injective (congrArg LastAsk.generation hl)
      subst hi
      rw [keys_getElem? hb] at hk
      cases hk
      have hsettled : b.stage.Settled := by
        rw [hstands.accepted certificate rfl]
        trivial
      have hle : i ≤ i₀ := hlater i a.toAskKey (keys_getElem? ha) rfl hconnection
      obtain rfl | hlt := Nat.eq_or_lt_of_le hle
      · rw [ha] at hb
        cases hb
        rw [hdecided] at hsettled
        exact hsettled.elim
      · exact absurd hsettled
          (hovertaken i₀ b hlt hb hpeer (hconnection'.trans hconnection.symm))
  · intro hlatest
    have hgeneration := hkept.ordered.generation_of_latest ha hconnected hconnection hlatest
    obtain ⟨-, hverdicts⟩ | ⟨hother, -⟩ := hcases
    · rw [hverdicts]
      exact InsertionMap.get?_set_self _ _ _
    · exact absurd hgeneration hother

/-! ## Runs -/

/-- An event that is admitted wherever it happens. -/
def Event.free : Event → Bool
  | .stop => false
  | .verify _ _ => false
  | _ => true

theorem reaches_of_free {events : List Event} (hfree : events.all Event.free = true)
    (hrun : run (step p c) s events = some s') : Reaches (step p c) Admitted s s' := by
  apply Reaches.of_run _ hrun
  intro t e he
  have hthis : e.free = true := List.all_eq_true.mp hfree e he
  refine ⟨?_, ?_⟩
  · rintro rfl
    cases hthis
  · rintro peer now rfl
    cases hthis

/-- One issuer is pinned, and every peer's key is the plain node's. -/
def onePinned : PeerVerifierOptions where
  trustedIssuers := [js "ef"]
  retryFloorMs := 1
  certificates := false
  nodeKeyForPeerId _ := some (js "ab")
  checks := ⟨fun _ => none, fun _ => true⟩

def sendsRecords : Except JsString CanonicalValue := .ok (encodeResponse (.records (some plainRecords)))

/-- The peer connects, answers and is listed. -/
theorem gate_is_sound_one_peer :
    ∃ s s' : PeerVerifier, Reaches (step plain onePinned) Admitted (start 0) s ∧
      step plain onePinned s (.read [⟨2, 2, 2⟩]) = some s' ∧
      s'.verifiedPeers onePinned = [js "p"] ∧ Sound plain onePinned s := by
  have hrun : ∃ s s', run (step plain onePinned) (start 0)
      [.connect (js "p") true 0, .replied 0 sendsRecords 1, .settle 0] = some s ∧
        step plain onePinned s (.read [⟨2, 2, 2⟩]) = some s' ∧
        s'.verifiedPeers onePinned = [js "p"] := ⟨_, _, rfl, rfl, rfl⟩
  obtain ⟨s, s', hs, hread, hlisted⟩ := hrun
  have hreaches := reaches_of_free rfl hs
  exact ⟨s, s', hreaches, hread, hlisted,
    gate_is_sound plain onePinned 0 s (List.cons_ne_nil _ _) hreaches⟩

/-- The first answer is believed. -/
theorem acceptance_is_believed_iff_first :
    ∃ s s' : PeerVerifier, Reaches (step plain onePinned) Admitted (start 0) s ∧
      step plain onePinned s (.settle 0) = some s' ∧
      s'.verdicts.get? (js "p") = some (.accepted plainRecords.certificate) := by
  have hrun : ∃ s s' a, run (step plain onePinned) (start 0)
      [.connect (js "p") true 0, .replied 0 sendsRecords 1] = some s ∧
        step plain onePinned s (.settle 0) = some s' ∧ s.asks = [a] ∧ a.peer = js "p" ∧
        a.stage = .decided (.accepted plainRecords.certificate) ∧ s.connected = [js "p"] ∧
        a.connection = s.connection (js "p") := ⟨_, _, _, rfl, rfl, rfl, rfl, rfl, rfl, rfl⟩
  obtain ⟨s, s', a, hs, hsettle, hasks, hpeer, hdecided, hconnected, hconnection⟩ := hrun
  have hreaches := reaches_of_free rfl hs
  have hlatest : s.Latest 0 a := by
    intro j b hj hb
    rw [hasks, List.getElem?_eq_none (show [a].length ≤ j from hj)] at hb
    cases hb
  have hbelieved := (acceptance_is_believed_iff plain onePinned 0 s (List.cons_ne_nil _ _) hreaches 0 a
    plainRecords.certificate s' (by rw [hasks]; rfl) hdecided (by rw [hpeer, hconnected]; simp)
    (by rw [hpeer]; exact hconnection)
    (fun j b hj hb hpeer' hconnection' => absurd hconnection' (hlatest j b hj hb hpeer'))
    hsettle).mpr hlatest
  rw [hpeer] at hbelieved
  exact ⟨s, s', hreaches, hsettle, hbelieved⟩

/-- The first request fails, and the answer to the second takes longer than the floor. -/
def slowAnswer : List Event :=
  [.connect (js "p") true 0, .replied 0 (.error (js "timeout")) 0, .settle 0, .read [⟨1, 1, 1⟩],
    .read [⟨2, 2, 2⟩], .replied 1 sendsRecords 3]

/-- The second answer is not believed, though it is the last that has come. -/
theorem slow_answer_is_thrown_away :
    ¬ ∀ (p : Platform) (c : PeerVerifierOptions) (clock : ℚ) (s : PeerVerifier),
      c.trustedIssuers ≠ [] → Reaches (step p c) Admitted (start clock) s →
        ∀ (i : Nat) a certificate s', s.asks[i]? = some a →
          a.stage = .decided (.accepted certificate) → a.peer ∈ s.connected →
          a.connection = s.connection a.peer →
          (∀ (j : Nat) b, i < j → s.asks[j]? = some b → b.peer = a.peer →
            b.connection = a.connection → ¬ b.stage.Settled) →
          step p c s (.settle i) = some s' →
            s'.verdicts.get? a.peer = some (.accepted certificate) := by
  intro h
  have hrun : ∃ s s' a₀ a b, run (step plain onePinned) (start 0) slowAnswer = some s ∧
      step plain onePinned s (.settle 1) = some s' ∧ s.asks = [a₀, a, b] ∧ a.peer = js "p" ∧
      a.stage = .decided (.accepted plainRecords.certificate) ∧ s.connected = [js "p"] ∧
      a.connection = s.connection (js "p") ∧ b.stage = .requesting (js "ab") ∧
      (s'.verdicts.get? (js "p")).any PeerVerdict.ok = false := by
    -- the retry floor is a difference of readings, which nothing unfolds by itself
    with_unfolding_all exact ⟨_, _, _, _, _, rfl, rfl, rfl, rfl, rfl, rfl, rfl, rfl, rfl⟩
  obtain ⟨s, s', a₀, a, b, hs, hsettle, hasks, hpeer, hdecided, hconnected, hconnection, hwaits,
    hrefused⟩ := hrun
  have hbelieved := h plain onePinned 0 s (List.cons_ne_nil _ _) (reaches_of_free rfl hs) 1 a
    plainRecords.certificate s' (by rw [hasks]; rfl) hdecided (by rw [hpeer, hconnected]; simp)
    (by rw [hpeer]; exact hconnection) (by
      intro j b' hj hb' _ _
      have hlength : j < s.asks.length := (List.getElem?_eq_some_iff.mp hb').1
      rw [hasks] at hlength
      have htwo : j = 2 := by
        simp only [List.length_cons, List.length_nil] at hlength
        omega
      subst htwo
      rw [hasks] at hb'
      cases hb'
      rw [hwaits]
      exact id) hsettle
  rw [hpeer] at hbelieved
  rw [hbelieved] at hrefused
  cases hrefused

end O2Fabric.Libp2p.PeerVerifier
