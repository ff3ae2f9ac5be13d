/-
  O2Fabric.Libp2p.PeerVerifier.Asks

  What holds of the asks between two events.

  The most recent ask of a peer is one of its current connection, and the
  asks of one connection are a retry floor apart.  An acceptance stands only
  where the most recent ask settled with it, and a final refusal only where
  the most recent ask has settled, so nothing can come after either.
-/

import O2Fabric.Lib.Steps
import O2Fabric.Libp2p.PeerVerifier

namespace O2Fabric.Libp2p

/-- The ask has come to an acceptance of this certificate. -/
def AskStage.Accepts (certificate : NodeCertificate) : AskStage → Prop
  | .saving held => held = certificate
  | .decided verdict => verdict = .accepted certificate
  | .settled verdict => verdict = .accepted certificate
  | _ => False

def AskStage.Settled : AskStage → Prop
  | .settled _ => True
  | _ => False

namespace PeerVerifier

open O2Fabric.Steps

variable {p : Platform} {c : PeerVerifierOptions} {s s' : PeerVerifier} {i : Nat} {a : Ask}
  {peer : JsString} {now : ℚ}

def keys (s : PeerVerifier) : List AskKey := s.asks.map Ask.toAskKey

/-- The asks of the current connections, in order, and the clock. -/
structure Ordered (c : PeerVerifierOptions) (s : PeerVerifier) : Prop where
  running : s.stopped = false
  distinct : s.connected.Nodup
  counted : s.generations = s.keys.length
  numbered : ∀ (i : Nat) k, s.keys[i]? = some k → k.generation = i + 1
  connections : ∀ k ∈ s.keys, k.connection ≤ s.connection k.peer
  /-- The most recent ask is the last of the peer's connection. -/
  last : ∀ peer l, s.lastAsk.get? peer = some l → peer ∈ s.connected ∧
    ∃ (i : Nat) (k : AskKey), s.keys[i]? = some k ∧ l = ⟨i + 1, k.at_⟩ ∧ k.peer = peer ∧
      k.connection = s.connection peer ∧
      ∀ (j : Nat) k', s.keys[j]? = some k' → k'.peer = peer → k'.connection = s.connection peer →
        j ≤ i
  asked : ∀ k ∈ s.keys, k.peer ∈ s.connected → k.connection = s.connection k.peer →
    ∃ l, s.lastAsk.get? k.peer = some l
  shared : ∀ peer, s.inFlight.has peer = true ↔ ∃ l, s.lastAsk.get? peer = some l
  spaced : ∀ (i j : Nat) k k', i < j → s.keys[i]? = some k → s.keys[j]? = some k' →
    k.peer = k'.peer → k.connection = k'.connection → k.at_ + c.retryFloorMs ≤ k'.at_
  clocked : ∀ k ∈ s.keys, k.at_ ≤ s.clock

/-- The certificate names the peer's key and was valid when it was checked. -/
structure Vouched (c : PeerVerifierOptions) (s : PeerVerifier) (a : Ask)
    (certificate : NodeCertificate) : Prop where
  named : c.nodeKeyForPeerId a.peer = some certificate.nodeKey
  checked : ∃ evidence, a.evidence = some evidence ∧ evidence.certificate = certificate ∧
    certificate.Valid c.checks.signatures c.trustedIssuers evidence.now ∧ evidence.now ≤ s.clock

/-- What the verdict says of the most recent ask. -/
structure Stands (verdict : PeerVerdict) (a : Ask) : Prop where
  accepted : ∀ certificate, verdict = .accepted certificate → a.stage = .settled verdict
  final : ∀ failure reason, verdict = .refused failure reason → failure.kind ∈ FINAL →
    a.stage.Settled

/-- What the asks have come to, and what stands. -/
structure Judged (c : PeerVerifierOptions) (s : PeerVerifier) : Prop where
  expected : ∀ a ∈ s.asks, ∀ expected, a.stage = .loading expected ∨ a.stage = .requesting expected →
    c.nodeKeyForPeerId a.peer = some expected
  vouched : ∀ a ∈ s.asks, ∀ certificate, a.stage.Accepts certificate → Vouched c s a certificate
  stands : ∀ peer verdict, s.verdicts.get? peer = some verdict →
    ∃ (i : Nat) (a : Ask), s.lastAsk.get? peer = some ⟨i + 1, a.at_⟩ ∧ s.asks[i]? = some a ∧
      Stands verdict a

structure Kept (c : PeerVerifierOptions) (s : PeerVerifier) : Prop where
  ordered : Ordered c s
  judged : Judged c s

/-! ## The clock -/

theorem Kept.later (h : Kept c s) (hlater : s.clock ≤ now) : Kept c { s with clock := now } := by
  have ho := h.ordered
  refine ⟨⟨ho.running, ho.distinct, ho.counted, ho.numbered, ho.connections, ho.last, ho.asked,
    ho.shared, ho.spaced, fun k hk => (ho.clocked k hk).trans hlater⟩, h.judged.expected, ?_,
    h.judged.stands⟩
  intro a ha certificate haccepts
  obtain ⟨hnamed, evidence, hevidence, hcertificate, hvalid, hnow⟩ :=
    h.judged.vouched a ha certificate haccepts
  exact ⟨hnamed, evidence, hevidence, hcertificate, hvalid, hnow.trans hlater⟩

/-! ## An ask goes on -/

theorem keys_set (ha : s.asks[i]? = some a) {a' : Ask} (hkey : a'.toAskKey = a.toAskKey) :
    (s.asks.set i a').map Ask.toAskKey = s.keys := by
  apply List.ext_getElem?
  intro j
  unfold keys
  rw [List.getElem?_map, List.getElem?_map]
  by_cases hj : i = j
  · subst hj
    rw [List.getElem?_set_self (List.getElem?_eq_some_iff.mp ha).1, ha]
    exact congrArg some hkey
  · rw [List.getElem?_set_ne hj]

/-- An ask that has not settled goes on; nothing that stands rests on it. -/
theorem Kept.progress (h : Kept c s) (ha : s.asks[i]? = some a) {a' : Ask}
    (hkey : a'.toAskKey = a.toAskKey) (hopen : ¬ a.stage.Settled)
    (hexpected : ∀ expected, a'.stage = .loading expected ∨ a'.stage = .requesting expected →
      c.nodeKeyForPeerId a.peer = some expected)
    (hvouched : ∀ certificate, a'.stage.Accepts certificate → Vouched c s a' certificate) :
    Kept c { s with asks := s.asks.set i a' } := by
  have ho := h.ordered
  have hkeys : keys { s with asks := s.asks.set i a' } = s.keys := keys_set ha hkey
  have hpeer : a'.peer = a.peer := congrArg AskKey.peer hkey
  refine ⟨⟨ho.running, ho.distinct, ?_, ?_, ?_, ?_, ?_, ho.shared, ?_, ?_⟩, ?_, ?_, ?_⟩
  · rw [hkeys]
    exact ho.counted
  · rw [hkeys]
    exact ho.numbered
  · rw [hkeys]
    exact ho.connections
  · rw [hkeys]
    exact ho.last
  · rw [hkeys]
    exact ho.asked
  · rw [hkeys]
    exact ho.spaced
  · rw [hkeys]
    exact ho.clocked
  · intro b hb expected hstage
    obtain hold | rfl := List.mem_or_eq_of_mem_set hb
    · exact h.judged.expected b hold expected hstage
    · rw [hpeer]
      exact hexpected expected hstage
  · intro b hb certificate haccepts
    obtain hold | rfl := List.mem_or_eq_of_mem_set hb
    · obtain ⟨hnamed, hchecked⟩ := h.judged.vouched b hold certificate haccepts
      exact ⟨hnamed, hchecked⟩
    · obtain ⟨hnamed, hchecked⟩ := hvouched certificate haccepts
      exact ⟨hnamed, hchecked⟩
  · intro peer verdict hverdict
    obtain ⟨j, b, hlast, hb, hstands⟩ := h.judged.stands peer verdict hverdict
    by_cases hj : i = j
    · subst hj
      rw [ha] at hb
      cases hb
      refine ⟨i, a', ?_, ?_, ?_⟩
      · rw [show a'.at_ = a.at_ from congrArg AskKey.at_ hkey]
        exact hlast
      · show (s.asks.set i a')[i]? = some a'
        rw [List.getElem?_set_self (List.getElem?_eq_some_iff.mp ha).1]
      · -- an ask on which an acceptance or a final refusal stands has settled
        refine ⟨fun certificate haccepted => absurd ?_ hopen, fun failure reason hrefused hfinal =>
          absurd (hstands.final failure reason hrefused hfinal) hopen⟩
        rw [hstands.accepted certificate haccepted]
        trivial
    · refine ⟨j, b, hlast, ?_, hstands⟩
      show (s.asks.set i a')[j]? = some b
      rw [List.getElem?_set_ne hj]
      exact hb

/-! ## A new ask -/

theorem has_set {inFlight : InsertionMap JsString Nat} {generation : Nat} {other : JsString} :
    (inFlight.set peer generation).has other = true ↔ other = peer ∨ inFlight.has other = true := by
  unfold InsertionMap.has
  rw [InsertionMap.get?_set]
  split
  · next heq => simp [heq]
  · next hne => simp [hne]

/-- The asks that were there stay a retry floor before a new one of their connection. -/
theorem Ordered.spaced_new (h : Ordered c s) (hconnected : peer ∈ s.connected)
    (hclock : s.clock ≤ now)
    (hfloor : ∀ l, s.lastAsk.get? peer = some l → l.at_ + c.retryFloorMs ≤ now)
    {k : AskKey} (hk : s.keys[i]? = some k) (hpeer : k.peer = peer)
    (hconnection : k.connection = s.connection peer) : k.at_ + c.retryFloorMs ≤ now := by
  have hmem : k ∈ s.keys := List.mem_of_getElem? hk
  obtain ⟨l, hl⟩ := h.asked k hmem (by rw [hpeer]; exact hconnected)
    (by rw [hpeer]; exact hconnection)
  rw [hpeer] at hl
  obtain ⟨-, i₀, k₀, hk₀, rfl, hpeer₀, hconnection₀, hlast⟩ := h.last peer l hl
  have hspaced₀ := hfloor _ hl
  have hle : i ≤ i₀ := hlast i k hk hpeer hconnection
  obtain rfl | hlt := Nat.eq_or_lt_of_le hle
  · rw [hk] at hk₀
    cases hk₀
    exact hspaced₀
  · -- with a floor below zero the clock alone keeps them apart
    have hbefore := h.spaced i i₀ k k₀ hlt hk hk₀ (hpeer.trans hpeer₀.symm)
      (hconnection.trans hconnection₀.symm)
    have hnow := (h.clocked k hmem).trans hclock
    dsimp only at hspaced₀
    by_cases hsign : 0 ≤ c.retryFloorMs
    · linarith
    · linarith

theorem Kept.issue (h : Kept c s) (inFlight : InsertionMap JsString Nat)
    (hothers : ∀ other, other ≠ peer → inFlight.has other = s.inFlight.has other)
    (hconnected : peer ∈ s.connected) (hclock : s.clock ≤ now)
    (hfloor : ∀ l, s.lastAsk.get? peer = some l → l.at_ + c.retryFloorMs ≤ now)
    (hopen : ∀ verdict, s.verdicts.get? peer = some verdict →
      ∃ failure reason, verdict = .refused failure reason ∧ failure.kind ∉ FINAL) :
    Kept c { PeerVerifier.issue c { s with inFlight := inFlight } peer now with clock := now } := by
  have ho := h.ordered
  have hkeys : keys { PeerVerifier.issue c { s with inFlight := inFlight } peer now with clock := now }
      = s.keys ++ [⟨peer, s.generations + 1, s.connection peer, now⟩] := List.map_append
  have hgeneration : s.generations = s.keys.length := ho.counted
  refine ⟨⟨ho.running, ho.distinct, ?_, ?_, ?_, ?_, ?_, ?_, ?_, ?_⟩, ?_, ?_, ?_⟩
  · rw [hkeys, List.length_append, ← hgeneration]
    rfl
  · intro i k hk
    rw [hkeys] at hk
    obtain hk | ⟨rfl, rfl⟩ := getElem?_concat_cases hk
    · exact ho.numbered i k hk
    · rw [← hgeneration]
  · intro k hk
    rw [hkeys] at hk
    obtain hk | hk := List.mem_append.mp hk
    · exact ho.connections k hk
    · rw [List.mem_singleton.mp hk]
      exact Nat.le_refl _
  · intro other l hl
    have hset : (s.lastAsk.set peer ⟨s.generations + 1, now⟩).get? other = some l := hl
    rw [InsertionMap.get?_set] at hset
    rw [hkeys]
    split at hset
    · next heq =>
      cases hset
      rw [heq]
      refine ⟨hconnected, s.keys.length, ⟨peer, s.generations + 1, s.connection peer, now⟩,
        List.getElem?_concat_length, by rw [← hgeneration], rfl, rfl, ?_⟩
      intro j k' hk' _ _
      obtain hk' | ⟨rfl, -⟩ := getElem?_concat_cases hk'
      · exact Nat.le_of_lt (List.getElem?_eq_some_iff.mp hk').1
      · exact Nat.le_refl _
    · next hne =>
      obtain ⟨hmem, i, k, hk, hl', hpeer, hconnection, hlast⟩ := ho.last other l hset
      refine ⟨hmem, i, k, ?_, hl', hpeer, hconnection, ?_⟩
      · exact (List.getElem?_append_left (List.getElem?_eq_some_iff.mp hk).1).trans hk
      · intro j k' hk' hpeer' hconnection'
        obtain hk' | ⟨-, rfl⟩ := getElem?_concat_cases hk'
        · exact hlast j k' hk' hpeer' hconnection'
        · exact absurd hpeer'.symm hne
  · intro k hk hmem hconnection
    rw [hkeys] at hk
    show ∃ l, (s.lastAsk.set peer ⟨s.generations + 1, now⟩).get? k.peer = some l
    rw [InsertionMap.get?_set]
    split
    · exact ⟨_, rfl⟩
    · next hne =>
      obtain hk | hk := List.mem_append.mp hk
      · exact ho.asked k hk hmem hconnection
      · rw [List.mem_singleton.mp hk] at hne
        exact absurd rfl hne
  · intro other
    show (inFlight.set peer (s.generations + 1)).has other = true ↔
      ∃ l, (s.lastAsk.set peer ⟨s.generations + 1, now⟩).get? other = some l
    rw [has_set, InsertionMap.get?_set]
    split
    · next heq => simp [heq]
    · next hne =>
      rw [hothers other hne, ho.shared]
      simp [hne]
  · intro i j k k' hij hk hk' hpeer hconnection
    rw [hkeys] at hk hk'
    obtain hk' | ⟨rfl, rfl⟩ := getElem?_concat_cases hk'
    · have hi : i < s.keys.length := Nat.lt_trans hij (List.getElem?_eq_some_iff.mp hk').1
      rw [List.getElem?_append_left hi] at hk
      exact ho.spaced i j k k' hij hk hk' hpeer hconnection
    · rw [List.getElem?_append_left hij] at hk
      exact ho.spaced_new hconnected hclock hfloor hk hpeer hconnection
  · intro k hk
    rw [hkeys] at hk
    obtain hk | hk := List.mem_append.mp hk
    · exact (ho.clocked k hk).trans hclock
    · rw [List.mem_singleton.mp hk]
  · intro b hb expected hstage
    obtain hb | hb := List.mem_append.mp hb
    · exact h.judged.expected b hb expected hstage
    · rw [List.mem_singleton.mp hb] at hstage ⊢
      unfold firstStage at hstage
      dsimp only at hstage ⊢
      split at hstage
      · obtain hstage | hstage := hstage <;> cases hstage
      · next named hnamed =>
        split at hstage
        · obtain hstage | hstage := hstage
          · cases hstage
            exact hnamed
          · cases hstage
        · obtain hstage | hstage := hstage
          · cases hstage
          · cases hstage
            exact hnamed
  · intro b hb certificate haccepts
    obtain hb | hb := List.mem_append.mp hb
    · obtain ⟨hnamed, evidence, hevidence, hcertificate, hvalid, hnow⟩ :=
        h.judged.vouched b hb certificate haccepts
      exact ⟨hnamed, evidence, hevidence, hcertificate, hvalid, hnow.trans hclock⟩
    · rw [List.mem_singleton.mp hb] at haccepts
      exfalso
      unfold firstStage unidentifiable at haccepts
      dsimp only at haccepts
      split at haccepts
      · cases haccepts
      · split at haccepts <;> cases haccepts
  · intro other verdict hverdict
    obtain ⟨i, b, hlast, hb, hstands⟩ := h.judged.stands other verdict hverdict
    by_cases hpeer : other = peer
    · -- what stands is a refusal that may become an acceptance
      subst hpeer
      obtain ⟨failure, reason, rfl, hnotFinal⟩ := hopen verdict hverdict
      refine ⟨s.asks.length, ⟨⟨other, s.generations + 1, s.connection other, now⟩, none,
        firstStage c other⟩, ?_, List.getElem?_concat_length, ?_, ?_⟩
      · show (s.lastAsk.set other _).get? other = _
        rw [InsertionMap.get?_set_self, hgeneration]
        unfold keys
        rw [List.length_map]
      · intro certificate haccepted
        cases haccepted
      · intro failure' reason' hrefused hfinal
        cases hrefused
        exact absurd hfinal hnotFinal
    · refine ⟨i, b, ?_, ?_, hstands⟩
      · show (s.lastAsk.set peer _).get? other = _
        rw [InsertionMap.get?_set, if_neg hpeer]
        exact hlast
      · exact (List.getElem?_append_left (List.getElem?_eq_some_iff.mp hb).1).trans hb

/-- A peer that has not been asked since it connected has no verdict. -/
theorem Kept.unasked (h : Kept c s) (hnone : ¬ s.inFlight.has peer = true) :
    s.lastAsk.get? peer = none ∧ s.verdicts.get? peer = none := by
  have hlast : s.lastAsk.get? peer = none := by
    cases hget : s.lastAsk.get? peer with
    | none => rfl
    | some l => exact absurd ((h.ordered.shared peer).mpr ⟨l, hget⟩) hnone
  refine ⟨hlast, ?_⟩
  cases hverdict : s.verdicts.get? peer with
  | none => rfl
  | some verdict =>
    obtain ⟨i, a, hget, -, -⟩ := h.judged.stands peer verdict hverdict
    rw [hlast] at hget
    cases hget

/-- `verify` asks a peer that has not been asked since it connected. -/
theorem Kept.verify (h : Kept c s) (hconnected : peer ∈ s.connected) (hclock : s.clock ≤ now) :
    Kept c { s.verify c peer now with clock := now } := by
  unfold PeerVerifier.verify
  split
  · exact h.later hclock
  · next hnone =>
    obtain ⟨hlast, hverdict⟩ := h.unasked hnone
    apply h.issue s.inFlight (fun _ _ => rfl) hconnected hclock
    · intro l hl
      rw [hlast] at hl
      cases hl
    · intro verdict hget
      rw [hverdict] at hget
      cases hget

/-- The same where the clock has just been read. -/
theorem Kept.verifyNow (h : Kept c s) (hconnected : peer ∈ s.connected) (hclock : s.clock = now) :
    Kept c (s.verify c peer now) := by
  have hkept := h.verify hconnected hclock.le
  have hsame : { s.verify c peer now with clock := now } = s.verify c peer now := by
    subst hclock
    unfold PeerVerifier.verify
    split <;> rfl
  rw [hsame] at hkept
  exact hkept

/-! ## Verdicts change -/

theorem Kept.judge (h : Kept c s) {verdicts : InsertionMap JsString PeerVerdict}
    (hstands : ∀ peer verdict, verdicts.get? peer = some verdict →
      ∃ (i : Nat) (a : Ask), s.lastAsk.get? peer = some ⟨i + 1, a.at_⟩ ∧ s.asks[i]? = some a ∧
        Stands verdict a) : Kept c { s with verdicts := verdicts } := by
  have ho := h.ordered
  refine ⟨⟨ho.running, ho.distinct, ho.counted, ho.numbered, ho.connections, ho.last, ho.asked,
    ho.shared, ho.spaced, ho.clocked⟩, h.judged.expected, ?_, hstands⟩
  intro a ha certificate haccepts
  obtain ⟨hnamed, hchecked⟩ := h.judged.vouched a ha certificate haccepts
  exact ⟨hnamed, hchecked⟩

theorem expired_not_final (expiresAt now : ℚ) :
    (PeerFailure.certificate (.expired expiresAt now)).kind ∉ FINAL := by
  show js "expired" ∉ FINAL
  decide

/-- An acceptance that stands has lapsed: what stands after it is not final. -/
theorem Kept.demote (h : Kept c s) {certificate : NodeCertificate} {failure : CertificateFailure}
    (hverdict : s.verdicts.get? peer = some (.accepted certificate)) (hclock : s.clock ≤ now)
    (hfailure : certificateFailure c.checks certificate c.trustedIssuers now = some failure)
    (reason : JsString) :
    (PeerFailure.certificate failure).kind ∉ FINAL ∧
      Kept c { s with
        verdicts := s.verdicts.set peer (.refused (.certificate failure) reason) } := by
  obtain ⟨i, a, hlast, ha, hstands⟩ := h.judged.stands peer _ hverdict
  have hsettled := hstands.accepted certificate rfl
  have haccepts : a.stage.Accepts certificate := by
    rw [hsettled]
    rfl
  obtain ⟨hnamed, evidence, hevidence, hcertificate, hvalid, hnow⟩ :=
    h.judged.vouched a (List.mem_of_getElem? ha) certificate haccepts
  have hexpired := hvalid.later (hnow.trans hclock)
  have hnotFinal : (PeerFailure.certificate failure).kind ∉ FINAL := by
    rw [hfailure] at hexpired
    split at hexpired
    · cases hexpired
      exact expired_not_final _ _
    · cases hexpired
  refine ⟨hnotFinal, h.judge ?_⟩
  intro other verdict hget
  rw [InsertionMap.get?_set] at hget
  split at hget
  · next heq =>
    cases hget
    refine ⟨i, a, heq ▸ hlast, ha, ?_, ?_⟩
    · intro certificate haccepted
      cases haccepted
    · intro failure' reason' hrefused hfinal
      cases hrefused
      exact absurd hfinal hnotFinal
  · exact h.judged.stands other verdict hget

end PeerVerifier

end O2Fabric.Libp2p

/-! # Reading

What a read of `verifiedPeers` leaves and what it may do.

A refresh changes only the verdict of its own peer and asks only that peer.
It takes back an acceptance whose certificate has lapsed, at the reading of
the clock that the refresh began with, and leaves a final refusal alone.
-/

namespace O2Fabric.Libp2p.PeerVerifier

open O2Fabric.Steps

variable {p : Platform} {c : PeerVerifierOptions} {s s' t : PeerVerifier} {peer : JsString}
  {r : Readings} {now : ℚ}

def asksOf (s : PeerVerifier) (peer : JsString) : List AskKey :=
  s.keys.filter fun k => decide (k.peer = peer)

/-- What a refresh of `peer` leaves and what it may do. -/
structure Refreshed (s s' : PeerVerifier) (peer : JsString) (expiry : ℚ) : Prop where
  connected : s'.connected = s.connected
  others : ∀ other, other ≠ peer →
    s'.verdicts.get? other = s.verdicts.get? other ∧ s'.asksOf other = s.asksOf other
  /-- An acceptance that stands after it stood before, and has not lapsed. -/
  unlapsed : ∀ certificate, s'.verdicts.get? peer = some (.accepted certificate) →
    s.verdicts.get? peer = some (.accepted certificate) ∧ expiry < certificate.expiresAt
  /-- A final refusal stays, and the peer is not asked. -/
  final : ∀ failure reason, s.verdicts.get? peer = some (.refused failure reason) →
    failure.kind ∈ FINAL →
      s'.verdicts.get? peer = s.verdicts.get? peer ∧ s'.asksOf peer = s.asksOf peer

/-! ## A new ask is of one peer -/

variable {other : JsString}

theorem asksOf_issue (inFlight : InsertionMap JsString Nat)
    (verdicts : InsertionMap JsString PeerVerdict) (hne : other ≠ peer) :
    asksOf { issue c { s with inFlight := inFlight, verdicts := verdicts } peer now with clock := now }
      other = s.asksOf other := by
  unfold asksOf
  have hkeys : keys { issue c { s with inFlight := inFlight, verdicts := verdicts } peer now with
      clock := now } = s.keys ++ [⟨peer, s.generations + 1, s.connection peer, now⟩] := List.map_append
  rw [hkeys, List.filter_append]
  have hnot : ¬ peer = other := fun heq => hne heq.symm
  simp [hnot]

/-- `verify` leaves every verdict, and asks the peer alone. -/
theorem verify_leaves (hne : other ≠ peer) :
    (s.verify c peer now).asksOf other = s.asksOf other := by
  unfold verify
  split
  · rfl
  · exact asksOf_issue s.inFlight s.verdicts hne

theorem verdicts_verify : (s.verify c peer now).verdicts = s.verdicts := by
  unfold verify
  split <;> rfl

theorem connected_verify : (s.verify c peer now).connected = s.connected := by
  unfold verify
  split <;> rfl

/-! ## One refresh -/

/-- After `inFlight` has been dropped, `verify` asks. -/
theorem verify_after_delete :
    { s with inFlight := s.inFlight.delete peer }.verify c peer now
      = issue c { s with inFlight := s.inFlight.delete peer } peer now := by
  have hnone : ¬ (s.inFlight.delete peer).has peer = true := by
    unfold InsertionMap.has
    rw [InsertionMap.get?_delete, if_pos rfl]
    exact Bool.false_ne_true
  exact if_neg hnone

theorem has_delete (hne : other ≠ peer) (inFlight : InsertionMap JsString Nat) :
    (inFlight.delete peer).has other = inFlight.has other := by
  unfold InsertionMap.has
  rw [InsertionMap.get?_delete, if_neg hne]

/-- A retryable refusal that stands: the peer is asked again once the floor has passed. -/
theorem Kept.askAgain (h : Kept c s) (hconnected : peer ∈ s.connected) {failure : PeerFailure}
    {reason : JsString} (hstanding : s.verdicts.get? peer = some (.refused failure reason))
    (hnotFinal : failure.kind ∉ FINAL) (hfloor : s.clock ≤ r.floor) (hasked : r.floor ≤ r.asked) :
    Kept c { s.askAgain c peer r with clock := r.asked } := by
  unfold PeerVerifier.askAgain
  split
  · exact h.later (hfloor.trans hasked)
  · next hpassed =>
    rw [verify_after_delete]
    apply h.issue _ (fun other hne => has_delete hne _) hconnected (hfloor.trans hasked)
    · intro l hl
      rw [hl] at hpassed
      have hsince : c.retryFloorMs ≤ r.floor - l.at_ := not_lt.mp hpassed
      linarith
    · intro verdict hverdict
      rw [hstanding] at hverdict
      cases hverdict
      exact ⟨failure, reason, rfl, hnotFinal⟩

/-- It leaves the verdicts, and whom else was asked. -/
theorem askAgain_leaves :
    (s.askAgain c peer r).connected = s.connected ∧ (s.askAgain c peer r).verdicts = s.verdicts ∧
      ∀ other, other ≠ peer → (s.askAgain c peer r).asksOf other = s.asksOf other := by
  unfold PeerVerifier.askAgain
  split
  · exact ⟨rfl, rfl, fun _ _ => rfl⟩
  · rw [verify_after_delete]
    exact ⟨rfl, rfl, fun other hne => asksOf_issue _ s.verdicts hne⟩

/-- Nothing has happened but that time has passed. -/
theorem Refreshed.nothing (hstanding : ∀ certificate,
    s.verdicts.get? peer = some (.accepted certificate) → r.expiry < certificate.expiresAt) :
    Refreshed s { s with clock := r.asked } peer r.expiry where
  connected := rfl
  others _ _ := ⟨rfl, rfl⟩
  unlapsed certificate hget := ⟨hget, hstanding certificate hget⟩
  final _ _ _ _ := ⟨rfl, rfl⟩

/-- A refresh over a refusal that is not final, or that has just become one. -/
theorem Refreshed.asked {failure : PeerFailure} {reason : JsString}
    (hs : ∀ failure reason, s.verdicts.get? peer = some (.refused failure reason) →
      failure.kind ∉ FINAL)
    (hconnected : t.connected = s.connected)
    (hothers : ∀ other, other ≠ peer →
      t.verdicts.get? other = s.verdicts.get? other ∧ t.asksOf other = s.asksOf other)
    (ht : t.verdicts.get? peer = some (.refused failure reason)) :
    Refreshed s { t.askAgain c peer r with clock := r.asked } peer r.expiry := by
  obtain ⟨hleft, hverdicts, hasks⟩ := @askAgain_leaves c t peer r
  refine ⟨hleft.trans hconnected, ?_, ?_, ?_⟩
  · intro other hne
    obtain ⟨hverdict, hother⟩ := hothers other hne
    refine ⟨?_, (hasks other hne).trans hother⟩
    show (t.askAgain c peer r).verdicts.get? other = _
    rw [hverdicts]
    exact hverdict
  · intro certificate hget
    have haccepted : (t.askAgain c peer r).verdicts.get? peer = some (.accepted certificate) := hget
    rw [hverdicts, ht] at haccepted
    cases haccepted
  · intro failure' reason' hget hfinal
    exact absurd hfinal (hs failure' reason' hget)

theorem Kept.refresh (h : Kept c s) (hconnected : peer ∈ s.connected) (hexpiry : s.clock ≤ r.expiry)
    (hfloor : r.expiry ≤ r.floor) (hasked : r.floor ≤ r.asked) :
    Kept c { s.refresh p c peer r with clock := r.asked } ∧
      Refreshed s { s.refresh p c peer r with clock := r.asked } peer r.expiry := by
  have hlater : s.clock ≤ r.asked := hexpiry.trans (hfloor.trans hasked)
  unfold PeerVerifier.refresh
  rw [if_neg (by rw [h.ordered.running]; exact Bool.false_ne_true)]
  cases hverdict : s.verdicts.get? peer with
  | none =>
    refine ⟨h.verify hconnected hlater, ?_⟩
    refine ⟨connected_verify, ?_, ?_, ?_⟩
    · intro other hne
      exact ⟨by rw [verdicts_verify], verify_leaves hne⟩
    · intro certificate hget
      have haccepted : (s.verify c peer r.asked).verdicts.get? peer = _ := hget
      rw [verdicts_verify, hverdict] at haccepted
      cases haccepted
    · intro failure reason hget
      rw [hverdict] at hget
      cases hget
  | some settled =>
    dsimp only
    unfold demoteIfExpired
    cases settled with
    | refused failure reason =>
      dsimp only
      split
      · refine ⟨h.later hlater, Refreshed.nothing ?_⟩
        intro certificate hget
        rw [hverdict] at hget
        cases hget
      · next hnotFinal =>
        refine ⟨h.askAgain hconnected hverdict hnotFinal (hexpiry.trans hfloor) hasked,
          Refreshed.asked ?_ rfl (fun _ _ => ⟨rfl, rfl⟩) hverdict⟩
        intro failure' reason' hget
        rw [hverdict] at hget
        cases hget
        exact hnotFinal
    | accepted certificate =>
      dsimp only
      by_cases hunexpired : r.expiry < certificate.expiresAt
      · rw [if_pos hunexpired]
        refine ⟨h.later hlater, Refreshed.nothing ?_⟩
        intro certificate' hget
        rw [hverdict] at hget
        cases hget
        exact hunexpired
      · rw [if_neg hunexpired]
        cases hfailure : certificateFailure c.checks certificate c.trustedIssuers r.expiry with
        | none =>
          -- the kernel has the same clock, so it refuses what has lapsed
          have hvalid := certificateFailure_eq_none.mp hfailure
          exact absurd hvalid.unexpired hunexpired
        | some failure =>
          dsimp only
          obtain ⟨hnotFinal, hkept⟩ := h.demote hverdict hexpiry hfailure (failure.reason p)
          rw [if_neg hnotFinal]
          have hdemoted : (s.verdicts.set peer (.refused (.certificate failure)
              (failure.reason p))).get? peer = some (.refused (.certificate failure)
                (failure.reason p)) := InsertionMap.get?_set_self _ _ _
          refine ⟨hkept.askAgain hconnected hdemoted hnotFinal (hexpiry.trans hfloor) hasked,
            Refreshed.asked ?_ rfl ?_ hdemoted⟩
          · intro failure' reason' hget
            rw [hverdict] at hget
            cases hget
          · intro other hne
            refine ⟨?_, rfl⟩
            show (s.verdicts.set peer _).get? other = _
            rw [InsertionMap.get?_set, if_neg hne]

/-- The refresh of one peer leaves the final refusals of all. -/
theorem Refreshed.stays {first : JsString} {expiry : ℚ} (h : Refreshed s s' first expiry)
    {failure : PeerFailure} {reason : JsString}
    (hverdict : s.verdicts.get? peer = some (.refused failure reason))
    (hfinal : failure.kind ∈ FINAL) :
    s'.verdicts.get? peer = s.verdicts.get? peer ∧ s'.asksOf peer = s.asksOf peer := by
  by_cases hpeer : peer = first
  · subst hpeer
    exact h.final failure reason hverdict hfinal
  · exact h.others peer hpeer

/-! ## One read -/

/-- What a read that refreshes these peers leaves and what it may do. -/
structure ReadThrough (s s' : PeerVerifier) (peers : List JsString) (readings : List Readings) :
    Prop where
  connected : s'.connected = s.connected
  others : ∀ other, other ∉ peers →
    s'.verdicts.get? other = s.verdicts.get? other ∧ s'.asksOf other = s.asksOf other
  paired : peers.length = readings.length
  unlapsed : ∀ (i : Nat) peer (r : Readings) certificate, peers[i]? = some peer →
    readings[i]? = some r → s'.verdicts.get? peer = some (.accepted certificate) →
      r.expiry < certificate.expiresAt
  final : ∀ peer failure reason, s.verdicts.get? peer = some (.refused failure reason) →
    failure.kind ∈ FINAL →
      s'.verdicts.get? peer = s.verdicts.get? peer ∧ s'.asksOf peer = s.asksOf peer

theorem Kept.refreshAll {peers : List JsString} {readings : List Readings} (h : Kept c s)
    (hconnected : ∀ peer ∈ peers, peer ∈ s.connected) (hdistinct : peers.Nodup)
    (hstep : s.refreshAll p c peers readings = some s') :
    Kept c s' ∧ ReadThrough s s' peers readings := by
  induction peers generalizing s readings with
  | nil =>
    cases readings with
    | nil =>
      cases hstep
      refine ⟨h, rfl, fun _ _ => ⟨rfl, rfl⟩, rfl, ?_, fun _ _ _ _ _ => ⟨rfl, rfl⟩⟩
      intro i peer r certificate hpeer
      cases hpeer
    | cons r rest => cases hstep
  | cons first peers ih =>
    cases readings with
    | nil => cases hstep
    | cons r readings =>
      unfold PeerVerifier.refreshAll at hstep
      split at hstep
      case isFalse => cases hstep
      case isTrue htimes =>
        obtain ⟨hkept, hone⟩ := h.refresh (p := p) (hconnected first List.mem_cons_self) htimes.1
          htimes.2.1 htimes.2.2
        obtain ⟨hnew, hnodup⟩ := List.nodup_cons.mp hdistinct
        obtain ⟨hkept', hrest⟩ := ih hkept (by
          intro peer hpeer
          rw [hone.connected]
          exact hconnected peer (List.mem_cons_of_mem _ hpeer)) hnodup hstep
        refine ⟨hkept', hrest.connected.trans hone.connected, ?_, ?_, ?_, ?_⟩
        · intro other hother
          have hne : other ≠ first := fun heq => hother (heq ▸ List.mem_cons_self)
          have hnot : other ∉ peers := fun hmem => hother (List.mem_cons_of_mem _ hmem)
          obtain ⟨hverdict, hasks⟩ := hone.others other hne
          obtain ⟨hverdict', hasks'⟩ := hrest.others other hnot
          exact ⟨hverdict'.trans hverdict, hasks'.trans hasks⟩
        · rw [List.length_cons, List.length_cons, hrest.paired]
        · intro i peer r' certificate hpeer hreading haccepted
          cases i with
          | zero =>
            cases hpeer
            cases hreading
            rw [(hrest.others first hnew).1] at haccepted
            exact (hone.unlapsed certificate haccepted).2
          | succ i => exact hrest.unlapsed i peer r' certificate hpeer hreading haccepted
        · intro peer failure reason hverdict hfinal
          have hstill := hone.stays hverdict hfinal
          have hafter := hrest.final peer failure reason (hstill.1.trans hverdict) hfinal
          exact ⟨hafter.1.trans hstill.1, hafter.2.trans hstill.2⟩

end O2Fabric.Libp2p.PeerVerifier
