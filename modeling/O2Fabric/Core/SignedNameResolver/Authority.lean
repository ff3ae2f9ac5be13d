/-
  O2Fabric.Core.SignedNameResolver.Authority

  Under which anchor a name stays.

  A delegation on a record that an anchor signed itself is not verified, yet the
  root it names is what the resolver goes on to compare.  `Unverified` is that
  record; without it a name keeps the anchor it was first accepted under.
-/

import O2Fabric.Core.SignedNameResolver
import O2Fabric.Lib.Steps

namespace O2Fabric.SignedNameResolver

open Steps

abbrev SignedBy := (key : JsString) → (payload : Bytes) → Prop

/-- A signature verifies under a key only over what the key's holder signed. -/
def Ideal (sigs : NameSignatures) (signedBy : SignedBy) : Prop :=
  ∀ signature payload key, sigs.verify signature payload key = true → signedBy key payload

section

variable (sigs : NameSignatures) (anchors : List JsString)

/-- A delegation of this signer that a pinned root has signed. -/
structure Genuine (delegation : NameDelegation) (signer : JsString) : Prop where
  delegate : delegation.delegate = signer
  root : delegation.root ∈ anchors
  signed : delegationSigned sigs delegation = true

instance (delegation : NameDelegation) (signer : JsString) :
    Decidable (Genuine sigs anchors delegation signer) :=
  decidable_of_iff (delegation.delegate = signer ∧ delegation.root ∈ anchors ∧
      delegationSigned sigs delegation = true)
    ⟨fun h => ⟨h.1, h.2.1, h.2.2⟩, fun h => ⟨h.delegate, h.root, h.signed⟩⟩

/-- The anchor a record rests on: the root that really delegated to its signer, or the signer. -/
def anchorOf (record : NameRecord) : JsString :=
  match record.delegation with
  | some delegation =>
    if Genuine sigs anchors delegation record.signer then delegation.root else record.signer
  | none => record.signer

/-- The anchor is pinned and stands behind the record: it signed it, or it signed the delegation
    of the key that did. -/
structure RestsOn (signedBy : SignedBy) (record : NameRecord) (anchor : JsString) : Prop where
  pinned : anchor ∈ anchors
  signed : ∃ payload, payloadOf sigs record = some payload ∧ signedBy record.signer payload
  vouched : record.signer = anchor ∨
    ∃ delegation payload, record.delegation = some delegation ∧ delegation.root = anchor ∧
      delegation.delegate = record.signer ∧
      delegationPayloadOf sigs delegation = some payload ∧ signedBy anchor payload

/-- An anchor's own record that names another root, which did not delegate to it. -/
def Unverified (record : NameRecord) : Prop :=
  record.signer ∈ anchors ∧ authorityOf record ≠ anchorOf sigs anchors record

end

abbrev Offer := NameRecord × ℚ

def step (sigs : NameSignatures) (resolver : SignedNameResolver) (offer : Offer) :
    Option SignedNameResolver :=
  some (resolver.accept sigs offer.1 offer.2).2

/-- What is offered names no root it does not rest on, unless it is refused all the same: it is
    not signed, has expired, or does not follow what the name is held under. -/
def Clean (sigs : NameSignatures) (resolver : SignedNameResolver) (offer : Offer) : Prop :=
  Unverified sigs resolver.anchors offer.1 →
    (∀ payload, payloadOf sigs offer.1 = some payload →
      sigs.verify offer.1.signature payload offer.1.signer = false) ∨
    offer.1.expiresAt ≤ offer.2 ∨
    ∃ existing, resolver.records.get? offer.1.name = some existing ∧
      (authorityOf existing ≠ authorityOf offer.1 ∨ offer.1.version < existing.version)

/-! ## What is compared is what the record rests on -/

section

variable {sigs : NameSignatures} {signedBy : SignedBy} {resolver resolver' : SignedNameResolver}
  {record : NameRecord} {now : ℚ}

theorem authorityOf_of_warrants {delegation : NameDelegation}
    (hdelegation : record.delegation = some delegation)
    (h : resolver.Warrants sigs delegation record now) :
    authorityOf record = anchorOf sigs resolver.anchors record := by
  have hgenuine : Genuine sigs resolver.anchors delegation record.signer :=
    ⟨h.delegate, h.root, h.signed⟩
  simp only [authorityOf, anchorOf, hdelegation, if_pos hgenuine]

/-- A clean offer that is accepted is compared by the anchor it rests on. -/
theorem authorityOf_of_accepted (hclean : Clean sigs resolver (record, now))
    (h : Accepted sigs resolver record now) :
    authorityOf record = anchorOf sigs resolver.anchors record := by
  rcases authorise_eq_none.mp h.entitled with hanchor | ⟨delegation, hdelegation, hwarrants⟩
  · by_contra hdiffer
    rcases hclean ⟨hanchor, hdiffer⟩ with hunsigned | hexpired | ⟨existing, hheld, hrefused⟩
    · obtain ⟨payload, hpayload, hsigned⟩ := h.signed
      have hfails := hunsigned payload hpayload
      simp [hsigned] at hfails
    · exact absurd hexpired (not_le.mpr h.alive)
    · rcases hrefused with hother | hlower
      · exact hother (h.sameAuthority existing hheld)
      · exact absurd (h.noRollback existing hheld) (not_le.mpr hlower)
  · exact authorityOf_of_warrants hdelegation hwarrants

theorem signedBy_of_genuine (hideal : Ideal sigs signedBy) {delegation : NameDelegation}
    {anchors : List JsString} {signer : JsString} (h : Genuine sigs anchors delegation signer) :
    ∃ payload, delegationPayloadOf sigs delegation = some payload ∧
      signedBy delegation.root payload := by
  have hsigned := h.signed
  unfold delegationSigned at hsigned
  cases hpayload : delegationPayloadOf sigs delegation with
  | none => simp [hpayload] at hsigned
  | some payload =>
    simp only [hpayload] at hsigned
    exact ⟨payload, rfl, hideal _ _ _ hsigned⟩

/-- Whatever is accepted rests on the anchor it is said to rest on. -/
theorem restsOn_of_accepted (hideal : Ideal sigs signedBy)
    (h : Accepted sigs resolver record now) :
    RestsOn sigs resolver.anchors signedBy record (anchorOf sigs resolver.anchors record) := by
  have hsigned : ∃ payload, payloadOf sigs record = some payload ∧
      signedBy record.signer payload := by
    obtain ⟨payload, hpayload, hverified⟩ := h.signed
    exact ⟨payload, hpayload, hideal _ _ _ hverified⟩
  -- a genuine delegation is looked at first, whoever the signer is
  by_cases hgenuine : ∃ delegation, record.delegation = some delegation ∧
      Genuine sigs resolver.anchors delegation record.signer
  · obtain ⟨delegation, hdelegation, hgenuine⟩ := hgenuine
    have hanchor : anchorOf sigs resolver.anchors record = delegation.root := by
      simp only [anchorOf, hdelegation, if_pos hgenuine]
    obtain ⟨payload, hpayload, hroot⟩ := signedBy_of_genuine hideal hgenuine
    rw [hanchor]
    exact ⟨hgenuine.root, hsigned,
      Or.inr ⟨delegation, payload, hdelegation, rfl, hgenuine.delegate, hpayload, hroot⟩⟩
  · have hanchor : anchorOf sigs resolver.anchors record = record.signer := by
      cases hdelegation : record.delegation with
      | none => simp only [anchorOf, hdelegation]
      | some delegation =>
        have hnot : ¬ Genuine sigs resolver.anchors delegation record.signer :=
          fun hg => hgenuine ⟨delegation, hdelegation, hg⟩
        simp only [anchorOf, hdelegation, if_neg hnot]
    have hpinned : record.signer ∈ resolver.anchors := by
      rcases authorise_eq_none.mp h.entitled with hmem | ⟨delegation, hdelegation, hwarrants⟩
      · exact hmem
      · exact absurd ⟨delegation, hdelegation, hwarrants.delegate, hwarrants.root,
          hwarrants.signed⟩ hgenuine
    rw [hanchor]
    exact ⟨hpinned, hsigned, Or.inl rfl⟩

/-! ## What a resolver holds -/

/-- What holds of a resolver that was made with these anchors. -/
structure Settled (sigs : NameSignatures) (anchors : List JsString) (signedBy : SignedBy)
    (resolver : SignedNameResolver) : Prop where
  pinned : resolver.anchors = anchors
  compared : ∀ name held, resolver.records.get? name = some held →
    authorityOf held = anchorOf sigs anchors held
  rests : ∀ name held, resolver.records.get? name = some held →
    RestsOn sigs anchors signedBy held (anchorOf sigs anchors held)

variable {anchors : List JsString}

theorem settled_new : Settled sigs anchors signedBy (new anchors) where
  pinned := rfl
  compared name held h := by cases h
  rests name held h := by cases h

theorem Settled.step (hideal : Ideal sigs signedBy) {offer : Offer}
    (h : Settled sigs anchors signedBy resolver) (hclean : Clean sigs resolver offer)
    (hstep : step sigs resolver offer = some resolver') :
    Settled sigs anchors signedBy resolver' := by
  obtain ⟨record, now⟩ := offer
  cases hstep
  rcases accept_cases sigs resolver record now with ⟨haccepted, hresult⟩ | ⟨-, hsame⟩
  · have hcompared := authorityOf_of_accepted hclean haccepted
    have hrests := restsOn_of_accepted hideal haccepted
    rw [h.pinned] at hcompared hrests
    rw [hresult]
    refine ⟨h.pinned, ?_, ?_⟩
    · intro name held hheld
      rw [InsertionMap.get?_set] at hheld
      by_cases hname : name = record.name
      · rw [if_pos hname] at hheld
        cases hheld
        exact hcompared
      · rw [if_neg hname] at hheld
        exact h.compared name held hheld
    · intro name held hheld
      rw [InsertionMap.get?_set] at hheld
      by_cases hname : name = record.name
      · rw [if_pos hname] at hheld
        cases hheld
        exact hrests
      · rw [if_neg hname] at hheld
        exact h.rests name held hheld
  · rw [hsame]
    exact h

def HeldUnder (sigs : NameSignatures) (anchors : List JsString) (name anchor : JsString)
    (resolver : SignedNameResolver) : Prop :=
  ∃ held, resolver.records.get? name = some held ∧ anchorOf sigs anchors held = anchor

/-- What is accepted for a held name rests on the anchor it is held under. -/
theorem anchorOf_of_accepted {name anchor : JsString}
    (h : Settled sigs anchors signedBy resolver) (hheld : HeldUnder sigs anchors name anchor resolver)
    (hclean : Clean sigs resolver (record, now)) (hname : record.name = name)
    (haccepted : Accepted sigs resolver record now) : anchorOf sigs anchors record = anchor := by
  obtain ⟨held, hget, hanchor⟩ := hheld
  rw [← hname] at hget
  have hcompared := authorityOf_of_accepted hclean haccepted
  rw [h.pinned] at hcompared
  calc anchorOf sigs anchors record = authorityOf record := hcompared.symm
    _ = authorityOf held := (haccepted.sameAuthority held hget).symm
    _ = anchorOf sigs anchors held := h.compared record.name held hget
    _ = anchor := hanchor

theorem HeldUnder.step {name anchor : JsString} {offer : Offer}
    (h : Settled sigs anchors signedBy resolver)
    (hheld : HeldUnder sigs anchors name anchor resolver) (hclean : Clean sigs resolver offer)
    (hstep : SignedNameResolver.step sigs resolver offer = some resolver') :
    HeldUnder sigs anchors name anchor resolver' := by
  obtain ⟨record, now⟩ := offer
  cases hstep
  rcases accept_cases sigs resolver record now with ⟨haccepted, hresult⟩ | ⟨-, hsame⟩
  · rw [hresult]
    by_cases hname : name = record.name
    · have hanchor := anchorOf_of_accepted h hheld hclean hname.symm haccepted
      refine ⟨record, ?_, hanchor⟩
      rw [hname]
      exact InsertionMap.get?_set_self _ _ _
    · obtain ⟨held, hget, hanchor⟩ := hheld
      refine ⟨held, ?_, hanchor⟩
      show (resolver.records.set record.name record).get? name = some held
      rw [InsertionMap.get?_set, if_neg hname, hget]
  · rw [hsame]
    exact hheld

theorem settled_of_reaches (hideal : Ideal sigs signedBy)
    (hreach : Reaches (step sigs) (Clean sigs) (new anchors) resolver) :
    Settled sigs anchors signedBy resolver :=
  hreach.invariant settled_new fun _ _ _ hclean h hstep => h.step hideal hclean hstep

end

/-! ## A held name stays under its anchor -/

/-- Once a name is held, whatever is accepted for it in any later state rests on the anchor the
    held record rests on; if another key signed it, that anchor signed the delegation. -/
theorem held_under_one_anchor (sigs : NameSignatures) (signedBy : SignedBy)
    (hideal : Ideal sigs signedBy) (anchors : List JsString) (resolver : SignedNameResolver)
    (hreach : Reaches (step sigs) (Clean sigs) (new anchors) resolver) (name : JsString)
    (held : NameRecord) (hheld : resolver.records.get? name = some held)
    (resolver' : SignedNameResolver)
    (hlater : Reaches (step sigs) (Clean sigs) resolver resolver') :
    RestsOn sigs anchors signedBy held (anchorOf sigs anchors held) ∧
    HeldUnder sigs anchors name (anchorOf sigs anchors held) resolver' ∧
    ∀ record now cid, record.name = name → Clean sigs resolver' (record, now) →
      (resolver'.accept sigs record now).1 = some (.ok cid) →
      anchorOf sigs anchors record = anchorOf sigs anchors held ∧
      RestsOn sigs anchors signedBy record (anchorOf sigs anchors held) := by
  have hsettled := settled_of_reaches hideal hreach
  have hboth : Settled sigs anchors signedBy resolver' ∧
      HeldUnder sigs anchors name (anchorOf sigs anchors held) resolver' := by
    refine hlater.invariant
      (I := fun r => Settled sigs anchors signedBy r ∧
        HeldUnder sigs anchors name (anchorOf sigs anchors held) r)
      ⟨hsettled, held, hheld, rfl⟩ ?_
    intro r offer r' hclean h hstep
    exact ⟨h.1.step hideal hclean hstep, h.2.step h.1 hclean hstep⟩
  refine ⟨hsettled.rests name held hheld, hboth.2, ?_⟩
  intro record now cid hname hclean hok
  rcases accept_cases sigs resolver' record now with ⟨haccepted, -⟩ | ⟨hrefused, -⟩
  · have hanchor := anchorOf_of_accepted hboth.1 hboth.2 hclean hname haccepted
    have hrests := restsOn_of_accepted hideal haccepted
    rw [hboth.1.pinned, hanchor] at hrests
    exact ⟨hanchor, hrests⟩
  · exact absurd hok (hrefused cid)

/-! ## One anchor over another's name -/

/-- What anchor `a` signs. -/
def firstRecord : NameRecord :=
  ⟨js "n", plainCid, 1, 9, js "a", js "a", none, none, false⟩

/-- What anchor `b` signs over it, with a delegation that nobody signed. -/
def takingRecord : NameRecord :=
  ⟨js "n", plainCid, 2, 9, js "b", js "b", none, some ⟨js "a", js "b", 9, js "none"⟩, false⟩

/-- What two anchors have signed: one record each, and no delegation. -/
def twoRecords : SignedBy := fun key payload =>
  key = js "a" ∧ payloadOf ⟨plainDagCbor, fun _ _ _ => false, fun _ => []⟩ firstRecord = some payload ∨
  key = js "b" ∧ payloadOf ⟨plainDagCbor, fun _ _ _ => false, fun _ => []⟩ takingRecord = some payload

instance : DecidableRel twoRecords := fun _ _ => inferInstanceAs (Decidable (_ ∨ _))

/-- A key is its own signature, on what its holder has signed. -/
def twoAnchors : NameSignatures :=
  ⟨plainDagCbor, fun signature payload key => decide (signature = key ∧ twoRecords key payload),
    fun _ => []⟩

theorem twoAnchors_ideal : Ideal twoAnchors twoRecords := fun _ _ _ h =>
  (decide_eq_true_eq.mp h).2

/-- The resolver once it holds the first record. -/
def holdingFirst : SignedNameResolver :=
  ((new [js "a", js "b"]).accept twoAnchors firstRecord 0).2

theorem holdingFirst_holds : holdingFirst.records.get? (js "n") = some firstRecord := by
  decide +kernel

theorem firstRecord_clean (resolver : SignedNameResolver) (now : ℚ) :
    Clean twoAnchors resolver (firstRecord, now) := fun h => absurd rfl h.2

/-- The holder offers its record again. -/
theorem held_under_one_anchor_again :
    RestsOn twoAnchors [js "a", js "b"] twoRecords firstRecord (js "a") ∧
    HeldUnder twoAnchors [js "a", js "b"] (js "n") (js "a")
      (holdingFirst.accept twoAnchors firstRecord 1).2 := by
  have hreach : Reaches (step twoAnchors) (Clean twoAnchors) (new [js "a", js "b"]) holdingFirst :=
    Reaches.refl.tail (firstRecord_clean _ 0) rfl
  have hlater : Reaches (step twoAnchors) (Clean twoAnchors) holdingFirst
      (holdingFirst.accept twoAnchors firstRecord 1).2 :=
    Reaches.refl.tail (firstRecord_clean _ 1) rfl
  have h := held_under_one_anchor twoAnchors twoRecords twoAnchors_ideal [js "a", js "b"]
    holdingFirst hreach (js "n") firstRecord holdingFirst_holds _ hlater
  exact ⟨h.1, h.2.1⟩

/-- A name that one anchor holds is accepted from another, which it delegated nothing to. -/
theorem taken_over : ¬ ∀ (sigs : NameSignatures) (signedBy : SignedBy), Ideal sigs signedBy →
    ∀ (anchors : List JsString) (resolver : SignedNameResolver),
    Reaches (step sigs) anything (new anchors) resolver →
    ∀ (name : JsString) (held : NameRecord), resolver.records.get? name = some held →
    ∀ (record : NameRecord) (now : ℚ) (cid : Cid), record.name = name →
      (resolver.accept sigs record now).1 = some (.ok cid) →
      RestsOn sigs anchors signedBy record (anchorOf sigs anchors held) := by
  intro hclaim
  have hreach : Reaches (step twoAnchors) anything (new [js "a", js "b"]) holdingFirst :=
    Reaches.refl.tail (e := (firstRecord, 0)) trivial rfl
  have haccepted : (holdingFirst.accept twoAnchors takingRecord 0).1 = some (.ok plainCid) := by
    decide +kernel
  have hrests := hclaim twoAnchors twoRecords twoAnchors_ideal [js "a", js "b"] holdingFirst hreach
    (js "n") firstRecord holdingFirst_holds takingRecord 0 plainCid rfl haccepted
  rcases hrests.vouched with hsigner | ⟨delegation, payload, hdelegation, -, -, hpayload, hsigned⟩
  · exact absurd hsigner (by decide)
  · -- the payload of the delegation is none of the two that were signed
    cases hdelegation
    have hneither : (delegationPayloadOf twoAnchors ⟨js "a", js "b", 9, js "none"⟩).any
        (fun payload => decide (twoRecords (js "a") payload)) = false := by decide +kernel
    rw [hpayload] at hneither
    exact absurd hsigned (of_decide_eq_false hneither)

end O2Fabric.SignedNameResolver

/-! # Versions

Whether a name can be rolled back.

A record of the version that is held replaces the held one, whatever it names.
`Reissues` is an offer that does not use this to change the CID.  Versions only
ever grow, whether or not offers are of that kind.
-/

namespace O2Fabric.SignedNameResolver

open Steps

inductive Call
  | accept (record : NameRecord) (now : ℚ)
  | resolve (name : JsString) (now : ℚ)
  deriving DecidableEq

/-- A resolver, and every record it has accepted, the last first. -/
structure Observed where
  resolver : SignedNameResolver
  accepted : List NameRecord

namespace Observed

def new (trustAnchors : List JsString) : Observed := ⟨SignedNameResolver.new trustAnchors, []⟩

variable (sigs : NameSignatures)

def isOk : Option ResolveResult → Bool
  | some (.ok _) => true
  | _ => false

/-- What a call leaves.  No record is kept of what `resolve` answered: it changes nothing. -/
def step (s : Observed) : Call → Option Observed
  | .accept record now =>
    some ⟨(s.resolver.accept sigs record now).2,
      if isOk (s.resolver.accept sigs record now).1 then record :: s.accepted else s.accepted⟩
  | .resolve _ _ => some s

/-- An offer at the held version has the held CID, unless it is refused all the same: its signer
    is not entitled, it is not signed, it has expired, or the name is held under another
    authority. -/
def Reissues (s : Observed) : Call → Prop
  | .accept record now =>
    ∀ held, s.resolver.records.get? record.name = some held → held.version = record.version →
      held.cid = record.cid ∨
      s.resolver.authorise sigs record now ≠ none ∨
      (∀ payload, payloadOf sigs record = some payload →
        sigs.verify record.signature payload record.signer = false) ∨
      record.expiresAt ≤ now ∨
      authorityOf held ≠ authorityOf record
  | .resolve _ _ => True

def OneCidAVersion (accepted : List NameRecord) : Prop :=
  ∀ a ∈ accepted, ∀ b ∈ accepted, a.name = b.name → a.version = b.version → a.cid = b.cid

/-! ## What one call does -/

variable {sigs} {s s' : Observed}

variable {call : Call}

/-- A call accepts a record, or leaves everything as it was. -/
theorem step_cases (h : s.step sigs call = some s') :
    s' = s ∨ ∃ record now, call = .accept record now ∧ Accepted sigs s.resolver record now ∧
      s' = ⟨{ s.resolver with records := s.resolver.records.set record.name record },
        record :: s.accepted⟩ := by
  cases call with
  | resolve name now =>
    cases h
    exact Or.inl rfl
  | accept record now =>
    cases h
    rcases accept_cases sigs s.resolver record now with ⟨haccepted, hresult⟩ | ⟨hrefused, hsame⟩
    · right
      refine ⟨record, now, rfl, haccepted, ?_⟩
      rw [hresult]
      rfl
    · left
      have hnot : isOk (s.resolver.accept sigs record now).1 = false := by
        cases hanswer : (s.resolver.accept sigs record now).1 with
        | none => rfl
        | some answer =>
          cases answer with
          | ok cid => exact absurd hanswer (hrefused cid)
          | refused failure reason => rfl
      rw [hsame, hnot]
      rfl

/-- An accepted offer that changes no CID at a version. -/
theorem cid_of_reissues {record : NameRecord} {now : ℚ}
    (hclean : s.Reissues sigs (.accept record now)) (h : Accepted sigs s.resolver record now)
    {held : NameRecord} (hheld : s.resolver.records.get? record.name = some held)
    (hversion : held.version = record.version) : held.cid = record.cid := by
  rcases hclean held hheld hversion with hcid | hentitled | hunsigned | hexpired | hauthority
  · exact hcid
  · exact absurd h.entitled hentitled
  · obtain ⟨payload, hpayload, hsigned⟩ := h.signed
    have hfails := hunsigned payload hpayload
    rw [hsigned] at hfails
    cases hfails
  · exact absurd h.alive (not_lt.mpr hexpired)
  · exact absurd (h.sameAuthority held hheld) hauthority

/-- An offer that changes the CID at a version is accepted. -/
theorem accepted_of_not_reissues (h : ¬ s.Reissues sigs call) :
    ∃ record now held, call = .accept record now ∧
      s.resolver.records.get? record.name = some held ∧ held.version = record.version ∧
      held.cid ≠ record.cid ∧
      s.step sigs call = some
        ⟨{ s.resolver with records := s.resolver.records.set record.name record },
          record :: s.accepted⟩ := by
  cases call with
  | resolve name now => exact absurd trivial h
  | accept record now =>
    simp only [Reissues, not_forall, not_or, not_not] at h
    obtain ⟨held, hheld, hversion, hcid, hentitled, ⟨payload, hpayload, hsigned⟩, halive,
      hauthority⟩ := h
    refine ⟨record, now, held, rfl, hheld, hversion, hcid, ?_⟩
    rw [Bool.not_eq_false] at hsigned
    have hagainst : againstHeld held record = none :=
      againstHeld_eq_none.mpr ⟨hauthority, le_of_eq hversion⟩
    have haccept : s.resolver.accept sigs record now
        = (some (.ok record.cid),
            { s.resolver with records := s.resolver.records.set record.name record }) := by
      simp [SignedNameResolver.accept, hentitled, hpayload, hsigned, halive, hheld, hagainst]
    show some _ = some _
    rw [haccept]
    rfl

/-! ## What is held, against what was accepted -/

/-- What holds of a resolver and the records it has accepted. -/
structure Sound (sigs : NameSignatures) (anchors : List JsString) (s : Observed) : Prop where
  pinned : s.resolver.anchors = anchors
  /-- What is held was accepted, from an anchor or under a delegation that does not end first. -/
  held : ∀ name held, s.resolver.records.get? name = some held →
    held.name = name ∧ held ∈ s.accepted ∧
      ∃ now, s.resolver.authorise sigs held now = none
  /-- Nothing of a higher version was ever accepted. -/
  highest : ∀ record ∈ s.accepted, ∃ held, s.resolver.records.get? record.name = some held ∧
    record.version ≤ held.version

variable {anchors : List JsString}

theorem sound_new : Sound sigs anchors (new anchors) where
  pinned := rfl
  held name held h := by cases h
  highest record h := by cases h

theorem Sound.step (h : Sound sigs anchors s) (hstep : s.step sigs call = some s') :
    Sound sigs anchors s' := by
  rcases step_cases hstep with rfl | ⟨record, now, rfl, haccepted, rfl⟩
  · exact h
  · refine ⟨h.pinned, ?_, ?_⟩
    · intro name held hheld
      rw [InsertionMap.get?_set] at hheld
      by_cases hname : name = record.name
      · rw [if_pos hname] at hheld
        cases hheld
        exact ⟨hname.symm, List.mem_cons_self, now, haccepted.entitled⟩
      · rw [if_neg hname] at hheld
        obtain ⟨hsame, hmem, hentitled⟩ := h.held name held hheld
        exact ⟨hsame, List.mem_cons_of_mem _ hmem, hentitled⟩
    · intro earlier hmem
      show ∃ held, (s.resolver.records.set record.name record).get? earlier.name = some held ∧ _
      rw [InsertionMap.get?_set]
      rcases List.mem_cons.mp hmem with rfl | hmem
      · rw [if_pos rfl]
        exact ⟨earlier, rfl, Nat.le_refl _⟩
      · obtain ⟨held, hheld, hle⟩ := h.highest earlier hmem
        by_cases hname : earlier.name = record.name
        · rw [if_pos hname]
          rw [hname] at hheld
          exact ⟨record, rfl, hle.trans (haccepted.noRollback held hheld)⟩
        · rw [if_neg hname]
          exact ⟨held, hheld, hle⟩

theorem sound_of_reaches (h : Reaches (step sigs) anything (new anchors) s) :
    Sound sigs anchors s :=
  h.invariant sound_new fun _ _ _ _ h hstep => h.step hstep

/-- A held version grows or stays. -/
theorem version_le_of_reaches (h : Reaches (step sigs) anything s s') {name : JsString}
    {held : NameRecord} (hheld : s.resolver.records.get? name = some held) :
    ∃ held', s'.resolver.records.get? name = some held' ∧ held.version ≤ held'.version := by
  refine h.invariant (I := fun t => ∃ held', t.resolver.records.get? name = some held' ∧
    held.version ≤ held'.version) ⟨held, hheld, Nat.le_refl _⟩ ?_
  rintro t call t' - ⟨held', hheld', hle⟩ hstep
  rcases step_cases hstep with rfl | ⟨record, now, rfl, haccepted, rfl⟩
  · exact ⟨held', hheld', hle⟩
  · show ∃ held', (t.resolver.records.set record.name record).get? name = some held' ∧ _
    rw [InsertionMap.get?_set]
    by_cases hname : name = record.name
    · rw [if_pos hname]
      rw [hname] at hheld'
      exact ⟨record, rfl, hle.trans (haccepted.noRollback held' hheld')⟩
    · rw [if_neg hname]
      exact ⟨held', hheld', hle⟩

/-- What a name resolves to was accepted, and neither it nor what it was signed under has
    expired. -/
theorem Sound.resolves (h : Sound sigs anchors s) {name : JsString} {now : ℚ} {cid : Cid}
    (hok : s.resolver.resolve sigs name now = .ok cid) :
    ∃ record ∈ s.accepted, record.name = name ∧ record.cid = cid ∧ now < record.expiresAt ∧
      (record.signer ∉ anchors → ∃ delegation, record.delegation = some delegation ∧
        Genuine sigs anchors delegation record.signer ∧ now < delegation.expiresAt) := by
  obtain ⟨record, hheld, hcid, halive⟩ := resolve_ok hok
  obtain ⟨hname, hmem, accepted, hentitled⟩ := h.held name record hheld
  refine ⟨record, hmem, hname, hcid, halive, fun hsigner => ?_⟩
  rw [← h.pinned] at hsigner ⊢
  rcases authorise_eq_none.mp hentitled with hanchor | ⟨delegation, hdelegation, hwarrants⟩
  · exact absurd hanchor hsigner
  · -- the record was not let outlive its delegation
    exact ⟨delegation, hdelegation, ⟨hwarrants.delegate, hwarrants.root, hwarrants.signed⟩,
      halive.trans_le hwarrants.outlives⟩

/-! ## One CID a version -/

theorem oneCid_of_reissues (h : Reaches (step sigs) (Reissues sigs) (new anchors) s) :
    Sound sigs anchors s ∧ OneCidAVersion s.accepted := by
  refine h.invariant (I := fun t => Sound sigs anchors t ∧ OneCidAVersion t.accepted)
    ⟨sound_new, fun a ha => by cases ha⟩ ?_
  rintro t call t' hclean ⟨hsound, hone⟩ hstep
  refine ⟨hsound.step hstep, ?_⟩
  rcases step_cases hstep with rfl | ⟨record, now, rfl, haccepted, rfl⟩
  · exact hone
  · -- an earlier record of the new one's version is of the held one's version too
    have hnew : ∀ b ∈ t.accepted, record.name = b.name → record.version = b.version →
        record.cid = b.cid := by
      intro b hb hname hversion
      obtain ⟨held, hheld, hle⟩ := hsound.highest b hb
      rw [← hname] at hheld
      obtain ⟨hheldName, hheldMem, -⟩ := hsound.held record.name held hheld
      have hback := haccepted.noRollback held hheld
      have hheldVersion : held.version = record.version := by omega
      have hcid := cid_of_reissues hclean haccepted hheld hheldVersion
      rw [← hcid]
      exact hone held hheldMem b hb (hheldName.trans hname) (hheldVersion.trans hversion)
    intro a ha b hb hname hversion
    rcases List.mem_cons.mp ha with rfl | ha
    · rcases List.mem_cons.mp hb with rfl | hb
      · rfl
      · exact hnew b hb hname hversion
    · rcases List.mem_cons.mp hb with hnewest | hb
      · rw [hnewest] at hname hversion ⊢
        exact (hnew a ha hname.symm hversion.symm).symm
      · exact hone a ha b hb hname hversion

/-- Where accepted records of one version have one CID, every offer on the way kept to it. -/
theorem reissues_of_oneCid (h : Reaches (step sigs) anything (new anchors) s)
    (hone : OneCidAVersion s.accepted) : Reaches (step sigs) (Reissues sigs) (new anchors) s := by
  induction h with
  | refl => exact Reaches.refl
  | tail hreach hlast ih =>
    rename_i t t'
    obtain ⟨call, -, hstep⟩ := hlast
    have hsound := sound_of_reaches hreach
    have hearlier : OneCidAVersion t.accepted := by
      rcases step_cases hstep with rfl | ⟨record, now, rfl, haccepted, rfl⟩
      · exact hone
      · exact fun a ha b hb =>
          hone a (List.mem_cons_of_mem _ ha) b (List.mem_cons_of_mem _ hb)
    refine (ih hearlier).tail ?_ hstep
    by_contra hnot
    obtain ⟨record, now, held, rfl, hheld, hversion, hcid, hresult⟩ :=
      accepted_of_not_reissues hnot
    rw [hresult] at hstep
    cases hstep
    obtain ⟨hname, hmem, -⟩ := hsound.held record.name held hheld
    exact hcid (hone held (List.mem_cons_of_mem _ hmem) record List.mem_cons_self hname hversion)

/-- Over every run of calls: a held version never decreases, a refused offer leaves what is held,
    and what resolves was accepted and is alive with what it was signed under.  Accepted records
    of one name and version have one CID exactly in the states that offers keeping to it lead
    to. -/
theorem versions_kept (sigs : NameSignatures) (anchors : List JsString) (s : Observed)
    (h : Reaches (step sigs) anything (new anchors) s) :
    (∀ s', Reaches (step sigs) anything s s' → ∀ name held,
      s.resolver.records.get? name = some held →
      ∃ held', s'.resolver.records.get? name = some held' ∧ held.version ≤ held'.version) ∧
    (∀ record now, (∀ cid, (s.resolver.accept sigs record now).1 ≠ some (.ok cid)) →
      (s.resolver.accept sigs record now).2 = s.resolver) ∧
    (∀ name now cid, s.resolver.resolve sigs name now = .ok cid →
      ∃ record ∈ s.accepted, record.name = name ∧ record.cid = cid ∧ now < record.expiresAt ∧
        (record.signer ∉ anchors → ∃ delegation, record.delegation = some delegation ∧
          Genuine sigs anchors delegation record.signer ∧ now < delegation.expiresAt)) ∧
    (OneCidAVersion s.accepted ↔ Reaches (step sigs) (Reissues sigs) (new anchors) s) := by
  refine ⟨?_, ?_, ?_, ?_⟩
  · intro s' hlater name held hheld
    exact version_le_of_reaches hlater hheld
  · intro record now hrefused
    rcases accept_cases sigs s.resolver record now with ⟨-, hresult⟩ | ⟨-, hsame⟩
    · exact absurd (congrArg Prod.fst hresult) (hrefused record.cid)
    · exact hsame
  · intro name now cid hok
    exact (sound_of_reaches h).resolves hok
  · constructor
    · exact reissues_of_oneCid h
    · exact fun hclean => (oneCid_of_reissues hclean).2

/-! ## A version, issued twice -/

def plainSignatures : NameSignatures :=
  ⟨plainDagCbor, fun signature _ key => decide (signature = key), fun _ => []⟩

/-- The first artifact under a version. -/
def olderRecord : NameRecord :=
  ⟨js "app", plainCid, 1, 9, js "a", js "a", none, none, false⟩

/-- Another artifact under the same version. -/
def newerRecord : NameRecord :=
  ⟨js "app", ⟨js "newer", by decide, by decide⟩, 1, 9, js "a", js "a", none, none, false⟩

/-- A renewal: the same artifact for longer. -/
def renewedRecord : NameRecord := { olderRecord with expiresAt := 12 }

theorem versions_kept_renewed :
    ∃ s, Reaches (step plainSignatures) (Reissues plainSignatures) (new [js "a"]) s ∧
      s.accepted = [renewedRecord, olderRecord] := by
  have hreach : ∃ s, run (step plainSignatures) (new [js "a"])
      [.accept olderRecord 0, .accept renewedRecord 1] = some s ∧
      s.accepted = [renewedRecord, olderRecord] := ⟨_, rfl, by decide +kernel⟩
  obtain ⟨s, hrun, haccepted⟩ := hreach
  have hany : Reaches (step plainSignatures) anything (new [js "a"]) s :=
    Reaches.of_run (fun _ _ _ => trivial) hrun
  refine ⟨s, (versions_kept plainSignatures [js "a"] s hany).2.2.2.mp ?_, haccepted⟩
  rw [haccepted]
  unfold OneCidAVersion
  decide

/-- The older artifact's record is offered again, and the name resolves to it again. -/
theorem rolled_back : ¬ ∀ (sigs : NameSignatures) (anchors : List JsString) (s : Observed),
    Reaches (step sigs) anything (new anchors) s → OneCidAVersion s.accepted := by
  intro hclaim
  have hreach : ∃ s, run (step plainSignatures) (new [js "a"])
      [.accept olderRecord 0, .accept newerRecord 1, .accept olderRecord 2] = some s ∧
      s.accepted = [olderRecord, newerRecord, olderRecord] ∧
      s.resolver.resolve plainSignatures (js "app") 2 = .ok plainCid := ⟨_, rfl, by decide +kernel⟩
  obtain ⟨s, hrun, haccepted, -⟩ := hreach
  have hone := hclaim plainSignatures [js "a"] s (Reaches.of_run (fun _ _ _ => trivial) hrun)
  rw [haccepted] at hone
  have hsame := hone olderRecord (by simp) newerRecord (by simp) rfl rfl
  exact absurd hsame (by decide)

end Observed

end O2Fabric.SignedNameResolver
