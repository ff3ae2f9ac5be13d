/-
  O2Fabric.Core.Quorum.Composed

  What a composed quorum is worth.  Its members are so many of the one candidate
  kept for each operator, drawn in a round robin over the issuers, so they are
  candidates of distinct operators whatever the groups look like; the checks
  after it only refuse.
-/

import O2Fabric.Core.Quorum
import O2Fabric.Lib.RoundRobin

namespace O2Fabric

open Grouping RoundRobin

variable {p : Platform}

/-! ## One candidate of each operator -/

theorem onePerOperator_spec (p : Platform) (candidates : List NodeCertificate) :
    (∀ c ∈ onePerOperator p candidates, c ∈ candidates) ∧
      ((onePerOperator p candidates).map NodeCertificate.operatorId).Nodup := by
  let keep := fun (perOperator : InsertionMap JsString NodeCertificate)
      (candidate : NodeCertificate) =>
    if perOperator.has candidate.operatorId then perOperator
    else perOperator.set candidate.operatorId candidate
  have hkeep : ∀ (rest : List NodeCertificate) (m : InsertionMap JsString NodeCertificate),
      (∀ c ∈ rest, c ∈ candidates) →
      (∀ e ∈ m.entries, e.1 = e.2.operatorId ∧ e.2 ∈ candidates) →
      ∀ e ∈ (rest.foldl keep m).entries, e.1 = e.2.operatorId ∧ e.2 ∈ candidates := by
    intro rest
    induction rest with
    | nil => exact fun m _ hm => hm
    | cons c rest ih =>
      intro m hrest hm
      apply ih _ fun c' hc' => hrest c' (List.mem_cons_of_mem _ hc')
      show ∀ e ∈ (if m.has c.operatorId then m else m.set c.operatorId c).entries, _
      split
      · exact hm
      · intro e he
        rcases InsertionMap.mem_of_mem_write he with rfl | he
        · exact ⟨rfl, hrest c List.mem_cons_self⟩
        · exact hm e he
  have hentries := hkeep
    (candidates.insertionSort fun a b => p.localeCompare a.nodeKey b.nodeKey ≤ 0) .empty
    (fun c hc => (List.mem_insertionSort _).mp hc) (List.forall_mem_nil _)
  constructor
  · intro c hc
    obtain ⟨e, he, rfl⟩ := List.mem_map.mp hc
    exact (hentries e he).2
  · -- the operators of the values are the keys of the map
    have hkeys : (onePerOperator p candidates).map NodeCertificate.operatorId
        = ((candidates.insertionSort fun a b =>
            p.localeCompare a.nodeKey b.nodeKey ≤ 0).foldl keep .empty).keys := by
      unfold onePerOperator InsertionMap.values InsertionMap.keys
      rw [List.map_map]
      exact List.map_congr_left fun e he => (hentries e he).1.symm
    rw [hkeys]
    exact InsertionMap.keys_nodup _

/-! ## The round robin -/

theorem takeByDepth_eq (groups : List (List NodeCertificate)) (size fuel depth : Nat)
    {picked : List NodeCertificate} (hpicked : picked.length ≤ size) :
    takeByDepth groups size fuel depth picked
      = picked ++ (rowsFrom groups depth fuel).take (size - picked.length) := by
  induction fuel generalizing depth picked with
  | zero =>
    rw [takeByDepth, rowsFrom, List.take_nil, List.append_nil]
  | succ fuel ih =>
    rw [takeByDepth]
    by_cases hmore : picked.length < size
    · rw [if_pos hmore]
      show (if row groups depth = [] then picked else _) = _
      by_cases hrow : row groups depth = []
      · rw [if_pos hrow, rowsFrom_eq_nil (row_eq_nil.mp hrow), List.take_nil, List.append_nil]
      · rw [if_neg hrow, ih]
        · rw [rowsFrom, List.take_append, List.append_assoc]
          congr 2
          rw [List.length_append, List.length_take]
          congr 1
          show size - (picked.length + min (size - picked.length) (row groups depth).length)
            = size - picked.length - (row groups depth).length
          omega
        · rw [List.length_append, List.length_take]
          omega
    · rw [if_neg hmore, show size - picked.length = 0 by omega, List.take_zero,
        List.append_nil]

/-- The members are the first so many of some ordering of the candidates. -/
theorem spreadAcrossIssuers_spec (p : Platform) (distinct : List NodeCertificate) (size : Nat) :
    ∃ ordering : List NodeCertificate, ordering.Perm distinct ∧
      spreadAcrossIssuers p distinct size = ordering.take size := by
  unfold spreadAcrossIssuers
  dsimp only
  rw [takeByDepth_eq _ _ _ _ (Nat.zero_le _)]
  refine ⟨_, ?_, rfl⟩
  generalize hordered : distinct.insertionSort
    (p.OrderedBy (fun c => (c.relayIds.length : ℚ)) NodeCertificate.nodeKey) = ordered
  have hperm : ordered.Perm distinct := hordered ▸ List.perm_insertionSort _ _
  generalize hgrouped : groupInto InsertionMap.empty (ordered.map fun c => (c.issuer, [c]))
    = byIssuer
  generalize hgroups : (byIssuer.entries.insertionSort fun a b =>
    p.localeCompare a.1 b.1 ≤ 0).map Prod.snd = groups
  have hflatten : groups.flatten.Perm ordered := by
    have hsorted : groups.flatten.Perm (byIssuer.entries.flatMap Prod.snd) := by
      rw [← hgroups, ← List.flatMap_def]
      exact (List.perm_insertionSort _ _).flatMap_right _
    have hgathered := flatMap_groupInto_perm InsertionMap.empty
      (ordered.map fun c => (c.issuer, [c]))
    rw [hgrouped, List.flatMap_map] at hgathered
    refine hsorted.trans (hgathered.trans ?_)
    show List.Perm (ordered.flatMap fun c => [c]) ordered
    rw [List.flatMap_singleton']
  have hlengths : ∀ group ∈ groups, group.length ≤ 0 + (ordered.length + 1) := by
    intro group hgroup
    have hle := (List.sublist_flatten_of_mem hgroup).length_le
    have heq := hflatten.length_eq
    omega
  refine List.Perm.trans ?_ hperm
  refine (rowsFrom_perm hlengths).trans ?_
  rw [show groups.map (List.drop 0) = groups from List.map_id groups]
  exact hflatten

/-! ## The relay check -/

/-- Only a node that is no seed depends on the relays it lists. -/
def DependsOn (member : NodeCertificate) (relayId : JsString) : Prop :=
  member.discoverability ≠ .seed ∧ relayId ∈ member.relayIds

variable {members : List NodeCertificate}

theorem sharedRelay_eq_none {peerIdOf : NodeCertificate → Option JsString}
    (h : sharedRelay members peerIdOf = none) (relayId : JsString)
    (hsome : ∃ member ∈ members, DependsOn member relayId) :
    ¬ ∀ member ∈ members, DependsOn member relayId ∨ peerIdOf member = some relayId := by
  intro hall
  unfold sharedRelay at h
  dsimp only at h
  rw [List.head?_eq_none_iff] at h
  generalize hnamed : distinct ((members.filter fun member =>
    decide (member.discoverability ≠ .seed)).flatMap NodeCertificate.relayIds) = named at h
  have hin : relayId ∈ named := by
    obtain ⟨member, hmember, hnot, hrelay⟩ := hsome
    rw [← hnamed, mem_distinct, List.mem_flatMap]
    exact ⟨member, List.mem_filter.mpr ⟨hmember, decide_eq_true hnot⟩, hrelay⟩
  have hfatal := (List.perm_insertionSort (· ≤ ·) (named.filter fun relayId =>
    members.all fun member =>
      decide (member.discoverability ≠ .seed ∧ relayId ∈ member.relayIds)
        || decide (peerIdOf member = some relayId))).mem_iff (a := relayId)
  rw [h, List.mem_filter, List.all_eq_true] at hfatal
  apply List.not_mem_nil (hfatal.mpr ⟨hin, ?_⟩)
  intro member hmember
  rw [Bool.or_eq_true, decide_eq_true_eq, decide_eq_true_eq]
  exact hall member hmember

/-! ## Two of a kind -/

theorem two_le_length_distinct {α β : Type} [DecidableEq β] {f : α → β} {l : List α} :
    2 ≤ (distinct (l.map f)).length ↔ ∃ a ∈ l, ∃ b ∈ l, f a ≠ f b := by
  constructor
  · intro h
    by_contra hnone
    push Not at hnone
    have hone : (distinct (l.map f)).length ≤ 1 := by
      apply length_distinct_le_one
      intro x hx y hy
      obtain ⟨a, ha, rfl⟩ := List.mem_map.mp hx
      obtain ⟨b, hb, rfl⟩ := List.mem_map.mp hy
      exact hnone a ha b hb
    omega
  · rintro ⟨a, ha, b, hb, hne⟩
    by_contra hlt
    have hone : (distinct (l.map f)).length ≤ 1 := by omega
    apply hne
    exact eq_of_mem_of_length_le_one hone (mem_distinct.mpr (List.mem_map_of_mem ha))
      (mem_distinct.mpr (List.mem_map_of_mem hb))

theorem classifyAttestation_independent :
    classifyAttestation members = .independent ↔
      (∃ a ∈ members, ∃ b ∈ members, a.operatorId ≠ b.operatorId) ∧
      ∃ a ∈ members, ∃ b ∈ members, a.issuer ≠ b.issuer := by
  rw [← two_le_length_distinct, ← two_le_length_distinct]
  unfold classifyAttestation
  dsimp only
  split
  · next hone =>
    -- one member is of one operator
    have hle : (distinct (members.map NodeCertificate.operatorId)).length ≤ 1 := by
      apply length_distinct_le_one
      intro x hx y hy
      apply eq_of_mem_of_length_le_one _ hx hy
      rw [List.length_map]
      exact hone
    constructor
    · rintro ⟨⟩
    · rintro ⟨htwo, -⟩
      omega
  · split
    · next hboth => exact ⟨fun _ => hboth, fun _ => rfl⟩
    · next hnot =>
      constructor
      · intro heq
        split at heq <;> cases heq
      · exact fun hboth => absurd hboth hnot

/-! ## The quorum -/

theorem composeQuorum_composed {candidates : List NodeCertificate} {rules : QuorumRules}
    {operators : List JsString} {strength : AttestationStrength}
    (h : composeQuorum p candidates rules = .composed members operators strength) :
    rules.size ≤ (onePerOperator p candidates).length ∧
    members = spreadAcrossIssuers p (onePerOperator p candidates) rules.size ∧
    strength = classifyAttestation members ∧
    (rules.requireIndependentPaths ≠ some false →
      sharedRelay members (rules.peerIdOf.getD fun _ => none) = none) ∧
    (rules.requireDistinctIssuers ≠ some false → 2 ≤ members.length →
      ∃ a ∈ members, ∃ b ∈ members, a.issuer ≠ b.issuer) := by
  have hrequired : ∀ flag : Option Bool, flag ≠ some false → flag.getD true = true := by
    rintro (_ | _ | _) hflag
    · rfl
    · exact absurd rfl hflag
    · rfl
  unfold composeQuorum at h
  dsimp only at h
  split at h
  · cases h
  · split at h
    · cases h
    · next hfew =>
      split at h
      · cases h
      · next hshared =>
        have hpaths : rules.requireIndependentPaths ≠ some false →
            sharedRelay (spreadAcrossIssuers p (onePerOperator p candidates) rules.size)
              (rules.peerIdOf.getD fun _ => none) = none := by
          intro hflag
          rwa [if_pos (hrequired _ hflag)] at hshared
        split at h
        · next issuer hissuers =>
          -- one issuer passes only where the check is waived or nothing is claimed
          split at h
          · cases h
          · next hwaived =>
            cases h
            refine ⟨Nat.le_of_not_lt hfew, rfl, rfl, hpaths, fun hflag htwo => ?_⟩
            exact absurd ⟨hrequired _ hflag, htwo⟩ hwaived
        · next hissuers =>
          cases h
          refine ⟨Nat.le_of_not_lt hfew, rfl, rfl, hpaths, fun _ htwo => ?_⟩
          rw [← two_le_length_distinct]
          by_contra hlt
          generalize hlist : distinct ((spreadAcrossIssuers p (onePerOperator p candidates)
            rules.size).map NodeCertificate.issuer) = issuers at hissuers hlt
          match issuers, hlt with
          | [], _ =>
            obtain ⟨member, hmember⟩ :=
              List.exists_mem_of_length_pos (Nat.lt_of_lt_of_le Nat.two_pos htwo)
            have hin := mem_distinct.mpr
              (List.mem_map_of_mem (f := NodeCertificate.issuer) hmember)
            rw [hlist] at hin
            cases hin
          | [issuer], _ => exact hissuers issuer rfl
          | _ :: _ :: _, hlt => simp at hlt

/-- `localeCompare` orders all texts, and tells any two of these keys apart. -/
structure Collates (p : Platform) (keys : JsString → Prop) : Prop where
  total : ∀ a b, p.localeCompare a b ≤ 0 ∨ p.localeCompare b a ≤ 0
  trans : ∀ a b c, p.localeCompare a b ≤ 0 → p.localeCompare b c ≤ 0 → p.localeCompare a c ≤ 0
  separates : ∀ a b, keys a → keys b → p.localeCompare a b ≤ 0 → p.localeCompare b a ≤ 0 → a = b

theorem onePerOperator_congr {keys : JsString → Prop} (hcollates : Collates p keys)
    {candidates candidates' : List NodeCertificate} (hperm : candidates'.Perm candidates)
    (hkeys : ∀ c ∈ candidates, keys c.nodeKey)
    (hnodup : (candidates.map NodeCertificate.nodeKey).Nodup) :
    onePerOperator p candidates' = onePerOperator p candidates := by
  let le := fun a b : NodeCertificate => p.localeCompare a.nodeKey b.nodeKey ≤ 0
  have htotal : Std.Total le := ⟨fun a b => hcollates.total a.nodeKey b.nodeKey⟩
  have htrans : IsTrans NodeCertificate le :=
    ⟨fun a b c => hcollates.trans a.nodeKey b.nodeKey c.nodeKey⟩
  have hsorted : candidates'.insertionSort le = candidates.insertionSort le := by
    have hanti : ∀ a b, a ∈ candidates'.insertionSort le → b ∈ candidates.insertionSort le →
        le a b → le b a → a = b := by
      intro a b ha hb hab hba
      have ha := hperm.mem_iff.mp ((List.mem_insertionSort le).mp ha)
      have hb := (List.mem_insertionSort le).mp hb
      have hkey := hcollates.separates _ _ (hkeys a ha) (hkeys b hb) hab hba
      exact List.inj_on_of_nodup_map hnodup ha hb hkey
    apply List.Perm.eq_of_pairwise hanti
    · exact List.pairwise_insertionSort le candidates'
    · exact List.pairwise_insertionSort le candidates
    · exact (List.perm_insertionSort le candidates').trans
        (hperm.trans (List.perm_insertionSort le candidates).symm)
  unfold onePerOperator
  rw [show candidates'.insertionSort (fun a b => p.localeCompare a.nodeKey b.nodeKey ≤ 0)
    = candidates.insertionSort fun a b => p.localeCompare a.nodeKey b.nodeKey ≤ 0 from hsorted]

/-- A composed quorum is as many candidates as were asked for, of separate
    operators, that hold what the rules ask; and which they are does not depend on
    the order in which the candidates came. -/
theorem composeQuorum_sound (p : Platform) (candidates : List NodeCertificate)
    (rules : QuorumRules) :
    (∀ members operators strength,
      composeQuorum p candidates rules = .composed members operators strength →
      members.length = rules.size ∧
      (∀ member ∈ members, member ∈ candidates) ∧
      (members.map NodeCertificate.operatorId).Nodup ∧
      (rules.requireIndependentPaths ≠ some false → ¬ ∃ relayId,
        (∃ member ∈ members, DependsOn member relayId) ∧
        ∀ member ∈ members, DependsOn member relayId ∨
          (rules.peerIdOf.getD fun _ => none) member = some relayId) ∧
      (rules.requireDistinctIssuers ≠ some false → 2 ≤ rules.size →
        ∃ a ∈ members, ∃ b ∈ members, a.issuer ≠ b.issuer) ∧
      (strength = .independent ↔
        (∃ a ∈ members, ∃ b ∈ members, a.operatorId ≠ b.operatorId) ∧
        ∃ a ∈ members, ∃ b ∈ members, a.issuer ≠ b.issuer)) ∧
    ∀ keys, Collates p keys → (∀ c ∈ candidates, keys c.nodeKey) →
      (candidates.map NodeCertificate.nodeKey).Nodup → ∀ candidates', candidates'.Perm candidates →
        composeQuorum p candidates' rules = composeQuorum p candidates rules := by
  constructor
  · intro members operators strength h
    obtain ⟨hmany, hmembers, hstrength, hpaths, hissuers⟩ := composeQuorum_composed h
    obtain ⟨hdrawn, hoperators⟩ := onePerOperator_spec p candidates
    obtain ⟨ordering, hordering, htake⟩ :=
      spreadAcrossIssuers_spec p (onePerOperator p candidates) rules.size
    rw [htake] at hmembers
    have hlength : members.length = rules.size := by
      rw [hmembers, List.length_take, hordering.length_eq]
      omega
    refine ⟨hlength, ?_, ?_, ?_, ?_, ?_⟩
    · intro member hmember
      rw [hmembers] at hmember
      exact hdrawn member (hordering.mem_iff.mp (List.mem_of_mem_take hmember))
    · rw [hmembers]
      have hnodup : (ordering.map NodeCertificate.operatorId).Nodup :=
        (hordering.map _).nodup_iff.mpr hoperators
      exact hnodup.sublist ((List.take_sublist _ _).map _)
    · rintro hflag ⟨relayId, hsome, hall⟩
      exact sharedRelay_eq_none (hpaths hflag) relayId hsome hall
    · intro hflag htwo
      exact hissuers hflag (hlength ▸ htwo)
    · rw [hstrength]
      exact classifyAttestation_independent
  · intro keys hcollates hkeys hnodup candidates' hperm
    have hnil : candidates' = [] ↔ candidates = [] := by
      rw [← List.length_eq_zero_iff, ← List.length_eq_zero_iff, hperm.length_eq]
    unfold composeQuorum
    simp only [onePerOperator_congr hcollates hperm hkeys hnodup, hnil]

/-! ## A quorum to look at -/

theorem plain_collates : Collates plain fun _ => True := by
  have hle : ∀ a b, plain.localeCompare a b ≤ 0 ↔ a ≤ b := by
    intro a b
    show (if a < b then -1 else if b < a then 1 else 0 : Int) ≤ 0 ↔ a ≤ b
    split
    · next hlt => exact ⟨fun _ => le_of_lt hlt, fun _ => by decide⟩
    · next hnot =>
      split
      · next hgt => exact ⟨fun h => absurd h (by decide), fun h => absurd hgt (not_lt.mpr h)⟩
      · next hnot' => exact ⟨fun _ => not_lt.mp hnot', fun _ => le_refl _⟩
  constructor
  · intro a b
    rw [hle, hle]
    exact le_total a b
  · intro a b c
    rw [hle, hle, hle]
    exact le_trans
  · intro a b _ _
    rw [hle, hle]
    exact le_antisymm

def seedCertificate (nodeKey operatorId issuer : JsString) : NodeCertificate where
  nodeKey := nodeKey
  userKey := nodeKey
  operatorId := operatorId
  discoverability := .seed
  relayIds := []
  issuedAt := 0
  expiresAt := 1
  issuer := issuer
  signature := []

/-- Two operators under one issuer and a third under another. -/
def threeSeeds : List NodeCertificate :=
  [seedCertificate (js "a") (js "p") (js "x"), seedCertificate (js "b") (js "q") (js "x"),
    seedCertificate (js "c") (js "r") (js "y")]

theorem composeQuorum_sound_threeSeeds : ∃ members operators,
    composeQuorum plain threeSeeds ⟨2, none, none, none⟩ = .composed members operators .independent ∧
    members.length = 2 ∧ (members.map NodeCertificate.operatorId).Nodup ∧
    composeQuorum plain threeSeeds.reverse ⟨2, none, none, none⟩
      = .composed members operators .independent := by
  have hsound := composeQuorum_sound plain threeSeeds ⟨2, none, none, none⟩
  have hcomposed : composeQuorum plain threeSeeds ⟨2, none, none, none⟩
      = .composed [seedCertificate (js "a") (js "p") (js "x"),
          seedCertificate (js "c") (js "r") (js "y")] [js "p", js "r"] .independent := by
    decide
  obtain ⟨hlength, -, hnodup, -⟩ := hsound.1 _ _ _ hcomposed
  refine ⟨_, _, hcomposed, hlength, hnodup, ?_⟩
  have hsame := hsound.2 _ plain_collates (fun _ _ => trivial) (by decide) _
    (List.reverse_perm threeSeeds)
  exact hsame.trans hcomposed

end O2Fabric

/-! # Diverse

When a quorum of two issuers is found where the candidates offer one.  The
choice is spread over the issuers of the candidates that are left, but by then
one certificate of each operator is left, the first by node key.  So a quorum of
two issuers is found just when two operators' first certificates have different
ones.
-/

namespace O2Fabric

open Grouping RoundRobin

variable {p : Platform}

/-! ## What the candidates offer -/

/-- The candidates allow a quorum of this size that two issuers vouch for. -/
def Offers (candidates : List NodeCertificate) (size : Nat) : Prop :=
  ∃ choice : List NodeCertificate, (∀ c ∈ choice, c ∈ candidates) ∧ choice.length = size ∧
    (choice.map NodeCertificate.operatorId).Nodup ∧
    ∃ a ∈ choice, ∃ b ∈ choice, a.issuer ≠ b.issuer

/-- A quorum of two issuers is found: it passes the check for them, and is
    composed all the same where the check is waived. -/
def Seeks (p : Platform) (candidates : List NodeCertificate) (size : Nat)
    (peerIdOf : Option (NodeCertificate → Option JsString)) : Prop :=
  (∀ flag : Option Bool, flag ≠ some false → ∃ members operators strength,
    composeQuorum p candidates ⟨size, some false, flag, peerIdOf⟩
      = .composed members operators strength) ∧
  ∃ members operators,
    composeQuorum p candidates ⟨size, some false, some false, peerIdOf⟩
      = .composed members operators .independent ∧
    ∃ a ∈ members, ∃ b ∈ members, a.issuer ≠ b.issuer

/-- In order of node key this is the first certificate of its operator. -/
def FirstOfOperator (p : Platform) (candidates : List NodeCertificate) (a : NodeCertificate) :
    Prop :=
  (candidates.insertionSort fun a b => p.localeCompare a.nodeKey b.nodeKey ≤ 0).find?
    (fun c => decide (c.operatorId = a.operatorId)) = some a

/-! ## One candidate of each operator -/

/-- A step of `onePerOperator`. -/
def keepFirst (perOperator : InsertionMap JsString NodeCertificate)
    (candidate : NodeCertificate) : InsertionMap JsString NodeCertificate :=
  if perOperator.has candidate.operatorId then perOperator
  else perOperator.set candidate.operatorId candidate

theorem mem_values_keepFirst (m : InsertionMap JsString NodeCertificate)
    (rest : List NodeCertificate) (a : NodeCertificate) :
    a ∈ (rest.foldl keepFirst m).values ↔
      a ∈ m.values ∨ (a.operatorId ∉ m.keys ∧
        rest.find? (fun c => decide (c.operatorId = a.operatorId)) = some a) := by
  induction rest generalizing m with
  | nil => simp
  | cons c rest ih =>
    rw [List.foldl_cons, ih, List.find?_cons, keepFirst]
    by_cases hhas : c.operatorId ∈ m.keys
    · -- what is held stays, and `a` is none of this operator's
      have hheld : m.has c.operatorId = true := InsertionMap.get?_isSome.mpr hhas
      rw [if_pos hheld]
      by_cases hop : c.operatorId = a.operatorId
      · simp [hop ▸ hhas]
      · simp [hop]
    · have hnew : ¬ m.has c.operatorId := fun h => hhas (InsertionMap.get?_isSome.mp h)
      have hvalues : (m.set c.operatorId c).values = m.values ++ [c] := by
        rw [InsertionMap.values, InsertionMap.entries_set_of_notMem hhas, List.map_append]
        rfl
      have hkeys : (m.set c.operatorId c).keys = m.keys ++ [c.operatorId] := by
        rw [InsertionMap.keys_set, if_neg hhas]
      rw [if_neg hnew, hvalues, hkeys]
      by_cases hop : c.operatorId = a.operatorId
      · have habsent : a.operatorId ∉ m.keys := hop ▸ hhas
        simp [hop, habsent, eq_comm]
      · have hne : a ≠ c := fun h => hop (congrArg NodeCertificate.operatorId h.symm)
        simp [hop, hne, Ne.symm hop]

variable {candidates : List NodeCertificate}

theorem mem_onePerOperator {a : NodeCertificate} :
    a ∈ onePerOperator p candidates ↔ FirstOfOperator p candidates a := by
  show a ∈ (List.foldl keepFirst .empty _).values ↔ _
  rw [mem_values_keepFirst]
  constructor
  · rintro (hempty | ⟨-, hfirst⟩)
    · cases hempty
    · exact hfirst
  · exact fun hfirst => Or.inr ⟨List.not_mem_nil, hfirst⟩

/-- Every operator keeps a certificate. -/
theorem length_le_onePerOperator {choice : List NodeCertificate}
    (hfrom : ∀ c ∈ choice, c ∈ candidates)
    (hoperators : (choice.map NodeCertificate.operatorId).Nodup) :
    choice.length ≤ (onePerOperator p candidates).length := by
  have hsub : choice.map NodeCertificate.operatorId
      ⊆ (onePerOperator p candidates).map NodeCertificate.operatorId := by
    intro operator hoperator
    obtain ⟨c, hc, rfl⟩ := List.mem_map.mp hoperator
    generalize hsorted : candidates.insertionSort (fun a b =>
      p.localeCompare a.nodeKey b.nodeKey ≤ 0) = sorted
    have hin : c ∈ sorted := by
      rw [← hsorted]
      exact (List.mem_insertionSort _).mpr (hfrom c hc)
    have hfound : (sorted.find? fun d => decide (d.operatorId = c.operatorId)).isSome := by
      rw [List.find?_isSome]
      exact ⟨c, hin, decide_eq_true rfl⟩
    obtain ⟨first, hfirst⟩ := Option.isSome_iff_exists.mp hfound
    have hsame := List.find?_some hfirst
    rw [decide_eq_true_eq] at hsame
    refine List.mem_map.mpr ⟨first, mem_onePerOperator.mpr ?_, hsame⟩
    show List.find? _ _ = some first
    rw [hsorted, hsame]
    exact hfirst
  have hle := (List.subperm_of_subset hoperators hsub).length_le
  rwa [List.length_map, List.length_map] at hle

/-! ## Two issuers among the members -/

/-- The first row holds a candidate of every issuer, so two are enough. -/
theorem spreadAcrossIssuers_issuers {pool : List NodeCertificate} {size : Nat} (hsize : 2 ≤ size)
    (h : ∃ a ∈ pool, ∃ b ∈ pool, a.issuer ≠ b.issuer) :
    ∃ a ∈ spreadAcrossIssuers p pool size, ∃ b ∈ spreadAcrossIssuers p pool size,
      a.issuer ≠ b.issuer := by
  unfold spreadAcrossIssuers
  dsimp only
  rw [takeByDepth_eq _ _ _ _ (Nat.zero_le _)]
  generalize hordered : pool.insertionSort
    (p.OrderedBy (fun c => (c.relayIds.length : ℚ)) NodeCertificate.nodeKey) = ordered
  have hperm : ordered.Perm pool := hordered ▸ List.perm_insertionSort _ _
  generalize hgrouped : groupInto InsertionMap.empty (ordered.map fun c => (c.issuer, [c]))
    = byIssuer
  generalize hsorted : byIssuer.entries.insertionSort (fun a b =>
    p.localeCompare a.1 b.1 ≤ 0) = sorted
  have hsortedPerm : sorted.Perm byIssuer.entries := hsorted ▸ List.perm_insertionSort _ _
  have hkeys : (sorted.map Prod.fst).Nodup :=
    (hsortedPerm.map _).nodup_iff.mpr byIssuer.keysNodup
  -- every group begins with a candidate of the issuer it is kept under
  have hhead : ∀ e ∈ sorted, ∃ c rest, e.2 = c :: rest ∧ c.issuer = e.1 := by
    intro e he
    have hentry := hsortedPerm.mem_iff.mp he
    rw [← hgrouped] at hentry
    obtain ⟨hkey, hgroup⟩ := mem_entries_groupInto hentry
    obtain ⟨c, hc, hissuer⟩ := List.mem_map.mp hkey
    have hin : c ∈ e.2 := by
      rw [hgroup, List.mem_filter]
      exact ⟨hc, decide_eq_true hissuer⟩
    obtain ⟨first, rest, hcons⟩ := List.exists_cons_of_ne_nil (List.ne_nil_of_mem hin)
    have hfirst : first ∈ e.2 := hcons ▸ List.mem_cons_self
    rw [hgroup, List.mem_filter, decide_eq_true_eq] at hfirst
    exact ⟨first, rest, hcons, hfirst.2⟩
  -- and there are two groups
  have hmany : 2 ≤ sorted.length := by
    rw [hsortedPerm.length_eq, ← List.length_map (f := Prod.fst)]
    show 2 ≤ byIssuer.keys.length
    have hissuers : byIssuer.keys = distinct (ordered.map NodeCertificate.issuer) := by
      rw [← hgrouped, keys_groupInto, InsertionMap.keys_empty, List.nil_append, List.map_map]
      exact List.filter_eq_self.mpr fun key _ => decide_eq_true List.not_mem_nil
    rw [hissuers]
    obtain ⟨a, ha, b, hb, hne⟩ := h
    exact two_le_length_distinct.mpr
      ⟨a, hperm.mem_iff.mpr ha, b, hperm.mem_iff.mpr hb, hne⟩
  match sorted, hmany, hhead, hkeys with
  | e :: e' :: others, _, hhead, hkeys =>
    obtain ⟨a, as, heq, hissuer⟩ := hhead e List.mem_cons_self
    obtain ⟨b, bs, heq', hissuer'⟩ := hhead e' (List.mem_cons_of_mem _ List.mem_cons_self)
    have hne : a.issuer ≠ b.issuer := by
      rw [hissuer, hissuer']
      rw [List.map_cons, List.map_cons, List.nodup_cons] at hkeys
      exact fun hsame => hkeys.1 (hsame ▸ List.mem_cons_self)
    obtain ⟨more, rfl⟩ := Nat.exists_eq_add_of_le' hsize
    refine ⟨a, ?_, b, ?_, hne⟩ <;>
      simp [rowsFrom, row_cons, heq, heq']

/-! ## The quorum -/

/-- With the paths not asked for, a quorum of two issuers passes. -/
theorem composeQuorum_of_issuers {size : Nat} {flag : Option Bool}
    {peerIdOf : Option (NodeCertificate → Option JsString)} (hsome : candidates ≠ [])
    (hmany : size ≤ (onePerOperator p candidates).length) {members : List NodeCertificate}
    (hmembers : spreadAcrossIssuers p (onePerOperator p candidates) size = members)
    (hissuers : ∃ a ∈ members, ∃ b ∈ members, a.issuer ≠ b.issuer) :
    composeQuorum p candidates ⟨size, some false, flag, peerIdOf⟩
      = .composed members (members.map NodeCertificate.operatorId)
          (classifyAttestation members) := by
  have htwo := two_le_length_distinct.mpr hissuers
  unfold composeQuorum
  dsimp only
  rw [if_neg hsome, if_neg (Nat.not_lt.mpr hmany), hmembers]
  simp only [Option.getD_some, Bool.false_eq_true, if_false]
  split
  · next issuer hone =>
    rw [hone] at htwo
    exact absurd htwo (by simp)
  · rfl

/-- Where two issuers are offered, they are found just when two operators' first
    certificates by node key have different issuers. -/
theorem composeQuorum_seeks_iff (p : Platform) (candidates : List NodeCertificate) (size : Nat)
    (peerIdOf : Option (NodeCertificate → Option JsString)) (hsize : 2 ≤ size)
    (hoffers : Offers candidates size) :
    Seeks p candidates size peerIdOf ↔
      ∃ a b, FirstOfOperator p candidates a ∧ FirstOfOperator p candidates b ∧
        a.issuer ≠ b.issuer := by
  obtain ⟨choice, hfrom, hlength, hoperators, -⟩ := hoffers
  constructor
  · -- what passes the check holds two issuers, and its members are such first ones
    rintro ⟨hchecked, -⟩
    obtain ⟨members, operators, strength, hcomposed⟩ := hchecked none (by simp)
    obtain ⟨-, hmembers, -⟩ := composeQuorum_composed hcomposed
    obtain ⟨hcount, -, -, -, hissuers, -⟩ :=
      (composeQuorum_sound p candidates _).1 _ _ _ hcomposed
    obtain ⟨a, ha, b, hb, hne⟩ := hissuers (by simp) hsize
    obtain ⟨ordering, hordering, htake⟩ :=
      spreadAcrossIssuers_spec p (onePerOperator p candidates) size
    have hfirst : ∀ c ∈ members, FirstOfOperator p candidates c := by
      intro c hc
      rw [hmembers, htake] at hc
      exact mem_onePerOperator.mp (hordering.mem_iff.mp (List.mem_of_mem_take hc))
    exact ⟨a, b, hfirst a ha, hfirst b hb, hne⟩
  · rintro ⟨a, b, ha, hb, hne⟩
    have hmany : size ≤ (onePerOperator p candidates).length :=
      hlength ▸ length_le_onePerOperator hfrom hoperators
    have hsome : candidates ≠ [] := by
      rintro rfl
      exact absurd ha (by simp [FirstOfOperator])
    have hissuers := spreadAcrossIssuers_issuers (p := p) hsize
      ⟨a, mem_onePerOperator.mpr ha, b, mem_onePerOperator.mpr hb, hne⟩
    have hcomposed : ∀ flag, composeQuorum p candidates ⟨size, some false, flag, peerIdOf⟩ = _ :=
      fun flag => composeQuorum_of_issuers hsome hmany rfl hissuers
    obtain ⟨-, -, hapart, -⟩ := (composeQuorum_sound p candidates _).1 _ _ _ (hcomposed none)
    have hindependent : classifyAttestation
        (spreadAcrossIssuers p (onePerOperator p candidates) size) = .independent := by
      rw [classifyAttestation_independent]
      refine ⟨?_, hissuers⟩
      -- members of two issuers are two, and so of two operators
      obtain ⟨c, hc, d, hd, hother⟩ := hissuers
      refine ⟨c, hc, d, hd, fun hsame => hother ?_⟩
      rw [List.inj_on_of_nodup_map hapart hc hd hsame]
    rw [hindependent] at hcomposed
    exact ⟨fun flag _ => ⟨_, _, _, hcomposed flag⟩, _, _, hcomposed (some false), hissuers⟩

theorem composeQuorum_seeks_iff_threeSeeds : Seeks plain threeSeeds 2 none := by
  refine (composeQuorum_seeks_iff plain threeSeeds 2 none (by decide) ?_).mpr ?_
  · exact ⟨[seedCertificate (js "a") (js "p") (js "x"), seedCertificate (js "c") (js "r") (js "y")],
      by decide, rfl, by decide, _, .head _, _, .tail _ (.head _), by decide⟩
  · exact ⟨seedCertificate (js "a") (js "p") (js "x"), seedCertificate (js "c") (js "r") (js "y"),
      by unfold FirstOfOperator; decide, by unfold FirstOfOperator; decide, by decide⟩

/-- One operator holds certificates of two issuers, and the first of them is of
    the issuer the other operator has too. -/
def twiceVouched : List NodeCertificate :=
  [seedCertificate (js "a") (js "p") (js "x"), seedCertificate (js "c") (js "p") (js "y"),
    seedCertificate (js "b") (js "q") (js "x")]

/-- Two issuers are offered and the quorum is refused for having one. -/
theorem offered_issuer_is_passed_over : Offers twiceVouched 2 ∧
    (∃ reason, composeQuorum plain twiceVouched ⟨2, some false, some true, none⟩
      = .refused (.singleIssuerQuorum (js "x")) reason) ∧
    ¬ Seeks plain twiceVouched 2 none := by
  have hrefused : ∃ reason, composeQuorum plain twiceVouched ⟨2, some false, some true, none⟩
      = .refused (.singleIssuerQuorum (js "x")) reason := ⟨_, rfl⟩
  refine ⟨⟨[seedCertificate (js "c") (js "p") (js "y"), seedCertificate (js "b") (js "q") (js "x")],
    by decide, rfl, by decide, _, .head _, _, .tail _ (.head _), by decide⟩, hrefused, ?_⟩
  rintro ⟨hchecked, -⟩
  obtain ⟨members, operators, strength, hcomposed⟩ := hchecked (some true) (by decide)
  obtain ⟨reason, hrefused⟩ := hrefused
  rw [hrefused] at hcomposed
  cases hcomposed

end O2Fabric
