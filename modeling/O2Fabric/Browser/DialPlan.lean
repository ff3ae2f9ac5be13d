/-
  O2Fabric.Browser.DialPlan

  Which of a discovery round's candidates are dialled: one address for a peer,
  a bounded number in a round, and a bounded number of upgrades while a peer is
  held over a relay only.

  `Planned` is a planner after any sequence of rounds, with what it has planned.
-/

import Mathlib.Algebra.GroupWithZero.Nat
import O2Fabric.Js.Text
import O2Fabric.Lib.InsertionMap

namespace O2Fabric.DialPlan

def MAX_DIALS_PER_ROUND : Nat := 8

def MAX_UPGRADE_ATTEMPTS : Nat := 3

structure HeldPeer where
  peer : JsString
  carriesWork : Bool
  deriving DecidableEq

inductive DialPurpose
  | firstContact
  | upgrade
  deriving DecidableEq

structure PlannedDial where
  address : JsString
  peer : JsString
  purpose : DialPurpose
  deriving DecidableEq

structure DialRound where
  candidates : List JsString
  /-- This tab's own peer id. -/
  self : JsString
  held : List HeldPeer
  deriving DecidableEq

/-! ## The peer an address leads to -/

/-- `text.split(separator)` from a place in `text` on, with the part begun before it. -/
def splitFrom (separator : JsString) : Nat → JsString → JsString → List JsString
  | 0, part, text => [part ++ text]
  | _ + 1, part, [] => [part]
  | fuel + 1, part, u :: rest =>
    if separator.isPrefixOf (u :: rest) then
      part :: splitFrom separator fuel [] ((u :: rest).drop separator.length)
    else splitFrom separator fuel (part ++ [u]) rest

def targetOf (address : JsString) : JsString :=
  ((splitFrom (js "/p2p/") address.length [] address).getLast?).getD []

/-- The last component, and not the relay's own. -/
example : targetOf (js "/ip4/1/p2p/R/p2p-circuit/webrtc/p2p/T") = js "T" := by decide

/-! ## One round -/

def carrying (round : DialRound) : List JsString :=
  (round.held.filter (·.carriesWork)).map (·.peer)

def relayed (held : List HeldPeer) : List JsString :=
  (held.filter fun h => !h.carriesWork).map (·.peer)

def attempts (spent : InsertionMap JsString Nat) (peer : JsString) : Nat := (spent.get? peer).getD 0

/-- An address is passed over, for one of these reasons. -/
def passesOver (round : DialRound) (spent : InsertionMap JsString Nat) (plan : List PlannedDial)
    (peer : JsString) : Bool :=
  (peer == [] || peer == round.self) ||
    ((carrying round).contains peer || (plan.map (·.peer)).contains peer) ||
    ((relayed round.held).contains peer && decide (MAX_UPGRADE_ATTEMPTS ≤ attempts spent peer))

def dialOf (round : DialRound) (address : JsString) : PlannedDial where
  address
  peer := targetOf address
  purpose := if (relayed round.held).contains (targetOf address) then .upgrade else .firstContact

/-- The loop over the candidates; the peers that were tried are those of the plan. -/
def planFrom (round : DialRound) (spent : InsertionMap JsString Nat) :
    List PlannedDial → List JsString → List PlannedDial
  | plan, [] => plan
  | plan, address :: rest =>
    if passesOver round spent plan (targetOf address) then planFrom round spent plan rest
    else if MAX_DIALS_PER_ROUND ≤ (plan ++ [dialOf round address]).length then
      plan ++ [dialOf round address]
    else planFrom round spent (plan ++ [dialOf round address]) rest

def planDials (round : DialRound) (spent : InsertionMap JsString Nat) : List PlannedDial :=
  planFrom round spent [] round.candidates

/-! ## The planner -/

structure DialPlanner where
  spent : InsertionMap JsString Nat

def DialPlanner.initial : DialPlanner := ⟨.empty⟩

/-- The counts of the peers that are not held over a relay only are dropped. -/
def forget (spent : InsertionMap JsString Nat) (held : List HeldPeer) : InsertionMap JsString Nat :=
  spent.keys.foldl (fun m peer => if (relayed held).contains peer then m else m.delete peer) spent

def charge (spent : InsertionMap JsString Nat) (plan : List PlannedDial) :
    InsertionMap JsString Nat :=
  plan.foldl (fun m dial =>
    if dial.purpose = .upgrade then m.set dial.peer (attempts m dial.peer + 1) else m) spent

namespace DialPlanner

def plan (planner : DialPlanner) (round : DialRound) : DialPlanner × List PlannedDial :=
  let spent := forget planner.spent round.held
  let plan := planDials round spent
  (⟨charge spent plan⟩, plan)

def stalled (planner : DialPlanner) (held : List HeldPeer) : List JsString :=
  (held.filter fun h =>
    !h.carriesWork && decide (MAX_UPGRADE_ATTEMPTS ≤ attempts planner.spent h.peer)).map (·.peer)

def spentOn (planner : DialPlanner) (peer : JsString) : Nat := attempts planner.spent peer

end DialPlanner

/-- A planner after its rounds, with what it planned in each, the latest first. -/
def planned : List DialRound → DialPlanner × List (DialRound × List PlannedDial)
  | [] => (.initial, [])
  | round :: earlier =>
    let (planner, done) := planned earlier
    let (planner', plan) := planner.plan round
    (planner', (round, plan) :: done)

/-! ## What is said of whole runs -/

def RelayOnly (round : DialRound) (peer : JsString) : Prop := ⟨peer, false⟩ ∈ round.held

instance (round : DialRound) (peer : JsString) : Decidable (RelayOnly round peer) :=
  inferInstanceAs (Decidable (_ ∈ round.held))

def upgradesOf (peer : JsString) (plan : List PlannedDial) : Nat :=
  plan.countP fun dial => decide (dial.peer = peer ∧ dial.purpose = .upgrade)

/-- The same over the rounds, up to the latest, in which it was held over a relay only. -/
def currentUpgrades (peer : JsString) : List (DialRound × List PlannedDial) → Nat
  | [] => 0
  | (round, plan) :: earlier =>
    if RelayOnly round peer then upgradesOf peer plan + currentUpgrades peer earlier else 0

/-! ## The plan of a round -/

variable {round : DialRound} {spent : InsertionMap JsString Nat} {plan : List PlannedDial}
  {peer address : JsString}

theorem mem_carrying : peer ∈ carrying round ↔ ⟨peer, true⟩ ∈ round.held := by
  simp only [carrying, List.mem_map, List.mem_filter]
  constructor
  · rintro ⟨h, ⟨hmem, hcarries⟩, rfl⟩
    obtain ⟨peer, carriesWork⟩ := h
    cases hcarries
    exact hmem
  · exact fun hmem => ⟨_, ⟨hmem, rfl⟩, rfl⟩

theorem mem_relayed : peer ∈ relayed round.held ↔ RelayOnly round peer := by
  simp only [relayed, List.mem_map, List.mem_filter]
  constructor
  · rintro ⟨h, ⟨hmem, hrelayed⟩, rfl⟩
    obtain ⟨peer, carriesWork⟩ := h
    cases carriesWork with
    | false => exact hmem
    | true => cases hrelayed
  · exact fun hmem => ⟨_, ⟨hmem, rfl⟩, rfl⟩

theorem passesOver_iff : passesOver round spent plan peer = true ↔
    (peer = [] ∨ peer = round.self) ∨
      (⟨peer, true⟩ ∈ round.held ∨ ∃ dial ∈ plan, dial.peer = peer) ∨
      (RelayOnly round peer ∧ MAX_UPGRADE_ATTEMPTS ≤ attempts spent peer) := by
  unfold passesOver
  simp only [Bool.or_eq_true, Bool.and_eq_true, beq_iff_eq, List.contains_iff_mem, mem_carrying,
    mem_relayed, List.mem_map, decide_eq_true_eq, or_assoc]

structure Sound (round : DialRound) (spent : InsertionMap JsString Nat) (dial : PlannedDial) :
    Prop where
  target : dial.peer = targetOf dial.address
  named : dial.peer ≠ []
  other : dial.peer ≠ round.self
  idle : ⟨dial.peer, true⟩ ∉ round.held
  purpose : dial.purpose = .upgrade ↔ RelayOnly round dial.peer
  allowed : dial.purpose = .upgrade → attempts spent dial.peer < MAX_UPGRADE_ATTEMPTS

/-- An address that is not passed over gives such a dial, to a peer not yet chosen. -/
theorem sound_dialOf (h : passesOver round spent plan (targetOf address) = false) :
    Sound round spent (dialOf round address) ∧
      ∀ dial ∈ plan, dial.peer ≠ (dialOf round address).peer := by
  have hnot : ¬ passesOver round spent plan (targetOf address) = true := by simp [h]
  rw [passesOver_iff, not_or, not_or, not_or, not_or] at hnot
  obtain ⟨⟨hnamed, hother⟩, ⟨hidle, hfresh⟩, hallowed⟩ := hnot
  have hpurpose : (dialOf round address).purpose = .upgrade ↔
      RelayOnly round (targetOf address) := by
    rw [← mem_relayed]
    simp [dialOf]
  refine ⟨⟨rfl, hnamed, hother, hidle, hpurpose, fun hupgrade => ?_⟩,
    fun dial hdial hsame => hfresh ⟨dial, hdial, hsame⟩⟩
  by_contra hspent
  exact hallowed ⟨hpurpose.mp hupgrade, not_lt.mp hspent⟩

/-- What a plan is, as far as the loop has got. -/
structure Fits (round : DialRound) (spent : InsertionMap JsString Nat)
    (plan : List PlannedDial) : Prop where
  sound : ∀ dial ∈ plan, Sound round spent dial
  distinct : (plan.map (·.peer)).Nodup
  bounded : plan.length ≤ MAX_DIALS_PER_ROUND

theorem Fits.concat (h : Fits round spent plan) (hroom : plan.length < MAX_DIALS_PER_ROUND)
    (hdial : passesOver round spent plan (targetOf address) = false) :
    Fits round spent (plan ++ [dialOf round address]) := by
  obtain ⟨hsound, hfresh⟩ := sound_dialOf hdial
  refine ⟨fun dial hmem => ?_, ?_, ?_⟩
  · obtain hold | hnew := List.mem_append.mp hmem
    · exact h.sound dial hold
    · rw [List.mem_singleton.mp hnew]
      exact hsound
  · rw [List.map_append, List.nodup_append]
    refine ⟨h.distinct, List.nodup_singleton _, fun peer hpeer other hother => ?_⟩
    obtain ⟨dial, hmem, rfl⟩ := List.mem_map.mp hpeer
    rw [List.mem_singleton.mp hother]
    exact hfresh dial hmem
  · rw [List.length_append, List.length_singleton]
    omega

/-- The loop only adds to the plan, from what is left, and keeps what holds of it. -/
theorem planFrom_fits (rest : List JsString) (h : Fits round spent plan)
    (hroom : plan.length < MAX_DIALS_PER_ROUND) :
    Fits round spent (planFrom round spent plan rest) ∧
      ∃ added, planFrom round spent plan rest = plan ++ added ∧
        (added.map (·.address)).Sublist rest := by
  induction rest generalizing plan with
  | nil => exact ⟨h, [], (List.append_nil _).symm, List.nil_sublist _⟩
  | cons address rest ih =>
    unfold planFrom
    split
    · obtain ⟨hfits, added, heq, hsublist⟩ := ih h hroom
      exact ⟨hfits, added, heq, hsublist.cons _⟩
    · next hdial =>
      rw [Bool.not_eq_true] at hdial
      have hconcat := h.concat hroom hdial
      split
      · exact ⟨hconcat, [dialOf round address], rfl,
          (List.nil_sublist rest).cons_cons _⟩
      · next hmore =>
        obtain ⟨hfits, added, heq, hsublist⟩ := ih hconcat (not_le.mp hmore)
        refine ⟨hfits, dialOf round address :: added, ?_, hsublist.cons_cons _⟩
        rw [heq, List.append_assoc]
        rfl

theorem planFrom_nil : planFrom round spent plan [] = plan := by
  unfold planFrom
  rfl

theorem planFrom_cons (rest : List JsString) : planFrom round spent plan (address :: rest) =
    if passesOver round spent plan (targetOf address) then planFrom round spent plan rest
    else if MAX_DIALS_PER_ROUND ≤ (plan ++ [dialOf round address]).length then
      plan ++ [dialOf round address]
    else planFrom round spent (plan ++ [dialOf round address]) rest := rfl

/-- Candidates are judged one after another, until the round's bound is reached. -/
theorem planFrom_append (round : DialRound) (spent : InsertionMap JsString Nat)
    (before after : List JsString) (hroom : plan.length < MAX_DIALS_PER_ROUND) :
    planFrom round spent plan (before ++ after) =
      if (planFrom round spent plan before).length < MAX_DIALS_PER_ROUND then
        planFrom round spent (planFrom round spent plan before) after
      else planFrom round spent plan before := by
  induction before generalizing plan with
  | nil => rw [List.nil_append, planFrom_nil, if_pos hroom]
  | cons address before ih =>
    rw [List.cons_append, planFrom_cons, planFrom_cons]
    by_cases hpass : passesOver round spent plan (targetOf address) = true
    · rw [if_pos hpass, if_pos hpass]
      exact ih hroom
    · rw [if_neg hpass, if_neg hpass]
      by_cases hfull : MAX_DIALS_PER_ROUND ≤ (plan ++ [dialOf round address]).length
      · rw [if_pos hfull, if_pos hfull, if_neg (not_lt.mpr hfull)]
      · rw [if_neg hfull, if_neg hfull]
        exact ih (not_le.mp hfull)

/-- An address is dialled unless it is passed over or the bound was reached before it. -/
theorem planDials_split (spent : InsertionMap JsString Nat) (before after : List JsString)
    (hcandidates : round.candidates = before ++ address :: after) :
    ∃ rest, planDials round spent = planFrom round spent [] before ++ rest ∧
      ((∃ more, rest = dialOf round address :: more) ∨
        passesOver round spent (planFrom round spent [] before) (targetOf address) = true ∨
        (planFrom round spent [] before).length = MAX_DIALS_PER_ROUND) := by
  have hempty : Fits round spent [] :=
    ⟨fun _ h => (by cases h), List.nodup_nil, Nat.zero_le _⟩
  obtain ⟨hfits, -⟩ := planFrom_fits before hempty (by decide)
  have happend := planFrom_append round spent before (address :: after)
    (show ([] : List PlannedDial).length < MAX_DIALS_PER_ROUND by decide)
  unfold planDials
  rw [hcandidates, happend]
  by_cases hroom : (planFrom round spent [] before).length < MAX_DIALS_PER_ROUND
  · rw [if_pos hroom, planFrom_cons]
    by_cases hpass :
        passesOver round spent (planFrom round spent [] before) (targetOf address) = true
    · rw [if_pos hpass]
      obtain ⟨-, added, heq, -⟩ := planFrom_fits after hfits hroom
      exact ⟨added, heq, .inr (.inl hpass)⟩
    · rw [if_neg hpass]
      by_cases hfull : MAX_DIALS_PER_ROUND ≤
          (planFrom round spent [] before ++ [dialOf round address]).length
      · rw [if_pos hfull]
        exact ⟨_, rfl, .inl ⟨[], rfl⟩⟩
      · rw [if_neg hfull]
        have hconcat := hfits.concat hroom (Bool.eq_false_iff.mpr hpass)
        obtain ⟨-, added, heq, -⟩ := planFrom_fits after hconcat (not_le.mp hfull)
        exact ⟨dialOf round address :: added, by rw [heq, List.append_assoc]; rfl,
          .inl ⟨added, rfl⟩⟩
  · rw [if_neg hroom]
    have hbounded := hfits.bounded
    exact ⟨[], (List.append_nil _).symm, .inr (.inr (by omega))⟩

theorem planDials_fits (round : DialRound) (spent : InsertionMap JsString Nat) :
    Fits round spent (planDials round spent) ∧
    ((planDials round spent).map (·.address)).Sublist round.candidates := by
  have hempty : Fits round spent [] :=
    ⟨fun _ h => (by cases h), List.nodup_nil, Nat.zero_le _⟩
  obtain ⟨hfits, added, heq, hsublist⟩ := planFrom_fits round.candidates hempty (by decide)
  rw [List.nil_append] at heq
  exact ⟨hfits, by rwa [planDials, heq]⟩

/-! ## The counts -/

theorem attempts_forget : attempts (forget spent round.held) peer =
    if RelayOnly round peer then attempts spent peer else 0 := by
  have hfold : ∀ (keys : List JsString) (m : InsertionMap JsString Nat),
      (keys.foldl (fun m peer =>
        if (relayed round.held).contains peer then m else m.delete peer) m).get? peer =
      if peer ∈ keys ∧ ¬ RelayOnly round peer then none else m.get? peer := by
    intro keys
    induction keys with
    | nil => simp
    | cons key keys ih =>
      intro m
      rw [List.foldl_cons, ih]
      by_cases hkey : (relayed round.held).contains key = true
      · rw [if_pos hkey]
        rw [List.contains_iff_mem, mem_relayed] at hkey
        by_cases hsame : peer = key
        · subst hsame
          simp [hkey]
        · simp [hsame]
      · rw [if_neg hkey, InsertionMap.get?_delete]
        rw [List.contains_iff_mem, mem_relayed] at hkey
        by_cases hsame : peer = key
        · subst hsame
          simp [hkey]
        · simp [hsame]
  unfold attempts forget
  rw [hfold]
  by_cases hrelayed : RelayOnly round peer
  · simp [hrelayed]
  · by_cases hmem : peer ∈ spent.keys
    · simp [hrelayed, hmem]
    · simp [hrelayed, InsertionMap.get?_eq_none.mpr hmem]

theorem attempts_charge (plan : List PlannedDial) :
    attempts (charge spent plan) peer = attempts spent peer + upgradesOf peer plan := by
  unfold charge upgradesOf
  induction plan generalizing spent with
  | nil => rfl
  | cons dial plan ih =>
    rw [List.foldl_cons, ih, List.countP_cons]
    by_cases hupgrade : dial.purpose = .upgrade
    · rw [if_pos hupgrade]
      by_cases hpeer : dial.peer = peer
      · subst hpeer
        simp [attempts, hupgrade]
        omega
      · have hother : ¬ peer = dial.peer := fun h => hpeer h.symm
        simp [attempts, InsertionMap.get?_set, hpeer, hother]
    · simp [hupgrade]

/-- A round dials a peer for upgrade once at most, and only while attempts are left. -/
theorem upgradesOf_planDials (round : DialRound) (spent : InsertionMap JsString Nat)
    (peer : JsString) : upgradesOf peer (planDials round spent) ≤ 1 ∧
    (0 < upgradesOf peer (planDials round spent) →
      RelayOnly round peer ∧ attempts spent peer < MAX_UPGRADE_ATTEMPTS) := by
  obtain ⟨hfits, -⟩ := planDials_fits round spent
  refine ⟨?_, fun hpos => ?_⟩
  · have hle : upgradesOf peer (planDials round spent) ≤
        ((planDials round spent).map (·.peer)).count peer := by
      rw [List.count, List.countP_map]
      refine List.countP_mono_left fun dial _ hdial => ?_
      simp only [decide_eq_true_eq] at hdial
      simp [hdial.1]
    exact hle.trans (List.nodup_iff_count_le_one.mp hfits.distinct peer)
  · obtain ⟨dial, hmem, hdial⟩ := List.countP_pos_iff.mp hpos
    obtain ⟨rfl, hupgrade⟩ := of_decide_eq_true hdial
    have hsound := hfits.sound dial hmem
    exact ⟨hsound.purpose.mp hupgrade, hsound.allowed hupgrade⟩

/-! ## Whole runs -/

/-- The count of a peer is that of its upgrades in the current run of rounds. -/
theorem spentOn_planned (rounds : List DialRound) (peer : JsString) :
    (planned rounds).1.spentOn peer = currentUpgrades peer (planned rounds).2 ∧
      currentUpgrades peer (planned rounds).2 ≤ MAX_UPGRADE_ATTEMPTS := by
  induction rounds with
  | nil => exact ⟨rfl, Nat.zero_le _⟩
  | cons round earlier ih =>
    obtain ⟨hspent, hle⟩ := ih
    obtain ⟨hone, hallowed⟩ := upgradesOf_planDials round
      (forget (planned earlier).1.spent round.held) peer
    have hcount : (planned (round :: earlier)).1.spentOn peer =
        attempts (forget (planned earlier).1.spent round.held) peer +
          upgradesOf peer (planDials round (forget (planned earlier).1.spent round.held)) :=
      attempts_charge _
    have hcurrent : currentUpgrades peer (planned (round :: earlier)).2 =
        if RelayOnly round peer then
          upgradesOf peer (planDials round (forget (planned earlier).1.spent round.held)) +
            currentUpgrades peer (planned earlier).2
        else 0 := rfl
    rw [attempts_forget] at hcount hallowed
    rw [hcount, hcurrent]
    replace hspent : attempts (planned earlier).1.spent peer = _ := hspent
    by_cases hrelayed : RelayOnly round peer
    · rw [if_pos hrelayed] at hallowed
      rw [if_pos hrelayed, if_pos hrelayed, hspent]
      refine ⟨Nat.add_comm _ _, ?_⟩
      rw [hspent] at hallowed
      by_cases hpos : 0 < upgradesOf peer
          (planDials round (forget (planned earlier).1.spent round.held))
      · have hleft := (hallowed hpos).2
        omega
      · omega
    · rw [if_neg hrelayed, if_neg hrelayed]
      -- A peer that is not held over a relay only is not dialled for upgrade.
      have hnone : upgradesOf peer
          (planDials round (forget (planned earlier).1.spent round.held)) = 0 := by
        by_contra hpos
        exact hrelayed (hallowed (Nat.pos_of_ne_zero hpos)).1
      exact ⟨by omega, Nat.zero_le _⟩

theorem planned_drop (rounds : List DialRound) (k : Nat) :
    (planned rounds).2.drop k = (planned (rounds.drop k)).2 := by
  induction k generalizing rounds with
  | zero => rfl
  | succ k ih =>
    cases rounds with
    | nil => rfl
    | cons round earlier => exact ih earlier

theorem sum_le_currentUpgrades (segment older : List (DialRound × List PlannedDial))
    (h : ∀ entry ∈ segment, RelayOnly entry.1 peer) :
    (segment.map fun entry => upgradesOf peer entry.2).sum ≤
      currentUpgrades peer (segment ++ older) := by
  induction segment with
  | nil => exact Nat.zero_le _
  | cons entry segment ih =>
    have hrest := ih fun other hother => h other (List.mem_cons_of_mem _ hother)
    rw [List.map_cons, List.sum_cons, List.cons_append]
    unfold currentUpgrades
    rw [if_pos (h entry List.mem_cons_self)]
    omega

theorem planned_fits {rounds : List DialRound} (h : (round, plan) ∈ (planned rounds).2) :
    ∃ spent, plan = planDials round spent := by
  induction rounds with
  | nil => cases h
  | cons latest earlier ih =>
    obtain hnow | hbefore := List.mem_cons.mp h
    · cases hnow
      exact ⟨_, rfl⟩
    · exact ih hbefore

/-- The plan reads no candidate but those of the loop. -/
theorem planFrom_candidates (candidates rest : List JsString) (plan : List PlannedDial) :
    planFrom { round with candidates } spent plan rest = planFrom round spent plan rest := by
  induction rest generalizing plan with
  | nil => rw [planFrom_nil, planFrom_nil]
  | cons address rest ih =>
    rw [planFrom_cons, planFrom_cons, ih, ih]
    rfl

/-- Over any sequence of rounds, the latest first: what a plan may hold, how
    often a peer is dialled for upgrade, which peers are stalled, and why an
    address is left out of the next plan. -/
theorem planner_bounded_and_fair (rounds : List DialRound) :
    (∀ round plan, (round, plan) ∈ (planned rounds).2 →
      plan.length ≤ MAX_DIALS_PER_ROUND ∧ (plan.map (·.peer)).Nodup ∧
      (plan.map (·.address)).Sublist round.candidates ∧
      ∀ dial ∈ plan, dial.peer = targetOf dial.address ∧ dial.peer ≠ round.self ∧
        ⟨dial.peer, true⟩ ∉ round.held ∧
        (dial.purpose = .upgrade ↔ RelayOnly round dial.peer)) ∧
    (∀ newer segment older peer, (planned rounds).2 = newer ++ (segment ++ older) →
      (∀ entry ∈ segment, RelayOnly entry.1 peer) →
      (segment.map fun entry => upgradesOf peer entry.2).sum ≤ MAX_UPGRADE_ATTEMPTS) ∧
    (∀ round earlier peer, rounds = round :: earlier → ¬ RelayOnly round peer →
      (planned rounds).1.spentOn peer = 0) ∧
    (∀ held peer, peer ∈ (planned rounds).1.stalled held ↔
      ⟨peer, false⟩ ∈ held ∧ currentUpgrades peer (planned rounds).2 = MAX_UPGRADE_ATTEMPTS) ∧
    ∀ round before address after, round.candidates = before ++ address :: after →
      ∃ chosen rest, ((planned rounds).1.plan { round with candidates := before }).2 = chosen ∧
        ((planned rounds).1.plan round).2 = chosen ++ rest ∧
        ((∃ more, rest = dialOf round address :: more) ∨
          targetOf address = round.self ∨ targetOf address = [] ∨
          ⟨targetOf address, true⟩ ∈ round.held ∨
          (∃ dial ∈ chosen, dial.peer = targetOf address) ∨
          (RelayOnly round (targetOf address) ∧
            currentUpgrades (targetOf address) (planned rounds).2 = MAX_UPGRADE_ATTEMPTS) ∨
          chosen.length = MAX_DIALS_PER_ROUND) := by
  refine ⟨?_, ?_, ?_, ?_, ?_⟩
  · intro round plan hmem
    obtain ⟨spent, rfl⟩ := planned_fits hmem
    obtain ⟨hfits, hsublist⟩ := planDials_fits round spent
    refine ⟨hfits.bounded, hfits.distinct, hsublist, fun dial hdial => ?_⟩
    have hsound := hfits.sound dial hdial
    exact ⟨hsound.target, hsound.other, hsound.idle, hsound.purpose⟩
  · intro newer segment older peer hsplit hrelayed
    have hdrop := planned_drop rounds newer.length
    rw [hsplit, List.drop_left] at hdrop
    have hbound := (spentOn_planned (rounds.drop newer.length) peer).2
    rw [← hdrop] at hbound
    exact (sum_le_currentUpgrades segment older hrelayed).trans hbound
  · rintro round earlier peer rfl hgone
    rw [(spentOn_planned _ peer).1]
    show (if RelayOnly round peer then _ else 0) = 0
    rw [if_neg hgone]
  · intro held peer
    obtain ⟨hspent, hle⟩ := spentOn_planned rounds peer
    simp only [DialPlanner.stalled, List.mem_map, List.mem_filter, Bool.and_eq_true,
      Bool.not_eq_true', decide_eq_true_eq]
    constructor
    · rintro ⟨⟨peer, carriesWork⟩, ⟨hmem, hrelayed, hexhausted⟩, rfl⟩
      cases hrelayed
      replace hexhausted : MAX_UPGRADE_ATTEMPTS ≤ (planned rounds).1.spentOn peer := hexhausted
      refine ⟨hmem, le_antisymm hle ?_⟩
      rw [← hspent]
      exact hexhausted
    · rintro ⟨hmem, hcount⟩
      refine ⟨⟨peer, false⟩, ⟨hmem, rfl, ?_⟩, rfl⟩
      show MAX_UPGRADE_ATTEMPTS ≤ (planned rounds).1.spentOn peer
      omega
  · intro round before address after hcandidates
    obtain ⟨rest, heq, hwhy⟩ := planDials_split
      (forget (planned rounds).1.spent round.held) before after hcandidates
    refine ⟨planFrom round (forget (planned rounds).1.spent round.held) [] before, rest,
      planFrom_candidates before before [], heq, ?_⟩
    obtain hdialled | hpassed | hfull := hwhy
    · exact .inl hdialled
    · right
      obtain (hunnamed | hself) | (hcarries | hchosen) | ⟨hrelayed, hexhausted⟩ :=
        passesOver_iff.mp hpassed
      · exact .inr (.inl hunnamed)
      · exact .inl hself
      · exact .inr (.inr (.inl hcarries))
      · exact .inr (.inr (.inr (.inl hchosen)))
      · -- The count that exhausts it is that of the rounds before.
        obtain ⟨hspent, hle⟩ := spentOn_planned rounds (targetOf address)
        rw [attempts_forget, if_pos hrelayed] at hexhausted
        replace hexhausted : MAX_UPGRADE_ATTEMPTS ≤
          (planned rounds).1.spentOn (targetOf address) := hexhausted
        exact .inr (.inr (.inr (.inr (.inl ⟨hrelayed, by omega⟩))))
    · exact .inr (.inr (.inr (.inr (.inr (.inr hfull)))))

end O2Fabric.DialPlan
