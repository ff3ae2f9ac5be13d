/-
  O2Fabric.Core.Job.Agreement

  What every verification can be relied on for, however it came about: the
  replicas it counts are the ones it names, the address it gives is the
  address of the value it gives, and merging adds nobody who was not in one
  of the two sides.
-/

import O2Fabric.Core.Job.CommitReveal
import O2Fabric.Core.Job.Merge

namespace O2Fabric.Job

open Grouping

abbrev Verification := VerificationResult CanonicalValue

section

variable {V : Type}

namespace VerificationResult

def agreeingIds : VerificationResult V → List JsString
  | .agreed _ _ agreeing _ _ _ _ => agreeing.map AgreeingReplica.nodeId
  | _ => []

def agreedCid : VerificationResult V → Option Cid
  | .agreed resultCid _ _ _ _ _ _ => some resultCid
  | _ => none

/-- Nobody answered. -/
def isInsufficient : VerificationResult V → Bool
  | .insufficient .. => true
  | _ => false

/-- The number of replicas behind the agreement. -/
def replicaCount : VerificationResult V → Nat
  | .agreed _ _ _ replicas _ _ _ => replicas
  | _ => 0

/-- The texts of the addresses that were answered. -/
def cids : VerificationResult V → List JsString
  | .agreed resultCid _ _ _ _ _ _ => [resultCid.toText]
  | .disagreed partitions _ _ => partitions.map Prod.fst
  | .insufficient _ _ => []

/-- A disagreement is between two addresses. -/
def Split : VerificationResult V → Prop
  | .disagreed partitions _ _ =>
    ∃ x ∈ partitions.map Prod.fst, ∃ y ∈ partitions.map Prod.fst, x ≠ y
  | _ => True

/-- An agreement gives its value under the value's address and counts the
    replicas it names, of which there is one at least. -/
def WellFormed (canonicalCid : V → Except JsString Cid) : VerificationResult V → Prop
  | .agreed resultCid output agreeing replicas _ _ _ =>
    canonicalCid output = .ok resultCid ∧ replicas = agreeing.length ∧ agreeing ≠ []
  | _ => True

end VerificationResult

variable {canonicalCid : V → Except JsString Cid}

/-! ## Comparing answers -/

/-- The results a comparison can have. -/
theorem compareAnswers_cases (nobody : JsString) (failures : List Failure)
    (answered : List (Answer V)) :
    (answered = [] ∧ compareAnswers nobody failures answered = .insufficient nobody failures) ∨
    (1 < (groupsOf answered).size ∧ compareAnswers nobody failures answered
      = .disagreed (groupsOf answered).entries failures (Cost.total (answered.map Answer.cost))) ∨
    ∃ winner others, answered = winner :: others ∧ ¬ 1 < (groupsOf answered).size ∧
      compareAnswers nobody failures answered = .agreed winner.resultCid winner.output
        (answered.map Answer.replica) answered.length failures
        (Cost.total (answered.map Answer.cost)) winner.cost := by
  cases answered with
  | nil => exact Or.inl ⟨rfl, rfl⟩
  | cons winner others =>
    rw [compareAnswers]
    split
    · next hmany => exact Or.inr (Or.inl ⟨hmany, rfl⟩)
    · next hfew => exact Or.inr (Or.inr ⟨winner, others, rfl, hfew, rfl⟩)

theorem compareAnswers_wellFormed (nobody : JsString) (failures : List Failure)
    {answered : List (Answer V)} (h : ∀ a ∈ answered, canonicalCid a.output = .ok a.resultCid) :
    (compareAnswers nobody failures answered).WellFormed canonicalCid := by
  obtain ⟨-, heq⟩ | ⟨-, heq⟩ | ⟨winner, others, rfl, -, heq⟩ :=
    compareAnswers_cases nobody failures answered
  · rw [heq]
    trivial
  · rw [heq]
    trivial
  · rw [heq]
    exact ⟨h winner List.mem_cons_self, (List.length_map _).symm, List.cons_ne_nil _ _⟩

theorem agreeingIds_compareAnswers (nobody : JsString) (failures : List Failure)
    (answered : List (Answer V)) :
    (compareAnswers nobody failures answered).agreeingIds.Sublist
      (answered.map Answer.nodeId) := by
  obtain ⟨-, heq⟩ | ⟨-, heq⟩ | ⟨winner, others, -, -, heq⟩ :=
    compareAnswers_cases nobody failures answered
  · rw [heq]
    exact List.nil_sublist _
  · rw [heq]
    exact List.nil_sublist _
  · rw [heq]
    show List.Sublist (List.map _ (List.map _ answered)) _
    rw [List.map_map]
    exact List.Sublist.refl _

/-- A grouped map of more than one key has two different ones. -/
theorem split_of_size {m : InsertionMap JsString (List JsString)} (h : 1 < m.size) :
    ∃ x ∈ m.keys, ∃ y ∈ m.keys, x ≠ y := by
  by_contra hall
  have hsame : ∀ x ∈ m.keys, ∀ y ∈ m.keys, x = y := by
    intro x hx y hy
    by_contra hne
    exact hall ⟨x, hx, y, hy, hne⟩
  have hle := length_distinct_le_one hsame
  rw [distinct_of_nodup m.keys_nodup, ← InsertionMap.size_eq_length_keys] at hle
  omega

/-- Every address that was answered is in the comparison, and no other. -/
theorem mem_cids_compareAnswers (nobody : JsString) (failures : List Failure)
    (answered : List (Answer V)) {x : JsString} :
    x ∈ (compareAnswers nobody failures answered).cids
      ↔ x ∈ answered.map fun a => a.resultCid.toText := by
  have hkeys : x ∈ (groupsOf answered).keys ↔ x ∈ answered.map fun a => a.resultCid.toText := by
    rw [keys_groupsOf, mem_distinct]
  obtain ⟨rfl, heq⟩ | ⟨-, heq⟩ | ⟨winner, others, rfl, hfew, heq⟩ :=
    compareAnswers_cases nobody failures answered
  · rw [heq]
    exact Iff.rfl
  · rw [heq]
    exact hkeys
  · rw [heq, ← hkeys, InsertionMap.keys, groupsOf_entries_of_agreed hfew]
    exact Iff.rfl

theorem compareAnswers_split (nobody : JsString) (failures : List Failure)
    (answered : List (Answer V)) : (compareAnswers nobody failures answered).Split := by
  obtain ⟨-, heq⟩ | ⟨hmany, heq⟩ | ⟨winner, others, -, -, heq⟩ :=
    compareAnswers_cases nobody failures answered
  · rw [heq]
    trivial
  · rw [heq]
    exact split_of_size hmany
  · rw [heq]
    trivial

/-! ## Merging -/

/-- What a verification would fix as winner. -/
def VerificationResult.winner? : VerificationResult V → Option (Winner V)
  | .agreed resultCid output _ _ _ _ useful => some ⟨resultCid, output, useful⟩
  | _ => none

theorem add_agreeing (m : Merging V) (v : VerificationResult V) :
    (m.add v).agreeing.map AgreeingReplica.nodeId
      = m.agreeing.map AgreeingReplica.nodeId ++ v.agreeingIds := by
  cases v with
  | agreed => exact List.map_append
  | disagreed => exact (List.append_nil _).symm
  | insufficient => exact (List.append_nil _).symm

theorem add_winner (m : Merging V) (v : VerificationResult V) :
    (m.add v).winner = m.winner.or v.winner? := by
  cases v with
  | agreed => rfl
  | disagreed => exact Option.or_none.symm
  | insufficient => exact Option.or_none.symm

/-- Everything a merge can come to. -/
theorem mergeVerifications_cases (v w : VerificationResult V) :
    (∃ partitions failures gross,
      mergeVerifications v w = .disagreed partitions failures gross) ∨
    (v.winner? = none ∧ w.winner? = none ∧
      ∃ reason failures, mergeVerifications v w = .insufficient reason failures) ∨
    ∃ winner agreeing failures gross, v.winner?.or w.winner? = some winner ∧
      agreeing.map AgreeingReplica.nodeId = v.agreeingIds ++ w.agreeingIds ∧
      mergeVerifications v w = .agreed winner.resultCid winner.output agreeing agreeing.length
        failures gross winner.useful := by
  have hwinner : ((Merging.start.add v).add w).winner = v.winner?.or w.winner? := by
    rw [add_winner, add_winner]
    rfl
  have hagreeing : ((Merging.start.add v).add w).agreeing.map AgreeingReplica.nodeId
      = v.agreeingIds ++ w.agreeingIds := by
    rw [add_agreeing, add_agreeing]
    rfl
  rw [mergeVerifications, Merging.result, hwinner]
  split
  · exact Or.inl ⟨_, _, _, rfl⟩
  · split
    · next hnone =>
      obtain ⟨hv, hw⟩ := Option.or_eq_none_iff.mp hnone
      exact Or.inr (Or.inl ⟨hv, hw, _, _, rfl⟩)
    · next winner hsome =>
      exact Or.inr (Or.inr ⟨winner, _, _, _, hsome, hagreeing, rfl⟩)

variable {v : VerificationResult V}

theorem winner?_wellFormed (h : v.WellFormed canonicalCid) {winner : Winner V}
    (hwinner : v.winner? = some winner) :
    canonicalCid winner.output = .ok winner.resultCid ∧ v.agreeingIds ≠ [] := by
  cases v with
  | agreed =>
    cases hwinner
    refine ⟨h.1, fun hnil => h.2.2 (List.map_eq_nil_iff.mp hnil)⟩
  | disagreed => cases hwinner
  | insufficient => cases hwinner

theorem mergeVerifications_wellFormed {w : VerificationResult V} (hv : v.WellFormed canonicalCid)
    (hw : w.WellFormed canonicalCid) :
    (mergeVerifications v w).WellFormed canonicalCid := by
  obtain ⟨_, _, _, heq⟩ | ⟨-, -, _, _, heq⟩ | ⟨winner, agreeing, _, _, hwinner, hids, heq⟩ :=
    mergeVerifications_cases v w
  · rw [heq]
    trivial
  · rw [heq]
    trivial
  · rw [heq]
    have hsome : canonicalCid winner.output = .ok winner.resultCid ∧
        v.agreeingIds ++ w.agreeingIds ≠ [] := by
      rcases Option.or_eq_some_iff.mp hwinner with h | ⟨-, h⟩
      · obtain ⟨hcid, hne⟩ := winner?_wellFormed hv h
        exact ⟨hcid, fun hnil => hne (List.append_eq_nil_iff.mp hnil).1⟩
      · obtain ⟨hcid, hne⟩ := winner?_wellFormed hw h
        exact ⟨hcid, fun hnil => hne (List.append_eq_nil_iff.mp hnil).2⟩
    refine ⟨hsome.1, rfl, ?_⟩
    rintro rfl
    exact hsome.2 hids.symm

/-- A fold takes over every address that was answered. -/
theorem mem_keys_add (m : Merging V) (v : VerificationResult V) {x : JsString} :
    x ∈ (m.add v).nodesByCid.keys ↔ x ∈ m.nodesByCid.keys ∨ x ∈ v.cids := by
  cases v with
  | agreed resultCid output agreeing =>
    show x ∈ (pushAll m.nodesByCid _).keys ↔ x ∈ m.nodesByCid.keys ∨ x ∈ [resultCid.toText]
    rw [pushAll, InsertionMap.mem_keys_set, List.mem_singleton, or_comm]
  | disagreed partitions failures gross =>
    show x ∈ (groupInto m.nodesByCid partitions).keys ↔ _
    exact mem_keys_groupInto
  | insufficient => exact (or_iff_left List.not_mem_nil).symm

/-- What fixes a winner answered its address. -/
theorem winner?_cids {winner : Winner V} (h : v.winner? = some winner) :
    winner.resultCid.toText ∈ v.cids := by
  cases v with
  | agreed =>
    cases h
    exact List.mem_singleton.mpr rfl
  | disagreed => cases h
  | insufficient => cases h

/-- Without a winner nothing was answered, or two different addresses. -/
theorem cids_of_no_winner (h : v.winner? = none) (hv : v.Split) :
    v.cids = [] ∨ ∃ x ∈ v.cids, ∃ y ∈ v.cids, x ≠ y := by
  cases v with
  | agreed => cases h
  | disagreed => exact Or.inr hv
  | insufficient => exact Or.inl rfl

/-- No address that was answered is lost in a merge, and none is added; a
    disagreement still names two. -/
theorem cids_mergeVerifications {w : VerificationResult V} (hv : v.Split) (hw : w.Split) :
    (∀ x, x ∈ (mergeVerifications v w).cids ↔ x ∈ v.cids ∨ x ∈ w.cids) ∧
      (mergeVerifications v w).Split := by
  have hkeys : ∀ x, x ∈ ((Merging.start.add v).add w).nodesByCid.keys
      ↔ x ∈ v.cids ∨ x ∈ w.cids := by
    intro x
    rw [mem_keys_add, mem_keys_add]
    exact or_congr_left (or_iff_right List.not_mem_nil)
  have hwinner : ((Merging.start.add v).add w).winner = v.winner?.or w.winner? := by
    rw [add_winner, add_winner]
    rfl
  rw [mergeVerifications, Merging.result, hwinner]
  split
  · next hmany => exact ⟨hkeys, split_of_size hmany⟩
  · next hfew =>
    -- One address at most was answered, so no side disagrees.
    rw [InsertionMap.size_eq_length_keys, Nat.not_lt] at hfew
    have hone : ∀ x y, (x ∈ v.cids ∨ x ∈ w.cids) → (y ∈ v.cids ∨ y ∈ w.cids) → x = y :=
      fun x y hx hy => eq_of_mem_of_length_le_one hfew ((hkeys x).mpr hx) ((hkeys y).mpr hy)
    split
    · next hnone =>
      refine ⟨fun x => ?_, trivial⟩
      obtain ⟨hnoV, hnoW⟩ := Option.or_eq_none_iff.mp hnone
      have hvnil : v.cids = [] := by
        apply (cids_of_no_winner hnoV hv).resolve_right
        rintro ⟨x, hx, y, hy, hne⟩
        exact hne (hone x y (Or.inl hx) (Or.inl hy))
      have hwnil : w.cids = [] := by
        apply (cids_of_no_winner hnoW hw).resolve_right
        rintro ⟨x, hx, y, hy, hne⟩
        exact hne (hone x y (Or.inr hx) (Or.inr hy))
      rw [hvnil, hwnil, or_self]
      exact Iff.rfl
    · next winner hsome =>
      have hin : winner.resultCid.toText ∈ v.cids ∨ winner.resultCid.toText ∈ w.cids := by
        rcases Option.or_eq_some_iff.mp hsome with h | ⟨-, h⟩
        · exact Or.inl (winner?_cids h)
        · exact Or.inr (winner?_cids h)
      refine ⟨fun x => ?_, trivial⟩
      show x ∈ [winner.resultCid.toText] ↔ _
      rw [List.mem_singleton]
      constructor
      · rintro rfl
        exact hin
      · exact fun hx => hone _ _ hx hin

/-- A merge names nobody that neither side named. -/
theorem agreeingIds_mergeVerifications (v w : VerificationResult V) :
    (mergeVerifications v w).agreeingIds.Sublist (v.agreeingIds ++ w.agreeingIds) := by
  obtain ⟨_, _, _, heq⟩ | ⟨-, -, _, _, heq⟩ | ⟨winner, agreeing, _, _, -, hids, heq⟩ :=
    mergeVerifications_cases v w
  · rw [heq]
    exact List.nil_sublist _
  · rw [heq]
    exact List.nil_sublist _
  · rw [heq, ← hids]
    exact List.Sublist.refl _

end

/-! ## Running a task -/

section

variable {Task V : Type} {canonicalCid : V → Except JsString Cid}

theorem runOne_answer {executor : Executor Task V} {task : Task} {a : Answer V}
    (h : (runOne canonicalCid executor task).answer? = some a) :
    a.nodeId = executor.nodeId ∧ canonicalCid a.output = .ok a.resultCid := by
  rw [runOne] at h
  split at h
  · cases h
  · cases h
  · next output cost attestation _ =>
    split at h
    · cases h
    · next cid hcid =>
      cases h
      exact ⟨rfl, hcid⟩

theorem executeVerified_wellFormed (task : Task) (executors : List (Executor Task V)) :
    (executeVerified canonicalCid task executors).WellFormed canonicalCid := by
  rw [executeVerified]
  split
  · trivial
  · rw [verifyReceipts_eq_compareAnswers]
    apply compareAnswers_wellFormed
    intro a ha
    obtain ⟨receipt, hreceipt, hanswer⟩ := List.mem_filterMap.mp ha
    obtain ⟨executor, -, rfl⟩ := List.mem_map.mp hreceipt
    exact (runOne_answer hanswer).2

/-- Answers that each come from one element of a list, under its name. -/
theorem map_filterMap_sublist {α β : Type} {f : α → Option β} {name : α → JsString}
    {name' : β → JsString} (h : ∀ x y, f x = some y → name' y = name x) (xs : List α) :
    ((xs.filterMap f).map name').Sublist (xs.map name) := by
  induction xs with
  | nil => exact List.Sublist.refl _
  | cons x rest ih =>
    rw [List.filterMap_cons]
    split
    · exact ih.cons _
    · next y hy =>
      rw [List.map_cons, List.map_cons, h x y hy]
      exact ih.cons_cons _

/-- What each executor answered with, and nothing else, is compared. -/
theorem mem_cids_executeVerified (task : Task) (executors : List (Executor Task V))
    {x : JsString} : x ∈ (executeVerified canonicalCid task executors).cids
      ↔ ∃ executor ∈ executors, ∃ a, runOne canonicalCid executor task = .answered a ∧
        a.resultCid.toText = x := by
  rw [executeVerified]
  split
  · next hnone =>
    rw [hnone]
    show x ∈ [] ↔ _
    constructor
    · exact fun h => absurd h List.not_mem_nil
    · rintro ⟨_, h, -⟩
      exact absurd h List.not_mem_nil
  · rw [verifyReceipts_eq_compareAnswers, mem_cids_compareAnswers, List.mem_map]
    constructor
    · rintro ⟨a, ha, rfl⟩
      obtain ⟨executor, hexecutor, hrun⟩ := List.mem_map.mp (mem_answers.mp ha)
      exact ⟨executor, hexecutor, a, hrun, rfl⟩
    · rintro ⟨executor, hexecutor, a, hrun, rfl⟩
      exact ⟨a, mem_answers.mpr (List.mem_map.mpr ⟨executor, hexecutor, hrun⟩), rfl⟩

theorem executeVerified_split (task : Task) (executors : List (Executor Task V)) :
    (executeVerified canonicalCid task executors).Split := by
  rw [executeVerified]
  split
  · trivial
  · exact compareAnswers_split _ _ _

theorem agreeingIds_executeVerified (task : Task) (executors : List (Executor Task V)) :
    (executeVerified canonicalCid task executors).agreeingIds.Sublist
      (executors.map Executor.nodeId) := by
  rw [executeVerified]
  split
  · exact List.nil_sublist _
  · rw [verifyReceipts_eq_compareAnswers]
    refine (agreeingIds_compareAnswers _ _ _).trans ?_
    rw [List.filterMap_map]
    exact map_filterMap_sublist (fun executor a h => (runOne_answer h).1) executors

end

section

variable {p : Platform} {task : Task}

theorem revealOne_answer {entry : Committed} {a : Answer CanonicalValue}
    (h : (revealOne p task entry).answer? = some a) :
    a.nodeId = entry.executor.nodeId ∧ p.canonicalCid a.output = .ok a.resultCid := by
  rw [revealOne] at h
  split at h
  · cases h
  · cases h
  · split at h
    · cases h
    · next cid hcid =>
      split at h
      · cases h
      · cases h
        exact ⟨rfl, hcid⟩

theorem commitOne_committed {executor : CommittingExecutor} {entry : Committed}
    (h : (commitOne task executor).toOption = some entry) : entry.executor = executor := by
  rw [commitOne] at h
  split at h
  · cases h
  · cases h
  · cases h
    rfl

theorem executeCommitReveal_wellFormed (committers : List CommittingExecutor) :
    (executeCommitReveal p task committers).WellFormed p.canonicalCid := by
  unfold executeCommitReveal
  split
  · trivial
  · dsimp only
    split
    · trivial
    · apply compareAnswers_wellFormed
      intro a ha
      obtain ⟨receipt, hreceipt, hanswer⟩ := List.mem_filterMap.mp ha
      obtain ⟨entry, -, rfl⟩ := List.mem_map.mp hreceipt
      exact (revealOne_answer hanswer).2

/-- What was revealed under its commitment, and nothing else, is compared. -/
theorem mem_cids_executeCommitReveal {committers : List CommittingExecutor}
    (henough : MIN_CEREMONY_REPLICAS ≤ committers.length) {x : JsString} :
    x ∈ (executeCommitReveal p task committers).cids
      ↔ ∃ executor ∈ committers, ∃ entry, commitOne task executor = .ok entry ∧
        ∃ a, revealOne p task entry = .answered a ∧ a.resultCid.toText = x := by
  have hcommitted : ∀ entry, entry ∈ (committers.map (commitOne task)).filterMap Except.toOption
      ↔ ∃ executor ∈ committers, commitOne task executor = .ok entry := by
    intro entry
    simp only [List.mem_filterMap, List.mem_map]
    constructor
    · rintro ⟨_, ⟨executor, hexecutor, rfl⟩, hentry⟩
      refine ⟨executor, hexecutor, ?_⟩
      cases hcommit : commitOne task executor with
      | error => rw [hcommit] at hentry; cases hentry
      | ok entry' => rw [hcommit] at hentry; cases hentry; rfl
    · rintro ⟨executor, hexecutor, hcommit⟩
      exact ⟨_, ⟨executor, hexecutor, rfl⟩, by rw [hcommit]; rfl⟩
  rw [executeCommitReveal, if_neg (by omega)]
  dsimp only
  split
  · next hnone =>
    show x ∈ [] ↔ _
    constructor
    · exact fun h => absurd h List.not_mem_nil
    · rintro ⟨executor, hexecutor, entry, hcommit, -⟩
      have hin := (hcommitted entry).mpr ⟨executor, hexecutor, hcommit⟩
      rw [hnone] at hin
      exact absurd hin List.not_mem_nil
  · rw [mem_cids_compareAnswers, List.mem_map]
    constructor
    · rintro ⟨a, ha, rfl⟩
      obtain ⟨entry, hentry, hreveal⟩ := List.mem_map.mp (mem_answers.mp ha)
      obtain ⟨executor, hexecutor, hcommit⟩ := (hcommitted entry).mp hentry
      exact ⟨executor, hexecutor, entry, hcommit, a, hreveal, rfl⟩
    · rintro ⟨executor, hexecutor, entry, hcommit, a, hreveal, rfl⟩
      have hentry := (hcommitted entry).mpr ⟨executor, hexecutor, hcommit⟩
      exact ⟨a, mem_answers.mpr (List.mem_map.mpr ⟨entry, hentry, hreveal⟩), rfl⟩

theorem executeCommitReveal_split (committers : List CommittingExecutor) :
    (executeCommitReveal p task committers).Split := by
  unfold executeCommitReveal
  split
  · trivial
  · dsimp only
    split
    · trivial
    · exact compareAnswers_split _ _ _

theorem agreeingIds_executeCommitReveal (committers : List CommittingExecutor) :
    (executeCommitReveal p task committers).agreeingIds.Sublist
      (committers.map CommittingExecutor.nodeId) := by
  unfold executeCommitReveal
  split
  · exact List.nil_sublist _
  · dsimp only
    split
    · exact List.nil_sublist _
    · refine (agreeingIds_compareAnswers _ _ _).trans ?_
      rw [List.filterMap_map]
      refine (map_filterMap_sublist (fun entry a h => (revealOne_answer h).1) _).trans ?_
      rw [List.filterMap_map]
      apply map_filterMap_sublist
      intro executor entry h
      rw [commitOne_committed h]

end

end O2Fabric.Job
