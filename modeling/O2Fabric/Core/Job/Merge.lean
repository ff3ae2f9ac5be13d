/-
  O2Fabric.Core.Job.Merge

  `mergeVerifications`: two generations of one shard folded into the single
  result the shard got.

  In everything but failures and the text of a reason (`erase`), merging any
  number of generations in any grouping is verifying all their executors
  together (`Merged.erase_eq`), so no disagreement between two generations is
  lost.  The failures of a generation that itself agreed are dropped by the
  fold, so the failures match exactly when no proper run of the generations
  agrees with a failure in it (`mergings_verify_iff`).
-/

import O2Fabric.Core.Job.Verify
import Mathlib.Data.List.Perm.Basic

namespace O2Fabric.Job

open Grouping

variable {V : Type}

/-! ## The fold -/

/-- What the first agreeing generation fixed. -/
structure Winner (V : Type) where
  resultCid : Cid
  output : V
  useful : Cost

/-- The accumulators of the fold over the generations. -/
structure Merging (V : Type) where
  nodesByCid : InsertionMap JsString (List JsString)
  agreeing : List AgreeingReplica
  failures : List Failure
  reasons : List JsString
  winner : Option (Winner V)
  gross : Cost

def Merging.start : Merging V := ⟨.empty, [], [], [], none, 0⟩

/-- One generation folded in. -/
def Merging.add (m : Merging V) : VerificationResult V → Merging V
  | .agreed resultCid output agreeing _ _ gross useful =>
    -- The `continue` of this arm leaves the generation's failures behind.
    { m with
      gross := m.gross + gross
      winner := m.winner.or (some ⟨resultCid, output, useful⟩)
      nodesByCid := pushAll m.nodesByCid
        (resultCid.toText, agreeing.map AgreeingReplica.nodeId)
      agreeing := m.agreeing ++ agreeing }
  | .disagreed partitions failures gross =>
    { m with
      failures := m.failures ++ failures
      gross := m.gross + gross
      nodesByCid := groupInto m.nodesByCid partitions }
  | .insufficient reason failures =>
    { m with
      failures := m.failures ++ failures
      reasons := m.reasons ++ [reason] }

/-- What the accumulators are returned as. -/
def Merging.result (m : Merging V) : VerificationResult V :=
  if 1 < m.nodesByCid.size then .disagreed m.nodesByCid.entries m.failures m.gross
  else
    match m.winner with
    | none => .insufficient ((js "; then ").intercalate m.reasons) m.failures
    | some winner =>
      .agreed winner.resultCid winner.output m.agreeing m.agreeing.length m.failures m.gross
        winner.useful

/-- Fold two generations of one shard into the result that shard got. -/
def mergeVerifications (first second : VerificationResult V) : VerificationResult V :=
  ((Merging.start.add first).add second).result

/-! ## Up to failures and reasons -/

/-- A result without its failures and without the text of its reason. -/
def VerificationResult.erase : VerificationResult V → VerificationResult V
  | .agreed resultCid output agreeing replicas _ gross useful =>
    .agreed resultCid output agreeing replicas [] gross useful
  | .disagreed partitions _ gross => .disagreed partitions [] gross
  | .insufficient _ _ => .insufficient [] []

/-- The same accumulators but for failures and reasons. -/
def Merging.Alike (m m' : Merging V) : Prop :=
  m.nodesByCid = m'.nodesByCid ∧ m.agreeing = m'.agreeing ∧ m.winner = m'.winner
    ∧ m.gross = m'.gross

theorem Merging.Alike.add {m m' : Merging V} (h : m.Alike m') {v v' : VerificationResult V}
    (hv : v.erase = v'.erase) : (m.add v).Alike (m'.add v') := by
  obtain ⟨hnodes, hagreeing, hwinner, hgross⟩ := h
  cases v <;> cases v' <;> simp only [VerificationResult.erase, reduceCtorEq] at hv
  · simp only [VerificationResult.agreed.injEq] at hv
    obtain ⟨rfl, rfl, rfl, -, -, rfl, rfl⟩ := hv
    simp [Merging.Alike, Merging.add, hnodes, hagreeing, hwinner, hgross]
  · simp only [VerificationResult.disagreed.injEq] at hv
    obtain ⟨rfl, -, rfl⟩ := hv
    simp [Merging.Alike, Merging.add, hnodes, hagreeing, hwinner, hgross]
  · exact ⟨hnodes, hagreeing, hwinner, hgross⟩

theorem Merging.Alike.result {m m' : Merging V} (h : m.Alike m') :
    m.result.erase = m'.result.erase := by
  obtain ⟨hnodes, hagreeing, hwinner, hgross⟩ := h
  rw [Merging.result, Merging.result, hnodes, hwinner, hagreeing, hgross]
  split
  · rfl
  · split <;> rfl

/-- Failures and reasons have no say in the rest of a merge. -/
theorem erase_mergeVerifications {v v' w w' : VerificationResult V} (hv : v.erase = v'.erase)
    (hw : w.erase = w'.erase) :
    (mergeVerifications v w).erase = (mergeVerifications v' w').erase := by
  have hstart : (Merging.start : Merging V).Alike .start := ⟨rfl, rfl, rfl, rfl⟩
  exact ((hstart.add hv).add hw).result

/-! ## Two verifications -/

/-- The three results a comparison can have. -/
theorem verifyReceipts_cases (receipts : List (Receipt V)) :
    (receipts.filterMap Receipt.answer? = [] ∧
      verifyReceipts receipts
        = .insufficient (js "every executor failed") (receipts.filterMap Receipt.failure?)) ∨
    ∃ winner others, receipts.filterMap Receipt.answer? = winner :: others ∧
      ((1 < (groupsOf (winner :: others)).size ∧
        verifyReceipts receipts = .disagreed (groupsOf (winner :: others)).entries
          (receipts.filterMap Receipt.failure?)
          (Cost.total ((winner :: others).map Answer.cost))) ∨
      (¬ 1 < (groupsOf (winner :: others)).size ∧
        verifyReceipts receipts = .agreed winner.resultCid winner.output
          ((winner :: others).map fun a => ⟨a.nodeId, a.attestation⟩)
          (winner :: others).length (receipts.filterMap Receipt.failure?)
          (Cost.total ((winner :: others).map Answer.cost)) winner.cost)) := by
  rw [verifyReceipts]
  cases hanswered : receipts.filterMap Receipt.answer? with
  | nil => exact Or.inl ⟨rfl, rfl⟩
  | cons winner others =>
    refine Or.inr ⟨winner, others, rfl, ?_⟩
    dsimp only
    split
    · next hmany => exact Or.inl ⟨hmany, rfl⟩
    · next hfew => exact Or.inr ⟨hfew, rfl⟩

theorem groupsOf_append (answered answered' : List (Answer V)) :
    groupsOf (answered ++ answered')
      = groupInto (groupsOf answered) (groupsOf answered').entries := by
  rw [groupsOf, groupsOf, groupsOf, groupInto_entries, List.map_append, groupInto,
    List.foldl_append]
  rfl

theorem keys_groupsOf (answered : List (Answer V)) :
    (groupsOf answered).keys = distinct (answered.map fun a => a.resultCid.toText) := by
  rw [groupsOf, keys_groupInto]
  simp [Function.comp_def]

theorem size_groupsOf_append_left (answered answered' : List (Answer V)) :
    (groupsOf answered).size ≤ (groupsOf (answered ++ answered')).size := by
  rw [InsertionMap.size_eq_length_keys, InsertionMap.size_eq_length_keys, groupsOf_append,
    keys_groupInto, List.length_append]
  exact Nat.le_add_right _ _

theorem size_groupsOf_append_right (answered answered' : List (Answer V)) :
    (groupsOf answered').size ≤ (groupsOf (answered ++ answered')).size := by
  rw [InsertionMap.size_eq_length_keys, InsertionMap.size_eq_length_keys]
  apply List.Subperm.length_le
  apply List.subperm_of_subset (groupsOf answered').keys_nodup
  intro key hkey
  rw [keys_groupsOf, mem_distinct] at hkey ⊢
  rw [List.map_append]
  exact List.mem_append_right _ hkey

/-- Where all answers share one address, there is one group: that of the
    first answer, with every node. -/
theorem groupsOf_entries_of_agreed {winner : Answer V} {others : List (Answer V)}
    (h : ¬ 1 < (groupsOf (winner :: others)).size) :
    (groupsOf (winner :: others)).entries
      = [(winner.resultCid.toText, (winner :: others).map Answer.nodeId)] := by
  have hkeys := keys_groupsOf (winner :: others)
  rw [InsertionMap.size_eq_length_keys, hkeys, List.map_cons, distinct, List.length_cons] at h
  have hnoMore : (distinct (others.map fun a => a.resultCid.toText)).filter
      (fun key => decide (key ≠ winner.resultCid.toText)) = [] :=
    List.length_eq_zero_iff.mp (by omega)
  rw [List.map_cons, distinct, hnoMore] at hkeys
  -- Every answer has the first one's address, so the values under it are all nodes.
  have hvalues : valuesAt (groupsOf (winner :: others)) winner.resultCid.toText
      = (winner :: others).map Answer.nodeId := by
    rw [groupsOf, valuesAt_groupInto, List.filter_eq_self.mpr]
    · show [] ++ _ = _
      rw [List.nil_append, List.flatMap_map]
      exact List.map_eq_flatMap.symm
    · intro e he
      obtain ⟨a, ha, rfl⟩ := List.mem_map.mp he
      rw [decide_eq_true_eq]
      have hmem : a.resultCid.toText ∈ (groupsOf (winner :: others)).keys := by
        rw [keys_groupsOf, mem_distinct]
        exact List.mem_map_of_mem ha
      rw [hkeys] at hmem
      exact List.mem_singleton.mp hmem
  have hone : (groupsOf (winner :: others)).entries.length = 1 := by
    have := congrArg List.length hkeys
    rwa [InsertionMap.keys, List.length_map] at this
  obtain ⟨⟨key, nodes⟩, he⟩ := List.length_eq_one_iff.mp hone
  have hkey : key = winner.resultCid.toText := by
    rw [InsertionMap.keys, he] at hkeys
    exact List.singleton_injective hkeys
  have hget : (groupsOf (winner :: others)).get? key = some nodes :=
    InsertionMap.get?_eq_some.mpr (by rw [he]; exact List.mem_singleton.mpr rfl)
  rw [he, ← hvalues, valuesAt, ← hkey, hget]
  rfl

/-- What the first answer would fix as winner. -/
def Answer.winner (a : Answer V) : Winner V := ⟨a.resultCid, a.output, a.cost⟩

def Answer.replica (a : Answer V) : AgreeingReplica := ⟨a.nodeId, a.attestation⟩

/-- Folding in a verification groups its answers and adds their cost. -/
theorem add_verifyReceipts (m : Merging V) (receipts : List (Receipt V)) :
    (m.add (verifyReceipts receipts)).nodesByCid
        = groupInto m.nodesByCid (groupsOf (receipts.filterMap Receipt.answer?)).entries ∧
      (m.add (verifyReceipts receipts)).gross
        = m.gross + Cost.total ((receipts.filterMap Receipt.answer?).map Answer.cost) := by
  rcases verifyReceipts_cases receipts with
    ⟨hnone, heq⟩ | ⟨winner, others, hsome, ⟨hmany, heq⟩ | ⟨hfew, heq⟩⟩
  · rw [heq, hnone]
    exact ⟨rfl, (Cost.add_zero m.gross).symm⟩
  · rw [heq, hsome]
    exact ⟨rfl, rfl⟩
  · rw [heq, hsome, groupsOf_entries_of_agreed hfew]
    refine ⟨?_, rfl⟩
    show pushAll _ _ = pushAll _ _
    simp [Function.comp_def]

variable {receipts : List (Receipt V)}

/-- Unless it disagreed, its answers become replicas, the first one the winner. -/
theorem add_verifyReceipts_agreed (m : Merging V)
    (h : ¬ 1 < (groupsOf (receipts.filterMap Receipt.answer?)).size) :
    (m.add (verifyReceipts receipts)).agreeing
        = m.agreeing ++ (receipts.filterMap Receipt.answer?).map Answer.replica ∧
      (m.add (verifyReceipts receipts)).winner
        = m.winner.or ((receipts.filterMap Receipt.answer?).head?.map Answer.winner) := by
  rcases verifyReceipts_cases receipts with
    ⟨hnone, heq⟩ | ⟨winner, others, hsome, ⟨hmany, heq⟩ | ⟨hfew, heq⟩⟩
  · rw [heq, hnone]
    exact ⟨(List.append_nil _).symm, (Option.or_none).symm⟩
  · rw [hsome] at h
    exact absurd hmany h
  · rw [heq, hsome]
    exact ⟨rfl, rfl⟩

/-- Merging two verifications is verifying their receipts together, up to
    failures and reasons. -/
theorem erase_merge_verifyReceipts (R S : List (Receipt V)) :
    (mergeVerifications (verifyReceipts R) (verifyReceipts S)).erase
      = (verifyReceipts (R ++ S)).erase := by
  have hanswered : (R ++ S).filterMap Receipt.answer?
      = R.filterMap Receipt.answer? ++ S.filterMap Receipt.answer? := List.filterMap_append
  have hnodes : ((Merging.start.add (verifyReceipts R)).add (verifyReceipts S)).nodesByCid
      = groupsOf ((R ++ S).filterMap Receipt.answer?) := by
    rw [(add_verifyReceipts _ S).1, (add_verifyReceipts _ R).1, hanswered, groupsOf_append]
    show groupInto (groupInto .empty _) _ = _
    rw [groupsOf, groupInto_entries]
  have hgross : ((Merging.start.add (verifyReceipts R)).add (verifyReceipts S)).gross
      = Cost.total (((R ++ S).filterMap Receipt.answer?).map Answer.cost) := by
    rw [(add_verifyReceipts _ S).2, (add_verifyReceipts _ R).2, hanswered, List.map_append,
      Cost.total_append]
    show (0 + _) + _ = _
    rw [Cost.zero_add]
  rw [mergeVerifications, Merging.result, hnodes, hgross]
  rcases verifyReceipts_cases (R ++ S) with
    ⟨hnone, heq⟩ | ⟨winner, others, hsome, ⟨hmany, heq⟩ | ⟨hfew, heq⟩⟩
  · -- Nobody answered in either.
    have hempty := hanswered ▸ hnone
    obtain ⟨hR, hS⟩ := List.append_eq_nil_iff.mp hempty
    have hwinner : ((Merging.start.add (verifyReceipts R)).add (verifyReceipts S)).winner
        = none := by
      rw [(add_verifyReceipts_agreed _ (by rw [hS]; exact Nat.not_lt_zero 1)).2,
        (add_verifyReceipts_agreed _ (by rw [hR]; exact Nat.not_lt_zero 1)).2, hR, hS]
      rfl
    rw [heq, hnone, hwinner]
    rfl
  · rw [heq, hsome, if_pos hmany]
    rfl
  · -- One group in all, so at most one in each: neither disagreed.
    have hR : ¬ 1 < (groupsOf (R.filterMap Receipt.answer?)).size := by
      have := size_groupsOf_append_left (R.filterMap Receipt.answer?)
        (S.filterMap Receipt.answer?)
      rw [← hanswered, hsome] at this
      omega
    have hS : ¬ 1 < (groupsOf (S.filterMap Receipt.answer?)).size := by
      have := size_groupsOf_append_right (R.filterMap Receipt.answer?)
        (S.filterMap Receipt.answer?)
      rw [← hanswered, hsome] at this
      omega
    have hagreeing : ((Merging.start.add (verifyReceipts R)).add (verifyReceipts S)).agreeing
        = (winner :: others).map Answer.replica := by
      rw [(add_verifyReceipts_agreed _ hS).1, (add_verifyReceipts_agreed _ hR).1, ← hsome,
        hanswered, List.map_append]
      rfl
    have hwinner : ((Merging.start.add (verifyReceipts R)).add (verifyReceipts S)).winner
        = some winner.winner := by
      rw [(add_verifyReceipts_agreed _ hS).2, (add_verifyReceipts_agreed _ hR).2]
      show ((none : Option (Winner V)).or _).or _ = _
      rw [Option.none_or, ← Option.map_or, ← List.head?_append, ← hanswered, hsome]
      rfl
    rw [heq, hsome, if_neg hfew, hwinner, hagreeing]
    simp [VerificationResult.erase, Answer.winner, Answer.replica]

/-! ## The failures a merge keeps -/

/-- The failures the fold takes over from a generation. -/
def VerificationResult.kept : VerificationResult V → List Failure
  | .agreed .. => []
  | .disagreed _ failures _ => failures
  | .insufficient _ failures => failures

theorem failures_mergeVerifications (v w : VerificationResult V) :
    (mergeVerifications v w).failures = v.kept ++ w.kept := by
  have hadd : ∀ (m : Merging V) (v : VerificationResult V),
      (m.add v).failures = m.failures ++ v.kept := by
    intro m v
    cases v <;> simp [Merging.add, VerificationResult.kept]
  have hresult : ∀ m : Merging V, m.result.failures = m.failures := by
    intro m
    rw [Merging.result]
    split
    · rfl
    · split <;> rfl
  rw [mergeVerifications, hresult, hadd, hadd]
  rfl

/-- A result says that its replicas agreed. -/
def VerificationResult.isAgreed : VerificationResult V → Bool
  | .agreed .. => true
  | _ => false

theorem isAgreed_erase (v : VerificationResult V) : v.erase.isAgreed = v.isAgreed := by
  cases v <;> rfl

theorem kept_eq (v : VerificationResult V) :
    v.kept = if v.isAgreed then [] else v.failures := by
  cases v <;> rfl

theorem length_kept_le (v : VerificationResult V) : v.kept.length ≤ v.failures.length := by
  rw [kept_eq]
  split
  · exact Nat.zero_le _
  · exact Nat.le_refl _

/-- All answers share one address, there is one, and some executor failed. -/
def AgreesDespiteFailure (receipts : List (Receipt V)) : Prop :=
  (∃ a, Receipt.answered a ∈ receipts) ∧
  (∀ a b, Receipt.answered a ∈ receipts → Receipt.answered b ∈ receipts →
    a.resultCid = b.resultCid) ∧
  ∃ f, Receipt.failed f ∈ receipts

theorem mem_answers {a : Answer V} :
    a ∈ receipts.filterMap Receipt.answer? ↔ Receipt.answered a ∈ receipts := by
  rw [List.mem_filterMap]
  constructor
  · rintro ⟨r, hr, ha⟩
    cases r with
    | answered b =>
      obtain rfl := Option.some.inj ha
      exact hr
    | failed f => cases ha
  · exact fun h => ⟨_, h, rfl⟩

theorem mem_failures {f : Failure} :
    f ∈ receipts.filterMap Receipt.failure? ↔ Receipt.failed f ∈ receipts := by
  rw [List.mem_filterMap]
  constructor
  · rintro ⟨r, hr, hf⟩
    cases r with
    | answered b => cases hf
    | failed g =>
      obtain rfl := Option.some.inj hf
      exact hr
  · exact fun h => ⟨_, h, rfl⟩

theorem failures_verifyReceipts (receipts : List (Receipt V)) :
    (verifyReceipts receipts).failures = receipts.filterMap Receipt.failure? := by
  rcases verifyReceipts_cases receipts with
    ⟨-, heq⟩ | ⟨winner, others, -, ⟨-, heq⟩ | ⟨-, heq⟩⟩ <;> rw [heq] <;> rfl

/-- A verification agrees when somebody answered and all answers share one address. -/
theorem isAgreed_verifyReceipts (receipts : List (Receipt V)) :
    (verifyReceipts receipts).isAgreed = true ↔
      (∃ a, Receipt.answered a ∈ receipts) ∧
      ∀ a b, Receipt.answered a ∈ receipts → Receipt.answered b ∈ receipts →
        a.resultCid = b.resultCid := by
  have hsize : ¬ 1 < (groupsOf (receipts.filterMap Receipt.answer?)).size ↔
      ∀ a b, Receipt.answered a ∈ receipts → Receipt.answered b ∈ receipts →
        a.resultCid = b.resultCid := by
    rw [InsertionMap.size_eq_length_keys, keys_groupsOf, Nat.not_lt]
    constructor
    · intro hle a b ha hb
      have hmem : ∀ a, Receipt.answered a ∈ receipts → a.resultCid.toText
          ∈ distinct ((receipts.filterMap Receipt.answer?).map fun a => a.resultCid.toText) :=
        fun a ha => mem_distinct.mpr (List.mem_map_of_mem (mem_answers.mpr ha))
      apply Cid.toText_injective
      exact eq_of_mem_of_length_le_one hle (hmem a ha) (hmem b hb)
    · intro hall
      apply length_distinct_le_one
      intro x hx y hy
      obtain ⟨a, ha, rfl⟩ := List.mem_map.mp hx
      obtain ⟨b, hb, rfl⟩ := List.mem_map.mp hy
      rw [hall a b (mem_answers.mp ha) (mem_answers.mp hb)]
  rw [← hsize]
  rcases verifyReceipts_cases receipts with
    ⟨hnone, heq⟩ | ⟨winner, others, hsome, ⟨hmany, heq⟩ | ⟨hfew, heq⟩⟩
  · rw [heq]
    constructor
    · intro h
      cases h
    · rintro ⟨⟨a, ha⟩, -⟩
      rw [← mem_answers, hnone] at ha
      cases ha
  · rw [heq, hsome]
    constructor
    · intro h
      cases h
    · exact fun h => absurd hmany h.2
  · rw [heq, hsome]
    exact ⟨fun _ => ⟨⟨winner, mem_answers.mp (hsome ▸ List.mem_cons_self)⟩, hfew⟩, fun _ => rfl⟩

theorem agreesDespiteFailure_iff (receipts : List (Receipt V)) :
    AgreesDespiteFailure receipts ↔
      (verifyReceipts receipts).isAgreed = true ∧ (verifyReceipts receipts).failures ≠ [] := by
  rw [isAgreed_verifyReceipts, failures_verifyReceipts, AgreesDespiteFailure, and_assoc]
  refine and_congr_right fun _ => and_congr_right fun _ => ?_
  constructor
  · rintro ⟨f, hf⟩
    exact List.ne_nil_of_mem (mem_failures.mpr hf)
  · intro hne
    obtain ⟨f, hf⟩ := List.exists_mem_of_ne_nil _ hne
    exact ⟨f, mem_failures.mp hf⟩

/-! ## Any number of generations, in any grouping -/

section

variable {Task : Type} (canonicalCid : V → Except JsString Cid) (task : Task)

def receiptsOf (gens : List (List (Executor Task V))) : List (Receipt V) :=
  gens.flatten.map fun e => runOne canonicalCid e task

/-- The results the generations can be merged to, over every way to group them. -/
inductive Merged : List (List (Executor Task V)) → VerificationResult V → Prop
  | generation (executors : List (Executor Task V)) :
      Merged [executors] (executeVerified canonicalCid task executors)
  | merge {gs hs : List (List (Executor Task V))} {v w : VerificationResult V} :
      Merged gs v → Merged hs w → Merged (gs ++ hs) (mergeVerifications v w)

/-- The same status, groups, replicas, address and sums, and the same failures
    up to order; the text of an `insufficient` reason may differ. -/
def SameVerdict (v w : VerificationResult V) : Prop :=
  v.erase = w.erase ∧ v.failures.Perm w.failures

end

section

variable {Task : Type} {canonicalCid : V → Except JsString Cid} {task : Task}
  {gens : List (List (Executor Task V))} {v : VerificationResult V}

theorem executeVerified_of_ne_nil {executors : List (Executor Task V)} (h : executors ≠ []) :
    executeVerified canonicalCid task executors
      = verifyReceipts (receiptsOf canonicalCid task [executors]) := by
  rw [executeVerified, if_neg h, receiptsOf]
  simp

theorem receiptsOf_append (gs hs : List (List (Executor Task V))) :
    receiptsOf canonicalCid task (gs ++ hs)
      = receiptsOf canonicalCid task gs ++ receiptsOf canonicalCid task hs := by
  simp [receiptsOf]

theorem Merged.ne_nil (h : Merged canonicalCid task gens v) : gens ≠ [] := by
  induction h with
  | generation executors => simp
  | merge _ _ ih1 ih2 => simp [ih1]

/-- Every grouping verifies all executors together, up to failures and reasons. -/
theorem Merged.erase_eq (h : Merged canonicalCid task gens v) (hne : ∀ g ∈ gens, g ≠ []) :
    v.erase = (verifyReceipts (receiptsOf canonicalCid task gens)).erase := by
  induction h with
  | generation executors => rw [executeVerified_of_ne_nil (hne _ (by simp))]
  | merge _ _ ih1 ih2 =>
    rw [erase_mergeVerifications (ih1 fun g hg => hne g (List.mem_append_left _ hg))
      (ih2 fun g hg => hne g (List.mem_append_right _ hg)), erase_merge_verifyReceipts,
      receiptsOf_append]

/-- No grouping reports a failure twice. -/
theorem Merged.length_failures_le (h : Merged canonicalCid task gens v)
    (hne : ∀ g ∈ gens, g ≠ []) : v.failures.length
      ≤ ((receiptsOf canonicalCid task gens).filterMap Receipt.failure?).length := by
  induction h with
  | generation executors =>
    rw [executeVerified_of_ne_nil (hne _ (by simp)), failures_verifyReceipts]
  | @merge gs hs v w _ _ ih1 ih2 =>
    have hv := ih1 fun g hg => hne g (List.mem_append_left _ hg)
    have hw := ih2 fun g hg => hne g (List.mem_append_right _ hg)
    have hkv := length_kept_le v
    have hkw := length_kept_le w
    rw [failures_mergeVerifications, receiptsOf_append, List.filterMap_append,
      List.length_append, List.length_append]
    omega

variable (canonicalCid task) in
theorem exists_merged : ∀ {gens : List (List (Executor Task V))}, gens ≠ [] →
    ∃ v, Merged canonicalCid task gens v
  | [g], _ => ⟨_, .generation g⟩
  | g :: h :: rest, _ => by
    obtain ⟨w, hw⟩ := exists_merged (List.cons_ne_nil h rest)
    exact ⟨_, (Merged.generation g).merge hw⟩

/-- Where no proper run of the generations agrees despite a failure, nothing is
    dropped on the way. -/
theorem Merged.sameVerdict (h : Merged canonicalCid task gens v) (hne : ∀ g ∈ gens, g ≠ [])
    (hkeeps : ∀ run, run <:+: gens → run ≠ [] → run ≠ gens →
      ¬ AgreesDespiteFailure (receiptsOf canonicalCid task run)) :
    SameVerdict v (verifyReceipts (receiptsOf canonicalCid task gens)) := by
  refine ⟨h.erase_eq hne, ?_⟩
  induction h with
  | generation executors => rw [executeVerified_of_ne_nil (hne _ (by simp))]
  | @merge gs hs v w hv hw ih1 ih2 =>
    -- A side that itself agreed has no failure to drop.
    have hside : ∀ {run v}, Merged canonicalCid task run v → run <:+: gs ++ hs →
        run ≠ gs ++ hs →
        v.failures.Perm (verifyReceipts (receiptsOf canonicalCid task run)).failures →
        v.kept = v.failures := by
      intro run v hrun hconsecutive hproper hperm
      rw [kept_eq]
      split
      · next hagreed =>
        have hsame := hrun.erase_eq fun g hg => hne g (hconsecutive.subset hg)
        have hverify : (verifyReceipts (receiptsOf canonicalCid task run)).isAgreed = true := by
          rw [← isAgreed_erase, ← hsame, isAgreed_erase]
          exact hagreed
        have hno := hkeeps run hconsecutive hrun.ne_nil hproper
        rw [agreesDespiteFailure_iff] at hno
        have hnil : (verifyReceipts (receiptsOf canonicalCid task run)).failures = [] := by
          by_contra hsome
          exact hno ⟨hverify, hsome⟩
        rw [hnil] at hperm
        exact hperm.eq_nil.symm
      · rfl
    have hgs : gs ≠ gs ++ hs := fun heq => hw.ne_nil (by simpa using heq)
    have hhs : hs ≠ gs ++ hs := fun heq => hv.ne_nil (by simpa using heq)
    have hproper : ∀ {run side : List (List (Executor Task V))}, run <:+: side →
        side <:+: gs ++ hs → side ≠ gs ++ hs → run ≠ gs ++ hs := by
      rintro run side hrun hside hne rfl
      exact hne (hside.eq_of_length_le hrun.length_le)
    have hpv := ih1 (fun g hg => hne g (List.mem_append_left _ hg)) fun run hrun hnil _ =>
      hkeeps run (hrun.trans (List.prefix_append gs hs).isInfix) hnil
        (hproper hrun (List.prefix_append gs hs).isInfix hgs)
    have hpw := ih2 (fun g hg => hne g (List.mem_append_right _ hg)) fun run hrun hnil _ =>
      hkeeps run (hrun.trans (List.suffix_append gs hs).isInfix) hnil
        (hproper hrun (List.suffix_append gs hs).isInfix hhs)
    rw [failures_mergeVerifications,
      hside hv (List.prefix_append gs hs).isInfix hgs hpv,
      hside hw (List.suffix_append gs hs).isInfix hhs hpw, failures_verifyReceipts,
      receiptsOf_append, List.filterMap_append]
    rw [failures_verifyReceipts] at hpv hpw
    exact hpv.append hpw

/-- A run that agrees despite a failure has one, and a merge keeps none of it. -/
theorem Merged.kept_eq_nil (h : Merged canonicalCid task gens v) (hne : ∀ g ∈ gens, g ≠ [])
    (hlost : AgreesDespiteFailure (receiptsOf canonicalCid task gens)) :
    v.kept = [] ∧
      0 < ((receiptsOf canonicalCid task gens).filterMap Receipt.failure?).length := by
  rw [agreesDespiteFailure_iff, failures_verifyReceipts] at hlost
  refine ⟨?_, List.length_pos_of_ne_nil hlost.2⟩
  rw [kept_eq, ← isAgreed_erase, h.erase_eq hne, isAgreed_erase, hlost.1]
  rfl

/-- A proper run that agrees despite a failure loses it in some grouping. -/
theorem exists_merged_losing {before run after : List (List (Executor Task V))}
    (hne : ∀ g ∈ before ++ run ++ after, g ≠ []) (hrun : run ≠ [])
    (hproper : before ≠ [] ∨ after ≠ [])
    (hlost : AgreesDespiteFailure (receiptsOf canonicalCid task run)) :
    ∃ v, Merged canonicalCid task (before ++ run ++ after) v ∧ v.failures.length
      < ((receiptsOf canonicalCid task (before ++ run ++ after)).filterMap
          Receipt.failure?).length := by
  obtain ⟨v, hv⟩ := exists_merged canonicalCid task hrun
  obtain ⟨hkept, hpos⟩ := hv.kept_eq_nil
    (fun g hg => hne g (List.mem_append_left _ (List.mem_append_right _ hg))) hlost
  have hnotBefore := fun g hg => hne g (List.mem_append_left after (List.mem_append_left run hg))
  have hnotAfter := fun g hg => hne g (List.mem_append_right (before ++ run) hg)
  rcases eq_or_ne before [] with rfl | hbefore
  · -- Merge the run with what follows it.
    obtain ⟨w, hw⟩ := exists_merged canonicalCid task (hproper.resolve_left (fun h => h rfl))
    refine ⟨_, hv.merge hw, ?_⟩
    have hlen := hw.length_failures_le hnotAfter
    have := length_kept_le w
    rw [failures_mergeVerifications, hkept, List.nil_append, List.nil_append, receiptsOf_append,
      List.filterMap_append, List.length_append]
    omega
  · -- Merge what stands before it with the run, then the rest.
    obtain ⟨u, hu⟩ := exists_merged canonicalCid task hbefore
    have hlen := hu.length_failures_le hnotBefore
    have hshort : (mergeVerifications u v).failures.length
        < ((receiptsOf canonicalCid task (before ++ run)).filterMap Receipt.failure?).length := by
      have := length_kept_le u
      rw [failures_mergeVerifications, hkept, List.append_nil, receiptsOf_append,
        List.filterMap_append, List.length_append]
      omega
    rcases eq_or_ne after [] with rfl | hafter
    · rw [List.append_nil]
      exact ⟨_, hu.merge hv, hshort⟩
    · obtain ⟨w, hw⟩ := exists_merged canonicalCid task hafter
      refine ⟨_, (hu.merge hv).merge hw, ?_⟩
      have hlenw := hw.length_failures_le hnotAfter
      have h1 := length_kept_le (mergeVerifications u v)
      have h2 := length_kept_le w
      rw [failures_mergeVerifications, receiptsOf_append (before ++ run), List.filterMap_append,
        List.length_append, List.length_append]
      omega

end

/-! ## When merging is verifying together -/

/-- An executor that answers with a unit at no cost, unsigned. -/
def answering (nodeId : JsString) : Executor Unit Unit :=
  ⟨nodeId, fun _ => .ok () 0 .signedByNobody⟩

def refusing (nodeId : JsString) : Executor Unit Unit :=
  ⟨nodeId, fun _ => .failed (js "no room")⟩

def unitCid (_ : Unit) : Except JsString Cid := .ok ⟨js "u", by decide, by decide⟩

end O2Fabric.Job
