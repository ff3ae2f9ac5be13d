/-
  O2Fabric.Core.Job.CommitReveal

  `executeCommitReveal`: every executor first publishes a digest of its answer
  under a nonce, then the answers are revealed and checked against the digests,
  so no executor can copy another's.  Failures to commit come before failures
  to reveal.
-/

import O2Fabric.Core.Job.Verify
import O2Fabric.Core.Sovereignty

namespace O2Fabric.Job

open Grouping

/-- Fewer replicas than this have nobody to copy from. -/
def MIN_CEREMONY_REPLICAS : Nat := 2

/-- One shard of a job, as its executors get it. -/
structure Task where
  moduleCid : Cid
  inputCid : Cid
  partitionIndex : Nat
  partitionCount : Nat
  label : Sovereignty
  ownerId : Option JsString

/-- Four bytes, high byte first. -/
def uint32 (n : Nat) : Bytes :=
  [Fin.ofNat 256 (n / 2 ^ 24), Fin.ofNat 256 (n / 2 ^ 16), Fin.ofNat 256 (n / 2 ^ 8),
    Fin.ofNat 256 n]

def commitmentDigest (p : Platform) (nonce : Bytes) (task : Task) (resultCid : Cid) : JsString :=
  toHex (p.sha256 (nonce ++ p.cidBytes task.moduleCid ++ p.cidBytes task.inputCid
    ++ uint32 task.partitionIndex ++ p.cidBytes resultCid))

inductive CommitOutcome
  | committed (digest handle : JsString)
  | failed (reason : JsString)
  | threw (message : JsString)

inductive RevealOutcome
  | revealed (nonce : Bytes) (output : CanonicalValue) (cost : Cost) (attestation : AttestedResult)
  | failed (reason : JsString)
  | threw (message : JsString)

/-- A node that takes part in a ceremony. -/
structure CommittingExecutor where
  nodeId : JsString
  commit : Task → CommitOutcome
  reveal : JsString → RevealOutcome

structure Committed where
  executor : CommittingExecutor
  digest : JsString
  handle : JsString

def commitOne (task : Task) (executor : CommittingExecutor) : Except Failure Committed :=
  match executor.commit task with
  | .threw message =>
    .error ⟨executor.nodeId, js "commit threw on " ++ executor.nodeId ++ js ": " ++ message⟩
  | .failed reason => .error ⟨executor.nodeId, reason⟩
  | .committed digest handle => .ok ⟨executor, digest, handle⟩

/-- Round two on one executor. -/
def revealOne (p : Platform) (task : Task) (entry : Committed) : Receipt CanonicalValue :=
  match entry.executor.reveal entry.handle with
  | .threw message =>
    .failed ⟨entry.executor.nodeId,
      js "reveal threw on " ++ entry.executor.nodeId ++ js ": " ++ message⟩
  | .failed reason => .failed ⟨entry.executor.nodeId, reason⟩
  | .revealed nonce output cost attestation =>
    match p.canonicalCid output with
    | .error error => .failed ⟨entry.executor.nodeId, js "output not encodable: " ++ error⟩
    | .ok cid =>
      if commitmentDigest p nonce task cid ≠ entry.digest then
        .failed ⟨entry.executor.nodeId,
          js "reveal does not match the commitment " ++ entry.executor.nodeId
            ++ js " published in round 1"⟩
      else .answered ⟨entry.executor.nodeId, cid, output, cost, attestation⟩

/-- The comparison of answers that both ways of running a task end with. -/
def compareAnswers {V : Type} (nobody : JsString) (failures : List Failure)
    (answered : List (Answer V)) : VerificationResult V :=
  match answered with
  | [] => .insufficient nobody failures
  | winner :: _ =>
    if 1 < (groupsOf answered).size then
      .disagreed (groupsOf answered).entries failures (Cost.total (answered.map Answer.cost))
    else
      .agreed winner.resultCid winner.output
        (answered.map fun a => ⟨a.nodeId, a.attestation⟩) answered.length failures
        (Cost.total (answered.map Answer.cost)) winner.cost

theorem verifyReceipts_eq_compareAnswers {V : Type} (receipts : List (Receipt V)) :
    verifyReceipts receipts = compareAnswers (js "every executor failed")
      (receipts.filterMap Receipt.failure?) (receipts.filterMap Receipt.answer?) := rfl

def commitFailure? : Except Failure Committed → Option Failure
  | .error failure => some failure
  | .ok _ => none

/-- Run a task as a ceremony over the executors. -/
def executeCommitReveal (p : Platform) (task : Task) (committers : List CommittingExecutor) :
    VerificationResult CanonicalValue :=
  if committers.length < MIN_CEREMONY_REPLICAS then
    .insufficient
      (js "a commit-reveal ceremony needs at least " ++ decimal MIN_CEREMONY_REPLICAS
        ++ js " executors, " ++ decimal committers.length ++ js " supplied") []
  else
    let round1 := committers.map (commitOne task)
    let commitFailures := round1.filterMap commitFailure?
    let committed := round1.filterMap Except.toOption
    if committed = [] then .insufficient (js "every executor failed to commit") commitFailures
    else
      let round2 := committed.map (revealOne p task)
      compareAnswers (js "no reveal matched its commitment")
        (commitFailures ++ round2.filterMap Receipt.failure?)
        (round2.filterMap Receipt.answer?)

end O2Fabric.Job

/-! # Refines

The ceremony against the one round of `executeVerified`: over replicas that
hold to what they committed to, or fail, the two give one result.

A replica that goes through both rounds gives one receipt, and the ceremony is
the comparison over these receipts; only the order of its failures and the
words for having no answer are its own.  So a replica whose reveal does not
match is one more failure, and nothing else of it is left.
-/

namespace O2Fabric.Job

open Grouping

/-! ## Results but for their words -/

section

variable {V : Type}

/-- A result without its reasons and failures: the status, the groups and the figures. -/
def VerificationResult.compared : VerificationResult V → VerificationResult V
  | .agreed resultCid output agreeing replicas _ gross useful =>
    .agreed resultCid output agreeing replicas [] gross useful
  | .disagreed partitions _ gross => .disagreed partitions [] gross
  | .insufficient _ _ => .insufficient [] []

def VerificationResult.failingIds (v : VerificationResult V) : List JsString :=
  v.failures.map Failure.nodeId

/-- The same comparison, and the same nodes failing, each as often. -/
structure SameResult (v w : VerificationResult V) : Prop where
  compared : v.compared = w.compared
  failing : v.failingIds.Perm w.failingIds

theorem SameResult.trans {u v w : VerificationResult V} (h : SameResult u v)
    (h' : SameResult v w) : SameResult u w :=
  ⟨h.compared.trans h'.compared, h.failing.trans h'.failing⟩

/-- What is compared is the answers alone. -/
theorem compared_compareAnswers (nobody : JsString) (failures : List Failure)
    (answered : List (Answer V)) :
    (compareAnswers nobody failures answered).compared
      = (compareAnswers [] [] answered).compared := by
  unfold compareAnswers
  split
  · rfl
  · split
    · rfl
    · rfl

@[simp] theorem failures_compareAnswers (nobody : JsString) (failures : List Failure)
    (answered : List (Answer V)) :
    (compareAnswers nobody failures answered).failures = failures := by
  unfold compareAnswers
  split
  · rfl
  · split
    · rfl
    · rfl

@[simp] theorem failingIds_verifyReceipts (receipts : List (Receipt V)) :
    (verifyReceipts receipts).failingIds
      = (receipts.filterMap Receipt.failure?).map Failure.nodeId := by
  rw [verifyReceipts_eq_compareAnswers, VerificationResult.failingIds, failures_compareAnswers]

/-- Receipts with the same answers, in order, are compared to the same. -/
theorem compared_verifyReceipts {receipts receipts' : List (Receipt V)}
    (h : receipts.filterMap Receipt.answer? = receipts'.filterMap Receipt.answer?) :
    (verifyReceipts receipts).compared = (verifyReceipts receipts').compared := by
  rw [verifyReceipts_eq_compareAnswers, verifyReceipts_eq_compareAnswers,
    compared_compareAnswers, h, ← compared_compareAnswers]

/-- The same answer, or the failure of the same node. -/
structure Receipt.Same (r r' : Receipt V) : Prop where
  answer : r.answer? = r'.answer?
  failing : r.failure?.map Failure.nodeId = r'.failure?.map Failure.nodeId

theorem verifyReceipts_same {α : Type} {f g : α → Receipt V} {xs : List α}
    (h : ∀ x ∈ xs, (f x).Same (g x)) :
    SameResult (verifyReceipts (xs.map f)) (verifyReceipts (xs.map g)) := by
  constructor
  · apply compared_verifyReceipts
    rw [List.filterMap_map, List.filterMap_map]
    exact List.filterMap_congr fun x hx => (h x hx).answer
  · have hids : ((xs.map f).filterMap Receipt.failure?).map Failure.nodeId
        = ((xs.map g).filterMap Receipt.failure?).map Failure.nodeId := by
      rw [List.map_filterMap, List.map_filterMap, List.filterMap_map, List.filterMap_map]
      exact List.filterMap_congr fun x hx => (h x hx).failing
    rw [failingIds_verifyReceipts, failingIds_verifyReceipts, hids]

/-- A failed receipt is one more failure, and changes nothing that is compared. -/
theorem verifyReceipts_failed (before after : List (Receipt V)) (failure : Failure) :
    (verifyReceipts (before ++ .failed failure :: after)).compared
        = (verifyReceipts (before ++ after)).compared ∧
      (verifyReceipts (before ++ .failed failure :: after)).failingIds.Perm
        (failure.nodeId :: (verifyReceipts (before ++ after)).failingIds) := by
  constructor
  · apply compared_verifyReceipts
    rw [List.filterMap_append, List.filterMap_append]
    rfl
  · rw [failingIds_verifyReceipts, failingIds_verifyReceipts, List.filterMap_append,
      List.filterMap_append, List.map_append, List.map_append]
    exact List.perm_middle

end

/-! ## One receipt a replica -/

section

variable (p : Platform) (task : Task)

/-- Both rounds on one executor. -/
def ceremonyOne (executor : CommittingExecutor) : Receipt CanonicalValue :=
  match commitOne task executor with
  | .error failure => .failed failure
  | .ok entry => revealOne p task entry

/-- The answers of the second round are those of the executors that committed. -/
theorem answers_ceremonyOne (committers : List CommittingExecutor) :
    (((committers.map (commitOne task)).filterMap Except.toOption).map
        (revealOne p task)).filterMap Receipt.answer?
      = (committers.map (ceremonyOne p task)).filterMap Receipt.answer? := by
  induction committers with
  | nil => rfl
  | cons executor rest ih =>
    rw [List.map_cons, List.map_cons, List.filterMap_cons, List.filterMap_cons, ← ih]
    cases hcommit : commitOne task executor with
    | error failure =>
      have hone : ceremonyOne p task executor = .failed failure := by
        rw [ceremonyOne, hcommit]
      rw [hone]
      rfl
    | ok entry =>
      have hone : ceremonyOne p task executor = revealOne p task entry := by
        rw [ceremonyOne, hcommit]
      rw [hone]
      show List.filterMap Receipt.answer? (revealOne p task entry :: _) = _
      rw [List.filterMap_cons]

/-- Failures to commit are put before failures to reveal. -/
theorem failures_ceremonyOne (committers : List CommittingExecutor) :
    ((committers.map (commitOne task)).filterMap commitFailure?
        ++ (((committers.map (commitOne task)).filterMap Except.toOption).map
          (revealOne p task)).filterMap Receipt.failure?).Perm
      ((committers.map (ceremonyOne p task)).filterMap Receipt.failure?) := by
  induction committers with
  | nil => exact List.Perm.refl _
  | cons executor rest ih =>
    rw [List.map_cons, List.map_cons, List.filterMap_cons, List.filterMap_cons,
      List.filterMap_cons]
    cases hcommit : commitOne task executor with
    | error failure =>
      have hone : ceremonyOne p task executor = .failed failure := by
        rw [ceremonyOne, hcommit]
      rw [hone]
      exact ih.cons failure
    | ok entry =>
      have hone : ceremonyOne p task executor = revealOne p task entry := by
        rw [ceremonyOne, hcommit]
      rw [hone]
      show (_ ++ List.filterMap Receipt.failure? (revealOne p task entry :: _)).Perm _
      rw [List.filterMap_cons]
      cases revealOne p task entry with
      | answered answer => exact ih
      | failed failure => exact List.perm_middle.trans (ih.cons failure)

/-- A ceremony of enough executors is the comparison over their receipts. -/
theorem executeCommitReveal_same {committers : List CommittingExecutor}
    (henough : MIN_CEREMONY_REPLICAS ≤ committers.length) :
    SameResult (executeCommitReveal p task committers)
      (verifyReceipts (committers.map (ceremonyOne p task))) := by
  have hanswers := answers_ceremonyOne p task committers
  have hfailures := failures_ceremonyOne p task committers
  have hfew : ¬ committers.length < MIN_CEREMONY_REPLICAS := by omega
  rw [executeCommitReveal, if_neg hfew]
  dsimp only
  split
  · next hnone =>
    -- nobody committed, so nobody answered either
    rw [hnone] at hanswers hfailures
    constructor
    · rw [verifyReceipts_eq_compareAnswers, ← hanswers]
      rfl
    · rw [failingIds_verifyReceipts]
      rw [List.map_nil, List.filterMap_nil, List.append_nil] at hfailures
      exact hfailures.map Failure.nodeId
  · constructor
    · rw [verifyReceipts_eq_compareAnswers, compared_compareAnswers, hanswers,
        ← compared_compareAnswers]
    · rw [failingIds_verifyReceipts, VerificationResult.failingIds, failures_compareAnswers]
      exact hfailures.map Failure.nodeId

end

/-! ## Replicas -/

/-- A node that runs a task in one round and in two. -/
structure Replica extends Executor Task CanonicalValue where
  commit : Task → CommitOutcome
  reveal : JsString → RevealOutcome

def Replica.toCommitting (replica : Replica) : CommittingExecutor :=
  ⟨replica.nodeId, replica.commit, replica.reveal⟩

section

variable (p : Platform) (task : Task)

/-- One run, committed to under a nonce and revealed with that nonce. -/
def Honest (replica : Replica) : Prop :=
  ∃ output cid cost attestation nonce handle,
    p.canonicalCid output = .ok cid ∧
    replica.execute task = .ok output cost attestation ∧
    replica.commit task = .committed (commitmentDigest p nonce task cid) handle ∧
    replica.reveal handle = .revealed nonce output cost attestation

/-- No output with an address, in one round or in two; a round may also fail or throw. -/
structure Fails (replica : Replica) : Prop where
  execute : ∀ output cost attestation cid,
    replica.execute task = .ok output cost attestation → p.canonicalCid output ≠ .ok cid
  reveal : ∀ digest handle nonce output cost attestation cid,
    replica.commit task = .committed digest handle →
    replica.reveal handle = .revealed nonce output cost attestation →
    p.canonicalCid output ≠ .ok cid

/-- What is revealed does not have the digest that was committed to. -/
def Mismatches (replica : Replica) : Prop :=
  ∃ digest handle nonce output cost attestation,
    replica.commit task = .committed digest handle ∧
    replica.reveal handle = .revealed nonce output cost attestation ∧
    ∀ cid, p.canonicalCid output = .ok cid → commitmentDigest p nonce task cid ≠ digest

end

section

variable {p : Platform} {task : Task} {replica : Replica}

/-- An output without an address is its node's failure. -/
theorem revealOne_mismatch (entry : Committed) {nonce : Bytes} {output : CanonicalValue}
    {cost : Cost} {attestation : AttestedResult}
    (hreveal : entry.executor.reveal entry.handle = .revealed nonce output cost attestation)
    (hmismatch : ∀ cid, p.canonicalCid output = .ok cid →
      commitmentDigest p nonce task cid ≠ entry.digest) :
    ∃ reason, revealOne p task entry = .failed ⟨entry.executor.nodeId, reason⟩ := by
  cases hcid : p.canonicalCid output with
  | error error =>
    refine ⟨js "output not encodable: " ++ error, ?_⟩
    simp only [revealOne, hreveal, hcid]
  | ok cid =>
    refine ⟨js "reveal does not match the commitment " ++ entry.executor.nodeId
      ++ js " published in round 1", ?_⟩
    simp only [revealOne, hreveal, hcid]
    exact if_pos (hmismatch cid hcid)

/-- A replica that commits is judged by its reveal. -/
theorem ceremonyOne_committed {digest handle : JsString}
    (hcommit : replica.commit task = .committed digest handle) :
    ceremonyOne p task replica.toCommitting
      = revealOne p task ⟨replica.toCommitting, digest, handle⟩ := by
  simp only [ceremonyOne, commitOne, Replica.toCommitting, hcommit]

theorem ceremonyOne_mismatches (h : Mismatches p task replica) :
    ∃ reason, ceremonyOne p task replica.toCommitting = .failed ⟨replica.nodeId, reason⟩ := by
  obtain ⟨digest, handle, nonce, output, cost, attestation, hcommit, hreveal, hmismatch⟩ := h
  rw [ceremonyOne_committed hcommit]
  exact revealOne_mismatch ⟨replica.toCommitting, digest, handle⟩ hreveal hmismatch

theorem ceremonyOne_fails (h : Fails p task replica) :
    ∃ reason, ceremonyOne p task replica.toCommitting = .failed ⟨replica.nodeId, reason⟩ := by
  cases hcommit : replica.commit task with
  | threw message =>
    have hcommitted : ceremonyOne p task replica.toCommitting = .failed ⟨replica.nodeId,
        js "commit threw on " ++ replica.nodeId ++ js ": " ++ message⟩ := by
      simp only [ceremonyOne, commitOne, Replica.toCommitting, hcommit]
    exact ⟨_, hcommitted⟩
  | failed reason =>
    have hcommitted : ceremonyOne p task replica.toCommitting
        = .failed ⟨replica.nodeId, reason⟩ := by
      simp only [ceremonyOne, commitOne, Replica.toCommitting, hcommit]
    exact ⟨_, hcommitted⟩
  | committed digest handle =>
    rw [ceremonyOne_committed hcommit]
    cases hreveal : replica.reveal handle with
    | threw message =>
      refine ⟨js "reveal threw on " ++ replica.nodeId ++ js ": " ++ message, ?_⟩
      simp only [revealOne, Replica.toCommitting, hreveal]
    | failed reason =>
      refine ⟨reason, ?_⟩
      simp only [revealOne, Replica.toCommitting, hreveal]
    | revealed nonce output cost attestation =>
      apply revealOne_mismatch ⟨replica.toCommitting, digest, handle⟩ hreveal
      intro cid hcid
      exact absurd hcid (h.reveal _ _ _ _ _ _ cid hcommit hreveal)

theorem runOne_fails (h : Fails p task replica) :
    ∃ reason, runOne p.canonicalCid replica.toExecutor task
      = .failed ⟨replica.nodeId, reason⟩ := by
  unfold runOne
  cases hexecute : replica.execute task with
  | threw message => exact ⟨_, rfl⟩
  | failed reason => exact ⟨_, rfl⟩
  | ok output cost attestation =>
    dsimp only
    cases hcid : p.canonicalCid output with
    | error error => exact ⟨_, rfl⟩
    | ok cid => exact absurd hcid (h.execute _ _ _ cid hexecute)

/-- The digest that was committed to is the one that is computed, so the answer stands. -/
theorem ceremonyOne_honest (h : Honest p task replica) :
    ceremonyOne p task replica.toCommitting = runOne p.canonicalCid replica.toExecutor task := by
  obtain ⟨output, cid, cost, attestation, nonce, handle, hcid, hexecute, hcommit, hreveal⟩ := h
  have hrun : runOne p.canonicalCid replica.toExecutor task
      = .answered ⟨replica.nodeId, cid, output, cost, attestation⟩ := by
    simp only [runOne, hexecute, hcid]
  have hceremony : ceremonyOne p task replica.toCommitting
      = .answered ⟨replica.nodeId, cid, output, cost, attestation⟩ := by
    simp only [ceremonyOne, commitOne, revealOne, Replica.toCommitting, hcommit, hreveal, hcid,
      ne_eq, not_true_eq_false, if_false]
  rw [hceremony, hrun]

theorem ceremonyOne_same_runOne (h : Honest p task replica ∨ Fails p task replica) :
    (ceremonyOne p task replica.toCommitting).Same
      (runOne p.canonicalCid replica.toExecutor task) := by
  rcases h with hhonest | hfails
  · rw [ceremonyOne_honest hhonest]
    exact ⟨rfl, rfl⟩
  · obtain ⟨reason, hceremony⟩ := ceremonyOne_fails hfails
    obtain ⟨reason', hrun⟩ := runOne_fails hfails
    rw [hceremony, hrun]
    exact ⟨rfl, rfl⟩

end

/-- The first shard of a job of one. -/
def onlyTask : Task := ⟨plainCid, plainCid, 0, 1, .pub, none⟩

/-- A replica that answers `null` for this much, and holds to it. -/
def holding (nodeId : JsString) (cost : Cost) : Replica where
  nodeId := nodeId
  execute _ := .ok .null cost .signedByNobody
  commit task := .committed (commitmentDigest plain [] task plainCid) (js "h")
  reveal _ := .revealed [] .null cost .signedByNobody

def down (nodeId : JsString) : Replica where
  nodeId := nodeId
  execute _ := .threw (js "down")
  commit _ := .failed (js "down")
  reveal _ := .failed (js "down")

/-- A replica that commits to nothing, and reveals what others answered. -/
def copying (nodeId : JsString) : Replica :=
  { holding nodeId 0 with commit := fun _ => .committed (js "00") (js "h") }

end O2Fabric.Job
