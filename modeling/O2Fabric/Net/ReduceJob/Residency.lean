/-
  O2Fabric.Net.ReduceJob.Residency

  Every combine is asked for over blocks that are in the requestor's store.

  A text is held when the store has a block under it.  Nothing held is ever let
  go of, so what a combine gathers, what the level loop resolves and what a
  thread was begun with stay held; a replica is counted only after its block
  was stored under its address, on either path, so the inputs of the next level
  are held before it begins.
-/

import O2Fabric.Net.ReduceJob.Gathering

namespace O2Fabric.Net

open Job Reduce Submit Threads

section

variable {p : Platform} {codec : Codec p} {store store' : Blockstore codec}

namespace Blockstore

def Holds (store : Blockstore codec) (text : JsString) : Prop :=
  ∃ bytes, store.blocks.get? text = some bytes

/-- The text is an address, whose block is here and hashes to it. -/
def Resident (store : Blockstore codec) (text : JsString) : Prop :=
  ∃ cid bytes, p.parseCid text = some cid ∧ store.get cid = some bytes ∧
    codec.blockCid bytes = cid

/-- Nothing is let go of. -/
def Grows (store store' : Blockstore codec) : Prop := ∀ text, store.Holds text → store'.Holds text

theorem Grows.refl (store : Blockstore codec) : store.Grows store := fun _ h => h

theorem Grows.put (store : Blockstore codec) (bytes : Bytes) : store.Grows (store.put bytes) := by
  rintro text ⟨held, hheld⟩
  by_cases htext : text = (codec.blockCid bytes).toText
  · refine ⟨bytes, ?_⟩
    show (store.blocks.set _ bytes).get? text = some bytes
    rw [InsertionMap.get?_set, if_pos htext]
  · refine ⟨held, ?_⟩
    show (store.blocks.set _ bytes).get? text = some held
    rw [InsertionMap.get?_set, if_neg htext]
    exact hheld

theorem put_holds (store : Blockstore codec) (bytes : Bytes) :
    (store.put bytes).Holds (codec.blockCid bytes).toText :=
  ⟨bytes, InsertionMap.get?_set_self _ _ _⟩

/-- What is held is the address of the block it is held under. -/
theorem Holds.resident (hparse : ∀ cid : Cid, p.parseCid cid.toText = some cid) {text : JsString}
    (h : store.Holds text) : store.Resident text := by
  obtain ⟨bytes, hbytes⟩ := h
  have haddress := store.addressed text bytes hbytes
  refine ⟨codec.blockCid bytes, bytes, ?_, ?_, rfl⟩
  · rw [← haddress]
    exact hparse _
  · show store.blocks.get? (codec.blockCid bytes).toText = some bytes
    rw [haddress]
    exact hbytes

end Blockstore

/-! ## One combine -/

/-- Its inputs and the replicas it has gathered are held. -/
def Placing.Held (store : Blockstore codec) (placing : Placing) : Prop :=
  (∀ text ∈ placing.task.inputCids, store.Holds text) ∧
    ∀ replica ∈ placing.attempt.walk.produced, store.Holds replica.cid

def Combining.Held (store : Blockstore codec) : Combining → Prop
  | .idle => True
  | .reading placing _ _ => placing.Held store
  | .keeping placing _ => placing.Held store
  | .walking placing => placing.Held store
  | .asking placing _ => placing.Held store
  | .fetching placing _ _ => placing.Held store
  -- what has come was hashed against the name it was asked for under
  | .storing placing _ product bytes => placing.Held store ∧ codec.blockCid bytes = product.cid
  | .ended => True

variable {placing : Placing}

theorem Placing.Held.grows (h : placing.Held store) (hgrows : store.Grows store') :
    placing.Held store' :=
  ⟨fun text ht => hgrows _ (h.1 text ht), fun replica hr => hgrows _ (h.2 replica hr)⟩

theorem Combining.Held.grows {l : Combining} (h : l.Held store) (hgrows : store.Grows store') :
    l.Held store' := by
  cases l with
  | idle => trivial
  | reading placing unread inputs => exact Placing.Held.grows h hgrows
  | keeping placing bytes => exact Placing.Held.grows h hgrows
  | walking placing => exact Placing.Held.grows h hgrows
  | asking placing executorId => exact Placing.Held.grows h hgrows
  | fetching placing executorId product => exact Placing.Held.grows h hgrows
  | storing placing executorId product bytes => exact ⟨Placing.Held.grows h.1 hgrows, h.2⟩
  | ended => trivial

theorem Placing.Held.answered (h : placing.Held store) {executorId : JsString}
    {product : CombineProduct} (hproduct : store.Holds product.cid.toText) :
    (placing.answered executorId product).Held store := by
  refine ⟨h.1, ?_⟩
  intro replica hreplica
  rcases List.mem_append.mp hreplica with hold | hlast
  · exact h.2 replica hold
  · rw [List.mem_singleton.mp hlast]
    exact hproduct

/-- What the level loop is handed is held. -/
theorem Placing.Held.result (h : placing.Held store) {accepted : Produced}
    (haccepted : placing.result.accepted = some accepted) : store.Holds accepted.cid := by
  unfold Placing.result at haccepted
  dsimp only at haccepted
  split at haccepted
  · cases haccepted
  · next first others hproduced =>
    cases haccepted
    apply h.2
    rw [hproduced]
    exact List.mem_cons_self

/-! ## The reduction -/

/-- Every resolved value is held. -/
def Resolves (store : Blockstore codec) (report : Report) : Prop :=
  ∀ id text, report.resolved.get? id = some text → store.Holds text

/-- The values of a list of results are held. -/
def Accepts (store : Blockstore codec) (result : CombineResult) : Prop :=
  ∀ accepted, result.accepted = some accepted → store.Holds accepted.cid

def ReduceStage.Held (store : Blockstore codec) : ReduceStage → Prop
  | .gathering _ gathered => ∀ c ∈ gathered.contributions, store.Holds c.cid.toText
  | .storing contribution bytes _ gathered =>
    (∀ c ∈ gathered.contributions, store.Holds c.cid.toText) ∧
      codec.blockCid bytes = contribution.cid
  | .reducing _ _ report => Resolves store report
  | .ended outcome => ∀ text, outcome.rootCid = some text → store.Holds text
  | .refused _ => True
  | .threw => True

variable {stage : ReduceStage}

theorem ReduceStage.Held.grows (h : stage.Held store) (hgrows : store.Grows store') :
    stage.Held store' := by
  cases stage with
  | gathering rest gathered => exact fun c hc => hgrows _ (h c hc)
  | storing contribution bytes rest gathered => exact ⟨fun c hc => hgrows _ (h.1 c hc), h.2⟩
  | reducing tree level report => exact fun id text hget => hgrows _ (h id text hget)
  | ended outcome => exact fun text hroot => hgrows _ (h text hroot)
  | refused reason => trivial
  | threw => trivial

/-- A value that is resolved was resolved before or has just been accepted. -/
theorem Resolves.record {report : Report} (h : Resolves store report) {result : CombineResult}
    (hresult : Accepts store result) : Resolves store (report.record result) := by
  intro id text hget
  unfold Report.record at hget
  cases haccepted : result.accepted with
  | none =>
    rw [haccepted] at hget
    exact h id text hget
  | some accepted =>
    rw [haccepted] at hget
    dsimp only at hget
    have hset : (report.resolved.set result.node.id accepted.cid).get? id = some text := by
      split at hget
      · exact hget
      · exact hget
    rw [InsertionMap.get?_set] at hset
    split at hset
    · cases hset
      exact hresult accepted haccepted
    · exact h id text hset

theorem Resolves.records {results : List CombineResult} {report : Report}
    (h : Resolves store report) (hresults : ∀ result ∈ results, Accepts store result) :
    Resolves store (results.foldl Report.record report) := by
  induction results generalizing report with
  | nil => exact h
  | cons result rest ih =>
    apply ih (h.record (hresults result List.mem_cons_self))
    exact fun r hr => hresults r (List.mem_cons_of_mem _ hr)

/-- The leaves of a derived tree are the contributions that were stored. -/
theorem Resolves.start {contributions : List ReduceContribution} {fanout : Nat} {tree : ReduceTree}
    (htree : deriveReduceTree p.hashText contributions fanout = .ok tree)
    (h : ∀ c ∈ contributions, store.Holds c.cid.toText) : Resolves store (.start tree) := by
  intro id text hget
  have hentry := InsertionMap.mem_of_mem_entries_ofPairs (InsertionMap.get?_eq_some.mp hget)
  obtain ⟨leaf, hleaf, heq⟩ := List.mem_map.mp hentry
  rw [(deriveReduceTree_rounds htree).2.2.1] at hleaf
  obtain ⟨c, hc, rfl⟩ := mem_sortedLeaves.mp hleaf
  cases heq
  exact h c hc

/-- What is held of the shared state; every request was made over a store that held
    its inputs. -/
structure Reducing.Held (s : Reducing p codec) : Prop where
  stage : s.stage.Held s.store
  results : ∀ i result, s.results.get? i = some result → Accepts s.store result
  requests : ∀ request ∈ s.requests, ∀ text ∈ request.task.inputCids, request.store.Holds text

variable {s s' : Reducing p codec}

theorem Reducing.Held.of_stage (h : s.Held) (hstage : stage.Held s.store) :
    ({ s with stage := stage } : Reducing p codec).Held :=
  ⟨hstage, h.results, h.requests⟩

theorem Reducing.Held.break_ (h : s.Held) : s.break_.Held := ⟨h.stage, h.results, h.requests⟩

theorem Reducing.Held.keep (h : s.Held) (bytes : Bytes) : (s.keep bytes).Held where
  stage := h.stage.grows (.put _ _)
  results i result hget accepted haccepted :=
    Blockstore.Grows.put _ _ _ (h.results i result hget accepted haccepted)
  requests := h.requests

theorem Reducing.Held.ask (h : s.Held) {task : CombineTask} (executorId : JsString)
    (hinputs : ∀ text ∈ task.inputCids, s.store.Holds text) : (s.ask task executorId).Held where
  stage := h.stage
  results := h.results
  requests := by
    intro request hrequest
    rcases List.mem_append.mp hrequest with hold | hlast
    · exact h.requests request hold
    · rw [List.mem_singleton.mp hlast]
      exact hinputs

theorem Reducing.Held.finish (h : s.Held) (i : Nat) {result : CombineResult}
    (hresult : Accepts s.store result) : (s.finish i result).Held where
  stage := h.stage
  results := by
    intro j other hget
    show Accepts s.store other
    rw [show (s.finish i result).results = s.results.set i result from rfl,
      InsertionMap.get?_set] at hget
    split at hget
    · cases hget
      exact hresult
    · exact h.results j other hget
  requests := h.requests

/-! ## Steps -/

structure Keeps (s : Reducing p codec) (next : Reducing p codec × Combining) : Prop where
  shared : next.1.Held
  combining : next.2.Held next.1.store
  grows : s.store.Grows next.1.store

/-- A step after which the store is what it was. -/
theorem Keeps.of_same {next : Reducing p codec × Combining} (hshared : next.1.Held)
    (hstore : next.1.store = s.store) (hcombining : next.2.Held s.store) : Keeps s next :=
  ⟨hshared, hstore ▸ hcombining, hstore ▸ .refl _⟩

variable {ports : ReducePorts}

variable {i : Nat}

/-- The inputs of a combine that begins are values that are resolved. -/
theorem beginCombine_keeps (hs : s.Held) {node : ReduceTreeNode} {report : Report}
    (hreport : Resolves s.store report) : Keeps s (beginCombine ports s i node report) := by
  unfold beginCombine
  cases hinputs : node.children.mapM report.resolved.get? with
  | none =>
    have hnothing : Accepts s.store ⟨node, none, 0, 0, [], false, none, []⟩ := by
      intro accepted haccepted
      cases haccepted
    exact Keeps.of_same (hs.finish i hnothing) rfl trivial
  | some inputCids =>
    have hheld : ∀ text ∈ inputCids, s.store.Holds text := by
      intro text htext
      obtain ⟨child, -, hget⟩ := exists_of_mem_of_forall₂ (mapM_eq_some_iff.mp hinputs).flip htext
      exact hreport child text hget
    have hplacing : ∀ (attempt : LocalAttempt) (rest : List JsString),
        attempt.walk.produced = [] →
          Placing.Held s.store ⟨node, ⟨node.id, inputCids, node.level⟩, attempt, rest⟩ := by
      intro attempt rest hnone
      refine ⟨hheld, ?_⟩
      intro replica hreplica
      rw [show attempt.walk.produced = [] from hnone] at hreplica
      cases hreplica
    dsimp only
    split
    · exact Keeps.of_same hs rfl (hplacing _ _ rfl)
    · exact Keeps.of_same (hs.ask _ hheld) rfl (hplacing _ _ rfl)

theorem readNext_keeps (hs : s.Held) (hplacing : placing.Held s.store) (cidString : JsString)
    (unread : List JsString) (inputs : List CanonicalValue) :
    Keeps s (readNext s placing cidString unread inputs) := by
  unfold readNext
  split
  · exact Keeps.of_same hs.break_ rfl trivial
  · split
    · exact Keeps.of_same hs rfl hplacing
    · split
      · exact Keeps.of_same hs.break_ rfl trivial
      · exact Keeps.of_same hs rfl hplacing

theorem askNext_keeps (hs : s.Held) (hplacing : placing.Held s.store) (executorId : JsString) :
    Keeps s (askNext s placing executorId) := by
  unfold askNext
  split
  · exact Keeps.of_same hs rfl hplacing
  · exact Keeps.of_same (hs.ask executorId hplacing.1) rfl hplacing

theorem handOver_keeps (hs : s.Held) (hplacing : placing.Held s.store) (executorId : JsString)
    (product : CombineProduct) (response : Option AgentResponse) :
    Keeps s (handOver s placing executorId product response) := by
  unfold handOver
  split
  · exact Keeps.of_same hs rfl hplacing
  · split
    · next hhash => exact Keeps.of_same hs rfl ⟨hplacing, hhash⟩
    · exact Keeps.of_same hs rfl hplacing

/-- A replica counts once its block is stored under the address it was named by. -/
theorem keep_keeps (hs : s.Held) (hplacing : placing.Held s.store) (executorId : JsString)
    (product : CombineProduct) {bytes : Bytes} (hhash : codec.blockCid bytes = product.cid) :
    Keeps s (s.keep bytes, .walking (placing.answered executorId product)) := by
  refine ⟨hs.keep bytes, ?_, .put _ _⟩
  apply Placing.Held.answered (hplacing.grows (.put _ _))
  rw [← hhash]
  exact s.store.put_holds bytes

theorem combineStep_keeps (hs : s.Held) {action : CombineAction} {l : Combining}
    (hl : l.Held s.store) {next : Reducing p codec × Combining}
    (hstep : combineStep ports i action s l = some next) : Keeps s next := by
  cases l with
  | idle =>
    cases action with
    | begin =>
      have hstage := hs.stage
      unfold combineStep at hstep
      dsimp only at hstep
      split at hstep
      · next tree level report heq =>
        rw [heq] at hstage
        split at hstep
        · split at hstep
          · cases hstep
            exact beginCombine_keeps hs hstage
          · cases hstep
        · cases hstep
      · cases hstep
    | _ => cases hstep
  | reading placing unread inputs =>
    cases unread with
    | nil =>
      cases action with
      | merge =>
        unfold combineStep at hstep
        dsimp only at hstep
        split at hstep
        · cases hstep
          exact Keeps.of_same hs rfl hl
        · cases hstep
          exact Keeps.of_same hs rfl hl
      | _ => cases hstep
    | cons cidString rest =>
      cases action with
      | read =>
        cases hstep
        exact readNext_keeps hs hl cidString rest inputs
      | _ => cases hstep
  | keeping placing bytes =>
    cases action with
    | kept written =>
      cases written with
      | false =>
        cases hstep
        exact Keeps.of_same hs.break_ rfl trivial
      | true =>
        cases hstep
        have hkept := keep_keeps hs hl LOCAL_COMBINE_EXECUTOR
          ⟨codec.blockCid bytes, .signedByNobody⟩ rfl
        exact ⟨hkept.shared, hkept.combining, hkept.grows⟩
    | _ => cases hstep
  | walking placing =>
    cases action with
    | ask =>
      unfold combineStep at hstep
      dsimp only at hstep
      split at hstep
      · cases hstep
      · next executorId rest _ =>
        split at hstep
        · cases hstep
        · cases hstep
          have hplacing : Placing.Held s.store { placing with rest := rest } := hl
          exact askNext_keeps hs hplacing executorId
    | finish =>
      unfold combineStep at hstep
      dsimp only at hstep
      split at hstep
      · cases hstep
        exact Keeps.of_same (hs.finish i fun _ => Placing.Held.result hl) rfl trivial
      · cases hstep
    | _ => cases hstep
  | asking placing executorId =>
    cases action with
    | replied response =>
      unfold combineStep at hstep
      dsimp only at hstep
      split at hstep
      · cases hstep
        exact Keeps.of_same hs rfl hl
      · cases hstep
        exact Keeps.of_same hs rfl hl
    | _ => cases hstep
  | fetching placing executorId product =>
    cases action with
    | handedOver response =>
      cases hstep
      exact handOver_keeps hs hl executorId product response
    | _ => cases hstep
  | storing placing executorId product bytes =>
    cases action with
    | stored written =>
      cases written with
      | false =>
        cases hstep
        exact Keeps.of_same hs.break_ rfl trivial
      | true =>
        cases hstep
        exact keep_keeps hs hl.1 executorId product hl.2
    | _ => cases hstep
  | ended => cases action <;> cases hstep

variable {options : ReduceJobOptions}

/-- A projected partial is the block its contribution names. -/
theorem projectShard_bytes {output : CanonicalValue} {contribution : ReduceContribution}
    {bytes : Bytes} (h : projectShard codec options output i = .ok contribution)
    (hbytes : projectedBytes codec options output i = some bytes) :
    codec.blockCid bytes = contribution.cid := by
  unfold projectShard at h
  unfold projectedBytes at hbytes
  cases hproject : options.project output i with
  | error message =>
    rw [hproject] at h
    cases h
  | ok partialValue =>
    rw [hproject] at h hbytes
    dsimp only at h hbytes
    cases hencode : codec.encode partialValue with
    | error error =>
      rw [hencode] at hbytes
      cases hbytes
    | ok encoded =>
      rw [hencode] at h hbytes
      cases hbytes
      split at h
      · cases h
      · dsimp only at h
        split at h
        · cases h
        · split at h
          · cases h
          · cases h
            rfl

theorem projectNext_held {shard : ShardResult} {rest : List ShardResult} {gathered : Gathered}
    (hgathered : ∀ c ∈ gathered.contributions, store.Holds c.cid.toText)
    (hnext : projectNext codec options shard rest gathered = some stage) : stage.Held store := by
  unfold projectNext at hnext
  split at hnext
  · split at hnext
    · cases hnext
      trivial
    · next contribution hproject =>
      obtain ⟨bytes, hbytes, rfl⟩ := Option.map_eq_some_iff.mp hnext
      exact ⟨hgathered, projectShard_bytes hproject hbytes⟩
  · cases hnext
    exact hgathered

theorem deriveStage_held {gathered : Gathered}
    (hgathered : ∀ c ∈ gathered.contributions, store.Holds c.cid.toText) :
    (deriveStage (p := p) options gathered).Held store := by
  unfold deriveStage
  split
  · trivial
  · split
    · trivial
    · next tree htree => exact Resolves.start htree hgathered

/-- A step of the reduction as a whole keeps what is held, and lets go of nothing. -/
theorem reduceStep_keeps (hs : s.Held) {action : ReduceAction}
    (hstep : reduceStep ports action s = some s') : s'.Held ∧ s.store.Grows s'.store := by
  have hstage := hs.stage
  unfold reduceStep at hstep
  split at hstep
  · next shard rest gathered heq =>
    rw [heq] at hstage
    obtain ⟨stage, hnext, rfl⟩ := Option.map_eq_some_iff.mp hstep
    exact ⟨hs.of_stage (projectNext_held hstage hnext), .refl _⟩
  · next written contribution bytes rest gathered heq =>
    rw [heq] at hstage
    obtain ⟨hgathered, hhash⟩ := hstage
    split at hstep
    · cases hstep
      refine ⟨(hs.keep bytes).of_stage ?_, .put _ _⟩
      intro c hc
      rcases List.mem_append.mp hc with hold | hlast
      · exact Blockstore.Grows.put _ _ _ (hgathered c hold)
      · rw [List.mem_singleton.mp hlast, ← hhash]
        exact s.store.put_holds bytes
    · cases hstep
      exact ⟨hs.of_stage trivial, .refl _⟩
  · next gathered heq =>
    rw [heq] at hstage
    cases hstep
    exact ⟨hs.of_stage (deriveStage_held hstage), .refl _⟩
  · next tree level report heq =>
    rw [heq] at hstage
    split at hstep
    · cases hstep
    · split at hstep
      · cases hstep
        exact ⟨hs.of_stage fun text hroot => hstage _ text hroot, .refl _⟩
      · obtain ⟨results, hresults, rfl⟩ := Option.map_eq_some_iff.mp hstep
        refine ⟨hs.of_stage (Resolves.records hstage ?_), .refl _⟩
        intro result hresult
        obtain ⟨i, -, hget⟩ :=
          exists_of_mem_of_forall₂ (mapM_eq_some_iff.mp hresults).flip hresult
        exact hs.results i result hget
  · next bytes =>
    cases hstep
    exact ⟨hs.keep bytes, .put _ _⟩
  · cases hstep

/-! ## Every run -/

/-- In every state of a reduction that is under way, what is gathered, resolved and being
    combined is held. -/
theorem reducing_held {job : JobResult} {c : Config Nat (Reducing p codec) Combining}
    (h : (reducing ports).Reaches System.anything (ports.start job store) c) :
    c.shared.Held ∧ ∀ i, (c.locals i).Held c.shared.store := by
  apply h.invariant (I := fun c => c.shared.Held ∧ ∀ i, (c.locals i).Held c.shared.store)
  · refine ⟨⟨?_, ?_, ?_⟩, fun _ => trivial⟩
    · show ReduceStage.Held _ (if _ then _ else _)
      split
      · trivial
      · intro c hc
        cases hc
    · intro i result hget
      cases hget
    · intro request hrequest
      cases hrequest
  · rintro c e c' - ⟨hshared, hlocals⟩ hstep
    obtain ⟨i, action, s, l, rfl, hown, rfl⟩ | ⟨action, s, rfl, halone, rfl⟩ :=
      System.step_cases hstep
    · have hkeeps := combineStep_keeps hshared (hlocals i) hown
      refine ⟨hkeeps.shared, ?_⟩
      intro j
      show (Function.update c.locals i l j).Held s.store
      by_cases hji : j = i
      · subst hji
        rw [Function.update_self]
        exact hkeeps.combining
      · rw [Function.update_of_ne hji]
        exact (hlocals j).grows hkeeps.grows
    · obtain ⟨hheld, hgrows⟩ := reduceStep_keeps hshared halone
      exact ⟨hheld, fun j => (hlocals j).grows hgrows⟩

end

/-- Every combine that is asked for, of a peer or of the requestor itself, names inputs
    that are in the store at that moment and hash to their names, and where a
    reduction has a root its block is in the store. -/
theorem inputs_are_resident {p : Platform} {codec : Codec p} {ports : ReducePorts}
    (hparse : ∀ cid : Cid, p.parseCid cid.toText = some cid) {job : JobResult}
    {store : Blockstore codec} {c : Config Nat (Reducing p codec) Combining}
    (h : (reducing ports).Reaches System.anything (ports.start job store) c) :
    (∀ request ∈ c.shared.requests, ∀ text ∈ request.task.inputCids,
        request.store.Resident text) ∧
      ∀ outcome text, c.shared.stage = .ended outcome → outcome.rootCid = some text →
        c.shared.store.Resident text := by
  obtain ⟨hshared, -⟩ := reducing_held h
  refine ⟨?_, ?_⟩
  · intro request hrequest text htext
    exact (hshared.requests request hrequest text htext).resident hparse
  · intro outcome text hover hroot
    have hstage := hshared.stage
    rw [hover] at hstage
    exact (hstage text hroot).resident hparse

/-- Two shards over one peer, whose partials have one row and two. -/
def pairPorts : ReducePorts where
  options :=
    { localId := js "r"
      executors := [js "m"]
      project := fun _ partitionIndex => .ok (rowsPartial (partitionIndex + 1))
      fanout := some 2
      redundancy := none
      trustedIssuers := .checksNoCombineSignatures
      contributors := .attributesEachShardToItsOwnPartitionIndex
      placement := .requiresRemoteCombining }
  combiner _ := .null

def pairStart : Config Nat (Reducing countingPlatform countingCodec) Combining :=
  pairPorts.start (jobOf [ownedShard 0 (js "a"), ownedShard 1 (js "a")]) .empty

/-- Both leaves are stored, the peer names a block of seven bytes and hands it over. -/
def pairRun : List (Event Nat CombineAction ReduceAction) :=
  [.alone .project, .alone (.stored true), .alone .project, .alone (.stored true), .alone .derive,
    .own 0 .begin, .own 0 .ask,
    .own 0 (.replied (some (.combine (some (unaryCid 7)) [] .signedByNobody))),
    .own 0 (.handedOver (some (.block (some (List.replicate 7 0))))), .own 0 (.stored true),
    .own 0 .finish, .alone .advance, .alone .advance]

/-- The root's address, once there is one. -/
def ReduceStage.root? : ReduceStage → Option JsString
  | .ended outcome => outcome.rootCid
  | _ => none

/-- The one request of the run names two blocks that are held, and so is the root's. -/
theorem inputs_are_resident_pair :
    ∃ c, (reducing pairPorts).run pairStart pairRun = some c ∧
      (∃ request, c.shared.requests = [request] ∧ request.task.inputCids.length = 2 ∧
        ∀ text ∈ request.task.inputCids, request.store.Resident text) ∧
      ∃ outcome text, c.shared.stage = .ended outcome ∧ outcome.rootCid = some text ∧
        c.shared.store.Resident text := by
  have hcomputed : ((reducing pairPorts).run pairStart pairRun).map
      (fun c => (c.shared.requests.map fun request => request.task.inputCids.length,
        c.shared.stage.root?.isSome)) = some ([2], true) := by decide
  obtain ⟨c, hrun, heq⟩ := Option.map_eq_some_iff.mp hcomputed
  obtain ⟨hrequests, hroot⟩ := Prod.ext_iff.mp heq
  have hreach : (reducing pairPorts).Reaches System.anything pairStart c :=
    System.Reaches.of_run (fun _ _ _ => trivial) hrun
  obtain ⟨hresident, hrooted⟩ := inputs_are_resident countingPlatform_parses hreach
  refine ⟨c, hrun, ?_, ?_⟩
  · obtain ⟨request, hone, hlength⟩ := List.map_eq_singleton_iff.mp hrequests
    refine ⟨request, hone, hlength, hresident request ?_⟩
    rw [hone]
    exact List.mem_singleton_self _
  · obtain ⟨text, htext⟩ := Option.isSome_iff_exists.mp hroot
    cases hstage : c.shared.stage with
    | ended outcome =>
      rw [hstage] at htext
      exact ⟨outcome, text, rfl, htext, hrooted outcome text hstage htext⟩
    | _ =>
      rw [hstage] at htext
      cases htext

end O2Fabric.Net
