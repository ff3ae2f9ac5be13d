/-
  O2Fabric.Net.ReduceJob.Receipt

  What the receipt of an aggregation says.  The statements are observed by node
  id, so the receipt speaks of the combines as far as their ids tell them apart.

    * `get?_observe` is what was observed of a node: the peers' answers to it.
    * `foldl_accountNode` is the loop over the nodes, its exits left out.
    * `aggregate_receipt_never_overstates` joins the two.
-/

import O2Fabric.Net.ReduceJob.Gathering

namespace O2Fabric.Net

open Job Reduce Submit

section

variable {p : Platform} {codec : Codec p} {sigs : Signatures} {job : JobResult}
  {options : ReduceJobOptions} {answers : Answers} {reduced : Reduction}

/-! ## What was observed -/

/-- What an answer adds to the observation of its node. -/
def observeAnswer (p : Platform) (seen : Option CombineObservation) (call : CombineCall) :
    Option CombineObservation :=
  match call.answer with
  | none => seen
  | some product =>
    let entry := seen.getD ⟨(call.task.inputCids.mapM p.parseCid).getD [], []⟩
    some { entry with replicas := entry.replicas ++ [product] }

/-- Only the requests of a node decide what is observed of it. -/
theorem get?_observe (calls : List CombineCall) (id : JsString) :
    (calls.foldl (observeCall p) .empty).get? id
      = (calls.filter fun call => decide (call.task.nodeId = id)).foldl (observeAnswer p) none := by
  induction calls using List.reverseRecOn with
  | nil => rfl
  | append_singleton calls call ih =>
    rw [List.foldl_concat, List.filter_append, List.foldl_append, ← ih, List.filter_singleton,
      Bool.cond_decide]
    by_cases hid : call.task.nodeId = id
    · rw [if_pos hid, List.foldl_cons, List.foldl_nil, observeCall, observeAnswer]
      cases call.answer with
      | none => rfl
      | some product =>
        dsimp only
        rw [hid, InsertionMap.get?_set_self]
    · rw [if_neg hid, List.foldl_nil, observeCall]
      cases call.answer with
      | none => rfl
      | some product =>
        dsimp only
        rw [InsertionMap.get?_set, if_neg (Ne.symm hid)]

/-- The answers about one task, observed: all of them, under the task's inputs. -/
theorem foldl_observeAnswer {task : CombineTask} {calls : List CombineCall}
    (h : ∀ call ∈ calls, call.task = task) :
    calls.foldl (observeAnswer p) none
      = if calls.filterMap CombineCall.answer = [] then none
        else some ⟨(task.inputCids.mapM p.parseCid).getD [], calls.filterMap CombineCall.answer⟩ := by
  induction calls using List.reverseRecOn with
  | nil => rfl
  | append_singleton calls call ih =>
    have hcall : call.task = task := h call (List.mem_append_right _ List.mem_cons_self)
    rw [List.foldl_concat, ih fun c hc => h c (List.mem_append_left _ hc), List.filterMap_append,
      observeAnswer, hcall]
    cases hanswer : call.answer with
    | none =>
      rw [List.filterMap_cons_none hanswer, List.filterMap_nil, List.append_nil]
    | some product =>
      rw [List.filterMap_cons_some hanswer, List.filterMap_nil,
        if_neg (List.append_ne_nil_of_right_ne_nil _ (List.cons_ne_nil _ _))]
      by_cases hnone : calls.filterMap CombineCall.answer = []
      · rw [if_pos hnone, hnone]
        rfl
      · rw [if_neg hnone]
        rfl

/-! ## The loop over the nodes -/

/-- A node whose replicas were all checked: the statements, and whose they are. -/
structure NodeAccount (sigs : Signatures) (outcome : ReduceOutcome)
    (observed : InsertionMap JsString CombineObservation) (trustedIssuers : List JsString)
    (now : ℚ) (node : ReduceTreeNode) (certificates : List NodeCertificate) : Prop where
  remote : node.id ∉ outcome.locallyCombined
  agreed : node.id ∈ outcome.attestations.keys
  seen : ∃ seen, observed.get? node.id = some seen ∧ seen.replicas ≠ [] ∧
    List.Forall₂ (fun replica certificate => StatesMerge sigs replica.attestation seen.inputCids
      replica.cid trustedIssuers now certificate) seen.replicas certificates
  keys : (certificates.map NodeCertificate.nodeKey).Nodup

theorem checkReplica_ok {trustedIssuers : List JsString} {now : ℚ} {nodeId : JsString}
    {inputCids : List Cid} {replica : CombineProduct} {certificate : NodeCertificate}
    (h : checkReplica p sigs trustedIssuers now nodeId inputCids replica = .ok certificate) :
    StatesMerge sigs replica.attestation inputCids replica.cid trustedIssuers now certificate := by
  unfold checkReplica at h
  split at h
  · cases h
  · next hsigned =>
    split at h
    · cases h
    · next hverified =>
      cases h
      exact (verifyCombineAttestation_ok p sigs).mp hverified

/-- Checks none of which left a reason verified every replica. -/
theorem forall₂_verified {trustedIssuers : List JsString} {now : ℚ} {nodeId : JsString}
    {inputCids : List Cid} {replicas : List CombineProduct}
    (h : (replicas.map (checkReplica p sigs trustedIssuers now nodeId inputCids)).filterMap
      unaccounted? = []) :
    List.Forall₂ (fun replica certificate => StatesMerge sigs replica.attestation inputCids
        replica.cid trustedIssuers now certificate) replicas
      ((replicas.map (checkReplica p sigs trustedIssuers now nodeId inputCids)).filterMap
        Except.toOption) := by
  induction replicas with
  | nil => exact .nil
  | cons replica rest ih =>
    rw [List.map_cons] at h ⊢
    cases hchecked : checkReplica p sigs trustedIssuers now nodeId inputCids replica with
    | error reason =>
      rw [hchecked, List.filterMap_cons_some (show unaccounted? (.error reason) = some reason
        from rfl)] at h
      cases h
    | ok certificate =>
      rw [hchecked, List.filterMap_cons_none (show unaccounted? (.ok certificate) = none
        from rfl)] at h
      exact .cons (checkReplica_ok hchecked) (ih h)

theorem distinct_length_eq {l : List JsString} : (distinct l).length = l.length ↔ l.Nodup := by
  constructor
  · intro h
    have hsub : (distinct l).Subperm l :=
      List.subperm_of_subset (distinct_nodup l) fun _ hx => mem_distinct.mp hx
    exact (hsub.perm_of_length_le (by omega)).nodup (distinct_nodup l)
  · intro h
    rw [distinct_of_nodup h]

theorem Accounts.leave_leave (accounts : Accounts) (reasons reasons' : List JsString) :
    (accounts.leave reasons).leave reasons' = accounts.leave (reasons ++ reasons') := by
  unfold Accounts.leave
  rw [List.append_assoc]

variable (p sigs) in
/-- One pass of the loop leaves a reason or adds one checked node. -/
theorem accountNode_cases (outcome : ReduceOutcome)
    (observed : InsertionMap JsString CombineObservation) (trustedIssuers : List JsString) (now : ℚ)
    (accounts : Accounts) (node : ReduceTreeNode) :
    ((∃ reasons, reasons ≠ [] ∧
        (accountNode p sigs outcome observed trustedIssuers now accounts node).unaccounted
          = accounts.unaccounted ++ reasons) ∧
      (accountNode p sigs outcome observed trustedIssuers now accounts node).receipts.length
        ≤ accounts.receipts.length + 1) ∨
    ∃ certificates, NodeAccount sigs outcome observed trustedIssuers now node certificates ∧
      accountNode p sigs outcome observed trustedIssuers now accounts node
        = { accounts with receipts := accounts.receipts ++ [attestationReceipt certificates] } := by
  have hleave : ∀ reasons, reasons ≠ [] → (∃ reasons', reasons' ≠ [] ∧
        (accounts.leave reasons).unaccounted = accounts.unaccounted ++ reasons') ∧
      (accounts.leave reasons).receipts.length ≤ accounts.receipts.length + 1 := by
    intro reasons hne
    exact ⟨⟨reasons, hne, rfl⟩, Nat.le_succ _⟩
  unfold accountNode
  split
  · exact Or.inl (hleave _ (List.cons_ne_nil _ _))
  · next hremote =>
    split
    · exact Or.inl (hleave _ (List.cons_ne_nil _ _))
    · next hagreed =>
      cases hseen : observed.get? node.id with
      | none => exact Or.inl (hleave _ (List.cons_ne_nil _ _))
      | some seen =>
        dsimp only
        split
        · exact Or.inl (hleave _ (List.cons_ne_nil _ _))
        · next hreplicas =>
          generalize hchecked : seen.replicas.map
            (checkReplica p sigs trustedIssuers now node.id seen.inputCids) = checked
          by_cases hclean : checked.filterMap unaccounted? = []
          · -- Every replica verified.
            have hverified := forall₂_verified (hchecked ▸ hclean)
            rw [hchecked] at hverified
            rw [hclean]
            split
            · rw [Accounts.leave_leave, List.nil_append]
              exact Or.inl (hleave _ (List.cons_ne_nil _ _))
            · next hkeys =>
              split
              · next hnil =>
                rw [hnil] at hverified
                exact absurd (List.forall₂_nil_right_iff.mp hverified) hreplicas
              · have hnodup := not_not.mp hkeys
                rw [← List.length_map (f := NodeCertificate.nodeKey),
                  distinct_length_eq] at hnodup
                refine Or.inr ⟨_, ⟨hremote, not_not.mp hagreed,
                  ⟨seen, hseen, hreplicas, hverified⟩, hnodup⟩, ?_⟩
                unfold Accounts.leave
                rw [List.append_nil]
          · refine Or.inl ?_
            split
            · rw [Accounts.leave_leave]
              exact hleave _ (List.append_ne_nil_of_left_ne_nil hclean _)
            · split
              · exact hleave _ hclean
              · refine ⟨⟨_, hclean, rfl⟩, ?_⟩
                show (accounts.receipts ++ [_]).length ≤ _
                rw [List.length_append, List.length_singleton]

variable (p sigs) in
/-- The loop: at most one receipt a node, and one checked node a receipt where no
    reason was left. -/
theorem foldl_accountNode (outcome : ReduceOutcome)
    (observed : InsertionMap JsString CombineObservation) (trustedIssuers : List JsString) (now : ℚ)
    (nodes : List ReduceTreeNode) :
    (nodes.foldl (accountNode p sigs outcome observed trustedIssuers now) ⟨[], []⟩).receipts.length
        ≤ nodes.length ∧
      ((nodes.foldl (accountNode p sigs outcome observed trustedIssuers now) ⟨[], []⟩).unaccounted
          = [] →
        ∃ certified : List (ReduceTreeNode × List NodeCertificate),
          certified.map Prod.fst = nodes ∧
          (∀ e ∈ certified, NodeAccount sigs outcome observed trustedIssuers now e.1 e.2) ∧
          (nodes.foldl (accountNode p sigs outcome observed trustedIssuers now) ⟨[], []⟩).receipts
            = certified.map fun e => attestationReceipt e.2) := by
  induction nodes using List.reverseRecOn with
  | nil => exact ⟨Nat.le_refl 0, fun _ => ⟨[], rfl, fun e he => absurd he List.not_mem_nil, rfl⟩⟩
  | append_singleton nodes node ih =>
    rw [List.foldl_concat, List.length_append, List.length_singleton]
    generalize nodes.foldl (accountNode p sigs outcome observed trustedIssuers now) ⟨[], []⟩
      = accounts at ih ⊢
    obtain ⟨hlength, hclean⟩ := ih
    rcases accountNode_cases p sigs outcome observed trustedIssuers now accounts
      node with ⟨⟨reasons, hne, hreasons⟩, hreceipts⟩ | ⟨certificates, haccount, heq⟩
    · refine ⟨by omega, ?_⟩
      intro hnone
      rw [hreasons] at hnone
      exact absurd (List.append_eq_nil_iff.mp hnone).2 hne
    · rw [heq]
      refine ⟨?_, ?_⟩
      · show (accounts.receipts ++ [_]).length ≤ _
        rw [List.length_append, List.length_singleton]
        omega
      · intro hnone
        obtain ⟨certified, hnodes, hall, hreceipts⟩ := hclean hnone
        refine ⟨certified ++ [(node, certificates)], ?_, ?_, ?_⟩
        · rw [List.map_append, hnodes]
          rfl
        · intro e he
          rcases List.mem_append.mp he with he | he
          · exact hall e he
          · rw [List.mem_singleton.mp he]
            exact haccount
        · show accounts.receipts ++ [_] = _
          rw [hreceipts, List.map_append]
          rfl

theorem weakestReceipt_spec (first : AttestationReceipt) (rest : List AttestationReceipt) :
    weakestReceipt first rest ∈ first :: rest ∧
      ∀ receipt ∈ first :: rest,
        attestationRank (weakestReceipt first rest).strength ≤ attestationRank receipt.strength := by
  unfold weakestReceipt
  induction rest generalizing first with
  | nil =>
    refine ⟨List.mem_cons_self, ?_⟩
    intro receipt hreceipt
    rw [List.mem_singleton.mp hreceipt]
    exact Nat.le_refl _
  | cons next rest ih =>
    rw [List.foldl_cons]
    split
    · next hweaker =>
      obtain ⟨hmem, hle⟩ := ih next
      refine ⟨List.mem_cons_of_mem _ hmem, ?_⟩
      intro receipt hreceipt
      rcases List.mem_cons.mp hreceipt with rfl | hreceipt
      · exact Nat.le_trans (hle next List.mem_cons_self) (Nat.le_of_lt hweaker)
      · exact hle receipt hreceipt
    · next hnot =>
      obtain ⟨hmem, hle⟩ := ih first
      refine ⟨?_, ?_⟩
      · rcases List.mem_cons.mp hmem with heq | hmem
        · rw [heq]
          exact List.mem_cons_self
        · exact List.mem_cons_of_mem _ (List.mem_cons_of_mem _ hmem)
      · intro receipt hreceipt
        rcases List.mem_cons.mp hreceipt with rfl | hreceipt
        · exact hle receipt List.mem_cons_self
        · rcases List.mem_cons.mp hreceipt with rfl | hreceipt
          · exact Nat.le_trans (hle first List.mem_cons_self) (Nat.not_lt.mp hnot)
          · exact hle receipt (List.mem_cons_of_mem _ hreceipt)

/-! ## One combine -/

theorem peerCalls_subset (options : ReduceJobOptions) (result : CombineResult) :
    ∀ call ∈ peerCalls p options result, call ∈ result.calls := by
  intro call hcall
  unfold peerCalls at hcall
  split at hcall
  · cases hcall
  · next first rest hcalls =>
    rw [hcalls]
    split at hcall
    · exact List.mem_cons_of_mem _ hcall
    · exact hcall

/-- The requests of a combine the requestor did not perform itself: their answers are
    its peers', and all of them were observed. -/
structure PeersOnly (p : Platform) (codec : Codec p) (options : ReduceJobOptions)
    (answers : Answers) (result : CombineResult) : Prop where
  task : ∃ task, ∀ call ∈ result.calls, call.task = task
  observed : (peerCalls p options result).filterMap CombineCall.answer
    = result.calls.filterMap CombineCall.answer
  remote : ∀ call ∈ result.calls, ∀ product, call.answer = some product →
    ∃ n, remoteCombineDispatch p codec answers.exchange call.task n call.executorId
      = some product

theorem peersOnly {tree : ReduceTree} {result : CombineResult}
    (hresult : result ∈ options.results p codec answers tree)
    (hremote : result.combinedLocally = false) : PeersOnly p codec options answers result := by
  obtain ⟨resolved, heq⟩ := mem_resultsFrom p.hashText p.localeCompare hresult
  have hcalls := combine_calls p.hashText p.localeCompare
    (options.reduceRun p codec answers tree) resolved result.node
  rw [← heq] at hcalls
  cases hcalls with
  | none hnil =>
    refine ⟨⟨⟨[], [], 0⟩, ?_⟩, ?_, ?_⟩
    · rw [hnil]
      exact fun call hcall => absurd hcall List.not_mem_nil
    · unfold peerCalls
      rw [hnil]
    · rw [hnil]
      exact fun call hcall => absurd hcall List.not_mem_nil
  | asked task hrefused hasked =>
    refine ⟨⟨task, fun call hcall => (hasked call hcall).1⟩, ?_, ?_⟩
    · unfold peerCalls
      cases hcalls : result.calls with
      | nil => rfl
      | cons first rest =>
        have hfirst := (hasked first (by rw [hcalls]; exact List.mem_cons_self)).1
        have hnot : options.admitsLocally p first.task ≠ .ok := by
          rw [hfirst]
          exact hrefused _ rfl
        dsimp only
        split
        · next hok => exact absurd hok hnot
        · rfl
    · intro call hcall product hanswer
      obtain ⟨htask, n, hn⟩ := hasked call hcall
      exact ⟨n, by rw [htask, ← hanswer, hn]; rfl⟩
  | local_ task placement answer asked hplacement hadmits hcalls hlocal hasked =>
    cases hplacement
    have hnone : answer = none := by
      rw [hremote] at hlocal
      exact Option.not_isSome_iff_eq_none.mp (by rw [← hlocal]; exact Bool.false_ne_true)
    refine ⟨⟨task, ?_⟩, ?_, ?_⟩
    · intro call hcall
      rw [hcalls] at hcall
      rcases List.mem_cons.mp hcall with rfl | hcall
      · rfl
      · exact (hasked call hcall).1
    · -- The requestor's own attempt is left out, and it came to nothing.
      have hok : options.admitsLocally p task = .ok := hadmits
      unfold peerCalls
      rw [hcalls, List.filterMap_cons_none hnone]
      dsimp only
      rw [hok]
    · intro call hcall product hanswer
      rw [hcalls] at hcall
      rcases List.mem_cons.mp hcall with rfl | hcall
      · rw [hnone] at hanswer
        cases hanswer
      · obtain ⟨htask, n, hn⟩ := hasked call hcall
        exact ⟨n, by rw [htask, ← hanswer, hn]; rfl⟩

/-- Every replica of a combine is a certified node's statement about this very merge,
    and no two are of one node. -/
structure CombineAttested (p : Platform) (codec : Codec p) (sigs : Signatures)
    (answers : Answers) (trustedIssuers : List JsString) (result : CombineResult)
    (certificates : List NodeCertificate) : Prop where
  answered : result.calls.filterMap CombineCall.answer ≠ []
  /-- Over the addresses that were sent, in that order, and the one that came back. -/
  stated : ∃ inputCids,
    (∀ call ∈ result.calls, call.task.inputCids.mapM p.parseCid = some inputCids) ∧
    List.Forall₂ (fun product certificate => StatesMerge sigs product.attestation inputCids
        product.cid trustedIssuers answers.now certificate)
      (result.calls.filterMap CombineCall.answer) certificates
  /-- The block of every replica was handed over and hashed. -/
  retrieved : ∀ call ∈ result.calls, ∀ product, call.answer = some product →
    ∃ n bytes, repliedBytes (answers.exchange call.task n call.executorId).block = some bytes ∧
      codec.blockCid bytes = product.cid
  keys : (certificates.map NodeCertificate.nodeKey).Nodup

/-! ## The receipt -/

/-- What a receipt for an aggregation states. -/
structure Receipted (p : Platform) (codec : Codec p) (sigs : Signatures)
    (options : ReduceJobOptions) (answers : Answers) (reduced : Reduction)
    (receipt : AttestationReceipt) : Prop where
  combines : reduced.tree.nodes ≠ []
  none_local : reduced.outcome.locallyCombined = []
  none_failed : reduced.outcome.failed = []
  none_disagreed : reduced.outcome.disagreements = []
  /-- For each node its result and the certificates of its replicas; the strength is
      the least of the nodes'. -/
  attested : ∃ issuers, options.trustedIssuers = .trusts issuers ∧
    ∃ certified : List (ReduceTreeNode × List NodeCertificate),
      certified.map Prod.fst = reduced.tree.nodes ∧
      (∀ e ∈ certified,
        (∃ result ∈ options.results p codec answers reduced.tree, result.node = e.1) ∧
        ∀ result ∈ options.results p codec answers reduced.tree, result.node = e.1 →
          CombineAttested p codec sigs answers issuers result e.2) ∧
      (∃ e ∈ certified, receipt.strength = classifyAttestation e.2) ∧
      ∀ e ∈ certified,
        attestationRank receipt.strength ≤ attestationRank (classifyAttestation e.2)

variable (p sigs) in
/-- What is returned, taken apart. -/
theorem aggregateAttestationOf_cases (tree : ReduceTree) (outcome : ReduceOutcome)
    (observed : InsertionMap JsString CombineObservation) (anchors : CombineTrustAnchors)
    (now : ℚ) :
    (∃ absence, aggregateAttestationOf p sigs tree outcome observed anchors now
        = .holdsNoVerifiedAggregateAttestation absence ∧ absence.combines = tree.nodes.length ∧
        absence.verified ≤ absence.combines) ∨
    ∃ issuers receipt, anchors = .trusts issuers ∧ tree.nodes ≠ [] ∧
      aggregateAttestationOf p sigs tree outcome observed anchors now = .receipt receipt ∧
      ∃ certified : List (ReduceTreeNode × List NodeCertificate),
        certified.map Prod.fst = tree.nodes ∧
        (∀ e ∈ certified, NodeAccount sigs outcome observed issuers now e.1 e.2) ∧
        (∃ e ∈ certified, receipt.strength = classifyAttestation e.2) ∧
        ∀ e ∈ certified,
          attestationRank receipt.strength ≤ attestationRank (classifyAttestation e.2) := by
  unfold aggregateAttestationOf
  dsimp only
  split
  · next hnone => exact Or.inl ⟨_, rfl, hnone.symm, Nat.le_refl 0⟩
  · next hsome =>
    cases anchors with
    | checksNoCombineSignatures => exact Or.inl ⟨_, rfl, rfl, Nat.zero_le _⟩
    | trusts issuers =>
      obtain ⟨hlength, hclean⟩ := foldl_accountNode p sigs outcome observed
        issuers now tree.nodes
      dsimp only
      generalize tree.nodes.foldl (accountNode p sigs outcome observed issuers now) ⟨[], []⟩
        = accounts at hlength hclean ⊢
      cases hreceipts : accounts.receipts with
      | nil => exact Or.inl ⟨_, rfl, rfl, Nat.zero_le _⟩
      | cons first rest =>
        rw [hreceipts] at hlength hclean
        dsimp only
        split
        · exact Or.inl ⟨_, rfl, rfl, hlength⟩
        · next hall =>
          rw [not_or, not_not, not_not] at hall
          obtain ⟨certified, hnodes, haccounts, hmap⟩ := hclean hall.1
          obtain ⟨hmem, hle⟩ := weakestReceipt_spec first rest
          refine Or.inr ⟨issuers, _, rfl, ?_, rfl, certified, hnodes, haccounts, ?_, ?_⟩
          · intro hnil
            rw [hnil] at hsome
            exact hsome rfl
          · rw [hmap] at hmem
            obtain ⟨e, he, heq⟩ := List.mem_map.mp hmem
            exact ⟨e, he, by rw [← heq]; rfl⟩
          · intro e he
            apply hle (attestationReceipt e.2)
            rw [hmap]
            exact List.mem_map_of_mem he

/-- What was observed of a combine that only peers performed, under distinct ids. -/
theorem get?_observe_result {R : Report}
    (hexecuted : Executed p.hashText p.localeCompare (options.reduceRun p codec answers reduced.tree)
      (options.results p codec answers reduced.tree) R) {result : CombineResult}
    (hresult : result ∈ options.results p codec answers reduced.tree)
    (hpeers : PeersOnly p codec options answers result)
    (hanswered : result.calls.filterMap CombineCall.answer ≠ []) :
    ∃ inputCids, (∀ call ∈ result.calls, call.task.inputCids.mapM p.parseCid = some inputCids) ∧
      (observe p options (options.results p codec answers reduced.tree)).get? result.node.id
        = some ⟨inputCids, result.calls.filterMap CombineCall.answer⟩ := by
  obtain ⟨task, htask⟩ := hpeers.task
  -- A peer answered, so the task's inputs parsed.
  obtain ⟨inputCids, hparsed⟩ : ∃ inputCids, task.inputCids.mapM p.parseCid = some inputCids := by
    obtain ⟨product, hproduct⟩ := List.exists_mem_of_ne_nil _ hanswered
    obtain ⟨call, hcall, hanswer⟩ := List.mem_filterMap.mp hproduct
    obtain ⟨n, hn⟩ := hpeers.remote call hcall product hanswer
    have hinputs := ((remoteCombineDispatch_eq_some p codec).mp hn).1
    rwa [htask call hcall] at hinputs
  refine ⟨inputCids, fun call hcall => by rw [htask call hcall, hparsed], ?_⟩
  have hown : ∀ r ∈ options.results p codec answers reduced.tree,
      ∀ call ∈ peerCalls p options r, call.task.nodeId = r.node.id := by
    intro r hr call hcall
    obtain ⟨_, -, heq⟩ := (hexecuted.spec hr).task_eq call (peerCalls_subset options r call hcall)
    rw [heq]
  have hresultIds := (List.nodup_append.mp hexecuted.ids_nodup).2.1
  rw [observe, get?_observe, filter_calls_eq hresultIds hown hresult,
    foldl_observeAnswer fun call hcall => htask call (peerCalls_subset options result call hcall),
    hpeers.observed, if_neg hanswered, hparsed]
  rfl

end

/-! ## Receipts over partials -/

def peerCertificate (nodeKey : JsString) : NodeCertificate where
  nodeKey := nodeKey
  userKey := nodeKey
  operatorId := nodeKey
  discoverability := .seed
  relayIds := []
  issuedAt := 0
  expiresAt := 1
  issuer := js "i"
  signature := []

/-- Certificates stand; `signs` says which node keys signed a merge of which inputs. -/
def signaturesOf (signs : JsString → List Cid → Bool) : Signatures where
  x509Failure _ := none
  signedByIssuer _ := true
  signedCombine nodeKey inputCids _ _ := signs nodeKey inputCids

/-- Peers that return a block of seven bytes, under the node key given. -/
def sevenSigned (nodeKey : CombineTask → JsString → JsString) : Answers where
  exchange task _ executorId :=
    ⟨some (.combine (some (unaryCid 7)) [] (.signed ⟨peerCertificate (nodeKey task executorId), []⟩)),
      some (.block (some (List.replicate 7 0)))⟩
  held _ _ := none
  combiner _ := .null
  now := 0

/-- Groups of two, combined by peers of one issuer. -/
def pairsOptions (executors : List JsString) (rows : Nat → Nat)
    (contributors : ContributorAttribution) : ReduceJobOptions where
  localId := js "r"
  executors := executors
  project _ partitionIndex := .ok (rowsPartial (rows partitionIndex))
  fanout := some 2
  redundancy := some (.finite executors.length)
  trustedIssuers := .trusts [js "i"]
  contributors := contributors
  placement := .requiresRemoteCombining

def ReduceJobResult.reduced? : ReduceJobResult → Option Reduction
  | .ok reduced => some reduced
  | _ => none

def AggregateAttestation.held? : AggregateAttestation → Option AttestationReceipt
  | .receipt held => some held
  | .holdsNoVerifiedAggregateAttestation _ => none

/-- A reduction with a receipt, and what is computed of it. -/
theorem exists_receipt {result : ReduceJobResult} {α : Type} {f : Reduction → α} {a : α}
    (h : (result.reduced?.bind fun reduced =>
      reduced.aggregateAttestation.held?.map fun _ => f reduced) = some a) :
    ∃ reduced receipt, result = .ok reduced ∧ reduced.aggregateAttestation = .receipt receipt ∧
      f reduced = a := by
  obtain ⟨reduced, hreduced, hreceipt⟩ := Option.bind_eq_some_iff.mp h
  obtain ⟨receipt, hsome, hf⟩ := Option.map_eq_some_iff.mp hreceipt
  refine ⟨reduced, receipt, ?_, ?_, hf⟩
  · cases result with
    | threw => cases hreduced
    | refused reason => cases hreduced
    | ok found =>
      obtain rfl := Option.some.inj hreduced
      rfl
  · cases hattestation : reduced.aggregateAttestation with
    | receipt found =>
      rw [hattestation] at hsome
      obtain rfl := Option.some.inj hsome
      rfl
    | holdsNoVerifiedAggregateAttestation absence =>
      rw [hattestation] at hsome
      cases hsome

/-- Three shards over two peers that sign what they merge. -/
def signedReduction : ReduceJobResult :=
  reduceJob countingPlatform countingCodec (signaturesOf fun _ _ => true)
    (jobOf [ownedShard 0 (js "a"), ownedShard 1 (js "a"), ownedShard 2 (js "a")])
    (pairsOptions [js "m", js "n"] (· + 1) .attributesEachShardToItsOwnPartitionIndex)
    (sevenSigned fun _ executorId => executorId)

/-- Four owners whose first two leaves are spelled like the last two. -/
def collidingOwners : InsertionMap Nat JsString :=
  .ofPairs [(0, js "a"), (1, js "a\x00a0\x00aa|b"), (2, js "a\x00a|a\x00a0"), (3, js "b")]

/-- The third partial has two rows, the others one. -/
def collidingOptions : ReduceJobOptions :=
  pairsOptions [js "m"] (fun partitionIndex => if partitionIndex = 2 then 2 else 1)
    (.owners collidingOwners)

/-- The merge of the first two partials is one node's, and that of the last two
    another's, which signs a merge of the first two instead. -/
def misattributing : Answers :=
  sevenSigned fun task _ =>
    if task.inputCids = [unary 2, unary 1] then js "other"
    else if task.level = 1 then js "first"
    else js "root"

def signsTheFirst : Signatures :=
  signaturesOf fun nodeKey inputCids =>
    decide (nodeKey = js "other" → inputCids = [unaryCid 1, unaryCid 1])

def collidingReduction : ReduceJobResult :=
  reduceJob countingPlatform countingCodec signsTheFirst
    (jobOf [ownedShard 0 (js "a"), ownedShard 1 (js "a"), ownedShard 2 (js "a"),
      ownedShard 3 (js "a")])
    collidingOptions misattributing

/-- Every answer to a combine carries a signature over that combine's own merge. -/
def signsItsOwn (p : Platform) (sigs : Signatures) (result : CombineResult) : Bool :=
  result.calls.all fun call =>
    match call.answer, call.task.inputCids.mapM p.parseCid with
    | some ⟨cid, .signed attestation⟩, some inputCids =>
      sigs.signedCombine attestation.certificate.nodeKey inputCids cid attestation.signature
    | _, _ => false

theorem CombineAttested.signsItsOwn {p : Platform} {codec : Codec p} {sigs : Signatures}
    {answers : Answers} {trustedIssuers : List JsString} {result : CombineResult}
    {certificates : List NodeCertificate}
    (h : CombineAttested p codec sigs answers trustedIssuers result certificates)
    (hall : ∀ call ∈ result.calls, call.answer ≠ none) :
    Net.signsItsOwn p sigs result = true := by
  unfold Net.signsItsOwn
  rw [List.all_eq_true]
  intro call hcall
  obtain ⟨inputCids, hparsed, hstated⟩ := h.stated
  obtain ⟨product, hanswer⟩ := Option.ne_none_iff_exists'.mp (hall call hcall)
  have hmem : product ∈ result.calls.filterMap CombineCall.answer :=
    List.mem_filterMap.mpr ⟨call, hcall, hanswer⟩
  obtain ⟨certificate, -, hstates⟩ := exists_of_mem_of_forall₂ hstated hmem
  obtain ⟨signature, hattestation, hsigned⟩ := hstates.signature
  obtain ⟨cid, attestation⟩ := product
  dsimp only at hattestation
  subst hattestation
  rw [hanswer, hparsed call hcall]
  exact hsigned

end O2Fabric.Net
