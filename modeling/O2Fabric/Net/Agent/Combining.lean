/-
  O2Fabric.Net.Agent.Combining

  One combine, at a peer and at the requestor, over the same blocks.

  The peer's `combineAdmitted` reads an input, bounds it, decodes it in a `try`
  and goes on to the next; the requestor's `localDispatch` reads it and decodes
  it.  `settle` runs the peer's handling to its end with a store that holds the
  given blocks.

    * `settle_combines` is what the peer comes to, `localDispatch_eq` what the
      requestor comes to, each by one pass over the inputs.
    * `combine_means_the_same_iff` is when the two are the same.
-/

import O2Fabric.Core.Reduce.Execute
import O2Fabric.Net.Agent.Step

namespace O2Fabric.Net

open Job Threads Reduce

variable {p : Platform} {options : AgentOptions}

/-! ## A peer whose store holds given blocks -/

/-- A read of a store that holds `get`. -/
def Found.ofStore (get : Cid → Option Bytes) (cid : Cid) : Found :=
  match get cid with
  | none => .missing
  | some bytes => .found bytes

/-- What such a store answers to the call a combine awaits. -/
def storeAnswers (get : Cid → Option Bytes) : Phase → Option Action
  | .combining work inputs =>
    work.inputCids[inputs.length]?.map fun cid => .got (Found.ofStore get cid)
  | .merging .. => some (.hashed none)
  | .storing .. => some (.stored none)
  | _ => none

/-- The handling of request `i`, from one `await` to the next, while such a store
    answers. -/
def settle (p : Platform) (options : AgentOptions) (i : Nat) (get : Cid → Option Bytes) :
    Nat → Agent × Phase → Agent × Phase
  | 0, state => state
  | fuel + 1, (agent, phase) =>
    match storeAnswers get phase with
    | none => (agent, phase)
    | some action =>
      match stepRequest p options i action agent phase with
      | none => (agent, phase)
      | some next => settle p options i get fuel next

/-- The result a combine's reply names. -/
def Phase.resultCid : Phase → Option (Option Cid)
  | .answered _ (.response (.combine resultCid _ _)) _ => some resultCid
  | _ => none

/-- A combine's handling: admitted by the authorizer, then as many calls of the store
    as it makes. -/
def combineSettled (p : Platform) (options : AgentOptions) (i : Nat) (get : Cid → Option Bytes)
    (agent : Agent) (work : CombineWork) : Phase :=
  (settle p options i get (work.inputCids.length + 2)
    (combineAdmitted options agent work .admits)).2

/-! ## What the peer comes to -/

/-- What a peer makes of the inputs: those it merges, or nothing. -/
def peerReads (get : Cid → Option Bytes) (decode : Bytes → Option CanonicalValue) :
    List Cid → Option (List CanonicalValue)
  | [] => some []
  | cid :: rest =>
    match get cid with
    | none => none
    | some bytes =>
      if MAX_PARTIAL_BYTES < bytes.length then none
      else
        match decode bytes with
        | none => none
        | some decoded => (peerReads get decode rest).map (decoded :: ·)

def peerProduct (p : Platform) (options : AgentOptions) (get : Cid → Option Bytes)
    (inputCids : List Cid) : Option Cid :=
  (peerReads get options.decode inputCids).bind fun inputs =>
    (p.canonicalCid (options.combiner inputs)).toOption

variable {get : Cid → Option Bytes} {i : Nat}

variable {n : Nat} {agent : Agent}

theorem settle_answered {from_ : JsString} {body : ReplyBody} :
    settle p options i get n (agent, .answered from_ body none)
      = (agent, .answered from_ body none) := by
  cases n <;> rfl

variable {work : CombineWork}

/-- All inputs are read: the merge is hashed and stored. -/
theorem settle_merging {merged : CanonicalValue} {computation : Nat} :
    ((settle p options i get 2 (agent, .merging work merged computation)).2).resultCid
      = some (p.canonicalCid merged).toOption := by
  show ((settle p options i get 1 (combineHashed p agent work merged computation)).2).resultCid = _
  unfold combineHashed
  cases p.canonicalCid merged with
  | error error => rfl
  | ok cid => rfl

/-- One turn of the loop. -/
theorem settle_combining {inputs : List CanonicalValue} {cid : Cid}
    (hcid : work.inputCids[inputs.length]? = some cid) :
    settle p options i get (n + 1) (agent, .combining work inputs)
      = settle p options i get n
          (combineInput options agent work inputs cid (Found.ofStore get cid)) := by
  have hanswers : storeAnswers get (.combining work inputs)
      = some (.got (Found.ofStore get cid)) := by
    simp only [storeAnswers, hcid, Option.map_some]
  have hstep : stepRequest p options i (.got (Found.ofStore get cid)) agent
      (.combining work inputs)
      = some (combineInput options agent work inputs cid (Found.ofStore get cid)) := by
    simp only [stepRequest, hcid]
  simp only [settle, hanswers, hstep]

/-- A combine that fails has its reply. -/
theorem settle_fails {reason : JsString} :
    ((settle p options i get n (combineFails agent work reason)).2).resultCid = some none := by
  unfold combineFails replies
  rw [settle_answered]
  rfl

/-- The loop from an input on, after `inputs` were read. -/
theorem settle_reads (rest : List Cid) (inputs : List CanonicalValue)
    (hrest : work.inputCids.drop inputs.length = rest) :
    ((settle p options i get (rest.length + 2)
        (combineReads options agent work inputs)).2).resultCid
      = some ((peerReads get options.decode rest).bind fun more =>
          (p.canonicalCid (options.combiner (inputs ++ more))).toOption) := by
  have hlength := congrArg List.length hrest
  rw [List.length_drop] at hlength
  induction rest generalizing inputs agent with
  | nil =>
    rw [List.length_nil] at hlength
    unfold combineReads
    rw [if_neg (by omega)]
    show _ = some ((p.canonicalCid (options.combiner (inputs ++ []))).toOption)
    rw [List.append_nil]
    exact settle_merging
  | cons cid rest ih =>
    rw [List.length_cons] at hlength
    have hcid : work.inputCids[inputs.length]? = some cid := by
      rw [← List.head?_drop, hrest]
      rfl
    have hnext : ∀ decoded : CanonicalValue,
        work.inputCids.drop (inputs ++ [decoded]).length = rest := by
      intro decoded
      rw [List.length_append, List.length_singleton, ← List.drop_drop, hrest]
      rfl
    unfold combineReads
    rw [if_pos (by omega), List.length_cons, Nat.add_right_comm, settle_combining hcid]
    unfold peerReads Found.ofStore
    cases hget : get cid with
    | none => exact settle_fails
    | some bytes =>
      unfold combineInput
      dsimp only
      by_cases hlarge : MAX_PARTIAL_BYTES < bytes.length
      · rw [if_pos hlarge, if_pos hlarge]
        exact settle_fails
      · rw [if_neg hlarge, if_neg hlarge]
        cases hdecode : options.decode bytes with
        | none => exact settle_fails
        | some decoded =>
          dsimp only
          have hnow := hnext decoded
          rw [ih (inputs ++ [decoded]) hnow (by
            rw [List.length_append, List.length_singleton]
            omega)]
          cases peerReads get options.decode rest with
          | none => rfl
          | some more =>
            show some _ = some _
            rw [Option.bind_some, Option.map_some, Option.bind_some,
              List.append_assoc, List.singleton_append]

/-- A peer that admits a combine answers with what it makes of its inputs. -/
theorem settle_combines (i : Nat) (get : Cid → Option Bytes) (agent : Agent)
    (work : CombineWork) :
    (combineSettled p options i get agent work).resultCid
      = some (peerProduct p options get work.inputCids) := by
  unfold combineSettled peerProduct combineAdmitted
  exact settle_reads work.inputCids [] rfl

/-! ## What the requestor comes to -/

/-- The value a store that holds `get` has under an address. -/
def valueOf (get : Cid → Option Bytes) (decode : Bytes → Option CanonicalValue) (cid : Cid) :
    Option CanonicalValue :=
  (get cid).bind decode

/-- The inputs held before the first one missing all decode. -/
def HeldDecode (get : Cid → Option Bytes) (decode : Bytes → Option CanonicalValue) :
    List Cid → Prop
  | [] => True
  | cid :: rest =>
    match get cid with
    | none => True
    | some bytes => (decode bytes).isSome = true ∧ HeldDecode get decode rest

/-- The requestor's own placement, with the peer's combiner and codec. -/
def localOptions (options : AgentOptions) (get : Cid → Option Bytes) : LocalOptions :=
  ⟨get, options.combiner, options.decode, [LOCAL_COMBINE_EXECUTOR]⟩

section

variable (hparse : ∀ cid : Cid, p.parseCid cid.toText = some cid)
include hparse

theorem readInputs_missing {cid : Cid} {rest : List JsString} {inputs : List CanonicalValue}
    (hget : get cid = none) :
    readInputs p (localOptions options get) (cid.toText :: rest) inputs = .missing := by
  simp only [readInputs, hparse, localOptions, hget]

theorem readInputs_undecodable {cid : Cid} {rest : List JsString}
    {inputs : List CanonicalValue} {bytes : Bytes} (hget : get cid = some bytes)
    (hdecode : options.decode bytes = none) :
    readInputs p (localOptions options get) (cid.toText :: rest) inputs = .threw := by
  simp only [readInputs, hparse, localOptions, hget, hdecode]

theorem readInputs_decoded {cid : Cid} {rest : List JsString} {inputs : List CanonicalValue}
    {bytes : Bytes} {decoded : CanonicalValue} (hget : get cid = some bytes)
    (hdecode : options.decode bytes = some decoded) :
    readInputs p (localOptions options get) (cid.toText :: rest) inputs
      = readInputs p (localOptions options get) rest (inputs ++ [decoded]) := by
  conv => lhs; unfold readInputs
  simp only [hparse, localOptions, hget, hdecode]

variable (options get) in
/-- Every way the requestor's loop over its inputs can end. -/
theorem readInputs_cases (cids : List Cid) (inputs : List CanonicalValue) :
    (¬ HeldDecode get options.decode cids ∧
      readInputs p (localOptions options get) (cids.map Cid.toText) inputs = .threw) ∨
    (HeldDecode get options.decode cids ∧ (∃ cid ∈ cids, get cid = none) ∧
      readInputs p (localOptions options get) (cids.map Cid.toText) inputs = .missing) ∨
    (HeldDecode get options.decode cids ∧ (∀ cid ∈ cids, get cid ≠ none) ∧
      ∃ decoded, cids.mapM (valueOf get options.decode) = some decoded ∧
        readInputs p (localOptions options get) (cids.map Cid.toText) inputs
          = .all (inputs ++ decoded)) := by
  induction cids generalizing inputs with
  | nil =>
    right; right
    refine ⟨trivial, ?_, [], rfl, ?_⟩
    · intro cid hcid
      cases hcid
    · rw [List.append_nil]
      rfl
  | cons cid rest ih =>
    rw [List.map_cons]
    cases hget : get cid with
    | none =>
      right; left
      refine ⟨?_, ⟨cid, List.mem_cons_self, hget⟩, readInputs_missing hparse hget⟩
      simp only [HeldDecode, hget]
    | some bytes =>
      cases hdecode : options.decode bytes with
      | none =>
        left
        refine ⟨?_, readInputs_undecodable hparse hget hdecode⟩
        simp only [HeldDecode, hget, hdecode]
        simp
      | some decoded =>
        have hheld : HeldDecode get options.decode (cid :: rest)
            ↔ HeldDecode get options.decode rest := by
          simp only [HeldDecode, hget, hdecode, Option.isSome_some, true_and]
        have hvalue : valueOf get options.decode cid = some decoded := by
          rw [valueOf, hget, Option.bind_some, hdecode]
        rw [hheld, readInputs_decoded hparse hget hdecode]
        rcases ih (inputs ++ [decoded]) with
          hthrew | ⟨hdecodes, ⟨gone, hgone, hnone⟩, hmissing⟩ | ⟨hdecodes, hall, more, hmore, hread⟩
        · exact Or.inl hthrew
        · exact Or.inr (Or.inl
            ⟨hdecodes, ⟨gone, List.mem_cons_of_mem _ hgone, hnone⟩, hmissing⟩)
        · refine Or.inr (Or.inr ⟨hdecodes, ?_, decoded :: more, ?_, ?_⟩)
          · intro other hother
            rcases List.mem_cons.mp hother with rfl | hin
            · rw [hget]
              exact Option.some_ne_none _
            · exact hall other hin
          · rw [List.mapM_cons, hvalue, hmore]
            rfl
          · rw [hread, List.append_assoc, List.singleton_append]

end

/-! ## Both -/

/-- Every input held is within the budget of a partial. -/
def WithinBudget (get : Cid → Option Bytes) (cids : List Cid) : Prop :=
  ∀ cid ∈ cids, ∀ bytes, get cid = some bytes → bytes.length ≤ MAX_PARTIAL_BYTES

/-- The peer reads what the requestor reads, where the budget allows. -/
theorem peerReads_eq {decode : Bytes → Option CanonicalValue} {cids : List Cid}
    {decoded : List CanonicalValue} (hmapM : cids.mapM (valueOf get decode) = some decoded) :
    peerReads get decode cids = some decoded ∧ WithinBudget get cids ∨
      peerReads get decode cids = none ∧ ¬ WithinBudget get cids := by
  induction cids generalizing decoded with
  | nil =>
    left
    rw [List.mapM_nil] at hmapM
    refine ⟨hmapM, ?_⟩
    intro cid hcid
    cases hcid
  | cons cid rest ih =>
    obtain ⟨value, more, hvalue, hmore, rfl⟩ : ∃ value more,
        valueOf get decode cid = some value ∧ rest.mapM (valueOf get decode) = some more ∧
          decoded = value :: more := by
      rw [List.mapM_cons] at hmapM
      obtain ⟨value, hvalue, hmapM⟩ := Option.bind_eq_some_iff.mp hmapM
      obtain ⟨more, hmore, hmapM⟩ := Option.bind_eq_some_iff.mp hmapM
      exact ⟨value, more, hvalue, hmore, (Option.some.inj hmapM).symm⟩
    obtain ⟨bytes, hget, hdecode⟩ := Option.bind_eq_some_iff.mp hvalue
    unfold peerReads
    simp only [hget, hdecode]
    by_cases hlarge : MAX_PARTIAL_BYTES < bytes.length
    · right
      rw [if_pos hlarge]
      refine ⟨rfl, ?_⟩
      intro hbudget
      have hsmall := hbudget cid List.mem_cons_self bytes hget
      omega
    · rw [if_neg hlarge]
      have hbudget : WithinBudget get (cid :: rest) ↔ WithinBudget get rest := by
        constructor
        · intro hbudget other hother
          exact hbudget other (List.mem_cons_of_mem _ hother)
        · intro hbudget other hother held hheld
          rcases List.mem_cons.mp hother with rfl | hin
          · have hsame : bytes = held := Option.some.inj (hget.symm.trans hheld)
            rw [← hsame]
            omega
          · exact hbudget other hin held hheld
      rw [hbudget]
      rcases ih hmore with ⟨hreads, hall⟩ | ⟨hreads, hall⟩
      · left
        rw [hreads]
        exact ⟨rfl, hall⟩
      · right
        rw [hreads]
        exact ⟨rfl, hall⟩

/-- A peer that misses an input has nothing to merge. -/
theorem peerReads_missing {decode : Bytes → Option CanonicalValue} {cids : List Cid}
    (hmissing : ∃ cid ∈ cids, get cid = none) : peerReads get decode cids = none := by
  induction cids with
  | nil =>
    obtain ⟨cid, hcid, -⟩ := hmissing
    cases hcid
  | cons cid rest ih =>
    unfold peerReads
    split
    · rfl
    · next bytes hget =>
      have hrest : peerReads get decode rest = none := by
        obtain ⟨gone, hgone, hnone⟩ := hmissing
        rcases List.mem_cons.mp hgone with rfl | hin
        · rw [hnone] at hget
          cases hget
        · exact ih ⟨gone, hin, hnone⟩
      rw [hrest]
      split
      · rfl
      · split <;> rfl

/-- When a combine comes to the same here and there: the inputs held before the first
    one missing decode; and one is missing, or none is over the budget, or what
    they merge to cannot be encoded. -/
def MeansTheSame (p : Platform) (options : AgentOptions) (get : Cid → Option Bytes)
    (cids : List Cid) : Prop :=
  HeldDecode get options.decode cids ∧
    ((∃ cid ∈ cids, get cid = none) ∨ WithinBudget get cids ∨
      ∀ inputs, cids.mapM (valueOf get options.decode) = some inputs →
        ∃ error, p.canonicalCid (options.combiner inputs) = .error error)

/-- A combine that was admitted produces the same here and at a peer, or nothing at
    both and without throwing, exactly when `MeansTheSame`. -/
theorem combine_means_the_same_iff (p : Platform) (options : AgentOptions) (i : Nat)
    (get : Cid → Option Bytes) (agent : Agent) (work : CombineWork)
    (hparse : ∀ cid : Cid, p.parseCid cid.toText = some cid) :
    (∃ resultCid, (combineSettled p options i get agent work).resultCid = some resultCid ∧
      localDispatch p (localOptions options get)
          ⟨work.combineId, work.inputCids.map Cid.toText, work.level⟩ LOCAL_COMBINE_EXECUTOR
        = .settled (resultCid.map fun cid => ⟨cid, .signedByNobody⟩)) ↔
      MeansTheSame p options get work.inputCids := by
  rw [settle_combines]
  simp only [Option.some.injEq, exists_eq_left']
  have hlive : LOCAL_COMBINE_EXECUTOR ∈ (localOptions options get).liveNodes :=
    List.mem_singleton_self _
  unfold localDispatch peerProduct MeansTheSame
  rw [if_pos hlive]
  dsimp only
  rcases readInputs_cases options get hparse work.inputCids [] with
    ⟨hheld, hread⟩ | ⟨hheld, hmissing, hread⟩ | ⟨hheld, hall, decoded, hmapM, hread⟩
  · rw [hread]
    constructor
    · intro h
      cases h
    · intro h
      exact absurd h.1 hheld
  · rw [hread, peerReads_missing hmissing]
    exact ⟨fun _ => ⟨hheld, Or.inl hmissing⟩, fun _ => rfl⟩
  · rw [hread, List.nil_append]
    have hpresent : ¬ ∃ cid ∈ work.inputCids, get cid = none := by
      rintro ⟨cid, hcid, hnone⟩
      exact hall cid hcid hnone
    have hcombiner : (localOptions options get).combiner decoded = options.combiner decoded := rfl
    dsimp only
    rw [hcombiner]
    rcases peerReads_eq hmapM with ⟨hreads, hbudget⟩ | ⟨hreads, hbudget⟩
    · -- both merge the same inputs
      rw [hreads, Option.bind_some]
      refine ⟨fun _ => ⟨hheld, Or.inr (Or.inl hbudget)⟩, fun _ => ?_⟩
      cases p.canonicalCid (options.combiner decoded) with
      | error error => rfl
      | ok cid => rfl
    · rw [hreads, Option.bind_none]
      cases hcid : p.canonicalCid (options.combiner decoded) with
      | error error =>
        refine ⟨fun _ => ⟨hheld, Or.inr (Or.inr ?_)⟩, fun _ => rfl⟩
        intro inputs hinputs
        have hsame : decoded = inputs := Option.some.inj (hmapM.symm.trans hinputs)
        exact ⟨error, hsame ▸ hcid⟩
      | ok cid =>
        constructor
        · intro h
          cases h
        · rintro ⟨-, hmissing | hwithin | hunencodable⟩
          · exact absurd hmissing hpresent
          · exact absurd hwithin hbudget
          · obtain ⟨error, herror⟩ := hunencodable decoded hmapM
            rw [hcid] at herror
            cases herror

/-! ## Blocks on which they differ -/

/-- What merging values none of which is a partial gives. -/
def emptyPartial : CanonicalValue :=
  .record [(js "counts", .record []), (js "rows", .number (.finite 0))]

/-- Byte strings with a header of three bytes decode; nothing shorter does. -/
def readingOptions : AgentOptions :=
  { plainOptions with
    combiner := fun _ => emptyPartial
    decode := fun bytes => if bytes.length < 3 then none else some (.bytes (bytes.drop 3)) }

/-- A byte string of the given length as the codec writes it. -/
def longBlock (n : Nat) : Bytes :=
  [0x59, Fin.ofNat 256 (n / 256), Fin.ofNat 256 n] ++ List.replicate n 0

/-- A combine of one block with itself. -/
def twiceTheSame : CombineWork := ⟨js "k", js "t", [plainCid, plainCid], 1⟩

/-- A node that holds `bytes` under every address. -/
def holds (bytes : Bytes) : Cid → Option Bytes := fun _ => some bytes

@[simp] theorem length_longBlock (n : Nat) : (longBlock n).length = n + 3 := by
  unfold longBlock
  rw [List.length_append, List.length_replicate]
  exact Nat.add_comm 3 n

theorem reading_decodes {bytes : Bytes} (h : 3 ≤ bytes.length) :
    readingOptions.decode bytes = some (.bytes (bytes.drop 3)) :=
  if_neg (by omega)

/-- A block within the budget. -/
theorem combine_means_the_same_short :
    ∃ resultCid, (combineSettled readingPlatform readingOptions 0 (holds (longBlock 256))
        readingOptions.start.shared twiceTheSame).resultCid = some resultCid ∧
      localDispatch readingPlatform (localOptions readingOptions (holds (longBlock 256)))
          ⟨js "t", [plainCid.toText, plainCid.toText], 1⟩ LOCAL_COMBINE_EXECUTOR
        = .settled (resultCid.map fun cid => ⟨cid, .signedByNobody⟩) := by
  apply (combine_means_the_same_iff readingPlatform readingOptions 0 (holds (longBlock 256))
    readingOptions.start.shared twiceTheSame readingPlatform_parses).mpr
  have hdecode : readingOptions.decode (longBlock 256) = some (.bytes ((longBlock 256).drop 3)) :=
    reading_decodes (by rw [length_longBlock]; omega)
  refine ⟨?_, Or.inr (Or.inl ?_)⟩
  · simp only [twiceTheSame, HeldDecode, holds, hdecode, Option.isSome_some, true_and]
  · rintro cid - bytes hbytes
    rw [← Option.some.inj hbytes, length_longBlock]
    decide

/-- Over a block that decodes, the requestor's combine has a product. -/
theorem local_reads_twice {bytes : Bytes} (h : 3 ≤ bytes.length) :
    localDispatch readingPlatform (localOptions readingOptions (holds bytes))
        ⟨js "t", [plainCid.toText, plainCid.toText], 1⟩ LOCAL_COMBINE_EXECUTOR
      = .settled (some ⟨plainCid, .signedByNobody⟩) := by
  have hread := fun rest inputs => @readInputs_decoded readingPlatform readingOptions
    (holds bytes) readingPlatform_parses plainCid rest inputs bytes _ rfl (reading_decodes h)
  unfold localDispatch
  dsimp only
  rw [hread, hread]
  rfl

/-- Over a block of 9217 bytes the requestor's combine has a product and the peer's has
    none; over one that does not decode the requestor's throws. -/
theorem combine_differs :
    ((combineSettled readingPlatform readingOptions 0 (holds (longBlock 9214))
        readingOptions.start.shared twiceTheSame).resultCid = some none ∧
      localDispatch readingPlatform (localOptions readingOptions (holds (longBlock 9214)))
          ⟨js "t", [plainCid.toText, plainCid.toText], 1⟩ LOCAL_COMBINE_EXECUTOR
        = .settled (some ⟨plainCid, .signedByNobody⟩)) ∧
    ((combineSettled readingPlatform readingOptions 0 (holds [])
        readingOptions.start.shared twiceTheSame).resultCid = some none ∧
      localDispatch readingPlatform (localOptions readingOptions (holds []))
          ⟨js "t", [plainCid.toText, plainCid.toText], 1⟩ LOCAL_COMBINE_EXECUTOR
        = .threw) := by
  have hlarge : MAX_PARTIAL_BYTES < (longBlock 9214).length := by
    rw [length_longBlock]
    decide
  have hpeer : ∀ bytes : Bytes, (MAX_PARTIAL_BYTES < bytes.length ∨
      readingOptions.decode bytes = none) →
      peerProduct readingPlatform readingOptions (holds bytes) [plainCid, plainCid] = none := by
    rintro bytes (hsize | hdecode)
    · simp only [peerProduct, peerReads, holds, if_pos hsize, Option.bind_none]
    · by_cases hsize : MAX_PARTIAL_BYTES < bytes.length
      · simp only [peerProduct, peerReads, holds, if_pos hsize, Option.bind_none]
      · simp only [peerProduct, peerReads, holds, if_neg hsize, hdecode, Option.bind_none]
  refine ⟨⟨?_, local_reads_twice (by rw [length_longBlock]; omega)⟩, ?_, ?_⟩
  · rw [settle_combines]
    exact congrArg some (hpeer _ (Or.inl hlarge))
  · rw [settle_combines]
    exact congrArg some (hpeer _ (Or.inr rfl))
  · have hthrew := @readInputs_undecodable readingPlatform readingOptions (holds [])
      readingPlatform_parses plainCid [plainCid.toText] [] [] rfl rfl
    unfold localDispatch
    dsimp only
    rw [hthrew]
    rfl

end O2Fabric.Net
