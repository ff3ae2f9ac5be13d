/-
  O2Fabric.Cloudflare.BankFunnel.CountedOnce

  A report is counted once or refused: what the stored record counts, what the
  memo holds, and how often a working storage can still refuse.

  `Moves` says once what an event does; the invariants go by its cases.
-/

import O2Fabric.Cloudflare.BankFunnel
import O2Fabric.Cloudflare.FunnelJournal.Bounded
import Mathlib.Algebra.Order.BigOperators.Group.List

namespace O2Fabric.BankFunnel

open FunnelJournal Steps Funnel

/-! ## The record of a history -/

theorem consistent_replay (history : List Accrual) :
    Consistent (replay history) history.length := by
  have hfold : ∀ (more : List Accrual) (totals : FunnelTotals) (n : Nat), Consistent totals n →
      Consistent (more.foldl accrueOne totals) (n + more.length) := by
    intro more
    induction more with
    | nil => exact fun totals n h => h
    | cons accrual more ih =>
      intro totals n h
      have hone : Consistent (accrueOne totals accrual) (n + 1) := by
        cases accrual <;> exact h.accrue
      have hrest := ih _ _ hone
      rw [List.length_cons, Nat.add_comm more.length 1, ← Nat.add_assoc]
      exact hrest
  have h := hfold history _ 0 (consistent_empty FUNNEL_POPULATION_PENDING_RULING)
  rw [Nat.zero_add] at h
  exact h

theorem replay_append (history : List Accrual) (accrual : Accrual) :
    replay (history ++ [accrual]) = accrueOne (replay history) accrual := by
  rw [replay, List.foldl_append]
  rfl

/-- The stored bytes are those of the record of this history. -/
def Counts (stored : Option Bytes) (history : List Accrual) : Prop :=
  readFunnelJournal stored FUNNEL_POPULATION_PENDING_RULING = .ok (replay history)

theorem counts_encode (fraction : ℚ → JsString) (history : List Accrual) :
    Counts (some (encodeTotals fraction (replay history))) history :=
  read_encode fraction (plainTexts (consistent_replay history)) _

variable {totals : FunnelTotals}

/-- What a write puts, where it is not refused. -/
theorem bytes_of_write {fraction : ℚ → JsString} {stored : Option Bytes}
    {population : FunnelPopulation} {bytes : Bytes}
    (h : writeFunnelJournal fraction stored totals population = .ok bytes) :
    bytes = encodeTotals fraction totals := by
  unfold writeFunnelJournal at h
  cases hread : readFunnelJournal stored population with
  | error e => rw [hread] at h; cases h
  | ok before =>
    rw [hread] at h
    cases hback : goesBackwards before totals with
    | some refusal =>
      simp only [Bind.bind, Except.bind, hback] at h
      cases h
    | none =>
      simp only [Bind.bind, Except.bind, hback] at h
      split at h
      · cases h
      · cases h
        rfl

/-- A report more moves no counter back. -/
theorem goesBackwards_accrue (totals : FunnelTotals) (report : FunnelReport)
    (dimensions : FunnelDimensions) :
    goesBackwards totals (accrueFunnelReport totals report dimensions) = none := by
  have hupdate : ∀ (counts : FunnelStage → Nat) (at_ stage : FunnelStage),
      counts stage ≤ Function.update counts at_ (counts at_ + 1) stage := by
    intro counts at_ stage
    by_cases hstage : stage = at_
    · rw [hstage, Function.update_self]
      omega
    · rw [Function.update_of_ne hstage]
  have hentered : ∀ stage, totals.entered stage
      ≤ (accrueFunnelReport totals report dimensions).entered stage := by
    intro stage
    simp only [accrueFunnelReport]
    split
    · exact hupdate _ _ _
    · exact Nat.le_refl _
  have hstalled : ∀ stage, totals.stalledAt stage
      ≤ (accrueFunnelReport totals report dimensions).stalledAt stage := by
    intro stage
    simp only [accrueFunnelReport]
    split
    · exact Nat.le_refl _
    · exact hupdate _ _ _
  have hcells : ∀ map key, (totals.cells map).count key
      ≤ ((accrueFunnelReport totals report dimensions).cells map).count key := by
    intro map key
    cases map with
    | byStageHour => exact InsertionMap.count_le_bump _ _ _
    | webrtcAttempts =>
      simp only [FunnelTotals.cells, accrueFunnelReport]
      split
      · exact InsertionMap.count_le_bump _ _ _
      · exact Nat.le_refl _
    | webrtcOutcomes =>
      simp only [FunnelTotals.cells, accrueFunnelReport]
      split
      · split
        · exact InsertionMap.count_le_bump _ _ _
        · exact Nat.le_refl _
      · exact Nat.le_refl _
  rw [goesBackwards, Option.orElse_eq_orElse, Option.orElse_eq_or, Option.or_eq_none_iff]
  constructor
  · rw [List.findSome?_eq_none_iff]
    intro stage _
    rw [if_neg (Nat.not_lt.mpr (hentered stage)), if_neg (Nat.not_lt.mpr (hstalled stage))]
  · rw [List.findSome?_eq_none_iff]
    intro map _
    rw [List.findSome?_eq_none_iff]
    intro cell hcell
    have hcount : (totals.cells map).count cell.1 = cell.2 := by
      rw [InsertionMap.count, InsertionMap.get?_eq_some.mpr hcell]
      rfl
    have hle := hcells map cell.1
    rw [if_neg (by omega)]

/-- A counter is no larger than the reports of which it counts some. -/
theorem withinDigits_of_consistent {reports : Nat} (h : Consistent totals reports)
    (hreports : reports ≤ 4294967295) : WithinDigits totals := by
  have hstage : ∀ (counts : FunnelStage → Nat) (stage : FunnelStage),
      counts stage ≤ stageTotal counts := by
    intro counts stage
    cases stage <;>
      simp only [stageTotal, FUNNEL_STAGES, List.map_cons, List.map_nil, List.sum_cons,
        List.sum_nil] <;>
      omega
  have hcell : ∀ (m : InsertionMap JsString Nat), ∀ cell ∈ m.entries, cell.2 ≤ m.total := by
    intro m cell hmem
    have hvalue : cell.2 ∈ m.values := List.mem_map_of_mem hmem
    exact List.le_sum_of_mem hvalue
  have hstages := h.stages
  refine ⟨?_, ?_, ?_⟩
  · intro stage
    have := hstage totals.entered stage
    omega
  · intro stage
    have := hstage totals.stalledAt stage
    omega
  · intro map cell hmem
    have hle := hcell _ cell hmem
    cases map with
    | byStageHour =>
      have htotal : (totals.cells .byStageHour).total = reports := h.hours
      omega
    | webrtcAttempts =>
      have htotal : (totals.cells .webrtcAttempts).total = totals.entered .iceGathering :=
        h.attempts
      have := hstage totals.entered .iceGathering
      omega
    | webrtcOutcomes =>
      have htotal : (totals.cells .webrtcOutcomes).total
          ≤ totals.entered .connectionClassified := h.outcomes
      have := hstage totals.entered .connectionClassified
      omega

variable {history : List Accrual}

/-- The record of fewer reports than a counter has digits for is under the ceiling. -/
theorem fits_of_length (fraction : ℚ → JsString) (h : history.length ≤ 4294967295) :
    (encodeTotals fraction (replay history)).length ≤ FUNNEL_RECORD_CEILING_BYTES :=
  have hconsistent := consistent_replay history
  length_encodeTotals fraction hconsistent (withinDigits_of_consistent hconsistent h)

/-- The next report of the stored record is written, while the record is under its ceiling. -/
theorem write_next {fraction : ℚ → JsString} {stored : Option Bytes}
    (hcounts : Counts stored history) (post : FunnelPost)
    (hfits : (encodeTotals fraction (replay (history ++ [.own post]))).length
      ≤ FUNNEL_RECORD_CEILING_BYTES) :
    writeFunnelJournal fraction stored (replay (history ++ [.own post]))
        FUNNEL_POPULATION_PENDING_RULING
      = .ok (encodeTotals fraction (replay (history ++ [.own post]))) := by
  have hback : goesBackwards (replay history) (replay (history ++ [.own post])) = none := by
    rw [replay_append]
    exact goesBackwards_accrue _ _ _
  have hread : readFunnelJournal stored FUNNEL_POPULATION_PENDING_RULING = .ok (replay history) :=
    hcounts
  simp only [writeFunnelJournal, Bind.bind, Except.bind, hread, hback,
    if_neg (Nat.not_lt.mpr hfits)]

/-! ## What an event does -/

/-- What an event can do to the route's state. -/
inductive Moves (env : Env) (s : Funnel) : Event → Funnel → Prop
  | bad {body : JsString} {header platformCountry : Option JsString} (failure : BodyFailure) :
      Moves env s (.post body header platformCountry)
        { s with badBodies := s.badBodies ++ [failure] }
  | chained {body : JsString} {header platformCountry : Option JsString} (report : FunnelReport) :
      Moves env s (.post body header platformCountry)
        { s.asked with
          queue := s.queue ++
            [⟨s.nextId, report, funnelDimensionsFrom env.toUpperCase header platformCountry⟩]
          nextId := s.nextId + 1 }
  | asked : Moves env s .readFunnel s.asked
  /-- A report is accrued in memory. -/
  | taken {totals : FunnelTotals} {post : FunnelPost} {queue : List FunnelPost}
      (hstage : s.stage = .settled (some totals)) (hqueue : s.queue = post :: queue) :
      Moves env s .begin
        { s with
          queue := queue
          stage := .checking post (accrueFunnelReport totals post.report post.dimensions) }
  /-- There is no record in memory to accrue it to. -/
  | unbased {post : FunnelPost} {queue : List FunnelPost} (hstage : s.stage = .settled none)
      (hqueue : s.queue = post :: queue) :
      Moves env s .begin { s.refuse post with queue := queue }
  | reread (ok : Bool) (hstage : s.stage = .restoring ∨ s.stage = .recovering) :
      Moves env s (.read ok) (s.reread ok)
  | checked {post : FunnelPost} {banked : FunnelTotals} {bytes : Bytes}
      (hstage : s.stage = .checking post banked)
      (hwrite : writeFunnelJournal env.fraction s.stored banked
        FUNNEL_POPULATION_PENDING_RULING = .ok bytes) :
      Moves env s (.read true) { s with stage := .putting post banked bytes }
  /-- The writer refuses, or its read fails. -/
  | unchecked {post : FunnelPost} {banked : FunnelTotals} (ok : Bool)
      (hstage : s.stage = .checking post banked)
      (hwrite : ok = true → (writeFunnelJournal env.fraction s.stored banked
        FUNNEL_POPULATION_PENDING_RULING).toBool = false) :
      Moves env s (.read ok) (s.refuse post)
  | stored {post : FunnelPost} {banked : FunnelTotals} {bytes : Bytes}
      (hstage : s.stage = .putting post banked bytes) :
      Moves env s (.put true)
        { s.land post bytes with
          stage := .settled (some banked)
          answers := s.answers ++ [(post, .banked)] }
  | unstored {post : FunnelPost} {banked : FunnelTotals} {bytes : Bytes}
      (hstage : s.stage = .putting post banked bytes) :
      Moves env s (.put false) (s.refuse post)
  /-- Evicted while a put takes effect. -/
  | landed {post : FunnelPost} {banked : FunnelTotals} {bytes : Bytes}
      (hstage : s.stage = .putting post banked bytes) :
      Moves env s (.evict true) { s.land post bytes with stage := .unread, queue := [] }
  | evicted (landed : Bool) :
      Moves env s (.evict landed) { s with stage := .unread, queue := [], behind := false }
  | written {report : FunnelReport} {dimensions : FunnelDimensions} {totals : FunnelTotals}
      {bytes : Bytes}
      (hread : readFunnelJournal s.stored FUNNEL_POPULATION_PENDING_RULING = .ok totals)
      (hwrite : writeFunnelJournal env.fraction s.stored
        (accrueFunnelReport totals report dimensions) FUNNEL_POPULATION_PENDING_RULING
          = .ok bytes) :
      Moves env s (.secondWriter report dimensions)
        { s with
          stored := some bytes
          history := s.history ++ [.other report dimensions]
          behind := true }

variable {env : Env} {s s' : Funnel} {e : Event}

theorem moves_of_step (h : s.step env e = some s') :
    Moves env s e s' := by
  cases e with
  | post body header platformCountry =>
    cases h
    unfold bankFunnel
    split
    · exact .bad .reportTooLarge
    · split
      · exact .bad .notAReport
      · next report _ => exact .chained report
  | readFunnel =>
    cases h
    exact .asked
  | begin =>
    change s.begin = some s' at h
    unfold Funnel.begin at h
    split at h
    · next hstage hqueue =>
      cases h
      exact .taken hstage hqueue
    · next hstage hqueue =>
      cases h
      exact .unbased hstage hqueue
    · cases h
  | read ok =>
    change s.readDone env ok = some s' at h
    unfold readDone at h
    split at h
    · next hstage =>
      cases h
      exact .reread ok (Or.inl hstage)
    · next hstage =>
      cases h
      exact .reread ok (Or.inr hstage)
    · next hstage =>
      cases ok with
      | false =>
        cases h
        exact .unchecked false hstage fun hok => by cases hok
      | true =>
        simp only [if_true] at h
        split at h
        · next hwrite =>
          cases h
          exact .checked hstage hwrite
        · next hwrite =>
          cases h
          exact .unchecked true hstage fun _ => by rw [hwrite]; rfl
    · cases h
  | put ok =>
    change s.putDone ok = some s' at h
    unfold putDone at h
    split at h
    · next hstage =>
      cases ok with
      | false =>
        cases h
        exact .unstored hstage
      | true =>
        cases h
        exact .stored hstage
    · cases h
  | evict landed =>
    cases h
    unfold Funnel.evict
    split
    · next hstage => exact .landed hstage
    · exact .evicted _
  | secondWriter report dimensions =>
    change s.secondWriter env report dimensions = some s' at h
    unfold Funnel.secondWriter at h
    split at h
    · cases h
    · next hread =>
      split at h
      · cases h
      · next hwrite =>
        cases h
        exact .written hread hwrite

/-! ## What is stored, and what is in memory -/

/-- What the first link of the chain holds in memory, unless another writer has written since. -/
def Remembers (env : Env) (s : Funnel) : Prop :=
  match s.stage with
  | .settled (some totals) => s.behind = false → totals = replay s.history
  | .checking post banked => s.behind = false → banked = replay (s.history ++ [.own post])
  | .putting post banked bytes =>
    s.behind = false ∧ banked = replay (s.history ++ [.own post]) ∧
      bytes = encodeTotals env.fraction banked
  | _ => True

structure Kept (env : Env) (s : Funnel) : Prop where
  counts : Counts s.stored s.history
  memory : Remembers env s

theorem kept_init (env : Env) : Kept env Funnel.init := ⟨rfl, trivial⟩

theorem asked_cases (s : Funnel) :
    s.asked = s ∨ s.stage = .unread ∧ s.asked = { s with stage := .restoring } := by
  unfold asked
  split
  · next hstage => exact Or.inr ⟨hstage, rfl⟩
  · exact Or.inl rfl

variable {post : FunnelPost}

/-- The put of a checked record takes effect. -/
theorem Kept.lands (h : Kept env s) {banked : FunnelTotals} {bytes : Bytes}
    (hstage : s.stage = .putting post banked bytes) :
    Counts (some bytes) (s.history ++ [.own post]) ∧
      banked = replay (s.history ++ [.own post]) := by
  have hmemory := h.memory
  simp only [Remembers, hstage] at hmemory
  obtain ⟨-, hbanked, hbytes⟩ := hmemory
  refine ⟨?_, hbanked⟩
  rw [hbytes, hbanked]
  exact counts_encode env.fraction _

theorem Kept.step (h : Kept env s) (hguard : Detected env s e) (hstep : s.step env e = some s') :
    Kept env s' := by
  have hmoves := moves_of_step hstep
  cases hmoves with
  | bad failure => exact ⟨h.counts, h.memory⟩
  | chained report =>
    rcases asked_cases s with hsame | ⟨-, hasked⟩
    · rw [hsame]
      exact ⟨h.counts, h.memory⟩
    · rw [hasked]
      exact ⟨h.counts, trivial⟩
  | asked =>
    rcases asked_cases s with hsame | ⟨-, hasked⟩
    · rw [hsame]
      exact h
    · rw [hasked]
      exact ⟨h.counts, trivial⟩
  | @taken totals post queue hstage hqueue =>
    refine ⟨h.counts, ?_⟩
    have hmemory := h.memory
    simp only [Remembers, hstage] at hmemory
    intro hbehind
    show accrueFunnelReport totals post.report post.dimensions = _
    rw [replay_append, ← hmemory hbehind]
    rfl
  | unbased hstage hqueue => exact ⟨h.counts, trivial⟩
  | reread ok hstage =>
    cases ok with
    | false => exact ⟨h.counts, trivial⟩
    | true =>
      refine ⟨h.counts, ?_⟩
      have hread : (readFunnelJournal s.stored FUNNEL_POPULATION_PENDING_RULING).toOption
          = some (replay s.history) := by rw [h.counts]; rfl
      show Remembers env { s with
        stage := .settled (readFunnelJournal s.stored FUNNEL_POPULATION_PENDING_RULING).toOption
        behind := false }
      rw [hread]
      exact fun _ => rfl
  | @checked post banked bytes hstage hwrite =>
    refine ⟨h.counts, ?_⟩
    have hmemory := h.memory
    simp only [Remembers, hstage] at hmemory
    -- a record that another writer has overtaken does not pass
    have hbehind : s.behind = false := by
      simp only [Detected, hstage, hwrite] at hguard
      cases hb : s.behind with
      | false => rfl
      | true => cases hguard hb
    exact ⟨hbehind, hmemory hbehind, bytes_of_write hwrite⟩
  | unchecked ok hstage hwrite => exact ⟨h.counts, trivial⟩
  | stored hstage =>
    obtain ⟨hcounts, hbanked⟩ := h.lands hstage
    exact ⟨hcounts, fun _ => hbanked⟩
  | unstored hstage => exact ⟨h.counts, trivial⟩
  | landed hstage => exact ⟨(h.lands hstage).1, trivial⟩
  | evicted landed => exact ⟨h.counts, trivial⟩
  | @written report dimensions totals bytes hread hwrite =>
    have htotals : totals = replay s.history := by
      have hcounts := h.counts
      unfold Counts at hcounts
      rw [hread] at hcounts
      exact Except.ok.inj hcounts
    refine ⟨?_, ?_⟩
    · have hnext : accrueFunnelReport totals report dimensions
          = replay (s.history ++ [.other report dimensions]) := by
        rw [replay_append, ← htotals]
        rfl
      rw [bytes_of_write hwrite, hnext]
      exact counts_encode env.fraction _
    · unfold Remembers
      split
      · exact fun hbehind => by cases hbehind
      · exact fun hbehind => by cases hbehind
      · next hstage =>
        have hputting : s.stage = _ := hstage
        simp only [Detected, hputting] at hguard
      · trivial

theorem kept_of_reaches (h : Reaches (Funnel.step env) (Detected env) Funnel.init s) : Kept env s :=
  h.invariant (kept_init env) fun _ _ _ hguard hkept hstep => hkept.step hguard hstep

/-! ## Which reports are counted -/

/-- The reports of this object that a history counts. -/
def ownPosts (history : List Accrual) : List FunnelPost :=
  history.filterMap fun
    | .own post => some post
    | .other _ _ => none

/-- The report that is being banked. -/
def inFlight (s : Funnel) : List FunnelPost :=
  match s.stage with
  | .checking post _ => [post]
  | .putting post _ _ => [post]
  | _ => []

/-- The reports that are not answered yet. -/
def pending (s : Funnel) : List FunnelPost := inFlight s ++ s.queue

/-- Every report let in is in one place: not answered yet and not counted, or counted once and not
    refused. -/
structure Placed (s : Funnel) : Prop where
  pendingNodup : (pending s).Nodup
  pendingNew : ∀ post ∈ pending s, post.id < s.nextId ∧ post ∉ ownPosts s.history ∧
    ∀ answer, (post, answer) ∉ s.answers
  counted : ∀ post ∈ ownPosts s.history, post.id < s.nextId
  countedNodup : (ownPosts s.history).Nodup
  answered : ∀ post answer, (post, answer) ∈ s.answers → post.id < s.nextId
  banked : ∀ post, (post, Answer.banked) ∈ s.answers → post ∈ ownPosts s.history
  refused : ∀ post, (post, Answer.refused) ∈ s.answers → post ∉ ownPosts s.history

theorem ownPosts_append_own (history : List Accrual) (post : FunnelPost) :
    ownPosts (history ++ [.own post]) = ownPosts history ++ [post] := by
  rw [ownPosts, List.filterMap_append]
  rfl

theorem ownPosts_append_other (history : List Accrual) (report : FunnelReport)
    (dimensions : FunnelDimensions) :
    ownPosts (history ++ [.other report dimensions]) = ownPosts history := by
  rw [ownPosts, List.filterMap_append]
  exact List.append_nil _

theorem placed_init : Placed Funnel.init where
  pendingNodup := List.nodup_nil
  pendingNew post hpost := by cases hpost
  counted post hpost := by cases hpost
  countedNodup := List.nodup_nil
  answered post answer h := by cases h
  banked post h := by cases h
  refused post h := by cases h

/-- The same reports wait, and nothing is counted or answered. -/
theorem Placed.still (h : Placed s) (hpending : (pending s').Sublist (pending s))
    (hnext : s'.nextId = s.nextId) (hhistory : ownPosts s'.history = ownPosts s.history)
    (hanswers : s'.answers = s.answers) : Placed s' where
  pendingNodup := h.pendingNodup.sublist hpending
  pendingNew post hpost := by
    rw [hnext, hhistory, hanswers]
    exact h.pendingNew post (hpending.subset hpost)
  counted post hpost := by
    rw [hhistory] at hpost
    rw [hnext]
    exact h.counted post hpost
  countedNodup := by
    rw [hhistory]
    exact h.countedNodup
  answered post answer hanswer := by
    rw [hanswers] at hanswer
    rw [hnext]
    exact h.answered post answer hanswer
  banked post hanswer := by
    rw [hanswers] at hanswer
    rw [hhistory]
    exact h.banked post hanswer
  refused post hanswer := by
    rw [hanswers] at hanswer
    rw [hhistory]
    exact h.refused post hanswer

/-- A report more waits. -/
theorem Placed.chained {s s' : Funnel} (h : Placed s) {post : FunnelPost} (hid : post.id = s.nextId)
    (hpending : pending s' = pending s ++ [post]) (hnext : s'.nextId = s.nextId + 1)
    (hhistory : s'.history = s.history) (hanswers : s'.answers = s.answers) : Placed s' where
  pendingNodup := by
    rw [hpending]
    refine List.nodup_append.mpr ⟨h.pendingNodup, List.nodup_singleton _, ?_⟩
    intro p hp q hq heq
    rw [List.mem_singleton] at hq
    have hold := (h.pendingNew p hp).1
    rw [heq, hq, hid] at hold
    omega
  pendingNew p hp := by
    rw [hpending, List.mem_append, List.mem_singleton] at hp
    rw [hnext, hhistory, hanswers]
    rcases hp with hp | rfl
    · obtain ⟨hlt, hrest⟩ := h.pendingNew p hp
      exact ⟨by omega, hrest⟩
    · refine ⟨by omega, ?_, ?_⟩
      · intro hcounted
        have := h.counted p hcounted
        omega
      · intro answer hanswer
        have := h.answered p answer hanswer
        omega
  counted p hp := by
    rw [hhistory] at hp
    have := h.counted p hp
    omega
  countedNodup := by
    rw [hhistory]
    exact h.countedNodup
  answered p answer hanswer := by
    rw [hanswers] at hanswer
    have := h.answered p answer hanswer
    omega
  banked p hanswer := by
    rw [hanswers] at hanswer
    rw [hhistory]
    exact h.banked p hanswer
  refused p hanswer := by
    rw [hanswers] at hanswer
    rw [hhistory]
    exact h.refused p hanswer

/-- The first report is refused. -/
theorem Placed.refuses (h : Placed s) (hpending : pending s = post :: pending s')
    (hnext : s'.nextId = s.nextId) (hhistory : s'.history = s.history)
    (hanswers : s'.answers = s.answers ++ [(post, .refused)]) :
    Placed s' := by
  have hnodup := h.pendingNodup
  rw [hpending, List.nodup_cons] at hnodup
  have hpost := h.pendingNew post (by rw [hpending]; exact List.mem_cons_self)
  refine ⟨hnodup.2, ?_, ?_, ?_, ?_, ?_, ?_⟩
  · intro p hp
    have hold := h.pendingNew p (by rw [hpending]; exact List.mem_cons_of_mem post hp)
    rw [hnext, hhistory, hanswers]
    refine ⟨hold.1, hold.2.1, ?_⟩
    intro answer hanswer
    rcases List.mem_append.mp hanswer with hanswer | hanswer
    · exact hold.2.2 answer hanswer
    · cases List.mem_singleton.mp hanswer
      exact hnodup.1 hp
  · rw [hnext, hhistory]
    exact h.counted
  · rw [hhistory]
    exact h.countedNodup
  · intro p answer hanswer
    rw [hnext]
    rw [hanswers] at hanswer
    rcases List.mem_append.mp hanswer with hanswer | hanswer
    · exact h.answered p answer hanswer
    · cases List.mem_singleton.mp hanswer
      exact hpost.1
  · intro p hanswer
    rw [hhistory]
    rw [hanswers] at hanswer
    rcases List.mem_append.mp hanswer with hanswer | hanswer
    · exact h.banked p hanswer
    · cases List.mem_singleton.mp hanswer
  · intro p hanswer
    rw [hhistory]
    rw [hanswers] at hanswer
    rcases List.mem_append.mp hanswer with hanswer | hanswer
    · exact h.refused p hanswer
    · cases List.mem_singleton.mp hanswer
      exact hpost.2.1

/-- The report that is being banked is counted, and answered unless the object is gone. -/
theorem Placed.counts {s s' : Funnel} (h : Placed s) {post : FunnelPost}
    (hpost : post ∈ pending s) (hpending : ∀ p ∈ pending s', p ∈ pending s ∧ p ≠ post)
    (hrest : (pending s').Nodup) (hnext : s'.nextId = s.nextId)
    (hhistory : s'.history = s.history ++ [.own post])
    (hanswers : s'.answers = s.answers ∨ s'.answers = s.answers ++ [(post, .banked)]) :
    Placed s' := by
  have hown : ownPosts s'.history = ownPosts s.history ++ [post] := by
    rw [hhistory, ownPosts_append_own]
  obtain ⟨hid, hfresh, hunanswered⟩ := h.pendingNew post hpost
  have hanswer : ∀ p answer, (p, answer) ∈ s'.answers →
      (p, answer) ∈ s.answers ∨ p = post ∧ answer = .banked := by
    intro p answer hmem
    rcases hanswers with hsame | hmore
    · rw [hsame] at hmem
      exact Or.inl hmem
    · rw [hmore, List.mem_append, List.mem_singleton, Prod.mk.injEq] at hmem
      exact hmem
  refine ⟨hrest, ?_, ?_, ?_, ?_, ?_, ?_⟩
  · intro p hp
    obtain ⟨hold, hne⟩ := hpending p hp
    obtain ⟨hlt, hnew, hnone⟩ := h.pendingNew p hold
    rw [hnext, hown]
    refine ⟨hlt, ?_, ?_⟩
    · rw [List.mem_append, List.mem_singleton]
      exact fun hmem => hmem.elim hnew hne
    · intro answer hmem
      rcases hanswer p answer hmem with hmem | ⟨heq, -⟩
      · exact hnone answer hmem
      · exact hne heq
  · intro p hp
    rw [hown, List.mem_append, List.mem_singleton] at hp
    rw [hnext]
    rcases hp with hp | rfl
    · exact h.counted p hp
    · exact hid
  · rw [hown]
    refine List.nodup_append.mpr ⟨h.countedNodup, List.nodup_singleton _, ?_⟩
    intro p hp q hq heq
    rw [List.mem_singleton] at hq
    rw [heq, hq] at hp
    exact hfresh hp
  · intro p answer hmem
    rw [hnext]
    rcases hanswer p answer hmem with hmem | ⟨rfl, -⟩
    · exact h.answered p answer hmem
    · exact hid
  · intro p hmem
    rw [hown, List.mem_append, List.mem_singleton]
    rcases hanswer p .banked hmem with hmem | ⟨rfl, -⟩
    · exact Or.inl (h.banked p hmem)
    · exact Or.inr rfl
  · intro p hmem
    rw [hown, List.mem_append, List.mem_singleton]
    rcases hanswer p .refused hmem with hmem | ⟨-, hanswer⟩
    · rintro (hcounted | rfl)
      · exact h.refused p hmem hcounted
      · exact hunanswered .refused hmem
    · cases hanswer

theorem Placed.step (h : Placed s) (hstep : s.step env e = some s') : Placed s' := by
  have hmoves := moves_of_step hstep
  cases hmoves with
  | bad failure => exact h.still (List.Sublist.refl _) rfl rfl rfl
  | @chained body header platformCountry report =>
    let post : FunnelPost :=
      ⟨s.nextId, report, funnelDimensionsFrom env.toUpperCase header platformCountry⟩
    rcases asked_cases s with hsame | ⟨hunread, hasked⟩
    · rw [hsame]
      refine @Placed.chained s _ h post rfl ?_ rfl rfl rfl
      exact (List.append_assoc (inFlight s) s.queue _).symm
    · rw [hasked]
      refine @Placed.chained s _ h post rfl ?_ rfl rfl rfl
      have hnone : inFlight s = [] := by rw [inFlight, hunread]
      rw [pending, pending, hnone]
      rfl
  | asked =>
    rcases asked_cases s with hsame | ⟨hunread, hasked⟩
    · rw [hsame]
      exact h
    · rw [hasked]
      refine h.still ?_ rfl rfl rfl
      exact List.sublist_append_right (inFlight s) s.queue
  | @taken totals post queue hstage hqueue =>
    have hsame : pending s = post :: queue := by
      rw [pending, inFlight, hstage, hqueue]
      rfl
    refine h.still ?_ rfl rfl rfl
    rw [hsame]
    exact List.Sublist.refl _
  | @unbased post queue hstage hqueue =>
    have hpending : pending s = post :: queue := by
      rw [pending, inFlight, hstage, hqueue]
      rfl
    exact h.refuses hpending rfl rfl rfl
  | reread ok hstage =>
    have hnone : inFlight s = [] := by
      rcases hstage with hstage | hstage <;> rw [inFlight, hstage]
    have hsame : pending s = s.queue := by rw [pending, hnone]; rfl
    cases ok <;> refine h.still ?_ rfl rfl rfl <;> rw [hsame] <;> exact List.Sublist.refl _
  | @checked post banked bytes hstage hwrite =>
    have hsame : pending s = post :: s.queue := by
      rw [pending, inFlight, hstage]
      rfl
    refine h.still ?_ rfl rfl rfl
    rw [hsame]
    exact List.Sublist.refl _
  | @unchecked post banked ok hstage hwrite =>
    have hpending : pending s = post :: s.queue := by
      rw [pending, inFlight, hstage]
      rfl
    exact h.refuses hpending rfl rfl rfl
  | @stored post banked bytes hstage =>
    have hpending : pending s = post :: s.queue := by
      rw [pending, inFlight, hstage]
      rfl
    have hnodup := h.pendingNodup
    rw [hpending, List.nodup_cons] at hnodup
    refine @Placed.counts s _ h post ?_ ?_ hnodup.2 rfl rfl (Or.inr rfl)
    · rw [hpending]
      exact List.mem_cons_self
    · intro p hp
      rw [hpending]
      refine ⟨List.mem_cons_of_mem post hp, ?_⟩
      rintro rfl
      exact hnodup.1 hp
  | @unstored post banked bytes hstage =>
    have hpending : pending s = post :: s.queue := by
      rw [pending, inFlight, hstage]
      rfl
    exact h.refuses hpending rfl rfl rfl
  | @landed post banked bytes hstage =>
    have hpost : post ∈ pending s := by
      rw [pending, inFlight, hstage]
      exact List.mem_cons_self
    refine h.counts hpost ?_ List.nodup_nil rfl rfl (Or.inl rfl)
    intro p hp
    cases hp
  | evicted landed => exact h.still (List.nil_sublist _) rfl rfl rfl
  | written hread hwrite =>
    exact h.still (List.Sublist.refl _) rfl (ownPosts_append_other _ _ _) rfl

theorem placed_of_reaches (h : Reaches (Funnel.step env) (Detected env) Funnel.init s) : Placed s :=
  h.invariant placed_init fun _ _ _ _ hplaced hstep => hplaced.step hstep

/-! ## How often a working storage refuses -/

/-- The reports that were answered with a failure. -/
def refusals (s : Funnel) : Nat := s.answers.countP fun answer => answer.2 = .refused

/-- The refusals that what is in memory still costs: one, where there is no record in memory or
    another writer has overtaken it. -/
def debt (s : Funnel) : Nat :=
  match s.stage with
  | .settled none => 1
  | .settled (some _) => if s.behind then 1 else 0
  | .checking _ _ => if s.behind then 1 else 0
  | _ => 0

theorem debt_le_one (s : Funnel) : debt s ≤ 1 := by
  unfold debt
  split
  · omega
  · split <;> omega
  · split <;> omega
  · omega

theorem refusals_append (answers : List (FunnelPost × Answer)) (post : FunnelPost)
    (answer : Answer) :
    (answers ++ [(post, answer)]).countP (fun answer => answer.2 = .refused)
      = answers.countP (fun answer => answer.2 = .refused) + if answer = .refused then 1 else 0 := by
  rw [List.countP_append, List.countP_singleton]
  simp only [decide_eq_true_eq]

/-- A completed read of what is stored leaves its record in memory. -/
theorem Kept.reread_stage (h : Kept env s) :
    (s.reread true).stage = .settled (some (replay s.history)) := by
  have hread : (readFunnelJournal s.stored FUNNEL_POPULATION_PENDING_RULING).toOption
      = some (replay s.history) := by rw [h.counts]; rfl
  show Stage.settled (readFunnelJournal s.stored FUNNEL_POPULATION_PENDING_RULING).toOption = _
  rw [hread]

/-- A refusal of a working storage pays a debt off. -/
theorem Kept.refusals_step (h : Kept env s) (hsteady : Steady env s e)
    (hstep : s.step env e = some s') :
    refusals s' + debt s' ≤ refusals s + debt s := by
  have hmoves := moves_of_step hstep
  have hmemory := h.memory
  cases hmoves with
  | bad failure => exact Nat.le_refl _
  | chained report =>
    rcases asked_cases s with hsame | ⟨-, hasked⟩
    · rw [hsame]
      exact Nat.le_refl _
    · rw [hasked]
      exact Nat.add_le_add_left (Nat.zero_le _) _
  | asked =>
    rcases asked_cases s with hsame | ⟨-, hasked⟩
    · rw [hsame]
    · rw [hasked]
      exact Nat.add_le_add_left (Nat.zero_le _) _
  | taken hstage hqueue =>
    have hdebt : debt s = if s.behind then 1 else 0 := by rw [debt, hstage]
    rw [hdebt]
    exact Nat.le_refl _
  | @unbased post queue hstage hqueue =>
    have hdebt : debt s = 1 := by rw [debt, hstage]
    have hcount := refusals_append s.answers post .refused
    rw [hdebt]
    show List.countP _ (s.answers ++ [(post, .refused)]) + 0 ≤ _
    rw [hcount]
    exact Nat.le_refl _
  | reread ok hstage =>
    obtain ⟨rfl, -⟩ := hsteady
    have hdebt : debt (s.reread true) = 0 := by
      rw [debt, h.reread_stage]
      rfl
    rw [hdebt]
    exact Nat.add_le_add_left (Nat.zero_le _) _
  | checked hstage hwrite => exact Nat.add_le_add_left (Nat.zero_le _) _
  | @unchecked post banked ok hstage hwrite =>
    obtain ⟨rfl, hfits⟩ := hsteady
    simp only [hstage] at hfits
    have hdebt : debt s = if s.behind then 1 else 0 := by rw [debt, hstage]
    have hcount := refusals_append s.answers post .refused
    -- what follows the stored record is not refused
    have hbehind : s.behind = true := by
      cases hb : s.behind with
      | true => rfl
      | false =>
        simp only [Remembers, hstage] at hmemory
        have hrefused := hwrite rfl
        rw [hmemory hb] at hrefused hfits
        rw [write_next h.counts post hfits] at hrefused
        cases hrefused
    rw [hdebt, hbehind]
    show List.countP _ (s.answers ++ [(post, .refused)]) + 0 ≤ _
    rw [hcount]
    exact Nat.le_refl _
  | @stored post banked bytes hstage =>
    simp only [Remembers, hstage] at hmemory
    have hcount := refusals_append s.answers post .banked
    have hdebt : debt { s.land post bytes with
        stage := .settled (some banked), answers := s.answers ++ [(post, .banked)] } = 0 := by
      show (if s.behind then 1 else 0) = 0
      rw [hmemory.1]
      rfl
    rw [hdebt]
    show List.countP _ (s.answers ++ [(post, .banked)]) + 0 ≤ _
    rw [hcount]
    exact Nat.add_le_add_left (Nat.zero_le _) _
  | unstored hstage => cases hsteady
  | landed hstage => exact Nat.add_le_add_left (Nat.zero_le _) _
  | evicted landed => exact Nat.add_le_add_left (Nat.zero_le _) _
  | written hread hwrite => cases hsteady

/-- However long a storage works, what is in memory costs one refusal at most. -/
theorem Kept.refusals_run (h : Kept env s)
    (hrun : Reaches (Funnel.step env) (fun s e => Detected env s e ∧ Steady env s e) s s') :
    refusals s' ≤ refusals s + 1 := by
  have hpaid : Kept env s' ∧ refusals s' + debt s' ≤ refusals s + debt s := by
    refine hrun.invariant (I := fun t => Kept env t ∧ refusals t + debt t ≤ refusals s + debt s)
      ⟨h, Nat.le_refl _⟩ ?_
    rintro t e t' ⟨hguard, hsteady⟩ ⟨hkept, hle⟩ hstep
    exact ⟨hkept.step hguard hstep, (hkept.refusals_step hsteady hstep).trans hle⟩
  have hone := debt_le_one s
  omega

/-- What is in memory is what is stored, where a read or a put that completed settled it. -/
theorem Kept.settles (h : Kept env s)
    (hstep : s.readDone env true = some s' ∨ s.putDone true = some s') {memo : Option FunnelTotals}
    (hsettled : s'.stage = .settled memo) :
    ∃ totals, memo = some totals ∧
      readFunnelJournal s'.stored FUNNEL_POPULATION_PENDING_RULING = .ok totals := by
  rcases hstep with hread | hput
  · have hmoves : Moves env s (.read true) s' := moves_of_step hread
    cases hmoves with
    | reread ok hstage =>
      rw [h.reread_stage] at hsettled
      cases hsettled
      exact ⟨_, rfl, h.counts⟩
    | checked hstage hwrite => cases hsettled
    | unchecked ok hstage hwrite => cases hsettled
  · have hmoves : Moves env s (.put true) s' := moves_of_step hput
    cases hmoves with
    | @stored post banked bytes hstage =>
      cases hsettled
      obtain ⟨hcounts, hbanked⟩ := h.lands hstage
      refine ⟨banked, rfl, ?_⟩
      rw [hbanked]
      exact hcounts

/-- The first report behind a record that is current is banked, if the storage works. -/
theorem Kept.banks (h : Kept env s) {queue : List FunnelPost}
    (hstage : s.stage = .settled (some totals)) (hcurrent : s.behind = false)
    (hqueue : s.queue = post :: queue) (hfits : (encodeTotals env.fraction
      (accrueFunnelReport totals post.report post.dimensions)).length
        ≤ FUNNEL_RECORD_CEILING_BYTES) :
    ∃ s', Steps.run (Funnel.step env) s [.begin, .read true, .put true] = some s' ∧
      s'.answers = s.answers ++ [(post, .banked)] := by
  have hmemory := h.memory
  simp only [Remembers, hstage] at hmemory
  have hnext : accrueFunnelReport totals post.report post.dimensions
      = replay (s.history ++ [.own post]) := by
    rw [replay_append, ← hmemory hcurrent]
    rfl
  rw [hnext] at hfits
  have hwrite := write_next h.counts post hfits
  have hbegin : s.begin = some { s with
      queue := queue
      stage := .checking post (replay (s.history ++ [.own post])) } := by
    rw [Funnel.begin, hstage, hqueue]
    simp only [hnext]
  simp only [Steps.run, Funnel.step, hbegin, readDone, hwrite, if_true, putDone,
    Option.bind_some]
  exact ⟨_, rfl, rfl⟩

/-! ## Every run -/

theorem mem_ownPosts :
    post ∈ ownPosts history ↔ .own post ∈ history := by
  rw [ownPosts, List.mem_filterMap]
  constructor
  · rintro ⟨accrual, hmem, hown⟩
    cases accrual with
    | own other =>
      cases hown
      exact hmem
    | other report dimensions => cases hown
  · exact fun hmem => ⟨.own post, hmem, rfl⟩

theorem count_own (history : List Accrual) (post : FunnelPost) :
    history.count (.own post) = (ownPosts history).count post := by
  induction history with
  | nil => rfl
  | cons accrual history ih =>
    cases accrual with
    | own other =>
      show _ = (other :: ownPosts history).count post
      rw [List.count_cons, List.count_cons, ih]
      congr 1
      simp only [beq_iff_eq, Accrual.own.injEq]
    | other report dimensions =>
      show _ = (ownPosts history).count post
      rw [List.count_cons, ih]
      rfl

/-- Whatever reports arrive, however storage fails, however often the object is evicted and
    whatever a second writer writes: the stored record is that of a list of reports, in which one
    answered with a success is counted once and one answered with a failure is not; what settles
    in memory is what is stored; and once the storage works again one more report at most is
    refused. -/
theorem counted_once_or_refused (env : Env) {s : Funnel}
    (h : Reaches (Funnel.step env) (Detected env) Funnel.init s) :
    readFunnelJournal s.stored FUNNEL_POPULATION_PENDING_RULING = .ok (replay s.history) ∧
    (∀ post, (post, Answer.banked) ∈ s.answers → s.history.count (.own post) = 1) ∧
    (∀ post, (post, Answer.refused) ∈ s.answers → .own post ∉ s.history) ∧
    (∀ s', s.readDone env true = some s' ∨ s.putDone true = some s' →
      ∀ memo, s'.stage = .settled memo → ∃ totals, memo = some totals ∧
        readFunnelJournal s'.stored FUNNEL_POPULATION_PENDING_RULING = .ok totals) ∧
    (∀ totals, s.stage = .settled (some totals) → s.behind = false →
      readFunnelJournal s.stored FUNNEL_POPULATION_PENDING_RULING = .ok totals) ∧
    (∀ s', Reaches (Funnel.step env) (fun s e => Detected env s e ∧ Steady env s e) s s' →
      refusals s' ≤ refusals s + 1) ∧
    (∀ totals post queue, s.stage = .settled (some totals) → s.behind = false →
      s.queue = post :: queue →
      (encodeTotals env.fraction (accrueFunnelReport totals post.report post.dimensions)).length
        ≤ FUNNEL_RECORD_CEILING_BYTES →
      ∃ s', Steps.run (Funnel.step env) s [.begin, .read true, .put true] = some s' ∧
        s'.answers = s.answers ++ [(post, .banked)]) ∧
    (s.history.length ≤ 4294967295 →
      (encodeTotals env.fraction (replay s.history)).length ≤ FUNNEL_RECORD_CEILING_BYTES) := by
  have hkept := kept_of_reaches h
  have hplaced := placed_of_reaches h
  refine ⟨hkept.counts, ?_, ?_, fun s' hstep memo hsettled => hkept.settles hstep hsettled, ?_,
    fun s' hrun => hkept.refusals_run hrun,
    fun totals post queue hstage hcurrent hqueue hfits =>
      hkept.banks hstage hcurrent hqueue hfits,
    fits_of_length env.fraction⟩
  · intro post hbanked
    rw [count_own]
    exact List.count_eq_one_of_mem hplaced.countedNodup (hplaced.banked post hbanked)
  · intro post hrefused hcounted
    exact hplaced.refused post hrefused (mem_ownPosts.mpr hcounted)
  · intro totals hstage hcurrent
    have hmemory := hkept.memory
    simp only [Remembers, hstage] at hmemory
    rw [hmemory hcurrent]
    exact hkept.counts

/-- A run in which nobody else writes is admitted. -/
theorem detected_alone (h : s.behind = false ∧ e.isSecondWriter = false) : Detected env s e := by
  obtain ⟨hbehind, hown⟩ := h
  unfold Detected
  split
  · cases hown
  · split
    · intro hoverwritten
      rw [hbehind] at hoverwritten
      cases hoverwritten
    · trivial
  · trivial

/-- A visit that began to gather its ICE candidates is counted once. -/
theorem banked_visit_counted :
    ∃ (s : Funnel) (post : FunnelPost), (post, Answer.banked) ∈ s.answers ∧
      s.history.count (.own post) = 1 := by
  let env : Env := ⟨id, fun _ => []⟩
  let body := js "\x7b\"stage\":\"ice-gathering\",\"kind\":\"entered\",\"hourBucket\":7,"
    ++ js "\"population\":\"opted-in-only\",\"networkClass\":\"unknown\"\x7d"
  let events : List Event :=
    [.post body (some (js "DE")) none, .read true, .begin, .read true, .put true]
  let guard : Funnel → Event → Prop := fun s e => s.behind = false ∧ e.isSecondWriter = false
  let answered := (runWhere (Funnel.step env) guard Funnel.init events).map Funnel.answers
  have hanswered : answered.map (fun answers => answers.map Prod.snd) = some [Answer.banked] := by
    decide +kernel
  obtain ⟨answers, hanswers, hbanked⟩ := Option.map_eq_some_iff.mp hanswered
  obtain ⟨s, hrun, rfl⟩ := Option.map_eq_some_iff.mp hanswers
  have hmem : Answer.banked ∈ s.answers.map Prod.snd := by
    rw [hbanked]
    exact List.mem_singleton_self _
  obtain ⟨⟨post, answer⟩, hpost, rfl⟩ := List.mem_map.mp hmem
  have hreaches : Reaches (Funnel.step env) (Detected env) Funnel.init s :=
    (Reaches.of_runWhere hrun).mono fun _ _ => detected_alone
  exact ⟨s, post, hpost, (counted_once_or_refused env hreaches).2.1 post hpost⟩

end O2Fabric.BankFunnel
