/-
  O2Fabric.Core.StartOutcome.Report

  The report over counted outcomes.  Where the labels are told apart by
  `localeCompare`, it does not depend on the order of the rows, so outcomes that
  are recorded one by one are reported as they are all at once.
-/

import O2Fabric.Core.StartOutcome
import O2Fabric.Lib.Grouping
import O2Fabric.Lib.KeyedSum
import O2Fabric.Lib.StableSort
import Mathlib.Data.Multiset.Basic

namespace O2Fabric

/-- `a.localeCompare(b)`: a consistent comparator, which tells the names of causes and results
    apart. -/
structure Collation where
  localeCompare : JsString → JsString → ℤ
  swapped : ∀ a b, localeCompare a b < 0 ↔ 0 < localeCompare b a
  trans : ∀ a b c, localeCompare a b ≤ 0 → localeCompare b c ≤ 0 → localeCompare a c ≤ 0
  causes : ∀ a b : StartFailure, localeCompare a.text b.text = 0 → a = b

theorem Collation.total (collation : Collation) (a b : JsString) :
    collation.localeCompare a b ≤ 0 ∨ collation.localeCompare b a ≤ 0 := by
  have := collation.swapped b a
  omega

variable {a b : JsString}

theorem Collation.eq_zero {collation : Collation} (hab : collation.localeCompare a b ≤ 0)
    (hba : collation.localeCompare b a ≤ 0) :
    collation.localeCompare a b = 0 := by
  have := collation.swapped a b
  omega

/-! ## Tallies -/

def MIN_REPORTS_FOR_RATE : Nat := 10

structure CauseCount where
  cause : StartFailure
  count : Nat
  deriving DecidableEq

structure BrowserTally where
  browser : JsString
  attempts : Nat
  failed : Nat
  failureRate : ℚ
  reliable : Bool
  causes : List CauseCount
  deriving DecidableEq

inductive BlindSpot
  | unreportable (note : JsString)
  | declined (count : Nat) (note : JsString)
  deriving DecidableEq

structure StartReport where
  reported : Nat
  failed : Nat
  byBrowser : List BrowserTally
  blindSpots : List BlindSpot
  deriving DecidableEq

def STRUCTURAL_BLIND_SPOT : BlindSpot :=
  .unreportable
    (js "a node that could not reach a peer could not report that it could not reach a peer — "
      ++ js "these numbers cannot see the visitors they most need to count")

structure TallyTotals where
  attempts : Nat
  failed : Nat
  counts : InsertionMap StartFailure Nat

def TallyTotals.addRow (totals : TallyTotals) (row : OutcomeCount) : TallyTotals :=
  match row.result with
  | .started => { totals with attempts := totals.attempts + row.count }
  | .failed cause =>
    { attempts := totals.attempts + row.count
      failed := totals.failed + row.count
      counts := KeyedSum.addEntry totals.counts (cause, row.count) }

def TallyTotals.zero : TallyTotals := ⟨0, 0, .empty⟩

variable (collation : Collation)

/-- `b.count - a.count || a.cause.localeCompare(b.cause)` does not put `b` first. -/
def CauseLE (a b : CauseCount) : Prop :=
  b.count < a.count ∨ a.count = b.count ∧ collation.localeCompare a.cause.text b.cause.text ≤ 0

instance : DecidableRel (CauseLE collation) := fun _ _ => inferInstanceAs (Decidable (_ ∨ _))

def tally (browser : JsString) (rows : List OutcomeCount) : BrowserTally :=
  let totals := rows.foldl TallyTotals.addRow .zero
  { browser := browser
    attempts := totals.attempts
    failed := totals.failed
    failureRate := if totals.attempts = 0 then 0 else totals.failed / totals.attempts
    reliable := decide (MIN_REPORTS_FOR_RATE ≤ totals.attempts)
    causes := (totals.counts.entries.map fun entry => CauseCount.mk entry.1 entry.2).insertionSort
      (CauseLE collation) }

/-- `b.attempts - a.attempts || a.browser.localeCompare(b.browser)` does not put `b` first. -/
def TallyLE (a b : BrowserTally) : Prop :=
  b.attempts < a.attempts ∨
    a.attempts = b.attempts ∧ collation.localeCompare a.browser b.browser ≤ 0

instance : DecidableRel (TallyLE collation) := fun _ _ => inferInstanceAs (Decidable (_ ∨ _))

/-! ## The report -/

def OutcomeCount.failures (row : OutcomeCount) : Nat :=
  match row.result with
  | .started => 0
  | .failed _ => row.count

/-- The rows of each browser, in the order in which they came. -/
def bucketsOf (counts : List OutcomeCount) : InsertionMap JsString (List OutcomeCount) :=
  Grouping.groupInto .empty (counts.map fun row => (row.browser, [row]))

def startReportFromCounts (counts : List OutcomeCount) (declined : Nat) : StartReport where
  reported := (counts.map OutcomeCount.count).sum
  failed := (counts.map OutcomeCount.failures).sum
  byBrowser := ((bucketsOf counts).entries.map fun entry => tally collation entry.1 entry.2)
    |>.insertionSort (TallyLE collation)
  blindSpots := STRUCTURAL_BLIND_SPOT ::
    if 0 < declined then
      [.declined declined (js "visitors who agreed to compute but not to be counted")]
    else []

/-- Aggregate outcomes one visitor reported at a time. -/
def startReport (outcomes : List StartOutcome) (declined : Nat) : StartReport :=
  let counts := outcomes.foldl
    (fun counts outcome => OutcomeRows.add counts outcome.browser outcome.result 1) .empty
  startReportFromCounts collation counts.values declined

namespace StartOutcomeLedger

/-- `a.browser.localeCompare(b.browser) || a.result.localeCompare(b.result)` does not put `b`
    first. -/
def CountLE (a b : OutcomeCount) : Prop :=
  collation.localeCompare a.browser b.browser < 0 ∨
    collation.localeCompare a.browser b.browser = 0 ∧
      collation.localeCompare a.result.text b.result.text ≤ 0

instance : DecidableRel (CountLE collation) := fun _ _ => inferInstanceAs (Decidable (_ ∨ _))

def counts (ledger : StartOutcomeLedger) : List OutcomeCount :=
  ledger.rows.values.insertionSort (CountLE collation)

def report (ledger : StartOutcomeLedger) : StartReport :=
  startReportFromCounts collation (ledger.counts collation) ledger.declined

def recordAll (ledger : StartOutcomeLedger) (outcomes : List StartOutcome) : StartOutcomeLedger :=
  outcomes.foldl record ledger

end StartOutcomeLedger

/-! ## The order of rows -/

section

variable {collation}

instance : Std.Total (CauseLE collation) where
  total a b := by
    have := collation.total a.cause.text b.cause.text
    simp only [CauseLE]
    omega

instance : IsTrans CauseCount (CauseLE collation) where
  trans a b c := by
    have := collation.trans a.cause.text b.cause.text c.cause.text
    simp only [CauseLE]
    omega

instance : Std.Total (TallyLE collation) where
  total a b := by
    have := collation.total a.browser b.browser
    simp only [TallyLE]
    omega

instance : IsTrans BrowserTally (TallyLE collation) where
  trans a b c := by
    have := collation.trans a.browser b.browser c.browser
    simp only [TallyLE]
    omega

/-- Tallies are tied where their labels are. -/
theorem TallyLE.tied {a b : BrowserTally} (hab : TallyLE collation a b)
    (hba : TallyLE collation b a) : collation.localeCompare a.browser b.browser = 0 := by
  simp only [TallyLE] at hab hba
  exact collation.eq_zero (by omega) (by omega)

/-- Causes are tied with themselves only. -/
theorem CauseLE.eq {a b : CauseCount} (hab : CauseLE collation a b) (hba : CauseLE collation b a) :
    a = b := by
  have hcount : a.count = b.count := by
    simp only [CauseLE] at hab hba
    omega
  have hab : collation.localeCompare a.cause.text b.cause.text ≤ 0 := by
    simp only [CauseLE] at hab
    omega
  have hba : collation.localeCompare b.cause.text a.cause.text ≤ 0 := by
    simp only [CauseLE] at hba
    omega
  obtain ⟨cause, count⟩ := a
  obtain ⟨cause', count'⟩ := b
  cases hcount
  cases collation.causes cause cause' (collation.eq_zero hab hba)
  rfl

end

def causeEntry (row : OutcomeCount) : Option (StartFailure × Nat) :=
  match row.result with
  | .started => none
  | .failed cause => some (cause, row.count)

theorem foldl_addRow (totals : TallyTotals) (rows : List OutcomeCount) :
    rows.foldl TallyTotals.addRow totals
      = ⟨totals.attempts + (rows.map OutcomeCount.count).sum,
          totals.failed + (rows.map OutcomeCount.failures).sum,
          KeyedSum.addAll totals.counts (rows.filterMap causeEntry)⟩ := by
  induction rows generalizing totals with
  | nil => rfl
  | cons row rows ih =>
    rw [List.foldl_cons, ih, List.map_cons, List.map_cons, List.sum_cons, List.sum_cons,
      List.filterMap_cons, TallyTotals.addRow, OutcomeCount.failures, causeEntry]
    cases row.result with
    | started => simp [Nat.add_assoc]
    | failed cause => simp [Nat.add_assoc, KeyedSum.addAll]

/-- A tally does not depend on the order of its rows. -/
theorem tally_perm {rows rows' : List OutcomeCount} (hperm : rows.Perm rows')
    (browser : JsString) : tally collation browser rows = tally collation browser rows' := by
  have hattempts := (hperm.map OutcomeCount.count).sum_eq
  have hfailed := (hperm.map OutcomeCount.failures).sum_eq
  have htotals : KeyedSum.totals (KeyedSum.addAll .empty (rows.filterMap causeEntry))
      = KeyedSum.totals (KeyedSum.addAll .empty (rows'.filterMap causeEntry)) := by
    rw [KeyedSum.totals_addAll, KeyedSum.totals_addAll,
      ((hperm.filterMap causeEntry).map KeyedSum.entryWorth).sum_eq]
  have hget := fun cause => KeyedSum.worthOf_injective (congrFun htotals cause)
  have hcauses := StableSort.insertionSort_eq_of_perm (r := CauseLE collation)
    ((InsertionMap.entries_perm hget).map fun entry => CauseCount.mk entry.1 entry.2)
    fun a _ b _ hab hba => hab.eq hba
  simp only [tally, foldl_addRow, TallyTotals.zero, hattempts, hfailed, hcauses]

def ToldApart (labels : List JsString) : Prop :=
  ∀ a ∈ labels, ∀ b ∈ labels, collation.localeCompare a b = 0 → a = b

/-- The tallies are one a browser, of the rows that name it. -/
theorem map_tally_bucketsOf (counts : List OutcomeCount) :
    ((bucketsOf counts).entries.map fun entry => tally collation entry.1 entry.2)
      = (bucketsOf counts).keys.map fun browser =>
        tally collation browser (counts.filter fun row => decide (row.browser = browser)) := by
  rw [InsertionMap.keys, List.map_map]
  apply List.map_congr_left
  intro entry hentry
  rw [Function.comp_apply, ← (Grouping.mem_entries_groupInto hentry).2]

theorem mem_keys_bucketsOf {counts : List OutcomeCount} {browser : JsString} :
    browser ∈ (bucketsOf counts).keys ↔ browser ∈ counts.map OutcomeCount.browser := by
  rw [bucketsOf, Grouping.mem_keys_groupInto, List.map_map]
  exact or_iff_right (List.not_mem_nil)

variable {collation} in
/-- Nor does a report, where the labels of its rows are told apart. -/
theorem startReportFromCounts_perm {counts counts' : List OutcomeCount}
    (hperm : counts.Perm counts')
    (hlabels : ToldApart collation (counts'.map OutcomeCount.browser)) (declined : Nat) :
    startReportFromCounts collation counts declined
      = startReportFromCounts collation counts' declined := by
  have hreported := (hperm.map OutcomeCount.count).sum_eq
  have hfailed := (hperm.map OutcomeCount.failures).sum_eq
  have hkeys : (bucketsOf counts).keys.Perm (bucketsOf counts').keys := by
    rw [List.perm_ext_iff_of_nodup (InsertionMap.keys_nodup _) (InsertionMap.keys_nodup _)]
    intro browser
    rw [mem_keys_bucketsOf, mem_keys_bucketsOf, (hperm.map OutcomeCount.browser).mem_iff]
  have htally : ∀ browser,
      tally collation browser (counts.filter fun row => decide (row.browser = browser))
        = tally collation browser (counts'.filter fun row => decide (row.browser = browser)) :=
    fun browser => tally_perm collation (hperm.filter _) browser
  have htallies : ((bucketsOf counts).entries.map fun entry =>
        tally collation entry.1 entry.2).Perm
      ((bucketsOf counts').entries.map fun entry => tally collation entry.1 entry.2) := by
    rw [map_tally_bucketsOf, map_tally_bucketsOf]
    simp only [htally]
    exact hkeys.map _
  have hsorted := StableSort.insertionSort_eq_of_perm (r := TallyLE collation) htallies (by
    rw [map_tally_bucketsOf]
    intro a ha b hb hab hba
    obtain ⟨browser, hbrowser, rfl⟩ := List.mem_map.mp ha
    obtain ⟨browser', hbrowser', rfl⟩ := List.mem_map.mp hb
    have hsame : browser = browser' := hlabels browser (mem_keys_bucketsOf.mp hbrowser) browser'
      (mem_keys_bucketsOf.mp hbrowser') (hab.tied hba)
    rw [hsame])
  simp only [startReportFromCounts, hreported, hfailed, hsorted]

namespace StartOutcomeLedger

variable {collation}

theorem report_eq (ledger : StartOutcomeLedger)
    (hlabels : ToldApart collation (ledger.rows.values.map OutcomeCount.browser)) :
    ledger.report collation = startReportFromCounts collation ledger.rows.values ledger.declined :=
  startReportFromCounts_perm (List.perm_insertionSort _ _) hlabels _

theorem rows_recordAll (ledger : StartOutcomeLedger) (outcomes : List StartOutcome) :
    (ledger.recordAll outcomes).rows
      = outcomes.foldl (fun rows outcome => OutcomeRows.add rows outcome.browser outcome.result 1)
        ledger.rows := by
  induction outcomes generalizing ledger with
  | nil => rfl
  | cons outcome outcomes ih => exact ih (ledger.record outcome)

theorem declined_recordAll (ledger : StartOutcomeLedger) (outcomes : List StartOutcome) :
    (ledger.recordAll outcomes).declined = ledger.declined := by
  induction outcomes generalizing ledger with
  | nil => rfl
  | cons outcome outcomes ih => exact ih (ledger.record outcome)

/-- A recorded outcome writes a row of its own browser. -/
theorem browser_of_mem_add {rows : OutcomeRows} {browser : JsString} {result : StartResult}
    {count : Nat} {row : OutcomeCount} (h : row ∈ (rows.add browser result count).values) :
    row.browser = browser ∨ row ∈ rows.values := by
  have hput : ∀ {n : Nat}, row ∈ (rows.put browser result n).values →
      row.browser = browser ∨ row ∈ rows.values := by
    intro n hrow
    obtain ⟨key, hkey⟩ := InsertionMap.mem_values_iff.mp hrow
    rw [OutcomeRows.put, InsertionMap.get?_set] at hkey
    split at hkey
    · cases hkey
      exact .inl rfl
    · exact .inr (InsertionMap.mem_values_iff.mpr ⟨key, hkey⟩)
  unfold OutcomeRows.add at h
  split at h
  · exact hput h
  · exact hput h

/-- Every row that is recorded is of a browser that an outcome names. -/
theorem browsers_recordAll (ledger : StartOutcomeLedger) (outcomes : List StartOutcome) :
    ∀ browser ∈ (ledger.recordAll outcomes).rows.values.map OutcomeCount.browser,
      browser ∈ ledger.rows.values.map OutcomeCount.browser ∨
        browser ∈ outcomes.map StartOutcome.browser := by
  induction outcomes generalizing ledger with
  | nil => exact fun browser hbrowser => .inl hbrowser
  | cons outcome outcomes ih =>
    intro browser hbrowser
    rcases ih (ledger.record outcome) browser hbrowser with hrecorded | hlater
    · obtain ⟨row, hrow, rfl⟩ := List.mem_map.mp hrecorded
      rcases browser_of_mem_add hrow with hnew | hold
      · exact .inr (List.mem_cons.mpr (.inl hnew))
      · exact .inl (List.mem_map_of_mem hold)
    · exact .inr (List.mem_cons_of_mem _ hlater)

/-- Recorded one by one, a population is reported as it is all at once. -/
theorem report_recordAll {population : List StartOutcome}
    (hlabels : ToldApart collation (population.map StartOutcome.browser)) :
    (new.recordAll population).report collation = startReport collation population 0 := by
  have hrows : ToldApart collation
      ((new.recordAll population).rows.values.map OutcomeCount.browser) := by
    have hnamed := browsers_recordAll new population
    intro a ha b hb
    exact hlabels a ((hnamed a ha).resolve_left (List.not_mem_nil)) b
      ((hnamed b hb).resolve_left (List.not_mem_nil))
  rw [report_eq _ hrows, rows_recordAll, declined_recordAll]
  rfl

end StartOutcomeLedger

/-! ## Overlapping reports -/

namespace StartOutcomeLedger

theorem mem_offers {view : StartView} {browser : JsString} {result : StartResult} {n : Nat} :
    n ∈ view.offers browser result ↔ ∃ entry ∈ view.counts, entry.browser = browser ∧
      entry.result = result ∧ entry.count.positiveInteger? = some n := by
  unfold StartView.offers OfferedCount.offers
  rw [List.mem_flatMap]
  constructor
  · rintro ⟨entry, hentry, hn⟩
    split at hn
    · next hsame => exact ⟨entry, hentry, hsame.1.symm, hsame.2.symm, Option.mem_toList.mp hn⟩
    · cases hn
  · rintro ⟨entry, hentry, rfl, rfl, hn⟩
    exact ⟨entry, hentry, by rw [if_pos ⟨rfl, rfl⟩]; exact Option.mem_toList.mpr hn⟩

def OfferedCounts (start : StartOutcomeLedger) (views : Multiset StartView) (browser : JsString)
    (result : StartResult) : Set Nat :=
  {n | n = start.countOf browser result ∨ ∃ view ∈ views, ∃ entry ∈ view.counts,
    entry.browser = browser ∧ entry.result = result ∧ entry.count.positiveInteger? = some n}

def OfferedDeclined (start : StartOutcomeLedger) (views : Multiset StartView) : Set Nat :=
  {n | n = start.declined ∨ ∃ view ∈ views, view.declined.positiveInteger? = some n}

variable {start : StartOutcomeLedger} {views : Multiset StartView} {order : List StartView}

theorem isGreatest_countOf (horder : ∀ view, view ∈ order ↔ view ∈ views) (browser : JsString)
    (result : StartResult) :
    IsGreatest (start.OfferedCounts views browser result)
      ((start.mergeAll order).countOf browser result) := by
  have hset : start.OfferedCounts views browser result
      = {n | n = start.countOf browser result ∨
        n ∈ order.flatMap fun view => view.offers browser result} := by
    ext n
    simp only [OfferedCounts, Set.mem_ofPred_eq, List.mem_flatMap, mem_offers, horder]
  rw [hset, countOf_mergeAll]
  exact isGreatest_foldl_max _ _

theorem isGreatest_declined (horder : ∀ view, view ∈ order ↔ view ∈ views) :
    IsGreatest (start.OfferedDeclined views) (start.mergeAll order).declined := by
  have hset : start.OfferedDeclined views
      = {n | n = start.declined ∨
        n ∈ order.flatMap fun view => view.declined.positiveInteger?.toList} := by
    ext n
    simp only [OfferedDeclined, Set.mem_ofPred_eq, List.mem_flatMap, Option.mem_toList, horder]
  rw [hset, declined_mergeAll]
  exact isGreatest_foldl_max _ _

/-- Overlapping views come to one ledger, in any order and with any repetitions, and no call lowers
    a count.  A population is reported alike one by one and all at once, where its labels are told
    apart. -/
theorem overlapping_reports_converge :
    (∀ (start : StartOutcomeLedger) (views : Multiset StartView) (order : List StartView),
      (∀ view, view ∈ order ↔ view ∈ views) →
      (∀ order' : List StartView, (∀ view, view ∈ order' ↔ view ∈ views) →
        SameLedger (start.mergeAll order) (start.mergeAll order')) ∧
      (∀ browser result, IsGreatest (start.OfferedCounts views browser result)
        ((start.mergeAll order).countOf browser result)) ∧
      IsGreatest (start.OfferedDeclined views) (start.mergeAll order).declined) ∧
    (∀ (ledger : StartOutcomeLedger) (view : StartView),
      (∀ browser result, ledger.countOf browser result
        ≤ (ledger.mergeOverlapping view).countOf browser result) ∧
      ledger.declined ≤ (ledger.mergeOverlapping view).declined) ∧
    (∀ (collation : Collation) (population : List StartOutcome),
      ToldApart collation (population.map StartOutcome.browser) →
      (new.recordAll population).report collation = startReport collation population 0) := by
  refine ⟨?_, ?_, fun collation population => report_recordAll⟩
  · intro start views order horder
    refine ⟨?_, isGreatest_countOf horder, isGreatest_declined horder⟩
    intro order' horder'
    apply sameLedger_of_countOf
    · intro browser result
      exact (isGreatest_countOf horder browser result).unique
        (isGreatest_countOf horder' browser result)
    · exact (isGreatest_declined horder).unique (isGreatest_declined horder')
  · -- one call is a run of one view
    intro ledger view
    have horder : ∀ view', view' ∈ [view] ↔ view' ∈ ({view} : Multiset StartView) := by simp
    exact ⟨fun browser result => (isGreatest_countOf horder browser result).2 (.inl rfl),
      (isGreatest_declined horder).2 (.inl rfl)⟩

end StartOutcomeLedger

/-! ### Texts that compare as equal -/

/-- The acute accent on its own. -/
def decompose (text : JsString) : JsString :=
  text.flatMap fun u => if u = 0xE9 then [0x65, 0x301] else [u]

/-- Compared by the code units of the decomposed form. -/
def compareDecomposed (a b : JsString) : ℤ :=
  if decompose a < decompose b then -1 else if decompose b < decompose a then 1 else 0

theorem compareDecomposed_le_iff :
    compareDecomposed a b ≤ 0 ↔ decompose a ≤ decompose b := by
  unfold compareDecomposed
  rcases lt_trichotomy (decompose a) (decompose b) with h | h | h
  · simp [h, le_of_lt h]
  · simp [h]
  · simp [h, not_lt_of_gt h, not_le_of_gt h]

theorem compareDecomposed_lt_iff :
    compareDecomposed a b < 0 ↔ decompose a < decompose b := by
  unfold compareDecomposed
  rcases lt_trichotomy (decompose a) (decompose b) with h | h | h
  · simp [h]
  · simp [h]
  · simp [h, not_lt_of_gt h]

def decomposed : Collation where
  localeCompare := compareDecomposed
  swapped a b := by
    rw [compareDecomposed_lt_iff, ← not_le, ← compareDecomposed_le_iff, not_le]
  trans a b c := by
    rw [compareDecomposed_le_iff, compareDecomposed_le_iff, compareDecomposed_le_iff]
    exact le_trans
  causes a b h := by
    have heq : decompose a.text = decompose b.text :=
      le_antisymm (compareDecomposed_le_iff.mp (by omega)) (by
        rw [← not_lt, ← compareDecomposed_lt_iff]
        omega)
    cases a <;> cases b <;> first | rfl | (revert heq; decide)

namespace StartOutcomeLedger

/-- A view with a row that is not counted, and one that is counted twice. -/
def firstView : StartView :=
  ⟨[⟨js "safari 17", .started, .finite 3⟩, ⟨js "safari 17", .started, .finite (-2)⟩,
    ⟨js "safari 17", .started, .finite 5⟩], .finite (1 / 2)⟩

def secondView : StartView := ⟨[⟨js "safari 17", .started, .finite 4⟩], .finite 2⟩

def plainStarts : List StartOutcome :=
  [⟨js "safari 17", .started⟩, ⟨js "edge", .failed .other⟩, ⟨js "safari 17", .failed .other⟩]

theorem overlapping_reports_converge_two :
    SameLedger (new.mergeAll [firstView, secondView])
        (new.mergeAll [secondView, firstView, secondView]) ∧
      (new.recordAll plainStarts).report decomposed = startReport decomposed plainStarts 0 := by
  obtain ⟨hmerged, -, hreported⟩ := overlapping_reports_converge
  have htwo : ∀ view, view ∈ [secondView, firstView, secondView]
      ↔ view ∈ ({firstView, secondView} : Multiset StartView) := by
    intro view
    simp only [List.mem_cons, List.not_mem_nil, or_false, Multiset.insert_eq_cons,
      Multiset.mem_cons, Multiset.mem_singleton]
    tauto
  refine ⟨(hmerged new {firstView, secondView} [firstView, secondView] (by simp)).1 _ htwo, ?_⟩
  apply hreported decomposed plainStarts
  unfold ToldApart
  decide

/-- Two labels, of which one writes its accent apart, and which compare as equal. -/
def accented : List StartOutcome :=
  [⟨[0xE9], .started⟩, ⟨[0x65, 0x301], .failed .other⟩]

theorem accented_labels_change_places :
    (new.recordAll accented).report decomposed ≠ startReport decomposed accented 0 := by
  intro h
  have hbrowsers := congrArg (fun report => report.byBrowser.map BrowserTally.browser) h
  revert hbrowsers
  decide

end StartOutcomeLedger

end O2Fabric
