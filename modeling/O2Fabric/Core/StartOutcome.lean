/-
  O2Fabric.Core.StartOutcome

  How a node's start went, and under which browser label it is counted.
-/

import O2Fabric.Js.Number
import O2Fabric.Js.Text
import O2Fabric.Lib.InsertionMap

namespace O2Fabric

inductive StartFailure
  | wasmUnavailable
  | webrtcUnavailable
  | storageDenied
  | cryptoUnavailable
  | noRelayReachable
  | other
  deriving DecidableEq

def START_FAILURES : List StartFailure :=
  [.wasmUnavailable, .webrtcUnavailable, .storageDenied, .cryptoUnavailable, .noRelayReachable,
    .other]

def StartFailure.text : StartFailure → JsString
  | .wasmUnavailable => js "wasm-unavailable"
  | .webrtcUnavailable => js "webrtc-unavailable"
  | .storageDenied => js "storage-denied"
  | .cryptoUnavailable => js "crypto-unavailable"
  | .noRelayReachable => js "no-relay-reachable"
  | .other => js "other"

inductive StartResult
  | started
  | failed (cause : StartFailure)
  deriving DecidableEq

def BROWSER_FAMILIES : List JsString :=
  [js "chromium", js "edge", js "firefox", js "safari", js "other"]

/-- Digits a major version may carry. -/
def MAJOR_DIGITS : Nat := 4

/-- `'0'` to `'9'`. -/
def isDigit (u : CodeUnit) : Bool := decide (48 ≤ u.val ∧ u.val ≤ 57)

/-- `(?: \d{1,4})?$`. -/
def isMajor : JsString → Bool
  | [] => true
  | u :: digits =>
    decide ([u] = js " " ∧ 1 ≤ digits.length ∧ digits.length ≤ MAJOR_DIGITS) && digits.all isDigit

/-- Whether a label is one this build can file: a family, or a family and a major
    version. -/
def isStartBrowserLabel (label : JsString) : Bool :=
  BROWSER_FAMILIES.any fun family =>
    family.isPrefixOf label && isMajor (label.drop family.length)

structure StartOutcome where
  browser : JsString
  result : StartResult
  deriving DecidableEq

/-- How many starts of one label went one way. -/
structure OutcomeCount where
  browser : JsString
  result : StartResult
  count : Nat
  deriving DecidableEq

end O2Fabric

/-! # Ledger

What one node has been told about start outcomes, and the views of others it
takes the larger counts of.  Such views overlap, so what is held is the
greatest count anyone offered, in whatever order and however often they come.
-/

namespace O2Fabric

/-- `resultOf(outcome)`. -/
def StartResult.text : StartResult → JsString
  | .started => js "started"
  | .failed cause => cause.text

theorem StartResult.text_injective : Function.Injective StartResult.text := by
  have hall : ∀ a ∈ START_FAILURES, ∀ b ∈ START_FAILURES, a.text = b.text → a = b := by decide
  have hmem : ∀ cause : StartFailure, cause ∈ START_FAILURES := by
    intro cause
    cases cause <;> decide
  intro a b h
  cases a with
  | started =>
    cases b with
    | started => rfl
    | failed cause =>
      have hne : ∀ cause ∈ START_FAILURES, js "started" ≠ cause.text := by decide
      exact absurd h (hne cause (hmem cause))
  | failed cause =>
    cases b with
    | started =>
      have hne : ∀ cause ∈ START_FAILURES, cause.text ≠ js "started" := by decide
      exact absurd h (hne cause (hmem cause))
    | failed cause' => exact congrArg _ (hall cause (hmem cause) cause' (hmem cause') h)

theorem StartResult.NUL_notMem_text (result : StartResult) : NUL ∉ result.text := by
  cases result with
  | started => decide
  | failed cause => cases cause <;> decide

/-- A row as a peer offers it. -/
structure OfferedCount where
  browser : JsString
  result : StartResult
  count : JsNumber
  deriving DecidableEq

/-- A peer's view: its rows, and how many it was told declined. -/
structure StartView where
  counts : List OfferedCount
  declined : JsNumber
  deriving DecidableEq

/-- The key a row is kept under. -/
def outcomeKey (browser : JsString) (result : StartResult) : JsString :=
  browser ++ NUL :: result.text

theorem outcomeKey_inj {browser browser' : JsString} {result result' : StartResult}
    (h : outcomeKey browser result = outcomeKey browser' result') :
    browser = browser' ∧ result = result' := by
  obtain ⟨hbrowser, hresult⟩ :=
    append_separator_inj result.NUL_notMem_text result'.NUL_notMem_text h
  exact ⟨hbrowser, StartResult.text_injective hresult⟩

/-! ## Rows -/

abbrev OutcomeRows := InsertionMap JsString OutcomeCount

namespace OutcomeRows

/-- Every row is under its own key, and counts something. -/
def Filed (rows : OutcomeRows) : Prop :=
  ∀ key row, rows.get? key = some row →
    key = outcomeKey row.browser row.result ∧ 0 < row.count

def put (rows : OutcomeRows) (browser : JsString) (result : StartResult) (count : Nat) :
    OutcomeRows :=
  rows.set (outcomeKey browser result) ⟨browser, result, count⟩

variable {rows : OutcomeRows}

theorem Filed.put (h : rows.Filed) (browser : JsString) (result : StartResult) {count : Nat}
    (hpos : 0 < count) :
    (rows.put browser result count).Filed := by
  intro key row hrow
  rw [OutcomeRows.put, InsertionMap.get?_set] at hrow
  split at hrow
  · next hkey =>
    cases hrow
    exact ⟨hkey, hpos⟩
  · exact h key row hrow

/-- How many starts of a browser went one way; none where there is no row. -/
def countOf (rows : OutcomeRows) (browser : JsString) (result : StartResult) : Nat :=
  ((rows.get? (outcomeKey browser result)).map OutcomeCount.count).getD 0

theorem countOf_put (rows : OutcomeRows) (browser browser' : JsString)
    (result result' : StartResult) (count : Nat) :
    (rows.put browser result count).countOf browser' result'
      = if browser' = browser ∧ result' = result then count else rows.countOf browser' result' := by
  unfold countOf put
  rw [InsertionMap.get?_set]
  by_cases h : browser' = browser ∧ result' = result
  · rw [if_pos h, if_pos (by rw [h.1, h.2])]
    rfl
  · rw [if_neg h, if_neg fun hkey => h (outcomeKey_inj hkey)]

/-- `#add(browser, result, by)`. -/
def add (rows : OutcomeRows) (browser : JsString) (result : StartResult) (count : Nat) :
    OutcomeRows :=
  match rows.get? (outcomeKey browser result) with
  | none => rows.put browser result count
  | some existing => rows.put browser result (existing.count + count)

theorem Filed.add (h : rows.Filed) (browser : JsString) (result : StartResult) {count : Nat}
    (hpos : 0 < count) :
    (rows.add browser result count).Filed := by
  unfold OutcomeRows.add
  split
  · exact h.put browser result hpos
  · exact h.put browser result (by omega)

/-- Take an offered row where it counts more; one that counts nothing is dropped. -/
def takeLarger (rows : OutcomeRows) (entry : OfferedCount) : OutcomeRows :=
  match entry.count.positiveInteger? with
  | none => rows
  | some count =>
    match rows.get? (outcomeKey entry.browser entry.result) with
    | none => rows.put entry.browser entry.result count
    | some existing =>
      if existing.count < count then rows.put entry.browser entry.result count else rows

theorem Filed.takeLarger (h : rows.Filed) (entry : OfferedCount) :
    (rows.takeLarger entry).Filed := by
  unfold OutcomeRows.takeLarger
  split
  · exact h
  · next count hcount =>
    have hpos := JsNumber.positiveInteger?_pos hcount
    split
    · exact h.put _ _ hpos
    · split
      · exact h.put _ _ hpos
      · exact h

theorem Filed.foldl_takeLarger (h : rows.Filed) (entries : List OfferedCount) :
    (entries.foldl OutcomeRows.takeLarger rows).Filed := by
  induction entries generalizing rows with
  | nil => exact h
  | cons entry entries ih => exact ih (h.takeLarger entry)

end OutcomeRows

/-! ## The ledger -/

structure StartOutcomeLedger where
  rows : OutcomeRows
  declined : Nat
  filed : rows.Filed

namespace StartOutcomeLedger

def new : StartOutcomeLedger := ⟨.empty, 0, by rintro key row ⟨⟩⟩

def record (ledger : StartOutcomeLedger) (outcome : StartOutcome) : StartOutcomeLedger where
  rows := ledger.rows.add outcome.browser outcome.result 1
  declined := ledger.declined
  filed := ledger.filed.add outcome.browser outcome.result Nat.one_pos

/-- `declined`, where `Number.isInteger(offered) && offered > declined`. -/
def largerDeclined (declined : Nat) (offered : JsNumber) : Nat :=
  match offered.positiveInteger? with
  | none => declined
  | some count => if declined < count then count else declined

/-- Fold in a view that overlaps what is held, taking the larger. -/
def mergeOverlapping (ledger : StartOutcomeLedger) (view : StartView) : StartOutcomeLedger where
  rows := view.counts.foldl OutcomeRows.takeLarger ledger.rows
  declined := largerDeclined ledger.declined view.declined
  filed := ledger.filed.foldl_takeLarger view.counts

def mergeAll (ledger : StartOutcomeLedger) (views : List StartView) : StartOutcomeLedger :=
  views.foldl mergeOverlapping ledger

def countOf (ledger : StartOutcomeLedger) (browser : JsString) (result : StartResult) : Nat :=
  ledger.rows.countOf browser result

end StartOutcomeLedger

/-! ## The greatest offer -/

/-- What is left when the larger of two is taken again and again is the greatest of all. -/
theorem isGreatest_foldl_max {α : Type} [LinearOrder α] (start : α) (offers : List α) :
    IsGreatest {n | n = start ∨ n ∈ offers} (offers.foldl max start) := by
  induction offers generalizing start with
  | nil => exact ⟨.inl rfl, by rintro n (rfl | hn); exacts [le_refl _, by cases hn]⟩
  | cons offer offers ih =>
    obtain ⟨hmem, hgreatest⟩ := ih (max start offer)
    rw [List.foldl_cons]
    constructor
    · rcases hmem with hmax | hlater
      · rcases max_choice start offer with hstart | hoffer
        · exact .inl (hmax.trans hstart)
        · exact .inr (List.mem_cons.mpr (.inl (hmax.trans hoffer)))
      · exact .inr (List.mem_cons_of_mem _ hlater)
    · have hfirst := hgreatest (Or.inl rfl)
      rintro n (rfl | hn)
      · exact (le_max_left n offer).trans hfirst
      · rcases List.mem_cons.mp hn with rfl | hlater
        · exact (le_max_right start n).trans hfirst
        · exact hgreatest (.inr hlater)

def OfferedCount.offers (entry : OfferedCount) (browser : JsString) (result : StartResult) :
    List Nat :=
  if browser = entry.browser ∧ result = entry.result then entry.count.positiveInteger?.toList
  else []

def StartView.offers (view : StartView) (browser : JsString) (result : StartResult) : List Nat :=
  view.counts.flatMap fun entry => entry.offers browser result

namespace StartOutcomeLedger

theorem countOf_takeLarger (rows : OutcomeRows) (entry : OfferedCount) (browser : JsString)
    (result : StartResult) :
    (rows.takeLarger entry).countOf browser result
      = (entry.offers browser result).foldl max (rows.countOf browser result) := by
  unfold OutcomeRows.takeLarger OfferedCount.offers
  cases hcount : entry.count.positiveInteger? with
  | none =>
    show rows.countOf browser result = List.foldl max _ (if _ then [] else [])
    rw [ite_self]
    rfl
  | some count =>
    by_cases hentry : browser = entry.browser ∧ result = entry.result
    · obtain ⟨rfl, rfl⟩ := hentry
      rw [if_pos ⟨rfl, rfl⟩]
      show _ = max (rows.countOf entry.browser entry.result) count
      cases hrow : rows.get? (outcomeKey entry.browser entry.result) with
      | none =>
        have hzero : rows.countOf entry.browser entry.result = 0 := by
          rw [OutcomeRows.countOf, hrow]
          rfl
        rw [hzero, OutcomeRows.countOf_put, if_pos ⟨rfl, rfl⟩, Nat.zero_max]
      | some existing =>
        have hcount : rows.countOf entry.browser entry.result = existing.count := by
          rw [OutcomeRows.countOf, hrow]
          rfl
        by_cases hmore : existing.count < count
        · simp only [if_pos hmore]
          rw [OutcomeRows.countOf_put, if_pos ⟨rfl, rfl⟩, hcount]
          omega
        · simp only [if_neg hmore]
          rw [hcount]
          omega
    · rw [if_neg hentry]
      have hput : (rows.put entry.browser entry.result count).countOf browser result
          = rows.countOf browser result := by
        rw [OutcomeRows.countOf_put, if_neg hentry]
      cases rows.get? (outcomeKey entry.browser entry.result) with
      | none => exact hput
      | some existing =>
        by_cases hmore : existing.count < count
        · simp only [if_pos hmore]
          exact hput
        · simp only [if_neg hmore]
          rfl

theorem countOf_foldl_takeLarger (rows : OutcomeRows) (entries : List OfferedCount)
    (browser : JsString) (result : StartResult) :
    (entries.foldl OutcomeRows.takeLarger rows).countOf browser result
      = (entries.flatMap fun entry => entry.offers browser result).foldl max
        (rows.countOf browser result) := by
  induction entries generalizing rows with
  | nil => rfl
  | cons entry entries ih =>
    rw [List.foldl_cons, ih, countOf_takeLarger, List.flatMap_cons, List.foldl_append]

theorem countOf_mergeAll (ledger : StartOutcomeLedger) (views : List StartView)
    (browser : JsString) (result : StartResult) :
    (ledger.mergeAll views).countOf browser result
      = (views.flatMap fun view => view.offers browser result).foldl max
        (ledger.countOf browser result) := by
  induction views generalizing ledger with
  | nil => rfl
  | cons view views ih =>
    have hview : (ledger.mergeOverlapping view).countOf browser result
        = (view.offers browser result).foldl max (ledger.countOf browser result) :=
      countOf_foldl_takeLarger ledger.rows view.counts browser result
    rw [List.flatMap_cons, List.foldl_append, ← hview]
    exact ih _

theorem declined_mergeAll (ledger : StartOutcomeLedger) (views : List StartView) :
    (ledger.mergeAll views).declined
      = (views.flatMap fun view => view.declined.positiveInteger?.toList).foldl max
        ledger.declined := by
  induction views generalizing ledger with
  | nil => rfl
  | cons view views ih =>
    have hview : (ledger.mergeOverlapping view).declined
        = view.declined.positiveInteger?.toList.foldl max ledger.declined := by
      show largerDeclined ledger.declined view.declined = _
      unfold largerDeclined
      cases view.declined.positiveInteger? with
      | none => rfl
      | some count =>
        show (if ledger.declined < count then count else ledger.declined)
          = max ledger.declined count
        split <;> omega
    rw [List.flatMap_cons, List.foldl_append, ← hview]
    exact ih _

/-! ## The same ledger -/

/-- The same rows under the same keys, and as many declined. -/
def SameLedger (a b : StartOutcomeLedger) : Prop :=
  (∀ key, a.rows.get? key = b.rows.get? key) ∧ a.declined = b.declined

/-- A row is told by its count: a browser and a result that count nothing have none. -/
theorem get?_eq_some_iff (ledger : StartOutcomeLedger) (key : JsString) (row : OutcomeCount) :
    ledger.rows.get? key = some row ↔
      key = outcomeKey row.browser row.result ∧ 0 < row.count ∧
        ledger.countOf row.browser row.result = row.count := by
  constructor
  · intro hrow
    obtain ⟨hkey, hpos⟩ := ledger.filed key row hrow
    refine ⟨hkey, hpos, ?_⟩
    show ((ledger.rows.get? (outcomeKey row.browser row.result)).map OutcomeCount.count).getD 0 = _
    rw [← hkey, hrow]
    rfl
  · rintro ⟨hkey, hpos, hcount⟩
    have hcount : ((ledger.rows.get? key).map OutcomeCount.count).getD 0 = row.count := hkey ▸ hcount
    cases hrow : ledger.rows.get? key with
    | none =>
      rw [hrow] at hcount
      rw [← hcount] at hpos
      exact absurd hpos (Nat.lt_irrefl 0)
    | some row' =>
      rw [hrow] at hcount
      obtain ⟨hbrowser, hresult⟩ := outcomeKey_inj (hkey.symm.trans (ledger.filed key row' hrow).1)
      cases row
      cases row'
      cases hbrowser
      cases hresult
      cases hcount
      rfl

theorem sameLedger_of_countOf {a b : StartOutcomeLedger}
    (hcounts : ∀ browser result, a.countOf browser result = b.countOf browser result)
    (hdeclined : a.declined = b.declined) : SameLedger a b := by
  refine ⟨fun key => ?_, hdeclined⟩
  apply Option.ext
  intro row
  rw [get?_eq_some_iff, get?_eq_some_iff, hcounts]

end StartOutcomeLedger

end O2Fabric
