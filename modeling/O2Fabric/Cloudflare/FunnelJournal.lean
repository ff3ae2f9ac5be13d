/-
  O2Fabric.Cloudflare.FunnelJournal

  The funnel's counters in an object's storage: how a record is read, what a
  write refuses, and what one report adds.

  A record is stored under one key, as the bytes of its JSON text.
-/

import O2Fabric.Core.Platform
import O2Fabric.Js.Json.RoundTrip
import O2Fabric.Lib.Fallible
import O2Fabric.Net.FunnelSchema

namespace O2Fabric.FunnelJournal

/-- What a read or a write throws of its own. -/
inductive FunnelJournalError
  /-- The bytes are no JSON text. -/
  | unparsable
  /-- The place in the record that does not hold what it should. -/
  | malformed (path : JsString)
  | rollback (field : JsString) (stored offered : Nat)
  | tooLarge (bytes : Nat)
  deriving DecidableEq

/-! ## Reading -/

/-- A non-negative integer and nothing else. -/
def readCount (value : Option Json) (path : JsString) : Except FunnelJournalError Nat :=
  match value with
  | some (.number x) =>
    if x.den = 1 ∧ 0 ≤ x.num then .ok x.num.toNat else .error (.malformed path)
  | _ => .error (.malformed path)

def objectAt (source : List (JsString × Json)) (field : JsString) :
    Except FunnelJournalError (List (JsString × Json)) :=
  match Json.field source field with
  | some (.record fields) => .ok fields
  | _ => .error (.malformed field)

/-- The six stage counters, read by name from the frozen list. -/
def readStageCounts (source : List (JsString × Json)) (field : JsString) :
    Except FunnelJournalError (FunnelStage → Nat) := do
  let fields ← objectAt source field
  let counts ← FUNNEL_STAGES.mapM fun stage =>
    readCount (Json.field fields stage.name) (field ++ js "." ++ stage.name)
  return fun stage => counts.getD (FUNNEL_STAGES.idxOf stage) 0

def readCells (source : List (JsString × Json)) (field : JsString) :
    Except FunnelJournalError (InsertionMap JsString Nat) := do
  let fields ← objectAt source field
  let counts ← fields.mapM fun entry => do
    let n ← readCount (some entry.2) (field ++ js "[" ++ entry.1 ++ js "]")
    return (entry.1, n)
  return InsertionMap.ofPairs counts

def textAt (source : List (JsString × Json)) (field : JsString) :
    Except FunnelJournalError JsString :=
  match Json.field source field with
  | some (.string text) => .ok text
  | _ => .error (.malformed field)

/-- Six zeros for a node that has never banked a report. -/
def emptyFunnelJournal (population : FunnelPopulation) : FunnelTotals where
  entered _ := 0
  stalledAt _ := 0
  byStageHour := .empty
  webrtcAttempts := .empty
  webrtcOutcomes := .empty
  population := population.name
  schemaDigest := FUNNEL_SCHEMA_DIGEST

def parseTotals (source : List (JsString × Json)) : Except FunnelJournalError FunnelTotals := do
  let population ← textAt source (js "population")
  let schemaDigest ← textAt source (js "schemaDigest")
  let entered ← readStageCounts source (js "entered")
  let stalledAt ← readStageCounts source (js "stalledAt")
  let byStageHour ← readCells source (js "byStageHour")
  let webrtcAttempts ← readCells source (js "webrtcAttempts")
  let webrtcOutcomes ← readCells source (js "webrtcOutcomes")
  return ⟨entered, stalledAt, byStageHour, webrtcAttempts, webrtcOutcomes, population, schemaDigest⟩

/-- The stored record, or six zeros if this node has never banked one. -/
def readFunnelJournal (stored : Option Bytes) (population : FunnelPopulation) :
    Except FunnelJournalError FunnelTotals :=
  match stored with
  | none => .ok (emptyFunnelJournal population)
  | some raw =>
    match Json.decode raw with
    | none => .error .unparsable
    | some (.record source) => parseTotals source
    | some _ => .error (.malformed [])

/-! ## Writing -/

def countJson (n : Nat) : Json := .number (n : ℤ)

def stageJson (counts : FunnelStage → Nat) : Json :=
  .record (FUNNEL_STAGES.map fun stage => (stage.name, countJson (counts stage)))

def cellsJson (cells : InsertionMap JsString Nat) : Json :=
  .record (cells.entries.map fun cell => (cell.1, countJson cell.2))

def totalsFields (totals : FunnelTotals) : List (JsString × Json) :=
  [(js "entered", stageJson totals.entered), (js "stalledAt", stageJson totals.stalledAt),
    (js "byStageHour", cellsJson totals.byStageHour),
    (js "webrtcAttempts", cellsJson totals.webrtcAttempts),
    (js "webrtcOutcomes", cellsJson totals.webrtcOutcomes),
    (js "population", .string totals.population),
    (js "schemaDigest", .string totals.schemaDigest)]

def totalsJson (totals : FunnelTotals) : Json := .record (totalsFields totals)

section

variable (fraction : ℚ → JsString)

/-- The bytes a record is stored as. -/
def encodeTotals (totals : FunnelTotals) : Bytes := Json.encode fraction (totalsJson totals)

/-- A counter that is to go backwards: the stages first, then each cell that is stored. -/
def goesBackwards (stored totals : FunnelTotals) : Option FunnelJournalError :=
  (FUNNEL_STAGES.findSome? fun stage =>
      if totals.entered stage < stored.entered stage then
        some (.rollback (js "entered." ++ stage.name) (stored.entered stage) (totals.entered stage))
      else if totals.stalledAt stage < stored.stalledAt stage then
        some (.rollback (js "stalledAt." ++ stage.name) (stored.stalledAt stage)
          (totals.stalledAt stage))
      else none)
    <|> CELL_MAPS.findSome? fun map =>
      (stored.cells map).entries.findSome? fun cell =>
        if (totals.cells map).count cell.1 < cell.2 then
          some (.rollback (map.name ++ js "[" ++ cell.1 ++ js "]") cell.2
            ((totals.cells map).count cell.1))
        else none

/-- The bytes that are put, where the write is not refused. -/
def writeFunnelJournal (stored : Option Bytes) (totals : FunnelTotals)
    (population : FunnelPopulation) : Except FunnelJournalError Bytes := do
  let before ← readFunnelJournal stored population
  match goesBackwards before totals with
  | some refusal => .error refusal
  | none =>
    if FUNNEL_RECORD_CEILING_BYTES < (encodeTotals fraction totals).length then
      .error (.tooLarge (encodeTotals fraction totals).length)
    else .ok (encodeTotals fraction totals)

end

/-! ## One report more -/

/-- What the edge supplies about a visit. -/
structure FunnelDimensions where
  country : FunnelCountry
  deriving DecidableEq

def hourKey (stage : FunnelStage) (hourBucket : HourBucket) : JsString :=
  stage.name ++ PIPE :: decimal hourBucket.val

def attemptKey (country : FunnelCountry) (networkClass : FunnelNetworkClass) : JsString :=
  country.code ++ PIPE :: networkClass.name

def outcomeKey (country : FunnelCountry) (networkClass : FunnelNetworkClass)
    (connectionClass : FunnelConnectionClass) : JsString :=
  country.code ++ PIPE :: (networkClass.name ++ PIPE :: connectionClass.name)

/-- Add one report to a record. -/
def accrueFunnelReport (totals : FunnelTotals) (report : FunnelReport)
    (dimensions : FunnelDimensions) : FunnelTotals :=
  { totals with
    entered :=
      if report.kind = .entered then
        Function.update totals.entered report.stage (totals.entered report.stage + 1)
      else totals.entered
    stalledAt :=
      if report.kind = .entered then totals.stalledAt
      else Function.update totals.stalledAt report.stage (totals.stalledAt report.stage + 1)
    byStageHour := totals.byStageHour.bump (hourKey report.stage report.hourBucket)
    webrtcAttempts :=
      if report.stage = .iceGathering ∧ report.kind = .entered then
        totals.webrtcAttempts.bump (attemptKey dimensions.country report.networkClass)
      else totals.webrtcAttempts
    webrtcOutcomes :=
      if report.stage = .connectionClassified ∧ report.kind = .entered then
        match report.connectionClass with
        | some connectionClass =>
          totals.webrtcOutcomes.bump
            (outcomeKey dimensions.country report.networkClass connectionClass)
        | none => totals.webrtcOutcomes
      else totals.webrtcOutcomes }

/-- The country of a request: the edge's header if the schema admits it, else what the platform
    says, else `ZZ`.  `toUpperCase` is the language's. -/
def funnelDimensionsFrom (toUpperCase : JsString → JsString) (header : Option JsString)
    (platformCountry : Option JsString) : FunnelDimensions :=
  let admitted (label : Option JsString) : Option FunnelCountry :=
    label.bind fun text =>
      if h : isFunnelCountry (toUpperCase text) = true then some ⟨toUpperCase text, h⟩ else none
  ⟨(admitted header <|> admitted platformCountry).getD ⟨FUNNEL_UNKNOWN_COUNTRY, by decide⟩⟩

/-! ## What was written is read -/

theorem countJson_plain (n : Nat) : (countJson n).Plain := .number (n : ℤ)

theorem readCount_countJson (n : Nat) (path : JsString) :
    readCount (some (countJson n)) path = .ok n := by
  have hden : ((n : ℤ) : ℚ).den = 1 := Rat.den_intCast _
  have hnum : ((n : ℤ) : ℚ).num = n := Rat.num_intCast _
  rw [countJson, readCount, hden, hnum, if_pos ⟨rfl, by omega⟩]
  rfl

theorem name_injective : Function.Injective FunnelStage.name := by
  intro a b
  cases a <;> cases b <;> decide

theorem field_stages (counts : FunnelStage → Nat) (stage : FunnelStage) :
    Json.field (FUNNEL_STAGES.map fun stage => (stage.name, countJson (counts stage))) stage.name
      = some (countJson (counts stage)) := by
  apply InsertionMap.lookup_of_mem
  · rw [List.map_map]
    exact (by decide : FUNNEL_STAGES.Nodup).map name_injective
  · exact List.mem_map.mpr ⟨stage, by cases stage <;> decide, rfl⟩

theorem readStageCounts_stageJson {source : List (JsString × Json)} {name : JsString}
    {counts : FunnelStage → Nat} (h : Json.field source name = some (stageJson counts)) :
    readStageCounts source name = .ok counts := by
  have hcounts : (FUNNEL_STAGES.mapM fun stage =>
      readCount (Json.field (FUNNEL_STAGES.map fun stage => (stage.name, countJson (counts stage)))
        stage.name) (name ++ js "." ++ stage.name)) = .ok (FUNNEL_STAGES.map counts) := by
    apply mapM_ok
    intro stage _
    rw [field_stages, readCount_countJson]
  rw [readStageCounts, objectAt, h]
  show (do
    let counts ← FUNNEL_STAGES.mapM fun stage =>
      readCount (Json.field (FUNNEL_STAGES.map fun stage => (stage.name, countJson (counts stage)))
        stage.name) (name ++ js "." ++ stage.name)
    return fun stage => counts.getD (FUNNEL_STAGES.idxOf stage) 0 : Except _ _) = _
  rw [hcounts]
  refine congrArg Except.ok (funext fun stage => ?_)
  cases stage <;> rfl

theorem readCells_cellsJson {source : List (JsString × Json)} {name : JsString}
    {cells : InsertionMap JsString Nat} (h : Json.field source name = some (cellsJson cells)) :
    readCells source name = .ok cells := by
  have hcounts : ((cells.entries.map fun cell => (cell.1, countJson cell.2)).mapM fun entry => do
      let n ← readCount (some entry.2) (name ++ js "[" ++ entry.1 ++ js "]")
      return (entry.1, n) : Except FunnelJournalError _) = .ok cells.entries := by
    have hmap : cells.entries = cells.entries.map fun cell => cell := (List.map_id' _).symm
    rw [List.mapM_map]
    conv_rhs => rw [hmap]
    apply mapM_ok
    intro cell _
    show (do
      let n ← readCount (some (countJson cell.2)) (name ++ js "[" ++ cell.1 ++ js "]")
      return (cell.1, n) : Except FunnelJournalError _) = _
    rw [readCount_countJson]
    rfl
  rw [readCells, objectAt, h]
  show (do
    let counts ← (cells.entries.map fun cell => (cell.1, countJson cell.2)).mapM fun entry => do
      let n ← readCount (some entry.2) (name ++ js "[" ++ entry.1 ++ js "]")
      return (entry.1, n)
    return InsertionMap.ofPairs counts : Except FunnelJournalError _) = _
  rw [hcounts]
  exact congrArg Except.ok (InsertionMap.ext (InsertionMap.ofPairs_entries cells.keysNodup))

structure PlainTexts (totals : FunnelTotals) : Prop where
  keys : ∀ map, ∀ key ∈ (totals.cells map).keys, Ascii key
  population : Ascii totals.population
  schemaDigest : Ascii totals.schemaDigest

theorem plain_cellsJson (cells : InsertionMap JsString Nat) : (cellsJson cells).Plain := by
  refine .record ?_ ?_
  · rw [List.map_map]
    exact cells.keysNodup
  · intro field hfield
    obtain ⟨cell, -, rfl⟩ := List.mem_map.mp hfield
    exact countJson_plain cell.2

theorem plain_stageJson (counts : FunnelStage → Nat) : (stageJson counts).Plain := by
  refine .record ?_ ?_
  · rw [List.map_map]
    exact (by decide : FUNNEL_STAGES.Nodup).map name_injective
  · intro field hfield
    obtain ⟨stage, -, rfl⟩ := List.mem_map.mp hfield
    exact countJson_plain (counts stage)

theorem plain_totalsJson (totals : FunnelTotals) : (totalsJson totals).Plain := by
  refine .record (by simp [totalsFields]) ?_
  intro field hfield
  simp only [totalsFields, List.mem_cons, List.not_mem_nil, or_false] at hfield
  rcases hfield with rfl | rfl | rfl | rfl | rfl | rfl | rfl
  · exact plain_stageJson _
  · exact plain_stageJson _
  · exact plain_cellsJson _
  · exact plain_cellsJson _
  · exact plain_cellsJson _
  · exact .string _
  · exact .string _

theorem ascii_stageName (stage : FunnelStage) : Ascii stage.name := by
  cases stage <;> exact Json.ascii_of_all (by decide)

theorem ascii_cellsJson {cells : InsertionMap JsString Nat} (h : ∀ key ∈ cells.keys, Ascii key) :
    (cellsJson cells).AsciiTexts := by
  refine .record ?_ ?_
  · intro field hfield
    obtain ⟨cell, hcell, rfl⟩ := List.mem_map.mp hfield
    exact h cell.1 (List.mem_map_of_mem hcell)
  · intro field hfield
    obtain ⟨cell, -, rfl⟩ := List.mem_map.mp hfield
    exact .number (cell.2 : ℤ)

theorem ascii_stageJson (counts : FunnelStage → Nat) : (stageJson counts).AsciiTexts := by
  refine .record ?_ ?_
  · intro field hfield
    obtain ⟨stage, -, rfl⟩ := List.mem_map.mp hfield
    exact ascii_stageName stage
  · intro field hfield
    obtain ⟨stage, -, rfl⟩ := List.mem_map.mp hfield
    exact .number (counts stage : ℤ)

theorem ascii_totalsJson {totals : FunnelTotals} (h : PlainTexts totals) :
    (totalsJson totals).AsciiTexts := by
  refine .record ?_ ?_
  · intro field hfield
    have hkey : field.1 ∈ (totalsFields totals).map Prod.fst := List.mem_map_of_mem hfield
    have hall : ((totalsFields totals).map Prod.fst).all
        (fun key => key.all fun u => decide (u.val < 0x80)) = true := by
      show ([js "entered", js "stalledAt", js "byStageHour", js "webrtcAttempts",
        js "webrtcOutcomes", js "population", js "schemaDigest"].all
        fun key => key.all fun u => decide (u.val < 0x80)) = true
      decide
    exact Json.ascii_of_all (List.all_eq_true.mp hall field.1 hkey)
  · intro field hfield
    simp only [totalsFields, List.mem_cons, List.not_mem_nil, or_false] at hfield
    rcases hfield with rfl | rfl | rfl | rfl | rfl | rfl | rfl
    · exact ascii_stageJson _
    · exact ascii_stageJson _
    · exact ascii_cellsJson (h.keys .byStageHour)
    · exact ascii_cellsJson (h.keys .webrtcAttempts)
    · exact ascii_cellsJson (h.keys .webrtcOutcomes)
    · exact .string h.population
    · exact .string h.schemaDigest

theorem parseTotals_totalsFields (totals : FunnelTotals) :
    parseTotals (totalsFields totals) = .ok totals := by
  have hentered : readStageCounts (totalsFields totals) (js "entered") = .ok totals.entered :=
    readStageCounts_stageJson rfl
  have hstalled : readStageCounts (totalsFields totals) (js "stalledAt") = .ok totals.stalledAt :=
    readStageCounts_stageJson rfl
  have hhours : readCells (totalsFields totals) (js "byStageHour") = .ok totals.byStageHour :=
    readCells_cellsJson rfl
  have hattempts : readCells (totalsFields totals) (js "webrtcAttempts")
      = .ok totals.webrtcAttempts := readCells_cellsJson rfl
  have houtcomes : readCells (totalsFields totals) (js "webrtcOutcomes")
      = .ok totals.webrtcOutcomes := readCells_cellsJson rfl
  have hpopulation : textAt (totalsFields totals) (js "population") = .ok totals.population := rfl
  have hdigest : textAt (totalsFields totals) (js "schemaDigest") = .ok totals.schemaDigest := rfl
  rw [parseTotals, hpopulation, hdigest, hentered, hstalled, hhours, hattempts, houtcomes]
  rfl

/-- Reading a written record gives the same record. -/
theorem read_encode (fraction : ℚ → JsString) {totals : FunnelTotals} (h : PlainTexts totals)
    (population : FunnelPopulation) :
    readFunnelJournal (some (encodeTotals fraction totals)) population = .ok totals := by
  have hdecode : Json.decode (encodeTotals fraction totals) = some (totalsJson totals) :=
    Json.decode_encode (plain_totalsJson totals) (ascii_totalsJson h)
  rw [readFunnelJournal, hdecode]
  exact parseTotals_totalsFields totals

end O2Fabric.FunnelJournal
