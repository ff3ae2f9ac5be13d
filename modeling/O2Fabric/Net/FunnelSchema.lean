/-
  O2Fabric.Net.FunnelSchema

  The funnel's wire contract: the closed lists a report draws on, what a report
  is, and how large a record of them can grow.
-/

import O2Fabric.Js.Json
import O2Fabric.Lib.Tally

namespace O2Fabric

inductive FunnelStage
  | pageLoad
  | consent
  | wssBootstrap
  | iceGathering
  | connectionClassified
  | firstTask
  deriving DecidableEq

def FUNNEL_STAGES : List FunnelStage :=
  [.pageLoad, .consent, .wssBootstrap, .iceGathering, .connectionClassified, .firstTask]

def FunnelStage.name : FunnelStage → JsString
  | .pageLoad => js "page-load"
  | .consent => js "consent"
  | .wssBootstrap => js "wss-bootstrap"
  | .iceGathering => js "ice-gathering"
  | .connectionClassified => js "connection-classified"
  | .firstTask => js "first-task"

inductive FunnelNetworkClass
  | wifi
  | cellular
  | ethernet
  | other
  | unknown
  deriving DecidableEq

def FUNNEL_NETWORK_CLASSES : List FunnelNetworkClass :=
  [.wifi, .cellular, .ethernet, .other, .unknown]

def FunnelNetworkClass.name : FunnelNetworkClass → JsString
  | .wifi => js "wifi"
  | .cellular => js "cellular"
  | .ethernet => js "ethernet"
  | .other => js "other"
  | .unknown => js "unknown"

inductive FunnelConnectionClass
  | direct
  | relayed
  | controlOnly
  deriving DecidableEq

def FUNNEL_CONNECTION_CLASSES : List FunnelConnectionClass := [.direct, .relayed, .controlOnly]

def FunnelConnectionClass.name : FunnelConnectionClass → JsString
  | .direct => js "direct"
  | .relayed => js "relayed"
  | .controlOnly => js "control-only"

inductive FunnelPopulation
  | optedInOnly
  | allVisitors
  deriving DecidableEq

def FUNNEL_POPULATION : List FunnelPopulation := [.optedInOnly, .allVisitors]

def FunnelPopulation.name : FunnelPopulation → JsString
  | .optedInOnly => js "opted-in-only"
  | .allVisitors => js "all-visitors"

/-- Whether a visit reached the stage, or got no further. -/
inductive FunnelKind
  | entered
  | stalled
  deriving DecidableEq

def FunnelKind.name : FunnelKind → JsString
  | .entered => js "entered"
  | .stalled => js "stalled"

/-! ## Values of the closed lists -/

/-- The value of a closed list that a parsed value names: what each of the `isFunnel…` tests
    narrows to. -/
def narrow {α : Type} (all : List α) (name : α → JsString) : Json → Option α
  | .string text => all.find? fun one => decide (name one = text)
  | _ => none

def isFunnelStage : Json → Option FunnelStage := narrow FUNNEL_STAGES FunnelStage.name

def isFunnelNetworkClass : Json → Option FunnelNetworkClass :=
  narrow FUNNEL_NETWORK_CLASSES FunnelNetworkClass.name

def isFunnelConnectionClass : Json → Option FunnelConnectionClass :=
  narrow FUNNEL_CONNECTION_CLASSES FunnelConnectionClass.name

def isFunnelPopulation : Json → Option FunnelPopulation :=
  narrow FUNNEL_POPULATION FunnelPopulation.name

def FUNNEL_HOUR_BUCKETS : Nat := 24

abbrev HourBucket := Fin 24

def isFunnelHourBucket : Json → Option HourBucket
  | .number x =>
    if h : x.den = 1 ∧ 0 ≤ x.num ∧ x.num.toNat < 24 then some ⟨x.num.toNat, h.2.2⟩ else none
  | _ => none

def FUNNEL_UNKNOWN_COUNTRY : JsString := js "ZZ"

def isCountryLetter (u : CodeUnit) : Bool := decide (65 ≤ u.val ∧ u.val ≤ 90)

/-- Two uppercase letters. -/
def isFunnelCountry (value : JsString) : Bool := value.length == 2 && value.all isCountryLetter

/-- A country the schema will store. -/
structure FunnelCountry where
  code : JsString
  closed : isFunnelCountry code = true
  deriving DecidableEq

/-! ## Reports -/

structure FunnelReport where
  stage : FunnelStage
  kind : FunnelKind
  hourBucket : HourBucket
  population : FunnelPopulation
  networkClass : FunnelNetworkClass
  connectionClass : Option FunnelConnectionClass
  deriving DecidableEq

/-- A visitor's report, or `null`.  Nothing is defaulted. -/
def parseFunnelReport : Json → Option FunnelReport
  | .record source => do
    let stage ← (Json.field source (js "stage")).bind isFunnelStage
    let kind ← (Json.field source (js "kind")).bind (narrow [.entered, .stalled] FunnelKind.name)
    let hourBucket ← (Json.field source (js "hourBucket")).bind isFunnelHourBucket
    let population ← (Json.field source (js "population")).bind isFunnelPopulation
    let networkClass ← (Json.field source (js "networkClass")).bind isFunnelNetworkClass
    match Json.field source (js "connectionClass") with
    | none => some ⟨stage, kind, hourBucket, population, networkClass, none⟩
    | some value => do
      let connectionClass ← isFunnelConnectionClass value
      some ⟨stage, kind, hourBucket, population, networkClass, some connectionClass⟩
  | _ => none

/-! ## Bounds -/

/-- A stored map, how many cells it can have, and how long its keys can be. -/
structure FunnelCellBound where
  map : JsString
  cells : Nat
  longestKey : Nat
  deriving DecidableEq

def COUNTRY_CODES : Nat := 26 * 26

/-- `Math.max(...names.map((name) => name.length))`. -/
def longest (names : List JsString) : Nat := (names.map List.length).foldl max 0

def FUNNEL_CELL_BOUNDS : List FunnelCellBound :=
  [⟨js "entered", FUNNEL_STAGES.length, longest (FUNNEL_STAGES.map FunnelStage.name)⟩,
    ⟨js "stalledAt", FUNNEL_STAGES.length, longest (FUNNEL_STAGES.map FunnelStage.name)⟩,
    ⟨js "byStageHour", FUNNEL_STAGES.length * FUNNEL_HOUR_BUCKETS,
      longest (FUNNEL_STAGES.map FunnelStage.name) + 1 + 2⟩,
    ⟨js "webrtcAttempts", COUNTRY_CODES * FUNNEL_NETWORK_CLASSES.length,
      2 + 1 + longest (FUNNEL_NETWORK_CLASSES.map FunnelNetworkClass.name)⟩,
    ⟨js "webrtcOutcomes",
      COUNTRY_CODES * FUNNEL_NETWORK_CLASSES.length * FUNNEL_CONNECTION_CLASSES.length,
      2 + 1 + longest (FUNNEL_NETWORK_CLASSES.map FunnelNetworkClass.name) + 1
        + longest (FUNNEL_CONNECTION_CLASSES.map FunnelConnectionClass.name)⟩]

def FUNNEL_MAX_CELLS : Nat := (FUNNEL_CELL_BOUNDS.map FunnelCellBound.cells).foldl (· + ·) 0

def JSON_PUNCTUATION_BYTES : Nat := 4

def WIDEST_COUNT_DIGITS : Nat := 10

def FUNNEL_ENVELOPE_BYTES : Nat := 512

def FUNNEL_RECORD_CEILING_BYTES : Nat :=
  (FUNNEL_CELL_BOUNDS.map fun bound =>
    bound.cells * (bound.longestKey + JSON_PUNCTUATION_BYTES + WIDEST_COUNT_DIGITS)).foldl (· + ·) 0
    + FUNNEL_ENVELOPE_BYTES

example : FUNNEL_MAX_CELLS = 13676 := by decide

example : FUNNEL_RECORD_CEILING_BYTES = 476224 := by decide

def FUNNEL_SCHEMA_DIGEST : JsString := js "3911527f1a04abee"

/-! ## Records -/

/-- The maps that are keyed by what a report says. -/
inductive CellMap
  | byStageHour
  | webrtcAttempts
  | webrtcOutcomes
  deriving DecidableEq

def CELL_MAPS : List CellMap := [.byStageHour, .webrtcAttempts, .webrtcOutcomes]

def CellMap.name : CellMap → JsString
  | .byStageHour => js "byStageHour"
  | .webrtcAttempts => js "webrtcAttempts"
  | .webrtcOutcomes => js "webrtcOutcomes"

/-- Counts by stage, and by cell.  What a store holds as population and digest may be any text. -/
structure FunnelTotals where
  entered : FunnelStage → Nat
  stalledAt : FunnelStage → Nat
  byStageHour : InsertionMap JsString Nat
  webrtcAttempts : InsertionMap JsString Nat
  webrtcOutcomes : InsertionMap JsString Nat
  population : JsString
  schemaDigest : JsString

/-- `totals[map]`. -/
def FunnelTotals.cells (totals : FunnelTotals) : CellMap → InsertionMap JsString Nat
  | .byStageHour => totals.byStageHour
  | .webrtcAttempts => totals.webrtcAttempts
  | .webrtcOutcomes => totals.webrtcOutcomes

end O2Fabric
