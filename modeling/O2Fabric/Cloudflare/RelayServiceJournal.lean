/-
  O2Fabric.Cloudflare.RelayServiceJournal

  The relay totals of a hosted node in its object's storage: how the record is
  read, and the writes that are refused because they would lose history.
-/

import O2Fabric.Core.Platform
import O2Fabric.Js.Json.RoundTrip
import O2Fabric.Lib.Fallible
import O2Fabric.Libp2p.RelayServiceLog

namespace O2Fabric.RelayServiceJournal

open RelayServiceLog

/-- What a read or a write throws of its own. -/
inductive RelayJournalError
  /-- The bytes are no JSON text. -/
  | unparsable
  /-- The field that does not hold what it should. -/
  | malformed (field : JsString)
  | rollback (field : JsString) (stored offered : Option ℚ)
  deriving DecidableEq

def MARKER : JsString := js "firstInboundHopStreamAt"

/-! ## Reading -/

def readNumber (source : List (JsString × Json)) (field : JsString) :
    Except RelayJournalError ℚ :=
  match Json.field source field with
  | some (.number value) => if 0 ≤ value then .ok value else .error (.malformed field)
  | _ => .error (.malformed field)

def readMarker (source : List (JsString × Json)) : Except RelayJournalError (Option ℚ) :=
  match Json.field source MARKER with
  | none => .ok none
  | some (.number value) => .ok (some value)
  | some _ => .error (.malformed MARKER)

def parseTotals (source : List (JsString × Json)) :
    Except RelayJournalError RelayServiceTotals := do
  let marker ← readMarker source
  let counts ← COUNTERS.mapM fun counter => readNumber source counter.name
  return ⟨fun counter => counts.getD (COUNTERS.idxOf counter) 0, marker⟩

/-- The stored lifetime total, or none if this node has never written one. -/
def readRelayServiceJournal (stored : Option Bytes) : Except RelayJournalError RelayServiceTotals :=
  match stored with
  | none => .ok NO_RELAY_SERVICE
  | some raw =>
    match Json.decode raw with
    | none => .error .unparsable
    | some (.record source) => parseTotals source
    | some _ => .error (.malformed [])

/-! ## Writing -/

/-- The properties of the record; a marker that is undefined is none. -/
def totalsFields (totals : RelayServiceTotals) : List (JsString × Json) :=
  COUNTERS.map (fun counter => (counter.name, Json.number (totals.counter counter)))
    ++ totals.firstInboundHopStreamAt.toList.map fun marker => (MARKER, Json.number marker)

/-- The first counter that is to go backwards, then the marker. -/
def goesBackwards (stored totals : RelayServiceTotals) : Option RelayJournalError :=
  (COUNTERS.findSome? fun counter =>
      if totals.counter counter < stored.counter counter then
        some (.rollback counter.name (some (stored.counter counter)) (some (totals.counter counter)))
      else none)
    <|> match stored.firstInboundHopStreamAt, totals.firstInboundHopStreamAt with
      | none, _ => none
      | some before, none => some (.rollback MARKER (some before) none)
      | some before, some after =>
        if before < after then some (.rollback MARKER (some before) (some after)) else none

section

variable (fraction : ℚ → JsString)

/-- The bytes a record is stored as. -/
def encodeTotals (totals : RelayServiceTotals) : Bytes :=
  Json.encode fraction (.record (totalsFields totals))

/-- The bytes that are put, where the write is not refused. -/
def writeRelayServiceJournal (stored : Option Bytes) (totals : RelayServiceTotals) :
    Except RelayJournalError Bytes := do
  let before ← readRelayServiceJournal stored
  match goesBackwards before totals with
  | some refusal => .error refusal
  | none => .ok (encodeTotals fraction totals)

end

/-! ## What was written is read -/

variable {totals : RelayServiceTotals}

theorem field_number (counter : RelayCounter) :
    Json.field (totalsFields totals) counter.name = some (.number (totals.counter counter)) := by
  cases counter <;> rfl

theorem field_marker (totals : RelayServiceTotals) :
    Json.field (totalsFields totals) MARKER = totals.firstInboundHopStreamAt.map Json.number := by
  unfold totalsFields
  cases totals.firstInboundHopStreamAt <;> rfl

theorem map_fst_totalsFields (totals : RelayServiceTotals) :
    (totalsFields totals).map Prod.fst
      = COUNTERS.map RelayCounter.name
        ++ totals.firstInboundHopStreamAt.toList.map fun _ => MARKER := by
  rw [totalsFields, List.map_append, List.map_map, List.map_map]
  rfl

theorem plain_totalsFields (h : Whole totals) :
    (Json.record (totalsFields totals)).Plain := by
  refine .record ?_ ?_
  · have hkeys := map_fst_totalsFields totals
    rw [hkeys]
    cases totals.firstInboundHopStreamAt with
    | none => decide
    | some marker =>
      show (COUNTERS.map RelayCounter.name ++ [MARKER]).Nodup
      decide
  · intro field hfield
    rcases List.mem_append.mp hfield with hcounter | hmarker
    · obtain ⟨counter, -, rfl⟩ := List.mem_map.mp hcounter
      obtain ⟨n, hn⟩ := h.counter counter
      have hint : totals.counter counter = ((n : ℤ) : ℚ) := by rw [hn, Int.cast_natCast]
      show (Json.number (totals.counter counter)).Plain
      rw [hint]
      exact .number (n : ℤ)
    · obtain ⟨marker, hmem, rfl⟩ := List.mem_map.mp hmarker
      obtain ⟨z, hz⟩ := h.marker marker (Option.mem_toList.mp hmem)
      show (Json.number marker).Plain
      rw [hz]
      exact .number z

theorem ascii_totalsFields (h : Whole totals) :
    (Json.record (totalsFields totals)).AsciiTexts := by
  refine .record ?_ ?_
  · intro field hfield
    have hkey : field.1 ∈ (totalsFields totals).map Prod.fst := List.mem_map_of_mem hfield
    rw [map_fst_totalsFields, List.mem_append] at hkey
    rcases hkey with hcounter | hmarker
    · obtain ⟨counter, -, hname⟩ := List.mem_map.mp hcounter
      rw [← hname]
      cases counter <;> exact Json.ascii_of_all (by decide)
    · obtain ⟨marker, -, hname⟩ := List.mem_map.mp hmarker
      rw [← hname]
      exact Json.ascii_of_all (by decide)
  · intro field hfield
    rcases List.mem_append.mp hfield with hcounter | hmarker
    · obtain ⟨counter, -, rfl⟩ := List.mem_map.mp hcounter
      obtain ⟨n, hn⟩ := h.counter counter
      have hint : totals.counter counter = ((n : ℤ) : ℚ) := by rw [hn, Int.cast_natCast]
      show (Json.number (totals.counter counter)).AsciiTexts
      rw [hint]
      exact .number (n : ℤ)
    · obtain ⟨marker, hmem, rfl⟩ := List.mem_map.mp hmarker
      obtain ⟨z, hz⟩ := h.marker marker (Option.mem_toList.mp hmem)
      show (Json.number marker).AsciiTexts
      rw [hz]
      exact .number z

theorem parseTotals_totalsFields (h : Whole totals) :
    parseTotals (totalsFields totals) = .ok totals := by
  have hmarker : readMarker (totalsFields totals) = .ok totals.firstInboundHopStreamAt := by
    rw [readMarker, field_marker]
    cases totals.firstInboundHopStreamAt <;> rfl
  have hnumber : ∀ counter, readNumber (totalsFields totals) counter.name
      = .ok (totals.counter counter) := by
    intro counter
    have hnonneg := h.nonneg counter
    rw [readNumber, field_number]
    exact if_pos hnonneg
  have hcounts : (COUNTERS.mapM fun counter => readNumber (totalsFields totals) counter.name)
      = .ok (COUNTERS.map totals.counter) := mapM_ok fun counter _ => hnumber counter
  have hcounter : (fun counter => (COUNTERS.map totals.counter).getD (COUNTERS.idxOf counter) 0)
      = totals.counter := by
    funext counter
    cases counter <;> rfl
  rw [parseTotals, hmarker, hcounts]
  show Except.ok (RelayServiceTotals.mk
    (fun counter => (COUNTERS.map totals.counter).getD (COUNTERS.idxOf counter) 0)
    totals.firstInboundHopStreamAt) = _
  rw [hcounter]

/-- Reading a written record gives the same record. -/
theorem read_encode (fraction : ℚ → JsString) (h : Whole totals) :
    readRelayServiceJournal (some (encodeTotals fraction totals)) = .ok totals := by
  have hdecode : Json.decode (encodeTotals fraction totals) = some (.record (totalsFields totals)) :=
    Json.decode_encode (plain_totalsFields h) (ascii_totalsFields h)
  rw [readRelayServiceJournal, hdecode]
  exact parseTotals_totalsFields h

/-! ## What is refused -/

/-- A write is refused if and only if it would lose history. -/
theorem goesBackwards_eq_none {stored : RelayServiceTotals} :
    goesBackwards stored totals = none ↔ Follows stored totals := by
  rw [goesBackwards, Option.orElse_eq_orElse, Option.orElse_eq_or, Option.or_eq_none_iff]
  have hcounters : (COUNTERS.findSome? fun counter =>
      if totals.counter counter < stored.counter counter then
        some (RelayJournalError.rollback counter.name (some (stored.counter counter))
          (some (totals.counter counter)))
      else none) = none ↔ ∀ c, stored.counter c ≤ totals.counter c := by
    rw [List.findSome?_eq_none_iff]
    constructor
    · intro h c
      have hc := h c (by cases c <;> decide)
      by_contra hlt
      rw [if_pos (not_le.mp hlt)] at hc
      cases hc
    · intro h c _
      exact if_neg (not_lt.mpr (h c))
  have hmarker : (match stored.firstInboundHopStreamAt, totals.firstInboundHopStreamAt with
      | none, _ => none
      | some before, none => some (RelayJournalError.rollback MARKER (some before) none)
      | some before, some after =>
        if before < after then some (.rollback MARKER (some before) (some after)) else none)
        = none ↔ ∀ t, stored.firstInboundHopStreamAt = some t →
          ∃ t', totals.firstInboundHopStreamAt = some t' ∧ t' ≤ t := by
    cases stored.firstInboundHopStreamAt with
    | none => simp
    | some before =>
      cases totals.firstInboundHopStreamAt with
      | none => simp
      | some after =>
        by_cases hlater : before < after
        · simp [hlater]
        · simp [hlater, not_lt.mp hlater]
  rw [hcounters, hmarker]
  exact ⟨fun ⟨hc, hm⟩ => ⟨hc, hm⟩, fun h => ⟨h.counter, h.marker⟩⟩

/-- A record that follows the stored one is written. -/
theorem write_follows {fraction : ℚ → JsString} {stored : Option Bytes}
    {before : RelayServiceTotals} (hread : readRelayServiceJournal stored = .ok before)
    (h : Follows before totals) :
    writeRelayServiceJournal fraction stored totals = .ok (encodeTotals fraction totals) := by
  have hforwards := goesBackwards_eq_none.mpr h
  simp only [writeRelayServiceJournal, Bind.bind, Except.bind, hread, hforwards]

end O2Fabric.RelayServiceJournal
