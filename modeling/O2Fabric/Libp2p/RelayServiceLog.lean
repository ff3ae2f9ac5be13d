/-
  O2Fabric.Libp2p.RelayServiceLog

  What a node has done as a relay and through one: four kinds of streams, the
  bytes on them, and when the first stream arrived that made it a relay.
-/

import O2Fabric.Js.Text
import Mathlib.Tactic.Linarith

namespace O2Fabric.RelayServiceLog

/-- The five counters, under their names in the journal. -/
inductive RelayCounter
  | inboundHopStreams
  | outboundHopStreams
  | outboundStopStreams
  | inboundStopStreams
  | bytes
  deriving DecidableEq

def COUNTERS : List RelayCounter :=
  [.inboundHopStreams, .outboundHopStreams, .outboundStopStreams, .inboundStopStreams, .bytes]

def RelayCounter.name : RelayCounter → JsString
  | .inboundHopStreams => js "inboundHopStreams"
  | .outboundHopStreams => js "outboundHopStreams"
  | .outboundStopStreams => js "outboundStopStreams"
  | .inboundStopStreams => js "inboundStopStreams"
  | .bytes => js "bytes"

/-- The counters and the marker, numbers of the language. -/
structure RelayServiceTotals where
  counter : RelayCounter → ℚ
  firstInboundHopStreamAt : Option ℚ

def NO_RELAY_SERVICE : RelayServiceTotals := ⟨fun _ => 0, none⟩

def RELAY_HOP_PROTOCOL : JsString := js "/libp2p/circuit/relay/0.2.0/hop"

def RELAY_STOP_PROTOCOL : JsString := js "/libp2p/circuit/relay/0.2.0/stop"

/-- A stream object, by its identity. -/
structure Stream where
  id : Nat
  inbound : Bool
  protocol : JsString
  deriving DecidableEq

def roleOf (stream : Stream) : Option RelayCounter :=
  if stream.protocol = RELAY_HOP_PROTOCOL then
    some (if stream.inbound then .inboundHopStreams else .outboundHopStreams)
  else if stream.protocol = RELAY_STOP_PROTOCOL then
    some (if stream.inbound then .inboundStopStreams else .outboundStopStreams)
  else none

structure Log where
  report : RelayServiceTotals
  restored : Bool
  /-- The streams that are counted, and whose bytes are. -/
  seen : List Nat

def Log.init : Log := ⟨NO_RELAY_SERVICE, false, []⟩

/-- `n` more on one counter. -/
def RelayServiceTotals.add (totals : RelayServiceTotals) (role : RelayCounter) (n : Nat) :
    RelayServiceTotals :=
  { totals with counter := Function.update totals.counter role (totals.counter role + n) }

/-- The earlier of what is known and what is stored. -/
def earlier : Option ℚ → Option ℚ → Option ℚ
  | known, none => known
  | known, some banked => some (min (known.getD banked) banked)

namespace Log

/-- A stored total is added to what was observed before it was read. -/
def restore (log : Log) (banked : RelayServiceTotals) : Log :=
  { log with
    restored := true
    report :=
      { counter := fun c => log.report.counter c + banked.counter c
        firstInboundHopStreamAt :=
          earlier log.report.firstInboundHopStreamAt banked.firstInboundHopStreamAt } }

/-- A stream is counted once; the first that is an inbound hop sets the marker. -/
def observe (log : Log) (stream : Stream) (now : ℤ) : Log :=
  match roleOf stream with
  | none => log
  | some role =>
    if stream.id ∈ log.seen then log
    else
      { log with
        seen := stream.id :: log.seen
        report :=
          { log.report.add role 1 with
            firstInboundHopStreamAt :=
              if role = .inboundHopStreams then
                some (log.report.firstInboundHopStreamAt.getD now)
              else log.report.firstInboundHopStreamAt } }

/-- Data sent or received on a stream whose `send` and `onData` are wrapped. -/
def carry (log : Log) (id : Nat) (byteLength : Nat) : Log :=
  if id ∈ log.seen then { log with report := log.report.add .bytes byteLength } else log

end Log

/-! ## What there was to observe -/

/-- What a relay can be seen to do. -/
inductive Activity
  | opened (role : RelayCounter)
  | carried (byteLength : Nat)
  deriving DecidableEq

def Activity.worth (counter : RelayCounter) : Activity → Nat
  | .opened role => if role = counter then 1 else 0
  | .carried byteLength => if counter = .bytes then byteLength else 0

def total (activity : List Activity) (counter : RelayCounter) : Nat :=
  (activity.map (Activity.worth counter)).sum

/-- A relay's stream that this log has not seen. -/
def Log.opens (log : Log) (stream : Stream) : List Activity :=
  match roleOf stream with
  | none => []
  | some role => if stream.id ∈ log.seen then [] else [.opened role]

/-- Data on a stream it has seen. -/
def Log.carries (log : Log) (id : Nat) (byteLength : Nat) : List Activity :=
  if id ∈ log.seen then [.carried byteLength] else []

/-! ## Lifetime totals do not go backwards -/

/-- No counter is lower, and a marker that is set stays set and is not later. -/
structure Follows (before after : RelayServiceTotals) : Prop where
  counter : ∀ c, before.counter c ≤ after.counter c
  marker : ∀ t, before.firstInboundHopStreamAt = some t →
    ∃ t', after.firstInboundHopStreamAt = some t' ∧ t' ≤ t

theorem Follows.refl (totals : RelayServiceTotals) : Follows totals totals :=
  ⟨fun _ => le_refl _, fun t ht => ⟨t, ht, le_refl t⟩⟩

theorem Follows.trans {a b c : RelayServiceTotals} (hab : Follows a b) (hbc : Follows b c) :
    Follows a c where
  counter counter := (hab.counter counter).trans (hbc.counter counter)
  marker t ht := by
    obtain ⟨t', ht', hle⟩ := hab.marker t ht
    obtain ⟨t'', ht'', hle'⟩ := hbc.marker t' ht'
    exact ⟨t'', ht'', hle'.trans hle⟩

/-- Counters and a marker that a JSON number holds exactly: the marker is a clock's reading. -/
structure Whole (totals : RelayServiceTotals) : Prop where
  counter : ∀ c, ∃ n : ℕ, totals.counter c = n
  marker : ∀ t, totals.firstInboundHopStreamAt = some t → ∃ z : ℤ, t = z

theorem whole_none : Whole NO_RELAY_SERVICE where
  counter _ := ⟨0, rfl⟩
  marker t ht := by cases ht

theorem Whole.nonneg {totals : RelayServiceTotals} (h : Whole totals) (c : RelayCounter) :
    0 ≤ totals.counter c := by
  obtain ⟨n, hn⟩ := h.counter c
  rw [hn]
  exact Nat.cast_nonneg n

theorem follows_add (totals : RelayServiceTotals) (role : RelayCounter) (n : Nat) :
    Follows totals (totals.add role n) where
  counter c := by
    show totals.counter c ≤ Function.update totals.counter role (totals.counter role + n) c
    by_cases hc : c = role
    · have hn : (0 : ℚ) ≤ n := Nat.cast_nonneg n
      rw [hc, Function.update_self]
      linarith
    · rw [Function.update_of_ne hc]
  marker t ht := ⟨t, ht, le_refl t⟩

theorem Whole.add {totals : RelayServiceTotals} (h : Whole totals) (role : RelayCounter) (n : Nat) :
    Whole (totals.add role n) where
  counter c := by
    show ∃ m : ℕ, Function.update totals.counter role (totals.counter role + n) c = m
    by_cases hc : c = role
    · obtain ⟨m, hm⟩ := h.counter role
      refine ⟨m + n, ?_⟩
      rw [hc, Function.update_self, hm, Nat.cast_add]
    · obtain ⟨m, hm⟩ := h.counter c
      exact ⟨m, by rw [Function.update_of_ne hc, hm]⟩
  marker := h.marker

theorem total_append (activity : List Activity) (one : Activity) (counter : RelayCounter) :
    total (activity ++ [one]) counter = total activity counter + one.worth counter := by
  rw [total, List.map_append, List.sum_append, List.map_singleton, List.sum_singleton]
  rfl

/-- What an observation does: nothing, or one relay's stream more. -/
theorem observe_cases (log : Log) (stream : Stream) (now : ℤ) :
    log.observe stream now = log ∧ log.opens stream = [] ∨
    ∃ role, roleOf stream = some role ∧ stream.id ∉ log.seen ∧
      log.opens stream = [.opened role] ∧
      log.observe stream now = { log with
        seen := stream.id :: log.seen
        report :=
          { log.report.add role 1 with
            firstInboundHopStreamAt :=
              if role = .inboundHopStreams then
                some (log.report.firstInboundHopStreamAt.getD now)
              else log.report.firstInboundHopStreamAt } } := by
  unfold Log.observe Log.opens
  cases hrole : roleOf stream with
  | none => exact Or.inl ⟨rfl, rfl⟩
  | some role =>
    by_cases hseen : stream.id ∈ log.seen
    · refine Or.inl ⟨?_, ?_⟩
      · exact if_pos hseen
      · exact if_pos hseen
    · refine Or.inr ⟨role, rfl, hseen, ?_, ?_⟩
      · exact if_neg hseen
      · exact if_neg hseen

theorem follows_observe (log : Log) (stream : Stream) (now : ℤ) :
    Follows log.report (log.observe stream now).report := by
  rcases observe_cases log stream now with ⟨hsame, -⟩ | ⟨role, -, -, -, hmore⟩
  · rw [hsame]
    exact Follows.refl _
  · rw [hmore]
    refine ⟨(follows_add log.report role 1).counter, ?_⟩
    intro t ht
    refine ⟨t, ?_, le_refl t⟩
    show (if role = .inboundHopStreams then some (log.report.firstInboundHopStreamAt.getD now)
      else log.report.firstInboundHopStreamAt) = some t
    rw [ht]
    split <;> rfl

variable {log : Log}

theorem Whole.observe (h : Whole log.report) (stream : Stream) (now : ℤ) :
    Whole (log.observe stream now).report := by
  rcases observe_cases log stream now with ⟨hsame, -⟩ | ⟨role, -, -, -, hmore⟩
  · rw [hsame]
    exact h
  · rw [hmore]
    refine ⟨(h.add role 1).counter, ?_⟩
    intro t ht
    have ht : (if role = .inboundHopStreams then some (log.report.firstInboundHopStreamAt.getD now)
      else log.report.firstInboundHopStreamAt) = some t := ht
    split at ht
    · cases hmarker : log.report.firstInboundHopStreamAt with
      | none =>
        rw [hmarker] at ht
        cases ht
        exact ⟨now, rfl⟩
      | some first =>
        rw [hmarker] at ht
        cases ht
        exact h.marker first hmarker
    · exact h.marker t ht

theorem counter_observe (log : Log) (stream : Stream) (now : ℤ) (activity : List Activity)
    (counter : RelayCounter) :
    (log.observe stream now).report.counter counter + (total activity counter : ℚ)
      = log.report.counter counter + total (activity ++ log.opens stream) counter := by
  rcases observe_cases log stream now with ⟨hsame, hnone⟩ | ⟨role, -, -, hopens, hmore⟩
  · rw [hsame, hnone, List.append_nil]
  · rw [hmore, hopens, total_append]
    show Function.update log.report.counter role (log.report.counter role + (1 : ℕ)) counter
      + (total activity counter : ℚ) = _
    by_cases hc : counter = role
    · rw [hc, Function.update_self, Activity.worth, if_pos rfl]
      push_cast
      linarith
    · rw [Function.update_of_ne hc, Activity.worth, if_neg (Ne.symm hc), Nat.add_zero]

theorem counter_carry (log : Log) (id byteLength : Nat) (activity : List Activity)
    (counter : RelayCounter) :
    (log.carry id byteLength).report.counter counter + (total activity counter : ℚ)
      = log.report.counter counter + total (activity ++ log.carries id byteLength) counter := by
  unfold Log.carry Log.carries
  split
  · rw [total_append]
    show Function.update log.report.counter .bytes (log.report.counter .bytes + byteLength) counter
      + (total activity counter : ℚ) = _
    by_cases hc : counter = .bytes
    · rw [hc, Function.update_self, Activity.worth, if_pos rfl]
      push_cast
      linarith
    · rw [Function.update_of_ne hc, Activity.worth, if_neg hc, Nat.add_zero]
  · rw [List.append_nil]

theorem follows_carry (log : Log) (id byteLength : Nat) :
    Follows log.report (log.carry id byteLength).report := by
  unfold Log.carry
  split
  · exact follows_add log.report .bytes byteLength
  · exact Follows.refl _

theorem Whole.carry (h : Whole log.report) (id byteLength : Nat) :
    Whole (log.carry id byteLength).report := by
  unfold Log.carry
  split
  · exact h.add .bytes byteLength
  · exact h

theorem restored_observe (log : Log) (stream : Stream) (now : ℤ) :
    (log.observe stream now).restored = log.restored := by
  rcases observe_cases log stream now with ⟨hsame, -⟩ | ⟨role, -, -, -, hmore⟩
  · rw [hsame]
  · rw [hmore]

theorem restored_carry (log : Log) (id byteLength : Nat) :
    (log.carry id byteLength).restored = log.restored := by
  unfold Log.carry
  split <;> rfl

theorem follows_restore (hnonneg : ∀ c, 0 ≤ log.report.counter c) (banked : RelayServiceTotals) :
    Follows banked (log.restore banked).report where
  counter c := by
    have hc := hnonneg c
    show banked.counter c ≤ log.report.counter c + banked.counter c
    linarith
  marker t ht := by
    refine ⟨min (log.report.firstInboundHopStreamAt.getD t) t, ?_, min_le_right _ _⟩
    show earlier log.report.firstInboundHopStreamAt banked.firstInboundHopStreamAt = _
    rw [ht]
    rfl

theorem Whole.restore {banked : RelayServiceTotals} (h : Whole log.report) (hbanked : Whole banked) :
    Whole (log.restore banked).report where
  counter c := by
    obtain ⟨m, hm⟩ := h.counter c
    obtain ⟨n, hn⟩ := hbanked.counter c
    refine ⟨m + n, ?_⟩
    show log.report.counter c + banked.counter c = _
    rw [hm, hn, Nat.cast_add]
  marker t ht := by
    have ht : earlier log.report.firstInboundHopStreamAt banked.firstInboundHopStreamAt = some t :=
      ht
    cases hstored : banked.firstInboundHopStreamAt with
    | none =>
      rw [hstored] at ht
      exact h.marker t ht
    | some stored =>
      rw [hstored] at ht
      cases ht
      obtain ⟨z, hz⟩ := hbanked.marker stored hstored
      cases hknown : log.report.firstInboundHopStreamAt with
      | none =>
        refine ⟨z, ?_⟩
        show min stored stored = _
        rw [min_self, hz]
      | some known =>
        obtain ⟨w, hw⟩ := h.marker known hknown
        refine ⟨min w z, ?_⟩
        show min known stored = _
        rw [hw, hz, Int.cast_min]

end O2Fabric.RelayServiceLog
