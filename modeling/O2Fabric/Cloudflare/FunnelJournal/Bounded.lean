/-
  O2Fabric.Cloudflare.FunnelJournal.Bounded

  A record stays inside the schema's closed lists, whatever is reported: its
  keys, its size as bytes, and how its tables add up.
-/

import O2Fabric.Cloudflare.FunnelJournal
import Mathlib.Data.List.Range

namespace O2Fabric.FunnelJournal

/-! ## The keys a record can have -/

def COUNTRY_LETTERS : List CodeUnit := (List.range 26).map fun i => Fin.ofNat 65536 (65 + i)

def HOUR_KEYS : List JsString :=
  FUNNEL_STAGES.flatMap fun stage => (List.finRange 24).map fun hour => hourKey stage hour

def ATTEMPT_KEYS : List JsString :=
  COUNTRY_LETTERS.flatMap fun a => COUNTRY_LETTERS.flatMap fun b =>
    FUNNEL_NETWORK_CLASSES.map fun networkClass => [a, b] ++ PIPE :: networkClass.name

def OUTCOME_KEYS : List JsString :=
  COUNTRY_LETTERS.flatMap fun a => COUNTRY_LETTERS.flatMap fun b =>
    FUNNEL_NETWORK_CLASSES.flatMap fun networkClass =>
      FUNNEL_CONNECTION_CLASSES.map fun connectionClass =>
        [a, b] ++ PIPE :: (networkClass.name ++ PIPE :: connectionClass.name)

def closedKeys : CellMap → List JsString
  | .byStageHour => HOUR_KEYS
  | .webrtcAttempts => ATTEMPT_KEYS
  | .webrtcOutcomes => OUTCOME_KEYS

/-- `bound.cells` of the map. -/
def cellBound : CellMap → Nat
  | .byStageHour => FUNNEL_STAGES.length * FUNNEL_HOUR_BUCKETS
  | .webrtcAttempts => COUNTRY_CODES * FUNNEL_NETWORK_CLASSES.length
  | .webrtcOutcomes =>
    COUNTRY_CODES * FUNNEL_NETWORK_CLASSES.length * FUNNEL_CONNECTION_CLASSES.length

/-- `bound.longestKey` of the map. -/
def keyBound : CellMap → Nat
  | .byStageHour => 24
  | .webrtcAttempts => 11
  | .webrtcOutcomes => 24

theorem length_flatMap_const {α β : Type} {f : α → List β} {k : Nat} (items : List α)
    (h : ∀ item ∈ items, (f item).length = k) : (items.flatMap f).length = items.length * k := by
  induction items with
  | nil => simp
  | cons item items ih =>
    rw [List.flatMap_cons, List.length_append, h item List.mem_cons_self,
      ih fun other hother => h other (List.mem_cons_of_mem item hother), List.length_cons]
    ring

theorem length_closed (map : CellMap) : (closedKeys map).length = cellBound map := by
  have hletters : COUNTRY_LETTERS.length = 26 := by
    rw [COUNTRY_LETTERS, List.length_map, List.length_range]
  cases map with
  | byStageHour =>
    show HOUR_KEYS.length = _
    rw [HOUR_KEYS, length_flatMap_const _ fun stage _ => List.length_map _,
      List.length_finRange]
    rfl
  | webrtcAttempts =>
    show ATTEMPT_KEYS.length = _
    rw [ATTEMPT_KEYS, length_flatMap_const _ fun a _ => length_flatMap_const _ fun b _ =>
      List.length_map _, hletters]
    rfl
  | webrtcOutcomes =>
    show OUTCOME_KEYS.length = _
    rw [OUTCOME_KEYS, length_flatMap_const _ fun a _ => length_flatMap_const _ fun b _ =>
      length_flatMap_const _ fun c _ => List.length_map _, hletters]
    rfl

theorem letters_of_country (country : FunnelCountry) :
    ∃ a ∈ COUNTRY_LETTERS, ∃ b ∈ COUNTRY_LETTERS, country.code = [a, b] := by
  obtain ⟨code, hclosed⟩ := country
  have hmem : ∀ u : CodeUnit, isCountryLetter u = true → u ∈ COUNTRY_LETTERS := by
    intro u hu
    have hrange := of_decide_eq_true hu
    refine List.mem_map.mpr ⟨u.val - 65, List.mem_range.mpr (by omega), Fin.ext ?_⟩
    rw [Fin.val_ofNat]
    omega
  simp only [isFunnelCountry, Bool.and_eq_true, beq_iff_eq, List.all_eq_true] at hclosed
  match code, hclosed with
  | [a, b], ⟨_, hall⟩ =>
    exact ⟨a, hmem a (hall a (by simp)), b, hmem b (hall b (by simp)), rfl⟩

theorem hourKey_closed (stage : FunnelStage) (hour : HourBucket) : hourKey stage hour ∈ HOUR_KEYS :=
  List.mem_flatMap.mpr ⟨stage, by cases stage <;> decide,
    List.mem_map.mpr ⟨hour, List.mem_finRange hour, rfl⟩⟩

theorem attemptKey_closed (country : FunnelCountry) (networkClass : FunnelNetworkClass) :
    attemptKey country networkClass ∈ ATTEMPT_KEYS := by
  obtain ⟨a, ha, b, hb, hcode⟩ := letters_of_country country
  rw [attemptKey, hcode]
  exact List.mem_flatMap.mpr ⟨a, ha, List.mem_flatMap.mpr ⟨b, hb,
    List.mem_map.mpr ⟨networkClass, by cases networkClass <;> decide, rfl⟩⟩⟩

theorem outcomeKey_closed (country : FunnelCountry) (networkClass : FunnelNetworkClass)
    (connectionClass : FunnelConnectionClass) :
    outcomeKey country networkClass connectionClass ∈ OUTCOME_KEYS := by
  obtain ⟨a, ha, b, hb, hcode⟩ := letters_of_country country
  rw [outcomeKey, hcode]
  exact List.mem_flatMap.mpr ⟨a, ha, List.mem_flatMap.mpr ⟨b, hb,
    List.mem_flatMap.mpr ⟨networkClass, by cases networkClass <;> decide,
      List.mem_map.mpr ⟨connectionClass, by cases connectionClass <;> decide, rfl⟩⟩⟩⟩

/-! ## What holds of a record -/

/-- How many visits a stage counter has in all. -/
def stageTotal (counts : FunnelStage → Nat) : Nat := (FUNNEL_STAGES.map counts).sum

/-- A record of `reports` reports. -/
structure Consistent (totals : FunnelTotals) (reports : Nat) : Prop where
  closed : ∀ map, ∀ key ∈ (totals.cells map).keys, key ∈ closedKeys map
  population : ∃ population : FunnelPopulation, totals.population = population.name
  schemaDigest : totals.schemaDigest = FUNNEL_SCHEMA_DIGEST
  stages : stageTotal totals.entered + stageTotal totals.stalledAt = reports
  hours : totals.byStageHour.total = reports
  attempts : totals.webrtcAttempts.total = totals.entered .iceGathering
  outcomes : totals.webrtcOutcomes.total ≤ totals.entered .connectionClassified

theorem consistent_empty (population : FunnelPopulation) :
    Consistent (emptyFunnelJournal population) 0 where
  closed map key hkey := by cases map <;> cases hkey
  population := ⟨population, rfl⟩
  schemaDigest := rfl
  stages := rfl
  hours := rfl
  attempts := rfl
  outcomes := Nat.le_refl _

theorem stageTotal_update (counts : FunnelStage → Nat) (stage : FunnelStage) :
    stageTotal (Function.update counts stage (counts stage + 1)) = stageTotal counts + 1 := by
  cases stage <;>
    simp only [stageTotal, FUNNEL_STAGES, List.map_cons, List.map_nil, List.sum_cons, List.sum_nil,
      Function.update_apply, reduceCtorEq, if_true, if_false] <;>
    omega

theorem closed_bump {m : InsertionMap JsString Nat} {keys : List JsString} {key : JsString}
    (h : ∀ k ∈ m.keys, k ∈ keys) (hkey : key ∈ keys) : ∀ k ∈ (m.bump key).keys, k ∈ keys := by
  intro k hk
  rcases InsertionMap.mem_keys_bump.mp hk with hk | rfl
  · exact h k hk
  · exact hkey

variable {totals : FunnelTotals} {report : FunnelReport} {dimensions : FunnelDimensions}
  {reports : Nat}

theorem closed_accrue (h : ∀ map, ∀ key ∈ (totals.cells map).keys, key ∈ closedKeys map)
    (map : CellMap) :
    ∀ key ∈ ((accrueFunnelReport totals report dimensions).cells map).keys,
      key ∈ closedKeys map := by
  cases map with
  | byStageHour => exact closed_bump (h .byStageHour) (hourKey_closed _ _)
  | webrtcAttempts =>
    show ∀ key ∈ (InsertionMap.keys (if report.stage = .iceGathering ∧ report.kind = .entered then
        totals.webrtcAttempts.bump (attemptKey dimensions.country report.networkClass)
      else totals.webrtcAttempts)), key ∈ ATTEMPT_KEYS
    split
    · exact closed_bump (h .webrtcAttempts) (attemptKey_closed _ _)
    · exact h .webrtcAttempts
  | webrtcOutcomes =>
    simp only [FunnelTotals.cells, accrueFunnelReport]
    split
    · split
      · exact closed_bump (h .webrtcOutcomes) (outcomeKey_closed _ _ _)
      · exact h .webrtcOutcomes
    · exact h .webrtcOutcomes

/-- One report more, of either kind, about any stage. -/
theorem Consistent.accrue (h : Consistent totals reports) :
    Consistent (accrueFunnelReport totals report dimensions) (reports + 1) where
  closed := closed_accrue h.closed
  population := h.population
  schemaDigest := h.schemaDigest
  stages := by
    have hstages := h.stages
    by_cases hkind : report.kind = .entered
    · simp only [accrueFunnelReport, if_pos hkind, stageTotal_update]
      omega
    · simp only [accrueFunnelReport, if_neg hkind, stageTotal_update]
      omega
  hours := by
    show (totals.byStageHour.bump _).total = _
    rw [InsertionMap.total_bump, h.hours]
  attempts := by
    have hattempts := h.attempts
    by_cases hkind : report.kind = .entered
    · by_cases hstage : report.stage = .iceGathering
      · simp only [accrueFunnelReport, hkind, hstage, and_self, if_true, InsertionMap.total_bump,
          Function.update_self, hattempts]
      · have hother : ¬ (report.stage = .iceGathering ∧ report.kind = .entered) :=
          fun hboth => hstage hboth.1
        simp only [accrueFunnelReport, if_pos hkind, if_neg hother,
          Function.update_of_ne (Ne.symm hstage), hattempts]
    · have hother : ¬ (report.stage = .iceGathering ∧ report.kind = .entered) :=
        fun hboth => hkind hboth.2
      simp only [accrueFunnelReport, if_neg hkind, if_neg hother, hattempts]
  outcomes := by
    have houtcomes := h.outcomes
    by_cases hkind : report.kind = .entered
    · by_cases hstage : report.stage = .connectionClassified
      · -- the numerator moves only where the denominator does
        simp only [accrueFunnelReport, hkind, hstage, and_self, if_true, Function.update_self]
        cases report.connectionClass with
        | some connectionClass =>
          show (InsertionMap.bump _ _).total ≤ _
          rw [InsertionMap.total_bump]
          omega
        | none =>
          show totals.webrtcOutcomes.total ≤ _
          omega
      · have hother : ¬ (report.stage = .connectionClassified ∧ report.kind = .entered) :=
          fun hboth => hstage hboth.1
        simp only [accrueFunnelReport, if_pos hkind, if_neg hother,
          Function.update_of_ne (Ne.symm hstage)]
        exact houtcomes
    · have hother : ¬ (report.stage = .connectionClassified ∧ report.kind = .entered) :=
        fun hboth => hkind hboth.2
      simp only [accrueFunnelReport, if_neg hkind, if_neg hother]
      exact houtcomes

/-! ## Cells -/

/-- How many cells a record has. -/
def cellCount (totals : FunnelTotals) : Nat :=
  FUNNEL_STAGES.length + FUNNEL_STAGES.length + totals.byStageHour.size
    + totals.webrtcAttempts.size + totals.webrtcOutcomes.size

theorem size_cells (h : Consistent totals reports) (map : CellMap) :
    (totals.cells map).size ≤ cellBound map := by
  rw [← length_closed map]
  exact InsertionMap.size_le_of_keys (h.closed map)

theorem cellCount_le (h : Consistent totals reports) : cellCount totals ≤ FUNNEL_MAX_CELLS := by
  have hhours : totals.byStageHour.size ≤ 144 := size_cells h .byStageHour
  have hattempts : totals.webrtcAttempts.size ≤ 3380 := size_cells h .webrtcAttempts
  have houtcomes : totals.webrtcOutcomes.size ≤ 10140 := size_cells h .webrtcOutcomes
  have hstages : FUNNEL_STAGES.length = 6 := rfl
  have hmax : FUNNEL_MAX_CELLS = 13676 := by decide
  rw [cellCount, hstages, hmax]
  omega

/-! ## Bytes -/

/-- Text that is written as it stands: printable, one byte a unit, and nothing to escape. -/
def isPlain (text : JsString) : Bool :=
  text.all fun u => decide (0x20 ≤ u.val ∧ u.val < 0x80 ∧ u.val ≠ 0x22 ∧ u.val ≠ 0x5C)

variable {text : JsString}

theorem isPlain_iff :
    isPlain text = true ↔ ∀ u ∈ text, 0x20 ≤ u.val ∧ u.val < 0x80 ∧ u.val ≠ 0x22 ∧ u.val ≠ 0x5C := by
  rw [isPlain, List.all_eq_true]
  exact forall₂_congr fun u _ => decide_eq_true_iff

theorem isPlain_append {a b : JsString} (ha : isPlain a = true) (hb : isPlain b = true) :
    isPlain (a ++ b) = true := by
  rw [isPlain, List.all_append, Bool.and_eq_true]
  exact ⟨ha, hb⟩

theorem isPlain_joined {a b : JsString} (ha : isPlain a = true) (hb : isPlain b = true) :
    isPlain (a ++ PIPE :: b) = true := by
  apply isPlain_append ha
  rw [isPlain, List.all_cons, Bool.and_eq_true]
  exact ⟨by decide, hb⟩

theorem isPlain_decimal (n : Nat) : isPlain (decimal n) = true := by
  rw [isPlain_iff]
  intro u hu
  have hdigit := mem_decimal hu
  omega

theorem ascii_of_isPlain (h : isPlain text = true) : Ascii text :=
  fun u hu => (isPlain_iff.mp h u hu).2.1

theorem length_decimal (n : Nat) : (decimal n).length = (Nat.toDigits 10 n).length := by
  have hdigits : ∀ c ∈ Nat.toDigits 10 n, (utf16 c).length = 1 := by
    intro c hc
    have hdigit := Nat.isDigit_of_mem_toDigits (by omega) (by omega) hc
    rw [(Json.utf16_digit hdigit).1]
    rfl
  rw [decimal, length_flatMap_const _ hdigits, Nat.mul_one]

theorem length_decimal_le {n k : Nat} (hk : 0 < k) (h : n < 10 ^ k) : (decimal n).length ≤ k := by
  rw [length_decimal]
  exact (Nat.length_toDigits_le_iff (by omega) hk).mpr h

theorem stageName_plain (stage : FunnelStage) :
    isPlain stage.name = true ∧ stage.name.length ≤ 21 := by
  cases stage <;> decide

/-- A key a map can have is plain, and no longer than the schema says. -/
theorem closedKeys_plain {map : CellMap} {key : JsString} (h : key ∈ closedKeys map) :
    isPlain key = true ∧ key.length ≤ keyBound map := by
  have hnetwork : ∀ c : FunnelNetworkClass, isPlain c.name = true ∧ c.name.length ≤ 8 := by
    intro c
    cases c <;> decide
  have hconnection : ∀ c : FunnelConnectionClass,
      isPlain c.name = true ∧ c.name.length ≤ 12 := by
    intro c
    cases c <;> decide
  have hletter : ∀ u ∈ COUNTRY_LETTERS, 65 ≤ u.val ∧ u.val ≤ 90 := by
    intro u hu
    obtain ⟨i, hi, rfl⟩ := List.mem_map.mp hu
    rw [List.mem_range] at hi
    rw [Fin.val_ofNat]
    omega
  have hcountry : ∀ a ∈ COUNTRY_LETTERS, ∀ b ∈ COUNTRY_LETTERS, isPlain [a, b] = true := by
    intro a ha b hb
    have hfirst := hletter a ha
    have hsecond := hletter b hb
    rw [isPlain_iff]
    intro u hu
    simp only [List.mem_cons, List.not_mem_nil, or_false] at hu
    rcases hu with rfl | rfl <;> omega
  cases map with
  | byStageHour =>
    obtain ⟨stage, -, hkey⟩ := List.mem_flatMap.mp h
    obtain ⟨hour, -, rfl⟩ := List.mem_map.mp hkey
    have hdigits : (decimal hour.val).length ≤ 2 := length_decimal_le (by omega) (by omega)
    have hname := (stageName_plain stage).2
    refine ⟨isPlain_joined (stageName_plain stage).1 (isPlain_decimal _), ?_⟩
    rw [hourKey, List.length_append, List.length_cons, keyBound]
    omega
  | webrtcAttempts =>
    obtain ⟨a, ha, hkey⟩ := List.mem_flatMap.mp h
    obtain ⟨b, hb, hkey⟩ := List.mem_flatMap.mp hkey
    obtain ⟨c, -, rfl⟩ := List.mem_map.mp hkey
    have hname := (hnetwork c).2
    refine ⟨isPlain_joined (hcountry a ha b hb) (hnetwork c).1, ?_⟩
    simp only [List.length_append, List.length_cons, List.length_nil, keyBound]
    omega
  | webrtcOutcomes =>
    obtain ⟨a, ha, hkey⟩ := List.mem_flatMap.mp h
    obtain ⟨b, hb, hkey⟩ := List.mem_flatMap.mp hkey
    obtain ⟨c, -, hkey⟩ := List.mem_flatMap.mp hkey
    obtain ⟨d, -, rfl⟩ := List.mem_map.mp hkey
    have hname := (hnetwork c).2
    have hlast := (hconnection d).2
    refine ⟨isPlain_joined (hcountry a ha b hb) (isPlain_joined (hnetwork c).1 (hconnection d).1),
      ?_⟩
    simp only [List.length_append, List.length_cons, List.length_nil, keyBound]
    omega

theorem quoteUnit_plain {u : CodeUnit}
    (h : 0x20 ≤ u.val ∧ u.val < 0x80 ∧ u.val ≠ 0x22 ∧ u.val ≠ 0x5C) : Json.quoteUnit u = [u] := by
  have hshort : Json.shortEscape u = none := by
    unfold Json.shortEscape
    split <;> first | omega | rfl
  have hwhole : ¬ (u.val < 0x20 ∨ Json.isHigh u = true ∨ Json.isLow u = true) := by
    simp only [Json.isHigh, Json.isLow, decide_eq_true_eq]
    omega
  rw [Json.quoteUnit, hshort]
  exact if_neg hwhole

theorem length_quote (h : isPlain text = true) :
    (Json.quote text).length = text.length + 2 := by
  have hbody : ∀ text : JsString, (∀ u ∈ text, Json.quoteUnit u = [u]) →
      Json.quoteBody text = text := by
    intro text
    induction text using Json.quoteBody.induct with
    | case1 => exact fun _ => rfl
    | case2 u => exact fun hunits => hunits u List.mem_cons_self
    | case3 u v text hpair ih =>
      intro hunits
      rw [Json.quoteBody, if_pos hpair, ih fun w hw =>
        hunits w (List.mem_cons_of_mem u (List.mem_cons_of_mem v hw))]
    | case4 u v text hpair ih =>
      intro hunits
      rw [Json.quoteBody, if_neg hpair, hunits u List.mem_cons_self,
        ih fun w hw => hunits w (List.mem_cons_of_mem u hw)]
      rfl
  rw [Json.quote, hbody text fun u hu => quoteUnit_plain (isPlain_iff.mp h u hu), List.length_cons,
    List.length_append, List.length_singleton]

theorem length_join_le {parts : List JsString} {bound : Nat}
    (h : ∀ part ∈ parts, part.length ≤ bound) :
    (join COMMA parts).length ≤ parts.length * (bound + 1) := by
  induction parts with
  | nil => exact Nat.zero_le _
  | cons part parts ih =>
    have hpart := h part List.mem_cons_self
    cases parts with
    | nil =>
      simp only [join, List.intercalate_singleton, List.length_singleton]
      omega
    | cons next parts =>
      have hrest := ih fun p hp => h p (List.mem_cons_of_mem part hp)
      rw [Json.join_cons (by simp), List.length_append, List.length_cons,
        List.length_cons (a := part), Nat.add_mul]
      omega

theorem length_stringifyFields (fraction : ℚ → JsString) (fields : List (JsString × Json)) :
    (Json.stringifyFields fraction fields).length = fields.length := by
  induction fields with
  | nil => rfl
  | cons field fields ih =>
    obtain ⟨key, value⟩ := field
    rw [Json.stringifyFields, List.length_cons, List.length_cons, ih]

/-- The text of counters under plain keys. -/
theorem length_counts (fraction : ℚ → JsString) {fields : List (JsString × Nat)} {longest : Nat}
    (hkeys : ∀ field ∈ fields, isPlain field.1 = true ∧ field.1.length ≤ longest)
    (hcounts : ∀ field ∈ fields, field.2 ≤ 4294967295) :
    (Json.stringify fraction (.record (fields.map fun field =>
      (field.1, countJson field.2)))).length ≤ fields.length * (longest + 14) + 2 := by
  have hparts : ∀ part ∈ Json.stringifyFields fraction (fields.map fun field =>
      (field.1, countJson field.2)), part.length ≤ longest + 13 := by
    intro part hpart
    obtain ⟨field, hfield, rfl⟩ := Json.mem_stringifyFields hpart
    obtain ⟨cell, hcell, rfl⟩ := List.mem_map.mp hfield
    have hdigits : (decimal cell.2).length ≤ 10 :=
      length_decimal_le (by omega) (by have := hcounts cell hcell; omega)
    have hlength := (hkeys cell hcell).2
    have hnumber : Json.stringify fraction (countJson cell.2) = decimal cell.2 :=
      Json.numberText_intCast (cell.2 : ℤ)
    rw [List.length_append, List.length_cons, length_quote (hkeys cell hcell).1, hnumber]
    omega
  have hjoin := length_join_le hparts
  rw [length_stringifyFields, List.length_map, show longest + 13 + 1 = longest + 14 from rfl]
    at hjoin
  rw [Json.stringify, List.length_cons, List.length_append, List.length_singleton]
  omega

/-- Every counter is one the schema has digits for. -/
structure WithinDigits (totals : FunnelTotals) : Prop where
  entered : ∀ stage, totals.entered stage ≤ 4294967295
  stalledAt : ∀ stage, totals.stalledAt stage ≤ 4294967295
  cells : ∀ map, ∀ cell ∈ (totals.cells map).entries, cell.2 ≤ 4294967295

theorem length_stageJson (fraction : ℚ → JsString) {counts : FunnelStage → Nat}
    (h : ∀ stage, counts stage ≤ 4294967295) :
    (Json.stringify fraction (stageJson counts)).length ≤ 6 * (21 + 14) + 2 := by
  have hkeys : ∀ field ∈ FUNNEL_STAGES.map fun stage => (stage.name, counts stage),
      isPlain field.1 = true ∧ field.1.length ≤ 21 := by
    intro field hfield
    obtain ⟨stage, -, rfl⟩ := List.mem_map.mp hfield
    exact stageName_plain stage
  have hdigits : ∀ field ∈ FUNNEL_STAGES.map fun stage => (stage.name, counts stage),
      field.2 ≤ 4294967295 := by
    intro field hfield
    obtain ⟨stage, -, rfl⟩ := List.mem_map.mp hfield
    exact h stage
  have hcounts := length_counts fraction hkeys hdigits
  rw [List.map_map, List.length_map] at hcounts
  exact hcounts

theorem length_cellsJson (fraction : ℚ → JsString) (h : Consistent totals reports)
    (hdigits : WithinDigits totals) (map : CellMap) :
    (Json.stringify fraction (cellsJson (totals.cells map))).length
      ≤ cellBound map * (keyBound map + 14) + 2 := by
  have hkeys : ∀ field ∈ (totals.cells map).entries,
      isPlain field.1 = true ∧ field.1.length ≤ keyBound map := fun field hfield =>
    closedKeys_plain (h.closed map field.1 (List.mem_map_of_mem hfield))
  have hcounts := length_counts fraction hkeys (hdigits.cells map)
  have hsize : (totals.cells map).entries.length ≤ cellBound map := size_cells h map
  exact hcounts.trans (Nat.add_le_add_right (Nat.mul_le_mul_right _ hsize) 2)

theorem plainTexts (h : Consistent totals reports) : PlainTexts totals where
  keys map key hkey := ascii_of_isPlain (closedKeys_plain (h.closed map key hkey)).1
  population := by
    obtain ⟨population, hpopulation⟩ := h.population
    rw [hpopulation]
    cases population <;> exact Json.ascii_of_all (by decide)
  schemaDigest := by
    rw [h.schemaDigest]
    exact Json.ascii_of_all (by decide)

/-- The encoded record is under the schema's ceiling. -/
theorem length_encodeTotals (fraction : ℚ → JsString) (h : Consistent totals reports)
    (hdigits : WithinDigits totals) :
    (encodeTotals fraction totals).length ≤ FUNNEL_RECORD_CEILING_BYTES := by
  have hentered := length_stageJson fraction hdigits.entered
  have hstalled := length_stageJson fraction hdigits.stalledAt
  have hhours : (Json.stringify fraction (cellsJson totals.byStageHour)).length
      ≤ 144 * (24 + 14) + 2 := length_cellsJson fraction h hdigits .byStageHour
  have hattempts : (Json.stringify fraction (cellsJson totals.webrtcAttempts)).length
      ≤ 3380 * (11 + 14) + 2 := length_cellsJson fraction h hdigits .webrtcAttempts
  have houtcomes : (Json.stringify fraction (cellsJson totals.webrtcOutcomes)).length
      ≤ 10140 * (24 + 14) + 2 := length_cellsJson fraction h hdigits .webrtcOutcomes
  have hpopulation : (Json.quote totals.population).length ≤ 15 := by
    obtain ⟨population, hpopulation⟩ := h.population
    rw [hpopulation]
    cases population <;> decide
  have hdigest : (Json.quote totals.schemaDigest).length = 18 := by
    rw [h.schemaDigest]
    decide
  have hnames : (Json.quote (js "entered")).length = 9 ∧
      (Json.quote (js "stalledAt")).length = 11 ∧ (Json.quote (js "byStageHour")).length = 13 ∧
      (Json.quote (js "webrtcAttempts")).length = 16 ∧
      (Json.quote (js "webrtcOutcomes")).length = 16 ∧
      (Json.quote (js "population")).length = 12 ∧
      (Json.quote (js "schemaDigest")).length = 14 := by decide
  have hceiling : FUNNEL_RECORD_CEILING_BYTES = 476224 := by decide
  rw [encodeTotals, Json.length_encode (ascii_totalsJson (plainTexts h)), hceiling, totalsJson,
    Json.stringify, totalsFields]
  simp only [Json.stringifyFields, Json.stringify, join, List.intercalate_cons_cons,
    List.intercalate_singleton, List.length_append, List.length_cons, List.length_nil, hnames]
  omega

/-! ## What a write can refuse -/

/-- What a read throws says nothing about a size. -/
def NotSize : FunnelJournalError → Prop
  | .tooLarge _ => False
  | _ => True

theorem readCount_throws (value : Option Json) (path : JsString) :
    OnlyThrows NotSize (readCount value path) := by
  intro e he
  unfold readCount at he
  split at he
  · split at he <;> cases he
    trivial
  · cases he
    trivial

theorem objectAt_throws (source : List (JsString × Json)) (name : JsString) :
    OnlyThrows NotSize (objectAt source name) := by
  intro e he
  unfold objectAt at he
  split at he <;> cases he
  trivial

theorem textAt_throws (source : List (JsString × Json)) (name : JsString) :
    OnlyThrows NotSize (textAt source name) := by
  intro e he
  unfold textAt at he
  split at he <;> cases he
  trivial

theorem readStageCounts_throws (source : List (JsString × Json)) (name : JsString) :
    OnlyThrows NotSize (readStageCounts source name) :=
  (objectAt_throws source name).bind fun _ =>
    (OnlyThrows.mapM (fun _ => readCount_throws _ _) FUNNEL_STAGES).bind fun _ =>
      OnlyThrows.pure _

theorem readCells_throws (source : List (JsString × Json)) (name : JsString) :
    OnlyThrows NotSize (readCells source name) :=
  (objectAt_throws source name).bind fun fields =>
    (OnlyThrows.mapM (fun _ => (readCount_throws _ _).bind fun _ => OnlyThrows.pure _)
      fields).bind fun _ => OnlyThrows.pure _

theorem parseTotals_throws (source : List (JsString × Json)) :
    OnlyThrows NotSize (parseTotals source) :=
  (textAt_throws source _).bind fun _ => (textAt_throws source _).bind fun _ =>
    (readStageCounts_throws source _).bind fun _ => (readStageCounts_throws source _).bind fun _ =>
      (readCells_throws source _).bind fun _ => (readCells_throws source _).bind fun _ =>
        (readCells_throws source _).bind fun _ => OnlyThrows.pure _

theorem readFunnelJournal_throws (stored : Option Bytes) (population : FunnelPopulation) :
    OnlyThrows NotSize (readFunnelJournal stored population) := by
  intro e he
  unfold readFunnelJournal at he
  split at he
  · cases he
  · split at he
    · cases he
      trivial
    · exact parseTotals_throws _ e he
    · cases he
      trivial

/-- A counter that goes backwards is refused as that. -/
theorem goesBackwards_rollback {stored totals : FunnelTotals} {e : FunnelJournalError}
    (h : goesBackwards stored totals = some e) : NotSize e := by
  have hstages : ∀ e', (FUNNEL_STAGES.findSome? fun stage =>
      if totals.entered stage < stored.entered stage then
        some (FunnelJournalError.rollback (js "entered." ++ stage.name) (stored.entered stage)
          (totals.entered stage))
      else if totals.stalledAt stage < stored.stalledAt stage then
        some (.rollback (js "stalledAt." ++ stage.name) (stored.stalledAt stage)
          (totals.stalledAt stage))
      else none) = some e' → NotSize e' := by
    intro e' he'
    obtain ⟨stage, -, hstage⟩ := List.exists_of_findSome?_eq_some he'
    split at hstage
    · cases hstage
      trivial
    · split at hstage <;> cases hstage
      trivial
  have hcells : ∀ e', (CELL_MAPS.findSome? fun map =>
      (stored.cells map).entries.findSome? fun cell =>
        if (totals.cells map).count cell.1 < cell.2 then
          some (FunnelJournalError.rollback (map.name ++ js "[" ++ cell.1 ++ js "]") cell.2
            ((totals.cells map).count cell.1))
        else none) = some e' → NotSize e' := by
    intro e' he'
    obtain ⟨map, -, hmap⟩ := List.exists_of_findSome?_eq_some he'
    obtain ⟨cell, -, hcell⟩ := List.exists_of_findSome?_eq_some hmap
    split at hcell <;> cases hcell
    trivial
  rw [goesBackwards, Option.orElse_eq_orElse, Option.orElse_eq_or, Option.or_eq_some_iff] at h
  rcases h with hstage | ⟨-, hcell⟩
  · exact hstages e hstage
  · exact hcells e hcell

theorem write_ne_tooLarge {fraction : ℚ → JsString}
    (hfits : (encodeTotals fraction totals).length ≤ FUNNEL_RECORD_CEILING_BYTES)
    (stored : Option Bytes) (bytes : Nat) (population : FunnelPopulation) :
    writeFunnelJournal fraction stored totals population ≠ .error (.tooLarge bytes) := by
  have hthrows : OnlyThrows NotSize (writeFunnelJournal fraction stored totals population) := by
    refine (readFunnelJournal_throws stored population).bind fun before => ?_
    intro e he
    cases hback : goesBackwards before totals with
    | some refusal =>
      rw [hback] at he
      cases he
      exact goesBackwards_rollback hback
    | none =>
      rw [hback] at he
      simp only [if_neg (Nat.not_lt.mpr hfits)] at he
      cases he
  exact fun h => hthrows _ h

/-! ## Any sequence of bodies -/

/-- A request: its body as parsed, and what the edge and the platform say of its country. -/
structure Visit where
  body : Json
  header : Option JsString
  platformCountry : Option JsString

/-- An accepted body is accrued, and another leaves the record alone. -/
def accrueVisit (toUpperCase : JsString → JsString) (totals : FunnelTotals) (visit : Visit) :
    FunnelTotals :=
  match parseFunnelReport visit.body with
  | none => totals
  | some report =>
    accrueFunnelReport totals report
      (funnelDimensionsFrom toUpperCase visit.header visit.platformCountry)

def accrueVisits (toUpperCase : JsString → JsString) (population : FunnelPopulation)
    (visits : List Visit) : FunnelTotals :=
  visits.foldl (accrueVisit toUpperCase) (emptyFunnelJournal population)

def accepted (visits : List Visit) : List FunnelReport :=
  visits.filterMap fun visit => parseFunnelReport visit.body

theorem consistent_foldl (toUpperCase : JsString → JsString) (visits : List Visit)
    (h : Consistent totals reports) :
    Consistent (visits.foldl (accrueVisit toUpperCase) totals)
      (reports + (accepted visits).length) := by
  induction visits generalizing totals reports with
  | nil => exact h
  | cons visit visits ih =>
    rw [List.foldl_cons]
    cases hparse : parseFunnelReport visit.body with
    | none =>
      have hsame : accrueVisit toUpperCase totals visit = totals := by
        rw [accrueVisit, hparse]
      have hrest : accepted (visit :: visits) = accepted visits := by
        show List.filterMap _ (visit :: visits) = List.filterMap _ visits
        rw [List.filterMap_cons, hparse]
      rw [hsame, hrest]
      exact ih h
    | some report =>
      have hmore : accrueVisit toUpperCase totals visit
          = accrueFunnelReport totals report
            (funnelDimensionsFrom toUpperCase visit.header visit.platformCountry) := by
        rw [accrueVisit, hparse]
      have hrest : (accepted (visit :: visits)).length = 1 + (accepted visits).length := by
        show (List.filterMap _ (visit :: visits)).length = _
        rw [List.filterMap_cons, hparse, List.length_cons, Nat.add_comm]
        rfl
      rw [hmore, hrest, ← Nat.add_assoc]
      exact ih h.accrue

/-- After any sequence of bodies a record is inside the schema's closed lists, is read back as it
    was written, adds up, and, with counters of ten digits, is never too large to write. -/
theorem funnel_record_bounded (fraction : ℚ → JsString) (toUpperCase : JsString → JsString)
    (population : FunnelPopulation) (visits : List Visit) :
    let totals := accrueVisits toUpperCase population visits
    (∀ map, ∀ key ∈ (totals.cells map).keys, key ∈ closedKeys map) ∧
    cellCount totals ≤ FUNNEL_MAX_CELLS ∧
    (WithinDigits totals →
      (encodeTotals fraction totals).length ≤ FUNNEL_RECORD_CEILING_BYTES ∧
      ∀ stored bytes, writeFunnelJournal fraction stored totals population
        ≠ .error (.tooLarge bytes)) ∧
    readFunnelJournal (some (encodeTotals fraction totals)) population = .ok totals ∧
    stageTotal totals.entered + stageTotal totals.stalledAt = totals.byStageHour.total ∧
    totals.byStageHour.total = (accepted visits).length ∧
    totals.webrtcAttempts.total = totals.entered .iceGathering ∧
    totals.webrtcOutcomes.total ≤ totals.entered .connectionClassified := by
  intro totals
  have h : Consistent totals (accepted visits).length := by
    have hfold := consistent_foldl toUpperCase visits (consistent_empty population)
    rw [Nat.zero_add] at hfold
    exact hfold
  refine ⟨h.closed, cellCount_le h, ?_, read_encode fraction (plainTexts h) population,
    h.stages.trans h.hours.symm, h.hours, h.attempts, h.outcomes⟩
  intro hdigits
  have hfits := length_encodeTotals fraction h hdigits
  refine ⟨hfits, ?_⟩
  exact fun stored bytes => write_ne_tooLarge hfits stored bytes population

end O2Fabric.FunnelJournal
