/-
  O2Fabric.Node.FsIssuance

  A provider's issuance record in a file: a line is appended for each
  certificate, and the file is read, and compacted, where a process starts.

  A process can die between two calls, in the middle of an append, and in the
  middle of its start.  A compaction is written beside the file and renamed
  over it, so it is there or it is not.
-/

import Mathlib.Data.List.Induction
import Mathlib.Data.List.TakeWhile
import O2Fabric.Core.EnrollmentAuthority
import O2Fabric.Js.NumberText
import O2Fabric.Lib.Lines
import O2Fabric.Lib.Steps

namespace O2Fabric.Node.FsIssuance

open Lines EnrollmentAuthority

/-! ## The file -/

structure Entry where
  userKey : JsString
  issuedAt : ℚ
  deriving DecidableEq

section

variable (fraction : ℚ → JsString)

/-- What a line starts with: the instant, and a space. -/
def stamp (issuedAt : ℚ) : JsString := Json.numberText fraction issuedAt ++ [SPACE]

def render (entry : Entry) : JsString := stamp fraction entry.issuedAt ++ (entry.userKey ++ [LF])

end

/-- One line, `none` where it is not an entry. -/
def readEntry (line : JsString) : Option Entry :=
  match line.dropWhile fun u => u != SPACE with
  | [] => none
  | _ :: key =>
    let number := line.takeWhile fun u => u != SPACE
    if number = [] then none
    else (numberOf number).bind fun issuedAt =>
      if trim key = [] then none else some ⟨trim key, issuedAt⟩

def parse (text : JsString) : List Entry := records LF readEntry text

/-- `readFile(path, 'utf8')`. -/
def textOf (file : Bytes) : JsString := decodeUtf8 none file

/-! ## The memory -/

/-- `#byUser` and `#anybody`. -/
structure Memory where
  byUser : InsertionMap JsString (List ℚ)
  anybody : List ℚ

def Memory.issuedTo (memory : Memory) (userKey : JsString) : List ℚ :=
  (memory.byUser.get? userKey).getD []

def Memory.remember (memory : Memory) (entry : Entry) : Memory where
  byUser := memory.byUser.set entry.userKey (memory.issuedTo entry.userKey ++ [entry.issuedAt])
  anybody := memory.anybody ++ [entry.issuedAt]

def remembering (entries : List Entry) : Memory := entries.foldl Memory.remember ⟨.empty, []⟩

/-- A record that is open: the file, which need not be there yet, and what it was read as. -/
structure Open where
  file : Option Bytes
  memory : Memory

/-- `appendFileSync`, as far as it gets. -/
def appended (file : Option Bytes) (bytes : Bytes) : Option Bytes := some (file.getD [] ++ bytes)

/-- The record as the authority's ledger. -/
def ledger (fraction : ℚ → JsString) : IssuanceLedger Open where
  issuedTo s userKey := some (s.memory.issuedTo userKey)
  issuedToAnybody s := some s.memory.anybody
  record s userKey issuedAt :=
    let entry : Entry := ⟨userKey, issuedAt⟩
    some ⟨appended s.file (textEncoder (render fraction entry)), s.memory.remember entry⟩

/-- What `open` keeps of a file, and the file it leaves. -/
def opened (fraction : ℚ → JsString) (file : Option Bytes) (retainMs now : ℚ) :
    Option Bytes × List Entry :=
  match file with
  | none => (none, [])
  | some raw =>
    let all := parse (textOf raw)
    let kept := all.filter fun entry => decide (now - retainMs < entry.issuedAt)
    if kept.length ≠ all.length then (some (textEncoder (kept.flatMap (render fraction))), kept)
    else (some raw, kept)

/-! ## A provider -/

structure Provider where
  file : Option Bytes
  /-- The memory of the process that runs, if one does. -/
  running : Option Memory
  /-- The last reading of the clock. -/
  now : ℤ
  /-- The entries whose `record` has returned. -/
  returned : List Entry
  /-- These, and those whose append was broken off after the whole entry was written. -/
  survived : List Entry
  attempted : List Entry

def Provider.start (now : ℤ) : Provider := ⟨none, none, now, [], [], []⟩

inductive Event
  /-- A process starts. -/
  | opens (retainMs : ℚ) (now : ℤ)
  /-- A process dies while it starts, before the compacted file is in place or after. -/
  | opensAndDies (retainMs : ℚ) (now : ℤ) (renamed : Bool)
  | enrols (request : EnrollmentRequest) (now : ℤ)
  /-- The process dies in the middle of the append of an enrolment. -/
  | enrolsAndDies (request : EnrollmentRequest) (now : ℤ) (written : Nat)
  | dies

/-- What lies outside this file. -/
structure Env where
  platform : Platform
  options : AuthorityOptions
  fraction : ℚ → JsString

namespace Provider

variable (env : Env)

/-- `enrol`, on the record that is open. -/
def enrol (s : Provider) (memory : Memory) (request : EnrollmentRequest) (now : ℤ) :
    Option (Open × EnrollmentResult) :=
  EnrollmentAuthority.enrol env.platform env.options (ledger env.fraction) ⟨s.file, memory⟩ request
    now

def enrols (s : Provider) (request : EnrollmentRequest) (now : ℤ) : Option Provider := do
  let memory ← s.running
  match ← s.enrol env memory request now with
  | (_, .refused _ _) => some { s with now := now }
  | (record, .issued _) =>
    let entry : Entry := ⟨request.userKey, now⟩
    some {
      file := record.file
      running := some record.memory
      now := now
      returned := s.returned ++ [entry]
      survived := s.survived ++ [entry]
      attempted := s.attempted ++ [entry] }

/-- The append of an enrolment that would be recorded is broken off. -/
def enrolsAndDies (s : Provider) (request : EnrollmentRequest) (now : ℤ) (written : Nat) :
    Option Provider := do
  let memory ← s.running
  match ← s.enrol env memory request now with
  | (_, .refused _ _) => none
  | (_, .issued _) =>
    let entry : Entry := ⟨request.userKey, now⟩
    let line := textEncoder (render env.fraction entry)
    some {
      file := appended s.file (line.take written)
      running := none
      now := now
      returned := s.returned
      -- the line feed may be missing
      survived := if line.length ≤ written + 1 then s.survived ++ [entry] else s.survived
      attempted := s.attempted ++ [entry] }

def opens (s : Provider) (retainMs : ℚ) (now : ℤ) : Option Provider :=
  match s.running with
  | some _ => none
  | none =>
    let (file, kept) := opened env.fraction s.file retainMs now
    some { s with file := file, running := some (remembering kept), now := now }

def opensAndDies (s : Provider) (retainMs : ℚ) (now : ℤ) (renamed : Bool) : Option Provider :=
  match s.running with
  | some _ => none
  | none =>
    let file := if renamed then (opened env.fraction s.file retainMs now).1 else s.file
    some { s with file := file, now := now }

def step (s : Provider) : Event → Option Provider
  | .opens retainMs now => s.opens env retainMs now
  | .opensAndDies retainMs now renamed => s.opensAndDies env retainMs now renamed
  | .enrols request now => s.enrols env request now
  | .enrolsAndDies request now written => s.enrolsAndDies env request now written
  | .dies => some { s with running := none }

end Provider

/-- The clock does not go back, and the window is kept. -/
def Proper (env : Env) (s : Provider) : Event → Prop
  | .opens retainMs now => env.options.windowMs ≤ retainMs ∧ s.now ≤ now
  | .opensAndDies retainMs now _ => env.options.windowMs ≤ retainMs ∧ s.now ≤ now
  | .enrols _ now => s.now ≤ now
  | .enrolsAndDies _ now _ => s.now ≤ now
  | .dies => True

/-- What is in memory says of the window what these entries say. -/
structure Agrees (window now : ℚ) (memory : Memory) (entries : List Entry) : Prop where
  issuedTo : ∀ userKey, SlidingWindow.recent window now (memory.issuedTo userKey)
    = SlidingWindow.recent window now
      ((entries.filter fun entry => decide (entry.userKey = userKey)).map Entry.issuedAt)
  anybody : SlidingWindow.recent window now memory.anybody
    = SlidingWindow.recent window now (entries.map Entry.issuedAt)

/-- A process that runs remembers, of the window, what every process before it has recorded. -/
def Transparent (env : Env) (s : Provider) : Prop :=
  ∀ memory, s.running = some memory → ∀ now : ℤ, s.now ≤ now →
    Agrees env.options.windowMs now memory s.survived

/-- What is read back as it was written: no line feed, no white space at its ends, and no
    surrogate without its other half. -/
def PlainKey (userKey : JsString) : Prop :=
  userKey ≠ [] ∧ LF ∉ userKey ∧ trim userKey = userKey ∧ isWellFormed userKey = true

instance (userKey : JsString) : Decidable (PlainKey userKey) :=
  inferInstanceAs (Decidable (_ ∧ _ ∧ _ ∧ _))

/-- The text of the file ends with its last line. -/
def Whole (s : Provider) : Prop := Complete LF (textOf (s.file.getD []))

instance (s : Provider) : Decidable (Whole s) := inferInstanceAs (Decidable (Complete _ _))

/-- What is appended is a plain key's line, after a line that is whole; and where an append is
    broken off, it is before the key or after it. -/
def Clean (env : Env) (s : Provider) : Event → Prop
  | .enrols request _ =>
    (entitlement env.options request).isSome = true ∨ Whole s ∧ PlainKey request.userKey
  | .enrolsAndDies request now written =>
    written = 0 ∨ Whole s ∧
      (request.userKey ≠ [] ∧ written ≤ (stamp env.fraction now).length ∨
        PlainKey request.userKey ∧
          (textEncoder (render env.fraction ⟨request.userKey, now⟩)).length ≤ written + 1)
  | _ => True

end O2Fabric.Node.FsIssuance

/-! # Restarted

What a provider that is restarted remembers.

While every append follows a whole line and is itself a whole line, or breaks
off before its key, the file says of the window what was recorded, and every
process that reads it starts from there.  Then the budgets hold over all
processes together.
-/

namespace O2Fabric.Node.FsIssuance

open Lines EnrollmentAuthority SlidingWindow O2Fabric.Steps

variable {env : Env} {s s' : Provider} {fraction : ℚ → JsString} {text : JsString}

/-! ## Lines -/

/-- An entry that is read back as it was written. -/
def PlainEntry (entry : Entry) : Prop := PlainKey entry.userKey ∧ ∃ z : ℤ, entry.issuedAt = z

theorem stamp_intCast (z : ℤ) : stamp fraction z = integerText z ++ [SPACE] := by
  rw [stamp, Json.numberText_intCast]

theorem integerText_ne_space (z : ℤ) : ∀ u ∈ integerText z, (u != SPACE) = true := by
  intro u hu
  have hplain := integerText_plain z u hu
  rw [bne_iff_ne]
  rintro rfl
  exact absurd hplain (by decide)

theorem ascii_stamp (z : ℤ) : Ascii (stamp fraction z) := by
  rw [stamp_intCast]
  apply Json.ascii_append (Json.ascii_integerText z)
  exact Json.ascii_of_all (by decide)

theorem LF_notMem_stamp (z : ℤ) : LF ∉ stamp fraction z := by
  rw [stamp_intCast, List.mem_append]
  rintro (hnumber | hspace)
  · have hplain := integerText_plain z LF hnumber
    exact absurd hplain (by decide)
  · exact absurd hspace (by decide)

variable {userKey : JsString}

/-- A line is read back, with its line feed or without it. -/
theorem readEntry_plain (z : ℤ) (h : PlainKey userKey) :
    readEntry (stamp fraction z ++ userKey) = some ⟨userKey, z⟩ := by
  obtain ⟨hne, -, htrim, -⟩ := h
  have htake : (integerText z ++ SPACE :: userKey).takeWhile (fun u => u != SPACE)
      = integerText z := by
    rw [List.takeWhile_append_of_pos (integerText_ne_space z), List.takeWhile_cons_of_neg (by simp),
      List.append_nil]
  have hdrop : (integerText z ++ SPACE :: userKey).dropWhile (fun u => u != SPACE)
      = SPACE :: userKey := by
    rw [List.dropWhile_append_of_pos (integerText_ne_space z), List.dropWhile_cons_of_neg (by simp)]
  rw [stamp_intCast, List.append_assoc, List.singleton_append]
  simp only [readEntry, hdrop, htake, if_neg (integerText_ne_nil z), numberOf_integerText,
    Option.bind_some, htrim, if_neg hne]

/-- A line that breaks off before its key is no entry. -/
theorem readEntry_stamp (z : ℤ) (n : Nat) : readEntry ((stamp fraction z).take n) = none := by
  rw [stamp_intCast]
  by_cases hshort : n ≤ (integerText z).length
  · -- there is no space
    have hdrop : ((integerText z).take n).dropWhile (fun u => u != SPACE) = [] := by
      rw [List.dropWhile_eq_nil_iff]
      exact fun u hu => integerText_ne_space z u (List.mem_of_mem_take hu)
    rw [List.take_append_of_le_length hshort]
    simp only [readEntry, hdrop]
  · -- there is nothing after it
    have hlength : (integerText z ++ [SPACE]).length ≤ n := by
      rw [List.length_append, List.length_singleton]
      omega
    have hdrop : (integerText z ++ [SPACE]).dropWhile (fun u => u != SPACE) = [SPACE] := by
      rw [List.dropWhile_append_of_pos (integerText_ne_space z),
        List.dropWhile_cons_of_neg (by simp)]
    have hblank : trim [] = [] := rfl
    rw [List.take_of_length_le hlength]
    simp only [readEntry, hdrop, hblank, if_true]
    split
    · rfl
    · cases numberOf _ <;> rfl

theorem readEntry_nil : readEntry [] = none := rfl

theorem LF_notMem_line (z : ℤ) (h : PlainKey userKey) :
    LF ∉ stamp fraction z ++ userKey := by
  rw [List.mem_append]
  exact fun hmem => hmem.elim (LF_notMem_stamp z) h.2.1

/-- What follows a whole line, and has no line feed of its own. -/
theorem parse_append_tail {tail : JsString} (hwhole : Complete LF text) (hline : LF ∉ tail) :
    parse (text ++ tail) = parse text ++ (readEntry tail).toList := by
  have htail : parse tail = (readEntry tail).toList := by
    unfold parse records
    rw [lines_of_notMem hline]
    cases hread : readEntry tail <;> simp [hread]
  rw [← htail]
  exact records_append readEntry_nil hwhole

theorem parse_append_render (hwhole : Complete LF text) (z : ℤ) (h : PlainKey userKey) :
    parse (text ++ render fraction ⟨userKey, z⟩) = parse text ++ [⟨userKey, z⟩] := by
  have hline : parse (render fraction ⟨userKey, z⟩) = [⟨userKey, z⟩] := by
    unfold parse render
    rw [← List.append_assoc, records_line readEntry_nil (LF_notMem_line z h), readEntry_plain z h]
    rfl
  have hsplit : parse (text ++ render fraction ⟨userKey, z⟩)
      = parse text ++ parse (render fraction ⟨userKey, z⟩) := records_append readEntry_nil hwhole
  rw [hsplit, hline]

theorem isWellFormed_append {a b : JsString} (ha : isWellFormed a = true)
    (hb : isWellFormed b = true) : isWellFormed (a ++ b) = true :=
  (textEncoder_wellFormed ha b).2.1.trans hb

theorem isWellFormed_line (z : ℤ) (h : PlainKey userKey) :
    isWellFormed (stamp fraction z ++ userKey) = true :=
  isWellFormed_append (isWellFormed_ascii (ascii_stamp z)) h.2.2.2

theorem isWellFormed_render (z : ℤ) (h : PlainKey userKey) :
    isWellFormed (render fraction ⟨userKey, z⟩) = true := by
  have hline : render fraction ⟨userKey, z⟩ = (stamp fraction z ++ userKey) ++ [LF] :=
    (List.append_assoc _ _ _).symm
  rw [hline]
  exact isWellFormed_append (isWellFormed_line z h) (by decide)

/-- A compacted file is read back. -/
theorem parse_flatMap {entries : List Entry} (h : ∀ entry ∈ entries, PlainEntry entry) :
    parse (entries.flatMap (render fraction)) = entries ∧
    isWellFormed (entries.flatMap (render fraction)) = true ∧
    Complete LF (entries.flatMap (render fraction)) := by
  induction entries using List.reverseRecOn with
  | nil => exact ⟨rfl, rfl, Or.inl rfl⟩
  | append_singleton entries entry ih =>
    obtain ⟨hparse, hwell, hwhole⟩ := ih fun e he => h e (List.mem_append_left _ he)
    obtain ⟨hkey, z, hz⟩ := h entry (List.mem_append_right _ (List.mem_singleton_self entry))
    have hentry : entry = ⟨entry.userKey, z⟩ := by rw [← hz]
    rw [List.flatMap_append, List.flatMap_singleton, hentry]
    refine ⟨?_, isWellFormed_append hwell (isWellFormed_render z hkey), ?_⟩
    · rw [parse_append_render hwhole z hkey, hparse]
    · unfold render
      rw [← List.append_assoc (stamp fraction z)]
      exact complete_append _ _

/-- What was written is what is read. -/
theorem textOf_textEncoder (h : isWellFormed text = true) : textOf (textEncoder text) = text := by
  have hdecode := (textEncoder_wellFormed h []).2.2 []
  rw [List.append_nil] at hdecode
  rw [textOf, hdecode]
  exact List.append_nil text

/-! ## The window -/

/-- The entries later than a window before `now`. -/
def recentEntries (window now : ℚ) (entries : List Entry) : List Entry :=
  entries.filter fun entry => decide (now - window < entry.issuedAt)

theorem recentEntries_append (window now : ℚ) (entries more : List Entry) :
    recentEntries window now (entries ++ more)
      = recentEntries window now entries ++ recentEntries window now more :=
  List.filter_append _ _

variable {window : ℚ}

/-- What agrees on a window agrees on every later one. -/
theorem recentEntries_later {now later : ℚ} {entries entries' : List Entry} (hlater : now ≤ later)
    (h : recentEntries window now entries = recentEntries window now entries') :
    recentEntries window later entries = recentEntries window later entries' := by
  have hboth : ∀ l : List Entry, recentEntries window later l
      = (recentEntries window now l).filter fun entry => decide (later - window < entry.issuedAt) := by
    intro l
    unfold recentEntries
    rw [List.filter_filter]
    apply List.filter_congr
    intro entry _
    by_cases hlate : later - window < entry.issuedAt
    · have hnow : now - window < entry.issuedAt := by linarith
      simp [hlate, hnow]
    · simp [hlate]
  rw [hboth, hboth, h]

/-- The instants at which a user was issued certificates. -/
def timesOf (entries : List Entry) (userKey : JsString) : List ℚ :=
  (entries.filter fun entry => decide (entry.userKey = userKey)).map Entry.issuedAt

theorem recent_timesOf (window now : ℚ) (entries : List Entry) (userKey : JsString) :
    recent window now (timesOf entries userKey)
      = timesOf (recentEntries window now entries) userKey := by
  unfold recent timesOf recentEntries
  rw [List.filter_map, List.filter_filter, List.filter_filter]
  congr 1
  apply List.filter_congr
  intro entry _
  exact Bool.and_comm _ _

theorem recent_map (window now : ℚ) (entries : List Entry) :
    recent window now (entries.map Entry.issuedAt)
      = (recentEntries window now entries).map Entry.issuedAt := by
  unfold recent recentEntries
  rw [List.filter_map]
  rfl

theorem remembering_append (entries : List Entry) (entry : Entry) :
    remembering (entries ++ [entry]) = (remembering entries).remember entry := by
  rw [remembering, List.foldl_append]
  rfl

/-- What is in memory is what was read into it. -/
theorem remembering_issued (entries : List Entry) :
    (∀ userKey, (remembering entries).issuedTo userKey = timesOf entries userKey) ∧
    (remembering entries).anybody = entries.map Entry.issuedAt := by
  induction entries using List.reverseRecOn with
  | nil => exact ⟨fun _ => rfl, rfl⟩
  | append_singleton entries entry ih =>
    rw [remembering_append]
    refine ⟨?_, ?_⟩
    · intro userKey
      show ((InsertionMap.set _ _ _).get? userKey).getD [] = _
      rw [InsertionMap.get?_set, timesOf, List.filter_append, List.map_append, List.filter_singleton]
      by_cases hkey : userKey = entry.userKey
      · rw [if_pos hkey, hkey, Option.getD_some, ih.1 entry.userKey]
        simp [timesOf]
      · have hother : ¬ entry.userKey = userKey := fun h => hkey h.symm
        rw [if_neg hkey]
        have hold := ih.1 userKey
        unfold Memory.issuedTo at hold
        rw [hold]
        simp [timesOf, hother]
    · show (remembering entries).anybody ++ [entry.issuedAt] = _
      rw [ih.2, List.map_append, List.map_singleton]

theorem agrees_remembering {now : ℚ} {entries survived : List Entry}
    (h : recentEntries window now entries = recentEntries window now survived) :
    Agrees window now (remembering entries) survived where
  issuedTo userKey := by
    have hright := recent_timesOf window now survived userKey
    unfold timesOf at hright
    rw [(remembering_issued entries).1, recent_timesOf, h, hright]
    rfl
  anybody := by rw [(remembering_issued entries).2, recent_map, recent_map, h]

/-! ## What is kept -/

/-- The text of the file, and what it says of the window. -/
structure Reads (env : Env) (s : Provider) (text : JsString) : Prop where
  bytes : s.file.getD [] = textEncoder text
  wellFormed : isWellFormed text = true
  entries : ∀ entry ∈ parse text, PlainEntry entry
  window : recentEntries env.options.windowMs s.now (parse text)
    = recentEntries env.options.windowMs s.now s.survived

structure Kept (env : Env) (s : Provider) : Prop where
  text : ∃ text, Reads env s text
  memory : ∀ memory, s.running = some memory → ∃ entries, memory = remembering entries ∧
    recentEntries env.options.windowMs s.now entries
      = recentEntries env.options.windowMs s.now s.survived
  perUser : ∀ userKey, Bounded env.options.windowMs env.options.maxPerWindow
    (timesOf s.survived userKey)
  shared : ∀ limit, env.options.maxIssuedPerWindow = .perWindow limit →
    Bounded env.options.windowMs limit (s.survived.map Entry.issuedAt)
  returned : s.returned.Sublist s.survived
  survived : s.survived.Sublist s.attempted

theorem kept_start (env : Env) (now : ℤ) : Kept env (Provider.start now) where
  text := ⟨[], rfl, rfl, fun entry hentry => (by cases hentry), rfl⟩
  memory memory hrunning := by cases hrunning
  perUser _ _ := Nat.zero_le _
  shared _ _ _ := Nat.zero_le _
  returned := List.Sublist.refl []
  survived := List.Sublist.refl []

/-- The text is what the file is read as. -/
theorem Reads.textOf (h : Reads env s text) : textOf (s.file.getD []) = text := by
  rw [h.bytes]
  exact textOf_textEncoder h.wellFormed

variable {now : ℤ}

theorem Reads.later (h : Reads env s text) (hnow : s.now ≤ now) :
    recentEntries env.options.windowMs now (parse text)
      = recentEntries env.options.windowMs now s.survived :=
  recentEntries_later (Int.cast_le.mpr hnow) h.window

/-- Some entries more, at the end of the file. -/
theorem Reads.more (h : Reads env s text) (hnow : s.now ≤ now) {tail : JsString} {more : List Entry}
    (hparse : parse (text ++ tail) = parse text ++ more) (hwell : isWellFormed tail = true)
    (hplain : ∀ entry ∈ more, PlainEntry entry)
    (hfile : s'.file.getD [] = textEncoder text ++ textEncoder tail) (hclock : s'.now = now)
    (hsurvived : s'.survived = s.survived ++ more) : Reads env s' (text ++ tail) where
  bytes := by rw [hfile, (textEncoder_wellFormed h.wellFormed tail).1]
  wellFormed := isWellFormed_append h.wellFormed hwell
  entries entry hentry := by
    rw [hparse, List.mem_append] at hentry
    exact hentry.elim (h.entries entry) (hplain entry)
  window := by
    rw [hclock, hparse, hsurvived, recentEntries_append, recentEntries_append, h.later hnow]

/-- The clock moves, and the file and the memory stay, or the memory is gone. -/
theorem Kept.waits (h : Kept env s) (hnow : s.now ≤ now) {running : Option Memory}
    (hrunning : running = s.running ∨ running = none) :
    Kept env { s with now := now, running := running } where
  text := by
    obtain ⟨text, hreads⟩ := h.text
    exact ⟨text, hreads.bytes, hreads.wellFormed, hreads.entries, hreads.later hnow⟩
  memory memory hmemory := by
    have hsome : running = some memory := hmemory
    rcases hrunning with hsame | hnone
    · obtain ⟨entries, hremembers, hwindow⟩ := h.memory memory (hsame ▸ hsome)
      exact ⟨entries, hremembers, recentEntries_later (Int.cast_le.mpr hnow) hwindow⟩
    · rw [hnone] at hsome
      cases hsome
  perUser := h.perUser
  shared := h.shared
  returned := h.returned
  survived := h.survived

/-! ## An enrolment -/

theorem bounded_concat {now : ℚ} {limit : Nat} {times : List ℚ} (h : Bounded window limit times)
    (hroom : (recent window now times).length < limit) :
    Bounded window limit (times ++ [now]) :=
  (h.cons hroom).subperm (List.perm_append_singleton now times).subperm

variable {request : EnrollmentRequest}

/-- What a certified enrolment appends, and the budgets it was let through by. -/
theorem Kept.issues (h : Kept env s) {memory : Memory} (hrunning : s.running = some memory)
    (hnow : s.now ≤ now) {record : Open} {certificate : NodeCertificate}
    (henrol : s.enrol env memory request now = some (record, .issued certificate)) :
    record = ⟨appended s.file (textEncoder (render env.fraction ⟨request.userKey, now⟩)),
      memory.remember ⟨request.userKey, now⟩⟩ ∧
    entitlement env.options request = none ∧
    (∀ userKey, Bounded env.options.windowMs env.options.maxPerWindow
      (timesOf (s.survived ++ [⟨request.userKey, now⟩]) userKey)) ∧
    ∀ limit, env.options.maxIssuedPerWindow = .perWindow limit →
      Bounded env.options.windowMs limit
        ((s.survived ++ [(⟨request.userKey, now⟩ : Entry)]).map Entry.issuedAt) := by
  obtain ⟨entries, rfl, hwindow⟩ := h.memory memory hrunning
  have hlater : recentEntries env.options.windowMs now _
      = recentEntries env.options.windowMs now _ :=
    recentEntries_later (Int.cast_le.mpr hnow) hwindow
  have hagrees := agrees_remembering hlater
  rcases enrol_cases henrol with ⟨-, refusal, reason, hrefused, -⟩ | ⟨-, hissues⟩
  · cases hrefused
  · refine ⟨?_, ?_, ?_, ?_⟩
    · exact (Option.some.inj hissues.recorded).symm
    · exact entitlement_of_issued henrol
    · intro userKey
      obtain ⟨times, htimes, hroom⟩ := hissues.user
      cases htimes
      by_cases hkey : userKey = request.userKey
      · have hmore : timesOf (s.survived ++ [⟨request.userKey, now⟩]) userKey
            = timesOf s.survived userKey ++ [(now : ℚ)] := by
          simp [timesOf, hkey]
        rw [hmore, hkey]
        apply bounded_concat (h.perUser request.userKey)
        have hsame := hagrees.issuedTo request.userKey
        unfold timesOf
        rw [← hsame]
        exact hroom
      · have hsame : timesOf (s.survived ++ [⟨request.userKey, now⟩]) userKey
            = timesOf s.survived userKey := by
          simp [timesOf, Ne.symm hkey]
        rw [hsame]
        exact h.perUser userKey
    · intro limit hlimit
      obtain ⟨times, htimes, hroom⟩ := hissues.anybody limit hlimit
      cases htimes
      rw [List.map_append, List.map_singleton]
      apply bounded_concat (h.shared limit hlimit)
      rw [← hagrees.anybody]
      exact hroom

theorem getD_appended (file : Option Bytes) (bytes : Bytes) :
    (appended file bytes).getD [] = file.getD [] ++ bytes := rfl

theorem Kept.enrols (h : Kept env s) (hnow : s.now ≤ now)
    (hclean : Clean env s (.enrols request now)) (hstep : s.enrols env request now = some s') :
    Kept env s' := by
  unfold Provider.enrols at hstep
  obtain ⟨memory, hrunning, hstep⟩ := Option.bind_eq_some_iff.mp hstep
  obtain ⟨⟨record, result⟩, henrol, hstep⟩ := Option.bind_eq_some_iff.mp hstep
  cases result with
  | refused refusal reason =>
    cases hstep
    exact h.waits hnow (Or.inl rfl)
  | issued certificate =>
    cases hstep
    obtain ⟨rfl, hentitled, hperUser, hshared⟩ := h.issues hrunning hnow henrol
    obtain ⟨hwhole, hplain⟩ : Whole s ∧ PlainKey request.userKey := by
      rcases hclean with hrefused | hclean
      · rw [hentitled] at hrefused
        cases hrefused
      · exact hclean
    obtain ⟨text, hreads⟩ := h.text
    rw [Whole, hreads.textOf] at hwhole
    obtain ⟨entries, rfl, hwindow⟩ := h.memory memory hrunning
    refine ⟨?_, ?_, hperUser, hshared, ?_, ?_⟩
    · refine ⟨text ++ render env.fraction ⟨request.userKey, now⟩, ?_⟩
      refine hreads.more hnow (parse_append_render hwhole now hplain)
        (isWellFormed_render now hplain) ?_ ?_ rfl rfl
      · intro entry hentry
        rw [List.mem_singleton.mp hentry]
        exact ⟨hplain, now, rfl⟩
      · rw [getD_appended, hreads.bytes]
    · intro memory hmemory
      cases hmemory
      refine ⟨entries ++ [⟨request.userKey, now⟩], (remembering_append _ _).symm, ?_⟩
      rw [recentEntries_append, recentEntries_append,
        recentEntries_later (Int.cast_le.mpr hnow) hwindow]
    · exact h.returned.append (List.Sublist.refl _)
    · exact h.survived.append (List.Sublist.refl _)

/-! ## An append that breaks off -/

/-- Before the key, nothing is recorded. -/
theorem take_stamp (z : ℤ) {n : Nat} (hshort : n ≤ (stamp fraction z).length) :
    (textEncoder (render fraction ⟨userKey, z⟩)).take n = textEncoder ((stamp fraction z).take n) := by
  have hascii : Ascii (stamp fraction z) := ascii_stamp z
  have hwell := isWellFormed_ascii hascii
  have hlength := length_textEncoder hascii
  unfold render
  rw [(textEncoder_wellFormed hwell _).1, List.take_append_of_le_length (by rw [hlength]; omega)]
  exact take_textEncoder (ascii_stamp z) n

/-- After the key, the whole entry is. -/
theorem take_line (z : ℤ) (h : PlainKey userKey) {n : Nat}
    (hlong : (textEncoder (render fraction ⟨userKey, z⟩)).length ≤ n + 1) :
    (textEncoder (render fraction ⟨userKey, z⟩)).take n
        = textEncoder (stamp fraction z ++ userKey) ∨
      (textEncoder (render fraction ⟨userKey, z⟩)).take n
        = textEncoder (render fraction ⟨userKey, z⟩) := by
  have hline : render fraction ⟨userKey, z⟩ = (stamp fraction z ++ userKey) ++ [LF] :=
    (List.append_assoc _ _ _).symm
  have hencode : textEncoder (render fraction ⟨userKey, z⟩)
      = textEncoder (stamp fraction z ++ userKey) ++ textEncoder [LF] := by
    rw [hline]
    exact (textEncoder_wellFormed (isWellFormed_line z h) [LF]).1
  have hfeed : (textEncoder [LF]).length = 1 := rfl
  by_cases hall : (textEncoder (render fraction ⟨userKey, z⟩)).length ≤ n
  · exact Or.inr (List.take_of_length_le hall)
  · left
    rw [hencode, List.length_append, hfeed] at hlong hall
    rw [hencode, List.take_append_of_le_length (by omega), List.take_of_length_le (by omega)]

theorem length_stamp_lt (z : ℤ) (hne : userKey ≠ []) :
    (stamp fraction z).length + 1 < (textEncoder (render fraction ⟨userKey, z⟩)).length := by
  have hascii : Ascii (stamp fraction z) := ascii_stamp z
  have hwell := isWellFormed_ascii hascii
  have hlength := length_textEncoder hascii
  have hkey : 0 < userKey.length := List.length_pos_of_ne_nil hne
  have hrest := length_le_textEncoder (userKey ++ [LF])
  rw [List.length_append, List.length_singleton] at hrest
  unfold render
  rw [(textEncoder_wellFormed hwell _).1, List.length_append, hlength]
  show _ < _ + (textEncoder (userKey ++ [LF])).length
  omega

theorem Kept.enrolsAndDies (h : Kept env s) {written : Nat} (hnow : s.now ≤ now)
    (hclean : Clean env s (.enrolsAndDies request now written))
    (hstep : s.enrolsAndDies env request now written = some s') : Kept env s' := by
  unfold Provider.enrolsAndDies at hstep
  obtain ⟨memory, hrunning, hstep⟩ := Option.bind_eq_some_iff.mp hstep
  obtain ⟨⟨record, result⟩, henrol, hstep⟩ := Option.bind_eq_some_iff.mp hstep
  cases result with
  | refused refusal reason => cases hstep
  | issued certificate =>
    cases hstep
    obtain ⟨-, -, hperUser, hshared⟩ := h.issues hrunning hnow henrol
    obtain ⟨text, hreads⟩ := h.text
    have hattempted : s.survived.Sublist (s.attempted ++ [⟨request.userKey, now⟩]) :=
      h.survived.trans (List.sublist_append_left _ _)
    rcases hclean with rfl | ⟨hwhole, ⟨hne, hshort⟩ | ⟨hplain, hlong⟩⟩
    · -- nothing is written
      have hline := length_le_textEncoder (render env.fraction ⟨request.userKey, now⟩)
      have hnumber := List.length_pos_of_ne_nil (integerText_ne_nil now)
      have hlate : ¬ (textEncoder (render env.fraction ⟨request.userKey, now⟩)).length ≤ 0 + 1 := by
        simp only [render, stamp_intCast, List.length_append, List.length_singleton] at hline ⊢
        omega
      rw [if_neg hlate]
      refine ⟨⟨text ++ [], ?_⟩, (fun memory hmemory => by cases hmemory), h.perUser, h.shared,
        h.returned, hattempted⟩
      have hsame : parse (text ++ []) = parse text ++ [] := by
        rw [List.append_nil, List.append_nil]
      refine hreads.more hnow hsame rfl (fun entry hentry => by cases hentry) ?_
        rfl (List.append_nil _).symm
      rw [getD_appended, hreads.bytes, List.take_zero]
      rfl
    · rw [Whole, hreads.textOf] at hwhole
      have hearly : (stamp env.fraction now).length + 1 < _ := length_stamp_lt now hne
      rw [if_neg (by omega)]
      refine ⟨⟨text ++ (stamp env.fraction now).take written, ?_⟩,
        (fun memory hmemory => by cases hmemory), h.perUser, h.shared, h.returned, hattempted⟩
      have htail : LF ∉ (stamp env.fraction now).take written := fun hmem =>
        LF_notMem_stamp now (List.mem_of_mem_take hmem)
      have hparse := parse_append_tail hwhole htail
      rw [readEntry_stamp] at hparse
      refine hreads.more hnow hparse ?_ (fun entry hentry => by cases hentry) ?_ rfl
        (List.append_nil _).symm
      · apply isWellFormed_ascii
        exact fun u hu => ascii_stamp now u (List.mem_of_mem_take hu)
      · rw [getD_appended, hreads.bytes, take_stamp now hshort]
    · rw [Whole, hreads.textOf] at hwhole
      rw [if_pos hlong]
      have hentry : ∀ entry ∈ [(⟨request.userKey, now⟩ : Entry)], PlainEntry entry := by
        intro entry hentry
        rw [List.mem_singleton.mp hentry]
        exact ⟨hplain, now, rfl⟩
      have hreturned := h.returned.trans
        (List.sublist_append_left s.survived [(⟨request.userKey, now⟩ : Entry)])
      have hsurvived := h.survived.append (List.Sublist.refl [(⟨request.userKey, now⟩ : Entry)])
      refine ⟨?_, (fun memory hmemory => by cases hmemory), hperUser, hshared, hreturned, hsurvived⟩
      rcases take_line now hplain hlong with hline | hline
      · refine ⟨text ++ (stamp env.fraction now ++ request.userKey), ?_⟩
        have htail : LF ∉ stamp env.fraction now ++ request.userKey := LF_notMem_line now hplain
        have hparse := parse_append_tail hwhole htail
        rw [readEntry_plain now hplain] at hparse
        refine hreads.more hnow hparse (isWellFormed_line now hplain) hentry ?_ rfl rfl
        rw [getD_appended, hreads.bytes, hline]
      · refine ⟨text ++ render env.fraction ⟨request.userKey, now⟩, ?_⟩
        refine hreads.more hnow (parse_append_render hwhole now hplain)
          (isWellFormed_render now hplain) hentry ?_ rfl rfl
        rw [getD_appended, hreads.bytes, hline]

/-! ## A start -/

variable {retainMs : ℚ}

/-- A compaction keeps the window. -/
theorem recentEntries_kept {now : ℚ} (hretain : window ≤ retainMs) (entries : List Entry) :
    recentEntries window now
        (entries.filter fun entry => decide (now - retainMs < entry.issuedAt))
      = recentEntries window now entries := by
  unfold recentEntries
  rw [List.filter_filter]
  apply List.filter_congr
  intro entry _
  by_cases hlate : now - window < entry.issuedAt
  · have hkept : now - retainMs < entry.issuedAt := by linarith
    simp [hlate, hkept]
  · simp [hlate]

/-- What a start reads, and the file it leaves. -/
theorem Reads.opened (h : Reads env s text) (hretain : env.options.windowMs ≤ retainMs)
    (hnow : s.now ≤ now) {file : Option Bytes} {kept : List Entry}
    (hopened : opened env.fraction s.file retainMs now = (file, kept)) :
    recentEntries env.options.windowMs now kept
        = recentEntries env.options.windowMs now s.survived ∧
      ∃ text', ∀ running, Reads env { s with file := file, running := running, now := now } text' := by
  have htext := h.textOf
  have hsame : ∀ running, Reads env { s with running := running, now := now } text := fun running =>
    ⟨h.bytes, h.wellFormed, h.entries, h.later hnow⟩
  unfold FsIssuance.opened at hopened
  cases hfile : s.file with
  | none =>
    rw [hfile] at hopened htext
    cases hopened
    have hempty : text = [] := htext.symm
    have hlater := h.later hnow
    rw [hempty] at hlater
    refine ⟨hlater, text, fun running => ?_⟩
    have hreads := hsame running
    rw [hfile] at hreads
    exact hreads
  | some raw =>
    rw [hfile] at hopened htext
    have hraw : FsIssuance.textOf raw = text := htext
    simp only [hraw] at hopened
    have hwindow : recentEntries env.options.windowMs now _ = _ :=
      recentEntries_kept hretain (parse text)
    split at hopened
    · cases hopened
      have hplain : ∀ entry ∈ (parse text).filter
          (fun entry => decide ((now : ℚ) - retainMs < entry.issuedAt)), PlainEntry entry :=
        fun entry hentry => h.entries entry (List.mem_of_mem_filter hentry)
      obtain ⟨hparse, hwell, -⟩ := @parse_flatMap env.fraction _ hplain
      refine ⟨hwindow.trans (h.later hnow), _, fun running => ⟨rfl, hwell, ?_, ?_⟩⟩
      · rw [hparse]
        exact hplain
      · rw [hparse]
        exact hwindow.trans (h.later hnow)
    · cases hopened
      refine ⟨hwindow.trans (h.later hnow), text, fun running => ?_⟩
      have hreads := hsame running
      rw [hfile] at hreads
      exact hreads

theorem Kept.opens (h : Kept env s) (hretain : env.options.windowMs ≤ retainMs) (hnow : s.now ≤ now)
    (hstep : s.opens env retainMs now = some s') : Kept env s' := by
  unfold Provider.opens at hstep
  split at hstep
  · cases hstep
  · obtain ⟨text, hreads⟩ := h.text
    cases hopened : opened env.fraction s.file retainMs now with
    | mk file kept =>
      rw [hopened] at hstep
      cases hstep
      obtain ⟨hwindow, text', hreads'⟩ := hreads.opened hretain hnow hopened
      refine ⟨⟨text', hreads' _⟩, ?_, h.perUser, h.shared, h.returned, h.survived⟩
      intro memory hmemory
      cases hmemory
      exact ⟨kept, rfl, hwindow⟩

theorem Kept.opensAndDies (h : Kept env s) {renamed : Bool}
    (hretain : env.options.windowMs ≤ retainMs) (hnow : s.now ≤ now)
    (hstep : s.opensAndDies env retainMs now renamed = some s') : Kept env s' := by
  unfold Provider.opensAndDies at hstep
  split at hstep
  · cases hstep
  · next hrunning =>
    cases hstep
    have hnobody : ∀ memory, s.running = some memory → ∃ entries, memory = remembering entries ∧
        recentEntries env.options.windowMs now entries
          = recentEntries env.options.windowMs now s.survived := by
      intro memory hmemory
      rw [hrunning] at hmemory
      cases hmemory
    cases renamed with
    | false => exact h.waits hnow (Or.inl rfl)
    | true =>
      obtain ⟨text, hreads⟩ := h.text
      obtain ⟨-, text', hreads'⟩ := hreads.opened hretain hnow (Prod.eta _).symm
      exact ⟨⟨text', hreads' _⟩, hnobody, h.perUser, h.shared, h.returned, h.survived⟩

/-! ## Whole runs -/

theorem Kept.step (h : Kept env s) {e : Event} (hproper : Proper env s e) (hclean : Clean env s e)
    (hstep : s.step env e = some s') : Kept env s' := by
  cases e with
  | opens retainMs now => exact h.opens hproper.1 hproper.2 hstep
  | opensAndDies retainMs now renamed => exact h.opensAndDies hproper.1 hproper.2 hstep
  | enrols request now => exact h.enrols hproper hclean hstep
  | enrolsAndDies request now written => exact h.enrolsAndDies hproper hclean hstep
  | dies =>
    cases hstep
    exact h.waits (le_refl s.now) (Or.inr rfl)

/-- While every step is clean: a process that runs remembers of the window what was recorded
    before it and by it, which is everything whose `record` returned and, of what was broken off,
    what was written whole; and what was issued keeps both budgets in every window, over all
    processes. -/
theorem issuance_survives_restarts (env : Env) (first : ℤ)
    (h : Reaches (Provider.step env) (fun s e => Proper env s e ∧ Clean env s e)
      (Provider.start first) s) :
    Transparent env s ∧ s.returned.Sublist s.survived ∧ s.survived.Sublist s.attempted ∧
    (∀ userKey, Bounded env.options.windowMs env.options.maxPerWindow
      (timesOf s.returned userKey)) ∧
    ∀ limit, env.options.maxIssuedPerWindow = .perWindow limit →
      Bounded env.options.windowMs limit (s.returned.map Entry.issuedAt) := by
  have hkept : Kept env s := h.invariant (kept_start env first)
    fun _ _ _ hguard hkept hstep => hkept.step hguard.1 hguard.2 hstep
  refine ⟨?_, hkept.returned, hkept.survived, ?_, ?_⟩
  · intro memory hrunning now hnow
    obtain ⟨entries, rfl, hwindow⟩ := hkept.memory memory hrunning
    exact agrees_remembering (recentEntries_later (Int.cast_le.mpr hnow) hwindow)
  · intro userKey
    have hfewer : (timesOf s.returned userKey).Sublist (timesOf s.survived userKey) :=
      (hkept.returned.filter _).map _
    exact (hkept.perUser userKey).subperm hfewer.subperm
  · intro limit hlimit
    exact (hkept.shared limit hlimit).subperm (hkept.returned.map _).subperm

/-! ## A restart, and a torn line -/

instance (env : Env) (s : Provider) : (e : Event) → Decidable (Proper env s e)
  | .opens _ _ => inferInstanceAs (Decidable (_ ∧ _))
  | .opensAndDies _ _ _ => inferInstanceAs (Decidable (_ ∧ _))
  | .enrols _ _ => inferInstanceAs (Decidable (_ ≤ _))
  | .enrolsAndDies _ _ _ => inferInstanceAs (Decidable (_ ≤ _))
  | .dies => instDecidableTrue

instance (env : Env) (s : Provider) : (e : Event) → Decidable (Clean env s e)
  | .opens _ _ => instDecidableTrue
  | .opensAndDies _ _ _ => instDecidableTrue
  | .enrols _ _ => inferInstanceAs (Decidable (_ ∨ _ ∧ _))
  | .enrolsAndDies _ _ _ => inferInstanceAs (Decidable (_ ∨ _ ∧ (_ ∧ _ ∨ _ ∧ _)))
  | .dies => instDecidableTrue

/-- A provider that takes every proof, and issues three certificates in an hour. -/
def plainEnv : Env where
  platform := plain
  options := {
    keys := ⟨js "provider", fun _ => [], none, fun _ _ _ => true⟩
    maxIssuedPerWindow := .perWindow 3 }
  fraction := fun _ => []

def plainRequest (userKey : JsString) : EnrollmentRequest where
  nodeKey := js "b1"
  userKey := userKey
  operatorId := operatorIdFor userKey
  discoverability := .seed
  relayIds := []
  proofOfPossession := []
  ownerProof := []
  freshness := .answersNoChallenge

/-- A provider dies between an enrolment and the next, and remembers the first. -/
theorem survives_one_restart :
    ∃ s : Provider, s.returned = [⟨js "a7c0", 2000⟩, ⟨js "d314", 6000⟩] ∧
      Transparent plainEnv s := by
  let events : List Event :=
    [.opens 3600000 1000, .enrols (plainRequest (js "a7c0")) 2000, .dies, .opens 3600000 5000,
      .enrols (plainRequest (js "d314")) 6000, .enrolsAndDies (plainRequest (js "a7c0")) 7000 3,
      .opens 3600000 8000]
  have hcomputed : (runWhere (Provider.step plainEnv)
      (fun s e => Proper plainEnv s e ∧ Clean plainEnv s e) (Provider.start 0) events).map
      Provider.returned = some [⟨js "a7c0", 2000⟩, ⟨js "d314", 6000⟩] := by decide +kernel
  obtain ⟨s, hrun, hreturned⟩ := Option.map_eq_some_iff.mp hcomputed
  exact ⟨s, hreturned, (issuance_survives_restarts plainEnv 0 (Reaches.of_runWhere hrun)).1⟩

/-- A line that is torn in its key takes the next one with it. -/
theorem torn_line_loses_next : ¬ ∀ (env : Env) (first : ℤ) (s : Provider),
    Reaches (Provider.step env) (Proper env) (Provider.start first) s → Transparent env s := by
  intro hall
  let events : List Event :=
    [.opens 3600000 1000, .enrolsAndDies (plainRequest (js "a7c0")) 2000 7, .opens 3600000 3000,
      .enrols (plainRequest (js "d314")) 4000, .dies, .opens 3600000 5000]
  have hcomputed : (runWhere (Provider.step plainEnv) (Proper plainEnv) (Provider.start 0)
      events).map (fun s => (s.now, s.survived, s.running.map fun m => m.issuedTo (js "d314")))
        = some (5000, [⟨js "d314", 4000⟩], some []) := by decide +kernel
  obtain ⟨s, hrun, hstate⟩ := Option.map_eq_some_iff.mp hcomputed
  obtain ⟨hnow, hrest⟩ := Prod.mk.inj hstate
  obtain ⟨hsurvived, hmemory⟩ := Prod.mk.inj hrest
  obtain ⟨memory, hrunning, hnone⟩ := Option.map_eq_some_iff.mp hmemory
  have hagrees := hall plainEnv 0 s (Reaches.of_runWhere hrun) memory hrunning 5000 (by omega)
  have hsame := hagrees.issuedTo (js "d314")
  rw [hnone, hsurvived] at hsame
  exact absurd hsame (by decide +kernel)

end O2Fabric.Node.FsIssuance
