/-
  O2Fabric.Node.SovereignCids

  The CIDs a node must not serve, one to a line of a file that is appended to,
  and read once where it is opened.

  Any number of processes open the file.  An append is one event: a process
  that dies in the middle of one leaves the beginning of the line behind.
-/

import O2Fabric.Js.Trim
import O2Fabric.Lib.Lines
import O2Fabric.Lib.Modify
import O2Fabric.Lib.Steps

namespace O2Fabric.Node

open Lines

/-- The text of a CID: there is some, and none of it is white space. -/
structure CidText where
  text : JsString
  ne_nil : text ≠ []
  plain : ∀ u ∈ text, isSpace u = false

/-- `.map((line) => line.trim()).filter((line) => line.length > 0)`, for one line. -/
def readLine (line : JsString) : Option JsString := if trim line = [] then none else some (trim line)

def knownOf (text : JsString) : List JsString := records LF readLine text

/-- What `add` appends. -/
def cidLine (cid : CidText) : JsString := cid.text ++ [LF]

/-- A set that was opened. -/
structure FsSovereignCids where
  known : List JsString
  /-- The CIDs it has been told to add whose lines are not written yet. -/
  adding : List CidText
  alive : Bool
  /-- The CIDs whose `add` had resolved when it was opened. -/
  before : List CidText

def FsSovereignCids.has (set : FsSovereignCids) (cid : CidText) : Bool := set.known.contains cid.text

/-- The file, the sets that were opened, and the CIDs whose `add` has resolved.  A file that is
    not there is an empty one. -/
structure SovereignFile where
  text : JsString
  opened : List FsSovereignCids
  resolved : List CidText

namespace SovereignFile

def start (text : JsString) : SovereignFile := ⟨text, [], []⟩

variable (s : SovereignFile)

/-- `FsSovereignCids.open(dir)`. -/
def opens : SovereignFile :=
  { s with opened := s.opened ++ [⟨knownOf s.text, [], true, s.resolved⟩] }

/-- `add(cid)` up to its append. -/
def adds (i : Nat) (cid : CidText) : Option SovereignFile := do
  let set ← s.opened[i]?
  if !set.alive then none
  else if set.has cid then some { s with resolved := cid :: s.resolved }
  else some { s with opened := s.opened.set i { set with adding := set.adding ++ [cid] } }

def appends (i k : Nat) : Option SovereignFile := do
  let set ← s.opened[i]?
  let cid ← set.adding[k]?
  if !set.alive then none
  else some {
    text := s.text ++ cidLine cid
    opened := s.opened.set i
      { set with known := cid.text :: set.known, adding := set.adding.eraseIdx k }
    resolved := cid :: s.resolved }

/-- The process dies in the middle of an append. -/
def tears (i k written : Nat) : Option SovereignFile := do
  let set ← s.opened[i]?
  let cid ← set.adding[k]?
  if !set.alive then none
  else some { s with
    text := s.text ++ (cidLine cid).take written
    opened := s.opened.set i { set with alive := false } }

def dies (i : Nat) : Option SovereignFile := do
  let set ← s.opened[i]?
  some { s with opened := s.opened.set i { set with alive := false } }

inductive Event
  | opens
  | adds (set : Nat) (cid : CidText)
  | appends (set line : Nat)
  | tears (set line written : Nat)
  | dies (set : Nat)

def step (s : SovereignFile) : Event → Option SovereignFile
  | .opens => some s.opens
  | .adds i cid => s.adds i cid
  | .appends i k => s.appends i k
  | .tears i k written => s.tears i k written
  | .dies i => s.dies i

end SovereignFile

end O2Fabric.Node

/-! # Torn

What is lost to a torn line.

A torn line is harmless until something is appended to it: the next line is
then read as its end, and a CID whose `add` has resolved is no longer in the
file.  As long as nothing is, a text only gains what is appended to it.
-/

namespace O2Fabric.Node

open Lines O2Fabric.Steps

namespace SovereignFile

variable {s s' : SovereignFile} {first : JsString}

/-- Every set answers for the CIDs that were resolved before it was opened. -/
def Remembers (s : SovereignFile) : Prop :=
  ∀ set ∈ s.opened, ∀ cid ∈ set.before, set.has cid = true

/-- Nothing is appended to a torn line. -/
def Clean (s : SovereignFile) : Event → Prop
  | .appends _ _ => Complete LF s.text
  | .tears _ _ written => written = 0 ∨ Complete LF s.text
  | _ => True

/-- What is resolved, and what a set knows, is in the file. -/
structure Written (s : SovereignFile) : Prop where
  resolved : ∀ cid ∈ s.resolved, cid.text ∈ knownOf s.text
  known : ∀ set ∈ s.opened, ∀ text ∈ set.known, text ∈ knownOf s.text
  before : ∀ set ∈ s.opened, ∀ cid ∈ set.before, cid.text ∈ set.known

/-! ## One line -/

theorem readLine_nil : readLine [] = none := by decide

theorem LF_notMem (cid : CidText) : LF ∉ cid.text := by
  intro hmem
  have hspace : isSpace LF = true := by decide
  rw [cid.plain LF hmem] at hspace
  cases hspace

theorem readLine_cid (cid : CidText) : readLine cid.text = some cid.text := by
  unfold readLine
  rw [trim_plain cid.plain, if_neg cid.ne_nil]

variable {text : JsString}

theorem knownOf_append (h : Complete LF text) (more : JsString) :
    knownOf (text ++ more) = knownOf text ++ knownOf more :=
  records_append readLine_nil h

theorem knownOf_cidLine (cid : CidText) : knownOf (cidLine cid) = [cid.text] := by
  unfold knownOf cidLine
  rw [records_line readLine_nil (LF_notMem cid), readLine_cid]
  rfl

/-! ## One event -/

variable {i : Nat}

/-- The file gains, and one set changes without knowing more than the file. -/
theorem Written.set {set set' : FsSovereignCids} {resolved : List CidText} (h : Written s)
    (hset : s.opened[i]? = some set) (hmore : ∀ line ∈ knownOf s.text, line ∈ knownOf text)
    (hresolved : ∀ cid ∈ resolved, cid.text ∈ knownOf text)
    (hknown : ∀ line ∈ set'.known, line ∈ knownOf text)
    (hkeeps : ∀ line ∈ set.known, line ∈ set'.known) (hbefore : set'.before = set.before) :
    Written ⟨text, s.opened.set i set', resolved⟩ := by
  have hmem : set ∈ s.opened := List.mem_of_getElem? hset
  refine ⟨hresolved, ?_, ?_⟩
  · intro other hother line hline
    rcases List.mem_or_eq_of_mem_set hother with hold | rfl
    · exact hmore line (h.known other hold line hline)
    · exact hknown line hline
  · intro other hother cid hcid
    rcases List.mem_or_eq_of_mem_set hother with hold | rfl
    · exact h.before other hold cid hcid
    · rw [hbefore] at hcid
      exact hkeeps _ (h.before set hmem cid hcid)

theorem Written.opens (h : Written s) : Written s.opens := by
  refine ⟨h.resolved, ?_, ?_⟩
  · intro set hset line hline
    rcases List.mem_append.mp hset with hold | hnew
    · exact h.known set hold line hline
    · rw [List.mem_singleton.mp hnew] at hline
      exact hline
  · intro set hset cid hcid
    rcases List.mem_append.mp hset with hold | hnew
    · exact h.before set hold cid hcid
    · rw [List.mem_singleton.mp hnew] at hcid ⊢
      exact h.resolved cid hcid

theorem Written.adds {cid : CidText} (h : Written s) (hstep : s.adds i cid = some s') :
    Written s' := by
  unfold SovereignFile.adds at hstep
  obtain ⟨set, hset, hstep⟩ := Option.bind_eq_some_iff.mp hstep
  have hmem : set ∈ s.opened := List.mem_of_getElem? hset
  split at hstep
  · cases hstep
  · split at hstep
    next hhas =>
      cases hstep
      refine ⟨?_, h.known, h.before⟩
      intro other hother
      rcases List.mem_cons.mp hother with rfl | hold
      · -- it is known, so its line is there
        exact h.known set hmem _ (List.contains_iff_mem.mp hhas)
      · exact h.resolved other hold
    · cases hstep
      exact h.set hset (fun _ => id) h.resolved (h.known set hmem) (fun _ => id) rfl

theorem Written.appends {k : Nat} (h : Written s) (hcomplete : Complete LF s.text)
    (hstep : s.appends i k = some s') : Written s' := by
  unfold SovereignFile.appends at hstep
  obtain ⟨set, hset, hstep⟩ := Option.bind_eq_some_iff.mp hstep
  obtain ⟨cid, -, hstep⟩ := Option.bind_eq_some_iff.mp hstep
  have hmem : set ∈ s.opened := List.mem_of_getElem? hset
  have hread : knownOf (s.text ++ cidLine cid) = knownOf s.text ++ [cid.text] := by
    rw [knownOf_append hcomplete, knownOf_cidLine]
  split at hstep
  · cases hstep
  · cases hstep
    refine h.set hset ?_ ?_ ?_ (fun _ => List.mem_cons_of_mem _) rfl
    · intro line hline
      rw [hread]
      exact List.mem_append_left _ hline
    · intro other hother
      rw [hread]
      rcases List.mem_cons.mp hother with rfl | hold
      · exact List.mem_append_right _ List.mem_cons_self
      · exact List.mem_append_left _ (h.resolved other hold)
    · intro line hline
      rw [hread]
      rcases List.mem_cons.mp hline with rfl | hold
      · exact List.mem_append_right _ List.mem_cons_self
      · exact List.mem_append_left _ (h.known set hmem line hold)

theorem Written.tears {k written : Nat} (h : Written s)
    (hcomplete : written = 0 ∨ Complete LF s.text) (hstep : s.tears i k written = some s') :
    Written s' := by
  unfold SovereignFile.tears at hstep
  obtain ⟨set, hset, hstep⟩ := Option.bind_eq_some_iff.mp hstep
  obtain ⟨cid, -, hstep⟩ := Option.bind_eq_some_iff.mp hstep
  have hmem : set ∈ s.opened := List.mem_of_getElem? hset
  have hmore : ∀ line ∈ knownOf s.text,
      line ∈ knownOf (s.text ++ (cidLine cid).take written) := by
    intro line hline
    rcases hcomplete with rfl | hcomplete
    · rw [List.take_zero, List.append_nil]
      exact hline
    · rw [knownOf_append hcomplete]
      exact List.mem_append_left _ hline
  split at hstep
  · cases hstep
  · cases hstep
    exact h.set hset hmore (fun other hother => hmore _ (h.resolved other hother))
      (fun line hline => hmore line (h.known set hmem line hline)) (fun _ => id) rfl

theorem Written.dies (h : Written s) (hstep : s.dies i = some s') : Written s' := by
  unfold SovereignFile.dies at hstep
  obtain ⟨set, hset, hstep⟩ := Option.bind_eq_some_iff.mp hstep
  cases hstep
  exact h.set hset (fun _ => id) h.resolved (h.known set (List.mem_of_getElem? hset)) (fun _ => id) rfl

/-! ## Whole runs -/

/-- As long as nothing is appended to a torn line, a set answers for every CID whose `add` had
    resolved when it was opened, and it can always be opened. -/
theorem remembers_while_clean (first : JsString) (s : SovereignFile)
    (h : Reaches step Clean (start first) s) : Remembers s ∧ ∃ s', step s .opens = some s' := by
  have hwritten : Written s := by
    refine h.invariant ⟨List.forall_mem_nil _, List.forall_mem_nil _, List.forall_mem_nil _⟩ ?_
    intro s e s' hclean hwritten hstep
    cases e with
    | opens =>
      cases hstep
      exact hwritten.opens
    | adds i cid => exact hwritten.adds hstep
    | appends i k => exact hwritten.appends hclean hstep
    | tears i k written => exact hwritten.tears hclean hstep
    | dies i => exact hwritten.dies hstep
  refine ⟨?_, s.opens, rfl⟩
  intro set hset cid hcid
  exact List.contains_iff_mem.mpr (hwritten.before set hset cid hcid)

/-! ## A torn line at the end, and one in the middle -/

instance (s : SovereignFile) : (e : Event) → Decidable (Clean s e)
  | .opens => instDecidableTrue
  | .adds _ _ => instDecidableTrue
  | .appends _ _ => inferInstanceAs (Decidable (Complete _ _))
  | .tears _ _ _ => inferInstanceAs (Decidable (_ ∨ Complete _ _))
  | .dies _ => instDecidableTrue

theorem plain_of_all (h : text.all (fun u => !isSpace u) = true) :
    ∀ u ∈ text, isSpace u = false := by
  intro u hu
  simpa using List.all_eq_true.mp h u hu

def oneCid : CidText := ⟨js "bafyone", by decide, plain_of_all (by decide)⟩

def otherCid : CidText := ⟨js "bafytwo", by decide, plain_of_all (by decide)⟩

/-- A line is torn after one is written, and the file is opened again. -/
theorem remembers_past_torn_end : ∃ s, Reaches step Clean (start []) s ∧
    s.opened.map (fun set => set.has oneCid) = [true, true] ∧ Remembers s := by
  have hcomputed : (runWhere step Clean (start [])
      [.opens, .adds 0 oneCid, .appends 0 0, .adds 0 otherCid, .tears 0 0 4, .opens]).map
      (fun s => s.opened.map fun set => set.has oneCid) = some [true, true] := by decide
  obtain ⟨s, hrun, hhas⟩ := Option.map_eq_some_iff.mp hcomputed
  have hreaches : Reaches step Clean (start []) s := Reaches.of_runWhere hrun
  exact ⟨s, hreaches, hhas, (remembers_while_clean [] s hreaches).1⟩

/-- A CID that is added after a torn line is forgotten. -/
theorem torn_line_forgets : ¬ ∀ s, Reaches step anything (start []) s → Remembers s := by
  intro hall
  have hcomputed : (run step (start [])
      [.opens, .adds 0 oneCid, .tears 0 0 4, .opens, .adds 1 otherCid, .appends 1 0, .opens]).map
      (fun s => s.opened.map fun set => (set.before.map CidText.text, set.has otherCid))
      = some [([], false), ([], true), ([otherCid.text], false)] := by decide
  obtain ⟨s, hrun, hsets⟩ := Option.map_eq_some_iff.mp hcomputed
  have hreaches : Reaches step anything (start []) s := Reaches.of_run (fun _ _ _ => trivial) hrun
  -- the last set that was opened, after the `add` had resolved
  have hlast : ([otherCid.text], false) ∈
      s.opened.map fun set => (set.before.map CidText.text, set.has otherCid) := by
    rw [hsets]
    exact List.mem_cons_of_mem _ (List.mem_cons_of_mem _ List.mem_cons_self)
  obtain ⟨set, hset, hboth⟩ := List.mem_map.mp hlast
  rw [Prod.mk.injEq] at hboth
  obtain ⟨hbefore, hnot⟩ := hboth
  obtain ⟨cid, hcid, htext⟩ := List.map_eq_singleton_iff.mp hbefore
  have hhas := hall s hreaches set hset cid (hcid ▸ List.mem_cons_self)
  have hsame : set.has cid = set.has otherCid := by
    unfold FsSovereignCids.has
    rw [htext]
  rw [hsame, hnot] at hhas
  cases hhas

end SovereignFile

end O2Fabric.Node
