/-
  O2Fabric.Node.FsBlockstore

  A directory of blocks, one file a block, and the counter that is its size.

  A block is written under a temporary name and renamed, so a crash leaves no
  half-written block.  The check for the block, the write, the rename and the
  counter are separated by awaits, and nothing keeps two puts of one block
  apart between them.
-/

import Mathlib.Data.Set.Card
import O2Fabric.Js.Text
import O2Fabric.Lib.InsertionMap
import O2Fabric.Lib.Modify
import O2Fabric.Lib.Steps

namespace O2Fabric.FsBlockstore

open Steps

abbrev Bytes := List (Fin 256)

/-- The files of a directory by their names. -/
abbrev Directory := InsertionMap JsString Bytes

/-- The code unit of the full stop. -/
def DOT : CodeUnit := 46

/-- `name.startsWith('.')`. -/
def hidden (name : JsString) : Bool := decide (name.head? = some DOT)

/-- `.tmp-${process.pid}-${this.#tmpSeq++}`. -/
def tmpName (pid seq : Nat) : JsString := js ".tmp-" ++ decimal pid ++ js "-" ++ decimal seq

/-- What a block's file is called: its CID in base32, which begins with the letter
    of that base. -/
def pathFor (digest : Bytes → JsString) (bytes : Bytes) : JsString := 98 :: digest bytes

/-- The entries `open` counts. -/
def blocks (files : Directory) : List JsString := files.keys.filter fun name => !hidden name

structure Store where
  pid : Nat
  count : Nat
  tmpSeq : Nat := 0

inductive Stage
  | hashing
  /-- `has` reads the target. -/
  | checking
  | checked (found : Bool)
  | writing (tmp : JsString)
  | written (tmp : JsString)
  | renamed
  /-- It has resolved or rejected. -/
  | done
  deriving DecidableEq

/-- The temporary file a put has in use. -/
def Stage.tmp? : Stage → Option JsString
  | .writing tmp => some tmp
  | .written tmp => some tmp
  | _ => none

/-- The put has found its block missing, and its own file is not in place yet. -/
def Stage.pending : Stage → Bool
  | .checked false => true
  | .writing _ => true
  | .written _ => true
  | _ => false

structure Put where
  bytes : Bytes
  stage : Stage := .hashing

/-- A directory, and the one store that has it open. -/
structure State where
  files : Directory := .empty
  store : Option Store := none
  puts : List Put := []

def State.quiet (s : State) : Prop := ∀ p ∈ s.puts, p.stage = .done

instance (s : State) : Decidable s.quiet := inferInstanceAs (Decidable (∀ p ∈ s.puts, _))

def State.get (s : State) (name : JsString) : Option Bytes := s.files.get? name

inductive Event
  | opens (pid : Nat)
  | crashes
  | puts (bytes : Bytes)
  | hashes (i : Nat)
  /-- `readFile` finds the target, or finds none. -/
  | looks (i : Nat)
  | resumes (i : Nat)
  /-- The temporary file has been created, or truncated, and some bytes have reached it. -/
  | spills (i : Nat) (content : Bytes)
  | writes (i : Nat)
  | renames (i : Nat)
  | counts (i : Nat)
  /-- What the put awaits is rejected. -/
  | fails (i : Nat)
  /-- Another module writes a file that is no block. -/
  | hides (name : JsString) (content : Bytes)

def moved (s : State) (i : Nat) (p : Put) (stage : Stage) : State :=
  { s with puts := s.puts.set i { p with stage } }

def step (digest : Bytes → JsString) (s : State) : Event → Option State
  | .opens pid =>
    if s.quiet then some { s with store := some ⟨pid, (blocks s.files).length, 0⟩ } else none
  | .crashes => some { s with store := none, puts := [] }
  | .puts bytes => if s.store.isSome then some { s with puts := s.puts ++ [{ bytes }] } else none
  | .hashes i => s.puts[i]?.bind fun p =>
    if p.stage = .hashing then some (moved s i p .checking) else none
  | .looks i => s.puts[i]?.bind fun p =>
    if p.stage = .checking then
      some (moved s i p (.checked (s.files.has (pathFor digest p.bytes))))
    else none
  | .resumes i => s.puts[i]?.bind fun p =>
    match p.stage, s.store with
    | .checked true, _ => some (moved s i p .done)
    | .checked false, some store =>
      some { moved s i p (.writing (tmpName store.pid store.tmpSeq)) with
        store := some { store with tmpSeq := store.tmpSeq + 1 } }
    | _, _ => none
  | .spills i content => s.puts[i]?.bind fun p =>
    match p.stage with
    | .writing tmp => some { s with files := s.files.set tmp content }
    | _ => none
  | .writes i => s.puts[i]?.bind fun p =>
    match p.stage with
    | .writing tmp =>
      some { moved s i p (.written tmp) with files := s.files.set tmp p.bytes }
    | _ => none
  | .renames i => s.puts[i]?.bind fun p =>
    match p.stage with
    | .written tmp => (s.files.get? tmp).map fun content =>
      { moved s i p .renamed with
        files := (s.files.delete tmp).set (pathFor digest p.bytes) content }
    | _ => none
  | .counts i => s.puts[i]?.bind fun p =>
    if p.stage = .renamed then
      some { moved s i p .done with
        store := s.store.map fun store => { store with count := store.count + 1 } }
    else none
  | .fails i => s.puts[i]?.bind fun p =>
    if p.stage ≠ .renamed then some (moved s i p .done) else none
  | .hides name content =>
    if hidden name ∧ ¬ js ".tmp-" <+: name then some { s with files := s.files.set name content }
    else none

def start : State := {}

/-! ## Names -/

theorem hidden_tmpName (pid seq : Nat) : hidden (tmpName pid seq) = true := rfl

theorem hidden_pathFor (digest : Bytes → JsString) (bytes : Bytes) :
    hidden (pathFor digest bytes) = false := rfl

/-- A store's temporary names are told apart by their numbers. -/
theorem tmpName_inj {pid seq seq' : Nat} (h : tmpName pid seq = tmpName pid seq') : seq = seq' :=
  decimal_injective (List.append_cancel_left h)

theorem tmpName_begins (pid seq : Nat) : js ".tmp-" <+: tmpName pid seq :=
  ⟨decimal pid ++ js "-" ++ decimal seq, by simp [tmpName, List.append_assoc]⟩

variable {name : JsString}

theorem ne_of_hidden {name' : JsString} (h : hidden name = true) (h' : hidden name' = false) :
    name ≠ name' := by
  rintro rfl
  rw [h] at h'
  cases h'

/-! ## What holds in every run -/

variable {digest : Bytes → JsString} {s s' : State}

/-- Whatever can be read under a block's name hashes to that name. -/
def Intact (digest : Bytes → JsString) (files : Directory) : Prop :=
  ∀ name content, files.get? name = some content → hidden name = false →
    pathFor digest content = name

structure Sound (digest : Bytes → JsString) (s : State) : Prop where
  intact : Intact digest s.files
  temps : ∀ (i : Nat) (p : Put) (tmp : JsString), s.puts[i]? = some p → p.stage.tmp? = some tmp →
    ∃ store, s.store = some store ∧ ∃ seq < store.tmpSeq, tmp = tmpName store.pid seq
  apart : ∀ (i j : Nat) (p q : Put) (tmp : JsString), s.puts[i]? = some p → s.puts[j]? = some q →
    p.stage.tmp? = some tmp → q.stage.tmp? = some tmp → i = j
  whole : ∀ (i : Nat) (p : Put) (tmp : JsString), s.puts[i]? = some p → p.stage = .written tmp →
    s.files.get? tmp = some p.bytes

variable {files : Directory}

/-- A file that is no block is written. -/
theorem Intact.set_hidden (h : Intact digest files) (hname : hidden name = true) (content : Bytes) :
    Intact digest (files.set name content) := by
  intro name' content' hget hblock
  rw [InsertionMap.get?_set, if_neg (ne_of_hidden hname hblock).symm] at hget
  exact h name' content' hget hblock

variable {i : Nat} {p : Put}

/-- A put goes on: with the temporary file it has, or with none. -/
theorem Sound.move (h : Sound digest s) {stage : Stage} (hi : s.puts[i]? = some p)
    (hintact : Intact digest files) (htmp : stage.tmp? = none ∨ stage.tmp? = p.stage.tmp?)
    (hhere : ∀ tmp, stage = .written tmp → files.get? tmp = some p.bytes)
    (hthere : ∀ tmp, hidden tmp = true → p.stage.tmp? ≠ some tmp →
      files.get? tmp = s.files.get? tmp) :
    Sound digest { moved s i p stage with files } := by
  have hold : ∀ tmp, stage.tmp? = some tmp → p.stage.tmp? = some tmp := by
    intro tmp hstage
    rcases htmp with hnone | hsame
    · rw [hnone] at hstage
      cases hstage
    · exact hsame.symm.trans hstage
  -- Whatever a put has in use now, it had in use before.
  have hbefore : ∀ (j : Nat) (q : Put) (tmp : JsString),
      (s.puts.set i { p with stage })[j]? = some q → q.stage.tmp? = some tmp →
        ∃ q', s.puts[j]? = some q' ∧ q'.stage.tmp? = some tmp := by
    intro j q tmp hj hq
    rcases Modify.getElem?_set_cases hi hj with ⟨rfl, rfl⟩ | ⟨-, hj'⟩
    · exact ⟨p, hi, hold tmp hq⟩
    · exact ⟨q, hj', hq⟩
  refine ⟨hintact, ?_, ?_, ?_⟩
  · intro j q tmp hj hq
    obtain ⟨q', hj', hq'⟩ := hbefore j q tmp hj hq
    exact h.temps j q' tmp hj' hq'
  · intro j k q r tmp hj hk hq hr
    obtain ⟨q', hj', hq'⟩ := hbefore j q tmp hj hq
    obtain ⟨r', hk', hr'⟩ := hbefore k r tmp hk hr
    exact h.apart j k q' r' tmp hj' hk' hq' hr'
  · intro j q tmp hj hq
    rcases Modify.getElem?_set_cases hi hj with ⟨rfl, rfl⟩ | ⟨hne, hj'⟩
    · exact hhere tmp hq
    · have htemp : q.stage.tmp? = some tmp := by rw [hq]; rfl
      obtain ⟨store, -, seq, -, rfl⟩ := h.temps j q tmp hj' htemp
      have hother : p.stage.tmp? ≠ some (tmpName store.pid seq) := by
        intro hsame
        exact hne (h.apart j i q p _ hj' hi htemp hsame)
      show files.get? _ = _
      rw [hthere _ (hidden_tmpName _ _) hother]
      exact h.whole j q _ hj' hq

/-- A put takes the next temporary name. -/
theorem Sound.takes (h : Sound digest s) {store : Store} (hi : s.puts[i]? = some p)
    (hstore : s.store = some store) :
    Sound digest
      { moved s i p (.writing (tmpName store.pid store.tmpSeq)) with
        store := some { store with tmpSeq := store.tmpSeq + 1 } } := by
  have hseq : ∀ (j : Nat) (q : Put) (tmp : JsString), (s.puts.set i { p with
        stage := .writing (tmpName store.pid store.tmpSeq) })[j]? = some q →
      q.stage.tmp? = some tmp → (j = i ∧ tmp = tmpName store.pid store.tmpSeq) ∨
        (j ≠ i ∧ s.puts[j]? = some q ∧ ∃ seq < store.tmpSeq, tmp = tmpName store.pid seq) := by
    intro j q tmp hj hq
    rcases Modify.getElem?_set_cases hi hj with ⟨rfl, rfl⟩ | ⟨hne, hj'⟩
    · exact Or.inl ⟨rfl, (Option.some.inj hq).symm⟩
    · obtain ⟨store', hstore', seq, hbound, rfl⟩ := h.temps j q tmp hj' hq
      rw [hstore] at hstore'
      cases hstore'
      exact Or.inr ⟨hne, hj', seq, hbound, rfl⟩
  refine ⟨h.intact, ?_, ?_, ?_⟩
  · intro j q tmp hj hq
    refine ⟨_, rfl, ?_⟩
    rcases hseq j q tmp hj hq with ⟨-, rfl⟩ | ⟨-, -, seq, hbound, rfl⟩
    · exact ⟨store.tmpSeq, Nat.lt_succ_self _, rfl⟩
    · exact ⟨seq, Nat.lt_succ_of_lt hbound, rfl⟩
  · intro j k q r tmp hj hk hq hr
    rcases hseq j q tmp hj hq with ⟨rfl, htmp⟩ | ⟨hne, hj', seq, hbound, htmp⟩
    · rcases hseq k r tmp hk hr with ⟨rfl, -⟩ | ⟨-, -, seq, hbound, htmp'⟩
      · rfl
      · have hsame := tmpName_inj (htmp.symm.trans htmp')
        omega
    · rcases hseq k r tmp hk hr with ⟨rfl, htmp'⟩ | ⟨hne', hk', -⟩
      · have hsame := tmpName_inj (htmp.symm.trans htmp')
        omega
      · exact h.apart j k q r tmp hj' hk' hq hr
  · intro j q tmp hj hq
    rcases Modify.getElem?_set_cases hi hj with ⟨rfl, rfl⟩ | ⟨-, hj'⟩
    · cases hq
    · exact h.whole j q tmp hj' hq

theorem step_sound {event : Event} (h : Sound digest s) (hstep : step digest s event = some s') :
    Sound digest s' := by
  cases event with
  | opens pid =>
    obtain ⟨hquiet, hs⟩ := Option.ite_none_right_eq_some.mp hstep
    cases hs
    have hnone : ∀ (i : Nat) (p : Put) (tmp : JsString), s.puts[i]? = some p →
        p.stage.tmp? ≠ some tmp := by
      intro i p tmp hi
      rw [hquiet p (List.mem_of_getElem? hi)]
      nofun
    exact ⟨h.intact, fun i p tmp hi hp => absurd hp (hnone i p tmp hi), h.apart, h.whole⟩
  | crashes =>
    cases hstep
    exact ⟨h.intact, nofun, nofun, nofun⟩
  | puts bytes =>
    obtain ⟨-, hs⟩ := Option.ite_none_right_eq_some.mp hstep
    cases hs
    -- The new put has no temporary file.
    have hold : ∀ (i : Nat) (p : Put), (s.puts ++ [⟨bytes, .hashing⟩])[i]? = some p →
        p.stage ≠ .hashing →
        s.puts[i]? = some p := by
      intro i p hi hp
      rw [List.getElem?_append] at hi
      split at hi
      · exact hi
      · rw [List.getElem?_singleton] at hi
        split at hi <;> cases hi
        exact absurd rfl hp
    have htmp : ∀ (p : Put) (tmp : JsString), p.stage.tmp? = some tmp → p.stage ≠ .hashing := by
      intro p tmp hp hstage
      rw [hstage] at hp
      cases hp
    refine ⟨h.intact, ?_, ?_, ?_⟩
    · intro i p tmp hi hp
      exact h.temps i p tmp (hold i p hi (htmp p tmp hp)) hp
    · intro i j p q tmp hi hj hp hq
      exact h.apart i j p q tmp (hold i p hi (htmp p tmp hp)) (hold j q hj (htmp q tmp hq)) hp hq
    · intro i p tmp hi hp
      exact h.whole i p tmp (hold i p hi (by rw [hp]; nofun)) hp
  | hashes i =>
    obtain ⟨p, hi, hp⟩ := Option.bind_eq_some_iff.mp hstep
    obtain ⟨-, hs⟩ := Option.ite_none_right_eq_some.mp hp
    cases hs
    exact h.move hi h.intact (Or.inl rfl) nofun fun _ _ _ => rfl
  | looks i =>
    obtain ⟨p, hi, hp⟩ := Option.bind_eq_some_iff.mp hstep
    obtain ⟨-, hs⟩ := Option.ite_none_right_eq_some.mp hp
    cases hs
    exact h.move hi h.intact (Or.inl rfl) nofun fun _ _ _ => rfl
  | resumes i =>
    obtain ⟨p, hi, hp⟩ := Option.bind_eq_some_iff.mp hstep
    split at hp
    · cases hp
      exact h.move hi h.intact (Or.inl rfl) nofun fun _ _ _ => rfl
    · next store _ hstore =>
      cases hp
      exact h.takes hi hstore
    · cases hp
  | spills i content =>
    obtain ⟨p, hi, hp⟩ := Option.bind_eq_some_iff.mp hstep
    split at hp
    · next tmp hstage =>
      cases hp
      have htmp : p.stage.tmp? = some tmp := by rw [hstage]; rfl
      obtain ⟨store, -, seq, -, rfl⟩ := h.temps i p tmp hi htmp
      have hsame : s.puts.set i { p with stage := p.stage } = s.puts :=
        (List.getElem?_eq_some_iff.mp hi).2 ▸ List.set_getElem_self _
      have hmove : Sound digest { moved s i p p.stage with
          files := s.files.set (tmpName store.pid seq) content } := by
        refine h.move hi (h.intact.set_hidden (hidden_tmpName _ _) content) (Or.inr rfl)
          (by rw [hstage]; nofun) ?_
        intro tmp' _ hother
        have hne : tmp' ≠ tmpName store.pid seq := by
          rintro rfl
          exact hother htmp
        rw [InsertionMap.get?_set, if_neg hne]
      simpa only [moved, hsame] using hmove
    · cases hp
  | writes i =>
    obtain ⟨p, hi, hp⟩ := Option.bind_eq_some_iff.mp hstep
    split at hp
    · next tmp hstage =>
      cases hp
      have htmp : p.stage.tmp? = some tmp := by rw [hstage]; rfl
      obtain ⟨store, -, seq, -, rfl⟩ := h.temps i p tmp hi htmp
      refine h.move hi (h.intact.set_hidden (hidden_tmpName _ _) p.bytes)
        (Or.inr htmp.symm) ?_ ?_
      · intro tmp' hwritten
        cases hwritten
        exact InsertionMap.get?_set_self _ _ _
      · intro tmp' _ hother
        have hne : tmp' ≠ tmpName store.pid seq := by
          rintro rfl
          exact hother htmp
        rw [InsertionMap.get?_set, if_neg hne]
    · cases hp
  | renames i =>
    obtain ⟨p, hi, hp⟩ := Option.bind_eq_some_iff.mp hstep
    split at hp
    · next tmp hstage =>
      obtain ⟨content, hcontent, hs⟩ := Option.map_eq_some_iff.mp hp
      cases hs
      have hbytes : content = p.bytes := by
        rw [h.whole i p tmp hi hstage] at hcontent
        exact (Option.some.inj hcontent).symm
      subst hbytes
      refine h.move hi ?_ (Or.inl rfl) nofun ?_
      · intro name content hget hblock
        rw [InsertionMap.get?_set] at hget
        split at hget
        · next hname =>
          cases hget
          exact hname.symm
        · rw [InsertionMap.get?_delete] at hget
          split at hget
          · cases hget
          · exact h.intact name content hget hblock
      · intro tmp' hhidden hother
        have hne : tmp' ≠ tmp := by
          rintro rfl
          exact hother (by rw [hstage]; rfl)
        rw [InsertionMap.get?_set,
          if_neg (ne_of_hidden hhidden (hidden_pathFor digest p.bytes)),
          InsertionMap.get?_delete, if_neg hne]
    · cases hp
  | counts i =>
    obtain ⟨p, hi, hp⟩ := Option.bind_eq_some_iff.mp hstep
    obtain ⟨-, hs⟩ := Option.ite_none_right_eq_some.mp hp
    cases hs
    have hmove : Sound digest (moved s i p .done) :=
      h.move hi h.intact (Or.inl rfl) nofun fun _ _ _ => rfl
    refine ⟨hmove.intact, ?_, hmove.apart, hmove.whole⟩
    intro j q tmp hj hq
    obtain ⟨store, hstore, seq, hbound, rfl⟩ := hmove.temps j q tmp hj hq
    refine ⟨{ store with count := store.count + 1 }, ?_, seq, hbound, rfl⟩
    show s.store.map _ = _
    rw [show s.store = some store from hstore]
    rfl
  | fails i =>
    obtain ⟨p, hi, hp⟩ := Option.bind_eq_some_iff.mp hstep
    obtain ⟨-, hs⟩ := Option.ite_none_right_eq_some.mp hp
    cases hs
    exact h.move hi h.intact (Or.inl rfl) nofun fun _ _ _ => rfl
  | hides name content =>
    obtain ⟨⟨hname, hforeign⟩, hs⟩ := Option.ite_none_right_eq_some.mp hstep
    cases hs
    refine ⟨h.intact.set_hidden hname content, h.temps, h.apart, ?_⟩
    intro i p tmp hi hp
    obtain ⟨store, -, seq, -, rfl⟩ := h.temps i p tmp hi (by rw [hp]; rfl)
    have hne : tmpName store.pid seq ≠ name := by
      rintro rfl
      exact hforeign (tmpName_begins _ _)
    show (s.files.set name content).get? _ = _
    rw [InsertionMap.get?_set, if_neg hne]
    exact h.whole i p _ hi hp

theorem sound_start : Sound digest start := ⟨nofun, nofun, nofun, nofun⟩

theorem reaches_sound {guard : State → Event → Prop}
    (h : Reaches (step digest) guard start s) : Sound digest s :=
  h.invariant sound_start fun _ _ _ _ hsound hstep => step_sound hsound hstep

/-! ## What is counted -/

theorem mem_blocks (h : hidden name = false) :
    name ∈ blocks files ↔ files.has name = true := by
  unfold blocks InsertionMap.has
  rw [InsertionMap.get?_isSome, List.mem_filter, h]
  simp

theorem blocks_set_hidden (h : hidden name = true) (content : Bytes) :
    blocks (files.set name content) = blocks files := by
  unfold blocks
  rw [InsertionMap.keys_set]
  split
  · rfl
  · rw [List.filter_append, List.filter_cons, h]
    simp

/-- A temporary file is renamed to a block that is not there yet. -/
theorem blocks_rename {tmp : JsString} (htmp : hidden tmp = true) (hblock : hidden name = false)
    (hmissing : name ∉ blocks files) (content : Bytes) :
    blocks ((files.delete tmp).set name content) = blocks files ++ [name] := by
  have hdeleted : blocks (files.delete tmp) = blocks files := by
    show ((files.entries.filter fun e => decide (e.1 ≠ tmp)).map Prod.fst).filter _ =
      (files.entries.map Prod.fst).filter _
    rw [List.filter_map, List.filter_map, List.filter_filter]
    refine congrArg (List.map Prod.fst) (List.filter_congr fun e _ => ?_)
    by_cases hsame : e.1 = tmp
    · simp [hsame, htmp]
    · simp [hsame]
  have hnot : name ∉ (files.delete tmp).keys := by
    intro hmem
    refine hmissing (hdeleted ▸ List.mem_filter.mpr ⟨hmem, ?_⟩)
    rw [hblock]
    rfl
  rw [← hdeleted]
  unfold blocks
  rw [InsertionMap.keys_set, if_neg hnot, List.filter_append, List.filter_cons, hblock]
  rfl

/-- No put's check finds its block missing while another put of that block is
    between its own check and its rename. -/
def alone (digest : Bytes → JsString) (s : State) : Event → Prop
  | .looks i => ∀ p ∈ s.puts[i]?, s.files.has (pathFor digest p.bytes) = false →
      ∀ q ∈ s.puts, q.stage.pending → pathFor digest q.bytes ≠ pathFor digest p.bytes
  | _ => True

instance (digest : Bytes → JsString) (s : State) (event : Event) :
    Decidable (alone digest s event) := by
  cases event <;> unfold alone <;> infer_instance

def isRenamed (p : Put) : Bool := decide (p.stage = .renamed)

structure Counted (digest : Bytes → JsString) (s : State) : Prop where
  counted : ∀ store, s.store = some store →
    store.count + s.puts.countP isRenamed = (blocks s.files).length
  missing : ∀ p ∈ s.puts, p.stage.pending → pathFor digest p.bytes ∉ blocks s.files
  apart : ∀ (i j : Nat) (p q : Put), s.puts[i]? = some p → s.puts[j]? = some q →
    p.stage.pending → q.stage.pending → pathFor digest p.bytes = pathFor digest q.bytes → i = j

/-- A put goes on that was waiting for its rename, or is not. -/
theorem Counted.move (h : Counted digest s) {stage : Stage} {store : Option Store}
    (hi : s.puts[i]? = some p) (hpending : stage.pending → p.stage.pending)
    (hstage : stage ≠ .renamed) (hfrom : p.stage ≠ .renamed)
    (hblocks : blocks files = blocks s.files)
    (hstore : ∀ now, store = some now → ∃ before, s.store = some before ∧
      before.count = now.count) :
    Counted digest { moved s i p stage with files, store } := by
  refine ⟨?_, ?_, ?_⟩
  · intro now hnow
    obtain ⟨before, hbefore, hcount⟩ := hstore now hnow
    have hcountP := (Modify.perm_set hi { p with stage }).countP_eq isRenamed
    have hold : isRenamed p = false := decide_eq_false hfrom
    have hnew : isRenamed { p with stage } = false := decide_eq_false hstage
    rw [List.countP_cons, List.countP_cons, hold, hnew] at hcountP
    have hcounted := h.counted before hbefore
    show now.count + (s.puts.set i { p with stage }).countP isRenamed = (blocks files).length
    rw [hblocks]
    omega
  · intro q hq hwaits
    show _ ∉ blocks files
    rw [hblocks]
    rcases List.mem_or_eq_of_mem_set hq with hold | rfl
    · exact h.missing q hold hwaits
    · exact h.missing p (List.mem_of_getElem? hi) (hpending hwaits)
  · intro j k q r hj hk hq hr hsame
    rcases Modify.getElem?_set_cases hi hj with ⟨rfl, rfl⟩ | ⟨-, hj'⟩
    · rcases Modify.getElem?_set_cases hi hk with ⟨rfl, rfl⟩ | ⟨-, hk'⟩
      · rfl
      · exact h.apart j k p r hi hk' (hpending hq) hr hsame
    · rcases Modify.getElem?_set_cases hi hk with ⟨rfl, rfl⟩ | ⟨-, hk'⟩
      · exact h.apart j k q p hj' hi hq (hpending hr) hsame
      · exact h.apart j k q r hj' hk' hq hr hsame

/-- A put finds its block missing, and no other put is about to bring it. -/
theorem Counted.looks (h : Counted digest s) (hi : s.puts[i]? = some p)
    (hstage : p.stage = .checking) (hmissing : pathFor digest p.bytes ∉ blocks s.files)
    (halone : ∀ q ∈ s.puts, q.stage.pending → pathFor digest q.bytes ≠ pathFor digest p.bytes) :
    Counted digest (moved s i p (.checked false)) := by
  refine ⟨?_, ?_, ?_⟩
  · intro store hstore
    have hcountP := (Modify.perm_set hi { p with stage := .checked false }).countP_eq isRenamed
    have hold : isRenamed p = false := by
      unfold isRenamed
      rw [hstage]
      rfl
    have hnew : isRenamed { p with stage := .checked false } = false := rfl
    rw [List.countP_cons, List.countP_cons, hold, hnew] at hcountP
    have hcounted := h.counted store hstore
    show store.count + (s.puts.set i { p with stage := .checked false }).countP isRenamed =
      (blocks s.files).length
    omega
  · intro q hq hwaits
    rcases List.mem_or_eq_of_mem_set hq with hold | rfl
    · exact h.missing q hold hwaits
    · exact hmissing
  · intro j k q r hj hk hq hr hsame
    rcases Modify.getElem?_set_cases hi hj with ⟨rfl, rfl⟩ | ⟨-, hj'⟩
    · rcases Modify.getElem?_set_cases hi hk with ⟨rfl, rfl⟩ | ⟨-, hk'⟩
      · rfl
      · exact absurd hsame.symm (halone r (List.mem_of_getElem? hk') hr)
    · rcases Modify.getElem?_set_cases hi hk with ⟨rfl, rfl⟩ | ⟨-, hk'⟩
      · exact absurd hsame (halone q (List.mem_of_getElem? hj') hq)
      · exact h.apart j k q r hj' hk' hq hr hsame

/-- A block comes into place. -/
theorem Counted.renames (h : Counted digest s) {tmp : JsString} (hi : s.puts[i]? = some p)
    (hstage : p.stage = .written tmp) (htmp : hidden tmp = true) (content : Bytes) :
    Counted digest { moved s i p .renamed with
      files := (s.files.delete tmp).set (pathFor digest p.bytes) content } := by
  have hpending : p.stage.pending = true := by rw [hstage]; rfl
  have hmissing := h.missing p (List.mem_of_getElem? hi) hpending
  have hblocks := blocks_rename htmp (hidden_pathFor digest p.bytes) hmissing content
  refine ⟨?_, ?_, ?_⟩
  · intro store hstore
    have hcountP := (Modify.perm_set hi { p with stage := .renamed }).countP_eq isRenamed
    have hold : isRenamed p = false := by
      unfold isRenamed
      rw [hstage]
      rfl
    have hnew : isRenamed { p with stage := .renamed } = true := rfl
    rw [List.countP_cons, List.countP_cons, hold, hnew] at hcountP
    have hcounted := h.counted store hstore
    show store.count + (s.puts.set i { p with stage := .renamed }).countP isRenamed =
      (blocks ((s.files.delete tmp).set (pathFor digest p.bytes) content)).length
    rw [hblocks, List.length_append, List.length_singleton]
    simp only [if_true, Bool.false_eq_true, if_false] at hcountP
    omega
  · intro q hq hwaits hmem
    obtain ⟨j, hj⟩ := List.mem_iff_getElem?.mp hq
    rcases Modify.getElem?_set_cases hi hj with ⟨rfl, rfl⟩ | ⟨hne, hj'⟩
    · cases hwaits
    · rw [hblocks] at hmem
      rcases List.mem_append.mp hmem with hold | hnew
      · exact h.missing q (List.mem_of_getElem? hj') hwaits hold
      · exact hne (h.apart j i q p hj' hi hwaits hpending (List.mem_singleton.mp hnew))
  · intro j k q r hj hk hq hr hsame
    rcases Modify.getElem?_set_cases hi hj with ⟨rfl, rfl⟩ | ⟨-, hj'⟩
    · cases hq
    · rcases Modify.getElem?_set_cases hi hk with ⟨rfl, rfl⟩ | ⟨-, hk'⟩
      · cases hr
      · exact h.apart j k q r hj' hk' hq hr hsame

/-- The put that brought a block counts it. -/
theorem Counted.counts (h : Counted digest s) {i : Nat} {p : Put} (hi : s.puts[i]? = some p)
    (hstage : p.stage = .renamed) :
    Counted digest { moved s i p .done with
      store := s.store.map fun store => { store with count := store.count + 1 } } := by
  refine ⟨?_, ?_, ?_⟩
  · intro now hnow
    obtain ⟨store, hstore, rfl⟩ := Option.map_eq_some_iff.mp hnow
    have hcountP := (Modify.perm_set hi { p with stage := .done }).countP_eq isRenamed
    have hold : isRenamed p = true := decide_eq_true hstage
    have hnew : isRenamed { p with stage := .done } = false := rfl
    rw [List.countP_cons, List.countP_cons, hold, hnew] at hcountP
    simp only [if_true, Bool.false_eq_true, if_false] at hcountP
    have hcounted := h.counted store hstore
    show store.count + 1 + (s.puts.set i { p with stage := .done }).countP isRenamed =
      (blocks s.files).length
    omega
  · intro q hq hwaits
    rcases List.mem_or_eq_of_mem_set hq with hold | rfl
    · exact h.missing q hold hwaits
    · cases hwaits
  · intro j k q r hj hk hq hr hsame
    rcases Modify.getElem?_set_cases hi hj with ⟨rfl, rfl⟩ | ⟨-, hj'⟩
    · cases hq
    · rcases Modify.getElem?_set_cases hi hk with ⟨rfl, rfl⟩ | ⟨-, hk'⟩
      · cases hr
      · exact h.apart j k q r hj' hk' hq hr hsame

theorem step_counted {event : Event} (hsound : Sound digest s) (h : Counted digest s)
    (halone : alone digest s event) (hstep : step digest s event = some s') :
    Counted digest s' := by
  have hsame : ∀ now, s.store = some now → ∃ before, s.store = some before ∧
      before.count = now.count := fun now hnow => ⟨now, hnow, rfl⟩
  cases event with
  | opens pid =>
    obtain ⟨hquiet, hs⟩ := Option.ite_none_right_eq_some.mp hstep
    cases hs
    refine ⟨?_, h.missing, h.apart⟩
    intro store hstore
    cases hstore
    have hnone : s.puts.countP isRenamed = 0 := by
      refine List.countP_eq_zero.mpr fun p hp => ?_
      unfold isRenamed
      rw [hquiet p hp]
      nofun
    show (blocks s.files).length + s.puts.countP isRenamed = (blocks s.files).length
    omega
  | crashes =>
    cases hstep
    exact ⟨nofun, nofun, fun i j p q hi => nomatch hi⟩
  | puts bytes =>
    obtain ⟨-, hs⟩ := Option.ite_none_right_eq_some.mp hstep
    cases hs
    have hold : ∀ (i : Nat) (p : Put), (s.puts ++ [⟨bytes, .hashing⟩])[i]? = some p →
        p.stage.pending → s.puts[i]? = some p := by
      intro i p hi hp
      rw [List.getElem?_append] at hi
      split at hi
      · exact hi
      · rw [List.getElem?_singleton] at hi
        split at hi <;> cases hi
        cases hp
    refine ⟨?_, ?_, ?_⟩
    · intro store hstore
      have hcounted := h.counted store hstore
      show store.count + (s.puts ++ [(⟨bytes, .hashing⟩ : Put)]).countP isRenamed =
        (blocks s.files).length
      rw [List.countP_append]
      exact hcounted
    · intro p hp hwaits
      obtain ⟨i, hi⟩ := List.mem_iff_getElem?.mp hp
      exact h.missing p (List.mem_of_getElem? (hold i p hi hwaits)) hwaits
    · intro i j p q hi hj hp hq
      exact h.apart i j p q (hold i p hi hp) (hold j q hj hq) hp hq
  | hashes i =>
    obtain ⟨p, hi, hp⟩ := Option.bind_eq_some_iff.mp hstep
    obtain ⟨hstage, hs⟩ := Option.ite_none_right_eq_some.mp hp
    cases hs
    exact h.move hi nofun nofun (by rw [hstage]; nofun) rfl hsame
  | looks i =>
    obtain ⟨p, hi, hp⟩ := Option.bind_eq_some_iff.mp hstep
    obtain ⟨hstage, hs⟩ := Option.ite_none_right_eq_some.mp hp
    cases hs
    cases hfound : s.files.has (pathFor digest p.bytes) with
    | true => exact h.move hi nofun nofun (by rw [hstage]; nofun) rfl hsame
    | false =>
      refine h.looks hi hstage ?_ (halone p hi hfound)
      rw [mem_blocks (hidden_pathFor digest p.bytes), hfound]
      nofun
  | resumes i =>
    obtain ⟨p, hi, hp⟩ := Option.bind_eq_some_iff.mp hstep
    split at hp
    · next _ hstage =>
      cases hp
      exact h.move hi nofun nofun (by rw [hstage]; nofun) rfl hsame
    · next store hstage hstore =>
      cases hp
      refine h.move hi (fun _ => by rw [hstage]; rfl) nofun (by rw [hstage]; nofun) rfl ?_
      intro now hnow
      cases hnow
      exact ⟨store, hstore, rfl⟩
    · cases hp
  | spills i content =>
    obtain ⟨p, hi, hp⟩ := Option.bind_eq_some_iff.mp hstep
    split at hp
    · next tmp hstage =>
      cases hp
      obtain ⟨store, -, seq, -, rfl⟩ := hsound.temps i p tmp hi (by rw [hstage]; rfl)
      have hblocks : blocks (s.files.set (tmpName store.pid seq) content) = blocks s.files :=
        blocks_set_hidden (hidden_tmpName _ _) content
      refine ⟨fun now hnow => ?_, fun q hq hwaits => ?_, h.apart⟩
      · show _ = (blocks (s.files.set _ content)).length
        rw [hblocks]
        exact h.counted now hnow
      · show _ ∉ blocks (s.files.set _ content)
        rw [hblocks]
        exact h.missing q hq hwaits
    · cases hp
  | writes i =>
    obtain ⟨p, hi, hp⟩ := Option.bind_eq_some_iff.mp hstep
    split at hp
    · next tmp hstage =>
      cases hp
      obtain ⟨store, -, seq, -, rfl⟩ := hsound.temps i p tmp hi (by rw [hstage]; rfl)
      exact h.move hi (fun _ => by rw [hstage]; rfl) nofun (by rw [hstage]; nofun)
        (blocks_set_hidden (hidden_tmpName _ _) _) hsame
    · cases hp
  | renames i =>
    obtain ⟨p, hi, hp⟩ := Option.bind_eq_some_iff.mp hstep
    split at hp
    · next tmp hstage =>
      obtain ⟨content, -, hs⟩ := Option.map_eq_some_iff.mp hp
      cases hs
      obtain ⟨store, -, seq, -, rfl⟩ := hsound.temps i p tmp hi (by rw [hstage]; rfl)
      exact h.renames hi hstage (hidden_tmpName _ _) content
    · cases hp
  | counts i =>
    obtain ⟨p, hi, hp⟩ := Option.bind_eq_some_iff.mp hstep
    obtain ⟨hstage, hs⟩ := Option.ite_none_right_eq_some.mp hp
    cases hs
    exact h.counts hi hstage
  | fails i =>
    obtain ⟨p, hi, hp⟩ := Option.bind_eq_some_iff.mp hstep
    obtain ⟨hstage, hs⟩ := Option.ite_none_right_eq_some.mp hp
    cases hs
    exact h.move hi nofun nofun hstage rfl hsame
  | hides name content =>
    obtain ⟨⟨hname, -⟩, hs⟩ := Option.ite_none_right_eq_some.mp hstep
    cases hs
    have hblocks : blocks (s.files.set name content) = blocks s.files :=
      blocks_set_hidden hname content
    refine ⟨fun now hnow => ?_, fun q hq hwaits => ?_, h.apart⟩
    · show _ = (blocks (s.files.set name content)).length
      rw [hblocks]
      exact h.counted now hnow
    · show _ ∉ blocks (s.files.set name content)
      rw [hblocks]
      exact h.missing q hq hwaits

theorem counted_start : Counted digest start :=
  { counted := nofun
    missing := fun _ hp => absurd hp List.not_mem_nil
    apart := fun _ _ _ _ hi => nomatch hi }

theorem reaches_counted (h : Reaches (step digest) (alone digest) start s) :
    Counted digest s := by
  have hboth : Sound digest s ∧ Counted digest s :=
    h.invariant (I := fun s => Sound digest s ∧ Counted digest s)
      ⟨sound_start, counted_start⟩ fun _ _ _ halone hinv hstep =>
        ⟨step_sound hinv.1 hstep, step_counted hinv.1 hinv.2 halone hstep⟩
  exact hboth.2

/-! ## The size -/

/-- The blocks that can be read. -/
def readable (digest : Bytes → JsString) (s : State) : Set JsString :=
  {name | (∃ bytes, pathFor digest bytes = name) ∧ (s.get name).isSome}

/-- They are what `open` counts. -/
theorem ncard_readable (h : Intact digest s.files) :
    (readable digest s).ncard = (blocks s.files).length := by
  have hsame : readable digest s = {name | name ∈ (blocks s.files).toFinset} := by
    ext name
    simp only [readable, Set.mem_ofPred_eq, List.mem_toFinset]
    constructor
    · rintro ⟨⟨bytes, rfl⟩, hsome⟩
      exact (mem_blocks (hidden_pathFor digest bytes)).mpr hsome
    · intro hmem
      obtain ⟨hkey, hblock⟩ := List.mem_filter.mp hmem
      have hvisible : hidden name = false := by simpa using hblock
      have hsome := InsertionMap.get?_isSome.mpr hkey
      obtain ⟨content, hcontent⟩ := Option.isSome_iff_exists.mp hsome
      exact ⟨⟨content, h name content hcontent hvisible⟩, hsome⟩
  rw [hsame]
  have hnodup : (blocks s.files).Nodup := s.files.keys_nodup.filter _
  exact (Set.ncard_coe_finset _).trans (List.toFinset_card_of_nodup hnodup)

/-- No crash leaves a block that does not hash to its name; and where no two puts of
    one block both find it missing, the size is the number of blocks whenever no put
    is in progress. -/
theorem size_is_the_blocks_while_alone (digest : Bytes → JsString) {s : State}
    {guard : State → Event → Prop} (h : Reaches (step digest) guard start s) :
    (∀ bytes content, s.get (pathFor digest bytes) = some content →
      pathFor digest content = pathFor digest bytes) ∧
    ((∀ s e, guard s e → alone digest s e) → s.quiet → ∀ store, s.store = some store →
      store.count = (readable digest s).ncard) := by
  have hsound := reaches_sound h
  refine ⟨fun bytes content hget => hsound.intact _ content hget rfl, ?_⟩
  intro halone hquiet store hstore
  have hcounted := (reaches_counted (h.mono halone)).counted store hstore
  have hnone : s.puts.countP isRenamed = 0 := by
    refine List.countP_eq_zero.mpr fun p hp => ?_
    unfold isRenamed
    rw [hquiet p hp]
    nofun
  rw [ncard_readable hsound.intact]
  omega

/-! ### Two puts of one block -/

def oneByte : Bytes := [1]

def anotherByte : Bytes := [2]

def cids (bytes : Bytes) : JsString :=
  if bytes = oneByte then js "afyreicl6ujc6ncfktctxxroxognfn7d2fqavvrryoc2lv6m4i6hpbkfti"
  else if bytes = anotherByte then
    js "afyreig3yg2msah74sgvow25uxddqbabex3f3mh6hysess3w5kmgiv6zqy"
  else []

/-- Two puts of one block, both of which find it missing. -/
def twoPuts : List Event :=
  [.opens 7, .puts oneByte, .puts oneByte, .hashes 0, .hashes 1, .looks 0, .looks 1, .resumes 0,
    .resumes 1, .writes 0, .writes 1, .renames 0, .renames 1, .counts 0, .counts 1]

theorem size_counts_one_block_twice :
    ∃ s, Reaches (step cids) anything start s ∧ s.quiet ∧
      ∃ store, s.store = some store ∧ store.count ≠ (readable cids s).ncard := by
  have hends : ((run (step cids) start twoPuts).any fun s =>
      decide s.quiet && s.store.any fun store =>
        decide (store.count = 2) && decide ((blocks s.files).length = 1)) = true := by
    decide
  obtain ⟨s, hrun, hs⟩ := (Option.any_eq_true _ _).mp hends
  have hreach : Reaches (step cids) anything start s :=
    Reaches.of_run (fun _ _ _ => trivial) hrun
  rw [Bool.and_eq_true, decide_eq_true_eq] at hs
  obtain ⟨store, hstore, hcount⟩ := (Option.any_eq_true _ _).mp hs.2
  rw [Bool.and_eq_true, decide_eq_true_eq, decide_eq_true_eq] at hcount
  refine ⟨s, hreach, hs.1, store, hstore, ?_⟩
  rw [ncard_readable (reaches_sound hreach).intact]
  omega

/-- A put, a crash in the middle of another, and two puts one after the other once
    the directory is open again. -/
def crashAndReopen : List Event :=
  [.opens 7, .puts oneByte, .hashes 0, .looks 0, .resumes 0, .writes 0, .renames 0, .counts 0,
    .puts anotherByte, .hashes 1, .looks 1, .resumes 1, .spills 1 [], .crashes, .opens 8,
    .puts oneByte, .hashes 0, .looks 0, .resumes 0, .puts anotherByte, .hashes 1, .looks 1,
    .resumes 1, .writes 1, .renames 1, .counts 1]

theorem size_is_the_blocks_after_a_crash :
    ∃ s, runWhere (step cids) (alone cids) start crashAndReopen = some s ∧
      ∃ store, s.store = some store ∧ store.count = (readable cids s).ncard := by
  have hends : ((runWhere (step cids) (alone cids) start crashAndReopen).any fun s =>
      decide s.quiet && s.store.isSome) = true := by
    decide
  obtain ⟨s, hrun, hs⟩ := (Option.any_eq_true _ _).mp hends
  rw [Bool.and_eq_true, decide_eq_true_eq] at hs
  obtain ⟨store, hstore⟩ := Option.isSome_iff_exists.mp hs.2
  exact ⟨s, hrun, store, hstore, (size_is_the_blocks_while_alone cids
    (Reaches.of_runWhere hrun)).2 (fun _ _ h => h) hs.1 store hstore⟩

end O2Fabric.FsBlockstore
