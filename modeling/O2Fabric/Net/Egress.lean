/-
  O2Fabric.Net.Egress

  The one way out of a node.  Every frame is scanned for the payloads that are
  registered as sovereign; a frame that carries one is recorded and refused.  A
  registration lasts as long as somebody holds it.

  The promise is about payloads, while the guard counts holds by label.  The two
  agree as long as a label that is held is registered again only with the same
  bytes: `guard` writes the new payload over the old one, and the holds that are
  still open on the old one keep nothing back any more.
-/

import O2Fabric.Core.Platform
import O2Fabric.Lib.Holds

namespace O2Fabric.Net

/-! ## The guard -/

/-- One outbound transmission, as recorded at the only exit. -/
structure EgressEntry where
  to_ : JsString
  bytes : Nat
  violation : Option JsString
  deriving DecidableEq

structure EgressRefusal where
  to_ : JsString
  violation : JsString
  bytes : Nat
  deriving DecidableEq

structure EgressManifest where
  nodeId : JsString
  ownerId : JsString
  entries : List EgressEntry
  totalBytes : Nat
  violations : List JsString
  registeredSovereign : Nat
  deriving DecidableEq

/-- Whether `haystack` contains `needle` as a contiguous run. -/
def contains (haystack needle : Bytes) : Bool :=
  (List.range (haystack.length + 1 - needle.length)).any fun start =>
    needle.isPrefixOf (haystack.drop start)

/-- `inner` is the transport that is guarded; only its name is read. -/
structure EgressGuard where
  localId : JsString
  ownerId : JsString
  entries : List EgressEntry
  guarded : InsertionMap JsString (Kept Bytes)
  registered : Nat

namespace EgressGuard

def create (localId ownerId : JsString) : EgressGuard where
  localId := localId
  ownerId := ownerId
  entries := []
  guarded := .empty
  registered := 0

variable (g : EgressGuard)

/-- Mark a payload as sovereign, and take one hold on it. -/
def guard (label : JsString) (payload : Bytes) : EgressGuard :=
  { g with
    guarded := Holds.take g.guarded label payload
    registered := g.registered + 1 }

/-- What the first `release()` of a hold does. -/
def release (label : JsString) : EgressGuard :=
  { g with guarded := Holds.giveBack g.guarded label }

/-- The labels currently held. -/
def registrations : List JsString := g.guarded.keys

/-- The label of the first registered payload contained in `frame`. -/
def violationIn (frame : Bytes) : Option JsString :=
  (g.guarded.entries.find? fun e =>
    !(e.2.payload.length == 0 || decide (frame.length < e.2.payload.length))
      && contains frame e.2.payload).map Prod.fst

def record (to_ : JsString) (bytes : Nat) (violation : Option JsString) : EgressGuard :=
  { g with entries := g.entries ++ [⟨to_, bytes, violation⟩] }

/-- Scan a candidate frame and record a hit. -/
def refuse (to_ : JsString) (frame : Bytes) : Option JsString × EgressGuard :=
  match g.violationIn frame with
  | none => (none, g)
  | some violation => (some violation, g.record to_ frame.length (some violation))

/-- `.ok` is the frame the inner transport is handed. -/
def send (to_ : JsString) (message : Bytes) : Except EgressRefusal Bytes × EgressGuard :=
  let violation := g.violationIn message
  -- the record comes before the refusal: a refused send is in the manifest too
  let recorded := g.record to_ message.length violation
  match violation with
  | some violation => (.error ⟨to_, violation, message.length⟩, recorded)
  | none => (.ok message, recorded)

/-- Everything that has left this node so far. -/
def manifest : EgressManifest where
  nodeId := g.localId
  ownerId := g.ownerId
  entries := g.entries
  totalBytes := g.entries.foldl
    (fun sum entry => if entry.violation = none then sum + entry.bytes else sum) 0
  violations := g.entries.filterMap EgressEntry.violation
  registeredSovereign := g.registered

/-- Discard the record.  What is guarded stays guarded. -/
def reset : EgressGuard := { g with entries := [], registered := 0 }

end EgressGuard

/-! ## The scan -/

theorem contains_iff {haystack needle : Bytes} :
    contains haystack needle = true ↔ needle <:+: haystack := by
  unfold contains
  rw [List.any_eq_true]
  constructor
  · rintro ⟨start, -, hprefix⟩
    have hprefix := List.isPrefixOf_iff_prefix.mp hprefix
    exact hprefix.isInfix.trans (List.drop_suffix start haystack).isInfix
  · rintro ⟨before, after, rfl⟩
    refine ⟨before.length, ?_, ?_⟩
    · rw [List.mem_range]
      simp only [List.length_append]
      omega
    · rw [List.isPrefixOf_iff_prefix, List.append_assoc, List.drop_left]
      exact List.prefix_append needle after

/-- A frame is a violation when it carries a registered payload that is not empty. -/
theorem EgressGuard.violationIn_eq_none {g : EgressGuard} {frame : Bytes} :
    g.violationIn frame = none ↔
      ∀ label kept, g.guarded.get? label = some kept → kept.payload ≠ [] →
        ¬ kept.payload <:+: frame := by
  unfold violationIn
  rw [Option.map_eq_none_iff, List.find?_eq_none]
  constructor
  · intro h label kept hget hne hin
    apply h _ (InsertionMap.get?_eq_some.mp hget)
    have hlength := hin.length_le
    have hpos := List.length_pos_iff.mpr hne
    simp only [contains_iff.mpr hin, Bool.and_true, Bool.not_eq_true', Bool.or_eq_false_iff,
      beq_eq_false_iff_ne, decide_eq_false_iff_not]
    exact ⟨by omega, by omega⟩
  · intro h e he hhit
    simp only [Bool.and_eq_true, Bool.not_eq_true', Bool.or_eq_false_iff,
      beq_eq_false_iff_ne] at hhit
    obtain ⟨⟨hne, -⟩, hcontains⟩ := hhit
    apply h e.1 e.2 (InsertionMap.get?_eq_some.mpr he) _ (contains_iff.mp hcontains)
    intro hnil
    rw [hnil] at hne
    exact hne rfl

theorem EgressGuard.send_ok {g : EgressGuard} {to_ : JsString} {message frame : Bytes} :
    (g.send to_ message).1 = .ok frame ↔ g.violationIn message = none ∧ frame = message := by
  unfold send
  cases hscan : g.violationIn message with
  | none =>
    show Except.ok message = Except.ok frame ↔ _
    rw [Except.ok.injEq]
    exact ⟨fun h => ⟨rfl, h.symm⟩, fun h => h.2.symm⟩
  | some label =>
    constructor
    · rintro ⟨⟩
    · rintro ⟨⟨⟩, -⟩

/-! ## Runs -/

/-- The guard with the holds it has handed out, oldest first.  The payload of a
    hold is history: what it was taken with. -/
structure Tap where
  guard : EgressGuard
  holds : List (Hold JsString Bytes)

/-- A call on the guard, or on one of the holds it handed out. -/
inductive TapCall
  | guard (label : JsString) (payload : Bytes)
  | release (hold : Nat)
  | send (to_ : JsString) (message : Bytes)
  | refuse (to_ : JsString) (frame : Bytes)
  | reset
  deriving DecidableEq

def TapCall.registers : TapCall → Option Bytes
  | .guard _ payload => some payload
  | _ => none

namespace Tap

def start (localId ownerId : JsString) : Tap := ⟨.create localId ownerId, []⟩

def after (w : Tap) : TapCall → Tap
  | .guard label payload => ⟨w.guard.guard label payload, w.holds ++ [⟨label, payload, false⟩]⟩
  | .release k =>
    match w.holds[k]? with
    | some hold =>
      if hold.given then w
      else ⟨w.guard.release hold.key, Holds.settle w.holds k hold⟩
    | none => w
  | .send to_ message => { w with guard := (w.guard.send to_ message).2 }
  | .refuse to_ frame => { w with guard := (w.guard.refuse to_ frame).2 }
  | .reset => { w with guard := w.guard.reset }

def afterAll (w : Tap) (calls : List TapCall) : Tap := calls.foldl after w

/-- The promise, at one moment. -/
structure Seals (w : Tap) : Prop where
  /-- What reaches the inner transport carries no payload somebody holds. -/
  stays : ∀ to_ message frame, (w.guard.send to_ message).1 = .ok frame →
    ∀ hold ∈ w.holds, hold.given = false → ¬ hold.payload <:+: frame
  /-- Giving a hold back leaves what the other open holds keep back, and only that. -/
  exactly : ∀ k hold, w.holds[k]? = some hold → hold.given = false →
    (w.after (.release k)).holds = Holds.settle w.holds k hold ∧
    ∀ frame, (w.after (.release k)).guard.violationIn frame ≠ none ↔
      ∃ other ∈ (w.after (.release k)).holds, other.given = false ∧ other.payload <:+: frame
  /-- Giving it back again does nothing. -/
  once : ∀ k hold, w.holds[k]? = some hold → hold.given = true → w.after (.release k) = w
  /-- With every hold given back nothing is refused. -/
  silent : (∀ hold ∈ w.holds, hold.given = true) → ∀ to_ frame,
    (w.guard.send to_ frame).1 = .ok frame ∧ (w.guard.refuse to_ frame).1 = none

/-- The call does not write another payload over a held one. -/
def Keeps (w : Tap) : TapCall → Prop
  | .guard label payload =>
    ∀ kept, w.guard.guarded.get? label = some kept → kept.payload = payload
  | _ => True

instance (w : Tap) (call : TapCall) : Decidable (w.Keeps call) :=
  match call with
  | .guard label payload =>
    inferInstanceAs (Decidable (∀ kept, w.guard.guarded.get? label = some kept →
      kept.payload = payload))
  | .release _ | .send .. | .refuse .. | .reset => isTrue trivial

/-- What carries the promise from call to call. -/
structure Accounted (w : Tap) : Prop where
  balanced : Holds.Balanced w.guard.guarded w.holds
  faithful : Holds.Faithful w.guard.guarded w.holds
  nonempty : ∀ hold ∈ w.holds, hold.payload ≠ []

variable {w : Tap}

theorem accounted_start (localId ownerId : JsString) : (start localId ownerId).Accounted :=
  ⟨.empty, .empty, List.forall_mem_nil _⟩

/-- A frame is a violation exactly when it carries a payload somebody holds. -/
theorem Accounted.violationIn (hw : w.Accounted) {frame : Bytes} :
    w.guard.violationIn frame ≠ none ↔
      ∃ hold ∈ w.holds, hold.given = false ∧ hold.payload <:+: frame := by
  rw [Ne, EgressGuard.violationIn_eq_none]
  constructor
  · intro h
    push Not at h
    obtain ⟨label, kept, hget, -, hin⟩ := h
    obtain ⟨hold, hh, hopen, -, hpayload⟩ := hw.faithful.open_of_kept hw.balanced hget
    exact ⟨hold, hh, hopen, hpayload ▸ hin⟩
  · rintro ⟨hold, hh, hopen, hin⟩ hclean
    obtain ⟨n, hget⟩ := hw.faithful hold hh hopen
    exact hclean _ _ hget (hw.nonempty hold hh) hin

theorem Accounted.release (hw : w.Accounted) {k : Nat} {hold : Hold JsString Bytes}
    (hat : w.holds[k]? = some hold) (hopen : hold.given = false) :
    (⟨w.guard.release hold.key, Holds.settle w.holds k hold⟩ : Tap).Accounted := by
  refine ⟨hw.balanced.giveBack hat hopen, hw.faithful.giveBack hw.balanced hat hopen, ?_⟩
  intro other hother
  rcases List.mem_or_eq_of_mem_set hother with hin | rfl
  · exact hw.nonempty other hin
  · exact hw.nonempty hold (List.mem_of_getElem? hat)

theorem Accounted.after (hw : w.Accounted) {call : TapCall}
    (hnonempty : ∀ label payload, call = .guard label payload → payload ≠ [])
    (hkeeps : w.Keeps call) : (w.after call).Accounted := by
  cases call with
  | guard label payload =>
    refine ⟨hw.balanced.take label payload, hw.faithful.take hkeeps, ?_⟩
    intro hold hhold
    rcases List.mem_append.mp hhold with hin | hin
    · exact hw.nonempty hold hin
    · rw [List.mem_singleton.mp hin]
      exact hnonempty label payload rfl
  | release k =>
    unfold Tap.after
    dsimp only
    split
    · next hold hat =>
      split
      · exact hw
      · next hopen => exact hw.release hat (Bool.eq_false_iff.mpr hopen)
    · exact hw
  | send to_ message =>
    have hguarded : (w.guard.send to_ message).2.guarded = w.guard.guarded := by
      unfold EgressGuard.send
      dsimp only
      split <;> rfl
    refine ⟨?_, ?_, hw.nonempty⟩
    · show Holds.Balanced (w.guard.send to_ message).2.guarded w.holds
      rw [hguarded]
      exact hw.balanced
    · show Holds.Faithful (w.guard.send to_ message).2.guarded w.holds
      rw [hguarded]
      exact hw.faithful
  | refuse to_ frame =>
    have hguarded : (w.guard.refuse to_ frame).2.guarded = w.guard.guarded := by
      unfold EgressGuard.refuse
      split <;> rfl
    refine ⟨?_, ?_, hw.nonempty⟩
    · show Holds.Balanced (w.guard.refuse to_ frame).2.guarded w.holds
      rw [hguarded]
      exact hw.balanced
    · show Holds.Faithful (w.guard.refuse to_ frame).2.guarded w.holds
      rw [hguarded]
      exact hw.faithful
  | reset => exact ⟨hw.balanced, hw.faithful, hw.nonempty⟩

/-- An accounted tap keeps its promise. -/
theorem Accounted.seals (hw : w.Accounted) : w.Seals := by
  constructor
  · intro to_ message frame hsend hold hh hopen hin
    obtain ⟨hclean, rfl⟩ := EgressGuard.send_ok.mp hsend
    exact hw.violationIn.mpr ⟨hold, hh, hopen, hin⟩ hclean
  · intro k hold hat hopen
    have hafter : w.after (.release k)
        = ⟨w.guard.release hold.key, Holds.settle w.holds k hold⟩ := by
      simp only [Tap.after, hat, hopen, Bool.false_eq_true, if_false]
    rw [hafter]
    exact ⟨rfl, fun frame => (hw.release hat hopen).violationIn⟩
  · intro k hold hat hgiven
    simp only [Tap.after, hat, hgiven, if_true]
  · intro hall to_ frame
    have hclean : w.guard.violationIn frame = none := by
      by_contra hhit
      obtain ⟨hold, hh, hopen, -⟩ := hw.violationIn.mp hhit
      rw [hall hold hh] at hopen
      cases hopen
    refine ⟨EgressGuard.send_ok.mpr ⟨hclean, rfl⟩, ?_⟩
    unfold EgressGuard.refuse
    rw [hclean]

/-- In every run that never registers other bytes under a held label. -/
theorem held_payload_stays (localId ownerId : JsString) (calls : List TapCall)
    (hnonempty : ∀ call ∈ calls, call.registers ≠ some [])
    (hkeeps : ∀ n, ∀ hn : n < calls.length,
      ((start localId ownerId).afterAll (calls.take n)).Keeps calls[n]) (n : Nat) :
    ((start localId ownerId).afterAll (calls.take n)).Seals := by
  suffices haccounted : ((start localId ownerId).afterAll (calls.take n)).Accounted from
    haccounted.seals
  induction n with
  | zero => exact accounted_start localId ownerId
  | succ n ih =>
    by_cases hn : n < calls.length
    · rw [List.take_succ_eq_append_getElem hn]
      show (List.foldl Tap.after _ (calls.take n ++ [calls[n]])).Accounted
      rw [List.foldl_append]
      apply ih.after _ (hkeeps n hn)
      intro label payload hcall hnil
      apply hnonempty _ (List.getElem_mem hn)
      rw [hcall, hnil]
      rfl
    · -- the run is over
      rw [List.take_of_length_le (by omega)] at ih ⊢
      exact ih

/-- Two dispatches hold one payload; the first one ends, and the payload stays. -/
def sharedRun : List TapCall :=
  [.guard (js "a") [1, 2], .guard (js "a") [1, 2], .release 0, .send (js "k") [0, 1, 2, 3]]

theorem held_payload_stays_shared : ((start (js "n") (js "o")).afterAll sharedRun).Seals :=
  held_payload_stays (js "n") (js "o") sharedRun (by decide) (by decide) 4

/-- One label, two payloads: the guard lets the first one out although it is held. -/
theorem relabelled_payload_leaves :
    ¬ ((start (js "n") (js "o")).afterAll
      [.guard (js "a") [1], .guard (js "a") [2]]).Seals := by
  intro hseals
  apply hseals.stays (js "k") [1] [1] (by decide) ⟨js "a", [1], false⟩
  · exact List.mem_cons_self
  · rfl
  · exact List.infix_refl [1]

end Tap

end O2Fabric.Net
