/-
  O2Fabric.Browser.IdbIssuance

  The browser's durable issuance record: an entry is counted in memory at once,
  and its write hangs on the writes before it by one chain of promises.

  A write that fails rejects its link, and the links after it pass that on
  without a write of their own.
-/

import O2Fabric.Node.FsIssuance

namespace O2Fabric.IdbIssuance

open Steps Node.FsIssuance

/-! ## The database -/

/-- The object store, by its growing keys. -/
structure Db where
  rows : List (Nat × Entry)
  next : Nat
  distinct : (rows.map Prod.fst).Nodup
  below : ∀ row ∈ rows, row.1 < next

namespace Db

def empty : Db := ⟨[], 1, List.nodup_nil, fun _ h => (by cases h)⟩

def values (db : Db) : List Entry := db.rows.map Prod.snd

def add (db : Db) (entry : Entry) : Db where
  rows := db.rows ++ [(db.next, entry)]
  next := db.next + 1
  distinct := by
    rw [List.map_append, List.nodup_append]
    refine ⟨db.distinct, List.nodup_singleton _, fun key hkey other hother => ?_⟩
    obtain ⟨row, hrow, rfl⟩ := List.mem_map.mp hkey
    have hlt := db.below row hrow
    rw [List.mem_singleton.mp hother]
    exact Nat.ne_of_lt hlt
  below := by
    intro row hrow
    obtain hold | hnew := List.mem_append.mp hrow
    · exact Nat.lt_succ_of_lt (db.below row hold)
    · rw [List.mem_singleton.mp hnew]
      exact Nat.lt_succ_self _

def delete (db : Db) (keys : List Nat) : Db where
  rows := db.rows.filter fun row => !keys.contains row.1
  next := db.next
  distinct := db.distinct.sublist (List.filter_sublist.map _)
  below row hrow := db.below row (List.mem_filter.mp hrow).1

end Db

/-- What `open` keeps, and the database it leaves. -/
def opened (db : Db) (retainMs now : ℚ) : Db × List Entry :=
  let floor := now - retainMs
  let kept := (db.rows.filter fun row => decide (floor < row.2.issuedAt)).map Prod.snd
  let drop := (db.rows.filter fun row => !decide (floor < row.2.issuedAt)).map Prod.fst
  (db.delete drop, kept)

/-! ## The chain -/

/-- Where one link of `#tail` has got to. -/
inductive Stage
  /-- The link before it has not settled. -/
  | waiting
  /-- `add` is awaited. -/
  | adding
  /-- `then` has settled, and `finally` has not run. -/
  | ran (fulfilled : Bool)
  | settled (fulfilled : Bool)
  deriving DecidableEq

structure Link where
  entry : Entry
  stage : Stage
  /-- `add` was called for it. -/
  attempted : Bool

structure State where
  db : Db
  memory : Memory
  outstanding : ℤ
  links : List Link

/-- `open`, where nothing has been recorded yet. -/
def start (db : Db) (retainMs now : ℚ) : State :=
  ⟨(opened db retainMs now).1, remembering (opened db retainMs now).2, 0, []⟩

def record (s : State) (entry : Entry) : State :=
  { s with
    memory := s.memory.remember entry
    outstanding := s.outstanding + 1
    links := s.links ++ [⟨entry, .waiting, false⟩] }

inductive Event
  | records (entry : Entry)
  /-- The link before has settled. -/
  | goesOn (i : Nat)
  /-- The write is done or has failed. -/
  | answers (i : Nat)
  | finishes (i : Nat)

/-- What the link before `i` has settled with; at first `#tail` is fulfilled. -/
def before (s : State) : Nat → Option Bool
  | 0 => some true
  | i + 1 =>
    match s.links[i]? with
    | some { stage := .settled fulfilled, .. } => some fulfilled
    | _ => none

/-- What can happen, where `succeeds` says which of the writes succeed. -/
def step (succeeds : Nat → Bool) (s : State) : Event → Option State
  | .records entry => some (record s entry)
  | .goesOn i =>
    match s.links[i]?, before s i with
    | some ⟨entry, .waiting, attempted⟩, some fulfilled =>
      -- A rejected promise passes by the handler of `then`.
      if fulfilled then some { s with links := s.links.set i ⟨entry, .adding, true⟩ }
      else some { s with links := s.links.set i ⟨entry, .ran false, attempted⟩ }
    | _, _ => none
  | .answers i =>
    match s.links[i]? with
    | some ⟨entry, .adding, attempted⟩ =>
      if succeeds i then
        some { s with
          db := s.db.add entry
          links := s.links.set i ⟨entry, .ran true, attempted⟩ }
      else some { s with links := s.links.set i ⟨entry, .ran false, attempted⟩ }
    | _ => none
  | .finishes i =>
    match s.links[i]? with
    | some ⟨entry, .ran fulfilled, attempted⟩ =>
      some { s with
        outstanding := s.outstanding - 1
        links := s.links.set i ⟨entry, .settled fulfilled, attempted⟩ }
    | _ => none

/-! ## What is asked of it -/

def Link.isSettled (link : Link) : Bool :=
  match link.stage with
  | .settled _ => true
  | _ => false

/-- The recorded entries whose own write succeeds. -/
def succeeding (succeeds : Nat → Bool) (s : State) : List Entry :=
  s.links.zipIdx.filterMap fun (link, i) => if succeeds i then some link.entry else none

/-- A failed write costs only its own entry. -/
structure CostsOnlyItsOwn (succeeds : Nat → Bool) (kept : List Entry) (s : State) : Prop where
  attempted : ∀ link ∈ s.links, link.attempted = true
  written : s.db.values = kept ++ succeeding succeeds s
  drained : s.outstanding = 0
  reopens : ∀ window retainMs now, window ≤ retainMs →
    recentEntries window now (opened s.db retainMs now).2 =
      recentEntries window now (kept ++ succeeding succeeds s)

/-! ## What a step can do -/

variable {succeeds : Nat → Bool} {kept : List Entry} {s s' : State} {link : Link} {i : Nat}

/-- No write before `i` fails. -/
def through (succeeds : Nat → Bool) (i : Nat) : Bool := (List.range i).all succeeds

theorem through_succ (i : Nat) :
    through succeeds (i + 1) = (through succeeds i && succeeds i) := by
  unfold through
  rw [List.range_succ, List.all_append]
  simp

/-- What a link has put into the database. -/
def Link.written (link : Link) : List Entry :=
  match link.stage with
  | .ran true | .settled true => [link.entry]
  | _ => []

inductive Moves (succeeds : Nat → Bool) (s : State) (i : Nat) : Link → Link → Prop
  | attempts {entry : Entry} {attempted : Bool} (hbefore : before s i = some true) :
      Moves succeeds s i ⟨entry, .waiting, attempted⟩ ⟨entry, .adding, true⟩
  | passesOn {entry : Entry} {attempted : Bool} (hbefore : before s i = some false) :
      Moves succeeds s i ⟨entry, .waiting, attempted⟩ ⟨entry, .ran false, attempted⟩
  | answers {entry : Entry} {attempted : Bool} :
      Moves succeeds s i ⟨entry, .adding, attempted⟩ ⟨entry, .ran (succeeds i), attempted⟩
  | finishes {entry : Entry} {attempted fulfilled : Bool} :
      Moves succeeds s i ⟨entry, .ran fulfilled, attempted⟩ ⟨entry, .settled fulfilled, attempted⟩

/-- Everything a step can do: an entry is recorded, or a link goes on. -/
theorem step_cases {e : Event} (h : step succeeds s e = some s') :
    (∃ entry, s' = record s entry) ∨
    (∃ i link link', s.links[i]? = some link ∧ Moves succeeds s i link link' ∧
      s'.memory = s.memory ∧ s'.links = s.links.set i link' ∧
      s'.outstanding = s.outstanding - (link'.isSettled.toNat : ℤ) ∧
      ∃ added, link'.written = link.written ++ added ∧
        s'.db.values = s.db.values ++ added) := by
  cases e with
  | records entry => exact .inl ⟨entry, by simpa [step] using h.symm⟩
  | goesOn i =>
    simp only [step] at h
    split at h
    · next entry attempted fulfilled hget hbefore =>
      split at h
      · next hfulfilled =>
        subst hfulfilled
        cases h
        exact .inr ⟨i, _, _, hget, .attempts hbefore, rfl, rfl, by simp [Link.isSettled],
          [], rfl, (List.append_nil _).symm⟩
      · next hrejected =>
        cases h
        rw [Bool.not_eq_true] at hrejected
        subst hrejected
        exact .inr ⟨i, _, _, hget, .passesOn hbefore, rfl, rfl, by simp [Link.isSettled],
          [], rfl, (List.append_nil _).symm⟩
    · cases h
  | answers i =>
    simp only [step] at h
    split at h
    · next entry attempted hget =>
      split at h
      · next hsucceeds =>
        cases h
        refine .inr ⟨i, _, _, hget, .answers, rfl, by rw [hsucceeds],
          by simp [Link.isSettled], [entry], ?_, ?_⟩
        · simp [Link.written, hsucceeds]
        · simp [Db.values, Db.add]
      · next hfails =>
        cases h
        rw [Bool.not_eq_true] at hfails
        refine .inr ⟨i, _, _, hget, .answers, rfl, by rw [hfails],
          by simp [Link.isSettled], [], ?_, (List.append_nil _).symm⟩
        simp [Link.written, hfails]
    · cases h
  | finishes i =>
    simp only [step] at h
    split at h
    · next entry fulfilled attempted hget =>
      cases h
      refine .inr ⟨i, _, _, hget, .finishes, rfl, rfl, by simp [Link.isSettled],
        [], ?_, (List.append_nil _).symm⟩
      cases fulfilled <;> rfl
    · cases h

/-! ## What holds of the chain -/

/-- What has settled before a link decides what it is. -/
structure Fits (succeeds : Nat → Bool) (s : State) (i : Nat) (link : Link) : Prop where
  /-- Only what the links before it have let through goes on. -/
  follows : link.stage ≠ .waiting → ∀ j, j < i → ∃ earlier, s.links[j]? = some earlier ∧
    earlier.stage = .settled (through succeeds (j + 1))
  fulfilled : ∀ fulfilled, link.stage = .ran fulfilled ∨ link.stage = .settled fulfilled →
    fulfilled = through succeeds (i + 1)
  attempted : link.attempted = (decide (link.stage ≠ .waiting) && through succeeds i)
  adding : link.stage = .adding → through succeeds i = true

structure Sound (succeeds : Nat → Bool) (kept : List Entry) (s : State) : Prop where
  fits : ∀ (i : Nat) (link : Link), s.links[i]? = some link → Fits succeeds s i link
  values : s.db.values = kept ++ s.links.flatMap Link.written
  outstanding : s.outstanding = (s.links.countP fun link => !link.isSettled : Nat)
  memory : s.memory = remembering (kept ++ s.links.map Link.entry)

variable {link' : Link}

theorem Moves.entry (h : Moves succeeds s i link link') :
    link'.entry = link.entry := by
  cases h <;> rfl

theorem Moves.unsettled (h : Moves succeeds s i link link') :
    link.isSettled = false := by
  cases h <;> rfl

/-- A link settles as the writes before it have let it. -/
theorem before_settled (h : Sound succeeds kept s) {fulfilled : Bool}
    (hbefore : before s i = some fulfilled) : fulfilled = through succeeds i ∧
      ∀ j, j < i → ∃ earlier, s.links[j]? = some earlier ∧
        earlier.stage = .settled (through succeeds (j + 1)) := by
  cases i with
  | zero =>
    cases hbefore
    exact ⟨rfl, fun j hj => absurd hj (Nat.not_lt_zero j)⟩
  | succ k =>
    simp only [before] at hbefore
    split at hbefore
    · next entry settledWith attempted hget =>
      cases hbefore
      have hfits := h.fits k _ hget
      have hvalue := hfits.fulfilled fulfilled (.inr rfl)
      refine ⟨hvalue, fun j hj => ?_⟩
      obtain hlt | rfl : j < k ∨ j = k := by omega
      · exact hfits.follows (by simp) j hlt
      · exact ⟨_, hget, by rw [hvalue]⟩
    · cases hbefore

theorem sound_record (entry : Entry) (h : Sound succeeds kept s) :
    Sound succeeds kept (record s entry) := by
  have hlast : ∀ (j : Nat) (link : Link), (s.links ++ [⟨entry, .waiting, false⟩])[j]? = some link →
      s.links[j]? = some link ∨ link = ⟨entry, .waiting, false⟩ := by
    intro j link hj
    rw [List.getElem?_append] at hj
    split at hj
    · exact .inl hj
    · exact .inr (List.mem_singleton.mp (List.mem_of_getElem? hj))
  refine ⟨?_, ?_, ?_, ?_⟩
  · intro j link hj
    obtain hold | rfl := hlast j link hj
    · have hfits := h.fits j link hold
      refine ⟨fun hstage k hk => ?_, hfits.fulfilled, hfits.attempted, hfits.adding⟩
      obtain ⟨earlier, hget, hsettled⟩ := hfits.follows hstage k hk
      have hlt := (List.getElem?_eq_some_iff.mp hget).1
      exact ⟨earlier, by simpa [record, List.getElem?_append_left hlt] using hget, hsettled⟩
    · exact ⟨fun hstage => absurd rfl hstage, fun fulfilled hstage => by simp at hstage, rfl,
        fun hstage => by cases hstage⟩
  · show s.db.values = _
    rw [h.values]
    simp [record, Link.written]
  · show s.outstanding + 1 = _
    rw [h.outstanding]
    simp [record, Link.isSettled]
  · show s.memory.remember entry = _
    rw [h.memory, ← remembering_append]
    simp [record]

/-- A link goes on: those before it have settled, those after it have not begun. -/
theorem sound_move (h : Sound succeeds kept s) (hget : s.links[i]? = some link)
    (hmoves : Moves succeeds s i link link') (hmemory : s'.memory = s.memory)
    (hlinks : s'.links = s.links.set i link')
    (houtstanding : s'.outstanding = s.outstanding - (link'.isSettled.toNat : ℤ))
    {added : List Entry} (hwritten : link'.written = link.written ++ added)
    (hvalues : s'.db.values = s.db.values ++ added) : Sound succeeds kept s' := by
  obtain ⟨hlt, hat⟩ := List.getElem?_eq_some_iff.mp hget
  have hunsettled := hmoves.unsettled
  have hself : s'.links[i]? = some link' := by rw [hlinks, List.getElem?_set_self hlt]
  have hother : ∀ j, j ≠ i → s'.links[j]? = s.links[j]? := by
    intro j hne
    rw [hlinks, List.getElem?_set_ne (Ne.symm hne)]
  have hkept : ∀ {j : Nat} {fulfilled : Bool} {earlier : Link}, s.links[j]? = some earlier →
      earlier.stage = .settled fulfilled → s'.links[j]? = some earlier := by
    intro j fulfilled earlier hj hsettled
    have hne : j ≠ i := by
      rintro rfl
      cases hget.symm.trans hj
      simp [Link.isSettled, hsettled] at hunsettled
    rw [hother j hne, hj]
  have hafter : ∀ (j : Nat) (later : Link), i < j → s.links[j]? = some later →
      later.stage = .waiting := by
    intro j later hj hlater
    by_contra hbegun
    obtain ⟨earlier, hearlier, hsettled⟩ := (h.fits j later hlater).follows hbegun i hj
    cases hget.symm.trans hearlier
    simp [Link.isSettled, hsettled] at hunsettled
  have hfits := h.fits i link hget
  refine ⟨?_, ?_, ?_, ?_⟩
  · intro j other hj
    have hfollows : ∀ k : Nat, (∃ earlier : Link, s.links[k]? = some earlier ∧
        earlier.stage = .settled (through succeeds (k + 1))) →
        ∃ earlier : Link, s'.links[k]? = some earlier ∧
          earlier.stage = .settled (through succeeds (k + 1)) := by
      rintro k ⟨earlier, hearlier, hsettled⟩
      exact ⟨earlier, hkept hearlier hsettled, hsettled⟩
    by_cases hji : j = i
    · subst hji
      cases hself.symm.trans hj
      cases hmoves with
      | attempts hbefore =>
        obtain ⟨hthrough, hall⟩ := before_settled h hbefore
        exact ⟨fun _ k hk => hfollows k (hall k hk), fun fulfilled hstage => by simp at hstage,
          by simp [← hthrough], fun _ => hthrough.symm⟩
      | passesOn hbefore =>
        obtain ⟨hthrough, hall⟩ := before_settled h hbefore
        have hattempted := hfits.attempted
        refine ⟨fun _ k hk => hfollows k (hall k hk), fun fulfilled hstage => ?_, ?_,
          fun hstage => by cases hstage⟩
        · rw [through_succ, ← hthrough]
          simpa using hstage
        · rw [← hthrough]
          simpa using hattempted
      | answers =>
        have hthrough := hfits.adding rfl
        refine ⟨fun _ k hk => hfollows k (hfits.follows (by simp) k hk),
          fun fulfilled hstage => ?_, ?_, fun hstage => by cases hstage⟩
        · rw [through_succ, hthrough]
          simpa [eq_comm] using hstage
        · simpa using hfits.attempted
      | finishes =>
        refine ⟨fun _ k hk => hfollows k (hfits.follows (by simp) k hk),
          fun fulfilled hstage => ?_, ?_, fun hstage => by cases hstage⟩
        · exact hfits.fulfilled fulfilled (.inl (by simpa using hstage))
        · simpa using hfits.attempted
    · rw [hother j hji] at hj
      have hold := h.fits j other hj
      exact ⟨fun hstage k hk => hfollows k (hold.follows hstage k hk), hold.fulfilled,
        hold.attempted, hold.adding⟩
  · -- After the link nothing has been written.
    have hnothing : (s.links.drop (i + 1)).flatMap Link.written = [] := by
      rw [List.flatMap_eq_nil_iff]
      intro later hlater
      obtain ⟨k, hk⟩ := List.mem_iff_getElem?.mp hlater
      rw [List.getElem?_drop] at hk
      simp [Link.written, hafter (i + 1 + k) later (by omega) hk]
    have hsplit : s.links = s.links.take i ++ link :: s.links.drop (i + 1) := by
      rw [← hat, List.cons_getElem_drop_succ, List.take_append_drop]
    have hset : s'.links = s.links.take i ++ link' :: s.links.drop (i + 1) := by
      rw [hlinks, List.set_eq_take_append_cons_drop, if_pos hlt]
    rw [hvalues, h.values, hset, List.flatMap_append, List.flatMap_cons, hnothing, hwritten]
    nth_rewrite 1 [hsplit]
    rw [List.flatMap_append, List.flatMap_cons, hnothing]
    simp
  · have hpos : 0 < s.links.countP fun link => !link.isSettled :=
      List.countP_pos_iff.mpr ⟨link, List.mem_of_getElem? hget, by simp [hunsettled]⟩
    rw [houtstanding, h.outstanding, hlinks, List.countP_set hlt, hat, hunsettled]
    cases link'.isSettled
    · simp
      omega
    · simp
      omega
  · rw [hmemory, h.memory, hlinks]
    congr 2
    apply List.ext_getElem?
    intro j
    rw [List.getElem?_map, List.getElem?_map]
    by_cases hji : j = i
    · subst hji
      rw [List.getElem?_set_self hlt, hget, Option.map_some, Option.map_some, hmoves.entry]
    · rw [List.getElem?_set_ne (Ne.symm hji)]

theorem sound_step {e : Event} (h : Sound succeeds kept s)
    (hstep : step succeeds s e = some s') : Sound succeeds kept s' := by
  obtain ⟨entry, rfl⟩ | ⟨i, link, link', hget, hmoves, hmemory, hlinks, houtstanding, added,
    hwritten, hvalues⟩ := step_cases hstep
  · exact sound_record entry h
  · exact sound_move h hget hmoves hmemory hlinks houtstanding hwritten hvalues

/-! ## Whole runs -/

/-- Compaction leaves what `open` has read. -/
theorem values_opened (db : Db) (retainMs now : ℚ) :
    (opened db retainMs now).1.values = (opened db retainMs now).2 := by
  have hinj := List.inj_on_of_nodup_map db.distinct
  simp only [opened, Db.values, Db.delete]
  congr 1
  refine List.filter_congr fun row hrow => ?_
  by_cases hlate : now - retainMs < row.2.issuedAt
  · rw [decide_eq_true hlate, Bool.not_eq_true', List.contains_eq_mem, decide_eq_false_iff_not]
    intro hdropped
    -- Another row under its key would be the row itself.
    obtain ⟨other, hother, hkey⟩ := List.mem_map.mp hdropped
    obtain ⟨hmem, hearly⟩ := List.mem_filter.mp hother
    rw [hinj hmem hrow hkey] at hearly
    simp [hlate] at hearly
  · rw [decide_eq_false hlate, Bool.not_eq_false', List.contains_eq_mem, decide_eq_true_iff]
    exact List.mem_map.mpr ⟨row, List.mem_filter.mpr ⟨hrow, by simp [hlate]⟩, rfl⟩

theorem recentEntries_opened (db : Db) {window retainMs : ℚ} (now : ℚ) (h : window ≤ retainMs) :
    recentEntries window now (opened db retainMs now).2 = recentEntries window now db.values := by
  rw [← recentEntries_kept h db.values, Db.values, List.filter_map]
  rfl

theorem sound_start (db : Db) (retainMs now : ℚ) :
    Sound succeeds (opened db retainMs now).2 (start db retainMs now) := by
  refine ⟨fun i link hget => ?_, ?_, rfl, ?_⟩
  · cases (show ([] : List Link)[i]? = some link from hget)
  · show (opened db retainMs now).1.values = _
    rw [values_opened]
    exact (List.append_nil _).symm
  · exact congrArg remembering (List.append_nil _).symm

theorem sound_of_reaches {db : Db} {retainMs now : ℚ}
    (h : Reaches (step succeeds) anything (start db retainMs now) s) :
    Sound succeeds (opened db retainMs now).2 s :=
  h.invariant (sound_start db retainMs now) fun _ _ _ _ hsound hstep => sound_step hsound hstep

theorem through_eq_true : through succeeds i = true ↔ ∀ j, j < i → succeeds j = true := by
  simp [through, List.all_eq_true]

/-- Where no failure is followed by another entry, what a link has written is
    what its own write gave. -/
theorem written_eq_succeeding (h : Sound succeeds kept s)
    (hsettled : ∀ link ∈ s.links, link.isSettled = true)
    (hlast : ∀ i j, i < j → j < s.links.length → succeeds i = true) :
    s.links.flatMap Link.written = succeeding succeeds s := by
  unfold succeeding
  rw [List.filterMap_eq_flatMap_toList]
  nth_rewrite 1 [← List.zipIdx_map_fst 0 s.links]
  rw [List.flatMap_map]
  refine List.flatMap_congr fun pair hpair => ?_
  obtain ⟨link, i⟩ := pair
  have hget : s.links[i]? = some link := by
    have hmem := List.mem_zipIdx_iff_getElem?.mp hpair
    simpa using hmem
  have hlt := (List.getElem?_eq_some_iff.mp hget).1
  have hown : through succeeds (i + 1) = succeeds i := by
    rw [through_succ, through_eq_true.mpr fun j hj => hlast j i hj hlt, Bool.true_and]
  have hdone := hsettled link (List.mem_of_getElem? hget)
  obtain ⟨entry, stage, attempted⟩ := link
  cases stage with
  | settled fulfilled =>
    have hvalue := (h.fits i _ hget).fulfilled fulfilled (.inr rfl)
    rw [hown] at hvalue
    subst hvalue
    cases hsucceeds : succeeds i <;> simp [Link.written, hsucceeds]
  | waiting | adding | ran _ => cases hdone

/-- Once every write has settled, a failure has cost only its own entry exactly
    where no failure was followed by another entry. -/
theorem failed_write_costs_its_own_iff (succeeds : Nat → Bool) (db : Db) (retainMs now : ℚ)
    (s : State) (h : Reaches (step succeeds) anything (start db retainMs now) s)
    (hsettled : ∀ link ∈ s.links, link.isSettled = true) :
    CostsOnlyItsOwn succeeds (opened db retainMs now).2 s ↔
      ∀ i j, i < j → j < s.links.length → succeeds i = true := by
  have hsound := sound_of_reaches h
  constructor
  · intro hcosts i j hij hlt
    have hget := List.getElem?_eq_getElem hlt
    have hfits := hsound.fits j _ hget
    have hall := hcosts.attempted _ (List.mem_of_getElem? hget)
    rw [hfits.attempted, Bool.and_eq_true] at hall
    exact through_eq_true.mp hall.2 i hij
  · intro hlast
    have hwritten : s.db.values = (opened db retainMs now).2 ++ succeeding succeeds s := by
      rw [hsound.values, written_eq_succeeding hsound hsettled hlast]
    refine ⟨fun link hlink => ?_, hwritten, ?_, fun window retain later hwindow => ?_⟩
    · obtain ⟨j, hget⟩ := List.mem_iff_getElem?.mp hlink
      have hlt := (List.getElem?_eq_some_iff.mp hget).1
      have hdone := hsettled link hlink
      rw [(hsound.fits j link hget).attempted,
        through_eq_true.mpr fun i hi => hlast i j hi hlt, Bool.and_true, decide_eq_true_iff]
      intro hwaiting
      simp [Link.isSettled, hwaiting] at hdone
    · rw [hsound.outstanding, List.countP_eq_zero.mpr fun link hlink => by
        simp [hsettled link hlink]]
      rfl
    · rw [recentEntries_opened s.db later hwindow, hwritten]

/-! The first of two writes fails, and the second entry is recorded. -/

def firstFails (i : Nat) : Bool := i != 0

def issuedAt (at_ : ℚ) : Entry := ⟨[], at_⟩

def afterFailure : State where
  db := (opened .empty 0 0).1
  memory := ((remembering []).remember (issuedAt 1)).remember (issuedAt 2)
  outstanding := 0
  links := [⟨issuedAt 1, .settled false, true⟩, ⟨issuedAt 2, .settled false, false⟩]

theorem afterFailure_reached :
    Reaches (step firstFails) anything (start .empty 0 0) afterFailure := by
  have hrun : run (step firstFails) (start .empty 0 0)
      [.records (issuedAt 1), .records (issuedAt 2), .goesOn 0, .answers 0, .finishes 0,
        .goesOn 1, .finishes 1] = some afterFailure := rfl
  exact Reaches.of_run (fun _ _ _ => trivial) hrun

theorem failed_write_costs_its_own_iff_at_two :
    CostsOnlyItsOwn firstFails (opened .empty 0 0).2 afterFailure ↔
      ∀ i j, i < j → j < afterFailure.links.length → firstFails i = true :=
  failed_write_costs_its_own_iff firstFails .empty 0 0 afterFailure afterFailure_reached
    (by decide)

/-- The second entry is lost with the first. -/
theorem failed_write_costs_the_next : ¬ ∀ (succeeds : Nat → Bool) (db : Db) (retainMs now : ℚ)
    (s : State), Reaches (step succeeds) anything (start db retainMs now) s →
    (∀ link ∈ s.links, link.isSettled = true) →
    CostsOnlyItsOwn succeeds (opened db retainMs now).2 s := by
  intro hall
  have hcosts := hall firstFails .empty 0 0 afterFailure afterFailure_reached (by decide)
  have hattempted := hcosts.attempted ⟨issuedAt 2, .settled false, false⟩
    (List.mem_cons_of_mem _ List.mem_cons_self)
  cases hattempted

end O2Fabric.IdbIssuance
