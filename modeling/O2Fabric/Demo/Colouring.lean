/-
  O2Fabric.Demo.Colouring

  The search of the colouring kernel: the cube a shard owns, and depth first over
  the values that the cube leaves, in the order the host gives.

  A colour of 1 at some depth says that 0 was searched there to its end
  (`Path.spent`): that is what makes exhaustion an answer.  The block is read as the
  lists it encodes; the kernel walks the triples of a value through an index over them.
-/

import O2Fabric.Lib.Total
import Mathlib.Data.Fin.Basic
import Mathlib.Data.List.Nodup

namespace O2Fabric.Colouring

open Program

structure Triple where
  a : Nat
  b : Nat
  c : Nat

namespace Triple

def members (t : Triple) : List Nat := [t.a, t.b, t.c]

/-- All three members have one colour. -/
abbrev Mono (t : Triple) (colour : Nat → Fin 2) : Prop :=
  colour t.a = colour t.b ∧ colour t.a = colour t.c

end Triple

/-- `colour[v]` and `assigned[v]`. -/
structure Board where
  colour : Nat → Fin 2
  assigned : Nat → Bool

def Board.paint (board : Board) (v : Nat) (colour : Fin 2) : Board :=
  { board with colour := Function.update board.colour v colour }

def Board.mark (board : Board) (v : Nat) (assigned : Bool) : Board :=
  { board with assigned := Function.update board.assigned v assigned }

inductive Status
  | exhausted
  | found
  | budget

/-- What the cube of this index fixes at depth `i`. -/
def cubeBit (index i : Nat) : Fin 2 := if (index >>> i) &&& 1 = 1 then 1 else 0

/-- The block a shard is given, whatever its bytes: each member of a triple has its place in
    the order. -/
structure Input where
  triples : List Triple
  order : List Nat
  budget : Nat
  nodup : order.Nodup
  ordered : ∀ t ∈ triples, ∀ v ∈ t.members, v ∈ order

section

variable (input : Input)

def Input.n : Nat := input.order.length

/-- No triple of `v` whose members are all assigned is of one colour. -/
def okAt (board : Board) (v : Nat) : Bool :=
  (input.triples.filter fun t => v ∈ t.members).all fun t =>
    !(t.members.all board.assigned && decide (t.Mono board.colour))

/-- The value assigned at depth `i`. -/
def Input.orderAt (i : Nat) : Nat := input.order.getD i 0

/-- How many values a cube fixes. -/
def cubeDepth (count : Nat) : Nat :=
  min (Nat.log2 (if count = 0 then 1 else count)) input.n

/-- The values that the cube fixes. -/
def fixed (index k : Nat) : Board :=
  (List.range k).foldl
    (fun board i => (board.paint (input.orderAt i) (cubeBit index i)).mark (input.orderAt i) true)
    ⟨fun _ => 0, fun _ => false⟩

/-- The value of a new depth starts with colour 0. -/
def enter (i : Nat) (board : Board) : Board :=
  if i < input.n then (board.paint (input.orderAt i) 0).mark (input.orderAt i) true else board

/-- A conflict at this depth: the other colour, or undo and retry below. -/
def back (k : Nat) : (i steps : Nat) → Board → Status ⊕ (Nat × Nat × Board)
  | i, steps, board =>
    let v := input.orderAt i
    if board.colour v = 0 then .inr (i, steps, board.paint v 1)
    else
      match i with
      | 0 => .inl .exhausted
      | i + 1 =>
        if i < k then .inl .exhausted
        else if input.budget ≤ steps + 1 then .inl .budget
        else back k i (steps + 1) (board.mark v false)

/-- One round of the search, at depth `i`. -/
def round (k : Nat) : Nat × Nat → Program Board Empty ((Nat × Nat) ⊕ Status)
  | (i, steps), board =>
    if input.n ≤ i then .ok (.inr .found, board)
    else if okAt input board (input.orderAt i) then
      .ok (.inl (i + 1, steps), enter input (i + 1) board)
    else
      match back input k i steps board with
      | .inl status => .ok (.inr status, board)
      | .inr (i, steps, board) => .ok (.inl (i, steps), board)

/-- The search, and the colours it stops with. -/
def run (index count : Nat) : Except (Stop Empty) (Status × Board) :=
  let k := cubeDepth input count
  let board := fixed input index k
  if (List.range k).all fun i => okAt input board (input.orderAt i) then
    loop (round input k) (3 * input.budget + 2 * input.n + 2) (k, 0) (enter input k board)
  else .ok (.exhausted, board)

/-! ## Where the search stands -/

/-- A colouring that leaves no triple of one colour. -/
def Proper (colour : Nat → Fin 2) : Prop := ∀ t ∈ input.triples, ¬ t.Mono colour

/-- A colouring of the cube of this index. -/
def InCube (index k : Nat) (colour : Nat → Fin 2) : Prop :=
  ∀ i < k, colour (input.orderAt i) = cubeBit index i

/-- All members have a depth below `i`. -/
def Below (i : Nat) (t : Triple) : Prop := ∀ v ∈ t.members, ∃ j < i, input.orderAt j = v

/-- The values below depth `top` are the ones assigned. -/
def Assigned (top : Nat) (board : Board) : Prop :=
  ∀ j < input.n, board.assigned (input.orderAt j) = decide (j < top)

/-- No colouring goes on from the first `i` depths as they are. -/
def Dead (i : Nat) (board : Board) : Prop :=
  ∀ χ, Proper input χ → ¬ ∀ l < i, χ (input.orderAt l) = board.colour (input.orderAt l)

/-- Colour 0 was searched at depth `j` to its end. -/
def Spent (j : Nat) (board : Board) : Prop :=
  Dead input (j + 1) (board.paint (input.orderAt j) 0)

/-- A board of the cube `index`, with what lies below depth `i` checked, and its colours
    of 1 below `top` come by. -/
structure Path (index k i top : Nat) (board : Board) : Prop where
  cube : InCube input index k board.colour
  checked : ∀ t ∈ input.triples, Below input i t → ¬ t.Mono board.colour
  spent : ∀ j < top, k ≤ j → j < input.n → board.colour (input.orderAt j) ≠ 0 → Spent input j board

end

/-- How far the search is from its end at most. -/
def toGo (input : Input) (at_ : Nat × Nat) (board : Board) : Nat :=
  3 * (input.budget - at_.2) + 2 * (input.n - at_.1)
    + if board.colour (input.orderAt at_.1) = 0 then 1 else 0

variable {input : Input} {board : Board} {index k i j top steps : Nat}

theorem Input.orderAt_eq (hi : i < input.n) : input.orderAt i = input.order.get ⟨i, hi⟩ := by
  simp [orderAt, show i < input.order.length from hi]

theorem Input.orderAt_inj (hi : i < input.n) (hj : j < input.n)
    (h : input.orderAt i = input.orderAt j) : i = j := by
  rw [orderAt_eq hi, orderAt_eq hj] at h
  exact input.nodup.getElem_inj_iff.mp h

/-- A member of a triple has a depth. -/
theorem Input.depth {t : Triple} (ht : t ∈ input.triples) {v : Nat} (hv : v ∈ t.members) :
    ∃ j < input.n, input.orderAt j = v := by
  obtain ⟨j, hj, rfl⟩ := List.mem_iff_getElem.mp (input.ordered t ht v hv)
  exact ⟨j, hj, orderAt_eq hj⟩

@[simp] theorem colour_paint_self (v : Nat) (colour : Fin 2) :
    (board.paint v colour).colour v = colour :=
  Function.update_self _ _ _

theorem colour_paint_of_ne (hi : i < input.n) (hj : j < input.n) (hne : j ≠ i)
    (colour : Fin 2) :
    (board.paint (input.orderAt i) colour).colour (input.orderAt j)
      = board.colour (input.orderAt j) :=
  Function.update_of_ne (fun h => hne (Input.orderAt_inj hj hi h)) _ _

theorem Triple.Mono.congr {t : Triple} {colour colour' : Nat → Fin 2} (h : t.Mono colour)
    (heq : ∀ v ∈ t.members, colour' v = colour v) : t.Mono colour' := by
  simp only [Triple.members, List.mem_cons, List.not_mem_nil, or_false, forall_eq_or_imp,
    forall_eq] at heq
  rw [Triple.Mono, heq.1, heq.2.1, heq.2.2]
  exact h

/-- What `okAt` answers where the values below `top` are assigned. -/
theorem okAt_iff (hassigned : Assigned input top board) (htop : top ≤ input.n) {v : Nat} :
    okAt input board v = true ↔
      ∀ t ∈ input.triples, v ∈ t.members → Below input top t → ¬ t.Mono board.colour := by
  have hall : ∀ t ∈ input.triples, t.members.all board.assigned = true ↔ Below input top t := by
    intro t ht
    rw [List.all_eq_true]
    refine forall₂_congr fun v hv => ?_
    obtain ⟨j, hj, rfl⟩ := Input.depth ht hv
    rw [hassigned j hj, decide_eq_true_iff]
    constructor
    · exact fun hlt => ⟨j, hlt, rfl⟩
    · rintro ⟨l, hl, heq⟩
      have hsame := hassigned l (hl.trans_le htop)
      rw [heq, hassigned j hj, decide_eq_decide] at hsame
      exact hsame.mpr hl
  simp only [okAt, List.all_eq_true, List.mem_filter, decide_eq_true_eq, and_imp]
  refine forall₃_congr fun t ht _ => ?_
  rw [← hall t ht]
  simp only [Bool.not_eq_true', Bool.and_eq_false_imp, decide_eq_false_iff_not]

/-- Colours that agree below depth `i` agree on what lies below it. -/
theorem Below.mono {t : Triple} (h : Below input i t) {colour colour' : Nat → Fin 2}
    (heq : ∀ l < i, colour' (input.orderAt l) = colour (input.orderAt l)) (hmono : t.Mono colour) :
    t.Mono colour' := by
  refine hmono.congr fun v hv => ?_
  obtain ⟨j, hj, rfl⟩ := h v hv
  exact heq j hj

theorem Assigned.mark (h : Assigned input top board) (hi : i < input.n) (top' : Nat)
    (hrest : ∀ j, j ≠ i → (j < top ↔ j < top')) :
    Assigned input top' (board.mark (input.orderAt i) (decide (i < top'))) := by
  intro j hj
  by_cases hji : j = i
  · rw [hji]
    exact Function.update_self _ _ _
  · have hne := fun heq => hji (Input.orderAt_inj hj hi heq)
    refine (Function.update_of_ne hne _ _).trans ((h j hj).trans ?_)
    exact decide_eq_decide.mpr (hrest j hji)

/-- What is assigned does not matter to the path. -/
theorem Path.mark (h : Path input index k i top board) (v : Nat) (assigned : Bool) :
    Path input index k i top (board.mark v assigned) :=
  ⟨h.cube, h.checked, h.spent⟩

/-- A colour at depth `i`, where 1 comes after 0. -/
theorem Path.paint (h : Path input index k i i board) (hk : k ≤ i) (hi : i < input.n)
    (colour : Fin 2) (hspent : colour ≠ 0 → Spent input i board) :
    Path input index k i (i + 1) (board.paint (input.orderAt i) colour) := by
  have hkeep : ∀ j < i, (board.paint (input.orderAt i) colour).colour (input.orderAt j)
      = board.colour (input.orderAt j) := fun j hj =>
    colour_paint_of_ne hi (by omega) (by omega) colour
  refine ⟨fun j hj => (hkeep j (by omega)).trans (h.cube j hj), ?_, ?_⟩
  · exact fun t ht hbelow hmono =>
      h.checked t ht hbelow (hbelow.mono (fun l hl => (hkeep l hl).symm) hmono)
  · intro j hj hkj hjn hone χ hχ hagree
    rcases Nat.lt_succ_iff_lt_or_eq.mp hj with hlt | rfl
    · refine h.spent j hlt hkj hjn (fun h0 => hone ((hkeep j hlt).trans h0)) χ hχ fun l hl => ?_
      rw [hagree l hl]
      rcases Nat.lt_succ_iff_lt_or_eq.mp hl with hlj | rfl
      · rw [colour_paint_of_ne hjn (by omega) (by omega),
          colour_paint_of_ne hjn (by omega) (by omega), hkeep l (by omega)]
      · rw [colour_paint_self, colour_paint_self]
    · have hcolour : colour ≠ 0 := fun h0 => hone ((colour_paint_self _ _).trans h0)
      refine hspent hcolour χ hχ fun l hl => (hagree l hl).trans ?_
      rw [Board.paint, Board.paint, Board.paint, Function.update_idem]

theorem Path.enter (h : Path input index k i i board) (hassigned : Assigned input i board)
    (hk : k ≤ i) : Path input index k i (i + 1) (enter input i board) ∧
      Assigned input (i + 1) (enter input i board) := by
  unfold Colouring.enter
  split
  · next hi =>
    refine ⟨(h.paint hk hi 0 (absurd rfl)).mark _ _, ?_⟩
    intro j hj
    have hmarked := hassigned.mark hi (i + 1) (by omega) j hj
    rwa [decide_eq_true i.lt_succ_self] at hmarked
  · next hi =>
    refine ⟨⟨h.cube, h.checked, fun j _ hkj hjn => h.spent j (by omega) hkj hjn⟩, fun j hj => ?_⟩
    exact (hassigned j hj).trans (decide_eq_decide.mpr (by omega))

/-- With both colours searched to their end, so is the depth. -/
theorem Path.dead (h : Path input index k i (i + 1) board) (hk : k ≤ i) (hi : i < input.n)
    (hdead : Dead input (i + 1) board) (hone : board.colour (input.orderAt i) ≠ 0) :
    Dead input i board := by
  intro χ hχ hagree
  -- its colour here was searched: 0 when this was flipped, 1 just now
  by_cases hzero : χ (input.orderAt i) = 0
  · refine h.spent i i.lt_succ_self hk hi hone χ hχ fun l hl => ?_
    rcases Nat.lt_succ_iff_lt_or_eq.mp hl with hlt | rfl
    · rw [colour_paint_of_ne hi (by omega) (by omega), hagree l hlt]
    · rw [hzero, colour_paint_self]
  · refine hdead χ hχ fun l hl => ?_
    rcases Nat.lt_succ_iff_lt_or_eq.mp hl with hlt | rfl
    · exact hagree l hlt
    · rw [Fin.eq_one_of_ne_zero _ hzero, Fin.eq_one_of_ne_zero _ hone]

/-! ## The search -/

/-- What an answer says. -/
def Answers (input : Input) (index k : Nat) (board : Board) : Status → Prop
  | .exhausted => ∀ χ, Proper input χ → ¬ InCube input index k χ
  | .found => Proper input board.colour ∧ InCube input index k board.colour
  | .budget => True

/-- Where a round begins. -/
structure Begins (input : Input) (index k : Nat) (at_ : Nat × Nat) (board : Board) : Prop where
  above : k ≤ at_.1
  path : Path input index k at_.1 (at_.1 + 1) board
  assigned : Assigned input (at_.1 + 1) board

/-- Nothing is left of a cube whose own values are a dead end. -/
theorem Path.exhausted (h : Path input index k i top board) {m : Nat} (hm : m ≤ k)
    (hdead : Dead input m board) (χ : Nat → Fin 2) (hχ : Proper input χ) :
    ¬ InCube input index k χ :=
  fun hcube => hdead χ hχ fun l hl => (hcube l (by omega)).trans (h.cube l (by omega)).symm

theorem Begins.flip (h : Begins input index k (i, steps) board) (hi : i < input.n)
    (hdead : Dead input (i + 1) board) (hzero : board.colour (input.orderAt i) = 0) :
    Begins input index k (i, steps) (board.paint (input.orderAt i) 1) ∧
      toGo input (i, steps) (board.paint (input.orderAt i) 1) < toGo input (i, steps) board := by
  have hbelow : Path input index k i i board :=
    ⟨h.path.cube, h.path.checked, fun j hj => h.path.spent j (Nat.lt_succ_of_lt hj)⟩
  have hsame : board.paint (input.orderAt i) 0 = board := by
    rw [Board.paint, ← hzero, Function.update_eq_self]
  refine ⟨⟨h.above, hbelow.paint h.above hi 1 fun _ => ?_, h.assigned⟩, ?_⟩
  · rw [Spent, hsame]
    exact hdead
  · simp only [toGo, colour_paint_self, hzero]
    rw [if_neg (by decide), if_pos trivial]
    exact Nat.lt_succ_self _

/-- The depth above is given up: its value is free again. -/
theorem Begins.undo (h : Begins input index k (i + 1, steps) board)
    (hi : i + 1 < input.n) (hk : k ≤ i) (hsteps : steps + 1 < input.budget) :
    Begins input index k (i, steps + 1) (board.mark (input.orderAt (i + 1)) false) ∧
      toGo input (i, steps + 1) (board.mark (input.orderAt (i + 1)) false)
        ≤ toGo input (i + 1, steps) board := by
  have hfree := h.assigned.mark hi (i + 1) (by dsimp only; omega)
  rw [decide_eq_false (lt_irrefl _)] at hfree
  refine ⟨⟨hk, Path.mark ⟨h.path.cube, ?_, ?_⟩ _ _, hfree⟩, ?_⟩
  · refine fun t ht hbelow => h.path.checked t ht fun v hv => ?_
    obtain ⟨j, hj, heq⟩ := hbelow v hv
    exact ⟨j, Nat.lt_succ_of_lt hj, heq⟩
  · exact fun j hj => h.path.spent j (Nat.lt_succ_of_lt hj)
  · simp only [toGo]
    split <;> omega

/-- A conflict ends the search for a reason, or moves it on. -/
theorem back_spec (h : Begins input index k (i, steps) board) (hi : i < input.n)
    (hdead : Dead input (i + 1) board) :
    match back input k i steps board with
    | .inl status => ∀ board, Answers input index k board status
    | .inr (i', steps', board') => Begins input index k (i', steps') board' ∧
        toGo input (i', steps') board' < toGo input (i, steps) board := by
  -- on the depth: each depth given up is searched to its end in both colours
  induction i generalizing steps board with
  | zero =>
    by_cases hzero : board.colour (input.orderAt 0) = 0
    · rw [back, if_pos hzero]
      exact h.flip hi hdead hzero
    · rw [back, if_neg hzero]
      exact fun _ => h.path.exhausted (Nat.zero_le k) (h.path.dead h.above hi hdead hzero)
  | succ i ih =>
    by_cases hzero : board.colour (input.orderAt (i + 1)) = 0
    · rw [back, if_pos hzero]
      exact h.flip hi hdead hzero
    rw [back, if_neg hzero]
    have hdead := h.path.dead h.above hi hdead hzero
    by_cases hk : i < k
    · rw [if_pos hk]
      exact fun _ => h.path.exhausted hk hdead
    rw [if_neg hk]
    by_cases hsteps : input.budget ≤ steps + 1
    · rw [if_pos hsteps]
      exact fun _ => trivial
    rw [if_neg hsteps]
    obtain ⟨hbegins, hle⟩ := h.undo hi (Nat.not_lt.mp hk) (Nat.not_le.mp hsteps)
    have hnext := ih hbegins (by omega) hdead
    split at hnext
    · next heq =>
      rw [heq]
      exact hnext
    · next heq =>
      rw [heq]
      exact ⟨hnext.1, hnext.2.trans_le hle⟩

theorem round_spec {at_ : Nat × Nat} (h : Begins input index k at_ board) :
    Ends (round input k at_) (fun r board' => match r with
      | .inl next => Begins input index k next board' ∧
          toGo input next board' < toGo input at_ board
      | .inr status => Answers input index k board' status) board := by
  obtain ⟨i, steps⟩ := at_
  by_cases hi : input.n ≤ i
  · -- below the last depth is every triple
    refine ⟨.inr .found, board, by rw [round, if_pos hi], fun t ht => ?_, h.path.cube⟩
    refine h.path.checked t ht fun v hv => ?_
    obtain ⟨j, hj, heq⟩ := Input.depth ht hv
    exact ⟨j, hj.trans_le hi, heq⟩
  have hlt := Nat.not_le.mp hi
  have hok := okAt_iff (v := input.orderAt i) h.assigned hlt
  by_cases hchecked : okAt input board (input.orderAt i) = true
  · refine ⟨.inl (i + 1, steps), enter input (i + 1) board, ?_, ?_⟩
    · rw [round, if_neg hi, if_pos hchecked]
    · have hpath : Path input index k (i + 1) (i + 1) board := by
        refine ⟨h.path.cube, fun t ht hbelow => ?_, h.path.spent⟩
        by_cases hin : input.orderAt i ∈ t.members
        · exact hok.mp hchecked t ht hin hbelow
        · refine h.path.checked t ht fun v hv => ?_
          obtain ⟨j, hj, rfl⟩ := hbelow v hv
          exact ⟨j, (Nat.lt_succ_iff_lt_or_eq.mp hj).resolve_right fun heq => hin (heq ▸ hv), rfl⟩
      have habove : k ≤ i + 1 := Nat.le_succ_of_le h.above
      obtain ⟨hentered, hassigned⟩ := hpath.enter h.assigned habove
      refine ⟨⟨habove, hentered, hassigned⟩, ?_⟩
      simp only [toGo]
      split <;> omega
  · have hdead : Dead input (i + 1) board := by
      -- a colouring that agrees so far would pass the check
      intro χ hχ hagree
      refine hchecked (hok.mpr fun t ht _ hbelow hmono => ?_)
      exact hχ t ht (hbelow.mono hagree hmono)
    have hback := back_spec h hlt hdead
    have hround : round input k (i, steps) board
        = match back input k i steps board with
          | .inl status => .ok (.inr status, board)
          | .inr (i, steps, board) => .ok (.inl (i, steps), board) := by
      rw [round, if_neg hi, if_neg hchecked]
    split at hback
    · next status heq => exact ⟨.inr status, board, by rw [hround, heq], hback board⟩
    · next i' steps' board' heq => exact ⟨.inl (i', steps'), board', by rw [hround, heq], hback⟩

/-- The search ends, whatever the cube, and what it answers is so. -/
theorem run_spec (input : Input) (index count : Nat) : ∃ status board,
    run input index count = .ok (status, board) ∧
      Answers input index (cubeDepth input count) board status := by
  have hk : cubeDepth input count ≤ input.n := Nat.min_le_right _ _
  rw [run]
  generalize cubeDepth input count = k at hk ⊢
  have hfixed : ∀ m ≤ input.n, Assigned input m (fixed input index m) ∧
      InCube input index m (fixed input index m).colour := by
    intro m hm
    induction m with
    | zero => exact ⟨fun _ _ => rfl, fun _ hl => absurd hl (Nat.not_lt_zero _)⟩
    | succ m ih =>
      obtain ⟨hassigned, hcube⟩ := ih (by omega)
      rw [fixed, List.range_succ, List.foldl_append]
      constructor
      · intro j hj
        have hmarked := hassigned.mark hm (m + 1) (by omega) j hj
        rwa [decide_eq_true m.lt_succ_self] at hmarked
      · intro l hl
        rcases Nat.lt_succ_iff_lt_or_eq.mp hl with hlt | rfl
        · exact (colour_paint_of_ne hm (by omega) (by omega) _).trans (hcube l hlt)
        · exact colour_paint_self _ _
  obtain ⟨hassigned, hcube⟩ := hfixed k hk
  have hok := fun i => okAt_iff (v := input.orderAt i) hassigned hk
  split
  · next hall =>
    rw [List.all_eq_true] at hall
    have hpath : Path input index k k k (fixed input index k) := by
      refine ⟨hcube, fun t ht hbelow => ?_, fun j hj hkj => absurd hj (Nat.not_lt.mpr hkj)⟩
      obtain ⟨j, hj, hv⟩ := hbelow t.a List.mem_cons_self
      exact (hok j).mp (hall j (List.mem_range.mpr hj)) t ht (hv ▸ List.mem_cons_self) hbelow
    obtain ⟨hentered, hfirst⟩ := hpath.enter hassigned le_rfl
    show Ends (loop (round input k) _ (k, 0))
      (fun status board => Answers input index k board status)
      (enter input k (fixed input index k))
    refine ends_loop (Begins input index k) (toGo input)
      (fun _ _ h => (round_spec h).mono fun r _ hr => ?_) ⟨le_rfl, hentered, hfirst⟩ ?_
    · cases r <;> exact hr
    · simp only [toGo]
      split <;> omega
  · next hnone =>
    refine ⟨.exhausted, _, rfl, fun χ hχ hin => hnone (List.all_eq_true.mpr fun j hj => ?_)⟩
    refine (hok j).mpr fun t ht _ hbelow hmono => hχ t ht (hbelow.mono (fun l hl => ?_) hmono)
    exact (hin l hl).trans (hcube l hl).symm

/-- Every colouring is in the cube of some shard. -/
theorem exists_inCube (input : Input) {count : Nat} (hcount : 0 < count) (χ : Nat → Fin 2) :
    ∃ index < count, InCube input index (cubeDepth input count) χ := by
  -- the index whose bits are the colours at the depths of the cube
  let bit (i : Fin (cubeDepth input count)) : Bool := decide (χ (input.orderAt i) ≠ 0)
  refine ⟨Nat.ofBits bit, ?_, fun i hi => ?_⟩
  · have hdepth : cubeDepth input count ≤ Nat.log2 count := by
      rw [cubeDepth, if_neg hcount.ne']
      exact Nat.min_le_left _ _
    calc Nat.ofBits bit < 2 ^ cubeDepth input count := Nat.ofBits_lt_two_pow bit
      _ ≤ 2 ^ Nat.log2 count := Nat.pow_le_pow_right Nat.two_pos hdepth
      _ ≤ count := Nat.log2_self_le hcount.ne'
  · have hbit := Nat.testBit_ofBits_lt bit i hi
    rw [Nat.testBit_eq_decide_div_mod_eq, decide_eq_decide] at hbit
    rw [cubeBit, Nat.and_one_is_mod, Nat.shiftRight_eq_div_pow]
    split
    · next hone => exact Fin.eq_one_of_ne_zero _ (hbit.mp hone)
    · next hzero => exact not_not.mp fun hne => hzero (hbit.mpr hne)

/-- On every block the search of every shard ends, and what it answers is so: a colouring
    it reports leaves no triple of one colour and is of the shard's cube, a cube it
    exhausts has none, and shards that exhaust every cube leave none at all. -/
theorem search_is_exact (input : Input) :
    (∀ index count, ∃ status board, run input index count = .ok (status, board) ∧
      Answers input index (cubeDepth input count) board status) ∧
    ∀ count, 0 < count →
      (∀ index < count, ∃ board, run input index count = .ok (.exhausted, board)) →
      ∀ χ, ¬ Proper input χ := by
  refine ⟨run_spec input, fun count hcount hall χ hχ => ?_⟩
  obtain ⟨index, hindex, hcube⟩ := exists_inCube input hcount χ
  obtain ⟨_, hrun⟩ := hall index hindex
  obtain ⟨status, board, hrun', hanswers⟩ := run_spec input index count
  rw [hrun] at hrun'
  cases hrun'
  exact hanswers χ hχ hcube

/-- A triple of one value, which every colouring leaves of one colour. -/
def stuck : Input := ⟨[⟨1, 1, 1⟩], [2, 1], 9, by decide, by decide⟩

theorem search_is_exact_stuck : ∀ χ, ¬ Proper stuck χ :=
  (search_is_exact stuck).2 3 (by decide) fun index hindex => by
    obtain rfl | rfl | rfl : index = 0 ∨ index = 1 ∨ index = 2 := by omega
    all_goals exact ⟨_, rfl⟩

end O2Fabric.Colouring
