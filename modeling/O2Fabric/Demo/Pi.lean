/-
  O2Fabric.Demo.Pi

  The kernel that sums a range of the Madhava-Leibniz series in fixed point.

  Over any sharding it is exact: the ranges tile the series, nothing overflows,
  and what any of the shards sum to, in whatever grouping, is a safe integer.
-/

import Mathlib.Algebra.BigOperators.Ring.Finset
import Mathlib.Algebra.Order.BigOperators.Group.Finset
import O2Fabric.Demo.Kernel

namespace O2Fabric.Pi

open Guest Program Kernel

/-! ## The kernel -/

def MAX_TERMS : Nat := 2147483647

def SCALE : Nat := 1000000000000000

def MEMORY_SIZE : Nat := 65536

section

variable (machine : Machine)

/-- The sign is the parity of the term's own index. -/
def addTerm (sum : ℤ) (k : Nat) (term : ℤ) : Run ℤ :=
  if k &&& 1 = 0 then i64Add machine sum term else i64Sub machine sum term

/-- The terms from `lo` to before `hi`, added up. -/
def sumTerms (rounds lo hi : Nat) : Run ℤ :=
  loop (fun (k, sum) => do
    if hi ≤ k then return .inr sum
    else do
      let twice ← i64Mul machine k 2
      let odd ← i64Add machine twice 1
      let term ← i64DivU SCALE odd
      let sum ← addTerm machine sum k term
      let k ← i32Add machine k 1
      return .inl (k, sum)) rounds (lo, 0)

/-- The status and the sum that are emitted. -/
def answer (rounds : Nat) : Run (ℤ × Fin 256) := do
  let bound ← pullBlock machine MAX_TERMS
  match bound with
  | none => return (0, 1)
  | some terms => do
    let shard ← ownShard machine
    match shard with
    | none => return (0, 1)
    | some (index, count) => do
      let (lo, hi) ← ownRange machine terms index count
      let sum ← sumTerms machine rounds lo hi
      return (sum, 0)

def run (rounds : Nat) : Run Unit := do
  let (sum, status) ← answer machine rounds
  emit machine 0x70 sum status

end

/-! ## The host -/

def PI_INPUT_VERSION : Nat := 1

def PI_MAX_TERMS : Nat := 2147483647

/-- `buildPiInput(terms)`, `none` where it throws. -/
def buildPiInput (terms : Nat) : Option Bytes :=
  if PI_MAX_TERMS < terms then none
  else some (littleEndian PI_INPUT_VERSION 4 ++ littleEndian terms 4)

/-- `getBigInt64`. -/
def bigInt64 (bytes : Bytes) : ℤ := (wordOf bytes : ℤ).bmod (2 ^ 64)

def piForm : PartialForm := ⟨js "p", js "pi partial", js "a partial", bigInt64⟩

def readPiPartial : CanonicalValue → Except JsString ℤ := readPartial piForm

/-! ## Alternating sums -/

/-- A term of the series without its sign. -/
def termSize (k : Nat) : Nat := SCALE / (2 * k + 1)

def term (k : Nat) : ℤ := (-1) ^ k * termSize k

theorem termSize_antitone {i j : Nat} (h : i ≤ j) : termSize j ≤ termSize i :=
  Nat.div_le_div_left (by omega) (by omega)

/-- The sum of a stretch has the sign of its first term and is no larger. -/
theorem sum_stretch (lo n : Nat) :
    0 ≤ (-1) ^ lo * ∑ k ∈ Finset.Ico lo (lo + n), term k ∧
      (-1) ^ lo * ∑ k ∈ Finset.Ico lo (lo + n), term k ≤ termSize lo := by
  induction n generalizing lo with
  | zero => simp
  | succ n ih =>
    obtain ⟨hlow, hhigh⟩ := ih (lo + 1)
    have hsign : (-1 : ℤ) ^ lo * (-1) ^ lo = 1 := by
      rw [← mul_pow]
      norm_num
    have hstep : (-1) ^ lo * ∑ k ∈ Finset.Ico lo (lo + (n + 1)), term k
        = termSize lo - (-1) ^ (lo + 1) * ∑ k ∈ Finset.Ico (lo + 1) (lo + 1 + n), term k := by
      rw [Finset.sum_eq_sum_Ico_succ_bot (by omega), term, mul_add, ← mul_assoc, hsign,
        show lo + (n + 1) = lo + 1 + n by omega]
      ring
    have hnext : (termSize (lo + 1) : ℤ) ≤ termSize lo := by
      exact_mod_cast termSize_antitone (Nat.le_succ lo)
    rw [hstep]
    omega

theorem abs_sum_stretch_le (lo hi : Nat) :
    |∑ k ∈ Finset.Ico lo hi, term k| ≤ termSize lo := by
  rcases Nat.le_total hi lo with hempty | hle
  · rw [Finset.Ico_eq_empty (by omega), Finset.sum_empty, abs_zero]
    exact Int.natCast_nonneg _
  · obtain ⟨n, rfl⟩ := Nat.exists_eq_add_of_le hle
    obtain ⟨hlow, hhigh⟩ := sum_stretch lo n
    have habs : |∑ k ∈ Finset.Ico lo (lo + n), term k|
        = |(-1) ^ lo * ∑ k ∈ Finset.Ico lo (lo + n), term k| := by
      rw [abs_mul, abs_pow, abs_neg, abs_one, one_pow, one_mul]
    rw [habs, abs_of_nonneg hlow]
    exact hhigh

/-- Each block of the harmonic sum up to a power of two is below half the scale. -/
theorem sum_termSize_le (m : Nat) :
    ∑ i ∈ Finset.range (2 ^ m), termSize i ≤ SCALE + m * (SCALE / 2) := by
  induction m with
  | zero => decide
  | succ m ih =>
    have hblock : ∑ i ∈ Finset.Ico (2 ^ m) (2 ^ (m + 1)), termSize i ≤ SCALE / 2 := by
      have heach : ∀ i ∈ Finset.Ico (2 ^ m) (2 ^ (m + 1)), termSize i ≤ SCALE / 2 / 2 ^ m := by
        intro i hi
        rw [Nat.div_div_eq_div_mul]
        exact Nat.div_le_div_left (by have := (Finset.mem_Ico.mp hi).1; omega) (by positivity)
      have hcard : (Finset.Ico (2 ^ m) (2 ^ (m + 1))).card = 2 ^ m := by
        rw [Nat.card_Ico, Nat.pow_succ]
        omega
      calc ∑ i ∈ Finset.Ico (2 ^ m) (2 ^ (m + 1)), termSize i
          ≤ (Finset.Ico (2 ^ m) (2 ^ (m + 1))).card * (SCALE / 2 / 2 ^ m) :=
            Finset.sum_le_card_nsmul _ _ _ heach
        _ = 2 ^ m * (SCALE / 2 / 2 ^ m) := by rw [hcard]
        _ ≤ SCALE / 2 := Nat.mul_div_le _ _
    have hpow : 2 ^ m ≤ 2 ^ (m + 1) := Nat.pow_le_pow_right (by omega) (by omega)
    rw [Finset.range_eq_Ico, ← Finset.sum_Ico_consecutive _ (Nat.zero_le (2 ^ m)) hpow,
      ← Finset.range_eq_Ico, Nat.add_one_mul]
    omega

/-! ## Shards -/

/-- What a shard's terms sum to. -/
def partialOf (terms count index : Nat) : ℤ :=
  ∑ k ∈ Finset.Ico (EvenSplit.start terms count index) (EvenSplit.start terms count (index + 1)),
    term k

theorem abs_partialOf_le (terms count index : Nat) :
    |partialOf terms count index| ≤ termSize index := by
  unfold partialOf
  by_cases hsome : EvenSplit.start terms count index < EvenSplit.start terms count (index + 1)
  · have hlater : (termSize (EvenSplit.start terms count index) : ℤ) ≤ termSize index := by
      exact_mod_cast termSize_antitone (EvenSplit.le_start_of_lt hsome)
    exact (abs_sum_stretch_le _ _).trans hlater
  · rw [Finset.Ico_eq_empty hsome, Finset.sum_empty, abs_zero]
    exact Int.natCast_nonneg _

/-- Whichever shards are added up, the sum is a safe integer. -/
theorem abs_sum_partials_lt (terms count : Nat) {shards : Finset Nat}
    (h : ∀ i ∈ shards, i < 2 ^ 16) :
    |∑ i ∈ shards, partialOf terms count i| < MAX_SAFE_INTEGER := by
  have hsubset : shards ⊆ Finset.range (2 ^ 16) := fun i hi => Finset.mem_range.mpr (h i hi)
  have hterms : ∑ i ∈ shards, termSize i ≤ SCALE + 16 * (SCALE / 2) :=
    (Finset.sum_le_sum_of_subset hsubset).trans (sum_termSize_le 16)
  have hsum : |∑ i ∈ shards, partialOf terms count i| ≤ ((∑ i ∈ shards, termSize i : ℕ) : ℤ) := by
    rw [Nat.cast_sum]
    exact (Finset.abs_sum_le_sum_abs _ _).trans
      (Finset.sum_le_sum fun i _ => abs_partialOf_le terms count i)
  have hbound : SCALE + 16 * (SCALE / 2) = 9000000000000000 := by decide
  unfold MAX_SAFE_INTEGER
  omega

/-! ## What a run ends with -/

section

variable {machine : Machine} {s : Store} {rounds lo hi : Nat}

/-- The accumulator after one more term; it is below the scale all along. -/
theorem addTerm_eq (lo : Nat) {k : Nat} (h : lo ≤ k) :
    addTerm machine (∑ i ∈ Finset.Ico lo k, term i) k (termSize k)
      = pure (∑ i ∈ Finset.Ico lo (k + 1), term i) := by
  have hbound : |∑ i ∈ Finset.Ico lo (k + 1), term i| ≤ termSize lo := abs_sum_stretch_le lo (k + 1)
  have hscale : termSize lo ≤ SCALE := Nat.div_le_self _ _
  have hconst : SCALE = 1000000000000000 := rfl
  obtain ⟨hlow, hhigh⟩ := abs_le.mp hbound
  rw [Finset.sum_Ico_succ_top h, term] at hlow hhigh ⊢
  rw [addTerm, Nat.and_one_is_mod]
  by_cases heven : k % 2 = 0
  · rw [(Nat.even_iff.mpr heven).neg_one_pow, one_mul] at hlow hhigh ⊢
    rw [if_pos heven, i64Add_eq (by omega) (by omega)]
  · rw [(Nat.odd_iff.mpr (by omega)).neg_one_pow, neg_one_mul, ← sub_eq_add_neg] at hlow hhigh ⊢
    rw [if_neg heven, i64Sub_eq (by omega) (by omega)]

theorem ends_sumTerms (hle : lo ≤ hi) (hhi : hi ≤ MAX_TERMS) (hrounds : MAX_TERMS < rounds) :
    Ends (sumTerms machine rounds lo hi)
      (fun sum s' => sum = ∑ k ∈ Finset.Ico lo hi, term k ∧ s' = s) s := by
  have hmax : MAX_TERMS = 2147483647 := rfl
  have hconst : SCALE = 1000000000000000 := rfl
  refine ends_loop (fun b s' => lo ≤ b.1 ∧ b.1 ≤ hi ∧
    b.2 = ∑ k ∈ Finset.Ico lo b.1, term k ∧ s' = s) (fun b _ => hi - b.1) ?_ ?_ ?_
  · intro b s' hinv
    obtain ⟨k, sum⟩ := b
    obtain ⟨hlo, hk, hsum, hs⟩ := hinv
    dsimp only at hlo hk hsum ⊢
    rw [hsum, hs]
    by_cases hdone : hi ≤ k
    · rw [if_pos hdone]
      refine ends_pure.mpr ⟨?_, rfl⟩
      rw [Nat.le_antisymm hk hdone]
    · have hterm : (SCALE : ℤ) / ((k : ℤ) * 2 + 1) = termSize k := by
        rw [termSize, Int.natCast_div]
        push_cast
        rw [mul_comm]
      rw [if_neg hdone, i64Mul_eq (by omega) (by omega), pure_bind, i64Add_eq (by omega) (by omega),
        pure_bind, i64DivU_eq (by omega) (by omega) (by omega) (by omega), pure_bind, hterm,
        addTerm_eq lo hlo, pure_bind, i32Add_eq (by omega), pure_bind]
      refine ends_pure.mpr ⟨⟨by omega, by omega, rfl, rfl⟩, ?_⟩
      show hi - (k + 1) < hi - k
      omega
  · exact ⟨Nat.le_refl lo, hle, by rw [Finset.Ico_self, Finset.sum_empty], rfl⟩
  · show hi - lo < rounds
    omega

/-- What a machine with such an input and such a word of `partition()` answers. -/
def answerOf (input : Bytes) (word : Nat) : ℤ × Fin 256 :=
  match blockBound input MAX_TERMS, shardOf word with
  | some terms, some (index, count) => (partialOf terms count index, 0)
  | _, _ => (0, 1)

theorem ends_answer (hsize : machine.memorySize = MEMORY_SIZE) (hrounds : MAX_TERMS < rounds) :
    Ends (answer machine rounds)
      (fun a _ => a = answerOf machine.input machine.partitionWord) s := by
  have hmemory : MEMORY_SIZE = 65536 := rfl
  refine (ends_pullBlock (by omega)).andThen ?_
  rintro bound s₁ rfl
  unfold answerOf
  cases hbound : blockBound machine.input MAX_TERMS with
  | none => exact ends_pure.mpr rfl
  | some terms =>
    refine ends_ownShard.andThen ?_
    rintro shard s₂ ⟨rfl, rfl⟩
    cases hshard : shardOf machine.partitionWord with
    | none => exact ends_pure.mpr rfl
    | some shard =>
      obtain ⟨index, count⟩ := shard
      have hterms : terms ≤ 2147483647 := blockBound_le hbound
      obtain ⟨hindex, hcount⟩ := shardOf_bounds hshard
      dsimp only
      rw [ownRange_eq (by omega) hcount hindex, pure_bind]
      have hpiece : EvenSplit.start terms count index
          ≤ EvenSplit.start terms count (index + 1) :=
        EvenSplit.start_le_start (Nat.le_succ index)
      have hend : EvenSplit.start terms count (index + 1) ≤ terms :=
        EvenSplit.start_le_total (by omega) hindex
      refine (ends_sumTerms hpiece (hend.trans hterms) hrounds).andThen ?_
      rintro sum s₃ ⟨rfl, -⟩
      exact ends_pure.mpr rfl

theorem ends_run (hsize : machine.memorySize = MEMORY_SIZE) (hrounds : MAX_TERMS < rounds) :
    Ends (run machine rounds) (fun _ s' => s'.output
      = some (frame 0x70 (answerOf machine.input machine.partitionWord).1
          (answerOf machine.input machine.partitionWord).2)) s := by
  refine (ends_answer hsize hrounds).andThen ?_
  rintro ⟨sum, status⟩ s' heq
  rw [← heq]
  exact ends_emit (by rw [hsize]; decide) 0x70 sum status

end

/-! ## Adding up -/

def toDouble (n : ℤ) : ℤ := n.sign * toNumber n.natAbs

variable {n : ℤ}

theorem toDouble_safe (h : |n| < MAX_SAFE_INTEGER) : toDouble n = n := by
  have hsmall : n.natAbs < 2 ^ 53 := by
    obtain ⟨hlow, hhigh⟩ := abs_lt.mp h
    unfold MAX_SAFE_INTEGER at hlow hhigh
    omega
  rw [toDouble, toNumber_small hsmall, Int.sign_mul_natAbs]

/-- A way to add results up, from nothing or from a shard's.  Each merge of `fabricCombiner` adds
    from zero, one input after another. -/
inductive Adding
  | nothing
  | shard (index : Nat)
  | plus (a b : Adding)

namespace Adding

def shards : Adding → List Nat
  | nothing => []
  | shard index => [index]
  | plus a b => a.shards ++ b.shards

/-- What a combiner makes of it: every addition is one of doubles. -/
def total (value : Nat → ℤ) : Adding → ℤ
  | nothing => 0
  | shard index => value index
  | plus a b => toDouble (a.total value + b.total value)

/-- Where any sum of shards is safe, additions are exact. -/
theorem total_eq {value : Nat → ℤ} {count : Nat}
    (hsafe : ∀ shards : Finset Nat, (∀ i ∈ shards, i < count) →
      |∑ i ∈ shards, value i| < MAX_SAFE_INTEGER)
    (adding : Adding) (hnodup : adding.shards.Nodup) (hcount : ∀ i ∈ adding.shards, i < count) :
    adding.total value = ∑ i ∈ adding.shards.toFinset, value i := by
  induction adding with
  | nothing => rfl
  | shard index => simp [total, shards]
  | plus a b iha ihb =>
    obtain ⟨ha, hb, hapart⟩ := List.nodup_append.mp hnodup
    have hdisjoint : Disjoint a.shards.toFinset b.shards.toFinset := by
      rw [Finset.disjoint_left]
      intro i hi hi'
      exact hapart i (List.mem_toFinset.mp hi) i (List.mem_toFinset.mp hi') rfl
    have hsum : ∑ i ∈ (plus a b).shards.toFinset, value i
        = ∑ i ∈ a.shards.toFinset, value i + ∑ i ∈ b.shards.toFinset, value i := by
      rw [shards, List.toFinset_append, Finset.sum_union hdisjoint]
    rw [total, iha ha fun i hi => hcount i (List.mem_append_left _ hi),
      ihb hb fun i hi => hcount i (List.mem_append_right _ hi), ← hsum]
    exact toDouble_safe (hsafe _ fun i hi => hcount i (List.mem_toFinset.mp hi))

end Adding

/-! ## Any sharding -/

/-- The low word of a signed number, taken as a signed word again. -/
theorem bmod_word (h : -9223372036854775808 ≤ n ∧ n < 9223372036854775808) :
    Int.bmod ((n % 18446744073709551616).toNat : ℤ) 18446744073709551616 = n := by
  rw [Int.toNat_of_nonneg (by omega)]
  unfold Int.bmod
  simp only []
  split <;> omega

theorem bigInt64_littleEndian (h : |n| ≤ MAX_SAFE_INTEGER) :
    bigInt64 (littleEndian (n % 2 ^ 64).toNat 8) = n := by
  have hrange : -9223372036854775808 ≤ n ∧ n < 9223372036854775808 := by
    obtain ⟨hlow, hhigh⟩ := abs_le.mp h
    unfold MAX_SAFE_INTEGER at hlow hhigh
    omega
  have hword : wordOf (littleEndian (n % 2 ^ 64).toNat 8) = (n % 2 ^ 64).toNat :=
    wordOf_littleEndian (by omega)
  unfold bigInt64
  simp only [hword]
  exact bmod_word hrange

/-- A partial that is a safe integer is what the host reads off its frame. -/
theorem readPiPartial_eq (h : |n| ≤ MAX_SAFE_INTEGER) :
    readPiPartial (partialValue (js "p") n 0) = .ok n := by
  obtain ⟨hlow, hhigh⟩ := abs_le.mp h
  have hkey : piForm.key ≠ js "s" := by simp [piForm]
  have hwide : piForm.wide (littleEndian (n % 2 ^ 64).toNat 8) = n := by
    simp only [piForm]
    exact bigInt64_littleEndian h
  exact readPartial_ok hkey hwide hlow hhigh

theorem abs_partialOf_lt (terms count : Nat) {index : Nat} (h : index < 2 ^ 16) :
    |partialOf terms count index| < MAX_SAFE_INTEGER := by
  have hall : ∀ i ∈ ({index} : Finset Nat), i < 2 ^ 16 := fun i hi => by
    rw [Finset.mem_singleton.mp hi]
    exact h
  have hone := abs_sum_partials_lt terms count hall
  rwa [Finset.sum_singleton] at hone

/-- Over any sharding the kernel is exact, on a machine where arithmetic wraps and on one where it
    may not. -/
theorem series_is_exact {terms count : Nat} {block : Bytes}
    (hblock : buildPiInput terms = some block) (hcount : 0 < count) (hmax : count ≤ 65535) :
    (∀ k < terms, ∃ i, (i < count ∧ EvenSplit.start terms count i ≤ k ∧
        k < EvenSplit.start terms count (i + 1)) ∧
      ∀ j, j < count ∧ EvenSplit.start terms count j ≤ k ∧
        k < EvenSplit.start terms count (j + 1) → j = i) ∧
    (∀ i < count, EvenSplit.start terms count (i + 1) ≤ terms) ∧
    (∀ index < count, ∀ (machine : Machine) (s : Store), machine.input = Cbor.byteString block →
      machine.partitionWord = (Wasm.packPartition index count).toNat →
      machine.memorySize = MEMORY_SIZE → ∀ rounds > MAX_TERMS,
      Ends (run machine rounds) (fun _ s' =>
        s'.output = some (frame 0x70 (partialOf terms count index) 0)) s) ∧
    ∑ index ∈ Finset.range count, partialOf terms count index
      = ∑ k ∈ Finset.range terms, (-1) ^ k * ((SCALE / (2 * k + 1) : ℕ) : ℤ) ∧
    (∀ shards ⊆ Finset.range count,
      |∑ index ∈ shards, partialOf terms count index| < MAX_SAFE_INTEGER) ∧
    (∀ (machine : Machine) (s : Store), machine.memorySize = MEMORY_SIZE → ∀ rounds > MAX_TERMS,
      Ends (run machine rounds) (fun _ s' => ∃ sum status,
        s'.output = some (frame 0x70 sum status) ∧
        (∀ codec : DagCbor, codec.encodeCanonical (partialValue (js "p") sum status)
          = some (frame 0x70 sum status)) ∧
        (status = 0 → readPiPartial (partialValue (js "p") sum status) = .ok sum)) s) ∧
    (∀ adding : Adding, adding.shards.Nodup → (∀ i ∈ adding.shards, i < count) →
      adding.total (partialOf terms count)
        = ∑ index ∈ adding.shards.toFinset, partialOf terms count index) := by
  have hsafe : ∀ shards : Finset Nat, (∀ i ∈ shards, i < count) →
      |∑ i ∈ shards, partialOf terms count i| < MAX_SAFE_INTEGER := fun shards hall =>
    abs_sum_partials_lt terms count fun i hi => by have := hall i hi; omega
  refine ⟨fun k hk => EvenSplit.exists_unique_piece hcount hk,
    fun i hi => EvenSplit.start_le_total hcount hi, ?_, EvenSplit.sum_pieces term hcount,
    fun shards hsub => hsafe shards fun i hi => Finset.mem_range.mp (hsub hi), ?_,
    fun adding hnodup hall => adding.total_eq hsafe hnodup hall⟩
  · intro index hindex machine s hinput hword hsize rounds hrounds
    refine (ends_run hsize hrounds).mono fun _ s' houtput => ?_
    have hbound : blockBound machine.input MAX_TERMS = some terms := by
      unfold buildPiInput at hblock
      split at hblock
      · cases hblock
      next hfits =>
        cases hblock
        rw [hinput]
        exact blockBound_built (by decide) (Nat.le_of_not_lt hfits)
    rw [houtput, answerOf, hbound, hword, shardOf_packPartition hindex hmax]
  · intro machine s hsize rounds hrounds
    refine (ends_run hsize hrounds).mono fun _ s' houtput => ⟨_, _, houtput, ?_, ?_⟩
    · exact fun codec => encodeCanonical_partialValue codec (by decide) (by decide) _ _
    · intro hzero
      rw [hzero]
      apply readPiPartial_eq
      unfold answerOf at hzero ⊢
      split at hzero
      · next terms' index' count' _ hshard =>
        obtain ⟨hindex, hlimit⟩ := shardOf_bounds hshard
        exact le_of_lt (abs_partialOf_lt terms' count' (by omega))
      · cases hzero

theorem series_is_exact_three : ∃ block, buildPiInput 3 = some block ∧ 0 < 2 ∧ 2 ≤ 65535 ∧
    ∑ index ∈ Finset.range 2, partialOf 3 2 index
      = ∑ k ∈ Finset.range 3, (-1) ^ k * ((SCALE / (2 * k + 1) : ℕ) : ℤ) :=
  ⟨_, rfl, by omega, by omega, (series_is_exact rfl (by omega) (by omega)).2.2.2.1⟩

end O2Fabric.Pi
