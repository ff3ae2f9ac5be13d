/-
  O2Fabric.Demo.Primes.Exact

  The count of a range, a segment at a time, and the whole kernel.

  Over any sharding it is exact: the ranges tell the numbers from two up to the
  bound apart, nothing wraps or strays, and each shard counts its range's primes.
  What it refuses the host takes for an error.
-/

import O2Fabric.Demo.Primes

namespace O2Fabric.Primes

open Guest Program Kernel Sieve

/-! ## The kernel -/

section

variable (machine : Machine)

/-- An entry of the base list. -/
def baseAt (k : Nat) : Run Nat := do
  let offset ← i32Shl machine k 2
  let address ← i32Add machine BASE_LIST.start offset
  load machine 4 BASE_LIST address

/-- Where in a segment marking starts. -/
def startOf (segLo p : Nat) : Run Nat := do
  let square ← i32Mul machine p p
  if square < segLo then do
    let sum ← i32Add machine segLo p
    let last ← i32Sub machine sum 1
    let times ← i32DivU last p
    i32Mul machine times p
  else return square

def markFrom (rounds segLo segHi p start : Nat) : Run Unit :=
  loop (fun j => do
    if segHi ≤ j then return .inr ()
    else do
      let k ← i32Sub machine j segLo
      segSet machine k
      let j ← i32Add machine j p
      return .inl j) rounds start

def markSegment (rounds segLo segHi nbase : Nat) : Run Unit :=
  loop (fun k => do
    if nbase ≤ k then return .inr ()
    else do
      let p ← baseAt machine k
      let square ← i32Mul machine p p
      if segHi ≤ square then return .inr ()
      else do
        let start ← startOf machine segLo p
        markFrom machine rounds segLo segHi p start
        let k ← i32Add machine k 1
        return .inl k) rounds 0

def countOne (total : ℤ) (j : Nat) : Run ℤ := do
  let composite ← segBit machine j
  if composite = 0 then i64Add machine total 1 else return total

def countUnmarked (rounds span : Nat) (total : ℤ) : Run ℤ :=
  loop (fun (j, total) => do
    if span ≤ j then return .inr total
    else do
      let total ← countOne machine total j
      let j ← i32Add machine j 1
      return .inl (j, total)) rounds (0, total)

/-- One segment: where the next one starts, and the total with this one's primes. -/
def segment (rounds segLo hi nbase : Nat) (total : ℤ) : Run (Nat × ℤ) := do
  let top ← i32Add machine segLo SEG_SPAN
  let segHi := if hi < top then hi else top
  let span ← i32Sub machine segHi segLo
  let padded ← i32Add machine span 31
  clear machine rounds SEG_BITS (padded >>> 5)
  markSegment machine rounds segLo segHi nbase
  let total ← countUnmarked machine rounds span total
  return (segHi, total)

def countRange (rounds lo hi nbase : Nat) : Run ℤ :=
  loop (fun (segLo, total) => do
    if hi ≤ segLo then return .inr total
    else do
      let next ← segment machine rounds segLo hi nbase total
      return .inl next) rounds (lo, 0)

/-- How many numbers there are from two up to the bound. -/
def spanOf (n : Nat) : Run Nat := if 2 ≤ n then i32Sub machine n 1 else return 0

/-- The status and the count that are emitted. -/
def answer (rounds : Nat) : Run (ℤ × Fin 256) := do
  let bound ← pullBlock machine MAX_N
  match bound with
  | none => return (0, 1)
  | some n => do
    let shard ← ownShard machine
    match shard with
    | none => return (0, 1)
    | some (index, count) => do
      let span ← spanOf machine n
      let (skipped, reached) ← ownRange machine span index count
      let lo ← i32Add machine 2 skipped
      let hi ← i32Add machine 2 reached
      let root ← isqrt machine rounds n
      let nbase ← buildBase machine rounds root
      let sum ← countRange machine rounds lo hi nbase
      return (sum, 0)

def run (rounds : Nat) : Run Unit := do
  let (sum, status) ← answer machine rounds
  emit machine 0x63 sum status

end

/-! ## The host -/

def PRIME_INPUT_VERSION : Nat := 1

def PRIME_MAX_N : Nat := 2147483647

/-- `buildPrimesInput(n)`, `none` where it throws. -/
def buildPrimesInput (n : Nat) : Option Bytes :=
  if PRIME_MAX_N < n then none
  else some (littleEndian PRIME_INPUT_VERSION 4 ++ littleEndian n 4)

/-- `getBigUint64`. -/
def bigUint64 (bytes : Bytes) : ℤ := wordOf bytes

def primeForm : PartialForm := ⟨js "c", js "prime-count partial", js "a count", bigUint64⟩

def readPrimeCount : CanonicalValue → Except JsString ℤ := readPartial primeForm

/-! ## Primes of a range -/

/-- How many primes there are from `lo` to before `hi`. -/
def primesIn (lo hi : Nat) : Nat := ((Finset.Ico lo hi).filter Nat.Prime).card

theorem primesIn_eq_sum (lo hi : Nat) :
    primesIn lo hi = ∑ k ∈ Finset.Ico lo hi, if k.Prime then 1 else 0 :=
  Finset.card_filter _ _

theorem primesIn_self (lo : Nat) : primesIn lo lo = 0 := by
  rw [primesIn_eq_sum, Finset.Ico_self, Finset.sum_empty]

theorem primesIn_succ {lo m : Nat} (h : lo ≤ m) :
    primesIn lo (m + 1) = primesIn lo m + if m.Prime then 1 else 0 := by
  rw [primesIn_eq_sum, primesIn_eq_sum, Finset.sum_Ico_succ_top h]

theorem primesIn_le (lo hi : Nat) : primesIn lo hi ≤ hi - lo :=
  (Finset.card_filter_le _ _).trans_eq (Nat.card_Ico lo hi)

/-! ## A segment -/

section

variable {machine : Machine} {s : Store} {rounds root segLo segHi p : Nat}

theorem startOf_eq (hp : 0 < p) (hle : p ≤ 46340) (hlo : segLo ≤ 2147483648) :
    startOf machine segLo p = pure (firstStruck p segLo) := by
  have hsquare := square_small (show p ≤ 46342 by omega)
  unfold startOf firstStruck
  rw [i32Mul_eq hsquare, pure_bind]
  by_cases hbelow : p * p < segLo
  · have hfirst : firstMultiple p segLo ≤ segLo + p - 1 := firstMultiple_le
    unfold firstMultiple at hfirst ⊢
    rw [if_pos hbelow, if_pos hbelow, i32Add_eq (by omega), pure_bind, i32Sub_eq (by omega),
      pure_bind, i32DivU_eq hp, pure_bind, i32Mul_eq (by omega)]
  · rw [if_neg hbelow, if_neg hbelow]

theorem ends_markFrom (hsize : machine.memorySize = MEMORY_SIZE) (hp : 0 < p) (hle : p ≤ 46340)
    (hspan : segHi ≤ segLo + SEG_SPAN) (hhi : segHi ≤ 2147483648) (hrounds : MAX_N < rounds) :
    Ends (markFrom machine rounds segLo segHi p (firstStruck p segLo)) (fun _ s' =>
      (∀ v, segLo + v < segHi → (bitOf s'.memory SEG_BITS v = true ↔
        bitOf s.memory SEG_BITS v = true ∨ Struck p (segLo + v))) ∧
      Outside SEG_BITS s.memory s'.memory) s := by
  have hmax : MAX_N = 2147483647 := rfl
  have hwide : SEG_SPAN = 262144 := rfl
  have hlo : segLo ≤ firstStruck p segLo := le_firstStruck hp
  refine ends_loop (fun j s' => p ∣ j ∧ firstStruck p segLo ≤ j ∧
    StruckUpto (bitOf s.memory SEG_BITS) (bitOf s'.memory SEG_BITS) p (firstStruck p segLo)
      segLo j ∧
    Outside SEG_BITS s.memory s'.memory) (fun j _ => segHi - j) ?_
    ⟨firstStruck_dvd p segLo, Nat.le_refl _, StruckUpto.start _ _ _ _, Outside.refl _ _⟩ (by omega)
  rintro j s' ⟨hdvd, hfirst, hupto, hout⟩
  by_cases hdone : segHi ≤ j
  · rw [if_pos hdone, ends_pure]
    refine ⟨fun v hv => ?_, hout⟩
    have hbelow : segLo + v < j := by omega
    rw [hupto v, struck_iff hp (Nat.le_add_right segLo v)]
    simp only [hbelow, and_true]
  · have hbit : (j - segLo) / 8 < SEG_BITS.size := by
      show (j - segLo) / 8 < 32768
      omega
    rw [if_neg hdone, i32Sub_eq (by omega), pure_bind, ends_bind, segSet,
      ends_setBit (by rw [hsize]; decide) (by rw [hsize]; decide) hbit, i32Add_eq (by omega),
      pure_bind, ends_pure]
    refine ⟨⟨(Nat.dvd_add_right hdvd).mpr (Nat.dvd_refl p), by omega, ?_,
      hout.trans (outside_marked _ hbit)⟩, by omega⟩
    exact hupto.next hp hdvd hfirst (by omega) fun v => bitOf_marked _ _ _ _

/-- The base list stays where only the segment changes. -/
theorem Listed.outside {memory memory' : Memory} {ps : List Nat} (h : Listed memory ps)
    (hout : Outside SEG_BITS memory memory') (hlength : ps.length ≤ MAX_BASE) :
    Listed memory' ps := by
  intro k p hk
  have hlt : k < ps.length := (List.getElem?_eq_some_iff.mp hk).1
  have hcapacity : MAX_BASE = 8192 := rfl
  rw [hout.wordAt (.inl (by show 16384 + 4 * k + 4 ≤ 49152; omega))]
  exact h k p hk

theorem ends_baseAt {ps : List Nat} {k : Nat} {post : Nat → Store → Prop}
    (hsize : machine.memorySize = MEMORY_SIZE) (h : Listed s.memory ps)
    (hlength : ps.length ≤ MAX_BASE) (hp : ps[k]? = some p) :
    Ends (baseAt machine k) post s ↔ post p s := by
  have hlt : k < ps.length := (List.getElem?_eq_some_iff.mp hp).1
  have hcapacity : MAX_BASE = 8192 := rfl
  have hstart : BASE_LIST.start = 16384 := rfl
  have hfits : Fits machine BASE_LIST (BASE_LIST.start + k * 2 ^ 2) 4 := by
    refine ⟨Nat.le_add_right _ _, ?_, by rw [hsize]; decide⟩
    show 16384 + k * 2 ^ 2 + 4 ≤ 16384 + 32768
    omega
  unfold baseAt
  rw [i32Shl_eq (by omega), pure_bind, i32Add_eq (by omega), pure_bind, ends_load hfits]
  have hword := h k p hp
  rw [Nat.mul_comm 4 k] at hword
  rw [show k * 2 ^ 2 = k * 4 from rfl, hword]

/-- The base primes mark the composites of a segment. -/
theorem ends_markSegment (hsize : machine.memorySize = MEMORY_SIZE) (hroot : root ≤ 46340)
    (hlo : 2 ≤ segLo) (hle : segLo ≤ segHi) (hspan : segHi ≤ segLo + SEG_SPAN)
    (hhi : segHi ≤ 2147483648) (hreach : segHi ≤ (root + 1) * (root + 1))
    (hrounds : MAX_N < rounds) (hlisted : Listed s.memory (primesBelow (root + 1)))
    (hclear : ∀ v, segLo + v < segHi → bitOf s.memory SEG_BITS v = false) :
    Ends (markSegment machine rounds segLo segHi (primesBelow (root + 1)).length) (fun _ s' =>
      (∀ v, segLo + v < segHi →
        (bitOf s'.memory SEG_BITS v = true ↔ ¬ (segLo + v).Prime)) ∧
      Listed s'.memory (primesBelow (root + 1))) s := by
  have hmax : MAX_N = 2147483647 := rfl
  have hcapacity : MAX_BASE = 8192 := rfl
  have hlength := length_primesBelow_lt (show root + 1 ≤ 46341 by omega)
  -- whichever way the loop ends, no later prime would mark anything
  have hdone : ∀ {v : Nat}, segLo + v < segHi →
      (StruckBy (primesBelow (root + 1)) (segLo + v) ↔ ¬ (segLo + v).Prime) :=
    fun hv => struckBy_primesBelow_iff (by omega) (by omega)
  refine ends_loop (fun k s' => k ≤ (primesBelow (root + 1)).length ∧
    (∀ v, segLo + v < segHi → (bitOf s'.memory SEG_BITS v = true ↔
      StruckBy ((primesBelow (root + 1)).take k) (segLo + v))) ∧
    Listed s'.memory (primesBelow (root + 1)))
    (fun k _ => (primesBelow (root + 1)).length - k) ?_ ⟨Nat.zero_le _, ?_, hlisted⟩ (by omega)
  · rintro k s' ⟨hk, hbits, hlisted'⟩
    by_cases hall : (primesBelow (root + 1)).length ≤ k
    · rw [if_pos hall, ends_pure]
      refine ⟨fun v hv => ?_, hlisted'⟩
      rw [hbits v hv, List.take_of_length_le hall, hdone hv]
    obtain ⟨p, hp⟩ : ∃ p, (primesBelow (root + 1))[k]? = some p :=
      ⟨_, List.getElem?_eq_getElem (by omega)⟩
    obtain ⟨hple, hprime⟩ := mem_primesBelow.mp (List.mem_of_getElem? hp)
    have hpos : 0 < p := hprime.pos
    rw [if_neg hall, ends_bind, ends_baseAt hsize hlisted' (by omega) hp,
      i32Mul_eq (square_small (by omega)), pure_bind]
    by_cases hfar : segHi ≤ p * p
    · rw [if_pos hfar, ends_pure]
      refine ⟨fun v hv => ?_, hlisted'⟩
      rw [hbits v hv, struckBy_take (primesBelow_sorted _) hp (by omega), hdone hv]
    · rw [if_neg hfar, startOf_eq hpos (by omega) (by omega), pure_bind]
      refine (ends_markFrom hsize hpos (by omega) hspan hhi hrounds).andThen ?_
      rintro _ s'' ⟨hmarked, hout⟩
      rw [i32Add_eq (by omega), pure_bind, ends_pure]
      refine ⟨⟨by omega, fun v hv => ?_, hlisted'.outside hout (by omega)⟩, by omega⟩
      rw [hmarked v hv, hbits v hv, List.take_add_one, hp, Option.toList_some, struckBy_concat]
  · intro v hv
    rw [hclear v hv, List.take_zero]
    exact ⟨fun hset => (Bool.false_ne_true hset).elim, fun ⟨_, hp, _⟩ => (List.not_mem_nil hp).elim⟩

variable {lo : Nat}

/-- One more number, counted if it is prime. -/
theorem ends_countOne {m j : Nat} (hsize : machine.memorySize = MEMORY_SIZE) (hlo : lo ≤ m)
    (hm : m ≤ 2147483648) (hj : j < SEG_SPAN) (hbit : bitOf s.memory SEG_BITS j = true ↔ ¬ m.Prime) :
    Ends (countOne machine (primesIn lo m) j)
      (fun total s' => total = primesIn lo (m + 1) ∧ s' = s) s := by
  have hwide : SEG_SPAN = 262144 := rfl
  have hsmall := primesIn_le lo m
  unfold countOne
  rw [ends_bind, segBit, ends_bit (by rw [hsize]; decide) (by rw [hsize]; decide)
    (by show j / 8 < 32768; omega), primesIn_succ hlo]
  by_cases hprime : m.Prime
  · have hclear : bitOf s.memory SEG_BITS j = false :=
      Bool.eq_false_iff.mpr fun hset => hbit.mp hset hprime
    rw [hclear, Bool.toNat_false, if_pos rfl, if_pos hprime, i64Add_eq (by omega) (by omega),
      ends_pure]
    exact ⟨by push_cast; rfl, rfl⟩
  · rw [hbit.mpr hprime, Bool.toNat_true, if_neg (by omega), if_neg hprime, ends_pure]
    exact ⟨rfl, rfl⟩

/-- What is left unmarked is counted. -/
theorem ends_countUnmarked (hsize : machine.memorySize = MEMORY_SIZE) (hlo : lo ≤ segLo)
    (hle : segLo ≤ segHi) (hspan : segHi ≤ segLo + SEG_SPAN) (hhi : segHi ≤ 2147483648)
    (hrounds : MAX_N < rounds) (hbits : ∀ v, segLo + v < segHi →
      (bitOf s.memory SEG_BITS v = true ↔ ¬ (segLo + v).Prime)) :
    Ends (countUnmarked machine rounds (segHi - segLo) (primesIn lo segLo)) (fun total s' =>
      total = primesIn lo segHi ∧ s' = s) s := by
  have hmax : MAX_N = 2147483647 := rfl
  have hwide : SEG_SPAN = 262144 := rfl
  refine ends_loop (fun b s' => b.1 ≤ segHi - segLo ∧
    b.2 = (primesIn lo (segLo + b.1) : ℤ) ∧ s' = s)
    (fun b _ => segHi - segLo - b.1) ?_ ⟨Nat.zero_le _, rfl, rfl⟩ ?_
  · rintro ⟨j, total⟩ s' ⟨hj, htotal, hs⟩
    dsimp only at hj htotal ⊢
    rw [htotal, hs]
    by_cases hdone : segHi - segLo ≤ j
    · rw [if_pos hdone, ends_pure]
      exact ⟨by rw [show segLo + j = segHi by omega], rfl⟩
    · rw [if_neg hdone]
      refine (ends_countOne hsize (by omega) (by omega) (by omega)
        (hbits j (by omega))).andThen ?_
      rintro total' s'' ⟨rfl, rfl⟩
      rw [i32Add_eq (by omega), pure_bind, ends_pure]
      exact ⟨⟨by omega, rfl, rfl⟩, by omega⟩
  · show segHi - segLo - 0 < rounds
    omega

def segmentEnd (segLo hi : Nat) : Nat := min hi (segLo + SEG_SPAN)

theorem ends_segment {hi : Nat} (hsize : machine.memorySize = MEMORY_SIZE) (hroot : root ≤ 46340)
    (htwo : 2 ≤ segLo) (hlo : lo ≤ segLo) (hle : segLo ≤ hi) (hhi : hi ≤ 2147483648)
    (hreach : hi ≤ (root + 1) * (root + 1)) (hrounds : MAX_N < rounds)
    (hlisted : Listed s.memory (primesBelow (root + 1))) :
    Ends (segment machine rounds segLo hi (primesBelow (root + 1)).length (primesIn lo segLo))
      (fun next s' => next = (segmentEnd segLo hi, (primesIn lo (segmentEnd segLo hi) : ℤ)) ∧
        Listed s'.memory (primesBelow (root + 1))) s := by
  have hmax : MAX_N = 2147483647 := rfl
  have hwide : SEG_SPAN = 262144 := rfl
  have hlength := length_primesBelow_lt (show root + 1 ≤ 46341 by omega)
  have htop : (if hi < segLo + SEG_SPAN then hi else segLo + SEG_SPAN) = segmentEnd segLo hi := by
    unfold segmentEnd
    split <;> omega
  have hend : segLo ≤ segmentEnd segLo hi ∧ segmentEnd segLo hi ≤ hi ∧
      segmentEnd segLo hi ≤ segLo + SEG_SPAN := by
    unfold segmentEnd
    omega
  unfold segment
  rw [i32Add_eq (by omega), pure_bind, htop]
  dsimp only
  rw [i32Sub_eq hend.1, pure_bind, i32Add_eq (by omega), pure_bind, Nat.shiftRight_eq_div_pow]
  refine (ends_clear (by rw [hsize]; decide) (by rw [hsize]; decide)
    (by show _ ≤ 32768; omega) (by omega)).andThen ?_
  rintro _ s₁ ⟨hclear, hout⟩
  refine (ends_markSegment hsize hroot htwo hend.1 hend.2.2 (by omega) (by omega) hrounds
    (hlisted.outside hout (by omega)) fun v hv => hclear v (by omega)).andThen ?_
  rintro _ s₂ ⟨hbits, hlisted₂⟩
  refine (ends_countUnmarked hsize hlo hend.1 hend.2.2 (by omega) hrounds hbits).andThen ?_
  rintro total s₃ ⟨rfl, rfl⟩
  exact ends_pure.mpr ⟨rfl, hlisted₂⟩

/-- The segments of a range count its primes. -/
theorem ends_countRange {hi : Nat} (hsize : machine.memorySize = MEMORY_SIZE) (hroot : root ≤ 46340)
    (htwo : 2 ≤ lo) (hle : lo ≤ hi) (hhi : hi ≤ 2147483648)
    (hreach : lo < hi → hi ≤ (root + 1) * (root + 1)) (hrounds : MAX_N < rounds)
    (hlisted : Listed s.memory (primesBelow (root + 1))) :
    Ends (countRange machine rounds lo hi (primesBelow (root + 1)).length)
      (fun total _ => total = primesIn lo hi) s := by
  have hmax : MAX_N = 2147483647 := rfl
  have hwide : SEG_SPAN = 262144 := rfl
  refine ends_loop (fun b s' => lo ≤ b.1 ∧ b.1 ≤ hi ∧ b.2 = (primesIn lo b.1 : ℤ) ∧
    Listed s'.memory (primesBelow (root + 1))) (fun b _ => hi - b.1) ?_
    ⟨Nat.le_refl lo, hle, by rw [primesIn_self]; rfl, hlisted⟩ ?_
  · rintro ⟨segLo, total⟩ s' ⟨hlo, hbelow, htotal, hlisted'⟩
    dsimp only at hlo hbelow htotal ⊢
    subst htotal
    by_cases hdone : hi ≤ segLo
    · rw [if_pos hdone, ends_pure, Nat.le_antisymm hbelow hdone]
    · rw [if_neg hdone]
      refine (ends_segment hsize hroot (by omega) hlo hbelow hhi (hreach (by omega)) hrounds
        hlisted').andThen ?_
      rintro next s'' ⟨rfl, hlisted''⟩
      rw [ends_pure]
      have hnext : segLo < segmentEnd segLo hi ∧ segmentEnd segLo hi ≤ hi := by
        unfold segmentEnd
        omega
      exact ⟨⟨by show lo ≤ segmentEnd segLo hi; omega, hnext.2, rfl, hlisted''⟩,
        by show hi - segmentEnd segLo hi < hi - segLo; omega⟩
  · show hi - lo < rounds
    omega

/-! ## A run -/

def shardStart (n count index : Nat) : Nat := 2 + EvenSplit.start (n - 1) count index

/-- The primes of a shard's piece. -/
def countOf (n count index : Nat) : Nat :=
  primesIn (shardStart n count index) (shardStart n count (index + 1))

/-- What a machine with such an input and such a word of `partition()` answers. -/
def answerOf (input : Bytes) (word : Nat) : ℤ × Fin 256 :=
  match blockBound input MAX_N, shardOf word with
  | some n, some (index, count) => (countOf n count index, 0)
  | _, _ => (0, 1)

theorem spanOf_eq (n : Nat) : spanOf machine n = pure (n - 1) := by
  unfold spanOf
  split
  · exact i32Sub_eq (by omega)
  · rw [show n - 1 = 0 by omega]

theorem ends_answer (hsize : machine.memorySize = MEMORY_SIZE) (hrounds : MAX_N < rounds) :
    Ends (answer machine rounds)
      (fun a _ => a = answerOf machine.input machine.partitionWord) s := by
  have hmax : MAX_N = 2147483647 := rfl
  refine (ends_pullBlock (by rw [hsize]; decide)).andThen ?_
  rintro bound s₁ rfl
  unfold answerOf
  cases hbound : blockBound machine.input MAX_N with
  | none => exact ends_pure.mpr rfl
  | some n =>
    refine ends_ownShard.andThen ?_
    rintro shard s₂ ⟨rfl, rfl⟩
    cases hshard : shardOf machine.partitionWord with
    | none => exact ends_pure.mpr rfl
    | some shard =>
      obtain ⟨index, count⟩ := shard
      have hn : n ≤ MAX_N := blockBound_le hbound
      obtain ⟨hindex, hcount⟩ := shardOf_bounds hshard
      have hend : EvenSplit.start (n - 1) count (index + 1) ≤ n - 1 :=
        EvenSplit.start_le_total (by omega) hindex
      have hpiece : EvenSplit.start (n - 1) count index
          ≤ EvenSplit.start (n - 1) count (index + 1) :=
        EvenSplit.start_le_start (Nat.le_succ index)
      have hroot : n.sqrt ≤ 46340 := root_le (Nat.sqrt_le n) hn
      have hreach : n < (n.sqrt + 1) * (n.sqrt + 1) := Nat.lt_succ_sqrt n
      dsimp only
      rw [spanOf_eq, pure_bind, ownRange_eq (by omega) hcount hindex, pure_bind]
      dsimp only
      rw [i32Add_eq (by omega), pure_bind, i32Add_eq (by omega), pure_bind]
      refine (ends_isqrt hn hrounds).andThen ?_
      rintro root s₃ ⟨rfl, rfl⟩
      refine (ends_buildBase hsize hroot hrounds).andThen ?_
      rintro nbase s₄ ⟨rfl, hlisted⟩
      -- with no number from two up to the bound the range is empty
      refine (ends_countRange hsize hroot (by omega) (by omega) (by omega)
        (fun _ => by omega) hrounds hlisted).andThen ?_
      rintro sum s₅ rfl
      exact ends_pure.mpr rfl

theorem ends_run (hsize : machine.memorySize = MEMORY_SIZE) (hrounds : MAX_N < rounds) :
    Ends (run machine rounds) (fun _ s' => s'.output
      = some (frame 0x63 (answerOf machine.input machine.partitionWord).1
          (answerOf machine.input machine.partitionWord).2)) s := by
  refine (ends_answer hsize hrounds).andThen ?_
  rintro ⟨sum, status⟩ s' heq
  rw [← heq]
  exact ends_emit (by rw [hsize]; decide) 0x63 sum status

end

/-! ## What is refused -/

/-- A block or a shard that the kernel does not count for. -/
def Refused (input : Bytes) (word : Nat) : Prop :=
  let bytes : Memory := fun i => input.getD i 0
  let hdr := headerWidth (wordAt bytes 0 1)
  let count := if word &&& 0xffff = 0 then 1 else word &&& 0xffff
  INPUT_ROOM < input.length ∨ input.length < hdr + 8 ∨ wordAt bytes hdr 4 ≠ VERSION ∨
    MAX_N < wordAt bytes (hdr + 4) 4 ∨ count ≤ word >>> 16

theorem answerOf_refused {input : Bytes} {word : Nat} (h : Refused input word) :
    answerOf input word = (0, 1) := by
  have hnone : blockBound input MAX_N = none ∨ shardOf word = none := by
    by_cases hblock : blockBound input MAX_N = none
    · exact .inl hblock
    · right
      unfold Refused at h
      unfold blockBound at hblock
      unfold shardOf
      dsimp only at h hblock ⊢
      split at hblock
      · exact absurd rfl hblock
      split at hblock
      · exact absurd rfl hblock
      split at hblock
      · exact absurd rfl hblock
      · exact if_pos (by grind)
  unfold answerOf
  rcases hnone with hblock | hshard
  · rw [hblock]
  · rw [hshard]
    split <;> trivial

/-! ## Any sharding -/

theorem answerOf_built {n count index : Nat} {block : Bytes}
    (hblock : buildPrimesInput n = some block) (hindex : index < count) (hmax : count ≤ 65535) :
    answerOf (Cbor.byteString block) (Wasm.packPartition index count).toNat
      = ((countOf n count index : ℤ), 0) := by
  unfold buildPrimesInput at hblock
  split at hblock
  · cases hblock
  next hfits =>
    cases hblock
    have hbound : blockBound (Cbor.byteString (littleEndian PRIME_INPUT_VERSION 4
        ++ littleEndian n 4)) MAX_N = some n :=
      blockBound_built (by decide) (Nat.le_of_not_lt hfits)
    rw [answerOf, hbound, shardOf_packPartition hindex hmax]

/-- Zero and one are no primes. -/
theorem primes_upTo (n : Nat) : ((Finset.range (n + 1)).filter Nat.Prime).card
    = ∑ k ∈ Finset.range (n - 1), if (k + 2).Prime then 1 else 0 := by
  rw [Finset.card_filter]
  cases n with
  | zero => rw [Finset.sum_range_one, if_neg Nat.not_prime_zero, Finset.sum_range_zero]
  | succ n =>
    rw [Finset.sum_range_succ', Finset.sum_range_succ', if_neg Nat.not_prime_one,
      if_neg Nat.not_prime_zero]
    rfl

/-- The counts of the shards add up to the primes up to the bound. -/
theorem sum_countOf (n : Nat) {count : Nat} (hcount : 0 < count) :
    ∑ index ∈ Finset.range count, countOf n count index
      = ((Finset.range (n + 1)).filter Nat.Prime).card := by
  have hshift : ∀ index, countOf n count index
      = ∑ k ∈ Finset.Ico (EvenSplit.start (n - 1) count index)
          (EvenSplit.start (n - 1) count (index + 1)), if (k + 2).Prime then 1 else 0 := by
    intro index
    rw [countOf, primesIn_eq_sum, shardStart, shardStart, Nat.add_comm 2, Nat.add_comm 2]
    exact (Finset.sum_Ico_add' (fun k : Nat => if k.Prime then 1 else 0) _ _ _).symm
  rw [primes_upTo, Finset.sum_congr rfl fun index _ => hshift index]
  exact EvenSplit.sum_pieces _ hcount

/-- What a shard counts is a safe integer, and the host reads it. -/
theorem readPrimeCount_eq {n : ℕ} (h : n < 2 ^ 53) :
    readPrimeCount (partialValue (js "c") n 0) = .ok n := by
  have hsafe : MAX_SAFE_INTEGER = 9007199254740991 := rfl
  have hkey : primeForm.key ≠ js "s" := by simp [primeForm]
  have hmod : ((n : ℤ) % 2 ^ 64).toNat = n := by omega
  have hwide : primeForm.wide (littleEndian ((n : ℤ) % 2 ^ 64).toNat 8) = n := by
    simp only [primeForm, bigUint64]
    rw [hmod, wordOf_littleEndian (by omega)]
  exact readPartial_ok hkey hwide (by omega) (by omega)

/-- Over any sharding the kernel is exact, on a machine where arithmetic wraps and on one where it
    may not; and what it refuses is an error. -/
theorem count_is_exact {n count : Nat} {block : Bytes}
    (hblock : buildPrimesInput n = some block) (hcount : 0 < count) (hmax : count ≤ 65535) :
    (∀ k, 2 ≤ k → k ≤ n → ∃ i, (i < count ∧ shardStart n count i ≤ k ∧
        k < shardStart n count (i + 1)) ∧
      ∀ j, j < count ∧ shardStart n count j ≤ k ∧ k < shardStart n count (j + 1) → j = i) ∧
    (∀ i < count, 2 ≤ shardStart n count i ∧ shardStart n count (i + 1) ≤ max 2 (n + 1)) ∧
    (∀ index < count, ∀ (machine : Machine) (s : Store), machine.input = Cbor.byteString block →
      machine.partitionWord = (Wasm.packPartition index count).toNat →
      machine.memorySize = MEMORY_SIZE → ∀ rounds > MAX_N,
      Ends (run machine rounds) (fun _ s' => s'.output = some (frame 0x63
        ((Finset.Ico (shardStart n count index) (shardStart n count (index + 1))).filter
          Nat.Prime).card 0)) s) ∧
    ∑ index ∈ Finset.range count, countOf n count index
      = ((Finset.range (n + 1)).filter Nat.Prime).card ∧
    (∀ (machine : Machine) (s : Store), Refused machine.input machine.partitionWord →
      machine.memorySize = MEMORY_SIZE → ∀ rounds > MAX_N,
      Ends (run machine rounds) (fun _ s' => s'.output = some (frame 0x63 0 1)) s) ∧
    (∀ (codec : DagCbor) (sum : ℤ) (status : Fin 256),
      codec.encodeCanonical (partialValue (js "c") sum status) = some (frame 0x63 sum status)) ∧
    (∀ index < count, readPrimeCount (partialValue (js "c") (countOf n count index) 0)
      = .ok (countOf n count index)) ∧
    readPrimeCount (partialValue (js "c") 0 1)
      = .error (js "the guest refused this shard (status 1)") := by
  have hn : n ≤ 2147483647 := by
    unfold buildPrimesInput at hblock
    split at hblock
    · cases hblock
    · next hfits => exact Nat.le_of_not_lt hfits
  have hlast : ∀ i < count, EvenSplit.start (n - 1) count (i + 1) ≤ n - 1 := fun i hi =>
    EvenSplit.start_le_total hcount hi
  refine ⟨?_, ?_, ?_, sum_countOf n hcount, ?_, ?_, ?_, ?_⟩
  · intro k htwo hk
    obtain ⟨i, ⟨hi, hlo, hhi⟩, honly⟩ :=
      EvenSplit.exists_unique_piece hcount (show k - 2 < n - 1 by omega)
    unfold shardStart
    refine ⟨i, ⟨hi, by omega, by omega⟩, fun j ⟨hj, hjlo, hjhi⟩ => ?_⟩
    exact honly j ⟨hj, by omega, by omega⟩
  · intro i hi
    have hle := hlast i hi
    unfold shardStart
    omega
  · intro index hindex machine s hinput hword hsize rounds hrounds
    refine (ends_run hsize hrounds).mono fun _ s' houtput => ?_
    rw [houtput, hinput, hword, answerOf_built hblock hindex hmax]
    rfl
  · intro machine s hrefused hsize rounds hrounds
    refine (ends_run hsize hrounds).mono fun _ s' houtput => ?_
    rw [houtput, answerOf_refused hrefused]
  · exact fun codec sum status => encodeCanonical_partialValue codec (by decide) (by decide) _ _
  · intro index hindex
    have hle := primesIn_le (shardStart n count index) (shardStart n count (index + 1))
    have hend := hlast index hindex
    apply readPrimeCount_eq
    unfold countOf
    unfold shardStart at hle ⊢
    omega
  · have hkey : primeForm.key ≠ js "s" := by simp [primeForm]
    exact readPartial_refused hkey (by decide)

theorem count_is_exact_ten : ∃ block, buildPrimesInput 10 = some block ∧ 0 < 3 ∧ 3 ≤ 65535 ∧
    ∑ index ∈ Finset.range 3, countOf 10 3 index
      = ((Finset.range 11).filter Nat.Prime).card :=
  ⟨_, rfl, by omega, by omega, (count_is_exact rfl (by omega) (by omega)).2.2.2.1⟩

end O2Fabric.Primes
