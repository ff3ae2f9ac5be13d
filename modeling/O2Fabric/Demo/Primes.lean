/-
  O2Fabric.Demo.Primes

  The kernel that counts the primes of a range: its bitmaps, the integer square
  root, and the base primes it sieves with.

  A set bit means composite.  After the sieve of Eratosthenes the bitmap tells the
  primes up to the root, and the base list holds them in ascending order.
-/

import O2Fabric.Demo.Kernel
import O2Fabric.Lib.Sieve

namespace O2Fabric.Primes

open Guest Program Kernel Sieve

/-! ## Memory -/

def BASE_BITS : Region := ⟨4096, 8192⟩

def BASE_LIST : Region := ⟨16384, 32768⟩

def SEG_BITS : Region := ⟨49152, 32768⟩

def MAX_BASE : Nat := 8192

def SEG_SPAN : Nat := 262144

def MAX_N : Nat := 2147483647

/-- Four pages. -/
def MEMORY_SIZE : Nat := 262144

/-! ## The kernel -/

section

variable (machine : Machine)

def bit (region : Region) (v : Nat) : Run Nat := do
  let address ← i32Add machine region.start (v >>> 3)
  let byte ← load machine 1 region address
  return byte >>> (v &&& 7) &&& 1

def setBit (region : Region) (v : Nat) : Run Unit := do
  let a ← i32Add machine region.start (v >>> 3)
  let byte ← load machine 1 region a
  let mask ← i32Shl machine 1 (v &&& 7)
  store machine 1 region a (byte ||| mask)

def baseBit : Nat → Run Nat := bit machine BASE_BITS

def baseSet : Nat → Run Unit := setBit machine BASE_BITS

def segBit : Nat → Run Nat := bit machine SEG_BITS

def segSet : Nat → Run Unit := setBit machine SEG_BITS

/-- The first words of a bitmap set to zero. -/
def clear (rounds : Nat) (region : Region) (words : Nat) : Run Unit :=
  loop (fun i => do
    if words ≤ i then return .inr ()
    else do
      let offset ← i32Shl machine i 2
      let address ← i32Add machine region.start offset
      store machine 4 region address 0
      let i ← i32Add machine i 1
      return .inl i) rounds 0

def isqrt (rounds n : Nat) : Run Nat :=
  loop (fun r => do
    let next ← i32Add machine r 1
    let square ← i32Mul machine next next
    if n < square then return .inr r
    else do
      let r ← i32Add machine r 1
      return .inl r) rounds 0

/-- The multiples of `i` from its square on marked. -/
def markBase (rounds root i : Nat) : Run Unit := do
  let j ← i32Mul machine i i
  loop (fun j => do
    if root < j then return .inr ()
    else do
      baseSet machine j
      let j ← i32Add machine j i
      return .inl j) rounds j

def sieveBy (rounds root i : Nat) : Run Unit := do
  let composite ← baseBit machine i
  if composite = 0 then markBase machine rounds root i else return ()

def sieve (rounds root : Nat) : Run Unit :=
  loop (fun i => do
    let square ← i32Mul machine i i
    if root < square then return .inr ()
    else do
      sieveBy machine rounds root i
      let i ← i32Add machine i 1
      return .inl i) rounds 2

/-- The base list with one more prime, where there is room. -/
def append (n i : Nat) : Run Nat :=
  if n < MAX_BASE then do
    let offset ← i32Shl machine n 2
    let address ← i32Add machine BASE_LIST.start offset
    store machine 4 BASE_LIST address i
    i32Add machine n 1
  else return n

def collectOne (n i : Nat) : Run Nat := do
  let composite ← baseBit machine i
  if composite = 0 then append machine n i else return n

def collect (rounds root : Nat) : Run Nat :=
  loop (fun (i, n) => do
    if root < i then return .inr n
    else do
      let n ← collectOne machine n i
      let i ← i32Add machine i 1
      return .inl (i, n)) rounds (2, 0)

def buildBase (rounds root : Nat) : Run Nat := do
  clear machine rounds BASE_BITS 2048
  sieve machine rounds root
  collect machine rounds root

end

/-! ## Bitmaps -/

/-- A number's bit in a bitmap. -/
def bitOf (memory : Memory) (region : Region) (v : Nat) : Bool :=
  (memory (region.start + v / 8)).val.testBit (v % 8)

/-- Outside the region nothing is changed. -/
def Outside (region : Region) (memory memory' : Memory) : Prop :=
  ∀ a, a < region.start ∨ region.start + region.size ≤ a → memory' a = memory a

theorem Outside.refl (region : Region) (memory : Memory) : Outside region memory memory :=
  fun _ _ => rfl

variable {memory memory' : Memory}

theorem Outside.trans {region : Region} {memory'' : Memory} (h : Outside region memory memory')
    (h' : Outside region memory' memory'') :
    Outside region memory memory'' :=
  fun a ha => (h' a ha).trans (h a ha)

theorem outside_setWord {region : Region} {address width value : Nat} (memory : Memory)
    (hstart : region.start ≤ address) (hend : address + width ≤ region.start + region.size) :
    Outside region memory (setWord memory address width value) :=
  fun a ha => setWord_outside memory (by omega)

/-- Words outside stay too. -/
theorem Outside.wordAt {region : Region} (h : Outside region memory memory') {address width : Nat}
    (hapart : address + width ≤ region.start ∨ region.start + region.size ≤ address) :
    wordAt memory' address width = wordAt memory address width :=
  wordAt_congr fun i hi => h _ (by omega)

theorem Outside.bitOf {region other : Region} (h : Outside region memory memory') {v : Nat}
    (hv : v / 8 < other.size) (hapart : other.start + other.size ≤ region.start ∨
      region.start + region.size ≤ other.start) :
    bitOf memory' other v = bitOf memory other v := by
  unfold Primes.bitOf
  rw [h _ (by omega)]

/-- The memory with one bit set. -/
def marked (memory : Memory) (region : Region) (v : Nat) : Memory :=
  setWord memory (region.start + v / 8) 1 ((memory (region.start + v / 8)).val ||| 2 ^ (v % 8))

theorem bitOf_marked (memory : Memory) (region : Region) (v w : Nat) :
    bitOf (marked memory region v) region w = (bitOf memory region w || decide (w = v)) := by
  unfold bitOf marked
  rw [setWord_byte]
  by_cases hbyte : region.start + w / 8 = region.start + v / 8
  · have hsame : w = v ↔ v % 8 = w % 8 := by omega
    have hsmall : (memory (region.start + v / 8)).val ||| 2 ^ (v % 8) < 2 ^ 8 :=
      Nat.or_lt_two_pow (memory _).isLt (Nat.pow_lt_pow_right (by omega) (by omega))
    rw [if_pos hbyte, hbyte]
    show ((_ ||| _) % 2 ^ 8).testBit _ = _
    rw [Nat.mod_eq_of_lt hsmall, Nat.testBit_or, Nat.testBit_two_pow]
    simp only [hsame]
  · have hother : w ≠ v := fun hsame => hbyte (by rw [hsame])
    rw [if_neg hbyte, decide_eq_false hother, Bool.or_false]

theorem outside_marked (memory : Memory) {region : Region} {v : Nat} (hv : v / 8 < region.size) :
    Outside region memory (marked memory region v) :=
  outside_setWord memory (by omega) (by omega)

section

variable {machine : Machine} {s : Store} {region : Region} {v : Nat}

theorem fits_bit (hroom : region.start + region.size ≤ machine.memorySize)
    (hv : v / 8 < region.size) : Fits machine region (region.start + v / 8) 1 :=
  ⟨Nat.le_add_right _ _, by omega, hroom⟩

theorem shift_three (v : Nat) : v >>> 3 = v / 8 := Nat.shiftRight_eq_div_pow v 3

theorem and_seven (v : Nat) : v &&& 7 = v % 8 := Nat.and_two_pow_sub_one_eq_mod v 3

theorem ends_bit (hroom : region.start + region.size ≤ machine.memorySize)
    (hsmall : machine.memorySize < 2 ^ 32) (hv : v / 8 < region.size) {post : Nat → Store → Prop} :
    Ends (bit machine region v) post s ↔ post (bitOf s.memory region v).toNat s := by
  unfold bit
  rw [shift_three, and_seven, i32Add_eq (by omega), pure_bind, ends_bind,
    ends_load (fits_bit hroom hv), ends_pure]
  have hbyte : wordAt s.memory (region.start + v / 8) 1
      = (s.memory (region.start + v / 8)).val := by simp [wordAt]
  rw [hbyte, Nat.shiftRight_eq_div_pow, Nat.and_one_is_mod, ← Nat.toNat_testBit]
  rfl

theorem ends_setBit (hroom : region.start + region.size ≤ machine.memorySize)
    (hsmall : machine.memorySize < 2 ^ 32) (hv : v / 8 < region.size)
    {post : Unit → Store → Prop} :
    Ends (setBit machine region v) post s ↔
      post () { s with memory := marked s.memory region v } := by
  have hmask : 1 * 2 ^ (v % 8) < 2 ^ 32 := by
    rw [Nat.one_mul]
    exact Nat.pow_lt_pow_right (by omega) (by omega)
  have hbyte : wordAt s.memory (region.start + v / 8) 1
      = (s.memory (region.start + v / 8)).val := by simp [wordAt]
  unfold setBit
  rw [shift_three, and_seven, i32Add_eq (by omega), pure_bind, ends_bind,
    ends_load (fits_bit hroom hv), i32Shl_eq hmask, pure_bind, ends_store (fits_bit hroom hv),
    hbyte, Nat.one_mul]
  rfl

/-- Clearing the first words leaves no bit of theirs set. -/
theorem ends_clear {rounds words : Nat} (hroom : region.start + region.size ≤ machine.memorySize)
    (hsmall : machine.memorySize < 2 ^ 32) (hwords : 4 * words ≤ region.size)
    (hrounds : words < rounds) :
    Ends (clear machine rounds region words) (fun _ s' =>
      (∀ v < 32 * words, bitOf s'.memory region v = false) ∧
        Outside region s.memory s'.memory) s := by
  refine ends_loop (fun i s' => i ≤ words ∧ (∀ b < 4 * i, s'.memory (region.start + b) = 0) ∧
    Outside region s.memory s'.memory) (fun i _ => words - i) ?_ ?_ hrounds
  · rintro i s' ⟨hi, hzero, hout⟩
    by_cases hdone : words ≤ i
    · rw [if_pos hdone, ends_pure]
      refine ⟨fun v hv => ?_, hout⟩
      unfold bitOf
      rw [hzero _ (by omega)]
      exact Nat.zero_testBit _
    · have hfits : Fits machine region (region.start + i * 2 ^ 2) 4 :=
        ⟨Nat.le_add_right _ _, by omega, hroom⟩
      rw [if_neg hdone, i32Shl_eq (by omega), pure_bind, i32Add_eq (by omega), pure_bind,
        ends_bind, ends_store hfits, i32Add_eq (by omega), pure_bind, ends_pure]
      refine ⟨⟨by omega, fun b hb => ?_, hout.trans (outside_setWord _ hfits.1 hfits.2.1)⟩,
        by omega⟩
      -- a byte of this word, or of one before
      by_cases hword : 4 * i ≤ b
      · show setWord s'.memory (region.start + i * 2 ^ 2) 4 0 (region.start + b) = 0
        rw [setWord, if_pos (by omega)]
        simp
      · show setWord s'.memory (region.start + i * 2 ^ 2) 4 0 (region.start + b) = 0
        rw [setWord_outside _ (by omega)]
        exact hzero b (by omega)
  · exact ⟨Nat.zero_le _, fun b hb => absurd hb (by omega), Outside.refl _ _⟩

end

/-! ## The base primes -/

section

variable {machine : Machine} {s : Store} {rounds root : Nat}

/-- The largest root there is. -/
theorem root_le {r n : Nat} (hsquare : r * r ≤ n) (hn : n ≤ MAX_N) : r ≤ 46340 := by
  by_contra hlarge
  have hmax : MAX_N = 2147483647 := rfl
  have hsquares : 46341 * 46341 ≤ r * r := Nat.mul_le_mul (by omega) (by omega)
  omega

theorem square_small {r : Nat} (h : r ≤ 46342) : r * r < 2 ^ 32 := by
  have hsquares : r * r ≤ 46342 * 46342 := Nat.mul_le_mul h h
  omega

theorem ends_isqrt {n : Nat} (hn : n ≤ MAX_N) (hrounds : MAX_N < rounds) :
    Ends (isqrt machine rounds n) (fun r s' => r = n.sqrt ∧ s' = s) s := by
  refine ends_loop (fun r s' => r * r ≤ n ∧ s' = s) (fun r _ => n - r) ?_ ⟨Nat.zero_le n, rfl⟩
    (by omega)
  rintro r s' ⟨hsquare, rfl⟩
  have hr := root_le hsquare hn
  rw [i32Add_eq (by omega), pure_bind, i32Mul_eq (square_small (by omega)), pure_bind]
  by_cases hdone : n < (r + 1) * (r + 1)
  · rw [if_pos hdone, ends_pure]
    exact ⟨Nat.eq_sqrt.mpr ⟨hsquare, hdone⟩, rfl⟩
  · have hself : r + 1 ≤ (r + 1) * (r + 1) := Nat.le_mul_self (r + 1)
    rw [if_neg hdone, pure_bind, ends_pure]
    exact ⟨⟨by omega, rfl⟩, by omega⟩

variable {i : Nat}

/-- What is struck out by `i` is marked, and nothing else. -/
theorem ends_markBase (hsize : machine.memorySize = MEMORY_SIZE) (hroot : root ≤ 46340) (hi : 0 < i)
    (hsquare : i * i ≤ root) (hrounds : MAX_N < rounds) :
    Ends (markBase machine rounds root i) (fun _ s' => ∀ v ≤ root,
      bitOf s'.memory BASE_BITS v = true ↔
        bitOf s.memory BASE_BITS v = true ∨ Struck i v) s := by
  have hmax : MAX_N = 2147483647 := rfl
  have hmemory : MEMORY_SIZE = 262144 := rfl
  have hself : i ≤ i * i := Nat.le_mul_self i
  unfold markBase
  rw [i32Mul_eq (by omega), pure_bind]
  refine ends_loop (fun j s' => i ∣ j ∧ i * i ≤ j ∧ j ≤ root + i ∧
    StruckUpto (bitOf s.memory BASE_BITS) (bitOf s'.memory BASE_BITS) i (i * i) 0 j)
    (fun j _ => root + i - j) ?_
    ⟨Nat.dvd_mul_left i i, Nat.le_refl _, by omega, StruckUpto.start _ _ _ _⟩ (by omega)
  rintro j s' ⟨hdvd, hfirst, hj, hupto⟩
  by_cases hdone : root < j
  · rw [if_pos hdone, ends_pure]
    intro v hv
    rw [hupto v, Nat.zero_add]
    unfold Struck
    have hbelow : v < j := by omega
    simp only [hbelow, and_true]
  · rw [if_neg hdone, ends_bind, baseSet, ends_setBit (by rw [hsize]; decide)
      (by rw [hsize]; decide) (by show j / 8 < 8192; omega), i32Add_eq (by omega), pure_bind,
      ends_pure]
    refine ⟨⟨(Nat.dvd_add_right hdvd).mpr (Nat.dvd_refl i), by omega, by omega, ?_⟩, by omega⟩
    exact hupto.next hi hdvd hfirst (Nat.zero_le j) fun v => bitOf_marked _ _ _ _

/-- The bitmap has what the primes below `i` strike out. -/
def Sifted (root i : Nat) (memory : Memory) : Prop :=
  ∀ v, 2 ≤ v → v ≤ root → (bitOf memory BASE_BITS v = true ↔ StruckBy (primesBelow i) v)

/-- The bitmap tells the primes. -/
def Told (root : Nat) (memory : Memory) : Prop :=
  ∀ v, 2 ≤ v → v ≤ root → (bitOf memory BASE_BITS v = true ↔ ¬ v.Prime)

theorem ends_sieveBy (hsize : machine.memorySize = MEMORY_SIZE) (hroot : root ≤ 46340) (hi : 2 ≤ i)
    (hsquare : i * i ≤ root) (hrounds : MAX_N < rounds) (h : Sifted root i s.memory) :
    Ends (sieveBy machine rounds root i) (fun _ s' => Sifted root (i + 1) s'.memory) s := by
  have hself : i ≤ i * i := Nat.le_mul_self i
  unfold sieveBy
  rw [ends_bind, baseBit, ends_bit (by rw [hsize]; decide) (by rw [hsize]; decide)
    (by show i / 8 < 8192; omega)]
  have hown := (h i hi (by omega)).trans (struckBy_primesBelow_self hi)
  by_cases hprime : i.Prime
  · have hbit : bitOf s.memory BASE_BITS i = false :=
      Bool.eq_false_iff.mpr fun hset => hown.mp hset hprime
    rw [hbit, Bool.toNat_false, if_pos rfl]
    refine (ends_markBase hsize hroot (by omega) hsquare hrounds).mono fun _ s' hmarked => ?_
    intro v hv hle
    rw [hmarked v hle, h v hv hle, primesBelow_succ_prime hprime, struckBy_concat]
  · rw [hown.mpr hprime, Bool.toNat_true, if_neg (by omega), ends_pure]
    intro v hv hle
    rw [h v hv hle, primesBelow_succ_composite hprime]

theorem primesBelow_two : primesBelow 2 = [] := by
  simp [primesBelow, List.range_succ, Nat.not_prime_zero, Nat.not_prime_one]

theorem ends_sieve (hsize : machine.memorySize = MEMORY_SIZE) (hroot : root ≤ 46340)
    (hrounds : MAX_N < rounds)
    (hclear : ∀ v < 65536, bitOf s.memory BASE_BITS v = false) :
    Ends (sieve machine rounds root) (fun _ s' => Told root s'.memory) s := by
  have hmax : MAX_N = 2147483647 := rfl
  refine ends_loop (fun i s' => 2 ≤ i ∧ i ≤ root + 2 ∧ Sifted root i s'.memory)
    (fun i _ => root + 2 - i) ?_ ⟨Nat.le_refl 2, by omega, ?_⟩ (by omega)
  · rintro i s' ⟨htwo, hi, hsifted⟩
    have hself : i ≤ i * i := Nat.le_mul_self i
    rw [i32Mul_eq (square_small (by omega)), pure_bind]
    by_cases hdone : root < i * i
    · rw [if_pos hdone, ends_pure]
      intro v hv hle
      rw [hsifted v hv hle, struckBy_primesBelow_iff hv (by omega)]
    · rw [if_neg hdone]
      refine (ends_sieveBy hsize hroot htwo (by omega) hrounds hsifted).andThen ?_
      intro _ s'' hnext
      rw [i32Add_eq (by omega), pure_bind, ends_pure]
      exact ⟨⟨by omega, by omega, hnext⟩, by omega⟩
  · intro v hv hle
    rw [hclear v (by omega), primesBelow_two]
    exact ⟨fun hset => (Bool.false_ne_true hset).elim, fun ⟨_, hp, _⟩ => (List.not_mem_nil hp).elim⟩

/-- The base list holds these numbers. -/
def Listed (memory : Memory) (ps : List Nat) : Prop :=
  ∀ k p, ps[k]? = some p → wordAt memory (BASE_LIST.start + 4 * k) 4 = p

/-- The list has room for the primes there are, so that the guard is never met. -/
theorem length_primesBelow_lt (hi : i ≤ 46341) : (primesBelow i).length < MAX_BASE := by
  have hsub : (primesBelow i).Sublist (primesBelow 46341) :=
    (List.range_sublist.mpr hi).filter _
  calc (primesBelow i).length
    _ ≤ (primesBelow 46341).length := hsub.length_le
    _ ≤ 20 + coprimeOver [15, 13, 12, 10, 8, 3] 0 := length_primesBelow_le _ (by norm_num)
    _ < MAX_BASE := by decide +kernel

/-- The list takes one more prime in, and nothing else changes that matters. -/
theorem ends_append (hsize : machine.memorySize = MEMORY_SIZE) (hi : i ≤ 46340)
    (hlisted : Listed s.memory (primesBelow i)) (htold : Told root s.memory) (hroot : root ≤ 46340) :
    Ends (append machine (primesBelow i).length i) (fun n s' =>
      n = (primesBelow i ++ [i]).length ∧ Listed s'.memory (primesBelow i ++ [i]) ∧
        Told root s'.memory) s := by
  have hlength := length_primesBelow_lt (show i ≤ 46341 by omega)
  have hcapacity : MAX_BASE = 8192 := rfl
  have hstart : BASE_LIST.start = 16384 := rfl
  generalize hn : (primesBelow i).length = n at hlength
  have hfits : Fits machine BASE_LIST (BASE_LIST.start + n * 2 ^ 2) 4 := by
    refine ⟨Nat.le_add_right _ _, ?_, by rw [hsize]; decide⟩
    show 16384 + n * 2 ^ 2 + 4 ≤ 16384 + 32768
    omega
  unfold append
  rw [if_pos hlength, i32Shl_eq (by omega), pure_bind, i32Add_eq (by omega), pure_bind, ends_bind,
    ends_store hfits, i32Add_eq (by omega), ends_pure]
  refine ⟨by rw [List.length_append, hn, List.length_singleton], ?_, ?_⟩
  · intro k p hk
    rw [List.getElem?_append] at hk
    split at hk
    · next hbefore =>
      dsimp only
      rw [wordAt_setWord_apart _ (by omega)]
      exact hlisted k p hk
    · next hafter =>
      have hlast : k = n ∧ p = i := by
        rw [List.getElem?_singleton] at hk
        split at hk
        · next hzero =>
          cases hk
          exact ⟨by omega, rfl⟩
        · cases hk
      rw [hlast.1, hlast.2, Nat.mul_comm 4 n]
      exact wordAt_setWord _ (by omega)
  · intro v hv hle
    have hout : Outside BASE_LIST s.memory
        (setWord s.memory (BASE_LIST.start + n * 2 ^ 2) 4 i) :=
      outside_setWord _ hfits.1 hfits.2.1
    rw [← htold v hv hle, hout.bitOf (by show v / 8 < 8192; omega) (.inl (by decide))]

theorem ends_collectOne (hsize : machine.memorySize = MEMORY_SIZE) (hroot : root ≤ 46340)
    (hi : 2 ≤ i) (hle : i ≤ root) (hlisted : Listed s.memory (primesBelow i))
    (htold : Told root s.memory) :
    Ends (collectOne machine (primesBelow i).length i) (fun n s' =>
      n = (primesBelow (i + 1)).length ∧ Listed s'.memory (primesBelow (i + 1)) ∧
        Told root s'.memory) s := by
  unfold collectOne
  rw [ends_bind, baseBit, ends_bit (by rw [hsize]; decide) (by rw [hsize]; decide)
    (by show i / 8 < 8192; omega)]
  by_cases hprime : i.Prime
  · have hbit : bitOf s.memory BASE_BITS i = false :=
      Bool.eq_false_iff.mpr fun hset => (htold i hi hle).mp hset hprime
    rw [hbit, Bool.toNat_false, if_pos rfl, primesBelow_succ_prime hprime]
    exact ends_append hsize (by omega) hlisted htold hroot
  · rw [(htold i hi hle).mpr hprime, Bool.toNat_true, if_neg (by omega), ends_pure,
      primesBelow_succ_composite hprime]
    exact ⟨rfl, hlisted, htold⟩

theorem ends_collect (hsize : machine.memorySize = MEMORY_SIZE) (hroot : root ≤ 46340)
    (hrounds : MAX_N < rounds) (htold : Told root s.memory) :
    Ends (collect machine rounds root) (fun n s' => n = (primesBelow (root + 1)).length ∧
      Listed s'.memory (primesBelow (root + 1))) s := by
  have hmax : MAX_N = 2147483647 := rfl
  refine ends_loop (fun b s' => 2 ≤ b.1 ∧ b.1 ≤ max 2 (root + 1) ∧
    b.2 = (primesBelow b.1).length ∧ Listed s'.memory (primesBelow b.1) ∧ Told root s'.memory)
    (fun b _ => root + 1 - b.1) ?_ ⟨Nat.le_refl 2, le_max_left _ _, ?_, ?_, htold⟩ ?_
  · rintro ⟨i, n⟩ s' ⟨htwo, hi, hn, hlisted, htold'⟩
    dsimp only at htwo hi hn hlisted ⊢
    rw [hn]
    by_cases hdone : root < i
    · -- the loop ends past the root, or has not begun where there is no prime yet
      have hall : primesBelow i = primesBelow (root + 1) := by
        by_cases hpast : i = root + 1
        · rw [hpast]
        · have hnone : ∀ j ≤ 2, primesBelow j = [] := fun j hj => by
            have hsub : (primesBelow j).Sublist (primesBelow 2) :=
              (List.range_sublist.mpr hj).filter _
            rw [primesBelow_two] at hsub
            exact List.sublist_nil.mp hsub
          rw [hnone i (by omega), hnone (root + 1) (by omega)]
      rw [if_pos hdone, ends_pure, ← hall]
      exact ⟨rfl, hlisted⟩
    · rw [if_neg hdone]
      refine (ends_collectOne hsize hroot htwo (by omega) hlisted htold').andThen ?_
      rintro n' s'' ⟨hn', hlisted', htold''⟩
      rw [i32Add_eq (by omega), pure_bind, ends_pure]
      exact ⟨⟨by omega, by omega, hn', hlisted', htold''⟩, by omega⟩
  · rw [primesBelow_two]
    rfl
  · intro k p hk
    rw [primesBelow_two] at hk
    cases hk
  · show root + 1 - 2 < rounds
    omega

/-- The base list is that of the primes up to the root. -/
theorem ends_buildBase (hsize : machine.memorySize = MEMORY_SIZE) (hroot : root ≤ 46340)
    (hrounds : MAX_N < rounds) :
    Ends (buildBase machine rounds root) (fun n s' => n = (primesBelow (root + 1)).length ∧
      Listed s'.memory (primesBelow (root + 1))) s := by
  have hmax : MAX_N = 2147483647 := rfl
  refine (ends_clear (by rw [hsize]; decide) (by rw [hsize]; decide) (by decide)
    (by omega)).andThen ?_
  rintro _ s₁ ⟨hclear, -⟩
  refine (ends_sieve hsize hroot hrounds hclear).andThen ?_
  intro _ s₂ htold
  exact ends_collect hsize hroot hrounds htold

end

end O2Fabric.Primes
