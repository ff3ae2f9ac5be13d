/-
  O2Fabric.Demo.Guest

  What the demo's kernels are written in: WebAssembly functions over one linear
  memory, with the host's four functions.

  An `i32` is the natural number it is read as unsigned, an `i64` the integer it
  is read as signed.  On a plain machine arithmetic wraps, and an access outside
  the memory traps.  A guarded machine stops as well where a computation would
  wrap, and where an access leaves the region it is meant for.  What is proved
  for both says that a kernel does neither.
-/

import O2Fabric.Core.Platform
import O2Fabric.Lib.Total

namespace O2Fabric.Guest

/-- A range of addresses that a kernel keeps for one use. -/
structure Region where
  start : Nat
  size : Nat

inductive Fault
  | divisionByZero
  | outOfBounds
  | wrapped
  | strayed
  deriving DecidableEq

/-- What a kernel runs on. -/
structure Machine where
  input : Bytes
  /-- A length is an `i32`. -/
  short : input.length < 2 ^ 32
  /-- What `partition()` returns. -/
  partitionWord : Nat
  memorySize : Nat
  guarded : Bool

abbrev Memory := Nat → Fin 256

structure Store where
  memory : Memory
  output : Option Bytes

def Store.zeroed : Store := ⟨fun _ => 0, none⟩

/-- A piece of a kernel. -/
abbrev Run (α : Type) := Program Store Fault α

open Program

/-! ## Words in memory -/

/-- The word of so many bytes at an address, the low byte first. -/
def wordAt (memory : Memory) (address : Nat) : Nat → Nat
  | 0 => 0
  | width + 1 => (memory address).val + 256 * wordAt memory (address + 1) width

theorem mod_byte_lt (n : Nat) : n % 256 < 256 := Nat.mod_lt n (by omega)

/-- The memory with a word of so many bytes at an address. -/
def setWord (memory : Memory) (address width value : Nat) : Memory := fun a =>
  if address ≤ a ∧ a < address + width then
    ⟨value / 256 ^ (a - address) % 256, mod_byte_lt _⟩
  else memory a

theorem wordAt_congr {memory memory' : Memory} {address address' width : Nat}
    (h : ∀ i < width, memory (address + i) = memory' (address' + i)) :
    wordAt memory address width = wordAt memory' address' width := by
  induction width generalizing address address' with
  | zero => rfl
  | succ width ih =>
    have hfirst : memory address = memory' address' := h 0 (by omega)
    have hrest : wordAt memory (address + 1) width = wordAt memory' (address' + 1) width := by
      apply ih
      intro i hi
      have hnext := h (i + 1) (by omega)
      rwa [show address + 1 + i = address + (i + 1) by omega,
        show address' + 1 + i = address' + (i + 1) by omega]
    rw [wordAt, wordAt, hfirst, hrest]

/-- A word whose bytes are a number's digits is the number. -/
theorem wordAt_digits {memory : Memory} {address width value : Nat}
    (h : ∀ i < width, (memory (address + i)).val = value / 256 ^ i % 256) :
    wordAt memory address width = value % 256 ^ width := by
  induction width generalizing address value with
  | zero => rw [wordAt, Nat.pow_zero, Nat.mod_one]
  | succ width ih =>
    have hfirst : (memory address).val = value % 256 := by
      have h0 := h 0 (by omega)
      rwa [Nat.pow_zero, Nat.div_one] at h0
    have hrest : wordAt memory (address + 1) width = value / 256 % 256 ^ width := by
      apply ih
      intro i hi
      have hnext := h (i + 1) (by omega)
      rw [show address + 1 + i = address + (i + 1) by omega, hnext, Nat.div_div_eq_div_mul,
        Nat.pow_succ, Nat.mul_comm]
    rw [wordAt, hfirst, hrest, Nat.pow_succ, Nat.mul_comm (256 ^ width), Nat.mod_mul]

theorem wordAt_setWord (memory : Memory) {address width value : Nat} (h : value < 256 ^ width) :
    wordAt (setWord memory address width value) address width = value := by
  have hdigits : wordAt (setWord memory address width value) address width
      = value % 256 ^ width := by
    apply wordAt_digits
    intro i hi
    rw [setWord, if_pos (by omega)]
    show value / 256 ^ (address + i - address) % 256 = _
    rw [Nat.add_sub_cancel_left]
  rw [hdigits, Nat.mod_eq_of_lt h]

theorem setWord_outside (memory : Memory) {address width value a : Nat}
    (h : a < address ∨ address + width ≤ a) : setWord memory address width value a = memory a := by
  rw [setWord, if_neg (by omega)]

/-- A word that no byte of is written stays. -/
theorem wordAt_setWord_apart (memory : Memory) {address width value address' width' : Nat}
    (h : address' + width' ≤ address ∨ address + width ≤ address') :
    wordAt (setWord memory address width value) address' width' = wordAt memory address' width' :=
  wordAt_congr fun i hi => setWord_outside memory (by omega)

/-- A byte that is stored and read back. -/
theorem setWord_byte (memory : Memory) (address value a : Nat) :
    setWord memory address 1 value a
      = if a = address then ⟨value % 256, mod_byte_lt value⟩ else memory a := by
  unfold setWord
  by_cases ha : a = address
  · subst ha
    rw [if_pos (by omega), if_pos rfl]
    simp
  · rw [if_neg (by omega), if_neg ha]

/-! ## Arithmetic -/

section

variable (machine : Machine)

/-- A result in 32 bits. -/
def narrow (n : Nat) : Run Nat :=
  if n < 2 ^ 32 then pure n
  else if machine.guarded then fail .wrapped
  else pure (n % 2 ^ 32)

def i32Add (a b : Nat) : Run Nat := narrow machine (a + b)

def i32Mul (a b : Nat) : Run Nat := narrow machine (a * b)

def i32Shl (a k : Nat) : Run Nat := narrow machine (a <<< k)

def i32Sub (a b : Nat) : Run Nat :=
  if b ≤ a then pure (a - b)
  else if machine.guarded then fail .wrapped
  else pure (a + 2 ^ 32 - b)

def i32DivU (a b : Nat) : Run Nat := if b = 0 then fail .divisionByZero else pure (a / b)

def i32RemU (a b : Nat) : Run Nat := if b = 0 then fail .divisionByZero else pure (a % b)

/-- A result in 64 bits, read as signed. -/
def narrow64 (n : ℤ) : Run ℤ :=
  if -2 ^ 63 ≤ n ∧ n < 2 ^ 63 then pure n
  else if machine.guarded then fail .wrapped
  else pure (n.bmod (2 ^ 64))

def i64Add (a b : ℤ) : Run ℤ := narrow64 machine (a + b)

def i64Sub (a b : ℤ) : Run ℤ := narrow64 machine (a - b)

def i64Mul (a b : ℤ) : Run ℤ := narrow64 machine (a * b)

/-- Of the two as unsigned numbers. -/
def i64DivU (a b : ℤ) : Run ℤ :=
  if b = 0 then fail .divisionByZero else pure ((a % 2 ^ 64 / (b % 2 ^ 64)).bmod (2 ^ 64))

/-! ## Memory and the host -/

/-- An access that is meant for a region. -/
def reach (region : Region) (address width : Nat) : Run Unit :=
  if machine.guarded ∧
      ¬ (region.start ≤ address ∧ address + width ≤ region.start + region.size) then fail .strayed
  else if machine.memorySize < address + width then fail .outOfBounds
  else pure ()

def load (width : Nat) (region : Region) (address : Nat) : Run Nat := do
  reach machine region address width
  let store ← get
  return wordAt store.memory address width

def store (width : Nat) (region : Region) (address value : Nat) : Run Unit := do
  reach machine region address width
  modify fun store => { store with memory := setWord store.memory address width value }

def inputLen : Run Nat := pure machine.input.length

/-- The first `input_read(ptr, len)`; past the memory it writes nothing. -/
def inputRead (region : Region) (ptr len : Nat) : Run Nat :=
  let n := min len machine.input.length
  if machine.guarded ∧ ¬ (region.start ≤ ptr ∧ ptr + n ≤ region.start + region.size) then
    fail .strayed
  else if machine.memorySize < ptr + n then pure 0
  else do
    modify fun store => { store with
      memory := fun a =>
        if ptr ≤ a ∧ a < ptr + n then machine.input.getD (a - ptr) 0 else store.memory a }
    return n

/-- The bytes of a range of addresses. -/
def bytesAt (memory : Memory) (ptr len : Nat) : Bytes :=
  (List.range len).map fun i => memory (ptr + i)

/-- `output_write(ptr, len)`. -/
def outputWrite (region : Region) (ptr len : Nat) : Run Unit := do
  reach machine region ptr len
  modify fun store => { store with output := some (bytesAt store.memory ptr len) }

def «partition» : Run Nat := pure machine.partitionWord

end

/-! ## What an operation ends with -/

section

variable {machine : Machine} {a b : Nat} {s : Store} {region : Region} {address width value : Nat}

theorem narrow_eq (h : a < 2 ^ 32) : narrow machine a = pure a := if_pos h

theorem i32Add_eq (h : a + b < 2 ^ 32) : i32Add machine a b = pure (a + b) := narrow_eq h

theorem i32Mul_eq (h : a * b < 2 ^ 32) : i32Mul machine a b = pure (a * b) := narrow_eq h

theorem i32Shl_eq {k : Nat} (h : a * 2 ^ k < 2 ^ 32) :
    i32Shl machine a k = pure (a * 2 ^ k) := by
  rw [i32Shl, Nat.shiftLeft_eq]
  exact narrow_eq h

theorem i32Sub_eq (h : b ≤ a) : i32Sub machine a b = pure (a - b) := if_pos h

theorem i32DivU_eq (h : 0 < b) : i32DivU a b = pure (a / b) := if_neg (by omega)

theorem i32RemU_eq (h : 0 < b) : i32RemU a b = pure (a % b) := if_neg (by omega)

theorem narrow64_eq {n : ℤ} (hlow : -2 ^ 63 ≤ n) (hhigh : n < 2 ^ 63) :
    narrow64 machine n = pure n := if_pos ⟨hlow, hhigh⟩

variable {x y : ℤ}

theorem i64Add_eq (hlow : -2 ^ 63 ≤ x + y) (hhigh : x + y < 2 ^ 63) :
    i64Add machine x y = pure (x + y) := narrow64_eq hlow hhigh

theorem i64Sub_eq (hlow : -2 ^ 63 ≤ x - y) (hhigh : x - y < 2 ^ 63) :
    i64Sub machine x y = pure (x - y) := narrow64_eq hlow hhigh

theorem i64Mul_eq (hlow : -2 ^ 63 ≤ x * y) (hhigh : x * y < 2 ^ 63) :
    i64Mul machine x y = pure (x * y) := narrow64_eq hlow hhigh

theorem i64DivU_eq (hx : 0 ≤ x) (hx' : x < 2 ^ 63) (hy : 0 < y) (hy' : y < 2 ^ 63) :
    i64DivU x y = pure (x / y) := by
  have hquot : x / y ≤ x := Int.ediv_le_self y hx
  have hquot' : 0 ≤ x / y := Int.ediv_nonneg hx (by omega)
  unfold i64DivU
  rw [if_neg (by omega), Int.emod_eq_of_lt hx (by omega), Int.emod_eq_of_lt (by omega) (by omega),
    Int.bmod_eq_of_le (by omega) (by omega)]

/-- The access is within its region, and the region in the memory. -/
def Fits (machine : Machine) (region : Region) (address width : Nat) : Prop :=
  region.start ≤ address ∧ address + width ≤ region.start + region.size ∧
    region.start + region.size ≤ machine.memorySize

theorem reach_eq (h : Fits machine region address width) :
    reach machine region address width = pure () := by
  obtain ⟨hstart, hend, hmemory⟩ := h
  unfold reach
  rw [if_neg (fun hstray => hstray.2 ⟨hstart, hend⟩), if_neg (by omega)]

theorem ends_load {post : Nat → Store → Prop} (h : Fits machine region address width) :
    Ends (load machine width region address) post s ↔ post (wordAt s.memory address width) s := by
  unfold load
  rw [reach_eq h, pure_bind]
  exact ⟨fun ⟨_, _, hrun, hpost⟩ => by cases hrun; exact hpost, fun hpost => ⟨_, _, rfl, hpost⟩⟩

theorem ends_store {post : Unit → Store → Prop} (h : Fits machine region address width) :
    Ends (store machine width region address value) post s ↔
      post () { s with memory := setWord s.memory address width value } := by
  unfold store
  rw [reach_eq h, pure_bind]
  exact ⟨fun ⟨_, _, hrun, hpost⟩ => by cases hrun; exact hpost, fun hpost => ⟨_, _, rfl, hpost⟩⟩

theorem ends_outputWrite {post : Unit → Store → Prop} (h : Fits machine region address width) :
    Ends (outputWrite machine region address width) post s ↔
      post () { s with output := some (bytesAt s.memory address width) } := by
  unfold outputWrite
  rw [reach_eq h, pure_bind]
  exact ⟨fun ⟨_, _, hrun, hpost⟩ => by cases hrun; exact hpost, fun hpost => ⟨_, _, rfl, hpost⟩⟩

def withInput (machine : Machine) (ptr : Nat) (memory : Memory) : Memory := fun a =>
  if ptr ≤ a ∧ a < ptr + machine.input.length then machine.input.getD (a - ptr) 0 else memory a

theorem ends_inputRead {post : Nat → Store → Prop} {ptr : Nat}
    (h : Fits machine region ptr machine.input.length) :
    Ends (inputRead machine region ptr machine.input.length) post s ↔
      post machine.input.length { s with memory := withInput machine ptr s.memory } := by
  obtain ⟨hstart, hend, hmemory⟩ := h
  unfold inputRead
  dsimp only
  rw [Nat.min_self, if_neg (fun hstray => hstray.2 ⟨hstart, hend⟩), if_neg (by omega)]
  exact ⟨fun ⟨_, _, hrun, hpost⟩ => by cases hrun; exact hpost, fun hpost => ⟨_, _, rfl, hpost⟩⟩

end

end O2Fabric.Guest
