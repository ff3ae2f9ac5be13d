/-
  O2Fabric.Demo.Kernel

  What the series kernels share, the one that counts primes and the one that sums
  for pi: how they take their block in, which part of the work is theirs, and the
  frame they answer with.  And how the host reads such a frame back.
-/

import O2Fabric.Core.DagCbor
import O2Fabric.Core.Executor.Wasm
import O2Fabric.Demo.Guest
import O2Fabric.Lib.EvenSplit

namespace O2Fabric.Kernel

open Guest Program

/-! ## Memory -/

def OUT : Region := ⟨0, 16⟩

def INPUT : Region := ⟨256, 3840⟩

def INPUT_ROOM : Nat := 3840

def VERSION : Nat := 1

/-! ## The block -/

/-- How long the header of a DAG-CBOR byte string is, by its first byte. -/
def headerWidth (t : Nat) : Nat :=
  let hdr := 1
  let hdr := if t = 0x58 then 2 else hdr
  let hdr := if t = 0x59 then 3 else hdr
  if t = 0x5a then 5 else hdr

section

variable (machine : Machine)

/-- The bound a block asks for, `none` where the block is refused. -/
def pullBlock (maximum : Nat) : Run (Option Nat) := do
  let len ← inputLen machine
  if INPUT_ROOM < len then return none
  else do
    let _ ← inputRead machine INPUT INPUT.start len
    let t ← load machine 1 INPUT INPUT.start
    let need ← i32Add machine (headerWidth t) 8
    if len < need then return none
    else do
      let base ← i32Add machine INPUT.start (headerWidth t)
      let version ← load machine 4 INPUT base
      if version ≠ VERSION then return none
      else do
        let bound ← load machine 4 INPUT (base + 4)
        if maximum < bound then return none else return some bound

/-- Which shard this is and of how many, `none` where it is not one of them. -/
def ownShard : Run (Option (Nat × Nat)) := do
  let p ← Guest.partition machine
  let index := p >>> 16
  let count := p &&& 0xffff
  let count := if count = 0 then 1 else count
  if count ≤ index then return none else return some (index, count)

def minU (a b : Nat) : Nat := if a < b then a else b

/-- Where a piece of the work starts, from `base` on. -/
def pieceStart (index chunk rem : Nat) : Run Nat := do
  let skipped ← i32Mul machine index chunk
  i32Add machine skipped (minU index rem)

/-- The first index of the shard's piece, and the first one after it. -/
def ownRange (total index count : Nat) : Run (Nat × Nat) := do
  let chunk ← i32DivU total count
  let rem ← i32RemU total count
  let lo ← pieceStart machine index chunk rem
  let next ← i32Add machine index 1
  let hi ← pieceStart machine next chunk rem
  return (lo, hi)

/-- The frame: a map of the result, under one letter, and of the status. -/
def emit (letter : Nat) (result : ℤ) (status : Nat) : Run Unit := do
  store machine 1 OUT OUT.start 0xa2
  store machine 1 OUT (OUT.start + 1) 0x61
  store machine 1 OUT (OUT.start + 2) letter
  store machine 1 OUT (OUT.start + 3) 0x48
  store machine 8 OUT (OUT.start + 4) (result % 2 ^ 64).toNat
  store machine 1 OUT (OUT.start + 12) 0x61
  store machine 1 OUT (OUT.start + 13) 0x73
  store machine 1 OUT (OUT.start + 14) 0x41
  store machine 1 OUT (OUT.start + 15) status
  outputWrite machine OUT OUT.start 16

end

/-! ## What these end with -/

/-- What a block asks for, read off its bytes. -/
def blockBound (input : Bytes) (maximum : Nat) : Option Nat :=
  let bytes : Memory := fun i => input.getD i 0
  let hdr := headerWidth (wordAt bytes 0 1)
  if INPUT_ROOM < input.length ∨ input.length < hdr + 8 then none
  else if wordAt bytes hdr 4 ≠ VERSION then none
  else if maximum < wordAt bytes (hdr + 4) 4 then none
  else some (wordAt bytes (hdr + 4) 4)

theorem blockBound_le {input : Bytes} {maximum bound : Nat}
    (h : blockBound input maximum = some bound) : bound ≤ maximum := by
  unfold blockBound at h
  dsimp only at h
  split at h
  · cases h
  split at h
  · cases h
  split at h
  · cases h
  · cases h
    omega

theorem headerWidth_bounds (t : Nat) : 1 ≤ headerWidth t ∧ headerWidth t ≤ 5 := by
  simp only [headerWidth]
  split_ifs <;> omega

section

variable {machine : Machine} {s : Store}

/-- A word of the input is one of the memory that took it in. -/
theorem wordAt_withInput (memory : Memory) {ptr i width : Nat}
    (h : i + width ≤ machine.input.length) :
    wordAt (withInput machine ptr memory) (ptr + i) width
      = wordAt (fun i => machine.input.getD i 0) i width := by
  apply wordAt_congr
  intro j hj
  rw [withInput, if_pos (by omega)]
  congr 1
  omega

theorem ends_pullBlock {maximum : Nat} (hsize : 4096 ≤ machine.memorySize) :
    Ends (pullBlock machine maximum)
      (fun bound _ => bound = blockBound machine.input maximum) s := by
  unfold pullBlock blockBound inputLen
  rw [pure_bind]
  by_cases hroom : INPUT_ROOM < machine.input.length
  · rw [if_pos hroom, if_pos (.inl hroom)]
    exact ends_pure.mpr rfl
  have hlen : machine.input.length ≤ 3840 := Nat.le_of_not_lt hroom
  have hread : Fits machine INPUT INPUT.start machine.input.length := by
    refine ⟨Nat.le_refl _, ?_, hsize⟩
    show 256 + machine.input.length ≤ 256 + 3840
    omega
  have hfirst : Fits machine INPUT INPUT.start 1 := ⟨Nat.le_refl _, by decide, hsize⟩
  rw [if_neg hroom, ends_bind, ends_inputRead hread, ends_bind, ends_load hfirst]
  dsimp only
  -- the first byte is the input's, or there is none and the block is too short
  rcases Nat.eq_zero_or_pos machine.input.length with hempty | hpos
  · obtain ⟨hone, hfive⟩ := headerWidth_bounds
      (wordAt (withInput machine INPUT.start s.memory) INPUT.start 1)
    obtain ⟨hone', -⟩ := headerWidth_bounds (wordAt (fun i => machine.input.getD i 0) 0 1)
    rw [i32Add_eq (by omega), pure_bind, if_pos (by omega), if_pos (.inr (by omega))]
    exact ends_pure.mpr rfl
  have hword : ∀ {i width}, i + width ≤ machine.input.length →
      wordAt (withInput machine INPUT.start s.memory) (INPUT.start + i) width
        = wordAt (fun i => machine.input.getD i 0) i width := wordAt_withInput s.memory
  have hbyte := hword (show 0 + 1 ≤ machine.input.length from hpos)
  rw [Nat.add_zero] at hbyte
  rw [hbyte]
  generalize hhdr : headerWidth (wordAt (fun i => machine.input.getD i 0) 0 1) = hdr
  have hbounds := headerWidth_bounds (wordAt (fun i => machine.input.getD i 0) 0 1)
  rw [hhdr] at hbounds
  rw [i32Add_eq (by omega), pure_bind]
  by_cases hshort : machine.input.length < hdr + 8
  · rw [if_pos hshort, if_pos (.inr hshort)]
    exact ends_pure.mpr rfl
  have hstart : INPUT.start = 256 := rfl
  have hversion : Fits machine INPUT (INPUT.start + hdr) 4 := by
    refine ⟨Nat.le_add_right _ _, ?_, hsize⟩
    show 256 + hdr + 4 ≤ 256 + 3840
    omega
  have hbound : Fits machine INPUT (INPUT.start + hdr + 4) 4 := by
    refine ⟨by omega, ?_, hsize⟩
    show 256 + hdr + 4 + 4 ≤ 256 + 3840
    omega
  rw [if_neg hshort, if_neg (by omega), i32Add_eq (by omega), pure_bind, ends_bind,
    ends_load hversion, hword (by omega)]
  split
  · exact ends_pure.mpr rfl
  rw [ends_bind, ends_load hbound, Nat.add_assoc INPUT.start, hword (by omega)]
  split <;> exact ends_pure.mpr rfl

/-- Which shard a word of `partition()` is. -/
def shardOf (word : Nat) : Option (Nat × Nat) :=
  let count := if word &&& 0xffff = 0 then 1 else word &&& 0xffff
  if count ≤ word >>> 16 then none else some (word >>> 16, count)

theorem ends_ownShard :
    Ends (ownShard machine) (fun shard s' => shard = shardOf machine.partitionWord ∧ s' = s) s := by
  unfold ownShard shardOf Guest.partition
  rw [pure_bind]
  dsimp only
  by_cases hout : (if machine.partitionWord &&& 0xffff = 0 then 1
      else machine.partitionWord &&& 0xffff) ≤ machine.partitionWord >>> 16
  · rw [if_pos hout, if_pos hout]
    exact ends_pure.mpr ⟨rfl, rfl⟩
  · rw [if_neg hout, if_neg hout]
    exact ends_pure.mpr ⟨rfl, rfl⟩

variable {index count : Nat}

theorem shardOf_bounds {word : Nat} (h : shardOf word = some (index, count)) :
    index < count ∧ count < 2 ^ 16 := by
  have hmask : word &&& 0xffff ≤ 0xffff := Nat.and_le_right
  have hcount : (if word &&& 0xffff = 0 then 1 else word &&& 0xffff) < 2 ^ 16 := by
    split <;> omega
  unfold shardOf at h
  generalize (if word &&& 0xffff = 0 then 1 else word &&& 0xffff) = n at h hcount
  dsimp only at h
  split at h
  · cases h
  · cases h
    omega

/-- The kernel takes apart what the host packs. -/
theorem shardOf_packPartition (hindex : index < count) (hcount : count ≤ 65535) :
    shardOf (Wasm.packPartition index count).toNat = some (index, count) := by
  obtain ⟨hhigh, hlow⟩ := Wasm.unpack_packPartition hindex hcount
  rw [BitVec.toNat_ushiftRight] at hhigh
  have hlow : (Wasm.packPartition index count).toNat &&& 0xffff = count := by
    rwa [BitVec.toNat_and] at hlow
  unfold shardOf
  rw [hhigh, hlow, if_neg (show count ≠ 0 by omega)]
  exact if_neg (by omega)

theorem minU_eq (a b : Nat) : minU a b = min a b := by
  unfold minU
  split <;> omega

theorem pieceStart_eq {total i : Nat} (htotal : total < 2 ^ 32) (hcount : 0 < count)
    (hi : i ≤ count) :
    pieceStart machine i (total / count) (total % count)
      = pure (EvenSplit.start total count i) := by
  have hstart : EvenSplit.start total count i ≤ total := EvenSplit.start_le_total hcount hi
  unfold EvenSplit.start at hstart ⊢
  unfold pieceStart
  rw [i32Mul_eq (by omega), pure_bind, minU_eq, i32Add_eq (by omega)]

/-- Nothing wraps in the arithmetic of the split. -/
theorem ownRange_eq {total : Nat} (htotal : total < 2 ^ 32) (hcount : count < 2 ^ 16)
    (hindex : index < count) :
    ownRange machine total index count
      = pure (EvenSplit.start total count index, EvenSplit.start total count (index + 1)) := by
  unfold ownRange
  rw [i32DivU_eq (by omega), pure_bind, i32RemU_eq (by omega), pure_bind,
    pieceStart_eq htotal (by omega) (by omega), pure_bind, i32Add_eq (by omega), pure_bind,
    pieceStart_eq htotal (by omega) hindex, pure_bind]

end

/-! ## What the host makes of it -/

/-- The bytes of a number, the low one first. -/
def littleEndian (n : Nat) : Nat → Bytes
  | 0 => []
  | width + 1 => ⟨n % 256, mod_byte_lt n⟩ :: littleEndian (n / 256) width

def frame (letter : Fin 256) (result : ℤ) (status : Fin 256) : Bytes :=
  [0xa2, 0x61, letter, 0x48] ++ littleEndian (result % 2 ^ 64).toNat 8 ++ [0x61, 0x73, 0x41, status]

theorem ends_emit {machine : Machine} {s : Store} (hsize : 16 ≤ machine.memorySize)
    (letter : Fin 256) (result : ℤ) (status : Fin 256) :
    Ends (emit machine letter.val result status.val)
      (fun _ s' => s'.output = some (frame letter result status)) s := by
  have hfits : ∀ address width, address + width ≤ 16 → Fits machine OUT address width :=
    fun _ _ h => ⟨Nat.zero_le _, h, hsize⟩
  unfold emit
  simp only [ends_bind, ends_store (hfits _ _ (show OUT.start + 1 ≤ 16 by decide)),
    ends_store (hfits _ _ (show OUT.start + 1 + 1 ≤ 16 by decide)),
    ends_store (hfits _ _ (show OUT.start + 2 + 1 ≤ 16 by decide)),
    ends_store (hfits _ _ (show OUT.start + 3 + 1 ≤ 16 by decide)),
    ends_store (hfits _ _ (show OUT.start + 4 + 8 ≤ 16 by decide)),
    ends_store (hfits _ _ (show OUT.start + 12 + 1 ≤ 16 by decide)),
    ends_store (hfits _ _ (show OUT.start + 13 + 1 ≤ 16 by decide)),
    ends_store (hfits _ _ (show OUT.start + 14 + 1 ≤ 16 by decide)),
    ends_store (hfits _ _ (show OUT.start + 15 + 1 ≤ 16 by decide)),
    ends_outputWrite (hfits _ _ (show OUT.start + 16 ≤ 16 by decide))]
  unfold frame
  generalize (result % 2 ^ 64).toNat = n
  have hletter : letter.val % 256 = letter.val := Nat.mod_eq_of_lt letter.isLt
  have hstatus : status.val % 256 = status.val := Nat.mod_eq_of_lt status.isLt
  rw [bytesAt, show List.range 16 = [0, 1, 2, 3, 4, 5, 6, 7, 8, 9, 10, 11, 12, 13, 14, 15] from rfl]
  simp [setWord, OUT, littleEndian, Nat.div_div_eq_div_mul, hletter, hstatus]

/-- The value that a frame is the encoding of. -/
def partialValue (key : JsString) (result : ℤ) (status : Fin 256) : CanonicalValue :=
  .record [(key, .bytes (littleEndian (result % 2 ^ 64).toNat 8)), (js "s", .bytes [status])]

theorem length_littleEndian (n width : Nat) : (littleEndian n width).length = width := by
  induction width generalizing n with
  | zero => rfl
  | succ width ih => rw [littleEndian, List.length_cons, ih]

/-- A block as the host builds it asks for its bound. -/
theorem blockBound_built {maximum bound : Nat} (hmax : maximum < 2 ^ 32) (h : bound ≤ maximum) :
    blockBound (Cbor.byteString (littleEndian VERSION 4 ++ littleEndian bound 4)) maximum
      = some bound := by
  have hbytes : Cbor.byteString (littleEndian VERSION 4 ++ littleEndian bound 4)
      = 0x48 :: (littleEndian VERSION 4 ++ littleEndian bound 4) := by
    rw [Cbor.byteString, List.length_append, length_littleEndian, length_littleEndian]
    rfl
  have hversion : wordAt (fun i =>
      (0x48 :: (littleEndian VERSION 4 ++ littleEndian bound 4)).getD i 0) 1 4 = VERSION := rfl
  have hbound : wordAt (fun i =>
      (0x48 :: (littleEndian VERSION 4 ++ littleEndian bound 4)).getD i 0) (1 + 4) 4 = bound := by
    show bound % 256 + 256 * (bound / 256 % 256 + 256 * (bound / 256 / 256 % 256
      + 256 * (bound / 256 / 256 / 256 % 256 + 256 * 0))) = bound
    omega
  have hheader : headerWidth (wordAt (fun i =>
      (0x48 :: (littleEndian VERSION 4 ++ littleEndian bound 4)).getD i 0) 0 1) = 1 := rfl
  have hlength : (0x48 :: (littleEndian VERSION 4 ++ littleEndian bound 4)).length = 9 := rfl
  have hroom : ¬ (INPUT_ROOM < 9 ∨ 9 < 1 + 8) := by decide
  unfold blockBound
  dsimp only
  rw [hbytes, hheader, hlength, hversion, hbound, if_neg hroom, if_neg (not_not.mpr rfl),
    if_neg (by omega)]

/-- A frame is what strict DAG-CBOR encodes its value as. -/
theorem encodeCanonical_partialValue (codec : DagCbor) {key : JsString} {letter : Fin 256}
    (hkey : textEncoder key = [letter]) (hletter : letter ≤ 0x73) (result : ℤ)
    (status : Fin 256) :
    codec.encodeCanonical (partialValue key result status)
      = some (frame letter result status) := by
  have hs : textEncoder (js "s") = [0x73] := by decide
  have hbytes : Cbor.byteString (littleEndian (result % 2 ^ 64).toNat 8)
      = 0x48 :: littleEndian (result % 2 ^ 64).toNat 8 := by
    rw [Cbor.byteString, length_littleEndian]
    rfl
  have horder : Cbor.KeyLE ([letter], Cbor.byteString (littleEndian (result % 2 ^ 64).toNat 8))
      ([0x73], Cbor.byteString [status]) := by
    refine .inr ⟨rfl, ?_⟩
    rcases lt_or_eq_of_le hletter with hlt | heq
    · exact le_of_lt (List.Lex.rel hlt)
    · rw [heq]
  have hfields : codec.encodeFields
      [(key, .bytes (littleEndian (result % 2 ^ 64).toNat 8)), (js "s", .bytes [status])]
        = some [([letter], Cbor.byteString (littleEndian (result % 2 ^ 64).toNat 8)),
            ([0x73], Cbor.byteString [status])] := by
    simp [DagCbor.encodeFields, DagCbor.encodeCanonical, hkey, hs]
  rw [partialValue, DagCbor.encodeCanonical, hfields, Option.map_some, Cbor.map,
    List.insertionSort_cons, List.insertionSort_cons, List.insertionSort_nil,
    List.orderedInsert_nil, List.orderedInsert_cons, if_pos horder, hbytes]
  rfl

/-- The number that bytes are, the low one first. -/
def wordOf : Bytes → Nat
  | [] => 0
  | byte :: rest => byte.val + 256 * wordOf rest

theorem wordOf_littleEndian {n width : Nat} (h : n < 256 ^ width) :
    wordOf (littleEndian n width) = n := by
  induction width generalizing n with
  | zero =>
    rw [Nat.pow_zero] at h
    show 0 = n
    omega
  | succ width ih =>
    have hrest : n / 256 < 256 ^ width := by
      rw [Nat.pow_succ] at h
      omega
    rw [littleEndian, wordOf, ih hrest]
    show n % 256 + 256 * (n / 256) = n
    omega

/-- `Number.MAX_SAFE_INTEGER`. -/
def MAX_SAFE_INTEGER : ℤ := 2 ^ 53 - 1

/-- What the two readers differ in. -/
structure PartialForm where
  key : JsString
  what : JsString
  noun : JsString
  /-- `getBigInt64` or `getBigUint64`. -/
  wide : Bytes → ℤ

/-- The result in a frame's value, or the text of what is thrown; a count is never below zero, and
    its reader does not ask. -/
def readPartial (form : PartialForm) (output : CanonicalValue) : Except JsString ℤ :=
  let notOne := js "output is not a " ++ form.what
  match output with
  | .record fields =>
    match fields.lookup (js "s") with
    | some (.bytes [status]) =>
      if status ≠ 0 then
        .error (js "the guest refused this shard (status " ++ decimal status.val ++ js ")")
      else
        match fields.lookup form.key with
        | some (.bytes field) =>
          if field.length ≠ 8 then .error notOne
          else if MAX_SAFE_INTEGER < form.wide field ∨
              form.wide field < -MAX_SAFE_INTEGER then
            .error (form.noun ++ js " of " ++ integerText (form.wide field)
              ++ js " does not fit a JavaScript number")
          else .ok (form.wide field)
        | _ => .error notOne
    | _ => .error notOne
  | _ => .error notOne

section

variable {form : PartialForm}

theorem lookup_status (key : JsString) (hkey : key ≠ js "s") (result : ℤ) (status : Fin 256) :
    [(key, CanonicalValue.bytes (littleEndian (result % 2 ^ 64).toNat 8)),
      (js "s", .bytes [status])].lookup (js "s") = some (.bytes [status]) := by
  simp [List.lookup_cons, beq_false_of_ne (Ne.symm hkey)]

/-- A refusal is an error. -/
theorem readPartial_refused (hkey : form.key ≠ js "s") {result : ℤ} {status : Fin 256}
    (h : status ≠ 0) :
    readPartial form (partialValue form.key result status)
      = .error (js "the guest refused this shard (status " ++ decimal status.val ++ js ")") := by
  simp only [readPartial, partialValue, lookup_status form.key hkey, if_pos h]

/-- A result that is a safe integer is read. -/
theorem readPartial_ok (hkey : form.key ≠ js "s") {result : ℤ}
    (hwide : form.wide (littleEndian (result % 2 ^ 64).toNat 8) = result)
    (hlow : -MAX_SAFE_INTEGER ≤ result) (hhigh : result ≤ MAX_SAFE_INTEGER) :
    readPartial form (partialValue form.key result 0) = .ok result := by
  have hfield : [(form.key, CanonicalValue.bytes (littleEndian (result % 2 ^ 64).toNat 8)),
      (js "s", .bytes [0])].lookup form.key
        = some (.bytes (littleEndian (result % 2 ^ 64).toNat 8)) := by
    simp
  simp only [readPartial, partialValue, lookup_status form.key hkey, hfield, length_littleEndian,
    hwide, ne_eq, not_true_eq_false, if_false]
  rw [if_neg (by omega)]

end

end O2Fabric.Kernel
