/-
  O2Fabric.Aot.WasiExecutor

  The three descriptors and the entropy a WASI guest is given: stdin over the
  input block, stdout that keeps what it is given up to a cap, stderr that keeps
  the start and counts the rest, and a stream of bytes that is SHA-256 in
  counter mode over a seed.
-/

import O2Fabric.Core.Platform

namespace O2Fabric.Wasi

inductive Errno
  | success
  | nospc
  deriving DecidableEq

structure WriteResult where
  ret : Errno
  nwritten : Nat
  deriving DecidableEq

/-! ## Stdin -/

structure TaskStdin where
  bytes : Bytes
  cursor : Nat

namespace TaskStdin

def new (bytes : Bytes) : TaskStdin := ⟨bytes, 0⟩

/-- `fd_read(size)`: a short read is what is left, and then nothing. -/
def fdRead (stdin : TaskStdin) (size : ℤ) : Bytes × TaskStdin :=
  let n := (max 0 (min size (stdin.bytes.length - stdin.cursor))).toNat
  ((stdin.bytes.drop stdin.cursor).take n, { stdin with cursor := stdin.cursor + n })

def reads (stdin : TaskStdin) : List ℤ → List Bytes
  | [] => []
  | size :: sizes => (stdin.fdRead size).1 :: reads (stdin.fdRead size).2 sizes

end TaskStdin

/-! ## Stdout -/

structure CappedSink where
  limit : JsNumber
  chunks : List Bytes
  length : Nat
  overflowed : Bool

namespace CappedSink

def new (limit : JsNumber) : CappedSink := ⟨limit, [], 0, false⟩

/-- `fd_write(data)`: past the cap nothing is kept of it. -/
def fdWrite (sink : CappedSink) (data : Bytes) : WriteResult × CappedSink :=
  if sink.limit.below (.finite (sink.length + data.length : Nat)) then
    (⟨.nospc, 0⟩, { sink with overflowed := true })
  else
    (⟨.success, data.length⟩,
      { sink with chunks := sink.chunks ++ [data], length := sink.length + data.length })

def bytes (sink : CappedSink) : Bytes := sink.chunks.flatten

def writes (sink : CappedSink) : List Bytes → List WriteResult × CappedSink
  | [] => ([], sink)
  | data :: rest =>
    let (result, sink) := sink.fdWrite data
    let (results, sink) := writes sink rest
    (result :: results, sink)

end CappedSink

/-! ## Stderr -/

def MAX_STDERR_BYTES : Nat := 4096

structure DiagnosticSink where
  limit : Nat
  chunks : List Bytes
  kept : Nat
  dropped : Nat

namespace DiagnosticSink

def new (limit : Nat) : DiagnosticSink := ⟨limit, [], 0, 0⟩

/-- `fd_write(data)`: every write succeeds; one that straddles the cap is split. -/
def fdWrite (sink : DiagnosticSink) (data : Bytes) : WriteResult × DiagnosticSink :=
  let room := sink.limit - sink.kept
  let keep := min room data.length
  (⟨.success, data.length⟩,
    { sink with
      chunks := if 0 < keep then sink.chunks ++ [data.take keep] else sink.chunks
      kept := if 0 < keep then sink.kept + keep else sink.kept
      dropped := sink.dropped + (data.length - keep) })

/-- What `text()` decodes. -/
def bytes (sink : DiagnosticSink) : Bytes := sink.chunks.flatten

def writes (sink : DiagnosticSink) : List Bytes → List WriteResult × DiagnosticSink
  | [] => ([], sink)
  | data :: rest =>
    let (result, sink) := sink.fdWrite data
    let (results, sink) := writes sink rest
    (result :: results, sink)

end DiagnosticSink

/-! ## Entropy -/

/-- `sha256`, whose digests are 32 bytes. -/
structure Sha256 where
  digest : Bytes → Bytes
  length_digest : ∀ bytes, (digest bytes).length = 32

theorem littleEndian_lt (n : Nat) : n % 256 < 256 := Nat.mod_lt n (by omega)

/-- `setUint32(offset, value, true)`: four bytes, low byte first. -/
def uint32LE (n : Nat) : Bytes :=
  [⟨n % 256, littleEndian_lt n⟩, ⟨n / 2 ^ 8 % 256, littleEndian_lt _⟩,
    ⟨n / 2 ^ 16 % 256, littleEndian_lt _⟩, ⟨n / 2 ^ 24 % 256, littleEndian_lt _⟩]

/-- A stream as far as it has been drawn: the next counter, and what is drawn of the block. -/
structure SeededStream where
  seed : Bytes
  counter : Nat
  block : Bytes
  offset : Nat

namespace SeededStream

variable (sha256 : Sha256)

/-- `seededStream(seed)`. -/
def new (seed : Bytes) : SeededStream := ⟨seed, 0, [], 0⟩

/-- The next block, where there is none left. -/
def refill (stream : SeededStream) : SeededStream :=
  if stream.block.length ≤ stream.offset then
    { stream with
      block := sha256.digest (stream.seed ++ uint32LE stream.counter)
      counter := stream.counter + 1
      offset := 0 }
  else stream

def next (stream : SeededStream) : Fin 256 × SeededStream :=
  let stream := stream.refill sha256
  ((stream.block[stream.offset]?).getD 0, { stream with offset := stream.offset + 1 })

/-- Fill a buffer of a length. -/
def fill (stream : SeededStream) : Nat → Bytes × SeededStream
  | 0 => ([], stream)
  | n + 1 =>
    let (byte, stream) := stream.next sha256
    let (bytes, stream) := fill stream n
    (byte :: bytes, stream)

def draws (stream : SeededStream) : List Nat → List Bytes
  | [] => []
  | length :: lengths =>
    let (bytes, stream) := stream.fill sha256 length
    bytes :: draws stream lengths

end SeededStream

end O2Fabric.Wasi

/-! # Chunking

How a guest cuts up its reads, its writes and its draws does not matter: what
a descriptor has delivered or kept is a prefix whose length only the total
decides, and stdout is the concatenation of the writes it acknowledged.
-/

namespace O2Fabric.Wasi

/-! ## Stdin -/

/-- The non-negative sizes, added up. -/
def totalSize (sizes : List ℤ) : Nat := (sizes.map Int.toNat).sum

theorem TaskStdin.flatten_reads (stdin : TaskStdin) (sizes : List ℤ) :
    (stdin.reads sizes).flatten = (stdin.bytes.drop stdin.cursor).take (totalSize sizes) := by
  induction sizes generalizing stdin with
  | nil => rfl
  | cons size sizes ih =>
    -- what is read is what was asked for, or all that is left
    have htake : (stdin.fdRead size).1 = (stdin.bytes.drop stdin.cursor).take size.toNat := by
      unfold fdRead
      rw [List.take_eq_take_iff, List.length_drop]
      omega
    have hnext : (stdin.bytes.drop (stdin.fdRead size).2.cursor)
        = (stdin.bytes.drop stdin.cursor).drop size.toNat := by
      simp only [fdRead]
      rw [List.drop_drop]
      by_cases hshort : size ≤ stdin.bytes.length - stdin.cursor
      · congr 1
        omega
      · rw [List.drop_eq_nil_of_le (by omega), List.drop_eq_nil_of_le (by omega)]
    have htotal : totalSize (size :: sizes) = size.toNat + totalSize sizes := by
      simp [totalSize]
    rw [reads, List.flatten_cons, ih, htake, htotal, List.take_add, ← hnext]
    rfl

/-! ## Stdout -/

def acknowledged (writes : List Bytes) (results : List WriteResult) : List Bytes :=
  ((writes.zip results).filter fun pair => decide (pair.2.ret = .success)).map Prod.fst

namespace CappedSink

/-- A sink counts what it holds, and holds nothing past its limit. -/
structure Sound (sink : CappedSink) : Prop where
  length : sink.length = sink.bytes.length
  within : sink.bytes = [] ∨ sink.limit.below (.finite (sink.bytes.length : Nat)) = false

/-- A write is kept whole and acknowledged whole, or refused and marked. -/
theorem fdWrite_cases (sink : CappedSink) (data : Bytes) :
    (sink.fdWrite data = (⟨.nospc, 0⟩, { sink with overflowed := true })) ∨
      (sink.limit.below (.finite (sink.length + data.length : Nat)) = false ∧
        sink.fdWrite data = (⟨.success, data.length⟩,
          { sink with chunks := sink.chunks ++ [data], length := sink.length + data.length })) := by
  unfold fdWrite
  split
  · exact .inl rfl
  · next hroom => exact .inr ⟨Bool.eq_false_iff.mpr hroom, rfl⟩

theorem writes_cons (sink : CappedSink) (data : Bytes) (rest : List Bytes) :
    sink.writes (data :: rest) = ((sink.fdWrite data).1 :: ((sink.fdWrite data).2.writes rest).1,
      ((sink.fdWrite data).2.writes rest).2) := rfl

theorem limit_writes (sink : CappedSink) (data : List Bytes) :
    (sink.writes data).2.limit = sink.limit := by
  induction data generalizing sink with
  | nil => rfl
  | cons one rest ih =>
    rw [writes_cons, ih]
    rcases fdWrite_cases sink one with hrefused | ⟨-, hkept⟩
    · rw [hrefused]
    · rw [hkept]

structure Wrote (sink : CappedSink) (data : List Bytes) (results : List WriteResult)
    (after : CappedSink) : Prop where
  sound : after.Sound
  bytes : after.bytes = sink.bytes ++ (acknowledged data results).flatten
  whole : List.Forall₂ (fun one result => result = ⟨.success, one.length⟩ ∨ result = ⟨.nospc, 0⟩)
    data results
  overflowed : after.overflowed = true ↔
    sink.overflowed = true ∨ ∃ result ∈ results, result.ret = .nospc

theorem wrote_writes {sink : CappedSink} (hsound : sink.Sound) (data : List Bytes) :
    Wrote sink data (sink.writes data).1 (sink.writes data).2 := by
  induction data generalizing sink with
  | nil =>
    exact {
      sound := hsound
      bytes := (List.append_nil _).symm
      whole := .nil
      overflowed := ⟨.inl, by rintro (h | ⟨result, hresult, -⟩); exacts [h, by cases hresult]⟩ }
  | cons one rest ih =>
    rw [writes_cons]
    rcases fdWrite_cases sink one with hrefused | ⟨hroom, hkept⟩
    · have hmarked : Sound { sink with overflowed := true } := ⟨hsound.length, hsound.within⟩
      have hlater := ih hmarked
      rw [hrefused]
      exact {
        sound := hlater.sound
        bytes := hlater.bytes
        whole := .cons (.inr rfl) hlater.whole
        overflowed :=
          ⟨fun _ => .inr ⟨_, List.mem_cons_self, rfl⟩, fun _ => hlater.overflowed.mpr (.inl rfl)⟩ }
    · have hbytes : ({ sink with
            chunks := sink.chunks ++ [one], length := sink.length + one.length } : CappedSink).bytes
          = sink.bytes ++ one := by
        simp [CappedSink.bytes]
      have hlength : sink.length + one.length = (sink.bytes ++ one).length := by
        rw [List.length_append, hsound.length]
      have hsound' : Sound { sink with
          chunks := sink.chunks ++ [one], length := sink.length + one.length } :=
        ⟨by rw [hbytes]; exact hlength, .inr (by rw [hbytes, ← hlength]; exact hroom)⟩
      have hlater := ih hsound'
      rw [hkept]
      exact {
        sound := hlater.sound
        bytes := by
          rw [hlater.bytes, hbytes, List.append_assoc]
          rfl
        whole := .cons (.inl rfl) hlater.whole
        overflowed := by
          rw [hlater.overflowed]
          simp }

theorem sound_new (limit : JsNumber) : (new limit).Sound := ⟨rfl, .inl rfl⟩

theorem writes_append (sink : CappedSink) (data more : List Bytes) :
    (sink.writes (data ++ more)).2 = ((sink.writes data).2.writes more).2 := by
  induction data generalizing sink with
  | nil => rfl
  | cons one rest ih => exact ih (sink.fdWrite one).2

/-- A sink that has overflowed stays so. -/
theorem overflowed_stays {limit : JsNumber} {data : List Bytes}
    (h : ((new limit).writes data).2.overflowed = true) (more : List Bytes) :
    ((new limit).writes (data ++ more)).2.overflowed = true := by
  rw [writes_append]
  exact (wrote_writes (wrote_writes (sound_new limit) data).sound more).overflowed.mpr (.inl h)

end CappedSink

/-! ## Stderr -/

namespace DiagnosticSink

structure Holds (sink : DiagnosticSink) (all : Bytes) : Prop where
  kept : sink.kept = min sink.limit all.length
  bytes : sink.bytes = all.take (min sink.limit all.length)
  counted : sink.kept + sink.dropped = all.length

theorem holds_new (limit : Nat) : (new limit).Holds [] :=
  ⟨(Nat.min_zero limit).symm, List.take_nil.symm, rfl⟩

theorem limit_fdWrite (sink : DiagnosticSink) (data : Bytes) :
    (sink.fdWrite data).2.limit = sink.limit := rfl

theorem Holds.fdWrite {sink : DiagnosticSink} {all : Bytes} (h : sink.Holds all) (data : Bytes) :
    (sink.fdWrite data).2.Holds (all ++ data) := by
  have hkept := h.kept
  have hcounted := h.counted
  generalize hkeep : min (sink.limit - sink.kept) data.length = keep
  have hall : (all ++ data).take (min sink.limit (all ++ data).length)
      = all.take (min sink.limit all.length) ++ data.take keep := by
    rw [List.take_append, List.length_append]
    congr 1
    · rw [List.take_eq_take_iff]
      omega
    · rw [List.take_eq_take_iff]
      omega
  have hbytes : (sink.fdWrite data).2.bytes = sink.bytes ++ data.take keep := by
    simp only [DiagnosticSink.fdWrite, DiagnosticSink.bytes, hkeep]
    split
    · simp
    · next hnone =>
      have hzero : keep = 0 := by omega
      simp [hzero]
  constructor
  · simp only [DiagnosticSink.fdWrite, hkeep, List.length_append]
    split <;> omega
  · rw [hbytes, limit_fdWrite, hall, h.bytes]
  · simp only [DiagnosticSink.fdWrite, hkeep, List.length_append]
    split <;> omega

theorem holds_writes {sink : DiagnosticSink} {all : Bytes} (h : sink.Holds all)
    (data : List Bytes) :
    (sink.writes data).2.Holds (all ++ data.flatten) ∧
      (sink.writes data).1 = data.map fun one => ⟨.success, one.length⟩ := by
  induction data generalizing sink all with
  | nil =>
    rw [List.flatten_nil, List.append_nil]
    exact ⟨h, rfl⟩
  | cons one rest ih =>
    obtain ⟨hlater, hresults⟩ := ih (h.fdWrite one)
    rw [List.flatten_cons, ← List.append_assoc]
    exact ⟨hlater, congrArg (List.cons _) hresults⟩

theorem limit_writes (sink : DiagnosticSink) (data : List Bytes) :
    (sink.writes data).2.limit = sink.limit := by
  induction data generalizing sink with
  | nil => rfl
  | cons one rest ih => exact ih (sink.fdWrite one).2

end DiagnosticSink

/-! ## Entropy -/

def counterBlock (sha256 : Sha256) (seed : Bytes) (counter : Nat) : Bytes :=
  sha256.digest (seed ++ uint32LE counter)

def counterByte (sha256 : Sha256) (seed : Bytes) (position : Nat) : Fin 256 :=
  ((counterBlock sha256 seed (position / 32))[position % 32]?).getD 0

variable {sha256 : Sha256}

theorem length_counterBlock (seed : Bytes) (counter : Nat) :
    (counterBlock sha256 seed counter).length = 32 := sha256.length_digest _

/-- The bytes by position are the blocks, one after the other. -/
theorem counterByte_blocks (seed : Bytes) (blocks : Nat) :
    (List.range (32 * blocks)).map (counterByte sha256 seed)
      = (List.range blocks).flatMap (counterBlock sha256 seed) := by
  induction blocks with
  | zero => rfl
  | succ blocks ih =>
    have hblock : (List.range 32).map (fun i => counterByte sha256 seed (32 * blocks + i))
        = counterBlock sha256 seed blocks := by
      apply List.ext_getElem
      · rw [List.length_map, List.length_range, length_counterBlock]
      · intro i hi hi'
        rw [length_counterBlock] at hi'
        have hdiv : (32 * blocks + i) / 32 = blocks := by omega
        have hmod : (32 * blocks + i) % 32 = i := by omega
        rw [List.getElem_map, List.getElem_range, counterByte, hdiv, hmod,
          List.getElem?_eq_getElem (by rw [length_counterBlock]; omega), Option.getD_some]
    rw [Nat.mul_succ, List.range_add, List.map_append, ih, List.map_map,
      @List.range_succ blocks, List.flatMap_append, List.flatMap_singleton]
    exact congrArg _ hblock

namespace SeededStream

structure DrawnTo (sha256 : Sha256) (seed : Bytes) (position : Nat) (stream : SeededStream) :
    Prop where
  sameSeed : stream.seed = seed
  counted : stream.counter = (position + 31) / 32
  drawn : (position % 32 = 0 ∧ stream.block.length ≤ stream.offset) ∨
    (position % 32 ≠ 0 ∧ stream.offset = position % 32 ∧
      stream.block = counterBlock sha256 seed (position / 32))

variable {seed : Bytes} {position : Nat} {stream : SeededStream}

/-- The next byte is the one at the position. -/
theorem DrawnTo.next (h : DrawnTo sha256 seed position stream) :
    (stream.next sha256).1 = counterByte sha256 seed position ∧
      DrawnTo sha256 seed (position + 1) (stream.next sha256).2 := by
  obtain ⟨hseed, hcounter, hblock⟩ := h
  rcases hblock with ⟨hend, hdone⟩ | ⟨hmid, hoffset, hblock⟩
  · -- a new block: the position is its first
    have hrefill : stream.refill sha256
        = ⟨seed, stream.counter + 1, counterBlock sha256 seed (position / 32), 0⟩ := by
      have hat : stream.counter = position / 32 := by omega
      rw [refill, if_pos hdone, hseed, hat, counterBlock]
    rw [SeededStream.next, hrefill]
    refine ⟨by rw [counterByte, hend], rfl, ?_, .inr ⟨by omega, ?_, ?_⟩⟩
    · show stream.counter + 1 = (position + 1 + 31) / 32
      omega
    · show 0 + 1 = (position + 1) % 32
      omega
    · show counterBlock sha256 seed (position / 32) = _
      congr 1
      omega
  · have hlength : stream.block.length = 32 := by rw [hblock, length_counterBlock]
    have hrefill : stream.refill sha256 = stream := by
      rw [refill, if_neg (by omega)]
    rw [SeededStream.next, hrefill]
    refine ⟨by rw [counterByte, hblock, hoffset], hseed, ?_, ?_⟩
    · show stream.counter = (position + 1 + 31) / 32
      omega
    · by_cases hlast : position % 32 = 31
      · left
        refine ⟨by omega, ?_⟩
        show stream.block.length ≤ stream.offset + 1
        omega
      · right
        refine ⟨by omega, ?_, ?_⟩
        · show stream.offset + 1 = (position + 1) % 32
          omega
        · show stream.block = _
          rw [hblock]
          congr 1
          omega

theorem DrawnTo.fill (h : DrawnTo sha256 seed position stream) (length : Nat) :
    (stream.fill sha256 length).1
        = (List.range length).map (fun i => counterByte sha256 seed (position + i)) ∧
      DrawnTo sha256 seed (position + length) (stream.fill sha256 length).2 := by
  induction length generalizing position stream with
  | zero => exact ⟨rfl, h⟩
  | succ length ih =>
    obtain ⟨hbyte, hnext⟩ := h.next
    obtain ⟨hbytes, hlater⟩ := ih hnext
    constructor
    · show (stream.next sha256).1 :: ((stream.next sha256).2.fill sha256 length).1 = _
      rw [hbyte, hbytes, List.range_succ_eq_map, List.map_cons, List.map_map]
      refine congrArg _ (List.map_congr_left fun i _ => ?_)
      rw [Function.comp_apply]
      congr 1
      omega
    · rw [show position + (length + 1) = position + 1 + length by omega]
      exact hlater

theorem DrawnTo.draws (h : DrawnTo sha256 seed position stream) (lengths : List Nat) :
    (stream.draws sha256 lengths).flatten
      = (List.range lengths.sum).map (fun i => counterByte sha256 seed (position + i)) := by
  induction lengths generalizing position stream with
  | nil => rfl
  | cons length lengths ih =>
    obtain ⟨hbytes, hlater⟩ := h.fill length
    show (stream.fill sha256 length).1
      ++ ((stream.fill sha256 length).2.draws sha256 lengths).flatten = _
    rw [hbytes, ih hlater, List.sum_cons, List.range_add, List.map_append, List.map_map]
    refine congrArg _ (List.map_congr_left fun i _ => ?_)
    rw [Function.comp_apply, Nat.add_assoc]

theorem drawnTo_new (seed : Bytes) : DrawnTo sha256 seed 0 (new seed) :=
  ⟨rfl, rfl, .inl ⟨rfl, Nat.le_refl 0⟩⟩

end SeededStream

/-! ## Any chunking -/

/-- How a guest cuts up its reads, writes and draws decides nothing but the total does. -/
theorem chunking_does_not_matter (sha256 : Sha256) :
    (∀ (input : Bytes) (sizes : List ℤ), ((TaskStdin.new input).reads sizes).flatten
      = input.take (min input.length (totalSize sizes))) ∧
    (∀ (limit : JsNumber) (data : List Bytes),
      let written := (CappedSink.new limit).writes data
      written.2.bytes = (acknowledged data written.1).flatten ∧
      (written.2.bytes = [] ∨
        limit.below (.finite (written.2.bytes.length : Nat)) = false) ∧
      List.Forall₂ (fun one result => result = ⟨.success, one.length⟩ ∨ result = ⟨.nospc, 0⟩)
        data written.1 ∧
      (written.2.overflowed = true ↔ ∃ result ∈ written.1, result.ret = .nospc) ∧
      ∀ more, written.2.overflowed = true →
        ((CappedSink.new limit).writes (data ++ more)).2.overflowed = true) ∧
    (∀ (limit : Nat) (data : List Bytes),
      let written := (DiagnosticSink.new limit).writes data
      (written.1 = data.map fun one => ⟨.success, one.length⟩) ∧
      written.2.bytes = data.flatten.take (min limit data.flatten.length) ∧
      written.2.kept = written.2.bytes.length ∧
      written.2.kept + written.2.dropped = data.flatten.length) ∧
    (∀ (seed : Bytes) (lengths : List Nat),
      (∀ blocks, lengths.sum ≤ 32 * blocks →
        ((SeededStream.new seed).draws sha256 lengths).flatten
          = ((List.range blocks).flatMap (counterBlock sha256 seed)).take lengths.sum) ∧
      ∀ lengths' : List Nat, lengths.sum = lengths'.sum →
        ((SeededStream.new seed).draws sha256 lengths).flatten
          = ((SeededStream.new seed).draws sha256 lengths').flatten) := by
  refine ⟨?_, ?_, ?_, ?_⟩
  · intro input sizes
    rw [TaskStdin.flatten_reads]
    show (input.drop 0).take (totalSize sizes) = _
    rw [List.drop_zero, List.take_eq_take_iff]
    omega
  · intro limit data
    obtain ⟨hsound, hbytes, hwhole, hoverflowed⟩ :=
      CappedSink.wrote_writes (CappedSink.sound_new limit) data
    have hlimit : ((CappedSink.new limit).writes data).2.limit = limit :=
      CappedSink.limit_writes _ data
    refine ⟨hbytes, ?_, hwhole, ?_, fun more h => CappedSink.overflowed_stays h more⟩
    · have hwithin := hsound.within
      rwa [hlimit] at hwithin
    · rw [hoverflowed]
      exact or_iff_right (by rintro ⟨⟩)
  · intro limit data
    obtain ⟨hholds, hresults⟩ := DiagnosticSink.holds_writes (DiagnosticSink.holds_new limit) data
    have hlimit : ((DiagnosticSink.new limit).writes data).2.limit = limit :=
      DiagnosticSink.limit_writes _ data
    have hbytes := hholds.bytes
    rw [hlimit, List.nil_append] at hbytes
    have hkept := hholds.kept
    rw [hlimit, List.nil_append] at hkept
    refine ⟨hresults, hbytes, ?_, hholds.counted⟩
    rw [hbytes, hkept, List.length_take]
    omega
  · intro seed lengths
    have hdrawn : ∀ lengths : List Nat, ((SeededStream.new seed).draws sha256 lengths).flatten
        = (List.range lengths.sum).map (counterByte sha256 seed) := by
      intro lengths
      rw [(SeededStream.drawnTo_new seed).draws lengths]
      exact List.map_congr_left fun i _ => by rw [Nat.zero_add]
    refine ⟨fun blocks hblocks => ?_, fun lengths' hsum => ?_⟩
    · -- what is drawn by position is the start of the blocks
      rw [hdrawn, ← counterByte_blocks, ← List.map_take, List.take_range, Nat.min_eq_left hblocks]
    · rw [hdrawn, hdrawn, hsum]

/-- The digest of four zero bytes, which is the first block over the empty seed. -/
def zeroDigest : Sha256 :=
  ⟨fun _ => [223, 63, 97, 152, 4, 169, 47, 219, 64, 87, 25, 45, 196, 61, 215, 72,
    234, 119, 138, 220, 82, 188, 73, 140, 232, 5, 36, 192, 20, 184, 17, 25], fun _ => rfl⟩

theorem chunking_does_not_matter_empty_seed :
    ((SeededStream.new []).draws zeroDigest [1, 0, 2]).flatten = [223, 63, 97] ∧
      ((SeededStream.new []).draws zeroDigest [1, 0, 2]).flatten
        = ((SeededStream.new []).draws zeroDigest [3]).flatten := by
  obtain ⟨-, -, -, hdrawn⟩ := chunking_does_not_matter zeroDigest
  exact ⟨(hdrawn [] [1, 0, 2]).1 1 (by decide), (hdrawn [] [1, 0, 2]).2 [3] rfl⟩

end O2Fabric.Wasi
