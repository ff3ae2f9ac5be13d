/-
  O2Fabric.Aot.Elf.Watched

  The screen with every byte it reads and every table entry it visits written
  down.  What it answers is what the screen answers; what is written down stays
  inside the file, table by table.
-/

import O2Fabric.Aot.Elf

namespace O2Fabric.Aot

/-- The tables the screen walks through. -/
inductive Table
  | programHeaders
  | sections
  deriving DecidableEq

/-- A value, with the offsets that were read and the entries that were visited on the way. -/
structure Watched (α : Type) where
  value : α
  touched : List Nat
  visited : List Table

namespace Watched

instance : Monad Watched where
  pure a := ⟨a, [], []⟩
  bind x f :=
    ⟨(f x.value).value, x.touched ++ (f x.value).touched, x.visited ++ (f x.value).visited⟩

variable {α β : Type} {bytes : Bytes}

@[simp] theorem value_pure (a : α) : (pure a : Watched α).value = a := rfl

@[simp] theorem touched_pure (a : α) : (pure a : Watched α).touched = [] := rfl

@[simp] theorem visited_pure (a : α) : (pure a : Watched α).visited = [] := rfl

@[simp] theorem value_bind (x : Watched α) (f : α → Watched β) :
    (x >>= f).value = (f x.value).value := rfl

@[simp] theorem touched_bind (x : Watched α) (f : α → Watched β) :
    (x >>= f).touched = x.touched ++ (f x.value).touched := rfl

@[simp] theorem visited_bind (x : Watched α) (f : α → Watched β) :
    (x >>= f).visited = x.visited ++ (f x.value).visited := rfl

def visit (table : Table) : Watched Unit := ⟨(), [], [table]⟩

/-- A loop with an accumulator. -/
def foldl (f : β → Nat → Watched β) : β → List Nat → Watched β
  | acc, [] => pure acc
  | acc, i :: rest => do
    let acc ← f acc i
    foldl f acc rest

def collect (f : Nat → Watched β) : List Nat → Watched (List β)
  | [] => pure []
  | i :: rest => do
    let b ← f i
    let bs ← collect f rest
    return b :: bs

/-! ## The screen, watched -/

def byteAt (bytes : Bytes) (at_ : Nat) : Watched Nat := ⟨Aot.byteAt bytes at_, [at_], []⟩

def littleEndian (bytes : Bytes) (at_ : Nat) : Nat → Watched Nat
  | 0 => pure 0
  | width + 1 => do
    let low ← byteAt bytes at_
    let high ← littleEndian bytes (at_ + 1) width
    return low + 256 * high

def readAt (width : Nat) (bytes : Bytes) (at_ : Nat) : Watched (Option Nat) :=
  if bytes.length < at_ + width then pure none
  else do
    let n ← littleEndian bytes at_ width
    return some n

def u8 : Bytes → Nat → Watched (Option Nat) := readAt 1

def u16 : Bytes → Nat → Watched (Option Nat) := readAt 2

def u32 : Bytes → Nat → Watched (Option Nat) := readAt 4

def u64 : Bytes → Nat → Watched (Option Nat) := readAt 8

/-- A name's bytes from an offset, as far as the table goes. -/
def nameFrom (bytes : Bytes) (at_ : Nat) : Nat → Watched JsString
  | 0 => pure []
  | left + 1 => do
    let byte ← byteAt bytes at_
    if byte = 0 then pure []
    else do
      let rest ← nameFrom bytes (at_ + 1) left
      return Fin.ofNat 65536 byte :: rest

def nameAt (bytes : Bytes) (tableStart tableEnd offset : Nat) : Watched JsString :=
  if tableEnd ≤ tableStart + offset then pure []
  else nameFrom bytes (tableStart + offset) (tableEnd - (tableStart + offset))

/-- The first bytes, as far as there are any. -/
def leading (bytes : Bytes) : Watched Bytes :=
  ⟨bytes.take 4, List.range (min 4 bytes.length), []⟩

def readHeader (bytes : Bytes) : Watched Elf64Header := do
  let type ← u16 bytes 16
  let machine ← u16 bytes 18
  let entryPoint ← u64 bytes 24
  let phoff ← u64 bytes 32
  let shoff ← u64 bytes 40
  let phentsize ← u16 bytes 54
  let phnum ← u16 bytes 56
  let shentsize ← u16 bytes 58
  let shnum ← u16 bytes 60
  let shstrndx ← u16 bytes 62
  return {
    type := elfTypeOf (type.getD 0), machine := machine.getD 0, entryPoint := entryPoint.getD 0
    phoff := phoff.getD 0, shoff := shoff.getD 0, phentsize := phentsize.getD 0
    phnum := phnum.getD 0, shentsize := shentsize.getD 0, shnum := shnum.getD 0
    shstrndx := shstrndx.getD 0 }

/-- How far one section header is from the next. -/
def sectionStride (header : Elf64Header) : Nat :=
  if header.shentsize = 0 then ELF64_SHDR_SIZE else header.shentsize

/-- How far one program header is from the next. -/
def programStride (header : Elf64Header) : Nat :=
  if header.phentsize = 0 then ELF64_PHDR_SIZE else header.phentsize

/-- How many sections there are: section 0 says where the header does not. -/
def sectionCount (bytes : Bytes) (header : Elf64Header) : Watched Nat :=
  if header.shnum = 0 then do
    let count ← u64 bytes (header.shoff + 32)
    return toNumber (count.getD 0)
  else return header.shnum

/-- Which section holds the names. -/
def stringIndex (bytes : Bytes) (header : Elf64Header) : Watched Nat :=
  if header.shstrndx = SHN_XINDEX then do
    let index ← u32 bytes (header.shoff + 40)
    return index.getD 0
  else return header.shstrndx

/-- Where the name table starts and ends. -/
def nameTable (bytes : Bytes) (base stride count index : Nat) :
    Watched (Except ElfRefusal (Nat × Nat)) :=
  if 0 < index ∧ index < count then do
    let offset ← u64 bytes (base + index * stride + 24)
    let size ← u64 bytes (base + index * stride + 32)
    if bytes.length < offset.getD 0 + size.getD 0 then
      return .error (.truncated .sectionNameTable (offset.getD 0 + size.getD 0) bytes.length)
    else return .ok (offset.getD 0, offset.getD 0 + size.getD 0)
  else return .ok (0, 0)

/-- One entry of the section header table. -/
def sectionAt (bytes : Bytes) (base stride nameStart nameEnd i : Nat) :
    Watched SectionHeader := do
  visit .sections
  let offset ← u32 bytes (base + i * stride)
  let name ← nameAt bytes nameStart nameEnd (offset.getD 0)
  let type ← u32 bytes (base + i * stride + 4)
  let size ← u64 bytes (base + i * stride + 32)
  return { name, type := type.getD 0, size := size.getD 0 }

def parseSections (bytes : Bytes) (header : Elf64Header) :
    Watched (Except ElfRefusal (List SectionHeader)) :=
  if header.shoff = 0 then return .ok []
  else if bytes.length < header.shoff + sectionStride header then
    return .error
      (.truncated .sectionHeaderTable (header.shoff + sectionStride header) bytes.length)
  else do
    let count ← sectionCount bytes header
    let index ← stringIndex bytes header
    if bytes.length < header.shoff + count * sectionStride header then
      return .error
        (.truncated .sectionHeaderTable (header.shoff + count * sectionStride header) bytes.length)
    else do
      let named ← nameTable bytes header.shoff (sectionStride header) count index
      match named with
      | .error refusal => return .error refusal
      | .ok (nameStart, nameEnd) => do
        let sections ← collect
          (sectionAt bytes header.shoff (sectionStride header) nameStart nameEnd)
          (List.range count)
        return .ok sections

/-- One entry of the program header table. -/
def segmentAt (bytes : Bytes) (base stride : Nat) (evidence : List DynamicEvidence) (i : Nat) :
    Watched (List DynamicEvidence) := do
  visit .programHeaders
  let segment ← u32 bytes (base + i * stride)
  return segmentEvidence evidence (segment.getD 0)

def programEvidence (bytes : Bytes) (header : Elf64Header) :
    Watched (Except ElfRefusal (List DynamicEvidence)) :=
  if 0 < header.phnum ∧ 0 < header.phoff then
    if bytes.length < header.phoff + header.phnum * programStride header then
      return .error (.truncated .programHeaderTable
        (header.phoff + header.phnum * programStride header) bytes.length)
    else do
      let evidence ←
        foldl (segmentAt bytes header.phoff (programStride header)) [] (List.range header.phnum)
      return .ok evidence
  else return .ok []

def judge (header : Elf64Header) (sections : List SectionHeader) : Except ElfRefusal ElfFacts :=
  let sectionNames := sections.map SectionHeader.name
  let stripped := !sections.any fun section_ => decide (section_.type = SHT_SYMTAB)
  let hasEhFrame := sections.any fun section_ =>
    decide (section_.name = js ".eh_frame") && decide (0 < section_.size)
  if stripped && !hasEhFrame then .error (.strippedWithoutUnwindTables sectionNames)
  else
    .ok { machine := header.machine, type := header.type, stripped, hasEhFrame
          sectionCount := sections.length, entryPoint := header.entryPoint, sectionNames }

def screenTables (bytes : Bytes) (header : Elf64Header) :
    Watched (Except ElfRefusal ElfFacts) := do
  let segments ← programEvidence bytes header
  match segments with
  | .error refusal => return .error refusal
  | .ok segments =>
    let evidence := if header.type = .dyn then segments ++ [.sharedObjectType] else segments
    if evidence ≠ [] then return .error (.dynamicallyLinked evidence)
    else do
      let sections ← parseSections bytes header
      match sections with
      | .error refusal => return .error refusal
      | .ok sections => return judge header sections

def screenElf (bytes : Bytes) : Watched (Except ElfRefusal ElfFacts) := do
  let start ← leading bytes
  if start ≠ ELF_MAGIC then return .error (.notAnElf start)
  else if bytes.length < EI_NIDENT then
    return .error (.truncated .eIdent EI_NIDENT bytes.length)
  else do
    let elfClass ← u8 bytes EI_CLASS
    if elfClass.getD 0 ≠ ELFCLASS64 then return .error (.not64Bit (elfClass.getD 0))
    else do
      let elfData ← u8 bytes EI_DATA
      if elfData.getD 0 ≠ ELFDATA2LSB then return .error (.notLittleEndian (elfData.getD 0))
      else if bytes.length < ELF64_HEADER_SIZE then
        return .error (.truncated .elfHeader ELF64_HEADER_SIZE bytes.length)
      else do
        let header ← readHeader bytes
        if header.machine ≠ EM_AARCH64 then return .error (.notAarch64 header.machine)
        else screenTables bytes header

/-! ## It answers what the screen answers -/

theorem value_ite (c : Prop) [Decidable c] (x y : Watched α) :
    (if c then x else y).value = if c then x.value else y.value := apply_ite value c x y

@[simp] theorem value_littleEndian (at_ width : Nat) :
    (littleEndian bytes at_ width).value = Aot.littleEndian bytes at_ width := by
  induction width generalizing at_ with
  | zero => rfl
  | succ width ih => exact congrArg (Aot.byteAt bytes at_ + 256 * ·) (ih (at_ + 1))

@[simp] theorem value_readAt (width at_ : Nat) :
    (readAt width bytes at_).value = Aot.readAt width bytes at_ := by
  rw [readAt, value_ite, Aot.readAt, value_pure, value_bind, value_pure, value_littleEndian]

/-- A name ends where the bytes do, which reads as a NUL. -/
theorem value_nameFrom (at_ left : Nat) :
    (nameFrom bytes at_ left).value
      = (((bytes.drop at_).take left).takeWhile fun byte => decide (byte ≠ 0)).map
          fun byte => Fin.ofNat 65536 byte.val := by
  induction left generalizing at_ with
  | zero => simp [nameFrom]
  | succ left ih =>
    rw [nameFrom, value_bind, value_ite, value_pure, value_bind, value_pure, ih]
    show (if Aot.byteAt bytes at_ = 0 then [] else Fin.ofNat 65536 (Aot.byteAt bytes at_) :: _) = _
    by_cases hin : at_ < bytes.length
    · have hbyte : Aot.byteAt bytes at_ = bytes[at_].val := by
        rw [Aot.byteAt, List.getElem?_eq_getElem hin, Option.getD_some]
      have hzero : bytes[at_].val = 0 ↔ bytes[at_] = 0 := Fin.val_eq_zero_iff
      rw [List.drop_eq_getElem_cons hin, List.take_succ_cons, List.takeWhile_cons, hbyte]
      by_cases hnul : bytes[at_] = 0
      · simp [hnul]
      · simp [hnul, hzero]
    · have hend : bytes.drop at_ = [] := List.drop_eq_nil_of_le (by omega)
      rw [hend, Aot.byteAt, List.getElem?_eq_none (by omega)]
      rfl

@[simp] theorem value_nameAt (tableStart tableEnd offset : Nat) :
    (nameAt bytes tableStart tableEnd offset).value
      = Aot.nameAt bytes tableStart tableEnd offset := by
  rw [nameAt, value_ite, Aot.nameAt, value_pure, value_nameFrom]

@[simp] theorem value_readHeader : (readHeader bytes).value = Aot.readHeader bytes := by
  simp only [readHeader, u16, u64, value_bind, value_pure, value_readAt]
  rfl

theorem value_collect (f : Nat → Watched β) (l : List Nat) :
    (collect f l).value = l.map fun i => (f i).value := by
  induction l with
  | nil => rfl
  | cons i rest ih => exact congrArg ((f i).value :: ·) ih

theorem value_foldl (f : β → Nat → Watched β) (acc : β) (l : List Nat) :
    (foldl f acc l).value = l.foldl (fun acc i => (f acc i).value) acc := by
  induction l generalizing acc with
  | nil => rfl
  | cons i rest ih => exact ih (f acc i).value

/-- The section headers' parse by its parts. -/
theorem parseSections_eq (header : Elf64Header) :
    Aot.parseSections bytes header
      = if header.shoff = 0 then .ok []
        else if bytes.length < header.shoff + sectionStride header then
          .error (.truncated .sectionHeaderTable (header.shoff + sectionStride header) bytes.length)
        else if bytes.length
            < header.shoff + (sectionCount bytes header).value * sectionStride header then
          .error (.truncated .sectionHeaderTable
            (header.shoff + (sectionCount bytes header).value * sectionStride header) bytes.length)
        else
          match (nameTable bytes header.shoff (sectionStride header)
            (sectionCount bytes header).value (stringIndex bytes header).value).value with
          | .error refusal => .error refusal
          | .ok (nameStart, nameEnd) =>
            .ok ((List.range (sectionCount bytes header).value).map fun i =>
              (sectionAt bytes header.shoff (sectionStride header) nameStart nameEnd i).value) := by
  simp only [sectionCount, stringIndex, nameTable, sectionAt, u32, u64, value_ite, value_bind,
    value_pure, value_readAt, value_nameAt]
  rfl

theorem value_parseSections (header : Elf64Header) :
    (parseSections bytes header).value = Aot.parseSections bytes header := by
  rw [parseSections_eq, parseSections]
  simp only [value_ite, value_bind, value_pure]
  split
  · rfl
  split
  · rfl
  split
  · rfl
  cases (nameTable bytes header.shoff (sectionStride header) (sectionCount bytes header).value
    (stringIndex bytes header).value).value with
  | error refusal => rfl
  | ok range => simp only [value_bind, value_pure, value_collect]

theorem value_programEvidence (header : Elf64Header) :
    (programEvidence bytes header).value = Aot.programEvidence bytes header := by
  simp only [programEvidence, Aot.programEvidence, value_ite, value_bind, value_pure, value_foldl,
    segmentAt, u32, value_readAt]
  rfl

/-- The screen after its checks of the header. -/
theorem value_screenTables (header : Elf64Header) :
    (screenTables bytes header).value =
      match Aot.programEvidence bytes header with
      | .error refusal => .error refusal
      | .ok segments =>
        let evidence := if header.type = .dyn then segments ++ [.sharedObjectType] else segments
        if evidence ≠ [] then .error (.dynamicallyLinked evidence)
        else
          match Aot.parseSections bytes header with
          | .error refusal => .error refusal
          | .ok sections => judge header sections := by
  rw [screenTables, value_bind, value_programEvidence]
  cases Aot.programEvidence bytes header with
  | error refusal => rfl
  | ok segments =>
    simp only [value_ite, value_bind, value_pure, value_parseSections]
    cases Aot.parseSections bytes header <;> rfl

theorem value_screenElf : (screenElf bytes).value = Aot.screenElf bytes := by
  simp only [screenElf, Aot.screenElf, value_ite, value_bind, value_pure, u8, value_readAt,
    value_readHeader, leading, value_screenTables]
  rfl

end Watched

end O2Fabric.Aot
