/-
  O2Fabric.Aot.Elf

  The screen a binary passes before it is translated.

  Offsets and sizes are exact: what is a `bigint` in the source is a natural
  number here, and so is every number that stays below 2^53.  The one that need
  not, a section count read from 64 bits, is rounded as `Number` rounds it.
-/

import O2Fabric.Core.Platform

namespace O2Fabric.Aot

def ELF_MAGIC : Bytes := [0x7f, 0x45, 0x4c, 0x46]

def EM_AARCH64 : Nat := 183

def EI_CLASS : Nat := 4

def EI_DATA : Nat := 5

def EI_NIDENT : Nat := 16

def ELF64_HEADER_SIZE : Nat := 64

def ELF64_PHDR_SIZE : Nat := 56

def ELF64_SHDR_SIZE : Nat := 64

def ELFCLASS64 : Nat := 2

def ELFDATA2LSB : Nat := 1

def PT_DYNAMIC : Nat := 2

def PT_INTERP : Nat := 3

def SHT_SYMTAB : Nat := 2

def SHN_XINDEX : Nat := 0xffff

inductive ElfType
  | none
  | rel
  | exec
  | dyn
  | core
  | unknown
  deriving DecidableEq

inductive ElfRegion
  | eIdent
  | elfHeader
  | programHeaderTable
  | sectionHeaderTable
  | sectionNameTable
  deriving DecidableEq

inductive DynamicEvidence
  | interpreterSegment
  | dynamicSegment
  | sharedObjectType
  deriving DecidableEq

inductive ElfRefusal
  | notAnElf (found : Bytes)
  | not64Bit (elfClass : Nat)
  | notLittleEndian (elfData : Nat)
  | notAarch64 (machine : Nat)
  | dynamicallyLinked (evidence : List DynamicEvidence)
  | strippedWithoutUnwindTables (sectionNames : List JsString)
  | truncated (region : ElfRegion) (needed actual : Nat)
  deriving DecidableEq

structure ElfFacts where
  machine : Nat
  type : ElfType
  stripped : Bool
  hasEhFrame : Bool
  sectionCount : Nat
  entryPoint : Nat
  sectionNames : List JsString
  deriving DecidableEq

/-! ## Bounds-checked little-endian reads -/

def byteAt (bytes : Bytes) (at_ : Nat) : Nat := (bytes[at_]?.getD 0).val

/-- The number `width` bytes are, the least significant first. -/
def littleEndian (bytes : Bytes) (at_ : Nat) : Nat → Nat
  | 0 => 0
  | width + 1 => byteAt bytes at_ + 256 * littleEndian bytes (at_ + 1) width

def readAt (width : Nat) (bytes : Bytes) (at_ : Nat) : Option Nat :=
  if bytes.length < at_ + width then none else some (littleEndian bytes at_ width)

def u8 : Bytes → Nat → Option Nat := readAt 1

def u16 : Bytes → Nat → Option Nat := readAt 2

def u32 : Bytes → Nat → Option Nat := readAt 4

def u64 : Bytes → Nat → Option Nat := readAt 8

def elfTypeOf : Nat → ElfType
  | 0 => .none
  | 1 => .rel
  | 2 => .exec
  | 3 => .dyn
  | 4 => .core
  | _ => .unknown

/-- A name from the section string table, up to its NUL or the end of the table. -/
def nameAt (bytes : Bytes) (tableStart tableEnd offset : Nat) : JsString :=
  if tableEnd ≤ tableStart + offset then []
  else
    (((bytes.drop (tableStart + offset)).take (tableEnd - (tableStart + offset))).takeWhile
      fun byte => decide (byte ≠ 0)).map fun byte => Fin.ofNat 65536 byte.val

/-! ## The headers -/

structure Elf64Header where
  type : ElfType
  machine : Nat
  entryPoint : Nat
  phoff : Nat
  shoff : Nat
  phentsize : Nat
  phnum : Nat
  shentsize : Nat
  shnum : Nat
  shstrndx : Nat
  deriving DecidableEq

def readHeader (bytes : Bytes) : Elf64Header where
  type := elfTypeOf ((u16 bytes 16).getD 0)
  machine := (u16 bytes 18).getD 0
  entryPoint := (u64 bytes 24).getD 0
  phoff := (u64 bytes 32).getD 0
  shoff := (u64 bytes 40).getD 0
  phentsize := (u16 bytes 54).getD 0
  phnum := (u16 bytes 56).getD 0
  shentsize := (u16 bytes 58).getD 0
  shnum := (u16 bytes 60).getD 0
  shstrndx := (u16 bytes 62).getD 0

structure SectionHeader where
  name : JsString
  type : Nat
  size : Nat
  deriving DecidableEq

/-- Section 0 holds what the header has no room for: the count, and which section has the names. -/
def parseSections (bytes : Bytes) (header : Elf64Header) : Except ElfRefusal (List SectionHeader) :=
  if header.shoff = 0 then .ok []
  else
    let stride := if header.shentsize = 0 then ELF64_SHDR_SIZE else header.shentsize
    let total := bytes.length
    let first := header.shoff + stride
    if total < first then .error (.truncated .sectionHeaderTable first total)
    else
      let base := header.shoff
      let count :=
        if header.shnum = 0 then toNumber ((u64 bytes (base + 32)).getD 0) else header.shnum
      let stringIndex :=
        if header.shstrndx = SHN_XINDEX then (u32 bytes (base + 40)).getD 0 else header.shstrndx
      let tableBytes := header.shoff + count * stride
      if total < tableBytes then .error (.truncated .sectionHeaderTable tableBytes total)
      else
        let named : Except ElfRefusal (Nat × Nat) :=
          if 0 < stringIndex ∧ stringIndex < count then
            let at_ := base + stringIndex * stride
            let offset := (u64 bytes (at_ + 24)).getD 0
            let end_ := offset + (u64 bytes (at_ + 32)).getD 0
            if total < end_ then .error (.truncated .sectionNameTable end_ total)
            else .ok (offset, end_)
          else .ok (0, 0)
        match named with
        | .error refusal => .error refusal
        | .ok (nameStart, nameEnd) =>
          .ok ((List.range count).map fun i =>
            let at_ := base + i * stride
            { name := nameAt bytes nameStart nameEnd ((u32 bytes at_).getD 0)
              type := (u32 bytes (at_ + 4)).getD 0
              size := (u64 bytes (at_ + 32)).getD 0 })

/-- What one program header says of a binary that is to be static. -/
def segmentEvidence (evidence : List DynamicEvidence) (segment : Nat) : List DynamicEvidence :=
  let evidence :=
    if segment = PT_INTERP ∧ .interpreterSegment ∉ evidence then evidence ++ [.interpreterSegment]
    else evidence
  if segment = PT_DYNAMIC ∧ .dynamicSegment ∉ evidence then evidence ++ [.dynamicSegment]
  else evidence

/-- The program headers, as far as the header counts them. -/
def programEvidence (bytes : Bytes) (header : Elf64Header) :
    Except ElfRefusal (List DynamicEvidence) :=
  if 0 < header.phnum ∧ 0 < header.phoff then
    let stride := if header.phentsize = 0 then ELF64_PHDR_SIZE else header.phentsize
    let needed := header.phoff + header.phnum * stride
    if bytes.length < needed then .error (.truncated .programHeaderTable needed bytes.length)
    else .ok ((List.range header.phnum).foldl
      (fun evidence i => segmentEvidence evidence ((u32 bytes (header.phoff + i * stride)).getD 0)) [])
  else .ok []

def screenElf (bytes : Bytes) : Except ElfRefusal ElfFacts :=
  if bytes.take 4 ≠ ELF_MAGIC then .error (.notAnElf (bytes.take 4))
  else if bytes.length < EI_NIDENT then .error (.truncated .eIdent EI_NIDENT bytes.length)
  else
    let elfClass := (u8 bytes EI_CLASS).getD 0
    if elfClass ≠ ELFCLASS64 then .error (.not64Bit elfClass)
    else
      let elfData := (u8 bytes EI_DATA).getD 0
      if elfData ≠ ELFDATA2LSB then .error (.notLittleEndian elfData)
      else if bytes.length < ELF64_HEADER_SIZE then
        .error (.truncated .elfHeader ELF64_HEADER_SIZE bytes.length)
      else
        let header := readHeader bytes
        if header.machine ≠ EM_AARCH64 then .error (.notAarch64 header.machine)
        else
          match programEvidence bytes header with
          | .error refusal => .error refusal
          | .ok segments =>
            let evidence :=
              if header.type = .dyn then segments ++ [.sharedObjectType] else segments
            if evidence ≠ [] then .error (.dynamicallyLinked evidence)
            else
              match parseSections bytes header with
              | .error refusal => .error refusal
              | .ok sections =>
                let sectionNames := sections.map SectionHeader.name
                let stripped := !sections.any fun section_ => decide (section_.type = SHT_SYMTAB)
                let hasEhFrame := sections.any fun section_ =>
                  decide (section_.name = js ".eh_frame") && decide (0 < section_.size)
                if stripped && !hasEhFrame then
                  .error (.strippedWithoutUnwindTables sectionNames)
                else
                  .ok
                    { machine := header.machine
                      type := header.type
                      stripped
                      hasEhFrame
                      sectionCount := sections.length
                      entryPoint := header.entryPoint
                      sectionNames }

end O2Fabric.Aot
