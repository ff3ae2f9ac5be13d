/-
  O2Fabric.Aot.Elf.Static

  What the screen's answer says of a binary, under the ELF64 specification.

  A file with 65535 program headers or more has `PN_XNUM` in `e_phnum`, and its
  count in `sh_info` of section header 0.  The screen takes `PN_XNUM` for the
  count: what is after the 65535th header it has not seen.
-/

import O2Fabric.Aot.Elf

namespace O2Fabric.Aot

variable {bytes front rest : Bytes} {header : Elf64Header} {facts : ElfFacts}

/-! ## The specification -/

def ET_DYN : Nat := 3

def PN_XNUM : Nat := 0xffff

def programHeaderCount (bytes : Bytes) : Nat :=
  let header := readHeader bytes
  if header.phnum = PN_XNUM then (u32 bytes (header.shoff + 44)).getD 0 else header.phnum

/-- A file whose `e_phoff` is zero has no program header table. -/
def HasProgramHeader (bytes : Bytes) (i : Nat) : Prop :=
  (readHeader bytes).phoff ≠ 0 ∧ i < programHeaderCount bytes

/-- A program header of 56 bytes that lies in the file, and neither asks for an interpreter nor
    is a dynamic segment. -/
def StaticHeader (bytes : Bytes) (i : Nat) : Prop :=
  (readHeader bytes).phoff + (i + 1) * ELF64_PHDR_SIZE ≤ bytes.length ∧
    u32 bytes ((readHeader bytes).phoff + i * ELF64_PHDR_SIZE) ≠ some PT_INTERP ∧
    u32 bytes ((readHeader bytes).phoff + i * ELF64_PHDR_SIZE) ≠ some PT_DYNAMIC

structure StaticAarch64 (bytes : Bytes) : Prop where
  magic : bytes.take 4 = ELF_MAGIC
  elf64 : u8 bytes EI_CLASS = some ELFCLASS64
  littleEndian : u8 bytes EI_DATA = some ELFDATA2LSB
  machine : u16 bytes 18 = some EM_AARCH64
  type : u16 bytes 16 ≠ some ET_DYN
  headers : ∀ i, HasProgramHeader bytes i → StaticHeader bytes i

/-- The program headers that `PN_XNUM` does not count are in the file, and static. -/
def StaticBeyond (bytes : Bytes) : Prop :=
  (readHeader bytes).phnum = PN_XNUM →
    ∀ i, PN_XNUM ≤ i → HasProgramHeader bytes i → StaticHeader bytes i

/-! ## The program headers -/

theorem segmentEvidence_eq_nil {evidence : List DynamicEvidence} {segment : Nat} :
    segmentEvidence evidence segment = [] ↔
      evidence = [] ∧ segment ≠ PT_INTERP ∧ segment ≠ PT_DYNAMIC := by
  cases evidence with
  | nil =>
    by_cases hinterp : segment = PT_INTERP
    · simp [segmentEvidence, hinterp, PT_INTERP, PT_DYNAMIC]
    · by_cases hdynamic : segment = PT_DYNAMIC
      · simp [segmentEvidence, hdynamic, PT_INTERP, PT_DYNAMIC]
      · simp [segmentEvidence, hinterp, hdynamic]
  | cons e rest =>
    have hmore : segmentEvidence (e :: rest) segment ≠ [] := by
      unfold segmentEvidence
      dsimp only
      split <;> split <;> simp
    simp [hmore]

theorem foldl_segmentEvidence_eq_nil {segments : List Nat} {f : Nat → Nat}
    {evidence : List DynamicEvidence} :
    segments.foldl (fun evidence i => segmentEvidence evidence (f i)) evidence = [] ↔
      evidence = [] ∧ ∀ i ∈ segments, f i ≠ PT_INTERP ∧ f i ≠ PT_DYNAMIC := by
  induction segments generalizing evidence with
  | nil => simp
  | cons i rest ih =>
    rw [List.foldl_cons, ih, segmentEvidence_eq_nil]
    simp only [List.mem_cons, forall_eq_or_imp]
    exact and_assoc

/-- Every header that was counted has been seen. -/
theorem static_of_programEvidence (hstride : header.phentsize = 56)
    (h : programEvidence bytes header = .ok []) {i : Nat} (hi : i < header.phnum)
    (hphoff : header.phoff ≠ 0) :
    header.phoff + (i + 1) * ELF64_PHDR_SIZE ≤ bytes.length ∧
      u32 bytes (header.phoff + i * ELF64_PHDR_SIZE) ≠ some PT_INTERP ∧
      u32 bytes (header.phoff + i * ELF64_PHDR_SIZE) ≠ some PT_DYNAMIC := by
  unfold programEvidence at h
  rw [if_pos ⟨Nat.zero_lt_of_lt hi, Nat.pos_of_ne_zero hphoff⟩] at h
  simp only [hstride, OfNat.ofNat_ne_zero, if_false] at h
  split at h
  · cases h
  next hfits =>
    have hnone := foldl_segmentEvidence_eq_nil.mp (Except.ok.inj h)
    obtain ⟨hinterp, hdynamic⟩ := hnone.2 i (List.mem_range.mpr hi)
    refine ⟨?_, ?_, ?_⟩
    · have hrow : (i + 1) * 56 ≤ header.phnum * 56 := Nat.mul_le_mul_right 56 hi
      show header.phoff + (i + 1) * 56 ≤ bytes.length
      omega
    · intro hread
      exact hinterp (by rw [show i * 56 = i * ELF64_PHDR_SIZE from rfl, hread]; rfl)
    · intro hread
      exact hdynamic (by rw [show i * 56 = i * ELF64_PHDR_SIZE from rfl, hread]; rfl)

/-! ## The answer -/

/-- What has been checked of a file that is admitted. -/
theorem screenElf_ok (h : screenElf bytes = .ok facts) :
    bytes.take 4 = ELF_MAGIC ∧ (u8 bytes EI_CLASS).getD 0 = ELFCLASS64 ∧
      (u8 bytes EI_DATA).getD 0 = ELFDATA2LSB ∧ ELF64_HEADER_SIZE ≤ bytes.length ∧
      (readHeader bytes).machine = EM_AARCH64 ∧ (readHeader bytes).type ≠ .dyn ∧
      programEvidence bytes (readHeader bytes) = .ok [] := by
  unfold screenElf at h
  split at h
  · cases h
  next hmagic =>
    split at h
    · cases h
    · dsimp only at h
      split at h
      · cases h
      next hclass =>
        split at h
        · cases h
        next hdata =>
          split at h
          · cases h
          next hlength =>
            split at h
            · cases h
            next hmachine =>
              split at h
              · cases h
              next segments hsegments =>
                have htype : (readHeader bytes).type ≠ .dyn := by
                  intro hdyn
                  rw [if_pos hdyn, if_pos (by simp)] at h
                  cases h
                rw [if_neg htype] at h
                split at h
                · cases h
                next hevidence =>
                  exact ⟨not_not.mp hmagic, not_not.mp hclass, not_not.mp hdata,
                    Nat.le_of_not_lt hlength, not_not.mp hmachine, htype,
                    not_not.mp hevidence ▸ hsegments⟩

variable {width at_ n : Nat}

theorem readAt_getD (hn : n ≠ 0) (h : (readAt width bytes at_).getD 0 = n) :
    readAt width bytes at_ = some n := by
  cases hread : readAt width bytes at_ with
  | none =>
    rw [hread] at h
    exact absurd h.symm hn
  | some m =>
    rw [hread] at h
    rw [show m = n from h]

/-- A file that is admitted is a static binary exactly if the program headers beyond the count
    that was read are static too. -/
theorem screenElf_static_iff (hstride : (readHeader bytes).phentsize = 56)
    (h : screenElf bytes = .ok facts) : StaticAarch64 bytes ↔ StaticBeyond bytes := by
  obtain ⟨hmagic, hclass, hdata, hlength, hmachine, htype, hevidence⟩ := screenElf_ok h
  constructor
  · intro hstatic _ i _ hheader
    exact hstatic.headers i hheader
  · intro hbeyond
    refine ⟨hmagic, readAt_getD (by decide) hclass, readAt_getD (by decide) hdata,
      readAt_getD (by decide) hmachine, ?_, ?_⟩
    · intro hread
      apply htype
      show elfTypeOf ((u16 bytes 16).getD 0) = .dyn
      rw [hread]
      rfl
    · intro i hheader
      obtain ⟨hphoff, hcount⟩ := hheader
      by_cases hcounted : i < (readHeader bytes).phnum
      · exact static_of_programEvidence hstride hevidence hcounted hphoff
      · -- only the extended count goes beyond the one in the header
        have hextended : (readHeader bytes).phnum = PN_XNUM := by
          by_contra hplain
          simp only [programHeaderCount, if_neg hplain] at hcount
          exact hcounted hcount
        exact hbeyond hextended i (by omega) ⟨hphoff, hcount⟩

/-! ## A file with few program headers, and one with too many to count -/

theorem byteAt_append_left (h : at_ < front.length) :
    byteAt (front ++ rest) at_ = byteAt front at_ := by
  unfold byteAt
  rw [List.getElem?_append_left h]

theorem byteAt_append_right (at_ : Nat) :
    byteAt (front ++ rest) (front.length + at_) = byteAt rest at_ := by
  unfold byteAt
  rw [List.getElem?_append_right (Nat.le_add_right _ _), Nat.add_sub_cancel_left]

/-- What lies in the front is read from there. -/
theorem readAt_append_left (h : at_ + width ≤ front.length) :
    readAt width (front ++ rest) at_ = readAt width front at_ := by
  have hbytes : ∀ width at_, at_ + width ≤ front.length →
      littleEndian (front ++ rest) at_ width = littleEndian front at_ width := by
    intro width
    induction width with
    | zero => exact fun _ _ => rfl
    | succ width ih =>
      intro at_ hfits
      rw [littleEndian, littleEndian, byteAt_append_left (by omega), ih (at_ + 1) (by omega)]
  unfold readAt
  rw [List.length_append, if_neg (by omega), if_neg (by omega), hbytes width at_ h]

theorem readAt_append_right (h : front.length = n) (width at_ : Nat) :
    readAt width (front ++ rest) (n + at_) = readAt width rest at_ := by
  subst h
  have hbytes : ∀ width at_, littleEndian (front ++ rest) (front.length + at_) width
      = littleEndian rest at_ width := by
    intro width
    induction width with
    | zero => exact fun _ => rfl
    | succ width ih =>
      intro at_
      rw [littleEndian, littleEndian, byteAt_append_right, Nat.add_assoc, ih (at_ + 1)]
  unfold readAt
  rw [List.length_append, hbytes]
  by_cases hfits : rest.length < at_ + width
  · rw [if_pos (by omega), if_pos hfits]
  · rw [if_neg (by omega), if_neg hfits]

theorem readAt_zeros (h : at_ + width ≤ n) :
    readAt width (List.replicate n 0) at_ = some 0 := by
  have hbytes : ∀ width at_, littleEndian (List.replicate n 0) at_ width = 0 := by
    intro width
    induction width with
    | zero => exact fun _ => rfl
    | succ width ih =>
      intro at_
      rw [littleEndian, ih (at_ + 1), byteAt, List.getElem?_replicate]
      split <;> rfl
  unfold readAt
  rw [List.length_replicate, if_neg (by omega), hbytes]

/-- A header, and a section table of two: one that counts 65536 program headers, and symbols. -/
def elfFront (phoff phnum : Fin 256) : Bytes :=
  [0x7f, 0x45, 0x4c, 0x46, 2, 1, 1, 0, 0, 0, 0, 0, 0, 0, 0, 0, 2, 0, 183, 0, 1, 0, 0, 0]
    ++ List.replicate 8 0 ++ [phoff, 0, 0, 0, 0, 0, 0, 0] ++ [64, 0, 0, 0, 0, 0, 0, 0]
    ++ [0, 0, 0, 0, 64, 0, 56, 0, phnum, phnum, 64, 0, 2, 0, 0, 0]
    ++ List.replicate 44 0 ++ [0, 0, 1, 0] ++ List.replicate 16 0
    ++ [0, 0, 0, 0, 2, 0, 0, 0] ++ List.replicate 56 0

/-- No program headers, and nothing beyond them. -/
theorem screenElf_static_plain :
    ∃ facts, screenElf (elfFront 0 0) = .ok facts ∧ StaticAarch64 (elfFront 0 0) := by
  have hadmitted : screenElf (elfFront 0 0)
      = .ok ⟨183, .exec, false, false, 2, 0, [[], []]⟩ := by decide +kernel
  have hstride : (readHeader (elfFront 0 0)).phentsize = 56 := by decide +kernel
  refine ⟨_, hadmitted, (screenElf_static_iff hstride hadmitted).mpr ?_⟩
  intro hextended
  exact absurd hextended (by decide +kernel)

/-- 65535 program headers that say nothing, and one more, with an interpreter. -/
def elfBeyond : Bytes :=
  elfFront 192 255 ++ (List.replicate 3669960 0 ++ (3 :: List.replicate 55 0))

theorem length_elfFront (phoff phnum : Fin 256) : (elfFront phoff phnum).length = 192 := by
  simp only [elfFront, List.length_append, List.length_replicate, List.length_cons, List.length_nil]

theorem length_elfBeyond : elfBeyond.length = 3670208 := by
  unfold elfBeyond
  rw [List.length_append, List.length_append, List.length_cons, List.length_replicate,
    List.length_replicate, length_elfFront]

/-- What is read from the front of the file. -/
theorem readAt_elfBeyond (h : at_ + width ≤ 192) :
    readAt width elfBeyond at_ = readAt width (elfFront 192 255) at_ :=
  readAt_append_left ((length_elfFront _ _).symm ▸ h)

theorem readHeader_elfBeyond :
    readHeader elfBeyond = ⟨.exec, 183, 0, 192, 64, 56, 65535, 64, 2, 0⟩ := by
  have hfront : readHeader (elfFront 192 255) = ⟨.exec, 183, 0, 192, 64, 56, 65535, 64, 2, 0⟩ := by
    decide +kernel
  rw [← hfront]
  simp (disch := omega) only [readHeader, u16, u64, readAt_elfBeyond]

theorem programEvidence_elfBeyond :
    programEvidence elfBeyond ⟨.exec, 183, 0, 192, 64, 56, 65535, 64, 2, 0⟩ = .ok [] := by
  have hzero : ∀ i ∈ List.range 65535, (u32 elfBeyond (192 + i * 56)).getD 0 = 0 := by
    intro i hi
    have hlt := List.mem_range.mp hi
    have hread : u32 elfBeyond (192 + i * 56) = some 0 := by
      show readAt 4 (elfFront 192 255 ++ _) (192 + i * 56) = some 0
      rw [readAt_append_right (length_elfFront 192 255), readAt_append_left, readAt_zeros]
      · omega
      · rw [List.length_replicate]
        omega
    rw [hread]
    rfl
  have hnone : (List.range 65535).foldl
      (fun evidence i => segmentEvidence evidence ((u32 elfBeyond (192 + i * 56)).getD 0)) [] = [] := by
    apply foldl_segmentEvidence_eq_nil.mpr
    refine ⟨rfl, fun i hi => ?_⟩
    rw [hzero i hi]
    exact ⟨by decide, by decide⟩
  unfold programEvidence
  simp only [OfNat.ofNat_ne_zero, if_false, length_elfBeyond]
  rw [if_pos ⟨by omega, by omega⟩, if_neg (by omega)]
  exact congrArg Except.ok hnone

theorem parseSections_elfBeyond :
    parseSections elfBeyond ⟨.exec, 183, 0, 192, 64, 56, 65535, 64, 2, 0⟩
      = .ok [⟨[], 0, 0⟩, ⟨[], 2, 0⟩] := by
  have hname : ∀ offset, nameAt elfBeyond 0 0 offset = [] := fun offset => if_pos (Nat.zero_le _)
  have hunnamed : (0 : Nat) ≠ SHN_XINDEX := by decide
  have hsections : (List.range 2).map (fun i => SectionHeader.mk []
      ((u32 elfBeyond (64 + i * 64 + 4)).getD 0) ((u64 elfBeyond (64 + i * 64 + 32)).getD 0))
      = [⟨[], 0, 0⟩, ⟨[], 2, 0⟩] := by
    have hfront : (List.range 2).map (fun i => SectionHeader.mk []
        ((u32 (elfFront 192 255) (64 + i * 64 + 4)).getD 0)
        ((u64 (elfFront 192 255) (64 + i * 64 + 32)).getD 0)) = [⟨[], 0, 0⟩, ⟨[], 2, 0⟩] := by
      decide +kernel
    rw [← hfront]
    refine List.map_congr_left fun i hi => ?_
    have hlt := List.mem_range.mp hi
    rw [u32, u64, readAt_elfBeyond (by omega), readAt_elfBeyond (by omega)]
  unfold parseSections
  simp only [OfNat.ofNat_ne_zero, if_false, length_elfBeyond, if_neg hunnamed, lt_irrefl, false_and,
    hname, hsections]
  rfl

/-- It is admitted. -/
theorem screenElf_elfBeyond :
    screenElf elfBeyond = .ok ⟨183, .exec, false, false, 2, 0, [[], []]⟩ := by
  have hmagic : elfBeyond.take 4 = ELF_MAGIC := rfl
  have hclass : (u8 elfBeyond EI_CLASS).getD 0 = ELFCLASS64 := by
    rw [u8, readAt_elfBeyond (by decide)]
    decide +kernel
  have hdata : (u8 elfBeyond EI_DATA).getD 0 = ELFDATA2LSB := by
    rw [u8, readAt_elfBeyond (by decide)]
    decide +kernel
  have hident : ¬ (3670208 : Nat) < EI_NIDENT := by decide
  have hheader : ¬ (3670208 : Nat) < ELF64_HEADER_SIZE := by decide
  have hmachine : (183 : Nat) = EM_AARCH64 := rfl
  unfold screenElf
  simp only [length_elfBeyond, readHeader_elfBeyond, programEvidence_elfBeyond,
    parseSections_elfBeyond, hclass, hdata]
  rw [if_neg (not_not.mpr hmagic), if_neg hident, if_neg (not_not.mpr rfl), if_neg (not_not.mpr rfl),
    if_neg hheader, if_neg (not_not.mpr hmachine)]
  rfl

/-- The 65536th program header asks for an interpreter. -/
theorem screenElf_admits_dynamic :
    ¬ ∀ bytes facts, (readHeader bytes).phentsize = 56 → screenElf bytes = .ok facts →
      StaticAarch64 bytes := by
  intro hall
  have hstride : (readHeader elfBeyond).phentsize = 56 := by rw [readHeader_elfBeyond]
  have hstatic := hall elfBeyond _ hstride screenElf_elfBeyond
  have hcount : programHeaderCount elfBeyond = 65536 := by
    have hinfo : (u32 elfBeyond 108).getD 0 = 65536 := by
      rw [u32, readAt_elfBeyond (by omega)]
      decide +kernel
    unfold programHeaderCount
    rw [readHeader_elfBeyond]
    exact hinfo
  have hheader : HasProgramHeader elfBeyond 65535 := by
    refine ⟨?_, ?_⟩
    · rw [readHeader_elfBeyond]
      decide
    · rw [hcount]
      omega
  have hinterp : u32 elfBeyond 3670152 = some PT_INTERP := by
    have hlast : u32 (3 :: List.replicate 55 0) 0 = some PT_INTERP := by decide
    show readAt 4 (elfFront 192 255 ++ (List.replicate 3669960 0 ++ _)) (192 + (3669960 + 0)) = _
    rw [readAt_append_right (length_elfFront 192 255),
      readAt_append_right (List.length_replicate ..)]
    exact hlast
  refine (hstatic.headers 65535 hheader).2.1 ?_
  rw [readHeader_elfBeyond]
  exact hinterp

end O2Fabric.Aot
