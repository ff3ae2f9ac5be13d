/-
  O2Fabric.Aot.Elf.Exact

  What the screen looks at stays inside the file, and what it says is missing is
  what the file's own headers say must be there, with one exception: a section
  count of 64 bits is rounded before it is used.
-/

import O2Fabric.Aot.Elf.Static
import O2Fabric.Aot.Elf.Watched

namespace O2Fabric.Aot

namespace Watched

variable {α β : Type} {bytes : Bytes} {n : Nat}

/-! ## Every read is inside the file -/

/-- Nothing from the end of the file on was read. -/
def Inside (n : Nat) (x : Watched α) : Prop := ∀ at_ ∈ x.touched, at_ < n

theorem inside_pure (a : α) : Inside n (pure a) := fun _ h => by cases h

theorem Inside.bind {x : Watched α} {f : α → Watched β} (hx : Inside n x)
    (hf : Inside n (f x.value)) : Inside n (x >>= f) := by
  intro at_ h
  rcases List.mem_append.mp h with h | h
  exacts [hx at_ h, hf at_ h]

theorem inside_littleEndian {at_ width : Nat} (h : at_ + width ≤ n) :
    Inside n (littleEndian bytes at_ width) := by
  induction width generalizing at_ with
  | zero => exact inside_pure 0
  | succ width ih =>
    have hbyte : Inside n (byteAt bytes at_) := by
      intro i hi
      rw [List.mem_singleton.mp hi]
      omega
    have hrest : at_ + 1 + width ≤ n := by omega
    exact hbyte.bind ((ih hrest).bind (inside_pure _))

theorem inside_readAt (width at_ : Nat) : Inside bytes.length (readAt width bytes at_) := by
  unfold readAt
  split
  · exact inside_pure none
  · exact (inside_littleEndian (by omega)).bind (inside_pure _)

theorem inside_nameFrom {at_ left : Nat} (h : at_ + left ≤ n) :
    Inside n (nameFrom bytes at_ left) := by
  induction left generalizing at_ with
  | zero => exact inside_pure []
  | succ left ih =>
    have hbyte : Inside n (byteAt bytes at_) := by
      intro i hi
      rw [List.mem_singleton.mp hi]
      omega
    apply hbyte.bind
    split
    · exact inside_pure []
    · exact (ih (by omega)).bind (inside_pure _)

theorem inside_nameAt {tableStart tableEnd : Nat} (h : tableEnd ≤ n) (offset : Nat) :
    Inside n (nameAt bytes tableStart tableEnd offset) := by
  unfold nameAt
  split
  · exact inside_pure []
  · exact inside_nameFrom (by omega)

theorem inside_collect {f : Nat → Watched β} (h : ∀ i, Inside n (f i)) (l : List Nat) :
    Inside n (collect f l) := by
  induction l with
  | nil => exact inside_pure []
  | cons i rest ih => exact (h i).bind (ih.bind (inside_pure _))

theorem inside_foldl {f : β → Nat → Watched β} (h : ∀ acc i, Inside n (f acc i)) (acc : β)
    (l : List Nat) : Inside n (foldl f acc l) := by
  induction l generalizing acc with
  | nil => exact inside_pure acc
  | cons i rest ih => exact (h acc i).bind (ih _)

theorem inside_readHeader : Inside bytes.length (readHeader bytes) := by
  unfold readHeader u16 u64
  repeat' first | exact inside_pure _ | apply Inside.bind (inside_readAt _ _)

theorem inside_programEvidence (header : Elf64Header) :
    Inside bytes.length (programEvidence bytes header) := by
  have hsegment : ∀ evidence i,
      Inside bytes.length (segmentAt bytes header.phoff (programStride header) evidence i) := by
    intro evidence i
    exact Inside.bind (fun _ h => by cases h) ((inside_readAt 4 _).bind (inside_pure _))
  unfold programEvidence
  split
  · split
    · exact inside_pure _
    · exact (inside_foldl hsegment _ _).bind (inside_pure _)
  · exact inside_pure _

/-- A name table that is used is in the file. -/
theorem nameTable_ok {base stride count index nameStart nameEnd : Nat}
    (h : (nameTable bytes base stride count index).value = .ok (nameStart, nameEnd)) :
    nameEnd ≤ bytes.length := by
  simp only [nameTable, value_ite, value_bind, value_pure] at h
  split at h
  · split at h
    · cases h
    · cases h
      omega
  · cases h
    omega

theorem inside_nameTable (base stride count index : Nat) :
    Inside bytes.length (nameTable bytes base stride count index) := by
  unfold nameTable
  split
  · refine (inside_readAt 8 _).bind ((inside_readAt 8 _).bind ?_)
    split <;> exact inside_pure _
  · exact inside_pure _

theorem inside_sectionAt {base stride nameStart nameEnd : Nat} (h : nameEnd ≤ bytes.length)
    (i : Nat) : Inside bytes.length (sectionAt bytes base stride nameStart nameEnd i) := by
  refine Inside.bind (fun _ h => by cases h) ((inside_readAt 4 _).bind ?_)
  exact (inside_nameAt h _).bind
    ((inside_readAt 4 _).bind ((inside_readAt 8 _).bind (inside_pure _)))

theorem inside_parseSections (header : Elf64Header) :
    Inside bytes.length (parseSections bytes header) := by
  have hcount : Inside bytes.length (sectionCount bytes header) := by
    unfold sectionCount
    split
    · exact (inside_readAt 8 _).bind (inside_pure _)
    · exact inside_pure _
  have hindex : Inside bytes.length (stringIndex bytes header) := by
    unfold stringIndex
    split
    · exact (inside_readAt 4 _).bind (inside_pure _)
    · exact inside_pure _
  unfold parseSections
  split
  · exact inside_pure _
  split
  · exact inside_pure _
  refine hcount.bind (hindex.bind ?_)
  split
  · exact inside_pure _
  refine (inside_nameTable _ _ _ _).bind ?_
  split
  · exact inside_pure _
  next hnamed =>
    exact (inside_collect (inside_sectionAt (nameTable_ok hnamed)) _).bind (inside_pure _)

theorem inside_screenTables (header : Elf64Header) :
    Inside bytes.length (screenTables bytes header) := by
  refine (inside_programEvidence header).bind ?_
  split
  · exact inside_pure _
  next segments _ =>
    dsimp only
    generalize (if header.type = .dyn then segments ++ [.sharedObjectType] else segments)
      = evidence
    split
    · exact inside_pure _
    refine (inside_parseSections header).bind ?_
    split <;> exact inside_pure _

theorem inside_screenElf : Inside bytes.length (screenElf bytes) := by
  have hleading : Inside bytes.length (leading bytes) := by
    intro i hi
    have hlt : i < min 4 bytes.length := List.mem_range.mp hi
    omega
  refine hleading.bind ?_
  split
  · exact inside_pure _
  split
  · exact inside_pure _
  refine (inside_readAt 1 _).bind ?_
  split
  · exact inside_pure _
  refine (inside_readAt 1 _).bind ?_
  split
  · exact inside_pure _
  split
  · exact inside_pure _
  refine inside_readHeader.bind ?_
  split
  · exact inside_pure _
  · exact inside_screenTables _

/-! ## What is visited -/

theorem visited_littleEndian (at_ width : Nat) : (littleEndian bytes at_ width).visited = [] := by
  induction width generalizing at_ with
  | zero => rfl
  | succ width ih => simp [littleEndian, byteAt, ih]

@[simp] theorem visited_readAt (width at_ : Nat) : (readAt width bytes at_).visited = [] := by
  unfold readAt
  split
  · rfl
  · simp [visited_littleEndian]

theorem visited_nameFrom (at_ left : Nat) : (nameFrom bytes at_ left).visited = [] := by
  induction left generalizing at_ with
  | zero => rfl
  | succ left ih =>
    rw [nameFrom, visited_bind]
    split
    · rfl
    · simp [byteAt, ih]

theorem visited_nameAt (tableStart tableEnd offset : Nat) :
    (nameAt bytes tableStart tableEnd offset).visited = [] := by
  unfold nameAt
  split
  · rfl
  · exact visited_nameFrom _ _

theorem visited_foldl {f : β → Nat → Watched β} {table : Table}
    (h : ∀ acc i, (f acc i).visited = [table]) (acc : β) (l : List Nat) :
    (foldl f acc l).visited = List.replicate l.length table := by
  induction l generalizing acc with
  | nil => rfl
  | cons i rest ih =>
    rw [foldl, visited_bind, h, ih]
    rfl

theorem visited_collect {f : Nat → Watched β} {table : Table}
    (h : ∀ i, (f i).visited = [table]) (l : List Nat) :
    (collect f l).visited = List.replicate l.length table := by
  induction l with
  | nil => rfl
  | cons i rest ih =>
    rw [collect, visited_bind, visited_bind, h, ih, visited_pure, List.append_nil]
    rfl

/-- A table that ends inside the file has no more entries than the file has bytes. -/
theorem count_le_length {start count stride : Nat} (hstride : 0 < stride)
    (h : ¬ n < start + count * stride) : count ≤ n := by
  have hcount : count ≤ count * stride := Nat.le_mul_of_pos_right count hstride
  omega

theorem sectionStride_pos (header : Elf64Header) : 0 < sectionStride header := by
  unfold sectionStride
  split
  · exact Nat.zero_lt_succ 63
  · omega

theorem programStride_pos (header : Elf64Header) : 0 < programStride header := by
  unfold programStride
  split
  · exact Nat.zero_lt_succ 55
  · omega

theorem visited_programEvidence (header : Elf64Header) :
    ∃ k ≤ bytes.length,
      (programEvidence bytes header).visited = List.replicate k .programHeaders := by
  unfold programEvidence
  split
  · split
    · exact ⟨0, Nat.zero_le _, rfl⟩
    next hfits =>
      refine ⟨header.phnum, count_le_length (programStride_pos header) hfits, ?_⟩
      have hsegment : ∀ evidence i, (segmentAt bytes header.phoff (programStride header)
          evidence i).visited = [.programHeaders] := by
        intro evidence i
        simp [segmentAt, visit, u32]
      rw [visited_bind, visited_foldl hsegment, visited_pure, List.append_nil, List.length_range]
  · exact ⟨0, Nat.zero_le _, rfl⟩

theorem visited_parseSections (header : Elf64Header) :
    ∃ k ≤ bytes.length, (parseSections bytes header).visited = List.replicate k .sections := by
  have hcount : (sectionCount bytes header).visited = [] := by
    unfold sectionCount
    split <;> simp [u64]
  have hindex : (stringIndex bytes header).visited = [] := by
    unfold stringIndex
    split <;> simp [u32]
  have hnamed : ∀ count index,
      (nameTable bytes header.shoff (sectionStride header) count index).visited = [] := by
    intro count index
    unfold nameTable
    split
    · rw [visited_bind, visited_bind]
      split <;> simp [u64]
    · rfl
  unfold parseSections
  split
  · exact ⟨0, Nat.zero_le _, rfl⟩
  split
  · exact ⟨0, Nat.zero_le _, rfl⟩
  rw [visited_bind, visited_bind, hcount, hindex, List.nil_append, List.nil_append]
  split
  · exact ⟨0, Nat.zero_le _, rfl⟩
  next hfits =>
    rw [visited_bind, hnamed, List.nil_append]
    split
    · exact ⟨0, Nat.zero_le _, rfl⟩
    next nameStart nameEnd _ =>
      refine ⟨_, count_le_length (sectionStride_pos header) hfits, ?_⟩
      have hsection : ∀ i, (sectionAt bytes header.shoff (sectionStride header) nameStart nameEnd
          i).visited = [.sections] := by
        intro i
        simp [sectionAt, visit, u32, u64, visited_nameAt]
      rw [visited_bind, visited_collect hsection, visited_pure, List.append_nil,
        List.length_range]

/-- The program headers are visited first, then the sections. -/
def InOrder (n : Nat) (x : Watched α) : Prop :=
  ∃ j ≤ n, ∃ k ≤ n, x.visited
    = List.replicate j Table.programHeaders ++ List.replicate k Table.sections

theorem inOrder_pure (a : α) : InOrder n (pure a) := ⟨0, Nat.zero_le n, 0, Nat.zero_le n, rfl⟩

/-- What visits nothing before leaves the order as it is. -/
theorem InOrder.after {x : Watched α} {f : α → Watched β} (hx : x.visited = [])
    (h : InOrder n (f x.value)) : InOrder n (x >>= f) := by
  unfold InOrder
  rw [visited_bind, hx, List.nil_append]
  exact h

theorem inOrder_screenTables (header : Elf64Header) :
    InOrder bytes.length (screenTables bytes header) := by
  obtain ⟨j, hj, hprograms⟩ := @visited_programEvidence bytes header
  obtain ⟨k, hk, hsections⟩ := @visited_parseSections bytes header
  unfold InOrder screenTables
  rw [visited_bind, hprograms]
  split
  · exact ⟨j, hj, 0, Nat.zero_le _, rfl⟩
  next segments _ =>
    dsimp only
    generalize (if header.type = .dyn then segments ++ [.sharedObjectType] else segments)
      = evidence
    split
    · exact ⟨j, hj, 0, Nat.zero_le _, rfl⟩
    · refine ⟨j, hj, k, hk, ?_⟩
      rw [visited_bind, hsections]
      split <;> rw [visited_pure, List.append_nil]

theorem inOrder_screenElf : InOrder bytes.length (screenElf bytes) := by
  refine InOrder.after rfl ?_
  split
  · exact inOrder_pure _
  split
  · exact inOrder_pure _
  refine InOrder.after (visited_readAt 1 _) ?_
  split
  · exact inOrder_pure _
  refine InOrder.after (visited_readAt 1 _) ?_
  split
  · exact inOrder_pure _
  split
  · exact inOrder_pure _
  have hheader : (readHeader bytes).visited = [] := by
    simp [readHeader, u16, u64]
  refine InOrder.after hheader ?_
  split
  · exact inOrder_pure _
  · exact inOrder_screenTables _

/-- No table is walked further than the file has bytes. -/
theorem visited_le (table : Table) : (screenElf bytes).visited.count table ≤ bytes.length := by
  obtain ⟨j, hj, k, hk, hvisited⟩ := @inOrder_screenElf bytes
  rw [hvisited, List.count_append, List.count_replicate, List.count_replicate]
  cases table <;> simpa

end Watched

open Watched (sectionStride programStride)

variable {bytes : Bytes} {region : ElfRegion} {needed actual : Nat}

/-! ## What the headers say must be there -/

/-- The number of sections, all 64 bits of it where section 0 has it. -/
def declaredSections (bytes : Bytes) : Nat :=
  if (readHeader bytes).shnum = 0 then (u64 bytes ((readHeader bytes).shoff + 32)).getD 0
  else (readHeader bytes).shnum

/-- Where the header of the section with the names is. -/
def nameHeader (bytes : Bytes) : Nat :=
  let header := readHeader bytes
  let index :=
    if header.shstrndx = SHN_XINDEX then (u32 bytes (header.shoff + 40)).getD 0
    else header.shstrndx
  header.shoff + index * sectionStride header

/-- An end offset that the headers give a region. -/
def EndOf (bytes : Bytes) : ElfRegion → Nat → Prop
  | .eIdent, n => n = EI_NIDENT
  | .elfHeader, n => n = ELF64_HEADER_SIZE
  | .programHeaderTable, n =>
    n = (readHeader bytes).phoff + (readHeader bytes).phnum * programStride (readHeader bytes)
  | .sectionHeaderTable, n =>
    n = (readHeader bytes).shoff + sectionStride (readHeader bytes) ∨
      n = (readHeader bytes).shoff + declaredSections bytes * sectionStride (readHeader bytes)
  | .sectionNameTable, n =>
    n = (u64 bytes (nameHeader bytes + 24)).getD 0 + (u64 bytes (nameHeader bytes + 32)).getD 0

/-- What a `truncated` says is so. -/
def SaysWhatIsMissing (bytes : Bytes) (region : ElfRegion) (needed actual : Nat) : Prop :=
  actual = bytes.length ∧ actual < needed ∧ EndOf bytes region needed

/-- An answer that is given from the file alone, and exact about what the file lacks. -/
structure ExactAnswer (bytes : Bytes) : Prop where
  answers : (Watched.screenElf bytes).value = screenElf bytes
  inside : ∀ at_ ∈ (Watched.screenElf bytes).touched, at_ < bytes.length
  absent : ∀ width at_, bytes.length < at_ + width → readAt width bytes at_ = none
  visits : ∀ table, (Watched.screenElf bytes).visited.count table ≤ bytes.length
  exact_ : ∀ region needed actual, screenElf bytes = .error (.truncated region needed actual) →
    SaysWhatIsMissing bytes region needed actual

/-- A file whose section headers are looked at. -/
structure Reaches (bytes : Bytes) : Prop where
  magic : bytes.take 4 = ELF_MAGIC
  whole : ELF64_HEADER_SIZE ≤ bytes.length
  elf64 : (u8 bytes EI_CLASS).getD 0 = ELFCLASS64
  littleEndian : (u8 bytes EI_DATA).getD 0 = ELFDATA2LSB
  machine : (readHeader bytes).machine = EM_AARCH64
  type : (readHeader bytes).type ≠ .dyn
  programs : 0 < (readHeader bytes).phnum ∧ 0 < (readHeader bytes).phoff →
    (readHeader bytes).phoff + (readHeader bytes).phnum * programStride (readHeader bytes)
        ≤ bytes.length ∧
      ∀ i < (readHeader bytes).phnum,
        (u32 bytes ((readHeader bytes).phoff + i * programStride (readHeader bytes))).getD 0
            ≠ PT_INTERP ∧
          (u32 bytes ((readHeader bytes).phoff + i * programStride (readHeader bytes))).getD 0
            ≠ PT_DYNAMIC

/-- A file that leaves the section count to section 0, where it is a number that `Number`
    rounds. -/
structure RoundedCount (bytes : Bytes) : Prop extends Reaches bytes where
  hasSections : (readHeader bytes).shoff ≠ 0
  hasFirst : (readHeader bytes).shoff + sectionStride (readHeader bytes) ≤ bytes.length
  escaped : (readHeader bytes).shnum = 0
  rounded : toNumber (declaredSections bytes) ≠ declaredSections bytes

/-! ## The checks, one after another -/

theorem programEvidence_nil_iff :
    programEvidence bytes (readHeader bytes) = .ok [] ↔
      (0 < (readHeader bytes).phnum ∧ 0 < (readHeader bytes).phoff →
        (readHeader bytes).phoff + (readHeader bytes).phnum * programStride (readHeader bytes)
            ≤ bytes.length ∧
          ∀ i < (readHeader bytes).phnum,
            (u32 bytes ((readHeader bytes).phoff + i * programStride (readHeader bytes))).getD 0
                ≠ PT_INTERP ∧
              (u32 bytes ((readHeader bytes).phoff + i * programStride (readHeader bytes))).getD 0
                ≠ PT_DYNAMIC) := by
  rw [← Watched.value_programEvidence, Watched.programEvidence]
  by_cases htable : 0 < (readHeader bytes).phnum ∧ 0 < (readHeader bytes).phoff
  · rw [if_pos htable]
    by_cases hfits : bytes.length
        < (readHeader bytes).phoff + (readHeader bytes).phnum * programStride (readHeader bytes)
    · rw [if_pos hfits]
      constructor
      · intro h
        cases h
      · intro h
        have hinside := (h htable).1
        omega
    · rw [if_neg hfits]
      simp only [Watched.value_bind, Watched.value_pure, Watched.value_foldl, Watched.segmentAt,
        Watched.u32, Watched.value_readAt, Except.ok.injEq]
      rw [foldl_segmentEvidence_eq_nil]
      simp only [List.mem_range]
      exact ⟨fun h _ => ⟨by omega, h.2⟩, fun h => ⟨trivial, (h htable).2⟩⟩
  · rw [if_neg htable]
    exact ⟨fun _ h => absurd h htable, fun _ => rfl⟩

/-- The screen, down to the tables. -/
theorem screenElf_eq :
    screenElf bytes
      = if bytes.take 4 ≠ ELF_MAGIC then .error (.notAnElf (bytes.take 4))
        else if bytes.length < EI_NIDENT then .error (.truncated .eIdent EI_NIDENT bytes.length)
        else if (u8 bytes EI_CLASS).getD 0 ≠ ELFCLASS64 then
          .error (.not64Bit ((u8 bytes EI_CLASS).getD 0))
        else if (u8 bytes EI_DATA).getD 0 ≠ ELFDATA2LSB then
          .error (.notLittleEndian ((u8 bytes EI_DATA).getD 0))
        else if bytes.length < ELF64_HEADER_SIZE then
          .error (.truncated .elfHeader ELF64_HEADER_SIZE bytes.length)
        else if (readHeader bytes).machine ≠ EM_AARCH64 then
          .error (.notAarch64 (readHeader bytes).machine)
        else (Watched.screenTables bytes (readHeader bytes)).value := by
  rw [Watched.value_screenTables]
  rfl

/-- A file that reaches its section headers is judged by them. -/
theorem screenElf_of_reaches (h : Reaches bytes) :
    screenElf bytes = match parseSections bytes (readHeader bytes) with
      | .error refusal => .error refusal
      | .ok sections => Watched.judge (readHeader bytes) sections := by
  have hident : ¬ bytes.length < EI_NIDENT := by
    have hwhole : 64 ≤ bytes.length := h.whole
    show ¬ bytes.length < 16
    omega
  rw [screenElf_eq, if_neg (not_not.mpr h.magic), if_neg hident, if_neg (not_not.mpr h.elf64),
    if_neg (not_not.mpr h.littleEndian), if_neg (Nat.not_lt.mpr h.whole),
    if_neg (not_not.mpr h.machine), Watched.value_screenTables,
    programEvidence_nil_iff.mpr h.programs]
  cases parseSections bytes (readHeader bytes) <;>
    simp only [if_neg h.type, ne_eq, not_true_eq_false, if_false]

theorem programEvidence_truncated
    (h : programEvidence bytes (readHeader bytes) = .error (.truncated region needed actual)) :
    SaysWhatIsMissing bytes region needed actual := by
  rw [← Watched.value_programEvidence, Watched.programEvidence] at h
  split at h
  · split at h
    next hends =>
      cases h
      exact ⟨rfl, hends, rfl⟩
    · cases h
  · cases h

/-- What is said to be missing is, unless it is the section headers that say so. -/
theorem screenElf_truncated
    (h : screenElf bytes = .error (.truncated region needed actual)) :
    SaysWhatIsMissing bytes region needed actual ∨
      (Reaches bytes ∧
        parseSections bytes (readHeader bytes) = .error (.truncated region needed actual)) := by
  rw [screenElf_eq] at h
  split at h
  · cases h
  next hmagic =>
    split at h
    next hshort =>
      cases h
      exact .inl ⟨rfl, hshort, rfl⟩
    split at h
    · cases h
    next hclass =>
      split at h
      · cases h
      next hdata =>
        split at h
        next hshort =>
          cases h
          exact .inl ⟨rfl, hshort, rfl⟩
        next hwhole =>
          split at h
          · cases h
          next hmachine =>
            rw [Watched.value_screenTables] at h
            cases hprograms : programEvidence bytes (readHeader bytes) with
            | error refusal =>
              rw [hprograms] at h
              cases h
              exact .inl (programEvidence_truncated hprograms)
            | ok segments =>
              rw [hprograms] at h
              dsimp only at h
              split at h
              · rw [if_pos (by simp)] at h
                cases h
              next htype =>
                by_cases hsome : segments ≠ []
                · rw [if_pos hsome] at h
                  cases h
                rw [if_neg hsome] at h
                rw [not_not.mp hsome] at hprograms
                have hreaches : Reaches bytes :=
                  ⟨not_not.mp hmagic, Nat.le_of_not_lt hwhole, not_not.mp hclass,
                    not_not.mp hdata, not_not.mp hmachine, htype,
                    programEvidence_nil_iff.mp hprograms⟩
                cases hsections : parseSections bytes (readHeader bytes) with
                | error refusal =>
                  rw [hsections] at h
                  cases h
                  exact .inr ⟨hreaches, rfl⟩
                | ok sections =>
                  rw [hsections] at h
                  unfold Watched.judge at h
                  dsimp only at h
                  split at h <;> cases h

/-! ## The count that is rounded -/

theorem sectionCount_eq :
    (Watched.sectionCount bytes (readHeader bytes)).value
      = if (readHeader bytes).shnum = 0 then toNumber (declaredSections bytes)
        else declaredSections bytes := by
  simp only [Watched.sectionCount, Watched.value_ite, Watched.value_bind, Watched.value_pure,
    Watched.u64, Watched.value_readAt, declaredSections]
  split <;> rfl

/-- Where the count is not rounded, what the section headers say is missing is. -/
theorem parseSections_truncated
    (hcount : (Watched.sectionCount bytes (readHeader bytes)).value = declaredSections bytes)
    (h : parseSections bytes (readHeader bytes) = .error (.truncated region needed actual)) :
    SaysWhatIsMissing bytes region needed actual := by
  rw [Watched.parseSections_eq, hcount] at h
  split at h
  · cases h
  split at h
  next hfirst =>
    cases h
    exact ⟨rfl, hfirst, .inl rfl⟩
  split at h
  next hends =>
    cases h
    exact ⟨rfl, hends, .inr rfl⟩
  split at h
  next refusal hnamed =>
    cases h
    simp only [Watched.nameTable, Watched.value_ite, Watched.value_bind, Watched.value_pure,
      Watched.u64, Watched.value_readAt] at hnamed
    split at hnamed
    · split at hnamed
      next hends =>
        cases hnamed
        refine ⟨rfl, hends, ?_⟩
        simp only [EndOf, nameHeader, Watched.stringIndex, Watched.value_ite, Watched.value_bind,
          Watched.value_pure, Watched.u32, Watched.value_readAt]
        rfl
      · cases hnamed
    · cases hnamed
  · cases h

/-- Where it is, the end that is named is not one that the headers give. -/
theorem RoundedCount.screenElf (h : RoundedCount bytes) (hlength : bytes.length < 2 ^ 53) :
    screenElf bytes = .error (.truncated .sectionHeaderTable
        ((readHeader bytes).shoff
          + toNumber (declaredSections bytes) * sectionStride (readHeader bytes)) bytes.length) ∧
      ¬ EndOf bytes .sectionHeaderTable ((readHeader bytes).shoff
        + toNumber (declaredSections bytes) * sectionStride (readHeader bytes)) := by
  have hstride := Watched.sectionStride_pos (readHeader bytes)
  have hlarge : 2 ^ 53 ≤ toNumber (declaredSections bytes) := by
    apply toNumber_large
    by_contra hsmall
    exact h.rounded (toNumber_small (by omega))
  have hmul : toNumber (declaredSections bytes)
      ≤ toNumber (declaredSections bytes) * sectionStride (readHeader bytes) :=
    Nat.le_mul_of_pos_right _ hstride
  constructor
  · rw [screenElf_of_reaches h.toReaches, Watched.parseSections_eq, sectionCount_eq,
      if_pos h.escaped, if_neg h.hasSections, if_neg (Nat.not_lt.mpr h.hasFirst),
      if_pos (by omega)]
  · rintro (hfirst | htable)
    · have hone : toNumber (declaredSections bytes) * sectionStride (readHeader bytes)
          = 1 * sectionStride (readHeader bytes) := by omega
      have hcount := Nat.eq_of_mul_eq_mul_right hstride hone
      omega
    · exact h.rounded (Nat.eq_of_mul_eq_mul_right hstride (by omega))

/-- A header that leaves the section count to section 0, which has 2^53 + 1. -/
def elfRounded : Bytes :=
  ELF_MAGIC ++ [2, 1, 1] ++ List.replicate 9 0 ++ [2, 0, 183, 0] ++ List.replicate 20 0
    ++ [64] ++ List.replicate 17 0 ++ [64, 0, 0, 0, 0, 0]
    ++ List.replicate 32 0 ++ [1, 0, 0, 0, 0, 0, 32, 0] ++ List.replicate 24 0

end O2Fabric.Aot
