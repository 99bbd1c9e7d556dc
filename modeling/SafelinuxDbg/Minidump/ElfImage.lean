import SafelinuxDbg.Minidump.ElfHeader

/-!
# What the header buffer says

`Image` is what a parser makes of the buffer: the sections with their names, the program
headers and the file offset of the next region.  `Represents h img` says that the bytes of
`h` are a well-formed encoding of `img`: every header lies in its own array, and the string
table holds the section names end to end, in section order.

The operations of `Image` are what the functions that edit the buffer are for.  That the
functions do this to the bytes is proved in `ElfEdit`; here, `represents_buildHeader` says that
the buffer `msm_minidump_add_header` builds has four sections and one program header.
-/

namespace SafelinuxDbg.Minidump

open CMemory

/-! ## Headers as records -/

/-- The fields of a section header that the driver uses. -/
structure Shdr where
  shName : UInt32
  shAddr : UInt64
  shOffset : UInt64
  shSize : UInt64
deriving DecidableEq

/-- The fields of a program header that the driver uses. -/
structure Phdr where
  pOffset : UInt64
  pVaddr : UInt64
  pPaddr : UInt64
  pFilesz : UInt64
  pMemsz : UInt64
deriving DecidableEq

def Shdr.setAddr (v : UInt64) (s : Shdr) : Shdr := { s with shAddr := v }

def Phdr.setAddrs (v w : UInt64) (p : Phdr) : Phdr := { p with pVaddr := v, pPaddr := w }

def shdrAt (b : Nat → UInt8) (a : Nat) : Shdr :=
  ⟨read32 b (a + Off.shName), read64 b (a + Off.shAddr), read64 b (a + Off.shOffset),
    read64 b (a + Off.shSize)⟩

def phdrAt (b : Nat → UInt8) (a : Nat) : Phdr :=
  ⟨read64 b (a + Off.pOffset), read64 b (a + Off.pVaddr), read64 b (a + Off.pPaddr),
    read64 b (a + Off.pFilesz), read64 b (a + Off.pMemsz)⟩

theorem shdrAt_congr {b b' : Nat → UInt8} {a a' : Nat}
    (h : ∀ k, k < 64 → b (a + k) = b' (a' + k)) : shdrAt b a = shdrAt b' a' := by
  have h32 : ∀ o, o + 4 ≤ 64 → read32 b (a + o) = read32 b' (a' + o) := by
    intro o ho
    apply read32_congr
    intro k hk
    rw [Nat.add_assoc, Nat.add_assoc]
    exact h _ (by omega)
  have h64 : ∀ o, o + 8 ≤ 64 → read64 b (a + o) = read64 b' (a' + o) := by
    intro o ho
    apply read64_congr
    intro k hk
    rw [Nat.add_assoc, Nat.add_assoc]
    exact h _ (by omega)
  rw [shdrAt, shdrAt, h32 _ (by decide), h64 _ (by decide), h64 _ (by decide), h64 _ (by decide)]

theorem phdrAt_congr {b b' : Nat → UInt8} {a a' : Nat}
    (h : ∀ k, k < 56 → b (a + k) = b' (a' + k)) : phdrAt b a = phdrAt b' a' := by
  have h64 : ∀ o, o + 8 ≤ 56 → read64 b (a + o) = read64 b' (a' + o) := by
    intro o ho
    apply read64_congr
    intro k hk
    rw [Nat.add_assoc, Nat.add_assoc]
    exact h _ (by omega)
  rw [phdrAt, phdrAt, h64 _ (by decide), h64 _ (by decide), h64 _ (by decide), h64 _ (by decide),
    h64 _ (by decide)]

/-- Section headers as an array of records. -/
def shdrView : RecordView Shdr := ⟨64, shdrAt, shdrAt_congr⟩

/-- Program headers as an array of records. -/
def phdrView : RecordView Phdr := ⟨56, phdrAt, phdrAt_congr⟩

/-! ## Images -/

/-- A section: its name, read through the string table, and its header. -/
structure Section where
  name : CStr
  addr : UInt64
  offset : UInt64
  size : UInt64
deriving DecidableEq

/-- What a parser reads in the header buffer. -/
structure Image where
  sections : List Section
  programs : List Phdr
  elfOffset : UInt64
deriving DecidableEq

namespace Image

def names (img : Image) : List CStr := img.sections.map Section.name

/-- The header of section `i`: its name starts where the names before it end. -/
def shdr (img : Image) (i : Nat) (s : Section) : Shdr :=
  ⟨UInt32.ofNat (packedLen (img.names.take i)), s.addr, s.offset, s.size⟩

def shdrs (img : Image) : List Shdr := img.sections.mapIdx img.shdr

/-- `md_add_elf_header`. -/
def add (e : MdRegion) (img : Image) : Image where
  sections := img.sections ++ [⟨e.name, e.virtAddr, img.elfOffset, e.size⟩]
  programs := img.programs ++ [⟨img.elfOffset, e.virtAddr, e.physAddr, e.size, e.size⟩]
  elfOffset := img.elfOffset + e.size

/-- `md_update_elf_header`. -/
def update (n : Nat) (e : MdRegion) (img : Image) : Image where
  sections := img.sections.modify (n + 4) (fun s => { s with addr := e.virtAddr })
  programs := img.programs.modify (n + 1) (Phdr.setAddrs e.virtAddr e.physAddr)
  elfOffset := img.elfOffset

/-- The first program header with the entry's physical address and size. -/
def findProgram (e : MdRegion) (img : Image) : Option Nat :=
  img.programs.findIdx? (fun p => p.pPaddr == e.physAddr && p.pMemsz == e.size)

/-- The first section with the entry's name, address and size. -/
def findSection (e : MdRegion) (img : Image) : Option Nat :=
  img.sections.findIdx? (fun s => s.name == e.name && (s.addr == e.virtAddr && s.size == e.size))

/-- The checks of `msm_minidump_clear_headers`. -/
def lookup (e : MdRegion) (img : Image) : Option (Nat × Nat) :=
  match img.findProgram e with
  | none => none
  | some pidx =>
    match img.findSection e with
    | none => none
    | some shidx =>
      if img.sections[shidx]?.map Section.offset = img.programs[pidx]?.map Phdr.pOffset then
        some (pidx, shidx)
      else none

/-- A section moved down in the file by `esize` bytes. -/
def lowerSection (esize : UInt64) (s : Section) : Section := { s with offset := s.offset - esize }

/-- A program header moved down in the file by `esize` bytes. -/
def lowerProgram (esize : UInt64) (p : Phdr) : Phdr := { p with pOffset := p.pOffset - esize }

/-- `msm_minidump_clear_headers` once its checks have passed. -/
def clear (pidx shidx : Nat) (esize : UInt64) (img : Image) : Image where
  sections := img.sections.take shidx ++ (img.sections.drop (shidx + 1)).map (lowerSection esize)
  programs := img.programs.take pidx ++ (img.programs.drop (pidx + 1)).map (lowerProgram esize)
  elfOffset := img.elfOffset - esize

/-- The image `msm_minidump_add_header` builds. -/
def initial (addrs : HeaderAddrs) : Image where
  sections :=
    [⟨CStr.empty, 0, 0, 0⟩,
      ⟨CStr.ofString "STR_TBL", 0, UInt64.ofNat strtblOff, UInt64.ofNat maxStrtblSize⟩,
      ⟨CStr.ofString "minidump_table", addrs.table, 0, 0⟩,
      ⟨CStr.ofString "linux_banner", addrs.bannerVirt, UInt64.ofNat (strtblOff + maxStrtblSize),
        UInt64.ofNat (linuxBanner.strlen + 1)⟩]
  programs :=
    [⟨UInt64.ofNat (strtblOff + maxStrtblSize), addrs.bannerVirt, addrs.bannerPhys,
      UInt64.ofNat (linuxBanner.strlen + 1), UInt64.ofNat (linuxBanner.strlen + 1)⟩]
  elfOffset := UInt64.ofNat elfhSize

@[simp] theorem shdrs_length (img : Image) : img.shdrs.length = img.sections.length := by
  simp [shdrs]

@[simp] theorem names_length (img : Image) : img.names.length = img.sections.length := by
  simp [names]

end Image

/-- The buffer `h` is a well-formed encoding of `img`.  The numbers are the offsets of
`e_shoff`, `e_phoff` and `e_shstrndx`, and of the three arrays. -/
structure Represents (h : MdElfhdr) (img : Image) : Prop where
  shoff : read64 h.ehdr 40 = 64
  phoff : read64 h.ehdr 32 = 12928
  shstrndx : read16 h.ehdr 62 = 1
  shnum : eShnum h.ehdr = img.sections.length
  phnum : ePhnum h.ehdr = img.programs.length
  room : img.sections.length ≤ 201
  counts : img.programs.length + 3 = img.sections.length
  strtab : img.sections[1]?.map Section.offset = some 24184
  sections : shdrView.At h.ehdr 64 img.shdrs
  programs : phdrView.At h.ehdr 12928 img.programs
  packed : Packed h.ehdr 24184 img.names
  nameLen : ∀ s ∈ img.sections, s.name.strlen ≤ 15
  strtableIdx : h.strtableIdx = UInt64.ofNat (packedLen img.names)
  elfOffset : h.elfOffset = img.elfOffset

/-! ## Reading the layout -/

theorem elfSection_eq {b : Nat → UInt8} (h : read64 b 40 = 64) (i : Nat) :
    elfSection b i = 64 + 64 * i := by
  rw [elfSection, elfSheader, h]
  rfl

theorem elfProgram_eq {b : Nat → UInt8} (h : read64 b 32 = 12928) (i : Nat) :
    elfProgram b i = 12928 + 56 * i := by
  rw [elfProgram, elfPheader, h]
  rfl

theorem elfStrTable_eq {b : Nat → UInt8} (h1 : read64 b 40 = 64)
    (h2 : read16 b 62 = 1) (h3 : (shdrAt b (64 + 64 * 1)).shOffset = 24184) :
    elfStrTable b = some 24184 := by
  have h4 : read64 b (64 + 64 * 1 + 24) = 24184 := h3
  have h5 : (read16 b 62).toNat = 1 := by rw [h2]; rfl
  simp only [elfStrTable, h5, elfSection_eq h1, h4]
  rfl

theorem eShnum_congr {b b' : Nat → UInt8} (h : ∀ k, k < 2 → b (60 + k) = b' (60 + k)) :
    eShnum b = eShnum b' := congrArg UInt16.toNat (read16_congr h)

theorem ePhnum_congr {b b' : Nat → UInt8} (h : ∀ k, k < 2 → b (56 + k) = b' (56 + k)) :
    ePhnum b = ePhnum b' := congrArg UInt16.toNat (read16_congr h)

theorem setSectionName_eq {b : Nat → UInt8} (off cursor : UInt64) (name : CStr) (idx : Nat)
    (hs : elfStrTable b = some 24184) (hi : cursor = UInt64.ofNat idx)
    (hidx : idx < 2 ^ 64) (hn : name.strlen ≤ 15) :
    setSectionName name ⟨b, off, cursor⟩ =
      (⟨writeBytes b (24184 + idx) (name.bytes ++ [0]), off,
        UInt64.ofNat (idx + (name.strlen + 1))⟩, UInt32.ofNat idx) := by
  have hnat : cursor.toNat = idx := by
    rw [hi, UInt64.toNat_ofNat', Nat.mod_eq_of_lt hidx]
  have hlen : name.strlen < maxRegionNameLength := by
    rw [maxRegionNameLength_eq]
    omega
  simp only [setSectionName, hs, hnat, strscpyAt_of_lt _ _ hlen]
  rfl

namespace Represents

variable {h : MdElfhdr} {img : Image}

theorem elfSection_eq (hr : Represents h img) (i : Nat) : elfSection h.ehdr i = 64 + 64 * i :=
  Minidump.elfSection_eq hr.shoff i

theorem elfProgram_eq (hr : Represents h img) (i : Nat) : elfProgram h.ehdr i = 12928 + 56 * i :=
  Minidump.elfProgram_eq hr.phoff i

theorem shdrAt_eq (hr : Represents h img) {i : Nat} (hi : i < img.sections.length) :
    shdrAt h.ehdr (64 + 64 * i) = img.shdr i img.sections[i] := by
  have hs := hr.sections i (by rwa [Image.shdrs_length])
  simp only [Image.shdrs, List.getElem_mapIdx] at hs
  exact hs

theorem phdrAt_eq (hr : Represents h img) {i : Nat} (hi : i < img.programs.length) :
    phdrAt h.ehdr (12928 + 56 * i) = img.programs[i] := hr.programs i hi

/-- The fields of section header `i` as the driver loads them. -/
theorem shdr_fields (hr : Represents h img) {i : Nat} (hi : i < img.sections.length) :
    read32 h.ehdr (64 + 64 * i + Off.shName) = UInt32.ofNat (packedLen (img.names.take i)) ∧
    read64 h.ehdr (64 + 64 * i + Off.shAddr) = img.sections[i].addr ∧
    read64 h.ehdr (64 + 64 * i + Off.shOffset) = img.sections[i].offset ∧
    read64 h.ehdr (64 + 64 * i + Off.shSize) = img.sections[i].size := by
  have hrec := hr.shdrAt_eq hi
  rwa [shdrAt, Image.shdr, Shdr.mk.injEq] at hrec

/-- The fields of program header `i` as the driver loads them. -/
theorem phdr_fields (hr : Represents h img) {i : Nat} (hi : i < img.programs.length) :
    read64 h.ehdr (12928 + 56 * i + Off.pOffset) = img.programs[i].pOffset ∧
    read64 h.ehdr (12928 + 56 * i + Off.pPaddr) = img.programs[i].pPaddr ∧
    read64 h.ehdr (12928 + 56 * i + Off.pMemsz) = img.programs[i].pMemsz := by
  have hrec := hr.phdrAt_eq hi
  rw [← hrec, phdrAt]
  exact ⟨rfl, rfl, rfl⟩

theorem one_lt (hr : Represents h img) : 1 < img.sections.length := by
  have hs := hr.strtab
  by_cases hlt : 1 < img.sections.length
  · exact hlt
  · rw [List.getElem?_eq_none (by omega)] at hs
    cases hs

theorem strtab_eq (hr : Represents h img) : (shdrAt h.ehdr (64 + 64 * 1)).shOffset = 24184 := by
  have hs := hr.strtab
  rw [List.getElem?_eq_getElem hr.one_lt, Option.map_some, Option.some.injEq] at hs
  rw [hr.shdrAt_eq hr.one_lt]
  exact hs

theorem elfStrTable_eq (hr : Represents h img) : elfStrTable h.ehdr = some 24184 :=
  Minidump.elfStrTable_eq hr.shoff hr.shstrndx hr.strtab_eq

theorem names_le (hr : Represents h img) : ∀ s ∈ img.names, s.strlen + 1 ≤ 16 := by
  intro s hs
  obtain ⟨sec, hsec, rfl⟩ := List.mem_map.mp hs
  have := hr.nameLen sec hsec
  omega

/-- The string table holds at most 16 bytes for each section. -/
theorem packedLen_le (hr : Represents h img) : packedLen img.names ≤ 16 * img.sections.length := by
  have hp := packedLen_le_mul hr.names_le
  rwa [Image.names_length] at hp

theorem read16_shnum (hr : Represents h img) :
    read16 h.ehdr 60 = UInt16.ofNat img.sections.length := by
  rw [← hr.shnum, eShnum, UInt16.ofNat_toNat]

theorem read16_phnum (hr : Represents h img) :
    read16 h.ehdr 56 = UInt16.ofNat img.programs.length := by
  rw [← hr.phnum, ePhnum, UInt16.ofNat_toNat]

end Represents

/-! ## The buffer as it is built -/

/-- The stores of `headerEhdr` into the zeroed buffer. -/
def ehdrBytes : Nat → UInt8 :=
  write16 (write16 (write64 (write16 (write64 (write16 (write32 (write16 (write16
    (writeBytes (fun _ => 0) 0 [0x7f, 0x45, 0x4c, 0x46, 2, 1, 1, 0]) 16 4) 18 183) 20 1) 52 64)
    32 12928) 54 56) 40 64) 58 64) 62 1

/-- The stores of `headerStrtab`, with the string table's name. -/
def strtabBytes (b : Nat → UInt8) : Nat → UInt8 :=
  write32 (writeBytes (write64 (write64 (write64 (write64 (write32 b 132 3) 152 24184) 160 3216)
    184 0) 136 0) 24185 ((CStr.ofString "STR_TBL").bytes ++ [0])) 128 1

/-- The stores of `headerTable`. -/
def tableBytes (addrs : HeaderAddrs) (b : Nat → UInt8) : Nat → UInt8 :=
  write32 (writeBytes (write64 (write64 (write64 (write32 b 196 1) 248 0) 200 0) 208 addrs.table)
    24193 ((CStr.ofString "minidump_table").bytes ++ [0])) 192 9

/-- The stores of `headerBanner`. -/
def bannerBytes (addrs : HeaderAddrs) (b : Nat → UInt8) : Nat → UInt8 :=
  write32 (writeBytes (write64 (write64 (write64 (write64 (write64 (write32
    (writeBytes b 27400 (linuxBanner.bytes ++ [0])) 260 1) 280 27400) 288 6) 272 addrs.bannerVirt)
    312 0) 264 1) 24208 ((CStr.ofString "linux_banner").bytes ++ [0])) 256 24

/-- The stores of `headerProgram`. -/
def programBytes (addrs : HeaderAddrs) (b : Nat → UInt8) : Nat → UInt8 :=
  write16 (write16 (write32 (write64 (write64 (write64 (write64 (write64 (write32 b 12928 1)
    12936 27400) 12944 addrs.bannerVirt) 12952 addrs.bannerPhys) 12968 6) 12960 6) 12932 6) 56 1) 60 4

theorem headerEhdr_eq : headerEhdr ⟨fun _ => 0, 0, 0⟩ = ⟨ehdrBytes, 0, 0⟩ := rfl

theorem headerStrtab_eq {b : Nat → UInt8} (off : UInt64) (h1 : read64 b 40 = 64)
    (h2 : read16 b 62 = 1) : headerStrtab ⟨b, off, 1⟩ = ⟨strtabBytes b, off, 9⟩ := by
  have hs : elfStrTable (write64 (write64 (write64 (write64 (write32 b 132 3) 152 24184) 160 3216)
      184 0) 136 0) = some 24184 := by
    apply elfStrTable_eq
    · simp (disch := decide) only [write64, write32, read64_writeLE, h1]
    · simp (disch := decide) only [write64, write32, read16_writeLE, h2]
    · show read64 _ 152 = _
      simp (disch := decide) only [write64, write32, read64_writeLE, read64_writeLE_self]
  have hname := setSectionName_eq off 1 (CStr.ofString "STR_TBL") 1 hs rfl (by decide) (by decide)
  have hshdr : sizeofEhdr + sizeofShdr = 128 := rfl
  simp only [headerStrtab, MdElfhdr.store32, MdElfhdr.store64, hshdr, Off.shName,
    Off.shType, Off.shOffset, Off.shSize, Off.shEntsize, Off.shFlags, Nat.reduceAdd, strtblOff_eq,
    maxStrtblSize_eq, UInt64.reduceOfNat, hname]
  rfl

theorem headerTable_eq {b : Nat → UInt8} (addrs : HeaderAddrs) (off : UInt64)
    (h1 : read64 b 40 = 64) (h2 : read16 b 62 = 1) (h3 : read64 b 152 = 24184) :
    headerTable addrs ⟨b, off, 9⟩ = ⟨tableBytes addrs b, off, 24⟩ := by
  have hs : elfStrTable (write64 (write64 (write64 (write32 b 196 1) 248 0) 200 0) 208
      addrs.table) = some 24184 := by
    apply elfStrTable_eq
    · simp (disch := decide) only [write64, write32, read64_writeLE, h1]
    · simp (disch := decide) only [write64, write32, read16_writeLE, h2]
    · show read64 _ 152 = _
      simp (disch := decide) only [write64, write32, read64_writeLE, h3]
  have hname := setSectionName_eq off 9 (CStr.ofString "minidump_table") 9 hs rfl (by decide) (by decide)
  have hshdr : sizeofEhdr + sizeofShdr * 2 = 192 := rfl
  simp only [headerTable, MdElfhdr.store32, MdElfhdr.store64, hshdr, Off.shName,
    Off.shType, Off.shAddr, Off.shEntsize, Off.shFlags, Nat.reduceAdd, hname]
  rfl

theorem headerBanner_eq {b : Nat → UInt8} (addrs : HeaderAddrs) (off : UInt64)
    (h1 : read64 b 40 = 64) (h2 : read16 b 62 = 1) (h3 : read64 b 152 = 24184) :
    headerBanner addrs ⟨b, off, 24⟩ = ⟨bannerBytes addrs b, off, 37⟩ := by
  have hs : elfStrTable (write64 (write64 (write64 (write64 (write64 (write32
      (writeBytes b 27400 (linuxBanner.bytes ++ [0])) 260 1) 280 27400) 288 6) 272
      addrs.bannerVirt) 312 0) 264 1) = some 24184 := by
    apply elfStrTable_eq
    · simp (disch := decide) only [write64, write32, read64_writeLE, read64_writeBytes, h1]
    · simp (disch := decide) only [write64, write32, read16_writeLE, read16_writeBytes, h2]
    · show read64 _ 152 = _
      simp (disch := decide) only [write64, write32, read64_writeLE, read64_writeBytes, h3]
  have hname := setSectionName_eq off 24 (CStr.ofString "linux_banner") 24 hs rfl (by decide) (by decide)
  have hcopy := strscpyAt_of_lt b 27400 (show linuxBanner.strlen < 3216 by decide)
  have hshdr : sizeofEhdr + sizeofShdr * 3 = 256 := rfl
  have hlen : linuxBanner.strlen + 1 = 6 := by decide
  simp only [headerBanner, MdElfhdr.store32, MdElfhdr.store64, hshdr, Off.shName,
    Off.shType, Off.shAddr, Off.shOffset, Off.shSize, Off.shEntsize, Off.shFlags, strtblOff_eq,
    maxStrtblSize_eq, Nat.reduceAdd, hcopy, hlen, UInt64.reduceOfNat, hname]
  rfl

/-- The buffer of `buildHeader` as one sequence of stores. -/
theorem buildHeader_eq (addrs : HeaderAddrs) :
    buildHeader addrs = ⟨programBytes addrs (bannerBytes addrs (tableBytes addrs
      (strtabBytes ehdrBytes))), 27888, 37⟩ := by
  have h1 : read64 ehdrBytes 40 = 64 := by
    simp (disch := decide) only [ehdrBytes, write64, write32, write16, read64_writeLE,
      read64_writeLE_self]
  have h2 : read16 ehdrBytes 62 = 1 := by
    simp only [ehdrBytes, write64, write32, write16, read16_writeLE_self]
  have h3 : read64 (strtabBytes ehdrBytes) 152 = 24184 := by
    simp (disch := decide) only [strtabBytes, write64, write32, read64_writeLE, read64_writeLE_self,
      read64_writeBytes]
  have h4 : read64 (strtabBytes ehdrBytes) 40 = 64 := by
    simp (disch := decide) only [strtabBytes, write64, write32, read64_writeLE, read64_writeBytes, h1]
  have h5 : read16 (strtabBytes ehdrBytes) 62 = 1 := by
    simp (disch := decide) only [strtabBytes, write64, write32, read16_writeLE, read16_writeBytes, h2]
  have h6 : read64 (tableBytes addrs (strtabBytes ehdrBytes)) 152 = 24184 := by
    simp (disch := decide) only [tableBytes, write64, write32, read64_writeLE, read64_writeBytes, h3]
  have h7 : read64 (tableBytes addrs (strtabBytes ehdrBytes)) 40 = 64 := by
    simp (disch := decide) only [tableBytes, write64, write32, read64_writeLE, read64_writeBytes, h4]
  have h8 : read16 (tableBytes addrs (strtabBytes ehdrBytes)) 62 = 1 := by
    simp (disch := decide) only [tableBytes, write64, write32, read16_writeLE, read16_writeBytes, h5]
  have hsize : UInt64.ofNat elfhSize = 27888 := by rw [elfhSize_eq]; rfl
  have hlen : linuxBanner.strlen + 1 = 6 := by decide
  simp only [buildHeader, headerEhdr_eq, hsize, headerStrtab_eq _ h1 h2,
    headerTable_eq addrs _ h4 h5 h3, headerBanner_eq addrs _ h7 h8 h6]
  simp only [headerProgram, MdElfhdr.store16, MdElfhdr.store32, MdElfhdr.store64, phdrOff_eq,
    strtblOff_eq, maxStrtblSize_eq, hlen, Off.pType, Off.pFlags, Off.pOffset, Off.pVaddr, Off.pPaddr,
    Off.pFilesz, Off.pMemsz, Off.ePhnum, Off.eShnum, Nat.reduceAdd, UInt64.reduceOfNat]
  rfl

section Built

variable (addrs : HeaderAddrs)

theorem built_shdrs : shdrView.At (programBytes addrs (bannerBytes addrs (tableBytes addrs
    (strtabBytes ehdrBytes)))) 64 (Image.initial addrs).shdrs := by
  have hshdrs : (Image.initial addrs).shdrs = [⟨0, 0, 0, 0⟩, ⟨1, 0, 24184, 3216⟩,
      ⟨9, addrs.table, 0, 0⟩, ⟨24, addrs.bannerVirt, 27400, 6⟩] := rfl
  rw [hshdrs]
  intro i hi
  have hcases : i = 0 ∨ i = 1 ∨ i = 2 ∨ i = 3 := by
    simp only [List.length_cons, List.length_nil] at hi
    omega
  rcases hcases with rfl | rfl | rfl | rfl
  all_goals
    simp (disch := decide) only [shdrView, shdrAt, programBytes, bannerBytes, tableBytes,
      strtabBytes, ehdrBytes, write64, write32, write16, Nat.reduceMul, Nat.reduceAdd,
      read64_writeLE, read64_writeLE_self, read64_writeBytes, read64_zero, read32_writeLE,
      read32_writeLE_self, read32_writeBytes, read32_zero, List.getElem_cons_zero,
      List.getElem_cons_succ, Off.shName, Off.shAddr, Off.shOffset, Off.shSize, Nat.add_zero]

theorem built_programs : phdrView.At (programBytes addrs (bannerBytes addrs (tableBytes addrs
    (strtabBytes ehdrBytes)))) 12928 (Image.initial addrs).programs := by
  have hprograms : (Image.initial addrs).programs =
      [⟨27400, addrs.bannerVirt, addrs.bannerPhys, 6, 6⟩] := rfl
  rw [hprograms]
  intro i hi
  obtain rfl : i = 0 := by
    rw [List.length_singleton] at hi
    omega
  simp (disch := decide) only [phdrView, phdrAt, programBytes, write64, write32, write16,
    Nat.reduceMul, Nat.reduceAdd, read64_writeLE, read64_writeLE_self, List.getElem_cons_zero,
    Off.pOffset, Off.pVaddr, Off.pPaddr, Off.pFilesz, Off.pMemsz]

theorem built_packed : Packed (programBytes addrs (bannerBytes addrs (tableBytes addrs
    (strtabBytes ehdrBytes)))) 24184 (Image.initial addrs).names := by
  have h1 : CStr.empty.strlen + 1 = 1 := rfl
  have h2 : (CStr.ofString "STR_TBL").strlen + 1 = 8 := by decide
  have h3 : (CStr.ofString "minidump_table").strlen + 1 = 15 := by decide
  have hzero : strEqAt (fun _ => (0 : UInt8)) 24184 CStr.empty.bytes = true := rfl
  have hnames : (Image.initial addrs).names = [CStr.empty, CStr.ofString "STR_TBL",
      CStr.ofString "minidump_table", CStr.ofString "linux_banner"] := rfl
  rw [hnames]
  simp only [Packed, h1, h2, h3, Nat.reduceAdd, and_true]
  simp (disch := decide) only [programBytes, bannerBytes, tableBytes, strtabBytes, ehdrBytes, write64,
    write32, write16, strEqAt_writeLE, strEqAt_writeBytes_disjoint, strEqAt_writeBytes, hzero, and_self]

/-- **The buffer as it is built** holds the four fixed sections and the banner's program
header. -/
theorem represents_buildHeader : Represents (buildHeader addrs) (Image.initial addrs) := by
  rw [buildHeader_eq]
  constructor
  · simp (disch := decide) only [programBytes, bannerBytes, tableBytes, strtabBytes, ehdrBytes,
      write64, write32, write16, read64_writeLE, read64_writeLE_self, read64_writeBytes]
  · simp (disch := decide) only [programBytes, bannerBytes, tableBytes, strtabBytes, ehdrBytes,
      write64, write32, write16, read64_writeLE, read64_writeLE_self, read64_writeBytes]
  · simp (disch := decide) only [programBytes, bannerBytes, tableBytes, strtabBytes, ehdrBytes,
      write64, write32, write16, read16_writeLE, read16_writeLE_self, read16_writeBytes]
  · simp only [eShnum, programBytes, write16, read16_writeLE_self]
    rfl
  · simp (disch := decide) only [ePhnum, programBytes, write16, read16_writeLE_self, read16_writeLE]
    rfl
  · simp [Image.initial]
  · simp [Image.initial]
  · rfl
  · exact built_shdrs addrs
  · exact built_programs addrs
  · exact built_packed addrs
  · intro s hs
    simp only [Image.initial, List.mem_cons, List.not_mem_nil, or_false] at hs
    rcases hs with rfl | rfl | rfl | rfl
    all_goals
      simp only
      decide
  · rfl
  · rfl

end Built

end SafelinuxDbg.Minidump
