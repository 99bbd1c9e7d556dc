import SafelinuxDbg.Lib.Records
import SafelinuxDbg.Minidump.Types

/-!
# The ELF header buffer

The driver describes every region in one buffer that a dump parser reads as an ELF core
file: the ELF header, an array of section headers, an array of program headers, a string
table and a banner.  The functions here are those of `elf.h` and the part of
`msm_minidump.c` that edits the buffer, on the bytes of the buffer.  An address is an
offset into the buffer, so the section headers, the program headers and the string table
share one memory and a header stored past its array lands in the next one, as in the code.
-/

namespace SafelinuxDbg.Minidump

open CMemory

/-! ## Layout of the ELF structures -/

namespace Off

/-- Offsets of the fields of `Elf64_Ehdr`. -/
abbrev eType : Nat := 16
@[inherit_doc eType] abbrev eMachine : Nat := 18
@[inherit_doc eType] abbrev eVersion : Nat := 20
@[inherit_doc eType] abbrev ePhoff : Nat := 32
@[inherit_doc eType] abbrev eShoff : Nat := 40
@[inherit_doc eType] abbrev eEhsize : Nat := 52
@[inherit_doc eType] abbrev ePhentsize : Nat := 54
@[inherit_doc eType] abbrev ePhnum : Nat := 56
@[inherit_doc eType] abbrev eShentsize : Nat := 58
@[inherit_doc eType] abbrev eShnum : Nat := 60
@[inherit_doc eType] abbrev eShstrndx : Nat := 62

/-- Offsets of the fields of `Elf64_Shdr`. -/
abbrev shName : Nat := 0
@[inherit_doc shName] abbrev shType : Nat := 4
@[inherit_doc shName] abbrev shFlags : Nat := 8
@[inherit_doc shName] abbrev shAddr : Nat := 16
@[inherit_doc shName] abbrev shOffset : Nat := 24
@[inherit_doc shName] abbrev shSize : Nat := 32
@[inherit_doc shName] abbrev shEntsize : Nat := 56

/-- Offsets of the fields of `Elf64_Phdr`. -/
abbrev pType : Nat := 0
@[inherit_doc pType] abbrev pFlags : Nat := 4
@[inherit_doc pType] abbrev pOffset : Nat := 8
@[inherit_doc pType] abbrev pVaddr : Nat := 16
@[inherit_doc pType] abbrev pPaddr : Nat := 24
@[inherit_doc pType] abbrev pFilesz : Nat := 32
@[inherit_doc pType] abbrev pMemsz : Nat := 40

end Off

def sizeofEhdr : Nat := 64
def sizeofShdr : Nat := 64
def sizeofPhdr : Nat := 56

/-- `linux_banner`. -/
def linuxBanner : CStr := CStr.ofString "Linux"

/-- The size of the header buffer, `elfh_size`, rounded up to a multiple of 4. -/
def elfhSize : Nat :=
  let size := sizeofEhdr + maxStrtblSize + (linuxBanner.strlen + 1) +
    (sizeofShdr + sizeofPhdr) * (maxNumEntries + 4)
  (size + 3) / 4 * 4

/-- `phdr_off`, where the program headers start. -/
def phdrOff : Nat := sizeofEhdr + sizeofShdr * maxNumEntries

/-- `strtbl_off`, where the string table starts. -/
def strtblOff : Nat := sizeofEhdr + (sizeofPhdr + sizeofShdr) * maxNumEntries

@[simp] theorem elfhSize_eq : elfhSize = 27888 := by decide

@[simp] theorem phdrOff_eq : phdrOff = 12928 := rfl

@[simp] theorem strtblOff_eq : strtblOff = 24184 := rfl

/-! ## Access -/

/-- An `int` converted to `u64`, as in a comparison of the two: the sign is extended. -/
def intToU64 (n : UInt32) : UInt64 :=
  if n.toNat < 2 ^ 31 then UInt64.ofNat n.toNat else UInt64.ofNat (n.toNat + (2 ^ 64 - 2 ^ 32))

/-- `elf_sheader`. -/
def elfSheader (hdr : Nat → UInt8) : Nat := (read64 hdr Off.eShoff).toNat

/-- `elf_section`. -/
def elfSection (hdr : Nat → UInt8) (idx : Nat) : Nat := elfSheader hdr + sizeofShdr * idx

/-- `elf_pheader`. -/
def elfPheader (hdr : Nat → UInt8) : Nat := (read64 hdr Off.ePhoff).toNat

/-- `elf_program`. -/
def elfProgram (hdr : Nat → UInt8) (idx : Nat) : Nat := elfPheader hdr + sizeofPhdr * idx

/-- `hdr->e_shnum`. -/
def eShnum (hdr : Nat → UInt8) : Nat := (read16 hdr Off.eShnum).toNat

/-- `hdr->e_phnum`. -/
def ePhnum (hdr : Nat → UInt8) : Nat := (read16 hdr Off.ePhnum).toNat

/-- `elf_str_table`; `none` is the `NULL` it returns when there is no string table. -/
def elfStrTable (hdr : Nat → UInt8) : Option Nat :=
  let shstrndx := (read16 hdr Off.eShstrndx).toNat
  if shstrndx = 0 then none
  else some (read64 hdr (elfSection hdr shstrndx + Off.shOffset)).toNat

/-- `elf_lookup_string`. -/
def elfLookupString (h : MdElfhdr) (offset : UInt32) : Option Nat :=
  match elfStrTable h.ehdr with
  | none => none
  | some strtab => if h.strtableIdx < intToU64 offset then none else some (strtab + offset.toNat)

namespace MdElfhdr

/-- A store through `ehdr`. -/
def store16 (h : MdElfhdr) (a : Nat) (v : UInt16) : MdElfhdr := { h with ehdr := write16 h.ehdr a v }

@[inherit_doc store16]
def store32 (h : MdElfhdr) (a : Nat) (v : UInt32) : MdElfhdr := { h with ehdr := write32 h.ehdr a v }

@[inherit_doc store16]
def store64 (h : MdElfhdr) (a : Nat) (v : UInt64) : MdElfhdr := { h with ehdr := write64 h.ehdr a v }

end MdElfhdr

/-! ## Adding and updating a region -/

/-- `set_section_name`: append a name to the string table and return where it starts. -/
def setSectionName (name : CStr) (h : MdElfhdr) : MdElfhdr × UInt32 :=
  match elfStrTable h.ehdr with
  | none => (h, 0)
  | some strtab =>
    let idx := h.strtableIdx.toNat
    let copied := strscpyAt h.ehdr (strtab + idx) name maxRegionNameLength
    ({ h with
        ehdr := copied.1
        strtableIdx := UInt64.ofNat ((idx : Int) + copied.2 + 1).toNat },
      UInt32.ofNat idx)

/-- `md_add_elf_header`. -/
def mdAddElfHeader (entry : MdRegion) (h : MdElfhdr) : MdElfhdr :=
  let shdr := elfSection h.ehdr (eShnum h.ehdr)
  let h := h.store16 Off.eShnum (read16 h.ehdr Off.eShnum + 1)
  let phdr := elfProgram h.ehdr (ePhnum h.ehdr)
  let h := h.store16 Off.ePhnum (read16 h.ehdr Off.ePhnum + 1)
  -- SHT_PROGBITS
  let h := h.store32 (shdr + Off.shType) 1
  let named := setSectionName entry.name h
  let h := named.1.store32 (shdr + Off.shName) named.2
  let h := h.store64 (shdr + Off.shAddr) entry.virtAddr
  let h := h.store64 (shdr + Off.shSize) entry.size
  -- SHF_WRITE
  let h := h.store64 (shdr + Off.shFlags) 1
  let h := h.store64 (shdr + Off.shOffset) h.elfOffset
  let h := h.store64 (shdr + Off.shEntsize) 0
  -- PT_LOAD
  let h := h.store32 (phdr + Off.pType) 1
  let h := h.store64 (phdr + Off.pOffset) h.elfOffset
  let h := h.store64 (phdr + Off.pVaddr) entry.virtAddr
  let h := h.store64 (phdr + Off.pPaddr) entry.physAddr
  let h := h.store64 (phdr + Off.pMemsz) entry.size
  let h := h.store64 (phdr + Off.pFilesz) entry.size
  -- PF_R | PF_W
  let h := h.store32 (phdr + Off.pFlags) 6
  { h with elfOffset := h.elfOffset + read64 h.ehdr (shdr + Off.shSize) }

/-- `md_update_elf_header`. -/
def mdUpdateElfHeader (entryno : Nat) (entry : MdRegion) (h : MdElfhdr) : MdElfhdr :=
  let shdr := elfSection h.ehdr (entryno + 4)
  let phdr := elfProgram h.ehdr (entryno + 1)
  let h := h.store64 (shdr + Off.shAddr) entry.virtAddr
  let h := h.store64 (phdr + Off.pVaddr) entry.virtAddr
  h.store64 (phdr + Off.pPaddr) entry.physAddr

/-! ## Removing a region -/

/-- The first loop of `msm_minidump_clear_headers`: the first program header with the
entry's physical address and size. -/
def clearFindProgram (entry : MdRegion) (h : MdElfhdr) : Option Nat :=
  (List.range (ePhnum h.ehdr)).find? (fun i =>
    read64 h.ehdr (elfProgram h.ehdr i + Off.pPaddr) == entry.physAddr &&
      read64 h.ehdr (elfProgram h.ehdr i + Off.pMemsz) == entry.size)

/-- Whether section `i` has the entry's name, address and size. -/
def sectionMatches (entry : MdRegion) (h : MdElfhdr) (i : Nat) : Bool :=
  match elfLookupString h (read32 h.ehdr (elfSection h.ehdr i + Off.shName)) with
  | none => false
  | some shname =>
    strEqAt h.ehdr shname entry.name.bytes &&
      (read64 h.ehdr (elfSection h.ehdr i + Off.shAddr) == entry.virtAddr &&
        read64 h.ehdr (elfSection h.ehdr i + Off.shSize) == entry.size)

/-- The second loop of `msm_minidump_clear_headers`: the first section with the entry's
name, address and size. -/
def clearFindSection (entry : MdRegion) (h : MdElfhdr) : Option Nat :=
  (List.range (eShnum h.ehdr)).find? (sectionMatches entry h)

/-- The checks of `msm_minidump_clear_headers`: the program header and the section it goes on
to remove, or `none` where it returns `-EINVAL`. -/
def clearLookup (entry : MdRegion) (h : MdElfhdr) : Option (Nat × Nat) :=
  match clearFindProgram entry h with
  | none => none
  | some pidx =>
    match clearFindSection entry h with
    | none => none
    | some shidx =>
      if read64 h.ehdr (elfSection h.ehdr shidx + Off.shOffset) =
          read64 h.ehdr (elfProgram h.ehdr pidx + Off.pOffset) then some (pidx, shidx)
      else none

/-- Clear name in string table. -/
def clearName (shidx : Nat) (h : MdElfhdr) : MdElfhdr :=
  let off := read32 h.ehdr (elfSection h.ehdr shidx + Off.shName)
  let shname := (elfLookupString h off).getD 0
  let strln := strlenAt h.ehdr shname elfhSize + 1
  { h with
    ehdr := memmove h.ehdr shname (shname + strln) (h.strtableIdx - UInt64.ofNat off.toNat).toNat
    strtableIdx := h.strtableIdx - UInt64.ofNat strln }

/-- One step of the loop that moves the program headers down. -/
def shiftProgram (esize : UInt64) (hdr : Nat → UInt8) (i : Nat) : Nat → UInt8 :=
  let phdr := elfProgram hdr i
  let copied := memmove hdr phdr (elfProgram hdr (i + 1)) sizeofPhdr
  write64 copied (phdr + Off.pOffset) (read64 copied (phdr + Off.pOffset) - esize)

/-- Clear program header: the headers after `pidx` move down and the last one is zeroed. -/
def clearProgram (pidx : Nat) (esize : UInt64) (hdr : Nat → UInt8) : Nat → UInt8 :=
  let moved := shiftDown (shiftProgram esize) pidx (ePhnum hdr - 1 - pidx) hdr
  let zeroed := memset moved (elfProgram moved (ePhnum moved - 1)) sizeofPhdr 0
  write16 zeroed Off.ePhnum (read16 zeroed Off.ePhnum - 1)

/-- One step of the loop that moves the section headers down. -/
def shiftSection (esize : UInt64) (strln : UInt32) (hdr : Nat → UInt8) (i : Nat) : Nat → UInt8 :=
  let shdr := elfSection hdr i
  let copied := memmove hdr shdr (elfSection hdr (i + 1)) sizeofShdr
  let moved := write64 copied (shdr + Off.shOffset) (read64 copied (shdr + Off.shOffset) - esize)
  write32 moved (shdr + Off.shName) (read32 moved (shdr + Off.shName) - strln)

/-- Clear section header: the headers after `shidx` move down and the last one is zeroed. -/
def clearSection (shidx : Nat) (esize : UInt64) (strln : UInt32) (hdr : Nat → UInt8) :
    Nat → UInt8 :=
  let moved := shiftDown (shiftSection esize strln) shidx (eShnum hdr - 1 - shidx) hdr
  let zeroed := memset moved (elfSection moved (eShnum moved - 1)) sizeofShdr 0
  write16 zeroed Off.eShnum (read16 zeroed Off.eShnum - 1)

/-- `msm_minidump_clear_headers`. -/
def msmMinidumpClearHeaders (entry : MdRegion) (h : MdElfhdr) : MdElfhdr × Except Errno Unit :=
  match clearLookup entry h with
  | none => (h, .error .EINVAL)
  | some (pidx, shidx) =>
    let strln := strlenAt h.ehdr
      ((elfLookupString h (read32 h.ehdr (elfSection h.ehdr shidx + Off.shName))).getD 0) elfhSize + 1
    let h := clearName shidx h
    let hdr := clearProgram pidx entry.size h.ehdr
    let hdr := clearSection shidx entry.size (UInt32.ofNat strln) hdr
    ({ h with ehdr := hdr, elfOffset := h.elfOffset - entry.size }, .ok ())

/-! ## Building the buffer -/

/-- The addresses that `msm_minidump_add_header` writes into the buffer. -/
structure HeaderAddrs where
  /-- `minidump_table`, or `minidump_rm_table` when the resource manager is used -/
  table : UInt64
  /-- `linux_banner` -/
  bannerVirt : UInt64
  /-- `virt_to_phys(linux_banner)` -/
  bannerPhys : UInt64

/-- The ELF header proper: `e_ident` and the fields that stay as they are. -/
def headerEhdr (h : MdElfhdr) : MdElfhdr :=
  -- ELFMAG, ELFCLASS64, ELFDATA2LSB, EV_CURRENT, ELFOSABI_NONE
  let h := { h with ehdr := writeBytes h.ehdr 0 [0x7f, 0x45, 0x4c, 0x46, 2, 1, 1, 0] }
  -- ET_CORE, EM_AARCH64, EV_CURRENT
  let h := h.store16 Off.eType 4
  let h := h.store16 Off.eMachine 183
  let h := h.store32 Off.eVersion 1
  let h := h.store16 Off.eEhsize (UInt16.ofNat sizeofEhdr)
  let h := h.store64 Off.ePhoff (UInt64.ofNat phdrOff)
  let h := h.store16 Off.ePhentsize (UInt16.ofNat sizeofPhdr)
  let h := h.store64 Off.eShoff (UInt64.ofNat sizeofEhdr)
  let h := h.store16 Off.eShentsize (UInt16.ofNat sizeofShdr)
  h.store16 Off.eShstrndx 1

/-- The 2nd section is the string table. -/
def headerStrtab (h : MdElfhdr) : MdElfhdr :=
  let shdr := sizeofEhdr + sizeofShdr
  -- SHT_STRTAB
  let h := h.store32 (shdr + Off.shType) 3
  let h := h.store64 (shdr + Off.shOffset) (UInt64.ofNat strtblOff)
  let h := h.store64 (shdr + Off.shSize) (UInt64.ofNat maxStrtblSize)
  let h := h.store64 (shdr + Off.shEntsize) 0
  let h := h.store64 (shdr + Off.shFlags) 0
  let named := setSectionName (CStr.ofString "STR_TBL") h
  named.1.store32 (shdr + Off.shName) named.2

/-- The 3rd section is for the table's virtual address, used by parsers. -/
def headerTable (addrs : HeaderAddrs) (h : MdElfhdr) : MdElfhdr :=
  let shdr := sizeofEhdr + sizeofShdr * 2
  let h := h.store32 (shdr + Off.shType) 1
  let h := h.store64 (shdr + Off.shEntsize) 0
  let h := h.store64 (shdr + Off.shFlags) 0
  let h := h.store64 (shdr + Off.shAddr) addrs.table
  let named := setSectionName (CStr.ofString "minidump_table") h
  named.1.store32 (shdr + Off.shName) named.2

/-- The 4th section is the linux banner, placed behind the string table. -/
def headerBanner (addrs : HeaderAddrs) (h : MdElfhdr) : MdElfhdr :=
  let shdr := sizeofEhdr + sizeofShdr * 3
  let banner := strtblOff + maxStrtblSize
  let h := { h with ehdr := (strscpyAt h.ehdr banner linuxBanner maxStrtblSize).1 }
  let h := h.store32 (shdr + Off.shType) 1
  let h := h.store64 (shdr + Off.shOffset) (UInt64.ofNat banner)
  let h := h.store64 (shdr + Off.shSize) (UInt64.ofNat (linuxBanner.strlen + 1))
  let h := h.store64 (shdr + Off.shAddr) addrs.bannerVirt
  let h := h.store64 (shdr + Off.shEntsize) 0
  let h := h.store64 (shdr + Off.shFlags) 1
  let named := setSectionName (CStr.ofString "linux_banner") h
  named.1.store32 (shdr + Off.shName) named.2

/-- The program header of the banner, and the header counts. -/
def headerProgram (addrs : HeaderAddrs) (h : MdElfhdr) : MdElfhdr :=
  let phdr := phdrOff
  let h := h.store32 (phdr + Off.pType) 1
  let h := h.store64 (phdr + Off.pOffset) (UInt64.ofNat (strtblOff + maxStrtblSize))
  let h := h.store64 (phdr + Off.pVaddr) addrs.bannerVirt
  let h := h.store64 (phdr + Off.pPaddr) addrs.bannerPhys
  let h := h.store64 (phdr + Off.pMemsz) (UInt64.ofNat (linuxBanner.strlen + 1))
  let h := h.store64 (phdr + Off.pFilesz) (UInt64.ofNat (linuxBanner.strlen + 1))
  let h := h.store32 (phdr + Off.pFlags) 6
  let h := h.store16 Off.ePhnum 1
  h.store16 Off.eShnum 4

/-- What `msm_minidump_add_header` builds in the freshly allocated, zeroed buffer. -/
def buildHeader (addrs : HeaderAddrs) : MdElfhdr :=
  let h := headerEhdr ⟨fun _ => 0, 0, 0⟩
  let h := { h with elfOffset := UInt64.ofNat elfhSize, strtableIdx := 1 }
  headerProgram addrs (headerBanner addrs (headerTable addrs (headerStrtab h)))

end SafelinuxDbg.Minidump
