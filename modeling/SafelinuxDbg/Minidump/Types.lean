import SafelinuxDbg.Lib.CString

/-!
# The data of the minidump driver

The structures of `minidump.h`, `minidump_private.h` and the static variables of
`msm_minidump.c`.  A pointer to a table is modelled by the table itself; where the code
tests such a pointer against `NULL` the model keeps a flag for it.  Arrays are functions
from the index, and addresses, sizes and SMEM words have their C widths.
-/

namespace SafelinuxDbg.Minidump

open CMemory

/-- The error numbers the driver returns; the code returns them negated. -/
inductive Errno
  | EINVAL | ENOENT | ENOMEM | EEXIST | EBUSY | ENODEV
deriving DecidableEq

/-! ## Constants -/

/-- `MAX_NUM_ENTRIES`: `CONFIG_MINIDUMP_MAX_ENTRIES + 1`. -/
def maxNumEntries : Nat := 200 + 1

/-- `MAX_REGION_NAME_LENGTH`, with the terminating NUL. -/
def maxRegionNameLength : Nat := 16

/-- `MAX_STRTBL_SIZE`. -/
def maxStrtblSize : Nat := maxNumEntries * maxRegionNameLength

/-- `MD_REGION_VALID`: the bytes `VALI`. -/
def mdRegionValid : UInt32 := 0x56414C49

/-- `MD_SS_ENABLED`: the bytes `ENBL`. -/
def mdSsEnabled : UInt32 := 0x454E424C

/-- `MD_SS_ENCR_DONE`: the bytes `DONE`. -/
def mdSsEncrDone : UInt32 := 0x444F4E45

/-- `MD_SS_ENCR_NOTREQ`: the bytes `NR`. -/
def mdSsEncrNotreq : UInt32 := 0x00004E52

/-- `INT_MAX`. -/
def intMax : Nat := 2 ^ 31 - 1

/-- The build option the driver's limits depend on. -/
structure Config where
  /-- `CONFIG_ARCH_QTI_VM` -/
  archQtiVm : Bool

/-- `MAX_NAME_LENGTH`, without the terminating NUL. -/
def Config.maxNameLength (cfg : Config) : Nat := if cfg.archQtiVm then 9 else 12

theorem Config.maxNameLength_le (cfg : Config) : cfg.maxNameLength ≤ 12 := by
  rw [Config.maxNameLength]
  split <;> omega

theorem Config.le_maxNameLength (cfg : Config) : 9 ≤ cfg.maxNameLength := by
  rw [Config.maxNameLength]
  split <;> omega

@[simp] theorem maxNumEntries_eq : maxNumEntries = 201 := rfl

@[simp] theorem maxRegionNameLength_eq : maxRegionNameLength = 16 := rfl

@[simp] theorem maxStrtblSize_eq : maxStrtblSize = 3216 := rfl

/-! ## Structures -/

/-- `struct md_region`: what a client asks to be dumped. -/
structure MdRegion where
  name : CStr
  id : UInt32
  virtAddr : UInt64
  physAddr : UInt64
  size : UInt64
deriving DecidableEq

/-- A `struct md_region` of zero bytes. -/
def MdRegion.zero : MdRegion := ⟨CStr.empty, 0, 0, 0, 0⟩

/-- `struct md_ss_region`: one record of the table the boot loader reads. -/
structure MdSsRegion where
  name : CStr
  seqNum : UInt32
  mdValid : UInt32
  regionBaseAddress : UInt64
  regionSize : UInt64
deriving DecidableEq

/-- A `struct md_ss_region` of zero bytes. -/
def MdSsRegion.zero : MdSsRegion := ⟨CStr.empty, 0, 0, 0, 0⟩

/-- `struct md_ss_toc`: the table of contents of this subsystem in SMEM. -/
structure MdSsToc where
  mdSsTocInit : UInt32
  mdSsEnableStatus : UInt32
  encryptionStatus : UInt32
  encryptionRequired : UInt32
  ssRegionCount : Nat
  mdSsSmemRegionsBaseptr : UInt64

/-- `struct md_rm_region`: one entry of the table kept for the resource manager.  A slot number
is `0` or what the resource manager returned, a positive `int`. -/
structure MdRmRegion where
  name : CStr
  slotNum : Nat
deriving DecidableEq

/-- A `struct md_rm_region` of zero bytes. -/
def MdRmRegion.zero : MdRmRegion := ⟨CStr.empty, 0⟩

/-- `enum minidump_entry_cmd`. -/
inductive MinidumpEntryCmd
  | minidumpAdd | minidumpRemove | minidumpUpdate | minidumpNoCmd
deriving DecidableEq

/-- `struct md_rm_request`: one piece of work for the resource manager's queue. -/
structure MdRmRequest where
  entry : MdRegion
  workCmd : MinidumpEntryCmd
deriving DecidableEq

/-- `struct md_table`. -/
structure MdTable where
  /-- `minidump_table && minidump_table->md_ss_toc` -/
  tocMapped : Bool
  revision : UInt32
  mdSsToc : MdSsToc
  mdRegions : Nat → MdSsRegion
  entry : Nat → MdRegion

/-- `struct md_rm_table`, with the requests its work queue still holds, oldest first. -/
structure MdRmTable where
  /-- `minidump_rm_table != NULL` -/
  allocated : Bool
  minidumpRmWq : List MdRmRequest
  entry : Nat → MdRmRegion

/-- `struct md_elfhdr`: the bytes of the header buffer `ehdr` points to and the two cursors. -/
structure MdElfhdr where
  ehdr : Nat → UInt8
  elfOffset : UInt64
  strtableIdx : UInt64

/-- The static variables of `msm_minidump.c`. -/
structure Driver where
  minidumpTable : MdTable
  minidumpRmTable : MdRmTable
  minidumpElfheader : MdElfhdr
  firstRemovedEntry : Nat
  mdInitDone : Bool
  numRegions : Nat
  isRmMinidump : Bool
  pendingList : List MdRegion

/-- The module as it is loaded, before its driver is probed. -/
def Driver.initial : Driver where
  minidumpTable :=
    { tocMapped := false
      revision := 0
      mdSsToc := ⟨0, 0, 0, 0, 0, 0⟩
      mdRegions := fun _ => MdSsRegion.zero
      entry := fun _ => MdRegion.zero }
  minidumpRmTable := ⟨false, [], fun _ => MdRmRegion.zero⟩
  minidumpElfheader := ⟨fun _ => 0, 0, 0⟩
  firstRemovedEntry := intMax
  mdInitDone := false
  numRegions := 0
  isRmMinidump := false
  pendingList := []

end SafelinuxDbg.Minidump
