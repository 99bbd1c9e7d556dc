import SafelinuxDbg.Lib.CString
import SafelinuxDbg.Lib.Records
import SafelinuxDbg.MemoryDump.SprTable

/-!
# The carve-out and its dump tables

`mem_dump_alloc` takes one piece of memory for everything that is to be dumped.  At its start are
two tables, the base table and the table of the applications processor; the base table has one
entry, which leads to the other table.  Behind them every child node of the device gets a header
and its data, and an entry in the second table.

The memory is a byte memory over virtual addresses.  Physical addresses are `u64`.
-/

namespace SafelinuxDbg.MemoryDump

open CMemory

/-! ## The tables -/

/-- `MAX_NUM_ENTRIES`. -/
abbrev maxNumEntries : Nat := 0x150
/-- `sizeof(struct msm_dump_entry)`: `id`, `name[32]`, `type` at 36, `addr` at 40. -/
abbrev dumpEntrySize : Nat := 48
/-- `sizeof(struct msm_dump_table)`: `version`, `num_entries` at 4, `entries` at 8. -/
abbrev dumpTableSize : Nat := 8 + dumpEntrySize * maxNumEntries
/-- `MSM_DUMP_DATA_SIZE`: `version`, `magic`, `name[32]` at 8, `addr` at 40, `len` at 48,
`reserved`, and padding. -/
abbrev dumpDataSize : Nat := 64

/-- `MSM_DUMP_TABLE_VERSION`. -/
def dumpTableVersion : UInt32 := 0x200000
/-- `MSM_DUMP_TABLE_APPS`. -/
def dumpTableApps : UInt32 := 0
/-- `MSM_DUMP_TYPE_DATA` and `MSM_DUMP_TYPE_TABLE`. -/
def dumpTypeData : UInt32 := 0
@[inherit_doc dumpTypeData] def dumpTypeTable : UInt32 := 1

/-- The fields of `struct msm_dump_entry` that are used. -/
structure MsmDumpEntry where
  id : UInt32
  type : UInt32
  addr : UInt64
deriving DecidableEq

/-- An entry in memory. -/
def entryView : RecordView MsmDumpEntry where
  stride := dumpEntrySize
  decode := fun m a => ⟨read32 m a, read32 m (a + 36), read64 m (a + 40)⟩
  decode_congr := by
    intro m m' a a' h
    have hid : read32 m a = read32 m' a' := read32_congr (fun k hk => h k (by
      show k < 48
      omega))
    have htype : read32 m (a + 36) = read32 m' (a' + 36) := read32_congr (fun k hk => by
      rw [Nat.add_assoc, Nat.add_assoc]
      exact h (36 + k) (by show 36 + k < 48; omega))
    have haddr : read64 m (a + 40) = read64 m' (a' + 40) := read64_congr (fun k hk => by
      rw [Nat.add_assoc, Nat.add_assoc]
      exact h (40 + k) (by show 40 + k < 48; omega))
    rw [hid, htype, haddr]

/-- `struct msm_memory_dump`: the base table and its physical address. -/
structure MsmMemoryDump where
  table : Nat
  tablePhys : UInt64

/-- Entry `i` of the table at `table`. -/
def entryAt (m : Nat → UInt8) (table i : Nat) : MsmDumpEntry :=
  entryView.decode m (table + 8 + dumpEntrySize * i)

/-- `num_entries` of the table at `table`. -/
def numEntries (m : Nat → UInt8) (table : Nat) : UInt32 := read32 m (table + 4)

/-- The end of `msm_dump_table_register` and of `register_dump_table_entry`: one more entry in the
table at `table`. -/
def addEntry (m : Nat → UInt8) (table : Nat) (entry : MsmDumpEntry) :
    Except Errno (Nat → UInt8) :=
  let num := numEntries m table
  if UInt32.ofNat maxNumEntries ≤ num then .error .EINVAL
  else
    let e := table + 8 + dumpEntrySize * num.toNat
    .ok (write32 (write64 (write32 (write32 m e entry.id) (e + 36) entry.type) (e + 40) entry.addr)
      (table + 4) (num + 1))

/-- `msm_dump_table_register`. -/
def msmDumpTableRegister (memdump : MsmMemoryDump) (m : Nat → UInt8) (id : UInt32)
    (addr : UInt64) : Except Errno (Nat → UInt8) :=
  addEntry m memdump.table ⟨id, dumpTypeTable, addr⟩

/-- `msm_dump_get_table`. -/
def msmDumpGetTable (memdump : MsmMemoryDump) (m : Nat → UInt8) (id : UInt32) :
    Except Errno Nat :=
  match (List.range maxNumEntries).find? (fun i => (entryAt m memdump.table i).id == id) with
  | none => .error .EINVAL
  | some i =>
    if (entryAt m memdump.table i).addr = 0 then .error .EINVAL
    else .ok (memdump.table + ((entryAt m memdump.table i).addr - memdump.tablePhys).toNat)

/-- `register_dump_table_entry`, which is also `msm_dump_data_register_nominidump`. -/
def registerDumpTableEntry (memdump : MsmMemoryDump) (m : Nat → UInt8) (table : UInt32)
    (id : UInt32) (addr : UInt64) : Except Errno (Nat → UInt8) :=
  match msmDumpGetTable memdump m table with
  | .error e => .error e
  | .ok table => addEntry m table ⟨id, dumpTypeData, addr⟩

/-- `init_memory_dump`. -/
def initMemoryDump (m : Nat → UInt8) (dumpVaddr : Nat) (physAddr : UInt64) :
    MsmMemoryDump × Except Errno (Nat → UInt8) :=
  let memdump : MsmMemoryDump := ⟨dumpVaddr, physAddr⟩
  let m := write32 m dumpVaddr dumpTableVersion
  let m := write32 m (dumpVaddr + dumpTableSize) dumpTableVersion
  (memdump, msmDumpTableRegister memdump m dumpTableApps (physAddr + UInt64.ofNat dumpTableSize))

/-! ## The children -/

/-- An available child node, with the properties that are read. -/
structure ChildNode where
  name : CStr
  /-- `qcom,dump-size` -/
  dumpSize : Option UInt32
  /-- `qcom,dump-id` -/
  dumpId : Option UInt32

/-- `CPUSS_REGDUMP`. -/
def cpussRegdump : UInt32 := 0xEF
/-- `SPR_DUMP_CPU0`; the other cores follow. -/
def sprDumpCpu0 : UInt32 := 0x1F0

/-- The driver data `cpuss_dump_data`, as far as buffers go: each one is an address and a size. -/
structure CpussDumpData where
  /-- whether the driver data has been allocated -/
  allocated : Bool
  cpussregdata : Option (Nat × UInt32)
  sprdata : Fin 8 → Option (Nat × UInt32)
  /-- the bits of the static variable `initialized` -/
  percoreRegInitialized : Bool
  sprsInitialized : Bool

/-- Which of the two calls of `devm_kzalloc` in `cpuss_dump_init` would succeed. -/
structure Kzalloc where
  driver : Bool
  buffer : Bool

/-- `cpuss_dump_init`, for one of the ids it is called with. -/
def cpussDumpInit (kzalloc : Kzalloc) (d : CpussDumpData) (dumpVaddr : Nat) (size id : UInt32) :
    CpussDumpData :=
  if d.allocated = false ∧ kzalloc.driver = false then d
  else
    let buffer := if kzalloc.buffer then some (dumpVaddr, size) else none
    if id = cpussRegdump then
      { d with
        allocated := true
        cpussregdata := buffer
        percoreRegInitialized := d.percoreRegInitialized || kzalloc.buffer }
    else
      { d with
        allocated := true
        sprdata := fun i => if UInt32.ofNat i.val = id - sprDumpCpu0 then buffer else d.sprdata i
        sprsInitialized := d.sprsInitialized || kzalloc.buffer }

/-- The cursors, the memory and the driver data in the second loop of `mem_dump_alloc`. -/
structure Carving where
  mem : Nat → UInt8
  dumpVaddr : Nat
  physAddr : UInt64
  cpudata : CpussDumpData

/-- `ALIGN(x, SZ_4K)`. -/
def align4K (x : UInt64) : UInt64 := (x + 4095) &&& 0xfffffffffffff000

/-- One round of the first loop of `mem_dump_alloc`, on the sum of the sizes and their number. -/
def addSize (acc : UInt64 × UInt64) (child : ChildNode) : UInt64 × UInt64 :=
  match child.dumpSize with
  | none => acc
  | some size => (acc.1 + size.toUInt64, acc.2 + 1)

/-- The first loop of `mem_dump_alloc`. -/
def sumSizes (children : List ChildNode) : UInt64 × UInt64 :=
  children.foldl addSize (UInt64.ofNat (dumpTableSize * 2), 0)

/-- `total_size`. -/
def totalSize (children : List ChildNode) : UInt64 :=
  align4K ((sumSizes children).1 + UInt64.ofNat dumpDataSize * (sumSizes children).2)

/-- One round of the second loop. -/
def Carving.child (memdump : MsmMemoryDump) (s : Carving) : ChildNode × Kzalloc → Carving
  | (child, kzalloc) =>
    match child.dumpSize, child.dumpId with
    | some size, some id =>
      let m := write64 s.mem (s.dumpVaddr + 40) (s.physAddr + UInt64.ofNat dumpDataSize)
      let m := write64 m (s.dumpVaddr + 48) size.toUInt64
      let m := (strscpyAt m (s.dumpVaddr + 8) child.name 32).1
      { mem :=
          -- an error is only reported
          match registerDumpTableEntry memdump m dumpTableApps id s.physAddr with
          | .ok m' => m'
          | .error _ => m
        dumpVaddr := s.dumpVaddr + (size.toNat + dumpDataSize)
        physAddr := s.physAddr + (size.toUInt64 + UInt64.ofNat dumpDataSize)
        cpudata :=
          if id = cpussRegdump ∨ (sprDumpCpu0 ≤ id ∧ id ≤ sprDumpCpu0 + 7) then
            cpussDumpInit kzalloc s.cpudata (s.dumpVaddr + dumpDataSize) size id
          else s.cpudata }
    | _, _ => s

/-- `reset_sprs_dump_table` for the buffer at `a`, byte by byte. -/
def resetSprBuffer (m : Nat → UInt8) : Nat × UInt32 → Nat → UInt8
  | (a, size) =>
    let m := memset m a size.toNat 0xDE
    let m := write32 m a inputDataByHlos
    let m := write32 m (a + 4) formatVersion1
    let m := write32 m (a + 8) systemRegsInputIndex
    let m := write32 m (a + 12) sprEmptySize
    memset m (a + 16) 8 0

/-- `reset_sprs_dump_table` for all cores that have a buffer. -/
def resetSprBuffers (m : Nat → UInt8) (sprdata : Fin 8 → Option (Nat × UInt32)) : Nat → UInt8 :=
  (List.finRange 8).foldl
    (fun m i =>
      match sprdata i with
      | none => m
      | some buffer => resetSprBuffer m buffer)
    m

/-- The second loop starts behind both tables, with no driver data. -/
def Carving.start (m : Nat → UInt8) (dumpVaddr : Nat) (physAddr : UInt64) : Carving where
  mem := m
  dumpVaddr := dumpVaddr + dumpTableSize * 2
  physAddr := physAddr + UInt64.ofNat (dumpTableSize * 2)
  cpudata := ⟨false, none, fun _ => none, false, false⟩

/-- `mem_dump_alloc`, once `dmam_alloc_coherent` has returned memory at `dumpVaddr` and `physAddr`.
`mem` is what is there before. -/
def memDumpAlloc (mem : Nat → UInt8) (dumpVaddr : Nat) (physAddr : UInt64)
    (children : List (ChildNode × Kzalloc)) : Except Errno (MsmMemoryDump × Carving) :=
  let m := memset mem dumpVaddr (totalSize (children.map Prod.fst)).toNat 0
  match initMemoryDump m dumpVaddr physAddr with
  | (_, .error e) => .error e
  | (memdump, .ok m) =>
    let s := children.foldl (Carving.child memdump) (Carving.start m dumpVaddr physAddr)
    .ok (memdump,
      { s with
        mem :=
          if s.cpudata.sprsInitialized then resetSprBuffers s.mem s.cpudata.sprdata
          else s.mem })

end SafelinuxDbg.MemoryDump
