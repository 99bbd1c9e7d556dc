import SafelinuxDbg.Lib.Blocks

/-!
# The register dump table

At a crash the firmware walks a table of registers and writes what it reads behind the table.
`memory_dump_v2.c` builds the table from what is written to sysfs: four header words, a fixed
number of places for per-core registers, and a list of system registers that grows.  The functions
here are `update_reg_dump_table`, `core_reg_num_store`, `register_config_store` and
`register_reset_store`.

The buffer is a memory of words.  A handler returns the words it stores next to the new data, so
that one can ask where they are.
-/

namespace SafelinuxDbg.MemoryDump

open CMemory

/-- The error numbers the handlers return; the code returns them negated. -/
inductive Errno
  | EINVAL | ENOMEM | EPERM
deriving DecidableEq

/-! ## Constants -/

/-- `INPUT_DATA_BY_HLOS`, the magic number of the header. -/
def inputDataByHlos : UInt32 := 0x00C0FFEE
/-- `FORMAT_VERSION_2`. -/
def formatVersion2 : UInt32 := 2
/-- `CORE_REG_NUM_DEFAULT`. -/
def coreRegNumDefault : UInt32 := 1

/-- The word indices `SYS_REG_INPUT_INDEX`, `OUTPUT_DUMP_INDEX`, `PERCORE_INDEX` and
`SYSTEM_REGS_INPUT_INDEX`. -/
abbrev sysRegInputIndex : Nat := 2
@[inherit_doc sysRegInputIndex] abbrev outputDumpIndex : Nat := 3
@[inherit_doc sysRegInputIndex] abbrev percoreIndex : Nat := 4
@[inherit_doc sysRegInputIndex] abbrev systemRegsInputIndex : UInt32 := 5

/-- `CMD_READ_WORD`, `CMD_WRITE` and `CMD_EXTRA`, the low two bits of an entry's first word. -/
def cmdReadWord : UInt32 := 1
@[inherit_doc cmdReadWord] def cmdWrite : UInt32 := 2
@[inherit_doc cmdReadWord] def cmdExtra : UInt32 := 3

/-- `CMD_REPEAT_READ` and `CMD_DELAY`, the high byte of the second word of a `CMD_EXTRA` entry. -/
def cmdRepeatRead : UInt32 := 0x02000000
@[inherit_doc cmdRepeatRead] def cmdDelay : UInt32 := 0x01000000

/-- `MAX_EXTRA_VALUE`. -/
def maxExtraValue : UInt32 := 0xffffff

/-- The word that `memset` with `0xDE` leaves. -/
def fillWord : UInt32 := 0xDEDEDEDE

/-! ## The data -/

/-- `struct cpuss_regdump_data`. -/
structure CpussRegdumpData where
  /-- the words at `dump_vaddr` -/
  dumpVaddr : Nat → UInt32
  size : UInt32
  coreRegNum : UInt32
  coreRegUsedNum : UInt32
  coreRegEndIndex : UInt32
  sysRegSize : UInt32
  usedMemory : UInt32

/-- What a handler leaves behind. -/
structure Outcome where
  data : CpussRegdumpData
  /-- the blocks of words stored, in order -/
  stores : List (Nat × List UInt32)
  result : Except Errno Unit

/-- A handler that fails before it changes anything. -/
def Outcome.refuse (e : Errno) (d : CpussRegdumpData) : Outcome := ⟨d, [], .error e⟩

/-- A handler that stores some blocks and leaves the other fields as in `d`. -/
def Outcome.accept (d : CpussRegdumpData) (stores : List (Nat × List UInt32)) : Outcome :=
  ⟨{ d with dumpVaddr := storeAll d.dumpVaddr stores }, stores, .ok ()⟩

/-- `cpuss_regdump_init`, with the buffer that `mem_dump_alloc` has cleared. -/
def cpussRegdumpInit (size : UInt32) : CpussRegdumpData := ⟨fun _ => 0, size, 0, 0, 0, 0, 0⟩

/-! ## Setting the table up -/

/-- `update_reg_dump_table`.  Where `size` is not a multiple of 4, the last bytes of the fill are
not part of any word. -/
def updateRegDumpTable (coreRegNum : UInt32) (d : CpussRegdumpData) : Outcome :=
  let systemRegsInput := systemRegsInputIndex + coreRegNum * 2
  let regdumpOutputByteOffset := (systemRegsInput + 1) * 4
  if d.size ≤ regdumpOutputByteOffset ∨ regdumpOutputByteOffset / 4 < systemRegsInput + 1 then
    .refuse .ENOMEM d
  else
    .accept
      { d with
        coreRegNum := coreRegNum
        coreRegUsedNum := 0
        coreRegEndIndex := UInt32.ofNat percoreIndex
        sysRegSize := 0
        usedMemory := regdumpOutputByteOffset }
      [(0, List.replicate (d.size.toNat / 4) fillWord),
        (0, [inputDataByHlos, formatVersion2, systemRegsInput, regdumpOutputByteOffset]),
        (percoreIndex, List.replicate (systemRegsInput - UInt32.ofNat percoreIndex + 1).toNat 0)]

/-- The first locked part of `core_reg_num_store`: the result where it returns, or `none` where it
goes on to `update_reg_dump_table`. -/
def coreRegNumCheck (val : UInt32) (d : CpussRegdumpData) : Option (Except Errno Unit) :=
  if d.coreRegUsedNum ≠ 0 ∨ d.sysRegSize ≠ 0 then some (.error .EPERM)
  else if val = d.coreRegNum then some (.ok ())
  else none

/-- `register_reset_store` of the parsed value.  The result of `update_reg_dump_table` is not
looked at. -/
def registerResetStore (val : UInt32) (d : CpussRegdumpData) : Outcome :=
  if val ≠ 1 then .refuse .EINVAL d
  else { updateRegDumpTable coreRegNumDefault d with result := .ok () }

/-! ## Adding a register -/

/-- What `sscanf(buf, "%x %x %c %u", ...)` finds. -/
inductive Scanned
  /-- less than two fields -/
  | few
  | two (registerOffset val : UInt32)
  | three (registerOffset val : UInt32) (cmd : Char)
  | four (registerOffset val : UInt32) (cmd : Char) (perCore : UInt32)

/-- A line that was written to `register_config`. -/
structure RegisterConfig where
  registerOffset : UInt32
  val : UInt32
  cmd : Char
  perCore : UInt32

/-- The fields with their defaults. -/
def Scanned.config : Scanned → Option RegisterConfig
  | few => none
  | two registerOffset val => some ⟨registerOffset, val, 'r', 0⟩
  | three registerOffset val cmd => some ⟨registerOffset, val, cmd, 0⟩
  | four registerOffset val cmd perCore => some ⟨registerOffset, val, cmd, perCore⟩

/-- The checks on the fields, and `reserve_size`. -/
def RegisterConfig.reserveSize (c : RegisterConfig) : Except Errno UInt32 :=
  if 1 < c.perCore then .error .EINVAL
  else if c.registerOffset &&& 3 ≠ 0 then .error .EINVAL
  else if c.cmd = 'r' ∨ c.cmd = 'R' then
    if c.val = 0 then .error .EINVAL
    else if c.cmd = 'r' ∧ c.val &&& 3 ≠ 0 then .error .EINVAL
    else if c.cmd = 'R' then .ok (c.val * 4)
    else .ok c.val
  else .ok 4

/-- `config_cpuss_register`: the block it stores at `index`. -/
def configCpussRegister (index : UInt32) (cmd : Char) (registerOffset val : UInt32) :
    Except Errno (Nat × List UInt32) :=
  if cmd = 'r' then
    if 4 < val then .ok (index.toNat, [registerOffset, val])
    else .ok (index.toNat, [registerOffset ||| cmdReadWord])
  else if cmd = 'R' then
    if maxExtraValue < val then .error .EINVAL
    else .ok (index.toNat, [registerOffset ||| cmdExtra, val ||| cmdRepeatRead])
  else if cmd = 'd' then
    if maxExtraValue < val then .error .EINVAL
    else .ok (index.toNat, [cmdExtra, val ||| cmdDelay])
  else if cmd = 'w' then .ok (index.toNat, [registerOffset ||| cmdWrite, val])
  else .error .EINVAL

/-- `used_memory` after a per-core register, where there is enough. -/
def percoreMemory (numCores reserveSize : UInt32) (d : CpussRegdumpData) : Option UInt32 :=
  let extraMemory := reserveSize * numCores
  let usedMemory := d.usedMemory + extraMemory
  if extraMemory / numCores < reserveSize ∨ d.size < usedMemory ∨ usedMemory < d.usedMemory then
    none
  else some usedMemory

/-- `used_memory` after a system register, where there is enough. -/
def systemMemory (cmd : Char) (reserveSize : UInt32) (d : CpussRegdumpData) : Option UInt32 :=
  let extraMemory := if cmd = 'r' ∧ reserveSize = 4 then 4 + reserveSize else 8 + reserveSize
  let usedMemory := d.usedMemory + extraMemory
  if extraMemory < reserveSize ∨ d.size < usedMemory ∨ usedMemory < d.usedMemory then none
  else some usedMemory

/-- The number of words `register_config_store` counts for an entry. -/
def RegisterConfig.wordCount (c : RegisterConfig) : UInt32 :=
  if c.cmd = 'r' ∧ c.val = 4 then 1 else 2

/-- The locked part of `register_config_store` for a per-core register. -/
def storePercore (numCores reserveSize : UInt32) (c : RegisterConfig) (d : CpussRegdumpData) :
    Outcome :=
  if d.coreRegUsedNum = d.coreRegNum then .refuse .EINVAL d
  else
    match percoreMemory numCores reserveSize d with
    | none => .refuse .ENOMEM d
    | some usedMemory =>
      match configCpussRegister d.coreRegEndIndex c.cmd c.registerOffset c.val with
      | .error e => .refuse e d
      | .ok block =>
        .accept
          { d with
            coreRegEndIndex := d.coreRegEndIndex + c.wordCount
            coreRegUsedNum := d.coreRegUsedNum + 1
            usedMemory := usedMemory } [block]

/-- `system_reg_end_index`. -/
def CpussRegdumpData.systemRegEndIndex (d : CpussRegdumpData) : UInt32 :=
  d.dumpVaddr sysRegInputIndex + d.sysRegSize / 4

/-- The locked part of `register_config_store` for a system register. -/
def storeSystem (reserveSize : UInt32) (c : RegisterConfig) (d : CpussRegdumpData) : Outcome :=
  match systemMemory c.cmd reserveSize d with
  | none => .refuse .ENOMEM d
  | some usedMemory =>
    match configCpussRegister d.systemRegEndIndex c.cmd c.registerOffset c.val with
    | .error e => .refuse e d
    | .ok block =>
      let systemRegEndIndex := d.systemRegEndIndex + c.wordCount
      .accept
        { d with sysRegSize := d.sysRegSize + 4 * c.wordCount, usedMemory := usedMemory }
        [block, (systemRegEndIndex.toNat, [0]), (outputDumpIndex, [(systemRegEndIndex + 1) * 4])]

/-- `register_config_store`. -/
def registerConfigStore (numCores : UInt32) (input : Scanned) (d : CpussRegdumpData) : Outcome :=
  match input.config with
  | none => .refuse .EINVAL d
  | some c =>
    match c.reserveSize with
    | .error e => .refuse e d
    | .ok reserveSize =>
      if c.perCore ≠ 0 then storePercore numCores reserveSize c d
      else storeSystem reserveSize c d

end SafelinuxDbg.MemoryDump
