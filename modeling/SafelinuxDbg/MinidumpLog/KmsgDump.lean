import SafelinuxDbg.Lib.Print
import SafelinuxDbg.MinidumpLog.StackNames

/-!
# Dumping the kernel log

`msm_minidump_log_init` allocates `kmsg_buf` with the size that the module parameter `kmsg_dump_sz` has
then.  `md_kmsg_dump` reads the parameter again when the log is dumped, and the parameter can be
written in between.  The header is printed first, and what is left for the log is the difference of the
parameter and the length of the header, which wraps around when the header is the longer one.

* `mdKmsgDump_inside_iff`: a dump stays inside the buffer exactly when the parameter is at least the
  length of the header and at most the size that was allocated.
* `kmsgDumps_inside_iff`: so for all dumps of a run.
* `kmsg_dump_after_write`: a dump after the parameter was raised does not.
-/

namespace SafelinuxDbg.MinidumpLog

open CMemory Minidump

/-! ## Setting up -/

/-- What `msm_minidump_log_init` meets. -/
structure LogKernel where
  /-- `kzalloc(..., GFP_KERNEL)`: an address, also for a size of zero -/
  kzalloc : UInt64 → Option UInt64
  /-- `kmsg_dump_register` -/
  kmsgDumpRegister : Except Errno Unit
  /-- `virt_to_phys` -/
  virtToPhys : UInt64 → UInt64
  /-- the allocation in `msm_minidump_add_region` -/
  alloc : Bool
  /-- `md_entry.id`, which is not set -/
  id : UInt32
  /-- the stacks, with `CONFIG_QCOM_DYN_MINIDUMP_STACK` -/
  dynStack : Option StackKernel

/-- `kmsg_buf`, the size it was allocated with, and `kmsg_dump_sz`. -/
structure KmsgLog where
  kmsgBuf : UInt64
  allocated : UInt64
  kmsgDumpSz : UInt64

/-- `md_kmsg_dump_register`. -/
def mdKmsgDumpRegister (cfg : Config) (k : LogKernel) (kmsgBuf kmsgDumpSz : UInt64) (d : Driver) :
    Driver × Except Errno Nat :=
  match k.kmsgDumpRegister with
  | .error e => (d, .error e)
  | .ok () =>
    msmMinidumpAddRegion cfg k.alloc
      ⟨CStr.ofString "KMSG", k.id, kmsgBuf, k.virtToPhys kmsgBuf, kmsgDumpSz⟩ d

/-- `msm_minidump_log_init`, with the stacks; the registrations that follow do not touch the log. -/
def msmMinidumpLogInit (cfg : Config) (k : LogKernel) (kmsgDumpSz : UInt64) (d : Driver) :
    Driver × Except Errno KmsgLog :=
  match k.kzalloc kmsgDumpSz with
  | none => (d, .error .ENOMEM)
  | some kmsgBuf =>
    match mdKmsgDumpRegister cfg k kmsgBuf kmsgDumpSz d with
    | (d, .error e) => (d, .error e)
    | (d, .ok _) =>
      let d := match k.dynStack with
        | some stack => (registerStacks cfg stack d).1
        | none => d
      (d, .ok ⟨kmsgBuf, kmsgDumpSz, kmsgDumpSz⟩)

/-! ## Dumping -/

/-- `kmsg_dump_get_buffer`: it writes at most as many bytes as it is told. -/
structure LogReader where
  text : Nat → List UInt8
  length_le : ∀ size, (text size).length ≤ size

/-- `"MiniDump: %s\n"`. -/
def dumpHeader (why : CStr) : List UInt8 := asciiBytes "MiniDump: ".toList ++ why.bytes ++ [10]

/-- What a dump does: the length of the header, the size that is passed to `kmsg_dump_get_buffer`, and
the blocks that are stored. -/
structure KmsgDump where
  headerSize : Nat
  dstSize : UInt64
  stores : List (Nat × List UInt8)

/-- `md_kmsg_dump`.  `snprintf` stores as much of the header as fits, and returns the length of the
whole header. -/
def mdKmsgDump (s : KmsgLog) (reader : LogReader) (why : CStr) : KmsgDump :=
  let dst := s.kmsgBuf.toNat
  let dstSize := s.kmsgDumpSz
  let headerSize := (dumpHeader why).length
  let rest := dstSize - UInt64.ofNat headerSize
  ⟨headerSize, rest,
    [(dst, cutText dstSize.toNat (dumpHeader why)), (dst + headerSize, reader.text rest.toNat)]⟩

/-- What happens later: the parameter is written, or the log is dumped. -/
inductive KmsgAction
  | write (kmsgDumpSz : UInt64)
  | dump (reader : LogReader) (why : CStr)

/-- The dumps of a run. -/
def kmsgDumps : KmsgLog → List KmsgAction → List KmsgDump
  | _, [] => []
  | s, .write kmsgDumpSz :: as => kmsgDumps { s with kmsgDumpSz := kmsgDumpSz } as
  | s, .dump reader why :: as => mdKmsgDump s reader why :: kmsgDumps s as

/-- A dump writes only inside `kmsg_buf`, and what it passes to `kmsg_dump_get_buffer` ends there. -/
structure KmsgDump.Inside (kmsgBuf allocated : UInt64) (dump : KmsgDump) : Prop where
  stores : ∀ b ∈ dump.stores, kmsgBuf.toNat ≤ b.1 ∧
    b.1 + b.2.length ≤ kmsgBuf.toNat + allocated.toNat
  size : dump.headerSize + dump.dstSize.toNat ≤ allocated.toNat

/-- At each dump of a run the parameter is at least the length of the header and at most
`allocated`. -/
def DumpsFit (allocated : UInt64) : UInt64 → List KmsgAction → Prop
  | _, [] => True
  | _, .write kmsgDumpSz :: as => DumpsFit allocated kmsgDumpSz as
  | kmsgDumpSz, .dump _ why :: as =>
    ((dumpHeader why).length ≤ kmsgDumpSz.toNat ∧ kmsgDumpSz ≤ allocated) ∧
      DumpsFit allocated kmsgDumpSz as

/-- **One dump.** -/
theorem mdKmsgDump_inside_iff (s : KmsgLog) (reader : LogReader) (why : CStr) :
    (mdKmsgDump s reader why).Inside s.kmsgBuf s.allocated ↔
      (dumpHeader why).length ≤ s.kmsgDumpSz.toNat ∧ s.kmsgDumpSz ≤ s.allocated := by
  have hsz := s.kmsgDumpSz.toNat_lt
  have halloc := s.allocated.toNat_lt
  have hrest : (s.kmsgDumpSz - UInt64.ofNat (dumpHeader why).length).toNat =
      (2 ^ 64 - (dumpHeader why).length % 2 ^ 64 + s.kmsgDumpSz.toNat) % 2 ^ 64 := by
    rw [UInt64.toNat_sub, UInt64.toNat_ofNat']
  rw [UInt64.le_iff_toNat_le]
  constructor
  · intro h
    have hsize := h.size
    simp only [mdKmsgDump, hrest] at hsize
    generalize (dumpHeader why).length = header at hsize
    omega
  · rintro ⟨hheader, hfits⟩
    have hwhole : (s.kmsgDumpSz - UInt64.ofNat (dumpHeader why).length).toNat =
        s.kmsgDumpSz.toNat - (dumpHeader why).length := by
      rw [hrest]
      generalize (dumpHeader why).length = header at hheader
      omega
    constructor
    case stores =>
      intro b hb
      simp only [mdKmsgDump, List.mem_cons, List.not_mem_nil, or_false] at hb
      rcases hb with rfl | rfl
      · have hcut := length_cutText_le s.kmsgDumpSz.toNat (dumpHeader why)
        have hpos : 0 < (dumpHeader why).length := by
          rw [dumpHeader, List.length_append]
          exact Nat.lt_of_lt_of_le Nat.zero_lt_one (Nat.le_add_left _ _)
        refine ⟨Nat.le_refl _, ?_⟩
        dsimp only
        omega
      · have hlength := reader.length_le (s.kmsgDumpSz - UInt64.ofNat (dumpHeader why).length).toNat
        refine ⟨Nat.le_add_right _ _, ?_⟩
        dsimp only
        omega
    case size =>
      simp only [mdKmsgDump, hwhole]
      omega

/-- The dumps of a run stay inside the buffer exactly when the parameter fits at each of them. -/
theorem kmsgDumps_inside (as : List KmsgAction) : ∀ s : KmsgLog,
    (∀ dump ∈ kmsgDumps s as, dump.Inside s.kmsgBuf s.allocated) ↔
      DumpsFit s.allocated s.kmsgDumpSz as := by
  induction as with
  | nil => exact fun s => ⟨fun _ => trivial, fun _ => List.forall_mem_nil _⟩
  | cons a as ih =>
    intro s
    cases a with
    | write kmsgDumpSz =>
      rw [kmsgDumps, DumpsFit]
      exact ih { s with kmsgDumpSz := kmsgDumpSz }
    | dump reader why => rw [kmsgDumps, List.forall_mem_cons, DumpsFit, mdKmsgDump_inside_iff, ih s]

/-- The buffer is allocated with the value of the parameter. -/
theorem logInit_eq_ok {cfg : Config} {k : LogKernel} {kmsgDumpSz : UInt64} {d : Driver} {s : KmsgLog}
    (h : (msmMinidumpLogInit cfg k kmsgDumpSz d).2 = .ok s) :
    s.allocated = kmsgDumpSz ∧ s.kmsgDumpSz = kmsgDumpSz := by
  rw [msmMinidumpLogInit] at h
  cases hbuf : k.kzalloc kmsgDumpSz with
  | none =>
    rw [hbuf] at h
    cases h
  | some kmsgBuf =>
    rw [hbuf] at h
    cases hregister : mdKmsgDumpRegister cfg k kmsgBuf kmsgDumpSz d with
    | mk d' res =>
      cases res with
      | error err =>
        simp only [hregister] at h
        cases h
      | ok regno =>
        simp only [hregister] at h
        cases h
        exact ⟨rfl, rfl⟩

/-- **The dumps of the log stay inside its buffer** if and only if at each dump the parameter is at
least the length of the header, and at most what it was when the buffer was allocated. -/
theorem kmsgDumps_inside_iff {cfg : Config} {k : LogKernel} {kmsgDumpSz : UInt64} {d : Driver}
    {s : KmsgLog} (h : (msmMinidumpLogInit cfg k kmsgDumpSz d).2 = .ok s) (as : List KmsgAction) :
    (∀ dump ∈ kmsgDumps s as, dump.Inside s.kmsgBuf s.allocated) ↔
      DumpsFit kmsgDumpSz kmsgDumpSz as := by
  obtain ⟨hallocated, hsz⟩ := logInit_eq_ok h
  rw [kmsgDumps_inside, hallocated, hsz]

/-- A kernel with memory for the log, and no stacks to register. -/
def plainLog : LogKernel where
  kzalloc := fun _ => some 0xffff000082000000
  kmsgDumpRegister := .ok ()
  virtToPhys := fun a => a - 0xffff000000000000
  alloc := true
  id := 0
  dynStack := none

/-- A log that fills what it is given. -/
def fullReader : LogReader := ⟨fun size => List.replicate size 97, fun _ => by rw [List.length_replicate]⟩

/-- The log of 128 KiB that is set up with it. -/
def plainKmsg : KmsgLog := ⟨0xffff000082000000, 0x20000, 0x20000⟩

theorem plainLog_init :
    (msmMinidumpLogInit Config.plain plainLog 0x20000 probedClient.driver).2 = .ok plainKmsg := rfl

theorem kmsgDumps_inside_iff_panic :
    (∀ dump ∈ kmsgDumps plainKmsg [.dump fullReader (CStr.ofString "Panic")],
        dump.Inside plainKmsg.kmsgBuf plainKmsg.allocated) ↔
      DumpsFit 0x20000 0x20000 [.dump fullReader (CStr.ofString "Panic")] :=
  kmsgDumps_inside_iff plainLog_init _

/-- **A dump after the parameter was raised** from 128 KiB to 1 MiB is given 1 MiB. -/
theorem kmsg_dump_after_write :
    (msmMinidumpLogInit Config.plain plainLog 0x20000 probedClient.driver).2 = .ok plainKmsg ∧
      ¬ ∀ dump ∈ kmsgDumps plainKmsg [.write 0x100000, .dump fullReader (CStr.ofString "Panic")],
        dump.Inside plainKmsg.kmsgBuf plainKmsg.allocated := by
  refine ⟨rfl, fun h => ?_⟩
  have hfit := (kmsgDumps_inside _ _).mp h
  exact absurd hfit.1.2 (by decide)

end SafelinuxDbg.MinidumpLog
