import SafelinuxDbg.Minidump.Driver

/-!
# Probing the driver

`msm_minidump_driver_probe`, cut where other threads can come in between: it chooses the mode,
maps the tables and builds the header buffer, drains the pending list under the lock, and at
last sets `md_init_done`.  What the platform answers on the way is a `Platform`.

The log regions that `msm_minidump_log_init` registers at the end come in through
`msm_minidump_add_region` like those of any other client and are not part of `probe`.
-/

namespace SafelinuxDbg.Minidump

open CMemory

/-- The part of `struct md_global_toc` that concerns this subsystem. -/
structure MdGlobalToc where
  /-- `size < sizeof(*md_global_toc)` does not hold -/
  sizeOk : Bool
  mdTocInit : UInt32
  mdRevision : UInt32
  mdSsToc : MdSsToc

/-- What `probe` meets: the device tree, SMEM, the resource manager, the allocator and the
addresses. -/
structure Platform where
  /-- `of_device_is_compatible(..., "qcom,minidump-rm")` -/
  rm : Bool
  /-- `gh_rm_minidump_get_info` -/
  rmInfo : Except Errno Nat
  /-- `qcom_smem_get`, `none` for a null pointer -/
  globalToc : Except Errno (Option MdGlobalToc)
  /-- the allocation of `minidump_table` or `minidump_rm_table` -/
  tableAlloc : Bool
  /-- `alloc_workqueue` -/
  wqAlloc : Bool
  /-- the allocation of `md_regions` -/
  regionsAlloc : Bool
  /-- `virt_to_phys(minidump_table->md_regions)` -/
  regionsPhys : UInt64
  /-- `virt_to_phys(minidump_elfheader.ehdr)` -/
  ehdrPhys : UInt64
  addrs : HeaderAddrs

/-- `KELF_HDR`, the name of the header buffer's own region. -/
def kelfHdr : CStr := CStr.ofString "KELF_HDR"

/-- The choice of the mode. -/
def probeMode (p : Platform) (d : Driver) : Driver := { d with isRmMinidump := p.rm }

/-- The resource manager's table and its work queue. -/
def probeRmTable (p : Platform) (d : Driver) : Driver × Except Errno Unit :=
  match p.rmInfo with
  | .error e => (d, .error e)
  | .ok _ =>
    if !p.tableAlloc then (d, .error .ENOMEM)
    else
      let d := { d with minidumpRmTable := ⟨true, [], fun _ => MdRmRegion.zero⟩ }
      if !p.wqAlloc then (d, .error .EINVAL) else (d, .ok ())

/-- The table of contents in SMEM as `probe` sets it up. -/
def probedToc (p : Platform) (toc : MdGlobalToc) : MdSsToc :=
  { toc.mdSsToc with
    encryptionStatus := mdSsEncrDone
    encryptionRequired := mdSsEncrNotreq
    mdSsSmemRegionsBaseptr := p.regionsPhys
    ssRegionCount := 1 }

/-- The tables of the SMEM mode.  `none` is the early `return PTR_ERR(NULL)`, which is zero. -/
def probeSmemTable (p : Platform) (d : Driver) : Driver × Except Errno (Option Unit) :=
  match p.globalToc with
  | .error e => (d, .error e)
  | .ok none => (d, .ok none)
  | .ok (some toc) =>
    if !toc.sizeOk || toc.mdTocInit == 0 then (d, .error .ENODEV)
    else if !p.tableAlloc then (d, .error .ENOMEM)
    else
      let t : MdTable :=
        { tocMapped := true
          revision := toc.mdRevision
          mdSsToc := { toc.mdSsToc with
            encryptionStatus := mdSsEncrDone
            encryptionRequired := mdSsEncrNotreq }
          mdRegions := fun _ => MdSsRegion.zero
          entry := fun _ => MdRegion.zero }
      if !p.regionsAlloc then ({ d with minidumpTable := t }, .error .ENOMEM)
      else ({ d with minidumpTable := { t with mdSsToc := probedToc p toc } }, .ok (some ()))

/-- The tables of the chosen mode. -/
def probeTables (p : Platform) (d : Driver) : Driver × Except Errno (Option Unit) :=
  if d.isRmMinidump then
    match probeRmTable p d with
    | (d, .error e) => (d, .error e)
    | (d, .ok ()) => (d, .ok (some ()))
  else probeSmemTable p d

/-- The record of the header buffer in the region table. -/
def kelfRegion (p : Platform) : MdSsRegion :=
  ⟨kelfHdr, 0, mdRegionValid, p.ehdrPhys, UInt64.ofNat elfhSize⟩

/-- `msm_minidump_add_header`.  In RM mode the buffer is registered first, and left zeroed when
that is refused. -/
def msmMinidumpAddHeader (p : Platform) (registered : Bool) (d : Driver) :
    Driver × Except Errno Unit :=
  if d.isRmMinidump then
    if registered then ({ d with minidumpElfheader := buildHeader p.addrs }, .ok ())
    else ({ d with minidumpElfheader := ⟨fun _ => 0, 0, 0⟩ }, .error .EBUSY)
  else
    let t := d.minidumpTable
    ({ d with
        minidumpElfheader := buildHeader p.addrs
        minidumpTable := { t with mdRegions := Function.update t.mdRegions 0 (kelfRegion p) } },
      .ok ())

/-- One turn of the loop over the pending list in SMEM mode: region number `n` is `e`, and `es`
is left. -/
def drainSmemStep (cfg : Config) (n : Nat) (e : MdRegion) (es : List MdRegion) (d : Driver) :
    Driver :=
  let t := d.minidumpTable
  let d := { d with minidumpTable := { t with entry := Function.update t.entry n e } }
  { mdAddSsToc cfg e d with pendingList := es }

/-- The loop over the pending list in SMEM mode, from region number `n` on. -/
def drainSmem (cfg : Config) : List MdRegion → Nat → Driver → Driver
  | [], _, d => d
  | e :: es, n, d => drainSmem cfg es (n + 1) (drainSmemStep cfg n e es d)

/-- One turn of the loop over the pending list in RM mode. -/
def drainRmStep (cfg : Config) (n : Nat) (e : MdRegion) (es : List MdRegion) (d : Driver) :
    Driver :=
  let t := d.minidumpRmTable
  let rmRegion := { t.entry n with name := e.name.truncate cfg.maxNameLength }
  let d := { d with minidumpRmTable := { t with entry := Function.update t.entry n rmRegion } }
  { queueWork .minidumpAdd e d with pendingList := es }

/-- The loop over the pending list in RM mode, from region number `n` on; `alloc` tells which
requests could be allocated. -/
def drainRm (cfg : Config) (alloc : Nat → Bool) :
    List MdRegion → Nat → Driver → Driver × Except Errno Unit
  | [], _, d => (d, .ok ())
  | e :: es, n, d =>
    if alloc n then drainRm cfg alloc es (n + 1) (drainRmStep cfg n e es d)
    else (d, .error .ENOMEM)

/-- The table of contents is initialised and enabled, which is only needed in SMEM mode. -/
def enableToc (d : Driver) : Driver :=
  let t := d.minidumpTable
  { d with
    minidumpTable :=
      { t with
        mdSsToc := { t.mdSsToc with mdSsTocInit := 1, mdSsEnableStatus := mdSsEnabled } } }

/-- The locked part of `probe`. -/
def probeDrain (cfg : Config) (alloc : Nat → Bool) (d : Driver) : Driver × Except Errno Unit :=
  if d.isRmMinidump then drainRm cfg alloc d.pendingList 0 d
  else (drainSmem cfg d.pendingList 0 (enableToc d), .ok ())

/-- `smp_store_release(&md_init_done, true)`. -/
def probeDone (d : Driver) : Driver := { d with mdInitDone := true }

/-- `msm_minidump_driver_probe` with no other thread in between.  The result of
`msm_minidump_add_header` is not looked at. -/
def msmMinidumpDriverProbe (cfg : Config) (p : Platform) (registered : Bool) (alloc : Nat → Bool)
    (d : Driver) : Driver × Except Errno Unit :=
  match probeTables p (probeMode p d) with
  | (d, .error e) => (d, .error e)
  | (d, .ok none) => (d, .ok ())
  | (d, .ok (some ())) =>
    match probeDrain cfg alloc (msmMinidumpAddHeader p registered d).1 with
    | (d, .error e) => (d, .error e)
    | (d, .ok ()) => (probeDone d, .ok ())

/-- A platform on which the probe finds everything it needs. -/
def Platform.plain (rm : Bool) : Platform where
  rm := rm
  rmInfo := .ok 200
  globalToc := .ok (some ⟨true, 1, 1, ⟨0, 0, 0, 0, 0, 0⟩⟩)
  tableAlloc := true
  wqAlloc := true
  regionsAlloc := true
  regionsPhys := 0x80000000
  ehdrPhys := 0x80100000
  addrs := ⟨0xffff000080200000, 0xffff000080300000, 0x80300000⟩

/-- The build without `CONFIG_ARCH_QTI_VM`. -/
def Config.plain : Config := ⟨false⟩

end SafelinuxDbg.Minidump
