import SafelinuxDbg.MinidumpLog.KmsgDump
import SafelinuxDbg.MinidumpLog.ModuleList
import SafelinuxDbg.MinidumpLog.Submissions

/-!
# Setting up the logs

`msm_minidump_log_init` registers the log of the kernel and the stacks, the records of pstore, the trace buffer,
the text of the modules, and the buffers that the panic handler fills.  A buffer whose registration fails is
freed and never used, but for the trace buffer: its address is published in any case, and the records of pstore
come before it and may have taken its name.

* `log_buffers_registered_iff`: all the buffers that are used are registered, unless pstore has registered trace
  records.
-/

namespace SafelinuxDbg.MinidumpLog

open CMemory Minidump

/-! ## pstore -/

/-- The node `ramoops` with its memory, and what `register_pstore_info` meets. -/
structure Pstore where
  /-- the start of the memory -/
  paddr : UInt64
  recordSize : Option UInt32
  consoleSize : Option UInt32
  ftraceSize : Option UInt32
  pmsgSize : Option UInt32
  physToVirt : UInt64 → UInt64
  /-- the allocations in `msm_minidump_add_region`, and `md_entry.id`, which is not set -/
  alloc : CStr → Bool
  id : UInt32

/-- The blocks of `register_pstore_info`: a part that has a size starts where the one before it ends. -/
def pstoreParts (k : Pstore) : UInt64 → List (CStr × Option UInt32) → List (Bool × MdRegion)
  | _, [] => []
  | paddr, (name, some size) :: parts =>
    if 0 < size then
      (k.alloc name, ⟨name, k.id, k.physToVirt paddr, paddr, size.toUInt64⟩) ::
        pstoreParts k (paddr + size.toUInt64) parts
    else pstoreParts k paddr parts
  | paddr, (_, none) :: parts => pstoreParts k paddr parts

/-- What `register_pstore_info` submits. -/
def registerPstoreInfo (k : Pstore) : List (Bool × MdRegion) :=
  pstoreParts k k.paddr [(CStr.ofString "KDMESG", k.recordSize), (CStr.ofString "KCONSOLE", k.consoleSize),
    (CStr.ofString "KFTRACE", k.ftraceSize), (CStr.ofString "KPMSG", k.pmsgSize)]

/-! ## The buffers -/

/-- Memory that was allocated for a buffer. -/
structure BufferMemory where
  virt : UInt64
  phys : UInt64
  /-- the allocation in `msm_minidump_add_region`, and `md_entry.id`, which is not set -/
  alloc : Bool
  id : UInt32
  virt_ne : virt ≠ 0

/-- The driver, and the regions of the buffers whose addresses are published. -/
structure LogBuffers where
  driver : Driver
  buffers : List MdRegion

/-- The region of the trace buffer. -/
def traceRegion (b : BufferMemory) : MdRegion := ⟨CStr.ofString "KFTRACE", b.id, b.virt, b.phys, 0x200000⟩

/-- `md_register_trace_buf`: the address is published in any case. -/
def mdRegisterTraceBuf (cfg : Config) (buffer : Option BufferMemory) (s : LogBuffers) : LogBuffers :=
  match buffer with
  | none => s
  | some b => ⟨(msmMinidumpAddRegion cfg b.alloc (traceRegion b) s.driver).1, s.buffers ++ [traceRegion b]⟩

/-- What `md_register_panic_entries` meets. -/
structure PanicBuffer where
  buf : Option ClearedBuffer
  seqBuf : Bool
  phys : UInt64
  alloc : Bool
  id : UInt32

/-- `md_register_panic_entries`, with the buffers that are published. -/
def registerPanicEntries (cfg : Config) (numPages : Nat) (name : CStr) (k : PanicBuffer) (s : LogBuffers) :
    LogBuffers :=
  match mdRegisterPanicEntries cfg k.alloc k.buf k.seqBuf numPages name k.id k.phys s.driver with
  | (d, .ok b) => ⟨d, s.buffers ++ [panicEntry cfg numPages name k.id k.phys b]⟩
  | (d, .error _) => ⟨d, s.buffers⟩

/-- `md_register_memory_dump`, with the page of `cma_alloc`. -/
def registerMemoryDump (cfg : Config) (size : UInt64) (name : CStr) (page : Option BufferMemory)
    (s : LogBuffers) : LogBuffers :=
  match page with
  | none => s
  | some b =>
    let entry : MdRegion := ⟨name.truncate cfg.maxNameLength, b.id, b.virt, b.phys, size⟩
    match msmMinidumpAddRegion cfg b.alloc entry s.driver with
    | (d, .ok _) => ⟨d, s.buffers ++ [entry]⟩
    | (d, .error _) => ⟨d, s.buffers⟩

/-- What `md_register_panic_data` meets; `none` where the configuration leaves a buffer out, or where the owners
are not recorded. -/
structure PanicKernel where
  /-- `MD_RUNQUEUE_PAGES` -/
  runqPages : Nat
  runq : PanicBuffer
  cntxt : Option PanicBuffer
  meminfo : PanicBuffer
  slabinfo : Option PanicBuffer
  pageowner : Option (Option BufferMemory)
  slabowner : Option (Option BufferMemory)
  dmaInfo : Option BufferMemory
  dmaProc : Option BufferMemory

/-- A step that the configuration may leave out. -/
def whenSome {α : Type} (f : α → LogBuffers → LogBuffers) : Option α → LogBuffers → LogBuffers
  | none, s => s
  | some a, s => f a s

/-- `md_register_panic_data`. -/
def mdRegisterPanicData (cfg : Config) (k : PanicKernel) (s : LogBuffers) : LogBuffers :=
  let s := registerPanicEntries cfg k.runqPages (CStr.ofString "KRUNQUEUE") k.runq s
  let s := whenSome (registerPanicEntries cfg 32 (CStr.ofString "KCNTXT")) k.cntxt s
  let s := registerPanicEntries cfg 1 (CStr.ofString "MEMINFO") k.meminfo s
  let s := whenSome (registerPanicEntries cfg 8 (CStr.ofString "SLABINFO")) k.slabinfo s
  let s := whenSome (registerMemoryDump cfg 0x200000 (CStr.ofString "PAGEOWNER")) k.pageowner s
  let s := whenSome (registerMemoryDump cfg 0x200000 (CStr.ofString "SLABOWNER")) k.slabowner s
  let s := registerMemoryDump cfg 0x40000 (CStr.ofString "DMA_INFO") k.dmaInfo s
  registerMemoryDump cfg 0x40000 (CStr.ofString "DMA_PROC") k.dmaProc s

/-! ## Initialisation -/

/-- What `msm_minidump_log_init` meets; `none` where the configuration leaves something out, and for pstore also
where there is no node with memory. -/
structure InitKernel where
  log : LogKernel
  kmsgDumpSz : UInt64
  pstore : Option Pstore
  traceBuf : Option BufferMemory
  modules : Option PanicBuffer
  panic : Option PanicKernel

/-- What pstore submits. -/
def InitKernel.pstoreRegions (k : InitKernel) : List (Bool × MdRegion) :=
  match k.pstore with
  | none => []
  | some pstore => registerPstoreInfo pstore

/-- The region of the log. -/
def kmsgRegion (k : InitKernel) (kmsgBuf : UInt64) : MdRegion :=
  ⟨CStr.ofString "KMSG", k.log.id, kmsgBuf, k.log.virtToPhys kmsgBuf, k.kmsgDumpSz⟩

/-- `msm_minidump_log_init`, with all that it registers. -/
def logInit (cfg : Config) (k : InitKernel) (d : Driver) : LogBuffers × Except Errno KmsgLog :=
  match msmMinidumpLogInit cfg k.log k.kmsgDumpSz d with
  | (d, .error err) => (⟨d, []⟩, .error err)
  | (d, .ok log) =>
    let s : LogBuffers := ⟨addAll cfg k.pstoreRegions d, [kmsgRegion k log.kmsgBuf]⟩
    let s := mdRegisterTraceBuf cfg k.traceBuf s
    let s := whenSome (registerPanicEntries cfg 8 (CStr.ofString "KMODULES")) k.modules s
    (whenSome (mdRegisterPanicData cfg) k.panic s, .ok log)

/-! ## Buffers that are registered -/

/-- `t'` comes from `t` by registering buffers: those that are published are registered. -/
structure Publishes (cfg : Config) (p : Platform) (c : Client) (t t' : LogBuffers) : Prop where
  orderly : Orderly cfg p { c with driver := t'.driver }
  before : registered t.driver <+: registered t'.driver
  published : ∃ new, t'.buffers = t.buffers ++ new ∧ ∀ e ∈ new, e ∈ registered t'.driver

/-- A step that publishes a buffer only if it is registered. -/
structure Sound (cfg : Config) (p : Platform) (f : LogBuffers → LogBuffers) : Prop where
  grows : ∀ t, t.driver.numRegions ≤ (f t).driver.numRegions
  publishes : ∀ (c : Client) (t : LogBuffers), Orderly cfg p { c with driver := t.driver } →
    (f t).driver.numRegions ≤ 197 → Publishes cfg p c t (f t)

/-- A region is added, and its buffer is published if it was. -/
def submitBuffer (cfg : Config) (alloc : Bool) (e : MdRegion) (t : LogBuffers) : LogBuffers :=
  match msmMinidumpAddRegion cfg alloc e t.driver with
  | (d, .ok _) => ⟨d, t.buffers ++ [e]⟩
  | (d, .error _) => ⟨d, t.buffers⟩

section Steps

variable {cfg : Config} {p : Platform} {f g : LogBuffers → LogBuffers}

theorem sound_id (cfg : Config) (p : Platform) : Sound cfg p id where
  grows := fun _ => Nat.le_refl _
  publishes := fun _ _ h _ => ⟨h, List.prefix_rfl, [], (List.append_nil _).symm, List.forall_mem_nil _⟩

theorem Sound.comp (hg : Sound cfg p g) (hf : Sound cfg p f) : Sound cfg p (g ∘ f) where
  grows := fun t => Nat.le_trans (hf.grows t) (hg.grows (f t))
  publishes := fun c t h hroom => by
    obtain ⟨horderly, hbefore, new, hnew, hregistered⟩ :=
      hf.publishes c t h (Nat.le_trans (hg.grows (f t)) hroom)
    obtain ⟨horderly', hbefore', new', hnew', hregistered'⟩ := hg.publishes c (f t) horderly hroom
    refine ⟨horderly', hbefore.trans hbefore', new ++ new', ?_, ?_⟩
    · rw [Function.comp_apply, hnew', hnew, List.append_assoc]
    · intro e he
      rcases List.mem_append.mp he with hold | hlast
      · exact hbefore'.subset (hregistered e hold)
      · exact hregistered' e hlast

theorem sound_whenSome {α : Type} {f : α → LogBuffers → LogBuffers} (hf : ∀ a, Sound cfg p (f a)) (o : Option α) :
    Sound cfg p (whenSome f o) := by
  cases o with
  | none => exact sound_id cfg p
  | some a => exact hf a

theorem sound_submitBuffer (cfg : Config) (p : Platform) (alloc : Bool) (e : MdRegion) :
    Sound cfg p (submitBuffer cfg alloc e) where
  grows := fun t => by
    have hgrows := numRegions_add cfg alloc e t.driver
    rw [submitBuffer]
    split
    all_goals
      rename_i hres
      rw [hres] at hgrows
      exact hgrows
  publishes := fun c t h hroom => by
    have hdriver : (submitBuffer cfg alloc e t).driver = (msmMinidumpAddRegion cfg alloc e t.driver).1 := by
      rw [submitBuffer]
      split
      all_goals
        rename_i hres
        rw [hres]
    rw [hdriver] at hroom
    obtain ⟨hkept, -⟩ := h.addRegion alloc e hroom
    obtain ⟨-, -, ⟨err, herr, hsame⟩ | ⟨hok, hnew⟩⟩ := h.add alloc e hroom
    · have hsame' : registered (msmMinidumpAddRegion cfg alloc e t.driver).1 = registered t.driver := hsame
      have hbuffers : (submitBuffer cfg alloc e t).buffers = t.buffers := by
        rw [submitBuffer, show msmMinidumpAddRegion cfg alloc e t.driver = (_, .error err) from Prod.ext rfl herr]
      refine ⟨hdriver ▸ hkept, ⟨[], ?_⟩, [], ?_, List.forall_mem_nil _⟩
      · rw [List.append_nil, hdriver, hsame']
      · rw [hbuffers, List.append_nil]
    · have hnew' : registered (msmMinidumpAddRegion cfg alloc e t.driver).1 = registered t.driver ++ [e] := hnew
      have hbuffers : (submitBuffer cfg alloc e t).buffers = t.buffers ++ [e] := by
        rw [submitBuffer, show msmMinidumpAddRegion cfg alloc e t.driver = (_, .ok _) from Prod.ext rfl hok]
      refine ⟨hdriver ▸ hkept, ?_, [e], hbuffers, ?_⟩
      · rw [hdriver, hnew']
        exact List.prefix_append _ _
      · rw [hdriver, hnew']
        simp

theorem sound_registerPanicEntries (cfg : Config) (p : Platform) (numPages : Nat) (name : CStr) (k : PanicBuffer) :
    Sound cfg p (registerPanicEntries cfg numPages name k) := by
  obtain ⟨buf, seqBuf, phys, alloc, entryId⟩ := k
  cases buf with
  | none => exact sound_id cfg p
  | some b =>
    cases seqBuf with
    | false => exact sound_id cfg p
    | true =>
      have heq : registerPanicEntries cfg numPages name ⟨some b, true, phys, alloc, entryId⟩ =
          submitBuffer cfg alloc (panicEntry cfg numPages name entryId phys b) := by
        funext t
        rw [registerPanicEntries, mdRegisterPanicEntries]
        dsimp only
        rw [submitBuffer]
        cases hres : msmMinidumpAddRegion cfg alloc (panicEntry cfg numPages name entryId phys b) t.driver with
        | mk d res =>
          cases res with
          | error err => rfl
          | ok regno => rfl
      rw [heq]
      exact sound_submitBuffer cfg p alloc _

theorem sound_registerMemoryDump (cfg : Config) (p : Platform) (size : UInt64) (name : CStr)
    (page : Option BufferMemory) : Sound cfg p (registerMemoryDump cfg size name page) := by
  cases page with
  | none => exact sound_id _ _
  | some b => exact sound_submitBuffer _ _ _ _

/-- **The buffers of the panic handler.** -/
theorem sound_mdRegisterPanicData (cfg : Config) (p : Platform) (k : PanicKernel) :
    Sound cfg p (mdRegisterPanicData cfg k) :=
  (sound_registerMemoryDump _ _ _ _ _).comp <| (sound_registerMemoryDump _ _ _ _ _).comp <|
    (sound_whenSome (sound_registerMemoryDump _ _ _ _) _).comp <|
    (sound_whenSome (sound_registerMemoryDump _ _ _ _) _).comp <|
    (sound_whenSome (sound_registerPanicEntries _ _ _ _) _).comp <| (sound_registerPanicEntries _ _ _ _ _).comp <|
    (sound_whenSome (sound_registerPanicEntries _ _ _ _) _).comp <| sound_registerPanicEntries _ _ _ _ _

end Steps

/-! ## The trace buffer -/

section Trace

variable {cfg : Config} {p : Platform} {c : Client} {k : InitKernel}

/-- The name that pstore and the trace buffer have in common. -/
def traceName : CStr := CStr.ofString "KFTRACE"

/-- Pstore has trace records that minidump takes. -/
def InitKernel.pstoreTrace (cfg : Config) (k : InitKernel) : Prop :=
  ∃ e ∈ k.pstoreRegions, WellFormed cfg e.2 ∧ e.2.name = traceName

instance (cfg : Config) (k : InitKernel) : Decidable (k.pstoreTrace cfg) :=
  inferInstanceAs (Decidable (∃ e ∈ k.pstoreRegions, WellFormed cfg e.2 ∧ e.2.name = traceName))

theorem traceRegion_wellFormed (cfg : Config) (b : BufferMemory) : WellFormed cfg (traceRegion b) := by
  have hsize : (0x200000 : UInt64) % 4 = 0 := by decide
  refine ⟨?_, b.virt_ne, hsize⟩
  show traceName.strlen ≤ cfg.maxNameLength
  obtain ⟨vm⟩ := cfg
  cases vm <;> decide

/-- No stack has the name of the trace buffer. -/
theorem stackRegions_name_ne (cfg : Config) (k : StackKernel) {e : Bool × MdRegion}
    (he : e ∈ stackRegions cfg k) : e.2.name ≠ traceName := by
  have htrace : traceName.bytes.take 6 = [75, 70, 84, 82, 65, 67] := by decide
  have hname : e.2.name ∈ (stackRegions cfg k).map fun e => e.2.name :=
    List.mem_map_of_mem (f := fun e : Bool × MdRegion => e.2.name) he
  rw [map_stackRegions, List.mem_append, List.mem_append, List.mem_flatMap, List.mem_singleton] at hname
  rcases hname with (⟨cpu, -, hcpu⟩ | hsuspend) | htask
  · exact ne_of_take (take_cpuNames hcpu) htrace (by decide)
  · exact ne_of_take (take_suspendNames hsuspend) htrace (by decide)
  · rw [htask]
    exact ne_of_take (take_taskName cfg) htrace (by decide)

/-- The stacks, where they are followed. -/
def InitKernel.stacks (cfg : Config) (k : InitKernel) : List (Bool × MdRegion) :=
  match k.log.dynStack with
  | some stack => stackRegions cfg stack
  | none => []

theorem registerStacks_driver (cfg : Config) (k : StackKernel) (d : Driver) :
    (registerStacks cfg k d).1 = addAll cfg (stackRegions cfg k) d := by
  rw [stackRegions, addAll_append, addAll_append, registerStacks]
  dsimp only
  rw [(registerCurrentStack_eq cfg k k.possibleCpus d).1]

/-- The log is added, and then the stacks. -/
theorem msmMinidumpLogInit_eq_ok {log : KmsgLog} {d d' : Driver}
    (hok : msmMinidumpLogInit cfg k.log k.kmsgDumpSz d = (d', .ok log)) :
    ∃ regno, (msmMinidumpAddRegion cfg k.log.alloc (kmsgRegion k log.kmsgBuf) d).2 = .ok regno ∧
      d' = addAll cfg (k.stacks cfg) (msmMinidumpAddRegion cfg k.log.alloc (kmsgRegion k log.kmsgBuf) d).1 := by
  rw [msmMinidumpLogInit] at hok
  cases hbuf : k.log.kzalloc k.kmsgDumpSz with
  | none =>
    rw [hbuf] at hok
    cases hok
  | some kmsgBuf =>
    rw [hbuf] at hok
    dsimp only at hok
    rw [mdKmsgDumpRegister] at hok
    cases hdumper : k.log.kmsgDumpRegister with
    | error err =>
      rw [hdumper] at hok
      cases hok
    | ok u =>
      rw [hdumper] at hok
      dsimp only at hok
      cases hres : msmMinidumpAddRegion cfg k.log.alloc (kmsgRegion k kmsgBuf) d with
      | mk d₁ res =>
        rw [kmsgRegion] at hres
        rw [hres] at hok
        cases res with
        | error err => cases hok
        | ok regno =>
          obtain ⟨hdriver, hlog⟩ := Prod.mk.inj hok
          cases hlog
          refine ⟨regno, by rw [kmsgRegion, hres], ?_⟩
          rw [kmsgRegion, hres, ← hdriver, InitKernel.stacks]
          cases k.log.dynStack with
          | none => rfl
          | some stack => exact registerStacks_driver cfg stack d₁

/-- After the log and the stacks. -/
theorem msmMinidumpLogInit_registered {log : KmsgLog} {d : Driver} (h : Orderly cfg p c)
    (hok : msmMinidumpLogInit cfg k.log k.kmsgDumpSz c.driver = (d, .ok log)) (hroom : d.numRegions ≤ 197) :
    Orderly cfg p { c with driver := d } ∧ kmsgRegion k log.kmsgBuf ∈ registered d ∧
      (traceName ∈ (registered d).map MdRegion.name → traceName ∈ (registered c.driver).map MdRegion.name) := by
  obtain ⟨regno, hadded, rfl⟩ := msmMinidumpLogInit_eq_ok hok
  have hfirst := Nat.le_trans (numRegions_addAll cfg (k.stacks cfg) _) hroom
  obtain ⟨hkept, -⟩ := h.addRegion k.log.alloc (kmsgRegion k log.kmsgBuf) hfirst
  obtain ⟨-, -, ⟨err, herr, -⟩ | ⟨-, hnew⟩⟩ := h.add k.log.alloc (kmsgRegion k log.kmsgBuf) hfirst
  · rw [herr] at hadded
    cases hadded
  have hnew' : registered (msmMinidumpAddRegion cfg k.log.alloc (kmsgRegion k log.kmsgBuf) c.driver).1 =
      registered c.driver ++ [kmsgRegion k log.kmsgBuf] := hnew
  obtain ⟨horderly, hstacks⟩ := registered_addAll hkept hroom
  rw [hnew'] at hstacks
  refine ⟨horderly, ?_, ?_⟩
  · rw [hstacks]
    exact (prefix_foldl_submitTo cfg _ _).subset (List.mem_append_right _ (List.mem_singleton_self _))
  · rw [hstacks, mem_names_foldl_submitTo, List.map_append, List.mem_append, List.map_singleton,
      List.mem_singleton]
    rintro ((hold | hkmsg) | ⟨e, he, -, hname⟩)
    · exact hold
    · exact absurd (show traceName = CStr.ofString "KMSG" from hkmsg) (by decide)
    · exfalso
      obtain ⟨x, hx, rfl⟩ := List.mem_map.mp he
      rw [InitKernel.stacks] at hx
      cases hdyn : k.log.dynStack with
      | none =>
        rw [hdyn] at hx
        cases hx
      | some stack =>
        rw [hdyn] at hx
        exact stackRegions_name_ne cfg stack hx hname

/-- What follows the trace buffer. -/
def logRest (cfg : Config) (k : InitKernel) : LogBuffers → LogBuffers :=
  whenSome (mdRegisterPanicData cfg) k.panic ∘
    whenSome (registerPanicEntries cfg 8 (CStr.ofString "KMODULES")) k.modules

theorem sound_logRest (cfg : Config) (p : Platform) (k : InitKernel) : Sound cfg p (logRest cfg k) :=
  (sound_whenSome (sound_mdRegisterPanicData cfg p) _).comp
    (sound_whenSome (sound_registerPanicEntries cfg p _ _) _)

/-- The names after pstore. -/
theorem pstoreTrace_iff (h : Orderly cfg p c) (hroom : (addAll cfg k.pstoreRegions c.driver).numRegions ≤ 197)
    (hnew : traceName ∉ (registered c.driver).map MdRegion.name) :
    traceName ∈ (registered (addAll cfg k.pstoreRegions c.driver)).map MdRegion.name ↔ k.pstoreTrace cfg := by
  rw [(registered_addAll h hroom).2, mem_names_foldl_submitTo, or_iff_right hnew, InitKernel.pstoreTrace]
  simp only [List.mem_map, exists_exists_and_eq_and]

theorem mdRegisterTraceBuf_driver (cfg : Config) (buffer : Option BufferMemory) (t : LogBuffers) :
    (mdRegisterTraceBuf cfg buffer t).driver =
      addAll cfg (buffer.toList.map fun b => (b.alloc, traceRegion b)) t.driver := by
  cases buffer with
  | none => rfl
  | some b => rfl

theorem mdRegisterTraceBuf_buffers (cfg : Config) (buffer : Option BufferMemory) (t : LogBuffers) :
    (mdRegisterTraceBuf cfg buffer t).buffers = t.buffers ++ buffer.toList.map traceRegion := by
  cases buffer with
  | none => exact (List.append_nil _).symm
  | some b => rfl

/-- **The trace buffer** is registered, unless pstore has trace records: then one of these has its name. -/
theorem mdRegisterTraceBuf_registered (h : Orderly cfg p c) (bufs : List MdRegion)
    (hroom : (mdRegisterTraceBuf cfg k.traceBuf ⟨addAll cfg k.pstoreRegions c.driver, bufs⟩).driver.numRegions ≤ 197)
    (hnew : traceName ∉ (registered c.driver).map MdRegion.name) :
    let t := mdRegisterTraceBuf cfg k.traceBuf ⟨addAll cfg k.pstoreRegions c.driver, bufs⟩
    Orderly cfg p { c with driver := t.driver } ∧ registered c.driver <+: registered t.driver ∧
      (¬ k.pstoreTrace cfg → ∀ b, k.traceBuf = some b → traceRegion b ∈ registered t.driver) ∧
      (k.pstoreTrace cfg → ∃ e ∈ k.pstoreRegions, e.2.name = traceName ∧ e.2 ∈ registered t.driver) := by
  intro t
  have hdriver : t.driver = addAll cfg (k.traceBuf.toList.map fun b => (b.alloc, traceRegion b))
      (addAll cfg k.pstoreRegions c.driver) := mdRegisterTraceBuf_driver cfg _ _
  rw [mdRegisterTraceBuf_driver] at hroom
  have hroom' := Nat.le_trans (numRegions_addAll cfg _ _) hroom
  obtain ⟨hkept, hpstore⟩ := registered_addAll h hroom'
  obtain ⟨horderly, htrace⟩ := registered_addAll hkept hroom
  have hnames := pstoreTrace_iff h hroom' hnew
  rw [hdriver]
  refine ⟨horderly, ?_, ?_, ?_⟩
  · rw [htrace, hpstore]
    exact (prefix_foldl_submitTo cfg _ _).trans (prefix_foldl_submitTo cfg _ _)
  · intro hnone b hb
    have hfresh : (traceRegion b).name ∉ (registered (addAll cfg k.pstoreRegions c.driver)).map MdRegion.name :=
      fun hmem => hnone (hnames.mp hmem)
    rw [htrace, hb]
    show traceRegion b ∈ submitTo cfg (registered (addAll cfg k.pstoreRegions c.driver)) (traceRegion b)
    rw [submitTo_of_new (traceRegion_wellFormed cfg b) hfresh]
    exact List.mem_append_right _ (List.mem_singleton_self _)
  · intro hsome
    obtain ⟨e, he, hname⟩ := List.mem_map.mp (hnames.mpr hsome)
    have hmem := he
    rw [hpstore] at hmem
    rcases mem_foldl_submitTo hmem with hold | hof
    · exact absurd (List.mem_map.mpr ⟨e, hold, hname⟩) hnew
    · obtain ⟨x, hx, rfl⟩ := List.mem_map.mp hof
      refine ⟨x, hx, hname, ?_⟩
      rw [htrace]
      exact (prefix_foldl_submitTo cfg _ _).subset he

/-- **The buffers that are used are registered**, all of them, unless pstore has registered its trace records:
then the trace buffer is not. -/
theorem log_buffers_registered_iff (hc : (smemClients cfg p (· = [])).Reach (RemovableCall cfg) c)
    (hroom : (logInit cfg k c.driver).1.driver.numRegions ≤ 197)
    (hnew : traceName ∉ (registered c.driver).map MdRegion.name)
    (hmemory : ∀ b, k.traceBuf = some b → ∀ e ∈ k.pstoreRegions, e.2.virtAddr ≠ b.virt) :
    (∀ e ∈ (logInit cfg k c.driver).1.buffers, e ∈ registered (logInit cfg k c.driver).1.driver) ↔
      (logInit cfg k c.driver).2.toOption = none ∨ k.traceBuf = none ∨ ¬ k.pstoreTrace cfg := by
  have h := orderly_reach hc
  cases hinit : msmMinidumpLogInit cfg k.log k.kmsgDumpSz c.driver with
  | mk d res =>
    cases res with
    | error err =>
      have hresult : logInit cfg k c.driver = (⟨d, []⟩, .error err) := by rw [logInit, hinit]
      rw [hresult]
      exact ⟨fun _ => Or.inl rfl, fun _ => List.forall_mem_nil _⟩
    | ok log =>
      have hresult : logInit cfg k c.driver = (logRest cfg k (mdRegisterTraceBuf cfg k.traceBuf
          ⟨addAll cfg k.pstoreRegions d, [kmsgRegion k log.kmsgBuf]⟩), .ok log) := by
        rw [logInit, hinit]
        rfl
      rw [hresult] at hroom ⊢
      have htraceRoom := Nat.le_trans ((sound_logRest cfg p k).grows _) hroom
      have hlogRoom : d.numRegions ≤ 197 := by
        rw [mdRegisterTraceBuf_driver] at htraceRoom
        exact Nat.le_trans (numRegions_addAll cfg _ d) (Nat.le_trans (numRegions_addAll cfg _ _) htraceRoom)
      obtain ⟨hlog, hkmsg, hnames⟩ := msmMinidumpLogInit_registered h hinit hlogRoom
      have hnew' : traceName ∉ (registered d).map MdRegion.name := fun hmem => hnew (hnames hmem)
      obtain ⟨htrace, hbefore, hfree, htaken⟩ := mdRegisterTraceBuf_registered hlog
        [kmsgRegion k log.kmsgBuf] htraceRoom hnew'
      obtain ⟨hlast, hafter, new, hbuffers, hpublished⟩ := (sound_logRest cfg p k).publishes c _ htrace hroom
      rw [hbuffers, mdRegisterTraceBuf_buffers]
      constructor
      · intro hall
        cases hb : k.traceBuf with
        | none => exact Or.inr (Or.inl rfl)
        | some b =>
          refine Or.inr (Or.inr fun htaken' => ?_)
          -- two regions would have the name
          obtain ⟨e, he, hname, hmem⟩ := htaken htaken'
          have htraceMem := hall (traceRegion b) (by simp [hb])
          have hsame : e.2 = traceRegion b := List.inj_on_of_nodup_map hlast.names_nodup
            (hafter.subset hmem) htraceMem hname
          exact hmemory b hb e he (congrArg MdRegion.virtAddr hsame)
      · intro hcond e he
        rcases List.mem_append.mp he with hfirst | hlater
        · refine hafter.subset ?_
          rcases List.mem_append.mp hfirst with hlogBuf | htraceBuf
          · rw [List.mem_singleton.mp hlogBuf]
            exact hbefore.subset hkmsg
          · obtain ⟨b, hb, rfl⟩ := List.mem_map.mp htraceBuf
            have hb' : k.traceBuf = some b := Option.mem_toList.mp hb
            rcases hcond with hfailed | hno | hnone
            · cases hfailed
            · rw [hno] at hb'
              cases hb'
            · exact hfree hnone b hb'
        · exact hpublished e hlater

end Trace

/-- A `ramoops` with a record, a console and trace records of 256 KiB each. -/
def tracedPstore : Pstore where
  paddr := 0xb0000000
  recordSize := some 0x40000
  consoleSize := some 0x40000
  ftraceSize := some 0x40000
  pmsgSize := none
  physToVirt := fun a => a + 0xffff000000000000
  alloc := fun _ => true
  id := 0

/-- It is there in a configuration with a trace buffer. -/
def tracedInit : InitKernel where
  log := plainLog
  kmsgDumpSz := 0x20000
  pstore := some tracedPstore
  traceBuf := some ⟨0xffff000090000000, 0x90000000, true, 0, by decide⟩
  modules := none
  panic := some
    { runqPages := 8
      runq := ⟨some ⟨fun _ => 0, 0xffff000091000000, rfl⟩, true, 0x91000000, true, 0⟩
      cntxt := none
      meminfo := ⟨some ⟨fun _ => 0, 0xffff000092000000, rfl⟩, true, 0x92000000, true, 0⟩
      slabinfo := none
      pageowner := none
      slabowner := none
      dmaInfo := some ⟨0xffff000093000000, 0x93000000, true, 0, by decide⟩
      dmaProc := none }

/-- The trace that is stored in the buffer is not in the dump. -/
theorem log_buffers_registered_iff_ramoops :
    ¬ ∀ e ∈ (logInit Config.plain tracedInit (plainClient []).driver).1.buffers,
      e ∈ registered (logInit Config.plain tracedInit (plainClient []).driver).1.driver := by
  have hreach : (smemClients Config.plain (Platform.plain false) (· = [])).Reach (RemovableCall Config.plain)
      (plainClient []) := .init plainClient_init
  intro hall
  rcases (log_buffers_registered_iff hreach (by decide +kernel) (by decide +kernel) (by decide +kernel)).mp hall with
    hfailed | hno | hnone
  · exact absurd hfailed (by decide +kernel)
  · cases hno
  · exact hnone (by decide +kernel)

end SafelinuxDbg.MinidumpLog
