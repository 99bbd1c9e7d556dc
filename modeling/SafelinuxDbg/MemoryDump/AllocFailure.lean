import SafelinuxDbg.MemoryDump.CarveOut

/-!
# When probing fails

`mem_dump_probe` returns what `mem_dump_alloc` returns, and the memory of the carve-out is taken
back when that is an error.  By then the base table is known to the rest of the driver, the region
MEMDUMP is registered and the files for the registers exist.  Nothing in the second loop of
`mem_dump_alloc` is meant to be an error, a child that lacks something is skipped, but the result
of the last child is still in `ret` at the end.

* `memDumpAlloc_carving`: what is in the memory is as in the model of the tables.
* `register_isOk_iff`: the table of the applications processor takes an entry unless it is full.
* `probe_failsClean_iff`: an error leaves nothing behind, and nothing that was skipped is an error,
  if and only if the last child was registered or the memory was never obtained.
* `probe_fails_after_skip`: a last child without a size.
-/

namespace SafelinuxDbg.MemoryDump

open CMemory

/-! ## The driver -/

/-- The files of `register_dump_attrs` and `spr_dump_attrs`. -/
inductive DumpAttr
  | coreRegNum | registerConfig | registerReset | formatVersion
  | sprConfig | sprsRegisterReset | sprsFormatVersion
deriving DecidableEq

def registerDumpAttrs : List DumpAttr :=
  [.coreRegNum, .registerConfig, .registerReset, .formatVersion]

def sprDumpAttrs : List DumpAttr := [.sprConfig, .sprsRegisterReset, .sprsFormatVersion]

/-- What the rest of the system sees of the driver. -/
structure Exposed where
  /-- `memdump.table`, unless it is `NULL` -/
  table : Option Nat
  files : List DumpAttr
  /-- the regions MEMDUMP, by virtual address and size -/
  regions : List (Nat × Nat)

/-- What probing meets. -/
structure Probing where
  /-- the available child nodes -/
  children : List (ChildNode × Kzalloc)
  /-- what `dma_set_mask_and_coherent` returns, when it is negative -/
  dmaMask : Option Errno
  /-- whether `mem_dump_reserve_mem` returns 0 -/
  reserved : Bool
  /-- the virtual and the physical address that `dmam_alloc_coherent` returns -/
  memory : Option (Nat × UInt64)
  /-- what was in memory before -/
  mem : Nat → UInt8
  /-- whether `msm_minidump_add_region` accepts the region -/
  addRegion : Bool
  /-- which calls of `device_create_file` succeed -/
  createFile : DumpAttr → Bool
  /-- `no_of_nodes` is an `int` -/
  few : ((children.map Prod.fst).filterMap ChildNode.dumpSize).length < 2 ^ 31
  /-- the memory does not go past the end of the address space -/
  inside : ∀ virt phys, memory = some (virt, phys) →
    phys.toNat + (totalSize (children.map Prod.fst)).toNat ≤ 2 ^ 64

/-- The loop of `memory_dump_create_files`: the files of `done` have been created. -/
def createFiles (createFile : DumpAttr → Bool) (done files : List DumpAttr) :
    List DumpAttr → List DumpAttr
  | [] => files
  | attr :: attrs =>
    if createFile attr then createFiles createFile (done ++ [attr]) (files ++ [attr]) attrs
    else files.filter (fun file => file ∉ done)

/-- `memory_dump_create_files`. -/
def memoryDumpCreateFiles (createFile : DumpAttr → Bool) (attrs files : List DumpAttr) :
    List DumpAttr :=
  createFiles createFile [] files attrs

/-- `cpuss_create_nodes`. -/
def cpussCreateNodes (createFile : DumpAttr → Bool) (d : CpussDumpData) (files : List DumpAttr) :
    List DumpAttr :=
  let files :=
    if d.percoreRegInitialized then memoryDumpCreateFiles createFile registerDumpAttrs files
    else files
  if d.sprsInitialized then memoryDumpCreateFiles createFile sprDumpAttrs files else files

/-- `ret` after a round of the second loop of `mem_dump_alloc`. -/
def Carving.childRet (memdump : MsmMemoryDump) (s : Carving) : ChildNode × Kzalloc → Option Errno
  | (child, _) =>
    match child.dumpSize, child.dumpId with
    | some size, some id =>
      match registerDumpTableEntry memdump (storeHeader s child.name size) dumpTableApps id
          s.physAddr with
      | .ok _ => none
      | .error e => some e
    | _, _ => some .EINVAL

/-- The second loop of `mem_dump_alloc`, with `ret`. -/
def carveChildren (memdump : MsmMemoryDump) (children : List (ChildNode × Kzalloc))
    (start : Carving × Option Errno) : Carving × Option Errno :=
  children.foldl (fun s c => (s.1.child memdump c, s.1.childRet memdump c)) start

/-- What `mem_dump_alloc` leaves behind once the memory is there, and what it returns. -/
def memDumpAllocAt (env : Probing) (before : Exposed) (virt : Nat) (phys : UInt64) :
    Exposed × Option Errno :=
  let totalSize := (totalSize (env.children.map Prod.fst)).toNat
  match initMemoryDump (memset env.mem virt totalSize 0) virt phys with
  | (memdump, .error e) => ({ before with table := some memdump.table }, some e)
  | (memdump, .ok m) =>
    let s := carveChildren memdump env.children (Carving.start m virt phys, none)
    ({ table := some memdump.table
       files := cpussCreateNodes env.createFile s.1.cpudata before.files
       regions := if env.addRegion then before.regions ++ [(virt, totalSize)] else before.regions },
      s.2)

/-- `mem_dump_probe`. -/
def memDumpProbe (env : Probing) (before : Exposed) : Exposed × Option Errno :=
  match env.dmaMask with
  | some e => (before, some e)
  | none =>
    if env.reserved then
      match env.memory with
      | none => (before, some .ENOMEM)
      | some (virt, phys) => memDumpAllocAt env before virt phys
    else (before, some .ENOMEM)

/-! ## What is wanted -/

namespace Probing

variable (env : Probing) (before : Exposed)

/-- `mem_dump_alloc` gets its memory. -/
def Obtains (virt : Nat) (phys : UInt64) : Prop :=
  env.dmaMask = none ∧ env.reserved = true ∧ env.memory = some (virt, phys)

/-- An error, after which the memory is taken back, leaves nothing behind that uses the memory. -/
def FailsClean : Prop :=
  ∀ virt phys, env.Obtains virt phys → ∀ e, (memDumpProbe env before).2 = some e →
    (∀ table, (memDumpProbe env before).1.table = some table →
        ¬ (virt ≤ table ∧ table < virt + (totalSize (env.children.map Prod.fst)).toNat)) ∧
      (memDumpProbe env before).1.files = before.files ∧
      (memDumpProbe env before).1.regions = before.regions

/-- With the memory there are only children that are registered and children that are skipped, and
nothing that is skipped is an error. -/
def SkipsQuietly : Prop :=
  ∀ virt phys, env.Obtains virt phys → (memDumpProbe env before).2 = none

end Probing

/-- The last child has a size and an id, and there is an entry left for it. -/
def LastRegistered (children : List ChildNode) : Prop :=
  ∀ child ∈ children.getLast?, child.dump.isSome ∧
    (children.filterMap ChildNode.dump).length ≤ maxNumEntries

instance (children : List ChildNode) : Decidable (LastRegistered children) := by
  unfold LastRegistered
  infer_instance

/-! ## The second loop -/

section Loop

variable {virt o : Nat} {phys : UInt64} {ps : List Placement} {s : Carving}

/-- The driver data and the memory do not depend on `ret`. -/
theorem carveChildren_fst (memdump : MsmMemoryDump) (children : List (ChildNode × Kzalloc))
    (start : Carving × Option Errno) :
    (carveChildren memdump children start).1 = children.foldl (Carving.child memdump) start.1 := by
  rw [carveChildren]
  induction children generalizing start with
  | nil => rfl
  | cons c children ih =>
    rw [List.foldl_cons, List.foldl_cons]
    exact ih _

theorem carveChildren_concat (memdump : MsmMemoryDump) (children : List (ChildNode × Kzalloc))
    (c : ChildNode × Kzalloc) (start : Carving × Option Errno) :
    (carveChildren memdump (children ++ [c]) start).2 =
      (children.foldl (Carving.child memdump) start.1).childRet memdump c := by
  rw [carveChildren, List.foldl_append, List.foldl_cons, List.foldl_nil, ← carveChildren_fst,
    carveChildren]

/-- **The table of the applications processor takes an entry** unless it is full. -/
theorem register_isOk_iff {m : Nat → UInt8} (h : Built virt phys ps m)
    (hphys : phys + UInt64.ofNat dumpTableSize ≠ 0) (id : UInt32) (addr : UInt64) :
    (∃ m', registerDumpTableEntry ⟨virt, phys⟩ m dumpTableApps id addr = .ok m') ↔
      ps.length < maxNumEntries := by
  have happs := h.appsNum
  rw [registerDumpTableEntry, h.msmDumpGetTable_eq hphys]
  dsimp only
  by_cases hroom : ps.length < maxNumEntries
  · rw [Nat.min_eq_left (Nat.le_of_lt hroom)] at happs
    obtain ⟨m', hm', -⟩ := addEntry_ok ⟨id, dumpTypeData, addr⟩ happs hroom
    exact ⟨fun _ => hroom, fun _ => ⟨m', hm'⟩⟩
  · rw [Nat.min_eq_right (Nat.not_lt.mp hroom)] at happs
    rw [addEntry_full _ happs]
    refine ⟨?_, fun hlt => absurd hlt hroom⟩
    rintro ⟨m', hm'⟩
    cases hm'

/-- What a round leaves in `ret`. -/
theorem CarveInv.childRet_eq_none_iff (h : CarveInv virt phys o ps s)
    (hphys : phys + UInt64.ofNat dumpTableSize ≠ 0) (c : ChildNode × Kzalloc) :
    s.childRet ⟨virt, phys⟩ c = none ↔ c.1.dump.isSome ∧ ps.length < maxNumEntries := by
  obtain ⟨child, kzalloc⟩ := c
  unfold Carving.childRet
  dsimp only
  split
  · rename_i size id hsize hid
    have hok := register_isOk_iff (h.storeHeader_built child.name size) hphys id s.physAddr
    rw [ChildNode.dump_of_both hsize hid, ← hok]
    cases registerDumpTableEntry ⟨virt, phys⟩ (storeHeader s child.name size) dumpTableApps id
      s.physAddr with
    | ok m' => exact ⟨fun _ => ⟨rfl, m', rfl⟩, fun _ => rfl⟩
    | error e =>
      refine ⟨fun hnone => absurd hnone (Option.some_ne_none e), ?_⟩
      rintro ⟨-, m', hm'⟩
      cases hm'
  · rename_i hskip
    rw [ChildNode.dump_of_skip hskip]
    refine ⟨fun hnone => absurd hnone (Option.some_ne_none _), ?_⟩
    rintro ⟨hsome, -⟩
    cases hsome

/-- **What the loop leaves in `ret`** depends on the last child. -/
theorem CarveInv.carveChildren_eq_none_iff
    (h : CarveInv virt phys (dumpTableSize * 2) [] s)
    (hphys : phys + UInt64.ofNat dumpTableSize ≠ 0) (children : List (ChildNode × Kzalloc)) :
    (carveChildren ⟨virt, phys⟩ children (s, none)).2 = none ↔
      LastRegistered (children.map Prod.fst) := by
  rcases List.eq_nil_or_concat children with rfl | ⟨children, c, rfl⟩
  · refine ⟨fun _ => ?_, fun _ => rfl⟩
    intro child hchild
    cases hchild
  · have hloop := h.children hphys children
    rw [List.nil_append] at hloop
    have hlength : (placements (dumpTableSize * 2) (children.map Prod.fst)).length =
        ((children.map Prod.fst).filterMap ChildNode.dump).length := by
      rw [← placements_dump (dumpTableSize * 2), List.length_map]
    rw [List.concat_eq_append, carveChildren_concat, hloop.childRet_eq_none_iff hphys, hlength,
      LastRegistered, List.map_append, List.map_singleton, List.getLast?_concat,
      List.filterMap_append, List.length_append]
    refine ⟨?_, fun hlast => ?_⟩
    · rintro ⟨hsome, hlt⟩ child hchild
      cases hchild
      obtain ⟨dump, hdump⟩ := Option.isSome_iff_exists.mp hsome
      refine ⟨hsome, ?_⟩
      rw [List.filterMap_cons_some hdump]
      exact hlt
    · obtain ⟨hsome, hle⟩ := hlast c.1 rfl
      obtain ⟨dump, hdump⟩ := Option.isSome_iff_exists.mp hsome
      rw [List.filterMap_cons_some hdump] at hle
      exact ⟨hsome, hle⟩

end Loop

/-! ## The result -/

section Result

variable {env : Probing} {virt : Nat} {phys : UInt64}

theorem Probing.tables_le (env : Probing) :
    dumpTableSize * 2 ≤ (totalSize (env.children.map Prod.fst)).toNat := by
  have hend := carveEnd_le (env.children.map Prod.fst)
  have hstart := le_carveEnd (dumpTableSize * 2) (env.children.map Prod.fst)
  rw [totalSize_toNat (carveOutSize_lt env.few)]
  exact Nat.le_trans hstart hend

/-- **With the memory, probing goes all the way**: the base table is set, and `ret` is that of the
second loop. -/
theorem Probing.Obtains.probe (h : env.Obtains virt phys) (before : Exposed) :
    (memDumpProbe env before).1.table = some virt ∧
      ((memDumpProbe env before).2 = none ↔ LastRegistered (env.children.map Prod.fst)) := by
  have htables := env.tables_le
  have htable := dumpTableSize_eq
  obtain ⟨hmask, hreserved, hmemory⟩ := h
  have hinside := env.inside virt phys hmemory
  have hphys : phys + UInt64.ofNat dumpTableSize ≠ 0 := phys_add_tableSize_ne_zero (by omega)
  obtain ⟨m, hinit, hinv⟩ := CarveInv.start env.mem virt phys htables
  rw [memDumpProbe, hmask, if_pos hreserved, hmemory]
  dsimp only
  rw [memDumpAllocAt, hinit]
  exact ⟨rfl, hinv.carveChildren_eq_none_iff hphys env.children⟩

/-- The memory is filled in as by `memDumpAlloc`, before the buffers of the cores are reset. -/
theorem memDumpAlloc_carving {memdump : MsmMemoryDump} {m : Nat → UInt8}
    (hinit : initMemoryDump
      (memset env.mem virt (totalSize (env.children.map Prod.fst)).toNat 0) virt phys =
        (memdump, .ok m)) :
    memDumpAlloc env.mem virt phys env.children =
      .ok (memdump,
        let s := (carveChildren memdump env.children (Carving.start m virt phys, none)).1
        { s with
          mem :=
            if s.cpudata.sprsInitialized then resetSprBuffers s.mem s.cpudata.sprdata
            else s.mem }) := by
  rw [memDumpAlloc, hinit, carveChildren_fst]

end Result

/-- **A failed probe leaves nothing behind**, and no skipped child makes it fail, if and only if
the memory was not obtained or the last child was registered. -/
theorem probe_failsClean_iff (env : Probing) (before : Exposed) :
    (env.FailsClean before ∧ env.SkipsQuietly before) ↔
      ((∀ virt phys, ¬ env.Obtains virt phys) ∨ LastRegistered (env.children.map Prod.fst)) := by
  refine ⟨?_, ?_⟩
  · rintro ⟨hclean, -⟩
    by_cases hnever : ∀ virt phys, ¬ env.Obtains virt phys
    · exact Or.inl hnever
    · right
      obtain ⟨virt, hvirt⟩ := not_forall.mp hnever
      obtain ⟨phys, hphys⟩ := not_forall.mp hvirt
      have hobtains := not_not.mp hphys
      obtain ⟨htable, hret⟩ := hobtains.probe before
      have hle := env.tables_le
      have hsize := dumpTableSize_eq
      rw [← hret]
      cases hresult : (memDumpProbe env before).2 with
      | none => rfl
      | some e =>
        -- the base table still is the start of the memory
        obtain ⟨hoff, -⟩ := hclean virt phys hobtains e hresult
        exact absurd ⟨Nat.le_refl virt, by omega⟩ (hoff virt htable)
  · intro hcond
    have hquiet : env.SkipsQuietly before := by
      intro virt phys hobtains
      rcases hcond with hnever | hlast
      · exact absurd hobtains (hnever virt phys)
      · exact (hobtains.probe before).2.mpr hlast
    refine ⟨?_, hquiet⟩
    intro virt phys hobtains e hresult
    rw [hquiet virt phys hobtains] at hresult
    cases hresult

/-- A child with everything, and one without a size. -/
def skippedLast : Probing where
  children := [(⟨CStr.ofString "cpuss_reg", some 4096, some 0xEF⟩, ⟨true, true⟩),
    (⟨CStr.ofString "nosize", none, some 7⟩, ⟨true, true⟩)]
  dmaMask := none
  reserved := true
  memory := some (0x1000, 0x80000000)
  mem := fun _ => 0
  addRegion := true
  createFile := fun _ => true
  few := by decide
  inside := by
    intro virt phys h
    cases h
    decide +kernel

/-- **The last child is skipped**: the base table, the region and the files stay, and the result is
an error. -/
theorem probe_fails_after_skip :
    skippedLast.Obtains 0x1000 0x80000000 ∧
      (memDumpProbe skippedLast ⟨none, [], []⟩).2 = some .EINVAL ∧
      (memDumpProbe skippedLast ⟨none, [], []⟩).1.table = some 0x1000 ∧
      (memDumpProbe skippedLast ⟨none, [], []⟩).1.files = registerDumpAttrs ∧
      (memDumpProbe skippedLast ⟨none, [], []⟩).1.regions = [(0x1000, 36864)] ∧
      ¬ (skippedLast.FailsClean ⟨none, [], []⟩ ∧ skippedLast.SkipsQuietly ⟨none, [], []⟩) := by
  have hobtains : skippedLast.Obtains 0x1000 0x80000000 := ⟨rfl, rfl, rfl⟩
  have hresult : (memDumpProbe skippedLast ⟨none, [], []⟩).2 = some .EINVAL := by
    decide +kernel
  refine ⟨hobtains, hresult, ?_, ?_, ?_, ?_⟩
  · decide +kernel
  · decide +kernel
  · decide +kernel
  · rintro ⟨-, hquiet⟩
    rw [hquiet _ _ hobtains] at hresult
    cases hresult

end SafelinuxDbg.MemoryDump
