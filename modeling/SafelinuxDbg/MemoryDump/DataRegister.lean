import SafelinuxDbg.MemoryDump.AllocFailure
import SafelinuxDbg.Lib.Numerals
import SafelinuxDbg.Minidump.OrderlyCalls

/-!
# Registering data to be dumped

Once the carve-out is set up, other drivers register what they want to have dumped.  The entry goes
into the table of the applications processor, byte by byte, and what the header behind it describes
also goes to the minidump driver as a region, whose refusal is only reported.

`DumpTables` is what the two sides are meant to hold, a list of entries and a list of regions.  The
other clients of the minidump driver make their calls at the same time, and the headers and the data
are written whenever their owners like.

* `Listed.getTable`: only the table of the applications processor is ever found.
* `listed_alloc`: the table as `mem_dump_alloc` leaves it.
* `registrations_refine`: in every run memory and driver hold what `DumpTables` says.
-/

namespace SafelinuxDbg.MemoryDump

open CMemory Minidump

/-! ## The functions -/

/-- The string in the `n` bytes at `a`. -/
def strAt (m : Nat → UInt8) (a n : Nat) : CStr where
  bytes := (slice m a n).takeWhile (· != 0)
  noNul := by
    intro h
    have hne := List.all_eq_true.mp (List.all_takeWhile (l := slice m a n)) _ h
    cases hne

/-- `%X`. -/
def upperHex (n : Nat) : CStr where
  bytes := (hexadecimal n).map (fun b => if b < 97 then b else b - 32)
  noNul := by
    intro h
    obtain ⟨b, hb, hzero⟩ := List.mem_map.mp h
    have hrange := mem_hexadecimal hb
    split at hzero
    · subst hzero
      revert hrange
      decide
    · obtain rfl : b = 32 := by
        rw [UInt8.sub_eq_iff_eq_add, UInt8.zero_add] at hzero
        exact hzero
      revert hrange
      decide

/-- The fields of `struct msm_dump_data` that are read. -/
structure MsmDumpData where
  name : CStr
  addr : UInt64
  len : UInt64

/-- The header at `a`. -/
def dumpDataAt (m : Nat → UInt8) (a : Nat) : MsmDumpData :=
  ⟨strAt m (a + 8) 32, read64 m (a + 40), read64 m (a + 48)⟩

/-- The region for the data of a header: without a name, it is named by its id. -/
def MsmDumpData.region (cfg : Config) (physToVirt : UInt64 → UInt64) (id : UInt32) (data : MsmDumpData) :
    MdRegion where
  name :=
    if data.name = CStr.empty then
      (CStr.ofString "KMDT0x" ++ upperHex id.toNat).truncate cfg.maxNameLength
    else data.name.truncate cfg.maxNameLength
  id := id
  virtAddr := physToVirt data.addr
  physAddr := data.addr
  size := data.len

/-- `msm_dump_data_add_minidump`. -/
def msmDumpDataAddMinidump (cfg : Config) (physToVirt : UInt64 → UInt64) (alloc : Bool) (id : UInt32)
    (addr : UInt64) (m : Nat → UInt8) (d : Driver) : Driver × Except Minidump.Errno Nat :=
  let data := dumpDataAt m (physToVirt addr).toNat
  if data.addr = 0 ∨ data.len = 0 then (d, .error .EINVAL)
  else msmMinidumpAddRegion cfg alloc (data.region cfg physToVirt id) d

/-- `msm_dump_data_register`: the memory and the minidump driver, and what is returned. -/
def msmDumpDataRegister (cfg : Config) (physToVirt : UInt64 → UInt64) (memdump : MsmMemoryDump)
    (table id : UInt32) (addr : UInt64) (alloc : Bool) (m : Nat → UInt8) (d : Driver) :
    ((Nat → UInt8) × Driver) × Except Errno Unit :=
  match registerDumpTableEntry memdump m table id addr with
  | .error e => ((m, d), .error e)
  | .ok m' => ((m', (msmDumpDataAddMinidump cfg physToVirt alloc id addr m' d).1), .ok ())

/-! ## The table of the applications processor -/

/-- The table lists `es`, and is the only one that the base table leads to. -/
structure Listed (virt : Nat) (phys : UInt64) (es : List MsmDumpEntry) (m : Nat → UInt8) : Prop where
  ids : ∀ i < maxNumEntries, (entryAt m virt i).id = dumpTableApps
  first : (entryAt m virt 0).addr = phys + UInt64.ofNat dumpTableSize
  num : numEntries m (virt + dumpTableSize) = UInt32.ofNat es.length
  entries : entryView.At m (virt + dumpTableSize + 8) es
  room : es.length ≤ maxNumEntries

section Table

variable {virt : Nat} {phys : UInt64} {es : List MsmDumpEntry} {m m' : Nat → UInt8}

/-- An entry of the base table is read from the base table. -/
theorem entryAt_base (h : ∀ x, virt ≤ x → x < virt + dumpTableSize → m' x = m x) {i : Nat}
    (hi : i < maxNumEntries) : entryAt m' virt i = entryAt m virt i := by
  have htable := dumpTableSize_eq
  have hsize := dumpEntrySize_eq
  have hbound : dumpEntrySize * i + dumpEntrySize ≤ 16128 := Nat.mul_le_mul_left dumpEntrySize hi
  apply entryView.decode_congr
  intro k hk
  have hlt : k < 48 := hk
  exact h _ (by omega) (by omega)

/-- Only the tables matter. -/
theorem Listed.congr (h : Listed virt phys es m)
    (htables : ∀ x, virt ≤ x → x < virt + dumpTableSize * 2 → m' x = m x) : Listed virt phys es m' := by
  have htable := dumpTableSize_eq
  have hroom := h.room
  have hbase : ∀ x, virt ≤ x → x < virt + dumpTableSize → m' x = m x :=
    fun x h1 h2 => htables x h1 (by omega)
  refine ⟨?_, ?_, ?_, ?_, hroom⟩
  · intro i hi
    rw [entryAt_base hbase hi]
    exact h.ids i hi
  · rw [entryAt_base hbase (by decide)]
    exact h.first
  · rw [← h.num, numEntries, numEntries]
    exact read32_congr (fun k hk => htables _ (by omega) (by omega))
  · refine h.entries.congr ?_
    intro x h1 h2
    have hbound : entryView.stride * es.length ≤ 48 * 336 := Nat.mul_le_mul_left 48 hroom
    exact (htables x (by omega) (by omega)).symm

/-- **Which tables are found**: all ids in the base table are that of the applications processor. -/
theorem Listed.getTable (h : Listed virt phys es m) (hphys : phys + UInt64.ofNat dumpTableSize ≠ 0)
    (table : UInt32) : msmDumpGetTable ⟨virt, phys⟩ m table =
      if table = dumpTableApps then .ok (virt + dumpTableSize) else .error .EINVAL := by
  rw [msmDumpGetTable]
  dsimp only
  by_cases happs : table = dumpTableApps
  · rw [if_pos happs]
    have hfound : (List.range maxNumEntries).find? (fun i => (entryAt m virt i).id == table) = some 0 := by
      rw [List.find?_range_eq_some]
      refine ⟨?_, List.mem_range.mpr (by decide), fun j hj => absurd hj (Nat.not_lt_zero j)⟩
      rw [h.ids 0 (by decide), happs]
      rfl
    have hoffset : (phys + UInt64.ofNat dumpTableSize - phys).toNat = dumpTableSize := by
      rw [UInt64.add_comm, UInt64.add_sub_cancel]
      exact UInt64.toNat_ofNat_of_lt (by decide)
    rw [hfound]
    dsimp only
    rw [h.first, if_neg hphys, hoffset]
  · rw [if_neg happs]
    have hnone : (List.range maxNumEntries).find? (fun i => (entryAt m virt i).id == table) = none := by
      rw [List.find?_eq_none]
      intro i hi
      rw [h.ids i (List.mem_range.mp hi), beq_iff_eq]
      exact Ne.symm happs
    rw [hnone]

/-- **Registering an entry**: it is listed last, or nothing happens. -/
theorem Listed.register (h : Listed virt phys es m) (hphys : phys + UInt64.ofNat dumpTableSize ≠ 0)
    (table id : UInt32) (addr : UInt64) :
    (table = dumpTableApps ∧ es.length < maxNumEntries ∧
      ∃ m', registerDumpTableEntry ⟨virt, phys⟩ m table id addr = .ok m' ∧
        Listed virt phys (es ++ [⟨id, dumpTypeData, addr⟩]) m') ∨
    (¬ (table = dumpTableApps ∧ es.length < maxNumEntries) ∧
      registerDumpTableEntry ⟨virt, phys⟩ m table id addr = .error .EINVAL) := by
  have hmax := maxNumEntries_eq
  have hsize := dumpEntrySize_eq
  rw [registerDumpTableEntry, h.getTable hphys]
  by_cases happs : table = dumpTableApps
  · rw [if_pos happs]
    dsimp only
    by_cases hroom : es.length < maxNumEntries
    · left
      obtain ⟨m', hm', hadded⟩ := addEntry_ok ⟨id, dumpTypeData, addr⟩ h.num hroom
      have hbound : dumpEntrySize * es.length + dumpEntrySize ≤ 16128 :=
        Nat.mul_le_mul_left dumpEntrySize hroom
      have hbase : ∀ x, virt ≤ x → x < virt + dumpTableSize → m' x = m x :=
        fun x _ h2 => hadded.frame x (by omega)
      refine ⟨happs, hroom, m', hm', ?_, ?_, ?_, ?_, ?_⟩
      · intro i hi
        rw [entryAt_base hbase hi]
        exact h.ids i hi
      · rw [entryAt_base hbase (by decide)]
        exact h.first
      · rw [hadded.num, List.length_append, List.length_singleton]
      · have hold : entryView.At m' (virt + dumpTableSize + 8) es := by
          refine h.entries.congr ?_
          intro x h1 h2
          exact (hadded.frame x (Or.inr (Or.inl ⟨h1, h2⟩))).symm
        exact hold.push hadded.entry
      · rw [List.length_append, List.length_singleton]
        exact hroom
    · right
      have hfull : es.length = maxNumEntries := Nat.le_antisymm h.room (Nat.not_lt.mp hroom)
      refine ⟨fun hboth => hroom hboth.2, addEntry_full _ ?_⟩
      rw [h.num, hfull]
  · right
    rw [if_neg happs]
    exact ⟨fun hboth => happs hboth.1, rfl⟩

end Table

/-! ## The table after the allocation -/

section Alloc

variable {virt o : Nat} {phys : UInt64} {ps : List Placement} {s : Carving}

/-- A round of the second loop of `mem_dump_alloc` leaves the base table alone. -/
theorem child_base (h : CarveInv virt phys o ps s) (hphys : phys + UInt64.ofNat dumpTableSize ≠ 0)
    (c : ChildNode × Kzalloc) {x : Nat} (hx : x < virt + dumpTableSize) :
    (s.child ⟨virt, phys⟩ c).mem x = s.mem x := by
  obtain ⟨child, kzalloc⟩ := c
  by_cases hboth : ∃ size id, child.dumpSize = some size ∧ child.dumpId = some id
  · obtain ⟨size, id, hsize, hid⟩ := hboth
    have hbuilt := h.storeHeader_built child.name size
    have hheader : storeHeader s child.name size x = s.mem x := by
      have hvaddr := h.dumpVaddr
      have htables := h.tables
      exact storeHeader_outside s child.name size (by omega)
    rw [child_mem ⟨virt, phys⟩ s kzalloc hsize hid, withEntry, registerDumpTableEntry,
      hbuilt.msmDumpGetTable_eq hphys, ← hheader]
    dsimp only
    have happs := hbuilt.appsNum
    by_cases hroom : ps.length < maxNumEntries
    · rw [Nat.min_eq_left (Nat.le_of_lt hroom)] at happs
      obtain ⟨m', hm', hadded⟩ := addEntry_ok ⟨id, dumpTypeData, s.physAddr⟩ happs hroom
      rw [hm']
      exact hadded.frame x (by omega)
    · rw [Nat.min_eq_right (Nat.not_lt.mp hroom)] at happs
      rw [addEntry_full _ happs]
  · rw [child_skip ⟨virt, phys⟩ s kzalloc (fun size id hsize hid => hboth ⟨size, id, hsize, hid⟩)]

theorem foldl_child_base (hphys : phys + UInt64.ofNat dumpTableSize ≠ 0) {x : Nat}
    (hx : x < virt + dumpTableSize) (children : List (ChildNode × Kzalloc)) :
    ∀ {o : Nat} {ps : List Placement} {s : Carving}, CarveInv virt phys o ps s →
      (children.foldl (Carving.child ⟨virt, phys⟩) s).mem x = s.mem x := by
  induction children with
  | nil => exact fun _ => rfl
  | cons c children ih =>
    intro o ps s h
    have hfirst := child_base h hphys c hx
    obtain ⟨child, kzalloc⟩ := c
    rw [List.foldl_cons, ← hfirst]
    by_cases hboth : ∃ size id, child.dumpSize = some size ∧ child.dumpId = some id
    · obtain ⟨size, id, hsize, hid⟩ := hboth
      exact ih (h.place kzalloc hsize hid hphys)
    · rw [child_skip ⟨virt, phys⟩ s kzalloc (fun size id hsize hid => hboth ⟨size, id, hsize, hid⟩)]
      exact ih h

/-- Behind its first entry the base table is clear. -/
theorem initMemoryDump_clear (mem : Nat → UInt8) {total : Nat} (htotal : dumpTableSize * 2 ≤ total)
    {memdump : MsmMemoryDump} {m : Nat → UInt8}
    (hinit : initMemoryDump (memset mem virt total 0) virt phys = (memdump, .ok m)) {x : Nat}
    (h1 : virt + 8 + dumpEntrySize ≤ x) (h2 : x < virt + dumpTableSize) : m x = 0 := by
  have htable := dumpTableSize_eq
  have hsize := dumpEntrySize_eq
  rw [initMemoryDump, msmDumpTableRegister] at hinit
  generalize hm : write32 (write32 (memset mem virt total 0) virt dumpTableVersion)
    (virt + dumpTableSize) dumpTableVersion = cleared at hinit
  have hzero : ∀ y, virt + 4 ≤ y → y < virt + dumpTableSize → cleared y = 0 := by
    intro y hy1 hy2
    rw [← hm, write32, writeLE_outside _ (by omega), write32, writeLE_outside _ (by omega), memset,
      if_pos (by omega)]
  have hnum : numEntries cleared virt = UInt32.ofNat 0 := by
    rw [numEntries]
    refine Eq.trans ?_ (read32_zero (virt + 4))
    exact read32_congr (fun k hk => hzero _ (by omega) (by omega))
  obtain ⟨m', hm', hadded⟩ :=
    addEntry_ok ⟨dumpTableApps, dumpTypeTable, phys + UInt64.ofNat dumpTableSize⟩ hnum
      (show 0 < maxNumEntries by decide)
  rw [hm'] at hinit
  cases hinit
  rw [hadded.frame x (Or.inr (Or.inr (by omega)))]
  exact hzero x (by omega) h2

/-- The entries of the children, as many as there is room for. -/
def childEntries (phys : UInt64) (children : List ChildNode) : List MsmDumpEntry :=
  ((placements (dumpTableSize * 2) children).take maxNumEntries).map (Placement.entry phys)

/-- **The table that `mem_dump_alloc` leaves** lists the children. -/
theorem listed_alloc {env : Probing} (h : env.Obtains virt phys) :
    phys + UInt64.ofNat dumpTableSize ≠ 0 ∧
      ∃ c, memDumpAlloc env.mem virt phys env.children = .ok (⟨virt, phys⟩, c) ∧
        Listed virt phys (childEntries phys (env.children.map Prod.fst)) c.mem := by
  have htable := dumpTableSize_eq
  have hsize := dumpEntrySize_eq
  have htotal := env.tables_le
  have hinside := env.inside virt phys h.2.2
  have hphys : phys + UInt64.ofNat dumpTableSize ≠ 0 := phys_add_tableSize_ne_zero (by omega)
  obtain ⟨m, hinit, hinv⟩ := CarveInv.start env.mem virt phys htotal
  have hloop := hinv.children hphys env.children
  rw [List.nil_append] at hloop
  rw [memDumpAlloc, hinit]
  refine ⟨hphys, _, rfl, ?_⟩
  dsimp only
  generalize hend : env.children.foldl (Carving.child ⟨virt, phys⟩) (Carving.start m virt phys) = s at hloop
  have hbase : ∀ x, x < virt + dumpTableSize → s.mem x = m x := by
    intro x hx
    rw [← hend]
    exact foldl_child_base hphys hx env.children hinv
  have hbuilt : Built virt phys (placements (dumpTableSize * 2) (env.children.map Prod.fst))
      (if s.cpudata.sprsInitialized then resetSprBuffers s.mem s.cpudata.sprdata else s.mem) := by
    split
    · exact hloop.reset
    · exact hloop.built
  have hreset : ∀ x, x < virt + dumpTableSize →
      (if s.cpudata.sprsInitialized then resetSprBuffers s.mem s.cpudata.sprdata else s.mem) x = m x := by
    intro x hx
    rw [← hbase x hx]
    split
    · apply resetSprBuffers_outside
      intro i a size hi
      obtain ⟨p, hp, rfl, -⟩ := hloop.sprdata i a size hi
      have hoffset := hloop.offsets p hp
      rw [Placement.data]
      omega
    · rfl
  refine ⟨?_, ?_, ?_, hbuilt.apps, ?_⟩
  · intro i hi
    cases i with
    | zero =>
      rw [hbuilt.baseEntry]
    | succ i =>
      have hlow : dumpEntrySize ≤ dumpEntrySize * (i + 1) := Nat.le_mul_of_pos_right _ (Nat.succ_pos i)
      have hbound : dumpEntrySize * (i + 1) + dumpEntrySize ≤ 16128 := Nat.mul_le_mul_left dumpEntrySize hi
      refine Eq.trans (read32_congr ?_) (read32_zero 0)
      intro k hk
      rw [hreset _ (by omega)]
      exact initMemoryDump_clear env.mem htotal hinit (by omega) (by omega)
  · rw [hbuilt.baseEntry]
  · rw [hbuilt.appsNum, childEntries, List.length_map, List.length_take, Nat.min_comm]
  · rw [childEntries, List.length_map, List.length_take]
    exact Nat.min_le_left _ _

end Alloc

/-! ## What the two sides hold -/

/-- The entries of the table and the regions of the minidump driver. -/
structure DumpTables where
  entries : List MsmDumpEntry
  regions : List MdRegion

namespace DumpTables

variable (t : DumpTables)

/-- It is the right table, and it has room. -/
def Takes (table : UInt32) : Prop := table = dumpTableApps ∧ t.entries.length < maxNumEntries

instance (table : UInt32) : Decidable (t.Takes table) := inferInstanceAs (Decidable (_ ∧ _))

/-- An entry is listed if it is taken. -/
def list (table id : UInt32) (addr : UInt64) : DumpTables :=
  if t.Takes table then { t with entries := t.entries ++ [⟨id, dumpTypeData, addr⟩] } else t

/-- A region is added if the driver asks for nothing that it lacks. -/
def offer (cfg : Config) (e : MdRegion) : DumpTables :=
  { t with regions := if AddsTo cfg t.regions e then t.regions ++ [e] else t.regions }

/-- With an entry that is taken goes the region of its header, unless there is no data. -/
def register (cfg : Config) (physToVirt : UInt64 → UInt64) (table id : UInt32) (addr : UInt64)
    (data : MsmDumpData) : DumpTables :=
  if t.Takes table ∧ data.addr ≠ 0 ∧ data.len ≠ 0 then
    (t.list table id addr).offer cfg (data.region cfg physToVirt id)
  else t.list table id addr

end DumpTables

/-! ## Runs -/

/-- The memory, and the minidump driver with its other clients. -/
structure DumpSystem where
  mem : Nat → UInt8
  client : Client

/-- A registration, a store into headers or data, or a call of another client. -/
inductive DumpEvent
  | register (table id : UInt32) (addr : UInt64) (alloc : Bool)
  | registerNominidump (table id : UInt32) (addr : UInt64)
  | store (m : Nat → UInt8)
  | call (c : Call)

section System

variable (cfg : Config) (physToVirt : UInt64 → UInt64) (virt : Nat) (phys : UInt64)

def DumpSystem.step (s : DumpSystem) : DumpEvent → DumpSystem
  | .register table id addr alloc =>
    let r := msmDumpDataRegister cfg physToVirt ⟨virt, phys⟩ table id addr alloc s.mem s.client.driver
    ⟨r.1.1, { s.client with driver := r.1.2 }⟩
  | .registerNominidump table id addr =>
    match registerDumpTableEntry ⟨virt, phys⟩ s.mem table id addr with
    | .ok m => { s with mem := m }
    | .error _ => s
  | .store m => { s with mem := m }
  | .call c => { s with client := s.client.step cfg c }

/-- What an event does to the two lists.  The header is read when its entry is in the table. -/
def noteDump (_ : DumpSystem) (event : DumpEvent) (s' : DumpSystem) (t : DumpTables) : DumpTables :=
  match event with
  | .register table id addr _ =>
    t.register cfg physToVirt table id addr (dumpDataAt s'.mem (physToVirt addr).toNat)
  | .registerNominidump table id addr => t.list table id addr
  | .store _ => t
  | .call _ => { t with regions := registered s'.client.driver }

/-- The region of the whole carve-out, whose `id` is never set. -/
def memdumpRegion (env : Probing) (id : UInt32) : MdRegion where
  name := (CStr.ofString "MEMDUMP").truncate cfg.maxNameLength
  id := id
  virtAddr := UInt64.ofNat virt
  physAddr := phys
  size := totalSize (env.children.map Prod.fst)

/-- The end of `mem_dump_alloc`, for clients that have registered `R` by then. -/
def AfterAlloc (p : Platform) (env : Probing) (id : UInt32) (R : List MdRegion) (s : DumpSystem) : Prop :=
  env.Obtains virt phys ∧
    ∃ c, memDumpAlloc env.mem virt phys env.children = .ok (⟨virt, phys⟩, c) ∧ s.mem = c.mem ∧
    ∃ client, (smemClients cfg p (· = [])).Reach (RemovableCall cfg) client ∧ registered client.driver = R ∧
    ∃ alloc,
      let d := (msmMinidumpAddRegion cfg alloc (memdumpRegion cfg virt phys env id) client.driver).1
      d.numRegions ≤ 197 ∧ s.client = { client with driver := d }

/-- **The dump table and the minidump driver**, with a record of what they are meant to hold. -/
def dumpSystem (p : Platform) (env : Probing) (id : UInt32) (R : List MdRegion) :
    Machine (DumpSystem × DumpTables) DumpEvent :=
  Machine.recording
    { init := AfterAlloc cfg virt phys p env id R
      step := fun s event => some (s.step cfg physToVirt virt phys event) }
    (noteDump cfg physToVirt)
    (DumpTables.offer ⟨childEntries phys (env.children.map Prod.fst), R⟩ cfg
      (memdumpRegion cfg virt phys env id))

/-- Headers and data are not in the tables, the other clients keep to their rules, and the header
buffer has room for the regions. -/
def DumpOk (s : DumpSystem) : DumpEvent → Prop
  | .register table id addr alloc =>
    (s.step cfg physToVirt virt phys (.register table id addr alloc)).client.driver.numRegions ≤ 197
  | .registerNominidump _ _ _ => True
  | .store m => ∀ x, virt ≤ x → x < virt + dumpTableSize * 2 → m x = s.mem x
  | .call c => RemovableCall cfg s.client c

end System

/-- What every event keeps. -/
structure Holds (cfg : Config) (p : Platform) (virt : Nat) (phys : UInt64) (s : DumpSystem)
    (t : DumpTables) : Prop where
  listed : Listed virt phys t.entries s.mem
  orderly : Orderly cfg p s.client
  regions : registered s.client.driver = t.regions

section Steps

variable {cfg : Config} {physToVirt : UInt64 → UInt64} {virt : Nat} {phys : UInt64} {p : Platform}
  {s : DumpSystem} {t : DumpTables}

theorem list_of_takes {table : UInt32} (h : t.Takes table) (id : UInt32) (addr : UInt64) :
    t.list table id addr = { t with entries := t.entries ++ [⟨id, dumpTypeData, addr⟩] } := if_pos h

theorem list_of_not_takes {table : UInt32} (h : ¬ t.Takes table) (id : UInt32) (addr : UInt64) :
    t.list table id addr = t := if_neg h

/-- **A registration** does to both sides what it is meant to. -/
theorem Holds.register (h : Holds cfg p virt phys s t) (hphys : phys + UInt64.ofNat dumpTableSize ≠ 0)
    {table id : UInt32} {addr : UInt64} {alloc : Bool}
    (hok : DumpOk cfg physToVirt virt phys s (.register table id addr alloc)) :
    Holds cfg p virt phys (s.step cfg physToVirt virt phys (.register table id addr alloc))
      (t.register cfg physToVirt table id addr
        (dumpDataAt (s.step cfg physToVirt virt phys (.register table id addr alloc)).mem
          (physToVirt addr).toNat)) := by
  rw [DumpOk] at hok
  rcases h.listed.register hphys table id addr with ⟨happs, hroom, m, hm, hlisted⟩ | ⟨hnot, hm⟩
  · have htakes : t.Takes table := ⟨happs, hroom⟩
    simp only [DumpSystem.step, msmDumpDataRegister, hm, msmDumpDataAddMinidump] at hok ⊢
    generalize dumpDataAt m (physToVirt addr).toNat = data at hok ⊢
    rw [DumpTables.register, list_of_takes htakes]
    by_cases hempty : data.addr = 0 ∨ data.len = 0
    · rw [if_pos hempty] at hok ⊢
      rw [if_neg (by rw [← not_or]; exact fun hboth => hboth.2 hempty)]
      exact ⟨hlisted, h.orderly, h.regions⟩
    · rw [if_neg hempty] at hok ⊢
      rw [if_pos ⟨htakes, not_or.mp hempty⟩]
      obtain ⟨horderly, hregions⟩ := h.orderly.addRegion alloc (data.region cfg physToVirt id) hok
      rw [h.regions] at hregions
      exact ⟨hlisted, horderly, hregions⟩
  · have hrefused : ¬ t.Takes table := hnot
    simp only [DumpSystem.step, msmDumpDataRegister, hm]
    rw [DumpTables.register, if_neg (fun hboth => hrefused hboth.1), list_of_not_takes hrefused]
    exact ⟨h.listed, h.orderly, h.regions⟩

/-- **One event**, of any kind. -/
theorem Holds.step (h : Holds cfg p virt phys s t) (hphys : phys + UInt64.ofNat dumpTableSize ≠ 0)
    {event : DumpEvent} (hok : DumpOk cfg physToVirt virt phys s event) :
    Holds cfg p virt phys (s.step cfg physToVirt virt phys event)
      (noteDump cfg physToVirt s event (s.step cfg physToVirt virt phys event) t) := by
  cases event with
  | register table id addr alloc => exact h.register hphys hok
  | registerNominidump table id addr =>
    rw [noteDump, DumpSystem.step]
    rcases h.listed.register hphys table id addr with ⟨happs, hroom, m, hm, hlisted⟩ | ⟨hnot, hm⟩
    · rw [hm, list_of_takes ⟨happs, hroom⟩]
      exact ⟨hlisted, h.orderly, h.regions⟩
    · rw [hm, list_of_not_takes hnot]
      exact h
  | store m => exact ⟨h.listed.congr hok, h.orderly, h.regions⟩
  | call c => exact ⟨h.listed, h.orderly.call hok, rfl⟩

/-- **After the allocation** the children are listed and the carve-out is registered. -/
theorem holds_afterAlloc {env : Probing} {id : UInt32} {R : List MdRegion}
    (h : AfterAlloc cfg virt phys p env id R s) :
    phys + UInt64.ofNat dumpTableSize ≠ 0 ∧
      Holds cfg p virt phys s (DumpTables.offer ⟨childEntries phys (env.children.map Prod.fst), R⟩ cfg
        (memdumpRegion cfg virt phys env id)) := by
  obtain ⟨hobtains, c, halloc, hmem, client, hreach, hR, alloc, hroom, hclient⟩ := h
  obtain ⟨hphys, c', halloc', hlisted⟩ := listed_alloc hobtains
  rw [halloc] at halloc'
  cases halloc'
  obtain ⟨horderly, hregions⟩ := (orderly_reach hreach).addRegion alloc _ hroom
  rw [hR] at hregions
  refine ⟨hphys, ?_, ?_, ?_⟩
  · rw [hmem]
    exact hlisted
  · rw [hclient]
    exact horderly
  · rw [hclient]
    exact hregions

theorem holds_reach {env : Probing} {id : UInt32} {R : List MdRegion} {x : DumpSystem × DumpTables}
    (hx : (dumpSystem cfg physToVirt virt phys p env id R).Reach
      (fun x => DumpOk cfg physToVirt virt phys x.1) x) :
    phys + UInt64.ofNat dumpTableSize ≠ 0 ∧ Holds cfg p virt phys x.1 x.2 := by
  refine hx.invariant (I := fun x => phys + UInt64.ofNat dumpTableSize ≠ 0 ∧ Holds cfg p virt phys x.1 x.2)
    ?_ ?_
  · rintro ⟨s, t⟩ ⟨hinit, rfl⟩
    exact holds_afterAlloc hinit
  · rintro ⟨s, t⟩ event ⟨s', t'⟩ ⟨hphys, h⟩ hok hstep
    obtain ⟨hstep, hnote⟩ := Machine.recording_step hstep
    obtain rfl : s.step cfg physToVirt virt phys event = s' := Option.some.inj hstep
    refine ⟨hphys, ?_⟩
    dsimp only at hnote ⊢
    rw [hnote]
    exact h.step hphys hok

/-- **Registrations do what they are meant to.**  In every run of registrations, stores into headers
and calls of other clients, the table that is found holds the listed entries and no more, the driver's
tables and headers describe the regions and no others, and a registration returns 0 exactly when its
entry is taken, whatever becomes of the region. -/
theorem registrations_refine {env : Probing} {id : UInt32} {R : List MdRegion} {x : DumpSystem × DumpTables}
    (hx : (dumpSystem cfg physToVirt virt phys p env id R).Reach
      (fun x => DumpOk cfg physToVirt virt phys x.1) x) :
    (∀ table, msmDumpGetTable ⟨virt, phys⟩ x.1.mem table =
      if table = dumpTableApps then .ok (virt + dumpTableSize) else .error .EINVAL) ∧
    (numEntries x.1.mem (virt + dumpTableSize)).toNat = x.2.entries.length ∧
    x.2.entries.length ≤ maxNumEntries ∧
    (∀ i (hi : i < x.2.entries.length), entryAt x.1.mem (virt + dumpTableSize) i = x.2.entries[i]) ∧
    registered x.1.client.driver = x.2.regions ∧
    (∀ i (hi : i < x.2.regions.length), Describes x.1.client.driver i x.2.regions[i]) ∧
    (∀ table id addr alloc, (msmDumpDataRegister cfg physToVirt ⟨virt, phys⟩ table id addr alloc x.1.mem
      x.1.client.driver).2 = if x.2.Takes table then .ok () else .error .EINVAL) := by
  obtain ⟨hphys, h⟩ := holds_reach hx
  refine ⟨h.listed.getTable hphys, ?_, h.listed.room, h.listed.entries, h.regions, ?_, ?_⟩
  · have hroom := h.listed.room
    have hmax := maxNumEntries_eq
    rw [h.listed.num]
    exact UInt32.toNat_ofNat_of_lt (show x.2.entries.length < 2 ^ 32 by omega)
  · intro i hi
    refine h.orderly.describes ?_
    rw [h.regions]
    exact List.getElem?_eq_getElem hi
  · intro table id addr alloc
    rw [msmDumpDataRegister]
    rcases h.listed.register hphys table id addr with ⟨happs, hroom, m, hm, -⟩ | ⟨hnot, hm⟩
    · rw [hm, if_pos ⟨happs, hroom⟩]
    · have hrefused : ¬ x.2.Takes table := hnot
      rw [hm, if_neg hrefused]

end Steps

/-- One child, with everything. -/
def oneChild : Probing where
  children := [(⟨CStr.ofString "cpuss_reg", some 4096, some 0xEF⟩, ⟨true, true⟩)]
  dmaMask := none
  reserved := true
  memory := some (0x1000, 0x80000000)
  mem := fun _ => 0
  addRegion := true
  createFile := fun _ => true
  few := by decide
  inside := by
    rintro virt phys h
    cases h
    decide +kernel

/-- The memory after `mem_dump_alloc`. -/
def oneChildMem : Nat → UInt8 :=
  match memDumpAlloc oneChild.mem 0x1000 0x80000000 oneChild.children with
  | .ok (_, c) => c.mem
  | .error _ => oneChild.mem

/-- A header of 512 bytes of data, which has a name. -/
def etrHeader (m : Nat → UInt8) : Nat → UInt8 :=
  write64 (write64 (writeBytes m 0x1090000008 (CStr.ofString "tmc_etr").bytes) 0x1090000028 0x90001000)
    0x1090000030 512

def linearMap (a : UInt64) : UInt64 := a + 0x1000000000

def etrStart : DumpSystem :=
  ⟨oneChildMem, { plainClient [] with
    driver := (msmMinidumpAddRegion Config.plain true
      (memdumpRegion Config.plain 0x1000 0x80000000 oneChild 0) (plainClient []).driver).1 }⟩

def etrStored : DumpSystem :=
  etrStart.step Config.plain linearMap 0x1000 0x80000000 (.store (etrHeader oneChildMem))

def etrRegistered : DumpSystem :=
  etrStored.step Config.plain linearMap 0x1000 0x80000000 (.register dumpTableApps 0x101 0x90000000 true)

/-- What the two sides are meant to hold at the start. -/
def etrTables : DumpTables :=
  DumpTables.offer ⟨childEntries 0x80000000 (oneChild.children.map Prod.fst), []⟩ Config.plain
    (memdumpRegion Config.plain 0x1000 0x80000000 oneChild 0)

theorem etrStart_afterAlloc : AfterAlloc Config.plain 0x1000 0x80000000 (Platform.plain false) oneChild 0 []
    etrStart := by
  have hobtains : oneChild.Obtains 0x1000 0x80000000 := ⟨rfl, rfl, rfl⟩
  obtain ⟨-, c, hc, -⟩ := listed_alloc hobtains
  refine ⟨hobtains, c, hc, ?_, plainClient [], .init plainClient_init, by decide +kernel, true,
    by decide +kernel, rfl⟩
  show oneChildMem = c.mem
  rw [oneChildMem, hc]

/-- A store behind the tables. -/
theorem etrHeader_outside (m : Nat → UInt8) {x : Nat} (hx : x < 0x1090000000) : etrHeader m x = m x := by
  rw [etrHeader, write64, writeLE_outside _ (by omega), write64, writeLE_outside _ (by omega),
    writeBytes_of_lt _ _ (by omega)]

/-- The second entry and the second region, after the child and the carve-out. -/
theorem registrations_refine_etr :
    entryAt etrRegistered.mem (0x1000 + dumpTableSize) 1 = ⟨0x101, dumpTypeData, 0x90000000⟩ ∧
      Describes etrRegistered.client.driver 1
        ⟨CStr.ofString "tmc_etr", 0x101, 0x1090001000, 0x90001000, 512⟩ := by
  have hstart : (dumpSystem Config.plain linearMap 0x1000 0x80000000 (Platform.plain false) oneChild 0 []).Reach
      (fun x => DumpOk Config.plain linearMap 0x1000 0x80000000 x.1) (etrStart, etrTables) :=
    .init ⟨etrStart_afterAlloc, rfl⟩
  have hstored := Machine.Reach.step hstart (a := .store (etrHeader oneChildMem)) (t := (etrStored, etrTables))
    (by
      intro x _ hx
      have htable := dumpTableSize_eq
      exact etrHeader_outside oneChildMem (by omega)) rfl
  have hregistered := Machine.Reach.step hstored (a := .register dumpTableApps 0x101 0x90000000 true)
    (t := (etrRegistered, noteDump Config.plain linearMap etrStored
      (.register dumpTableApps 0x101 0x90000000 true) etrRegistered etrTables))
    (by
      show etrRegistered.client.driver.numRegions ≤ 197
      decide +kernel) rfl
  obtain ⟨-, -, -, hentries, -, hregions, -⟩ := registrations_refine hregistered
  exact ⟨hentries 1 (by decide +kernel), hregions 1 (by decide +kernel)⟩

end SafelinuxDbg.MemoryDump
