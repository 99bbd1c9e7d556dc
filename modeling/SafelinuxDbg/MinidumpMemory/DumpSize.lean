import SafelinuxDbg.Minidump.GetRegion

/-!
# Regions whose size can be changed

Four dumps live in buffers of the CMA area: the page owners, the slab owners, and two about DMA
buffers.  `md_register_panic_data` registers them, and after that the size of each can be written to
a file of debugfs: `update_dump_size` takes the region out, gives its buffer back, and registers a
new one, or the old size again where the new one fails.  The size of a dump stands in three places:
in `dump_size`, in the entry of minidump, and in the area.

What the environment decides is an argument: the buffer that `cma_alloc` finds, and whether minidump
takes a region or gives one back.

* `listed_add`, `listed_remove`, `listed_getRegion`: this is what the driver does in SMEM mode.
* `Consistent`: the three agree.
* `dumps_consistent`: they do after every write, for a dump that was registered at first, and sizes
  whose number of bytes passes through an `int`.
-/

namespace SafelinuxDbg.MinidumpMemory

open CMemory Minidump

/-! ## The code -/

/-- The dumps, under the names of their regions. -/
inductive DumpName
  | pageowner | slabowner | dmaInfo | dmaProc
deriving DecidableEq

namespace DumpName

def name : DumpName → CStr
  | pageowner => .ofString "PAGEOWNER"
  | slabowner => .ofString "SLABOWNER"
  | dmaInfo => .ofString "DMA_INFO"
  | dmaProc => .ofString "DMA_PROC"

/-- The first value of `dump_size`. -/
def initialSize : DumpName → UInt64
  | pageowner | slabowner => 0x200000
  | dmaInfo | dmaProc => 0x40000

/-- The dumps that keep a table of handles. -/
def isOwner : DumpName → Bool
  | pageowner | slabowner => true
  | dmaInfo | dmaProc => false

end DumpName

/-- `dma_contiguous_default_area`, which is part of the physical memory. -/
structure CmaArea where
  pages : Nat
  pages_lt : pages < 2 ^ 52

/-- The variables of the dumps, with the regions in minidump and the pages handed out at each
address of the area. -/
structure Dumps where
  regions : List MdRegion
  allocated : UInt64 → Nat
  dumpAddr : DumpName → UInt64
  dumpSize : DumpName → UInt64
  handlesSize : DumpName → UInt64

/-- What the environment decides about a registration: the virtual and the physical address of the
buffer, if there is one, and whether minidump takes the region. -/
structure Registration where
  buffer : Option (UInt64 × UInt64)
  taken : Bool

/-- An argument of type `int`. -/
def toInt (size : UInt64) : Int := Int.bmod size.toNat (2 ^ 32)

/-- `size >> PAGE_SHIFT`, as the page count of `cma_alloc`. -/
def pageCount (size : Int) : Nat := (size / 4096 % 2 ^ 64).toNat

/-- `cma_alloc`: there is nothing for a count of zero or one above that of the area, and a buffer is
not handed out twice. -/
def cmaAlloc (cma : CmaArea) (allocated : UInt64 → Nat) (count : Nat)
    (buffer : Option (UInt64 × UInt64)) : Option (UInt64 × UInt64) :=
  if count = 0 ∨ cma.pages < count then none
  else buffer.filter (fun b => b.1 ≠ 0 ∧ allocated b.1 = 0)

/-- `cma_release`. -/
def cmaRelease (allocated : UInt64 → Nat) (virt : UInt64) (count : Nat) : UInt64 → Nat :=
  Function.update allocated virt (allocated virt - count)

/-- `msm_minidump_add_region`, which refuses a name that is there. -/
def addRegion (taken : Bool) (entry : MdRegion) (R : List MdRegion) : Option (List MdRegion) :=
  if taken ∧ entry.name ∉ R.map MdRegion.name then some (R ++ [entry]) else none

/-- `md_get_region`. -/
def getRegion (name : CStr) (R : List MdRegion) : MdRegion :=
  (R.find? (fun r => r.name == name)).getD MdRegion.zero

/-- `md_register_memory_dump`.  It does not set the `id` of the region, which nobody reads. -/
def mdRegisterMemoryDump (cma : CmaArea) (o : Registration) (size : Int) (n : DumpName)
    (s : Dumps) : Dumps × Bool :=
  match cmaAlloc cma s.allocated (pageCount size) o.buffer with
  | none => (s, false)
  | some (virt, phys) =>
    let allocated := Function.update s.allocated virt (pageCount size)
    match addRegion o.taken ⟨n.name, 0, virt, phys, UInt64.ofInt size⟩ s.regions with
    | none => ({ s with allocated := cmaRelease allocated virt (pageCount size) }, false)
    | some regions =>
      ({ s with
        regions := regions
        allocated := allocated
        dumpAddr := Function.update s.dumpAddr n virt }, true)

/-- `md_unregister_memory_dump`; `given` says whether minidump gives the region back. -/
def mdUnregisterMemoryDump (given : Bool) (n : DumpName) (s : Dumps) : Dumps × Bool :=
  let mdr := getRegion n.name s.regions
  if mdr.virtAddr = 0 then (s, false)
  else if !given then (s, false)
  else
    ({ s with
      regions := dropNamed n.name s.regions
      allocated := cmaRelease s.allocated mdr.virtAddr (mdr.size.toNat / 4096) }, true)

/-- What the environment decides about a write. -/
structure Outcome where
  given : Bool
  new : Registration
  fallback : Registration

/-- `size * SZ_1M`. -/
def megabytes (size : UInt64) : UInt64 := size * 0x100000

/-- `update_dump_size` when the region is unregistered and its address cleared. -/
def registerAgain (cma : CmaArea) (o : Outcome) (n : DumpName) (size : UInt64) (s : Dumps) :
    Dumps :=
  if size = 0 then { s with dumpSize := Function.update s.dumpSize n 0 }
  else
    let new := mdRegisterMemoryDump cma o.new (toInt (megabytes size)) n s
    if new.2 then { new.1 with dumpSize := Function.update new.1.dumpSize n (megabytes size) }
    else
      let old := mdRegisterMemoryDump cma o.fallback (toInt (new.1.dumpSize n)) n new.1
      if old.2 then old.1
      else { old.1 with dumpSize := Function.update old.1.dumpSize n 0 }

/-- `update_dump_size`. -/
def updateDumpSize (cma : CmaArea) (o : Outcome) (n : DumpName) (size : UInt64) (s : Dumps) :
    Dumps :=
  if s.dumpSize n = 0 then
    let new := mdRegisterMemoryDump cma o.new (toInt (megabytes size)) n s
    if new.2 then { new.1 with dumpSize := Function.update new.1.dumpSize n (megabytes size) }
    else new.1
  else
    let gone := mdUnregisterMemoryDump o.given n s
    if gone.2 then
      registerAgain cma o n size { gone.1 with dumpAddr := Function.update gone.1.dumpAddr n 0 }
    else gone.1

/-- `page_owner_handle_write` and `slab_owner_handle_write`. -/
def handleWrite (n : DumpName) (size : UInt64) (s : Dumps) : Dumps :=
  if size = 0 then s
  else if s.dumpSize n / 0x4000 < size then s
  else { s with handlesSize := Function.update s.handlesSize n (size * 0x400) }

/-- What `md_register_panic_data` meets: the regions of others, which do not take the names of the
dumps, whether the owners are recorded at all, and what becomes of each registration. -/
structure PanicSetup where
  others : List MdRegion
  others_named : ∀ n : DumpName, n.name ∉ others.map MdRegion.name
  /-- `is_page_owner_enabled` and `is_slub_debug_enabled` -/
  ownerEnabled : DumpName → Bool
  registration : DumpName → Registration

/-- The dump is registered at first, and there is a file for its size. -/
def PanicSetup.enabled (setup : PanicSetup) (n : DumpName) : Bool :=
  !n.isOwner || setup.ownerEnabled n

/-- The dumps before they are registered. -/
def PanicSetup.before (setup : PanicSetup) : Dumps :=
  ⟨setup.others, fun _ => 0, fun _ => 0, DumpName.initialSize, fun _ => 0x4000⟩

/-- `md_register_panic_data`. -/
def mdRegisterPanicData (cma : CmaArea) (setup : PanicSetup) : Dumps :=
  [.pageowner, .slabowner, .dmaInfo, .dmaProc].foldl (fun s n =>
      if setup.enabled n then
        (mdRegisterMemoryDump cma (setup.registration n) (toInt (s.dumpSize n)) n s).1
      else s)
    setup.before

/-- A write to a file of debugfs: the size of a dump in MB, or the size of a table of handles in
KB. -/
inductive DumpWrite
  | size (n : DumpName) (size : UInt64) (o : Outcome)
  | handles (n : DumpName) (size : UInt64)

/-- The dumps, with the files that exist. -/
def dumpMachine (cma : CmaArea) (setup : PanicSetup) : Machine Dumps DumpWrite where
  init s := s = mdRegisterPanicData cma setup
  step s
    | .size n size o => if setup.enabled n then some (updateDumpSize cma o n size s) else none
    | .handles n size =>
      if setup.enabled n && n.isOwner then some (handleWrite n size s) else none

/-! ## The registry in SMEM mode -/

section Smem

variable {cfg : Config} {c : Client} {R : List MdRegion}

/-- A call of `msm_minidump_add_region` takes the region or refuses it. -/
theorem listed_add (h : Listed c R) (alloc : Bool) (e : MdRegion) :
    ∃ taken, Listed (c.step cfg (.add alloc e)) ((addRegion taken e R).getD R) ∧
      ((addRegion taken e R).isSome = true ↔
        ∃ regno, ((Call.add alloc e).exec cfg c.driver).2 = .ok regno) := by
  have hwhole : WholeCall cfg c (.add alloc e) := trivial
  have hlisted := listed_step h hwhole c
  obtain ⟨err, hr⟩ | ⟨hv, hn, hc, hm, hr⟩ := add_cases cfg alloc e h.numbered.smem
  · refine ⟨false, ?_, ?_⟩
    · simp only [Client.completed, Call.exec, hr] at hlisted
      exact hlisted
    · simp only [Call.exec, hr]
      constructor
      · intro hs
        cases hs
      · rintro ⟨regno, he⟩
        cases he
  · have hnew : addRegion true e R = some (R ++ [e]) :=
      if_pos ⟨rfl, (h.tables.mdEntryNum_eq_error.mp hm).2⟩
    refine ⟨true, ?_, ?_⟩
    · simp only [Client.completed, Call.exec, hr] at hlisted
      rw [hnew]
      exact hlisted
    · rw [hnew]
      simp only [Call.exec, hr]
      exact ⟨fun _ => ⟨_, rfl⟩, fun _ => rfl⟩

/-- A call of `msm_minidump_remove_region` gives the region back or refuses to. -/
theorem listed_remove (h : Listed c R) {e : MdRegion} (hw : WholeCall cfg c (.remove e)) :
    ∃ given : Bool, Listed (c.step cfg (.remove e)) (if given then dropNamed e.name R else R) ∧
      (given = true ↔ ∃ regno, ((Call.remove e).exec cfg c.driver).2 = .ok regno) := by
  have hlisted := listed_step h hw c
  unfold Client.completed at hlisted
  cases hr : ((Call.remove e).exec cfg c.driver).2 with
  | error err =>
    rw [hr] at hlisted
    refine ⟨false, hlisted, ?_, ?_⟩
    · intro hs
      cases hs
    · rintro ⟨regno, he⟩
      cases he
  | ok regno =>
    rw [hr] at hlisted
    exact ⟨true, hlisted, fun _ => ⟨regno, rfl⟩, fun _ => rfl⟩

/-- `md_get_region` returns the region that is registered. -/
theorem listed_getRegion (h : Listed c R) (name : CStr) :
    (mdGetRegion cfg name c.driver).SameRegion (getRegion name R) := by
  unfold getRegion
  cases hr : R.find? (fun r => r.name == name) with
  | some r =>
    obtain ⟨hname, -⟩ := List.find?_eq_some_iff_append.mp hr
    have hreturned := h.returned cfg r (List.mem_of_find?_eq_some hr)
    rw [Returned, beq_iff_eq.mp hname] at hreturned
    exact hreturned
  | none =>
    have hnone : name ∉ R.map MdRegion.name := by
      rintro hmem
      obtain ⟨r, hmem, hname⟩ := List.mem_map.mp hmem
      exact List.find?_eq_none.mp hr r hmem (beq_iff_eq.mpr hname)
    have hfirst : firstNamed (fun i => (c.driver.minidumpTable.entry i).name) c.driver.numRegions
        name = .error .ENOENT :=
      h.tables.mdEntryNum_eq_error (e := { MdRegion.zero with name := name }).mpr ⟨rfl, hnone⟩
    rw [mdGetRegion, h.numbered.smem.rm, if_neg Bool.false_ne_true, hfirst]
    split
    · exact ⟨rfl, rfl, rfl, rfl⟩
    · exact ⟨rfl, rfl, rfl, rfl⟩

end Smem

/-! ## The law -/

/-- The region of a dump in minidump. -/
def Dumps.region (s : Dumps) (n : DumpName) : Option MdRegion :=
  s.regions.find? (fun r => r.name == n.name)

/-- **The three places agree.** -/
structure Consistent (n : DumpName) (s : Dumps) : Prop where
  registered_iff : (s.region n).isSome = true ↔ s.dumpSize n ≠ 0
  addr_iff : s.dumpSize n ≠ 0 ↔ s.dumpAddr n ≠ 0
  size : ∀ r ∈ s.region n,
    r.size = s.dumpSize n ∧ s.allocated r.virtAddr * 4096 = (s.dumpSize n).toNat

/-- The number of bytes passes through an `int`, or becomes one for which there is no memory. -/
def SizeFits (size : UInt64) : Prop :=
  toInt (megabytes size) ≤ 0 ∨ (megabytes size).toNat < 2 ^ 31

/-! ## Registration and its reverse -/

theorem DumpName.name_injective : ∀ m n : DumpName, m.name = n.name → m = n := by
  intro m n
  cases m <;> cases n <;> decide

/-- The dumps after a registration that succeeded. -/
def entered (size : Int) (n : DumpName) (virt phys : UInt64) (s : Dumps) : Dumps :=
  { s with
    regions := s.regions ++ [⟨n.name, 0, virt, phys, UInt64.ofInt size⟩]
    allocated := Function.update s.allocated virt (pageCount size)
    dumpAddr := Function.update s.dumpAddr n virt }

/-- The dumps after the region `r` was given back. -/
def givenBack (n : DumpName) (r : MdRegion) (s : Dumps) : Dumps :=
  { s with
    regions := dropNamed n.name s.regions
    allocated := cmaRelease s.allocated r.virtAddr (r.size.toNat / 4096) }

/-- The same with the address cleared. -/
def vacated (n : DumpName) (r : MdRegion) (s : Dumps) : Dumps :=
  { givenBack n r s with dumpAddr := Function.update s.dumpAddr n 0 }

def sized (n : DumpName) (size : UInt64) (s : Dumps) : Dumps :=
  { s with dumpSize := Function.update s.dumpSize n size }

/-- A registration can succeed with a buffer at `virt`. -/
structure Enters (cma : CmaArea) (size : Int) (n : DumpName) (virt : UInt64) (s : Dumps) : Prop where
  nonnull : virt ≠ 0
  fresh : s.allocated virt = 0
  pos : pageCount size ≠ 0
  le : pageCount size ≤ cma.pages
  region : s.region n = none

section Effects

variable {cma : CmaArea} {n : DumpName} {s : Dumps}

theorem region_eq_none_iff : s.region n = none ↔ n.name ∉ s.regions.map MdRegion.name := by
  rw [Dumps.region, List.find?_eq_none, List.mem_map]
  constructor
  · rintro h ⟨r, hr, hname⟩
    exact h r hr (beq_iff_eq.mpr hname)
  · intro h r hr hname
    exact h ⟨r, hr, beq_iff_eq.mp hname⟩

/-- What `md_register_memory_dump` can do. -/
theorem register_cases (cma : CmaArea) (o : Registration) (size : Int) (n : DumpName) (s : Dumps) :
    mdRegisterMemoryDump cma o size n s = (s, false) ∨
    ∃ virt phys, Enters cma size n virt s ∧
      mdRegisterMemoryDump cma o size n s = (entered size n virt phys s, true) := by
  unfold mdRegisterMemoryDump
  cases hb : cmaAlloc cma s.allocated (pageCount size) o.buffer with
  | none => exact Or.inl rfl
  | some b =>
    unfold cmaAlloc at hb
    split at hb
    case isTrue => cases hb
    case isFalse hcount =>
      obtain ⟨-, hfree⟩ := Option.filter_eq_some_iff.mp hb
      obtain ⟨hvirt, hfresh⟩ := of_decide_eq_true hfree
      dsimp only
      by_cases htaken : o.taken = true ∧ n.name ∉ s.regions.map MdRegion.name
      · rw [addRegion, if_pos htaken]
        exact Or.inr ⟨b.1, b.2, ⟨hvirt, hfresh, by omega, by omega,
          region_eq_none_iff.mpr htaken.2⟩, rfl⟩
      · rw [addRegion, if_neg htaken]
        have hback : cmaRelease (Function.update s.allocated b.1 (pageCount size)) b.1
            (pageCount size) = s.allocated := by
          rw [cmaRelease, Function.update_self, Nat.sub_self, Function.update_idem, ← hfresh,
            Function.update_eq_self]
        dsimp only
        rw [hback]
        exact Or.inl rfl

/-- What `md_unregister_memory_dump` can do. -/
theorem unregister_cases (given : Bool) (n : DumpName) (s : Dumps) :
    mdUnregisterMemoryDump given n s = (s, false) ∨
    ∃ r, s.region n = some r ∧ mdUnregisterMemoryDump given n s = (givenBack n r s, true) := by
  unfold mdUnregisterMemoryDump getRegion
  cases hr : s.regions.find? (fun r => r.name == n.name) with
  | none => exact Or.inl (if_pos rfl)
  | some r =>
    dsimp only [Option.getD_some]
    split
    · exact Or.inl rfl
    · split
      · exact Or.inl rfl
      · exact Or.inr ⟨r, hr, rfl⟩

theorem registerAgain_cases (cma : CmaArea) (o : Outcome) (n : DumpName) (size : UInt64)
    (s : Dumps) :
    registerAgain cma o n size s = sized n 0 s ∨
    (∃ virt phys, Enters cma (toInt (megabytes size)) n virt s ∧ registerAgain cma o n size s =
      sized n (megabytes size) (entered (toInt (megabytes size)) n virt phys s)) ∨
    ∃ virt phys, Enters cma (toInt (s.dumpSize n)) n virt s ∧
      registerAgain cma o n size s = entered (toInt (s.dumpSize n)) n virt phys s := by
  unfold registerAgain
  split
  case isTrue => exact Or.inl rfl
  case isFalse =>
    obtain hnew | ⟨virt, phys, henters, hnew⟩ :=
      register_cases cma o.new (toInt (megabytes size)) n s
    · rw [hnew, if_neg Bool.false_ne_true]
      obtain hold | ⟨virt, phys, henters, hold⟩ :=
        register_cases cma o.fallback (toInt (s.dumpSize n)) n s
      · rw [hold, if_neg Bool.false_ne_true]
        exact Or.inl rfl
      · rw [hold, if_pos rfl]
        exact Or.inr (Or.inr ⟨virt, phys, henters, rfl⟩)
    · rw [hnew, if_pos rfl]
      exact Or.inr (Or.inl ⟨virt, phys, henters, rfl⟩)

/-- **What a write of a size can do.** -/
theorem updateDumpSize_cases (cma : CmaArea) (o : Outcome) (n : DumpName) (size : UInt64)
    (s : Dumps) :
    updateDumpSize cma o n size s = s ∨
    (s.dumpSize n = 0 ∧ ∃ virt phys, Enters cma (toInt (megabytes size)) n virt s ∧
      updateDumpSize cma o n size s =
        sized n (megabytes size) (entered (toInt (megabytes size)) n virt phys s)) ∨
    ∃ r, s.region n = some r ∧
      (updateDumpSize cma o n size s = sized n 0 (vacated n r s) ∨
      (∃ virt phys, Enters cma (toInt (megabytes size)) n virt (vacated n r s) ∧
        updateDumpSize cma o n size s = sized n (megabytes size)
          (entered (toInt (megabytes size)) n virt phys (vacated n r s))) ∨
      ∃ virt phys, Enters cma (toInt (s.dumpSize n)) n virt (vacated n r s) ∧
        updateDumpSize cma o n size s =
          entered (toInt (s.dumpSize n)) n virt phys (vacated n r s)) := by
  unfold updateDumpSize
  split
  case isTrue hzero =>
    obtain h | ⟨virt, phys, henters, h⟩ := register_cases cma o.new (toInt (megabytes size)) n s
    · rw [h, if_neg Bool.false_ne_true]
      exact Or.inl rfl
    · rw [h, if_pos rfl]
      exact Or.inr (Or.inl ⟨hzero, virt, phys, henters, rfl⟩)
  case isFalse hzero =>
    obtain h | ⟨r, hr, h⟩ := unregister_cases o.given n s
    · rw [h, if_neg Bool.false_ne_true]
      exact Or.inl rfl
    · rw [h, if_pos rfl]
      exact Or.inr (Or.inr ⟨r, hr, registerAgain_cases cma o n size (vacated n r s)⟩)

end Effects

/-! ## Sizes -/

section Sizes

variable {size : UInt64}

theorem toInt_range (size : UInt64) : -2 ^ 31 ≤ toInt size ∧ toInt size < 2 ^ 31 := by
  have hlow := Int.le_bmod (x := size.toNat) (m := 2 ^ 32) (by decide)
  have hhigh := Int.bmod_lt (x := size.toNat) (m := 2 ^ 32) (by decide)
  unfold toInt
  omega

/-- Whole multiples of `2 ^ 32` are lost. -/
theorem toInt_eq (size : UInt64) : ∃ q : Int, toInt size = size.toNat - q * 4294967296 := by
  have h := Int.bmod_def (size.toNat : Int) (2 ^ 32)
  split at h
  · exact ⟨size.toNat / 4294967296, by unfold toInt; omega⟩
  · exact ⟨size.toNat / 4294967296 + 1, by unfold toInt; omega⟩

theorem toInt_of_lt (h : size.toNat < 2 ^ 31) : toInt size = size.toNat := by
  have hrange := toInt_range size
  obtain ⟨q, hq⟩ := toInt_eq size
  omega

theorem toInt_mod (h : 4096 ∣ size.toNat) : toInt size % 4096 = 0 := by
  obtain ⟨q, hq⟩ := toInt_eq size
  omega

theorem megabytes_dvd (size : UInt64) : 4096 ∣ (megabytes size).toNat := by
  rw [megabytes, UInt64.toNat_mul]
  show 4096 ∣ size.toNat * 1048576 % 2 ^ 64
  omega

/-- A size for which there is a buffer is positive. -/
theorem pos_of_pageCount {i : Int} {cma : CmaArea} (hlow : -2 ^ 31 ≤ i) (hpos : pageCount i ≠ 0)
    (hle : pageCount i ≤ cma.pages) : 0 < i := by
  have hcma := cma.pages_lt
  rw [pageCount] at hpos hle
  omega

theorem toNat_ofInt_of_pos {i : Int} (hpos : 0 < i) (hlt : i < 2 ^ 31) :
    ((UInt64.ofInt i).toNat : Int) = i := by
  rw [UInt64.ofInt, UInt64.toNat_ofNat']
  omega

/-- **The buffer has the size of the region.** -/
theorem pageCount_mul {cma : CmaArea} (hdvd : 4096 ∣ size.toNat) (hpos : pageCount (toInt size) ≠ 0)
    (hle : pageCount (toInt size) ≤ cma.pages) :
    pageCount (toInt size) * 4096 = (UInt64.ofInt (toInt size)).toNat := by
  obtain ⟨hlow, hhigh⟩ := toInt_range size
  have hi := pos_of_pageCount hlow hpos hle
  have hmod := toInt_mod hdvd
  have hnat := toNat_ofInt_of_pos hi hhigh
  rw [pageCount] at *
  omega

/-- A size that passes through an `int` is the size of the region. -/
theorem ofInt_toInt (h : size.toNat < 2 ^ 31) : UInt64.ofInt (toInt size) = size := by
  apply UInt64.toNat_inj.mp
  rw [toInt_of_lt h, UInt64.ofInt, UInt64.toNat_ofNat']
  omega

end Sizes

/-! ## The regions and their buffers -/

/-- The regions of the dumps have buffers of their own, of their size. -/
structure Backed (s : Dumps) : Prop where
  once : ∀ m : DumpName, (s.regions.map MdRegion.name).count m.name ≤ 1
  aligned : ∀ m, 4096 ∣ (s.dumpSize m).toNat
  buffer : ∀ m r, s.region m = some r → r.virtAddr ≠ 0 ∧ r.size ≠ 0 ∧
    s.allocated r.virtAddr * 4096 = r.size.toNat
  apart : ∀ m m' r r', s.region m = some r → s.region m' = some r' → r.virtAddr = r'.virtAddr →
    m = m'

theorem dropNamed_cons (name : CStr) (r : MdRegion) (R : List MdRegion) :
    dropNamed name (r :: R) = if r.name = name then R else r :: dropNamed name R := by
  rw [dropNamed, List.findIdx_cons]
  by_cases h : r.name = name
  · rw [if_pos h, beq_iff_eq.mpr h]
    rfl
  · rw [if_neg h, beq_eq_false_iff_ne.mpr h]
    rfl

theorem find?_dropNamed_ne {name other : CStr} (hne : other ≠ name) (R : List MdRegion) :
    (dropNamed name R).find? (fun r => r.name == other) = R.find? (fun r => r.name == other) := by
  induction R with
  | nil => rfl
  | cons r R ih =>
    rw [dropNamed_cons]
    split
    case isTrue h =>
      rw [List.find?_cons_of_neg]
      rw [h, beq_eq_false_iff_ne.mpr hne.symm]
      exact Bool.false_ne_true
    case isFalse h => rw [List.find?_cons, List.find?_cons, ih]

theorem count_dropNamed (name other : CStr) (R : List MdRegion) :
    ((dropNamed name R).map MdRegion.name).count other ≤ (R.map MdRegion.name).count other :=
  ((List.eraseIdx_sublist _ _).map MdRegion.name).count_le other

theorem find?_dropNamed_self {name : CStr} (R : List MdRegion)
    (h : (R.map MdRegion.name).count name ≤ 1) :
    (dropNamed name R).find? (fun r => r.name == name) = none := by
  induction R with
  | nil => rfl
  | cons r R ih =>
    rw [dropNamed_cons]
    rw [List.map_cons, List.count_cons] at h
    split
    case isTrue hr =>
      rw [if_pos (beq_iff_eq.mpr hr)] at h
      rw [List.find?_eq_none]
      intro x hx hname
      have hpos := List.count_pos_iff.mpr (List.mem_map.mpr ⟨x, hx, beq_iff_eq.mp hname⟩)
      omega
    case isFalse hr =>
      have hne : ¬(r.name == name) = true := fun hname => hr (beq_iff_eq.mp hname)
      rw [if_neg hne] at h
      rw [List.find?_cons, beq_eq_false_iff_ne.mpr hr]
      exact ih h

section Views

variable {cma : CmaArea} {n m : DumpName} {s : Dumps} {virt phys : UInt64} {r : MdRegion}

theorem region_entered_self {i : Int} (h : s.region n = none) :
    (entered i n virt phys s).region n = some ⟨n.name, 0, virt, phys, UInt64.ofInt i⟩ := by
  rw [Dumps.region] at h ⊢
  rw [entered, List.find?_append, h, Option.none_or, List.find?_singleton, if_pos (beq_self_eq_true _)]

theorem region_entered_ne {i : Int} (h : m ≠ n) :
    (entered i n virt phys s).region m = s.region m := by
  have hname : ¬(n.name == m.name) = true :=
    fun heq => h (DumpName.name_injective n m (beq_iff_eq.mp heq)).symm
  rw [Dumps.region, Dumps.region, entered, List.find?_append, List.find?_singleton, if_neg hname,
    Option.or_none]

/-- A region after a registration is the new one, or one from before. -/
theorem region_entered_cases {i : Int} (hnone : s.region n = none)
    (h : (entered i n virt phys s).region m = some r) :
    (m = n ∧ r = ⟨n.name, 0, virt, phys, UInt64.ofInt i⟩) ∨ (m ≠ n ∧ s.region m = some r) := by
  by_cases hm : m = n
  · rw [hm, region_entered_self hnone, Option.some.injEq] at h
    exact Or.inl ⟨hm, h.symm⟩
  · rw [region_entered_ne hm] at h
    exact Or.inr ⟨hm, h⟩

theorem Backed.region_vacated_self (h : Backed s) (r : MdRegion) :
    (vacated n r s).region n = none :=
  find?_dropNamed_self s.regions (h.once n)

theorem region_vacated_ne (h : m ≠ n) : (vacated n r s).region m = s.region m :=
  find?_dropNamed_ne (fun heq => h (DumpName.name_injective m n heq)) s.regions

theorem Backed.entered {size : UInt64} (h : Backed s) (hdvd : 4096 ∣ size.toNat)
    (he : Enters cma (toInt size) n virt s) : Backed (entered (toInt size) n virt phys s) := by
  have hbytes := pageCount_mul hdvd he.pos he.le
  have hpages := he.pos
  have hfresh := he.fresh
  -- no region has its buffer at the new address
  have hfree : ∀ m r, s.region m = some r → r.virtAddr ≠ virt := by
    intro m r hr hvirt
    obtain ⟨-, hsize, hbuf⟩ := h.buffer m r hr
    rw [hvirt, hfresh] at hbuf
    exact hsize (UInt64.toNat_inj.mp (by rw [← hbuf]; rfl))
  refine ⟨fun m => ?_, h.aligned, fun m r hr => ?_, fun m m' r r' hr hr' heq => ?_⟩
  · rw [MinidumpMemory.entered, List.map_append, List.count_append]
    have hone := h.once m
    by_cases hm : m = n
    · have hnone := List.count_eq_zero.mpr (region_eq_none_iff.mp he.region)
      rw [hm, hnone, Nat.zero_add]
      exact List.count_le_length
    · rw [List.map_singleton, List.count_singleton, if_neg, Nat.add_zero]
      · exact hone
      · exact fun heq => hm (DumpName.name_injective m n (beq_iff_eq.mp heq).symm)
  · rcases region_entered_cases he.region hr with ⟨-, rfl⟩ | ⟨-, hr⟩
    · refine ⟨he.nonnull, fun hzero => ?_, ?_⟩
      · have hzero : UInt64.ofInt (toInt size) = 0 := hzero
        rw [hzero] at hbytes
        have hbytes : pageCount (toInt size) * 4096 = 0 := hbytes
        omega
      · show Function.update s.allocated virt _ virt * 4096 = _
        rw [Function.update_self]
        exact hbytes
    · obtain ⟨hvirt, hsize, hbuf⟩ := h.buffer m r hr
      refine ⟨hvirt, hsize, ?_⟩
      show Function.update s.allocated virt _ r.virtAddr * 4096 = _
      rw [Function.update_of_ne (hfree m r hr)]
      exact hbuf
  · rcases region_entered_cases he.region hr with ⟨rfl, rfl⟩ | ⟨-, hr⟩
    · rcases region_entered_cases he.region hr' with ⟨rfl, -⟩ | ⟨-, hr'⟩
      · rfl
      · exact absurd heq.symm (hfree m' r' hr')
    · rcases region_entered_cases he.region hr' with ⟨-, rfl⟩ | ⟨-, hr'⟩
      · exact absurd heq (hfree m r hr)
      · exact h.apart m m' r r' hr hr' heq

theorem Backed.vacated (h : Backed s) (hr : s.region n = some r) : Backed (vacated n r s) := by
  have hold : ∀ m r', (MinidumpMemory.vacated n r s).region m = some r' →
      m ≠ n ∧ s.region m = some r' := by
    intro m r' hr'
    by_cases hm : m = n
    · rw [hm, h.region_vacated_self r] at hr'
      cases hr'
    · rw [region_vacated_ne hm] at hr'
      exact ⟨hm, hr'⟩
  refine ⟨fun m => ?_, h.aligned, fun m r' hr' => ?_, fun m m' a b ha hb heq => ?_⟩
  · exact Nat.le_trans (count_dropNamed n.name m.name s.regions) (h.once m)
  · obtain ⟨hm, hr'⟩ := hold m r' hr'
    obtain ⟨hvirt, hsize, hbuf⟩ := h.buffer m r' hr'
    refine ⟨hvirt, hsize, ?_⟩
    have hne : r'.virtAddr ≠ r.virtAddr := fun heq => hm (h.apart m n r' r hr' hr heq)
    show Function.update s.allocated r.virtAddr _ r'.virtAddr * 4096 = _
    rw [Function.update_of_ne hne]
    exact hbuf
  · exact h.apart m m' a b (hold m a ha).2 (hold m' b hb).2 heq

theorem Backed.sized {size : UInt64} (h : Backed s) (hdvd : 4096 ∣ size.toNat) :
    Backed (sized n size s) := by
  refine ⟨h.once, fun m => ?_, h.buffer, h.apart⟩
  show 4096 ∣ (Function.update s.dumpSize n size m).toNat
  rw [Function.update_apply]
  split
  · exact hdvd
  · exact h.aligned m

/-- **A write of any size** leaves the regions with their buffers. -/
theorem Backed.updateDumpSize (h : Backed s) (o : Outcome) (n : DumpName) (size : UInt64) :
    Backed (updateDumpSize cma o n size s) := by
  have hmega := megabytes_dvd size
  obtain heq | ⟨-, virt, phys, he, heq⟩ | ⟨r, hr, heq⟩ := updateDumpSize_cases cma o n size s
  · rw [heq]
    exact h
  · rw [heq]
    exact (h.entered hmega he).sized hmega
  · have hgone := h.vacated hr
    obtain heq | ⟨virt, phys, he, heq⟩ | ⟨virt, phys, he, heq⟩ := heq
    · rw [heq]
      exact hgone.sized (Nat.dvd_zero 4096)
    · rw [heq]
      exact (hgone.entered hmega he).sized hmega
    · rw [heq]
      exact hgone.entered (h.aligned n) he

end Views

/-! ## The variables of one dump -/

/-- The address and the size of a dump are those of its region, if it has one, and the size passes
through an `int`. -/
structure Kept (n : DumpName) (s : Dumps) : Prop where
  addr : s.dumpAddr n = ((s.region n).map MdRegion.virtAddr).getD 0
  size : ∀ r ∈ s.region n, r.size = s.dumpSize n
  small : (s.dumpSize n).toNat < 2 ^ 31

/-- The two states are the same to a dump. -/
structure SameDump (n : DumpName) (s t : Dumps) : Prop where
  region : t.region n = s.region n
  addr : t.dumpAddr n = s.dumpAddr n
  size : t.dumpSize n = s.dumpSize n
  handles : t.handlesSize n = s.handlesSize n

section Variables

variable {cma : CmaArea} {n m : DumpName} {s t : Dumps} {virt phys : UInt64} {r : MdRegion}

theorem Kept.congr (h : Kept n s) (ht : SameDump n s t) : Kept n t where
  addr := by rw [ht.addr, ht.region, h.addr]
  size := by rw [ht.region, ht.size]; exact h.size
  small := by rw [ht.size]; exact h.small

theorem sameDump_entered {i : Int} (h : m ≠ n) : SameDump m s (entered i n virt phys s) :=
  ⟨region_entered_ne h, Function.update_of_ne h _ _, rfl, rfl⟩

theorem sameDump_vacated (h : m ≠ n) : SameDump m s (vacated n r s) :=
  ⟨region_vacated_ne h, Function.update_of_ne h _ _, rfl, rfl⟩

theorem sameDump_sized {size : UInt64} (h : m ≠ n) : SameDump m s (sized n size s) :=
  ⟨rfl, rfl, Function.update_of_ne h _ _, rfl⟩

theorem SameDump.trans {u : Dumps} (h : SameDump n s t) (h' : SameDump n t u) : SameDump n s u :=
  ⟨h'.region.trans h.region, h'.addr.trans h.addr, h'.size.trans h.size,
    h'.handles.trans h.handles⟩

/-- A write is seen by its own dump only. -/
theorem sameDump_updateDumpSize (o : Outcome) (size : UInt64) (h : m ≠ n) :
    SameDump m s (updateDumpSize cma o n size s) := by
  obtain heq | ⟨-, virt, phys, -, heq⟩ | ⟨r, -, heq | ⟨virt, phys, -, heq⟩ | ⟨virt, phys, -, heq⟩⟩ :=
    updateDumpSize_cases cma o n size s
  · rw [heq]
    exact ⟨rfl, rfl, rfl, rfl⟩
  · rw [heq]
    exact (sameDump_entered h).trans (sameDump_sized h)
  · rw [heq]
    exact (sameDump_vacated h).trans (sameDump_sized h)
  · rw [heq]
    exact (sameDump_vacated h).trans ((sameDump_entered h).trans (sameDump_sized h))
  · rw [heq]
    exact (sameDump_vacated h).trans (sameDump_entered h)

/-- The variables after a registration of the size that `dump_size` has or gets. -/
theorem kept_entered {size : UInt64} (hregion : s.region n = none) (hsmall : size.toNat < 2 ^ 31)
    (hsize : t.dumpSize n = size) (haddr : t.dumpAddr n = virt)
    (ht : t.region n = (entered (toInt size) n virt phys s).region n) : Kept n t := by
  rw [region_entered_self hregion] at ht
  refine ⟨?_, fun r hr => ?_, ?_⟩
  · rw [haddr, ht]
    rfl
  · rw [ht] at hr
    cases hr
    rw [hsize]
    exact ofInt_toInt hsmall
  · rw [hsize]
    exact hsmall

/-- A size for which there is memory has not lost anything. -/
theorem SizeFits.small {size : UInt64} (h : SizeFits size)
    (he : Enters cma (toInt (megabytes size)) n virt s) : (megabytes size).toNat < 2 ^ 31 := by
  have hpos := pos_of_pageCount (toInt_range (megabytes size)).1 he.pos he.le
  cases h with
  | inl hle => omega
  | inr hlt => exact hlt

/-- The dump after a registration with the new size. -/
theorem kept_new {size : UInt64} (hfits : SizeFits size)
    (he : Enters cma (toInt (megabytes size)) n virt s)
    (ht : sized n (megabytes size) (entered (toInt (megabytes size)) n virt phys s) = t) :
    Kept n t ∧ (t.region n).isSome = true ∧ t.dumpSize n = megabytes size ∧
      0 < toInt (megabytes size) := by
  subst ht
  have hsize : (sized n (megabytes size) (entered (toInt (megabytes size)) n virt phys s)).dumpSize
    n = megabytes size := Function.update_self _ _ _
  refine ⟨?_, ?_, hsize, ?_⟩
  · exact kept_entered he.region (hfits.small he) hsize (Function.update_self _ _ _) rfl
  · exact Option.isSome_iff_exists.mpr ⟨_, region_entered_self he.region⟩
  · exact pos_of_pageCount (toInt_range (megabytes size)).1 he.pos he.le

/-- **What a write does to its own dump**: nothing, or it is registered with the new size or again
with the old one, or it is disabled. -/
theorem own_cases (h : Backed s) (hk : Kept n s) {size : UInt64} (hfits : SizeFits size)
    (o : Outcome) (t : Dumps) (ht : updateDumpSize cma o n size s = t) :
    t = s ∨
    (t.region n = none ∧ t.dumpAddr n = 0 ∧ t.dumpSize n = 0 ∧ t.handlesSize n = s.handlesSize n) ∨
    (Kept n t ∧ (t.region n).isSome = true ∧ t.handlesSize n = s.handlesSize n ∧
      (t.dumpSize n = megabytes size ∧ 0 < toInt (megabytes size) ∨
        t.dumpSize n = s.dumpSize n ∧ (s.region n).isSome = true)) := by
  obtain heq | ⟨-, virt, phys, he, heq⟩ | ⟨r, hr, heq | ⟨virt, phys, he, heq⟩ | ⟨virt, phys, he, heq⟩⟩ :=
    updateDumpSize_cases cma o n size s
  · exact Or.inl (ht.symm.trans heq)
  · obtain ⟨hkept, hsome, hsize, hpos⟩ := kept_new hfits he (heq.symm.trans ht)
    cases ht.symm.trans heq
    exact Or.inr (Or.inr ⟨hkept, hsome, rfl, Or.inl ⟨hsize, hpos⟩⟩)
  · cases ht.symm.trans heq
    exact Or.inr (Or.inl ⟨h.region_vacated_self r, Function.update_self _ _ _,
      Function.update_self _ _ _, rfl⟩)
  · obtain ⟨hkept, hsome, hsize, hpos⟩ := kept_new hfits he (heq.symm.trans ht)
    cases ht.symm.trans heq
    exact Or.inr (Or.inr ⟨hkept, hsome, rfl, Or.inl ⟨hsize, hpos⟩⟩)
  · cases ht.symm.trans heq
    refine Or.inr (Or.inr ⟨kept_entered he.region hk.small rfl (Function.update_self _ _ _) rfl,
      ?_, rfl, Or.inr ⟨rfl, ?_⟩⟩)
    · exact Option.isSome_iff_exists.mpr ⟨_, region_entered_self he.region⟩
    · exact Option.isSome_iff_exists.mpr ⟨r, hr⟩

end Variables

/-! ## The start -/

/-- What holds of all dumps when they are registered, whatever becomes of it. -/
def Started (s : Dumps) : Prop :=
  Backed s ∧ (∀ m, Kept m s) ∧ s.dumpSize = DumpName.initialSize ∧ s.handlesSize = fun _ => 0x4000

theorem initialSize_small (n : DumpName) : n.initialSize.toNat < 2 ^ 31 := by
  cases n <;> decide

theorem initialSize_dvd (n : DumpName) : 4096 ∣ n.initialSize.toNat := by
  cases n <;> decide

theorem Started.register {cma : CmaArea} {s : Dumps} (h : Started s) (o : Registration)
    (n : DumpName) : Started (mdRegisterMemoryDump cma o (toInt (s.dumpSize n)) n s).1 := by
  obtain ⟨hbacked, hkept, hsize, hhandles⟩ := h
  obtain heq | ⟨virt, phys, he, heq⟩ := register_cases cma o (toInt (s.dumpSize n)) n s
  · rw [heq]
    exact ⟨hbacked, hkept, hsize, hhandles⟩
  · rw [heq]
    refine ⟨hbacked.entered (hbacked.aligned n) he, fun m => ?_, hsize, hhandles⟩
    by_cases hm : m = n
    · rw [hm]
      exact kept_entered he.region (hkept n).small rfl (Function.update_self _ _ _) rfl
    · exact (hkept m).congr (sameDump_entered hm)

theorem started_before (setup : PanicSetup) : Started setup.before := by
  have hnone : ∀ m, setup.before.region m = none :=
    fun m => region_eq_none_iff.mpr (setup.others_named m)
  refine ⟨⟨fun m => ?_, initialSize_dvd, fun m r hr => ?_, fun m m' r r' hr => ?_⟩,
    fun m => ⟨?_, fun r hr => ?_, initialSize_small m⟩, rfl, rfl⟩
  · have hzero := List.count_eq_zero.mpr (setup.others_named m)
    exact hzero.trans_le (Nat.zero_le 1)
  · rw [hnone m] at hr
    cases hr
  · rw [hnone m] at hr
    cases hr
  · rw [hnone m]
    rfl
  · rw [hnone m] at hr
    cases hr

theorem started_panicData (cma : CmaArea) (setup : PanicSetup) :
    Started (mdRegisterPanicData cma setup) := by
  have hstart := started_before setup
  unfold mdRegisterPanicData
  generalize ([.pageowner, .slabowner, .dmaInfo, .dmaProc] : List DumpName) = names
  generalize setup.before = s at *
  induction names generalizing s with
  | nil => exact hstart
  | cons n names ih =>
    rw [List.foldl_cons]
    refine ih _ ?_
    split
    · exact hstart.register (setup.registration n) n
    · exact hstart

/-! ## Sizes in every run -/

/-- The sizes written for a dump fit. -/
def SizesFit (n : DumpName) (_ : Dumps) : DumpWrite → Prop
  | .size m size _ => m = n → SizeFits size
  | .handles _ _ => True

/-- What is kept between two writes. -/
structure InStep (n : DumpName) (s : Dumps) : Prop where
  backed : Backed s
  kept : Kept n s
  disabled : s.region n = none → s.dumpSize n = 0

section Runs

variable {cma : CmaArea} {setup : PanicSetup} {n : DumpName} {s t : Dumps}

theorem backed_handleWrite (h : Backed s) (m : DumpName) (size : UInt64) :
    Backed (handleWrite m size s) := by
  unfold handleWrite
  split
  · exact h
  · split
    · exact h
    · exact ⟨h.once, h.aligned, h.buffer, h.apart⟩

theorem handleWrite_kept (h : Kept n s) (m : DumpName) (size : UInt64) :
    Kept n (handleWrite m size s) := by
  unfold handleWrite
  split
  · exact h
  · split
    · exact h
    · exact ⟨h.addr, h.size, h.small⟩

theorem handleWrite_frame (m : DumpName) (size : UInt64) (s : Dumps) :
    (handleWrite m size s).region = s.region ∧ (handleWrite m size s).dumpSize = s.dumpSize ∧
      (handleWrite m size s).dumpAddr = s.dumpAddr := by
  unfold handleWrite
  split
  · exact ⟨rfl, rfl, rfl⟩
  · split
    · exact ⟨rfl, rfl, rfl⟩
    · exact ⟨rfl, rfl, rfl⟩

/-- **One write.** -/
theorem InStep.step (h : InStep n s) {a : DumpWrite} (hok : SizesFit n s a)
    (hstep : (dumpMachine cma setup).step s a = some t) : InStep n t := by
  cases a with
  | size m size o =>
    obtain ⟨-, ht⟩ := Option.ite_none_right_eq_some.mp hstep
    have ht := Option.some.inj ht
    have hbacked : Backed t := ht ▸ h.backed.updateDumpSize o m size
    by_cases hm : m = n
    · subst hm
      obtain rfl | ⟨hregion, haddr, hsize, -⟩ | ⟨hkept, hsome, -⟩ :=
        own_cases h.backed h.kept (hok rfl) o t ht
      · exact h
      · refine ⟨hbacked, ⟨?_, fun r hr => ?_, ?_⟩, fun _ => hsize⟩
        · rw [haddr, hregion]
          rfl
        · rw [hregion] at hr
          cases hr
        · rw [hsize]
          decide
      · refine ⟨hbacked, hkept, fun hnone => ?_⟩
        rw [hnone] at hsome
        cases hsome
    · have hsame : SameDump n s t := ht ▸ sameDump_updateDumpSize o size (Ne.symm hm)
      refine ⟨hbacked, h.kept.congr hsame, fun hnone => ?_⟩
      rw [hsame.size]
      exact h.disabled (hsame.region ▸ hnone)
  | handles m size =>
    obtain ⟨-, ht⟩ := Option.ite_none_right_eq_some.mp hstep
    cases Option.some.inj ht
    obtain ⟨hregion, hsize, -⟩ := handleWrite_frame m size s
    refine ⟨backed_handleWrite h.backed m size, handleWrite_kept h.kept m size, fun hnone => ?_⟩
    rw [hsize]
    exact h.disabled (hregion ▸ hnone)

theorem InStep.consistent (h : InStep n s) : Consistent n s := by
  have haddr := h.kept.addr
  cases hr : s.region n with
  | none =>
    have hsize := h.disabled hr
    rw [hr] at haddr
    refine ⟨?_, ?_, fun r hr' => ?_⟩
    · rw [hr, hsize]
      exact ⟨fun hn => Bool.noConfusion hn, fun hne => absurd rfl hne⟩
    · rw [hsize, haddr]
      exact ⟨fun hne => absurd rfl hne, fun hne => absurd rfl hne⟩
    · rw [hr] at hr'
      cases hr'
  | some r =>
    obtain ⟨hvirt, hpos, hbuf⟩ := h.backed.buffer n r hr
    have hsize := h.kept.size r hr
    rw [hr] at haddr
    have haddr : s.dumpAddr n = r.virtAddr := haddr
    rw [hsize] at hpos hbuf
    refine ⟨?_, ?_, fun r' hr' => ?_⟩
    · rw [hr]
      exact ⟨fun _ => hpos, fun _ => rfl⟩
    · rw [haddr]
      exact ⟨fun _ => hvirt, fun _ => hpos⟩
    · rw [hr] at hr'
      cases hr'
      exact ⟨hsize, hbuf⟩

/-- **The three places agree** after every write, for a dump that was registered at first and sizes
that fit. -/
theorem dumps_consistent (cma : CmaArea) (setup : PanicSetup) (n : DumpName)
    (h : ((mdRegisterPanicData cma setup).region n).isSome = true) :
    ∀ s, (dumpMachine cma setup).Reach (SizesFit n) s → Consistent n s := by
  intro s hs
  refine (hs.invariant (I := InStep n) ?_ (fun s a t hi hok hstep => hi.step hok hstep)).consistent
  intro s hinit
  obtain ⟨hbacked, hkept, -, -⟩ := started_panicData cma setup
  rw [show s = mdRegisterPanicData cma setup from hinit]
  refine ⟨hbacked, hkept n, fun hnone => ?_⟩
  rw [hnone] at h
  cases h

end Runs

/-- An area of 64 MB. -/
def smallArea : CmaArea := ⟨16384, by decide⟩

/-- Every dump gets a buffer at first; that of the page owners is at `0xffffff8000000000`. -/
def allRegistered : PanicSetup where
  others := []
  others_named := fun _ => List.not_mem_nil
  ownerEnabled := fun _ => true
  registration
    | .pageowner => ⟨some (0xffffff8000000000, 0x80000000), true⟩
    | .slabowner => ⟨some (0xffffff8000200000, 0x80200000), true⟩
    | .dmaInfo => ⟨some (0xffffff8000400000, 0x80400000), true⟩
    | .dmaProc => ⟨some (0xffffff8000440000, 0x80440000), true⟩

/-- The same without memory for the page owners. -/
def pageownerMissing : PanicSetup :=
  { allRegistered with
    registration := fun n => if n = .pageowner then ⟨none, true⟩ else allRegistered.registration n }

/-- A write that meets no obstacle. -/
def smooth (virt phys : UInt64) : Outcome := ⟨true, ⟨some (virt, phys), true⟩, ⟨none, true⟩⟩

/-- The page owners are given 4 MB. -/
theorem dumps_consistent_grown :
    ((mdRegisterPanicData smallArea allRegistered).region .pageowner).isSome = true ∧
    Consistent .pageowner (updateDumpSize smallArea (smooth 0xffffff8001000000 0x81000000)
      .pageowner 4 (mdRegisterPanicData smallArea allRegistered)) := by
  have hstart : ((mdRegisterPanicData smallArea allRegistered).region .pageowner).isSome = true := by
    decide +kernel
  refine ⟨hstart, dumps_consistent smallArea allRegistered .pageowner hstart _ ?_⟩
  exact .step (a := .size .pageowner 4 (smooth 0xffffff8001000000 0x81000000)) (.init rfl)
    (fun _ => Or.inr (by decide)) rfl

/-- A dump without memory at first never gets any, and its size says 2 MB; and 4097 MB become 1 MB
in minidump. -/
theorem dumps_not_consistent :
    (∃ s, (dumpMachine smallArea pageownerMissing).Reach (fun _ _ => True) s ∧
      s.dumpSize .pageowner = 0x200000 ∧ s.region .pageowner = none ∧
      ¬Consistent .pageowner s) ∧
    ∃ s, (dumpMachine smallArea allRegistered).Reach (fun _ _ => True) s ∧
      s.dumpSize .pageowner = 0x100100000 ∧
      (s.region .pageowner).map MdRegion.size = some 0x100000 ∧ ¬Consistent .pageowner s := by
  constructor
  · have hregion : (updateDumpSize smallArea (smooth 0xffffff8001000000 0x81000000) .pageowner 4
        (mdRegisterPanicData smallArea pageownerMissing)).region .pageowner = none := by
      decide +kernel
    have hsize : (updateDumpSize smallArea (smooth 0xffffff8001000000 0x81000000) .pageowner 4
        (mdRegisterPanicData smallArea pageownerMissing)).dumpSize .pageowner = 0x200000 := by
      decide +kernel
    refine ⟨_, .step (a := .size .pageowner 4 (smooth 0xffffff8001000000 0x81000000)) (.init rfl)
      trivial rfl, hsize, hregion, fun h => ?_⟩
    have hiff := h.registered_iff
    rw [hsize, hregion] at hiff
    exact absurd (hiff.mpr (by decide)) Bool.false_ne_true
  · have hregion : ((updateDumpSize smallArea (smooth 0xffffff8001000000 0x81000000) .pageowner 4097
        (mdRegisterPanicData smallArea allRegistered)).region .pageowner).map MdRegion.size =
          some 0x100000 := by
      decide +kernel
    have hsize : (updateDumpSize smallArea (smooth 0xffffff8001000000 0x81000000) .pageowner 4097
        (mdRegisterPanicData smallArea allRegistered)).dumpSize .pageowner = 0x100100000 := by
      decide +kernel
    refine ⟨_, .step (a := .size .pageowner 4097 (smooth 0xffffff8001000000 0x81000000)) (.init rfl)
      trivial rfl, hsize, hregion, fun h => ?_⟩
    obtain ⟨r, hr, hrsize⟩ := Option.map_eq_some_iff.mp hregion
    have heq := (h.size r hr).1
    rw [hsize, hrsize] at heq
    exact absurd heq (by decide)

end SafelinuxDbg.MinidumpMemory
