import SafelinuxDbg.MinidumpLog.StackNames

/-!
# Dumping a module

`register_vmap_mem` submits memory of a module page by page, since pages that follow each other in the
virtual address space need not do so in the physical one.  The first piece may start inside a page, and
the last one may be short.  The physical address is that of the page: the offset in the page is not
added, so it is right only for pieces that start with a page.

A piece is named by its number, which is an `int`, and the name of the module, as much as fits in 12
bytes.  A number and its separator always fit, so the names differ until the numbers come round.

* `vmapLoop_tiles`: the pieces cover the memory one behind the other.
* `vmapLoop_inPage`: no piece goes over the end of a page.
* `map_name_vmapLoop`: the names, one for each number.
* `vmapLaw_iff`: exactly when all is as it should be.
* `vmap_offset_lost`: a piece that starts inside a page is registered with the address of the page.

`md_module_process` asks first whether there are enough regions left for a module.  In SMEM mode one
region too many is reported, and a last page that is not full is not counted:

* `module_whole_iff`: so a module that passes may still lose its last page.
* `enoughRegions_of_error`: in RM mode an error counts as enough.
-/

namespace SafelinuxDbg.MinidumpLog

open CMemory Minidump

/-- `offset_in_page`. -/
def offsetInPage (a : UInt64) : UInt64 := a % pageSize

/-- `page_to_phys(vmalloc_to_page(a))`, where `frame` maps the virtual pages to page frames. -/
def pageToPhys (frame : UInt64 → UInt64) (a : UInt64) : UInt64 := frame (a / pageSize) * pageSize

/-- The physical address of `a`: its page frame and its offset in the page. -/
def translate (frame : UInt64 → UInt64) (a : UInt64) : UInt64 :=
  pageToPhys frame a + offsetInPage a

/-- What is passed to `md_register_minidump_entry`. -/
structure VmapEntry where
  name : CStr
  virtAddr : UInt64
  physAddr : UInt64
  size : UInt64
deriving DecidableEq

/-- `entry_name`: `"%d_%s"` in 12 bytes. -/
def entryName (name : CStr) (i : Int32) : CStr :=
  (CStr.signedDecimal i.toInt ++ CStr.ofString "_" ++ name).truncate 11

/-- `to_dump`: at most a page, so that it fits in an `int`. -/
def toDump (addr len : UInt64) : UInt64 :=
  if len < pageSize - offsetInPage addr then len else pageSize - offsetInPage addr

theorem toNat_offsetInPage (a : UInt64) : (offsetInPage a).toNat = a.toNat % 4096 := UInt64.toNat_mod _ _

theorem toNat_toDump (addr len : UInt64) :
    (toDump addr len).toNat = min len.toNat (4096 - addr.toNat % 4096) := by
  have hoffset := toNat_offsetInPage addr
  have hle : offsetInPage addr ≤ pageSize := by
    rw [UInt64.le_iff_toNat_le, hoffset, toNat_pageSize]
    omega
  have hrest : (pageSize - offsetInPage addr).toNat = 4096 - addr.toNat % 4096 := by
    rw [UInt64.toNat_sub_of_le _ _ hle, hoffset, toNat_pageSize]
  rw [toDump]
  split
  case isTrue hlt =>
    rw [UInt64.lt_iff_toNat_lt, hrest] at hlt
    omega
  case isFalse hge =>
    rw [UInt64.lt_iff_toNat_lt, hrest] at hge
    rw [hrest]
    omega

/-- What is left of the length. -/
theorem toNat_sub_toDump (addr len : UInt64) :
    (len - toDump addr len).toNat = len.toNat - (toDump addr len).toNat := by
  apply UInt64.toNat_sub_of_le
  rw [UInt64.le_iff_toNat_le, toNat_toDump]
  exact Nat.min_le_left _ _

theorem toDump_pos (addr : UInt64) {len : UInt64} (hlen : len ≠ 0) : 0 < (toDump addr len).toNat := by
  have hpos : 0 < len.toNat := by
    rw [Nat.pos_iff_ne_zero]
    exact fun hzero => hlen (UInt64.toNat_inj.mp hzero)
  rw [toNat_toDump]
  omega

/-- The loop of `register_vmap_mem`: what it submits.  The counter is an `int`, and the kernel is built
so that it wraps around. -/
def vmapLoop (frame : UInt64 → UInt64) (name : CStr) (dumpAddr dumpLen : UInt64) (i : Int32) :
    List VmapEntry :=
  if dumpLen = 0 then []
  else
    ⟨entryName name i, dumpAddr, pageToPhys frame dumpAddr, toDump dumpAddr dumpLen⟩ ::
      vmapLoop frame name (dumpAddr + toDump dumpAddr dumpLen) (dumpLen - toDump dumpAddr dumpLen)
        (i + 1)
termination_by dumpLen.toNat
decreasing_by
  rename_i hlen
  have hpos := toDump_pos dumpAddr hlen
  have hle := toNat_toDump dumpAddr dumpLen
  rw [toNat_sub_toDump]
  omega

/-- `register_vmap_mem`: what it submits. -/
def registerVmapMem (frame : UInt64 → UInt64) (name : CStr) (virtualAddr dumpLen : UInt64) :
    List VmapEntry :=
  vmapLoop frame name virtualAddr dumpLen 0

/-! ## The pieces -/

/-- The entries cover the addresses from `a` to `b` one behind the other. -/
def Tiles : List VmapEntry → Nat → Nat → Prop
  | [], a, b => a = b
  | e :: es, a, b => e.virtAddr.toNat = a ∧ 0 < e.size.toNat ∧ Tiles es (a + e.size.toNat) b

section Pieces

variable {frame : UInt64 → UInt64} {name : CStr} {addr len : UInt64} {i : Int32}

theorem vmapLoop_zero (addr : UInt64) (i : Int32) : vmapLoop frame name addr 0 i = [] := by
  rw [vmapLoop, if_pos rfl]

theorem vmapLoop_cons (addr : UInt64) (hlen : len ≠ 0) (i : Int32) :
    vmapLoop frame name addr len i =
      ⟨entryName name i, addr, pageToPhys frame addr, toDump addr len⟩ ::
        vmapLoop frame name (addr + toDump addr len) (len - toDump addr len) (i + 1) := by
  rw [vmapLoop, if_neg hlen]

/-- Where there is more to dump, the next piece starts with a page. -/
theorem next_addr (hmore : len - toDump addr len ≠ 0) :
    (toDump addr len).toNat = 4096 - addr.toNat % 4096 ∧ (toDump addr len).toNat < len.toNat ∧
      (addr + toDump addr len).toNat % 4096 = 0 := by
  have hpos : (len - toDump addr len).toNat ≠ 0 := fun hzero => hmore (UInt64.toNat_inj.mp hzero)
  have hdump := toNat_toDump addr len
  rw [toNat_sub_toDump] at hpos
  refine ⟨by omega, by omega, ?_⟩
  rw [UInt64.toNat_add]
  omega

/-- The next piece starts where this one ends, also at the end of the address space. -/
theorem toNat_next_addr (h : addr.toNat + len.toNat ≤ 2 ^ 64) (hmore : len - toDump addr len ≠ 0) :
    (addr + toDump addr len).toNat = addr.toNat + (toDump addr len).toNat := by
  obtain ⟨-, hlt, -⟩ := next_addr hmore
  rw [UInt64.toNat_add, Nat.mod_eq_of_lt (by omega)]

/-- **The pieces cover the memory** one behind the other, where the addresses do not wrap around. -/
theorem vmapLoop_tiles (h : addr.toNat + len.toNat ≤ 2 ^ 64) :
    Tiles (vmapLoop frame name addr len i) addr.toNat (addr.toNat + len.toNat) := by
  induction addr, len, i using vmapLoop.induct with
  | case1 addr i =>
    rw [vmapLoop_zero]
    rfl
  | case2 addr len i hlen ih =>
    have hpos := toDump_pos addr hlen
    have hdump := toNat_toDump addr len
    have hrest := toNat_sub_toDump addr len
    rw [vmapLoop_cons addr hlen, Tiles]
    dsimp only
    refine ⟨rfl, hpos, ?_⟩
    by_cases hmore : len - toDump addr len = 0
    · have hzero : (len - toDump addr len).toNat = 0 := congrArg UInt64.toNat hmore
      rw [hmore, vmapLoop_zero]
      show addr.toNat + (toDump addr len).toNat = addr.toNat + len.toNat
      omega
    · obtain ⟨-, hlt, -⟩ := next_addr hmore
      have hnext := toNat_next_addr h hmore
      have htiles := ih (by omega)
      have hend : (addr + toDump addr len).toNat + (len - toDump addr len).toNat =
          addr.toNat + len.toNat := by omega
      rw [hend, hnext] at htiles
      exact htiles

/-- **No piece goes over the end of a page**, and each has the physical address of its page. -/
theorem vmapLoop_inPage : ∀ e ∈ vmapLoop frame name addr len i,
    e.virtAddr.toNat % 4096 + e.size.toNat ≤ 4096 ∧ e.physAddr = pageToPhys frame e.virtAddr := by
  induction addr, len, i using vmapLoop.induct with
  | case1 addr i =>
    rw [vmapLoop_zero]
    exact List.forall_mem_nil _
  | case2 addr len i hlen ih =>
    have hdump := toNat_toDump addr len
    rw [vmapLoop_cons addr hlen]
    refine List.forall_mem_cons.mpr ⟨⟨?_, rfl⟩, ih⟩
    dsimp only
    omega

/-- Memory that starts with a page is dumped in pieces that do so, as many as it has pages. -/
theorem vmapLoop_aligned (h : addr.toNat % 4096 = 0) :
    (∀ e ∈ vmapLoop frame name addr len i, e.virtAddr.toNat % 4096 = 0) ∧
      (vmapLoop frame name addr len i).length = (len.toNat + 4095) / 4096 := by
  induction addr, len, i using vmapLoop.induct with
  | case1 addr i =>
    rw [vmapLoop_zero]
    exact ⟨List.forall_mem_nil _, rfl⟩
  | case2 addr len i hlen ih =>
    have hpos := toDump_pos addr hlen
    have hdump := toNat_toDump addr len
    have hrest := toNat_sub_toDump addr len
    rw [vmapLoop_cons addr hlen, List.length_cons]
    by_cases hmore : len - toDump addr len = 0
    · have hzero : (len - toDump addr len).toNat = 0 := congrArg UInt64.toNat hmore
      rw [hmore, vmapLoop_zero]
      refine ⟨List.forall_mem_cons.mpr ⟨h, List.forall_mem_nil _⟩, ?_⟩
      rw [List.length_nil]
      omega
    · obtain ⟨hsize, hlt, hnext⟩ := next_addr hmore
      obtain ⟨haligned, hlength⟩ := ih hnext
      refine ⟨List.forall_mem_cons.mpr ⟨h, haligned⟩, ?_⟩
      omega

theorem registerVmapMem_aligned (frame : UInt64 → UInt64) (name : CStr) (len : UInt64)
    (h : addr.toNat % 4096 = 0) :
    (∀ e ∈ registerVmapMem frame name addr len, e.virtAddr.toNat % 4096 = 0) ∧
      (registerVmapMem frame name addr len).length = (len.toNat + 4095) / 4096 :=
  vmapLoop_aligned h

/-- Where the memory is made of words, the pieces are so too, and none of them is at the address 0. -/
theorem vmapLoop_words (haligned : addr.toNat % 4096 = 0) (hpos : 0 < addr.toNat)
    (hend : addr.toNat + len.toNat ≤ 2 ^ 64) (hwords : len.toNat % 4 = 0) :
    ∀ e ∈ vmapLoop frame name addr len i, 0 < e.virtAddr.toNat ∧ e.size.toNat % 4 = 0 := by
  induction addr, len, i using vmapLoop.induct with
  | case1 addr i =>
    rw [vmapLoop_zero]
    exact List.forall_mem_nil _
  | case2 addr len i hlen ih =>
    have hdump := toNat_toDump addr len
    have hrest := toNat_sub_toDump addr len
    rw [vmapLoop_cons addr hlen]
    refine List.forall_mem_cons.mpr ⟨⟨hpos, by dsimp only; omega⟩, ?_⟩
    by_cases hmore : len - toDump addr len = 0
    · rw [hmore, vmapLoop_zero]
      exact List.forall_mem_nil _
    · obtain ⟨-, hlt, haligned'⟩ := next_addr hmore
      have hnext := toNat_next_addr hend hmore
      exact ih haligned' (by omega) (by omega) (by omega)

/-- The last piece ends before the end of the address space. -/
theorem Tiles.end_le {es : List VmapEntry}
    (hpage : ∀ e ∈ es, e.virtAddr.toNat % 4096 + e.size.toNat ≤ 4096) :
    ∀ {a b : Nat}, a ≤ 2 ^ 64 → Tiles es a b → b ≤ 2 ^ 64 := by
  induction es with
  | nil =>
    rintro a b ha hab
    exact hab ▸ ha
  | cons e es ih =>
    rintro a b - ⟨hstart, -, htiles⟩
    have hlt := e.virtAddr.toNat_lt
    have hfits := hpage e List.mem_cons_self
    exact ih (fun x hx => hpage x (List.mem_cons_of_mem _ hx)) (by omega) htiles

end Pieces

/-! ## The names -/

section Names

variable {frame : UInt64 → UInt64} {name : CStr} {addr len : UInt64} {i : Int32}

theorem entryName_bytes (name : CStr) (i : Int32) :
    (entryName name i).bytes = (signedDecimal i.toInt ++ 95 :: name.bytes).take 11 := by
  rw [entryName, CStr.truncate_bytes, CStr.append_bytes, CStr.append_bytes, underscore_bytes,
    CStr.signedDecimal_bytes, List.append_assoc, List.singleton_append]

/-- A name that is cut off once more still tells the number, where this fits. -/
theorem entryName_truncate_inj {n : Nat} (hn : n ≤ 11) {i j : Int32}
    (hi : (signedDecimal i.toInt).length ≤ n) (hj : (signedDecimal j.toInt).length ≤ n)
    (h : (entryName name i).truncate n = (entryName name j).truncate n) : i = j := by
  have hseparator : ∀ i : Int32, (95 : UInt8) ∉ signedDecimal i.toInt :=
    fun i => not_mem_signedDecimal (by decide) (by decide) _
  have hbytes := congrArg CStr.bytes h
  rw [CStr.truncate_bytes, CStr.truncate_bytes, entryName_bytes, entryName_bytes, List.take_take,
    List.take_take, Nat.min_eq_left hn] at hbytes
  have hdigits := before_inj (hseparator i) (hseparator j) hi hj hbytes
  exact Int32.toInt_inj.mp (signedDecimal_injective hdigits)

theorem entryName_injective {i j : Int32} (h : entryName name i = entryName name j) : i = j := by
  have hlength : ∀ i : Int32, (signedDecimal i.toInt).length ≤ 11 := by
    intro i
    have hlow := i.le_toInt
    have hhigh := i.toInt_lt
    exact length_signedDecimal_le (k := 10) (by decide) (by omega)
  exact entryName_truncate_inj (Nat.le_refl _) (hlength i) (hlength j)
    (congrArg (fun s => s.truncate 11) h)

/-- The pieces are numbered. -/
theorem map_name_vmapLoop : (vmapLoop frame name addr len i).map VmapEntry.name =
    (List.range (vmapLoop frame name addr len i).length).map fun k =>
      entryName name (i + Int32.ofNat k) := by
  induction addr, len, i using vmapLoop.induct with
  | case1 addr i =>
    rw [vmapLoop_zero]
    rfl
  | case2 addr len i hlen ih =>
    have hfirst : i + Int32.ofNat 0 = i := Int32.add_eq_left.mpr rfl
    rw [vmapLoop_cons addr hlen, List.map_cons, ih, List.length_cons, List.range_succ_eq_map,
      List.map_cons, List.map_map, hfirst]
    congr 1
    refine List.map_congr_left fun k _ => ?_
    have hnext : i + 1 + Int32.ofNat k = i + Int32.ofNat (k + 1) := by
      rw [Int32.ofNat_add, Int32.add_assoc, Int32.add_comm 1]
      rfl
    rw [hnext]
    rfl

/-- **The names differ** until the numbers come round. -/
theorem names_distinct_iff : ((registerVmapMem frame name addr len).map VmapEntry.name).Nodup ↔
    (registerVmapMem frame name addr len).length ≤ 2 ^ 32 := by
  rw [registerVmapMem, map_name_vmapLoop]
  generalize (vmapLoop frame name addr len 0).length = count
  constructor
  · intro hnodup
    by_contra hmore
    have hround : entryName name (0 + Int32.ofNat (2 ^ 32)) = entryName name (0 + Int32.ofNat 0) := rfl
    have hsame := List.inj_on_of_nodup_map hnodup (List.mem_range.mpr (by omega))
      (List.mem_range.mpr (by omega)) hround
    cases hsame
  · intro hcount
    refine List.nodup_range.map_on ?_
    intro j hj k hk heq
    have hint := entryName_injective heq
    rw [Int32.zero_add, Int32.zero_add] at hint
    have hnat := congrArg (fun x => x.toUInt32.toNat) hint
    rw [List.mem_range] at hj hk
    simp only [Int32.toUInt32_ofNat', UInt32.toNat_ofNat'] at hnat
    omega

end Names

/-! ## The result -/

/-- What `register_vmap_mem` should submit. -/
structure VmapLaw (frame : UInt64 → UInt64) (name : CStr) (start len : UInt64) : Prop where
  tiles : Tiles (registerVmapMem frame name start len) start.toNat (start.toNat + len.toNat)
  inPage : ∀ e ∈ registerVmapMem frame name start len,
    e.virtAddr.toNat % 4096 + e.size.toNat ≤ 4096
  translated : ∀ e ∈ registerVmapMem frame name start len, e.physAddr = translate frame e.virtAddr
  distinct : ((registerVmapMem frame name start len).map VmapEntry.name).Nodup

section Law

variable {frame : UInt64 → UInt64} {name : CStr} {start len : UInt64}

/-- The address of the page is the translation only at the start of the page. -/
theorem pageToPhys_eq_translate_iff (frame : UInt64 → UInt64) (a : UInt64) :
    pageToPhys frame a = translate frame a ↔ a.toNat % 4096 = 0 := by
  have hoffset := toNat_offsetInPage a
  rw [translate]
  constructor
  · intro h
    have hzero : offsetInPage a = 0 := UInt64.add_eq_left.mp h.symm
    rw [hzero] at hoffset
    exact hoffset.symm
  · intro h
    rw [h] at hoffset
    have hzero : offsetInPage a = 0 := UInt64.toNat_inj.mp hoffset
    rw [hzero, UInt64.add_zero]

/-- Nothing is submitted for no memory. -/
theorem vmapLaw_empty (frame : UInt64 → UInt64) (name : CStr) (start : UInt64) :
    VmapLaw frame name start 0 := by
  have hnil : registerVmapMem frame name start 0 = [] := vmapLoop_zero start 0
  constructor
  case tiles =>
    rw [hnil]
    rfl
  case inPage =>
    rw [hnil]
    exact List.forall_mem_nil _
  case translated =>
    rw [hnil]
    exact List.forall_mem_nil _
  case distinct =>
    rw [hnil]
    exact List.nodup_nil

/-- The law wants memory that starts with a page, since the first piece starts where the memory does. -/
theorem aligned_of_translated (hlen : len ≠ 0)
    (h : ∀ e ∈ registerVmapMem frame name start len, e.physAddr = translate frame e.virtAddr) :
    start.toNat % 4096 = 0 := by
  rw [registerVmapMem, vmapLoop_cons start hlen] at h
  exact (pageToPhys_eq_translate_iff frame start).mp (h _ List.mem_cons_self)

/-- **`register_vmap_mem` is right** if and only if there is nothing to dump; or the memory starts with
a page, does not wrap around the end of the address space, and has at most 2 ^ 32 pages. -/
theorem vmapLaw_iff (frame : UInt64 → UInt64) (name : CStr) (start len : UInt64) :
    VmapLaw frame name start len ↔ len = 0 ∨
      (start.toNat % 4096 = 0 ∧ start.toNat + len.toNat ≤ 2 ^ 64 ∧ len.toNat ≤ 2 ^ 44) := by
  by_cases hlen : len = 0
  · rw [hlen]
    exact ⟨fun _ => Or.inl rfl, fun _ => vmapLaw_empty frame name start⟩
  have hstart := start.toNat_lt
  constructor
  · intro h
    have haligned := aligned_of_translated hlen h.translated
    obtain ⟨-, hlength⟩ := registerVmapMem_aligned frame name len haligned
    have hcount := names_distinct_iff.mp h.distinct
    have hend := Tiles.end_le h.inPage (by omega) h.tiles
    exact Or.inr ⟨haligned, hend, by omega⟩
  · rintro (hzero | ⟨haligned, hend, hpages⟩)
    · exact absurd hzero hlen
    · obtain ⟨hpieces, hlength⟩ := registerVmapMem_aligned frame name len haligned
      constructor
      case tiles => exact vmapLoop_tiles hend
      case inPage => exact fun e he => (vmapLoop_inPage e he).1
      case translated =>
        intro e he
        rw [(vmapLoop_inPage e he).2]
        exact (pageToPhys_eq_translate_iff frame e.virtAddr).mpr (hpieces e he)
      case distinct =>
        refine names_distinct_iff.mpr ?_
        rw [hlength]
        omega

/-- **The offset is lost**: the first piece of memory that starts 16 bytes inside a page is submitted
with the address of the page. -/
theorem vmap_offset_lost :
    (registerVmapMem (fun _ => 0x80000) (CStr.ofString "cfg80211") 0xffff800000000010 32).map
        VmapEntry.physAddr = [0x80000000] ∧
      translate (fun _ => 0x80000) 0xffff800000000010 = 0x80000010 ∧
      ¬ VmapLaw (fun _ => 0x80000) (CStr.ofString "cfg80211") 0xffff800000000010 32 := by
  refine ⟨?_, by decide, fun h => ?_⟩
  · have hdump : toDump 0xffff800000000010 32 = 32 := by decide
    have hphys : pageToPhys (fun _ => 0x80000) 0xffff800000000010 = 0x80000000 := by decide
    rw [registerVmapMem, vmapLoop_cons _ (by decide), hdump, hphys]
    have hrest : (32 : UInt64) - 32 = 0 := by decide
    rw [hrest, vmapLoop_zero]
    rfl
  · have haligned := aligned_of_translated (by decide) h.translated
    exact absurd haligned (by decide)

end Law

/-! ## A module -/

/-- `md_register_minidump_entry`: the region it submits.  Its `id` is not set. -/
def mdRegisterMinidumpEntry (cfg : Config) (id : UInt32) (e : VmapEntry) : MdRegion :=
  ⟨e.name.truncate cfg.maxNameLength, id, e.virtAddr, e.physAddr, e.size⟩

/-- What `md_module_process` reads of a module. -/
structure ModuleLayout where
  name : CStr
  /-- `core_layout.base` -/
  base : UInt64
  /-- `core_layout.ro_after_init_size` -/
  roAfterInitSize : UInt32
  /-- `core_layout.size` -/
  size : UInt32

def ModuleLayout.dumpStart (m : ModuleLayout) : UInt64 := m.base + m.roAfterInitSize.toUInt64

def ModuleLayout.dumpEnd (m : ModuleLayout) : UInt64 := m.base + m.size.toUInt64

def ModuleLayout.dumpLen (m : ModuleLayout) : UInt64 := m.dumpEnd - m.dumpStart

/-- What `md_module_process` meets. -/
structure ModuleKernel where
  /-- the page frames of the virtual pages -/
  frame : UInt64 → UInt64
  /-- `key_modules` -/
  keyModules : List CStr
  /-- `md_mod_info_seq_buf` is there -/
  modInfo : Bool
  /-- `gh_rm_minidump_get_info` -/
  info : Int
  /-- the allocations in `msm_minidump_add_region`, one for each piece -/
  alloc : Nat → Bool
  /-- what `md_entry.id` is -/
  id : Nat → UInt32

/-- The check of `md_module_process`: the number of regions is an `int`, and compared as an
`unsigned long`. -/
def enoughRegions (k : ModuleKernel) (m : ModuleLayout) (d : Driver) : Bool :=
  m.dumpLen / pageSize < UInt64.ofInt (msmMinidumpGetAvailableRegion k.info d)

/-- The regions of a module. -/
def moduleRegions (cfg : Config) (k : ModuleKernel) (m : ModuleLayout) : List (Bool × MdRegion) :=
  (registerVmapMem k.frame m.name m.dumpStart m.dumpLen).mapIdx fun i e =>
    (k.alloc i, mdRegisterMinidumpEntry cfg (k.id i) e)

/-- `md_module_process`: the regions it submits.  The text it adds to the list of modules is left
out. -/
def mdModuleProcess (cfg : Config) (k : ModuleKernel) (m : ModuleLayout) (d : Driver) :
    List (Bool × MdRegion) :=
  if k.modInfo && k.keyModules.contains m.name && enoughRegions k m d then moduleRegions cfg k m
  else []

/-- A module whose pieces are all valid and not registered yet. -/
structure Dumpable (cfg : Config) (k : ModuleKernel) (m : ModuleLayout) (d : Driver) : Prop where
  aligned : m.dumpStart.toNat % 4096 = 0
  notNull : 0 < m.dumpStart.toNat
  noWrap : m.dumpStart.toNat + m.dumpLen.toNat ≤ 2 ^ 64
  words : m.dumpLen.toNat % 4 = 0
  unregistered : ∀ e ∈ moduleRegions cfg k m, e.2.name ∉ entryNames d

section Module

variable {cfg : Config} {k : ModuleKernel} {m : ModuleLayout} {d : Driver}

theorem length_moduleRegions (h : Dumpable cfg k m d) :
    (moduleRegions cfg k m).length = (m.dumpLen.toNat + 4095) / 4096 := by
  obtain ⟨-, hlength⟩ := registerVmapMem_aligned k.frame m.name m.dumpLen h.aligned
  rw [moduleRegions, List.length_mapIdx, hlength]

/-- The names are cut off once more, for the region. -/
theorem map_name_moduleRegions (cfg : Config) (k : ModuleKernel) (m : ModuleLayout) :
    (moduleRegions cfg k m).map (fun e => e.2.name) =
      (List.range (moduleRegions cfg k m).length).map fun i =>
        (entryName m.name (Int32.ofNat i)).truncate cfg.maxNameLength := by
  have hnames : (moduleRegions cfg k m).map (fun e => e.2.name) =
      ((registerVmapMem k.frame m.name m.dumpStart m.dumpLen).map VmapEntry.name).map
        fun s => s.truncate cfg.maxNameLength := by
    apply List.ext_getElem?
    intro i
    simp only [moduleRegions, List.getElem?_map, List.getElem?_mapIdx, Option.map_map]
    rfl
  rw [hnames, moduleRegions, List.length_mapIdx, registerVmapMem, map_name_vmapLoop, List.map_map]
  refine List.map_congr_left fun i _ => ?_
  show (entryName m.name (0 + Int32.ofNat i)).truncate cfg.maxNameLength = _
  rw [Int32.zero_add]

/-- Up to nine digits fit in the name of a region in both builds. -/
theorem moduleRegions_distinct (cfg : Config) (k : ModuleKernel) (m : ModuleLayout)
    (h : (moduleRegions cfg k m).length ≤ 10 ^ 9) :
    ((moduleRegions cfg k m).map fun e => e.2.name).Nodup := by
  have hnine := cfg.le_maxNameLength
  have htoInt : ∀ i < 10 ^ 9, (Int32.ofNat i).toInt = i :=
    fun i hi => Int32.toInt_ofNat_of_lt (by omega)
  have hdigits : ∀ i < 10 ^ 9, (signedDecimal (Int32.ofNat i).toInt).length ≤ 9 := by
    intro i hi
    rw [htoInt i hi]
    exact (length_decimal_le_iff (by decide)).mpr hi
  rw [map_name_moduleRegions]
  refine List.nodup_range.map_on ?_
  intro i hi j hj heq
  rw [List.mem_range] at hi hj
  -- both builds keep the first nine bytes
  have hcut : (entryName m.name (Int32.ofNat i)).truncate 9 =
      (entryName m.name (Int32.ofNat j)).truncate 9 := by
    rw [← CStr.truncate_truncate _ hnine, heq, CStr.truncate_truncate _ hnine]
  have hsame := entryName_truncate_inj (by decide) (hdigits i (by omega)) (hdigits j (by omega)) hcut
  have hint := congrArg Int32.toInt hsame
  rw [htoInt i (by omega), htoInt j (by omega)] at hint
  omega

/-- **A module that is dumpable** is a list of fresh regions. -/
theorem Dumpable.fresh (h : Dumpable cfg k m d) (hfew : (moduleRegions cfg k m).length ≤ 10 ^ 9) :
    FreshFor cfg d (moduleRegions cfg k m) where
  valid e he := by
    obtain ⟨i, hi, rfl⟩ := List.exists_of_mem_mapIdx he
    obtain ⟨hvirt, hsize⟩ := vmapLoop_words h.aligned h.notNull h.noWrap h.words _ (List.getElem_mem hi)
    refine validateRegion_eq_ok.mpr ⟨CStr.strlen_truncate_le _ _, ?_, ?_⟩
    · intro hzero
      have hzero' := congrArg UInt64.toNat hzero
      exact Nat.ne_of_gt hvirt hzero'
    · apply UInt64.toNat_inj.mp
      rw [UInt64.toNat_mod]
      exact hsize
  distinct := moduleRegions_distinct cfg k m hfew
  unregistered := h.unregistered

/-- What the check says in SMEM mode. -/
theorem enoughRegions_smem (hd : Smem d) (hnum : d.numRegions ≤ 200) :
    enoughRegions k m d = true ↔ m.dumpLen.toNat / 4096 < 201 - d.numRegions := by
  have hleft : (UInt64.ofInt (201 - (d.numRegions : Int))).toNat = 201 - d.numRegions := by
    rw [UInt64.ofInt, UInt64.toNat_ofNat']
    omega
  rw [enoughRegions, getAvailableRegion_smem hd, decide_eq_true_eq, UInt64.lt_iff_toNat_lt,
    UInt64.toNat_div, toNat_pageSize, hleft]

/-- **The last page of a module** that passes the check is lost if it is not full and there is no region
left for it. -/
theorem module_whole_iff (hd : Smem d)
    (hcount : d.minidumpTable.mdSsToc.ssRegionCount = d.numRegions + 1) (hnum : d.numRegions ≤ 200)
    (hm : Dumpable cfg k m d) (hinfo : k.modInfo = true)
    (hkey : k.keyModules.contains m.name = true) (henough : enoughRegions k m d = true) :
    (∀ r ∈ addRegions cfg (mdModuleProcess cfg k m d) d, ∃ regno, r = .ok regno) ↔
      m.dumpLen.toNat % 4096 = 0 ∨ d.numRegions + m.dumpLen.toNat / 4096 < 200 := by
  have hprocess : mdModuleProcess cfg k m d = moduleRegions cfg k m := by
    rw [mdModuleProcess, hinfo, hkey, henough]
    rfl
  have hpages := (enoughRegions_smem hd hnum).mp henough
  have hlength := length_moduleRegions hm
  have hfresh := hm.fresh (by omega)
  have hresult := fun i (hi : i < (moduleRegions cfg k m).length) =>
    addRegions_getElem? hd hcount hfresh hi
  rw [hprocess]
  constructor
  · intro hall
    by_contra hlost
    have hlast := hresult (200 - d.numRegions) (by omega)
    rw [if_neg (by omega)] at hlast
    obtain ⟨regno, hok⟩ := hall _ (List.mem_of_getElem? hlast)
    cases hok
  · intro hfits r hr
    obtain ⟨i, hi⟩ := List.mem_iff_getElem?.mp hr
    obtain ⟨hlt, -⟩ := List.getElem?_eq_some_iff.mp hi
    rw [length_addRegions] at hlt
    rw [hresult i hlt, if_pos (by omega), Option.some.injEq] at hi
    exact ⟨_, hi.symm⟩

/-- **An error counts as enough**: in RM mode a module of any size passes when the number of regions
cannot be told. -/
theorem enoughRegions_of_error (hrm : d.isRmMinidump = true) (hlow : -(2 ^ 31) ≤ k.info)
    (hneg : k.info < 0) : enoughRegions k m d = true := by
  have hlen := m.dumpLen.toNat_lt
  have hinfo : (UInt64.ofInt k.info).toNat = (k.info % 2 ^ 64).toNat := by
    rw [UInt64.ofInt, UInt64.toNat_ofNat', Nat.mod_eq_of_lt (by omega)]
  rw [enoughRegions, msmMinidumpGetAvailableRegion, if_pos hrm, decide_eq_true_eq,
    UInt64.lt_iff_toNat_lt, UInt64.toNat_div, toNat_pageSize, hinfo]
  omega

end Module

end SafelinuxDbg.MinidumpLog
