import SafelinuxDbg.MinidumpLog.ModuleList
import SafelinuxDbg.MinidumpLog.Submissions

/-!
# Dumping the current stack

Where the stacks are not followed all the time, `dump_stack_minidump` registers the stack of the current
task when something has gone wrong: the pages from the one with the stack pointer to the end of the stack,
and the task.  A stack pointer that cannot be one of the kernel is replaced by that of the function itself.

A page is named by the CPU and its number, in as many bytes as a region's name has.  Numbers that are cut
off make names that are equal, and then a page is refused.

* `stackPages_covers`: every address from the page of the stack pointer on is in one of the pages.
* `stackDump_covers_iff`: an address of the stack is dumped exactly if the number of its page fits in what the
  name of the CPU leaves over.
-/

namespace SafelinuxDbg.MinidumpLog

open CMemory Minidump

/-! ## The function -/

/-- What `dump_stack_minidump` meets.  The area of the stack has whole pages, without the guard page, and
is not at the end of the address space. -/
structure CurrentStack where
  /-- `IS_ENABLED(CONFIG_QCOM_DYN_MINIDUMP_STACK)` -/
  dynStack : Bool
  isIdle : Bool
  cpu : Nat
  /-- `KIMAGE_VADDR` -/
  kimageVaddr : UInt64
  /-- `current_stack_pointer` -/
  stackPointer : UInt64
  /-- `stack_area->addr` -/
  addr : UInt64
  /-- `get_vm_area_size(stack_area)` -/
  size : UInt64
  /-- the allocations for the pages and for the task -/
  alloc : Nat → Bool
  allocTask : Bool
  addr_pos : 0 < addr.toNat
  addr_aligned : addr.toNat % 4096 = 0
  size_aligned : size.toNat % 4096 = 0
  size_lt : size.toNat < 2 ^ 32
  noWrap : addr.toNat + size.toNat < 2 ^ 64

/-- `in_stack_range`. -/
def inStackRange (sp baseAddr : UInt64) (stackSize : UInt32) : Bool :=
  baseAddr ≤ sp && sp < baseAddr + stackSize.toUInt64

/-- `calculate_copy_pages`. -/
def calculateCopyPages (sp : UInt64) (s : CurrentStack) : UInt32 :=
  if inStackRange sp s.addr s.size.toUInt32 then
    let stackPages := (s.size / pageSize).toUInt32
    (stackPages.toUInt64 - (sp - s.addr) / pageSize).toUInt32
  else 0

/-- `"KSTACK%d_%d"`. -/
def stackPageName (cfg : Config) (cpu i : Nat) : CStr :=
  (CStr.ofString "KSTACK" ++ CStr.decimal cpu ++ CStr.ofString "_" ++ CStr.decimal i).truncate cfg.maxNameLength

/-- The loop over the pages from `sp` on. -/
def stackPages (cfg : Config) (k : StackKernel) (s : CurrentStack) (sp : UInt64) : List (Bool × MdRegion) :=
  (List.range (calculateCopyPages sp s).toNat).map fun i =>
    (s.alloc i, registerStackEntry k (stackPageName cfg s.cpu i) (sp + UInt64.ofNat i * pageSize) pageSize)

/-- The stack pointer that is used. -/
def CurrentStack.sp (s : CurrentStack) (sp : UInt64) : UInt64 :=
  if sp < s.kimageVaddr || 0xffffffffffffff00 < sp then s.stackPointer else sp

/-- The pages of the current stack. -/
def currentPages (cfg : Config) (k : StackKernel) (s : CurrentStack) (sp : UInt64) : List (Bool × MdRegion) :=
  stackPages cfg k s (s.sp sp &&& ~~~(pageSize - 1))

/-- The region of the task. -/
def stackTask (cfg : Config) (k : StackKernel) (s : CurrentStack) : Bool × MdRegion :=
  (s.allocTask, ⟨(CStr.ofString "KTASK" ++ CStr.decimal s.cpu).truncate cfg.maxNameLength, 0, k.current,
    k.virtToPhys k.current, k.taskSize⟩)

/-- `dump_stack_minidump`: the regions it submits. -/
def dumpStackMinidump (cfg : Config) (k : StackKernel) (s : CurrentStack) (sp : UInt64) :
    List (Bool × MdRegion) :=
  if s.dynStack || s.isIdle then []
  else if k.isVmapStack then currentPages cfg k s sp ++ [stackTask cfg k s]
  else
    [(s.alloc 0, registerStackEntry k
      ((CStr.ofString "KSTACK" ++ CStr.decimal s.cpu).truncate cfg.maxNameLength)
      (s.sp sp &&& ~~~(k.threadSize - 1)) k.threadSize), stackTask cfg k s]

/-! ## The pages -/

section Pages

variable {cfg : Config} {k : StackKernel} {s : CurrentStack} {sp : UInt64}

/-- The start of the page of an address. -/
def pageStart (a : Nat) : Nat := a / 4096 * 4096

theorem toNat_pageStart (sp : UInt64) : (sp &&& ~~~(pageSize - 1)).toNat = pageStart sp.toNat := by
  rw [toNat_clearLow (k := 12) (by decide) (by decide)]
  rfl

theorem inStackRange_iff (sp : UInt64) (s : CurrentStack) : inStackRange sp s.addr s.size.toUInt32 = true ↔
    s.addr.toNat ≤ sp.toNat ∧ sp.toNat < s.addr.toNat + s.size.toNat := by
  have hsize : s.size.toUInt32.toUInt64.toNat = s.size.toNat := by
    rw [UInt32.toNat_toUInt64, UInt64.toNat_toUInt32, Nat.mod_eq_of_lt s.size_lt]
  have hend : (s.addr + s.size.toUInt32.toUInt64).toNat = s.addr.toNat + s.size.toNat := by
    rw [UInt64.toNat_add, hsize, Nat.mod_eq_of_lt s.noWrap]
  rw [inStackRange, Bool.and_eq_true, decide_eq_true_eq, decide_eq_true_eq, UInt64.le_iff_toNat_le,
    UInt64.lt_iff_toNat_lt, hend]

/-- **The number of pages**: those from the page of the stack pointer to the end. -/
theorem toNat_calculateCopyPages (sp : UInt64) (s : CurrentStack) : (calculateCopyPages sp s).toNat =
    if s.addr.toNat ≤ sp.toNat ∧ sp.toNat < s.addr.toNat + s.size.toNat then
      (s.addr.toNat + s.size.toNat - pageStart sp.toNat) / 4096
    else 0 := by
  have haligned := s.addr_aligned
  have hsize := s.size_aligned
  have hlt := s.size_lt
  rw [calculateCopyPages]
  by_cases hin : inStackRange sp s.addr s.size.toUInt32 = true
  · have hrange := (inStackRange_iff sp s).mp hin
    have hpages : (s.size / pageSize).toUInt32.toUInt64.toNat = s.size.toNat / 4096 := by
      rw [UInt32.toNat_toUInt64, UInt64.toNat_toUInt32, UInt64.toNat_div, toNat_pageSize,
        Nat.mod_eq_of_lt (by omega)]
    have hoffset : ((sp - s.addr) / pageSize).toNat = (sp.toNat - s.addr.toNat) / 4096 := by
      rw [UInt64.toNat_div, toNat_pageSize, UInt64.toNat_sub_of_le _ _ (UInt64.le_iff_toNat_le.mpr hrange.1)]
    have hle : (sp - s.addr) / pageSize ≤ (s.size / pageSize).toUInt32.toUInt64 := by
      rw [UInt64.le_iff_toNat_le, hpages, hoffset]
      omega
    rw [if_pos hin, if_pos hrange]
    dsimp only
    rw [UInt64.toNat_toUInt32, UInt64.toNat_sub_of_le _ _ hle, hpages, hoffset, pageStart]
    omega
  · rw [if_neg hin, if_neg (fun hrange => hin ((inStackRange_iff sp s).mpr hrange))]
    rfl

theorem length_stackPages (sp : UInt64) :
    (stackPages cfg k s sp).length = (calculateCopyPages sp s).toNat := by
  rw [stackPages, List.length_map, List.length_range]

/-- A page starts where the one before it ends. -/
theorem stackPages_virtAddr {i : Nat} {e : Bool × MdRegion}
    (h : (stackPages cfg k s (sp &&& ~~~(pageSize - 1)))[i]? = some e) :
    s.addr.toNat ≤ pageStart sp.toNat ∧ e.2.virtAddr.toNat = pageStart sp.toNat + 4096 * i ∧
      e.2.size = pageSize ∧ e.2.name = stackPageName cfg s.cpu i ∧
      pageStart sp.toNat + 4096 * i + 4096 ≤ s.addr.toNat + s.size.toNat := by
  have hi := (List.getElem?_eq_some_iff.mp h).1
  rw [length_stackPages, toNat_calculateCopyPages, toNat_pageStart] at hi
  split at hi
  case isFalse => exact absurd hi (Nat.not_lt_zero i)
  case isTrue hrange =>
    have haligned := s.addr_aligned
    have hsize := s.size_aligned
    have hwrap := s.noWrap
    have hsame : pageStart (pageStart sp.toNat) = pageStart sp.toNat := by
      rw [pageStart, pageStart]
      omega
    rw [hsame] at hi
    rw [stackPages, List.getElem?_map, List.getElem?_range (by
      rw [toNat_calculateCopyPages, toNat_pageStart, if_pos hrange, hsame]
      exact hi)] at h
    cases h
    refine ⟨hrange.1, ?_, rfl, rfl, by omega⟩
    show ((sp &&& ~~~(pageSize - 1)) + UInt64.ofNat i * pageSize).toNat = _
    rw [UInt64.toNat_add, UInt64.toNat_mul, toNat_pageStart, toNat_pageSize, UInt64.toNat_ofNat']
    omega

/-- **Every address from the page of the stack pointer on is in one page**, when the stack pointer is in the
stack. -/
theorem stackPages_covers (hlow : s.addr.toNat ≤ sp.toNat) {x : Nat} (hx : pageStart sp.toNat ≤ x) (hx' : x < s.addr.toNat + s.size.toNat) :
    ∃! i : Nat, ∃ e, (stackPages cfg k s (sp &&& ~~~(pageSize - 1)))[i]? = some e ∧ Covers e.2 x := by
  have haligned := s.addr_aligned
  have hsize := s.size_aligned
  have hfloor : s.addr.toNat ≤ pageStart sp.toNat ∧ pageStart sp.toNat ≤ sp.toNat := by
    rw [pageStart]
    omega
  have hstart : pageStart sp.toNat % 4096 = 0 := by
    rw [pageStart]
    omega
  have hi : (x - pageStart sp.toNat) / 4096 < (stackPages cfg k s (sp &&& ~~~(pageSize - 1))).length := by
    rw [length_stackPages, toNat_calculateCopyPages, toNat_pageStart, if_pos ⟨hfloor.1, by omega⟩]
    have hsame : pageStart (pageStart sp.toNat) = pageStart sp.toNat := by
      rw [pageStart, pageStart]
      omega
    rw [hsame]
    omega
  refine ⟨_, ⟨_, List.getElem?_eq_getElem hi, ?_⟩, ?_⟩
  · obtain ⟨-, hvirt, hpage, -, -⟩ := stackPages_virtAddr (List.getElem?_eq_getElem hi)
    rw [Covers, hvirt, hpage, toNat_pageSize]
    omega
  · rintro j ⟨e, he, hcovers⟩
    obtain ⟨-, hvirt, hpage, -, -⟩ := stackPages_virtAddr he
    rw [Covers, hvirt, hpage, toNat_pageSize] at hcovers
    omega

/-! ## The names -/

/-- What of the number of a page is left in its name. -/
theorem stackPageName_bytes (cfg : Config) (cpu i : Nat) : (stackPageName cfg cpu i).bytes =
    ((CStr.ofString "KSTACK" ++ CStr.decimal cpu ++ CStr.ofString "_").bytes).take cfg.maxNameLength ++
      (decimal i).take (cfg.maxNameLength - (7 + (decimal cpu).length)) := by
  have hlength : (CStr.ofString "KSTACK" ++ CStr.decimal cpu ++ CStr.ofString "_").bytes.length =
      7 + (decimal cpu).length := by
    simp only [CStr.append_bytes, List.length_append, CStr.decimal_bytes]
    have hfirst : (CStr.ofString "KSTACK").bytes.length = 6 := by decide
    have hlast : (CStr.ofString "_").bytes.length = 1 := by decide
    omega
  rw [stackPageName, CStr.truncate_bytes, CStr.append_bytes, CStr.decimal_bytes, List.take_append, hlength]

/-- Pages of one name. -/
theorem stackPageName_eq_iff (cfg : Config) (cpu i j : Nat) :
    stackPageName cfg cpu i = stackPageName cfg cpu j ↔
      (decimal i).take (cfg.maxNameLength - (7 + (decimal cpu).length)) =
        (decimal j).take (cfg.maxNameLength - (7 + (decimal cpu).length)) := by
  constructor
  · intro h
    have hbytes := congrArg CStr.bytes h
    rw [stackPageName_bytes, stackPageName_bytes] at hbytes
    exact List.append_cancel_left hbytes
  · intro h
    apply CStr.ext_bytes
    rw [stackPageName_bytes, stackPageName_bytes, h]

end Pages

/-! ## The dump -/

section Dump

variable {cfg : Config} {p : Platform} {k : StackKernel} {c : CurrentStack} {s : Client} {sp : UInt64}

theorem dumpStackMinidump_of_vmap (hused : c.dynStack = false ∧ c.isIdle = false ∧ k.isVmapStack = true) :
    dumpStackMinidump cfg k c sp = currentPages cfg k c sp ++ [stackTask cfg k c] := by
  rw [dumpStackMinidump, hused.1, hused.2.1, hused.2.2]
  rfl

theorem currentPages_getElem? {i : Nat} {e : Bool × MdRegion} (h : (currentPages cfg k c sp)[i]? = some e) :
    e.2.virtAddr.toNat = pageStart (c.sp sp).toNat + 4096 * i ∧ e.2.name = stackPageName cfg c.cpu i ∧
      WellFormed cfg e.2 := by
  obtain ⟨hlow, hvirt, hsize, hname, -⟩ := stackPages_virtAddr h
  have hpos := c.addr_pos
  refine ⟨hvirt, hname, ?_, ?_, ?_⟩
  · rw [hname, stackPageName]
    exact CStr.strlen_truncate_le _ _
  · intro hzero
    rw [hzero] at hvirt
    have : (0 : UInt64).toNat = 0 := rfl
    omega
  · rw [hsize]
    rfl

/-- Pages differ by their addresses. -/
theorem currentPages_nodup : ((currentPages cfg k c sp).map Prod.snd).Nodup := by
  rw [List.Nodup, List.pairwise_iff_getElem]
  intro i j hi hj hij heq
  rw [List.length_map] at hi hj
  rw [List.getElem_map, List.getElem_map] at heq
  have hfirst := (currentPages_getElem? (List.getElem?_eq_getElem hi)).1
  have hsecond := (currentPages_getElem? (List.getElem?_eq_getElem hj)).1
  rw [heq] at hfirst
  omega

/-- The task has a name of its own. -/
theorem stackTask_name_ne (cfg : Config) (k : StackKernel) (c : CurrentStack) (i : Nat) :
    stackPageName cfg c.cpu i ≠ (stackTask cfg k c).2.name := by
  intro heq
  have hlong : 1 < cfg.maxNameLength := by
    rw [Config.maxNameLength]
    split
    · decide
    · decide
  have hsecond := congrArg (fun name : CStr => name.bytes[1]?) heq
  simp only [stackPageName, stackTask, CStr.truncate_bytes, CStr.append_bytes, List.getElem?_take_of_lt hlong,
    List.append_assoc] at hsecond
  have hpage : 1 < (CStr.ofString "KSTACK").bytes.length := by decide
  have htask : 1 < (CStr.ofString "KTASK").bytes.length := by decide
  rw [List.getElem?_append_left hpage, List.getElem?_append_left htask] at hsecond
  exact absurd hsecond (by decide)

/-- **Which pages are registered**: those before the first number that has a digit too many. -/
theorem currentPages_registered_iff (h : Orderly cfg p s)
    (hused : c.dynStack = false ∧ c.isIdle = false ∧ k.isVmapStack = true)
    (hroom : (addAll cfg (dumpStackMinidump cfg k c sp) s.driver).numRegions ≤ 197)
    (hnew : ∀ e ∈ currentPages cfg k c sp, e.2.name ∉ (registered s.driver).map MdRegion.name)
    {i : Nat} (hi : i < (currentPages cfg k c sp).length) :
    (currentPages cfg k c sp)[i].2 ∈ registered (addAll cfg (dumpStackMinidump cfg k c sp) s.driver) ↔
      i < 10 ^ (cfg.maxNameLength - (7 + (decimal c.cpu).length)) := by
  have hname : ∀ j, ∀ hj : j < (currentPages cfg k c sp).length,
      (currentPages cfg k c sp)[j].2.name = stackPageName cfg c.cpu j :=
    fun j hj => (currentPages_getElem? (List.getElem?_eq_getElem hj)).2.1
  have hpage : ∀ e ∈ (currentPages cfg k c sp).map Prod.snd,
      WellFormed cfg e ∧ e.name ∉ (registered s.driver).map MdRegion.name := by
    intro e he
    obtain ⟨f, hf, rfl⟩ := List.mem_map.mp he
    obtain ⟨j, hj⟩ := List.mem_iff_getElem?.mp hf
    exact ⟨(currentPages_getElem? hj).2.2, hnew f hf⟩
  -- the task comes last, and under a name of its own
  have htask : (currentPages cfg k c sp)[i].2 ∈ registered (addAll cfg (dumpStackMinidump cfg k c sp) s.driver) ↔
      (currentPages cfg k c sp)[i].2 ∈
        ((currentPages cfg k c sp).map Prod.snd).foldl (submitTo cfg) (registered s.driver) := by
    rw [(registered_addAll h hroom).2, dumpStackMinidump_of_vmap hused, List.map_append, List.foldl_append,
      List.map_singleton, List.foldl_cons, List.foldl_nil]
    constructor
    · intro hmem
      rcases mem_submitTo hmem with hold | heq
      · exact hold
      · exact absurd ((hname i hi).symm.trans (congrArg MdRegion.name heq)) (stackTask_name_ne cfg k c i)
    · exact fun hmem => (prefix_submitTo cfg _ _).subset hmem
  have hi' : i < ((currentPages cfg k c sp).map Prod.snd).length := by
    rw [List.length_map]
    exact hi
  have hfirst := getElem_mem_foldl_submitTo (R := registered s.driver) (fun e he => (hpage e he).1)
    currentPages_nodup (fun e he hmem => (hpage e he).2 (List.mem_map_of_mem hmem)) hi'
  have hfresh := (hpage _ (List.getElem_mem hi')).2
  simp only [List.getElem_map] at hfirst hfresh
  rw [htask, hfirst, and_iff_right hfresh, ← Nat.not_le, ← take_decimal_earlier_iff]
  constructor
  · rintro hall ⟨j, hj, hsame⟩
    apply hall j hj
    rw [hname i hi, hname j (Nat.lt_trans hj hi), stackPageName_eq_iff]
    exact hsame
  · intro hnone j hj hsame
    rw [hname i hi, hname j (Nat.lt_trans hj hi), stackPageName_eq_iff] at hsame
    exact hnone ⟨j, hj, hsame⟩

/-- **What is dumped of the stack**: a page behind the first `10 ^ r` is refused, when the name of the CPU leaves
room for `r` digits. -/
theorem stackDump_covers_iff (hs : (smemClients cfg p (· = [])).Reach (RemovableCall cfg) s)
    (hused : c.dynStack = false ∧ c.isIdle = false ∧ k.isVmapStack = true)
    (hroom : (addAll cfg (dumpStackMinidump cfg k c sp) s.driver).numRegions ≤ 197)
    (hnew : ∀ e ∈ currentPages cfg k c sp, e.2.name ∉ (registered s.driver).map MdRegion.name)
    (hlow : c.addr.toNat ≤ (c.sp sp).toNat) {x : Nat} (hx : pageStart (c.sp sp).toNat ≤ x)
    (hx' : x < c.addr.toNat + c.size.toNat) :
    (∃ e ∈ currentPages cfg k c sp,
        e.2 ∈ registered (addAll cfg (dumpStackMinidump cfg k c sp) s.driver) ∧ Covers e.2 x) ↔
      (x - pageStart (c.sp sp).toNat) / 4096 < 10 ^ (cfg.maxNameLength - (7 + (decimal c.cpu).length)) := by
  have hcover : ∃! i : Nat, ∃ e, (currentPages cfg k c sp)[i]? = some e ∧ Covers e.2 x :=
    stackPages_covers hlow hx hx'
  obtain ⟨i, ⟨e, he, hcovers⟩, hunique⟩ := hcover
  obtain ⟨hi, rfl⟩ := List.getElem?_eq_some_iff.mp he
  have hregistered := currentPages_registered_iff (orderly_reach hs) hused hroom hnew hi
  have hpage : (x - pageStart (c.sp sp).toNat) / 4096 = i := by
    obtain ⟨-, hvirt, hsize, -, -⟩ := stackPages_virtAddr he
    rw [Covers, hvirt, hsize, toNat_pageSize] at hcovers
    omega
  rw [hpage, ← hregistered]
  constructor
  · rintro ⟨f, hf, hmem, hfx⟩
    obtain ⟨j, hj⟩ := List.mem_iff_getElem?.mp hf
    obtain rfl := hunique j ⟨f, hj, hfx⟩
    rw [he, Option.some.injEq] at hj
    rw [hj]
    exact hmem
  · intro hmem
    exact ⟨_, List.getElem_mem hi, hmem, hcovers⟩

end Dump

/-- A task of CPU 0 with a stack of four pages. -/
def fourPageStack : CurrentStack where
  dynStack := false
  isIdle := false
  cpu := 0
  kimageVaddr := 0xffff800008000000
  stackPointer := 0xffff80000a003f00
  addr := 0xffff80000a000000
  size := 0x4000
  alloc := fun _ => true
  allocTask := true
  addr_pos := by decide
  addr_aligned := by decide
  size_aligned := by decide
  size_lt := by decide
  noWrap := by decide

/-- The last byte of the stack, from a stack pointer in the third page. -/
theorem stackDump_covers_iff_last : ∃ e ∈ currentPages Config.plain plainStacks fourPageStack 0xffff80000a002f10,
    e.2 ∈ registered (addAll Config.plain (dumpStackMinidump Config.plain plainStacks fourPageStack
      0xffff80000a002f10) (plainClient []).driver) ∧ Covers e.2 0xffff80000a003fff := by
  have hreach : (smemClients Config.plain (Platform.plain false) (· = [])).Reach (RemovableCall Config.plain)
      (plainClient []) := .init plainClient_init
  exact (stackDump_covers_iff hreach ⟨rfl, rfl, rfl⟩ (by decide +kernel) (by decide +kernel) (by decide)
    (by decide) (by decide)).mpr (by decide)

end SafelinuxDbg.MinidumpLog
