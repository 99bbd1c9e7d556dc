import SafelinuxDbg.Lib.Lines
import SafelinuxDbg.Lib.SeqBuf

/-!
# The statistics of memory

In a panic `md_dump_meminfo` prints the counters of memory to the region `MEMINFO`, one page, and
`md_dump_slabinfo` prints a row for each cache to `SLABINFO`.

* `meminfo_read_back`: one page always holds all counters, and they can be read from it.
* `slabinfo_read_back`: the rows that are complete can be read, also when the region got full.
-/

namespace SafelinuxDbg.MinidumpMemory

open CMemory

/-! ## The counters -/

/-- What is read of `struct sysinfo`. -/
structure Sysinfo where
  totalram : UInt64
  freeram : UInt64
  bufferram : UInt64
  sharedram : UInt64
  totalhigh : UInt64
  freehigh : UInt64
  totalswap : UInt64
  freeswap : UInt64
deriving Inhabited

/-- The lists of pages, from `LRU_BASE` on. -/
inductive Lru
  | inactiveAnon | activeAnon | inactiveFile | activeFile | unevictable

/-- The counters, under the names of the kernel. -/
structure MemCounters where
  sysinfo : Sysinfo
  filePages : UInt64
  swapcachePages : UInt64
  lru : Lru → UInt64
  available : UInt64
  slabReclaimable : UInt64
  slabUnreclaimable : UInt64
  mlock : UInt64
  fileDirty : UInt64
  writeback : UInt64
  anonMapped : UInt64
  fileMapped : UInt64
  kernelMiscReclaimable : UInt64
  kernelStackKb : UInt64
  kernelScsKb : UInt64
  pagetable : UInt64
  bounce : UInt64
  writebackTemp : UInt64
  vmallocPages : UInt64
  pcpuPages : UInt64
  anonThps : UInt64
  shmemThps : UInt64
  shmemPmdmapped : UInt64
  fileThps : UInt64
  filePmdmapped : UInt64
  totalCma : UInt64
  freeCmaPages : UInt64
deriving Inhabited

/-- The configuration: `CONFIG_HIGHMEM`, `CONFIG_SHADOW_CALL_STACK`, `CONFIG_TRANSPARENT_HUGEPAGE` and
`CONFIG_CMA`, with `VMALLOC_TOTAL` and `HPAGE_PMD_NR`. -/
structure MeminfoConfig where
  highmem : Bool
  shadowCallStack : Bool
  transparentHugepage : Bool
  cma : Bool
  vmallocTotal : UInt64
  hpagePmdNr : UInt64

/-- A line: a count of pages that is shown by `show_val_kb`, or a number of kilobytes. -/
inductive MeminfoLine
  | pages (label : String) (num : UInt64)
  | kilobytes (label : String) (num : UInt64)

/-- The number that is shown. -/
def MeminfoLine.value : MeminfoLine → UInt64
  | pages _ num => num <<< 2
  | kilobytes _ num => num

/-- A line without its line feed. -/
def MeminfoLine.text (l : MeminfoLine) : List UInt8 :=
  match l with
  | pages label _ => ascii label ++ ascii " : " ++ signedDecimal l.value.toInt64.toInt ++ ascii " KB"
  | kilobytes label _ => ascii label ++ padLeft 8 (decimal l.value.toNat) ++ ascii " kB"

/-- The pages of files that are cached, as a `long`. -/
def cachedPages (k : MemCounters) : UInt64 :=
  let cached := (k.filePages - k.swapcachePages - k.sysinfo.bufferram).toInt64
  if cached < 0 then 0 else cached.toUInt64

/-- The lines of `md_dump_meminfo`. -/
def meminfoLines (c : MeminfoConfig) (k : MemCounters) : List MeminfoLine :=
  [[.pages "MemTotal:       " k.sysinfo.totalram,
      .pages "MemFree:        " k.sysinfo.freeram,
      .pages "MemAvailable:   " k.available,
      .pages "Buffers:        " k.sysinfo.bufferram,
      .pages "Cached:         " (cachedPages k),
      .pages "SwapCached:     " k.swapcachePages,
      .pages "Active:         " (k.lru .activeAnon + k.lru .activeFile),
      .pages "Inactive:       " (k.lru .inactiveAnon + k.lru .inactiveFile),
      .pages "Active(anon):   " (k.lru .activeAnon),
      .pages "Inactive(anon): " (k.lru .inactiveAnon),
      .pages "Active(file):   " (k.lru .activeFile),
      .pages "Inactive(file): " (k.lru .inactiveFile),
      .pages "Unevictable:    " (k.lru .unevictable),
      .pages "Mlocked:        " k.mlock],
    if c.highmem then
      [.pages "HighTotal:      " k.sysinfo.totalhigh,
        .pages "HighFree:       " k.sysinfo.freehigh,
        .pages "LowTotal:       " (k.sysinfo.totalram - k.sysinfo.totalhigh),
        .pages "LowFree:        " (k.sysinfo.freeram - k.sysinfo.freehigh)]
    else [],
    [.pages "SwapTotal:      " k.sysinfo.totalswap,
      .pages "SwapFree:       " k.sysinfo.freeswap,
      .pages "Dirty:          " k.fileDirty,
      .pages "Writeback:      " k.writeback,
      .pages "AnonPages:      " k.anonMapped,
      .pages "Mapped:         " k.fileMapped,
      .pages "Shmem:          " k.sysinfo.sharedram,
      .pages "KReclaimable:   " (k.slabReclaimable + k.kernelMiscReclaimable),
      .pages "Slab:           " (k.slabReclaimable + k.slabUnreclaimable),
      .pages "SReclaimable:   " k.slabReclaimable,
      .pages "SUnreclaim:     " k.slabUnreclaimable,
      .kilobytes "KernelStack:    " k.kernelStackKb],
    if c.shadowCallStack then [.kilobytes "ShadowCallStack:" k.kernelScsKb] else [],
    [.pages "PageTables:     " k.pagetable,
      .pages "Bounce:         " k.bounce,
      .pages "WritebackTmp:   " k.writebackTemp,
      .kilobytes "VmallocTotal:   " (c.vmallocTotal >>> 10),
      .pages "VmallocUsed: " k.vmallocPages,
      .pages "Percpu:         " k.pcpuPages],
    if c.transparentHugepage then
      [.pages "AnonHugePages:  " (k.anonThps * c.hpagePmdNr),
        .pages "ShmemHugePages: " (k.shmemThps * c.hpagePmdNr),
        .pages "ShmemPmdMapped: " (k.shmemPmdmapped * c.hpagePmdNr),
        .pages "FileHugePages:  " (k.fileThps * c.hpagePmdNr),
        .pages "FilePmdMapped:  " (k.filePmdmapped * c.hpagePmdNr)]
    else [],
    if c.cma then
      [.pages "CmaTotal:       " k.totalCma, .pages "CmaFree:        " k.freeCmaPages]
    else []].flatten

/-- `md_dump_meminfo`. -/
def mdDumpMeminfo (c : MeminfoConfig) (k : MemCounters) (m : SeqBuf) : SeqBuf :=
  (meminfoLines c k).foldl (fun m l => m.print (l.text ++ ascii "\n")) m

section Meminfo

variable {c : MeminfoConfig} {k k' : MemCounters}

/-- The text of all counters. -/
def meminfoText (c : MeminfoConfig) (k : MemCounters) : List UInt8 :=
  joinLines ((meminfoLines c k).map MeminfoLine.text)

theorem mdDumpMeminfo_eq (c : MeminfoConfig) (k : MemCounters) (m : SeqBuf) :
    mdDumpMeminfo c k m = m.print (meminfoText c k) := by
  rw [mdDumpMeminfo, SeqBuf.print_foldl, meminfoText, joinLines, List.flatMap_map]
  rfl

/-- What of a line does not depend on the counters. -/
def MeminfoLine.shape : MeminfoLine → Bool × String
  | pages label _ => (true, label)
  | kilobytes label _ => (false, label)

/-- The shapes for a configuration. -/
def meminfoShapes (highmem shadowCallStack transparentHugepage cma : Bool) : List (Bool × String) :=
  (meminfoLines ⟨highmem, shadowCallStack, transparentHugepage, cma, 0, 0⟩ default).map MeminfoLine.shape

theorem meminfoLines_shape (c : MeminfoConfig) (k : MemCounters) : (meminfoLines c k).map MeminfoLine.shape =
    meminfoShapes c.highmem c.shadowCallStack c.transparentHugepage c.cma := by
  simp only [meminfoShapes, meminfoLines, List.map_flatten, List.map_cons, List.map_nil, MeminfoLine.shape,
    apply_ite (List.map MeminfoLine.shape)]

/-- There are not many lines, and the labels are short. -/
theorem meminfoShapes_short : ∀ highmem shadowCallStack transparentHugepage cma,
    (meminfoShapes highmem shadowCallStack transparentHugepage cma).length ≤ 44 ∧
      ∀ shape ∈ meminfoShapes highmem shadowCallStack transparentHugepage cma,
        (ascii shape.2).length ≤ 16 ∧ Printable (ascii shape.2) := by
  decide +kernel

/-- A line is short, and has no line feed. -/
theorem MeminfoLine.text_short {l : MeminfoLine} (hlength : (ascii l.shape.2).length ≤ 16)
    (hprint : Printable (ascii l.shape.2)) : l.text.length ≤ 42 ∧ Printable l.text := by
  cases l with
  | pages label num =>
    have hnumber : (signedDecimal (num <<< 2).toInt64.toInt).length ≤ 20 := by
      refine length_signedDecimal_le (k := 19) (by decide) ?_
      have hlt := Int64.toInt_lt (num <<< 2).toInt64
      have hge := Int64.le_toInt (num <<< 2).toInt64
      omega
    simp only [text, value, shape, List.length_append, printable_append, printable_signedDecimal] at hlength hprint ⊢
    refine ⟨?_, ⟨⟨hprint, by decide⟩, trivial⟩, by decide⟩
    have hcolon : (ascii " : ").length = 3 := by decide
    have hunit : (ascii " KB").length = 3 := by decide
    omega
  | kilobytes label num =>
    have hnumber : (decimal num.toNat).length ≤ 20 := by
      rw [length_decimal_le_iff (by decide)]
      exact Nat.lt_of_lt_of_le num.toNat_lt (by decide)
    simp only [text, value, shape, List.length_append, printable_append] at hlength hprint ⊢
    refine ⟨?_, ⟨hprint, printable_padLeft 8 (printable_decimal _)⟩, by decide⟩
    have hunit : (ascii " kB").length = 3 := by decide
    rw [padLeft, List.length_append, List.length_replicate]
    omega

/-- The number of a line. -/
theorem MeminfoLine.value_of_text {l l' : MeminfoLine} (hshape : l.shape = l'.shape) (h : l.text = l'.text) :
    l.value = l'.value := by
  cases l with
  | pages label num =>
    cases l' with
    | pages label' num' =>
      obtain rfl : label = label' := (Prod.mk.inj hshape).2
      have hnumber := signedDecimal_injective (List.append_cancel_left (List.append_cancel_right h))
      have hint := Int64.toInt_inj.mp hnumber
      simpa using congrArg Int64.toUInt64 hint
    | kilobytes label' num' => cases hshape
  | kilobytes label num =>
    cases l' with
    | pages label' num' => cases hshape
    | kilobytes label' num' =>
      obtain rfl : label = label' := (Prod.mk.inj hshape).2
      have hpadded := List.append_cancel_left (List.append_cancel_right h)
      have hnumber := (column_inj (r := []) (q := []) (i := num.toNat) (j := num'.toNat)
        (congrArg (32 :: ·) hpadded)).2
      exact UInt64.toNat_inj.mp (Int.ofNat.inj hnumber)

theorem meminfoLines_text : ∀ l ∈ meminfoLines c k, l.text.length ≤ 42 ∧ Printable l.text := by
  intro l hl
  have hshape : l.shape ∈ (meminfoLines c k).map MeminfoLine.shape := List.mem_map_of_mem hl
  rw [meminfoLines_shape] at hshape
  obtain ⟨hlength, hprint⟩ := (meminfoShapes_short _ _ _ _).2 _ hshape
  exact l.text_short hlength hprint

theorem length_meminfoText (c : MeminfoConfig) (k : MemCounters) : (meminfoText c k).length < 4096 := by
  have hlines : (meminfoLines c k).length ≤ 44 := by
    rw [← List.length_map MeminfoLine.shape, meminfoLines_shape]
    exact (meminfoShapes_short _ _ _ _).1
  have hle : (meminfoText c k).length ≤ ((meminfoLines c k).map MeminfoLine.text).length * 43 := by
    refine length_joinLines_le ?_
    intro line hline
    obtain ⟨l, hl, rfl⟩ := List.mem_map.mp hline
    exact Nat.succ_le_succ (meminfoLines_text l hl).1
  rw [List.length_map] at hle
  omega

theorem meminfoText_printable : ∀ line ∈ (meminfoLines c k).map MeminfoLine.text, Printable line := by
  intro line hline
  obtain ⟨l, hl, rfl⟩ := List.mem_map.mp hline
  exact (meminfoLines_text l hl).2

/-- **The text tells all numbers.** -/
theorem meminfoText_values (h : meminfoText c k = meminfoText c k') :
    (meminfoLines c k).map MeminfoLine.value = (meminfoLines c k').map MeminfoLine.value := by
  have htexts := joinLines_injective (fun l hl => (meminfoText_printable l hl).noLineFeed)
    (fun l hl => (meminfoText_printable l hl).noLineFeed) h
  have hboth : (meminfoLines c k).map (fun l => (l.shape, l.text)) =
      (meminfoLines c k').map fun l => (l.shape, l.text) := by
    have hzip : ∀ ls : List MeminfoLine,
        ls.map (fun l => (l.shape, l.text)) = (ls.map MeminfoLine.shape).zip (ls.map MeminfoLine.text) :=
      fun _ => List.zip_map'.symm
    rw [hzip, hzip, htexts, meminfoLines_shape, meminfoLines_shape]
  exact map_of_map (fun x y hxy => MeminfoLine.value_of_text (Prod.mk.inj hxy).1 (Prod.mk.inj hxy).2) hboth

variable {m : Nat → UInt8} {a : Nat}

theorem page_pos : 0 < 4096 := by decide

theorem page_small : 4096 < 2 ^ 31 := by decide

/-- `md_dump_meminfo` to a page that was cleared. -/
def meminfoDump (c : MeminfoConfig) (k : MemCounters) (m : Nat → UInt8) (a : Nat) (hzero : m a = 0) : SeqBuf :=
  mdDumpMeminfo c k (SeqBuf.init m a 4096 page_pos page_small hzero)

/-- **One page always holds all counters.** -/
theorem meminfoDump_contents (c : MeminfoConfig) (k : MemCounters) (hzero : m a = 0) :
    (meminfoDump c k m a hzero).contents = meminfoText c k := by
  have hlength := length_meminfoText c k
  have hnul : NoNul (meminfoText c k) := noNul_joinLines fun l hl => (meminfoText_printable l hl).noNul
  rw [meminfoDump, mdDumpMeminfo_eq, SeqBuf.contents_print hzero _ _ hnul]
  exact List.take_of_length_le (Nat.le_of_lt_succ hlength)

/-- **The counters are read back**: two dumps with the same text show the same numbers, and each dump is
complete. -/
theorem meminfo_read_back (c : MeminfoConfig) (k k' : MemCounters) (m m' : Nat → UInt8) (a a' : Nat)
    (hzero : m a = 0) (hzero' : m' a' = 0) :
    (meminfoDump c k m a hzero).contents = meminfoText c k ∧
      ((meminfoDump c k m a hzero).contents = (meminfoDump c k' m' a' hzero').contents →
        (meminfoLines c k).map MeminfoLine.value = (meminfoLines c k').map MeminfoLine.value) := by
  refine ⟨meminfoDump_contents c k hzero, fun hsame => meminfoText_values ?_⟩
  rw [meminfoDump_contents, meminfoDump_contents] at hsame
  exact hsame

/-- The two upper bits of a count of pages are not shown. -/
theorem meminfo_read_back_shifted :
    (meminfoLines ⟨false, true, true, true, 0, 512⟩ { (default : MemCounters) with pagetable := 0x4000000000000000 }).map
        MeminfoLine.value =
      (meminfoLines ⟨false, true, true, true, 0, 512⟩ default).map MeminfoLine.value := by
  have hzero : (fun _ => 0 : Nat → UInt8) 8192 = 0 := rfl
  refine (meminfo_read_back _ _ _ (fun _ => 0) (fun _ => 0) 8192 8192 hzero hzero).2 ?_
  rw [meminfoDump_contents, meminfoDump_contents]
  decide +kernel

end Meminfo

/-! ## The caches -/

/-- `struct slabinfo`. -/
structure Slabinfo where
  activeObjs : UInt64
  numObjs : UInt64
  activeSlabs : UInt64
  numSlabs : UInt64
  sharedAvail : UInt64
  limit : UInt32
  batchcount : UInt32
  shared : UInt32
  objectsPerSlab : UInt32
  cacheOrder : UInt32

/-- What `slabinfo_stats` reads under `CONFIG_DEBUG_SLAB`. -/
structure CacheStats where
  numAllocations : UInt64
  highMark : UInt64
  grown : UInt64
  reaped : UInt64
  errors : UInt64
  maxFreeable : UInt64
  nodeAllocs : UInt64
  nodeFrees : UInt64
  nodeOverflow : UInt64
  allochit : UInt64
  allocmiss : UInt64
  freehit : UInt64
  freemiss : UInt64

/-- A cache, with what `get_slabinfo` returns. -/
structure SlabinfoCache where
  name : CStr
  size : UInt32
  sinfo : Slabinfo
  stats : CacheStats

/-- What `md_dump_slabinfo` meets: whether the mutex is taken, and the caches. -/
structure SlabCaches where
  locked : Bool
  slabCaches : List SlabinfoCache

/-- `%*lu`, behind a blank. -/
def column (before : String) (width : Nat) (value : Int) : Column := ⟨ascii before, width, value⟩

def columnTexts (cs : List Column) : List UInt8 := cs.flatMap Column.text

def objectColumns (s : SlabinfoCache) : List Column :=
  [column "" 6 s.sinfo.activeObjs.toNat, column "" 6 s.sinfo.numObjs.toNat, column "" 6 s.size.toNat,
    column "" 4 s.sinfo.objectsPerSlab.toNat, column "" 4 ((1 : UInt32) <<< s.sinfo.cacheOrder).toInt32.toInt]

def tunableColumns (s : SlabinfoCache) : List Column :=
  [column " : tunables" 4 s.sinfo.limit.toNat, column "" 4 s.sinfo.batchcount.toNat,
    column "" 4 s.sinfo.shared.toNat]

def slabColumns (s : SlabinfoCache) : List Column :=
  [column " : slabdata" 6 s.sinfo.activeSlabs.toNat, column "" 6 s.sinfo.numSlabs.toNat,
    column "" 6 s.sinfo.sharedAvail.toNat]

def nodeColumns (s : CacheStats) : List Column :=
  [column " : globalstat" 7 s.numAllocations.toNat, column "" 6 s.highMark.toNat, column "" 5 s.grown.toNat,
    column "" 4 s.reaped.toNat, column "" 4 s.errors.toNat, column "" 4 s.maxFreeable.toNat,
    column "" 4 s.nodeAllocs.toNat, column "" 4 s.nodeFrees.toNat, column "" 4 s.nodeOverflow.toNat]

def cpuColumns (s : CacheStats) : List Column :=
  [column " : cpustat" 6 s.allochit.toNat, column "" 6 s.allocmiss.toNat, column "" 6 s.freehit.toNat,
    column "" 6 s.freemiss.toNat]

/-- `slabinfo_stats`; `debugSlab` is `CONFIG_DEBUG_SLAB`. -/
def slabinfoStats (debugSlab : Bool) (s : SlabinfoCache) (m : SeqBuf) : SeqBuf :=
  if debugSlab then (m.print (columnTexts (nodeColumns s.stats))).print (columnTexts (cpuColumns s.stats)) else m

/-- The header of `md_dump_slabinfo`. -/
def printHeader (debugSlab : Bool) (m : SeqBuf) : SeqBuf :=
  let m := m.print (ascii
    "# name            <active_objs> <num_objs> <objsize> <objperslab> <pagesperslab>")
  let m := m.print (ascii " : tunables <limit> <batchcount> <sharedfactor>")
  let m := m.print (ascii " : slabdata <active_slabs> <num_slabs> <sharedavail>")
  let m :=
    if debugSlab then
      (m.print (ascii (" : globalstat <listallocs> <maxobjs> <grown> <reaped> <error> <maxfreeable> " ++
        "<nodeallocs> <remotefrees> <alienoverflow>"))).print
          (ascii " : cpustat <allochit> <allocmiss> <freehit> <freemiss>")
    else m
  m.print (ascii "\n")

/-- The row of a cache. -/
def printCache (debugSlab : Bool) (s : SlabinfoCache) (m : SeqBuf) : SeqBuf :=
  let m := m.print (padRight 17 s.name.bytes ++ columnTexts (objectColumns s))
  let m := m.print (columnTexts (tunableColumns s))
  let m := m.print (columnTexts (slabColumns s))
  let m := slabinfoStats debugSlab s m
  m.print (ascii "\n")

/-- `md_dump_slabinfo`. -/
def mdDumpSlabinfo (debugSlab : Bool) (k : SlabCaches) (m : SeqBuf) : SeqBuf :=
  if k.locked then m
  else k.slabCaches.foldl (fun m s => printCache debugSlab s m) (printHeader debugSlab m)

section Slabinfo

variable {debugSlab : Bool} {k k' : SlabCaches} {s s' : SlabinfoCache}

/-- All columns of a row. -/
def rowColumns (debugSlab : Bool) (s : SlabinfoCache) : List Column :=
  objectColumns s ++ tunableColumns s ++ slabColumns s ++
    if debugSlab then nodeColumns s.stats ++ cpuColumns s.stats else []

def rowText (debugSlab : Bool) (s : SlabinfoCache) : List UInt8 :=
  padRight 17 s.name.bytes ++ columnTexts (rowColumns debugSlab s)

def headerText (debugSlab : Bool) : List UInt8 :=
  ascii "# name            <active_objs> <num_objs> <objsize> <objperslab> <pagesperslab>" ++
    ascii " : tunables <limit> <batchcount> <sharedfactor>" ++
    ascii " : slabdata <active_slabs> <num_slabs> <sharedavail>" ++
    if debugSlab then
      ascii (" : globalstat <listallocs> <maxobjs> <grown> <reaped> <error> <maxfreeable> " ++
        "<nodeallocs> <remotefrees> <alienoverflow>") ++
          ascii " : cpustat <allochit> <allocmiss> <freehit> <freemiss>"
    else []

/-- The header and the rows. -/
def slabinfoLines (debugSlab : Bool) (k : SlabCaches) : List (List UInt8) :=
  if k.locked then [] else headerText debugSlab :: k.slabCaches.map (rowText debugSlab)

/-- What can be seen of a cache: the blanks at the end of its name are lost. -/
def shownCache (debugSlab : Bool) (s : SlabinfoCache) : List UInt8 × List Int :=
  (trimRight s.name.bytes, (rowColumns debugSlab s).map Column.value)

def shownCaches (debugSlab : Bool) (k : SlabCaches) : List (List UInt8 × List Int) :=
  if k.locked then [] else k.slabCaches.map (shownCache debugSlab)

theorem columnTexts_append (cs ds : List Column) : columnTexts (cs ++ ds) = columnTexts cs ++ columnTexts ds :=
  List.flatMap_append

theorem printCache_eq (debugSlab : Bool) (s : SlabinfoCache) (m : SeqBuf) :
    printCache debugSlab s m = m.print (rowText debugSlab s ++ [10]) := by
  cases debugSlab
  · simp only [printCache, slabinfoStats, rowText, rowColumns, columnTexts_append, SeqBuf.print_append,
      Bool.false_eq_true, if_false, List.append_nil, List.append_assoc]
    rfl
  · simp only [printCache, slabinfoStats, rowText, rowColumns, columnTexts_append, SeqBuf.print_append,
      if_true, List.append_assoc]
    rfl

theorem printHeader_eq (debugSlab : Bool) (m : SeqBuf) :
    printHeader debugSlab m = m.print (headerText debugSlab ++ [10]) := by
  cases debugSlab
  · simp only [printHeader, headerText, SeqBuf.print_append, Bool.false_eq_true, if_false, List.append_nil,
      List.append_assoc]
    rfl
  · simp only [printHeader, headerText, SeqBuf.print_append, if_true, List.append_assoc]
    rfl

theorem mdDumpSlabinfo_eq (debugSlab : Bool) (k : SlabCaches) (m : SeqBuf) :
    mdDumpSlabinfo debugSlab k m = m.print (joinLines (slabinfoLines debugSlab k)) := by
  rw [mdDumpSlabinfo, slabinfoLines]
  split
  · exact (SeqBuf.print_nil m).symm
  · have hrows : (fun (m : SeqBuf) s => printCache debugSlab s m) =
        fun m s => m.print (rowText debugSlab s ++ [10]) := by
      funext m s
      exact printCache_eq debugSlab s m
    rw [hrows, SeqBuf.print_foldl, printHeader_eq, SeqBuf.print_append, joinLines, List.flatMap_cons,
      List.flatMap_map]

/-- **A row tells its cache.** -/
theorem shown_of_rowText (h : rowText debugSlab s = rowText debugSlab s') :
    shownCache debugSlab s = shownCache debugSlab s' := by
  have hshape : (rowColumns debugSlab s).map (fun c => (c.before, c.width)) =
      (rowColumns debugSlab s').map fun c => (c.before, c.width) := by
    simp only [rowColumns, objectColumns, tunableColumns, slabColumns, nodeColumns, cpuColumns, column,
      List.map_append, List.map_cons, List.map_nil, apply_ite (List.map fun c : Column => (c.before, c.width))]
  obtain ⟨hname, hcolumns⟩ := columns_inj hshape h
  have htrim := congrArg trimRight hname
  rw [trimRight_padRight, trimRight_padRight] at htrim
  rw [shownCache, shownCache, htrim, hcolumns]

/-- The names have no line feed. -/
def SlabCaches.Clean (k : SlabCaches) : Prop := ∀ s ∈ k.slabCaches, (10 : UInt8) ∉ s.name.bytes

theorem printable_columns (cs : List Column) (h : ∀ c ∈ cs, Printable c.before) : Printable (columnTexts cs) := by
  intro b hb
  obtain ⟨c, hc, hmem⟩ := List.mem_flatMap.mp hb
  rcases List.mem_append.mp hmem with hbefore | hrest
  · exact h c hc b hbefore
  · rcases List.mem_cons.mp hrest with rfl | hnumber
    · decide
    · exact printable_padLeft c.width (printable_signedDecimal c.value) b hnumber

theorem rowColumns_before (debugSlab : Bool) (s : SlabinfoCache) : ∀ c ∈ rowColumns debugSlab s, Printable c.before := by
  have hlabels : Printable (ascii "") ∧ Printable (ascii " : tunables") ∧ Printable (ascii " : slabdata") ∧
      Printable (ascii " : globalstat") ∧ Printable (ascii " : cpustat") := by decide
  cases debugSlab
  all_goals simp [rowColumns, objectColumns, tunableColumns, slabColumns, nodeColumns, cpuColumns, column, hlabels]

/-- The lines are whole, and hold no NUL. -/
theorem slabinfoLines_clean (h : k.Clean) : ∀ l ∈ slabinfoLines debugSlab k, (10 : UInt8) ∉ l ∧ NoNul l := by
  have hheader : ∀ debugSlab, (10 : UInt8) ∉ headerText debugSlab ∧ NoNul (headerText debugSlab) := by
    decide +kernel
  intro l hl
  rw [slabinfoLines] at hl
  split at hl
  · cases hl
  · rcases List.mem_cons.mp hl with rfl | hrow
    · exact hheader debugSlab
    · obtain ⟨s, hs, rfl⟩ := List.mem_map.mp hrow
      have hcolumns := printable_columns _ (rowColumns_before debugSlab s)
      refine ⟨fun hmem => ?_, noNul_append.mpr ⟨noNul_padRight 17 s.name.noNul, hcolumns.noNul⟩⟩
      rcases List.mem_append.mp hmem with hname | hcolumn
      · rcases List.mem_append.mp hname with hname | hblank
        · exact h s hs hname
        · exact absurd (List.eq_of_mem_replicate hblank) (by decide)
      · exact hcolumns.noLineFeed hcolumn

variable {m : Nat → UInt8} {a n : Nat}

/-- `md_dump_slabinfo` to a buffer that was cleared. -/
def slabinfoDump (debugSlab : Bool) (k : SlabCaches) (m : Nat → UInt8) (a n : Nat) (pos : 0 < n) (small : n < 2 ^ 31)
    (hzero : m a = 0) : SeqBuf :=
  mdDumpSlabinfo debugSlab k (SeqBuf.init m a n pos small hzero)

theorem slabinfoDump_contents (debugSlab : Bool) (h : k.Clean) (pos : 0 < n) (small : n < 2 ^ 31) (hzero : m a = 0) :
    (slabinfoDump debugSlab k m a n pos small hzero).contents =
      (joinLines (slabinfoLines debugSlab k)).take (n - 1) := by
  rw [slabinfoDump, mdDumpSlabinfo_eq]
  exact SeqBuf.contents_print hzero pos small (noNul_joinLines fun l hl => (slabinfoLines_clean h l hl).2)

/-- Lines that agree show the same caches. -/
theorem shown_of_lines {j : Nat} (h : (slabinfoLines debugSlab k).take j = (slabinfoLines debugSlab k').take j) :
    (shownCaches debugSlab k).take (j - 1) = (shownCaches debugSlab k').take (j - 1) := by
  cases j with
  | zero => rfl
  | succ j =>
    rw [slabinfoLines, slabinfoLines] at h
    rw [shownCaches, shownCaches, Nat.add_sub_cancel]
    split at h
    case isTrue hlocked =>
      split at h
      case isTrue hlocked' => rw [if_pos hlocked, if_pos hlocked']
      case isFalse hlocked' => cases h
    case isFalse hfree =>
      split at h
      case isTrue hlocked' => cases h
      case isFalse hfree' =>
        rw [List.take_succ_cons, List.take_succ_cons] at h
        have hrows := (List.cons.inj h).2
        rw [if_neg hfree, if_neg hfree']
        rw [← List.map_take, ← List.map_take] at hrows ⊢
        exact map_of_map (fun _ _ => shown_of_rowText) hrows

theorem length_shownCaches (debugSlab : Bool) (k : SlabCaches) :
    (shownCaches debugSlab k).length = (slabinfoLines debugSlab k).length - 1 := by
  rw [shownCaches, slabinfoLines]
  split
  · rfl
  · rw [List.length_map, List.length_cons, List.length_map, Nat.add_sub_cancel]

/-- **The caches are read back**: two dumps with the same text show the same caches in the rows that are complete,
and if neither buffer is full, all of their caches are the same. -/
theorem slabinfo_read_back (debugSlab : Bool) (k k' : SlabCaches) (m m' : Nat → UInt8) (a a' : Nat) {n n' : Nat}
    (hk : k.Clean) (hk' : k'.Clean) (pos : 0 < n) (small : n < 2 ^ 31) (hzero : m a = 0)
    (pos' : 0 < n') (small' : n' < 2 ^ 31) (hzero' : m' a' = 0)
    (hsame : (slabinfoDump debugSlab k m a n pos small hzero).contents =
      (slabinfoDump debugSlab k' m' a' n' pos' small' hzero').contents) :
    let complete := (slabinfoDump debugSlab k m a n pos small hzero).contents.count 10 - 1
    (shownCaches debugSlab k).take complete = (shownCaches debugSlab k').take complete ∧
      ((slabinfoDump debugSlab k m a n pos small hzero).contents.length + 1 < n →
        (slabinfoDump debugSlab k' m' a' n' pos' small' hzero').contents.length + 1 < n' →
          shownCaches debugSlab k = shownCaches debugSlab k') := by
  have hclean : ∀ l ∈ slabinfoLines debugSlab k, (10 : UInt8) ∉ l := fun l hl => (slabinfoLines_clean hk l hl).1
  have hclean' : ∀ l ∈ slabinfoLines debugSlab k', (10 : UInt8) ∉ l := fun l hl => (slabinfoLines_clean hk' l hl).1
  have hcontents := slabinfoDump_contents debugSlab hk pos small hzero
  have hcontents' := slabinfoDump_contents debugSlab hk' pos' small' hzero'
  refine ⟨shown_of_lines (complete_lines_eq hclean hclean' ?_ ?_), fun hroom hroom' => ?_⟩
  · rw [hcontents]
    exact List.take_prefix _ _
  · rw [hsame, hcontents']
    exact List.take_prefix _ _
  · -- nothing was cut off
    rw [hcontents, List.length_take] at hroom
    rw [hcontents', List.length_take] at hroom'
    rw [hcontents, hcontents', List.take_of_length_le (by omega), List.take_of_length_le (by omega)] at hsame
    have hlines := joinLines_injective hclean hclean' hsame
    have hshown := shown_of_lines (j := (slabinfoLines debugSlab k).length) (congrArg (List.take _) hlines)
    rw [List.take_of_length_le (Nat.le_of_eq (length_shownCaches debugSlab k)),
      List.take_of_length_le (by rw [length_shownCaches, hlines])] at hshown
    exact hshown

/-- One cache. -/
def dentryCache (name : String) : SlabCaches :=
  ⟨false, [⟨CStr.ofString name, 192, ⟨40, 42, 2, 2, 0, 0, 0, 0, 21, 0⟩, ⟨0, 0, 0, 0, 0, 0, 0, 0, 0, 0, 0, 0, 0⟩⟩]⟩

/-- A blank at the end of a name. -/
theorem slabinfo_read_back_blank :
    (slabinfoDump false (dentryCache "dentry") (fun _ => 0) 8192 4096 page_pos page_small rfl).contents.count 10 = 2 ∧
      shownCaches false (dentryCache "dentry") = shownCaches false (dentryCache "dentry ") := by
  have hzero : (fun _ => 0 : Nat → UInt8) 8192 = 0 := rfl
  have hclean : (dentryCache "dentry").Clean := fun s hs => by
    rw [List.mem_singleton.mp hs]
    decide
  have hclean' : (dentryCache "dentry ").Clean := fun s hs => by
    rw [List.mem_singleton.mp hs]
    decide
  have hlines : (joinLines (slabinfoLines false (dentryCache "dentry"))).take 4095 =
      (joinLines (slabinfoLines false (dentryCache "dentry "))).take 4095 := by decide +kernel
  have hlength : ((joinLines (slabinfoLines false (dentryCache "dentry"))).take 4095).length + 1 < 4096 := by
    decide +kernel
  have hcontents := slabinfoDump_contents (m := fun _ => 0) (a := 8192) false hclean page_pos page_small hzero
  have hcontents' := slabinfoDump_contents (m := fun _ => 0) (a := 8192) false hclean' page_pos page_small hzero
  refine ⟨?_, (slabinfo_read_back false _ _ (fun _ => 0) (fun _ => 0) 8192 8192 hclean hclean' page_pos page_small
    hzero page_pos page_small hzero ?_).2 ?_ ?_⟩
  · rw [hcontents]
    decide +kernel
  · rw [hcontents, hcontents']
    exact hlines
  · rw [hcontents]
    exact hlength
  · rw [hcontents', ← hlines]
    exact hlength

end Slabinfo

end SafelinuxDbg.MinidumpMemory
