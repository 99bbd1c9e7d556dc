import SafelinuxDbg.MinidumpMemory.PageOwner

/-!
# The slab owner dump

`md_dump_slabowner` goes through the `kmalloc` caches that the filter selects.  For each of them it
prints a line with the name, `dump_tracking` prints a record for every object that is tracked, and
an empty line ends the cache.  Both functions print through a `priv_buf`: `md_dump_slabowner` moves
`buf` on behind its own lines, `dump_tracking` moves `offset` on behind its records, and `size` stays
what it was.

* `dumpCache_eq_foldl`: the loops over the slabs of a cache as one sequence of operations.
* `Layout`: where the operations print, when nothing is cut off.
* `Corr.step`: as long as nothing is cut off the code prints there.
-/

namespace SafelinuxDbg.MinidumpMemory

open CMemory

/-! ## The code -/

/-- What the code uses of the kernel: the text of `%p`, and `hash_stack`, which is `jhash2`. -/
structure SlabKernel where
  pointerText : UInt64 → List UInt8
  hashStack : List UInt64 → UInt32

/-- An object with its `struct track`. -/
structure SlabObject where
  object : UInt64
  addr : UInt64
  addrs : List UInt64

/-- `struct kmem_cache_node`.  A slab is the list of its objects. -/
structure KmemCacheNode where
  nrSlabs : Nat
  partialSlabs : List (List SlabObject)
  fullSlabs : List (List SlabObject)

structure KmemCache where
  name : List UInt8
  nodes : List KmemCacheNode

/-- The region and what is to be dumped.  The table of handles is at the end of the region, or starts
before it when `slab_owner_handles_size` is larger than the region. -/
structure SlabInput where
  /-- `md_slabowner_dump_addr` -/
  m : Nat
  dumpSize : Nat
  slabOwnerHandlesSize : Nat
  slabOwnerFilter : UInt64
  /-- `kmalloc_caches[KMALLOC_NORMAL]` -/
  kmallocCaches : Nat → Option KmemCache
  size_pos : 0 < dumpSize
  handles_dvd : 4 ∣ slabOwnerHandlesSize
  handles_le : slabOwnerHandlesSize ≤ m + dumpSize

/-- `KMALLOC_SHIFT_HIGH`, `PAGE_SHIFT + 1`. -/
def kmallocShiftHigh : Nat := 13

/-- The start of the table of handles. -/
def SlabInput.handles (s : SlabInput) : Nat := s.m + s.dumpSize - s.slabOwnerHandlesSize

/-- `find_stack`. -/
def findStack (s : SlabInput) (r : Region) (handle : UInt32) : Region × Bool :=
  if (List.range r.nrHandles).any (fun i => handle == read32 r.mem (s.handles + 4 * i)) then
    (r, true)
  else if s.handles + 4 * r.nrHandles < s.m + s.dumpSize then
    (⟨write32 r.mem (s.handles + 4 * r.nrHandles) handle, r.nrHandles + 1⟩, false)
  else (r, false)

/-- The variables of the dump: the memory with `num_handles`, and `buf` and `offset` of the
`priv_buf`.  `texts` records everything that was printed, and `returned` says that
`md_dump_slabowner` has returned early. -/
structure SlabDump where
  region : Region
  buf : Nat
  offset : Nat
  texts : List (Nat × List UInt8)
  returned : Bool

/-- The addresses that are counted in `nr_entries`. -/
def SlabObject.entries (o : SlabObject) : List UInt64 := o.addrs.takeWhile (· ≠ 0)

/-- `"%p %u %u\n"`. -/
def objectLine (k : SlabKernel) (o : SlabObject) (nrEntries : Nat) : List UInt8 :=
  k.pointerText o.object ++ asciiBytes [' '] ++ decimal (k.hashStack o.entries).toNat ++
    asciiBytes [' '] ++ decimal nrEntries ++ asciiBytes ['\n']

/-- The lines of a record. -/
def objectLines (k : SlabKernel) (o : SlabObject) : RecordKind → List (List UInt8)
  | .stack => objectLine k o o.entries.length ::
      o.entries.map (fun entry => k.pointerText entry ++ asciiBytes ['\n'])
  | .backReference => [objectLine k o 0]

/-- The branch that `dump_tracking` takes. -/
def slabKind (s : SlabInput) (r : Region) (buf : Nat) (handle : UInt32) : Region × RecordKind :=
  if s.handles < buf then (r, .stack)
  else
    let f := findStack s r handle
    (f.1, if f.2 then .backReference else .stack)

/-- `dump_tracking`. -/
def dumpTracking (k : SlabKernel) (s : SlabInput) (d : SlabDump) (o : SlabObject) : SlabDump :=
  if o.addr = 0 then d
  else
    let buf := d.buf + d.offset
    let size := s.dumpSize - d.offset
    let c := slabKind s d.region buf (k.hashStack o.entries)
    let p := printLines c.1.mem buf size 0 (objectLines k o c.2)
    { d with
      region := ⟨p.1, c.1.nrHandles⟩
      offset := d.offset + p.2
      texts := d.texts ++ printLinesStores buf size 0 (objectLines k o c.2) }

/-- `get_each_object_track` for a slab, and the check behind it. -/
def dumpSlab (k : SlabKernel) (s : SlabInput) (d : SlabDump) (slab : List SlabObject) : SlabDump :=
  if d.returned then d
  else
    let d := slab.foldl (dumpTracking k s) d
    if d.offset + 1 = s.dumpSize then { d with returned := true } else d

/-- `md_dump_slabowner` at a node. -/
def dumpNode (k : SlabKernel) (s : SlabInput) (d : SlabDump) (n : KmemCacheNode) : SlabDump :=
  if n.nrSlabs = 0 then d
  else n.fullSlabs.foldl (dumpSlab k s) (n.partialSlabs.foldl (dumpSlab k s) d)

/-- A line that `md_dump_slabowner` prints itself, and the check behind it. -/
def dumpLine (s : SlabInput) (d : SlabDump) (line : List UInt8) : SlabDump :=
  if d.returned then d
  else
    let r := scnprintf d.region.mem d.buf s.dumpSize line
    let d := { d with
      region := ⟨r.1, d.region.nrHandles⟩
      texts := d.texts ++ scnprintfStores d.buf s.dumpSize line }
    if r.2 + 1 = s.dumpSize then { d with returned := true } else { d with buf := d.buf + r.2 }

/-- The line with the name of a cache. -/
def KmemCache.heading (c : KmemCache) : List UInt8 := c.name ++ asciiBytes ['\n']

/-- `md_dump_slabowner` at a cache. -/
def dumpCache (k : SlabKernel) (s : SlabInput) (d : SlabDump) (c : KmemCache) : SlabDump :=
  dumpLine s (c.nodes.foldl (dumpNode k s) (dumpLine s d c.heading)) (asciiBytes ['\n'])

/-- The caches that are selected and exist. -/
def SlabInput.selected (s : SlabInput) : List KmemCache :=
  (List.range (kmallocShiftHigh + 1)).filterMap fun i =>
    if s.slabOwnerFilter.toNat.testBit i then s.kmallocCaches i else none

/-- `md_dump_slabowner`. -/
def mdDumpSlabowner (k : SlabKernel) (s : SlabInput) (mem : Nat → UInt8) : SlabDump :=
  s.selected.foldl (dumpCache k s) ⟨⟨mem, 0⟩, s.m, 0, [], false⟩

/-! ## Operations -/

/-- What the loops do, one after the other. -/
inductive SlabOp
  | line (text : List UInt8)
  | object (o : SlabObject)
  /-- the check behind a slab -/
  | check

/-- An operation, unless the function has returned. -/
def SlabOp.run (k : SlabKernel) (s : SlabInput) (d : SlabDump) : SlabOp → SlabDump
  | line text => dumpLine s d text
  | object o => if d.returned then d else dumpTracking k s d o
  | check =>
    if d.returned then d
    else if d.offset + 1 = s.dumpSize then { d with returned := true } else d

def slabOps (slab : List SlabObject) : List SlabOp := slab.map .object ++ [.check]

/-- The slabs of a node that are visited. -/
def KmemCacheNode.slabs (n : KmemCacheNode) : List (List SlabObject) :=
  if n.nrSlabs = 0 then [] else n.partialSlabs ++ n.fullSlabs

def KmemCache.ops (c : KmemCache) : List SlabOp :=
  .line c.heading :: (c.nodes.flatMap KmemCacheNode.slabs).flatMap slabOps ++
    [.line (asciiBytes ['\n'])]

/-- All operations. -/
def SlabInput.ops (s : SlabInput) : List SlabOp := s.selected.flatMap KmemCache.ops

section Operations

variable {k : SlabKernel} {s : SlabInput} {d : SlabDump}

theorem dumpTracking_returned (k : SlabKernel) (s : SlabInput) (d : SlabDump) (o : SlabObject) :
    (dumpTracking k s d o).returned = d.returned := by
  rw [dumpTracking]
  split
  · rfl
  · rfl

theorem SlabOp.run_returned (h : d.returned = true) (op : SlabOp) : op.run k s d = d := by
  cases op with
  | line text => exact if_pos h
  | object o => exact if_pos h
  | check => exact if_pos h

theorem foldl_run_returned (h : d.returned = true) (ops : List SlabOp) :
    ops.foldl (SlabOp.run k s) d = d := by
  induction ops with
  | nil => rfl
  | cons op ops ih => rw [List.foldl_cons, op.run_returned h, ih]

theorem foldl_objects (h : d.returned = false) (slab : List SlabObject) :
    (slab.map SlabOp.object).foldl (SlabOp.run k s) d = slab.foldl (dumpTracking k s) d ∧
      (slab.foldl (dumpTracking k s) d).returned = false := by
  induction slab generalizing d with
  | nil => exact ⟨rfl, h⟩
  | cons o slab ih =>
    have hstep : (SlabOp.object o).run k s d = dumpTracking k s d o :=
      if_neg (Bool.eq_false_iff.mp h)
    rw [List.map_cons, List.foldl_cons, List.foldl_cons, hstep]
    exact ih ((dumpTracking_returned k s d o).trans h)

theorem dumpSlab_eq_foldl (k : SlabKernel) (s : SlabInput) (d : SlabDump)
    (slab : List SlabObject) : dumpSlab k s d slab = (slabOps slab).foldl (SlabOp.run k s) d := by
  cases h : d.returned with
  | true => rw [foldl_run_returned h, dumpSlab, if_pos h]
  | false =>
    obtain ⟨hobjects, hreturned⟩ := foldl_objects (k := k) (s := s) h slab
    rw [slabOps, List.foldl_append, hobjects, dumpSlab, if_neg (Bool.eq_false_iff.mp h)]
    exact (if_neg (Bool.eq_false_iff.mp hreturned)).symm

theorem foldl_dumpSlab (k : SlabKernel) (s : SlabInput) (d : SlabDump)
    (slabs : List (List SlabObject)) :
    slabs.foldl (dumpSlab k s) d = (slabs.flatMap slabOps).foldl (SlabOp.run k s) d := by
  induction slabs generalizing d with
  | nil => rfl
  | cons slab slabs ih =>
    rw [List.foldl_cons, ih, List.flatMap_cons, List.foldl_append, dumpSlab_eq_foldl]

theorem foldl_dumpNode (k : SlabKernel) (s : SlabInput) (d : SlabDump)
    (nodes : List KmemCacheNode) :
    nodes.foldl (dumpNode k s) d =
      ((nodes.flatMap KmemCacheNode.slabs).flatMap slabOps).foldl (SlabOp.run k s) d := by
  induction nodes generalizing d with
  | nil => rfl
  | cons n nodes ih =>
    have hnode : dumpNode k s d n = n.slabs.foldl (dumpSlab k s) d := by
      rw [dumpNode, KmemCacheNode.slabs]
      split
      · rfl
      · rw [List.foldl_append]
    rw [List.foldl_cons, ih, List.flatMap_cons, List.flatMap_append, List.foldl_append, hnode,
      foldl_dumpSlab]

/-- **A cache as a sequence of operations.** -/
theorem dumpCache_eq_foldl (k : SlabKernel) (s : SlabInput) (d : SlabDump) (c : KmemCache) :
    dumpCache k s d c = c.ops.foldl (SlabOp.run k s) d := by
  rw [KmemCache.ops, List.foldl_append, dumpCache, foldl_dumpNode]
  rfl

theorem foldl_dumpCache (k : SlabKernel) (s : SlabInput) (d : SlabDump) (cs : List KmemCache) :
    cs.foldl (dumpCache k s) d = (cs.flatMap KmemCache.ops).foldl (SlabOp.run k s) d := by
  induction cs generalizing d with
  | nil => rfl
  | cons c cs ih =>
    rw [List.foldl_cons, ih, List.flatMap_cons, List.foldl_append, dumpCache_eq_foldl]

end Operations

/-! ## The places of the texts -/

/-- The positions in the dump when nothing is cut off, and the handles in the table. -/
structure Layout where
  base : Nat
  offset : Nat
  table : List UInt32

/-- The NUL of a text that ends at the table clears a byte of the first handle. -/
def clearedAt (s : SlabInput) (stop : Nat) (table : List UInt32) : List UInt32 :=
  if stop = s.handles then table.modifyHead (fun h => UInt32.ofNat (h.toNat / 256 * 256)) else table

namespace Layout

/-- Where the next record starts. -/
def pos (l : Layout) : Nat := l.base + l.offset

/-- The kind of a record, and the table with its handle. -/
def kind (s : SlabInput) (l : Layout) (handle : UInt32) : RecordKind × List UInt32 :=
  if s.handles < l.pos then (.stack, l.table)
  else if handle ∈ l.table then (.backReference, l.table)
  else if s.handles + 4 * l.table.length < s.m + s.dumpSize then (.stack, l.table ++ [handle])
  else (.stack, l.table)

/-- The text of a record. -/
def record (k : SlabKernel) (s : SlabInput) (l : Layout) (o : SlabObject) : List UInt8 :=
  (objectLines k o (l.kind s (k.hashStack o.entries)).1).flatten

/-- What an operation prints, and where. -/
def place (k : SlabKernel) (s : SlabInput) (l : Layout) : SlabOp → Option (Nat × List UInt8)
  | .line text => some (l.base, text)
  | .object o => if o.addr = 0 then none else some (l.pos, l.record k s o)
  | .check => none

/-- The positions behind an operation. -/
def next (k : SlabKernel) (s : SlabInput) (l : Layout) : SlabOp → Layout
  | .line text =>
    ⟨l.base + text.length, l.offset, clearedAt s (l.base + text.length) l.table⟩
  | .object o =>
    if o.addr = 0 then l
    else
      ⟨l.base, l.offset + (l.record k s o).length,
        clearedAt s (l.pos + (l.record k s o).length) (l.kind s (k.hashStack o.entries)).2⟩
  | .check => l

/-- The texts of some operations, with their places. -/
def places (k : SlabKernel) (s : SlabInput) : Layout → List SlabOp → List (Nat × List UInt8)
  | _, [] => []
  | l, op :: ops => (l.place k s op).toList ++ (l.next k s op).places k s ops

end Layout

/-- The layout at the start. -/
def SlabInput.layout (s : SlabInput) : Layout := ⟨s.m, 0, []⟩

/-- All texts, with their places. -/
def slabPlaces (k : SlabKernel) (s : SlabInput) : List (Nat × List UInt8) :=
  s.layout.places k s s.ops

/-! ## The table in memory -/

/-- The table holds these handles. -/
def TableAt (s : SlabInput) (mem : Nat → UInt8) (table : List UInt32) : Prop :=
  ∀ i (hi : i < table.length), read32 mem (s.handles + 4 * i) = table[i]

section Table

variable {s : SlabInput} {mem mem' : Nat → UInt8} {table : List UInt32}

theorem TableAt.congr (h : TableAt s mem table) (hkept : ∀ x, s.handles ≤ x → mem' x = mem x) :
    TableAt s mem' table := by
  intro i hi
  rw [← h i hi]
  exact read32_congr (fun k hk => hkept _ (by omega))

theorem TableAt.any_iff (h : TableAt s mem table) (handle : UInt32) :
    (List.range table.length).any (fun i => handle == read32 mem (s.handles + 4 * i)) = true ↔
      handle ∈ table := by
  rw [List.any_eq_true, List.mem_iff_getElem]
  refine ⟨?_, ?_⟩
  · rintro ⟨i, hi, heq⟩
    have hlt := List.mem_range.mp hi
    rw [h i hlt] at heq
    exact ⟨i, hlt, (eq_of_beq heq).symm⟩
  · rintro ⟨i, hi, heq⟩
    refine ⟨i, List.mem_range.mpr hi, ?_⟩
    rw [h i hi, heq]
    exact beq_self_eq_true handle

theorem TableAt.push (h : TableAt s mem table) (handle : UInt32) :
    TableAt s (write32 mem (s.handles + 4 * table.length) handle) (table ++ [handle]) := by
  intro i hi
  rw [List.length_append, List.length_singleton] at hi
  by_cases hlast : i = table.length
  · subst hlast
    rw [List.getElem_concat_length rfl]
    exact read32_writeLE_self _ _ _
  · rw [List.getElem_append_left (by omega), ← h i (by omega), write32]
    exact read32_writeLE _ (by omega)

/-- The first byte of a word is cleared. -/
theorem read32_cleared {a : Nat} (hnul : mem' a = 0) (hkept : ∀ x, a < x → mem' x = mem x) :
    read32 mem' a = UInt32.ofNat ((read32 mem a).toNat / 256 * 256) := by
  have hlt := readLE_lt mem a 4
  have hbyte := (mem a).toNat_lt
  have hrest : readLE mem' (a + 1) 3 = readLE mem (a + 1) 3 :=
    readLE_congr (fun k _ => hkept _ (by omega))
  have hnew : readLE mem' a 4 = 256 * readLE mem (a + 1) 3 := by
    rw [readLE, hnul, hrest]
    exact Nat.zero_add _
  have hold : readLE mem a 4 = (mem a).toNat + 256 * readLE mem (a + 1) 3 := rfl
  have hnat : (read32 mem a).toNat = readLE mem a 4 :=
    UInt32.toNat_ofNat_of_lt hlt
  rw [read32, hnew, hnat, hold]
  congr 1
  omega

/-- **A text before the table** leaves it alone, up to its NUL. -/
theorem TableAt.printed (h : TableAt s mem table) {stop : Nat} (hstop : stop ≤ s.handles)
    (hnul : mem' stop = 0) (hkept : ∀ x, stop < x → mem' x = mem x) :
    TableAt s mem' (clearedAt s stop table) := by
  rw [clearedAt]
  split
  case isFalse hne => exact h.congr (fun x hx => hkept x (by omega))
  case isTrue heq =>
    subst heq
    cases table with
    | nil =>
      intro i hi
      exact absurd hi (Nat.not_lt_zero i)
    | cons first table =>
      intro i hi
      cases i with
      | zero =>
        have hfirst : read32 mem s.handles = first := h 0 (Nat.zero_lt_succ _)
        show read32 mem' s.handles = UInt32.ofNat (first.toNat / 256 * 256)
        rw [read32_cleared hnul hkept, hfirst]
      | succ i =>
        have hother := h (i + 1) hi
        refine Eq.trans ?_ hother
        exact read32_congr (fun k _ => hkept _ (by omega))

theorem length_clearedAt (s : SlabInput) (stop : Nat) (table : List UInt32) :
    (clearedAt s stop table).length = table.length := by
  rw [clearedAt]
  split
  · exact List.length_modifyHead
  · rfl

end Table

/-! ## The code and the layout -/

/-- The code is where the layout says, and the table holds the handles as long as it is looked at. -/
structure Corr (s : SlabInput) (d : SlabDump) (l : Layout) : Prop where
  buf : d.buf = l.base
  offset : d.offset = l.offset
  nrHandles : d.region.nrHandles = l.table.length
  returned : d.returned = false
  offset_lt : l.offset + 1 < s.dumpSize
  capacity : s.handles + 4 * l.table.length ≤ s.m + s.dumpSize
  table : l.pos ≤ s.handles → TableAt s d.region.mem l.table

section Corr

variable {k : SlabKernel} {s : SlabInput} {d : SlabDump} {l : Layout}

/-- What `slabKind` does. -/
structure KindCorr (s : SlabInput) (d : SlabDump) (l : Layout) (handle : UInt32)
    (c : Region × RecordKind) : Prop where
  kind : c.2 = (l.kind s handle).1
  nrHandles : c.1.nrHandles = (l.kind s handle).2.length
  capacity : s.handles + 4 * (l.kind s handle).2.length ≤ s.m + s.dumpSize
  table : l.pos ≤ s.handles → TableAt s c.1.mem (l.kind s handle).2
  below : ∀ x, x < l.pos → c.1.mem x = d.region.mem x

/-- No handle is stored. -/
theorem Corr.kind_unchanged (h : Corr s d l) {handle : UInt32} {kind : RecordKind}
    (hkind : l.kind s handle = (kind, l.table)) : KindCorr s d l handle (d.region, kind) := by
  constructor
  case kind => rw [hkind]
  case nrHandles =>
    rw [hkind]
    exact h.nrHandles
  case capacity =>
    rw [hkind]
    exact h.capacity
  case table =>
    rw [hkind]
    exact h.table
  case below => exact fun _ _ => rfl

theorem Corr.slabKind (h : Corr s d l) (handle : UInt32) :
    KindCorr s d l handle (slabKind s d.region (d.buf + d.offset) handle) := by
  have hpos : d.buf + d.offset = l.pos := by
    rw [h.buf, h.offset]
    rfl
  have hsize : s.handles + s.slabOwnerHandlesSize = s.m + s.dumpSize :=
    Nat.sub_add_cancel s.handles_le
  obtain ⟨n, hn⟩ := s.handles_dvd
  have hcapacity := h.capacity
  rw [MinidumpMemory.slabKind, hpos]
  by_cases hpast : s.handles < l.pos
  · rw [if_pos hpast]
    exact h.kind_unchanged (if_pos hpast)
  · have hle := Nat.not_lt.mp hpast
    have htable := h.table hle
    rw [if_neg hpast, findStack, h.nrHandles]
    by_cases hmem : handle ∈ l.table
    · rw [if_pos ((htable.any_iff handle).mpr hmem)]
      refine h.kind_unchanged ?_
      rw [Layout.kind, if_neg hpast, if_pos hmem]
      rfl
    · have hany : ¬ (List.range l.table.length).any
          (fun i => handle == read32 d.region.mem (s.handles + 4 * i)) = true :=
        fun hany => hmem ((htable.any_iff handle).mp hany)
      rw [if_neg hany]
      by_cases hroom : s.handles + 4 * l.table.length < s.m + s.dumpSize
      · have hkind : l.kind s handle = (.stack, l.table ++ [handle]) := by
          rw [Layout.kind, if_neg hpast, if_neg hmem, if_pos hroom]
        have hlength : (l.table ++ [handle]).length = l.table.length + 1 := List.length_append
        rw [if_pos hroom]
        constructor
        case kind =>
          rw [hkind]
          rfl
        case nrHandles => rw [hkind, hlength]
        case capacity =>
          -- the table is a whole number of handles
          rw [hkind, hlength]
          omega
        case table =>
          rw [hkind]
          exact fun _ => htable.push handle
        case below =>
          intro x hx
          exact writeLE_of_lt _ (by omega)
      · rw [if_neg hroom]
        refine h.kind_unchanged ?_
        rw [Layout.kind, if_neg hpast, if_neg hmem, if_neg hroom]
        rfl

/-- A line is printed to its end. -/
theorem Corr.line (h : Corr s d l) (hsmall : s.dumpSize < 2 ^ 31) {text : List UInt8}
    (hfit : text.length + 1 < s.dumpSize) :
    Corr s (dumpLine s d text) (l.next k s (.line text)) ∧
      (dumpLine s d text).texts = d.texts ++ [(l.base, text ++ [0])] ∧
      (dumpLine s d text).region.mem = storeAt d.region.mem l.base (text ++ [0]) := by
  have hcut : cutText s.dumpSize text = text ++ [0] := cutText_of_lt (by omega)
  have hprinted : printed s.dumpSize text = text.length := by
    rw [printed, if_neg (by omega)]
    omega
  have hstores : scnprintfStores d.buf s.dumpSize text = [(l.base, text ++ [0])] := by
    rw [scnprintfStores, if_neg (by omega), hcut, h.buf]
  have hline : dumpLine s d text =
      { d with
        region := ⟨storeAt d.region.mem l.base (text ++ [0]), d.region.nrHandles⟩
        texts := d.texts ++ [(l.base, text ++ [0])]
        buf := l.base + text.length } := by
    rw [dumpLine, if_neg (Bool.eq_false_iff.mp h.returned), scnprintf_eq, hstores, hprinted]
    dsimp only
    rw [if_neg (by omega), h.buf]
    rfl
  rw [hline]
  refine ⟨?_, rfl, rfl⟩
  constructor
  case buf => rfl
  case offset => exact h.offset
  case nrHandles => exact h.nrHandles.trans (length_clearedAt s _ l.table).symm
  case returned => exact h.returned
  case offset_lt => exact h.offset_lt
  case capacity =>
    show s.handles + 4 * (clearedAt s _ l.table).length ≤ _
    rw [length_clearedAt]
    exact h.capacity
  case table =>
    intro hle
    have hend : l.base + text.length + l.offset ≤ s.handles := hle
    refine (h.table (by rw [Layout.pos]; omega)).printed (by omega) ?_ (fun x hx => ?_)
    · show storeAt d.region.mem l.base (text ++ [0]) (l.base + text.length) = 0
      rw [storeAt_add _ (by rw [List.length_append, List.length_singleton]; omega),
        List.getElem_concat_length rfl]
    · refine storeAt_of_le _ ?_
      rw [List.length_append, List.length_singleton]
      omega

/-- What `dump_tracking` does with a record that is printed to its end. -/
structure ObjectCorr (k : SlabKernel) (s : SlabInput) (d : SlabDump) (l : Layout) (o : SlabObject) :
    Prop where
  corr : Corr s (dumpTracking k s d o) (l.next k s (.object o))
  texts : ∃ stores, (dumpTracking k s d o).texts = d.texts ++ stores ∧
    ∀ b ∈ stores, l.pos ≤ b.1 ∧ b.1 + b.2.length ≤ l.pos + (l.record k s o).length + 1
  text : slice (dumpTracking k s d o).region.mem l.pos (l.record k s o).length = l.record k s o
  below : ∀ x, x < l.pos → (dumpTracking k s d o).region.mem x = d.region.mem x

theorem objectLines_cons (k : SlabKernel) (o : SlabObject) (kind : RecordKind) :
    ∃ line lines, objectLines k o kind = line :: lines := by
  cases kind with
  | stack => exact ⟨_, _, rfl⟩
  | backReference => exact ⟨_, _, rfl⟩

/-- A record is printed to its end. -/
theorem Corr.object (h : Corr s d l) (hsmall : s.dumpSize < 2 ^ 31) {o : SlabObject}
    (htracked : o.addr ≠ 0) (hfit : l.offset + (l.record k s o).length + 1 < s.dumpSize) :
    ObjectCorr k s d l o := by
  have hkind := h.slabKind (k.hashStack o.entries)
  have hpos : d.buf + d.offset = l.pos := by
    rw [h.buf, h.offset]
    rfl
  have hnext : l.next k s (.object o) = ⟨l.base, l.offset + (l.record k s o).length,
      clearedAt s (l.pos + (l.record k s o).length) (l.kind s (k.hashStack o.entries)).2⟩ :=
    if_neg htracked
  have hdump : dumpTracking k s d o = _ := if_neg htracked
  rw [hpos] at hkind
  rw [hpos, h.offset] at hdump
  dsimp only at hdump
  have hrecord : l.record k s o = (objectLines k o
      (MinidumpMemory.slabKind s d.region l.pos (k.hashStack o.entries)).2).flatten := by
    rw [Layout.record, hkind.kind]
  generalize MinidumpMemory.slabKind s d.region l.pos (k.hashStack o.entries) = c
    at hkind hdump hrecord
  obtain ⟨line, lines, hlines⟩ := objectLines_cons k o c.2
  have hreached : (printLines c.1.mem l.pos (s.dumpSize - l.offset) 0 (objectLines k o c.2)).2 =
      (l.record k s o).length := by
    rw [printLines_snd _ _ (by omega) (by omega), hrecord]
    rw [hrecord] at hfit
    omega
  constructor
  case corr =>
    rw [hnext, hdump]
    constructor
    case buf => exact h.buf
    case offset =>
      show l.offset + _ = _
      rw [hreached]
    case nrHandles => exact hkind.nrHandles.trans (length_clearedAt s _ _).symm
    case returned => exact h.returned
    case offset_lt => exact hfit
    case capacity =>
      show s.handles + 4 * (clearedAt s _ _).length ≤ _
      rw [length_clearedAt]
      exact hkind.capacity
    case table =>
      intro hle
      have hend : l.base + (l.offset + (l.record k s o).length) ≤ s.handles := hle
      have hpos' : l.pos = l.base + l.offset := rfl
      refine (hkind.table (by omega)).printed (by omega) ?_ (fun x hx => ?_)
      · show (printLines _ _ _ 0 _).1 (l.pos + _) = 0
        rw [← hreached, hlines]
        exact printLines_nul (by omega) line lines _ 0 (by omega)
      · exact printLines_kept _ _ 0 (by rw [hreached]; omega)
  case texts =>
    rw [hdump]
    refine ⟨_, rfl, fun b hb => ?_⟩
    have hinside := printLinesStores_le _ c.1.mem 0 (by omega) hb
    rw [hreached] at hinside
    omega
  case text =>
    rw [hdump, hrecord]
    refine slice_printLines _ _ 0 ?_
    rw [hreached, hrecord, Nat.zero_add]
  case below =>
    intro x hx
    rw [hdump, ← hkind.below x hx]
    exact printLines_kept _ _ 0 (Or.inl hx)

end Corr

end SafelinuxDbg.MinidumpMemory
