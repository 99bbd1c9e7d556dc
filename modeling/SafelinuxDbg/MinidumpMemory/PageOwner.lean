import SafelinuxDbg.Lib.Print
import Mathlib.Data.List.Infix

/-!
# The page owner dump

At a panic `md_dump_pageowner` walks over the pages and prints, for each page that passes the filter,
a line with its number and the handle of the stack that allocated it, and behind that line the stack.
A stack is printed once: the handles that were printed are kept in a table at the end of the same
region, and a page whose handle is there gets a line only, which refers back to the first one.  The
text grows towards the table, and `found_stack` is not asked any more when the text has passed its
start.

* `firstPfn_stops`: the walk finds where to start.
* `mem_ownedPages`, `ownedPages_ascending`: it dumps pages with an owner only, each one once.
-/

namespace SafelinuxDbg.MinidumpMemory

open CMemory

/-! ## The code -/

/-- What the code uses of the kernel: the stack depot, the texts of `%p` and `%pS`, and the masks of
the three page flags. -/
structure Kernel where
  /-- `stack_depot_fetch` -/
  stackDepotFetch : UInt32 → List UInt64
  pointerText : UInt64 → List UInt8
  symbolText : UInt64 → List UInt8
  lru : UInt64
  slab : UInt64
  swapbacked : UInt64

/-- The variables that do not change during a dump.  The region has `md_pageowner_dump_size` bytes,
and the last `page_owner_handles_size` of them are the table. -/
structure Settings where
  mdPageownerDumpSize : Nat
  pageOwnerHandlesSize : Nat
  pageOwnerFilter : UInt64
  accountedCallSites : List (List UInt8)
  handles_dvd : 4 ∣ pageOwnerHandlesSize
  handles_le : pageOwnerHandlesSize ≤ mdPageownerDumpSize

/-- A page that `md_dump_pageowner` comes to. -/
structure Page where
  pfn : Nat
  flags : UInt64
  handle : UInt32
deriving DecidableEq

/-- The start of the table of handles. -/
def Settings.handles (s : Settings) : Nat := s.mdPageownerDumpSize - s.pageOwnerHandlesSize

/-- The region and `nr_handles`. -/
structure Region where
  mem : Nat → UInt8
  nrHandles : Nat

/-- `found_stack`. -/
def foundStack (s : Settings) (r : Region) (handle : UInt32) : Region × Bool :=
  if (List.range r.nrHandles).any (fun i => handle == read32 r.mem (s.handles + 4 * i)) then
    (r, true)
  else if s.handles + 4 * r.nrHandles < s.mdPageownerDumpSize then
    (⟨write32 r.mem (s.handles + 4 * r.nrHandles) handle, r.nrHandles + 1⟩, false)
  else (r, false)

/-- The line `check_unaccounted` prints for an entry of a stack. -/
def symbolLine (k : Kernel) (entry : UInt64) : List UInt8 := k.symbolText entry ++ asciiBytes ['\n']

/-- The loop of `check_unaccounted` over a stack.  Each line is printed to `buf`, over the one before,
and the call sites are searched for in the string that stands there. -/
def checkEntries (k : Kernel) (s : Settings) (buf count : Nat) :
    (Nat → UInt8) → List UInt64 → (Nat → UInt8) × Bool
  | m, [] => (m, true)
  | m, entry :: entries =>
    let r := scnprintf m buf count (symbolLine k entry)
    if r.2 + 1 = count then (r.1, false)
    else if s.accountedCallSites.any (fun name =>
        decide (name <:+: (slice r.1 buf count).takeWhile (· ≠ 0))) then (r.1, false)
    else checkEntries k s buf count r.1 entries

/-- `check_unaccounted`. -/
def checkUnaccounted (k : Kernel) (s : Settings) (buf count : Nat) (page : Page)
    (m : Nat → UInt8) : (Nat → UInt8) × Bool :=
  if page.flags &&& (k.lru ||| k.slab ||| k.swapbacked) ≠ 0 then (m, false)
  else checkEntries k s buf count m (k.stackDepotFetch page.handle)

/-- The `switch` of `dump_page_owner_md`; `true` goes to the label `dump`. -/
def filterCase (k : Kernel) (s : Settings) (buf count : Nat) (page : Page) (bit : UInt64)
    (m : Nat → UInt8) : (Nat → UInt8) × Bool :=
  if bit = 0x1 then checkUnaccounted k s buf count page m
  else if bit = 0x2 then (m, decide (page.flags &&& k.slab ≠ 0))
  else if bit = 0x4 then (m, decide (page.flags &&& k.swapbacked ≠ 0))
  else if bit = 0x8 then
    (m, decide (page.flags &&& k.lru ≠ 0 ∧ ~~~(page.flags &&& k.swapbacked) ≠ 0))
  else (m, false)

/-- The loop of `dump_page_owner_md` over the bits of the filter. -/
def filterLoop (k : Kernel) (s : Settings) (buf count : Nat) (page : Page) :
    List UInt64 → (Nat → UInt8) → (Nat → UInt8) × Bool
  | [], m => (m, false)
  | bit :: bits, m =>
    if s.pageOwnerFilter < bit then (m, false)
    else if s.pageOwnerFilter &&& bit ≠ 0 then
      let r := filterCase k s buf count page bit m
      if r.2 then r else filterLoop k s buf count page bits r.1
    else filterLoop k s buf count page bits m

/-- The way to the label `dump`. -/
def passesFilter (k : Kernel) (s : Settings) (buf count : Nat) (page : Page)
    (m : Nat → UInt8) : (Nat → UInt8) × Bool :=
  if s.pageOwnerFilter = 0xF then (m, true)
  else filterLoop k s buf count page [0x1, 0x2, 0x4, 0x8] m

/-- `"%lu %u %u\n"`. -/
def pageLine (page : Page) (nrEntries : Nat) : List UInt8 :=
  decimal page.pfn ++ asciiBytes [' '] ++ decimal page.handle.toNat ++ asciiBytes [' '] ++
    decimal nrEntries ++ asciiBytes ['\n']

/-- The lines of a record with its stack. -/
def recordLines (k : Kernel) (page : Page) : List (List UInt8) :=
  let entries := k.stackDepotFetch page.handle
  pageLine page entries.length :: entries.map (fun entry => k.pointerText entry ++ asciiBytes ['\n'])

/-- The two kinds of records. -/
inductive RecordKind
  | stack | backReference
deriving DecidableEq

/-- The lines of a record of either kind. -/
def linesOf (k : Kernel) (page : Page) : RecordKind → List (List UInt8)
  | .stack => recordLines k page
  | .backReference => [pageLine page 0]

/-- The branch taken at the label `dump`.  The table is looked at as long as the text has not passed
its start. -/
def chooseKind (s : Settings) (r : Region) (buf : Nat) (page : Page) : Region × RecordKind :=
  if s.handles < buf then (r, .stack)
  else
    let f := foundStack s r page.handle
    (f.1, if f.2 then .backReference else .stack)

/-- `dump_page_owner_md`: the region after it, the number returned, and the branch taken. -/
def dumpPageOwnerMd (k : Kernel) (s : Settings) (r : Region) (buf count : Nat) (page : Page) :
    Region × Nat × Option RecordKind :=
  let f := passesFilter k s buf count page r.mem
  if f.2 then
    let c := chooseKind s ⟨f.1, r.nrHandles⟩ buf page
    let p := printLines c.1.mem buf count 0 (linesOf k page c.2)
    (⟨p.1, c.1.nrHandles⟩, p.2, some c.2)
  else (⟨f.1, r.nrHandles⟩, 0, none)

/-- A record in the dump. -/
structure Record where
  page : Page
  kind : RecordKind
  offset : Nat
deriving DecidableEq

/-- The variables of `md_dump_pageowner`, and the records emitted so far.  `exhausted` says that it
has returned early. -/
structure Dump where
  region : Region
  addr : Nat
  dumpSize : Nat
  exhausted : Bool
  records : List Record

/-- The record that stands in the dump, when `size` bytes were printed at `offset`. -/
def emitted (page : Page) (offset size : Nat) (kind : Option RecordKind) : List Record :=
  if size = 0 then [] else (kind.map (fun kind => ⟨page, kind, offset⟩)).toList

/-- `md_dump_pageowner` at a page. -/
def dumpPage (k : Kernel) (s : Settings) (d : Dump) (page : Page) : Dump :=
  if d.exhausted then d
  else
    let r := dumpPageOwnerMd k s d.region d.addr d.dumpSize page
    let records := d.records ++ emitted page d.addr r.2.1 r.2.2
    if r.2.1 + 1 = d.dumpSize then { d with region := r.1, exhausted := true, records := records }
    else ⟨r.1, d.addr + r.2.1, d.dumpSize - r.2.1, false, records⟩

/-- The start of a dump. -/
def Dump.start (s : Settings) (mem : Nat → UInt8) : Dump :=
  ⟨⟨mem, 0⟩, 0, s.mdPageownerDumpSize, false, []⟩

/-- `md_dump_pageowner` at the pages it comes to. -/
def dumpPages (k : Kernel) (s : Settings) (d : Dump) (pages : List Page) : Dump :=
  pages.foldl (dumpPage k s) d

/-! ## The walk over the pages -/

/-- What `lookup_page_ext` finds: the two owner bits, and the handle of the page. -/
structure PageExt where
  owner : Bool
  ownerAllocated : Bool
  handle : UInt32

/-- The memory map of the kernel. -/
structure MemoryMap where
  maxOrder : Nat
  pfnValid : Nat → Bool
  pageBuddy : Nat → Bool
  buddyOrder : Nat → Nat
  flags : Nat → UInt64
  lookupPageExt : Nat → Option PageExt

/-- `MAX_ORDER_NR_PAGES`. -/
def MemoryMap.maxOrderNrPages (p : MemoryMap) : Nat := 2 ^ (p.maxOrder - 1)

/-- The first loop of `md_dump_pageowner`; it ends within an area. -/
def firstPfn (p : MemoryMap) : Nat → Nat → Nat
  | 0, pfn => pfn
  | n + 1, pfn =>
    if !p.pfnValid pfn && pfn % p.maxOrderNrPages != 0 then firstPfn p n (pfn + 1) else pfn

/-- The page at `pfn`, if it is allocated and has an owner. -/
def ownedPage (p : MemoryMap) (pfn : Nat) : Option Page :=
  match p.lookupPageExt pfn with
  | none => none
  | some ext =>
    if !ext.owner then none
    else if !ext.ownerAllocated then none
    else if ext.handle = 0 then none
    else some ⟨pfn, p.flags pfn, ext.handle⟩

/-- How far the second loop of `md_dump_pageowner` goes on from a page that it does not look into:
over an area that does not exist, or over free pages. -/
def skipped (p : MemoryMap) (pfn : Nat) : Option Nat :=
  if pfn % p.maxOrderNrPages = 0 ∧ p.pfnValid pfn = false then some (p.maxOrderNrPages - 1)
  else if p.pageBuddy pfn then
    some (if p.buddyOrder pfn < p.maxOrder then 2 ^ p.buddyOrder pfn - 1 else 0)
  else none

/-- The pages that the second loop of `md_dump_pageowner` dumps, from `pfn` on. -/
def ownedPages (p : MemoryMap) (maxPfn pfn : Nat) : List Page :=
  if pfn < maxPfn then
    match skipped p pfn with
    | some n => ownedPages p maxPfn (pfn + n + 1)
    | none => (ownedPage p pfn).toList ++ ownedPages p maxPfn (pfn + 1)
  else []
termination_by maxPfn - pfn

/-- `md_dump_pageowner`. -/
def mdDumpPageowner (k : Kernel) (s : Settings) (p : MemoryMap) (minLowPfn maxPfn : Nat)
    (mem : Nat → UInt8) : Dump :=
  dumpPages k s (Dump.start s mem)
    (ownedPages p maxPfn (firstPfn p p.maxOrderNrPages minLowPfn))

section Walk

variable {p : MemoryMap} {maxPfn : Nat}

/-- The first loop has ended, when it may go as far as the next area. -/
theorem firstPfn_stops_of_le (n : Nat) : ∀ pfn j : Nat, j ≤ n → (pfn + j) % p.maxOrderNrPages = 0 →
    (!p.pfnValid (firstPfn p n pfn) && firstPfn p n pfn % p.maxOrderNrPages != 0) = false := by
  induction n with
  | zero =>
    intro pfn j hj harea
    cases Nat.le_zero.mp hj
    rw [firstPfn, ← Nat.add_zero pfn, harea]
    exact Bool.and_false _
  | succ n ih =>
    intro pfn j hj harea
    rw [firstPfn]
    split
    case isTrue hgo =>
      have hne : pfn % p.maxOrderNrPages ≠ 0 := bne_iff_ne.mp (Bool.and_eq_true_iff.mp hgo).2
      have hpos : j ≠ 0 := fun hzero => hne (by rwa [hzero, Nat.add_zero] at harea)
      refine ih (pfn + 1) (j - 1) (by omega) ?_
      rwa [show pfn + 1 + (j - 1) = pfn + j by omega]
    case isFalse hstop => exact Bool.eq_false_iff.mpr hstop

/-- **The walk finds where to start.** -/
theorem firstPfn_stops (p : MemoryMap) (pfn : Nat) :
    (!p.pfnValid (firstPfn p p.maxOrderNrPages pfn) &&
      firstPfn p p.maxOrderNrPages pfn % p.maxOrderNrPages != 0) = false := by
  have hpos : 0 < p.maxOrderNrPages := Nat.two_pow_pos _
  have hlt := Nat.mod_lt pfn hpos
  refine firstPfn_stops_of_le _ pfn (p.maxOrderNrPages - pfn % p.maxOrderNrPages)
    (Nat.sub_le _ _) ?_
  have hdiv := Nat.div_add_mod pfn p.maxOrderNrPages
  have harea : pfn + (p.maxOrderNrPages - pfn % p.maxOrderNrPages) =
      p.maxOrderNrPages * (pfn / p.maxOrderNrPages + 1) := by
    rw [Nat.mul_add, Nat.mul_one]
    omega
  rw [harea, Nat.mul_mod_right]

theorem ownedPage_pfn {pfn : Nat} {page : Page} (h : ownedPage p pfn = some page) :
    page.pfn = pfn := by
  unfold ownedPage at h
  repeat' split at h
  all_goals cases h
  rfl

/-- The pages that are dumped have an owner. -/
theorem mem_ownedPages {pfn : Nat} {page : Page} (h : page ∈ ownedPages p maxPfn pfn) :
    pfn ≤ page.pfn ∧ page.pfn < maxPfn ∧ ownedPage p page.pfn = some page := by
  fun_induction ownedPages p maxPfn pfn with
  | case1 pfn hlt n hskip ih =>
    obtain ⟨hle, hrest⟩ := ih h
    exact ⟨by omega, hrest⟩
  | case2 pfn hlt hlook ih =>
    cases List.mem_append.mp h with
    | inl hhere =>
      have hpage := Option.mem_toList.mp hhere
      have hpfn := ownedPage_pfn hpage
      exact ⟨by omega, by omega, hpfn.symm ▸ hpage⟩
    | inr hlater =>
      obtain ⟨hle, hrest⟩ := ih hlater
      exact ⟨by omega, hrest⟩
  | case3 pfn hend => cases h

/-- Each page is dumped once. -/
theorem ownedPages_ascending (p : MemoryMap) (maxPfn pfn : Nat) :
    (ownedPages p maxPfn pfn).Pairwise (fun a b => a.pfn < b.pfn) := by
  fun_induction ownedPages p maxPfn pfn with
  | case1 pfn hlt n hskip ih => exact ih
  | case2 pfn hlt hlook ih =>
    cases hpage : ownedPage p pfn with
    | none => exact ih
    | some page =>
      refine List.pairwise_cons.mpr ⟨fun later hlater => ?_, ih⟩
      have hle := (mem_ownedPages hlater).1
      have hpfn := ownedPage_pfn hpage
      omega
  | case3 pfn hend => exact .nil

end Walk

end SafelinuxDbg.MinidumpMemory
