import SafelinuxDbg.MinidumpMemory.BackReferences

/-!
# The page owner dump stays in its region

Three things are written to the region: the text of the records, the lines that `check_unaccounted`
prints for itself, and the handles.  Text is printed from the cursor on and never past the end of the
region, and handles are stored behind the cursor, because `found_stack` is asked only as long as the
cursor has not passed the start of the table.  So everything before the cursor stays.

`dumpTrace` lists every access in its order.

* `runAll_dumpTrace`: the stores of the trace make the memory what it is.
* `pageTrace_inside`: where the accesses for a page are.
* `pageOwner_appends`: for all pages the accesses are inside of the region, those to handles inside
  of the table, and everything that comes behind a record is stored behind it.
-/

namespace SafelinuxDbg.MinidumpMemory

open CMemory

/-! ## The accesses -/

/-- An access to the region. -/
inductive Access
  /-- a text with its NUL -/
  | text (start : Nat) (bytes : List UInt8)
  | storeHandle (start : Nat) (handle : UInt32)
  | readHandle (start : Nat)

namespace Access

def start : Access → Nat
  | text start _ => start
  | storeHandle start _ => start
  | readHandle start => start

/-- The number of bytes. -/
def length : Access → Nat
  | text _ bytes => bytes.length
  | storeHandle _ _ => 4
  | readHandle _ => 4

def IsHandle : Access → Prop
  | text _ _ => False
  | storeHandle _ _ => True
  | readHandle _ => True

/-- What an access does to the memory. -/
def run (m : Nat → UInt8) : Access → Nat → UInt8
  | text start bytes => storeAt m start bytes
  | storeHandle start handle => write32 m start handle
  | readHandle _ => m

theorem run_below (m : Nat → UInt8) {a : Access} {x : Nat} (h : x < a.start) : a.run m x = m x := by
  cases a with
  | text start bytes => exact storeAt_of_lt m bytes h
  | storeHandle start handle => exact writeLE_of_lt m h
  | readHandle start => rfl

end Access

/-- What some accesses do to the memory. -/
def runAll (m : Nat → UInt8) (accesses : List Access) : Nat → UInt8 := accesses.foldl Access.run m

/-- The accesses that store some texts. -/
def textAccesses (stores : List (Nat × List UInt8)) : List Access :=
  stores.map (fun b => .text b.1 b.2)

/-- The accesses of `check_unaccounted` for a stack. -/
def checkTrace (k : Kernel) (s : Settings) (buf count : Nat) :
    (Nat → UInt8) → List UInt64 → List Access
  | _, [] => []
  | m, entry :: entries =>
    let r := scnprintf m buf count (symbolLine k entry)
    textAccesses (scnprintfStores buf count (symbolLine k entry)) ++
      if r.2 + 1 = count then []
      else if s.accountedCallSites.any (fun name =>
          decide (name <:+: (slice r.1 buf count).takeWhile (· ≠ 0))) then []
      else checkTrace k s buf count r.1 entries

instance (k : Kernel) (s : Settings) (page : Page) : Decidable (Checked k s page) := by
  unfold Checked
  infer_instance

/-- The accesses on the way to the label `dump`. -/
def filterTrace (k : Kernel) (s : Settings) (buf count : Nat) (page : Page) (m : Nat → UInt8) :
    List Access :=
  if Checked k s page then checkTrace k s buf count m (k.stackDepotFetch page.handle) else []

/-- The accesses of `found_stack`: the handles up to the first one that is the same, and the new
one. -/
def foundTrace (s : Settings) (r : Region) (handle : UInt32) : List Access :=
  let same := fun i => handle == read32 r.mem (s.handles + 4 * i)
  (List.range (min r.nrHandles ((List.range r.nrHandles).findIdx same + 1))).map
      (fun i => .readHandle (s.handles + 4 * i)) ++
    if (List.range r.nrHandles).any same then []
    else if s.handles + 4 * r.nrHandles < s.mdPageownerDumpSize then
      [.storeHandle (s.handles + 4 * r.nrHandles) handle]
    else []

/-- The accesses of the branch at the label `dump`. -/
def chooseTrace (s : Settings) (r : Region) (buf : Nat) (page : Page) : List Access :=
  if s.handles < buf then [] else foundTrace s r page.handle

/-- The accesses of `dump_page_owner_md`. -/
def pageOwnerTrace (k : Kernel) (s : Settings) (r : Region) (buf count : Nat) (page : Page) :
    List Access :=
  let f := passesFilter k s buf count page r.mem
  filterTrace k s buf count page r.mem ++
    if f.2 then
      let c := chooseKind s ⟨f.1, r.nrHandles⟩ buf page
      chooseTrace s ⟨f.1, r.nrHandles⟩ buf page ++
        textAccesses (printLinesStores buf count 0 (linesOf k page c.2))
    else []

/-- The accesses of `md_dump_pageowner` at a page. -/
def pageTrace (k : Kernel) (s : Settings) (d : Dump) (page : Page) : List Access :=
  if d.exhausted then [] else pageOwnerTrace k s d.region d.addr d.dumpSize page

/-- The accesses of `md_dump_pageowner` at the pages it comes to. -/
def dumpTrace (k : Kernel) (s : Settings) : Dump → List Page → List Access
  | _, [] => []
  | d, page :: pages => pageTrace k s d page ++ dumpTrace k s (dumpPage k s d page) pages

/-! ## The memory -/

section Memory

variable {k : Kernel} {s : Settings} {buf count : Nat} {page : Page}

theorem runAll_append (m : Nat → UInt8) (accesses more : List Access) :
    runAll m (accesses ++ more) = runAll (runAll m accesses) more := List.foldl_append

theorem runAll_text (m : Nat → UInt8) (stores : List (Nat × List UInt8)) :
    runAll m (textAccesses stores) = storeAll m stores := List.foldl_map

theorem runAll_reads (m : Nat → UInt8) (is : List Nat) (start : Nat → Nat) :
    runAll m (is.map (fun i => .readHandle (start i))) = m := by
  induction is with
  | nil => rfl
  | cons i is ih => exact ih

theorem runAll_below (m : Nat → UInt8) {accesses : List Access} {x : Nat}
    (h : ∀ a ∈ accesses, x < a.start) : runAll m accesses x = m x := by
  induction accesses generalizing m with
  | nil => rfl
  | cons a accesses ih =>
    have hrest := ih (a.run m) (fun b hb => h b (List.mem_cons_of_mem a hb))
    exact hrest.trans (a.run_below m (h a List.mem_cons_self))

theorem runAll_checkTrace (entries : List UInt64) : ∀ m : Nat → UInt8,
    runAll m (checkTrace k s buf count m entries) = (checkEntries k s buf count m entries).1 := by
  induction entries with
  | nil => exact fun m => rfl
  | cons entry entries ih =>
    intro m
    rw [checkTrace, checkEntries, runAll_append, runAll_text, scnprintf_eq]
    dsimp only
    split
    · rfl
    · split
      · rfl
      · exact ih _

theorem runAll_filterTrace (k : Kernel) (s : Settings) (buf count : Nat) (page : Page)
    (m : Nat → UInt8) :
    runAll m (filterTrace k s buf count page m) = (passesFilter k s buf count page m).1 := by
  rw [filterTrace]
  split
  case isTrue hchecked => rw [runAll_checkTrace, passesFilter_checked hchecked]
  case isFalse hchecked => exact (passesFilter_unchecked hchecked buf count m).symm

theorem runAll_chooseTrace (s : Settings) (r : Region) (buf : Nat) (page : Page) :
    runAll r.mem (chooseTrace s r buf page) = (chooseKind s r buf page).1.mem := by
  rw [chooseTrace, chooseKind]
  split
  · rfl
  · rw [foundTrace, foundStack, runAll_append, runAll_reads]
    split
    · rfl
    · split
      · rfl
      · rfl

theorem runAll_pageTrace (k : Kernel) (s : Settings) (d : Dump) (page : Page) :
    runAll d.region.mem (pageTrace k s d page) = (dumpPage k s d page).region.mem := by
  have howner : runAll d.region.mem (pageOwnerTrace k s d.region d.addr d.dumpSize page) =
      (dumpPageOwnerMd k s d.region d.addr d.dumpSize page).1.mem := by
    rw [pageOwnerTrace, dumpPageOwnerMd, runAll_append, runAll_filterTrace]
    dsimp only
    split
    · have hchoose := runAll_chooseTrace s
        ⟨(passesFilter k s d.addr d.dumpSize page d.region.mem).1, d.region.nrHandles⟩ d.addr page
      rw [runAll_append, runAll_text, printLines_eq_storeAll, ← hchoose]
    · rfl
  rw [pageTrace, dumpPage]
  split
  · rfl
  · dsimp only
    split
    · exact howner
    · exact howner

/-- **The trace tells what is stored.** -/
theorem runAll_dumpTrace (k : Kernel) (s : Settings) (pages : List Page) : ∀ d : Dump,
    runAll d.region.mem (dumpTrace k s d pages) = (dumpPages k s d pages).region.mem := by
  induction pages with
  | nil => exact fun d => rfl
  | cons page pages ih =>
    intro d
    rw [dumpTrace, runAll_append, runAll_pageTrace]
    exact ih _

end Memory

/-! ## One page -/

/-- Where the cursor and the table are. -/
structure Dump.Bounded (s : Settings) (d : Dump) : Prop where
  size : d.addr + d.dumpSize = s.mdPageownerDumpSize
  table : s.handles + 4 * d.region.nrHandles ≤ s.mdPageownerDumpSize

/-- Behind the cursor, in the region, and in the table if it is for a handle. -/
structure Access.Inside (s : Settings) (cursor : Nat) (a : Access) : Prop where
  cursor_le : cursor ≤ a.start
  end_le : a.start + a.length ≤ s.mdPageownerDumpSize
  handles_le : a.IsHandle → s.handles ≤ a.start

section Inside

variable {k : Kernel} {s : Settings} {d : Dump} {page : Page} {buf count : Nat}

theorem textAccesses_inside {stores : List (Nat × List UInt8)}
    (h : ∀ b ∈ stores, buf ≤ b.1 ∧ b.1 + b.2.length ≤ s.mdPageownerDumpSize) :
    ∀ a ∈ textAccesses stores, a.Inside s buf := by
  intro a ha
  obtain ⟨b, hb, rfl⟩ := List.mem_map.mp ha
  obtain ⟨hstart, hend⟩ := h b hb
  exact ⟨hstart, hend, fun hhandle => hhandle.elim⟩

theorem checkTrace_inside (hsize : buf + count ≤ s.mdPageownerDumpSize) (entries : List UInt64) :
    ∀ m : Nat → UInt8, ∀ a ∈ checkTrace k s buf count m entries, a.Inside s buf := by
  induction entries with
  | nil => exact fun m a ha => absurd ha List.not_mem_nil
  | cons entry entries ih =>
    intro m a ha
    rcases List.mem_append.mp ha with ha | ha
    · refine textAccesses_inside (fun b hb => ?_) a ha
      obtain ⟨hstart, hlength⟩ := scnprintfStores_inside hb
      omega
    · split at ha
      · cases ha
      · split at ha
        · cases ha
        · exact ih _ a ha

theorem filterTrace_inside (hsize : buf + count ≤ s.mdPageownerDumpSize) (m : Nat → UInt8) :
    ∀ a ∈ filterTrace k s buf count page m, a.Inside s buf := by
  intro a ha
  rw [filterTrace] at ha
  split at ha
  · exact checkTrace_inside hsize _ m a ha
  · cases ha

/-- `found_stack` stays in the table. -/
theorem chooseTrace_inside {r : Region}
    (htable : s.handles + 4 * r.nrHandles ≤ s.mdPageownerDumpSize) :
    ∀ a ∈ chooseTrace s r buf page, a.Inside s buf := by
  have hsize : s.handles + s.pageOwnerHandlesSize = s.mdPageownerDumpSize :=
    Nat.sub_add_cancel s.handles_le
  obtain ⟨n, hn⟩ := s.handles_dvd
  intro a ha
  rw [chooseTrace] at ha
  split at ha
  · cases ha
  · rename_i hbuf
    have hbuf := Nat.not_lt.mp hbuf
    rcases List.mem_append.mp ha with ha | ha
    · obtain ⟨i, hi, rfl⟩ := List.mem_map.mp ha
      have hlt := List.mem_range.mp hi
      refine ⟨Nat.le_trans hbuf (Nat.le_add_right _ _), ?_, fun _ => Nat.le_add_right _ _⟩
      show s.handles + 4 * i + 4 ≤ s.mdPageownerDumpSize
      omega
    · split at ha
      · cases ha
      · split at ha
        · rename_i hroom
          cases List.mem_singleton.mp ha
          refine ⟨Nat.le_trans hbuf (Nat.le_add_right _ _), ?_, fun _ => Nat.le_add_right _ _⟩
          -- the table is a whole number of handles
          show s.handles + 4 * r.nrHandles + 4 ≤ s.mdPageownerDumpSize
          omega
        · cases ha

/-- **The accesses for a page.** -/
theorem pageTrace_inside (h : d.Bounded s) :
    ∀ a ∈ pageTrace k s d page, a.Inside s d.addr := by
  intro a ha
  rw [pageTrace] at ha
  split at ha
  · cases ha
  · rcases List.mem_append.mp ha with ha | ha
    · exact filterTrace_inside (Nat.le_of_eq h.size) _ a ha
    · split at ha
      · rcases List.mem_append.mp ha with ha | ha
        · exact chooseTrace_inside (r := filteredRegion k s d page) h.table a ha
        · refine textAccesses_inside (fun b hb => ?_) a ha
          have hinside := printLinesStores_inside _ 0 (Nat.zero_le _) hb
          have hsize := h.size
          omega
      · cases ha

/-- A page adds at most one handle, and only where there is room. -/
theorem nrHandles_dumpPageOwnerMd (h : d.Bounded s) (page : Page) :
    s.handles + 4 * (dumpPageOwnerMd k s d.region d.addr d.dumpSize page).1.nrHandles ≤
      s.mdPageownerDumpSize := by
  have htable := h.table
  have hsize : s.handles + s.pageOwnerHandlesSize = s.mdPageownerDumpSize :=
    Nat.sub_add_cancel s.handles_le
  obtain ⟨n, hn⟩ := s.handles_dvd
  obtain heq | ⟨c, hc, -, heq⟩ := dumpPageOwnerMd_cases k s d page
  · rw [heq]
    exact htable
  · rw [heq, hc]
    obtain ⟨-, hch⟩ | ⟨-, hch, -⟩ | ⟨-, hroom, hch⟩ | ⟨-, hch⟩ :=
      chooseKind_cases s (filteredRegion k s d page) d.addr page
    · rw [hch]
      exact htable
    · rw [hch]
      exact htable
    · rw [hch]
      have hroom : s.handles + 4 * d.region.nrHandles < s.mdPageownerDumpSize := hroom
      show s.handles + 4 * (d.region.nrHandles + 1) ≤ s.mdPageownerDumpSize
      omega
    · rw [hch]
      exact htable

/-- The text for a page is not longer than the rest of the region. -/
theorem dumpPageOwnerMd_le (k : Kernel) (s : Settings) (d : Dump) (page : Page) :
    (dumpPageOwnerMd k s d.region d.addr d.dumpSize page).2.1 ≤ d.dumpSize := by
  rcases Nat.eq_zero_or_pos d.dumpSize with hzero | hpos
  · obtain heq | ⟨c, -, -, heq⟩ := dumpPageOwnerMd_cases k s d page
    · rw [heq]
      exact Nat.zero_le _
    · rw [heq]
      have hnone := printLines_none (a := d.addr) (linesOf k page c.2) (Or.inl hzero) c.1.mem
      exact Nat.le_trans (Nat.le_of_eq hnone) (Nat.zero_le _)
  · exact Nat.le_of_lt (dumpPageOwnerMd_lt k s page hpos)

theorem Dump.Bounded.dumpPage (h : d.Bounded s) (page : Page) :
    (dumpPage k s d page).Bounded s := by
  have hle := dumpPageOwnerMd_le k s d page
  have hhandles := nrHandles_dumpPageOwnerMd (k := k) h page
  have hsize := h.size
  unfold MinidumpMemory.dumpPage
  split
  · exact h
  · dsimp only
    split
    · exact ⟨hsize, hhandles⟩
    · refine ⟨?_, hhandles⟩
      show d.addr + _ + (d.dumpSize - _) = s.mdPageownerDumpSize
      omega

end Inside

/-! ## Whole runs -/

section Run

variable {k : Kernel} {s : Settings} {d : Dump}

theorem Dump.Bounded.dumpPages (h : d.Bounded s) (pages : List Page) :
    (dumpPages k s d pages).Bounded s := by
  induction pages generalizing d with
  | nil => exact h
  | cons page pages ih => exact ih (h.dumpPage page)

/-- The cursor does not go back. -/
theorem addr_le_dumpPage (k : Kernel) (s : Settings) (d : Dump) (page : Page) :
    d.addr ≤ (dumpPage k s d page).addr := by
  unfold dumpPage
  split
  · exact Nat.le_refl _
  · dsimp only
    split
    · exact Nat.le_refl _
    · exact Nat.le_add_right _ _

theorem dumpTrace_inside (pages : List Page) : ∀ d : Dump, d.Bounded s →
    ∀ a ∈ dumpTrace k s d pages, a.Inside s d.addr := by
  induction pages with
  | nil => exact fun d _ a ha => absurd ha List.not_mem_nil
  | cons page pages ih =>
    intro d h a ha
    rcases List.mem_append.mp ha with ha | ha
    · exact pageTrace_inside h a ha
    · have hlater := ih _ (h.dumpPage page) a ha
      exact ⟨Nat.le_trans (addr_le_dumpPage k s d page) hlater.cursor_le, hlater.end_le,
        hlater.handles_le⟩

/-- Nothing is done any more when the region is full. -/
theorem dumpTrace_exhausted (hfull : d.exhausted = true) (pages : List Page) :
    dumpTrace k s d pages = [] := by
  induction pages with
  | nil => rfl
  | cons page pages ih =>
    have hpage : dumpPage k s d page = d := by
      rw [dumpPage, if_pos hfull]
    rw [dumpTrace, pageTrace, if_pos hfull, hpage, ih]
    rfl

/-- What comes behind a record is stored behind it. -/
theorem dumpTrace_behind (h : d.Bounded s) (page : Page) (pages : List Page) :
    ∀ a ∈ dumpTrace k s (dumpPage k s d page) pages,
      d.addr + (dumpPageOwnerMd k s d.region d.addr d.dumpSize page).2.1 ≤ a.start := by
  intro a ha
  have hinside := dumpTrace_inside pages _ (h.dumpPage page) a ha
  cases hfull : (dumpPage k s d page).exhausted with
  | true =>
    rw [dumpTrace_exhausted hfull] at ha
    cases ha
  | false =>
    refine Nat.le_trans (Nat.le_of_eq ?_) hinside.cursor_le
    unfold dumpPage at hfull ⊢
    split
    · rename_i hex
      rw [if_pos hex, hex] at hfull
      cases hfull
    · rename_i hex
      rw [if_neg hex] at hfull
      dsimp only at hfull ⊢
      split at hfull
      · cases hfull
      · rename_i hroom
        rw [if_neg hroom]

theorem dumpTrace_append (pages more : List Page) : ∀ d : Dump,
    dumpTrace k s d (pages ++ more) =
      dumpTrace k s d pages ++ dumpTrace k s (dumpPages k s d pages) more := by
  induction pages with
  | nil => exact fun d => rfl
  | cons page pages ih =>
    intro d
    rw [List.cons_append, dumpTrace, dumpTrace, ih, List.append_assoc]
    rfl

theorem start_bounded (s : Settings) (mem : Nat → UInt8) : (Dump.start s mem).Bounded s :=
  ⟨Nat.zero_add _, Nat.sub_le _ _⟩

end Run

/-- **The page owner dump stays in its region and only appends.**  For all settings and all pages:
every access is inside of the region, every access to a handle inside of the table, and behind the
record of any page there are no accesses before its end, so that its text stays what it is. -/
theorem pageOwner_appends (k : Kernel) (s : Settings) (mem : Nat → UInt8) (pages : List Page) :
    runAll mem (dumpTrace k s (Dump.start s mem) pages) =
        (dumpPages k s (Dump.start s mem) pages).region.mem ∧
      (∀ a ∈ dumpTrace k s (Dump.start s mem) pages,
        a.start + a.length ≤ s.mdPageownerDumpSize) ∧
      (∀ a ∈ dumpTrace k s (Dump.start s mem) pages, a.IsHandle →
        s.mdPageownerDumpSize - s.pageOwnerHandlesSize ≤ a.start) ∧
      ∀ before page after, pages = before ++ page :: after →
        let d := dumpPages k s (Dump.start s mem) before
        let n := (dumpPageOwnerMd k s d.region d.addr d.dumpSize page).2.1
        dumpTrace k s (Dump.start s mem) pages =
            dumpTrace k s (Dump.start s mem) before ++ pageTrace k s d page ++
              dumpTrace k s (dumpPage k s d page) after ∧
          (∀ a ∈ dumpTrace k s (dumpPage k s d page) after, d.addr + n ≤ a.start) ∧
          slice (dumpPages k s (Dump.start s mem) pages).region.mem 0 (d.addr + n) =
            slice (dumpPage k s d page).region.mem 0 (d.addr + n) := by
  have hstart := start_bounded s mem
  refine ⟨runAll_dumpTrace k s pages (Dump.start s mem), ?_, ?_, ?_⟩
  · intro a ha
    exact (dumpTrace_inside pages _ hstart a ha).end_le
  · intro a ha
    exact (dumpTrace_inside pages _ hstart a ha).handles_le
  · rintro before page after rfl
    have hbefore : (dumpPages k s (Dump.start s mem) before).Bounded s := hstart.dumpPages before
    have hbehind := dumpTrace_behind (k := k) hbefore page after
    refine ⟨?_, hbehind, ?_⟩
    · rw [dumpTrace_append, List.append_assoc]
      rfl
    · have hmem : (dumpPages k s (Dump.start s mem) (before ++ page :: after)).region.mem =
          runAll (dumpPage k s (dumpPages k s (Dump.start s mem) before) page).region.mem
            (dumpTrace k s (dumpPage k s (dumpPages k s (Dump.start s mem) before) page) after) := by
        rw [runAll_dumpTrace]
        exact congrArg (fun d : Dump => d.region.mem) List.foldl_append
      rw [hmem]
      refine slice_congr (fun i hi => runAll_below _ (fun a ha => ?_))
      have hle := hbehind a ha
      omega

end SafelinuxDbg.MinidumpMemory
