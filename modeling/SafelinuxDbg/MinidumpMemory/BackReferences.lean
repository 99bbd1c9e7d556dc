import SafelinuxDbg.MinidumpMemory.PageOwner

/-!
# The back references of the page owner dump

A back reference is of use when the stack it stands for is in the dump.  The table of handles says
so, as long as it holds what `found_stack` has stored; but it lies in the way of the text.  Two
texts come too close: a record that ends at the very start of the table puts its NUL on the first
handle, and the table is still looked at, and the lines that `check_unaccounted` prints for itself
may go over any number of handles.

* `TableKept`: neither happens at a page.
* `backReferences_sound`: in every run in which neither happens, each back reference comes behind a
  record with the same handle and its whole stack.
-/

namespace SafelinuxDbg.MinidumpMemory

open CMemory

/-! ## The law and its condition -/

/-- The text of a record with its stack. -/
def recordText (k : Kernel) (page : Page) : List UInt8 := (recordLines k page).flatten

/-- The record and its whole stack are in the memory, before `limit`. -/
structure Record.Whole (k : Kernel) (mem : Nat → UInt8) (limit : Nat) (r : Record) : Prop where
  kind : r.kind = .stack
  ends : r.offset + (recordText k r.page).length ≤ limit
  text : slice mem r.offset (recordText k r.page).length = recordText k r.page

/-- **Each back reference comes behind a record with the same handle and its whole stack.** -/
def Sound (k : Kernel) (mem : Nat → UInt8) (records : List Record) : Prop :=
  ∀ before r after, records = before ++ r :: after → r.kind = .backReference →
    ∃ f ∈ before, f.page.handle = r.page.handle ∧ f.Whole k mem r.offset

/-- `check_unaccounted` is called for the page, and goes over its stack. -/
def Checked (k : Kernel) (s : Settings) (page : Page) : Prop :=
  s.pageOwnerFilter ≠ 0xF ∧ s.pageOwnerFilter &&& 1 ≠ 0 ∧
    page.flags &&& (k.lru ||| k.slab ||| k.swapbacked) = 0

/-- The lines that `check_unaccounted` prints at `buf` for a stack end before the table: those of the
entries that it comes to. -/
def LinesBelow (k : Kernel) (s : Settings) (buf count : Nat) (m : Nat → UInt8)
    (entries : List UInt64) : Prop :=
  ∀ before entry after, entries = before ++ entry :: after →
    (checkEntries k s buf count m before).2 = true →
      buf + min (symbolLine k entry).length (count - 1) + 1 ≤ s.handles

/-- The kind of the record that a page gets, if it gets one. -/
def kindOf (k : Kernel) (s : Settings) (d : Dump) (page : Page) : Option RecordKind :=
  let f := passesFilter k s d.addr d.dumpSize page d.region.mem
  if f.2 then some (chooseKind s ⟨f.1, d.region.nrHandles⟩ d.addr page).2 else none

/-- **Nothing is printed over stored handles that are still looked up.** -/
structure TableKept (k : Kernel) (s : Settings) (d : Dump) (page : Page) : Prop where
  lines : d.addr ≤ s.handles → 0 < d.region.nrHandles → Checked k s page →
    LinesBelow k s d.addr d.dumpSize d.region.mem (k.stackDepotFetch page.handle)
  record : 0 < s.pageOwnerHandlesSize → ∀ kind ∈ kindOf k s d page,
    d.addr + (linesOf k page kind).flatten.length ≠ s.handles

/-! ## The filter -/

section Filter

variable {k : Kernel} {s : Settings} {buf count x : Nat} {page : Page}

theorem checkEntries_below (hx : x < buf) (entries : List UInt64) : ∀ m : Nat → UInt8,
    (checkEntries k s buf count m entries).1 x = m x := by
  induction entries with
  | nil => exact fun m => rfl
  | cons entry entries ih =>
    intro m
    have hline := scnprintf_below m count (symbolLine k entry) hx
    rw [checkEntries]
    split
    · exact hline
    · split
      · exact hline
      · exact (ih _).trans hline

theorem checkEntries_above (hx : s.handles ≤ x) (entries : List UInt64) : ∀ m : Nat → UInt8,
    LinesBelow k s buf count m entries → (checkEntries k s buf count m entries).1 x = m x := by
  induction entries with
  | nil => exact fun m _ => rfl
  | cons entry entries ih =>
    intro m h
    have hend := h [] entry entries rfl rfl
    have hline : (scnprintf m buf count (symbolLine k entry)).1 x = m x :=
      scnprintf_outside m (Or.inr (Nat.le_trans hend hx))
    rw [checkEntries]
    split
    case isTrue => exact hline
    case isFalse hfull =>
      split
      case isTrue => exact hline
      case isFalse hsite =>
        refine (ih _ (fun before e after heq hpass => ?_)).trans hline
        refine h (entry :: before) e after (congrArg (entry :: ·) heq) ?_
        rw [checkEntries, if_neg hfull, if_neg hsite]
        exact hpass

/-- Only `check_unaccounted` prints. -/
theorem filterLoop_mem (bits : List UInt64) : ∀ m : Nat → UInt8, 0x1 ∉ bits →
    (filterLoop k s buf count page bits m).1 = m := by
  induction bits with
  | nil => exact fun m _ => rfl
  | cons bit bits ih =>
    intro m h
    have hbit : bit ≠ 0x1 := fun heq => h (heq ▸ List.mem_cons_self)
    have hrest : 0x1 ∉ bits := fun hmem => h (List.mem_cons_of_mem _ hmem)
    have hcase : (filterCase k s buf count page bit m).1 = m := by
      unfold filterCase
      rw [if_neg hbit]
      repeat' split
      all_goals rfl
    unfold filterLoop
    split
    · rfl
    · split
      · dsimp only
        split
        · exact hcase
        · rw [hcase]
          exact ih m hrest
      · exact ih m hrest

/-- A stack that is gone over. -/
theorem passesFilter_checked (h : Checked k s page) (buf count : Nat) (m : Nat → UInt8) :
    (passesFilter k s buf count page m).1 =
      (checkEntries k s buf count m (k.stackDepotFetch page.handle)).1 := by
  obtain ⟨hF, hodd, hflags⟩ := h
  have hrest : (0x1 : UInt64) ∉ [(0x2 : UInt64), 0x4, 0x8] := by decide
  have hbit : ¬ s.pageOwnerFilter < 0x1 := by
    intro hlt
    have hzero : s.pageOwnerFilter = 0 := by
      apply UInt64.toNat_inj.mp
      have hnat : s.pageOwnerFilter.toNat < 1 := UInt64.lt_iff_toNat_lt.mp hlt
      exact Nat.lt_one_iff.mp hnat
    rw [hzero] at hodd
    exact hodd UInt64.zero_and
  rw [passesFilter, if_neg hF, filterLoop, if_neg hbit, if_pos hodd, filterCase, if_pos rfl,
    checkUnaccounted, if_neg (not_not.mpr hflags)]
  dsimp only
  split
  · rfl
  · exact filterLoop_mem _ _ hrest

/-- A stack that is not. -/
theorem passesFilter_unchecked (h : ¬ Checked k s page) (buf count : Nat) (m : Nat → UInt8) :
    (passesFilter k s buf count page m).1 = m := by
  have hrest : (0x1 : UInt64) ∉ [(0x2 : UInt64), 0x4, 0x8] := by decide
  unfold passesFilter
  split
  case isTrue => rfl
  case isFalse hF =>
    unfold filterLoop
    split
    case isTrue => rfl
    case isFalse =>
      split
      case isFalse => exact filterLoop_mem _ m hrest
      case isTrue hodd =>
        have hflags : page.flags &&& (k.lru ||| k.slab ||| k.swapbacked) ≠ 0 :=
          fun hzero => h ⟨hF, hodd, hzero⟩
        rw [filterCase, if_pos rfl, checkUnaccounted, if_pos hflags]
        exact filterLoop_mem _ m hrest

theorem passesFilter_below (k : Kernel) (s : Settings) (count : Nat) (page : Page)
    (m : Nat → UInt8) (hx : x < buf) :
    (passesFilter k s buf count page m).1 x = m x := by
  by_cases hc : Checked k s page
  · rw [passesFilter_checked hc]
    exact checkEntries_below hx _ m
  · rw [passesFilter_unchecked hc]

theorem passesFilter_above (hx : s.handles ≤ x) {m : Nat → UInt8}
    (h : Checked k s page → LinesBelow k s buf count m (k.stackDepotFetch page.handle)) :
    (passesFilter k s buf count page m).1 x = m x := by
  by_cases hc : Checked k s page
  · rw [passesFilter_checked hc]
    exact checkEntries_above hx _ m (h hc)
  · rw [passesFilter_unchecked hc]

end Filter

/-! ## The table -/

/-- What `chooseKind` can do. -/
theorem chooseKind_cases (s : Settings) (r : Region) (buf : Nat) (page : Page) :
    (s.handles < buf ∧ chooseKind s r buf page = (r, .stack)) ∨
    (buf ≤ s.handles ∧ chooseKind s r buf page = (r, .backReference) ∧
      ∃ i, i < r.nrHandles ∧ read32 r.mem (s.handles + 4 * i) = page.handle) ∨
    (buf ≤ s.handles ∧ s.handles + 4 * r.nrHandles < s.mdPageownerDumpSize ∧
      chooseKind s r buf page = (⟨write32 r.mem (s.handles + 4 * r.nrHandles) page.handle,
        r.nrHandles + 1⟩, .stack)) ∨
    (buf ≤ s.handles ∧ chooseKind s r buf page = (r, .stack)) := by
  unfold chooseKind foundStack
  split
  case isTrue hbuf => exact Or.inl ⟨hbuf, rfl⟩
  case isFalse hbuf =>
    have hbuf := Nat.not_lt.mp hbuf
    split
    case isTrue hfound =>
      obtain ⟨i, hi, heq⟩ := List.any_eq_true.mp hfound
      exact Or.inr (Or.inl ⟨hbuf, rfl, i, List.mem_range.mp hi, (eq_of_beq heq).symm⟩)
    case isFalse =>
      split
      case isTrue hroom => exact Or.inr (Or.inr (Or.inl ⟨hbuf, hroom, rfl⟩))
      case isFalse => exact Or.inr (Or.inr (Or.inr ⟨hbuf, rfl⟩))

theorem chooseKind_below (s : Settings) (r : Region) {buf x : Nat} (page : Page) (hx : x < buf) :
    (chooseKind s r buf page).1.mem x = r.mem x := by
  obtain ⟨-, h⟩ | ⟨-, h, -⟩ | ⟨hbuf, -, h⟩ | ⟨-, h⟩ := chooseKind_cases s r buf page
  · rw [h]
  · rw [h]
  · rw [h]
    exact writeLE_of_lt r.mem (by omega)
  · rw [h]

theorem Record.Whole.congr {k : Kernel} {m m' : Nat → UInt8} {limit limit' : Nat} {f : Record}
    (h : f.Whole k m limit) (hle : limit ≤ limit') (hm : ∀ x, x < limit → m' x = m x) :
    f.Whole k m' limit' where
  kind := h.kind
  ends := Nat.le_trans h.ends hle
  text := by
    refine (slice_congr (fun i hi => hm _ ?_)).trans h.text
    have hends := h.ends
    omega

/-- **The table holds what was printed**: each handle in it belongs to a whole record. -/
def TableSound (k : Kernel) (s : Settings) (r : Region) (records : List Record) (limit : Nat) :
    Prop :=
  s.handles + 4 * r.nrHandles ≤ s.mdPageownerDumpSize ∧
    ∀ i, i < r.nrHandles → ∃ f ∈ records,
      f.page.handle = read32 r.mem (s.handles + 4 * i) ∧ f.Whole k r.mem limit

section Table

variable {k : Kernel} {s : Settings} {r : Region} {records : List Record}
  {m' : Nat → UInt8} {limit limit' : Nat}

theorem TableSound.congr (h : TableSound k s r records limit) (more : List Record)
    (hle : limit ≤ limit')
    (hbelow : ∀ x, x < limit → m' x = r.mem x)
    (htable : ∀ x, s.handles ≤ x → x < s.handles + 4 * r.nrHandles → m' x = r.mem x) :
    TableSound k s ⟨m', r.nrHandles⟩ (records ++ more) limit' := by
  refine ⟨h.1, fun i hi => ?_⟩
  have hi : i < r.nrHandles := hi
  obtain ⟨f, hf, hhandle, hwhole⟩ := h.2 i hi
  refine ⟨f, List.mem_append_left _ hf, hhandle.trans ?_, hwhole.congr hle hbelow⟩
  exact read32_congr (fun j hj => (htable _ (by omega) (by omega)).symm)

/-- A handle stored behind the others, and its record behind the others. -/
theorem TableSound.push (h : TableSound k s r records limit) {f : Record} (hle : limit ≤ limit')
    (hroom : s.handles + 4 * r.nrHandles < s.mdPageownerDumpSize)
    (hbelow : ∀ x, x < limit → m' x = r.mem x)
    (htable : ∀ x, s.handles ≤ x →
      m' x = write32 r.mem (s.handles + 4 * r.nrHandles) f.page.handle x)
    (hf : f.Whole k m' limit') :
    TableSound k s ⟨m', r.nrHandles + 1⟩ (records ++ [f]) limit' := by
  have hsize : s.handles + s.pageOwnerHandlesSize = s.mdPageownerDumpSize :=
    Nat.sub_add_cancel s.handles_le
  obtain ⟨n, hn⟩ := s.handles_dvd
  have hold : TableSound k s ⟨m', r.nrHandles⟩ (records ++ [f]) limit' := by
    refine h.congr [f] hle hbelow (fun x hx hlt => (htable x hx).trans ?_)
    exact writeLE_of_lt r.mem hlt
  refine ⟨show s.handles + 4 * (r.nrHandles + 1) ≤ s.mdPageownerDumpSize by omega, fun i hi => ?_⟩
  have hi : i < r.nrHandles + 1 := hi
  by_cases hlast : i = r.nrHandles
  · refine ⟨f, List.mem_append_right _ (List.mem_singleton_self f), ?_, hf⟩
    rw [hlast, ← read32_writeLE_self r.mem (s.handles + 4 * r.nrHandles) f.page.handle]
    exact read32_congr (fun j _ => (htable _ (by omega)).symm)
  · exact hold.2 i (show i < r.nrHandles by omega)

theorem Sound.congr {mem : Nat → UInt8} {addr : Nat} (h : Sound k mem records)
    (hoffsets : ∀ r ∈ records, r.offset ≤ addr) (hbelow : ∀ x, x < addr → m' x = mem x) :
    Sound k m' records := by
  intro before e after heq hkind
  obtain ⟨f, hf, hhandle, hwhole⟩ := h before e after heq hkind
  have he := hoffsets e (heq ▸ List.mem_append_right _ List.mem_cons_self)
  exact ⟨f, hf, hhandle, hwhole.congr (Nat.le_refl _) (fun x hx => hbelow x (by omega))⟩

theorem Sound.append {mem : Nat → UInt8} (h : Sound k mem records) {e : Record}
    (hnew : e.kind = .backReference →
      ∃ f ∈ records, f.page.handle = e.page.handle ∧ f.Whole k mem e.offset) :
    Sound k mem (records ++ [e]) := by
  intro before r after heq hkind
  -- either `r` is the last record, or it was there before
  cases List.eq_nil_or_concat after with
  | inl hnil =>
    rw [hnil] at heq
    obtain ⟨hbefore, hlast⟩ := List.append_inj' heq rfl
    rw [List.singleton_inj] at hlast
    rw [← hlast] at hkind ⊢
    rw [← hbefore]
    exact hnew hkind
  | inr hmore =>
    obtain ⟨rest, last, hlast⟩ := hmore
    rw [hlast, List.concat_eq_append, ← List.cons_append, ← List.append_assoc] at heq
    exact h before r rest (List.append_inj' heq rfl).1 hkind

end Table

/-! ## One page -/

/-- What holds between two pages. -/
structure Dump.Inv (k : Kernel) (s : Settings) (d : Dump) : Prop where
  size : d.addr + d.dumpSize = s.mdPageownerDumpSize
  pos : 0 < d.dumpSize
  offsets : ∀ r ∈ d.records, r.offset ≤ d.addr
  sound : Sound k d.region.mem d.records
  table : d.exhausted = false → d.addr ≤ s.handles → TableSound k s d.region d.records d.addr

section Page

variable {k : Kernel} {s : Settings} {d : Dump} {page : Page}

/-- The text before `buf` is not touched. -/
theorem dumpPageOwnerMd_below (k : Kernel) (s : Settings) (r : Region) {buf x : Nat} (count : Nat)
    (page : Page) (hx : x < buf) :
    (dumpPageOwnerMd k s r buf count page).1.mem x = r.mem x := by
  unfold dumpPageOwnerMd
  dsimp only
  split
  · show (printLines _ buf count 0 _).1 x = r.mem x
    rw [printLines_kept _ _ _ (Or.inl hx), chooseKind_below s _ page hx]
    exact passesFilter_below k s count page r.mem hx
  · exact passesFilter_below k s count page r.mem hx

/-- The region when the filter has seen the page. -/
def filteredRegion (k : Kernel) (s : Settings) (d : Dump) (page : Page) : Region :=
  ⟨(passesFilter k s d.addr d.dumpSize page d.region.mem).1, d.region.nrHandles⟩

/-- The filter keeps the table. -/
theorem Dump.Inv.filtered (h : d.Inv k s) (hk : TableKept k s d page)
    (hgo : d.exhausted = false) (hle : d.addr ≤ s.handles) :
    TableSound k s (filteredRegion k s d page) d.records d.addr := by
  have htable := (h.table hgo hle).congr [] (Nat.le_refl _)
    (fun x hx => passesFilter_below k s d.dumpSize page d.region.mem hx)
    (fun x hx hlt => passesFilter_above hx (hk.lines hle (by omega)))
  rwa [List.append_nil] at htable

/-- What `dump_page_owner_md` can do. -/
theorem dumpPageOwnerMd_cases (k : Kernel) (s : Settings) (d : Dump) (page : Page) :
    dumpPageOwnerMd k s d.region d.addr d.dumpSize page = (filteredRegion k s d page, 0, none) ∨
    ∃ c, c = chooseKind s (filteredRegion k s d page) d.addr page ∧
      kindOf k s d page = some c.2 ∧
      dumpPageOwnerMd k s d.region d.addr d.dumpSize page =
        (⟨(printLines c.1.mem d.addr d.dumpSize 0 (linesOf k page c.2)).1, c.1.nrHandles⟩,
          (printLines c.1.mem d.addr d.dumpSize 0 (linesOf k page c.2)).2, some c.2) := by
  unfold dumpPageOwnerMd kindOf
  dsimp only
  split
  case isTrue => exact Or.inr ⟨_, rfl, rfl, rfl⟩
  case isFalse => exact Or.inl rfl

theorem dumpPageOwnerMd_lt (k : Kernel) (s : Settings) (page : Page) (hpos : 0 < d.dumpSize) :
    (dumpPageOwnerMd k s d.region d.addr d.dumpSize page).2.1 < d.dumpSize := by
  obtain h | ⟨c, -, -, h⟩ := dumpPageOwnerMd_cases k s d page
  · rw [h]
    exact hpos
  · rw [h]
    exact (printLines_bounds d.addr d.dumpSize (linesOf k page c.2) c.1.mem 0).2.2 hpos

/-- **A new back reference** stands for a record in the dump. -/
theorem Dump.Inv.backReference (h : d.Inv k s) (hk : TableKept k s d page)
    (hgo : d.exhausted = false)
    (hback : (dumpPageOwnerMd k s d.region d.addr d.dumpSize page).2.2 = some .backReference) :
    ∃ f ∈ d.records, f.page.handle = page.handle ∧
      f.Whole k (dumpPageOwnerMd k s d.region d.addr d.dumpSize page).1.mem d.addr := by
  obtain heq | ⟨c, hc, -, heq⟩ := dumpPageOwnerMd_cases k s d page
  · rw [heq] at hback
    cases hback
  · have hkind : c.2 = .backReference := by
      rw [heq] at hback
      exact Option.some.inj hback
    rw [hc] at hkind
    obtain ⟨-, hch⟩ | ⟨hle, -, i, hi, hread⟩ | ⟨-, -, hch⟩ | ⟨-, hch⟩ :=
      chooseKind_cases s (filteredRegion k s d page) d.addr page
    · rw [hch] at hkind
      cases hkind
    · obtain ⟨f, hf, hhandle, hwhole⟩ := (h.filtered hk hgo hle).2 i hi
      refine ⟨f, hf, hhandle.trans hread, hwhole.congr (Nat.le_refl _) (fun x hx => ?_)⟩
      rw [dumpPageOwnerMd_below k s d.region d.dumpSize page hx]
      exact (passesFilter_below k s d.dumpSize page d.region.mem hx).symm
    · rw [hch] at hkind
      cases hkind
    · rw [hch] at hkind
      cases hkind

theorem recordText_pos (k : Kernel) (page : Page) : 0 < (recordText k page).length := by
  rw [recordText, recordLines, List.flatten_cons, List.length_append, pageLine, List.length_append]
  show 0 < _ + 1 + _
  omega

/-- A record that is printed to its end. -/
theorem whole_of_printed {m m' : Nat → UInt8} {addr count n : Nat}
    (h : printLines m addr count 0 (recordLines k page) = (m', n))
    (hn : n = (recordText k page).length) :
    Record.Whole k m' (addr + n) ⟨page, .stack, addr⟩ where
  kind := rfl
  ends := hn ▸ Nat.le_refl _
  text := by
    have hslice := slice_printLines (a := addr) (recordLines k page) m 0
      (by rw [h, Nat.zero_add]; exact hn)
    rw [h] at hslice
    exact hslice

/-- The text of a page ends before the table, or the table is empty. -/
theorem TableKept.text_before_table (hk : TableKept k s d page) {kind : RecordKind}
    (hkind : kindOf k s d page = some kind)
    (hle : d.addr + (linesOf k page kind).flatten.length ≤ s.handles) :
    d.addr + (linesOf k page kind).flatten.length + 1 ≤ s.handles ∨
      s.handles = s.mdPageownerDumpSize := by
  have hsize : s.handles + s.pageOwnerHandlesSize = s.mdPageownerDumpSize :=
    Nat.sub_add_cancel s.handles_le
  by_cases hempty : s.pageOwnerHandlesSize = 0
  · omega
  · have hne := hk.record (by omega) kind hkind
    omega

/-- **The table after a record.** -/
theorem Dump.Inv.tableSound_record (h : d.Inv k s) (hk : TableKept k s d page)
    (hgo : d.exhausted = false) {c : Region × RecordKind} {m' : Nat → UInt8} {n : Nat}
    (hc : c = chooseKind s (filteredRegion k s d page) d.addr page)
    (hprinted : printLines c.1.mem d.addr d.dumpSize 0 (linesOf k page c.2) = (m', n))
    (hn : n = (linesOf k page c.2).flatten.length)
    (hend : d.addr + n + 1 ≤ s.handles ∨ s.handles = s.mdPageownerDumpSize)
    (hle : d.addr + n ≤ s.handles) :
    TableSound k s ⟨m', c.1.nrHandles⟩ (d.records ++ emitted page d.addr n (some c.2))
      (d.addr + n) := by
  have hfiltered := h.filtered hk hgo (Nat.le_trans (Nat.le_add_right _ _) hle)
  have hkept : ∀ x, x < d.addr ∨ d.addr + n + 1 ≤ x → m' x = c.1.mem x := by
    intro x hx
    have hprint : (printLines c.1.mem d.addr d.dumpSize 0 (linesOf k page c.2)).1 x = c.1.mem x :=
      printLines_kept _ _ _ (by rw [hprinted]; exact hx)
    rwa [hprinted] at hprint
  -- the table is as it was, whatever is printed
  have hsame : c.1 = filteredRegion k s d page →
      TableSound k s ⟨m', c.1.nrHandles⟩ (d.records ++ emitted page d.addr n (some c.2))
        (d.addr + n) := by
    intro hregion
    rw [hregion] at hkept ⊢
    refine hfiltered.congr _ (Nat.le_add_right d.addr n) (fun x hx => hkept x (Or.inl hx)) ?_
    intro x hx hlt
    have hroom := hfiltered.1
    exact hkept x (by omega)
  obtain ⟨hlt, -⟩ | ⟨-, hch, -⟩ | ⟨-, hstore, hch⟩ | ⟨-, hch⟩ :=
    chooseKind_cases s (filteredRegion k s d page) d.addr page
  · omega
  · exact hsame (hc ▸ congrArg Prod.fst hch)
  · -- the handle is new, and so is its record
    rw [hch] at hc
    cases hc
    have htext := recordText_pos k page
    have hn : n = (recordText k page).length := hn
    have hwhole : Record.Whole k m' (d.addr + n) ⟨page, .stack, d.addr⟩ :=
      whole_of_printed hprinted hn
    have hemitted : emitted page d.addr n (some .stack) = [⟨page, .stack, d.addr⟩] :=
      if_neg (by omega)
    rw [hemitted]
    refine hfiltered.push (Nat.le_add_right d.addr n) hstore (fun x hx => ?_) (fun x hx => ?_) hwhole
    · rw [hkept x (Or.inl hx)]
      exact writeLE_of_lt _ (by omega)
    · exact hkept x (Or.inr (by omega))
  · exact hsame (hc ▸ congrArg Prod.fst hch)

/-- **The table after a page.** -/
theorem Dump.Inv.tableSound (h : d.Inv k s) (hsmall : s.mdPageownerDumpSize < 2 ^ 31)
    (hk : TableKept k s d page) (hgo : d.exhausted = false) {r : Region × Nat × Option RecordKind}
    (hr : dumpPageOwnerMd k s d.region d.addr d.dumpSize page = r)
    (hroom : r.2.1 + 1 ≠ d.dumpSize) (hle : d.addr + r.2.1 ≤ s.handles) :
    TableSound k s r.1 (d.records ++ emitted page d.addr r.2.1 r.2.2) (d.addr + r.2.1) := by
  obtain heq | ⟨c, hc, hkind, heq⟩ := dumpPageOwnerMd_cases k s d page
  · rw [heq] at hr
    cases hr
    exact (List.append_nil d.records).symm ▸ h.filtered hk hgo hle
  · rw [heq] at hr
    cases hr
    have hsize := h.size
    have hn := printLines_whole (linesOf k page c.2) c.1.mem 0 (by omega) h.pos hroom
    rw [Nat.zero_add] at hn
    refine h.tableSound_record hk hgo hc rfl hn ?_ hle
    rw [hn] at hle ⊢
    exact hk.text_before_table hkind hle

/-- **One page keeps the invariant.** -/
theorem Dump.Inv.dumpPage (h : d.Inv k s) (hsmall : s.mdPageownerDumpSize < 2 ^ 31)
    (hk : d.exhausted = false → TableKept k s d page) : (dumpPage k s d page).Inv k s := by
  unfold MinidumpMemory.dumpPage
  split
  case isTrue => exact h
  case isFalse hgo =>
    have hgo := Bool.eq_false_iff.mpr hgo
    have hlt := dumpPageOwnerMd_lt k s page h.pos
    have hsize := h.size
    have hbelow : ∀ x, x < d.addr →
        (dumpPageOwnerMd k s d.region d.addr d.dumpSize page).1.mem x = d.region.mem x :=
      fun x hx => dumpPageOwnerMd_below k s d.region d.dumpSize page hx
    have hback := h.backReference (hk hgo) hgo
    have htable := h.tableSound hsmall (hk hgo) hgo rfl
    generalize dumpPageOwnerMd k s d.region d.addr d.dumpSize page = r at *
    have hoffsets : ∀ e ∈ d.records ++ emitted page d.addr r.2.1 r.2.2, e.offset ≤ d.addr := by
      intro e he
      cases List.mem_append.mp he with
      | inl hold => exact h.offsets e hold
      | inr hnew =>
        unfold emitted at hnew
        split at hnew
        · cases hnew
        · obtain ⟨kind, -, rfl⟩ := Option.map_eq_some_iff.mp (Option.mem_toList.mp hnew)
          exact Nat.le_refl _
    have hsound : Sound k r.1.mem (d.records ++ emitted page d.addr r.2.1 r.2.2) := by
      have hold := h.sound.congr h.offsets hbelow
      unfold emitted
      split
      · rwa [List.append_nil]
      · cases hkind : r.2.2 with
        | none => exact (List.append_nil d.records).symm ▸ hold
        | some kind => exact hold.append (fun hkb => hback (hkind.trans (congrArg some hkb)))
    dsimp only
    split
    case isTrue hfull =>
      exact ⟨hsize, h.pos, hoffsets, hsound, fun hex => Bool.noConfusion hex⟩
    case isFalse hroom =>
      refine ⟨?_, ?_, fun e he => ?_, hsound, fun _ hle => htable hroom hle⟩
      · show d.addr + r.2.1 + (d.dumpSize - r.2.1) = _
        omega
      · show 0 < d.dumpSize - r.2.1
        omega
      · exact Nat.le_trans (hoffsets e he) (Nat.le_add_right _ _)

end Page

/-! ## Whole runs -/

/-- **Nothing is printed over stored handles that are still looked up**, at any page of a run. -/
def TableKeptAlong (k : Kernel) (s : Settings) (d : Dump) (pages : List Page) : Prop :=
  ∀ before page after, pages = before ++ page :: after →
    (dumpPages k s d before).exhausted = false → TableKept k s (dumpPages k s d before) page

section Run

variable {k : Kernel} {s : Settings}

theorem Dump.Inv.dumpPages (hsmall : s.mdPageownerDumpSize < 2 ^ 31) (pages : List Page) :
    ∀ d : Dump, d.Inv k s → TableKeptAlong k s d pages → (dumpPages k s d pages).Inv k s := by
  induction pages with
  | nil => exact fun d h _ => h
  | cons page pages ih =>
    intro d h hk
    refine ih _ (h.dumpPage hsmall (hk [] page pages rfl)) (fun before p after heq hgo => ?_)
    exact hk (page :: before) p after (congrArg (page :: ·) heq) hgo

theorem start_inv (hpos : 0 < s.mdPageownerDumpSize) (mem : Nat → UInt8) :
    (Dump.start s mem).Inv k s where
  size := Nat.zero_add _
  pos := hpos
  offsets := fun _ hr => absurd hr List.not_mem_nil
  sound := fun _ _ after heq => absurd heq.symm (List.append_ne_nil_of_right_ne_nil _
    (List.cons_ne_nil _ after))
  table := fun _ _ => ⟨Nat.sub_le _ _, fun _ hi => absurd hi (Nat.not_lt_zero _)⟩

/-- Nothing is ever emitted to a region of no bytes, or of more than `INT_MAX`. -/
theorem dumpPages_none (hsize : s.mdPageownerDumpSize = 0 ∨ 2 ^ 31 ≤ s.mdPageownerDumpSize)
    (pages : List Page) : ∀ d : Dump, d.dumpSize = s.mdPageownerDumpSize → d.records = [] →
      (dumpPages k s d pages).records = [] := by
  induction pages with
  | nil => exact fun d _ hr => hr
  | cons page pages ih =>
    intro d hd hr
    have hnone : (dumpPageOwnerMd k s d.region d.addr d.dumpSize page).2.1 = 0 := by
      obtain heq | ⟨c, -, -, heq⟩ := dumpPageOwnerMd_cases k s d page
      · rw [heq]
      · rw [heq]
        exact printLines_none (linesOf k page c.2) (hd ▸ hsize) c.1.mem
    have hstep : (dumpPage k s d page).dumpSize = s.mdPageownerDumpSize ∧
        (dumpPage k s d page).records = [] := by
      unfold dumpPage
      split
      · exact ⟨hd, hr⟩
      · dsimp only
        rw [hnone, hr]
        split
        · exact ⟨hd, rfl⟩
        · exact ⟨hd, rfl⟩
    exact ih _ hstep.1 hstep.2

/-- **Back references are sound** in every run in which nothing is printed over stored handles that
are still looked up: for every region, table, filter and list of call sites, and for all pages. -/
theorem backReferences_sound (k : Kernel) (s : Settings) (mem : Nat → UInt8) (pages : List Page)
    (h : TableKeptAlong k s (Dump.start s mem) pages) :
    Sound k (dumpPages k s (Dump.start s mem) pages).region.mem
      (dumpPages k s (Dump.start s mem) pages).records := by
  by_cases hsize : s.mdPageownerDumpSize = 0 ∨ 2 ^ 31 ≤ s.mdPageownerDumpSize
  · rw [dumpPages_none hsize pages (Dump.start s mem) rfl rfl]
    exact fun _ _ after heq => absurd heq.symm
      (List.append_ne_nil_of_right_ne_nil _ (List.cons_ne_nil _ after))
  · exact (Dump.Inv.dumpPages (by omega) pages (Dump.start s mem) (start_inv (by omega) mem) h).sound

theorem TableKeptAlong.cons {d : Dump} {page : Page} {pages : List Page}
    (h : TableKept k s d page) (hrest : TableKeptAlong k s (dumpPage k s d page) pages) :
    TableKeptAlong k s d (page :: pages) := by
  intro before p after heq hgo
  cases before with
  | nil =>
    cases heq
    exact h
  | cons q before =>
    cases heq
    exact hrest before p after rfl hgo

theorem TableKeptAlong.nil {d : Dump} : TableKeptAlong k s d [] :=
  fun _ _ after heq => absurd heq.symm (List.append_ne_nil_of_right_ne_nil _
    (List.cons_ne_nil _ after))

end Run

/-- A kernel with stacks of one entry. -/
def oneEntryKernel : Kernel where
  stackDepotFetch := fun handle => [handle.toUInt64]
  pointerText := fun _ => asciiBytes "00000000c0ffee00".toList
  symbolText := fun _ => asciiBytes "alloc_pages+0x40/0x90".toList
  lru := 0x10
  slab := 0x200
  swapbacked := 0x80000

/-- A region of 256 bytes with a table for eight handles, and the filter for pages that are not
accounted. -/
def roomySettings : Settings where
  mdPageownerDumpSize := 256
  pageOwnerHandlesSize := 32
  pageOwnerFilter := 0x1
  accountedCallSites := []
  handles_dvd := by decide
  handles_le := by decide

/-- Two pages of one stack: the second refers back to the first. -/
theorem backReferences_sound_roomy :
    (dumpPages oneEntryKernel roomySettings (Dump.start roomySettings (fun _ => 0))
      [⟨1000, 0, 257⟩, ⟨1001, 0, 257⟩]).records.map (fun r => r.kind) = [.stack, .backReference] ∧
    Sound oneEntryKernel
      (dumpPages oneEntryKernel roomySettings (Dump.start roomySettings (fun _ => 0))
        [⟨1000, 0, 257⟩, ⟨1001, 0, 257⟩]).region.mem
      (dumpPages oneEntryKernel roomySettings (Dump.start roomySettings (fun _ => 0))
        [⟨1000, 0, 257⟩, ⟨1001, 0, 257⟩]).records := by
  refine ⟨by decide +kernel, backReferences_sound _ _ _ _ ?_⟩
  refine .cons ⟨fun _ hpos => absurd hpos (by decide), fun _ kind hkind => ?_⟩
    (.cons ⟨fun _ _ _ before entry after heq _ => ?_, fun _ kind hkind => ?_⟩ .nil)
  · cases (by decide +kernel : kindOf oneEntryKernel roomySettings
      (Dump.start roomySettings (fun _ => 0)) ⟨1000, 0, 257⟩ = some .stack).symm.trans hkind
    decide +kernel
  · have hline : (symbolLine oneEntryKernel entry).length = 22 := rfl
    rw [hline]
    decide +kernel
  · cases (by decide +kernel : kindOf oneEntryKernel roomySettings
      (dumpPage oneEntryKernel roomySettings (Dump.start roomySettings (fun _ => 0))
        ⟨1000, 0, 257⟩) ⟨1001, 0, 257⟩ = some .backReference).symm.trans hkind
    decide +kernel

/-- A region of 64 bytes with a table for nine handles, which starts where the first record ends. -/
def tightSettings : Settings where
  mdPageownerDumpSize := 64
  pageOwnerHandlesSize := 36
  pageOwnerFilter := 0xF
  accountedCallSites := []
  handles_dvd := by decide
  handles_le := by decide

/-- The NUL of the first record makes 256 of its handle 257, and the next page with the handle 256
refers back to a stack that is not in the dump. -/
theorem backReference_without_stack :
    ¬Sound oneEntryKernel
      (dumpPages oneEntryKernel tightSettings (Dump.start tightSettings (fun _ => 0))
        [⟨1000, 0, 257⟩, ⟨1001, 0, 256⟩]).region.mem
      (dumpPages oneEntryKernel tightSettings (Dump.start tightSettings (fun _ => 0))
        [⟨1000, 0, 257⟩, ⟨1001, 0, 256⟩]).records := by
  have hrecords : (dumpPages oneEntryKernel tightSettings (Dump.start tightSettings (fun _ => 0))
      [⟨1000, 0, 257⟩, ⟨1001, 0, 256⟩]).records =
        [⟨⟨1000, 0, 257⟩, .stack, 0⟩, ⟨⟨1001, 0, 256⟩, .backReference, 28⟩] := by decide +kernel
  rw [hrecords]
  intro h
  obtain ⟨f, hf, hhandle, -⟩ := h [⟨⟨1000, 0, 257⟩, .stack, 0⟩] _ [] rfl rfl
  rw [List.mem_singleton.mp hf] at hhandle
  exact absurd hhandle (by decide)

end SafelinuxDbg.MinidumpMemory
