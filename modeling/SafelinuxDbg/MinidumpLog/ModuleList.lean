import SafelinuxDbg.Lib.Lines
import SafelinuxDbg.Lib.SeqBuf
import SafelinuxDbg.Minidump.OrderlyCalls
import SafelinuxDbg.MinidumpLog.ModuleDump

/-!
# The list of modules

The region `KMODULES` is a text with a line for every module that becomes live: its name, its base and,
for a key module that is dumped, the names and addresses of its sections that are.  The memory of a key
module is registered page by page before the line ends, and the other clients of the driver come in
between.

A section of the line is to be found in the dump through its address, so it must be in one of the
pages.  Pages can be refused, and the line does not tell.

* `tiles_existsUnique`: an address in memory that was cut in pieces is in one piece.
* `listed_section_covered`: so is the address of a section that is listed.
* `modules_listed`: in every run, what the text holds and which pages are registered.
* `modules_read_back`: the text tells the modules, their bases and the sections.
-/

namespace SafelinuxDbg.MinidumpLog

open CMemory Minidump

/-! ## The functions -/

/-- The name of a module or of a section, which separates nothing in a line. -/
structure CleanName where
  text : List UInt8
  printable : Printable text
  noComma : (44 : UInt8) ∉ text
  noColon : (58 : UInt8) ∉ text

def CleanName.toCStr (n : CleanName) : CStr := ⟨n.text, n.printable.noNul⟩

theorem CleanName.ext_text {m n : CleanName} (h : m.text = n.text) : m = n := by
  cases m
  cases n
  cases h
  rfl

/-- `struct module_sect_attr`. -/
structure ModuleSection where
  name : CleanName
  address : UInt64

/-- What is read of a `struct module`. -/
structure KernelModule where
  name : CleanName
  base : UInt64
  roAfterInitSize : UInt32
  size : UInt32
  /-- `state == MODULE_STATE_LIVE` -/
  live : Bool
  sections : List ModuleSection

def KernelModule.layout (m : KernelModule) : ModuleLayout := ⟨m.name.toCStr, m.base, m.roAfterInitSize, m.size⟩

/-- The memory that is dumped of a key module. -/
def KernelModule.inDump (m : KernelModule) (s : ModuleSection) : Bool :=
  m.layout.dumpStart ≤ s.address && s.address < m.layout.dumpEnd

/-- A key module, for which there are enough regions. -/
def KernelModule.dumped (k : ModuleKernel) (m : KernelModule) (d : Driver) : Bool :=
  k.keyModules.contains m.layout.name && enoughRegions k m.layout d

/-- `name: %s, base: %lx`. -/
def moduleHead (m : KernelModule) : List UInt8 :=
  ascii "name: " ++ m.name.text ++ ascii ", base: " ++ hexadecimal m.base.toNat

/-- `, %s: %lx`. -/
def sectionText (s : ModuleSection) : List UInt8 :=
  ascii ", " ++ s.name.text ++ ascii ": " ++ hexadecimal s.address.toNat

/-- The loop over the sections. -/
def printSections (m : KernelModule) (buf : SeqBuf) : SeqBuf :=
  m.sections.foldl (fun buf s => if m.inDump s then buf.print (sectionText s) else buf) buf

/-- What `md_module_process` prints before the pages are registered. -/
def printModule (k : ModuleKernel) (m : KernelModule) (d : Driver) (buf : SeqBuf) : SeqBuf :=
  let buf := buf.print (moduleHead m)
  if m.dumped k d then printSections m buf else buf

/-- Memory that was just returned by `kzalloc`. -/
structure ClearedBuffer where
  mem : Nat → UInt8
  addr : Nat
  cleared : mem addr = 0

/-- The region that `md_register_panic_entries` submits. -/
def panicEntry (cfg : Config) (numPages : Nat) (name : CStr) (id : UInt32) (phys : UInt64) (b : ClearedBuffer) :
    MdRegion :=
  ⟨name.truncate cfg.maxNameLength, id, UInt64.ofNat b.addr, phys, UInt64.ofNat numPages * pageSize⟩

/-- `md_register_panic_entries`, with the two allocations: the buffer that is published.  What was
allocated is freed again on a failure. -/
def mdRegisterPanicEntries (cfg : Config) (alloc : Bool) (buf : Option ClearedBuffer) (seqBuf : Bool)
    (numPages : Nat) (name : CStr) (id : UInt32) (phys : UInt64) (d : Driver) :
    Driver × Except Errno ClearedBuffer :=
  match buf, seqBuf with
  | some b, true =>
    match msmMinidumpAddRegion cfg alloc (panicEntry cfg numPages name id phys b) d with
    | (d, .ok _) => (d, .ok b)
    | (d, .error e) => (d, .error e)
  | _, _ => (d, .error .EINVAL)

/-- The first line of the text. -/
def moduleInfo : List UInt8 := ascii "=== MODULE INFO ===\n"

/-! ## Runs -/

/-- The list of modules and the driver with its other clients.  `left` are the pages of the module at
work, while the lock is held. -/
structure ModuleList where
  buf : SeqBuf
  client : Client
  left : Option (List (Bool × MdRegion))

inductive ModuleEvent
  /-- the notifier, up to the loop of `register_vmap_mem` -/
  | notify (k : ModuleKernel) (m : KernelModule)
  /-- one round of the loop -/
  | page
  /-- the end of the line -/
  | finish
  | call (c : Call)

/-- `md_module_notify`, cut at the calls of the driver.  The number of a region is thrown away. -/
def ModuleList.step (cfg : Config) (s : ModuleList) : ModuleEvent → Option ModuleList
  | .notify k m =>
    match s.left with
    | some _ => none
    | none =>
      if m.live then
        some { s with
          buf := printModule k m s.client.driver s.buf
          left := some (mdModuleProcess cfg { k with modInfo := true } m.layout s.client.driver) }
      else some s
  | .page =>
    match s.left with
    | some ((alloc, e) :: left) =>
      some { s with
        client := { s.client with driver := (msmMinidumpAddRegion cfg alloc e s.client.driver).1 }
        left := some left }
    | _ => none
  | .finish =>
    match s.left with
    | some [] => some { s with buf := s.buf.print (ascii "\n"), left := none }
    | _ => none
  | .call c => some { s with client := s.client.step cfg c }

/-- What a line shows. -/
structure ModuleLine where
  name : CleanName
  base : UInt64
  sections : List ModuleSection

def ModuleLine.text (l : ModuleLine) : List UInt8 :=
  ascii "name: " ++ l.name.text ++ ascii ", base: " ++ hexadecimal l.base.toNat ++
    l.sections.flatMap sectionText

/-- A module of the list, with its pages. -/
structure ModuleRow where
  line : ModuleLine
  regions : List MdRegion

/-- The modules so far, and the pages that were submitted, each with whether it was taken. -/
structure ModuleLog where
  rows : List ModuleRow
  pages : List (MdRegion × Bool)

/-- The row of a module. -/
def KernelModule.row (cfg : Config) (k : ModuleKernel) (m : KernelModule) (d : Driver) : ModuleRow where
  line := ⟨m.name, m.base, if m.dumped k d then m.sections.filter m.inDump else []⟩
  regions := (mdModuleProcess cfg { k with modInfo := true } m.layout d).map Prod.snd

def noteModule (cfg : Config) (s : ModuleList) (event : ModuleEvent) (_ : ModuleList) (log : ModuleLog) :
    ModuleLog :=
  match event with
  | .notify k m => if m.live then { log with rows := log.rows ++ [m.row cfg k s.client.driver] } else log
  | .page =>
    match s.left with
    | some ((_, e) :: _) =>
      { log with pages := log.pages ++ [(e, decide (AddsTo cfg (registered s.client.driver) e))] }
    | _ => log
  | .finish => log
  | .call _ => log

/-- `seq_buf_init` of `MD_MODULE_PAGES` pages. -/
def ClearedBuffer.moduleBuf (b : ClearedBuffer) : SeqBuf :=
  SeqBuf.init b.mem b.addr (8 * 4096) (by decide) (by decide) b.cleared

/-- The end of `md_register_module_data`, when all went well. -/
def AfterModuleData (cfg : Config) (p : Platform) (b : ClearedBuffer) (s : ModuleList) : Prop :=
  ∃ client, (smemClients cfg p (· = [])).Reach (RemovableCall cfg) client ∧
    ∃ alloc id phys d,
      mdRegisterPanicEntries cfg alloc (some b) true 8 (CStr.ofString "KMODULES") id phys client.driver =
        (d, .ok b) ∧ d.numRegions ≤ 197 ∧
      s = ⟨b.moduleBuf.print moduleInfo, { client with driver := d }, none⟩

/-- **The list of modules**, with a record of what it is made of. -/
def moduleList (cfg : Config) (p : Platform) (b : ClearedBuffer) : Machine (ModuleList × ModuleLog) ModuleEvent :=
  Machine.recording { init := AfterModuleData cfg p b, step := fun s event => s.step cfg event }
    (noteModule cfg) ⟨[], []⟩

/-- The header buffer has room for the pages, and the other clients keep to their rules and away from the
pages that are registered. -/
def ModuleOk (cfg : Config) (x : ModuleList × ModuleLog) : ModuleEvent → Prop
  | .notify _ _ | .finish => True
  | .page => ∀ t, x.1.step cfg .page = some t → t.client.driver.numRegions ≤ 197
  | .call c => RemovableCall cfg x.1.client c ∧
      match c with
      | .add _ _ => True
      | .update _ e | .remove e => ∀ page ∈ x.2.pages, page.2 = true → page.1.name ≠ e.name

/-! ## The pages of a section -/

section Cover

variable {es : List VmapEntry} {a b x : Nat}

/-- The address is in the piece. -/
def Covers (e : MdRegion) (x : Nat) : Prop :=
  e.virtAddr.toNat ≤ x ∧ x < e.virtAddr.toNat + e.size.toNat

/-- Pieces do not start before the memory. -/
theorem Tiles.le_start (h : Tiles es a b) : ∀ e ∈ es, a ≤ e.virtAddr.toNat := by
  induction es generalizing a with
  | nil => exact List.forall_mem_nil _
  | cons e es ih =>
    obtain ⟨hstart, -, hrest⟩ := h
    refine List.forall_mem_cons.mpr ⟨Nat.le_of_eq hstart.symm, ?_⟩
    intro e' he'
    exact Nat.le_trans (Nat.le_add_right _ _) (ih hrest e' he')

/-- **An address is in one piece.** -/
theorem tiles_existsUnique (h : Tiles es a b) (hlow : a ≤ x) (hhigh : x < b) :
    ∃! i : Nat, ∃ e : VmapEntry, es[i]? = some e ∧ e.virtAddr.toNat ≤ x ∧ x < e.virtAddr.toNat + e.size.toNat := by
  induction es generalizing a with
  | nil =>
    have hab : a = b := h
    omega
  | cons e es ih =>
    obtain ⟨hstart, hpos, hrest⟩ := h
    by_cases hfirst : x < a + e.size.toNat
    · refine ⟨0, ⟨e, rfl, by omega, by omega⟩, ?_⟩
      rintro i ⟨e', he', hlow', -⟩
      cases i with
      | zero => rfl
      | succ i =>
        have hafter := hrest.le_start e' (List.mem_of_getElem? he')
        omega
    · obtain ⟨i, ⟨e', he', hcovers⟩, hunique⟩ := ih hrest (Nat.not_lt.mp hfirst)
      refine ⟨i + 1, ⟨e', he', hcovers⟩, ?_⟩
      rintro j ⟨e'', he'', hlow', hhigh'⟩
      cases j with
      | zero =>
        cases he''
        omega
      | succ j => exact congrArg Nat.succ (hunique j ⟨e'', he'', hlow', hhigh'⟩)

end Cover

section Sections

variable {cfg : Config} {k : ModuleKernel} {m : KernelModule} {d : Driver}

theorem mdModuleProcess_eq : mdModuleProcess cfg { k with modInfo := true } m.layout d =
    if m.dumped k d then moduleRegions cfg k m.layout else [] := rfl

/-- The pages of a module that is dumped. -/
theorem row_regions_getElem? (hdumped : m.dumped k d = true) (i : Nat) : (m.row cfg k d).regions[i]? =
    ((registerVmapMem k.frame m.layout.name m.layout.dumpStart m.layout.dumpLen)[i]?).map
      (mdRegisterMinidumpEntry cfg (k.id i)) := by
  rw [KernelModule.row]
  dsimp only
  rw [mdModuleProcess_eq, if_pos hdumped, moduleRegions, List.getElem?_map,
    List.getElem?_mapIdx, Option.map_map]
  rfl

/-- **A section that is listed is in one of the pages.** -/
theorem listed_section_covered {s : ModuleSection} (hs : s ∈ (m.row cfg k d).line.sections) :
    ∃! i : Nat, ∃ e, (m.row cfg k d).regions[i]? = some e ∧ Covers e s.address.toNat := by
  rw [KernelModule.row] at hs
  dsimp only at hs
  split at hs
  case isFalse => cases hs
  case isTrue hdumped =>
    obtain ⟨-, hin⟩ := List.mem_filter.mp hs
    rw [KernelModule.inDump, Bool.and_eq_true, decide_eq_true_eq, decide_eq_true_eq,
      UInt64.le_iff_toNat_le, UInt64.lt_iff_toNat_lt] at hin
    have hlen : m.layout.dumpLen.toNat = m.layout.dumpEnd.toNat - m.layout.dumpStart.toNat := by
      apply UInt64.toNat_sub_of_le
      rw [UInt64.le_iff_toNat_le]
      omega
    have hend := m.layout.dumpEnd.toNat_lt
    have htiles : Tiles (registerVmapMem k.frame m.layout.name m.layout.dumpStart m.layout.dumpLen)
        m.layout.dumpStart.toNat (m.layout.dumpStart.toNat + m.layout.dumpLen.toNat) :=
      vmapLoop_tiles (by omega)
    obtain ⟨i, ⟨e, he, hcovers⟩, hunique⟩ :=
      tiles_existsUnique htiles (x := s.address.toNat) hin.1 (by omega)
    refine ⟨i, ⟨mdRegisterMinidumpEntry cfg (k.id i) e, ?_, hcovers⟩, ?_⟩
    · rw [row_regions_getElem? hdumped, he]
      rfl
    · rintro j ⟨e', he', hcovers'⟩
      rw [row_regions_getElem? hdumped] at he'
      obtain ⟨e, he, rfl⟩ := Option.map_eq_some_iff.mp he'
      exact hunique j ⟨e, he, hcovers'⟩

end Sections

/-! ## The text -/

section Text

variable {k : ModuleKernel} {m : KernelModule} {d : Driver} {cfg : Config}

theorem printSections_eq (m : KernelModule) (buf : SeqBuf) :
    printSections m buf = buf.print ((m.sections.filter m.inDump).flatMap sectionText) := by
  rw [printSections]
  induction m.sections generalizing buf with
  | nil => exact (SeqBuf.print_nil buf).symm
  | cons s sections ih =>
    rw [List.foldl_cons, ih]
    by_cases hin : m.inDump s = true
    · rw [if_pos hin, List.filter_cons_of_pos hin, List.flatMap_cons, SeqBuf.print_append]
    · rw [if_neg hin, List.filter_cons_of_neg hin]

/-- **A module is printed as its line**, without the line feed. -/
theorem printModule_eq (cfg : Config) (k : ModuleKernel) (m : KernelModule) (d : Driver) (buf : SeqBuf) :
    printModule k m d buf = buf.print (m.row cfg k d).line.text := by
  rw [printModule, KernelModule.row, ModuleLine.text, moduleHead]
  dsimp only
  split
  · rw [printSections_eq, SeqBuf.print_append]
  · rw [List.flatMap_nil, List.append_nil]

theorem printable_sectionText (s : ModuleSection) : Printable (sectionText s) := by
  rw [sectionText]
  simp only [printable_append]
  exact ⟨⟨⟨by decide, s.name.printable⟩, by decide⟩, printable_hexadecimal _⟩

theorem printable_line (l : ModuleLine) : Printable l.text := by
  rw [ModuleLine.text]
  simp only [printable_append]
  refine ⟨⟨⟨⟨by decide, l.name.printable⟩, by decide⟩, printable_hexadecimal _⟩, ?_⟩
  intro b hb
  obtain ⟨s, -, hs⟩ := List.mem_flatMap.mp hb
  exact printable_sectionText s b hs

/-- A text up to its first comma, or all of it. -/
theorem before_comma_inj {s t r q : List UInt8} (hs : (44 : UInt8) ∉ s) (ht : (44 : UInt8) ∉ t)
    (hr : ∀ b ∈ r.head?, b = 44) (hq : ∀ b ∈ q.head?, b = 44) (h : s ++ r = t ++ q) : s = t ∧ r = q := by
  have hbefore : ∀ {s r : List UInt8}, (44 : UInt8) ∉ s → (∀ b ∈ r.head?, b = 44) →
      (s ++ r).takeWhile (· ≠ 44) = s := by
    intro s r hs hr
    have hall : ∀ b ∈ s, decide (b ≠ 44) = true := fun b hb => decide_eq_true (fun heq => hs (heq ▸ hb))
    rw [List.takeWhile_append_of_pos hall]
    cases r with
    | nil => rw [List.takeWhile_nil, List.append_nil]
    | cons b r =>
      rw [List.takeWhile_cons_of_neg (by rw [hr b rfl]; decide), List.append_nil]
  have hsame : s = t := by rw [← hbefore hs hr, h, hbefore ht hq]
  subst hsame
  exact ⟨rfl, List.append_cancel_left h⟩

theorem head?_sections (l : List ModuleSection) : ∀ b ∈ (l.flatMap sectionText).head?, b = 44 := by
  intro b hb
  cases l with
  | nil => cases hb
  | cons s l =>
    cases hb
    rfl

theorem noComma_hexadecimal (n : Nat) : (44 : UInt8) ∉ hexadecimal n := by
  intro h
  have hrange := mem_hexadecimal h
  revert hrange
  decide

theorem uint64_of_hexadecimal {a b : UInt64} (h : hexadecimal a.toNat = hexadecimal b.toNat) : a = b :=
  UInt64.toNat_inj.mp (hexadecimal_injective h)

/-- The sections are told from their text. -/
theorem sections_injective : ∀ {l l' : List ModuleSection},
    l.flatMap sectionText = l'.flatMap sectionText → l = l'
  | [], [], _ => rfl
  | [], s :: l', h => by
    rw [List.flatMap_nil, List.flatMap_cons, sectionText] at h
    cases h
  | s :: l, [], h => by
    rw [List.flatMap_nil, List.flatMap_cons, sectionText] at h
    cases h
  | s :: l, s' :: l', h => by
    have hcolon : ∀ s : ModuleSection, ∀ rest, sectionText s ++ rest =
        ascii ", " ++ (s.name.text ++ 58 :: (ascii " " ++ (hexadecimal s.address.toNat ++ rest))) := by
      intro s rest
      simp only [sectionText, List.append_assoc]
      rfl
    rw [List.flatMap_cons, List.flatMap_cons, hcolon, hcolon] at h
    obtain ⟨hname, hrest⟩ := append_sep_inj s.name.noColon s'.name.noColon (List.append_cancel_left h)
    obtain ⟨haddress, hmore⟩ := before_comma_inj (noComma_hexadecimal _) (noComma_hexadecimal _)
      (head?_sections l) (head?_sections l') (List.append_cancel_left hrest)
    rw [sections_injective hmore]
    obtain ⟨name, address⟩ := s
    obtain ⟨name', address'⟩ := s'
    cases CleanName.ext_text hname
    cases uint64_of_hexadecimal haddress
    rfl

/-- **A line tells its module.** -/
theorem line_injective : Function.Injective ModuleLine.text := by
  intro l l' h
  have hcomma : ∀ l : ModuleLine, l.text = ascii "name: " ++ (l.name.text ++
      44 :: (ascii " base: " ++ (hexadecimal l.base.toNat ++ l.sections.flatMap sectionText))) := by
    intro l
    simp only [ModuleLine.text, List.append_assoc]
    rfl
  rw [hcomma, hcomma] at h
  obtain ⟨hname, hrest⟩ := append_sep_inj l.name.noComma l'.name.noComma (List.append_cancel_left h)
  obtain ⟨hbase, hsections⟩ := before_comma_inj (noComma_hexadecimal _) (noComma_hexadecimal _)
    (head?_sections _) (head?_sections _) (List.append_cancel_left hrest)
  obtain ⟨name, base, sections⟩ := l
  obtain ⟨name', base', sections'⟩ := l'
  cases CleanName.ext_text hname
  cases uint64_of_hexadecimal hbase
  cases sections_injective hsections
  rfl

end Text

/-! ## Every run -/

/-- What every event keeps. -/
structure Listing (cfg : Config) (p : Platform) (b : ClearedBuffer) (s : ModuleList) (log : ModuleLog) :
    Prop where
  orderly : Orderly cfg p s.client
  /-- the last line has no line feed yet while its module is at work -/
  text : ∃ t, s.buf = b.moduleBuf.print (moduleInfo ++ t) ∧
    (if s.left.isSome then t ++ [10] else t) = joinLines (log.rows.map fun row => row.line.text)
  covered : ∀ row ∈ log.rows, ∀ sec ∈ row.line.sections,
    ∃! i : Nat, ∃ e, row.regions[i]? = some e ∧ Covers e sec.address.toNat
  pages : log.rows.flatMap ModuleRow.regions =
    log.pages.map Prod.fst ++ (s.left.getD []).map Prod.snd
  taken : ∀ page ∈ log.pages, page.2 = true → page.1 ∈ registered s.client.driver

section Steps

variable {cfg : Config} {p : Platform} {b : ClearedBuffer} {s t : ModuleList} {log : ModuleLog}

/-- **A module becomes live**: its line is begun, and its pages are to be submitted. -/
theorem Listing.notify (h : Listing cfg p b s log) (hleft : s.left = none) (k : ModuleKernel)
    (m : KernelModule) :
    Listing cfg p b
      { s with
        buf := printModule k m s.client.driver s.buf
        left := some (mdModuleProcess cfg { k with modInfo := true } m.layout s.client.driver) }
      { log with rows := log.rows ++ [m.row cfg k s.client.driver] } := by
  obtain ⟨text, hbuf, hlines⟩ := h.text
  have hpages := h.pages
  rw [hleft] at hlines hpages
  refine ⟨h.orderly, ⟨text ++ (m.row cfg k s.client.driver).line.text, ?_, ?_⟩, ?_, ?_, h.taken⟩
  · dsimp only
    rw [printModule_eq cfg, hbuf, SeqBuf.print_append, List.append_assoc]
  · have htext : text = joinLines (log.rows.map fun row => row.line.text) := hlines
    dsimp only
    rw [Option.isSome_some, if_pos rfl, List.map_append, List.map_singleton, joinLines_append, joinLines_cons, joinLines_nil,
      htext, List.append_assoc]
  · intro row hrow
    rcases List.mem_append.mp hrow with hold | hnew
    · exact h.covered row hold
    · cases List.mem_singleton.mp hnew
      exact fun sec hsec => listed_section_covered hsec
  · dsimp only
    rw [List.flatMap_append, hpages, List.flatMap_cons, List.flatMap_nil]
    simp only [Option.getD_none, Option.getD_some, List.map_nil, List.append_nil, KernelModule.row]

/-- **A page is submitted.** -/
theorem Listing.page (h : Listing cfg p b s log) {alloc : Bool} {e : MdRegion}
    {left : List (Bool × MdRegion)} (hleft : s.left = some ((alloc, e) :: left))
    (hroom : (msmMinidumpAddRegion cfg alloc e s.client.driver).1.numRegions ≤ 197) :
    Listing cfg p b
      { s with
        client := { s.client with driver := (msmMinidumpAddRegion cfg alloc e s.client.driver).1 }
        left := some left }
      { log with pages := log.pages ++ [(e, decide (AddsTo cfg (registered s.client.driver) e))] } := by
  obtain ⟨horderly, hregions⟩ := h.orderly.addRegion alloc e hroom
  have htext := h.text
  have hpages := h.pages
  rw [hleft] at htext hpages
  have hkept : ∀ x ∈ registered s.client.driver,
      x ∈ registered (msmMinidumpAddRegion cfg alloc e s.client.driver).1 := by
    intro x hx
    rw [hregions]
    split
    · exact List.mem_append_left _ hx
    · exact hx
  refine ⟨horderly, htext, h.covered, ?_, ?_⟩
  · dsimp only
    rw [hpages]
    simp only [Option.getD_some, List.map_cons, List.map_append, List.map_nil, List.append_assoc,
      List.cons_append, List.nil_append]
  · intro page hpage htaken
    rcases List.mem_append.mp hpage with hold | hnew
    · exact hkept _ (h.taken page hold htaken)
    · cases List.mem_singleton.mp hnew
      have hadds : AddsTo cfg (registered s.client.driver) e := of_decide_eq_true htaken
      show e ∈ registered (msmMinidumpAddRegion cfg alloc e s.client.driver).1
      rw [hregions, if_pos hadds]
      exact List.mem_append_right _ List.mem_cons_self

/-- **One event**, of any kind. -/
theorem Listing.step (h : Listing cfg p b s log) {event : ModuleEvent} (hok : ModuleOk cfg (s, log) event)
    (hstep : s.step cfg event = some t) : Listing cfg p b t (noteModule cfg s event t log) := by
  cases event with
  | notify k m =>
    rw [ModuleList.step] at hstep
    cases hleft : s.left with
    | some left =>
      rw [hleft] at hstep
      cases hstep
    | none =>
      rw [hleft] at hstep
      rw [noteModule]
      dsimp only at hstep ⊢
      by_cases hlive : m.live = true
      · rw [if_pos hlive] at hstep ⊢
        cases hstep
        exact h.notify hleft k m
      · rw [if_neg hlive] at hstep ⊢
        cases hstep
        exact h
  | page =>
    have hroom := hok t hstep
    rw [ModuleList.step] at hstep
    rw [noteModule]
    dsimp only at hstep ⊢
    split at hstep
    case h_2 => cases hstep
    case h_1 alloc e left hleft =>
      cases hstep
      exact h.page hleft hroom
  | finish =>
    rw [ModuleList.step] at hstep
    split at hstep
    case h_2 => cases hstep
    case h_1 hleft =>
      cases hstep
      obtain ⟨text, hbuf, hlines⟩ := h.text
      have hpages := h.pages
      rw [hleft] at hlines hpages
      refine ⟨h.orderly, ⟨text ++ [10], ?_, hlines⟩, h.covered, hpages, h.taken⟩
      dsimp only
      rw [hbuf, SeqBuf.print_append, List.append_assoc]
      rfl
  | call c =>
    obtain ⟨hcall, hother⟩ := hok
    cases hstep
    refine ⟨h.orderly.call hcall, h.text, h.covered, h.pages, ?_⟩
    intro page hpage htaken
    refine h.orderly.mem_call hcall (h.taken page hpage htaken) ?_
    cases c with
    | add alloc e => trivial
    | update n e => exact hother page hpage htaken
    | remove e => exact hother page hpage htaken

/-- A registration that succeeds has added its region. -/
theorem mdRegisterPanicEntries_driver {alloc seqBuf : Bool} {buf : ClearedBuffer} {numPages : Nat} {name : CStr}
    {id : UInt32} {phys : UInt64} {d d' : Driver}
    (h : mdRegisterPanicEntries cfg alloc (some buf) seqBuf numPages name id phys d = (d', .ok b)) :
    d' = (msmMinidumpAddRegion cfg alloc (panicEntry cfg numPages name id phys buf) d).1 := by
  cases seqBuf with
  | false => cases h
  | true =>
    simp only [mdRegisterPanicEntries] at h
    split at h
    case h_1 heq =>
      rw [heq]
      exact (congrArg Prod.fst h).symm
    case h_2 => cases h

theorem listing_reach {x : ModuleList × ModuleLog} (hx : (moduleList cfg p b).Reach (ModuleOk cfg) x) :
    Listing cfg p b x.1 x.2 := by
  refine hx.invariant (I := fun x => Listing cfg p b x.1 x.2) ?_ ?_
  · rintro ⟨s, log⟩ ⟨⟨client, hreach, alloc, id, phys, d, hregister, hroom, rfl⟩, rfl⟩
    obtain rfl := mdRegisterPanicEntries_driver hregister
    obtain ⟨horderly, -⟩ := (orderly_reach hreach).addRegion alloc _ hroom
    refine ⟨horderly, ⟨[], ?_, rfl⟩, List.forall_mem_nil _, rfl, List.forall_mem_nil _⟩
    rw [List.append_nil]
  · rintro ⟨s, log⟩ event ⟨t, log'⟩ h hok hstep
    obtain ⟨hstep, hnote⟩ := Machine.recording_step hstep
    dsimp only at hnote ⊢
    rw [hnote]
    exact h.step hok hstep

theorem noNul_moduleText (rows : List ModuleRow) :
    NoNul (moduleInfo ++ joinLines (rows.map fun row => row.line.text)) := by
  refine noNul_append.mpr ⟨by decide, noNul_joinLines ?_⟩
  intro l hl
  obtain ⟨row, -, rfl⟩ := List.mem_map.mp hl
  exact (printable_line row.line).noNul

/-- What the buffer holds between two modules. -/
theorem Listing.contents (h : Listing cfg p b s log) (hleft : s.left = none) : s.buf.contents =
    (moduleInfo ++ joinLines (log.rows.map fun row => row.line.text)).take (8 * 4096 - 1) := by
  obtain ⟨text, hbuf, hlines⟩ := h.text
  rw [hleft] at hlines
  have htext : text = joinLines (log.rows.map fun row => row.line.text) := hlines
  rw [hbuf, htext]
  exact SeqBuf.contents_print b.cleared (by decide) (by decide) (noNul_moduleText log.rows)

/-- **The list of modules.**  In every run of notifications and calls of other clients, between two
modules: the text is the lines of the modules in their order, up to the end of the buffer; every section
in it is in exactly one page that was submitted for its module; all pages were submitted, in order; and
each one that was taken is described by the tables and the headers. -/
theorem modules_listed {x : ModuleList × ModuleLog} (hx : (moduleList cfg p b).Reach (ModuleOk cfg) x)
    (hleft : x.1.left = none) :
    x.1.buf.contents =
        (moduleInfo ++ joinLines (x.2.rows.map fun row => row.line.text)).take (8 * 4096 - 1) ∧
      (∀ row ∈ x.2.rows, ∀ sec ∈ row.line.sections,
        ∃! i : Nat, ∃ e, row.regions[i]? = some e ∧ Covers e sec.address.toNat) ∧
      x.2.rows.flatMap ModuleRow.regions = x.2.pages.map Prod.fst ∧
      ∀ page ∈ x.2.pages, page.2 = true → ∃ n, Describes x.1.client.driver n page.1 := by
  have h := listing_reach hx
  have hpages := h.pages
  rw [hleft] at hpages
  refine ⟨h.contents hleft, h.covered, ?_, ?_⟩
  · rw [hpages]
    exact List.append_nil _
  · intro page hpage htaken
    obtain ⟨n, hn⟩ := List.mem_iff_getElem?.mp (h.taken page hpage htaken)
    exact ⟨n, h.orderly.describes hn⟩

/-- **The list can be read back.**  Two runs that leave the same text, each without filling the buffer,
have listed the same modules with the same bases and the same sections. -/
theorem modules_read_back {b' : ClearedBuffer} {x y : ModuleList × ModuleLog}
    (hx : (moduleList cfg p b).Reach (ModuleOk cfg) x) (hy : (moduleList cfg p b').Reach (ModuleOk cfg) y)
    (hxleft : x.1.left = none) (hyleft : y.1.left = none)
    (hxfull : (moduleInfo ++ joinLines (x.2.rows.map fun row => row.line.text)).length < 8 * 4096)
    (hyfull : (moduleInfo ++ joinLines (y.2.rows.map fun row => row.line.text)).length < 8 * 4096)
    (h : x.1.buf.contents = y.1.buf.contents) :
    x.2.rows.map ModuleRow.line = y.2.rows.map ModuleRow.line := by
  rw [(listing_reach hx).contents hxleft, (listing_reach hy).contents hyleft,
    List.take_of_length_le (by omega), List.take_of_length_le (by omega)] at h
  have hlines := List.append_cancel_left h
  have hmap : ∀ rows : List ModuleRow, rows.map (fun row => row.line.text) =
      (rows.map ModuleRow.line).map ModuleLine.text := by
    intro rows
    rw [List.map_map]
    rfl
  rw [hmap, hmap] at hlines
  exact joinLines_map_injective line_injective printable_line hlines

end Steps

/-! ## One module -/

def cleanName (s : String) (printable : Printable (ascii s)) (noComma : (44 : UInt8) ∉ ascii s)
    (noColon : (58 : UInt8) ∉ ascii s) : CleanName := ⟨ascii s, printable, noComma, noColon⟩

/-- A key module with one page of data. -/
def watchdog : KernelModule where
  name := cleanName "qcom_wdt" (by decide) (by decide) (by decide)
  base := 0xffff800001000000
  roAfterInitSize := 0x1000
  size := 0x2000
  live := true
  sections :=
    [⟨cleanName ".text" (by decide) (by decide) (by decide), 0xffff800001000000⟩,
      ⟨cleanName ".data" (by decide) (by decide) (by decide), 0xffff800001001800⟩]

def watchdogKernel : ModuleKernel where
  frame := fun page => page - 0xffff800000000
  keyModules := [CStr.ofString "qcom_wdt"]
  modInfo := true
  info := 0
  alloc := fun _ => true
  id := fun _ => 0

/-- The page. -/
def watchdogPage : MdRegion := ⟨CStr.ofString "0_qcom_wdt", 0, 0xffff800001001000, 0x1001000, 4096⟩

/-- A buffer in memory that is otherwise filled with `b`. -/
def moduleBuffer (b : UInt8) : ClearedBuffer := ⟨fun x => if x = 0x10000 then 0 else b, 0x10000, rfl⟩

/-- The driver with the region of the list. -/
def listedClient : Client :=
  { plainClient [] with
    driver := (msmMinidumpAddRegion Config.plain true
      (panicEntry Config.plain 8 (CStr.ofString "KMODULES") 0 0x90000 (moduleBuffer 0)) (plainClient []).driver).1 }

def watchdogStart (b : UInt8) : ModuleList := ⟨(moduleBuffer b).moduleBuf.print moduleInfo, listedClient, none⟩

/-- The page is to be submitted. -/
def watchdogNotified (b : UInt8) : ModuleList where
  buf := printModule watchdogKernel watchdog listedClient.driver (watchdogStart b).buf
  client := listedClient
  left := some [(true, watchdogPage)]

def watchdogPaged (b : UInt8) : ModuleList :=
  { watchdogNotified b with
    client := { listedClient with
      driver := (msmMinidumpAddRegion Config.plain true watchdogPage listedClient.driver).1 }
    left := some [] }

def watchdogListed (b : UInt8) : ModuleList :=
  { watchdogPaged b with buf := (watchdogPaged b).buf.print (ascii "\n"), left := none }

/-- The record, before the page and behind it. -/
def watchdogLog (pages : List (MdRegion × Bool)) : ModuleLog :=
  ⟨[watchdog.row Config.plain watchdogKernel listedClient.driver], pages⟩

theorem watchdog_regions : mdModuleProcess Config.plain { watchdogKernel with modInfo := true } watchdog.layout
    listedClient.driver = [(true, watchdogPage)] := by
  have hdumped : watchdog.dumped watchdogKernel listedClient.driver = true := by decide +kernel
  have hrest : watchdog.layout.dumpLen - toDump watchdog.layout.dumpStart watchdog.layout.dumpLen = 0 := by
    decide
  rw [mdModuleProcess_eq, if_pos hdumped, moduleRegions, registerVmapMem, vmapLoop_cons _ (by decide), hrest,
    vmapLoop_zero]
  decide

theorem watchdogStart_afterModuleData (b : UInt8) :
    AfterModuleData Config.plain (Platform.plain false) (moduleBuffer b) (watchdogStart b) := by
  have haccepted : (msmMinidumpAddRegion Config.plain true (panicEntry Config.plain 8 (CStr.ofString "KMODULES") 0
      0x90000 (moduleBuffer 0)) (plainClient []).driver).2 = .ok 0 := by decide +kernel
  refine ⟨plainClient [], .init plainClient_init, true, 0, 0x90000, listedClient.driver, ?_, by decide +kernel, rfl⟩
  have hadd : msmMinidumpAddRegion Config.plain true (panicEntry Config.plain 8 (CStr.ofString "KMODULES") 0
      0x90000 (moduleBuffer b)) (plainClient []).driver = (listedClient.driver, .ok 0) :=
    Prod.ext rfl haccepted
  rw [mdRegisterPanicEntries, hadd]

theorem watchdog_reach (b : UInt8) :
    (moduleList Config.plain (Platform.plain false) (moduleBuffer b)).Reach (ModuleOk Config.plain)
      (watchdogListed b, watchdogLog [(watchdogPage, true)]) := by
  let M := moduleList Config.plain (Platform.plain false) (moduleBuffer b)
  have hstart : M.Reach (ModuleOk Config.plain) (watchdogStart b, ⟨[], []⟩) :=
    .init ⟨watchdogStart_afterModuleData b, rfl⟩
  have hnotify : M.step (watchdogStart b, ⟨[], []⟩) (.notify watchdogKernel watchdog) =
      some (watchdogNotified b, watchdogLog []) :=
    congrArg (fun left => some (({ watchdogNotified b with left := some left } : ModuleList), watchdogLog []))
      watchdog_regions
  have hpage : M.step (watchdogNotified b, watchdogLog []) .page =
      some (watchdogPaged b, watchdogLog [(watchdogPage, true)]) := by
    have hadds : decide (AddsTo Config.plain (registered listedClient.driver) watchdogPage) = true := by
      decide +kernel
    exact congrArg (fun taken => some (watchdogPaged b, watchdogLog [(watchdogPage, taken)])) hadds
  have hroom : ModuleOk Config.plain (watchdogNotified b, watchdogLog []) .page := by
    intro t ht
    cases ht
    show (msmMinidumpAddRegion Config.plain true watchdogPage listedClient.driver).1.numRegions ≤ 197
    decide +kernel
  have hfinish : M.step (watchdogPaged b, watchdogLog [(watchdogPage, true)]) .finish =
      some (watchdogListed b, watchdogLog [(watchdogPage, true)]) := rfl
  exact .step (.step (.step hstart (by exact trivial) hnotify) hroom hpage) (by exact trivial) hfinish

/-- The line of the module, and its page. -/
theorem modules_listed_watchdog :
    (watchdogListed 0).buf.contents = ascii
        "=== MODULE INFO ===\nname: qcom_wdt, base: ffff800001000000, .data: ffff800001001800\n" ∧
      ∃ n, Describes (watchdogListed 0).client.driver n watchdogPage := by
  obtain ⟨htext, -, -, hpages⟩ := modules_listed (watchdog_reach 0) rfl
  refine ⟨?_, hpages (watchdogPage, true) List.mem_cons_self rfl⟩
  rw [htext]
  decide +kernel

/-- The same text in two buffers. -/
theorem modules_read_back_watchdog :
    (watchdogListed 0).buf.contents = (watchdogListed 0xff).buf.contents ∧
      (watchdogLog [(watchdogPage, true)]).rows.map ModuleRow.line =
        (watchdogLog [(watchdogPage, true)]).rows.map ModuleRow.line := by
  have hsame : (watchdogListed 0).buf.contents = (watchdogListed 0xff).buf.contents := by
    rw [(listing_reach (watchdog_reach 0)).contents rfl, (listing_reach (watchdog_reach 0xff)).contents rfl]
  exact ⟨hsame, modules_read_back (watchdog_reach 0) (watchdog_reach 0xff) rfl rfl (by decide +kernel)
    (by decide +kernel) hsame⟩

end SafelinuxDbg.MinidumpLog
