import SafelinuxDbg.Minidump.Registry
import SafelinuxDbg.Minidump.RegionNumbers

/-!
# The driver refines the registry

`Registry` is a list of valid regions with distinct names, as many as the header buffer has room
for.  `Refines d r` connects the driver to it: the two tables hold the regions of `r` and the
header buffer represents `imageOf` of them.

* `refines_init`: so it is after a probe with nothing waiting.
* `Refines.add`, `Refines.update`, `Refines.remove`: the calls are those of the registry, with
  the condition `Removable` for the last.
-/

namespace SafelinuxDbg.Minidump

open CMemory

/-! ## The registry and its operations -/

/-- A list of valid regions with distinct names, with room for all in the header buffer. -/
structure Registry (cfg : Config) where
  regions : List MdRegion
  valid : ∀ e ∈ regions, validateRegion cfg e = .ok ()
  distinct : (regions.map MdRegion.name).Nodup
  room : regions.length ≤ 197

namespace Registry

variable {cfg : Config}

def empty (cfg : Config) : Registry cfg :=
  ⟨[], fun _ h => absurd h List.not_mem_nil, List.nodup_nil, by decide⟩

def add (r : Registry cfg) (e : MdRegion) (hv : validateRegion cfg e = .ok ())
    (hnew : e.name ∉ r.regions.map MdRegion.name) (hroom : r.regions.length < 197) :
    Registry cfg where
  regions := r.regions ++ [e]
  valid := by
    intro x hx
    rcases List.mem_append.mp hx with hold | hlast
    · exact r.valid x hold
    · rw [List.mem_singleton.mp hlast]
      exact hv
  distinct := by
    rw [List.map_append, List.map_singleton, ← List.concat_eq_append]
    exact r.distinct.concat hnew
  room := by
    rw [List.length_append, List.length_singleton]
    omega

def move (r : Registry cfg) (n : Nat) (e : MdRegion) (hv : validateRegion cfg e = .ok ()) :
    Registry cfg where
  regions := r.regions.modify n (MdRegion.moveTo e)
  valid := by
    intro x hx
    obtain ⟨i, hi, rfl⟩ := List.getElem_of_mem hx
    rw [List.length_modify] at hi
    have hold := validateRegion_eq_ok.mp (r.valid _ (List.getElem_mem hi))
    rw [List.getElem_modify]
    split
    · exact validateRegion_eq_ok.mpr ⟨hold.1, (validateRegion_eq_ok.mp hv).2.1, hold.2.2⟩
    · exact validateRegion_eq_ok.mpr hold
  distinct := by
    rw [map_modify_moveTo MdRegion.name (fun _ => rfl)]
    exact r.distinct
  room := by
    rw [List.length_modify]
    exact r.room

def remove (r : Registry cfg) (i : Nat) : Registry cfg where
  regions := r.regions.eraseIdx i
  valid := fun e he => r.valid e (List.mem_of_mem_eraseIdx he)
  distinct := by
    rw [← List.eraseIdx_map]
    exact r.distinct.sublist (List.eraseIdx_sublist _ _)
  room := (List.length_eraseIdx_le _ _).trans r.room

end Registry

/-- The descriptor `e` has the name, the addresses and the size of `r`. -/
structure MdRegion.SameRegion (e r : MdRegion) : Prop where
  name : e.name = r.name
  virtAddr : e.virtAddr = r.virtAddr
  physAddr : e.physAddr = r.physAddr
  size : e.size = r.size

theorem lookup_congr {e r : MdRegion} (h : e.SameRegion r) {img : Image} :
    img.lookup e = img.lookup r := by
  rw [Image.lookup, Image.lookup, Image.findProgram, Image.findProgram, Image.findSection,
    Image.findSection, h.name, h.virtAddr, h.physAddr, h.size]

/-- **The driver holds the registry `r`.** -/
structure Refines {cfg : Config} (addrs : HeaderAddrs) (d : Driver) (r : Registry cfg) : Prop where
  smem : Smem d
  tables : Tables d r.regions
  elf : Represents d.minidumpElfheader (imageOf addrs r.regions)

section Steps

variable {cfg : Config} {addrs : HeaderAddrs} {d : Driver} {r : Registry cfg} {e : MdRegion}

theorem refines_init (p : Platform) (toc : MdGlobalToc) :
    Refines p.addrs (smemReady cfg p toc []) (Registry.empty cfg) := by
  refine ⟨smem_smemReady, tables_smemReady (fun _ h => absurd h List.not_mem_nil), ?_⟩
  have helf : (smemReady cfg p toc []).minidumpElfheader = buildHeader p.addrs := rfl
  rw [helf, Registry.empty, imageOf_nil]
  exact represents_buildHeader p.addrs

namespace Refines

/-- A valid region with a new name is accepted, also when the header buffer is full. -/
theorem addRegion_eq (h : Refines addrs d r) (alloc : Bool) (hv : validateRegion cfg e = .ok ())
    (hnew : e.name ∉ r.regions.map MdRegion.name) :
    msmMinidumpAddRegion cfg alloc e d = (addedRegion cfg e d, .ok r.regions.length) := by
  have hm := h.tables.mdEntryNum_eq_error.mpr ⟨rfl, hnew⟩
  have hdirect : (!d.isRmMinidump && tocEnabled d) = true := by
    rw [h.smem.rm, h.smem.toc]
    rfl
  have hcount := h.tables.filled.count
  have hroom := r.room
  rw [msmMinidumpAddRegion, hv]
  simp only [hm, hdirect, if_true]
  rw [if_neg (by rw [h.tables.num, maxNumEntries_eq]; omega),
    if_neg (by rw [hcount, maxNumEntries_eq]; omega), ← h.tables.num]
  rfl

/-- An accepted region is appended. -/
theorem add (h : Refines addrs d r) (hv : validateRegion cfg e = .ok ())
    (hnew : e.name ∉ r.regions.map MdRegion.name) (hroom : r.regions.length < 197) :
    Refines addrs (addedRegion cfg e d) (r.add e hv hnew hroom) := by
  refine ⟨⟨h.smem.rm, h.smem.toc, h.smem.done⟩, h.tables.add hv, ?_⟩
  have hlen := (validateRegion_eq_ok.mp hv).1
  have hmax := cfg.maxNameLength_le
  rw [Registry.add, imageOf_add]
  exact h.elf.add (by rw [imageOf_sections_length]; omega) (by omega)

/-- An accepted update of a registered region moves it. -/
theorem update (h : Refines addrs d r) {n : Nat} (hn : n < r.regions.length)
    (hv : validateRegion cfg e = .ok ()) :
    Refines addrs (updatedHeaders n e (updatedTables n e d)) (r.move n e hv) := by
  refine ⟨⟨h.smem.rm, h.smem.toc, h.smem.done⟩, h.tables.update hn e, ?_⟩
  have hroom := r.room
  rw [Registry.move, imageOf_update]
  exact h.elf.update (by omega) e

/-- The headers of a registered region are looked up in its image. -/
theorem lookup_eq (h : Refines addrs d r) {i : Nat} (hi : i < r.regions.length)
    (he : e.SameRegion r.regions[i]) :
    clearLookup e d.minidumpElfheader =
      if endOffset startOffset (r.regions.take i) =
          endOffset startOffset (r.regions.take (firstTwin r.regions r.regions[i])) then
        some (firstTwin r.regions r.regions[i] + 1, i + 4)
      else none := by
  rw [h.elf.lookup, ← lookup_imageOf addrs r.distinct hi (r.valid _ (List.getElem_mem hi))]
  exact lookup_congr he

/-- A removable region is removed everywhere. -/
theorem remove (h : Refines addrs d r) {i : Nat} (hi : i < r.regions.length)
    (he : e.SameRegion r.regions[i]) (hr : Removable r.regions i hi) :
    msmMinidumpRemoveRegion true e d = (removedRegion i (i + 1) e d, .ok ()) ∧
      Refines addrs (removedRegion i (i + 1) e d) (r.remove i) := by
  have hv := r.valid _ (List.getElem_mem hi)
  have hlook : (imageOf addrs r.regions).lookup e =
      some (firstTwin r.regions r.regions[i] + 1, i + 4) := by
    rw [lookup_congr he]
    exact lookup_of_removable addrs r.distinct hi hv hr
  obtain ⟨hm, hg⟩ := h.tables.lookups_eq r.distinct hi he.name.symm 0
  obtain ⟨hclear, -⟩ := h.elf.clear hlook (by omega)
  rw [he.size, imageOf_clear_twin addrs hi hr] at hclear
  refine ⟨?_, ⟨h.smem.rm, h.smem.toc, h.smem.done⟩, h.tables.remove hi _, hclear⟩
  rcases remove_cases true e h.smem with
    ⟨-, ⟨err, he⟩ | ⟨err, he⟩⟩ | ⟨i', k, -, -, hl, -⟩ | ⟨i', k, pidx, shidx, hm', hg', -, hres⟩
  · rw [hm] at he
    cases he
  · rw [hg] at he
    cases he
  · rw [h.elf.lookup, hlook] at hl
    cases hl
  · rw [hm, Except.ok.injEq] at hm'
    rw [hg, Except.ok.injEq] at hg'
    rw [hres, ← hm', ← hg']

/-- A removal that is accepted has found its headers at one offset. -/
theorem offsets_of_removed (h : Refines addrs d r) {i : Nat} (hi : i < r.regions.length)
    (he : e.SameRegion r.regions[i]) (hok : (msmMinidumpRemoveRegion true e d).2 = .ok ()) :
    endOffset startOffset (r.regions.take i) =
      endOffset startOffset (r.regions.take (firstTwin r.regions r.regions[i])) := by
  by_contra hne
  have hlook := h.lookup_eq hi he
  rw [if_neg hne] at hlook
  rcases remove_cases true e h.smem with
    ⟨⟨err, hres⟩, -⟩ | ⟨i', k, -, -, -, hres⟩ | ⟨i', k, pidx, shidx, -, -, hl, -⟩
  · rw [hres] at hok
    cases hok
  · rw [hres] at hok
    cases hok
  · rw [hlook] at hl
    cases hl

end Refines

end Steps

/-! ## Runs -/

/-- The regions that are registered. -/
def registered (d : Driver) : List MdRegion := slice d.minidumpTable.entry 0 d.numRegions

theorem registered_eq {d : Driver} {R : List MdRegion} (h : Tables d R) : registered d = R := by
  rw [registered, h.num, h.filled.entries]

/-- Accepted adds, accepted updates that pass the number returned for their name, and accepted
removals, with at most 197 regions. -/
def OrdinaryCall (cfg : Config) (s : Client) (c : Call) : Prop :=
  (s.step cfg c).driver.numRegions ≤ 197 ∧
    match c with
    | .add _ _ => True
    | .update regno e => s.issued e.name = some regno ∧
        (msmMinidumpUpdateRegion cfg true regno e s.driver).2 = .ok ()
    | .remove e => (msmMinidumpRemoveRegion true e s.driver).2 = .ok ()

/-- Calls of this kind whose removals pass what is recorded for a region that is removable. -/
def RemovableCall (cfg : Config) (s : Client) (c : Call) : Prop :=
  OrdinaryCall cfg s c ∧
    match c with
    | .remove e => ∃ i, ∃ hi : i < (registered s.driver).length,
        e.SameRegion (registered s.driver)[i] ∧ Removable (registered s.driver) i hi
    | _ => True

section Runs

variable {cfg : Config} {p : Platform}

/-- What a run of calls whose removals are removable keeps: the driver holds a registry. -/
def HoldsRegistry (cfg : Config) (p : Platform) (s : Client) : Prop :=
  ∃ r : Registry cfg, Refines p.addrs s.driver r

theorem holdsRegistry_step {s : Client} (h : HoldsRegistry cfg p s) (hn : Numbered s) {c : Call}
    (hc : RemovableCall cfg s c) : HoldsRegistry cfg p (s.step cfg c) := by
  obtain ⟨r, hr⟩ := h
  obtain ⟨⟨hroom, hrules⟩, hremove⟩ := hc
  cases c with
  | add alloc e =>
    rcases add_cases cfg alloc e hr.smem with ⟨err, hres⟩ | ⟨hv, -, -, hm, hres⟩
    · refine ⟨r, ?_⟩
      rw [Client.step, Call.exec, hres]
      exact hr
    · have hdriver : (s.step cfg (.add alloc e)).driver = addedRegion cfg e s.driver :=
        congrArg Prod.fst hres
      obtain ⟨-, hnew⟩ := hr.tables.mdEntryNum_eq_error.mp hm
      rw [hdriver, (hr.tables.add hv).num, List.length_append] at hroom
      refine ⟨r.add e hv hnew hroom, ?_⟩
      rw [hdriver]
      exact hr.add hv hnew hroom
  | update regno e =>
    obtain ⟨hissued, hok⟩ := hrules
    rcases update_cases cfg true e hr.smem regno with
      ⟨-, hres⟩ | ⟨-, -, -, err, hres⟩ | ⟨hv, -, hlt, -, hres⟩
    · rw [hres] at hok
      cases hok
    · rw [hres] at hok
      cases hok
    · obtain ⟨hnum, -⟩ := hn.issued e.name regno hissued hlt
      rw [hr.tables.num] at hnum
      have hdriver : (s.step cfg (.update regno e)).driver =
          updatedHeaders regno e (updatedTables regno e s.driver) := congrArg Prod.fst hres
      refine ⟨r.move regno e hv, ?_⟩
      rw [hdriver]
      exact hr.update hnum hv
  | remove e =>
    obtain ⟨i, hi, hsame, hrem⟩ := hremove
    simp only [registered_eq hr.tables] at hi hsame hrem
    obtain ⟨hres, href⟩ := hr.remove hi hsame hrem
    have hdriver : (s.step cfg (.remove e)).driver = removedRegion i (i + 1) e s.driver :=
      congrArg Prod.fst hres
    refine ⟨r.remove i, ?_⟩
    rw [hdriver]
    exact href

theorem holdsRegistry_reach {s : Client}
    (hs : (smemClients cfg p (· = [])).Reach (RemovableCall cfg) s) :
    HoldsRegistry cfg p s := by
  have hboth : HoldsRegistry cfg p s ∧ Numbered s := by
    refine hs.invariant (I := fun s => HoldsRegistry cfg p s ∧ Numbered s) ?_ ?_
    · intro s hinit
      refine ⟨?_, numbered_init hinit⟩
      obtain ⟨es, l, toc, rfl, hsub, -, hdriver, -⟩ := smemClients_init hinit
      rw [List.map_nil, List.sublist_nil] at hsub
      subst hsub
      refine ⟨Registry.empty cfg, ?_⟩
      rw [hdriver]
      exact refines_init p toc
    · intro s c t h hc hstep
      cases hstep
      exact ⟨holdsRegistry_step h.1 h.2 hc, numbered_step h.2 c⟩
  exact hboth.1

end Runs

/-! ## What this means for the four structures -/

/-- Section header `k` has the name `name`, read back through the string table. -/
def SectionNamed (h : MdElfhdr) (k : Nat) (name : CStr) : Prop :=
  ∃ a, elfLookupString h (read32 h.ehdr (elfSection h.ehdr k + Off.shName)) = some a ∧
    strEqAt h.ehdr a name.bytes = true

/-- `sh_offset` of section header `k`. -/
def shOffset (h : MdElfhdr) (k : Nat) : UInt64 :=
  read64 h.ehdr (elfSection h.ehdr k + Off.shOffset)

/-- `p_offset` of program header `k`. -/
def pOffset (h : MdElfhdr) (k : Nat) : UInt64 :=
  read64 h.ehdr (elfProgram h.ehdr k + Off.pOffset)

/-- Entry `i`, region `i + 1`, section header `i + 4` and program header `i + 1` describe the
region `e`: its name, its addresses and its size. -/
structure Describes (d : Driver) (i : Nat) (e : MdRegion) : Prop where
  entry : d.minidumpTable.entry i = e
  region : (d.minidumpTable.mdRegions (i + 1)).view = e.view
  name : SectionNamed d.minidumpElfheader (i + 4) e.name
  shAddr : read64 d.minidumpElfheader.ehdr
    (elfSection d.minidumpElfheader.ehdr (i + 4) + Off.shAddr) = e.virtAddr
  shSize : read64 d.minidumpElfheader.ehdr
    (elfSection d.minidumpElfheader.ehdr (i + 4) + Off.shSize) = e.size
  pVaddr : read64 d.minidumpElfheader.ehdr
    (elfProgram d.minidumpElfheader.ehdr (i + 1) + Off.pVaddr) = e.virtAddr
  pPaddr : read64 d.minidumpElfheader.ehdr
    (elfProgram d.minidumpElfheader.ehdr (i + 1) + Off.pPaddr) = e.physAddr
  pFilesz : read64 d.minidumpElfheader.ehdr
    (elfProgram d.minidumpElfheader.ehdr (i + 1) + Off.pFilesz) = e.size
  pMemsz : read64 d.minidumpElfheader.ehdr
    (elfProgram d.minidumpElfheader.ehdr (i + 1) + Off.pMemsz) = e.size

/-- What the headers of a represented image say about section `k`. -/
theorem Represents.sectionNamed {h : MdElfhdr} {img : Image} (hr : Represents h img) {k : Nat}
    (hk : k < img.sections.length) : SectionNamed h k img.sections[k].name := by
  have hlt : k < img.names.length := by rwa [Image.names_length]
  have hstr := hr.packed.getElem hlt
  have hname : img.names[k] = img.sections[k].name := by simp [Image.names]
  rw [hname] at hstr
  exact ⟨_, hr.elfLookupString_eq hk, hstr⟩

/-- Section header `i + 4` and program header `i + 1` describe the region `e` at one offset. -/
structure HeadersOf (h : MdElfhdr) (i : Nat) (e : MdRegion) : Prop where
  name : SectionNamed h (i + 4) e.name
  shAddr : read64 h.ehdr (elfSection h.ehdr (i + 4) + Off.shAddr) = e.virtAddr
  shSize : read64 h.ehdr (elfSection h.ehdr (i + 4) + Off.shSize) = e.size
  pVaddr : read64 h.ehdr (elfProgram h.ehdr (i + 1) + Off.pVaddr) = e.virtAddr
  pPaddr : read64 h.ehdr (elfProgram h.ehdr (i + 1) + Off.pPaddr) = e.physAddr
  pFilesz : read64 h.ehdr (elfProgram h.ehdr (i + 1) + Off.pFilesz) = e.size
  pMemsz : read64 h.ehdr (elfProgram h.ehdr (i + 1) + Off.pMemsz) = e.size
  offset : shOffset h (i + 4) = pOffset h (i + 1)

section Headers

variable {addrs : HeaderAddrs} {h : MdElfhdr} {R : List MdRegion} {i : Nat}

theorem Represents.offsets (hr : Represents h (imageOf addrs R)) (hi : i < R.length) :
    shOffset h (i + 4) = endOffset startOffset (R.take i) ∧
      pOffset h (i + 1) = endOffset startOffset (R.take i) := by
  have hs : i + 4 < (imageOf addrs R).sections.length := by
    rw [imageOf_sections_length]
    omega
  have hp : i + 1 < (imageOf addrs R).programs.length := by
    rw [imageOf_programs_length]
    omega
  obtain ⟨-, -, hsoff, -⟩ := hr.shdr_fields hs
  obtain ⟨hpoff, -⟩ := hr.phdr_fields hp
  rw [imageOf_sections_getElem addrs R hi hs] at hsoff
  rw [imageOf_programs_getElem addrs R hi hp] at hpoff
  rw [shOffset, pOffset, hr.elfSection_eq, hr.elfProgram_eq]
  exact ⟨hsoff, hpoff⟩

theorem Represents.headersOf (hr : Represents h (imageOf addrs R)) (hi : i < R.length) :
    HeadersOf h i R[i] := by
  have hs : i + 4 < (imageOf addrs R).sections.length := by
    rw [imageOf_sections_length]
    omega
  have hp : i + 1 < (imageOf addrs R).programs.length := by
    rw [imageOf_programs_length]
    omega
  have hsec := imageOf_sections_getElem addrs R hi hs
  have hprog := imageOf_programs_getElem addrs R hi hp
  have hname := hr.sectionNamed hs
  obtain ⟨-, haddr, -, hsize⟩ := hr.shdr_fields hs
  obtain ⟨hsoff, hpoff⟩ := hr.offsets hi
  have hrec := hr.phdrAt_eq hp
  rw [hsec] at hname haddr hsize
  rw [hprog, phdrAt, regionProgram, Phdr.mk.injEq] at hrec
  obtain ⟨-, hv, hpa, hf, hm⟩ := hrec
  refine ⟨hname, ?_, ?_, ?_, ?_, ?_, ?_, hsoff.trans hpoff.symm⟩
  · rw [hr.elfSection_eq]
    exact haddr
  · rw [hr.elfSection_eq]
    exact hsize
  · rw [hr.elfProgram_eq]
    exact hv
  · rw [hr.elfProgram_eq]
    exact hpa
  · rw [hr.elfProgram_eq]
    exact hf
  · rw [hr.elfProgram_eq]
    exact hm

end Headers

theorem Refines.describes {cfg : Config} {addrs : HeaderAddrs} {d : Driver} {r : Registry cfg}
    (h : Refines addrs d r) {i : Nat} (hi : i < r.regions.length) :
    Describes d i r.regions[i] := by
  have hh := h.elf.headersOf hi
  exact ⟨h.tables.entry_eq hi, h.tables.view_eq hi, hh.name, hh.shAddr, hh.shSize, hh.pVaddr,
    hh.pPaddr, hh.pFilesz, hh.pMemsz⟩

end SafelinuxDbg.Minidump
