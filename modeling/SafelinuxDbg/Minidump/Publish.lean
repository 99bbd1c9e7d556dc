import SafelinuxDbg.Minidump.Consistency

/-!
# Publishing the tables

`md_ss_toc_init` tells the boot loader that the tables can be used.  `md_remove_ss_toc` clears it
while it takes a region out, and leaves it cleared when the headers refuse the removal, because
by then the two tables have been shifted and the headers have not.  Nothing remembers this: the
next removal that succeeds sets the flag again.

* `tables_agree_of_publishable`: the tables that are published agree, in every run without such a
  removal.
* `broken_tables_published`: a run with one.
-/

namespace SafelinuxDbg.Minidump

open CMemory

instance (h : MdElfhdr) (k : Nat) (name : CStr) : Decidable (SectionNamed h k name) :=
  decidable_of_iff ((elfLookupString h (read32 h.ehdr (elfSection h.ehdr k + Off.shName))).any
    (fun a => strEqAt h.ehdr a name.bytes) = true) (Option.any_eq_true _ _)

/-- The entries, the regions and the sections have the same names in the same order. -/
structure TablesAgree (d : Driver) : Prop where
  count : d.minidumpTable.mdSsToc.ssRegionCount = d.numRegions + 1
  regions : (slice d.minidumpTable.mdRegions 1 (d.minidumpTable.mdSsToc.ssRegionCount - 1)).map
    MdSsRegion.name = entryNames d
  shnum : eShnum d.minidumpElfheader.ehdr = d.numRegions + 4
  sections : ∀ i, i < d.numRegions →
    SectionNamed d.minidumpElfheader (i + 4) (d.minidumpTable.entry i).name

/-- Calls that keep to the room of the section headers, and whose removals succeed only while the
tables are published, on the section of a region. -/
def PublishableCall (cfg : Config) (s : Client) : Call → Prop
  | .add _ e => addsDirectly cfg e s.driver = true → s.driver.numRegions < 197
  | .update regno e => validateRegion cfg e ≠ .ok () ∨ maxNumEntries ≤ regno ∨ regno < 197
  | .remove e => ∀ i pidx shidx, mdEntryNum s.driver e = .ok i →
      clearLookup e s.driver.minidumpElfheader = some (pidx, shidx) →
      s.driver.minidumpTable.mdSsToc.mdSsTocInit = 1 ∧ 4 ≤ shidx

/-- What such calls keep: the headers represent an image with four fixed sections and as many
more as there are regions, and while the tables are published these have the names of both
tables. -/
structure Published (s : Client) : Prop where
  numbered : Numbered s
  elf : ∃ img fixed shown, Represents s.driver.minidumpElfheader img ∧ img.names = fixed ++ shown ∧
    fixed.length = 4 ∧ shown.length = s.driver.numRegions ∧
    (s.driver.minidumpTable.mdSsToc.mdSsTocInit = 1 →
      entryNames s.driver = shown ∧ regionNames s.driver = shown ∧ shown.Nodup)

theorem Published.agree {s : Client} (h : Published s)
    (hinit : s.driver.minidumpTable.mdSsToc.mdSsTocInit = 1) : TablesAgree s.driver := by
  obtain ⟨img, fixed, shown, hr, hnames, hfixed, hlen, hpub⟩ := h.elf
  obtain ⟨hentries, hregions, -⟩ := hpub hinit
  have hsections : img.sections.length = s.driver.numRegions + 4 := by
    rw [← Image.names_length, hnames, List.length_append, hfixed, hlen, Nat.add_comm]
  refine ⟨h.numbered.count, ?_, ?_, ?_⟩
  · rw [h.numbered.count, Nat.add_sub_cancel, hentries, ← hregions]
    rfl
  · rw [hr.shnum, hsections]
  · intro i hi
    have hsec := hr.sectionNamed (show i + 4 < img.sections.length by omega)
    have hget : img.names[i + 4]? = some img.sections[i + 4].name := by
      rw [Image.names, List.getElem?_map, List.getElem?_eq_getElem (by omega), Option.map_some]
    rw [hnames, List.getElem?_append_right (by omega), hfixed, Nat.add_sub_cancel, ← hentries,
      entryNames_getElem? hi, Option.some.injEq] at hget
    rw [hget]
    exact hsec

/-! ## The calls -/

section Steps

variable {cfg : Config} {s : Client}

theorem published_add (h : Published s) {alloc : Bool} {e : MdRegion}
    (hc : PublishableCall cfg s (.add alloc e)) : Published (s.step cfg (.add alloc e)) := by
  refine ⟨numbered_step h.numbered (.add alloc e), ?_⟩
  obtain ⟨img, fixed, shown, hr, hnames, hfixed, hlen, hpub⟩ := h.elf
  rcases add_cases cfg alloc e h.numbered.smem with ⟨err, hres⟩ | ⟨hv, hn, hcount, hm, hres⟩
  · have hdriver : (s.step cfg (.add alloc e)).driver = s.driver := congrArg Prod.fst hres
    rw [hdriver]
    exact ⟨img, fixed, shown, hr, hnames, hfixed, hlen, hpub⟩
  have hdriver : (s.step cfg (.add alloc e)).driver = addedRegion cfg e s.driver :=
    congrArg Prod.fst hres
  have hroom : s.driver.numRegions < 197 :=
    hc (addsDirectly_of_path cfg e hv hn h.numbered.smem.rm h.numbered.smem.toc hcount hm)
  have hsections : img.sections.length = s.driver.numRegions + 4 := by
    rw [← Image.names_length, hnames, List.length_append, hfixed, hlen, Nat.add_comm]
  have hname := (validateRegion_eq_ok.mp hv).1
  have hmax := cfg.maxNameLength_le
  rw [hdriver]
  refine ⟨img.add e, fixed, shown ++ [e.name], hr.add (by omega) (by omega), ?_, hfixed, ?_, ?_⟩
  · rw [Image.names_add, hnames, List.append_assoc]
  · rw [List.length_append, hlen]
    rfl
  · intro hinit
    obtain ⟨hentries, hregions, hnd⟩ := hpub hinit
    rw [entryNames_added hv, regionNames_added hv h.numbered.count, hentries, hregions]
    refine ⟨rfl, rfl, ?_⟩
    obtain ⟨-, hnew⟩ := firstNamed_eq_error.mp hm
    rw [← List.concat_eq_append]
    apply hnd.concat
    intro hmem
    rw [← hentries] at hmem
    obtain ⟨k, hk, hname⟩ := mem_entryNames.mp hmem
    exact hnew k hk hname

theorem published_update (h : Published s) {regno : Nat} {e : MdRegion}
    (hc : PublishableCall cfg s (.update regno e)) : Published (s.step cfg (.update regno e)) := by
  refine ⟨numbered_step h.numbered (.update regno e), ?_⟩
  obtain ⟨img, fixed, shown, hr, hnames, hfixed, hlen, hpub⟩ := h.elf
  have hnames' : (img.update regno e).names = fixed ++ shown := by rw [Image.names_update, hnames]
  rcases update_cases cfg true e h.numbered.smem regno with
    ⟨-, hres⟩ | ⟨hv, hlt, -, err, hres⟩ | ⟨hv, hlt, -, -, hres⟩
  · have hdriver : (s.step cfg (.update regno e)).driver = s.driver := congrArg Prod.fst hres
    rw [hdriver]
    exact ⟨img, fixed, shown, hr, hnames, hfixed, hlen, hpub⟩
  all_goals
    have hregno : regno < 197 := by
      rcases hc with hc | hc | hc
      · exact absurd hv hc
      · omega
      · exact hc
  · have hdriver : (s.step cfg (.update regno e)).driver = updatedHeaders regno e s.driver :=
      congrArg Prod.fst hres
    rw [hdriver]
    exact ⟨img.update regno e, fixed, shown, hr.update (by omega) e, hnames', hfixed, hlen, hpub⟩
  · have hdriver : (s.step cfg (.update regno e)).driver =
        updatedHeaders regno e (updatedTables regno e s.driver) := congrArg Prod.fst hres
    rw [hdriver]
    refine ⟨img.update regno e, fixed, shown, hr.update (by omega) e, hnames', hfixed, hlen, ?_⟩
    intro hinit
    obtain ⟨hentries, hregions, hnd⟩ := hpub hinit
    rw [← entryNames_updated regno e] at hentries
    rw [← regionNames_updated regno e] at hregions
    exact ⟨hentries, hregions, hnd⟩

/-- While the tables are published, a removal strikes one name everywhere. -/
theorem same_place {L : List CStr} (hnd : L.Nodup) {i j : Nat} {name : CStr}
    (hi : L[i]? = some name) (hj : L[j]? = some name) : i = j := by
  obtain ⟨hilt, hi'⟩ := List.getElem?_eq_some_iff.mp hi
  obtain ⟨hjlt, hj'⟩ := List.getElem?_eq_some_iff.mp hj
  exact (List.Nodup.getElem_inj_iff hnd).mp (hi'.trans hj'.symm)

theorem published_remove (h : Published s) {e : MdRegion}
    (hc : PublishableCall cfg s (.remove e)) : Published (s.step cfg (.remove e)) := by
  refine ⟨numbered_step h.numbered (.remove e), ?_⟩
  obtain ⟨img, fixed, shown, hr, hnames, hfixed, hlen, hpub⟩ := h.elf
  rcases remove_cases true e h.numbered.smem with
    ⟨⟨err, hres⟩, -⟩ | ⟨i, k, hm, hg, -, hres⟩ | ⟨i, k, pidx, shidx, hm, hg, hl, hres⟩
  · have hdriver : (s.step cfg (.remove e)).driver = s.driver := congrArg Prod.fst hres
    rw [hdriver]
    exact ⟨img, fixed, shown, hr, hnames, hfixed, hlen, hpub⟩
  · have hdriver : (s.step cfg (.remove e)).driver = shiftTables i k s.driver :=
      congrArg Prod.fst hres
    rw [hdriver]
    refine ⟨img, fixed, shown, hr, hnames, hfixed, hlen, ?_⟩
    have hcleared : (shiftTables i k s.driver).minidumpTable.mdSsToc.mdSsTocInit = 0 := rfl
    rw [hcleared]
    intro hinit
    exact absurd hinit (by decide)
  · have hdriver : (s.step cfg (.remove e)).driver = removedRegion i k e s.driver :=
      congrArg Prod.fst hres
    obtain ⟨hinit, hsh⟩ := hc i pidx shidx hm hl
    obtain ⟨hentries, hregions, hnd⟩ := hpub hinit
    obtain ⟨hilt, hk1, hk2, hsame, -⟩ := h.numbered.strikes_above hm hg
    rw [hr.lookup] at hl
    -- the place in the region table and the section are where the entry is
    have hentry : shown[i]? = some e.name := by
      rw [← hentries, entryNames_getElem? hilt, (firstNamed_eq_ok.mp hm).2.1]
    have hplace : k - 1 = i := by
      rw [hentries, hregions, hentry] at hsame
      exact same_place hnd hsame.symm hentry
    have hsection : shidx - 4 = i := by
      obtain ⟨-, hs, -⟩ := Image.lookup_eq_some.mp hl
      obtain ⟨hslt, hmatch, -⟩ := List.findIdx?_eq_some_iff_getElem.mp hs
      rw [Bool.and_eq_true, beq_iff_eq] at hmatch
      have hget : img.names[shidx]? = some e.name := by
        rw [Image.names, List.getElem?_map, List.getElem?_eq_getElem hslt, Option.map_some, hmatch.1]
      rw [hnames, List.getElem?_append_right (by omega), hfixed] at hget
      exact same_place hnd hget hentry
    obtain ⟨hclear, -⟩ := hr.clear hl (by omega)
    rw [hdriver]
    refine ⟨img.clear pidx shidx e.size, fixed, shown.eraseIdx i, hclear, ?_, hfixed, ?_, ?_⟩
    · rw [Image.names_clear, hnames, List.eraseIdx_append_of_length_le (by omega), hfixed, hsection]
    · rw [List.length_eraseIdx_of_lt (by omega), hlen]
      rfl
    · intro _
      rw [entryNames_removed k e hilt, regionNames_removed i e h.numbered.count hk1 hk2, hentries,
        hregions, hplace]
      exact ⟨rfl, rfl, hnd.eraseIdx i⟩

/-- **One call** keeps what is published. -/
theorem published_step (h : Published s) {c : Call} (hc : PublishableCall cfg s c) :
    Published (s.step cfg c) := by
  cases c with
  | add alloc e => exact published_add h hc
  | update regno e => exact published_update h hc
  | remove e => exact published_remove h hc

theorem published_init {p : Platform} (h : (smemClients cfg p (· = [])).init s) : Published s := by
  have hnum := numbered_init h
  obtain ⟨es, l, toc, rfl, hsub, hvalid, hdriver, -⟩ := smemClients_init h
  rw [List.map_nil, List.sublist_nil] at hsub
  subst hsub
  refine ⟨hnum, ?_⟩
  rw [hdriver]
  refine ⟨Image.initial p.addrs, (Image.initial p.addrs).names, [], represents_buildHeader p.addrs,
    (List.append_nil _).symm, rfl, rfl, ?_⟩
  intro _
  exact ⟨rfl, rfl, List.nodup_nil⟩

end Steps

/-- **What is published agrees**, in every run whose removals succeed only while the tables are
published. -/
theorem tables_agree_of_publishable {cfg : Config} {p : Platform} {s : Client}
    (hs : (smemClients cfg p (· = [])).Reach (PublishableCall cfg) s)
    (hinit : s.driver.minidumpTable.mdSsToc.mdSsTocInit = 1) : TablesAgree s.driver := by
  have h : Published s := by
    apply hs.invariant
    · intro s hs
      exact published_init hs
    · intro s c t hs hc hstep
      cases hstep
      exact published_step hs hc
  exact h.agree hinit

theorem tables_agree_of_publishable_kmsg :
    let kmsg : MdRegion := ⟨CStr.ofString "KMSG", 0, 0x1000, 0x81000000, 64⟩
    let kirq : MdRegion := ⟨CStr.ofString "KIRQ", 0, 0x2000, 0x82000000, 4⟩
    TablesAgree (plainClient [.add true kmsg, .add true kirq, .remove kmsg]).driver := by
  intro kmsg kirq
  refine tables_agree_of_publishable (.step (.step (.step (.init plainClient_init) ?_ rfl)
    ?_ rfl) (a := .remove kmsg) ?_ rfl) (by decide +kernel)
  · intro _
    decide +kernel
  · intro _
    decide +kernel
  · intro i pidx shidx _ hl
    have hfound : clearLookup kmsg
        (plainClient [.add true kmsg, .add true kirq]).driver.minidumpElfheader = some (1, 4) := by
      decide +kernel
    cases hfound.symm.trans hl
    exact ⟨by decide +kernel, by decide⟩

/-- **Broken tables that are published**: the removal of a region that shares its place with
another is refused half way, and the removal of a third publishes what is left. -/
theorem broken_tables_published :
    ¬ ∀ s, (smemClients Config.plain (Platform.plain false) (· = [])).Reach (fun _ _ => True) s →
      s.driver.minidumpTable.mdSsToc.mdSsTocInit = 1 → TablesAgree s.driver := by
  intro h
  have hreach : (smemClients Config.plain (Platform.plain false) (· = [])).Reach (fun _ _ => True)
      (plainClient [.add true ⟨CStr.ofString "KSTACK0", 0, 0x1000, 0x81000000, 64⟩,
        .add true ⟨CStr.ofString "KSTACK1", 0, 0x1000, 0x81000000, 64⟩,
        .add true ⟨CStr.ofString "KMSG", 0, 0x2000, 0x82000000, 4⟩,
        .remove ⟨CStr.ofString "KSTACK1", 0, 0x1000, 0x81000000, 64⟩,
        .remove ⟨CStr.ofString "KMSG", 0, 0x2000, 0x82000000, 4⟩]) :=
    .step (.step (.step (.step (.step (.init plainClient_init) trivial rfl) trivial rfl) trivial rfl)
      trivial rfl) trivial rfl
  have hname := (h _ hreach (by decide +kernel)).sections 1 (by decide +kernel)
  revert hname
  decide +kernel

end SafelinuxDbg.Minidump
