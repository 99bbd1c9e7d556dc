import SafelinuxDbg.Minidump.Consistency

/-!
# Registering before the probe and after it

A region that is added before the probe waits on the pending list, and the probe puts it into
the tables.  The numbers returned and the two tables come out as if the region had been added
after the probe (`deferred_tables_eq_direct`).  But the probe never calls `md_add_elf_header` for
what was waiting, so the headers come out the same only when nothing was
(`deferred_eq_direct_iff`).

The loop over the pending list writes each region twice into the driver's table: at its number, and
in `md_add_ss_toc` at `num_regions`, which is behind all of them.  As many regions may wait as the
table has places, so there may be no such place (`drain_inside_iff`).
-/

namespace SafelinuxDbg.Minidump

open CMemory

/-- The driver after the regions `es` were added in order, and what the calls returned. -/
def addAll (cfg : Config) : List MdRegion → Driver → Driver × List (Except Errno Nat)
  | [], d => (d, [])
  | e :: es, d =>
    let r := msmMinidumpAddRegion cfg true e d
    let rest := addAll cfg es r.1
    (rest.1, r.2 :: rest.2)

/-- Add all in order, then probe. -/
def addThenProbe (cfg : Config) (p : Platform) (es : List MdRegion) :
    Driver × List (Except Errno Nat) :=
  let r := addAll cfg es Driver.initial
  ((msmMinidumpDriverProbe cfg p true (fun _ => true) r.1).1, r.2)

/-- Probe with an empty pending list, then add all in order. -/
def probeThenAdd (cfg : Config) (p : Platform) (es : List MdRegion) :
    Driver × List (Except Errno Nat) :=
  addAll cfg es (msmMinidumpDriverProbe cfg p true (fun _ => true) Driver.initial).1

/-- The two tables of `d` and `d'` hold the same. -/
structure SameTables (d d' : Driver) : Prop where
  num : d.numRegions = d'.numRegions
  entries : slice d.minidumpTable.entry 0 d.numRegions =
    slice d'.minidumpTable.entry 0 d'.numRegions
  count : d.minidumpTable.mdSsToc.ssRegionCount = d'.minidumpTable.mdSsToc.ssRegionCount
  regions : slice d.minidumpTable.mdRegions 0 d.minidumpTable.mdSsToc.ssRegionCount =
    slice d'.minidumpTable.mdRegions 0 d'.minidumpTable.mdSsToc.ssRegionCount

/-- The headers and the string tables of `h` and `h'` hold the same bytes. -/
structure SameHeaders (h h' : MdElfhdr) : Prop where
  shnum : eShnum h.ehdr = eShnum h'.ehdr
  phnum : ePhnum h.ehdr = ePhnum h'.ehdr
  sections : slice h.ehdr (elfSheader h.ehdr) (sizeofShdr * eShnum h.ehdr) =
    slice h'.ehdr (elfSheader h'.ehdr) (sizeofShdr * eShnum h'.ehdr)
  programs : slice h.ehdr (elfPheader h.ehdr) (sizeofPhdr * ePhnum h.ehdr) =
    slice h'.ehdr (elfPheader h'.ehdr) (sizeofPhdr * ePhnum h'.ehdr)
  strings : (elfStrTable h.ehdr).map (fun a => slice h.ehdr a h.strtableIdx.toNat) =
    (elfStrTable h'.ehdr).map (fun a => slice h'.ehdr a h'.strtableIdx.toNat)
  strtableIdx : h.strtableIdx = h'.strtableIdx
  elfOffset : h.elfOffset = h'.elfOffset

/-- Two runs return the same numbers and end with the same tables and headers. -/
structure SameOutcome (r r' : Driver × List (Except Errno Nat)) : Prop where
  numbers : r.2 = r'.2
  tables : SameTables r.1 r'.1
  headers : SameHeaders r.1.minidumpElfheader r'.1.minidumpElfheader

theorem SameOutcome.refl (r : Driver × List (Except Errno Nat)) : SameOutcome r r :=
  ⟨rfl, ⟨rfl, rfl, rfl, rfl⟩, ⟨rfl, rfl, rfl, rfl, rfl, rfl, rfl⟩⟩

/-! ## Adding before the probe -/

section Add

variable {cfg : Config} {es : List MdRegion}

/-- Before the probe every valid region is accepted and waits. -/
theorem addAll_pending (hv : ∀ e ∈ es, validateRegion cfg e = .ok ()) :
    ∀ {l : List MdRegion}, l.length + es.length ≤ maxNumEntries →
      addAll cfg es (pendingDriver l) =
        (pendingDriver (l ++ es), (List.range' l.length es.length).map .ok) := by
  induction es with
  | nil =>
    intro l _
    rw [List.append_nil]
    rfl
  | cons e es ih =>
    intro l hlen
    rw [List.length_cons] at hlen
    have hv' : ∀ x ∈ es, validateRegion cfg x = .ok () :=
      fun x hx => hv x (List.mem_cons_of_mem e hx)
    have hstep : msmMinidumpAddRegion cfg true e (pendingDriver l) =
        (pendingDriver (l ++ [e]), .ok l.length) := by
      rcases add_pending_cases cfg true e l with ⟨err, hr⟩ | ⟨-, hr⟩
      · have hn : ¬ maxNumEntries ≤ (pendingDriver l).numRegions := by
          simp only [pendingDriver]
          omega
        rw [msmMinidumpAddRegion, hv e List.mem_cons_self] at hr
        simp only [if_neg hn] at hr
        cases congrArg Prod.snd hr
      · exact hr
    have hrest := ih hv' (l := l ++ [e]) (by rw [List.length_append, List.length_singleton]; omega)
    simp only [addAll, hstep, hrest]
    rw [List.append_assoc, List.singleton_append, List.length_append, List.length_singleton,
      List.length_cons, List.range'_succ, List.map_cons]

/-! ## Adding after the probe -/

/-- The region table and the table of contents are the same in both. -/
def SamePublished (t t' : MdTable) : Prop := t.mdRegions = t'.mdRegions ∧ t.mdSsToc = t'.mdSsToc

theorem newSsRegion_congr {t t' : MdTable} (h : SamePublished t t') (e : MdRegion) :
    newSsRegion e t = newSsRegion e t' := by
  have hstep : regionNumStep t e.name = regionNumStep t' e.name := by
    funext acc i
    rw [regionNumStep, regionNumStep, h.1]
  have hnum : mdRegionNum t e.name 0 = mdRegionNum t' e.name 0 := by
    rw [mdRegionNum, mdRegionNum, hstep, h.2]
  rw [newSsRegion, newSsRegion, hnum, h.1, h.2]

theorem SamePublished.add {d d' : Driver} (h : SamePublished d.minidumpTable d'.minidumpTable)
    (e : MdRegion) :
    SamePublished (mdAddSsToc cfg e d).minidumpTable (mdAddSsToc cfg e d').minidumpTable := by
  simp only [SamePublished, mdAddSsToc, newSsRegion_congr h e, h.1, h.2, and_self]

/-- After the probe every valid region with a new name is accepted while there is room.  The
region table then gets the records that draining the pending list writes. -/
theorem addAll_refines {addrs : HeaderAddrs} {es : List MdRegion} :
    ∀ {d w : Driver} {r : Registry cfg} {n : Nat}, Refines addrs d r →
      (∀ e ∈ es, validateRegion cfg e = .ok ()) →
      ((r.regions ++ es).map MdRegion.name).Nodup → r.regions.length + es.length ≤ 197 →
      SamePublished w.minidumpTable d.minidumpTable →
      (addAll cfg es d).2 = (List.range' r.regions.length es.length).map .ok ∧
        (∃ r' : Registry cfg, r'.regions = r.regions ++ es ∧ Refines addrs (addAll cfg es d).1 r') ∧
        SamePublished (drainSmem cfg es n w).minidumpTable (addAll cfg es d).1.minidumpTable := by
  induction es with
  | nil =>
    intro d w r n hr _ _ _ hpub
    refine ⟨rfl, ⟨r, ?_, hr⟩, hpub⟩
    rw [List.append_nil]
  | cons e es ih =>
    intro d w r n hr hv hnd hlen hpub
    rw [List.length_cons] at hlen
    have hve := hv e List.mem_cons_self
    have hnew : e.name ∉ r.regions.map MdRegion.name := by
      rw [List.map_append, List.map_cons] at hnd
      intro hmem
      exact (List.nodup_append.mp hnd).2.2 _ hmem _ List.mem_cons_self rfl
    have hroom : r.regions.length < 197 := by omega
    have hstep := hr.addRegion_eq true hve hnew
    have hw : SamePublished (drainSmemStep cfg n e es w).minidumpTable
        (addedRegion cfg e d).minidumpTable := SamePublished.add hpub e
    have hrest := ih (n := n + 1) (hr.add hve hnew hroom)
      (fun x hx => hv x (List.mem_cons_of_mem e hx))
      (by rw [Registry.add, List.append_assoc]; exact hnd)
      (by rw [Registry.add, List.length_append, List.length_singleton]; omega) hw
    simp only [Registry.add, List.append_assoc, List.singleton_append, List.length_append,
      List.length_singleton] at hrest
    obtain ⟨hnums, hrefines, hpub'⟩ := hrest
    simp only [addAll, hstep]
    refine ⟨?_, hrefines, hpub'⟩
    rw [hnums, List.length_cons, List.range'_succ, List.map_cons]

end Add

/-! ## The two runs -/

section Compare

variable {cfg : Config} {p : Platform} {es : List MdRegion}

/-- Where the two runs end. -/
theorem runs_eq {toc : MdGlobalToc} (hp : p.HasSmem toc) (hlen : es.length ≤ 197)
    (hv : ∀ e ∈ es, validateRegion cfg e = .ok ()) :
    addThenProbe cfg p es = (smemReady cfg p toc es, (List.range' 0 es.length).map .ok) ∧
      probeThenAdd cfg p es = addAll cfg es (smemReady cfg p toc []) := by
  have hpending := addAll_pending hv (l := []) (by rw [List.length_nil, maxNumEntries_eq]; omega)
  have hinitial : Driver.initial = pendingDriver [] := rfl
  rw [addThenProbe, probeThenAdd, hinitial, hpending]
  simp only [hp.probe, List.nil_append, List.length_nil, and_self]

/-- **The numbers and the tables agree** whatever was waiting. -/
theorem deferred_tables_eq_direct {toc : MdGlobalToc} (hp : p.HasSmem toc) (hlen : es.length ≤ 197)
    (hv : ∀ e ∈ es, validateRegion cfg e = .ok ()) (hnd : (es.map MdRegion.name).Nodup) :
    (addThenProbe cfg p es).2 = (probeThenAdd cfg p es).2 ∧
      SameTables (addThenProbe cfg p es).1 (probeThenAdd cfg p es).1 := by
  obtain ⟨hadd, hprobe⟩ := runs_eq hp hlen hv
  have hready : Tables (smemReady cfg p toc es) es := tables_smemReady hv
  have hinit : Refines p.addrs (smemReady cfg p toc []) (Registry.empty cfg) := refines_init p toc
  have hboth := addAll_refines (n := 0) (w := smemEmpty p toc es) hinit hv hnd
    (by rw [Registry.empty, List.length_nil]; omega) ⟨rfl, rfl⟩
  simp only [Registry.empty, List.nil_append, List.length_nil] at hboth
  obtain ⟨hnums, ⟨r', hr', href⟩, hpub⟩ := hboth
  have htables := href.tables
  rw [hr'] at htables
  rw [hadd, hprobe]
  refine ⟨hnums.symm, ?_, ?_, ?_, ?_⟩
  · rw [hready.num, htables.num]
  · rw [hready.num, htables.num, hready.filled.entries, htables.filled.entries]
  · rw [hready.filled.count, htables.filled.count]
  · have hregions : (smemReady cfg p toc es).minidumpTable.mdRegions =
        (addAll cfg es (smemReady cfg p toc [])).1.minidumpTable.mdRegions := hpub.1
    rw [hready.filled.count, htables.filled.count, hregions]

/-- **When registering early makes no difference**: only when nothing was registered.  Every
region that was waiting lacks its section and its program header. -/
theorem deferred_eq_direct_iff (hp : p.rm = false)
    (hdone : (msmMinidumpDriverProbe cfg p true (fun _ => true) Driver.initial).1.mdInitDone = true)
    (hlen : es.length ≤ 197) (hv : ∀ e ∈ es, validateRegion cfg e = .ok ())
    (hnd : (es.map MdRegion.name).Nodup) :
    SameOutcome (addThenProbe cfg p es) (probeThenAdd cfg p es) ↔ es = [] := by
  constructor
  · intro h
    obtain ⟨toc, htoc⟩ := probe_hasSmem (l := []) hp hdone
    obtain ⟨hadd, hprobe⟩ := runs_eq htoc hlen hv
    have hshnum := h.headers.shnum
    have hinit : Refines p.addrs (smemReady cfg p toc []) (Registry.empty cfg) := refines_init p toc
    have hboth := addAll_refines (n := 0) (w := smemEmpty p toc es) hinit hv hnd
      (by rw [Registry.empty, List.length_nil]; omega) ⟨rfl, rfl⟩
    simp only [Registry.empty, List.nil_append] at hboth
    obtain ⟨-, ⟨r', hr', href⟩, -⟩ := hboth
    -- the drained list left the headers as they were built, with four sections
    have hdeferred : eShnum (smemReady cfg p toc es).minidumpElfheader.ehdr = 4 := by
      rw [smemReady_frame.elfheader]
      exact (represents_buildHeader p.addrs).shnum
    rw [hadd, hprobe, hdeferred, href.elf.shnum, imageOf_sections_length, hr'] at hshnum
    exact List.length_eq_zero_iff.mp (by omega)
  · rintro rfl
    exact SameOutcome.refl _

end Compare

theorem deferred_eq_direct_iff_kmsg :
    SameOutcome
        (addThenProbe Config.plain (Platform.plain false)
          [⟨CStr.ofString "KMSG", 0, 0x1000, 0x81000000, 64⟩])
        (probeThenAdd Config.plain (Platform.plain false)
          [⟨CStr.ofString "KMSG", 0, 0x1000, 0x81000000, 64⟩]) ↔
      [(⟨CStr.ofString "KMSG", 0, 0x1000, 0x81000000, 64⟩ : MdRegion)] = [] :=
  deferred_eq_direct_iff rfl rfl (by decide) (by decide +kernel) (by decide +kernel)

/-- **A region that was waiting** has no section. -/
theorem waiting_region_has_no_section :
    ¬ ∀ es : List MdRegion, es.length ≤ 197 → (∀ e ∈ es, validateRegion Config.plain e = .ok ()) →
      (es.map MdRegion.name).Nodup →
      SameOutcome (addThenProbe Config.plain (Platform.plain false) es)
        (probeThenAdd Config.plain (Platform.plain false) es) := by
  intro h
  have hsame := h [⟨CStr.ofString "KMSG", 0, 0x1000, 0x81000000, 64⟩] (by decide)
    (by decide +kernel) (by decide +kernel)
  have hshnum := hsame.headers.shnum
  revert hshnum
  decide +kernel

/-! ## The places that are written -/

/-- The places one turn of the loop over the pending list writes: two of the driver's table, and
one of the region table. -/
structure DrainWrite where
  regionNumber : Nat
  numRegions : Nat
  ssRegionCount : Nat

/-- They are in the tables. -/
def DrainWrite.Inside (w : DrainWrite) : Prop :=
  w.regionNumber < maxNumEntries ∧ w.numRegions < maxNumEntries ∧ w.ssRegionCount < maxNumEntries

/-- The places `drainSmem` writes. -/
def drainWrites (cfg : Config) : List MdRegion → Nat → Driver → List DrainWrite
  | [], _, _ => []
  | e :: es, n, d =>
    ⟨n, d.numRegions, d.minidumpTable.mdSsToc.ssRegionCount⟩ ::
      drainWrites cfg es (n + 1) (drainSmemStep cfg n e es d)

/-- The places `msm_minidump_driver_probe` writes in SMEM mode while it drains the pending list. -/
def probeWrites (cfg : Config) (p : Platform) (d : Driver) : List DrainWrite :=
  match probeTables p (probeMode p d) with
  | (d, .ok (some ())) =>
    let d := (msmMinidumpAddHeader p true d).1
    if d.isRmMinidump then [] else drainWrites cfg d.pendingList 0 (enableToc d)
  | _ => []

section Places

variable {cfg : Config} {p : Platform}

/-- Turn `i` of the loop: `num_regions` stays what it was before. -/
theorem mem_drainWrites {es : List MdRegion} {n : Nat} {d : Driver} {w : DrainWrite} :
    w ∈ drainWrites cfg es n d ↔ ∃ i, i < es.length ∧
      w = ⟨n + i, d.numRegions, d.minidumpTable.mdSsToc.ssRegionCount + i⟩ := by
  induction es generalizing n d with
  | nil => simp [drainWrites]
  | cons e es ih =>
    rw [drainWrites, List.mem_cons, ih]
    have hcount : (drainSmemStep cfg n e es d).minidumpTable.mdSsToc.ssRegionCount =
        d.minidumpTable.mdSsToc.ssRegionCount + 1 := rfl
    have hnum : (drainSmemStep cfg n e es d).numRegions = d.numRegions := rfl
    rw [hcount, hnum, List.length_cons]
    constructor
    · rintro (rfl | ⟨i, hi, rfl⟩)
      · exact ⟨0, by omega, rfl⟩
      · refine ⟨i + 1, by omega, ?_⟩
        rw [Nat.add_right_comm n, Nat.add_right_comm d.minidumpTable.mdSsToc.ssRegionCount]
        rfl
    · rintro ⟨i, hi, rfl⟩
      cases i with
      | zero => exact Or.inl rfl
      | succ i =>
        refine Or.inr ⟨i, by omega, ?_⟩
        rw [Nat.add_right_comm n, Nat.add_right_comm d.minidumpTable.mdSsToc.ssRegionCount]
        rfl

theorem probeWrites_pending {toc : MdGlobalToc} (hp : p.HasSmem toc) (l : List MdRegion) :
    probeWrites cfg p (pendingDriver l) = drainWrites cfg l 0 (smemEmpty p toc l) := by
  simp only [probeWrites, probeTables, probeSmemTable, hp.globalToc, hp.ready, hp.tableAlloc,
    hp.regionsAlloc, msmMinidumpAddHeader, probeMode, hp.rm, pendingDriver, Driver.initial,
    Bool.not_true, Bool.false_eq_true, if_false]
  rfl

/-- With `l` waiting. -/
theorem probeWrites_inside_iff {toc : MdGlobalToc} (hp : p.HasSmem toc) (l : List MdRegion) :
    (∀ w ∈ probeWrites cfg p (pendingDriver l), w.Inside) ↔ l.length ≤ 200 := by
  have hnum : (smemEmpty p toc l).numRegions = l.length := rfl
  have hcount : (smemEmpty p toc l).minidumpTable.mdSsToc.ssRegionCount = 1 := rfl
  rw [probeWrites_pending hp]
  constructor
  · intro h
    by_contra hlong
    -- already the first turn writes at `num_regions`
    obtain ⟨-, hlt, -⟩ := h ⟨0, l.length, 1⟩ (mem_drainWrites.mpr ⟨0, by omega, rfl⟩)
    rw [maxNumEntries_eq] at hlt
    exact hlong (Nat.le_of_lt_succ hlt)
  · intro hlen w hw
    obtain ⟨i, hi, rfl⟩ := mem_drainWrites.mp hw
    rw [hnum, hcount]
    refine ⟨?_, ?_, ?_⟩ <;> simp only [maxNumEntries_eq] <;> omega

/-- Before the probe every valid region is accepted, as long as there are places. -/
theorem preProbe_accepts {l : List MdRegion} (hv : ∀ e ∈ l, validateRegion cfg e = .ok ())
    (hlen : l.length ≤ maxNumEntries) :
    (preProbe cfg (l.map (Prod.mk true))).driver = pendingDriver l := by
  have hfold : ∀ (es : List MdRegion) (s : Client),
      ((es.map (Prod.mk true)).foldl (fun s be => s.step cfg (.add be.1 be.2)) s).driver =
        (addAll cfg es s.driver).1 := by
    intro es
    induction es with
    | nil =>
      intro s
      rfl
    | cons e es ih =>
      intro s
      rw [List.map_cons, List.foldl_cons, ih]
      rfl
  have hall := addAll_pending hv (l := []) (by simpa using hlen)
  rw [preProbe, hfold]
  exact congrArg Prod.fst hall

end Places

/-- **The loop over the pending list writes inside of the tables** if and only if at most 200
regions were waiting. -/
theorem drain_inside_iff {cfg : Config} {p : Platform} {toc : MdGlobalToc} (hp : p.HasSmem toc)
    (es : List (Bool × MdRegion)) :
    (∀ w ∈ probeWrites cfg p (preProbe cfg es).driver, w.Inside) ↔
      (preProbe cfg es).driver.pendingList.length ≤ 200 := by
  obtain ⟨l, hl, -⟩ := preProbe_waiting cfg es
  rw [hl.driver]
  exact probeWrites_inside_iff hp l

theorem drain_inside_iff_kmsg :
    (∀ w ∈ probeWrites Config.plain (Platform.plain false) (preProbe Config.plain
        [(true, ⟨CStr.ofString "KMSG", 0, 0x1000, 0x81000000, 64⟩)]).driver, w.Inside) ↔
      (preProbe Config.plain
        [(true, ⟨CStr.ofString "KMSG", 0, 0x1000, 0x81000000, 64⟩)]).driver.pendingList.length ≤
        200 :=
  drain_inside_iff (show (Platform.plain false).HasSmem ⟨true, 1, 1, ⟨0, 0, 0, 0, 0, 0⟩⟩ from
    ⟨rfl, rfl, rfl, rfl, rfl⟩) _

/-- **201 regions are accepted**, and then the first of them is written behind the table. -/
theorem drain_writes_behind_table :
    ¬ ∀ es, ∀ w ∈ probeWrites Config.plain (Platform.plain false)
      (preProbe Config.plain es).driver, w.Inside := by
  intro h
  let toc : MdGlobalToc := ⟨true, 1, 1, ⟨0, 0, 0, 0, 0, 0⟩⟩
  have hp : (Platform.plain false).HasSmem toc := ⟨rfl, rfl, rfl, rfl, rfl⟩
  let e : MdRegion := ⟨CStr.ofString "KMSG", 0, 0x1000, 0x81000000, 64⟩
  have hv : ∀ x ∈ List.replicate 201 e, validateRegion Config.plain x = .ok () := by
    intro x hx
    rw [List.eq_of_mem_replicate hx]
    decide +kernel
  have hall := h ((List.replicate 201 e).map (Prod.mk true))
  rw [preProbe_accepts hv (by rw [List.length_replicate]; exact Nat.le_refl 201)] at hall
  have hle := (probeWrites_inside_iff hp _).mp hall
  rw [List.length_replicate] at hle
  omega

end SafelinuxDbg.Minidump
