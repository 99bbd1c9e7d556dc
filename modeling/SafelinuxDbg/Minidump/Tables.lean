import Mathlib.Data.List.InsertIdx
import Mathlib.Data.List.Nodup
import SafelinuxDbg.Minidump.Calls

/-!
# The two tables

In SMEM mode every region is in the driver's own table `entry` and, one place further on, in
the table `md_regions` the boot loader reads.  `Tables d R` says that the two hold the list `R`
of regions, in order.

* `tables_smemReady`: so they do after the probe, with the regions that were waiting.
* `Tables.add`, `Tables.update`, `Tables.remove`: the calls append to the list, change two
  addresses, and take an element out.
-/

namespace SafelinuxDbg.Minidump

open CMemory

/-- What a record of the region table says about its region. -/
def MdSsRegion.view (r : MdSsRegion) : CStr × UInt64 × UInt64 :=
  (r.name, r.regionBaseAddress, r.regionSize)

/-- What the region table should say about a region. -/
def MdRegion.view (e : MdRegion) : CStr × UInt64 × UInt64 := (e.name, e.physAddr, e.size)

/-- A region moved to the addresses of `e`. -/
def MdRegion.moveTo (e r : MdRegion) : MdRegion :=
  { r with virtAddr := e.virtAddr, physAddr := e.physAddr }

/-- What a move leaves alone stays the same in the whole list. -/
theorem map_modify_moveTo {β : Type*} {e : MdRegion} (f : MdRegion → β)
    (hf : ∀ r, f (MdRegion.moveTo e r) = f r) (R : List MdRegion) (i : Nat) :
    (R.modify i (MdRegion.moveTo e)).map f = R.map f := by
  apply List.ext_getElem (by simp)
  intro k h1 h2
  rw [List.getElem_map, List.getElem_map, List.getElem_modify]
  split
  · exact hf _
  · rfl

/-- The two tables hold the first regions `R`. -/
structure Filled (t : MdTable) (R : List MdRegion) : Prop where
  count : t.mdSsToc.ssRegionCount = R.length + 1
  entries : slice t.entry 0 R.length = R
  regions : (slice t.mdRegions 1 R.length).map MdSsRegion.view = R.map MdRegion.view

/-- The two tables hold the regions `R` and no others. -/
structure Tables (d : Driver) (R : List MdRegion) : Prop where
  num : d.numRegions = R.length
  filled : Filled d.minidumpTable R

theorem names_inj {R : List MdRegion} (hnd : (R.map MdRegion.name).Nodup) {i j : Nat}
    (hi : i < R.length) (hj : j < R.length) (h : R[i].name = R[j].name) : i = j := by
  have hi' : i < (R.map MdRegion.name).length := by rwa [List.length_map]
  have hj' : j < (R.map MdRegion.name).length := by rwa [List.length_map]
  have hget : (R.map MdRegion.name)[i] = (R.map MdRegion.name)[j] := by
    rw [List.getElem_map, List.getElem_map, h]
  exact (List.Nodup.getElem_inj_iff hnd).mp hget

theorem name_truncate {cfg : Config} {e : MdRegion} (hv : validateRegion cfg e = .ok ()) :
    e.name.truncate cfg.maxNameLength = e.name ∧ e.name.truncate 15 = e.name := by
  obtain ⟨hlen, -, -⟩ := validateRegion_eq_ok.mp hv
  have hmax := cfg.maxNameLength_le
  exact ⟨CStr.truncate_of_le hlen, CStr.truncate_of_le (by omega)⟩

theorem newSsRegion_view (e : MdRegion) (t : MdTable) :
    (newSsRegion e t).view = (e.name.truncate 15, e.physAddr, e.size) := by
  rw [newSsRegion]
  simp only [MdSsRegion.view, maxRegionNameLength_eq]
  split <;> rfl

/-- `md_add_ss_toc` with its entry in place `R.length` of the first table. -/
theorem Filled.push {cfg : Config} {t : MdTable} {R : List MdRegion} {e : MdRegion}
    (h : Filled t R) (hv : validateRegion cfg e = .ok ()) {entry : Nat → MdRegion}
    (he : slice entry 0 (R.length + 1) = R ++ [e]) :
    Filled { t with
      entry := entry
      mdRegions := Function.update t.mdRegions t.mdSsToc.ssRegionCount (newSsRegion e t)
      mdSsToc := { t.mdSsToc with ssRegionCount := t.mdSsToc.ssRegionCount + 1 } } (R ++ [e]) := by
  have hlen : (R ++ [e]).length = R.length + 1 := by simp
  constructor
  · simp only [h.count, hlen]
  · rw [hlen]
    exact he
  · have hnew := slice_update_succ t.mdRegions 1 R.length (newSsRegion e t)
    rw [Nat.add_comm 1 R.length] at hnew
    simp only [h.count, hlen, hnew]
    rw [List.map_append, List.map_append, h.regions, List.map_singleton, List.map_singleton,
      newSsRegion_view, (name_truncate hv).2]
    rfl

/-! ## After the probe -/

/-- Draining the pending list leaves everything but the tables alone. -/
structure DrainFrame (d d' : Driver) : Prop where
  elfheader : d'.minidumpElfheader = d.minidumpElfheader
  firstRemoved : d'.firstRemovedEntry = d.firstRemovedEntry
  num : d'.numRegions = d.numRegions
  rm : d'.isRmMinidump = d.isRmMinidump
  mapped : d'.minidumpTable.tocMapped = d.minidumpTable.tocMapped
  enabled : d'.minidumpTable.mdSsToc.mdSsEnableStatus = d.minidumpTable.mdSsToc.mdSsEnableStatus
  tocInit : d'.minidumpTable.mdSsToc.mdSsTocInit = d.minidumpTable.mdSsToc.mdSsTocInit

theorem drainSmem_frame (cfg : Config) (es : List MdRegion) (n : Nat) (d : Driver) :
    DrainFrame d (drainSmem cfg es n d) := by
  induction es generalizing n d with
  | nil => exact ⟨rfl, rfl, rfl, rfl, rfl, rfl, rfl⟩
  | cons e es ih =>
    rw [drainSmem]
    obtain ⟨h1, h2, h3, h4, h5, h6, h7⟩ := ih (n + 1) (drainSmemStep cfg n e es d)
    exact ⟨h1, h2, h3, h4, h5, h6, h7⟩

theorem drainSmem_pending {cfg : Config} {es : List MdRegion} :
    ∀ {n : Nat} {d : Driver}, d.pendingList = es →
      (drainSmem cfg es n d).pendingList = [] ∧
        (drainSmem cfg es n d).mdInitDone = d.mdInitDone ∧
        (drainSmem cfg es n d).minidumpRmTable = d.minidumpRmTable := by
  induction es with
  | nil =>
    intro n d h
    exact ⟨h, rfl, rfl⟩
  | cons e es ih =>
    intro n d _
    exact ih rfl

theorem drained_pending (cfg : Config) (d : Driver) :
    (drainSmem cfg d.pendingList 0 (enableToc d)).pendingList = [] ∧
      (drainSmem cfg d.pendingList 0 (enableToc d)).mdInitDone = d.mdInitDone ∧
      (drainSmem cfg d.pendingList 0 (enableToc d)).minidumpRmTable = d.minidumpRmTable :=
  drainSmem_pending rfl

/-- With `ds` drained already, draining `es` fills the tables with `ds ++ es`.  The place that
`md_add_ss_toc` writes in the first table is the one past all of them. -/
theorem drainSmem_filled {cfg : Config} {es : List MdRegion} :
    ∀ {ds : List MdRegion} {d : Driver}, Filled d.minidumpTable ds →
      d.numRegions = ds.length + es.length → (∀ e ∈ es, validateRegion cfg e = .ok ()) →
      Filled (drainSmem cfg es ds.length d).minidumpTable (ds ++ es) := by
  induction es with
  | nil =>
    intro ds d h _ _
    rw [List.append_nil]
    exact h
  | cons e es ih =>
    intro ds d h hnum hv
    rw [List.length_cons] at hnum
    have hold := slice_update_succ d.minidumpTable.entry 0 ds.length e
    rw [Nat.zero_add, h.entries] at hold
    have hwritten : Filled { d.minidumpTable with
        entry := Function.update d.minidumpTable.entry ds.length e } ds := by
      refine ⟨h.count, ?_, h.regions⟩
      rw [slice_succ] at hold
      exact (List.append_inj hold (by simp)).1
    have hstep : Filled (drainSmemStep cfg ds.length e es d).minidumpTable (ds ++ [e]) := by
      apply hwritten.push (hv e List.mem_cons_self)
      rw [← hold]
      apply slice_congr
      intro i hi
      exact Function.update_of_ne (by simp only; omega) _ _
    have hlen : ds.length + 1 = (ds ++ [e]).length := by simp
    rw [drainSmem, List.append_cons, hlen]
    apply ih hstep
    · rw [← hlen]
      simp only [drainSmemStep, mdAddSsToc]
      omega
    · intro x hx
      exact hv x (List.mem_cons_of_mem _ hx)

section Ready

variable {cfg : Config} {p : Platform} {toc : MdGlobalToc} {l : List MdRegion}

theorem smemReady_frame : DrainFrame (smemEmpty p toc l) (smemReady cfg p toc l) := by
  obtain ⟨h1, h2, h3, h4, h5, h6, h7⟩ := drainSmem_frame cfg l 0 (smemEmpty p toc l)
  exact ⟨h1, h2, h3, h4, h5, h6, h7⟩

theorem smem_smemReady : Smem (smemReady cfg p toc l) := by
  have hf : DrainFrame (smemEmpty p toc l) (smemReady cfg p toc l) := smemReady_frame
  refine ⟨hf.rm, ?_, rfl⟩
  rw [tocEnabled, hf.mapped, hf.enabled]
  rfl

/-- **After the probe** the tables hold the regions that were waiting. -/
theorem tables_smemReady (hl : ∀ e ∈ l, validateRegion cfg e = .ok ()) :
    Tables (smemReady cfg p toc l) l := by
  refine ⟨smemReady_frame.num, ?_⟩
  have hempty : Filled (smemEmpty p toc l).minidumpTable [] := ⟨rfl, rfl, rfl⟩
  exact drainSmem_filled hempty (by rw [List.length_nil, Nat.zero_add]; rfl) hl

end Ready

/-! ## The calls -/

namespace Tables

variable {cfg : Config} {d : Driver} {R : List MdRegion} {e : MdRegion} {i : Nat}

theorem entry_eq (h : Tables d R) (hi : i < R.length) : d.minidumpTable.entry i = R[i] := by
  have hs := slice_getElem? d.minidumpTable.entry 0 hi
  rw [h.filled.entries, List.getElem?_eq_getElem hi, Nat.zero_add, Option.some.injEq] at hs
  exact hs.symm

theorem view_eq (h : Tables d R) (hi : i < R.length) :
    (d.minidumpTable.mdRegions (i + 1)).view = R[i].view := by
  have hl : ((slice d.minidumpTable.mdRegions 1 R.length).map MdSsRegion.view)[i]? =
      (R.map MdRegion.view)[i]? := by rw [h.filled.regions]
  rw [map_slice_getElem? _ _ _ hi, List.getElem?_map, List.getElem?_eq_getElem hi, Option.map_some,
    Option.some.injEq, Nat.add_comm 1 i] at hl
  exact hl

theorem region_name (h : Tables d R) (hi : i < R.length) :
    (d.minidumpTable.mdRegions (i + 1)).name = R[i].name := congrArg Prod.fst (h.view_eq hi)

/-- A name is looked up among the regions. -/
theorem mdEntryNum_eq_error (h : Tables d R) {err : Errno} :
    mdEntryNum d e = .error err ↔ err = .ENOENT ∧ e.name ∉ R.map MdRegion.name := by
  rw [mdEntryNum, firstNamed_eq_error, h.num]
  constructor
  · rintro ⟨rfl, hall⟩
    refine ⟨rfl, ?_⟩
    intro hmem
    obtain ⟨r, hr, hname⟩ := List.mem_map.mp hmem
    obtain ⟨i, hi, rfl⟩ := List.getElem_of_mem hr
    exact hall i hi (by rw [h.entry_eq hi, hname])
  · rintro ⟨rfl, hnot⟩
    refine ⟨rfl, ?_⟩
    intro j hj hname
    rw [h.entry_eq hj] at hname
    exact hnot (List.mem_map.mpr ⟨R[j], List.getElem_mem hj, hname⟩)

/-- With distinct names, a region is found by its name in both tables. -/
theorem lookups_eq (h : Tables d R) (hnd : (R.map MdRegion.name).Nodup) (hi : i < R.length)
    (hname : R[i].name = e.name) (seqno : UInt32) :
    mdEntryNum d e = .ok i ∧ (mdRegionNum d.minidumpTable e.name seqno).1 = .ok (i + 1) := by
  have hinj : ∀ j (hj : j < R.length), R[j].name = e.name → j = i := by
    intro j hj hjn
    exact names_inj hnd hj hi (hjn.trans hname.symm)
  refine ⟨?_, ?_⟩
  · rw [mdEntryNum, firstNamed_eq_ok, h.num]
    refine ⟨hi, by rw [h.entry_eq hi, hname], ?_⟩
    intro j hj hjn
    rw [h.entry_eq (by omega)] at hjn
    have := hinj j (by omega) hjn
    omega
  · rw [mdRegionNum_eq_ok, h.filled.count]
    refine ⟨by omega, by rw [h.region_name hi, hname], ?_⟩
    intro j h1 h2 hjn
    obtain ⟨k, rfl⟩ : ∃ k, j = k + 1 := ⟨j - 1, by omega⟩
    rw [h.region_name (by omega)] at hjn
    have := hinj k (by omega) hjn
    omega

theorem add (h : Tables d R) (hv : validateRegion cfg e = .ok ()) :
    Tables (addedRegion cfg e d) (R ++ [e]) := by
  have hmdr : { e with name := e.name.truncate cfg.maxNameLength } = e := by
    rw [(name_truncate hv).1]
  constructor
  · simp [addedRegion, h.num]
  · apply h.filled.push hv
    have hnew := slice_update_succ d.minidumpTable.entry 0 R.length e
    rw [Nat.zero_add, h.filled.entries] at hnew
    rw [h.num, hmdr, hnew]

theorem update (h : Tables d R) (hi : i < R.length) (e : MdRegion) :
    Tables (updatedHeaders i e (updatedTables i e d)) (R.modify i (MdRegion.moveTo e)) := by
  have hlen : (R.modify i (MdRegion.moveTo e)).length = R.length := List.length_modify ..
  constructor
  · rw [hlen]
    exact h.num
  constructor
  · rw [hlen]
    exact h.filled.count
  · have hnew := slice_update d.minidumpTable.entry 0 R.length i
      { d.minidumpTable.entry i with virtAddr := e.virtAddr, physAddr := e.physAddr }
    rw [Nat.zero_add, h.filled.entries, h.entry_eq hi] at hnew
    rw [hlen, List.modify_eq_set_get _ hi]
    simp only [updatedHeaders, updatedTables, h.entry_eq hi]
    exact hnew
  · have hnew := slice_update d.minidumpTable.mdRegions 1 R.length i
      { d.minidumpTable.mdRegions (i + 1) with regionBaseAddress := e.physAddr }
    rw [Nat.add_comm 1 i] at hnew
    rw [hlen, List.modify_eq_set_get _ hi, List.map_set]
    simp only [updatedHeaders, updatedTables]
    rw [hnew, List.map_set, h.filled.regions]
    congr 1
    have hview := h.view_eq hi
    simp only [MdSsRegion.view, MdRegion.view, MdRegion.moveTo, Prod.mk.injEq] at hview ⊢
    exact ⟨hview.1, trivial, hview.2.2⟩

/-- Taking entry `i` and region `i + 1` out shifts both tables down, and leaves a cleared record
at their ends. -/
theorem shift (h : Tables d R) (hi : i < R.length) :
    slice (shiftTables i (i + 1) d).minidumpTable.entry 0 R.length =
      R.eraseIdx i ++ [MdRegion.zero] ∧
    (slice (shiftTables i (i + 1) d).minidumpTable.mdRegions 1 R.length).map MdSsRegion.view =
      (R.eraseIdx i).map MdRegion.view ++ [MdSsRegion.zero.view] := by
  constructor
  · have hnew := slice_memmove_memset d.minidumpTable.entry 0 hi MdRegion.zero
    rw [Nat.zero_add, Nat.zero_add, h.filled.entries] at hnew
    simp only [shiftTables, h.num]
    exact hnew
  · have hnew := slice_memmove_memset d.minidumpTable.mdRegions 1 hi MdSsRegion.zero
    rw [Nat.add_comm 1 i, Nat.add_comm 1 R.length] at hnew
    simp only [shiftTables, h.filled.count, Nat.add_sub_add_right, Nat.sub_sub]
    rw [Nat.sub_sub] at hnew
    rw [hnew, List.map_append, ← List.eraseIdx_map, h.filled.regions, List.eraseIdx_map]
    rfl

theorem remove (h : Tables d R) (hi : i < R.length) (e : MdRegion) :
    Tables (removedRegion i (i + 1) e d) (R.eraseIdx i) := by
  obtain ⟨hentry, hregion⟩ := h.shift hi
  have hlen : (R.eraseIdx i).length = R.length - 1 := List.length_eraseIdx_of_lt hi
  have hsucc : R.length = R.length - 1 + 1 := by omega
  rw [hsucc, slice_succ] at hentry hregion
  rw [List.map_append] at hregion
  constructor
  · rw [hlen]
    simp only [removedRegion, h.num]
  constructor
  · rw [hlen]
    simp only [removedRegion, shiftTables, h.filled.count]
    omega
  · rw [hlen]
    exact (List.append_inj hentry (by simp; omega)).1
  · rw [hlen]
    exact (List.append_inj hregion (by simp; omega)).1

end Tables

end SafelinuxDbg.Minidump
