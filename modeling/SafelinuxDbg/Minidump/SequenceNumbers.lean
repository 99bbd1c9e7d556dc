import SafelinuxDbg.Lib.Occurrences
import SafelinuxDbg.Minidump.RegionNumbers

/-!
# Sequence numbers

The boot loader tells regions apart by name and sequence number.  `md_add_ss_toc` gives a region
one more than the largest number of its name, and does not write the number at all when the name
is new: it relies on the record having been cleared.  Names are found twice only when they were
waiting for the probe, and with `KELF_HDR`, which is not in the driver's own table.

A removal takes out the last record of its name, which has the largest number.  So a number is
always the count of earlier records with the name (`Sequenced`).

* `mdRegionNum_sequenced`: what `md_region_num` finds then.
* `regions_told_apart`: no two records have the same name and number.
-/

namespace SafelinuxDbg.Minidump

open CMemory

/-- The records of the region table. -/
def regionRecords (t : MdTable) : List MdSsRegion := slice t.mdRegions 0 t.mdSsToc.ssRegionCount

/-- The number of a record counts the earlier ones of its name, and the records that are not in use
have the number 0. -/
structure Sequenced (t : MdTable) : Prop where
  counts : CountsEarlier MdSsRegion.name (fun r => r.seqNum.toNat) (regionRecords t)
  cleared : ∀ i, t.mdSsToc.ssRegionCount ≤ i → (t.mdRegions i).seqNum = 0
  few : t.mdSsToc.ssRegionCount ≤ maxNumEntries

/-! ## The lookup -/

section Lookup

variable {t : MdTable} {name : CStr}

theorem slice_counts {n : Nat} (h : Sequenced t) (hn : n < t.mdSsToc.ssRegionCount) :
    (t.mdRegions n).seqNum.toNat =
      keyCount MdSsRegion.name (slice t.mdRegions 0 n) (t.mdRegions n).name := by
  have hrecords : slice t.mdRegions 0 (n + 1) = (regionRecords t).take (n + 1) := by
    apply List.ext_getElem
    · simp only [slice_length, List.length_take, regionRecords]
      omega
    · intro i h1 h2
      rw [List.getElem_take, slice_getElem]
      exact (slice_getElem _ _ _ _).symm
  have hcut : CountsEarlier MdSsRegion.name (fun r => r.seqNum.toNat)
      (slice t.mdRegions 0 (n + 1)) := by
    rw [hrecords]
    have hcounts := h.counts
    rw [← List.take_append_drop (n + 1) (regionRecords t)] at hcounts
    exact hcounts.of_append
  rw [slice_succ, Nat.zero_add] at hcut
  exact hcut _ _ [] rfl

/-- The loop of `md_region_num` after `n` records. -/
theorem regionNum_sequenced (h : Sequenced t) (n : Nat) (hn : n ≤ t.mdSsToc.ssRegionCount) :
    let found := (List.range n).foldl (regionNumStep t name) (.error .EINVAL, 0)
    (found = (.error .EINVAL, 0) ∧ keyCount MdSsRegion.name (slice t.mdRegions 0 n) name = 0) ∨
      ((∃ i, found.1 = .ok i) ∧
        found.2.toNat + 1 = keyCount MdSsRegion.name (slice t.mdRegions 0 n) name) := by
  induction n with
  | zero => exact Or.inl ⟨rfl, rfl⟩
  | succ n ih =>
    have hseq := slice_counts h hn
    rw [List.range_succ, List.foldl_append, List.foldl_cons, List.foldl_nil, regionNumStep,
      slice_succ, keyCount_append, keyCount_cons, Nat.zero_add, keyCount_nil, Nat.zero_add]
    by_cases hname : (t.mdRegions n).name = name
    · rw [hname] at hseq
      rw [if_pos hname, if_pos hname]
      refine Or.inr ⟨⟨n, rfl⟩, ?_⟩
      dsimp only
      rcases ih (by omega) with ⟨hfound, hcount⟩ | ⟨-, hcount⟩
      · -- the first of its name has the number 0
        have hzero : (t.mdRegions n).seqNum = 0 := by
          apply UInt32.toNat_inj.mp
          rw [hseq, hcount]
          rfl
        rw [hfound, hzero, if_neg (by decide), hcount]
        rfl
      · rw [if_pos (UInt32.lt_iff_toNat_lt.mpr (by omega)), hseq]
    · rw [if_neg hname, if_neg hname, Nat.add_zero]
      exact ih (by omega)

/-- **What `md_region_num` finds** when the records are numbered: nothing, or the number of the last
record of the name. -/
theorem mdRegionNum_sequenced (h : Sequenced t) (name : CStr) :
    (mdRegionNum t name 0 = (.error .EINVAL, 0) ∧
        keyCount MdSsRegion.name (regionRecords t) name = 0) ∨
      ((∃ i, (mdRegionNum t name 0).1 = .ok i) ∧
        (mdRegionNum t name 0).2.toNat + 1 = keyCount MdSsRegion.name (regionRecords t) name) :=
  regionNum_sequenced h _ (Nat.le_refl _)

end Lookup

/-! ## Adding -/

section Add

variable {cfg : Config} {e : MdRegion} {t : MdTable}

/-- The record of a new region gets the next number of its name. -/
theorem newSsRegion_seqNum (h : Sequenced t) (e : MdRegion) :
    (newSsRegion e t).seqNum.toNat = keyCount MdSsRegion.name (regionRecords t) e.name := by
  have hlen : (regionRecords t).length = t.mdSsToc.ssRegionCount := slice_length _ _ _
  have hle := keyCount_le_length MdSsRegion.name (regionRecords t) e.name
  have hfew := h.few
  rw [hlen] at hle
  rw [maxNumEntries_eq] at hfew
  rw [newSsRegion]
  rcases mdRegionNum_sequenced h e.name with ⟨hfound, hcount⟩ | ⟨⟨i, hi⟩, hcount⟩
  · simp only [hfound, h.cleared _ (Nat.le_refl _), hcount]
    rfl
  · simp only [hi]
    have hone : (1 : UInt32).toNat = 1 := rfl
    rw [UInt32.toNat_add, hone]
    omega

/-- `md_add_ss_toc` keeps the numbers, whatever it writes into the other table. -/
theorem Sequenced.push (h : Sequenced t) (hv : validateRegion cfg e = .ok ())
    (hroom : t.mdSsToc.ssRegionCount < maxNumEntries) (entry : Nat → MdRegion) :
    Sequenced { t with
      entry := entry
      mdRegions := Function.update t.mdRegions t.mdSsToc.ssRegionCount (newSsRegion e t)
      mdSsToc := { t.mdSsToc with ssRegionCount := t.mdSsToc.ssRegionCount + 1 } } := by
  refine ⟨?_, ?_, hroom⟩
  · have hnew := slice_update_succ t.mdRegions 0 t.mdSsToc.ssRegionCount (newSsRegion e t)
    rw [Nat.zero_add] at hnew
    rw [regionRecords]
    dsimp only
    rw [hnew]
    refine h.counts.append ?_
    rw [newSsRegion_name hv]
    exact newSsRegion_seqNum h e
  · intro i hi
    dsimp only at hi ⊢
    rw [Function.update_of_ne (by omega)]
    exact h.cleared i (by omega)

theorem Sequenced.drain (es : List MdRegion) (hv : ∀ e ∈ es, validateRegion cfg e = .ok ()) :
    ∀ (n : Nat) (d : Driver), Sequenced d.minidumpTable →
      d.minidumpTable.mdSsToc.ssRegionCount + es.length ≤ maxNumEntries →
      Sequenced (drainSmem cfg es n d).minidumpTable := by
  induction es with
  | nil =>
    intro n d h _
    exact h
  | cons e es ih =>
    intro n d h hroom
    rw [List.length_cons] at hroom
    have hwritten : Sequenced { d.minidumpTable with
        entry := Function.update d.minidumpTable.entry n e } := ⟨h.counts, h.cleared, h.few⟩
    have hstep : Sequenced (drainSmemStep cfg n e es d).minidumpTable :=
      hwritten.push (hv e List.mem_cons_self) (by dsimp only; omega) _
    rw [drainSmem]
    refine ih (fun e he => hv e (List.mem_cons_of_mem _ he)) _ _ hstep ?_
    show d.minidumpTable.mdSsToc.ssRegionCount + 1 + es.length ≤ maxNumEntries
    omega

/-- After the probe the records are numbered. -/
theorem sequenced_smemReady {p : Platform} {toc : MdGlobalToc} {l : List MdRegion}
    (hv : ∀ e ∈ l, validateRegion cfg e = .ok ()) (hl : l.length ≤ 200) :
    Sequenced (smemReady cfg p toc l).minidumpTable := by
  have hempty : Sequenced (smemEmpty p toc l).minidumpTable := by
    refine ⟨?_, ?_, ?_⟩
    · exact CountsEarlier.nil.append rfl
    · intro i hi
      have hi : 1 ≤ i := hi
      show (Function.update (fun _ => MdSsRegion.zero) 0 (kelfRegion p) i).seqNum = 0
      rw [Function.update_of_ne (by omega)]
      rfl
    · show 1 ≤ 201
      omega
  refine hempty.drain l hv 0 _ ?_
  show 1 + l.length ≤ 201
  omega

end Add

/-! ## Updating and removing -/

section Remove

variable {e : MdRegion} {d : Driver}

/-- An update does not touch names and numbers. -/
theorem Sequenced.update (h : Sequenced d.minidumpTable) (regno : Nat) (e : MdRegion) :
    Sequenced (updatedTables regno e d).minidumpTable := by
  have hseq : ∀ i, ((updatedTables regno e d).minidumpTable.mdRegions i).seqNum =
      (d.minidumpTable.mdRegions i).seqNum := by
    intro i
    simp only [updatedTables]
    by_cases hi : i = regno + 1
    · subst hi
      rw [Function.update_self]
    · rw [Function.update_of_ne hi]
  refine ⟨?_, ?_, h.few⟩
  · refine h.counts.congr ?_
    rw [regionRecords, regionRecords, slice, slice, List.map_map, List.map_map]
    refine List.map_congr_left (fun i _ => ?_)
    simp only [Function.comp, hseq, updatedTables_region_name]
  · intro i hi
    rw [hseq]
    exact h.cleared i hi

/-- **A removal** takes out the last record of its name. -/
theorem Sequenced.remove (h : Sequenced d.minidumpTable) {entryno rgno : Nat}
    (hg : (mdRegionNum d.minidumpTable e.name 0).1 = .ok rgno) :
    Sequenced (removedRegion entryno rgno e d).minidumpTable := by
  obtain ⟨hlt, hname, hlast⟩ := mdRegionNum_eq_ok.mp hg
  have hnew := slice_memmove_memset d.minidumpTable.mdRegions 0 hlt MdSsRegion.zero
  rw [Nat.zero_add, Nat.zero_add] at hnew
  have hcount : (removedRegion entryno rgno e d).minidumpTable.mdSsToc.ssRegionCount =
      d.minidumpTable.mdSsToc.ssRegionCount - 1 := rfl
  have hrecords : regionRecords (removedRegion entryno rgno e d).minidumpTable =
      (regionRecords d.minidumpTable).eraseIdx rgno := by
    have hsucc : d.minidumpTable.mdSsToc.ssRegionCount =
        d.minidumpTable.mdSsToc.ssRegionCount - 1 + 1 := by omega
    have hslice : slice (removedRegion entryno rgno e d).minidumpTable.mdRegions 0
        (d.minidumpTable.mdSsToc.ssRegionCount - 1 + 1) =
        (regionRecords d.minidumpTable).eraseIdx rgno ++ [MdSsRegion.zero] := by
      rw [← hsucc]
      exact hnew
    rw [slice_succ] at hslice
    exact (List.append_inj' hslice rfl).1
  have hlen : (regionRecords d.minidumpTable).length = d.minidumpTable.mdSsToc.ssRegionCount :=
    slice_length _ _ _
  refine ⟨?_, ?_, ?_⟩
  · rw [hrecords, List.eraseIdx_eq_take_drop_succ]
    have hcounts := h.counts
    rw [← List.take_append_drop rgno (regionRecords d.minidumpTable),
      List.drop_eq_getElem_cons (by omega)] at hcounts
    refine hcounts.erase_last ?_
    intro r hr
    obtain ⟨k, hk, rfl⟩ := List.getElem_of_mem hr
    rw [List.length_drop] at hk
    rw [List.getElem_drop]
    simp only [regionRecords, slice_getElem, Nat.zero_add, hname]
    exact hlast _ (by omega) (by omega)
  · intro i hi
    rw [hcount] at hi
    simp only [removedRegion, shiftTables]
    rcases Nat.lt_or_ge i d.minidumpTable.mdSsToc.ssRegionCount with hlast | hbeyond
    · have hi : i = d.minidumpTable.mdSsToc.ssRegionCount - 1 + 0 := by omega
      rw [hi, memset_add _ _ Nat.one_pos]
      rfl
    · rw [memset_of_le _ _ (by omega), memmove_of_le _ (by omega)]
      exact h.cleared i hbeyond
  · have hfew := h.few
    rw [hcount]
    omega

end Remove

/-! ## Every run -/

/-- At most 200 regions were accepted before the probe, under any names. -/
def AtMost200 (cfg : Config) (es : List (Bool × MdRegion)) : Prop :=
  (preProbe cfg es).driver.pendingList.length ≤ 200

/-- A removal returns 0, or it is refused before it changes anything. -/
def WholeRemoval (cfg : Config) (s : Client) (c : Call) : Prop :=
  ∀ e, c = .remove e →
    (c.exec cfg s.driver).2 = .ok 0 ∨ (c.exec cfg s.driver).1 = s.driver

theorem sequenced_step {cfg : Config} {s : Client} {c : Call} (hsmem : Smem s.driver)
    (h : Sequenced s.driver.minidumpTable) (hwhole : WholeRemoval cfg s c) :
    Sequenced (s.step cfg c).driver.minidumpTable := by
  cases c with
  | add alloc e =>
    rw [Client.step, Call.exec]
    rcases add_cases cfg alloc e hsmem with ⟨err, hr⟩ | ⟨hv, -, hroom, -, hr⟩
    · rw [hr]
      exact h
    · rw [hr]
      exact h.push hv hroom _
  | update regno e =>
    rw [Client.step, Call.exec]
    rcases update_cases cfg true e hsmem regno with
      ⟨-, hr⟩ | ⟨-, -, -, err, hr⟩ | ⟨-, -, -, -, hr⟩
    · rw [hr]
      exact h
    · rw [hr]
      exact h
    · rw [hr]
      exact h.update regno e
  | remove e =>
    have hwhole := hwhole e rfl
    rw [Client.step]
    rw [Call.exec] at hwhole ⊢
    rcases remove_cases true e hsmem with
      ⟨⟨err, hr⟩, -⟩ | ⟨i, k, -, -, -, hr⟩ | ⟨i, k, pidx, shidx, -, hg, -, hr⟩
    · rw [hr]
      exact h
    · -- a removal that stops half-way is none of these
      rw [hr] at hwhole ⊢
      rcases hwhole with hok | hsame
      · cases hok
      · rw [hsame]
        exact h
    · rw [hr]
      exact h.remove hg

/-- **Name and sequence number tell the regions apart**, after any calls among which no removal
stops half-way. -/
theorem regions_told_apart {cfg : Config} {p : Platform} {s : Client}
    (hs : (smemClients cfg p (AtMost200 cfg)).Reach (WholeRemoval cfg) s) :
    ((slice s.driver.minidumpTable.mdRegions 0
      s.driver.minidumpTable.mdSsToc.ssRegionCount).map fun r => (r.name, r.seqNum)).Nodup := by
  have hseq : Smem s.driver ∧ Sequenced s.driver.minidumpTable := by
    refine hs.invariant (I := fun s => Smem s.driver ∧ Sequenced s.driver.minidumpTable) ?_ ?_
    · intro s hinit
      obtain ⟨es, l, toc, hpre, -, hvalid, hdriver, -, hl⟩ := smemClients_init hinit
      rw [AtMost200, hl] at hpre
      rw [hdriver]
      exact ⟨smem_smemReady, sequenced_smemReady hvalid hpre⟩
    · rintro s c t ⟨hsmem, hseq⟩ hwhole hstep
      cases hstep
      refine ⟨?_, sequenced_step hsmem hseq hwhole⟩
      cases c with
      | add alloc e => exact smem_add cfg alloc e hsmem
      | update regno e => exact smem_update cfg true e hsmem regno
      | remove e => exact smem_remove true e hsmem
  have hnodup := hseq.2.counts.nodup
  refine List.Nodup.of_map (fun x : CStr × UInt32 => (x.1, x.2.toNat)) ?_
  rw [List.map_map]
  exact hnodup

/-- Two regions of one name that waited, and one with the name of the header buffer. -/
theorem regions_told_apart_twins :
    let e : MdRegion := ⟨CStr.ofString "KMSG", 0, 0x1000, 0x81000000, 64⟩
    let s := ((preProbe Config.plain [(true, e), (true, e)]).probe Config.plain
      (Platform.plain false)).step Config.plain (.add true ⟨kelfHdr, 0, 0x2000, 0x82000000, 64⟩)
    ((slice s.driver.minidumpTable.mdRegions 0
      s.driver.minidumpTable.mdSsToc.ssRegionCount).map fun r => (r.name, r.seqNum)).Nodup := by
  intro e s
  have hinit : (smemClients Config.plain (Platform.plain false) (AtMost200 Config.plain)).init
      ((preProbe Config.plain [(true, e), (true, e)]).probe Config.plain (Platform.plain false)) :=
    ⟨rfl, rfl, [(true, e), (true, e)], by unfold AtMost200; decide +kernel, rfl⟩
  refine regions_told_apart (.step (.init hinit) ?_ rfl)
  intro e' he'
  cases he'

end SafelinuxDbg.Minidump
