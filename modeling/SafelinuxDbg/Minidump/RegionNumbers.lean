import Mathlib.Data.List.Perm.Basic
import SafelinuxDbg.Minidump.Tables

/-!
# Region numbers

`msm_minidump_update_region` finds its region by the number that was returned when the region
was added.  Removals shift the tables, so the driver keeps the lowest place that was ever
removed, `first_removed_entry`, and refuses the numbers from there on.

A removal whose headers cannot be cleared leaves cleared records behind and lets the two tables
drift apart, so that they need not agree any more.  `Numbered` is what is left: the two tables
hold the same names as often, they agree below the mark, and below the mark every number still
names its region.

* `numbered_step`, `numbered_reach`: every call keeps this, whatever its descriptor.
* `update_lands_on_its_region`: an accepted update changes the region it names.
-/

namespace SafelinuxDbg.Minidump

open CMemory

/-- The names in the driver's table. -/
def entryNames (d : Driver) : List CStr :=
  (slice d.minidumpTable.entry 0 d.numRegions).map MdRegion.name

/-- The names in the region table, without the header buffer's own. -/
def regionNames (d : Driver) : List CStr :=
  (slice d.minidumpTable.mdRegions 1 d.numRegions).map MdSsRegion.name

/-- What the tables and the numbers handed out have in common after any calls. -/
structure Numbered (s : Client) : Prop where
  smem : Smem s.driver
  count : s.driver.minidumpTable.mdSsToc.ssRegionCount = s.driver.numRegions + 1
  perm : (entryNames s.driver).Perm (regionNames s.driver)
  aligned : ∀ i, i < s.driver.firstRemovedEntry → i < s.driver.numRegions →
    (s.driver.minidumpTable.entry i).name = (s.driver.minidumpTable.mdRegions (i + 1)).name
  issued : ∀ name n, s.issued name = some n → n < s.driver.firstRemovedEntry →
    n < s.driver.numRegions ∧ (s.driver.minidumpTable.entry n).name = name

theorem entryNames_getElem? {d : Driver} {i : Nat} (hi : i < d.numRegions) :
    (entryNames d)[i]? = some (d.minidumpTable.entry i).name := by
  rw [entryNames, map_slice_getElem? _ _ _ hi, Nat.zero_add]

theorem mem_entryNames {d : Driver} {name : CStr} :
    name ∈ entryNames d ↔ ∃ i, i < d.numRegions ∧ (d.minidumpTable.entry i).name = name := by
  rw [entryNames, mem_map_slice]
  simp only [Nat.zero_add]

theorem regionNames_getElem? {d : Driver} {i : Nat} (hi : i < d.numRegions) :
    (regionNames d)[i]? = some (d.minidumpTable.mdRegions (i + 1)).name := by
  rw [regionNames, map_slice_getElem? _ _ _ hi, Nat.add_comm 1 i]

/-! ## Adding and updating -/

section Add

variable {cfg : Config} {e : MdRegion} {d : Driver}

theorem addedRegion_entry (hv : validateRegion cfg e = .ok ()) :
    (addedRegion cfg e d).minidumpTable.entry =
      Function.update d.minidumpTable.entry d.numRegions e := by
  have hmdr : { e with name := e.name.truncate cfg.maxNameLength } = e := by
    rw [(name_truncate hv).1]
  simp only [addedRegion, mdAddSsToc, hmdr]

theorem newSsRegion_name (hv : validateRegion cfg e = .ok ()) (t : MdTable) :
    (newSsRegion e t).name = e.name := by
  rw [show (newSsRegion e t).name = e.name.truncate 15 from congrArg Prod.fst (newSsRegion_view e t),
    (name_truncate hv).2]

theorem entryNames_added (hv : validateRegion cfg e = .ok ()) :
    entryNames (addedRegion cfg e d) = entryNames d ++ [e.name] := by
  have hnew := slice_update_succ d.minidumpTable.entry 0 d.numRegions e
  rw [Nat.zero_add] at hnew
  have hnum : (addedRegion cfg e d).numRegions = d.numRegions + 1 := rfl
  rw [entryNames, addedRegion_entry hv, hnum, hnew, List.map_append]
  rfl

theorem regionNames_added (hv : validateRegion cfg e = .ok ())
    (hc : d.minidumpTable.mdSsToc.ssRegionCount = d.numRegions + 1) :
    regionNames (addedRegion cfg e d) = regionNames d ++ [e.name] := by
  have hnew := slice_update_succ d.minidumpTable.mdRegions 1 d.numRegions
    (newSsRegion e d.minidumpTable)
  rw [Nat.add_comm 1] at hnew
  simp only [regionNames, addedRegion, mdAddSsToc, hc, hnew, List.map_append, List.map_singleton,
    newSsRegion_name hv]

end Add

theorem numbered_add {cfg : Config} {s : Client} (h : Numbered s) (alloc : Bool) (e : MdRegion) :
    Numbered (s.step cfg (.add alloc e)) := by
  rw [Client.step, Call.exec]
  rcases add_cases cfg alloc e h.smem with ⟨err, hr⟩ | ⟨hv, -, -, -, hr⟩
  · rw [hr]
    exact ⟨h.smem, h.count, h.perm, h.aligned, h.issued⟩
  have hsmem := smem_add cfg alloc e h.smem
  rw [hr] at hsmem ⊢
  have hnum : (addedRegion cfg e s.driver).numRegions = s.driver.numRegions + 1 := rfl
  have hfirst : (addedRegion cfg e s.driver).firstRemovedEntry = s.driver.firstRemovedEntry := rfl
  refine ⟨hsmem, ?_, ?_, ?_, ?_⟩
  · simp only [addedRegion, mdAddSsToc, h.count]
  · simp only [entryNames_added hv, regionNames_added hv h.count]
    exact h.perm.append_right _
  · intro i h1 h2
    simp only [hnum] at h2
    simp only [addedRegion_entry hv]
    simp only [addedRegion, mdAddSsToc, h.count]
    by_cases hi : i = s.driver.numRegions
    · subst hi
      rw [Function.update_self, Function.update_self, newSsRegion_name hv]
    · rw [Function.update_of_ne hi, Function.update_of_ne (by omega)]
      exact h.aligned i h1 (by omega)
  · intro name n hn hlt
    simp only [Call.issue] at hn
    simp only [hnum, addedRegion_entry hv]
    by_cases hname : name = e.name
    · subst hname
      rw [Function.update_self, Option.some.injEq] at hn
      subst hn
      rw [Function.update_self]
      exact ⟨Nat.lt_succ_self _, rfl⟩
    · rw [Function.update_of_ne hname] at hn
      obtain ⟨hnlt, hentry⟩ := h.issued name n hn hlt
      rw [Function.update_of_ne (by omega)]
      exact ⟨by omega, hentry⟩

section Update

variable {d : Driver} (regno : Nat) (e : MdRegion)

theorem updatedTables_entry_name (i : Nat) :
    ((updatedTables regno e d).minidumpTable.entry i).name = (d.minidumpTable.entry i).name := by
  simp only [updatedTables]
  by_cases hi : i = regno
  · subst hi
    rw [Function.update_self]
  · rw [Function.update_of_ne hi]

theorem updatedTables_region_name (i : Nat) :
    ((updatedTables regno e d).minidumpTable.mdRegions i).name =
      (d.minidumpTable.mdRegions i).name := by
  simp only [updatedTables]
  by_cases hi : i = regno + 1
  · subst hi
    rw [Function.update_self]
  · rw [Function.update_of_ne hi]

theorem entryNames_updated : entryNames (updatedTables regno e d) = entryNames d := by
  rw [entryNames, entryNames, slice, slice, List.map_map, List.map_map]
  exact List.map_congr_left (fun i _ => updatedTables_entry_name regno e _)

theorem regionNames_updated : regionNames (updatedTables regno e d) = regionNames d := by
  rw [regionNames, regionNames, slice, slice, List.map_map, List.map_map]
  exact List.map_congr_left (fun i _ => updatedTables_region_name regno e _)

end Update

theorem numbered_update {cfg : Config} {s : Client} (h : Numbered s) (regno : Nat) (e : MdRegion) :
    Numbered (s.step cfg (.update regno e)) := by
  have hsmem := smem_update cfg true e h.smem regno
  rw [Client.step, Call.exec]
  rcases update_cases cfg true e h.smem regno with
    ⟨-, hr⟩ | ⟨-, -, -, err, hr⟩ | ⟨-, -, -, -, hr⟩
  · rw [hr]
    exact ⟨h.smem, h.count, h.perm, h.aligned, h.issued⟩
  · rw [hr] at hsmem ⊢
    exact ⟨hsmem, h.count, h.perm, h.aligned, h.issued⟩
  · rw [hr] at hsmem ⊢
    refine ⟨hsmem, h.count, ?_, ?_, ?_⟩
    · have hperm := h.perm
      rw [← entryNames_updated regno e, ← regionNames_updated regno e] at hperm
      exact hperm
    · intro i h1 h2
      have hi := h.aligned i h1 h2
      rw [← updatedTables_entry_name regno e, ← updatedTables_region_name regno e] at hi
      exact hi
    · intro name n hn hlt
      obtain ⟨hnlt, hentry⟩ := h.issued name n hn hlt
      rw [← updatedTables_entry_name regno e] at hentry
      exact ⟨hnlt, hentry⟩

/-! ## Removing -/

section Shift

variable {d : Driver} {entryno rgno : Nat}

/-- The names after entry `entryno` was taken out: the last place holds a cleared record. -/
theorem entryNames_shift (rgno : Nat) (he : entryno < d.numRegions) :
    entryNames (shiftTables entryno rgno d) = (entryNames d).eraseIdx entryno ++ [CStr.empty] := by
  have hnew := slice_memmove_memset d.minidumpTable.entry 0 he MdRegion.zero
  rw [Nat.zero_add, Nat.zero_add] at hnew
  simp only [entryNames, shiftTables]
  rw [hnew, List.map_append, List.eraseIdx_map]
  rfl

theorem regionNames_shift (entryno : Nat)
    (hc : d.minidumpTable.mdSsToc.ssRegionCount = d.numRegions + 1) (h1 : 1 ≤ rgno)
    (h2 : rgno ≤ d.numRegions) :
    regionNames (shiftTables entryno rgno d) =
      (regionNames d).eraseIdx (rgno - 1) ++ [CStr.empty] := by
  obtain ⟨k, rfl⟩ : ∃ k, rgno = k + 1 := ⟨rgno - 1, by omega⟩
  have hnew := slice_memmove_memset d.minidumpTable.mdRegions 1 (show k < d.numRegions by omega)
    MdSsRegion.zero
  rw [Nat.add_comm 1 k, Nat.add_comm 1 d.numRegions, Nat.add_sub_cancel] at hnew
  simp only [regionNames, shiftTables, hc, Nat.add_sub_add_right, Nat.add_sub_cancel]
  rw [hnew, List.map_append, List.eraseIdx_map]
  rfl

theorem entryNames_removed (rgno : Nat) (e : MdRegion) (he : entryno < d.numRegions) :
    entryNames (removedRegion entryno rgno e d) = (entryNames d).eraseIdx entryno := by
  have hshift := entryNames_shift rgno he
  have hsucc : (shiftTables entryno rgno d).numRegions = d.numRegions - 1 + 1 := by
    simp only [shiftTables]
    omega
  rw [entryNames, hsucc, slice_succ, List.map_append] at hshift
  exact (List.append_inj' hshift rfl).1

theorem regionNames_removed (entryno : Nat) (e : MdRegion)
    (hc : d.minidumpTable.mdSsToc.ssRegionCount = d.numRegions + 1) (h1 : 1 ≤ rgno)
    (h2 : rgno ≤ d.numRegions) :
    regionNames (removedRegion entryno rgno e d) = (regionNames d).eraseIdx (rgno - 1) := by
  have hshift := regionNames_shift entryno hc h1 h2
  have hsucc : (shiftTables entryno rgno d).numRegions = d.numRegions - 1 + 1 := by
    simp only [shiftTables]
    omega
  rw [regionNames, hsucc, slice_succ, List.map_append] at hshift
  exact (List.append_inj' hshift rfl).1

theorem shift_entry_of_lt (he : entryno < d.numRegions) {i : Nat} (hi : i < entryno) :
    (shiftTables entryno rgno d).minidumpTable.entry i = d.minidumpTable.entry i := by
  simp only [shiftTables]
  rw [memset_of_lt _ _ (by omega), memmove_of_lt _ hi]

theorem shift_region_of_lt (hr : rgno < d.minidumpTable.mdSsToc.ssRegionCount) {i : Nat}
    (hi : i < rgno) :
    (shiftTables entryno rgno d).minidumpTable.mdRegions i = d.minidumpTable.mdRegions i := by
  simp only [shiftTables]
  rw [memset_of_lt _ _ (by omega), memmove_of_lt _ hi]

theorem shift_firstRemoved (d : Driver) (entryno rgno : Nat) :
    (shiftTables entryno rgno d).firstRemovedEntry ≤ entryno ∧
      (shiftTables entryno rgno d).firstRemovedEntry ≤ d.firstRemovedEntry := by
  simp only [shiftTables]
  split <;> omega

end Shift

/-- Where a removal strikes: the region is not the header buffer's own, and in both tables it is
at or above the new mark. -/
theorem Numbered.strikes_above {s : Client} (h : Numbered s) {e : MdRegion} {entryno rgno : Nat}
    (hm : mdEntryNum s.driver e = .ok entryno)
    (hg : (mdRegionNum s.driver.minidumpTable e.name 0).1 = .ok rgno) :
    entryno < s.driver.numRegions ∧ 1 ≤ rgno ∧ rgno ≤ s.driver.numRegions ∧
      (entryNames s.driver)[entryno]? = (regionNames s.driver)[rgno - 1]? ∧
      ∀ i, i < entryno → i < s.driver.firstRemovedEntry → i + 1 < rgno := by
  obtain ⟨helt, hename, hefirst⟩ := firstNamed_eq_ok.mp hm
  obtain ⟨hrlt, hrname, hrlast⟩ := mdRegionNum_eq_ok.mp hg
  rw [h.count] at hrlt hrlast
  have hpos : 1 ≤ rgno := by
    -- the name is in the driver's table, so the permuted region table has it from 1 on
    have hmem : e.name ∈ regionNames s.driver :=
      h.perm.mem_iff.mp (mem_entryNames.mpr ⟨entryno, helt, hename⟩)
    obtain ⟨k, hk, hname⟩ := mem_map_slice.mp hmem
    by_contra hzero
    exact hrlast (1 + k) (by omega) (by omega) hname
  refine ⟨helt, hpos, by omega, ?_, ?_⟩
  · obtain ⟨k, rfl⟩ : ∃ k, rgno = k + 1 := ⟨rgno - 1, by omega⟩
    rw [Nat.add_sub_cancel, entryNames_getElem? helt, regionNames_getElem? (by omega), hrname,
      hename]
  · intro i hi hfirst
    by_contra hge
    obtain ⟨k, rfl⟩ : ∃ k, rgno = k + 1 := ⟨rgno - 1, by omega⟩
    have halign := h.aligned k (by omega) (by omega)
    exact hefirst k (by omega) (by rw [halign, hrname])

/-- What both kinds of removal leave of the numbers, once the counts are settled. -/
theorem Numbered.shift {s : Client} (h : Numbered s) {e : MdRegion} {entryno rgno : Nat}
    (hm : mdEntryNum s.driver e = .ok entryno)
    (hg : (mdRegionNum s.driver.minidumpTable e.name 0).1 = .ok rgno) :
    (∀ i, i < (shiftTables entryno rgno s.driver).firstRemovedEntry →
      ((shiftTables entryno rgno s.driver).minidumpTable.entry i).name =
        ((shiftTables entryno rgno s.driver).minidumpTable.mdRegions (i + 1)).name) ∧
    ∀ name n, (Function.update s.issued e.name none) name = some n →
      n < (shiftTables entryno rgno s.driver).firstRemovedEntry →
      n < s.driver.numRegions - 1 ∧
        ((shiftTables entryno rgno s.driver).minidumpTable.entry n).name = name := by
  obtain ⟨helt, -, hrle, -, hbelow⟩ := h.strikes_above hm hg
  have hmark := shift_firstRemoved s.driver entryno rgno
  constructor
  · intro i hi
    rw [shift_entry_of_lt helt (by omega), shift_region_of_lt (by rw [h.count]; omega)
      (hbelow i (by omega) (by omega))]
    exact h.aligned i (by omega) (by omega)
  · intro name n hn hlt
    have hname : name ≠ e.name := by
      rintro rfl
      rw [Function.update_self] at hn
      cases hn
    rw [Function.update_of_ne hname] at hn
    obtain ⟨-, hentry⟩ := h.issued name n hn (by omega)
    rw [shift_entry_of_lt helt (by omega)]
    exact ⟨by omega, hentry⟩

theorem numbered_remove {cfg : Config} {s : Client} (h : Numbered s) (e : MdRegion) :
    Numbered (s.step cfg (.remove e)) := by
  have hsmem := smem_remove true e h.smem
  rw [Client.step, Call.exec]
  rcases remove_cases true e h.smem with
    ⟨⟨err, hr⟩, -⟩ | ⟨entryno, rgno, hm, hg, -, hr⟩ | ⟨entryno, rgno, pidx, shidx, hm, hg, -, hr⟩
  · rw [hr]
    refine ⟨h.smem, h.count, h.perm, h.aligned, ?_⟩
    intro name n hn hlt
    simp only [Call.issue] at hn
    by_cases hname : name = e.name
    · subst hname
      rw [Function.update_self] at hn
      cases hn
    · rw [Function.update_of_ne hname] at hn
      exact h.issued name n hn hlt
  all_goals
    obtain ⟨helt, hr1, hr2, hsame, -⟩ := h.strikes_above hm hg
    obtain ⟨haligned, hissued⟩ := h.shift hm hg
    have hperm : ((entryNames s.driver).eraseIdx entryno).Perm
        ((regionNames s.driver).eraseIdx (rgno - 1)) := h.perm.eraseIdx_of_getElem?_eq hsame
    rw [hr] at hsmem ⊢
  · refine ⟨hsmem, h.count, ?_, ?_, ?_⟩
    · simp only [entryNames_shift rgno helt, regionNames_shift entryno h.count hr1 hr2]
      exact hperm.append_right _
    · intro i h1 _
      exact haligned i h1
    · intro name n hn hlt
      obtain ⟨hnlt, hname⟩ := hissued name n hn hlt
      exact ⟨by simp only [shiftTables]; omega, hname⟩
  · refine ⟨hsmem, ?_, ?_, ?_, ?_⟩
    · simp only [removedRegion, shiftTables, h.count]
      omega
    · simp only [entryNames_removed rgno e helt, regionNames_removed entryno e h.count hr1 hr2]
      exact hperm
    · intro i h1 _
      exact haligned i h1
    · intro name n hn hlt
      exact hissued name n hn hlt

/-! ## Every run -/

/-- **One call** keeps the tables and the numbers in step, whatever its descriptor. -/
theorem numbered_step {cfg : Config} {s : Client} (h : Numbered s) (c : Call) :
    Numbered (s.step cfg c) := by
  cases c with
  | add alloc e => exact numbered_add h alloc e
  | update regno e => exact numbered_update h regno e
  | remove e => exact numbered_remove h e

theorem Tables.names {d : Driver} {R : List MdRegion} (h : Tables d R) :
    entryNames d = R.map MdRegion.name ∧ regionNames d = R.map MdRegion.name := by
  have hviews : ∀ l : List MdSsRegion, l.map MdSsRegion.name = (l.map MdSsRegion.view).map Prod.fst :=
    fun l => by rw [List.map_map]; rfl
  constructor
  · rw [entryNames, h.num, h.filled.entries]
  · rw [regionNames, h.num, hviews, h.filled.regions, List.map_map]
    rfl

/-- The probe hands the regions that waited to both tables under the numbers they have. -/
theorem numbered_init {cfg : Config} {p : Platform} {pre : List (Bool × MdRegion) → Prop}
    {s : Client} (h : (smemClients cfg p pre).init s) : Numbered s := by
  obtain ⟨es, l, toc, -, -, hvalid, hdriver, hissued, -⟩ := smemClients_init h
  have ht : Tables s.driver l := by
    rw [hdriver]
    exact tables_smemReady hvalid
  refine ⟨?_, ?_, ?_, ?_, ?_⟩
  · rw [hdriver]
    exact smem_smemReady
  · rw [ht.filled.count, ht.num]
  · rw [ht.names.1, ht.names.2]
  · intro i _ hi
    rw [ht.num] at hi
    rw [ht.entry_eq hi, ht.region_name hi]
  · intro name n hn _
    have hget := hissued name n hn
    have hlt : n < l.length := by
      by_contra hge
      rw [List.getElem?_eq_none (by omega)] at hget
      cases hget
    rw [List.getElem?_eq_getElem hlt, Option.map_some, Option.some.injEq] at hget
    rw [ht.num, ht.entry_eq hlt]
    exact ⟨hlt, hget⟩

theorem numbered_reach {cfg : Config} {p : Platform} {pre : List (Bool × MdRegion) → Prop}
    {ok : Client → Call → Prop} {s : Client} (h : (smemClients cfg p pre).Reach ok s) :
    Numbered s := by
  apply h.invariant
  · intro s hs
    exact numbered_init hs
  · intro s c t hs _ hstep
    cases hstep
    exact numbered_step hs c

/-- At most 200 calls before the probe, for distinct names. -/
def FewDistinct (es : List (Bool × MdRegion)) : Prop :=
  es.length ≤ 200 ∧ (es.map (fun be => be.2.name)).Nodup

/-- **No accepted update lands on a different region.**  After any calls, an update with the
number that was returned for its name, which no removal has named since, finds that name in both
tables when it is accepted, and changes nothing in them but the addresses of the two records. -/
theorem update_lands_on_its_region {cfg : Config} {p : Platform} {s : Client}
    (hs : (smemClients cfg p FewDistinct).Reach (fun _ _ => True) s) {n : Nat} {e : MdRegion}
    (hissued : s.issued e.name = some n)
    (hok : (msmMinidumpUpdateRegion cfg true n e s.driver).2 = .ok ()) :
    let t := s.driver.minidumpTable
    let t' := (msmMinidumpUpdateRegion cfg true n e s.driver).1.minidumpTable
    (t.entry n).name = e.name ∧ (t.mdRegions (n + 1)).name = e.name ∧
      t' = { t with
        entry := Function.update t.entry n
          { t.entry n with virtAddr := e.virtAddr, physAddr := e.physAddr }
        mdRegions := Function.update t.mdRegions (n + 1)
          { t.mdRegions (n + 1) with regionBaseAddress := e.physAddr } } := by
  have h := numbered_reach hs
  rcases update_cases cfg true e h.smem n with ⟨-, hr⟩ | ⟨-, -, -, err, hr⟩ | ⟨-, -, hlt, -, hr⟩
  · rw [hr] at hok
    cases hok
  · rw [hr] at hok
    cases hok
  · obtain ⟨hnum, hname⟩ := h.issued e.name n hissued hlt
    rw [hr]
    refine ⟨hname, ?_, rfl⟩
    rw [← h.aligned n hlt hnum, hname]

/-- A client that registered one region after the probe. -/
def oneRegionClient (e : MdRegion) : Client :=
  ((preProbe Config.plain []).probe Config.plain (Platform.plain false)).step Config.plain
    (.add true e)

theorem update_lands_on_its_region_kmsg :
    let s := oneRegionClient ⟨CStr.ofString "KMSG", 0, 0x1000, 0x81000000, 64⟩
    let e : MdRegion := ⟨CStr.ofString "KMSG", 0, 0x2000, 0x82000000, 64⟩
    let t := s.driver.minidumpTable
    let t' := (msmMinidumpUpdateRegion Config.plain true 0 e s.driver).1.minidumpTable
    (t.entry 0).name = e.name ∧ (t.mdRegions (0 + 1)).name = e.name ∧
      t' = { t with
        entry := Function.update t.entry 0
          { t.entry 0 with virtAddr := e.virtAddr, physAddr := e.physAddr }
        mdRegions := Function.update t.mdRegions (0 + 1)
          { t.mdRegions (0 + 1) with regionBaseAddress := e.physAddr } } := by
  have hinit : (smemClients Config.plain (Platform.plain false) FewDistinct).init
      ((preProbe Config.plain []).probe Config.plain (Platform.plain false)) :=
    ⟨rfl, rfl, [], ⟨by decide, List.nodup_nil⟩, rfl⟩
  exact update_lands_on_its_region (.step (.init hinit) trivial rfl) rfl rfl

end SafelinuxDbg.Minidump
