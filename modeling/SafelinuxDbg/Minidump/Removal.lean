import SafelinuxDbg.Minidump.Consistency

/-!
# Which regions can be removed

`msm_minidump_clear_headers` finds the section of a region by its name but its program header by
physical address and size, and takes the first.  When an earlier region has the same physical
address and size, the two headers found belong to different regions.  Their file offsets then
differ, as a rule, and the removal fails after the tables have been shifted.

* `removed_iff_removable`: in every state that removals of removable regions reach, a registered
  region can be removed without harm to the others exactly when it is `Removable`.
* `kstack_not_removed`: the second of two dummy stacks, as `register_current_stack` registers
  them for every CPU, cannot be removed.
-/

namespace SafelinuxDbg.Minidump

open CMemory

/-- The driver `d'` has lost region `i` of `d` and kept the others in all four structures. -/
structure KeptOthers (d d' : Driver) (i : Nat) : Prop where
  num : d'.numRegions + 1 = d.numRegions
  others : ∀ k, k < d'.numRegions →
    Describes d' k (d.minidumpTable.entry (if k < i then k else k + 1))

/-- Region `i` is removed by a call that passes what is recorded for it, and the others stay. -/
def RemovedAlone (d : Driver) (i : Nat) : Prop :=
  ∀ e : MdRegion, e.SameRegion (d.minidumpTable.entry i) →
    (msmMinidumpRemoveRegion true e d).2 = .ok () ∧
      KeptOthers d (msmMinidumpRemoveRegion true e d).1 i

theorem Tables.entry_skip {d : Driver} {R : List MdRegion} (h : Tables d R) {i k : Nat}
    (hi : i < R.length) (hk : k < (R.eraseIdx i).length) :
    d.minidumpTable.entry (if k < i then k else k + 1) = (R.eraseIdx i)[k] := by
  have hlen := List.length_eraseIdx_of_lt hi
  rw [List.getElem_eraseIdx]
  split
  · exact h.entry_eq (by omega)
  · exact h.entry_eq (by omega)

section Refined

variable {cfg : Config} {addrs : HeaderAddrs} {d : Driver} {r : Registry cfg} {e : MdRegion}

/-- After an accepted removal the program headers are those of the regions without the first
twin. -/
theorem Refines.programs_of_removed (h : Refines addrs d r) {i : Nat} (hi : i < r.regions.length)
    (he : e.SameRegion r.regions[i]) (hok : (msmMinidumpRemoveRegion true e d).2 = .ok ()) :
    ∃ img, Represents (msmMinidumpRemoveRegion true e d).1.minidumpElfheader img ∧
      img.programs = (Image.initial addrs).programs ++ place regionProgram startOffset
        (r.regions.eraseIdx (firstTwin r.regions r.regions[i])) := by
  obtain ⟨hle, htwin, -⟩ := firstTwin_spec hi
  have hj : firstTwin r.regions r.regions[i] < r.regions.length := by omega
  have hlook := h.lookup_eq hi he
  rw [if_pos (h.offsets_of_removed hi he hok)] at hlook
  rcases remove_cases true e h.smem with
    ⟨⟨err, hres⟩, -⟩ | ⟨i', k, -, -, -, hres⟩ | ⟨i', k, pidx, shidx, -, -, -, hres⟩
  · rw [hres] at hok
    cases hok
  · rw [hres] at hok
    cases hok
  · rw [hres]
    rw [h.elf.lookup] at hlook
    obtain ⟨hclear, -⟩ := h.elf.clear hlook (by omega)
    refine ⟨_, hclear, ?_⟩
    have hsize : r.regions[firstTwin r.regions r.regions[i]].size = e.size := by
      have hsame := htwin hj
      rw [samePlace, Bool.and_eq_true, beq_iff_eq, beq_iff_eq] at hsame
      rw [hsame.2, he.size]
    rw [imageOf_clear_eq, ← hsize, place_eraseIdx _ lowerProgram_regionProgram _ _ hj]

/-- If the others were kept, the regions without the first twin load what the regions without
region `i` do. -/
theorem Refines.loads_of_kept (h : Refines addrs d r) {i : Nat} (hi : i < r.regions.length)
    (he : e.SameRegion r.regions[i]) (hok : (msmMinidumpRemoveRegion true e d).2 = .ok ())
    (hkept : KeptOthers d (msmMinidumpRemoveRegion true e d).1 i) :
    (r.regions.map MdRegion.load).eraseIdx (firstTwin r.regions r.regions[i]) =
      (r.regions.map MdRegion.load).eraseIdx i := by
  obtain ⟨hle, -, -⟩ := firstTwin_spec hi
  obtain ⟨img, himg, hprog⟩ := h.programs_of_removed hi he hok
  rw [List.eraseIdx_map, List.eraseIdx_map]
  have hj : firstTwin r.regions r.regions[i] < r.regions.length := by omega
  have hlen : (r.regions.eraseIdx (firstTwin r.regions r.regions[i])).length =
      r.regions.length - 1 := List.length_eraseIdx_of_lt hj
  apply List.ext_getElem
  · rw [List.length_map, List.length_map, List.length_eraseIdx_of_lt hi, hlen]
  intro k h1 h2
  rw [List.length_map, hlen] at h1
  have hnum := hkept.num
  rw [h.tables.num] at hnum
  have hdesc := hkept.others k (by omega)
  have hk : k + 1 < img.programs.length := by
    rw [hprog, List.length_append, initial_programs_length, place_length, hlen]
    omega
  have hget : img.programs[k + 1] = regionProgram
      (endOffset startOffset ((r.regions.eraseIdx (firstTwin r.regions r.regions[i])).take k))
      (r.regions.eraseIdx (firstTwin r.regions r.regions[i]))[k] := by
    simp only [hprog]
    rw [List.getElem_append_right (by rw [initial_programs_length]; omega)]
    simp only [initial_programs_length, Nat.add_sub_cancel]
    exact place_getElem _ _ _ _ _
  have hrec := himg.phdrAt_eq hk
  rw [hget, phdrAt, regionProgram, Phdr.mk.injEq, ← himg.elfProgram_eq] at hrec
  obtain ⟨-, hv, hp, -, hm⟩ := hrec
  rw [List.length_map] at h2
  rw [List.getElem_map, List.getElem_map, MdRegion.load, MdRegion.load, ← hv, ← hp, ← hm,
    hdesc.pVaddr, hdesc.pPaddr, hdesc.pMemsz, h.tables.entry_skip hi h2]

/-- A run of equal neighbours is constant. -/
theorem eq_of_neighbours {α : Type*} {l : List α} {i j : Nat}
    (h : ∀ k, j ≤ k → k < i → l[k]? = l[k + 1]?) {k : Nat} (h1 : j ≤ k) (h2 : k ≤ i) :
    l[k]? = l[i]? := by
  obtain ⟨m, hm⟩ : ∃ m, i = k + m := ⟨i - k, by omega⟩
  induction m generalizing k with
  | zero => rw [hm, Nat.add_zero]
  | succ m ih =>
    rw [h k h1 (by omega)]
    exact ih (by omega) (by omega) (by omega)

/-- **A registered region is removed alone exactly when it is removable.** -/
theorem Refines.removedAlone_iff (h : Refines addrs d r) {i : Nat} (hi : i < r.regions.length) :
    RemovedAlone d i ↔ Removable r.regions i hi := by
  obtain ⟨hle, -, -⟩ := firstTwin_spec hi
  have hentry := h.tables.entry_eq hi
  constructor
  · intro hrem
    have he : r.regions[i].SameRegion r.regions[i] := ⟨rfl, rfl, rfl, rfl⟩
    obtain ⟨hok, hkept⟩ := hrem r.regions[i] (by rw [hentry]; exact he)
    have hloads := (eraseIdx_eq_iff hle).mp (h.loads_of_kept hi he hok hkept)
    have hblock : ∀ k (hk : k < r.regions.length),
        firstTwin r.regions r.regions[i] ≤ k → k ≤ i → r.regions[k].load = r.regions[i].load := by
      intro k hk h1 h2
      have heq := eq_of_neighbours hloads h1 h2
      rw [List.getElem?_map, List.getElem?_map, List.getElem?_eq_getElem hk,
        List.getElem?_eq_getElem hi, Option.map_some, Option.map_some, Option.some.injEq] at heq
      exact heq
    exact ⟨hblock, (offsets_eq_iff hi hblock).mp (h.offsets_of_removed hi he hok)⟩
  · intro hr e he
    rw [hentry] at he
    obtain ⟨hres, href⟩ := h.remove hi he hr
    rw [hres]
    refine ⟨rfl, ?_, ?_⟩
    · rw [href.tables.num, h.tables.num, Registry.remove, List.length_eraseIdx_of_lt hi]
      omega
    · intro k hk
      rw [href.tables.num] at hk
      rw [h.tables.entry_skip hi hk]
      exact href.describes hk

end Refined

/-! ## Every run -/

section Runs

variable {cfg : Config} {p : Platform}

/-- **Which regions can be removed.**  In every state reached by accepted adds, correctly
numbered updates and removals of removable regions, a registered region is removed by a call that
passes what is recorded for it, with all the others kept, exactly when it is removable. -/
theorem removed_iff_removable {s : Client}
    (hs : (smemClients cfg p (· = [])).Reach (RemovableCall cfg) s) {i : Nat}
    (hi : i < (registered s.driver).length) :
    RemovedAlone s.driver i ↔ Removable (registered s.driver) i hi := by
  obtain ⟨r, hr⟩ := holdsRegistry_reach hs
  simp only [registered_eq hr.tables] at hi ⊢
  exact hr.removedAlone_iff hi

end Runs

/-! ## The dummy stacks -/

/-- The stack that `register_current_stack` registers for a CPU before that CPU has run: all of
them are at the current stack. -/
def dummyStack (name : String) : MdRegion := ⟨CStr.ofString name, 0, 0x10000, 0x90000000, 16384⟩

/-- Two CPUs with their dummy stacks. -/
def stackClient : Client :=
  plainClient [.add true (dummyStack "KSTACK0"), .add true (dummyStack "KSTACK1")]

theorem removed_iff_removable_kstack0 : RemovedAlone stackClient.driver 0 := by
  have hlen : 0 < (registered stackClient.driver).length := by decide +kernel
  refine (removed_iff_removable (.step (.step (.init plainClient_init) ?_ rfl) ?_ rfl) hlen).mpr ?_
  · exact ⟨⟨by decide +kernel, trivial⟩, trivial⟩
  · exact ⟨⟨by decide +kernel, trivial⟩, trivial⟩
  · constructor
    · intro k hk h1 h2
      obtain rfl : k = 0 := by omega
      rfl
    · rw [Nat.zero_sub, Nat.zero_mul]
      rfl

/-- **A registered region that cannot be removed**: the dummy stack of the second CPU. -/
theorem kstack_not_removed :
    ¬ ∀ s, (smemClients Config.plain (Platform.plain false) (· = [])).Reach
        (OrdinaryCall Config.plain) s →
      ∀ i, i < (registered s.driver).length → RemovedAlone s.driver i := by
  intro h
  have hreach : (smemClients Config.plain (Platform.plain false) (· = [])).Reach
      (OrdinaryCall Config.plain) stackClient :=
    .step (.step (.init plainClient_init) ⟨by decide +kernel, trivial⟩ rfl)
      ⟨by decide +kernel, trivial⟩ rfl
  obtain ⟨hok, -⟩ := h stackClient hreach 1 (by decide +kernel) (dummyStack "KSTACK1")
    ⟨by decide +kernel, by decide +kernel, by decide +kernel, by decide +kernel⟩
  have hres : (msmMinidumpRemoveRegion true (dummyStack "KSTACK1") stackClient.driver).2 =
      .error .EINVAL := by decide +kernel
  rw [hres] at hok
  cases hok

end SafelinuxDbg.Minidump
