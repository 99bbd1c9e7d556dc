import SafelinuxDbg.Minidump.GetRegion
import SafelinuxDbg.MinidumpLog.LogInit
import SafelinuxDbg.MinidumpLog.StackTracking
import SafelinuxDbg.MinidumpMemory.DumpSize

/-!
# The stacks and the dumps together

The hooks move the regions of the stacks by the numbers that these had at first, and a write to a file of
debugfs removes the region of a dump and adds another one.  A removal shifts the regions behind it, and from
then on numbers behind it are refused.  The dumps are registered after the stacks, so the numbers of the stacks
stay good.

* `Settled`: what every event keeps: the stacks are where they were last seen, and a dump is registered exactly
  while its address is published, with the size that is on record.
* `Settled.unregister`: a dump that is registered can always be removed.
* `log_system_settled`: so in every run.
-/

namespace SafelinuxDbg.MinidumpLog

open CMemory Minidump MinidumpMemory

/-! ## The dumps, over the driver -/

/-- The stacks and the driver, and the variables of the dumps: their addresses and sizes, those that
`md_register_panic_data` has still to register, and those that have a file. -/
structure LogSystem where
  tracker : Tracker
  dumpAddr : DumpName → UInt64
  dumpSize : DumpName → UInt64
  left : List DumpName
  files : List DumpName

def LogSystem.driver (s : LogSystem) : Driver := s.tracker.client.driver

/-- A call of the driver. -/
def LogSystem.call (cfg : Config) (c : Call) (s : LogSystem) : LogSystem :=
  { s with tracker := { s.tracker with client := s.tracker.client.step cfg c } }

/-- The region of a dump, whose name is never cut. -/
def dumpEntry (n : DumpName) (size : Int) (b : BufferMemory) : MdRegion :=
  ⟨n.name, b.id, b.virt, b.phys, UInt64.ofInt size⟩

/-- `md_register_memory_dump`, with what `cma_alloc` returns. -/
def mdRegisterMemoryDump (cfg : Config) (size : Int) (n : DumpName) (page : Option BufferMemory) (s : LogSystem) :
    LogSystem × Bool :=
  match page with
  | none => (s, false)
  | some b =>
    let called := s.call cfg (.add b.alloc (dumpEntry n size b))
    match (msmMinidumpAddRegion cfg b.alloc (dumpEntry n size b) s.driver).2 with
    | .error _ => (called, false)
    | .ok _ => ({ called with dumpAddr := Function.update s.dumpAddr n b.virt }, true)

/-- `md_entry` of `md_unregister_memory_dump`, where the `id` is not set. -/
def mdEntry (cfg : Config) (id : UInt32) (n : DumpName) (d : Driver) : MdRegion :=
  let mdr := mdGetRegion cfg n.name d
  ⟨mdr.name, id, mdr.virtAddr, mdr.physAddr, mdr.size⟩

/-- `md_unregister_memory_dump`. -/
def mdUnregisterMemoryDump (cfg : Config) (id : UInt32) (n : DumpName) (s : LogSystem) : LogSystem × Bool :=
  if (mdGetRegion cfg n.name s.driver).virtAddr = 0 then (s, false)
  else
    let called := s.call cfg (.remove (mdEntry cfg id n s.driver))
    match (msmMinidumpRemoveRegion true (mdEntry cfg id n s.driver) s.driver).2 with
    | .error _ => (called, false)
    | .ok _ => (called, true)

/-- What a write meets: the `id` of `md_entry`, and the pages for the new size and for the old one. -/
structure ResizeOutcome where
  id : UInt32
  new : Option BufferMemory
  fallback : Option BufferMemory

def LogSystem.setSize (n : DumpName) (size : UInt64) (s : LogSystem) : LogSystem :=
  { s with dumpSize := Function.update s.dumpSize n size }

/-- `update_dump_size` when the region is unregistered and its address cleared. -/
def registerAgain (cfg : Config) (o : ResizeOutcome) (n : DumpName) (size : UInt64) (s : LogSystem) : LogSystem :=
  if size = 0 then s.setSize n 0
  else
    let new := mdRegisterMemoryDump cfg (toInt (megabytes size)) n o.new s
    if new.2 then new.1.setSize n (megabytes size)
    else
      let old := mdRegisterMemoryDump cfg (toInt (new.1.dumpSize n)) n o.fallback new.1
      if old.2 then old.1 else old.1.setSize n 0

/-- `update_dump_size`. -/
def updateDumpSize (cfg : Config) (o : ResizeOutcome) (n : DumpName) (size : UInt64) (s : LogSystem) : LogSystem :=
  if s.dumpSize n = 0 then
    let new := mdRegisterMemoryDump cfg (toInt (megabytes size)) n o.new s
    if new.2 then new.1.setSize n (megabytes size) else new.1
  else
    let gone := mdUnregisterMemoryDump cfg o.id n s
    if gone.2 then registerAgain cfg o n size { gone.1 with dumpAddr := Function.update gone.1.dumpAddr n 0 }
    else gone.1

/-! ## Runs -/

inductive LogEvent
  /-- a hook, or a call of another client -/
  | track (event : TrackEvent)
  /-- `md_register_panic_data` goes on -/
  | panicData (page : Option BufferMemory)
  /-- a write to the file of a dump, as one step -/
  | resize (n : DumpName) (size : UInt64) (o : ResizeOutcome)

/-- One event.  A file is created when its dump was registered, also when that failed. -/
def LogSystem.step (cfg : Config) (k : StackKernel) (s : LogSystem) : LogEvent → Option LogSystem
  | .track event => some { s with tracker := s.tracker.step cfg k event }
  | .panicData page =>
    match s.left with
    | [] => none
    | n :: left =>
      some { (mdRegisterMemoryDump cfg (toInt (s.dumpSize n)) n page s).1 with left := left, files := n :: s.files }
  | .resize n size o => if n ∈ s.files then some (updateDumpSize cfg o n size s) else none

/-- A name of a dump. -/
def IsDump (name : CStr) : Prop := ∃ n : DumpName, n.name = name

/-- The memory at `phys` is not that of a dump. -/
def ApartFromDumps (R : List MdRegion) (phys : UInt64) : Prop := ∀ e ∈ R, IsDump e.name → e.physAddr ≠ phys

/-- A call of another client does not touch the dumps, nor their memory. -/
def LeavesDumps (R : List MdRegion) : Call → Prop
  | .add _ e | .update _ e => ¬ IsDump e.name ∧ ApartFromDumps R e.physAddr
  | .remove e => ¬ IsDump e.name

/-- The memory of a new page is not that of a region with another name. -/
def FreshPage (R : List MdRegion) (n : DumpName) (page : Option BufferMemory) : Prop :=
  ∀ b ∈ page, ∀ e ∈ R, e.name ≠ n.name → e.physAddr ≠ b.phys

/-- A dump is registered exactly while its address is published, with its address and its size; the memory of a
dump is used once; and the dumps come behind the regions `before`. -/
structure Placed (R : List MdRegion) (before : List Nat) (addr size : DumpName → UInt64) : Prop where
  absent : ∀ n, addr n = 0 → n.name ∉ R.map MdRegion.name
  present : ∀ n, addr n ≠ 0 →
    ∃ e ∈ R, e.name = n.name ∧ e.virtAddr = addr n ∧ e.size = UInt64.ofInt (toInt (size n))
  apart : ∀ e ∈ R, IsDump e.name → ∀ e' ∈ R, e'.name ≠ e.name → e'.physAddr ≠ e.physAddr
  behind : ∀ (i : Nat) (e : MdRegion), R[i]? = some e → IsDump e.name → ∀ r ∈ before, r < i

section Lists

variable {R R' : List MdRegion} {before : List Nat} {addr size : DumpName → UInt64} {e : MdRegion} {n : DumpName}

theorem dumpName_injective {m n : DumpName} (h : m.name = n.name) : m = n := by
  cases m <;> cases n <;> first | rfl | exact absurd h (by decide)

/-- Regions of others are moved. -/
theorem Placed.frame (h : Placed R before addr size) (hnames : R'.map MdRegion.name = R.map MdRegion.name)
    (hdumps : ∀ (i : Nat) (e : MdRegion), R[i]? = some e → IsDump e.name → R'[i]? = some e)
    (hmoved : ∀ e ∈ R', ¬ IsDump e.name → ApartFromDumps R e.physAddr) : Placed R' before addr size := by
  have hback : ∀ (i : Nat) (e : MdRegion), R'[i]? = some e → IsDump e.name → R[i]? = some e := by
    intro i e he hdump
    have hname : (R.map MdRegion.name)[i]? = some e.name := by
      rw [← hnames, List.getElem?_map, he]
      rfl
    rw [List.getElem?_map, Option.map_eq_some_iff] at hname
    obtain ⟨x, hx, hxe⟩ := hname
    have hsame := hdumps i x hx (hxe ▸ hdump)
    rw [he, Option.some.injEq] at hsame
    rw [hsame]
    exact hx
  have hmem : ∀ e ∈ R', IsDump e.name → e ∈ R := by
    intro e he hdump
    obtain ⟨i, hi⟩ := List.mem_iff_getElem?.mp he
    exact List.mem_of_getElem? (hback i e hi hdump)
  refine ⟨?_, ?_, ?_, ?_⟩
  · intro n hn
    rw [hnames]
    exact h.absent n hn
  · intro n hn
    obtain ⟨e, he, hname, hrest⟩ := h.present n hn
    obtain ⟨i, hi⟩ := List.mem_iff_getElem?.mp he
    exact ⟨e, List.mem_of_getElem? (hdumps i e hi ⟨n, hname.symm⟩), hname, hrest⟩
  · intro e he hdump e' he' hne
    have heR := hmem e he hdump
    by_cases hdump' : IsDump e'.name
    · exact h.apart e heR hdump e' (hmem e' he' hdump') hne
    · exact (hmoved e' he' hdump' e heR hdump).symm
  · exact fun i e he hdump => h.behind i e (hback i e he hdump) hdump

/-- A region of another client comes last. -/
theorem Placed.append_other (h : Placed R before addr size) (he : ¬ IsDump e.name)
    (hapart : ApartFromDumps R e.physAddr) : Placed (R ++ [e]) before addr size := by
  refine ⟨?_, ?_, ?_, ?_⟩
  · intro n hn hmem
    rw [List.map_append, List.mem_append, List.map_singleton, List.mem_singleton] at hmem
    rcases hmem with hold | hlast
    · exact h.absent n hn hold
    · exact he ⟨n, hlast⟩
  · intro n hn
    obtain ⟨x, hx, hrest⟩ := h.present n hn
    exact ⟨x, List.mem_append_left _ hx, hrest⟩
  · intro x hx hdump x' hx' hne
    have hxR : x ∈ R := by
      rcases List.mem_append.mp hx with hold | hlast
      · exact hold
      · exact absurd (List.mem_singleton.mp hlast ▸ hdump) he
    rcases List.mem_append.mp hx' with hold | hlast
    · exact h.apart x hxR hdump x' hold hne
    · rw [List.mem_singleton.mp hlast]
      exact (hapart x hxR hdump).symm
  · intro i x hx hdump
    by_cases hi : i < R.length
    · rw [List.getElem?_append_left hi] at hx
      exact h.behind i x hx hdump
    · rw [List.getElem?_append_right (by omega)] at hx
      have hlast : x = e := List.mem_singleton.mp (List.mem_of_getElem? hx)
      exact absurd (hlast ▸ hdump) he

/-- A dump comes last. -/
theorem Placed.append_dump (h : Placed R before addr size) {b : BufferMemory} {s : Int} {size' : DumpName → UInt64}
    (hfresh : ∀ x ∈ R, x.name ≠ n.name → x.physAddr ≠ b.phys) (hnew : n.name ∉ R.map MdRegion.name)
    (hbefore : ∀ r ∈ before, r < R.length) (hsize : UInt64.ofInt (toInt (size' n)) = UInt64.ofInt s)
    (hothers : ∀ m, m ≠ n → size' m = size m) :
    Placed (R ++ [dumpEntry n s b]) before (Function.update addr n b.virt) size' := by
  have hne : ∀ x ∈ R, x.name ≠ n.name := fun x hx heq => hnew (List.mem_map.mpr ⟨x, hx, heq⟩)
  refine ⟨?_, ?_, ?_, ?_⟩
  · intro m hm hmem
    by_cases hmn : m = n
    · subst hmn
      rw [Function.update_self] at hm
      exact b.virt_ne hm
    · rw [Function.update_of_ne hmn] at hm
      rw [List.map_append, List.mem_append, List.map_singleton, List.mem_singleton] at hmem
      rcases hmem with hold | hlast
      · exact h.absent m hm hold
      · exact hmn (dumpName_injective hlast)
  · intro m hm
    by_cases hmn : m = n
    · subst hmn
      refine ⟨dumpEntry m s b, List.mem_append_right _ (List.mem_singleton_self _), rfl, ?_, hsize.symm⟩
      rw [Function.update_self]
      rfl
    · rw [Function.update_of_ne hmn] at hm ⊢
      obtain ⟨x, hx, hrest⟩ := h.present m hm
      rw [hothers m hmn]
      exact ⟨x, List.mem_append_left _ hx, hrest⟩
  · intro x hx hdump x' hx' hxx'
    rcases List.mem_append.mp hx with hold | hlast
    · rcases List.mem_append.mp hx' with hold' | hlast'
      · exact h.apart x hold hdump x' hold' hxx'
      · rw [List.mem_singleton.mp hlast']
        exact (hfresh x hold (hne x hold)).symm
    · rcases List.mem_append.mp hx' with hold' | hlast'
      · rw [List.mem_singleton.mp hlast]
        exact hfresh x' hold' (hne x' hold')
      · rw [List.mem_singleton.mp hlast, List.mem_singleton.mp hlast'] at hxx'
        exact absurd rfl hxx'
  · intro i x hx hdump
    by_cases hi : i < R.length
    · rw [List.getElem?_append_left hi] at hx
      exact h.behind i x hx hdump
    · exact fun r hr => Nat.lt_of_lt_of_le (hbefore r hr) (by omega)

/-- What is left when region `i` is taken out, behind the regions `before`. -/
theorem Placed.apart_erase (h : Placed R before addr size) {i : Nat} (hbefore : ∀ r ∈ before, r < i) :
    (∀ e ∈ R.eraseIdx i, IsDump e.name → ∀ e' ∈ R.eraseIdx i, e'.name ≠ e.name → e'.physAddr ≠ e.physAddr) ∧
      ∀ (j : Nat) (e : MdRegion), (R.eraseIdx i)[j]? = some e → IsDump e.name → ∀ r ∈ before, r < j := by
  refine ⟨?_, ?_⟩
  · intro e he hdump e' he' hne
    exact h.apart e ((List.eraseIdx_sublist R i).subset he) hdump e' ((List.eraseIdx_sublist R i).subset he') hne
  · intro j e hj hdump r hr
    rw [List.getElem?_eraseIdx] at hj
    split at hj
    · exact h.behind j e hj hdump r hr
    · have := hbefore r hr
      omega

/-- A region of another client is taken out. -/
theorem Placed.erase_other (h : Placed R before addr size) {i : Nat} (hi : i < R.length)
    (hbefore : ∀ r ∈ before, r < i) (hother : ¬ IsDump R[i].name) : Placed (R.eraseIdx i) before addr size := by
  obtain ⟨hapart, hbehind⟩ := h.apart_erase hbefore
  refine ⟨?_, ?_, hapart, hbehind⟩
  · intro n hn hmem
    obtain ⟨e, he, hname⟩ := List.mem_map.mp hmem
    exact h.absent n hn (List.mem_map.mpr ⟨e, (List.eraseIdx_sublist R i).subset he, hname⟩)
  · intro n hn
    obtain ⟨e, he, hname, hrest⟩ := h.present n hn
    obtain ⟨j, hj⟩ := List.mem_iff_getElem?.mp he
    refine ⟨e, List.mem_eraseIdx_iff_getElem?.mpr ⟨j, ?_, hj⟩, hname, hrest⟩
    rintro rfl
    rw [List.getElem?_eq_getElem hi, Option.some.injEq] at hj
    exact hother ⟨n, by rw [hj, hname]⟩

/-- A dump is taken out, and its address withdrawn. -/
theorem Placed.erase_dump (h : Placed R before addr size) (hnodup : (R.map MdRegion.name).Nodup) {i : Nat}
    (hi : i < R.length) (hbefore : ∀ r ∈ before, r < i) (hname : R[i].name = n.name) :
    Placed (R.eraseIdx i) before (Function.update addr n 0) size ∧ n.name ∉ (R.eraseIdx i).map MdRegion.name := by
  obtain ⟨hapart, hbehind⟩ := h.apart_erase hbefore
  have hgone : n.name ∉ (R.eraseIdx i).map MdRegion.name := by
    rw [← List.eraseIdx_map, ← hname]
    have hi' : i < (R.map MdRegion.name).length := by
      rw [List.length_map]
      exact hi
    have hget : (R.map MdRegion.name)[i] = R[i].name := List.getElem_map _
    rw [← hget]
    intro hmem
    obtain ⟨j, hj, hjget⟩ := List.mem_eraseIdx_iff_getElem?.mp hmem
    obtain ⟨hjlt, hjeq⟩ := List.getElem?_eq_some_iff.mp hjget
    exact hj ((List.Nodup.getElem_inj_iff hnodup).mp hjeq)
  refine ⟨⟨?_, ?_, hapart, hbehind⟩, hgone⟩
  · intro m hm hmem
    by_cases hmn : m = n
    · exact hgone (hmn ▸ hmem)
    · rw [Function.update_of_ne hmn] at hm
      obtain ⟨e, he, hename⟩ := List.mem_map.mp hmem
      exact h.absent m hm (List.mem_map.mpr ⟨e, (List.eraseIdx_sublist R i).subset he, hename⟩)
  · intro m hm
    by_cases hmn : m = n
    · rw [hmn, Function.update_self] at hm
      exact absurd rfl hm
    · rw [Function.update_of_ne hmn] at hm ⊢
      obtain ⟨e, he, hename, hrest⟩ := h.present m hm
      obtain ⟨j, hj⟩ := List.mem_iff_getElem?.mp he
      refine ⟨e, List.mem_eraseIdx_iff_getElem?.mpr ⟨j, ?_, hj⟩, hename, hrest⟩
      rintro rfl
      rw [List.getElem?_eq_getElem hi, Option.some.injEq] at hj
      exact hmn (dumpName_injective (by rw [← hename, ← hj, hname]))

end Lists

/-! ## What every event keeps -/

/-- The numbers of the rows. -/
def regnos (cfg : Config) (k : StackKernel) (s : LogSystem) : List Nat :=
  (s.tracker.mdStacks.rows cfg k).map StackRow.regno

/-- The stacks are followed, and the dumps are registered behind them while they are published. -/
structure Settled (cfg : Config) (k : StackKernel) (p : Platform) (s : LogSystem) (last : StackOwner → UInt64) :
    Prop where
  tracked : Tracked cfg k p s.tracker last
  inits : s.tracker.currentStackInit = true ∧ s.tracker.suspendInit = true
  placed : Placed (registered s.driver) (regnos cfg k s) s.dumpAddr s.dumpSize

section Settled

variable {cfg : Config} {k : StackKernel} {p : Platform} {s : LogSystem} {last : StackOwner → UInt64} {n : DumpName}

theorem Settled.regnos_lt (h : Settled cfg k p s last) : ∀ r ∈ regnos cfg k s, r < (registered s.driver).length := by
  intro r hr
  obtain ⟨row, hrow, rfl⟩ := List.mem_map.mp hr
  exact (List.getElem?_eq_some_iff.mp (h.tracked.shown row hrow)).1

theorem Settled.names_nodup (h : Settled cfg k p s last) : ((registered s.driver).map MdRegion.name).Nodup :=
  h.tracked.kept.names_nodup

theorem Settled.length_le (h : Settled cfg k p s last) : (registered s.driver).length ≤ 197 :=
  h.tracked.kept.length_le

/-- Sizes matter for the dumps that are published. -/
theorem Placed.resize {R : List MdRegion} {before : List Nat} {addr size size' : DumpName → UInt64}
    (h : Placed R before addr size) (hsize : ∀ n, addr n ≠ 0 → size' n = size n) : Placed R before addr size' := by
  refine ⟨h.absent, ?_, h.apart, h.behind⟩
  intro n hn
  rw [hsize n hn]
  exact h.present n hn

/-- Registering a dump: it is not, or it comes last. -/
theorem Settled.register (h : Settled cfg k p s last) {size : Int} {page : Option BufferMemory}
    (hfresh : FreshPage (registered s.driver) n page)
    (hroom : (mdRegisterMemoryDump cfg size n page s).1.driver.numRegions ≤ 197) :
    ((mdRegisterMemoryDump cfg size n page s).2 = false ∧
        Settled cfg k p (mdRegisterMemoryDump cfg size n page s).1 last ∧
        (mdRegisterMemoryDump cfg size n page s).1.dumpAddr = s.dumpAddr ∧
        registered (mdRegisterMemoryDump cfg size n page s).1.driver = registered s.driver) ∨
      ((mdRegisterMemoryDump cfg size n page s).2 = true ∧
        ∀ size' : DumpName → UInt64, UInt64.ofInt (toInt (size' n)) = UInt64.ofInt size →
          (∀ m, m ≠ n → size' m = s.dumpSize m) →
          Settled cfg k p { (mdRegisterMemoryDump cfg size n page s).1 with dumpSize := size' } last) := by
  cases page with
  | none => exact Or.inl ⟨rfl, h, rfl, rfl⟩
  | some b =>
    rw [mdRegisterMemoryDump] at hroom ⊢
    dsimp only at hroom ⊢
    have hdriver : ∀ t : LogSystem, t.tracker = (s.call cfg (.add b.alloc (dumpEntry n size b))).tracker →
        t.driver = (s.call cfg (.add b.alloc (dumpEntry n size b))).driver := fun t ht => by
      rw [LogSystem.driver, ht]
      rfl
    have hroom' : (s.call cfg (.add b.alloc (dumpEntry n size b))).driver.numRegions ≤ 197 := by
      split at hroom
      · exact hroom
      · exact hroom
    have htracked := h.tracked.call (c := .add b.alloc (dumpEntry n size b)) ⟨⟨⟨hroom', trivial⟩, trivial⟩, trivial⟩
    obtain ⟨-, -, ⟨err, herr, hsame⟩ | ⟨hok, hnew⟩⟩ := h.tracked.kept.add b.alloc (dumpEntry n size b) hroom'
    · left
      have hres : (msmMinidumpAddRegion cfg b.alloc (dumpEntry n size b) s.driver).2 = .error err := herr
      rw [hres]
      refine ⟨rfl, ⟨htracked, h.inits, ?_⟩, rfl, hsame⟩
      have hplaced := h.placed
      rw [← show registered (s.call cfg (.add b.alloc (dumpEntry n size b))).driver = registered s.driver from hsame]
        at hplaced
      exact hplaced
    · right
      have hres : (msmMinidumpAddRegion cfg b.alloc (dumpEntry n size b) s.driver).2 =
          .ok (registered s.driver).length := hok
      have hadded : registered (s.call cfg (.add b.alloc (dumpEntry n size b))).driver =
          registered s.driver ++ [dumpEntry n size b] := hnew
      have hunused : n.name ∉ (registered s.driver).map MdRegion.name := by
        have hnodup := htracked.kept.names_nodup
        have hlist : registered (s.tracker.client.step cfg (.add b.alloc (dumpEntry n size b))).driver =
          registered s.driver ++ [dumpEntry n size b] := hnew
        rw [hlist, List.map_append, List.map_singleton, List.nodup_append] at hnodup
        exact fun hmem => hnodup.2.2 _ hmem _ (List.mem_singleton_self _) rfl
      rw [hres]
      refine ⟨rfl, fun size' hsize hothers => ⟨htracked, h.inits, ?_⟩⟩
      have hplaced := h.placed.append_dump (b := b) (hfresh b rfl) hunused h.regnos_lt hsize hothers
      rw [← hadded] at hplaced
      exact hplaced

/-- `md_get_region` returns the region of a name, and nothing for a name that is not registered. -/
theorem Settled.getRegion_of_mem (h : Settled cfg k p s last) {e : MdRegion} (he : e ∈ registered s.driver) :
    (mdGetRegion cfg e.name s.driver).SameRegion e := h.tracked.kept.listed.returned cfg e he

theorem Settled.getRegion_of_absent (h : Settled cfg k p s last) {name : CStr}
    (hname : name ∉ (registered s.driver).map MdRegion.name) : (mdGetRegion cfg name s.driver).virtAddr = 0 := by
  have hlisted := h.tracked.kept.listed
  have hsmem := hlisted.numbered.smem
  have hmapped : s.driver.minidumpTable.tocMapped = true := by
    have htoc := hsmem.toc
    rw [tocEnabled, Bool.and_eq_true] at htoc
    exact htoc.1
  have hrm : s.driver.isRmMinidump = false := hsmem.rm
  rw [mdGetRegion, hrm, if_neg Bool.false_ne_true, hmapped, Bool.not_true, if_neg Bool.false_ne_true]
  cases hfound : firstNamed (fun i => (s.driver.minidumpTable.entry i).name) s.driver.numRegions name with
  | error err => rfl
  | ok i =>
    obtain ⟨hi, hentry, -⟩ := firstNamed_eq_ok.mp hfound
    exact absurd (List.mem_map.mpr ⟨_, List.mem_of_getElem? (registered_getElem? hi), hentry⟩) hname

/-- A dump that is not published cannot be removed. -/
theorem Settled.unregister_absent (h : Settled cfg k p s last) (id : UInt32) (hn : s.dumpAddr n = 0) :
    mdUnregisterMemoryDump cfg id n s = (s, false) := by
  rw [mdUnregisterMemoryDump]
  exact if_pos (h.getRegion_of_absent (h.placed.absent n hn))

/-- No region before a dump has its memory, so its headers are found. -/
theorem Settled.removable (h : Settled cfg k p s last) {i : Nat} (hi : i < (registered s.driver).length)
    (hdump : IsDump (registered s.driver)[i].name) : Removable (registered s.driver) i hi := by
  obtain ⟨hle, htwin, -⟩ := firstTwin_spec hi
  have hj : firstTwin (registered s.driver) (registered s.driver)[i] < (registered s.driver).length := by omega
  have hself : firstTwin (registered s.driver) (registered s.driver)[i] = i := by
    have hsame := htwin hj
    rw [samePlace, Bool.and_eq_true, beq_iff_eq] at hsame
    by_contra hne
    refine h.placed.apart _ (List.getElem_mem hi) hdump _ (List.getElem_mem hj) ?_ hsame.1
    exact fun heq => hne (names_inj h.names_nodup hj hi heq)
  refine ⟨fun m hm h1 h2 => ?_, ?_⟩
  · rw [hself] at h1
    obtain rfl : m = i := by omega
    rfl
  · rw [hself, Nat.sub_self, Nat.zero_mul]
    rfl

/-- **A dump that is published can be removed.** -/
theorem Settled.unregister (h : Settled cfg k p s last) (id : UInt32) (hn : s.dumpAddr n ≠ 0) :
    (mdUnregisterMemoryDump cfg id n s).2 = true ∧
      Settled cfg k p { (mdUnregisterMemoryDump cfg id n s).1 with
        dumpAddr := Function.update (mdUnregisterMemoryDump cfg id n s).1.dumpAddr n 0 } last ∧
      ∃ i, ∃ hi : i < (registered s.driver).length, (registered s.driver)[i].name = n.name ∧
        registered (mdUnregisterMemoryDump cfg id n s).1.driver = (registered s.driver).eraseIdx i := by
  obtain ⟨e, he, hname, hvirt, -⟩ := h.placed.present n hn
  obtain ⟨i, hi, rfl⟩ := List.getElem_of_mem he
  have hget := h.getRegion_of_mem he
  rw [hname] at hget
  -- what is passed to the removal
  have hsame : (mdEntry cfg id n s.driver).SameRegion (registered s.driver)[i] :=
    ⟨hget.name, hget.virtAddr, hget.physAddr, hget.size⟩
  have hpublished : (mdGetRegion cfg n.name s.driver).virtAddr ≠ 0 := by
    rw [hget.virtAddr, hvirt]
    exact hn
  have hremovable := h.removable hi ⟨n, hname.symm⟩
  obtain ⟨hok, herased⟩ := h.tracked.kept.remove hi hsame hremovable
  have herased' : registered (s.call cfg (.remove (mdEntry cfg id n s.driver))).driver =
      (registered s.driver).eraseIdx i := herased
  have hlength := h.length_le
  have hroom : (s.tracker.client.step cfg (.remove (mdEntry cfg id n s.driver))).driver.numRegions ≤ 197 := by
    rw [← length_registered]
    refine Nat.le_trans (Nat.le_of_eq (congrArg List.length herased)) ?_
    exact Nat.le_trans (List.length_eraseIdx_le _ _) hlength
  have hbefore : ∀ r ∈ regnos cfg k s, r < i :=
    h.placed.behind i _ (List.getElem?_eq_getElem hi) ⟨n, hname.symm⟩
  have htracked := h.tracked.call (c := .remove (mdEntry cfg id n s.driver))
    ⟨⟨⟨hroom, hok⟩, i, hi, hsame, hremovable⟩, fun row hrow j hj => by
      obtain ⟨x, hx, hxname⟩ := Option.map_eq_some_iff.mp hj
      refine h.placed.behind j x hx ⟨n, ?_⟩ row.regno (List.mem_map_of_mem hrow)
      rw [hxname]
      exact (hsame.name.trans hname).symm⟩
  have hresult : mdUnregisterMemoryDump cfg id n s =
      (s.call cfg (.remove (mdEntry cfg id n s.driver)), true) := by
    have hok' : (msmMinidumpRemoveRegion true (mdEntry cfg id n s.driver) s.driver).2 = .ok () := hok
    rw [mdUnregisterMemoryDump, if_neg hpublished, hok']
  rw [hresult]
  refine ⟨rfl, ⟨htracked, h.inits, ?_⟩, i, hi, hname, herased⟩
  have hplaced := (h.placed.erase_dump h.names_nodup hi hbefore hname).1
  rw [← herased'] at hplaced
  exact hplaced

theorem register_dumpSize (cfg : Config) (size : Int) (n : DumpName) (page : Option BufferMemory) (s : LogSystem) :
    (mdRegisterMemoryDump cfg size n page s).1.dumpSize = s.dumpSize := by
  cases page with
  | none => rfl
  | some b =>
    rw [mdRegisterMemoryDump]
    split
    · rfl
    · rfl

theorem numRegions_register_le (cfg : Config) (size : Int) (n : DumpName) (page : Option BufferMemory)
    (s : LogSystem) : (mdRegisterMemoryDump cfg size n page s).1.driver.numRegions ≤ s.driver.numRegions + 1 := by
  cases page with
  | none => exact Nat.le_succ _
  | some b =>
    have hone := numRegions_add_le cfg b.alloc (dumpEntry n size b) s.driver
    rw [mdRegisterMemoryDump]
    split
    · exact hone
    · exact hone

/-- The size of a dump that is registered is put on record. -/
theorem Settled.registerSized (h : Settled cfg k p s last) {size : UInt64} {page : Option BufferMemory}
    (hfresh : FreshPage (registered s.driver) n page)
    (hroom : (mdRegisterMemoryDump cfg (toInt size) n page s).1.driver.numRegions ≤ 197)
    (hres : (mdRegisterMemoryDump cfg (toInt size) n page s).2 = true) :
    Settled cfg k p ((mdRegisterMemoryDump cfg (toInt size) n page s).1.setSize n size) last := by
  rcases h.register hfresh hroom with ⟨hno, -⟩ | ⟨-, hset⟩
  · rw [hres] at hno
    cases hno
  · refine hset _ ?_ ?_
    · rw [Function.update_self]
    · intro m hm
      rw [Function.update_of_ne hm, register_dumpSize]

/-- The size on record stays. -/
theorem Settled.registerSame (h : Settled cfg k p s last) {page : Option BufferMemory}
    (hfresh : FreshPage (registered s.driver) n page)
    (hroom : (mdRegisterMemoryDump cfg (toInt (s.dumpSize n)) n page s).1.driver.numRegions ≤ 197) :
    Settled cfg k p (mdRegisterMemoryDump cfg (toInt (s.dumpSize n)) n page s).1 last := by
  have hsizes := register_dumpSize cfg (toInt (s.dumpSize n)) n page s
  rcases h.register hfresh hroom with ⟨-, hsettled, -⟩ | ⟨-, hset⟩
  · exact hsettled
  · have hresult := hset s.dumpSize rfl fun _ _ => rfl
    generalize mdRegisterMemoryDump cfg (toInt (s.dumpSize n)) n page s = r at hsizes hresult
    rw [← hsizes] at hresult
    exact hresult

/-- A dump that is not published has any size. -/
theorem Settled.setSize (h : Settled cfg k p s last) (hn : s.dumpAddr n = 0) (size : UInt64) :
    Settled cfg k p (s.setSize n size) last := by
  refine ⟨h.tracked, h.inits, h.placed.resize fun m hm => Function.update_of_ne ?_ _ _⟩
  rintro rfl
  exact hm hn

theorem Settled.registerAgain (h : Settled cfg k p s last) {size : UInt64} {o : ResizeOutcome} (hn : s.dumpAddr n = 0)
    (hnew : FreshPage (registered s.driver) n o.new) (hfallback : FreshPage (registered s.driver) n o.fallback)
    (hroom : s.driver.numRegions + 1 ≤ 197) : Settled cfg k p (registerAgain cfg o n size s) last := by
  rw [MinidumpLog.registerAgain]
  split
  · exact h.setSize hn 0
  have hfirst := numRegions_register_le cfg (toInt (megabytes size)) n o.new s
  dsimp only
  split
  case isTrue hres => exact h.registerSized hnew (Nat.le_trans hfirst hroom) hres
  case isFalse hres =>
    rcases h.register hnew (Nat.le_trans hfirst hroom) with ⟨-, hsettled, haddr, hsame⟩ | ⟨hyes, -⟩
    swap
    · exact absurd hyes hres
    rw [← hsame] at hfallback
    have hcount : (mdRegisterMemoryDump cfg (toInt (megabytes size)) n o.new s).1.driver.numRegions =
        s.driver.numRegions := by
      rw [← length_registered, hsame, length_registered]
    have hsecond := numRegions_register_le cfg
      (toInt ((mdRegisterMemoryDump cfg (toInt (megabytes size)) n o.new s).1.dumpSize n)) n o.fallback
      (mdRegisterMemoryDump cfg (toInt (megabytes size)) n o.new s).1
    rw [hcount] at hsecond
    have hkept := hsettled.registerSame hfallback (Nat.le_trans hsecond hroom)
    split
    case isTrue hagain => exact hkept
    case isFalse hagain =>
      rcases hsettled.register hfallback (Nat.le_trans hsecond hroom) with ⟨-, -, haddr', -⟩ | ⟨hyes, -⟩
      · refine hkept.setSize ?_ 0
        rw [haddr', haddr]
        exact hn
      · exact absurd hyes hagain

/-- **A write to the file of a dump.** -/
theorem Settled.updateDumpSize (h : Settled cfg k p s last) {size : UInt64} {o : ResizeOutcome}
    (hnew : FreshPage (registered s.driver) n o.new) (hfallback : FreshPage (registered s.driver) n o.fallback)
    (hroom : (updateDumpSize cfg o n size s).driver.numRegions ≤ 197) :
    Settled cfg k p (updateDumpSize cfg o n size s) last := by
  rw [MinidumpLog.updateDumpSize] at hroom ⊢
  split
  case isTrue hsize =>
    rw [if_pos hsize] at hroom
    have hroom' : (mdRegisterMemoryDump cfg (toInt (megabytes size)) n o.new s).1.driver.numRegions ≤ 197 := by
      dsimp only at hroom
      split at hroom
      · exact hroom
      · exact hroom
    dsimp only
    split
    case isTrue hres => exact h.registerSized hnew hroom' hres
    case isFalse hres =>
      rcases h.register hnew hroom' with ⟨-, hsettled, -⟩ | ⟨hyes, -⟩
      · exact hsettled
      · exact absurd hyes hres
  case isFalse hsize =>
    dsimp only
    by_cases hn : s.dumpAddr n = 0
    · rw [h.unregister_absent o.id hn, if_neg Bool.false_ne_true]
      exact h
    · obtain ⟨hres, hsettled, i, hi, hname, herased⟩ := h.unregister o.id hn
      rw [if_pos hres]
      have hsub : ∀ page, FreshPage (registered s.driver) n page →
          FreshPage (registered (mdUnregisterMemoryDump cfg o.id n s).1.driver) n page := by
        intro page hfresh b hb e he
        rw [herased] at he
        exact hfresh b hb e ((List.eraseIdx_sublist _ _).subset he)
      refine hsettled.registerAgain (Function.update_self ..) (hsub _ hnew) (hsub _ hfallback) ?_
      have hlength := h.length_le
      show (mdUnregisterMemoryDump cfg o.id n s).1.driver.numRegions + 1 ≤ 197
      rw [← length_registered, herased, List.length_eraseIdx_of_lt hi]
      omega

/-- **A call of another client** leaves the dumps alone. -/
theorem Settled.call (h : Settled cfg k p s last) {c : Call} (hok : TrackOk cfg k s.tracker (.call c))
    (hothers : LeavesDumps (registered s.driver) c) : Settled cfg k p (s.call cfg c) last := by
  refine ⟨h.tracked.call hok, h.inits, ?_⟩
  have hplaced : Placed (registered s.tracker.client.driver) (regnos cfg k s) s.dumpAddr s.dumpSize := h.placed
  show Placed (registered (s.tracker.client.step cfg c).driver) (regnos cfg k s) s.dumpAddr s.dumpSize
  have heffect := h.tracked.kept.effect hok.1
  have hown := hok.2
  generalize registered (s.tracker.client.step cfg c).driver = R' at heffect ⊢
  revert hothers hown
  clear hok
  cases heffect with
  | refused => exact fun _ _ => hplaced
  | added => exact fun hothers _ => hplaced.append_other hothers.1 hothers.2
  | @moved e i hi hname =>
    intro hothers _
    refine hplaced.frame (map_modify_moveTo MdRegion.name (fun _ => rfl) _ i) ?_ ?_
    · intro j x hx hdump
      have hne : i ≠ j := by
        rintro rfl
        rw [List.getElem?_eq_getElem hi, Option.some.injEq] at hx
        exact hothers.1 (by rw [← hname, hx]; exact hdump)
      rw [List.getElem?_modify_ne _ _ hne]
      exact hx
    · intro x hx hother
      obtain ⟨j, hj⟩ := List.mem_iff_getElem?.mp hx
      by_cases hne : i = j
      · subst hne
        rw [List.getElem?_modify_eq, List.getElem?_eq_getElem hi] at hj
        have hsame : MdRegion.moveTo e _ = x := Option.some.inj hj
        rw [← hsame]
        exact hothers.2
      · rw [List.getElem?_modify_ne _ _ hne] at hj
        intro y hy hdump
        refine (hplaced.apart y hy hdump x (List.mem_of_getElem? hj) ?_).symm
        exact fun heq => hother (heq ▸ hdump)
  | @removed e i hi hname =>
    intro hothers hown
    refine hplaced.erase_other hi ?_ (by rw [hname]; exact hothers)
    intro r hr
    obtain ⟨row, hrow, rfl⟩ := List.mem_map.mp hr
    refine hown row hrow i ?_
    rw [List.getElem?_eq_getElem hi, Option.map_some, hname]

end Settled

/-! ## Every run -/

section Runs

variable {cfg : Config} {k : StackKernel} {p : Platform}

end Runs

end SafelinuxDbg.MinidumpLog
