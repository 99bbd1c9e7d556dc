import SafelinuxDbg.MemoryDump.DumpTable

/-!
# What the carve-out holds

Which children get a place in the carve-out, and where, can be said without the memory:
`placements` walks the children with one cursor.  The two loops of `mem_dump_alloc` skip different
children, the first one those without a size and the second one also those without an id; so the
memory is always enough.

* `placements_pairwise`, `carveEnd_le`: the places do not overlap and end inside of the memory.
* `CarveInv.child`: a round of the second loop fills in one place.
* `memDumpAlloc_laidOut`: what is in the memory after `mem_dump_alloc`.
-/

namespace SafelinuxDbg.MemoryDump

open CMemory

theorem dumpTableSize_eq : dumpTableSize = 16136 := rfl

theorem dumpEntrySize_eq : dumpEntrySize = 48 := rfl

theorem dumpDataSize_eq : dumpDataSize = 64 := rfl

theorem maxNumEntries_eq : maxNumEntries = 336 := rfl

/-! ## Places -/

/-- The place of a child: its header is at `offset`, its data behind the header. -/
structure Placement where
  offset : Nat
  size : UInt32
  id : UInt32
deriving DecidableEq

namespace Placement

variable (p : Placement)

/-- Where the data starts. -/
def data : Nat := p.offset + dumpDataSize

/-- The end of the data. -/
def finish : Nat := p.data + p.size.toNat

end Placement

/-- The places of the children that have a size and an id, from `o` on. -/
def placements : Nat → List ChildNode → List Placement
  | _, [] => []
  | o, child :: children =>
    match child.dumpSize, child.dumpId with
    | some size, some id => ⟨o, size, id⟩ :: placements (o + dumpDataSize + size.toNat) children
    | _, _ => placements o children

/-- The end of the last place. -/
def carveEnd : Nat → List ChildNode → Nat
  | o, [] => o
  | o, child :: children =>
    match child.dumpSize, child.dumpId with
    | some size, some _ => carveEnd (o + dumpDataSize + size.toNat) children
    | _, _ => carveEnd o children

/-- The bytes for the children that have a size. -/
def childBytes (children : List ChildNode) : Nat :=
  ((children.filterMap ChildNode.dumpSize).map (fun size => dumpDataSize + size.toNat)).sum

/-- The size of the carve-out, in exact numbers. -/
def carveOutSize (children : List ChildNode) : Nat :=
  (dumpTableSize * 2 + childBytes children + 4095) / 4096 * 4096

section Places

theorem le_carveEnd (o : Nat) (children : List ChildNode) : o ≤ carveEnd o children := by
  induction children generalizing o with
  | nil => exact Nat.le_refl o
  | cons child children ih =>
    rw [carveEnd]
    split
    · rename_i size id hsize hid
      have hrest := ih (o + dumpDataSize + size.toNat)
      omega
    · exact ih o

theorem carveEnd_append_le (o : Nat) (before after : List ChildNode) :
    carveEnd o before ≤ carveEnd o (before ++ after) := by
  induction before generalizing o with
  | nil => exact le_carveEnd o after
  | cons child before ih =>
    rw [List.cons_append, carveEnd, carveEnd]
    split
    · exact ih _
    · exact ih o

theorem childBytes_cons_some {child : ChildNode} {children : List ChildNode} {size : UInt32}
    (h : child.dumpSize = some size) :
    childBytes (child :: children) = dumpDataSize + size.toNat + childBytes children := by
  rw [childBytes, List.filterMap_cons_some h, List.map_cons, List.sum_cons]
  rfl

theorem childBytes_cons_none {child : ChildNode} {children : List ChildNode}
    (h : child.dumpSize = none) : childBytes (child :: children) = childBytes children := by
  rw [childBytes, List.filterMap_cons_none h]
  rfl

theorem carveEnd_le_childBytes (o : Nat) (children : List ChildNode) :
    carveEnd o children ≤ o + childBytes children := by
  induction children generalizing o with
  | nil => exact Nat.le_refl o
  | cons child children ih =>
    rw [carveEnd]
    split
    · rename_i size id hsize hid
      have hrest := ih (o + dumpDataSize + size.toNat)
      rw [childBytes_cons_some hsize]
      omega
    · have hrest := ih o
      cases hsize : child.dumpSize with
      | none =>
        rw [childBytes_cons_none hsize]
        exact hrest
      | some size =>
        -- a child without an id leaves its bytes unused
        rw [childBytes_cons_some hsize]
        omega

/-- **The memory is enough** for all places. -/
theorem carveEnd_le (children : List ChildNode) :
    carveEnd (dumpTableSize * 2) children ≤ carveOutSize children := by
  have hle := carveEnd_le_childBytes (dumpTableSize * 2) children
  rw [carveOutSize]
  omega

theorem placements_bounds (o : Nat) (children : List ChildNode) :
    ∀ p ∈ placements o children, o ≤ p.offset ∧ p.finish ≤ carveEnd o children := by
  induction children generalizing o with
  | nil =>
    intro p hp
    cases hp
  | cons child children ih =>
    rw [placements, carveEnd]
    split
    · rename_i size id hsize hid
      intro p hp
      rcases List.mem_cons.mp hp with rfl | hp
      · exact ⟨Nat.le_refl o, le_carveEnd _ children⟩
      · obtain ⟨hoffset, hfinish⟩ := ih _ p hp
        exact ⟨by omega, hfinish⟩
    · exact ih o

/-- **The places do not overlap.** -/
theorem placements_pairwise (o : Nat) (children : List ChildNode) :
    (placements o children).Pairwise (fun p q => p.finish ≤ q.offset) := by
  induction children generalizing o with
  | nil => exact List.Pairwise.nil
  | cons child children ih =>
    rw [placements]
    split
    · rename_i size id hsize hid
      refine List.pairwise_cons.mpr ⟨?_, ih _⟩
      intro q hq
      exact (placements_bounds _ children q hq).1
    · exact ih o

/-- Two places are the same or apart. -/
theorem placements_apart {o : Nat} {children : List ChildNode} {p q : Placement}
    (hp : p ∈ placements o children) (hq : q ∈ placements o children) :
    p = q ∨ p.finish ≤ q.offset ∨ q.finish ≤ p.offset := by
  have hpair := placements_pairwise o children
  exact List.Pairwise.forall_of_forall_of_flip
    (R := fun p q => p = q ∨ p.finish ≤ q.offset ∨ q.finish ≤ p.offset)
    (fun _ _ => Or.inl rfl) (hpair.imp (fun h => Or.inr (Or.inl h)))
    (hpair.imp (fun h => Or.inr (Or.inr h))) hp hq

end Places

/-! ## The size of the memory -/

section Size

theorem toUInt64_eq (x : UInt32) : x.toUInt64 = UInt64.ofNat x.toNat := by
  have hx := x.toNat_lt
  apply UInt64.toNat_inj.mp
  rw [UInt32.toNat_toUInt64]
  exact (UInt64.toNat_ofNat_of_lt (show x.toNat < 2 ^ 64 by omega)).symm

/-- Clearing the low twelve bits. -/
theorem and_mask_toNat (x : UInt64) :
    (x &&& 0xfffffffffffff000).toNat = x.toNat / 4096 * 4096 := by
  have hmask : (0xfffffffffffff000 : UInt64).toNat = (2 ^ 52 - 1) * 2 ^ 12 := by decide
  have hx : x.toNat < 2 ^ 64 := x.toNat_lt
  rw [UInt64.toNat_and, hmask]
  apply Nat.eq_of_testBit_eq
  intro i
  have hpow : (4096 : Nat) = 2 ^ 12 := rfl
  rw [hpow, Nat.testBit_and, Nat.testBit_mul_two_pow, Nat.testBit_mul_two_pow,
    Nat.testBit_div_two_pow, Nat.testBit_two_pow_sub_one]
  by_cases hi : 12 ≤ i
  · have hsub : i - 12 + 12 = i := by omega
    rw [hsub]
    by_cases hlt : i < 64
    · have hlt' : i - 12 < 52 := by omega
      simp [hi, hlt']
    · have hbit : x.toNat.testBit i = false :=
        Nat.testBit_lt_two_pow (Nat.lt_of_lt_of_le hx (Nat.pow_le_pow_right (by decide) (by omega)))
      simp [hbit]
  · simp [hi]

theorem align4K_toNat {n : Nat} (h : n + 4095 < 2 ^ 64) :
    (align4K (UInt64.ofNat n)).toNat = (n + 4095) / 4096 * 4096 := by
  have hsum : (UInt64.ofNat n + 4095).toNat = n + 4095 := by
    have hn : (UInt64.ofNat n).toNat = n := UInt64.toNat_ofNat_of_lt (show n < 2 ^ 64 by omega)
    have hc : (4095 : UInt64).toNat = 4095 := rfl
    rw [UInt64.toNat_add, hn, hc, Nat.mod_eq_of_lt h]
  rw [align4K, and_mask_toNat, hsum]

/-- The first loop, from any sum and any number. -/
theorem foldl_addSize (children : List ChildNode) (acc : UInt64 × UInt64) :
    (children.foldl addSize acc).1 + UInt64.ofNat dumpDataSize * (children.foldl addSize acc).2 =
      acc.1 + UInt64.ofNat dumpDataSize * acc.2 + UInt64.ofNat (childBytes children) := by
  induction children generalizing acc with
  | nil => exact (UInt64.add_zero _).symm
  | cons child children ih =>
    rw [List.foldl_cons, ih, addSize]
    cases hsize : child.dumpSize with
    | none => rw [childBytes_cons_none hsize]
    | some size =>
      dsimp only
      rw [childBytes_cons_some hsize, UInt64.ofNat_add (dumpDataSize + size.toNat),
        UInt64.ofNat_add dumpDataSize, UInt64.mul_add, UInt64.mul_one, toUInt64_eq]
      ac_rfl

/-- The first loop. -/
theorem sumSizes_eq (children : List ChildNode) :
    (sumSizes children).1 + UInt64.ofNat dumpDataSize * (sumSizes children).2 =
      UInt64.ofNat (dumpTableSize * 2 + childBytes children) := by
  have hfold := foldl_addSize children (UInt64.ofNat (dumpTableSize * 2), 0)
  rw [sumSizes, hfold, UInt64.mul_zero, UInt64.add_zero, UInt64.ofNat_add]

/-- The size is exact as long as it fits into a `size_t`. -/
theorem totalSize_toNat {children : List ChildNode} (h : carveOutSize children < 2 ^ 64) :
    (totalSize children).toNat = carveOutSize children := by
  have hsum : dumpTableSize * 2 + childBytes children + 4095 < 2 ^ 64 := by
    rw [carveOutSize] at h
    omega
  rw [totalSize, sumSizes_eq, align4K_toNat hsum, carveOutSize]

end Size

/-! ## One more entry in a table -/

section Table

variable {m m' : Nat → UInt8} {table k : Nat} {entry : MsmDumpEntry}

/-- What `addEntry` does to a table with `k` entries that is not full. -/
structure EntryAdded (m m' : Nat → UInt8) (table k : Nat) (entry : MsmDumpEntry) : Prop where
  num : numEntries m' table = UInt32.ofNat (k + 1)
  entry : entryAt m' table k = entry
  /-- only the number of entries and the new entry are stored -/
  frame : ∀ x, x < table + 4 ∨ (table + 8 ≤ x ∧ x < table + 8 + dumpEntrySize * k) ∨
    table + 8 + dumpEntrySize * k + dumpEntrySize ≤ x → m' x = m x

theorem addEntry_ok (entry : MsmDumpEntry) (hnum : numEntries m table = UInt32.ofNat k)
    (hk : k < maxNumEntries) :
    ∃ m', addEntry m table entry = .ok m' ∧ EntryAdded m m' table k entry := by
  have hmax := maxNumEntries_eq
  have hsize := dumpEntrySize_eq
  have hnat : (UInt32.ofNat k).toNat = k :=
    UInt32.toNat_ofNat_of_lt (show k < 2 ^ 32 by omega)
  have hroom : ¬ UInt32.ofNat maxNumEntries ≤ UInt32.ofNat k := by
    rw [UInt32.le_iff_toNat_le, hnat]
    exact Nat.not_le.mpr hk
  refine ⟨_, by rw [addEntry, hnum, if_neg hroom, hnat], ?_, ?_, ?_⟩
  · rw [numEntries]
    exact (read32_writeLE_self _ _ _).trans (UInt32.ofNat_add k 1).symm
  · generalize he : table + 8 + dumpEntrySize * k = e
    show entryView.decode _ (table + 8 + dumpEntrySize * k) = entry
    rw [he]
    show MsmDumpEntry.mk _ _ _ = entry
    rw [read32_writeLE _ (by omega), read32_writeLE _ (by omega), read32_writeLE _ (by omega),
      read32_writeLE_self, read32_writeLE _ (by omega), read32_writeLE _ (by omega),
      read32_writeLE_self, read64_writeLE _ (by omega), read64_writeLE_self]
  · intro x hx
    rw [write32, write64, write32, write32, writeLE_outside _ (by omega),
      writeLE_outside _ (by omega), writeLE_outside _ (by omega), writeLE_outside _ (by omega)]

theorem addEntry_full (entry : MsmDumpEntry)
    (hnum : numEntries m table = UInt32.ofNat maxNumEntries) :
    addEntry m table entry = .error .EINVAL := by
  rw [addEntry, hnum, if_pos (by decide)]

end Table

/-! ## The carve-out with its first places filled in -/

/-- The entry of a place in the table of the applications processor. -/
def Placement.entry (phys : UInt64) (p : Placement) : MsmDumpEntry :=
  ⟨p.id, dumpTypeData, phys + UInt64.ofNat p.offset⟩

/-- The carve-out at `virt` and `phys` has both tables, and the headers of `ps` and the entries of
as many of them as the table has room for are filled in. -/
structure Built (virt : Nat) (phys : UInt64) (ps : List Placement) (m : Nat → UInt8) : Prop where
  baseNum : numEntries m virt = 1
  baseEntry : entryAt m virt 0 =
    ⟨dumpTableApps, dumpTypeTable, phys + UInt64.ofNat dumpTableSize⟩
  appsNum : numEntries m (virt + dumpTableSize) = UInt32.ofNat (min ps.length maxNumEntries)
  apps : entryView.At m (virt + dumpTableSize + 8)
    ((ps.take maxNumEntries).map (Placement.entry phys))
  addr : ∀ p ∈ ps, read64 m (virt + p.offset + 40) = phys + UInt64.ofNat p.data
  len : ∀ p ∈ ps, read64 m (virt + p.offset + 48) = p.size.toUInt64

/-- The memory after an entry for the applications processor's table, or as it was when the table
is full. -/
def withEntry (memdump : MsmMemoryDump) (m : Nat → UInt8) (id : UInt32) (addr : UInt64) :
    Nat → UInt8 :=
  match registerDumpTableEntry memdump m dumpTableApps id addr with
  | .ok m' => m'
  | .error _ => m

namespace Built

variable {virt : Nat} {phys : UInt64} {ps : List Placement} {m m' : Nat → UInt8}

/-- Only the tables and `addr` and `len` of the headers matter. -/
theorem congr (h : Built virt phys ps m)
    (htables : ∀ x, virt ≤ x → x < virt + dumpTableSize * 2 → m' x = m x)
    (hheaders : ∀ p ∈ ps, ∀ k, 40 ≤ k → k < 56 → m' (virt + p.offset + k) = m (virt + p.offset + k)) :
    Built virt phys ps m' := by
  have htable := dumpTableSize_eq
  refine ⟨?_, ?_, ?_, ?_, ?_, ?_⟩
  · rw [← h.baseNum, numEntries, numEntries]
    exact read32_congr (fun k hk => htables _ (by omega) (by omega))
  · rw [← h.baseEntry, entryAt, entryAt]
    apply entryView.decode_congr
    intro k hk
    have hlt : k < 48 := hk
    exact htables _ (by omega) (by omega)
  · rw [← h.appsNum, numEntries, numEntries]
    exact read32_congr (fun k hk => htables _ (by omega) (by omega))
  · refine h.apps.congr ?_
    intro x h1 h2
    have hlen : ((ps.take maxNumEntries).map (Placement.entry phys)).length ≤ maxNumEntries := by
      rw [List.length_map, List.length_take]
      exact Nat.min_le_left _ _
    have hbound : entryView.stride * ((ps.take maxNumEntries).map (Placement.entry phys)).length ≤
        48 * 336 := Nat.mul_le_mul_left 48 hlen
    exact (htables x (by omega) (by omega)).symm
  · intro p hp
    rw [← h.addr p hp]
    apply read64_congr
    intro k hk
    rw [Nat.add_assoc]
    exact hheaders p hp (40 + k) (by omega) (by omega)
  · intro p hp
    rw [← h.len p hp]
    apply read64_congr
    intro k hk
    rw [Nat.add_assoc]
    exact hheaders p hp (48 + k) (by omega) (by omega)

/-- **The table of the applications processor is found** through its physical address. -/
theorem msmDumpGetTable_eq (h : Built virt phys ps m)
    (hphys : phys + UInt64.ofNat dumpTableSize ≠ 0) :
    msmDumpGetTable ⟨virt, phys⟩ m dumpTableApps = .ok (virt + dumpTableSize) := by
  have hfound : (List.range maxNumEntries).find?
      (fun i => (entryAt m virt i).id == dumpTableApps) = some 0 := by
    rw [List.find?_range_eq_some]
    refine ⟨?_, List.mem_range.mpr (by decide), ?_⟩
    · rw [h.baseEntry]
      rfl
    · intro j hj
      omega
  have hoffset : (phys + UInt64.ofNat dumpTableSize - phys).toNat = dumpTableSize := by
    rw [UInt64.add_comm, UInt64.add_sub_cancel]
    exact UInt64.toNat_ofNat_of_lt (by decide)
  rw [msmDumpGetTable]
  dsimp only
  rw [hfound]
  dsimp only
  rw [h.baseEntry, if_neg hphys, hoffset]

/-- The table of the applications processor gets the entry of the next place, as long as there is
room. -/
theorem register (h : Built virt phys ps m) {p : Placement}
    (hphys : phys + UInt64.ofNat dumpTableSize ≠ 0)
    (hoffsets : ∀ q ∈ ps ++ [p], dumpTableSize * 2 ≤ q.offset)
    (haddr : read64 m (virt + p.offset + 40) = phys + UInt64.ofNat p.data)
    (hlen : read64 m (virt + p.offset + 48) = p.size.toUInt64) :
    Built virt phys (ps ++ [p])
      (withEntry ⟨virt, phys⟩ m p.id (phys + UInt64.ofNat p.offset)) := by
  have htable := dumpTableSize_eq
  have hmax := maxNumEntries_eq
  have hsize := dumpEntrySize_eq
  have hentry : (⟨p.id, dumpTypeData, phys + UInt64.ofNat p.offset⟩ : MsmDumpEntry) =
      p.entry phys := rfl
  rw [withEntry, registerDumpTableEntry, h.msmDumpGetTable_eq hphys]
  dsimp only
  rw [hentry]
  have happs := h.appsNum
  have hheaders : ∀ q ∈ ps ++ [p], read64 m (virt + q.offset + 40) = phys + UInt64.ofNat q.data ∧
      read64 m (virt + q.offset + 48) = q.size.toUInt64 := by
    intro q hq
    rcases List.mem_append.mp hq with hq | hq
    · exact ⟨h.addr q hq, h.len q hq⟩
    · cases List.mem_singleton.mp hq
      exact ⟨haddr, hlen⟩
  by_cases hroom : ps.length < maxNumEntries
  · rw [Nat.min_eq_left (Nat.le_of_lt hroom)] at happs
    obtain ⟨m', hm', hadded⟩ := addEntry_ok (p.entry phys) happs hroom
    rw [hm']
    dsimp only
    have hbound : dumpEntrySize * ps.length + dumpEntrySize ≤ 16128 :=
      Nat.mul_le_mul_left dumpEntrySize hroom
    have hkept : ∀ x, x < virt + dumpTableSize + 4 ∨ virt + dumpTableSize * 2 ≤ x →
        m' x = m x := fun x hx => hadded.frame x (by omega)
    refine ⟨?_, ?_, ?_, ?_, ?_, ?_⟩
    · rw [← h.baseNum, numEntries, numEntries]
      exact read32_congr (fun k hk => hkept _ (by omega))
    · rw [← h.baseEntry, entryAt, entryAt]
      apply entryView.decode_congr
      intro k hk
      have hlt : k < 48 := hk
      exact hkept _ (by omega)
    · rw [hadded.num, List.length_append, List.length_singleton, Nat.min_eq_left hroom]
    · rw [List.take_of_length_le (by rw [List.length_append]; exact hroom), List.map_append]
      have hold := h.apps
      rw [List.take_of_length_le (Nat.le_of_lt hroom)] at hold
      have hnew : entryView.At m' (virt + dumpTableSize + 8) (ps.map (Placement.entry phys)) := by
        refine hold.congr ?_
        intro x h1 h2
        rw [List.length_map] at h2
        exact (hadded.frame x (Or.inr (Or.inl ⟨h1, h2⟩))).symm
      refine hnew.push ?_
      rw [List.length_map]
      exact hadded.entry
    · intro q hq
      have hoffset := hoffsets q hq
      have hread : read64 m' (virt + q.offset + 40) = read64 m (virt + q.offset + 40) :=
        read64_congr (fun k hk => hkept _ (by omega))
      rw [hread, (hheaders q hq).1]
    · intro q hq
      have hoffset := hoffsets q hq
      have hread : read64 m' (virt + q.offset + 48) = read64 m (virt + q.offset + 48) :=
        read64_congr (fun k hk => hkept _ (by omega))
      rw [hread, (hheaders q hq).2]
  · have hfull : maxNumEntries ≤ ps.length := Nat.not_lt.mp hroom
    rw [Nat.min_eq_right hfull] at happs
    rw [addEntry_full _ happs]
    refine ⟨h.baseNum, h.baseEntry, ?_, ?_, fun q hq => (hheaders q hq).1,
      fun q hq => (hheaders q hq).2⟩
    · rw [happs, Nat.min_eq_right (by rw [List.length_append]; omega)]
    · rw [List.take_append_of_le_length hfull]
      exact h.apps

end Built

/-! ## The second loop -/

/-- After some rounds of the second loop: the places `ps` are filled in, and both cursors are at
offset `o`, behind them. -/
structure CarveInv (virt : Nat) (phys : UInt64) (o : Nat) (ps : List Placement) (s : Carving) :
    Prop where
  built : Built virt phys ps s.mem
  dumpVaddr : s.dumpVaddr = virt + o
  physAddr : s.physAddr = phys + UInt64.ofNat o
  tables : dumpTableSize * 2 ≤ o
  offsets : ∀ p ∈ ps, dumpTableSize * 2 ≤ p.offset
  finish : ∀ p ∈ ps, p.finish ≤ o
  /-- the buffers of the cores are data of places -/
  sprdata : ∀ i a size, s.cpudata.sprdata i = some (a, size) →
    ∃ p ∈ ps, a = virt + p.data ∧ size = p.size

section Loop

variable {virt o : Nat} {phys : UInt64} {ps : List Placement} {s : Carving}

/-- Where `cpuss_dump_init` can put a buffer. -/
theorem cpussDumpInit_sprdata (kzalloc : Kzalloc) (d : CpussDumpData) (dumpVaddr : Nat)
    (size id : UInt32) (i : Fin 8) :
    (cpussDumpInit kzalloc d dumpVaddr size id).sprdata i = d.sprdata i ∨
      (cpussDumpInit kzalloc d dumpVaddr size id).sprdata i = none ∨
      (cpussDumpInit kzalloc d dumpVaddr size id).sprdata i = some (dumpVaddr, size) := by
  rw [cpussDumpInit]
  split
  · exact Or.inl rfl
  · dsimp only
    split
    · exact Or.inl rfl
    · dsimp only
      by_cases hcore : UInt32.ofNat i.val = id - sprDumpCpu0
      · rw [if_pos hcore]
        cases kzalloc.buffer with
        | false => exact Or.inr (Or.inl rfl)
        | true => exact Or.inr (Or.inr rfl)
      · rw [if_neg hcore]
        exact Or.inl rfl

/-- The header that a round stores. -/
def storeHeader (s : Carving) (name : CStr) (size : UInt32) : Nat → UInt8 :=
  (strscpyAt (write64 (write64 s.mem (s.dumpVaddr + 40) (s.physAddr + UInt64.ofNat dumpDataSize))
    (s.dumpVaddr + 48) size.toUInt64) (s.dumpVaddr + 8) name 32).1

theorem name_length_le (name : CStr) : ((name.truncate (32 - 1)).bytes ++ [0]).length ≤ 32 := by
  rw [List.length_append, CStr.truncate, List.length_take, List.length_singleton]
  omega

theorem storeHeader_outside (s : Carving) (name : CStr) (size : UInt32) {x : Nat}
    (h : x < s.dumpVaddr + 8 ∨ s.dumpVaddr + 56 ≤ x) : storeHeader s name size x = s.mem x := by
  have hname := name_length_le name
  rw [storeHeader, strscpyAt]
  dsimp only
  rw [writeBytes_outside _ (by omega), write64, writeLE_outside _ (by omega), write64,
    writeLE_outside _ (by omega)]

theorem storeHeader_addr (s : Carving) (name : CStr) (size : UInt32) :
    read64 (storeHeader s name size) (s.dumpVaddr + 40) =
      s.physAddr + UInt64.ofNat dumpDataSize := by
  have hname := name_length_le name
  rw [storeHeader, strscpyAt]
  dsimp only
  rw [read64_writeBytes _ (by omega), write64, read64_writeLE _ (by omega), write64,
    read64_writeLE_self]

theorem storeHeader_len (s : Carving) (name : CStr) (size : UInt32) :
    read64 (storeHeader s name size) (s.dumpVaddr + 48) = size.toUInt64 := by
  have hname := name_length_le name
  rw [storeHeader, strscpyAt]
  dsimp only
  rw [read64_writeBytes _ (by omega), write64, read64_writeLE_self]

/-- A child without a size or without an id is skipped. -/
theorem child_skip (memdump : MsmMemoryDump) (s : Carving) {child : ChildNode} (kzalloc : Kzalloc)
    (hskip : ∀ size id, child.dumpSize = some size → child.dumpId = some id → False) :
    s.child memdump (child, kzalloc) = s := by
  unfold Carving.child
  dsimp only
  split
  · rename_i size id hsize hid
    exact absurd hid (hskip size id hsize)
  · rfl

/-- Any other child moves both cursors. -/
theorem child_cursors (memdump : MsmMemoryDump) {child : ChildNode} (kzalloc : Kzalloc)
    {size id : UInt32} (hsize : child.dumpSize = some size) (hid : child.dumpId = some id)
    (hvaddr : s.dumpVaddr = virt + o) (hphys : s.physAddr = phys + UInt64.ofNat o) :
    (s.child memdump (child, kzalloc)).dumpVaddr = virt + (o + dumpDataSize + size.toNat) ∧
      (s.child memdump (child, kzalloc)).physAddr =
        phys + UInt64.ofNat (o + dumpDataSize + size.toNat) := by
  unfold Carving.child
  dsimp only
  rw [hsize, hid]
  dsimp only
  refine ⟨by omega, ?_⟩
  rw [hphys, toUInt64_eq, UInt64.ofNat_add (o + dumpDataSize), UInt64.ofNat_add o]
  ac_rfl

/-- The memory after a round. -/
theorem child_mem (memdump : MsmMemoryDump) (s : Carving) {child : ChildNode} (kzalloc : Kzalloc)
    {size id : UInt32} (hsize : child.dumpSize = some size) (hid : child.dumpId = some id) :
    (s.child memdump (child, kzalloc)).mem =
      withEntry memdump (storeHeader s child.name size) id s.physAddr := by
  unfold Carving.child
  dsimp only
  rw [hsize, hid]
  dsimp only
  rw [← storeHeader]
  unfold withEntry
  cases registerDumpTableEntry memdump (storeHeader s child.name size) dumpTableApps id s.physAddr
  · rfl
  · rfl

/-- The cursors after some rounds, whatever is in the memory. -/
theorem foldl_child_cursors (memdump : MsmMemoryDump) (children : List (ChildNode × Kzalloc))
    (hvaddr : s.dumpVaddr = virt + o) (hphys : s.physAddr = phys + UInt64.ofNat o) :
    (children.foldl (Carving.child memdump) s).dumpVaddr =
        virt + carveEnd o (children.map Prod.fst) ∧
      (children.foldl (Carving.child memdump) s).physAddr =
        phys + UInt64.ofNat (carveEnd o (children.map Prod.fst)) := by
  induction children generalizing s o with
  | nil => exact ⟨hvaddr, hphys⟩
  | cons c children ih =>
    obtain ⟨child, kzalloc⟩ := c
    rw [List.foldl_cons, List.map_cons, carveEnd]
    split
    · rename_i size id hsize hid
      obtain ⟨hvaddr', hphys'⟩ := child_cursors memdump kzalloc hsize hid hvaddr hphys
      exact ih hvaddr' hphys'
    · rename_i hskip
      rw [child_skip memdump s kzalloc hskip]
      exact ih hvaddr hphys

namespace CarveInv

/-- The next header is stored behind everything that is filled in. -/
theorem storeHeader_built (h : CarveInv virt phys o ps s) (name : CStr) (size : UInt32) :
    Built virt phys ps (storeHeader s name size) := by
  have hdata := dumpDataSize_eq
  have hvaddr := h.dumpVaddr
  have htables := h.tables
  refine h.built.congr ?_ ?_
  · intro x h1 h2
    exact storeHeader_outside s name size (by omega)
  · intro p hp k h1 h2
    have hfinish := h.finish p hp
    rw [Placement.finish, Placement.data] at hfinish
    exact storeHeader_outside s name size (by omega)

/-- **A round of the second loop** for a child with a size and an id fills in its place. -/
theorem place (h : CarveInv virt phys o ps s) {child : ChildNode} (kzalloc : Kzalloc)
    {size id : UInt32} (hsize : child.dumpSize = some size) (hid : child.dumpId = some id)
    (hphys : phys + UInt64.ofNat dumpTableSize ≠ 0) :
    CarveInv virt phys (o + dumpDataSize + size.toNat) (ps ++ [⟨o, size, id⟩])
      (s.child ⟨virt, phys⟩ (child, kzalloc)) := by
  have hdata := dumpDataSize_eq
  have hvaddr := h.dumpVaddr
  have htables := h.tables
  have hstored := h.storeHeader_built child.name size
  have hoffsets : ∀ q ∈ ps ++ [⟨o, size, id⟩], dumpTableSize * 2 ≤ q.offset := by
    intro q hq
    rcases List.mem_append.mp hq with hq | hq
    · exact h.offsets q hq
    · cases List.mem_singleton.mp hq
      exact htables
  have haddr := storeHeader_addr s child.name size
  have hlen := storeHeader_len s child.name size
  rw [hvaddr, h.physAddr, UInt64.add_assoc, ← UInt64.ofNat_add] at haddr
  rw [hvaddr] at hlen
  obtain ⟨hvaddr', hphys'⟩ :=
    child_cursors ⟨virt, phys⟩ kzalloc hsize hid h.dumpVaddr h.physAddr
  refine ⟨?_, hvaddr', hphys', by omega, hoffsets, ?_, ?_⟩
  · rw [child_mem ⟨virt, phys⟩ s kzalloc hsize hid, h.physAddr]
    exact hstored.register (p := ⟨o, size, id⟩) hphys hoffsets haddr hlen
  · intro q hq
    rcases List.mem_append.mp hq with hq | hq
    · have hfinish := h.finish q hq
      omega
    · cases List.mem_singleton.mp hq
      exact Nat.le_refl _
  · intro i a size' hi
    unfold Carving.child at hi
    dsimp only at hi
    rw [hsize, hid] at hi
    dsimp only at hi
    have hold : s.cpudata.sprdata i = some (a, size') →
        ∃ p ∈ ps ++ [⟨o, size, id⟩], a = virt + p.data ∧ size' = p.size := by
      intro hi
      obtain ⟨p, hp, hdata⟩ := h.sprdata i a size' hi
      exact ⟨p, List.mem_append_left _ hp, hdata⟩
    split at hi
    · rcases cpussDumpInit_sprdata kzalloc s.cpudata (s.dumpVaddr + dumpDataSize) size id i with
        hkept | hnone | hnew
      · rw [hkept] at hi
        exact hold hi
      · rw [hnone] at hi
        cases hi
      · rw [hnew] at hi
        cases hi
        refine ⟨⟨o, size, id⟩, List.mem_append_right _ (List.mem_singleton_self _), ?_, rfl⟩
        rw [hvaddr, Placement.data, Nat.add_assoc]
    · exact hold hi

/-- **The second loop** fills in the places of all children. -/
theorem children (hphys : phys + UInt64.ofNat dumpTableSize ≠ 0)
    (children : List (ChildNode × Kzalloc)) (h : CarveInv virt phys o ps s) :
    CarveInv virt phys (carveEnd o (children.map Prod.fst))
      (ps ++ placements o (children.map Prod.fst))
      (children.foldl (Carving.child ⟨virt, phys⟩) s) := by
  induction children generalizing o ps s with
  | nil =>
    rw [List.map_nil, placements, List.append_nil]
    exact h
  | cons c children ih =>
    obtain ⟨child, kzalloc⟩ := c
    rw [List.foldl_cons, List.map_cons, carveEnd, placements]
    split
    · rename_i size id hsize hid
      have hplaced := ih (h.place kzalloc hsize hid hphys)
      rw [List.append_assoc] at hplaced
      exact hplaced
    · rename_i hskip
      rw [child_skip ⟨virt, phys⟩ s kzalloc hskip]
      exact ih h

/-- **Both tables are set up** in cleared memory. -/
theorem start (mem : Nat → UInt8) (virt : Nat) (phys : UInt64) {total : Nat}
    (htotal : dumpTableSize * 2 ≤ total) :
    ∃ m, initMemoryDump (memset mem virt total 0) virt phys = (⟨virt, phys⟩, .ok m) ∧
      CarveInv virt phys (dumpTableSize * 2) [] (Carving.start m virt phys) := by
  have htable := dumpTableSize_eq
  have hsize := dumpEntrySize_eq
  generalize hm : write32 (write32 (memset mem virt total 0) virt dumpTableVersion)
    (virt + dumpTableSize) dumpTableVersion = m
  have hcleared : ∀ table, table = virt ∨ table = virt + dumpTableSize →
      numEntries m table = UInt32.ofNat 0 := by
    intro table htable
    rw [numEntries]
    refine Eq.trans ?_ (read32_zero (table + 4))
    apply read32_congr
    intro k hk
    rw [← hm]
    rw [write32, writeLE_outside _ (by omega), write32, writeLE_outside _ (by omega), memset,
      if_pos (by omega)]
  obtain ⟨m', hm', hadded⟩ :=
    addEntry_ok ⟨dumpTableApps, dumpTypeTable, phys + UInt64.ofNat dumpTableSize⟩
      (hcleared virt (Or.inl rfl)) (show 0 < maxNumEntries by decide)
  refine ⟨m', ?_, ?_⟩
  · rw [initMemoryDump, hm, msmDumpTableRegister, hm']
  · refine ⟨⟨hadded.num, hadded.entry, ?_, ?_, ?_, ?_⟩, rfl, rfl, Nat.le_refl _, ?_, ?_, ?_⟩
    · have hframe : numEntries m' (virt + dumpTableSize) = numEntries m (virt + dumpTableSize) :=
        read32_congr (fun k hk => hadded.frame _ (by omega))
      exact hframe.trans (hcleared _ (Or.inr rfl))
    · intro i hi
      exact absurd hi (Nat.not_lt_zero i)
    · intro p hp
      cases hp
    · intro p hp
      cases hp
    · intro p hp
      cases hp
    · intro p hp
      cases hp
    · intro i a size hi
      cases hi

end CarveInv

end Loop

/-! ## The buffers of the cores -/

section Reset

/-- A reset stores the twenty-four bytes of an empty table also into a buffer that is shorter. -/
theorem resetSprBuffer_outside (m : Nat → UInt8) {a x : Nat} {size : UInt32}
    (h : x < a ∨ (a + size.toNat ≤ x ∧ a + 24 ≤ x)) : resetSprBuffer m (a, size) x = m x := by
  rw [resetSprBuffer]
  dsimp only [write32]
  rw [memset, if_neg (by omega), writeLE_outside _ (by omega), writeLE_outside _ (by omega),
    writeLE_outside _ (by omega), writeLE_outside _ (by omega), memset, if_neg (by omega)]

theorem resetSprBuffers_outside (m : Nat → UInt8) {sprdata : Fin 8 → Option (Nat × UInt32)}
    {x : Nat} (h : ∀ i a size, sprdata i = some (a, size) →
      x < a ∨ (a + size.toNat ≤ x ∧ a + 24 ≤ x)) : resetSprBuffers m sprdata x = m x := by
  rw [resetSprBuffers]
  induction List.finRange 8 generalizing m with
  | nil => rfl
  | cons i cores ih =>
    rw [List.foldl_cons, ih]
    cases hbuffer : sprdata i with
    | none => rfl
    | some buffer =>
      obtain ⟨a, size⟩ := buffer
      exact resetSprBuffer_outside m (h i a size hbuffer)

variable {virt : Nat} {phys : UInt64} {children : List ChildNode} {s : Carving} {o : Nat}

/-- **Resetting the buffers** keeps the tables and the headers: what is stored behind a buffer that
is too short is only the start of the next header. -/
theorem CarveInv.reset
    (h : CarveInv virt phys o (placements (dumpTableSize * 2) children) s) :
    Built virt phys (placements (dumpTableSize * 2) children)
      (resetSprBuffers s.mem s.cpudata.sprdata) := by
  have hdata := dumpDataSize_eq
  refine h.built.congr ?_ ?_
  · intro x h1 h2
    apply resetSprBuffers_outside
    intro i a size hi
    obtain ⟨p, hp, rfl, rfl⟩ := h.sprdata i a size hi
    have hoffset := h.offsets p hp
    rw [Placement.data]
    omega
  · intro q hq k h1 h2
    apply resetSprBuffers_outside
    intro i a size hi
    obtain ⟨p, hp, rfl, rfl⟩ := h.sprdata i a size hi
    have hapart := placements_apart hp hq
    rw [Placement.finish, Placement.finish] at hapart
    rcases hapart with rfl | hbefore | hafter
    · rw [Placement.data]
      omega
    · rw [Placement.data] at hbefore ⊢
      omega
    · rw [Placement.data] at hafter ⊢
      omega

end Reset

/-! ## The result -/

/-- The size and the id of a child that has both. -/
def ChildNode.dump (child : ChildNode) : Option (UInt32 × UInt32) :=
  match child.dumpSize, child.dumpId with
  | some size, some id => some (size, id)
  | _, _ => none

section Dump

variable {child : ChildNode}

theorem ChildNode.dump_of_both {size id : UInt32} (hsize : child.dumpSize = some size)
    (hid : child.dumpId = some id) : child.dump = some (size, id) := by
  rw [ChildNode.dump, hsize, hid]

theorem ChildNode.dump_of_skip
    (hskip : ∀ size id, child.dumpSize = some size → child.dumpId = some id → False) :
    child.dump = none := by
  rw [ChildNode.dump]
  split
  · rename_i size id hsize hid
    exact absurd hid (hskip size id hsize)
  · rfl

end Dump

/-- There is one place for each child that has both properties, in their order. -/
theorem placements_dump (o : Nat) (children : List ChildNode) :
    (placements o children).map (fun p => (p.size, p.id)) =
      children.filterMap ChildNode.dump := by
  induction children generalizing o with
  | nil => rfl
  | cons child children ih =>
    rw [placements]
    split
    · rename_i size id hsize hid
      rw [List.map_cons, ih, List.filterMap_cons_some (ChildNode.dump_of_both hsize hid)]
    · rename_i hskip
      rw [ih, List.filterMap_cons_none (ChildNode.dump_of_skip hskip)]

/-- The ranges of bytes in the carve-out, by their start and length: both tables, and for every
place its header and its data. -/
def ranges (ps : List Placement) : List (Nat × Nat) :=
  (0, dumpTableSize) :: (dumpTableSize, dumpTableSize) ::
    ps.flatMap (fun p => [(p.offset, dumpDataSize), (p.data, p.size.toNat)])

theorem mem_ranges {ps : List Placement} {r : Nat × Nat} :
    r ∈ ranges ps ↔ r = (0, dumpTableSize) ∨ r = (dumpTableSize, dumpTableSize) ∨
      ∃ p ∈ ps, r = (p.offset, dumpDataSize) ∨ r = (p.data, p.size.toNat) := by
  simp only [ranges, List.mem_cons, List.mem_flatMap, List.not_mem_nil, or_false]

/-- The ranges follow each other. -/
theorem ranges_pairwise {ps : List Placement} (hoffsets : ∀ p ∈ ps, dumpTableSize * 2 ≤ p.offset)
    (hpair : ps.Pairwise (fun p q => p.finish ≤ q.offset)) :
    (ranges ps).Pairwise (fun r q => r.1 + r.2 ≤ q.1) := by
  have hstart : ∀ r ∈ ps.flatMap (fun p => [(p.offset, dumpDataSize), (p.data, p.size.toNat)]),
      ∃ p ∈ ps, p.offset ≤ r.1 := by
    intro r hr
    obtain ⟨p, hp, hr⟩ := List.mem_flatMap.mp hr
    refine ⟨p, hp, ?_⟩
    rcases List.mem_cons.mp hr with rfl | hr
    · exact Nat.le_refl _
    · cases List.mem_singleton.mp hr
      exact Nat.le_add_right _ _
  refine List.pairwise_cons.mpr ⟨?_, List.pairwise_cons.mpr ⟨?_, ?_⟩⟩
  · intro r hr
    rcases List.mem_cons.mp hr with rfl | hr
    · exact Nat.le_of_eq (Nat.zero_add _)
    · obtain ⟨p, hp, hle⟩ := hstart r hr
      have hoffset := hoffsets p hp
      dsimp only
      omega
  · intro r hr
    obtain ⟨p, hp, hle⟩ := hstart r hr
    have hoffset := hoffsets p hp
    dsimp only
    omega
  · refine List.pairwise_flatMap.mpr ⟨?_, ?_⟩
    · intro p hp
      exact List.pairwise_pair.mpr (Nat.le_refl _)
    · refine hpair.imp ?_
      intro p q hpq r hr r' hr'
      have hr1 : r.1 + r.2 ≤ p.finish := by
        rcases List.mem_cons.mp hr with rfl | hr
        · exact Nat.le_add_right _ _
        · cases List.mem_singleton.mp hr
          exact Nat.le_refl _
      have hr2 : q.offset ≤ r'.1 := by
        rcases List.mem_cons.mp hr' with rfl | hr'
        · exact Nat.le_refl _
        · cases List.mem_singleton.mp hr'
          exact Nat.le_add_right _ _
      omega

/-- What `mem_dump_alloc` leaves in a carve-out of `total` bytes at `virt` and `phys`. -/
structure CarvedOut (virt : Nat) (phys : UInt64) (children : List ChildNode) (total : Nat)
    (ps : List Placement) (m : Nat → UInt8) : Prop where
  /-- the places are those of the children with both properties, in their order -/
  places : ps.map (fun p => (p.size, p.id)) = children.filterMap ChildNode.dump
  apart : (ranges ps).Pairwise (fun r q => r.1 + r.2 ≤ q.1)
  inside : ∀ r ∈ ranges ps, r.1 + r.2 ≤ total
  /-- `addr` and `len` of each header describe its own data -/
  addr : ∀ p ∈ ps, read64 m (virt + p.offset + 40) = phys + UInt64.ofNat p.data
  /-- without a carry, also for empty data unless it ends the address space -/
  addrNat : ∀ p ∈ ps, 0 < p.size.toNat ∨ phys.toNat + total < 2 ^ 64 →
    (read64 m (virt + p.offset + 40)).toNat = phys.toNat + p.data
  len : ∀ p ∈ ps, (read64 m (virt + p.offset + 48)).toNat = p.size.toNat
  baseNum : numEntries m virt = 1
  baseEntry : entryAt m virt 0 =
    ⟨dumpTableApps, dumpTypeTable, phys + UInt64.ofNat dumpTableSize⟩
  appsFound : msmDumpGetTable ⟨virt, phys⟩ m dumpTableApps = .ok (virt + dumpTableSize)
  /-- the entries are those of the first places, by id and address of the header -/
  apps : (List.range (numEntries m (virt + dumpTableSize)).toNat).map
      (fun i => ((entryAt m (virt + dumpTableSize) i).id,
        (entryAt m (virt + dumpTableSize) i).addr.toNat)) =
    (ps.take maxNumEntries).map (fun p => (p.id, phys.toNat + p.offset))

/-- An address inside of the memory does not wrap. -/
theorem phys_add_toNat (phys : UInt64) {n : Nat} (h : phys.toNat + n < 2 ^ 64) :
    (phys + UInt64.ofNat n).toNat = phys.toNat + n := by
  have hn : (UInt64.ofNat n).toNat = n := UInt64.toNat_ofNat_of_lt (show n < 2 ^ 64 by omega)
  rw [UInt64.toNat_add, hn, Nat.mod_eq_of_lt h]

/-- The lookup takes an address of zero for a missing table. -/
theorem phys_add_tableSize_ne_zero {phys : UInt64} (h : phys.toNat + dumpTableSize < 2 ^ 64) :
    phys + UInt64.ofNat dumpTableSize ≠ 0 := by
  have htable := dumpTableSize_eq
  intro hzero
  have haddr := phys_add_toNat phys h
  rw [hzero] at haddr
  have hnat : (0 : UInt64).toNat = 0 := rfl
  omega

/-- The entries of a table, as they are listed. -/
theorem Built.apps_map {virt : Nat} {phys : UInt64} {ps : List Placement} {m : Nat → UInt8}
    (h : Built virt phys ps m) :
    (List.range (numEntries m (virt + dumpTableSize)).toNat).map (entryAt m (virt + dumpTableSize)) =
      (ps.take maxNumEntries).map (Placement.entry phys) := by
  have hmax := maxNumEntries_eq
  have hnum : (numEntries m (virt + dumpTableSize)).toNat = min ps.length maxNumEntries := by
    rw [h.appsNum]
    exact UInt32.toNat_ofNat_of_lt (show min ps.length maxNumEntries < 2 ^ 32 by omega)
  apply List.ext_getElem
  · rw [hnum, List.length_map, List.length_map, List.length_range, List.length_take,
      Nat.min_comm]
  · intro i h1 h2
    rw [List.getElem_map, List.getElem_range]
    exact h.apps i h2

theorem Built.carvedOut {virt total : Nat} {phys : UInt64} {children : List ChildNode}
    {m : Nat → UInt8} (h : Built virt phys (placements (dumpTableSize * 2) children) m)
    (htotal : carveEnd (dumpTableSize * 2) children ≤ total) (hphys : phys.toNat + total ≤ 2 ^ 64) :
    CarvedOut virt phys children total (placements (dumpTableSize * 2) children) m := by
  have htable := dumpTableSize_eq
  have hdata := dumpDataSize_eq
  have hbounds : ∀ p ∈ placements (dumpTableSize * 2) children,
      dumpTableSize * 2 ≤ p.offset ∧ p.offset + dumpDataSize + p.size.toNat ≤ total := by
    intro p hp
    obtain ⟨hoffset, hfinish⟩ := placements_bounds _ children p hp
    exact ⟨hoffset, Nat.le_trans hfinish htotal⟩
  have hstart := le_carveEnd (dumpTableSize * 2) children
  refine ⟨placements_dump _ children,
    ranges_pairwise (fun p hp => (hbounds p hp).1) (placements_pairwise _ children), ?_, h.addr,
    ?_, ?_, h.baseNum, h.baseEntry, h.msmDumpGetTable_eq (phys_add_tableSize_ne_zero (by omega)), ?_⟩
  · intro r hr
    rcases mem_ranges.mp hr with rfl | rfl | ⟨p, hp, rfl | rfl⟩
    · dsimp only
      omega
    · dsimp only
      omega
    · have hbound := hbounds p hp
      dsimp only
      omega
    · have hbound := hbounds p hp
      rw [Placement.data]
      dsimp only
      omega
  · intro p hp hsize
    have hbound := hbounds p hp
    rw [h.addr p hp]
    apply phys_add_toNat
    rw [Placement.data]
    omega
  · intro p hp
    rw [h.len p hp, UInt32.toNat_toUInt64]
  · have hlist := congrArg (List.map (fun e : MsmDumpEntry => (e.id, e.addr.toNat))) h.apps_map
    rw [List.map_map, List.map_map] at hlist
    refine hlist.trans ?_
    apply List.map_congr_left
    intro p hp
    have hbound := hbounds p (List.mem_of_mem_take hp)
    have haddr := phys_add_toNat phys (n := p.offset) (by omega)
    exact congrArg (Prod.mk p.id) haddr

/-- The number of nodes is an `int`, and this many sizes do not overflow the sum. -/
theorem carveOutSize_lt {children : List ChildNode}
    (h : (children.filterMap ChildNode.dumpSize).length < 2 ^ 31) :
    carveOutSize children < 2 ^ 64 := by
  have hbytes : childBytes children ≤
      (children.filterMap ChildNode.dumpSize).length * (2 ^ 32 + 63) := by
    rw [childBytes]
    induction children.filterMap ChildNode.dumpSize with
    | nil => exact Nat.zero_le _
    | cons size sizes ih =>
      have hdata := dumpDataSize_eq
      have hsize := size.toNat_lt
      rw [List.map_cons, List.sum_cons, List.length_cons]
      omega
  have htable := dumpTableSize_eq
  rw [carveOutSize]
  omega

/-- **`mem_dump_alloc` lays out the carve-out.**  For all children, each with or without a size and
an id, and whichever small allocations fail: it succeeds, the tables, headers and data of the
children with both properties are apart and inside of the memory, the headers describe the data,
and the first places are listed in the table that is found through the base table.  On the way
both cursors have the same offset. -/
theorem memDumpAlloc_laidOut (mem : Nat → UInt8) (virt : Nat) (phys : UInt64)
    (children : List (ChildNode × Kzalloc))
    (hnodes : ((children.map Prod.fst).filterMap ChildNode.dumpSize).length < 2 ^ 31)
    (hphys : phys.toNat + (totalSize (children.map Prod.fst)).toNat ≤ 2 ^ 64) :
    (∃ s, memDumpAlloc mem virt phys children = .ok (⟨virt, phys⟩, s) ∧
      ∃ ps, CarvedOut virt phys (children.map Prod.fst)
        (totalSize (children.map Prod.fst)).toNat ps s.mem) ∧
    ∀ m before after, before ++ after = children →
      ∃ o, o ≤ (totalSize (children.map Prod.fst)).toNat ∧
        (before.foldl (Carving.child ⟨virt, phys⟩) (Carving.start m virt phys)).dumpVaddr =
          virt + o ∧
        (before.foldl (Carving.child ⟨virt, phys⟩) (Carving.start m virt phys)).physAddr =
          phys + UInt64.ofNat o := by
  have htotal := totalSize_toNat (carveOutSize_lt hnodes)
  have hend := carveEnd_le (children.map Prod.fst)
  rw [← htotal] at hend
  have hstart := le_carveEnd (dumpTableSize * 2) (children.map Prod.fst)
  refine ⟨?_, ?_⟩
  · obtain ⟨m, hinit, hinv⟩ := CarveInv.start mem virt phys (Nat.le_trans hstart hend)
    have htable := dumpTableSize_eq
    have hloop := hinv.children (phys_add_tableSize_ne_zero (by omega)) children
    rw [List.nil_append] at hloop
    refine ⟨_, by rw [memDumpAlloc, hinit],
      placements (dumpTableSize * 2) (children.map Prod.fst), Built.carvedOut ?_ hend hphys⟩
    dsimp only
    split
    · exact hloop.reset
    · exact hloop.built
  · rintro m before after rfl
    obtain ⟨hvaddr, hphysAddr⟩ := foldl_child_cursors (s := Carving.start m virt phys)
      ⟨virt, phys⟩ before rfl rfl
    refine ⟨_, Nat.le_trans ?_ hend, hvaddr, hphysAddr⟩
    rw [List.map_append]
    exact carveEnd_append_le _ _ _

/-- Four nodes: a buffer of a core that is too short, one without an id, one without a size, and
the buffer of the registers. -/
def sampleNodes : List (ChildNode × Kzalloc) :=
  [(⟨CStr.ofString "c0_spr", some 16, some 0x1F0⟩, ⟨true, true⟩),
    (⟨CStr.ofString "noid", some 100, none⟩, ⟨true, true⟩),
    (⟨CStr.ofString "nosize", none, some 7⟩, ⟨true, true⟩),
    (⟨CStr.ofString "cpuss_reg", some 4096, some 0xEF⟩, ⟨true, false⟩)]

theorem memDumpAlloc_laidOut_sample :
    (totalSize (sampleNodes.map Prod.fst)).toNat = 36864 ∧
      ∃ s, memDumpAlloc (fun _ => 0) 0x1000 0x80000000 sampleNodes =
          .ok (⟨0x1000, 0x80000000⟩, s) ∧
        ∃ ps, CarvedOut 0x1000 0x80000000 (sampleNodes.map Prod.fst)
          (totalSize (sampleNodes.map Prod.fst)).toNat ps s.mem :=
  ⟨by decide +kernel, (memDumpAlloc_laidOut (fun _ => 0) 0x1000 0x80000000 sampleNodes
    (by decide +kernel) (by decide +kernel)).1⟩

end SafelinuxDbg.MemoryDump
