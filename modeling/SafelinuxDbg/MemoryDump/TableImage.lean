import SafelinuxDbg.MemoryDump.Entries

/-!
# What the register table holds

The table as a parser sees it: the list of per-core entries and the list of system entries
(`RegTable`), which fit into their places and whose output fits behind them.  `RegTable.toData`
is the data the driver has for such a table, down to the last word.

* `updateRegDumpTable_eq`: setting up makes an empty table.
* `registerConfigStore_accept`, `registerConfigStore_refuse`: a line written to `register_config`
  appends an entry to one of the two lists (`RegTable.store`), or changes nothing.
-/

namespace SafelinuxDbg.MemoryDump

open CMemory

/-! ## Tables -/

/-- The sizes a table is set up for. -/
structure Shape where
  size : UInt32
  coreRegNum : UInt32
  numCores : UInt32
  room : 4 * (6 + 2 * coreRegNum.toNat) < size.toNat
  cores : 0 < numCores.toNat

/-- The words of some entries. -/
def wordsOf (es : List RegEntry) : List UInt32 := es.flatMap RegEntry.words

/-- The bytes of output some entries need. -/
def reserveOf (es : List RegEntry) : Nat := (es.map RegEntry.reserve).sum

theorem wordsOf_cons (e : RegEntry) (es : List RegEntry) :
    wordsOf (e :: es) = e.words ++ wordsOf es := List.flatMap_cons

theorem wordsOf_append (es : List RegEntry) (e : RegEntry) :
    wordsOf (es ++ [e]) = wordsOf es ++ e.words := by
  rw [wordsOf, wordsOf, List.flatMap_append, List.flatMap_singleton]

theorem reserveOf_append (es : List RegEntry) (e : RegEntry) :
    reserveOf (es ++ [e]) = reserveOf es + e.reserve := by
  rw [reserveOf, reserveOf, List.map_append, List.sum_append, List.map_singleton,
    List.sum_singleton]

theorem wordsOf_length_le (es : List RegEntry) : (wordsOf es).length ≤ 2 * es.length := by
  induction es with
  | nil => exact Nat.le_refl 0
  | cons e es ih =>
    have hwords := e.words_length
    rw [wordsOf_cons, List.length_append, List.length_cons]
    omega

namespace Shape

variable (sh : Shape)

/-- The first word of the system registers. -/
def systemIndex : Nat := 5 + 2 * sh.coreRegNum.toNat

/-- Where the output starts, behind the registers `system`. -/
def outputOffset (system : List RegEntry) : Nat :=
  4 * (6 + 2 * sh.coreRegNum.toNat) + 4 * (wordsOf system).length

/-- The bytes a table needs, with its output. -/
def needs (percore system : List RegEntry) : Nat :=
  sh.outputOffset system + (sh.numCores.toNat * reserveOf percore + reserveOf system)

end Shape

/-- **A table of registers** that fits. -/
structure RegTable (sh : Shape) where
  percore : List RegEntry
  system : List RegEntry
  few : percore.length ≤ sh.coreRegNum.toNat
  fits : sh.needs percore system ≤ sh.size.toNat

namespace RegTable

variable {sh : Shape} (t : RegTable sh) (old : Nat → UInt32)

/-- The buffer as it is set up, up to the words of the registers. -/
def background (sh : Shape) (old : Nat → UInt32) : Nat → UInt32 :=
  storeAt
    (storeAt (storeAt old 0 (List.replicate (sh.size.toNat / 4) fillWord)) 0
      [inputDataByHlos, formatVersion2, UInt32.ofNat sh.systemIndex])
    4 (List.replicate (2 * sh.coreRegNum.toNat + 1) 0)

/-- The buffer of a table, where `old` is what was there before. -/
def image : Nat → UInt32 :=
  storeAt
    (storeAt
      (storeAt (background sh old) outputDumpIndex [UInt32.ofNat (sh.outputOffset t.system)])
      percoreIndex (wordsOf t.percore))
    sh.systemIndex (wordsOf t.system ++ [0])

/-- The data of a table. -/
def toData : CpussRegdumpData where
  dumpVaddr := t.image old
  size := sh.size
  coreRegNum := sh.coreRegNum
  coreRegUsedNum := UInt32.ofNat t.percore.length
  coreRegEndIndex := UInt32.ofNat (percoreIndex + (wordsOf t.percore).length)
  sysRegSize := UInt32.ofNat (4 * (wordsOf t.system).length)
  usedMemory := UInt32.ofNat (sh.needs t.percore t.system)

@[simp] theorem toData_dumpVaddr : (t.toData old).dumpVaddr = t.image old := rfl

@[simp] theorem toData_size : (t.toData old).size = sh.size := rfl

@[simp] theorem toData_coreRegNum : (t.toData old).coreRegNum = sh.coreRegNum := rfl

@[simp] theorem toData_coreRegUsedNum :
    (t.toData old).coreRegUsedNum = UInt32.ofNat t.percore.length := rfl

@[simp] theorem toData_coreRegEndIndex : (t.toData old).coreRegEndIndex =
    UInt32.ofNat (percoreIndex + (wordsOf t.percore).length) := rfl

@[simp] theorem toData_sysRegSize :
    (t.toData old).sysRegSize = UInt32.ofNat (4 * (wordsOf t.system).length) := rfl

/-- The table without registers. -/
def empty (sh : Shape) : RegTable sh where
  percore := []
  system := []
  few := Nat.zero_le _
  fits := by
    have hroom := sh.room
    simp only [Shape.needs, Shape.outputOffset, wordsOf, reserveOf, List.flatMap_nil,
      List.map_nil, List.sum_nil, List.length_nil]
    omega

/-- One more per-core register, if there is room. -/
def addPercore (e : RegEntry) : Option (RegTable sh) :=
  if h : (t.percore ++ [e]).length ≤ sh.coreRegNum.toNat ∧
      sh.needs (t.percore ++ [e]) t.system ≤ sh.size.toNat then
    some ⟨t.percore ++ [e], t.system, h.1, h.2⟩
  else none

/-- One more system register, if there is room. -/
def addSystem (e : RegEntry) : Option (RegTable sh) :=
  if h : sh.needs t.percore (t.system ++ [e]) ≤ sh.size.toNat then
    some ⟨t.percore, t.system ++ [e], t.few, h⟩
  else none

/-- What a line does to the table, or `none` where it is refused. -/
def store (c : RegisterConfig) : Option (RegTable sh) :=
  match c.entry with
  | none => none
  | some e => if c.perCore ≠ 0 then t.addPercore e else t.addSystem e

/-! ## Bounds -/

section Bounds

theorem outputOffset_le : sh.outputOffset t.system ≤ sh.size.toNat :=
  Nat.le_trans (Nat.le_add_right _ _) t.fits

theorem systemEnd_le : 4 * (sh.systemIndex + (wordsOf t.system).length + 1) ≤ sh.size.toNat := by
  have hle := t.outputOffset_le
  rw [Shape.outputOffset] at hle
  rw [Shape.systemIndex]
  omega

theorem percoreEnd_le : percoreIndex + (wordsOf t.percore).length < sh.systemIndex := by
  have hwords := wordsOf_length_le t.percore
  have hfew := t.few
  rw [Shape.systemIndex]
  show 4 + (wordsOf t.percore).length < 5 + 2 * sh.coreRegNum.toNat
  omega

theorem percoreIndex_toNat : (UInt32.ofNat (percoreIndex + (wordsOf t.percore).length)).toNat =
    percoreIndex + (wordsOf t.percore).length := by
  have hpercore := t.percoreEnd_le
  have hsystem := t.systemEnd_le
  have hsize := sh.size.toNat_lt
  exact UInt32.toNat_ofNat_of_lt (show _ < 2 ^ 32 by omega)

theorem systemIndex_toNat : (UInt32.ofNat (sh.systemIndex + (wordsOf t.system).length)).toNat =
    sh.systemIndex + (wordsOf t.system).length := by
  have hsystem := t.systemEnd_le
  have hsize := sh.size.toNat_lt
  exact UInt32.toNat_ofNat_of_lt (show _ < 2 ^ 32 by omega)

theorem percoreLength_toNat : (UInt32.ofNat t.percore.length).toNat = t.percore.length :=
  UInt32.toNat_ofNat_of_lt (Nat.lt_of_le_of_lt t.few sh.coreRegNum.toNat_lt)

end Bounds

end RegTable

section Sizes

variable {sh : Shape}

theorem Shape.systemIndex_toNat :
    (systemRegsInputIndex + sh.coreRegNum * 2).toNat = sh.systemIndex := by
  have hroom := sh.room
  have hsize := sh.size.toNat_lt
  rw [UInt32.toNat_add, UInt32.toNat_mul, Shape.systemIndex]
  have htwo : (2 : UInt32).toNat = 2 := rfl
  have hfive : systemRegsInputIndex.toNat = 5 := rfl
  rw [htwo, hfive]
  omega

theorem Shape.systemIndex_eq :
    systemRegsInputIndex + sh.coreRegNum * 2 = UInt32.ofNat sh.systemIndex := by
  rw [← sh.systemIndex_toNat, UInt32.ofNat_toNat]

theorem Shape.toNat_ofNat (sh : Shape) {n : Nat} (h : n ≤ sh.size.toNat) : (UInt32.ofNat n).toNat = n :=
  UInt32.toNat_ofNat_of_lt (Nat.lt_of_le_of_lt h sh.size.toNat_lt)

end Sizes

/-! ## Setting up -/

section Setup

variable {sh : Shape}

/-- The word at which the output starts, as it is computed from the word behind the registers. -/
theorem outputWord_eq (k : Nat) :
    (UInt32.ofNat k + 1) * 4 = UInt32.ofNat (4 * (k + 1)) := by
  rw [Nat.mul_comm, UInt32.ofNat_mul, UInt32.ofNat_add]
  rfl

theorem RegTable.empty_image (old : Nat → UInt32) :
    storeAll old
        [(0, List.replicate (sh.size.toNat / 4) fillWord),
          (0, [inputDataByHlos, formatVersion2, UInt32.ofNat sh.systemIndex,
            UInt32.ofNat (4 * (sh.systemIndex + 1))]),
          (percoreIndex, List.replicate (sh.systemIndex - percoreIndex + 1) 0)] =
      (RegTable.empty sh).image old := by
  have hoffset : sh.outputOffset [] = 4 * (sh.systemIndex + 1) := by
    rw [Shape.outputOffset, Shape.systemIndex, wordsOf, List.flatMap_nil, List.length_nil]
    omega
  have hzeros : sh.systemIndex - percoreIndex + 1 = 2 * sh.coreRegNum.toNat + 1 + 1 := by
    rw [Shape.systemIndex]
    show 5 + 2 * sh.coreRegNum.toNat - 4 + 1 = _
    omega
  have hend : sh.systemIndex = 4 + (List.replicate (2 * sh.coreRegNum.toNat + 1)
      (0 : UInt32)).length := by
    rw [List.length_replicate, Shape.systemIndex]
    omega
  have hheader := storeAt_append (storeAt old 0 (List.replicate (sh.size.toNat / 4) fillWord)) 0
    [inputDataByHlos, formatVersion2, UInt32.ofNat sh.systemIndex]
    [UInt32.ofNat (4 * (sh.systemIndex + 1))]
  show storeAt (storeAt (storeAt old 0 _) 0 _) 4 _ = storeAt (storeAt (storeAt _ 3 _) 4 []) _ [0]
  have hapart : 3 + [UInt32.ofNat (4 * (sh.systemIndex + 1))].length ≤ 4 := Nat.le_refl _
  rw [show (RegTable.empty sh).system = [] from rfl, hoffset, hzeros, List.replicate_succ',
    ← storeAt_append, ← hend, storeAt_nil, RegTable.background, ← storeAt_comm _ (Or.inl hapart)]
  exact congrArg (fun m => storeAt (storeAt m 4 _) sh.systemIndex [0]) hheader.symm

/-- **Setting up** makes an empty table, and stores inside of the buffer. -/
theorem updateRegDumpTable_eq (sh : Shape) (d : CpussRegdumpData) (hsize : d.size = sh.size) :
    (updateRegDumpTable sh.coreRegNum d).data = (RegTable.empty sh).toData d.dumpVaddr ∧
      (updateRegDumpTable sh.coreRegNum d).result = .ok () ∧
      ∀ s ∈ (updateRegDumpTable sh.coreRegNum d).stores,
        4 * (s.1 + s.2.length) ≤ sh.size.toNat := by
  have hroom := sh.room
  have hfits : 4 * (sh.systemIndex + 1) < sh.size.toNat := by
    rw [Shape.systemIndex]
    omega
  have hbig : 5 ≤ sh.systemIndex := Nat.le_add_right _ _
  have hindex : (UInt32.ofNat sh.systemIndex).toNat = sh.systemIndex :=
    sh.toNat_ofNat (by omega)
  have hbytes : (UInt32.ofNat (4 * (sh.systemIndex + 1))).toNat = 4 * (sh.systemIndex + 1) :=
    sh.toNat_ofNat (Nat.le_of_lt hfits)
  have hpercore : percoreIndex = 4 := rfl
  have hlt := sh.size.toNat_lt
  have hcheck : ¬ (sh.size ≤ UInt32.ofNat (4 * (sh.systemIndex + 1)) ∨
      UInt32.ofNat (4 * (sh.systemIndex + 1)) / 4 < UInt32.ofNat sh.systemIndex + 1) := by
    have hone : (1 : UInt32).toNat = 1 := rfl
    have hfour : (4 : UInt32).toNat = 4 := rfl
    rw [UInt32.le_iff_toNat_le, UInt32.lt_iff_toNat_lt, UInt32.toNat_div, UInt32.toNat_add, hbytes,
      hindex, hone, hfour]
    omega
  have hzeros : (UInt32.ofNat sh.systemIndex - UInt32.ofNat percoreIndex + 1).toNat =
      sh.systemIndex - percoreIndex + 1 := by
    have hone : (1 : UInt32).toNat = 1 := rfl
    have hfour : (UInt32.ofNat percoreIndex).toNat = percoreIndex := rfl
    rw [UInt32.toNat_add, UInt32.toNat_sub, hindex, hone, hfour]
    omega
  have hoffset : sh.needs [] [] = 4 * (sh.systemIndex + 1) := by
    simp only [Shape.needs, Shape.outputOffset, Shape.systemIndex, wordsOf, reserveOf,
      List.flatMap_nil, List.map_nil, List.sum_nil, List.length_nil]
    omega
  have heq : updateRegDumpTable sh.coreRegNum d = .accept
      { d with
        coreRegNum := sh.coreRegNum
        coreRegUsedNum := 0
        coreRegEndIndex := UInt32.ofNat percoreIndex
        sysRegSize := 0
        usedMemory := UInt32.ofNat (4 * (sh.systemIndex + 1)) }
      [(0, List.replicate (sh.size.toNat / 4) fillWord),
        (0, [inputDataByHlos, formatVersion2, UInt32.ofNat sh.systemIndex,
          UInt32.ofNat (4 * (sh.systemIndex + 1))]),
        (percoreIndex, List.replicate (sh.systemIndex - percoreIndex + 1) 0)] := by
    simp only [updateRegDumpTable, sh.systemIndex_eq, outputWord_eq, hzeros, hsize]
    rw [if_neg hcheck]
  rw [heq]
  refine ⟨?_, rfl, ?_⟩
  · simp only [Outcome.accept, RegTable.empty_image, hsize]
    rw [RegTable.toData, show (RegTable.empty sh).percore = [] from rfl,
      show (RegTable.empty sh).system = [] from rfl, hoffset]
    rfl
  · intro s hs
    simp only [Outcome.accept, List.mem_cons, List.not_mem_nil, or_false] at hs
    obtain rfl | rfl | rfl := hs
    · simp only [List.length_replicate]
      omega
    · simp only [List.length_cons, List.length_nil]
      omega
    · simp only [List.length_replicate]
      omega

/-- There is no table without room for it. -/
theorem updateRegDumpTable_refuse {n : UInt32} {d : CpussRegdumpData}
    (hwrap : 6 + 2 * n.toNat < 2 ^ 32) (hroom : d.size.toNat ≤ 4 * (6 + 2 * n.toNat)) :
    updateRegDumpTable n d = .refuse .ENOMEM d := by
  have hindex : systemRegsInputIndex + n * 2 = UInt32.ofNat (5 + 2 * n.toNat) := by
    rw [UInt32.ofNat_add, UInt32.ofNat_mul, UInt32.ofNat_toNat, UInt32.mul_comm]
    rfl
  have hsystem : (UInt32.ofNat (5 + 2 * n.toNat)).toNat = 5 + 2 * n.toNat :=
    UInt32.toNat_ofNat_of_lt (show _ < 2 ^ 32 by omega)
  have hbytes : (UInt32.ofNat (4 * (5 + 2 * n.toNat + 1))).toNat =
      4 * (5 + 2 * n.toNat + 1) % 2 ^ 32 := UInt32.toNat_ofNat'
  have hone : (1 : UInt32).toNat = 1 := rfl
  have hfour : (4 : UInt32).toNat = 4 := rfl
  simp only [updateRegDumpTable, hindex, outputWord_eq]
  rw [if_pos]
  rw [UInt32.le_iff_toNat_le, UInt32.lt_iff_toNat_lt, UInt32.toNat_div, UInt32.toNat_add, hbytes,
    hsystem, hone, hfour]
  omega

end Setup

/-! ## The budget -/

section Budget

variable {d : CpussRegdumpData} {numCores : UInt32} {r : Nat}

/-- The product that `register_config_store` checks by dividing again. -/
theorem product_check (hcores : 0 < numCores.toNat) (hr : r < 2 ^ 32) :
    UInt32.ofNat r * numCores / numCores < UInt32.ofNat r ↔ 2 ^ 32 ≤ numCores.toNat * r := by
  have hnat : (UInt32.ofNat r).toNat = r := UInt32.toNat_ofNat_of_lt hr
  rw [UInt32.lt_iff_toNat_lt, UInt32.toNat_div, UInt32.toNat_mul, hnat, Nat.mul_comm r]
  rcases Nat.lt_or_ge (numCores.toNat * r) (2 ^ 32) with hlt | hge
  · rw [Nat.mod_eq_of_lt hlt, Nat.mul_div_cancel_left r hcores]
    omega
  · refine ⟨fun _ => hge, fun _ => ?_⟩
    rw [Nat.div_lt_iff_lt_mul hcores, Nat.mul_comm r]
    exact Nat.lt_of_lt_of_le (Nat.mod_lt _ (by decide)) hge

theorem percoreMemory_eq (hcores : 0 < numCores.toNat) (hr : r < 2 ^ 32) :
    percoreMemory numCores (UInt32.ofNat r) d =
      if d.usedMemory.toNat + numCores.toNat * r ≤ d.size.toNat then
        some (UInt32.ofNat (d.usedMemory.toNat + numCores.toNat * r))
      else none := by
  have hused := d.usedMemory.toNat_lt
  have hsize := d.size.toNat_lt
  have hsum : d.usedMemory + UInt32.ofNat r * numCores =
      UInt32.ofNat (d.usedMemory.toNat + numCores.toNat * r) := by
    rw [UInt32.ofNat_add, UInt32.ofNat_mul, UInt32.ofNat_toNat, UInt32.ofNat_toNat,
      UInt32.mul_comm numCores]
  have hnat : (UInt32.ofNat (d.usedMemory.toNat + numCores.toNat * r)).toNat =
      (d.usedMemory.toNat + numCores.toNat * r) % 2 ^ 32 := UInt32.toNat_ofNat'
  simp only [percoreMemory, product_check hcores hr, hsum, UInt32.lt_iff_toNat_lt, hnat]
  by_cases hfits : d.usedMemory.toNat + numCores.toNat * r ≤ d.size.toNat
  · rw [if_pos hfits, if_neg (by omega)]
  · rw [if_neg hfits, if_pos]
    rcases Nat.lt_or_ge (numCores.toNat * r) (2 ^ 32) with hlt | hge
    · omega
    · exact Or.inl hge

/-- The same for a system register of `k` words. -/
theorem systemMemory_eq {cmd : Char} {k : Nat}
    (hk : k = if cmd = 'r' ∧ UInt32.ofNat r = 4 then 1 else 2) (hr : r < 2 ^ 32) :
    systemMemory cmd (UInt32.ofNat r) d =
      if d.usedMemory.toNat + (4 * k + r) ≤ d.size.toNat then
        some (UInt32.ofNat (d.usedMemory.toNat + (4 * k + r)))
      else none := by
  have hused := d.usedMemory.toNat_lt
  have hsize := d.size.toNat_lt
  have hsmall : k ≤ 2 := by
    rw [hk]
    split <;> decide
  have hextra : (if cmd = 'r' ∧ UInt32.ofNat r = 4 then 4 + UInt32.ofNat r
      else 8 + UInt32.ofNat r) = UInt32.ofNat (4 * k + r) := by
    rw [hk]
    split <;> rw [UInt32.ofNat_add] <;> rfl
  have hsum : d.usedMemory + UInt32.ofNat (4 * k + r) =
      UInt32.ofNat (d.usedMemory.toNat + (4 * k + r)) := by
    rw [UInt32.ofNat_add d.usedMemory.toNat, UInt32.ofNat_toNat]
  have hnat : ∀ n, (UInt32.ofNat n).toNat = n % 2 ^ 32 := fun n => UInt32.toNat_ofNat'
  simp only [systemMemory, hextra, hsum, UInt32.lt_iff_toNat_lt, hnat]
  by_cases hfits : d.usedMemory.toNat + (4 * k + r) ≤ d.size.toNat
  · rw [if_pos hfits, if_neg (by omega)]
  · rw [if_neg hfits, if_pos (by omega)]

end Budget

/-! ## Adding an entry -/

section Store

variable {sh : Shape} {t t' : RegTable sh} {c : RegisterConfig} {e : RegEntry}
  {old : Nat → UInt32}

theorem RegisterConfig.words_length_eq (h : c.entry = some e) :
    e.words.length = if c.cmd = 'r' ∧ UInt32.ofNat e.reserve = 4 then 1 else 2 := by
  rw [(c.entry_eq_some h).1, RegEntry.words, RegEntry.reserve]
  cases hk : e.cmd with
  | read =>
    simp only [RegCmd.char, true_and, UInt32.ofNat_toNat]
    rcases e.read_le hk with hlt | heq
    · have hne : e.val ≠ 4 := by
        intro heq
        rw [heq] at hlt
        exact absurd hlt (by decide)
      rw [if_pos hlt, if_neg hne]
      rfl
    · rw [heq]
      rfl
  | repeatRead => rfl
  | delay => rfl
  | write => rfl

theorem Shape.needs_percore (sh : Shape) (percore system : List RegEntry) (e : RegEntry) :
    sh.needs (percore ++ [e]) system = sh.needs percore system + sh.numCores.toNat * e.reserve := by
  simp only [Shape.needs, reserveOf_append, Nat.mul_add]
  omega

theorem Shape.needs_system (sh : Shape) (percore system : List RegEntry) (e : RegEntry) :
    sh.needs percore (system ++ [e]) =
      sh.needs percore system + (4 * e.words.length + e.reserve) := by
  simp only [Shape.needs, Shape.outputOffset, reserveOf_append, wordsOf_append, List.length_append]
  omega

namespace RegTable

theorem toData_usedMemory (t : RegTable sh) (old : Nat → UInt32) :
    (t.toData old).usedMemory.toNat = sh.needs t.percore t.system := sh.toNat_ofNat t.fits

theorem addPercore_eq_some (h : t.addPercore e = some t') :
    t'.percore = t.percore ++ [e] ∧ t'.system = t.system := by
  rw [addPercore] at h
  split at h
  · cases h
    exact ⟨rfl, rfl⟩
  · cases h

theorem addSystem_eq_some (h : t.addSystem e = some t') :
    t'.percore = t.percore ∧ t'.system = t.system ++ [e] := by
  rw [addSystem] at h
  split at h
  · cases h
    exact ⟨rfl, rfl⟩
  · cases h

/-- The first three words of the header. -/
theorem image_header (t : RegTable sh) (old : Nat → UInt32) {x : Nat} (hx : x < 3) :
    t.image old x =
      [inputDataByHlos, formatVersion2, UInt32.ofNat sh.systemIndex][x] := by
  have hsystem : x < sh.systemIndex := by
    rw [Shape.systemIndex]
    omega
  have hpercore : x < percoreIndex := Nat.lt_succ_of_lt hx
  have hlen : x - 0 < [inputDataByHlos, formatVersion2, UInt32.ofNat sh.systemIndex].length := hx
  rw [image, storeAt_of_lt _ _ hsystem, storeAt_of_lt _ _ hpercore, storeAt_of_lt _ _ hx,
    background, storeAt_of_lt _ _ hpercore]
  exact storeAt_inside _ (Nat.zero_le x) hlen

/-- The word at which the system registers go on. -/
theorem toData_systemRegEndIndex (t : RegTable sh) (old : Nat → UInt32) :
    (t.toData old).systemRegEndIndex =
      UInt32.ofNat (sh.systemIndex + (wordsOf t.system).length) := by
  have hend := t.systemEnd_le
  have hsize : (UInt32.ofNat (4 * (wordsOf t.system).length)).toNat =
      4 * (wordsOf t.system).length := sh.toNat_ofNat (by omega)
  have hdiv : UInt32.ofNat (4 * (wordsOf t.system).length) / 4 =
      UInt32.ofNat (wordsOf t.system).length := by
    apply UInt32.toNat_inj.mp
    rw [UInt32.toNat_div, hsize, sh.toNat_ofNat (by omega)]
    exact Nat.mul_div_cancel_left _ (by decide)
  rw [CpussRegdumpData.systemRegEndIndex, UInt32.ofNat_add]
  show t.image old 2 + UInt32.ofNat (4 * (wordsOf t.system).length) / 4 = _
  rw [t.image_header old (by decide), hdiv]
  rfl

/-- The blocks stored for one more per-core register. -/
def percoreStores (t : RegTable sh) (e : RegEntry) : List (Nat × List UInt32) :=
  [(percoreIndex + (wordsOf t.percore).length, e.words)]

/-- The blocks stored for one more system register. -/
def systemStores (t : RegTable sh) (e : RegEntry) : List (Nat × List UInt32) :=
  [(sh.systemIndex + (wordsOf t.system).length, e.words),
    (sh.systemIndex + (wordsOf (t.system ++ [e])).length, [0]),
    (outputDumpIndex, [UInt32.ofNat (sh.outputOffset (t.system ++ [e]))])]

theorem storeAll_percoreStores (old : Nat → UInt32) (h : t.addPercore e = some t') :
    storeAll (t.image old) (t.percoreStores e) = t'.image old := by
  obtain ⟨hpercore, hsystem⟩ := addPercore_eq_some h
  have hend := t'.percoreEnd_le
  rw [hpercore, wordsOf_append, List.length_append] at hend
  show storeAt (t.image old) (percoreIndex + (wordsOf t.percore).length) e.words = _
  rw [image, image, hpercore, hsystem, wordsOf_append,
    storeAt_comm _ (Or.inr (by omega)), storeAt_append]

theorem storeAll_systemStores (old : Nat → UInt32) (h : t.addSystem e = some t') :
    storeAll (t.image old) (t.systemStores e) = t'.image old := by
  obtain ⟨hpercore, hsystem⟩ := addSystem_eq_some h
  have hwords := e.words_length
  have hend := t.percoreEnd_le
  show storeAt (storeAt (storeAt (t.image old) _ e.words) _ [0]) 3
    [UInt32.ofNat (sh.outputOffset (t.system ++ [e]))] = _
  have hapart : 3 + [UInt32.ofNat (sh.outputOffset (t.system ++ [e]))].length ≤ percoreIndex :=
    Nat.le_refl 4
  -- the old terminator is covered by the entry, and the new one comes behind it
  rw [image, ← storeAt_append, storeAt_cover _ _ (by rw [List.length_singleton]; omega),
    storeAt_append, ← wordsOf_append, storeAt_append]
  -- the output offset is stored below everything else
  have hindex : 4 < sh.systemIndex := by
    rw [Shape.systemIndex]
    omega
  rw [storeAt_comm _ (Or.inr (Nat.le_of_lt hindex)),
    storeAt_comm (a := percoreIndex) _ (Or.inr hapart),
    storeAt_cover _ _ (by exact Nat.le_refl 1), image, hpercore, hsystem]

end RegTable

theorem storePercore_accept (t : RegTable sh) (hentry : c.entry = some e)
    (h : t.addPercore e = some t') :
    storePercore sh.numCores (UInt32.ofNat e.reserve) c (t.toData old) =
      ⟨t'.toData old, t.percoreStores e, .ok ()⟩ := by
  obtain ⟨hpercore, hsystem⟩ := RegTable.addPercore_eq_some h
  obtain ⟨-, hconfig, hcount⟩ := c.of_entry hentry
  have hfew := t'.few
  have hfits := t'.fits
  rw [hpercore, List.length_append, List.length_singleton] at hfew
  rw [hpercore, hsystem, Shape.needs_percore] at hfits
  have hnum : (t.toData old).coreRegUsedNum ≠ (t.toData old).coreRegNum := by
    intro heq
    have hlen := t.percoreLength_toNat
    rw [RegTable.toData_coreRegUsedNum, RegTable.toData_coreRegNum] at heq
    rw [heq] at hlen
    omega
  have hstores := RegTable.storeAll_percoreStores old h
  rw [storePercore, if_neg hnum, percoreMemory_eq sh.cores e.reserve_lt, t.toData_usedMemory,
    RegTable.toData_size, if_pos hfits]
  have hdata : t'.toData old =
      { t.toData old with
        dumpVaddr := storeAll (t.image old) (t.percoreStores e)
        coreRegEndIndex := (t.toData old).coreRegEndIndex + UInt32.ofNat e.words.length
        coreRegUsedNum := (t.toData old).coreRegUsedNum + 1
        usedMemory := UInt32.ofNat
          (sh.needs t.percore t.system + sh.numCores.toNat * e.reserve) } := by
    rw [hstores, RegTable.toData, hpercore, hsystem, Shape.needs_percore, wordsOf_append,
      List.length_append, List.length_append, List.length_singleton, ← Nat.add_assoc,
      UInt32.ofNat_add _ e.words.length, UInt32.ofNat_add _ 1]
    rfl
  rw [hdata]
  simp only [hconfig, hcount, Outcome.accept, RegTable.toData_coreRegEndIndex, t.percoreIndex_toNat,
    RegTable.toData_dumpVaddr, RegTable.percoreStores, RegTable.toData_size]

theorem storePercore_refuse (t : RegTable sh) (h : t.addPercore e = none) :
    ∃ err, storePercore sh.numCores (UInt32.ofNat e.reserve) c (t.toData old) =
      .refuse err (t.toData old) := by
  rw [storePercore]
  by_cases hnum : (t.toData old).coreRegUsedNum = (t.toData old).coreRegNum
  · rw [if_pos hnum]
    exact ⟨_, rfl⟩
  rw [if_neg hnum, percoreMemory_eq sh.cores e.reserve_lt, t.toData_usedMemory,
    RegTable.toData_size, if_neg]
  · exact ⟨_, rfl⟩
  intro hfits
  have hfew := t.few
  have hlen : t.percore.length ≠ sh.coreRegNum.toNat := by
    intro heq
    apply hnum
    rw [RegTable.toData_coreRegUsedNum, RegTable.toData_coreRegNum, heq, UInt32.ofNat_toNat]
  rw [RegTable.addPercore, dif_pos] at h
  · cases h
  · rw [Shape.needs_percore, List.length_append, List.length_singleton]
    exact ⟨by omega, hfits⟩

theorem storeSystem_accept (t : RegTable sh) (hentry : c.entry = some e)
    (h : t.addSystem e = some t') :
    storeSystem (UInt32.ofNat e.reserve) c (t.toData old) =
      ⟨t'.toData old, t.systemStores e, .ok ()⟩ := by
  obtain ⟨hpercore, hsystem⟩ := RegTable.addSystem_eq_some h
  obtain ⟨-, hconfig, hcount⟩ := c.of_entry hentry
  have hfits := t'.fits
  rw [hpercore, hsystem, Shape.needs_system] at hfits
  have hwords := c.words_length_eq hentry
  have hstores := RegTable.storeAll_systemStores old h
  have hend : UInt32.ofNat (sh.systemIndex + (wordsOf t.system).length) +
      UInt32.ofNat e.words.length = UInt32.ofNat (sh.systemIndex + (wordsOf t'.system).length) := by
    rw [hsystem, wordsOf_append, List.length_append, ← Nat.add_assoc,
      UInt32.ofNat_add _ e.words.length]
  have hbytes : 4 * UInt32.ofNat e.words.length = UInt32.ofNat (4 * e.words.length) := by
    rw [UInt32.ofNat_mul]
    rfl
  have hdata : t'.toData old =
      { t.toData old with
        dumpVaddr := storeAll (t.image old) (t.systemStores e)
        sysRegSize := (t.toData old).sysRegSize + 4 * UInt32.ofNat e.words.length
        usedMemory := UInt32.ofNat
          (sh.needs t.percore t.system + (4 * e.words.length + e.reserve)) } := by
    rw [hstores, RegTable.toData, hpercore, hsystem, Shape.needs_system, wordsOf_append,
      List.length_append, Nat.mul_add, hbytes, UInt32.ofNat_add _ (4 * e.words.length)]
    rfl
  have hoffset : sh.outputOffset (t.system ++ [e]) =
      4 * (sh.systemIndex + (wordsOf t'.system).length + 1) := by
    rw [hsystem, Shape.outputOffset, Shape.systemIndex]
    omega
  have hindex := t'.systemIndex_toNat
  rw [hsystem] at hend hoffset hindex
  rw [hdata, storeSystem, systemMemory_eq hwords e.reserve_lt, t.toData_usedMemory,
    RegTable.toData_size, if_pos hfits]
  simp only [hconfig, hcount, Outcome.accept, t.toData_systemRegEndIndex, hend,
    t.systemIndex_toNat, hindex, outputWord_eq, RegTable.toData_dumpVaddr, RegTable.systemStores,
    RegTable.toData_size, hoffset]

theorem storeSystem_refuse (t : RegTable sh) (hentry : c.entry = some e)
    (h : t.addSystem e = none) :
    ∃ err, storeSystem (UInt32.ofNat e.reserve) c (t.toData old) =
      .refuse err (t.toData old) := by
  have hwords := c.words_length_eq hentry
  rw [storeSystem, systemMemory_eq hwords e.reserve_lt, t.toData_usedMemory,
    RegTable.toData_size, if_neg]
  · exact ⟨_, rfl⟩
  intro hfits
  rw [RegTable.addSystem, dif_pos] at h
  · cases h
  · rw [Shape.needs_system]
    exact hfits

/-- A line whose command or value `config_cpuss_register` does not take changes nothing. -/
theorem refused_of_config {numCores reserveSize : UInt32} {d : CpussRegdumpData}
    (h : ∀ index, ∃ err, configCpussRegister index c.cmd c.registerOffset c.val = .error err) :
    (∃ err, storePercore numCores reserveSize c d = .refuse err d) ∧
      ∃ err, storeSystem reserveSize c d = .refuse err d := by
  constructor
  · obtain ⟨err, herr⟩ := h d.coreRegEndIndex
    rw [storePercore, herr]
    split
    · exact ⟨_, rfl⟩
    split <;> exact ⟨_, rfl⟩
  · obtain ⟨err, herr⟩ := h d.systemRegEndIndex
    rw [storeSystem, herr]
    split <;> exact ⟨_, rfl⟩

/-- A line without an entry changes nothing. -/
theorem registerConfigStore_of_no_entry (numCores : UInt32) (d : CpussRegdumpData)
    {input : Scanned} (h : ∀ c, input.config = some c → c.entry = none) :
    ∃ err, registerConfigStore numCores input d = .refuse err d := by
  rw [registerConfigStore]
  split
  case h_1 => exact ⟨_, rfl⟩
  case h_2 c hinput =>
    split
    case h_1 => exact ⟨_, rfl⟩
    case h_2 reserveSize hreserve =>
      rcases c.of_no_entry (h c hinput) with ⟨err, herr⟩ | hconfig
      · rw [hreserve] at herr
        cases herr
      · obtain ⟨hpercore, hsystem⟩ := refused_of_config hconfig
        split
        · exact hpercore
        · exact hsystem

/-- A line with an entry gets to the locked part. -/
theorem registerConfigStore_of_entry (numCores : UInt32) (d : CpussRegdumpData) {input : Scanned}
    (hinput : input.config = some c) (hentry : c.entry = some e) :
    registerConfigStore numCores input d =
      if c.perCore ≠ 0 then storePercore numCores (UInt32.ofNat e.reserve) c d
      else storeSystem (UInt32.ofNat e.reserve) c d := by
  rw [registerConfigStore, hinput]
  simp only [(c.of_entry hentry).1]

/-- What a line stores in a table. -/
def RegTable.stores (t : RegTable sh) (c : RegisterConfig) : List (Nat × List UInt32) :=
  match c.entry with
  | none => []
  | some e => if c.perCore ≠ 0 then t.percoreStores e else t.systemStores e

/-- **A line that the table takes** appends its entry. -/
theorem registerConfigStore_accept (old : Nat → UInt32) {input : Scanned}
    (hinput : input.config = some c) (h : t.store c = some t') :
    registerConfigStore sh.numCores input (t.toData old) =
      ⟨t'.toData old, t.stores c, .ok ()⟩ := by
  rw [RegTable.store] at h
  rw [RegTable.stores]
  split at h
  case h_1 => cases h
  case h_2 e hentry =>
    rw [registerConfigStore_of_entry _ _ hinput hentry]
    split at h
    case isTrue hcore =>
      rw [if_pos hcore, if_pos hcore]
      exact storePercore_accept t hentry h
    case isFalse hcore =>
      rw [if_neg hcore, if_neg hcore]
      exact storeSystem_accept t hentry h

/-- **Any other line** changes nothing. -/
theorem registerConfigStore_refuse (old : Nat → UInt32) {input : Scanned}
    (h : ∀ c, input.config = some c → t.store c = none) :
    ∃ err, registerConfigStore sh.numCores input (t.toData old) = .refuse err (t.toData old) := by
  by_cases hnone : ∀ c, input.config = some c → c.entry = none
  · exact registerConfigStore_of_no_entry _ _ hnone
  simp only [not_forall] at hnone
  obtain ⟨c, hinput, hsome⟩ := hnone
  obtain ⟨e, hentry⟩ := Option.ne_none_iff_exists'.mp hsome
  have hrefused := h c hinput
  rw [RegTable.store, hentry] at hrefused
  simp only at hrefused
  rw [registerConfigStore_of_entry _ _ hinput hentry]
  split at hrefused
  case isTrue hcore =>
    rw [if_pos hcore]
    exact storePercore_refuse t hrefused
  case isFalse hcore =>
    rw [if_neg hcore]
    exact storeSystem_refuse t hentry hrefused

end Store

end SafelinuxDbg.MemoryDump
