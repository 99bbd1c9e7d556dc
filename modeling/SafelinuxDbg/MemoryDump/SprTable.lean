import Mathlib.Data.List.Induction
import SafelinuxDbg.MemoryDump.RegisterTable

/-!
# The tables of special-purpose registers

Every core may have a buffer with a list of special-purpose registers to be read at a crash.
`reset_sprs_dump_table` empties the lists, and `spr_config_store` appends a register to the list
of one core.  Each register takes one word of the list and two words of output behind it.

* `SprTable`: a list of registers that fits into a buffer, and the data the driver has for it.
* `sprTables_laidOut`: after any sequence of calls the buffer of every core holds the registers
  accepted since the last reset, with room for their output.
-/

namespace SafelinuxDbg.MemoryDump

open CMemory

/-! ## The driver -/

/-- `FORMAT_VERSION_1`. -/
def formatVersion1 : UInt32 := 1
/-- `SPR_DATA_HEADER_SIZE`. -/
abbrev sprDataHeaderSize : Nat := 5
/-- The bytes of an empty table, header and terminator. -/
def sprEmptySize : UInt32 := 24
/-- The bytes reserved for a register: one word of input and two of output. -/
def sprReserved : UInt32 := 12

/-- `struct sprs_dump_data`. -/
structure SprsDumpData where
  /-- the words at `dump_vaddr` -/
  dumpVaddr : Nat → UInt32
  size : UInt32
  sprsDataIndex : UInt32
  usedMemory : UInt32

/-- The pointers `sprdata`, for `MAX_CORE_NUM` cores. -/
abbrev SprTables := Fin 8 → Option SprsDumpData

/-- What a handler leaves behind, with the blocks stored for each core. -/
structure SprOutcome where
  sprdata : SprTables
  stores : List (Fin 8 × Nat × List UInt32)
  result : Except Errno Unit

/-- What `reset_sprs_dump_table` stores for a core. -/
def sprResetStores (d : SprsDumpData) : List (Nat × List UInt32) :=
  [(0, List.replicate (d.size.toNat / 4) fillWord),
    (0, [inputDataByHlos, formatVersion1, systemRegsInputIndex, sprEmptySize]),
    (percoreIndex, [0, 0])]

/-- `reset_sprs_dump_table` for a core. -/
def sprReset (d : SprsDumpData) : SprsDumpData :=
  { d with
    dumpVaddr := storeAll d.dumpVaddr (sprResetStores d)
    sprsDataIndex := 0
    usedMemory := sprEmptySize }

/-- `reset_sprs_dump_table`. -/
def resetSprsDumpTable (sprdata : SprTables) : SprOutcome where
  sprdata := fun i => (sprdata i).map sprReset
  stores := (List.finRange 8).flatMap fun i =>
    ((sprdata i).map sprResetStores).getD [] |>.map fun b => (i, b)
  result := .ok ()

/-- `sprs_register_reset_store` of the parsed value. -/
def sprsRegisterResetStore (val : UInt32) (sprdata : SprTables) : SprOutcome :=
  if val ≠ 1 then ⟨sprdata, [], .error .EINVAL⟩ else resetSprsDumpTable sprdata

/-- What `spr_config_store` stores. -/
def sprConfigStores (sprData : UInt32) (d : SprsDumpData) : List (Nat × List UInt32) :=
  [(outputDumpIndex, [(UInt32.ofNat sprDataHeaderSize + d.sprsDataIndex + 1 + 1) * 4]),
    (sprDataHeaderSize + d.sprsDataIndex.toNat, [sprData]),
    (sprDataHeaderSize + d.sprsDataIndex.toNat + 1, [0])]

/-- `spr_config_store` of `spr_data` and `cpu_num`; `none` where they could not be parsed.  There
is no error for a core without a buffer. -/
def sprConfigStore (input : Option (UInt32 × UInt32)) (sprdata : SprTables) : SprOutcome :=
  match input with
  | none => ⟨sprdata, [], .error .EINVAL⟩
  | some (sprData, cpuNum) =>
    if h : cpuNum.toNat < 8 then
      match sprdata ⟨cpuNum.toNat, h⟩ with
      | none => ⟨sprdata, [], .ok ()⟩
      | some d =>
        if d.usedMemory + sprReserved < d.size then
          { sprdata := Function.update sprdata ⟨cpuNum.toNat, h⟩ (some
              { d with
                dumpVaddr := storeAll d.dumpVaddr (sprConfigStores sprData d)
                sprsDataIndex := d.sprsDataIndex + 1
                usedMemory := d.usedMemory + sprReserved })
            stores := (sprConfigStores sprData d).map fun b => (⟨cpuNum.toNat, h⟩, b)
            result := .ok () }
        else ⟨sprdata, [], .error .ENOMEM⟩
    else ⟨sprdata, [], .error .EINVAL⟩

/-! ## Lists of registers -/

/-- The sizes of buffers that can be used. -/
def SprSized (size : UInt32) : Prop := 24 ≤ size.toNat ∧ size.toNat ≤ 2 ^ 32 - 16

/-- A list of registers that fits, with its output. -/
structure SprTable (size : UInt32) where
  values : List UInt32
  fits : 24 + 12 * values.length ≤ size.toNat

namespace SprTable

variable {size : UInt32} (t : SprTable size) (old : Nat → UInt32)

/-- The buffer up to the list. -/
def background (size : UInt32) (old : Nat → UInt32) : Nat → UInt32 :=
  storeAt
    (storeAt (storeAt old 0 (List.replicate (size.toNat / 4) fillWord)) 0
      [inputDataByHlos, formatVersion1, systemRegsInputIndex])
    percoreIndex [0]

/-- The buffer of a list, where `old` is what was there before. -/
def image : Nat → UInt32 :=
  storeAt
    (storeAt (background size old) outputDumpIndex [UInt32.ofNat (4 * (6 + t.values.length))])
    sprDataHeaderSize (t.values ++ [0])

/-- The data of a list. -/
def toData : SprsDumpData where
  dumpVaddr := t.image old
  size := size
  sprsDataIndex := UInt32.ofNat t.values.length
  usedMemory := UInt32.ofNat (24 + 12 * t.values.length)

def empty (h : SprSized size) : SprTable size := ⟨[], h.1⟩

theorem toNat_ofNat {n : Nat} (h : n ≤ 24 + 12 * t.values.length) : (UInt32.ofNat n).toNat = n := by
  have hfits := t.fits
  have hsize := size.toNat_lt
  exact UInt32.toNat_ofNat_of_lt (show n < 2 ^ 32 by omega)

/-! ## Resetting -/

/-- The header and the two zeros, with the offset and the terminator taken out. -/
theorem storeAt_header (m : Nat → UInt32) (a b c e : UInt32) :
    storeAt (storeAt m 0 [a, b, c, e]) 4 [0, 0] =
      storeAt (storeAt (storeAt (storeAt m 0 [a, b, c]) 4 [0]) 3 [e]) 5 [0] := by
  have hheader : storeAt m 0 [a, b, c, e] = storeAt (storeAt m 0 [a, b, c]) 3 [e] :=
    (storeAt_append m 0 [a, b, c] [e]).symm
  have hzeros : ∀ m : Nat → UInt32, storeAt m 4 [0, 0] = storeAt (storeAt m 4 [0]) 5 [0] :=
    fun m => (storeAt_append m 4 [0] [0]).symm
  have hcomm : storeAt (storeAt (storeAt m 0 [a, b, c]) 3 [e]) 4 [0] =
      storeAt (storeAt (storeAt m 0 [a, b, c]) 4 [0]) 3 [e] :=
    storeAt_comm _ (Or.inl (Nat.le_refl 4))
  rw [hheader, hzeros, hcomm]

theorem sprReset_eq (h : SprSized size) {d : SprsDumpData} (hd : d.size = size) :
    sprReset d = (empty h).toData d.dumpVaddr := by
  have himage : storeAll d.dumpVaddr (sprResetStores d) = (empty h).image d.dumpVaddr := by
    rw [sprResetStores, hd]
    exact storeAt_header _ _ _ _ _
  rw [sprReset, himage, hd]
  rfl

theorem sprResetStores_inside (h : SprSized size) {d : SprsDumpData} (hd : d.size = size) :
    ∀ b ∈ sprResetStores d, 4 * (b.1 + b.2.length) ≤ size.toNat := by
  obtain ⟨hmin, -⟩ := h
  intro b hb
  simp only [sprResetStores, List.mem_cons, List.not_mem_nil, or_false, hd] at hb
  obtain rfl | rfl | rfl := hb
  · simp only [List.length_replicate]
    omega
  · simp only [List.length_cons, List.length_nil]
    omega
  · show 4 * (4 + 2) ≤ size.toNat
    omega

/-! ## One more register -/

/-- One more register. -/
def push (sprData : UInt32) (h : 24 + 12 * t.values.length + 12 < size.toNat) : SprTable size where
  values := t.values ++ [sprData]
  fits := by
    rw [List.length_append, List.length_singleton]
    omega

/-- The check on the memory, in exact numbers. -/
theorem check_iff (h : SprSized size) :
    (t.toData old).usedMemory + sprReserved < (t.toData old).size ↔
      24 + 12 * t.values.length + 12 < size.toNat := by
  obtain ⟨-, hmax⟩ := h
  have hfits := t.fits
  have hused : (UInt32.ofNat (24 + 12 * t.values.length)).toNat = 24 + 12 * t.values.length :=
    t.toNat_ofNat (Nat.le_refl _)
  have hreserved : sprReserved.toNat = 12 := rfl
  show UInt32.ofNat (24 + 12 * t.values.length) + sprReserved < size ↔ _
  rw [UInt32.lt_iff_toNat_lt, UInt32.toNat_add, hused, hreserved]
  omega

theorem sprConfigStores_eq (sprData : UInt32) : sprConfigStores sprData (t.toData old) =
    [(outputDumpIndex, [UInt32.ofNat (4 * (6 + (t.values.length + 1)))]),
      (sprDataHeaderSize + t.values.length, [sprData]),
      (sprDataHeaderSize + t.values.length + 1, [0])] := by
  have hindex : (t.toData old).sprsDataIndex.toNat = t.values.length :=
    t.toNat_ofNat (by omega)
  have houtput : (UInt32.ofNat sprDataHeaderSize + (t.toData old).sprsDataIndex + 1 + 1) * 4 =
      UInt32.ofNat (4 * (6 + (t.values.length + 1))) := by
    have hwords : UInt32.ofNat 5 + UInt32.ofNat t.values.length + 1 + 1 =
        UInt32.ofNat (5 + t.values.length + 1 + 1) := by
      rw [UInt32.ofNat_add (5 + t.values.length + 1) 1, UInt32.ofNat_add (5 + t.values.length) 1,
        UInt32.ofNat_add 5]
      rfl
    have hsum : 4 * (6 + (t.values.length + 1)) = (5 + t.values.length + 1 + 1) * 4 := by omega
    show (UInt32.ofNat 5 + UInt32.ofNat t.values.length + 1 + 1) * 4 = _
    rw [hwords, hsum, UInt32.ofNat_mul]
    rfl
  rw [sprConfigStores, hindex, houtput]

theorem image_push (sprData : UInt32) (h : 24 + 12 * t.values.length + 12 < size.toNat) :
    storeAll (t.image old) (sprConfigStores sprData (t.toData old)) =
      (t.push sprData h).image old := by
  have hapart : outputDumpIndex + [UInt32.ofNat (4 * (6 + (t.values.length + 1)))].length ≤
      sprDataHeaderSize := Nat.le_succ 4
  rw [sprConfigStores_eq]
  show storeAt (storeAt (storeAt (t.image old) outputDumpIndex
    [UInt32.ofNat (4 * (6 + (t.values.length + 1)))]) (sprDataHeaderSize + t.values.length)
      [sprData]) (sprDataHeaderSize + t.values.length + 1) [0] = _
  -- the offset goes below the list, the register over the terminator
  rw [image, storeAt_comm _ (Or.inr hapart), storeAt_cover _ _ (by exact Nat.le_refl 1),
    ← storeAt_append, storeAt_cover _ _ (by exact Nat.le_refl 1), storeAt_append]
  have hlen : sprDataHeaderSize + t.values.length + 1 =
      sprDataHeaderSize + (t.values ++ [sprData]).length := by
    rw [List.length_append, List.length_singleton, Nat.add_assoc]
  have hvalues : (t.push sprData h).values = t.values ++ [sprData] := rfl
  rw [hlen, storeAt_append, image, hvalues, List.length_append, List.length_singleton]

/-- What `spr_config_store` makes of the data. -/
theorem toData_push (sprData : UInt32) (h : 24 + 12 * t.values.length + 12 < size.toNat) :
    { t.toData old with
      dumpVaddr := storeAll (t.toData old).dumpVaddr (sprConfigStores sprData (t.toData old))
      sprsDataIndex := (t.toData old).sprsDataIndex + 1
      usedMemory := (t.toData old).usedMemory + sprReserved } = (t.push sprData h).toData old := by
  have himage := t.image_push old sprData h
  have hvalues : (t.push sprData h).values = t.values ++ [sprData] := rfl
  have hmul : 24 + 12 * (t.values.length + 1) = 24 + 12 * t.values.length + 12 := by omega
  show (⟨storeAll (t.image old) _, size, _, _⟩ : SprsDumpData) = _
  rw [himage, toData, toData, hvalues, List.length_append, List.length_singleton, hmul,
    UInt32.ofNat_add _ 1, UInt32.ofNat_add _ 12]
  rfl

theorem sprConfigStores_inside (sprData : UInt32)
    (h : 24 + 12 * t.values.length + 12 < size.toNat) :
    ∀ b ∈ sprConfigStores sprData (t.toData old), 4 * (b.1 + b.2.length) ≤ size.toNat := by
  intro b hb
  have hheader : sprDataHeaderSize = 5 := rfl
  have houtput : outputDumpIndex = 3 := rfl
  simp only [sprConfigStores_eq, List.mem_cons, List.not_mem_nil, or_false] at hb
  obtain rfl | rfl | rfl := hb <;> simp only [List.length_singleton] <;> omega

end SprTable

/-! ## Sequences of calls -/

/-- A line or a value written to one of the two files. -/
inductive SprCall
  | sprConfig (input : Option (UInt32 × UInt32))
  | sprsRegisterReset (val : UInt32)

/-- The tables, the registers accepted for each core since the last reset, and everything that was
stored. -/
structure SprSession where
  sprdata : SprTables
  values : Fin 8 → List UInt32
  stores : List (Fin 8 × Nat × List UInt32)

def SprSession.call (s : SprSession) : SprCall → SprSession
  | .sprConfig input =>
    let out := sprConfigStore input s.sprdata
    { sprdata := out.sprdata
      values :=
        match out.result, input with
        | .ok (), some (sprData, cpuNum) =>
          fun i => if i.val = cpuNum.toNat then s.values i ++ [sprData] else s.values i
        | _, _ => s.values
      stores := s.stores ++ out.stores }
  | .sprsRegisterReset val =>
    let out := sprsRegisterResetStore val s.sprdata
    { sprdata := out.sprdata
      values :=
        match out.result with
        | .ok () => fun _ => []
        | .error _ => s.values
      stores := s.stores ++ out.stores }

/-- The tables are reset, and then come the calls. -/
def sprSession (start : SprTables) (calls : List SprCall) : SprSession :=
  let out := resetSprsDumpTable start
  calls.foldl SprSession.call ⟨out.sprdata, fun _ => [], out.stores⟩

/-- The table of a core, with the registers `values`. -/
structure SprLaidOut (size : UInt32) (values : List UInt32) (d : SprsDumpData) : Prop where
  words : slice d.dumpVaddr 5 values.length = values
  terminator : d.dumpVaddr (5 + values.length) = 0
  outputOffset : (d.dumpVaddr 3).toNat = 4 * (6 + values.length)
  dataIndex : d.sprsDataIndex.toNat = values.length
  usedMemory : d.usedMemory.toNat = 24 + 12 * values.length
  /-- the output starts behind the list and takes two words for each register -/
  output : d.usedMemory.toNat = (d.dumpVaddr 3).toNat + 8 * values.length
  fits : d.usedMemory.toNat ≤ size.toNat

theorem SprTable.laidOut {size : UInt32} (t : SprTable size) (old : Nat → UInt32) :
    SprLaidOut size t.values (t.toData old) := by
  have hused : (t.toData old).usedMemory.toNat = 24 + 12 * t.values.length :=
    t.toNat_ofNat (Nat.le_refl _)
  have houtput : ((t.toData old).dumpVaddr 3).toNat = 4 * (6 + t.values.length) := by
    have hword : t.image old 3 = UInt32.ofNat (4 * (6 + t.values.length)) := by
      rw [image, storeAt_of_lt _ _ (by decide)]
      exact storeAt_add (k := 0) _ (by exact Nat.zero_lt_one)
    show (t.image old 3).toNat = _
    rw [hword]
    exact t.toNat_ofNat (by omega)
  constructor
  case words =>
    show slice (t.image old) 5 _ = _
    rw [image, ← storeAt_append, slice_storeAt_disjoint _ (Or.inl (Nat.le_refl _)), slice_storeAt]
  case terminator =>
    show t.image old (5 + t.values.length) = 0
    rw [image, ← storeAt_append]
    exact storeAt_add (k := 0) _ (by exact Nat.zero_lt_one)
  case outputOffset => exact houtput
  case dataIndex => exact t.toNat_ofNat (by omega)
  case usedMemory => exact hused
  case output =>
    rw [hused, houtput]
    omega
  case fits =>
    rw [hused]
    exact t.fits

/-- Every core has its table, and nothing was stored anywhere else. -/
structure SprInv (start : SprTables) (s : SprSession) : Prop where
  absent : ∀ i, start i = none → s.sprdata i = none
  present : ∀ i d, start i = some d → ∃ (t : SprTable d.size) (old : Nat → UInt32),
    s.sprdata i = some (t.toData old) ∧ t.values = s.values i
  inside : ∀ b ∈ s.stores, ∃ d, start b.1 = some d ∧ 4 * (b.2.1 + b.2.2.length) ≤ d.size.toNat

section Inv

variable {start : SprTables} {s : SprSession}

/-- The sizes of all buffers. -/
def SprTables.Sized (start : SprTables) : Prop := ∀ i d, start i = some d → SprSized d.size

/-- What is stored by a reset. -/
theorem resetSprsDumpTable_stores {sprdata : SprTables} {b : Fin 8 × Nat × List UInt32}
    (hb : b ∈ (resetSprsDumpTable sprdata).stores) :
    ∃ d, sprdata b.1 = some d ∧ b.2 ∈ sprResetStores d := by
  obtain ⟨i, -, hb⟩ := List.mem_flatMap.mp hb
  obtain ⟨block, hblock, rfl⟩ := List.mem_map.mp hb
  show ∃ d, sprdata i = some d ∧ block ∈ sprResetStores d
  cases hd : sprdata i with
  | none =>
    rw [hd] at hblock
    cases hblock
  | some d =>
    rw [hd] at hblock
    exact ⟨d, rfl, hblock⟩

/-- A reset, where the buffers are those of `start`. -/
theorem SprInv.reset (hstart : start.Sized) {sprdata : SprTables}
    (hsame : ∀ i, (sprdata i).map SprsDumpData.size = (start i).map SprsDumpData.size)
    {stores : List (Fin 8 × Nat × List UInt32)}
    (hinside : ∀ b ∈ stores, ∃ d, start b.1 = some d ∧ 4 * (b.2.1 + b.2.2.length) ≤ d.size.toNat) :
    SprInv start ⟨(resetSprsDumpTable sprdata).sprdata, fun _ => [],
      stores ++ (resetSprsDumpTable sprdata).stores⟩ := by
  constructor
  case absent =>
    intro i hi
    have hnone := hsame i
    rw [hi, Option.map_none, Option.map_eq_none_iff] at hnone
    show (sprdata i).map sprReset = none
    rw [hnone, Option.map_none]
  case present =>
    intro i d hi
    have hsome := hsame i
    rw [hi, Option.map_some, Option.map_eq_some_iff] at hsome
    obtain ⟨d', hd', hsize⟩ := hsome
    refine ⟨SprTable.empty (hstart i d hi), d'.dumpVaddr, ?_, rfl⟩
    show (sprdata i).map sprReset = _
    rw [hd', Option.map_some, SprTable.sprReset_eq (hstart i d hi) hsize]
  case inside =>
    intro b hb
    rcases List.mem_append.mp hb with hb | hb
    · exact hinside b hb
    · obtain ⟨d', hd', hblock⟩ := resetSprsDumpTable_stores hb
      have hsome := hsame b.1
      rw [hd', Option.map_some, eq_comm, Option.map_eq_some_iff] at hsome
      obtain ⟨d, hd, hsize⟩ := hsome
      exact ⟨d, hd, SprTable.sprResetStores_inside (hstart b.1 d hd) hsize.symm b.2 hblock⟩

/-- The buffers stay where they are. -/
theorem SprInv.sizes (h : SprInv start s) (i : Fin 8) :
    (s.sprdata i).map SprsDumpData.size = (start i).map SprsDumpData.size := by
  cases hi : start i with
  | none => rw [h.absent i hi]
  | some d =>
    obtain ⟨t, old, hdata, -⟩ := h.present i d hi
    rw [hdata]
    rfl

/-- A register for another core. -/
theorem sprConfigStore_other (sprData cpuNum : UInt32) (sprdata : SprTables) {i : Fin 8}
    (hi : i.val ≠ cpuNum.toNat) :
    (sprConfigStore (some (sprData, cpuNum)) sprdata).sprdata i = sprdata i := by
  simp only [sprConfigStore]
  split
  case isTrue hcpu =>
    split
    · rfl
    · split
      · exact Function.update_of_ne (fun heq => hi (congrArg Fin.val heq)) _ _
      · rfl
  case isFalse => rfl

/-- A call that changes nothing. -/
theorem SprInv.same (h : SprInv start s) {values : Fin 8 → List UInt32}
    (hvalues : ∀ i, s.sprdata i ≠ none → values i = s.values i) :
    SprInv start ⟨s.sprdata, values, s.stores ++ []⟩ := by
  refine ⟨h.absent, ?_, ?_⟩
  · intro i d hi
    obtain ⟨t, old, hdata, hold⟩ := h.present i d hi
    refine ⟨t, old, hdata, ?_⟩
    show t.values = values i
    rw [hvalues i (by rw [hdata]; exact Option.some_ne_none _), hold]
  · rw [List.append_nil]
    exact h.inside

/-- A register that is accepted. -/
theorem SprInv.push (h : SprInv start s) {i : Fin 8} {d : SprsDumpData} (hi : start i = some d)
    {t : SprTable d.size} {old : Nat → UInt32} (hdata : s.sprdata i = some (t.toData old))
    (hvalues : t.values = s.values i) (sprData : UInt32)
    (hroom : 24 + 12 * t.values.length + 12 < d.size.toNat) :
    SprInv start
      ⟨Function.update s.sprdata i (some ((t.push sprData hroom).toData old)),
        fun j => if j = i then s.values j ++ [sprData] else s.values j,
        s.stores ++ (sprConfigStores sprData (t.toData old)).map (fun b => (i, b))⟩ := by
  constructor
  case absent =>
    intro j hj
    have hne : j ≠ i := by
      rintro rfl
      rw [hj] at hi
      cases hi
    show Function.update s.sprdata i _ j = none
    rw [Function.update_of_ne hne, h.absent j hj]
  case present =>
    intro j d' hj
    by_cases hji : j = i
    · subst hji
      rw [hi] at hj
      cases hj
      refine ⟨t.push sprData hroom, old, Function.update_self _ _ _, ?_⟩
      simp only [if_true]
      rw [← hvalues]
      rfl
    · obtain ⟨t', old', hdata', hvalues'⟩ := h.present j d' hj
      refine ⟨t', old', ?_, ?_⟩
      · show Function.update s.sprdata i _ j = _
        rw [Function.update_of_ne hji, hdata']
      · simp only [if_neg hji]
        exact hvalues'
  case inside =>
    intro b hb
    rcases List.mem_append.mp hb with hb | hb
    · exact h.inside b hb
    · obtain ⟨block, hblock, rfl⟩ := List.mem_map.mp hb
      exact ⟨d, hi, t.sprConfigStores_inside old sprData hroom block hblock⟩

/-- A call of `spr_config_store`. -/
theorem SprInv.sprConfig (hstart : start.Sized) (h : SprInv start s)
    (input : Option (UInt32 × UInt32)) : SprInv start (s.call (.sprConfig input)) := by
  rcases input with _ | ⟨sprData, cpuNum⟩
  · exact h.same (fun _ _ => rfl)
  unfold SprSession.call sprConfigStore
  dsimp only
  by_cases hcpu : cpuNum.toNat < 8
  case neg =>
    rw [dif_neg hcpu]
    exact h.same (fun _ _ => rfl)
  case pos =>
    have hcore : ∀ j : Fin 8, j.val = cpuNum.toNat ↔ j = ⟨cpuNum.toNat, hcpu⟩ :=
      fun j => ⟨fun heq => Fin.ext heq, fun heq => congrArg Fin.val heq⟩
    rw [dif_pos hcpu]
    cases hi : start ⟨cpuNum.toNat, hcpu⟩ with
    | none =>
      have hnone := h.absent _ hi
      rw [hnone]
      refine h.same (fun j hj => if_neg (fun heq => hj ?_))
      rw [(hcore j).mp heq, hnone]
    | some d =>
      obtain ⟨t, old, hdata, hvalues⟩ := h.present _ d hi
      rw [hdata]
      simp only [t.check_iff old (hstart _ d hi)]
      by_cases hroom : 24 + 12 * t.values.length + 12 < d.size.toNat
      · rw [if_pos hroom, t.toData_push old sprData hroom]
        simp only [hcore]
        exact h.push hi hdata hvalues sprData hroom
      · rw [if_neg hroom]
        exact h.same (fun _ _ => rfl)

/-- **The invariant is kept by every call.** -/
theorem SprInv.call (hstart : start.Sized) (h : SprInv start s) (call : SprCall) :
    SprInv start (s.call call) := by
  cases call with
  | sprConfig input => exact h.sprConfig hstart input
  | sprsRegisterReset val =>
    rw [SprSession.call, sprsRegisterResetStore]
    split
    case isTrue => 
      refine ⟨h.absent, h.present, ?_⟩
      show ∀ b ∈ s.stores ++ [], _
      rw [List.append_nil]
      exact h.inside
    case isFalse => exact .reset hstart h.sizes h.inside

theorem SprInv.session (hstart : start.Sized) (calls : List SprCall) :
    SprInv start (sprSession start calls) := by
  induction calls using List.reverseRecOn with
  | nil => exact @SprInv.reset start hstart start (fun _ => rfl) [] (List.forall_mem_nil _)
  | append_singleton calls call ih =>
    have hlast : sprSession start (calls ++ [call]) = (sprSession start calls).call call := by
      rw [sprSession, List.foldl_append, List.foldl_cons, List.foldl_nil, sprSession]
    rw [hlast]
    exact ih.call hstart call

end Inv

/-- **The tables of all cores** after any sequence of calls: each one holds the registers accepted
for its core since the last reset, all stores were inside of the buffer of their core, and a
register for one core does not change another one. -/
theorem sprTables_laidOut (start : SprTables) (hstart : start.Sized) (calls : List SprCall) :
    (∀ b ∈ (sprSession start calls).stores,
        ∃ d, start b.1 = some d ∧ 4 * (b.2.1 + b.2.2.length) ≤ d.size.toNat) ∧
      ∀ i d, start i = some d → ∃ d', (sprSession start calls).sprdata i = some d' ∧
        SprLaidOut d.size ((sprSession start calls).values i) d' ∧
        ∀ sprData cpuNum : UInt32, i.val ≠ cpuNum.toNat →
          (sprConfigStore (some (sprData, cpuNum)) (sprSession start calls).sprdata).sprdata i =
            some d' := by
  have hinv := SprInv.session hstart calls
  refine ⟨hinv.inside, ?_⟩
  intro i d hi
  obtain ⟨t, old, hdata, hvalues⟩ := hinv.present i d hi
  refine ⟨t.toData old, hdata, ?_, ?_⟩
  · rw [← hvalues]
    exact t.laidOut old
  · intro sprData cpuNum hne
    rw [sprConfigStore_other _ _ _ hne, hdata]

/-- Only the first core has a buffer, of 64 bytes. -/
def sampleTables : SprTables := fun i => if i = 0 then some ⟨fun _ => 0, 64, 0, 0⟩ else none

/-- Four registers, the last of which does not fit, and one for a core without a buffer. -/
def sampleCalls : List SprCall :=
  [.sprConfig (some (7, 0)), .sprConfig (some (8, 3)), .sprConfig (some (9, 0)),
    .sprConfig (some (5, 0)), .sprConfig (some (6, 0))]

theorem sprTables_laidOut_sample :
    (sprSession sampleTables sampleCalls).values 0 = [7, 9, 5] ∧
      ∃ d, (sprSession sampleTables sampleCalls).sprdata 0 = some d ∧
        SprLaidOut 64 ((sprSession sampleTables sampleCalls).values 0) d := by
  have hsized : sampleTables.Sized := by
    intro i d hi
    rw [sampleTables] at hi
    split at hi
    · cases hi
      exact ⟨by decide, by decide⟩
    · cases hi
  refine ⟨by decide +kernel, ?_⟩
  obtain ⟨d, hd, hlaid, -⟩ := (sprTables_laidOut sampleTables hsized sampleCalls).2 0 _ rfl
  exact ⟨d, hd, hlaid⟩

end SafelinuxDbg.MemoryDump
