import Mathlib.Data.List.Induction
import SafelinuxDbg.MemoryDump.TableImage

/-!
# Sequences of register lines

What becomes of the table when any sequence of lines is written to `register_config` after
`update_reg_dump_table` has set it up (`Session`).

* `session_table`: the data is that of a `RegTable` with the entries of the accepted lines, at
  every moment.
* `registerTable_laidOut`: where the entries are, what the header says, and that the table and
  its output fit into the buffer.
-/

namespace SafelinuxDbg.MemoryDump

open CMemory

/-- What has happened since the table was set up. -/
structure Session where
  data : CpussRegdumpData
  /-- the accepted lines for per-core registers, the first one first -/
  percore : List RegisterConfig
  /-- the accepted lines for system registers -/
  system : List RegisterConfig
  /-- all blocks that were stored -/
  stores : List (Nat × List UInt32)

/-- One more line. -/
def Session.call (numCores : UInt32) (s : Session) (input : Scanned) : Session :=
  let out := registerConfigStore numCores input s.data
  match out.result, input.config with
  | .ok (), some c =>
    { data := out.data
      percore := if c.perCore ≠ 0 then s.percore ++ [c] else s.percore
      system := if c.perCore ≠ 0 then s.system else s.system ++ [c]
      stores := s.stores ++ out.stores }
  | _, _ => { s with data := out.data, stores := s.stores ++ out.stores }

/-- The lines `inputs`, written one after the other. -/
def session (numCores : UInt32) (start : CpussRegdumpData) (inputs : List Scanned) : Session :=
  inputs.foldl (Session.call numCores) ⟨start, [], [], []⟩

theorem session_append (numCores : UInt32) (start : CpussRegdumpData) (inputs : List Scanned)
    (input : Scanned) :
    session numCores start (inputs ++ [input]) =
      (session numCores start inputs).call numCores input := by
  rw [session, List.foldl_append, List.foldl_cons, List.foldl_nil, session]

section

variable {sh : Shape}

namespace RegTable

variable {t t' : RegTable sh} {c : RegisterConfig}

/-- A line that is taken appends its entry to one of the lists. -/
theorem store_eq_some (h : t.store c = some t') : ∃ e, c.entry = some e ∧
    ((c.perCore ≠ 0 ∧ t.addPercore e = some t') ∨ (c.perCore = 0 ∧ t.addSystem e = some t')) := by
  rw [store] at h
  split at h
  case h_1 => cases h
  case h_2 e hentry =>
    refine ⟨e, hentry, ?_⟩
    split at h
    case isTrue hcore => exact Or.inl ⟨hcore, h⟩
    case isFalse hcore => exact Or.inr ⟨not_not.mp hcore, h⟩

/-- What is stored for it is inside of the buffer, and the entry itself is behind the header. -/
theorem stores_inside (h : t.store c = some t') :
    ∀ b ∈ t.stores c, 4 * (b.1 + b.2.length) ≤ sh.size.toNat := by
  have hroom := sh.room
  have hsystem := t'.systemEnd_le
  have hpercore := t'.percoreEnd_le
  obtain ⟨e, hentry, ⟨hcore, hadd⟩ | ⟨hcore, hadd⟩⟩ := store_eq_some h
  · rw [(addPercore_eq_some hadd).1, wordsOf_append, List.length_append] at hpercore
    simp only [stores, hentry, if_pos hcore, percoreStores, List.mem_singleton]
    rintro b rfl
    simp only
    omega
  · rw [(addSystem_eq_some hadd).2] at hsystem
    have hwords : (wordsOf (t.system ++ [e])).length =
        (wordsOf t.system).length + e.words.length := by
      rw [wordsOf_append, List.length_append]
    simp only [stores, hentry, if_neg (not_not.mpr hcore), systemStores, List.mem_cons,
      List.not_mem_nil, or_false]
    rintro b (rfl | rfl | rfl)
    · simp only
      omega
    · simp only [List.length_singleton]
      omega
    · show 4 * (3 + 1) ≤ sh.size.toNat
      omega

end RegTable

/-- The session has led to the table `t`. -/
structure Session.At (s : Session) (t : RegTable sh) (old : Nat → UInt32) : Prop where
  data : s.data = t.toData old
  percore : s.percore.map RegisterConfig.entry = t.percore.map some
  system : s.system.map RegisterConfig.entry = t.system.map some
  inside : ∀ b ∈ s.stores, 4 * (b.1 + b.2.length) ≤ sh.size.toNat

/-- One line leads from a table to a table. -/
theorem Session.At.call {s : Session} {t : RegTable sh} {old : Nat → UInt32} (hat : s.At t old)
    (input : Scanned) : ∃ t' : RegTable sh, (s.call sh.numCores input).At t' old := by
  rw [Session.call, hat.data]
  by_cases hnone : ∀ c, input.config = some c → t.store c = none
  · obtain ⟨err, heq⟩ := registerConfigStore_refuse old hnone
    rw [heq]
    refine ⟨t, rfl, hat.percore, hat.system, ?_⟩
    show ∀ b ∈ s.stores ++ [], _
    rw [List.append_nil]
    exact hat.inside
  · simp only [not_forall] at hnone
    obtain ⟨c, hinput, hstore⟩ := hnone
    obtain ⟨t', ht'⟩ := Option.ne_none_iff_exists'.mp hstore
    rw [registerConfigStore_accept old hinput ht', hinput]
    have hinside : ∀ b ∈ s.stores ++ t.stores c, 4 * (b.1 + b.2.length) ≤ sh.size.toNat := by
      intro b hb
      rcases List.mem_append.mp hb with hold | hnew
      · exact hat.inside b hold
      · exact RegTable.stores_inside ht' b hnew
    obtain ⟨e, hentry, ⟨hcore, hadd⟩ | ⟨hcore, hadd⟩⟩ := RegTable.store_eq_some ht'
    · obtain ⟨hpercore, hsystem⟩ := RegTable.addPercore_eq_some hadd
      refine ⟨t', rfl, ?_, ?_, hinside⟩
      · simp only [if_pos hcore, hpercore, List.map_append, hat.percore, List.map_singleton, hentry]
      · simp only [if_pos hcore, hsystem, hat.system]
    · obtain ⟨hpercore, hsystem⟩ := RegTable.addSystem_eq_some hadd
      have hcore' : ¬ c.perCore ≠ 0 := not_not.mpr hcore
      refine ⟨t', rfl, ?_, ?_, hinside⟩
      · simp only [if_neg hcore', hpercore, hat.percore]
      · simp only [if_neg hcore', hsystem, List.map_append, hat.system, List.map_singleton, hentry]

/-- **The data is always that of a table.** -/
theorem session_table (sh : Shape) (old : Nat → UInt32) (inputs : List Scanned) :
    ∃ t : RegTable sh,
      (session sh.numCores ((RegTable.empty sh).toData old) inputs).At t old := by
  induction inputs using List.reverseRecOn with
  | nil =>
    refine ⟨RegTable.empty sh, rfl, rfl, rfl, ?_⟩
    intro b hb
    cases hb
  | append_singleton inputs input ih =>
    obtain ⟨t, hat⟩ := ih
    rw [session_append]
    exact hat.call input

end

/-! ## Where everything is -/

section

variable {sh : Shape} (t : RegTable sh) (old : Nat → UInt32)

namespace RegTable

theorem image_output : t.image old outputDumpIndex = UInt32.ofNat (sh.outputOffset t.system) := by
  have hindex : outputDumpIndex < sh.systemIndex := by
    rw [Shape.systemIndex]
    show 3 < _
    omega
  have hpercore : outputDumpIndex < percoreIndex := Nat.lt_succ_self 3
  rw [image, storeAt_of_lt _ _ hindex, storeAt_of_lt _ _ hpercore,
    storeAt_inside _ (Nat.le_refl _) (by simp)]
  simp only [Nat.sub_self, List.getElem_cons_zero]

theorem image_percore : slice (t.image old) percoreIndex (wordsOf t.percore).length =
    wordsOf t.percore := by
  have hend := t.percoreEnd_le
  rw [image, slice_storeAt_disjoint _ (Or.inl (Nat.le_of_lt hend)), slice_storeAt]

/-- Behind the per-core registers there are zeros, up to the system registers. -/
theorem image_gap {x : Nat} (h1 : percoreIndex + (wordsOf t.percore).length ≤ x)
    (h2 : x < sh.systemIndex) : t.image old x = 0 := by
  have hindex : percoreIndex = 4 := rfl
  have hlast : x < 5 + 2 * sh.coreRegNum.toNat := h2
  have hzeros : x - 4 < (List.replicate (2 * sh.coreRegNum.toNat + 1) (0 : UInt32)).length := by
    rw [List.length_replicate]
    omega
  have houtput : outputDumpIndex + [UInt32.ofNat (sh.outputOffset t.system)].length ≤ x := by
    show 3 + 1 ≤ x
    omega
  rw [image, storeAt_of_lt _ _ h2, storeAt_of_le _ h1, storeAt_of_le _ houtput, background,
    storeAt_inside _ (by omega) hzeros, List.getElem_replicate]

theorem image_system : slice (t.image old) sh.systemIndex (wordsOf t.system).length =
    wordsOf t.system := by
  rw [image, ← storeAt_append, slice_storeAt_disjoint _ (Or.inl (Nat.le_refl _)), slice_storeAt]

theorem image_terminator :
    t.image old (sh.systemIndex + (wordsOf t.system).length) = 0 := by
  rw [image, ← storeAt_append]
  exact storeAt_add (k := 0) _ (by simp)

end RegTable

end

/-- The table laid out as the firmware expects it: `start` is the data it was set up with, for `n`
per-core registers and `numCores` cores. -/
structure LaidOut (n numCores : UInt32) (start : CpussRegdumpData) (percore system : List RegEntry)
    (s : Session) : Prop where
  /-- the first header words never change -/
  header : ∀ i < 3, s.data.dumpVaddr i = start.dumpVaddr i
  percoreWords : slice s.data.dumpVaddr 4 (wordsOf percore).length = wordsOf percore
  percoreRoom : (wordsOf percore).length ≤ 2 * n.toNat
  percoreEnd : s.data.dumpVaddr (4 + 2 * n.toNat) = 0
  systemWords : slice s.data.dumpVaddr (5 + 2 * n.toNat) (wordsOf system).length = wordsOf system
  systemEnd : s.data.dumpVaddr (5 + 2 * n.toNat + (wordsOf system).length) = 0
  systemSize : s.data.sysRegSize.toNat = 4 * (wordsOf system).length
  outputOffset : (s.data.dumpVaddr 3).toNat = 4 * (6 + 2 * n.toNat) + s.data.sysRegSize.toNat
  /-- the memory used is what is before the output and the output, in exact numbers -/
  usedMemory : s.data.usedMemory.toNat =
    (s.data.dumpVaddr 3).toNat + (numCores.toNat * reserveOf percore + reserveOf system)
  fits : s.data.usedMemory.toNat ≤ start.size.toNat
  inside : ∀ b ∈ s.stores, 4 * (b.1 + b.2.length) ≤ start.size.toNat

theorem RegTable.laidOut {sh : Shape} {t : RegTable sh} {old : Nat → UInt32} {s : Session}
    (hat : s.At t old) :
    LaidOut sh.coreRegNum sh.numCores ((RegTable.empty sh).toData old) t.percore t.system s := by
  have hend := t.systemEnd_le
  have hpercore := t.percoreEnd_le
  rw [Shape.systemIndex] at hend hpercore
  have hindex : percoreIndex = 4 := rfl
  have hsize : (UInt32.ofNat (4 * (wordsOf t.system).length)).toNat =
      4 * (wordsOf t.system).length := sh.toNat_ofNat (by omega)
  have houtput : (t.image old 3).toNat = sh.outputOffset t.system := by
    rw [t.image_output]
    exact sh.toNat_ofNat t.outputOffset_le
  constructor
  case header =>
    intro i hi
    rw [hat.data, toData_dumpVaddr, toData_dumpVaddr, image_header _ _ hi, image_header _ _ hi]
  case percoreWords =>
    rw [hat.data]
    exact t.image_percore old
  case percoreRoom => omega
  case percoreEnd =>
    rw [hat.data]
    exact t.image_gap old (by omega) (by rw [Shape.systemIndex]; omega)
  case systemWords =>
    rw [hat.data]
    exact t.image_system old
  case systemEnd =>
    rw [hat.data]
    exact t.image_terminator old
  case systemSize =>
    rw [hat.data]
    exact hsize
  case outputOffset =>
    rw [hat.data, toData_dumpVaddr, toData_sysRegSize, houtput, hsize]
    rfl
  case usedMemory =>
    rw [hat.data, toData_usedMemory, toData_dumpVaddr, houtput]
    rfl
  case fits =>
    rw [hat.data, toData_usedMemory]
    exact t.fits
  case inside => exact hat.inside

/-- **The table is laid out as it should be** after any sequence of lines.  The entries are those
of the accepted lines, in order. -/
theorem registerTable_laidOut (d : CpussRegdumpData) (n numCores : UInt32)
    (hroom : 4 * (6 + 2 * n.toNat) < d.size.toNat) (hcores : 0 < numCores.toNat)
    (inputs : List Scanned) :
    ∃ percore system : List RegEntry,
      (session numCores (updateRegDumpTable n d).data inputs).percore.map RegisterConfig.entry =
          percore.map some ∧
        (session numCores (updateRegDumpTable n d).data inputs).system.map RegisterConfig.entry =
          system.map some ∧
        LaidOut n numCores (updateRegDumpTable n d).data percore system
          (session numCores (updateRegDumpTable n d).data inputs) := by
  obtain ⟨hdata, -⟩ := updateRegDumpTable_eq ⟨d.size, n, numCores, hroom, hcores⟩ d rfl
  simp only at hdata
  rw [hdata]
  obtain ⟨t, hat⟩ := session_table ⟨d.size, n, numCores, hroom, hcores⟩ d.dumpVaddr inputs
  exact ⟨t.percore, t.system, hat.percore, hat.system, RegTable.laidOut hat⟩

/-- A per-core read, a read of one word, a delay and a line that is refused. -/
def sampleLines : List Scanned :=
  [.four 0x100 8 'r' 1, .two 0x200 4, .three 0 5 'd', .three 0x201 4 'r']

theorem registerTable_laidOut_sample :
    ∃ percore system : List RegEntry,
      (session 8 (updateRegDumpTable 2 (cpussRegdumpInit 256)).data sampleLines).percore.map
          RegisterConfig.entry = percore.map some ∧
        (session 8 (updateRegDumpTable 2 (cpussRegdumpInit 256)).data sampleLines).system.map
          RegisterConfig.entry = system.map some ∧
        LaidOut 2 8 (updateRegDumpTable 2 (cpussRegdumpInit 256)).data percore system
          (session 8 (updateRegDumpTable 2 (cpussRegdumpInit 256)).data sampleLines) :=
  registerTable_laidOut (cpussRegdumpInit 256) 2 8 (by decide) (by decide) sampleLines

end SafelinuxDbg.MemoryDump
