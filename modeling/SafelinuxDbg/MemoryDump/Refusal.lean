import SafelinuxDbg.MemoryDump.Setup
import SafelinuxDbg.MemoryDump.SprTable

/-!
# When the handlers refuse

`update_reg_dump_table` computes the size of a table in 32 bits: twice the number of per-core
registers, the words around them, and then four bytes for each word.  The test that comes after
it divides the bytes by four again, which finds an overflow in the last of these steps and in none
of the others.

* `tableSized_iff`: the function returns 0 exactly when the table fits, with everything that should
  follow, if and only if the number of words does not overflow, or what is left of it is too large
  as well.
* `refused_unchanged`: a write to one of the three files that is refused has changed nothing, in
  any state.
-/

namespace SafelinuxDbg.MemoryDump

open CMemory

/-! ## The size of the table -/

section Size

variable {n : UInt32} {d : CpussRegdumpData}

/-- What `update_reg_dump_table` is for: a table for `n` per-core registers has `6 + 2 * n` words,
and it is made when they fit. -/
structure TableSized (n : UInt32) (d : CpussRegdumpData) : Prop where
  returns : (updateRegDumpTable n d).result = .ok () ↔ 4 * (6 + 2 * n.toNat) < d.size.toNat
  index : (updateRegDumpTable n d).result = .ok () →
    ((updateRegDumpTable n d).data.dumpVaddr sysRegInputIndex).toNat = 5 + 2 * n.toNat
  offset : (updateRegDumpTable n d).result = .ok () →
    ((updateRegDumpTable n d).data.dumpVaddr outputDumpIndex).toNat = 4 * (6 + 2 * n.toNat)
  /-- the two `memset`s, and the header -/
  inside : (updateRegDumpTable n d).result = .ok () →
    ∀ b ∈ (updateRegDumpTable n d).stores, 4 * (b.1 + b.2.length) ≤ d.size.toNat
  refuses : ∀ e, (updateRegDumpTable n d).result = .error e →
    e = .ENOMEM ∧ (updateRegDumpTable n d).data = d

/-- The number of words, as it is computed. -/
theorem tableWords_toNat (n : UInt32) :
    (systemRegsInputIndex + n * 2 + 1).toNat = (6 + 2 * n.toNat) % 2 ^ 32 := by
  have hone : (1 : UInt32).toNat = 1 := rfl
  have htwo : (2 : UInt32).toNat = 2 := rfl
  have hfive : systemRegsInputIndex.toNat = 5 := rfl
  rw [UInt32.toNat_add, UInt32.toNat_add, UInt32.toNat_mul, hone, htwo, hfive]
  omega

/-- The test, in exact numbers: the division finds the overflow of the last product. -/
theorem tableCheck_iff (n size : UInt32) :
    (size ≤ (systemRegsInputIndex + n * 2 + 1) * 4 ∨
        (systemRegsInputIndex + n * 2 + 1) * 4 / 4 < systemRegsInputIndex + n * 2 + 1) ↔
      size.toNat ≤ 4 * ((6 + 2 * n.toNat) % 2 ^ 32) := by
  have hfour : (4 : UInt32).toNat = 4 := rfl
  have hsize := size.toNat_lt
  rw [UInt32.le_iff_toNat_le, UInt32.lt_iff_toNat_lt, UInt32.toNat_div, UInt32.toNat_mul,
    tableWords_toNat, hfour]
  generalize (6 + 2 * n.toNat) % 2 ^ 32 = words
  omega

theorem updateRegDumpTable_of_le (h : d.size.toNat ≤ 4 * ((6 + 2 * n.toNat) % 2 ^ 32)) :
    updateRegDumpTable n d = .refuse .ENOMEM d := by
  rw [updateRegDumpTable]
  exact if_pos ((tableCheck_iff n d.size).mpr h)

theorem updateRegDumpTable_of_lt (h : 4 * ((6 + 2 * n.toNat) % 2 ^ 32) < d.size.toNat) :
    (updateRegDumpTable n d).result = .ok () := by
  rw [updateRegDumpTable]
  have hcheck := (tableCheck_iff n d.size).not.mpr (Nat.not_le.mpr h)
  simp only [if_neg hcheck, Outcome.accept]

/-- A table that is refused, and should be. -/
theorem TableSized.of_refuse (hfull : d.size.toNat ≤ 4 * (6 + 2 * n.toNat))
    (h : updateRegDumpTable n d = .refuse .ENOMEM d) : TableSized n d := by
  have hresult : (updateRegDumpTable n d).result = .error .ENOMEM := by rw [h]; rfl
  have hno : ¬ (updateRegDumpTable n d).result = .ok () := by
    rw [hresult]
    intro heq
    cases heq
  refine ⟨⟨fun hok => absurd hok hno, fun hlt => by omega⟩, fun hok => absurd hok hno,
    fun hok => absurd hok hno, fun hok => absurd hok hno, ?_⟩
  intro e he
  rw [hresult] at he
  cases he
  exact ⟨rfl, by rw [h]; rfl⟩

/-- A table that fits. -/
theorem TableSized.of_room (hroom : 4 * (6 + 2 * n.toNat) < d.size.toNat) : TableSized n d := by
  have hlt := d.size.toNat_lt
  obtain ⟨hdata, hresult, hinside⟩ := updateRegDumpTable_eq ⟨d.size, n, 1, hroom, by decide⟩ d rfl
  simp only at hdata hresult hinside
  refine ⟨⟨fun _ => hroom, fun _ => hresult⟩, fun _ => ?_, fun _ => ?_, fun _ => hinside, ?_⟩
  · rw [hdata, RegTable.toData_dumpVaddr, RegTable.image_header _ _ (by decide)]
    have hindex : 5 + 2 * n.toNat ≤ d.size.toNat := by omega
    exact Shape.toNat_ofNat ⟨d.size, n, 1, hroom, by decide⟩ hindex
  · rw [hdata, RegTable.toData_dumpVaddr, RegTable.image_output]
    exact Shape.toNat_ofNat _ (RegTable.outputOffset_le _)
  · intro e he
    rw [hresult] at he
    cases he

/-- **The size of a table is right** if and only if the number of its words does not overflow, or
the number that is left does not fit either. -/
theorem tableSized_iff (n : UInt32) (d : CpussRegdumpData) :
    TableSized n d ↔
      6 + 2 * n.toNat < 2 ^ 32 ∨ d.size.toNat ≤ 4 * ((6 + 2 * n.toNat) % 2 ^ 32) := by
  have hsize := d.size.toNat_lt
  constructor
  · intro h
    by_contra hnot
    rw [not_or, Nat.not_lt, Nat.not_le] at hnot
    have hroom := h.returns.mp (updateRegDumpTable_of_lt hnot.2)
    omega
  · intro h
    rcases Nat.lt_or_ge (4 * (6 + 2 * n.toNat)) d.size.toNat with hroom | hfull
    · exact .of_room hroom
    · refine .of_refuse hfull (updateRegDumpTable_of_le ?_)
      rcases h with hwords | hle
      · rw [Nat.mod_eq_of_lt hwords]
        exact hfull
      · exact hle

/-- For `0x7ffffffd` per-core registers the number of words is `2 ^ 32`.  The table is taken to need
no byte at all, and `memset` clears `2 ^ 32 - 4` words of a buffer of one page. -/
theorem not_tableSized_overflow : ¬ TableSized 0x7ffffffd (cpussRegdumpInit 4096) := by
  intro h
  have hroom := h.returns.mp rfl
  exact absurd hroom (by decide)

end Size

/-! ## Refusals -/

/-- The tables behind `struct cpuss_dump_data`, with what they hold. -/
structure ConfigTables where
  cpussregdata : CpussRegdumpData
  sprdata : SprTables

/-- A write to `register_config`, `core_reg_num` or `spr_config`; `none` where the text could not be
parsed. -/
inductive ConfigWrite
  | registerConfig (input : Scanned)
  | coreRegNum (val : Option UInt32)
  | sprConfig (input : Option (UInt32 × UInt32))

/-- The write, with what it returns. -/
def ConfigWrite.exec (numCores : UInt32) (s : ConfigTables) :
    ConfigWrite → ConfigTables × Except Errno Unit
  | registerConfig input =>
    let out := registerConfigStore numCores input s.cpussregdata
    ({ s with cpussregdata := out.data }, out.result)
  | coreRegNum none => (s, .error .EINVAL)
  | coreRegNum (some val) =>
    let out := coreRegNumStore val s.cpussregdata
    ({ s with cpussregdata := out.data }, out.result)
  | sprConfig input =>
    let out := sprConfigStore input s.sprdata
    ({ s with sprdata := out.sprdata }, out.result)

section Unchanged

variable {d : CpussRegdumpData} {e : Errno}

/-- Either the call changed nothing, or it was a success. -/
def Outcome.Clean (out : Outcome) (d : CpussRegdumpData) : Prop :=
  out.data = d ∨ out.result = .ok ()

theorem Outcome.Clean.refuse (e : Errno) (d : CpussRegdumpData) : (Outcome.refuse e d).Clean d :=
  Or.inl rfl

theorem Outcome.Clean.accept (d d' : CpussRegdumpData) (stores : List (Nat × List UInt32)) :
    (Outcome.accept d' stores).Clean d := Or.inr rfl

theorem Outcome.Clean.unchanged {out : Outcome} (h : out.Clean d) (herr : out.result = .error e) :
    out.data = d := by
  rcases h with hdata | hok
  · exact hdata
  · rw [hok] at herr
    cases herr

theorem updateRegDumpTable_clean (n : UInt32) (d : CpussRegdumpData) :
    (updateRegDumpTable n d).Clean d := by
  rw [updateRegDumpTable]
  split
  · exact .refuse _ _
  · exact .accept _ _ _

theorem coreRegNumStore_clean (val : UInt32) (d : CpussRegdumpData) :
    (coreRegNumStore val d).Clean d := by
  rw [coreRegNumStore]
  split
  · exact Or.inl rfl
  · exact updateRegDumpTable_clean _ _

/-- `config_cpuss_register` returns its error before it stores, and nothing is stored before it. -/
theorem storePercore_clean (numCores reserveSize : UInt32) (c : RegisterConfig)
    (d : CpussRegdumpData) : (storePercore numCores reserveSize c d).Clean d := by
  rw [storePercore]
  split
  · exact .refuse _ _
  split
  · exact .refuse _ _
  split
  · exact .refuse _ _
  · exact .accept _ _ _

theorem storeSystem_clean (reserveSize : UInt32) (c : RegisterConfig) (d : CpussRegdumpData) :
    (storeSystem reserveSize c d).Clean d := by
  rw [storeSystem]
  split
  · exact .refuse _ _
  split
  · exact .refuse _ _
  · exact .accept _ _ _

theorem registerConfigStore_clean (numCores : UInt32) (input : Scanned) (d : CpussRegdumpData) :
    (registerConfigStore numCores input d).Clean d := by
  rw [registerConfigStore]
  split
  · exact .refuse _ _
  split
  · exact .refuse _ _
  split
  · exact storePercore_clean _ _ _ _
  · exact storeSystem_clean _ _ _

theorem sprConfigStore_unchanged (input : Option (UInt32 × UInt32)) (sprdata : SprTables)
    (h : (sprConfigStore input sprdata).result = .error e) :
    (sprConfigStore input sprdata).sprdata = sprdata := by
  revert h
  unfold sprConfigStore
  split
  · exact fun _ => rfl
  split
  · split
    · exact fun _ => rfl
    split
    · intro h
      cases h
    · exact fun _ => rfl
  · exact fun _ => rfl

end Unchanged

/-- **A refused write changes nothing**: neither a buffer nor a number kept beside it. -/
theorem refused_unchanged (numCores : UInt32) (write : ConfigWrite) (s : ConfigTables) (e : Errno)
    (h : (write.exec numCores s).2 = .error e) : (write.exec numCores s).1 = s := by
  cases write with
  | registerConfig input =>
    have hdata := (registerConfigStore_clean numCores input s.cpussregdata).unchanged h
    simp only [ConfigWrite.exec, hdata]
  | coreRegNum val =>
    cases val with
    | none => rfl
    | some val =>
      have hdata := (coreRegNumStore_clean val s.cpussregdata).unchanged h
      simp only [ConfigWrite.exec, hdata]
  | sprConfig input =>
    have hdata := sprConfigStore_unchanged input s.sprdata h
    simp only [ConfigWrite.exec, hdata]

/-- A repeated read of `0x40000001` words: four times that is 4, which passes the check on the
memory, and then `config_cpuss_register` refuses. -/
theorem refused_unchanged_repeat :
    ((ConfigWrite.registerConfig (.three 0x100 0x40000001 'R')).exec 8
        ⟨(updateRegDumpTable 1 (cpussRegdumpInit 4096)).data, fun _ => none⟩).1 =
      ⟨(updateRegDumpTable 1 (cpussRegdumpInit 4096)).data, fun _ => none⟩ :=
  refused_unchanged 8 _ _ .EINVAL rfl

end SafelinuxDbg.MemoryDump
