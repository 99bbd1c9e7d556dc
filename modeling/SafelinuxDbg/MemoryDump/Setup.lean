import SafelinuxDbg.MemoryDump.ConfigSession

/-!
# From the probe to the first table

`cpuss_regdump_init` leaves a buffer of zeros and data of zeros, and nothing calls
`update_reg_dump_table` before the files in sysfs are there.  A system register that is written
first goes to the word that word 2 points to, which is word 0: the place of the magic number.

* `stores_safe_iff`: for a sequence of calls after the probe, every word is stored inside of the
  buffer and no entry goes into the header, if and only if the table is set up before the first
  system register that would be accepted.
-/

namespace SafelinuxDbg.MemoryDump

open CMemory

/-- A value or a line written to one of the files, parsed. -/
inductive SysfsCall
  | registerConfig (input : Scanned)
  | coreRegNum (val : UInt32)
  | registerReset (val : UInt32)

/-- `core_reg_num_store`, when nothing comes between its two locked parts. -/
def coreRegNumStore (val : UInt32) (d : CpussRegdumpData) : Outcome :=
  match coreRegNumCheck val d with
  | some result => ⟨d, [], result⟩
  | none => updateRegDumpTable val d

def SysfsCall.outcome (numCores : UInt32) (d : CpussRegdumpData) : SysfsCall → Outcome
  | registerConfig input => registerConfigStore numCores input d
  | coreRegNum val => coreRegNumStore val d
  | registerReset val => registerResetStore val d

/-- The calls with what they did. -/
def outcomes (numCores : UInt32) : CpussRegdumpData → List SysfsCall → List (SysfsCall × Outcome)
  | _, [] => []
  | d, call :: calls =>
    (call, call.outcome numCores d) :: outcomes numCores (call.outcome numCores d).data calls

/-- The entry that a call has stored.  It is the first thing `register_config_store` stores. -/
def entryStored : SysfsCall × Outcome → Option (Nat × List UInt32)
  | (.registerConfig _, out) => out.stores.head?
  | _ => none

/-- The call has stored inside of the buffer, and no entry into the four words of the header. -/
structure StoresSafe (size : UInt32) (call : SysfsCall × Outcome) : Prop where
  inside : ∀ b ∈ call.2.stores, 4 * (b.1 + b.2.length) ≤ size.toNat
  header : ∀ b, entryStored call = some b → 4 ≤ b.1

/-- The number of per-core registers does not make the size of the table overflow. -/
def SysfsCall.NoWrap : SysfsCall → Prop
  | coreRegNum val => 4 * (6 + 2 * val.toNat) < 2 ^ 32
  | _ => True

/-! ## The condition -/

/-- The call sets a table up, when there is none. -/
def SysfsCall.SetsUp (size : UInt32) : SysfsCall → Prop
  | registerConfig _ => False
  | coreRegNum val => val ≠ 0 ∧ 4 * (6 + 2 * val.toNat) < size.toNat
  | registerReset val => val = 1 ∧ 32 < size.toNat

/-- A line in order for a system register that fits into an empty buffer. -/
def SysfsCall.AddsSystem (size : UInt32) : SysfsCall → Prop
  | registerConfig input => ∃ c e, input.config = some c ∧ c.entry = some e ∧ c.perCore = 0 ∧
      4 * e.words.length + e.reserve ≤ size.toNat
  | _ => False

/-- No system register comes in before the table is set up. -/
def SetUpFirst (size : UInt32) : List SysfsCall → Prop
  | [] => True
  | call :: calls => ¬ call.AddsSystem size ∧ (call.SetsUp size ∨ SetUpFirst size calls)

/-! ## Before the table is set up -/

section Unset

variable {size : UInt32} {input : Scanned}

/-- A system register goes to the front of the buffer. -/
theorem registerConfigStore_unset_adds (numCores : UInt32)
    (h : (SysfsCall.registerConfig input).AddsSystem size) :
    ∃ words, (registerConfigStore numCores input (cpussRegdumpInit size)).stores.head? =
      some (0, words) := by
  obtain ⟨c, e, hinput, hentry, hcore, hfits⟩ := h
  obtain ⟨-, hconfig, -⟩ := c.of_entry hentry
  rw [registerConfigStore_of_entry _ _ hinput hentry, if_neg (not_not.mpr hcore), storeSystem,
    systemMemory_eq (c.words_length_eq hentry) e.reserve_lt, if_pos (by
      show 0 + _ ≤ size.toNat
      omega)]
  have hindex : (cpussRegdumpInit size).systemRegEndIndex = 0 := by
    show (0 : UInt32) + 0 / 4 = 0
    decide
  simp only [hconfig, hindex]
  exact ⟨e.words, rfl⟩

/-- Everything else is refused. -/
theorem registerConfigStore_unset_refuses (numCores : UInt32)
    (h : ¬ (SysfsCall.registerConfig input).AddsSystem size) :
    ∃ err, registerConfigStore numCores input (cpussRegdumpInit size) =
      .refuse err (cpussRegdumpInit size) := by
  by_cases hnone : ∀ c, input.config = some c → c.entry = none
  · exact registerConfigStore_of_no_entry _ _ hnone
  simp only [not_forall] at hnone
  obtain ⟨c, hinput, hsome⟩ := hnone
  obtain ⟨e, hentry⟩ := Option.ne_none_iff_exists'.mp hsome
  rw [registerConfigStore_of_entry _ _ hinput hentry]
  by_cases hcore : c.perCore = 0
  · rw [if_neg (not_not.mpr hcore), storeSystem,
      systemMemory_eq (c.words_length_eq hentry) e.reserve_lt, if_neg]
    · exact ⟨_, rfl⟩
    · show ¬ (0 + _ ≤ size.toNat)
      intro hfits
      exact h ⟨c, e, hinput, hentry, hcore, by omega⟩
  · -- no per-core registers are declared yet
    have hnum : (cpussRegdumpInit size).coreRegUsedNum = (cpussRegdumpInit size).coreRegNum := rfl
    rw [if_pos hcore, storePercore, if_pos hnum]
    exact ⟨_, rfl⟩

end Unset

/-! ## Once it is set up -/

/-- The data is that of a table. -/
def IsTable (size numCores : UInt32) (d : CpussRegdumpData) : Prop :=
  ∃ (sh : Shape) (t : RegTable sh) (old : Nat → UInt32),
    sh.size = size ∧ sh.numCores = numCores ∧ d = t.toData old

section Table

variable {size numCores : UInt32} {d : CpussRegdumpData} {call : SysfsCall}

theorem IsTable.size_eq (h : IsTable size numCores d) : d.size = size := by
  obtain ⟨sh, t, old, rfl, -, rfl⟩ := h
  rfl

/-- The two outcomes of `update_reg_dump_table`. -/
theorem updateRegDumpTable_cases {n : UInt32} (hcores : 0 < numCores.toNat) (hsize : d.size = size)
    (hwrap : 4 * (6 + 2 * n.toNat) < 2 ^ 32) :
    (4 * (6 + 2 * n.toNat) < size.toNat ∧ IsTable size numCores (updateRegDumpTable n d).data ∧
        ∀ b ∈ (updateRegDumpTable n d).stores, 4 * (b.1 + b.2.length) ≤ size.toNat) ∨
      (size.toNat ≤ 4 * (6 + 2 * n.toNat) ∧ updateRegDumpTable n d = .refuse .ENOMEM d) := by
  rcases Nat.lt_or_ge (4 * (6 + 2 * n.toNat)) size.toNat with hroom | hroom
  · left
    obtain ⟨hdata, -, hinside⟩ := updateRegDumpTable_eq ⟨size, n, numCores, hroom, hcores⟩ d hsize
    exact ⟨hroom, ⟨_, _, _, rfl, rfl, hdata⟩, hinside⟩
  · right
    exact ⟨hroom, updateRegDumpTable_refuse (by omega) (by rw [hsize]; exact hroom)⟩

/-- A call that leaves the data alone. -/
theorem StoresSafe.of_empty {out : Outcome} (h : out.stores = []) :
    StoresSafe size (call, out) := by
  constructor
  · intro b hb
    simp only [h, List.not_mem_nil] at hb
  · intro b hb
    cases call with
    | registerConfig input =>
      simp only [entryStored, h, List.head?_nil] at hb
      cases hb
    | coreRegNum val => cases hb
    | registerReset val => cases hb

/-- The entry of a line goes behind the header. -/
theorem RegTable.stores_head {sh : Shape} {t t' : RegTable sh} {c : RegisterConfig}
    (h : t.store c = some t') : ∀ b, (t.stores c).head? = some b → 4 ≤ b.1 := by
  obtain ⟨e, hentry, ⟨hcore, -⟩ | ⟨hcore, -⟩⟩ := RegTable.store_eq_some h
  · simp only [RegTable.stores, hentry, if_pos hcore, RegTable.percoreStores, List.head?_cons]
    rintro b ⟨⟩
    exact Nat.le_add_right _ _
  · simp only [RegTable.stores, hentry, if_neg (not_not.mpr hcore), RegTable.systemStores,
      List.head?_cons]
    rintro b ⟨⟩
    simp only [Shape.systemIndex]
    omega

/-- **A table stays a table**, and what is stored is safe. -/
theorem IsTable.step (h : IsTable size numCores d) (hcores : 0 < numCores.toNat)
    (hwrap : call.NoWrap) :
    StoresSafe size (call, call.outcome numCores d) ∧
      IsTable size numCores (call.outcome numCores d).data := by
  cases call with
  | registerConfig input =>
    obtain ⟨sh, t, old, rfl, rfl, rfl⟩ := h
    show StoresSafe _ (_, registerConfigStore _ input _) ∧
      IsTable _ _ (registerConfigStore _ input _).data
    by_cases hnone : ∀ c, input.config = some c → t.store c = none
    · obtain ⟨err, heq⟩ := registerConfigStore_refuse old hnone
      rw [heq]
      exact ⟨.of_empty rfl, sh, t, old, rfl, rfl, rfl⟩
    · simp only [not_forall] at hnone
      obtain ⟨c, hinput, hstore⟩ := hnone
      obtain ⟨t', ht'⟩ := Option.ne_none_iff_exists'.mp hstore
      rw [registerConfigStore_accept old hinput ht']
      exact ⟨⟨RegTable.stores_inside ht', RegTable.stores_head ht'⟩, sh, t', old, rfl, rfl, rfl⟩
  | coreRegNum val =>
    show StoresSafe _ (_, coreRegNumStore val d) ∧ IsTable _ _ (coreRegNumStore val d).data
    rw [coreRegNumStore]
    split
    case h_1 => exact ⟨.of_empty rfl, h⟩
    case h_2 =>
      rcases updateRegDumpTable_cases hcores h.size_eq hwrap with ⟨-, htable, hinside⟩ | ⟨-, heq⟩
      · exact ⟨⟨hinside, fun b hb => by cases hb⟩, htable⟩
      · rw [heq]
        exact ⟨.of_empty rfl, h⟩
  | registerReset val =>
    show StoresSafe _ (_, registerResetStore val d) ∧ IsTable _ _ (registerResetStore val d).data
    rw [registerResetStore]
    split
    case isTrue => exact ⟨.of_empty rfl, h⟩
    case isFalse =>
      rcases updateRegDumpTable_cases (n := coreRegNumDefault) hcores h.size_eq (by decide) with
        ⟨-, htable, hinside⟩ | ⟨-, heq⟩
      · exact ⟨⟨hinside, fun b hb => by cases hb⟩, htable⟩
      · rw [heq]
        exact ⟨.of_empty rfl, h⟩

/-- The same for a sequence of calls. -/
theorem IsTable.safe (hcores : 0 < numCores.toNat) {calls : List SysfsCall}
    (hwrap : ∀ call ∈ calls, call.NoWrap) (h : IsTable size numCores d) :
    ∀ x ∈ outcomes numCores d calls, StoresSafe size x := by
  induction calls generalizing d with
  | nil =>
    intro x hx
    cases hx
  | cons call calls ih =>
    obtain ⟨hsafe, htable⟩ := h.step hcores (hwrap call List.mem_cons_self)
    rw [outcomes]
    intro x hx
    rcases List.mem_cons.mp hx with rfl | hrest
    · exact hsafe
    · exact ih (fun call hcall => hwrap call (List.mem_cons_of_mem _ hcall)) htable x hrest

/-- A call that sets up, and one that does not. -/
theorem SysfsCall.outcome_unset (hcores : 0 < numCores.toNat) (hwrap : call.NoWrap)
    (hadds : ¬ call.AddsSystem size) :
    StoresSafe size (call, call.outcome numCores (cpussRegdumpInit size)) ∧
      (call.SetsUp size ∧ IsTable size numCores
          (call.outcome numCores (cpussRegdumpInit size)).data ∨
        ¬ call.SetsUp size ∧
          (call.outcome numCores (cpussRegdumpInit size)).data = cpussRegdumpInit size) := by
  have hsize : (cpussRegdumpInit size).size = size := rfl
  cases call with
  | registerConfig input =>
    obtain ⟨err, heq⟩ := registerConfigStore_unset_refuses numCores hadds
    show StoresSafe _ (_, registerConfigStore _ input _) ∧ _
    rw [heq]
    refine ⟨.of_empty rfl, Or.inr ⟨id, ?_⟩⟩
    show (registerConfigStore _ input _).data = _
    rw [heq]
    rfl
  | coreRegNum val =>
    show StoresSafe _ (_, coreRegNumStore val _) ∧ ((val ≠ 0 ∧ _) ∧ IsTable _ _
      (coreRegNumStore val _).data ∨ ¬ (val ≠ 0 ∧ _) ∧ (coreRegNumStore val _).data = _)
    by_cases hzero : val = 0
    · -- the number is already zero, so nothing is done
      have hcheck : coreRegNumCheck val (cpussRegdumpInit size) = some (.ok ()) := by
        rw [hzero]
        rfl
      rw [coreRegNumStore, hcheck]
      exact ⟨.of_empty rfl, Or.inr ⟨fun h => h.1 hzero, rfl⟩⟩
    · have hcheck : coreRegNumCheck val (cpussRegdumpInit size) = none := by
        show (if (0 : UInt32) ≠ 0 ∨ (0 : UInt32) ≠ 0 then _ else if val = 0 then _ else none) = none
        rw [if_neg (by decide), if_neg hzero]
      rw [coreRegNumStore, hcheck]
      rcases updateRegDumpTable_cases hcores hsize hwrap with
        ⟨hroom, htable, hinside⟩ | ⟨hroom, heq⟩
      · exact ⟨⟨hinside, fun b hb => by cases hb⟩, Or.inl ⟨⟨hzero, hroom⟩, htable⟩⟩
      · simp only [heq]
        exact ⟨.of_empty rfl, Or.inr ⟨fun h => absurd h.2 (by omega), rfl⟩⟩
  | registerReset val =>
    show StoresSafe _ (_, registerResetStore val _) ∧ ((val = 1 ∧ _) ∧ IsTable _ _
      (registerResetStore val _).data ∨ ¬ (val = 1 ∧ _) ∧ (registerResetStore val _).data = _)
    by_cases hone : val = 1
    · rw [registerResetStore, if_neg (not_not.mpr hone)]
      rcases updateRegDumpTable_cases (n := coreRegNumDefault) hcores hsize (by decide) with
        ⟨hroom, htable, hinside⟩ | ⟨hroom, heq⟩
      · exact ⟨⟨hinside, fun b hb => by cases hb⟩, Or.inl ⟨⟨hone, hroom⟩, htable⟩⟩
      · simp only [heq]
        exact ⟨.of_empty rfl, Or.inr ⟨fun h => absurd h.2 (Nat.not_lt.mpr hroom), rfl⟩⟩
    · rw [registerResetStore, if_pos hone]
      exact ⟨.of_empty rfl, Or.inr ⟨fun h => hone h.1, rfl⟩⟩

/-- A system register before the table is set up is stored over the header. -/
theorem SysfsCall.AddsSystem.not_safe (h : call.AddsSystem size) :
    ¬ StoresSafe size (call, call.outcome numCores (cpussRegdumpInit size)) := by
  intro hsafe
  cases call with
  | registerConfig input =>
    obtain ⟨words, hhead⟩ := registerConfigStore_unset_adds numCores h
    exact absurd (hsafe.header (0, words) hhead) (Nat.not_succ_le_zero 3)
  | coreRegNum val => exact h
  | registerReset val => exact h

end Table

/-- **The stores are safe if and only if the table is set up first.** -/
theorem stores_safe_iff (size numCores : UInt32) (hcores : 0 < numCores.toNat)
    (calls : List SysfsCall) (hwrap : ∀ call ∈ calls, call.NoWrap) :
    (∀ x ∈ outcomes numCores (cpussRegdumpInit size) calls, StoresSafe size x) ↔
      SetUpFirst size calls := by
  induction calls with
  | nil => simp [outcomes, SetUpFirst]
  | cons call calls ih =>
    have hrest : ∀ call ∈ calls, call.NoWrap :=
      fun call hcall => hwrap call (List.mem_cons_of_mem _ hcall)
    rw [outcomes, List.forall_mem_cons, SetUpFirst]
    by_cases hadds : call.AddsSystem size
    · exact ⟨fun h => absurd h.1 hadds.not_safe, fun h => absurd hadds h.1⟩
    · obtain ⟨hsafe, ⟨hsets, htable⟩ | ⟨hsets, hunset⟩⟩ :=
        call.outcome_unset hcores (hwrap call List.mem_cons_self) hadds
      · exact ⟨fun _ => ⟨hadds, Or.inl hsets⟩, fun _ => ⟨hsafe, htable.safe hcores hrest⟩⟩
      · rw [hunset, ih hrest]
        constructor
        · intro h
          exact ⟨hadds, Or.inr h.2⟩
        · rintro ⟨-, h | h⟩
          · exact absurd h hsets
          · exact ⟨hsafe, h⟩

/-- A table for two per-core registers, and then a system register. -/
theorem stores_safe_iff_sample :
    (∀ x ∈ outcomes 8 (cpussRegdumpInit 4096)
        [.coreRegNum 2, .registerConfig (.two 0x100 4)], StoresSafe 4096 x) ↔
      SetUpFirst 4096 [.coreRegNum 2, .registerConfig (.two 0x100 4)] :=
  stores_safe_iff 4096 8 (by decide) _ (by
    intro call hcall
    simp only [List.mem_cons, List.not_mem_nil, or_false] at hcall
    rcases hcall with rfl | rfl
    · show 4 * (6 + 2 * (2 : UInt32).toNat) < 2 ^ 32
      decide
    · exact trivial)

/-- **The first system register overwrites the magic number** when it comes right after the
probe. -/
theorem stores_unsafe_after_probe :
    ¬ ∀ x ∈ outcomes 8 (cpussRegdumpInit 4096) [.registerConfig (.two 0x100 4)],
      StoresSafe 4096 x := by
  intro h
  have hstored : entryStored (.registerConfig (.two 0x100 4),
      registerConfigStore 8 (.two 0x100 4) (cpussRegdumpInit 4096)) = some (0, [0x101]) := by
    decide +kernel
  have hsafe := h _ List.mem_cons_self
  exact absurd (hsafe.header _ hstored) (by decide)

end SafelinuxDbg.MemoryDump
