import SafelinuxDbg.Lib.Machine
import SafelinuxDbg.MemoryDump.Setup

/-!
# Concurrent writers of the register table

Every handler takes the mutex, but `core_reg_num_store` takes it twice: it looks whether the table
is empty, gives the mutex up, and takes it again to set the table up (`update_reg_dump_table`).
The steps here are the locked parts, in any order.

* `registerConfig_kept`: as long as no line is accepted between the two parts of a
  `core_reg_num_store`, accepted lines stay in the table until it is reset.
* `registerConfig_lost`: otherwise a line can be lost.
-/

namespace SafelinuxDbg.MemoryDump

open CMemory

/-- The data, the calls of `core_reg_num_store` that are between their two parts, and the entries
stored for accepted lines since the last reset, each with the words it was stored at. -/
structure RegState where
  data : CpussRegdumpData
  pending : List UInt32
  percore : List (Nat × List UInt32)
  system : List (Nat × List UInt32)

/-- The locked parts of the handlers. -/
inductive RegAction
  | registerConfig (input : Scanned)
  | coreRegNumCheck (val : UInt32)
  | coreRegNumUpdate (val : UInt32)
  | registerReset (val : UInt32)

/-- One locked part. -/
def RegState.step (numCores : UInt32) (s : RegState) : RegAction → Option RegState
  | .registerConfig input =>
    let out := registerConfigStore numCores input s.data
    match out.result, input.config with
    | .ok (), some c =>
      some
        { s with
          data := out.data
          percore := if c.perCore ≠ 0 then s.percore ++ out.stores.head?.toList else s.percore
          system := if c.perCore ≠ 0 then s.system else s.system ++ out.stores.head?.toList }
    | _, _ => some { s with data := out.data }
  | .coreRegNumCheck val =>
    match coreRegNumCheck val s.data with
    | some _ => some s
    | none => some { s with pending := val :: s.pending }
  | .coreRegNumUpdate val =>
    if val ∈ s.pending then
      some { s with data := (updateRegDumpTable val s.data).data, pending := s.pending.erase val }
    else none
  | .registerReset val =>
    let out := registerResetStore val s.data
    -- a reset that stores nothing has not reset anything
    if out.stores.isEmpty then some { s with data := out.data }
    else some { s with data := out.data, percore := [], system := [] }

/-- The driver after the probe, with a buffer of `size` bytes. -/
def regSystem (size numCores : UInt32) : Machine RegState RegAction where
  init := fun s => s = ⟨cpussRegdumpInit size, [], [], []⟩
  step := RegState.step numCores

/-- The accepted lines are still there. -/
structure Kept (s : RegState) : Prop where
  words : ∀ b ∈ s.percore ++ s.system, slice s.data.dumpVaddr b.1 b.2.length = b.2
  percoreCount : s.data.coreRegUsedNum.toNat = s.percore.length
  systemCount : s.data.sysRegSize.toNat = 4 * (s.system.map (·.2.length)).sum
  /-- the second part of `core_reg_num_store` changes an empty table only -/
  rebuilds : ∀ val ∈ s.pending,
    (updateRegDumpTable val s.data).data = s.data ∨ (s.percore = [] ∧ s.system = [])

/-! ## The condition -/

/-- The line is in order and there is room for it. -/
def Admits (numCores : UInt32) (input : Scanned) (d : CpussRegdumpData) : Prop :=
  ∃ c e, input.config = some c ∧ c.entry = some e ∧
    if c.perCore ≠ 0 then
      d.coreRegUsedNum ≠ d.coreRegNum ∧ percoreMemory numCores (UInt32.ofNat e.reserve) d ≠ none
    else systemMemory c.cmd (UInt32.ofNat e.reserve) d ≠ none

/-- A table for `val` per-core registers has no room in the buffer. -/
def NoRoom (size val : UInt32) : Prop := size.toNat ≤ 4 * (6 + 2 * val.toNat)

/-- Lines come in once the table is set up, and not while it is about to be set up again; the
number of words of a table does not overflow. -/
def RegOk (size numCores : UInt32) (s : RegState) : RegAction → Prop
  | .registerConfig input => Admits numCores input s.data →
      s.data.coreRegEndIndex ≠ 0 ∧ ∀ val ∈ s.pending, NoRoom size val
  | .coreRegNumCheck val => 6 + 2 * val.toNat < 2 ^ 32
  | .coreRegNumUpdate _ | .registerReset _ => True

theorem registerConfigStore_of_not_admits {numCores : UInt32} {input : Scanned}
    {d : CpussRegdumpData} (h : ¬ Admits numCores input d) :
    ∃ err, registerConfigStore numCores input d = .refuse err d := by
  by_cases hnone : ∀ c, input.config = some c → c.entry = none
  · exact registerConfigStore_of_no_entry _ _ hnone
  simp only [not_forall] at hnone
  obtain ⟨c, hinput, hsome⟩ := hnone
  obtain ⟨e, hentry⟩ := Option.ne_none_iff_exists'.mp hsome
  rw [registerConfigStore_of_entry _ _ hinput hentry]
  by_cases hcore : c.perCore ≠ 0
  · rw [if_pos hcore, storePercore]
    by_cases hnum : d.coreRegUsedNum = d.coreRegNum
    · rw [if_pos hnum]
      exact ⟨_, rfl⟩
    · have hmemory : percoreMemory numCores (UInt32.ofNat e.reserve) d = none := by
        by_contra hne
        exact h ⟨c, e, hinput, hentry, by rw [if_pos hcore]; exact ⟨hnum, hne⟩⟩
      rw [if_neg hnum, hmemory]
      exact ⟨_, rfl⟩
  · have hmemory : systemMemory c.cmd (UInt32.ofNat e.reserve) d = none := by
      by_contra hne
      exact h ⟨c, e, hinput, hentry, by rw [if_neg hcore]; exact hne⟩
    rw [if_neg hcore, storeSystem, hmemory]
    exact ⟨_, rfl⟩

/-! ## The invariant -/

/-- Where entries that follow each other are stored. -/
def blocksAt (a : Nat) : List RegEntry → List (Nat × List UInt32)
  | [] => []
  | e :: es => (a, e.words) :: blocksAt (a + e.words.length) es

section Blocks

theorem blocksAt_append (a : Nat) (es : List RegEntry) (e : RegEntry) :
    blocksAt a (es ++ [e]) = blocksAt a es ++ [(a + (wordsOf es).length, e.words)] := by
  induction es generalizing a with
  | nil => rfl
  | cons e' es ih =>
    rw [List.cons_append, blocksAt, ih, blocksAt, wordsOf_cons, List.length_append,
      ← Nat.add_assoc, List.cons_append]

theorem blocksAt_length (a : Nat) (es : List RegEntry) : (blocksAt a es).length = es.length := by
  induction es generalizing a with
  | nil => rfl
  | cons e es ih => rw [blocksAt, List.length_cons, ih, List.length_cons]

theorem blocksAt_words (a : Nat) (es : List RegEntry) :
    ((blocksAt a es).map (·.2.length)).sum = (wordsOf es).length := by
  induction es generalizing a with
  | nil => rfl
  | cons e es ih =>
    rw [blocksAt, List.map_cons, List.sum_cons, ih, wordsOf_cons, List.length_append]

/-- The words of all entries are the words of each of them. -/
theorem slice_blocksAt {m : Nat → UInt32} {a : Nat} {es : List RegEntry}
    (h : slice m a (wordsOf es).length = wordsOf es) :
    ∀ b ∈ blocksAt a es, slice m b.1 b.2.length = b.2 := by
  induction es generalizing a with
  | nil =>
    intro b hb
    cases hb
  | cons e es ih =>
    rw [wordsOf_cons, List.length_append, slice_add] at h
    obtain ⟨hfirst, hrest⟩ := List.append_inj h (slice_length _ _ _)
    intro b hb
    rcases List.mem_cons.mp hb with rfl | hb
    · exact hfirst
    · exact ih hrest b hb

end Blocks

/-- The state with a table. -/
def RegTable.toState {sh : Shape} (t : RegTable sh) (old : Nat → UInt32) (pending : List UInt32) :
    RegState :=
  ⟨t.toData old, pending, blocksAt percoreIndex t.percore, blocksAt sh.systemIndex t.system⟩

/-- There is no table yet, or one that no pending call can replace unless it is empty. -/
inductive RegInv (size numCores : UInt32) : RegState → Prop
  | unset {pending : List UInt32} : (∀ val ∈ pending, 6 + 2 * val.toNat < 2 ^ 32) →
      RegInv size numCores ⟨cpussRegdumpInit size, pending, [], []⟩
  | table {sh : Shape} {t : RegTable sh} {old : Nat → UInt32} {pending : List UInt32} :
      sh.size = size → sh.numCores = numCores → (∀ val ∈ pending, 6 + 2 * val.toNat < 2 ^ 32) →
      ((t.percore = [] ∧ t.system = []) ∨ ∀ val ∈ pending, NoRoom size val) →
      RegInv size numCores (t.toState old pending)

section Invariant

variable {size numCores : UInt32} {s s' : RegState}

/-- A new table. -/
theorem RegInv.of_update {d : CpussRegdumpData} {val : UInt32} {pending : List UInt32}
    (hcores : 0 < numCores.toNat) (hsize : d.size = size)
    (hwrap : ∀ val ∈ pending, 6 + 2 * val.toNat < 2 ^ 32)
    (hroom : 4 * (6 + 2 * val.toNat) < size.toNat) :
    RegInv size numCores ⟨(updateRegDumpTable val d).data, pending, [], []⟩ := by
  obtain ⟨hdata, -⟩ := updateRegDumpTable_eq ⟨size, val, numCores, hroom, hcores⟩ d hsize
  simp only at hdata
  rw [hdata]
  exact .table (t := RegTable.empty _) rfl rfl hwrap (Or.inl ⟨rfl, rfl⟩)

theorem RegInv.size_eq (h : RegInv size numCores s) : s.data.size = size := by
  cases h with
  | unset _ => rfl
  | table hsize _ _ _ => exact hsize

theorem RegInv.wrap (h : RegInv size numCores s) : ∀ val ∈ s.pending, 6 + 2 * val.toNat < 2 ^ 32 := by
  cases h with
  | unset hwrap => exact hwrap
  | table _ _ hwrap _ => exact hwrap

/-- What is pending has no room, or nothing is lost. -/
theorem RegInv.pending (h : RegInv size numCores s) :
    (s.percore = [] ∧ s.system = []) ∨ ∀ val ∈ s.pending, NoRoom size val := by
  cases h with
  | unset _ => exact Or.inl ⟨rfl, rfl⟩
  | @table sh t old pending _ _ _ hempty =>
    rcases hempty with ⟨hpercore, hsystem⟩ | hroom
    · left
      show blocksAt _ t.percore = [] ∧ blocksAt _ t.system = []
      rw [hpercore, hsystem]
      exact ⟨rfl, rfl⟩
    · exact Or.inr hroom

/-- One pending call less. -/
theorem RegInv.erase (h : RegInv size numCores s) (val : UInt32) :
    RegInv size numCores { s with pending := s.pending.erase val } := by
  have hwrap : ∀ v ∈ s.pending.erase val, 6 + 2 * v.toNat < 2 ^ 32 :=
    fun v hv => h.wrap v (List.mem_of_mem_erase hv)
  cases h with
  | unset _ => exact .unset hwrap
  | table hsize hnum _ hempty =>
    refine .table hsize hnum hwrap ?_
    rcases hempty with hempty | hroom
    · exact Or.inl hempty
    · exact Or.inr (fun v hv => hroom v (List.mem_of_mem_erase hv))

/-- The first part of `core_reg_num_store` goes on only when the table is empty. -/
theorem RegTable.empty_of_check {sh : Shape} (t : RegTable sh) {old : Nat → UInt32} {val : UInt32}
    (h : MemoryDump.coreRegNumCheck val (t.toData old) = none) :
    t.percore = [] ∧ t.system = [] := by
  rw [MemoryDump.coreRegNumCheck] at h
  split at h
  case isTrue => cases h
  case isFalse hempty =>
    rw [not_or, not_not, not_not, toData_coreRegUsedNum, toData_sysRegSize] at hempty
    obtain ⟨hpercore, hsystem⟩ := hempty
    have hend := t.systemEnd_le
    have hlen := t.percoreLength_toNat
    have hwords : (UInt32.ofNat (4 * (wordsOf t.system).length)).toNat =
        4 * (wordsOf t.system).length := sh.toNat_ofNat (by omega)
    rw [hpercore] at hlen
    rw [hsystem] at hwords
    refine ⟨List.eq_nil_of_length_eq_zero hlen.symm, ?_⟩
    cases hes : t.system with
    | nil => rfl
    | cons e es =>
      -- an entry has at least one word
      have hone := e.words_length
      have hzero : (0 : UInt32).toNat = 0 := rfl
      rw [hes, wordsOf_cons, List.length_append, hzero] at hwords
      omega

/-- The entry of an accepted line comes behind the others. -/
theorem RegTable.toState_store {sh : Shape} {t t' : RegTable sh} {old : Nat → UInt32}
    {c : RegisterConfig} {pending : List UInt32} (h : t.store c = some t') :
    (⟨t'.toData old, pending,
      if c.perCore ≠ 0 then blocksAt percoreIndex t.percore ++ (t.stores c).head?.toList
        else blocksAt percoreIndex t.percore,
      if c.perCore ≠ 0 then blocksAt sh.systemIndex t.system
        else blocksAt sh.systemIndex t.system ++ (t.stores c).head?.toList⟩ : RegState) =
      t'.toState old pending := by
  obtain ⟨e, hentry, ⟨hcore, hadd⟩ | ⟨hcore, hadd⟩⟩ := store_eq_some h
  · obtain ⟨hpercore, hsystem⟩ := addPercore_eq_some hadd
    rw [if_pos hcore, if_pos hcore, toState, hpercore, hsystem, blocksAt_append, stores, hentry]
    simp only [if_pos hcore]
    rfl
  · obtain ⟨hpercore, hsystem⟩ := addSystem_eq_some hadd
    have hcore' : ¬ c.perCore ≠ 0 := not_not.mpr hcore
    rw [if_neg hcore', if_neg hcore', toState, hpercore, hsystem, blocksAt_append, stores, hentry]
    simp only [if_neg hcore']
    rfl

theorem updateRegDumpTable_stores {n : UInt32} {d : CpussRegdumpData}
    (h : (updateRegDumpTable n d).result = .ok ()) :
    (updateRegDumpTable n d).stores.isEmpty = false := by
  rw [updateRegDumpTable] at h ⊢
  split at h
  case isTrue => cases h
  case isFalse hroom =>
    rw [if_neg hroom]
    rfl

/-- A line. -/
theorem RegInv.registerConfig {input : Scanned} (h : RegInv size numCores s)
    (hok : RegOk size numCores s (.registerConfig input))
    (hstep : s.step numCores (.registerConfig input) = some s') : RegInv size numCores s' := by
  rw [RegState.step] at hstep
  by_cases hadmits : Admits numCores input s.data
  case neg =>
    obtain ⟨err, heq⟩ := registerConfigStore_of_not_admits hadmits
    rw [heq] at hstep
    cases hstep
    exact h
  case pos =>
    obtain ⟨hset, hroom⟩ := hok hadmits
    cases h with
    | unset _ => exact absurd rfl hset
    | @table sh t old pending hsize hnum hwrap _ =>
      subst hsize hnum
      have hdata : (t.toState old pending).data = t.toData old := rfl
      rw [hdata] at hstep
      by_cases hnone : ∀ c, input.config = some c → t.store c = none
      · obtain ⟨err, heq⟩ := registerConfigStore_refuse old hnone
        rw [heq] at hstep
        cases hstep
        exact .table rfl rfl hwrap (Or.inr hroom)
      · simp only [not_forall] at hnone
        obtain ⟨c, hinput, hstore⟩ := hnone
        obtain ⟨t', ht'⟩ := Option.ne_none_iff_exists'.mp hstore
        rw [registerConfigStore_accept old hinput ht', hinput] at hstep
        have hstate : s' = t'.toState old pending := by
          rw [← Option.some.inj hstep]
          exact RegTable.toState_store ht'
        rw [hstate]
        exact .table rfl rfl hwrap (Or.inr hroom)

theorem RegInv.coreRegNumCheck {val : UInt32} (h : RegInv size numCores s)
    (hok : RegOk size numCores s (.coreRegNumCheck val))
    (hstep : s.step numCores (.coreRegNumCheck val) = some s') : RegInv size numCores s' := by
  rw [RegState.step] at hstep
  split at hstep
  case h_1 =>
    cases hstep
    exact h
  case h_2 hcheck =>
    cases hstep
    have hwrap : ∀ v ∈ val :: s.pending, 6 + 2 * v.toNat < 2 ^ 32 := by
      intro v hv
      rcases List.mem_cons.mp hv with rfl | hv
      · exact hok
      · exact h.wrap v hv
    cases h with
    | unset _ => exact .unset hwrap
    | @table sh t old pending hsize hnum _ _ =>
      refine .table hsize hnum hwrap (Or.inl ?_)
      exact t.empty_of_check hcheck

/-- The second part of `core_reg_num_store`. -/
theorem RegInv.coreRegNumUpdate {val : UInt32} (hcores : 0 < numCores.toNat)
    (h : RegInv size numCores s)
    (hstep : s.step numCores (.coreRegNumUpdate val) = some s') : RegInv size numCores s' := by
  rw [RegState.step] at hstep
  split at hstep
  case isFalse => cases hstep
  case isTrue hmem =>
    cases hstep
    have hwrap : ∀ v ∈ s.pending.erase val, 6 + 2 * v.toNat < 2 ^ 32 :=
      fun v hv => h.wrap v (List.mem_of_mem_erase hv)
    rcases Nat.lt_or_ge (4 * (6 + 2 * val.toNat)) size.toNat with hroom | hroom
    · -- there is room, so that nothing can be in the table
      rcases h.pending with ⟨hpercore, hsystem⟩ | hnone
      · rw [hpercore, hsystem]
        exact .of_update hcores h.size_eq hwrap hroom
      · exact absurd (hnone val hmem) (Nat.not_le.mpr hroom)
    · rw [updateRegDumpTable_refuse (h.wrap val hmem) (by rw [h.size_eq]; exact hroom)]
      exact h.erase val

theorem RegInv.registerReset {val : UInt32} (hcores : 0 < numCores.toNat)
    (h : RegInv size numCores s)
    (hstep : s.step numCores (.registerReset val) = some s') : RegInv size numCores s' := by
  rw [RegState.step, registerResetStore] at hstep
  by_cases hone : val ≠ 1
  · rw [if_pos hone] at hstep
    cases hstep
    exact h
  · rw [if_neg hone] at hstep
    rcases Nat.lt_or_ge (4 * (6 + 2 * coreRegNumDefault.toNat)) size.toNat with hroom | hroom
    · obtain ⟨-, hresult, -⟩ :=
        updateRegDumpTable_eq ⟨size, coreRegNumDefault, numCores, hroom, hcores⟩ s.data h.size_eq
      have hstores := updateRegDumpTable_stores hresult
      simp only [hstores, Bool.false_eq_true, if_false] at hstep
      cases hstep
      exact .of_update hcores h.size_eq h.wrap hroom
    · rw [updateRegDumpTable_refuse (by decide) (by rw [h.size_eq]; exact hroom)] at hstep
      cases hstep
      exact h

/-- What the invariant says about the lines. -/
theorem RegInv.kept (h : RegInv size numCores s) : Kept s := by
  have hrebuilds : ∀ val ∈ s.pending,
      (updateRegDumpTable val s.data).data = s.data ∨ (s.percore = [] ∧ s.system = []) := by
    intro val hval
    rcases h.pending with hempty | hroom
    · exact Or.inr hempty
    · left
      rw [updateRegDumpTable_refuse (h.wrap val hval) (by rw [h.size_eq]; exact hroom val hval)]
      rfl
  cases h with
  | unset _ =>
    refine ⟨?_, rfl, rfl, hrebuilds⟩
    intro b hb
    cases hb
  | @table sh t old pending _ _ _ _ =>
    refine ⟨?_, ?_, ?_, hrebuilds⟩
    · intro b hb
      rcases List.mem_append.mp hb with hb | hb
      · exact slice_blocksAt (t.image_percore old) b hb
      · exact slice_blocksAt (t.image_system old) b hb
    · show (UInt32.ofNat t.percore.length).toNat = (blocksAt _ t.percore).length
      rw [t.percoreLength_toNat, blocksAt_length]
    · show (UInt32.ofNat (4 * (wordsOf t.system).length)).toNat =
        4 * ((blocksAt _ t.system).map (·.2.length)).sum
      have hend := t.systemEnd_le
      rw [blocksAt_words, sh.toNat_ofNat (by omega)]

end Invariant

/-- **Accepted lines stay in the table** until it is reset, in every run that meets the
condition. -/
theorem registerConfig_kept {size numCores : UInt32} (hcores : 0 < numCores.toNat) {s : RegState}
    (h : (regSystem size numCores).Reach (RegOk size numCores) s) : Kept s := by
  have hinv : RegInv size numCores s := by
    refine h.invariant ?_ ?_
    · rintro s rfl
      exact .unset (fun val hval => by cases hval)
    · intro s a t hinv hok hstep
      cases a with
      | registerConfig input => exact hinv.registerConfig hok hstep
      | coreRegNumCheck val => exact hinv.coreRegNumCheck hok hstep
      | coreRegNumUpdate val => exact hinv.coreRegNumUpdate hcores hstep
      | registerReset val => exact hinv.registerReset hcores hstep
  exact hinv.kept

/-- The steps of `as` after the probe. -/
def regRun (check : RegState → RegAction → Bool) (as : List RegAction) : Option RegState :=
  (regSystem 4096 8).run check ⟨cpussRegdumpInit 4096, [], [], []⟩ as

/-- A check that is enough for the condition. -/
def regCheck (s : RegState) : RegAction → Bool
  | .registerConfig _ => s.data.coreRegEndIndex != 0 && s.pending.isEmpty
  | .coreRegNumCheck val => decide (6 + 2 * val.toNat < 2 ^ 32)
  | .coreRegNumUpdate _ | .registerReset _ => true

theorem regOk_of_regCheck (size numCores : UInt32) (s : RegState) (a : RegAction)
    (h : regCheck s a = true) : RegOk size numCores s a := by
  cases a with
  | registerConfig input =>
    obtain ⟨hset, hpending⟩ := Bool.and_eq_true_iff.mp h
    intro _
    refine ⟨bne_iff_ne.mp hset, ?_⟩
    rw [List.isEmpty_iff.mp hpending]
    intro val hval
    cases hval
  | coreRegNumCheck val =>
    show 6 + 2 * val.toNat < 2 ^ 32
    exact of_decide_eq_true h
  | coreRegNumUpdate val => exact trivial
  | registerReset val => exact trivial

theorem registerConfig_kept_sample :
    ∃ s, regRun regCheck [.coreRegNumCheck 2, .coreRegNumUpdate 2,
        .registerConfig (.two 0x100 4), .coreRegNumCheck 3] = some s ∧
      s.system = [(9, [0x101])] ∧ Kept s := by
  have hrun : (regRun regCheck [.coreRegNumCheck 2, .coreRegNumUpdate 2,
      .registerConfig (.two 0x100 4), .coreRegNumCheck 3]).any
      (fun s => s.system == [(9, [0x101])]) = true := by decide +kernel
  obtain ⟨s, hs, hsystem⟩ := (Option.any_eq_true _ _).mp hrun
  exact ⟨s, hs, beq_iff_eq.mp hsystem, registerConfig_kept (by decide)
    (.of_run (regOk_of_regCheck 4096 8) (.init rfl) hs)⟩

/-- **A line is lost** when it is accepted between the two parts of a `core_reg_num_store`: the
table is set up again with the line in it. -/
theorem registerConfig_lost :
    ¬ ∀ s, (regSystem 4096 8).Reach (fun _ _ => True) s → Kept s := by
  intro h
  have hrun : (regRun (fun _ _ => true) [.coreRegNumCheck 2, .coreRegNumUpdate 2,
      .coreRegNumCheck 3, .registerConfig (.two 0x100 4), .coreRegNumUpdate 3]).any
      (fun s => s.system == [(9, [0x101])] && s.data.sysRegSize == 0) = true := by decide +kernel
  obtain ⟨s, hs, hlost⟩ := (Option.any_eq_true _ _).mp hrun
  obtain ⟨hsystem, hsize⟩ := Bool.and_eq_true_iff.mp hlost
  have hkept := h s (.of_run (fun _ _ _ => trivial) (.init rfl) hs)
  have hcount := hkept.systemCount
  rw [beq_iff_eq.mp hsystem, beq_iff_eq.mp hsize] at hcount
  exact absurd hcount (by decide)

end SafelinuxDbg.MemoryDump
