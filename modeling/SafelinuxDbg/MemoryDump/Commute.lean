import SafelinuxDbg.Lib.Interleave
import SafelinuxDbg.MemoryDump.ConfigSession

/-!
# Per-core and system registers do not disturb each other

The two kinds of registers share the buffer, the output offset in the header and the budget.
Still the order in which lines of the two kinds come in does not matter, as long as all are
accepted.  On tables (`RegTable.take`) the two kinds commute, because the needs of a table depend
on its two lists only and grow with them.  The data of the driver follows (`acceptStore_toData`).

* `registerConfigStore_interleave`: if one interleaving is accepted as a whole then so is every
  other one, with the same data at the end.
-/

namespace SafelinuxDbg.MemoryDump

open Interleave

/-- `register_config_store` as a step that has to succeed. -/
def acceptStore (numCores : UInt32) (d : CpussRegdumpData) (input : Scanned) :
    Option CpussRegdumpData :=
  let out := registerConfigStore numCores input d
  match out.result with
  | .ok () => some out.data
  | .error _ => none

/-- A line for a per-core register. -/
def Scanned.PerCore (input : Scanned) : Prop := ∀ c, input.config = some c → c.perCore ≠ 0

/-- A line for a system register. -/
def Scanned.System (input : Scanned) : Prop := ∀ c, input.config = some c → c.perCore = 0

section

variable {sh : Shape}

/-- What a line does to the table. -/
def RegTable.take (t : RegTable sh) (input : Scanned) : Option (RegTable sh) :=
  input.config.bind t.store

/-- The driver's data follows the table. -/
theorem acceptStore_toData (old : Nat → UInt32) (t : RegTable sh) (input : Scanned) :
    acceptStore sh.numCores (t.toData old) input = (t.take input).map (·.toData old) := by
  rw [acceptStore]
  cases htake : t.take input with
  | none =>
    have hrefused : ∀ c, input.config = some c → t.store c = none := by
      intro c hc
      rw [RegTable.take, hc] at htake
      exact htake
    obtain ⟨err, heq⟩ := registerConfigStore_refuse old hrefused
    rw [heq]
    rfl
  | some t' =>
    obtain ⟨c, hinput, hstore⟩ := Option.bind_eq_some_iff.mp htake
    rw [registerConfigStore_accept old hinput hstore]
    rfl

namespace RegTable

/-- Both at once, one of either kind. -/
theorem addPercore_bind_addSystem (t : RegTable sh) (e e' : RegEntry) :
    (t.addPercore e).bind (fun u => u.addSystem e') =
      (t.addSystem e').bind (fun u => u.addPercore e) := by
  have hpercore := sh.needs_percore t.percore (t.system ++ [e']) e
  have hsystem := sh.needs_system (t.percore ++ [e]) t.system e'
  by_cases h : (t.percore ++ [e]).length ≤ sh.coreRegNum.toNat ∧
      sh.needs (t.percore ++ [e]) (t.system ++ [e']) ≤ sh.size.toNat
  · -- there is room for both, so there is room for each of them
    have h1 : (t.percore ++ [e]).length ≤ sh.coreRegNum.toNat ∧
        sh.needs (t.percore ++ [e]) t.system ≤ sh.size.toNat := ⟨h.1, by omega⟩
    have h2 : sh.needs t.percore (t.system ++ [e']) ≤ sh.size.toNat := by omega
    rw [addPercore, dif_pos h1, Option.bind_some, addSystem, dif_pos h.2, addSystem, dif_pos h2,
      Option.bind_some, addPercore, dif_pos h]
  · have hleft : (t.addPercore e).bind (fun u => u.addSystem e') = none := by
      apply Option.bind_eq_none_iff.mpr
      intro u hu
      rw [addPercore] at hu
      split at hu
      case isTrue hroom =>
        cases hu
        exact dif_neg (fun hfits => h ⟨hroom.1, hfits⟩)
      case isFalse => cases hu
    have hright : (t.addSystem e').bind (fun u => u.addPercore e) = none := by
      apply Option.bind_eq_none_iff.mpr
      intro u hu
      rw [addSystem] at hu
      split at hu
      case isTrue =>
        cases hu
        exact dif_neg h
      case isFalse => cases hu
    rw [hleft, hright]

/-- Lines of the two kinds commute. -/
theorem take_commutes {a b : Scanned} (ha : a.PerCore) (hb : b.System) :
    Commutes (fun t : RegTable sh => t.take) a b := by
  intro t
  simp only [take]
  cases hca : a.config with
  | none =>
    simp only [Option.bind_none]
    exact (Option.bind_fun_none _).symm
  | some c =>
  cases hcb : b.config with
  | none =>
    simp only [Option.bind_none]
    exact Option.bind_fun_none _
  | some c' =>
    simp only [Option.bind_some, store, if_pos (ha c hca), if_neg (not_not.mpr (hb c' hcb))]
    cases c.entry with
    | none =>
      cases c'.entry with
      | none => rfl
      | some e' => exact (Option.bind_fun_none _).symm
    | some e =>
      cases c'.entry with
      | none => exact Option.bind_fun_none _
      | some e' => exact t.addPercore_bind_addSystem e e'

end RegTable

/-- An interleaving, one kind after the other and on tables. -/
theorem runAll_toData {as bs cs : List Scanned} (has : ∀ a ∈ as, a.PerCore)
    (hbs : ∀ b ∈ bs, b.System) (hcs : Interleaves as bs cs) (t : RegTable sh)
    (old : Nat → UInt32) :
    runAll (acceptStore sh.numCores) (t.toData old) cs =
      (runAll (fun t : RegTable sh => t.take) t (as ++ bs)).map (·.toData old) := by
  have hcomm : ∀ a ∈ as, ∀ b ∈ bs, Commutes (fun t : RegTable sh => t.take) a b :=
    fun a ha b hb => RegTable.take_commutes (has a ha) (hbs b hb)
  rw [runAll_map (acceptStore_toData old), runAll_interleaves hcs hcomm]

end

/-- **The order of the two kinds does not matter**: where the lines `as` for per-core registers and
the lines `bs` for system registers are all accepted in one interleaving, they are accepted in
every other one, and the data at the end is the same. -/
theorem registerConfigStore_interleave (d : CpussRegdumpData) (n numCores : UInt32)
    (hroom : 4 * (6 + 2 * n.toNat) < d.size.toNat) (hcores : 0 < numCores.toNat)
    (before : List Scanned) {as bs cs cs' : List Scanned}
    (has : ∀ a ∈ as, a.PerCore) (hbs : ∀ b ∈ bs, b.System)
    (hcs : Interleaves as bs cs) (hcs' : Interleaves as bs cs') {d' : CpussRegdumpData}
    (h : runAll (acceptStore numCores)
      (session numCores (updateRegDumpTable n d).data before).data cs = some d') :
    runAll (acceptStore numCores)
      (session numCores (updateRegDumpTable n d).data before).data cs' = some d' := by
  have hdata := (updateRegDumpTable_eq ⟨d.size, n, numCores, hroom, hcores⟩ d rfl).1
  simp only at hdata
  obtain ⟨t, hat⟩ := session_table ⟨d.size, n, numCores, hroom, hcores⟩ d.dumpVaddr before
  rw [hdata, hat.data] at h ⊢
  rw [runAll_toData has hbs hcs t d.dumpVaddr] at h
  rw [runAll_toData has hbs hcs' t d.dumpVaddr]
  exact h

/-- Two per-core lines. -/
def samplePercore : List Scanned := [.four 0x100 8 'r' 1, .four 0x110 4 'r' 1]
/-- Two system lines. -/
def sampleSystem : List Scanned := [.two 0x200 4, .three 0 5 'd']

/-- The lines in turn, and the system lines first. -/
theorem registerConfigStore_interleave_sample :
    ∃ d', runAll (acceptStore 8) (updateRegDumpTable 2 (cpussRegdumpInit 256)).data
        [.four 0x100 8 'r' 1, .two 0x200 4, .four 0x110 4 'r' 1, .three 0 5 'd'] = some d' ∧
      runAll (acceptStore 8) (updateRegDumpTable 2 (cpussRegdumpInit 256)).data
        (sampleSystem ++ samplePercore) = some d' := by
  have hsome : (runAll (acceptStore 8) (updateRegDumpTable 2 (cpussRegdumpInit 256)).data
      [.four 0x100 8 'r' 1, .two 0x200 4, .four 0x110 4 'r' 1, .three 0 5 'd']).isSome := by
    decide +kernel
  obtain ⟨d', hd'⟩ := Option.isSome_iff_exists.mp hsome
  have hcs : Interleaves samplePercore sampleSystem
      [.four 0x100 8 'r' 1, .two 0x200 4, .four 0x110 4 'r' 1, .three 0 5 'd'] :=
    .left (.right (.left (.right .nil)))
  have hcs' : Interleaves samplePercore sampleSystem (sampleSystem ++ samplePercore) :=
    .right (.right (.left (.left .nil)))
  refine ⟨d', hd', registerConfigStore_interleave (cpussRegdumpInit 256) 2 8 (by decide)
    (by decide) [] ?_ ?_ hcs hcs' hd'⟩
  · intro a ha
    simp only [samplePercore, List.mem_cons, List.not_mem_nil, or_false] at ha
    rcases ha with rfl | rfl <;> (intro c hc; cases hc; decide)
  · intro b hb
    simp only [sampleSystem, List.mem_cons, List.not_mem_nil, or_false] at hb
    rcases hb with rfl | rfl <;> (intro c hc; cases hc; rfl)

end SafelinuxDbg.MemoryDump
