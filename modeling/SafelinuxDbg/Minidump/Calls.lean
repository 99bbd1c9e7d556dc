import Mathlib.Data.List.Induction
import SafelinuxDbg.Lib.Machine
import SafelinuxDbg.Minidump.Probe

/-!
# The calls of a client

What each of the three calls can do, one lemma per call: `add_paths`, `update_paths`,
`remove_paths` in any mode and at any time, and `add_cases`, `update_cases`, `remove_cases` for a
driver that is set up in SMEM mode (`Smem`).  Every result about the calls goes through these.

`Client` pairs the driver with what its clients know: the number `msm_minidump_add_region`
returned for a name, until a removal names it.  `smemClients` are the runs of such clients.
-/

namespace SafelinuxDbg.Minidump

open CMemory

/-- The driver is set up in SMEM mode. -/
structure Smem (d : Driver) : Prop where
  rm : d.isRmMinidump = false
  toc : tocEnabled d = true
  done : d.mdInitDone = true

/-! ## Lookups -/

theorem firstNamed_eq_ok {names : Nat → CStr} {count i : Nat} {name : CStr} :
    firstNamed names count name = .ok i ↔
      i < count ∧ names i = name ∧ ∀ j, j < i → names j ≠ name := by
  rw [firstNamed]
  cases hf : (List.range count).find? (fun i => names i == name) with
  | none =>
    rw [List.find?_eq_none] at hf
    constructor
    · intro h
      cases h
    · rintro ⟨hi, hn, -⟩
      exact absurd (beq_iff_eq.mpr hn) (hf i (List.mem_range.mpr hi))
  | some k =>
    rw [List.find?_range_eq_some] at hf
    obtain ⟨hk, hlt, hall⟩ := hf
    rw [List.mem_range] at hlt
    have hfirst : ∀ j, j < k → names j ≠ name := by
      intro j hj
      simpa using hall j hj
    simp only [Except.ok.injEq]
    constructor
    · rintro rfl
      exact ⟨hlt, beq_iff_eq.mp hk, hfirst⟩
    · rintro ⟨hi, hn, hmin⟩
      rcases Nat.lt_trichotomy k i with hki | hki | hki
      · exact absurd (beq_iff_eq.mp hk) (hmin k hki)
      · exact hki
      · exact absurd hn (hfirst i hki)

theorem firstNamed_eq_error {names : Nat → CStr} {count : Nat} {name : CStr} {e : Errno} :
    firstNamed names count name = .error e ↔ e = .ENOENT ∧ ∀ j, j < count → names j ≠ name := by
  rw [firstNamed]
  cases hf : (List.range count).find? (fun i => names i == name) with
  | none =>
    rw [List.find?_eq_none] at hf
    simp only [Except.error.injEq]
    constructor
    · rintro rfl
      refine ⟨rfl, ?_⟩
      intro j hj hn
      exact hf j (List.mem_range.mpr hj) (beq_iff_eq.mpr hn)
    · rintro ⟨rfl, -⟩
      rfl
  | some k =>
    rw [List.find?_range_eq_some] at hf
    obtain ⟨hk, hlt, -⟩ := hf
    constructor
    · intro h
      cases h
    · rintro ⟨-, hall⟩
      exact absurd (beq_iff_eq.mp hk) (hall k (List.mem_range.mp hlt))

/-- The loop of `md_region_num` has found the last of the first `n` regions that has the name,
or there is none. -/
theorem regionNum_loop (t : MdTable) (name : CStr) (acc : Except Errno Nat × UInt32) (n : Nat) :
    (∃ i, ((List.range n).foldl (regionNumStep t name) acc).1 = .ok i ∧ i < n ∧
      (t.mdRegions i).name = name ∧ ∀ j, i < j → j < n → (t.mdRegions j).name ≠ name) ∨
    (((List.range n).foldl (regionNumStep t name) acc).1 = acc.1 ∧
      ∀ j, j < n → (t.mdRegions j).name ≠ name) := by
  induction n with
  | zero => exact Or.inr ⟨rfl, fun j hj => absurd hj (Nat.not_lt_zero j)⟩
  | succ n ih =>
    rw [List.range_succ, List.foldl_append, List.foldl_cons, List.foldl_nil, regionNumStep]
    by_cases hname : (t.mdRegions n).name = name
    · rw [if_pos hname]
      exact Or.inl ⟨n, rfl, Nat.lt_succ_self n, hname, fun j h1 h2 => by omega⟩
    · rw [if_neg hname]
      rcases ih with ⟨i, hi, hlt, hn, hall⟩ | ⟨he, hall⟩
      · refine Or.inl ⟨i, hi, by omega, hn, ?_⟩
        intro j h1 h2
        by_cases hj : j = n
        · subst hj
          exact hname
        · exact hall j h1 (by omega)
      · refine Or.inr ⟨he, ?_⟩
        intro j hj
        by_cases hjn : j = n
        · subst hjn
          exact hname
        · exact hall j (by omega)

theorem mdRegionNum_eq_ok {t : MdTable} {name : CStr} {seqno : UInt32} {i : Nat} :
    (mdRegionNum t name seqno).1 = .ok i ↔ i < t.mdSsToc.ssRegionCount ∧
      (t.mdRegions i).name = name ∧
      ∀ j, i < j → j < t.mdSsToc.ssRegionCount → (t.mdRegions j).name ≠ name := by
  rw [mdRegionNum]
  rcases regionNum_loop t name (.error .EINVAL, seqno) t.mdSsToc.ssRegionCount with
    ⟨k, hk, hlt, hn, hall⟩ | ⟨he, hall⟩
  · rw [hk, Except.ok.injEq]
    constructor
    · rintro rfl
      exact ⟨hlt, hn, hall⟩
    · rintro ⟨hi, hname, hmax⟩
      rcases Nat.lt_trichotomy k i with hki | hki | hki
      · exact absurd hname (hall i hki hi)
      · exact hki
      · exact absurd hn (hmax k hki hlt)
  · rw [he]
    constructor
    · intro h
      cases h
    · rintro ⟨hi, hname, -⟩
      exact absurd hname (hall i hi)

/-! ## What the calls do -/

/-- The driver after an accepted `msm_minidump_add_region`. -/
def addedRegion (cfg : Config) (e : MdRegion) (d : Driver) : Driver :=
  { mdAddSsToc cfg e d with
    minidumpElfheader := mdAddElfHeader e d.minidumpElfheader
    numRegions := d.numRegions + 1 }

/-- The driver after a region was put into the resource manager's table and its request was
queued. -/
def queuedRegion (cfg : Config) (e : MdRegion) (d : Driver) : Driver :=
  let t := d.minidumpRmTable
  { d with
    minidumpRmTable :=
      { t with
        entry := Function.update t.entry d.numRegions ⟨e.name.truncate cfg.maxNameLength, 0⟩
        minidumpRmWq := t.minidumpRmWq ++ [⟨e, .minidumpAdd⟩] }
    numRegions := d.numRegions + 1 }

/-- The driver after a region was put on the pending list. -/
def waitingRegion (e : MdRegion) (d : Driver) : Driver :=
  { d with pendingList := d.pendingList ++ [e], numRegions := d.numRegions + 1 }

/-- The region is valid and there is room for one more. -/
def admits (cfg : Config) (e : MdRegion) (d : Driver) : Bool :=
  (validateRegion cfg e).isOk && decide (d.numRegions < maxNumEntries)

/-- The region goes into the tables and the headers at once. -/
def addsDirectly (cfg : Config) (e : MdRegion) (d : Driver) : Bool :=
  admits cfg e d && !d.isRmMinidump && tocEnabled d &&
    decide (d.minidumpTable.mdSsToc.ssRegionCount < maxNumEntries) && !(mdEntryNum d e).isOk

/-- The driver after the table step of an accepted `msm_minidump_update_region`. -/
def updatedTables (regno : Nat) (e : MdRegion) (d : Driver) : Driver :=
  let t := d.minidumpTable
  { d with
    minidumpTable :=
      { t with
        entry := Function.update t.entry regno
          { t.entry regno with virtAddr := e.virtAddr, physAddr := e.physAddr }
        mdRegions := Function.update t.mdRegions (regno + 1)
          { t.mdRegions (regno + 1) with regionBaseAddress := e.physAddr } } }

/-- The driver after the header step of `msm_minidump_update_region`. -/
def updatedHeaders (regno : Nat) (e : MdRegion) (d : Driver) : Driver :=
  { d with minidumpElfheader := mdUpdateElfHeader regno e d.minidumpElfheader }

/-- The driver after an accepted `msm_minidump_remove_region`. -/
def removedRegion (entryno rgno : Nat) (e : MdRegion) (d : Driver) : Driver :=
  let t := (shiftTables entryno rgno d).minidumpTable
  { shiftTables entryno rgno d with
    minidumpElfheader := (msmMinidumpClearHeaders e d.minidumpElfheader).1
    numRegions := d.numRegions - 1
    minidumpTable :=
      { t with
        mdSsToc :=
          { t.mdSsToc with ssRegionCount := t.mdSsToc.ssRegionCount - 1, mdSsTocInit := 1 } } }

theorem validateRegion_eq_ok {cfg : Config} {e : MdRegion} :
    validateRegion cfg e = .ok () ↔
      e.name.strlen ≤ cfg.maxNameLength ∧ e.virtAddr ≠ 0 ∧ e.size % 4 = 0 := by
  rw [validateRegion]
  split
  case isTrue h =>
    constructor
    · intro hc
      cases hc
    · rintro ⟨h1, h2, h3⟩
      rcases h with h | h | h
      · omega
      · exact absurd h h2
      · exact absurd h3 h
  case isFalse h =>
    push Not at h
    exact ⟨fun _ => h, fun _ => rfl⟩

variable {cfg : Config} {alloc : Bool} {e : MdRegion} {d : Driver}

section Cases

variable (cfg alloc e)

/-- **Adding**, in any mode and at any time: the call is refused and changes nothing, or the
region goes into the tables and the headers, or it goes into the resource manager's table and a
request is queued for it, or it has to wait. -/
theorem add_paths (d : Driver) :
    (∃ err, msmMinidumpAddRegion cfg alloc e d = (d, .error err)) ∨
    (validateRegion cfg e = .ok () ∧ d.numRegions < maxNumEntries ∧
      ((d.isRmMinidump = false ∧ tocEnabled d = true ∧
          d.minidumpTable.mdSsToc.ssRegionCount < maxNumEntries ∧
          mdEntryNum d e = .error .ENOENT ∧
          msmMinidumpAddRegion cfg alloc e d = (addedRegion cfg e d, .ok d.numRegions)) ∨
        (d.isRmMinidump = true ∧ d.mdInitDone = true ∧ mdRmEntryNum d e = .error .ENOENT ∧
          msmMinidumpAddRegion cfg alloc e d = (queuedRegion cfg e d, .ok d.numRegions)) ∨
        ((d.isRmMinidump = false → tocEnabled d = false) ∧
          (d.isRmMinidump = true → d.mdInitDone = false) ∧ alloc = true ∧
          msmMinidumpAddRegion cfg alloc e d = (waitingRegion e d, .ok d.numRegions)))) := by
  rw [msmMinidumpAddRegion]
  cases hv : validateRegion cfg e with
  | error err => exact Or.inl ⟨_, rfl⟩
  | ok u =>
    simp only
    by_cases hn : maxNumEntries ≤ d.numRegions
    · rw [if_pos hn]
      exact Or.inl ⟨_, rfl⟩
    rw [if_neg hn]
    have hlt : d.numRegions < maxNumEntries := by omega
    by_cases hdirect : (!d.isRmMinidump && tocEnabled d) = true
    · rw [if_pos hdirect]
      rw [Bool.and_eq_true, Bool.not_eq_true'] at hdirect
      by_cases hc : maxNumEntries ≤ d.minidumpTable.mdSsToc.ssRegionCount
      · rw [if_pos hc]
        exact Or.inl ⟨_, rfl⟩
      rw [if_neg hc]
      cases hm : mdEntryNum d e with
      | ok i => exact Or.inl ⟨_, rfl⟩
      | error err =>
        obtain ⟨rfl, -⟩ := firstNamed_eq_error.mp hm
        exact Or.inr ⟨trivial, hlt, Or.inl ⟨hdirect.1, hdirect.2, by omega, rfl, rfl⟩⟩
    rw [if_neg hdirect]
    by_cases hrm : (d.isRmMinidump && d.mdInitDone) = true
    · rw [if_pos hrm]
      rw [Bool.and_eq_true] at hrm
      cases hm : mdRmEntryNum d e with
      | ok i => exact Or.inl ⟨_, rfl⟩
      | error err =>
        obtain ⟨rfl, -⟩ := firstNamed_eq_error.mp hm
        cases alloc with
        | false => exact Or.inl ⟨_, rfl⟩
        | true => exact Or.inr ⟨trivial, hlt, Or.inr (Or.inl ⟨hrm.1, hrm.2, rfl, rfl⟩)⟩
    rw [if_neg hrm]
    rw [Bool.and_eq_true, Bool.not_eq_true', not_and, Bool.not_eq_true] at hdirect
    rw [Bool.and_eq_true, not_and, Bool.not_eq_true] at hrm
    cases alloc with
    | false => exact Or.inl ⟨_, rfl⟩
    | true => exact Or.inr ⟨trivial, hlt, Or.inr (Or.inr ⟨hdirect, hrm, rfl, rfl⟩)⟩

theorem admits_of_valid {d : Driver} (hv : validateRegion cfg e = .ok ())
    (hn : d.numRegions < maxNumEntries) : admits cfg e d = true := by
  rw [admits, hv, decide_eq_true hn]
  rfl

theorem addsDirectly_of_path {d : Driver} (hv : validateRegion cfg e = .ok ())
    (hn : d.numRegions < maxNumEntries) (hrm : d.isRmMinidump = false) (htoc : tocEnabled d = true)
    (hc : d.minidumpTable.mdSsToc.ssRegionCount < maxNumEntries)
    (hm : mdEntryNum d e = .error .ENOENT) : addsDirectly cfg e d = true := by
  rw [addsDirectly, admits_of_valid cfg e hv hn, hrm, htoc, decide_eq_true hc, hm]
  rfl

/-- **Adding** in SMEM mode is refused and changes nothing, or the region goes into the tables
and the headers. -/
theorem add_cases (hd : Smem d) :
    (∃ err, msmMinidumpAddRegion cfg alloc e d = (d, .error err)) ∨
    (validateRegion cfg e = .ok () ∧ d.numRegions < maxNumEntries ∧
      d.minidumpTable.mdSsToc.ssRegionCount < maxNumEntries ∧ mdEntryNum d e = .error .ENOENT ∧
      msmMinidumpAddRegion cfg alloc e d = (addedRegion cfg e d, .ok d.numRegions)) := by
  rcases add_paths cfg alloc e d with
    hr | ⟨hv, hn, ⟨-, -, hc, hm, hr⟩ | ⟨hrm, -, -, -⟩ | ⟨htoc, -, -, -⟩⟩
  · exact Or.inl hr
  · exact Or.inr ⟨hv, hn, hc, hm, hr⟩
  · rw [hd.rm] at hrm
    cases hrm
  · have hoff := htoc hd.rm
    rw [hd.toc] at hoff
    cases hoff

/-- What `md_rm_update` and `md_rm_remove_region` do in RM mode: they queue a request or change
nothing. -/
theorem mdRmRequest_cases (workCmd : MinidumpEntryCmd) (alloc : Bool) (e : MdRegion) (d : Driver) :
    (mdRmRequest workCmd alloc e d).1 = d ∨
      (mdRmRequest workCmd alloc e d).1 = queueWork workCmd e d := by
  rw [mdRmRequest]
  cases mdRmEntryNum d e with
  | error err => exact Or.inl rfl
  | ok i =>
    cases alloc with
    | false => exact Or.inl rfl
    | true => exact Or.inr rfl

/-- **Updating**, in any mode and at any time: the call is refused and changes nothing; or in RM
mode it is left to the worker; or the table step refuses it and the headers are written all the
same; or both are written. -/
theorem update_paths (regno : Nat) (d : Driver) :
    ((d.mdInitDone = false ∨ validateRegion cfg e ≠ .ok () ∨ maxNumEntries ≤ regno) ∧
      msmMinidumpUpdateRegion cfg alloc regno e d = (d, .error .EINVAL)) ∨
    (d.mdInitDone = true ∧ validateRegion cfg e = .ok () ∧ regno < maxNumEntries ∧
      ((d.isRmMinidump = true ∧
          msmMinidumpUpdateRegion cfg alloc regno e d = mdRmUpdate alloc e d) ∨
        (d.isRmMinidump = false ∧
          (d.firstRemovedEntry ≤ regno ∨ ∃ err, mdEntryNum d e = .error err) ∧
          ∃ err, msmMinidumpUpdateRegion cfg alloc regno e d =
            (updatedHeaders regno e d, .error err)) ∨
        (d.isRmMinidump = false ∧ regno < d.firstRemovedEntry ∧ (∃ i, mdEntryNum d e = .ok i) ∧
          msmMinidumpUpdateRegion cfg alloc regno e d =
            (updatedHeaders regno e (updatedTables regno e d), .ok ())))) := by
  rw [msmMinidumpUpdateRegion]
  cases hdone : d.mdInitDone with
  | false => exact Or.inl ⟨Or.inl rfl, rfl⟩
  | true =>
    cases hv : validateRegion cfg e with
    | error err => exact Or.inl ⟨Or.inr (Or.inl (by simp)), rfl⟩
    | ok u =>
      simp only [Bool.not_true, Bool.false_eq_true, if_false]
      by_cases hn : maxNumEntries ≤ regno
      · rw [if_pos hn]
        exact Or.inl ⟨Or.inr (Or.inr hn), rfl⟩
      rw [if_neg hn]
      refine Or.inr ⟨trivial, trivial, by omega, ?_⟩
      cases hrm : d.isRmMinidump with
      | true => exact Or.inl ⟨rfl, rfl⟩
      | false =>
        right
        rw [if_neg Bool.false_ne_true, mdUpdateSsToc]
        by_cases hf : d.firstRemovedEntry ≤ regno
        · rw [if_pos hf]
          exact Or.inl ⟨rfl, Or.inl hf, _, rfl⟩
        rw [if_neg hf]
        cases hm : mdEntryNum d e with
        | error err => exact Or.inl ⟨rfl, Or.inr ⟨_, rfl⟩, _, rfl⟩
        | ok i => exact Or.inr ⟨rfl, by omega, ⟨i, rfl⟩, rfl⟩

/-- **Updating** a region in SMEM mode. -/
theorem update_cases (hd : Smem d) (regno : Nat) :
    ((validateRegion cfg e ≠ .ok () ∨ maxNumEntries ≤ regno) ∧
      msmMinidumpUpdateRegion cfg alloc regno e d = (d, .error .EINVAL)) ∨
    (validateRegion cfg e = .ok () ∧ regno < maxNumEntries ∧
      (d.firstRemovedEntry ≤ regno ∨ ∃ err, mdEntryNum d e = .error err) ∧
      ∃ err, msmMinidumpUpdateRegion cfg alloc regno e d =
        (updatedHeaders regno e d, .error err)) ∨
    (validateRegion cfg e = .ok () ∧ regno < maxNumEntries ∧ regno < d.firstRemovedEntry ∧
      (∃ i, mdEntryNum d e = .ok i) ∧
      msmMinidumpUpdateRegion cfg alloc regno e d =
        (updatedHeaders regno e (updatedTables regno e d), .ok ())) := by
  rcases update_paths cfg alloc e regno d with
    ⟨hwhy, hr⟩ | ⟨-, hv, hlt, ⟨hrm, -⟩ | ⟨-, hwhy, hr⟩ | ⟨-, hf, hm, hr⟩⟩
  · refine Or.inl ⟨?_, hr⟩
    rcases hwhy with hoff | hwhy
    · rw [hd.done] at hoff
      cases hoff
    · exact hwhy
  · rw [hd.rm] at hrm
    cases hrm
  · exact Or.inr (Or.inl ⟨hv, hlt, hwhy, hr⟩)
  · exact Or.inr (Or.inr ⟨hv, hlt, hf, hm, hr⟩)

theorem clearHeaders_of_none {e : MdRegion} {h : MdElfhdr} (hl : clearLookup e h = none) :
    msmMinidumpClearHeaders e h = (h, .error .EINVAL) := by
  rw [msmMinidumpClearHeaders, hl]

theorem clearHeaders_of_some {e : MdRegion} {h : MdElfhdr} {ps : Nat × Nat}
    (hl : clearLookup e h = some ps) : (msmMinidumpClearHeaders e h).2 = .ok () := by
  rw [msmMinidumpClearHeaders, hl]

/-- `md_remove_ss_toc` refuses a region before anything happens; or it shifts the tables and the
headers then refuse it, which leaves the counts as they were; or the region is gone everywhere. -/
theorem mdRemoveSsToc_cases (d : Driver) (htoc : tocEnabled d = true) :
    ((∃ err, mdRemoveSsToc e d = (d, .error err)) ∧
      ((∃ err, mdEntryNum d e = .error err) ∨
        ∃ err, (mdRegionNum d.minidumpTable e.name 0).1 = .error err)) ∨
    (∃ entryno rgno, mdEntryNum d e = .ok entryno ∧
      (mdRegionNum d.minidumpTable e.name 0).1 = .ok rgno ∧
      clearLookup e d.minidumpElfheader = none ∧
      mdRemoveSsToc e d = (shiftTables entryno rgno d, .error .EINVAL)) ∨
    (∃ entryno rgno pidx shidx, mdEntryNum d e = .ok entryno ∧
      (mdRegionNum d.minidumpTable e.name 0).1 = .ok rgno ∧
      clearLookup e d.minidumpElfheader = some (pidx, shidx) ∧
      mdRemoveSsToc e d = (removedRegion entryno rgno e d, .ok ())) := by
  simp only [mdRemoveSsToc, htoc, Bool.not_true, Bool.false_eq_true, if_false]
  cases hm : mdEntryNum d e with
  | error err => exact Or.inl ⟨⟨_, rfl⟩, Or.inl ⟨_, rfl⟩⟩
  | ok entryno =>
    cases hg : (mdRegionNum d.minidumpTable e.name 0).1 with
    | error err => exact Or.inl ⟨⟨_, rfl⟩, Or.inr ⟨_, rfl⟩⟩
    | ok rgno =>
      have helf : (shiftTables entryno rgno d).minidumpElfheader = d.minidumpElfheader := rfl
      cases hl : clearLookup e d.minidumpElfheader with
      | none =>
        refine Or.inr (Or.inl ⟨entryno, rgno, rfl, rfl, rfl, ?_⟩)
        simp only [helf, clearHeaders_of_none hl]
        rfl
      | some ps =>
        refine Or.inr (Or.inr ⟨entryno, rgno, ps.1, ps.2, rfl, rfl, rfl, ?_⟩)
        have hok := clearHeaders_of_some hl
        simp only [removedRegion, helf]
        cases hc : msmMinidumpClearHeaders e d.minidumpElfheader with
        | mk h res =>
          rw [hc] at hok
          simp only at hok
          subst hok
          rfl

/-- **Removing**, in any mode and at any time: the call is refused and changes nothing, or it is
left to the worker, or to `md_remove_ss_toc`. -/
theorem remove_paths (d : Driver) :
    ((d.mdInitDone = false ∨ (d.isRmMinidump = false ∧ tocEnabled d = false)) ∧
      msmMinidumpRemoveRegion alloc e d = (d, .error .EINVAL)) ∨
    (d.mdInitDone = true ∧ d.isRmMinidump = true ∧
      msmMinidumpRemoveRegion alloc e d = mdRmRemoveRegion alloc e d) ∨
    (d.mdInitDone = true ∧ d.isRmMinidump = false ∧ tocEnabled d = true ∧
      msmMinidumpRemoveRegion alloc e d = mdRemoveSsToc e d) := by
  rw [msmMinidumpRemoveRegion]
  cases hdone : d.mdInitDone with
  | false => exact Or.inl ⟨Or.inl rfl, rfl⟩
  | true =>
    cases hrm : d.isRmMinidump with
    | true => exact Or.inr (Or.inl ⟨rfl, rfl, rfl⟩)
    | false =>
      cases htoc : tocEnabled d with
      | false => exact Or.inl ⟨Or.inr ⟨rfl, rfl⟩, rfl⟩
      | true => exact Or.inr (Or.inr ⟨rfl, rfl, rfl, rfl⟩)

/-- **Removing** a region in SMEM mode. -/
theorem remove_cases (hd : Smem d) :
    ((∃ err, msmMinidumpRemoveRegion alloc e d = (d, .error err)) ∧
      ((∃ err, mdEntryNum d e = .error err) ∨
        ∃ err, (mdRegionNum d.minidumpTable e.name 0).1 = .error err)) ∨
    (∃ entryno rgno, mdEntryNum d e = .ok entryno ∧
      (mdRegionNum d.minidumpTable e.name 0).1 = .ok rgno ∧
      clearLookup e d.minidumpElfheader = none ∧
      msmMinidumpRemoveRegion alloc e d = (shiftTables entryno rgno d, .error .EINVAL)) ∨
    (∃ entryno rgno pidx shidx, mdEntryNum d e = .ok entryno ∧
      (mdRegionNum d.minidumpTable e.name 0).1 = .ok rgno ∧
      clearLookup e d.minidumpElfheader = some (pidx, shidx) ∧
      msmMinidumpRemoveRegion alloc e d = (removedRegion entryno rgno e d, .ok ())) := by
  have hr : msmMinidumpRemoveRegion alloc e d = mdRemoveSsToc e d := by
    rw [msmMinidumpRemoveRegion, hd.done, hd.rm, hd.toc]
    rfl
  rw [hr]
  exact mdRemoveSsToc_cases e d hd.toc

/-! ## Before the probe -/

/-- The driver before it is probed, with `l` waiting. -/
def pendingDriver (l : List MdRegion) : Driver :=
  { Driver.initial with pendingList := l, numRegions := l.length }

/-- Before the probe an accepted region is put on the pending list. -/
theorem add_pending_cases (l : List MdRegion) :
    (∃ err, msmMinidumpAddRegion cfg alloc e (pendingDriver l) = (pendingDriver l, .error err)) ∨
    (validateRegion cfg e = .ok () ∧
      msmMinidumpAddRegion cfg alloc e (pendingDriver l) =
        (pendingDriver (l ++ [e]), .ok l.length)) := by
  rcases add_paths cfg alloc e (pendingDriver l) with
    hr | ⟨hv, -, ⟨-, htoc, -⟩ | ⟨hrm, -⟩ | ⟨-, -, -, hr⟩⟩
  · exact Or.inl hr
  · cases htoc
  · cases hrm
  · refine Or.inr ⟨hv, ?_⟩
    rw [hr]
    simp [waitingRegion, pendingDriver]

/-- The driver in SMEM mode just before its pending list is drained. -/
def smemEmpty (p : Platform) (toc : MdGlobalToc) (l : List MdRegion) : Driver :=
  { pendingDriver l with
    minidumpElfheader := buildHeader p.addrs
    minidumpTable :=
      { tocMapped := true
        revision := toc.mdRevision
        mdSsToc := { probedToc p toc with mdSsTocInit := 1, mdSsEnableStatus := mdSsEnabled }
        mdRegions := Function.update (fun _ => MdSsRegion.zero) 0 (kelfRegion p)
        entry := fun _ => MdRegion.zero } }

/-- The driver in SMEM mode that was probed with `l` waiting. -/
def smemReady (cfg : Config) (p : Platform) (toc : MdGlobalToc) (l : List MdRegion) : Driver :=
  probeDone (drainSmem cfg l 0 (smemEmpty p toc l))

end Cases

/-- Everything is there for SMEM mode, and `toc` is found in SMEM. -/
structure Platform.HasSmem (p : Platform) (toc : MdGlobalToc) : Prop where
  rm : p.rm = false
  globalToc : p.globalToc = .ok (some toc)
  ready : (!toc.sizeOk || toc.mdTocInit == 0) = false
  tableAlloc : p.tableAlloc = true
  regionsAlloc : p.regionsAlloc = true

section Probe

variable {p : Platform} {l : List MdRegion} {registered : Bool} {allocs : Nat → Bool}

/-- **The probe in SMEM mode** when everything is there. -/
theorem Platform.HasSmem.probe {toc : MdGlobalToc} (h : p.HasSmem toc) :
    msmMinidumpDriverProbe cfg p registered allocs (pendingDriver l) =
      (smemReady cfg p toc l, .ok ()) := by
  simp only [msmMinidumpDriverProbe, probeTables, probeSmemTable, h.globalToc, h.ready,
    h.tableAlloc, h.regionsAlloc, msmMinidumpAddHeader, probeDrain, probeMode, h.rm, pendingDriver,
    Driver.initial, Bool.not_true, Bool.false_eq_true, if_false]
  rfl

/-- A probe in SMEM mode that comes to its end found everything. -/
theorem probe_hasSmem (hp : p.rm = false)
    (hdone : (msmMinidumpDriverProbe cfg p registered allocs (pendingDriver l)).1.mdInitDone = true) :
    ∃ toc, p.HasSmem toc := by
  have hrm : (probeMode p (pendingDriver l)).isRmMinidump = false := hp
  rw [msmMinidumpDriverProbe, probeTables, hrm, probeSmemTable] at hdone
  cases hg : p.globalToc with
  | error err =>
    rw [hg] at hdone
    exact absurd hdone Bool.false_ne_true
  | ok o =>
    rw [hg] at hdone
    cases o with
    | none => exact absurd hdone Bool.false_ne_true
    | some toc =>
      simp only [Bool.false_eq_true, if_false] at hdone
      by_cases h1 : (!toc.sizeOk || toc.mdTocInit == 0) = true
      · rw [if_pos h1] at hdone
        exact absurd hdone Bool.false_ne_true
      rw [if_neg h1] at hdone
      by_cases h2 : (!p.tableAlloc) = true
      · rw [if_pos h2] at hdone
        exact absurd hdone Bool.false_ne_true
      rw [if_neg h2] at hdone
      by_cases h3 : (!p.regionsAlloc) = true
      · rw [if_pos h3] at hdone
        exact absurd hdone Bool.false_ne_true
      rw [Bool.not_eq_true] at h1
      rw [Bool.not_eq_true, Bool.not_eq_false'] at h2 h3
      exact ⟨toc, hp, hg, h1, h2, h3⟩

end Probe

/-! ## Clients -/

/-- A call of a client.  In SMEM mode only the registration before the probe allocates. -/
inductive Call
  | add (alloc : Bool) (e : MdRegion)
  | update (regno : Nat) (e : MdRegion)
  | remove (e : MdRegion)

/-- The state after a call, and the number it returns. -/
def Call.exec (cfg : Config) : Call → Driver → Driver × Except Errno Nat
  | .add alloc e, d => msmMinidumpAddRegion cfg alloc e d
  | .update regno e, d =>
    let r := msmMinidumpUpdateRegion cfg true regno e d
    (r.1, r.2.map (fun _ => 0))
  | .remove e, d =>
    let r := msmMinidumpRemoveRegion true e d
    (r.1, r.2.map (fun _ => 0))

/-- The driver, and the region number that was returned for a name and that no removal has
named since. -/
structure Client where
  driver : Driver
  issued : CStr → Option Nat

def Client.initial : Client := ⟨Driver.initial, fun _ => none⟩

/-- What the clients know after a call. -/
def Call.issue (c : Call) (result : Except Errno Nat) (issued : CStr → Option Nat) :
    CStr → Option Nat :=
  match c, result with
  | .add _ e, .ok n => Function.update issued e.name (some n)
  | .remove e, _ => Function.update issued e.name none
  | _, _ => issued

def Client.step (cfg : Config) (s : Client) (c : Call) : Client :=
  ⟨(c.exec cfg s.driver).1, c.issue (c.exec cfg s.driver).2 s.issued⟩

/-- The clients that call `msm_minidump_add_region` before the probe, each time with or without
memory for it. -/
def preProbe (cfg : Config) (es : List (Bool × MdRegion)) : Client :=
  es.foldl (fun s be => s.step cfg (.add be.1 be.2)) Client.initial

/-- The clients after the driver was probed. -/
def Client.probe (cfg : Config) (p : Platform) (s : Client) : Client :=
  { s with driver := (msmMinidumpDriverProbe cfg p true (fun _ => true) s.driver).1 }

/-- **The clients of a driver in SMEM mode**, after calls before the probe that meet `pre`. -/
def smemClients (cfg : Config) (p : Platform) (pre : List (Bool × MdRegion) → Prop) :
    Machine Client Call where
  init s := p.rm = false ∧ s.driver.mdInitDone = true ∧
    ∃ es, pre es ∧ s = (preProbe cfg es).probe cfg p
  step s c := some (s.step cfg c)

/-- The clients before the probe, with `l` waiting. -/
structure Waiting (cfg : Config) (s : Client) (l : List MdRegion) : Prop where
  driver : s.driver = pendingDriver l
  valid : ∀ e ∈ l, validateRegion cfg e = .ok ()
  issued : ∀ name n, s.issued name = some n → l[n]?.map MdRegion.name = some name

theorem Waiting.add {s : Client} {l : List MdRegion} (h : Waiting cfg s l) (alloc : Bool)
    (e : MdRegion) :
    ∃ l', Waiting cfg (s.step cfg (.add alloc e)) l' ∧ (l' = l ∨ l' = l ++ [e]) := by
  rw [Client.step, Call.exec, h.driver]
  rcases add_pending_cases cfg alloc e l with
    ⟨err, hr⟩ | ⟨hv, hr⟩
  · refine ⟨l, ⟨?_, h.valid, ?_⟩, Or.inl rfl⟩
    · rw [hr]
    · rw [hr]
      exact h.issued
  · refine ⟨l ++ [e], ⟨?_, ?_, ?_⟩, Or.inr rfl⟩
    · rw [hr]
    · intro x hx
      rcases List.mem_append.mp hx with hold | hnew
      · exact h.valid x hold
      · rw [List.mem_singleton.mp hnew]
        exact hv
    · rw [hr]
      intro name n hn
      simp only [Call.issue] at hn
      by_cases hname : name = e.name
      · subst hname
        rw [Function.update_self, Option.some.injEq] at hn
        subst hn
        simp
      · rw [Function.update_of_ne hname] at hn
        have hold := h.issued name n hn
        have hlt : n < l.length := by
          by_contra hge
          rw [List.getElem?_eq_none (by omega)] at hold
          cases hold
        rw [List.getElem?_append_left hlt]
        exact hold

/-- What waits after the calls before the probe is a part of what was asked for, in order. -/
theorem preProbe_waiting (cfg : Config) (es : List (Bool × MdRegion)) :
    ∃ l, Waiting cfg (preProbe cfg es) l ∧ l.Sublist (es.map Prod.snd) := by
  induction es using List.reverseRecOn with
  | nil =>
    refine ⟨[], ⟨rfl, ?_, ?_⟩, List.Sublist.refl _⟩
    · intro e he
      cases he
    · intro name n hn
      cases hn
  | append_singleton es be ih =>
    obtain ⟨l, hl, hsub⟩ := ih
    have hstep : preProbe cfg (es ++ [be]) = (preProbe cfg es).step cfg (.add be.1 be.2) := by
      rw [preProbe, List.foldl_append]
      rfl
    obtain ⟨l', hl', hor⟩ := hl.add be.1 be.2
    rw [hstep, List.map_append]
    refine ⟨l', hl', ?_⟩
    rcases hor with rfl | rfl
    · exact hsub.trans (List.sublist_append_left _ _)
    · exact hsub.append (List.Sublist.refl _)

/-- **The clients after the probe**: the driver was probed with what was waiting. -/
theorem smemClients_init {p : Platform} {pre : List (Bool × MdRegion) → Prop} {s : Client}
    (h : (smemClients cfg p pre).init s) :
    ∃ es l toc, pre es ∧ l.Sublist (es.map Prod.snd) ∧
      (∀ e ∈ l, validateRegion cfg e = .ok ()) ∧ s.driver = smemReady cfg p toc l ∧
      (∀ name n, s.issued name = some n → l[n]?.map MdRegion.name = some name) ∧
      (preProbe cfg es).driver.pendingList = l := by
  obtain ⟨hp, hdone, es, hpre, rfl⟩ := h
  obtain ⟨l, hl, hsub⟩ := preProbe_waiting cfg es
  rw [Client.probe] at hdone ⊢
  rw [hl.driver] at hdone ⊢
  obtain ⟨toc, htoc⟩ := probe_hasSmem hp hdone
  refine ⟨es, l, toc, hpre, hsub, hl.valid, congrArg Prod.fst htoc.probe, hl.issued, ?_⟩
  rw [hl.driver]
  rfl

theorem smem_add (cfg : Config) (alloc : Bool) (e : MdRegion) (hd : Smem d) :
    Smem (msmMinidumpAddRegion cfg alloc e d).1 := by
  rcases add_cases cfg alloc e hd with ⟨err, hr⟩ | ⟨-, -, -, -, hr⟩
  · rw [hr]
    exact hd
  · rw [hr]
    exact ⟨hd.rm, hd.toc, hd.done⟩

theorem smem_update (cfg : Config) (alloc : Bool) (e : MdRegion) (hd : Smem d) (regno : Nat) :
    Smem (msmMinidumpUpdateRegion cfg alloc regno e d).1 := by
  rcases update_cases cfg alloc e hd regno with
    ⟨-, hr⟩ | ⟨-, -, -, err, hr⟩ | ⟨-, -, -, -, hr⟩
  · rw [hr]
    exact hd
  · rw [hr]
    exact ⟨hd.rm, hd.toc, hd.done⟩
  · rw [hr]
    exact ⟨hd.rm, hd.toc, hd.done⟩

theorem smem_remove (alloc : Bool) (e : MdRegion) (hd : Smem d) :
    Smem (msmMinidumpRemoveRegion alloc e d).1 := by
  rcases remove_cases alloc e hd with
    ⟨⟨err, hr⟩, -⟩ | ⟨i, k, -, -, -, hr⟩ | ⟨i, k, p, sh, -, -, -, hr⟩
  · rw [hr]
    exact hd
  · rw [hr]
    exact ⟨hd.rm, hd.toc, hd.done⟩
  · rw [hr]
    exact ⟨hd.rm, hd.toc, hd.done⟩

end SafelinuxDbg.Minidump
