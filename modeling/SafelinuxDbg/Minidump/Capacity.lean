import SafelinuxDbg.Lib.Numerals
import SafelinuxDbg.Minidump.RegionNumbers

/-!
# How many regions can still be added

In SMEM mode `msm_minidump_add_region` compares two counts with `MAX_NUM_ENTRIES`: `num_regions`, and
`ss_region_count`, which starts from one because the header buffer has a record of its own.  The
second one is reached first.  `msm_minidump_get_available_region` looks at `num_regions` only, and so
it always reports one region too many.

* `addRegions_getElem?`: what becomes of regions that are added one after the other.
* `exists_freshFor`: there are always more regions to add.
* `available_one_too_many`: the report is wrong in every state that is reached.
-/

namespace SafelinuxDbg.Minidump

open CMemory

/-- `msm_minidump_get_available_region`, where `info` is what `gh_rm_minidump_get_info` returns. -/
def msmMinidumpGetAvailableRegion (info : Int) (d : Driver) : Int :=
  if d.isRmMinidump then info else maxNumEntries - d.numRegions

/-- What `msm_minidump_add_region` returns for regions that are added one after the other, each time
with or without memory for it. -/
def addRegions (cfg : Config) : List (Bool × MdRegion) → Driver → List (Except Errno Nat)
  | [], _ => []
  | (alloc, e) :: es, d =>
    let r := msmMinidumpAddRegion cfg alloc e d
    r.2 :: addRegions cfg es r.1

/-- Valid descriptors, with names that differ and are not registered yet. -/
structure FreshFor (cfg : Config) (d : Driver) (es : List (Bool × MdRegion)) : Prop where
  valid : ∀ e ∈ es, validateRegion cfg e.2 = .ok ()
  distinct : (es.map fun e => e.2.name).Nodup
  unregistered : ∀ e ∈ es, e.2.name ∉ entryNames d

/-- Exactly `n` more regions can be added: the first `n` succeed, whichever they are, and the next one
is refused with `-ENOMEM`. -/
def Accepts (cfg : Config) (d : Driver) (n : Int) : Prop :=
  ∀ es, FreshFor cfg d es → ∀ (i : Nat) r, (addRegions cfg es d)[i]? = some r →
    ((i : Int) < n → ∃ regno, r = .ok regno) ∧ ((i : Int) = n → r = .error .ENOMEM)

/-! ## Adding regions -/

section Adding

variable {cfg : Config} {d : Driver}

theorem mdEntryNum_eq_error {e : MdRegion} :
    mdEntryNum d e = .error .ENOENT ↔ e.name ∉ entryNames d := by
  rw [mdEntryNum, firstNamed_eq_error, mem_entryNames]
  constructor
  · rintro ⟨-, hother⟩ ⟨i, hi, hname⟩
    exact hother i hi hname
  · intro hnew
    exact ⟨rfl, fun i hi hname => hnew ⟨i, hi, hname⟩⟩

/-- A fresh region is added while there is room in the region table, and refused otherwise. -/
theorem add_fresh (hd : Smem d) (hcount : d.minidumpTable.mdSsToc.ssRegionCount = d.numRegions + 1)
    (alloc : Bool) {e : MdRegion} (hv : validateRegion cfg e = .ok ()) (hnew : e.name ∉ entryNames d) :
    msmMinidumpAddRegion cfg alloc e d =
      if d.numRegions < 200 then (addedRegion cfg e d, .ok d.numRegions) else (d, .error .ENOMEM) := by
  have hdirect : (!d.isRmMinidump && tocEnabled d) = true := by
    rw [hd.rm, hd.toc]
    rfl
  rw [msmMinidumpAddRegion, hv]
  simp only [hdirect, if_true, hcount, maxNumEntries_eq, mdEntryNum_eq_error.mpr hnew]
  by_cases hroom : d.numRegions < 200
  · rw [if_neg (by omega), if_neg (by omega), if_pos hroom]
    rfl
  · rw [if_neg hroom]
    split
    · rfl
    · rw [if_pos (by omega)]

theorem FreshFor.tail {alloc : Bool} {e : MdRegion} {es : List (Bool × MdRegion)}
    (h : FreshFor cfg d ((alloc, e) :: es)) : FreshFor cfg d es where
  valid x hx := h.valid x (List.mem_cons_of_mem _ hx)
  distinct := (List.nodup_cons.mp h.distinct).2
  unregistered x hx := h.unregistered x (List.mem_cons_of_mem _ hx)

/-- What is fresh stays so when the first region is added. -/
theorem FreshFor.added {alloc : Bool} {e : MdRegion} {es : List (Bool × MdRegion)}
    (h : FreshFor cfg d ((alloc, e) :: es)) : FreshFor cfg (addedRegion cfg e d) es where
  valid := h.tail.valid
  distinct := h.tail.distinct
  unregistered x hx := by
    rw [entryNames_added (h.valid _ List.mem_cons_self), List.mem_append, List.mem_singleton]
    rintro (hold | hname)
    · exact h.tail.unregistered x hx hold
    · exact (List.nodup_cons.mp h.distinct).1 (List.mem_map.mpr ⟨x, hx, hname⟩)

/-- **Fresh regions one after the other** get the next numbers, up to 199, and then no more. -/
theorem addRegions_getElem? {es : List (Bool × MdRegion)} :
    ∀ {d : Driver}, Smem d → d.minidumpTable.mdSsToc.ssRegionCount = d.numRegions + 1 →
      FreshFor cfg d es → ∀ {i : Nat}, i < es.length →
        (addRegions cfg es d)[i]? =
          some (if d.numRegions + i < 200 then .ok (d.numRegions + i) else .error .ENOMEM) := by
  induction es with
  | nil => exact fun _ _ _ _ hi => absurd hi (Nat.not_lt_zero _)
  | cons x es ih =>
    obtain ⟨alloc, e⟩ := x
    intro d hd hcount hfresh i hi
    have hv := hfresh.valid _ List.mem_cons_self
    have hadd := add_fresh hd hcount alloc hv (hfresh.unregistered _ List.mem_cons_self)
    rw [addRegions, hadd]
    cases i with
    | zero =>
      rw [List.getElem?_cons_zero, Nat.add_zero]
      split
      · rfl
      · rfl
    | succ i =>
      have hi' : i < es.length := Nat.lt_of_succ_lt_succ hi
      rw [List.getElem?_cons_succ]
      by_cases hroom : d.numRegions < 200
      · have hsmem : Smem (addedRegion cfg e d) := ⟨hd.rm, hd.toc, hd.done⟩
        have hcount' : (addedRegion cfg e d).minidumpTable.mdSsToc.ssRegionCount =
            (addedRegion cfg e d).numRegions + 1 := by
          simp only [addedRegion, mdAddSsToc, hcount]
        have hnum : (addedRegion cfg e d).numRegions + i = d.numRegions + (i + 1) := by
          simp only [addedRegion]
          omega
        rw [if_pos hroom, ih hsmem hcount' hfresh.added hi', hnum]
      · rw [if_neg hroom, ih hd hcount hfresh.tail hi', if_neg (by omega), if_neg (by omega)]

theorem length_addRegions (cfg : Config) (es : List (Bool × MdRegion)) (d : Driver) :
    (addRegions cfg es d).length = es.length := by
  induction es generalizing d with
  | nil => rfl
  | cons x es ih =>
    rw [addRegions, List.length_cons, List.length_cons, ih]

/-- **There are always regions to add**: as many fresh ones as one likes, under numbers as names. -/
theorem exists_freshFor (cfg : Config) (d : Driver) {n : Nat} (hn : d.numRegions + n ≤ 10 ^ 9) :
    ∃ es, FreshFor cfg d es ∧ es.length = n := by
  obtain ⟨names, hnodup, hlength, hnames⟩ := exists_unused_decimals (entryNames d) n
  refine ⟨names.map fun name => (true, ⟨name, 0, 0x1000, 0, 4⟩), ⟨?_, ?_, ?_⟩, ?_⟩
  · intro e he
    obtain ⟨name, hname, rfl⟩ := List.mem_map.mp he
    obtain ⟨-, k, hk, rfl⟩ := hnames name hname
    have hused : (entryNames d).length = d.numRegions := by
      rw [entryNames, List.length_map, slice_length]
    have hdigits : (decimal k).length ≤ 9 := (length_decimal_le_iff (by decide)).mpr (by omega)
    have haddr : (0x1000 : UInt64) ≠ 0 := by decide
    have hsize : (4 : UInt64) % 4 = 0 := by decide
    exact validateRegion_eq_ok.mpr ⟨Nat.le_trans hdigits cfg.le_maxNameLength, haddr, hsize⟩
  · rw [List.map_map]
    exact (List.map_id names).symm ▸ hnodup
  · intro e he
    obtain ⟨name, hname, rfl⟩ := List.mem_map.mp he
    exact (hnames name hname).1
  · rw [List.length_map, hlength]

end Adding

/-! ## The report -/

section Report

variable {cfg : Config} {d : Driver}

/-- What the report says in SMEM mode. -/
theorem getAvailableRegion_smem (hd : Smem d) (info : Int) :
    msmMinidumpGetAvailableRegion info d = 201 - d.numRegions := by
  rw [msmMinidumpGetAvailableRegion, hd.rm]
  rfl

/-- One region less than reported can be added. -/
theorem accepts_one_less (hd : Smem d)
    (hcount : d.minidumpTable.mdSsToc.ssRegionCount = d.numRegions + 1) (info : Int) :
    Accepts cfg d (msmMinidumpGetAvailableRegion info d - 1) := by
  rw [getAvailableRegion_smem hd]
  intro es hfresh i r hr
  have hi : i < es.length := by
    by_contra hge
    obtain ⟨hlt, -⟩ := List.getElem?_eq_some_iff.mp hr
    rw [length_addRegions] at hlt
    exact hge hlt
  rw [addRegions_getElem? hd hcount hfresh hi, Option.some.injEq] at hr
  subst hr
  constructor
  · intro hlt
    exact ⟨_, if_pos (by omega)⟩
  · intro heq
    exact if_neg (by omega)

/-- The region that the report promises in addition is refused. -/
theorem not_accepts_available (hd : Smem d)
    (hcount : d.minidumpTable.mdSsToc.ssRegionCount = d.numRegions + 1)
    (hnum : d.numRegions ≤ 200) (info : Int) :
    ¬ Accepts cfg d (msmMinidumpGetAvailableRegion info d) := by
  intro haccepts
  rw [getAvailableRegion_smem hd] at haccepts
  obtain ⟨es, hfresh, hlength⟩ := exists_freshFor cfg d (n := 201 - d.numRegions) (by omega)
  have hlast : (addRegions cfg es d)[200 - d.numRegions]? = some (.error .ENOMEM) := by
    rw [addRegions_getElem? hd hcount hfresh (by omega), if_neg (by omega)]
  obtain ⟨regno, hok⟩ := (haccepts es hfresh _ _ hlast).1 (by omega)
  cases hok

end Report

/-! ## Every run -/

/-- The calls before the probe left nothing waiting. -/
def NothingWaiting (cfg : Config) (es : List (Bool × MdRegion)) : Prop :=
  (preProbe cfg es).driver.pendingList = []

/-- Every removal returns 0. -/
def RemovesSucceed (cfg : Config) (s : Client) (c : Call) : Prop :=
  ∀ e, c = .remove e → (c.exec cfg s.driver).2 = .ok 0

section Runs

variable {cfg : Config} {p : Platform} {s : Client}

/-- **One call** leaves room for the header buffer in the region table. -/
theorem numRegions_step (h : Numbered s) (hnum : s.driver.numRegions ≤ 200) (c : Call) :
    (s.step cfg c).driver.numRegions ≤ 200 := by
  rw [Client.step]
  cases c with
  | add alloc e =>
    rw [Call.exec]
    rcases add_cases cfg alloc e h.smem with ⟨err, hr⟩ | ⟨-, -, hroom, -, hr⟩
    · rw [hr]
      exact hnum
    · rw [h.count, maxNumEntries_eq] at hroom
      rw [hr]
      show s.driver.numRegions + 1 ≤ 200
      omega
  | update regno e =>
    rw [Call.exec]
    rcases update_cases cfg true e h.smem regno with ⟨-, hr⟩ | ⟨-, -, -, err, hr⟩ | ⟨-, -, -, -, hr⟩
    all_goals
      rw [hr]
      exact hnum
  | remove e =>
    rw [Call.exec]
    rcases remove_cases true e h.smem with
      ⟨⟨err, hr⟩, -⟩ | ⟨i, k, -, -, -, hr⟩ | ⟨i, k, pidx, shidx, -, -, -, hr⟩
    · rw [hr]
      exact hnum
    · rw [hr]
      exact hnum
    · rw [hr]
      exact Nat.le_trans (Nat.sub_le _ _) hnum

theorem numRegions_reach {ok : Client → Call → Prop}
    (hs : (smemClients cfg p (NothingWaiting cfg)).Reach ok s) :
    Numbered s ∧ s.driver.numRegions ≤ 200 := by
  refine hs.invariant (I := fun s => Numbered s ∧ s.driver.numRegions ≤ 200) ?_ ?_
  · intro s hinit
    refine ⟨numbered_init hinit, ?_⟩
    obtain ⟨es, l, toc, hpre, -, -, hdriver, -, hl⟩ := smemClients_init hinit
    rw [NothingWaiting, hl] at hpre
    rw [hdriver, hpre]
    exact Nat.zero_le _
  · rintro s c t ⟨hs, hnum⟩ - hstep
    cases hstep
    exact ⟨numbered_step hs c, numRegions_step hs hnum c⟩

/-- **The report is always one too many.**  In every state that is reached after the probe, one region
less can be added than `msm_minidump_get_available_region` returns, so that the number it returns is
never the number of regions that can be added. -/
theorem available_one_too_many
    (hs : (smemClients cfg p (NothingWaiting cfg)).Reach (RemovesSucceed cfg) s) (info : Int) :
    ¬ Accepts cfg s.driver (msmMinidumpGetAvailableRegion info s.driver) ∧
      Accepts cfg s.driver (msmMinidumpGetAvailableRegion info s.driver - 1) := by
  obtain ⟨h, hnum⟩ := numRegions_reach hs
  exact ⟨not_accepts_available h.smem h.count hnum info, accepts_one_less h.smem h.count info⟩

end Runs

/-- The client right after the probe. -/
def probedClient : Client := (preProbe Config.plain []).probe Config.plain (Platform.plain false)

theorem probedClient_init :
    (smemClients Config.plain (Platform.plain false) (NothingWaiting Config.plain)).init
      probedClient :=
  ⟨rfl, rfl, [], rfl, rfl⟩

theorem available_one_too_many_probed :
    ¬ Accepts Config.plain probedClient.driver
        (msmMinidumpGetAvailableRegion 0 probedClient.driver) ∧
      Accepts Config.plain probedClient.driver
        (msmMinidumpGetAvailableRegion 0 probedClient.driver - 1) :=
  available_one_too_many (.init probedClient_init) 0

/-- **After the probe** 201 regions are reported, and 200 can be added. -/
theorem available_after_probe :
    ¬ ∀ s, (smemClients Config.plain (Platform.plain false) (NothingWaiting Config.plain)).Reach
        (RemovesSucceed Config.plain) s →
      Accepts Config.plain s.driver (msmMinidumpGetAvailableRegion 0 s.driver) := by
  intro hall
  have hreach : (smemClients Config.plain (Platform.plain false) (NothingWaiting Config.plain)).Reach
      (RemovesSucceed Config.plain) probedClient := .init probedClient_init
  have hnumbered := numbered_reach hreach
  exact not_accepts_available hnumbered.smem hnumbered.count (by decide) 0 (hall probedClient hreach)

end SafelinuxDbg.Minidump
