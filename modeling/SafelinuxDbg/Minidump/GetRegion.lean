import SafelinuxDbg.Minidump.TableOrder

/-!
# Asking for a region

`md_get_region` returns what is registered under a name.  In SMEM mode it copies the entry of the
driver's table.  In RM mode the table holds names only, and the addresses are read back from the
program header of the region; but the two are exchanged on the way: `phys_addr` is taken from
`p_vaddr` and `virt_addr` from `p_paddr`.

The record of the regions that are registered, as the clients know them, runs beside the driver:
`Client.completed` in SMEM mode and `System.completed` in RM mode.

* `ClientEffect`: what a call in SMEM mode does to the driver and to the record.
* `Listed`: the driver's table is the record.
* `getRegion_agrees`: in SMEM mode `md_get_region` returns what is on record, and what it returns
  finds its headers again; in RM mode it does so exactly for the regions whose two addresses are
  equal.
* `getRegion_exchanges`: so an ordinary region is returned with its addresses exchanged.
-/

namespace SafelinuxDbg.Minidump

open CMemory

/-- `md_get_region`.  The record it returns has zero in the fields it does not write. -/
def mdGetRegion (cfg : Config) (name : CStr) (d : Driver) : MdRegion :=
  if d.isRmMinidump then
    if !d.minidumpRmTable.allocated then MdRegion.zero
    else
      match firstNamed (fun i => (d.minidumpRmTable.entry i).name) d.numRegions name with
      | .error _ => MdRegion.zero
      | .ok i =>
        let hdr := d.minidumpElfheader.ehdr
        let phdr := elfProgram hdr (i + 1)
        { MdRegion.zero with
          name := (d.minidumpRmTable.entry i).name.truncate cfg.maxNameLength
          physAddr := read64 hdr (phdr + Off.pVaddr)
          virtAddr := read64 hdr (phdr + Off.pPaddr)
          size := read64 hdr (phdr + Off.pFilesz) }
  -- the probe allocates the table and maps its table of contents in one go
  else if !d.minidumpTable.tocMapped then MdRegion.zero
  else
    match firstNamed (fun i => (d.minidumpTable.entry i).name) d.numRegions name with
    | .error _ => MdRegion.zero
    | .ok i => d.minidumpTable.entry i

/-- What `md_get_region` returns for the name of `r` is `r`. -/
def Returned (cfg : Config) (d : Driver) (r : MdRegion) : Prop :=
  (mdGetRegion cfg r.name d).SameRegion r

/-- `msm_minidump_remove_region` finds a program header and a section with the addresses that
`md_get_region` returns for the name of `r`. -/
def Matched (cfg : Config) (d : Driver) (r : MdRegion) : Prop :=
  (clearFindProgram (mdGetRegion cfg r.name d) d.minidumpElfheader).isSome = true ∧
    (clearFindSection (mdGetRegion cfg r.name d) d.minidumpElfheader).isSome = true

/-- A descriptor of a region that has headers finds some with its addresses. -/
theorem Represents.found {h : MdElfhdr} {addrs : HeaderAddrs} {R : List MdRegion}
    (hr : Represents h (imageOf addrs R)) {i : Nat} (hi : i < R.length) {e : MdRegion}
    (he : e.SameRegion R[i]) :
    (clearFindProgram e h).isSome = true ∧ (clearFindSection e h).isSome = true := by
  have hs : i + 4 < (imageOf addrs R).sections.length := by
    rw [imageOf_sections_length]
    omega
  have hp : i + 1 < (imageOf addrs R).programs.length := by
    rw [imageOf_programs_length]
    omega
  rw [hr.findProgram_eq, hr.findSection_eq, Image.findProgram, Image.findSection,
    List.findIdx?_isSome, List.findIdx?_isSome, List.any_eq_true, List.any_eq_true]
  refine ⟨⟨_, List.getElem_mem hp, ?_⟩, ⟨_, List.getElem_mem hs, ?_⟩⟩
  · rw [imageOf_programs_getElem addrs R hi hp, he.physAddr, he.size]
    simp only [regionProgram, beq_self_eq_true, Bool.and_self]
  · rw [imageOf_sections_getElem addrs R hi hs, he.name, he.virtAddr, he.size]
    simp only [regionSection, beq_self_eq_true, Bool.and_self]

theorem Returned.matched {cfg : Config} {d : Driver} {addrs : HeaderAddrs} {R : List MdRegion}
    {i : Nat} {hi : i < R.length} (h : Returned cfg d R[i])
    (hr : Represents d.minidumpElfheader (imageOf addrs R)) : Matched cfg d R[i] :=
  hr.found hi h

/-! ## The calls in SMEM mode -/

/-- What a call does to the record of the regions that are registered. -/
def Client.completed (cfg : Config) (s : Client) (c : Call) (_ : Client) (R : List MdRegion) :
    List MdRegion :=
  match c, (c.exec cfg s.driver).2 with
  | .add _ e, .ok _ => R ++ [e]
  | .update _ e, .ok _ => moveNamed e R
  | .remove e, .ok _ => dropNamed e.name R
  | _, .error _ => R

/-- No call fails half way: an update passes the number that was returned for its name, which is
below the mark, and a removal of a name that is registered finds its headers. -/
def WholeCall (cfg : Config) (s : Client) : Call → Prop
  | .add _ _ => True
  | .update regno e => validateRegion cfg e = .ok () → regno < maxNumEntries →
      s.issued e.name = some regno ∧ regno < s.driver.firstRemovedEntry
  | .remove e => e.name ∈ entryNames s.driver →
      (clearLookup e s.driver.minidumpElfheader).isSome = true

/-- The regions fit in the file, and the sizes of removals are those that regions can have. -/
def FittingCall (cfg : Config) (s : Client) : Call → Prop
  | .add _ e => addsDirectly cfg e s.driver = true → Fits (registered s.driver ++ [e])
  | .update _ _ => True
  | .remove e => e.size % 4 = 0

instance (cfg : Config) (s : Client) (c : Call) : Decidable (WholeCall cfg s c) :=
  match c with
  | .add _ _ => inferInstanceAs (Decidable True)
  | .update _ _ => inferInstanceAs (Decidable (_ → _ → _ ∧ _))
  | .remove _ => inferInstanceAs (Decidable (_ → _))

instance (cfg : Config) (s : Client) (c : Call) : Decidable (FittingCall cfg s c) :=
  match c with
  | .add _ _ => inferInstanceAs (Decidable (_ → Fits _))
  | .update _ _ => inferInstanceAs (Decidable True)
  | .remove _ => inferInstanceAs (Decidable (_ = _))

/-- **What a call does** to the driver and to the record, when none fails half way. -/
inductive ClientEffect (cfg : Config) (d : Driver) (R : List MdRegion) :
    Call → Driver → List MdRegion → Prop
  | refused {c : Call} : ClientEffect cfg d R c d R
  | added {alloc : Bool} {e : MdRegion} (hv : validateRegion cfg e = .ok ())
      (hdirect : addsDirectly cfg e d = true) (hnew : e.name ∉ R.map MdRegion.name) :
      ClientEffect cfg d R (.add alloc e) (addedRegion cfg e d) (R ++ [e])
  | moved {e : MdRegion} {i : Nat} (hi : i < R.length) (hname : R[i].name = e.name) :
      ClientEffect cfg d R (.update i e) (updatedHeaders i e (updatedTables i e d)) (moveNamed e R)
  | removed {e : MdRegion} {i pidx shidx : Nat} (hi : i < R.length) (hname : R[i].name = e.name)
      (hlookup : clearLookup e d.minidumpElfheader = some (pidx, shidx)) :
      ClientEffect cfg d R (.remove e) (removedRegion i (i + 1) e d) (dropNamed e.name R)

/-- **The driver's table is the record**, and the numbers are those of its regions. -/
structure Listed (s : Client) (R : List MdRegion) : Prop where
  numbered : Numbered s
  tables : Tables s.driver R
  distinct : (R.map MdRegion.name).Nodup

section Calls

variable {cfg : Config} {s : Client} {R : List MdRegion}

theorem effect_add (h : Listed s R) (alloc : Bool) (e : MdRegion) (t : Client) :
    ClientEffect cfg s.driver R (.add alloc e) (s.step cfg (.add alloc e)).driver
      (s.completed cfg (.add alloc e) t R) := by
  have hsmem := h.numbered.smem
  rcases add_cases cfg alloc e hsmem with ⟨err, hr⟩ | ⟨hv, hn, hc, hm, hr⟩
  · simp only [Client.step, Client.completed, Call.exec, hr]
    exact .refused
  · simp only [Client.step, Client.completed, Call.exec, hr]
    refine .added hv ?_ (h.tables.mdEntryNum_eq_error.mp hm).2
    exact addsDirectly_of_path cfg e hv hn hsmem.rm hsmem.toc hc hm

theorem effect_update (h : Listed s R) {regno : Nat} {e : MdRegion}
    (hc : WholeCall cfg s (.update regno e)) (t : Client) :
    ClientEffect cfg s.driver R (.update regno e) (s.step cfg (.update regno e)).driver
      (s.completed cfg (.update regno e) t R) := by
  have hsmem := h.numbered.smem
  -- below the mark the number names its region, so the table step does not refuse it
  have hplace : validateRegion cfg e = .ok () → regno < maxNumEntries →
      regno < s.driver.firstRemovedEntry ∧ ∃ hi : regno < R.length, R[regno].name = e.name := by
    intro hv hlt
    obtain ⟨hissued, hmark⟩ := hc hv hlt
    obtain ⟨hnum, hname⟩ := h.numbered.issued e.name regno hissued hmark
    have hi : regno < R.length := lt_of_lt_of_eq hnum h.tables.num
    rw [h.tables.entry_eq hi] at hname
    exact ⟨hmark, hi, hname⟩
  rcases update_cases cfg true e hsmem regno with
    ⟨-, hr⟩ | ⟨hv, hlt, hwhy, -⟩ | ⟨hv, hlt, -, -, hr⟩
  · simp only [Client.step, Client.completed, Call.exec, hr]
    exact .refused
  · obtain ⟨hmark, hi, hname⟩ := hplace hv hlt
    rcases hwhy with hlow | ⟨err, hm⟩
    · exact absurd hmark (Nat.not_lt.mpr hlow)
    · exact absurd (List.mem_map.mpr ⟨_, List.getElem_mem hi, hname⟩)
        (h.tables.mdEntryNum_eq_error.mp hm).2
  · obtain ⟨-, hi, hname⟩ := hplace hv hlt
    simp only [Client.step, Client.completed, Call.exec, hr]
    exact .moved hi hname

theorem effect_remove (h : Listed s R) {e : MdRegion} (hc : WholeCall cfg s (.remove e))
    (t : Client) :
    ClientEffect cfg s.driver R (.remove e) (s.step cfg (.remove e)).driver
      (s.completed cfg (.remove e) t R) := by
  have hsmem := h.numbered.smem
  -- a name that is found is that of a region, at one place in both tables
  have hfound : ∀ {i : Nat}, mdEntryNum s.driver e = .ok i → ∃ hi : i < R.length,
      R[i].name = e.name ∧ (mdRegionNum s.driver.minidumpTable e.name 0).1 = .ok (i + 1) := by
    intro i hm
    obtain ⟨hlt, hname, -⟩ := firstNamed_eq_ok.mp hm
    have hi : i < R.length := lt_of_lt_of_eq hlt h.tables.num
    rw [h.tables.entry_eq hi] at hname
    exact ⟨hi, hname, (h.tables.lookups_eq h.distinct hi hname 0).2⟩
  rcases remove_cases true e hsmem with
    ⟨⟨err, hr⟩, -⟩ | ⟨i, k, hm, -, hl, -⟩ | ⟨i, k, pidx, shidx, hm, hg, hl, hr⟩
  · simp only [Client.step, Client.completed, Call.exec, hr]
    exact .refused
  · obtain ⟨hi, hname, -⟩ := hfound hm
    have hsome := hc (by
      rw [h.tables.names.1]
      exact List.mem_map.mpr ⟨_, List.getElem_mem hi, hname⟩)
    rw [hl] at hsome
    cases hsome
  · obtain ⟨hi, hname, hg'⟩ := hfound hm
    rw [hg, Except.ok.injEq] at hg'
    subst hg'
    simp only [Client.step, Client.completed, Call.exec, hr]
    exact .removed hi hname hl

/-- **Every call** has one of these effects. -/
theorem client_effect (h : Listed s R) {c : Call} (hc : WholeCall cfg s c) (t : Client) :
    ClientEffect cfg s.driver R c (s.step cfg c).driver (s.completed cfg c t R) := by
  cases c with
  | add alloc e => exact effect_add h alloc e t
  | update regno e => exact effect_update h hc t
  | remove e => exact effect_remove h hc t

/-- **The table and the record** after a call. -/
theorem ClientEffect.tables {c : Call} {d d' : Driver} {R' : List MdRegion}
    (he : ClientEffect cfg d R c d' R') (ht : Tables d R) (hnd : (R.map MdRegion.name).Nodup) :
    Tables d' R' ∧ (R'.map MdRegion.name).Nodup := by
  cases he with
  | refused => exact ⟨ht, hnd⟩
  | added hv _ hnew =>
    refine ⟨ht.add hv, ?_⟩
    rw [List.map_append, List.map_singleton, ← List.concat_eq_append]
    exact hnd.concat hnew
  | @moved e i hi hname =>
    rw [moveNamed_names]
    rw [moveNamed_eq hnd hi hname]
    exact ⟨ht.update hi e, hnd⟩
  | @removed e i _ _ hi hname _ =>
    rw [dropNamed_eq hnd hi hname, ← List.eraseIdx_map]
    exact ⟨ht.remove hi e, hnd.sublist (List.eraseIdx_sublist _ _)⟩

/-- **The headers and the record** after a call, for regions that fit. -/
theorem ClientEffect.headers {addrs : HeaderAddrs} {c : Call} {d' : Driver} {R' : List MdRegion}
    (he : ClientEffect cfg s.driver R c d' R') (h : Listed s R) (hfits : Fits R)
    (helf : Represents s.driver.minidumpElfheader (imageOf addrs R)) (hc : FittingCall cfg s c) :
    Represents d'.minidumpElfheader (imageOf addrs R') ∧ Fits R' := by
  have hroom := hfits.1
  cases he with
  | refused => exact ⟨helf, hfits⟩
  | @added alloc e hv hdirect _ =>
    have hlen := (validateRegion_eq_ok.mp hv).1
    have hmax := cfg.maxNameLength_le
    have hfits' : Fits (R ++ [e]) := by
      rw [← registered_eq h.tables]
      exact hc hdirect
    have hroom' := hfits'.1
    rw [List.length_append, List.length_singleton] at hroom'
    refine ⟨?_, hfits'⟩
    rw [imageOf_add]
    exact helf.add (by rw [imageOf_sections_length]; omega) (by omega)
  | @moved e i hi hname =>
    refine ⟨?_, hfits.moveNamed e⟩
    rw [moveNamed_eq h.distinct hi hname, imageOf_update]
    exact helf.update (by omega) e
  | @removed e i pidx shidx hi hname hlookup =>
    rw [helf.lookup] at hlookup
    obtain ⟨j, hj, rfl, rfl, hsame⟩ := lookup_imageOf_some addrs hfits hc hlookup
    have hij : i = j := names_inj h.distinct hi hj (hname.trans hsame.name)
    subst hij
    have hclear := (helf.clear hlookup (by omega)).1
    rw [hsame.size, imageOf_clear_self addrs hj] at hclear
    rw [dropNamed_eq h.distinct hi hname]
    exact ⟨hclear, hfits.eraseIdx i⟩

theorem listed_step (h : Listed s R) {c : Call} (hc : WholeCall cfg s c) (t : Client) :
    Listed (s.step cfg c) (s.completed cfg c t R) := by
  obtain ⟨ht, hnd⟩ := (client_effect h hc t).tables h.tables h.distinct
  exact ⟨numbered_step h.numbered c, ht, hnd⟩

/-- A region on record is returned as it is. -/
theorem Listed.returned (cfg : Config) (h : Listed s R) : ∀ r ∈ R, Returned cfg s.driver r := by
  intro r hr
  obtain ⟨i, hi, rfl⟩ := List.getElem_of_mem hr
  have hm := (h.tables.lookups_eq h.distinct hi rfl 0).1
  rw [mdEntryNum] at hm
  have hmapped : s.driver.minidumpTable.tocMapped = true := by
    have htoc := h.numbered.smem.toc
    rw [tocEnabled, Bool.and_eq_true] at htoc
    exact htoc.1
  have hget : mdGetRegion cfg R[i].name s.driver = R[i] := by
    rw [mdGetRegion, h.numbered.smem.rm, if_neg Bool.false_ne_true, hmapped, Bool.not_true,
      if_neg Bool.false_ne_true, hm]
    exact h.tables.entry_eq hi
  rw [Returned, hget]
  exact ⟨rfl, rfl, rfl, rfl⟩

end Calls

/-- The clients in SMEM mode after the calls `es` before the probe, with the record. -/
def smemRecorded (cfg : Config) (p : Platform) (es : List (Bool × MdRegion)) :
    Machine (Client × List MdRegion) Call :=
  (smemClients cfg p (· = es)).recording (Client.completed cfg)
    (preProbe cfg es).driver.pendingList

section SmemRuns

variable {cfg : Config} {p : Platform} {es : List (Bool × MdRegion)} {s : Client}
  {R : List MdRegion}

theorem smemClients_drained (h : (smemClients cfg p (· = es)).init s) :
    (∃ toc, s.driver = smemReady cfg p toc (preProbe cfg es).driver.pendingList) ∧
      ∀ e ∈ (preProbe cfg es).driver.pendingList, validateRegion cfg e = .ok () := by
  obtain ⟨es', l, toc, rfl, -, hvalid, hdriver, -, hlist⟩ := smemClients_init h
  rw [hlist]
  exact ⟨⟨toc, hdriver⟩, hvalid⟩

theorem listed_init (hnd : ((preProbe cfg es).driver.pendingList.map MdRegion.name).Nodup)
    (h : (smemClients cfg p (· = es)).init s) :
    Listed s (preProbe cfg es).driver.pendingList := by
  obtain ⟨⟨toc, hdriver⟩, hvalid⟩ := smemClients_drained h
  refine ⟨numbered_init h, ?_, hnd⟩
  rw [hdriver]
  exact tables_smemReady hvalid

/-- **The driver's table is the record** along every run in which no call fails half way. -/
theorem listed_reach (hnd : ((preProbe cfg es).driver.pendingList.map MdRegion.name).Nodup)
    {ok : Client × List MdRegion → Call → Prop} (hok : ∀ x c, ok x c → WholeCall cfg x.1 c)
    (h : (smemRecorded cfg p es).Reach ok (s, R)) : Listed s R := by
  refine h.invariant (I := fun x => Listed x.1 x.2) ?_ ?_
  · rintro ⟨s, R⟩ ⟨hs, hR⟩
    cases hR
    exact listed_init hnd hs
  · rintro ⟨s, R⟩ c ⟨t, R'⟩ hinv hc hstep
    obtain ⟨hs, hR'⟩ := Machine.recording_step hstep
    cases hs
    cases hR'
    exact listed_step hinv (hok _ _ hc) (s.step cfg c)

/-- **The headers describe the record**, when nothing was waiting and the regions fit. -/
theorem headers_reach (hwaiting : (preProbe cfg es).driver.pendingList = [])
    (h : (smemRecorded cfg p es).Reach
      (fun x c => WholeCall cfg x.1 c ∧ FittingCall cfg x.1 c) (s, R)) :
    Represents s.driver.minidumpElfheader (imageOf p.addrs R) := by
  have hall : Listed s R ∧ Represents s.driver.minidumpElfheader (imageOf p.addrs R) ∧ Fits R := by
    refine h.invariant (I := fun x => Listed x.1 x.2 ∧
      Represents x.1.driver.minidumpElfheader (imageOf p.addrs x.2) ∧ Fits x.2) ?_ ?_
    · rintro ⟨s, R⟩ ⟨hs, hR⟩
      have hR' : R = [] := hR.trans hwaiting
      subst hR'
      obtain ⟨⟨toc, hdriver⟩, -⟩ := smemClients_drained hs
      have hlist := listed_init (by rw [hwaiting]; exact List.nodup_nil) hs
      rw [hwaiting] at hdriver hlist
      have helf : s.driver.minidumpElfheader = buildHeader p.addrs := by
        rw [hdriver]
        rfl
      refine ⟨hlist, ?_, fits_nil⟩
      rw [imageOf_nil]
      simp only [helf]
      exact represents_buildHeader p.addrs
    · rintro ⟨s, R⟩ c ⟨t, R'⟩ ⟨hlist, helf, hfits⟩ ⟨hwhole, hfit⟩ hstep
      obtain ⟨hs, hR'⟩ := Machine.recording_step hstep
      cases hs
      cases hR'
      exact ⟨listed_step hlist hwhole (s.step cfg c),
        (client_effect hlist hwhole (s.step cfg c)).headers hlist hfits helf hfit⟩
  exact hall.2.1

end SmemRuns

/-! ## The calls in RM mode -/

/-- The resource manager's table is there. -/
def ProbePhase.hasTables : ProbePhase → Bool
  | .mapped | .headed | .drained | .done => true
  | _ => false

section Allocated

variable {cfg : Config} {p : Platform} {s t : System}

theorem drainRm_allocated (cfg : Config) (alloc : Nat → Bool) (es : List MdRegion) :
    ∀ (n : Nat) (d : Driver), (drainRm cfg alloc es n d).1.minidumpRmTable.allocated =
      d.minidumpRmTable.allocated := by
  induction es with
  | nil =>
    intro n d
    rfl
  | cons e es ih =>
    intro n d
    rw [drainRm]
    cases alloc n with
    | false => rfl
    | true => exact ih (n + 1) (drainRmStep cfg n e es d)

theorem mdRmRequest_allocated (workCmd : MinidumpEntryCmd) (alloc : Bool) (e : MdRegion)
    (d : Driver) : (mdRmRequest workCmd alloc e d).1.minidumpRmTable.allocated =
      d.minidumpRmTable.allocated := by
  rcases mdRmRequest_cases workCmd alloc e d with hr | hr <;> rw [hr]
  rfl

theorem finish_allocated {w w' : Worker} {d d' : Driver} (h : w.finish d = some (d', w')) :
    d'.minidumpRmTable.allocated = d.minidumpRmTable.allocated := by
  obtain ⟨hdr, rfl | ⟨i, slotNum, rfl⟩ | ⟨i, rfl⟩⟩ := Worker.finish_cases h
  · rfl
  · rfl
  · rfl

/-- A call of a client leaves the resource manager's table where it is. -/
theorem add_allocated (cfg : Config) (alloc : Bool) (e : MdRegion) (s : System) :
    (s.stepAdd cfg alloc e).phase = s.phase ∧
      (s.stepAdd cfg alloc e).driver.minidumpRmTable.allocated =
        s.driver.minidumpRmTable.allocated := by
  rw [System.stepAdd]
  rcases add_paths cfg alloc e s.driver with
    ⟨err, hr⟩ | ⟨-, -, ⟨-, -, -, -, hr⟩ | ⟨-, -, -, hr⟩ | ⟨-, -, -, hr⟩⟩
  all_goals
    rw [hr]
    exact ⟨rfl, rfl⟩

theorem update_allocated (hf : RmFrame s) (alloc : Bool) (regno : Nat) (e : MdRegion) :
    (msmMinidumpUpdateRegion cfg alloc regno e s.driver).1.minidumpRmTable.allocated =
      s.driver.minidumpRmTable.allocated := by
  rcases update_paths cfg alloc e regno s.driver with
    ⟨-, hr⟩ | ⟨hdone, -, -, ⟨-, hr⟩ | ⟨hrm, -⟩ | ⟨hrm, -⟩⟩
  · rw [hr]
  · rw [hr]
    exact mdRmRequest_allocated .minidumpUpdate alloc e s.driver
  · rw [hf.rm hdone] at hrm
    cases hrm
  · rw [hf.rm hdone] at hrm
    cases hrm

theorem remove_allocated (hf : RmFrame s) (alloc : Bool) (e : MdRegion) :
    (msmMinidumpRemoveRegion alloc e s.driver).1.minidumpRmTable.allocated =
      s.driver.minidumpRmTable.allocated := by
  rcases remove_paths alloc e s.driver with ⟨-, hr⟩ | ⟨-, -, hr⟩ | ⟨hdone, hrm, -⟩
  · rw [hr]
  · rw [hr]
    exact mdRmRequest_allocated .minidumpRemove alloc e s.driver
  · rw [hf.rm hdone] at hrm
    cases hrm

theorem probeTables_allocated (hrm : s.driver.isRmMinidump = true)
    (h : (s.stepProbeTables p).phase.hasTables = true) :
    (s.stepProbeTables p).driver.minidumpRmTable.allocated = true := by
  rw [System.stepProbeTables, probeTables, hrm, if_pos rfl, probeRmTable] at h ⊢
  cases hinfo : p.rmInfo with
  | error err =>
    rw [hinfo] at h
    cases h
  | ok n =>
    rw [hinfo] at h
    cases htable : p.tableAlloc with
    | false =>
      rw [htable] at h
      cases h
    | true =>
      rw [htable] at h
      cases hwq : p.wqAlloc with
      | false =>
        rw [hwq] at h
        cases h
      | true => rfl

theorem drain_allocated (hrm : s.driver.isRmMinidump = true) (alloc : Nat → Bool) :
    (s.stepProbeDrain cfg alloc).driver.minidumpRmTable.allocated =
      s.driver.minidumpRmTable.allocated := by
  have hsame := drainRm_allocated cfg alloc s.driver.pendingList 0 s.driver
  rw [System.stepProbeDrain, probeDrain, hrm, if_pos rfl]
  cases hd : drainRm cfg alloc s.driver.pendingList 0 s.driver with
  | mk d res =>
    rw [hd] at hsame
    cases res with
    | error err => exact hsame
    | ok u => exact hsame

/-- The table is allocated before the probe goes on, and is never given back. -/
theorem allocated_step (hf : RmFrame s)
    (halloc : s.phase.hasTables = true → s.driver.minidumpRmTable.allocated = true) {a : Action}
    (h : s.step cfg p a = some t) :
    t.phase.hasTables = true → t.driver.minidumpRmTable.allocated = true := by
  have hkeeps : t.phase = s.phase → t.driver.minidumpRmTable.allocated =
      s.driver.minidumpRmTable.allocated →
      t.phase.hasTables = true → t.driver.minidumpRmTable.allocated = true := by
    intro hphase hsame
    rw [hphase, hsame]
    exact halloc
  cases System.step_cases h with
  | add alloc e =>
    obtain ⟨hphase, hsame⟩ := add_allocated cfg alloc e s
    exact hkeeps hphase hsame
  | update alloc regno e => exact hkeeps rfl (update_allocated hf alloc regno e)
  | remove alloc e => exact hkeeps rfl (remove_allocated hf alloc e)
  | probeMode _ =>
    intro htables
    cases htables
  | probeTables hphase => exact probeTables_allocated (hf.mode (by rw [hphase]; decide))
  | probeHeader reply hphase _ =>
    intro _
    have hrm : s.driver.isRmMinidump = true := hf.mode (by rw [hphase]; decide)
    have hbefore := halloc (by rw [hphase]; rfl)
    simp only [System.stepProbeHeader, msmMinidumpAddHeader, hrm, if_true]
    split <;> exact hbefore
  | probeDrain alloc hphase =>
    intro _
    rw [drain_allocated (hf.mode (by rw [hphase]; decide))]
    exact halloc (by rw [hphase]; rfl)
  | probeDone hphase =>
    intro _
    exact halloc (by rw [hphase]; rfl)
  | dequeue hwork hphase =>
    apply hkeeps hphase
    rw [System.stepDequeue] at hwork
    split at hwork
    case h_1 request rest _ _ =>
      cases hwork
      rcases minidumpRmWork_cases request { s.driver with
          minidumpRmTable := { s.driver.minidumpRmTable with minidumpRmWq := rest } } with
        hr | ⟨i, hr⟩
      · simp only [hr]
      · simp only [hr]
        rfl
    case h_2 => cases hwork
  | register reply hwork hphase =>
    obtain ⟨-, hdriver⟩ := order_register cfg hwork
    exact hkeeps hphase (by rw [hdriver])
  | deregister ok hwork hphase =>
    obtain ⟨-, hdriver⟩ := order_deregister cfg hf hwork
    exact hkeeps hphase (by rw [hdriver])
  | finish hwork hphase =>
    apply hkeeps hphase
    rw [System.stepFinish] at hwork
    split at hwork
    case h_1 => cases hwork
    case h_2 d w hfinish =>
      cases hwork
      exact finish_allocated hfinish

end Allocated

/-- All interleavings in RM mode, with the record. -/
def rmRecorded (cfg : Config) (p : Platform) : Machine (System × List MdRegion) Action :=
  (minidumpSystem cfg p).recording System.completed []

theorem rmRecorded_init {cfg : Config} {p : Platform} :
    (rmRecorded cfg p).init (System.initial, []) := ⟨rfl, rfl⟩

section RmRuns

variable {cfg : Config} {p : Platform} {s : System} {R : List MdRegion}

theorem allocated_reach (hp : p.rm = true) {ok : System → Action → Prop}
    (h : (minidumpSystem cfg p).Reach ok s) :
    s.phase.hasTables = true → s.driver.minidumpRmTable.allocated = true := by
  have hall : RmFrame s ∧
      (s.phase.hasTables = true → s.driver.minidumpRmTable.allocated = true) := by
    refine h.invariant (I := fun s => RmFrame s ∧
      (s.phase.hasTables = true → s.driver.minidumpRmTable.allocated = true)) ?_ ?_
    · intro s hs
      cases hs
      refine ⟨rmFrame_init, ?_⟩
      intro htables
      cases htables
    · intro s a t ⟨hf, halloc⟩ _ hstep
      exact ⟨(rm_step hp hf hstep).1, allocated_step hf halloc hstep⟩
  exact hall.2

/-- **What `md_get_region` returns in RM mode** for a region with headers: the two addresses are
exchanged. -/
theorem InOrder.getRegion {addrs : HeaderAddrs} (h : InOrder cfg addrs R s)
    (hrm : s.driver.isRmMinidump = true) (halloc : s.driver.minidumpRmTable.allocated = true)
    {i : Nat} (hi : i < R.length) :
    mdGetRegion cfg R[i].name s.driver =
      ⟨R[i].name, 0, R[i].physAddr, R[i].virtAddr, R[i].size⟩ := by
  have hself := h.names_getElem? hi
  have hnum : i < s.driver.numRegions := by
    obtain ⟨hlen, -⟩ := List.getElem?_eq_some_iff.mp hself
    rwa [rmNames_length] at hlen
  have hentry : (s.driver.minidumpRmTable.entry i).name = R[i].name := by
    rw [rmNames_getElem? hnum, Option.some.injEq] at hself
    exact hself
  have hfound : firstNamed (fun i => (s.driver.minidumpRmTable.entry i).name) s.driver.numRegions
      R[i].name = .ok i := by
    rw [firstNamed_eq_ok]
    refine ⟨hnum, hentry, ?_⟩
    intro j hj hname
    have hother : (rmNames s.driver)[j]? = some R[i].name := by
      rw [rmNames_getElem? (by omega), hname]
    have := h.place_eq hi hother
    omega
  have hheaders := h.elf.headersOf hi
  rw [mdGetRegion, hrm, if_pos rfl, halloc, Bool.not_true, if_neg Bool.false_ne_true, hfound]
  simp only [hentry, CStr.truncate_of_le (h.short _ (List.getElem_mem hi)), hheaders.pVaddr,
    hheaders.pPaddr, hheaders.pFilesz]
  rfl

/-- So it returns the region if its addresses are equal, and only then. -/
theorem InOrder.returned_iff {addrs : HeaderAddrs} (h : InOrder cfg addrs R s)
    (hrm : s.driver.isRmMinidump = true) (halloc : s.driver.minidumpRmTable.allocated = true)
    {r : MdRegion} (hr : r ∈ R) :
    (Returned cfg s.driver r ∧ Matched cfg s.driver r) ↔ r.virtAddr = r.physAddr := by
  obtain ⟨i, hi, rfl⟩ := List.getElem_of_mem hr
  have hget := h.getRegion hrm halloc hi
  have hiff : Returned cfg s.driver R[i] ↔ R[i].virtAddr = R[i].physAddr := by
    rw [Returned, hget]
    constructor
    · intro hsame
      exact hsame.virtAddr.symm
    · intro heq
      exact ⟨rfl, heq.symm, heq, rfl⟩
  constructor
  · rintro ⟨hreturned, -⟩
    exact hiff.mp hreturned
  · intro heq
    have hreturned := hiff.mpr heq
    exact ⟨hreturned, hreturned.matched h.elf⟩

theorem rm_returned_iff (hp : p.rm = true)
    (h : (rmRecorded cfg p).Reach
      (fun x a => orderOk cfg x.1 a = true ∧ registersHeader a = true) (s, R))
    (hprobe : s.phase ≠ .stopped) (hpending : s.driver.pendingList = []) {r : MdRegion}
    (hr : r ∈ R) :
    (Returned cfg s.driver r ∧ Matched cfg s.driver r) ↔ r.virtAddr = r.physAddr := by
  have hinv := orderInv_reach hp h
  cases hearly : s.phase.early with
  | true =>
    -- nothing is complete yet
    have hnil : R = [] := (hinv.early hearly).1
    rw [hnil] at hr
    cases hr
  | false =>
    have hlate : s.phase.late = true ∧ s.phase.hasTables = true ∧ s.phase ≠ .start := by
      generalize s.phase = phase at hprobe hearly
      cases phase with
      | stopped => exact absurd rfl hprobe
      | drained => decide
      | done => decide
      | _ => cases hearly
    obtain ⟨hlate, htables, hstart⟩ := hlate
    exact (hinv.late hlate hpending).returned_iff (hinv.frame.mode hstart)
      (allocated_reach hp h.forget htables) hr

end RmRuns

/-! ## Every run -/

/-- **`md_get_region` agrees with the registrations.**  In SMEM mode it returns every region as it
is on record, if no call failed half way and those that waited for the probe had different names;
and what it returns finds its headers, if nothing waited and the regions fit.  In RM mode, when the
table is in order, this is so for the regions whose virtual and physical address are equal, and for
no others. -/
theorem getRegion_agrees (cfg : Config) (p : Platform) :
    (∀ es s R, ((preProbe cfg es).driver.pendingList.map MdRegion.name).Nodup →
      (smemRecorded cfg p es).Reach (fun x c => WholeCall cfg x.1 c) (s, R) →
      ∀ r ∈ R, Returned cfg s.driver r) ∧
    (∀ es s R, (preProbe cfg es).driver.pendingList = [] →
      (smemRecorded cfg p es).Reach
        (fun x c => WholeCall cfg x.1 c ∧ FittingCall cfg x.1 c) (s, R) →
      ∀ r ∈ R, Returned cfg s.driver r ∧ Matched cfg s.driver r) ∧
    (p.rm = true → ∀ s R, (rmRecorded cfg p).Reach
        (fun x a => orderOk cfg x.1 a = true ∧ registersHeader a = true) (s, R) →
      s.phase ≠ .stopped → s.driver.pendingList = [] →
      ∀ r ∈ R, (Returned cfg s.driver r ∧ Matched cfg s.driver r) ↔ r.virtAddr = r.physAddr) := by
  refine ⟨?_, ?_, ?_⟩
  · intro es s R hnd h
    exact (listed_reach hnd (fun _ _ hc => hc) h).returned cfg
  · intro es s R hwaiting h r hr
    have hnd : ((preProbe cfg es).driver.pendingList.map MdRegion.name).Nodup := by
      rw [hwaiting]
      exact List.nodup_nil
    have hreturned := (listed_reach hnd (fun _ _ hc => hc.1) h).returned cfg r hr
    obtain ⟨i, hi, rfl⟩ := List.getElem_of_mem hr
    exact ⟨hreturned, hreturned.matched (headers_reach hwaiting h)⟩
  · intro hp s R h hprobe hpending r hr
    exact rm_returned_iff hp h hprobe hpending hr

/-- A region that waited for the probe; an update and a removal in SMEM mode; and in RM mode a
region that is mapped at its physical address. -/
theorem getRegion_agrees_kmsg :
    let kmsg : MdRegion := ⟨CStr.ofString "KMSG", 0, 0x1000, 0x81000000, 64⟩
    let kirq : MdRegion := ⟨CStr.ofString "KIRQ", 0, 0x2000, 0x82000000, 4⟩
    let moved : MdRegion := ⟨CStr.ofString "KIRQ", 0, 0x3000, 0x83000000, 4⟩
    let flat : MdRegion := ⟨CStr.ofString "FLAT", 0, 0x84000000, 0x84000000, 8⟩
    let smem := Platform.plain false
    (∃ s, (smemRecorded Config.plain smem [(true, kmsg)]).run
        (fun x c => decide (WholeCall Config.plain x.1 c))
        ((preProbe Config.plain [(true, kmsg)]).probe Config.plain smem, [kmsg])
        [.add true kirq] = some (s, [kmsg, kirq]) ∧
      Returned Config.plain s.driver kmsg) ∧
    (∃ s, (smemRecorded Config.plain smem []).run
        (fun x c => decide (WholeCall Config.plain x.1 c ∧ FittingCall Config.plain x.1 c))
        (plainClient [], []) [.add true kmsg, .add true kirq, .update 1 moved, .remove kmsg] =
          some (s, [moved]) ∧
      Returned Config.plain s.driver moved ∧ Matched Config.plain s.driver moved) ∧
    (∃ s, (rmRecorded Config.plain (Platform.plain true)).run
        (fun x a => orderOk Config.plain x.1 a && registersHeader a) (System.initial, [])
        (rmProbe ++ [.add true flat, .dequeue, .register (some 1), .finish]) = some (s, [flat]) ∧
      Returned Config.plain s.driver flat ∧ Matched Config.plain s.driver flat) := by
  intro kmsg kirq moved flat smem
  refine ⟨?_, ?_, ?_⟩
  · have hrun : ((smemRecorded Config.plain smem [(true, kmsg)]).run
        (fun x c => decide (WholeCall Config.plain x.1 c))
        ((preProbe Config.plain [(true, kmsg)]).probe Config.plain smem, [kmsg])
        [.add true kirq]).any (fun x => decide (x.2 = [kmsg, kirq])) = true := by decide +kernel
    obtain ⟨⟨s, R⟩, hs, hR⟩ := (Option.any_eq_true _ _).mp hrun
    have hR' : R = [kmsg, kirq] := of_decide_eq_true hR
    subst hR'
    have hwaiting : (preProbe Config.plain [(true, kmsg)]).driver.pendingList = [kmsg] := by
      decide +kernel
    refine ⟨s, hs, (getRegion_agrees Config.plain smem).1 [(true, kmsg)] s _ ?_ (.of_run
      (fun _ _ hc => of_decide_eq_true hc) (.init ⟨⟨rfl, rfl, _, rfl, rfl⟩, hwaiting.symm⟩) hs)
      kmsg List.mem_cons_self⟩
    rw [hwaiting]
    decide
  · have hrun : ((smemRecorded Config.plain smem []).run
        (fun x c => decide (WholeCall Config.plain x.1 c ∧ FittingCall Config.plain x.1 c))
        (plainClient [], [])
        [.add true kmsg, .add true kirq, .update 1 moved, .remove kmsg]).any
        (fun x => decide (x.2 = [moved])) = true := by decide +kernel
    obtain ⟨⟨s, R⟩, hs, hR⟩ := (Option.any_eq_true _ _).mp hrun
    have hR' : R = [moved] := of_decide_eq_true hR
    subst hR'
    exact ⟨s, hs, (getRegion_agrees Config.plain smem).2.1 [] s _ rfl (.of_run
      (fun _ _ hc => of_decide_eq_true hc) (.init ⟨plainClient_init, rfl⟩) hs) moved
      List.mem_cons_self⟩
  · have hrun : ((rmRecorded Config.plain (Platform.plain true)).run
        (fun x a => orderOk Config.plain x.1 a && registersHeader a) (System.initial, [])
        (rmProbe ++ [.add true flat, .dequeue, .register (some 1), .finish])).any
        (fun x => decide (x.2 = [flat]) && decide (x.1.phase = .done) &&
          decide (x.1.driver.pendingList = [])) = true := by decide +kernel
    obtain ⟨⟨s, R⟩, hs, hcheck⟩ := (Option.any_eq_true _ _).mp hrun
    rw [Bool.and_eq_true, Bool.and_eq_true] at hcheck
    obtain ⟨⟨hR, hphase⟩, hpending⟩ := hcheck
    have hR' : R = [flat] := of_decide_eq_true hR
    subst hR'
    have hphase' : s.phase = .done := of_decide_eq_true hphase
    refine ⟨s, hs, ((getRegion_agrees Config.plain (Platform.plain true)).2.2 rfl s _ (.of_run
      ?_ (.init rmRecorded_init) hs) ?_ (of_decide_eq_true hpending) flat List.mem_cons_self).mpr rfl⟩
    · intro x a hpass
      exact (Bool.and_eq_true _ _).mp hpass
    · rw [hphase']
      decide

/-- **An ordinary region in RM mode** is returned with its addresses exchanged, although every
other rule is kept. -/
theorem getRegion_exchanges :
    ¬ ∀ s R, (rmRecorded Config.plain (Platform.plain true)).Reach
        (fun x a => orderOk Config.plain x.1 a = true ∧ registersHeader a = true) (s, R) →
      s.driver.mdInitDone = true → s.driver.pendingList = [] →
      ∀ r ∈ R, Returned Config.plain s.driver r := by
  intro h
  let kmsg : MdRegion := ⟨CStr.ofString "KMSG", 0, 0x1000, 0x81000000, 64⟩
  have hrun : ((rmRecorded Config.plain (Platform.plain true)).run
      (fun x a => orderOk Config.plain x.1 a && registersHeader a) (System.initial, [])
      (rmProbe ++ [.add true kmsg, .dequeue, .register (some 1), .finish])).any
      (fun x => decide (x.2 = [kmsg]) && x.1.driver.mdInitDone &&
        decide (x.1.driver.pendingList = []) &&
        decide ((mdGetRegion Config.plain kmsg.name x.1.driver).virtAddr = 0x81000000)) = true := by
    decide +kernel
  obtain ⟨⟨s, R⟩, hs, hcheck⟩ := (Option.any_eq_true _ _).mp hrun
  rw [Bool.and_eq_true, Bool.and_eq_true, Bool.and_eq_true] at hcheck
  obtain ⟨⟨⟨hR, hdone⟩, hpending⟩, hvirt⟩ := hcheck
  have hR' : R = [kmsg] := of_decide_eq_true hR
  subst hR'
  have hsame := (h s _ (.of_run (fun x a hpass => (Bool.and_eq_true _ _).mp hpass)
    (.init rmRecorded_init) hs) hdone (of_decide_eq_true hpending) kmsg List.mem_cons_self).virtAddr
  rw [of_decide_eq_true hvirt] at hsame
  exact absurd hsame (by decide)

end SafelinuxDbg.Minidump
