import SafelinuxDbg.Minidump.GetRegion

/-!
# Program headers that are not in use

In RM mode `md_get_region` counts its way to a program header as soon as the name is in the table,
also while the request to add the region still waits.  Then the header is one that is not in use
yet.  It reads as zero, for nothing writes behind the headers that are in use, as long as no region
is updated and none is taken out; and a region whose address is zero counts as not found.

* `mem_requests_work`, `mem_requests_add`, `mem_requests_remove`: where requests come from.
* `Unused`: the program headers behind the first `n` are not in use.
* `unused_effect`: a step keeps them so.
* `InOrder.getRegion_cases`: what `md_get_region` returns for any name.
* `adding_reach`: all this holds when the clients only ever add regions.
-/

namespace SafelinuxDbg.Minidump

open CMemory

/-! ## The requests -/

/-- The steps of the worker, with the answers of the resource manager. -/
def Action.isWork : Action → Bool
  | .dequeue | .register _ | .deregister _ | .finish => true
  | _ => false

section Requests

variable {cfg : Config} {p : Platform} {s t : System} {a : Action}

theorem minidumpRmWork_request (request : MdRmRequest) (d : Driver) :
    (minidumpRmWork request d).2.request = none ∨
      (minidumpRmWork request d).2.request = some request := by
  obtain ⟨e, workCmd⟩ := request
  cases workCmd with
  | minidumpNoCmd => exact Or.inl rfl
  | minidumpAdd =>
    simp only [minidumpRmWork, mdRmAddWork]
    cases mdRmEntryNum d e with
    | error err => exact Or.inl rfl
    | ok i => exact Or.inr rfl
  | minidumpUpdate =>
    simp only [minidumpRmWork, mdRmUpdateWork]
    cases mdRmEntryNum d e with
    | error err => exact Or.inl rfl
    | ok i => exact Or.inr rfl
  | minidumpRemove =>
    simp only [minidumpRmWork, mdRmRemoveWork]
    cases mdRmEntryNum d e with
    | error err => exact Or.inl rfl
    | ok i =>
      simp only
      split
      · exact Or.inl rfl
      · exact Or.inr rfl

theorem finish_request {w w' : Worker} {d d' : Driver} (h : w.finish d = some (d', w')) :
    w'.request = none ∨ w'.request = w.request := by
  cases w with
  | addFinish e i reply =>
    cases reply with
    | none =>
      cases h
      exact Or.inl rfl
    | some slotNum =>
      simp only [Worker.finish] at h
      split at h <;> cases h
      · exact Or.inl rfl
      · exact Or.inr rfl
  | addUnlocked e =>
    cases h
    exact Or.inl rfl
  | updateFinish e i slotNum =>
    simp only [Worker.finish] at h
    split at h <;> cases h <;> exact Or.inl rfl
  | removeFinish e i =>
    simp only [Worker.finish] at h
    split at h
    · split at h <;> cases h <;> exact Or.inl rfl
    · cases h
      exact Or.inl rfl
  | _ => cases h

/-- The worker does not make up requests. -/
theorem mem_requests_work (hf : RmFrame s) (hwork : a.isWork = true)
    (h : s.step cfg p a = some t) : ∀ q ∈ t.requests, q ∈ s.requests := by
  -- the request in hand is the one from before or none, and the queue is not longer
  have hmem : ∀ {w : Worker} {d : Driver}, (w.request = none ∨ w.request = s.worker.request) →
      d.minidumpRmTable.minidumpRmWq = s.driver.minidumpRmTable.minidumpRmWq →
      ∀ q ∈ w.request.toList ++ d.minidumpRmTable.minidumpRmWq, q ∈ s.requests := by
    intro w d hrequest hqueue q hq
    rw [hqueue] at hq
    rcases hrequest with hnone | hsame
    · rw [hnone, Option.toList_none, List.nil_append] at hq
      exact List.mem_append_right _ hq
    · rw [hsame] at hq
      exact hq
  cases a with
  | dequeue =>
    have h' : s.stepDequeue = some t := h
    rw [System.stepDequeue] at h'
    split at h'
    case h_2 => cases h'
    case h_1 request rest hidle hqueue =>
      cases h'
      intro q hq
      rw [System.requests, hidle, hqueue]
      rw [System.requests] at hq
      simp only [(minidumpRmWork_frame _ _).queue] at hq
      rcases minidumpRmWork_request request { s.driver with
          minidumpRmTable := { s.driver.minidumpRmTable with minidumpRmWq := rest } } with
        hnone | hsome
      · rw [hnone, Option.toList_none, List.nil_append] at hq
        exact List.mem_cons_of_mem _ hq
      · rw [hsome] at hq
        exact hq
  | register reply =>
    have h' : s.stepRegister reply = some t := h
    rw [System.stepRegister] at h'
    split at h'
    case h_1 => cases h'
    case h_2 i hfor =>
      split at h'
      case isFalse => cases h'
      case isTrue =>
        cases h'
        rcases registered_request hfor reply with hsame | ⟨hnone, -⟩
        · exact hmem (Or.inr hsame) rfl
        · exact hmem (Or.inl hnone) rfl
  | deregister ok =>
    have h' : s.stepDeregister ok = some t := h
    rw [System.stepDeregister] at h'
    split at h'
    case h_1 => cases h'
    case h_2 i slotNum hfor =>
      cases h'
      rcases deregistered_request hfor hf.sound ok with hsame | ⟨hnone, -⟩
      · exact hmem (Or.inr hsame) rfl
      · exact hmem (Or.inl hnone) rfl
  | finish =>
    have h' : s.stepFinish = some t := h
    rw [System.stepFinish] at h'
    split at h'
    case h_1 => cases h'
    case h_2 d w hfinish =>
      cases h'
      exact hmem (finish_request hfinish) (Worker.finish_frame hfinish).queue
  | _ => cases hwork

theorem mem_requests_concat {q r : MdRmRequest} (hqueue : t.requests = s.requests ++ [r])
    (hq : q ∈ t.requests) : q ∈ s.requests ∨ q = r := by
  rw [hqueue] at hq
  rcases List.mem_append.mp hq with hold | hnew
  · exact Or.inl hold
  · exact Or.inr (List.mem_singleton.mp hnew)

theorem mem_requests_add (hf : RmFrame s) (alloc : Bool) (e : MdRegion) :
    ∀ q ∈ (s.stepAdd cfg alloc e).requests,
      q ∈ s.requests ∨ (q = ⟨e, .minidumpAdd⟩ ∧ validateRegion cfg e = .ok ()) := by
  intro q hq
  rw [System.stepAdd] at hq
  rcases add_paths cfg alloc e s.driver with
    ⟨err, hr⟩ | ⟨hv, -, ⟨-, htoc, -⟩ | ⟨-, -, -, hr⟩ | ⟨-, -, -, hr⟩⟩
  · simp only [hr] at hq
    exact Or.inl hq
  · rw [tocEnabled, hf.unmapped] at htoc
    cases htoc
  · simp only [hr] at hq
    have hqueue : ((s.setDriver (queuedRegion cfg e s.driver)).accept e.name
        s.driver.numRegions).requests = s.requests ++ [⟨e, .minidumpAdd⟩] :=
      (List.append_assoc _ _ _).symm
    rcases mem_requests_concat hqueue hq with hold | hnew
    · exact Or.inl hold
    · exact Or.inr ⟨hnew, hv⟩
  · simp only [hr] at hq
    exact Or.inl hq

theorem mem_requests_remove (hf : RmFrame s) (alloc : Bool) (e : MdRegion) :
    ∀ q ∈ (s.setDriver (msmMinidumpRemoveRegion alloc e s.driver).1).requests,
      q ∈ s.requests ∨ q = ⟨e, .minidumpRemove⟩ := by
  intro q hq
  rcases remove_paths alloc e s.driver with ⟨-, hr⟩ | ⟨-, -, hr⟩ | ⟨hdone, hrm, -, -⟩
  · rw [hr] at hq
    exact Or.inl hq
  · rw [hr, mdRmRemoveRegion] at hq
    rcases mdRmRequest_cases .minidumpRemove alloc e s.driver with hr' | hr'
    · rw [hr'] at hq
      exact Or.inl hq
    · rw [hr'] at hq
      have hqueue : (s.setDriver (queueWork .minidumpRemove e s.driver)).requests =
          s.requests ++ [⟨e, .minidumpRemove⟩] := (List.append_assoc _ _ _).symm
      exact mem_requests_concat hqueue hq
  · rw [hf.rm hdone] at hrm
    cases hrm

/-- When the probe is done, nothing comes to wait any more. -/
theorem done_step (hf : RmFrame s) (hdone : s.phase = .done) (h : s.step cfg p a = some t) :
    t.phase = .done ∧ t.driver.pendingList = s.driver.pendingList := by
  have hstays : t.phase = .done := by
    rcases step_phase h with hsame | hprobe
    · exact hsame.trans hdone
    · rw [hdone] at hprobe
      cases hprobe
  refine ⟨hstays, ?_⟩
  have hinit : s.driver.mdInitDone = true := by
    rw [hf.initDone, hdone]
    rfl
  have hpast : ∀ {phase : ProbePhase}, phase ≠ .done → s.phase ≠ phase := by
    intro phase hne heq
    exact hne (heq.symm.trans hdone)
  cases System.step_cases h with
  | add alloc e =>
    rw [System.stepAdd]
    rcases add_paths cfg alloc e s.driver with
      ⟨err, hr⟩ | ⟨-, -, ⟨-, htoc, -⟩ | ⟨-, -, -, hr⟩ | ⟨-, hwait, -, -⟩⟩
    · simp only [hr]
      rfl
    · rw [tocEnabled, hf.unmapped] at htoc
      cases htoc
    · simp only [hr]
      rfl
    · rw [hwait (hf.rm hinit)] at hinit
      cases hinit
  | update alloc regno e => exact (@order_update cfg s hf alloc regno e).2
  | remove alloc e => exact (@order_remove cfg s hf alloc e).2
  | probeMode hphase => exact absurd hphase (hpast (by decide))
  | probeTables hphase => exact absurd hphase (hpast (by decide))
  | probeHeader reply hphase _ => exact absurd hphase (hpast (by decide))
  | probeDrain alloc hphase => exact absurd hphase (hpast (by decide))
  | probeDone hphase => exact absurd hphase (hpast (by decide))
  | dequeue hwork _ =>
    rw [System.stepDequeue] at hwork
    split at hwork
    · cases hwork
      exact (minidumpRmWork_frame _ _).pending
    · cases hwork
  | register reply hwork _ => rw [(order_register cfg hwork).2]
  | deregister ok hwork _ => rw [(order_deregister cfg hf hwork).2]
  | finish hwork _ =>
    rw [System.stepFinish] at hwork
    split at hwork
    · cases hwork
    case h_2 d w hfinish =>
      cases hwork
      exact (Worker.finish_frame hfinish).pending

end Requests

/-! ## The headers behind those in use -/

/-- The physical addresses in the program headers behind number `n` are zero. -/
def Unused (n : Nat) (h : MdElfhdr) : Prop :=
  ∀ j, n < j → j < maxNumEntries → read64 h.ehdr (phdrOff + sizeofPhdr * j + Off.pPaddr) = 0

/-- In the buffer as it is built, only the banner has a program header. -/
theorem unused_buildHeader (addrs : HeaderAddrs) : Unused 0 (buildHeader addrs) := by
  intro j hpos hlt
  rw [maxNumEntries] at hlt
  rw [buildHeader_eq, phdrOff_eq, sizeofPhdr, Off.pPaddr]
  have h1 : ((CStr.ofString "STR_TBL").bytes ++ [0]).length = 8 := by decide
  have h2 : ((CStr.ofString "minidump_table").bytes ++ [0]).length = 15 := by decide
  have h3 : ((CStr.ofString "linux_banner").bytes ++ [0]).length = 13 := by decide
  have h4 : (linuxBanner.bytes ++ [0]).length = 6 := by decide
  simp (disch := omega) only [programBytes, bannerBytes, tableBytes, strtabBytes, ehdrBytes, write64,
    write32, write16, read64_writeLE, read64_writeBytes]
  rw [read64_writeBytes _ (by simp only [List.length_cons, List.length_nil]; omega), read64_zero]

/-- An added region takes the first of them. -/
theorem Unused.add {addrs : HeaderAddrs} {R : List MdRegion} {h : MdElfhdr} {e : MdRegion}
    (hu : Unused R.length h) (hr : Represents h (imageOf addrs R)) (hname : e.name.strlen ≤ 15) :
    Unused (R.length + 1) (mdAddElfHeader e h) := by
  intro j hj hlt
  have hsections := imageOf_sections_length addrs R
  have hprograms := imageOf_programs_length addrs R
  rw [← hu j (by omega) hlt, phdrOff_eq, sizeofPhdr, Off.pPaddr]
  rw [maxNumEntries] at hlt
  apply read64_congr
  intro k hk
  apply hr.added_frame hname
  · omega
  · omega
  · omega
  · omega

section Effects

variable {cfg : Config} {addrs : HeaderAddrs} {R : List MdRegion} {s t : System}

/-- **A step keeps the headers behind those in use as they are**, if it completes neither an update
nor a removal. -/
theorem unused_effect (h : InOrder cfg addrs R s)
    (hu : Unused R.length s.driver.minidumpElfheader) {a : Action}
    (heffect : OrderEffect cfg s a t) (hupdate : ∀ e i n, s.worker ≠ .updateFinish e i n)
    (hremove : ∀ e i, s.worker = .removeFinish e i →
      clearLookup e s.driver.minidumpElfheader = none) :
    Unused (s.completed a t R).length t.driver.minidumpElfheader := by
  cases heffect with
  | quiet _ helf _ hnote =>
    rw [hnote, helf]
    exact hu
  | queue _ _ _ helf _ hnote =>
    rw [hnote, helf]
    exact hu
  | push _ _ _ _ helf _ =>
    rw [helf]
    exact hu
  | ended _ _ helf _ hnote =>
    rw [hnote, helf]
    exact hu
  | lost hmissing hrequests => exact absurd (h.not_lost hrequests) hmissing
  | refused hw _ _ helf _ =>
    simp only [System.completed, hw]
    rw [helf]
    exact hu
  | @added e i slotNum _ hw _ helf hrequests =>
    obtain ⟨hadding, -⟩ := h.names_first hrequests
    obtain ⟨hv, -⟩ := h.adding e (by rw [hadding]; exact List.mem_cons_self)
    have hname := (validateRegion_eq_ok.mp hv).1
    have hmax := cfg.maxNameLength_le
    simp only [System.completed, hw]
    rw [helf, List.length_append, List.length_singleton]
    exact hu.add h.elf (by omega)
  | updated hw => exact absurd hw (hupdate _ _ _)
  | removed hw _ hlookup =>
    rw [hremove _ _ hw] at hlookup
    cases hlookup

/-- **What `md_get_region` returns in RM mode**: nothing, or a region with its addresses
exchanged. -/
theorem InOrder.getRegion_cases (h : InOrder cfg addrs R s)
    (hu : Unused R.length s.driver.minidumpElfheader) (hrm : s.driver.isRmMinidump = true)
    (halloc : s.driver.minidumpRmTable.allocated = true) (name : CStr) :
    (mdGetRegion cfg name s.driver).virtAddr = 0 ∨ ∃ r ∈ R, r.name = name ∧
      mdGetRegion cfg name s.driver = ⟨r.name, 0, r.physAddr, r.virtAddr, r.size⟩ := by
  by_cases hmem : name ∈ R.map MdRegion.name
  · obtain ⟨r, hr, rfl⟩ := List.mem_map.mp hmem
    obtain ⟨i, hi, rfl⟩ := List.getElem_of_mem hr
    exact Or.inr ⟨R[i], hr, rfl, h.getRegion hrm halloc hi⟩
  · left
    rw [mdGetRegion, hrm, if_pos rfl, halloc, Bool.not_true, if_neg Bool.false_ne_true]
    cases hfound : firstNamed (fun i => (s.driver.minidumpRmTable.entry i).name)
        s.driver.numRegions name with
    | error err => rfl
    | ok i =>
      obtain ⟨hnum, hname, -⟩ := firstNamed_eq_ok.mp hfound
      have hplace := rmNames_getElem? hnum
      -- the entry is one of those whose requests wait
      have hbehind : R.length ≤ i := by
        by_contra hlt
        rw [h.names_getElem? (Nat.lt_of_not_le hlt), Option.some.injEq] at hplace
        exact hmem (List.mem_map.mpr ⟨_, List.getElem_mem _, hplace.trans hname⟩)
      have hroom := h.room
      rw [rmNames_length] at hroom
      have hzero := hu (i + 1) (by omega) (by rw [maxNumEntries]; omega)
      simp only [h.elf.elfProgram_eq]
      rw [phdrOff_eq, sizeofPhdr] at hzero
      exact hzero

end Effects

/-! ## When regions are only added -/

/-- The clients update and remove nothing. -/
def Action.addsOnly : Action → Bool
  | .update _ _ _ | .remove _ _ => false
  | _ => true

section Adding

variable {cfg : Config} {p : Platform} {s t : System} {R : List MdRegion} {a : Action}

/-- **The state while regions are only added**, once the pending list was drained. -/
structure Adding (R : List MdRegion) (s : System) : Prop where
  requests : ∀ q ∈ s.requests, q.workCmd = .minidumpAdd
  unused : Unused R.length s.driver.minidumpElfheader

/-- A worker that is busy with a request to add a region is at none of the other places. -/
theorem Adding.worker (h : Adding R s) :
    (∀ e i n, s.worker ≠ .updateFinish e i n) ∧ ∀ e i, s.worker ≠ .removeFinish e i := by
  have hcmd : ∀ q, s.worker.request = some q → q.workCmd = .minidumpAdd := by
    intro q hq
    apply h.requests
    rw [System.requests, hq]
    exact List.mem_cons_self
  constructor
  · intro e i n hw
    have := hcmd ⟨e, .minidumpUpdate⟩ (by rw [hw]; rfl)
    cases this
  · intro e i hw
    have := hcmd ⟨e, .minidumpRemove⟩ (by rw [hw]; rfl)
    cases this

theorem adding_drained (hf : RmFrame s) (hphase : s.phase = .headed)
    (helf : s.driver.minidumpElfheader = buildHeader p.addrs) {alloc : Nat → Bool}
    (hlate : (s.stepProbeDrain cfg alloc).phase.late = true) :
    Adding [] (s.stepProbeDrain cfg alloc) := by
  have hrm : s.driver.isRmMinidump = true := hf.mode (by rw [hphase]; decide)
  obtain ⟨hidle, hwq, -⟩ := hf.early (by rw [hphase]; rfl)
  have hframe := drainRm_frame cfg alloc s.driver.pendingList 0 s.driver
  rw [System.stepProbeDrain, probeDrain, hrm, if_pos rfl] at hlate ⊢
  cases hd : drainRm cfg alloc s.driver.pendingList 0 s.driver with
  | mk d res =>
    rw [hd] at hlate hframe
    cases res with
    | error err => cases hlate
    | ok u =>
      obtain ⟨-, hqueue⟩ := drainRm_pending rfl hd
      constructor
      · intro q hq
        rw [System.requests] at hq
        simp only [System.setDriver, hidle, hqueue, hwq, List.nil_append] at hq
        obtain ⟨e, -, rfl⟩ := List.mem_map.mp hq
        rfl
      · have hsame : d.minidumpElfheader = buildHeader p.addrs := hframe.elfheader.trans helf
        simp only [System.setDriver, hsame]
        exact unused_buildHeader p.addrs

theorem adding_late (hf : RmFrame s) (hin : InOrder cfg p.addrs R s) (h : Adding R s)
    (hlate : s.phase.late = true) (hadds : a.addsOnly = true) (hstep : s.step cfg p a = some t)
    (hpending : t.driver.pendingList = []) : Adding (s.completed a t R) t := by
  obtain ⟨heffect, -⟩ := order_step hf hlate hstep hpending
  obtain ⟨hupdate, hremove⟩ := h.worker
  refine ⟨?_, unused_effect hin h.unused heffect hupdate (fun e i hw => absurd hw (hremove e i))⟩
  have hwork : a.isWork = true → ∀ q ∈ t.requests, q.workCmd = .minidumpAdd := by
    intro hwork q hq
    exact h.requests q (mem_requests_work hf hwork hstep q hq)
  have hpast : ∀ {phase : ProbePhase}, phase.late = false → s.phase ≠ phase :=
    ProbePhase.ne_of_late hlate
  cases System.step_cases hstep with
  | add alloc e =>
    intro q hq
    rcases mem_requests_add hf alloc e q hq with hold | ⟨rfl, -⟩
    · exact h.requests q hold
    · rfl
  | update alloc regno e => cases hadds
  | remove alloc e => cases hadds
  | probeMode hphase => exact absurd hphase (hpast rfl)
  | probeTables hphase => exact absurd hphase (hpast rfl)
  | probeHeader reply hphase _ => exact absurd hphase (hpast rfl)
  | probeDrain alloc hphase => exact absurd hphase (hpast rfl)
  | probeDone _ => exact h.requests
  | dequeue _ _ => exact hwork rfl
  | register reply _ _ => exact hwork rfl
  | deregister ok _ _ => exact hwork rfl
  | finish _ _ => exact hwork rfl

/-- The step that brings the probe past the pending list is the one that drains it. -/
theorem adding_early (h : OrderInv cfg p.addrs (s, R)) (hearly : s.phase.early = true)
    (heffect : EarlyEffect cfg p s a t) (hlate : t.phase.late = true) :
    Adding (s.completed a t R) t := by
  have hR : s.completed a t R = [] :=
    (early_completed h.frame hearly a t R).trans (h.early hearly).1
  have hnotLate : s.phase.late = false := by
    generalize s.phase = phase at hearly
    cases phase <;> first | rfl | cases hearly
  rw [hR]
  cases heffect with
  | quiet _ hphase =>
    rw [hphase, hnotLate] at hlate
    cases hlate
  | waits _ _ _ hphase =>
    rw [hphase, hnotLate] at hlate
    cases hlate
  | tables _ hphase =>
    rcases hphase with hphase | hphase | hphase <;>
    · rw [hphase] at hlate
      cases hlate
  | header hphase =>
    rw [hphase] at hlate
    cases hlate
  | drain hphase => exact adding_drained h.frame hphase (h.headed hphase) hlate

/-- **Every run in which regions are only added.** -/
theorem adding_reach (hp : p.rm = true)
    (h : (rmRecorded cfg p).Reach (fun x a =>
      (orderOk cfg x.1 a = true ∧ registersHeader a = true) ∧ a.addsOnly = true) (s, R))
    (hlate : s.phase.late = true) (hpending : s.driver.pendingList = []) : Adding R s := by
  have hall : OrderInv cfg p.addrs (s, R) ∧
      (s.phase.late = true → s.driver.pendingList = [] → Adding R s) := by
    refine h.invariant (I := fun x => OrderInv cfg p.addrs x ∧
      (x.1.phase.late = true → x.1.driver.pendingList = [] → Adding x.2 x.1)) ?_ ?_
    · rintro ⟨s, R⟩ ⟨hs, hR⟩
      cases hs
      cases hR
      refine ⟨orderInv_init, ?_⟩
      intro hlate
      cases hlate
    · rintro ⟨s, R⟩ a ⟨t, R'⟩ ⟨hinv, hadding⟩ ⟨⟨hok, hreg⟩, hadds⟩ hstep
      obtain ⟨hs, hR'⟩ := Machine.recording_step hstep
      have hR'' : R' = s.completed a t R := hR'
      subst hR''
      refine ⟨orderInv_step hp hinv hok hreg hs, ?_⟩
      intro hlate hpending
      cases hearly : s.phase.early with
      | true => exact adding_early hinv hearly (early_step hinv.frame hearly hs) hlate
      | false =>
        have hlate' := late_of_step hearly hs hlate
        obtain ⟨-, hnil⟩ := order_step hinv.frame hlate' hs hpending
        exact adding_late hinv.frame (hinv.late hlate' hnil) (hadding hlate' hnil) hlate' hadds hs
          hpending
  exact hall.2 hlate hpending

end Adding

end SafelinuxDbg.Minidump
