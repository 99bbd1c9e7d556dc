import SafelinuxDbg.Minidump.RegionNumbers
import SafelinuxDbg.Minidump.RmSystem

/-!
# Registrations during initialisation

A region that is added while the probe runs must not get lost.  `msm_minidump_add_region` decides
between the tables and the pending list, in SMEM mode by `md_ss_enable_status`, which is set under
the lock that also drains the pending list, and in RM mode by `md_init_done`, which is set after
that lock was released.  In RM mode a region that comes in between is put on a list that nobody
reads again.

* `no_registration_lost`: nothing is lost in SMEM mode, nor in RM mode without such a region.
* `late_registration_lost`: a run with one.
-/

namespace SafelinuxDbg.Minidump

open CMemory

/-- The steps of clients that add regions, of the probe and of the worker. -/
def initialising : Action → Bool
  | .update _ _ _ | .remove _ _ => false
  | _ => true

/-- In RM mode no region that would be accepted comes in between the draining of the pending list
and the end of the probe. -/
def noLateAdd (cfg : Config) (s : System) : Action → Bool
  | .add alloc e =>
    !(s.driver.isRmMinidump && s.phase == .drained && admits cfg e s.driver && alloc)
  | _ => true

/-- The name is in the table of the driver's mode. -/
def NameInTable (d : Driver) (name : CStr) : Prop :=
  ∃ i, i < d.numRegions ∧
    if d.isRmMinidump then (d.minidumpRmTable.entry i).name = name
    else (d.minidumpTable.entry i).name = name

/-- In RM mode a request was queued to add the name. -/
def AddQueued (s : System) (name : CStr) : Prop :=
  s.driver.isRmMinidump = true ∧ ∃ e : MdRegion, e.name = name ∧
    ⟨e, .minidumpAdd⟩ ∈ s.history.queued

/-- Nothing waits, and every accepted name is in the table or had a request queued for it. -/
structure NoneLost (s : System) : Prop where
  pending : s.driver.pendingList = []
  accepted : ∀ name n, (name, n) ∈ s.history.accepted → NameInTable s.driver name ∨ AddQueued s name

/-! ## RM mode -/

/-- In RM mode: before the list is drained every accepted region waits, and afterwards a request
was queued for it. -/
structure RmWaiting (s : System) : Prop where
  waits : s.phase.early = true → ∀ name n, (name, n) ∈ s.history.accepted →
    ∃ e ∈ s.driver.pendingList, e.name = name
  drained : s.phase = .drained ∨ s.phase = .done → s.driver.pendingList = [] ∧
    ∀ name n, (name, n) ∈ s.history.accepted → ∃ e : MdRegion, e.name = name ∧
      ⟨e, .minidumpAdd⟩ ∈ s.history.queued

theorem drainRm_pending {cfg : Config} {alloc : Nat → Bool} {es : List MdRegion} :
    ∀ {n : Nat} {d d' : Driver}, d.pendingList = es → drainRm cfg alloc es n d = (d', .ok ()) →
      d'.pendingList = [] ∧ d'.minidumpRmTable.minidumpRmWq =
        d.minidumpRmTable.minidumpRmWq ++ es.map (⟨·, .minidumpAdd⟩) := by
  induction es with
  | nil =>
    intro n d d' hpending h
    cases h
    exact ⟨hpending, (List.append_nil _).symm⟩
  | cons e es ih =>
    intro n d d' _ h
    rw [drainRm] at h
    cases halloc : alloc n with
    | false =>
      rw [halloc] at h
      cases h
    | true =>
      rw [halloc, if_pos rfl] at h
      obtain ⟨hlist, hqueue⟩ := ih (d := drainRmStep cfg n e es d) rfl h
      refine ⟨hlist, ?_⟩
      rw [hqueue, List.map_cons]
      simp only [drainRmStep, queueWork, List.append_assoc, List.singleton_append]

section Rm

variable {cfg : Config} {p : Platform} {s t : System}

/-- A step that leaves the list, the phase and the records alone. -/
theorem RmWaiting.congr (h : RmWaiting s) (hphase : t.phase = s.phase)
    (hpending : t.driver.pendingList = s.driver.pendingList)
    (haccepted : t.history.accepted = s.history.accepted)
    (hqueued : t.history.queued = s.history.queued) : RmWaiting t := by
  constructor
  · rw [hphase, hpending, haccepted]
    exact h.waits
  · rw [hphase, hpending, haccepted, hqueued]
    exact h.drained

theorem rmWaiting_add (hf : RmFrame s) (hw : RmWaiting s) {alloc : Bool} {e : MdRegion}
    (hok : noLateAdd cfg s (.add alloc e) = true) : RmWaiting (s.stepAdd cfg alloc e) := by
  rw [System.stepAdd]
  rcases add_paths cfg alloc e s.driver with
    ⟨err, hr⟩ | ⟨hv, hn, ⟨-, htoc, -⟩ | ⟨-, hdone, -, hr⟩ | ⟨-, hwait, rfl, hr⟩⟩
  · simp only [hr, System.setDriver_self]
    exact hw
  · rw [tocEnabled, hf.unmapped] at htoc
    cases htoc
  · have hphase := hf.done hdone
    obtain ⟨hpending, haccepted⟩ := hw.drained (Or.inr hphase)
    simp only [hr]
    constructor
    · intro hearly
      simp only [System.accept, System.setDriver, hphase] at hearly
      cases hearly
    · intro _
      refine ⟨hpending, ?_⟩
      intro name n hmem
      simp only [System.accept, System.setDriver, queuedRegion, List.drop_left] at hmem ⊢
      rcases List.mem_append.mp hmem with hold | hnew
      · obtain ⟨e', hname, hmem'⟩ := haccepted name n hold
        exact ⟨e', hname, List.mem_append_left _ hmem'⟩
      · cases List.mem_singleton.mp hnew
        exact ⟨e, rfl, List.mem_append_right _ (List.mem_singleton.mpr rfl)⟩
  · -- the region waits, so the list is not drained yet
    simp only [hr]
    constructor
    · intro hearly name n hmem
      simp only [System.accept, System.setDriver, waitingRegion] at hmem ⊢
      rcases List.mem_append.mp hmem with hold | hnew
      · obtain ⟨e', hmem', hname⟩ := hw.waits hearly name n hold
        exact ⟨e', List.mem_append_left _ hmem', hname⟩
      · cases List.mem_singleton.mp hnew
        exact ⟨e, List.mem_append_right _ (List.mem_singleton.mpr rfl), rfl⟩
    · intro hphase
      have hphase' : s.phase = .drained ∨ s.phase = .done := hphase
      have hrm : s.driver.isRmMinidump = true := by
        apply hf.mode
        rcases hphase' with h | h <;> rw [h] <;> decide
      rcases hphase' with h | h
      · rw [noLateAdd, hrm, h, admits_of_valid cfg e hv hn] at hok
        cases hok
      · have hdone := hwait hrm
        rw [hf.initDone, h] at hdone
        cases hdone

theorem rmWaiting_drain (hf : RmFrame s) (hw : RmWaiting s) (hphase : s.phase = .headed)
    (alloc : Nat → Bool) : RmWaiting (s.stepProbeDrain cfg alloc) := by
  have hrm : s.driver.isRmMinidump = true := hf.mode (by rw [hphase]; decide)
  rw [System.stepProbeDrain, Minidump.probeDrain, hrm, if_pos rfl]
  cases hr : drainRm cfg alloc s.driver.pendingList 0 s.driver with
  | mk d res =>
    cases res with
    | error err =>
      constructor
      · intro h
        cases h
      · rintro (h | h) <;> cases h
    | ok u =>
      obtain ⟨hlist, hqueue⟩ := drainRm_pending rfl hr
      constructor
      · intro h
        cases h
      · intro _
        refine ⟨hlist, ?_⟩
        intro name n hmem
        obtain ⟨e, hpending, hname⟩ := hw.waits (by rw [hphase]; rfl) name n hmem
        refine ⟨e, hname, ?_⟩
        simp only [System.setDriver, hqueue, List.drop_left]
        exact List.mem_append_right _ (List.mem_map.mpr ⟨e, hpending, rfl⟩)

/-- The tables of the resource manager come and go without the pending list. -/
theorem rmWaiting_tables (hf : RmFrame s) (hw : RmWaiting s) (hphase : s.phase = .moded) :
    RmWaiting (s.stepProbeTables p) := by
  have hrm : s.driver.isRmMinidump = true := hf.mode (by rw [hphase]; decide)
  have hwaits := hw.waits (by rw [hphase]; rfl)
  have hstopped : ∀ d : Driver, RmWaiting { s with driver := d, phase := .stopped } := by
    intro d
    constructor
    · intro h
      cases h
    · rintro (h | h) <;> cases h
  rw [System.stepProbeTables, Minidump.probeTables, hrm, if_pos rfl, probeRmTable]
  cases p.rmInfo with
  | error err => exact hstopped _
  | ok n =>
    cases p.tableAlloc with
    | false => exact hstopped _
    | true =>
      cases p.wqAlloc with
      | false => exact hstopped _
      | true =>
        constructor
        · intro _
          exact hwaits
        · rintro (h | h) <;> cases h

/-- A step of the worker leaves what waits and what is on record alone. -/
theorem rmWaiting_work {a : Action} (hw : RmWaiting s)
    (ha : a = .dequeue ∨ (∃ reply, a = .register reply) ∨ (∃ ok, a = .deregister ok) ∨ a = .finish)
    (h : s.step cfg p a = some t) : RmWaiting t := by
  rcases ha with rfl | ⟨reply, rfl⟩ | ⟨ok, rfl⟩ | rfl
  · simp only [System.step, System.stepDequeue] at h
    split at h
    · cases h
      exact hw.congr rfl (minidumpRmWork_frame _ _).pending rfl rfl
    · cases h
  · simp only [System.step, System.stepRegister] at h
    split at h
    · cases h
    · split at h
      · cases h
        exact hw.congr rfl rfl rfl rfl
      · cases h
  · simp only [System.step, System.stepDeregister] at h
    split at h
    · cases h
    · cases h
      exact hw.congr rfl rfl rfl rfl
  · simp only [System.step, System.stepFinish] at h
    split at h
    · cases h
    case h_2 d w hfinish =>
      cases h
      exact hw.congr rfl (Worker.finish_frame hfinish).pending rfl rfl

theorem rmWaiting_step {a : Action} (hf : RmFrame s) (hw : RmWaiting s)
    (ha : initialising a = true) (hok : noLateAdd cfg s a = true)
    (h : s.step cfg p a = some t) : RmWaiting t := by
  cases System.step_cases h with
  | add alloc e => exact rmWaiting_add hf hw hok
  | update alloc regno e => cases ha
  | remove alloc e => cases ha
  | probeMode hphase =>
    constructor
    · intro _
      exact hw.waits (by rw [hphase]; rfl)
    · rintro (h | h) <;> cases h
  | probeTables hphase => exact rmWaiting_tables hf hw hphase
  | probeHeader reply hphase _ =>
    have hrm : s.driver.isRmMinidump = true := hf.mode (by rw [hphase]; decide)
    have hpending : (msmMinidumpAddHeader p reply.isSome s.driver).1.pendingList =
        s.driver.pendingList := by
      rw [msmMinidumpAddHeader, if_pos hrm]
      split <;> rfl
    constructor
    · intro _
      simp only [System.stepProbeHeader, hpending]
      exact hw.waits (by rw [hphase]; rfl)
    · rintro (h | h) <;> cases h
  | probeDrain alloc hphase => exact rmWaiting_drain hf hw hphase alloc
  | probeDone hphase =>
    constructor
    · intro h
      cases h
    · intro _
      exact hw.drained (Or.inl hphase)
  | dequeue _ _ => exact rmWaiting_work hw (Or.inl rfl) h
  | register reply _ _ => exact rmWaiting_work hw (Or.inr (Or.inl ⟨reply, rfl⟩)) h
  | deregister ok _ _ => exact rmWaiting_work hw (Or.inr (Or.inr (Or.inl ⟨ok, rfl⟩))) h
  | finish _ _ => exact rmWaiting_work hw (Or.inr (Or.inr (Or.inr rfl))) h

theorem rmWaiting_init : RmWaiting System.initial := by
  constructor
  · intro _ name n hmem
    cases hmem
  · rintro (h | h) <;> cases h

end Rm

/-! ## SMEM mode -/

/-- Region number `n` was returned for `name`: it waits in that place, or it is in that place of
the table. -/
def Placed (d : Driver) (name : CStr) (n : Nat) : Prop :=
  n < d.numRegions ∧ ((∃ e, d.pendingList[n]? = some e ∧ e.name = name) ∨
    (d.pendingList.length ≤ n ∧ (d.minidumpTable.entry n).name = name))

/-- In SMEM mode every accepted region is in its place.  The boot loader may have left the table
marked as enabled, so that regions go past the pending list before it is drained. -/
structure SmemWaiting (s : System) : Prop where
  rm : s.driver.isRmMinidump = false
  idle : s.worker = .idle
  queue : s.driver.minidumpRmTable.minidumpRmWq = []
  initDone : s.driver.mdInitDone = decide (s.phase = .done)
  unmapped : s.phase = .start ∨ s.phase = .moded → s.driver.minidumpTable.tocMapped = false
  mapped : s.phase = .mapped ∨ s.phase = .headed → s.driver.minidumpTable.tocMapped = true
  fewer : s.driver.pendingList.length ≤ s.driver.numRegions
  allWait : tocEnabled s.driver = false → s.driver.pendingList.length = s.driver.numRegions
  placed : ∀ name n, (name, n) ∈ s.history.accepted → Placed s.driver name n
  drained : s.phase = .drained ∨ s.phase = .done →
    s.driver.pendingList = [] ∧ tocEnabled s.driver = true

/-- Draining puts the pending regions into their places and leaves the others where they are. -/
theorem drainSmem_entry {cfg : Config} {es : List MdRegion} :
    ∀ {n : Nat} {d : Driver}, n + es.length ≤ d.numRegions → ∀ i, i < d.numRegions →
      (drainSmem cfg es n d).minidumpTable.entry i =
        if n ≤ i then (es[i - n]?).getD (d.minidumpTable.entry i)
        else d.minidumpTable.entry i := by
  induction es with
  | nil =>
    intro n d _ i _
    simp [drainSmem]
  | cons e es ih =>
    intro n d hlen i hi
    rw [List.length_cons] at hlen
    have hstep : (drainSmemStep cfg n e es d).minidumpTable.entry i =
        if i = n then e else d.minidumpTable.entry i := by
      simp only [drainSmemStep, mdAddSsToc]
      rw [Function.update_of_ne (by omega)]
      by_cases hin : i = n
      · rw [if_pos hin, hin, Function.update_self]
      · rw [if_neg hin, Function.update_of_ne hin]
    have hnum : (drainSmemStep cfg n e es d).numRegions = d.numRegions := rfl
    have hrest := ih (n := n + 1) (d := drainSmemStep cfg n e es d) (by omega) i hi
    rw [drainSmem, hrest, hstep]
    by_cases hin : i = n
    · subst hin
      simp
    · rw [if_neg hin]
      by_cases hle : n ≤ i
      · obtain ⟨k, rfl⟩ : ∃ k, i = n + 1 + k := ⟨i - (n + 1), by omega⟩
        rw [if_pos hle, if_pos (by omega), Nat.add_sub_cancel_left,
          show n + 1 + k - n = k + 1 by omega, List.getElem?_cons_succ]
      · rw [if_neg hle, if_neg (by omega)]

section Smem

variable {cfg : Config} {p : Platform} {s t : System}

/-- While all regions wait, they are in their places whatever the table holds. -/
theorem Placed.of_allWait {d d' : Driver} {name : CStr} {n : Nat} (h : Placed d name n)
    (hall : d.pendingList.length = d.numRegions) (hnum : d'.numRegions = d.numRegions)
    (hpending : d'.pendingList = d.pendingList) : Placed d' name n := by
  obtain ⟨hlt, hplace⟩ := h
  refine ⟨by omega, Or.inl ?_⟩
  rw [hpending]
  rcases hplace with hwait | ⟨hle, -⟩
  · exact hwait
  · omega

theorem smemWaiting_add (hw : SmemWaiting s) (alloc : Bool) (e : MdRegion) :
    SmemWaiting (s.stepAdd cfg alloc e) := by
  rw [System.stepAdd]
  rcases add_paths cfg alloc e s.driver with
    ⟨err, hr⟩ | ⟨hv, -, ⟨-, htoc, -, -, hr⟩ | ⟨hrm, -⟩ | ⟨hoff, -, -, hr⟩⟩
  · simp only [hr, System.setDriver_self]
    exact hw
  · -- the region goes into the table, behind all that waits
    simp only [hr]
    have hfewer := hw.fewer
    refine ⟨hw.rm, hw.idle, hw.queue, hw.initDone, hw.unmapped, hw.mapped, ?_, ?_, ?_, ?_⟩
    · simp only [System.accept, System.setDriver, addedRegion]
      exact Nat.le_succ_of_le hfewer
    · intro hoff
      have hsame : tocEnabled (addedRegion cfg e s.driver) = tocEnabled s.driver := rfl
      simp only [System.accept, System.setDriver, hsame, htoc] at hoff
      cases hoff
    · intro name n hmem
      simp only [System.accept, System.setDriver] at hmem ⊢
      rw [Placed, addedRegion_entry hv]
      simp only [addedRegion, mdAddSsToc]
      rcases List.mem_append.mp hmem with hold | hnew
      · obtain ⟨hlt, hplace⟩ := hw.placed name n hold
        rw [Function.update_of_ne (by omega)]
        exact ⟨by omega, hplace⟩
      · cases List.mem_singleton.mp hnew
        rw [Function.update_self]
        exact ⟨Nat.lt_succ_self _, Or.inr ⟨hfewer, rfl⟩⟩
    · intro hphase
      obtain ⟨hnil, htoc'⟩ := hw.drained hphase
      exact ⟨hnil, htoc'⟩
  · rw [hw.rm] at hrm
    cases hrm
  · -- the region waits, and so do all the others
    simp only [hr]
    have hall := hw.allWait (hoff hw.rm)
    have hlen : (s.driver.pendingList ++ [e]).length = s.driver.numRegions + 1 := by
      rw [List.length_append, hall]
      rfl
    refine ⟨hw.rm, hw.idle, hw.queue, hw.initDone, hw.unmapped, hw.mapped, Nat.le_of_eq hlen,
      fun _ => hlen, ?_, ?_⟩
    · intro name n hmem
      simp only [System.accept, System.setDriver, waitingRegion, Placed] at hmem ⊢
      rcases List.mem_append.mp hmem with hold | hnew
      · obtain ⟨hlt, hwait | ⟨hle, -⟩⟩ := hw.placed name n hold
        · refine ⟨by omega, Or.inl ?_⟩
          rw [List.getElem?_append_left (by omega)]
          exact hwait
        · omega
      · cases List.mem_singleton.mp hnew
        refine ⟨Nat.lt_succ_self _, Or.inl ⟨e, ?_, rfl⟩⟩
        rw [List.getElem?_append_right (by omega), hall, Nat.sub_self]
        rfl
    · intro hphase
      have hon := (hw.drained hphase).2
      rw [hoff hw.rm] at hon
      cases hon

theorem smemWaiting_tables (hw : SmemWaiting s) (hphase : s.phase = .moded) :
    SmemWaiting (s.stepProbeTables p) := by
  have hoff : tocEnabled s.driver = false := by
    rw [tocEnabled, hw.unmapped (Or.inr hphase)]
    rfl
  have hall := hw.allWait hoff
  have hdone : s.driver.mdInitDone = false := by
    rw [hw.initDone, hphase]
    rfl
  have htable : ∀ t phase, (phase = .mapped ∧ t.tocMapped = true) ∨ phase = .stopped →
      SmemWaiting { s with driver := { s.driver with minidumpTable := t }, phase := phase } := by
    intro t phase hcases
    refine ⟨hw.rm, hw.idle, hw.queue, ?_, ?_, ?_, hw.fewer, fun _ => hall, ?_, ?_⟩
    · rcases hcases with ⟨rfl, -⟩ | rfl
      · exact hdone
      · exact hdone
    · intro h
      rcases hcases with ⟨rfl, -⟩ | rfl <;> rcases h with h | h <;> cases h
    · intro h
      rcases hcases with ⟨rfl, hmapped⟩ | rfl
      · exact hmapped
      · rcases h with h | h <;> cases h
    · intro name n hmem
      exact (hw.placed name n hmem).of_allWait hall rfl rfl
    · intro h
      rcases hcases with ⟨rfl, -⟩ | rfl <;> rcases h with h | h <;> cases h
  rw [System.stepProbeTables, Minidump.probeTables, hw.rm, probeSmemTable]
  cases p.globalToc with
  | error err => exact htable s.driver.minidumpTable _ (Or.inr rfl)
  | ok o =>
    cases o with
    | none => exact htable s.driver.minidumpTable _ (Or.inr rfl)
    | some toc =>
      simp only [Bool.false_eq_true, if_false]
      by_cases h1 : (!toc.sizeOk || toc.mdTocInit == 0) = true
      · rw [if_pos h1]
        exact htable s.driver.minidumpTable _ (Or.inr rfl)
      rw [if_neg h1]
      by_cases h2 : (!p.tableAlloc) = true
      · rw [if_pos h2]
        exact htable s.driver.minidumpTable _ (Or.inr rfl)
      rw [if_neg h2]
      by_cases h3 : (!p.regionsAlloc) = true
      · rw [if_pos h3]
        exact htable _ _ (Or.inr rfl)
      · rw [if_neg h3]
        exact htable _ _ (Or.inl ⟨rfl, rfl⟩)

theorem smemWaiting_header (hw : SmemWaiting s) (hphase : s.phase = .mapped) (reply : Option Nat) :
    SmemWaiting (s.stepProbeHeader p reply) := by
  have hdone : s.driver.mdInitDone = false := by
    rw [hw.initDone, hphase]
    rfl
  rw [System.stepProbeHeader, msmMinidumpAddHeader, if_neg (by rw [hw.rm]; decide)]
  refine ⟨hw.rm, hw.idle, hw.queue, hdone, ?_, fun _ => hw.mapped (Or.inl hphase), hw.fewer,
    hw.allWait, hw.placed, ?_⟩
  · rintro (h | h) <;> cases h
  · rintro (h | h) <;> cases h

/-- Draining puts what waits into its places. -/
theorem Placed.drain {d : Driver} (hfewer : d.pendingList.length ≤ d.numRegions) {name : CStr}
    {n : Nat} (h : Placed d name n) :
    Placed (drainSmem cfg d.pendingList 0 (enableToc d)) name n := by
  have hframe := drainSmem_frame cfg d.pendingList 0 (enableToc d)
  obtain ⟨hlt, hplace⟩ := h
  have hlt' : n < (enableToc d).numRegions := hlt
  have hle : 0 + d.pendingList.length ≤ (enableToc d).numRegions := by
    rw [Nat.zero_add]
    exact hfewer
  refine ⟨by rw [hframe.num]; exact hlt', Or.inr ⟨?_, ?_⟩⟩
  · rw [(drained_pending cfg d).1]
    exact Nat.zero_le n
  · rw [drainSmem_entry hle n hlt', if_pos (Nat.zero_le n), Nat.sub_zero]
    rcases hplace with ⟨e, he, hname⟩ | ⟨hge, hname⟩
    · rw [he, Option.getD_some, hname]
    · rw [List.getElem?_eq_none hge, Option.getD_none]
      exact hname

theorem smemWaiting_drain (hw : SmemWaiting s) (hphase : s.phase = .headed) (alloc : Nat → Bool) :
    SmemWaiting (s.stepProbeDrain cfg alloc) := by
  have hdone : s.driver.mdInitDone = false := by
    rw [hw.initDone, hphase]
    rfl
  have hframe := drainSmem_frame cfg s.driver.pendingList 0 (enableToc s.driver)
  obtain ⟨hnil, hinit, hrmTable⟩ := drained_pending cfg s.driver
  have htoc : tocEnabled (drainSmem cfg s.driver.pendingList 0 (enableToc s.driver)) = true := by
    rw [tocEnabled, hframe.mapped, hframe.enabled, enableToc, hw.mapped (Or.inr hphase)]
    rfl
  rw [System.stepProbeDrain, Minidump.probeDrain, if_neg (by rw [hw.rm]; decide)]
  refine ⟨hframe.rm.trans hw.rm, hw.idle, ?_, ?_, ?_, ?_, ?_, ?_, ?_, fun _ => ⟨hnil, htoc⟩⟩
  · exact (congrArg MdRmTable.minidumpRmWq hrmTable).trans hw.queue
  · exact hinit.trans hdone
  · rintro (h | h) <;> cases h
  · rintro (h | h) <;> cases h
  · simp only [System.setDriver, hnil]
    exact Nat.zero_le _
  · intro hoff
    simp only [System.setDriver, htoc] at hoff
    cases hoff
  · intro name n hmem
    exact (hw.placed name n hmem).drain hw.fewer

/-- In SMEM mode the worker has nothing to do. -/
theorem smemWaiting_no_work {a : Action} (hw : SmemWaiting s)
    (ha : a = .dequeue ∨ (∃ reply, a = .register reply) ∨ (∃ ok, a = .deregister ok) ∨ a = .finish) :
    s.step cfg p a = none := by
  rcases ha with rfl | ⟨reply, rfl⟩ | ⟨ok, rfl⟩ | rfl
  · simp only [System.step, System.stepDequeue, hw.idle, hw.queue]
  · simp only [System.step, System.stepRegister, hw.idle, Worker.registerFor]
  · simp only [System.step, System.stepDeregister, hw.idle, Worker.deregisterFor]
  · simp only [System.step, System.stepFinish, hw.idle, Worker.finish]

theorem smemWaiting_step (hp : p.rm = false) {a : Action} (hw : SmemWaiting s)
    (ha : initialising a = true) (h : s.step cfg p a = some t) : SmemWaiting t := by
  cases System.step_cases h with
  | add alloc e => exact smemWaiting_add hw alloc e
  | update alloc regno e => cases ha
  | remove alloc e => cases ha
  | probeMode hphase =>
    have hdone : s.driver.mdInitDone = false := by
      rw [hw.initDone, hphase]
      rfl
    refine ⟨hp, hw.idle, hw.queue, hdone, fun _ => hw.unmapped (Or.inl hphase), ?_, hw.fewer,
      hw.allWait, hw.placed, ?_⟩
    · rintro (h | h) <;> cases h
    · rintro (h | h) <;> cases h
  | probeTables hphase => exact smemWaiting_tables hw hphase
  | probeHeader reply hphase _ => exact smemWaiting_header hw hphase reply
  | probeDrain alloc hphase => exact smemWaiting_drain hw hphase alloc
  | probeDone hphase =>
    refine ⟨hw.rm, hw.idle, hw.queue, rfl, ?_, ?_, hw.fewer, hw.allWait, hw.placed,
      fun _ => hw.drained (Or.inl hphase)⟩
    · rintro (h | h) <;> cases h
    · rintro (h | h) <;> cases h
  | dequeue _ _ =>
    rw [smemWaiting_no_work hw (Or.inl rfl)] at h
    cases h
  | register reply _ _ =>
    rw [smemWaiting_no_work hw (Or.inr (Or.inl ⟨reply, rfl⟩))] at h
    cases h
  | deregister ok _ _ =>
    rw [smemWaiting_no_work hw (Or.inr (Or.inr (Or.inl ⟨ok, rfl⟩)))] at h
    cases h
  | finish _ _ =>
    rw [smemWaiting_no_work hw (Or.inr (Or.inr (Or.inr rfl)))] at h
    cases h

theorem smemWaiting_init : SmemWaiting System.initial := by
  refine ⟨rfl, rfl, rfl, rfl, fun _ => rfl, ?_, Nat.le_refl _, fun _ => rfl, ?_, ?_⟩
  · rintro (h | h) <;> cases h
  · intro name n hmem
    cases hmem
  · rintro (h | h) <;> cases h

end Smem

/-! ## Every interleaving -/

/-- **No registration is lost**, in every interleaving of added regions with the probe and the
worker, unless in RM mode a region comes in between the draining of the pending list and the end
of the probe. -/
theorem no_registration_lost {cfg : Config} {p : Platform} {s : System}
    (hs : (minidumpSystem cfg p).Reach
      (fun s a => initialising a = true ∧ noLateAdd cfg s a = true) s)
    (hdone : s.driver.mdInitDone = true) : NoneLost s := by
  cases hp : p.rm with
  | true =>
    obtain ⟨hf, hw⟩ : RmFrame s ∧ RmWaiting s := by
      refine hs.invariant (I := fun s => RmFrame s ∧ RmWaiting s) ?_ ?_
      · rintro s rfl
        exact ⟨rmFrame_init, rmWaiting_init⟩
      · rintro s a t ⟨hf, hw⟩ ⟨ha, hok⟩ hstep
        exact ⟨(rm_step hp hf hstep).1, rmWaiting_step hf hw ha hok hstep⟩
    obtain ⟨hpending, haccepted⟩ := hw.drained (Or.inr (hf.done hdone))
    exact ⟨hpending, fun name n hmem => Or.inr ⟨hf.rm hdone, haccepted name n hmem⟩⟩
  | false =>
    have hw : SmemWaiting s := by
      apply hs.invariant
      · rintro s rfl
        exact smemWaiting_init
      · intro s a t hw hok hstep
        exact smemWaiting_step hp hw hok.1 hstep
    have hphase : s.phase = .done := by
      rw [hw.initDone] at hdone
      exact of_decide_eq_true hdone
    obtain ⟨hpending, -⟩ := hw.drained (Or.inr hphase)
    refine ⟨hpending, ?_⟩
    intro name n hmem
    obtain ⟨hlt, hplace⟩ := hw.placed name n hmem
    refine Or.inl ⟨n, hlt, ?_⟩
    rw [hw.rm, if_neg Bool.false_ne_true]
    rcases hplace with ⟨e, he, -⟩ | ⟨-, hname⟩
    · rw [hpending] at he
      cases he
    · exact hname

theorem no_registration_lost_kmsg :
    let kmsg : MdRegion := ⟨CStr.ofString "KMSG", 0, 0x1000, 0x81000000, 64⟩
    let kirq : MdRegion := ⟨CStr.ofString "KIRQ", 0, 0x2000, 0x82000000, 4⟩
    ∃ s, (minidumpSystem Config.plain (Platform.plain false)).run
        (fun s a => initialising a && noLateAdd Config.plain s a) System.initial
        [.add true kmsg, .probeMode, .probeTables, .probeHeader none, .probeDrain (fun _ => true),
          .add true kirq, .probeDone] = some s ∧ NoneLost s := by
  intro kmsg kirq
  have hrun : ((minidumpSystem Config.plain (Platform.plain false)).run
      (fun s a => initialising a && noLateAdd Config.plain s a) System.initial
      [.add true kmsg, .probeMode, .probeTables, .probeHeader none, .probeDrain (fun _ => true),
        .add true kirq, .probeDone]).any (fun s => s.driver.mdInitDone) = true := by
    decide +kernel
  obtain ⟨s, hs, hdone⟩ := (Option.any_eq_true _ _).mp hrun
  exact ⟨s, hs, no_registration_lost
    (.of_run (fun s a h => Bool.and_eq_true_iff.mp h) (.init rfl) hs) hdone⟩

/-- **A lost registration**: a region that is added in RM mode after the pending list was drained
and before `md_init_done` is set. -/
theorem late_registration_lost :
    ¬ ∀ s, (minidumpSystem Config.plain (Platform.plain true)).Reach
        (fun _ a => initialising a = true) s → s.driver.mdInitDone = true → NoneLost s := by
  intro h
  let kmsg : MdRegion := ⟨CStr.ofString "KMSG", 0, 0x1000, 0x81000000, 64⟩
  have hrun : ((minidumpSystem Config.plain (Platform.plain true)).run
      (fun _ a => initialising a) System.initial
      [.probeMode, .probeTables, .probeHeader (some 9), .probeDrain (fun _ => true),
        .add true kmsg, .probeDone]).any
      (fun s => s.driver.mdInitDone && s.driver.pendingList == [kmsg]) = true := by
    decide +kernel
  obtain ⟨s, hs, hw⟩ := (Option.any_eq_true _ _).mp hrun
  simp only [Bool.and_eq_true, beq_iff_eq] at hw
  have hlost := h s (.of_run (fun _ _ ha => ha) (.init rfl) hs) hw.1
  rw [hlost.pending] at hw
  cases hw.2

end SafelinuxDbg.Minidump
