import SafelinuxDbg.Minidump.DeferredAdd
import SafelinuxDbg.Minidump.RmSystem

/-!
# The layout of the header buffer

The program headers start behind room for `MAX_NUM_ENTRIES` section headers, and the string table
behind room for as many program headers.  But the buffer starts with four sections of its own,
which no check counts: `msm_minidump_add_region` stops at `MAX_NUM_ENTRIES` regions, and then the
last section headers lie on the first program headers.

* `layout_ok_of_room`: nothing overlaps in any run whose steps write only where there is room.
* `sections_overlap_programs`: 198 regions are enough for an overlap.
-/

namespace SafelinuxDbg.Minidump

open CMemory

/-- The parts of the header buffer follow one another and end inside of it. -/
structure LayoutOk (h : MdElfhdr) : Prop where
  ehdr : sizeofEhdr ≤ elfSheader h.ehdr
  sections : elfSheader h.ehdr + sizeofShdr * eShnum h.ehdr ≤ elfPheader h.ehdr
  programs : ∃ strtab, elfStrTable h.ehdr = some strtab ∧
    elfPheader h.ehdr + sizeofPhdr * ePhnum h.ehdr ≤ strtab ∧
    strtab + maxStrtblSize + (linuxBanner.strlen + 1) ≤ elfhSize
  strings : h.strtableIdx.toNat ≤ maxStrtblSize

/-- The header buffer is a well-formed encoding of some image. -/
def Legible (h : MdElfhdr) : Prop := ∃ img, Represents h img

theorem Legible.layoutOk {h : MdElfhdr} (hl : Legible h) : LayoutOk h := by
  obtain ⟨img, hr⟩ := hl
  have hroom := hr.room
  have hcounts := hr.counts
  have hidx := hr.packedLen_le
  have hshoff : elfSheader h.ehdr = 64 := by
    rw [elfSheader, hr.shoff]
    rfl
  have hphoff : elfPheader h.ehdr = 12928 := by
    rw [elfPheader, hr.phoff]
    rfl
  have hmax : maxStrtblSize = 3216 := rfl
  refine ⟨?_, ?_, ⟨24184, hr.elfStrTable_eq, ?_, by decide⟩, ?_⟩
  · rw [hshoff]
    exact Nat.le_refl 64
  · rw [hshoff, hphoff, hr.shnum, sizeofShdr]
    omega
  · rw [hphoff, hr.phnum, sizeofPhdr]
    omega
  · rw [hr.strtableIdx, UInt64.toNat_ofNat', hmax]
    omega

/-! ## Room in the buffer -/

/-- The removal of `e` leaves the string table's section where it is. -/
def keepsStrtab (e : MdRegion) (h : MdElfhdr) : Bool :=
  match clearLookup e h with
  | none => true
  | some (_, shidx) => decide (1 < shidx)

/-- What the worker is about to write into the buffer has room there. -/
def Worker.hasRoom : Worker → MdElfhdr → Bool
  | .addFinish _ _ (some _), h | .addUnlocked _, h => decide (eShnum h.ehdr < maxNumEntries)
  | .updateFinish _ i _, _ => decide (i + 4 < maxNumEntries)
  | .removeFinish e _, h => keepsStrtab e h
  | _, _ => true

/-- What a step writes into the header buffer has room there, and the buffer is registered before
it is used. -/
def writesInRoom (cfg : Config) (s : System) : Action → Bool
  | .add _ e =>
    !addsDirectly cfg e s.driver || decide (eShnum s.driver.minidumpElfheader.ehdr < maxNumEntries)
  | .update _ regno e =>
    s.driver.isRmMinidump || !s.driver.mdInitDone || !(validateRegion cfg e).isOk ||
      decide (maxNumEntries ≤ regno) || decide (regno + 4 < maxNumEntries)
  | .remove _ e =>
    s.driver.isRmMinidump || !s.driver.mdInitDone || !tocEnabled s.driver ||
      !(mdEntryNum s.driver e).isOk || keepsStrtab e s.driver.minidumpElfheader
  | .probeHeader reply => !s.driver.isRmMinidump || reply.isSome
  | .finish => s.worker.hasRoom s.driver.minidumpElfheader
  | _ => true

theorem Legible.add {cfg : Config} {h : MdElfhdr} {e : MdRegion} (hl : Legible h)
    (hv : validateRegion cfg e = .ok ()) (hroom : eShnum h.ehdr < maxNumEntries) :
    Legible (mdAddElfHeader e h) := by
  obtain ⟨img, hr⟩ := hl
  have hlen := (validateRegion_eq_ok.mp hv).1
  have hmax := cfg.maxNameLength_le
  rw [hr.shnum, maxNumEntries_eq] at hroom
  exact ⟨img.add e, hr.add hroom (by omega)⟩

theorem Legible.update {h : MdElfhdr} (hl : Legible h) {n : Nat} (hroom : n + 4 < maxNumEntries)
    (e : MdRegion) : Legible (mdUpdateElfHeader n e h) := by
  obtain ⟨img, hr⟩ := hl
  exact ⟨img.update n e, hr.update hroom e⟩

theorem Legible.clear {h : MdElfhdr} {e : MdRegion} (hl : Legible h)
    (hkeep : keepsStrtab e h = true) : Legible (msmMinidumpClearHeaders e h).1 := by
  obtain ⟨img, hr⟩ := hl
  rw [keepsStrtab] at hkeep
  cases hlook : clearLookup e h with
  | none =>
    rw [clearHeaders_of_none hlook]
    exact ⟨img, hr⟩
  | some ps =>
    obtain ⟨pidx, shidx⟩ := ps
    rw [hlook] at hkeep
    rw [hr.lookup] at hlook
    exact ⟨img.clear pidx shidx e.size, (hr.clear hlook (of_decide_eq_true hkeep)).1⟩

/-! ## What is kept -/

/-- The region the worker is busy to add. -/
def Worker.adding : Worker → Option MdRegion
  | .addRegister e _ | .addFinish e _ _ | .addDeregister e _ _ | .addUnlocked e => some e
  | _ => none

/-- The header buffer is built, and the probe went on from there. -/
def ProbePhase.built : ProbePhase → Bool
  | .headed | .drained | .done => true
  | .start | .moded | .mapped | .stopped => false

/-- The regions that still have to get their sections are valid. -/
structure ValidWaiting (cfg : Config) (d : Driver) : Prop where
  pending : ∀ e ∈ d.pendingList, validateRegion cfg e = .ok ()
  queued : ∀ e, ⟨e, .minidumpAdd⟩ ∈ d.minidumpRmTable.minidumpRmWq → validateRegion cfg e = .ok ()

/-- What the steps keep. -/
structure HeaderKept (cfg : Config) (s : System) : Prop where
  waiting : ValidWaiting cfg s.driver
  adding : ∀ e ∈ s.worker.adding, validateRegion cfg e = .ok ()
  elf : s.phase.built = true → Legible s.driver.minidumpElfheader

section Waiting

variable {cfg : Config} {d d' : Driver} {e : MdRegion}

theorem ValidWaiting.congr (h : ValidWaiting cfg d) (hf : WorkFrame d d') : ValidWaiting cfg d' := by
  constructor
  · rw [hf.pending]
    exact h.pending
  · rw [hf.queue]
    exact h.queued

theorem ValidWaiting.queue (h : ValidWaiting cfg d) {workCmd : MinidumpEntryCmd}
    (hv : workCmd = .minidumpAdd → validateRegion cfg e = .ok ()) :
    ValidWaiting cfg (queueWork workCmd e d) := by
  refine ⟨h.pending, ?_⟩
  intro e' hmem
  rcases List.mem_append.mp hmem with hold | hnew
  · exact h.queued e' hold
  · cases List.mem_singleton.mp hnew
    exact hv rfl

theorem ValidWaiting.request (h : ValidWaiting cfg d) (workCmd : MinidumpEntryCmd) (alloc : Bool)
    (e : MdRegion) (hcmd : workCmd ≠ .minidumpAdd) :
    ValidWaiting cfg (mdRmRequest workCmd alloc e d).1 ∧
      (mdRmRequest workCmd alloc e d).1.minidumpElfheader = d.minidumpElfheader := by
  rcases mdRmRequest_cases workCmd alloc e d with hr | hr
  · rw [hr]
    exact ⟨h, rfl⟩
  · rw [hr]
    exact ⟨h.queue (fun hadd => absurd hadd hcmd), rfl⟩

/-- The regions on the pending list become requests. -/
theorem ValidWaiting.drainRm {alloc : Nat → Bool} {es : List MdRegion} :
    ∀ {n : Nat} {d : Driver}, d.pendingList = es → ValidWaiting cfg d →
      ValidWaiting cfg (Minidump.drainRm cfg alloc es n d).1 := by
  induction es with
  | nil =>
    intro n d _ h
    exact h
  | cons e es ih =>
    intro n d hpending h
    rw [Minidump.drainRm]
    cases alloc n with
    | false => exact h
    | true =>
      rw [if_pos rfl]
      apply ih rfl
      have hv := h.pending
      rw [hpending] at hv
      refine ⟨fun x hx => hv x (List.mem_cons_of_mem e hx), ?_⟩
      intro x hmem
      rcases List.mem_append.mp hmem with hold | hnew
      · exact h.queued x hold
      · cases List.mem_singleton.mp hnew
        exact hv e List.mem_cons_self

end Waiting

/-! ## The steps -/

section Steps

variable {cfg : Config} {p : Platform} {s t : System}

theorem headerKept_add (h : HeaderKept cfg s) {alloc : Bool} {e : MdRegion}
    (hok : writesInRoom cfg s (.add alloc e) = true) : HeaderKept cfg (s.stepAdd cfg alloc e) := by
  rw [System.stepAdd]
  rcases add_paths cfg alloc e s.driver with
    ⟨err, hr⟩ | ⟨hv, hn, ⟨hrm, htoc, hc, hm, hr⟩ | ⟨-, -, -, hr⟩ | ⟨-, -, -, hr⟩⟩
  · simp only [hr, System.setDriver_self]
    exact h
  · simp only [hr]
    refine ⟨⟨h.waiting.pending, h.waiting.queued⟩, h.adding, ?_⟩
    intro hbuilt
    rw [writesInRoom, addsDirectly_of_path cfg e hv hn hrm htoc hc hm, Bool.not_true,
      Bool.false_or] at hok
    exact (h.elf hbuilt).add hv (of_decide_eq_true hok)
  · simp only [hr]
    have hqueued : ValidWaiting cfg (queueWork .minidumpAdd e s.driver) :=
      h.waiting.queue (fun _ => hv)
    exact ⟨⟨hqueued.pending, hqueued.queued⟩, h.adding, h.elf⟩
  · simp only [hr]
    refine ⟨⟨?_, h.waiting.queued⟩, h.adding, h.elf⟩
    intro x hx
    rcases List.mem_append.mp hx with hold | hnew
    · exact h.waiting.pending x hold
    · cases List.mem_singleton.mp hnew
      exact hv

theorem headerKept_update (h : HeaderKept cfg s) {alloc : Bool} {regno : Nat} {e : MdRegion}
    (hok : writesInRoom cfg s (.update alloc regno e) = true) :
    HeaderKept cfg (s.setDriver (msmMinidumpUpdateRegion cfg alloc regno e s.driver).1) := by
  have hroom : s.driver.mdInitDone = true → validateRegion cfg e = .ok () →
      regno < maxNumEntries → s.driver.isRmMinidump = false → regno + 4 < maxNumEntries := by
    intro hdone hv hlt hrm
    rw [writesInRoom, hdone, hv, hrm, decide_eq_false (Nat.not_le.mpr hlt)] at hok
    exact of_decide_eq_true hok
  rcases update_paths cfg alloc e regno s.driver with
    ⟨-, hr⟩ | ⟨hdone, hv, hlt, ⟨-, hr⟩ | ⟨hrm, -, err, hr⟩ | ⟨hrm, -, -, hr⟩⟩
  · rw [hr, System.setDriver_self]
    exact h
  · rw [hr]
    obtain ⟨hwaiting, helf⟩ :=
      h.waiting.request .minidumpUpdate alloc e (by decide)
    refine ⟨hwaiting, h.adding, ?_⟩
    intro hbuilt
    have hsame : (mdRmUpdate alloc e s.driver).1.minidumpElfheader = s.driver.minidumpElfheader :=
      helf
    simp only [System.setDriver, hsame]
    exact h.elf hbuilt
  · rw [hr]
    exact ⟨⟨h.waiting.pending, h.waiting.queued⟩, h.adding,
      fun hbuilt => (h.elf hbuilt).update (hroom hdone hv hlt hrm) e⟩
  · rw [hr]
    exact ⟨⟨h.waiting.pending, h.waiting.queued⟩, h.adding,
      fun hbuilt => (h.elf hbuilt).update (hroom hdone hv hlt hrm) e⟩

theorem headerKept_remove (h : HeaderKept cfg s) {alloc : Bool} {e : MdRegion}
    (hok : writesInRoom cfg s (.remove alloc e) = true) :
    HeaderKept cfg (s.setDriver (msmMinidumpRemoveRegion alloc e s.driver).1) := by
  rcases remove_paths alloc e s.driver with ⟨-, hr⟩ | ⟨-, -, hr⟩ | ⟨hdone, hrm, htoc, hr⟩
  · rw [hr, System.setDriver_self]
    exact h
  · rw [hr]
    obtain ⟨hwaiting, helf⟩ :=
      h.waiting.request .minidumpRemove alloc e (by decide)
    refine ⟨hwaiting, h.adding, ?_⟩
    intro hbuilt
    have hsame : (mdRmRemoveRegion alloc e s.driver).1.minidumpElfheader =
        s.driver.minidumpElfheader := helf
    simp only [System.setDriver, hsame]
    exact h.elf hbuilt
  · rw [hr]
    rcases mdRemoveSsToc_cases e s.driver htoc with
      ⟨⟨err, hr'⟩, -⟩ | ⟨i, k, -, -, -, hr'⟩ | ⟨i, k, pidx, shidx, hm, -, -, hr'⟩
    · rw [hr', System.setDriver_self]
      exact h
    · rw [hr']
      exact ⟨⟨h.waiting.pending, h.waiting.queued⟩, h.adding, h.elf⟩
    · rw [hr']
      refine ⟨⟨h.waiting.pending, h.waiting.queued⟩, h.adding, ?_⟩
      intro hbuilt
      rw [writesInRoom, hdone, hrm, htoc, hm] at hok
      exact (h.elf hbuilt).clear hok

theorem headerKept_header (h : HeaderKept cfg s) {reply : Option Nat}
    (hok : writesInRoom cfg s (.probeHeader reply) = true) :
    HeaderKept cfg (s.stepProbeHeader p reply) := by
  have hbuild : Legible (buildHeader p.addrs) := ⟨_, represents_buildHeader p.addrs⟩
  rw [System.stepProbeHeader, msmMinidumpAddHeader]
  cases hrm : s.driver.isRmMinidump with
  | false => exact ⟨⟨h.waiting.pending, h.waiting.queued⟩, h.adding, fun _ => hbuild⟩
  | true =>
    rw [writesInRoom, hrm] at hok
    have hsome : reply.isSome = true := hok
    rw [if_pos rfl, if_pos hsome]
    exact ⟨⟨h.waiting.pending, h.waiting.queued⟩, h.adding, fun _ => hbuild⟩

theorem headerKept_tables (h : HeaderKept cfg s) : HeaderKept cfg (s.stepProbeTables p) := by
  have htables : ValidWaiting cfg (probeTables p s.driver).1 := by
    rw [probeTables]
    split
    · rw [probeRmTable]
      cases p.rmInfo with
      | error err => exact h.waiting
      | ok n =>
        have hempty : ∀ e : MdRegion, (⟨e, .minidumpAdd⟩ : MdRmRequest) ∈ ([] : List MdRmRequest) →
            validateRegion cfg e = .ok () := by
          intro e hmem
          cases hmem
        cases p.tableAlloc with
        | false => exact h.waiting
        | true => cases p.wqAlloc <;> exact ⟨h.waiting.pending, hempty⟩
    · rw [probeSmemTable]
      cases p.globalToc with
      | error err => exact h.waiting
      | ok o =>
        cases o with
        | none => exact h.waiting
        | some toc =>
          simp only
          split
          · exact h.waiting
          split
          · exact h.waiting
          split <;> exact ⟨h.waiting.pending, h.waiting.queued⟩
  rw [System.stepProbeTables]
  cases hr : probeTables p s.driver with
  | mk d res =>
    rw [hr] at htables
    have hall : ∀ phase : ProbePhase, phase.built = false →
        HeaderKept cfg { s with driver := d, phase := phase } := by
      intro phase hphase
      refine ⟨htables, h.adding, ?_⟩
      intro hbuilt
      rw [hphase] at hbuilt
      cases hbuilt
    cases res with
    | error err => exact hall .stopped rfl
    | ok o =>
      cases o with
      | none => exact hall .stopped rfl
      | some u => exact hall .mapped rfl

theorem headerKept_drain (h : HeaderKept cfg s) (hphase : s.phase = .headed) (alloc : Nat → Bool) :
    HeaderKept cfg (s.stepProbeDrain cfg alloc) := by
  have helf := h.elf (by rw [hphase]; rfl)
  rw [System.stepProbeDrain, probeDrain]
  cases hrm : s.driver.isRmMinidump with
  | true =>
    have hframe := drainRm_frame cfg alloc s.driver.pendingList 0 s.driver
    have hwaiting : ValidWaiting cfg (drainRm cfg alloc s.driver.pendingList 0 s.driver).1 :=
      h.waiting.drainRm rfl
    rw [if_pos rfl]
    cases hr : drainRm cfg alloc s.driver.pendingList 0 s.driver with
    | mk d res =>
      rw [hr] at hframe hwaiting
      have hsame : d.minidumpElfheader = s.driver.minidumpElfheader := hframe.elfheader
      rw [← hsame] at helf
      cases res with
      | error err => exact ⟨hwaiting, h.adding, fun _ => helf⟩
      | ok u => exact ⟨hwaiting, h.adding, fun _ => helf⟩
  | false =>
    have hframe := drainSmem_frame cfg s.driver.pendingList 0 (enableToc s.driver)
    obtain ⟨hnil, -, hrmTable⟩ := drained_pending cfg s.driver
    have hsame : (drainSmem cfg s.driver.pendingList 0 (enableToc s.driver)).minidumpElfheader =
        s.driver.minidumpElfheader := hframe.elfheader
    rw [← hsame] at helf
    refine ⟨⟨?_, ?_⟩, h.adding, fun _ => helf⟩
    · intro e hmem
      simp only [System.setDriver, Bool.false_eq_true, if_false, hnil] at hmem
      cases hmem
    · simp only [System.setDriver, Bool.false_eq_true, if_false, hrmTable]
      exact h.waiting.queued

theorem minidumpRmWork_adding {request : MdRmRequest} {d : Driver} {e : MdRegion}
    (he : e ∈ (minidumpRmWork request d).2.adding) : request = ⟨e, .minidumpAdd⟩ := by
  obtain ⟨e', workCmd⟩ := request
  cases workCmd with
  | minidumpNoCmd => cases he
  | minidumpAdd =>
    simp only [minidumpRmWork, mdRmAddWork] at he
    cases hm : mdRmEntryNum d e' with
    | error err =>
      rw [hm] at he
      cases he
    | ok i =>
      rw [hm] at he
      cases he
      rfl
  | minidumpUpdate =>
    simp only [minidumpRmWork, mdRmUpdateWork] at he
    cases hm : mdRmEntryNum d e' with
    | error err =>
      rw [hm] at he
      cases he
    | ok i =>
      rw [hm] at he
      cases he
  | minidumpRemove =>
    simp only [minidumpRmWork, mdRmRemoveWork] at he
    cases hm : mdRmEntryNum d e' with
    | error err =>
      rw [hm] at he
      cases he
    | ok i =>
      rw [hm] at he
      simp only at he
      split at he <;> cases he

theorem headerKept_dequeue (h : HeaderKept cfg s) (hstep : s.stepDequeue = some t) :
    HeaderKept cfg t := by
  rw [System.stepDequeue] at hstep
  split at hstep
  case h_2 => cases hstep
  case h_1 request rest hidle hqueue =>
    cases hstep
    have hmem : ∀ r ∈ rest, r ∈ s.driver.minidumpRmTable.minidumpRmWq := by
      intro r hr
      rw [hqueue]
      exact List.mem_cons_of_mem request hr
    have htaken : ValidWaiting cfg { s.driver with
        minidumpRmTable := { s.driver.minidumpRmTable with minidumpRmWq := rest } } :=
      ⟨h.waiting.pending, fun e he => h.waiting.queued e (hmem _ he)⟩
    refine ⟨htaken.congr (minidumpRmWork_frame _ _), ?_, ?_⟩
    · intro e he
      cases minidumpRmWork_adding he
      apply h.waiting.queued
      rw [hqueue]
      exact List.mem_cons_self
    · intro hbuilt
      rcases minidumpRmWork_cases request { s.driver with
          minidumpRmTable := { s.driver.minidumpRmTable with minidumpRmWq := rest } } with hr | ⟨i, hr⟩
      · simp only [hr]
        exact h.elf hbuilt
      · simp only [hr]
        exact h.elf hbuilt

/-- The rest of the work keeps the buffer legible when it has room. -/
theorem Legible.finish {w w' : Worker} {d d' : Driver} (hl : Legible d.minidumpElfheader)
    (hv : ∀ e ∈ w.adding, validateRegion cfg e = .ok ())
    (hroom : w.hasRoom d.minidumpElfheader = true) (h : w.finish d = some (d', w')) :
    Legible d'.minidumpElfheader := by
  cases w with
  | addFinish e i reply =>
    cases reply with
    | none =>
      cases h
      exact hl
    | some slotNum =>
      simp only [Worker.finish] at h
      split at h
      · cases h
        exact hl.add (hv e rfl) (of_decide_eq_true hroom)
      · cases h
        exact hl
  | addUnlocked e =>
    cases h
    exact hl.add (hv e rfl) (of_decide_eq_true hroom)
  | updateFinish e i slotNum =>
    simp only [Worker.finish] at h
    split at h
    · cases h
      exact hl.update (of_decide_eq_true hroom) e
    · cases h
      exact hl
  | removeFinish e i =>
    have hclear := hl.clear hroom
    simp only [Worker.finish] at h
    split at h
    · cases hc : msmMinidumpClearHeaders e d.minidumpElfheader with
      | mk hdr res =>
        rw [hc] at h hclear
        cases res <;> cases h <;> exact hclear
    · cases h
      exact hl
  | _ => cases h

theorem finish_adding {w w' : Worker} {d d' : Driver} (h : w.finish d = some (d', w'))
    {e : MdRegion} (he : e ∈ w'.adding) : e ∈ w.adding := by
  cases w with
  | addFinish e' i reply =>
    cases reply with
    | none =>
      cases h
      cases he
    | some slotNum =>
      simp only [Worker.finish] at h
      split at h <;> cases h
      · cases he
      · exact he
  | addUnlocked e' =>
    cases h
    cases he
  | updateFinish e' i slotNum =>
    simp only [Worker.finish] at h
    split at h <;> cases h <;> cases he
  | removeFinish e' i =>
    simp only [Worker.finish] at h
    split at h
    · cases hc : msmMinidumpClearHeaders e' d.minidumpElfheader with
      | mk hdr res =>
        rw [hc] at h
        cases res <;> cases h <;> cases he
    · cases h
      cases he
  | _ => cases h

theorem registered_adding {w : Worker} {reply : Option Nat} {e : MdRegion}
    (he : e ∈ (w.registered reply).adding) : e ∈ w.adding := by
  cases w with
  | addRegister e' i => exact he
  | updateRegister e' i => cases reply <;> cases he
  | _ => exact he

theorem deregistered_adding {w : Worker} {ok : Bool} {e : MdRegion}
    (he : e ∈ (w.deregistered ok).adding) : e ∈ w.adding := by
  cases w with
  | updateDeregister e' i slotNum => cases ok <;> cases he
  | removeDeregister e' i slotNum => cases ok <;> cases he
  | _ => exact he

/-- **One step** that writes only where there is room. -/
theorem headerKept_step {a : Action} (h : HeaderKept cfg s) (hok : writesInRoom cfg s a = true)
    (hstep : s.step cfg p a = some t) : HeaderKept cfg t := by
  cases System.step_cases hstep with
  | add alloc e => exact headerKept_add h hok
  | update alloc regno e => exact headerKept_update h hok
  | remove alloc e => exact headerKept_remove h hok
  | probeMode _ =>
    refine ⟨⟨h.waiting.pending, h.waiting.queued⟩, h.adding, ?_⟩
    intro hbuilt
    cases hbuilt
  | probeTables _ => exact headerKept_tables h
  | probeHeader reply _ _ => exact headerKept_header h hok
  | probeDrain alloc hphase => exact headerKept_drain h hphase alloc
  | probeDone hphase =>
    exact ⟨⟨h.waiting.pending, h.waiting.queued⟩, h.adding,
      fun _ => h.elf (by rw [hphase]; rfl)⟩
  | dequeue hwork _ => exact headerKept_dequeue h hwork
  | register reply hwork _ =>
    rw [System.stepRegister] at hwork
    split at hwork
    · cases hwork
    · split at hwork
      · cases hwork
        exact ⟨h.waiting, fun e he => h.adding e (registered_adding he), h.elf⟩
      · cases hwork
  | deregister ok hwork _ =>
    rw [System.stepDeregister] at hwork
    split at hwork
    · cases hwork
    · cases hwork
      exact ⟨h.waiting, fun e he => h.adding e (deregistered_adding he), h.elf⟩
  | finish hwork _ =>
    rw [System.stepFinish] at hwork
    split at hwork
    · cases hwork
    case h_2 d w hfinish =>
      cases hwork
      exact ⟨h.waiting.congr (Worker.finish_frame hfinish),
        fun e he => h.adding e (finish_adding hfinish he),
        fun hbuilt => (h.elf hbuilt).finish h.adding hok hfinish⟩

theorem headerKept_init : HeaderKept cfg System.initial := by
  refine ⟨⟨?_, ?_⟩, ?_, ?_⟩
  · intro e he
    cases he
  · intro e he
    cases he
  · intro e he
    cases he
  · intro hbuilt
    cases hbuilt

end Steps

/-- **The parts of the header buffer never overlap and never leave it**, in either mode and in
every run whose steps write only where there is room for it. -/
theorem layout_ok_of_room {cfg : Config} {p : Platform} {s : System}
    (hs : (minidumpSystem cfg p).Reach (fun s a => writesInRoom cfg s a = true) s)
    (hbuilt : s.phase.built = true) : LayoutOk s.driver.minidumpElfheader := by
  have h : HeaderKept cfg s := by
    apply hs.invariant
    · rintro s rfl
      exact headerKept_init
    · intro s a t h hok hstep
      exact headerKept_step h hok hstep
  exact (h.elf hbuilt).layoutOk

theorem layout_ok_of_room_kmsg :
    let kmsg : MdRegion := ⟨CStr.ofString "KMSG", 0, 0x1000, 0x81000000, 64⟩
    let kirq : MdRegion := ⟨CStr.ofString "KIRQ", 0, 0x2000, 0x82000000, 4⟩
    ∃ s, (minidumpSystem Config.plain (Platform.plain true)).run (writesInRoom Config.plain)
        System.initial
        [.add true kmsg, .probeMode, .probeTables, .probeHeader (some 9), .probeDrain (fun _ => true),
          .probeDone, .add true kirq, .dequeue, .register (some 3), .finish, .dequeue,
          .register (some 4), .finish, .remove true kmsg, .dequeue, .deregister true, .finish] =
        some s ∧ LayoutOk s.driver.minidumpElfheader := by
  intro kmsg kirq
  have hrun : ((minidumpSystem Config.plain (Platform.plain true)).run (writesInRoom Config.plain)
      System.initial
      [.add true kmsg, .probeMode, .probeTables, .probeHeader (some 9), .probeDrain (fun _ => true),
        .probeDone, .add true kirq, .dequeue, .register (some 3), .finish, .dequeue,
        .register (some 4), .finish, .remove true kmsg, .dequeue, .deregister true, .finish]).any
      (fun s => s.phase.built) = true := by
    decide +kernel
  obtain ⟨s, hs, hbuilt⟩ := (Option.any_eq_true _ _).mp hrun
  exact ⟨s, hs, layout_ok_of_room (.of_run (fun _ _ h => h) (.init rfl) hs) hbuilt⟩

/-! ## An overlap -/

/-- Adding regions one after another is a run. -/
theorem reach_addAll {cfg : Config} {p : Platform} (es : List MdRegion) :
    ∀ {s : System}, (minidumpSystem cfg p).Reach (fun _ _ => True) s →
      ∃ t, (minidumpSystem cfg p).Reach (fun _ _ => True) t ∧
        t.driver = (addAll cfg es s.driver).1 ∧ t.phase = s.phase := by
  induction es with
  | nil =>
    intro s hs
    exact ⟨s, hs, rfl, rfl⟩
  | cons e es ih =>
    intro s hs
    have hdriver : (s.stepAdd cfg true e).driver = (msmMinidumpAddRegion cfg true e s.driver).1 ∧
        (s.stepAdd cfg true e).phase = s.phase := by
      rw [System.stepAdd]
      cases msmMinidumpAddRegion cfg true e s.driver with
      | mk d res => cases res <;> exact ⟨rfl, rfl⟩
    obtain ⟨t, ht, hadd, hphase⟩ := ih (.step (a := .add true e) hs trivial rfl)
    rw [hdriver.1] at hadd
    exact ⟨t, ht, hadd, hphase.trans hdriver.2⟩

/-- With 197 regions there is room for no more section header, and the next region is accepted. -/
theorem Refines.full_not_layoutOk {cfg : Config} {addrs : HeaderAddrs} {d : Driver}
    {r : Registry cfg} {e : MdRegion} (h : Refines addrs d r) (hfull : r.regions.length = 197)
    (hv : validateRegion cfg e = .ok ()) (hnew : e.name ∉ r.regions.map MdRegion.name) :
    ¬ LayoutOk (addAll cfg [e] d).1.minidumpElfheader := by
  have hlen := (validateRegion_eq_ok.mp hv).1
  have hmax := cfg.maxNameLength_le
  have hname : e.name.strlen ≤ 15 := by omega
  have helf : (addAll cfg [e] d).1.minidumpElfheader = mdAddElfHeader e d.minidumpElfheader := by
    simp only [addAll, h.addRegion_eq true hv hnew]
    rfl
  intro hok
  have hsections := hok.sections
  rw [helf, elfSheader, elfPheader, h.elf.added_shoff hname, h.elf.added_phoff hname,
    h.elf.added_shnum hname, imageOf_sections_length, hfull] at hsections
  revert hsections
  decide

/-- Region `n` of a long list of regions. -/
def nthRegion (n : Nat) : MdRegion :=
  ⟨CStr.ofString (String.ofList [Char.ofNat (n + 1)]), 0, 0x1000, 0x81000000, 64⟩

/-- **Sections over program headers**: the 198th region is accepted, and its section header is the
202nd. -/
theorem sections_overlap_programs :
    ¬ ∀ s, (minidumpSystem Config.plain (Platform.plain false)).Reach (fun _ _ => True) s →
      s.phase.built = true → LayoutOk s.driver.minidumpElfheader := by
  intro hall
  let toc : MdGlobalToc := ⟨true, 1, 1, ⟨0, 0, 0, 0, 0, 0⟩⟩
  have hready : (minidumpSystem Config.plain (Platform.plain false)).Reach (fun _ _ => True)
      { System.initial with
        driver := smemReady Config.plain (Platform.plain false) toc [], phase := .done } :=
    .step (a := .probeDone) (.step (a := .probeDrain (fun _ => true))
      (.step (a := .probeHeader none) (.step (a := .probeTables) (.step (a := .probeMode)
        (.init rfl) trivial rfl) trivial rfl) trivial rfl) trivial rfl) trivial rfl
  obtain ⟨es, hes⟩ : ∃ es, es = (List.range 197).map nthRegion := ⟨_, rfl⟩
  have hv : ∀ e ∈ es, validateRegion Config.plain e = .ok () := by
    rw [hes]
    decide +kernel
  have hnd : (es.map MdRegion.name).Nodup := by
    -- read as numbers the names increase, which is checked from each to the next
    have hchain : ((es.map MdRegion.name).map
        (fun s => s.bytes.foldl (fun n b => 256 * n + b.toNat) 0)).IsChain (· < ·) := by
      rw [hes]
      decide +kernel
    have hkeys := hchain.pairwise.imp (S := (· ≠ ·)) Nat.ne_of_lt
    exact List.Nodup.of_map _ hkeys
  have hnew : (nthRegion 197).name ∉ es.map MdRegion.name := by
    rw [hes]
    decide +kernel
  have hlen : es.length = 197 := by rw [hes, List.length_map, List.length_range]
  obtain ⟨t, ht, hdriver, hphase⟩ := reach_addAll es hready
  have hinit : Refines (Platform.plain false).addrs
      (smemReady Config.plain (Platform.plain false) toc []) (Registry.empty Config.plain) :=
    refines_init (Platform.plain false) toc
  have hboth := addAll_refines (n := 0) (w := smemEmpty (Platform.plain false) toc es) hinit hv hnd
    (by rw [Registry.empty, List.length_nil, hlen]) ⟨rfl, rfl⟩
  obtain ⟨-, ⟨r, hr, href⟩, -⟩ := hboth
  rw [Registry.empty, List.nil_append] at hr
  rw [← hr] at hlen hnew
  obtain ⟨u, hu, hlast, hphase'⟩ := reach_addAll [nthRegion 197] ht
  have hok := hall u hu (by rw [hphase', hphase]; rfl)
  rw [hlast, hdriver] at hok
  exact href.full_not_layoutOk hlen (by decide +kernel) hnew hok

end SafelinuxDbg.Minidump
