import Mathlib.Data.List.InsertIdx
import SafelinuxDbg.Lib.Ledger
import SafelinuxDbg.Minidump.Calls
import SafelinuxDbg.Minidump.System

/-!
# The system in RM mode

In RM mode the table of the resource manager is a ledger of slots (`System.ledger`).  `RmFrame`
says what every run keeps, whatever the clients and the resource manager do: the places past the
table are cleared, nothing is queued before the pending list is drained, and the place the worker
found for its request still has the request's name.  So the branches for a corrupt table are
never taken.

* `rm_step`: every step keeps the frame, and does to the ledger and the worker one of the few
  things listed in `RmEffect`.  Every result about slots goes through this.
-/

namespace SafelinuxDbg.Minidump

open CMemory

/-- The slots the table of the resource manager records. -/
def heldSlots (d : Driver) : List Nat :=
  (slice d.minidumpRmTable.entry 0 d.numRegions).map MdRmRegion.slotNum

def System.ledger (s : System) : Ledger :=
  ⟨heldSlots s.driver, s.history.ids, s.live, s.history.owner⟩

/-- The pending list is still to be drained. -/
def ProbePhase.early : ProbePhase → Bool
  | .start | .moded | .mapped | .headed => true
  | .drained | .done | .stopped => false

/-- What every run in RM mode keeps. -/
structure RmFrame (s : System) : Prop where
  unmapped : s.driver.minidumpTable.tocMapped = false
  mode : s.phase ≠ .start → s.driver.isRmMinidump = true
  initDone : s.driver.mdInitDone = decide (s.phase = .done)
  rest : ∀ i, s.driver.numRegions ≤ i → s.driver.minidumpRmTable.entry i = MdRmRegion.zero
  early : s.phase.early = true → s.worker = .idle ∧ s.driver.minidumpRmTable.minidumpRmWq = [] ∧
    s.driver.pendingList.length = s.driver.numRegions ∧
    ∀ i, s.driver.minidumpRmTable.entry i = MdRmRegion.zero
  unheaded : s.phase.early = true → s.phase ≠ .headed → s.live = [] ∧ s.kelfSlot = none
  named : ∀ e i, s.worker.task = some (e, i) → i < s.driver.numRegions ∧
    (s.driver.minidumpRmTable.entry i).name = e.name
  sound : s.worker.corrupt = false
  idsLength : s.history.ids.length = s.driver.numRegions
  idsLt : ∀ id ∈ s.history.ids, id < s.history.nextId

/-! ## The table -/

section Table

variable {d : Driver} {cfg : Config} {e : MdRegion} {i slotNum : Nat}

theorem heldSlots_length (d : Driver) : (heldSlots d).length = d.numRegions := by
  rw [heldSlots, List.length_map, slice_length]

theorem heldSlots_getElem? (hi : i < d.numRegions) :
    (heldSlots d)[i]? = some (d.minidumpRmTable.entry i).slotNum := by
  rw [heldSlots, map_slice_getElem? _ _ _ hi, Nat.zero_add]

theorem heldSlots_congr {d' : Driver} (hnum : d'.numRegions = d.numRegions)
    (h : ∀ i, (d'.minidumpRmTable.entry i).slotNum = (d.minidumpRmTable.entry i).slotNum) :
    heldSlots d' = heldSlots d := by
  rw [heldSlots, heldSlots, hnum, slice, slice, List.map_map, List.map_map]
  exact List.map_congr_left (fun i _ => h _)

theorem heldSlots_setSlotNum (d : Driver) (i slotNum : Nat) :
    heldSlots (setSlotNum i slotNum d) = (heldSlots d).set i slotNum := by
  have hnew := slice_update d.minidumpRmTable.entry 0 d.numRegions i
    { d.minidumpRmTable.entry i with slotNum := slotNum }
  rw [Nat.zero_add] at hnew
  simp only [heldSlots, setSlotNum, hnew, List.map_set]

/-- Taking an entry out closes the gap. -/
theorem rmEntries_drop (hi : i < d.numRegions) :
    slice (dropRmEntry i d).minidumpRmTable.entry 0 (dropRmEntry i d).numRegions =
      (slice d.minidumpRmTable.entry 0 d.numRegions).eraseIdx i := by
  have hnew := slice_memmove_memset d.minidumpRmTable.entry 0 hi MdRmRegion.zero
  have hsucc : d.numRegions = d.numRegions - 1 + 1 := by omega
  rw [Nat.zero_add, Nat.zero_add] at hnew
  have hall : slice (memset (memmove d.minidumpRmTable.entry i (i + 1) (d.numRegions - i - 1))
      (d.numRegions - 1) 1 MdRmRegion.zero) 0 (d.numRegions - 1 + 1) =
        (slice d.minidumpRmTable.entry 0 d.numRegions).eraseIdx i ++ [MdRmRegion.zero] := by
    rw [← hsucc]
    exact hnew
  rw [slice_succ] at hall
  exact (List.append_inj' hall rfl).1

theorem heldSlots_drop (hi : i < d.numRegions) :
    heldSlots (dropRmEntry i d) = (heldSlots d).eraseIdx i := by
  rw [heldSlots, rmEntries_drop hi, ← List.eraseIdx_map, heldSlots]

/-- An accepted region is the new last entry. -/
theorem rmEntries_queued :
    slice (queuedRegion cfg e d).minidumpRmTable.entry 0 (queuedRegion cfg e d).numRegions =
      slice d.minidumpRmTable.entry 0 d.numRegions ++
        [⟨e.name.truncate cfg.maxNameLength, 0⟩] := by
  have hnew := slice_update_succ d.minidumpRmTable.entry 0 d.numRegions
    ⟨e.name.truncate cfg.maxNameLength, 0⟩
  rw [Nat.zero_add] at hnew
  exact hnew

theorem heldSlots_queued : heldSlots (queuedRegion cfg e d) = heldSlots d ++ [0] := by
  rw [heldSlots, rmEntries_queued, List.map_append, List.map_singleton, heldSlots]

theorem heldSlots_waiting (hrest : d.minidumpRmTable.entry d.numRegions = MdRmRegion.zero) :
    heldSlots (waitingRegion e d) = heldSlots d ++ [0] := by
  simp only [heldSlots, waitingRegion, slice_succ, Nat.zero_add, hrest, List.map_append,
    List.map_singleton]
  rfl

theorem dropRmEntry_rest (hrest : ∀ k, d.numRegions ≤ k →
    d.minidumpRmTable.entry k = MdRmRegion.zero) (hi : i < d.numRegions) {k : Nat}
    (hk : (dropRmEntry i d).numRegions ≤ k) :
    (dropRmEntry i d).minidumpRmTable.entry k = MdRmRegion.zero := by
  simp only [dropRmEntry] at hk ⊢
  rcases Nat.eq_or_lt_of_le hk with heq | hlt
  · obtain ⟨j, hj⟩ : ∃ j, k = d.numRegions - 1 + j := ⟨0, by omega⟩
    rw [hj, memset_add _ _ (by omega)]
  · rw [memset_of_le _ _ (by omega), memmove_of_le _ (by omega)]
    exact hrest k (by omega)

end Table

/-! ## What a step does to the ledger -/

/-- **What a step can do** to the ledger and the worker in RM mode. -/
inductive RmEffect (s : System) : Action → System → Prop
  /-- nothing: the calls that only queue a request, the probe, a request for no entry -/
  | quiet {a : Action} {t : System} (hledger : t.ledger = s.ledger) (hworker : t.worker = s.worker)
      (hkelf : t.kelfSlot = s.kelfSlot) : RmEffect s a t
  /-- an accepted region gets an entry -/
  | push {a : Action} {t : System} (hledger : t.ledger = s.ledger.push s.history.nextId)
      (hworker : t.worker = s.worker) (hkelf : t.kelfSlot = s.kelfSlot) : RmEffect s a t
  /-- the header buffer gets a slot -/
  | header {slotNum : Nat} {t : System} (hlive : s.live = []) (hidle : s.worker = .idle)
      (hpos : slotNum ≠ 0) (hledger : t.ledger = s.ledger.grant slotNum)
      (hworker : t.worker = .idle) (hkelf : t.kelfSlot = some slotNum) :
      RmEffect s (.probeHeader (some slotNum)) t
  | takeAdd {e : MdRegion} {rest : List MdRmRequest} {i : Nat} {t : System}
      (hqueue : s.driver.minidumpRmTable.minidumpRmWq = ⟨e, .minidumpAdd⟩ :: rest)
      (hfound : mdRmEntryNum s.driver e = .ok i) (hledger : t.ledger = s.ledger)
      (hidle : s.worker = .idle) (hworker : t.worker = .addRegister e i)
      (hkelf : t.kelfSlot = s.kelfSlot) : RmEffect s .dequeue t
  | takeUpdate {e : MdRegion} {rest : List MdRmRequest} {i slotNum : Nat} {t : System}
      (hqueue : s.driver.minidumpRmTable.minidumpRmWq = ⟨e, .minidumpUpdate⟩ :: rest)
      (hfound : mdRmEntryNum s.driver e = .ok i) (hheld : s.ledger.held[i]? = some slotNum)
      (hledger : t.ledger = s.ledger.record i 0)
      (hidle : s.worker = .idle) (hworker : t.worker = .updateDeregister e i slotNum)
      (hkelf : t.kelfSlot = s.kelfSlot) : RmEffect s .dequeue t
  | takeRemove {e : MdRegion} {rest : List MdRmRequest} {i slotNum : Nat} {t : System}
      (hqueue : s.driver.minidumpRmTable.minidumpRmWq = ⟨e, .minidumpRemove⟩ :: rest)
      (hfound : mdRmEntryNum s.driver e = .ok i) (hheld : s.ledger.held[i]? = some slotNum)
      (hpos : slotNum ≠ 0) (hledger : t.ledger = s.ledger.record i 0)
      (hidle : s.worker = .idle) (hworker : t.worker = .removeDeregister e i slotNum)
      (hkelf : t.kelfSlot = s.kelfSlot) : RmEffect s .dequeue t
  | refused {i : Nat} {t : System} (hfor : s.worker.registerFor = some i)
      (hledger : t.ledger = s.ledger) (hworker : t.worker = s.worker.registered none)
      (hkelf : t.kelfSlot = s.kelfSlot) : RmEffect s (.register none) t
  | granted {i slotNum : Nat} {t : System} (hfor : s.worker.registerFor = some i)
      (hpos : slotNum ≠ 0) (hnew : slotNum ∉ s.live)
      (hledger : t.ledger = s.ledger.acquire slotNum i)
      (hworker : t.worker = s.worker.registered (some slotNum))
      (hkelf : t.kelfSlot = s.kelfSlot) : RmEffect s (.register (some slotNum)) t
  | deregister {ok : Bool} {i slotNum : Nat} {t : System}
      (hfor : s.worker.deregisterFor = some (i, slotNum))
      (hledger : t.ledger = s.ledger.release ok (System.slotArgument slotNum))
      (hworker : t.worker = s.worker.deregistered ok) (hkelf : t.kelfSlot = s.kelfSlot) :
      RmEffect s (.deregister ok) t
  /-- the entry is taken out -/
  | finishDrop {e : MdRegion} {i : Nat} {t : System}
      (hfrom : s.worker = .addFinish e i none ∨ s.worker = .removeFinish e i)
      (hledger : t.ledger = s.ledger.drop i) (hworker : t.worker = .idle)
      (hkelf : t.kelfSlot = s.kelfSlot) : RmEffect s .finish t
  /-- the headers refuse the removal -/
  | finishKeep {e : MdRegion} {i : Nat} {t : System} (hfrom : s.worker = .removeFinish e i)
      (hledger : t.ledger = s.ledger) (hworker : t.worker = .idle)
      (hkelf : t.kelfSlot = s.kelfSlot) : RmEffect s .finish t
  /-- the slot is recorded -/
  | finishRecord {e : MdRegion} {i slotNum : Nat} {t : System}
      (hfrom : s.worker = .addFinish e i (some slotNum) ∨ s.worker = .updateFinish e i slotNum)
      (hledger : t.ledger = s.ledger.record i slotNum) (hworker : t.worker = .idle)
      (hkelf : t.kelfSlot = s.kelfSlot) : RmEffect s .finish t

/-! ## Clients -/

section Steps

variable {cfg : Config} {p : Platform} {s : System}

theorem System.setDriver_self (s : System) : s.setDriver s.driver = s := by
  simp [System.setDriver]

theorem RmFrame.done (hf : RmFrame s) (h : s.driver.mdInitDone = true) : s.phase = .done := by
  rw [hf.initDone] at h
  exact of_decide_eq_true h

theorem RmFrame.notDone (hf : RmFrame s) (h : s.phase ≠ .done) : s.driver.mdInitDone = false := by
  rw [hf.initDone]
  exact decide_eq_false h

theorem RmFrame.early_notDone (hf : RmFrame s) (hearly : s.phase.early = true) :
    s.driver.mdInitDone = false := by
  apply hf.notDone
  intro hdone
  rw [hdone] at hearly
  cases hearly

theorem rm_add (hf : RmFrame s) (alloc : Bool) (e : MdRegion) :
    RmFrame (s.stepAdd cfg alloc e) ∧ RmEffect s (.add alloc e) (s.stepAdd cfg alloc e) := by
  have hids : ∀ id ∈ s.history.ids ++ [s.history.nextId], id < s.history.nextId + 1 := by
    intro id hid
    rcases List.mem_append.mp hid with hold | hnew
    · have := hf.idsLt id hold
      omega
    · rw [List.mem_singleton.mp hnew]
      omega
  have hlen : (s.history.ids ++ [s.history.nextId]).length = s.driver.numRegions + 1 := by
    rw [List.length_append, hf.idsLength]
    rfl
  rw [System.stepAdd]
  rcases add_paths cfg alloc e s.driver with
    ⟨err, hr⟩ | ⟨-, -, ⟨-, htoc, -⟩ | ⟨-, hdone, -, hr⟩ | ⟨-, -, -, hr⟩⟩
  · simp only [hr, System.setDriver_self]
    exact ⟨hf, .quiet rfl rfl rfl⟩
  · rw [tocEnabled, hf.unmapped] at htoc
    cases htoc
  · -- the region gets an entry, and a request for it is queued
    have hphase := hf.done hdone
    simp only [hr]
    refine ⟨⟨hf.unmapped, hf.mode, hf.initDone, ?_, ?_, ?_, ?_, hf.sound, hlen, hids⟩, ?_⟩
    · intro i hi
      have hi' : s.driver.numRegions + 1 ≤ i := hi
      have hne : i ≠ s.driver.numRegions := by omega
      simp only [System.accept, System.setDriver, queuedRegion, Function.update_of_ne hne]
      exact hf.rest i (by omega)
    · intro hearly
      simp only [System.accept, System.setDriver, hphase] at hearly
      cases hearly
    · intro hearly
      simp only [System.accept, System.setDriver, hphase] at hearly
      cases hearly
    · intro e' i htask
      obtain ⟨hi, hname⟩ := hf.named e' i htask
      have hne : i ≠ s.driver.numRegions := by omega
      simp only [System.accept, System.setDriver, queuedRegion, Function.update_of_ne hne]
      exact ⟨by omega, hname⟩
    · refine .push ?_ rfl rfl
      simp only [System.ledger, Ledger.push, System.accept, System.setDriver, heldSlots_queued]
  · -- the region waits
    simp only [hr]
    refine ⟨⟨hf.unmapped, hf.mode, hf.initDone, ?_, ?_, hf.unheaded, ?_, hf.sound, hlen, hids⟩, ?_⟩
    · intro i hi
      have hi' : s.driver.numRegions + 1 ≤ i := hi
      exact hf.rest i (by omega)
    · intro hearly
      obtain ⟨hidle, hwq, hpending, hzero⟩ := hf.early hearly
      refine ⟨hidle, hwq, ?_, hzero⟩
      simp only [System.accept, System.setDriver, waitingRegion, List.length_append, hpending,
        List.length_singleton]
    · intro e' i htask
      obtain ⟨hi, hname⟩ := hf.named e' i htask
      simp only [System.accept, System.setDriver, waitingRegion]
      exact ⟨by omega, hname⟩
    · refine .push ?_ rfl rfl
      simp only [System.ledger, Ledger.push, System.accept, System.setDriver,
        heldSlots_waiting (hf.rest _ (Nat.le_refl _))]

/-- A request that a client queues changes neither the table nor the worker. -/
theorem rm_queue (hf : RmFrame s) (hdone : s.driver.mdInitDone = true) (workCmd : MinidumpEntryCmd)
    (e : MdRegion) (a : Action) :
    RmFrame (s.setDriver (queueWork workCmd e s.driver)) ∧
      RmEffect s a (s.setDriver (queueWork workCmd e s.driver)) := by
  have hphase := hf.done hdone
  refine ⟨⟨hf.unmapped, hf.mode, hf.initDone, hf.rest, ?_, ?_, hf.named, hf.sound, hf.idsLength,
    hf.idsLt⟩, .quiet rfl rfl rfl⟩
  · intro hearly
    simp only [System.setDriver, hphase] at hearly
    cases hearly
  · intro hearly
    simp only [System.setDriver, hphase] at hearly
    cases hearly

theorem RmFrame.rm (hf : RmFrame s) (hdone : s.driver.mdInitDone = true) :
    s.driver.isRmMinidump = true := by
  apply hf.mode
  rw [hf.done hdone]
  decide

theorem rm_quiet (hf : RmFrame s) (a : Action) :
    RmFrame (s.setDriver s.driver) ∧ RmEffect s a (s.setDriver s.driver) := by
  rw [System.setDriver_self]
  exact ⟨hf, .quiet rfl rfl rfl⟩

theorem rm_request (hf : RmFrame s) (hdone : s.driver.mdInitDone = true)
    (workCmd : MinidumpEntryCmd) (alloc : Bool) (e : MdRegion) (a : Action) :
    let t := s.setDriver (mdRmRequest workCmd alloc e s.driver).1
    RmFrame t ∧ RmEffect s a t := by
  rcases mdRmRequest_cases workCmd alloc e s.driver with hr | hr
  · rw [hr]
    exact rm_quiet hf a
  · rw [hr]
    exact rm_queue hf hdone workCmd e a

theorem rm_update (hf : RmFrame s) (alloc : Bool) (regno : Nat) (e : MdRegion) :
    let t := s.setDriver (msmMinidumpUpdateRegion cfg alloc regno e s.driver).1
    RmFrame t ∧ RmEffect s (.update alloc regno e) t := by
  rcases update_paths cfg alloc e regno s.driver with
    ⟨-, hr⟩ | ⟨hdone, -, -, ⟨-, hr⟩ | ⟨hrm, -, -⟩ | ⟨hrm, -, -, -⟩⟩
  · rw [hr]
    exact rm_quiet hf _
  · rw [hr]
    exact rm_request hf hdone .minidumpUpdate alloc e _
  · rw [hf.rm hdone] at hrm
    cases hrm
  · rw [hf.rm hdone] at hrm
    cases hrm

theorem rm_remove (hf : RmFrame s) (alloc : Bool) (e : MdRegion) :
    let t := s.setDriver (msmMinidumpRemoveRegion alloc e s.driver).1
    RmFrame t ∧ RmEffect s (.remove alloc e) t := by
  rcases remove_paths alloc e s.driver with ⟨-, hr⟩ | ⟨hdone, -, hr⟩ | ⟨hdone, hrm, -, -⟩
  · rw [hr]
    exact rm_quiet hf _
  · rw [hr]
    exact rm_request hf hdone .minidumpRemove alloc e _
  · rw [hf.rm hdone] at hrm
    cases hrm

/-! ## The probe -/

/-- Draining the pending list in RM mode writes names into the first places of the table and
queues requests. -/
structure DrainRmFrame (places : Nat) (d d' : Driver) : Prop where
  num : d'.numRegions = d.numRegions
  rm : d'.isRmMinidump = d.isRmMinidump
  initDone : d'.mdInitDone = d.mdInitDone
  table : d'.minidumpTable = d.minidumpTable
  elfheader : d'.minidumpElfheader = d.minidumpElfheader
  slots : ∀ i, (d'.minidumpRmTable.entry i).slotNum = (d.minidumpRmTable.entry i).slotNum
  rest : ∀ i, places ≤ i → d'.minidumpRmTable.entry i = d.minidumpRmTable.entry i

theorem drainRm_frame (cfg : Config) (alloc : Nat → Bool) (es : List MdRegion) :
    ∀ (n : Nat) (d : Driver), DrainRmFrame (n + es.length) d (drainRm cfg alloc es n d).1 := by
  induction es with
  | nil =>
    intro n d
    exact ⟨rfl, rfl, rfl, rfl, rfl, fun _ => rfl, fun _ _ => rfl⟩
  | cons e es ih =>
    intro n d
    rw [drainRm]
    cases alloc n with
    | false => exact ⟨rfl, rfl, rfl, rfl, rfl, fun _ => rfl, fun _ _ => rfl⟩
    | true =>
      obtain ⟨h1, h2, h3, h4, h5, h6, h7⟩ := ih (n + 1) (drainRmStep cfg n e es d)
      refine ⟨h1, h2, h3, h4, h5, ?_, ?_⟩
      · intro i
        rw [if_pos rfl, h6]
        simp only [drainRmStep, queueWork]
        by_cases hi : i = n
        · subst hi
          rw [Function.update_self]
        · rw [Function.update_of_ne hi]
      · intro i hi
        rw [List.length_cons] at hi
        rw [if_pos rfl, h7 i (by omega)]
        simp only [drainRmStep, queueWork]
        exact Function.update_of_ne (by omega) _ _

theorem rm_probeMode (hp : p.rm = true) (hf : RmFrame s) (hphase : s.phase = .start) :
    RmFrame { s with driver := probeMode p s.driver, phase := .moded } := by
  obtain ⟨hearly, hunheaded⟩ : s.phase.early = true ∧ s.phase ≠ .headed := by
    rw [hphase]
    decide
  exact ⟨hf.unmapped, fun _ => hp, hf.notDone (by rw [hphase]; decide), hf.rest,
    fun _ => hf.early hearly, fun _ _ => hf.unheaded hearly hunheaded, hf.named, hf.sound,
    hf.idsLength, hf.idsLt⟩

/-- The resource manager's table is allocated where it was clear before. -/
theorem rm_probeTables (hf : RmFrame s) (hphase : s.phase = .moded) :
    RmFrame (s.stepProbeTables p) ∧ RmEffect s .probeTables (s.stepProbeTables p) := by
  have hrm : s.driver.isRmMinidump = true := hf.mode (by rw [hphase]; decide)
  have hnotDone := hf.notDone (by rw [hphase]; decide)
  obtain ⟨hearly, hunheaded⟩ : s.phase.early = true ∧ s.phase ≠ .headed := by
    rw [hphase]
    decide
  obtain ⟨hidle, hwq, hpending, hzero⟩ := hf.early hearly
  have hstop : ∀ d : Driver, d = s.driver →
      RmFrame { s with driver := d, phase := .stopped } ∧
        RmEffect s .probeTables { s with driver := d, phase := .stopped } := by
    rintro d rfl
    exact ⟨⟨hf.unmapped, fun _ => hrm, hnotDone, hf.rest,
      fun h => absurd h Bool.false_ne_true, fun h => absurd h Bool.false_ne_true, hf.named,
      hf.sound, hf.idsLength, hf.idsLt⟩, .quiet rfl rfl rfl⟩
  have hnoTask : ∀ e i, s.worker.task = some (e, i) → False := by
    intro e i h
    rw [hidle] at h
    cases h
  have hcleared : s.driver.minidumpRmTable.entry = fun _ => MdRmRegion.zero := funext hzero
  have hledger : ∀ phase, ({ s with
      driver := { s.driver with minidumpRmTable := ⟨true, [], fun _ => MdRmRegion.zero⟩ }
      phase := phase } : System).ledger = s.ledger := by
    intro phase
    simp only [System.ledger, heldSlots, hcleared]
  rw [System.stepProbeTables, Minidump.probeTables, hrm, if_pos rfl, probeRmTable]
  cases p.rmInfo with
  | error err => exact hstop _ rfl
  | ok n =>
    cases p.tableAlloc with
    | false => exact hstop _ rfl
    | true =>
      cases p.wqAlloc with
      | false =>
        exact ⟨⟨hf.unmapped, fun _ => hrm, hnotDone, fun _ _ => rfl,
          fun h => absurd h Bool.false_ne_true, fun h => absurd h Bool.false_ne_true,
          fun e i h => (hnoTask e i h).elim, hf.sound, hf.idsLength, hf.idsLt⟩,
          .quiet (hledger _) rfl rfl⟩
      | true =>
        exact ⟨⟨hf.unmapped, fun _ => hrm, hnotDone, fun _ _ => rfl,
          fun _ => ⟨hidle, rfl, hpending, fun _ => rfl⟩, fun _ _ => hf.unheaded hearly hunheaded,
          fun e i h => (hnoTask e i h).elim, hf.sound, hf.idsLength, hf.idsLt⟩,
          .quiet (hledger _) rfl rfl⟩

theorem rm_probeHeader (hf : RmFrame s) (hphase : s.phase = .mapped) {reply : Option Nat}
    (hreply : s.Answers reply) :
    RmFrame (s.stepProbeHeader p reply) ∧
      RmEffect s (.probeHeader reply) (s.stepProbeHeader p reply) := by
  have hrm : s.driver.isRmMinidump = true := hf.mode (by rw [hphase]; decide)
  obtain ⟨hearly, hunheaded⟩ : s.phase.early = true ∧ s.phase ≠ .headed := by
    rw [hphase]
    decide
  obtain ⟨hlive, hkelf⟩ := hf.unheaded hearly hunheaded
  have hdriver : ∃ h, (msmMinidumpAddHeader p reply.isSome s.driver).1 =
      { s.driver with minidumpElfheader := h } := by
    rw [msmMinidumpAddHeader, if_pos hrm]
    split <;> exact ⟨_, rfl⟩
  obtain ⟨h, hdriver⟩ := hdriver
  rw [System.stepProbeHeader, hdriver]
  refine ⟨⟨hf.unmapped, fun _ => hrm, hf.notDone (by rw [hphase]; decide), hf.rest,
    fun _ => hf.early hearly, fun _ hne => absurd rfl hne, hf.named, hf.sound, hf.idsLength,
    hf.idsLt⟩, ?_⟩
  cases reply with
  | none => exact .quiet rfl rfl hkelf.symm
  | some slotNum =>
    obtain ⟨hpos, -⟩ := hreply slotNum rfl
    obtain ⟨hidle, -⟩ := hf.early hearly
    exact .header hlive hidle (by omega) rfl hidle rfl

theorem rm_probeDrain (hf : RmFrame s) (hphase : s.phase = .headed) (alloc : Nat → Bool) :
    RmFrame (s.stepProbeDrain cfg alloc) ∧
      RmEffect s (.probeDrain alloc) (s.stepProbeDrain cfg alloc) := by
  have hrm : s.driver.isRmMinidump = true := hf.mode (by rw [hphase]; decide)
  have hearly : s.phase.early = true := by
    rw [hphase]
    decide
  obtain ⟨hidle, -, hpending, -⟩ := hf.early hearly
  have hdrain := drainRm_frame cfg alloc s.driver.pendingList 0 s.driver
  rw [Nat.zero_add, hpending] at hdrain
  have hall : ∀ d phase, DrainRmFrame s.driver.numRegions s.driver d → phase ≠ .start →
      phase ≠ .done → phase.early = false →
      RmFrame { s.setDriver d with phase := phase } ∧
        RmEffect s (.probeDrain alloc) { s.setDriver d with phase := phase } := by
    intro d phase h hstart hdone hlate
    refine ⟨⟨?_, ?_, ?_, ?_, ?_, ?_, ?_, hf.sound, ?_, hf.idsLt⟩, .quiet ?_ rfl rfl⟩
    · exact (congrArg MdTable.tocMapped h.table).trans hf.unmapped
    · exact fun _ => h.rm.trans hrm
    · have hnotDone := h.initDone.trans (hf.notDone (by rw [hphase]; decide))
      exact hnotDone.trans (decide_eq_false hdone).symm
    · intro i hi
      have hi' : d.numRegions ≤ i := hi
      rw [h.num] at hi'
      exact (h.rest i hi').trans (hf.rest i hi')
    · intro he
      rw [hlate] at he
      cases he
    · intro he
      rw [hlate] at he
      cases he
    · intro e i htask
      have htask' : s.worker.task = some (e, i) := htask
      rw [hidle] at htask'
      cases htask'
    · exact hf.idsLength.trans h.num.symm
    · simp only [System.ledger, System.setDriver, heldSlots_congr h.num h.slots]
  rw [System.stepProbeDrain, Minidump.probeDrain, hrm, if_pos rfl]
  cases hr : drainRm cfg alloc s.driver.pendingList 0 s.driver with
  | mk d res =>
    rw [hr] at hdrain
    cases res with
    | error err => exact hall d .stopped hdrain (by decide) (by decide) rfl
    | ok u => exact hall d .drained hdrain (by decide) (by decide) rfl

theorem rm_probeDone (hf : RmFrame s) (hphase : s.phase = .drained) :
    RmFrame { s with driver := probeDone s.driver, phase := .done } := by
  have hrm : s.driver.isRmMinidump = true := hf.mode (by rw [hphase]; decide)
  exact ⟨hf.unmapped, fun _ => hrm, rfl, hf.rest,
    fun h => absurd h Bool.false_ne_true, fun h => absurd h Bool.false_ne_true, hf.named, hf.sound,
    hf.idsLength, hf.idsLt⟩

/-! ## The worker -/

theorem setSlotNum_name (i slotNum k : Nat) (d : Driver) :
    ((setSlotNum i slotNum d).minidumpRmTable.entry k).name =
      (d.minidumpRmTable.entry k).name := by
  simp only [setSlotNum]
  by_cases hk : k = i
  · subst hk
    rw [Function.update_self]
  · rw [Function.update_of_ne hk]

theorem setSlotNum_rest {d : Driver} {i : Nat} (slotNum : Nat) (hi : i < d.numRegions)
    (hrest : ∀ k, d.numRegions ≤ k → d.minidumpRmTable.entry k = MdRmRegion.zero) :
    ∀ k, d.numRegions ≤ k → (setSlotNum i slotNum d).minidumpRmTable.entry k = MdRmRegion.zero := by
  intro k hk
  simp only [setSlotNum]
  rw [Function.update_of_ne (by omega)]
  exact hrest k hk

theorem RmFrame.late (hf : RmFrame s) (h : s.worker ≠ .idle ∨
    s.driver.minidumpRmTable.minidumpRmWq ≠ []) : s.phase.early = false := by
  cases hearly : s.phase.early with
  | false => rfl
  | true =>
    obtain ⟨hidle, hwq, -⟩ := hf.early hearly
    rcases h with h | h
    · exact absurd hidle h
    · exact absurd hwq h

/-- A step of the worker that changes the slots of its entries, and no more of the table. -/
theorem RmFrame.work (hf : RmFrame s) (hlate : s.phase.early = false) {t : System}
    (hphase : t.phase = s.phase) (hmapped : t.driver.minidumpTable = s.driver.minidumpTable)
    (hrm : t.driver.isRmMinidump = s.driver.isRmMinidump)
    (hdone : t.driver.mdInitDone = s.driver.mdInitDone)
    (hnum : t.driver.numRegions = s.driver.numRegions)
    (hrest : ∀ i, s.driver.numRegions ≤ i →
      t.driver.minidumpRmTable.entry i = s.driver.minidumpRmTable.entry i)
    (hnames : ∀ i, (t.driver.minidumpRmTable.entry i).name =
      (s.driver.minidumpRmTable.entry i).name)
    (hids : t.history.ids = s.history.ids) (hnext : t.history.nextId = s.history.nextId)
    (htask : ∀ e i, t.worker.task = some (e, i) →
      i < s.driver.numRegions ∧ (s.driver.minidumpRmTable.entry i).name = e.name)
    (hsound : t.worker.corrupt = false) : RmFrame t := by
  refine ⟨?_, ?_, ?_, ?_, ?_, ?_, ?_, hsound, ?_, ?_⟩
  · rw [hmapped]
    exact hf.unmapped
  · rw [hphase, hrm]
    exact hf.mode
  · rw [hphase, hdone]
    exact hf.initDone
  · intro i hi
    rw [hnum] at hi
    rw [hrest i hi]
    exact hf.rest i hi
  · rw [hphase, hlate]
    intro h
    cases h
  · rw [hphase, hlate]
    intro h
    cases h
  · intro e i h
    rw [hnum, hnames]
    exact htask e i h
  · rw [hids, hnum]
    exact hf.idsLength
  · rw [hids, hnext]
    exact hf.idsLt

theorem mdRmEntryNum_eq_ok {d : Driver} {e : MdRegion} {i : Nat} (h : mdRmEntryNum d e = .ok i) :
    i < d.numRegions ∧ (d.minidumpRmTable.entry i).name = e.name :=
  let ⟨hlt, hname, _⟩ := firstNamed_eq_ok.mp h
  ⟨hlt, hname⟩

/-- A request that takes the slot out of its entry keeps the frame, and the ledger records it. -/
theorem RmFrame.take (hf : RmFrame s) (hlate : s.phase.early = false) {e : MdRegion} {i : Nat}
    (hfound : mdRmEntryNum s.driver e = .ok i) (rest : List MdRmRequest) {w : Worker}
    (htask : w.task = some (e, i)) (hsound : w.corrupt = false) {t : System}
    (ht : t = { s with
      driver := setSlotNum i 0 { s.driver with
        minidumpRmTable := { s.driver.minidumpRmTable with minidumpRmWq := rest } }
      worker := w }) :
    RmFrame t ∧ t.ledger = s.ledger.record i 0 := by
  subst ht
  obtain ⟨hi, hname⟩ := mdRmEntryNum_eq_ok hfound
  constructor
  · refine hf.work hlate rfl rfl rfl rfl rfl ?_ (setSlotNum_name i 0 · s.driver) rfl rfl ?_ hsound
    · intro k hk
      exact (setSlotNum_rest 0 hi hf.rest k hk).trans (hf.rest k hk).symm
    · intro e' i' htask'
      cases htask.symm.trans htask'
      exact ⟨hi, hname⟩
  · simp only [System.ledger, Ledger.record]
    rw [← heldSlots_setSlotNum]
    rfl

theorem rm_dequeue {t : System} (hf : RmFrame s) (h : s.stepDequeue = some t) :
    RmFrame t ∧ RmEffect s .dequeue t := by
  rw [System.stepDequeue] at h
  split at h
  case h_2 => cases h
  case h_1 request rest hidle hqueue =>
    have hlate : s.phase.early = false := hf.late (Or.inr (by rw [hqueue]; simp))
    rw [Option.some.injEq] at h
    subst h
    obtain ⟨e, workCmd⟩ := request
    -- a request that is dropped leaves everything but the queue as it was
    have hdropped : ∀ w, w = Worker.idle → ∀ d, d = { s.driver with
          minidumpRmTable := { s.driver.minidumpRmTable with minidumpRmWq := rest } } →
        RmFrame { s with driver := d, worker := w } ∧
          RmEffect s .dequeue { s with driver := d, worker := w } := by
      rintro w rfl d rfl
      exact ⟨hf.work hlate rfl rfl rfl rfl rfl (fun _ _ => rfl) (fun _ => rfl) rfl rfl
        (fun e i h => by cases h) rfl, .quiet rfl hidle.symm rfl⟩
    have hlookup : mdRmEntryNum { s.driver with
        minidumpRmTable := { s.driver.minidumpRmTable with minidumpRmWq := rest } } e =
        mdRmEntryNum s.driver e := rfl
    cases workCmd with
    | minidumpNoCmd => exact hdropped _ rfl _ rfl
    | minidumpAdd =>
      simp only [minidumpRmWork, mdRmAddWork, hlookup]
      cases hfound : mdRmEntryNum s.driver e with
      | error err => exact hdropped _ rfl _ rfl
      | ok i =>
        refine ⟨hf.work hlate rfl rfl rfl rfl rfl (fun _ _ => rfl) (fun _ => rfl) rfl rfl ?_
          rfl, .takeAdd hqueue hfound rfl hidle rfl rfl⟩
        intro e' i' htask
        cases htask
        exact mdRmEntryNum_eq_ok hfound
    | minidumpUpdate =>
      simp only [minidumpRmWork, mdRmUpdateWork, hlookup]
      cases hfound : mdRmEntryNum s.driver e with
      | error err => exact hdropped _ rfl _ rfl
      | ok i =>
        obtain ⟨hframe, hledger⟩ := hf.take hlate hfound rest
          (w := .updateDeregister e i (s.driver.minidumpRmTable.entry i).slotNum) rfl rfl rfl
        exact ⟨hframe, .takeUpdate hqueue hfound
          (heldSlots_getElem? (mdRmEntryNum_eq_ok hfound).1) hledger hidle rfl rfl⟩
    | minidumpRemove =>
      simp only [minidumpRmWork, mdRmRemoveWork, hlookup]
      cases hfound : mdRmEntryNum s.driver e with
      | error err => exact hdropped _ rfl _ rfl
      | ok i =>
        simp only
        by_cases hslot : (s.driver.minidumpRmTable.entry i).slotNum = 0
        · rw [if_pos hslot]
          exact hdropped _ rfl _ rfl
        rw [if_neg hslot]
        obtain ⟨hframe, hledger⟩ := hf.take hlate hfound rest
          (w := .removeDeregister e i (s.driver.minidumpRmTable.entry i).slotNum) rfl rfl rfl
        exact ⟨hframe, .takeRemove hqueue hfound
          (heldSlots_getElem? (mdRmEntryNum_eq_ok hfound).1) hslot hledger hidle rfl rfl⟩

theorem registered_task {w : Worker} {i : Nat} (hfor : w.registerFor = some i)
    (reply : Option Nat) :
    (∀ e' i', (w.registered reply).task = some (e', i') → w.task = some (e', i')) ∧
      (w.registered reply).corrupt = false := by
  cases w <;> cases hfor
  case addRegister.refl e => exact ⟨fun e' i' h => h, rfl⟩
  case updateRegister.refl e =>
    cases reply with
    | none =>
      refine ⟨?_, rfl⟩
      intro e' i' h
      cases h
    | some slotNum => exact ⟨fun e' i' h => h, rfl⟩

theorem rm_register {t : System} (hf : RmFrame s) {reply : Option Nat}
    (h : s.stepRegister reply = some t) : RmFrame t ∧ RmEffect s (.register reply) t := by
  rw [System.stepRegister] at h
  cases hfor : s.worker.registerFor with
  | none =>
    rw [hfor] at h
    cases h
  | some i =>
    rw [hfor] at h
    simp only at h
    split at h
    case isFalse => cases h
    case isTrue hreply =>
      have hlate : s.phase.early = false := by
        apply hf.late
        left
        intro hidle
        rw [hidle] at hfor
        cases hfor
      obtain ⟨htask, hsound⟩ := registered_task hfor reply
      rw [Option.some.injEq] at h
      subst h
      refine ⟨hf.work hlate rfl rfl rfl rfl rfl (fun _ _ => rfl) (fun _ => rfl) rfl rfl
        (fun e' i' h' => hf.named e' i' (htask e' i' h')) hsound, ?_⟩
      cases reply with
      | none => exact .refused hfor rfl rfl rfl
      | some slotNum =>
        obtain ⟨hpos, hnew⟩ := hreply slotNum rfl
        exact .granted hfor (by omega) hnew rfl rfl rfl

theorem deregistered_task {w : Worker} {is : Nat × Nat} (hfor : w.deregisterFor = some is)
    (hsound : w.corrupt = false) (ok : Bool) :
    (∀ e' i', (w.deregistered ok).task = some (e', i') → w.task = some (e', i')) ∧
      (w.deregistered ok).corrupt = false := by
  cases w <;> cases hfor
  case addDeregister.refl e => cases hsound
  all_goals
    cases ok with
    | false =>
      refine ⟨?_, rfl⟩
      intro e' i' h
      cases h
    | true => exact ⟨fun e' i' h => h, rfl⟩

theorem rm_deregister {t : System} (hf : RmFrame s) {ok : Bool}
    (h : s.stepDeregister ok = some t) : RmFrame t ∧ RmEffect s (.deregister ok) t := by
  rw [System.stepDeregister] at h
  cases hfor : s.worker.deregisterFor with
  | none =>
    rw [hfor] at h
    cases h
  | some is =>
    obtain ⟨i, slotNum⟩ := is
    rw [hfor, Option.some.injEq] at h
    subst h
    have hlate : s.phase.early = false := by
      apply hf.late
      left
      intro hidle
      rw [hidle] at hfor
      cases hfor
    obtain ⟨htask, hsound⟩ := deregistered_task hfor hf.sound ok
    exact ⟨hf.work hlate rfl rfl rfl rfl rfl (fun _ _ => rfl) (fun _ => rfl) rfl rfl
      (fun e' i' h' => hf.named e' i' (htask e' i' h')) hsound, .deregister hfor rfl rfl rfl⟩

/-- In the second critical section the worker still finds the name it looked up. -/
theorem RmFrame.stillNamed (hf : RmFrame s) {e : MdRegion} {i : Nat}
    (htask : s.worker.task = some (e, i)) :
    i < s.driver.numRegions ∧ Worker.stillNamed e i s.driver = true := by
  obtain ⟨hi, hname⟩ := hf.named e i htask
  exact ⟨hi, beq_iff_eq.mpr hname.symm⟩

/-- The entry of the worker's request is taken out. -/
theorem RmFrame.drop (hf : RmFrame s) (hlate : s.phase.early = false) {i : Nat}
    (hi : i < s.driver.numRegions) (h : MdElfhdr) :
    RmFrame { s with
      driver := dropRmEntry i { s.driver with minidumpElfheader := h }
      worker := .idle
      history := { s.history with ids := s.history.ids.eraseIdx i } } := by
  refine ⟨hf.unmapped, hf.mode, hf.initDone, ?_, ?_, ?_, ?_, rfl, ?_, ?_⟩
  · intro k hk
    exact dropRmEntry_rest hf.rest hi hk
  · intro hearly
    have hearly' : s.phase.early = true := hearly
    rw [hlate] at hearly'
    cases hearly'
  · intro hearly
    have hearly' : s.phase.early = true := hearly
    rw [hlate] at hearly'
    cases hearly'
  · intro e' i' htask
    cases htask
  · have hlen : (s.history.ids.eraseIdx i).length = s.driver.numRegions - 1 := by
      rw [List.length_eraseIdx_of_lt (by rw [hf.idsLength]; exact hi), hf.idsLength]
    exact hlen
  · intro id hid
    exact hf.idsLt id (List.mem_of_mem_eraseIdx hid)

theorem ledger_drop {i : Nat} (hi : i < s.driver.numRegions) (h : MdElfhdr) :
    ({ s with
      driver := dropRmEntry i { s.driver with minidumpElfheader := h }
      worker := .idle
      history := { s.history with ids := s.history.ids.eraseIdx i } } : System).ledger =
      s.ledger.drop i := by
  simp only [System.ledger, Ledger.drop]
  rw [← heldSlots_drop hi]
  rfl

/-- The slot of the worker's request is recorded. -/
theorem RmFrame.recordSlot (hf : RmFrame s) (hlate : s.phase.early = false) {i : Nat}
    (hi : i < s.driver.numRegions) (slotNum : Nat) (h : MdElfhdr) :
    RmFrame { s with
      driver := { setSlotNum i slotNum s.driver with minidumpElfheader := h }, worker := .idle } := by
  refine hf.work hlate rfl rfl rfl rfl rfl ?_ (setSlotNum_name i slotNum · s.driver) rfl rfl ?_ rfl
  · intro k hk
    exact (setSlotNum_rest slotNum hi hf.rest k hk).trans (hf.rest k hk).symm
  · intro e' i' htask
    cases htask

theorem ledger_recordSlot (i slotNum : Nat) (h : MdElfhdr) :
    ({ s with
      driver := { setSlotNum i slotNum s.driver with minidumpElfheader := h }
      worker := .idle } : System).ledger = s.ledger.record i slotNum := by
  simp only [System.ledger, Ledger.record]
  rw [← heldSlots_setSlotNum]
  rfl

theorem rm_finish {t : System} (hf : RmFrame s) (h : s.stepFinish = some t) :
    RmFrame t ∧ RmEffect s .finish t := by
  have hlate : s.worker ≠ .idle → s.phase.early = false := fun hne => hf.late (Or.inl hne)
  rw [System.stepFinish] at h
  cases hw : s.worker with
  | addFinish e i reply =>
    have hlate := hlate (by rw [hw]; simp)
    obtain ⟨hi, hnamed⟩ := hf.stillNamed (show s.worker.task = some (e, i) by rw [hw]; rfl)
    cases reply with
    | none =>
      have hless : (dropRmEntry i s.driver).numRegions < s.driver.numRegions := by
        simp only [dropRmEntry]
        omega
      simp only [hw, Worker.finish, Worker.task, if_pos hless, Option.some.injEq] at h
      subst h
      exact ⟨hf.drop hlate hi s.driver.minidumpElfheader,
        .finishDrop (Or.inl hw) (ledger_drop hi s.driver.minidumpElfheader) rfl rfl⟩
    | some slotNum =>
      simp only [hw, Worker.finish, Worker.task, hnamed, if_true, setSlotNum, Nat.lt_irrefl,
        if_false, Option.some.injEq] at h
      subst h
      exact ⟨hf.recordSlot hlate hi slotNum _,
        .finishRecord (Or.inl hw) (ledger_recordSlot i slotNum _) rfl rfl⟩
  | updateFinish e i slotNum =>
    have hlate := hlate (by rw [hw]; simp)
    obtain ⟨hi, hnamed⟩ := hf.stillNamed (show s.worker.task = some (e, i) by rw [hw]; rfl)
    simp only [hw, Worker.finish, Worker.task, hnamed, if_true, setSlotNum, Nat.lt_irrefl,
      if_false, Option.some.injEq] at h
    subst h
    exact ⟨hf.recordSlot hlate hi slotNum _,
      .finishRecord (Or.inr hw) (ledger_recordSlot i slotNum _) rfl rfl⟩
  | removeFinish e i =>
    have hlate := hlate (by rw [hw]; simp)
    obtain ⟨hi, hnamed⟩ := hf.stillNamed (show s.worker.task = some (e, i) by rw [hw]; rfl)
    simp only [hw, Worker.finish, Worker.task, hnamed, if_true] at h
    cases hc : msmMinidumpClearHeaders e s.driver.minidumpElfheader with
    | mk hdr res =>
      rw [hc] at h
      cases res with
      | error err =>
        simp only [Nat.lt_irrefl, if_false, Option.some.injEq] at h
        subst h
        refine ⟨hf.work hlate rfl rfl rfl rfl rfl (fun _ _ => rfl) (fun _ => rfl) rfl rfl ?_ rfl,
          .finishKeep hw rfl rfl rfl⟩
        intro e' i' htask
        cases htask
      | ok u =>
        have hless : (dropRmEntry i { s.driver with minidumpElfheader := hdr }).numRegions <
            s.driver.numRegions := by
          simp only [dropRmEntry]
          omega
        simp only [if_pos hless, Option.some.injEq] at h
        subst h
        exact ⟨hf.drop hlate hi hdr, .finishDrop (Or.inr hw) (ledger_drop hi hdr) rfl rfl⟩
  | addUnlocked e =>
    have hsound := hf.sound
    rw [hw] at hsound
    cases hsound
  | _ =>
    simp only [hw, Worker.finish] at h
    cases h

/-! ## Every step -/

/-- **One step** in RM mode keeps the frame and has one of the listed effects. -/
theorem rm_step (hp : p.rm = true) {a : Action} {t : System} (hf : RmFrame s)
    (h : s.step cfg p a = some t) : RmFrame t ∧ RmEffect s a t := by
  cases System.step_cases h with
  | add alloc e => exact rm_add hf alloc e
  | update alloc regno e => exact rm_update hf alloc regno e
  | remove alloc e => exact rm_remove hf alloc e
  | probeMode hphase => exact ⟨rm_probeMode hp hf hphase, .quiet rfl rfl rfl⟩
  | probeTables hphase => exact rm_probeTables hf hphase
  | probeHeader reply hphase hreply => exact rm_probeHeader hf hphase hreply
  | probeDrain alloc hphase => exact rm_probeDrain hf hphase alloc
  | probeDone hphase => exact ⟨rm_probeDone hf hphase, .quiet rfl rfl rfl⟩
  | dequeue hwork _ => exact rm_dequeue hf hwork
  | register reply hwork _ => exact rm_register hf hwork
  | deregister ok hwork _ => exact rm_deregister hf hwork
  | finish hwork _ => exact rm_finish hf hwork

theorem rmFrame_init : RmFrame System.initial := by
  refine ⟨rfl, fun h => absurd rfl h, rfl, fun _ _ => rfl,
    fun _ => ⟨rfl, rfl, rfl, fun _ => rfl⟩, fun _ _ => ⟨rfl, rfl⟩, ?_, rfl, rfl, ?_⟩
  · intro e i htask
    cases htask
  · intro id hid
    cases hid

/-- An invariant of the ledger and the worker: it holds at the start, and every effect keeps it
when the step meets `ok`. -/
theorem rm_invariant (hp : p.rm = true) {ok : System → Action → Prop} {I : System → Prop}
    (h0 : I System.initial)
    (hs : ∀ s a t, RmFrame s → I s → ok s a → RmEffect s a t → I t) {s : System}
    (h : (minidumpSystem cfg p).Reach ok s) : RmFrame s ∧ I s := by
  refine h.invariant (I := fun s => RmFrame s ∧ I s) ?_ ?_
  · rintro s rfl
    exact ⟨rmFrame_init, h0⟩
  · rintro s a t ⟨hf, hi⟩ hok hstep
    obtain ⟨hf', heffect⟩ := rm_step hp hf hstep
    exact ⟨hf', hs s a t hf hi hok heffect⟩

end Steps

end SafelinuxDbg.Minidump
