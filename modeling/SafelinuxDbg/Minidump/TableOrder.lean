import Mathlib.Algebra.Order.BigOperators.Group.List
import SafelinuxDbg.Minidump.Consistency
import SafelinuxDbg.Minidump.Initialisation
import SafelinuxDbg.Minidump.SlotOwnership

/-!
# The order of the table and of the headers

In RM mode a region gets its entry in the table when the client calls, but its headers only when
the worker has registered it.  The headers of entry `i` are then found by counting: section `i + 4`
and program header `i + 1`.  This is right because the worker completes the requests in the order
in which they were made: the regions with headers come first in the table, in the order of their
headers, and behind them those whose requests wait, in the order of the queue (`InOrder`).

* `entry_still_named`: the place the worker has found for its request keeps the request's name, so
  the branches for a corrupt table are never taken.
* `OrderEffect`: what a step can do to the names, the headers and the requests.
* `table_in_order`: the table is in order in every run of calls that keep to the rules, once the
  header buffer was registered.
* `table_out_of_order`: the probe goes on when that registration is refused, and then the headers
  are written over a buffer of zeros.
-/

namespace SafelinuxDbg.Minidump

open CMemory

/-! ## The place of a request -/

/-- **The worker finds the same name again** when it takes the lock for the second time, whatever
the clients did in between and whatever the resource manager answered. -/
theorem entry_still_named {cfg : Config} {p : Platform} (hp : p.rm = true) {s : System}
    (h : (minidumpSystem cfg p).Reach (fun _ _ => True) s) :
    (∀ e i, s.worker.task = some (e, i) →
      i < s.driver.numRegions ∧ Worker.stillNamed e i s.driver = true) ∧
    s.worker.corrupt = false := by
  obtain ⟨hf, -⟩ := rm_invariant (I := fun _ => True) hp trivial (fun _ _ _ _ _ _ _ => trivial) h
  exact ⟨fun e i htask => hf.stillNamed htask, hf.sound⟩

/-- An earlier region is refused and taken out while the worker is about to add the next one. -/
theorem entry_still_named_kirq :
    let kmsg : MdRegion := ⟨CStr.ofString "KMSG", 0, 0x1000, 0x81000000, 64⟩
    let kirq : MdRegion := ⟨CStr.ofString "KIRQ", 0, 0x2000, 0x82000000, 4⟩
    ∃ s, rmRun (fun _ _ => true) [.add true kmsg, .dequeue, .add true kirq, .register none,
        .finish, .dequeue, .remove true kirq, .register (some 1)] = some s ∧
      s.worker.task = some (kirq, 0) ∧ Worker.stillNamed kirq 0 s.driver = true := by
  intro kmsg kirq
  have hrun : (rmRun (fun _ _ => true) [.add true kmsg, .dequeue, .add true kirq, .register none,
      .finish, .dequeue, .remove true kirq, .register (some 1)]).any
      (fun s => s.worker.task == some (kirq, 0)) = true := by decide +kernel
  obtain ⟨s, hs, hw⟩ := (Option.any_eq_true _ _).mp hrun
  have htask := beq_iff_eq.mp hw
  exact ⟨s, hs, htask, ((entry_still_named rfl
    (.of_run (fun _ _ _ => trivial) (.init rfl) hs)).1 kirq 0 htask).2⟩

/-! ## The requests -/

/-- The request the worker is busy with. -/
def Worker.request : Worker → Option MdRmRequest
  | .idle => none
  | .addRegister e _ | .addFinish e _ _ | .addDeregister e _ _ | .addUnlocked e =>
    some ⟨e, .minidumpAdd⟩
  | .updateDeregister e _ _ | .updateRegister e _ | .updateFinish e _ _ =>
    some ⟨e, .minidumpUpdate⟩
  | .removeDeregister e _ _ | .removeFinish e _ => some ⟨e, .minidumpRemove⟩

/-- The requests that are not completed, oldest first. -/
def System.requests (s : System) : List MdRmRequest :=
  s.worker.request.toList ++ s.driver.minidumpRmTable.minidumpRmWq

/-- The region that a request adds. -/
def MdRmRequest.adds (r : MdRmRequest) : Option MdRegion :=
  if r.workCmd = .minidumpAdd then some r.entry else none

/-- The regions whose requests to add them are not completed, oldest first. -/
def System.adding (s : System) : List MdRegion := s.requests.filterMap MdRmRequest.adds

/-- The names in the resource manager's table. -/
def rmNames (d : Driver) : List CStr :=
  (slice d.minidumpRmTable.entry 0 d.numRegions).map MdRmRegion.name

/-! ## The regions that are complete -/

/-- The region called as `e` is moved to the addresses of `e`. -/
def moveNamed (e : MdRegion) (R : List MdRegion) : List MdRegion :=
  R.modify (R.findIdx (fun r => r.name == e.name)) (MdRegion.moveTo e)

/-- The region of this name is taken out. -/
def dropNamed (name : CStr) (R : List MdRegion) : List MdRegion :=
  R.eraseIdx (R.findIdx (fun r => r.name == name))

/-- What a step of the worker does to the record of the regions that are registered: the second
critical section completes an addition, an update, or a removal that was not refused. -/
def System.completed (s : System) (a : Action) (t : System) (R : List MdRegion) :
    List MdRegion :=
  match a, s.worker with
  | .finish, .addFinish e _ (some _) => R ++ [e]
  | .finish, .updateFinish e _ _ => moveNamed e R
  | .finish, .removeFinish e _ =>
    if t.driver.numRegions < s.driver.numRegions then dropNamed e.name R else R
  | _, _ => R

section Names

variable {d : Driver} {cfg : Config} {e : MdRegion} {i : Nat}

theorem rmNames_length (d : Driver) : (rmNames d).length = d.numRegions := by
  rw [rmNames, List.length_map, slice_length]

theorem rmNames_getElem? (hi : i < d.numRegions) :
    (rmNames d)[i]? = some (d.minidumpRmTable.entry i).name := by
  rw [rmNames, map_slice_getElem? _ _ _ hi, Nat.zero_add]

theorem mem_rmNames {name : CStr} :
    name ∈ rmNames d ↔ ∃ i, i < d.numRegions ∧ (d.minidumpRmTable.entry i).name = name := by
  rw [rmNames, mem_map_slice]
  simp only [Nat.zero_add]

theorem rmNames_congr {d' : Driver} (hnum : d'.numRegions = d.numRegions)
    (h : ∀ i, (d'.minidumpRmTable.entry i).name = (d.minidumpRmTable.entry i).name) :
    rmNames d' = rmNames d := by
  rw [rmNames, rmNames, hnum, slice, slice, List.map_map, List.map_map]
  exact List.map_congr_left (fun i _ => h _)

theorem rmNames_setSlotNum (d : Driver) (i slotNum : Nat) :
    rmNames (setSlotNum i slotNum d) = rmNames d :=
  rmNames_congr rfl (setSlotNum_name i slotNum · d)

theorem rmNames_drop (hi : i < d.numRegions) :
    rmNames (dropRmEntry i d) = (rmNames d).eraseIdx i := by
  rw [rmNames, rmEntries_drop hi, ← List.eraseIdx_map, rmNames]

theorem rmNames_queued (hv : validateRegion cfg e = .ok ()) :
    rmNames (queuedRegion cfg e d) = rmNames d ++ [e.name] := by
  rw [rmNames, rmEntries_queued, List.map_append, List.map_singleton, (name_truncate hv).1, rmNames]

theorem not_mem_of_error {err : Errno} (h : mdRmEntryNum d e = .error err) :
    e.name ∉ rmNames d := by
  intro hmem
  obtain ⟨i, hi, hname⟩ := mem_rmNames.mp hmem
  exact (firstNamed_eq_error.mp h).2 i hi hname

end Names

/-! ## What a step does -/

/-- **What a step can do** to the names in the table, the headers and the requests, once the pending
list was drained. -/
inductive OrderEffect (cfg : Config) (s : System) : Action → System → Prop
  /-- nothing, or a request goes on to its next call -/
  | quiet {a : Action} {t : System} (hnames : rmNames t.driver = rmNames s.driver)
      (helf : t.driver.minidumpElfheader = s.driver.minidumpElfheader)
      (hrequests : t.requests = s.requests) (hnote : ∀ R, s.completed a t R = R) :
      OrderEffect cfg s a t
  /-- a request to update or remove a region is queued -/
  | queue {a : Action} {t : System} {r : MdRmRequest} (hadds : r.adds = none)
      (hremove : r.workCmd = .minidumpRemove → ∃ alloc, a = .remove alloc r.entry)
      (hnames : rmNames t.driver = rmNames s.driver)
      (helf : t.driver.minidumpElfheader = s.driver.minidumpElfheader)
      (hrequests : t.requests = s.requests ++ [r]) (hnote : ∀ R, s.completed a t R = R) :
      OrderEffect cfg s a t
  /-- a region gets an entry, and a request to add it is queued -/
  | push {alloc : Bool} {e : MdRegion} {t : System} (hv : validateRegion cfg e = .ok ())
      (hadmits : admits cfg e s.driver = true) (hnew : e.name ∉ rmNames s.driver)
      (hnames : rmNames t.driver = rmNames s.driver ++ [e.name])
      (helf : t.driver.minidumpElfheader = s.driver.minidumpElfheader)
      (hrequests : t.requests = s.requests ++ [⟨e, .minidumpAdd⟩]) :
      OrderEffect cfg s (.add alloc e) t
  /-- a request to update or remove a region ends without an effect on the headers -/
  | ended {a : Action} {t : System} {r : MdRmRequest} (hadds : r.adds = none)
      (hnames : rmNames t.driver = rmNames s.driver)
      (helf : t.driver.minidumpElfheader = s.driver.minidumpElfheader)
      (hrequests : s.requests = r :: t.requests) (hnote : ∀ R, s.completed a t R = R) :
      OrderEffect cfg s a t
  /-- a request to add a region finds no entry -/
  | lost {e : MdRegion} {t : System} (hmissing : e.name ∉ rmNames s.driver)
      (hrequests : s.requests = ⟨e, .minidumpAdd⟩ :: t.requests) : OrderEffect cfg s .dequeue t
  | refused {e : MdRegion} {i : Nat} {t : System} (hw : s.worker = .addFinish e i none)
      (hi : (rmNames s.driver)[i]? = some e.name)
      (hnames : rmNames t.driver = (rmNames s.driver).eraseIdx i)
      (helf : t.driver.minidumpElfheader = s.driver.minidumpElfheader)
      (hrequests : s.requests = ⟨e, .minidumpAdd⟩ :: t.requests) : OrderEffect cfg s .finish t
  | added {e : MdRegion} {i slotNum : Nat} {t : System}
      (hw : s.worker = .addFinish e i (some slotNum))
      (hnames : rmNames t.driver = rmNames s.driver)
      (helf : t.driver.minidumpElfheader = mdAddElfHeader e s.driver.minidumpElfheader)
      (hrequests : s.requests = ⟨e, .minidumpAdd⟩ :: t.requests) : OrderEffect cfg s .finish t
  | updated {e : MdRegion} {i slotNum : Nat} {t : System}
      (hw : s.worker = .updateFinish e i slotNum) (hi : (rmNames s.driver)[i]? = some e.name)
      (hnames : rmNames t.driver = rmNames s.driver)
      (helf : t.driver.minidumpElfheader = mdUpdateElfHeader i e s.driver.minidumpElfheader)
      (hrequests : s.requests = ⟨e, .minidumpUpdate⟩ :: t.requests) : OrderEffect cfg s .finish t
  | removed {e : MdRegion} {i pidx shidx : Nat} {t : System} (hw : s.worker = .removeFinish e i)
      (hi : (rmNames s.driver)[i]? = some e.name)
      (hlookup : clearLookup e s.driver.minidumpElfheader = some (pidx, shidx))
      (hnum : t.driver.numRegions < s.driver.numRegions)
      (hnames : rmNames t.driver = (rmNames s.driver).eraseIdx i)
      (helf : t.driver.minidumpElfheader =
        (msmMinidumpClearHeaders e s.driver.minidumpElfheader).1)
      (hrequests : s.requests = ⟨e, .minidumpRemove⟩ :: t.requests) : OrderEffect cfg s .finish t

/-- The pending list was drained. -/
def ProbePhase.late : ProbePhase → Bool
  | .drained | .done => true
  | _ => false

section Steps

variable {cfg : Config} {p : Platform} {s t : System}

/-- How the probe goes on. -/
inductive ProbeStep : ProbePhase → ProbePhase → Prop
  | mode : ProbeStep .start .moded
  | tables : ProbeStep .moded .mapped
  | noTables : ProbeStep .moded .stopped
  | header : ProbeStep .mapped .headed
  | drain : ProbeStep .headed .drained
  | noDrain : ProbeStep .headed .stopped
  | done : ProbeStep .drained .done

theorem step_phase {a : Action} (h : s.step cfg p a = some t) :
    t.phase = s.phase ∨ ProbeStep s.phase t.phase := by
  cases System.step_cases h with
  | add alloc e =>
    left
    rw [System.stepAdd]
    cases msmMinidumpAddRegion cfg alloc e s.driver with
    | mk d res => cases res <;> rfl
  | update alloc regno e => exact Or.inl rfl
  | remove alloc e => exact Or.inl rfl
  | probeMode hphase =>
    rw [hphase]
    exact Or.inr .mode
  | probeTables hphase =>
    rw [hphase, System.stepProbeTables]
    split
    · exact Or.inr .tables
    · exact Or.inr .noTables
  | probeHeader reply hphase _ =>
    rw [hphase]
    exact Or.inr .header
  | probeDrain alloc hphase =>
    rw [hphase, System.stepProbeDrain]
    split
    · exact Or.inr .drain
    · exact Or.inr .noDrain
  | probeDone hphase =>
    rw [hphase]
    exact Or.inr .done
  | dequeue _ hphase => exact Or.inl hphase
  | register reply _ hphase => exact Or.inl hphase
  | deregister ok _ hphase => exact Or.inl hphase
  | finish _ hphase => exact Or.inl hphase

theorem ProbePhase.ne_of_late {phase phase' : ProbePhase} (hlate : phase.late = true)
    (h : phase'.late = false) : phase ≠ phase' := by
  rintro rfl
  rw [hlate] at h
  cases h

/-- Past the early phases the pending list was drained, or never will be. -/
theorem late_of_step (hearly : s.phase.early = false) {a : Action} (h : s.step cfg p a = some t)
    (hlate : t.phase.late = true) : s.phase.late = true := by
  rcases step_phase h with hsame | hprobe
  · rw [← hsame]
    exact hlate
  · generalize s.phase = phase at hprobe hearly
    generalize t.phase = phase' at hprobe
    cases hprobe with
    | done => rfl
    | _ => cases hearly

theorem order_add (hf : RmFrame s) (alloc : Bool) (e : MdRegion)
    (hpending : (s.stepAdd cfg alloc e).driver.pendingList = []) :
    OrderEffect cfg s (.add alloc e) (s.stepAdd cfg alloc e) ∧ s.driver.pendingList = [] := by
  rw [System.stepAdd] at hpending ⊢
  rcases add_paths cfg alloc e s.driver with
    ⟨err, hr⟩ | ⟨hv, hn, ⟨-, htoc, -⟩ | ⟨-, -, hm, hr⟩ | ⟨-, -, -, hr⟩⟩
  · simp only [hr, System.setDriver_self] at hpending ⊢
    exact ⟨.quiet rfl rfl rfl (fun _ => rfl), hpending⟩
  · rw [tocEnabled, hf.unmapped] at htoc
    cases htoc
  · simp only [hr] at hpending ⊢
    refine ⟨.push hv ?_ (not_mem_of_error hm) (rmNames_queued hv) rfl ?_, hpending⟩
    · rw [admits, hv, decide_eq_true hn]
      rfl
    · exact (List.append_assoc _ _ _).symm
  · simp only [hr] at hpending
    exact absurd hpending (List.append_ne_nil_of_right_ne_nil _ (List.cons_ne_nil _ _))

theorem order_request (workCmd : MinidumpEntryCmd) (hcmd : workCmd ≠ .minidumpAdd) (alloc : Bool)
    (e : MdRegion) {a : Action} (hnote : ∀ t R, s.completed a t R = R)
    (hremove : workCmd = .minidumpRemove → ∃ alloc, a = .remove alloc e) :
    OrderEffect cfg s a (s.setDriver (mdRmRequest workCmd alloc e s.driver).1) ∧
      (mdRmRequest workCmd alloc e s.driver).1.pendingList = s.driver.pendingList := by
  rcases mdRmRequest_cases workCmd alloc e s.driver with hr | hr
  · rw [hr, System.setDriver_self]
    exact ⟨.quiet rfl rfl rfl (hnote _), rfl⟩
  · rw [hr]
    refine ⟨.queue (r := ⟨e, workCmd⟩) ?_ hremove rfl rfl ?_ (hnote _), rfl⟩
    · rw [MdRmRequest.adds, if_neg hcmd]
    · exact (List.append_assoc _ _ _).symm

theorem order_update (hf : RmFrame s) (alloc : Bool) (regno : Nat) (e : MdRegion) :
    OrderEffect cfg s (.update alloc regno e)
        (s.setDriver (msmMinidumpUpdateRegion cfg alloc regno e s.driver).1) ∧
      (msmMinidumpUpdateRegion cfg alloc regno e s.driver).1.pendingList =
        s.driver.pendingList := by
  rcases update_paths cfg alloc e regno s.driver with
    ⟨-, hr⟩ | ⟨hdone, -, -, ⟨-, hr⟩ | ⟨hrm, -, -⟩ | ⟨hrm, -, -, -⟩⟩
  · rw [hr, System.setDriver_self]
    exact ⟨.quiet rfl rfl rfl (fun _ => rfl), rfl⟩
  · rw [hr]
    exact order_request .minidumpUpdate (by decide) alloc e (fun _ _ => rfl)
      (fun h => by cases h)
  · rw [hf.rm hdone] at hrm
    cases hrm
  · rw [hf.rm hdone] at hrm
    cases hrm

theorem order_remove (hf : RmFrame s) (alloc : Bool) (e : MdRegion) :
    OrderEffect cfg s (.remove alloc e)
        (s.setDriver (msmMinidumpRemoveRegion alloc e s.driver).1) ∧
      (msmMinidumpRemoveRegion alloc e s.driver).1.pendingList = s.driver.pendingList := by
  rcases remove_paths alloc e s.driver with ⟨-, hr⟩ | ⟨hdone, -, hr⟩ | ⟨hdone, hrm, -, -⟩
  · rw [hr, System.setDriver_self]
    exact ⟨.quiet rfl rfl rfl (fun _ => rfl), rfl⟩
  · rw [hr]
    exact order_request .minidumpRemove (by decide) alloc e (fun _ _ => rfl)
      (fun _ => ⟨alloc, rfl⟩)
  · rw [hf.rm hdone] at hrm
    cases hrm

theorem order_dequeue (cfg : Config) (h : s.stepDequeue = some t) : OrderEffect cfg s .dequeue t := by
  rw [System.stepDequeue] at h
  split at h
  case h_2 => cases h
  case h_1 request rest hidle hqueue =>
    rw [Option.some.injEq] at h
    subst h
    obtain ⟨e, workCmd⟩ := request
    have hrequests : s.requests = ⟨e, workCmd⟩ :: rest := by
      rw [System.requests, hidle, hqueue]
      rfl
    have hlookup : mdRmEntryNum { s.driver with
        minidumpRmTable := { s.driver.minidumpRmTable with minidumpRmWq := rest } } e =
        mdRmEntryNum s.driver e := rfl
    cases workCmd with
    | minidumpNoCmd => exact .ended (r := ⟨e, .minidumpNoCmd⟩) rfl rfl rfl hrequests (fun _ => rfl)
    | minidumpAdd =>
      simp only [minidumpRmWork, mdRmAddWork, hlookup]
      cases hfound : mdRmEntryNum s.driver e with
      | error err => exact .lost (not_mem_of_error hfound) hrequests
      | ok i => exact .quiet rfl rfl hrequests.symm (fun _ => rfl)
    | minidumpUpdate =>
      simp only [minidumpRmWork, mdRmUpdateWork, hlookup]
      cases hfound : mdRmEntryNum s.driver e with
      | error err => exact .ended (r := ⟨e, .minidumpUpdate⟩) rfl rfl rfl hrequests (fun _ => rfl)
      | ok i =>
        exact .quiet (rmNames_setSlotNum s.driver i 0) rfl hrequests.symm (fun _ => rfl)
    | minidumpRemove =>
      simp only [minidumpRmWork, mdRmRemoveWork, hlookup]
      cases hfound : mdRmEntryNum s.driver e with
      | error err => exact .ended (r := ⟨e, .minidumpRemove⟩) rfl rfl rfl hrequests (fun _ => rfl)
      | ok i =>
        simp only
        by_cases hslot : (s.driver.minidumpRmTable.entry i).slotNum = 0
        · rw [if_pos hslot]
          exact .ended (r := ⟨e, .minidumpRemove⟩) rfl rfl rfl hrequests (fun _ => rfl)
        · rw [if_neg hslot]
          exact .quiet (rmNames_setSlotNum s.driver i 0) rfl hrequests.symm (fun _ => rfl)

/-- After a register call the worker goes on with its request, or an update is over. -/
theorem registered_request {w : Worker} {i : Nat} (hfor : w.registerFor = some i)
    (reply : Option Nat) :
    (w.registered reply).request = w.request ∨
      ((w.registered reply).request = none ∧ ∃ e, w.request = some ⟨e, .minidumpUpdate⟩) := by
  cases w <;> cases hfor
  case addRegister.refl e => exact Or.inl rfl
  case updateRegister.refl e =>
    cases reply with
    | none => exact Or.inr ⟨rfl, e, rfl⟩
    | some slotNum => exact Or.inl rfl

theorem order_register (cfg : Config) {reply : Option Nat} (h : s.stepRegister reply = some t) :
    OrderEffect cfg s (.register reply) t ∧ t.driver = s.driver := by
  rw [System.stepRegister] at h
  cases hfor : s.worker.registerFor with
  | none =>
    rw [hfor] at h
    cases h
  | some i =>
    rw [hfor] at h
    simp only at h
    split at h
    case isFalse => cases h
    case isTrue hreply =>
      rw [Option.some.injEq] at h
      subst h
      refine ⟨?_, rfl⟩
      rcases registered_request hfor reply with hsame | ⟨hnone, e, hsome⟩
      · refine .quiet rfl rfl ?_ (fun _ => rfl)
        rw [System.requests, System.requests, hsame]
      · refine .ended (r := ⟨e, .minidumpUpdate⟩) rfl rfl rfl ?_ (fun _ => rfl)
        rw [System.requests, System.requests, hnone, hsome]
        rfl

/-- After a deregister call the worker goes on with its request, or the request is over. -/
theorem deregistered_request {w : Worker} {is : Nat × Nat} (hfor : w.deregisterFor = some is)
    (hsound : w.corrupt = false) (ok : Bool) :
    (w.deregistered ok).request = w.request ∨
      ((w.deregistered ok).request = none ∧ ∃ r : MdRmRequest, r.adds = none ∧
        w.request = some r) := by
  cases w <;> cases hfor
  case addDeregister.refl e => cases hsound
  all_goals
    cases ok with
    | false => exact Or.inr ⟨rfl, _, rfl, rfl⟩
    | true => exact Or.inl rfl

theorem order_deregister (cfg : Config) (hf : RmFrame s) {ok : Bool} (h : s.stepDeregister ok = some t) :
    OrderEffect cfg s (.deregister ok) t ∧ t.driver = s.driver := by
  rw [System.stepDeregister] at h
  cases hfor : s.worker.deregisterFor with
  | none =>
    rw [hfor] at h
    cases h
  | some is =>
    rw [hfor, Option.some.injEq] at h
    subst h
    refine ⟨?_, rfl⟩
    rcases deregistered_request hfor hf.sound ok with hsame | ⟨hnone, r, hadds, hsome⟩
    · refine .quiet rfl rfl ?_ (fun _ => rfl)
      rw [System.requests, System.requests, hsame]
    · refine .ended (r := r) hadds rfl rfl ?_ (fun _ => rfl)
      rw [System.requests, System.requests, hnone, hsome]
      rfl

theorem order_finish (cfg : Config) (hf : RmFrame s) (h : s.stepFinish = some t) :
    OrderEffect cfg s .finish t := by
  rw [System.stepFinish] at h
  have hplace : ∀ e i, s.worker.task = some (e, i) → i < s.driver.numRegions ∧
      Worker.stillNamed e i s.driver = true ∧ (rmNames s.driver)[i]? = some e.name := by
    intro e i htask
    obtain ⟨hi, hnamed⟩ := hf.stillNamed htask
    refine ⟨hi, hnamed, ?_⟩
    rw [rmNames_getElem? hi, (hf.named e i htask).2]
  cases hw : s.worker with
  | addFinish e i reply =>
    have hrequests : s.requests = ⟨e, .minidumpAdd⟩ :: s.driver.minidumpRmTable.minidumpRmWq := by
      rw [System.requests, hw]
      rfl
    obtain ⟨hi, hnamed, hname⟩ := hplace e i (by rw [hw]; rfl)
    cases reply with
    | none =>
      simp only [hw, Worker.finish, Option.some.injEq] at h
      subst h
      exact .refused hw hname (rmNames_drop hi) rfl hrequests
    | some slotNum =>
      simp only [hw, Worker.finish, hnamed, if_true, Option.some.injEq] at h
      subst h
      exact .added hw (rmNames_setSlotNum s.driver i slotNum) rfl hrequests
  | updateFinish e i slotNum =>
    have hrequests : s.requests =
        ⟨e, .minidumpUpdate⟩ :: s.driver.minidumpRmTable.minidumpRmWq := by
      rw [System.requests, hw]
      rfl
    obtain ⟨-, hnamed, hname⟩ := hplace e i (by rw [hw]; rfl)
    simp only [hw, Worker.finish, hnamed, if_true, Option.some.injEq] at h
    subst h
    exact .updated hw hname (rmNames_setSlotNum s.driver i slotNum) rfl hrequests
  | removeFinish e i =>
    have hrequests : s.requests =
        ⟨e, .minidumpRemove⟩ :: s.driver.minidumpRmTable.minidumpRmWq := by
      rw [System.requests, hw]
      rfl
    obtain ⟨hi, hnamed, hname⟩ := hplace e i (by rw [hw]; rfl)
    simp only [hw, Worker.finish, hnamed, if_true] at h
    cases hlook : clearLookup e s.driver.minidumpElfheader with
    | none =>
      rw [clearHeaders_of_none hlook] at h
      simp only [Option.some.injEq] at h
      subst h
      refine .ended (r := ⟨e, .minidumpRemove⟩) rfl rfl rfl hrequests ?_
      intro R
      simp only [System.completed, hw, Nat.lt_irrefl, if_false]
    | some ps =>
      obtain ⟨pidx, shidx⟩ := ps
      have hok := clearHeaders_of_some hlook
      cases hc : msmMinidumpClearHeaders e s.driver.minidumpElfheader with
      | mk hdr res =>
        rw [hc] at h hok
        cases hok
        simp only [Option.some.injEq] at h
        subst h
        refine .removed hw hname hlook ?_ (rmNames_drop hi) ?_ hrequests
        · simp only [dropRmEntry]
          omega
        · rw [hc]
          rfl
  | addUnlocked e =>
    have hsound := hf.sound
    rw [hw] at hsound
    cases hsound
  | _ =>
    simp only [hw, Worker.finish] at h
    cases h

/-- **One step** after the pending list was drained, when nothing has come to wait. -/
theorem order_step (hf : RmFrame s) (hlate : s.phase.late = true) {a : Action}
    (h : s.step cfg p a = some t) (hpending : t.driver.pendingList = []) :
    OrderEffect cfg s a t ∧ s.driver.pendingList = [] := by
  -- the other steps of the probe were taken before
  have hpast : ∀ {phase : ProbePhase}, phase.late = false → s.phase ≠ phase :=
    ProbePhase.ne_of_late hlate
  cases System.step_cases h with
  | add alloc e => exact order_add hf alloc e hpending
  | update alloc regno e =>
    obtain ⟨heffect, hsame⟩ := order_update hf alloc regno e
    exact ⟨heffect, hsame.symm.trans hpending⟩
  | remove alloc e =>
    obtain ⟨heffect, hsame⟩ := order_remove hf alloc e
    exact ⟨heffect, hsame.symm.trans hpending⟩
  | probeMode hphase => exact absurd hphase (hpast rfl)
  | probeTables hphase => exact absurd hphase (hpast rfl)
  | probeHeader reply hphase _ => exact absurd hphase (hpast rfl)
  | probeDrain alloc hphase => exact absurd hphase (hpast rfl)
  | probeDone _ => exact ⟨.quiet rfl rfl rfl (fun _ => rfl), hpending⟩
  | dequeue hwork _ =>
    have heffect := order_dequeue cfg hwork
    rw [System.stepDequeue] at hwork
    split at hwork
    · cases hwork
      rw [(minidumpRmWork_frame _ _).pending] at hpending
      exact ⟨heffect, hpending⟩
    · cases hwork
  | register reply hwork _ =>
    obtain ⟨heffect, hdriver⟩ := order_register cfg hwork
    exact ⟨heffect, by rw [← hdriver]; exact hpending⟩
  | deregister ok hwork _ =>
    obtain ⟨heffect, hdriver⟩ := order_deregister cfg hf hwork
    exact ⟨heffect, by rw [← hdriver]; exact hpending⟩
  | finish hwork _ =>
    have heffect := order_finish cfg hf hwork
    rw [System.stepFinish] at hwork
    split at hwork
    · cases hwork
    case h_2 d w hfinish =>
      cases hwork
      exact ⟨heffect, (Worker.finish_frame hfinish).pending.symm.trans hpending⟩

end Steps

/-! ## The order -/

/-- **The table is in order.**  The header buffer describes the regions `R`; the names in the table
are theirs, followed by those of the regions that are still to be added. -/
structure InOrder (cfg : Config) (addrs : HeaderAddrs) (R : List MdRegion) (s : System) : Prop where
  elf : Represents s.driver.minidumpElfheader (imageOf addrs R)
  fits : Fits R
  names : rmNames s.driver = (R ++ s.adding).map MdRegion.name
  distinct : (rmNames s.driver).Nodup
  room : (rmNames s.driver).length ≤ 197
  short : ∀ e ∈ R, e.name.strlen ≤ cfg.maxNameLength
  adding : ∀ e ∈ s.adding, validateRegion cfg e = .ok () ∧ 0 < e.size
  removing : ∀ r ∈ s.requests, r.workCmd = .minidumpRemove → r.entry.size % 4 = 0

/-- The calls keep to the rules: at most 197 regions, of positive size, and those that wait have
different names; sizes of removals are multiples of four; the file of all regions has less than
`2 ^ 64` bytes. -/
def orderOk (cfg : Config) (s : System) : Action → Bool
  | .add _ e =>
    !admits cfg e s.driver || (decide (s.driver.numRegions < 197) && decide (0 < e.size) &&
      (s.driver.mdInitDone || decide (e.name ∉ s.driver.pendingList.map MdRegion.name)))
  | .remove _ e => decide (e.size % 4 = 0)
  | .finish =>
    match s.worker with
    | .addFinish e _ (some _) =>
      decide (s.driver.minidumpElfheader.elfOffset.toNat + e.size.toNat < 2 ^ 64)
    | _ => true
  | _ => true

/-- The resource manager accepts the header buffer. -/
def registersHeader : Action → Bool
  | .probeHeader reply => reply.isSome
  | _ => true

section Lists

theorem System.adding_push {s t : System} {r : MdRmRequest} (h : t.requests = s.requests ++ [r]) :
    t.adding = s.adding ++ r.adds.toList := by
  rw [System.adding, h, List.filterMap_append, System.adding]
  cases hr : r.adds with
  | none => rw [List.filterMap_cons_none hr, List.filterMap_nil, Option.toList_none]
  | some e => rw [List.filterMap_cons_some hr, List.filterMap_nil, Option.toList_some]

theorem System.adding_pop {s t : System} {r : MdRmRequest} (h : s.requests = r :: t.requests) :
    s.adding = r.adds.toList ++ t.adding := by
  rw [System.adding, h, System.adding]
  cases hr : r.adds with
  | none => rw [List.filterMap_cons_none hr, Option.toList_none, List.nil_append]
  | some e => rw [List.filterMap_cons_some hr, Option.toList_some, List.singleton_append]

/-- An element of a list without repetitions is taken out where it is found. -/
theorem eraseIdx_eq_append {α : Type*} {A B : List α} {x : α} {i : Nat}
    (hnd : (A ++ x :: B).Nodup) (hi : (A ++ x :: B)[i]? = some x) :
    (A ++ x :: B).eraseIdx i = A ++ B := by
  have hself : (A ++ x :: B)[A.length]? = some x := by
    rw [List.getElem?_append_right (Nat.le_refl _), Nat.sub_self, List.getElem?_cons_zero]
  obtain ⟨hlt, -⟩ := List.getElem?_eq_some_iff.mp hi
  have heq : i = A.length := (List.getElem?_inj hlt hnd).mp (hi.trans hself.symm)
  rw [heq, List.eraseIdx_append_of_length_le (Nat.le_refl _), Nat.sub_self,
    List.eraseIdx_cons_zero]

variable {R : List MdRegion} {e : MdRegion} {i : Nat}

theorem findIdx_name (hnd : (R.map MdRegion.name).Nodup) (hi : i < R.length)
    (hname : R[i].name = e.name) : R.findIdx (fun r => r.name == e.name) = i := by
  rw [List.findIdx_eq hi]
  refine ⟨beq_iff_eq.mpr hname, ?_⟩
  intro j hj
  apply beq_eq_false_iff_ne.mpr
  intro hsame
  have := names_inj hnd (show j < R.length by omega) hi (hsame.trans hname.symm)
  omega

/-- A region is moved, and taken out, where its name is found. -/
theorem moveNamed_eq (hnd : (R.map MdRegion.name).Nodup) (hi : i < R.length)
    (hname : R[i].name = e.name) : moveNamed e R = R.modify i (MdRegion.moveTo e) := by
  rw [moveNamed, findIdx_name hnd hi hname]

theorem dropNamed_eq (hnd : (R.map MdRegion.name).Nodup) (hi : i < R.length)
    (hname : R[i].name = e.name) : dropNamed e.name R = R.eraseIdx i := by
  rw [dropNamed, findIdx_name hnd hi hname]

theorem moveNamed_of_not_mem (h : e.name ∉ R.map MdRegion.name) : moveNamed e R = R := by
  have hnone : R.findIdx (fun r => r.name == e.name) = R.length := by
    rw [List.findIdx_eq_length]
    intro r hr
    apply beq_eq_false_iff_ne.mpr
    intro hname
    exact h (List.mem_map.mpr ⟨r, hr, hname⟩)
  rw [moveNamed, hnone]
  exact List.modify_eq_self (Nat.le_refl _)

theorem moveNamed_names (e : MdRegion) (R : List MdRegion) :
    (moveNamed e R).map MdRegion.name = R.map MdRegion.name :=
  map_modify_moveTo MdRegion.name (fun _ => rfl) R _

/-- Moving a region changes neither its size nor its name. -/
theorem Fits.moveNamed (hf : Fits R) (e : MdRegion) : Fits (moveNamed e R) := by
  refine ⟨?_, ?_, ?_⟩
  · rw [Minidump.moveNamed, List.length_modify]
    exact hf.1
  · intro x hx
    have hsizes := map_modify_moveTo (e := e) MdRegion.size (fun _ => rfl) R
      (R.findIdx (fun r => r.name == e.name))
    have hmem : x.size ∈ R.map MdRegion.size := by
      rw [← hsizes]
      exact List.mem_map.mpr ⟨x, hx, rfl⟩
    obtain ⟨r, hr, hsize⟩ := List.mem_map.mp hmem
    rw [← hsize]
    exact hf.2.1 r hr
  · rw [Minidump.moveNamed, map_modify_moveTo _ (fun _ => rfl)]
    exact hf.2.2

theorem Fits.eraseIdx (hf : Fits R) (i : Nat) : Fits (R.eraseIdx i) := by
  refine ⟨(List.length_eraseIdx_le R i).trans hf.1, ?_, ?_⟩
  · intro x hx
    exact hf.2.1 x (List.mem_of_mem_eraseIdx hx)
  · have hle : ((R.eraseIdx i).map (fun e => e.size.toNat)).sum ≤
        (R.map (fun e => e.size.toNat)).sum :=
      List.Sublist.sum_le_sum ((List.eraseIdx_sublist R i).map _) (fun _ _ => Nat.zero_le _)
    have := hf.2.2
    omega

theorem Fits.concat (hf : Fits R) (hlen : R.length < 197) (hpos : 0 < e.size)
    (hsum : elfhSize + (R.map (fun e => e.size.toNat)).sum + e.size.toNat < 2 ^ 64) :
    Fits (R ++ [e]) := by
  refine ⟨?_, ?_, ?_⟩
  · rw [List.length_append, List.length_singleton]
    omega
  · intro x hx
    rcases List.mem_append.mp hx with hold | hnew
    · exact hf.2.1 x hold
    · rw [List.mem_singleton.mp hnew]
      exact hpos
  · rw [List.map_append, List.sum_append, List.map_singleton, List.sum_singleton]
    omega

end Lists

namespace InOrder

variable {cfg : Config} {addrs : HeaderAddrs} {R : List MdRegion} {s t : System}

theorem names_eq (h : InOrder cfg addrs R s) :
    rmNames s.driver = R.map MdRegion.name ++ s.adding.map MdRegion.name := by
  rw [h.names, List.map_append]

theorem regions_distinct (h : InOrder cfg addrs R s) : (R.map MdRegion.name).Nodup := by
  have hnd := h.distinct
  rw [h.names_eq] at hnd
  exact hnd.of_append_left

theorem names_getElem? (h : InOrder cfg addrs R s) {i : Nat} (hi : i < R.length) :
    (rmNames s.driver)[i]? = some R[i].name := by
  have hlt : i < (R.map MdRegion.name).length := by rwa [List.length_map]
  rw [h.names_eq, List.getElem?_append_left hlt, List.getElem?_eq_getElem hlt, List.getElem_map]

/-- The place of a name that has headers is the place of its region. -/
theorem place_eq (h : InOrder cfg addrs R s) {i j : Nat} (hj : j < R.length)
    (hi : (rmNames s.driver)[i]? = some R[j].name) : i = j := by
  obtain ⟨hlt, -⟩ := List.getElem?_eq_some_iff.mp hi
  exact (List.getElem?_inj hlt h.distinct).mp (hi.trans (h.names_getElem? hj).symm)

/-- The next free file offset is the end of the regions. -/
theorem elfOffset_toNat (h : InOrder cfg addrs R s) :
    s.driver.minidumpElfheader.elfOffset.toNat =
      elfhSize + (R.map (fun e => e.size.toNat)).sum := by
  have hend := offset_toNat h.fits R.length
  rw [List.take_length] at hend
  rw [h.elf.elfOffset]
  exact hend

theorem congr (h : InOrder cfg addrs R s) (hnames : rmNames t.driver = rmNames s.driver)
    (helf : t.driver.minidumpElfheader = s.driver.minidumpElfheader)
    (hadding : t.adding = s.adding)
    (hremoving : ∀ r ∈ t.requests, r.workCmd = .minidumpRemove → r.entry.size % 4 = 0) :
    InOrder cfg addrs R t := by
  refine ⟨?_, h.fits, ?_, ?_, ?_, h.short, ?_, hremoving⟩
  · rw [helf]
    exact h.elf
  · rw [hnames, hadding]
    exact h.names
  · rw [hnames]
    exact h.distinct
  · rw [hnames]
    exact h.room
  · rw [hadding]
    exact h.adding

/-- The requests behind the oldest one. -/
theorem removing_pop (h : InOrder cfg addrs R s) {r : MdRmRequest}
    (hrequests : s.requests = r :: t.requests) :
    ∀ r ∈ t.requests, r.workCmd = .minidumpRemove → r.entry.size % 4 = 0 := by
  intro r' hr'
  apply h.removing
  rw [hrequests]
  exact List.mem_cons_of_mem r hr'

theorem queue (h : InOrder cfg addrs R s) {r : MdRmRequest} (hadds : r.adds = none)
    (hsize : r.workCmd = .minidumpRemove → r.entry.size % 4 = 0)
    (hnames : rmNames t.driver = rmNames s.driver)
    (helf : t.driver.minidumpElfheader = s.driver.minidumpElfheader)
    (hrequests : t.requests = s.requests ++ [r]) : InOrder cfg addrs R t := by
  refine h.congr hnames helf ?_ ?_
  · rw [System.adding_push hrequests, hadds, Option.toList_none, List.append_nil]
  · rw [hrequests]
    intro r' hr'
    rcases List.mem_append.mp hr' with hold | hnew
    · exact h.removing r' hold
    · cases List.mem_singleton.mp hnew
      exact hsize

theorem ended (h : InOrder cfg addrs R s) {r : MdRmRequest} (hadds : r.adds = none)
    (hnames : rmNames t.driver = rmNames s.driver)
    (helf : t.driver.minidumpElfheader = s.driver.minidumpElfheader)
    (hrequests : s.requests = r :: t.requests) : InOrder cfg addrs R t := by
  refine h.congr hnames helf ?_ (h.removing_pop hrequests)
  rw [System.adding_pop hrequests, hadds, Option.toList_none, List.nil_append]

theorem push (h : InOrder cfg addrs R s) {e : MdRegion} (hv : validateRegion cfg e = .ok ())
    (hpos : 0 < e.size) (hroom : s.driver.numRegions < 197) (hnew : e.name ∉ rmNames s.driver)
    (hnames : rmNames t.driver = rmNames s.driver ++ [e.name])
    (helf : t.driver.minidumpElfheader = s.driver.minidumpElfheader)
    (hrequests : t.requests = s.requests ++ [⟨e, .minidumpAdd⟩]) : InOrder cfg addrs R t := by
  have hadding : t.adding = s.adding ++ [e] := System.adding_push hrequests
  refine ⟨?_, h.fits, ?_, ?_, ?_, h.short, ?_, ?_⟩
  · rw [helf]
    exact h.elf
  · rw [hnames, h.names_eq, hadding, List.map_append, List.map_append, List.map_singleton,
      List.append_assoc]
  · rw [hnames, ← List.concat_eq_append]
    exact h.distinct.concat hnew
  · rw [hnames, List.length_append, rmNames_length, List.length_singleton]
    omega
  · rw [hadding]
    intro x hx
    rcases List.mem_append.mp hx with hold | hlast
    · exact h.adding x hold
    · cases List.mem_singleton.mp hlast
      exact ⟨hv, hpos⟩
  · rw [hrequests]
    intro r hr
    rcases List.mem_append.mp hr with hold | hlast
    · exact h.removing r hold
    · cases List.mem_singleton.mp hlast
      intro hcmd
      cases hcmd

section First

variable {e : MdRegion}

/-- The region that is added next is the first behind those that are complete. -/
theorem names_first (h : InOrder cfg addrs R s)
    (hrequests : s.requests = ⟨e, .minidumpAdd⟩ :: t.requests) :
    s.adding = e :: t.adding ∧
      rmNames s.driver = R.map MdRegion.name ++ e.name :: t.adding.map MdRegion.name := by
  have hadding : s.adding = e :: t.adding := System.adding_pop hrequests
  refine ⟨hadding, ?_⟩
  rw [h.names_eq, hadding, List.map_cons]

theorem not_lost (h : InOrder cfg addrs R s)
    (hrequests : s.requests = ⟨e, .minidumpAdd⟩ :: t.requests) : e.name ∈ rmNames s.driver := by
  rw [(h.names_first hrequests).2]
  exact List.mem_append_right _ List.mem_cons_self

/-- **A registration that was refused**: the entry is taken out of the middle of the table. -/
theorem refused (h : InOrder cfg addrs R s) {i : Nat}
    (hi : (rmNames s.driver)[i]? = some e.name)
    (hnames : rmNames t.driver = (rmNames s.driver).eraseIdx i)
    (helf : t.driver.minidumpElfheader = s.driver.minidumpElfheader)
    (hrequests : s.requests = ⟨e, .minidumpAdd⟩ :: t.requests) : InOrder cfg addrs R t := by
  obtain ⟨hadding, hfirst⟩ := h.names_first hrequests
  refine ⟨?_, h.fits, ?_, ?_, ?_, h.short, ?_, h.removing_pop hrequests⟩
  · rw [helf]
    exact h.elf
  · have hnd := h.distinct
    rw [hfirst] at hi hnames hnd
    rw [hnames, eraseIdx_eq_append hnd hi, List.map_append]
  · rw [hnames]
    exact h.distinct.sublist (List.eraseIdx_sublist _ _)
  · rw [hnames]
    exact (List.length_eraseIdx_le _ _).trans h.room
  · intro x hx
    apply h.adding
    rw [hadding]
    exact List.mem_cons_of_mem e hx

/-- **A completed addition**: the headers are appended, and the entry is the next one. -/
theorem added (h : InOrder cfg addrs R s)
    (hsum : s.driver.minidumpElfheader.elfOffset.toNat + e.size.toNat < 2 ^ 64)
    (hnames : rmNames t.driver = rmNames s.driver)
    (helf : t.driver.minidumpElfheader = mdAddElfHeader e s.driver.minidumpElfheader)
    (hrequests : s.requests = ⟨e, .minidumpAdd⟩ :: t.requests) :
    InOrder cfg addrs (R ++ [e]) t := by
  obtain ⟨hadding, hfirst⟩ := h.names_first hrequests
  obtain ⟨hv, hpos⟩ := h.adding e (by rw [hadding]; exact List.mem_cons_self)
  have hlen : R.length < 197 := by
    have hroom := h.room
    rw [hfirst, List.length_append, List.length_map, List.length_cons] at hroom
    omega
  rw [h.elfOffset_toNat] at hsum
  have hname := (validateRegion_eq_ok.mp hv).1
  refine ⟨?_, h.fits.concat hlen hpos hsum, ?_, ?_, ?_, ?_, ?_, h.removing_pop hrequests⟩
  · have hmax := cfg.maxNameLength_le
    rw [helf, imageOf_add]
    exact h.elf.add (by rw [imageOf_sections_length]; omega) (by omega)
  · rw [hnames, hfirst, List.append_assoc, List.map_append, List.singleton_append, List.map_cons]
  · rw [hnames]
    exact h.distinct
  · rw [hnames]
    exact h.room
  · intro x hx
    rcases List.mem_append.mp hx with hold | hlast
    · exact h.short x hold
    · cases List.mem_singleton.mp hlast
      exact hname
  · intro x hx
    apply h.adding
    rw [hadding]
    exact List.mem_cons_of_mem e hx

/-- **A completed update.**  An update can overtake the addition of a region that was refused
before; then it writes into headers that are not in use. -/
theorem updated (h : InOrder cfg addrs R s) {i : Nat}
    (hi : (rmNames s.driver)[i]? = some e.name) (hnames : rmNames t.driver = rmNames s.driver)
    (helf : t.driver.minidumpElfheader = mdUpdateElfHeader i e s.driver.minidumpElfheader)
    (hrequests : s.requests = ⟨e, .minidumpUpdate⟩ :: t.requests) :
    InOrder cfg addrs (moveNamed e R) t := by
  have hadding : s.adding = t.adding := System.adding_pop hrequests
  have hnd := h.distinct
  obtain ⟨hlt, -⟩ := List.getElem?_eq_some_iff.mp hi
  have hroom := h.room
  have hmove : R.modify i (MdRegion.moveTo e) = moveNamed e R := by
    by_cases hin : i < R.length
    · have hname : R[i].name = e.name := by
        rw [h.names_getElem? hin, Option.some.injEq] at hi
        exact hi
      exact (moveNamed_eq h.regions_distinct hin hname).symm
    · have hnot : e.name ∉ R.map MdRegion.name := by
        intro hmem
        obtain ⟨r, hr, hname⟩ := List.mem_map.mp hmem
        obtain ⟨j, hj, rfl⟩ := List.getElem_of_mem hr
        rw [← hname] at hi
        have hij := h.place_eq hj hi
        omega
      rw [moveNamed_of_not_mem hnot]
      exact List.modify_eq_self (Nat.not_lt.mp hin)
  refine ⟨?_, h.fits.moveNamed e, ?_, ?_, ?_, ?_, ?_, h.removing_pop hrequests⟩
  · rw [helf, ← hmove, imageOf_update]
    exact h.elf.update (by omega) e
  · rw [hnames, h.names_eq, hadding, List.map_append, moveNamed_names]
  · rw [hnames]
    exact hnd
  · rw [hnames]
    exact hroom
  · intro x hx
    have hmem : x.name ∈ R.map MdRegion.name := by
      rw [← moveNamed_names e R]
      exact List.mem_map.mpr ⟨x, hx, rfl⟩
    obtain ⟨r, hr, hname⟩ := List.mem_map.mp hmem
    rw [← hname]
    exact h.short r hr
  · rw [← hadding]
    exact h.adding

/-- **A completed removal**: the headers that were found are those of the entry. -/
theorem removed (h : InOrder cfg addrs R s) {i pidx shidx : Nat}
    (hi : (rmNames s.driver)[i]? = some e.name)
    (hlookup : clearLookup e s.driver.minidumpElfheader = some (pidx, shidx))
    (hnames : rmNames t.driver = (rmNames s.driver).eraseIdx i)
    (helf : t.driver.minidumpElfheader =
      (msmMinidumpClearHeaders e s.driver.minidumpElfheader).1)
    (hrequests : s.requests = ⟨e, .minidumpRemove⟩ :: t.requests) :
    InOrder cfg addrs (dropNamed e.name R) t := by
  have hadding : s.adding = t.adding := System.adding_pop hrequests
  have hsize : e.size % 4 = 0 :=
    h.removing ⟨e, .minidumpRemove⟩ (by rw [hrequests]; exact List.mem_cons_self) rfl
  rw [h.elf.lookup] at hlookup
  obtain ⟨j, hj, rfl, rfl, hsame⟩ := lookup_imageOf_some addrs h.fits hsize hlookup
  have hij : i = j := h.place_eq hj (by rw [hi, hsame.name])
  subst hij
  rw [dropNamed_eq h.regions_distinct hj hsame.name.symm]
  refine ⟨?_, h.fits.eraseIdx i, ?_, ?_, ?_,
    fun x hx => h.short x (List.mem_of_mem_eraseIdx hx), ?_, h.removing_pop hrequests⟩
  · have hclear := (h.elf.clear hlookup (by omega)).1
    rw [hsame.size, imageOf_clear_self addrs hj] at hclear
    rw [helf]
    exact hclear
  · rw [hnames, h.names_eq, hadding, List.eraseIdx_append_of_lt_length (by rwa [List.length_map]),
      List.map_append, List.eraseIdx_map]
  · rw [hnames]
    exact h.distinct.sublist (List.eraseIdx_sublist _ _)
  · rw [hnames]
    exact (List.length_eraseIdx_le _ _).trans h.room
  · rw [← hadding]
    exact h.adding

end First

/-- **Every effect keeps the order**, with the record as it is then. -/
theorem effect (h : InOrder cfg addrs R s) {a : Action} (hok : orderOk cfg s a = true)
    (heffect : OrderEffect cfg s a t) : InOrder cfg addrs (s.completed a t R) t := by
  cases heffect with
  | quiet hnames helf hrequests hnote =>
    rw [hnote]
    refine h.congr hnames helf ?_ ?_
    · rw [System.adding, hrequests, System.adding]
    · rw [hrequests]
      exact h.removing
  | queue hadds hremove hnames helf hrequests hnote =>
    rw [hnote]
    refine h.queue hadds ?_ hnames helf hrequests
    intro hcmd
    obtain ⟨alloc, rfl⟩ := hremove hcmd
    exact of_decide_eq_true hok
  | push hv hadmits hnew hnames helf hrequests =>
    rw [orderOk, hadmits, Bool.not_true, Bool.false_or, Bool.and_eq_true, Bool.and_eq_true] at hok
    exact h.push hv (of_decide_eq_true hok.1.2) (of_decide_eq_true hok.1.1) hnew hnames helf
      hrequests
  | ended hadds hnames helf hrequests hnote =>
    rw [hnote]
    exact h.ended hadds hnames helf hrequests
  | lost hmissing hrequests => exact absurd (h.not_lost hrequests) hmissing
  | refused hw hi hnames helf hrequests =>
    simp only [System.completed, hw]
    exact h.refused hi hnames helf hrequests
  | added hw hnames helf hrequests =>
    simp only [orderOk, hw] at hok
    simp only [System.completed, hw]
    exact h.added (of_decide_eq_true hok) hnames helf hrequests
  | updated hw hi hnames helf hrequests =>
    simp only [System.completed, hw]
    exact h.updated hi hnames helf hrequests
  | removed hw hi hlookup hnum hnames helf hrequests =>
    simp only [System.completed, hw, if_pos hnum]
    exact h.removed hi hlookup hnames helf hrequests

end InOrder

/-! ## Before the pending list is drained -/

/-- The regions that wait: valid, of positive size, with different names, and not too many. -/
structure Waits (cfg : Config) (L : List MdRegion) : Prop where
  valid : ∀ e ∈ L, validateRegion cfg e = .ok () ∧ 0 < e.size
  distinct : (L.map MdRegion.name).Nodup
  room : L.length ≤ 197

theorem Waits.concat {cfg : Config} {L : List MdRegion} (h : Waits cfg L) {e : MdRegion}
    (hv : validateRegion cfg e = .ok ()) (hpos : 0 < e.size) (hroom : L.length < 197)
    (hnew : e.name ∉ L.map MdRegion.name) : Waits cfg (L ++ [e]) := by
  refine ⟨?_, ?_, ?_⟩
  · intro x hx
    rcases List.mem_append.mp hx with hold | hlast
    · exact h.valid x hold
    · cases List.mem_singleton.mp hlast
      exact ⟨hv, hpos⟩
  · rw [List.map_append, List.map_singleton, ← List.concat_eq_append]
    exact h.distinct.concat hnew
  · rw [List.length_append, List.length_singleton]
    omega

/-- Draining the list in RM mode writes the names in their order. -/
theorem drainRm_names {cfg : Config} {alloc : Nat → Bool} {es : List MdRegion} :
    ∀ {n : Nat} {d d' : Driver}, drainRm cfg alloc es n d = (d', .ok ()) →
      (∀ i, i < n → d'.minidumpRmTable.entry i = d.minidumpRmTable.entry i) ∧
      (slice d'.minidumpRmTable.entry n es.length).map MdRmRegion.name =
        es.map (fun e => e.name.truncate cfg.maxNameLength) := by
  induction es with
  | nil =>
    intro n d d' h
    cases h
    exact ⟨fun _ _ => rfl, rfl⟩
  | cons e es ih =>
    intro n d d' h
    rw [drainRm] at h
    cases halloc : alloc n with
    | false =>
      rw [halloc] at h
      cases h
    | true =>
      rw [halloc, if_pos rfl] at h
      obtain ⟨hbefore, hnames⟩ := ih h
      have hn : (d'.minidumpRmTable.entry n).name = e.name.truncate cfg.maxNameLength := by
        rw [hbefore n (Nat.lt_succ_self n)]
        simp only [drainRmStep, queueWork, Function.update_self]
      refine ⟨?_, ?_⟩
      · intro i hi
        rw [hbefore i (by omega)]
        simp only [drainRmStep, queueWork]
        exact Function.update_of_ne (by omega) _ _
      · rw [List.length_cons, slice_succ_left, List.map_cons, List.map_cons, hn, hnames]

/-- What holds along a run in RM mode, with the record of the regions that are complete. -/
structure OrderInv (cfg : Config) (addrs : HeaderAddrs) (x : System × List MdRegion) : Prop where
  frame : RmFrame x.1
  early : x.1.phase.early = true → x.2 = [] ∧ Waits cfg x.1.driver.pendingList
  headed : x.1.phase = .headed → x.1.driver.minidumpElfheader = buildHeader addrs
  late : x.1.phase.late = true → x.1.driver.pendingList = [] → InOrder cfg addrs x.2 x.1

section Early

variable {cfg : Config} {p : Platform} {s t : System}

/-- The table right after the pending list was drained. -/
theorem InOrder.drained (hf : RmFrame s) (hearly : s.phase.early = true)
    (hw : Waits cfg s.driver.pendingList)
    (helf : s.driver.minidumpElfheader = buildHeader p.addrs) {alloc : Nat → Bool} {d : Driver}
    (hd : drainRm cfg alloc s.driver.pendingList 0 s.driver = (d, .ok ())) :
    InOrder cfg p.addrs [] { s.setDriver d with phase := .drained } := by
  obtain ⟨hidle, hwq, hpending, -⟩ := hf.early hearly
  have hframe := drainRm_frame cfg alloc s.driver.pendingList 0 s.driver
  obtain ⟨-, hqueue⟩ := drainRm_pending rfl hd
  obtain ⟨-, hnames⟩ := drainRm_names hd
  rw [hd] at hframe
  have hnum : d.numRegions = s.driver.pendingList.length := hframe.num.trans hpending.symm
  have hrequests : ({ s.setDriver d with phase := .drained } : System).requests =
      s.driver.pendingList.map (⟨·, .minidumpAdd⟩) := by
    rw [System.requests]
    simp only [System.setDriver, hidle, hqueue, hwq, List.nil_append]
    rfl
  have hadding : ({ s.setDriver d with phase := .drained } : System).adding =
      s.driver.pendingList := by
    rw [System.adding, hrequests, List.filterMap_map]
    exact List.filterMap_some
  have hlist : rmNames d = s.driver.pendingList.map MdRegion.name := by
    rw [rmNames, hnum, hnames]
    apply List.map_congr_left
    intro e he
    exact (name_truncate (hw.valid e he).1).1
  refine ⟨?_, fits_nil, ?_, ?_, ?_, fun x hx => absurd hx List.not_mem_nil, ?_, ?_⟩
  · have hsame : d.minidumpElfheader = buildHeader p.addrs := hframe.elfheader.trans helf
    rw [imageOf_nil]
    simp only [System.setDriver, hsame]
    exact represents_buildHeader p.addrs
  · rw [hadding, List.nil_append]
    exact hlist
  · simp only [System.setDriver, hlist]
    exact hw.distinct
  · simp only [System.setDriver, hlist, List.length_map]
    exact hw.room
  · rw [hadding]
    exact hw.valid
  · rw [hrequests]
    intro r hr hcmd
    obtain ⟨e, -, rfl⟩ := List.mem_map.mp hr
    cases hcmd

theorem early_completed (hf : RmFrame s) (hearly : s.phase.early = true) (a : Action) (t : System)
    (R : List MdRegion) : s.completed a t R = R := by
  obtain ⟨hidle, -⟩ := hf.early hearly
  cases a with
  | finish => simp only [System.completed, hidle]
  | _ => rfl

/-- **What a step can do** before the pending list is drained. -/
inductive EarlyEffect (cfg : Config) (p : Platform) (s : System) : Action → System → Prop
  /-- a call is refused -/
  | quiet {a : Action} {t : System} (hdriver : t.driver = s.driver) (hphase : t.phase = s.phase) :
      EarlyEffect cfg p s a t
  | waits {alloc : Bool} {e : MdRegion} {t : System} (hv : validateRegion cfg e = .ok ())
      (hadmits : admits cfg e s.driver = true) (hdriver : t.driver = waitingRegion e s.driver)
      (hphase : t.phase = s.phase) : EarlyEffect cfg p s (.add alloc e) t
  /-- the mode is chosen, or the tables are set up -/
  | tables {a : Action} {t : System} (hpending : t.driver.pendingList = s.driver.pendingList)
      (hphase : t.phase = .moded ∨ t.phase = .mapped ∨ t.phase = .stopped) :
      EarlyEffect cfg p s a t
  | header {reply : Option Nat} {t : System} (hphase : t.phase = .headed)
      (hpending : t.driver.pendingList = s.driver.pendingList)
      (helf : reply.isSome = true → t.driver.minidumpElfheader = buildHeader p.addrs) :
      EarlyEffect cfg p s (.probeHeader reply) t
  | drain {alloc : Nat → Bool} (hphase : s.phase = .headed) :
      EarlyEffect cfg p s (.probeDrain alloc) (s.stepProbeDrain cfg alloc)

theorem early_tables (hrm : s.driver.isRmMinidump = true) :
    (s.stepProbeTables p).driver.pendingList = s.driver.pendingList ∧
      ((s.stepProbeTables p).phase = .mapped ∨ (s.stepProbeTables p).phase = .stopped) := by
  have hsame : (probeTables p s.driver).1.pendingList = s.driver.pendingList := by
    rw [probeTables, hrm, if_pos rfl, probeRmTable]
    cases p.rmInfo with
    | error err => rfl
    | ok n =>
      cases p.tableAlloc with
      | false => rfl
      | true => cases p.wqAlloc <;> rfl
  rw [System.stepProbeTables]
  split
  case h_1 d hd =>
    rw [hd] at hsame
    exact ⟨hsame, Or.inl rfl⟩
  case h_2 d hd =>
    rw [hd] at hsame
    exact ⟨hsame, Or.inr rfl⟩

theorem early_step (hf : RmFrame s) (hearly : s.phase.early = true) {a : Action}
    (h : s.step cfg p a = some t) : EarlyEffect cfg p s a t := by
  obtain ⟨hidle, hwq, -⟩ := hf.early hearly
  have hnotDone := hf.early_notDone hearly
  cases System.step_cases h with
  | add alloc e =>
    rw [System.stepAdd]
    rcases add_paths cfg alloc e s.driver with
      ⟨err, hr⟩ | ⟨hv, hn, ⟨-, htoc, -⟩ | ⟨-, hdone, -⟩ | ⟨-, -, -, hr⟩⟩
    · simp only [hr]
      exact .quiet rfl rfl
    · rw [tocEnabled, hf.unmapped] at htoc
      cases htoc
    · rw [hnotDone] at hdone
      cases hdone
    · simp only [hr]
      refine .waits hv ?_ rfl rfl
      rw [admits, hv, decide_eq_true hn]
      rfl
  | update alloc regno e =>
    rcases update_paths cfg alloc e regno s.driver with ⟨-, hr⟩ | ⟨hdone, -⟩
    · rw [hr]
      exact .quiet rfl rfl
    · rw [hnotDone] at hdone
      cases hdone
  | remove alloc e =>
    rcases remove_paths alloc e s.driver with ⟨-, hr⟩ | ⟨hdone, -⟩ | ⟨hdone, -⟩
    · rw [hr]
      exact .quiet rfl rfl
    · rw [hnotDone] at hdone
      cases hdone
    · rw [hnotDone] at hdone
      cases hdone
  | probeMode _ => exact .tables rfl (Or.inl rfl)
  | probeTables hphase =>
    obtain ⟨hsame, hphase'⟩ := early_tables (hf.mode (by rw [hphase]; decide))
    exact .tables hsame (Or.inr hphase')
  | probeHeader reply hphase _ =>
    have hrm : s.driver.isRmMinidump = true := hf.mode (by rw [hphase]; decide)
    refine .header rfl ?_ ?_
    · simp only [System.stepProbeHeader, msmMinidumpAddHeader, hrm, if_true]
      split <;> rfl
    · intro hsome
      simp only [System.stepProbeHeader, msmMinidumpAddHeader, hrm, hsome, if_true]
  | probeDrain alloc hphase => exact .drain hphase
  | probeDone hphase =>
    rw [hphase] at hearly
    cases hearly
  | dequeue hwork _ =>
    simp only [System.stepDequeue, hidle, hwq] at hwork
    cases hwork
  | register reply hwork _ =>
    simp only [System.stepRegister, hidle, Worker.registerFor] at hwork
    cases hwork
  | deregister ok hwork _ =>
    simp only [System.stepDeregister, hidle, Worker.deregisterFor] at hwork
    cases hwork
  | finish hwork _ =>
    simp only [System.stepFinish, hidle, Worker.finish] at hwork
    cases hwork

end Early

/-! ## Every run -/

section Runs

variable {cfg : Config} {p : Platform} {s t : System} {R : List MdRegion}

/-- As long as the list is not drained, nothing is complete. -/
theorem OrderInv.of_waiting (hf : RmFrame t) (hR : R = []) (hw : Waits cfg t.driver.pendingList)
    (hheaded : t.phase = .headed → t.driver.minidumpElfheader = buildHeader p.addrs)
    (hlate : t.phase.late = false) : OrderInv cfg p.addrs (t, R) := by
  refine ⟨hf, fun _ => ⟨hR, hw⟩, hheaded, ?_⟩
  intro hlate'
  have hlate'' : t.phase.late = true := hlate'
  rw [hlate] at hlate''
  cases hlate''

/-- The invariant after a step from a state in which the list was not drained. -/
theorem orderInv_early (h : OrderInv cfg p.addrs (s, R)) (hearly : s.phase.early = true)
    (hf' : RmFrame t) {a : Action} (hok : orderOk cfg s a = true)
    (hreg : registersHeader a = true) (heffect : EarlyEffect cfg p s a t) :
    OrderInv cfg p.addrs (t, s.completed a t R) := by
  obtain ⟨hR, hw⟩ := h.early hearly
  have hR' : s.completed a t R = [] := (early_completed h.frame hearly a t R).trans hR
  have hnotLate : s.phase.late = false := by
    generalize s.phase = phase at hearly
    cases phase <;> first | rfl | cases hearly
  cases heffect with
  | quiet hdriver hphase =>
    refine .of_waiting hf' hR' ?_ ?_ ?_
    · rw [hdriver]
      exact hw
    · intro hheaded
      rw [hdriver]
      exact h.headed (hphase.symm.trans hheaded)
    · rw [hphase]
      exact hnotLate
  | @waits alloc e _ hv hadmits hdriver hphase =>
    refine .of_waiting hf' hR' ?_ ?_ ?_
    · have hpending : s.driver.pendingList.length = s.driver.numRegions :=
        (h.frame.early hearly).2.2.1
      have hnotDone : s.driver.mdInitDone = false := h.frame.early_notDone hearly
      rw [orderOk, hadmits, hnotDone, Bool.not_true, Bool.false_or, Bool.false_or,
        Bool.and_eq_true, Bool.and_eq_true] at hok
      have hlt : s.driver.pendingList.length < 197 := by
        have hroom := of_decide_eq_true hok.1.1
        omega
      rw [hdriver]
      exact hw.concat hv (of_decide_eq_true hok.1.2) hlt (of_decide_eq_true hok.2)
    · intro hheaded
      rw [hdriver]
      exact h.headed (hphase.symm.trans hheaded)
    · rw [hphase]
      exact hnotLate
  | tables hpending hphase =>
    refine .of_waiting hf' hR' ?_ ?_ ?_
    · rw [hpending]
      exact hw
    · intro hheaded
      rw [hheaded] at hphase
      rcases hphase with hphase | hphase | hphase <;> cases hphase
    · rcases hphase with hphase | hphase | hphase <;> rw [hphase] <;> rfl
  | header hphase hpending helf =>
    refine .of_waiting hf' hR' ?_ (fun _ => helf hreg) ?_
    · rw [hpending]
      exact hw
    · rw [hphase]
      rfl
  | @drain alloc hphase =>
    have hrm : s.driver.isRmMinidump = true := h.frame.mode (by rw [hphase]; decide)
    rw [hR']
    rw [System.stepProbeDrain, probeDrain, hrm, if_pos rfl] at hf' ⊢
    cases hd : drainRm cfg alloc s.driver.pendingList 0 s.driver with
    | mk d res =>
      rw [hd] at hf'
      cases res with
      | error err =>
        refine ⟨hf', ?_, ?_, ?_⟩
        · intro hstopped
          cases hstopped
        · intro hstopped
          cases hstopped
        · intro hstopped
          cases hstopped
      | ok u =>
        refine ⟨hf', ?_, ?_, ?_⟩
        · intro hdrained
          cases hdrained
        · intro hdrained
          cases hdrained
        · intro _ _
          exact InOrder.drained h.frame hearly hw (h.headed hphase) hd

/-- **One step** of a run that keeps to the rules. -/
theorem orderInv_step (hp : p.rm = true) (h : OrderInv cfg p.addrs (s, R)) {a : Action}
    (hok : orderOk cfg s a = true) (hreg : registersHeader a = true)
    (hstep : s.step cfg p a = some t) : OrderInv cfg p.addrs (t, s.completed a t R) := by
  have hf' := (rm_step hp h.frame hstep).1
  cases hearly : s.phase.early with
  | true => exact orderInv_early h hearly hf' hok hreg (early_step h.frame hearly hstep)
  | false =>
    have hphase : t.phase.early = false ∧ t.phase ≠ .headed := by
      rcases step_phase hstep with hsame | hprobe
      · rw [hsame]
        refine ⟨hearly, ?_⟩
        intro hheaded
        rw [hheaded] at hearly
        cases hearly
      · generalize s.phase = phase at hprobe hearly
        generalize t.phase = phase' at hprobe
        cases hprobe with
        | done => decide
        | _ => cases hearly
    refine ⟨hf', ?_, fun h => absurd h hphase.2, ?_⟩
    · intro hearly'
      exact absurd (hphase.1.symm.trans hearly') Bool.false_ne_true
    · intro hlate hpending
      have hlate' := late_of_step hearly hstep hlate
      obtain ⟨heffect, hnil⟩ := order_step h.frame hlate' hstep hpending
      exact (h.late hlate' hnil).effect hok heffect

theorem orderInv_init : OrderInv cfg p.addrs (System.initial, []) := by
  refine ⟨rmFrame_init, ?_, ?_, ?_⟩
  · intro _
    refine ⟨rfl, ?_, List.nodup_nil, Nat.zero_le _⟩
    intro e he
    cases he
  · intro h
    cases h
  · intro h
    cases h

/-- The record of the regions that are complete, along a run in RM mode. -/
theorem orderInv_reach (hp : p.rm = true)
    (h : ((minidumpSystem cfg p).recording System.completed []).Reach
      (fun x a => orderOk cfg x.1 a = true ∧ registersHeader a = true) (s, R)) :
    OrderInv cfg p.addrs (s, R) := by
  refine h.invariant (I := OrderInv cfg p.addrs) ?_ ?_
  · rintro ⟨s, R⟩ ⟨hs, hR⟩
    cases hs
    cases hR
    exact orderInv_init
  · rintro ⟨s, R⟩ a ⟨t, R'⟩ hinv hok hstep
    obtain ⟨hs, hR'⟩ := Machine.recording_step hstep
    have hR'' : R' = s.completed a t R := hR'
    subst hR''
    exact orderInv_step hp hinv hok.1 hok.2 hs

/-- The names of the region sections are, in their order, those of the first entries of the table,
whose headers are found by counting; and the other entries are those of the regions whose requests
are not completed, in the order of the queue. -/
def TableInOrder (s : System) : Prop :=
  ∃ R : List MdRegion,
    eShnum s.driver.minidumpElfheader.ehdr = R.length + 4 ∧
    ePhnum s.driver.minidumpElfheader.ehdr = R.length + 1 ∧
    (∀ i (hi : i < R.length), HeadersOf s.driver.minidumpElfheader i R[i]) ∧
    rmNames s.driver = R.map MdRegion.name ++ s.adding.map MdRegion.name

theorem InOrder.tableInOrder {addrs : HeaderAddrs} (h : InOrder cfg addrs R s) :
    TableInOrder s := by
  refine ⟨R, ?_, ?_, ?_, h.names_eq⟩
  · rw [h.elf.shnum, imageOf_sections_length]
  · rw [h.elf.phnum, imageOf_programs_length]
  · intro i hi
    exact h.elf.headersOf hi

/-- **The table and the headers are in one order**, for all interleavings of the clients with the
worker and all answers of the resource manager, once the probe is done and nothing waits, if the
header buffer was registered. -/
theorem table_in_order (hp : p.rm = true)
    (h : (minidumpSystem cfg p).Reach
      (fun s a => orderOk cfg s a = true ∧ registersHeader a = true) s)
    (hdone : s.driver.mdInitDone = true) (hpending : s.driver.pendingList = []) :
    TableInOrder s := by
  obtain ⟨R, hR⟩ := h.recorded System.completed []
  have hinv := orderInv_reach hp hR
  have hphase : s.phase = .done := hinv.frame.done hdone
  have hlate : s.phase.late = true := by
    rw [hphase]
    rfl
  exact (hinv.late hlate hpending).tableInOrder

end Runs

/-- The first of three regions is refused while the other two wait, one of them is added, and an
update of the refused one overtakes its second addition. -/
theorem table_in_order_kirq :
    let kmsg : MdRegion := ⟨CStr.ofString "KMSG", 0, 0x1000, 0x81000000, 64⟩
    let kirq : MdRegion := ⟨CStr.ofString "KIRQ", 0, 0x2000, 0x82000000, 4⟩
    let ktask : MdRegion := ⟨CStr.ofString "KTASK", 0, 0x3000, 0x83000000, 8⟩
    ∃ s, rmRun (fun s a => orderOk Config.plain s a && registersHeader a)
        [.add true kmsg, .add true kirq, .update true 0 kmsg, .add true ktask, .dequeue,
          .register none, .finish, .add true kmsg, .dequeue, .register (some 1), .finish, .dequeue,
          .deregister true, .register (some 2), .finish] = some s ∧
      rmNames s.driver = [kirq.name, ktask.name, kmsg.name] ∧ TableInOrder s := by
  intro kmsg kirq ktask
  have hrun : (rmRun (fun s a => orderOk Config.plain s a && registersHeader a)
      [.add true kmsg, .add true kirq, .update true 0 kmsg, .add true ktask, .dequeue,
        .register none, .finish, .add true kmsg, .dequeue, .register (some 1), .finish, .dequeue,
        .deregister true, .register (some 2), .finish]).any
      (fun s => s.driver.mdInitDone && decide (s.driver.pendingList = []) &&
        decide (rmNames s.driver = [kirq.name, ktask.name, kmsg.name])) = true := by
    decide +kernel
  obtain ⟨s, hs, hcheck⟩ := (Option.any_eq_true _ _).mp hrun
  rw [Bool.and_eq_true, Bool.and_eq_true] at hcheck
  obtain ⟨⟨hdone, hpending⟩, hnames⟩ := hcheck
  refine ⟨s, hs, of_decide_eq_true hnames, table_in_order rfl
    (.of_run ?_ (.init rfl) hs) hdone (of_decide_eq_true hpending)⟩
  intro s a hpass
  exact (Bool.and_eq_true _ _).mp hpass

/-- **The headers of the first region overwrite the ELF header** when the resource manager refused
the header buffer: the probe does not look at the result of `msm_minidump_add_header`. -/
theorem table_out_of_order :
    ¬ ∀ s, (minidumpSystem Config.plain (Platform.plain true)).Reach
        (fun s a => orderOk Config.plain s a = true) s →
      s.driver.mdInitDone = true → s.driver.pendingList = [] → TableInOrder s := by
  intro h
  let kmsg : MdRegion := ⟨CStr.ofString "KMSG", 0, 0x1000, 0x81000000, 64⟩
  have hrun : ((minidumpSystem Config.plain (Platform.plain true)).run (orderOk Config.plain)
      System.initial [.probeMode, .probeTables, .probeHeader none, .probeDrain (fun _ => true),
        .probeDone, .add true kmsg, .dequeue, .register (some 1), .finish]).any
      (fun s => s.driver.mdInitDone && decide (s.driver.pendingList = []) &&
        decide (eShnum s.driver.minidumpElfheader.ehdr = 0)) = true := by
    decide +kernel
  obtain ⟨s, hs, hcheck⟩ := (Option.any_eq_true _ _).mp hrun
  rw [Bool.and_eq_true, Bool.and_eq_true] at hcheck
  obtain ⟨⟨hdone, hpending⟩, hnum⟩ := hcheck
  obtain ⟨R, hshnum, -⟩ := h s (.of_run (fun _ _ h => h) (.init rfl) hs) hdone
    (of_decide_eq_true hpending)
  rw [of_decide_eq_true hnum] at hshnum
  omega

end SafelinuxDbg.Minidump
