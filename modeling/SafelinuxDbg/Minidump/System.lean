import SafelinuxDbg.Lib.Machine
import SafelinuxDbg.Minidump.Probe
import SafelinuxDbg.Minidump.Worker

/-!
# The whole system

One driver with everything that works on it: clients that call it at any time, the probe cut
where other threads can come in, the worker of the request queue cut at its calls, and the
resource manager with the slots it has given out.  `minidumpSystem` is the machine of all their
interleavings, from the moment the module is loaded.

The requests are carried out one at a time in the order they were queued.  A register call
returns a negative error or a positive slot that is not live; a deregister call fails or frees
the slot it names.  `History` is not part of the program: it records what happened, so that it
can be talked about.
-/

namespace SafelinuxDbg.Minidump

/-- How far the probe is. -/
inductive ProbePhase
  | start | moded | mapped | headed | drained | done
  /-- the probe returned early -/
  | stopped
deriving DecidableEq

/-- What happened, for the record. -/
structure History where
  /-- an identity for every entry of the resource manager's table, in table order -/
  ids : List Nat
  /-- the identity for the next entry -/
  nextId : Nat
  /-- the entry a slot was registered for, until a deregister call names the slot -/
  owner : Nat → Option Nat
  /-- the names that were accepted, with the numbers returned for them -/
  accepted : List (CMemory.CStr × Nat)
  /-- all requests that were ever queued -/
  queued : List MdRmRequest

structure System where
  driver : Driver
  phase : ProbePhase
  worker : Worker
  /-- the slots the resource manager has given out and not taken back -/
  live : List Nat
  /-- the slot of the header buffer -/
  kelfSlot : Option Nat
  history : History

def System.initial : System where
  driver := Driver.initial
  phase := .start
  worker := .idle
  live := []
  kelfSlot := none
  history := ⟨[], 0, fun _ => none, [], []⟩

inductive Action
  | add (alloc : Bool) (e : MdRegion)
  | update (alloc : Bool) (regno : Nat) (e : MdRegion)
  | remove (alloc : Bool) (e : MdRegion)
  | probeMode
  | probeTables
  /-- with the answer to the registration of the header buffer, in RM mode -/
  | probeHeader (reply : Option Nat)
  /-- with the allocations of the requests, in RM mode -/
  | probeDrain (alloc : Nat → Bool)
  | probeDone
  /-- the worker takes a request and holds the lock for the first time -/
  | dequeue
  | register (reply : Option Nat)
  | deregister (ok : Bool)
  /-- the worker holds the lock for the second time -/
  | finish

namespace System

/-! ## Clients -/

/-- Another driver state; the requests it has more are put on record. -/
def setDriver (s : System) (d : Driver) : System :=
  { s with
    driver := d
    history :=
      { s.history with
        queued := s.history.queued ++
          d.minidumpRmTable.minidumpRmWq.drop s.driver.minidumpRmTable.minidumpRmWq.length } }

/-- An accepted region is put on record, with a new identity. -/
def accept (s : System) (name : CMemory.CStr) (n : Nat) : System :=
  { s with
    history :=
      { s.history with
        ids := s.history.ids ++ [s.history.nextId]
        nextId := s.history.nextId + 1
        accepted := s.history.accepted ++ [(name, n)] } }

def stepAdd (cfg : Config) (alloc : Bool) (e : MdRegion) (s : System) : System :=
  match msmMinidumpAddRegion cfg alloc e s.driver with
  | (d, .ok n) => (s.setDriver d).accept e.name n
  | (d, .error _) => s.setDriver d

/-! ## The probe -/

def stepProbeTables (p : Platform) (s : System) : System :=
  match Minidump.probeTables p s.driver with
  | (d, .ok (some ())) => { s with driver := d, phase := .mapped }
  | (d, _) => { s with driver := d, phase := .stopped }

def stepProbeHeader (p : Platform) (reply : Option Nat) (s : System) : System :=
  { s with
    driver := (msmMinidumpAddHeader p reply.isSome s.driver).1
    phase := .headed
    live := reply.toList ++ s.live
    kelfSlot := reply }

def stepProbeDrain (cfg : Config) (alloc : Nat → Bool) (s : System) : System :=
  match Minidump.probeDrain cfg alloc s.driver with
  | (d, .ok ()) => { s.setDriver d with phase := .drained }
  | (d, .error _) => { s.setDriver d with phase := .stopped }

/-! ## The worker and the resource manager -/

/-- What a register call can return: an error, or a positive slot that is not live. -/
def Answers (s : System) (reply : Option Nat) : Prop :=
  ∀ slotNum ∈ reply, 0 < slotNum ∧ slotNum ∉ s.live

instance (s : System) (reply : Option Nat) : Decidable (s.Answers reply) :=
  inferInstanceAs (Decidable (∀ slotNum ∈ reply, 0 < slotNum ∧ slotNum ∉ s.live))

def stepDequeue (s : System) : Option System :=
  match s.worker, s.driver.minidumpRmTable.minidumpRmWq with
  | .idle, request :: rest =>
    let t := s.driver.minidumpRmTable
    let r := minidumpRmWork request
      { s.driver with minidumpRmTable := { t with minidumpRmWq := rest } }
    some { s with driver := r.1, worker := r.2 }
  | _, _ => none

def stepRegister (reply : Option Nat) (s : System) : Option System :=
  match s.worker.registerFor with
  | none => none
  | some i =>
    if s.Answers reply then
      some { s with
        worker := s.worker.registered reply
        live := reply.toList ++ s.live
        history :=
          { s.history with
            owner := match reply with
              | none => s.history.owner
              | some slotNum => Function.update s.history.owner slotNum s.history.ids[i]? } }
    else none

/-- The argument of `gh_rm_minidump_deregister_slot` is a `uint16_t`. -/
def slotArgument (slotNum : Nat) : Nat := slotNum % 2 ^ 16

def stepDeregister (ok : Bool) (s : System) : Option System :=
  match s.worker.deregisterFor with
  | none => none
  | some (_, slotNum) =>
    some { s with
      worker := s.worker.deregistered ok
      live := if ok then s.live.erase (slotArgument slotNum) else s.live
      history :=
        { s.history with
          owner := Function.update s.history.owner (slotArgument slotNum) none } }

/-- When an entry leaves the table, its identity leaves with it. -/
def stepFinish (s : System) : Option System :=
  match s.worker.finish s.driver with
  | none => none
  | some (d, w) =>
    some { s with
      driver := d
      worker := w
      history :=
        { s.history with
          ids := match s.worker.task with
            | some (_, i) =>
              if d.numRegions < s.driver.numRegions then s.history.ids.eraseIdx i
              else s.history.ids
            | none => s.history.ids } }

/-! ## Every step -/

def step (cfg : Config) (p : Platform) (s : System) : Action → Option System
  | .add alloc e => some (s.stepAdd cfg alloc e)
  | .update alloc regno e =>
    some (s.setDriver (msmMinidumpUpdateRegion cfg alloc regno e s.driver).1)
  | .remove alloc e => some (s.setDriver (msmMinidumpRemoveRegion alloc e s.driver).1)
  | .probeMode =>
    if s.phase = .start then
      some { s with driver := Minidump.probeMode p s.driver, phase := .moded }
    else none
  | .probeTables => if s.phase = .moded then some (s.stepProbeTables p) else none
  | .probeHeader reply =>
    if s.phase = .mapped ∧ s.Answers reply ∧ (s.driver.isRmMinidump = false → reply = none) then
      some (s.stepProbeHeader p reply)
    else none
  | .probeDrain alloc => if s.phase = .headed then some (s.stepProbeDrain cfg alloc) else none
  | .probeDone =>
    if s.phase = .drained then
      some { s with driver := Minidump.probeDone s.driver, phase := .done }
    else none
  | .dequeue => s.stepDequeue
  | .register reply => s.stepRegister reply
  | .deregister ok => s.stepDeregister ok
  | .finish => s.stepFinish

/-- **What a step is**: who acts, and what the probe must have come to. -/
inductive Steps (cfg : Config) (p : Platform) (s : System) : Action → System → Prop
  | add (alloc : Bool) (e : MdRegion) : Steps cfg p s (.add alloc e) (s.stepAdd cfg alloc e)
  | update (alloc : Bool) (regno : Nat) (e : MdRegion) :
      Steps cfg p s (.update alloc regno e)
        (s.setDriver (msmMinidumpUpdateRegion cfg alloc regno e s.driver).1)
  | remove (alloc : Bool) (e : MdRegion) :
      Steps cfg p s (.remove alloc e) (s.setDriver (msmMinidumpRemoveRegion alloc e s.driver).1)
  | probeMode (hphase : s.phase = .start) :
      Steps cfg p s .probeMode { s with driver := Minidump.probeMode p s.driver, phase := .moded }
  | probeTables (hphase : s.phase = .moded) : Steps cfg p s .probeTables (s.stepProbeTables p)
  | probeHeader (reply : Option Nat) (hphase : s.phase = .mapped) (hreply : s.Answers reply) :
      Steps cfg p s (.probeHeader reply) (s.stepProbeHeader p reply)
  | probeDrain (alloc : Nat → Bool) (hphase : s.phase = .headed) :
      Steps cfg p s (.probeDrain alloc) (s.stepProbeDrain cfg alloc)
  | probeDone (hphase : s.phase = .drained) :
      Steps cfg p s .probeDone { s with driver := Minidump.probeDone s.driver, phase := .done }
  | dequeue {t : System} (hwork : s.stepDequeue = some t) (hphase : t.phase = s.phase) :
      Steps cfg p s .dequeue t
  | register (reply : Option Nat) {t : System} (hwork : s.stepRegister reply = some t)
      (hphase : t.phase = s.phase) : Steps cfg p s (.register reply) t
  | deregister (ok : Bool) {t : System} (hwork : s.stepDeregister ok = some t)
      (hphase : t.phase = s.phase) : Steps cfg p s (.deregister ok) t
  | finish {t : System} (hwork : s.stepFinish = some t) (hphase : t.phase = s.phase) :
      Steps cfg p s .finish t

theorem step_cases {cfg : Config} {p : Platform} {s t : System} {a : Action}
    (h : s.step cfg p a = some t) : Steps cfg p s a t := by
  cases a with
  | add alloc e =>
    cases h
    exact .add alloc e
  | update alloc regno e =>
    cases h
    exact .update alloc regno e
  | remove alloc e =>
    cases h
    exact .remove alloc e
  | probeMode =>
    simp only [step] at h
    split at h
    case isTrue hphase =>
      cases h
      exact .probeMode hphase
    case isFalse => cases h
  | probeTables =>
    simp only [step] at h
    split at h
    case isTrue hphase =>
      cases h
      exact .probeTables hphase
    case isFalse => cases h
  | probeHeader reply =>
    simp only [step] at h
    split at h
    case isTrue hguard =>
      cases h
      exact .probeHeader reply hguard.1 hguard.2.1
    case isFalse => cases h
  | probeDrain alloc =>
    simp only [step] at h
    split at h
    case isTrue hphase =>
      cases h
      exact .probeDrain alloc hphase
    case isFalse => cases h
  | probeDone =>
    simp only [step] at h
    split at h
    case isTrue hphase =>
      cases h
      exact .probeDone hphase
    case isFalse => cases h
  | dequeue =>
    refine .dequeue h ?_
    simp only [step, stepDequeue] at h
    split at h <;> cases h
    rfl
  | register reply =>
    refine .register reply h ?_
    simp only [step, stepRegister] at h
    split at h
    · cases h
    · split at h <;> cases h
      rfl
  | deregister ok =>
    refine .deregister ok h ?_
    simp only [step, stepDeregister] at h
    split at h <;> cases h
    rfl
  | finish =>
    refine .finish h ?_
    simp only [step, stepFinish] at h
    split at h <;> cases h
    rfl

end System

/-- **All interleavings** of clients, probe, worker and resource manager. -/
def minidumpSystem (cfg : Config) (p : Platform) : Machine System Action where
  init s := s = System.initial
  step := System.step cfg p

end SafelinuxDbg.Minidump
