import SafelinuxDbg.Lib.Numerals
import SafelinuxDbg.Minidump.Capacity
import SafelinuxDbg.Minidump.TableOrder

/-!
# The names of the stacks

`register_current_stack` registers the stack of every CPU, page by page, and `register_suspend_context`
does so for the stack and the task that suspend the system.  A name goes through two buffers: the
name of the stack is printed to `name_str`, which has `MAX_NAME_LENGTH` bytes with the NUL, and with
the number of the page to the region's name, which has one more.

For a `MAX_NAME_LENGTH` of 12 the longest name, `KSTACK4095_8`, just fits.  For one of 9 the number of
the page is cut off behind `KSUSPSTK_`, and the number of a CPU behind its second digit.

* `no_duplicate_refused`: names that differ are not refused as duplicates.
* `distinct_of_accepted`: regions that are all accepted have names that differ.
* `stackLaw_iff`: the names differ exactly in the build with the long names, or with stacks of one
  page and CPUs that can be told apart by two digits.
* `suspend_pages_collide`: two pages of the suspend stack have one name.
* `suspend_never_updated`: one of them is refused, and then `update_md_stack` does nothing.
-/

namespace SafelinuxDbg.MinidumpLog

open CMemory Minidump

/-- `PAGE_SIZE`. -/
def pageSize : UInt64 := 4096

@[simp] theorem toNat_pageSize : pageSize.toNat = 4096 := rfl

/-- The stacks, and what the kernel tells about them. -/
structure StackKernel where
  /-- `IS_ENABLED(CONFIG_VMAP_STACK)` -/
  isVmapStack : Bool
  /-- `THREAD_SIZE` -/
  threadSize : UInt64
  /-- the CPUs of `for_each_possible_cpu`, in its order -/
  possibleCpus : List Nat
  /-- `stack_vm_area->addr`, or the stack pointer when stacks are not mapped -/
  sp : UInt64
  /-- `page_to_phys(vmalloc_to_page(...))` -/
  vmallocToPhys : UInt64 → UInt64
  /-- `virt_to_phys` -/
  virtToPhys : UInt64 → UInt64
  /-- `current` -/
  current : UInt64
  /-- `sizeof(struct task_struct)` -/
  taskSize : UInt64
  /-- the allocations for the pages of a CPU's stack, or of the suspend context's for `none` -/
  alloc : Option Nat → Nat → Bool
  /-- the allocation for the suspend context's task -/
  allocTask : Bool
  /-- a stack has one to nine pages -/
  threadSize_ge : 4096 ≤ threadSize.toNat
  threadSize_lt : threadSize.toNat < 10 * 4096
  cpus_sorted : possibleCpus.Pairwise (· < ·)
  cpus_lt : ∀ cpu ∈ possibleCpus, cpu < 4096

/-- `STACK_NUM_PAGES`. -/
def StackKernel.numPages (k : StackKernel) : Nat :=
  if k.isVmapStack then (k.threadSize / pageSize).toNat else 1

/-! ## Registering the stacks -/

/-- The region that `register_stack_entry` submits. -/
def registerStackEntry (k : StackKernel) (name : CStr) (sp size : UInt64) : MdRegion :=
  ⟨name, 0, sp, if k.isVmapStack then k.vmallocToPhys sp else k.virtToPhys sp, size⟩

/-- The name of a page: `"%s_%d"`. -/
def pageName (cfg : Config) (nameStr : CStr) (i : Nat) : CStr :=
  (nameStr ++ CStr.ofString "_" ++ CStr.decimal i).truncate cfg.maxNameLength

/-- What `register_vmapped_stack` submits, each region with the outcome of its allocation. -/
def registerVmappedStack (cfg : Config) (k : StackKernel) (alloc : Nat → Bool) (sp : UInt64)
    (nameStr : CStr) : List (Bool × MdRegion) :=
  let sp := sp &&& ~~~(pageSize - 1)
  (List.range k.numPages).map fun i =>
    (alloc i, registerStackEntry k (pageName cfg nameStr i) (sp + UInt64.ofNat i * pageSize) pageSize)

/-- What `register_normal_stack` submits. -/
def registerNormalStack (cfg : Config) (k : StackKernel) (alloc : Nat → Bool) (sp : UInt64)
    (nameStr : CStr) : List (Bool × MdRegion) :=
  let sp := sp &&& ~~~(k.threadSize - 1)
  [(alloc 0, registerStackEntry k (nameStr.truncate cfg.maxNameLength) sp k.threadSize)]

/-- The choice between the two. -/
def registerStack (cfg : Config) (k : StackKernel) (alloc : Nat → Bool) (nameStr : CStr) :
    List (Bool × MdRegion) :=
  if k.isVmapStack then registerVmappedStack cfg k alloc k.sp nameStr
  else registerNormalStack cfg k alloc k.sp nameStr

/-- `name_str` of a CPU: `"KSTACK%d"`. -/
def cpuNameStr (cfg : Config) (cpu : Nat) : CStr :=
  (CStr.ofString "KSTACK" ++ CStr.decimal cpu).truncate (cfg.maxNameLength - 1)

/-- `name_str` of the suspend context's stack. -/
def suspendNameStr (cfg : Config) : CStr := (CStr.ofString "KSUSPSTK").truncate (cfg.maxNameLength - 1)

/-- `name_str` of the suspend context's task. -/
def taskNameStr (cfg : Config) : CStr := (CStr.ofString "KSUSPTASK").truncate (cfg.maxNameLength - 1)

/-- What `register_current_stack` submits for a CPU. -/
def cpuStack (cfg : Config) (k : StackKernel) (cpu : Nat) : List (Bool × MdRegion) :=
  registerStack cfg k (k.alloc (some cpu)) (cpuNameStr cfg cpu)

/-- What `register_suspend_stack` submits. -/
def registerSuspendStack (cfg : Config) (k : StackKernel) : List (Bool × MdRegion) :=
  registerStack cfg k (k.alloc none) (suspendNameStr cfg)

/-- What `register_suspend_current_task` submits. -/
def registerSuspendCurrentTask (cfg : Config) (k : StackKernel) : List (Bool × MdRegion) :=
  [(k.allocTask, ⟨(taskNameStr cfg).truncate cfg.maxNameLength, 0, k.current,
    k.virtToPhys k.current, k.taskSize⟩)]

/-- All that is submitted, in its order. -/
def stackRegions (cfg : Config) (k : StackKernel) : List (Bool × MdRegion) :=
  k.possibleCpus.flatMap (cpuStack cfg k) ++ registerSuspendStack cfg k ++
    registerSuspendCurrentTask cfg k

/-- The driver after regions were added one after the other. -/
def addAll (cfg : Config) (es : List (Bool × MdRegion)) (d : Driver) : Driver :=
  es.foldl (fun d e => (msmMinidumpAddRegion cfg e.1 e.2 d).1) d

/-- `stack_mdidx` of the CPUs and of the suspend context, and `task_mdno`. -/
structure MdStacks where
  current : List (Nat × List (Except Errno Nat))
  suspend : List (Except Errno Nat)
  task : List (Except Errno Nat)

/-- The loop of `register_current_stack`. -/
def registerCurrentStack (cfg : Config) (k : StackKernel) :
    List Nat → Driver → Driver × List (Nat × List (Except Errno Nat))
  | [], d => (d, [])
  | cpu :: cpus, d =>
    let r := registerCurrentStack cfg k cpus (addAll cfg (cpuStack cfg k cpu) d)
    (r.1, (cpu, addRegions cfg (cpuStack cfg k cpu) d) :: r.2)

/-- `register_current_stack`, and then `register_suspend_context`. -/
def registerStacks (cfg : Config) (k : StackKernel) (d : Driver) : Driver × MdStacks :=
  let r := registerCurrentStack cfg k k.possibleCpus d
  let d := addAll cfg (registerSuspendStack cfg k) r.1
  (addAll cfg (registerSuspendCurrentTask cfg k) d,
    ⟨r.2, addRegions cfg (registerSuspendStack cfg k) r.1,
      addRegions cfg (registerSuspendCurrentTask cfg k) d⟩)

/-! ## Updating a stack -/

/-- The loop over the pages of a stack that is moved to `sp`. -/
def updatePages (cfg : Config) (k : StackKernel) :
    List ((Bool × MdRegion) × Nat) → UInt64 → Driver → Driver
  | [], _, d => d
  | ((alloc, mdr), mdno) :: pages, sp, d =>
    let mdr := { registerStackEntry k mdr.name sp mdr.size with id := mdr.id }
    updatePages cfg k pages (sp + pageSize) (msmMinidumpUpdateRegion cfg alloc mdno mdr d).1

/-- `update_md_stack`: nothing happens when one of the region numbers is negative. -/
def updateMdStack (cfg : Config) (k : StackKernel) (stackMdr : List (Bool × MdRegion))
    (stackMdno : List (Except Errno Nat)) (sp : UInt64) (d : Driver) : Driver :=
  match stackMdno.mapM Except.toOption with
  | none => d
  | some mdnos =>
    let mask := if k.isVmapStack then pageSize - 1 else k.threadSize - 1
    updatePages cfg k (stackMdr.zip mdnos) (sp &&& ~~~mask) d

/-- A number that stands for an error is enough. -/
theorem updateMdStack_of_error {stackMdno : List (Except Errno Nat)} {err : Errno}
    (h : .error err ∈ stackMdno) (cfg : Config) (k : StackKernel) (stackMdr : List (Bool × MdRegion))
    (sp : UInt64) (d : Driver) : updateMdStack cfg k stackMdr stackMdno sp d = d := by
  have hnone : stackMdno.mapM Except.toOption = none := by
    induction stackMdno with
    | nil => cases h
    | cons r rs ih =>
      rw [List.mapM_cons]
      rcases List.mem_cons.mp h with rfl | hmem
      · rfl
      · rw [ih hmem]
        cases r with
        | error err => rfl
        | ok regno => rfl
  rw [updateMdStack, hnone]

/-! ## Duplicates -/

/-- The names that are registered, in the table of the driver's mode. -/
def registeredNames (d : Driver) : List CStr := if d.isRmMinidump then rmNames d else entryNames d

/-- `msm_minidump_add_region` looks for the name. -/
def looksForName (d : Driver) : Bool :=
  if d.isRmMinidump then d.mdInitDone else tocEnabled d

section Duplicates

variable {cfg : Config} {alloc : Bool} {e : MdRegion} {d : Driver}

/-- A region is refused as a duplicate only for its name. -/
theorem registered_of_eexist (h : (msmMinidumpAddRegion cfg alloc e d).2 = .error .EEXIST) :
    looksForName d = true ∧ e.name ∈ registeredNames d := by
  rw [looksForName, registeredNames]
  rw [msmMinidumpAddRegion] at h
  cases hv : validateRegion cfg e with
  | error err =>
    rw [hv] at h
    cases h
  | ok u =>
    rw [hv] at h
    simp only at h
    split at h
    case isTrue => cases h
    case isFalse =>
      split at h
      case isTrue hdirect =>
        rw [Bool.and_eq_true, Bool.not_eq_true'] at hdirect
        rw [hdirect.1, hdirect.2]
        split at h
        case isTrue => cases h
        case isFalse =>
          split at h
          case h_1 i hfound =>
            obtain ⟨hi, hname, -⟩ := firstNamed_eq_ok.mp hfound
            exact ⟨rfl, mem_entryNames.mpr ⟨i, hi, hname⟩⟩
          case h_2 => cases h
      case isFalse =>
        split at h
        case isTrue hrm =>
          rw [Bool.and_eq_true] at hrm
          rw [hrm.1, hrm.2]
          split at h
          case h_1 i hfound =>
            obtain ⟨hi, hname, -⟩ := firstNamed_eq_ok.mp hfound
            exact ⟨rfl, mem_rmNames.mpr ⟨i, hi, hname⟩⟩
          case h_2 =>
            rw [mdRmAddRegion] at h
            cases alloc <;> cases h
        case isFalse =>
          split at h
          · cases h
          · cases h

/-- Adding a region does not change whether names are looked for. -/
theorem looksForName_add (cfg : Config) (alloc : Bool) (e : MdRegion) (d : Driver) :
    looksForName (msmMinidumpAddRegion cfg alloc e d).1 = looksForName d := by
  rcases add_paths cfg alloc e d with
    ⟨err, hr⟩ | ⟨-, -, ⟨-, -, -, -, hr⟩ | ⟨-, -, -, hr⟩ | ⟨-, -, -, hr⟩⟩
  · rw [hr]
  · rw [hr]
    rfl
  · rw [hr]
    rfl
  · rw [hr]
    rfl

theorem looksForName_addAll (cfg : Config) (es : List (Bool × MdRegion)) (d : Driver) :
    looksForName (addAll cfg es d) = looksForName d := by
  induction es generalizing d with
  | nil => rfl
  | cons x es ih => exact (ih _).trans (looksForName_add cfg x.1 x.2 d)

/-- **An accepted region** was not registered under its name, and is so then. -/
theorem registeredNames_accepted (hlooks : looksForName d = true) {regno : Nat}
    (h : (msmMinidumpAddRegion cfg alloc e d).2 = .ok regno) :
    e.name ∉ registeredNames d ∧
      registeredNames (msmMinidumpAddRegion cfg alloc e d).1 = registeredNames d ++ [e.name] := by
  rw [looksForName] at hlooks
  rcases add_paths cfg alloc e d with
    ⟨err, hr⟩ | ⟨hv, -, ⟨hrm, -, -, hnew, hr⟩ | ⟨hrm, -, hnew, hr⟩ | ⟨htoc, hdone, -, -⟩⟩
  · rw [hr] at h
    cases h
  · have hrm' : (addedRegion cfg e d).isRmMinidump = false := hrm
    rw [hr, registeredNames, registeredNames, hrm', hrm, if_neg Bool.false_ne_true,
      if_neg Bool.false_ne_true]
    exact ⟨mdEntryNum_eq_error.mp hnew, entryNames_added hv⟩
  · have hrm' : (queuedRegion cfg e d).isRmMinidump = true := hrm
    rw [hr, registeredNames, registeredNames, hrm', hrm, if_pos rfl, if_pos rfl]
    exact ⟨not_mem_of_error hnew, rmNames_queued hv⟩
  · cases hrm : d.isRmMinidump with
    | false =>
      rw [hrm, htoc hrm] at hlooks
      cases hlooks
    | true =>
      rw [hrm, hdone hrm] at hlooks
      cases hlooks

/-- No other name comes to be registered. -/
theorem registeredNames_add (hlooks : looksForName d = true) {name : CStr}
    (hname : name ∈ registeredNames (msmMinidumpAddRegion cfg alloc e d).1) :
    name ∈ registeredNames d ∨ name = e.name := by
  rcases add_paths cfg alloc e d with ⟨err, hr⟩ | ⟨-, -, hpaths⟩
  · rw [hr] at hname
    exact Or.inl hname
  · have hok : (msmMinidumpAddRegion cfg alloc e d).2 = .ok d.numRegions := by
      rcases hpaths with ⟨-, -, -, -, hr⟩ | ⟨-, -, -, hr⟩ | ⟨-, -, -, hr⟩
      all_goals rw [hr]
    rw [(registeredNames_accepted hlooks hok).2, List.mem_append, List.mem_singleton] at hname
    exact hname

/-- **Regions that are all accepted** have names that differ, where names are looked for. -/
theorem distinct_of_accepted {es : List (Bool × MdRegion)} :
    ∀ {d : Driver}, looksForName d = true →
      (∀ r ∈ addRegions cfg es d, ∃ regno, r = .ok regno) →
        (es.map fun e => e.2.name).Nodup ∧ ∀ e ∈ es, e.2.name ∉ registeredNames d := by
  induction es with
  | nil => exact fun _ _ => ⟨List.nodup_nil, List.forall_mem_nil _⟩
  | cons x es ih =>
    obtain ⟨alloc, e⟩ := x
    intro d hlooks hall
    rw [addRegions] at hall
    obtain ⟨regno, hok⟩ := hall _ List.mem_cons_self
    obtain ⟨hnew, hnames⟩ := registeredNames_accepted hlooks hok
    have hlooks' := (looksForName_add cfg alloc e d).trans hlooks
    obtain ⟨hnodup, hrest⟩ := ih hlooks' (fun r hr => hall r (List.mem_cons_of_mem _ hr))
    rw [hnames] at hrest
    constructor
    · refine List.nodup_cons.mpr ⟨?_, hnodup⟩
      intro hmem
      obtain ⟨x, hx, hname⟩ := List.mem_map.mp hmem
      exact hrest x hx (List.mem_append_right _ (List.mem_singleton.mpr hname))
    · refine List.forall_mem_cons.mpr ⟨hnew, ?_⟩
      intro x hx hold
      exact hrest x hx (List.mem_append_left _ hold)

/-- **Names that differ are not refused as duplicates**, unless they were registered before. -/
theorem no_duplicate_refused {es : List (Bool × MdRegion)} :
    ∀ {d : Driver}, (es.map fun e => e.2.name).Nodup →
      (looksForName d = true → ∀ e ∈ es, e.2.name ∉ registeredNames d) →
        .error .EEXIST ∉ addRegions cfg es d := by
  induction es with
  | nil => exact fun _ _ => List.not_mem_nil
  | cons x es ih =>
    obtain ⟨alloc, e⟩ := x
    intro d hnodup hnew hmem
    obtain ⟨hnot, hnodup'⟩ := List.nodup_cons.mp hnodup
    rw [addRegions] at hmem
    rcases List.mem_cons.mp hmem with heq | hmem
    · obtain ⟨hlooks, hname⟩ := registered_of_eexist heq.symm
      exact hnew hlooks _ List.mem_cons_self hname
    · refine ih hnodup' ?_ hmem
      intro hlooks x hx hname
      rw [looksForName_add] at hlooks
      rcases registeredNames_add hlooks hname with hold | hsame
      · exact hnew hlooks x (List.mem_cons_of_mem _ hx) hold
      · exact hnot (List.mem_map.mpr ⟨x, hx, hsame⟩)

theorem addRegions_append (cfg : Config) (es fs : List (Bool × MdRegion)) (d : Driver) :
    addRegions cfg (es ++ fs) d = addRegions cfg es d ++ addRegions cfg fs (addAll cfg es d) := by
  induction es generalizing d with
  | nil => rfl
  | cons x es ih =>
    rw [List.cons_append, addRegions, addRegions, ih]
    rfl

theorem addAll_append (cfg : Config) (es fs : List (Bool × MdRegion)) (d : Driver) :
    addAll cfg (es ++ fs) d = addAll cfg fs (addAll cfg es d) := by
  rw [addAll, List.foldl_append]
  rfl

end Duplicates

/-- The loop over the CPUs adds the regions of all of them. -/
theorem registerCurrentStack_eq (cfg : Config) (k : StackKernel) (cpus : List Nat) (d : Driver) :
    (registerCurrentStack cfg k cpus d).1 = addAll cfg (cpus.flatMap (cpuStack cfg k)) d ∧
      ((registerCurrentStack cfg k cpus d).2.map Prod.snd).flatten =
        addRegions cfg (cpus.flatMap (cpuStack cfg k)) d := by
  induction cpus generalizing d with
  | nil => exact ⟨rfl, rfl⟩
  | cons cpu cpus ih =>
    obtain ⟨hdriver, hresults⟩ := ih (addAll cfg (cpuStack cfg k cpu) d)
    rw [List.flatMap_cons, addAll_append, addRegions_append]
    exact ⟨hdriver, congrArg _ hresults⟩

/-- The results of all the registrations, in their order. -/
theorem registerStacks_eq (cfg : Config) (k : StackKernel) (d : Driver) :
    ((registerStacks cfg k d).2.current.map Prod.snd).flatten ++ (registerStacks cfg k d).2.suspend ++
      (registerStacks cfg k d).2.task = addRegions cfg (stackRegions cfg k) d := by
  obtain ⟨hdriver, hresults⟩ := registerCurrentStack_eq cfg k k.possibleCpus d
  rw [stackRegions, addRegions_append, addRegions_append, addAll_append, registerStacks]
  dsimp only
  rw [hresults, hdriver]

/-! ## The names -/

/-- The names of one stack. -/
def namesOf (cfg : Config) (k : StackKernel) (nameStr : CStr) : List CStr :=
  if k.isVmapStack then (List.range k.numPages).map (pageName cfg nameStr)
  else [nameStr.truncate cfg.maxNameLength]

/-- What `name_str` keeps of the number of a CPU. -/
def cpuTag (cfg : Config) (cpu : Nat) : List UInt8 := (decimal cpu).take (cfg.maxNameLength - 7)

section Names

variable {cfg : Config} {k : StackKernel} {nameStr : CStr} {cpu cpu' : Nat}

theorem underscore_bytes : (CStr.ofString "_").bytes = [95] := by decide

theorem StackKernel.numPages_bounds (k : StackKernel) : 1 ≤ k.numPages ∧ k.numPages ≤ 9 := by
  have hge := k.threadSize_ge
  have hlt := k.threadSize_lt
  rw [StackKernel.numPages]
  split
  · rw [UInt64.toNat_div, toNat_pageSize]
    omega
  · omega

theorem map_registerStack (alloc : Nat → Bool) :
    (registerStack cfg k alloc nameStr).map (fun e => e.2.name) = namesOf cfg k nameStr := by
  rw [registerStack, namesOf]
  split
  · rw [registerVmappedStack, List.map_map]
    rfl
  · rfl

/-- The names of all stacks and of the task. -/
theorem map_stackRegions (cfg : Config) (k : StackKernel) :
    (stackRegions cfg k).map (fun e => e.2.name) =
      k.possibleCpus.flatMap (fun cpu => namesOf cfg k (cpuNameStr cfg cpu)) ++
        namesOf cfg k (suspendNameStr cfg) ++ [(taskNameStr cfg).truncate cfg.maxNameLength] := by
  rw [stackRegions, List.map_append, List.map_append, List.map_flatMap, registerSuspendStack,
    map_registerStack]
  congr 3
  funext cpu
  exact map_registerStack _

/-- The first six bytes of a name are those of `name_str`. -/
theorem take_namesOf (hlength : 6 ≤ nameStr.strlen) {name : CStr} (hname : name ∈ namesOf cfg k nameStr) :
    name.bytes.take 6 = nameStr.bytes.take 6 := by
  have hmax : 6 ≤ cfg.maxNameLength := Nat.le_trans (by decide) cfg.le_maxNameLength
  have hlength' : 6 ≤ nameStr.bytes.length := hlength
  rw [namesOf] at hname
  split at hname
  · obtain ⟨i, -, rfl⟩ := List.mem_map.mp hname
    rw [pageName, CStr.truncate_bytes, List.take_take, Nat.min_eq_left hmax, CStr.append_bytes,
      CStr.append_bytes, List.append_assoc, List.take_append_of_le_length hlength']
  · rw [List.mem_singleton.mp hname, CStr.truncate_bytes, List.take_take, Nat.min_eq_left hmax]

/-- `KSTACK`, and what is kept of the number. -/
theorem cpuNameStr_bytes (cfg : Config) (cpu : Nat) :
    (cpuNameStr cfg cpu).bytes = [75, 83, 84, 65, 67, 75] ++ cpuTag cfg cpu := by
  have hprefix : (CStr.ofString "KSTACK").bytes = [75, 83, 84, 65, 67, 75] := by decide
  have hmax : ([75, 83, 84, 65, 67, 75] : List UInt8).length ≤ cfg.maxNameLength - 1 :=
    Nat.le_trans (by decide) (Nat.sub_le_sub_right cfg.le_maxNameLength 1)
  rw [cpuNameStr, CStr.truncate_bytes, CStr.append_bytes, hprefix, List.take_append,
    List.take_of_length_le hmax, cpuTag, CStr.decimal_bytes]
  rfl

theorem cpuNameStr_congr (h : cpuTag cfg cpu = cpuTag cfg cpu') :
    cpuNameStr cfg cpu = cpuNameStr cfg cpu' := by
  apply CStr.ext_bytes
  rw [cpuNameStr_bytes, cpuNameStr_bytes, h]

/-- Names of two CPUs are only the same when the same is kept of their numbers. -/
theorem cpuTag_of_name {name : CStr} (h : name ∈ namesOf cfg k (cpuNameStr cfg cpu))
    (h' : name ∈ namesOf cfg k (cpuNameStr cfg cpu')) : cpuTag cfg cpu = cpuTag cfg cpu' := by
  have hlength : ∀ cpu, (cpuTag cfg cpu).length ≤ cfg.maxNameLength - 7 :=
    fun cpu => List.length_take_le _ _
  have hseparator : ∀ cpu, (95 : UInt8) ∉ cpuTag cfg cpu := by
    intro cpu hmem
    exact absurd (mem_decimal (List.mem_of_mem_take hmem)).2 (by decide)
  have hmax := cfg.le_maxNameLength
  rw [namesOf] at h h'
  split at h
  case isTrue hvmap =>
    rw [if_pos hvmap] at h'
    obtain ⟨i, -, rfl⟩ := List.mem_map.mp h
    obtain ⟨j, -, heq⟩ := List.mem_map.mp h'
    -- the six bytes of `KSTACK`, then the number up to the separator
    have hbytes := congrArg (fun s => s.bytes.drop 6) heq
    simp only [pageName, CStr.truncate_bytes, CStr.append_bytes, underscore_bytes, cpuNameStr_bytes,
      CStr.decimal_bytes, List.append_assoc, List.drop_take, List.singleton_append] at hbytes
    exact (before_inj (hseparator cpu') (hseparator cpu) (Nat.le_trans (hlength cpu') (by omega))
      (Nat.le_trans (hlength cpu) (by omega)) hbytes).symm
  case isFalse hvmap =>
    rw [if_neg hvmap] at h'
    have heq := (List.mem_singleton.mp h).symm.trans (List.mem_singleton.mp h')
    have hshort : ∀ cpu, (cpuNameStr cfg cpu).strlen ≤ cfg.maxNameLength :=
      fun cpu => Nat.le_trans (CStr.strlen_truncate_le _ _) (Nat.sub_le _ _)
    rw [CStr.truncate_of_le (hshort cpu), CStr.truncate_of_le (hshort cpu')] at heq
    have hbytes := congrArg CStr.bytes heq
    rw [cpuNameStr_bytes, cpuNameStr_bytes] at hbytes
    exact List.append_cancel_left hbytes

/-- The pages of a stack have different names when there is one only, or room for its number. -/
theorem namesOf_nodup (h : k.numPages = 1 ∨ nameStr.strlen + 2 ≤ cfg.maxNameLength) :
    (namesOf cfg k nameStr).Nodup := by
  rw [namesOf]
  split
  · rcases h with hone | hroom
    · rw [hone]
      exact List.nodup_singleton _
    refine List.nodup_range.map_on ?_
    intro i hi j hj heq
    have hpages := k.numPages_bounds.2
    have hlength : ∀ i ∈ List.range k.numPages,
        (nameStr ++ CStr.ofString "_" ++ CStr.decimal i).strlen ≤ cfg.maxNameLength := by
      intro i hi
      have hdigit : (decimal i).length ≤ 1 :=
        (length_decimal_le_iff (by decide)).mpr (by have := List.mem_range.mp hi; omega)
      have hstrlen : nameStr.strlen = nameStr.bytes.length := rfl
      rw [CStr.strlen, CStr.append_bytes, CStr.append_bytes, underscore_bytes, CStr.decimal_bytes,
        List.length_append, List.length_append, List.length_singleton]
      omega
    rw [pageName, pageName, CStr.truncate_of_le (hlength i hi), CStr.truncate_of_le (hlength j hj)] at heq
    exact decimal_injective (List.append_cancel_left (congrArg CStr.bytes heq))
  · exact List.nodup_singleton _

/-- **The short names** have no room for the number of a page of the suspend stack. -/
theorem suspend_collide (hvm : cfg.archQtiVm = true) (hpages : k.numPages ≠ 1) :
    ¬ (namesOf cfg k (suspendNameStr cfg)).Nodup := by
  obtain ⟨vm⟩ := cfg
  cases hvm
  have hvmap : k.isVmapStack = true := by
    by_contra hnormal
    exact hpages (if_neg hnormal)
  have hbounds := k.numPages_bounds.1
  rw [namesOf, if_pos hvmap]
  intro hnodup
  have hsame : pageName ⟨true⟩ (suspendNameStr ⟨true⟩) 0 =
      pageName ⟨true⟩ (suspendNameStr ⟨true⟩) 1 := by decide
  have hinj := List.inj_on_of_nodup_map hnodup (List.mem_range.mpr (by omega))
    (List.mem_range.mpr (by omega)) hsame
  cases hinj

theorem maxNameLength_of_long (hvm : cfg.archQtiVm = false) : cfg.maxNameLength = 12 := by
  rw [Config.maxNameLength, hvm]
  rfl

theorem cpuTag_of_long (hvm : cfg.archQtiVm = false) (hcpu : cpu < 4096) :
    cpuTag cfg cpu = decimal cpu := by
  have hdigits : (decimal cpu).length ≤ 4 := (length_decimal_le_iff (by decide)).mpr (by omega)
  rw [cpuTag, maxNameLength_of_long hvm]
  exact List.take_of_length_le (by omega)

theorem StackKernel.cpus_nodup (k : StackKernel) : k.possibleCpus.Nodup :=
  k.cpus_sorted.imp Nat.ne_of_lt

/-- In the build with the long names the numbers of the CPUs are kept. -/
theorem cpuTags_nodup (hvm : cfg.archQtiVm = false) : (k.possibleCpus.map (cpuTag cfg)).Nodup := by
  refine k.cpus_nodup.map_on ?_
  intro cpu hcpu cpu' hcpu' heq
  rw [cpuTag_of_long hvm (k.cpus_lt cpu hcpu), cpuTag_of_long hvm (k.cpus_lt cpu' hcpu')] at heq
  exact decimal_injective heq

/-- There is room for the number of a page in the build with the long names. -/
theorem cpuNameStr_room (hvm : cfg.archQtiVm = false) (hcpu : cpu < 4096) :
    (cpuNameStr cfg cpu).strlen + 2 ≤ cfg.maxNameLength := by
  have hdigits : (decimal cpu).length ≤ 4 := (length_decimal_le_iff (by decide)).mpr (by omega)
  rw [maxNameLength_of_long hvm, CStr.strlen, cpuNameStr_bytes, cpuTag_of_long hvm hcpu, List.length_append]
  simp only [List.length_cons, List.length_nil]
  omega

theorem suspendNameStr_room (hvm : cfg.archQtiVm = false) :
    (suspendNameStr cfg).strlen + 2 ≤ cfg.maxNameLength := by
  obtain ⟨vm⟩ := cfg
  cases hvm
  decide

/-- A stack has at least one page. -/
theorem exists_mem_namesOf (cfg : Config) (k : StackKernel) (nameStr : CStr) :
    ∃ name, name ∈ namesOf cfg k nameStr := by
  rw [namesOf]
  split
  · exact ⟨_, List.mem_map.mpr ⟨0, List.mem_range.mpr k.numPages_bounds.1, rfl⟩⟩
  · exact ⟨_, List.mem_singleton_self _⟩

theorem take_cpuNames {name : CStr} (h : name ∈ namesOf cfg k (cpuNameStr cfg cpu)) :
    name.bytes.take 6 = [75, 83, 84, 65, 67, 75] := by
  have hlength : 6 ≤ (cpuNameStr cfg cpu).strlen := by
    rw [CStr.strlen, cpuNameStr_bytes, List.length_append]
    exact Nat.le_add_right _ _
  rw [take_namesOf hlength h, cpuNameStr_bytes]
  rfl

theorem take_suspendNames {name : CStr} (h : name ∈ namesOf cfg k (suspendNameStr cfg)) :
    name.bytes.take 6 = [75, 83, 85, 83, 80, 83] := by
  obtain ⟨vm⟩ := cfg
  rw [take_namesOf (by cases vm <;> decide) h]
  cases vm <;> decide

theorem take_taskName (cfg : Config) :
    ((taskNameStr cfg).truncate cfg.maxNameLength).bytes.take 6 = [75, 83, 85, 83, 80, 84] := by
  obtain ⟨vm⟩ := cfg
  cases vm <;> decide

/-- Names are told apart by their first six bytes. -/
theorem ne_of_take {s t : CStr} {p q : List UInt8} (hs : s.bytes.take 6 = p) (ht : t.bytes.take 6 = q)
    (hpq : p ≠ q) : s ≠ t := by
  rintro rfl
  exact hpq (hs.symm.trans ht)

/-- **The names differ** exactly when the pages of a stack can be told apart, and the CPUs by what is
kept of their numbers. -/
theorem names_nodup_iff (cfg : Config) (k : StackKernel) :
    ((stackRegions cfg k).map fun e => e.2.name).Nodup ↔
      (cfg.archQtiVm = false ∨ k.numPages = 1) ∧ (k.possibleCpus.map (cpuTag cfg)).Nodup := by
  rw [map_stackRegions, List.nodup_append, List.nodup_append, List.nodup_flatMap]
  constructor
  · rintro ⟨⟨⟨-, hcpus⟩, hsuspend, -⟩, -, -⟩
    constructor
    · by_contra hnot
      rw [not_or, Bool.not_eq_false] at hnot
      exact suspend_collide hnot.1 hnot.2 hsuspend
    · refine List.pairwise_map.mpr (hcpus.imp ?_)
      intro cpu cpu' hdisjoint heq
      obtain ⟨name, hname⟩ := exists_mem_namesOf cfg k (cpuNameStr cfg cpu)
      refine hdisjoint hname ?_
      show name ∈ namesOf cfg k (cpuNameStr cfg cpu')
      rw [← cpuNameStr_congr heq]
      exact hname
  · rintro ⟨hpages, htags⟩
    refine ⟨⟨⟨?_, ?_⟩, ?_, ?_⟩, List.nodup_singleton _, ?_⟩
    · exact fun cpu hcpu => namesOf_nodup (hpages.symm.imp_right fun hvm =>
        cpuNameStr_room hvm (k.cpus_lt cpu hcpu))
    · refine (List.pairwise_map.mp htags).imp ?_
      intro cpu cpu' hne name hname hname'
      exact hne (cpuTag_of_name hname hname')
    · exact namesOf_nodup (hpages.symm.imp_right suspendNameStr_room)
    · intro a ha b hb
      obtain ⟨cpu, -, ha⟩ := List.mem_flatMap.mp ha
      exact ne_of_take (take_cpuNames ha) (take_suspendNames hb) (by decide)
    · intro a ha b hb
      rw [List.mem_singleton.mp hb]
      rcases List.mem_append.mp ha with ha | ha
      · obtain ⟨cpu, -, ha⟩ := List.mem_flatMap.mp ha
        exact ne_of_take (take_cpuNames ha) (take_taskName cfg) (by decide)
      · exact ne_of_take (take_suspendNames ha) (take_taskName cfg) (by decide)

end Names

/-! ## The result -/

/-- The names that are submitted differ, and so no region is refused as a duplicate by a driver that
has none of the names, and no stack is left out of the updates for that reason. -/
structure StackLaw (cfg : Config) (k : StackKernel) : Prop where
  distinct : ((stackRegions cfg k).map fun e => e.2.name).Nodup
  accepted : ∀ d, (∀ e ∈ stackRegions cfg k, e.2.name ∉ registeredNames d) →
    (∀ stack ∈ (registerStacks cfg k d).2.current, .error .EEXIST ∉ stack.2) ∧
      .error .EEXIST ∉ (registerStacks cfg k d).2.suspend ∧
      .error .EEXIST ∉ (registerStacks cfg k d).2.task

theorem stackLaw_of_distinct {cfg : Config} {k : StackKernel}
    (h : ((stackRegions cfg k).map fun e => e.2.name).Nodup) : StackLaw cfg k := by
  refine ⟨h, fun d hnew => ?_⟩
  have hnone : .error .EEXIST ∉ addRegions cfg (stackRegions cfg k) d :=
    no_duplicate_refused h (fun _ => hnew)
  rw [← registerStacks_eq, List.mem_append, List.mem_append, not_or, not_or] at hnone
  obtain ⟨⟨hcurrent, hsuspend⟩, htask⟩ := hnone
  refine ⟨?_, hsuspend, htask⟩
  intro stack hstack hmem
  exact hcurrent (List.mem_flatten.mpr ⟨stack.2, List.mem_map.mpr ⟨stack, hstack, rfl⟩, hmem⟩)

/-- **The names of the stacks differ** if and only if `MAX_NAME_LENGTH` is 12, or a stack has one page
and no two possible CPUs have numbers that start with the same two digits. -/
theorem stackLaw_iff (cfg : Config) (k : StackKernel) :
    StackLaw cfg k ↔ cfg.archQtiVm = false ∨
      (k.numPages = 1 ∧ (k.possibleCpus.map fun cpu => (decimal cpu).take 2).Nodup) := by
  have hlaw : StackLaw cfg k ↔ ((stackRegions cfg k).map fun e => e.2.name).Nodup :=
    ⟨StackLaw.distinct, stackLaw_of_distinct⟩
  rw [hlaw, names_nodup_iff]
  cases hvm : cfg.archQtiVm with
  | false => exact ⟨fun _ => Or.inl rfl, fun _ => ⟨Or.inl rfl, cpuTags_nodup hvm⟩⟩
  | true =>
    have htag : (fun cpu => (decimal cpu).take 2) = cpuTag cfg := by
      funext cpu
      rw [cpuTag, Config.maxNameLength, hvm]
      rfl
    rw [htag]
    simp only [Bool.true_eq_false, false_or]

/-- **The suspend stack is never updated** in the build with the short names, where it has more than
one page: a page is refused, since two of them have the same name. -/
theorem suspend_never_updated {cfg : Config} {k : StackKernel} {d : Driver}
    (hvm : cfg.archQtiVm = true) (hpages : k.numPages ≠ 1) (hlooks : looksForName d = true)
    (stackMdr : List (Bool × MdRegion)) (sp : UInt64) (d' : Driver) :
    updateMdStack cfg k stackMdr (registerStacks cfg k d).2.suspend sp d' = d' := by
  have hlooks' : looksForName (registerCurrentStack cfg k k.possibleCpus d).1 = true := by
    rw [(registerCurrentStack_eq cfg k k.possibleCpus d).1, looksForName_addAll]
    exact hlooks
  have hsame : ¬ ((registerSuspendStack cfg k).map fun e => e.2.name).Nodup := by
    rw [registerSuspendStack, map_registerStack]
    exact suspend_collide hvm hpages
  obtain ⟨err, hmem⟩ : ∃ err, .error err ∈ (registerStacks cfg k d).2.suspend := by
    by_contra hnone
    have hall : ∀ r ∈ (registerStacks cfg k d).2.suspend, ∃ regno, r = .ok regno := by
      intro r hr
      cases r with
      | error err => exact absurd ⟨err, hr⟩ hnone
      | ok regno => exact ⟨regno, rfl⟩
    exact hsame (distinct_of_accepted hlooks' hall).1
  exact updateMdStack_of_error hmem cfg k stackMdr sp d'

/-- Four CPUs with stacks of 16 KiB that are mapped. -/
def plainStacks : StackKernel where
  isVmapStack := true
  threadSize := 0x4000
  possibleCpus := [0, 1, 2, 3]
  sp := 0xffff800008000000
  vmallocToPhys := fun sp => sp - 0xffff800000000000
  virtToPhys := fun a => a - 0xffff000000000000
  current := 0xffff000081000000
  taskSize := 0x1000
  alloc := fun _ _ => true
  allocTask := true
  threadSize_ge := by decide
  threadSize_lt := by decide
  cpus_sorted := by decide
  cpus_lt := by decide

/-- **Two pages of the suspend stack** have the name `KSUSPSTK_` in the build with the short names. -/
theorem suspend_pages_collide :
    pageName ⟨true⟩ (suspendNameStr ⟨true⟩) 0 = CStr.ofString "KSUSPSTK_" ∧
      pageName ⟨true⟩ (suspendNameStr ⟨true⟩) 1 = CStr.ofString "KSUSPSTK_" ∧
      ¬ StackLaw ⟨true⟩ plainStacks := by
  refine ⟨by decide, by decide, fun hlaw => ?_⟩
  rcases ((names_nodup_iff _ _).mp hlaw.distinct).1 with hvm | hone
  · cases hvm
  · exact absurd hone (by decide)

end SafelinuxDbg.MinidumpLog
