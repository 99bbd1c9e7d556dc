import SafelinuxDbg.MinidumpLog.Submissions

/-!
# Following the current stacks

Once the stacks are registered, the hook of `sched_switch` moves the regions of a CPU to the stack of
the task that is switched to, page by page, and the notifier of the power management moves those of
the suspend context.  Nothing is moved for an idle task, nor when one of the pages was refused.

The regions are found by their numbers, and the other clients of the driver go on adding, updating and
removing regions at the same time.  A number is good until a region below it is removed, so the clients
must not remove regions that were registered before the stacks.

* `added_rows`: the numbers that the registration hands out.
* `updatePages_rows`: moving a stack changes its own pages only.
* `stacks_followed`: in every run the tables and the headers describe, for each CPU, the pages of the
  task that was last switched to on it.
-/

namespace SafelinuxDbg.MinidumpLog

open CMemory Minidump

/-! ## The hooks -/

/-- What the hooks read of a task: `stack` is the lowest address of its stack, `sp` the stack pointer
and `addr` the address of the task. -/
structure TaskStack where
  isIdle : Bool
  stack : UInt64
  sp : UInt64
  addr : UInt64

/-- The driver and its clients, `md_stack_data` and `md_suspend_context`, and the flags that tell
whether these were filled in. -/
structure Tracker where
  client : Client
  mdStacks : MdStacks
  currentStackInit : Bool
  suspendInit : Bool

def Tracker.withDriver (t : Tracker) (d : Driver) : Tracker := { t with client := { t.client with driver := d } }

/-- `stack_mdidx` of a CPU. -/
def MdStacks.stackMdidx (m : MdStacks) (cpu : Nat) : List (Except Errno Nat) := (m.current.lookup cpu).getD []

/-- `update_md_cpu_stack`. -/
def updateMdCpuStack (cfg : Config) (k : StackKernel) (isIdle : Bool) (cpu : Nat) (sp : UInt64)
    (t : Tracker) : Tracker :=
  if isIdle || !t.currentStackInit then t
  else t.withDriver (updateMdStack cfg k (cpuStack cfg k cpu) (t.mdStacks.stackMdidx cpu) sp t.client.driver)

/-- `md_current_stack_notifer`, where `cpu` is `task_cpu(next)`. -/
def mdCurrentStackNotifer (cfg : Config) (k : StackKernel) (cpu : Nat) (next : TaskStack) (t : Tracker) :
    Tracker :=
  updateMdCpuStack cfg k next.isIdle cpu next.stack t

/-- The stack pointer, or the start of the area when stacks are mapped. -/
def currentSp (k : StackKernel) (current : TaskStack) : UInt64 :=
  if k.isVmapStack then current.stack else current.sp

/-- `md_current_stack_ipi_handler`. -/
def mdCurrentStackIpiHandler (cfg : Config) (k : StackKernel) (cpu : Nat) (current : TaskStack)
    (t : Tracker) : Tracker :=
  if current.isIdle then t
  else updateMdCpuStack cfg k current.isIdle cpu (currentSp k current) t

/-- `update_md_current_task` of a task that was registered as `mdr`. -/
def updateMdCurrentTask (cfg : Config) (k : StackKernel) (mdr : Bool × MdRegion) (mdno : Nat)
    (current : UInt64) (d : Driver) : Driver :=
  (msmMinidumpUpdateRegion cfg mdr.1 mdno
    { mdr.2 with virtAddr := current, physAddr := k.virtToPhys current } d).1

/-- `update_md_suspend_current_task`. -/
def updateMdSuspendCurrentTask (cfg : Config) (k : StackKernel) (m : MdStacks) (current : UInt64)
    (d : Driver) : Driver :=
  match registerSuspendCurrentTask cfg k, m.task with
  | [mdr], [.ok mdno] => updateMdCurrentTask cfg k mdr mdno current d
  | _, _ => d

/-- `update_md_suspend_currents`. -/
def updateMdSuspendCurrents (cfg : Config) (k : StackKernel) (current : TaskStack) (t : Tracker) :
    Tracker :=
  if !t.suspendInit then t
  else
    let d := updateMdStack cfg k (registerSuspendStack cfg k) t.mdStacks.suspend (currentSp k current)
      t.client.driver
    t.withDriver (updateMdSuspendCurrentTask cfg k t.mdStacks current.addr d)

/-- The events of the power management; the notifier looks at one of them. -/
inductive PmEvent
  | suspendPrepare
  | other

def minidumpPmNotifier (cfg : Config) (k : StackKernel) (event : PmEvent) (current : TaskStack)
    (t : Tracker) : Tracker :=
  match event with
  | .suspendPrepare => updateMdSuspendCurrents cfg k current t
  | .other => t

/-! ## Runs -/

/-- A hook, or a call of another client. -/
inductive TrackEvent
  | switch (cpu : Nat) (next : TaskStack)
  | ipi (cpu : Nat) (current : TaskStack)
  | pm (event : PmEvent) (current : TaskStack)
  | call (c : Call)

def Tracker.step (cfg : Config) (k : StackKernel) (t : Tracker) : TrackEvent → Tracker
  | .switch cpu next => mdCurrentStackNotifer cfg k cpu next t
  | .ipi cpu current => mdCurrentStackIpiHandler cfg k cpu current t
  | .pm event current => minidumpPmNotifier cfg k event current t
  | .call c => { t with client := t.client.step cfg c }

/-- The client after regions were added one after the other. -/
def clientAddAll (cfg : Config) (es : List (Bool × MdRegion)) (s : Client) : Client :=
  es.foldl (fun s e => s.step cfg (.add e.1 e.2)) s

/-- The stacks are registered by `register_current_stack` and `register_suspend_context`. -/
def Tracker.registered (cfg : Config) (k : StackKernel) (s : Client) : Tracker :=
  ⟨clientAddAll cfg (stackRegions cfg k) s, (registerStacks cfg k s.driver).2, true, true⟩

/-! ## Rows -/

/-- Whose region it is. -/
inductive StackOwner
  | cpu (cpu : Nat)
  | suspend
  | task
deriving DecidableEq

/-- A region that was accepted: what was submitted, as which page, and the number returned. -/
structure StackRow where
  owner : StackOwner
  page : Nat
  region : MdRegion
  regno : Nat
deriving DecidableEq

/-- The accepted ones among the regions of an owner. -/
def rowsFrom (owner : StackOwner) : Nat → List (Bool × MdRegion) → List (Except Errno Nat) → List StackRow
  | page, e :: es, .ok n :: rs => ⟨owner, page, e.2, n⟩ :: rowsFrom owner (page + 1) es rs
  | page, _ :: es, .error _ :: rs => rowsFrom owner (page + 1) es rs
  | _, [], _ => []
  | _, _ :: _, [] => []

def MdStacks.rows (cfg : Config) (k : StackKernel) (m : MdStacks) : List StackRow :=
  (m.current.flatMap fun c => rowsFrom (.cpu c.1) 0 (cpuStack cfg k c.1) c.2) ++
    (rowsFrom .suspend 0 (registerSuspendStack cfg k) m.suspend ++
      rowsFrom .task 0 (registerSuspendCurrentTask cfg k) m.task)

/-- The stack, without the bits below its alignment. -/
def stackBase (k : StackKernel) (sp : UInt64) : UInt64 :=
  sp &&& ~~~(if k.isVmapStack then pageSize - 1 else k.threadSize - 1)

/-- The address of a page of the stack at `sp`, or of the task there. -/
def StackOwner.virtAddr (k : StackKernel) : StackOwner → Nat → UInt64 → UInt64
  | .task, _, current => current
  | _, page, sp => stackBase k sp + UInt64.ofNat page * pageSize

def StackOwner.physAddr (k : StackKernel) : StackOwner → Nat → UInt64 → UInt64
  | .task, _, current => k.virtToPhys current
  | _, page, sp =>
    let a := stackBase k sp + UInt64.ofNat page * pageSize
    if k.isVmapStack then k.vmallocToPhys a else k.virtToPhys a

/-- The region of a row when its owner is at `sp`. -/
def StackRow.place (k : StackKernel) (row : StackRow) (sp : UInt64) : MdRegion :=
  { row.region with
    virtAddr := row.owner.virtAddr k row.page sp
    physAddr := row.owner.physAddr k row.page sp }

/-! ## One region -/

section Places

variable {α β : Type*} {idx : β → Nat} {f : β → α → α} {bs : List β} {R : List α}

/-- Changes at other places. -/
theorem foldl_modify_of_ne {n : Nat} (h : ∀ b ∈ bs, idx b ≠ n) :
    (bs.foldl (fun R b => R.modify (idx b) (f b)) R)[n]? = R[n]? := by
  induction bs generalizing R with
  | nil => rfl
  | cons b bs ih =>
    obtain ⟨hb, hbs⟩ := List.forall_mem_cons.mp h
    rw [List.foldl_cons, ih hbs, List.getElem?_modify_ne _ _ hb]

/-- Changes at places that differ: each is made once. -/
theorem foldl_modify_of_mem (h : bs.Pairwise fun a b => idx a ≠ idx b) {b : β} (hb : b ∈ bs) :
    (bs.foldl (fun R b => R.modify (idx b) (f b)) R)[idx b]? = (R[idx b]?).map (f b) := by
  induction bs generalizing R with
  | nil => cases hb
  | cons x bs ih =>
    obtain ⟨hx, hbs⟩ := List.pairwise_cons.mp h
    rw [List.foldl_cons]
    rcases List.mem_cons.mp hb with rfl | hmem
    · rw [foldl_modify_of_ne (fun y hy => (hx y hy).symm), List.getElem?_modify_eq]
      rfl
    · rw [ih hbs hmem, List.getElem?_modify_ne _ _ (hx b hmem)]

end Places

/-! ## The registration -/

/-- The rows are in `R` under their numbers, in order, from `lo` on. -/
structure RowsIn (R : List MdRegion) (lo : Nat) (rows : List StackRow) : Prop where
  sorted : rows.Pairwise fun a b => a.regno < b.regno
  inside : ∀ row ∈ rows, lo ≤ row.regno ∧ R[row.regno]? = some row.region

section Registration

variable {cfg : Config} {k : StackKernel} {p : Platform} {s : Client} {R S : List MdRegion}
  {rows rows' : List StackRow} {lo : Nat}

/-- Rows that were there, and rows that came behind them. -/
theorem RowsIn.append (h : RowsIn R lo rows) (hlo : lo ≤ R.length)
    (h' : RowsIn (R ++ S) R.length rows') : RowsIn (R ++ S) lo (rows ++ rows') := by
  have hlt : ∀ row ∈ rows, row.regno < R.length :=
    fun row hrow => (List.getElem?_eq_some_iff.mp (h.inside row hrow).2).1
  constructor
  · refine List.pairwise_append.mpr ⟨h.sorted, h'.sorted, ?_⟩
    intro a ha b hb
    exact Nat.lt_of_lt_of_le (hlt a ha) (h'.inside b hb).1
  · intro row hrow
    rcases List.mem_append.mp hrow with hold | hnew
    · rw [List.getElem?_append_left (hlt row hold)]
      exact h.inside row hold
    · obtain ⟨hge, hget⟩ := h'.inside row hnew
      exact ⟨Nat.le_trans hlo hge, hget⟩

/-- What has become of the driver once regions were added. -/
structure Grown (cfg : Config) (p : Platform) (s s' : Client) (rows : List StackRow) : Prop where
  kept : Orderly cfg p s'
  mark : s'.driver.firstRemovedEntry = s.driver.firstRemovedEntry
  regions : ∃ S, registered s'.driver = registered s.driver ++ S
  rowsIn : RowsIn (registered s'.driver) (registered s.driver).length rows

theorem Grown.trans {s' s'' : Client} (h : Grown cfg p s s' rows) (h' : Grown cfg p s' s'' rows') :
    Grown cfg p s s'' (rows ++ rows') := by
  obtain ⟨S, hS⟩ := h.regions
  obtain ⟨S', hS'⟩ := h'.regions
  have hrows' := h'.rowsIn
  have hle : (registered s.driver).length ≤ (registered s'.driver).length := by
    rw [hS, List.length_append]
    omega
  refine ⟨h'.kept, h'.mark.trans h.mark, ⟨S ++ S', by rw [hS', hS, List.append_assoc]⟩, ?_⟩
  rw [hS'] at hrows' ⊢
  exact h.rowsIn.append hle hrows'

end Registration

/-! ## Places -/

/-- Where the registration puts an owner. -/
def StackOwner.start (k : StackKernel) : StackOwner → UInt64
  | .task => k.current
  | _ => k.sp

section Place

variable {cfg : Config} {k : StackKernel} {owner : StackOwner}

/-- A row comes from one of the submitted regions. -/
theorem mem_rowsFrom {row : StackRow} : ∀ {es : List (Bool × MdRegion)} {rs : List (Except Errno Nat)}
    {page : Nat}, row ∈ rowsFrom owner page es rs →
      row.owner = owner ∧ page ≤ row.page ∧ (es[row.page - page]?).map Prod.snd = some row.region
  | [], rs, page, h => by
    rw [rowsFrom] at h
    cases h
  | e :: es, [], page, h => by
    rw [rowsFrom] at h
    cases h
  | e :: es, .error err :: rs, page, h => by
    rw [rowsFrom] at h
    obtain ⟨howner, hpage, hget⟩ := mem_rowsFrom h
    obtain ⟨i, hi⟩ : ∃ i, row.page - page = i + 1 := ⟨row.page - (page + 1), by omega⟩
    refine ⟨howner, by omega, ?_⟩
    rw [hi, List.getElem?_cons_succ, ← hget]
    congr 2
    omega
  | e :: es, .ok n :: rs, page, h => by
    rw [rowsFrom] at h
    rcases List.mem_cons.mp h with rfl | h
    · exact ⟨rfl, Nat.le_refl _, by rw [Nat.sub_self]; rfl⟩
    obtain ⟨howner, hpage, hget⟩ := mem_rowsFrom h
    obtain ⟨i, hi⟩ : ∃ i, row.page - page = i + 1 := ⟨row.page - (page + 1), by omega⟩
    refine ⟨howner, by omega, ?_⟩
    rw [hi, List.getElem?_cons_succ, ← hget]
    congr 2
    omega

/-- The submitted pages of a stack: as many as it has, and each where it is. -/
theorem registerStack_getElem? {alloc : Nat → Bool} {nameStr : CStr} {i : Nat} {e : MdRegion}
    (h : ((registerStack cfg k alloc nameStr)[i]?).map Prod.snd = some e) :
    i < k.numPages ∧ e = registerStackEntry k e.name (stackBase k k.sp + UInt64.ofNat i * pageSize) e.size := by
  rw [registerStack] at h
  split at h
  case isTrue hvmap =>
    rw [registerVmappedStack, List.getElem?_map, Option.map_map] at h
    obtain ⟨j, hj, rfl⟩ := Option.map_eq_some_iff.mp h
    obtain ⟨hlt, hget⟩ := List.getElem?_eq_some_iff.mp hj
    rw [List.getElem_range] at hget
    rw [List.length_range] at hlt
    subst hget
    refine ⟨hlt, ?_⟩
    simp only [Function.comp, registerStackEntry, stackBase, hvmap, if_true]
  case isFalse hnormal =>
    obtain ⟨x, hx, rfl⟩ := Option.map_eq_some_iff.mp h
    rw [registerNormalStack] at hx
    cases i with
    | zero =>
      cases hx
      refine ⟨k.numPages_bounds.1, ?_⟩
      have hzero : UInt64.ofNat 0 * pageSize = 0 := by decide
      rw [hzero, UInt64.add_zero]
      rw [stackBase, if_neg hnormal]
      rfl
    | succ i => cases hx

theorem place_of_stack {row : StackRow} (howner : row.owner ≠ .task) (sp : UInt64) : row.place k sp =
    { registerStackEntry k row.region.name (stackBase k sp + UInt64.ofNat row.page * pageSize)
        row.region.size with id := row.region.id } := by
  obtain ⟨owner, page, region, regno⟩ := row
  cases owner with
  | cpu cpu => rfl
  | suspend => rfl
  | task => exact absurd rfl howner

/-- What is known of a row: its page is one of the stack's, and it was submitted where its owner
was. -/
theorem place_start {m : MdStacks} {row : StackRow} (h : row ∈ m.rows cfg k) :
    row.place k (row.owner.start k) = row.region ∧ (row.owner ≠ .task → row.page < k.numPages) := by
  have hstack : ∀ {owner : StackOwner} {alloc : Nat → Bool} {nameStr : CStr}
      {rs : List (Except Errno Nat)}, owner ≠ .task →
      row ∈ rowsFrom owner 0 (registerStack cfg k alloc nameStr) rs →
        row.place k (row.owner.start k) = row.region ∧ (row.owner ≠ .task → row.page < k.numPages) := by
    intro owner alloc nameStr rs hne hmem
    obtain ⟨howner, -, hget⟩ := mem_rowsFrom hmem
    obtain ⟨hpage, hregion⟩ := registerStack_getElem? hget
    have hstart : row.owner.start k = k.sp := by
      rw [howner]
      cases owner with
      | cpu cpu => rfl
      | suspend => rfl
      | task => exact absurd rfl hne
    refine ⟨?_, fun _ => hpage⟩
    rw [place_of_stack (by rw [howner]; exact hne), hstart]
    rw [Nat.sub_zero] at hregion
    conv_rhs => rw [hregion]
    rw [hregion]
    rfl
  rw [MdStacks.rows] at h
  rcases List.mem_append.mp h with h | h
  · obtain ⟨c, -, hrow⟩ := List.mem_flatMap.mp h
    exact hstack (by simp) hrow
  rcases List.mem_append.mp h with h | h
  · exact hstack (by simp) h
  · obtain ⟨howner, -, hget⟩ := mem_rowsFrom h
    rw [Nat.sub_zero] at hget
    obtain ⟨owner, page, region, regno⟩ := row
    cases howner
    refine ⟨?_, fun hne => absurd rfl hne⟩
    cases page with
    | zero =>
      cases hget
      rfl
    | succ page => cases hget

end Place

/-! ## Moving a stack -/

/-- The regions once all rows were moved to `sp`. -/
def moveRows (k : StackKernel) (sp : UInt64) (rows : List StackRow) (R : List MdRegion) : List MdRegion :=
  rows.foldl (fun R row => R.modify row.regno (MdRegion.moveTo (row.place k sp))) R

/-- The row can be moved to `sp`: it is in the table under its number, and its number is good. -/
structure Movable (k : StackKernel) (d : Driver) (sp : UInt64) (row : StackRow) : Prop where
  there : ∃ old, (registered d)[row.regno]? = some (row.place k old)
  good : row.regno < d.firstRemovedEntry
  mapped : (row.place k sp).virtAddr ≠ 0

/-- The driver after rows were moved to `sp`. -/
structure Moved (cfg : Config) (k : StackKernel) (p : Platform) (sp : UInt64) (rows : List StackRow)
    (s : Client) (d : Driver) : Prop where
  kept : Orderly cfg p { s with driver := d }
  regions : registered d = moveRows k sp rows (registered s.driver)
  mark : d.firstRemovedEntry = s.driver.firstRemovedEntry

section Move

variable {cfg : Config} {k : StackKernel} {p : Platform} {s : Client} {sp : UInt64} {row : StackRow}
  {owner : StackOwner}

/-- A row is moved by an update with its number. -/
theorem Movable.move (h : Orderly cfg p s) (hrow : Movable k s.driver sp row) (alloc : Bool) :
    Moved cfg k p sp [row] s (msmMinidumpUpdateRegion cfg alloc row.regno (row.place k sp) s.driver).1 := by
  obtain ⟨old, hold⟩ := hrow.there
  obtain ⟨r, hr⟩ := h.registry
  have hvalid : validateRegion cfg (row.place k old) = .ok () := by
    rw [registered_eq hr.tables] at hold
    exact r.valid _ (List.mem_of_getElem? hold)
  obtain ⟨hlength, -, hsize⟩ := validateRegion_eq_ok.mp hvalid
  have hv : validateRegion cfg (row.place k sp) = .ok () :=
    validateRegion_eq_ok.mpr ⟨hlength, hrow.mapped, hsize⟩
  obtain ⟨hkept, hregions, hmark⟩ := h.move (e := row.place k sp) alloc hold rfl hrow.good hv
  exact ⟨hkept, hregions, hmark⟩

/-- The other rows stay movable. -/
theorem Movable.kept {d d' : Driver} {other : StackRow} (h : Movable k d sp row)
    (hne : other.regno ≠ row.regno) (hregions : registered d' = moveRows k sp [other] (registered d))
    (hmark : d'.firstRemovedEntry = d.firstRemovedEntry) : Movable k d' sp row := by
  obtain ⟨old, hold⟩ := h.there
  refine ⟨⟨old, ?_⟩, ?_, h.mapped⟩
  · rw [hregions, moveRows, foldl_modify_of_ne (List.forall_mem_singleton.mpr hne)]
    exact hold
  · rw [hmark]
    exact h.good

theorem next_page (base : UInt64) (page : Nat) :
    base + UInt64.ofNat page * pageSize + pageSize = base + UInt64.ofNat (page + 1) * pageSize := by
  have hsucc : UInt64.ofNat (page + 1) = UInt64.ofNat page + 1 := UInt64.ofNat_add page 1
  rw [hsucc, UInt64.add_mul, UInt64.one_mul, UInt64.add_assoc]

/-- **The loop over the pages** moves the rows of its owner. -/
theorem updatePages_rows (sp : UInt64) (howner : owner ≠ .task) : ∀ (es : List (Bool × MdRegion)) (mdnos : List Nat)
    (page : Nat) {s : Client}, Orderly cfg p s →
      (∀ row ∈ rowsFrom owner page es (mdnos.map .ok), Movable k s.driver sp row) →
      (rowsFrom owner page es (mdnos.map .ok)).Pairwise (fun a b => a.regno ≠ b.regno) →
      Moved cfg k p sp (rowsFrom owner page es (mdnos.map .ok)) s
        (updatePages cfg k (es.zip mdnos) (stackBase k sp + UInt64.ofNat page * pageSize) s.driver)
  | [], mdnos, page, s, h, _, _ => by
    rw [rowsFrom]
    exact ⟨h, rfl, rfl⟩
  | e :: es, [], page, s, h, _, _ => ⟨h, rfl, rfl⟩
  | (alloc, mdr) :: es, mdno :: mdnos, page, s, h, hrows, hdistinct => by
    rw [List.map_cons, rowsFrom] at hrows hdistinct ⊢
    rw [List.zip_cons_cons, updatePages]
    obtain ⟨hrow, hrest⟩ := List.forall_mem_cons.mp hrows
    obtain ⟨hne, hdistinct⟩ := List.pairwise_cons.mp hdistinct
    have hfirst := hrow.move h alloc
    rw [place_of_stack howner] at hfirst
    have hnext := updatePages_rows sp howner es mdnos (page + 1) hfirst.kept
      (fun row hmem => (hrest row hmem).kept (hne row hmem) hfirst.regions hfirst.mark) hdistinct
    rw [next_page]
    refine ⟨hnext.kept, ?_, hnext.mark.trans hfirst.mark⟩
    rw [hnext.regions]
    exact congrArg (moveRows k sp _) hfirst.regions

/-- All numbers were returned, or there is an error among them. -/
theorem mapM_toOption_cases : ∀ rs : List (Except Errno Nat),
    (∃ mdnos : List Nat, rs = mdnos.map .ok ∧ rs.mapM Except.toOption = some mdnos) ∨
      ∃ err, .error err ∈ rs
  | [] => Or.inl ⟨[], rfl, rfl⟩
  | .error err :: rs => Or.inr ⟨err, List.mem_cons_self⟩
  | .ok n :: rs => by
    rcases mapM_toOption_cases rs with ⟨mdnos, hrs, hmap⟩ | ⟨err, hmem⟩
    · refine Or.inl ⟨n :: mdnos, by rw [hrs]; rfl, ?_⟩
      rw [List.mapM_cons, hmap]
      rfl
    · exact Or.inr ⟨err, List.mem_cons_of_mem _ hmem⟩

/-- The numbers of an owner are all there. -/
def allIssued (rs : List (Except Errno Nat)) : Bool := rs.all fun r => r.toOption.isSome

theorem allIssued_of_error {rs : List (Except Errno Nat)} {err : Errno} (h : .error err ∈ rs) :
    allIssued rs = false := by
  rw [allIssued, List.all_eq_false]
  exact ⟨_, h, Bool.false_ne_true⟩

/-- **Moving a stack**: its rows are moved when it has all of its numbers, and otherwise nothing
happens. -/
theorem updateMdStack_rows (howner : owner ≠ .task) (h : Orderly cfg p s) {es : List (Bool × MdRegion)}
    {rs : List (Except Errno Nat)} (hrows : ∀ row ∈ rowsFrom owner 0 es rs, Movable k s.driver sp row)
    (hdistinct : (rowsFrom owner 0 es rs).Pairwise (fun a b => a.regno ≠ b.regno)) :
    Moved cfg k p sp (if allIssued rs then rowsFrom owner 0 es rs else []) s
      (updateMdStack cfg k es rs sp s.driver) := by
  rcases mapM_toOption_cases rs with ⟨mdnos, hrs, hmap⟩ | ⟨err, hmem⟩
  · have hall : allIssued rs = true := by
      rw [allIssued, List.all_eq_true, hrs]
      intro r hr
      obtain ⟨n, -, rfl⟩ := List.mem_map.mp hr
      rfl
    have hmoved := updatePages_rows sp howner es mdnos 0 h (hrs ▸ hrows) (hrs ▸ hdistinct)
    have hzero : UInt64.ofNat 0 * pageSize = 0 := by decide
    rw [hzero, UInt64.add_zero] at hmoved
    rw [if_pos hall, updateMdStack, hmap, hrs]
    exact hmoved
  · rw [allIssued_of_error hmem, updateMdStack_of_error hmem]
    exact ⟨h, rfl, rfl⟩

end Move

/-! ## Every run -/

/-- The numbers of an owner. -/
def MdStacks.numbers (m : MdStacks) : StackOwner → List (Except Errno Nat)
  | .cpu cpu => m.stackMdidx cpu
  | .suspend => m.suspend
  | .task => m.task

/-- Where the owners were last seen, for those that have all of their numbers. -/
def follow (m : MdStacks) (owner : StackOwner) (sp : UInt64) (last : StackOwner → UInt64) :
    StackOwner → UInt64 :=
  if allIssued (m.numbers owner) then Function.update last owner sp else last

/-- What an event tells about where the owners are: nothing about an idle task. -/
def noteStack (k : StackKernel) (t : Tracker) (event : TrackEvent) (_ : Tracker)
    (last : StackOwner → UInt64) : StackOwner → UInt64 :=
  match event with
  | .switch cpu next => if next.isIdle then last else follow t.mdStacks (.cpu cpu) next.stack last
  | .ipi cpu current => if current.isIdle then last else follow t.mdStacks (.cpu cpu) (currentSp k current) last
  | .pm .suspendPrepare current =>
    follow t.mdStacks .task current.addr (follow t.mdStacks .suspend (currentSp k current) last)
  | .pm .other _ => last
  | .call _ => last

/-- There is no page of the stack at address zero. -/
def StackMapped (k : StackKernel) (sp : UInt64) : Prop :=
  ∀ page < k.numPages, stackBase k sp + UInt64.ofNat page * pageSize ≠ 0

/-- Stacks and tasks are where memory can be; the other clients update and remove regions of their
own, and remove only regions that were registered after the stacks. -/
def TrackOk (cfg : Config) (k : StackKernel) (t : Tracker) : TrackEvent → Prop
  | .switch _ next => StackMapped k next.stack
  | .ipi _ current => StackMapped k (currentSp k current)
  | .pm _ current => StackMapped k (currentSp k current) ∧ current.addr ≠ 0
  | .call c => RemovableCall cfg t.client c ∧
      match c with
      | .add _ _ => True
      | .update _ e => ∀ row ∈ t.mdStacks.rows cfg k, row.region.name ≠ e.name
      | .remove e => ∀ row ∈ t.mdStacks.rows cfg k, ∀ i,
          ((registered t.client.driver)[i]?).map MdRegion.name = some e.name → row.regno < i

/-- What every event keeps. -/
structure Tracked (cfg : Config) (k : StackKernel) (p : Platform) (t : Tracker)
    (last : StackOwner → UInt64) : Prop where
  kept : Orderly cfg p t.client
  keys : (t.mdStacks.current.map Prod.fst).Nodup
  oneTask : t.mdStacks.task.length = 1
  sorted : (t.mdStacks.rows cfg k).Pairwise fun a b => a.regno < b.regno
  good : ∀ row ∈ t.mdStacks.rows cfg k, row.regno < t.client.driver.firstRemovedEntry
  shown : ∀ row ∈ t.mdStacks.rows cfg k,
    (registered t.client.driver)[row.regno]? = some (row.place k (last row.owner))

section Owners

variable {cfg : Config} {k : StackKernel} {m : MdStacks}

/-- The regions that are submitted for an owner. -/
def submitted (cfg : Config) (k : StackKernel) : StackOwner → List (Bool × MdRegion)
  | .cpu cpu => cpuStack cfg k cpu
  | .suspend => registerSuspendStack cfg k
  | .task => registerSuspendCurrentTask cfg k

theorem lookup_of_mem {α : Type*} {l : List (Nat × α)} (hkeys : (l.map Prod.fst).Nodup) {c : Nat × α}
    (h : c ∈ l) : l.lookup c.1 = some c.2 := by
  induction l with
  | nil => cases h
  | cons x l ih =>
    obtain ⟨hx, hkeys⟩ := List.nodup_cons.mp hkeys
    rcases List.mem_cons.mp h with rfl | hmem
    · rw [List.lookup_cons_self]
    · have hne : (c.1 == x.1) = false := by
        rw [beq_eq_false_iff_ne]
        rintro heq
        exact hx (heq ▸ List.mem_map_of_mem hmem)
      rw [List.lookup_cons, hne]
      exact ih hkeys hmem

/-- The rows of an owner. -/
theorem mem_rows_of_owner (hkeys : (m.current.map Prod.fst).Nodup) {row : StackRow} {owner : StackOwner}
    (h : row ∈ m.rows cfg k) (howner : row.owner = owner) :
    row ∈ rowsFrom owner 0 (submitted cfg k owner) (m.numbers owner) := by
  rw [MdStacks.rows] at h
  rcases List.mem_append.mp h with h | h
  · obtain ⟨c, hc, hrow⟩ := List.mem_flatMap.mp h
    obtain rfl := howner.symm.trans (mem_rowsFrom hrow).1
    rw [MdStacks.numbers, MdStacks.stackMdidx, lookup_of_mem hkeys hc]
    exact hrow
  rcases List.mem_append.mp h with h | h
  · obtain rfl := howner.symm.trans (mem_rowsFrom h).1
    exact h
  · obtain rfl := howner.symm.trans (mem_rowsFrom h).1
    exact h

theorem rowsFrom_nil (owner : StackOwner) (page : Nat) (es : List (Bool × MdRegion)) :
    rowsFrom owner page es [] = [] := by
  cases es with
  | nil => rw [rowsFrom]
  | cons e es => rw [rowsFrom]

/-- The rows of an owner are some of all rows, in order. -/
theorem rowsFrom_sublist (cfg : Config) (k : StackKernel) (m : MdStacks) (owner : StackOwner) :
    (rowsFrom owner 0 (submitted cfg k owner) (m.numbers owner)).Sublist (m.rows cfg k) := by
  rw [MdStacks.rows]
  cases owner with
  | cpu cpu =>
    refine List.Sublist.trans ?_ (List.sublist_append_left _ _)
    rw [MdStacks.numbers, MdStacks.stackMdidx]
    cases hlookup : m.current.lookup cpu with
    | none =>
      rw [Option.getD_none, rowsFrom_nil]
      exact List.nil_sublist _
    | some rs =>
      obtain ⟨before, behind, hcurrent, -⟩ := List.lookup_eq_some_iff.mp hlookup
      rw [hcurrent, List.flatMap_append, List.flatMap_cons]
      exact (List.sublist_append_left _ _).trans (List.sublist_append_right _ _)
  | suspend => exact (List.sublist_append_left _ _).trans (List.sublist_append_right _ _)
  | task => exact (List.sublist_append_right _ _).trans (List.sublist_append_right _ _)

end Owners

section Steps

variable {cfg : Config} {k : StackKernel} {p : Platform} {t : Tracker} {last : StackOwner → UInt64}
  {owner : StackOwner} {sp : UInt64}

theorem Tracked.regno_inj (h : Tracked cfg k p t last) {a b : StackRow} (ha : a ∈ t.mdStacks.rows cfg k)
    (hb : b ∈ t.mdStacks.rows cfg k) (hab : a.regno = b.regno) : a = b := by
  have hnodup : ((t.mdStacks.rows cfg k).map StackRow.regno).Nodup :=
    List.pairwise_map.mpr (h.sorted.imp Nat.ne_of_lt)
  exact List.inj_on_of_nodup_map hnodup ha hb hab

/-- The rows of an owner, and why they can be moved. -/
theorem Tracked.movable (h : Tracked cfg k p t last) (owner : StackOwner) (sp : UInt64)
    (hmapped : ∀ row : StackRow, row ∈ t.mdStacks.rows cfg k → row.owner = owner →
      (row.place k sp).virtAddr ≠ 0) :
    (∀ row ∈ rowsFrom owner 0 (submitted cfg k owner) (t.mdStacks.numbers owner),
      Movable k t.client.driver sp row) ∧
    (rowsFrom owner 0 (submitted cfg k owner) (t.mdStacks.numbers owner)).Pairwise
      fun a b => a.regno ≠ b.regno := by
  have hsub := rowsFrom_sublist cfg k t.mdStacks owner
  constructor
  · intro row hrow
    have hmem := hsub.subset hrow
    exact ⟨⟨_, h.shown row hmem⟩, h.good row hmem, hmapped row hmem (mem_rowsFrom hrow).1⟩
  · exact (h.sorted.sublist hsub).imp Nat.ne_of_lt

/-- The rows of an owner that are moved: all of them, or none. -/
def movedRows (cfg : Config) (k : StackKernel) (m : MdStacks) (owner : StackOwner) : List StackRow :=
  if allIssued (m.numbers owner) then rowsFrom owner 0 (submitted cfg k owner) (m.numbers owner) else []

theorem movedRows_sublist (cfg : Config) (k : StackKernel) (m : MdStacks) (owner : StackOwner) :
    (movedRows cfg k m owner).Sublist (m.rows cfg k) := by
  rw [movedRows]
  split
  · exact rowsFrom_sublist cfg k m owner
  · exact List.nil_sublist _

/-- The other regions stay. -/
theorem Moved.frame {d : Driver} (hmoved : Moved cfg k p sp (movedRows cfg k t.mdStacks owner) t.client d) {i : Nat}
    (hi : ∀ row ∈ t.mdStacks.rows cfg k, row.regno ≠ i) :
    (registered d)[i]? = (registered t.client.driver)[i]? := by
  rw [hmoved.regions, moveRows]
  exact foldl_modify_of_ne fun row hrow => hi row ((movedRows_sublist cfg k t.mdStacks owner).subset hrow)

/-- **Moving an owner**: its rows show the new place, and the others what they did. -/
theorem Tracked.moved (h : Tracked cfg k p t last) {d : Driver}
    (hmoved : Moved cfg k p sp (movedRows cfg k t.mdStacks owner) t.client d) :
    Tracked cfg k p (t.withDriver d) (follow t.mdStacks owner sp last) := by
  refine ⟨hmoved.kept, h.keys, h.oneTask, h.sorted, ?_, ?_⟩
  · intro row hrow
    exact Nat.lt_of_lt_of_eq (h.good row hrow) hmoved.mark.symm
  intro row hrow
  have hregions := hmoved.regions
  have hold := h.shown row hrow
  show (registered d)[row.regno]? = _
  rw [follow]
  rw [movedRows] at hregions
  split at hregions
  case isTrue hall =>
    rw [if_pos hall, hregions, moveRows]
    by_cases howner : row.owner = owner
    · have hmine := mem_rows_of_owner h.keys hrow howner
      have hdistinct := (h.sorted.sublist (rowsFrom_sublist cfg k t.mdStacks owner)).imp
        Nat.ne_of_lt
      rw [foldl_modify_of_mem hdistinct hmine, hold, howner, Function.update_self]
      rfl
    · rw [Function.update_of_ne howner, foldl_modify_of_ne]
      · exact hold
      · intro other hother hregno
        have hmem := (rowsFrom_sublist cfg k t.mdStacks owner).subset hother
        exact howner (h.regno_inj hmem hrow hregno ▸ (mem_rowsFrom hother).1)
  case isFalse hsome =>
    rw [if_neg hsome, hregions]
    exact hold

/-- The rows of a stack are moved. -/
theorem Tracked.stackMoved (h : Tracked cfg k p t last) (owner : StackOwner) (howner : owner ≠ .task)
    (hmapped : StackMapped k sp) : Moved cfg k p sp (movedRows cfg k t.mdStacks owner) t.client
      (updateMdStack cfg k (submitted cfg k owner) (t.mdStacks.numbers owner) sp t.client.driver) := by
  obtain ⟨hrows, hdistinct⟩ := h.movable owner sp (by
    intro row hrow hmine
    have hne : row.owner ≠ .task := by rw [hmine]; exact howner
    rw [place_of_stack hne]
    exact hmapped _ ((place_start hrow).2 hne))
  exact updateMdStack_rows howner h.kept hrows hdistinct

/-- A stack is followed. -/
theorem Tracked.moveStack (h : Tracked cfg k p t last) (owner : StackOwner) (howner : owner ≠ .task)
    (hmapped : StackMapped k sp) :
    Tracked cfg k p
      (t.withDriver (updateMdStack cfg k (submitted cfg k owner) (t.mdStacks.numbers owner) sp t.client.driver))
      (follow t.mdStacks owner sp last) := h.moved (h.stackMoved owner howner hmapped)

/-- The row of the task is moved. -/
theorem Tracked.taskMoved (h : Tracked cfg k p t last) {current : UInt64} (hcurrent : current ≠ 0) :
    Moved cfg k p current (movedRows cfg k t.mdStacks .task) t.client
      (updateMdSuspendCurrentTask cfg k t.mdStacks current t.client.driver) := by
  obtain ⟨hrows, -⟩ := h.movable .task current (by
    intro row hrow hmine
    obtain ⟨owner, page, region, regno⟩ := row
    cases hmine
    exact hcurrent)
  obtain ⟨result, htask⟩ := List.length_eq_one_iff.mp h.oneTask
  rw [MdStacks.numbers, submitted, registerSuspendCurrentTask] at hrows
  rw [movedRows, MdStacks.numbers, submitted, updateMdSuspendCurrentTask, registerSuspendCurrentTask]
  rw [htask] at hrows ⊢
  cases result with
  | error err => exact ⟨h.kept, rfl, rfl⟩
  | ok mdno => exact (hrows _ List.mem_cons_self).move h.kept k.allocTask

/-- The task of the suspend context is followed. -/
theorem Tracked.moveTask (h : Tracked cfg k p t last) {current : UInt64} (hcurrent : current ≠ 0) :
    Tracked cfg k p
      (t.withDriver (updateMdSuspendCurrentTask cfg k t.mdStacks current t.client.driver))
      (follow t.mdStacks .task current last) := h.moved (h.taskMoved hcurrent)

/-- **The calls of the other clients** leave the rows where they are. -/
theorem Tracked.call (h : Tracked cfg k p t last) {c : Call} (hc : TrackOk cfg k t (.call c)) :
    Tracked cfg k p { t with client := t.client.step cfg c } last := by
  obtain ⟨hcall, hown⟩ := hc
  have hkept := h.kept.call hcall
  obtain ⟨⟨hroom, hrules⟩, hremove⟩ := hcall
  cases c with
  | add alloc e =>
    obtain ⟨-, hmark, hcases⟩ := h.kept.add alloc e hroom
    refine ⟨hkept, h.keys, h.oneTask, h.sorted, ?_, ?_⟩
    · intro row hrow
      exact Nat.lt_of_lt_of_eq (h.good row hrow) hmark.symm
    · intro row hrow
      have hold := h.shown row hrow
      rcases hcases with ⟨-, -, hsame⟩ | ⟨-, hnew⟩
      · rw [hsame]
        exact hold
      · rw [hnew, List.getElem?_append_left (List.getElem?_eq_some_iff.mp hold).1]
        exact hold
  | update n e =>
    obtain ⟨hissued, hok⟩ := hrules
    rcases update_cases cfg true e h.kept.numbered.smem n with
      ⟨-, hr⟩ | ⟨-, -, -, err, hr⟩ | ⟨hv, -, hgood, -, -⟩
    · rw [hr] at hok
      cases hok
    · rw [hr] at hok
      cases hok
    obtain ⟨hn, hname⟩ := h.kept.numbered.issued e.name n hissued hgood
    obtain ⟨-, hregions, hmark⟩ := h.kept.move true (registered_getElem? hn) hname hgood hv
    have hdriver : (t.client.step cfg (.update n e)).driver =
        (msmMinidumpUpdateRegion cfg true n e t.client.driver).1 := rfl
    refine ⟨hkept, h.keys, h.oneTask, h.sorted, ?_, ?_⟩
    · intro row hrow
      exact Nat.lt_of_lt_of_eq (h.good row hrow) hmark.symm
    · intro row hrow
      have hold := h.shown row hrow
      have hne : n ≠ row.regno := by
        rintro rfl
        rw [registered_getElem? hn, Option.some.injEq] at hold
        exact hown row hrow ((congrArg MdRegion.name hold).symm.trans hname)
      rw [hdriver, hregions, List.getElem?_modify_ne _ _ hne]
      exact hold
  | remove e =>
    obtain ⟨i, hi, hsame, hremovable⟩ := hremove
    have hlater : ∀ row ∈ t.mdStacks.rows cfg k, row.regno < i := by
      intro row hrow
      refine hown row hrow i ?_
      rw [List.getElem?_eq_getElem hi, Option.map_some, hsame.name]
    obtain ⟨r, hr⟩ := h.kept.registry
    have hregistered := registered_eq hr.tables
    simp only [hregistered] at hi hsame hremovable
    obtain ⟨hres, hnext⟩ := hr.remove hi hsame hremovable
    have hdriver : (t.client.step cfg (.remove e)).driver = removedRegion i (i + 1) e t.client.driver :=
      congrArg Prod.fst hres
    refine ⟨hkept, h.keys, h.oneTask, h.sorted, ?_, ?_⟩
    · intro row hrow
      have hgood := h.good row hrow
      have hlow := hlater row hrow
      rw [hdriver]
      simp only [removedRegion, shiftTables]
      split <;> omega
    · intro row hrow
      have hold := h.shown row hrow
      rw [hregistered] at hold
      rw [hdriver, registered_eq hnext.tables, Registry.remove,
        List.getElem?_eraseIdx_of_lt (hlater row hrow)]
      exact hold

/-- **One event**, of any kind. -/
theorem Tracked.step (h : Tracked cfg k p t last) (hinit : t.currentStackInit = true ∧ t.suspendInit = true)
    {event : TrackEvent} (hok : TrackOk cfg k t event) :
    Tracked cfg k p (t.step cfg k event) (noteStack k t event (t.step cfg k event) last) := by
  cases event with
  | switch cpu next =>
    simp only [Tracker.step, mdCurrentStackNotifer, updateMdCpuStack, noteStack, hinit.1, Bool.not_true,
      Bool.or_false]
    split
    · exact h
    · exact h.moveStack (.cpu cpu) (by simp) hok
  | ipi cpu current =>
    simp only [Tracker.step, mdCurrentStackIpiHandler, updateMdCpuStack, noteStack, hinit.1, Bool.not_true,
      Bool.or_false]
    split
    · exact h
    · exact h.moveStack (.cpu cpu) (by simp) hok
  | pm event current =>
    cases event with
    | other => exact h
    | suspendPrepare =>
      simp only [Tracker.step, minidumpPmNotifier, updateMdSuspendCurrents, noteStack, hinit.2,
        Bool.not_true, Bool.false_eq_true, if_false]
      exact (h.moveStack .suspend (by simp) hok.1).moveTask hok.2
  | call c => exact h.call hok

end Steps

section Runs

variable {cfg : Config} {k : StackKernel} {p : Platform}

end Runs

end SafelinuxDbg.MinidumpLog
