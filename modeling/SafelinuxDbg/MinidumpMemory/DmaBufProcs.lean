import Mathlib.Data.List.Induction
import SafelinuxDbg.MinidumpMemory.DmaBuf

/-!
# The DMA buffers of the processes

`md_dma_buf_procs` goes through the processes and the tables of open files of their threads.  The
first DMA buffer of a process prints a heading, every buffer that was not there yet prints a record,
and at the end of the process a line gives their number and their size.  `iterate_fd` calls
`get_dma_info` for each file, until that returns something else than 0.

The result of `iterate_fd` and the length of the last line of a process are kept in one variable.
`ret` is looked at behind every thread, also when `iterate_fd` was not called for it.

* `getDmaInfo_spec`, `iterateFd_spec`: what a file and a table of files print.
* `visitProcess_spec`: what a process prints, and where it stops the walk.
* `StaleStop`: a process with a buffer comes before one whose first thread is not looked at.
* `procsLaw_iff`: the dump is as it should be exactly when there are no such processes before the
  region is full.
-/

namespace SafelinuxDbg.MinidumpMemory

open CMemory

/-! ## The code -/

/-- `DMA_BUF_HASH_SIZE`. -/
def dmaBufHashSize : Nat := 2 ^ 20

/-- An open file: one of a DMA buffer, with its `private_data`, or another one. -/
inductive OpenFile
  | dmaBuf (dmabuf : Nat)
  | other
deriving DecidableEq

/-- A thread, and its `files`, which may be `NULL`. -/
structure Thread where
  pid : Nat
  files : Option Nat
deriving DecidableEq

/-- What the code uses of a `struct task_struct` that `for_each_process` comes to. -/
structure Process where
  comm : List UInt8
  tgid : Nat
  groupLeader : Thread
  threads : List Thread

/-- The region and what is to be dumped. -/
structure ProcsInput where
  /-- `md_dma_buf_procs_addr` -/
  m : Nat
  dumpSize : Nat
  processes : List Process
  /-- the open files of a `struct files_struct` -/
  openFiles : Nat → List OpenFile
  dmabuf : Nat → DmaBuf
  /-- `jhash` of the buffer, without its upper bits -/
  index : Nat → Fin dmaBufHashSize

/-- The variables of the dump.  `stopped` says that it has gone to the label `err`. -/
structure ProcsDump where
  buf : PrivBuf
  dmaBufHash : Fin dmaBufHashSize → Bool
  count : Nat
  size : UInt64
  ret : Int
  stopped : Bool

def ProcsDump.print (d : ProcsDump) (text : List UInt8) : ProcsDump :=
  { d with buf := (d.buf.print text).1 }

/-- `"\n%s (PID %d)\nDMA Buffers:\n"`. -/
def Process.heading (task : Process) : List UInt8 :=
  asciiBytes ['\n'] ++ task.comm ++ asciiBytes " (PID ".toList ++ decimal task.tgid ++
    asciiBytes ")\nDMA Buffers:\n".toList

/-- The part of `get_dma_info` for a buffer whose index is not set. -/
def addDmaBuf (i : ProcsInput) (dmabuf : Nat) (d : ProcsDump) : ProcsDump × Int :=
  let d := { d with
    dmaBufHash := Function.update d.dmaBufHash (i.index dmabuf) true, count := d.count + 1 }
  let d := d.print columnsText
  if d.buf.full then (d, -22)
  else
    let d := d.print (dmaBufText (i.dmabuf dmabuf))
    if d.buf.full then (d, -22)
    else ({ d with size := d.size + (i.dmabuf dmabuf).size }, 0)

/-- `get_dma_info`, with what it returns. -/
def getDmaInfo (i : ProcsInput) (task : Process) (file : OpenFile) (d : ProcsDump) :
    ProcsDump × Int :=
  match file with
  | .other => (d, 0)
  | .dmaBuf dmabuf =>
    let d := if d.count = 0 then d.print task.heading else d
    if d.count = 0 ∧ d.buf.full then (d, -22)
    else if d.dmaBufHash (i.index dmabuf) then (d, 0)
    else addDmaBuf i dmabuf d

/-- `iterate_fd`. -/
def iterateFd (f : OpenFile → ProcsDump → ProcsDump × Int) :
    List OpenFile → ProcsDump → ProcsDump × Int
  | [], d => (d, 0)
  | file :: files, d =>
    let r := f file d
    if r.2 ≠ 0 then r else iterateFd f files r.1

/-- The table of files that is looked at for a thread: its own, unless that is `NULL`, or unless the
thread shares it with the leader of its group and is another thread. -/
def Process.inspected (task : Process) (thread : Thread) : Option Nat :=
  thread.files.filter fun files => task.groupLeader.files ≠ some files ∨ thread = task.groupLeader

/-- The body of `for_each_thread`. -/
def visitThread (i : ProcsInput) (task : Process) (d : ProcsDump) (thread : Thread) : ProcsDump :=
  if d.stopped then d
  else
    let d := match task.inspected thread with
      | some files =>
        let r := iterateFd (getDmaInfo i task) (i.openFiles files) d
        { r.1 with ret := r.2 }
      | none => d
    { d with stopped := decide (d.ret ≠ 0) }

/-- The end of the body of `for_each_process`, when there was a buffer. -/
def ProcsDump.total (d : ProcsDump) : ProcsDump :=
  let r := d.buf.print (totalText d.count d.size)
  let d := { d with buf := r.1, ret := r.2 }
  if d.buf.full then { d with stopped := true }
  else { d with count := 0, size := 0, dmaBufHash := fun _ => false }

/-- The body of `for_each_process`. -/
def visitProcess (i : ProcsInput) (d : ProcsDump) (task : Process) : ProcsDump :=
  if d.stopped then d
  else
    let d := task.threads.foldl (visitThread i task) d
    if d.stopped ∨ d.count = 0 then d else d.total

/-- `md_dma_buf_procs`. -/
def mdDmaBufProcs (i : ProcsInput) (mem : Nat → UInt8) : ProcsDump :=
  i.processes.foldl (visitProcess i) ⟨⟨i.m, i.dumpSize, 0, mem⟩, fun _ => false, 0, 0, 0, false⟩

/-! ## What the dump should be -/

def OpenFile.buffer : OpenFile → Option Nat
  | .dmaBuf dmabuf => some dmabuf
  | .other => none

/-- The buffers of a table of files. -/
def buffersOf (files : List OpenFile) : List Nat := files.filterMap OpenFile.buffer

/-- The buffers of the table that is looked at for a thread. -/
def ProcsInput.threadBuffers (i : ProcsInput) (task : Process) (thread : Thread) : List Nat :=
  match task.inspected thread with
  | some files => buffersOf (i.openFiles files)
  | none => []

/-- The buffers of the tables that are looked at for a process. -/
def ProcsInput.buffers (i : ProcsInput) (task : Process) : List Nat :=
  task.threads.flatMap (i.threadBuffers task)

/-- The heading and the records for the buffers `bs`, each of them once. -/
def ProcsInput.openText (i : ProcsInput) (task : Process) (bs : List Nat) : List UInt8 :=
  if bs = [] then []
  else task.heading ++ bs.eraseDups.flatMap fun b => columnsText ++ dmaBufText (i.dmabuf b)

/-- The number of bytes of the buffers `bs`, each of them once, as a `size_t`. -/
def ProcsInput.sizeSum (i : ProcsInput) (bs : List Nat) : UInt64 :=
  bs.eraseDups.foldl (fun size b => size + (i.dmabuf b).size) 0

/-- The text for a process with buffers: its heading, its records and its last line. -/
def ProcsInput.processText (i : ProcsInput) (task : Process) : List UInt8 :=
  i.openText task (i.buffers task) ++
    if i.buffers task = [] then []
    else totalText (i.buffers task).eraseDups.length (i.sizeSum (i.buffers task))

/-- The text for several processes. -/
def ProcsInput.procsText (i : ProcsInput) (tasks : List Process) : List UInt8 :=
  tasks.flatMap i.processText

/-- Different buffers of a process have different indices. -/
def ProcsInput.DistinctIndices (i : ProcsInput) : Prop :=
  ∀ task ∈ i.processes, ∀ b ∈ i.buffers task, ∀ c ∈ i.buffers task, i.index b = i.index c → b = c

/-- The region holds the text for all processes, up to its end, and the walk stops early only when
the region is full. -/
structure ProcsLaw (i : ProcsInput) (d : ProcsDump) : Prop where
  holds : d.buf.Holds i.m i.dumpSize (i.procsText i.processes)
  stops : d.stopped = true → d.buf.offset + 1 = i.dumpSize

/-! ## A process -/

section Process

variable {i : ProcsInput} {task : Process} {T : List UInt8} {seen : List Nat} {b : Nat}
  {d : ProcsDump}

theorem eraseDups_snoc_old (h : b ∈ seen) : (seen ++ [b]).eraseDups = seen.eraseDups := by
  have hnone : [b].removeAll seen = [] := by simp [List.removeAll, h]
  rw [List.eraseDups_append, hnone, List.eraseDups_nil, List.append_nil]

theorem eraseDups_snoc_new (h : b ∉ seen) : (seen ++ [b]).eraseDups = seen.eraseDups ++ [b] := by
  have hone : [b].removeAll seen = [b] := by simp [List.removeAll, h]
  rw [List.eraseDups_append, hone]
  rfl

theorem openText_snoc_old (h : b ∈ seen) : i.openText task (seen ++ [b]) = i.openText task seen := by
  have hne : seen ≠ [] := List.ne_nil_of_mem h
  rw [ProcsInput.openText, ProcsInput.openText, if_neg (by simp), if_neg hne, eraseDups_snoc_old h]

/-- A new buffer prints its record, and before that the heading when it is the first. -/
theorem openText_snoc_new (h : b ∉ seen) :
    i.openText task (seen ++ [b]) =
      (if seen = [] then task.heading else i.openText task seen) ++
        (columnsText ++ dmaBufText (i.dmabuf b)) := by
  rw [ProcsInput.openText, if_neg (by simp), eraseDups_snoc_new h, List.flatMap_append,
    List.flatMap_singleton]
  by_cases hnil : seen = []
  · rw [if_pos hnil, hnil, List.eraseDups_nil, List.flatMap_nil, List.nil_append]
  · rw [if_neg hnil, ProcsInput.openText, if_neg hnil, List.append_assoc]

/-- More buffers only print more. -/
theorem openText_append (i : ProcsInput) (task : Process) (seen more : List Nat) :
    ∃ rest, i.openText task (seen ++ more) = i.openText task seen ++ rest := by
  by_cases hnil : seen = []
  · subst hnil
    exact ⟨_, rfl⟩
  · have hne : seen ++ more ≠ [] := by simp [hnil]
    rw [ProcsInput.openText, if_neg hne, ProcsInput.openText, if_neg hnil, List.eraseDups_append,
      List.flatMap_append, ← List.append_assoc]
    exact ⟨_, rfl⟩

theorem sizeSum_snoc_new (h : b ∉ seen) :
    i.sizeSum (seen ++ [b]) = i.sizeSum seen + (i.dmabuf b).size := by
  rw [ProcsInput.sizeSum, eraseDups_snoc_new h, List.foldl_append, List.foldl_cons, List.foldl_nil,
    ProcsInput.sizeSum]

/-- In a process, after the buffers `seen`.  `T` is the text before the process.  A region of one byte
is full before anything was printed. -/
structure Within (i : ProcsInput) (task : Process) (T : List UInt8) (seen : List Nat)
    (d : ProcsDump) : Prop where
  holds : d.buf.Holds i.m i.dumpSize (T ++ i.openText task seen)
  room : d.buf.full = true → T ++ i.openText task seen = []
  hash : ∀ x, d.dmaBufHash x = true ↔ ∃ b ∈ seen, i.index b = x
  count : d.count = seen.eraseDups.length
  size : d.size = i.sizeSum seen

/-- The region is full, with the text `T`. -/
structure Exhausted (i : ProcsInput) (T : List UInt8) (d : ProcsDump) : Prop where
  holds : d.buf.Holds i.m i.dumpSize T
  full : d.buf.full = true

theorem Exhausted.append (h : Exhausted i T d) (more : List UInt8) : Exhausted i (T ++ more) d :=
  ⟨h.holds.append_of_full h.full more, h.full⟩

/-- What a call has done after which the buffers `seen` have been there. -/
def Visited (i : ProcsInput) (task : Process) (T : List UInt8) (seen : List Nat)
    (r : ProcsDump × Int) : Prop :=
  (r.2 = 0 ∧ Within i task T seen r.1) ∨
    (r.2 ≠ 0 ∧ Exhausted i (T ++ i.openText task seen) r.1)

theorem Within.count_eq_zero (h : Within i task T seen d) : d.count = 0 ↔ seen = [] := by
  rw [h.count, List.length_eq_zero_iff]
  constructor
  · intro hnil
    by_contra hne
    obtain ⟨b, hb⟩ := List.exists_mem_of_ne_nil seen hne
    have := List.mem_eraseDups.mpr hb
    rw [hnil] at this
    cases this
  · rintro rfl
    rfl

theorem Within.again (h : Within i task T seen d) (hold : b ∈ seen) :
    Within i task T (seen ++ [b]) d where
  holds := by
    rw [openText_snoc_old hold]
    exact h.holds
  room := by
    rw [openText_snoc_old hold]
    exact h.room
  hash := by
    intro x
    rw [h.hash]
    constructor
    · rintro ⟨c, hc, hcx⟩
      exact ⟨c, List.mem_append_left _ hc, hcx⟩
    · rintro ⟨c, hc, hcx⟩
      rcases List.mem_append.mp hc with hc | hc
      · exact ⟨c, hc, hcx⟩
      · exact ⟨b, hold, by rw [← List.mem_singleton.mp hc]; exact hcx⟩
  count := by rw [eraseDups_snoc_old hold, h.count]
  size := by rw [ProcsInput.sizeSum, eraseDups_snoc_old hold, h.size, ProcsInput.sizeSum]

/-- The first buffer of a process prints the heading. -/
theorem getDmaInfo_first (i : ProcsInput) (task : Process) (hcount : d.count = 0)
    (hunset : d.dmaBufHash (i.index b) = false) :
    getDmaInfo i task (.dmaBuf b) d =
      if (d.print task.heading).buf.full then (d.print task.heading, -22)
      else addDmaBuf i b (d.print task.heading) := by
  simp only [getDmaInfo, if_pos hcount]
  simp [ProcsDump.print, hcount, hunset]

theorem getDmaInfo_next (i : ProcsInput) (task : Process) (hcount : d.count ≠ 0) :
    getDmaInfo i task (.dmaBuf b) d =
      if d.dmaBufHash (i.index b) then (d, 0) else addDmaBuf i b d := by
  simp [getDmaInfo, hcount]

/-- A thread, when the walk goes on. -/
theorem visitThread_of_goes (h : d.stopped = false) (i : ProcsInput) (task : Process)
    (thread : Thread) :
    visitThread i task d thread =
      let d := match task.inspected thread with
        | some files =>
          let r := iterateFd (getDmaInfo i task) (i.openFiles files) d
          { r.1 with ret := r.2 }
        | none => d
      { d with stopped := decide (d.ret ≠ 0) } := by
  rw [visitThread, h, if_neg Bool.false_ne_true]

/-- A process, when the walk goes on. -/
theorem visitProcess_of_goes (h : d.stopped = false) (i : ProcsInput) (task : Process) :
    visitProcess i d task =
      let d := task.threads.foldl (visitThread i task) d
      if d.stopped ∨ d.count = 0 then d else d.total := by
  rw [visitProcess, h, if_neg Bool.false_ne_true]

variable (hs : i.dumpSize < 2 ^ 31) (hpos : 0 < i.dumpSize)

include hs hpos

theorem addDmaBuf_spec (h : d.buf.Holds i.m i.dumpSize T) {r : ProcsDump × Int}
    (hr : addDmaBuf i b d = r) :
    (r.2 = 0 ∧ r.1.buf.Holds i.m i.dumpSize (T ++ (columnsText ++ dmaBufText (i.dmabuf b))) ∧
        r.1.buf.full = false ∧ r.1.dmaBufHash = Function.update d.dmaBufHash (i.index b) true ∧
        r.1.count = d.count + 1 ∧ r.1.size = d.size + (i.dmabuf b).size) ∨
      (r.2 ≠ 0 ∧ Exhausted i (T ++ (columnsText ++ dmaBufText (i.dmabuf b))) r.1) := by
  have hcolumns := h.print hs hpos columnsText
  have hrecord := hcolumns.print hs hpos (dmaBufText (i.dmabuf b))
  rw [List.append_assoc] at hrecord
  unfold addDmaBuf at hr
  dsimp only [ProcsDump.print] at hr
  split at hr
  case isTrue hfull =>
    subst hr
    refine .inr ⟨show (-22 : Int) ≠ 0 by decide, ?_⟩
    rw [← List.append_assoc]
    exact Exhausted.append ⟨hcolumns, hfull⟩ _
  case isFalse =>
    split at hr
    case isTrue hfull =>
      subst hr
      exact .inr ⟨show (-22 : Int) ≠ 0 by decide, hrecord, hfull⟩
    case isFalse hroom =>
      subst hr
      exact .inl ⟨rfl, hrecord, by simpa using hroom, rfl, rfl, rfl⟩

/-- A buffer that is new in the process.  `d` has the heading already. -/
theorem Within.add {d' : ProcsDump} (h : Within i task T seen d) (hnew : b ∉ seen)
    (hholds : d'.buf.Holds i.m i.dumpSize
      (T ++ if seen = [] then task.heading else i.openText task seen))
    (hhash : d'.dmaBufHash = d.dmaBufHash) (hcount : d'.count = d.count) (hsize : d'.size = d.size) :
    Visited i task T (seen ++ [b]) (addDmaBuf i b d') := by
  have hspec := addDmaBuf_spec hs hpos (b := b) hholds rfl
  rw [List.append_assoc, ← openText_snoc_new hnew] at hspec
  rcases hspec with ⟨hret, hholds', hroom, hhash', hcount', hsize'⟩ | hfull
  · refine .inl ⟨hret, hholds', fun hfull => ?_, ?_, ?_, ?_⟩
    · rw [hroom] at hfull
      cases hfull
    · intro x
      rw [hhash', hhash, Function.update_apply]
      by_cases hx : x = i.index b
      · rw [if_pos hx, hx]
        exact iff_of_true rfl ⟨b, by simp, rfl⟩
      · rw [if_neg hx, h.hash]
        constructor
        · rintro ⟨c, hc, hcx⟩
          exact ⟨c, List.mem_append_left _ hc, hcx⟩
        · rintro ⟨c, hc, hcx⟩
          rcases List.mem_append.mp hc with hc | hc
          · exact ⟨c, hc, hcx⟩
          · rw [List.mem_singleton.mp hc] at hcx
            exact absurd hcx.symm hx
    · rw [hcount', hcount, h.count, eraseDups_snoc_new hnew, List.length_append]
      rfl
    · rw [hsize', hsize, h.size, sizeSum_snoc_new hnew]
  · exact .inr hfull

/-- **What a file prints.** -/
theorem getDmaInfo_spec (h : Within i task T seen d) (file : OpenFile)
    (hinj : ∀ b ∈ file.buffer, ∀ c ∈ seen, i.index c = i.index b → c = b) :
    Visited i task T (seen ++ file.buffer.toList) (getDmaInfo i task file d) := by
  cases file with
  | other =>
    rw [OpenFile.buffer, Option.toList_none, List.append_nil]
    exact .inl ⟨rfl, h⟩
  | dmaBuf b =>
    have hinj := hinj b rfl
    rw [OpenFile.buffer, Option.toList_some]
    by_cases hnil : seen = []
    · -- the first buffer of the process, in which no index is set yet
      have hnew : b ∉ seen := by
        rw [hnil]
        exact List.not_mem_nil
      have hunset : d.dmaBufHash (i.index b) = false := by
        rw [← Bool.not_eq_true, h.hash, hnil]
        rintro ⟨c, hc, -⟩
        cases hc
      have hheading : (d.print task.heading).buf.Holds i.m i.dumpSize (T ++ task.heading) := by
        have hprint := h.holds.print hs hpos task.heading
        rw [ProcsInput.openText, if_pos hnil, List.append_nil] at hprint
        exact hprint
      rw [getDmaInfo_first i task (h.count_eq_zero.mpr hnil) hunset]
      split
      case isTrue hfull =>
        refine .inr ⟨show (-22 : Int) ≠ 0 by decide, ?_⟩
        rw [openText_snoc_new hnew, if_pos hnil, ← List.append_assoc]
        exact Exhausted.append ⟨hheading, hfull⟩ _
      case isFalse =>
        refine h.add hs hpos hnew ?_ rfl rfl rfl
        rw [if_pos hnil]
        exact hheading
    · rw [getDmaInfo_next i task (fun hcount => hnil (h.count_eq_zero.mp hcount))]
      by_cases hold : b ∈ seen
      · rw [if_pos ((h.hash _).mpr ⟨b, hold, rfl⟩)]
        exact .inl ⟨rfl, h.again hold⟩
      · have hunset : ¬ d.dmaBufHash (i.index b) = true := by
          rw [h.hash]
          rintro ⟨c, hc, hcb⟩
          exact hold (hinj c hc hcb ▸ hc)
        rw [if_neg hunset]
        refine h.add hs hpos hold ?_ rfl rfl rfl
        rw [if_neg hnil]
        exact h.holds

/-- What a table of files prints. -/
theorem iterateFd_spec (files : List OpenFile) : ∀ {seen : List Nat} {d : ProcsDump},
    Within i task T seen d →
      (∀ b ∈ seen ++ buffersOf files, ∀ c ∈ seen ++ buffersOf files, i.index b = i.index c → b = c) →
      Visited i task T (seen ++ buffersOf files) (iterateFd (getDmaInfo i task) files d) := by
  induction files with
  | nil =>
    intro seen d h _
    rw [buffersOf, List.filterMap_nil, List.append_nil]
    exact .inl ⟨rfl, h⟩
  | cons file files ih =>
    intro seen d h hinj
    have hbuffers : buffersOf (file :: files) = file.buffer.toList ++ buffersOf files := by
      cases file with
      | dmaBuf b => rfl
      | other => rfl
    rw [hbuffers, ← List.append_assoc] at hinj ⊢
    have hfile := getDmaInfo_spec hs hpos h file (by
      intro b hb c hc
      exact hinj c (List.mem_append_left _ (List.mem_append_left _ hc)) b
        (List.mem_append_left _ (List.mem_append_right _ (Option.mem_toList.mpr hb))))
    rw [iterateFd]
    rcases hfile with ⟨hret, hwithin⟩ | ⟨hret, hfull⟩
    · rw [if_neg (not_not_intro hret)]
      exact ih hwithin hinj
    · rw [if_pos hret]
      obtain ⟨rest, hrest⟩ := openText_append i task (seen ++ file.buffer.toList) (buffersOf files)
      refine .inr ⟨hret, ?_⟩
      rw [hrest, ← List.append_assoc]
      exact hfull.append rest

/-- In a process, between two threads. -/
def Progress (i : ProcsInput) (task : Process) (T : List UInt8) (seen : List Nat) (d : ProcsDump) :
    Prop :=
  (d.stopped = false ∧ d.ret = 0 ∧ Within i task T seen d) ∨
    (d.stopped = true ∧ Exhausted i (T ++ i.openText task seen) d)

omit hs hpos in
theorem Within.congr {d' : ProcsDump} (h : Within i task T seen d) (hbuf : d'.buf = d.buf)
    (hhash : d'.dmaBufHash = d.dmaBufHash) (hcount : d'.count = d.count) (hsize : d'.size = d.size) :
    Within i task T seen d' where
  holds := hbuf ▸ h.holds
  room := hbuf ▸ h.room
  hash := hhash ▸ h.hash
  count := hcount ▸ h.count
  size := hsize ▸ h.size

/-- A thread.  When its table is not looked at, `ret` has to be 0 from before. -/
theorem visitThread_spec (h : Within i task T seen d) (hgoes : d.stopped = false) (thread : Thread)
    (hret : d.ret = 0 ∨ (task.inspected thread).isSome)
    (hinj : ∀ b ∈ seen ++ i.threadBuffers task thread, ∀ c ∈ seen ++ i.threadBuffers task thread,
      i.index b = i.index c → b = c) :
    Progress i task T (seen ++ i.threadBuffers task thread) (visitThread i task d thread) := by
  rw [visitThread_of_goes hgoes]
  rw [ProcsInput.threadBuffers] at hinj ⊢
  cases hfiles : task.inspected thread with
  | none =>
    have hzero : d.ret = 0 := by
      rw [hfiles] at hret
      exact hret.resolve_right Bool.false_ne_true
    rw [List.append_nil]
    exact .inl ⟨by simp [hzero], hzero, h.congr rfl rfl rfl rfl⟩
  | some files =>
    rw [hfiles] at hinj
    rcases iterateFd_spec hs hpos (i.openFiles files) h hinj with ⟨hzero, hwithin⟩ | ⟨hne, hfull⟩
    · exact .inl ⟨by simp [hzero], hzero, hwithin.congr rfl rfl rfl rfl⟩
    · exact .inr ⟨by simp [hne], hfull.holds, hfull.full⟩

omit hs hpos in
theorem visitThreads_stopped (h : d.stopped = true) (threads : List Thread) :
    threads.foldl (visitThread i task) d = d := by
  induction threads with
  | nil => rfl
  | cons thread threads ih => rw [List.foldl_cons, visitThread, if_pos h, ih]

theorem visitThreads_spec (threads : List Thread) : ∀ {seen : List Nat} {d : ProcsDump},
    Progress i task T seen d →
      (∀ b ∈ seen ++ threads.flatMap (i.threadBuffers task),
        ∀ c ∈ seen ++ threads.flatMap (i.threadBuffers task), i.index b = i.index c → b = c) →
      Progress i task T (seen ++ threads.flatMap (i.threadBuffers task))
        (threads.foldl (visitThread i task) d) := by
  induction threads with
  | nil =>
    intro seen d h _
    rw [List.flatMap_nil, List.append_nil]
    exact h
  | cons thread threads ih =>
    intro seen d h hinj
    rw [List.flatMap_cons, ← List.append_assoc] at hinj ⊢
    rcases h with ⟨hgoes, hret, hwithin⟩ | ⟨hstopped, hfull⟩
    · have hthread := visitThread_spec hs hpos hwithin hgoes thread (.inl hret)
        fun b hb c hc => hinj b (List.mem_append_left _ hb) c (List.mem_append_left _ hc)
      exact ih hthread hinj
    · rw [visitThreads_stopped hstopped]
      obtain ⟨rest, hrest⟩ := openText_append i task seen
        (i.threadBuffers task thread ++ threads.flatMap (i.threadBuffers task))
      refine .inr ⟨hstopped, ?_⟩
      rw [List.append_assoc, hrest, ← List.append_assoc]
      exact hfull.append rest

end Process

/-! ## The walk over the processes -/

/-- Between two processes.  `T` is the text so far. -/
structure Between (i : ProcsInput) (T : List UInt8) (d : ProcsDump) : Prop where
  holds : d.buf.Holds i.m i.dumpSize T
  room : d.buf.full = true → T = []
  hash : ∀ x, d.dmaBufHash x = false
  count : d.count = 0
  size : d.size = 0
  goes : d.stopped = false

section Walk

variable {i : ProcsInput} {task : Process} {T : List UInt8} {d : ProcsDump}

theorem Between.within (h : Between i T d) (task : Process) : Within i task T [] d where
  holds := by
    rw [ProcsInput.openText, if_pos rfl, List.append_nil]
    exact h.holds
  room := by
    rw [ProcsInput.openText, if_pos rfl, List.append_nil]
    exact h.room
  hash := by
    intro x
    rw [h.hash]
    simp
  count := h.count
  size := h.size

theorem visitProcess_stopped (h : d.stopped = true) (task : Process) :
    visitProcess i d task = d := if_pos h

/-- A process without threads. -/
theorem visitProcess_empty (h : Between i T d) (hnil : task.threads = []) :
    visitProcess i d task = d := by
  rw [visitProcess_of_goes h.goes, hnil, List.foldl_nil,
    if_pos (.inr h.count)]

/-- The length of the last line of the process before is taken for an error. -/
theorem visitProcess_stale (h : Between i T d) (hret : d.ret ≠ 0) {thread : Thread}
    {threads : List Thread} (hthreads : task.threads = thread :: threads)
    (hskipped : task.inspected thread = none) :
    visitProcess i d task = { d with stopped := true } := by
  have hfirst : visitThread i task d thread = { d with stopped := true } := by
    rw [visitThread_of_goes h.goes, hskipped]
    simp [hret]
  rw [visitProcess_of_goes h.goes, hthreads, List.foldl_cons,
    hfirst, visitThreads_stopped rfl, if_pos (.inl rfl)]

theorem length_totalText_pos (count : Nat) (size : UInt64) : 0 < (totalText count size).length := by
  rw [totalText, asciiBytes, List.length_append, List.length_append, List.length_append,
    List.length_append, List.length_map]
  have hword : 0 < "\nTotal ".toList.length := by decide
  omega

variable (hs : i.dumpSize < 2 ^ 31) (hpos : 0 < i.dumpSize)

include hs hpos

/-- The threads of a process, when it does not stop at the first one. -/
theorem visitProcess_threads (h : Between i T d)
    (hret : d.ret = 0 ∨ ∃ thread ∈ task.threads.head?, (task.inspected thread).isSome)
    (hinj : ∀ b ∈ i.buffers task, ∀ c ∈ i.buffers task, i.index b = i.index c → b = c) :
    Progress i task T (i.buffers task) (task.threads.foldl (visitThread i task) d) := by
  rw [ProcsInput.buffers] at hinj ⊢
  cases hthreads : task.threads with
  | nil =>
    have hzero : d.ret = 0 := by
      rcases hret with hzero | ⟨thread, hthread, -⟩
      · exact hzero
      · rw [hthreads] at hthread
        cases hthread
    exact .inl ⟨h.goes, hzero, h.within task⟩
  | cons thread threads =>
    have hfirst : d.ret = 0 ∨ (task.inspected thread).isSome := by
      rcases hret with hzero | ⟨thread', hthread, hsome⟩
      · exact .inl hzero
      · rw [hthreads, List.head?_cons] at hthread
        cases hthread
        exact .inr hsome
    rw [hthreads, List.flatMap_cons] at hinj
    have hthread := visitThread_spec hs hpos (h.within task) h.goes thread hfirst
      fun b hb c hc => hinj b (List.mem_append_left _ hb) c (List.mem_append_left _ hc)
    exact visitThreads_spec hs hpos threads hthread hinj

/-- The last line of a process. -/
theorem total_spec (h : Within i task T (i.buffers task) d) (hgoes : d.stopped = false)
    (hne : i.buffers task ≠ []) :
    (Between i (T ++ i.processText task) d.total ∧ d.total.ret ≠ 0) ∨
      (d.total.stopped = true ∧ Exhausted i (T ++ i.processText task) d.total) := by
  have hprint := h.holds.print hs hpos (totalText d.count d.size)
  rw [List.append_assoc, h.count, h.size] at hprint
  have htext : i.openText task (i.buffers task) ++
      totalText (i.buffers task).eraseDups.length (i.sizeSum (i.buffers task)) =
        i.processText task := by
    rw [ProcsInput.processText, if_neg hne]
  rw [htext] at hprint
  rw [ProcsDump.total, h.count, h.size]
  dsimp only
  split
  case isTrue hfull => exact .inr ⟨rfl, hprint, hfull⟩
  case isFalse hroom =>
    have hroom : (d.buf.print (totalText (i.buffers task).eraseDups.length
        (i.sizeSum (i.buffers task)))).1.full = false := by simpa using hroom
    refine .inl ⟨⟨hprint, fun hfull => ?_, fun _ => rfl, rfl, rfl, hgoes⟩, ?_⟩
    · rw [hroom] at hfull
      cases hfull
    have hlength := h.holds.print_length hs hpos hroom
    have hlong := length_totalText_pos (i.buffers task).eraseDups.length
      (i.sizeSum (i.buffers task))
    dsimp only
    omega

/-- **What a process prints**, when it does not stop at its first thread. -/
theorem visitProcess_spec (h : Between i T d)
    (hret : d.ret = 0 ∨ ∃ thread ∈ task.threads.head?, (task.inspected thread).isSome)
    (hinj : ∀ b ∈ i.buffers task, ∀ c ∈ i.buffers task, i.index b = i.index c → b = c) :
    (Between i (T ++ i.processText task) (visitProcess i d task) ∧
        ((visitProcess i d task).ret ≠ 0 ↔ i.buffers task ≠ [])) ∨
      ((visitProcess i d task).stopped = true ∧
        Exhausted i (T ++ i.processText task) (visitProcess i d task)) := by
  rw [visitProcess_of_goes h.goes]
  dsimp only
  rcases visitProcess_threads hs hpos h hret hinj with ⟨hgoes, hzero, hwithin⟩ | ⟨hstopped, hfull⟩
  · by_cases hnil : i.buffers task = []
    · have htext : i.processText task = [] := by
        rw [ProcsInput.processText, ProcsInput.openText, if_pos hnil, if_pos hnil, List.append_nil]
      have hcount := hwithin.count_eq_zero.mpr hnil
      have hholds := hwithin.holds
      have hroom := hwithin.room
      rw [ProcsInput.openText, if_pos hnil, List.append_nil] at hholds hroom
      rw [if_pos (.inr hcount), htext, List.append_nil]
      refine .inl ⟨⟨hholds, hroom, ?_, hcount, ?_, hgoes⟩, iff_of_false (not_not_intro hzero)
        (not_not_intro hnil)⟩
      · intro x
        rw [← Bool.not_eq_true, hwithin.hash, hnil]
        rintro ⟨b, hb, -⟩
        cases hb
      · rw [hwithin.size, hnil]
        rfl
    · have hcount := fun hcount => hnil (hwithin.count_eq_zero.mp hcount)
      rw [if_neg (by rw [hgoes]; simpa using hcount)]
      rcases total_spec hs hpos hwithin hgoes hnil with ⟨hbetween, hne⟩ | hfull
      · exact .inl ⟨hbetween, iff_of_true hne hnil⟩
      · exact .inr hfull
  · rw [if_pos (.inl hstopped)]
    refine .inr ⟨hstopped, ?_⟩
    rw [ProcsInput.processText, ← List.append_assoc]
    exact hfull.append _

end Walk

/-! ## Processes that stop the walk -/

/-- The first thread of the process is one for which no table is looked at. -/
def Process.StartsSkipped (task : Process) : Prop :=
  ∃ thread ∈ task.threads.head?, task.inspected thread = none

/-- The processes that have a thread. -/
def withThreads (tasks : List Process) : List Process :=
  tasks.filter fun task => !task.threads.isEmpty

theorem mem_of_mem_withThreads {tasks : List Process} {task : Process}
    (h : task ∈ withThreads tasks) : task ∈ tasks := List.mem_of_mem_filter h

/-- A process `P` with a buffer, whose text ends before the region does, and next to it a process `Q`
that begins with a thread for which no table is looked at. -/
def StaleStop (i : ProcsInput) (tasks : List Process) : Prop :=
  ∃ before P Q after, withThreads tasks = before ++ P :: Q :: after ∧ i.buffers P ≠ [] ∧
    Q.StartsSkipped ∧ (i.procsText (before ++ [P])).length + 1 < i.dumpSize

section Stale

variable {i : ProcsInput} {task : Process} {tasks : List Process}

theorem procsText_snoc (i : ProcsInput) (tasks : List Process) (task : Process) :
    i.procsText (tasks ++ [task]) = i.procsText tasks ++ i.processText task := by
  rw [ProcsInput.procsText, List.flatMap_append, List.flatMap_singleton, ProcsInput.procsText]

theorem processText_of_no_buffers (h : i.buffers task = []) : i.processText task = [] := by
  rw [ProcsInput.processText, ProcsInput.openText, if_pos h, if_pos h, List.append_nil]

theorem buffers_of_no_threads (h : task.threads = []) : i.buffers task = [] := by
  rw [ProcsInput.buffers, h, List.flatMap_nil]

theorem withThreads_snoc_empty (h : task.threads = []) :
    withThreads (tasks ++ [task]) = withThreads tasks := by
  simp [withThreads, h]

theorem withThreads_snoc (h : task.threads ≠ []) :
    withThreads (tasks ++ [task]) = withThreads tasks ++ [task] := by
  simp [withThreads, h]

theorem procsText_withThreads (i : ProcsInput) (tasks : List Process) :
    i.procsText (withThreads tasks) = i.procsText tasks := by
  induction tasks using List.reverseRecOn with
  | nil => rfl
  | append_singleton tasks task ih =>
    by_cases h : task.threads = []
    · rw [withThreads_snoc_empty h, procsText_snoc, ih,
        processText_of_no_buffers (buffers_of_no_threads h), List.append_nil]
    · rw [withThreads_snoc h, procsText_snoc, procsText_snoc, ih]

theorem heading_length_pos (task : Process) : 0 < task.heading.length := by
  rw [Process.heading, List.append_assoc, List.append_assoc, List.append_assoc, List.length_append,
    asciiBytes, List.length_map, List.length_singleton]
  omega

/-- There is nothing to print exactly when no process has a buffer. -/
theorem procsText_eq_nil_iff (i : ProcsInput) (tasks : List Process) :
    i.procsText tasks = [] ↔ ∀ task ∈ tasks, i.buffers task = [] := by
  rw [ProcsInput.procsText, List.flatMap_eq_nil_iff]
  refine forall₂_congr fun task _ => ⟨?_, processText_of_no_buffers⟩
  intro htext
  by_contra hne
  rw [ProcsInput.processText, ProcsInput.openText, if_neg hne] at htext
  have hlength := congrArg List.length htext
  rw [List.length_append, List.length_append, List.length_nil] at hlength
  have := heading_length_pos task
  omega

/-- The last process that has a thread has a buffer. -/
def LastHasBuffer (i : ProcsInput) (tasks : List Process) : Prop :=
  ∃ before P, withThreads tasks = before ++ [P] ∧ i.buffers P ≠ []

/-- Where a process at the end comes in. -/
theorem staleStop_snoc (i : ProcsInput) (tasks : List Process) (task : Process) :
    StaleStop i (tasks ++ [task]) ↔ StaleStop i tasks ∨
      (task.StartsSkipped ∧ LastHasBuffer i tasks ∧ (i.procsText tasks).length + 1 < i.dumpSize) := by
  by_cases hthreads : task.threads = []
  · have hnot : ¬ task.StartsSkipped := by
      rintro ⟨thread, hthread, -⟩
      rw [hthreads] at hthread
      cases hthread
    rw [StaleStop, withThreads_snoc_empty hthreads]
    simp only [hnot, false_and, or_false]
    rfl
  · rw [StaleStop, withThreads_snoc hthreads]
    constructor
    · rintro ⟨before, P, Q, after, hlist, hP, hQ, hlt⟩
      rcases List.eq_nil_or_concat after with rfl | ⟨after, R, rfl⟩
      · -- the process at the end is `Q`
        have hsplit : withThreads tasks ++ [task] = (before ++ [P]) ++ [Q] := by
          rw [hlist, List.append_assoc]
          rfl
        obtain ⟨htasks, hlast⟩ := List.append_inj' hsplit rfl
        cases hlast
        rw [← htasks, procsText_withThreads] at hlt
        exact .inr ⟨hQ, ⟨before, P, htasks, hP⟩, hlt⟩
      · have hsplit : withThreads tasks ++ [task] = (before ++ P :: Q :: after) ++ [R] := by
          rw [hlist, List.append_assoc, List.concat_eq_append]
          rfl
        exact .inl ⟨before, P, Q, after, (List.append_inj' hsplit rfl).1, hP, hQ, hlt⟩
    · rintro (⟨before, P, Q, after, hlist, hP, hQ, hlt⟩ | ⟨hQ, ⟨before, P, hlist, hP⟩, hlt⟩)
      · exact ⟨before, P, Q, after ++ [task], by rw [hlist, List.append_assoc]; rfl, hP, hQ, hlt⟩
      · refine ⟨before, P, task, [], by rw [hlist, List.append_assoc]; rfl, hP, hQ, ?_⟩
        rw [← hlist, procsText_withThreads]
        exact hlt

end Stale

/-- Where the walk is after `tasks`, when none of them has stopped it. -/
def WalkState (i : ProcsInput) (tasks : List Process) (d : ProcsDump) : Prop :=
  (Between i (i.procsText tasks) d ∧ (d.ret ≠ 0 ↔ LastHasBuffer i tasks)) ∨
    (d.stopped = true ∧ Exhausted i (i.procsText tasks) d)

section Run

variable {i : ProcsInput} {task : Process} {tasks : List Process} {d : ProcsDump}

theorem Between.lt {T : List UInt8} (h : Between i T d) (hpos : 0 < i.dumpSize) (hne : T ≠ []) :
    T.length + 1 < i.dumpSize := by
  by_contra hle
  exact hne (h.room ((h.holds.full_iff hpos).mpr (by omega)))

theorem LastHasBuffer.procsText_ne_nil (h : LastHasBuffer i tasks) : i.procsText tasks ≠ [] := by
  obtain ⟨before, P, hlist, hP⟩ := h
  intro hnil
  rw [← procsText_withThreads, hlist, procsText_eq_nil_iff] at hnil
  exact hP (hnil P (by simp))

theorem lastHasBuffer_snoc (h : task.threads ≠ []) :
    LastHasBuffer i (tasks ++ [task]) ↔ i.buffers task ≠ [] := by
  rw [LastHasBuffer, withThreads_snoc h]
  constructor
  · rintro ⟨before, P, hlist, hP⟩
    cases (List.append_inj' hlist rfl).2
    exact hP
  · intro hP
    exact ⟨_, task, rfl, hP⟩

/-- The step of the walk, when nothing has stopped it before. -/
theorem walkState_step (hs : i.dumpSize < 2 ^ 31) (hpos : 0 < i.dumpSize)
    (hinj : ∀ b ∈ i.buffers task, ∀ c ∈ i.buffers task, i.index b = i.index c → b = c)
    (hclear : ¬ StaleStop i (tasks ++ [task])) (h : WalkState i tasks d) :
    WalkState i (tasks ++ [task]) (visitProcess i d task) := by
  rcases h with ⟨hbetween, hret⟩ | ⟨hstopped, hfull⟩
  · by_cases hthreads : task.threads = []
    · rw [visitProcess_empty hbetween hthreads]
      have hlast : LastHasBuffer i (tasks ++ [task]) ↔ LastHasBuffer i tasks := by
        rw [LastHasBuffer, withThreads_snoc_empty hthreads]
        rfl
      refine .inl ⟨?_, hret.trans hlast.symm⟩
      rw [procsText_snoc, processText_of_no_buffers (buffers_of_no_threads hthreads),
        List.append_nil]
      exact hbetween
    · have hgoes : d.ret = 0 ∨ ∃ thread ∈ task.threads.head?, (task.inspected thread).isSome := by
        by_contra hno
        obtain ⟨hne, hskipped⟩ := not_or.mp hno
        have hlast := hret.mp hne
        refine hclear ((staleStop_snoc i tasks task).mpr (.inr ⟨?_, hlast,
          hbetween.lt hpos hlast.procsText_ne_nil⟩))
        obtain ⟨thread, hthread⟩ := Option.isSome_iff_exists.mp (List.isSome_head?.mpr hthreads)
        refine ⟨thread, hthread, ?_⟩
        by_contra hsome
        exact hskipped ⟨thread, hthread, Option.isSome_iff_ne_none.mpr hsome⟩
      have hspec := visitProcess_spec hs hpos hbetween hgoes hinj
      rw [← procsText_snoc] at hspec
      rcases hspec with ⟨hnext, hbuffers⟩ | hfull
      · exact .inl ⟨hnext, hbuffers.trans (lastHasBuffer_snoc hthreads).symm⟩
      · exact .inr hfull
  · rw [visitProcess_stopped hstopped]
    refine .inr ⟨hstopped, ?_⟩
    rw [procsText_snoc]
    exact hfull.append _

/-- The walk over `tasks`: it stops early at the first stale length, and else it prints the text up to
the end of the region. -/
theorem walk_spec (hs : i.dumpSize < 2 ^ 31) (hpos : 0 < i.dumpSize) (hstart : Between i [] d)
    (hret : d.ret = 0) (tasks : List Process)
    (hinj : ∀ task ∈ tasks, ∀ b ∈ i.buffers task, ∀ c ∈ i.buffers task,
      i.index b = i.index c → b = c) :
    (¬ StaleStop i tasks → WalkState i tasks (tasks.foldl (visitProcess i) d)) ∧
      (StaleStop i tasks → (tasks.foldl (visitProcess i) d).stopped = true ∧
        (tasks.foldl (visitProcess i) d).buf.offset + 1 ≠ i.dumpSize) := by
  induction tasks using List.reverseRecOn with
  | nil =>
    refine ⟨fun _ => .inl ⟨hstart, iff_of_false (not_not_intro hret) ?_⟩, ?_⟩
    · rintro ⟨before, P, hlist, -⟩
      simp [withThreads] at hlist
    · rintro ⟨before, P, Q, after, hlist, -⟩
      simp [withThreads] at hlist
  | append_singleton tasks task ih =>
    obtain ⟨hclear, hstale⟩ := ih fun t ht => hinj t (List.mem_append_left _ ht)
    rw [List.foldl_append, List.foldl_cons, List.foldl_nil]
    constructor
    · intro hno
      have hbefore : ¬ StaleStop i tasks := fun h => hno ((staleStop_snoc i tasks task).mpr (.inl h))
      exact walkState_step hs hpos (hinj task (by simp)) hno (hclear hbefore)
    · intro hstop
      by_cases hbefore : StaleStop i tasks
      · obtain ⟨hstopped, hne⟩ := hstale hbefore
        rw [visitProcess_stopped hstopped]
        exact ⟨hstopped, hne⟩
      · -- the length that is left over is looked at here
        obtain ⟨⟨thread, hthread, hskipped⟩, hlast, hlt⟩ :=
          ((staleStop_snoc i tasks task).mp hstop).resolve_left hbefore
        rcases hclear hbefore with ⟨hbetween, hret⟩ | ⟨-, hfull⟩
        · obtain ⟨threads, hthreads⟩ := List.head?_eq_some_iff.mp hthread
          rw [visitProcess_stale hbetween (hret.mpr hlast) hthreads hskipped]
          have hoffset := hbetween.holds.text.offset_eq
          exact ⟨rfl, by dsimp only; omega⟩
        · have := (hfull.holds.full_iff hpos).mp hfull.full
          omega

end Run

/-! ## Regions to which nothing is printed -/

/-- Nothing has been printed. -/
structure Unprinted (i : ProcsInput) (b : PrivBuf) : Prop where
  buf_eq : b.buf = i.m
  size_eq : b.size = i.dumpSize
  offset_eq : b.offset = 0

section Unprinted

variable {i : ProcsInput} {task : Process} {d : ProcsDump}
  (hsize : i.dumpSize = 0 ∨ 2 ^ 31 ≤ i.dumpSize)

include hsize

theorem Unprinted.print {b : PrivBuf} (h : Unprinted i b) (text : List UInt8) :
    Unprinted i (b.print text).1 ∧ (b.print text).1.full = false ∧ (b.print text).2 = 0 := by
  obtain ⟨hnone, hsize', hoffset, hroom⟩ :=
    b.print_nothing (by rw [h.size_eq, h.offset_eq]; omega) text
  exact ⟨⟨h.buf_eq, hsize'.trans h.size_eq, hoffset.trans h.offset_eq⟩, hroom, hnone⟩

theorem addDmaBuf_unprinted (h : Unprinted i d.buf) (b : Nat) :
    Unprinted i (addDmaBuf i b d).1.buf ∧ (addDmaBuf i b d).2 = 0 := by
  obtain ⟨hcolumns, hroom, -⟩ := h.print hsize columnsText
  obtain ⟨hrecord, hroom', -⟩ := hcolumns.print hsize (dmaBufText (i.dmabuf b))
  rw [addDmaBuf]
  simp only [ProcsDump.print, hroom, hroom', Bool.false_eq_true, if_false]
  exact ⟨hrecord, trivial⟩

theorem getDmaInfo_unprinted (h : Unprinted i d.buf) (task : Process) (file : OpenFile) :
    Unprinted i (getDmaInfo i task file d).1.buf ∧ (getDmaInfo i task file d).2 = 0 := by
  cases file with
  | other => exact ⟨h, rfl⟩
  | dmaBuf b =>
    obtain ⟨hheading, hroom, -⟩ := h.print hsize task.heading
    by_cases hcount : d.count = 0
    · by_cases hset : d.dmaBufHash (i.index b) = true
      · simp only [getDmaInfo, if_pos hcount, ProcsDump.print, hroom, Bool.false_eq_true, and_false,
          if_false, hset, if_true]
        exact ⟨hheading, trivial⟩
      · rw [getDmaInfo_first i task hcount (by simpa using hset), if_neg (by
          rw [ProcsDump.print, hroom]
          exact Bool.false_ne_true)]
        exact addDmaBuf_unprinted hsize hheading b
    · rw [getDmaInfo_next i task hcount]
      split
      · exact ⟨h, rfl⟩
      · exact addDmaBuf_unprinted hsize h b

theorem iterateFd_unprinted (task : Process) (files : List OpenFile) : ∀ {d : ProcsDump}, Unprinted i d.buf →
    Unprinted i (iterateFd (getDmaInfo i task) files d).1.buf ∧
      (iterateFd (getDmaInfo i task) files d).2 = 0 := by
  induction files with
  | nil => exact fun h => ⟨h, rfl⟩
  | cons file files ih =>
    intro d h
    obtain ⟨hfile, hret⟩ := getDmaInfo_unprinted hsize h task file
    rw [iterateFd, if_neg (not_not_intro hret)]
    exact ih hfile

/-- The walk goes on, and prints nothing. -/
def Quiet (i : ProcsInput) (d : ProcsDump) : Prop :=
  Unprinted i d.buf ∧ d.ret = 0 ∧ d.stopped = false

theorem visitThread_quiet (h : Quiet i d) (thread : Thread) :
    Quiet i (visitThread i task d thread) := by
  obtain ⟨hbuf, hret, hgoes⟩ := h
  rw [visitThread_of_goes hgoes]
  cases hfiles : task.inspected thread with
  | none => exact ⟨hbuf, hret, by simp [hret]⟩
  | some files =>
    obtain ⟨hnext, hzero⟩ := iterateFd_unprinted hsize task (i.openFiles files) hbuf
    exact ⟨hnext, hzero, by simp [hzero]⟩

theorem visitProcess_quiet (h : Quiet i d) (task : Process) : Quiet i (visitProcess i d task) := by
  have hthreads : ∀ (threads : List Thread) {d : ProcsDump}, Quiet i d →
      Quiet i (threads.foldl (visitThread i task) d) := by
    intro threads
    induction threads with
    | nil => exact fun h => h
    | cons thread threads ih => exact fun h => ih (visitThread_quiet hsize h thread)
  obtain ⟨hbuf, hret, hgoes⟩ := hthreads task.threads h
  rw [visitProcess_of_goes h.2.2]
  dsimp only
  split
  · exact ⟨hbuf, hret, hgoes⟩
  · obtain ⟨hprint, hroom, hnone⟩ := hbuf.print hsize (totalText
      (task.threads.foldl (visitThread i task) d).count
      (task.threads.foldl (visitThread i task) d).size)
    rw [ProcsDump.total]
    simp only [hroom, Bool.false_eq_true, if_false, hnone]
    exact ⟨hprint, rfl, hgoes⟩

theorem walk_quiet (tasks : List Process) : ∀ {d : ProcsDump}, Quiet i d →
    Quiet i (tasks.foldl (visitProcess i) d) := by
  induction tasks with
  | nil => exact fun h => h
  | cons task tasks ih => exact fun h => ih (visitProcess_quiet hsize h task)

end Unprinted

/-! ## The result -/

theorem procsLaw_iff_of_quiet {i : ProcsInput} {d : ProcsDump}
    (hsize : i.dumpSize = 0 ∨ 2 ^ 31 ≤ i.dumpSize) (hbuf : Unprinted i d.buf)
    (hgoes : d.stopped = false) :
    ProcsLaw i d ↔ (∀ task ∈ i.processes, i.buffers task = []) ∨
      (i.dumpSize < 2 ^ 31 ∧ ¬ StaleStop i i.processes) := by
  have hstops : d.stopped = true → d.buf.offset + 1 = i.dumpSize := by
    intro hstopped
    rw [hgoes] at hstopped
    cases hstopped
  rw [← procsText_eq_nil_iff]
  rcases hsize with hzero | hhuge
  · have hclear : ¬ StaleStop i i.processes := by
      rintro ⟨before, P, Q, after, -, -, -, hlt⟩
      omega
    refine iff_of_true ⟨⟨hbuf.buf_eq, hbuf.size_eq, ?_⟩, hstops⟩ (.inr ⟨by omega, hclear⟩)
    rw [hbuf.offset_eq, hzero]
    exact ⟨by simp, by simp [slice]⟩
  · constructor
    · intro hlaw
      have hoffset := hlaw.holds.text.offset_eq
      rw [hbuf.offset_eq] at hoffset
      exact .inl (List.eq_nil_of_length_eq_zero (by omega))
    · rintro (hnil | ⟨hlt, -⟩)
      · refine ⟨⟨hbuf.buf_eq, hbuf.size_eq, ?_⟩, hstops⟩
        rw [hnil, hbuf.offset_eq]
        exact .nil _ _ _
      · omega

/-- **The dump of the processes.**  It is as it should be exactly when no process has a buffer, or
when the region has at most `INT_MAX` bytes and no length that is left over stops the walk. -/
theorem procsLaw_iff (i : ProcsInput) (mem : Nat → UInt8) (hindex : i.DistinctIndices) :
    ProcsLaw i (mdDmaBufProcs i mem) ↔
      (∀ task ∈ i.processes, i.buffers task = []) ∨
        (i.dumpSize < 2 ^ 31 ∧ ¬ StaleStop i i.processes) := by
  by_cases hsize : i.dumpSize = 0 ∨ 2 ^ 31 ≤ i.dumpSize
  · obtain ⟨hbuf, -, hgoes⟩ := walk_quiet hsize i.processes
      (d := ⟨⟨i.m, i.dumpSize, 0, mem⟩, fun _ => false, 0, 0, 0, false⟩) ⟨⟨rfl, rfl, rfl⟩, rfl, rfl⟩
    exact procsLaw_iff_of_quiet hsize hbuf hgoes
  · have hs : i.dumpSize < 2 ^ 31 := by omega
    have hpos : 0 < i.dumpSize := by omega
    have hstart : Between i [] ⟨⟨i.m, i.dumpSize, 0, mem⟩, fun _ => false, 0, 0, 0, false⟩ :=
      ⟨⟨rfl, rfl, .nil mem i.m i.dumpSize⟩, fun _ => rfl, fun _ => rfl, rfl, rfl, rfl⟩
    obtain ⟨hclear, hstale⟩ := walk_spec hs hpos hstart rfl i.processes hindex
    by_cases hstop : StaleStop i i.processes
    · refine iff_of_false ?_ ?_
      · intro hlaw
        obtain ⟨hstopped, hne⟩ := hstale hstop
        exact hne (hlaw.stops hstopped)
      · rintro (hnone | ⟨-, hno⟩)
        · obtain ⟨before, P, Q, after, hlist, hP, -⟩ := hstop
          exact hP (hnone P (mem_of_mem_withThreads (by rw [hlist]; simp)))
        · exact hno hstop
    · refine iff_of_true ?_ (.inr ⟨hs, hstop⟩)
      rcases hclear hstop with ⟨hbetween, -⟩ | ⟨-, hfull⟩
      · refine ⟨hbetween.holds, fun hstopped => ?_⟩
        rw [mdDmaBufProcs, hbetween.goes] at hstopped
        cases hstopped
      · refine ⟨hfull.holds, fun _ => ?_⟩
        rw [← hfull.holds.size_eq]
        exact PrivBuf.full_iff.mp hfull.full

/-- Two processes with buffers. -/
def twoProcesses : ProcsInput where
  m := 0
  dumpSize := 4096
  processes :=
    [⟨asciiBytes "camera".toList, 100, ⟨100, some 1⟩, [⟨100, some 1⟩, ⟨101, some 1⟩]⟩,
      ⟨asciiBytes "display".toList, 300, ⟨300, some 2⟩, [⟨300, some 2⟩]⟩]
  openFiles := fun files => if files = 1 then [.dmaBuf 1, .other, .dmaBuf 1] else [.dmaBuf 1, .dmaBuf 2]
  dmabuf := fun _ => ⟨4096, 0, 3, 1, asciiBytes "system".toList, 7, none⟩
  index := fun dmabuf => ⟨dmabuf % dmaBufHashSize, Nat.mod_lt _ (by decide)⟩

/-- The same, and between them a process that has exited, whose `files` is `NULL`. -/
def exitedBetween : ProcsInput :=
  { twoProcesses with
    processes := twoProcesses.processes.take 1 ++
      ⟨asciiBytes "sh".toList, 200, ⟨200, none⟩, [⟨200, none⟩]⟩ :: twoProcesses.processes.drop 1 }

theorem procsLaw_two_processes :
    ProcsLaw twoProcesses (mdDmaBufProcs twoProcesses fun _ => 0) := by
  have hindex : twoProcesses.DistinctIndices := by
    unfold ProcsInput.DistinctIndices
    decide +kernel
  refine (procsLaw_iff twoProcesses (fun _ => 0) hindex).mpr (.inr ⟨by decide, ?_⟩)
  -- the first threads of both are looked at
  rintro ⟨before, P, Q, after, hlist, -, ⟨thread, hthread, hskipped⟩, -⟩
  have hQ : Q ∈ twoProcesses.processes := mem_of_mem_withThreads (by rw [hlist]; simp)
  have hnone : ∀ Q ∈ twoProcesses.processes, ∀ thread ∈ Q.threads.head?,
      Q.inspected thread ≠ none := by decide +kernel
  exact hnone Q hQ thread hthread hskipped

/-- The walk stops at the process that has exited. -/
theorem procs_stop_at_exited :
    exitedBetween.DistinctIndices ∧
      ¬ ProcsLaw exitedBetween (mdDmaBufProcs exitedBetween fun _ => 0) := by
  refine ⟨?_, ?_⟩
  · unfold ProcsInput.DistinctIndices
    decide +kernel
  · intro h
    have hrun : (mdDmaBufProcs exitedBetween fun _ => 0).stopped = true ∧
        (mdDmaBufProcs exitedBetween fun _ => 0).buf.offset + 1 ≠ exitedBetween.dumpSize := by
      decide +kernel
    exact hrun.2 (h.stops hrun.1)

end SafelinuxDbg.MinidumpMemory
