import SafelinuxDbg.MinidumpMemory.DmaBuf

/-!
# What the dump of a DMA buffer holds

`dump_bufinfo` takes the reservation lock of a buffer, prints a record, looks at the fences of the
buffer in an RCU section, each shared fence with a reference of its own, prints the devices that are
attached, and gives the lock back before its last line.  Wherever the region gets full it goes to the
label `err`, which releases nothing.

* `PrivBuf.printAll_full_iff`: whether a list of lines fills a buffer.
* `Stage`: a part of the code that prints some lines, and that has released what it has taken unless
  it stops.
* `dumpLocked_stage`: the part of `dump_bufinfo` under the lock.
* `dumpBufinfo_released_iff`: everything is released exactly when the lock could not be taken, or when
  the region does not get full under the lock.
* `mdDmaBufInfo_released_iff`: the same for the dump of all buffers.
-/

namespace SafelinuxDbg.MinidumpMemory

open CMemory

/-! ## The code -/

/-- What the code uses of a `struct dma_fence`.  `referable` says whether `dma_fence_get_rcu` gets a
reference. -/
structure DmaFence where
  id : Nat
  driverName : List UInt8
  timelineName : List UInt8
  signaled : Bool
  referable : Bool

/-- A buffer with its reservation object: the exclusive fence, the list of shared fences, and the
names of the devices that are attached. -/
structure BufObject where
  dmabuf : DmaBuf
  fenceExcl : Option DmaFence
  shared : List DmaFence
  attachments : List (List UInt8)

/-- The `dma_buf_priv` with its buffer, the variable `attach_count`, and what is held: the reservation
lock, the nesting of RCU sections, and the references to fences. -/
structure InfoDump where
  buf : PrivBuf
  count : Nat
  size : UInt64
  attachCount : Nat
  resvHeld : Bool
  rcuNesting : Nat
  fenceRefs : List Nat

namespace InfoDump

/-- A line, and whether the region is full then. -/
def print (d : InfoDump) (text : List UInt8) : InfoDump × Bool :=
  let b := (d.buf.print text).1
  ({ d with buf := b }, b.full)

def rcuReadLock (d : InfoDump) : InfoDump := { d with rcuNesting := d.rcuNesting + 1 }

def rcuReadUnlock (d : InfoDump) : InfoDump := { d with rcuNesting := d.rcuNesting - 1 }

/-- `dma_fence_get_rcu`, when it gets a reference. -/
def fenceGet (d : InfoDump) (fence : DmaFence) : InfoDump :=
  { d with fenceRefs := fence.id :: d.fenceRefs }

/-- `dma_fence_put`. -/
def fencePut (d : InfoDump) (fence : DmaFence) : InfoDump :=
  { d with fenceRefs := d.fenceRefs.erase fence.id }

end InfoDump

/-- `"\tExclusive fence: %s %s %ssignalled\n"`, and the same for `Shared`. -/
def fenceText (kind : List Char) (fence : DmaFence) : List UInt8 :=
  asciiBytes ('\t' :: kind) ++ asciiBytes " fence: ".toList ++ fence.driverName ++ asciiBytes [' '] ++
    fence.timelineName ++ asciiBytes [' '] ++
    asciiBytes (if fence.signaled then [] else "un".toList) ++ asciiBytes "signalled\n".toList

def exclusiveText (fence : DmaFence) : List UInt8 := fenceText "Exclusive".toList fence

def sharedText (fence : DmaFence) : List UInt8 := fenceText "Shared".toList fence

/-- `"\tAttached Devices:\n"`. -/
def attachedText : List UInt8 := asciiBytes "\tAttached Devices:\n".toList

/-- `"\t%s\n"`. -/
def deviceText (name : List UInt8) : List UInt8 := asciiBytes ['\t'] ++ name ++ asciiBytes ['\n']

/-- `"Total %d devices attached\n\n"`. -/
def devicesText (attachCount : Nat) : List UInt8 :=
  asciiBytes "Total ".toList ++ decimal attachCount ++ asciiBytes " devices attached\n\n".toList

/-- The loop that reads the fences.  `retries` is how often the sequence count has changed meanwhile. -/
def readFences : Nat → InfoDump → InfoDump
  | 0, d => d.rcuReadLock
  | retries + 1, d => readFences retries d.rcuReadLock.rcuReadUnlock

/-- The loop over the shared fences.  In this function and the next ones `true` is a jump to `err`. -/
def dumpShared : List DmaFence → InfoDump → InfoDump × Bool
  | [], d => (d, false)
  | fence :: fences, d =>
    if fence.referable then
      let r := (d.fenceGet fence).print (sharedText fence)
      if r.2 then r else dumpShared fences (r.1.fencePut fence)
    else dumpShared fences d

/-- The RCU section. -/
def dumpFences (b : BufObject) (retries : Nat) (d : InfoDump) : InfoDump × Bool :=
  let d := readFences retries d
  let r := match b.fenceExcl with
    | some fence => d.print (exclusiveText fence)
    | none => (d, false)
  if r.2 then r
  else
    let r := dumpShared b.shared r.1
    if r.2 then r else (r.1.rcuReadUnlock, false)

/-- The loop over the attachments. -/
def dumpAttachments : List (List UInt8) → InfoDump → InfoDump × Bool
  | [], d => (d, false)
  | name :: names, d =>
    let r := d.print (deviceText name)
    if r.2 then r else dumpAttachments names { r.1 with attachCount := r.1.attachCount + 1 }

/-- The part of `dump_bufinfo` between `dma_resv_lock` and `dma_resv_unlock`. -/
def dumpLocked (b : BufObject) (retries : Nat) (d : InfoDump) : InfoDump × Bool :=
  let r := d.print (dmaBufText b.dmabuf)
  if r.2 then r
  else
    let r := dumpFences b retries r.1
    if r.2 then r
    else
      let r := r.1.print attachedText
      if r.2 then r else dumpAttachments b.attachments { r.1 with attachCount := 0 }

/-- `dump_bufinfo`, with what `dma_resv_lock` returns.  `-ENOSPC` is `-28`. -/
def dumpBufinfo (resvLock : Int) (retries : Nat) (b : BufObject) (d : InfoDump) : InfoDump × Int :=
  if resvLock ≠ 0 then (d, -28)
  else
    let r := dumpLocked b retries { d with resvHeld := true }
    if r.2 then (r.1, -28)
    else
      let r := ({ r.1 with resvHeld := false }).print (devicesText r.1.attachCount)
      if r.2 then (r.1, -28)
      else ({ r.1 with count := r.1.count + 1, size := r.1.size + b.dmabuf.size }, 0)

/-- A call of `dump_bufinfo`: what `dma_resv_lock` returns, how often the fences are read again, and
the buffer. -/
structure InfoCall where
  resvLock : Int
  retries : Nat
  buffer : BufObject

/-- `get_each_dmabuf` with `dump_bufinfo`, which it calls until that returns something else than 0. -/
def getEachDmabuf : List InfoCall → InfoDump → InfoDump
  | [], d => d
  | call :: calls, d =>
    let r := dumpBufinfo call.resvLock call.retries call.buffer d
    if r.2 ≠ 0 then r.1 else getEachDmabuf calls r.1

/-- `"\nDma-buf Objects:\n"`. -/
def objectsText : List UInt8 := asciiBytes "\nDma-buf Objects:\n".toList

/-- The region with the two lines at its start. -/
def infoStart (d : InfoDump) : InfoDump := ((d.print objectsText).1.print columnsText).1

/-- `md_dma_buf_info`, from a state in which nothing has been printed. -/
def mdDmaBufInfo (inTask : Bool) (calls : List InfoCall) (d : InfoDump) : InfoDump :=
  if inTask then
    let d := getEachDmabuf calls (infoStart d)
    (d.print (totalText d.count d.size)).1
  else d

/-! ## What should hold -/

/-- The lock is not held, and the RCU nesting and the references to fences are what they were. -/
structure Released (before after : InfoDump) : Prop where
  lock : after.resvHeld = false
  rcu : after.rcuNesting = before.rcuNesting
  refs : after.fenceRefs = before.fenceRefs

/-- The lines of the shared fences that get a reference. -/
def sharedLines (fences : List DmaFence) : List (List UInt8) :=
  (fences.filter (·.referable)).map sharedText

/-- The lines that are printed under the lock. -/
def lockedLines (b : BufObject) : List (List UInt8) :=
  [dmaBufText b.dmabuf] ++ ((b.fenceExcl.map exclusiveText).toList ++ sharedLines b.shared) ++
    [attachedText] ++ b.attachments.map deviceText

/-! ## The parts of the code -/

/-- From `d` the lines `lines` are printed, until the region is full.  The lock stays as it is, and
when the region does not get full the rest is released. -/
structure Stage (lines : List (List UInt8)) (d : InfoDump) (r : InfoDump × Bool) : Prop where
  printed : d.buf.printAll lines = (r.1.buf, r.2)
  lock : r.1.resvHeld = d.resvHeld
  released : r.2 = false → r.1.rcuNesting = d.rcuNesting ∧ r.1.fenceRefs = d.fenceRefs

namespace Stage

variable {xs ys : List (List UInt8)} {d : InfoDump} {r r' : InfoDump × Bool}

theorem nothing (d : InfoDump) : Stage [] d (d, false) := ⟨rfl, rfl, fun _ => ⟨rfl, rfl⟩⟩

theorem print (d : InfoDump) (text : List UInt8) : Stage [text] d (d.print text) where
  printed := by
    rw [PrivBuf.printAll, PrivBuf.printAll, InfoDump.print]
    cases (d.buf.print text).1.full with
    | false => rfl
    | true => rfl
  lock := rfl
  released := fun _ => ⟨rfl, rfl⟩

/-- A part behind another one, which it is skipped for when that stops. -/
theorem seq (h : Stage xs d r) (hnext : r.2 = false → Stage ys r.1 r') :
    Stage (xs ++ ys) d (if r.2 then r else r') := by
  have hprinted := PrivBuf.printAll_append xs ys d.buf
  rw [h.printed] at hprinted
  by_cases hstop : r.2 = true
  · rw [if_pos hstop] at hprinted ⊢
    exact ⟨hprinted, h.lock, h.released⟩
  · have hgoes : r.2 = false := by simpa using hstop
    have hnext := hnext hgoes
    obtain ⟨hrcu, hrefs⟩ := h.released hgoes
    rw [if_neg hstop] at hprinted ⊢
    refine ⟨hprinted.trans hnext.printed, hnext.lock.trans h.lock, fun hgoes' => ?_⟩
    obtain ⟨hrcu', hrefs'⟩ := hnext.released hgoes'
    exact ⟨hrcu'.trans hrcu, hrefs'.trans hrefs⟩

/-- A part that begins in a state that differs in nothing that a part is about. -/
theorem of_eq {d' : InfoDump} (h : Stage xs d' r) (hbuf : d'.buf = d.buf)
    (hlock : d'.resvHeld = d.resvHeld) (hrcu : d'.rcuNesting = d.rcuNesting)
    (hrefs : d'.fenceRefs = d.fenceRefs) : Stage xs d r where
  printed := hbuf ▸ h.printed
  lock := h.lock.trans hlock
  released := fun hgoes => ⟨(h.released hgoes).1.trans hrcu, (h.released hgoes).2.trans hrefs⟩

end Stage

section Parts

variable {d : InfoDump}

theorem readFences_eq (retries : Nat) : ∀ d : InfoDump, readFences retries d = d.rcuReadLock := by
  induction retries with
  | zero => exact fun d => rfl
  | succ retries ih =>
    intro d
    rw [readFences, ih]
    rfl

/-- A shared fence with its reference. -/
theorem dumpShared_stage (fences : List DmaFence) : ∀ d : InfoDump,
    Stage (sharedLines fences) d (dumpShared fences d) := by
  induction fences with
  | nil => exact fun d => .nothing d
  | cons fence fences ih =>
    intro d
    rw [dumpShared]
    by_cases href : fence.referable = true
    · rw [if_pos href, sharedLines, List.filter_cons_of_pos href, List.map_cons]
      have hput : (((d.fenceGet fence).print (sharedText fence)).1.fencePut fence).fenceRefs =
          d.fenceRefs := List.erase_cons_head _ _
      have hrest := (ih (((d.fenceGet fence).print (sharedText fence)).1.fencePut fence)).of_eq
        (d := (d.print (sharedText fence)).1) rfl rfl rfl hput
      have hseq := (Stage.print d (sharedText fence)).seq fun _ => hrest
      dsimp only
      split
      case isTrue hstop =>
        have hfull : (d.print (sharedText fence)).2 = true := hstop
        rw [if_pos hfull] at hseq
        refine ⟨hseq.printed, hseq.lock, fun hgoes => ?_⟩
        rw [hstop] at hgoes
        cases hgoes
      case isFalse hgoes =>
        have hroom : ¬ (d.print (sharedText fence)).2 = true := hgoes
        rw [if_neg hroom] at hseq
        exact hseq
    · rw [if_neg href, sharedLines, List.filter_cons_of_neg href]
      exact ih d

theorem dumpAttachments_stage (names : List (List UInt8)) : ∀ d : InfoDump,
    Stage (names.map deviceText) d (dumpAttachments names d) := by
  induction names with
  | nil => exact fun d => .nothing d
  | cons name names ih =>
    intro d
    rw [dumpAttachments, List.map_cons]
    exact (Stage.print d (deviceText name)).seq fun _ => (ih _).of_eq rfl rfl rfl rfl

theorem dumpFences_stage (b : BufObject) (retries : Nat) (d : InfoDump) :
    Stage ((b.fenceExcl.map exclusiveText).toList ++ sharedLines b.shared) d
      (dumpFences b retries d) := by
  rw [dumpFences, readFences_eq]
  have hexcl : Stage (b.fenceExcl.map exclusiveText).toList d.rcuReadLock
      (match b.fenceExcl with
        | some fence => d.rcuReadLock.print (exclusiveText fence)
        | none => (d.rcuReadLock, false)) := by
    cases b.fenceExcl with
    | none => exact .nothing _
    | some fence => exact .print _ _
  dsimp only
  generalize (match b.fenceExcl with
    | some fence => d.rcuReadLock.print (exclusiveText fence)
    | none => (d.rcuReadLock, false)) = r at hexcl ⊢
  have hseq := hexcl.seq fun _ => dumpShared_stage b.shared r.1
  by_cases hstop : r.2 = true
  · rw [if_pos hstop] at hseq ⊢
    refine ⟨hseq.printed, hseq.lock, fun hgoes => ?_⟩
    rw [hstop] at hgoes
    cases hgoes
  · rw [if_neg hstop] at hseq ⊢
    by_cases hstop' : (dumpShared b.shared r.1).2 = true
    · rw [if_pos hstop']
      refine ⟨hseq.printed, hseq.lock, fun hgoes => ?_⟩
      rw [hstop'] at hgoes
      cases hgoes
    · have hgoes : (dumpShared b.shared r.1).2 = false := by simpa using hstop'
      obtain ⟨hrcu, hrefs⟩ := hseq.released hgoes
      rw [if_neg hstop']
      refine ⟨?_, hseq.lock, fun _ => ⟨?_, hrefs⟩⟩
      · rw [← hgoes]
        exact hseq.printed
      · show (dumpShared b.shared r.1).1.rcuNesting - 1 = d.rcuNesting
        rw [hrcu]
        rfl

/-- **The part under the lock.** -/
theorem dumpLocked_stage (b : BufObject) (retries : Nat) (d : InfoDump) :
    Stage (lockedLines b) d (dumpLocked b retries d) := by
  rw [dumpLocked, lockedLines, List.append_assoc, List.append_assoc]
  refine (Stage.print d (dmaBufText b.dmabuf)).seq fun _ => ?_
  refine (dumpFences_stage b retries _).seq fun _ => ?_
  refine (Stage.print _ attachedText).seq fun _ => ?_
  exact (dumpAttachments_stage b.attachments _).of_eq rfl rfl rfl rfl

end Parts

/-! ## The result -/

/-- The region gets full under the lock. -/
theorem dumpLocked_stops_iff (b : BufObject) (retries : Nat) (d : InfoDump) :
    (dumpLocked b retries d).2 = true ↔
      d.buf.offset < d.buf.size ∧ d.buf.size - d.buf.offset < 2 ^ 31 ∧
        d.buf.size - d.buf.offset ≤ (lockedLines b).flatten.length + 1 := by
  have hprinted := congrArg Prod.snd (dumpLocked_stage b retries d).printed
  rw [← hprinted]
  by_cases hspace : d.buf.offset < d.buf.size ∧ d.buf.size - d.buf.offset < 2 ^ 31
  · obtain ⟨hlt, hs⟩ := hspace
    have hfull := PrivBuf.printAll_full_iff (dmaBufText b.dmabuf)
      (((b.fenceExcl.map exclusiveText).toList ++ sharedLines b.shared) ++ [attachedText] ++
        b.attachments.map deviceText) hlt hs
    have hlines : lockedLines b = dmaBufText b.dmabuf ::
        (((b.fenceExcl.map exclusiveText).toList ++ sharedLines b.shared) ++ [attachedText] ++
          b.attachments.map deviceText) := rfl
    rw [hlines, hfull]
    exact ⟨fun h => ⟨hlt, hs, h⟩, fun h => h.2.2⟩
  · have hquiet := PrivBuf.printAll_quiet (lockedLines b) d.buf (by omega)
    rw [hquiet]
    exact iff_of_false Bool.false_ne_true fun h => hspace ⟨h.1, h.2.1⟩

/-- The lock cannot be taken, there is no space at all or so much that nothing is printed, or the lines
under the lock leave some of the space. -/
def Releases (resvLock : Int) (b : BufObject) (buf : PrivBuf) : Prop :=
  resvLock ≠ 0 ∨ buf.size ≤ buf.offset ∨ 2 ^ 31 ≤ buf.size - buf.offset ∨
    (lockedLines b).flatten.length + 1 < buf.size - buf.offset

section Result

variable {resvLock : Int} (retries : Nat) {b : BufObject} {d : InfoDump}

theorem releases_iff (hlock : resvLock = 0) :
    Releases resvLock b d.buf ↔ (dumpLocked b retries { d with resvHeld := true }).2 = false := by
  rw [← Bool.not_eq_true, dumpLocked_stops_iff, Releases]
  dsimp only
  omega

theorem dumpBufinfo_releases (hfree : d.resvHeld = false) (h : Releases resvLock b d.buf) :
    Released d (dumpBufinfo resvLock retries b d).1 := by
  by_cases hlock : resvLock = 0
  · have hgoes := (releases_iff retries hlock).mp h
    obtain ⟨hrcu, hrefs⟩ := (dumpLocked_stage b retries { d with resvHeld := true }).released hgoes
    rw [dumpBufinfo, if_neg (not_not_intro hlock)]
    dsimp only
    rw [hgoes, if_neg Bool.false_ne_true]
    split
    · exact ⟨rfl, hrcu, hrefs⟩
    · exact ⟨rfl, hrcu, hrefs⟩
  · rw [dumpBufinfo, if_pos hlock]
    exact ⟨hfree, rfl, rfl⟩

/-- Where the region gets full under the lock, the lock stays. -/
theorem dumpBufinfo_keeps (h : ¬ Releases resvLock b d.buf) :
    (dumpBufinfo resvLock retries b d).1.resvHeld = true ∧
      (dumpBufinfo resvLock retries b d).2 ≠ 0 := by
  have hlock : resvLock = 0 := by
    by_contra hne
    exact h (.inl hne)
  have hstop : (dumpLocked b retries { d with resvHeld := true }).2 = true := by
    rw [← Bool.not_eq_false]
    exact fun hgoes => h ((releases_iff retries hlock).mpr hgoes)
  have hheld := (dumpLocked_stage b retries { d with resvHeld := true }).lock
  rw [dumpBufinfo, if_neg (not_not_intro hlock)]
  dsimp only
  rw [if_pos hstop]
  exact ⟨hheld, show (-28 : Int) ≠ 0 by decide⟩

/-- **What `dump_bufinfo` takes is released**, for a buffer whose lock it does not hold before, exactly
when the region does not get full under the lock. -/
theorem dumpBufinfo_released_iff (resvLock : Int) (retries : Nat) (b : BufObject) (d : InfoDump) :
    Released d (dumpBufinfo resvLock retries b { d with resvHeld := false }).1 ↔
      Releases resvLock b d.buf := by
  constructor
  · intro hreleased
    by_contra hno
    obtain ⟨hheld, -⟩ := dumpBufinfo_keeps retries (d := { d with resvHeld := false }) hno
    rw [hreleased.lock] at hheld
    cases hheld
  · intro h
    have hreleased := dumpBufinfo_releases retries (d := { d with resvHeld := false })
      rfl h
    exact ⟨hreleased.lock, hreleased.rcu, hreleased.refs⟩

end Result

/-- A shared fence with a reference, for which there is no room: the lock, the RCU section and the
reference stay. -/
theorem dumpBufinfo_leaks :
    let d : InfoDump := ⟨⟨0, 262144, 262084, fun _ => 0⟩, 0, 0, 0, false, 0, []⟩
    let b : BufObject := ⟨⟨4096, 0, 3, 1, asciiBytes "system".toList, 7, none⟩, none,
      [⟨5, asciiBytes "msm_kgsl".toList, asciiBytes "ctx".toList, false, true⟩], []⟩
    (dumpBufinfo 0 0 b d).1.resvHeld = true ∧ (dumpBufinfo 0 0 b d).1.rcuNesting = 1 ∧
      (dumpBufinfo 0 0 b d).1.fenceRefs = [5] ∧ ¬ Released d (dumpBufinfo 0 0 b d).1 := by
  refine ⟨by decide +kernel, by decide +kernel, by decide +kernel, fun h => ?_⟩
  exact absurd h.rcu (by decide +kernel)

/-! ## The dump of all buffers -/

/-- Every call that is made releases what it takes. -/
def AllRelease : List InfoCall → InfoDump → Prop
  | [], _ => True
  | call :: calls, d =>
    Releases call.resvLock call.buffer d.buf ∧
      ((dumpBufinfo call.resvLock call.retries call.buffer d).2 = 0 →
        AllRelease calls (dumpBufinfo call.resvLock call.retries call.buffer d).1)

theorem Released.trans {a b c : InfoDump} (h : Released a b) (g : Released b c) : Released a c :=
  ⟨g.lock, g.rcu.trans h.rcu, g.refs.trans h.refs⟩

/-- The walk ends with nothing held exactly when no call has kept something: the first one that does
ends the walk. -/
theorem getEachDmabuf_released_iff (calls : List InfoCall) : ∀ d : InfoDump, d.resvHeld = false →
    (Released d (getEachDmabuf calls d) ↔ AllRelease calls d) := by
  induction calls with
  | nil => exact fun d hfree => iff_of_true ⟨hfree, rfl, rfl⟩ trivial
  | cons call calls ih =>
    intro d hfree
    rw [getEachDmabuf, AllRelease]
    by_cases hcall : Releases call.resvLock call.buffer d.buf
    · have hreleased := dumpBufinfo_releases call.retries hfree hcall
      rw [and_iff_right hcall]
      by_cases hret : (dumpBufinfo call.resvLock call.retries call.buffer d).2 = 0
      · rw [if_neg (not_not_intro hret), forall_prop_of_true hret, ← ih _ hreleased.lock]
        refine ⟨fun h => ?_, hreleased.trans⟩
        exact ⟨h.lock, h.rcu.trans hreleased.rcu.symm, h.refs.trans hreleased.refs.symm⟩
      · rw [if_pos hret]
        exact iff_of_true hreleased fun h => absurd h hret
    · obtain ⟨hheld, hret⟩ := dumpBufinfo_keeps call.retries hcall
      rw [if_pos hret]
      refine iff_of_false (fun h => ?_) (fun h => hcall h.1)
      rw [h.lock] at hheld
      cases hheld

/-- **`md_dma_buf_info` ends with nothing held** exactly when none of its calls has kept something. -/
theorem mdDmaBufInfo_released_iff (calls : List InfoCall) (d : InfoDump) (hfree : d.resvHeld = false) :
    Released d (mdDmaBufInfo true calls d) ↔ AllRelease calls (infoStart d) := by
  rw [← getEachDmabuf_released_iff calls (infoStart d) hfree, mdDmaBufInfo, if_pos rfl]
  exact ⟨fun h => ⟨h.lock, h.rcu, h.refs⟩, fun h => ⟨h.lock, h.rcu, h.refs⟩⟩

end SafelinuxDbg.MinidumpMemory
