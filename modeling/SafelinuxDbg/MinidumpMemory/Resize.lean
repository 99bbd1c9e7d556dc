import SafelinuxDbg.Minidump.UnusedHeaders
import SafelinuxDbg.MinidumpMemory.DumpSize

/-!
# Changing the size of a dump in RM mode

In RM mode a removal is only queued.  `msm_minidump_remove_region` returns, the buffer of the dump
goes to `cma_release`, and `update_dump_size` registers the name again, wherever the worker is by
then.  The threads that run `update_dump_size` are cut at their calls, so that the worker and other
threads come in between; what `cma_alloc` and `kzalloc` return is part of the step.

The worker never makes up for it.  The request to remove a region carries what `md_get_region`
returned, with its two addresses exchanged, so that no headers are found for it: the entry and the
headers of a dump stay for ever, and its name is taken.

* `Lawful`: a buffer that is released is not described any more, and a dump that was unregistered
  can be registered again.
* `ResizeInv`: what holds along every run.
* `resize_lawful_iff`: the law holds as long as no thread has come past its unregister step, and
  then no longer.
-/

namespace SafelinuxDbg.MinidumpMemory

open CMemory Minidump

/-! ## The code -/

/-- A buffer of the area.  Its virtual address is one of the kernel's linear map, which lies above
all physical addresses. -/
structure CmaBuffer where
  virt : UInt64
  phys : UInt64
  ne : virt ≠ phys

/-- Why a dump is registered: at first; because it was disabled; with its new size; or with its old
size, when that failed. -/
inductive Attempt
  | initial | only | new | fallback
deriving DecidableEq

/-- Where a thread is in `update_dump_size`.  In the states called `...ing` it is about to make the
call. -/
inductive Place
  | idle
  | getting (n : DumpName) (size : UInt64)
  | removing (n : DumpName) (size : UInt64) (mdr : MdRegion)
  /-- `msm_minidump_remove_region` has succeeded, and `cma_release` is next -/
  | releasing (n : DumpName) (size : UInt64) (mdr : MdRegion)
  | registering (attempt : Attempt) (n : DumpName) (size : UInt64)
  /-- `md_register_memory_dump` has returned -/
  | registered (attempt : Attempt) (n : DumpName) (size : UInt64) (ok : Bool)
deriving DecidableEq

/-- The driver and the variables of the dumps, with the threads that work on them. -/
structure Resizing where
  system : System
  dumpAddr : DumpName → UInt64
  dumpSize : DumpName → UInt64
  place : Nat → Place

inductive Move
  /-- a step of the worker, or an answer of the resource manager -/
  | work (a : Action)
  /-- a thread writes to the file of a dump's size -/
  | write (t : Nat) (n : DumpName) (size : UInt64)
  | getRegion (t : Nat)
  | remove (t : Nat) (alloc : Bool)
  | release (t : Nat)
  | register (t : Nat) (buffer : Option CmaBuffer) (alloc : Bool)
  | settle (t : Nat)

namespace Resizing

def goTo (st : Resizing) (t : Nat) (place : Place) : Resizing :=
  { st with place := Function.update st.place t place }

def setSystem (st : Resizing) (s : System) : Resizing := { st with system := s }

def setAddr (st : Resizing) (n : DumpName) (addr : UInt64) : Resizing :=
  { st with dumpAddr := Function.update st.dumpAddr n addr }

def setSize (st : Resizing) (n : DumpName) (size : UInt64) : Resizing :=
  { st with dumpSize := Function.update st.dumpSize n size }

/-- `update_dump_size`, up to its first call. -/
def stepWrite (t : Nat) (n : DumpName) (size : UInt64) (st : Resizing) : Resizing :=
  st.goTo t (if st.dumpSize n = 0 then .registering .only n size else .getting n size)

/-- `md_unregister_memory_dump`, as far as `msm_minidump_remove_region`. -/
def stepGetRegion (cfg : Config) (t : Nat) (n : DumpName) (size : UInt64) (st : Resizing) :
    Resizing :=
  let mdr := mdGetRegion cfg n.name st.system.driver
  st.goTo t (if mdr.virtAddr = 0 then .idle else .removing n size mdr)

def stepRemove (t : Nat) (alloc : Bool) (n : DumpName) (size : UInt64) (mdr : MdRegion)
    (st : Resizing) : Resizing :=
  let r := msmMinidumpRemoveRegion alloc mdr st.system.driver
  (st.setSystem (st.system.setDriver r.1)).goTo t
    (if r.2.isOk then .releasing n size mdr else .idle)

/-- `cma_release`, and what `update_dump_size` does then. -/
def stepRelease (t : Nat) (n : DumpName) (size : UInt64) (st : Resizing) : Resizing :=
  if size = 0 then ((st.setAddr n 0).setSize n 0).goTo t .idle
  else (st.setAddr n 0).goTo t (.registering .new n size)

/-- The number of bytes that is asked for. -/
def bytes (attempt : Attempt) (n : DumpName) (size : UInt64) (st : Resizing) : UInt64 :=
  match attempt with
  | .initial | .fallback => st.dumpSize n
  | .only | .new => megabytes size

/-- The region that `md_register_memory_dump` hands to minidump. -/
def entryFor (n : DumpName) (buffer : CmaBuffer) (size : Int) : MdRegion :=
  ⟨n.name, 0, buffer.virt, buffer.phys, UInt64.ofInt size⟩

/-- `md_register_memory_dump`. -/
def stepRegister (cfg : Config) (cma : CmaArea) (t : Nat) (buffer : Option CmaBuffer) (alloc : Bool)
    (attempt : Attempt) (n : DumpName) (size : UInt64) (st : Resizing) : Resizing :=
  let bytes := toInt (st.bytes attempt n size)
  if pageCount bytes = 0 ∨ cma.pages < pageCount bytes then
    st.goTo t (.registered attempt n size false)
  else
    match buffer with
    | none => st.goTo t (.registered attempt n size false)
    | some buffer =>
      let entry := entryFor n buffer bytes
      let next := st.setSystem (st.system.stepAdd cfg alloc entry)
      if (msmMinidumpAddRegion cfg alloc entry st.system.driver).2.isOk then
        (next.setAddr n buffer.virt).goTo t (.registered attempt n size true)
      else next.goTo t (.registered attempt n size false)

/-- `update_dump_size` after `md_register_memory_dump`. -/
def stepSettle (t : Nat) (attempt : Attempt) (n : DumpName) (size : UInt64) (ok : Bool)
    (st : Resizing) : Resizing :=
  match attempt, ok with
  | .only, true | .new, true => (st.setSize n (megabytes size)).goTo t .idle
  | .new, false => st.goTo t (.registering .fallback n size)
  | .fallback, false => (st.setSize n 0).goTo t .idle
  | _, _ => st.goTo t .idle

def step (cfg : Config) (p : Platform) (cma : CmaArea) (enabled : DumpName → Bool)
    (st : Resizing) : Move → Option Resizing
  | .work a => if a.isWork then (st.system.step cfg p a).map st.setSystem else none
  | .write t n size =>
    if enabled n ∧ st.place t = .idle then some (st.stepWrite t n size) else none
  | .getRegion t =>
    match st.place t with
    | .getting n size => some (st.stepGetRegion cfg t n size)
    | _ => none
  | .remove t alloc =>
    match st.place t with
    | .removing n size mdr => some (st.stepRemove t alloc n size mdr)
    | _ => none
  | .release t =>
    match st.place t with
    | .releasing n size _ => some (st.stepRelease t n size)
    | _ => none
  | .register t buffer alloc =>
    match st.place t with
    | .registering attempt n size => some (st.stepRegister cfg cma t buffer alloc attempt n size)
    | _ => none
  | .settle t =>
    match st.place t with
    | .registered attempt n size ok => some (st.stepSettle t attempt n size ok)
    | _ => none

end Resizing

/-- Minidump when the dumps are about to be registered: the others have added their regions, and
nothing waits.  There is room for four more. -/
structure Ready (cfg : Config) (p : Platform) (s : System) : Prop where
  reached : (minidumpSystem cfg p).Reach (fun s a =>
    (orderOk cfg s a = true ∧ registersHeader a = true) ∧ a.addsOnly = true) s
  done : s.driver.mdInitDone = true
  pending : s.driver.pendingList = []
  requests : s.requests = []
  names : ∀ n : DumpName, n.name ∉ rmNames s.driver
  room : s.driver.numRegions ≤ 192
  offset : s.driver.minidumpElfheader.elfOffset.toNat < 2 ^ 63

/-- **All interleavings** of the threads with the worker and the resource manager. -/
def resizeMachine (cfg : Config) (p : Platform) (cma : CmaArea) (enabled : DumpName → Bool) :
    Machine Resizing Move where
  init st := Ready cfg p st.system ∧ st.dumpAddr = (fun _ => 0) ∧
    st.dumpSize = DumpName.initialSize ∧
    ∀ t, st.place t = .idle ∨ ∃ n, enabled n = true ∧ st.place t = .registering .initial n 0
  step := Resizing.step cfg p cma enabled

/-! ## The law -/

/-- A slot that is live was registered for the entry of this name. -/
def HasSlot (s : System) (name : CStr) : Prop :=
  ∃ slotNum ∈ s.live, ∃ i id, i < s.driver.numRegions ∧
    (s.driver.minidumpRmTable.entry i).name = name ∧ s.history.ids[i]? = some id ∧
    s.history.owner slotNum = some id

/-- A program header that is in use has this address, as its virtual or as its physical one. -/
def HasHeader (h : MdElfhdr) (addr : UInt64) : Prop :=
  ∃ j, j < ePhnum h.ehdr ∧ (read64 h.ehdr (elfProgram h.ehdr j + Off.pVaddr) = addr ∨
    read64 h.ehdr (elfProgram h.ehdr j + Off.pPaddr) = addr)

/-- A region of this name would be accepted. -/
def CanRegister (cfg : Config) (d : Driver) (name : CStr) : Prop :=
  ∃ (alloc : Bool) (e : MdRegion) (regno : Nat), e.name = name ∧
    (msmMinidumpAddRegion cfg alloc e d).2 = .ok regno

/-- **A buffer that goes to `cma_release` is not described any more**, by a slot or by a program
header, and a dump that was unregistered can be registered again. -/
structure Lawful (cfg : Config) (st : Resizing) : Prop where
  release : ∀ t n size mdr, st.place t = .releasing n size mdr →
    ¬ HasSlot st.system n.name ∧ ¬ HasHeader st.system.driver.minidumpElfheader mdr.virtAddr
  again : ∀ t n size, st.place t = .registering .new n size ∨
    st.place t = .registering .fallback n size → CanRegister cfg st.system.driver n.name

/-- The thread has come past its unregister step, and is about to release the buffer or to register
the dump again. -/
def Place.unregistered : Place → Bool
  | .releasing _ _ _ | .registering .new _ _ | .registering .fallback _ _ => true
  | _ => false

/-! ## The dumps among the regions -/

/-- What `md_get_region` returns for a region with headers. -/
def exchanged (r : MdRegion) : MdRegion := ⟨r.name, 0, r.physAddr, r.virtAddr, r.size⟩

/-- The region of a dump. -/
structure DumpRegion (r : MdRegion) : Prop where
  named : ∃ n : DumpName, r.name = n.name
  ne : r.virtAddr ≠ r.physAddr
  small : r.size.toNat < 2 ^ 31
  aligned : r.size % 4 = 0

/-- The requests of the dumps: to add a region, or to remove one that is complete. -/
def DumpRequest (D : List MdRegion) (q : MdRmRequest) : Prop :=
  (q.workCmd = .minidumpAdd ∧ DumpRegion q.entry) ∨
    (q.workCmd = .minidumpRemove ∧ ∃ r ∈ D, q.entry = exchanged r)

/-- The regions of others. -/
structure Others (R₀ : List MdRegion) : Prop where
  names : ∀ n : DumpName, n.name ∉ R₀.map MdRegion.name
  room : R₀.length ≤ 192
  offset : elfhSize + (R₀.map (fun r => r.size.toNat)).sum < 2 ^ 63

/-- **Minidump with the dumps** `D` behind the regions `R₀` of others. -/
structure Dumped (cfg : Config) (p : Platform) (R₀ D : List MdRegion) (s : System) : Prop where
  reach : (rmRecorded cfg p).Reach
    (fun x a => orderOk cfg x.1 a = true ∧ registersHeader a = true) (s, R₀ ++ D)
  done : s.phase = .done
  pending : s.driver.pendingList = []
  unused : Unused (R₀ ++ D).length s.driver.minidumpElfheader
  dumps : ∀ r ∈ D, DumpRegion r
  requests : ∀ q ∈ s.requests, DumpRequest D q

theorem DumpRequest.mono {D D' : List MdRegion} (hsub : D ⊆ D') {q : MdRmRequest}
    (h : DumpRequest D q) : DumpRequest D' q := by
  rcases h with hadd | ⟨hcmd, r, hr, hentry⟩
  · exact Or.inl hadd
  · exact Or.inr ⟨hcmd, r, hsub hr, hentry⟩

/-- There are four dumps. -/
theorem dumps_length_le {L : List MdRegion} (hnd : (L.map MdRegion.name).Nodup)
    (h : ∀ r ∈ L, DumpRegion r) : L.length ≤ 4 := by
  have hsub : L.map MdRegion.name ⊆
      [DumpName.pageowner.name, DumpName.slabowner.name, DumpName.dmaInfo.name,
        DumpName.dmaProc.name] := by
    intro name hname
    obtain ⟨r, hr, rfl⟩ := List.mem_map.mp hname
    obtain ⟨n, hn⟩ := (h r hr).named
    rw [hn]
    cases n <;> simp only [List.mem_cons, true_or, or_true]
  have hle := (List.subperm_of_subset hnd hsub).length_le
  rw [List.length_map] at hle
  exact hle

theorem mem_adding {s : System} {e : MdRegion} (h : e ∈ s.adding) :
    (⟨e, .minidumpAdd⟩ : MdRmRequest) ∈ s.requests := by
  obtain ⟨q, hq, hadds⟩ := List.mem_filterMap.mp h
  obtain ⟨entry, workCmd⟩ := q
  rw [MdRmRequest.adds] at hadds
  split at hadds
  case isTrue hcmd =>
    cases hadds
    cases hcmd
    exact hq
  case isFalse => cases hadds

namespace Dumped

variable {cfg : Config} {p : Platform} {R₀ D : List MdRegion} {s t : System} {a : Action}

section

variable (hp : p.rm = true) (h : Dumped cfg p R₀ D s)

include hp h

theorem frame : RmFrame s := (orderInv_reach hp h.reach).frame

theorem order : InOrder cfg p.addrs (R₀ ++ D) s := by
  refine (orderInv_reach hp h.reach).late ?_ h.pending
  rw [h.done]
  rfl

theorem initDone : s.driver.mdInitDone = true := by
  rw [(h.frame hp).initDone, h.done]
  rfl

/-- What `md_get_region` returns. -/
theorem getRegion (ho : Others R₀) (n : DumpName) :
    (mdGetRegion cfg n.name s.driver).virtAddr = 0 ∨ ∃ r ∈ D, r.name = n.name ∧
      mdGetRegion cfg n.name s.driver = exchanged r := by
  have halloc := allocated_reach hp h.reach.forget (by rw [h.done]; rfl)
  rcases (h.order hp).getRegion_cases h.unused ((h.frame hp).rm (h.initDone hp)) halloc n.name with
    hzero | ⟨r, hr, hname, hget⟩
  · exact Or.inl hzero
  · rcases List.mem_append.mp hr with hother | hdump
    · exact absurd (List.mem_map.mpr ⟨r, hother, hname⟩) (ho.names n)
    · exact Or.inr ⟨r, hdump, hname, hget⟩

omit hp in
/-- The regions that wait for the worker are dumps too. -/
theorem adding : ∀ r ∈ D ++ s.adding, DumpRegion r := by
  intro r hr
  rcases List.mem_append.mp hr with hold | hadding
  · exact h.dumps r hold
  · rcases h.requests _ (mem_adding hadding) with ⟨-, hdump⟩ | ⟨hcmd, -⟩
    · exact hdump
    · cases hcmd

theorem numRegions_le (ho : Others R₀) :
    D.length ≤ 4 ∧ s.driver.numRegions ≤ 196 := by
  have horder := h.order hp
  have hnd := horder.distinct
  have hlen := rmNames_length s.driver
  rw [horder.names, List.append_assoc] at hnd hlen
  rw [List.map_append] at hnd
  have hfour := dumps_length_le hnd.of_append_right h.adding
  have hroom := ho.room
  rw [List.length_map, List.length_append] at hlen
  rw [List.length_append] at hfour hlen
  omega

theorem offset_lt (ho : Others R₀) :
    s.driver.minidumpElfheader.elfOffset.toNat < 2 ^ 63 + 2 ^ 33 := by
  have hfour := (h.numRegions_le hp ho).1
  have hoffset := ho.offset
  have hsum : (D.map (fun r => r.size.toNat)).sum ≤ D.length * 2 ^ 31 := by
    have hle := List.sum_le_card_nsmul (D.map (fun r => r.size.toNat)) (2 ^ 31) (by
      intro n hn
      obtain ⟨r, hr, rfl⟩ := List.mem_map.mp hn
      exact Nat.le_of_lt (h.dumps r hr).small)
    rw [List.length_map] at hle
    exact hle
  rw [(h.order hp).elfOffset_toNat, List.map_append, List.sum_append]
  omega

/-- **No headers are found for a removal**: the addresses in it are exchanged. -/
theorem lookup_none {e : MdRegion} (he : (⟨e, .minidumpRemove⟩ : MdRmRequest) ∈ s.requests) :
    clearLookup e s.driver.minidumpElfheader = none := by
  have horder := h.order hp
  rcases h.requests _ he with ⟨hcmd, -⟩ | ⟨-, r, hr, hentry⟩
  · cases hcmd
  cases hlookup : clearLookup e s.driver.minidumpElfheader with
  | none => rfl
  | some ps =>
    rw [horder.elf.lookup] at hlookup
    have hentry' : e = exchanged r := hentry
    subst hentry'
    have haligned : (exchanged r).size % 4 = 0 := (h.dumps r hr).aligned
    obtain ⟨j, hj, -, -, hsame⟩ := lookup_imageOf_some p.addrs horder.fits haligned hlookup
    obtain ⟨i, hi, hri⟩ := List.getElem_of_mem (List.mem_append_right R₀ hr)
    -- the region of that name is the one the request came from
    have hij : i = j := names_inj horder.regions_distinct hi hj (by rw [hri]; exact hsame.name)
    subst hij
    rw [hri] at hsame
    exact absurd hsame.virtAddr.symm (h.dumps r hr).ne

/-- The request that the worker is busy with is neither an update nor a removal that would find
headers. -/
theorem worker : (∀ e i n, s.worker ≠ .updateFinish e i n) ∧
    ∀ e i, s.worker = .removeFinish e i → clearLookup e s.driver.minidumpElfheader = none := by
  have hmem : ∀ q, s.worker.request = some q → q ∈ s.requests := by
    intro q hq
    rw [System.requests, hq]
    exact List.mem_cons_self
  constructor
  · intro e i n hw
    rcases h.requests ⟨e, .minidumpUpdate⟩ (hmem _ (by rw [hw]; rfl)) with ⟨hcmd, -⟩ | ⟨hcmd, -⟩
    · cases hcmd
    · cases hcmd
  · intro e i hw
    exact h.lookup_none hp (hmem _ (by rw [hw]; rfl))

/-- **The record only grows**, by dumps. -/
theorem completed (heffect : OrderEffect cfg s a t) :
    ∃ D', s.completed a t (R₀ ++ D) = R₀ ++ D' ∧ D ⊆ D' ∧ ∀ r ∈ D', DumpRegion r := by
  have hsame : s.completed a t (R₀ ++ D) = R₀ ++ D →
      ∃ D', s.completed a t (R₀ ++ D) = R₀ ++ D' ∧ D ⊆ D' ∧ ∀ r ∈ D', DumpRegion r := by
    intro hnote
    exact ⟨D, hnote, List.Subset.refl D, h.dumps⟩
  cases heffect with
  | quiet _ _ _ hnote => exact hsame (hnote _)
  | queue _ _ _ _ _ hnote => exact hsame (hnote _)
  | push => exact hsame rfl
  | ended _ _ _ _ hnote => exact hsame (hnote _)
  | lost => exact hsame rfl
  | refused hw =>
    apply hsame
    simp only [System.completed, hw]
  | @added e i slotNum _ hw _ _ hrequests =>
    refine ⟨D ++ [e], ?_, List.subset_append_left D [e], ?_⟩
    · simp only [System.completed, hw, List.append_assoc]
    · intro r hr
      rcases List.mem_append.mp hr with hold | hnew
      · exact h.dumps r hold
      · cases List.mem_singleton.mp hnew
        have he : (⟨e, .minidumpAdd⟩ : MdRmRequest) ∈ s.requests := by
          rw [hrequests]
          exact List.mem_cons_self
        rcases h.requests _ he with ⟨-, hdump⟩ | ⟨hcmd, -⟩
        · exact hdump
        · cases hcmd
  | updated hw => exact absurd hw ((h.worker hp).1 _ _ _)
  | removed hw _ hlookup =>
    rw [(h.worker hp).2 _ _ hw] at hlookup
    cases hlookup

/-- **A step of minidump**, by the worker or on behalf of a dump. -/
theorem step (hok : orderOk cfg s a = true) (hreg : registersHeader a = true)
    (hstep : s.step cfg p a = some t)
    (hrequests : ∀ q ∈ t.requests, q ∈ s.requests ∨ DumpRequest D q) :
    ∃ D', D ⊆ D' ∧ Dumped cfg p R₀ D' t := by
  obtain ⟨hdone, hpending⟩ := done_step (h.frame hp) h.done hstep
  have hpending' : t.driver.pendingList = [] := hpending.trans h.pending
  obtain ⟨heffect, -⟩ := order_step (h.frame hp) (by rw [h.done]; rfl) hstep hpending'
  obtain ⟨D', hnote, hsub, hdumps⟩ := h.completed hp heffect
  obtain ⟨hupdate, hremove⟩ := h.worker hp
  have hunused := unused_effect (h.order hp) h.unused heffect hupdate hremove
  have hrecorded : (rmRecorded cfg p).step (s, R₀ ++ D) a =
      some (t, s.completed a t (R₀ ++ D)) :=
    congrArg (Option.map (fun t => (t, s.completed a t (R₀ ++ D)))) hstep
  rw [hnote] at hunused hrecorded
  refine ⟨D', hsub, .step h.reach ⟨hok, hreg⟩ hrecorded, hdone, hpending', hunused, hdumps, ?_⟩
  intro q hq
  rcases hrequests q hq with hold | hnew
  · exact (h.requests q hold).mono hsub
  · exact hnew.mono hsub

/-- A step of the worker, whatever the resource manager answers. -/
theorem step_work (ho : Others R₀) (hwork : a.isWork = true) (hstep : s.step cfg p a = some t) :
    ∃ D', D ⊆ D' ∧ Dumped cfg p R₀ D' t := by
  refine h.step hp ?_ ?_ hstep
    (fun q hq => Or.inl (mem_requests_work (h.frame hp) hwork hstep q hq))
  · cases a with
    | finish =>
      rw [orderOk]
      split
      case h_1 e i slotNum hw =>
        have he : (⟨e, .minidumpAdd⟩ : MdRmRequest) ∈ s.requests := by
          rw [System.requests, hw]
          exact List.mem_cons_self
        have hoffset := h.offset_lt hp ho
        rcases h.requests _ he with ⟨-, hdump⟩ | ⟨hcmd, -⟩
        · have hsmall : e.size.toNat < 2 ^ 31 := hdump.small
          apply decide_eq_true
          omega
        · cases hcmd
      case h_2 => rfl
    | dequeue => rfl
    | register reply => rfl
    | deregister ok => rfl
    | _ => cases hwork
  · cases a with
    | probeHeader reply => cases hwork
    | _ => rfl

/-- A dump is taken out, with the region that `md_get_region` returned. -/
theorem step_remove (alloc : Bool) {r : MdRegion} (hr : r ∈ D) :
    ∃ D', D ⊆ D' ∧ Dumped cfg p R₀ D'
      (s.setDriver (msmMinidumpRemoveRegion alloc (exchanged r) s.driver).1) := by
  refine h.step hp (a := .remove alloc (exchanged r)) ?_ rfl rfl ?_
  · exact decide_eq_true (h.dumps r hr).aligned
  · intro q hq
    rcases mem_requests_remove (h.frame hp) alloc (exchanged r) q hq with hold | rfl
    · exact Or.inl hold
    · exact Or.inr (Or.inr ⟨rfl, r, hr, rfl⟩)

/-- A dump is registered. -/
theorem step_add (ho : Others R₀) (cma : CmaArea) (alloc : Bool) (n : DumpName) (buffer : CmaBuffer)
    (size : UInt64) (hcount : pageCount (toInt size) ≠ 0)
    (hroom : pageCount (toInt size) ≤ cma.pages) :
    ∃ D', D ⊆ D' ∧ Dumped cfg p R₀ D'
      (s.stepAdd cfg alloc (Resizing.entryFor n buffer (toInt size))) := by
  obtain ⟨hlow, hhigh⟩ := toInt_range size
  have hpos := pos_of_pageCount hlow hcount hroom
  have hnat := toNat_ofInt_of_pos hpos hhigh
  refine h.step hp (a := .add alloc (Resizing.entryFor n buffer (toInt size))) ?_ rfl rfl ?_
  · have hnum := (h.numRegions_le hp ho).2
    have hsize : 0 < UInt64.ofInt (toInt size) := by
      rw [UInt64.lt_iff_toNat_lt]
      have hzero : (0 : UInt64).toNat = 0 := rfl
      omega
    rw [orderOk, h.initDone hp, Bool.true_or, Bool.and_true, Bool.or_eq_true, Bool.and_eq_true]
    exact Or.inr ⟨decide_eq_true (by omega), decide_eq_true hsize⟩
  · intro q hq
    rcases mem_requests_add (h.frame hp) alloc _ q hq with hold | ⟨rfl, hv⟩
    · exact Or.inl hold
    · refine Or.inr (Or.inl ⟨rfl, ⟨n, rfl⟩, buffer.ne, ?_, ?_⟩)
      · have hsize : (Resizing.entryFor n buffer (toInt size)).size = UInt64.ofInt (toInt size) := rfl
        rw [hsize]
        omega
      · exact (validateRegion_eq_ok.mp hv).2.2

end

end Dumped

/-! ## Every run -/

/-- What a thread knows about the dump it works on: once it was found, it is complete. -/
def Place.Sound (D : List MdRegion) : Place → Prop
  | .removing n _ mdr | .releasing n _ mdr => ∃ r ∈ D, r.name = n.name ∧ mdr = exchanged r
  | .registering attempt n _ | .registered attempt n _ _ =>
    attempt = .new ∨ attempt = .fallback → ∃ r ∈ D, r.name = n.name
  | .idle | .getting _ _ => True

/-- **What holds along every run.** -/
structure ResizeInv (cfg : Config) (p : Platform) (R₀ D : List MdRegion) (st : Resizing) : Prop where
  dumped : Dumped cfg p R₀ D st.system
  sound : ∀ t, (st.place t).Sound D

theorem Place.Sound.mono {D D' : List MdRegion} (hsub : D ⊆ D') {place : Place}
    (h : place.Sound D) : place.Sound D' := by
  cases place with
  | idle => trivial
  | getting n size => trivial
  | removing n size mdr =>
    obtain ⟨r, hr, hname, hmdr⟩ := h
    exact ⟨r, hsub hr, hname, hmdr⟩
  | releasing n size mdr =>
    obtain ⟨r, hr, hname, hmdr⟩ := h
    exact ⟨r, hsub hr, hname, hmdr⟩
  | registering attempt n size =>
    intro hattempt
    obtain ⟨r, hr, hname⟩ := h hattempt
    exact ⟨r, hsub hr, hname⟩
  | registered attempt n size ok =>
    intro hattempt
    obtain ⟨r, hr, hname⟩ := h hattempt
    exact ⟨r, hsub hr, hname⟩

namespace ResizeInv

variable {cfg : Config} {p : Platform} {cma : CmaArea} {R₀ D : List MdRegion} {st : Resizing}

theorem soundAt (h : ResizeInv cfg p R₀ D st) {t : Nat} {place : Place}
    (hplace : st.place t = place) : place.Sound D := by
  rw [← hplace]
  exact h.sound t

theorem goTo (h : ResizeInv cfg p R₀ D st) (t : Nat) {place : Place} (hplace : place.Sound D) :
    ResizeInv cfg p R₀ D (st.goTo t place) := by
  refine ⟨h.dumped, ?_⟩
  intro t'
  simp only [Resizing.goTo]
  by_cases heq : t' = t
  · rw [heq, Function.update_self]
    exact hplace
  · rw [Function.update_of_ne heq]
    exact h.sound t'

/-- The variables of the dumps do not matter. -/
theorem setAddr (h : ResizeInv cfg p R₀ D st) (n : DumpName) (addr : UInt64) :
    ResizeInv cfg p R₀ D (st.setAddr n addr) := ⟨h.dumped, h.sound⟩

theorem setSize (h : ResizeInv cfg p R₀ D st) (n : DumpName) (size : UInt64) :
    ResizeInv cfg p R₀ D (st.setSize n size) := ⟨h.dumped, h.sound⟩

theorem setSystem (h : ResizeInv cfg p R₀ D st) {s : System}
    (hs : ∃ D', D ⊆ D' ∧ Dumped cfg p R₀ D' s) :
    ∃ D', D ⊆ D' ∧ ResizeInv cfg p R₀ D' (st.setSystem s) := by
  obtain ⟨D', hsub, hdumped⟩ := hs
  exact ⟨D', hsub, hdumped, fun t => (h.sound t).mono hsub⟩

section

variable (hp : p.rm = true) (ho : Others R₀) (h : ResizeInv cfg p R₀ D st)

include hp ho h

theorem stepGetRegion (t : Nat) (n : DumpName) (size : UInt64) :
    ResizeInv cfg p R₀ D (st.stepGetRegion cfg t n size) := by
  apply h.goTo
  rcases h.dumped.getRegion hp ho n with hzero | ⟨r, hr, hname, hget⟩
  · rw [if_pos hzero]
    trivial
  · split
    · trivial
    · exact ⟨r, hr, hname, hget⟩

theorem stepRegister (t : Nat) (buffer : Option CmaBuffer) (alloc : Bool) {attempt : Attempt}
    {n : DumpName} {size : UInt64} (hplace : st.place t = .registering attempt n size) :
    ∃ D', ResizeInv cfg p R₀ D' (st.stepRegister cfg cma t buffer alloc attempt n size) := by
  have hsound := h.soundAt hplace
  -- what the thread knows is the same before and after the call
  have hafter : ∀ {D' : List MdRegion} (ok : Bool), D ⊆ D' →
      (Place.registered attempt n size ok).Sound D' := fun ok hsub => hsound.mono hsub
  unfold Resizing.stepRegister
  dsimp only
  split
  · exact ⟨D, h.goTo t (hafter false (List.Subset.refl D))⟩
  case isFalse hcount =>
    cases buffer with
    | none => exact ⟨D, h.goTo t (hafter false (List.Subset.refl D))⟩
    | some buffer =>
      obtain ⟨D', hsub, hnext⟩ := h.setSystem (h.dumped.step_add hp ho cma alloc n buffer
        (st.bytes attempt n size) (by omega) (by omega))
      dsimp only
      split
      · exact ⟨D', (hnext.setAddr n buffer.virt).goTo t (hafter true hsub)⟩
      · exact ⟨D', hnext.goTo t (hafter false hsub)⟩

end

theorem stepRemove (hp : p.rm = true) (h : ResizeInv cfg p R₀ D st) (t : Nat) (alloc : Bool)
    {n : DumpName} {size : UInt64} {mdr : MdRegion}
    (hplace : st.place t = .removing n size mdr) :
    ∃ D', ResizeInv cfg p R₀ D' (st.stepRemove t alloc n size mdr) := by
  obtain ⟨r, hr, hname, rfl⟩ := h.soundAt hplace
  obtain ⟨D', hsub, hnext⟩ := h.setSystem (h.dumped.step_remove hp alloc hr)
  refine ⟨D', hnext.goTo t ?_⟩
  split
  · exact ⟨r, hsub hr, hname, rfl⟩
  · trivial

theorem stepRelease (h : ResizeInv cfg p R₀ D st) (t : Nat) {n : DumpName} {size : UInt64}
    {mdr : MdRegion} (hplace : st.place t = .releasing n size mdr) :
    ResizeInv cfg p R₀ D (st.stepRelease t n size) := by
  obtain ⟨r, hr, hname, -⟩ := h.soundAt hplace
  unfold Resizing.stepRelease
  split
  · exact ((h.setAddr n 0).setSize n 0).goTo t trivial
  · exact (h.setAddr n 0).goTo t (fun _ => ⟨r, hr, hname⟩)

theorem stepSettle (h : ResizeInv cfg p R₀ D st) (t : Nat) {attempt : Attempt} {n : DumpName}
    {size : UInt64} {ok : Bool} (hplace : st.place t = .registered attempt n size ok) :
    ResizeInv cfg p R₀ D (st.stepSettle t attempt n size ok) := by
  have hsound := h.soundAt hplace
  unfold Resizing.stepSettle
  split
  · exact (h.setSize n (megabytes size)).goTo t trivial
  · exact (h.setSize n (megabytes size)).goTo t trivial
  · exact h.goTo t (fun _ => hsound (Or.inl rfl))
  · exact (h.setSize n 0).goTo t trivial
  · exact h.goTo t trivial

/-- **One step**, of a thread, the worker, or the resource manager. -/
theorem step (hp : p.rm = true) (ho : Others R₀) (h : ResizeInv cfg p R₀ D st)
    {enabled : DumpName → Bool} {m : Move} {st' : Resizing}
    (hstep : st.step cfg p cma enabled m = some st') : ∃ D', ResizeInv cfg p R₀ D' st' := by
  cases m with
  | work a =>
    simp only [Resizing.step] at hstep
    split at hstep
    case isFalse => cases hstep
    case isTrue hwork =>
      obtain ⟨s, hs, rfl⟩ := Option.map_eq_some_iff.mp hstep
      obtain ⟨D', -, hnext⟩ := h.setSystem (h.dumped.step_work hp ho hwork hs)
      exact ⟨D', hnext⟩
  | write t n size =>
    simp only [Resizing.step] at hstep
    split at hstep
    case isFalse => cases hstep
    case isTrue =>
      cases hstep
      refine ⟨D, h.goTo t ?_⟩
      split
      · rintro (hattempt | hattempt) <;> cases hattempt
      · trivial
  | getRegion t =>
    simp only [Resizing.step] at hstep
    split at hstep
    case h_1 n size _ =>
      rw [← Option.some.inj hstep]
      exact ⟨D, h.stepGetRegion hp ho t n size⟩
    case h_2 => cases hstep
  | remove t alloc =>
    simp only [Resizing.step] at hstep
    split at hstep
    case h_1 hplace =>
      rw [← Option.some.inj hstep]
      exact h.stepRemove hp t alloc hplace
    case h_2 => cases hstep
  | release t =>
    simp only [Resizing.step] at hstep
    split at hstep
    case h_1 hplace =>
      rw [← Option.some.inj hstep]
      exact ⟨D, h.stepRelease t hplace⟩
    case h_2 => cases hstep
  | register t buffer alloc =>
    simp only [Resizing.step] at hstep
    split at hstep
    case h_1 hplace =>
      rw [← Option.some.inj hstep]
      exact h.stepRegister hp ho t buffer alloc hplace
    case h_2 => cases hstep
  | settle t =>
    simp only [Resizing.step] at hstep
    split at hstep
    case h_1 hplace =>
      rw [← Option.some.inj hstep]
      exact ⟨D, h.stepSettle t hplace⟩
    case h_2 => cases hstep

end ResizeInv

section Runs

variable {cfg : Config} {p : Platform} {cma : CmaArea} {enabled : DumpName → Bool} {st : Resizing}

/-- Before the first dump is registered. -/
theorem Ready.dumped (hp : p.rm = true) {s : System} (h : Ready cfg p s) :
    ∃ R₀, Others R₀ ∧ Dumped cfg p R₀ [] s := by
  obtain ⟨R₀, hreach⟩ := h.reached.recorded System.completed []
  have hreach' : (rmRecorded cfg p).Reach
      (fun x a => orderOk cfg x.1 a = true ∧ registersHeader a = true) (s, R₀) :=
    hreach.mono (fun _ _ hok => hok.1)
  have hinv := orderInv_reach hp hreach'
  have hdone : s.phase = .done := hinv.frame.done h.done
  have hlate : s.phase.late = true := by
    rw [hdone]
    rfl
  have horder : InOrder cfg p.addrs R₀ s := hinv.late hlate h.pending
  have hadding := adding_reach hp hreach hlate h.pending
  have hnames : rmNames s.driver = R₀.map MdRegion.name := by
    rw [horder.names, System.adding, h.requests, List.filterMap_nil, List.append_nil]
  refine ⟨R₀, ⟨?_, ?_, ?_⟩, ?_, hdone, h.pending, ?_, ?_, ?_⟩
  · rw [← hnames]
    exact h.names
  · have hlen := rmNames_length s.driver
    rw [hnames, List.length_map] at hlen
    rw [hlen]
    exact h.room
  · rw [← horder.elfOffset_toNat]
    exact h.offset
  · rw [List.append_nil]
    exact hreach'
  · rw [List.append_nil]
    exact hadding.unused
  · intro r hr
    cases hr
  · intro q hq
    rw [h.requests] at hq
    cases hq

/-- **Every state reached.** -/
theorem resizeInv_reach (hp : p.rm = true)
    (h : (resizeMachine cfg p cma enabled).Reach (fun _ _ => True) st) :
    ∃ R₀ D, Others R₀ ∧ ResizeInv cfg p R₀ D st := by
  refine h.invariant (I := fun st => ∃ R₀ D, Others R₀ ∧ ResizeInv cfg p R₀ D st) ?_ ?_
  · rintro st ⟨hready, -, -, hplaces⟩
    obtain ⟨R₀, ho, hdumped⟩ := hready.dumped hp
    refine ⟨R₀, [], ho, hdumped, ?_⟩
    intro t
    rcases hplaces t with hidle | ⟨n, -, hfirst⟩
    · rw [hidle]
      trivial
    · rw [hfirst]
      rintro (hattempt | hattempt) <;> cases hattempt
  · rintro st m st' ⟨R₀, D, ho, hinv⟩ - hstep
    obtain ⟨D', hinv'⟩ := hinv.step hp ho hstep
    exact ⟨R₀, D', ho, hinv'⟩

/-- A complete dump has a program header, which describes its buffer. -/
theorem Dumped.hasHeader (hp : p.rm = true) {R₀ D : List MdRegion} {s : System}
    (h : Dumped cfg p R₀ D s) {r : MdRegion} (hr : r ∈ D) :
    HasHeader s.driver.minidumpElfheader (exchanged r).virtAddr := by
  have horder := h.order hp
  obtain ⟨i, hi, hri⟩ := List.getElem_of_mem (List.mem_append_right R₀ hr)
  have hheaders := horder.elf.headersOf hi
  refine ⟨i + 1, ?_, Or.inr ?_⟩
  · rw [horder.elf.phnum, imageOf_programs_length]
    omega
  · rw [hheaders.pPaddr, hri]
    rfl

theorem Dumped.mem_names (hp : p.rm = true) {R₀ D : List MdRegion} {s : System}
    (h : Dumped cfg p R₀ D s) {r : MdRegion} (hr : r ∈ D) : r.name ∈ rmNames s.driver := by
  rw [(h.order hp).names_eq]
  exact List.mem_append_left _ (List.mem_map.mpr ⟨r, List.mem_append_right R₀ hr, rfl⟩)

/-- A complete dump has its entry, so that its name is refused. -/
theorem Dumped.not_canRegister (hp : p.rm = true) {R₀ D : List MdRegion} {s : System}
    (h : Dumped cfg p R₀ D s) {r : MdRegion} (hr : r ∈ D) : ¬ CanRegister cfg s.driver r.name := by
  rintro ⟨alloc, e, regno, hname, hok⟩
  have hdone := h.initDone hp
  have hrm := (h.frame hp).rm hdone
  rcases add_paths cfg alloc e s.driver with
    ⟨err, hr'⟩ | ⟨-, -, ⟨hsmem, -⟩ | ⟨-, -, hm, -⟩ | ⟨-, hwait, -⟩⟩
  · rw [hr'] at hok
    cases hok
  · rw [hrm] at hsmem
    cases hsmem
  · apply not_mem_of_error hm
    rw [hname]
    exact h.mem_names hp hr
  · rw [hwait hrm] at hdone
    cases hdone

/-- So the removal of a complete dump is queued, if there is memory for the request. -/
theorem Dumped.remove_isOk (hp : p.rm = true) {R₀ D : List MdRegion} {s : System}
    (h : Dumped cfg p R₀ D s) {r : MdRegion} (hr : r ∈ D) (alloc : Bool) :
    (msmMinidumpRemoveRegion alloc (exchanged r) s.driver).2.isOk = alloc := by
  have hdone := h.initDone hp
  have hrm := (h.frame hp).rm hdone
  rw [msmMinidumpRemoveRegion, hdone, hrm, Bool.not_true, if_neg Bool.false_ne_true, Bool.false_and,
    if_neg Bool.false_ne_true, if_pos rfl, mdRmRemoveRegion, mdRmRequest]
  cases hm : mdRmEntryNum s.driver (exchanged r) with
  | ok i => cases alloc <;> rfl
  | error err => exact absurd (h.mem_names hp hr) (not_mem_of_error hm)

theorem ResizeInv.lawful_iff (hp : p.rm = true) {R₀ D : List MdRegion}
    (hinv : ResizeInv cfg p R₀ D st) :
    Lawful cfg st ↔ ∀ t, (st.place t).unregistered = false := by
  constructor
  · intro hlaw t
    cases hplace : st.place t with
    | releasing n size mdr =>
      obtain ⟨r, hr, -, rfl⟩ := hinv.soundAt hplace
      exact absurd (hinv.dumped.hasHeader hp hr) (hlaw.release t n size _ hplace).2
    | registering attempt n size =>
      -- a thread that registers again knows that the dump is complete
      have hagain : attempt = .new ∨ attempt = .fallback →
          CanRegister cfg st.system.driver n.name → False := by
        intro hattempt hcan
        obtain ⟨r, hr, hname⟩ := hinv.soundAt hplace hattempt
        rw [← hname] at hcan
        exact hinv.dumped.not_canRegister hp hr hcan
      cases attempt with
      | initial => rfl
      | only => rfl
      | new => exact (hagain (Or.inl rfl) (hlaw.again t n size (Or.inl hplace))).elim
      | fallback => exact (hagain (Or.inr rfl) (hlaw.again t n size (Or.inr hplace))).elim
    | _ => rfl
  · intro hnone
    have hnot : ∀ {t : Nat} {place : Place}, st.place t = place → place.unregistered = false := by
      intro t place hplace
      rw [← hplace]
      exact hnone t
    refine ⟨?_, ?_⟩
    · intro t n size mdr hplace
      cases hnot hplace
    · rintro t n size (hplace | hplace)
      · cases hnot hplace
      · cases hnot hplace

/-- **The law is broken whenever it applies.**  In every state reached it holds if no thread has come
past its unregister step; if one has, the buffer it releases still has its program header, and the
name it registers is still taken.  And a thread that has found its dump comes past that step exactly
when there is memory for the request. -/
theorem resize_lawful_iff (hp : p.rm = true)
    (h : (resizeMachine cfg p cma enabled).Reach (fun _ _ => True) st) :
    (Lawful cfg st ↔ ∀ t, (st.place t).unregistered = false) ∧
    ∀ t n size mdr alloc, st.place t = .removing n size mdr →
      ((st.stepRemove t alloc n size mdr).place t).unregistered = alloc := by
  obtain ⟨R₀, D, -, hinv⟩ := resizeInv_reach hp h
  refine ⟨hinv.lawful_iff hp, ?_⟩
  intro t n size mdr alloc hplace
  obtain ⟨r, hr, -, rfl⟩ := hinv.soundAt hplace
  simp only [Resizing.stepRemove, Resizing.goTo, Function.update_self,
    hinv.dumped.remove_isOk hp hr alloc]
  cases alloc <;> rfl

end Runs

/-! ## A dump that is made larger -/

/-- Nothing is registered yet, and a thread is about to register the dump of the page owners. -/
def Resizing.start (s : System) : Resizing :=
  ⟨s, fun _ => 0, DumpName.initialSize,
    fun t => if t = 0 then .registering .initial .pageowner 0 else .idle⟩

/-- An area of sixteen megabytes. -/
def CmaArea.plain : CmaArea := ⟨4096, by decide⟩

/-- The dump is registered and completed by the worker, and then taken out for a larger one. -/
def growMoves : List Move :=
  [.register 0 (some ⟨0xffffff8001000000, 0x81000000, by decide⟩) true, .settle 0, .work .dequeue,
    .work (.register (some 1)), .work .finish, .write 0 .pageowner 4, .getRegion 0, .remove 0 true]

/-- Minidump after a probe with nothing waiting. -/
def probedSystem : Option System :=
  rmRun (fun s a => orderOk Config.plain s a && registersHeader a && a.addsOnly) []

theorem ready_plain {s : System} (h : probedSystem = some s) :
    Ready Config.plain (Platform.plain true) s := by
  have hall : probedSystem.any (fun s => s.driver.mdInitDone && decide (s.driver.pendingList = []) && decide (s.requests = []) &&
        decide (s.driver.numRegions = 0) &&
        decide (s.driver.minidumpElfheader.elfOffset = 27888)) = true := by decide +kernel
  rw [h, Option.any_some, Bool.and_eq_true, Bool.and_eq_true, Bool.and_eq_true,
    Bool.and_eq_true] at hall
  obtain ⟨⟨⟨⟨hdone, hpending⟩, hrequests⟩, hnum⟩, hoffset⟩ := hall
  have hnum' : s.driver.numRegions = 0 := of_decide_eq_true hnum
  refine ⟨?_, hdone, of_decide_eq_true hpending, of_decide_eq_true hrequests, ?_, by omega, ?_⟩
  · refine .of_run ?_ (.init rfl) h
    intro s a hpass
    rw [Bool.and_eq_true, Bool.and_eq_true] at hpass
    exact hpass
  · intro n hmem
    obtain ⟨i, hi, -⟩ := mem_rmNames.mp hmem
    omega
  · rw [of_decide_eq_true hoffset]
    decide

theorem start_reach {s : System} (h : probedSystem = some s) :
    (resizeMachine Config.plain (Platform.plain true) .plain (fun _ => true)).Reach
      (fun _ _ => True) (.start s) := by
  refine .init ⟨ready_plain h, rfl, rfl, ?_⟩
  intro t
  simp only [Resizing.start]
  split
  · exact Or.inr ⟨.pageowner, trivial, rfl⟩
  · exact Or.inl rfl

/-- The law holds before the first registration, and not when the dump is made larger. -/
theorem resize_lawful_iff_pageowner :
    let M := resizeMachine Config.plain (Platform.plain true) .plain (fun _ => true)
    ∃ s st, probedSystem = some s ∧ Lawful Config.plain (.start s) ∧
      M.run (fun _ _ => true) (.start s) growMoves = some st ∧ ¬ Lawful Config.plain st := by
  intro M
  have hrun : probedSystem.any (fun s =>
      (M.run (fun _ _ => true) (.start s) growMoves).any
        (fun st => (st.place 0).unregistered)) = true := by decide +kernel
  obtain ⟨s, hs, hgrow⟩ := (Option.any_eq_true _ _).mp hrun
  obtain ⟨st, hst, hplace⟩ := (Option.any_eq_true _ _).mp hgrow
  have hstart := start_reach hs
  refine ⟨s, st, hs, (resize_lawful_iff rfl hstart).1.mpr ?_, hst, ?_⟩
  · intro t
    simp only [Resizing.start]
    split <;> rfl
  · intro hlaw
    have hnot := (resize_lawful_iff rfl
      (.of_run (fun _ _ _ => trivial) hstart hst)).1.mp hlaw 0
    rw [hplace] at hnot
    cases hnot

/-- **The buffer is released while its program header is in use.**  The worker has not even looked at
the request. -/
theorem resize_not_lawful :
    ¬ ∀ st, (resizeMachine Config.plain (Platform.plain true) .plain (fun _ => true)).Reach
      (fun _ _ => True) st → Lawful Config.plain st := by
  intro h
  have hrun : probedSystem.any (fun s =>
      ((resizeMachine Config.plain (Platform.plain true) .plain (fun _ => true)).run
          (fun _ _ => true) (.start s) growMoves).any (fun st =>
        decide (st.place 0 = .releasing .pageowner 4
          ⟨DumpName.pageowner.name, 0, 0x81000000, 0xffffff8001000000, 0x200000⟩) &&
        decide (1 < ePhnum st.system.driver.minidumpElfheader.ehdr) &&
        decide (read64 st.system.driver.minidumpElfheader.ehdr
          (elfProgram st.system.driver.minidumpElfheader.ehdr 1 + Off.pPaddr) = 0x81000000))) =
      true := by decide +kernel
  obtain ⟨s, hs, hgrow⟩ := (Option.any_eq_true _ _).mp hrun
  obtain ⟨st, hst, hcheck⟩ := (Option.any_eq_true _ _).mp hgrow
  rw [Bool.and_eq_true, Bool.and_eq_true] at hcheck
  obtain ⟨⟨hplace, hnum⟩, haddr⟩ := hcheck
  have hlaw := h st (.of_run (fun _ _ _ => trivial) (start_reach hs) hst)
  exact (hlaw.release 0 _ _ _ (of_decide_eq_true hplace)).2
    ⟨1, of_decide_eq_true hnum, Or.inr (of_decide_eq_true haddr)⟩

end SafelinuxDbg.MinidumpMemory
