import SafelinuxDbg.Minidump.Driver

/-!
# The worker of the resource manager's queue

In RM mode the requests of the clients are carried out one by one by `minidump_rm_work`.  Each of
`md_rm_add_work`, `md_rm_update_work` and `md_rm_remove_work` takes the lock twice and calls the
resource manager in between without it, so other threads come in there.  The model cuts them at
these places: `Worker` says where the worker is, with the values it has in its local variables.

* `minidumpRmWork`: from taking a request to the first call.
* `Worker.registered`, `Worker.deregistered`: the answer of the resource manager.
* `Worker.finish`: the second time the lock is held.
-/

namespace SafelinuxDbg.Minidump

open CMemory

/-- Where the worker is.  In the states called `...Register` and `...Deregister` it is about to
call the resource manager, in the states called `...Finish` it is about to take the lock again. -/
inductive Worker
  | idle
  | addRegister (entry : MdRegion) (entryNum : Nat)
  | addFinish (entry : MdRegion) (entryNum : Nat) (reply : Option Nat)
  /-- the table is corrupt: the new slot is given back -/
  | addDeregister (entry : MdRegion) (entryNum : Nat) (slotNum : Nat)
  /-- and the headers are edited without the lock -/
  | addUnlocked (entry : MdRegion)
  | updateDeregister (entry : MdRegion) (entryno : Nat) (slotNum : Nat)
  | updateRegister (entry : MdRegion) (entryno : Nat)
  | updateFinish (entry : MdRegion) (entryno : Nat) (slotNum : Nat)
  | removeDeregister (entry : MdRegion) (entryno : Nat) (slotNum : Nat)
  | removeFinish (entry : MdRegion) (entryno : Nat)
deriving DecidableEq

/-- `minidump_rm_table->entry[i].slot_num = slot_num`. -/
def setSlotNum (i slotNum : Nat) (d : Driver) : Driver :=
  let t := d.minidumpRmTable
  { d with
    minidumpRmTable :=
      { t with entry := Function.update t.entry i { t.entry i with slotNum := slotNum } } }

/-- Entry `i` is taken out of the resource manager's table. -/
def dropRmEntry (i : Nat) (d : Driver) : Driver :=
  let t := d.minidumpRmTable
  { d with
    minidumpRmTable :=
      { t with
        entry := memset (memmove t.entry i (i + 1) (d.numRegions - i - 1)) (d.numRegions - 1) 1
          MdRmRegion.zero }
    numRegions := d.numRegions - 1 }

/-! ## The first critical section -/

/-- `md_rm_update_work`, up to the first call. -/
def mdRmUpdateWork (entry : MdRegion) (d : Driver) : Driver × Worker :=
  match mdRmEntryNum d entry with
  | .error _ => (d, .idle)
  | .ok entryno =>
    -- clear slot number to avoid remove during update
    (setSlotNum entryno 0 d, .updateDeregister entry entryno (d.minidumpRmTable.entry entryno).slotNum)

/-- `md_rm_add_work`, up to the first call. -/
def mdRmAddWork (entry : MdRegion) (d : Driver) : Driver × Worker :=
  match mdRmEntryNum d entry with
  | .error _ => (d, .idle)
  | .ok entryNum => (d, .addRegister entry entryNum)

/-- `md_rm_remove_work`, up to the first call. -/
def mdRmRemoveWork (entry : MdRegion) (d : Driver) : Driver × Worker :=
  match mdRmEntryNum d entry with
  | .error _ => (d, .idle)
  | .ok entryno =>
    -- to avoid double remove
    if (d.minidumpRmTable.entry entryno).slotNum = 0 then (d, .idle)
    else
      (setSlotNum entryno 0 d,
        .removeDeregister entry entryno (d.minidumpRmTable.entry entryno).slotNum)

/-- `minidump_rm_work`. -/
def minidumpRmWork (request : MdRmRequest) (d : Driver) : Driver × Worker :=
  match request.workCmd with
  | .minidumpAdd => mdRmAddWork request.entry d
  | .minidumpRemove => mdRmRemoveWork request.entry d
  | .minidumpUpdate => mdRmUpdateWork request.entry d
  | .minidumpNoCmd => (d, .idle)

/-! ## The calls -/

namespace Worker

/-- The request the worker is busy with, and the place it has found for it. -/
def task : Worker → Option (MdRegion × Nat)
  | addRegister entry i | addFinish entry i _ | addDeregister entry i _
  | updateDeregister entry i _ | updateRegister entry i | updateFinish entry i _
  | removeDeregister entry i _ | removeFinish entry i => some (entry, i)
  | idle | addUnlocked _ => none

/-- The worker has found the table corrupt and gives its new slot back. -/
def corrupt : Worker → Bool
  | addDeregister _ _ _ | addUnlocked _ => true
  | _ => false

/-- The entry for which the worker is about to call `gh_rm_minidump_register_range`. -/
def registerFor : Worker → Option Nat
  | addRegister _ i | updateRegister _ i => some i
  | _ => none

/-- The entry and the slot with which the worker is about to call
`gh_rm_minidump_deregister_slot`. -/
def deregisterFor : Worker → Option (Nat × Nat)
  | addDeregister _ i slotNum | updateDeregister _ i slotNum | removeDeregister _ i slotNum =>
    some (i, slotNum)
  | _ => none

/-- The worker after `gh_rm_minidump_register_range`; `none` is a negative result. -/
def registered (reply : Option Nat) : Worker → Worker
  | addRegister entry i => addFinish entry i reply
  | updateRegister entry i =>
    match reply with
    | none => idle
    | some slotNum => updateFinish entry i slotNum
  | w => w

/-- The worker after `gh_rm_minidump_deregister_slot`; its result is not looked at where an
addition is undone. -/
def deregistered (ok : Bool) : Worker → Worker
  | addDeregister entry _ _ => addUnlocked entry
  | updateDeregister entry i _ => if ok then updateRegister entry i else idle
  | removeDeregister entry i _ => if ok then removeFinish entry i else idle
  | w => w

/-! ## The second critical section -/

/-- `strcmp(entry->name, minidump_rm_table->entry[i].name) == 0`. -/
def stillNamed (entry : MdRegion) (i : Nat) (d : Driver) : Bool :=
  entry.name == (d.minidumpRmTable.entry i).name

/-- The rest of the work; `none` where the worker is not about to take the lock. -/
def finish : Worker → Driver → Option (Driver × Worker)
  | addFinish _ i none, d => some (dropRmEntry i d, idle)
  | addFinish entry i (some slotNum), d =>
    if stillNamed entry i d then
      let d := setSlotNum i slotNum d
      some ({ d with minidumpElfheader := mdAddElfHeader entry d.minidumpElfheader }, idle)
    else some (d, addDeregister entry i slotNum)
  | addUnlocked entry, d =>
    some ({ d with minidumpElfheader := mdAddElfHeader entry d.minidumpElfheader }, idle)
  | updateFinish entry i slotNum, d =>
    if stillNamed entry i d then
      let d := setSlotNum i slotNum d
      some ({ d with minidumpElfheader := mdUpdateElfHeader i entry d.minidumpElfheader }, idle)
    else some (d, idle)
  | removeFinish entry i, d =>
    if stillNamed entry i d then
      match msmMinidumpClearHeaders entry d.minidumpElfheader with
      | (h, .error _) => some ({ d with minidumpElfheader := h }, idle)
      | (h, .ok ()) => some (dropRmEntry i { d with minidumpElfheader := h }, idle)
    else some (d, idle)
  | _, _ => none

end Worker

/-! ## What the worker leaves alone -/

/-- Neither what waits nor what is queued is touched. -/
structure WorkFrame (d d' : Driver) : Prop where
  pending : d'.pendingList = d.pendingList
  queue : d'.minidumpRmTable.minidumpRmWq = d.minidumpRmTable.minidumpRmWq

theorem minidumpRmWork_cases (request : MdRmRequest) (d : Driver) :
    (minidumpRmWork request d).1 = d ∨ ∃ i, (minidumpRmWork request d).1 = setSlotNum i 0 d := by
  obtain ⟨e, workCmd⟩ := request
  cases workCmd with
  | minidumpNoCmd => exact Or.inl rfl
  | minidumpAdd =>
    simp only [minidumpRmWork, mdRmAddWork]
    cases mdRmEntryNum d e <;> exact Or.inl rfl
  | minidumpUpdate =>
    simp only [minidumpRmWork, mdRmUpdateWork]
    cases mdRmEntryNum d e with
    | error err => exact Or.inl rfl
    | ok i => exact Or.inr ⟨i, rfl⟩
  | minidumpRemove =>
    simp only [minidumpRmWork, mdRmRemoveWork]
    cases mdRmEntryNum d e with
    | error err => exact Or.inl rfl
    | ok i =>
      simp only
      split
      · exact Or.inl rfl
      · exact Or.inr ⟨i, rfl⟩

theorem minidumpRmWork_frame (request : MdRmRequest) (d : Driver) :
    WorkFrame d (minidumpRmWork request d).1 := by
  rcases minidumpRmWork_cases request d with h | ⟨i, h⟩
  · rw [h]
    exact ⟨rfl, rfl⟩
  · rw [h]
    exact ⟨rfl, rfl⟩

/-- The second critical section writes the headers, and with them it sets one slot, takes one
entry out, or leaves the table alone. -/
theorem Worker.finish_cases {w w' : Worker} {d d' : Driver} (h : w.finish d = some (d', w')) :
    ∃ hdr : MdElfhdr, d' = { d with minidumpElfheader := hdr } ∨
      (∃ i slotNum, d' = setSlotNum i slotNum { d with minidumpElfheader := hdr }) ∨
      ∃ i, d' = dropRmEntry i { d with minidumpElfheader := hdr } := by
  cases w with
  | addFinish e i reply =>
    cases reply with
    | none =>
      cases h
      exact ⟨d.minidumpElfheader, Or.inr (Or.inr ⟨i, rfl⟩)⟩
    | some slotNum =>
      simp only [Worker.finish] at h
      split at h
      · cases h
        exact ⟨mdAddElfHeader e d.minidumpElfheader, Or.inr (Or.inl ⟨i, slotNum, rfl⟩)⟩
      · cases h
        exact ⟨d.minidumpElfheader, Or.inl rfl⟩
  | addUnlocked e =>
    cases h
    exact ⟨_, Or.inl rfl⟩
  | updateFinish e i slotNum =>
    simp only [Worker.finish] at h
    split at h
    · cases h
      exact ⟨mdUpdateElfHeader i e d.minidumpElfheader, Or.inr (Or.inl ⟨i, slotNum, rfl⟩)⟩
    · cases h
      exact ⟨d.minidumpElfheader, Or.inl rfl⟩
  | removeFinish e i =>
    simp only [Worker.finish] at h
    split at h
    · cases hc : msmMinidumpClearHeaders e d.minidumpElfheader with
      | mk hdr res =>
        rw [hc] at h
        cases res with
        | error err =>
          cases h
          exact ⟨hdr, Or.inl rfl⟩
        | ok u =>
          cases h
          exact ⟨hdr, Or.inr (Or.inr ⟨i, rfl⟩)⟩
    · cases h
      exact ⟨d.minidumpElfheader, Or.inl rfl⟩
  | _ => cases h

theorem Worker.finish_frame {w w' : Worker} {d d' : Driver} (h : w.finish d = some (d', w')) :
    WorkFrame d d' := by
  obtain ⟨hdr, rfl | ⟨i, slotNum, rfl⟩ | ⟨i, rfl⟩⟩ := Worker.finish_cases h
  · exact ⟨rfl, rfl⟩
  · exact ⟨rfl, rfl⟩
  · exact ⟨rfl, rfl⟩

end SafelinuxDbg.Minidump
