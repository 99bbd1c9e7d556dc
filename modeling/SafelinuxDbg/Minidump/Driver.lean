import SafelinuxDbg.Minidump.ElfHeader

/-!
# The driver

`msm_minidump_add_region`, `msm_minidump_update_region` and `msm_minidump_remove_region` with
the table functions under them, and `msm_minidump_driver_probe`.  A function that may fail
returns the driver's state next to its result, because several of them change the state before
they fail.

A call that allocates takes the outcome of the allocation as an argument.  Region numbers are
those the driver hands out, so they are never negative.
-/

namespace SafelinuxDbg.Minidump

open CMemory

/-! ## Looking a name up -/

/-- The first of the first `count` names that is `name`. -/
def firstNamed (names : Nat → CStr) (count : Nat) (name : CStr) : Except Errno Nat :=
  match (List.range count).find? (fun i => names i == name) with
  | some i => .ok i
  | none => .error .ENOENT

/-- `md_entry_num`. -/
def mdEntryNum (d : Driver) (entry : MdRegion) : Except Errno Nat :=
  firstNamed (fun i => (d.minidumpTable.entry i).name) d.numRegions entry.name

/-- `md_rm_entry_num`. -/
def mdRmEntryNum (d : Driver) (entry : MdRegion) : Except Errno Nat :=
  firstNamed (fun i => (d.minidumpRmTable.entry i).name) d.numRegions entry.name

/-- One turn of the loop of `md_region_num`. -/
def regionNumStep (t : MdTable) (name : CStr) (acc : Except Errno Nat × UInt32) (i : Nat) :
    Except Errno Nat × UInt32 :=
  if (t.mdRegions i).name = name then
    (.ok i, if acc.2 < (t.mdRegions i).seqNum then (t.mdRegions i).seqNum else acc.2)
  else acc

/-- `md_region_num`: the last region called `name`, and the largest of `seqno` and the sequence
numbers of the regions called so. -/
def mdRegionNum (t : MdTable) (name : CStr) (seqno : UInt32) : Except Errno Nat × UInt32 :=
  (List.range t.mdSsToc.ssRegionCount).foldl (regionNumStep t name) (.error .EINVAL, seqno)

/-- `validate_region`. -/
def validateRegion (cfg : Config) (entry : MdRegion) : Except Errno Unit :=
  if cfg.maxNameLength < entry.name.strlen ∨ entry.virtAddr = 0 ∨ entry.size % 4 ≠ 0 then
    .error .EINVAL
  else .ok ()

/-- `minidump_table && minidump_table->md_ss_toc` and its `md_ss_enable_status` is
`MD_SS_ENABLED`. -/
def tocEnabled (d : Driver) : Bool :=
  d.minidumpTable.tocMapped && d.minidumpTable.mdSsToc.mdSsEnableStatus == mdSsEnabled

/-! ## Adding a region -/

/-- The record `md_add_ss_toc` writes into the region table: the sequence number is only
touched when a region of that name is there already. -/
def newSsRegion (entry : MdRegion) (t : MdTable) : MdSsRegion :=
  let regCnt := t.mdSsToc.ssRegionCount
  let ssMdr :=
    { t.mdRegions regCnt with
      name := entry.name.truncate (maxRegionNameLength - 1)
      regionBaseAddress := entry.physAddr
      regionSize := entry.size }
  let found := mdRegionNum t entry.name 0
  let ssMdr := match found.1 with
    | .ok _ => { ssMdr with seqNum := found.2 + 1 }
    | .error _ => ssMdr
  { ssMdr with mdValid := mdRegionValid }

/-- `md_add_ss_toc`. -/
def mdAddSsToc (cfg : Config) (entry : MdRegion) (d : Driver) : Driver :=
  let t := d.minidumpTable
  let regCnt := t.mdSsToc.ssRegionCount
  let mdr := { entry with name := entry.name.truncate cfg.maxNameLength }
  { d with
    minidumpTable :=
      { t with
        entry := Function.update t.entry d.numRegions mdr
        mdRegions := Function.update t.mdRegions regCnt (newSsRegion entry t)
        mdSsToc := { t.mdSsToc with ssRegionCount := regCnt + 1 } } }

/-- Append a request to the work queue of the resource manager's table. -/
def queueWork (workCmd : MinidumpEntryCmd) (entry : MdRegion) (d : Driver) : Driver :=
  { d with
    minidumpRmTable :=
      { d.minidumpRmTable with
        minidumpRmWq := d.minidumpRmTable.minidumpRmWq ++ [⟨entry, workCmd⟩] } }

/-- `md_rm_add_region`. -/
def mdRmAddRegion (cfg : Config) (alloc : Bool) (entry : MdRegion) (d : Driver) :
    Driver × Except Errno Unit :=
  if alloc then
    let rmRegion : MdRmRegion := ⟨entry.name.truncate cfg.maxNameLength, 0⟩
    let d :=
      { d with
        minidumpRmTable :=
          { d.minidumpRmTable with
            entry := Function.update d.minidumpRmTable.entry d.numRegions rmRegion } }
    (queueWork .minidumpAdd entry d, .ok ())
  else (d, .error .ENOMEM)

/-- `ret = num_regions; num_regions++`. -/
def countRegion (d : Driver) : Driver × Except Errno Nat :=
  ({ d with numRegions := d.numRegions + 1 }, .ok d.numRegions)

/-- `msm_minidump_add_region`. -/
def msmMinidumpAddRegion (cfg : Config) (alloc : Bool) (entry : MdRegion) (d : Driver) :
    Driver × Except Errno Nat :=
  match validateRegion cfg entry with
  | .error _ => (d, .error .EINVAL)
  | .ok () =>
    if maxNumEntries ≤ d.numRegions then (d, .error .ENOMEM)
    else if !d.isRmMinidump && tocEnabled d then
      if maxNumEntries ≤ d.minidumpTable.mdSsToc.ssRegionCount then (d, .error .ENOMEM)
      else
        match mdEntryNum d entry with
        | .ok _ => (d, .error .EEXIST)
        | .error _ =>
          let d := mdAddSsToc cfg entry d
          countRegion { d with minidumpElfheader := mdAddElfHeader entry d.minidumpElfheader }
    else if d.isRmMinidump && d.mdInitDone then
      match mdRmEntryNum d entry with
      | .ok _ => (d, .error .EEXIST)
      | .error _ =>
        match mdRmAddRegion cfg alloc entry d with
        | (d, .error e) => (d, .error e)
        | (d, .ok ()) => countRegion d
    -- the local table is not initialised: add to the pending list
    else if alloc then countRegion { d with pendingList := d.pendingList ++ [entry] }
    else (d, .error .ENOMEM)

/-! ## Updating a region -/

/-- `md_update_ss_toc`. -/
def mdUpdateSsToc (regno : Nat) (entry : MdRegion) (d : Driver) : Driver × Except Errno Unit :=
  if d.firstRemovedEntry ≤ regno then (d, .error .EINVAL)
  else
    match mdEntryNum d entry with
    | .error e => (d, .error e)
    | .ok _ =>
      let t := d.minidumpTable
      let mdr := { t.entry regno with virtAddr := entry.virtAddr, physAddr := entry.physAddr }
      let mdssr := { t.mdRegions (regno + 1) with regionBaseAddress := entry.physAddr }
      ({ d with
          minidumpTable :=
            { t with
              entry := Function.update t.entry regno mdr
              mdRegions := Function.update t.mdRegions (regno + 1) mdssr } }, .ok ())

/-- What `md_rm_update` and `md_rm_remove_region` do: queue a request for an entry that is in
the table. -/
def mdRmRequest (workCmd : MinidumpEntryCmd) (alloc : Bool) (entry : MdRegion) (d : Driver) :
    Driver × Except Errno Unit :=
  match mdRmEntryNum d entry with
  | .error e => (d, .error e)
  | .ok _ => if alloc then (queueWork workCmd entry d, .ok ()) else (d, .error .ENOMEM)

/-- `md_rm_update`. -/
def mdRmUpdate (alloc : Bool) (entry : MdRegion) (d : Driver) : Driver × Except Errno Unit :=
  mdRmRequest .minidumpUpdate alloc entry d

/-- `msm_minidump_update_region`. -/
def msmMinidumpUpdateRegion (cfg : Config) (alloc : Bool) (regno : Nat) (entry : MdRegion)
    (d : Driver) : Driver × Except Errno Unit :=
  if !d.mdInitDone then (d, .error .EINVAL)
  else
    match validateRegion cfg entry with
    | .error _ => (d, .error .EINVAL)
    | .ok () =>
      if maxNumEntries ≤ regno then (d, .error .EINVAL)
      else if d.isRmMinidump then mdRmUpdate alloc entry d
      else
        -- the headers are updated whatever the table step returns
        let r := mdUpdateSsToc regno entry d
        ({ r.1 with
            minidumpElfheader := mdUpdateElfHeader regno entry r.1.minidumpElfheader }, r.2)

/-! ## Removing a region -/

/-- `md_rm_remove_region`. -/
def mdRmRemoveRegion (alloc : Bool) (entry : MdRegion) (d : Driver) : Driver × Except Errno Unit :=
  mdRmRequest .minidumpRemove alloc entry d

/-- The part of `md_remove_ss_toc` before the headers are cleared: entry `entryno` and region
`rgno` are taken out of their tables, whose counts stay, and the table is marked as not
initialised. -/
def shiftTables (entryno rgno : Nat) (d : Driver) : Driver :=
  let t := d.minidumpTable
  let ecount := d.numRegions
  let rcount := t.mdSsToc.ssRegionCount
  { d with
    firstRemovedEntry := if entryno < d.firstRemovedEntry then entryno else d.firstRemovedEntry
    minidumpTable :=
      { t with
        mdSsToc := { t.mdSsToc with mdSsTocInit := 0 }
        entry :=
          memset (memmove t.entry entryno (entryno + 1) (ecount - entryno - 1)) (ecount - 1) 1
            MdRegion.zero
        mdRegions :=
          memset (memmove t.mdRegions rgno (rgno + 1) (rcount - rgno - 1)) (rcount - 1) 1
            MdSsRegion.zero } }

/-- `md_remove_ss_toc`. -/
def mdRemoveSsToc (entry : MdRegion) (d : Driver) : Driver × Except Errno Unit :=
  if !tocEnabled d then (d, .error .EINVAL)
  else
    match mdEntryNum d entry with
    | .error e => (d, .error e)
    | .ok entryno =>
      match (mdRegionNum d.minidumpTable entry.name 0).1 with
      | .error _ => (d, .error .EINVAL)
      | .ok rgno =>
        let d := shiftTables entryno rgno d
        match msmMinidumpClearHeaders entry d.minidumpElfheader with
        | (h, .error e) => ({ d with minidumpElfheader := h }, .error e)
        | (h, .ok ()) =>
          let t := d.minidumpTable
          ({ d with
              minidumpElfheader := h
              numRegions := d.numRegions - 1
              minidumpTable :=
                { t with
                  mdSsToc :=
                    { t.mdSsToc with
                      ssRegionCount := t.mdSsToc.ssRegionCount - 1
                      mdSsTocInit := 1 } } }, .ok ())

/-- `msm_minidump_remove_region`. -/
def msmMinidumpRemoveRegion (alloc : Bool) (entry : MdRegion) (d : Driver) :
    Driver × Except Errno Unit :=
  if !d.mdInitDone then (d, .error .EINVAL)
  else if !d.isRmMinidump && !tocEnabled d then (d, .error .EINVAL)
  else if d.isRmMinidump then mdRmRemoveRegion alloc entry d
  else mdRemoveSsToc entry d

end SafelinuxDbg.Minidump
