import SafelinuxDbg.Lib.Print

/-!
# The boot log

`dump_boot_log.c` publishes one piece of memory in debugfs: the log of the boot loader, and behind it
two lines with counters of the trusted zone.  `xbl_log_probe` collects them one by one, and the
buffer grows each time.  A line is printed into a place of a fixed size, and the end of that place
is whatever the allocator left there, unless the counter has as many digits as there can be.

* `blob_determined_iff`: what is published depends on the log and the counters alone, if and only if
  both counters have ten digits and the log is not so large that the place of a line overflows.
-/

namespace SafelinuxDbg.XblLog

open CMemory

/-- The error numbers; the code returns them negated. -/
inductive Errno
  | ENODEV | ENOMEM | EINVAL
deriving DecidableEq

/-! ## The driver -/

/-- `TZ_STR_LEN`. -/
def tzStrLen : Nat := 12
/-- `TZ_SIZE`, with `CHAR_WIDTH` and the size of a `uint32_t`. -/
def tzSize : Nat := (8 * 4 - 1) / 3 + 1

/-- `enum mem_type`. -/
inductive MemType
  | resMem | ioMem
deriving DecidableEq

/-- The names `xbl_log_probe` asks for. -/
inductive NodeName
  | uefiLog | tzStartCount | tzEndCount
deriving DecidableEq

/-- A node of the device tree. -/
structure Node where
  /-- `of_address_to_resource`, with the size of the resource -/
  resource : Except Errno Nat
  /-- the bytes that `devm_memremap` or `devm_ioremap` makes accessible -/
  mapped : Option (Nat → UInt8)

/-- Allocated memory. -/
structure Buffer where
  size : Nat
  bytes : Nat → UInt8

/-- The part of `struct xbl_log_data` that the log is collected in.  `buf_size` is a `size_t`, and no
memory region gets near its end. -/
structure XblLogData where
  xblBuf : Option Buffer
  bufSize : Nat

/-- `devm_kzalloc`. -/
def devmKzalloc (size : Nat) : Buffer := ⟨size, fun _ => 0⟩

/-- `devm_krealloc`: the old bytes are kept, and `fresh` is what the new ones are. -/
def devmKrealloc (fresh : Nat → UInt8) (b : Buffer) (size : Nat) : Buffer :=
  ⟨size, fun i => if i < b.size then b.bytes i else fresh i⟩

/-- The line of a counter. -/
def counterLine (name : NodeName) (count : UInt32) : List UInt8 :=
  if name = .tzStartCount then
    asciiBytes "TZ Start [".toList ++ decimal count.toNat ++ asciiBytes "]\n".toList
  else asciiBytes "TZ End   [".toList ++ decimal count.toNat ++ asciiBytes "]\n".toList

/-- `append_buf_data`.  `pos` is a `u32`. -/
def appendBufData (fresh : Nat → UInt8) (name : NodeName) (buf : Nat → UInt8) (sz : Nat)
    (mem : MemType) (d : XblLogData) : XblLogData :=
  let b := match d.xblBuf with
    | none => devmKzalloc d.bufSize
    | some b => devmKrealloc fresh b d.bufSize
  let pos := (d.bufSize - sz) % 2 ^ 32
  let bytes := match mem with
    | .resMem => storeAt b.bytes pos (slice buf 0 sz)
    | .ioMem => (scnprintf b.bytes pos sz (counterLine name (read32 buf 0))).1
  { d with xblBuf := some { b with bytes := bytes } }

/-- `map_addr_range`, for what `of_find_node_by_name` returns. -/
def mapAddrRange (fresh : Nat → UInt8) (node : Option Node) (name : NodeName) (mem : MemType)
    (d : XblLogData) : XblLogData × Except Errno Unit :=
  match node with
  | none => (d, .error .ENODEV)
  | some node =>
    match node.resource with
    | .error e => (d, .error e)
    | .ok size =>
      if size = 0 then (d, .error .ENODEV)
      else
        match node.mapped with
        | none => (d, .error .ENOMEM)
        | some buf =>
          let sz := match mem with
            | .resMem => size - 1
            | .ioMem => tzSize + tzStrLen
          (appendBufData fresh name buf sz mem { d with bufSize := d.bufSize + sz }, .ok ())

/-- What the probe meets. -/
structure Platform where
  /-- the allocation of `xbl_data` -/
  dataAlloc : Bool
  /-- `of_find_node_by_path("/reserved-memory")` -/
  reservedMemory : Bool
  node : NodeName → Option Node
  /-- `debugfs_create_blob` -/
  debugfs : Except Errno Unit

/-- `xbl_log_probe`, with what is published; `fresh` is the memory handed out by each allocation. -/
def xblLogProbe (p : Platform) (fresh : NodeName → Nat → UInt8) : Except Errno (List UInt8) :=
  if !p.dataAlloc then .error .ENOMEM
  else if !p.reservedMemory then .error .ENODEV
  else
    match mapAddrRange (fresh .uefiLog) (p.node .uefiLog) .uefiLog .resMem ⟨none, 0⟩ with
    | (_, .error e) => .error e
    | (d, .ok ()) =>
      match mapAddrRange (fresh .tzStartCount) (p.node .tzStartCount) .tzStartCount .ioMem d with
      | (_, .error e) => .error e
      | (d, .ok ()) =>
        match mapAddrRange (fresh .tzEndCount) (p.node .tzEndCount) .tzEndCount .ioMem d with
        | (_, .error e) => .error e
        | (d, .ok ()) =>
          match p.debugfs, d.xblBuf with
          | .error e, _ => .error e
          | .ok (), none => .ok []
          | .ok (), some b => .ok (slice b.bytes 0 d.bufSize)

/-! ## What is published -/

/-- The probe finds a log of `size` bytes and the two counters, and nothing fails. -/
structure Platform.Finds (p : Platform) (log : Nat → UInt8) (size : Nat) (start stop : UInt32) :
    Prop where
  dataAlloc : p.dataAlloc = true
  reservedMemory : p.reservedMemory = true
  uefiLog : ∃ buf, p.node .uefiLog = some ⟨.ok size, some buf⟩ ∧ ∀ i, i < size → buf i = log i
  tzStart : ∃ n buf, p.node .tzStartCount = some ⟨.ok (n + 1), some buf⟩ ∧ read32 buf 0 = start
  tzEnd : ∃ n buf, p.node .tzEndCount = some ⟨.ok (n + 1), some buf⟩ ∧ read32 buf 0 = stop
  debugfs : p.debugfs = .ok ()

/-- **The published memory is a function of the log and the counters**, and both lines are in it. -/
def Determined (log : Nat → UInt8) (size : Nat) (start stop : UInt32) : Prop :=
  ∃ blob, (∀ p fresh, p.Finds log size start stop → xblLogProbe p fresh = .ok blob) ∧
    counterLine .tzStartCount start <:+: blob ∧ counterLine .tzEndCount stop <:+: blob

section Lines

variable (name : NodeName) (count : UInt32)

theorem counterLine_length :
    (counterLine name count).length = 12 + (decimal count.toNat).length := by
  rw [counterLine]
  split <;> simp only [List.length_append, asciiBytes, List.length_map] <;>
    · show 10 + _ + 2 = _
      omega

/-- A line fits into its place, and fills it when the counter has ten digits. -/
theorem counterLine_length_lt :
    (counterLine name count).length < tzSize + tzStrLen := by
  have hdigits := (length_decimal_le_iff (n := count.toNat) (k := 10) (by decide)).mpr
    (Nat.lt_trans count.toNat_lt (by decide))
  rw [counterLine_length]
  show 12 + _ < 23
  omega

theorem counterLine_full_iff :
    (counterLine name count).length + 1 = tzSize + tzStrLen ↔ 10 ^ 9 ≤ count.toNat := by
  have hdigits := (length_decimal_le_iff (n := count.toNat) (k := 10) (by decide)).mpr
    (Nat.lt_trans count.toNat_lt (by decide))
  have hnine := length_decimal_le_iff (n := count.toNat) (k := 9) (by decide)
  rw [counterLine_length]
  show 12 + _ + 1 = 23 ↔ _
  omega

end Lines

/-- The bytes of the buffer at the end, for a log of `n` bytes. -/
def collected (log : Nat → UInt8) (n : Nat) (start stop : UInt32)
    (fresh : NodeName → Nat → UInt8) : Nat → UInt8 :=
  let first := storeAt (fun _ => 0) 0 (slice log 0 n)
  let second := (scnprintf (fun i => if i < n then first i else fresh .tzStartCount i) (n % 2 ^ 32)
    23 (counterLine .tzStartCount start)).1
  (scnprintf (fun i => if i < n + 23 then second i else fresh .tzEndCount i) ((n + 23) % 2 ^ 32)
    23 (counterLine .tzEndCount stop)).1

section Probe

variable {p : Platform} {log : Nat → UInt8} {n : Nat} {start stop : UInt32}

/-- **What the probe publishes.** -/
theorem Platform.Finds.probe (h : p.Finds log (n + 1) start stop)
    (fresh : NodeName → Nat → UInt8) :
    xblLogProbe p fresh = .ok (slice (collected log n start stop fresh) 0 (n + 46)) := by
  obtain ⟨buf, hlog, hbytes⟩ := h.uefiLog
  obtain ⟨k, bufStart, hstart, hstartCount⟩ := h.tzStart
  obtain ⟨l, bufEnd, hend, hendCount⟩ := h.tzEnd
  have hslice : slice buf 0 n = slice log 0 n := by
    apply slice_congr
    intro i hi
    rw [Nat.zero_add]
    exact hbytes i (by omega)
  simp only [xblLogProbe, h.dataAlloc, h.reservedMemory, Bool.not_true, Bool.false_eq_true,
    if_false, hlog, hstart, hend, mapAddrRange, h.debugfs, Nat.add_one_ne_zero,
    Nat.add_sub_cancel, appendBufData, devmKzalloc, devmKrealloc, hslice, hstartCount, hendCount,
    Nat.zero_add, Nat.sub_self, Nat.zero_mod]
  rfl

variable (log n start stop)

/-- A platform that finds everything. -/
def Platform.plain : Platform where
  dataAlloc := true
  reservedMemory := true
  node
    | .uefiLog => some ⟨.ok (n + 1), some log⟩
    | .tzStartCount => some ⟨.ok 4096, some (write32 (fun _ => 0) 0 start)⟩
    | .tzEndCount => some ⟨.ok 4096, some (write32 (fun _ => 0) 0 stop)⟩
  debugfs := .ok ()

theorem Platform.plain_finds : (Platform.plain log n start stop).Finds log (n + 1) start stop :=
  ⟨rfl, rfl, ⟨log, rfl, fun _ _ => rfl⟩, ⟨4095, _, rfl, read32_writeLE_self _ _ _⟩,
    ⟨4095, _, rfl, read32_writeLE_self _ _ _⟩, rfl⟩

end Probe

/-! ## When it is determined -/

section Bytes

variable {n : Nat} {start stop : UInt32} (log : Nat → UInt8) (fresh : NodeName → Nat → UInt8)

/-- When nothing overflows, the log and the two lines follow one another, each line with what is left
of its place. -/
theorem collected_slices (start stop : UInt32) (hsmall : n + 23 < 2 ^ 32) :
    slice (collected log n start stop fresh) 0 n = slice log 0 n ∧
      slice (collected log n start stop fresh) n ((counterLine .tzStartCount start).length + 1) =
        counterLine .tzStartCount start ++ [0] ∧
      slice (collected log n start stop fresh) (n + 23)
          ((counterLine .tzEndCount stop).length + 1) =
        counterLine .tzEndCount stop ++ [0] := by
  have hstart := counterLine_length_lt .tzStartCount start
  have hend := counterLine_length_lt .tzEndCount stop
  have hplace : tzSize + tzStrLen = 23 := rfl
  rw [hplace] at hstart hend
  simp only [collected, Nat.mod_eq_of_lt hsmall, Nat.mod_eq_of_lt (show n < 2 ^ 32 by omega)]
  refine ⟨?_, ?_, ?_⟩
  · have hlog := slice_storeAt (fun _ => (0 : UInt8)) 0 (slice log 0 n)
    rw [slice_length] at hlog
    rw [← hlog]
    apply slice_congr
    intro i hi
    rw [Nat.zero_add, scnprintf_outside _ (Or.inl (by omega)), if_pos (by omega),
      scnprintf_outside _ (Or.inl hi), if_pos hi, hlog]
  · rw [← slice_scnprintf (fun i => if i < n then storeAt (fun _ => 0) 0 (slice log 0 n) i
      else fresh .tzStartCount i) n (by decide) hstart]
    apply slice_congr
    intro i hi
    rw [scnprintf_outside _ (Or.inl (by omega)), if_pos (by omega)]
  · exact slice_scnprintf _ _ (by decide) hend

/-- **Lines that fill their places** leave nothing to the allocator. -/
theorem collected_full (hsmall : n + 23 < 2 ^ 32) (hstart : 10 ^ 9 ≤ start.toNat)
    (hstop : 10 ^ 9 ≤ stop.toNat) :
    slice (collected log n start stop fresh) 0 (n + 46) =
      slice log 0 n ++ (counterLine .tzStartCount start ++ [0] ++
        (counterLine .tzEndCount stop ++ [0])) := by
  obtain ⟨hlog, hfirst, hsecond⟩ := collected_slices log fresh start stop hsmall
  rw [(counterLine_full_iff .tzStartCount start).mpr hstart] at hfirst
  rw [(counterLine_full_iff .tzEndCount stop).mpr hstop] at hsecond
  have hplaces : n + 46 = n + (tzSize + tzStrLen + (tzSize + tzStrLen)) := rfl
  rw [hplaces, slice_add, slice_add, Nat.zero_add, hlog, hfirst, ← hsecond]
  rfl

/-- The last byte of the place of the second line, when the line does not reach it. -/
theorem collected_last (h : 2 ^ 32 ≤ n + 23 ∨ stop.toNat < 10 ^ 9) :
    collected log n start stop fresh (n + 45) = fresh .tzEndCount (n + 45) := by
  have hlt := counterLine_length_lt .tzEndCount stop
  have hfull := (counterLine_full_iff .tzEndCount stop).not
  have hplace : tzSize + tzStrLen = 23 := rfl
  rw [hplace] at hlt hfull
  rw [collected, scnprintf_outside _ (Or.inr ?_), if_neg (by omega)]
  rcases h with hwrap | hdigits
  · have hmod := Nat.mod_le (n + 23) (2 ^ 32)
    omega
  · have hmod := Nat.mod_le (n + 23) (2 ^ 32)
    have hshort := hfull.mpr (by omega)
    omega

/-- The last byte of the place of the first line. -/
theorem collected_gap (hsmall : n + 23 < 2 ^ 32) (h : start.toNat < 10 ^ 9) :
    collected log n start stop fresh (n + 22) = fresh .tzStartCount (n + 22) := by
  have hlt := counterLine_length_lt .tzStartCount start
  have hshort := (counterLine_full_iff .tzStartCount start).not.mpr (by omega)
  have hplace : tzSize + tzStrLen = 23 := rfl
  rw [hplace] at hlt hshort
  simp only [collected, Nat.mod_eq_of_lt hsmall, Nat.mod_eq_of_lt (show n < 2 ^ 32 by omega)]
  rw [scnprintf_outside _ (Or.inl (by omega)), if_pos (by omega),
    scnprintf_outside _ (Or.inr (by omega)), if_neg (by omega)]

end Bytes

section Determined

variable {log : Nat → UInt8} {n : Nat} {start stop : UInt32}

/-- A byte that is left to the allocator. -/
theorem not_determined (name : NodeName) {i : Nat} (hi : i < n + 46)
    (h : ∀ fresh, collected log n start stop fresh i = fresh name i) :
    ¬ Determined log (n + 1) start stop := by
  rintro ⟨blob, hblob, -⟩
  have hfinds := Platform.plain_finds log n start stop
  have hbyte : ∀ v : UInt8, blob[i]? = some v := by
    intro v
    have hv := hblob _ (fun _ _ => v) hfinds
    rw [hfinds.probe, Except.ok.injEq] at hv
    rw [← hv, slice_getElem? _ _ hi, Nat.zero_add, h]
  have hzero := hbyte 0
  rw [hbyte 1] at hzero
  exact absurd (Option.some.inj hzero) (by decide)

end Determined

/-- **The published memory is determined** by the log and the counters, if and only if both counters
have ten digits and the places of the lines do not overflow. -/
theorem blob_determined_iff (log : Nat → UInt8) (size : Nat) (start stop : UInt32)
    (hsize : 2 ≤ size) :
    Determined log size start stop ↔
      10 ^ 9 ≤ start.toNat ∧ 10 ^ 9 ≤ stop.toNat ∧ size + 22 < 2 ^ 32 := by
  obtain ⟨n, rfl⟩ : ∃ n, size = n + 1 := ⟨size - 1, by omega⟩
  constructor
  · intro h
    have hlast : ¬ (2 ^ 32 ≤ n + 23 ∨ stop.toNat < 10 ^ 9) := by
      intro hbad
      exact not_determined .tzEndCount (by omega)
        (fun fresh => collected_last log fresh hbad) h
    have hgap : ¬ start.toNat < 10 ^ 9 := by
      intro hbad
      exact not_determined .tzStartCount (by omega)
        (fun fresh => collected_gap log fresh (by omega) hbad) h
    omega
  · rintro ⟨hstart, hstop, hsmall⟩
    refine ⟨slice log 0 n ++ (counterLine .tzStartCount start ++ [0] ++
      (counterLine .tzEndCount stop ++ [0])), fun p fresh hfinds => ?_, ?_, ?_⟩
    · rw [hfinds.probe, collected_full log fresh (by omega) hstart hstop]
    · refine ⟨slice log 0 n, [0] ++ (counterLine .tzEndCount stop ++ [0]), ?_⟩
      simp only [List.append_assoc]
    · refine ⟨slice log 0 n ++ (counterLine .tzStartCount start ++ [0]), [0], ?_⟩
      simp only [List.append_assoc]

/-- A log of a page, and two counters of ten digits. -/
theorem blob_determined_iff_page :
    Determined (fun _ => 0x41) 4096 4000000000 4000000001 ↔
      10 ^ 9 ≤ (4000000000 : UInt32).toNat ∧ 10 ^ 9 ≤ (4000000001 : UInt32).toNat ∧
        4096 + 22 < 2 ^ 32 :=
  blob_determined_iff _ _ _ _ (by decide)

/-- **Uninitialised memory is published** when a counter is small. -/
theorem blob_not_determined_small : ¬ Determined (fun _ => 0x41) 4096 7 9 := by
  have hcount : (9 : UInt32).toNat < 10 ^ 9 := by decide
  exact not_determined .tzEndCount (n := 4095) (by decide)
    (fun fresh => collected_last _ fresh (Or.inr hcount))

end SafelinuxDbg.XblLog
