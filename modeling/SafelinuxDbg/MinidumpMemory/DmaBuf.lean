import SafelinuxDbg.Lib.Print

/-!
# The texts about DMA buffers

Two dumps are about DMA buffers: `md_dma_buf_info` goes through all buffers, and `md_dma_buf_procs`
through the processes and the files they have open.  Both print through a `priv_buf`, line by line,
and both give up when its `offset` has come to the last byte.

* `PrivBuf.print`: how a line is printed.
* `PrivBuf.Holds.print`: the buffer holds the lines printed so far, up to its end.
* `PrivBuf.print_nothing`: nothing is printed to a buffer of more than `INT_MAX` bytes.
* `PrivBuf.printAll_full_iff`: whether lines fill a buffer.
-/

namespace SafelinuxDbg.MinidumpMemory

open CMemory

/-! ## The code -/

/-- `struct priv_buf`, with the memory it points into. -/
structure PrivBuf where
  buf : Nat
  size : Nat
  offset : Nat
  mem : Nat → UInt8

namespace PrivBuf

/-- A line printed behind the text, after which `offset` is moved on.  The number is what
`scnprintf` returns. -/
def print (b : PrivBuf) (text : List UInt8) : PrivBuf × Nat :=
  let r := scnprintf b.mem (b.buf + b.offset) (b.size - b.offset) text
  ({ b with offset := b.offset + r.2, mem := r.1 }, r.2)

/-- `offset == size - 1`, on `size_t`. -/
def full (b : PrivBuf) : Bool := b.offset + 1 == b.size

end PrivBuf

/-- What the dumps use of a `struct dma_buf`. -/
structure DmaBuf where
  size : UInt64
  fFlags : UInt32
  fMode : UInt32
  fileCount : Nat
  expName : List UInt8
  ino : UInt64
  name : Option (List UInt8)

/-- `%-8s`. -/
def leftJustified (text : List Char) : List UInt8 :=
  asciiBytes (text ++ List.replicate (8 - text.length) ' ')

/-- `%08x` and, with the base 10, `%08zu`, `%08ld` and `%08lu`. -/
def zeroPadded (base n : Nat) : List UInt8 :=
  let digits := Nat.toDigits base n
  asciiBytes (List.replicate (8 - digits.length) '0' ++ digits)

/-- `"%-8s\t%-8s\t%-8s\t%-8s\texp_name\t%-8s\n"`, with the names of the columns. -/
def columnsText : List UInt8 :=
  leftJustified "size".toList ++ asciiBytes ['\t'] ++ leftJustified "flags".toList ++
    asciiBytes ['\t'] ++ leftJustified "mode".toList ++ asciiBytes ['\t'] ++
    leftJustified "count".toList ++ asciiBytes "\texp_name\t".toList ++
    leftJustified "ino".toList ++ asciiBytes ['\n']

/-- `"%08zu\t%08x\t%08x\t%08ld\t%s\t%08lu\t%s\n"`. -/
def dmaBufText (b : DmaBuf) : List UInt8 :=
  zeroPadded 10 b.size.toNat ++ asciiBytes ['\t'] ++ zeroPadded 16 b.fFlags.toNat ++
    asciiBytes ['\t'] ++ zeroPadded 16 b.fMode.toNat ++ asciiBytes ['\t'] ++
    zeroPadded 10 b.fileCount ++ asciiBytes ['\t'] ++ b.expName ++ asciiBytes ['\t'] ++
    zeroPadded 10 b.ino.toNat ++ asciiBytes ['\t'] ++ b.name.getD [] ++ asciiBytes ['\n']

/-- `"\nTotal %d objects, %zu bytes\n"`. -/
def totalText (count : Nat) (size : UInt64) : List UInt8 :=
  asciiBytes "\nTotal ".toList ++ decimal count ++ asciiBytes " objects, ".toList ++
    decimal size.toNat ++ asciiBytes " bytes\n".toList

/-! ## The text in the buffer -/

namespace PrivBuf

/-- The buffer of `size` bytes at `buf` holds `text`, up to its end. -/
structure Holds (b : PrivBuf) (buf size : Nat) (text : List UInt8) : Prop where
  buf_eq : b.buf = buf
  size_eq : b.size = size
  text : HoldsText b.mem buf size b.offset text

variable {b : PrivBuf} {buf size : Nat} {text : List UInt8}

theorem full_iff : b.full = true ↔ b.offset + 1 = b.size := by
  rw [full, beq_iff_eq]

theorem Holds.full_iff (h : b.Holds buf size text) (hpos : 0 < size) :
    b.full = true ↔ size ≤ text.length + 1 := by
  rw [PrivBuf.full_iff, h.size_eq, h.text.full_iff hpos]

theorem Holds.append_of_full (h : b.Holds buf size text) (hfull : b.full = true)
    (more : List UInt8) : b.Holds buf size (text ++ more) where
  buf_eq := h.buf_eq
  size_eq := h.size_eq
  text := h.text.append_of_full (by rw [← h.size_eq]; exact PrivBuf.full_iff.mp hfull) more

theorem Holds.print (h : b.Holds buf size text) (hs : size < 2 ^ 31) (hpos : 0 < size)
    (line : List UInt8) : (b.print line).1.Holds buf size (text ++ line) where
  buf_eq := h.buf_eq
  size_eq := h.size_eq
  text := by
    have hline := h.text.print hs hpos line
    rw [← h.buf_eq, ← h.size_eq] at hline ⊢
    rw [PrivBuf.print, scnprintf_eq] at *
    exact hline

/-- A line that does not fill the buffer is printed whole. -/
theorem Holds.print_length (h : b.Holds buf size text) (hs : size < 2 ^ 31) (hpos : 0 < size)
    {line : List UInt8} (hfull : (b.print line).1.full = false) : (b.print line).2 = line.length := by
  have hline := h.print hs hpos line
  have hlt : ¬ size ≤ (text ++ line).length + 1 := fun hle => by
    rw [(hline.full_iff hpos).mpr hle] at hfull
    cases hfull
  have hbefore := h.text.offset_eq
  have hafter := hline.text.offset_eq
  have hoffset : (b.print line).1.offset = b.offset + (b.print line).2 := rfl
  rw [List.length_append] at hlt hafter
  omega

/-- Nothing is printed where there is no space, or more than `INT_MAX` bytes. -/
theorem print_nothing (hspace : b.size ≤ b.offset ∨ 2 ^ 31 ≤ b.size - b.offset)
    (line : List UInt8) :
    (b.print line).2 = 0 ∧ (b.print line).1.size = b.size ∧ (b.print line).1.offset = b.offset ∧
      (b.print line).1.full = false := by
  have hnone : (b.print line).2 = 0 := by
    rw [print]
    rcases hspace with hzero | hhuge
    · have hle := scnprintf_le b.mem (b.buf + b.offset) (b.size - b.offset) line
      dsimp only
      omega
    · rw [scnprintf_huge b.mem _ line hhuge]
  have hafter : (b.print line).1.offset = b.offset := by
    show b.offset + (b.print line).2 = b.offset
    omega
  refine ⟨hnone, rfl, hafter, ?_⟩
  have hne : (b.print line).1.offset + 1 ≠ (b.print line).1.size := by
    show (b.print line).1.offset + 1 ≠ b.size
    omega
  exact beq_false_of_ne hne

/-! ## Lines that fill a buffer -/

/-- Lines printed until the buffer is full, and whether it is. -/
def printAll : List (List UInt8) → PrivBuf → PrivBuf × Bool
  | [], b => (b, false)
  | line :: lines, b =>
    if (b.print line).1.full then ((b.print line).1, true) else printAll lines (b.print line).1

theorem printAll_append (xs ys : List (List UInt8)) : ∀ b : PrivBuf,
    printAll (xs ++ ys) b =
      if (printAll xs b).2 then printAll xs b else printAll ys (printAll xs b).1 := by
  induction xs with
  | nil => exact fun b => rfl
  | cons line xs ih =>
    intro b
    rw [List.cons_append, printAll, printAll]
    split
    · rfl
    · exact ih _

/-- A line in the space that is left. -/
theorem print_space (h : b.offset < b.size) (hs : b.size - b.offset < 2 ^ 31) (line : List UInt8) :
    (b.print line).1.size - (b.print line).1.offset = max (b.size - b.offset - line.length) 1 ∧
      (b.print line).1.offset < (b.print line).1.size := by
  have hoffset : (b.print line).1.offset = b.offset + min line.length (b.size - b.offset - 1) := by
    rw [print, scnprintf_of_lt b.mem _ line hs]
  have hsize : (b.print line).1.size = b.size := rfl
  omega

theorem full_iff_space (h : b.offset < b.size) : b.full = true ↔ b.size - b.offset = 1 := by
  rw [full_iff]
  omega

/-- **Whether lines fill a buffer** that is not full yet. -/
theorem printAll_full_of_lt (lines : List (List UInt8)) : ∀ b : PrivBuf,
    1 < b.size - b.offset → b.size - b.offset < 2 ^ 31 →
      ((printAll lines b).2 = true ↔ b.size - b.offset ≤ lines.flatten.length + 1) := by
  induction lines with
  | nil =>
    intro b hroom _
    refine iff_of_false Bool.false_ne_true ?_
    rw [List.flatten_nil, List.length_nil]
    omega
  | cons line lines ih =>
    intro b hroom hs
    obtain ⟨hspace, hlt⟩ := print_space (by omega : b.offset < b.size) hs line
    have hfull := full_iff_space hlt
    rw [printAll, List.flatten_cons, List.length_append]
    split
    case isTrue hline =>
      refine iff_of_true rfl ?_
      have := hfull.mp hline
      omega
    case isFalse hline =>
      have hmore : (b.print line).1.size - (b.print line).1.offset ≠ 1 := fun h1 =>
        hline (hfull.mpr h1)
      rw [ih (b.print line).1 (by omega) (by omega)]
      omega

theorem printAll_full_iff (line : List UInt8) (lines : List (List UInt8)) (h : b.offset < b.size)
    (hs : b.size - b.offset < 2 ^ 31) :
    (printAll (line :: lines) b).2 = true ↔
      b.size - b.offset ≤ (line :: lines).flatten.length + 1 := by
  by_cases hroom : 1 < b.size - b.offset
  · exact printAll_full_of_lt (line :: lines) b hroom hs
  · -- the buffer is full already, and stays so
    obtain ⟨hspace, hlt⟩ := print_space h hs line
    have hline : (b.print line).1.full = true := (full_iff_space hlt).mpr (by omega)
    rw [printAll, if_pos hline]
    exact iff_of_true rfl (by omega)

theorem printAll_quiet (lines : List (List UInt8)) : ∀ b : PrivBuf,
    b.size ≤ b.offset ∨ 2 ^ 31 ≤ b.size - b.offset → (printAll lines b).2 = false := by
  induction lines with
  | nil => exact fun b _ => rfl
  | cons line lines ih =>
    intro b hquiet
    obtain ⟨-, hsize, hoffset, hroom⟩ := b.print_nothing hquiet line
    rw [printAll, if_neg (by rw [hroom]; exact Bool.false_ne_true)]
    exact ih _ (by omega)

end PrivBuf

end SafelinuxDbg.MinidumpMemory
