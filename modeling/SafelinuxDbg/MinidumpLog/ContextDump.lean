import SafelinuxDbg.Lib.Lines
import SafelinuxDbg.Lib.SeqBuf

/-!
# Dumping the memory around the registers

In a panic or an oops the memory around every register that points into the kernel is printed to the
region `KCNTXT`: 128 bytes before and behind the address, in rows of eight words.  A word that cannot
be read is printed as asterisks.  The rows start at a multiple of four, so an address that is not one
makes the window a row longer, and the text is always one of whole rows.

* `mdRegContextData_eq`, `printReport_eq`: what is printed, as lines.
* `window_covers`: the rows of a register have every byte of its window.
* `reports_contents`: the buffer holds the reports, up to its end.
* `reports_read_back`: the text tells the CPUs, the registers that were shown with their addresses, and
  the memory around each of them.
-/

namespace SafelinuxDbg.MinidumpLog

open CMemory

/-! ## The dump -/

/-- What is read of a `struct pt_regs`; `userMode` is `user_mode(regs)`. -/
structure PtRegs where
  regs : Nat → UInt64
  sp : UInt64
  pc : UInt64
  userMode : Bool

/-- What the kernel provides: `PAGE_OFFSET`, and a word read by `get_kernel_nofault`, or `none` for a
fault. -/
structure KernelMemory where
  pageOffset : UInt64
  peek : UInt64 → Option UInt32

/-- The registers that are looked at. -/
inductive RegName
  | pc | lr | sp
  | x (i : Nat)
deriving DecidableEq

def RegName.text : RegName → List UInt8
  | .pc => ascii "PC"
  | .lr => ascii "LR"
  | .sp => ascii "SP"
  | .x i => ascii "X" ++ decimal i

/-- One word of a row. -/
def wordText : Option UInt32 → List UInt8
  | none => ascii " ********"
  | some data => ascii " " ++ hexPadded 8 data.toNat

/-- The loop over the words of a row. -/
def dumpWords (k : KernelMemory) : Nat → UInt64 → SeqBuf → SeqBuf
  | 0, _, s => s
  | j + 1, p, s => dumpWords k j (p + 4) (s.print (wordText (k.peek p)))

/-- The loop over the rows. -/
def dumpRows (k : KernelMemory) : Nat → UInt64 → SeqBuf → SeqBuf
  | 0, _, s => s
  | i + 1, p, s =>
    let s := s.print (hexPadded 4 (p &&& 0xffff).toNat ++ ascii " ")
    let s := dumpWords k 8 p s
    dumpRows k i (p + 32) (s.print (ascii "\n"))

/-- `addr < PAGE_OFFSET || addr > -256UL`. -/
def skipped (k : KernelMemory) (addr : UInt64) : Bool :=
  addr < k.pageOffset || 0xffffffffffffff00 < addr

/-- `nlines`: the bytes with those before `addr`, in rows of 32. -/
def rowCount (addr : UInt64) (nbytes : Nat) : Nat := (nbytes + (addr &&& 3).toNat + 31) / 32

def mdDumpData (k : KernelMemory) (addr : UInt64) (nbytes : Nat) (name : RegName) (s : SeqBuf) : SeqBuf :=
  if skipped k addr then s
  else
    let s := s.print (ascii "\n" ++ name.text ++ ascii ": 0x" ++ hexadecimal addr.toNat ++ ascii ":\n")
    dumpRows k (rowCount addr nbytes) (addr &&& ~~~3) s

/-- The registers in the order of `md_reg_context_data`. -/
def namedRegs (regs : PtRegs) : List (RegName × UInt64) :=
  [(.pc, regs.pc), (.lr, regs.regs 30), (.sp, regs.sp)] ++
    (List.range 30).map fun i => (.x i, regs.regs i)

def mdRegContextData (k : KernelMemory) (regs : PtRegs) (s : SeqBuf) : SeqBuf :=
  if regs.userMode || regs.pc = 0 then s
  else (namedRegs regs).foldl (fun s r => mdDumpData k (r.2 - 128) 256 r.1 s) s

/-- Who is reported: the CPU that panicked, one that was stopped, or one in an oops. -/
inductive Head
  | panic (cpu : Nat)
  | stopped (cpu : Nat)
  | die (cpu : Nat)

/-- What `md_dump_panic_regs`, `md_dump_other_cpus_context` and `md_die_context_notify` print before the
registers. -/
def Head.text : Head → List UInt8
  | .panic cpu => ascii "PANIC CPU : " ++ signedDecimal cpu ++ ascii "\n"
  | .stopped cpu => ascii "\nSTOPPED CPU : " ++ signedDecimal cpu ++ ascii "\n"
  | .die cpu => ascii "\nDIE CPU : " ++ signedDecimal cpu ++ ascii "\n"

/-- A report on a CPU, with the memory as it was then. -/
structure Report where
  head : Head
  regs : PtRegs
  memory : KernelMemory

def printReport (s : SeqBuf) (r : Report) : SeqBuf := mdRegContextData r.memory r.regs (s.print r.head.text)

/-- The reports of `md_dump_other_cpus_context`, from `regs_before_stop`. -/
def otherCpus (k : KernelMemory) (possibleCpus : List Nat) (regsBeforeStop : Nat → PtRegs) : List Report :=
  possibleCpus.map fun cpu => ⟨.stopped cpu, regsBeforeStop cpu, k⟩

def mdDumpOtherCpusContext (k : KernelMemory) (possibleCpus : List Nat) (regsBeforeStop : Nat → PtRegs)
    (s : SeqBuf) : SeqBuf :=
  (otherCpus k possibleCpus regsBeforeStop).foldl printReport s

/-! ## What is shown -/

/-- A row: the low bits of its address, and its words. -/
structure Row where
  offset : UInt16
  words : List (Option UInt32)

/-- The memory around a register, as it is shown. -/
structure Block where
  name : RegName
  addr : UInt64
  rows : List Row

/-- `n` words from `p` on. -/
def words (k : KernelMemory) : Nat → UInt64 → List (Option UInt32)
  | 0, _ => []
  | n + 1, p => k.peek p :: words k n (p + 4)

/-- `n` rows from `p` on. -/
def rows (k : KernelMemory) : Nat → UInt64 → List Row
  | 0, _ => []
  | n + 1, p => ⟨p.toUInt16, words k 8 p⟩ :: rows k n (p + 32)

/-- The registers that are shown, with the addresses where their windows start. -/
def shownRegs (k : KernelMemory) (regs : PtRegs) : List (RegName × UInt64) :=
  if regs.userMode || regs.pc = 0 then []
  else ((namedRegs regs).map fun r => (r.1, r.2 - 128)).filter fun r => !skipped k r.2

def block (k : KernelMemory) (r : RegName × UInt64) : Block :=
  ⟨r.1, r.2, rows k (rowCount r.2 256) (r.2 &&& ~~~3)⟩

def Report.blocks (r : Report) : List Block := (shownRegs r.memory r.regs).map (block r.memory)

/-- A line of the dump. -/
inductive CntxtLine
  | blank
  | panic (cpu : Nat)
  | stopped (cpu : Nat)
  | die (cpu : Nat)
  | reg (name : RegName) (addr : UInt64)
  | row (r : Row)

def CntxtLine.text : CntxtLine → List UInt8
  | .blank => []
  | .panic cpu => ascii "PANIC CPU : " ++ signedDecimal cpu
  | .stopped cpu => ascii "STOPPED CPU : " ++ signedDecimal cpu
  | .die cpu => ascii "DIE CPU : " ++ signedDecimal cpu
  | .reg name addr => name.text ++ (ascii ": 0x" ++ (hexadecimal addr.toNat ++ ascii ":"))
  | .row r => hexPadded 4 r.offset.toNat ++ (ascii " " ++ r.words.flatMap wordText)

def Block.lines (b : Block) : List CntxtLine := .blank :: .reg b.name b.addr :: b.rows.map CntxtLine.row

def Head.lines : Head → List CntxtLine
  | .panic cpu => [.panic cpu]
  | .stopped cpu => [.blank, .stopped cpu]
  | .die cpu => [.blank, .die cpu]

def Report.lines (r : Report) : List CntxtLine := r.head.lines ++ r.blocks.flatMap Block.lines

def cntxtText (lines : List CntxtLine) : List UInt8 := joinLines (lines.map CntxtLine.text)

theorem cntxtText_append (ls ms : List CntxtLine) : cntxtText (ls ++ ms) = cntxtText ls ++ cntxtText ms := by
  rw [cntxtText, List.map_append, joinLines_append]
  rfl

theorem cntxtText_cons (l : CntxtLine) (ls : List CntxtLine) :
    cntxtText (l :: ls) = l.text ++ 10 :: cntxtText ls := joinLines_cons _ _

/-! ## The dump as lines -/

section Printing

variable {k : KernelMemory}

theorem dumpWords_eq (k : KernelMemory) (n : Nat) (p : UInt64) (s : SeqBuf) :
    dumpWords k n p s = s.print ((words k n p).flatMap wordText) := by
  induction n generalizing p s with
  | zero => exact (SeqBuf.print_nil s).symm
  | succ n ih => rw [dumpWords, ih, SeqBuf.print_append, words, List.flatMap_cons]

theorem dumpRows_eq (k : KernelMemory) (n : Nat) (p : UInt64) (s : SeqBuf) :
    dumpRows k n p s = s.print (cntxtText ((rows k n p).map CntxtLine.row)) := by
  induction n generalizing p s with
  | zero => exact (SeqBuf.print_nil s).symm
  | succ n ih =>
    have hoffset : (p &&& 0xffff).toNat = p.toUInt16.toNat := by
      rw [UInt64.toNat_and, UInt64.toNat_toUInt16]
      exact Nat.and_two_pow_sub_one_eq_mod p.toNat 16
    rw [dumpRows, ih, dumpWords_eq, SeqBuf.print_append, SeqBuf.print_append, SeqBuf.print_append, rows,
      List.map_cons, cntxtText_cons, CntxtLine.text, hoffset]
    simp only [List.append_assoc]
    rfl

theorem mdDumpData_eq (k : KernelMemory) (addr : UInt64) (name : RegName) (s : SeqBuf) :
    mdDumpData k addr 256 name s =
      s.print (if skipped k addr then [] else cntxtText (block k (name, addr)).lines) := by
  rw [mdDumpData]
  split
  · exact (SeqBuf.print_nil s).symm
  · rw [dumpRows_eq, SeqBuf.print_append, block, Block.lines, cntxtText_cons, cntxtText_cons,
      CntxtLine.text, CntxtLine.text]
    simp only [List.append_assoc]
    rfl

theorem mdRegContextData_eq (k : KernelMemory) (regs : PtRegs) (s : SeqBuf) :
    mdRegContextData k regs s =
      s.print (cntxtText (((shownRegs k regs).map (block k)).flatMap Block.lines)) := by
  rw [mdRegContextData, shownRegs]
  split
  · exact (SeqBuf.print_nil s).symm
  · induction namedRegs regs generalizing s with
    | nil => exact (SeqBuf.print_nil s).symm
    | cons r rs ih =>
      rw [List.foldl_cons, ih, mdDumpData_eq, SeqBuf.print_append, List.map_cons, List.filter_cons]
      cases skipped k (r.2 - 128) with
      | true => rfl
      | false =>
        rw [if_neg Bool.false_ne_true, Bool.not_false, if_pos rfl, List.map_cons, List.flatMap_cons,
          cntxtText_append]

theorem printReport_eq (s : SeqBuf) (r : Report) : printReport s r = s.print (cntxtText r.lines) := by
  have hhead : r.head.text = cntxtText r.head.lines := by
    cases r.head with
    | panic cpu =>
      rw [Head.text, Head.lines, cntxtText_cons]
      rfl
    | stopped cpu =>
      rw [Head.text, Head.lines, cntxtText_cons, cntxtText_cons, CntxtLine.text, CntxtLine.text]
      simp only [List.append_assoc]
      rfl
    | die cpu =>
      rw [Head.text, Head.lines, cntxtText_cons, cntxtText_cons, CntxtLine.text, CntxtLine.text]
      simp only [List.append_assoc]
      rfl
  rw [printReport, mdRegContextData_eq, SeqBuf.print_append, hhead, ← cntxtText_append]
  rfl

/-- **All reports** are one text. -/
theorem printReports_eq (rs : List Report) (s : SeqBuf) :
    rs.foldl printReport s = s.print (cntxtText (rs.flatMap Report.lines)) := by
  induction rs generalizing s with
  | nil => exact (SeqBuf.print_nil s).symm
  | cons r rs ih =>
    rw [List.foldl_cons, ih, printReport_eq, SeqBuf.print_append, List.flatMap_cons, cntxtText_append]

end Printing

/-! ## Lines -/

section Lines

theorem wordText_length (w : Option UInt32) : (wordText w).length = 9 := by
  cases w with
  | none => rfl
  | some data =>
    have hlength := length_hexPadded 8 data.toNat (by decide) data.toNat_lt
    rw [wordText, List.length_append, hlength]
    rfl

theorem wordText_injective {v w : Option UInt32} (h : wordText v = wordText w) : v = w := by
  have hdigits : ∀ data : UInt32, wordText (some data) ≠ wordText none := by
    intro data heq
    have hmem : (42 : UInt8) ∈ wordText (some data) := by
      rw [heq]
      decide
    rcases List.mem_append.mp hmem with hblank | hdigit
    · exact absurd hblank (by decide)
    · exact absurd (mem_hexPadded hdigit) (by decide)
  cases v with
  | none =>
    cases w with
    | none => rfl
    | some data => exact absurd h.symm (hdigits data)
  | some data =>
    cases w with
    | none => exact absurd h (hdigits data)
    | some data' =>
      have hnumber := hexPadded_injective (List.append_cancel_left h)
      rw [UInt32.toNat_inj.mp hnumber]

/-- Words of one width are told apart. -/
theorem wordsText_injective : ∀ {vs ws : List (Option UInt32)},
    vs.flatMap wordText = ws.flatMap wordText → vs = ws
  | [], [], _ => rfl
  | [], w :: ws, h => by
    have hlength := congrArg List.length h
    rw [List.flatMap_cons, List.flatMap_nil, List.length_append, wordText_length, List.length_nil] at hlength
    omega
  | v :: vs, [], h => by
    have hlength := congrArg List.length h
    rw [List.flatMap_cons, List.flatMap_nil, List.length_append, wordText_length, List.length_nil] at hlength
    omega
  | v :: vs, w :: ws, h => by
    rw [List.flatMap_cons, List.flatMap_cons] at h
    obtain ⟨hword, hrest⟩ := List.append_inj h ((wordText_length v).trans (wordText_length w).symm)
    rw [wordText_injective hword, wordsText_injective hrest]

/-- The name of a register has no colon. -/
theorem RegName.no_colon (name : RegName) : (58 : UInt8) ∉ name.text := by
  cases name with
  | x i =>
    intro hmem
    rcases List.mem_append.mp hmem with hletter | hdigit
    · exact absurd hletter (by decide)
    · exact absurd (mem_decimal hdigit) (by decide)
  | _ => decide

theorem RegName.text_injective {a b : RegName} (h : a.text = b.text) : a = b := by
  cases a with
  | x i =>
    cases b with
    | x j => rw [decimal_injective (List.cons.inj h).2]
    | _ => exact absurd (Option.some.inj (congrArg List.head? h)) (by decide)
  | _ =>
    cases b with
    | x j => exact absurd (Option.some.inj (congrArg List.head? h)) (by decide)
    | _ => first | rfl | exact absurd h (by decide)

/-- The kinds of lines. -/
inductive LineKind
  | blank | panic | stopped | die | reg | row
deriving DecidableEq

def CntxtLine.kind : CntxtLine → LineKind
  | .blank => .blank
  | .panic _ => .panic
  | .stopped _ => .stopped
  | .die _ => .die
  | .reg _ _ => .reg
  | .row _ => .row

/-- The kind of a line, from its first two bytes. -/
def kindOf : List UInt8 → LineKind
  | [] => .blank
  | 80 :: 65 :: _ => .panic
  | 83 :: 84 :: _ => .stopped
  | 68 :: _ => .die
  | b :: _ => if b.toNat < 58 ∨ 97 ≤ b.toNat then .row else .reg

theorem CntxtLine.kind_eq (l : CntxtLine) : l.kind = kindOf l.text := by
  cases l with
  | blank => rfl
  | panic cpu => rfl
  | stopped cpu => rfl
  | die cpu => rfl
  | reg name addr =>
    cases name with
    | pc => rfl
    | lr => rfl
    | sp => rfl
    | x i => rfl
  | row r =>
    have hlength := length_hexPadded 4 r.offset.toNat (by decide) r.offset.toNat_lt
    rw [CntxtLine.text]
    cases hdigits : hexPadded 4 r.offset.toNat with
    | nil =>
      rw [hdigits] at hlength
      cases hlength
    | cons b bs =>
      have hrange := mem_hexPadded (hdigits ▸ List.mem_cons_self : b ∈ hexPadded 4 r.offset.toNat)
      rw [List.cons_append, kindOf]
      · exact (if_pos (by omega)).symm
      · rintro bs' rfl
        exact absurd hrange (by decide)
      · rintro bs' rfl
        exact absurd hrange (by decide)
      · rintro rfl
        exact absurd hrange (by decide)

/-- **A line tells what it shows.** -/
theorem CntxtLine.text_injective : Function.Injective CntxtLine.text := by
  intro a b h
  have hkind : a.kind = b.kind := by rw [kind_eq, kind_eq, h]
  cases a with
  | blank =>
    cases b with
    | blank => rfl
    | _ => cases hkind
  | panic cpu =>
    cases b with
    | panic cpu' => rw [Int.ofNat.inj (signedDecimal_injective (List.append_cancel_left h))]
    | _ => cases hkind
  | stopped cpu =>
    cases b with
    | stopped cpu' => rw [Int.ofNat.inj (signedDecimal_injective (List.append_cancel_left h))]
    | _ => cases hkind
  | die cpu =>
    cases b with
    | die cpu' => rw [Int.ofNat.inj (signedDecimal_injective (List.append_cancel_left h))]
    | _ => cases hkind
  | reg name addr =>
    cases b with
    | reg name' addr' =>
      obtain ⟨hname, hrest⟩ := append_sep_inj name.no_colon name'.no_colon h
      have hprefix : ascii " 0x" ++ (hexadecimal addr.toNat ++ ascii ":") =
          ascii " 0x" ++ (hexadecimal addr'.toNat ++ ascii ":") := hrest
      have hdigits := List.append_cancel_right (List.append_cancel_left hprefix)
      rw [RegName.text_injective hname, UInt64.toNat_inj.mp (hexadecimal_injective hdigits)]
    | _ => cases hkind
  | row r =>
    cases b with
    | row r' =>
      have hblank : ∀ n, (32 : UInt8) ∉ hexPadded 4 n :=
        fun n hmem => absurd (mem_hexPadded hmem) (by decide)
      obtain ⟨hoffset, hwords⟩ := append_sep_inj (hblank _) (hblank _) h
      have hoffset' := UInt16.toNat_inj.mp (hexPadded_injective hoffset)
      obtain ⟨offset, ws⟩ := r
      obtain ⟨offset', ws'⟩ := r'
      have hwords' : ws = ws' := wordsText_injective hwords
      rw [show offset = offset' from hoffset', hwords']
    | _ => cases hkind

theorem RegName.printable (name : RegName) : Printable name.text := by
  cases name with
  | x i => exact printable_append.mpr ⟨by decide, printable_decimal i⟩
  | _ => decide

theorem wordText_printable (w : Option UInt32) : Printable (wordText w) := by
  cases w with
  | none => decide
  | some data => exact printable_append.mpr ⟨by decide, printable_hexPadded _ _⟩

theorem CntxtLine.printable (l : CntxtLine) : Printable l.text := by
  cases l with
  | blank => decide
  | panic cpu => exact printable_append.mpr ⟨by decide, printable_signedDecimal _⟩
  | stopped cpu => exact printable_append.mpr ⟨by decide, printable_signedDecimal _⟩
  | die cpu => exact printable_append.mpr ⟨by decide, printable_signedDecimal _⟩
  | reg name addr =>
    simp only [text, printable_append, name.printable, printable_hexadecimal, true_and]
    decide
  | row r =>
    simp only [text, printable_append, printable_hexPadded, true_and]
    refine ⟨by decide, ?_⟩
    intro b hb
    obtain ⟨w, -, hw⟩ := List.mem_flatMap.mp hb
    exact wordText_printable w b hw

end Lines

/-! ## Blocks and reports -/

/-- What is shown of a report. -/
def Report.shown (r : Report) : Head × List Block := (r.head, r.blocks)

def shownLines (x : Head × List Block) : List CntxtLine := x.1.lines ++ x.2.flatMap Block.lines

/-- The text goes on with something that is not of this register. -/
def RowsEnd (rest : List CntxtLine) : Prop := ∀ r tail, rest ≠ .row r :: tail

/-- The text goes on with something that is not of this CPU. -/
structure BlocksEnd (rest : List CntxtLine) : Prop where
  rows : RowsEnd rest
  blocks : ∀ name addr tail, rest ≠ .blank :: .reg name addr :: tail

section Reading

variable {r q : List CntxtLine}

theorem rows_inj : ∀ {as bs : List Row}, RowsEnd r → RowsEnd q →
    as.map CntxtLine.row ++ r = bs.map CntxtLine.row ++ q → as = bs ∧ r = q
  | [], [], _, _, h => ⟨rfl, h⟩
  | [], b :: bs, hr, _, h => absurd h (hr _ _)
  | a :: as, [], _, hq, h => absurd h.symm (hq _ _)
  | a :: as, b :: bs, hr, hq, h => by
    rw [List.map_cons, List.map_cons, List.cons_append, List.cons_append, List.cons.injEq,
      CntxtLine.row.injEq] at h
    obtain ⟨hrows, hrest⟩ := rows_inj hr hq h.2
    exact ⟨by rw [h.1, hrows], hrest⟩

theorem rowsEnd_blocks (h : RowsEnd r) (bs : List Block) : RowsEnd (bs.flatMap Block.lines ++ r) := by
  cases bs with
  | nil => exact h
  | cons b bs =>
    intro row tail heq
    cases heq

theorem blocks_inj : ∀ {as bs : List Block}, BlocksEnd r → BlocksEnd q →
    as.flatMap Block.lines ++ r = bs.flatMap Block.lines ++ q → as = bs ∧ r = q
  | [], [], _, _, h => ⟨rfl, h⟩
  | [], b :: bs, hr, _, h => absurd h (hr.blocks _ _ _)
  | a :: as, [], _, hq, h => absurd h.symm (hq.blocks _ _ _)
  | a :: as, b :: bs, hr, hq, h => by
    simp only [List.flatMap_cons, Block.lines, List.cons_append, List.append_assoc, List.cons.injEq,
      CntxtLine.reg.injEq, true_and] at h
    obtain ⟨⟨hname, haddr⟩, hrest⟩ := h
    obtain ⟨hrows, hrest⟩ := rows_inj (rowsEnd_blocks hr.rows as) (rowsEnd_blocks hq.rows bs) hrest
    obtain ⟨hblocks, hrest⟩ := blocks_inj hr hq hrest
    have hblock : a = b := by
      cases a
      cases b
      rw [Block.mk.injEq]
      exact ⟨hname, haddr, hrows⟩
    exact ⟨by rw [hblock, hblocks], hrest⟩

theorem Head.lines_inj {a b : Head} (h : a.lines ++ r = b.lines ++ q) : a = b ∧ r = q := by
  cases a <;> cases b <;> simp_all [Head.lines]

theorem blocksEnd_reports (xs : List (Head × List Block)) : BlocksEnd (xs.flatMap shownLines) := by
  cases xs with
  | nil => exact ⟨nofun, nofun⟩
  | cons x xs =>
    obtain ⟨head, blocks⟩ := x
    cases head <;> exact ⟨nofun, nofun⟩

/-- **The lines tell the reports.** -/
theorem reports_inj : ∀ {xs ys : List (Head × List Block)},
    xs.flatMap shownLines = ys.flatMap shownLines → xs = ys
  | [], [], _ => rfl
  | [], y :: ys, h => by
    obtain ⟨head, blocks⟩ := y
    cases head <;> cases h
  | x :: xs, [], h => by
    obtain ⟨head, blocks⟩ := x
    cases head <;> cases h
  | x :: xs, y :: ys, h => by
    simp only [List.flatMap_cons, shownLines, List.append_assoc] at h
    obtain ⟨hhead, h⟩ := Head.lines_inj h
    obtain ⟨hblocks, h⟩ := blocks_inj (blocksEnd_reports xs) (blocksEnd_reports ys) h
    rw [Prod.ext hhead hblocks, reports_inj h]

end Reading

/-! ## The memory around a register -/

section Window

variable {k k' : KernelMemory}

theorem words_peek : ∀ {n : Nat} {p : UInt64}, words k n p = words k' n p → ∀ j < n,
    k.peek (p + 4 * UInt64.ofNat j) = k'.peek (p + 4 * UInt64.ofNat j)
  | n + 1, p, h, 0, _ => by
    have hzero : 4 * UInt64.ofNat 0 = 0 := by decide
    rw [words, words, List.cons.injEq] at h
    rw [hzero, UInt64.add_zero]
    exact h.1
  | n + 1, p, h, j + 1, hj => by
    rw [words, words, List.cons.injEq] at h
    have hnext := words_peek h.2 j (Nat.lt_of_succ_lt_succ hj)
    have hsucc : p + 4 + 4 * UInt64.ofNat j = p + 4 * UInt64.ofNat (j + 1) := by
      rw [UInt64.ofNat_add, UInt64.mul_add, UInt64.add_assoc]
      congr 1
      exact UInt64.add_comm _ _
    rw [hsucc] at hnext
    exact hnext

theorem rows_peek : ∀ {n : Nat} {p : UInt64}, rows k n p = rows k' n p → ∀ i < n, ∀ j < 8,
    k.peek (p + 32 * UInt64.ofNat i + 4 * UInt64.ofNat j) =
      k'.peek (p + 32 * UInt64.ofNat i + 4 * UInt64.ofNat j)
  | n + 1, p, h, 0, _, j, hj => by
    have hzero : 32 * UInt64.ofNat 0 = 0 := by decide
    rw [rows, rows, List.cons.injEq, Row.mk.injEq] at h
    rw [hzero, UInt64.add_zero]
    exact words_peek h.1.2 j hj
  | n + 1, p, h, i + 1, hi, j, hj => by
    rw [rows, rows, List.cons.injEq] at h
    have hnext := rows_peek h.2 i (Nat.lt_of_succ_lt_succ hi) j hj
    have hsucc : p + 32 + 32 * UInt64.ofNat i = p + 32 * UInt64.ofNat (i + 1) := by
      rw [UInt64.ofNat_add, UInt64.mul_add, UInt64.add_assoc]
      congr 1
      exact UInt64.add_comm _ _
    rw [hsucc] at hnext
    exact hnext

/-- Rounding down to a word. -/
theorem and_not_three_toNat (x : UInt64) : (x &&& ~~~3).toNat = x.toNat / 4 * 4 :=
  toNat_clearLow (k := 2) (by decide) (by decide) x

/-- **The window of a register**: every byte of it is in one of the rows. -/
theorem window_covers (addr : UInt64) {d : Nat} (hd : d < 256) :
    ∃ i < rowCount addr 256, ∃ j < 8,
      (addr &&& ~~~3) + 32 * UInt64.ofNat i + 4 * UInt64.ofNat j = (addr + UInt64.ofNat d) &&& ~~~3 := by
  have haddr := addr.toNat_lt
  have hlow : (addr &&& 3).toNat = addr.toNat % 4 := by
    rw [UInt64.toNat_and]
    exact Nat.and_two_pow_sub_one_eq_mod addr.toNat 2
  refine ⟨(addr.toNat % 4 + d) / 32, ?_, (addr.toNat % 4 + d) % 32 / 4, by omega, ?_⟩
  · rw [rowCount, hlow]
    omega
  · apply UInt64.toNat_inj.mp
    rw [and_not_three_toNat]
    simp only [UInt64.toNat_add, UInt64.toNat_mul, and_not_three_toNat, UInt64.toNat_ofNat',
      show (32 : UInt64).toNat = 32 from rfl, show (4 : UInt64).toNat = 4 from rfl]
    omega

/-- Blocks that are shown alike: the registers, and the memory around them. -/
theorem blocks_peek {rs rs' : List (RegName × UInt64)} (h : rs.map (block k) = rs'.map (block k')) :
    rs = rs' ∧ ∀ r ∈ rs, ∀ d < 256,
      k.peek ((r.2 + UInt64.ofNat d) &&& ~~~3) = k'.peek ((r.2 + UInt64.ofNat d) &&& ~~~3) := by
  induction rs generalizing rs' with
  | nil =>
    rw [List.map_nil, eq_comm, List.map_eq_nil_iff] at h
    exact ⟨h.symm, List.forall_mem_nil _⟩
  | cons r rs ih =>
    cases rs' with
    | nil => cases h
    | cons r' rs' =>
      rw [List.map_cons, List.map_cons, List.cons.injEq] at h
      obtain ⟨hblock, hrest⟩ := h
      obtain ⟨hregs, hpeek⟩ := ih hrest
      rw [block, block, Block.mk.injEq] at hblock
      obtain ⟨hname, haddr, hrows⟩ := hblock
      have hreg : r = r' := Prod.ext hname haddr
      subst hreg
      refine ⟨by rw [hregs], List.forall_mem_cons.mpr ⟨?_, hpeek⟩⟩
      intro d hd
      obtain ⟨i, hi, j, hj, hplace⟩ := window_covers r.2 hd
      rw [← hplace]
      exact rows_peek hrows i hi j hj

end Window

/-! ## The buffer -/

section Buffer

variable {m : Nat → UInt8} {a n : Nat}

/-- Reports printed one after the other to a buffer that was cleared. -/
def reportsDump (rs : List Report) (m : Nat → UInt8) (a n : Nat) (pos : 0 < n) (small : n < 2 ^ 31)
    (hzero : m a = 0) : SeqBuf :=
  rs.foldl printReport (SeqBuf.init m a n pos small hzero)

/-- The buffer holds the reports, up to its last byte but one. -/
theorem reports_contents (rs : List Report) (pos : 0 < n) (small : n < 2 ^ 31) (hzero : m a = 0) :
    (reportsDump rs m a n pos small hzero).contents = (cntxtText (rs.flatMap Report.lines)).take (n - 1) := by
  rw [reportsDump, printReports_eq]
  refine SeqBuf.contents_print hzero pos small (noNul_joinLines ?_)
  intro l hl
  obtain ⟨line, -, rfl⟩ := List.mem_map.mp hl
  exact line.printable.noNul

theorem reports_contents_of_room (rs : List Report) (pos : 0 < n) (small : n < 2 ^ 31) (hzero : m a = 0)
    (hroom : (reportsDump rs m a n pos small hzero).contents.length + 1 < n) :
    (reportsDump rs m a n pos small hzero).contents = cntxtText (rs.flatMap Report.lines) := by
  rw [reports_contents, List.length_take] at hroom
  rw [reports_contents, List.take_of_length_le (by omega)]

/-- Reports with the same text show the same. -/
theorem shown_of_text {rs rs' : List Report}
    (h : cntxtText (rs.flatMap Report.lines) = cntxtText (rs'.flatMap Report.lines)) :
    rs.map Report.shown = rs'.map Report.shown := by
  have hlines := joinLines_map_injective CntxtLine.text_injective CntxtLine.printable h
  have hflat : ∀ rs : List Report, rs.flatMap Report.lines = (rs.map Report.shown).flatMap shownLines := by
    intro rs
    rw [List.flatMap_map]
    rfl
  rw [hflat, hflat] at hlines
  exact reports_inj hlines

/-- **The reports are read back**: when two buffers that are not full hold the same text, the same CPUs
were reported in the same roles, with the same registers shown, and for each of these the memory from
128 bytes before the address in it to 127 behind it was the same, or could not be read either time. -/
theorem reports_read_back (rs rs' : List Report) (m m' : Nat → UInt8) (a a' : Nat) {n n' : Nat}
    (pos : 0 < n) (small : n < 2 ^ 31) (hzero : m a = 0)
    (pos' : 0 < n') (small' : n' < 2 ^ 31) (hzero' : m' a' = 0)
    (hroom : (reportsDump rs m a n pos small hzero).contents.length + 1 < n)
    (hroom' : (reportsDump rs' m' a' n' pos' small' hzero').contents.length + 1 < n')
    (hsame : (reportsDump rs m a n pos small hzero).contents =
      (reportsDump rs' m' a' n' pos' small' hzero').contents) :
    rs.map Report.head = rs'.map Report.head ∧
      ∀ (i : Nat) (r r' : Report), rs[i]? = some r → rs'[i]? = some r' →
        shownRegs r.memory r.regs = shownRegs r'.memory r'.regs ∧
          ∀ x ∈ shownRegs r.memory r.regs, ∀ d < 256,
            r.memory.peek ((x.2 + UInt64.ofNat d) &&& ~~~3) =
              r'.memory.peek ((x.2 + UInt64.ofNat d) &&& ~~~3) := by
  rw [reports_contents_of_room rs pos small hzero hroom,
    reports_contents_of_room rs' pos' small' hzero' hroom'] at hsame
  have hshown := shown_of_text hsame
  constructor
  · have hheads := congrArg (List.map Prod.fst) hshown
    rwa [List.map_map, List.map_map] at hheads
  · intro i r r' hr hr'
    have hi := congrArg (fun l => l[i]?) hshown
    rw [List.getElem?_map, List.getElem?_map, hr, hr', Option.map_some, Option.map_some,
      Option.some.injEq, Report.shown, Report.shown, Prod.mk.injEq] at hi
    exact blocks_peek hi.2

/-- A CPU whose program counter is `pc`, with nothing in the other registers. -/
def pcRegs (pc : UInt64) : PtRegs := ⟨fun _ => 0, 0, pc, false⟩

/-- Memory that holds the number of each word, and cannot be read from `top` on. -/
def countedMemory (top : UInt64) : KernelMemory where
  pageOffset := 0xffff000000000000
  peek := fun p => if p < top then some (p / 4).toUInt32 else none

/-- A panic on CPU 1 while CPU 0 had not been stopped. -/
def panicReports (top : UInt64) : List Report :=
  [⟨.panic 1, pcRegs 0xffff000012345679, countedMemory top⟩, ⟨.stopped 0, pcRegs 0, countedMemory top⟩]

theorem reports_read_back_panic :
    let rs := panicReports 0xffffffff00000000
    let rs' := panicReports 0xffff800000000000
    rs.map Report.head = rs'.map Report.head ∧
      ∀ (i : Nat) (r r' : Report), rs[i]? = some r → rs'[i]? = some r' →
        shownRegs r.memory r.regs = shownRegs r'.memory r'.regs ∧
          ∀ x ∈ shownRegs r.memory r.regs, ∀ d < 256,
            r.memory.peek ((x.2 + UInt64.ofNat d) &&& ~~~3) =
              r'.memory.peek ((x.2 + UInt64.ofNat d) &&& ~~~3) := by
  intro rs rs'
  have hsame : cntxtText (rs.flatMap Report.lines) = cntxtText (rs'.flatMap Report.lines) := by
    decide +kernel
  have hlength : (cntxtText (rs.flatMap Report.lines)).length + 1 < 4096 := by decide +kernel
  have hzero : (fun _ => 0 : Nat → UInt8) 8192 = 0 := rfl
  have hpos : 0 < 4096 := by decide
  have hsmall : 4096 < 2 ^ 31 := by decide
  refine reports_read_back rs rs' (fun _ => 0) (fun _ => 0) 8192 8192 hpos hsmall hzero hpos hsmall hzero
    ?_ ?_ ?_
  · rw [reports_contents, List.length_take]
    omega
  · rw [reports_contents, List.length_take, ← hsame]
    omega
  · rw [reports_contents, reports_contents, hsame]

end Buffer

end SafelinuxDbg.MinidumpLog
