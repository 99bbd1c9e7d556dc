import Mathlib.Data.List.Count
import Mathlib.Data.Int.Basic
import SafelinuxDbg.MemoryDump.Rendering

/-!
# The walk through the table

How `register_config_show` gets from the first per-core register to the end of the table.  It goes
on by one word or by two, as the word it stands on tells it, and the words may be misread: a read
at offset 0 is skipped and its length is taken for a register.  Two words are always 0, the one
before the system registers and the last one.  A step of two words does not start on a 0, so no
step gets past the first system register or past the end.

`showWalk` is the loop with a record of where it was and what it has read.

* `registerConfigShow_walk`: after any sequence of lines the loop ends, it reads no word outside of
  the table, and unless the page is full it comes to the first system register once.
-/

namespace SafelinuxDbg.MemoryDump

open CMemory

/-! ## The loop with a record -/

/-- How the loop was left. -/
inductive WalkEnd
  /-- the index has come to the end -/
  | done
  /-- the page was full -/
  | full
  /-- there was no end yet, after as many rounds as were allowed -/
  | running
deriving DecidableEq

structure Walk where
  page : Page
  /-- the index of every round -/
  visited : List Nat
  /-- the words that were read -/
  reads : List Nat
  /-- the lines that were printed -/
  lines : List (List Char)
  ended : WalkEnd

/-- A round, before the others. -/
def Walk.after (w : Walk) (index : Nat) (reads : List Nat) (lines : List (List Char)) : Walk :=
  { w with visited := index :: w.visited, reads := reads ++ w.reads, lines := lines ++ w.lines }

/-- The words that are read for the entry at `index`. -/
def entryReads (p : Nat → UInt32) (index : Nat) : List Nat :=
  if p index &&& 3 = cmdReadWord then [index] else [index, index + 1]

/-- `showLoop` with the record. -/
def showWalk (p : Nat → UInt32) (systemIndexStart indexEnd : Int) : Nat → Nat → Page → Walk
  | 0, _, page => ⟨page, [], [], [], .running⟩
  | fuel + 1, index, page =>
    if (index : Int) < indexEnd then
      let title := if (index : Int) = systemIndexStart then [systemTitle] else []
      match if (index : Int) = systemIndexStart then page.add systemTitle else some page with
      | none => ⟨page, [index], [], [], .full⟩
      | some page =>
        if p index = 0 then
          (showWalk p systemIndexStart indexEnd fuel (index + 1) page).after index [index] title
        else
          match page.add (shownEntry p index).1 with
          | none => ⟨page, [index], entryReads p index, title, .full⟩
          | some page' =>
            (showWalk p systemIndexStart indexEnd fuel (index + (shownEntry p index).2) page').after
              index (entryReads p index) (title ++ [(shownEntry p index).1])
    else ⟨page, [], [], [], .done⟩

/-- `system_index_start`. -/
def CpussRegdumpData.systemIndexStart (d : CpussRegdumpData) : Int :=
  Int.bmod (d.dumpVaddr sysRegInputIndex).toNat (2 ^ 32)

/-- `index_end`. -/
def CpussRegdumpData.indexEnd (d : CpussRegdumpData) : Int :=
  Int.bmod (d.systemIndexStart + (d.sysRegSize / 4).toNat + 1) (2 ^ 32)

/-- `register_config_show` with the record. -/
def registerConfigWalk (d : CpussRegdumpData) : Walk :=
  showWalk d.dumpVaddr d.systemIndexStart d.indexEnd d.indexEnd.toNat percoreIndex
    ⟨strlcat [] percoreTitle, percoreTitle.length⟩

section Record

variable {p : Nat → UInt32} {systemIndexStart indexEnd : Int}

/-- The record does not change what is printed. -/
theorem showWalk_page (fuel index : Nat) (page : Page) :
    (showWalk p systemIndexStart indexEnd fuel index page).page =
      showLoop p systemIndexStart indexEnd fuel index page := by
  induction fuel generalizing index page with
  | zero => rfl
  | succ fuel ih =>
    rw [showWalk, showLoop]
    split
    · cases htitle : (if (index : Int) = systemIndexStart then page.add systemTitle
        else some page) with
      | none => rfl
      | some page1 =>
        dsimp only
        split
        · exact ih _ _
        · cases hadd : page1.add (shownEntry p index).1 with
          | none => rfl
          | some page2 => exact ih _ _
    · rfl

/-- The text is made of the lines. -/
theorem showWalk_buf (fuel index : Nat) (page : Page) :
    (showWalk p systemIndexStart indexEnd fuel index page).page.buf =
      (showWalk p systemIndexStart indexEnd fuel index page).lines.foldl strlcat page.buf := by
  induction fuel generalizing index page with
  | zero => rfl
  | succ fuel ih =>
    rw [showWalk]
    split
    · cases htitle : (if (index : Int) = systemIndexStart then page.add systemTitle
        else some page) with
      | none => rfl
      | some page1 =>
        have hbuf : page1.buf = (if (index : Int) = systemIndexStart then [systemTitle]
            else []).foldl strlcat page.buf := by
          split at htitle
          · rename_i hstart
            rw [if_pos hstart, Page.add_buf htitle]
            rfl
          · rename_i hstart
            cases htitle
            rw [if_neg hstart]
            rfl
        dsimp only
        split
        · show _ = List.foldl strlcat page.buf (_ ++ _)
          rw [List.foldl_append, ← hbuf]
          exact ih _ _
        · cases hadd : page1.add (shownEntry p index).1 with
          | none => exact hbuf
          | some page2 =>
            show _ = List.foldl strlcat page.buf (_ ++ [_] ++ _)
            rw [List.foldl_append, List.foldl_append, ← hbuf, List.foldl_cons, List.foldl_nil,
              ← Page.add_buf hadd]
            exact ih _ _
    · rfl

end Record

/-! ## Steps -/

section Steps

variable {p : Nat → UInt32} {index bound : Nat}

/-- How far a round goes. -/
def wordsAt (p : Nat → UInt32) (index : Nat) : Nat :=
  if p index = 0 then 1 else (shownEntry p index).2

/-- An entry goes on behind the words it has read. -/
theorem entryReads_eq (p : Nat → UInt32) (index : Nat) :
    entryReads p index = List.range' index (shownEntry p index).2 := by
  rw [entryReads, shownEntry]
  dsimp only
  split
  case isTrue hword =>
    rw [if_neg (by rw [hword]; decide)]
    rfl
  case isFalse hword =>
    split
    · rfl
    split
    · rfl
    split <;> rfl

theorem shownEntry_count (p : Nat → UInt32) (index : Nat) :
    (shownEntry p index).2 = 1 ∨ (shownEntry p index).2 = 2 := by
  rw [shownEntry]
  dsimp only
  split
  · exact Or.inr rfl
  split
  · exact Or.inl rfl
  split
  · exact Or.inr rfl
  split <;> exact Or.inr rfl

theorem wordsAt_pos (p : Nat → UInt32) (index : Nat) : 0 < wordsAt p index := by
  have hcount := shownEntry_count p index
  rw [wordsAt]
  split <;> omega

/-- **A step does not get past a word 0.** -/
theorem wordsAt_le (hzero : p bound = 0) (h : index ≤ bound) :
    index + wordsAt p index ≤ bound + 1 := by
  have hcount := shownEntry_count p index
  rw [wordsAt]
  split
  case isTrue => omega
  case isFalse hne =>
    have hother : index ≠ bound := by
      rintro rfl
      exact hne hzero
    omega

/-- A line of an entry is not the title. -/
theorem shownEntry_ne_title (p : Nat → UInt32) (index : Nat) :
    (shownEntry p index).1 ≠ systemTitle := by
  have hline : ∀ offset val cmd, configLine offset val cmd ≠ systemTitle := by
    intro offset val cmd heq
    have hhead : some '0' = some 's' := congrArg List.head? heq
    exact absurd hhead (by decide)
  rw [shownEntry]
  dsimp only
  split
  · exact hline _ _ _
  split
  · exact hline _ _ _
  split
  · exact hline _ _ _
  split <;> exact hline _ _ _

end Steps

/-! ## The walk -/

/-- What a walk from `index` does in a table whose system registers start at `start` and that ends
at `stop`. -/
structure Walk.Sound (w : Walk) (start stop index : Nat) : Prop where
  ends : w.ended ≠ .running
  reads : ∀ i ∈ w.reads, index ≤ i ∧ i < stop
  visited : w.ended = .done → w.visited.count start = if index ≤ start then 1 else 0
  title : w.ended = .done → w.lines.count systemTitle = if index ≤ start then 1 else 0

section Walk

variable {p : Nat → UInt32} {start stop index : Nat}

/-- One round, and what comes after it. -/
theorem Walk.Sound.after {w : Walk} {n : Nat} {lines : List (List Char)}
    (h : w.Sound start stop (index + n)) (hpos : 0 < n) (hstop : index + n ≤ stop)
    (hstart : index < start → index + n ≤ start)
    (hlines : lines.count systemTitle = if index = start then 1 else 0) :
    (w.after index (List.range' index n) lines).Sound start stop index := by
  refine ⟨h.ends, ?_, ?_, ?_⟩
  · intro i hi
    rcases List.mem_append.mp hi with hnow | hlater
    · rw [List.mem_range'_1] at hnow
      omega
    · have hlater := h.reads i hlater
      omega
  · intro hdone
    show (index :: w.visited).count start = _
    rw [List.count_cons, h.visited hdone]
    by_cases heq : index = start
    · subst heq
      rw [if_neg (by omega), if_pos (beq_self_eq_true _), if_pos (Nat.le_refl _)]
    · have hother : ¬ (index == start) = true := by simpa using heq
      rw [if_neg hother, Nat.add_zero]
      by_cases hle : index ≤ start
      · rw [if_pos hle, if_pos (hstart (by omega))]
      · rw [if_neg hle, if_neg (by omega)]
  · intro hdone
    show (lines ++ w.lines).count systemTitle = _
    rw [List.count_append, h.title hdone, hlines]
    by_cases heq : index = start
    · subst heq
      rw [if_pos rfl, if_neg (by omega), if_pos (Nat.le_refl _)]
    · rw [if_neg heq, Nat.zero_add]
      by_cases hle : index ≤ start
      · rw [if_pos hle, if_pos (hstart (by omega))]
      · rw [if_neg hle, if_neg (by omega)]

/-- A round that ends the walk because the page is full. -/
theorem Walk.Sound.of_full {page : Page} {visited reads : List Nat} {lines : List (List Char)}
    (hreads : ∀ i ∈ reads, index ≤ i ∧ i < stop) :
    (Walk.mk page visited reads lines .full).Sound start stop index := by
  refine ⟨?_, hreads, ?_, ?_⟩
  · intro h
    cases h
  · intro h
    cases h
  · intro h
    cases h

/-- **The walk is sound** when the two words are 0.  The distance to the end bounds the rounds. -/
theorem showWalk_sound (hfirst : 0 < start) (hlast : start < stop) (hstart : p (start - 1) = 0)
    (hstop : p (stop - 1) = 0) (fuel index : Nat) (page : Page) (hindex : index ≤ stop)
    (hfuel : stop - index < fuel) :
    (showWalk p start stop fuel index page).Sound start stop index := by
  induction fuel generalizing index page with
  | zero => omega
  | succ fuel ih =>
    rw [showWalk]
    split
    case isFalse hend =>
      -- the end is behind the first system register
      refine ⟨?_, ?_, ?_, ?_⟩
      · intro h
        cases h
      · intro i hi
        cases hi
      · intro _
        rw [if_neg (by omega)]
        rfl
      · intro _
        rw [if_neg (by omega)]
        rfl
    case isTrue hend =>
      have hpos := wordsAt_pos p index
      have hnext : index + wordsAt p index ≤ stop := by
        have hle := wordsAt_le hstop (show index ≤ stop - 1 by omega)
        omega
      have hcross : index < start → index + wordsAt p index ≤ start := by
        intro hlt
        have hle := wordsAt_le hstart (show index ≤ start - 1 by omega)
        omega
      have htitle : (if (index : Int) = start then [systemTitle] else []).count systemTitle =
          if index = start then 1 else 0 := by
        by_cases heq : index = start
        · rw [if_pos (by omega), if_pos heq]
          rfl
        · rw [if_neg (by omega), if_neg heq]
          rfl
      have hwalk : ∀ page, (showWalk p start stop fuel (index + wordsAt p index) page).Sound start
          stop (index + wordsAt p index) := fun page => ih _ page hnext (by omega)
      cases (if (index : Int) = start then page.add systemTitle else some page) with
      | none =>
        refine .of_full ?_
        intro i hi
        cases hi
      | some page1 =>
        dsimp only
        split
        case isTrue hzero =>
          have hone : wordsAt p index = 1 := if_pos hzero
          rw [hone] at hnext hcross hwalk
          exact (hwalk page1).after (by decide) hnext hcross htitle
        case isFalse hne =>
          have hcount : wordsAt p index = (shownEntry p index).2 := if_neg hne
          rw [hcount] at hpos hnext hcross hwalk
          rw [entryReads_eq]
          cases page1.add (shownEntry p index).1 with
          | none =>
            refine .of_full ?_
            intro i hi
            rw [List.mem_range'_1] at hi
            omega
          | some page2 =>
            refine (hwalk page2).after hpos hnext hcross ?_
            have hline : ¬ ((shownEntry p index).1 == systemTitle) = true := by
              simpa using shownEntry_ne_title p index
            rw [List.count_append, htitle, List.count_singleton, if_neg hline, Nat.add_zero]

end Walk

/-! ## Every table -/

/-- What the loop of `register_config_show` does with the data `d`. -/
structure ShowsSafely (d : CpussRegdumpData) : Prop where
  /-- the record is that of the function -/
  shows : (registerConfigWalk d).page = registerConfigShow d
  printed : (registerConfigShow d).buf =
    (registerConfigWalk d).lines.foldl strlcat (strlcat [] percoreTitle)
  ends : (registerConfigWalk d).ended ≠ .running
  reads : ∀ i ∈ (registerConfigWalk d).reads, percoreIndex ≤ i ∧ (i : Int) < d.indexEnd
  visited : (registerConfigWalk d).ended = .done →
    ((registerConfigWalk d).visited.map Int.ofNat).count d.systemIndexStart = 1
  title : (registerConfigWalk d).ended = .done →
    (registerConfigWalk d).lines.count systemTitle = 1

section Table

variable {sh : Shape} (t : RegTable sh) (old : Nat → UInt32)

theorem RegTable.systemIndexStart_eq : (t.toData old).systemIndexStart = sh.systemIndex :=
  t.bmod_systemIndex old

theorem RegTable.indexEnd_eq : (t.toData old).indexEnd = t.indexEnd := by
  rw [CpussRegdumpData.indexEnd, t.systemIndexStart_eq]
  exact t.bmod_indexEnd old

theorem RegTable.showsSafely : ShowsSafely (t.toData old) := by
  have hpercore := t.percoreEnd_le
  have hindex : percoreIndex = 4 := rfl
  have hgap : t.image old (sh.systemIndex - 1) = 0 := t.image_gap old (by omega) (by omega)
  have hlast : t.image old (t.indexEnd - 1) = 0 := t.image_terminator old
  have hend : sh.systemIndex < t.indexEnd := by
    rw [RegTable.indexEnd]
    omega
  have hwalk : registerConfigWalk (t.toData old) =
      showWalk (t.image old) sh.systemIndex t.indexEnd t.indexEnd percoreIndex
        (Page.ofText percoreTitle) := by
    rw [registerConfigWalk, t.systemIndexStart_eq, t.indexEnd_eq]
    rfl
  have hsound := showWalk_sound (by omega) hend hgap hlast t.indexEnd percoreIndex
    (Page.ofText percoreTitle) (by omega) (by omega)
  rw [← hwalk] at hsound
  have hpage : (registerConfigWalk (t.toData old)).page = registerConfigShow (t.toData old) := by
    rw [hwalk, showWalk_page, registerConfigShow_toData]
  refine ⟨hpage, ?_, hsound.ends, ?_, ?_, ?_⟩
  · rw [← hpage, hwalk]
    exact showWalk_buf _ _ _
  · intro i hi
    have hi := hsound.reads i hi
    rw [t.indexEnd_eq]
    omega
  · intro hdone
    rw [t.systemIndexStart_eq]
    show List.count (Int.ofNat sh.systemIndex) _ = 1
    rw [List.count_map_of_injective _ _ Int.ofNat_injective, hsound.visited hdone,
      if_pos (by omega)]
  · intro hdone
    rw [hsound.title hdone, if_pos (by omega)]

end Table

/-- **The walk stays inside of the table**, whatever was written into it, and comes to the first
system register once. -/
theorem registerConfigShow_walk (d : CpussRegdumpData) (n numCores : UInt32)
    (hroom : 4 * (6 + 2 * n.toNat) < d.size.toNat) (hcores : 0 < numCores.toNat)
    (inputs : List Scanned) :
    ShowsSafely (session numCores (updateRegDumpTable n d).data inputs).data := by
  obtain ⟨hdata, -⟩ := updateRegDumpTable_eq ⟨d.size, n, numCores, hroom, hcores⟩ d rfl
  simp only at hdata
  rw [hdata]
  obtain ⟨t, hat⟩ := session_table ⟨d.size, n, numCores, hroom, hcores⟩ d.dumpVaddr inputs
  rw [hat.data]
  exact t.showsSafely d.dumpVaddr

/-- A read of 12 bytes at offset 0 as the last per-core register is misread: its length is taken for
the offset of a register, and the 0 behind it for the length of that. -/
theorem registerConfigShow_walk_misread :
    ShowsSafely (session 8 (updateRegDumpTable 1 (cpussRegdumpInit 4096)).data
      [.four 0 12 'r' 1, .two 0x100 4]).data :=
  registerConfigShow_walk (cpussRegdumpInit 4096) 1 8 (by decide) (by decide) _

end SafelinuxDbg.MemoryDump
