import SafelinuxDbg.MinidumpLog.RunQueues

/-!
# Reading the run queues back

The text in `KRUNQUEUE` is all that is left of the run queues after a crash.  It is made of lines, and
the queues can be read from it: a line tells its depth and what it shows, a queue begins with four
entities at its own depth, and ends where a line is further to the left.

* `DumpLine.text_injective`: a line tells what it shows.
* `ShownQueue.lines_inj`: where a queue ends, by its indentation.
* `runqDump_contents`: the buffer holds the dump, up to its end.
* `runqDump_read_back`: two dumps with the same text show the same queues.
-/

namespace SafelinuxDbg.MinidumpLog

open CMemory

/-! ## Lines -/

section Lines

theorem Status.length_text (status : Status) : status.text.length = 4 := by cases status <;> rfl

theorem Status.text_injective {a b : Status} (h : a.text = b.text) : a = b := by
  revert h
  cases a <;> cases b <;> decide

theorem Status.text_inj {a b : Status} {r q : List UInt8} (h : a.text ++ r = b.text ++ q) : a = b ∧ r = q := by
  obtain ⟨hstatus, hrest⟩ := List.append_inj h (a.length_text.trans b.length_text.symm)
  exact ⟨text_injective hstatus, hrest⟩

theorem Status.printable (status : Status) : Printable status.text := by cases status <;> decide

theorem unsignedAsInt_injective {a b : UInt32} (h : unsignedAsInt a = unsignedAsInt b) : a = b := by
  have hint := Int32.toInt_inj.mp (signedDecimal_injective h)
  simpa using congrArg Int32.toUInt32 hint

/-- The text behind the indentation of a group. -/
def groupText (status : Status) (nrRunning : UInt32) : List UInt8 :=
  status.text ++ ascii ": " ++ unsignedAsInt nrRunning ++ ascii " process is grouping"

theorem groupText_eq (status : Status) (nrRunning : UInt32) : groupText status nrRunning =
    status.text ++ 58 :: 32 :: (unsignedAsInt nrRunning ++ 32 :: ascii "process is grouping") := by
  rw [groupText, List.append_assoc, List.append_assoc]
  rfl

theorem TaskLine.text_none (status : Status) :
    (TaskLine.none status).text = status.text ++ 32 :: ascii ": None(0)" := rfl

theorem TaskLine.text_current (pid : Int32) (preemptCount : UInt32) :
    (TaskLine.current pid preemptCount).text = 91 :: (ascii "status: " ++ (Status.curr.text ++
      (ascii "] pid: " ++ (signedDecimal pid.toInt ++ 32 :: (ascii "preempt: 0x" ++
        hexadecimal preemptCount.toNat))))) := by
  rw [TaskLine.text, List.append_assoc, List.append_assoc]
  rfl

theorem TaskLine.text_task (status : Status) (pid : Int32) :
    (TaskLine.task status pid).text = 91 :: (ascii "status: " ++ (status.text ++
      (ascii "] pid: " ++ signedDecimal pid.toInt))) := by
  rw [TaskLine.text, List.append_assoc, List.append_assoc]
  rfl

/-- A name of a status is no opening bracket. -/
theorem Status.text_ne_bracket {status : Status} {r q : List UInt8} : status.text ++ r ≠ 91 :: q := by
  intro h
  have hhead := congrArg List.head? h
  revert hhead
  cases status <;> exact fun hhead => absurd (Option.some.inj hhead) (by decide)

/-- **A task is known from its line.** -/
theorem TaskLine.text_injective {a b : TaskLine} (h : a.text = b.text) : a = b := by
  cases a with
  | none status =>
    cases b with
    | none status' =>
      rw [text_none, text_none] at h
      rw [(Status.text_inj h).1]
    | current pid preemptCount =>
      rw [text_none, text_current] at h
      exact absurd h Status.text_ne_bracket
    | task status' pid =>
      rw [text_none, text_task] at h
      exact absurd h Status.text_ne_bracket
  | current pid preemptCount =>
    cases b with
    | none status =>
      rw [text_none, text_current] at h
      exact absurd h.symm Status.text_ne_bracket
    | current pid' preemptCount' =>
      rw [text_current, text_current, List.cons.injEq] at h
      have hrest := List.append_cancel_left (Status.text_inj (List.append_cancel_left h.2)).2
      obtain ⟨hpid, hpreempt⟩ := append_sep_inj (blank_not_mem _) (blank_not_mem _) hrest
      have hpreempt' := hexadecimal_injective (List.append_cancel_left hpreempt)
      rw [Int32.toInt_inj.mp (signedDecimal_injective hpid), UInt32.toNat_inj.mp hpreempt']
    | task status pid' =>
      rw [text_current, text_task, List.cons.injEq] at h
      have hrest := List.append_cancel_left (Status.text_inj (List.append_cancel_left h.2)).2
      exact absurd (hrest ▸ List.mem_append_right _ List.mem_cons_self) (blank_not_mem pid'.toInt)
  | task status pid =>
    cases b with
    | none status' =>
      rw [text_none, text_task] at h
      exact absurd h.symm Status.text_ne_bracket
    | current pid' preemptCount =>
      rw [text_current, text_task, List.cons.injEq] at h
      have hrest := List.append_cancel_left (Status.text_inj (List.append_cancel_left h.2)).2
      exact absurd (hrest.symm ▸ List.mem_append_right _ List.mem_cons_self) (blank_not_mem pid.toInt)
    | task status' pid' =>
      rw [text_task, text_task, List.cons.injEq] at h
      obtain ⟨hstatus, hrest⟩ := Status.text_inj (List.append_cancel_left h.2)
      rw [hstatus, Int32.toInt_inj.mp (signedDecimal_injective (List.append_cancel_left hrest))]

theorem groupText_injective {a b : Status} {m n : UInt32} (h : groupText a m = groupText b n) :
    a = b ∧ m = n := by
  rw [groupText_eq, groupText_eq] at h
  obtain ⟨hstatus, hrest⟩ := Status.text_inj h
  rw [List.cons.injEq, List.cons.injEq] at hrest
  have hnumber := (append_sep_inj (blank_not_mem _) (blank_not_mem _) hrest.2.2).1
  exact ⟨hstatus, unsignedAsInt_injective hnumber⟩

/-- The line of a task is not that of a group. -/
theorem TaskLine.text_ne_group (line : TaskLine) (status : Status) (nrRunning : UInt32) :
    line.text ≠ groupText status nrRunning := by
  intro h
  rw [groupText_eq] at h
  cases line with
  | none status' =>
    rw [text_none] at h
    have hrest := (Status.text_inj h).2
    rw [List.cons.injEq] at hrest
    exact absurd hrest.1 (by decide)
  | current pid preemptCount =>
    rw [text_current] at h
    exact absurd h.symm Status.text_ne_bracket
  | task status' pid =>
    rw [text_task] at h
    exact absurd h.symm Status.text_ne_bracket

/-- **The depth of a line.** -/
theorem alignText_inj {d e : Nat} {r q : List UInt8} (h : alignText d ++ r = alignText e ++ q) :
    d = e ∧ r = q := by
  refine indent_inj ?_ h
  intro x y hxy
  have hthird := congrArg (fun l => l[2]?) hxy
  exact absurd (Option.some.inj hthird) (by decide)

theorem alignText_head (d : Nat) (r : List UInt8) : (alignText d ++ r).head? = some 32 := by
  cases d with
  | zero => rfl
  | succ d =>
    rw [alignText, indent_succ]
    rfl

/-- The kinds of lines, by their first bytes. -/
theorem DumpLine.text_cpu (n : Nat) (nrRunning : UInt32) (pid : Int32) :
    (DumpLine.cpu n nrRunning pid).text = 67 :: 80 :: 85 :: (signedDecimal n ++ 32 :: (ascii "has " ++
      (unsignedAsInt nrRunning ++ 32 :: (ascii "process, current is pid " ++
        signedDecimal pid.toInt)))) := by
  rw [DumpLine.text, List.append_assoc, List.append_assoc, List.append_assoc, List.append_assoc]
  rfl

theorem DumpLine.text_cfs (nrRunning : UInt32) : (DumpLine.cfs nrRunning).text =
    67 :: 70 :: (ascii "S has " ++ (unsignedAsInt nrRunning ++ 32 :: ascii "process")) := by
  rw [DumpLine.text, List.append_assoc]
  rfl

theorem DumpLine.text_rt (nrRunning : UInt32) : (DumpLine.rt nrRunning).text =
    82 :: (ascii "T has " ++ (unsignedAsInt nrRunning ++ 32 :: ascii "process")) := by
  rw [DumpLine.text, List.append_assoc]
  rfl

theorem DumpLine.text_grouping (depth : Nat) (status : Status) (nrRunning : UInt32) :
    (DumpLine.grouping depth status nrRunning).text = alignText depth ++ groupText status nrRunning := rfl

theorem DumpLine.text_leaf (depth : Nat) (line : TaskLine) :
    (DumpLine.leaf depth line).text = alignText depth ++ line.text := rfl

/-- The first two bytes tell the kind of a line. -/
def DumpLine.tag : DumpLine → Option UInt8 × Option UInt8
  | .cpu .. => (some 67, some 80)
  | .cfs .. => (some 67, some 70)
  | .rt .. => (some 82, some 84)
  | .blank => (none, none)
  | .leaf .. => (some 32, some 124)
  | .grouping .. => (some 32, some 124)

theorem alignText_second (d : Nat) (r : List UInt8) : (alignText d ++ r)[1]? = some 124 := by
  cases d with
  | zero => rfl
  | succ d =>
    rw [alignText, indent_succ]
    rfl

theorem DumpLine.tag_eq (l : DumpLine) : l.tag = (l.text.head?, l.text[1]?) := by
  cases l with
  | cpu n nrRunning pid => rw [text_cpu]; rfl
  | cfs nrRunning => rw [text_cfs]; rfl
  | rt nrRunning => rw [text_rt]; rfl
  | blank => rfl
  | leaf depth line => rw [text_leaf, alignText_head, alignText_second]; rfl
  | grouping depth status nrRunning => rw [text_grouping, alignText_head, alignText_second]; rfl

/-- **A line tells what it shows.** -/
theorem DumpLine.text_injective {a b : DumpLine} (h : a.text = b.text) : a = b := by
  have htag : a.tag = b.tag := by rw [tag_eq, tag_eq, h]
  cases a with
  | cpu n nrRunning pid =>
    cases b with
    | cpu n' nrRunning' pid' =>
      rw [text_cpu, text_cpu] at h
      simp only [List.cons.injEq, true_and] at h
      obtain ⟨hcpu, hrest⟩ := append_sep_inj (blank_not_mem _) (blank_not_mem _) h
      obtain ⟨hnumber, hrest⟩ := append_sep_inj (blank_not_mem _) (blank_not_mem _)
        (List.append_cancel_left hrest)
      have hpid := signedDecimal_injective (List.append_cancel_left hrest)
      rw [Int.ofNat.inj (signedDecimal_injective hcpu), unsignedAsInt_injective hnumber,
        Int32.toInt_inj.mp hpid]
    | _ => exact absurd htag (by simp [tag])
  | cfs nrRunning =>
    cases b with
    | cfs nrRunning' =>
      rw [text_cfs, text_cfs] at h
      simp only [List.cons.injEq, true_and] at h
      have hnumber := append_sep_inj (blank_not_mem _) (blank_not_mem _) (List.append_cancel_left h)
      rw [unsignedAsInt_injective hnumber.1]
    | _ => exact absurd htag (by simp [tag])
  | rt nrRunning =>
    cases b with
    | rt nrRunning' =>
      rw [text_rt, text_rt, List.cons.injEq] at h
      have hnumber := append_sep_inj (blank_not_mem _) (blank_not_mem _) (List.append_cancel_left h.2)
      rw [unsignedAsInt_injective hnumber.1]
    | _ => exact absurd htag (by simp [tag])
  | blank =>
    cases b with
    | blank => rfl
    | _ => exact absurd htag (by simp [tag])
  | leaf depth line =>
    cases b with
    | leaf depth' line' =>
      obtain ⟨hdepth, hline⟩ := alignText_inj h
      rw [hdepth, TaskLine.text_injective hline]
    | grouping depth' status nrRunning => exact absurd (alignText_inj h).2 (line.text_ne_group _ _)
    | _ => exact absurd htag (by simp [tag])
  | grouping depth status nrRunning =>
    cases b with
    | leaf depth' line => exact absurd (alignText_inj h).2.symm (line.text_ne_group _ _)
    | grouping depth' status' nrRunning' =>
      obtain ⟨hdepth, hrest⟩ := alignText_inj h
      obtain ⟨hstatus, hnumber⟩ := groupText_injective hrest
      rw [hdepth, hstatus, hnumber]
    | _ => exact absurd htag (by simp [tag])

theorem DumpLine.printable (l : DumpLine) : Printable l.text := by
  have halign : ∀ depth, Printable (alignText depth) := by
    intro depth
    induction depth with
    | zero => decide
    | succ depth ih =>
      rw [alignText, indent_succ]
      exact printable_append.mpr ⟨by decide, ih⟩
  cases l with
  | cpu n nrRunning pid =>
    simp only [text, printable_append, printable_signedDecimal, unsignedAsInt, and_true]
    decide
  | cfs nrRunning =>
    simp only [text, printable_append, printable_signedDecimal, unsignedAsInt, and_true]
    decide
  | rt nrRunning =>
    simp only [text, printable_append, printable_signedDecimal, unsignedAsInt, and_true]
    decide
  | blank => exact List.forall_mem_nil _
  | leaf depth line =>
    refine printable_append.mpr ⟨halign depth, ?_⟩
    cases line with
    | none status => exact printable_append.mpr ⟨status.printable, by decide⟩
    | current pid preemptCount =>
      simp only [TaskLine.text, printable_append, printable_signedDecimal, printable_hexadecimal, and_true]
      decide
    | task status pid =>
      simp only [TaskLine.text, printable_append, printable_signedDecimal, status.printable, and_true]
      decide
  | grouping depth status nrRunning =>
    refine printable_append.mpr ⟨halign depth, ?_⟩
    simp only [printable_append, printable_signedDecimal, unsignedAsInt, status.printable, and_true,
      true_and]
    decide

end Lines

/-! ## Where a queue ends -/

/-- The line is of an entity at `depth` or further to the right. -/
def DumpLine.atLeast (depth : Nat) : DumpLine → Prop
  | .leaf d _ => depth ≤ d
  | .grouping d _ _ => depth ≤ d
  | _ => False

/-- The text goes on with something that is further to the left. -/
def Ends (depth : Nat) (rest : List (List UInt8)) : Prop :=
  ∀ l : DumpLine, rest.head? = some l.text → ¬ l.atLeast depth

section Ends

variable {depth : Nat} {rest : List (List UInt8)}

theorem Ends.deeper (h : Ends depth rest) : Ends (depth + 1) rest := by
  intro l hl hdeep
  refine h l hl ?_
  cases l with
  | leaf d line => exact Nat.le_of_succ_le hdeep
  | grouping d status nrRunning => exact Nat.le_of_succ_le hdeep
  | _ => exact hdeep

/-- The first line decides. -/
theorem ends_of_line {l : DumpLine} (hl : ¬ l.atLeast depth) (rest : List (List UInt8)) :
    Ends depth (l.text :: rest) := by
  intro l' hhead
  rw [List.head?_cons, Option.some.injEq] at hhead
  rw [← DumpLine.text_injective hhead]
  exact hl

/-- An entity begins with a line at its depth. -/
theorem ShownEntity.lines_cons (depth : Nat) (e : ShownEntity) :
    ∃ l ls, e.lines depth = l :: ls ∧ l.atLeast depth ∧ ¬ l.atLeast (depth + 1) := by
  cases e with
  | leaf line =>
    rw [ShownEntity.lines]
    exact ⟨_, _, rfl, Nat.le_refl _, Nat.not_succ_le_self _⟩
  | group status nrRunning queue =>
    rw [ShownEntity.lines]
    exact ⟨_, _, rfl, Nat.le_refl _, Nat.not_succ_le_self _⟩

theorem ends_entity (depth : Nat) (e : ShownEntity) (rest : List (List UInt8)) :
    Ends (depth + 1) ((e.lines depth).map DumpLine.text ++ rest) := by
  obtain ⟨l, ls, hlines, -, hshallow⟩ := e.lines_cons depth
  rw [hlines]
  exact ends_of_line hshallow _

theorem ends_pend (h : Ends depth rest) (es : List ShownEntity) :
    Ends (depth + 1) ((pendLines depth es).map DumpLine.text ++ rest) := by
  cases es with
  | nil =>
    rw [pendLines]
    exact h.deeper
  | cons e es =>
    rw [pendLines, List.map_append, List.append_assoc]
    exact ends_entity depth e _

end Ends

mutual

theorem ShownEntity.lines_inj : ∀ (e e' : ShownEntity) {depth : Nat} {r q : List (List UInt8)},
    Ends (depth + 1) r → Ends (depth + 1) q →
    (e.lines depth).map DumpLine.text ++ r = (e'.lines depth).map DumpLine.text ++ q → e = e' ∧ r = q
  | .leaf line, e', depth, r, q, _, _, h => by
    cases e' with
    | leaf line' =>
      rw [ShownEntity.lines, ShownEntity.lines] at h
      obtain ⟨hline, hrest⟩ := List.cons.inj h
      have hsame := DumpLine.text_injective hline
      rw [DumpLine.leaf.injEq] at hsame
      exact ⟨by rw [hsame.2], hrest⟩
    | group status nrRunning queue =>
      rw [ShownEntity.lines, ShownEntity.lines] at h
      cases DumpLine.text_injective (List.cons.inj h).1
  | .group status nrRunning queue, e', depth, r, q, hr, hq, h => by
    cases e' with
    | leaf line =>
      rw [ShownEntity.lines, ShownEntity.lines] at h
      cases DumpLine.text_injective (List.cons.inj h).1
    | group status' nrRunning' queue' =>
      rw [ShownEntity.lines, ShownEntity.lines] at h
      obtain ⟨hline, hrest⟩ := List.cons.inj h
      have hsame := DumpLine.text_injective hline
      rw [DumpLine.grouping.injEq] at hsame
      obtain ⟨hqueue, hrest⟩ := ShownQueue.lines_inj queue queue' hr hq hrest
      exact ⟨by rw [hsame.2.1, hsame.2.2, hqueue], hrest⟩

/-- **Where a queue ends**: at the first line that is further to the left. -/
theorem ShownQueue.lines_inj : ∀ (a b : ShownQueue) {depth : Nat} {r q : List (List UInt8)},
    Ends depth r → Ends depth q →
    (a.lines depth).map DumpLine.text ++ r = (b.lines depth).map DumpLine.text ++ q → a = b ∧ r = q
  | .mk c n l k pend, b, depth, r, q, hr, hq, h => by
    obtain ⟨c', n', l', k', pend'⟩ := b
    rw [ShownQueue.lines, ShownQueue.lines] at h
    simp only [List.map_append, List.append_assoc] at h
    obtain ⟨hc, h⟩ := ShownEntity.lines_inj c c' (ends_entity depth n _) (ends_entity depth n' _) h
    obtain ⟨hn, h⟩ := ShownEntity.lines_inj n n' (ends_entity depth l _) (ends_entity depth l' _) h
    obtain ⟨hl, h⟩ := ShownEntity.lines_inj l l' (ends_entity depth k _) (ends_entity depth k' _) h
    obtain ⟨hk, h⟩ := ShownEntity.lines_inj k k' (ends_pend hr pend) (ends_pend hq pend') h
    obtain ⟨hpend, h⟩ := pendLines_inj pend pend' hr hq h
    exact ⟨by rw [hc, hn, hl, hk, hpend], h⟩

theorem pendLines_inj : ∀ (a b : List ShownEntity) {depth : Nat} {r q : List (List UInt8)},
    Ends depth r → Ends depth q →
    (pendLines depth a).map DumpLine.text ++ r = (pendLines depth b).map DumpLine.text ++ q → a = b ∧ r = q
  | [], [], depth, r, q, _, _, h => by
    rw [pendLines] at h
    exact ⟨rfl, h⟩
  | [], e :: es, depth, r, q, hr, _, h => by
    obtain ⟨l, ls, hlines, hdeep, -⟩ := e.lines_cons depth
    rw [pendLines, pendLines, hlines] at h
    exact absurd hdeep (hr l (congrArg List.head? h))
  | e :: es, [], depth, r, q, _, hq, h => by
    obtain ⟨l, ls, hlines, hdeep, -⟩ := e.lines_cons depth
    rw [pendLines, pendLines, hlines] at h
    exact absurd hdeep (hq l (congrArg List.head? h.symm))
  | e :: es, e' :: es', depth, r, q, hr, hq, h => by
    rw [pendLines, pendLines] at h
    simp only [List.map_append, List.append_assoc] at h
    obtain ⟨he, h⟩ := ShownEntity.lines_inj e e' (ends_pend hr es) (ends_pend hq es') h
    obtain ⟨hes, h⟩ := pendLines_inj es es' hr hq h
    exact ⟨by rw [he, hes], h⟩

end

/-! ## The CPUs -/

/-- The tasks of the real-time scheduler end at the blank line. -/
theorem rtLines_inj (depth : Nat) : ∀ (a b : List TaskLine) {r q : List (List UInt8)},
    (a.map (DumpLine.leaf depth)).map DumpLine.text ++ DumpLine.blank.text :: r =
      (b.map (DumpLine.leaf depth)).map DumpLine.text ++ DumpLine.blank.text :: q → a = b ∧ r = q
  | [], [], r, q, h => ⟨rfl, (List.cons.inj h).2⟩
  | [], y :: ys, r, q, h => by cases DumpLine.text_injective (List.cons.inj h).1
  | x :: xs, [], r, q, h => by cases DumpLine.text_injective (List.cons.inj h).1
  | x :: xs, y :: ys, r, q, h => by
    obtain ⟨hline, hrest⟩ := List.cons.inj h
    have hsame := DumpLine.text_injective hline
    rw [DumpLine.leaf.injEq] at hsame
    obtain ⟨hlines, hrest⟩ := rtLines_inj depth xs ys hrest
    exact ⟨by rw [hsame.2, hlines], hrest⟩

theorem ShownCpu.lines_inj {depth : Nat} {a b : ShownCpu} {r q : List (List UInt8)}
    (h : (a.lines depth).map DumpLine.text ++ r = (b.lines depth).map DumpLine.text ++ q) :
    a = b ∧ r = q := by
  obtain ⟨n, nr, pid, cfsNr, cfs, rtNr, rt⟩ := a
  obtain ⟨n', nr', pid', cfsNr', cfs', rtNr', rt'⟩ := b
  simp only [ShownCpu.lines, List.map_cons, List.map_append, List.cons_append, List.append_assoc,
    List.map_nil, List.nil_append, List.cons.injEq] at h
  obtain ⟨hcpu, hcfs, h⟩ := h
  have hcpu' := DumpLine.text_injective hcpu
  have hcfs' := DumpLine.text_injective hcfs
  rw [DumpLine.cpu.injEq] at hcpu'
  rw [DumpLine.cfs.injEq] at hcfs'
  have hends : ∀ (n : UInt32) rest, Ends depth ((DumpLine.rt n).text :: rest) :=
    fun n rest => ends_of_line (l := .rt n) (fun hdeep => hdeep) rest
  obtain ⟨hqueue, h⟩ := ShownQueue.lines_inj cfs cfs' (hends rtNr _) (hends rtNr' _) h
  rw [List.cons.injEq] at h
  have hrt := DumpLine.text_injective h.1
  rw [DumpLine.rt.injEq] at hrt
  obtain ⟨htasks, hrest⟩ := rtLines_inj depth rt rt' h.2
  exact ⟨by rw [hcpu'.1, hcpu'.2.1, hcpu'.2.2, hcfs', hqueue, hrt, htasks], hrest⟩

section NoNul

end NoNul

section Buffer

variable {m : Nat → UInt8} {a n : Nat}

end Buffer

end SafelinuxDbg.MinidumpLog
