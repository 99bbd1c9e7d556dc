import SafelinuxDbg.MinidumpMemory.SlabOwner

/-!
# What the slab owner dump leaves in its region

A line of `md_dump_slabowner` goes to `buf`, a record of `dump_tracking` to `buf + offset`.  So the
line behind some records goes where the first of them started, not behind the last one.  And `size`
is the room from `buf` on, but it is the size of the whole region when `buf` has moved on already.

* `slabOwner_text_iff`: the text is the sequence of the lines and records, if and only if there are
  no records, and the region is not too large to be printed to at all.
* `slabOwner_inside_iff`: the text is inside of the region if and only if all of it would fit, or the
  first line fills the region, or the region is too large.
-/

namespace SafelinuxDbg.MinidumpMemory

open CMemory

/-! ## The bounds -/

/-- A text that was printed is inside of the region. -/
def SlabInput.Inside (s : SlabInput) (b : Nat × List UInt8) : Prop :=
  s.m ≤ b.1 ∧ b.1 + b.2.length ≤ s.m + s.dumpSize

/-- A text fits into the region at its place, with its NUL. -/
def SlabInput.Fits (s : SlabInput) (p : Nat × List UInt8) : Prop :=
  p.1 + p.2.length < s.m + s.dumpSize

instance (s : SlabInput) (b : Nat × List UInt8) : Decidable (s.Inside b) := by
  unfold SlabInput.Inside
  infer_instance

instance (s : SlabInput) (p : Nat × List UInt8) : Decidable (s.Fits p) := by
  unfold SlabInput.Fits
  infer_instance

section Texts

variable {k : SlabKernel} {s : SlabInput}

/-- Handles are stored in the table, and behind the text. -/
theorem slabKind_below (s : SlabInput) (r : Region) (buf : Nat) (handle : UInt32) {x : Nat}
    (hx : x < buf ∨ x < s.handles) : (slabKind s r buf handle).1.mem x = r.mem x := by
  rw [slabKind]
  split
  · rfl
  · rw [findStack]
    split
    · rfl
    · split
      · exact writeLE_of_lt _ (by omega)
      · rfl

/-- What was printed stays in the record. -/
theorem texts_kept_run (k : SlabKernel) (s : SlabInput) (d : SlabDump) (op : SlabOp) :
    d.texts <+: (op.run k s d).texts := by
  cases op with
  | line text =>
    rw [SlabOp.run, dumpLine]
    split
    · exact List.prefix_rfl
    · dsimp only
      split
      · exact List.prefix_append _ _
      · exact List.prefix_append _ _
  | object o =>
    rw [SlabOp.run]
    split
    · exact List.prefix_rfl
    · rw [dumpTracking]
      split
      · exact List.prefix_rfl
      · exact List.prefix_append _ _
  | check =>
    rw [SlabOp.run]
    split
    · exact List.prefix_rfl
    · split
      · exact List.prefix_rfl
      · exact List.prefix_rfl

theorem texts_kept (k : SlabKernel) (s : SlabInput) (ops : List SlabOp) (d : SlabDump) :
    d.texts <+: (ops.foldl (SlabOp.run k s) d).texts := by
  induction ops generalizing d with
  | nil => exact List.prefix_rfl
  | cons op ops ih => exact (texts_kept_run k s d op).trans (ih _)

/-- Nothing is printed to a region that is too large. -/
theorem run_huge (hhuge : 2 ^ 31 ≤ s.dumpSize) {d : SlabDump} (hoffset : d.offset = 0)
    (hreturned : d.returned = false) (op : SlabOp) :
    (op.run k s d).texts = d.texts ∧ (op.run k s d).offset = 0 ∧
      (op.run k s d).returned = false ∧
      ∀ x, x < s.handles → (op.run k s d).region.mem x = d.region.mem x := by
  cases op with
  | line text =>
    rw [SlabOp.run, dumpLine, if_neg (Bool.eq_false_iff.mp hreturned), scnprintf_huge _ _ _ hhuge,
      scnprintfStores, if_pos hhuge]
    dsimp only
    rw [if_neg (by omega), List.append_nil]
    exact ⟨rfl, hoffset, hreturned, fun _ _ => rfl⟩
  | object o =>
    rw [SlabOp.run, if_neg (Bool.eq_false_iff.mp hreturned), dumpTracking]
    split
    · exact ⟨rfl, hoffset, hreturned, fun _ _ => rfl⟩
    · rw [hoffset, Nat.sub_zero]
      dsimp only
      rw [printLines_none _ (Or.inr hhuge), printLinesStores_huge _ hhuge, List.append_nil,
        printLines_eq_storeAll, printLinesStores_huge _ hhuge]
      exact ⟨rfl, rfl, hreturned, fun x hx => slabKind_below s d.region _ _ (Or.inr hx)⟩
  | check =>
    rw [SlabOp.run, if_neg (Bool.eq_false_iff.mp hreturned), hoffset, if_neg (by omega)]
    exact ⟨rfl, hoffset, hreturned, fun _ _ => rfl⟩

theorem foldl_run_huge (hhuge : 2 ^ 31 ≤ s.dumpSize) (ops : List SlabOp) {d : SlabDump}
    (hoffset : d.offset = 0) (hreturned : d.returned = false) :
    (ops.foldl (SlabOp.run k s) d).texts = d.texts ∧
      ∀ x, x < s.handles → (ops.foldl (SlabOp.run k s) d).region.mem x = d.region.mem x := by
  induction ops generalizing d with
  | nil => exact ⟨rfl, fun _ _ => rfl⟩
  | cons op ops ih =>
    obtain ⟨htexts, hoffset', hreturned', hmem⟩ := run_huge (k := k) hhuge hoffset hreturned op
    obtain ⟨htexts', hmem'⟩ := ih hoffset' hreturned'
    exact ⟨htexts'.trans htexts, fun x hx => (hmem' x hx).trans (hmem x hx)⟩

end Texts

section Step

variable {k : SlabKernel} {s : SlabInput} {d : SlabDump} {l : Layout}

/-- The check behind a slab, and an object that is not tracked, change nothing. -/
theorem Corr.run_check (h : Corr s d l) : SlabOp.check.run k s d = d := by
  have hoffset := h.offset_lt
  rw [SlabOp.run, if_neg (Bool.eq_false_iff.mp h.returned), h.offset, if_neg (by omega)]

theorem run_untracked {o : SlabObject} (ho : o.addr = 0) : (SlabOp.object o).run k s d = d := by
  rw [SlabOp.run]
  split
  · rfl
  · exact if_pos ho

/-- **An operation that fits** is done as in the layout, and inside of the region. -/
theorem Corr.run (h : Corr s d l) (hsmall : s.dumpSize < 2 ^ 31) (hbase : s.m < l.base)
    {op : SlabOp} (hfit : ∀ p ∈ l.place k s op, s.Fits p) :
    Corr s (op.run k s d) (l.next k s op) ∧
      ∀ b ∈ (op.run k s d).texts, b ∈ d.texts ∨ s.Inside b := by
  cases op with
  | line text =>
    have hfits : l.base + text.length < s.m + s.dumpSize := hfit _ rfl
    obtain ⟨hcorr, htexts, -⟩ := h.line (k := k) hsmall (by omega : text.length + 1 < s.dumpSize)
    refine ⟨hcorr, fun b hb => ?_⟩
    rw [SlabOp.run, htexts] at hb
    rcases List.mem_append.mp hb with hb | hb
    · exact Or.inl hb
    · right
      cases List.mem_singleton.mp hb
      refine ⟨Nat.le_of_lt hbase, ?_⟩
      dsimp only
      rw [List.length_append, List.length_singleton]
      omega
  | object o =>
    by_cases htracked : o.addr = 0
    · have hnext : l.next k s (.object o) = l := if_pos htracked
      rw [run_untracked htracked, hnext]
      exact ⟨h, fun b hb => Or.inl hb⟩
    · rw [SlabOp.run, if_neg (Bool.eq_false_iff.mp h.returned)]
      have hfits : l.base + l.offset + (l.record k s o).length < s.m + s.dumpSize :=
        hfit _ (if_neg htracked)
      have hobject := h.object (k := k) hsmall htracked (by omega)
      obtain ⟨stores, htexts, hstores⟩ := hobject.texts
      refine ⟨hobject.corr, fun b hb => ?_⟩
      rw [htexts] at hb
      rcases List.mem_append.mp hb with hb | hb
      · exact Or.inl hb
      · right
        obtain ⟨hstart, hend⟩ := hstores b hb
        have hpos : l.pos = l.base + l.offset := rfl
        exact ⟨by omega, by omega⟩
  | check =>
    rw [h.run_check]
    exact ⟨h, fun b hb => Or.inl hb⟩

/-- **An operation that does not fit** prints behind the region: the room that is counted ends
behind it, because `buf` has moved on. -/
theorem Corr.run_cut (h : Corr s d l) (hsmall : s.dumpSize < 2 ^ 31) (hbase : s.m < l.base)
    {op : SlabOp} {p : Nat × List UInt8} (hp : l.place k s op = some p) (hcut : ¬ s.Fits p) :
    ∃ b ∈ (op.run k s d).texts, ¬ s.Inside b := by
  have hoffset := h.offset_lt
  have hcut := Nat.not_lt.mp hcut
  cases op with
  | line text =>
    cases hp
    have hcut : s.m + s.dumpSize ≤ l.base + text.length := hcut
    obtain ⟨hmem, hlength⟩ := scnprintfStores_last d.buf text hsmall s.size_pos
    have hprinted : printed s.dumpSize text = min text.length (s.dumpSize - 1) := if_neg (by omega)
    refine ⟨(d.buf, cutText s.dumpSize text), ?_, ?_⟩
    · rw [SlabOp.run, dumpLine, if_neg (Bool.eq_false_iff.mp h.returned)]
      dsimp only
      split
      · exact List.mem_append_right _ hmem
      · exact List.mem_append_right _ hmem
    · rintro ⟨-, hend⟩
      dsimp only at hend
      rw [hlength, hprinted, h.buf] at hend
      omega
  | object o =>
    by_cases htracked : o.addr = 0
    · rw [Layout.place, if_pos htracked] at hp
      cases hp
    · rw [Layout.place, if_neg htracked] at hp
      cases hp
      have hcut : s.m + s.dumpSize ≤ l.pos + (l.record k s o).length := hcut
      have hkind := h.slabKind (k.hashStack o.entries)
      have hpos : d.buf + d.offset = l.pos := by
        rw [h.buf, h.offset]
        rfl
      have hpos' : l.pos = l.base + l.offset := rfl
      have hdump : dumpTracking k s d o = _ := if_neg htracked
      rw [SlabOp.run, if_neg (Bool.eq_false_iff.mp h.returned), hdump]
      rw [hpos] at hkind ⊢
      rw [h.offset]
      dsimp only
      rw [Layout.record, ← hkind.kind] at hcut
      generalize MinidumpMemory.slabKind s d.region l.pos (k.hashStack o.entries) = c
        at hkind hcut ⊢
      obtain ⟨line, lines, hlines⟩ := objectLines_cons k o c.2
      rw [hlines] at hcut ⊢
      obtain ⟨b, hb, hend⟩ := printLinesStores_last (a := l.pos) c.1.mem
        (by omega : s.dumpSize - l.offset < 2 ^ 31) line lines 0 (by omega)
      rw [printLines_snd _ _ (by omega) (by omega)] at hend
      refine ⟨b, List.mem_append_right _ hb, ?_⟩
      rintro ⟨-, hinside⟩
      omega
  | check => cases hp

theorem Layout.base_le_next (k : SlabKernel) (s : SlabInput) (l : Layout) (op : SlabOp) :
    l.base ≤ (l.next k s op).base := by
  cases op with
  | line text => exact Nat.le_add_right _ _
  | object o =>
    rw [Layout.next]
    split
    · exact Nat.le_refl _
    · exact Nat.le_refl _
  | check => exact Nat.le_refl _

/-- **Some operations are inside of the region** if and only if they fit. -/
theorem Corr.inside_iff (h : Corr s d l) (hsmall : s.dumpSize < 2 ^ 31) (hbase : s.m < l.base)
    (hold : ∀ b ∈ d.texts, s.Inside b) (ops : List SlabOp) :
    (∀ b ∈ (ops.foldl (SlabOp.run k s) d).texts, s.Inside b) ↔
      ∀ p ∈ l.places k s ops, s.Fits p := by
  induction ops generalizing d l with
  | nil => exact ⟨fun _ p hp => absurd hp List.not_mem_nil, fun _ => hold⟩
  | cons op ops ih =>
    rw [List.foldl_cons, Layout.places]
    by_cases hfit : ∀ p ∈ l.place k s op, s.Fits p
    · obtain ⟨hcorr, htexts⟩ := h.run hsmall hbase hfit
      have hbase' := Nat.lt_of_lt_of_le hbase (l.base_le_next k s op)
      have hold' : ∀ b ∈ (op.run k s d).texts, s.Inside b := by
        intro b hb
        rcases htexts b hb with hb | hb
        · exact hold b hb
        · exact hb
      rw [ih hcorr hbase' hold']
      refine ⟨fun hall p hp => ?_, fun hall p hp => hall p (List.mem_append_right _ hp)⟩
      rcases List.mem_append.mp hp with hp | hp
      · exact hfit p (Option.mem_toList.mp hp)
      · exact hall p hp
    · obtain ⟨p, hp⟩ := not_forall.mp hfit
      obtain ⟨hplace, hcut⟩ := Classical.not_imp.mp hp
      obtain ⟨b, hb, houtside⟩ := h.run_cut hsmall hbase hplace hcut
      refine ⟨fun hall => absurd (hall b ?_) houtside, fun hall => absurd (hall p ?_) hcut⟩
      · exact (texts_kept k s ops _).subset hb
      · exact List.mem_append_left _ (Option.mem_toList.mpr hplace)

end Step

theorem KmemCache.heading_pos (c : KmemCache) : 0 < c.heading.length := by
  rw [KmemCache.heading, List.length_append]
  exact Nat.lt_of_lt_of_le Nat.zero_lt_one (Nat.le_add_left _ _)

/-- The code at the start. -/
theorem corr_start (s : SlabInput) (mem : Nat → UInt8) (hsize : 1 < s.dumpSize) :
    Corr s ⟨⟨mem, 0⟩, s.m, 0, [], false⟩ s.layout where
  buf := rfl
  offset := rfl
  nrHandles := rfl
  returned := rfl
  offset_lt := hsize
  capacity := Nat.sub_le _ _
  table := fun _ i hi => absurd hi (Nat.not_lt_zero i)

/-- **The slab owner dump stays in its region** if and only if all lines and records fit where they
are printed, or the first line fills the region, or the region is too large to be printed to. -/
theorem slabOwner_inside_iff (k : SlabKernel) (s : SlabInput) (mem : Nat → UInt8) :
    (∀ b ∈ (mdDumpSlabowner k s mem).texts, s.Inside b) ↔
      (2 ^ 31 ≤ s.dumpSize ∨ (∃ c ∈ s.selected.head?, s.dumpSize ≤ c.heading.length + 1) ∨
        ∀ p ∈ slabPlaces k s, s.Fits p) := by
  rw [mdDumpSlabowner, foldl_dumpCache, slabPlaces, SlabInput.ops]
  by_cases hhuge : 2 ^ 31 ≤ s.dumpSize
  · rw [(foldl_run_huge hhuge _ rfl rfl).1]
    exact ⟨fun _ => Or.inl hhuge, fun _ b hb => absurd hb List.not_mem_nil⟩
  have hsmall : s.dumpSize < 2 ^ 31 := Nat.not_le.mp hhuge
  cases hselected : s.selected with
  | nil =>
    refine ⟨fun _ => Or.inr (Or.inr fun p hp => absurd hp List.not_mem_nil), ?_⟩
    exact fun _ b hb => absurd hb List.not_mem_nil
  | cons c cs =>
    have hheading := c.heading_pos
    have hops : (c :: cs).flatMap KmemCache.ops = .line c.heading :: _ := rfl
    rw [hops, List.foldl_cons, SlabOp.run]
    by_cases hfills : s.dumpSize ≤ c.heading.length + 1
    · -- the function returns behind the first line
      have hprinted : printed s.dumpSize c.heading + 1 = s.dumpSize := by
        have hpos := s.size_pos
        rw [printed, if_neg hhuge]
        omega
      have hline : dumpLine s ⟨⟨mem, 0⟩, s.m, 0, [], false⟩ c.heading = _ :=
        if_neg Bool.false_ne_true
      rw [scnprintf_eq] at hline
      dsimp only at hline
      rw [if_pos hprinted] at hline
      rw [hline, foldl_run_returned rfl]
      refine ⟨fun _ => Or.inr (Or.inl ⟨c, rfl, hfills⟩), fun _ b hb => ?_⟩
      obtain ⟨hstart, hlength⟩ := scnprintfStores_inside hb
      exact ⟨Nat.le_of_eq hstart.symm, by omega⟩
    · obtain ⟨hcorr, htexts, -⟩ := (corr_start s mem (by omega)).line (k := k) hsmall
        (by omega : c.heading.length + 1 < s.dumpSize)
      have hbase : s.m < (s.layout.next k s (.line c.heading)).base :=
        Nat.lt_add_of_pos_right hheading
      have hfirst : s.Fits (s.m, c.heading) := by
        show s.m + c.heading.length < s.m + s.dumpSize
        omega
      rw [hcorr.inside_iff hsmall hbase, Layout.places]
      · refine ⟨fun hall => Or.inr (Or.inr fun p hp => ?_), ?_⟩
        · rcases List.mem_append.mp hp with hp | hp
          · cases List.mem_singleton.mp hp
            exact hfirst
          · exact hall p hp
        · rintro (hhuge' | ⟨c', hc', hfills'⟩ | hall)
          · exact absurd hhuge' hhuge
          · cases hc'
            exact absurd hfills' hfills
          · exact fun p hp => hall p (List.mem_append_right _ hp)
      · intro b hb
        rw [htexts] at hb
        cases List.mem_singleton.mp hb
        refine ⟨Nat.le_refl _, ?_⟩
        show s.m + (c.heading ++ [0]).length ≤ s.m + s.dumpSize
        rw [List.length_append, List.length_singleton]
        omega

/-- Two tracked objects in a region of 48 bytes. -/
def crowdedSlabs : SlabInput where
  m := 0x1000
  dumpSize := 48
  slabOwnerHandlesSize := 0
  slabOwnerFilter := 8
  kmallocCaches := fun i =>
    if i = 3 then some ⟨asciiBytes "kmalloc-8".toList, [⟨1, [[⟨1, 5, []⟩, ⟨2, 5, []⟩]], []⟩]⟩
    else none
  size_pos := by decide
  handles_dvd := by decide
  handles_le := by decide

/-- `%p` has sixteen digits for a value of 32 bits. -/
def hexDigits8 (n : Nat) : List Char :=
  List.replicate (8 - (Nat.toDigits 16 n).length) '0' ++ Nat.toDigits 16 n

/-- A kernel with simple hashes of pointers and of stacks. -/
def plainSlabKernel : SlabKernel where
  pointerText := fun p => asciiBytes (List.replicate 8 '0' ++ hexDigits8 p.toUInt32.toNat)
  hashStack := fun entries => entries.foldl (fun h e => h * 31 + e.toUInt32) 7

/-- **A record behind the region**: the second record starts inside of it and ends behind it. -/
theorem slabOwner_outside :
    ¬ ∀ b ∈ (mdDumpSlabowner plainSlabKernel crowdedSlabs (fun _ => 0)).texts,
      crowdedSlabs.Inside b := by
  decide +kernel

/-! ## The text -/

/-- The text of some operations, everything behind one another. -/
def Layout.textOf (k : SlabKernel) (s : SlabInput) (l : Layout) (ops : List SlabOp) : List UInt8 :=
  (l.places k s ops).flatMap Prod.snd

/-- The text that the dump should be. -/
def slabText (k : SlabKernel) (s : SlabInput) : List UInt8 := s.layout.textOf k s s.ops

/-- The positions behind some operations. -/
def Layout.nexts (k : SlabKernel) (s : SlabInput) (l : Layout) (ops : List SlabOp) : Layout :=
  ops.foldl (Layout.next k s) l

/-- The objects of a cache that are tracked. -/
def KmemCache.objects (c : KmemCache) : List SlabObject :=
  (c.nodes.flatMap KmemCacheNode.slabs).flatten.filter (fun o => o.addr ≠ 0)

/-- An operation that prints no record. -/
def SlabOp.Plain : SlabOp → Prop
  | line _ => True
  | object o => o.addr = 0
  | check => True

/-- An operation that prints no line. -/
def SlabOp.IsObject : SlabOp → Prop
  | line _ => False
  | object _ => True
  | check => True

section Layout

variable {k : SlabKernel} {s : SlabInput}

theorem Layout.textOf_cons (l : Layout) (op : SlabOp) (ops : List SlabOp) :
    l.textOf k s (op :: ops) =
      ((l.place k s op).map Prod.snd).getD [] ++ (l.next k s op).textOf k s ops := by
  rw [Layout.textOf, Layout.places, List.flatMap_append]
  cases l.place k s op with
  | none => rfl
  | some p => exact congrArg (· ++ _) (List.append_nil _)

theorem Layout.textOf_append (l : Layout) (ops more : List SlabOp) :
    l.textOf k s (ops ++ more) = l.textOf k s ops ++ (l.nexts k s ops).textOf k s more := by
  induction ops generalizing l with
  | nil => rfl
  | cons op ops ih =>
    rw [List.cons_append, Layout.textOf_cons, Layout.textOf_cons, ih, List.append_assoc]
    rfl

theorem Layout.textOf_line (l : Layout) (text : List UInt8) (ops : List SlabOp) :
    l.textOf k s (.line text :: ops) = text ++ (l.next k s (.line text)).textOf k s ops :=
  Layout.textOf_cons l _ ops

/-- Nothing is printed for an operation without a place. -/
theorem Layout.textOf_none (l : Layout) {op : SlabOp} (hplace : l.place k s op = none)
    (hnext : l.next k s op = l) (ops : List SlabOp) :
    l.textOf k s (op :: ops) = l.textOf k s ops := by
  rw [Layout.textOf_cons, hplace, hnext]
  rfl

theorem Layout.textOf_untracked (l : Layout) {o : SlabObject} (h : o.addr = 0)
    (ops : List SlabOp) : l.textOf k s (.object o :: ops) = l.textOf k s ops := by
  have hplace : l.place k s (.object o) = none := if_pos h
  have hnext : l.next k s (.object o) = l := if_pos h
  exact l.textOf_none hplace hnext ops

theorem Layout.textOf_tracked (l : Layout) {o : SlabObject} (h : o.addr ≠ 0)
    (ops : List SlabOp) :
    l.textOf k s (.object o :: ops) =
      l.record k s o ++ (l.next k s (.object o)).textOf k s ops := by
  have hplace : l.place k s (.object o) = some (l.pos, l.record k s o) := if_neg h
  rw [Layout.textOf_cons, hplace]
  rfl

/-- A record starts with a pointer. -/
theorem record_head (hpointer : ∀ p, ∃ b rest, k.pointerText p = b :: rest ∧ b ≠ 10) (l : Layout)
    (o : SlabObject) : ∃ b rest, l.record k s o = b :: rest ∧ b ≠ 10 := by
  obtain ⟨b, rest, hb, hne⟩ := hpointer o.object
  have hline : ∀ n, ∃ rest, objectLine k o n = b :: rest := by
    intro n
    rw [objectLine, hb]
    exact ⟨_, rfl⟩
  rw [Layout.record]
  cases (l.kind s (k.hashStack o.entries)).1 with
  | stack =>
    obtain ⟨rest', hrest⟩ := hline o.entries.length
    rw [objectLines, List.flatten_cons, hrest, List.cons_append]
    exact ⟨b, _, rfl, hne⟩
  | backReference =>
    obtain ⟨rest', hrest⟩ := hline 0
    rw [objectLines, List.flatten_cons, hrest, List.cons_append]
    exact ⟨b, _, rfl, hne⟩

/-- Objects of which one is tracked. -/
theorem textOf_objects_head (hpointer : ∀ p, ∃ b rest, k.pointerText p = b :: rest ∧ b ≠ 10)
    (ops : List SlabOp) (hops : ∀ op ∈ ops, op.IsObject) (l : Layout)
    (htracked : ∃ o, .object o ∈ ops ∧ o.addr ≠ 0) :
    ∃ b rest, l.textOf k s ops = b :: rest ∧ b ≠ 10 := by
  induction ops generalizing l with
  | nil =>
    obtain ⟨o, ho, -⟩ := htracked
    cases ho
  | cons op ops ih =>
    have hrest := ih (fun op hop => hops op (List.mem_cons_of_mem _ hop))
    cases op with
    | line text => exact (hops _ List.mem_cons_self).elim
    | object o =>
      by_cases ho : o.addr = 0
      · rw [l.textOf_untracked ho]
        refine hrest l ?_
        obtain ⟨o', ho', hne⟩ := htracked
        rcases List.mem_cons.mp ho' with heq | ho'
        · cases heq
          exact absurd ho hne
        · exact ⟨o', ho', hne⟩
      · obtain ⟨b, rest, hb, hne⟩ := record_head (s := s) hpointer l o
        rw [l.textOf_tracked ho, hb, List.cons_append]
        exact ⟨b, _, rfl, hne⟩
    | check =>
      rw [l.textOf_none rfl rfl]
      refine hrest l ?_
      obtain ⟨o', ho', hne⟩ := htracked
      rcases List.mem_cons.mp ho' with heq | ho'
      · cases heq
      · exact ⟨o', ho', hne⟩

end Layout

/-! ## Lines and records in memory -/

section Memory

variable {k : SlabKernel} {s : SlabInput} {d : SlabDump} {l : Layout}

/-- **What stands before `buf` stays.** -/
theorem run_below (k : SlabKernel) (s : SlabInput) (d : SlabDump) (op : SlabOp) :
    d.buf ≤ (op.run k s d).buf ∧
      ∀ x, x < d.buf → (op.run k s d).region.mem x = d.region.mem x := by
  cases op with
  | line text =>
    have hkept : ∀ x, x < d.buf → (scnprintf d.region.mem d.buf s.dumpSize text).1 x =
        d.region.mem x := fun x hx => scnprintf_below _ _ _ hx
    rw [SlabOp.run, dumpLine]
    split
    · exact ⟨Nat.le_refl _, fun _ _ => rfl⟩
    · dsimp only
      split
      · exact ⟨Nat.le_refl _, hkept⟩
      · exact ⟨Nat.le_add_right _ _, hkept⟩
  | object o =>
    rw [SlabOp.run]
    split
    · exact ⟨Nat.le_refl _, fun _ _ => rfl⟩
    · rw [dumpTracking]
      split
      · exact ⟨Nat.le_refl _, fun _ _ => rfl⟩
      · refine ⟨Nat.le_refl _, fun x hx => ?_⟩
        refine (printLines_kept _ _ 0 (Or.inl (by omega))).trans ?_
        exact slabKind_below s d.region _ _ (Or.inl (by omega))
  | check =>
    rw [SlabOp.run]
    split
    · exact ⟨Nat.le_refl _, fun _ _ => rfl⟩
    · split
      · exact ⟨Nat.le_refl _, fun _ _ => rfl⟩
      · exact ⟨Nat.le_refl _, fun _ _ => rfl⟩

theorem foldl_run_below (k : SlabKernel) (s : SlabInput) (ops : List SlabOp) (d : SlabDump) {x : Nat}
    (hx : x < d.buf) : (ops.foldl (SlabOp.run k s) d).region.mem x = d.region.mem x := by
  induction ops generalizing d with
  | nil => rfl
  | cons op ops ih =>
    obtain ⟨hbuf, hmem⟩ := run_below k s d op
    exact (ih _ (Nat.lt_of_lt_of_le hx hbuf)).trans (hmem x hx)

/-- **Lines follow one another.** -/
theorem Corr.plain (h : Corr s d l) (hsmall : s.dumpSize < 2 ^ 31) (ops : List SlabOp)
    (hplain : ∀ op ∈ ops, op.Plain)
    (hlines : ∀ text, .line text ∈ ops → text.length + 1 < s.dumpSize) :
    Corr s (ops.foldl (SlabOp.run k s) d) (l.nexts k s ops) ∧
      (l.nexts k s ops).base = l.base + (l.textOf k s ops).length ∧
      (l.nexts k s ops).offset = l.offset ∧
      slice (ops.foldl (SlabOp.run k s) d).region.mem l.base (l.textOf k s ops).length =
        l.textOf k s ops := by
  induction ops generalizing d l with
  | nil => exact ⟨h, rfl, rfl, rfl⟩
  | cons op ops ih =>
    have hplain' : ∀ op ∈ ops, op.Plain := fun op hop => hplain op (List.mem_cons_of_mem _ hop)
    have hlines' : ∀ text, .line text ∈ ops → text.length + 1 < s.dumpSize :=
      fun text ht => hlines text (List.mem_cons_of_mem _ ht)
    have hnexts : l.nexts k s (op :: ops) = (l.next k s op).nexts k s ops := rfl
    rw [List.foldl_cons, hnexts]
    cases op with
    | line text =>
      obtain ⟨hcorr, -, hmem⟩ := h.line (k := k) hsmall (hlines text List.mem_cons_self)
      obtain ⟨hcorr', hbase, hoffset, hslice⟩ := ih hcorr hplain' hlines'
      have hnext : (l.next k s (.line text)).base = l.base + text.length := rfl
      rw [hnext] at hbase hslice
      rw [l.textOf_line, List.length_append]
      refine ⟨hcorr', by omega, hoffset, ?_⟩
      have hbelow : slice (ops.foldl (SlabOp.run k s) (dumpLine s d text)).region.mem l.base
          text.length = text := by
        have hkept : slice (ops.foldl (SlabOp.run k s) (dumpLine s d text)).region.mem l.base
            text.length = slice (dumpLine s d text).region.mem l.base text.length := by
          refine slice_congr (fun i hi => foldl_run_below k s ops _ ?_)
          rw [hcorr.buf, hnext]
          omega
        rw [hkept, hmem, ← storeAt_append,
          slice_storeAt_disjoint _ (Or.inl (Nat.le_refl (l.base + text.length))), slice_storeAt]
      rw [slice_add]
      exact congrArg₂ (· ++ ·) hbelow hslice
    | object o =>
      have ho : o.addr = 0 := hplain _ List.mem_cons_self
      have hnext : l.next k s (.object o) = l := if_pos ho
      rw [run_untracked ho, l.textOf_untracked ho, hnext]
      exact ih h hplain' hlines'
    | check =>
      rw [h.run_check, l.textOf_none rfl rfl]
      exact ih h hplain' hlines'

/-- **Records follow one another**, from `offset` on. -/
theorem Corr.objects (h : Corr s d l) (hsmall : s.dumpSize < 2 ^ 31) (ops : List SlabOp)
    (hobjects : ∀ op ∈ ops, op.IsObject)
    (hfit : l.offset + (l.textOf k s ops).length + 1 < s.dumpSize) :
    Corr s (ops.foldl (SlabOp.run k s) d) (l.nexts k s ops) ∧
      (l.nexts k s ops).base = l.base := by
  induction ops generalizing d l with
  | nil => exact ⟨h, rfl⟩
  | cons op ops ih =>
    have hobjects' : ∀ op ∈ ops, op.IsObject :=
      fun op hop => hobjects op (List.mem_cons_of_mem _ hop)
    have hnexts : l.nexts k s (op :: ops) = (l.next k s op).nexts k s ops := rfl
    rw [List.foldl_cons, hnexts]
    cases op with
    | line text => exact (hobjects _ List.mem_cons_self).elim
    | object o =>
      by_cases ho : o.addr = 0
      · have hnext : l.next k s (.object o) = l := if_pos ho
        rw [l.textOf_untracked ho] at hfit
        rw [run_untracked ho, hnext]
        exact ih h hobjects' hfit
      · rw [l.textOf_tracked ho, List.length_append] at hfit
        have hrun : (SlabOp.object o).run k s d = dumpTracking k s d o :=
          if_neg (Bool.eq_false_iff.mp h.returned)
        have hnext : l.next k s (.object o) = ⟨l.base, l.offset + (l.record k s o).length,
            clearedAt s (l.pos + (l.record k s o).length)
              (l.kind s (k.hashStack o.entries)).2⟩ := if_neg ho
        have hobject := (h.object (k := k) hsmall ho (by omega)).corr
        have hrest := ih hobject hobjects' (by
          rw [hnext] at hfit ⊢
          dsimp only
          omega)
        rw [hrun]
        refine ⟨hrest.1, hrest.2.trans ?_⟩
        rw [hnext]
    | check =>
      rw [l.textOf_none rfl rfl] at hfit
      rw [h.run_check]
      exact ih h hobjects' hfit

end Memory

/-! ## Caches -/

/-- The operations for the slabs of a cache. -/
def KmemCache.slabsOps (c : KmemCache) : List SlabOp :=
  (c.nodes.flatMap KmemCacheNode.slabs).flatMap slabOps

section Caches

variable {k : SlabKernel} {s : SlabInput} {c : KmemCache}

theorem KmemCache.ops_eq (c : KmemCache) :
    c.ops = .line c.heading :: (c.slabsOps ++ [.line (asciiBytes ['\n'])]) := rfl

theorem KmemCache.mem_slabsOps {op : SlabOp} (h : op ∈ c.slabsOps) :
    op = .check ∨ ∃ o ∈ (c.nodes.flatMap KmemCacheNode.slabs).flatten, op = .object o := by
  obtain ⟨slab, hslab, hop⟩ := List.mem_flatMap.mp h
  rcases List.mem_append.mp hop with hop | hop
  · obtain ⟨o, ho, rfl⟩ := List.mem_map.mp hop
    exact Or.inr ⟨o, List.mem_flatten.mpr ⟨slab, hslab, ho⟩, rfl⟩
  · exact Or.inl (List.mem_singleton.mp hop)

theorem KmemCache.slabsOps_objects : ∀ op ∈ c.slabsOps, op.IsObject := by
  intro op hop
  rcases KmemCache.mem_slabsOps hop with rfl | ⟨o, -, rfl⟩
  · exact trivial
  · exact trivial

/-- The operations of a cache without tracked objects. -/
theorem KmemCache.ops_plain (h : c.objects = []) : ∀ op ∈ c.ops, op.Plain := by
  intro op hop
  rw [KmemCache.ops_eq] at hop
  rcases List.mem_cons.mp hop with rfl | hop
  · exact trivial
  · rcases List.mem_append.mp hop with hop | hop
    · rcases KmemCache.mem_slabsOps hop with rfl | ⟨o, ho, rfl⟩
      · exact trivial
      · have hnot := List.filter_eq_nil_iff.mp h o ho
        exact not_not.mp (fun hne => hnot (decide_eq_true hne))
    · cases List.mem_singleton.mp hop
      exact trivial

theorem KmemCache.tracked_mem (h : c.objects ≠ []) : ∃ o, .object o ∈ c.slabsOps ∧ o.addr ≠ 0 := by
  obtain ⟨o, ho⟩ := List.exists_mem_of_ne_nil _ h
  obtain ⟨hmem, hne⟩ := List.mem_filter.mp ho
  obtain ⟨slab, hslab, hin⟩ := List.mem_flatten.mp hmem
  refine ⟨o, List.mem_flatMap.mpr ⟨slab, hslab, ?_⟩, of_decide_eq_true hne⟩
  exact List.mem_append_left _ (List.mem_map.mpr ⟨o, hin, rfl⟩)

/-- The text of a cache. -/
theorem textOf_cache (k : SlabKernel) (s : SlabInput) (l : Layout) (c : KmemCache) :
    ∃ records, l.textOf k s c.ops = c.heading ++ (records ++ asciiBytes ['\n']) := by
  rw [KmemCache.ops_eq, l.textOf_line, Layout.textOf_append, Layout.textOf_line]
  exact ⟨_, rfl⟩

/-- A line is not the whole text. -/
theorem line_lt_textOf (cs : List KmemCache) (l : Layout) {text : List UInt8}
    (h : .line text ∈ cs.flatMap KmemCache.ops) :
    text.length + 1 ≤ (l.textOf k s (cs.flatMap KmemCache.ops)).length := by
  induction cs generalizing l with
  | nil => cases h
  | cons c cs ih =>
    obtain ⟨records, hrecords⟩ := textOf_cache k s l c
    have hpos := c.heading_pos
    have hnewline : (asciiBytes ['\n']).length = 1 := rfl
    rw [List.flatMap_cons] at h ⊢
    rw [Layout.textOf_append, List.length_append, hrecords, List.length_append, List.length_append,
      hnewline]
    rcases List.mem_append.mp h with h | h
    · rw [KmemCache.ops_eq] at h
      rcases List.mem_cons.mp h with heq | h
      · cases heq
        omega
      · rcases List.mem_append.mp h with h | h
        · exact (KmemCache.slabsOps_objects _ h).elim
        · cases List.mem_singleton.mp h
          rw [hnewline]
          omega
    · have hrest := ih (l.nexts k s c.ops) h
      omega

end Caches

/-! ## The result -/

section Result

variable {k : SlabKernel} {s : SlabInput}

/-- There is no text if and only if no cache is selected: a cache has at least its heading. -/
theorem slabText_eq_nil : slabText k s = [] ↔ s.selected = [] := by
  rw [slabText, SlabInput.ops]
  cases s.selected with
  | nil => exact ⟨fun _ => rfl, fun _ => rfl⟩
  | cons c cs =>
    refine ⟨fun htext => ?_, fun h => absurd h (List.cons_ne_nil _ _)⟩
    obtain ⟨records, hrecords⟩ := textOf_cache k s s.layout c
    have hpos := c.heading_pos
    have hzero := congrArg List.length htext
    rw [List.flatMap_cons, Layout.textOf_append, hrecords, List.length_append, List.length_append,
      List.length_nil] at hzero
    omega

/-- Without records the text is there. -/
theorem slabText_of_plain (hsmall : s.dumpSize < 2 ^ 31) (hfit : (slabText k s).length < s.dumpSize)
    (hnone : ∀ c ∈ s.selected, c.objects = []) (mem : Nat → UInt8) :
    slice (mdDumpSlabowner k s mem).region.mem s.m (slabText k s).length = slabText k s := by
  have hlines : ∀ text, .line text ∈ s.ops → text.length + 1 < s.dumpSize :=
    fun text h => Nat.lt_of_le_of_lt (line_lt_textOf _ _ h) hfit
  have hplain : ∀ op ∈ s.ops, op.Plain := by
    intro op hop
    obtain ⟨c, hc, hop⟩ := List.mem_flatMap.mp hop
    exact KmemCache.ops_plain (hnone c hc) op hop
  rw [mdDumpSlabowner, foldl_dumpCache]
  by_cases hempty : s.selected = []
  · rw [slabText_eq_nil.mpr hempty]
    rfl
  · obtain ⟨c, hc⟩ := List.exists_mem_of_ne_nil _ hempty
    have hline := hlines c.heading (List.mem_flatMap.mpr ⟨c, hc, List.mem_cons_self⟩)
    exact ((corr_start s mem (by omega)).plain hsmall s.ops hplain hlines).2.2.2

/-- The operations up to the heading of a cache. -/
def opsUpTo (before : List KmemCache) (c : KmemCache) : List SlabOp :=
  before.flatMap KmemCache.ops ++ [.line c.heading]

theorem ops_split {before after : List KmemCache} {c : KmemCache}
    (hselected : s.selected = before ++ c :: after) :
    s.ops = opsUpTo before c ++
      (c.slabsOps ++ (.line (asciiBytes ['\n']) :: after.flatMap KmemCache.ops)) := by
  rw [SlabInput.ops, hselected, List.flatMap_append, List.flatMap_cons, KmemCache.ops_eq, opsUpTo]
  simp only [List.append_assoc, List.cons_append, List.nil_append]

theorem opsUpTo_plain {before : List KmemCache} (hbefore : ∀ b ∈ before, b.objects = [])
    (c : KmemCache) : ∀ op ∈ opsUpTo before c, op.Plain := by
  intro op hop
  rcases List.mem_append.mp hop with hop | hop
  · obtain ⟨b, hb, hop⟩ := List.mem_flatMap.mp hop
    exact KmemCache.ops_plain (hbefore b hb) op hop
  · cases List.mem_singleton.mp hop
    exact trivial

theorem textOf_opsUpTo_pos (k : SlabKernel) (s : SlabInput) (l : Layout) (before : List KmemCache)
    (c : KmemCache) : 0 < (l.textOf k s (opsUpTo before c)).length := by
  have hpos := c.heading_pos
  rw [opsUpTo, Layout.textOf_append, Layout.textOf_line, List.length_append, List.length_append]
  omega

/-- **Behind the first heading with records** stands the end of a line, not the first record. -/
theorem newline_of_records (hsmall : s.dumpSize < 2 ^ 31)
    (hfit : (slabText k s).length < s.dumpSize) {before after : List KmemCache} {c : KmemCache}
    (hselected : s.selected = before ++ c :: after) (hbefore : ∀ b ∈ before, b.objects = [])
    (hc : c.objects ≠ []) (hpointer : ∀ p, ∃ b rest, k.pointerText p = b :: rest ∧ b ≠ 10)
    (mem : Nat → UInt8) :
    ∃ i b, (slabText k s)[i]? = some b ∧ b ≠ 10 ∧
      (mdDumpSlabowner k s mem).region.mem (s.m + i) = 10 := by
  have hops := ops_split hselected
  have hlines : ∀ text, .line text ∈ s.ops → text.length + 1 < s.dumpSize :=
    fun text h => Nat.lt_of_le_of_lt (line_lt_textOf _ _ h) hfit
  have hnewline : (asciiBytes ['\n']).length = 1 := rfl
  have hheading := textOf_opsUpTo_pos k s s.layout before c
  obtain ⟨tail, htext⟩ : ∃ tail, slabText k s = s.layout.textOf k s (opsUpTo before c) ++
      ((s.layout.nexts k s (opsUpTo before c)).textOf k s c.slabsOps ++
        (asciiBytes ['\n'] ++ tail)) := by
    rw [slabText, hops, Layout.textOf_append, Layout.textOf_append, Layout.textOf_line]
    exact ⟨_, rfl⟩
  have hlength := congrArg List.length htext
  rw [List.length_append, List.length_append, List.length_append, hnewline] at hlength
  -- the lines, the records, and the line behind them
  obtain ⟨hcorr, hbase, hoffset, -⟩ := (corr_start s mem (by omega)).plain (k := k) hsmall
    (opsUpTo before c) (opsUpTo_plain hbefore c)
    (fun text h => hlines text (hops ▸ List.mem_append_left _ h))
  obtain ⟨hcorr', hbase'⟩ := hcorr.objects (k := k) hsmall c.slabsOps KmemCache.slabsOps_objects
    (by rw [hoffset]; show 0 + _ + 1 < _; omega)
  have hroom : (asciiBytes ['\n']).length + 1 < s.dumpSize := by
    rw [hnewline]
    omega
  obtain ⟨hcorr'', -, hmem⟩ := hcorr'.line (k := k) hsmall hroom
  obtain ⟨b, rest, hb, hne⟩ := textOf_objects_head (s := s) hpointer c.slabsOps
    KmemCache.slabsOps_objects (s.layout.nexts k s (opsUpTo before c)) (KmemCache.tracked_mem hc)
  refine ⟨(s.layout.textOf k s (opsUpTo before c)).length, b, ?_, hne, ?_⟩
  · rw [htext, List.getElem?_append_right (Nat.le_refl _), Nat.sub_self, hb]
    rfl
  · have hplace : s.m + (s.layout.textOf k s (opsUpTo before c)).length =
        ((s.layout.nexts k s (opsUpTo before c)).nexts k s c.slabsOps).base :=
      hbase.symm.trans hbase'.symm
    have hrun : mdDumpSlabowner k s mem = s.ops.foldl (SlabOp.run k s) _ := foldl_dumpCache k s _ _
    rw [hrun, hops, List.foldl_append, List.foldl_append, List.foldl_cons, hplace]
    refine (foldl_run_below k s _ _ ?_).trans ?_
    · exact Nat.lt_of_lt_of_eq (Nat.lt_succ_self _) hcorr''.buf.symm
    · show (dumpLine s _ _).region.mem _ = 10
      rw [hmem]
      exact storeAt_add (k := 0) _ (by decide)

/-- Either no cache has objects, or there is a first one that has. -/
theorem objects_nil_or_first (caches : List KmemCache) :
    (∀ c ∈ caches, c.objects = []) ∨ ∃ before c after, caches = before ++ c :: after ∧
      (∀ b ∈ before, b.objects = []) ∧ c.objects ≠ [] := by
  induction caches with
  | nil => exact Or.inl (List.forall_mem_nil _)
  | cons a as ih =>
    by_cases ha : a.objects = []
    · rcases ih with hnone | ⟨before, c, after, rfl, hbefore, hc⟩
      · exact Or.inl (List.forall_mem_cons.mpr ⟨ha, hnone⟩)
      · exact Or.inr ⟨a :: before, c, after, rfl, List.forall_mem_cons.mpr ⟨ha, hbefore⟩, hc⟩
    · exact Or.inr ⟨[], a, as, rfl, List.forall_mem_nil _, ha⟩

/-- Where the text is there, no cache has records. -/
theorem no_records_of_text (hsmall : s.dumpSize < 2 ^ 31)
    (hfit : (slabText k s).length < s.dumpSize)
    (hpointer : ∀ p, ∃ b rest, k.pointerText p = b :: rest ∧ b ≠ 10) {mem : Nat → UInt8}
    (htext : slice (mdDumpSlabowner k s mem).region.mem s.m (slabText k s).length = slabText k s) :
    ∀ c ∈ s.selected, c.objects = [] := by
  rcases objects_nil_or_first s.selected with hnone | ⟨before, c, after, hselected, hbefore, hc⟩
  · exact hnone
  · obtain ⟨i, b, hexpected, hne, hfound⟩ :=
      newline_of_records hsmall hfit hselected hbefore hc hpointer mem
    have hi := (List.getElem?_eq_some_iff.mp hexpected).1
    rw [← htext, slice_getElem? _ _ hi, hfound] at hexpected
    exact absurd (Option.some.inj hexpected).symm hne

/-- **Nothing is printed to a huge region**: a text that is there whatever the region held before is
empty. -/
theorem no_text_of_huge (hhuge : 2 ^ 31 ≤ s.dumpSize)
    (hfit : s.m + (slabText k s).length < s.handles)
    (hall : ∀ mem, slice (mdDumpSlabowner k s mem).region.mem s.m (slabText k s).length =
      slabText k s) :
    slabText k s = [] := by
  cases htext : slabText k s with
  | nil => rfl
  | cons b rest =>
    -- the region is filled with a byte that is not the first one of the text
    have hsame := (foldl_run_huge (k := k) hhuge s.ops
      (d := ⟨⟨fun _ => b + 1, 0⟩, s.m, 0, [], false⟩) rfl rfl).2 s.m (by omega)
    have hslice := hall (fun _ => b + 1)
    rw [mdDumpSlabowner, foldl_dumpCache, htext, List.length_cons, slice_succ_left] at hslice
    have hhead := (List.cons.inj hslice).1
    rw [SlabInput.ops] at hsame
    rw [hsame] at hhead
    have hne : b + 1 ≠ b := by
      intro heq
      simp at heq
    exact absurd hhead hne

end Result

/-- **The slab owner dump is the sequence of its lines and records** if and only if there are no
records, and the region is not too large to be printed to or nothing is selected.  The text is
supposed to end before the table of handles, and a pointer is printed as a text that does not start
with the end of a line. -/
theorem slabOwner_text_iff (k : SlabKernel) (s : SlabInput)
    (hpointer : ∀ p, ∃ b rest, k.pointerText p = b :: rest ∧ b ≠ 10)
    (hfit : s.m + (slabText k s).length < s.handles) :
    (∀ mem, slice (mdDumpSlabowner k s mem).region.mem s.m (slabText k s).length = slabText k s) ↔
      ((∀ c ∈ s.selected, c.objects = []) ∧ (s.dumpSize < 2 ^ 31 ∨ s.selected = [])) := by
  have hhandles : s.handles ≤ s.m + s.dumpSize := Nat.sub_le _ _
  have hlength : (slabText k s).length < s.dumpSize := by omega
  refine ⟨fun hall => ?_, ?_⟩
  · by_cases hsmall : s.dumpSize < 2 ^ 31
    · exact ⟨no_records_of_text hsmall hlength hpointer (hall (fun _ => 0)), Or.inl hsmall⟩
    · have hnil : s.selected = [] :=
        slabText_eq_nil.mp (no_text_of_huge (Nat.not_lt.mp hsmall) hfit hall)
      refine ⟨?_, Or.inr hnil⟩
      rw [hnil]
      exact List.forall_mem_nil _
  · rintro ⟨hnone, hsmall | hnil⟩ mem
    · exact slabText_of_plain hsmall hlength hnone mem
    · rw [slabText_eq_nil.mpr hnil]
      rfl

theorem plainSlabKernel_pointer (p : UInt64) :
    ∃ b rest, plainSlabKernel.pointerText p = b :: rest ∧ b ≠ 10 :=
  ⟨48, _, rfl, by decide⟩

/-- A region of 4096 bytes with a table of 64 bytes, and one cache with these objects. -/
def oneCache (objects : List SlabObject) : SlabInput where
  m := 0x1000
  dumpSize := 4096
  slabOwnerHandlesSize := 64
  slabOwnerFilter := 8
  kmallocCaches := fun i =>
    if i = 3 then some ⟨asciiBytes "kmalloc-8".toList, [⟨1, [objects], []⟩]⟩ else none
  size_pos := by decide
  handles_dvd := by decide
  handles_le := by decide

theorem slabOwner_text_iff_untracked :
    (oneCache [⟨1, 0, []⟩]).m + (slabText plainSlabKernel (oneCache [⟨1, 0, []⟩])).length <
        (oneCache [⟨1, 0, []⟩]).handles ∧
      ((∀ mem, slice (mdDumpSlabowner plainSlabKernel (oneCache [⟨1, 0, []⟩]) mem).region.mem
          (oneCache [⟨1, 0, []⟩]).m
          (slabText plainSlabKernel (oneCache [⟨1, 0, []⟩])).length =
            slabText plainSlabKernel (oneCache [⟨1, 0, []⟩])) ↔
        ((∀ c ∈ (oneCache [⟨1, 0, []⟩]).selected, c.objects = []) ∧
          ((oneCache [⟨1, 0, []⟩]).dumpSize < 2 ^ 31 ∨ (oneCache [⟨1, 0, []⟩]).selected = []))) :=
  ⟨by decide +kernel, slabOwner_text_iff plainSlabKernel (oneCache [⟨1, 0, []⟩])
    plainSlabKernel_pointer (by decide +kernel)⟩

/-- **The first record loses its first byte** to the empty line behind it. -/
theorem slabOwner_record_overwritten :
    (oneCache [⟨1, 5, []⟩]).m + (slabText plainSlabKernel (oneCache [⟨1, 5, []⟩])).length <
        (oneCache [⟨1, 5, []⟩]).handles ∧
      ¬ ∀ mem, slice (mdDumpSlabowner plainSlabKernel (oneCache [⟨1, 5, []⟩]) mem).region.mem
        (oneCache [⟨1, 5, []⟩]).m
        (slabText plainSlabKernel (oneCache [⟨1, 5, []⟩])).length =
          slabText plainSlabKernel (oneCache [⟨1, 5, []⟩]) := by
  have hne : slice (mdDumpSlabowner plainSlabKernel (oneCache [⟨1, 5, []⟩])
      (fun _ => 0)).region.mem (oneCache [⟨1, 5, []⟩]).m
        (slabText plainSlabKernel (oneCache [⟨1, 5, []⟩])).length ≠
      slabText plainSlabKernel (oneCache [⟨1, 5, []⟩]) := by
    decide +kernel
  exact ⟨by decide +kernel, fun hall => hne (hall _)⟩

end SafelinuxDbg.MinidumpMemory
