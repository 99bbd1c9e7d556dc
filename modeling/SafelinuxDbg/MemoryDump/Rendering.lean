import SafelinuxDbg.MemoryDump.ConfigSession

/-!
# Showing the registers

`register_config_show` walks the words of the table and prints a line for each entry it sees.  A
word 0 is skipped: it is the padding behind the per-core registers, and the end of the system
registers.  The first word of a read of more than four bytes is its offset alone, so a read at
offset 0 starts with a word 0 as well, and is not seen.

* `registerConfigShow_eq_iff`: what is shown is what was accepted, if and only if no read of more
  than four bytes at offset 0 was.
* `registerConfigShow_zero_offset`: an example of the other kind.
-/

namespace SafelinuxDbg.MemoryDump

open CMemory

/-! ## The page -/

/-- `PAGE_SIZE`. -/
abbrev pageSize : Nat := 4096

/-- The text in the buffer, and `count`. -/
structure Page where
  buf : List Char
  count : Nat
deriving DecidableEq

/-- `strlcat` into a buffer of one page, where there is a place for the terminating zero. -/
def strlcat (buf text : List Char) : List Char := buf ++ text.take (pageSize - 1 - buf.length)

/-- One more line, unless `count` gets too large. -/
def Page.add (page : Page) (line : List Char) : Option Page :=
  if pageSize < page.count + line.length then none
  else some ⟨strlcat page.buf line, page.count + line.length⟩

/-- `"0x%x, 0x%x, "` and the letter of the command.  It has at most 26 characters, so that it fits
into `local_buf`. -/
def configLine (registerOffset val : UInt32) (cmd : Char) : List Char :=
  "0x".toList ++ Nat.toDigits 16 registerOffset.toNat ++ (", 0x".toList ++
    Nat.toDigits 16 val.toNat ++ [',', ' ', cmd, '\n'])

def percoreTitle : List Char := "per-core registers:\n".toList
def systemTitle : List Char := "system registers:\n".toList

/-! ## The loop -/

/-- The line for the words at `index`, and their number; `p index` is not 0. -/
def shownEntry (p : Nat → UInt32) (index : Nat) : List Char × Nat :=
  let cmd := p index &&& 3
  let registerOffset := p index &&& 0xfffffffc
  if cmd = 0 then (configLine registerOffset (p (index + 1)) 'r', 2)
  else if cmd = cmdReadWord then (configLine registerOffset 4 'r', 1)
  else if cmd = cmdWrite then (configLine registerOffset (p (index + 1)) 'w', 2)
  else
    let val := p (index + 1) &&& maxExtraValue
    if p (index + 1) &&& 0xff000000 = cmdDelay then (configLine registerOffset val 'd', 2)
    else (configLine registerOffset val 'R', 2)

/-- The loop of `register_config_show`.  The index grows in every round, so that `indexEnd` rounds
are enough. -/
def showLoop (p : Nat → UInt32) (systemIndexStart indexEnd : Int) : Nat → Nat → Page → Page
  | 0, _, page => page
  | fuel + 1, index, page =>
    if (index : Int) < indexEnd then
      match if (index : Int) = systemIndexStart then page.add systemTitle else some page with
      | none => page
      | some page =>
        if p index = 0 then showLoop p systemIndexStart indexEnd fuel (index + 1) page
        else
          match page.add (shownEntry p index).1 with
          | none => page
          | some page' =>
            showLoop p systemIndexStart indexEnd fuel (index + (shownEntry p index).2) page'
    else page

/-- `register_config_show`.  `int` values are taken modulo `2 ^ 32`. -/
def registerConfigShow (d : CpussRegdumpData) : Page :=
  let systemIndexStart := Int.bmod (d.dumpVaddr sysRegInputIndex).toNat (2 ^ 32)
  let indexEnd := Int.bmod (systemIndexStart + (d.sysRegSize / 4).toNat + 1) (2 ^ 32)
  showLoop d.dumpVaddr systemIndexStart indexEnd indexEnd.toNat percoreIndex
    ⟨strlcat [] percoreTitle, percoreTitle.length⟩

/-! ## What should be shown -/

/-- The line of an entry; a delay has no offset. -/
def RegEntry.line (e : RegEntry) : List Char :=
  configLine (if e.cmd = .delay then 0 else e.offset) e.val e.cmd.char

/-- The lines of some entries. -/
def linesOf (es : List RegEntry) : List Char := es.flatMap RegEntry.line

/-- The text for a table. -/
def configText (percore system : List RegEntry) : List Char :=
  percoreTitle ++ linesOf percore ++ (systemTitle ++ linesOf system)

/-- The page with a text on it. -/
def Page.ofText (text : List Char) : Page := ⟨text, text.length⟩

@[simp] theorem Page.ofText_buf (text : List Char) : (Page.ofText text).buf = text := rfl

/-- An entry whose first word is 0. -/
def RegEntry.Hidden (e : RegEntry) : Prop := e.cmd = .read ∧ e.offset = 0 ∧ 4 < e.val

instance (e : RegEntry) : Decidable e.Hidden := by
  unfold RegEntry.Hidden
  infer_instance

/-! ## Reading an entry back -/

section Words

theorem or_and_distrib (a b m : UInt32) : (a ||| b) &&& m = (a &&& m) ||| (b &&& m) :=
  UInt32.toBitVec_inj.1 BitVec.and_or_distrib_right

variable {offset val : UInt32}

/-- An aligned offset is not touched by the mask. -/
theorem offset_and_mask (h : offset &&& 3 = 0) : offset &&& 0xfffffffc = offset := by
  have hsplit : offset = (offset &&& 3) ||| (offset &&& 0xfffffffc) := by
    rw [UInt32.and_comm offset 3, UInt32.and_comm offset 0xfffffffc, ← or_and_distrib,
      UInt32.and_comm]
    exact UInt32.and_neg_one.symm
  rw [h, UInt32.zero_or] at hsplit
  exact hsplit.symm

theorem offset_or_and (h : offset &&& 3 = 0) {cmd : UInt32} (hcmd : cmd &&& 3 = cmd) :
    (offset ||| cmd) &&& 3 = cmd := by
  rw [or_and_distrib, h, UInt32.zero_or, hcmd]

theorem offset_or_and_mask (h : offset &&& 3 = 0) {cmd : UInt32} (hcmd : cmd &&& 0xfffffffc = 0) :
    (offset ||| cmd) &&& 0xfffffffc = offset := by
  rw [or_and_distrib, hcmd, UInt32.or_zero, offset_and_mask h]

theorem val_and_max (h : val ≤ maxExtraValue) : val &&& maxExtraValue = val := by
  apply UInt32.toNat_inj.mp
  have hlt : val.toNat < 2 ^ 24 := Nat.lt_succ_of_le (UInt32.le_iff_toNat_le.mp h)
  rw [UInt32.toNat_and]
  exact (Nat.and_two_pow_sub_one_eq_mod val.toNat 24).trans (Nat.mod_eq_of_lt hlt)

theorem val_or_and_max (h : val ≤ maxExtraValue) {cmd : UInt32} (hcmd : cmd &&& maxExtraValue = 0) :
    (val ||| cmd) &&& maxExtraValue = val := by
  rw [or_and_distrib, hcmd, UInt32.or_zero, val_and_max h]

theorem val_or_and_mask (h : val ≤ maxExtraValue) {cmd : UInt32}
    (hcmd : cmd &&& 0xff000000 = cmd) : (val ||| cmd) &&& 0xff000000 = cmd := by
  have hzero : val &&& 0xff000000 = 0 := by
    rw [← val_and_max h, UInt32.and_assoc]
    exact UInt32.and_zero
  rw [or_and_distrib, hzero, UInt32.zero_or, hcmd]

end Words

section Entry

variable {p : Nat → UInt32} {index : Nat} {e : RegEntry}

theorem words_one {a : UInt32} (h : slice p index [a].length = [a]) : p index = a :=
  (List.cons.inj h).1

theorem words_two {a b : UInt32} (h : slice p index [a, b].length = [a, b]) :
    p index = a ∧ p (index + 1) = b :=
  ⟨(List.cons.inj h).1, (List.cons.inj (List.cons.inj h).2).1⟩

/-- A word with a command in it is not 0. -/
theorem offset_or_ne_zero {offset cmd : UInt32} (h : offset &&& 3 = 0) (hcmd : cmd &&& 3 = cmd)
    (hne : cmd ≠ 0) : offset ||| cmd ≠ 0 := by
  intro hzero
  have hand := offset_or_and h hcmd
  rw [hzero, UInt32.zero_and] at hand
  exact hne hand.symm

/-- **The line of an entry** is read back from its words. -/
theorem shownEntry_eq (h : slice p index e.words.length = e.words) (he : ¬ e.Hidden) :
    p index ≠ 0 ∧ shownEntry p index = (e.line, e.words.length) := by
  have haligned := e.aligned
  have htakes := e.takes
  rw [RegEntry.line]
  cases hk : e.cmd with
  | read =>
    rcases e.read_le hk with hlt | heq
    · have hwords : e.words = [e.offset, e.val] := by
        rw [RegEntry.words, hk]
        exact if_pos hlt
      rw [hwords] at h ⊢
      obtain ⟨h0, h1⟩ := words_two h
      refine ⟨?_, ?_⟩
      · rw [h0]
        intro hzero
        exact he ⟨hk, hzero, hlt⟩
      · rw [shownEntry, h0, h1, haligned, offset_and_mask haligned]
        rfl
    · have hwords : e.words = [e.offset ||| cmdReadWord] := by
        rw [RegEntry.words, hk, heq]
        rfl
      rw [hwords] at h ⊢
      have h0 := words_one h
      refine ⟨?_, ?_⟩
      · rw [h0]
        exact offset_or_ne_zero haligned (by decide) (by decide)
      · rw [shownEntry, h0, offset_or_and haligned (by decide),
          offset_or_and_mask haligned (by decide), heq]
        rfl
  | repeatRead =>
    rw [hk] at htakes
    have hwords : e.words = [e.offset ||| cmdExtra, e.val ||| cmdRepeatRead] := by
      rw [RegEntry.words, hk]
    rw [hwords] at h ⊢
    obtain ⟨h0, h1⟩ := words_two h
    refine ⟨?_, ?_⟩
    · rw [h0]
      exact offset_or_ne_zero haligned (by decide) (by decide)
    · rw [shownEntry, h0, h1, offset_or_and haligned (by decide),
        offset_or_and_mask haligned (by decide), val_or_and_max htakes.2 (by decide),
        val_or_and_mask htakes.2 (by decide)]
      rfl
  | delay =>
    rw [hk] at htakes
    have hwords : e.words = [cmdExtra, e.val ||| cmdDelay] := by
      rw [RegEntry.words, hk]
    rw [hwords] at h ⊢
    obtain ⟨h0, h1⟩ := words_two h
    refine ⟨?_, ?_⟩
    · rw [h0]
      decide
    · rw [shownEntry, h0, h1, val_or_and_max htakes (by decide), val_or_and_mask htakes (by decide)]
      rfl
  | write =>
    have hwords : e.words = [e.offset ||| cmdWrite, e.val] := by
      rw [RegEntry.words, hk]
    rw [hwords] at h ⊢
    obtain ⟨h0, h1⟩ := words_two h
    refine ⟨?_, ?_⟩
    · rw [h0]
      exact offset_or_ne_zero haligned (by decide) (by decide)
    · rw [shownEntry, h0, h1, offset_or_and haligned (by decide),
        offset_or_and_mask haligned (by decide)]
      rfl

end Entry

/-! ## Rounds of the loop -/

section Page

variable {page page' : Page} {text line : List Char}

theorem Page.add_ofText (h : (text ++ line).length < pageSize) :
    (Page.ofText text).add line = some (Page.ofText (text ++ line)) := by
  rw [List.length_append] at h
  have htake : line.take (pageSize - 1 - text.length) = line :=
    List.take_of_length_le (by omega)
  rw [Page.add, if_neg (by show ¬ pageSize < text.length + line.length; omega), Page.ofText,
    Page.ofText, strlcat, htake, List.length_append]

theorem Page.add_buf (h : page.add line = some page') : page'.buf = strlcat page.buf line := by
  rw [Page.add] at h
  split at h
  · cases h
  · cases h
    rfl

end Page

/-- A round of the loop, behind the title. -/
def showRest (p : Nat → UInt32) (systemIndexStart indexEnd : Int) (fuel index : Nat)
    (page : Page) : Page :=
  if p index = 0 then showLoop p systemIndexStart indexEnd fuel (index + 1) page
  else
    match page.add (shownEntry p index).1 with
    | none => page
    | some page' => showLoop p systemIndexStart indexEnd fuel (index + (shownEntry p index).2) page'

section Loop

variable {p : Nat → UInt32} {start stop fuel index : Nat} {page : Page} {text : List Char}

theorem showLoop_succ (hstop : index < stop) (hstart : index ≠ start) :
    showLoop p start stop (fuel + 1) index page = showRest p start stop fuel index page := by
  rw [showLoop, if_pos (by omega), if_neg (by omega)]
  rfl

theorem showLoop_title {page' : Page} (hstop : start < stop)
    (hadd : page.add systemTitle = some page') :
    showLoop p start stop (fuel + 1) start page = showRest p start stop fuel start page' := by
  rw [showLoop, if_pos (by omega), if_pos rfl, hadd]
  rfl

theorem showLoop_stop : showLoop p start stop fuel stop page = page := by
  cases fuel with
  | zero => rfl
  | succ fuel => rw [showLoop, if_neg (Int.lt_irrefl _)]

/-- What is on the page stays there. -/
theorem showLoop_prefix (systemIndexStart indexEnd : Int) (fuel index : Nat) (page : Page) :
    page.buf <+: (showLoop p systemIndexStart indexEnd fuel index page).buf := by
  induction fuel generalizing index page with
  | zero => exact List.prefix_rfl
  | succ fuel ih =>
    have hrest : ∀ page : Page,
        page.buf <+: (showRest p systemIndexStart indexEnd fuel index page).buf := by
      intro page
      rw [showRest]
      split
      · exact ih _ _
      · split
        · exact List.prefix_rfl
        · rename_i page' hadd
          have hbuf := Page.add_buf hadd
          refine List.IsPrefix.trans ?_ (ih _ page')
          rw [hbuf]
          exact List.prefix_append _ _
    rw [showLoop]
    split
    · split
      · exact List.prefix_rfl
      · rename_i page' htitle
        refine List.IsPrefix.trans ?_ (hrest page')
        split at htitle
        · rw [Page.add_buf htitle]
          exact List.prefix_append _ _
        · cases htitle
          exact List.prefix_rfl
    · exact List.prefix_rfl

/-- A round that finds an entry. -/
theorem showRest_entry {e : RegEntry} (hwords : slice p index e.words.length = e.words)
    (he : ¬ e.Hidden) (hfit : (text ++ e.line).length < pageSize) :
    showRest p start stop fuel index (Page.ofText text) =
      showLoop p start stop fuel (index + e.words.length) (Page.ofText (text ++ e.line)) := by
  obtain ⟨hne, hshown⟩ := shownEntry_eq hwords he
  rw [showRest, if_neg hne, hshown, Page.add_ofText hfit]

/-- The rounds for entries that follow each other. -/
theorem showRest_entries {es : List RegEntry}
    (hwords : slice p index (wordsOf es).length = wordsOf es) (hes : ∀ e ∈ es, ¬ e.Hidden)
    (hfit : (text ++ linesOf es).length < pageSize) (hstop : index + (wordsOf es).length < stop)
    (hstart : start ≤ index ∨ index + (wordsOf es).length < start) :
    showRest p start stop (es.length + fuel) index (Page.ofText text) =
      showRest p start stop fuel (index + (wordsOf es).length)
        (Page.ofText (text ++ linesOf es)) := by
  induction es generalizing index text with
  | nil => simp [wordsOf, linesOf]
  | cons e es ih =>
    have hpos := e.words_length
    have hlines : linesOf (e :: es) = e.line ++ linesOf es := List.flatMap_cons
    rw [wordsOf_cons, List.length_append] at hwords hstop hstart
    rw [slice_add] at hwords
    obtain ⟨hfirst, hrest⟩ := List.append_inj hwords (slice_length _ _ _)
    rw [hlines, ← List.append_assoc] at hfit ⊢
    have hfuel : (e :: es).length + fuel = es.length + fuel + 1 := by
      rw [List.length_cons]
      omega
    rw [showRest_entry hfirst (hes e List.mem_cons_self) (by
        rw [List.length_append] at hfit
        omega),
      hfuel, showLoop_succ (by omega) (by omega),
      ih hrest (fun e he => hes e (List.mem_cons_of_mem _ he)) hfit (by omega) (by omega),
      wordsOf_cons, List.length_append, Nat.add_assoc]

/-- The rounds for zeros. -/
theorem showRest_zeros {k : Nat} (hzeros : ∀ i, index ≤ i → i ≤ index + k → p i = 0)
    (hstart : index + k < start) (hstop : start < stop) :
    showRest p start stop (k + fuel) index page =
      showLoop p start stop fuel (index + k + 1) page := by
  induction k generalizing index with
  | zero => rw [showRest, if_pos (hzeros index (by omega) (by omega)), Nat.zero_add, Nat.add_zero]
  | succ k ih =>
    have hfuel : k + 1 + fuel = k + fuel + 1 := by omega
    rw [showRest, if_pos (hzeros index (by omega) (by omega)), hfuel,
      showLoop_succ (by omega) (by omega),
      ih (fun i h1 h2 => hzeros i (by omega) (by omega)) (by omega)]
    congr 1
    omega

end Loop

/-! ## A hidden entry -/

section Hidden

/-- A number that is not 0 does not start with a 0. -/
theorem toDigits_head {n : Nat} (hn : 0 < n) : ∃ c cs, Nat.toDigits 16 n = c :: cs ∧ c ≠ '0' := by
  have hdigit : ∀ n < 16, 0 < n → n.digitChar ≠ '0' := by decide
  induction n using Nat.strong_induction_on with
  | _ n ih =>
    rcases Nat.lt_or_ge n 16 with hlt | hge
    · exact ⟨n.digitChar, [], Nat.toDigits_of_lt_base hlt, hdigit n hlt hn⟩
    · obtain ⟨c, cs, heq, hne⟩ := ih (n / 16) (by omega) (by omega)
      exact ⟨c, cs ++ [Nat.digitChar (n % 16)], by
        rw [Nat.toDigits_of_base_le (by decide) hge, heq, List.cons_append], hne⟩

/-- The third character of a line is the first one of the offset. -/
theorem configLine_two (registerOffset val : UInt32) (cmd : Char) :
    (configLine registerOffset val cmd)[2]? = (Nat.toDigits 16 registerOffset.toNat).head? := by
  obtain ⟨c, cs, hdigits⟩ := List.exists_cons_of_ne_nil
    (Nat.toDigits_ne_nil (b := 16) (n := registerOffset.toNat))
  rw [configLine, hdigits]
  rfl

theorem configLine_length (registerOffset val : UInt32) (cmd : Char) :
    8 ≤ (configLine registerOffset val cmd).length := by
  rw [configLine]
  simp only [List.length_append, List.length_cons, List.length_nil]
  have hpos : "0x".toList.length = 2 ∧ ", 0x".toList.length = 4 := by decide
  omega

variable {p : Nat → UInt32} {start stop fuel index : Nat} {text : List Char} {e : RegEntry}

/-- **A hidden entry spoils the text**, whatever comes behind it. -/
theorem showRest_hidden (he : e.Hidden) (hwords : slice p index e.words.length = e.words)
    (hfit : (text ++ e.line).length < pageSize) (hstop : index + 1 < stop)
    (hstart : index + 1 ≠ start) (rest : List Char) :
    (showRest p start stop (fuel + 1) index (Page.ofText text)).buf ≠ text ++ (e.line ++ rest) := by
  obtain ⟨hcmd, hoffset, hlt⟩ := he
  have hval : e.val &&& 3 = 0 := by
    have htakes := e.takes
    rw [hcmd] at htakes
    exact htakes.2
  have hne : e.val ≠ 0 := by
    intro hzero
    rw [hzero] at hlt
    exact absurd hlt (by decide)
  have hpos : 0 < e.val.toNat := Nat.pos_of_ne_zero (fun h => hne (UInt32.toNat_inj.mp h))
  have hwords' : e.words = [e.offset, e.val] := by
    rw [RegEntry.words, hcmd]
    exact if_pos hlt
  rw [hwords'] at hwords
  obtain ⟨h0, h1⟩ := words_two hwords
  -- the word 0 is skipped, and the length is taken for the offset
  have hshown : (shownEntry p (index + 1)).1 = configLine e.val (p (index + 1 + 1)) 'r' := by
    rw [shownEntry, h1, hval, offset_and_mask hval]
    rfl
  have hline : (text ++ (e.line ++ rest))[text.length + 2]? = some '0' := by
    have hlen := configLine_length e.offset e.val e.cmd.char
    have hline' : e.line = configLine e.offset e.val e.cmd.char := by
      rw [RegEntry.line, if_neg (by rw [hcmd]; decide)]
    rw [List.getElem?_append_right (by omega), Nat.add_sub_cancel_left,
      List.getElem?_append_left (by rw [hline']; omega), hline', configLine_two, hoffset]
    rfl
  rw [showRest, if_pos (h0.trans hoffset), showLoop_succ hstop hstart, showRest,
    if_neg (by rw [h1]; exact hne), hshown]
  intro heq
  rw [← heq] at hline
  have hlen := configLine_length e.val (p (index + 1 + 1)) 'r'
  split at hline
  · -- the page is full
    rw [Page.ofText_buf, List.getElem?_eq_none (by omega)] at hline
    cases hline
  · rename_i page' hadd
    have hbuf := Page.add_buf hadd
    obtain ⟨tail, htail⟩ := showLoop_prefix (p := p) start stop fuel
      (index + 1 + (shownEntry p (index + 1)).2) page'
    obtain ⟨c, cs, hdigits, hdigit⟩ := toDigits_head hpos
    have hroom : 3 ≤ pageSize - 1 - text.length := by
      have hlen' := configLine_length (if e.cmd = .delay then 0 else e.offset) e.val e.cmd.char
      rw [List.length_append, RegEntry.line] at hfit
      omega
    rw [← htail, hbuf, strlcat, Page.ofText_buf, List.append_assoc,
      List.getElem?_append_right (by omega), Nat.add_sub_cancel_left,
      List.getElem?_append_left (by rw [List.length_take]; omega),
      List.getElem?_take_of_lt (by omega), configLine_two, hdigits] at hline
    exact hdigit (Option.some.inj hline)

end Hidden

/-! ## The whole table -/

section Table

theorem length_le_wordsOf (es : List RegEntry) : es.length ≤ (wordsOf es).length := by
  induction es with
  | nil => exact Nat.le_refl 0
  | cons e es ih =>
    have hwords := e.words_length
    rw [wordsOf_cons, List.length_append, List.length_cons]
    omega

/-- The first hidden entry, if there is one. -/
theorem first_hidden (es : List RegEntry) : (∀ e ∈ es, ¬ e.Hidden) ∨
    ∃ shown e rest, es = shown ++ e :: rest ∧ (∀ e ∈ shown, ¬ e.Hidden) ∧ e.Hidden := by
  induction es with
  | nil => exact Or.inl (fun e he => by cases he)
  | cons e es ih =>
    by_cases he : e.Hidden
    · exact Or.inr ⟨[], e, es, rfl, List.forall_mem_nil _, he⟩
    · rcases ih with hall | ⟨shown, e', rest, rfl, hshown, hhidden⟩
      · left
        intro e' he'
        rcases List.mem_cons.mp he' with rfl | he'
        · exact he
        · exact hall e' he'
      · refine Or.inr ⟨e :: shown, e', rest, rfl, ?_, hhidden⟩
        intro e'' he''
        rcases List.mem_cons.mp he'' with rfl | he''
        · exact he
        · exact hshown e'' he''

variable {sh : Shape} (t : RegTable sh) (old : Nat → UInt32)

/-- The index behind the terminating 0. -/
def RegTable.indexEnd : Nat := sh.systemIndex + (wordsOf t.system).length + 1

/-- Small numbers fit into an `int`. -/
theorem bmod_of_small {n : Nat} (h : n < 2 ^ 31) : Int.bmod (n : Int) (2 ^ 32) = n := by
  rw [Int.bmod_eq_emod_of_lt (by omega)]
  omega

/-- `system_index_start` as an `int`. -/
theorem RegTable.bmod_systemIndex :
    Int.bmod (t.image old sysRegInputIndex).toNat (2 ^ 32) = sh.systemIndex := by
  have hend := t.systemEnd_le
  have hsize := sh.size.toNat_lt
  have hword : (t.image old sysRegInputIndex).toNat = sh.systemIndex := by
    rw [t.image_header old (by decide)]
    exact sh.toNat_ofNat (by omega)
  rw [hword]
  exact bmod_of_small (by omega)

/-- `index_end` as an `int`. -/
theorem RegTable.bmod_indexEnd :
    Int.bmod ((sh.systemIndex : Int) + ((t.toData old).sysRegSize / 4).toNat + 1) (2 ^ 32) =
      t.indexEnd := by
  have hend := t.systemEnd_le
  have hsize := sh.size.toNat_lt
  have hwords : ((t.toData old).sysRegSize / 4).toNat = (wordsOf t.system).length := by
    rw [RegTable.toData_sysRegSize, UInt32.toNat_div, sh.toNat_ofNat (by omega)]
    exact Nat.mul_div_cancel_left _ (by decide)
  rw [hwords]
  exact bmod_of_small (n := t.indexEnd) (by rw [RegTable.indexEnd]; omega)

theorem registerConfigShow_toData : registerConfigShow (t.toData old) =
    showLoop (t.image old) sh.systemIndex t.indexEnd t.indexEnd percoreIndex
      (Page.ofText percoreTitle) := by
  rw [registerConfigShow]
  simp only [RegTable.toData_dumpVaddr, t.bmod_systemIndex, t.bmod_indexEnd]
  rfl

/-- The way to the system registers. -/
theorem showLoop_percore (hpercore : ∀ e ∈ t.percore, ¬ e.Hidden)
    (hfit : (percoreTitle ++ linesOf t.percore ++ systemTitle).length < pageSize) :
    ∃ fuel, t.system.length + 1 ≤ fuel ∧
      showLoop (t.image old) sh.systemIndex t.indexEnd t.indexEnd percoreIndex
          (Page.ofText percoreTitle) =
        showRest (t.image old) sh.systemIndex t.indexEnd fuel sh.systemIndex
          (Page.ofText (percoreTitle ++ linesOf t.percore ++ systemTitle)) := by
  have hend := t.percoreEnd_le
  have hlen := length_le_wordsOf t.percore
  have hlen' := length_le_wordsOf t.system
  have hstop : sh.systemIndex < t.indexEnd := by
    rw [RegTable.indexEnd]
    omega
  have hindex : percoreIndex = 4 := rfl
  obtain ⟨gap, hgap⟩ : ∃ gap, percoreIndex + (wordsOf t.percore).length + gap + 1 =
      sh.systemIndex := ⟨sh.systemIndex - 1 - (percoreIndex + (wordsOf t.percore).length), by omega⟩
  -- one round for every entry and every zero, and the round of the title
  obtain ⟨fuel, hfuel⟩ : ∃ fuel, t.indexEnd = t.percore.length + (gap + (fuel + 1)) + 1 :=
    ⟨t.indexEnd - (t.percore.length + gap + 2), by rw [RegTable.indexEnd]; omega⟩
  have hfit' : (percoreTitle ++ linesOf t.percore).length < pageSize := by
    rw [List.length_append] at hfit
    omega
  refine ⟨fuel, by rw [RegTable.indexEnd] at hfuel; omega, ?_⟩
  calc showLoop (t.image old) sh.systemIndex t.indexEnd t.indexEnd percoreIndex
        (Page.ofText percoreTitle)
      = showLoop (t.image old) sh.systemIndex t.indexEnd
          (t.percore.length + (gap + (fuel + 1)) + 1) percoreIndex (Page.ofText percoreTitle) := by
        rw [← hfuel]
    _ = showRest (t.image old) sh.systemIndex t.indexEnd
          (t.percore.length + (gap + (fuel + 1))) percoreIndex (Page.ofText percoreTitle) :=
        showLoop_succ (by omega) (by omega)
    _ = showRest (t.image old) sh.systemIndex t.indexEnd (gap + (fuel + 1))
          (percoreIndex + (wordsOf t.percore).length)
          (Page.ofText (percoreTitle ++ linesOf t.percore)) :=
        showRest_entries (t.image_percore old) hpercore hfit' (by omega) (Or.inr hend)
    _ = showLoop (t.image old) sh.systemIndex t.indexEnd (fuel + 1)
          (percoreIndex + (wordsOf t.percore).length + gap + 1)
          (Page.ofText (percoreTitle ++ linesOf t.percore)) :=
        showRest_zeros (fun i h1 h2 => t.image_gap old h1 (by omega)) (by omega) hstop
    _ = showRest (t.image old) sh.systemIndex t.indexEnd fuel sh.systemIndex
          (Page.ofText (percoreTitle ++ linesOf t.percore ++ systemTitle)) := by
        rw [hgap]
        exact showLoop_title hstop (Page.add_ofText hfit)

/-- The words up to an entry, and those of the entry. -/
theorem slice_split {m : Nat → UInt32} {a : Nat} {shown rest : List RegEntry} {e : RegEntry}
    (h : slice m a (wordsOf (shown ++ e :: rest)).length = wordsOf (shown ++ e :: rest)) :
    slice m a (wordsOf shown).length = wordsOf shown ∧
      slice m (a + (wordsOf shown).length) e.words.length = e.words := by
  have hwords : wordsOf (shown ++ e :: rest) = wordsOf shown ++ (e.words ++ wordsOf rest) := by
    rw [wordsOf, List.flatMap_append, List.flatMap_cons]
    rfl
  rw [hwords, List.length_append, List.length_append, slice_add, slice_add] at h
  obtain ⟨hshown, hrest⟩ := List.append_inj h (slice_length _ _ _)
  exact ⟨hshown, (List.append_inj hrest (slice_length _ _ _)).1⟩

/-- Everything is shown when nothing is hidden. -/
theorem shown_of_no_hidden (h : ∀ e ∈ t.percore ++ t.system, ¬ e.Hidden)
    (hfit : (configText t.percore t.system).length < pageSize) :
    registerConfigShow (t.toData old) = Page.ofText (configText t.percore t.system) := by
  have htext : configText t.percore t.system =
      percoreTitle ++ linesOf t.percore ++ systemTitle ++ linesOf t.system := by
    rw [configText, List.append_assoc _ systemTitle]
  rw [htext] at hfit ⊢
  have hfit' : (percoreTitle ++ linesOf t.percore ++ systemTitle).length < pageSize := by
    rw [List.length_append] at hfit
    omega
  obtain ⟨fuel, hfuel, hpercore⟩ := showLoop_percore t old
    (fun e he => h e (List.mem_append_left _ he)) hfit'
  obtain ⟨rest, hrest⟩ : ∃ rest, fuel = t.system.length + rest := ⟨fuel - t.system.length, by omega⟩
  have hstop : sh.systemIndex + (wordsOf t.system).length < t.indexEnd := Nat.lt_succ_self _
  rw [registerConfigShow_toData, hpercore, hrest,
    showRest_entries (t.image_system old) (fun e he => h e (List.mem_append_right _ he)) hfit
      hstop (Or.inl (Nat.le_refl _)),
    showRest, if_pos (t.image_terminator old)]
  exact showLoop_stop

/-- The shown entries and the first hidden one. -/
theorem showRest_first_hidden {p : Nat → UInt32} {start stop fuel index : Nat} {text : List Char}
    {shown rest : List RegEntry} {e : RegEntry}
    (hwords : slice p index (wordsOf (shown ++ e :: rest)).length = wordsOf (shown ++ e :: rest))
    (hshown : ∀ e ∈ shown, ¬ e.Hidden) (he : e.Hidden)
    (hfit : (text ++ linesOf (shown ++ e :: rest)).length < pageSize)
    (hfuel : shown.length < fuel)
    (hstop : index + (wordsOf (shown ++ e :: rest)).length < stop)
    (hstart : start ≤ index ∨ index + (wordsOf (shown ++ e :: rest)).length < start)
    (more : List Char) :
    (showRest p start stop fuel index (Page.ofText text)).buf ≠
      text ++ (linesOf (shown ++ e :: rest) ++ more) := by
  obtain ⟨hbefore, hentry⟩ := slice_split hwords
  have hlines : linesOf (shown ++ e :: rest) = linesOf shown ++ (e.line ++ linesOf rest) := by
    rw [linesOf, List.flatMap_append, List.flatMap_cons]
    rfl
  have htwo : e.words.length = 2 := by
    rw [RegEntry.words, he.1, if_pos he.2.2]
    rfl
  have hlen : (wordsOf (shown ++ e :: rest)).length =
      (wordsOf shown).length + (e.words.length + (wordsOf rest).length) := by
    rw [wordsOf, List.flatMap_append, List.flatMap_cons, List.length_append, List.length_append]
    rfl
  rw [hlen] at hstop hstart
  rw [hlines] at hfit ⊢
  simp only [List.length_append] at hfit
  obtain ⟨k, rfl⟩ : ∃ k, fuel = shown.length + (k + 1) := ⟨fuel - shown.length - 1, by omega⟩
  rw [showRest_entries hbefore hshown (by rw [List.length_append]; omega) (by omega) (by omega)]
  have hassoc : text ++ (linesOf shown ++ (e.line ++ linesOf rest) ++ more) =
      text ++ linesOf shown ++ (e.line ++ (linesOf rest ++ more)) := by
    simp only [List.append_assoc]
  rw [hassoc]
  refine showRest_hidden he hentry ?_ (by omega) (by omega) _
  simp only [List.length_append]
  omega

/-- A hidden per-core register. -/
theorem not_shown_percore {shown rest : List RegEntry} {e : RegEntry}
    (hpercore : t.percore = shown ++ e :: rest) (hshown : ∀ e ∈ shown, ¬ e.Hidden)
    (he : e.Hidden) (hfit : (configText t.percore t.system).length < pageSize) :
    (registerConfigShow (t.toData old)).buf ≠ configText t.percore t.system := by
  have hend := t.percoreEnd_le
  have hlen := length_le_wordsOf t.percore
  have hwords := t.image_percore old
  have hindex : percoreIndex = 4 := rfl
  have hstop : sh.systemIndex < t.indexEnd := by
    rw [RegTable.indexEnd]
    omega
  obtain ⟨fuel, hfuel⟩ : ∃ fuel, t.indexEnd = fuel + 1 := ⟨_, rfl⟩
  have hloop : showLoop (t.image old) sh.systemIndex t.indexEnd t.indexEnd percoreIndex
      (Page.ofText percoreTitle) = showRest (t.image old) sh.systemIndex t.indexEnd fuel
        percoreIndex (Page.ofText percoreTitle) := by
    nth_rewrite 2 [hfuel]
    exact showLoop_succ (by omega) (by omega)
  rw [registerConfigShow_toData, hloop, configText, List.append_assoc]
  rw [configText, List.append_assoc, List.length_append, List.length_append] at hfit
  rw [hpercore] at hwords hend hfit ⊢
  rw [hpercore, List.length_append, List.length_cons] at hlen
  refine showRest_first_hidden hwords hshown he ?_ (by omega) (by omega) (Or.inr hend) _
  rw [List.length_append]
  omega

/-- A hidden system register. -/
theorem not_shown_system {shown rest : List RegEntry} {e : RegEntry}
    (hpercore : ∀ e ∈ t.percore, ¬ e.Hidden)
    (hsystem : t.system = shown ++ e :: rest) (hshown : ∀ e ∈ shown, ¬ e.Hidden)
    (he : e.Hidden) (hfit : (configText t.percore t.system).length < pageSize) :
    (registerConfigShow (t.toData old)).buf ≠ configText t.percore t.system := by
  have hwords := t.image_system old
  have hstop : sh.systemIndex + (wordsOf t.system).length < t.indexEnd := Nat.lt_succ_self _
  have htext : configText t.percore t.system =
      percoreTitle ++ linesOf t.percore ++ systemTitle ++ (linesOf t.system ++ []) := by
    rw [configText, List.append_assoc _ systemTitle, List.append_nil]
  rw [htext] at hfit ⊢
  obtain ⟨fuel, hfuel, heq⟩ := showLoop_percore t old hpercore (by
    rw [List.length_append] at hfit
    omega)
  rw [registerConfigShow_toData, heq]
  rw [hsystem, List.length_append, List.length_cons] at hfuel
  rw [List.append_nil] at hfit
  rw [hsystem] at hwords hstop hfit ⊢
  exact showRest_first_hidden hwords hshown he hfit (by omega) hstop (Or.inl (Nat.le_refl _)) _

/-- **What is shown** for a table. -/
theorem shown_iff (hfit : (configText t.percore t.system).length < pageSize) :
    registerConfigShow (t.toData old) = Page.ofText (configText t.percore t.system) ↔
      ∀ e ∈ t.percore ++ t.system, ¬ e.Hidden := by
  refine ⟨fun hshow => ?_, fun h => shown_of_no_hidden t old h hfit⟩
  have hbuf : (registerConfigShow (t.toData old)).buf = configText t.percore t.system := by
    rw [hshow]
    rfl
  rcases first_hidden t.percore with hpercore | ⟨shown, e, rest, heq, hshown, he⟩
  · rcases first_hidden t.system with hsystem | ⟨shown, e, rest, heq, hshown, he⟩
    · intro e he
      rcases List.mem_append.mp he with he | he
      · exact hpercore e he
      · exact hsystem e he
    · exact absurd hbuf (not_shown_system t old hpercore heq hshown he hfit)
  · exact absurd hbuf (not_shown_percore t old heq hshown he hfit)

end Table

/-- **The registers are shown as they were accepted**, if and only if none of them is a read of
more than four bytes at offset 0.  The text and its terminating zero fit into a page. -/
theorem registerConfigShow_eq_iff (d : CpussRegdumpData) (n numCores : UInt32)
    (hroom : 4 * (6 + 2 * n.toNat) < d.size.toNat) (hcores : 0 < numCores.toNat)
    (inputs : List Scanned) :
    ∃ percore system : List RegEntry,
      (session numCores (updateRegDumpTable n d).data inputs).percore.map RegisterConfig.entry =
          percore.map some ∧
        (session numCores (updateRegDumpTable n d).data inputs).system.map RegisterConfig.entry =
          system.map some ∧
        ((configText percore system).length < pageSize →
          (registerConfigShow (session numCores (updateRegDumpTable n d).data inputs).data =
              Page.ofText (configText percore system) ↔
            ∀ e ∈ percore ++ system, ¬ (e.cmd = .read ∧ e.offset = 0 ∧ 4 < e.val))) := by
  obtain ⟨hdata, -⟩ := updateRegDumpTable_eq ⟨d.size, n, numCores, hroom, hcores⟩ d rfl
  simp only at hdata
  rw [hdata]
  obtain ⟨t, hat⟩ := session_table ⟨d.size, n, numCores, hroom, hcores⟩ d.dumpVaddr inputs
  refine ⟨t.percore, t.system, hat.percore, hat.system, fun hfit => ?_⟩
  rw [hat.data]
  exact shown_iff t d.dumpVaddr hfit

theorem registerConfigShow_eq_iff_sample :
    ∃ percore system : List RegEntry,
      (session 8 (updateRegDumpTable 2 (cpussRegdumpInit 256)).data sampleLines).percore.map
          RegisterConfig.entry = percore.map some ∧
        (session 8 (updateRegDumpTable 2 (cpussRegdumpInit 256)).data sampleLines).system.map
          RegisterConfig.entry = system.map some ∧
        ((configText percore system).length < pageSize →
          (registerConfigShow
              (session 8 (updateRegDumpTable 2 (cpussRegdumpInit 256)).data sampleLines).data =
              Page.ofText (configText percore system) ↔
            ∀ e ∈ percore ++ system, ¬ (e.cmd = .read ∧ e.offset = 0 ∧ 4 < e.val))) :=
  registerConfigShow_eq_iff (cpussRegdumpInit 256) 2 8 (by decide) (by decide) sampleLines

/-- A read of eight bytes at offset 0. -/
def readAtZero : RegEntry := ⟨.read, 0, 8, by decide, by decide⟩

/-- **A read at offset 0 is not shown**: for the line `0 8` the length is shown as the offset. -/
theorem registerConfigShow_zero_offset :
    (session 8 (updateRegDumpTable 2 (cpussRegdumpInit 256)).data [.two 0 8]).percore.map
        RegisterConfig.entry = [] ∧
      (session 8 (updateRegDumpTable 2 (cpussRegdumpInit 256)).data [.two 0 8]).system.map
        RegisterConfig.entry = [some readAtZero] ∧
      (configText [] [readAtZero]).length < pageSize ∧
      registerConfigShow (session 8 (updateRegDumpTable 2 (cpussRegdumpInit 256)).data
        [.two 0 8]).data ≠ Page.ofText (configText [] [readAtZero]) := by
  refine ⟨?_, ?_, ?_, ?_⟩
  · decide +kernel
  · decide +kernel
  · decide +kernel
  · decide +kernel

end SafelinuxDbg.MemoryDump
