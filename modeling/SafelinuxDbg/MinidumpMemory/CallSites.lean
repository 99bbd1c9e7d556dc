import Mathlib.Data.List.TakeWhile
import Mathlib.Data.Set.Basic
import SafelinuxDbg.Lib.Loop
import SafelinuxDbg.Lib.Print

/-!
# The accounted call sites

`page_owner_call_site_write` appends a call site to a list, and `page_owner_call_site_read` renders
the list: a heading, and a numbered line for each call site.  The rendering is made anew for every
read, in a page, and `simple_read_from_buffer` copies the part of it that was asked for.

The heading is printed with the number of bytes that the reader asks for as its limit, instead of the
size of the page.  A page that is full is to be noticed by `ret == size`, and `scnprintf` never
returns that.

* `kbufText_eq`: the text in the page for every number of bytes asked for.
* `readAll_whole`: the reads of a text that is the same for all of them.
* `readLaw_iff`: what is read is the rendering, for all orders of counts out of a set, exactly when
  the rendering fits and all counts of the set leave room for the heading.
-/

namespace SafelinuxDbg.MinidumpMemory

open CMemory

/-! ## The code -/

/-- The errors of the two functions. -/
inductive CallSiteErrno
  | EINVAL | EFAULT | ENOMEM
deriving DecidableEq

/-- `PAGE_SIZE`. -/
def pageSize : Nat := 4096

/-- `isalpha` of the kernel, whose letters are those of ISO 8859-1. -/
def isAlpha (c : UInt8) : Bool :=
  (65 ≤ c && c ≤ 90) || (97 ≤ c && c ≤ 122) || (192 ≤ c && c != 215 && c != 247)

/-- A call of `page_owner_call_site_write`: the bytes that are written, and whether `copy_from_user`
and `kzalloc` succeed. -/
structure CallSiteWrite where
  ubuf : List UInt8
  copied : Bool
  allocated : Bool

/-- `page_owner_call_site_write`.  The buffer is all zero behind the bytes that are copied, so that
`strscpy` takes the bytes before the first NUL. -/
def pageOwnerCallSiteWrite (sites : List (List UInt8)) (w : CallSiteWrite) :
    List (List UInt8) × Except CallSiteErrno Nat :=
  let c := w.ubuf.headD 0
  if 50 ≤ w.ubuf.length then (sites, .error .EINVAL)
  else if !w.copied then (sites, .error .EFAULT)
  else if !isAlpha c && c != '_'.toNat.toUInt8 then (sites, .error .EINVAL)
  else if !w.allocated then (sites, .error .ENOMEM)
  else (sites ++ [w.ubuf.takeWhile (· ≠ 0)], .ok w.ubuf.length)

/-- `accounted_call_site_list` after some calls. -/
def accountedCallSites (writes : List CallSiteWrite) : List (List UInt8) :=
  writes.foldl (fun sites w => (pageOwnerCallSiteWrite sites w).1) []

/-- `"%s\n"`, with the heading. -/
def siteHeading : List UInt8 := asciiBytes "Accounted call sites:\n".toList

/-- `"%d. %s\n"`. -/
def siteLine (i : Nat) (name : List UInt8) : List UInt8 :=
  decimal i ++ asciiBytes ". ".toList ++ name ++ asciiBytes ['\n']

/-- The loop of `page_owner_call_site_read` over the list. -/
def printSites (kbuf : Nat → UInt8) (ret i : Nat) :
    List (List UInt8) → Except CallSiteErrno (Nat → UInt8)
  | [] => .ok kbuf
  | name :: sites =>
    let r := scnprintf kbuf ret (pageSize - ret) (siteLine i name)
    if ret + r.2 = pageSize then .error .ENOMEM else printSites r.1 (ret + r.2) (i + 1) sites

/-- The string in `kbuf` before it is copied.  The contents of the page are at first what the
allocator leaves there. -/
def kbufText (sites : List (List UInt8)) (kbuf : Nat → UInt8) (count : Nat) :
    Except CallSiteErrno (List UInt8) :=
  let r := scnprintf kbuf 0 count siteHeading
  (printSites r.1 r.2 1 sites).map fun kbuf => (slice kbuf 0 pageSize).takeWhile (· ≠ 0)

/-- `page_owner_call_site_read`: the bytes that are copied to the reader, as many as are returned.
There is no `kbuf` when `kmalloc` fails. -/
def pageOwnerCallSiteRead (sites : List (List UInt8)) (kbuf : Option (Nat → UInt8))
    (count offset : Nat) : Except CallSiteErrno (List UInt8) :=
  match kbuf with
  | none => .error .ENOMEM
  | some kbuf => (kbufText sites kbuf count).map fun text => (text.drop offset).take count

/-! ## A reader -/

/-- How a reader ends: a read has returned 0, or an error. -/
inductive ReadEnd
  | finished
  | failed (e : CallSiteErrno)
deriving DecidableEq

/-- A reader: the number of the next read, and what has been read.  The offset is advanced by what
each read returns. -/
structure Reader where
  i : Nat
  text : List UInt8
deriving DecidableEq

/-- A read.  `counts` and `kbufs` say how many bytes are asked for and what the page has in it. -/
def readRound (sites : List (List UInt8)) (counts : Nat → Nat) (kbufs : Nat → Nat → UInt8)
    (s : Reader) : Reader × Option ReadEnd :=
  match pageOwnerCallSiteRead sites (some (kbufs s.i)) (counts s.i) s.text.length with
  | .error e => (s, some (.failed e))
  | .ok [] => (s, some .finished)
  | .ok (c :: cs) => (⟨s.i + 1, s.text ++ c :: cs⟩, none)

/-! ## The law -/

/-- The lines of the list, from the number `i` on. -/
def siteLines (i : Nat) : List (List UInt8) → List UInt8
  | [] => []
  | name :: sites => siteLine i name ++ siteLines (i + 1) sites

/-- The heading, and one numbered line for each call site. -/
def rendering (sites : List (List UInt8)) : List UInt8 := siteHeading ++ siteLines 1 sites

/-- What is read with counts out of `C`: the whole rendering when it fits into a page, and else every
read is refused. -/
structure ReadLaw (sites : List (List UInt8)) (C : Set Nat) : Prop where
  whole : (rendering sites).length ≤ pageSize - 1 →
    ∀ (counts : Nat → Nat) (kbufs : Nat → Nat → UInt8), (∀ i, counts i ∈ C) →
      ∃ fuel i, runLoop (readRound sites counts kbufs) fuel ⟨0, []⟩ =
        (⟨i, rendering sites⟩, some .finished)
  refused : pageSize - 1 < (rendering sites).length →
    ∀ count ∈ C, ∀ (kbuf : Nat → UInt8) (offset : Nat),
      pageOwnerCallSiteRead sites (some kbuf) count offset = .error .ENOMEM

/-! ## The text in the page -/

section Text

/-- The page holds `text`, up to its end, and the NUL behind it. -/
def PageHolds (kbuf : Nat → UInt8) (ret : Nat) (text : List UInt8) : Prop :=
  HoldsText kbuf 0 pageSize ret text ∧ kbuf ret = 0

theorem PageHolds.print {kbuf : Nat → UInt8} {ret : Nat} {text : List UInt8}
    (h : HoldsText kbuf 0 pageSize ret text) (line : List UInt8) :
    PageHolds (scnprintf kbuf ret (pageSize - ret) line).1
      (ret + (scnprintf kbuf ret (pageSize - ret) line).2) (text ++ line) := by
  have hpage : pageSize < 2 ^ 31 := by decide
  have hlt := h.lt (by decide)
  have hprint := h.print hpage (by decide) line
  have hnul := scnprintf_nul kbuf ret line (by omega : pageSize - ret < 2 ^ 31) (by omega)
  rw [Nat.zero_add] at hprint
  rw [scnprintf_eq] at hprint hnul ⊢
  exact ⟨hprint, hnul⟩

theorem PageHolds.string {kbuf : Nat → UInt8} {ret : Nat} {text : List UInt8}
    (h : PageHolds kbuf ret text) (hnul : (0 : UInt8) ∉ text) :
    (slice kbuf 0 pageSize).takeWhile (· ≠ 0) = text.take (pageSize - 1) := by
  obtain ⟨hholds, hend⟩ := h
  have hoffset := hholds.offset_eq
  have hlength : (text.take (pageSize - 1)).length = ret := by
    rw [List.length_take]
    omega
  have hpage : 0 < pageSize := by decide
  apply string_of_slice
  · rw [hlength, slice_succ, hholds.slice_eq, Nat.zero_add, hend]
  · exact fun h0 => hnul (List.mem_of_mem_take h0)
  · omega

/-- The loop over the list never fails. -/
theorem printSites_spec (sites : List (List UInt8)) : ∀ {kbuf : Nat → UInt8} {ret i : Nat}
    {text : List UInt8}, PageHolds kbuf ret text →
      ∃ kbuf' ret', printSites kbuf ret i sites = .ok kbuf' ∧
        PageHolds kbuf' ret' (text ++ siteLines i sites) := by
  induction sites with
  | nil =>
    intro kbuf ret i text h
    refine ⟨kbuf, ret, rfl, ?_⟩
    rw [siteLines, List.append_nil]
    exact h
  | cons name sites ih =>
    intro kbuf ret i text h
    have hline := PageHolds.print h.1 (siteLine i name)
    have hlt := hline.1.lt (by decide)
    obtain ⟨kbuf', ret', hok, hholds⟩ := ih (i := i + 1) hline
    refine ⟨kbuf', ret', ?_, ?_⟩
    · rw [printSites, if_neg (by omega)]
      exact hok
    · rw [siteLines, ← List.append_assoc]
      exact hholds

/-- What is printed of the heading, when `count` bytes are asked for. -/
def cutHeading (count : Nat) : List UInt8 :=
  if 2 ^ 31 ≤ count then [] else siteHeading.take (count - 1)

/-- The heading in the page.  Where nothing is printed the page has to begin with a NUL. -/
theorem pageHolds_heading (kbuf : Nat → UInt8) {count : Nat}
    (h : kbuf 0 = 0 ∨ (0 < count ∧ count < 2 ^ 31)) :
    PageHolds (scnprintf kbuf 0 count siteHeading).1 (scnprintf kbuf 0 count siteHeading).2
      (cutHeading count) := by
  by_cases hcount : 0 < count ∧ count < 2 ^ 31
  · obtain ⟨hpos, hs⟩ := hcount
    have hprint := (HoldsText.nil kbuf 0 count).print hs hpos siteHeading
    have hnul := scnprintf_nul kbuf 0 siteHeading hs hpos
    rw [scnprintf_eq] at hnul ⊢
    rw [Nat.zero_add, Nat.zero_add, Nat.sub_zero, List.nil_append, scnprintf_eq] at hprint
    rw [Nat.zero_add] at hnul
    rw [cutHeading, if_neg (by omega)]
    have hlength : siteHeading.length = 22 := by decide
    have hpage : pageSize = 4096 := rfl
    have hoffset := hprint.offset_eq
    refine ⟨⟨?_, ?_⟩, hnul⟩
    · rw [List.length_take]
      omega
    · rw [hprint.slice_eq, List.take_take, List.take_eq_take_iff]
      omega
  · have hnone : scnprintf kbuf 0 count siteHeading = (kbuf, 0) := by
      by_cases hs : 2 ^ 31 ≤ count
      · exact scnprintf_huge kbuf 0 siteHeading hs
      · have hzero : count = 0 := by omega
        rw [scnprintf_of_lt kbuf 0 siteHeading (by omega), hzero, cutText, if_pos rfl, storeAt_nil]
        rfl
    have hcut : cutHeading count = [] := by
      rw [cutHeading]
      split
      · rfl
      · have hzero : count = 0 := by omega
        rw [hzero]
        rfl
    rw [hnone, hcut]
    exact ⟨.nil kbuf 0 pageSize, h.resolve_right hcount⟩

theorem siteLines_noNul (sites : List (List UInt8)) (hsites : ∀ name ∈ sites, (0 : UInt8) ∉ name) :
    ∀ i, (0 : UInt8) ∉ siteLines i sites := by
  induction sites with
  | nil => exact fun i => List.not_mem_nil
  | cons name sites ih =>
    intro i
    rw [siteLines, siteLine]
    simp only [List.mem_append, not_or]
    exact ⟨⟨⟨⟨decimal_noNul i, by decide⟩, hsites name List.mem_cons_self⟩, by decide⟩,
      ih (fun n hn => hsites n (List.mem_cons_of_mem _ hn)) (i + 1)⟩

/-- **The text in the page.** -/
theorem kbufText_eq {sites : List (List UInt8)} (hsites : ∀ name ∈ sites, (0 : UInt8) ∉ name)
    (kbuf : Nat → UInt8) {count : Nat} (h : kbuf 0 = 0 ∨ (0 < count ∧ count < 2 ^ 31)) :
    kbufText sites kbuf count =
      .ok ((cutHeading count ++ siteLines 1 sites).take (pageSize - 1)) := by
  obtain ⟨kbuf', ret', hok, hholds⟩ := printSites_spec sites (i := 1) (pageHolds_heading kbuf h)
  have hnul : (0 : UInt8) ∉ cutHeading count ++ siteLines 1 sites := by
    rw [List.mem_append, not_or]
    refine ⟨?_, siteLines_noNul sites hsites 1⟩
    rw [cutHeading]
    split
    · exact List.not_mem_nil
    · have hheading : (0 : UInt8) ∉ siteHeading := by decide
      exact fun h0 => hheading (List.mem_of_mem_take h0)
  rw [kbufText, hok]
  exact congrArg Except.ok (hholds.string hnul)

end Text

/-! ## The reads -/

/-- The names on the list are strings. -/
theorem accountedCallSites_noNul (writes : List CallSiteWrite) :
    ∀ name ∈ accountedCallSites writes, (0 : UInt8) ∉ name := by
  have hwrite : ∀ (sites : List (List UInt8)) (w : CallSiteWrite),
      (∀ name ∈ sites, (0 : UInt8) ∉ name) →
        ∀ name ∈ (pageOwnerCallSiteWrite sites w).1, (0 : UInt8) ∉ name := by
    intro sites w h name hname
    unfold pageOwnerCallSiteWrite at hname
    dsimp only at hname
    split_ifs at hname
    · exact h name hname
    · exact h name hname
    · exact h name hname
    · exact h name hname
    · rcases List.mem_append.mp hname with hname | hname
      · exact h name hname
      · rw [List.mem_singleton.mp hname]
        intro h0
        have := List.mem_takeWhile_imp h0
        simp at this
  have hall : ∀ (writes : List CallSiteWrite) (sites : List (List UInt8)),
      (∀ name ∈ sites, (0 : UInt8) ∉ name) →
        ∀ name ∈ writes.foldl (fun sites w => (pageOwnerCallSiteWrite sites w).1) sites,
          (0 : UInt8) ∉ name := by
    intro writes
    induction writes with
    | nil => exact fun sites h => h
    | cons w writes ih => exact fun sites h => ih _ (hwrite sites w h)
  exact hall writes [] (fun name hname => absurd hname List.not_mem_nil)

section Reads

variable {sites : List (List UInt8)} {counts : Nat → Nat} {kbufs : Nat → Nat → UInt8}
  {text : List UInt8} {s : Reader}

/-- A read that gives a part of `text`. -/
theorem readRound_eq (htext : kbufText sites (kbufs s.i) (counts s.i) = .ok text) :
    readRound sites counts kbufs s =
      match (text.drop s.text.length).take (counts s.i) with
      | [] => (s, some .finished)
      | c :: cs => (⟨s.i + 1, s.text ++ c :: cs⟩, none) := by
  have hread : pageOwnerCallSiteRead sites (some (kbufs s.i)) (counts s.i) s.text.length =
      .ok ((text.drop s.text.length).take (counts s.i)) := by
    rw [pageOwnerCallSiteRead, htext]
    rfl
  rw [readRound, hread]
  cases (text.drop s.text.length).take (counts s.i) with
  | nil => rfl
  | cons c cs => rfl

/-- **The reads of a text.**  When all reads are of the same text, the whole of it is read. -/
theorem readAll_whole (htext : ∀ i, kbufText sites (kbufs i) (counts i) = .ok text)
    (hpos : ∀ i, 0 < counts i) : ∀ (n : Nat) (s : Reader), text.length - s.text.length = n →
      s.text = text.take s.text.length → s.text.length ≤ text.length →
        ∃ fuel i, runLoop (readRound sites counts kbufs) fuel s = (⟨i, text⟩, some .finished) := by
  intro n
  induction n using Nat.strong_induction_on with
  | _ n ih =>
    intro s hn hread hle
    have hround := readRound_eq (htext s.i)
    have hcount := hpos s.i
    rcases Nat.eq_zero_or_pos n with hzero | hmore
    · -- everything has been read
      have hdone : text.drop s.text.length = [] := List.drop_eq_nil_of_le (by omega)
      have hwhole : s.text = text := by
        rw [hread, List.take_of_length_le (by omega)]
      rw [hdone, List.take_nil] at hround
      refine ⟨1, s.i, ?_⟩
      rw [runLoop_one, hround]
      dsimp only
      rw [← hwhole]
    · cases hchunk : (text.drop s.text.length).take (counts s.i) with
      | nil =>
        have hlength := congrArg List.length hchunk
        rw [List.length_take, List.length_drop, List.length_nil] at hlength
        omega
      | cons c cs =>
        rw [hchunk] at hround
        dsimp only at hround
        have hnext : s.text ++ c :: cs = text.take (s.text.length + (c :: cs).length) := by
          rw [List.take_add, ← hread, ← hchunk, List.length_take, List.take_eq_take_min]
        have hlength : s.text.length + (c :: cs).length ≤ text.length := by
          rw [← hchunk, List.length_take, List.length_drop]
          omega
        obtain ⟨fuel, i, hrun⟩ := ih (text.length - (s.text ++ c :: cs).length)
          (by rw [List.length_append, List.length_cons]; omega) ⟨s.i + 1, s.text ++ c :: cs⟩ rfl
          (by rw [List.length_append]; exact hnext) (by rw [List.length_append]; exact hlength)
        refine ⟨1 + fuel, i, ?_⟩
        rw [runLoop_add (by rw [runLoop_one]; exact hround) fuel]
        exact hrun

/-- Not more is read than the text that all reads are of. -/
theorem readRound_length (htext : ∀ i, kbufText sites (kbufs i) (counts i) = .ok text) (s : Reader)
    (h : s.text.length ≤ text.length) :
    (readRound sites counts kbufs s).1.text.length ≤ text.length := by
  rw [readRound_eq (htext s.i)]
  split
  · exact h
  · rename_i c cs hchunk
    dsimp only
    rw [List.length_append, ← hchunk, List.length_take, List.length_drop]
    omega

end Reads

/-! ## The result -/

section Result

variable {sites : List (List UInt8)}

theorem length_siteHeading : siteHeading.length = 22 := by decide

theorem cutHeading_whole {count : Nat} (h : 23 ≤ count ∧ count < 2 ^ 31) :
    cutHeading count = siteHeading := by
  rw [cutHeading, if_neg (by omega), List.take_of_length_le (by rw [length_siteHeading]; omega)]

theorem cutHeading_short {count : Nat} (h : ¬ (23 ≤ count ∧ count < 2 ^ 31)) :
    (cutHeading count).length < siteHeading.length := by
  rw [cutHeading, length_siteHeading]
  split
  · decide
  · rw [List.length_take]
    omega

/-- No read is refused. -/
theorem read_ok (hsites : ∀ name ∈ sites, (0 : UInt8) ∉ name) (count offset : Nat) :
    pageOwnerCallSiteRead sites (some fun _ => 0) count offset ≠ .error .ENOMEM := by
  rw [pageOwnerCallSiteRead, kbufText_eq hsites _ (.inl rfl)]
  rintro ⟨⟩

/-- A count for which the heading is cut: reading with it does not give the rendering. -/
theorem not_whole_of_short (hsites : ∀ name ∈ sites, (0 : UInt8) ∉ name) {count : Nat}
    (h : ¬ (23 ≤ count ∧ count < 2 ^ 31)) (fuel i : Nat) (e : Option ReadEnd) :
    runLoop (readRound sites (fun _ => count) fun _ _ => 0) fuel ⟨0, []⟩ ≠
      (⟨i, rendering sites⟩, e) := by
  intro hrun
  have htext : ∀ i : Nat, kbufText sites ((fun _ _ => 0 : Nat → Nat → UInt8) i)
      ((fun _ => count : Nat → Nat) i) =
        .ok ((cutHeading count ++ siteLines 1 sites).take (pageSize - 1)) :=
    fun _ => kbufText_eq hsites _ (.inl rfl)
  have hlength := runLoop_keeps (P := fun s : Reader =>
    s.text.length ≤ ((cutHeading count ++ siteLines 1 sites).take (pageSize - 1)).length)
    (readRound_length htext) fuel (s := ⟨0, []⟩) (Nat.zero_le _)
  rw [hrun] at hlength
  have hshort := cutHeading_short h
  have hle := List.length_take_le' (pageSize - 1) (cutHeading count ++ siteLines 1 sites)
  dsimp only at hlength
  rw [List.length_append] at hle
  rw [rendering, List.length_append] at hlength
  omega

/-- **The reads of the call sites.**  With counts out of `C` the law holds exactly when the rendering
fits into a page and each of the counts is at least 23, which leaves room for the heading, and at most
`INT_MAX`. -/
theorem readLaw_iff (writes : List CallSiteWrite) (C : Set Nat) :
    ReadLaw (accountedCallSites writes) C ↔
      ∀ count ∈ C, (rendering (accountedCallSites writes)).length ≤ pageSize - 1 ∧
        23 ≤ count ∧ count < 2 ^ 31 := by
  have hsites := accountedCallSites_noNul writes
  constructor
  · intro hlaw count hcount
    have hfits : (rendering (accountedCallSites writes)).length ≤ pageSize - 1 := by
      by_contra hlong
      exact read_ok hsites count 0 (hlaw.refused (by omega) count hcount (fun _ => 0) 0)
    refine ⟨hfits, ?_⟩
    by_contra hshort
    obtain ⟨fuel, i, hrun⟩ := hlaw.whole hfits (fun _ => count) (fun _ _ => 0) (fun _ => hcount)
    exact not_whole_of_short hsites hshort fuel i _ hrun
  · intro hcounts
    constructor
    · intro hfits counts kbufs hmem
      have htext : ∀ i, kbufText (accountedCallSites writes) (kbufs i) (counts i) =
          .ok (rendering (accountedCallSites writes)) := by
        intro i
        obtain ⟨-, hcount⟩ := hcounts (counts i) (hmem i)
        rw [kbufText_eq hsites (kbufs i) (.inr (by omega)), cutHeading_whole hcount, ← rendering,
          List.take_of_length_le hfits]
      have hpos : ∀ i, 0 < counts i := by
        intro i
        have := (hcounts (counts i) (hmem i)).2
        omega
      exact readAll_whole htext hpos _ ⟨0, []⟩ rfl rfl (Nat.zero_le _)
    · intro hlong count hcount
      have := (hcounts count hcount).1
      omega

/-- With one call site the law does not hold for all positive counts: reads of 16 bytes get less than
the rendering. -/
theorem readLaw_cut_heading :
    ¬ ReadLaw (accountedCallSites [⟨asciiBytes "kmalloc".toList, true, true⟩])
      {count | 0 < count} := by
  intro h
  have hsites := accountedCallSites_noNul [⟨asciiBytes "kmalloc".toList, true, true⟩]
  obtain ⟨fuel, i, hrun⟩ := h.whole (by decide +kernel) (fun _ => 16) (fun _ _ => 0)
    (fun _ => by decide)
  exact not_whole_of_short hsites (by omega) fuel i _ hrun

end Result

end SafelinuxDbg.MinidumpMemory
