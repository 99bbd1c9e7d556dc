import Mathlib.Data.Nat.Bitwise
import SafelinuxDbg.Minidump.Types
import SafelinuxDbg.MinidumpMemory.PageOwner

/-!
# The filter of the page owner dump

`page_owner_filter` has four bits, one for each class of pages: unaccounted, slab, anon and file.
`dump_page_owner_md` dumps a page when it is in one of the classes that are selected, and every page
when all four bits are set.

A page of a file is one on an LRU list that is not swap backed.  The code takes the complement of the
bits of the flag for its negation, and the complement is never 0: anon pages on an LRU list are dumped
too.  The text of a frame, in which the call sites are searched for, ends with a newline, and the name
of a call site may have one.

* `checkEntries_iff`: the search for the call sites.
* `passesFilter_iff`: the pages that come to the label `dump`.
* `emitsRecord_iff_iff`: when the pages dumped are those of the classes selected.
-/

namespace SafelinuxDbg.MinidumpMemory

open CMemory Minidump

/-! ## The filter that is set -/

/-- `page_owner_filter_write`, with what `kstrtoul_from_user` makes of the text and with the old value
of `page_owner_filter`. -/
def pageOwnerFilterWrite (parsed : Option UInt64) (count : Nat) (pageOwnerFilter : UInt64) :
    UInt64 × Except Errno Nat :=
  match parsed with
  | none => (pageOwnerFilter, .error .EINVAL)
  | some filter =>
    if filter &&& ~~~0xF ≠ 0 then (pageOwnerFilter, .error .EINVAL) else (filter, .ok count)

/-- The filter is 0xF at first, and stays in 0..0xF. -/
theorem pageOwnerFilterWrite_le {old : UInt64} (h : old ≤ 0xF) (parsed : Option UInt64)
    (count : Nat) : (pageOwnerFilterWrite parsed count old).1 ≤ 0xF := by
  unfold pageOwnerFilterWrite
  split
  · exact h
  · split
    case isTrue => exact h
    case isFalse filter hmask =>
      by_contra hlarge
      have hge : 2 ^ 4 ≤ filter.toNat := by
        rw [UInt64.le_iff_toNat_le] at hlarge
        dsimp only at hlarge
        have hF : (0xF : UInt64).toNat = 15 := rfl
        omega
      obtain ⟨i, hi, hbit⟩ := Nat.exists_ge_and_testBit_of_ge_two_pow hge
      have hlt : i < 64 := by
        by_contra hi64
        have hword := Nat.ge_two_pow_of_testBit hbit
        have hpow : 2 ^ 64 ≤ 2 ^ i := Nat.pow_le_pow_right (by omega) (by omega)
        have := filter.toNat_lt
        omega
      have hmasked : ∀ i < 64, 4 ≤ i → (~~~0xF : UInt64).toNat.testBit i = true := by decide +kernel
      have hand := congrArg (fun a : UInt64 => a.toNat.testBit i) (not_not.mp hmask)
      rw [UInt64.toNat_and, Nat.testBit_and, hbit, hmasked i hlt hi] at hand
      simp at hand

/-! ## The classes of pages -/

section Classes

variable (k : Kernel) (s : Settings) (page : Page)

/-- None of the three flags is set. -/
def NoFlags : Prop :=
  page.flags &&& k.lru = 0 ∧ page.flags &&& k.slab = 0 ∧ page.flags &&& k.swapbacked = 0

/-- A call site is found in one of the texts of the stack. -/
def Accounted (text : UInt64 → List UInt8) : Prop :=
  ∃ entry ∈ k.stackDepotFetch page.handle, ∃ name ∈ s.accountedCallSites, name <:+: text entry

/-- The page is in a class that is selected. -/
def Selected : Prop :=
  s.pageOwnerFilter = 0xF ∨
    (s.pageOwnerFilter &&& 0x1 ≠ 0 ∧ NoFlags k page ∧ ¬ Accounted k s page k.symbolText) ∨
    (s.pageOwnerFilter &&& 0x2 ≠ 0 ∧ page.flags &&& k.slab ≠ 0) ∨
    (s.pageOwnerFilter &&& 0x4 ≠ 0 ∧ page.flags &&& k.swapbacked ≠ 0) ∨
    (s.pageOwnerFilter &&& 0x8 ≠ 0 ∧ page.flags &&& k.lru ≠ 0 ∧ page.flags &&& k.swapbacked = 0)

/-- A record for the page stands at `buf`, and its length is returned. -/
def EmitsRecord (r : Region) (buf count : Nat) : Prop :=
  ∃ kind, (dumpPageOwnerMd k s r buf count page).2.1 = (linesOf k page kind).flatten.length ∧
    slice (dumpPageOwnerMd k s r buf count page).1.mem buf (linesOf k page kind).flatten.length =
      (linesOf k page kind).flatten

/-- The texts of the stack and of the record fit into `count` bytes. -/
structure EnoughSpace (count : Nat) : Prop where
  symbols : ∀ entry ∈ k.stackDepotFetch page.handle, (symbolLine k entry).length + 1 < count
  record : ∀ kind, (linesOf k page kind).flatten.length < count

/-- What the code relies on: the text of `%pS` is a string, and the mask of a flag is one bit. -/
structure LawfulKernel : Prop where
  symbol_noNul : ∀ entry, (0 : UInt8) ∉ k.symbolText entry
  swapbacked_bit : ∃ n < 64, k.swapbacked.toNat = 2 ^ n

end Classes

/-! ## The search for the call sites -/

section Search

variable {k : Kernel} {s : Settings} {page : Page} {buf count : Nat}

theorem symbolLine_noNul (hk : LawfulKernel k) (entry : UInt64) : (0 : UInt8) ∉ symbolLine k entry := by
  rw [symbolLine, List.mem_append, not_or]
  exact ⟨hk.symbol_noNul entry, by decide⟩

/-- **The search for the call sites.** -/
theorem checkEntries_iff (hk : LawfulKernel k) (hs : count < 2 ^ 31) (entries : List UInt64)
    (hfits : ∀ entry ∈ entries, (symbolLine k entry).length + 1 < count) : ∀ m : Nat → UInt8,
    (checkEntries k s buf count m entries).2 = true ↔
      ∀ entry ∈ entries, ∀ name ∈ s.accountedCallSites, ¬ name <:+: symbolLine k entry := by
  induction entries with
  | nil =>
    intro m
    simp [checkEntries]
  | cons entry entries ih =>
    intro m
    have hline := hfits entry (by simp)
    have hprinted : (scnprintf m buf count (symbolLine k entry)).2 + 1 ≠ count := by
      rw [scnprintf_of_lt m buf (symbolLine k entry) hs]
      dsimp only
      omega
    rw [checkEntries, if_neg hprinted,
      string_of_slice (slice_scnprintf m buf hs (by omega)) (symbolLine_noNul hk entry) (by omega),
      List.forall_mem_cons]
    split
    case isTrue hfound =>
      refine iff_of_false Bool.false_ne_true fun hnone => ?_
      obtain ⟨name, hname, hin⟩ := List.any_eq_true.mp hfound
      exact hnone.1 name hname (of_decide_eq_true hin)
    case isFalse hnone =>
      rw [ih (fun e he => hfits e (List.mem_cons_of_mem _ he)) _]
      refine ⟨fun hrest => ⟨fun name hname hin => hnone ?_, hrest⟩, fun h => h.2⟩
      exact List.any_eq_true.mpr ⟨name, hname, decide_eq_true hin⟩

end Search

/-! ## The bits of the filter -/

section Bits

variable {k : Kernel} {s : Settings} {page : Page} {buf count : Nat}

theorem and_eq_zero_of_lt {filter bit : UInt64} {n : Nat} (hbit : bit.toNat = 2 ^ n)
    (h : filter < bit) : filter &&& bit = 0 := by
  rw [UInt64.lt_iff_toNat_lt, hbit] at h
  rw [← UInt64.toNat_inj, UInt64.toNat_and, hbit, Nat.and_two_pow, Nat.testBit_lt_two_pow h,
    Bool.toNat_false, Nat.zero_mul, UInt64.toNat_zero]

/-- The loop over the bits, when what the cases decide does not depend on the memory.  Where the loop
ends because the filter is below a bit, neither this bit nor a larger one is set. -/
theorem filterLoop_iff {D : UInt64 → Prop} (bits : List UInt64)
    (hcase : ∀ bit ∈ bits, ∀ m, (filterCase k s buf count page bit m).2 = true ↔ D bit)
    (hsorted : bits.Pairwise (· < ·)) (hpow : ∀ bit ∈ bits, ∃ n, bit.toNat = 2 ^ n) :
    ∀ m : Nat → UInt8, (filterLoop k s buf count page bits m).2 = true ↔
      ∃ bit ∈ bits, s.pageOwnerFilter &&& bit ≠ 0 ∧ D bit := by
  induction bits with
  | nil =>
    intro m
    simp [filterLoop]
  | cons bit bits ih =>
    intro m
    obtain ⟨hlarger, hsorted⟩ := List.pairwise_cons.mp hsorted
    have ih := ih (fun b hb => hcase b (List.mem_cons_of_mem _ hb)) hsorted
      (fun b hb => hpow b (List.mem_cons_of_mem _ hb))
    have hhere := hcase bit List.mem_cons_self m
    rw [filterLoop, List.exists_mem_cons_iff]
    split
    case isTrue hlt =>
      refine iff_of_false Bool.false_ne_true ?_
      rintro (⟨hset, -⟩ | ⟨b, hb, hset, -⟩)
      · obtain ⟨n, hn⟩ := hpow bit List.mem_cons_self
        exact hset (and_eq_zero_of_lt hn hlt)
      · obtain ⟨n, hn⟩ := hpow b (List.mem_cons_of_mem _ hb)
        exact hset (and_eq_zero_of_lt hn (UInt64.lt_trans hlt (hlarger b hb)))
    case isFalse =>
      split
      case isTrue hset =>
        dsimp only
        split
        case isTrue hpass => exact iff_of_true hpass (.inl ⟨hset, hhere.mp hpass⟩)
        case isFalse hpass =>
          rw [ih]
          exact ⟨.inr, fun h => h.resolve_left fun hbit => hpass (hhere.mpr hbit.2)⟩
      case isFalse hset =>
        rw [ih]
        exact ⟨.inr, fun h => h.resolve_left fun hbit => hset hbit.1⟩

theorem and_or_eq_zero (a b c : UInt64) : a &&& (b ||| c) = 0 ↔ a &&& b = 0 ∧ a &&& c = 0 := by
  have hdistrib : a &&& (b ||| c) = (a &&& b) ||| (a &&& c) := by
    apply UInt64.toNat_inj.mp
    simp only [UInt64.toNat_and, UInt64.toNat_or, Nat.and_or_distrib_left]
  rw [hdistrib, UInt64.or_eq_zero_iff]

/-- The complement of a bit is never 0. -/
theorem not_and_swapbacked (hk : LawfulKernel k) (flags : UInt64) :
    ~~~(flags &&& k.swapbacked) ≠ 0 := by
  intro hzero
  obtain ⟨n, hn, hbit⟩ := hk.swapbacked_bit
  have hle : flags.toNat &&& k.swapbacked.toNat ≤ 2 ^ 63 := by
    calc flags.toNat &&& k.swapbacked.toNat
      _ ≤ k.swapbacked.toNat := Nat.and_le_right
      _ = 2 ^ n := hbit
      _ ≤ 2 ^ 63 := Nat.pow_le_pow_right (by omega) (by omega)
  have hword := congrArg UInt64.toNat hzero
  rw [UInt64.toNat_not, UInt64.toNat_and, UInt64.size, UInt64.toNat_zero] at hword
  omega

theorem checkUnaccounted_iff (hk : LawfulKernel k) (hs : count < 2 ^ 31)
    (hfits : ∀ entry ∈ k.stackDepotFetch page.handle, (symbolLine k entry).length + 1 < count)
    (m : Nat → UInt8) :
    (checkUnaccounted k s buf count page m).2 = true ↔
      NoFlags k page ∧ ¬ Accounted k s page (symbolLine k) := by
  have hflags : page.flags &&& (k.lru ||| k.slab ||| k.swapbacked) = 0 ↔ NoFlags k page := by
    rw [and_or_eq_zero, and_or_eq_zero, NoFlags, and_assoc]
  rw [checkUnaccounted]
  split
  case isTrue hset => exact iff_of_false Bool.false_ne_true fun h => hset (hflags.mpr h.1)
  case isFalse hclear =>
    rw [checkEntries_iff hk hs _ hfits]
    have hno := hflags.mp (not_not.mp hclear)
    simp only [Accounted, hno, true_and, not_exists, not_and]

/-- **The pages that are dumped.** -/
theorem passesFilter_iff (hk : LawfulKernel k) (hs : count < 2 ^ 31)
    (hfits : ∀ entry ∈ k.stackDepotFetch page.handle, (symbolLine k entry).length + 1 < count)
    (m : Nat → UInt8) :
    (passesFilter k s buf count page m).2 = true ↔
      s.pageOwnerFilter = 0xF ∨
        (s.pageOwnerFilter &&& 0x1 ≠ 0 ∧ NoFlags k page ∧ ¬ Accounted k s page (symbolLine k)) ∨
        (s.pageOwnerFilter &&& 0x2 ≠ 0 ∧ page.flags &&& k.slab ≠ 0) ∨
        (s.pageOwnerFilter &&& 0x4 ≠ 0 ∧ page.flags &&& k.swapbacked ≠ 0) ∨
        (s.pageOwnerFilter &&& 0x8 ≠ 0 ∧ page.flags &&& k.lru ≠ 0) := by
  have hcase : ∀ bit ∈ [(0x1 : UInt64), 0x2, 0x4, 0x8], ∀ m,
      (filterCase k s buf count page bit m).2 = true ↔
        (bit = 0x1 ∧ NoFlags k page ∧ ¬ Accounted k s page (symbolLine k)) ∨
        (bit = 0x2 ∧ page.flags &&& k.slab ≠ 0) ∨
        (bit = 0x4 ∧ page.flags &&& k.swapbacked ≠ 0) ∨
        (bit = 0x8 ∧ page.flags &&& k.lru ≠ 0) := by
    intro bit hbit m
    simp only [List.mem_cons, List.not_mem_nil, or_false] at hbit
    rcases hbit with rfl | rfl | rfl | rfl
    · simp [filterCase, checkUnaccounted_iff hk hs hfits]
    · simp [filterCase]
    · simp [filterCase]
    · simp [filterCase, not_and_swapbacked hk]
  have hloop := filterLoop_iff _ hcase (by decide) (by
    intro bit hbit
    simp only [List.mem_cons, List.not_mem_nil, or_false] at hbit
    rcases hbit with rfl | rfl | rfl | rfl
    · exact ⟨0, rfl⟩
    · exact ⟨1, rfl⟩
    · exact ⟨2, rfl⟩
    · exact ⟨3, rfl⟩) m
  rw [passesFilter]
  split
  case isTrue hall => exact iff_of_true rfl (.inl hall)
  case isFalse hall =>
    rw [hloop, or_iff_right hall]
    simp

end Bits

/-! ## The result -/

section Result

variable (k : Kernel) (s : Settings) (page : Page)

/-- An anon page on an LRU list, with file pages selected, and no class that it is in. -/
def AnonAsFile : Prop :=
  s.pageOwnerFilter ≠ 0xF ∧ s.pageOwnerFilter &&& 0x8 ≠ 0 ∧ page.flags &&& k.lru ≠ 0 ∧
    page.flags &&& k.swapbacked ≠ 0 ∧ s.pageOwnerFilter &&& 0x4 = 0 ∧
    ¬ (s.pageOwnerFilter &&& 0x2 ≠ 0 ∧ page.flags &&& k.slab ≠ 0)

/-- An unaccounted page, with unaccounted pages selected, for which a call site is found with the
newline behind the text of a frame. -/
def FoundWithNewline : Prop :=
  s.pageOwnerFilter ≠ 0xF ∧ s.pageOwnerFilter &&& 0x1 ≠ 0 ∧ NoFlags k page ∧
    Accounted k s page (symbolLine k) ∧ ¬ Accounted k s page k.symbolText

variable {k s page} {r : Region} {buf count : Nat}

theorem Accounted.line (h : Accounted k s page k.symbolText) : Accounted k s page (symbolLine k) := by
  obtain ⟨entry, hentry, name, hname, hin⟩ := h
  exact ⟨entry, hentry, name, hname, hin.trans (List.infix_append [] _ _)⟩

theorem record_length_pos (k : Kernel) (page : Page) (kind : RecordKind) :
    0 < (linesOf k page kind).flatten.length := by
  have hpage : ∀ n, 0 < (pageLine page n).length := by
    intro n
    rw [pageLine, List.length_append]
    exact Nat.add_pos_right _ (by decide)
  cases kind with
  | stack =>
    rw [linesOf, recordLines, List.flatten_cons, List.length_append]
    exact Nat.add_pos_left (hpage _) _
  | backReference =>
    rw [linesOf, List.flatten_singleton]
    exact hpage 0

/-- Nothing is emitted when nothing is returned. -/
theorem not_emitsRecord (h : (dumpPageOwnerMd k s r buf count page).2.1 = 0) :
    ¬ EmitsRecord k s page r buf count := by
  rintro ⟨kind, hlength, -⟩
  have := record_length_pos k page kind
  omega

/-- A page that comes to the label `dump` gets its record. -/
theorem emitsRecord_iff_passes (hs : count < 2 ^ 31)
    (hrecord : ∀ kind, (linesOf k page kind).flatten.length < count) :
    EmitsRecord k s page r buf count ↔ (passesFilter k s buf count page r.mem).2 = true := by
  by_cases hpass : (passesFilter k s buf count page r.mem).2 = true
  · refine iff_of_true ?_ hpass
    obtain ⟨c, hdump⟩ : ∃ c : Region × RecordKind, dumpPageOwnerMd k s r buf count page =
        (⟨(printLines c.1.mem buf count 0 (linesOf k page c.2)).1, c.1.nrHandles⟩,
          (printLines c.1.mem buf count 0 (linesOf k page c.2)).2, some c.2) := by
      rw [dumpPageOwnerMd, if_pos hpass]
      exact ⟨_, rfl⟩
    have hfits := hrecord c.2
    have hreached := printLines_snd (a := buf) (linesOf k page c.2) c.1.mem hs
      (by omega : 0 < count)
    have hwhole : (printLines c.1.mem buf count 0 (linesOf k page c.2)).2 =
        0 + (linesOf k page c.2).flatten.length := by omega
    refine ⟨c.2, ?_, ?_⟩
    · rw [hdump]
      dsimp only
      omega
    · rw [hdump]
      exact slice_printLines _ _ 0 hwhole
  · refine iff_of_false (not_emitsRecord ?_) hpass
    rw [dumpPageOwnerMd, if_neg hpass]

/-- The two conditions compared.  They differ in the classes of unaccounted pages and of files, which
have no page in common. -/
theorem selection_iff {all f1 f2 f4 f8 noLru noSlab noSwap found foundLine : Prop}
    (hline : found → foundLine) :
    ((all ∨ (¬ f1 ∧ (noLru ∧ noSlab ∧ noSwap) ∧ ¬ foundLine) ∨ (¬ f2 ∧ ¬ noSlab) ∨
          (¬ f4 ∧ ¬ noSwap) ∨ (¬ f8 ∧ ¬ noLru)) ↔
        (all ∨ (¬ f1 ∧ (noLru ∧ noSlab ∧ noSwap) ∧ ¬ found) ∨ (¬ f2 ∧ ¬ noSlab) ∨
          (¬ f4 ∧ ¬ noSwap) ∨ (¬ f8 ∧ ¬ noLru ∧ noSwap))) ↔
      ¬ (¬ all ∧ ¬ f8 ∧ ¬ noLru ∧ ¬ noSwap ∧ f4 ∧ ¬ (¬ f2 ∧ ¬ noSlab)) ∧
        ¬ (¬ all ∧ ¬ f1 ∧ (noLru ∧ noSlab ∧ noSwap) ∧ foundLine ∧ ¬ found) := by
  by_cases hall : all
  · simp only [hall, true_or, not_true_eq_false, false_and, not_false_eq_true, and_self]
  · by_cases hflags : noLru ∧ noSlab ∧ noSwap
    · obtain ⟨hlru, hslab, hswap⟩ := hflags
      simp only [hall, hlru, hslab, hswap]
      grind
    · by_cases hswap : noSwap
      · simp only [hall, hswap]
        grind
      · simp only [hall, hswap]
        grind

/-- **The pages dumped.**  They are those of the classes selected, apart from anon pages that are
taken for pages of files and from call sites that have a newline, and as long as the space is not so
large that nothing is printed. -/
theorem emitsRecord_iff_iff (hk : LawfulKernel k) (hspace : EnoughSpace k page count) :
    (EmitsRecord k s page r buf count ↔ Selected k s page) ↔
      (count < 2 ^ 31 ∧ ¬ AnonAsFile k s page ∧ ¬ FoundWithNewline k s page) ∨
        (2 ^ 31 ≤ count ∧ ¬ Selected k s page) := by
  by_cases hs : count < 2 ^ 31
  · rw [emitsRecord_iff_passes hs hspace.record,
      passesFilter_iff hk hs hspace.symbols]
    have hhuge : ¬ 2 ^ 31 ≤ count := by omega
    simp only [hs, hhuge, true_and, false_and, or_false]
    exact selection_iff Accounted.line
  · have hnone : (dumpPageOwnerMd k s r buf count page).2.1 = 0 := by
      rw [dumpPageOwnerMd]
      dsimp only
      split
      · exact printLines_none _ (.inr (by omega)) _
      · rfl
    have hno := not_emitsRecord hnone
    have hhuge : 2 ^ 31 ≤ count := by omega
    simp only [hno, hs, hhuge, false_and, false_or, true_and, false_iff]

end Result

/-- A kernel with one stack, for the examples. -/
def oneStackKernel : Kernel where
  stackDepotFetch := fun _ => [1]
  pointerText := fun _ => asciiBytes "0000000000000001".toList
  symbolText := fun _ => asciiBytes "do_anonymous_page+0x1/0x2".toList
  lru := 0x10
  slab := 0x200
  swapbacked := 0x80000

/-- A region of 4096 bytes with the filter `filter`, and without call sites. -/
def filterSettings (filter : UInt64) : Settings where
  mdPageownerDumpSize := 4096
  pageOwnerHandlesSize := 16
  pageOwnerFilter := filter
  accountedCallSites := []
  handles_dvd := by decide
  handles_le := by decide

/-- An anon page on an LRU list. -/
def anonPage : Page := ⟨7, 0x80010, 3⟩

theorem lawful_oneStackKernel : LawfulKernel oneStackKernel where
  symbol_noNul := fun _ => show (0 : UInt8) ∉ asciiBytes "do_anonymous_page+0x1/0x2".toList by decide
  swapbacked_bit := ⟨19, by omega, rfl⟩

theorem enoughSpace_anonPage : EnoughSpace oneStackKernel anonPage 4096 where
  symbols := by
    intro entry hentry
    rw [List.mem_singleton.mp hentry]
    decide +kernel
  record := by
    intro kind
    cases kind with
    | stack => decide +kernel
    | backReference => decide +kernel

/-- With anon pages selected, the page is dumped as it should be. -/
theorem emitsRecord_anon :
    EmitsRecord oneStackKernel (filterSettings 0x4) anonPage ⟨fun _ => 0, 0⟩ 0 4096 ↔
      Selected oneStackKernel (filterSettings 0x4) anonPage := by
  refine (emitsRecord_iff_iff lawful_oneStackKernel enoughSpace_anonPage).mpr
    (.inl ⟨by decide, ?_, ?_⟩)
  · rintro ⟨-, hfile, -⟩
    exact hfile (by decide)
  · rintro ⟨-, hunaccounted, -⟩
    exact hunaccounted (by decide)

/-- With pages of files selected, the page is dumped, and should not be. -/
theorem emitsRecord_anon_as_file :
    LawfulKernel oneStackKernel ∧ EnoughSpace oneStackKernel anonPage 4096 ∧
      ¬ (EmitsRecord oneStackKernel (filterSettings 0x8) anonPage ⟨fun _ => 0, 0⟩ 0 4096 ↔
        Selected oneStackKernel (filterSettings 0x8) anonPage) := by
  refine ⟨lawful_oneStackKernel, enoughSpace_anonPage, fun h => ?_⟩
  have hemits : EmitsRecord oneStackKernel (filterSettings 0x8) anonPage ⟨fun _ => 0, 0⟩ 0 4096 :=
    (emitsRecord_iff_passes (by decide) enoughSpace_anonPage.record).mpr (by decide +kernel)
  rcases h.mp hemits with hall | ⟨hbit, -⟩ | ⟨hbit, -⟩ | ⟨hbit, -⟩ | ⟨-, -, hswap⟩
  · exact absurd hall (by decide)
  · exact hbit (by decide)
  · exact hbit (by decide)
  · exact hbit (by decide)
  · exact absurd hswap (by decide)

end SafelinuxDbg.MinidumpMemory
