import Mathlib.Data.List.TakeDrop
import SafelinuxDbg.MemoryDump.Rendering
import SafelinuxDbg.MemoryDump.SprTable

/-!
# The length of what is shown

`register_config_show` and `spr_config_show` count the characters they print, and append them to a
page with `strlcat`, which keeps one place for the terminating zero and drops what does not fit.
The first one stops before the count gets larger than a page, the second one after it has.  So the
count and the text may differ.

* `registerConfigShow_eq_addAll`, `sprConfigShow_eq_appendUntil`: both functions go through a list
  of lines that depends on the tables alone.
* `showBuffers_exact_iff`: the registers are shown with the right count if and only if no beginning
  of their lines fills the page to its last byte, and the special-purpose registers if and only if
  the text is shorter than a page.
* `registerConfigShow_full_page`: registers whose lines fill the page.
-/

namespace SafelinuxDbg.MemoryDump

open CMemory

/-! ## The special-purpose registers -/

/-- `"%d\n"` of a word. -/
def sprLine (word : UInt32) : List Char :=
  (if word.toNat < 2 ^ 31 then Nat.toDigits 10 word.toNat
    else '-' :: Nat.toDigits 10 (2 ^ 32 - word.toNat)) ++ ['\n']

def sprListTitle : List Char := "spr data list below:\n".toList

/-- `"spr data for CPU[%d] below:\n"`. -/
def sprCoreTitle (i : Fin 8) : List Char :=
  "spr data for CPU[".toList ++ Nat.toDigits 10 i.val ++ "] below:\n".toList

/-- One more line, whatever `count` is. -/
def Page.append (page : Page) (line : List Char) : Page :=
  ⟨strlcat page.buf line, page.count + line.length⟩

/-- The inner loop of `spr_config_show`, with the number of words that are left. -/
def sprLoop (p : Nat → UInt32) : Nat → Nat → Page → Page
  | 0, _, page => page
  | left + 1, index, page =>
    if pageSize < page.count then page
    else sprLoop p left (index + 1) (page.append (sprLine (p (sprDataHeaderSize + index))))

/-- The outer loop of `spr_config_show`, from a core on. -/
def sprCores (sprdata : SprTables) : List (Fin 8) → Page → Page
  | [], page => page
  | i :: cores, page =>
    if pageSize < page.count then page
    else
      match sprdata i with
      | none => sprCores sprdata cores page
      | some d =>
        sprCores sprdata cores
          (sprLoop d.dumpVaddr d.sprsDataIndex.toNat 0 (page.append (sprCoreTitle i)))

/-- `spr_config_show`. -/
def sprConfigShow (sprdata : SprTables) : Page :=
  sprCores sprdata (List.finRange 8) ⟨strlcat [] sprListTitle, sprListTitle.length⟩

/-! ## The lines of the tables -/

/-- The lines for the words from `index` on, however long they are. -/
def shownLines (p : Nat → UInt32) (systemIndexStart indexEnd : Int) : Nat → Nat → List (List Char)
  | 0, _ => []
  | fuel + 1, index =>
    if (index : Int) < indexEnd then
      (if (index : Int) = systemIndexStart then [systemTitle] else []) ++
        if p index = 0 then shownLines p systemIndexStart indexEnd fuel (index + 1)
        else (shownEntry p index).1 ::
          shownLines p systemIndexStart indexEnd fuel (index + (shownEntry p index).2)
    else []

/-- The lines for the registers, with both titles. -/
def configLines (d : CpussRegdumpData) : List (List Char) :=
  let systemIndexStart := Int.bmod (d.dumpVaddr sysRegInputIndex).toNat (2 ^ 32)
  let indexEnd := Int.bmod (systemIndexStart + (d.sysRegSize / 4).toNat + 1) (2 ^ 32)
  percoreTitle :: shownLines d.dumpVaddr systemIndexStart indexEnd indexEnd.toNat percoreIndex

/-- The lines for the list of a core. -/
def SprsDumpData.lines (d : SprsDumpData) : List (List Char) :=
  (List.range d.sprsDataIndex.toNat).map fun index =>
    sprLine (d.dumpVaddr (sprDataHeaderSize + index))

/-- The lines for a core, with its title. -/
def sprCoreLines (sprdata : SprTables) (i : Fin 8) : List (List Char) :=
  match sprdata i with
  | none => []
  | some d => sprCoreTitle i :: d.lines

/-- The lines for all cores, with all titles. -/
def sprLines (sprdata : SprTables) : List (List Char) :=
  sprListTitle :: (List.finRange 8).flatMap (sprCoreLines sprdata)

/-! ## Two ways to fill a page -/

/-- The lines up to the first one with which `count` would get too large. -/
def Page.addAll (page : Page) : List (List Char) → Page
  | [] => page
  | line :: lines =>
    match page.add line with
    | none => page
    | some page' => page'.addAll lines

/-- The lines up to the one with which `count` gets too large. -/
def Page.appendUntil (page : Page) : List (List Char) → Page
  | [] => page
  | line :: lines =>
    if pageSize < page.count then page else (page.append line).appendUntil lines

/-- The count is the length of the text, and the terminating zero is on the page. -/
def Page.Exact (page : Page) : Prop :=
  page.count = page.buf.length ∧ page.count ≤ pageSize - 1

instance (page : Page) : Decidable page.Exact := by
  unfold Page.Exact
  infer_instance

section Pages

variable {page page' : Page} {line : List Char}

theorem strlcat_length (buf line : List Char) :
    (strlcat buf line).length = min (buf.length + line.length) (max buf.length (pageSize - 1)) := by
  rw [strlcat, List.length_append, List.length_take]
  omega

/-- Lines that leave room are appended as they are. -/
theorem Page.Exact.append (h : page.Exact) (hfit : page.count + line.length < pageSize) :
    (page.append line).Exact := by
  obtain ⟨hcount, -⟩ := h
  have hlength := strlcat_length page.buf line
  refine ⟨?_, ?_⟩
  · show page.count + line.length = (strlcat page.buf line).length
    omega
  · show page.count + line.length ≤ pageSize - 1
    omega

theorem Page.not_exact (h : pageSize ≤ page.count) : ¬ page.Exact := by
  rintro ⟨-, hle⟩
  have hpage : pageSize = 4096 := rfl
  omega

/-- A round of `addAll`. -/
theorem Page.addAll_cons (page : Page) (line : List Char) (lines : List (List Char)) :
    page.addAll (line :: lines) =
      if pageSize < page.count + line.length then page else (page.append line).addAll lines := by
  by_cases hfull : pageSize < page.count + line.length
  · rw [Page.addAll, Page.add, if_pos hfull, if_pos hfull]
  · rw [Page.addAll, Page.add, if_neg hfull, if_neg hfull]
    rfl

/-- The count never gets smaller. -/
theorem Page.le_addAll (page : Page) (lines : List (List Char)) :
    page.count ≤ (page.addAll lines).count := by
  induction lines generalizing page with
  | nil => exact Nat.le_refl _
  | cons line lines ih =>
    rw [Page.addAll_cons]
    split
    · exact Nat.le_refl _
    · exact Nat.le_trans (Nat.le_add_right _ line.length) (ih (page.append line))

@[inherit_doc Page.le_addAll]
theorem Page.le_appendUntil (page : Page) (lines : List (List Char)) :
    page.count ≤ (page.appendUntil lines).count := by
  induction lines generalizing page with
  | nil => exact Nat.le_refl _
  | cons line lines ih =>
    rw [Page.appendUntil]
    split
    · exact Nat.le_refl _
    · exact Nat.le_trans (Nat.le_add_right _ line.length) (ih (page.append line))

/-- **Filling a page before the count gets too large** goes wrong if and only if some of the lines
end with the page. -/
theorem Page.addAll_exact_iff {page : Page} (h : page.Exact) (lines : List (List Char)) :
    (page.addAll lines).Exact ↔ ∀ k, page.count + (lines.take k).flatten.length ≠ pageSize := by
  have hroom : page.count < pageSize := Nat.lt_of_le_of_lt h.2 (by decide)
  induction lines generalizing page with
  | nil =>
    refine ⟨fun _ k => ?_, fun _ => h⟩
    rw [List.take_nil, List.flatten_nil, List.length_nil]
    omega
  | cons line lines ih =>
    have hcons : ∀ k, ((line :: lines).take (k + 1)).flatten.length =
        line.length + (lines.take k).flatten.length := by
      intro k
      rw [List.take_succ_cons, List.flatten_cons, List.length_append]
    rw [Page.addAll_cons]
    rcases Nat.lt_trichotomy (page.count + line.length) pageSize with hlt | heq | hgt
    · have hrest : ((page.append line).addAll lines).Exact ↔
          ∀ k, page.count + line.length + (lines.take k).flatten.length ≠ pageSize :=
        ih (h.append hlt) hlt
      rw [if_neg (by omega), hrest]
      refine ⟨fun hall k => ?_, fun hall k => ?_⟩
      · cases k with
        | zero =>
          rw [List.take_zero, List.flatten_nil, List.length_nil]
          omega
        | succ k =>
          have hk := hall k
          rw [hcons]
          omega
      · have hk := hall (k + 1)
        rw [hcons] at hk
        omega
    · rw [if_neg (by omega)]
      refine ⟨fun hexact => absurd hexact (Page.not_exact ?_), fun hall => ?_⟩
      · exact Nat.le_trans (Nat.le_of_eq heq.symm) ((page.append line).le_addAll lines)
      · refine absurd ?_ (hall 1)
        rw [hcons, List.take_zero, List.flatten_nil, List.length_nil]
        omega
    · rw [if_pos hgt]
      refine ⟨fun _ k => ?_, fun _ => h⟩
      cases k with
      | zero =>
        rw [List.take_zero, List.flatten_nil, List.length_nil]
        omega
      | succ k =>
        rw [hcons]
        omega

/-- **Filling a page until the count is too large** goes wrong if and only if the lines take the
page or more. -/
theorem Page.appendUntil_exact_iff {page : Page} (h : page.Exact) (lines : List (List Char)) :
    (page.appendUntil lines).Exact ↔ page.count + lines.flatten.length < pageSize := by
  have hroom : page.count < pageSize := Nat.lt_of_le_of_lt h.2 (by decide)
  induction lines generalizing page with
  | nil =>
    rw [List.flatten_nil, List.length_nil]
    exact ⟨fun _ => hroom, fun _ => h⟩
  | cons line lines ih =>
    rw [Page.appendUntil, if_neg (by omega), List.flatten_cons, List.length_append]
    by_cases hlt : page.count + line.length < pageSize
    · have hrest : ((page.append line).appendUntil lines).Exact ↔
          page.count + line.length + lines.flatten.length < pageSize := ih (h.append hlt) hlt
      rw [hrest, Nat.add_assoc]
    · refine ⟨fun hexact => absurd hexact (Page.not_exact ?_), fun hall => ?_⟩
      · exact Nat.le_trans (Nat.not_lt.mp hlt) ((page.append line).le_appendUntil lines)
      · omega

/-- A full page takes no more lines. -/
theorem Page.appendUntil_full (h : pageSize < page.count) (lines : List (List Char)) :
    page.appendUntil lines = page := by
  cases lines with
  | nil => rfl
  | cons line lines => rw [Page.appendUntil, if_pos h]

theorem Page.appendUntil_append (page : Page) (lines more : List (List Char)) :
    page.appendUntil (lines ++ more) = (page.appendUntil lines).appendUntil more := by
  induction lines generalizing page with
  | nil => rfl
  | cons line lines ih =>
    rw [List.cons_append, Page.appendUntil, Page.appendUntil]
    split
    · rename_i hfull
      exact (Page.appendUntil_full hfull more).symm
    · exact ih _

end Pages

/-! ## Both functions -/

/-- **The registers are shown line by line.** -/
theorem showLoop_eq_addAll (p : Nat → UInt32) (systemIndexStart indexEnd : Int) (fuel index : Nat)
    (page : Page) : showLoop p systemIndexStart indexEnd fuel index page =
      page.addAll (shownLines p systemIndexStart indexEnd fuel index) := by
  induction fuel generalizing index page with
  | zero => rfl
  | succ fuel ih =>
    -- behind the title
    have hrest : ∀ page : Page,
        (if p index = 0 then showLoop p systemIndexStart indexEnd fuel (index + 1) page
          else
            match page.add (shownEntry p index).1 with
            | none => page
            | some page' =>
              showLoop p systemIndexStart indexEnd fuel (index + (shownEntry p index).2) page') =
          page.addAll (if p index = 0 then shownLines p systemIndexStart indexEnd fuel (index + 1)
            else (shownEntry p index).1 ::
              shownLines p systemIndexStart indexEnd fuel (index + (shownEntry p index).2)) := by
      intro page
      split
      · exact ih _ _
      · rw [Page.addAll]
        cases page.add (shownEntry p index).1 with
        | none => rfl
        | some page' => exact ih _ _
    rw [showLoop, shownLines]
    by_cases hend : (index : Int) < indexEnd
    · rw [if_pos hend, if_pos hend]
      by_cases hstart : (index : Int) = systemIndexStart
      · rw [if_pos hstart, if_pos hstart, List.singleton_append, Page.addAll]
        cases page.add systemTitle with
        | none => rfl
        | some page' => exact hrest page'
      · rw [if_neg hstart, if_neg hstart]
        exact hrest page
    · rw [if_neg hend, if_neg hend]
      rfl

theorem registerConfigShow_eq_addAll (d : CpussRegdumpData) :
    registerConfigShow d = (Page.mk [] 0).addAll (configLines d) := by
  rw [registerConfigShow, configLines, Page.addAll_cons, if_neg (by decide)]
  exact showLoop_eq_addAll _ _ _ _ _ _

/-- The list of a core from `index` on. -/
theorem sprLoop_eq_appendUntil (p : Nat → UInt32) (left index : Nat) (page : Page) :
    sprLoop p left index page = page.appendUntil
      ((List.range' index left).map fun index => sprLine (p (sprDataHeaderSize + index))) := by
  induction left generalizing index page with
  | zero => rfl
  | succ left ih =>
    rw [sprLoop, List.range'_succ, List.map_cons, Page.appendUntil]
    split
    · rfl
    · exact ih _ _

theorem sprCores_eq_appendUntil (sprdata : SprTables) (cores : List (Fin 8)) (page : Page) :
    sprCores sprdata cores page = page.appendUntil (cores.flatMap (sprCoreLines sprdata)) := by
  induction cores generalizing page with
  | nil => rfl
  | cons i cores ih =>
    rw [sprCores, List.flatMap_cons, Page.appendUntil_append]
    by_cases hfull : pageSize < page.count
    · rw [if_pos hfull, Page.appendUntil_full hfull, Page.appendUntil_full hfull]
    · rw [if_neg hfull, sprCoreLines]
      cases hdata : sprdata i with
      | none => exact ih page
      | some d =>
        dsimp only
        rw [ih, Page.appendUntil, if_neg hfull, sprLoop_eq_appendUntil, SprsDumpData.lines,
          List.range_eq_range']

/-- **The special-purpose registers are shown line by line.** -/
theorem sprConfigShow_eq_appendUntil (sprdata : SprTables) :
    sprConfigShow sprdata = (Page.mk [] 0).appendUntil (sprLines sprdata) := by
  rw [sprConfigShow, sprLines, Page.appendUntil, if_neg (by decide)]
  exact sprCores_eq_appendUntil _ _ _

/-- **The count is the length of the text.**  For the registers, if and only if no beginning of
their lines is as long as a page; for the special-purpose registers, if and only if the whole text
is shorter than a page. -/
theorem showBuffers_exact_iff (d : CpussRegdumpData) (sprdata : SprTables) :
    ((registerConfigShow d).Exact ↔
        ∀ k, ((configLines d).take k).flatten.length ≠ pageSize) ∧
      ((sprConfigShow sprdata).Exact ↔ (sprLines sprdata).flatten.length < pageSize) := by
  have hempty : (Page.mk [] 0).Exact := ⟨rfl, Nat.zero_le _⟩
  refine ⟨?_, ?_⟩
  · rw [registerConfigShow_eq_addAll, Page.addAll_exact_iff hempty]
    simp only [Nat.zero_add]
  · rw [sprConfigShow_eq_appendUntil, Page.appendUntil_exact_iff hempty, Nat.zero_add]

/-- 157 writes, most of them with the longest line there is. -/
def pageOfWrites : List Scanned :=
  List.replicate 155 (.three 0xfffffffc 0xffffffff 'w') ++ List.replicate 2 (.three 0x10 0x10 'w')

def longWrite : RegEntry := ⟨.write, 0xfffffffc, 0xffffffff, by decide, by decide⟩
def shortWrite : RegEntry := ⟨.write, 0x10, 0x10, by decide, by decide⟩

/-- The table with these writes. -/
def pageTable : RegTable ⟨8192, 2, 8, by decide, by decide⟩ where
  percore := []
  system := List.replicate 155 longWrite ++ List.replicate 2 shortWrite
  few := by decide
  fits := by decide +kernel

/-- All of the writes are accepted. -/
theorem session_pageOfWrites :
    (session 8 (updateRegDumpTable 2 (cpussRegdumpInit 8192)).data pageOfWrites).data =
      pageTable.toData (fun _ => 0) := by
  obtain ⟨hdata, -⟩ :=
    updateRegDumpTable_eq ⟨8192, 2, 8, by decide, by decide⟩ (cpussRegdumpInit 8192) rfl
  obtain ⟨t, hat⟩ := session_table ⟨8192, 2, 8, by decide, by decide⟩ (fun _ => 0) pageOfWrites
  have hpercore : t.percore.map some = [].map some := by
    rw [← hat.percore]
    decide +kernel
  have hsystem : t.system.map some = pageTable.system.map some := by
    rw [← hat.system]
    decide +kernel
  obtain ⟨percore, system, hfew, hfits⟩ := t
  cases List.map_injective_iff.mpr (Option.some_injective _) hpercore
  cases List.map_injective_iff.mpr (Option.some_injective _) hsystem
  rw [hdata]
  exact hat.data

/-- **A full page**: the lines have 4096 characters, and all of them are counted. -/
theorem registerConfigShow_full_page :
    4 * (6 + 2 * 2) < 8192 ∧
      (configLines (session 8 (updateRegDumpTable 2 (cpussRegdumpInit 8192)).data
        pageOfWrites).data).flatten.length = 4096 ∧
      ¬ (registerConfigShow (session 8 (updateRegDumpTable 2 (cpussRegdumpInit 8192)).data
        pageOfWrites).data).Exact := by
  have hlength : ((configLines (pageTable.toData (fun _ => 0))).map List.length).sum = 4096 := by
    decide +kernel
  rw [← List.length_flatten] at hlength
  rw [session_pageOfWrites]
  refine ⟨by decide, hlength, ?_⟩
  rw [registerConfigShow_eq_addAll, Page.addAll_exact_iff ⟨rfl, Nat.zero_le _⟩]
  intro hall
  refine hall (configLines (pageTable.toData (fun _ => 0))).length ?_
  rw [List.take_length, Nat.zero_add, hlength]

end SafelinuxDbg.MemoryDump
