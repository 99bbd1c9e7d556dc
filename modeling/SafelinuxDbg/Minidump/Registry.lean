import SafelinuxDbg.Minidump.ElfEdit
import SafelinuxDbg.Minidump.Tables

/-!
# The registry

What the driver is for, in SMEM mode: a list of regions with distinct names.  `imageOf` is the
header buffer such a list asks for, with the regions placed one behind the other in the file
after the buffer itself.

* `imageOf_add`, `imageOf_update`: the operations on headers are those on the list.
* `lookup_imageOf`: a region that is looked up in order to be removed is found by its name
  among the sections, but by its physical address and its size among the program headers, and
  there the first such region is taken.
* `imageOf_clear_twin`: for a region that is `Removable` this does no harm, and removing its
  headers is removing it from the list.
-/

namespace SafelinuxDbg.Minidump

open CMemory

/-! ## Placing regions in the file -/

section Place

variable {α : Type*}

/-- The records of regions placed one behind the other from `off` on. -/
def place (f : UInt64 → MdRegion → α) : UInt64 → List MdRegion → List α
  | _, [] => []
  | off, e :: R => f off e :: place f (off + e.size) R

/-- Where the regions end. -/
def endOffset : UInt64 → List MdRegion → UInt64
  | off, [] => off
  | off, e :: R => endOffset (off + e.size) R

variable (f : UInt64 → MdRegion → α)

@[simp] theorem place_length (off : UInt64) (R : List MdRegion) :
    (place f off R).length = R.length := by
  induction R generalizing off with
  | nil => rfl
  | cons e R ih => simp [place, ih]

theorem place_append (off : UInt64) (R S : List MdRegion) :
    place f off (R ++ S) = place f off R ++ place f (endOffset off R) S := by
  induction R generalizing off with
  | nil => rfl
  | cons e R ih => simp [place, endOffset, ih]

theorem endOffset_append (off : UInt64) (R S : List MdRegion) :
    endOffset off (R ++ S) = endOffset (endOffset off R) S := by
  induction R generalizing off with
  | nil => rfl
  | cons e R ih => simp [endOffset, ih]

theorem place_getElem (off : UInt64) (R : List MdRegion) {i : Nat} (hi : i < R.length)
    (hp : i < (place f off R).length) :
    (place f off R)[i] = f (endOffset off (R.take i)) R[i] := by
  induction R generalizing off i with
  | nil => exact absurd hi (Nat.not_lt_zero i)
  | cons e R ih =>
    cases i with
    | zero => rfl
    | succ i =>
      simp only [place, List.getElem_cons_succ, List.take_succ_cons, endOffset]
      exact ih (off + e.size) (by simpa using hi) _

/-- Placing everything `s` lower. -/
theorem place_lower {lower : UInt64 → α → α} (hl : ∀ o s e, lower s (f (o + s) e) = f o e)
    (off s : UInt64) (R : List MdRegion) : (place f (off + s) R).map (lower s) = place f off R := by
  induction R generalizing off with
  | nil => rfl
  | cons e R ih =>
    rw [place, place, List.map_cons, hl]
    have hcomm : off + s + e.size = off + e.size + s := by
      rw [UInt64.add_assoc, UInt64.add_comm s, ← UInt64.add_assoc]
    rw [hcomm, ih]

theorem endOffset_lower (off s : UInt64) (R : List MdRegion) :
    endOffset (off + s) R = endOffset off R + s := by
  induction R generalizing off with
  | nil => rfl
  | cons e R ih =>
    have hcomm : off + s + e.size = off + e.size + s := by
      rw [UInt64.add_assoc, UInt64.add_comm s, ← UInt64.add_assoc]
    rw [endOffset, endOffset, hcomm, ih]

/-- **Taking a region out** lowers those behind it. -/
theorem place_eraseIdx {lower : UInt64 → α → α} (hl : ∀ o s e, lower s (f (o + s) e) = f o e)
    (off : UInt64) (R : List MdRegion) {i : Nat} (hi : i < R.length) :
    place f off (R.eraseIdx i) =
      (place f off R).take i ++ ((place f off R).drop (i + 1)).map (lower R[i].size) := by
  induction R generalizing off i with
  | nil => exact absurd hi (Nat.not_lt_zero i)
  | cons e R ih =>
    cases i with
    | zero => simp [place, place_lower f hl]
    | succ i =>
      have hlt : i < R.length := by simpa using hi
      simp [place, ih (off + e.size) hlt]

theorem endOffset_eraseIdx (off : UInt64) (R : List MdRegion) {i : Nat} (hi : i < R.length) :
    endOffset off (R.eraseIdx i) = endOffset off R - R[i].size := by
  induction R generalizing off i with
  | nil => exact absurd hi (Nat.not_lt_zero i)
  | cons e R ih =>
    cases i with
    | zero =>
      simp only [List.eraseIdx_cons_zero, List.getElem_cons_zero, endOffset]
      rw [endOffset_lower, UInt64.add_sub_cancel]
    | succ i =>
      have hlt : i < R.length := by simpa using hi
      simp [endOffset, ih (off + e.size) hlt]

/-- Changing a region without changing its size changes its record only. -/
theorem place_modify {g : MdRegion → MdRegion} {h : α → α} (hs : ∀ e, (g e).size = e.size)
    (hf : ∀ o e, f o (g e) = h (f o e)) (off : UInt64) (R : List MdRegion) (i : Nat) :
    place f off (R.modify i g) = (place f off R).modify i h := by
  induction R generalizing off i with
  | nil => simp [place]
  | cons e R ih =>
    cases i with
    | zero => simp [place, hs, hf]
    | succ i => simp [place, ih]

theorem endOffset_modify {g : MdRegion → MdRegion} (hs : ∀ e, (g e).size = e.size)
    (off : UInt64) (R : List MdRegion) (i : Nat) :
    endOffset off (R.modify i g) = endOffset off R := by
  induction R generalizing off i with
  | nil => simp
  | cons e R ih =>
    cases i with
    | zero => simp [endOffset, hs]
    | succ i => simp [endOffset, ih]

/-- A search that does not look at the offset searches the regions. -/
theorem findIdx?_place {p : α → Bool} {q : MdRegion → Bool} (hp : ∀ o e, p (f o e) = q e)
    (off : UInt64) (R : List MdRegion) : (place f off R).findIdx? p = R.findIdx? q := by
  induction R generalizing off with
  | nil => rfl
  | cons e R ih => rw [place, List.findIdx?_cons, List.findIdx?_cons, hp, ih]

theorem map_place {β : Type*} {g : α → β} {q : MdRegion → β} (hg : ∀ o e, g (f o e) = q e)
    (off : UInt64) (R : List MdRegion) : (place f off R).map g = R.map q := by
  induction R generalizing off with
  | nil => rfl
  | cons e R ih => rw [place, List.map_cons, List.map_cons, hg, ih]

/-- Without overflow the end is the sum of the sizes. -/
theorem endOffset_toNat (off : UInt64) (R : List MdRegion)
    (h : off.toNat + (R.map (fun e => e.size.toNat)).sum < 2 ^ 64) :
    (endOffset off R).toNat = off.toNat + (R.map (fun e => e.size.toNat)).sum := by
  induction R generalizing off with
  | nil => simp [endOffset]
  | cons e R ih =>
    rw [List.map_cons, List.sum_cons] at h
    have hadd : (off + e.size).toNat = off.toNat + e.size.toNat := by
      rw [UInt64.toNat_add, Nat.mod_eq_of_lt (by omega)]
    rw [endOffset, ih _ (by omega), hadd, List.map_cons, List.sum_cons]
    omega

end Place

/-! ## The headers of a list of regions -/

def regionSection (off : UInt64) (e : MdRegion) : Section := ⟨e.name, e.virtAddr, off, e.size⟩

def regionProgram (off : UInt64) (e : MdRegion) : Phdr :=
  ⟨off, e.virtAddr, e.physAddr, e.size, e.size⟩

/-- Where the first region is placed. -/
def startOffset : UInt64 := UInt64.ofNat elfhSize

/-- The header buffer for the regions `R`. -/
def imageOf (addrs : HeaderAddrs) (R : List MdRegion) : Image where
  sections := (Image.initial addrs).sections ++ place regionSection startOffset R
  programs := (Image.initial addrs).programs ++ place regionProgram startOffset R
  elfOffset := endOffset startOffset R

section ImageOf

variable (addrs : HeaderAddrs) (R : List MdRegion)

theorem initial_sections_length : (Image.initial addrs).sections.length = 4 := rfl

theorem initial_programs_length : (Image.initial addrs).programs.length = 1 := rfl

/-- The fixed sections lie inside of the header buffer. -/
theorem initial_offset_lt {s : Section} (hs : s ∈ (Image.initial addrs).sections) :
    s.offset.toNat < elfhSize := by
  simp only [Image.initial, List.mem_cons, List.not_mem_nil, or_false] at hs
  rcases hs with rfl | rfl | rfl | rfl
  · show (0 : UInt64).toNat < elfhSize
    decide
  · show (UInt64.ofNat strtblOff).toNat < elfhSize
    decide
  · show (0 : UInt64).toNat < elfhSize
    decide
  · show (UInt64.ofNat (strtblOff + maxStrtblSize)).toNat < elfhSize
    decide

theorem imageOf_nil : imageOf addrs [] = Image.initial addrs := by
  simp [imageOf, place, endOffset, Image.initial, startOffset]

theorem imageOf_sections_length : (imageOf addrs R).sections.length = R.length + 4 := by
  simp [imageOf, initial_sections_length, Nat.add_comm]

theorem imageOf_programs_length : (imageOf addrs R).programs.length = R.length + 1 := by
  simp [imageOf, initial_programs_length, Nat.add_comm]

theorem imageOf_add (e : MdRegion) : imageOf addrs (R ++ [e]) = (imageOf addrs R).add e := by
  simp [imageOf, Image.add, place_append, endOffset_append, place, endOffset, regionSection,
    regionProgram]

theorem imageOf_update (n : Nat) (e : MdRegion) :
    imageOf addrs (R.modify n (MdRegion.moveTo e)) = (imageOf addrs R).update n e := by
  have hsec := place_modify regionSection (g := MdRegion.moveTo e)
    (h := fun s => { s with addr := e.virtAddr }) (fun _ => rfl) (fun _ _ => rfl) startOffset R n
  have hprog := place_modify regionProgram (g := MdRegion.moveTo e)
    (h := Phdr.setAddrs e.virtAddr e.physAddr) (fun _ => rfl) (fun _ _ => rfl) startOffset R n
  have hend := endOffset_modify (g := MdRegion.moveTo e) (fun _ => rfl) startOffset R n
  simp only [imageOf, Image.update, hsec, hprog, hend, Image.mk.injEq, and_true]
  exact ⟨rfl, rfl⟩

theorem imageOf_sections_getElem {i : Nat} (hi : i < R.length)
    (hs : i + 4 < (imageOf addrs R).sections.length) :
    (imageOf addrs R).sections[i + 4] = regionSection (endOffset startOffset (R.take i)) R[i] := by
  simp only [imageOf]
  rw [List.getElem_append_right (by rw [initial_sections_length]; omega)]
  simp only [initial_sections_length, Nat.add_sub_cancel]
  exact place_getElem _ _ _ hi _

theorem imageOf_programs_getElem {i : Nat} (hi : i < R.length)
    (hp : i + 1 < (imageOf addrs R).programs.length) :
    (imageOf addrs R).programs[i + 1] = regionProgram (endOffset startOffset (R.take i)) R[i] := by
  simp only [imageOf]
  rw [List.getElem_append_right (by rw [initial_programs_length]; omega)]
  simp only [initial_programs_length, Nat.add_sub_cancel]
  exact place_getElem _ _ _ hi _

theorem imageOf_names :
    (imageOf addrs R).names = (Image.initial addrs).names ++ R.map MdRegion.name := by
  rw [Image.names, imageOf, List.map_append,
    map_place regionSection (q := MdRegion.name) (fun _ _ => rfl), Image.names]

/-- Removing section `i` and program header `j` of the regions, in terms of the placed lists. -/
theorem imageOf_clear_eq (i j : Nat) (esize : UInt64) :
    (imageOf addrs R).clear (j + 1) (i + 4) esize =
      ⟨(Image.initial addrs).sections ++ ((place regionSection startOffset R).take i ++
          ((place regionSection startOffset R).drop (i + 1)).map (Image.lowerSection esize)),
        (Image.initial addrs).programs ++ ((place regionProgram startOffset R).take j ++
          ((place regionProgram startOffset R).drop (j + 1)).map (Image.lowerProgram esize)),
        endOffset startOffset R - esize⟩ := by
  rfl

theorem lowerSection_regionSection (o s : UInt64) (e : MdRegion) :
    Image.lowerSection s (regionSection (o + s) e) = regionSection o e := by
  simp [Image.lowerSection, regionSection]

theorem lowerProgram_regionProgram (o s : UInt64) (e : MdRegion) :
    Image.lowerProgram s (regionProgram (o + s) e) = regionProgram o e := by
  simp [Image.lowerProgram, regionProgram]

end ImageOf

/-! ## Looking a region up -/

/-- Whether a region has the physical address and the size of `e`. -/
def samePlace (e r : MdRegion) : Bool := r.physAddr == e.physAddr && r.size == e.size

/-- The first region with the physical address and the size of `e`. -/
def firstTwin (R : List MdRegion) (e : MdRegion) : Nat := R.findIdx (samePlace e)

theorem size_ne_six {e : MdRegion} (hs : e.size % 4 = 0) : (6 : UInt64) ≠ e.size := by
  rintro h
  rw [← h] at hs
  exact absurd hs (by decide)

section Lookup

variable {cfg : Config} (addrs : HeaderAddrs) {R : List MdRegion} {e : MdRegion}

theorem findProgram_imageOf (hsize : e.size % 4 = 0) :
    (imageOf addrs R).findProgram e = (R.findIdx? (samePlace e)).map (· + 1) := by
  have hbanner : ((Image.initial addrs).programs.findIdx?
      (fun p => p.pPaddr == e.physAddr && p.pMemsz == e.size)) = none := by
    rw [List.findIdx?_eq_none_iff]
    intro p hp
    rw [List.mem_singleton.mp hp, Bool.and_eq_false_iff]
    right
    exact beq_eq_false_iff_ne.mpr (size_ne_six hsize)
  rw [Image.findProgram, imageOf, List.findIdx?_append, hbanner, Option.none_or,
    initial_programs_length, findIdx?_place regionProgram (q := samePlace e) (fun _ _ => rfl)]

theorem findSection_imageOf (hv : validateRegion cfg e = .ok ()) :
    (imageOf addrs R).findSection e = (R.findIdx? (fun r => r.name == e.name &&
      (r.virtAddr == e.virtAddr && r.size == e.size))).map (· + 4) := by
  obtain ⟨hlen, hvirt, hsize⟩ := validateRegion_eq_ok.mp hv
  have hmax := cfg.maxNameLength_le
  have hfixed : ((Image.initial addrs).sections.findIdx? (fun s => s.name == e.name &&
      (s.addr == e.virtAddr && s.size == e.size))) = none := by
    rw [List.findIdx?_eq_none_iff]
    intro s hs
    simp only [Image.initial, List.mem_cons, List.not_mem_nil, or_false] at hs
    rw [Bool.and_eq_false_iff, Bool.and_eq_false_iff]
    rcases hs with rfl | rfl | rfl | rfl
    · exact Or.inr (Or.inl (beq_eq_false_iff_ne.mpr (Ne.symm hvirt)))
    · exact Or.inr (Or.inl (beq_eq_false_iff_ne.mpr (Ne.symm hvirt)))
    · left
      apply beq_eq_false_iff_ne.mpr
      intro hname
      have hlong : (CStr.ofString "minidump_table").strlen = 14 := by decide
      rw [← hname] at hlen
      simp only at hlen
      omega
    · exact Or.inr (Or.inr (beq_eq_false_iff_ne.mpr (size_ne_six hsize)))
  rw [Image.findSection, imageOf, List.findIdx?_append, hfixed, Option.none_or,
    initial_sections_length, findIdx?_place regionSection
      (q := fun r => r.name == e.name && (r.virtAddr == e.virtAddr && r.size == e.size))
      (fun _ _ => rfl)]

theorem firstTwin_spec {i : Nat} (hi : i < R.length) :
    firstTwin R R[i] ≤ i ∧
      (∀ (h : firstTwin R R[i] < R.length), samePlace R[i] R[firstTwin R R[i]] = true) ∧
      ∀ k (hk : k < R.length), k < firstTwin R R[i] → samePlace R[i] R[k] = false := by
  have hself : samePlace R[i] R[i] = true := by simp [samePlace]
  refine ⟨?_, ?_, ?_⟩
  · by_contra hlt
    exact Bool.false_ne_true ((List.not_of_lt_findIdx (by rw [firstTwin] at hlt; omega)).symm.trans
      hself)
  · intro h
    exact List.findIdx_getElem
  · intro k hk hlt
    exact List.not_of_lt_findIdx hlt

/-- **Looking up a registered region** to remove its headers: its section, and the program
header of the first region with its physical address and size, if the two have one offset. -/
theorem lookup_imageOf (hnd : (R.map MdRegion.name).Nodup) {i : Nat} (hi : i < R.length)
    (hv : validateRegion cfg R[i] = .ok ()) :
    (imageOf addrs R).lookup R[i] =
      if endOffset startOffset (R.take i) = endOffset startOffset (R.take (firstTwin R R[i])) then
        some (firstTwin R R[i] + 1, i + 4)
      else none := by
  obtain ⟨hle, -, -⟩ := firstTwin_spec hi
  have hsec : R.findIdx? (fun r => r.name == R[i].name &&
      (r.virtAddr == R[i].virtAddr && r.size == R[i].size)) = some i := by
    rw [List.findIdx?_eq_some_iff_getElem]
    refine ⟨hi, by simp, ?_⟩
    intro j hj
    simp only [Bool.and_eq_true, beq_iff_eq, not_and]
    intro hname
    exact absurd (names_inj hnd (by omega) hi hname) (by omega)
  have hprog : R.findIdx? (samePlace R[i]) = some (firstTwin R R[i]) := by
    rw [List.findIdx?_eq_some_iff_findIdx_eq]
    exact ⟨by omega, rfl⟩
  have hs : i + 4 < (imageOf addrs R).sections.length := by
    rw [imageOf_sections_length]
    omega
  have hp : firstTwin R R[i] + 1 < (imageOf addrs R).programs.length := by
    rw [imageOf_programs_length]
    omega
  have hsize := (validateRegion_eq_ok.mp hv).2.2
  simp only [Image.lookup, findProgram_imageOf addrs hsize, findSection_imageOf addrs hv, hsec, hprog,
    Option.map_some, List.getElem?_eq_getElem hs, List.getElem?_eq_getElem hp,
    imageOf_sections_getElem addrs R hi hs, imageOf_programs_getElem addrs R (show _ < R.length by omega) hp,
    Option.some.injEq]
  rfl

end Lookup

/-! ## Twins -/

theorem eraseIdx_eq_iff {α : Type*} {l : List α} {i j : Nat} (hji : j ≤ i) :
    l.eraseIdx j = l.eraseIdx i ↔ ∀ k, j ≤ k → k < i → l[k]? = l[k + 1]? := by
  constructor
  · intro h k h1 h2
    have hk : (l.eraseIdx j)[k]? = (l.eraseIdx i)[k]? := by rw [h]
    rw [List.getElem?_eraseIdx, List.getElem?_eraseIdx, if_neg (by omega), if_pos h2] at hk
    exact hk.symm
  · intro h
    apply List.ext_getElem?
    intro k
    rw [List.getElem?_eraseIdx, List.getElem?_eraseIdx]
    by_cases h1 : k < j
    · rw [if_pos h1, if_pos (by omega)]
    · rw [if_neg h1]
      by_cases h2 : k < i
      · rw [if_pos h2, h k (by omega) h2]
      · rw [if_neg h2]

/-- Removing both headers of region `i` is removing it from the list. -/
theorem imageOf_clear_self (addrs : HeaderAddrs) {R : List MdRegion} {i : Nat} (hi : i < R.length) :
    (imageOf addrs R).clear (i + 1) (i + 4) R[i].size = imageOf addrs (R.eraseIdx i) := by
  rw [imageOf_clear_eq, imageOf, place_eraseIdx _ lowerSection_regionSection _ _ hi,
    place_eraseIdx _ lowerProgram_regionProgram _ _ hi, endOffset_eraseIdx _ _ hi]

/-- What a program header says about a region. -/
def MdRegion.load (e : MdRegion) : UInt64 × UInt64 × UInt64 := (e.virtAddr, e.physAddr, e.size)

theorem place_congr {R S : List MdRegion} (h : R.map MdRegion.load = S.map MdRegion.load)
    (off : UInt64) : place regionProgram off R = place regionProgram off S := by
  induction R generalizing off S with
  | nil =>
    rw [List.map_nil] at h
    rw [List.map_eq_nil_iff.mp h.symm]
  | cons e R ih =>
    cases S with
    | nil => cases h
    | cons e' S =>
      rw [List.map_cons, List.map_cons, List.cons.injEq, MdRegion.load, MdRegion.load,
        Prod.mk.injEq, Prod.mk.injEq] at h
      obtain ⟨⟨h1, h2, h3⟩, hrest⟩ := h
      rw [place, place, regionProgram, regionProgram, h1, h2, h3, ih hrest]

theorem endOffset_replicate {L : List MdRegion} {s : UInt64} (h : ∀ e ∈ L, e.size = s)
    (off : UInt64) : endOffset off L = off + UInt64.ofNat (L.length * s.toNat) := by
  induction L generalizing off with
  | nil => simp [endOffset]
  | cons e L ih =>
    rw [endOffset, ih (fun x hx => h x (List.mem_cons_of_mem _ hx)), h e List.mem_cons_self,
      List.length_cons, Nat.succ_mul, UInt64.ofNat_add, UInt64.ofNat_toNat, UInt64.add_assoc,
      UInt64.add_comm s]

/-- **When a registered region can be removed.**  From the first region with its physical
address and size up to itself all regions have its addresses and size, and their sizes add up
to nothing in 64 bits.  When there is no earlier such region this asks for nothing. -/
structure Removable (R : List MdRegion) (i : Nat) (hi : i < R.length) : Prop where
  block : ∀ k (hk : k < R.length), firstTwin R R[i] ≤ k → k ≤ i → R[k].load = R[i].load
  wraps : (i - firstTwin R R[i]) * R[i].size.toNat % 2 ^ 64 = 0

theorem uint64_add_eq_self_iff (a b : UInt64) : a + b = a ↔ b = 0 := by
  constructor
  · intro h
    have hsub := UInt64.add_sub_cancel b a
    rw [UInt64.add_comm, h, UInt64.sub_self] at hsub
    exact hsub.symm
  · rintro rfl
    exact UInt64.add_zero a

/-- In a block of twins the offsets agree when the sizes in between add up to nothing. -/
theorem offsets_eq_iff {R : List MdRegion} {i : Nat} (hi : i < R.length)
    (hblock : ∀ k (hk : k < R.length), firstTwin R R[i] ≤ k → k ≤ i → R[k].load = R[i].load) :
    endOffset startOffset (R.take i) = endOffset startOffset (R.take (firstTwin R R[i])) ↔
      (i - firstTwin R R[i]) * R[i].size.toNat % 2 ^ 64 = 0 := by
  obtain ⟨hle, -, -⟩ := firstTwin_spec hi
  have hsplit : R.take i = R.take (firstTwin R R[i]) ++
      (R.drop (firstTwin R R[i])).take (i - firstTwin R R[i]) := by
    rw [← List.take_add]
    congr 1
    omega
  have hlen : ((R.drop (firstTwin R R[i])).take (i - firstTwin R R[i])).length =
      i - firstTwin R R[i] := by
    rw [List.length_take, List.length_drop]
    omega
  have hsame : ∀ e ∈ (R.drop (firstTwin R R[i])).take (i - firstTwin R R[i]),
      e.size = R[i].size := by
    intro e he
    obtain ⟨k, hk, rfl⟩ := List.getElem_of_mem he
    rw [hlen] at hk
    rw [List.getElem_take, List.getElem_drop]
    exact congrArg (fun x => x.2.2)
      (hblock (firstTwin R R[i] + k) (by omega) (by omega) (by omega))
  rw [hsplit, endOffset_append, endOffset_replicate hsame, hlen, uint64_add_eq_self_iff,
    ← UInt64.toNat_inj, UInt64.toNat_ofNat']
  rfl

/-- **Removing the headers of a removable region** is removing it from the list. -/
theorem imageOf_clear_twin (addrs : HeaderAddrs) {R : List MdRegion} {i : Nat} (hi : i < R.length)
    (hr : Removable R i hi) :
    (imageOf addrs R).clear (firstTwin R R[i] + 1) (i + 4) R[i].size =
      imageOf addrs (R.eraseIdx i) := by
  obtain ⟨hle, -, -⟩ := firstTwin_spec hi
  have hj : firstTwin R R[i] < R.length := by omega
  have hsize : R[firstTwin R R[i]].size = R[i].size :=
    congrArg (fun x => x.2.2) (hr.block _ hj le_rfl hle)
  have hprog : (place regionProgram startOffset R).take (firstTwin R R[i]) ++
      ((place regionProgram startOffset R).drop (firstTwin R R[i] + 1)).map
        (Image.lowerProgram R[i].size) = place regionProgram startOffset (R.eraseIdx i) := by
    rw [← hsize, ← place_eraseIdx _ lowerProgram_regionProgram _ _ hj]
    apply place_congr
    rw [← List.eraseIdx_map, ← List.eraseIdx_map, eraseIdx_eq_iff hle]
    intro k h1 h2
    rw [List.getElem?_map, List.getElem?_map, List.getElem?_eq_getElem (by omega),
      List.getElem?_eq_getElem (by omega), Option.map_some, Option.map_some,
      hr.block k (by omega) h1 (by omega), hr.block (k + 1) (by omega) (by omega) (by omega)]
  rw [imageOf_clear_eq, hprog, imageOf, place_eraseIdx _ lowerSection_regionSection _ _ hi,
    endOffset_eraseIdx _ _ hi]

theorem lookup_of_removable {cfg : Config} (addrs : HeaderAddrs) {R : List MdRegion}
    (hnd : (R.map MdRegion.name).Nodup) {i : Nat} (hi : i < R.length)
    (hv : validateRegion cfg R[i] = .ok ()) (hr : Removable R i hi) :
    (imageOf addrs R).lookup R[i] = some (firstTwin R R[i] + 1, i + 4) := by
  rw [lookup_imageOf addrs hnd hi hv, if_pos ((offsets_eq_iff hi hr.block).mpr hr.wraps)]

end SafelinuxDbg.Minidump
