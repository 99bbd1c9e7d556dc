import SafelinuxDbg.Minidump.Refinement

/-!
# The tables and the headers agree

As long as the clients keep to the rules (`ProperCall`) and their regions fit in the file, the
driver's table, the region table, the section headers and the program headers describe the same
regions, in one order, with file offsets and section names laid end to end (`Consistent`).

The file offset is all that `msm_minidump_clear_headers` has to tell two regions with one
physical address and size apart, so regions of size zero, or offsets that wrap around, would let
it take out another region's program header.  Sizes that are positive and do not overflow rule
this out (`removable_of_fits`).
-/

namespace SafelinuxDbg.Minidump

open CMemory

/-- **The four structures describe the same regions.** -/
structure Consistent (d : Driver) : Prop where
  count : d.minidumpTable.mdSsToc.ssRegionCount = d.numRegions + 1
  phnum : ePhnum d.minidumpElfheader.ehdr = d.numRegions + 1
  shnum : eShnum d.minidumpElfheader.ehdr = d.numRegions + 4
  describes : ∀ i, i < d.numRegions → Describes d i (d.minidumpTable.entry i)
  oneOffset : ∀ i, i < d.numRegions →
    shOffset d.minidumpElfheader (i + 4) = pOffset d.minidumpElfheader (i + 1)
  first : 0 < d.numRegions → (shOffset d.minidumpElfheader 4).toNat = elfhSize
  contiguous : ∀ i, i + 1 < d.numRegions →
    (shOffset d.minidumpElfheader (i + 5)).toNat =
      (shOffset d.minidumpElfheader (i + 4)).toNat + (d.minidumpTable.entry i).size.toNat
  last : ∀ i, i + 1 = d.numRegions →
    d.minidumpElfheader.elfOffset.toNat =
      (shOffset d.minidumpElfheader (i + 4)).toNat + (d.minidumpTable.entry i).size.toNat
  unused : d.numRegions = 0 → d.minidumpElfheader.elfOffset.toNat = elfhSize
  /-- the section names are laid end to end, in section order, and nothing else is there -/
  strtab : ∃ names : List CStr, names.length = d.numRegions + 4 ∧ names.drop 4 = entryNames d ∧
    Packed d.minidumpElfheader.ehdr strtblOff names ∧
    d.minidumpElfheader.strtableIdx.toNat = packedLen names ∧
    ∀ k, k < d.numRegions + 4 → (read32 d.minidumpElfheader.ehdr
      (elfSection d.minidumpElfheader.ehdr k + Off.shName)).toNat = packedLen (names.take k)

/-- Every size is positive, the file fits in 64 bits and there are at most 197 regions. -/
def Fits (R : List MdRegion) : Prop :=
  R.length ≤ 197 ∧ (∀ e ∈ R, 0 < e.size) ∧
    elfhSize + (R.map (fun e => e.size.toNat)).sum < 2 ^ 64

instance (R : List MdRegion) : Decidable (Fits R) := inferInstanceAs (Decidable (_ ∧ _ ∧ _))

theorem fits_nil : Fits [] := ⟨by decide, fun _ h => absurd h List.not_mem_nil, by decide⟩

/-- Calls that keep to the rules: an update is accepted and passes the number that was returned
for its name; a removal is accepted and passes what is recorded for a region; and the regions
fit afterwards. -/
def ProperCall (cfg : Config) (s : Client) (c : Call) : Prop :=
  Fits (registered (s.step cfg c).driver) ∧
    match c with
    | .add _ _ => True
    | .update regno e => s.issued e.name = some regno ∧
        (msmMinidumpUpdateRegion cfg true regno e s.driver).2 = .ok ()
    | .remove e => (∃ r ∈ registered s.driver, e.SameRegion r) ∧
        (msmMinidumpRemoveRegion true e s.driver).2 = .ok ()

/-! ## Offsets -/

theorem startOffset_toNat : startOffset.toNat = elfhSize := by
  rw [startOffset, elfhSize_eq]
  rfl

theorem sum_take_succ (R : List MdRegion) {i : Nat} (hi : i < R.length) :
    ((R.take (i + 1)).map (fun e => e.size.toNat)).sum =
      ((R.take i).map (fun e => e.size.toNat)).sum + R[i].size.toNat := by
  rw [List.take_succ_eq_append_getElem hi, List.map_append, List.sum_append]
  simp

theorem sum_take_mono (R : List MdRegion) {i j : Nat} (hij : i ≤ j) :
    ((R.take i).map (fun e => e.size.toNat)).sum ≤
      ((R.take j).map (fun e => e.size.toNat)).sum := by
  obtain ⟨k, rfl⟩ : ∃ k, j = i + k := ⟨j - i, by omega⟩
  rw [List.take_add, List.map_append, List.sum_append]
  omega

theorem offset_toNat {R : List MdRegion} (hf : Fits R) (i : Nat) :
    (endOffset startOffset (R.take i)).toNat =
      elfhSize + ((R.take i).map (fun e => e.size.toNat)).sum := by
  have hle := sum_take_mono R (Nat.le_add_right i R.length)
  rw [List.take_of_length_le (Nat.le_add_left _ _)] at hle
  rw [endOffset_toNat, startOffset_toNat]
  rw [startOffset_toNat]
  have := hf.2.2
  omega

/-- Among regions that fit, an offset tells a region from every other. -/
theorem offset_injective {R : List MdRegion} (hf : Fits R) {i j : Nat} (hi : i < R.length)
    (hj : j < R.length)
    (h : endOffset startOffset (R.take i) = endOffset startOffset (R.take j)) : i = j := by
  have hlt : ∀ {k l : Nat}, k < R.length → k < l →
      ((R.take k).map (fun e => e.size.toNat)).sum <
        ((R.take l).map (fun e => e.size.toNat)).sum := by
    intro k l hk hkl
    have hpos := hf.2.1 _ (List.getElem_mem hk)
    rw [UInt64.lt_iff_toNat_lt] at hpos
    have hzero : (0 : UInt64).toNat = 0 := rfl
    have hsucc := sum_take_succ R hk
    have hmono := sum_take_mono R (show k + 1 ≤ l from hkl)
    omega
  have hsum := congrArg UInt64.toNat h
  rw [offset_toNat hf, offset_toNat hf] at hsum
  rcases Nat.lt_trichotomy i j with hij | hij | hij
  · have := hlt hi hij
    omega
  · exact hij
  · have := hlt hj hij
    omega

/-- **What a lookup finds**, for any descriptor of a size that regions can have: both headers are
those of one region, and the descriptor is the region's. -/
theorem lookup_imageOf_some (addrs : HeaderAddrs) {R : List MdRegion} (hf : Fits R) {e : MdRegion}
    (hsize : e.size % 4 = 0) {pidx shidx : Nat}
    (h : (imageOf addrs R).lookup e = some (pidx, shidx)) :
    ∃ i, ∃ hi : i < R.length, pidx = i + 1 ∧ shidx = i + 4 ∧ e.SameRegion R[i] := by
  obtain ⟨hprog, hsec, hoff⟩ := Image.lookup_eq_some.mp h
  rw [findProgram_imageOf addrs hsize] at hprog
  obtain ⟨j, hfound, rfl⟩ := Option.map_eq_some_iff.mp hprog
  obtain ⟨hj, hplace, -⟩ := List.findIdx?_eq_some_iff_getElem.mp hfound
  rw [samePlace, Bool.and_eq_true, beq_iff_eq, beq_iff_eq] at hplace
  have hp : j + 1 < (imageOf addrs R).programs.length := by
    rw [imageOf_programs_length]
    omega
  rw [List.getElem?_eq_getElem hp, imageOf_programs_getElem addrs R hj hp, Option.map_some] at hoff
  obtain ⟨hs, hmatch, -⟩ := List.findIdx?_eq_some_iff_getElem.mp hsec
  rw [List.getElem?_eq_getElem hs, Option.map_some, Option.some.injEq] at hoff
  -- the offsets of the four fixed sections are below those of all regions
  have hfixed : 4 ≤ shidx := by
    by_contra hlt
    have hbound := congrArg UInt64.toNat hoff
    simp only [regionProgram] at hbound
    rw [offset_toNat hf] at hbound
    have hlow : ((imageOf addrs R).sections[shidx]).offset.toNat < elfhSize := by
      simp only [imageOf]
      rw [List.getElem_append_left (by rw [initial_sections_length]; omega)]
      exact initial_offset_lt addrs (List.getElem_mem _)
    omega
  obtain ⟨i, rfl⟩ : ∃ i, shidx = i + 4 := ⟨shidx - 4, by omega⟩
  have hi : i < R.length := by
    rw [imageOf_sections_length] at hs
    omega
  rw [imageOf_sections_getElem addrs R hi hs] at hoff hmatch
  have hij : i = j := offset_injective hf hi hj hoff
  subst hij
  simp only [regionSection, Bool.and_eq_true, beq_iff_eq] at hmatch
  obtain ⟨hname, hvirt, hsz⟩ := hmatch
  exact ⟨i, hi, rfl, rfl, ⟨hname.symm, hvirt.symm, hplace.1.symm, hsz.symm⟩⟩

/-- So a region that fits is removable. -/
theorem removable_of_fits {R : List MdRegion} (hf : Fits R) {i : Nat} (hi : i < R.length)
    (hoff : endOffset startOffset (R.take i) =
      endOffset startOffset (R.take (firstTwin R R[i]))) : Removable R i hi := by
  obtain ⟨hle, -, -⟩ := firstTwin_spec hi
  have heq : firstTwin R R[i] = i := (offset_injective hf hi (by omega) hoff).symm
  constructor
  · intro k hk h1 h2
    obtain rfl : k = i := by omega
    rfl
  · rw [heq, Nat.sub_self, Nat.zero_mul]
    rfl

/-- **A refined registry that fits is consistent.** -/
theorem Refines.consistent {cfg : Config} {addrs : HeaderAddrs} {d : Driver} {r : Registry cfg}
    (h : Refines addrs d r) (hf : Fits r.regions) : Consistent d := by
  have hnum := h.tables.num
  have hoffset : ∀ i, i < d.numRegions → (shOffset d.minidumpElfheader (i + 4)).toNat =
      elfhSize + ((r.regions.take i).map (fun e => e.size.toNat)).sum := by
    intro i hi
    rw [(h.elf.offsets (by omega)).1, offset_toNat hf]
  have hend : d.minidumpElfheader.elfOffset.toNat =
      elfhSize + (r.regions.map (fun e => e.size.toNat)).sum := by
    have htake := offset_toNat hf r.regions.length
    rw [List.take_length] at htake
    rw [h.elf.elfOffset]
    exact htake
  constructor
  · rw [h.tables.filled.count, hnum]
  · rw [h.elf.phnum, imageOf_programs_length, hnum]
  · rw [h.elf.shnum, imageOf_sections_length, hnum]
  · intro i hi
    rw [h.tables.entry_eq (by omega)]
    exact h.describes (by omega)
  · intro i hi
    obtain ⟨h1, h2⟩ := h.elf.offsets (show i < r.regions.length by omega)
    rw [h1, h2]
  · intro hpos
    rw [hoffset 0 hpos]
    simp
  · intro i hi
    rw [hoffset (i + 1) hi, hoffset i (by omega), sum_take_succ _ (show i < _ by omega),
      h.tables.entry_eq (show i < _ by omega)]
    omega
  · intro i hi
    have hlt : i < r.regions.length := by omega
    have hall : r.regions.take (i + 1) = r.regions := List.take_of_length_le (by omega)
    have hsucc := sum_take_succ r.regions hlt
    rw [hall] at hsucc
    rw [hend, hoffset i (by omega), hsucc, h.tables.entry_eq hlt]
    omega
  · intro hzero
    have hnil : r.regions = [] := List.eq_nil_of_length_eq_zero (by omega)
    rw [hend, hnil]
    simp
  · have hlen := imageOf_sections_length addrs r.regions
    have hroom := h.elf.room
    have hpl := h.elf.packedLen_le
    refine ⟨(imageOf addrs r.regions).names, ?_, ?_, h.elf.packed, ?_, ?_⟩
    · rw [Image.names_length, hlen, hnum]
    · rw [h.tables.names.1, imageOf_names]
      exact List.drop_left' rfl
    · rw [h.elf.strtableIdx, UInt64.toNat_ofNat', Nat.mod_eq_of_lt (by omega)]
    · intro k hk
      have hle := packedLen_take_le (imageOf addrs r.regions).names k
      rw [h.elf.elfSection_eq, (h.elf.shdr_fields (show k < _ by omega)).1, UInt32.toNat_ofNat',
        Nat.mod_eq_of_lt (by omega)]

/-! ## Every run -/

section Runs

variable {cfg : Config} {p : Platform}

/-- Among regions that fit, every proper call removes only what is removable. -/
theorem removableCall_of_proper {s : Client} (h : HoldsRegistry cfg p s)
    (hfits : Fits (registered s.driver)) {c : Call} (hc : ProperCall cfg s c) :
    RemovableCall cfg s c := by
  obtain ⟨r, hr⟩ := h
  obtain ⟨hnext, hrules⟩ := hc
  have hnum : (s.step cfg c).driver.numRegions ≤ 197 := by
    have hlen := hnext.1
    rwa [registered, slice_length] at hlen
  cases c with
  | add alloc e => exact ⟨⟨hnum, trivial⟩, trivial⟩
  | update regno e => exact ⟨⟨hnum, hrules⟩, trivial⟩
  | remove e =>
    obtain ⟨⟨x, hx, hsame⟩, hok⟩ := hrules
    refine ⟨⟨hnum, hok⟩, ?_⟩
    simp only [registered_eq hr.tables] at hx hfits ⊢
    obtain ⟨i, hi, rfl⟩ := List.getElem_of_mem hx
    exact ⟨i, hi, hsame, removable_of_fits hfits hi (hr.offsets_of_removed hi hsame hok)⟩

theorem removable_reach {s : Client}
    (hs : (smemClients cfg p (· = [])).Reach (ProperCall cfg) s) :
    (smemClients cfg p (· = [])).Reach (RemovableCall cfg) s ∧ Fits (registered s.driver) := by
  induction hs with
  | init hinit =>
    refine ⟨.init hinit, ?_⟩
    obtain ⟨es, l, toc, rfl, hsub, hvalid, hdriver, -⟩ := smemClients_init hinit
    rw [List.map_nil, List.sublist_nil] at hsub
    subst hsub
    rw [hdriver, registered_eq (tables_smemReady hvalid)]
    exact fits_nil
  | step _ hc hstep ih =>
    obtain ⟨hreach, hfits⟩ := ih
    refine ⟨.step hreach (removableCall_of_proper (holdsRegistry_reach hreach) hfits hc) hstep, ?_⟩
    cases hstep
    exact hc.1

/-- **The tables and the headers agree** in every state that proper calls reach from a probe
with nothing waiting. -/
theorem consistent_of_proper_calls {s : Client}
    (hs : (smemClients cfg p (· = [])).Reach (ProperCall cfg) s) : Consistent s.driver := by
  obtain ⟨hreach, hfits⟩ := removable_reach hs
  obtain ⟨r, hr⟩ := holdsRegistry_reach hreach
  rw [registered_eq hr.tables] at hfits
  exact hr.consistent hfits

end Runs

/-- A client of a freshly probed driver that made the given calls. -/
def plainClient (calls : List Call) : Client :=
  calls.foldl (fun s c => s.step Config.plain c)
    ((preProbe Config.plain []).probe Config.plain (Platform.plain false))

theorem plainClient_init : (smemClients Config.plain (Platform.plain false) (· = [])).init
    (plainClient []) := ⟨rfl, rfl, [], rfl, rfl⟩

theorem consistent_of_proper_calls_kmsg :
    let kmsg : MdRegion := ⟨CStr.ofString "KMSG", 0, 0x1000, 0x81000000, 64⟩
    let kirq : MdRegion := ⟨CStr.ofString "KIRQ", 0, 0x2000, 0x82000000, 4⟩
    Consistent (plainClient [.add true kmsg, .add true kirq,
      .update 1 { kirq with physAddr := 0x83000000 }, .remove kmsg]).driver := by
  intro kmsg kirq
  refine consistent_of_proper_calls (.step (.step (.step (.step (.init plainClient_init) ?_ rfl)
    ?_ rfl) ?_ rfl) (a := .remove kmsg) ?_ rfl)
  · exact ⟨by decide +kernel, trivial⟩
  · exact ⟨by decide +kernel, trivial⟩
  · exact ⟨by decide +kernel, by decide +kernel, by decide +kernel⟩
  · exact ⟨by decide +kernel, ⟨kmsg, by decide +kernel, rfl, rfl, rfl, rfl⟩, by decide +kernel⟩

end SafelinuxDbg.Minidump
