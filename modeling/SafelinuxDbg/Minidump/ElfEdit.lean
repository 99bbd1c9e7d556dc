import SafelinuxDbg.Minidump.ElfImage

/-!
# Editing the header buffer

Each function that edits the buffer does to its bytes what the operation of `Image` says.

* `Represents.add`: `md_add_elf_header` appends a section and a program header, as long as
  there is room for one more section header before the program headers.
* `Represents.update`: `md_update_elf_header` changes the addresses of one section and one
  program header.
* `Represents.lookup`, `Represents.clear`: `msm_minidump_clear_headers` looks a section and a
  program header up and removes them, together with the section's name.
-/

namespace SafelinuxDbg.Minidump

open CMemory

/-! ## Adding a region -/

/-- The stores of `md_add_elf_header` into the section header. -/
def storeShdr (b : Nat → UInt8) (shdr : Nat) (name : UInt32) (off : UInt64) (e : MdRegion) :
    Nat → UInt8 :=
  write64 (write64 (write64 (write64 (write64 (write32 b (shdr + Off.shName) name)
    (shdr + Off.shAddr) e.virtAddr) (shdr + Off.shSize) e.size) (shdr + Off.shFlags) 1)
    (shdr + Off.shOffset) off) (shdr + Off.shEntsize) 0

/-- The stores of `md_add_elf_header` into the program header. -/
def storePhdr (b : Nat → UInt8) (phdr : Nat) (off : UInt64) (e : MdRegion) : Nat → UInt8 :=
  write32 (write64 (write64 (write64 (write64 (write64 (write32 b (phdr + Off.pType) 1)
    (phdr + Off.pOffset) off) (phdr + Off.pVaddr) e.virtAddr) (phdr + Off.pPaddr) e.physAddr)
    (phdr + Off.pMemsz) e.size) (phdr + Off.pFilesz) e.size) (phdr + Off.pFlags) 6

theorem storeShdr_outside {b : Nat → UInt8} {shdr : Nat} {name : UInt32} {off : UInt64}
    {e : MdRegion} {x : Nat} (hx : x < shdr ∨ shdr + 64 ≤ x) : storeShdr b shdr name off e x = b x := by
  simp only [storeShdr, write32, write64, Off.shName, Off.shAddr, Off.shSize, Off.shFlags,
    Off.shOffset, Off.shEntsize]
  rw [writeLE_outside _ (by omega), writeLE_outside _ (by omega), writeLE_outside _ (by omega),
    writeLE_outside _ (by omega), writeLE_outside _ (by omega), writeLE_outside _ (by omega)]

theorem storePhdr_outside {b : Nat → UInt8} {phdr : Nat} {off : UInt64} {e : MdRegion} {x : Nat}
    (hx : x < phdr ∨ phdr + 56 ≤ x) : storePhdr b phdr off e x = b x := by
  simp only [storePhdr, write32, write64, Off.pType, Off.pOffset, Off.pVaddr, Off.pPaddr,
    Off.pMemsz, Off.pFilesz, Off.pFlags]
  rw [writeLE_outside _ (by omega), writeLE_outside _ (by omega), writeLE_outside _ (by omega),
    writeLE_outside _ (by omega), writeLE_outside _ (by omega), writeLE_outside _ (by omega),
    writeLE_outside _ (by omega)]

theorem shdrAt_storeShdr (b : Nat → UInt8) (shdr : Nat) (name : UInt32) (off : UInt64)
    (e : MdRegion) :
    shdrAt (storeShdr b shdr name off e) shdr = ⟨name, e.virtAddr, off, e.size⟩ := by
  simp (disch := omega) only [shdrAt, storeShdr, write32, write64, Off.shName, Off.shAddr,
    Off.shSize, Off.shFlags, Off.shOffset, Off.shEntsize, read32_writeLE, read64_writeLE,
    read32_writeLE_self, read64_writeLE_self]

theorem phdrAt_storePhdr (b : Nat → UInt8) (phdr : Nat) (off : UInt64) (e : MdRegion) :
    phdrAt (storePhdr b phdr off e) phdr = ⟨off, e.virtAddr, e.physAddr, e.size, e.size⟩ := by
  simp (disch := omega) only [phdrAt, storePhdr, write32, write64, Off.pType, Off.pOffset,
    Off.pVaddr, Off.pPaddr, Off.pMemsz, Off.pFilesz, Off.pFlags, read64_writeLE,
    read64_writeLE_self]

/-- The section header is as stored also after the stores to the program header behind it. -/
theorem shdrAt_stores (b : Nat → UInt8) {shdr phdr : Nat} (name : UInt32) (off : UInt64)
    (e : MdRegion) (hd : shdr + 64 ≤ phdr) :
    shdrAt (storePhdr (storeShdr b shdr name off e) phdr off e) shdr =
      ⟨name, e.virtAddr, off, e.size⟩ := by
  rw [← shdrAt_storeShdr b shdr name off e]
  apply shdrAt_congr
  intro k hk
  exact storePhdr_outside (by omega)

/-- The stores of `md_add_elf_header` before it fills the two headers: the counts, the type
and the name. -/
def storeName (b : Nat → UInt8) (ns np idx : Nat) (name : CStr) : Nat → UInt8 :=
  writeBytes (write32 (write16 (write16 b 60 (UInt16.ofNat ns + 1)) 56 (UInt16.ofNat np + 1))
    (64 + 64 * ns + 4) 1) (24184 + idx) (name.bytes ++ [0])

/-- **`md_add_elf_header` with its addresses worked out.** -/
theorem Represents.mdAddElfHeader_eq {h : MdElfhdr} {img : Image} (hr : Represents h img)
    {e : MdRegion} (hname : e.name.strlen ≤ 15) :
    mdAddElfHeader e h =
      ⟨storePhdr (storeShdr (storeName h.ehdr img.sections.length img.programs.length
          (packedLen img.names) e.name) (64 + 64 * img.sections.length)
          (UInt32.ofNat (packedLen img.names)) h.elfOffset e)
          (12928 + 56 * img.programs.length) h.elfOffset e,
        h.elfOffset + e.size,
        UInt64.ofNat (packedLen img.names + (e.name.strlen + 1))⟩ := by
  have hns := hr.one_lt
  have hroom := hr.room
  have hcounts := hr.counts
  have hidx := hr.packedLen_le
  have hp1 : read64 (write16 h.ehdr 60 (UInt16.ofNat img.sections.length + 1)) 32 = 12928 := by
    rw [write16, read64_writeLE _ (by decide), hr.phoff]
  have hp2 : read16 (write16 h.ehdr 60 (UInt16.ofNat img.sections.length + 1)) 56 =
      UInt16.ofNat img.programs.length := by
    rw [write16, read16_writeLE _ (by decide), hr.read16_phnum]
  have hp3 : (UInt16.ofNat img.programs.length).toNat = img.programs.length := by
    rw [← hr.read16_phnum, ← hr.phnum]
    rfl
  -- the string table is found through headers that the first stores do not touch
  have hstr : elfStrTable (write32 (write16 (write16 h.ehdr 60
      (UInt16.ofNat img.sections.length + 1)) 56 (UInt16.ofNat img.programs.length + 1))
      (64 + 64 * img.sections.length + 4) 1) = some 24184 := by
    apply Minidump.elfStrTable_eq
    · rw [write32, read64_writeLE _ (by omega), write16, read64_writeLE _ (by decide),
        read64_writeLE _ (by decide), hr.shoff]
    · rw [write32, read16_writeLE _ (by omega), write16, read16_writeLE _ (by decide),
        read16_writeLE _ (by decide), hr.shstrndx]
    · rw [← hr.strtab_eq]
      apply congrArg
      apply shdrAt_congr
      intro k hk
      simp only [write32, write16]
      rw [writeLE_outside _ (by omega), writeLE_outside _ (by omega), writeLE_outside _ (by omega)]
  have hhdr := shdrAt_stores (storeName h.ehdr img.sections.length img.programs.length
    (packedLen img.names) e.name) (UInt32.ofNat (packedLen img.names)) h.elfOffset e
    (show 64 + 64 * img.sections.length + 64 ≤ 12928 + 56 * img.programs.length by omega)
  rw [shdrAt, Shdr.mk.injEq] at hhdr
  obtain ⟨-, -, -, hsize⟩ := hhdr
  simp only [mdAddElfHeader, MdElfhdr.store16, MdElfhdr.store32, MdElfhdr.store64, hr.shnum,
    hr.elfSection_eq, ePhnum, Minidump.elfProgram_eq hp1, hp2, hp3, hr.read16_shnum]
  simp only [storePhdr, storeShdr, storeName] at hsize ⊢
  rw [setSectionName_eq _ _ _ _ hstr hr.strtableIdx (by omega) hname]
  simp only
  rw [hsize]

theorem storeName_outside {b : Nat → UInt8} {ns np idx : Nat} {name : CStr} {x : Nat}
    (h1 : x < 56 ∨ 62 ≤ x) (h2 : x < 64 + 64 * ns ∨ 64 + 64 * ns + 64 ≤ x)
    (h3 : x < 24184 + idx ∨ 24184 + idx + (name.strlen + 1) ≤ x) :
    storeName b ns np idx name x = b x := by
  have hlen : (name.bytes ++ [0]).length = name.strlen + 1 := by
    rw [List.length_append, List.length_singleton]
    rfl
  rw [storeName, writeBytes_outside _ (by omega)]
  simp only [write32, write16]
  rw [writeLE_outside _ (by omega), writeLE_outside _ (by omega), writeLE_outside _ (by omega)]

theorem Image.names_add (img : Image) (e : MdRegion) : (img.add e).names = img.names ++ [e.name] := by
  simp [Image.names, Image.add]

theorem Image.shdrs_add (img : Image) (e : MdRegion) :
    (img.add e).shdrs =
      img.shdrs ++ [⟨UInt32.ofNat (packedLen img.names), e.virtAddr, img.elfOffset, e.size⟩] := by
  have hlast : (img.add e).shdr img.sections.length ⟨e.name, e.virtAddr, img.elfOffset, e.size⟩ =
      ⟨UInt32.ofNat (packedLen img.names), e.virtAddr, img.elfOffset, e.size⟩ := by
    rw [Image.shdr, Image.names_add, List.take_append_of_le_length (by simp),
      List.take_of_length_le (by simp)]
  have hsec : (img.add e).sections =
      img.sections ++ [⟨e.name, e.virtAddr, img.elfOffset, e.size⟩] := rfl
  rw [Image.shdrs, hsec, List.mapIdx_concat, hlast, Image.shdrs]
  congr 1
  apply List.ext_getElem (by simp)
  intro i h1 h2
  rw [List.getElem_mapIdx, List.getElem_mapIdx, Image.shdr, Image.shdr, Image.names_add,
    List.take_append_of_le_length (by rw [Image.names_length]; simp at h1; omega)]

section Added

variable {h : MdElfhdr} {img : Image} {e : MdRegion} {x : Nat}

/-- Outside of the two new headers. -/
theorem Represents.added_heads (hr : Represents h img) (hname : e.name.strlen ≤ 15)
    (h1 : x < 64 + 64 * img.sections.length ∨ 64 + 64 * img.sections.length + 64 ≤ x)
    (h2 : x < 12928 + 56 * img.programs.length ∨ 12928 + 56 * img.programs.length + 56 ≤ x) :
    (mdAddElfHeader e h).ehdr x = storeName h.ehdr img.sections.length img.programs.length
      (packedLen img.names) e.name x := by
  rw [hr.mdAddElfHeader_eq hname]
  simp only
  rw [storePhdr_outside h2, storeShdr_outside h1]

/-- What `md_add_elf_header` leaves as it was. -/
theorem Represents.added_frame (hr : Represents h img) (hname : e.name.strlen ≤ 15)
    (h0 : x < 56 ∨ 62 ≤ x)
    (h1 : x < 64 + 64 * img.sections.length ∨ 64 + 64 * img.sections.length + 64 ≤ x)
    (h2 : x < 12928 + 56 * img.programs.length ∨ 12928 + 56 * img.programs.length + 56 ≤ x)
    (h3 : x < 24184 + packedLen img.names) : (mdAddElfHeader e h).ehdr x = h.ehdr x := by
  rw [hr.added_heads hname h1 h2, storeName_outside h0 h1 (Or.inl h3)]

theorem Represents.added_shnum (hr : Represents h img) (hname : e.name.strlen ≤ 15) :
    eShnum (mdAddElfHeader e h).ehdr = img.sections.length + 1 := by
  have hlen : (e.name.bytes ++ [0]).length = e.name.strlen + 1 := by
    rw [List.length_append, List.length_singleton]
    rfl
  have hroom := hr.room
  have hone : (1 : UInt16).toNat = 1 := rfl
  have hcopy : read16 (mdAddElfHeader e h).ehdr 60 =
      read16 (storeName h.ehdr img.sections.length img.programs.length (packedLen img.names)
        e.name) 60 :=
    read16_congr (fun k hk => hr.added_heads hname (by omega) (by omega))
  rw [eShnum, hcopy, storeName, read16_writeBytes _ (by omega)]
  simp (disch := omega) only [write32, write16, read16_writeLE, read16_writeLE_self]
  rw [UInt16.toNat_add, UInt16.toNat_ofNat', hone]
  omega

theorem Represents.added_phnum (hr : Represents h img) (hname : e.name.strlen ≤ 15) :
    ePhnum (mdAddElfHeader e h).ehdr = img.programs.length + 1 := by
  have hlen : (e.name.bytes ++ [0]).length = e.name.strlen + 1 := by
    rw [List.length_append, List.length_singleton]
    rfl
  have hroom := hr.room
  have hcounts := hr.counts
  have hone : (1 : UInt16).toNat = 1 := rfl
  have hcopy : read16 (mdAddElfHeader e h).ehdr 56 =
      read16 (storeName h.ehdr img.sections.length img.programs.length (packedLen img.names)
        e.name) 56 :=
    read16_congr (fun k hk => hr.added_heads hname (by omega) (by omega))
  rw [ePhnum, hcopy, storeName, read16_writeBytes _ (by omega)]
  simp (disch := omega) only [write32, write16, read16_writeLE, read16_writeLE_self]
  rw [UInt16.toNat_add, UInt16.toNat_ofNat', hone]
  omega

theorem Represents.added_shoff (hr : Represents h img) (hname : e.name.strlen ≤ 15) :
    read64 (mdAddElfHeader e h).ehdr 40 = 64 := by
  rw [← hr.shoff]
  exact read64_congr
    (fun k hk => hr.added_frame hname (by omega) (by omega) (by omega) (by omega))

theorem Represents.added_phoff (hr : Represents h img) (hname : e.name.strlen ≤ 15) :
    read64 (mdAddElfHeader e h).ehdr 32 = 12928 := by
  rw [← hr.phoff]
  exact read64_congr
    (fun k hk => hr.added_frame hname (by omega) (by omega) (by omega) (by omega))

end Added

/-- **Adding a region.**  With room for one more section header before the program headers,
`md_add_elf_header` appends a section and a program header and its name. -/
theorem Represents.add {h : MdElfhdr} {img : Image} (hr : Represents h img) {e : MdRegion}
    (hroom : img.sections.length < 201) (hname : e.name.strlen ≤ 15) :
    Represents (mdAddElfHeader e h) (img.add e) := by
  have hns := hr.one_lt
  have hcounts := hr.counts
  have hidx := hr.packedLen_le
  have hlens : (img.add e).sections.length = img.sections.length + 1 := by simp [Image.add]
  have hlenp : (img.add e).programs.length = img.programs.length + 1 := by simp [Image.add]
  have heq := hr.mdAddElfHeader_eq hname
  refine ⟨hr.added_shoff hname, hr.added_phoff hname, ?_, ?_, ?_, ?_, ?_, ?_, ?_, ?_, ?_, ?_, ?_, ?_⟩
  · rw [← hr.shstrndx]
    exact read16_congr
      (fun k hk => hr.added_frame hname (by omega) (by omega) (by omega) (by omega))
  · rw [hr.added_shnum hname, hlens]
  · rw [hr.added_phnum hname, hlenp]
  · omega
  · omega
  · rw [← hr.strtab]
    simp only [Image.add]
    rw [List.getElem?_append_left hns]
  · rw [Image.shdrs_add]
    apply RecordView.At.push
    · apply hr.sections.congr
      intro x h1 h2
      have hstride : shdrView.stride = 64 := rfl
      rw [hstride, Image.shdrs_length] at h2
      exact (hr.added_frame hname (by omega) (by omega) (by omega) (by omega)).symm
    · rw [Image.shdrs_length, ← hr.elfOffset, heq]
      exact shdrAt_stores _ _ _ _ (by omega)
  · apply RecordView.At.push
    · apply hr.programs.congr
      intro x h1 h2
      have hstride : phdrView.stride = 56 := rfl
      rw [hstride] at h2
      exact (hr.added_frame hname (by omega) (by omega) (by omega) (by omega)).symm
    · rw [← hr.elfOffset, heq]
      exact phdrAt_storePhdr _ _ _ _
  · rw [Image.names_add, packed_append]
    refine ⟨hr.packed.congr ?_, ?_, trivial⟩
    · intro k hk
      exact (hr.added_frame hname (by omega) (by omega) (by omega) (by omega)).symm
    · have hname' := strEqAt_writeBytes (write32 (write16 (write16 h.ehdr 60
        (UInt16.ofNat img.sections.length + 1)) 56 (UInt16.ofNat img.programs.length + 1))
        (64 + 64 * img.sections.length + 4) 1) (24184 + packedLen img.names) e.name.bytes
      rw [← hname']
      apply strEqAt_congr
      intro k hk
      have hle : k ≤ e.name.strlen := hk
      exact hr.added_heads hname (by omega) (by omega)
  · intro s hs
    rcases List.mem_append.mp hs with hold | hnew
    · exact hr.nameLen s hold
    · rw [List.mem_singleton.mp hnew]
      exact hname
  · rw [heq, Image.names_add, packedLen_append, packedLen_cons, packedLen_nil]
  · rw [heq, hr.elfOffset]
    rfl

/-! ## Updating a region -/

theorem Image.names_update (img : Image) (n : Nat) (e : MdRegion) :
    (img.update n e).names = img.names := by
  apply List.ext_getElem (by simp [Image.names, Image.update])
  intro i h1 h2
  simp only [Image.names, Image.update, List.getElem_map, List.getElem_modify]
  split <;> rfl

theorem Image.shdrs_update (img : Image) (n : Nat) (e : MdRegion) :
    (img.update n e).shdrs = img.shdrs.modify (n + 4) (Shdr.setAddr e.virtAddr) := by
  apply List.ext_getElem (by simp [Image.update])
  intro i h1 h2
  simp only [Image.shdrs, List.getElem_mapIdx, List.getElem_modify]
  rw [Image.shdr, Image.shdr, Image.names_update]
  simp only [Image.update, List.getElem_modify]
  split <;> rfl

/-- The store of `md_update_elf_header` into the section header. -/
def storeShdrAddr (b : Nat → UInt8) (shdr : Nat) (e : MdRegion) : Nat → UInt8 :=
  write64 b (shdr + 16) e.virtAddr

/-- The stores of `md_update_elf_header` into the program header. -/
def storePhdrAddrs (b : Nat → UInt8) (phdr : Nat) (e : MdRegion) : Nat → UInt8 :=
  write64 (write64 b (phdr + 16) e.virtAddr) (phdr + 24) e.physAddr

section StoreAddrs

variable {b : Nat → UInt8} {shdr phdr : Nat} {e : MdRegion}

theorem storeShdrAddr_outside {x : Nat} (hx : x < shdr ∨ shdr + 64 ≤ x) :
    storeShdrAddr b shdr e x = b x := by
  rw [storeShdrAddr, write64, writeLE_outside _ (by omega)]

theorem storePhdrAddrs_outside {x : Nat} (hx : x < phdr ∨ phdr + 56 ≤ x) :
    storePhdrAddrs b phdr e x = b x := by
  simp only [storePhdrAddrs, write64]
  rw [writeLE_outside _ (by omega), writeLE_outside _ (by omega)]

theorem shdrAt_storeShdrAddr :
    shdrAt (storeShdrAddr b shdr e) shdr = (shdrAt b shdr).setAddr e.virtAddr := by
  simp (disch := omega) only [Shdr.setAddr, storeShdrAddr, shdrAt, write64, Off.shName, Off.shAddr,
    Off.shOffset, Off.shSize, read32_writeLE, read64_writeLE, read64_writeLE_self]

theorem phdrAt_storePhdrAddrs :
    phdrAt (storePhdrAddrs b phdr e) phdr = (phdrAt b phdr).setAddrs e.virtAddr e.physAddr := by
  simp (disch := omega) only [Phdr.setAddrs, storePhdrAddrs, phdrAt, write64, Off.pOffset,
    Off.pVaddr, Off.pPaddr, Off.pFilesz, Off.pMemsz, read64_writeLE, read64_writeLE_self]

end StoreAddrs

/-- **Updating a region** whose section header has room before the program headers. -/
theorem Represents.update {h : MdElfhdr} {img : Image} (hr : Represents h img) {n : Nat}
    (hn : n + 4 < 201) (e : MdRegion) : Represents (mdUpdateElfHeader n e h) (img.update n e) := by
  have hcounts := hr.counts
  have hroom := hr.room
  have hidx := hr.packedLen_le
  have hlens : (img.update n e).sections.length = img.sections.length := by simp [Image.update]
  have hlenp : (img.update n e).programs.length = img.programs.length := by simp [Image.update]
  have heq : mdUpdateElfHeader n e h =
      ⟨storePhdrAddrs (storeShdrAddr h.ehdr (64 + 64 * (n + 4)) e) (12928 + 56 * (n + 1)) e,
        h.elfOffset, h.strtableIdx⟩ := by
    simp only [mdUpdateElfHeader, MdElfhdr.store64, hr.elfSection_eq, hr.elfProgram_eq,
      storeShdrAddr, storePhdrAddrs]
  rw [heq]
  have hframe : ∀ x, (x < 64 + 64 * (n + 4) ∨ 64 + 64 * (n + 4) + 64 ≤ x) →
      (x < 12928 + 56 * (n + 1) ∨ 12928 + 56 * (n + 1) + 56 ≤ x) →
      storePhdrAddrs (storeShdrAddr h.ehdr (64 + 64 * (n + 4)) e) (12928 + 56 * (n + 1)) e x =
        h.ehdr x := by
    intro x h1 h2
    rw [storePhdrAddrs_outside h2, storeShdrAddr_outside h1]
  constructor
  · rw [← hr.shoff]
    exact read64_congr (fun k hk => hframe _ (by omega) (by omega))
  · rw [← hr.phoff]
    exact read64_congr (fun k hk => hframe _ (by omega) (by omega))
  · rw [← hr.shstrndx]
    exact read16_congr (fun k hk => hframe _ (by omega) (by omega))
  · rw [hlens, ← hr.shnum]
    exact eShnum_congr (fun k hk => hframe _ (by omega) (by omega))
  · rw [hlenp, ← hr.phnum]
    exact ePhnum_congr (fun k hk => hframe _ (by omega) (by omega))
  · omega
  · omega
  · rw [← hr.strtab]
    simp only [Image.update]
    rw [List.getElem?_modify_ne _ _ (show n + 4 ≠ 1 by omega)]
  · rw [Image.shdrs_update]
    have hmod : shdrView.At (storeShdrAddr h.ehdr (64 + 64 * (n + 4)) e) 64
        (img.shdrs.modify (n + 4) (Shdr.setAddr e.virtAddr)) :=
      hr.sections.modify shdrAt_storeShdrAddr (fun x hx => storeShdrAddr_outside hx)
    apply hmod.congr
    intro x h1 h2
    have hstride : shdrView.stride = 64 := rfl
    rw [hstride, List.length_modify, Image.shdrs_length] at h2
    exact (storePhdrAddrs_outside (by omega)).symm
  · have hsame : phdrView.At (storeShdrAddr h.ehdr (64 + 64 * (n + 4)) e) 12928 img.programs :=
      hr.programs.congr (fun x h1 _ => (storeShdrAddr_outside (by omega)).symm)
    exact hsame.modify phdrAt_storePhdrAddrs (fun x hx => storePhdrAddrs_outside hx)
  · rw [Image.names_update]
    apply hr.packed.congr
    intro k hk
    exact (hframe _ (by omega) (by omega)).symm
  · intro s hs
    have hmem : s.name ∈ (img.update n e).names := List.mem_map.mpr ⟨s, hs, rfl⟩
    rw [Image.names_update] at hmem
    have := hr.names_le _ hmem
    omega
  · rw [Image.names_update]
    exact hr.strtableIdx
  · exact hr.elfOffset

/-! ## Removing a region -/

theorem intToU64_ofNat {n : Nat} (hn : n < 2 ^ 31) : intToU64 (UInt32.ofNat n) = UInt64.ofNat n := by
  have hnat : (UInt32.ofNat n).toNat = n := by
    rw [UInt32.toNat_ofNat', Nat.mod_eq_of_lt (by omega)]
  rw [intToU64, hnat, if_pos hn]

namespace Represents

variable {h : MdElfhdr} {img : Image}

/-- The name of section `i` is looked up where the names before it end. -/
theorem elfLookupString_eq (hr : Represents h img) {i : Nat} (hi : i < img.sections.length) :
    elfLookupString h (read32 h.ehdr (elfSection h.ehdr i + Off.shName)) =
      some (24184 + packedLen (img.names.take i)) := by
  obtain ⟨hname, -⟩ := hr.shdr_fields hi
  have hroom := hr.room
  have hlen := hr.packedLen_le
  have hle := packedLen_take_le img.names i
  have hnot : ¬ UInt64.ofNat (packedLen img.names) <
      UInt64.ofNat (packedLen (img.names.take i)) := by
    rw [UInt64.lt_iff_toNat_lt, UInt64.toNat_ofNat', UInt64.toNat_ofNat',
      Nat.mod_eq_of_lt (by omega), Nat.mod_eq_of_lt (by omega)]
    omega
  have hnat : (UInt32.ofNat (packedLen (img.names.take i))).toNat =
      packedLen (img.names.take i) := by
    rw [UInt32.toNat_ofNat', Nat.mod_eq_of_lt (by omega)]
  rw [hr.elfSection_eq, hname, elfLookupString, hr.elfStrTable_eq]
  simp only
  rw [intToU64_ofNat (by omega), hr.strtableIdx, if_neg hnot, hnat]

theorem sectionMatches_eq (hr : Represents h img) (e : MdRegion) {i : Nat}
    (hi : i < img.sections.length) :
    sectionMatches e h i = (img.sections[i].name == e.name &&
      (img.sections[i].addr == e.virtAddr && img.sections[i].size == e.size)) := by
  obtain ⟨-, haddr, -, hsize⟩ := hr.shdr_fields hi
  have hlt : i < img.names.length := by rwa [Image.names_length]
  have hstr := hr.packed.getElem hlt
  have hnames : img.names[i] = img.sections[i].name := by simp [Image.names]
  rw [hnames] at hstr
  have hname : strEqAt h.ehdr (24184 + packedLen (img.names.take i)) e.name.bytes =
      (img.sections[i].name == e.name) := by
    rw [Bool.eq_iff_iff, strEqAt_iff_eq hstr, beq_iff_eq]
  rw [sectionMatches, hr.elfLookupString_eq hi]
  simp only
  rw [hname, hr.elfSection_eq, haddr, hsize]

theorem findProgram_eq (hr : Represents h img) (e : MdRegion) :
    clearFindProgram e h = img.findProgram e := by
  rw [clearFindProgram, hr.phnum, Image.findProgram]
  apply find?_range_eq_findIdx?
  intro i hi
  obtain ⟨-, hpaddr, hmemsz⟩ := hr.phdr_fields hi
  rw [hr.elfProgram_eq, hpaddr, hmemsz]

theorem findSection_eq (hr : Represents h img) (e : MdRegion) :
    clearFindSection e h = img.findSection e := by
  rw [clearFindSection, hr.shnum, Image.findSection]
  apply find?_range_eq_findIdx?
  intro i hi
  exact hr.sectionMatches_eq e hi

/-- **The checks of a removal** depend on the image only. -/
theorem lookup (hr : Represents h img) (e : MdRegion) : clearLookup e h = img.lookup e := by
  rw [clearLookup, hr.findProgram_eq, hr.findSection_eq, Image.lookup]
  cases hp : img.findProgram e with
  | none => rfl
  | some pidx =>
    cases hs : img.findSection e with
    | none => rfl
    | some shidx =>
      obtain ⟨hplt, -, -⟩ := List.findIdx?_eq_some_iff_getElem.mp hp
      obtain ⟨hslt, -, -⟩ := List.findIdx?_eq_some_iff_getElem.mp hs
      obtain ⟨-, -, hsoff, -⟩ := hr.shdr_fields hslt
      obtain ⟨hpoff, -⟩ := hr.phdr_fields hplt
      simp only
      rw [hr.elfSection_eq, hr.elfProgram_eq, hsoff, hpoff, List.getElem?_eq_getElem hslt,
        List.getElem?_eq_getElem hplt, Option.map_some, Option.map_some]
      simp only [Option.some.injEq]

end Represents

/-! ### Program headers -/

theorem phdrAt_shift (b : Nat → UInt8) (phdr next : Nat) (esize : UInt64) :
    phdrAt (write64 (memmove b phdr next 56) (phdr + 8)
      (read64 (memmove b phdr next 56) (phdr + 8) - esize)) phdr =
      Image.lowerProgram esize (phdrAt b next) := by
  simp (disch := omega) only [Image.lowerProgram, phdrAt, write64, Off.pOffset, Off.pVaddr,
    Off.pPaddr, Off.pFilesz, Off.pMemsz, read64_writeLE, read64_writeLE_self, read64_memmove]

theorem shift_outside (b : Nat → UInt8) {a next n k x : Nat} (v : UInt64) (hk : k + 8 ≤ n)
    (hx : x < a ∨ a + n ≤ x) : write64 (memmove b a next n) (a + k) v x = b x := by
  rw [write64, writeLE_outside _ (by omega)]
  rcases hx with hx | hx
  · exact memmove_of_lt _ hx
  · exact memmove_of_le _ hx

theorem shiftProgram_step {b : Nat → UInt8} (hoff : read64 b 32 = 12928) (esize : UInt64)
    (lo hi : Nat) :
    ShiftStep phdrView (shiftProgram esize) (Image.lowerProgram esize) b 12928 lo hi := by
  have heq : ∀ b' i, (∀ x, x < 12928 + 56 * lo ∨ 12928 + 56 * hi ≤ x → b' x = b x) →
      shiftProgram esize b' i =
        write64 (memmove b' (12928 + 56 * i) (12928 + 56 * (i + 1)) 56) (12928 + 56 * i + 8)
          (read64 (memmove b' (12928 + 56 * i) (12928 + 56 * (i + 1)) 56) (12928 + 56 * i + 8) -
            esize) := by
    intro b' i hb
    have hoff' : read64 b' 32 = 12928 := by
      rw [← hoff]
      exact read64_congr (fun k hk => hb _ (by omega))
    simp only [shiftProgram, elfProgram_eq hoff', sizeofPhdr, Off.pOffset]
  constructor
  · intro b' i h1 h2 hb
    rw [heq b' i hb]
    exact phdrAt_shift b' _ _ esize
  · intro b' i h1 h2 hb x hx
    rw [heq b' i hb]
    exact shift_outside b' _ (by decide) hx

theorem clearProgram_eq {b : Nat → UInt8} {n p : Nat} (esize : UInt64)
    (hoff : read64 b 32 = 12928) (hnum : ePhnum b = n) (hp : p < n) :
    clearProgram p esize b = eraseRecord phdrView (shiftProgram esize) 12928 p n 56 b := by
  obtain ⟨hframe, -⟩ := shiftDown_spec (shiftProgram_step hoff esize p (n - 1)) (n := n - 1 - p)
    (by omega)
  have hstride : phdrView.stride = 56 := rfl
  rw [hstride] at hframe
  have hoff' : read64 (shiftDown (shiftProgram esize) p (n - 1 - p) b) 32 = 12928 := by
    rw [← hoff]
    exact read64_congr (fun k hk => hframe _ (by omega))
  have hnum' : ePhnum (shiftDown (shiftProgram esize) p (n - 1 - p) b) = n := by
    have hsame := ePhnum_congr (fun k (hk : k < 2) => hframe (56 + k) (by omega))
    rw [hsame, hnum]
  simp only [clearProgram, eraseRecord, hnum, hnum', elfProgram_eq hoff', sizeofPhdr, Off.ePhnum,
    hstride]

/-- **Clearing a program header** takes it out of the array and lowers the offsets of those behind
it. -/
theorem clearProgram_spec {b : Nat → UInt8} {l : List Phdr} {k : Nat} (esize : UInt64)
    (hoff : read64 b 32 = 12928) (hnum : ePhnum b = l.length) (hat : phdrView.At b 12928 l)
    (hk : k < l.length) :
    phdrView.At (clearProgram k esize b) 12928
      (l.take k ++ (l.drop (k + 1)).map (Image.lowerProgram esize)) ∧
    ePhnum (clearProgram k esize b) = l.length - 1 ∧
    ∀ x, (x < 56 ∨ 58 ≤ x) → (x < 12928 ∨ 12928 + 56 * l.length ≤ x) →
      clearProgram k esize b x = b x := by
  rw [clearProgram_eq esize hoff hnum hk]
  exact hat.eraseRecord hk (shiftProgram_step hoff esize k _) (by decide) hnum

/-! ### Section headers -/

/-- A section header moved down in the file and in the string table. -/
def Shdr.lower (esize : UInt64) (strln : UInt32) (s : Shdr) : Shdr :=
  { s with shName := s.shName - strln, shOffset := s.shOffset - esize }

theorem shdrAt_shift (b : Nat → UInt8) (shdr next : Nat) (esize : UInt64) (strln : UInt32) :
    shdrAt (write32 (write64 (memmove b shdr next 64) (shdr + 24)
        (read64 (memmove b shdr next 64) (shdr + 24) - esize)) (shdr + 0)
      (read32 (write64 (memmove b shdr next 64) (shdr + 24)
        (read64 (memmove b shdr next 64) (shdr + 24) - esize)) (shdr + 0) - strln)) shdr =
      (shdrAt b next).lower esize strln := by
  simp (disch := omega) only [Shdr.lower, shdrAt, write64, write32, Off.shName, Off.shAddr,
    Off.shOffset, Off.shSize, read64_writeLE, read64_writeLE_self, read32_writeLE,
    read32_writeLE_self, read64_memmove, read32_memmove]

theorem shiftSection_step {b : Nat → UInt8} (hoff : read64 b 40 = 64) (esize : UInt64)
    (strln : UInt32) (lo hi : Nat) :
    ShiftStep shdrView (shiftSection esize strln) (Shdr.lower esize strln) b 64 lo hi := by
  have heq : ∀ b' i, (∀ x, x < 64 + 64 * lo ∨ 64 + 64 * hi ≤ x → b' x = b x) →
      shiftSection esize strln b' i =
        write32 (write64 (memmove b' (64 + 64 * i) (64 + 64 * (i + 1)) 64) (64 + 64 * i + 24)
          (read64 (memmove b' (64 + 64 * i) (64 + 64 * (i + 1)) 64) (64 + 64 * i + 24) - esize))
          (64 + 64 * i + 0)
          (read32 (write64 (memmove b' (64 + 64 * i) (64 + 64 * (i + 1)) 64) (64 + 64 * i + 24)
            (read64 (memmove b' (64 + 64 * i) (64 + 64 * (i + 1)) 64) (64 + 64 * i + 24) - esize))
            (64 + 64 * i + 0) - strln) := by
    intro b' i hb
    have hoff' : read64 b' 40 = 64 := by
      rw [← hoff]
      exact read64_congr (fun k hk => hb _ (by omega))
    simp only [shiftSection, elfSection_eq hoff', sizeofShdr, Off.shOffset, Off.shName]
  constructor
  · intro b' i h1 h2 hb
    rw [heq b' i hb]
    exact shdrAt_shift b' _ _ esize strln
  · intro b' i h1 h2 hb x hx
    have hstride : shdrView.stride = 64 := rfl
    rw [hstride] at hx
    rw [heq b' i hb, write32, writeLE_outside _ (by omega)]
    exact shift_outside b' _ (by decide) hx

theorem clearSection_eq {b : Nat → UInt8} {n k : Nat} (esize : UInt64) (strln : UInt32)
    (hoff : read64 b 40 = 64) (hnum : eShnum b = n) (hk : k < n) :
    clearSection k esize strln b =
      eraseRecord shdrView (shiftSection esize strln) 64 k n 60 b := by
  obtain ⟨hframe, -⟩ := shiftDown_spec (shiftSection_step hoff esize strln k (n - 1))
    (n := n - 1 - k) (by omega)
  have hstride : shdrView.stride = 64 := rfl
  rw [hstride] at hframe
  have hoff' : read64 (shiftDown (shiftSection esize strln) k (n - 1 - k) b) 40 = 64 := by
    rw [← hoff]
    exact read64_congr (fun j hj => hframe _ (by omega))
  have hnum' : eShnum (shiftDown (shiftSection esize strln) k (n - 1 - k) b) = n := by
    have hsame := eShnum_congr (fun j (hj : j < 2) => hframe (60 + j) (by omega))
    rw [hsame, hnum]
  simp only [clearSection, eraseRecord, hnum, hnum', elfSection_eq hoff', sizeofShdr, Off.eShnum,
    hstride]

/-- **Clearing a section header** takes it out of the array and lowers the offsets of those behind
it. -/
theorem clearSection_spec {b : Nat → UInt8} {l : List Shdr} {k : Nat} (esize : UInt64)
    (strln : UInt32) (hoff : read64 b 40 = 64) (hnum : eShnum b = l.length)
    (hat : shdrView.At b 64 l) (hk : k < l.length) :
    shdrView.At (clearSection k esize strln b) 64
      (l.take k ++ (l.drop (k + 1)).map (Shdr.lower esize strln)) ∧
    eShnum (clearSection k esize strln b) = l.length - 1 ∧
    ∀ x, (x < 60 ∨ 62 ≤ x) → (x < 64 ∨ 64 + 64 * l.length ≤ x) →
      clearSection k esize strln b x = b x := by
  rw [clearSection_eq esize strln hoff hnum hk]
  exact hat.eraseRecord hk (shiftSection_step hoff esize strln k _) (by decide) hnum

/-! ### The whole removal -/

theorem Image.lookup_eq_some {img : Image} {e : MdRegion} {pidx shidx : Nat} :
    img.lookup e = some (pidx, shidx) ↔ img.findProgram e = some pidx ∧
      img.findSection e = some shidx ∧
      img.sections[shidx]?.map Section.offset = img.programs[pidx]?.map Phdr.pOffset := by
  rw [Image.lookup]
  cases hp : img.findProgram e with
  | none => simp
  | some p =>
    cases hs : img.findSection e with
    | none => simp
    | some k =>
      simp only [Option.ite_none_right_eq_some, Option.some.injEq, Prod.mk.injEq]
      constructor
      · rintro ⟨hoff, rfl, rfl⟩
        exact ⟨rfl, rfl, hoff⟩
      · rintro ⟨rfl, rfl, hoff⟩
        exact ⟨hoff, rfl, rfl⟩

theorem Image.lookup_lt {img : Image} {e : MdRegion} {pidx shidx : Nat}
    (h : img.lookup e = some (pidx, shidx)) :
    pidx < img.programs.length ∧ shidx < img.sections.length := by
  obtain ⟨hp, hs, -⟩ := Image.lookup_eq_some.mp h
  obtain ⟨hplt, -, -⟩ := List.findIdx?_eq_some_iff_getElem.mp hp
  obtain ⟨hslt, -, -⟩ := List.findIdx?_eq_some_iff_getElem.mp hs
  exact ⟨hplt, hslt⟩

theorem Image.names_clear (img : Image) (pidx shidx : Nat) (esize : UInt64) :
    (img.clear pidx shidx esize).names = img.names.eraseIdx shidx := by
  simp [Image.names, Image.clear, Image.lowerSection, List.eraseIdx_eq_take_drop_succ,
    List.map_take, List.map_drop, Function.comp_def]

theorem Image.length_clear_sections (img : Image) (pidx : Nat) {shidx : Nat} (esize : UInt64)
    (hs : shidx < img.sections.length) :
    (img.clear pidx shidx esize).sections.length = img.sections.length - 1 := by
  simp only [Image.clear, List.length_append, List.length_take, List.length_map, List.length_drop]
  omega

theorem Image.length_clear_programs (img : Image) {pidx : Nat} (shidx : Nat) (esize : UInt64)
    (hp : pidx < img.programs.length) :
    (img.clear pidx shidx esize).programs.length = img.programs.length - 1 := by
  simp only [Image.clear, List.length_append, List.length_take, List.length_map, List.length_drop]
  omega

/-- The header of every section behind the removed one moves down in the string table by the
length of the removed name. -/
theorem Image.shdrs_clear (img : Image) (pidx : Nat) {shidx : Nat} (esize : UInt64)
    (hs : shidx < img.names.length) :
    (img.clear pidx shidx esize).shdrs = img.shdrs.take shidx ++ (img.shdrs.drop (shidx + 1)).map
      (Shdr.lower esize (UInt32.ofNat (img.names[shidx].strlen + 1))) := by
  have hlen : shidx < img.sections.length := by rwa [Image.names_length] at hs
  apply List.ext_getElem
  · rw [Image.shdrs_length, Image.length_clear_sections _ _ _ hlen, List.length_append,
      List.length_take, List.length_map, List.length_drop, Image.shdrs_length]
    omega
  intro i h1 h2
  rw [Image.shdrs_length] at h1
  have hleft : (img.clear pidx shidx esize).shdrs[i] =
      (img.clear pidx shidx esize).shdr i (img.clear pidx shidx esize).sections[i] := by
    simp only [Image.shdrs, List.getElem_mapIdx]
  have hlt := h1
  rw [Image.length_clear_sections _ _ _ hlen] at hlt
  rw [hleft, Image.shdr, Image.names_clear, packedLen_take_eraseIdx hs]
  by_cases hi : i < shidx
  · rw [if_pos hi.le, List.getElem_append_left (by rw [List.length_take, Image.shdrs_length]; omega),
      List.getElem_take]
    simp only [Image.clear, Image.shdrs, List.getElem_mapIdx, Image.shdr]
    rw [List.getElem_append_left (by rw [List.length_take]; omega), List.getElem_take]
  · have hoff : packedLen (img.names.take (i + 1)) - (img.names[shidx].strlen + 1) =
        if i ≤ shidx then packedLen (img.names.take i)
        else packedLen (img.names.take (i + 1)) - (img.names[shidx].strlen + 1) := by
      by_cases he : i ≤ shidx
      · obtain rfl : i = shidx := by omega
        rw [if_pos le_rfl, packedLen_take_succ hs]
        omega
      · rw [if_neg he]
    have hle : img.names[shidx].strlen + 1 ≤ packedLen (img.names.take (i + 1)) := by
      have hmono := packedLen_take_mono img.names (show shidx + 1 ≤ i + 1 by omega)
      rw [packedLen_take_succ hs] at hmono
      omega
    rw [← hoff, List.getElem_append_right (by rw [List.length_take, Image.shdrs_length]; omega)]
    simp only [Image.clear, Image.shdrs, Image.shdr, List.getElem_map, List.getElem_drop,
      List.getElem_mapIdx, List.length_take, List.length_mapIdx]
    rw [List.getElem_append_right (by rw [List.length_take]; omega)]
    simp only [List.getElem_map, List.getElem_drop, List.length_take, Image.lowerSection, Shdr.lower]
    have hidx : shidx + 1 + (i - min shidx img.sections.length) = i + 1 := by omega
    simp only [hidx, UInt32.ofNat_sub hle]

/-- The string table after its name was cleared. -/
theorem Represents.clearName_eq {h : MdElfhdr} {img : Image} (hr : Represents h img) {shidx : Nat}
    (hs : shidx < img.names.length) :
    clearName shidx h =
      ⟨memmove h.ehdr (24184 + packedLen (img.names.take shidx))
          (24184 + packedLen (img.names.take shidx) + (img.names[shidx].strlen + 1))
          (packedLen img.names - packedLen (img.names.take shidx)),
        h.elfOffset, UInt64.ofNat (packedLen (img.names.eraseIdx shidx))⟩ ∧
    strlenAt h.ehdr ((elfLookupString h
      (read32 h.ehdr (elfSection h.ehdr shidx + Off.shName))).getD 0) elfhSize =
      img.names[shidx].strlen := by
  have hlt : shidx < img.sections.length := by rwa [Image.names_length] at hs
  have hroom := hr.room
  have hlen := hr.packedLen_le
  have hle := packedLen_take_le img.names shidx
  have herase := packedLen_eraseIdx hs
  have hname : read32 h.ehdr (elfSection h.ehdr shidx + Off.shName) =
      UInt32.ofNat (packedLen (img.names.take shidx)) := by
    rw [hr.elfSection_eq]
    exact (hr.shdr_fields hlt).1
  have hnat : (UInt32.ofNat (packedLen (img.names.take shidx))).toNat =
      packedLen (img.names.take shidx) := by
    rw [UInt32.toNat_ofNat', Nat.mod_eq_of_lt (by omega)]
  have hlook := hr.elfLookupString_eq hlt
  have hstrlen : strlenAt h.ehdr (24184 + packedLen (img.names.take shidx)) elfhSize =
      img.names[shidx].strlen := by
    apply strlenAt_of_strEqAt img.names[shidx].noNul (hr.packed.getElem hs)
    have hbytes : img.names[shidx].bytes.length = img.names[shidx].strlen := rfl
    rw [elfhSize_eq]
    omega
  rw [hlook, Option.getD_some]
  refine ⟨?_, hstrlen⟩
  rw [hname] at hlook
  simp only [clearName, hname, hlook, Option.getD_some, hstrlen, hnat, hr.strtableIdx]
  rw [← UInt64.ofNat_sub hle, ← UInt64.ofNat_sub (by omega), UInt64.toNat_ofNat',
    Nat.mod_eq_of_lt (by omega), show packedLen img.names - (img.names[shidx].strlen + 1) =
      packedLen (img.names.eraseIdx shidx) by omega]

/-- The program headers of a buffer that is the same below the string table. -/
theorem Represents.programs_congr {h : MdElfhdr} {img : Image} (hr : Represents h img)
    {b : Nat → UInt8} (hsame : ∀ x, x < 24184 → b x = h.ehdr x) :
    read64 b 32 = 12928 ∧ ePhnum b = img.programs.length ∧
      phdrView.At b 12928 img.programs := by
  have hroom := hr.room
  have hcounts := hr.counts
  refine ⟨?_, ?_, ?_⟩
  · rw [← hr.phoff]
    exact read64_congr (fun k hk => hsame _ (by omega))
  · rw [← hr.phnum]
    exact ePhnum_congr (fun k hk => hsame _ (by omega))
  · apply hr.programs.congr
    intro x h1 h2
    have hstride : phdrView.stride = 56 := rfl
    rw [hstride] at h2
    exact (hsame x (by omega)).symm

/-- The section headers of a buffer that is the same below the program headers, up to their
number. -/
theorem Represents.sections_congr {h : MdElfhdr} {img : Image} (hr : Represents h img)
    {b : Nat → UInt8} (hsame : ∀ x, (x < 56 ∨ 58 ≤ x) → x < 12928 → b x = h.ehdr x) :
    read64 b 40 = 64 ∧ eShnum b = img.shdrs.length ∧ shdrView.At b 64 img.shdrs := by
  have hroom := hr.room
  refine ⟨?_, ?_, ?_⟩
  · rw [← hr.shoff]
    exact read64_congr (fun k hk => hsame _ (by omega) (by omega))
  · rw [Image.shdrs_length, ← hr.shnum]
    exact eShnum_congr (fun k hk => hsame _ (by omega) (by omega))
  · apply hr.sections.congr
    intro x h1 h2
    have hstride : shdrView.stride = 64 := rfl
    rw [hstride, Image.shdrs_length] at h2
    exact (hsame x (by omega) (by omega)).symm

/-- **Removing a region.**  Once the checks have found the program header and a section behind
the string table's, `msm_minidump_clear_headers` removes the two and the name, and succeeds. -/
theorem Represents.clear {h : MdElfhdr} {img : Image} (hr : Represents h img) {e : MdRegion}
    {pidx shidx : Nat} (hl : img.lookup e = some (pidx, shidx)) (hfix : 1 < shidx) :
    Represents (msmMinidumpClearHeaders e h).1 (img.clear pidx shidx e.size) ∧
      (msmMinidumpClearHeaders e h).2 = .ok () := by
  obtain ⟨hp, hs⟩ := Image.lookup_lt hl
  have hsn : shidx < img.names.length := by rwa [Image.names_length]
  have hroom := hr.room
  have hcounts := hr.counts
  have hlen := hr.packedLen_le
  have hle := packedLen_take_le img.names shidx
  have herase := packedLen_eraseIdx hsn
  obtain ⟨hname, hstrlen⟩ := hr.clearName_eq hsn
  simp only [msmMinidumpClearHeaders, hr.lookup, hl, hname, hstrlen]
  refine ⟨?_, trivial⟩
  generalize hb1 : memmove h.ehdr (24184 + packedLen (img.names.take shidx))
    (24184 + packedLen (img.names.take shidx) + (img.names[shidx].strlen + 1))
    (packedLen img.names - packedLen (img.names.take shidx)) = b1
  have hframe1 : ∀ x, x < 24184 → b1 x = h.ehdr x := by
    intro x hx
    rw [← hb1, memmove_of_lt _ (by omega)]
  have hpacked1 : Packed b1 24184 (img.names.eraseIdx shidx) := by
    rw [← hb1]
    exact hr.packed.eraseIdx hsn (by omega)
  -- the program headers
  obtain ⟨hoff1, hnum1, hprog1⟩ := hr.programs_congr hframe1
  obtain ⟨hprog2, hnum2, hframe2⟩ := clearProgram_spec e.size hoff1 hnum1 hprog1 hp
  generalize clearProgram pidx e.size b1 = b2 at *
  -- the section headers
  obtain ⟨hoff2, hshnum2, hsec2⟩ := hr.sections_congr (fun x h1 h2 =>
    (hframe2 x h1 (Or.inl h2)).trans (hframe1 x (by omega)))
  have hss : shidx < img.shdrs.length := by rwa [Image.shdrs_length]
  obtain ⟨hsec3, hnum3, hframe3⟩ := clearSection_spec e.size
    (UInt32.ofNat (img.names[shidx].strlen + 1)) hoff2 hshnum2 hsec2 hss
  generalize clearSection shidx e.size (UInt32.ofNat (img.names[shidx].strlen + 1)) b2 = b3 at *
  rw [Image.shdrs_length] at hframe3 hnum3
  have hframe : ∀ x, (x < 56 ∨ 62 ≤ x) → x < 64 → b3 x = h.ehdr x := by
    intro x h1 h2
    rw [hframe3 x (by omega) (by omega), hframe2 x (by omega) (by omega), hframe1 x (by omega)]
  constructor
  · rw [← hr.shoff]
    exact read64_congr (fun k hk => hframe _ (by omega) (by omega))
  · rw [← hr.phoff]
    exact read64_congr (fun k hk => hframe _ (by omega) (by omega))
  · rw [← hr.shstrndx]
    exact read16_congr (fun k hk => hframe _ (by omega) (by omega))
  · rw [Image.length_clear_sections _ _ _ hs]
    exact hnum3
  · rw [Image.length_clear_programs _ _ _ hp, ← hnum2]
    exact ePhnum_congr (fun k hk => hframe3 _ (by omega) (by omega))
  · rw [Image.length_clear_sections _ _ _ hs]
    omega
  · rw [Image.length_clear_sections _ _ _ hs, Image.length_clear_programs _ _ _ hp]
    omega
  · rw [← hr.strtab]
    simp only [Image.clear]
    rw [List.getElem?_append_left (by rw [List.length_take]; omega), List.getElem?_take_of_lt hfix]
  · rw [Image.shdrs_clear _ _ _ hsn]
    exact hsec3
  · apply hprog2.congr
    intro x h1 h2
    exact (hframe3 x (by omega) (by omega)).symm
  · rw [Image.names_clear]
    apply hpacked1.congr
    intro k hk
    exact ((hframe3 _ (by omega) (by omega)).trans (hframe2 _ (by omega) (by omega))).symm
  · intro s hs'
    have hmem : s.name ∈ (img.clear pidx shidx e.size).names := List.mem_map.mpr ⟨s, hs', rfl⟩
    rw [Image.names_clear] at hmem
    have := hr.names_le _ (List.mem_of_mem_eraseIdx hmem)
    omega
  · rw [Image.names_clear]
  · rw [hr.elfOffset]
    rfl

end SafelinuxDbg.Minidump
