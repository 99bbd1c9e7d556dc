import SafelinuxDbg.Minidump.Consistency

/-!
# Refused updates

`msm_minidump_update_region` calls `md_update_elf_header` whatever `md_update_ss_toc` returned.
An update that the table step refuses, because its region was moved or is not there, therefore
still writes the addresses into section header `regno + 4` and program header `regno + 1`, which
describe some other region or none.

* `refused_update_keeps_iff`: exactly when a refused update leaves the driver as it was.
* `refused_update_writes`: one that does not.
-/

namespace SafelinuxDbg.Minidump

open CMemory

/-- The header words that an update writes hold its addresses already.  A byte of `sh_addr` that
the program header's words cover does not count. -/
structure HeadersHold (regno : Nat) (e : MdRegion) (hdr : Nat → UInt8) : Prop where
  pVaddr : read64 hdr (elfProgram hdr (regno + 1) + 16) = e.virtAddr
  pPaddr : read64 hdr (elfProgram hdr (regno + 1) + 24) = e.physAddr
  shAddr : ∀ k, k < 8 → elfSection hdr (regno + 4) + 16 + k < elfProgram hdr (regno + 1) + 16 ∨
      elfProgram hdr (regno + 1) + 32 ≤ elfSection hdr (regno + 4) + 16 + k →
    hdr (elfSection hdr (regno + 4) + 16 + k) = UInt8.ofNat (e.virtAddr.toNat / 256 ^ k)

section Stores

variable {b : Nat → UInt8} {s p : Nat} {v w : UInt64}

/-- Three stores leave a buffer alone when the last two find their values in place and so does
the first, where the others do not cover it. -/
theorem stores_eq_self (hv : read64 b (p + 16) = v) (hw : read64 b (p + 24) = w)
    (hs : ∀ k, k < 8 → s + k < p + 16 ∨ p + 32 ≤ s + k → b (s + k) = UInt8.ofNat (v.toNat / 256 ^ k)) :
    write64 (write64 (write64 b s v) (p + 16) v) (p + 24) w = b := by
  have hv' := (write64_eq_self_iff b (p + 16) v).mpr hv
  have hw' := (write64_eq_self_iff b (p + 24) w).mpr hw
  funext x
  by_cases h1 : p + 24 ≤ x ∧ x < p + 32
  · rw [← congrFun hw' x]
    simp only [write64, writeLE, h1, and_self, if_true]
  simp only [write64]
  rw [writeLE_outside _ (by omega)]
  by_cases h2 : p + 16 ≤ x ∧ x < p + 24
  · rw [← congrFun hv' x]
    simp only [write64, writeLE]
    rw [if_pos (by omega), if_pos (by omega)]
  rw [writeLE_outside _ (by omega)]
  by_cases h3 : s ≤ x ∧ x < s + 8
  · obtain ⟨k, rfl⟩ : ∃ k, x = s + k := ⟨x - s, by omega⟩
    rw [writeLE_add _ (by omega), hs k (by omega) (by omega)]
  · rw [writeLE_outside _ (by omega)]

theorem stores_eq_self_iff :
    write64 (write64 (write64 b s v) (p + 16) v) (p + 24) w = b ↔
      read64 b (p + 16) = v ∧ read64 b (p + 24) = w ∧
        ∀ k, k < 8 → s + k < p + 16 ∨ p + 32 ≤ s + k →
          b (s + k) = UInt8.ofNat (v.toNat / 256 ^ k) := by
  constructor
  · intro h
    refine ⟨?_, ?_, ?_⟩
    · rw [← h]
      simp (disch := omega) only [write64, read64_writeLE, read64_writeLE_self]
    · rw [← h]
      simp only [write64, read64_writeLE_self]
    · intro k hk hout
      rw [← congrFun h (s + k)]
      simp only [write64]
      rw [writeLE_outside _ (by omega), writeLE_outside _ (by omega), writeLE_add _ hk]
  · rintro ⟨hv, hw, hs⟩
    exact stores_eq_self hv hw hs

end Stores

theorem mdUpdateElfHeader_eq_self_iff (regno : Nat) (e : MdRegion) (h : MdElfhdr) :
    mdUpdateElfHeader regno e h = h ↔ HeadersHold regno e h.ehdr := by
  have hbytes : mdUpdateElfHeader regno e h = h ↔
      write64 (write64 (write64 h.ehdr (elfSection h.ehdr (regno + 4) + 16) e.virtAddr)
        (elfProgram h.ehdr (regno + 1) + 16) e.virtAddr)
        (elfProgram h.ehdr (regno + 1) + 24) e.physAddr = h.ehdr := by
    constructor
    · intro heq
      exact congrArg MdElfhdr.ehdr heq
    · intro heq
      simp only [mdUpdateElfHeader, MdElfhdr.store64, heq]
  rw [hbytes, stores_eq_self_iff]
  constructor
  · rintro ⟨hv, hw, hs⟩
    exact ⟨hv, hw, hs⟩
  · rintro ⟨hv, hw, hs⟩
    exact ⟨hv, hw, hs⟩

/-- An update that returns an error leaves the driver as it was. -/
def RefusedKeeps (cfg : Config) (regno : Nat) (e : MdRegion) (d : Driver) : Prop :=
  (∃ err, (msmMinidumpUpdateRegion cfg true regno e d).2 = .error err) →
    (msmMinidumpUpdateRegion cfg true regno e d).1 = d

/-- **When a refused update changes nothing**: the descriptor is invalid, or the table step does
not refuse it, or the headers hold its addresses already. -/
theorem refused_update_keeps_iff {cfg : Config} {d : Driver} (hd : Smem d) {regno : Nat}
    (hregno : regno < maxNumEntries) (e : MdRegion) :
    RefusedKeeps cfg regno e d ↔
      validateRegion cfg e ≠ .ok () ∨
        (regno < d.firstRemovedEntry ∧ ∃ i, mdEntryNum d e = .ok i) ∨
        HeadersHold regno e d.minidumpElfheader.ehdr := by
  rw [RefusedKeeps]
  rcases update_cases cfg true e hd regno with
    ⟨hwhy, hr⟩ | ⟨hv, -, hwhy, err, hr⟩ | ⟨hv, -, hlt, hfound, hr⟩
  · have hinvalid : validateRegion cfg e ≠ .ok () := by
      rcases hwhy with h | h
      · exact h
      · omega
    rw [hr]
    exact ⟨fun _ => Or.inl hinvalid, fun _ _ => rfl⟩
  · rw [hr]
    constructor
    · intro h
      have heq := congrArg Driver.minidumpElfheader (h ⟨err, rfl⟩)
      exact Or.inr (Or.inr ((mdUpdateElfHeader_eq_self_iff regno e _).mp heq))
    · intro h _
      rcases h with h | ⟨h1, i, h2⟩ | h
      · exact absurd hv h
      · rcases hwhy with hge | ⟨err', herr⟩
        · omega
        · rw [herr] at h2
          cases h2
      · simp only [updatedHeaders, (mdUpdateElfHeader_eq_self_iff regno e _).mpr h]
  · rw [hr]
    refine ⟨fun _ => Or.inr (Or.inl ⟨hlt, hfound⟩), ?_⟩
    rintro - ⟨err, herr⟩
    cases herr

theorem refused_update_keeps_iff_kmsg :
    RefusedKeeps Config.plain 0 ⟨CStr.ofString "KMSG", 0, 0x2000, 0x82000000, 64⟩
      (plainClient [.add true ⟨CStr.ofString "KMSG", 0, 0x1000, 0x81000000, 64⟩]).driver :=
  (refused_update_keeps_iff ⟨rfl, rfl, rfl⟩ (by decide) _).mpr
    (Or.inr (Or.inl ⟨by decide +kernel, 0, by decide +kernel⟩))

/-- The tables after `first` was added and removed and `second` was added. -/
def reusedClient (first second : MdRegion) : Client :=
  plainClient [.add true first, .remove first, .add true second]

/-- **A refused update that writes**: the number was used before, so the region counts as moved,
but its headers are written. -/
theorem refused_update_writes :
    ¬ ∀ s, (smemClients Config.plain (Platform.plain false) (· = [])).Reach (fun _ _ => True) s →
      ∀ regno e, regno < maxNumEntries → RefusedKeeps Config.plain regno e s.driver := by
  intro h
  have hreach : (smemClients Config.plain (Platform.plain false) (· = [])).Reach (fun _ _ => True)
      (reusedClient ⟨CStr.ofString "KMSG", 0, 0x1000, 0x81000000, 64⟩
        ⟨CStr.ofString "KIRQ", 0, 0x2000, 0x82000000, 4⟩) :=
    .step (.step (.step (.init plainClient_init) trivial rfl) trivial rfl) trivial rfl
  have hkeeps := h _ hreach 0 ⟨CStr.ofString "KIRQ", 0, 0x3000, 0x83000000, 4⟩ (by decide)
    ⟨.EINVAL, by decide +kernel⟩
  have hword := congrArg (fun d => read64 d.minidumpElfheader.ehdr 336) hkeeps
  revert hword
  decide +kernel

end SafelinuxDbg.Minidump
