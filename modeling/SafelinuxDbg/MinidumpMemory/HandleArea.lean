import SafelinuxDbg.MinidumpMemory.DumpSize

/-!
# The table of handles in the region

The two owner dumps keep the handles they have printed in the last `handles_size` bytes of the
region, and each of the two sizes has a file of its own.  A write of `handles_size` is checked
against the size of the dump at that moment, but a write of the dump size is not checked against
`handles_size`.

* `HandlesInside`: while the dump has a buffer, the table starts inside the region.
* `handles_inside`: it does in every run in which no size is written that is smaller than the
  table, or too large for an `int`.
-/

namespace SafelinuxDbg.MinidumpMemory

open CMemory Minidump

/-- **The table is inside the region**, while the dump has a buffer: `handles_size` is at most
`dump_size`, and `dump_size - handles_size` is a place in the region at the address of the dump. -/
def HandlesInside (n : DumpName) (s : Dumps) : Prop :=
  s.dumpAddr n ≠ 0 → s.handlesSize n ≤ s.dumpSize n ∧
    ∃ r ∈ s.region n, r.virtAddr = s.dumpAddr n ∧
      (s.dumpSize n).toNat - (s.handlesSize n).toNat < r.size.toNat

/-- The dump sizes that are written have room for the table, and fit; or there is no memory for
them. -/
def RoomForHandles (n : DumpName) (s : Dumps) : DumpWrite → Prop
  | .size m size _ => m = n → toInt (megabytes size) ≤ 0 ∨
      ((megabytes size).toNat < 2 ^ 31 ∧ s.handlesSize n ≤ megabytes size)
  | .handles _ _ => True

/-- What is kept between two writes. -/
structure RoomInv (n : DumpName) (s : Dumps) : Prop where
  backed : Backed s
  kept : Kept n s
  handles_pos : 0 < (s.handlesSize n).toNat
  handles_le : (s.region n).isSome = true → s.handlesSize n ≤ s.dumpSize n

section Handles

variable {cma : CmaArea} {setup : PanicSetup} {n : DumpName} {s t : Dumps}

theorem RoomInv.inside (h : RoomInv n s) : HandlesInside n s := by
  intro haddr
  have hkept := h.kept.addr
  cases hr : s.region n with
  | none =>
    rw [hr] at hkept
    exact absurd hkept haddr
  | some r =>
    rw [hr] at hkept
    have hsize := h.kept.size r hr
    have hle := h.handles_le (Option.isSome_iff_exists.mpr ⟨r, hr⟩)
    have hpos := h.handles_pos
    refine ⟨hle, r, rfl, hkept.symm, ?_⟩
    rw [hsize]
    have hle := UInt64.le_iff_toNat_le.mp hle
    omega

/-- What a write of a table size leaves: the old one, or one that is checked. -/
theorem handleWrite_handles (m : DumpName) (size : UInt64) (s : Dumps) :
    (handleWrite m size s).handlesSize n = s.handlesSize n ∨
      m = n ∧ 0 < ((handleWrite m size s).handlesSize n).toNat ∧
        (handleWrite m size s).handlesSize n ≤ s.dumpSize n := by
  unfold handleWrite
  split
  case isTrue => exact Or.inl rfl
  case isFalse hzero =>
    split
    case isTrue => exact Or.inl rfl
    case isFalse hmax =>
      by_cases hm : n = m
      · subst hm
        have hle : size.toNat ≤ (s.dumpSize n).toNat / 16384 :=
          UInt64.le_iff_toNat_le.mp (UInt64.not_lt.mp hmax)
        have hpos : size.toNat ≠ 0 := fun h => hzero (UInt64.toNat_inj.mp h)
        have hlt := (s.dumpSize n).toNat_lt
        have hval : (size * 0x400).toNat = size.toNat * 1024 := by
          rw [UInt64.toNat_mul]
          exact Nat.mod_eq_of_lt (by omega : size.toNat * 1024 < 2 ^ 64)
        refine Or.inr ⟨rfl, ?_, ?_⟩
        · show 0 < (Function.update s.handlesSize n _ n).toNat
          rw [Function.update_self, hval]
          omega
        · show Function.update s.handlesSize n _ n ≤ _
          rw [Function.update_self, UInt64.le_iff_toNat_le, hval]
          omega
      · exact Or.inl (Function.update_of_ne hm _ _)

/-- **One write.** -/
theorem RoomInv.step (h : RoomInv n s) {a : DumpWrite} (hok : RoomForHandles n s a)
    (hstep : (dumpMachine cma setup).step s a = some t) : RoomInv n t := by
  cases a with
  | size m size o =>
    obtain ⟨-, ht⟩ := Option.ite_none_right_eq_some.mp hstep
    have ht := Option.some.inj ht
    have hbacked : Backed t := ht ▸ h.backed.updateDumpSize o m size
    by_cases hm : m = n
    · subst hm
      have hfits : SizeFits size := (hok rfl).imp id And.left
      obtain rfl | ⟨hregion, haddr, hsize, hhandles⟩ | ⟨hkept, -, hhandles, hnew⟩ :=
        own_cases h.backed h.kept hfits o t ht
      · exact h
      · refine ⟨hbacked, ⟨?_, fun r hr => ?_, ?_⟩, hhandles ▸ h.handles_pos, fun hsome => ?_⟩
        · rw [haddr, hregion]
          rfl
        · rw [hregion] at hr
          cases hr
        · rw [hsize]
          decide
        · rw [hregion] at hsome
          cases hsome
      · refine ⟨hbacked, hkept, hhandles ▸ h.handles_pos, fun _ => ?_⟩
        rw [hhandles]
        obtain ⟨hsize, hpos⟩ | ⟨hsize, hsome⟩ := hnew
        · rw [hsize]
          obtain hneg | ⟨-, hroom⟩ := hok rfl
          · omega
          · exact hroom
        · rw [hsize]
          exact h.handles_le hsome
    · have hsame : SameDump n s t := ht ▸ sameDump_updateDumpSize o size (Ne.symm hm)
      refine ⟨hbacked, h.kept.congr hsame, hsame.handles ▸ h.handles_pos, fun hsome => ?_⟩
      rw [hsame.handles, hsame.size]
      exact h.handles_le (hsame.region ▸ hsome)
  | handles m size =>
    obtain ⟨-, ht⟩ := Option.ite_none_right_eq_some.mp hstep
    cases Option.some.inj ht
    obtain ⟨hregion, hsize, -⟩ := handleWrite_frame m size s
    refine ⟨backed_handleWrite h.backed m size, handleWrite_kept h.kept m size, ?_, fun hsome => ?_⟩
    · obtain heq | ⟨-, hpos, -⟩ := handleWrite_handles (n := n) m size s
      · rw [heq]
        exact h.handles_pos
      · exact hpos
    · rw [hsize]
      obtain heq | ⟨-, -, hle⟩ := handleWrite_handles (n := n) m size s
      · rw [heq]
        exact h.handles_le (hregion ▸ hsome)
      · exact hle

/-- **The table stays inside the region** in every run in which the sizes that are written have
room for it; whatever becomes of the registrations. -/
theorem handles_inside (cma : CmaArea) (setup : PanicSetup) (n : DumpName)
    (hn : n.isOwner = true) :
    ∀ s, (dumpMachine cma setup).Reach (RoomForHandles n) s → HandlesInside n s := by
  intro s hs
  refine (hs.invariant (I := RoomInv n) ?_ (fun s a t hi hok hstep => hi.step hok hstep)).inside
  intro s hinit
  obtain ⟨hbacked, hkept, hsize, hhandles⟩ := started_panicData cma setup
  rw [show s = mdRegisterPanicData cma setup from hinit]
  refine ⟨hbacked, hkept n, ?_, fun _ => ?_⟩
  · rw [hhandles]
    exact (by decide : 0 < (0x4000 : UInt64).toNat)
  · rw [hhandles, hsize]
    cases n with
    | pageowner => decide
    | slabowner => decide
    | dmaInfo => cases hn
    | dmaProc => cases hn

end Handles

/-- 4 MB for the page owners, and 256 KB for their handles. -/
theorem handles_inside_grown :
    DumpName.isOwner .pageowner = true ∧
    HandlesInside .pageowner (handleWrite .pageowner 256
      (updateDumpSize smallArea (smooth 0xffffff8001000000 0x81000000) .pageowner 4
        (mdRegisterPanicData smallArea allRegistered))) := by
  refine ⟨rfl, handles_inside smallArea allRegistered .pageowner rfl _ ?_⟩
  refine .step (a := .handles .pageowner 256) (.step
    (a := .size .pageowner 4 (smooth 0xffffff8001000000 0x81000000)) (.init rfl)
    (fun _ => Or.inr ⟨by decide, ?_⟩) rfl) trivial rfl
  decide +kernel

/-- With 48 MB the handles may get 3 MB, and they keep them when the dump is cut down to 1 MB. -/
theorem handles_not_inside :
    ∃ s, (dumpMachine smallArea allRegistered).Reach (fun _ _ => True) s ∧
      s.dumpAddr .pageowner ≠ 0 ∧ s.dumpSize .pageowner = 0x100000 ∧
      s.handlesSize .pageowner = 0x300000 ∧ ¬HandlesInside .pageowner s := by
  have hreach : (dumpMachine smallArea allRegistered).Reach (fun _ _ => True)
      (updateDumpSize smallArea (smooth 0xffffff8001000000 0x81000000) .pageowner 1
        (handleWrite .pageowner 3072
          (updateDumpSize smallArea (smooth 0xffffff8001000000 0x81000000) .pageowner 48
            (mdRegisterPanicData smallArea allRegistered)))) :=
    .step (a := .size .pageowner 1 (smooth 0xffffff8001000000 0x81000000))
      (.step (a := .handles .pageowner 3072)
        (.step (a := .size .pageowner 48 (smooth 0xffffff8001000000 0x81000000)) (.init rfl)
          trivial rfl) trivial rfl) trivial rfl
  refine ⟨_, hreach, by decide +kernel, by decide +kernel, by decide +kernel, fun h => ?_⟩
  exact absurd (h (by decide +kernel)).1 (by decide +kernel)

end SafelinuxDbg.MinidumpMemory
