import Mathlib.Data.Nat.Bitwise
import Mathlib.Data.Nat.Size
import SafelinuxDbg.Lib.Loop
import SafelinuxDbg.Minidump.Types
import SafelinuxDbg.MinidumpMemory.SlabOwner

/-!
# The filter of the slab owner dump

`slab_owner_filter_write` doubles the `int` `bit` as long as the filter, an `unsigned long`, is not
below it, and looks up the cache for every bit that is set.  An `int` has 31 powers of two.  The
next one is negative, and as an `unsigned long` it has its upper 33 bits set; after it `bit` is 0 and
stays 0.  Nothing compares `i` with `KMALLOC_SHIFT_HIGH`.

* `filterLoop_reach`: the first 31 rounds, when no cache is missing.
* `SlabFilterLaw`: the loop ends, looks up caches that are in the row, and accepts a filter exactly
  when each of its bits stands for a cache.
* `slabFilterLaw_iff`: the law holds for the filters below `2 ^ 14`, and for those that have a bit
  whose cache is in the row and missing.
* `filterLoop_forever`: the loop need not end.
-/

namespace SafelinuxDbg.MinidumpMemory

open Minidump

/-! ## The code -/

/-- How the loop ends: its condition is false, or a cache does not exist. -/
inductive FilterEnd
  | accepted | invalid
deriving DecidableEq

/-- The variables of the loop.  `lookups` records the indices into `kmalloc_caches[KMALLOC_NORMAL]`. -/
structure FilterScan where
  i : Nat
  bit : Int32
  lookups : List Nat
deriving DecidableEq

/-- The conversion of an `int` to `unsigned long`, which extends the sign. -/
def toUnsignedLong (bit : Int32) : UInt64 := bit.toInt64.toUInt64

/-- The end of a round: `bit *= 2, i++`. -/
def FilterScan.next (s : FilterScan) : FilterScan := { s with i := s.i + 1, bit := s.bit * 2 }

/-- A round of the loop.  The row of the caches may be left: what is read behind it is what `caches`
says there. -/
def filterRound (caches : Nat → Option KmemCache) (filter : UInt64) (s : FilterScan) :
    FilterScan × Option FilterEnd :=
  if filter ≥ toUnsignedLong s.bit then
    if filter &&& toUnsignedLong s.bit ≠ 0 then
      let s' := { s with lookups := s.lookups ++ [s.i] }
      if (caches s.i).isNone then (s', some .invalid) else (s'.next, none)
    else (s.next, none)
  else (s, some .accepted)

/-- What is done after the loop. -/
def filterResult (filter : UInt64) (count : Nat) (slabOwnerFilter : UInt64) :
    FilterEnd → UInt64 × Except Errno Nat
  | .accepted => (filter, .ok count)
  | .invalid => (slabOwnerFilter, .error .EINVAL)

/-- `slab_owner_filter_write`, with what `kstrtoul_from_user` makes of the text and with the old
value of `slab_owner_filter`.  There is no result when the loop does not end with this fuel. -/
def slabOwnerFilterWrite (caches : Nat → Option KmemCache) (parsed : Option UInt64) (count : Nat)
    (slabOwnerFilter : UInt64) (fuel : Nat) : Option (UInt64 × Except Errno Nat) :=
  match parsed with
  | none => some (slabOwnerFilter, .error .EINVAL)
  | some filter =>
    (runLoop (filterRound caches filter) fuel ⟨0, 1, []⟩).2.map
      (filterResult filter count slabOwnerFilter)

/-! ## The rounds -/

/-- The value of `bit` in round `n`. -/
def bitAt : Nat → Int32
  | 0 => 1
  | n + 1 => bitAt n * 2

theorem toNat_bitAt : ∀ n < 31, (toUnsignedLong (bitAt n)).toNat = 2 ^ n := by
  decide +kernel

theorem and_bitAt {filter : UInt64} {n : Nat} (hn : n < 31) :
    filter &&& toUnsignedLong (bitAt n) ≠ 0 ↔ filter.toNat.testBit n = true := by
  rw [ne_eq, ← UInt64.toNat_inj, UInt64.toNat_and, toNat_bitAt n hn, Nat.and_two_pow]
  cases filter.toNat.testBit n <;> simp

/-- In round 31 `bit` is negative.  A filter that is not below it has its uppermost bit in common
with it. -/
theorem and_bitAt_negative {filter : UInt64} (h : filter ≥ toUnsignedLong (bitAt 31)) :
    filter &&& toUnsignedLong (bitAt 31) ≠ 0 := by
  have hvalue : (toUnsignedLong (bitAt 31)).toNat = 2 ^ 64 - 2 ^ 31 := by decide +kernel
  rw [ge_iff_le, UInt64.le_iff_toNat_le, hvalue] at h
  have htop : filter.toNat.testBit 63 = true := by
    have hlt := filter.toNat_lt
    rw [Nat.testBit_eq_decide_div_mod_eq]
    apply decide_eq_true
    omega
  intro hzero
  have hbit := congrArg (fun a : UInt64 => a.toNat.testBit 63) hzero
  simp only [UInt64.toNat_and, Nat.testBit_and, htop, hvalue] at hbit
  revert hbit
  decide

section Rounds

variable {caches : Nat → Option KmemCache} {filter : UInt64} {n : Nat} {l : List Nat}

/-- The indices that have been looked up before round `n`. -/
def lookedUp (filter : UInt64) (n : Nat) : List Nat :=
  (List.range n).filter fun i => filter.toNat.testBit i

theorem filterRound_past (hn : n < 31) (h : filter.toNat < 2 ^ n) :
    filterRound caches filter ⟨n, bitAt n, l⟩ = (⟨n, bitAt n, l⟩, some .accepted) := by
  have hlt : ¬ filter ≥ toUnsignedLong (bitAt n) := by
    rw [ge_iff_le, UInt64.le_iff_toNat_le, toNat_bitAt n hn]
    omega
  simp only [filterRound, if_neg hlt]

theorem filterRound_reached (hn : n < 31) (h : 2 ^ n ≤ filter.toNat) :
    filterRound caches filter ⟨n, bitAt n, l⟩ =
      if filter.toNat.testBit n then
        if (caches n).isNone then (⟨n, bitAt n, l ++ [n]⟩, some .invalid)
        else (⟨n + 1, bitAt (n + 1), l ++ [n]⟩, none)
      else (⟨n + 1, bitAt (n + 1), l⟩, none) := by
  have hge : filter ≥ toUnsignedLong (bitAt n) := by
    rw [ge_iff_le, UInt64.le_iff_toNat_le, toNat_bitAt n hn]
    exact h
  simp only [filterRound, if_pos hge, and_bitAt hn, FilterScan.next, bitAt]

theorem filterRound_lookups (i : Nat) (s : FilterScan) (h : i ∈ s.lookups) :
    i ∈ (filterRound caches filter s).1.lookups := by
  unfold filterRound
  dsimp only
  split_ifs
  · exact List.mem_append_left _ h
  · exact List.mem_append_left _ h
  · exact h
  · exact h

/-- The rounds in which `bit` is a power of two, when no cache is missing. -/
theorem filterLoop_reach (hn : n ≤ 31) (hle : ∀ i < n, 2 ^ i ≤ filter.toNat)
    (hcaches : ∀ i < n, filter.toNat.testBit i = true → (caches i).isSome) :
    runLoop (filterRound caches filter) n ⟨0, 1, []⟩ = (⟨n, bitAt n, lookedUp filter n⟩, none) := by
  induction n with
  | zero => rfl
  | succ n ih =>
    have hbefore := ih (by omega) (fun i hi => hle i (by omega)) (fun i hi => hcaches i (by omega))
    rw [runLoop_add hbefore, runLoop_one, filterRound_reached (by omega) (hle n (by omega)),
      lookedUp, lookedUp, List.range_succ, List.filter_append]
    by_cases hbit : filter.toNat.testBit n = true
    · have hsome : (caches n).isNone = false := by
        rw [← Option.not_isSome, hcaches n (by omega) hbit]
        rfl
      simp [hbit, hsome]
    · simp [hbit]

/-- The round of a bit that is set, when no cache was missing before. -/
theorem filterLoop_at_bit (hn : n < 31) (hbit : filter.toNat.testBit n = true)
    (hbefore : ∀ i < n, filter.toNat.testBit i = true → (caches i).isSome) :
    runLoop (filterRound caches filter) (n + 1) ⟨0, 1, []⟩ =
      if (caches n).isNone then (⟨n, bitAt n, lookedUp filter n ++ [n]⟩, some .invalid)
      else (⟨n + 1, bitAt (n + 1), lookedUp filter n ++ [n]⟩, none) := by
  have hge : 2 ^ n ≤ filter.toNat := Nat.ge_two_pow_of_testBit hbit
  have hreach := filterLoop_reach hn.le
    (fun i hi => (Nat.pow_le_pow_right (by omega) (by omega)).trans hge) hbefore
  rw [runLoop_add hreach, runLoop_one, filterRound_reached hn hge, if_pos hbit]

end Rounds

/-! ## The law -/

/-- Every bit of the filter stands for a cache. -/
def ValidFilter (caches : Nat → Option KmemCache) (filter : UInt64) : Prop :=
  ∀ i, filter.toNat.testBit i = true → i ≤ kmallocShiftHigh ∧ (caches i).isSome

/-- The loop ends, it looks up caches of the row only, and a filter is stored when it is valid and
else refused. -/
structure SlabFilterLaw (caches : Nat → Option KmemCache) (filter : UInt64) : Prop where
  ends : ∀ count old, ∃ fuel, (slabOwnerFilterWrite caches (some filter) count old fuel).isSome
  inside : ∀ fuel, ∀ i ∈ (runLoop (filterRound caches filter) fuel ⟨0, 1, []⟩).1.lookups,
    i ≤ kmallocShiftHigh
  stores : ValidFilter caches filter → ∀ count old fuel r,
    slabOwnerFilterWrite caches (some filter) count old fuel = some r → r = (filter, .ok count)
  refuses : ¬ ValidFilter caches filter → ∀ count old fuel r,
    slabOwnerFilterWrite caches (some filter) count old fuel = some r → r = (old, .error .EINVAL)

section Law

variable {caches : Nat → Option KmemCache} {filter : UInt64} {m : Nat} {s : FilterScan}

/-- A loop that has ended ends in this way with every fuel that gives a result. -/
theorem filterLoop_end {e : FilterEnd}
    (h : runLoop (filterRound caches filter) m ⟨0, 1, []⟩ = (s, some e)) {count : Nat} {old : UInt64}
    {fuel : Nat} {r : UInt64 × Except Errno Nat}
    (hr : slabOwnerFilterWrite caches (some filter) count old fuel = some r) :
    r = filterResult filter count old e := by
  obtain ⟨e', he', hre⟩ := Option.map_eq_some_iff.mp hr
  cases hloop : runLoop (filterRound caches filter) fuel ⟨0, 1, []⟩ with
  | mk s' ended =>
    rw [hloop] at he'
    subst he'
    have hmore := runLoop_ended h fuel
    rw [Nat.add_comm, runLoop_ended hloop m] at hmore
    cases hmore
    exact hre.symm

theorem SlabFilterLaw.of_end {e : FilterEnd}
    (h : runLoop (filterRound caches filter) m ⟨0, 1, []⟩ = (s, some e))
    (hinside : ∀ i ∈ s.lookups, i ≤ kmallocShiftHigh)
    (he : e = .accepted ↔ ValidFilter caches filter) : SlabFilterLaw caches filter where
  ends := by
    intro count old
    refine ⟨m, ?_⟩
    rw [slabOwnerFilterWrite, h]
    rfl
  inside := by
    intro fuel i hi
    -- the loop goes on from here, or it has ended: what was looked up stays in the record
    have hmore := runLoop_keeps_add (filterRound_lookups i) m hi
    rw [Nat.add_comm, runLoop_ended h fuel] at hmore
    exact hinside i hmore
  stores := by
    intro hvalid count old fuel r hr
    rw [filterLoop_end h hr, he.mpr hvalid, filterResult]
  refuses := by
    intro hvalid count old fuel r hr
    rw [filterLoop_end h hr]
    cases e with
    | accepted => exact absurd (he.mp rfl) hvalid
    | invalid => rfl

/-- The first cache that is missing, when it is one of the row. -/
theorem SlabFilterLaw.of_absent
    (h : ∃ i ≤ kmallocShiftHigh, filter.toNat.testBit i = true ∧ (caches i).isNone) :
    SlabFilterLaw caches filter := by
  classical
  obtain ⟨hle, hbit, hnone⟩ := Nat.find_spec h
  have hmin : ∀ j < Nat.find h, filter.toNat.testBit j = true → (caches j).isSome := by
    intro j hj hjbit
    by_contra hj'
    exact Nat.find_min h hj ⟨by omega, hjbit, by simpa using hj'⟩
  have hrow : kmallocShiftHigh < 31 := by decide
  have hn : Nat.find h < 31 := by omega
  have hend := filterLoop_at_bit hn hbit hmin
  rw [if_pos hnone] at hend
  refine .of_end hend ?_ ?_
  · intro i hi
    rcases List.mem_append.mp hi with hi | hi
    · have := List.mem_range.mp (List.mem_filter.mp hi).1
      omega
    · rw [List.mem_singleton.mp hi]
      exact hle
  · refine iff_of_false (by simp) fun hvalid => ?_
    have := (hvalid _ hbit).2
    rw [Option.isNone_iff_eq_none.mp hnone] at this
    cases this

/-- A filter below `2 ^ 14` all of whose caches exist. -/
theorem SlabFilterLaw.of_lt (hlt : filter.toNat < 2 ^ (kmallocShiftHigh + 1))
    (h : ∀ i ≤ kmallocShiftHigh, filter.toNat.testBit i = true → (caches i).isSome) :
    SlabFilterLaw caches filter := by
  have hsize : filter.toNat.size ≤ kmallocShiftHigh + 1 := Nat.size_le.mpr hlt
  have hn : filter.toNat.size < 31 := by
    rw [kmallocShiftHigh] at hsize
    omega
  have hreach := filterLoop_reach hn.le (fun j hj => Nat.lt_size.mp hj)
    (fun j hj => h j (by omega))
  have hend := runLoop_add hreach 1
  rw [runLoop_one, filterRound_past hn (Nat.lt_size_self _)] at hend
  refine .of_end hend ?_ ?_
  · intro i hi
    have := List.mem_range.mp (List.mem_filter.mp hi).1
    omega
  · refine iff_of_true rfl fun i hbit => ?_
    have hi : i < filter.toNat.size := Nat.lt_size.mpr (Nat.ge_two_pow_of_testBit hbit)
    exact ⟨by omega, h i (by omega) hbit⟩

/-- A lookup behind the row: the first bit from 14 on, when it is below 31. -/
theorem not_slabFilterLaw_of_bit
    (hcaches : ∀ i ≤ kmallocShiftHigh, filter.toNat.testBit i = true → (caches i).isSome)
    (h : ∃ i, kmallocShiftHigh < i ∧ i < 31 ∧ filter.toNat.testBit i = true) :
    ¬ SlabFilterLaw caches filter := by
  classical
  intro hlaw
  obtain ⟨hgt, hn, hbit⟩ := Nat.find_spec h
  have hbefore : ∀ j < Nat.find h, filter.toNat.testBit j = true → (caches j).isSome := by
    intro j hj hjbit
    by_cases hrow : j ≤ kmallocShiftHigh
    · exact hcaches j hrow hjbit
    · exact absurd ⟨by omega, by omega, hjbit⟩ (Nat.find_min h hj)
  have hlook := hlaw.inside (Nat.find h + 1) (Nat.find h) (by
    rw [filterLoop_at_bit hn hbit hbefore]
    split_ifs
    · exact List.mem_append_right _ (List.mem_singleton_self _)
    · exact List.mem_append_right _ (List.mem_singleton_self _))
  omega

/-- A filter whose bits from 14 on are all from 31 on.  Either it is so large that `bit` is still
compared when it is negative, and the cache with index 31 is looked up, or it is accepted. -/
theorem not_slabFilterLaw_of_high
    (hcaches : ∀ i ≤ kmallocShiftHigh, filter.toNat.testBit i = true → (caches i).isSome)
    (hclear : ∀ i, kmallocShiftHigh < i → i < 31 → filter.toNat.testBit i = false)
    {i : Nat} (hi : 31 ≤ i) (hbit : filter.toNat.testBit i = true) :
    ¬ SlabFilterLaw caches filter := by
  intro hlaw
  have hge : 2 ^ 31 ≤ filter.toNat :=
    (Nat.pow_le_pow_right (by omega) hi).trans (Nat.ge_two_pow_of_testBit hbit)
  have hreach : runLoop (filterRound caches filter) 31 ⟨0, 1, []⟩ = _ :=
    filterLoop_reach le_rfl
      (fun j hj => (Nat.pow_le_pow_right (by omega) (by omega)).trans hge) (by
        intro j hj hjbit
        by_cases hrow : j ≤ kmallocShiftHigh
        · exact hcaches j hrow hjbit
        · rw [hclear j (by omega) hj] at hjbit
          cases hjbit)
  have hnext := runLoop_add hreach 1
  rw [runLoop_one] at hnext
  by_cases hneg : filter ≥ toUnsignedLong (bitAt 31)
  · have hand : filter &&& toUnsignedLong (bitAt 31) ≠ 0 := and_bitAt_negative hneg
    have hlook := hlaw.inside (31 + 1) 31 (by
      rw [hnext, filterRound]
      dsimp only
      rw [if_pos hneg, if_pos hand]
      split_ifs
      · exact List.mem_append_right _ (List.mem_singleton_self _)
      · exact List.mem_append_right _ (List.mem_singleton_self _))
    rw [kmallocShiftHigh] at hlook
    omega
  · have hend : runLoop (filterRound caches filter) (31 + 1) ⟨0, 1, []⟩ =
        (⟨31, bitAt 31, lookedUp filter 31⟩, some .accepted) := by
      rw [hnext, filterRound, if_neg hneg]
    have hvalid : ¬ ValidFilter caches filter := by
      intro hvalid
      have hrow := (hvalid i hbit).1
      rw [kmallocShiftHigh] at hrow
      omega
    have hr : slabOwnerFilterWrite caches (some filter) 0 0 (31 + 1) = some (filter, .ok 0) := by
      rw [slabOwnerFilterWrite, hend]
      rfl
    cases hlaw.refuses hvalid 0 0 _ _ hr

/-- A filter whose upper 33 bits are set, when every lookup finds something: `bit` becomes 0, and the
loop never ends. -/
theorem filterLoop_forever (hneg : filter ≥ toUnsignedLong (bitAt 31))
    (hcaches : ∀ i ≤ 31, (caches i).isSome) (fuel : Nat) :
    (runLoop (filterRound caches filter) fuel ⟨0, 1, []⟩).2 = none := by
  have hge : ∀ i < 31, 2 ^ i ≤ filter.toNat := by
    intro i hi
    have hvalue : (toUnsignedLong (bitAt 31)).toNat = 2 ^ 64 - 2 ^ 31 := by decide +kernel
    have hpow : 2 ^ i ≤ 2 ^ 31 := Nat.pow_le_pow_right (by omega) (by omega)
    rw [ge_iff_le, UInt64.le_iff_toNat_le, hvalue] at hneg
    omega
  have hreach := filterLoop_reach le_rfl hge (fun i hi _ => hcaches i (by omega))
  have hnext := runLoop_add hreach 1
  have hsome : (caches 31).isNone = false := by
    rw [← Option.not_isSome, hcaches 31 le_rfl]
    rfl
  rw [runLoop_one, filterRound] at hnext
  dsimp only at hnext
  rw [if_pos hneg, if_pos (and_bitAt_negative hneg), hsome, if_neg Bool.false_ne_true] at hnext
  refine runLoop_forever (P := fun s => s.bit = 0) ?_ hnext ?_ fuel
  · intro s hs
    have hzero : toUnsignedLong 0 = 0 := by decide +kernel
    simp [filterRound, hs, hzero, FilterScan.next]
  · have hwrap : bitAt 32 = 0 := by decide +kernel
    exact hwrap

end Law

/-- **The filters that are checked.**  `slab_owner_filter_write` does what it is meant to do exactly
for the filters that are below `2 ^ 14` or have a bit below 14 whose cache does not exist. -/
theorem slabFilterLaw_iff (caches : Nat → Option KmemCache) (filter : UInt64) :
    SlabFilterLaw caches filter ↔
      filter.toNat < 2 ^ (kmallocShiftHigh + 1) ∨
        ∃ i ≤ kmallocShiftHigh, filter.toNat.testBit i = true ∧ (caches i).isNone := by
  by_cases habsent : ∃ i ≤ kmallocShiftHigh, filter.toNat.testBit i = true ∧ (caches i).isNone
  · exact iff_of_true (.of_absent habsent) (.inr habsent)
  · have hcaches : ∀ i ≤ kmallocShiftHigh, filter.toNat.testBit i = true → (caches i).isSome := by
      intro i hi hbit
      by_contra hnone
      exact habsent ⟨i, hi, hbit, by simpa using hnone⟩
    by_cases hlt : filter.toNat < 2 ^ (kmallocShiftHigh + 1)
    · exact iff_of_true (.of_lt hlt hcaches) (.inl hlt)
    · refine iff_of_false ?_ (by simp only [hlt, habsent, or_self, not_false_iff])
      obtain ⟨i, hi, hbit⟩ := Nat.exists_ge_and_testBit_of_ge_two_pow (Nat.le_of_not_lt hlt)
      by_cases hword : ∃ i, kmallocShiftHigh < i ∧ i < 31 ∧ filter.toNat.testBit i = true
      · exact not_slabFilterLaw_of_bit hcaches hword
      · have hclear : ∀ i, kmallocShiftHigh < i → i < 31 → filter.toNat.testBit i = false := by
          intro j hgt hj
          by_contra hset
          exact hword ⟨j, hgt, hj, by simpa using hset⟩
        have hhigh : 31 ≤ i := by
          by_contra hj
          exact hword ⟨i, by omega, by omega, hbit⟩
        exact not_slabFilterLaw_of_high hcaches hclear hhigh hbit

/-- All caches of the row exist, and a filter that is not about any of them is accepted. -/
theorem slabFilter_high_bit_accepted :
    ¬ SlabFilterLaw (fun i => if i ≤ kmallocShiftHigh then some ⟨[], []⟩ else none) 0x100000000 := by
  intro h
  have hvalid : ¬ ValidFilter (fun i => if i ≤ kmallocShiftHigh then some ⟨[], []⟩ else none)
      0x100000000 := by
    intro hvalid
    have := (hvalid 32 (by decide)).1
    revert this
    decide
  have hstored := h.refuses hvalid 1 0 40 (0x100000000, .ok 1) (by decide +kernel)
  cases hstored

end SafelinuxDbg.MinidumpMemory
