import Mathlib.Data.List.Basic
import Mathlib.Tactic.Ring

/-!
# Memory of a C program

A region of memory is a function from cell numbers to cells.  For an array of
structures a cell is one structure; for a raw buffer it is one byte.

* `memmove`, `memset`: the two block operations of `string.h`, over any cell type.
  `slice` reads a run of cells as a list; `slice_memmove_memset` says that closing
  the gap at `k` and clearing the last cell is `List.eraseIdx` with a cleared cell
  at the end.
* `readLE`, `writeLE`: little-endian integers in a byte buffer.  A read sees the last
  write to the same place (`readLE_writeLE_self`) and no write elsewhere
  (`readLE_writeLE_disjoint`), and writing back what is there changes nothing
  (`writeLE_eq_self_iff`).
* `read16`, `read32`, `read64` and their writes: the same at the widths C has.
* `toNat_clearLow`: an address that is rounded down by a mask.
-/

namespace CMemory

variable {α β : Type*}

/-! ## Blocks of cells -/

/-- `memmove(dst, src, n)` inside one array. -/
def memmove (m : Nat → α) (dst src n : Nat) : Nat → α :=
  fun x => if dst ≤ x ∧ x < dst + n then m (src + (x - dst)) else m x

/-- `memset(dst, v, n)`. -/
def memset (m : Nat → α) (dst n : Nat) (v : α) : Nat → α :=
  fun x => if dst ≤ x ∧ x < dst + n then v else m x

theorem memmove_of_lt (m : Nat → α) {dst src n x : Nat} (h : x < dst) :
    memmove m dst src n x = m x := by
  rw [memmove, if_neg (by omega)]

theorem memmove_of_le (m : Nat → α) {dst src n x : Nat} (h : dst + n ≤ x) :
    memmove m dst src n x = m x := by
  rw [memmove, if_neg (by omega)]

theorem memmove_add (m : Nat → α) {dst src n k : Nat} (h : k < n) :
    memmove m dst src n (dst + k) = m (src + k) := by
  rw [memmove, if_pos (by omega), Nat.add_sub_cancel_left]

theorem memset_of_lt (m : Nat → α) {dst n x : Nat} (v : α) (h : x < dst) :
    memset m dst n v x = m x := by
  rw [memset, if_neg (by omega)]

theorem memset_of_le (m : Nat → α) {dst n x : Nat} (v : α) (h : dst + n ≤ x) :
    memset m dst n v x = m x := by
  rw [memset, if_neg (by omega)]

theorem memset_add (m : Nat → α) {dst n k : Nat} (v : α) (h : k < n) :
    memset m dst n v (dst + k) = v := by
  rw [memset, if_pos (by omega)]

/-- The `n` cells from `a` on, as a list. -/
def slice (m : Nat → α) (a n : Nat) : List α := (List.range n).map (fun i => m (a + i))

@[simp] theorem slice_length (m : Nat → α) (a n : Nat) : (slice m a n).length = n := by
  simp [slice]

@[simp] theorem slice_getElem (m : Nat → α) (a n : Nat) {i : Nat} (_h : i < (slice m a n).length) :
    (slice m a n)[i] = m (a + i) := by
  simp [slice]

theorem slice_getElem? (m : Nat → α) (a : Nat) {n i : Nat} (h : i < n) :
    (slice m a n)[i]? = some (m (a + i)) := by
  rw [List.getElem?_eq_getElem (by rwa [slice_length]), slice_getElem]

theorem map_slice_getElem? (f : α → β) (m : Nat → α) (a : Nat) {n i : Nat} (h : i < n) :
    ((slice m a n).map f)[i]? = some (f (m (a + i))) := by
  rw [List.getElem?_map, slice_getElem? m a h, Option.map_some]

theorem mem_map_slice {f : α → β} {m : Nat → α} {a n : Nat} {w : β} :
    w ∈ (slice m a n).map f ↔ ∃ i, i < n ∧ f (m (a + i)) = w := by
  simp [slice]

theorem slice_congr {m m' : Nat → α} {a n : Nat} (h : ∀ i, i < n → m (a + i) = m' (a + i)) :
    slice m a n = slice m' a n :=
  List.map_congr_left (fun i hi => h i (List.mem_range.mp hi))

theorem slice_succ (m : Nat → α) (a n : Nat) : slice m a (n + 1) = slice m a n ++ [m (a + n)] := by
  simp [slice, List.range_succ]

theorem slice_succ_left (m : Nat → α) (a n : Nat) :
    slice m a (n + 1) = m a :: slice m (a + 1) n := by
  simp only [slice, List.range_succ_eq_map, List.map_cons, Nat.add_zero, List.map_map]
  congr 1
  apply List.map_congr_left
  intro i _
  simp only [Function.comp]
  congr 1
  omega

/-- Writing the cell just past a run appends it to the run. -/
theorem slice_update_succ (m : Nat → α) (a n : Nat) (v : α) :
    slice (Function.update m (a + n) v) a (n + 1) = slice m a n ++ [v] := by
  rw [slice_succ, Function.update_self]
  congr 1
  exact slice_congr (fun i hi => Function.update_of_ne (by omega) _ _)

/-- Writing a cell of a run replaces it in the run. -/
theorem slice_update (m : Nat → α) (a n k : Nat) (v : α) :
    slice (Function.update m (a + k) v) a n = (slice m a n).set k v := by
  apply List.ext_getElem (by simp)
  intro i h1 h2
  rw [slice_getElem, List.getElem_set]
  by_cases hik : k = i
  · subst hik
    rw [if_pos rfl, Function.update_self]
  · rw [if_neg hik, slice_getElem, Function.update_of_ne (by omega)]

/-- **Closing a gap.**  Moving the cells after `k` down by one and clearing the last
cell of the run erases cell `k` and leaves a cleared cell at the end. -/
theorem slice_memmove_memset (m : Nat → α) (a : Nat) {n k : Nat} (h : k < n) (z : α) :
    slice (memset (memmove m (a + k) (a + k + 1) (n - k - 1)) (a + n - 1) 1 z) a n =
      (slice m a n).eraseIdx k ++ [z] := by
  apply List.ext_getElem
  · rw [List.length_append, List.length_eraseIdx_of_lt (by rwa [slice_length])]
    simp only [slice_length, List.length_singleton]
    omega
  intro i h1 h2
  rw [slice_getElem]
  simp only [slice_length] at h1
  have hlen : ((slice m a n).eraseIdx k).length = n - 1 := by
    rw [List.length_eraseIdx_of_lt (by rwa [slice_length]), slice_length]
  by_cases hlast : i = n - 1
  · subst hlast
    rw [List.getElem_append_right (by omega)]
    have he : a + (n - 1) = (a + n - 1) + 0 := by omega
    rw [he, memset_add _ _ (by omega)]
    simp
  · rw [List.getElem_append_left (by omega), List.getElem_eraseIdx,
      memset_of_lt _ _ (by omega)]
    by_cases hik : i < k
    · rw [dif_pos hik, memmove_of_lt _ (by omega), slice_getElem]
    · rw [dif_neg hik, slice_getElem]
      have he : a + i = (a + k) + (i - k) := by omega
      rw [he, memmove_add _ (by omega)]
      congr 1
      omega

/-- A loop over the indices of a list that stops at the first match is `List.findIdx?`. -/
theorem find?_range_eq_findIdx? {l : List α} {q : Nat → Bool} {p : α → Bool}
    (h : ∀ i (hi : i < l.length), q i = p l[i]) :
    (List.range l.length).find? q = l.findIdx? p := by
  cases hf : l.findIdx? p with
  | none =>
    rw [List.findIdx?_eq_none_iff] at hf
    rw [List.find?_eq_none]
    intro i hi
    rw [List.mem_range] at hi
    rw [h i hi, hf _ (List.getElem_mem hi)]
    exact Bool.false_ne_true
  | some i =>
    obtain ⟨hi, hp, hlt⟩ := List.findIdx?_eq_some_iff_getElem.mp hf
    rw [List.find?_range_eq_some]
    refine ⟨by rw [h i hi, hp], List.mem_range.mpr hi, ?_⟩
    intro j hj
    rw [h j (by omega)]
    simpa using hlt j hj

/-! ## Little-endian integers -/

/-- The `n`-byte little-endian integer at `a`. -/
def readLE (m : Nat → UInt8) (a : Nat) : Nat → Nat
  | 0 => 0
  | n + 1 => (m a).toNat + 256 * readLE m (a + 1) n

/-- Store the `n` low bytes of `v` at `a`, least significant first. -/
def writeLE (m : Nat → UInt8) (a n v : Nat) : Nat → UInt8 :=
  fun x => if a ≤ x ∧ x < a + n then UInt8.ofNat (v / 256 ^ (x - a)) else m x

theorem readLE_congr {m m' : Nat → UInt8} {a a' n : Nat}
    (h : ∀ k, k < n → m (a + k) = m' (a' + k)) : readLE m a n = readLE m' a' n := by
  induction n generalizing a a' with
  | zero => rfl
  | succ n ih =>
    rw [readLE, readLE]
    have h0 := h 0 (by omega)
    rw [Nat.add_zero, Nat.add_zero] at h0
    have hrest : ∀ k, k < n → m (a + 1 + k) = m' (a' + 1 + k) := by
      intro k hk
      have hs := h (k + 1) (by omega)
      rwa [show a + (k + 1) = a + 1 + k by omega, show a' + (k + 1) = a' + 1 + k by omega] at hs
    rw [h0, ih hrest]

theorem readLE_lt (m : Nat → UInt8) (a n : Nat) : readLE m a n < 256 ^ n := by
  induction n generalizing a with
  | zero => simp [readLE]
  | succ n ih =>
    have hb := (m a).toNat_lt
    have ht := ih (a + 1)
    rw [readLE, pow_succ]
    omega

theorem writeLE_of_lt (m : Nat → UInt8) {a n v x : Nat} (h : x < a) :
    writeLE m a n v x = m x := by
  rw [writeLE, if_neg (by omega)]

theorem writeLE_of_le (m : Nat → UInt8) {a n v x : Nat} (h : a + n ≤ x) :
    writeLE m a n v x = m x := by
  rw [writeLE, if_neg (by omega)]

theorem writeLE_outside (m : Nat → UInt8) {a n v x : Nat} (h : x < a ∨ a + n ≤ x) :
    writeLE m a n v x = m x := by
  rw [writeLE, if_neg (by omega)]

theorem writeLE_add (m : Nat → UInt8) {a n v k : Nat} (h : k < n) :
    writeLE m a n v (a + k) = UInt8.ofNat (v / 256 ^ k) := by
  rw [writeLE, if_pos (by omega), Nat.add_sub_cancel_left]

/-- A write is seen byte by byte: the first byte, then the rest of the value. -/
theorem writeLE_succ (m : Nat → UInt8) (a n v : Nat) :
    writeLE m a (n + 1) v =
      writeLE (Function.update m a (UInt8.ofNat v)) (a + 1) n (v / 256) := by
  funext x
  by_cases hx : x = a
  · subst hx
    have hrest : writeLE (Function.update m x (UInt8.ofNat v)) (x + 1) n (v / 256) x =
        UInt8.ofNat v := by
      rw [writeLE_of_lt _ (by omega), Function.update_self]
    rw [hrest, writeLE, if_pos (by omega), Nat.sub_self, pow_zero, Nat.div_one]
  · by_cases hin : a ≤ x ∧ x < a + (n + 1)
    · obtain ⟨k, rfl⟩ : ∃ k, x = a + 1 + k := ⟨x - a - 1, by omega⟩
      have hk : k < n := by omega
      rw [writeLE_add _ hk, show a + 1 + k = a + (k + 1) by omega, writeLE_add _ (by omega),
        Nat.div_div_eq_div_mul, pow_succ']
    · rw [writeLE, if_neg hin, writeLE, if_neg (by omega), Function.update_of_ne hx]

theorem readLE_writeLE_self (m : Nat → UInt8) (a n v : Nat) :
    readLE (writeLE m a n v) a n = v % 256 ^ n := by
  induction n generalizing m a v with
  | zero => simp [readLE, Nat.mod_one]
  | succ n ih =>
    have hpow : (256 : Nat) ^ (n + 1) = 256 * 256 ^ n := pow_succ' 256 n
    have hbyte : 2 ^ 8 = 256 := rfl
    rw [readLE, writeLE_succ, ih, writeLE_of_lt _ (by omega), Function.update_self,
      UInt8.toNat_ofNat', hbyte, hpow, Nat.mod_mul]

theorem readLE_writeLE_disjoint (m : Nat → UInt8) {a n v a' n' : Nat}
    (h : a' + n' ≤ a ∨ a + n ≤ a') : readLE (writeLE m a n v) a' n' = readLE m a' n' := by
  apply readLE_congr
  intro k hk
  rcases h with h | h
  · exact writeLE_of_lt _ (by omega)
  · exact writeLE_of_le _ (by omega)

/-- Storing the integer that is already there changes nothing. -/
theorem writeLE_readLE (m : Nat → UInt8) (a n : Nat) : writeLE m a n (readLE m a n) = m := by
  induction n generalizing a with
  | zero =>
    funext x
    rw [writeLE, if_neg (by omega)]
  | succ n ih =>
    have hb := (m a).toNat_lt
    have hhead : UInt8.ofNat (readLE m a (n + 1)) = m a := by
      apply UInt8.toNat_inj.mp
      rw [UInt8.toNat_ofNat', readLE]
      omega
    have htail : readLE m a (n + 1) / 256 = readLE m (a + 1) n := by
      rw [readLE]
      omega
    rw [writeLE_succ, hhead, htail, Function.update_eq_self, ih]

/-- A store changes nothing exactly when the bytes it stores are already there. -/
theorem writeLE_eq_self_iff (m : Nat → UInt8) (a n v : Nat) :
    writeLE m a n v = m ↔ readLE m a n = v % 256 ^ n := by
  constructor
  · intro h
    have hr := readLE_writeLE_self m a n v
    rwa [h] at hr
  · intro h
    funext x
    by_cases hx : a ≤ x ∧ x < a + n
    · obtain ⟨k, rfl⟩ : ∃ k, x = a + k := ⟨x - a, by omega⟩
      have hk : k < n := by omega
      have hsame := congrFun (writeLE_readLE m a n) (a + k)
      rw [writeLE_add _ hk] at hsame ⊢
      rw [← hsame, h]
      apply UInt8.toNat_inj.mp
      rw [UInt8.toNat_ofNat', UInt8.toNat_ofNat']
      have hpow : (256 : Nat) ^ n = 256 ^ k * (256 * 256 ^ (n - k - 1)) := by
        rw [← pow_succ', ← pow_add]
        congr 1
        omega
      rw [hpow, Nat.mod_mul_right_div_self]
      exact (Nat.mod_mod_of_dvd _ (Dvd.intro _ rfl)).symm
    · rw [writeLE, if_neg hx]

theorem readLE_zero (a n : Nat) : readLE (fun _ => 0) a n = 0 := by
  induction n generalizing a with
  | zero => rfl
  | succ n ih =>
    rw [readLE, ih]
    rfl

theorem readLE_memmove (m : Nat → UInt8) {dst src len k n : Nat} (h : k + n ≤ len) :
    readLE (memmove m dst src len) (dst + k) n = readLE m (src + k) n := by
  apply readLE_congr
  intro i hi
  rw [Nat.add_assoc, Nat.add_assoc, memmove_add _ (by omega)]

/-! ## The widths of C -/

/-- Load a `u16`, `u32` or `u64`. -/
def read16 (m : Nat → UInt8) (a : Nat) : UInt16 := UInt16.ofNat (readLE m a 2)

@[inherit_doc read16]
def read32 (m : Nat → UInt8) (a : Nat) : UInt32 := UInt32.ofNat (readLE m a 4)

@[inherit_doc read16]
def read64 (m : Nat → UInt8) (a : Nat) : UInt64 := UInt64.ofNat (readLE m a 8)

/-- Store a `u16`, `u32` or `u64`. -/
abbrev write16 (m : Nat → UInt8) (a : Nat) (v : UInt16) : Nat → UInt8 := writeLE m a 2 v.toNat

@[inherit_doc write16]
abbrev write32 (m : Nat → UInt8) (a : Nat) (v : UInt32) : Nat → UInt8 := writeLE m a 4 v.toNat

@[inherit_doc write16]
abbrev write64 (m : Nat → UInt8) (a : Nat) (v : UInt64) : Nat → UInt8 := writeLE m a 8 v.toNat

theorem read16_writeLE_self (m : Nat → UInt8) (a : Nat) (v : UInt16) :
    read16 (writeLE m a 2 v.toNat) a = v := by
  rw [read16, readLE_writeLE_self,
    Nat.mod_eq_of_lt (show v.toNat < 256 ^ 2 from v.toNat_lt), UInt16.ofNat_toNat]

theorem read32_writeLE_self (m : Nat → UInt8) (a : Nat) (v : UInt32) :
    read32 (writeLE m a 4 v.toNat) a = v := by
  rw [read32, readLE_writeLE_self,
    Nat.mod_eq_of_lt (show v.toNat < 256 ^ 4 from v.toNat_lt), UInt32.ofNat_toNat]

theorem read64_writeLE_self (m : Nat → UInt8) (a : Nat) (v : UInt64) :
    read64 (writeLE m a 8 v.toNat) a = v := by
  rw [read64, readLE_writeLE_self,
    Nat.mod_eq_of_lt (show v.toNat < 256 ^ 8 from v.toNat_lt), UInt64.ofNat_toNat]

theorem read64_toNat (m : Nat → UInt8) (a : Nat) : (read64 m a).toNat = readLE m a 8 := by
  rw [read64, UInt64.toNat_ofNat',
    Nat.mod_eq_of_lt (show readLE m a 8 < 2 ^ 64 from readLE_lt m a 8)]

/-- Storing a `u64` changes nothing exactly when it is what a load returns. -/
theorem write64_eq_self_iff (m : Nat → UInt8) (a : Nat) (v : UInt64) :
    write64 m a v = m ↔ read64 m a = v := by
  rw [write64, writeLE_eq_self_iff, Nat.mod_eq_of_lt (show v.toNat < 256 ^ 8 from v.toNat_lt),
    ← UInt64.toNat_inj, read64_toNat]

theorem read32_zero (a : Nat) : read32 (fun _ => 0) a = 0 := by
  rw [read32, readLE_zero]
  rfl

theorem read64_zero (a : Nat) : read64 (fun _ => 0) a = 0 := by
  rw [read64, readLE_zero]
  rfl

section Congr

variable {m m' : Nat → UInt8} {a a' : Nat}

theorem read16_congr (h : ∀ k, k < 2 → m (a + k) = m' (a' + k)) : read16 m a = read16 m' a' := by
  rw [read16, read16, readLE_congr h]

theorem read32_congr (h : ∀ k, k < 4 → m (a + k) = m' (a' + k)) : read32 m a = read32 m' a' := by
  rw [read32, read32, readLE_congr h]

theorem read64_congr (h : ∀ k, k < 8 → m (a + k) = m' (a' + k)) : read64 m a = read64 m' a' := by
  rw [read64, read64, readLE_congr h]

end Congr

section Memmove

variable (m : Nat → UInt8) {dst src len k : Nat}

theorem read32_memmove (h : k + 4 ≤ len) :
    read32 (memmove m dst src len) (dst + k) = read32 m (src + k) := by
  rw [read32, readLE_memmove m h, read32]

theorem read64_memmove (h : k + 8 ≤ len) :
    read64 (memmove m dst src len) (dst + k) = read64 m (src + k) := by
  rw [read64, readLE_memmove m h, read64]

end Memmove

section Disjoint

variable (m : Nat → UInt8) {a n v a' : Nat}

theorem read16_writeLE (h : a' + 2 ≤ a ∨ a + n ≤ a') :
    read16 (writeLE m a n v) a' = read16 m a' := by
  rw [read16, readLE_writeLE_disjoint m h, read16]

theorem read32_writeLE (h : a' + 4 ≤ a ∨ a + n ≤ a') :
    read32 (writeLE m a n v) a' = read32 m a' := by
  rw [read32, readLE_writeLE_disjoint m h, read32]

theorem read64_writeLE (h : a' + 8 ≤ a ∨ a + n ≤ a') :
    read64 (writeLE m a n v) a' = read64 m a' := by
  rw [read64, readLE_writeLE_disjoint m h, read64]

end Disjoint

/-! ## Alignment -/

/-- Clearing the low `k` bits. -/
theorem toNat_clearLow {k : Nat} (hk : k ≤ 64) {mask : UInt64}
    (hmask : mask.toNat = (2 ^ (64 - k) - 1) * 2 ^ k) (x : UInt64) :
    (x &&& mask).toNat = x.toNat / 2 ^ k * 2 ^ k := by
  have hx : x.toNat < 2 ^ 64 := x.toNat_lt
  rw [UInt64.toNat_and, hmask]
  apply Nat.eq_of_testBit_eq
  intro i
  rw [Nat.testBit_and, Nat.testBit_mul_two_pow, Nat.testBit_mul_two_pow, Nat.testBit_div_two_pow,
    Nat.testBit_two_pow_sub_one]
  by_cases hi : k ≤ i
  · have hsub : i - k + k = i := by omega
    rw [hsub]
    by_cases hlow : i < 64
    · simp [hi, show i - k < 64 - k by omega]
    · rw [Nat.testBit_lt_two_pow (Nat.lt_of_lt_of_le hx (Nat.pow_le_pow_right (by decide) (by omega)))]
      simp
  · simp [hi]

end CMemory
