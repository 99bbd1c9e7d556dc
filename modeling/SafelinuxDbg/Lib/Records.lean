import SafelinuxDbg.Lib.Memory

/-!
# Arrays of records in a byte buffer

A `RecordView` says how a structure of `stride` bytes is read from a buffer.  `At V b base l`
says that the buffer holds the records `l` from `base` on.  Only the bytes of the records
matter (`At.congr`), so a store elsewhere keeps an array, and a store inside one record
changes that record only (`At.modify`).

`shiftDown` is the loop `for (i = k; i < n; i++) rec[i] = f(rec[i + 1])`.  Whatever the body
stores to reach that effect, the loop moves the records after `k` down by one
(`At.shiftDown`) and leaves every other byte alone (`shiftDown_spec`).  `eraseRecord` is that
loop as part of a removal from an array whose length is kept in the same buffer.
-/

namespace CMemory

/-- A structure of `stride` bytes, read through `decode`, which sees these bytes only. -/
structure RecordView (ρ : Type*) where
  stride : Nat
  decode : (Nat → UInt8) → Nat → ρ
  decode_congr : ∀ {b b' : Nat → UInt8} {a a' : Nat},
    (∀ k, k < stride → b (a + k) = b' (a' + k)) → decode b a = decode b' a'

variable {ρ : Type*} (V : RecordView ρ)

/-- The buffer holds the records `l` from `base` on. -/
def RecordView.At (b : Nat → UInt8) (base : Nat) (l : List ρ) : Prop :=
  ∀ i (h : i < l.length), V.decode b (base + V.stride * i) = l[i]

variable {V}

theorem stride_mul_lt {s i n k : Nat} (hi : i < n) (hk : k < s) : s * i + k < s * n := by
  have h : s * (i + 1) ≤ s * n := Nat.mul_le_mul_left s hi
  rw [Nat.mul_succ] at h
  omega

namespace RecordView.At

theorem congr {b b' : Nat → UInt8} {base : Nat} {l : List ρ} (h : V.At b base l)
    (hb : ∀ x, base ≤ x → x < base + V.stride * l.length → b x = b' x) : V.At b' base l := by
  intro i hi
  rw [← h i hi]
  apply V.decode_congr
  intro k hk
  have hlt := stride_mul_lt hi hk
  exact (hb _ (by omega) (by omega)).symm

theorem push {b : Nat → UInt8} {base : Nat} {l : List ρ} {r : ρ} (h : V.At b base l)
    (hr : V.decode b (base + V.stride * l.length) = r) : V.At b base (l ++ [r]) := by
  intro i hi
  rw [List.length_append, List.length_singleton] at hi
  by_cases hlt : i < l.length
  · rw [List.getElem_append_left hlt]
    exact h i hlt
  · have he : i = l.length := by omega
    subst he
    rw [List.getElem_append_right le_rfl, hr]
    simp

/-- A change inside record `k` changes that record only. -/
theorem modify {b b' : Nat → UInt8} {base k : Nat} {l : List ρ} {f : ρ → ρ} (h : V.At b base l)
    (hr : V.decode b' (base + V.stride * k) = f (V.decode b (base + V.stride * k)))
    (hb : ∀ x, x < base + V.stride * k ∨ base + V.stride * k + V.stride ≤ x → b' x = b x) :
    V.At b' base (l.modify k f) := by
  intro i hi
  rw [List.length_modify] at hi
  rw [List.getElem_modify]
  by_cases hik : k = i
  · subst hik
    rw [if_pos rfl, hr, h k hi]
  · rw [if_neg hik, ← h i hi]
    apply V.decode_congr
    intro j hj
    apply hb
    rcases Nat.lt_or_gt_of_ne hik with hlt | hgt
    · have hm : V.stride * (k + 1) ≤ V.stride * i := Nat.mul_le_mul_left _ hlt
      rw [Nat.mul_succ] at hm
      right
      omega
    · have hm := stride_mul_lt hgt hj
      left
      omega

end RecordView.At

/-! ## Moving records down -/

/-- The loop that runs `body` at `k, k + 1, …, k + n - 1`. -/
def shiftDown (body : (Nat → UInt8) → Nat → Nat → UInt8) (k n : Nat) (b : Nat → UInt8) :
    Nat → UInt8 :=
  (List.range' k n).foldl body b

theorem shiftDown_succ (body : (Nat → UInt8) → Nat → Nat → UInt8) (k n : Nat) (b : Nat → UInt8) :
    shiftDown body k (n + 1) b = body (shiftDown body k n b) (k + n) := by
  rw [shiftDown, List.range'_1_concat, List.foldl_append]
  rfl

variable (V)

/-- What one step of the loop does, on every buffer that differs from `b₀` in the records
`lo, …, hi - 1` only: record `i` becomes `f` of record `i + 1` and nothing else changes. -/
structure ShiftStep (body : (Nat → UInt8) → Nat → Nat → UInt8) (f : ρ → ρ)
    (b₀ : Nat → UInt8) (base lo hi : Nat) : Prop where
  moved : ∀ b i, lo ≤ i → i < hi →
    (∀ x, x < base + V.stride * lo ∨ base + V.stride * hi ≤ x → b x = b₀ x) →
    V.decode (body b i) (base + V.stride * i) = f (V.decode b (base + V.stride * (i + 1)))
  frame : ∀ b i, lo ≤ i → i < hi →
    (∀ x, x < base + V.stride * lo ∨ base + V.stride * hi ≤ x → b x = b₀ x) →
    ∀ x, x < base + V.stride * i ∨ base + V.stride * i + V.stride ≤ x → body b i x = b x

variable {V}

/-- After `n` steps from `k` the bytes outside records `k, …, k + n - 1` are the old ones, and
these records are `f` of their successors. -/
theorem shiftDown_spec {body : (Nat → UInt8) → Nat → Nat → UInt8} {f : ρ → ρ}
    {b₀ : Nat → UInt8} {base lo hi : Nat} (hs : ShiftStep V body f b₀ base lo hi) {n : Nat}
    (hn : lo + n ≤ hi) :
    (∀ x, x < base + V.stride * lo ∨ base + V.stride * (lo + n) ≤ x →
      shiftDown body lo n b₀ x = b₀ x) ∧
    ∀ i, lo ≤ i → i < lo + n → V.decode (shiftDown body lo n b₀) (base + V.stride * i) =
      f (V.decode b₀ (base + V.stride * (i + 1))) := by
  induction n with
  | zero => exact ⟨fun x _ => rfl, fun i h1 h2 => by omega⟩
  | succ n ih =>
    obtain ⟨hframe, hrec⟩ := ih (by omega)
    have hmono : V.stride * (lo + n) ≤ V.stride * hi := Nat.mul_le_mul_left _ (by omega)
    have houter : ∀ x, x < base + V.stride * lo ∨ base + V.stride * hi ≤ x →
        shiftDown body lo n b₀ x = b₀ x := fun x hx => hframe x (by omega)
    have hsucc : V.stride * (lo + (n + 1)) = V.stride * (lo + n) + V.stride := by
      rw [show lo + (n + 1) = (lo + n) + 1 by omega, Nat.mul_succ]
    have hlo : V.stride * lo ≤ V.stride * (lo + n) := Nat.mul_le_mul_left _ (by omega)
    have hstep := hs.frame _ (lo + n) (by omega) (by omega) houter
    refine ⟨?_, ?_⟩
    · intro x hx
      rw [shiftDown_succ, hstep x (by omega)]
      exact hframe x (by omega)
    · intro i h1 h2
      rw [shiftDown_succ]
      by_cases hi : i = lo + n
      · subst hi
        rw [hs.moved _ _ (by omega) (by omega) houter]
        congr 1
        apply V.decode_congr
        intro k hk
        have hnext : V.stride * (lo + n + 1) = V.stride * (lo + (n + 1)) := rfl
        exact hframe _ (by omega)
      · rw [← hrec i h1 (by omega)]
        apply V.decode_congr
        intro k hk
        have hlt := stride_mul_lt (show i < lo + n by omega) hk
        exact hstep _ (by omega)

/-- **Closing the gap at `k`** in an array of records: the records after `k` move down, each
changed by `f`, and one record fewer is left. -/
theorem RecordView.At.shiftDown {body : (Nat → UInt8) → Nat → Nat → UInt8} {f : ρ → ρ}
    {b : Nat → UInt8} {base k : Nat} {l : List ρ} (h : V.At b base l) (hk : k < l.length)
    (hs : ShiftStep V body f b base k (l.length - 1)) :
    V.At (CMemory.shiftDown body k (l.length - 1 - k) b) base
      (l.take k ++ (l.drop (k + 1)).map f) := by
  obtain ⟨hframe, hrec⟩ := shiftDown_spec hs (n := l.length - 1 - k) (by omega)
  intro i hi
  rw [List.length_append, List.length_take, List.length_map, List.length_drop] at hi
  by_cases hik : i < k
  · rw [List.getElem_append_left (by rw [List.length_take]; omega), List.getElem_take,
      ← h i (by omega)]
    apply V.decode_congr
    intro j hj
    have hlt := stride_mul_lt hik hj
    exact hframe _ (by omega)
  · rw [List.getElem_append_right (by rw [List.length_take]; omega), List.getElem_map,
      List.getElem_drop, hrec i (by omega) (by omega), h (i + 1) (by omega)]
    congr 2
    rw [List.length_take]
    omega

/-! ## Removing a record from a counted array -/

variable (V)

/-- Remove record `k` of the `n` records at `base`: close the gap with `body`, clear the record
that has become free and lower the 16-bit count kept at `c`. -/
def eraseRecord (body : (Nat → UInt8) → Nat → Nat → UInt8) (base k n c : Nat) (b : Nat → UInt8) :
    Nat → UInt8 :=
  let moved := shiftDown body k (n - 1 - k) b
  let zeroed := memset moved (base + V.stride * (n - 1)) V.stride 0
  write16 zeroed c (read16 zeroed c - 1)

variable {V}

theorem toNat_ofNat_sub_one {n : Nat} (h0 : 0 < n) (h : n < 2 ^ 16) :
    (UInt16.ofNat n - 1).toNat = n - 1 := by
  have hnat : (UInt16.ofNat n).toNat = n := by
    rw [UInt16.toNat_ofNat', Nat.mod_eq_of_lt h]
  have hone : (1 : UInt16).toNat = 1 := rfl
  rw [UInt16.toNat_sub_of_le _ _ (by rw [UInt16.le_iff_toNat_le, hnat, hone]; exact h0), hnat, hone]

/-- **Removing a record** leaves the other records, those after it changed by `f`, a count that
is lower by one, and every byte outside the array and the count as it was. -/
theorem RecordView.At.eraseRecord {body : (Nat → UInt8) → Nat → Nat → UInt8} {f : ρ → ρ}
    {b : Nat → UInt8} {base k c : Nat} {l : List ρ} (h : V.At b base l) (hk : k < l.length)
    (hs : ShiftStep V body f b base k (l.length - 1)) (hc : c + 2 ≤ base)
    (hnum : (read16 b c).toNat = l.length) :
    V.At (CMemory.eraseRecord V body base k l.length c b) base
      (l.take k ++ (l.drop (k + 1)).map f) ∧
    (read16 (CMemory.eraseRecord V body base k l.length c b) c).toNat = l.length - 1 ∧
    ∀ x, (x < c ∨ c + 2 ≤ x) → (x < base ∨ base + V.stride * l.length ≤ x) →
      CMemory.eraseRecord V body base k l.length c b x = b x := by
  have hmoved := h.shiftDown hk hs
  obtain ⟨hframe, -⟩ := shiftDown_spec hs (n := l.length - 1 - k) (by omega)
  rw [show k + (l.length - 1 - k) = l.length - 1 by omega] at hframe
  rw [CMemory.eraseRecord]
  generalize CMemory.shiftDown body k (l.length - 1 - k) b = m at *
  have hlast : V.stride * l.length = V.stride * (l.length - 1) + V.stride := by
    rw [← Nat.mul_succ]
    congr 1
    omega
  have hmono : V.stride * k ≤ V.stride * (l.length - 1) := Nat.mul_le_mul_left _ (by omega)
  have hcount : read16 (memset m (base + V.stride * (l.length - 1)) V.stride 0) c =
      UInt16.ofNat l.length := by
    rw [← hnum, UInt16.ofNat_toNat]
    apply read16_congr
    intro i hi
    rw [memset_of_lt _ _ (by omega), hframe _ (by omega)]
  have hlt := (read16 b c).toNat_lt
  refine ⟨?_, ?_, ?_⟩
  · apply hmoved.congr
    intro x h1 h2
    have hlen : (l.take k ++ (l.drop (k + 1)).map f).length = l.length - 1 := by
      rw [List.length_append, List.length_take, List.length_map, List.length_drop]
      omega
    rw [hlen] at h2
    simp only [write16]
    rw [writeLE_outside _ (by omega), memset_of_lt _ _ (by omega)]
  · simp only [write16]
    rw [read16_writeLE_self, hcount, toNat_ofNat_sub_one (by omega) (by omega)]
  · intro x h1 h2
    simp only [write16]
    rw [writeLE_outside _ (by omega)]
    rcases h2 with h2 | h2
    · rw [memset_of_lt _ _ (by omega), hframe x (by omega)]
    · rw [memset_of_le _ _ (by omega), hframe x (by omega)]

end CMemory
