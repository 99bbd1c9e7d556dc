import SafelinuxDbg.Lib.Memory

/-!
# C strings

A `CStr` is what a C string means: the bytes before its NUL.  `strEqAt`, `strlenAt`
and `strscpyAt` are `strcmp(...) == 0`, `strlen` and the kernel's `strscpy` on a string
inside a byte buffer.

A **string table** is a run of strings laid end to end, each with its NUL (`Packed`).
A table is addressed by byte offsets: string `i` starts at `packedLen (ss.take i)`.
`Packed.push` appends a string and `Packed.eraseIdx` closes the gap a removed string
leaves with one `memmove`.
-/

namespace CMemory

/-- A C string, without its terminating NUL. -/
structure CStr where
  bytes : List UInt8
  noNul : (0 : UInt8) ∉ bytes
deriving DecidableEq

namespace CStr

/-- The string literal `s`; a C string ends at the first NUL, so none is kept. -/
def ofString (s : String) : CStr where
  bytes := (s.toList.map (fun c => UInt8.ofNat c.toNat)).filter (· ≠ 0)
  noNul := by simp

/-- The empty string, which is also what zeroed memory holds. -/
def empty : CStr := ⟨[], List.not_mem_nil⟩

def strlen (s : CStr) : Nat := s.bytes.length

/-- What a buffer of `n + 1` characters keeps of `s`. -/
def truncate (s : CStr) (n : Nat) : CStr :=
  ⟨s.bytes.take n, fun h => s.noNul (List.mem_of_mem_take h)⟩

theorem ext_bytes {s t : CStr} (h : s.bytes = t.bytes) : s = t := by
  cases s
  cases t
  simp only [mk.injEq]
  exact h

theorem truncate_of_le {s : CStr} {n : Nat} (h : s.strlen ≤ n) : s.truncate n = s :=
  ext_bytes (List.take_of_length_le h)

end CStr

/-! ## Strings in a buffer -/

/-- `strcmp(m + a, s) == 0`. -/
def strEqAt (m : Nat → UInt8) (a : Nat) : List UInt8 → Bool
  | [] => m a == 0
  | c :: cs => m a == c && strEqAt m (a + 1) cs

/-- `strlen(m + a)`, for a NUL within the next `fuel` bytes. -/
def strlenAt (m : Nat → UInt8) (a : Nat) : Nat → Nat
  | 0 => 0
  | fuel + 1 => if m a = 0 then 0 else strlenAt m (a + 1) fuel + 1

/-- Store the bytes `bs` at `a`. -/
def writeBytes (m : Nat → UInt8) (a : Nat) (bs : List UInt8) : Nat → UInt8 :=
  fun x => if a ≤ x then (bs[x - a]?).getD (m x) else m x

/-- `strscpy(m + a, s, count)`: the buffer afterwards and the result, the length of `s` or
`-E2BIG` where `s` was cut. -/
def strscpyAt (m : Nat → UInt8) (a : Nat) (s : CStr) (count : Nat) : (Nat → UInt8) × Int :=
  (writeBytes m a ((s.truncate (count - 1)).bytes ++ [0]),
    if s.strlen < count then s.strlen else -7)

theorem strEqAt_iff (m : Nat → UInt8) (a : Nat) (l : List UInt8) :
    strEqAt m a l = true ↔ (∀ k (h : k < l.length), m (a + k) = l[k]) ∧ m (a + l.length) = 0 := by
  induction l generalizing a with
  | nil => simp [strEqAt]
  | cons c cs ih =>
    rw [strEqAt, Bool.and_eq_true, beq_iff_eq, ih]
    constructor
    · rintro ⟨hc, hcs, hz⟩
      refine ⟨?_, ?_⟩
      · intro k hk
        cases k with
        | zero => exact hc
        | succ k =>
          rw [List.getElem_cons_succ, ← hcs k (by simpa using hk)]
          congr 1
          omega
      · rw [List.length_cons, ← hz]
        congr 1
        omega
    · rintro ⟨hall, hz⟩
      refine ⟨hall 0 (by simp), ?_, ?_⟩
      · intro k hk
        have hs := hall (k + 1) (by simpa using hk)
        rw [List.getElem_cons_succ] at hs
        rw [← hs]
        congr 1
        omega
      · rw [← hz, List.length_cons]
        congr 1
        omega

theorem strEqAt_congr {m m' : Nat → UInt8} {a a' : Nat} {l : List UInt8}
    (h : ∀ k, k ≤ l.length → m (a + k) = m' (a' + k)) : strEqAt m a l = strEqAt m' a' l := by
  rw [Bool.eq_iff_iff, strEqAt_iff, strEqAt_iff, h l.length le_rfl]
  constructor
  · rintro ⟨h1, h2⟩
    exact ⟨fun k hk => (h k hk.le).symm.trans (h1 k hk), h2⟩
  · rintro ⟨h1, h2⟩
    exact ⟨fun k hk => (h k hk.le).trans (h1 k hk), h2⟩

/-- Two NUL-free strings read at the same place are one string. -/
theorem strEqAt_unique {m : Nat → UInt8} {a : Nat} : ∀ {s t : List UInt8},
    (0 : UInt8) ∉ s → (0 : UInt8) ∉ t → strEqAt m a s = true → strEqAt m a t = true → s = t := by
  intro s
  induction s generalizing a with
  | nil =>
    intro t _ ht hs htm
    cases t with
    | nil => rfl
    | cons d ds =>
      rw [strEqAt, beq_iff_eq] at hs
      rw [strEqAt, Bool.and_eq_true, beq_iff_eq] at htm
      exact absurd (by rw [← htm.1, hs]; exact List.mem_cons_self) ht
  | cons c cs ih =>
    intro t hs0 ht0 hs ht
    rw [strEqAt, Bool.and_eq_true, beq_iff_eq] at hs
    cases t with
    | nil =>
      rw [strEqAt, beq_iff_eq] at ht
      exact absurd (by rw [← hs.1, ht]; exact List.mem_cons_self) hs0
    | cons d ds =>
      rw [strEqAt, Bool.and_eq_true, beq_iff_eq] at ht
      rw [← hs.1, ← ht.1, ih (fun h => hs0 (List.mem_cons_of_mem _ h))
        (fun h => ht0 (List.mem_cons_of_mem _ h)) hs.2 ht.2]

theorem strEqAt_iff_eq {m : Nat → UInt8} {a : Nat} {s : CStr} (h : strEqAt m a s.bytes = true)
    (t : CStr) : strEqAt m a t.bytes = true ↔ s = t := by
  constructor
  · intro ht
    exact CStr.ext_bytes (strEqAt_unique s.noNul t.noNul h ht)
  · rintro rfl
    exact h

theorem strlenAt_of_strEqAt {m : Nat → UInt8} {l : List UInt8} (h0 : (0 : UInt8) ∉ l) :
    ∀ {a fuel : Nat}, strEqAt m a l = true → l.length < fuel → strlenAt m a fuel = l.length := by
  induction l with
  | nil =>
    intro a fuel h hf
    obtain ⟨f, rfl⟩ : ∃ f, fuel = f + 1 := ⟨fuel - 1, by omega⟩
    rw [strEqAt, beq_iff_eq] at h
    rw [strlenAt, if_pos h, List.length_nil]
  | cons c cs ih =>
    intro a fuel h hf
    obtain ⟨f, rfl⟩ : ∃ f, fuel = f + 1 := ⟨fuel - 1, by omega⟩
    rw [strEqAt, Bool.and_eq_true, beq_iff_eq] at h
    have hc : ¬ m a = 0 := by
      intro hz
      exact h0 (by rw [← hz, h.1]; exact List.mem_cons_self)
    rw [List.length_cons] at hf
    rw [strlenAt, if_neg hc, ih (fun hm => h0 (List.mem_cons_of_mem _ hm)) h.2 (by omega),
      List.length_cons]

theorem writeBytes_of_lt (m : Nat → UInt8) {a x : Nat} (bs : List UInt8) (h : x < a) :
    writeBytes m a bs x = m x := by
  rw [writeBytes, if_neg (by omega)]

theorem writeBytes_of_le (m : Nat → UInt8) {a x : Nat} {bs : List UInt8} (h : a + bs.length ≤ x) :
    writeBytes m a bs x = m x := by
  rw [writeBytes, if_pos (by omega), List.getElem?_eq_none (by omega), Option.getD_none]

theorem writeBytes_outside (m : Nat → UInt8) {a x : Nat} {bs : List UInt8}
    (h : x < a ∨ a + bs.length ≤ x) : writeBytes m a bs x = m x := by
  rcases h with h | h
  · exact writeBytes_of_lt m bs h
  · exact writeBytes_of_le m h

theorem writeBytes_add (m : Nat → UInt8) {a k : Nat} {bs : List UInt8} (h : k < bs.length) :
    writeBytes m a bs (a + k) = bs[k] := by
  rw [writeBytes, if_pos (by omega), Nat.add_sub_cancel_left, List.getElem?_eq_getElem h,
    Option.getD_some]

section Disjoint

variable (m : Nat → UInt8) {a a' : Nat} {bs : List UInt8}

theorem readLE_writeBytes {n : Nat} (h : a' + n ≤ a ∨ a + bs.length ≤ a') :
    readLE (writeBytes m a bs) a' n = readLE m a' n := by
  apply readLE_congr
  intro k hk
  rcases h with h | h
  · exact writeBytes_of_lt _ _ (by omega)
  · exact writeBytes_of_le _ (by omega)

theorem read16_writeBytes (h : a' + 2 ≤ a ∨ a + bs.length ≤ a') :
    read16 (writeBytes m a bs) a' = read16 m a' := by
  rw [read16, readLE_writeBytes m h, read16]

theorem read32_writeBytes (h : a' + 4 ≤ a ∨ a + bs.length ≤ a') :
    read32 (writeBytes m a bs) a' = read32 m a' := by
  rw [read32, readLE_writeBytes m h, read32]

theorem read64_writeBytes (h : a' + 8 ≤ a ∨ a + bs.length ≤ a') :
    read64 (writeBytes m a bs) a' = read64 m a' := by
  rw [read64, readLE_writeBytes m h, read64]

end Disjoint

theorem strEqAt_writeBytes (m : Nat → UInt8) (a : Nat) (l : List UInt8) :
    strEqAt (writeBytes m a (l ++ [0])) a l = true := by
  rw [strEqAt_iff]
  refine ⟨?_, ?_⟩
  · intro k hk
    rw [writeBytes_add _ (by rw [List.length_append]; omega), List.getElem_append_left hk]
  · rw [writeBytes_add _ (by rw [List.length_append, List.length_singleton]; omega),
      List.getElem_append_right le_rfl]
    simp

theorem strEqAt_writeLE (m : Nat → UInt8) {a n v a' : Nat} {l : List UInt8}
    (h : a' + l.length < a ∨ a + n ≤ a') : strEqAt (writeLE m a n v) a' l = strEqAt m a' l := by
  apply strEqAt_congr
  intro k hk
  exact writeLE_outside _ (by omega)

theorem strEqAt_writeBytes_disjoint (m : Nat → UInt8) {a a' : Nat} {bs l : List UInt8}
    (h : a' + l.length < a ∨ a + bs.length ≤ a') :
    strEqAt (writeBytes m a bs) a' l = strEqAt m a' l := by
  apply strEqAt_congr
  intro k hk
  exact writeBytes_outside _ (by omega)

/-- A string that fits is copied whole. -/
theorem strscpyAt_of_lt (m : Nat → UInt8) (a : Nat) {s : CStr} {count : Nat}
    (h : s.strlen < count) :
    strscpyAt m a s count = (writeBytes m a (s.bytes ++ [0]), (s.strlen : Int)) := by
  rw [strscpyAt, CStr.truncate_of_le (by omega), if_pos h]

/-! ## String tables -/

/-- The bytes `ss` takes in a string table. -/
def packedLen (ss : List CStr) : Nat := (ss.map (fun s => s.strlen + 1)).sum

/-- The strings `ss` are laid end to end from `a` on. -/
def Packed (m : Nat → UInt8) (a : Nat) : List CStr → Prop
  | [] => True
  | s :: ss => strEqAt m a s.bytes = true ∧ Packed m (a + (s.strlen + 1)) ss

@[simp] theorem packedLen_nil : packedLen [] = 0 := rfl

@[simp] theorem packedLen_cons (s : CStr) (ss : List CStr) :
    packedLen (s :: ss) = s.strlen + 1 + packedLen ss := rfl

@[simp] theorem packedLen_append (ss ts : List CStr) :
    packedLen (ss ++ ts) = packedLen ss + packedLen ts := by
  simp [packedLen]

theorem packedLen_le_mul {ss : List CStr} {c : Nat} (h : ∀ s ∈ ss, s.strlen + 1 ≤ c) :
    packedLen ss ≤ c * ss.length := by
  induction ss with
  | nil => simp
  | cons s ss ih =>
    have hs := h s List.mem_cons_self
    have ht := ih (fun t ht => h t (List.mem_cons_of_mem _ ht))
    rw [packedLen_cons, List.length_cons, Nat.mul_succ]
    omega

theorem packedLen_take_succ {ss : List CStr} {i : Nat} (h : i < ss.length) :
    packedLen (ss.take (i + 1)) = packedLen (ss.take i) + (ss[i].strlen + 1) := by
  rw [List.take_succ_eq_append_getElem h, packedLen_append, packedLen_cons, packedLen_nil,
    Nat.add_zero]

theorem packedLen_take_mono (ss : List CStr) {i j : Nat} (h : i ≤ j) :
    packedLen (ss.take i) ≤ packedLen (ss.take j) := by
  obtain ⟨k, rfl⟩ : ∃ k, j = i + k := ⟨j - i, by omega⟩
  rw [List.take_add, packedLen_append]
  omega

theorem packedLen_take_le (ss : List CStr) (i : Nat) : packedLen (ss.take i) ≤ packedLen ss := by
  have hmono := packedLen_take_mono ss (Nat.le_add_right i ss.length)
  rwa [List.take_of_length_le (Nat.le_add_left _ _)] at hmono

theorem packedLen_eraseIdx {ss : List CStr} {i : Nat} (h : i < ss.length) :
    packedLen (ss.eraseIdx i) + (ss[i].strlen + 1) = packedLen ss := by
  have hsplit : packedLen ss = packedLen (ss.take (i + 1)) + packedLen (ss.drop (i + 1)) := by
    rw [← packedLen_append, List.take_append_drop]
  rw [List.eraseIdx_eq_take_drop_succ, packedLen_append, hsplit, packedLen_take_succ h]
  omega

theorem Packed.congr {m m' : Nat → UInt8} : ∀ {ss : List CStr} {a a' : Nat}, Packed m a ss →
    (∀ k, k < packedLen ss → m (a + k) = m' (a' + k)) → Packed m' a' ss := by
  intro ss
  induction ss with
  | nil => intro a a' _ _; exact trivial
  | cons s ss ih =>
    intro a a' h hk
    rw [packedLen_cons] at hk
    refine ⟨?_, ih h.2 ?_⟩
    · rw [← strEqAt_congr (m := m) (a := a)]
      · exact h.1
      · intro k hle
        have : s.bytes.length = s.strlen := rfl
        exact hk k (by omega)
    · intro k hlt
      rw [Nat.add_assoc a, Nat.add_assoc a']
      exact hk (s.strlen + 1 + k) (by omega)

theorem packed_append {m : Nat → UInt8} : ∀ {ss ts : List CStr} {a : Nat},
    Packed m a (ss ++ ts) ↔ Packed m a ss ∧ Packed m (a + packedLen ss) ts := by
  intro ss
  induction ss with
  | nil => intro ts a; simp [Packed]
  | cons s ss ih =>
    intro ts a
    rw [List.cons_append, Packed, Packed, ih, packedLen_cons, and_assoc, Nat.add_assoc]

theorem Packed.getElem {m : Nat → UInt8} {ss : List CStr} {a i : Nat} (h : Packed m a ss)
    (hi : i < ss.length) : strEqAt m (a + packedLen (ss.take i)) ss[i].bytes = true := by
  have hsplit : ss = ss.take i ++ ss[i] :: ss.drop (i + 1) := by
    rw [List.getElem_cons_drop, List.take_append_drop]
  rw [hsplit, packed_append] at h
  exact h.2.1

/-- **Removing a string**: the bytes after it are moved down over it. -/
theorem Packed.eraseIdx {m : Nat → UInt8} {ss : List CStr} {a i n : Nat} (h : Packed m a ss)
    (hi : i < ss.length) (hn : packedLen ss ≤ packedLen (ss.take i) + n) :
    Packed (memmove m (a + packedLen (ss.take i))
      (a + packedLen (ss.take i) + (ss[i].strlen + 1)) n) a (ss.eraseIdx i) := by
  have hsplit : ss = ss.take i ++ ss[i] :: ss.drop (i + 1) := by
    rw [List.getElem_cons_drop, List.take_append_drop]
  have hlen : packedLen ss =
      packedLen (ss.take i) + (ss[i].strlen + 1 + packedLen (ss.drop (i + 1))) := by
    conv_lhs => rw [hsplit]
    rw [packedLen_append, packedLen_cons]
  rw [hsplit, packed_append] at h
  obtain ⟨hpre, _, hpost⟩ := h
  rw [List.eraseIdx_eq_take_drop_succ, packed_append]
  refine ⟨hpre.congr ?_, hpost.congr ?_⟩
  · intro k hk
    exact (memmove_of_lt _ (by omega)).symm
  · intro k hk
    exact (memmove_add _ (by omega)).symm

/-- The offset of a string after string `i` was removed: unchanged before `i`, lower by the
removed string after it. -/
theorem packedLen_take_eraseIdx {ss : List CStr} {i j : Nat} (hi : i < ss.length) :
    packedLen ((ss.eraseIdx i).take j) =
      if j ≤ i then packedLen (ss.take j)
      else packedLen (ss.take (j + 1)) - (ss[i].strlen + 1) := by
  by_cases hj : j ≤ i
  · rw [if_pos hj, List.eraseIdx_eq_take_drop_succ, List.take_append_of_le_length
      (by rw [List.length_take]; omega), List.take_take, Nat.min_eq_left hj]
  · rw [if_neg hj, List.eraseIdx_eq_take_drop_succ, List.take_append, packedLen_append,
      List.take_of_length_le (by rw [List.length_take]; omega), List.length_take,
      Nat.min_eq_left (by omega)]
    have hsplit : ss.take (j + 1) = ss.take (i + 1) ++ (ss.drop (i + 1)).take (j - i) := by
      rw [show j + 1 = (i + 1) + (j - i) by omega, List.take_add]
    rw [hsplit, packedLen_append, packedLen_take_succ hi]
    omega

end CMemory
