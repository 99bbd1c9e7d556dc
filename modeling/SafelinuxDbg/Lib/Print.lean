import SafelinuxDbg.Lib.Blocks

/-!
# Printing into a buffer

`scnprintf` cuts a text off where the buffer ends, puts a NUL behind it, and returns how much of the
text it has stored.  The bytes behind the NUL stay what they were.

* `scnprintf_outside`: nothing else is written.
* `slice_scnprintf`: a text that fits is there, and its NUL.
* `length_decimal_le_iff`: the number of digits of `%u`.
* `printLines`: lines printed one behind the other until the buffer is full.  The text is whole if
  the number returned says so (`slice_printLines`), and it is when the buffer did not get full
  (`printLines_whole`).
* `scnprintfStores`, `printLinesStores`: the blocks that are stored, in their order.
* `string_of_slice`: the string that stands in a buffer.
* `HoldsText.print`: a buffer that is filled line by line holds the lines up to its end.
-/

namespace CMemory

/-- The bytes of a text in ASCII. -/
def asciiBytes (text : List Char) : List UInt8 := text.map (fun c => UInt8.ofNat c.toNat)

/-- `%u` and `%lu`. -/
def decimal (n : Nat) : List UInt8 := asciiBytes (Nat.toDigits 10 n)

theorem length_decimal_le_iff {n k : Nat} (hk : 0 < k) :
    (decimal n).length ≤ k ↔ n < 10 ^ k := by
  rw [decimal, asciiBytes, List.length_map]
  exact Nat.length_toDigits_le_iff (by decide) hk

theorem toDigits_range {n : Nat} {c : Char} (h : c ∈ Nat.toDigits 10 n) :
    48 ≤ c.toNat ∧ c.toNat ≤ 57 := by
  have hdigit := Nat.isDigit_of_mem_toDigits (by decide) (by decide) h
  rw [Char.isDigit, Bool.and_eq_true, decide_eq_true_eq, decide_eq_true_eq] at hdigit
  exact ⟨UInt32.le_iff_toNat_le.mp hdigit.1, UInt32.le_iff_toNat_le.mp hdigit.2⟩

/-- The bytes of a number are digits. -/
theorem mem_decimal {n : Nat} {b : UInt8} (h : b ∈ decimal n) : 48 ≤ b.toNat ∧ b.toNat ≤ 57 := by
  obtain ⟨c, hc, rfl⟩ := List.mem_map.mp h
  have hrange := toDigits_range hc
  rw [UInt8.toNat_ofNat', Nat.mod_eq_of_lt (by omega)]
  exact hrange

theorem decimal_noNul (n : Nat) : (0 : UInt8) ∉ decimal n := by
  intro h
  exact absurd (mem_decimal h).1 (by decide)

/-- What `scnprintf` stores in a buffer of `size` bytes. -/
def cutText (size : Nat) (text : List UInt8) : List UInt8 :=
  if size = 0 then [] else text.take (size - 1) ++ [0]

/-- `scnprintf` of a text to a buffer of `size` bytes at `a`, and the number it returns.  A size above
`INT_MAX` is taken for a mistake, and nothing is stored. -/
def scnprintf (m : Nat → UInt8) (a size : Nat) (text : List UInt8) : (Nat → UInt8) × Nat :=
  if 2 ^ 31 ≤ size then (m, 0)
  else (storeAt m a (cutText size text), min text.length (size - 1))

section Print

variable {m : Nat → UInt8} {a size x : Nat} {text : List UInt8}

theorem length_cutText_le (size : Nat) (text : List UInt8) :
    (cutText size text).length ≤ min text.length (size - 1) + 1 := by
  rw [cutText]
  split
  · exact Nat.zero_le _
  · rw [List.length_append, List.length_take, List.length_singleton, Nat.min_comm]

theorem cutText_of_lt (h : text.length < size) : cutText size text = text ++ [0] := by
  rw [cutText, if_neg (by omega), List.take_of_length_le (by omega)]

theorem scnprintf_of_lt (m : Nat → UInt8) (a : Nat) (text : List UInt8) (hs : size < 2 ^ 31) :
    scnprintf m a size text = (storeAt m a (cutText size text), min text.length (size - 1)) :=
  if_neg (by omega)

theorem scnprintf_huge (m : Nat → UInt8) (a : Nat) (text : List UInt8) (hs : 2 ^ 31 ≤ size) :
    scnprintf m a size text = (m, 0) := if_pos hs

theorem scnprintf_le (m : Nat → UInt8) (a size : Nat) (text : List UInt8) :
    (scnprintf m a size text).2 ≤ min text.length (size - 1) := by
  rw [scnprintf]
  split
  · exact Nat.zero_le _
  · exact Nat.le_refl _

/-- Only the text and its NUL are written. -/
theorem scnprintf_kept (m : Nat → UInt8)
    (h : x < a ∨ a + (scnprintf m a size text).2 + 1 ≤ x) : (scnprintf m a size text).1 x = m x := by
  by_cases hs : size < 2 ^ 31
  · rw [scnprintf_of_lt m a text hs] at h ⊢
    have hlen := length_cutText_le size text
    exact storeAt_outside m (by omega)
  · rw [scnprintf_huge m a text (by omega)]

theorem scnprintf_outside (m : Nat → UInt8)
    (h : x < a ∨ a + min text.length (size - 1) + 1 ≤ x) : (scnprintf m a size text).1 x = m x := by
  have hle := scnprintf_le m a size text
  exact scnprintf_kept m (by omega)

theorem scnprintf_below (m : Nat → UInt8) (size : Nat) (text : List UInt8) (h : x < a) :
    (scnprintf m a size text).1 x = m x := scnprintf_kept m (Or.inl h)

theorem slice_scnprintf (m : Nat → UInt8) (a : Nat) (hs : size < 2 ^ 31) (h : text.length < size) :
    slice (scnprintf m a size text).1 a (text.length + 1) = text ++ [0] := by
  have hlen : text.length + 1 = (text ++ [0]).length := by
    rw [List.length_append, List.length_singleton]
  rw [scnprintf_of_lt m a text hs, cutText_of_lt h, hlen, slice_storeAt]

/-- A text is there when the number returned is its length. -/
theorem slice_scnprintf_whole (m : Nat → UInt8) (a : Nat)
    (h : (scnprintf m a size text).2 = text.length) :
    slice (scnprintf m a size text).1 a text.length = text := by
  by_cases hnil : text = []
  · rw [hnil]
    rfl
  · have hpos := List.length_pos_of_ne_nil hnil
    have hle := scnprintf_le m a size text
    have hs : size < 2 ^ 31 := by
      by_contra hs
      rw [scnprintf_huge m a text (by omega)] at h
      exact absurd h (by omega)
    have hslice := slice_scnprintf m a hs (by omega : text.length < size)
    rw [slice_succ] at hslice
    exact (List.append_inj' hslice rfl).1

/-- A text that is not whole fills the buffer. -/
theorem scnprintf_whole (m : Nat → UInt8) (a : Nat) (hs : size < 2 ^ 31) (hpos : 0 < size)
    (h : (scnprintf m a size text).2 + 1 ≠ size) : (scnprintf m a size text).2 = text.length := by
  rw [scnprintf_of_lt m a text hs] at h ⊢
  have h' : min text.length (size - 1) + 1 ≠ size := h
  show min text.length (size - 1) = text.length
  omega

end Print

/-! ## Lines behind one another -/

/-- Lines printed to a buffer of `count` bytes at `a`, from the position `ret` on, until it is full;
the number returned is the position reached. -/
def printLines (m : Nat → UInt8) (a count ret : Nat) : List (List UInt8) → (Nat → UInt8) × Nat
  | [] => (m, ret)
  | line :: lines =>
    let r := scnprintf m (a + ret) (count - ret) line
    if ret + r.2 + 1 = count then (r.1, ret + r.2)
    else printLines r.1 a count (ret + r.2) lines

section Lines

variable {a count x : Nat}

theorem printLines_bounds (a count : Nat) (lines : List (List UInt8)) : ∀ (m : Nat → UInt8) (ret : Nat),
    ret ≤ (printLines m a count ret lines).2 ∧
      (printLines m a count ret lines).2 ≤ ret + lines.flatten.length ∧
      (ret < count → (printLines m a count ret lines).2 < count) := by
  induction lines with
  | nil => exact fun m ret => ⟨Nat.le_refl _, Nat.le_add_right _ _, id⟩
  | cons line lines ih =>
    intro m ret
    have hle := scnprintf_le m (a + ret) (count - ret) line
    rw [printLines, List.flatten_cons, List.length_append]
    split
    case isTrue =>
      dsimp only
      omega
    case isFalse =>
      have h := ih (scnprintf m (a + ret) (count - ret) line).1
        (ret + (scnprintf m (a + ret) (count - ret) line).2)
      omega

/-- Only the text and its NUL are written. -/
theorem printLines_kept (lines : List (List UInt8)) : ∀ (m : Nat → UInt8) (ret : Nat),
    (x < a + ret ∨ a + (printLines m a count ret lines).2 + 1 ≤ x) →
      (printLines m a count ret lines).1 x = m x := by
  induction lines with
  | nil => exact fun m ret _ => rfl
  | cons line lines ih =>
    intro m ret hx
    rw [printLines] at hx ⊢
    split at hx
    case isTrue hfull =>
      rw [if_pos hfull]
      exact scnprintf_kept m (by dsimp only at hx; omega)
    case isFalse hfull =>
      have hbounds := printLines_bounds a count lines
        (scnprintf m (a + ret) (count - ret) line).1
        (ret + (scnprintf m (a + ret) (count - ret) line).2)
      rw [if_neg hfull, ih _ _ (by omega)]
      exact scnprintf_kept m (by omega)

/-- The whole text is there when the position reached says so. -/
theorem slice_printLines (lines : List (List UInt8)) : ∀ (m : Nat → UInt8) (ret : Nat),
    (printLines m a count ret lines).2 = ret + lines.flatten.length →
      slice (printLines m a count ret lines).1 (a + ret) lines.flatten.length = lines.flatten := by
  induction lines with
  | nil => exact fun m ret _ => rfl
  | cons line lines ih =>
    intro m ret h
    have hle := scnprintf_le m (a + ret) (count - ret) line
    rw [printLines, List.flatten_cons, List.length_append] at h ⊢
    split at h
    case isTrue hfull =>
      -- what is left to print is empty
      dsimp only at h
      have hnil : lines.flatten = [] := List.eq_nil_of_length_eq_zero (by omega)
      rw [if_pos hfull, hnil, List.length_nil, Nat.add_zero, List.append_nil]
      exact slice_scnprintf_whole m (a + ret) (by omega)
    case isFalse hfull =>
      have hbounds := printLines_bounds a count lines
        (scnprintf m (a + ret) (count - ret) line).1
        (ret + (scnprintf m (a + ret) (count - ret) line).2)
      have hline : (scnprintf m (a + ret) (count - ret) line).2 = line.length := by omega
      have hrest := ih (scnprintf m (a + ret) (count - ret) line).1
        (ret + (scnprintf m (a + ret) (count - ret) line).2) (by omega)
      rw [if_neg hfull, slice_add]
      congr 1
      · refine (slice_congr (fun i hi => ?_)).trans (slice_scnprintf_whole m (a + ret) hline)
        exact printLines_kept lines _ _ (by omega)
      · rw [hline, ← Nat.add_assoc] at hrest
        rw [hline]
        exact hrest

/-- The whole text is printed unless the buffer gets full. -/
theorem printLines_whole (lines : List (List UInt8)) : ∀ (m : Nat → UInt8) (ret : Nat),
    count < 2 ^ 31 → ret < count → (printLines m a count ret lines).2 + 1 ≠ count →
      (printLines m a count ret lines).2 = ret + lines.flatten.length := by
  induction lines with
  | nil => exact fun m ret _ _ _ => rfl
  | cons line lines ih =>
    intro m ret hc hret h
    have hle := scnprintf_le m (a + ret) (count - ret) line
    rw [printLines, List.flatten_cons, List.length_append] at *
    split at h
    case isTrue hfull => exact absurd hfull h
    case isFalse hfull =>
      have hline := scnprintf_whole m (a + ret) (by omega : count - ret < 2 ^ 31) (by omega)
        (by omega : (scnprintf m (a + ret) (count - ret) line).2 + 1 ≠ count - ret)
      rw [if_neg hfull, ih _ _ hc (by omega) h]
      omega

/-- The position that is reached. -/
theorem printLines_snd (lines : List (List UInt8)) (m : Nat → UInt8) {ret : Nat}
    (hc : count < 2 ^ 31) (hret : ret < count) :
    (printLines m a count ret lines).2 = min (ret + lines.flatten.length) (count - 1) := by
  obtain ⟨-, hle, hlt⟩ := printLines_bounds a count lines m ret
  have hlt := hlt hret
  by_cases hfull : (printLines m a count ret lines).2 + 1 = count
  · omega
  · have hwhole := printLines_whole lines m ret hc hret hfull
    omega

/-- Nothing is printed to a buffer of no bytes, or of more than `INT_MAX`. -/
theorem printLines_none (lines : List (List UInt8)) (hc : count = 0 ∨ 2 ^ 31 ≤ count) :
    ∀ m : Nat → UInt8, (printLines m a count 0 lines).2 = 0 := by
  induction lines with
  | nil => exact fun m => rfl
  | cons line lines ih =>
    intro m
    have hnone : (scnprintf m (a + 0) (count - 0) line).2 = 0 := by
      cases hc with
      | inl hzero =>
        have hle := scnprintf_le m (a + 0) (count - 0) line
        omega
      | inr hhuge => rw [scnprintf_huge m (a + 0) line (by omega)]
    rw [printLines, hnone, if_neg (by omega)]
    exact ih _

end Lines

/-! ## The blocks that are stored -/

/-- The number `scnprintf` returns. -/
def printed (size : Nat) (text : List UInt8) : Nat :=
  if 2 ^ 31 ≤ size then 0 else min text.length (size - 1)

/-- What `scnprintf` stores. -/
def scnprintfStores (a size : Nat) (text : List UInt8) : List (Nat × List UInt8) :=
  if 2 ^ 31 ≤ size then [] else [(a, cutText size text)]

/-- What `printLines` stores. -/
def printLinesStores (a count ret : Nat) : List (List UInt8) → List (Nat × List UInt8)
  | [] => []
  | line :: lines =>
    let n := printed (count - ret) line
    scnprintfStores (a + ret) (count - ret) line ++
      if ret + n + 1 = count then [] else printLinesStores a count (ret + n) lines

section Stores

variable {a count size : Nat} {text : List UInt8}

theorem scnprintf_eq (m : Nat → UInt8) (a size : Nat) (text : List UInt8) :
    scnprintf m a size text = (storeAll m (scnprintfStores a size text), printed size text) := by
  rw [scnprintf, scnprintfStores, printed]
  split
  · rfl
  · rfl

theorem printed_lt (h : 0 < size) (text : List UInt8) : printed size text < size := by
  rw [printed]
  split
  · exact h
  · omega

theorem scnprintfStores_inside {b : Nat × List UInt8} (hb : b ∈ scnprintfStores a size text) :
    b.1 = a ∧ b.2.length ≤ size := by
  rw [scnprintfStores] at hb
  split at hb
  · cases hb
  · cases List.mem_singleton.mp hb
    refine ⟨rfl, ?_⟩
    rw [cutText]
    split
    · exact Nat.zero_le _
    · rw [List.length_append, List.length_take, List.length_singleton]
      omega

/-- The NUL is the last byte that is stored. -/
theorem scnprintfStores_last (a : Nat) (text : List UInt8) (hs : size < 2 ^ 31) (hpos : 0 < size) :
    (a, cutText size text) ∈ scnprintfStores a size text ∧
      (cutText size text).length = printed size text + 1 := by
  rw [scnprintfStores, if_neg (by omega), printed, if_neg (by omega), cutText, if_neg (by omega),
    List.length_append, List.length_take, List.length_singleton]
  exact ⟨List.mem_singleton_self _, by omega⟩

/-- A line, and the others unless the buffer is full. -/
theorem printLines_cons (m : Nat → UInt8) (a count ret : Nat) (line : List UInt8)
    (lines : List (List UInt8)) :
    printLines m a count ret (line :: lines) =
      let m := storeAll m (scnprintfStores (a + ret) (count - ret) line)
      let n := printed (count - ret) line
      if ret + n + 1 = count then (m, ret + n) else printLines m a count (ret + n) lines := by
  rw [printLines, scnprintf_eq]

/-- The NUL behind the last line. -/
theorem printLinesStores_last (m : Nat → UInt8) (hc : count < 2 ^ 31) (line : List UInt8)
    (lines : List (List UInt8)) : ∀ ret : Nat, ret < count →
      ∃ b ∈ printLinesStores a count ret (line :: lines),
        b.1 + b.2.length = a + (printLines m a count ret (line :: lines)).2 + 1 := by
  induction lines generalizing line m with
  | nil =>
    intro ret hret
    obtain ⟨hmem, hlength⟩ := scnprintfStores_last (a + ret) line
      (by omega : count - ret < 2 ^ 31) (by omega)
    have hreached : (printLines m a count ret [line]).2 = ret + printed (count - ret) line := by
      rw [printLines_cons]
      dsimp only
      split
      · rfl
      · rfl
    refine ⟨_, List.mem_append_left _ hmem, ?_⟩
    rw [hlength, hreached]
    omega
  | cons next lines ih =>
    intro ret hret
    have hlt := printed_lt (by omega : 0 < count - ret) line
    rw [printLines_cons]
    dsimp only
    by_cases hfull : ret + printed (count - ret) line + 1 = count
    · obtain ⟨hmem, hlength⟩ := scnprintfStores_last (a + ret) line
        (by omega : count - ret < 2 ^ 31) (by omega)
      refine ⟨_, List.mem_append_left _ hmem, ?_⟩
      rw [if_pos hfull, hlength]
      dsimp only
      omega
    · obtain ⟨b, hb, hend⟩ := ih (storeAll m (scnprintfStores (a + ret) (count - ret) line)) next
        (ret + printed (count - ret) line) (by omega)
      refine ⟨b, List.mem_append_right _ (by rw [if_neg hfull]; exact hb), ?_⟩
      rw [if_neg hfull]
      exact hend

/-- Nothing is stored behind that NUL. -/
theorem printLinesStores_le {b : Nat × List UInt8} (lines : List (List UInt8)) :
    ∀ (m : Nat → UInt8) (ret : Nat), ret < count → b ∈ printLinesStores a count ret lines →
      a + ret ≤ b.1 ∧ b.1 + b.2.length ≤ a + (printLines m a count ret lines).2 + 1 := by
  induction lines with
  | nil => exact fun m ret _ hb => absurd hb List.not_mem_nil
  | cons line lines ih =>
    intro m ret hret hb
    have hlt := printed_lt (by omega : 0 < count - ret) line
    have hline : ∀ b ∈ scnprintfStores (a + ret) (count - ret) line,
        b.1 = a + ret ∧ b.1 + b.2.length ≤ a + ret + printed (count - ret) line + 1 := by
      intro b hb
      rw [scnprintfStores] at hb
      split at hb
      · cases hb
      · rename_i hs
        cases List.mem_singleton.mp hb
        have hlength := (scnprintfStores_last (a + ret) line (by omega : count - ret < 2 ^ 31)
          (by omega)).2
        exact ⟨rfl, by dsimp only; omega⟩
    rw [printLines_cons]
    dsimp only
    rcases List.mem_append.mp hb with hb | hb
    · obtain ⟨hstart, hend⟩ := hline b hb
      split
      · dsimp only
        omega
      · have hbounds := printLines_bounds a count lines
          (storeAll m (scnprintfStores (a + ret) (count - ret) line))
          (ret + printed (count - ret) line)
        omega
    · split at hb
      · cases hb
      · rename_i hfull
        have hrest := ih (storeAll m (scnprintfStores (a + ret) (count - ret) line)) _ (by omega) hb
        rw [if_neg hfull]
        omega

theorem printLines_eq_storeAll (a count : Nat) (lines : List (List UInt8)) :
    ∀ (m : Nat → UInt8) (ret : Nat),
      (printLines m a count ret lines).1 = storeAll m (printLinesStores a count ret lines) := by
  induction lines with
  | nil => exact fun m ret => rfl
  | cons line lines ih =>
    intro m ret
    rw [printLines_cons, printLinesStores, storeAll_append]
    dsimp only
    split
    · rfl
    · exact ih _ _

theorem scnprintf_nul (m : Nat → UInt8) (a : Nat) (text : List UInt8) (hs : size < 2 ^ 31)
    (hpos : 0 < size) : (scnprintf m a size text).1 (a + printed size text) = 0 := by
  have hlast : (cutText size text)[printed size text]? = some 0 := by
    have hnul : (text.take (size - 1)).length = printed size text := by
      rw [List.length_take, printed, if_neg (by omega), Nat.min_comm]
    rw [cutText, if_neg (by omega), ← hnul]
    exact List.getElem?_concat_length
  rw [scnprintf_of_lt m a text hs]
  show storeAt m a (cutText size text) (a + printed size text) = 0
  rw [storeAt, if_pos (by omega), Nat.add_sub_cancel_left, hlast, Option.getD_some]

/-- The NUL behind the text. -/
theorem printLines_nul (hc : count < 2 ^ 31) (line : List UInt8) (lines : List (List UInt8)) :
    ∀ (m : Nat → UInt8) (ret : Nat), ret < count →
      (printLines m a count ret (line :: lines)).1
        (a + (printLines m a count ret (line :: lines)).2) = 0 := by
  induction lines generalizing line with
  | nil =>
    intro m ret hret
    have hnul := scnprintf_nul m (a + ret) line (by omega : count - ret < 2 ^ 31) (by omega)
    rw [scnprintf_eq, Nat.add_assoc] at hnul
    rw [printLines_cons]
    dsimp only
    split
    · exact hnul
    · exact hnul
  | cons next lines ih =>
    intro m ret hret
    have hlt := printed_lt (by omega : 0 < count - ret) line
    rw [printLines_cons]
    dsimp only
    split
    · have hnul := scnprintf_nul m (a + ret) line (by omega : count - ret < 2 ^ 31) (by omega)
      rw [scnprintf_eq, Nat.add_assoc] at hnul
      exact hnul
    · rename_i hfull
      exact ih next _ _ (by omega)

theorem printLinesStores_huge (lines : List (List UInt8)) (hc : 2 ^ 31 ≤ count) :
    printLinesStores a count 0 lines = [] := by
  induction lines with
  | nil => rfl
  | cons line lines ih =>
    have hprinted : printed (count - 0) line = 0 := if_pos hc
    have hstores : scnprintfStores (a + 0) (count - 0) line = [] := if_pos hc
    rw [printLinesStores, hprinted, hstores, if_neg (by omega), List.nil_append]
    exact ih

/-- The lines stay in the buffer. -/
theorem printLinesStores_inside {b : Nat × List UInt8} (lines : List (List UInt8)) : ∀ ret : Nat,
    ret ≤ count → b ∈ printLinesStores a count ret lines →
      a + ret ≤ b.1 ∧ b.1 + b.2.length ≤ a + count := by
  induction lines with
  | nil => exact fun ret _ hb => absurd hb List.not_mem_nil
  | cons line lines ih =>
    intro ret hret hb
    have hle : printed (count - ret) line ≤ count - ret := by
      rcases Nat.eq_zero_or_pos (count - ret) with hzero | hpos
      · rw [hzero, printed]
        split <;> omega
      · exact Nat.le_of_lt (printed_lt hpos line)
    rcases List.mem_append.mp hb with hb | hb
    · obtain ⟨hstart, hlength⟩ := scnprintfStores_inside hb
      omega
    · split at hb
      · cases hb
      · have hrest := ih _ (by omega) hb
        omega

end Stores

/-! ## The string in a buffer -/

/-- The string ends at its NUL. -/
theorem takeWhile_string {line rest : List UInt8} (h : (0 : UInt8) ∉ line) :
    (line ++ 0 :: rest).takeWhile (· ≠ 0) = line := by
  rw [List.takeWhile_append_of_pos, List.takeWhile_cons_of_neg (by simp), List.append_nil]
  intro c hc
  simp only [decide_eq_true_eq]
  exact fun h0 => h (h0 ▸ hc)

/-- The string of a buffer in which a text and its NUL stand. -/
theorem string_of_slice {m : Nat → UInt8} {a size : Nat} {text : List UInt8}
    (hslice : slice m a (text.length + 1) = text ++ [0]) (hnul : (0 : UInt8) ∉ text)
    (hfits : text.length < size) : (slice m a size).takeWhile (· ≠ 0) = text := by
  have hsize : size = (text.length + 1) + (size - (text.length + 1)) := by omega
  rw [hsize, slice_add, hslice, List.append_assoc]
  exact takeWhile_string hnul

/-! ## A buffer that is filled -/

/-- The buffer of `count` bytes at `a` holds as much of `text` as it has room for, up to `offset`. -/
structure HoldsText (m : Nat → UInt8) (a count offset : Nat) (text : List UInt8) : Prop where
  offset_eq : offset = min text.length (count - 1)
  slice_eq : slice m a offset = text.take (count - 1)

namespace HoldsText

variable {m : Nat → UInt8} {a count offset : Nat} {text : List UInt8}

theorem nil (m : Nat → UInt8) (a count : Nat) : HoldsText m a count 0 [] := ⟨by simp, by simp [slice]⟩

theorem lt (h : HoldsText m a count offset text) (hpos : 0 < count) : offset < count := by
  have := h.offset_eq
  omega

/-- The buffer is full when the text reaches its last byte. -/
theorem full_iff (h : HoldsText m a count offset text) (hpos : 0 < count) :
    offset + 1 = count ↔ count ≤ text.length + 1 := by
  have := h.offset_eq
  omega

/-- Nothing more goes into a full buffer. -/
theorem append_of_full (h : HoldsText m a count offset text) (hfull : offset + 1 = count)
    (more : List UInt8) : HoldsText m a count offset (text ++ more) where
  offset_eq := by
    have := h.offset_eq
    rw [List.length_append]
    omega
  slice_eq := by
    have := h.offset_eq
    rw [h.slice_eq, List.take_append_of_le_length (by omega)]

/-- A line printed behind the text. -/
theorem print (h : HoldsText m a count offset text) (hs : count < 2 ^ 31) (hpos : 0 < count)
    (line : List UInt8) :
    HoldsText (scnprintf m (a + offset) (count - offset) line).1 a count
      (offset + printed (count - offset) line) (text ++ line) := by
  have hoffset := h.offset_eq
  have hprinted : printed (count - offset) line = min line.length (count - offset - 1) :=
    if_neg (by omega)
  refine ⟨?_, ?_⟩
  · rw [hprinted, List.length_append]
    omega
  · have hkept : slice (scnprintf m (a + offset) (count - offset) line).1 a offset =
        slice m a offset := slice_congr fun i hi => scnprintf_below m _ line (by omega)
    have hline : slice (scnprintf m (a + offset) (count - offset) line).1 (a + offset)
        (printed (count - offset) line) = line.take (count - offset - 1) := by
      have hlength : printed (count - offset) line + 1 =
          (cutText (count - offset) line).length := by
        rw [(scnprintfStores_last (a + offset) line (by omega : count - offset < 2 ^ 31)
          (by omega)).2]
      have hslice := slice_storeAt m (a + offset) (cutText (count - offset) line)
      rw [← hlength, slice_succ, cutText, if_neg (by omega)] at hslice
      rw [scnprintf_of_lt m (a + offset) line (by omega), cutText, if_neg (by omega)]
      exact (List.append_inj' hslice rfl).1
    rw [slice_add, hkept, hline, h.slice_eq, List.take_append]
    congr 2
    omega

end HoldsText

end CMemory
