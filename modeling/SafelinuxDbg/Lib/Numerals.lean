import Mathlib.Data.List.Nodup
import Mathlib.Data.List.Perm.Subperm
import SafelinuxDbg.Lib.CString
import SafelinuxDbg.Lib.Print

/-!
# Numbers in names

Names that are made of a number and a fixed text, and cut off where their buffer ends.

* `decimal_injective`, `signedDecimal_injective`: a number is known from its digits.
* `take_decimal_earlier_iff`: numbers that look alike when they are cut off.
* `before_inj`: what stands before a separator is not lost when the text is cut off behind it.
* `ofHex_hexadecimal`: a number is read back from its hexadecimal digits.
* `CStr.decimal`, `CStr.signedDecimal`: the strings of `%d`.
* `exists_unused_decimals`: there are always names that are not used yet.
-/

namespace CMemory

/-! ## Digits -/

/-- The digits are found again among their bytes. -/
theorem map_decimal (n : Nat) : (decimal n).map (fun b => Char.ofNat b.toNat) = Nat.toDigits 10 n := by
  rw [decimal, asciiBytes, List.map_map]
  refine (List.map_congr_left fun c hc => ?_).trans (List.map_id _)
  have hrange := toDigits_range hc
  show Char.ofNat (UInt8.ofNat c.toNat).toNat = c
  rw [UInt8.toNat_ofNat', Nat.mod_eq_of_lt (by omega), Char.ofNat_toNat]

theorem decimal_injective {a b : Nat} (h : decimal a = decimal b) : a = b := by
  have hvalue : Nat.ofDigitChars 10 ((decimal a).map fun b => Char.ofNat b.toNat) 0 =
      Nat.ofDigitChars 10 ((decimal b).map fun b => Char.ofNat b.toNat) 0 := by rw [h]
  rw [map_decimal, map_decimal] at hvalue
  exact Nat.ofDigitChars_ten_toDigits.symm.trans (hvalue.trans Nat.ofDigitChars_ten_toDigits)

/-- `%d`. -/
def signedDecimal : Int → List UInt8
  | .ofNat n => decimal n
  | .negSucc n => 45 :: decimal (n + 1)

/-- A byte that is no digit and no sign is not in a number. -/
theorem not_mem_signedDecimal {b : UInt8} (hsign : b ≠ 45) (hdigit : 57 < b.toNat ∨ b.toNat < 48)
    (i : Int) : b ∉ signedDecimal i := by
  have hdecimal : ∀ n, b ∉ decimal n := by
    intro n hb
    have hrange := mem_decimal hb
    omega
  cases i with
  | ofNat n => exact hdecimal n
  | negSucc n =>
    intro hb
    rcases List.mem_cons.mp hb with hb | hb
    · exact hsign hb
    · exact hdecimal _ hb

theorem signedDecimal_injective {i j : Int} (h : signedDecimal i = signedDecimal j) : i = j := by
  -- a sign is no digit
  have hsign : ∀ m n, decimal m ≠ 45 :: decimal n := by
    intro m n heq
    have hmem : (45 : UInt8) ∈ decimal m := by
      rw [heq]
      exact List.mem_cons_self
    exact absurd (mem_decimal hmem).1 (by decide)
  cases i with
  | ofNat m =>
    cases j with
    | ofNat n => exact congrArg Int.ofNat (decimal_injective h)
    | negSucc n => exact absurd h (hsign _ _)
  | negSucc m =>
    cases j with
    | ofNat n => exact absurd h.symm (hsign _ _)
    | negSucc n =>
      have hdigits := decimal_injective (List.cons.inj h).2
      rw [Nat.succ.inj hdigits]

theorem length_signedDecimal_le {i : Int} {k : Nat} (hk : 0 < k) (hi : i.natAbs < 10 ^ k) :
    (signedDecimal i).length ≤ k + 1 := by
  cases i with
  | ofNat n => exact Nat.le_succ_of_le ((length_decimal_le_iff hk).mpr hi)
  | negSucc n => exact Nat.succ_le_succ ((length_decimal_le_iff hk).mpr hi)

theorem asciiBytes_append (s t : List Char) : asciiBytes (s ++ t) = asciiBytes s ++ asciiBytes t :=
  List.map_append

/-- The digits of a number with more than one: those of its tenth, and the last one. -/
theorem decimal_of_ge {n : Nat} (h : 10 ≤ n) : ∃ b, decimal n = decimal (n / 10) ++ [b] := by
  refine ⟨UInt8.ofNat (Nat.digitChar (n % 10)).toNat, ?_⟩
  rw [decimal, Nat.toDigits_eq_if (by decide), if_neg (by omega), asciiBytes_append]
  rfl

/-- **Numbers that are cut off** behind `r` digits: a number looks like an earlier one if it has more. -/
theorem take_decimal_earlier_iff (n r : Nat) :
    (∃ m < n, (decimal m).take r = (decimal n).take r) ↔ 10 ^ r ≤ n := by
  rcases Nat.eq_zero_or_pos r with rfl | hr
  · constructor
    · rintro ⟨m, hm, -⟩
      exact Nat.lt_of_le_of_lt (Nat.zero_le m) hm
    · intro hn
      exact ⟨0, hn, rfl⟩
  · constructor
    · rintro ⟨m, hm, heq⟩
      by_contra hsmall
      rw [List.take_of_length_le ((length_decimal_le_iff hr).mpr (by omega)),
        List.take_of_length_le ((length_decimal_le_iff hr).mpr (by omega))] at heq
      exact absurd (decimal_injective heq) (Nat.ne_of_lt hm)
    · intro hn
      have hten : 10 ^ 1 ≤ 10 ^ r := Nat.pow_le_pow_right (by decide) hr
      obtain ⟨b, hb⟩ := decimal_of_ge (n := n) (by omega)
      refine ⟨n / 10, by omega, ?_⟩
      -- without the last digit there are still `r`
      have hlong : r ≤ (decimal (n / 10)).length := by
        have hmore : ¬ (decimal n).length ≤ r := fun hle => absurd ((length_decimal_le_iff hr).mp hle) (by omega)
        rw [hb, List.length_append, List.length_singleton] at hmore
        omega
      rw [hb, List.take_append_of_le_length hlong]

/-! ## Hexadecimal digits -/

/-- `%x`. -/
def hexadecimal (n : Nat) : List UInt8 := asciiBytes (Nat.toDigits 16 n)

/-- The value of a digit. -/
def hexDigit (b : UInt8) : Nat := if b.toNat < 58 then b.toNat - 48 else b.toNat - 87

/-- The number that digits stand for. -/
def ofHex (digits : List UInt8) : Nat := digits.foldl (fun n b => 16 * n + hexDigit b) 0

theorem ofHex_concat (digits : List UInt8) (b : UInt8) :
    ofHex (digits ++ [b]) = 16 * ofHex digits + hexDigit b := by
  rw [ofHex, List.foldl_append]
  rfl

/-- The digits of a number one after the other, the lowest one last. -/
theorem hexadecimal_eq (n : Nat) : hexadecimal n =
    if n < 16 then [UInt8.ofNat (Nat.digitChar n).toNat]
    else hexadecimal (n / 16) ++ [UInt8.ofNat (Nat.digitChar (n % 16)).toNat] := by
  rw [hexadecimal, Nat.toDigits_eq_if (by decide)]
  split
  · rfl
  · rw [asciiBytes_append]
    rfl

theorem digitChar_range : ∀ n < 16, hexDigit (UInt8.ofNat (Nat.digitChar n).toNat) = n ∧
    ((48 ≤ (UInt8.ofNat (Nat.digitChar n).toNat).toNat ∧
        (UInt8.ofNat (Nat.digitChar n).toNat).toNat ≤ 57) ∨
      (97 ≤ (UInt8.ofNat (Nat.digitChar n).toNat).toNat ∧
        (UInt8.ofNat (Nat.digitChar n).toNat).toNat ≤ 102)) := by decide

/-- **The digits are read back.** -/
theorem ofHex_hexadecimal (n : Nat) : ofHex (hexadecimal n) = n := by
  induction n using Nat.strong_induction_on with
  | _ n ih =>
    rw [hexadecimal_eq]
    split
    case isTrue hlt =>
      have hdigit := (digitChar_range n hlt).1
      rw [ofHex, List.foldl_cons, List.foldl_nil, hdigit, Nat.mul_zero, Nat.zero_add]
    case isFalse hge =>
      rw [ofHex_concat, ih (n / 16) (by omega), (digitChar_range (n % 16) (by omega)).1]
      omega

theorem hexadecimal_injective {a b : Nat} (h : hexadecimal a = hexadecimal b) : a = b := by
  rw [← ofHex_hexadecimal a, h, ofHex_hexadecimal]

/-- The bytes of a number are digits and the letters from `a` to `f`. -/
theorem mem_hexadecimal {n : Nat} {b : UInt8} (h : b ∈ hexadecimal n) :
    (48 ≤ b.toNat ∧ b.toNat ≤ 57) ∨ (97 ≤ b.toNat ∧ b.toNat ≤ 102) := by
  induction n using Nat.strong_induction_on with
  | _ n ih =>
    rw [hexadecimal_eq] at h
    split at h
    case isTrue hlt =>
      rw [List.mem_singleton.mp h]
      exact (digitChar_range n hlt).2
    case isFalse hge =>
      rcases List.mem_append.mp h with h | h
      · exact ih (n / 16) (by omega) h
      · rw [List.mem_singleton.mp h]
        exact (digitChar_range (n % 16) (by omega)).2

/-- `%0*x`: zeros up to the width. -/
def hexPadded (width n : Nat) : List UInt8 :=
  List.replicate (width - (hexadecimal n).length) 48 ++ hexadecimal n

theorem ofHex_zeros (k : Nat) (digits : List UInt8) : ofHex (List.replicate k 48 ++ digits) = ofHex digits := by
  induction k with
  | zero => rfl
  | succ k ih =>
    rw [List.replicate_succ, List.cons_append, ← ih]
    rfl

theorem hexPadded_injective {width a b : Nat} (h : hexPadded width a = hexPadded width b) : a = b := by
  have hread := congrArg ofHex h
  rwa [hexPadded, hexPadded, ofHex_zeros, ofHex_zeros, ofHex_hexadecimal, ofHex_hexadecimal] at hread

/-- A number that fits has the width. -/
theorem length_hexPadded (width n : Nat) (hpos : 0 < width) (h : n < 16 ^ width) :
    (hexPadded width n).length = width := by
  have hlength : (hexadecimal n).length ≤ width := by
    rw [hexadecimal, asciiBytes, List.length_map]
    exact (Nat.length_toDigits_le_iff (by decide) hpos).mpr h
  rw [hexPadded, List.length_append, List.length_replicate]
  omega

theorem mem_hexPadded {width n : Nat} {b : UInt8} (h : b ∈ hexPadded width n) :
    (48 ≤ b.toNat ∧ b.toNat ≤ 57) ∨ (97 ≤ b.toNat ∧ b.toNat ≤ 102) := by
  rcases List.mem_append.mp h with h | h
  · rw [List.eq_of_mem_replicate h]
    exact Or.inl (by decide)
  · exact mem_hexadecimal h

/-! ## Texts that are cut off -/

section Before

variable {α : Type*} [DecidableEq α] {sep : α} {s t r q : List α} {n : Nat}

theorem takeWhile_take_before (hs : sep ∉ s) (hn : s.length ≤ n) :
    ((s ++ sep :: r).take n).takeWhile (· ≠ sep) = s := by
  have hall : ∀ x ∈ s, decide (x ≠ sep) = true := by
    intro x hx
    exact decide_eq_true (fun heq => hs (heq ▸ hx))
  rw [List.take_append, List.take_of_length_le hn, List.takeWhile_append_of_pos hall]
  cases n - s.length with
  | zero => rw [List.take_zero, List.takeWhile_nil, List.append_nil]
  | succ k => rw [List.take_succ_cons, List.takeWhile_cons_of_neg (by simp), List.append_nil]

/-- **What stands before a separator** is known from a text that is cut off behind it. -/
theorem before_inj (hs : sep ∉ s) (ht : sep ∉ t) (hsn : s.length ≤ n) (htn : t.length ≤ n)
    (h : (s ++ sep :: r).take n = (t ++ sep :: q).take n) : s = t := by
  rw [← takeWhile_take_before hs hsn, h, takeWhile_take_before ht htn]

end Before

/-! ## Strings -/

namespace CStr

instance : Append CStr where
  append s t := ⟨s.bytes ++ t.bytes, fun h => (List.mem_append.mp h).elim s.noNul t.noNul⟩

/-- `%d` and `%u` of a number that is not negative. -/
protected def decimal (n : Nat) : CStr := ⟨CMemory.decimal n, decimal_noNul n⟩

/-- `%d`. -/
protected def signedDecimal (i : Int) : CStr :=
  ⟨CMemory.signedDecimal i, not_mem_signedDecimal (by decide) (by decide) i⟩

@[simp] theorem append_bytes (s t : CStr) : (s ++ t).bytes = s.bytes ++ t.bytes := rfl

@[simp] theorem truncate_bytes (s : CStr) (n : Nat) : (s.truncate n).bytes = s.bytes.take n := rfl

theorem truncate_truncate (s : CStr) {m n : Nat} (h : m ≤ n) :
    (s.truncate n).truncate m = s.truncate m := by
  apply ext_bytes
  rw [truncate_bytes, truncate_bytes, truncate_bytes, List.take_take, Nat.min_eq_left h]

theorem strlen_truncate_le (s : CStr) (n : Nat) : (s.truncate n).strlen ≤ n :=
  List.length_take_le n s.bytes

@[simp] theorem decimal_bytes (n : Nat) : (CStr.decimal n).bytes = CMemory.decimal n := rfl

@[simp] theorem signedDecimal_bytes (i : Int) :
    (CStr.signedDecimal i).bytes = CMemory.signedDecimal i := rfl

theorem decimal_inj {a b : Nat} (h : CStr.decimal a = CStr.decimal b) : a = b :=
  decimal_injective (congrArg CStr.bytes h)

end CStr

/-- **Unused names**: of the first `used.length + n` numbers, `n` are not used as names. -/
theorem exists_unused_decimals (used : List CStr) (n : Nat) :
    ∃ names : List CStr, names.Nodup ∧ names.length = n ∧
      ∀ s ∈ names, s ∉ used ∧ ∃ k, k < used.length + n ∧ s = CStr.decimal k := by
  have hnodup : ((List.range (used.length + n)).map CStr.decimal).Nodup :=
    List.Nodup.map (fun _ _ => CStr.decimal_inj) List.nodup_range
  generalize hall : (List.range (used.length + n)).map CStr.decimal = all at hnodup
  have hlength : all.length = used.length + n := by rw [← hall, List.length_map, List.length_range]
  have hused : (all.filter (· ∈ used)).length ≤ used.length := by
    refine (List.subperm_of_subset (hnodup.filter _) ?_).length_le
    intro s hs
    exact of_decide_eq_true (List.mem_filter.mp hs).2
  have hsplit := List.length_eq_length_filter_add (l := all) (fun s => decide (s ∈ used))
  refine ⟨(all.filter (fun s => !decide (s ∈ used))).take n, ?_, ?_, ?_⟩
  · exact (hnodup.filter _).sublist (List.take_sublist _ _)
  · rw [List.length_take]
    omega
  · intro s hs
    obtain ⟨hmem, hnot⟩ := List.mem_filter.mp (List.mem_of_mem_take hs)
    rw [Bool.not_eq_true', decide_eq_false_iff_not] at hnot
    rw [← hall] at hmem
    obtain ⟨k, hk, rfl⟩ := List.mem_map.mp hmem
    exact ⟨hnot, k, List.mem_range.mp hk, rfl⟩

end CMemory
