import Mathlib.Data.List.DropRight
import SafelinuxDbg.Lib.Numerals

/-!
# Texts made of lines

A text that is printed line by line can be read back when its lines can: each line ends with a line
feed and has none inside.

* `append_sep_inj`: what stands before and behind the first separator.
* `joinLines_injective`, `joinLines_map_injective`: a text tells its lines, and what they show.
* `complete_lines_eq`: of a text that is cut off, the complete lines.
* `columns_inj`: the numbers in the columns of a line.
* `indent_inj`: an indentation made of equal steps and an end mark tells its depth.
-/

namespace CMemory

/-! ## Bytes that are printed -/

/-- The bytes of a string literal. -/
def ascii (s : String) : List UInt8 := asciiBytes s.toList

/-- No NUL and no line feed. -/
def Printable (text : List UInt8) : Prop := ∀ b ∈ text, 10 < b.toNat

section Printable

variable {s t : List UInt8}

instance (text : List UInt8) : Decidable (Printable text) := List.decidableBAll _ text

theorem printable_append : Printable (s ++ t) ↔ Printable s ∧ Printable t := List.forall_mem_append

theorem Printable.noNul (h : Printable s) : (0 : UInt8) ∉ s := fun hmem => absurd (h _ hmem) (by decide)

theorem Printable.noLineFeed (h : Printable s) : (10 : UInt8) ∉ s := fun hmem => absurd (h _ hmem) (by decide)

theorem printable_decimal (n : Nat) : Printable (decimal n) := by
  intro b hb
  have hrange := mem_decimal hb
  omega

theorem printable_signedDecimal (i : Int) : Printable (signedDecimal i) := by
  cases i with
  | ofNat n => exact printable_decimal n
  | negSucc n => exact List.forall_mem_cons.mpr ⟨by decide, printable_decimal _⟩

theorem printable_hexadecimal (n : Nat) : Printable (hexadecimal n) := by
  intro b hb
  have hrange := mem_hexadecimal hb
  omega

theorem printable_hexPadded (width n : Nat) : Printable (hexPadded width n) := by
  intro b hb
  have hrange := mem_hexPadded hb
  omega

/-- There is no NUL in the text. -/
def NoNul (text : List UInt8) : Prop := (0 : UInt8) ∉ text

instance (text : List UInt8) : Decidable (NoNul text) := inferInstanceAs (Decidable (¬ (0 : UInt8) ∈ text))

theorem noNul_append {s t : List UInt8} : NoNul (s ++ t) ↔ NoNul s ∧ NoNul t := by
  rw [NoNul, List.mem_append, not_or]
  rfl

end Printable

/-! ## Lines -/

section Separator

variable {α : Type*} [DecidableEq α] {sep : α} {s t r q : List α}

/-- The first separator is found. -/
theorem append_sep_inj (hs : sep ∉ s) (ht : sep ∉ t) (h : s ++ sep :: r = t ++ sep :: q) :
    s = t ∧ r = q := by
  have hsame : s = t := by
    refine before_inj (n := s.length + t.length) hs ht (by omega) (by omega) ?_ (r := r) (q := q)
    rw [h]
  rw [hsame] at h
  exact ⟨hsame, (List.cons.inj (List.append_cancel_left h)).2⟩

end Separator

/-- Each line with its line feed. -/
def joinLines (lines : List (List UInt8)) : List UInt8 := lines.flatMap (· ++ [10])

@[simp] theorem joinLines_nil : joinLines [] = [] := rfl

theorem joinLines_cons (line : List UInt8) (lines : List (List UInt8)) :
    joinLines (line :: lines) = line ++ 10 :: joinLines lines := by
  rw [joinLines, List.flatMap_cons, List.append_assoc]
  rfl

theorem joinLines_append (ls ms : List (List UInt8)) : joinLines (ls ++ ms) = joinLines ls ++ joinLines ms :=
  List.flatMap_append

/-- **A text tells its lines.** -/
theorem joinLines_injective {ls : List (List UInt8)} (hl : ∀ l ∈ ls, (10 : UInt8) ∉ l) :
    ∀ {ms : List (List UInt8)}, (∀ l ∈ ms, (10 : UInt8) ∉ l) → joinLines ls = joinLines ms → ls = ms := by
  induction ls with
  | nil =>
    intro ms _ h
    cases ms with
    | nil => rfl
    | cons m ms =>
      rw [joinLines_cons] at h
      exact absurd h.symm (by simp)
  | cons l ls ih =>
    intro ms hm h
    cases ms with
    | nil =>
      rw [joinLines_cons] at h
      exact absurd h (by simp)
    | cons m ms =>
      rw [joinLines_cons, joinLines_cons] at h
      obtain ⟨hline, hrest⟩ := append_sep_inj (hl l List.mem_cons_self) (hm m List.mem_cons_self) h
      rw [hline, ih (fun x hx => hl x (List.mem_cons_of_mem _ hx))
        (fun x hx => hm x (List.mem_cons_of_mem _ hx)) hrest]

/-- Lines that each tell what they show: a text of them tells all of it. -/
theorem joinLines_map_injective {α : Type*} {f : α → List UInt8} (hf : Function.Injective f)
    (hprint : ∀ x, Printable (f x)) {xs ys : List α} (h : joinLines (xs.map f) = joinLines (ys.map f)) :
    xs = ys := by
  have hclean : ∀ xs : List α, ∀ l ∈ xs.map f, (10 : UInt8) ∉ l := by
    intro xs l hl
    obtain ⟨x, -, rfl⟩ := List.mem_map.mp hl
    exact (hprint x).noLineFeed
  exact List.map_injective_iff.mpr hf (joinLines_injective (hclean xs) (hclean ys) h)

/-- Rows that look alike show the same, where what is printed of a row tells what it shows. -/
theorem map_of_map {α β γ : Type*} {f : α → β} {g : α → γ} (h : ∀ x y, f x = f y → g x = g y) :
    ∀ {xs ys : List α}, xs.map f = ys.map f → xs.map g = ys.map g := by
  intro xs
  induction xs with
  | nil =>
    intro ys heq
    rw [List.map_eq_nil_iff.mp heq.symm]
  | cons x xs ih =>
    intro ys heq
    cases ys with
    | nil => cases heq
    | cons y ys =>
      obtain ⟨hhead, htail⟩ := List.cons.inj heq
      rw [List.map_cons, List.map_cons, h x y hhead, ih htail]

theorem noNul_joinLines {lines : List (List UInt8)} (h : ∀ l ∈ lines, NoNul l) : NoNul (joinLines lines) := by
  induction lines with
  | nil => exact List.not_mem_nil
  | cons line lines ih =>
    obtain ⟨hline, hlines⟩ := List.forall_mem_cons.mp h
    rw [joinLines_cons]
    exact noNul_append.mpr ⟨hline, List.not_mem_cons_of_ne_of_not_mem (by decide) (ih hlines)⟩

theorem length_joinLines_le {ls : List (List UInt8)} {b : Nat} (h : ∀ l ∈ ls, l.length + 1 ≤ b) :
    (joinLines ls).length ≤ ls.length * b := by
  induction ls with
  | nil => exact Nat.zero_le _
  | cons l ls ih =>
    obtain ⟨hl, hls⟩ := List.forall_mem_cons.mp h
    have hrest := ih hls
    rw [joinLines_cons, List.length_append, List.length_cons, List.length_cons, Nat.succ_mul]
    omega

/-- **The complete lines of a text that is cut off**: two texts that begin with `p` agree in the lines that
end in `p`. -/
theorem complete_lines_eq {ls : List (List UInt8)} : ∀ {ms : List (List UInt8)} {p : List UInt8},
    (∀ l ∈ ls, (10 : UInt8) ∉ l) → (∀ l ∈ ms, (10 : UInt8) ∉ l) → p <+: joinLines ls → p <+: joinLines ms →
      ls.take (p.count 10) = ms.take (p.count 10) := by
  induction ls with
  | nil =>
    intro ms p _ _ hp _
    rw [List.prefix_nil.mp hp]
    rfl
  | cons l ls ih =>
    intro ms p hls hms hp hq
    by_cases hmem : (10 : UInt8) ∈ p
    · obtain ⟨s, t, rfl, hs⟩ := List.eq_append_cons_of_mem hmem
      cases ms with
      | nil => exact absurd (List.prefix_nil.mp hq) (by simp)
      | cons m ms =>
        obtain ⟨r, hr⟩ := hp
        obtain ⟨q, hq⟩ := hq
        rw [joinLines_cons, List.append_assoc, List.cons_append] at hr hq
        obtain ⟨hl, hls⟩ := List.forall_mem_cons.mp hls
        obtain ⟨hm, hms⟩ := List.forall_mem_cons.mp hms
        obtain ⟨hsl, hrest⟩ := append_sep_inj hs hl hr
        obtain ⟨hsm, hrest'⟩ := append_sep_inj hs hm hq
        have hcount : (s ++ 10 :: t).count 10 = t.count 10 + 1 := by
          rw [List.count_append, List.count_eq_zero_of_not_mem hs, List.count_cons_self, Nat.zero_add]
        rw [hcount, List.take_succ_cons, List.take_succ_cons, ih hls hms ⟨r, hrest⟩ ⟨q, hrest'⟩, ← hsl, ← hsm]
    · rw [List.count_eq_zero_of_not_mem hmem, List.take_zero, List.take_zero]

/-! ## Columns -/

/-- `%*s` and `%-*s`. -/
def padLeft (width : Nat) (text : List UInt8) : List UInt8 := List.replicate (width - text.length) 32 ++ text

def padRight (width : Nat) (text : List UInt8) : List UInt8 := text ++ List.replicate (width - text.length) 32

/-- A text without the blanks at its end. -/
def trimRight (text : List UInt8) : List UInt8 := text.rdropWhile (· = 32)

theorem trimRight_padRight (width : Nat) (text : List UInt8) : trimRight (padRight width text) = trimRight text := by
  rw [padRight]
  generalize width - text.length = k
  induction k with
  | zero => rw [List.replicate_zero, List.append_nil]
  | succ k ih =>
    rw [List.replicate_succ', ← List.append_assoc, trimRight, List.rdropWhile_concat_pos _ _ _ (by decide)]
    exact ih

/-- There is no blank in a number. -/
theorem blank_not_mem (i : Int) : (32 : UInt8) ∉ signedDecimal i := not_mem_signedDecimal (by decide) (by decide) i

theorem printable_padLeft {text : List UInt8} (width : Nat) (h : Printable text) : Printable (padLeft width text) := by
  refine printable_append.mpr ⟨fun b hb => ?_, h⟩
  rw [List.eq_of_mem_replicate hb]
  decide

theorem noNul_padRight {text : List UInt8} (width : Nat) (h : NoNul text) : NoNul (padRight width text) :=
  noNul_append.mpr ⟨h, fun hmem => absurd (List.eq_of_mem_replicate hmem) (by decide)⟩

/-- A number in a column that starts with a blank. -/
@[ext] structure Column where
  before : List UInt8
  width : Nat
  value : Int

def Column.text (c : Column) : List UInt8 := c.before ++ 32 :: padLeft c.width (signedDecimal c.value)

/-- **The last column** of a line. -/
theorem column_inj {r q : List UInt8} {width : Nat} {i j : Int}
    (h : r ++ 32 :: padLeft width (signedDecimal i) = q ++ 32 :: padLeft width (signedDecimal j)) :
    r = q ∧ i = j := by
  have hblanks : ∀ (r : List UInt8) (i : Int), (r ++ 32 :: padLeft width (signedDecimal i)).reverse =
      (signedDecimal i).reverse ++ 32 :: (r ++ List.replicate (width - (signedDecimal i).length) 32).reverse := by
    intro r i
    rw [padLeft, ← List.cons_append, ← List.replicate_succ, List.replicate_succ', ← List.append_assoc,
      List.reverse_append, List.reverse_append, List.reverse_append, List.reverse_append, List.append_assoc]
    rfl
  have hclean : ∀ i : Int, (32 : UInt8) ∉ (signedDecimal i).reverse := fun i hmem =>
    blank_not_mem i (List.mem_reverse.mp hmem)
  have hreverse := congrArg List.reverse h
  rw [hblanks, hblanks] at hreverse
  obtain ⟨hnumber, hrest⟩ := append_sep_inj (hclean i) (hclean j) hreverse
  have hvalue := signedDecimal_injective (List.reverse_injective hnumber)
  rw [hvalue] at hrest
  exact ⟨List.append_cancel_right (List.reverse_injective hrest), hvalue⟩

/-- **The columns of a line are read from its end**, where it is known what stands before them. -/
theorem columns_inj {r q : List UInt8} {cs : List Column} : ∀ {ds : List Column},
    (cs.map fun c => (c.before, c.width)) = (ds.map fun c => (c.before, c.width)) →
      r ++ cs.flatMap Column.text = q ++ ds.flatMap Column.text → r = q ∧ cs = ds := by
  induction cs using List.reverseRecOn generalizing r q with
  | nil =>
    intro ds hshape h
    rw [List.map_nil, eq_comm, List.map_eq_nil_iff] at hshape
    rw [hshape] at h
    exact ⟨List.append_cancel_right h, hshape.symm⟩
  | append_singleton cs c ih =>
    intro ds hshape h
    rcases List.eq_nil_or_concat ds with rfl | ⟨ds, d, rfl⟩
    · simp at hshape
    · rw [List.concat_eq_append] at hshape h ⊢
      rw [List.map_append, List.map_append] at hshape
      obtain ⟨hshapes, hlast⟩ := List.append_inj' hshape rfl
      obtain ⟨hbefore, hwidth⟩ := Prod.mk.inj (List.singleton_inj.mp hlast)
      simp only [List.flatMap_append, List.flatMap_cons, List.flatMap_nil, List.append_nil, ← List.append_assoc,
        Column.text] at h
      rw [← hbefore, ← hwidth] at h
      obtain ⟨hrest, hvalue⟩ := column_inj h
      obtain ⟨hr, hcs⟩ := ih hshapes (List.append_cancel_right hrest)
      exact ⟨hr, by rw [hcs, Column.ext hbefore hwidth hvalue]⟩

/-! ## Indentation -/

section Indent

variable {α : Type*} {step mark r q : List α}

/-- `depth` steps and the mark. -/
def indent (step mark : List α) (depth : Nat) : List α := (List.replicate depth step).flatten ++ mark

theorem indent_succ (step mark : List α) (depth : Nat) :
    indent step mark (depth + 1) = step ++ indent step mark depth := by
  rw [indent, indent, List.replicate_succ, List.flatten_cons, List.append_assoc]

/-- **The depth of an indentation**, where the mark does not begin like a step. -/
theorem indent_inj (hmark : ∀ x y, step ++ x ≠ mark ++ y) : ∀ {d e : Nat},
    indent step mark d ++ r = indent step mark e ++ q → d = e ∧ r = q
  | 0, 0, h => ⟨rfl, List.append_cancel_left h⟩
  | 0, e + 1, h => by
    rw [indent_succ, List.append_assoc] at h
    exact absurd h.symm (hmark _ _)
  | d + 1, 0, h => by
    rw [indent_succ, List.append_assoc] at h
    exact absurd h (hmark _ _)
  | d + 1, e + 1, h => by
    rw [indent_succ, indent_succ, List.append_assoc, List.append_assoc] at h
    obtain ⟨hdepth, hrest⟩ := indent_inj hmark (List.append_cancel_left h)
    exact ⟨congrArg Nat.succ hdepth, hrest⟩

end Indent

end CMemory
