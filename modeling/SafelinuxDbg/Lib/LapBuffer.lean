import SafelinuxDbg.Lib.Blocks

/-!
# Buffers that start over

A buffer takes texts one behind the other, each in one piece.  A text that does not fit behind the others is
stored at the start of the buffer, over the oldest ones.

* `LapBuffer.Laps`: the texts since the last start, and those of the lap before as far as they are left.
* `Laps.write`: one more text.
* `LapBuffer.recent_kept`: the last texts are there, in two pieces at most.
-/

namespace CMemory

variable {α : Type*}

/-- The cells of a buffer, and the position behind the last text. -/
structure LapBuffer (α : Type*) where
  mem : Nat → α
  pos : Nat

theorem slice_eq_of_getElem? {m : Nat → α} {a : Nat} {l : List α}
    (h : ∀ i < l.length, l[i]? = some (m (a + i))) : slice m a l.length = l := by
  apply List.ext_getElem?
  intro i
  by_cases hi : i < l.length
  · rw [slice_getElem? m a hi, h i hi]
  · rw [List.getElem?_eq_none (by rw [slice_length]; omega), List.getElem?_eq_none (by omega)]

namespace LapBuffer

/-- A text that is longer than the buffer is dropped. -/
def write (size : Nat) (b : LapBuffer α) (text : List α) : LapBuffer α :=
  if size < text.length then b
  else
    let pos := if size < b.pos + text.length then 0 else b.pos
    ⟨storeAt b.mem pos text, pos + text.length⟩

/-- Where the last of the texts `log` are: those of the lap `cur` from the start to the position, and behind
it what is left of those of the lap before. -/
structure Laps (size : Nat) (b : LapBuffer α) (log older prev cur : List (List α)) : Prop where
  log_eq : log = older ++ prev ++ cur
  pos_eq : b.pos = cur.flatten.length
  pos_le : b.pos ≤ size
  prev_le : prev.flatten.length ≤ size
  cur_at : ∀ i < b.pos, cur.flatten[i]? = some (b.mem i)
  prev_at : ∀ i, b.pos ≤ i → i < prev.flatten.length → prev.flatten[i]? = some (b.mem i)
  /-- the buffer did not start over for nothing -/
  full : older ++ prev ≠ [] → ∃ t rest, cur = t :: rest ∧ size < prev.flatten.length + t.length

section Laps

variable {size : Nat} {b : LapBuffer α} {log older prev cur : List (List α)} {text : List α}

theorem laps_empty (mem : Nat → α) (size : Nat) : Laps size ⟨mem, 0⟩ [] [] [] [] where
  log_eq := rfl
  pos_eq := rfl
  pos_le := Nat.zero_le size
  prev_le := Nat.zero_le size
  cur_at := fun i hi => absurd hi (Nat.not_lt_zero i)
  prev_at := fun i _ hi => absurd hi (Nat.not_lt_zero i)
  full := fun h => absurd rfl h

theorem write_of_fits (h : b.pos + text.length ≤ size) :
    b.write size text = ⟨storeAt b.mem b.pos text, b.pos + text.length⟩ := by
  rw [write, if_neg (by omega), if_neg (by omega)]

theorem write_of_full (htext : text.length ≤ size) (h : size < b.pos + text.length) :
    b.write size text = ⟨storeAt b.mem 0 text, text.length⟩ := by
  rw [write, if_neg (by omega), if_pos h]
  simp only [Nat.zero_add]

/-- **One more text**, behind the others or at the start. -/
theorem Laps.write (h : Laps size b log older prev cur) (htext : text.length ≤ size) :
    Laps size (b.write size text) (log ++ [text]) older prev (cur ++ [text]) ∨
      Laps size (b.write size text) (log ++ [text]) (older ++ prev) cur [text] := by
  by_cases hfits : b.pos + text.length ≤ size
  · left
    have hmem : (b.write size text).mem = storeAt b.mem b.pos text := by rw [write_of_fits hfits]
    have hpos : (b.write size text).pos = b.pos + text.length := by rw [write_of_fits hfits]
    have hflat : (cur ++ [text]).flatten = cur.flatten ++ text := by
      rw [List.flatten_append, List.flatten_singleton]
    refine ⟨?_, ?_, by omega, h.prev_le, fun i hi => ?_, fun i hi hi' => ?_, fun hne => ?_⟩
    · rw [h.log_eq, List.append_assoc]
    · rw [hflat, hpos, List.length_append, ← h.pos_eq]
    · rw [hflat, hmem]
      by_cases hold : i < b.pos
      · rw [List.getElem?_append_left (by rw [← h.pos_eq]; exact hold), h.cur_at i hold,
          storeAt_of_lt b.mem text hold]
      · have hin : i - b.pos < text.length := by omega
        rw [List.getElem?_append_right (by rw [← h.pos_eq]; omega), ← h.pos_eq,
          storeAt_inside b.mem (by omega) hin, List.getElem?_eq_getElem hin]
    · rw [hmem, storeAt_of_le b.mem (by omega)]
      exact h.prev_at i (by omega) hi'
    · obtain ⟨t, rest, rfl, hlarge⟩ := h.full hne
      exact ⟨t, rest ++ [text], rfl, hlarge⟩
  · right
    have hmem : (b.write size text).mem = storeAt b.mem 0 text := by rw [write_of_full htext (by omega)]
    have hpos : (b.write size text).pos = text.length := by rw [write_of_full htext (by omega)]
    have hflat : [text].flatten = text := List.flatten_singleton
    refine ⟨?_, ?_, by omega, ?_, fun i hi => ?_, fun i hi hi' => ?_, fun _ => ⟨text, [], rfl, ?_⟩⟩
    · rw [h.log_eq]
    · rw [hflat, hpos]
    · rw [← h.pos_eq]
      exact h.pos_le
    · rw [hpos] at hi
      have hstored := storeAt_add b.mem (a := 0) hi
      rw [Nat.zero_add] at hstored
      rw [hflat, hmem, hstored, List.getElem?_eq_getElem hi]
    · rw [hmem, storeAt_of_le b.mem (by omega)]
      exact h.cur_at i (by rw [h.pos_eq]; exact hi')
    · rw [← h.pos_eq]
      omega

end Laps

/-- **The last texts are kept**, if they and the longest of them fit in the buffer together: the newer ones up
to the position, and the older ones, if there are any, behind it. -/
theorem Laps.recent_kept {size m : Nat} {b : LapBuffer α} {log older prev cur before recent : List (List α)}
    (h : Laps size b log older prev cur) (hlog : log = before ++ recent)
    (hshort : ∀ t ∈ recent, t.length ≤ m) (hfit : recent.flatten.length + m ≤ size) :
    ∃ a c p, recent = a ++ c ∧ c.flatten.length ≤ b.pos ∧
      slice b.mem (b.pos - c.flatten.length) c.flatten.length = c.flatten ∧
      b.pos ≤ p ∧ p + a.flatten.length ≤ size ∧ slice b.mem p a.flatten.length = a.flatten ∧
      (a ≠ [] → c.flatten.length = b.pos) := by
  have hsplit := h.log_eq.symm.trans hlog
  rcases List.append_eq_append_iff.mp hsplit with ⟨x, -, hcur⟩ | ⟨x, hbefore, hrecent⟩
  · -- all of them since the last start
    have hflat : cur.flatten = x.flatten ++ recent.flatten := by rw [hcur, List.flatten_append]
    have hlen : b.pos = x.flatten.length + recent.flatten.length := by
      rw [h.pos_eq, hflat, List.length_append]
    refine ⟨[], recent, b.pos, rfl, by omega, slice_eq_of_getElem? fun i hi => ?_, Nat.le_refl _, h.pos_le, rfl,
      fun hne => absurd rfl hne⟩
    have hat := h.cur_at (x.flatten.length + i) (by omega)
    rw [hflat, List.getElem?_append_right (by omega), Nat.add_sub_cancel_left] at hat
    rw [hat, show b.pos - recent.flatten.length = x.flatten.length by omega]
  · by_cases hx : x = []
    · -- exactly those since the last start
      subst hx
      rw [List.nil_append] at hrecent
      subst hrecent
      refine ⟨[], recent, b.pos, rfl, by rw [h.pos_eq], ?_, Nat.le_refl _, h.pos_le, rfl, fun hne => absurd rfl hne⟩
      rw [h.pos_eq, Nat.sub_self]
      exact slice_eq_of_getElem? fun i hi => by
        rw [Nat.zero_add]
        exact h.cur_at i (by rw [h.pos_eq]; exact hi)
    · -- the older ones are of the lap before, which was nearly as long as the buffer
      have hne : older ++ prev ≠ [] := by
        rw [hbefore]
        exact List.append_ne_nil_of_right_ne_nil _ hx
      obtain ⟨t, rest, hcur, hlarge⟩ := h.full hne
      have htm : t.length ≤ m := hshort t (by rw [hrecent, hcur]; simp)
      have htcur : t.length ≤ cur.flatten.length := by
        rw [hcur, List.flatten_cons, List.length_append]
        omega
      have htotal : recent.flatten.length = x.flatten.length + cur.flatten.length := by
        rw [hrecent, List.flatten_append, List.length_append]
      rcases List.append_eq_append_iff.mp hbefore with ⟨y, -, hprev⟩ | ⟨y, -, hmore⟩
      · have hflat : prev.flatten = y.flatten ++ x.flatten := by rw [hprev, List.flatten_append]
        have hlen : prev.flatten.length = y.flatten.length + x.flatten.length := by
          rw [hflat, List.length_append]
        have hpos := h.pos_eq
        have hle := h.prev_le
        refine ⟨x, cur, y.flatten.length, hrecent, by omega, ?_, by omega, by omega,
          slice_eq_of_getElem? fun i hi => ?_, fun _ => by omega⟩
        · rw [h.pos_eq, Nat.sub_self]
          exact slice_eq_of_getElem? fun i hi => by
            rw [Nat.zero_add]
            exact h.cur_at i (by omega)
        · have hat := h.prev_at (y.flatten.length + i) (by omega) (by omega)
          rw [hflat, List.getElem?_append_right (by omega), Nat.add_sub_cancel_left] at hat
          exact hat
      · -- they would be more than fits
        have hlen : x.flatten.length = y.flatten.length + prev.flatten.length := by
          rw [hmore, List.flatten_append, List.length_append]
        omega

end LapBuffer

end CMemory
