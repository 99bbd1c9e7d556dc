import SafelinuxDbg.Lib.Memory

/-!
# Blocks of cells

`storeAt m a cs` is the memory `m` with the cells `cs` stored from `a` on.  A memory that is put
together from blocks is edited block by block:

* `storeAt_append`: a block stored right behind another one makes it longer.
* `storeAt_comm`: blocks that do not overlap can be stored in either order.
* `storeAt_cover`: a block hides a shorter one at the same place.

`storeAll` stores several blocks, and `storeAll_outside` is its frame rule.
-/

namespace CMemory

variable {α : Type*} {m : Nat → α} {a b x : Nat} {cs ds : List α}

/-- The cells `cs` stored from `a` on. -/
def storeAt (m : Nat → α) (a : Nat) (cs : List α) : Nat → α :=
  fun x => if a ≤ x then (cs[x - a]?).getD (m x) else m x

/-- Several blocks, stored one after the other. -/
def storeAll (m : Nat → α) (stores : List (Nat × List α)) : Nat → α :=
  stores.foldl (fun m s => storeAt m s.1 s.2) m

theorem storeAt_of_lt (m : Nat → α) (cs : List α) (h : x < a) : storeAt m a cs x = m x := by
  rw [storeAt, if_neg (by omega)]

theorem storeAt_of_le (m : Nat → α) (h : a + cs.length ≤ x) : storeAt m a cs x = m x := by
  rw [storeAt, if_pos (by omega), List.getElem?_eq_none (by omega), Option.getD_none]

theorem storeAt_outside (m : Nat → α) (h : x < a ∨ a + cs.length ≤ x) :
    storeAt m a cs x = m x := by
  rcases h with h | h
  · exact storeAt_of_lt m cs h
  · exact storeAt_of_le m h

theorem storeAt_add (m : Nat → α) {k : Nat} (h : k < cs.length) :
    storeAt m a cs (a + k) = cs[k] := by
  rw [storeAt, if_pos (by omega), Nat.add_sub_cancel_left, List.getElem?_eq_getElem h,
    Option.getD_some]

/-- A cell inside of the block. -/
theorem storeAt_inside (m : Nat → α) (h1 : a ≤ x) (h2 : x - a < cs.length) :
    storeAt m a cs x = cs[x - a] := by
  rw [storeAt, if_pos h1, List.getElem?_eq_getElem h2, Option.getD_some]

theorem storeAt_nil (m : Nat → α) (a : Nat) : storeAt m a [] = m := by
  funext x
  exact storeAt_outside m (by rw [List.length_nil]; omega)

theorem storeAt_append (m : Nat → α) (a : Nat) (cs ds : List α) :
    storeAt (storeAt m a cs) (a + cs.length) ds = storeAt m a (cs ++ ds) := by
  funext x
  rcases Nat.lt_or_ge x (a + cs.length) with hlt | hge
  · rw [storeAt_of_lt _ _ hlt]
    rcases Nat.lt_or_ge x a with hlt' | hge'
    · rw [storeAt_of_lt _ _ hlt', storeAt_of_lt _ _ hlt']
    · rw [storeAt_inside m hge' (by omega),
        storeAt_inside m hge' (by rw [List.length_append]; omega),
        List.getElem_append_left (by omega)]
  · have hge' : a ≤ x := by omega
    have hold := storeAt_of_le m hge
    rw [storeAt, if_pos hge, hold, storeAt, if_pos hge', List.getElem?_append_right (by omega),
      Nat.sub_sub]

theorem storeAt_comm (m : Nat → α) (h : a + cs.length ≤ b ∨ b + ds.length ≤ a) :
    storeAt (storeAt m a cs) b ds = storeAt (storeAt m b ds) a cs := by
  funext x
  by_cases hx : a ≤ x ∧ x < a + cs.length
  · rw [storeAt_outside _ (by omega), storeAt_inside _ hx.1 (by omega),
      storeAt_inside _ hx.1 (by omega)]
  · have houtside : x < a ∨ a + cs.length ≤ x := by omega
    rw [storeAt_outside (storeAt m b ds) houtside, storeAt, storeAt_outside m houtside, storeAt]

theorem storeAt_cover (m : Nat → α) (a : Nat) (h : cs.length ≤ ds.length) :
    storeAt (storeAt m a cs) a ds = storeAt m a ds := by
  funext x
  by_cases hx : a ≤ x ∧ x < a + ds.length
  · rw [storeAt_inside _ hx.1 (by omega), storeAt_inside _ hx.1 (by omega)]
  · rw [storeAt_outside _ (by omega), storeAt_outside _ (by omega), storeAt_outside _ (by omega)]

theorem slice_add (m : Nat → α) (a k n : Nat) :
    slice m a (k + n) = slice m a k ++ slice m (a + k) n := by
  apply List.ext_getElem
  · rw [List.length_append, slice_length, slice_length, slice_length]
  intro i h1 h2
  rcases Nat.lt_or_ge i k with hlt | hge
  · rw [List.getElem_append_left (by rw [slice_length]; exact hlt), slice_getElem, slice_getElem]
  · rw [List.getElem_append_right (by rw [slice_length]; exact hge), slice_getElem, slice_getElem,
      slice_length]
    congr 1
    omega

/-- Reading a block back. -/
theorem slice_storeAt (m : Nat → α) (a : Nat) (cs : List α) :
    slice (storeAt m a cs) a cs.length = cs := by
  apply List.ext_getElem (slice_length _ _ _)
  intro k h1 h2
  rw [slice_getElem, storeAt_add m h2]

theorem slice_storeAt_disjoint (m : Nat → α) {n : Nat} (h : b + n ≤ a ∨ a + cs.length ≤ b) :
    slice (storeAt m a cs) b n = slice m b n :=
  slice_congr (fun _ _ => storeAt_outside _ (by omega))

/-! ## Several blocks -/

theorem storeAll_append (m : Nat → α) (stores more : List (Nat × List α)) :
    storeAll m (stores ++ more) = storeAll (storeAll m stores) more := List.foldl_append

end CMemory
