import Mathlib.Data.List.Nodup
import Mathlib.Logic.Function.Basic

/-!
# Ledgers of handles

An outside authority gives out handles and takes them back.  The holder keeps a table whose
entries each record at most one handle, `0` for none; entries come and go, so each has an identity
of its own.  A `Ledger` is such a table with the handles that are live and, for each of them, the
entry it was given out for.

* `Ledger.Valid`: what an entry records is live and was given out for that entry.  Each operation
  keeps this under the condition its lemma states.
* `Ledger.Accounted`: no live handle is lost: it is kept outside, is in hand, or is recorded.
-/

/-- The handles of a table, with the entries' identities, the live handles and their owners. -/
structure Ledger where
  held : List Nat
  ids : List Nat
  live : List Nat
  owner : Nat → Option Nat

namespace Ledger

variable {l : Ledger} {i j h k id : Nat}

/-- The handle `h` is live and was given out for entry `i`. -/
def Holds (l : Ledger) (i h : Nat) : Prop :=
  h ∈ l.live ∧ ∃ id, l.ids[i]? = some id ∧ l.owner h = some id

/-- What an entry records was given out for it. -/
structure Valid (l : Ledger) : Prop where
  length : l.ids.length = l.held.length
  nodup : l.ids.Nodup
  liveNodup : l.live.Nodup
  livePos : ∀ h ∈ l.live, h ≠ 0
  holds : ∀ i h, l.held[i]? = some h → h ≠ 0 → l.Holds i h

/-! ## Operations -/

/-- A new entry without a handle. -/
def push (id : Nat) (l : Ledger) : Ledger :=
  { l with held := l.held ++ [0], ids := l.ids ++ [id] }

/-- Entry `i` records `h`. -/
def record (i h : Nat) (l : Ledger) : Ledger := { l with held := l.held.set i h }

/-- Entry `i` is taken out. -/
def drop (i : Nat) (l : Ledger) : Ledger :=
  { l with held := l.held.eraseIdx i, ids := l.ids.eraseIdx i }

/-- A handle is given out for something that is not in the table. -/
def grant (h : Nat) (l : Ledger) : Ledger := { l with live := h :: l.live }

/-- A handle is given out for entry `i`. -/
def acquire (h i : Nat) (l : Ledger) : Ledger :=
  { l with live := h :: l.live, owner := Function.update l.owner h l.ids[i]? }

/-- A handle is given back, which may fail; it belongs to no entry any more. -/
def release (ok : Bool) (h : Nat) (l : Ledger) : Ledger :=
  { l with
    live := if ok then l.live.erase h else l.live
    owner := Function.update l.owner h none }

/-! ## Ownership -/

theorem Holds.id_unique (hnd : l.ids.Nodup) (hi : l.Holds i h) (hj : l.Holds j h) : i = j := by
  obtain ⟨-, id, hid, hown⟩ := hi
  obtain ⟨-, id', hid', hown'⟩ := hj
  rw [hown, Option.some.injEq] at hown'
  subst hown'
  obtain ⟨hilt, hi'⟩ := List.getElem?_eq_some_iff.mp hid
  obtain ⟨hjlt, hj'⟩ := List.getElem?_eq_some_iff.mp hid'
  exact (List.Nodup.getElem_inj_iff hnd).mp (hi'.trans hj'.symm)

/-- Two entries never record the same handle. -/
theorem Valid.unique (hv : l.Valid) (hi : l.held[i]? = some h) (hj : l.held[j]? = some h)
    (h0 : h ≠ 0) : i = j :=
  (hv.holds i h hi h0).id_unique hv.nodup (hv.holds j h hj h0)

/-- A handle given out for an entry that records none is recorded nowhere. -/
theorem Valid.not_held (hv : l.Valid) (hh : l.Holds i h) (hi : l.held[i]? = some 0) :
    ∀ j : Nat, l.held[j]? ≠ some h := by
  intro j hj
  have h0 := hv.livePos h hh.1
  obtain rfl : i = j := hh.id_unique hv.nodup (hv.holds j h hj h0)
  rw [hi, Option.some.injEq] at hj
  exact h0 hj.symm

theorem Holds.push (hh : l.Holds i h) : (l.push id).Holds i h := by
  obtain ⟨hlive, id', hid, hown⟩ := hh
  refine ⟨hlive, id', ?_, hown⟩
  obtain ⟨hlt, -⟩ := List.getElem?_eq_some_iff.mp hid
  rw [Ledger.push, List.getElem?_append_left hlt]
  exact hid

theorem Valid.push (hv : l.Valid) (hid : id ∉ l.ids) : (l.push id).Valid := by
  refine ⟨?_, ?_, hv.liveNodup, hv.livePos, ?_⟩
  · simp [Ledger.push, hv.length]
  · simp only [Ledger.push]
    rw [← List.concat_eq_append]
    exact hv.nodup.concat hid
  · intro i h hi h0
    simp only [Ledger.push] at hi
    rcases Nat.lt_or_ge i l.held.length with hlt | hge
    · rw [List.getElem?_append_left hlt] at hi
      exact (hv.holds i h hi h0).push
    · rw [List.getElem?_append_right hge] at hi
      obtain ⟨hlt, heq⟩ := List.getElem?_eq_some_iff.mp hi
      rw [List.getElem_singleton] at heq
      exact absurd heq.symm h0

theorem Valid.record (hv : l.Valid) (hh : h = 0 ∨ l.Holds i h) : (l.record i h).Valid := by
  refine ⟨?_, hv.nodup, hv.liveNodup, hv.livePos, ?_⟩
  · simp [Ledger.record, hv.length]
  · intro j k hj hk
    simp only [Ledger.record] at hj
    rw [List.getElem?_set] at hj
    split at hj
    case isTrue hij =>
      subst hij
      split at hj
      · rw [Option.some.injEq] at hj
        subst hj
        rcases hh with hz | hh
        · exact absurd hz hk
        · exact hh
      · cases hj
    case isFalse => exact hv.holds j k hj hk

theorem Valid.drop (hv : l.Valid) : (l.drop i).Valid := by
  refine ⟨?_, hv.nodup.eraseIdx i, hv.liveNodup, hv.livePos, ?_⟩
  · simp only [Ledger.drop, List.length_eraseIdx, hv.length]
  · intro j h hj h0
    simp only [Ledger.drop] at hj
    rw [List.getElem?_eraseIdx] at hj
    simp only [Holds, Ledger.drop]
    rw [List.getElem?_eraseIdx]
    split at hj
    case isTrue hlt =>
      rw [if_pos hlt]
      exact hv.holds j h hj h0
    case isFalse hge =>
      rw [if_neg hge]
      exact hv.holds (j + 1) h hj h0

theorem Valid.grant (hv : l.Valid) (hpos : h ≠ 0) (hnew : h ∉ l.live) : (l.grant h).Valid := by
  refine ⟨hv.length, hv.nodup, List.nodup_cons.mpr ⟨hnew, hv.liveNodup⟩, ?_, ?_⟩
  · intro k hk
    rcases List.mem_cons.mp hk with rfl | hk
    · exact hpos
    · exact hv.livePos k hk
  · intro i k hi hk
    obtain ⟨hlive, id, hid, hown⟩ := hv.holds i k hi hk
    exact ⟨List.mem_cons_of_mem h hlive, id, hid, hown⟩

theorem Holds.acquire (hh : l.Holds j k) (hnew : h ∉ l.live) : (l.acquire h i).Holds j k := by
  obtain ⟨hlive, id, hid, hown⟩ := hh
  refine ⟨List.mem_cons_of_mem h hlive, id, hid, ?_⟩
  have hne : k ≠ h := by
    rintro rfl
    exact hnew hlive
  simp only [Ledger.acquire, Function.update_of_ne hne, hown]

theorem Valid.acquire (hv : l.Valid) (hpos : h ≠ 0) (hnew : h ∉ l.live) :
    (l.acquire h i).Valid := by
  have hg := hv.grant hpos hnew
  exact ⟨hg.length, hg.nodup, hg.liveNodup, hg.livePos,
    fun j k hj hk => (hv.holds j k hj hk).acquire hnew⟩

/-- The handle that was given out for an entry is its own. -/
theorem holds_acquire (hi : i < l.ids.length) : (l.acquire h i).Holds i h := by
  refine ⟨List.mem_cons_self, l.ids[i], ?_, ?_⟩
  · exact List.getElem?_eq_getElem hi
  · simp only [Ledger.acquire, Function.update_self, List.getElem?_eq_getElem hi]

theorem Valid.release (hv : l.Valid) (hfree : ∀ j : Nat, l.held[j]? = some h → h = 0) (ok : Bool) :
    (l.release ok h).Valid := by
  have hsub : ∀ k, k ∈ (l.release ok h).live → k ∈ l.live := by
    intro k hk
    simp only [Ledger.release] at hk
    split at hk
    · exact List.mem_of_mem_erase hk
    · exact hk
  refine ⟨hv.length, hv.nodup, ?_, ?_, ?_⟩
  · simp only [Ledger.release]
    split
    · exact hv.liveNodup.erase h
    · exact hv.liveNodup
  · intro k hk
    exact hv.livePos k (hsub k hk)
  · intro j k hj hk
    obtain ⟨hlive, id, hid, hown⟩ := hv.holds j k hj hk
    have hne : k ≠ h := by
      rintro rfl
      exact hk (hfree j hj)
    refine ⟨?_, id, hid, ?_⟩
    · simp only [Ledger.release]
      split
      · exact (List.mem_erase_of_ne hne).mpr hlive
      · exact hlive
    · simp only [Ledger.release, Function.update_of_ne hne, hown]

/-! ## Accounting for every live handle -/

/-- Every live handle is the one kept outside, the one in hand, or recorded by an entry. -/
def Accounted (l : Ledger) (outside inHand : Option Nat) : Prop :=
  ∀ h ∈ l.live, outside = some h ∨ inHand = some h ∨ h ∈ l.held

variable {outside inHand : Option Nat}

theorem Accounted.push (ha : l.Accounted outside inHand) :
    (l.push id).Accounted outside inHand := by
  intro h hh
  rcases ha h hh with h1 | h1 | h1
  · exact Or.inl h1
  · exact Or.inr (Or.inl h1)
  · exact Or.inr (Or.inr (List.mem_append_left _ h1))

/-- The handle of entry `i` is taken in hand. -/
theorem Accounted.vacate (ha : l.Accounted outside none) (hi : l.held[i]? = some h) :
    (l.record i 0).Accounted outside (some h) := by
  intro k hk
  rcases ha k hk with h1 | h1 | h1
  · exact Or.inl h1
  · cases h1
  · obtain ⟨j, hj⟩ := List.mem_iff_getElem?.mp h1
    by_cases hij : i = j
    · subst hij
      rw [hi] at hj
      exact Or.inr (Or.inl hj)
    · refine Or.inr (Or.inr (List.mem_iff_getElem?.mpr ⟨j, ?_⟩))
      rw [Ledger.record, List.getElem?_set_ne hij]
      exact hj

/-- What an entry without a live handle records makes no difference. -/
theorem mem_set_of_ne {xs : List Nat} {a b v : Nat} (hi : xs[i]? = some a) (hv : v ∈ xs)
    (hne : v ≠ a) : v ∈ xs.set i b := by
  obtain ⟨j, hj⟩ := List.mem_iff_getElem?.mp hv
  refine List.mem_iff_getElem?.mpr ⟨j, ?_⟩
  rw [List.getElem?_set_ne]
  · exact hj
  · rintro rfl
    rw [hi, Option.some.injEq] at hj
    exact hne hj.symm

/-- The handle in hand is recorded by an entry that had none. -/
theorem Accounted.record (ha : l.Accounted outside (some h)) (hv : l.Valid)
    (hi : l.held[i]? = some 0) : (l.record i h).Accounted outside none := by
  intro k hk
  rcases ha k hk with h1 | h1 | h1
  · exact Or.inl h1
  · rw [Option.some.injEq] at h1
    subst h1
    obtain ⟨hlt, -⟩ := List.getElem?_eq_some_iff.mp hi
    exact Or.inr (Or.inr (List.mem_iff_getElem?.mpr ⟨i, List.getElem?_set_self hlt⟩))
  · exact Or.inr (Or.inr (mem_set_of_ne hi h1 (hv.livePos k hk)))

theorem Accounted.drop (ha : l.Accounted outside none) (hv : l.Valid)
    (hi : l.held[i]? = some 0) : (l.drop i).Accounted outside none := by
  intro k hk
  rcases ha k hk with h1 | h1 | h1
  · exact Or.inl h1
  · cases h1
  · obtain ⟨j, hj⟩ := List.mem_iff_getElem?.mp h1
    have hne : j ≠ i := by
      rintro rfl
      rw [hi, Option.some.injEq] at hj
      exact hv.livePos k hk hj.symm
    refine Or.inr (Or.inr (List.mem_iff_getElem?.mpr ?_))
    rcases Nat.lt_or_gt_of_ne hne with hlt | hgt
    · exact ⟨j, by rw [Ledger.drop, List.getElem?_eraseIdx_of_lt hlt]; exact hj⟩
    · refine ⟨j - 1, ?_⟩
      rw [Ledger.drop, List.getElem?_eraseIdx_of_ge (by omega), Nat.sub_add_cancel (by omega)]
      exact hj

theorem Accounted.acquire (ha : l.Accounted outside none) :
    (l.acquire h i).Accounted outside (some h) := by
  intro k hk
  rcases List.mem_cons.mp hk with rfl | hk
  · exact Or.inr (Or.inl rfl)
  · rcases ha k hk with h1 | h1 | h1
    · exact Or.inl h1
    · cases h1
    · exact Or.inr (Or.inr h1)

/-- The handle in hand is given back, or was not live. -/
theorem Accounted.release (ha : l.Accounted outside (some h)) (hv : l.Valid) {ok : Bool}
    (hok : ok = true ∨ h ∉ l.live) : (l.release ok h).Accounted outside none := by
  intro k hk
  have hmem : k ∈ l.live ∧ k ≠ h := by
    rcases hok with rfl | hdead
    · have hk' : k ∈ l.live.erase h := hk
      exact ⟨List.mem_of_mem_erase hk', ((hv.liveNodup.mem_erase_iff).mp hk').1⟩
    · have hk' : k ∈ l.live := by
        simp only [Ledger.release] at hk
        split at hk
        · exact List.mem_of_mem_erase hk
        · exact hk
      refine ⟨hk', ?_⟩
      rintro rfl
      exact hdead hk'
  rcases ha k hmem.1 with h1 | h1 | h1
  · exact Or.inl h1
  · rw [Option.some.injEq] at h1
    exact absurd h1.symm hmem.2
  · exact Or.inr (Or.inr h1)

/-- With nothing in hand, a live handle that is not the one outside is recorded exactly once. -/
theorem Accounted.existsUnique (ha : l.Accounted outside none) (hv : l.Valid) (hlive : h ∈ l.live)
    (hout : outside ≠ some h) : ∃! i : Nat, l.held[i]? = some h := by
  rcases ha h hlive with h1 | h1 | h1
  · exact absurd h1 hout
  · cases h1
  · obtain ⟨i, hi⟩ := List.mem_iff_getElem?.mp h1
    exact ⟨i, hi, fun j hj => hv.unique hj hi (hv.livePos h hlive)⟩

end Ledger
