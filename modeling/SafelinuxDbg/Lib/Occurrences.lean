import Mathlib.Data.List.Induction
import Mathlib.Data.List.Nodup

/-!
# Numbering records that share a key

A list of records in which every record carries the number of earlier records with the same key.
Appending a record with the next number keeps this, and so does taking out the last record of a
key, so that key and number together always tell the records apart.

* `CountsEarlier.append`, `CountsEarlier.erase_last`: the two edits.
* `CountsEarlier.nodup`: key and number are not found twice.
-/

variable {ρ κ : Type*} [DecidableEq κ] {key : ρ → κ} {num : ρ → Nat}

/-- The number of records with the key `k`. -/
def keyCount (key : ρ → κ) (rs : List ρ) (k : κ) : Nat := (rs.map key).count k

@[simp] theorem keyCount_nil (k : κ) : keyCount key [] k = 0 := rfl

theorem keyCount_append (rs ts : List ρ) (k : κ) :
    keyCount key (rs ++ ts) k = keyCount key rs k + keyCount key ts k := by
  rw [keyCount, List.map_append, List.count_append, keyCount, keyCount]

theorem keyCount_cons (r : ρ) (rs : List ρ) (k : κ) :
    keyCount key (r :: rs) k = keyCount key rs k + if key r = k then 1 else 0 := by
  rw [keyCount, List.map_cons, List.count_cons, keyCount]
  by_cases h : key r = k
  · rw [if_pos (beq_iff_eq.mpr h), if_pos h]
  · rw [if_neg (fun hb => h (beq_iff_eq.mp hb)), if_neg h]

theorem keyCount_le_length (key : ρ → κ) (rs : List ρ) (k : κ) :
    keyCount key rs k ≤ rs.length := by
  rw [keyCount, ← List.length_map key]
  exact List.count_le_length

/-- Every record carries the number of records with its key before it. -/
def CountsEarlier (key : ρ → κ) (num : ρ → Nat) (rs : List ρ) : Prop :=
  ∀ l r l', rs = l ++ r :: l' → num r = keyCount key l (key r)

namespace CountsEarlier

variable {rs ts : List ρ} {r : ρ}

theorem nil : CountsEarlier key num [] := by
  intro l r l' h
  exact absurd h (by simp)

theorem of_append (h : CountsEarlier key num (rs ++ ts)) : CountsEarlier key num rs := by
  rintro l r l' rfl
  exact h l r (l' ++ ts) (by rw [List.append_assoc, List.cons_append])

/-- Only keys and numbers matter. -/
theorem congr (h : CountsEarlier key num rs)
    (heq : ts.map (fun r => (key r, num r)) = rs.map (fun r => (key r, num r))) :
    CountsEarlier key num ts := by
  rintro l r l' rfl
  rw [List.map_append, List.map_cons] at heq
  obtain ⟨m, ms, rfl, hm, hms⟩ := List.map_eq_append_iff.mp heq.symm
  obtain ⟨x, m', rfl, hx, -⟩ := List.map_eq_cons_iff.mp hms
  obtain ⟨hkey, hnum⟩ := Prod.mk.inj hx
  have hkeys : m.map key = l.map key := by
    have hfst := congrArg (List.map Prod.fst) hm
    rw [List.map_map, List.map_map] at hfst
    exact hfst
  rw [← hnum, h m x m' rfl, keyCount, keyCount, hkeys, hkey]

/-- A record with the next number. -/
theorem append (h : CountsEarlier key num rs) (hr : num r = keyCount key rs (key r)) :
    CountsEarlier key num (rs ++ [r]) := by
  intro l x l' heq
  rcases List.append_eq_append_iff.mp heq with ⟨m, hl, hm⟩ | ⟨m, hrs, hm⟩
  · -- the record comes behind `rs`, so it is the new one
    cases m with
    | nil =>
      rw [List.append_nil] at hl
      obtain ⟨rfl, -⟩ := List.cons.inj hm
      rw [hl]
      exact hr
    | cons y m =>
      obtain ⟨-, hnil⟩ := List.cons.inj hm
      exact absurd hnil.symm (by simp)
  · cases m with
    | nil =>
      rw [List.append_nil] at hrs
      obtain ⟨rfl, -⟩ := List.cons.inj hm
      rw [← hrs]
      exact hr
    | cons y m =>
      obtain ⟨rfl, -⟩ := List.cons.inj hm
      exact h l x m hrs

/-- The last record of a key is taken out. -/
theorem erase_last (h : CountsEarlier key num (rs ++ r :: ts))
    (hlast : ∀ t ∈ ts, key t ≠ key r) : CountsEarlier key num (rs ++ ts) := by
  intro l x l' heq
  rcases List.append_eq_append_iff.mp heq with ⟨m, rfl, hm⟩ | ⟨m, rfl, hm⟩
  · -- a record behind it has another key, which the missing record does not count for
    have hx : key r ≠ key x := by
      intro hkey
      exact hlast x (by rw [hm]; simp) hkey.symm
    have hold := h (rs ++ r :: m) x l' (by rw [hm]; simp)
    rw [keyCount_append, keyCount_cons, if_neg hx, Nat.add_zero, ← keyCount_append] at hold
    exact hold
  · cases m with
    | nil =>
      rw [List.append_nil] at h
      rw [List.nil_append] at hm
      have hx : key r ≠ key x := by
        intro hkey
        exact hlast x (by rw [← hm]; simp) hkey.symm
      have hold := h (l ++ [r]) x l' (by rw [← hm]; simp)
      rw [keyCount_append, keyCount_cons, if_neg hx] at hold
      exact hold
    | cons y m =>
      obtain ⟨rfl, -⟩ := List.cons.inj hm
      exact h l x (m ++ r :: ts) (by simp)

/-- **Key and number tell the records apart.** -/
theorem nodup (h : CountsEarlier key num rs) : (rs.map fun r => (key r, num r)).Nodup := by
  induction rs using List.reverseRecOn with
  | nil => exact List.nodup_nil
  | append_singleton rs r ih =>
    have hnum := h rs r [] rfl
    rw [List.map_append, List.map_singleton]
    refine List.nodup_append.mpr ⟨ih h.of_append, List.nodup_singleton _, ?_⟩
    rintro a ha b hb rfl
    rw [List.mem_singleton] at hb
    obtain ⟨x, hx, hxr⟩ := List.mem_map.mp ha
    rw [hb] at hxr
    obtain ⟨hkey, heq⟩ := Prod.mk.inj hxr
    -- the earlier record counts fewer than there are before the later one
    obtain ⟨l, l', rfl⟩ := List.append_of_mem hx
    have hearlier := h.of_append l x l' rfl
    rw [hkey] at hearlier
    rw [keyCount_append, keyCount_cons, if_pos hkey] at hnum
    omega

end CountsEarlier
