import Mathlib.Data.Nat.Notation

/-!
# Loops

A round of a loop changes the state, and ends the loop or not: because its condition is false, or by
`break` or `return`.  A loop that need not end is run with fuel, and has no end when the fuel is used
up first.

* `runLoop_add`: a loop that goes on after `m` rounds continues from the state reached.
* `runLoop_ended`: more fuel does not change the end of a loop.
* `runLoop_keeps_add`: what every round keeps is never lost later.
* `runLoop_forever`: a loop that goes on after `m` rounds, in a state in which it goes on for ever,
  has no end.
-/

variable {σ ε : Type*}

/-- At most `fuel` rounds.  The end is `none` when all of them go on. -/
def runLoop (round : σ → σ × Option ε) : ℕ → σ → σ × Option ε
  | 0, s => (s, none)
  | fuel + 1, s =>
    match round s with
    | (t, none) => runLoop round fuel t
    | (t, some e) => (t, some e)

variable {round : σ → σ × Option ε} {s t : σ} {e : ε}

theorem runLoop_one (round : σ → σ × Option ε) (s : σ) : runLoop round 1 s = round s := by
  rw [runLoop]
  split
  case h_1 t h => rw [runLoop, h]
  case h_2 t e h => exact h.symm

theorem runLoop_add {m : ℕ} (h : runLoop round m s = (t, none)) (n : ℕ) :
    runLoop round (m + n) s = runLoop round n t := by
  induction m generalizing s with
  | zero =>
    cases h
    rw [Nat.zero_add]
  | succ m ih =>
    rw [runLoop] at h
    rw [Nat.succ_add, runLoop]
    split at h
    case h_1 => exact ih h
    case h_2 => cases h

theorem runLoop_ended {m : ℕ} (h : runLoop round m s = (t, some e)) (n : ℕ) :
    runLoop round (m + n) s = (t, some e) := by
  induction m generalizing s with
  | zero => cases h
  | succ m ih =>
    rw [runLoop] at h
    rw [Nat.succ_add, runLoop]
    split at h
    case h_1 => exact ih h
    case h_2 => exact h

theorem runLoop_keeps {P : σ → Prop} (hround : ∀ s, P s → P (round s).1) (n : ℕ) (hs : P s) :
    P (runLoop round n s).1 := by
  induction n generalizing s with
  | zero => exact hs
  | succ n ih =>
    have hnext := hround s hs
    rw [runLoop]
    split
    case h_1 t h =>
      rw [h] at hnext
      exact ih hnext
    case h_2 t e h =>
      rw [h] at hnext
      exact hnext

/-- Let every round keep `P`.  Then `P` holds in the end when it held after fewer rounds. -/
theorem runLoop_keeps_add {P : σ → Prop} (hround : ∀ s, P s → P (round s).1) {m : ℕ} (n : ℕ)
    (h : P (runLoop round m s).1) : P (runLoop round (m + n) s).1 := by
  cases hr : runLoop round m s with
  | mk t ended =>
    rw [hr] at h
    cases ended with
    | none =>
      rw [runLoop_add hr]
      exact runLoop_keeps hround n h
    | some e =>
      rw [runLoop_ended hr]
      exact h

theorem runLoop_forever {P : σ → Prop} (hround : ∀ s, P s → (round s).2 = none ∧ P (round s).1)
    {m : ℕ} (h : runLoop round m s = (t, none)) (ht : P t) (n : ℕ) : (runLoop round n s).2 = none := by
  have hon : ∀ n, ∀ t, P t → (runLoop round n t).2 = none := by
    intro n
    induction n with
    | zero => exact fun t _ => rfl
    | succ n ih =>
      intro t ht
      obtain ⟨hnone, hnext⟩ := hround t ht
      rw [runLoop]
      split
      case h_1 u hu =>
        rw [hu] at hnext
        exact ih u hnext
      case h_2 u e hu =>
        rw [hu] at hnone
        cases hnone
  cases hr : runLoop round n s with
  | mk u ended =>
    cases ended with
    | none => rfl
    | some e =>
      -- had it ended, then also with `m` rounds more
      have hended := congrArg Prod.snd (runLoop_ended hr m)
      rw [Nat.add_comm, runLoop_add h n, hon n t ht] at hended
      cases hended
