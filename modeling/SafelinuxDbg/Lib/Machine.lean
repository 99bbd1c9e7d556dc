import Mathlib.Data.List.Basic

/-!
# Machines and their runs

A `Machine` has start states and a step function that may refuse an action.  A run is guarded:
`M.Reach ok s` says that `s` is reached by steps each of which meets `ok`, a condition on the
action and the state it is taken in.  With `ok` trivial these are all runs.

* `Machine.Reach.invariant`: what holds at the start and is kept by every guarded step holds in
  every state reached.
* `Machine.Reach.of_run`: a list of actions, checked one by one, gives a run.
* `Machine.recording`: the machine with a record beside it, which the steps write and never read.
  Every run has its record (`Machine.Reach.recorded`).
-/

variable {σ α : Type*}

/-- Start states and steps; `none` refuses the action. -/
structure Machine (σ α : Type*) where
  init : σ → Prop
  step : σ → α → Option σ

namespace Machine

variable (M : Machine σ α) (ok : σ → α → Prop)

/-- The states reached by steps that meet `ok`. -/
inductive Reach : σ → Prop
  | init {s : σ} : M.init s → Reach s
  | step {s t : σ} {a : α} : Reach s → ok s a → M.step s a = some t → Reach t

/-- The state after the actions `as`, when all pass the check and are taken. -/
def run (check : σ → α → Bool) : σ → List α → Option σ
  | s, [] => some s
  | s, a :: as => if check s a then (M.step s a).bind (fun t => run check t as) else none

variable {M} {ok}

namespace Reach

/-- **The invariant rule.** -/
theorem invariant {I : σ → Prop} (h0 : ∀ s, M.init s → I s)
    (hs : ∀ s a t, I s → ok s a → M.step s a = some t → I t) {s : σ} (h : M.Reach ok s) : I s := by
  induction h with
  | init hi => exact h0 _ hi
  | step _ hok hstep ih => exact hs _ _ _ ih hok hstep

/-- A run that meets a condition meets every weaker one. -/
theorem mono {ok' : σ → α → Prop} (hweak : ∀ s a, ok s a → ok' s a) {s : σ}
    (h : M.Reach ok s) : M.Reach ok' s := by
  induction h with
  | init hi => exact .init hi
  | step _ hok hstep ih => exact .step ih (hweak _ _ hok) hstep

theorem of_run {check : σ → α → Bool} (hcheck : ∀ s a, check s a = true → ok s a) {as : List α} :
    ∀ {s t : σ}, M.Reach ok s → M.run check s as = some t → M.Reach ok t := by
  induction as with
  | nil =>
    intro s t hr h
    cases h
    exact hr
  | cons a as ih =>
    intro s t hr h
    rw [run] at h
    split at h
    case isTrue hpass =>
      obtain ⟨u, hstep, hrest⟩ := Option.bind_eq_some_iff.mp h
      exact ih (.step hr (hcheck s a hpass) hstep) hrest
    case isFalse => cases h

end Reach

/-! ## A record beside a machine -/

section Recording

variable {ρ : Type*}

/-- `M` with a record that starts as `r₀`, and in which `note` writes down each step. -/
def recording (M : Machine σ α) (note : σ → α → σ → ρ → ρ) (r₀ : ρ) : Machine (σ × ρ) α where
  init x := M.init x.1 ∧ x.2 = r₀
  step x a := (M.step x.1 a).map (fun t => (t, note x.1 a t x.2))

theorem recording_step {note : σ → α → σ → ρ → ρ} {r₀ : ρ} {x y : σ × ρ} {a : α}
    (h : (M.recording note r₀).step x a = some y) :
    M.step x.1 a = some y.1 ∧ y.2 = note x.1 a y.1 x.2 := by
  obtain ⟨t, ht, rfl⟩ := Option.map_eq_some_iff.mp h
  exact ⟨ht, rfl⟩

theorem Reach.recorded (note : σ → α → σ → ρ → ρ) (r₀ : ρ) {s : σ} (h : M.Reach ok s) :
    ∃ r, (M.recording note r₀).Reach (fun x => ok x.1) (s, r) := by
  induction h with
  | init hi => exact ⟨r₀, .init ⟨hi, rfl⟩⟩
  | @step s t a _ hok hstep ih =>
    obtain ⟨r, hr⟩ := ih
    have hnote : (M.recording note r₀).step (s, r) a = some (t, note s a t r) :=
      congrArg (Option.map (fun t => (t, note s a t r))) hstep
    exact ⟨note s a t r, .step hr hok hnote⟩

/-- A run without its record. -/
theorem Reach.forget {note : σ → α → σ → ρ → ρ} {r₀ : ρ} {ok' : σ × ρ → α → Prop} {x : σ × ρ}
    (h : (M.recording note r₀).Reach ok' x) : M.Reach (fun _ _ => True) x.1 := by
  induction h with
  | init hi => exact .init hi.1
  | step _ _ hstep ih => exact .step ih trivial (recording_step hstep).1

end Recording

end Machine
