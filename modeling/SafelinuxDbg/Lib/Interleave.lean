import Mathlib.Data.List.Basic

/-!
# Interleavings

A step function `f : σ → α → Option σ` may refuse an action, and `runAll f` takes a list of
actions, all of which have to be accepted.

* `runAll_interleaves`: when every action of one list commutes with every action of another one,
  all interleavings of the two lists end in the same way.
* `runAll_map`: a simulation step by step is one of whole runs.
-/

namespace Interleave

variable {σ τ α : Type*}

/-- `cs` is made of `as` and `bs`, each in its own order. -/
inductive Interleaves : List α → List α → List α → Prop
  | nil : Interleaves [] [] []
  | left {a : α} {as bs cs : List α} : Interleaves as bs cs → Interleaves (a :: as) bs (a :: cs)
  | right {b : α} {as bs cs : List α} : Interleaves as bs cs → Interleaves as (b :: bs) (b :: cs)

/-- The state after a list of actions, if all are accepted. -/
def runAll (f : σ → α → Option σ) : σ → List α → Option σ
  | s, [] => some s
  | s, a :: as => (f s a).bind (fun t => runAll f t as)

/-- The order of two actions does not matter. -/
def Commutes (f : σ → α → Option σ) (a b : α) : Prop :=
  ∀ s, (f s a).bind (fun t => f t b) = (f s b).bind (fun t => f t a)

variable {f : σ → α → Option σ}

/-- An action moves behind a list of actions it commutes with. -/
theorem runAll_move {b : α} {as bs : List α} (h : ∀ a ∈ as, Commutes f a b) (s : σ) :
    (f s b).bind (fun t => runAll f t (as ++ bs)) = runAll f s (as ++ b :: bs) := by
  induction as generalizing s with
  | nil => rfl
  | cons a as ih =>
    have hrest : ∀ a ∈ as, Commutes f a b := fun a ha => h a (List.mem_cons_of_mem _ ha)
    have hswap := h a List.mem_cons_self s
    calc (f s b).bind (fun t => runAll f t (a :: as ++ bs))
        = ((f s b).bind (fun t => f t a)).bind (fun t => runAll f t (as ++ bs)) := by
          rw [Option.bind_assoc]
          rfl
      _ = ((f s a).bind (fun t => f t b)).bind (fun t => runAll f t (as ++ bs)) := by rw [hswap]
      _ = (f s a).bind (fun t => (f t b).bind (fun u => runAll f u (as ++ bs))) :=
          Option.bind_assoc _ _ _
      _ = (f s a).bind (fun t => runAll f t (as ++ b :: bs)) := by
          apply Option.bind_congr
          intro t _
          exact ih hrest t

/-- **All interleavings** of lists that commute end as the one that takes `as` first. -/
theorem runAll_interleaves {as bs cs : List α} (hcs : Interleaves as bs cs)
    (h : ∀ a ∈ as, ∀ b ∈ bs, Commutes f a b) (s : σ) :
    runAll f s cs = runAll f s (as ++ bs) := by
  induction hcs generalizing s with
  | nil => rfl
  | @left a as bs cs _ ih =>
    have hrest : ∀ a ∈ as, ∀ b ∈ bs, Commutes f a b :=
      fun a ha => h a (List.mem_cons_of_mem _ ha)
    show (f s a).bind (fun t => runAll f t cs) = (f s a).bind (fun t => runAll f t (as ++ bs))
    simp only [ih hrest]
  | @right b as bs cs _ ih =>
    have hrest : ∀ a ∈ as, ∀ b ∈ bs, Commutes f a b :=
      fun a ha b hb => h a ha b (List.mem_cons_of_mem _ hb)
    rw [← runAll_move (fun a ha => h a ha b List.mem_cons_self)]
    show (f s b).bind (fun t => runAll f t cs) = _
    simp only [ih hrest]

/-- A map that respects every step respects every run. -/
theorem runAll_map {g : τ → α → Option τ} {φ : σ → τ}
    (h : ∀ s a, g (φ s) a = (f s a).map φ) (as : List α) (s : σ) :
    runAll g (φ s) as = (runAll f s as).map φ := by
  induction as generalizing s with
  | nil => rfl
  | cons a as ih =>
    rw [runAll, runAll, h, Option.map_bind, Option.bind_map]
    apply Option.bind_congr
    intro t _
    exact ih t

end Interleave
