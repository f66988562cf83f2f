import Mathlib.Tactic.Common

/-!
# Folds seen through projections

A projection that only some inputs of a fold move sees the fold over these inputs
alone. Two lists of inputs with the same inputs for every projection, in the same
order, are not told apart by any of them.
-/

namespace Projection

universe u v w

variable {σ : Type u} {α : Type v} {τ : Type w}

/-- A view of the state, the inputs that move it, and what they do to it. -/
structure View (step : σ → α → σ) (τ : Type w) where
  view : σ → τ
  moves : α → Bool
  next : τ → α → τ
  view_moved : ∀ s a, moves a = true → view (step s a) = next (view s) a
  view_still : ∀ s a, moves a = false → view (step s a) = view s

namespace View

variable {step : σ → α → σ} (V : View step τ)

theorem view_foldl (s : σ) (inputs : List α) :
    V.view (inputs.foldl step s) = (inputs.filter V.moves).foldl V.next (V.view s) := by
  induction inputs generalizing s with
  | nil => rfl
  | cons a inputs ih =>
    rw [List.foldl_cons, ih]
    cases moved : V.moves a with
    | true => rw [List.filter_cons_of_pos moved, List.foldl_cons, V.view_moved s a moved]
    | false => rw [List.filter_cons_of_neg (by simp [moved]), V.view_still s a moved]

/-- The order against inputs that do not move the view is not seen. -/
theorem view_foldl_congr (s : σ) {inputs inputs' : List α}
    (same : inputs.filter V.moves = inputs'.filter V.moves) :
    V.view (inputs.foldl step s) = V.view (inputs'.foldl step s) := by
  rw [view_foldl, view_foldl, same]

end View

end Projection
