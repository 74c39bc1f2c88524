-- SUMMARY: Runs of a deterministic machine with outputs, and rules for what holds of every run.
import Mathlib.Data.List.Basic
import Mathlib.Tactic.Common

/-!
# Runs

A machine takes a state and an input to a new state and a list of outputs. The
rules carry what holds of every step over to runs of any length.
-/

namespace Run

variable {σ α β ε : Type*} (step : σ → α → σ × List ε)

/-- The state after a list of inputs, and all outputs on the way. -/
def run : σ → List α → σ × List ε
  | s, [] => (s, [])
  | s, a :: as => ((run (step s a).1 as).1, (step s a).2 ++ (run (step s a).1 as).2)

theorem run_fst (s : σ) (as : List α) :
    (run step s as).1 = as.foldl (fun s a => (step s a).1) s := by
  induction as generalizing s with
  | nil => rfl
  | cons a as ih => exact ih (step s a).1

variable {step}

/-- The run rule: a relation between states and outputs that holds of every step
from an invariant state, and composes, holds of every run from such a state. -/
theorem run_rel {Inv : σ → Prop} {R : σ → List ε → σ → Prop} (hnil : ∀ s, R s [] s)
    (happend : ∀ s es s' es' s'', R s es s' → R s' es' s'' → R s (es ++ es') s'')
    (hinv : ∀ s a, Inv s → Inv (step s a).1)
    (hstep : ∀ s a, Inv s → R s (step s a).2 (step s a).1) {s : σ} (hs : Inv s) (as : List α) :
    Inv (run step s as).1 ∧ R s (run step s as).2 (run step s as).1 := by
  induction as generalizing s with
  | nil => exact ⟨hs, hnil s⟩
  | cons a as ih =>
    obtain ⟨hinv', hrest⟩ := ih (hinv s a hs)
    exact ⟨hinv', happend _ _ _ _ _ (hstep s a hs) hrest⟩

/-- Outputs that each step decides from its input alone are decided by the inputs of the run. -/
theorem filterMap_run {f : ε → Option β} {g : α → Option β}
    (h : ∀ s a, (step s a).2.filterMap f = (g a).toList) (s : σ) (as : List α) :
    (run step s as).2.filterMap f = as.filterMap g := by
  induction as generalizing s with
  | nil => rfl
  | cons a as ih =>
    rw [run, List.filterMap_append, h, ih, List.filterMap_cons]
    cases g a <;> rfl

end Run
