import Mathlib.Data.List.Basic

/-!
# Transition systems

States reached by steps that carry a label, and the rule that carries an invariant along every
run.
-/
namespace Magnetite.Lib

variable {σ α : Type}

/-- A run takes one step for each of its labels, in order. -/
inductive Run (step : σ → α → σ → Prop) : σ → List α → σ → Prop where
  | nil (s : σ) : Run step s [] s
  | cons {s t u : σ} {a : α} {as : List α} : step s a t → Run step t as u → Run step s (a :: as) u

/-- One run after another. -/
theorem Run.append {step : σ → α → σ → Prop} {s t u : σ} {as bs : List α} (h : Run step s as t)
    (h' : Run step t bs u) : Run step s (as ++ bs) u := by
  induction h with
  | nil => exact h'
  | cons hs _ ih => exact .cons hs (ih h')

/-- What every step keeps, a run keeps. -/
theorem Run.invariant {step : σ → α → σ → Prop} {s t : σ} {as : List α} (run : Run step s as t)
    (inv : σ → Prop) (keep : ∀ s a t, inv s → step s a t → inv t) (h : inv s) : inv t := by
  induction run with
  | nil => exact h
  | cons hs _ ih => exact ih (keep _ _ _ h hs)

/-- All steps of a run carry its labels. -/
theorem Run.labelled {step : σ → α → σ → Prop} {s t : σ} {as : List α} (run : Run step s as t)
    {label : α → Prop} (h : ∀ a ∈ as, label a) :
    Run (fun s a t => label a ∧ step s a t) s as t := by
  induction run with
  | nil => exact .nil _
  | cons hs _ ih =>
    rw [List.forall_mem_cons] at h
    exact .cons ⟨h.1, hs⟩ (ih h.2)

/-- A run of a step function that is defined for all its labels. -/
theorem Run.of_foldlM {step : σ → α → Option σ} {s t : σ} {as : List α}
    (h : as.foldlM step s = some t) : Run (fun s a t => step s a = some t) s as t := by
  induction as generalizing s with
  | nil =>
    obtain rfl : s = t := by simpa using h
    exact .nil s
  | cons a as ih =>
    obtain ⟨u, hu, ht⟩ := Option.bind_eq_some_iff.mp h
    exact .cons hu (ih ht)

end Magnetite.Lib
