import Magnetite.Lib.System

/-!
# The past of a run

What a run did before it came to a state, and induction over the last step of a run.
-/
namespace Magnetite.Lib

variable {σ α : Type} {step : σ → α → σ → Prop} {s₀ s t : σ} {a : α} {as : List α}

/-- A run from `s₀` with labels `as` takes the step with label `a` out of state `s`. -/
def Took (step : σ → α → σ → Prop) (s₀ : σ) (as : List α) (s : σ) (a : α) : Prop :=
  ∃ past future, as = past ++ a :: future ∧ Run step s₀ past s

theorem Took.append (h : Took step s₀ as s a) (bs : List α) : Took step s₀ (as ++ bs) s a := by
  obtain ⟨past, future, rfl, run⟩ := h
  exact ⟨past, future ++ bs, by simp, run⟩

theorem Took.last (run : Run step s₀ as s) (a : α) : Took step s₀ (as ++ [a]) s a :=
  ⟨as, [], rfl, run⟩

theorem Took.mem (h : Took step s₀ as s a) : a ∈ as := by
  obtain ⟨past, future, rfl, -⟩ := h
  simp

/-- What holds before the first step and is kept by a run's last step holds of every run. -/
theorem Run.induction_last {P : List α → σ → Prop} (start : P [] s₀)
    (last : ∀ as s a t, Run step s₀ as s → P as s → step s a t → P (as ++ [a]) t)
    (run : Run step s₀ as t) : P as t := by
  suffices h : ∀ past u, Run step s₀ past u → P past u → Run step u as t → P (past ++ as) t from
    h [] s₀ (.nil s₀) start run
  intro past u before holds after
  clear run
  induction after generalizing past with
  | nil => simpa using holds
  | @cons u v w a bs hstep _ ih =>
    have hlast := ih (past ++ [a]) (before.append (.cons hstep (.nil v)))
      (last past u a v before holds hstep)
    simpa using hlast

/-- What guarded steps keep holds of a run that takes only such steps. -/
theorem Run.guarded {P : List α → σ → Prop} {guard : σ → α → Prop} (start : P [] s₀)
    (keep : ∀ as s a t, P as s → guard s a → step s a t → P (as ++ [a]) t)
    (run : Run step s₀ as t) (took : ∀ s a, Took step s₀ as s a → guard s a) : P as t := by
  refine Run.induction_last (P := fun as t => (∀ s a, Took step s₀ as s a → guard s a) → P as t)
    (fun _ => start) (fun as s a t before ih hstep took => ?_) run took
  exact keep as s a t (ih fun u b h => took u b (h.append [a])) (took s a (.last before a)) hstep

/-- The part of a run before one of its labels, with the step that has the label. -/
theorem Run.split_at {past future : List α} (run : Run step s₀ (past ++ a :: future) t) :
    ∃ s s', Run step s₀ past s ∧ step s a s' ∧ Run step s' future t := by
  induction past generalizing s₀ with
  | nil =>
    cases run with
    | cons hstep rest => exact ⟨_, _, .nil _, hstep, rest⟩
  | cons b past ih =>
    cases run with
    | cons hstep rest =>
      obtain ⟨s, s', before, now, after⟩ := ih rest
      exact ⟨s, s', .cons hstep before, now, after⟩

/-- The labels fix where a run of a deterministic system ends. -/
theorem Run.deterministic {t t' : σ} (run : Run step s₀ as t) (run' : Run step s₀ as t')
    (det : ∀ s a u u', step s a u → step s a u' → u = u') : t = t' := by
  induction run with
  | nil =>
    cases run'
    rfl
  | cons hstep _ ih =>
    cases run' with
    | cons hstep' rest =>
      obtain rfl := det _ _ _ _ hstep hstep'
      exact ih rest

/-! ## Systems with outputs -/

section Trace
variable {ε ω : Type} {step : σ → ε → Option (σ × ω)}

/-- The labels of a sequence of events: each with what its step gives out. -/
def trace (step : σ → ε → Option (σ × ω)) : σ → List ε → Option (List (ε × ω) × σ)
  | s, [] => some ([], s)
  | s, e :: events => do
    let (t, out) ← step s e
    let (labels, u) ← trace step t events
    return ((e, out) :: labels, u)

theorem run_of_trace {events : List ε} {labels : List (ε × ω)}
    (h : trace step s events = some (labels, t)) :
    Run (fun s l t => step s l.1 = some (t, l.2)) s labels t := by
  induction events generalizing s labels with
  | nil =>
    obtain ⟨rfl, rfl⟩ : [] = labels ∧ s = t := by simpa [trace] using h
    exact .nil s
  | cons e events ih =>
    simp only [trace, Option.bind_eq_bind, Option.bind_eq_some_iff, Option.pure_def,
      Option.some.injEq, Prod.mk.injEq] at h
    obtain ⟨⟨u, out⟩, hstep, ⟨rest, v⟩, htrace, rfl, rfl⟩ := h
    exact .cons hstep (ih htrace)

/-- The steps of an evaluated sequence of events, by their number. -/
theorem exists_take_of_took {events : List ε} {labels : List (ε × ω)} {l : ε × ω}
    (h : trace step s₀ events = some (labels, t))
    (took : Took (fun s l t => step s l.1 = some (t, l.2)) s₀ labels s l) :
    ∃ k < events.length, events[k]? = some l.1 ∧
      (trace step s₀ (events.take k)).map Prod.snd = some s := by
  induction events generalizing s₀ labels with
  | nil =>
    obtain ⟨rfl, -⟩ : [] = labels ∧ s₀ = t := by simpa [trace] using h
    exact absurd took.mem (by simp)
  | cons e events ih =>
    simp only [trace, Option.bind_eq_bind, Option.bind_eq_some_iff, Option.pure_def,
      Option.some.injEq, Prod.mk.injEq] at h
    obtain ⟨⟨u, out⟩, hstep, ⟨rest, v⟩, htrace, rfl, rfl⟩ := h
    obtain ⟨past, future, hlabels, run⟩ := took
    cases run with
    | nil =>
      obtain ⟨rfl, -⟩ : (e, out) = l ∧ rest = future := by simpa using hlabels
      exact ⟨0, by simp, rfl, rfl⟩
    | @cons _ u' _ l' past hstep' run =>
      obtain ⟨rfl, hrest⟩ : (e, out) = l' ∧ rest = past ++ l :: future := by simpa using hlabels
      obtain rfl : u = u' := congrArg Prod.fst (Option.some.inj (hstep.symm.trans hstep'))
      obtain ⟨k, hk, hevent, hstate⟩ := ih htrace ⟨past, future, hrest, run⟩
      obtain ⟨⟨labels', w⟩, hp, rfl⟩ := Option.map_eq_some_iff.mp hstate
      exact ⟨k + 1, by simpa using hk, by simpa using hevent, by simp [trace, hstep, hp]⟩

theorem exists_trace (step : σ → ε → Option (σ × ω)) (s : σ) (events : List ε)
    (P : List (ε × ω) → σ → Prop) [∀ labels t, Decidable (P labels t)]
    (h : (trace step s events).any (fun p => decide (P p.1 p.2)) = true) :
    ∃ labels t, trace step s events = some (labels, t) ∧ P labels t := by
  cases htrace : trace step s events with
  | none => simp [htrace] at h
  | some p =>
    rw [htrace] at h
    exact ⟨p.1, p.2, rfl, of_decide_eq_true h⟩

/-- A sequence of events that can be evaluated is a run. -/
theorem exists_run_of_trace (step : σ → ε → Option (σ × ω)) (s : σ) (events : List ε)
    (P : List (ε × ω) → σ → Prop) [∀ labels t, Decidable (P labels t)]
    (h : (trace step s events).any (fun p => decide (P p.1 p.2)) = true) :
    ∃ labels t, Run (fun s l t => step s l.1 = some (t, l.2)) s labels t ∧ P labels t := by
  obtain ⟨labels, t, htrace, holds⟩ := exists_trace step s events P h
  exact ⟨labels, t, run_of_trace htrace, holds⟩

end Trace

end Magnetite.Lib
