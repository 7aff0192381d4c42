import Mathlib.Data.Option.Basic
import Mathlib.Data.Nat.Notation
import Mathlib.Tactic.Common

/-!
# Computations that may fail abruptly

A computation ends with a value, with an error that it reports, or with a panic: an access outside
a buffer, an unsigned difference below zero, a value that is not as expected, or a loop that does
not end.
-/
namespace Magnetite.Lib

inductive Attempt (ε α : Type) where
  | ok (a : α)
  | error (e : ε)
  | panic

namespace Attempt

variable {ε α β : Type}

def bind (x : Attempt ε α) (f : α → Attempt ε β) : Attempt ε β :=
  match x with
  | ok a => f a
  | error e => error e
  | panic => panic

def map (f : α → β) (x : Attempt ε α) : Attempt ε β := x.bind fun a => ok (f a)

/-- The operator `?` on an option. -/
def ofOption (e : ε) : Option α → Attempt ε α
  | some a => ok a
  | none => error e

/-- An option that is expected to be a value: an unchecked index, an `expect`. -/
def expect : Option α → Attempt ε α
  | some a => ok a
  | none => panic

/-- A difference of unsigned numbers. -/
def sub (m n : ℕ) : Attempt ε ℕ := if m < n then panic else ok (m - n)

theorem bind_eq_ok {x : Attempt ε α} {f : α → Attempt ε β} {b : β} (h : x.bind f = ok b) :
    ∃ a, x = ok a ∧ f a = ok b := by
  cases x with
  | ok a => exact ⟨a, rfl, h⟩
  | error e => cases h
  | panic => cases h

theorem bind_ne_panic {x : Attempt ε α} {f : α → Attempt ε β} (hx : x ≠ panic)
    (hf : ∀ a, x = ok a → f a ≠ panic) : x.bind f ≠ panic := by
  cases x with
  | ok a => exact hf a rfl
  | error e => nofun
  | panic => exact absurd rfl hx

theorem map_ne_panic {x : Attempt ε α} {f : α → β} (hx : x ≠ panic) : x.map f ≠ panic :=
  bind_ne_panic hx fun _ _ => nofun

/-- The computation does not panic and agrees with one that cannot, under a view of
its values; the values have a property. -/
def Follows {α β : Type} (view : α → β) (P : α → Prop) (x : Attempt Unit α) (y : Option β) : Prop :=
  ∃ r, x = .ofOption () r ∧ (∀ a ∈ r, P a) ∧ y = r.map view

namespace Follows

variable {α β γ δ : Type} {view : α → β} {P : α → Prop} {view' : γ → δ} {Q : γ → Prop}

theorem ok {a : α} (h : P a) : Follows view P (.ok a) (some (view a)) :=
  ⟨some a, rfl, by simpa using h, rfl⟩

theorem error : Follows view P (.error ()) none := ⟨none, rfl, by simp, rfl⟩

theorem ofOption {r : Option α} (h : ∀ a ∈ r, P a) : Follows view P (.ofOption () r) (r.map view) :=
  ⟨r, rfl, h, rfl⟩

theorem bind {x : Attempt Unit α} {y : Option β} {f : α → Attempt Unit γ} {g : β → Option δ}
    (h : Follows view P x y) (hnext : ∀ a, P a → Follows view' Q (f a) (g (view a))) :
    Follows view' Q (x.bind f) (y.bind g) := by
  obtain ⟨r, rfl, hP, rfl⟩ := h
  cases r with
  | none => exact error
  | some a => exact hnext a (hP a rfl)

theorem map {x : Attempt Unit α} {y : Option β} {f : α → γ} {g : β → δ} (h : Follows view P x y)
    (hnext : ∀ a, P a → Q (f a) ∧ g (view a) = view' (f a)) :
    Follows view' Q (x.map f) (y.map g) := by
  rw [Option.map_eq_bind]
  refine h.bind fun a ha => ?_
  obtain ⟨hQ, heq⟩ := hnext a ha
  rw [Function.comp_apply, heq]
  exact ok hQ

theorem ite {p : Prop} [Decidable p] {x x' : Attempt Unit α} {y y' : Option β}
    (h : p → Follows view P x y) (h' : ¬ p → Follows view P x' y') :
    Follows view P (if p then x else x') (if p then y else y') := by
  split_ifs with hp
  · exact h hp
  · exact h' hp

theorem strengthen {x : Attempt Unit α} {y : Option β} {R : β → Prop} (h : Follows view P x y)
    (hR : ∀ b ∈ y, R b) : Follows view (fun a => P a ∧ R (view a)) x y := by
  obtain ⟨r, rfl, hP, rfl⟩ := h
  exact ⟨r, rfl, fun a ha => ⟨hP a ha, hR _ (Option.mem_map_of_mem view ha)⟩, rfl⟩

end Follows

end Attempt

/-! ## Sequences of checks -/

variable {ε α β : Type}

/-- The value, or the given error when there is none. -/
def okOr (o : Option α) (e : ε) : Except ε α :=
  o.elim (.error e) .ok

/-- Go on only if the condition holds. -/
def ensure (b : Bool) (e : ε) : Except ε Unit :=
  bif b then .ok () else .error e

@[simp] theorem okOr_eq_ok {o : Option α} {e : ε} {a : α} : okOr o e = .ok a ↔ o = some a := by
  cases o <;> simp [okOr]

@[simp] theorem ensure_eq_ok {b : Bool} {e : ε} {u : Unit} : ensure b e = .ok u ↔ b = true := by
  cases b <;> simp [ensure]

theorem bind_eq_ok {x : Except ε α} {f : α → Except ε β} {b : β} :
    (x >>= f) = .ok b ↔ ∃ a, x = .ok a ∧ f a = .ok b := by
  cases x <;> simp [bind, Except.bind]

theorem mapError_eq_ok {ε' : Type} {x : Except ε α} {f : ε → ε'} {a : α} :
    x.mapError f = .ok a ↔ x = .ok a := by
  cases x <;> simp [Except.mapError]

theorem pure_eq_ok {a b : α} : (pure a : Except ε α) = .ok b ↔ a = b := by
  simp [pure, Except.pure]

end Magnetite.Lib
