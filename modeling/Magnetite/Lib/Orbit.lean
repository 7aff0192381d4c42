import Mathlib.Data.List.Nodup

/-!
# Orbits of a partial function

What is met when a partial function is applied again and again, and when something is met twice.
-/
namespace Magnetite.Lib.Orbit

variable {α : Type} (f : α → Option α)

/-- The function applied so many times. -/
def iter : ℕ → α → Option α
  | 0, a => some a
  | n + 1, a => (f a).bind (iter n)

/-- What comes after a value in at most so many applications. -/
def orbit : ℕ → α → List α
  | 0, _ => []
  | n + 1, a =>
    match f a with
    | none => []
    | some b => b :: orbit n b

/-- Within so many applications something is met that leads back to itself. -/
def LoopsWithin (n : ℕ) (a : α) : Prop :=
  ∃ i k b, 0 < k ∧ i + k ≤ n ∧ iter f i a = some b ∧ iter f k b = some b

variable {f}

theorem iter_add (i k : ℕ) (a : α) : iter f (i + k) a = (iter f i a).bind (iter f k) := by
  induction i generalizing a with
  | zero => simp [iter]
  | succ i ih =>
    rw [Nat.succ_add, iter, iter, Option.bind_assoc]
    exact congrArg _ (funext ih)

theorem length_orbit_le (n : ℕ) (a : α) : (orbit f n a).length ≤ n := by
  induction n generalizing a with
  | zero => simp [orbit]
  | succ n ih =>
    rw [orbit]
    split
    · exact Nat.zero_le _
    · exact Nat.succ_le_succ (ih _)

theorem getElem?_orbit {n i : ℕ} (h : i ≤ n) (a : α) : (a :: orbit f n a)[i]? = iter f i a := by
  induction i generalizing n a with
  | zero => rfl
  | succ i ih =>
    obtain ⟨n, rfl⟩ : ∃ m, n = m + 1 := ⟨n - 1, by omega⟩
    rw [List.getElem?_cons_succ, orbit, iter]
    cases hf : f a with
    | none => rfl
    | some b => exact ih (by omega) b

/-- Nothing is met twice exactly when there is no loop. -/
theorem nodup_orbit_iff {n : ℕ} {a : α} : (a :: orbit f n a).Nodup ↔ ¬ LoopsWithin f n a := by
  have hlen : (a :: orbit f n a).length ≤ n + 1 := Nat.succ_le_succ (length_orbit_le n a)
  have hmet {i : ℕ} (hi : i ≤ n) : (a :: orbit f n a)[i]? = iter f i a := getElem?_orbit hi a
  rw [List.nodup_iff_getElem?_ne_getElem?]
  constructor
  · rintro h ⟨i, k, b, hk, hik, hi, hb⟩
    have hlast : (a :: orbit f n a)[i + k]? = some b := by
      rw [hmet hik, iter_add, hi, Option.bind_some, hb]
    refine h i (i + k) (by omega) (List.getElem?_eq_some_iff.mp hlast).1 ?_
    rw [hlast, hmet (by omega), hi]
  · intro h i j hij hj heq
    obtain ⟨b, hb⟩ : ∃ b, (a :: orbit f n a)[j]? = some b := ⟨_, List.getElem?_eq_getElem hj⟩
    obtain ⟨k, rfl⟩ := Nat.exists_eq_add_of_lt hij
    have hi : iter f i a = some b := by
      rw [← hmet (by omega), heq, hb]
    rw [hmet (by omega), Nat.add_assoc, iter_add, hi] at hb
    exact h ⟨i, k + 1, b, by omega, by omega, hi, hb⟩

end Magnetite.Lib.Orbit
