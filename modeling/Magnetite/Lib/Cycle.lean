import Mathlib.Data.List.Sort
import Mathlib.Logic.Relation
import Mathlib.Tactic

/-!
# Cycles

A list closes to a cycle: after the last element comes the first one. A relation that leads from
each element to the next one leads everywhere.
-/
namespace Magnetite.Lib.Cycle

/-- If every element leads to the next one, every element leads to every other. -/
theorem reaches_of_next {β : Type} {l : List β} {R : β → β → Prop}
    (hnext : ∀ i a b, l[i]? = some a → l[(i + 1) % l.length]? = some b → R a b) {a b : β}
    (ha : a ∈ l) (hb : b ∈ l) : Relation.ReflTransGen R a b := by
  obtain ⟨i, hi, rfl⟩ := List.mem_iff_getElem.mp ha
  obtain ⟨j, hj, rfl⟩ := List.mem_iff_getElem.mp hb
  have hpos : 0 < l.length := by omega
  -- By the number of steps round the cycle.
  have hsteps (k : ℕ) : ∀ c, l[(i + k) % l.length]? = some c → Relation.ReflTransGen R l[i] c := by
    induction k with
    | zero =>
      intro c hc
      rw [Nat.add_zero, Nat.mod_eq_of_lt hi, List.getElem?_eq_getElem hi] at hc
      rw [Option.some.inj hc]
    | succ k ih =>
      intro c hc
      have hlt := Nat.mod_lt (i + k) hpos
      have hlast := List.getElem?_eq_getElem hlt
      refine (ih _ hlast).tail (hnext _ _ _ hlast ?_)
      rw [Nat.mod_add_mod, Nat.add_assoc, hc]
  refine hsteps (j + l.length - i) _ ?_
  have hround : (i + (j + l.length - i)) % l.length = j := by
    have hsum : i + (j + l.length - i) = j + l.length := by omega
    rw [hsum, Nat.add_mod_right, Nat.mod_eq_of_lt hj]
  rw [hround, List.getElem?_eq_getElem hj]

end Magnetite.Lib.Cycle
