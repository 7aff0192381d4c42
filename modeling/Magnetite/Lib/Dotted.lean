import Mathlib.Data.List.Infix
import Mathlib.Tactic

/-!
# Sequences of parts

A list is read as parts between separators. What follows one of its separators is an ancestor of it,
as the suffixes of a domain name are. The ancestors of one list are all below each other.
-/
namespace Magnetite.Lib.Dotted

variable {α : Type} {sep : α} {l a b c : List α}

/-- `anc` follows a separator of `l`. -/
def Below (sep : α) (l anc : List α) : Prop := sep :: anc <:+ l

theorem below_iff : Below sep l a ↔ ∃ p, l = p ++ sep :: a :=
  ⟨fun ⟨p, h⟩ => ⟨p, h.symm⟩, fun ⟨p, h⟩ => ⟨p, h.symm⟩⟩

theorem Below.append (p : List α) (a : List α) : Below sep (p ++ sep :: a) a := List.suffix_append _ _

theorem Below.length_lt (h : Below sep l a) : a.length < l.length := h.length_le

theorem Below.suffix (h : Below sep l a) : a <:+ l := (List.suffix_cons sep a).trans h

theorem Below.trans (h : Below sep l a) (h' : Below sep a b) : Below sep l b :=
  List.IsSuffix.trans h' h.suffix

theorem Below.asymm (h : Below sep l a) : ¬ Below sep a l :=
  fun h' => lt_asymm h.length_lt h'.length_lt

/-- Two ancestors of a list are the same, or one is below the other. -/
theorem Below.total (ha : Below sep l a) (hb : Below sep l b) :
    a = b ∨ Below sep a b ∨ Below sep b a := by
  obtain hab | hba := List.suffix_or_suffix_of_suffix ha hb
  · obtain heq | h := List.suffix_cons_iff.mp hab
    · exact .inl (List.cons.inj heq).2
    · exact .inr (.inr h)
  · obtain heq | h := List.suffix_cons_iff.mp hba
    · exact .inl (List.cons.inj heq).2.symm
    · exact .inr (.inl h)

theorem below_cons_iff {x : α} : Below sep (x :: l) a ↔ (x = sep ∧ a = l) ∨ Below sep l a := by
  rw [Below, List.suffix_cons_iff, List.cons.injEq, Below, eq_comm]

section

variable [DecidableEq α]

instance : Decidable (Below sep l a) := inferInstanceAs (Decidable (sep :: a <:+ l))

/-- What follows the separators, the longest first. -/
def ancestors (sep : α) : List α → List (List α)
  | [] => []
  | x :: l => if x = sep then l :: ancestors sep l else ancestors sep l

theorem mem_ancestors : a ∈ ancestors sep l ↔ Below sep l a := by
  induction l with
  | nil => simp [ancestors, Below]
  | cons x l ih =>
    rw [ancestors, below_cons_iff, ← ih]
    split_ifs with h <;> simp [h]

theorem pairwise_ancestors (sep : α) (l : List α) : (ancestors sep l).Pairwise (Below sep) := by
  induction l with
  | nil => exact .nil
  | cons x l ih =>
    rw [ancestors]
    split_ifs
    · exact .cons (fun b hb => mem_ancestors.mp hb) ih
    · exact ih

/-- The first of the ancestors with a property is the one that all others are ancestors of. -/
theorem find?_ancestors {p : List α → Bool} (h : (ancestors sep l).find? p = some a) :
    Below sep l a ∧ p a ∧ ∀ b, Below sep l b → p b → b = a ∨ Below sep a b := by
  obtain ⟨hp, before, after, heq, hbefore⟩ := List.find?_eq_some_iff_append.mp h
  refine ⟨mem_ancestors.mp (heq ▸ by simp), hp, fun b hb hpb => ?_⟩
  rw [← mem_ancestors, heq, List.mem_append, List.mem_cons] at hb
  obtain hb | rfl | hb := hb
  · exact absurd hpb (by simpa using hbefore b hb)
  · exact .inl rfl
  · have hpairs := pairwise_ancestors sep l
    rw [heq, List.pairwise_append] at hpairs
    exact .inr (List.rel_of_pairwise_cons hpairs.2.1 hb)

end

end Magnetite.Lib.Dotted
