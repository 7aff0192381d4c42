import Magnetite.Lib.Dotted
import Magnetite.Lib.Text

/-!
# Ancestors of domain names

A name is below the names that follow one of its dots.
-/
namespace Magnetite.Dns

open Magnetite.Lib

/-- A name and one of its ancestors. -/
def Under (name anc : String) : Prop := Dotted.Below '.' name.toList anc.toList

instance (name anc : String) : Decidable (Under name anc) :=
  inferInstanceAs (Decidable (Dotted.Below '.' name.toList anc.toList))

/-- What is left of a name after one `split_once('.')` after the other. -/
def ancestors (name : String) : List String := (Dotted.ancestors '.' name.toList).map String.ofList

variable {name a b : String}

theorem endsWith_dot : Text.endsWith name ("." ++ a) ↔ Under name a := by
  simp [Text.endsWith, Under, Dotted.Below, String.toList_append]

theorem under_append (label a : String) : Under (label ++ "." ++ a) a := by
  have : (label ++ "." ++ a).toList = label.toList ++ '.' :: a.toList := by
    simp [String.toList_append]
  rw [Under, this]
  exact Dotted.Below.append _ _

theorem under_iff : Under name a ↔ ∃ label, name = label ++ "." ++ a := by
  constructor
  · intro h
    obtain ⟨label, hl⟩ := Dotted.below_iff.mp h
    refine ⟨.ofList label, String.toList_inj.mp ?_⟩
    simp [hl, String.toList_append]
  · rintro ⟨label, rfl⟩
    exact under_append label a

theorem Under.asymm (h : Under name a) : ¬ Under a name := Dotted.Below.asymm h

theorem Under.total (ha : Under name a) (hb : Under name b) : a = b ∨ Under a b ∨ Under b a := by
  obtain h | h := Dotted.Below.total ha hb
  · exact .inl (String.toList_inj.mp h)
  · exact .inr h

theorem mem_ancestors : a ∈ ancestors name ↔ Under name a := by
  unfold ancestors
  rw [List.mem_map]
  constructor
  · rintro ⟨l, hl, rfl⟩
    simpa [Under] using Dotted.mem_ancestors.mp hl
  · intro h
    exact ⟨a.toList, Dotted.mem_ancestors.mpr h, String.ofList_toList⟩

/-- The longest ancestor with a property. -/
theorem find?_ancestors {p : String → Bool} (h : (ancestors name).find? p = some a) :
    Under name a ∧ p a ∧ ∀ b, Under name b → p b → b = a ∨ Under a b := by
  rw [ancestors, List.find?_map, Option.map_eq_some_iff] at h
  obtain ⟨l, hl, rfl⟩ := h
  obtain ⟨hbelow, hp, hmax⟩ := Dotted.find?_ancestors hl
  refine ⟨by simpa [Under] using hbelow, hp, fun b hb hpb => ?_⟩
  obtain heq | h := hmax b.toList hb (by simpa using hpb)
  · exact .inl (by rw [← heq, String.ofList_toList])
  · exact .inr (by simpa [Under] using h)

theorem Under.utf8ByteSize_lt (h : Under name a) : a.utf8ByteSize < name.utf8ByteSize := by
  obtain ⟨label, rfl⟩ := under_iff.mp h
  rw [String.utf8ByteSize_append, String.utf8ByteSize_append]
  have : ".".utf8ByteSize = 1 := by decide
  omega

end Magnetite.Dns
