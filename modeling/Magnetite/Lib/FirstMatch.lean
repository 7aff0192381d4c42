import Mathlib.Data.List.Sort
import Mathlib.Tactic

/-!
# First match by priority

Rule lists are searched in ascending priority, rules of equal priority in the order of the list.
`FirstMatch` states which rule such a search has to find; a stable sort followed by a search finds
exactly that one.
-/
namespace Magnetite.Lib

variable {α κ : Type} [LinearOrder κ]

/-- `sort_by_key`: a stable sort. -/
def sortByKey (key : α → κ) (l : List α) : List α := l.insertionSort fun a b => key a ≤ key b

/-- The rule at some position matches, and every other match has a larger key or, at the same
key, a later position. -/
def FirstMatch (key : α → κ) (p : α → Prop) (l : List α) (a : α) : Prop :=
  ∃ i : Nat, l[i]? = some a ∧ p a ∧
    ∀ (j : Nat) b, l[j]? = some b → p b → key a < key b ∨ (key a = key b ∧ i ≤ j)

theorem firstMatch_congr {key : α → κ} {p q : α → Prop} {l : List α}
    (h : ∀ a ∈ l, p a ↔ q a) (a : α) : FirstMatch key p l a ↔ FirstMatch key q l a := by
  constructor
  · rintro ⟨i, hi, hp, hmin⟩
    exact ⟨i, hi, (h a (List.mem_of_getElem? hi)).mp hp, fun j b hj hb =>
      hmin j b hj ((h b (List.mem_of_getElem? hj)).mpr hb)⟩
  · rintro ⟨i, hi, hp, hmin⟩
    exact ⟨i, hi, (h a (List.mem_of_getElem? hi)).mpr hp, fun j b hj hb =>
      hmin j b hj ((h b (List.mem_of_getElem? hj)).mp hb)⟩

/-- Only the matches at the head of the list or in its tail compete. -/
theorem firstMatch_cons {key : α → κ} {p : α → Prop} {x a : α} {l : List α} :
    FirstMatch key p (x :: l) a ↔
      (a = x ∧ p x ∧ ∀ b ∈ l, p b → key x ≤ key b) ∨
        (FirstMatch key p l a ∧ (p x → key a < key x)) := by
  constructor
  · rintro ⟨i, hi, hp, hmin⟩
    cases i with
    | zero =>
      obtain rfl : x = a := by simpa using hi
      refine .inl ⟨rfl, hp, fun b hb hpb => ?_⟩
      obtain ⟨j, hj⟩ := List.mem_iff_getElem?.mp hb
      rcases hmin (j + 1) b (by simpa using hj) hpb with h | h
      exacts [h.le, h.1.le]
    | succ i =>
      refine .inr ⟨⟨i, by simpa using hi, hp, fun j b hj hb => ?_⟩, fun hx => ?_⟩
      · simpa using hmin (j + 1) b (by simpa using hj) hb
      · simpa using hmin 0 x rfl hx
  · rintro (⟨rfl, hp, hmin⟩ | ⟨⟨i, hi, hp, hmin⟩, hx⟩)
    · refine ⟨0, rfl, hp, fun j b hj hb => ?_⟩
      cases j with
      | zero =>
        obtain rfl : a = b := by simpa using hj
        exact .inr ⟨rfl, le_rfl⟩
      | succ j =>
        have hle := hmin b (List.mem_of_getElem? (by simpa using hj)) hb
        rcases hle.lt_or_eq with h | h
        exacts [.inl h, .inr ⟨h, by omega⟩]
    · refine ⟨i + 1, by simpa using hi, hp, fun j b hj hb => ?_⟩
      cases j with
      | zero =>
        obtain rfl : x = b := by simpa using hj
        exact .inl (hx hb)
      | succ j => simpa using hmin j b (by simpa using hj) hb

/-- Dropping rules beforehand is the same as not letting them match. -/
theorem firstMatch_filter {key : α → κ} {q : α → Bool} {p : α → Prop} {l : List α} {a : α} :
    FirstMatch key p (l.filter q) a ↔ FirstMatch key (fun a => q a ∧ p a) l a := by
  induction l with
  | nil => simp [FirstMatch]
  | cons x l ih =>
    rw [firstMatch_cons]
    by_cases hx : q x
    · rw [List.filter_cons_of_pos hx, firstMatch_cons, ih]
      simp [hx]
    · rw [List.filter_cons_of_neg hx, ih]
      simp [hx]

/-- Searching an insertion into a sorted list. -/
theorem find?_orderedInsert {key : α → κ} {p : α → Bool} {x a : α} {l : List α}
    (hl : l.Pairwise fun a b => key a ≤ key b) :
    (l.orderedInsert (fun a b => key a ≤ key b) x).find? p = some a ↔
      (a = x ∧ p x ∧ ∀ b ∈ l, p b → key x ≤ key b) ∨
        (l.find? p = some a ∧ (p x → key a < key x)) := by
  induction l with
  | nil =>
    by_cases hx : p x
    · simp only [List.orderedInsert_nil, List.find?_cons_of_pos hx, Option.some.injEq]
      simp [hx, eq_comm (a := a)]
    · simp [hx]
  | cons y l ih =>
    obtain ⟨hy, hl⟩ := List.pairwise_cons.mp hl
    by_cases hxy : key x ≤ key y
    · have hmin : ∀ b ∈ y :: l, key x ≤ key b := by
        simpa [hxy] using fun b hb => hxy.trans (hy b hb)
      rw [List.orderedInsert_cons, if_pos hxy]
      by_cases hx : p x
      · rw [List.find?_cons_of_pos hx]
        constructor
        · intro h
          exact .inl ⟨(Option.some.inj h).symm, hx, fun b hb _ => hmin b hb⟩
        · rintro (⟨rfl, -⟩ | ⟨hf, hlt⟩)
          · rfl
          · exact absurd (hlt hx) (not_lt.mpr (hmin a (List.mem_of_find?_eq_some hf)))
      · rw [List.find?_cons_of_neg hx]
        simp [hx]
    · rw [List.orderedInsert_cons, if_neg hxy]
      by_cases hpy : p y
      · rw [List.find?_cons_of_pos hpy, List.find?_cons_of_pos hpy]
        constructor
        · intro h
          obtain rfl := Option.some.inj h
          exact .inr ⟨rfl, fun _ => not_le.mp hxy⟩
        · rintro (⟨rfl, -, hmin⟩ | ⟨h, -⟩)
          · exact absurd (hmin y (by simp) hpy) hxy
          · exact h
      · rw [List.find?_cons_of_neg hpy, List.find?_cons_of_neg hpy, ih hl]
        simp [hpy]

/-- A search through the sorted list finds the first match by priority. -/
theorem find?_sortByKey {key : α → κ} {p : α → Bool} {l : List α} {a : α} :
    (sortByKey key l).find? p = some a ↔ FirstMatch key (fun a => p a) l a := by
  have total : Std.Total fun a b : α => key a ≤ key b := ⟨fun a b => le_total _ _⟩
  have trans : IsTrans α fun a b => key a ≤ key b := ⟨fun a b c => le_trans⟩
  induction l generalizing a with
  | nil => simp [sortByKey, FirstMatch]
  | cons x l ih =>
    have sorted : (sortByKey key l).Pairwise fun a b => key a ≤ key b :=
      List.pairwise_insertionSort _ _
    have mem : ∀ b, b ∈ sortByKey key l ↔ b ∈ l := fun b => List.mem_insertionSort _
    change ((sortByKey key l).orderedInsert _ x).find? p = some a ↔ _
    rw [find?_orderedInsert sorted, firstMatch_cons]
    simp only [mem, ih]

end Magnetite.Lib
