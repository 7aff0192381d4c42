import Mathlib.Data.List.Perm.Lattice
import Mathlib.Data.List.Nodup

/-!
# A list laid over another

Values with a key. A value that is put into a list takes the place of the first one with its key; a
list that is laid over another adds the values whose key the other one lacks.
-/
namespace Magnetite.Lib

variable {α β : Type}

/-- The value is put in the place of the first one that it replaces, else at the end. -/
def upsertBy (same : α → Bool) (xs : List α) (x : α) : List α :=
  match xs.findIdx? same with
  | some i => xs.set i x
  | none => xs ++ [x]

variable [DecidableEq β] (key : α → β)

/-- The values of the second list whose key is new are added to the first. -/
def dedupBy (xs ys : List α) : List α :=
  ys.foldl (fun all y => if all.any fun x => key x == key y then all else all ++ [y]) xs

/-- The values are put into the list one after the other. -/
def upsertAll (base xs : List α) : List α :=
  xs.foldl (fun all x => upsertBy (key · == key x) all x) base

section Upsert

theorem upsertBy_cons (same : α → Bool) (y : α) (xs : List α) (x : α) :
    upsertBy same (y :: xs) x = if same y then x :: xs else y :: upsertBy same xs x := by
  by_cases h : same y
  · simp [upsertBy, List.findIdx?_cons, h]
  · rw [if_neg h, upsertBy, upsertBy, List.findIdx?_cons, if_neg h]
    cases xs.findIdx? same <;> rfl

variable {key}

theorem find?_upsertBy (xs : List α) (x : α) (k : β) :
    (upsertBy (key · == key x) xs x).find? (key · == k) =
      if key x = k then some x else xs.find? (key · == k) := by
  induction xs with
  | nil => by_cases h : key x = k <;> simp [upsertBy, h]
  | cons y xs ih =>
    rw [upsertBy_cons]
    by_cases hy : key y = key x <;> by_cases hk : key x = k <;> grind

theorem mem_of_mem_upsertBy {xs : List α} {same : α → Bool} {x z : α}
    (h : z ∈ upsertBy same xs x) : z = x ∨ z ∈ xs := by
  induction xs with
  | nil => simpa [upsertBy] using h
  | cons y xs ih =>
    rw [upsertBy_cons] at h
    split at h <;> grind

theorem nodup_keys_upsertBy {xs : List α} (h : (xs.map key).Nodup) (x : α) :
    ((upsertBy (key · == key x) xs x).map key).Nodup := by
  induction xs with
  | nil => simp [upsertBy]
  | cons y xs ih =>
    rw [List.map_cons, List.nodup_cons] at h
    rw [upsertBy_cons]
    by_cases hy : key y = key x
    · simpa [hy] using h
    · have : key y ∉ (upsertBy (key · == key x) xs x).map key := by
        rintro hmem
        obtain ⟨z, hz, hkey⟩ := List.mem_map.mp hmem
        obtain rfl | hz := mem_of_mem_upsertBy hz
        · exact hy hkey.symm
        · exact h.1 (List.mem_map.mpr ⟨z, hz, hkey⟩)
      simpa [hy] using ⟨by simpa using this, ih h.2⟩

/-- Of the values with one key the last one is found, else what was there before. -/
theorem find?_upsertAll (base xs : List α) (k : β) :
    (upsertAll key base xs).find? (key · == k) =
      (xs.reverse.find? (key · == k)).or (base.find? (key · == k)) := by
  induction xs generalizing base with
  | nil => rfl
  | cons x xs ih =>
    rw [upsertAll, List.foldl_cons, ← upsertAll, ih, find?_upsertBy, List.reverse_cons,
      List.find?_append, Option.or_assoc]
    by_cases h : key x = k <;> simp [h]

theorem nodup_keys_upsertAll {base : List α} (h : (base.map key).Nodup) (xs : List α) :
    ((upsertAll key base xs).map key).Nodup := by
  induction xs generalizing base with
  | nil => exact h
  | cons x xs ih => exact ih (nodup_keys_upsertBy h x)

/-- Where no two values share a key, a value is there if it is the one found by its key. -/
theorem mem_iff_find? {xs : List α} (h : (xs.map key).Nodup) {x : α} :
    x ∈ xs ↔ xs.find? (key · == key x) = some x := by
  refine ⟨fun hx => ?_, List.mem_of_find?_eq_some⟩
  induction xs with
  | nil => simp at hx
  | cons y xs ih =>
    rw [List.map_cons, List.nodup_cons] at h
    obtain rfl | hx := List.mem_cons.mp hx
    · simp
    · have : key y ≠ key x := fun he => h.1 (List.mem_map.mpr ⟨x, hx, he.symm⟩)
      simpa [this] using ih h.2 hx

/-- A value whose key is among those put in is there if it is the last of them with its key. -/
theorem mem_upsertAll_iff {base xs : List α} (h : (base.map key).Nodup) {x y : α} (hy : y ∈ xs)
    (hkey : key y = key x) :
    x ∈ upsertAll key base xs ↔ xs.reverse.find? (key · == key x) = some x := by
  rw [mem_iff_find? (nodup_keys_upsertAll h xs), find?_upsertAll]
  have : (xs.reverse.find? (key · == key x)).isSome := by
    simpa [List.find?_isSome] using ⟨y, hy, hkey⟩
  obtain ⟨z, hz⟩ := Option.isSome_iff_exists.mp this
  rw [hz, Option.some_or]

/-- Where every key of the base is put in again, only values that were put in are left. -/
theorem mem_of_mem_upsertAll {base xs : List α} (h : (base.map key).Nodup)
    (covered : ∀ b ∈ base, ∃ x ∈ xs, key x = key b) {z : α} (hz : z ∈ upsertAll key base xs) :
    z ∈ xs := by
  have hfound := (mem_iff_find? (nodup_keys_upsertAll h xs)).mp hz
  rw [find?_upsertAll, Option.or_eq_some_iff] at hfound
  obtain hlast | ⟨hnone, hbase⟩ := hfound
  · exact List.mem_reverse.mp (List.mem_of_find?_eq_some hlast)
  · obtain ⟨x, hx, hkey⟩ := covered z (List.mem_of_find?_eq_some hbase)
    have := List.find?_eq_none.mp hnone x (List.mem_reverse.mpr hx)
    simp [hkey] at this

end Upsert

section Dedup

variable {key}

/-- What is laid over a list follows it: values with new keys, no two of them with the same. -/
theorem dedupBy_eq_append (key : α → β) (xs ys : List α) :
    ∃ added, dedupBy key xs ys = xs ++ added ∧ (added.map key).Nodup ∧
      (∀ a ∈ added, a ∈ ys ∧ ∀ x ∈ xs, key x ≠ key a) ∧
      ∀ y ∈ ys, ∃ x ∈ xs ++ added, key x = key y := by
  induction ys generalizing xs with
  | nil => exact ⟨[], by simp [dedupBy]⟩
  | cons y ys ih =>
    by_cases hseen : ∃ x ∈ xs, key x = key y
    · obtain ⟨added, heq, hnodup, hnew, hall⟩ := ih xs
      refine ⟨added, ?_, hnodup, ?_, ?_⟩
      · have : xs.any (fun x => key x == key y) := by simpa using hseen
        rw [dedupBy, List.foldl_cons, if_pos this, ← dedupBy, heq]
      · grind
      · grind
    · obtain ⟨added, heq, hnodup, hnew, hall⟩ := ih (xs ++ [y])
      refine ⟨y :: added, ?_, ?_, ?_, ?_⟩
      · have : ¬ xs.any (fun x => key x == key y) := by simpa using hseen
        rw [dedupBy, List.foldl_cons, if_neg this, ← dedupBy, heq, List.append_assoc,
          List.singleton_append]
      · rw [List.map_cons, List.nodup_cons]
        refine ⟨?_, hnodup⟩
        rintro hmem
        obtain ⟨a, ha, hkey⟩ := List.mem_map.mp hmem
        exact (hnew a ha).2 y (by simp) hkey.symm
      · grind
      · grind

/-- The first value with a key is that of the base, else that of the list laid over it. -/
theorem find?_dedupBy (xs ys : List α) (k : β) :
    (dedupBy key xs ys).find? (key · == k) =
      (xs.find? (key · == k)).or (ys.find? (key · == k)) := by
  induction ys generalizing xs with
  | nil => simp [dedupBy]
  | cons y ys ih =>
    rw [dedupBy, List.foldl_cons, ← dedupBy]
    by_cases hseen : ∃ x ∈ xs, key x = key y
    · have : xs.any (fun x => key x == key y) := by simpa using hseen
      rw [if_pos this, ih]
      by_cases hk : key y = k
      · have : (xs.find? (key · == k)).isSome := by simpa [List.find?_isSome, ← hk] using hseen
        obtain ⟨x, hx⟩ := Option.isSome_iff_exists.mp this
        simp [hx]
      · simp [hk]
    · have : ¬ xs.any (fun x => key x == key y) := by simpa using hseen
      rw [if_neg this, ih, List.find?_append, Option.or_assoc]
      by_cases hk : key y = k <;> simp [hk]

/-- A list laid over a base shows exactly a third list if that one is the base and values with new
keys, all of them in the list laid over. -/
theorem dedupBy_perm_iff {base layer all : List α} (hsub : ∀ x ∈ layer, x ∈ all) :
    (dedupBy key base layer).Perm all ↔
      ∃ added, all.Perm (base ++ added) ∧ (added.map key).Nodup ∧
        ∀ a ∈ added, a ∈ layer ∧ ∀ b ∈ base, key b ≠ key a := by
  obtain ⟨shown, heq, hnodup, hnew, hall⟩ := dedupBy_eq_append key base layer
  rw [heq]
  constructor
  · rintro hperm
    exact ⟨shown, hperm.symm, hnodup, hnew⟩
  · rintro ⟨added, hperm, hadded, hover⟩
    refine (List.Perm.append_left base ?_).trans hperm.symm
    have hshown {x : α} (hx : x ∈ shown) : x ∈ added := by
      obtain ⟨hxo, hxb⟩ := hnew x hx
      have := hperm.mem_iff.mp (hsub x hxo)
      exact (List.mem_append.mp this).resolve_left fun hb => hxb x hb rfl
    rw [List.perm_ext_iff_of_nodup (.of_map _ hnodup) (.of_map _ hadded)]
    refine fun x => ⟨hshown, fun hx => ?_⟩
    obtain ⟨hxo, hxb⟩ := hover x hx
    obtain ⟨y, hy, hkey⟩ := hall x hxo
    have hy := (List.mem_append.mp hy).resolve_left fun hb => hxb y hb hkey
    rwa [← List.inj_on_of_nodup_map hadded (hshown hy) hx hkey]

end Dedup

end Magnetite.Lib
