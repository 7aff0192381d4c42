import Mathlib.Data.List.Basic
import Mathlib.Data.List.Sort

/-!
# Rows of a document store

A table is the list of its rows. Updates and deletions address rows by a key column; updating an
absent key changes nothing, and neither does deleting one.
-/
namespace Magnetite.Lib.Rows

variable {α κ : Type} [DecidableEq κ]

/-- `UPDATE ... SET` on the row with the key. -/
def update (key : α → κ) (k : κ) (f : α → α) (rows : List α) : List α :=
  rows.map fun r => if key r = k then f r else r

/-- `DELETE` of the row with the key. -/
def delete (key : α → κ) (k : κ) (rows : List α) : List α := rows.filter fun r => key r ≠ k

theorem mem_update {key : α → κ} {k : κ} {f : α → α} {rows : List α} {x : α} :
    x ∈ update key k f rows ↔
      (∃ r ∈ rows, key r = k ∧ x = f r) ∨ (x ∈ rows ∧ key x ≠ k) := by
  simp only [update, List.mem_map]
  constructor
  · rintro ⟨r, hr, rfl⟩
    by_cases h : key r = k
    · exact .inl ⟨r, hr, h, by simp [h]⟩
    · exact .inr ⟨by simpa [h] using hr, by simp [h]⟩
  · rintro (⟨r, hr, h, rfl⟩ | ⟨hx, h⟩)
    · exact ⟨r, hr, by simp [h]⟩
    · exact ⟨x, hx, by simp [h]⟩

/-- A column that the update leaves alone. -/
theorem map_update {β : Type} {key : α → κ} {k : κ} {f : α → α} {g : α → β}
    (h : ∀ r, g (f r) = g r) (rows : List α) : (update key k f rows).map g = rows.map g := by
  simp only [update, List.map_map]
  refine List.map_congr_left fun r _ => ?_
  by_cases hk : key r = k <;> simp [hk, h]

@[simp] theorem mem_delete {key : α → κ} {k : κ} {rows : List α} {x : α} :
    x ∈ delete key k rows ↔ x ∈ rows ∧ key x ≠ k := by
  simp [delete]

/-- A property of rows that the new row and the updated row have is kept by every write. -/
theorem forall_mem_update {key : α → κ} {k : κ} {f : α → α} {rows : List α} {P : α → Prop}
    (h : ∀ r ∈ rows, P r) (hf : ∀ r ∈ rows, key r = k → P (f r)) :
    ∀ r ∈ update key k f rows, P r := by
  intro x hx
  rcases mem_update.mp hx with ⟨r, hr, hk, rfl⟩ | ⟨hx, -⟩
  exacts [hf r hr hk, h x hx]

theorem forall_mem_delete {key : α → κ} {k : κ} {rows : List α} {P : α → Prop}
    (h : ∀ r ∈ rows, P r) : ∀ r ∈ delete key k rows, P r :=
  fun r hr => h r (mem_delete.mp hr).1

theorem forall_mem_insert {rows : List α} {P : α → Prop} {x : α} (h : ∀ r ∈ rows, P r)
    (hx : P x) : ∀ r ∈ rows ++ [x], P r := by
  simpa [or_imp, forall_and] using ⟨h, hx⟩

end Magnetite.Lib.Rows

/-! ## Feeds

Rows are served in the order of their keys, a page at a time. The cursor is the key of the last row
served, and the next page starts beyond it. -/

namespace Magnetite.Lib.Feed

variable {α κ : Type} [LinearOrder κ] (key : α → κ)

/-- The cursor has not passed the row. -/
def beyond (cursor : Option κ) (x : α) : Bool := cursor.all (· < key x)

def page (cursor : Option κ) (limit : ℕ) (rows : List α) : List α :=
  ((rows.filter (beyond key cursor)).insertionSort fun x y => key x ≤ key y).take limit

/-- The cursor stays when nothing is served. -/
def advance (cursor : Option κ) (served : List α) : Option κ := (served.getLast?.map key).or cursor

end Magnetite.Lib.Feed
