import Mathlib.Data.List.Basic
import Mathlib.Data.List.Infix

/-!
# Reading in chunks

A sequence arrives in chunks, and its reader looks after each chunk whether what it has is enough.
Where it stops depends on the chunk boundaries only through those at which it is content.
-/
namespace Magnetite.Lib.Chunks

variable {α : Type}

theorem flatten_toChunks_go (n : ℕ) (xs : List α) (acc₁ : Array α) (acc₂ : Array (List α)) :
    (List.toChunks.go n xs acc₁ acc₂).flatten = acc₂.toList.flatten ++ acc₁.toList ++ xs := by
  induction xs generalizing acc₁ acc₂ with
  | nil => simp [List.toChunks.go]
  | cons x xs ih =>
    rw [List.toChunks.go]
    split <;> simp [ih]

/-- Chunks joined together are what was cut. -/
@[simp] theorem flatten_toChunks (n : ℕ) (xs : List α) : (xs.toChunks n).flatten = xs := by
  match n, xs with
  | _, [] => simp [List.toChunks]
  | 0, x :: xs => simp [List.toChunks]
  | n + 1, x :: xs => simp [List.toChunks, flatten_toChunks_go]

/-- Reads chunks until what has been read satisfies `stop`, or to the end. -/
def readUntil (stop : List α → Bool) (read : List α) : List (List α) → List α
  | [] => read
  | chunk :: rest =>
    if stop (read ++ chunk) then read ++ chunk else readUntil stop (read ++ chunk) rest

variable {stop : List α → Bool}

/-- The reader stops at a boundary that satisfies it when no earlier one does. -/
theorem readUntil_eq {read p : List α} {cut : List (List α)} {k : ℕ} (hread : ¬ stop read)
    (hp : read ++ (cut.take k).flatten = p) (hstop : stop p)
    (first : ∀ q, q <+: p → stop q → q = p) : readUntil stop read cut = p := by
  induction cut generalizing read k with
  | nil => simpa [readUntil] using hp
  | cons chunk rest ih =>
    cases k with
    | zero => exact absurd hstop (by simpa [← hp] using hread)
    | succ k =>
      rw [List.take_succ_cons, List.flatten_cons, ← List.append_assoc] at hp
      rw [readUntil]
      split
      case isTrue h => exact first _ ⟨_, hp⟩ h
      case isFalse h => exact ih h hp

/-- The reader reads to the end when nothing short of it satisfies it. -/
theorem readUntil_all {read : List α} {cut : List (List α)}
    (only : ∀ k, stop (read ++ (cut.take k).flatten) → (cut.take k).flatten = cut.flatten) :
    readUntil stop read cut = read ++ cut.flatten := by
  induction cut generalizing read with
  | nil => simp [readUntil]
  | cons chunk rest ih =>
    have next (k : ℕ) : read ++ ((chunk :: rest).take (k + 1)).flatten
        = read ++ chunk ++ (rest.take k).flatten := by simp
    rw [readUntil, List.flatten_cons, ← List.append_assoc]
    split
    case isTrue h =>
      have := only 1 (by simpa using h)
      simp only [List.take_succ_cons, List.take_zero, List.flatten_cons, List.flatten_nil,
        List.append_nil] at this
      rw [List.append_assoc, ← this]
    case isFalse h =>
      refine ih fun k hk => ?_
      have := only (k + 1) (by rwa [next])
      simpa using this

end Magnetite.Lib.Chunks
