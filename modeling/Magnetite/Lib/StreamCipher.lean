import Mathlib.Data.List.Basic

/-!
# Stream ciphers

A generator gives a stream of bytes that does not depend on the text; the text is combined with it
by exclusive or.
-/
namespace Magnetite.Lib.StreamCipher

variable {σ : Type}

/-- Bits of a text are flipped where a mask has them set. -/
def flip (data mask : List UInt8) : List UInt8 := List.zipWith (· ^^^ ·) data mask

@[simp] theorem flip_cons (byte m : UInt8) (data mask : List UInt8) :
    flip (byte :: data) (m :: mask) = (byte ^^^ m) :: flip data mask := rfl

/-- The text combined with the bytes of a generator. -/
def combine (next : σ → UInt8 × σ) : σ → List UInt8 → List UInt8
  | _, [] => []
  | s, byte :: data => (byte ^^^ (next s).1) :: combine next (next s).2 data

variable (next : σ → UInt8 × σ) (s : σ)

@[simp] theorem length_combine (data : List UInt8) :
    (combine next s data).length = data.length := by
  induction data generalizing s with
  | nil => rfl
  | cons byte data ih => rw [combine, List.length_cons, ih, List.length_cons]

/-- The same stream takes itself away again. -/
theorem combine_combine (data : List UInt8) : combine next s (combine next s data) = data := by
  induction data generalizing s with
  | nil => rfl
  | cons byte data ih => rw [combine, combine, ih, UInt8.xor_assoc, UInt8.xor_self, UInt8.xor_zero]

/-- A bit that is flipped before is flipped after. -/
theorem combine_flip (data mask : List UInt8) :
    combine next s (flip data mask) = flip (combine next s data) mask := by
  induction data generalizing s mask with
  | nil => rfl
  | cons byte data ih =>
    cases mask with
    | nil => rfl
    | cons m mask =>
      rw [flip_cons, combine, ih, combine, flip_cons, UInt8.xor_assoc, UInt8.xor_comm m,
        ← UInt8.xor_assoc]

theorem flip_append {data data' mask mask' : List UInt8} (h : data.length = mask.length) :
    flip (data ++ data') (mask ++ mask') = flip data mask ++ flip data' mask' :=
  List.zipWith_append h

@[simp] theorem flip_zeros (data : List UInt8) :
    flip data (List.replicate data.length 0) = data := by
  induction data with
  | nil => rfl
  | cons byte data ih =>
    rw [List.length_cons, List.replicate_succ, flip_cons, UInt8.xor_zero, ih]

theorem length_flip {data mask : List UInt8} (h : data.length = mask.length) :
    (flip data mask).length = data.length := by
  simp [flip, h]

/-- Only the empty mask leaves a text as it is. -/
theorem flip_eq_self {data mask : List UInt8} (h : data.length = mask.length)
    (heq : flip data mask = data) : mask = List.replicate data.length 0 := by
  induction data generalizing mask with
  | nil => exact List.length_eq_zero_iff.mp h.symm
  | cons byte data ih =>
    cases mask with
    | nil => simp at h
    | cons m mask =>
      rw [flip_cons] at heq
      obtain ⟨hbyte, hrest⟩ := List.cons.inj heq
      have hm : m = 0 := by
        rw [← UInt8.zero_xor (a := m), ← UInt8.xor_self (a := byte), UInt8.xor_assoc, hbyte]
      rw [hm, ih (by simpa using h) hrest]
      rfl

end Magnetite.Lib.StreamCipher
