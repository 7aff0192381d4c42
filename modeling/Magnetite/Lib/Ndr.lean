import Mathlib

/-!
# Numbers in bytes

Numbers as bytes of a fixed count in either order, and the padding to a multiple of an alignment.
-/
namespace Magnetite.Lib.Ndr

section Integers

/-- The lowest bytes of a number, least first. -/
def leBytes : Nat → Nat → List UInt8
  | 0, _ => []
  | size + 1, n => UInt8.ofNat n :: leBytes size (n / 256)

/-- The number that bytes stand for, least byte first. -/
def ofLeBytes (bytes : List UInt8) : Nat := bytes.foldr (fun b n => b.toNat + 256 * n) 0

@[simp] theorem length_leBytes (size n : Nat) : (leBytes size n).length = size := by
  induction size generalizing n with
  | zero => rfl
  | succ size ih => rw [leBytes, List.length_cons, ih]

theorem ofLeBytes_leBytes (size n : Nat) : ofLeBytes (leBytes size n) = n % 256 ^ size := by
  induction size generalizing n with
  | zero => rw [Nat.pow_zero, Nat.mod_one]; rfl
  | succ size ih =>
    have hfold : ofLeBytes (leBytes (size + 1) n) =
        (UInt8.ofNat n).toNat + 256 * ofLeBytes (leBytes size (n / 256)) := rfl
    have hbyte : (UInt8.ofNat n).toNat = n % 256 := UInt8.toNat_ofNat'
    have hpow : 256 ^ (size + 1) = 256 * 256 ^ size := Nat.pow_succ'
    rw [hfold, ih, hbyte, hpow, Nat.mod_mul]

theorem leBytes_ofLeBytes (bytes : List UInt8) :
    leBytes bytes.length (ofLeBytes bytes) = bytes := by
  induction bytes with
  | nil => rfl
  | cons b bytes ih =>
    have hfold : ofLeBytes (b :: bytes) = b.toNat + 256 * ofLeBytes bytes := rfl
    have hb := b.toNat_lt
    have hbyte : UInt8.ofNat (b.toNat + 256 * ofLeBytes bytes) = b := by
      rw [← UInt8.toNat_inj, UInt8.toNat_ofNat']
      omega
    have hrest : (b.toNat + 256 * ofLeBytes bytes) / 256 = ofLeBytes bytes := by omega
    rw [List.length_cons, leBytes, hfold, hbyte, hrest, ih]

/-- The lowest bytes of a number, least last. -/
def beBytes (size n : Nat) : List UInt8 := (leBytes size n).reverse

/-- The number that bytes stand for, least byte last. -/
def ofBeBytes (bytes : List UInt8) : Nat := ofLeBytes bytes.reverse

@[simp] theorem length_beBytes (size n : Nat) : (beBytes size n).length = size := by simp [beBytes]

theorem ofBeBytes_beBytes {size n : Nat} (h : n < 256 ^ size) : ofBeBytes (beBytes size n) = n := by
  rw [ofBeBytes, beBytes, List.reverse_reverse, ofLeBytes_leBytes, Nat.mod_eq_of_lt h]

end Integers

section Padding

/-- The bytes that are missing to a multiple of an alignment. -/
def padding (align n : Nat) : Nat := (align - n % align) % align

theorem dvd_add_padding {align : Nat} (h : 0 < align) (n : Nat) : align ∣ n + padding align n := by
  have hlt := Nat.mod_lt n h
  have hsplit := Nat.div_add_mod n align
  by_cases hn : n % align = 0
  · simp only [padding, hn, Nat.sub_zero, Nat.mod_self, Nat.add_zero]
    exact Nat.dvd_of_mod_eq_zero hn
  · have hpad : padding align n = align - n % align := Nat.mod_eq_of_lt (by omega)
    refine ⟨n / align + 1, ?_⟩
    rw [hpad, Nat.mul_add, Nat.mul_one]
    omega

end Padding

end Magnetite.Lib.Ndr
