import Mathlib.Algebra.Ring.Nat
import Mathlib.Data.List.Basic
import Mathlib.Tactic.Common

/-!
# BER values of definite length

Values are trees whose lengths are written in any legal form: a short one, or a long one of up to
126 octets with leading zeros.
-/
namespace Magnetite.Lib.Ber

/-! ## Headers -/

/-- Octets of a high tag number: all but the last have the top bit. -/
def TagNumber : List UInt8 → Prop
  | [] => False
  | b :: bs => if b &&& 0x80 = 0 then bs = [] else TagNumber bs

instance TagNumber.decidable : (bs : List UInt8) → Decidable (TagNumber bs)
  | [] => inferInstanceAs (Decidable False)
  | b :: bs =>
    have := TagNumber.decidable bs
    inferInstanceAs (Decidable (if b &&& 0x80 = 0 then bs = [] else TagNumber bs))

structure Identifier where
  first : UInt8
  more : List UInt8
  legal : if first &&& 0x1f = 0x1f then TagNumber more else more = []

namespace Identifier

variable (id : Identifier)

def encode : List UInt8 := id.first :: id.more

def isConstructed : Bool := id.first &&& 0x20 ≠ 0

end Identifier

/-- A number in a fixed number of octets, the highest first. -/
def digits : Nat → Nat → List UInt8
  | 0, _ => []
  | k + 1, v => UInt8.ofNat (v / 256 ^ k) :: digits k (v % 256 ^ k)

@[simp]
theorem length_digits (k v : Nat) : (digits k v).length = k := by
  induction k generalizing v with
  | zero => rfl
  | succ k ih => rw [digits, List.length_cons, ih]

/-- The number of octets is zero for the short form. -/
def lengthOctets (octets len : Nat) : List UInt8 :=
  if octets = 0 then [UInt8.ofNat len] else UInt8.ofNat (128 + octets) :: digits octets len

def LengthFits (octets len : Nat) : Prop :=
  if octets = 0 then len < 128 else octets ≤ 126 ∧ len < 256 ^ octets

@[simp]
theorem length_lengthOctets (octets len : Nat) : (lengthOctets octets len).length = 1 + octets := by
  unfold lengthOctets
  split_ifs with h
  · rw [h, List.length_singleton]
  · rw [List.length_cons, length_digits, Nat.add_comm]

/-! ## Values in a row -/

/-- Values in a row, such as the contents of a constructed value. Each has its identifier and the
number of its length octets. -/
inductive Contents where
  | nil
  | primitive (id : Identifier) (h : id.isConstructed = false) (octets : Nat)
      (content : List UInt8) (rest : Contents)
  | constructed (id : Identifier) (h : id.isConstructed = true) (octets : Nat)
      (inner : Contents) (rest : Contents)

/-- The level of an element, whether it is constructed, and its length octets. -/
structure Header where
  level : Nat
  constructed : Bool
  octets : Nat
  deriving DecidableEq, Repr

namespace Contents

def encode : Contents → List UInt8
  | nil => []
  | primitive id _ octets content rest =>
    id.encode ++ (lengthOctets octets content.length ++ (content ++ rest.encode))
  | constructed id _ octets inner rest =>
    id.encode ++ (lengthOctets octets inner.encode.length ++ (inner.encode ++ rest.encode))

/-- Every length fits into its octets. -/
def WellFormed : Contents → Prop
  | nil => True
  | primitive _ _ octets content rest => LengthFits octets content.length ∧ rest.WellFormed
  | constructed _ _ octets inner rest =>
    LengthFits octets inner.encode.length ∧ inner.WellFormed ∧ rest.WellFormed

/-- How many values there are in the row. -/
def siblings : Contents → Nat
  | nil => 0
  | primitive _ _ _ _ rest | constructed _ _ _ _ rest => 1 + rest.siblings

/-- Constructed elements in one another. -/
def depth : Contents → Nat
  | nil => 0
  | primitive _ _ _ _ rest => rest.depth
  | constructed _ _ _ inner rest => max (inner.depth + 1) rest.depth

/-- The headers in the order of the bytes. -/
def headers : Contents → Nat → List Header
  | nil, _ => []
  | primitive _ _ octets _ rest, level => ⟨level, false, octets⟩ :: rest.headers level
  | constructed _ _ octets inner rest, level =>
    ⟨level, true, octets⟩ :: (inner.headers (level + 1) ++ rest.headers level)

theorem lt_depth_iff (cs : Contents) (level limit : Nat) :
    limit < cs.depth + level ↔
      limit < level ∨ ∃ h ∈ cs.headers (level + 1), h.constructed ∧ limit < h.level := by
  induction cs generalizing level with
  | nil => simp [depth, headers]
  | primitive id hid octets content rest ih =>
    rw [depth, ih, headers]
    simp
  | constructed id hid octets inner rest ihInner ihRest =>
    have hinner := ihInner (level + 1)
    have hrest := ihRest level
    have hmax : limit < max (inner.depth + 1) rest.depth + level ↔
        limit < inner.depth + (level + 1) ∨ limit < rest.depth + level := by
      omega
    rw [depth, headers, hmax, hinner, hrest]
    simp only [List.mem_cons, List.mem_append, or_and_right, exists_or, exists_eq_left]
    constructor
    · rintro ((hown | hinner) | hlevel | hrest)
      · exact .inr (.inl ⟨trivial, hown⟩)
      · exact .inr (.inr (.inl hinner))
      · exact .inl hlevel
      · exact .inr (.inr (.inr hrest))
    · rintro (hlevel | ⟨-, hown⟩ | hinner | hrest)
      · exact .inr (.inl hlevel)
      · exact .inl (.inl hown)
      · exact .inl (.inr hinner)
      · exact .inr (.inr hrest)

/-- An element takes two bytes at least. -/
theorem length_headers_le (cs : Contents) (level : Nat) :
    2 * (cs.headers level).length ≤ cs.encode.length := by
  induction cs generalizing level with
  | nil => exact Nat.le_refl _
  | primitive id hid octets content rest ih =>
    have := ih level
    simp only [headers, encode, Identifier.encode, List.length_cons, List.length_append,
      length_lengthOctets]
    omega
  | constructed id hid octets inner rest ihInner ihRest =>
    have hinner := ihInner (level + 1)
    have hrest := ihRest level
    simp only [headers, encode, Identifier.encode, List.length_cons, List.length_append,
      length_lengthOctets]
    omega

end Contents

/-- One value. -/
structure Value where
  contents : Contents
  single : contents.siblings = 1
  wellFormed : contents.WellFormed

namespace Value

variable (v : Value)

def encode : List UInt8 := v.contents.encode

def depth : Nat := v.contents.depth

/-- The headers in the order of the bytes, the value's own at level one. -/
def headers : List Header := v.contents.headers 1

theorem lt_depth_iff (limit : Nat) :
    limit < v.depth ↔ ∃ h ∈ v.headers, h.constructed ∧ limit < h.level := by
  have := v.contents.lt_depth_iff 0 limit
  rwa [Nat.add_zero, Nat.zero_add, or_iff_right (Nat.not_lt_zero _)] at this

end Value

end Magnetite.Lib.Ber
