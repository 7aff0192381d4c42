import Mathlib

/-!
# UTF-16

Texts as sequences of 16-bit code units. Decoding replaces a surrogate that has no partner.
-/
namespace Magnetite.Lib.Utf16

/-- A unit that starts a pair. -/
def isLead (u : Nat) : Bool := 0xd800 ≤ u && u < 0xdc00

/-- A unit that ends a pair. -/
def isTrail (u : Nat) : Bool := 0xdc00 ≤ u && u < 0xe000

/-- The character of a unit that stands alone. -/
def single (u : Nat) : Char := if isLead u || isTrail u then '�' else Char.ofNat u

def encodeChar (c : Char) : List Nat :=
  if c.toNat < 0x10000 then [c.toNat]
  else [0xd800 + (c.toNat - 0x10000) / 0x400, 0xdc00 + (c.toNat - 0x10000) % 0x400]

/-- `str::encode_utf16`. -/
def encode (s : String) : List Nat := s.toList.flatMap encodeChar

def decodeChars : List Nat → List Char
  | [] => []
  | [u] => [single u]
  | u :: v :: units =>
    if isLead u && isTrail v then
      Char.ofNat (0x10000 + (u - 0xd800) * 0x400 + (v - 0xdc00)) :: decodeChars units
    else single u :: decodeChars (v :: units)

/-- `String::from_utf16_lossy`. -/
def decode (units : List Nat) : String := .ofList (decodeChars units)

end Magnetite.Lib.Utf16
