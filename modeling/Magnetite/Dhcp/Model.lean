import Magnetite.Lib.Net

/-!
# Pools, reservations and leases

The rows of the DHCP tables, with the fields that allocation and the checks of the tables read.
Addresses in rows are texts, as they are stored; clients are told apart by the text of their
hardware address.
-/
namespace Magnetite.Dhcp

open Magnetite.Lib Text Net

abbrev Ipv4 := BitVec 32

/-! ## Rows -/

/-- An address distribution pool. -/
structure Pool where
  id : ℕ
  name : String
  rangeStartV4 : Option String
  rangeEndV4 : Option String
  rangeStartV6 : Option String
  rangeEndV6 : Option String
deriving DecidableEq

/-- A static binding of a hardware address to an address of a pool. -/
structure Reservation where
  id : ℕ
  poolRef : ℕ
  macAddress : String
  ipAddress : String
deriving DecidableEq

inductive LeaseState where
  | active | offered | expired | released
deriving DecidableEq

structure Lease where
  poolRef : ℕ
  ipAddress : String
  macAddress : Option String
  state : LeaseState
deriving DecidableEq

/-- The distribution interval, if both ends are addresses. -/
def v4Range (pool : Pool) : Option (ℕ × ℕ) := do
  let start ← pool.rangeStartV4.bind parseIpv4
  let fin ← pool.rangeEndV4.bind parseIpv4
  return (start.toNat, fin.toNat)

def v6Range (pool : Pool) : Option (ℕ × ℕ) := do
  let start ← pool.rangeStartV6.bind parseIpv6
  let fin ← pool.rangeEndV6.bind parseIpv6
  return (start.toNat, fin.toNat)

/-- Whether two closed intervals intersect. -/
def intervalsOverlap (a b : ℕ × ℕ) : Bool := a.1 ≤ b.2 && b.1 ≤ a.2

/-- The address lies in the interval from which the pool distributes. -/
def Pool.Contains (pool : Pool) (ip : Ipv4) : Prop :=
  ∃ r ∈ v4Range pool, r.1 ≤ ip.toNat ∧ ip.toNat ≤ r.2

/-! ## Hardware addresses -/

def isMacSeparator (c : Char) : Bool := c == ':' || c == '-' || c == '.'

def joinPairs : List Char → List Char
  | [a, b] => [a, b]
  | a :: b :: rest => a :: b :: ':' :: joinPairs rest
  | rest => rest

/-- Colon-separated lowercase text, if there are twelve hexadecimal digits. -/
def normalizeMac (mac : String) : Option String :=
  let hex := mac.toList.filter fun c => !isMacSeparator c
  -- the digits are ASCII, so as many characters as bytes
  if hex.length ≠ 12 ∨ ¬ hex.all fun c => (toDigit 16 c).isSome then none
  else some (.ofList (joinPairs (hex.map Char.toLower)))

/-- Both texts normalize alike, or they are equal up to case where one of them is malformed. -/
def macEq (a b : String) : Bool :=
  match normalizeMac a, normalizeMac b with
  | some x, some y => x == y
  | _, _ => eqIgnoreAsciiCase a b

end Magnetite.Dhcp
