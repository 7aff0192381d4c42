import Magnetite.Dhcp.Model

/-!
# Address allocation

The choice of an address for a client: its reservation, its current lease, the address it asks for,
or the first free address in this server's part of the pool, in this order.
-/
namespace Magnetite.Dhcp

open Magnetite.Lib Text Net

/-- This server is number `index` of `count` that share each pool without talking to each other;
fresh addresses come from its own slice of the range. -/
structure PoolPartition where
  index : ℕ
  count : ℕ
deriving DecidableEq

/-- `u32::try_from(n).unwrap_or(0)`. -/
def toU32 (n : ℕ) : ℕ := if n < 2 ^ 32 then n else 0

/-- The part of `[start, fin]` for fresh addresses. A degenerate partition is the whole range, and
so is one with fewer addresses than servers. -/
def PoolPartition.slice (p : PoolPartition) (start fin : ℕ) : ℕ × ℕ :=
  if p.count ≤ 1 ∨ p.count ≤ p.index ∨ fin < start then (start, fin)
  else
    let size := (fin - start + 1) / p.count
    if size = 0 then (start, fin)
    else
      let nodeStart := start + toU32 (p.index * size)
      let nodeEnd := if p.index = p.count - 1 then fin else nodeStart + toU32 size - 1
      (nodeStart, nodeEnd)

/-- The part of the range that a server with this partition, or none, takes fresh addresses from. -/
def allocRange (partition : Option PoolPartition) (start fin : ℕ) : ℕ × ℕ :=
  (partition.map fun p => p.slice start fin).getD (start, fin)

def inRange (ip start fin : ℕ) : Bool := start ≤ ip && ip ≤ fin

/-- Whether a lease currently holds an address. -/
def holdsAddress (lease : Lease) : Bool :=
  match lease.state with
  | .active | .offered => true
  | _ => false

/-- The lease was given to the client; one without a hardware address was given to nobody. -/
def Lease.isOf (mac : String) (lease : Lease) : Bool :=
  (lease.macAddress.map fun m => macEq m mac).getD false

def reservedSet (reservations : List Reservation) : List Ipv4 :=
  reservations.filterMap fun r => parseIpv4 r.ipAddress

/-- What must not be handed out to the client. -/
def heldByOther (leases : List Lease) (mac : String) : List Ipv4 :=
  ((leases.filter holdsAddress).filter fun l =>
    (l.macAddress.map fun m => !macEq m mac).getD true).filterMap fun l => parseIpv4 l.ipAddress

/-- The first reservation of the client, if its text is an IPv4 address. -/
def reservationFor (reservations : List Reservation) (mac : String) : Option Ipv4 :=
  (reservations.find? fun r => macEq r.macAddress mac).bind fun r => parseIpv4 r.ipAddress

/-- The client's current lease, if the address is still in range and not reserved. -/
def currentLease (leases : List Lease) (reserved : List Ipv4) (mac : String) (start fin : ℕ) :
    Option Ipv4 :=
  ((((leases.filter holdsAddress).find? (·.isOf mac)).bind fun l => parseIpv4 l.ipAddress)).filter
    fun ip => inRange ip.toNat start fin && !reserved.contains ip

/-- The address the client asks for, if it is in range and free. -/
def askedFor (requested : Option Ipv4) (reserved held : List Ipv4) (start fin : ℕ) : Option Ipv4 :=
  requested.filter fun ip =>
    inRange ip.toNat start fin && !reserved.contains ip && !held.contains ip

def firstFree (reserved held : List Ipv4) (start fin : ℕ) : Option Ipv4 :=
  ((List.range' start (fin + 1 - start)).map (BitVec.ofNat 32)).find? fun ip =>
    !reserved.contains ip && !held.contains ip

/-- An address of the pool for the client, if there is one. -/
def allocateIp (pool : Pool) (reservations : List Reservation) (leases : List Lease) (mac : String)
    (requested : Option Ipv4) (partition : Option PoolPartition) : Option Ipv4 :=
  reservationFor reservations mac <|> do
    let (start, fin) ← v4Range pool
    if fin < start then none
    else
      let reserved := reservedSet reservations
      let held := heldByOther leases mac
      let (allocStart, allocEnd) := allocRange partition start fin
      currentLease leases reserved mac start fin <|>
        askedFor requested reserved held start fin <|>
        firstFree reserved held allocStart allocEnd

/-! ## What is allocated -/

theorem toU32_of_lt {n : ℕ} (h : n < 2 ^ 32) : toU32 n = n := if_pos h

namespace PoolPartition

variable {i j n start fin : ℕ}

/-- The slices up to that of a server fit into the range. -/
theorem mul_size_le (hi : i < n) :
    i * ((fin - start + 1) / n) + (fin - start + 1) / n ≤ fin - start + 1 := by
  have hnext : (i + 1) * ((fin - start + 1) / n) ≤ fin - start + 1 :=
    (Nat.mul_le_mul_right _ hi).trans (Nat.mul_div_le _ _)
  rwa [Nat.add_mul, one_mul] at hnext

theorem two_mul_size_le (hn : 1 < n) : 2 * ((fin - start + 1) / n) ≤ fin - start + 1 :=
  (Nat.mul_le_mul_right _ hn).trans (Nat.mul_div_le _ _)

/-- With an address for every server, all slices have the same size, except that the last one has
what is left over. -/
theorem slice_eq (hfin : fin < 2 ^ 32) (hi : i < n) (hsize : n ≤ fin + 1 - start) :
    (⟨i, n⟩ : PoolPartition).slice start fin =
      (start + i * ((fin - start + 1) / n),
        if i = n - 1 then fin
        else start + i * ((fin - start + 1) / n) + (fin - start + 1) / n - 1) := by
  have hpos : 0 < (fin - start + 1) / n := Nat.div_pos (by omega) (by omega)
  have hnext := @mul_size_le i n start fin hi
  by_cases hone : n = 1
  · obtain rfl : i = 0 := by omega
    simp [slice, hone]
  · have hhalf := @two_mul_size_le n start fin (by omega)
    rw [slice, if_neg (by dsimp only; omega)]
    simp only [if_neg hpos.ne']
    rw [toU32_of_lt (by omega), toU32_of_lt (by omega)]

/-- The slice stays inside the range. -/
theorem slice_within (p : PoolPartition) (start fin : ℕ) :
    start ≤ (p.slice start fin).1 ∧ (p.slice start fin).2 ≤ fin := by
  simp only [slice]
  split_ifs with hd hs hl
  · exact ⟨le_rfl, le_rfl⟩
  · exact ⟨le_rfl, le_rfl⟩
  · exact ⟨Nat.le_add_right _ _, le_rfl⟩
  · refine ⟨Nat.le_add_right _ _, ?_⟩
    simp only [not_or, not_le, not_lt] at hd
    have hnext := @mul_size_le _ _ start fin hd.2.1
    have hle : ∀ n, toU32 n ≤ n := fun n => by unfold toU32; split_ifs <;> omega
    have h1 := hle (p.index * ((fin - start + 1) / p.count))
    have h2 := hle ((fin - start + 1) / p.count)
    dsimp only
    omega

/-! ### Machine arithmetic -/

/-- The value, unless it does not fit into `w` bits. -/
def fits (w n : ℕ) : Option ℕ := if n < 2 ^ w then some n else none

theorem fits_of_lt {w : ℕ} (h : n < 2 ^ w) : fits w n = some n := if_pos h

/-- `slice` with each operation in the width it has in the code, up to the first overflow. -/
def checkedSlice (p : PoolPartition) (start fin : ℕ) : Option (ℕ × ℕ) :=
  if p.count ≤ 1 ∨ p.count ≤ p.index ∨ fin < start then some (start, fin)
  else do
    let total ← fits 64 (fin - start + 1)
    let size := total / p.count
    if size = 0 then some (start, fin)
    else
      let skipped ← fits 64 (p.index * size)
      let nodeStart ← fits 32 (start + toU32 skipped)
      if p.index = p.count - 1 then some (nodeStart, fin)
      else
        -- the sum is formed before one is taken away, and nothing can be taken from zero
        let next ← fits 32 (nodeStart + toU32 size)
        if next = 0 then none else some (nodeStart, next - 1)

theorem checkedSlice_eq (hfin : fin < 2 ^ 32) (hi : i < n) (hsize : n ≤ fin + 1 - start) :
    (⟨i, n⟩ : PoolPartition).checkedSlice start fin =
      some ((⟨i, n⟩ : PoolPartition).slice start fin) := by
  have hpos : 0 < (fin - start + 1) / n := Nat.div_pos (by omega) (by omega)
  have hnext := @mul_size_le i n start fin hi
  by_cases hone : n = 1
  · simp [slice, checkedSlice, hone]
  · have hhalf := @two_mul_size_le n start fin (by omega)
    rw [slice, checkedSlice, if_neg (by dsimp only; omega), if_neg (by dsimp only; omega)]
    have htotal : fits 64 (fin - start + 1) = some (fin - start + 1) := fits_of_lt (by omega)
    have hskipped : fits 64 (i * ((fin - start + 1) / n)) = some (i * ((fin - start + 1) / n)) :=
      fits_of_lt (by omega)
    simp only [Option.bind_eq_bind, htotal, hskipped, Option.bind_some, if_neg hpos.ne']
    rw [toU32_of_lt (by omega), toU32_of_lt (by omega), fits_of_lt (by omega), Option.bind_some]
    split_ifs with hlast
    · rfl
    · -- a later server starts after this one, so the sum is at most `fin`
      have hlater : (i + 1) * ((fin - start + 1) / n) + (fin - start + 1) / n ≤ fin - start + 1 :=
        mul_size_le (by omega)
      rw [Nat.add_mul, one_mul] at hlater
      rw [fits_of_lt (by omega), Option.bind_some, if_neg (by omega)]

end PoolPartition

theorem allocRange_within (partition : Option PoolPartition) (start fin : ℕ) :
    start ≤ (allocRange partition start fin).1 ∧ (allocRange partition start fin).2 ≤ fin := by
  cases partition with
  | none => exact ⟨le_rfl, le_rfl⟩
  | some p => exact p.slice_within start fin

theorem firstFree_eq_some {reserved held : List Ipv4} {start fin : ℕ} (hfin : fin < 2 ^ 32)
    {ip : Ipv4} (h : firstFree reserved held start fin = some ip) :
    start ≤ ip.toNat ∧ ip.toNat ≤ fin ∧ ip ∉ reserved ∧ ip ∉ held := by
  have hfree := List.find?_some h
  obtain ⟨n, hn, rfl⟩ := List.mem_map.mp (List.mem_of_find?_eq_some h)
  rw [List.mem_range'_1] at hn
  simp only [Bool.and_eq_true, Bool.not_eq_true', List.contains_eq_mem,
    decide_eq_false_iff_not] at hfree
  rw [BitVec.toNat_ofNat, Nat.mod_eq_of_lt (by omega)]
  exact ⟨by omega, by omega, hfree⟩

theorem v4Range_lt {pool : Pool} {start fin : ℕ} (h : v4Range pool = some (start, fin)) :
    fin < 2 ^ 32 := by
  simp only [v4Range, Option.bind_eq_bind, Option.bind_eq_some_iff, Option.pure_def,
    Option.some.injEq, Prod.mk.injEq] at h
  obtain ⟨_, -, a, -, -, rfl⟩ := h
  exact a.isLt

/-- An address that a lease of somebody else holds is not free. -/
theorem mem_heldByOther {leases : List Lease} {mac : String} {ip : Ipv4} {l : Lease}
    (hl : l ∈ leases) (hholds : holdsAddress l) (hother : l.isOf mac = false)
    (hip : parseIpv4 l.ipAddress = some ip) : ip ∈ heldByOther leases mac := by
  refine List.mem_filterMap.mpr ⟨l, List.mem_filter.mpr ⟨List.mem_filter.mpr ⟨hl, hholds⟩, ?_⟩, hip⟩
  unfold Lease.isOf at hother
  cases hm : l.macAddress with
  | none => rfl
  | some m => simpa [hm] using hother

end Magnetite.Dhcp
