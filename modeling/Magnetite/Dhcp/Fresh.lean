import Magnetite.Dhcp.Alloc
import Mathlib.Order.CompletePartialOrder

/-!
# The first address of a client

A client that has neither a reservation nor a lease and asks for no address gets a free address of
its server's part of the pool, and goes without one only when there is none.
-/
namespace Magnetite.Dhcp

open Magnetite.Lib Text Net

/-- The number of the server that an address of a range belongs to: all servers have as many, except
that the last one has what is left over. -/
def serverOf (count start fin ip : ℕ) : ℕ :=
  min ((ip - start) / ((fin - start + 1) / count)) (count - 1)

/-- The address is in the range, and belongs to the server if the range is shared at all. -/
def OwnSlice (partition : Option PoolPartition) (start fin ip : ℕ) : Prop :=
  start ≤ ip ∧ ip ≤ fin ∧ ∀ p ∈ partition, 1 < p.count → p.index < p.count →
    p.count ≤ fin - start + 1 → serverOf p.count start fin ip = p.index

def IsReserved (reservations : List Reservation) (ip : Ipv4) : Prop :=
  ∃ r ∈ reservations, parseIpv4 r.ipAddress = some ip

def IsHeld (leases : List Lease) (ip : Ipv4) : Prop :=
  ∃ l ∈ leases, holdsAddress l ∧ parseIpv4 l.ipAddress = some ip

/-! ## Slices -/

section Slice

variable {index count start fin ip : ℕ}

/-- The addresses of a server are those from its first to its last. -/
theorem serverOf_eq_iff (hindex : index < count) (hcount : count ≤ fin - start + 1)
    (hlo : start ≤ ip) :
    serverOf count start fin ip = index ↔
      start + index * ((fin - start + 1) / count) ≤ ip ∧
        (index ≠ count - 1 → ip < start + (index + 1) * ((fin - start + 1) / count)) := by
  have hpos : 0 < (fin - start + 1) / count := Nat.div_pos hcount (by omega)
  unfold serverOf
  generalize (fin - start + 1) / count = size at hpos ⊢
  have hge : index ≤ (ip - start) / size ↔ start + index * size ≤ ip := by
    rw [Nat.le_div_iff_mul_le hpos]
    omega
  have hlt : (ip - start) / size < index + 1 ↔ ip < start + (index + 1) * size := by
    rw [Nat.div_lt_iff_lt_mul hpos]
    omega
  rw [← hge, ← hlt]
  omega

theorem slice_iff {p : PoolPartition} (hfin : fin < 2 ^ 32) (hrange : start ≤ fin) :
    (p.slice start fin).1 ≤ ip ∧ ip ≤ (p.slice start fin).2 ↔ OwnSlice (some p) start fin ip := by
  have hown : OwnSlice (some p) start fin ip ↔ start ≤ ip ∧ ip ≤ fin ∧
      (1 < p.count → p.index < p.count → p.count ≤ fin - start + 1 →
        serverOf p.count start fin ip = p.index) := by simp [OwnSlice]
  rw [hown]
  by_cases hshared : 1 < p.count ∧ p.index < p.count ∧ p.count ≤ fin - start + 1
  · obtain ⟨hone, hindex, hcount⟩ := hshared
    have hpos : 0 < (fin - start + 1) / p.count := Nat.div_pos hcount (by omega)
    have hnext := @PoolPartition.mul_size_le _ _ start fin hindex
    have hserver (hlo : start ≤ ip) := serverOf_eq_iff hindex hcount hlo
    rw [Nat.add_mul, one_mul] at hserver
    rw [PoolPartition.slice_eq hfin hindex (by omega)]
    dsimp only
    constructor
    · rintro ⟨hlo, hhi⟩
      have hin : start ≤ ip ∧ ip ≤ fin := by
        split_ifs at hhi <;> omega
      refine ⟨hin.1, hin.2, fun _ _ _ => (hserver hin.1).mpr ⟨hlo, fun hne => ?_⟩⟩
      rw [if_neg hne] at hhi
      omega
    · rintro ⟨hlo, hhi, h⟩
      obtain ⟨hstart, hend⟩ := (hserver hlo).mp (h hone hindex hcount)
      refine ⟨hstart, ?_⟩
      split_ifs with hlast
      · exact hhi
      · have := hend hlast
        omega
  · have hwhole : p.slice start fin = (start, fin) := by
      rw [PoolPartition.slice]
      by_cases hdeg : p.count ≤ 1 ∨ p.count ≤ p.index ∨ fin < start
      · rw [if_pos hdeg]
      · rw [if_neg hdeg]
        have hzero : (fin - start + 1) / p.count = 0 := Nat.div_eq_of_lt (by omega)
        simp [hzero]
    rw [hwhole]
    constructor
    · rintro ⟨hlo, hhi⟩
      exact ⟨hlo, hhi, fun h1 h2 h3 => absurd ⟨h1, h2, h3⟩ hshared⟩
    · rintro ⟨hlo, hhi, -⟩
      exact ⟨hlo, hhi⟩

/-- The addresses of a server's slice. -/
def PoolPartition.addresses (p : PoolPartition) (start fin : ℕ) : Set ℕ :=
  Set.Icc (p.slice start fin).1 (p.slice start fin).2

theorem mem_addresses_iff (hfin : fin < 2 ^ 32) (hindex : index < count)
    (hcount : count ≤ fin + 1 - start) :
    ip ∈ (⟨index, count⟩ : PoolPartition).addresses start fin ↔
      ip ∈ Set.Icc start fin ∧ serverOf count start fin ip = index := by
  rw [PoolPartition.addresses, Set.mem_Icc, slice_iff hfin (by omega)]
  simp only [OwnSlice, Option.mem_some_iff, forall_eq', Set.mem_Icc, and_assoc]
  refine and_congr_right fun hlo => and_congr_right fun hhi => ?_
  constructor
  · intro h
    rcases Nat.lt_or_ge 1 count with hone | hone
    · exact h hone hindex (by omega)
    · obtain ⟨rfl, rfl⟩ : count = 1 ∧ index = 0 := by omega
      exact Nat.min_zero _
  · intro h _ _ _
    exact h

/-- If there is an address for each of the servers, then their slices are not empty, follow one
another from the start of the range to its end, have no address in common and are the whole range
together; no operation of the computation overflows. -/
theorem slices_partition (start fin count : ℕ) (hfin : fin < 2 ^ 32) (hone : 1 ≤ count)
    (hcount : count ≤ fin + 1 - start) :
    (∀ i < count, ((⟨i, count⟩ : PoolPartition).addresses start fin).Nonempty) ∧
    ((⟨0, count⟩ : PoolPartition).slice start fin).1 = start ∧
    ((⟨count - 1, count⟩ : PoolPartition).slice start fin).2 = fin ∧
    (∀ i, i + 1 < count → ((⟨i + 1, count⟩ : PoolPartition).slice start fin).1 =
      ((⟨i, count⟩ : PoolPartition).slice start fin).2 + 1) ∧
    (∀ i < count, ∀ j < count, i ≠ j → Disjoint
      ((⟨i, count⟩ : PoolPartition).addresses start fin)
      ((⟨j, count⟩ : PoolPartition).addresses start fin)) ∧
    ⋃ i < count, (⟨i, count⟩ : PoolPartition).addresses start fin = Set.Icc start fin ∧
    ∀ i < count, (⟨i, count⟩ : PoolPartition).checkedSlice start fin =
      some ((⟨i, count⟩ : PoolPartition).slice start fin) := by
  have hpos : 0 < (fin - start + 1) / count := Nat.div_pos (by omega) (by omega)
  refine ⟨fun i hi => ?_, ?_, ?_, fun i hi => ?_, fun i hi j hj hne => ?_, ?_, fun i hi => ?_⟩
  · have hnext := @PoolPartition.mul_size_le i count start fin hi
    rw [PoolPartition.addresses, Set.nonempty_Icc, PoolPartition.slice_eq hfin hi hcount]
    dsimp only
    split_ifs <;> omega
  · simp [PoolPartition.slice_eq hfin (show 0 < count by omega) hcount]
  · simp [PoolPartition.slice_eq hfin (show count - 1 < count by omega) hcount]
  · rw [PoolPartition.slice_eq hfin hi hcount, PoolPartition.slice_eq hfin (by omega) hcount]
    dsimp only
    rw [if_neg (by omega), Nat.add_mul, one_mul]
    omega
  · refine Set.disjoint_left.mpr fun ip hip hip' => hne ?_
    rw [mem_addresses_iff hfin hi hcount] at hip
    rw [mem_addresses_iff hfin hj hcount] at hip'
    exact hip.2.symm.trans hip'.2
  · ext ip
    simp only [Set.mem_iUnion, exists_prop]
    constructor
    · rintro ⟨i, hi, hip⟩
      exact ((mem_addresses_iff hfin hi hcount).mp hip).1
    · intro hip
      have hserver : serverOf count start fin ip < count := by unfold serverOf; omega
      exact ⟨_, hserver, (mem_addresses_iff hfin hserver hcount).mpr ⟨hip, rfl⟩⟩
  · exact PoolPartition.checkedSlice_eq hfin hi hcount

/-- Three servers share the last ten addresses there are; the last server has four of them. -/
theorem slices_partition_last_addresses :
    ((⟨2, 3⟩ : PoolPartition).slice 4294967286 4294967295) = (4294967292, 4294967295) ∧
    ⋃ i < 3, (⟨i, 3⟩ : PoolPartition).addresses 4294967286 4294967295 =
      Set.Icc 4294967286 4294967295 :=
  ⟨by decide,
    (slices_partition 4294967286 4294967295 3 (by decide) (by decide) (by decide)).2.2.2.2.2.1⟩

theorem allocRange_iff {partition : Option PoolPartition} (hfin : fin < 2 ^ 32)
    (hrange : start ≤ fin) :
    (allocRange partition start fin).1 ≤ ip ∧ ip ≤ (allocRange partition start fin).2 ↔
      OwnSlice partition start fin ip := by
  cases partition with
  | none => simp [allocRange, OwnSlice]
  | some p => exact slice_iff hfin hrange

end Slice

/-! ## What a new client gets -/

section Allocate

variable {reservations : List Reservation} {leases : List Lease} {mac : String} {ip : Ipv4}

theorem mem_reservedSet : ip ∈ reservedSet reservations ↔ IsReserved reservations ip :=
  List.mem_filterMap

/-- What is held is held by others if the client holds nothing. -/
theorem mem_heldByOther_iff (hlease : ∀ l ∈ leases, holdsAddress l → l.isOf mac = false) :
    ip ∈ heldByOther leases mac ↔ IsHeld leases ip := by
  constructor
  · intro h
    obtain ⟨l, hl, hip⟩ := List.mem_filterMap.mp h
    obtain ⟨hmem, hholds⟩ := List.mem_filter.mp (List.mem_filter.mp hl).1
    exact ⟨l, hmem, hholds, hip⟩
  · rintro ⟨l, hl, hholds, hip⟩
    exact mem_heldByOther hl hholds (hlease l hl hholds) hip

theorem firstFree_eq_none {reserved held : List Ipv4} {start fin : ℕ}
    (h : firstFree reserved held start fin = none) (hlo : start ≤ ip.toNat) (hhi : ip.toNat ≤ fin) :
    ip ∈ reserved ∨ ip ∈ held := by
  have hmem : ip ∈ (List.range' start (fin + 1 - start)).map (BitVec.ofNat 32) := by
    refine List.mem_map.mpr ⟨ip.toNat, List.mem_range'_1.mpr (by omega), by simp⟩
  have htaken := List.find?_eq_none.mp h ip hmem
  simpa [or_iff_not_imp_left] using htaken

theorem allocateIp_new (hreservation : ∀ r ∈ reservations, macEq r.macAddress mac = false)
    (hlease : ∀ l ∈ leases, holdsAddress l → l.isOf mac = false) (pool : Pool)
    (partition : Option PoolPartition) :
    allocateIp pool reservations leases mac none partition =
      (v4Range pool).bind fun (start, fin) =>
        if fin < start then none
        else firstFree (reservedSet reservations) (heldByOther leases mac)
          (allocRange partition start fin).1 (allocRange partition start fin).2 := by
  have hnone : reservationFor reservations mac = none := by
    have hfind : reservations.find? (fun r => macEq r.macAddress mac) = none :=
      List.find?_eq_none.mpr fun r hr => by simp [hreservation r hr]
    rw [reservationFor, hfind, Option.bind_none]
  have hcurrent (start fin : ℕ) :
      currentLease leases (reservedSet reservations) mac start fin = none := by
    have hfind : (leases.filter holdsAddress).find? (·.isOf mac) = none := by
      refine List.find?_eq_none.mpr fun l hl => ?_
      obtain ⟨hmem, hholds⟩ := List.mem_filter.mp hl
      simp [hlease l hmem hholds]
    rw [currentLease, hfind, Option.bind_none, Option.filter_none]
  rw [allocateIp, hnone]
  simp only [hcurrent, askedFor, Option.filter_none]
  rfl

end Allocate

/-- A new client gets an address of its server's slice that is reserved for nobody and that no live
lease holds; it gets none exactly when there is no such address. -/
theorem fresh_allocation (pool : Pool) (partition : Option PoolPartition)
    (reservations : List Reservation) (leases : List Lease) (mac : String)
    (hreservation : ∀ r ∈ reservations, macEq r.macAddress mac = false)
    (hlease : ∀ l ∈ leases, holdsAddress l → l.isOf mac = false) :
    (∀ ip, allocateIp pool reservations leases mac none partition = some ip →
      ∃ start fin, v4Range pool = some (start, fin) ∧ OwnSlice partition start fin ip.toNat ∧
        ¬ IsReserved reservations ip ∧ ¬ IsHeld leases ip) ∧
    (allocateIp pool reservations leases mac none partition = none ↔
      ∀ start fin, v4Range pool = some (start, fin) → ∀ ip : Ipv4,
        OwnSlice partition start fin ip.toNat → IsReserved reservations ip ∨ IsHeld leases ip) := by
  rw [allocateIp_new hreservation hlease]
  have hsound : ∀ ip, ((v4Range pool).bind fun (start, fin) =>
      if fin < start then none
      else firstFree (reservedSet reservations) (heldByOther leases mac)
        (allocRange partition start fin).1 (allocRange partition start fin).2) = some ip →
      ∃ start fin, v4Range pool = some (start, fin) ∧ OwnSlice partition start fin ip.toNat ∧
        ¬ IsReserved reservations ip ∧ ¬ IsHeld leases ip := by
    intro ip h
    obtain ⟨⟨start, fin⟩, hrange, h⟩ := Option.bind_eq_some_iff.mp h
    dsimp only at h
    split_ifs at h with hlt
    have hfin := v4Range_lt hrange
    have hwithin := allocRange_within partition start fin
    obtain ⟨hlo, hhi, hr, hheld⟩ := firstFree_eq_some (by omega) h
    rw [mem_reservedSet] at hr
    rw [mem_heldByOther_iff hlease] at hheld
    exact ⟨start, fin, hrange, (allocRange_iff hfin (by omega)).mp ⟨hlo, hhi⟩, hr, hheld⟩
  refine ⟨hsound, ?_, ?_⟩
  · intro h start fin hrange ip hown
    have hfin := v4Range_lt hrange
    have hle : start ≤ fin := hown.1.trans hown.2.1
    rw [hrange, Option.bind_some] at h
    dsimp only at h
    rw [if_neg (by omega)] at h
    obtain ⟨hlo, hhi⟩ := (allocRange_iff hfin hle).mpr hown
    rw [← mem_reservedSet, ← mem_heldByOther_iff hlease]
    exact firstFree_eq_none h hlo hhi
  · intro h
    by_contra hsome
    obtain ⟨ip, hip⟩ := Option.ne_none_iff_exists'.mp hsome
    obtain ⟨start, fin, hrange, hown, hr, hheld⟩ := hsound ip hip
    exact (h start fin hrange ip hown).elim hr hheld

/-- Whatever a client has and asks for, it gets its reservation, or an address of the pool that is
reserved for nobody: its own lease, or an address that nobody else holds and that it asked for or
that is in the slice of its server. -/
theorem allocation_sound {pool : Pool} {reservations : List Reservation} {leases : List Lease}
    {mac : String} {requested : Option Ipv4} {partition : Option PoolPartition} {ip : Ipv4}
    (h : allocateIp pool reservations leases mac requested partition = some ip) :
    reservationFor reservations mac = some ip ∨
    pool.Contains ip ∧ ¬ IsReserved reservations ip ∧
      ((∃ l ∈ leases, holdsAddress l ∧ l.isOf mac ∧ parseIpv4 l.ipAddress = some ip) ∨
        (∀ l ∈ leases, holdsAddress l → parseIpv4 l.ipAddress = some ip → l.isOf mac) ∧
        (requested = some ip ∨
          ∃ start fin, v4Range pool = some (start, fin) ∧
            OwnSlice partition start fin ip.toNat)) := by
  have hfree (hheld : ip ∉ heldByOther leases mac) :
      ∀ l ∈ leases, holdsAddress l → parseIpv4 l.ipAddress = some ip → l.isOf mac := by
    intro l hl hholds hip
    by_contra hother
    exact hheld (mem_heldByOther hl hholds (by simpa using hother) hip)
  simp only [allocateIp, Option.orElse_eq_some, Option.bind_eq_bind, Option.bind_eq_some_iff,
    Prod.exists] at h
  obtain h | ⟨-, start, fin, hrange, h⟩ := h
  · exact .inl h
  split_ifs at h with hlt
  have hfin := v4Range_lt hrange
  simp only [Option.orElse_eq_some, currentLease, askedFor, Option.filter_eq_some_iff, inRange,
    Bool.and_eq_true, decide_eq_true_eq, Bool.not_eq_true', List.contains_eq_mem,
    decide_eq_false_iff_not, mem_reservedSet] at h
  refine .inr ?_
  obtain ⟨hown, ⟨hlo, hhi⟩, hr⟩ | ⟨-, ⟨hasked, ⟨⟨hlo, hhi⟩, hr⟩, hheld⟩ | ⟨-, hfirst⟩⟩ := h
  · obtain ⟨l, hfind, hip⟩ := Option.bind_eq_some_iff.mp hown
    obtain ⟨hl, hholds⟩ := List.mem_filter.mp (List.mem_of_find?_eq_some hfind)
    exact ⟨⟨_, hrange, hlo, hhi⟩, hr, .inl ⟨l, hl, hholds, List.find?_some hfind, hip⟩⟩
  · exact ⟨⟨_, hrange, hlo, hhi⟩, hr, .inr ⟨hfree hheld, .inl hasked⟩⟩
  · have hwithin := allocRange_within partition start fin
    obtain ⟨hlo, hhi, hr, hheld⟩ := firstFree_eq_some (by omega) hfirst
    rw [mem_reservedSet] at hr
    exact ⟨⟨_, hrange, by omega, by omega⟩, hr, .inr ⟨hfree hheld, .inr ⟨start, fin, hrange,
      (allocRange_iff hfin (by omega)).mp ⟨hlo, hhi⟩⟩⟩⟩

namespace Fresh.Sample

/-- Four addresses. -/
def pool : Pool where
  id := 1
  name := "lan"
  rangeStartV4 := some "10.0.0.10"
  rangeEndV4 := some "10.0.0.13"
  rangeStartV6 := none
  rangeEndV6 := none

/-- The first address of the second server is reserved. -/
def printer : Reservation := ⟨1, 1, "02:00:00:00:00:01", "10.0.0.12"⟩

theorem fresh_allocation_second :
    ∃ ip, allocateIp pool [printer] [] "02:00:00:00:00:02" none (some ⟨1, 2⟩) = some ip ∧
      OwnSlice (some ⟨1, 2⟩) 0x0A00000A 0x0A00000D ip.toNat ∧ ¬ IsReserved [printer] ip := by
  have hgets : allocateIp pool [printer] [] "02:00:00:00:00:02" none (some ⟨1, 2⟩) =
      some 0x0A00000D#32 := by decide +kernel
  obtain ⟨start, fin, hrange, hown, hr, -⟩ := (fresh_allocation pool (some ⟨1, 2⟩) [printer] []
    "02:00:00:00:00:02" (by decide +kernel) (by simp)).1 _ hgets
  obtain ⟨rfl, rfl⟩ : start = 0x0A00000A ∧ fin = 0x0A00000D := by
    have hpool : v4Range pool = some (0x0A00000A, 0x0A00000D) := by decide +kernel
    simpa [eq_comm] using hrange.symm.trans hpool
  exact ⟨_, hgets, hown, hr⟩

theorem allocation_sound_asked :
    ∃ ip, allocateIp pool [printer] [] "02:00:00:00:00:02" (some 0x0A00000A#32) (some ⟨1, 2⟩) =
      some ip ∧ pool.Contains ip ∧ ¬ IsReserved [printer] ip := by
  have hgets : allocateIp pool [printer] [] "02:00:00:00:00:02" (some 0x0A00000A#32)
      (some ⟨1, 2⟩) = some 0x0A00000A#32 := by decide +kernel
  obtain ⟨hpool, hr, -⟩ := (allocation_sound hgets).resolve_left (by decide +kernel)
  exact ⟨_, hgets, hpool, hr⟩

end Fresh.Sample

end Magnetite.Dhcp
