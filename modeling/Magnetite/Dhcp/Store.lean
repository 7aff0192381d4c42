import Mathlib.Data.String.Basic
import Magnetite.Lib.FirstMatch
import Magnetite.Lib.Rows
import Magnetite.Lib.Tasks
import Magnetite.Dhcp.Alloc

/-!
# The DHCP tables

The repository functions on pools and reservations, as programs that make one call to the store
after the other. Keys come from a counter and are not used again.
-/
namespace Magnetite.Dhcp

open Magnetite.Lib Text Net

structure Store where
  pools : List Pool
  reservations : List Reservation
  leases : List Lease
  next : ℕ
deriving DecidableEq

/-- The calls that the repository makes. -/
inductive Call where
  | listPools | createPool | updatePool | deletePool
  | listReservations | getPool | createReservation | deleteReservation
  | deleteLease
deriving DecidableEq

inductive DbError where
  | surreal
  | notFound
  | constraint (message : String)
deriving DecidableEq

def msgOverlap : String := "指定範囲は既存プールと重複しています。"
def msgMacDup : String := "この MAC アドレスは既に予約されています。"
def msgPoolInUse : String := "有効なリースまたは予約が存在するため、プールを削除できません。"
abbrev DhcpM := Prog Call Store

/-! ## Pools and reservations -/

def poolsByName (s : Store) : List Pool := sortByKey (·.name) s.pools

def listPools : DhcpM (List Pool) := .look .listPools poolsByName

/-- The ranges of one family meet. -/
def rangesOverlap (a b : Option (ℕ × ℕ)) : Bool :=
  match a, b with
  | some a, some b => intervalsOverlap a b
  | _, _ => false

/-- The range must not meet that of another pool; the pool being updated is skipped. -/
def checkRangeOverlap (pool : Pool) (excludeId : Option ℕ) : DhcpM (Except DbError Unit) := do
  let others ← listPools
  if others.any fun other => excludeId ≠ some other.id &&
      (rangesOverlap (v4Range pool) (v4Range other) ||
        rangesOverlap (v6Range pool) (v6Range other)) then
    return .error (.constraint msgOverlap)
  else return .ok ()

def insertPool (pool : Pool) (s : Store) : Store :=
  { s with pools := s.pools ++ [{ pool with id := s.next }], next := s.next + 1 }

/-- The name index refuses a second pool of the same name. -/
def createPool (pool : Pool) : DhcpM (Except DbError Pool) := do
  match ← checkRangeOverlap pool none with
  | .error e => return .error e
  | .ok () =>
    .step .createPool (fun s => if s.pools.any (·.name == pool.name) then s else insertPool pool s)
      fun s => if s.pools.any (·.name == pool.name) then
        .done (.error .surreal)
      else .done (.ok { pool with id := s.next })

/-- `UPDATE ... CONTENT` of the row, if there is one; the name index refuses the name of another
pool. -/
def replacePool (pool : Pool) (s : Store) : Option Store :=
  if s.pools.any (·.id = pool.id) && s.pools.any fun q => q.id ≠ pool.id && q.name == pool.name then
    none
  else some { s with pools := Rows.update (·.id) pool.id (fun _ => pool) s.pools }

def updatePool (pool : Pool) : DhcpM (Except DbError (Option Pool)) := do
  match ← checkRangeOverlap pool (some pool.id) with
  | .error e => return .error e
  | .ok () =>
    .step .updatePool (fun s => (replacePool pool s).getD s) fun s => match replacePool pool s with
      | none => .done (.error .surreal)
      | some _ => .done (.ok (if s.pools.any (·.id = pool.id) then some pool else none))

def inPoolRange (pool : Pool) (ip : String) : Bool :=
  match parseIpv4 ip with
  | some v4 => (v4Range pool).any fun r => r.1 ≤ v4.toNat && v4.toNat ≤ r.2
  | none => match parseIpv6 ip with
    | some v6 => (v6Range pool).any fun r => r.1 ≤ v6.toNat && v6.toNat ≤ r.2
    | none => false

/-- By address. -/
def reservationsOf (poolId : ℕ) (s : Store) : List Reservation :=
  sortByKey (·.ipAddress) (s.reservations.filter (·.poolRef = poolId))

def listReservations (poolId : ℕ) : DhcpM (List Reservation) :=
  .look .listReservations (reservationsOf poolId)

def insertReservation (res : Reservation) (s : Store) : Store :=
  { s with reservations := s.reservations ++ [{ res with id := s.next }], next := s.next + 1 }

/-- The hardware address and the address are unique within the pool, and the address is in
range. -/
def createReservation (res : Reservation) : DhcpM (Except DbError Reservation) := do
  match ← Prog.look .getPool fun s : Store => s.pools.find? (·.id = res.poolRef) with
  | none => return .error .notFound
  | some pool =>
    if !inPoolRange pool res.ipAddress then return .error (.constraint msgOverlap)
    else
      let existing ← listReservations res.poolRef
      if existing.any (·.macAddress == res.macAddress) then return .error (.constraint msgMacDup)
      else if existing.any (·.ipAddress == res.ipAddress) then
        return .error (.constraint msgOverlap)
      else .step .createReservation (insertReservation res) fun s =>
        .done (.ok { res with id := s.next })

def deleteReservation (id : ℕ) : DhcpM Unit :=
  .change .deleteReservation fun s =>
    { s with reservations := Rows.delete (·.id) id s.reservations }

/-- Refused while the pool has reservations; its leases go with it. -/
def deletePool (poolId : ℕ) : DhcpM (Except DbError Unit) := do
  let reservations ← listReservations poolId
  if reservations ≠ [] then return .error (.constraint msgPoolInUse)
  else
    .change .deleteLease fun s => { s with leases := s.leases.filter (·.poolRef ≠ poolId) }
    .change .deletePool fun s => { s with pools := Rows.delete (·.id) poolId s.pools }
    return .ok ()

/-! ## What the tables keep -/

variable {s : Store}

/-- Ranges with a number in common overlap. -/
theorem rangesOverlap_of_mem {a b : Option (ℕ × ℕ)} {n : ℕ} (ha : ∃ r ∈ a, r.1 ≤ n ∧ n ≤ r.2)
    (hb : ∃ r ∈ b, r.1 ≤ n ∧ n ≤ r.2) : rangesOverlap a b := by
  obtain ⟨r, rfl, hlo, hhi⟩ := ha
  obtain ⟨r', rfl, hlo', hhi'⟩ := hb
  simp only [rangesOverlap, intervalsOverlap, Bool.and_eq_true, decide_eq_true_eq]
  omega

@[simp] theorem mem_poolsByName {p : Pool} : p ∈ poolsByName s ↔ p ∈ s.pools :=
  List.mem_insertionSort _

theorem mem_reservationsOf {poolId : ℕ} {r : Reservation} :
    r ∈ reservationsOf poolId s ↔ r ∈ s.reservations ∧ r.poolRef = poolId := by
  simp [reservationsOf, sortByKey, List.mem_insertionSort]

theorem run_checkRangeOverlap (pool : Pool) (excludeId : Option ℕ) :
    ((checkRangeOverlap pool excludeId).run s).2 = s ∧
      (((checkRangeOverlap pool excludeId).run s).1 = .ok () →
        ∀ q ∈ s.pools, excludeId ≠ some q.id → rangesOverlap (v4Range pool) (v4Range q) = false ∧
          rangesOverlap (v6Range pool) (v6Range q) = false) := by
  rw [checkRangeOverlap, listPools, Prog.run_look]
  split
  · exact ⟨rfl, fun h => by cases h⟩
  · rename_i hover
    refine ⟨rfl, fun _ q hq hne => ?_⟩
    simp only [List.any_eq_true, not_exists, not_and, mem_poolsByName, Bool.and_eq_true,
      Bool.or_eq_true, not_or, Bool.not_eq_true, decide_eq_true_eq] at hover
    exact hover q hq hne

end Magnetite.Dhcp
