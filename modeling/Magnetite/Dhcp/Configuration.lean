import Magnetite.Lib.System
import Magnetite.Dhcp.Store

/-!
# Pools and reservations over time

Whatever is created, updated and deleted, the ranges of the pools stay apart. The checks made when
a reservation is created compare texts, and nothing checks the reservations when the range of their
pool is changed, so that they lie in the range and are unique as addresses only if every hardware
address is given in its normal form, every IPv6 address in one spelling, and no update takes the
range away from a reservation.
-/
namespace Magnetite.Dhcp

open Magnetite.Lib Text Net

variable {s t : Store} {spell : BitVec 128 → String}

/-- The address lies in one of the pool's intervals. -/
def Pool.Holds (pool : Pool) : IpAddr → Prop
  | .v4 ip => pool.Contains ip
  | .v6 ip => ∃ r ∈ v6Range pool, r.1 ≤ ip.toNat ∧ ip.toNat ≤ r.2

theorem inPoolRange_iff {pool : Pool} {text : String} :
    inPoolRange pool text ↔ ∃ ip, parseIpAddr text = some ip ∧ pool.Holds ip := by
  constructor
  · intro h
    unfold inPoolRange at h
    split at h
    · rename_i ip hip
      exact ⟨.v4 ip, parseIpAddr_v4.mpr hip, by
        simpa [Pool.Holds, Pool.Contains, Option.any_eq_true] using h⟩
    · split at h
      · rename_i ip hip
        exact ⟨.v6 ip, parseIpAddr_v6.mpr hip, by
          simpa [Pool.Holds, Option.any_eq_true] using h⟩
      · exact absurd h (by simp)
  · rintro ⟨ip, hip, hin⟩
    cases ip with
    | v4 ip =>
      simpa [inPoolRange, parseIpAddr_v4.mp hip, Pool.Holds, Pool.Contains, Option.any_eq_true]
        using hin
    | v6 ip =>
      -- a text that reads as an IPv6 address does not read as an IPv4 address
      have hnot : parseIpv4 text = none := by
        cases h4 : parseIpv4 text with
        | none => rfl
        | some a => exact absurd (hip.symm.trans (parseIpAddr_v4.mpr h4)) (by simp)
      simpa [inPoolRange, hnot, parseIpAddr_v6.mp hip, Pool.Holds, Option.any_eq_true] using hin

theorem holds_overlap {p q : Pool} {ip : IpAddr} (hp : p.Holds ip) (hq : q.Holds ip) :
    rangesOverlap (v4Range p) (v4Range q) ∨ rangesOverlap (v6Range p) (v6Range q) := by
  cases ip with
  | v4 ip => exact .inl (rangesOverlap_of_mem hp hq)
  | v6 ip => exact .inr (rangesOverlap_of_mem hp hq)

/-! ## What the tables should keep -/

/-- No address is distributed by both pools. -/
def Pool.Apart (p q : Pool) : Prop := ∀ ip, ¬ (p.Holds ip ∧ q.Holds ip)

/-- The two bindings of one pool have hardware addresses and addresses of their own, whatever their
spelling. -/
def Reservation.Apart (r q : Reservation) : Prop :=
  r.poolRef = q.poolRef →
    (∀ mac, ¬ (normalizeMac r.macAddress = some mac ∧ normalizeMac q.macAddress = some mac)) ∧
    ∀ ip, ¬ (parseIpAddr r.ipAddress = some ip ∧ parseIpAddr q.ipAddress = some ip)

/-- The binding is for an address of its pool. -/
def Reservation.Inside (r : Reservation) (s : Store) : Prop :=
  ∃ p ∈ s.pools, p.id = r.poolRef ∧ ∃ ip, parseIpAddr r.ipAddress = some ip ∧ p.Holds ip

structure Store.Consistent (s : Store) : Prop where
  pools : s.pools.Pairwise Pool.Apart
  inside : ∀ r ∈ s.reservations, r.Inside s
  reservations : s.reservations.Pairwise Reservation.Apart

/-! ## Edits -/

inductive Edit where
  | createPool (pool : Pool)
  | updatePool (pool : Pool)
  | deletePool (poolId : ℕ)
  | createReservation (res : Reservation)
  | deleteReservation (id : ℕ)

def Edit.exec (s : Store) : Edit → Store
  | createPool pool => ((Dhcp.createPool pool).run s).2
  | updatePool pool => ((Dhcp.updatePool pool).run s).2
  | deletePool poolId => ((Dhcp.deletePool poolId).run s).2
  | createReservation res => ((Dhcp.createReservation res).run s).2
  | deleteReservation id => ((Dhcp.deleteReservation id).run s).2

/-- The hardware address, if it is one, is in its normal form and an IPv6 address is spelled as
agreed. -/
structure Reservation.Normal (spell : BitVec 128 → String) (r : Reservation) : Prop where
  mac : ∀ mac, normalizeMac r.macAddress = some mac → r.macAddress = mac
  ip : ∀ ip, parseIpv6 r.ipAddress = some ip → r.ipAddress = spell ip

/-- New reservations are normal, and an update leaves the reservations of the pool in its range. -/
def Edit.Fits (spell : BitVec 128 → String) (s : Store) : Edit → Prop
  | updatePool pool => ∀ r ∈ s.reservations, r.poolRef = pool.id → inPoolRange pool r.ipAddress
  | createReservation res => res.Normal spell
  | _ => True

def Edit.Step (spell : BitVec 128 → String) (s : Store) (e : Edit) (t : Store) : Prop :=
  e.Fits spell s ∧ t = e.exec s

/-- Two normal bindings with different texts have different addresses. -/
theorem Reservation.Normal.apart {r q : Reservation} (hr : r.Normal spell) (hq : q.Normal spell)
    (hmac : r.macAddress ≠ q.macAddress) (hip : r.ipAddress ≠ q.ipAddress) : r.Apart q := by
  refine fun _ => ⟨?_, ?_⟩
  · rintro mac ⟨hrm, hqm⟩
    exact hmac ((hr.mac mac hrm).trans (hq.mac mac hqm).symm)
  · rintro ip ⟨hri, hqi⟩
    apply hip
    cases ip with
    | v4 ip =>
      -- an IPv4 address has one spelling only
      exact (parseIpv4_iff.mp (parseIpAddr_v4.mp hri)).trans
        (parseIpv4_iff.mp (parseIpAddr_v4.mp hqi)).symm
    | v6 ip => exact (hr.ip ip (parseIpAddr_v6.mp hri)).trans (hq.ip ip (parseIpAddr_v6.mp hqi)).symm

/-- The tables are consistent, and pools are found by a key of their own. -/
structure Store.Kept (spell : BitVec 128 → String) (s : Store) : Prop extends s.Consistent where
  key : s.pools.Pairwise fun p q => p.id ≠ q.id
  fresh : ∀ p ∈ s.pools, p.id < s.next
  normal : ∀ r ∈ s.reservations, r.Normal spell

/-! ### One step -/

/-- The pool is refused, or it is added apart from all others. -/
theorem createPool_cases (pool : Pool) (s : Store) :
    ((createPool pool).run s).2 = s ∨ ((createPool pool).run s).2 = insertPool pool s ∧
      ∀ q ∈ s.pools, q.Apart pool := by
  obtain ⟨hs, hapart⟩ := run_checkRangeOverlap (s := s) pool none
  rw [createPool, Prog.run_bind, hs]
  split
  · exact .inl rfl
  · rename_i hok
    rw [Prog.run]
    split_ifs
    · exact .inl rfl
    · refine .inr ⟨rfl, fun q hq ip hin => ?_⟩
      have := hapart hok q hq (by simp)
      simpa [this] using holds_overlap hin.2 hin.1

/-- The update is refused, or it replaces the row and the new range is apart from all others. -/
theorem updatePool_cases (pool : Pool) (s : Store) :
    ((updatePool pool).run s).2 = s ∨
      ((updatePool pool).run s).2 =
          { s with pools := Rows.update (·.id) pool.id (fun _ => pool) s.pools } ∧
        ∀ q ∈ s.pools, q.id ≠ pool.id → q.Apart pool := by
  obtain ⟨hs, hapart⟩ := run_checkRangeOverlap (s := s) pool (some pool.id)
  rw [updatePool, Prog.run_bind, hs]
  split
  · exact .inl rfl
  · rename_i hok
    rw [Prog.run]
    cases hrep : replacePool pool s with
    | none => exact .inl rfl
    | some u =>
      unfold replacePool at hrep
      split_ifs at hrep
      obtain rfl := Option.some.inj hrep
      refine .inr ⟨rfl, fun q hq hne ip hin => ?_⟩
      have := hapart hok q hq (by simpa using hne.symm)
      simpa [this] using holds_overlap hin.2 hin.1

/-- The deletion is refused, or the pool had no reservations. -/
theorem deletePool_cases (poolId : ℕ) (s : Store) :
    ((deletePool poolId).run s).2 = s ∨
      (∀ r ∈ s.reservations, r.poolRef ≠ poolId) ∧
        ((deletePool poolId).run s).2 =
          { s with
            leases := s.leases.filter (·.poolRef ≠ poolId)
            pools := Rows.delete (·.id) poolId s.pools } := by
  rw [deletePool, listReservations, Prog.run_look]
  split
  · exact .inl rfl
  · rename_i hnone
    refine .inr ⟨fun r hr hpool => ?_, rfl⟩
    have hmem := mem_reservationsOf.mpr ⟨hr, hpool⟩
    rw [not_not.mp hnone] at hmem
    exact absurd hmem (by simp)

/-- The reservation is refused, or it is in range and its texts are new to the pool. -/
theorem createReservation_new (res : Reservation) (s : Store) :
    ((createReservation res).run s).2 = s ∨
      ((createReservation res).run s).2 = insertReservation res s ∧ res.Inside s ∧
        ∀ r ∈ s.reservations, r.poolRef = res.poolRef →
          r.macAddress ≠ res.macAddress ∧ r.ipAddress ≠ res.ipAddress := by
  rw [createReservation, Prog.run_look]
  split
  · exact .inl rfl
  · rename_i pool hpool
    split
    · exact .inl rfl
    · rename_i hrange
      rw [listReservations, Prog.run_look]
      split
      · exact .inl rfl
      · rename_i hmac
        split
        · exact .inl rfl
        · rename_i hip
          refine .inr ⟨rfl, ⟨pool, List.mem_of_find?_eq_some hpool, by
            simpa using List.find?_some hpool, inPoolRange_iff.mp (by simpa using hrange)⟩, ?_⟩
          intro r hr href
          have hmem := mem_reservationsOf.mpr ⟨hr, href⟩
          simp only [List.any_eq_true, not_exists, not_and, beq_iff_eq] at hmac hip
          exact ⟨hmac r hmem, hip r hmem⟩

/-- A binding stays inside when the rows of its pool still hold its address. -/
theorem Reservation.Inside.of_pools {r : Reservation} (h : r.Inside s)
    (hp : ∀ p ∈ s.pools, p.id = r.poolRef → ∀ ip, parseIpAddr r.ipAddress = some ip → p.Holds ip →
      ∃ q ∈ t.pools, q.id = p.id ∧ q.Holds ip) : r.Inside t := by
  obtain ⟨p, hmem, hid, ip, hip, hin⟩ := h
  obtain ⟨q, hq, hqid, hqin⟩ := hp p hmem hid ip hip hin
  exact ⟨q, hq, hqid.trans hid, ip, hip, hqin⟩

theorem Store.Kept.createPool (h : s.Kept spell) (pool : Pool) :
    (Edit.exec s (.createPool pool)).Kept spell := by
  rcases createPool_cases pool s with he | ⟨he, hapart⟩ <;> rw [Edit.exec, he]
  · exact h
  constructor
  · constructor
    · exact List.pairwise_append.mpr ⟨h.pools, List.pairwise_singleton _ _, fun p hp q hq => by
        obtain rfl := List.mem_singleton.mp hq
        exact hapart p hp⟩
    · exact fun r hr => (h.inside r hr).of_pools fun p hp _ ip _ hin =>
        ⟨p, List.mem_append_left _ hp, rfl, hin⟩
    · exact h.reservations
  · exact List.pairwise_append.mpr ⟨h.key, List.pairwise_singleton _ _, fun p hp q hq => by
      obtain rfl := List.mem_singleton.mp hq
      exact (h.fresh p hp).ne⟩
  · intro p hp
    simp only [insertPool, List.mem_append, List.mem_singleton] at hp ⊢
    rcases hp with hp | rfl
    · exact (h.fresh p hp).trans (Nat.lt_succ_self _)
    · exact Nat.lt_succ_self _
  · exact h.normal

theorem Store.Kept.updatePool (h : s.Kept spell) {pool : Pool}
    (hfits : (Edit.updatePool pool).Fits spell s) :
    (Edit.exec s (.updatePool pool)).Kept spell := by
  rcases updatePool_cases pool s with he | ⟨he, hapart⟩ <;> rw [Edit.exec, he]
  · exact h
  have hpair := List.pairwise_and_iff.mpr ⟨h.pools, h.key⟩
  constructor
  · constructor
    · refine List.pairwise_map.mpr (hpair.imp_of_mem fun {p q} hp hq hpq => ?_)
      -- at most one of the two rows has the key
      split_ifs with hpid hqid hqid
      · exact absurd (hpid.trans hqid.symm) hpq.2
      · exact fun ip hin => hapart q hq hqid ip hin.symm
      · exact hapart p hp hpid
      · exact hpq.1
    · intro r hr
      refine (h.inside r hr).of_pools fun p hp hid ip hip hin => ?_
      by_cases hpid : p.id = pool.id
      · obtain ⟨ip', hip', hin'⟩ := inPoolRange_iff.mp (hfits r hr (hid.symm.trans hpid))
        obtain rfl := Option.some.inj (hip.symm.trans hip')
        exact ⟨pool, Rows.mem_update.mpr (.inl ⟨p, hp, hpid, rfl⟩), hpid.symm, hin'⟩
      · exact ⟨p, Rows.mem_update.mpr (.inr ⟨hp, hpid⟩), rfl, hin⟩
    · exact h.reservations
  · refine List.pairwise_map.mpr (h.key.imp fun {p q} hpq => ?_)
    split_ifs with hpid hqid hqid
    · exact absurd (hpid.trans hqid.symm) hpq
    · exact fun e => hqid e.symm
    · exact hpid
    · exact hpq
  · exact Rows.forall_mem_update h.fresh fun p hp hid => hid ▸ h.fresh p hp
  · exact h.normal

theorem Store.Kept.deletePool (h : s.Kept spell) (poolId : ℕ) :
    (Edit.exec s (.deletePool poolId)).Kept spell := by
  rcases deletePool_cases poolId s with he | ⟨hnone, he⟩ <;> rw [Edit.exec, he]
  · exact h
  constructor
  · constructor
    · exact h.pools.filter _
    · exact fun r hr => (h.inside r hr).of_pools fun p hp hid ip _ hin =>
        ⟨p, Rows.mem_delete.mpr ⟨hp, fun e => hnone r hr (hid.symm.trans e)⟩, rfl, hin⟩
    · exact h.reservations
  · exact h.key.filter _
  · exact Rows.forall_mem_delete h.fresh
  · exact h.normal

theorem Store.Kept.createReservation (h : s.Kept spell) {res : Reservation}
    (hnormal : res.Normal spell) : (Edit.exec s (.createReservation res)).Kept spell := by
  rcases createReservation_new res s with he | ⟨he, hinside, hnew⟩ <;> rw [Edit.exec, he]
  · exact h
  constructor
  · constructor
    · exact h.pools
    · exact Rows.forall_mem_insert h.inside hinside
    · refine List.pairwise_append.mpr ⟨h.reservations, List.pairwise_singleton _ _, ?_⟩
      intro r hr q hq
      obtain rfl := List.mem_singleton.mp hq
      intro href
      obtain ⟨hmac, hip⟩ := hnew r hr href
      exact (h.normal r hr).apart ⟨hnormal.mac, hnormal.ip⟩ hmac hip href
  · exact h.key
  · exact fun p hp => (h.fresh p hp).trans (Nat.lt_succ_self _)
  · exact Rows.forall_mem_insert h.normal ⟨hnormal.mac, hnormal.ip⟩

theorem Store.Kept.deleteReservation (h : s.Kept spell) (id : ℕ) :
    (Edit.exec s (.deleteReservation id)).Kept spell where
  pools := h.pools
  inside := Rows.forall_mem_delete h.inside
  reservations := h.reservations.filter _
  key := h.key
  fresh := h.fresh
  normal := Rows.forall_mem_delete h.normal

theorem Store.Kept.step (h : s.Kept spell) {e : Edit} (he : e.Step spell s t) : t.Kept spell := by
  obtain ⟨hfits, rfl⟩ := he
  cases e with
  | createPool pool => exact h.createPool pool
  | updatePool pool => exact h.updatePool hfits
  | deletePool poolId => exact h.deletePool poolId
  | createReservation res => exact h.createReservation hfits
  | deleteReservation id => exact h.deleteReservation id

/-! ### Every sequence -/

/-- From empty tables, edits that fit keep pools apart, reservations inside their pools and
reservations of one pool apart. -/
theorem configuration_consistent {edits : List Edit} (hpools : s.pools = [])
    (hres : s.reservations = []) (run : Run (Edit.Step spell) s edits t) : t.Consistent := by
  have hstart : s.Kept spell := by constructor <;> (try constructor) <;> simp [hpools, hres]
  exact (run.invariant (Store.Kept spell) (fun _ _ _ h he => h.step he) hstart).toConsistent

section Sample

/-- A pool with a range of either family. -/
def officePool (start : String) : Pool where
  id := 0
  name := "office"
  rangeStartV4 := some start
  rangeEndV4 := some "192.0.2.99"
  rangeStartV6 := some "2001:db8::10"
  rangeEndV6 := some "2001:db8::99"

def binding (macAddress ipAddress : String) : Reservation where
  id := 0
  poolRef := 0
  macAddress
  ipAddress

def noTables : Store := ⟨[], [], [], 0⟩

/-- The tables after the pool and then the edits. -/
def officeTables (edits : List Edit) : Store :=
  edits.foldl Edit.exec (Edit.exec noTables (.createPool (officePool "192.0.2.10")))

theorem pairwise_pair {α : Type} {R : α → α → Prop} {l : List α} {a b : α} (h : l.Pairwise R)
    (hl : l = [a, b]) : R a b := by
  subst hl
  simpa using h

/-- The range of a pool moves away from its reservation; one hardware address is given in two
spellings; one IPv6 address is given in two spellings. -/
theorem checks_compare_texts :
    ¬ (officeTables [.createReservation (binding "aa:bb:cc:00:00:01" "192.0.2.20"),
        .updatePool (officePool "192.0.2.50")]).Consistent ∧
      ¬ (officeTables [.createReservation (binding "aa:bb:cc:00:00:01" "192.0.2.20"),
        .createReservation (binding "AA-BB-CC-00-00-01" "192.0.2.21")]).Consistent ∧
      ¬ (officeTables [.createReservation (binding "aa:bb:cc:00:00:01" "2001:db8::20"),
        .createReservation (binding "aa:bb:cc:00:00:02" "2001:db8:0::20")]).Consistent := by
  refine ⟨fun h => ?_, fun h => ?_, fun h => ?_⟩
  · obtain ⟨p, hp, -, hin⟩ :=
      h.inside { binding "aa:bb:cc:00:00:01" "192.0.2.20" with id := 1 } (by decide +kernel)
    have hout : ∀ p ∈ (officeTables [.createReservation (binding "aa:bb:cc:00:00:01" "192.0.2.20"),
        .updatePool (officePool "192.0.2.50")]).pools, inPoolRange p "192.0.2.20" = false := by
      decide +kernel
    exact absurd (inPoolRange_iff.mpr hin) (Bool.eq_false_iff.mp (hout p hp))
  · have hpair := pairwise_pair h.reservations
      (a := { binding "aa:bb:cc:00:00:01" "192.0.2.20" with id := 1 })
      (b := { binding "AA-BB-CC-00-00-01" "192.0.2.21" with id := 2 }) (by decide +kernel)
    exact (hpair rfl).1 "aa:bb:cc:00:00:01" (by decide)
  · have hpair := pairwise_pair h.reservations
      (a := { binding "aa:bb:cc:00:00:01" "2001:db8::20" with id := 1 })
      (b := { binding "aa:bb:cc:00:00:02" "2001:db8:0::20" with id := 2 }) (by decide +kernel)
    exact (hpair rfl).2 (.v6 0x20010db8000000000000000000000020#128) (by decide)

/-- A text that normalizes to itself is in its normal form. -/
theorem normal_of_v4 {r : Reservation} (hmac : normalizeMac r.macAddress = some r.macAddress)
    (hip : parseIpv6 r.ipAddress = none) : r.Normal spell where
  mac mac h := Option.some.inj (hmac.symm.trans h)
  ip ip h := by simp [hip] at h

/-- Two reservations, and a range that grows. -/
def growing : List Edit :=
  [.createPool (officePool "192.0.2.10"),
    .createReservation (binding "aa:bb:cc:00:00:01" "192.0.2.20"),
    .createReservation (binding "aa:bb:cc:00:00:02" "192.0.2.21"),
    .updatePool (officePool "192.0.2.5")]

theorem growing_run :
    Run (Edit.Step fun _ => "") noTables growing (growing.foldl Edit.exec noTables) :=
  .cons ⟨trivial, rfl⟩ (.cons ⟨normal_of_v4 (by decide) (by decide), rfl⟩
    (.cons ⟨normal_of_v4 (by decide) (by decide), rfl⟩
      (.cons ⟨by simp only [Edit.Fits]; decide +kernel, rfl⟩ (.nil _))))

theorem configuration_consistent_growing :
    (growing.foldl Edit.exec noTables).Consistent ∧
      (growing.foldl Edit.exec noTables).reservations.length = 2 :=
  ⟨configuration_consistent rfl rfl growing_run, by decide +kernel⟩

end Sample

end Magnetite.Dhcp
