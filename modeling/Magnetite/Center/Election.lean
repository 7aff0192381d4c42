import Mathlib.Logic.Function.Basic
import Magnetite.Lib.System

/-!
# Leader election of the centers

Any number of centers share one store, in which a single row holds the leader lease. Each center
runs two tasks: one claims or renews the lease and publishes whether it succeeded in a flag, the
other starts a pass of health polling and failover whenever it finds the flag set. A call to the
store takes effect at one moment between its start and its answer; a call that fails for its center
may still take effect later. All centers read one clock. Stamps are RFC 3339 texts in UTC in the
code, which the store compares as texts; their order is that of the times, and here they are the
times.

The system keeps two records that no code reads: the end of the lease that a center was told of
last, and which center was granted which term.
-/
namespace Magnetite.Center

structure LeaseRecord where
  /-- Empty when nobody holds the lease. -/
  holder : String
  expiresAt : Nat
  term : Nat

structure LeaderInfo where
  holder : String
  isSelf : Bool
  term : Nat
  expiresAt : Nat

namespace LeaseRecord

/-- The row that `ensure_lease_sentinel` creates. -/
def sentinel : LeaseRecord := ⟨"", 0, 0⟩

/-- The condition of the update in `try_acquire_leadership`. -/
def claimable (rec : LeaseRecord) (me : String) (now : Nat) : Bool :=
  rec.holder == me || rec.expiresAt ≤ now

/-- The row after the update; the term is raised when the lease changes hands. -/
def claim (rec : LeaseRecord) (me : String) (expires : Nat) : LeaseRecord :=
  ⟨me, expires, if rec.holder = me then rec.term else rec.term + 1⟩

def currentLeader (rec : LeaseRecord) (me : String) : LeaderInfo :=
  ⟨rec.holder, rec.holder == me && !rec.holder.isEmpty, rec.term, rec.expiresAt⟩

def releaseLeadership (rec : LeaseRecord) (me : String) : LeaseRecord :=
  if rec.holder = me then { rec with holder := "", expiresAt := 0 } else rec

end LeaseRecord

/-- Where the election task of a center is. -/
inductive Stage where
  | idle
  /-- The clock has been read for the condition of the update. -/
  | began (now : Nat)
  | update (now expires : Nat)
  /-- The update found the lease taken; the row is to be read. -/
  | select
  | reply (info : LeaderInfo)

structure Node where
  isLeader : Bool
  stage : Stage
  inPass : Bool
  /-- The updates whose calls have failed and that may still take effect. -/
  late : List (Nat × Nat)
  leaseEnd : Nat

def Node.start : Node := ⟨false, .idle, false, [], 0⟩

structure System where
  lease : LeaseRecord
  centers : String → Node
  clock : Nat
  terms : List (String × Nat)

def System.start (clock : Nat) : System := ⟨.sentinel, fun _ => .start, clock, []⟩

def System.setCenter (s : System) (p : String) (c : Node) : System :=
  { s with centers := Function.update s.centers p c }

inductive Event where
  | tick (now : Nat)
  /-- The ticker of the election task fires. -/
  | renew (p : String)
  | send (p : String)
  | apply (p : String)
  | select (p : String)
  | answer (p : String)
  | fail (p : String)
  | late (p : String) (i : Nat)
  | beginPass (p : String)
  | endPass (p : String)
  | release (p : String)
  | crash (p : String)

/-- The update of `try_acquire_leadership`, where its condition holds. -/
def System.claim (s : System) (p : String) (now expires : Nat) : System :=
  if s.lease.claimable p now then
    let lease := s.lease.claim p expires
    { s with lease, terms := (p, lease.term) :: s.terms }
  else s

/-- The calls that can still take effect when the center gives up. -/
def Stage.abandoned : Stage → List (Nat × Nat)
  | .update now expires => [(now, expires)]
  | _ => []

variable (ttl : String → Nat)

def System.step (s : System) : Event → Option System
  | .tick now => if s.clock ≤ now then some { s with clock := now } else none
  | .renew p =>
    match (s.centers p).stage with
    | .idle => some (s.setCenter p { s.centers p with stage := .began s.clock })
    | _ => none
  | .send p =>
    match (s.centers p).stage with
    | .began now =>
      some (s.setCenter p { s.centers p with stage := .update now (s.clock + max (ttl p) 1) })
    | _ => none
  | .apply p =>
    match (s.centers p).stage with
    | .update now expires =>
      let t := s.claim p now expires
      let stage := if s.lease.claimable p now then
          .reply ⟨p, true, t.lease.term, expires⟩
        else .select
      some (t.setCenter p { s.centers p with stage })
    | _ => none
  | .select p =>
    match (s.centers p).stage with
    | .select =>
      some (s.setCenter p { s.centers p with stage := .reply (s.lease.currentLeader p) })
    | _ => none
  | .answer p =>
    match (s.centers p).stage with
    | .reply info => some (s.setCenter p { s.centers p with
        stage := .idle
        isLeader := info.isSelf
        leaseEnd := if info.isSelf then info.expiresAt else (s.centers p).leaseEnd })
    | _ => none
  | .fail p =>
    let c := s.centers p
    match c.stage with
    | .idle | .began _ => none
    | stage => some (s.setCenter p { c with
        stage := .idle, isLeader := false, late := c.late ++ stage.abandoned })
  | .late p i =>
    let c := s.centers p
    (c.late[i]?).map fun (now, expires) =>
      (s.claim p now expires).setCenter p { c with late := c.late.eraseIdx i }
  | .beginPass p =>
    let c := s.centers p
    if c.isLeader ∧ !c.inPass then some (s.setCenter p { c with inPass := true }) else none
  | .endPass p =>
    let c := s.centers p
    if c.inPass then some (s.setCenter p { c with inPass := false }) else none
  | .release p => some { s with lease := s.lease.releaseLeadership p }
  | .crash p =>
    let c := s.centers p
    some (s.setCenter p { Node.start with late := c.late ++ c.stage.abandoned })

end Magnetite.Center
