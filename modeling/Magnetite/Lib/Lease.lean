import Mathlib.Data.Nat.Init

/-!
# Leases

A register holds the name of one party and the time at which its lease ends. A party may claim it
when it has it already or when the lease has ended by a time it has read from the clock. A grant is
what a party has been told; it runs until its own end. Every grant that is still running is covered:
it names the party in the register and does not outlast the lease there.
-/
namespace Magnetite.Lib

variable {ι : Type}

structure Lease (ι : Type) where
  holder : ι
  expires : Nat

/-- A grant that is running at the time is one of the lease in the register. -/
def Lease.Covers (lease : Lease ι) (clock : Nat) (party : ι) (fin : Nat) : Prop :=
  clock < fin → lease.holder = party ∧ fin ≤ lease.expires

namespace Lease.Covers

variable {lease : Lease ι} {clock : Nat} {p q : ι} {fin : Nat}

/-- A grant stays covered while time passes. -/
theorem tick (h : lease.Covers clock p fin) {clock' : Nat} (le : clock ≤ clock') :
    lease.Covers clock' p fin := fun running => h (by omega)

/-- A claim that does not shorten the claimant's own lease leaves every grant covered: the lease of
another party has ended, and so has every grant of it. -/
theorem claim (h : lease.Covers clock p fin) {now expires : Nat} (hnow : now ≤ clock)
    (free : lease.holder = q ∨ lease.expires ≤ now)
    (grows : lease.holder = q → lease.expires ≤ expires) :
    (Lease.mk q expires).Covers clock p fin := by
  intro running
  obtain ⟨hp, hfin⟩ := h running
  rcases free with hq | hended
  · exact ⟨hq.symm.trans hp, Nat.le_trans hfin (grows hq)⟩
  · omega

/-- The lease that was just written covers the grant that reports it. -/
theorem granted (expires : Nat) : (Lease.mk q expires).Covers clock q expires :=
  fun _ => ⟨rfl, Nat.le_refl _⟩

/-- Two grants that are running have one party. -/
theorem unique (h : lease.Covers clock p fin) (running : clock < fin) {fin' : Nat}
    (h' : lease.Covers clock q fin') (running' : clock < fin') : p = q :=
  (h running).1.symm.trans (h' running').1

end Lease.Covers

end Magnetite.Lib
