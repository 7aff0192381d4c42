import Mathlib.Data.Set.Basic

/-!
# Ideal encryption

Ciphertexts as terms: a plaintext sealed under a key for one key usage opens with that key and
that usage and with nothing else. A party that starts from some keys learns the keys written in
the plaintexts it can open, and can send what it has seen or can seal itself.
-/
namespace Magnetite.Lib

/-- A plaintext sealed under a key, for one key usage. -/
structure Sealed (κ π : Type) where
  key : κ
  usage : Nat
  plain : π
deriving DecidableEq

/-- Decryption succeeds exactly with the key and the usage the plaintext was sealed with. -/
def Sealed.decrypt {κ π : Type} [DecidableEq κ] (c : Sealed κ π) (key : κ) (usage : Nat) :
    Option π :=
  if c.key = key ∧ c.usage = usage then some c.plain else none

theorem Sealed.decrypt_eq_some {κ π : Type} [DecidableEq κ] {c : Sealed κ π} {key : κ}
    {usage : Nat} {p : π} :
    c.decrypt key usage = some p ↔ c = ⟨key, usage, p⟩ := by
  obtain ⟨k, u, q⟩ := c
  simp only [decrypt, Option.ite_none_right_eq_some, Option.some.injEq, Sealed.mk.injEq, and_assoc]

section Knowledge

variable {κ π : Type} (secrets : π → List κ) (own : Set κ)

/-- The keys a party has: its own, and those written in a ciphertext it has seen and can open. -/
inductive Knows (seen : List (Sealed κ π)) : κ → Prop where
  | own {k : κ} : k ∈ own → Knows seen k
  | opened {c : Sealed κ π} {k : κ} : c ∈ seen → Knows seen c.key → k ∈ secrets c.plain →
      Knows seen k

/-- What a party can send: a ciphertext it has seen, or one sealed from what it knows. -/
def CanSend (seen : List (Sealed κ π)) (c : Sealed κ π) : Prop :=
  c ∈ seen ∨ (Knows secrets own seen c.key ∧ ∀ k ∈ secrets c.plain, Knows secrets own seen k)

variable {secrets own} {seen : List (Sealed κ π)}

/-- A key that no ciphertext seen carries is known only to those who had it from the start. -/
theorem Knows.mem_own {k : κ} (known : Knows secrets own seen k)
    (absent : ∀ c ∈ seen, k ∉ secrets c.plain) : k ∈ own := by
  cases known with
  | own h => exact h
  | opened hc _ hk => exact absurd hk (absent _ hc)

/-- A ciphertext under a key the party does not have is one it has seen. -/
theorem CanSend.seen_of_unknown {c : Sealed κ π} (send : CanSend secrets own seen c)
    (unknown : ¬ Knows secrets own seen c.key) : c ∈ seen :=
  send.resolve_right fun h => unknown h.1

end Knowledge

end Magnetite.Lib
