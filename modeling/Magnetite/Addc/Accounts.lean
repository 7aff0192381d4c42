import Magnetite.Lib.Text
import Std.Data.ExtTreeMap

/-!
# Accounts and groups of the domain

The tables of the shared database that hold relative identifiers: the accounts with their keys, by
account name, the groups, by security identifier, and the counter that reserves identifiers in
blocks. Identifiers are 32 bits wide. Left out are the stamps of replication and the members of
groups.
-/
namespace Magnetite.Addc

open Magnetite.Lib

variable {κ : Type}

structure AdPrincipal (κ : Type) where
  rid : Nat
  ntHash : κ
  /-- The stored key is empty for an account without one. -/
  kerberosKey : Option κ
  disabled : Bool
deriving DecidableEq

structure AdGroup where
  samAccountName : String
  rid : Nat
  /-- The sub-authorities of the domain followed by the identifier of the group. -/
  sid : List Nat
deriving DecidableEq

structure Store (κ : Type) where
  ridPool : Option Nat
  principals : Std.ExtTreeMap String (AdPrincipal κ)
  groups : List AdGroup

namespace Store

/-- An account is created or replaced by its exact name. -/
def upsertAdPrincipal (store : Store κ) (sam : String) (principal : AdPrincipal κ) : Store κ :=
  { store with principals := store.principals.insert sam principal }

end Store

end Magnetite.Addc
