import Magnetite.Lib.Text
import Mathlib.Data.List.AList
import Mathlib.Data.Finset.Basic

/-!
# The principal store of the KDC

One realm's principals under normalised lookup keys: the accounts seeded at start, the accounts
registered at run time, the revoked lookup keys and the constrained-delegation list. Long-term
keys are values of an arbitrary type; `lower` is the lower-casing of strings that the lookup keys
use. The encryption type of a key is left out: the store holds one type only.
-/
namespace Magnetite.Krb5

open Magnetite.Lib

/-- A long-term key with the salt that the client is told to derive it from. -/
structure PrincipalKey (κ : Type) where
  key : κ
  salt : String

structure Principal (κ : Type) where
  name : List String
  key : PrincipalKey κ
  rid : Nat
  primaryGroupRid : Nat
  groupRids : List Nat

def domainUsersRid : Nat := 513

def Principal.withDefaultIdentity {κ : Type} (name : List String) (key : PrincipalKey κ) :
    Principal κ :=
  { name, key, rid := 0, primaryGroupRid := domainUsersRid, groupRids := [domainUsersRid] }

/-- `get` reads `revoked` first, then `dynamic`, then `principals`. -/
structure PrincipalStore (κ : Type) where
  realm : String
  principals : AList fun _ : String => Principal κ
  dynamic : AList fun _ : String => Principal κ
  revoked : Finset String
  delegation : List (String × String)
  domainSid : List Nat

def defaultSalt (realm : String) (nameComponents : List String) : String :=
  nameComponents.foldl (· ++ ·) realm

section Lookup

variable {κ : Type} (lower : String → String)

/-- Name components joined by a slash, in lower case. -/
def lookupKey (nameComponents : List String) : String :=
  lower ("/".intercalate nameComponents)

namespace PrincipalStore

def new (realm : String) : PrincipalStore κ :=
  { realm, principals := ∅, dynamic := ∅, revoked := ∅, delegation := [], domainSid := [21, 1, 2, 3] }

def allowDelegation (store : PrincipalStore κ) (delegator backend : List String) : PrincipalStore κ :=
  { store with delegation := store.delegation ++
    [(lookupKey lower delegator, lookupKey lower backend)] }

def canDelegate (store : PrincipalStore κ) (delegator backend : List String) : Bool :=
  store.delegation.any fun (f, t) => f == lookupKey lower delegator && t == lookupKey lower backend

/-- A principal with a given key and the default identity, seeded at start. -/
def addKeyPrincipal (store : PrincipalStore κ) (nameComponents : List String) (key : κ) :
    PrincipalStore κ :=
  let principal := Principal.withDefaultIdentity nameComponents
    ⟨key, defaultSalt store.realm nameComponents⟩
  { store with principals := store.principals.insert (lookupKey lower nameComponents) principal }

def get (store : PrincipalStore κ) (nameComponents : List String) : Option (Principal κ) :=
  let key := lookupKey lower nameComponents
  if key ∈ store.revoked then none
  else (store.dynamic.lookup key).or (store.principals.lookup key)

/-- A principal that is found stands in one of the two maps. -/
theorem mem_of_get {store : PrincipalStore κ} {name : List String} {p : Principal κ}
    (h : store.get lower name = some p) :
    ∃ k, (⟨k, p⟩ : Sigma fun _ : String => Principal κ) ∈
      store.dynamic.entries ++ store.principals.entries := by
  simp only [get, Option.ite_none_left_eq_some, Option.or_eq_some_iff] at h
  obtain ⟨_, hdyn | ⟨_, hstatic⟩⟩ := h
  · exact ⟨_, List.mem_append_left _ (AList.mem_lookup_iff.mp hdyn)⟩
  · exact ⟨_, List.mem_append_right _ (AList.mem_lookup_iff.mp hstatic)⟩

def krbtgt (store : PrincipalStore κ) : Option (Principal κ) :=
  store.get lower ["krbtgt", store.realm]

end PrincipalStore

/-- The host name of a machine account, in lower case, in the domain of the realm. -/
def machineFqdn (realm sam : String) : String :=
  lower (Text.trimEndMatches '$' sam) ++ "." ++ lower realm

def machineSalt (realm sam : String) : String :=
  defaultSalt realm ["host", machineFqdn lower realm sam]

/-- The names that a machine account is looked up by. -/
def machineSpnAliases (realm sam : String) : List (List String) :=
  [[sam], ["host", machineFqdn lower realm sam], ["cifs", machineFqdn lower realm sam]]

/-- The lookup keys of an account: a machine account has those of all its aliases. -/
def accountKeys (realm sam : String) : List String :=
  if Text.endsWithChar '$' sam then (machineSpnAliases lower realm sam).map (lookupKey lower)
  else [lookupKey lower [sam]]

namespace PrincipalStore

/-- A user with a given key and identity, seeded at start. -/
def addUserPrincipal (store : PrincipalStore κ) (sam : String) (key : κ)
    (rid primaryGroupRid : Nat) (groupRids : List Nat) : PrincipalStore κ :=
  let principal : Principal κ :=
    ⟨[sam], ⟨key, defaultSalt store.realm [sam]⟩, rid, primaryGroupRid, groupRids⟩
  { store with principals := store.principals.insert (lookupKey lower [sam]) principal }

/-- A password is set at run time; `key` is derived from it. A revocation stays. -/
def setPassword (store : PrincipalStore κ) (nameComponents : List String) (key : κ) :
    PrincipalStore κ :=
  let principal := Principal.withDefaultIdentity nameComponents
    ⟨key, defaultSalt store.realm nameComponents⟩
  { store with dynamic := store.dynamic.insert (lookupKey lower nameComponents) principal }

/-- One key under all names of a machine account. -/
def insertMachine (store : PrincipalStore κ) (sam : String) (key : κ) : PrincipalStore κ :=
  { store with dynamic := (machineSpnAliases lower store.realm sam).foldl (fun dynamic name =>
      dynamic.insert (lookupKey lower name)
        (.withDefaultIdentity name ⟨key, machineSalt lower store.realm sam⟩)) store.dynamic }

/-- A machine account is registered under the key of a new password. A revocation stays. -/
def registerMachineUtf16 (store : PrincipalStore κ) (sam : String) (key : κ) : PrincipalStore κ :=
  store.insertMachine lower sam key

/-- A machine account is registered under its stored key, which ends a revocation. -/
def registerMachineKey (store : PrincipalStore κ) (sam : String) (key : κ) : PrincipalStore κ :=
  let aliases := (machineSpnAliases lower store.realm sam).map (lookupKey lower)
  { store.insertMachine lower sam key with revoked := store.revoked \ aliases.toFinset }

/-- A user is registered under its stored key and identity, which ends a revocation. -/
def registerUserIdentity (store : PrincipalStore κ) (sam : String) (key : κ)
    (rid primaryGroupRid : Nat) (groupRids : List Nat) : PrincipalStore κ :=
  let lookup := lookupKey lower [sam]
  { store with
    revoked := store.revoked.erase lookup
    dynamic := store.dynamic.insert lookup
      ⟨[sam], ⟨key, defaultSalt store.realm [sam]⟩, rid, primaryGroupRid, groupRids⟩ }

/-- All lookup keys of an account are taken from the accounts registered at run time and marked
revoked. -/
def removeDynamicPrincipal (store : PrincipalStore κ) (sam : String) : PrincipalStore κ :=
  let keys := accountKeys lower store.realm sam
  { store with
    dynamic := keys.foldl (fun dynamic k => dynamic.erase k) store.dynamic
    revoked := store.revoked ∪ keys.toFinset }

theorem lookup_insertMachine {store : PrincipalStore κ} {sam k : String} {key : κ}
    (h : k ∉ (machineSpnAliases lower store.realm sam).map (lookupKey lower)) :
    (store.insertMachine lower sam key).dynamic.lookup k = store.dynamic.lookup k := by
  unfold insertMachine
  generalize machineSpnAliases lower store.realm sam = aliases at h
  generalize store.dynamic = dynamic
  induction aliases generalizing dynamic with
  | nil => rfl
  | cons name aliases ih =>
    rw [List.map_cons, List.mem_cons, not_or] at h
    rw [List.foldl_cons]
    exact (ih h.2 _).trans (AList.lookup_insert_ne h.1)

theorem mem_insertMachine {store : PrincipalStore κ} {sam k : String} {key : κ} :
    k ∈ (store.insertMachine lower sam key).dynamic ↔
      k ∈ (machineSpnAliases lower store.realm sam).map (lookupKey lower) ∨ k ∈ store.dynamic := by
  unfold insertMachine
  generalize machineSpnAliases lower store.realm sam = aliases
  generalize store.dynamic = dynamic
  induction aliases generalizing dynamic with
  | nil => simp
  | cons name aliases ih =>
    rw [List.foldl_cons, ih, AList.mem_insert, List.map_cons, List.mem_cons]
    tauto

/-- Registering a machine changes what is found under its own names only. -/
theorem get_registerMachineUtf16 {store : PrincipalStore κ} {sam : String} {key : κ}
    {name : List String}
    (h : lookupKey lower name ∉ (machineSpnAliases lower store.realm sam).map (lookupKey lower)) :
    (store.registerMachineUtf16 lower sam key).get lower name = store.get lower name := by
  have hlookup : (store.insertMachine lower sam key).dynamic.lookup (lookupKey lower name) =
    store.dynamic.lookup (lookupKey lower name) := lookup_insertMachine lower h
  simp only [get, registerMachineUtf16, hlookup]
  rfl

/-- A revoked name is not found, wherever it stands. -/
theorem get_eq_none_of_revoked {store : PrincipalStore κ} {name : List String}
    (h : lookupKey lower name ∈ store.revoked) : store.get lower name = none := by
  simp [get, h]

end PrincipalStore

/-- Names that differ in the case of ASCII letters have the same lookup keys. -/
theorem accountKeys_congr {lower : String → String}
    (lowerAscii : ∀ s, lower (Text.toAsciiLowercase s) = lower s) {realm a b : String}
    (h : Text.eqIgnoreAsciiCase a b) : accountKeys lower realm a = accountKeys lower realm b := by
  have hab : Text.toAsciiLowercase a = Text.toAsciiLowercase b := by
    simpa [Text.eqIgnoreAsciiCase] using h
  have hdollar : '$'.toNat < 65 ∨ 122 < '$'.toNat := .inl (by decide)
  have hends : Text.endsWithChar '$' a = Text.endsWithChar '$' b := by
    rw [← Text.endsWithChar_toAsciiLowercase hdollar, hab, Text.endsWithChar_toAsciiLowercase hdollar]
  have hname : lookupKey lower [a] = lookupKey lower [b] := by
    rw [lookupKey, lookupKey, String.intercalate_singleton, String.intercalate_singleton,
      ← lowerAscii a, hab, lowerAscii]
  have hfqdn : machineFqdn lower realm a = machineFqdn lower realm b := by
    rw [machineFqdn, machineFqdn, ← lowerAscii, Text.toAsciiLowercase_trimEndMatches hdollar, hab,
      ← Text.toAsciiLowercase_trimEndMatches hdollar, lowerAscii]
  simp only [accountKeys, machineSpnAliases, List.map_cons, List.map_nil, hends, hname, hfqdn]

end Lookup

end Magnetite.Krb5
