import Magnetite.Addc.Accounts
import Magnetite.Krb5.Keys
import Magnetite.Lib.Overlay

/-!
# The live directory and its refresh

A running domain controller holds the directory it loaded at start, with the users and groups found
at run time beside it, and the principal store of its KDC. A refresh reads the accounts and groups
of the database, brings the KDC up to date and then the run-time sets.
-/
namespace Magnetite.Addc

open Magnetite.Lib
open Magnetite.Krb5 (PrincipalStore accountKeys lookupKey domainUsersRid)

variable {κ : Type}

/-- Where a change originated, as served to other controllers. -/
structure ReplMeta where
  version : Nat
  originatingTime : Int
  originatingDsa : List UInt8
  originatingUsn : Int
deriving DecidableEq

structure User (κ : Type) where
  samAccountName : String
  rid : Nat
  ntHash : κ
  /-- The stored key is empty for an account without one. -/
  kerberosKey : Option κ
  disabled : Bool
  replMeta : Option ReplMeta
deriving DecidableEq

/-- A link of a group to a member, which may have been removed. -/
structure GroupLink where
  memberRid : Nat
  present : Bool
  replMeta : Option ReplMeta
deriving DecidableEq

structure Group where
  samAccountName : String
  rid : Nat
  members : List Nat
  memberLinks : List GroupLink
  replMeta : Option ReplMeta
deriving DecidableEq

inductive RidKind where
  | user | group
deriving DecidableEq

structure Directory (κ : Type) where
  users : List (User κ)
  groups : List Group
  runtimeUsers : List (User κ)
  runtimeGroups : List Group

namespace Directory

/-- Add or replace a user found at run time, by name. -/
def upsertRuntimeUser (dir : Directory κ) (user : User κ) : Directory κ :=
  let same (u : User κ) := Text.eqIgnoreAsciiCase u.samAccountName user.samAccountName
  { dir with runtimeUsers := upsertBy same dir.runtimeUsers user }

/-- Add or replace a group found at run time, by its identifier. -/
def upsertRuntimeGroup (dir : Directory κ) (group : Group) : Directory κ :=
  { dir with runtimeGroups := upsertBy (·.rid == group.rid) dir.runtimeGroups group }

/-- The run-time users that are not kept are dropped; their names are returned. -/
def retainRuntimeUsers (lower : String → String) (dir : Directory κ) (keep : List String) :
    Directory κ × List String :=
  let live (u : User κ) := (keep.map lower).contains (lower u.samAccountName)
  ({ dir with runtimeUsers := dir.runtimeUsers.filter live },
    (dir.runtimeUsers.filter fun u => !live u).map (·.samAccountName))

def retainRuntimeGroups (dir : Directory κ) (keep : List Nat) : Directory κ :=
  { dir with runtimeGroups := dir.runtimeGroups.filter fun g => keep.contains g.rid }

/-- A user by name, among those loaded at start first. -/
def findUser (dir : Directory κ) (sam : String) : Option (User κ) :=
  (dir.users.find? fun u => Text.eqIgnoreAsciiCase u.samAccountName sam).or
    (dir.runtimeUsers.find? fun u => Text.eqIgnoreAsciiCase u.samAccountName sam)

def allUsers (dir : Directory κ) : List (User κ) :=
  dedupBy (·.rid) dir.users dir.runtimeUsers

def allGroups (dir : Directory κ) : List Group :=
  dedupBy (·.rid) dir.groups dir.runtimeGroups

def groupMembers (dir : Directory κ) (rid : Nat) : Option (List Nat) :=
  ((dir.groups.find? (·.rid == rid)).or (dir.runtimeGroups.find? (·.rid == rid))).map (·.members)

/-- The name of the user with the identifier, else that of the group. -/
def resolveRid (dir : Directory κ) (rid : Nat) : Option (String × RidKind) :=
  (((dir.users.find? (·.rid == rid)).or (dir.runtimeUsers.find? (·.rid == rid))).map
    fun u => (u.samAccountName, RidKind.user)).or
  (((dir.groups.find? (·.rid == rid)).or (dir.runtimeGroups.find? (·.rid == rid))).map
    fun g => (g.samAccountName, RidKind.group))

end Directory

def wellKnownGroups : List (String × Nat) :=
  [("Domain Admins", 512), ("Domain Users", 513)]

def AdPrincipal.user (sam : String) (row : AdPrincipal κ) (replMeta : Option ReplMeta) : User κ :=
  ⟨sam, row.rid, row.ntHash, row.kerberosKey, row.disabled, replMeta⟩

/-- The directory as read from the database, with the stamps of the accounts; without stored groups
it has the well-known ones. -/
def buildDirectory (rows : List (String × AdPrincipal κ)) (groups : List Group)
    (replStamp : String → Option ReplMeta := fun _ => none) : Directory κ where
  users := rows.map fun (sam, row) => row.user sam (replStamp sam)
  groups := if groups.isEmpty then wellKnownGroups.map fun (name, rid) => ⟨name, rid, [], [], none⟩
    else groups
  runtimeUsers := []
  runtimeGroups := []

/-- The groups in a user's ticket: always Domain Users, and those that have the user as a member. -/
def userGroupRids (groups : List Group) (rid : Nat) : List Nat :=
  domainUsersRid :: ((groups.filter fun g =>
    g.rid != domainUsersRid && g.members.contains rid).map (·.rid))

variable (lower : String → String)

section Kdc

/-- One account of `seed_kdc_from_users`. -/
def seedUser (groups : List Group) (dynamic : Bool) (store : PrincipalStore κ) (user : User κ) :
    PrincipalStore κ :=
  let sam := user.samAccountName
  if user.disabled then
    if dynamic then store.removeDynamicPrincipal lower sam else store
  else match user.kerberosKey with
    | none => store
    | some key =>
      if Text.endsWithChar '$' sam then store.registerMachineKey lower sam key
      else if dynamic then
        store.registerUserIdentity lower sam key user.rid domainUsersRid
          (userGroupRids groups user.rid)
      else store

def seedKdcFromUsers (store : PrincipalStore κ) (users : List (User κ)) (groups : List Group)
    (dynamic : Bool) : PrincipalStore κ :=
  users.foldl (seedUser lower groups dynamic) store

/-- One account of the loop in `spawn_servers`; here an empty key is seeded as it is. -/
def seedAtStart (emptyKey : κ) (groups : List Group) (store : PrincipalStore κ) (user : User κ) :
    PrincipalStore κ :=
  let sam := user.samAccountName
  let key := user.kerberosKey.getD emptyKey
  if user.disabled then store
  else if Text.endsWithChar '$' sam then store.registerMachineKey lower sam key
  else store.addUserPrincipal lower sam key user.rid domainUsersRid (userGroupRids groups user.rid)

/-- The principal store at start: the accounts, then the services, one of which may delegate. -/
def startKdc (emptyKey : κ) (realm : String) (services : List (List String × κ))
    (dir : Directory κ) : PrincipalStore κ :=
  let seeded := dir.users.foldl (seedAtStart lower emptyKey dir.allGroups) (PrincipalStore.new realm)
  let store := services.foldl (fun store s => store.addKeyPrincipal lower s.1 s.2) seeded
  store.allowDelegation lower ["host", "magnetite"] ["cifs", "magnetite"]

/-- `refresh_live_directory` once `fresh` is read. -/
def refreshLiveDirectory (dir : Directory κ) (kdc : PrincipalStore κ) (fresh : Directory κ) :
    Directory κ × PrincipalStore κ :=
  let users := fresh.allUsers
  let groups := fresh.allGroups
  let seeded := seedKdcFromUsers lower kdc users groups true
  let (kept, removed) := dir.retainRuntimeUsers lower (users.map (·.samAccountName))
  let revoked := removed.foldl (fun store sam => store.removeDynamicPrincipal lower sam) seeded
  let kept := kept.retainRuntimeGroups (groups.map (·.rid))
  (groups.foldl .upsertRuntimeGroup (users.foldl .upsertRuntimeUser kept), revoked)

end Kdc

section Revocation

variable {lower} {groups : List Group}

@[simp]
theorem realm_seedUser (store : PrincipalStore κ) (user : User κ) :
    (seedUser lower groups true store user).realm = store.realm := by
  obtain ⟨sam, rid, ntHash, kerberosKey, disabled, replMeta⟩ := user
  cases disabled with
  | true => rfl
  | false =>
    cases kerberosKey with
    | none => rfl
    | some key => by_cases machine : Text.endsWithChar '$' sam <;> simp [seedUser, machine] <;> rfl

@[simp]
theorem realm_seedKdcFromUsers (store : PrincipalStore κ) (users : List (User κ)) :
    (seedKdcFromUsers lower store users groups true).realm = store.realm := by
  induction users generalizing store with
  | nil => rfl
  | cons user users ih => exact (ih _).trans (realm_seedUser store user)

end Revocation

end Magnetite.Addc
