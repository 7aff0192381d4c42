import Mathlib.Data.Prod.Lex
import Magnetite.Addc.Accounts

/-!
# The replicated store

What a domain controller keeps of the directory it shares with its partners: accounts, groups with
one link for every member it has or had, and the stamps that say where and when each of them was
last changed. Local writes allocate stamps; replicated ones bring theirs and are merged by them.
Times and sequence numbers are 64 bits wide in the source and unbounded here.
-/
namespace Magnetite.Repl

open Magnetite.Addc (AdPrincipal)

/-- The invocation identifier of a domain controller: its sixteen bytes, most significant first,
so that identifiers compare as the byte arrays do. -/
abbrev Dsa := BitVec 128

structure ReplStamp where
  version : UInt32
  originatingTime : Int
  originatingDsa : Dsa
  originatingUsn : Int
  /-- The position of the change in the stream of this store. -/
  localUsn : Int
deriving DecidableEq

namespace ReplStamp

/-- What decides between two changes, in this order. -/
def key (s : ReplStamp) : ℕ ×ₗ ℤ ×ₗ ℕ :=
  toLex (s.version.toNat, toLex (s.originatingTime, s.originatingDsa.toNat))

def winsOver (s other : ReplStamp) : Bool := other.key < s.key

/-- The stamp as it left its origin, without the position it has in this store. -/
def origin (s : ReplStamp) : ReplStamp := { s with localUsn := 0 }

@[simp] theorem key_localUsn (s : ReplStamp) (usn : Int) :
    { s with localUsn := usn }.key = s.key := by
  cases s
  rfl

@[simp] theorem origin_localUsn (s : ReplStamp) (usn : Int) :
    { s with localUsn := usn }.origin = s.origin := by
  cases s
  rfl

@[simp] theorem key_origin (s : ReplStamp) : s.origin.key = s.key := s.key_localUsn 0

@[simp] theorem winsOver_iff (s other : ReplStamp) : s.winsOver other ↔ other.key < s.key := by
  simp [winsOver]

end ReplStamp

/-- A member that a group has (`present`) or no longer has. -/
structure StoredLink where
  memberSid : String
  present : Bool
  version : UInt32
  originatingDsa : Dsa
  originatingUsn : Int
  originatingTime : Int
deriving DecidableEq

def StoredLink.stamp (l : StoredLink) : ReplStamp where
  version := l.version
  originatingTime := l.originatingTime
  originatingDsa := l.originatingDsa
  originatingUsn := l.originatingUsn
  localUsn := 0

structure AdGroupRecord where
  samAccountName : String
  rid : Nat
  memberLinks : List StoredLink
deriving DecidableEq

/-- The tables of one store. Accounts are found by name, groups by the hexadecimal form of their
security identifier, stamps by the key of the object or attribute they belong to, and for each
partner there is the position up to which its changes are held. Each of these is unique. -/
structure Db (κ : Type) where
  invocationId : Dsa
  highestUsn : Int
  principals : Std.ExtTreeMap String (AdPrincipal κ)
  metadata : Std.ExtTreeMap String ReplStamp
  groups : Std.ExtTreeMap String AdGroupRecord
  cursors : Std.ExtTreeMap Dsa Int

namespace Db

variable {κ : Type}

/-- A store on its first use. -/
def new (invocationId : Dsa) : Db κ where
  invocationId := invocationId
  highestUsn := 0
  principals := ∅
  metadata := ∅
  groups := ∅
  cursors := ∅

def allocateUsn (db : Db κ) : Int × Db κ :=
  (db.highestUsn + 1, { db with highestUsn := db.highestUsn + 1 })

def replStamp (db : Db κ) (objectKey : String) : Option ReplStamp := db.metadata[objectKey]?

/-- The stamp of a change made here. The version is 32 bits wide and wraps around. -/
def nextLocalStamp (db : Db κ) (now : Int) (objectKey : String) : ReplStamp × Db κ :=
  let (usn, db) := db.allocateUsn
  ({ version := (db.replStamp objectKey).elim 1 (·.version + 1)
     originatingTime := now
     originatingDsa := db.invocationId
     originatingUsn := usn
     localUsn := usn }, db)

/-! ### Accounts -/

/-- The key of the stamp that the password has of its own. -/
def secretKey (samAccountName : String) : String := samAccountName ++ "#unicodePwd"

def writePrincipalStamped (db : Db κ) (samAccountName : String) (principal : AdPrincipal κ)
    (stamp : ReplStamp) : Db κ :=
  { db with
    principals := db.principals.insert samAccountName principal
    metadata := db.metadata.insert samAccountName stamp }

/-- An account written here, with the stamp it got. The key derivation, which may fail, belongs to
the Kerberos library. -/
def upsertLocalPrincipal (derive : String → Option κ) (db : Db κ) (now : Int)
    (samAccountName : String) (rid : Nat) (password : String) (ntHash : κ)
    (kerberosKey : Option κ) : Option (ReplStamp × Db κ) := do
  let kerberosKey ← kerberosKey <|> derive password
  let (stamp, db) := db.nextLocalStamp now samAccountName
  let principal : AdPrincipal κ :=
    { rid, ntHash, kerberosKey := some kerberosKey, disabled := false }
  some (stamp, db.writePrincipalStamped samAccountName principal stamp)

/-- What a replicated change of an account says, with the stamp of the object and the stamp of its
password. -/
structure PrincipalUpdate (κ : Type) where
  rid : Nat
  ntHash : κ
  kerberosKey : Option κ
  disabled : Bool
  objectStamp : ReplStamp
  secretStamp : ReplStamp
deriving DecidableEq

def writePrincipalMerged (db : Db κ) (samAccountName : String) (principal : AdPrincipal κ)
    (objectStamp secretStamp : ReplStamp) : Db κ :=
  { db with
    principals := db.principals.insert samAccountName principal
    metadata := (db.metadata.insert samAccountName objectStamp).insert (secretKey samAccountName)
      secretStamp }

/-- A replicated change of an account. The object and its password are taken each by its own
stamp; what loses keeps the value held, if one is held. -/
def applyReplicatedPrincipalMerged (db : Db κ) (samAccountName : String)
    (u : PrincipalUpdate κ) : Bool × Db κ :=
  let current := db.principals[samAccountName]?
  let curObj := db.replStamp samAccountName
  let curSecret := db.replStamp (secretKey samAccountName)
  let objectWins := curObj.all (u.objectStamp.winsOver ·)
  let secretWins := curSecret.all (u.secretStamp.winsOver ·)
  if !objectWins && !secretWins then
    (false, db)
  else
    let finalRid := if objectWins then u.rid else current.elim u.rid (·.rid)
    let finalDisabled := if objectWins then u.disabled else current.any (·.disabled)
    let (finalNt, finalKerb) :=
      if secretWins then (u.ntHash, u.kerberosKey)
      else current.elim (u.ntHash, u.kerberosKey) fun c => (c.ntHash, c.kerberosKey)
    let (localUsn, db) := db.allocateUsn
    -- a stamp that does not win has a current one, so that the default is never used
    let storeObj := if objectWins then { u.objectStamp with localUsn } else curObj.getD u.objectStamp
    let storeSecret :=
      if secretWins then { u.secretStamp with localUsn } else curSecret.getD u.secretStamp
    let principal : AdPrincipal κ :=
      { rid := finalRid, ntHash := finalNt, kerberosKey := finalKerb, disabled := finalDisabled }
    (true, db.writePrincipalMerged samAccountName principal storeObj storeSecret)

/-- A replicated deletion of an account, by its identifier. All accounts with the identifier go,
and the stamps of the one the store found first, which is the first by name here. -/
def deleteReplicatedPrincipal (db : Db κ) (rid : Nat) : Option String × Db κ :=
  match db.principals.toList.find? (·.2.rid == rid) with
  | none => (none, db)
  | some (sam, _) =>
    (some sam, { db with
      principals := db.principals.filter fun _ p => p.rid != rid
      metadata := (db.metadata.erase sam).erase (secretKey sam) })

/-! ### Groups -/

def readGroupLinks (db : Db κ) (sidHex : String) : List StoredLink :=
  db.groups[sidHex]?.elim [] (·.memberLinks)

def writeGroupStamped (db : Db κ) (sidHex : String) (group : AdGroupRecord)
    (stamp : ReplStamp) : Db κ :=
  { db with
    groups := db.groups.insert sidHex group
    metadata := db.metadata.insert sidHex stamp }

/-- A group written here. Every member is a link of version one, made now. -/
def upsertAdGroup (db : Db κ) (now : Int) (samAccountName : String) (rid : Nat) (sidHex : String)
    (memberSidsHex : List String) : Db κ :=
  let (memberLinks, db) := memberSidsHex.foldl
    (fun (links, db) memberSid =>
      let (usn, db) := db.allocateUsn
      (links ++ [{ memberSid, present := true, version := 1, originatingDsa := db.invocationId,
                   originatingUsn := usn, originatingTime := now }], db))
    (([] : List StoredLink), db)
  { db with groups := db.groups.insert sidHex { samAccountName, rid, memberLinks } }

end Db

/-- One incoming link: it is taken where the member is new or its stamp wins. -/
def takeLink (byMember : Std.ExtTreeMap String StoredLink) (inc : StoredLink) :
    Std.ExtTreeMap String StoredLink :=
  if byMember[inc.memberSid]?.all (inc.stamp.winsOver ·.stamp) then
    byMember.insert inc.memberSid inc
  else byMember

/-- The links that are held, by member; of several for one member the last. -/
def byMember (links : List StoredLink) : Std.ExtTreeMap String StoredLink :=
  links.foldl (fun m l => m.insert l.memberSid l) ∅

/-- The incoming links merged into those held, in the order of the members. -/
def mergeLinks (existing incoming : List StoredLink) : List StoredLink :=
  (incoming.foldl takeLink (byMember existing)).toList.map Prod.snd

/-- What a replicated change of a group says. -/
structure GroupUpdate where
  samAccountName : String
  rid : Nat
  incoming : List StoredLink
  remoteStamp : ReplStamp
deriving DecidableEq

namespace Db

variable {κ : Type}

/-- A replicated change of a group. Links are merged one by one; the stamp of the object is
replaced if the incoming one wins. -/
def applyReplicatedGroup (db : Db κ) (sidHex : String) (u : GroupUpdate) : Db κ :=
  let memberLinks := mergeLinks (db.readGroupLinks sidHex) u.incoming
  let taken :=
    let (localUsn, db) := db.allocateUsn
    ({ u.remoteStamp with localUsn }, db)
  let (stamp, db) := match db.replStamp sidHex with
    | some cur => if !u.remoteStamp.winsOver cur then (cur, db) else taken
    | none => taken
  db.writeGroupStamped sidHex { samAccountName := u.samAccountName, rid := u.rid, memberLinks } stamp

/-- The link of a member is replaced, or added as a new one. -/
def setLink (links : List StoredLink) (link : StoredLink) : List StoredLink :=
  if links.any (·.memberSid == link.memberSid) then
    links.replaceF fun l => if l.memberSid == link.memberSid then some link else none
  else links ++ [link]

/-- A member added to a group here, or removed from it, as a change of the link alone. -/
def setGroupMemberLocal (db : Db κ) (now : Int) (sidHex memberSidHex : String) (present : Bool) :
    Option (Db κ) := do
  let rec_ ← db.groups[sidHex]?
  let dsa := db.invocationId
  let (usn, db) := db.allocateUsn
  let version := (rec_.memberLinks.find? (·.memberSid == memberSidHex)).elim 1 (·.version + 1)
  let link : StoredLink :=
    { memberSid := memberSidHex, present, version, originatingDsa := dsa, originatingUsn := usn,
      originatingTime := now }
  let memberLinks := (setLink rec_.memberLinks link).mergeSort fun a b => a.memberSid ≤ b.memberSid
  let objStamp := (db.replStamp sidHex).getD
    { version := 1, originatingTime := now, originatingDsa := dsa, originatingUsn := usn,
      localUsn := usn }
  some (db.writeGroupStamped sidHex { rec_ with memberLinks } objStamp)

end Db

end Magnetite.Repl
