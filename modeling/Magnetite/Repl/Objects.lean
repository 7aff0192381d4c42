import Magnetite.Lib.Text
import Magnetite.Repl.Store

/-!
# Replicated objects

What a partner sends: objects with their attributes as bytes, the links of groups, and the stamps
of both; and how a reply is applied to the store. Deletions of a reply are applied before its
changes, accounts before groups. The ciphers of the passwords are those of the session between the
two. The entries that a reply leaves in the directory tree are not modelled.
-/
namespace Magnetite.Repl

open Magnetite.Lib

abbrev Bytes := List UInt8

/-- The number whose bytes these are, least significant first. -/
def leNat : Bytes → Nat
  | [] => 0
  | b :: bs => b.toNat + 256 * leNat bs

/-! ### Attributes -/

namespace Attid

def samAccountName : Nat := 0x000900DD
def objectSid : Nat := 0x00090092
def unicodePwd : Nat := 0x0009005A
def userAccountControl : Nat := 0x00090008
def isDeleted : Nat := 0x000901A1
def supplementalCredentials : Nat := 0x0009007D
def groupType : Nat := 0x000902EE

end Attid

/-- The stamp of an attribute as it is sent; the time counts from the year 1601. -/
structure AttrMetadata where
  version : UInt32
  originatingTime : Int
  originatingDsa : Dsa
  originatingUsn : Int
deriving DecidableEq

def AttrMetadata.key (m : AttrMetadata) : ℕ ×ₗ ℤ ×ₗ ℕ :=
  toLex (m.version.toNat, toLex (m.originatingTime, m.originatingDsa.toNat))

def AttrMetadata.winsOver (m other : AttrMetadata) : Bool := other.key < m.key

structure ReplicatedAttr where
  attid : Nat
  values : List Bytes
  metadata : Option AttrMetadata
deriving DecidableEq

structure ReplicatedObject where
  guid : Bytes
  name : String
  attrs : List ReplicatedAttr
deriving DecidableEq

/-- Code units of two bytes; an odd byte at the end is ignored. -/
def utf16Units : Bytes → List Nat
  | a :: b :: rest => (a.toNat + 256 * b.toNat) :: utf16Units rest
  | _ => []

def IsHighSurrogate (u : Nat) : Prop := 0xD800 ≤ u ∧ u < 0xDC00

def IsLowSurrogate (u : Nat) : Prop := 0xDC00 ≤ u ∧ u < 0xE000

instance (u : Nat) : Decidable (IsHighSurrogate u) := inferInstanceAs (Decidable (_ ∧ _))

instance (u : Nat) : Decidable (IsLowSurrogate u) := inferInstanceAs (Decidable (_ ∧ _))

/-- `from_utf16_lossy`: a surrogate without its partner becomes the replacement character. -/
def decodeUtf16 : List Nat → List Char
  | [] => []
  | [u] => [if IsHighSurrogate u ∨ IsLowSurrogate u then '�' else Char.ofNat u]
  | u :: l :: rest =>
    if IsHighSurrogate u then
      if IsLowSurrogate l then
        Char.ofNat (0x10000 + (u - 0xD800) * 0x400 + (l - 0xDC00)) :: decodeUtf16 rest
      else '�' :: decodeUtf16 (l :: rest)
    else if IsLowSurrogate u then '�' :: decodeUtf16 (l :: rest)
    else Char.ofNat u :: decodeUtf16 (l :: rest)

/-- What the session with the partner gives: the password hash in a `unicodePwd` value, which is
bound to the identifier of its account, and the typed Kerberos keys in a `supplementalCredentials`
value. -/
structure Session (κ : Type) where
  decryptUnicodePwd : Bytes → Nat → Option κ
  kerberosKeys : Bytes → List (Nat × κ)

namespace ReplicatedObject

variable {κ : Type}

/-- The first value of the attribute. -/
def attr (o : ReplicatedObject) (attid : Nat) : Option Bytes :=
  (o.attrs.find? (·.attid == attid)).bind (·.values.head?)

def samAccountName (o : ReplicatedObject) : Option String :=
  (o.attr Attid.samAccountName).map fun v => String.ofList (decodeUtf16 (utf16Units v))

/-- The last sub-authority of the security identifier, which says how many there are. -/
def objectRid (o : ReplicatedObject) : Option Nat := do
  let sid ← o.attr Attid.objectSid
  let count ← sid[1]?
  if count.toNat = 0 then none
  else
    let last := (sid.drop (8 + (count.toNat - 1) * 4)).take 4
    if last.length = 4 then some (leNat last) else none

def objectSid (o : ReplicatedObject) : Option Bytes := o.attr Attid.objectSid

def userAccountControl (o : ReplicatedObject) : Option Nat := do
  let v ← o.attr Attid.userAccountControl
  if 4 ≤ v.length then some (leNat (v.take 4)) else none

def isDisabled (o : ReplicatedObject) : Bool := o.userAccountControl.any (·.testBit 1)

/-- The name is that of a deleted object. -/
def deletedName (name : String) : Bool :=
  let name := Text.toAsciiLowercase name
  Text.contains name ",cn=deleted objects," || Text.contains name "\\0adel:" ||
    Text.contains name "\ndel:"

def isDeleted (o : ReplicatedObject) : Bool :=
  (o.attr Attid.isDeleted).any (·.any (· != 0)) || deletedName o.name

def isGroup (o : ReplicatedObject) : Bool := o.attrs.any (·.attid == Attid.groupType)

def ntHash (session : Session κ) (o : ReplicatedObject) : Option κ := do
  let enc ← o.attr Attid.unicodePwd
  let rid ← o.objectRid
  session.decryptUnicodePwd enc rid

/-- The stamp that wins over those of all other attributes. -/
def newestMetadata (o : ReplicatedObject) : Option AttrMetadata :=
  (o.attrs.filterMap (·.metadata)).foldl
    (fun acc m => some (acc.elim m fun acc => if m.winsOver acc then m else acc)) none

def attrMetadata (o : ReplicatedObject) (attid : Nat) : Option AttrMetadata :=
  (o.attrs.find? (·.attid == attid)).bind (·.metadata)

def secretMetadata (o : ReplicatedObject) : Option AttrMetadata := o.attrMetadata Attid.unicodePwd

/-- The key of the AES256 type. -/
def aes256 (session : Session κ) (o : ReplicatedObject) : Option κ := do
  let enc ← o.attr Attid.supplementalCredentials
  let (_, key) ← (session.kerberosKeys enc).find? (·.1 == 18)
  some key

end ReplicatedObject

/-! ### Applying a reply -/

structure ReplicatedLink where
  sourceGuid : Bytes
  attrId : Nat
  targetSid : Bytes
  present : Bool
  version : UInt32
  originatingTime : Int
  originatingDsa : Dsa
  originatingUsn : Int
deriving DecidableEq

def linkAttrMember : Nat := 0x1f

structure ReplicatedChanges where
  sourceInvocationId : Dsa
  usnTo : Int
  moreData : Bool
  objects : List ReplicatedObject
  links : List ReplicatedLink
deriving DecidableEq

/-- The seconds from the year 1601 to the year 1970. -/
def dstimeEpochOffset : Int := 11644473600

def hexDigit (n : Nat) : Char := ("0123456789abcdef".toList)[n]?.getD '0'

/-- Two lower case digits for each byte. -/
def hex (bs : Bytes) : String :=
  String.ofList (bs.flatMap fun b => [hexDigit (b.toNat / 16), hexDigit (b.toNat % 16)])

/-- Arithmetic of 64 bits, which wraps around. -/
def wrap64 (x : Int) : Int := x.bmod (2 ^ 64)

namespace ReplicatedChanges

variable {κ : Type}

/-- The stamp of an object; without one the object is taken to be as new as the reply. -/
def objectStamp (c : ReplicatedChanges) (now : Int) (o : ReplicatedObject) : ReplStamp :=
  match o.newestMetadata with
  | some m =>
    { version := m.version
      originatingTime := wrap64 (m.originatingTime - dstimeEpochOffset)
      originatingDsa := m.originatingDsa
      originatingUsn := m.originatingUsn
      localUsn := 0 }
  | none =>
    { version := 1
      originatingTime := now
      originatingDsa := c.sourceInvocationId
      originatingUsn := c.usnTo
      localUsn := 0 }

/-- The stamp of the password, which falls back to the one of the object. -/
def secretStamp (c : ReplicatedChanges) (now : Int) (o : ReplicatedObject) : ReplStamp :=
  match o.secretMetadata with
  | some m =>
    { version := m.version
      originatingTime := wrap64 (m.originatingTime - dstimeEpochOffset)
      originatingDsa := m.originatingDsa
      originatingUsn := m.originatingUsn
      localUsn := 0 }
  | none => { c.objectStamp now o with localUsn := 0 }

/-- An object that has what an account needs, as a change of that account. -/
def principal (c : ReplicatedChanges) (session : Session κ) (now : Int) (o : ReplicatedObject) :
    Option (String × Db.PrincipalUpdate κ) := do
  let sam ← o.samAccountName
  let rid ← o.objectRid
  let nt ← o.ntHash session
  some (sam,
    { rid, ntHash := nt, kerberosKey := o.aes256 session, disabled := o.isDisabled
      objectStamp := c.objectStamp now o
      secretStamp := c.secretStamp now o })

/-- The links of the group with the given identifier. -/
def incoming (c : ReplicatedChanges) (guid : Bytes) : List StoredLink :=
  (c.links.filter fun l => l.attrId == linkAttrMember && !l.targetSid.isEmpty &&
      l.sourceGuid == guid).map fun l =>
    { memberSid := hex l.targetSid
      present := l.present
      version := l.version
      originatingDsa := l.originatingDsa
      originatingUsn := l.originatingUsn
      originatingTime := wrap64 (l.originatingTime - dstimeEpochOffset) }

/-- The groups of the reply; of several objects with one GUID the last. -/
def groups (c : ReplicatedChanges) (now : Int) : List (String × GroupUpdate) :=
  let entries := c.objects.filterMap fun o => do
    guard o.isGroup
    let sam ← o.samAccountName
    let rid ← o.objectRid
    let sid ← o.objectSid
    some (o.guid, hex sid, sam, rid, c.objectStamp now o)
  let last := entries.foldr (fun e acc => if acc.any (·.1 == e.1) then acc else e :: acc) []
  last.map fun (guid, sidHex, sam, rid, stamp) =>
    (sidHex, { samAccountName := sam, rid, incoming := c.incoming guid, remoteStamp := stamp })

end ReplicatedChanges

namespace Db

variable {κ : Type}

/-- A replicated deletion of a group. -/
def deleteReplicatedGroup (db : Db κ) (sidHex : String) : Option String × Db κ :=
  match db.groups[sidHex]? with
  | none => (none, db)
  | some record =>
    (some record.samAccountName,
      { db with groups := db.groups.erase sidHex, metadata := db.metadata.erase sidHex })

/-- A deleted object goes from whichever table holds it. -/
def applyTombstone (db : Db κ) (o : ReplicatedObject) : Db κ :=
  if o.isDeleted then
    let db := o.objectRid.elim db fun rid => (db.deleteReplicatedPrincipal rid).2
    o.objectSid.elim db fun sid => (db.deleteReplicatedGroup (hex sid)).2
  else db

def applyPrincipal (session : Session κ) (c : ReplicatedChanges) (now : Int) (db : Db κ)
    (o : ReplicatedObject) : Db κ :=
  if o.isDeleted then db
  else (c.principal session now o).elim db fun (sam, u) =>
    (db.applyReplicatedPrincipalMerged sam u).2

/-- The position held for a partner never goes back. -/
def recordCursor (db : Db κ) (dsa : Dsa) (highUsn : Int) : Db κ :=
  if db.cursors[dsa]?.any (highUsn ≤ ·) then db
  else { db with cursors := db.cursors.insert dsa highUsn }

/-- A reply applied to the store. The source goes through the groups in no particular order. -/
def applyReplicatedChanges (session : Session κ) (now : Int) (db : Db κ)
    (c : ReplicatedChanges) : Db κ :=
  let db := c.objects.foldl applyTombstone db
  let db := c.objects.foldl (applyPrincipal session c now) db
  let db := (c.groups now).foldl (fun db (sidHex, u) => db.applyReplicatedGroup sidHex u) db
  db.recordCursor c.sourceInvocationId c.usnTo

end Db

end Magnetite.Repl
