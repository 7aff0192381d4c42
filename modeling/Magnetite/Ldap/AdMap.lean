import Magnetite.Ldap.Model

/-!
# Objects of Active Directory

How an object of an Active Directory server becomes an entry of the local directory: users, groups
and units get the local classes, `uid` comes from the account name, a user is enabled unless the
control flags say otherwise, and numbers for POSIX come from the SID. How bytes are read as text is
a parameter.
-/
namespace Magnetite.Ldap

open Magnetite.Lib

/-- `userAccountControl`: the account is disabled. -/
def ufAccountDisable : ℕ := 0x2

/-- The group of all users. -/
def ridDomainUsers : ℕ := 513

def ocUser : String := "inetOrgPerson"
def ocOu : String := "organizationalUnit"

structure AdMapOpts where
  posix : Bool
  uidBase : ℕ
  gidBase : ℕ

structure PartialAttribute where
  atype : String
  vals : List (List UInt8)
deriving DecidableEq

structure SearchResultEntry where
  dn : String
  attributes : List PartialAttribute
deriving DecidableEq

/-- Ready to be applied to the local directory. -/
structure NormalizedAdEntry where
  guid : Option String
  isDeleted : Bool
  objectClasses : List String
  attributes : Attributes
  enabled : Bool
deriving DecidableEq

def hexDigit (n : ℕ) : Char := Char.ofNat (if n < 10 then 48 + n else 87 + n)

def hexEncode (bytes : List UInt8) : String :=
  .ofList (bytes.flatMap fun b => [hexDigit (b.toNat / 16), hexDigit (b.toNat % 16)])

/-- The last four bytes of a SID. -/
def sidRid (sid : List UInt8) : Option ℕ :=
  if sid.length < 4 then none
  else some ((sid.drop (sid.length - 4)).foldr (fun b n => b.toNat + 256 * n) 0)

def saturatingAdd (a b : ℕ) : ℕ := min (a + b) (2 ^ 32 - 1)

/-- `eq_ignore_ascii_case` of bytes. -/
def bytesEqIgnoreAsciiCase (a b : List UInt8) : Bool :=
  let lower (c : UInt8) : UInt8 := if 65 ≤ c ∧ c ≤ 90 then c + 32 else c
  a.map lower == b.map lower

/-- What was found in the attributes so far. -/
structure Collected where
  guid : Option String
  sid : Option (List UInt8)
  isDeleted : Bool
  adClasses : List String
  attributes : Attributes
  uac : Option ℕ
  sam : Option String
  primaryGid : Option ℕ

variable (lossy : List UInt8 → String)

def firstText (vals : List (List UInt8)) : Option String := vals.head?.map lossy

def firstNumber (vals : List (List UInt8)) : Option ℕ :=
  (firstText lossy vals).bind fun s => Text.parseUnsigned 32 (Text.trim s)

def Collected.take (acc : Collected) (a : PartialAttribute) : Collected :=
  let is := Text.eqIgnoreAsciiCase a.atype
  if is "objectGUID" then { acc with guid := a.vals.head?.map hexEncode }
  else if is "objectSid" then
    { acc with
      sid := a.vals.head?
      attributes := acc.attributes.insert "objectSid" [(a.vals.head?.map hexEncode).getD ""] }
  else if is "objectClass" then { acc with adClasses := a.vals.map lossy }
  else
    { acc with
      isDeleted := if is "isDeleted"
        then a.vals.head?.any (bytesEqIgnoreAsciiCase · (Text.asciiBytes "TRUE")) else acc.isDeleted
      uac := if is "userAccountControl" then firstNumber lossy a.vals else acc.uac
      sam := if is "sAMAccountName" then firstText lossy a.vals else acc.sam
      primaryGid := if is "primaryGroupID" then firstNumber lossy a.vals else acc.primaryGid
      attributes := acc.attributes.insert a.atype (a.vals.map lossy) }

def collected (attributes : List PartialAttribute) : Collected :=
  attributes.foldl (Collected.take lossy) ⟨none, none, false, [], ∅, none, none, none⟩

namespace Collected

variable (c : Collected) (opts : AdMapOpts)

def has (name : String) : Bool := c.adClasses.any (Text.eqIgnoreAsciiCase · name)

def isUser : Bool := c.has "user" && !c.has "computer"

def isGroup : Bool := c.has "group"

def isOu : Bool := c.has "organizationalUnit"

/-- The local class comes last, where the structural class is taken from. -/
def objectClasses : List String :=
  if c.isUser then
    ["top", "person", "organizationalPerson"] ++
      (if opts.posix then ["posixAccount"] else []) ++ [ocUser]
  else if c.isGroup then ["top"] ++ (if opts.posix then ["posixGroup"] else []) ++ [ocGroup]
  else if c.isOu then ["top", ocOu]
  else c.adClasses

/-- Only users can be disabled. -/
def enabled : Bool :=
  if c.isUser then (c.uac.map fun u => u &&& ufAccountDisable == 0).getD true else true

def withUid (attributes : Attributes) : Attributes :=
  c.sam.elim attributes fun s => attributes.insert "uid" [s]

def withPosix (attributes : Attributes) : Attributes :=
  if !opts.posix then attributes
  else if c.isUser then
    let attributes := (c.sid.bind sidRid).elim attributes fun rid =>
      (attributes.insert "uidNumber" [toString (saturatingAdd opts.uidBase rid)]).insert "gidNumber"
        [toString (saturatingAdd opts.gidBase (c.primaryGid.getD ridDomainUsers))]
    let login := c.sam.getD ""
    let attributes := if login.isEmpty then attributes
      else attributes.insert "homeDirectory" ["/home/" ++ login]
    attributes.insert "loginShell" ["/bin/bash"]
  else if c.isGroup then
    (c.sid.bind sidRid).elim attributes fun rid =>
      attributes.insert "gidNumber" [toString (saturatingAdd opts.gidBase rid)]
  else attributes

end Collected

def normalizeAdEntry (opts : AdMapOpts) (entry : SearchResultEntry) : NormalizedAdEntry :=
  let c := collected lossy entry.attributes
  { guid := c.guid
    isDeleted := c.isDeleted
    objectClasses := c.objectClasses opts
    attributes := c.withPosix opts (c.withUid c.attributes)
    enabled := c.enabled }

end Magnetite.Ldap
