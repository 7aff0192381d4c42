import Magnetite.Ldap.AdMap
import Magnetite.Ldap.Service

/-!
# LDAP searches

Search filters, the entries that a search returns, and the refresh of a content sync. What a search
sees of an entry has no credential column. The digest behind an identifier, the text of a time and
the two answers that do not read the directory (root DSE and schema) are parameters.
-/
namespace Magnetite.Ldap

open Magnetite.Lib

/-- An entry as it is served. -/
structure DirectoryEntry where
  dn : String
  rdn : String
  parentDn : Option String
  objectClasses : List String
  structuralClass : String
  attributes : Attributes
  hasChildren : Bool
  createdAt : Nat
  updatedAt : Nat
  createdBy : String
deriving DecidableEq

def EntryRecord.intoEntry (dn : String) (rec : EntryRecord) : DirectoryEntry where
  dn := dn
  rdn := rec.rdn
  parentDn := rec.parentDn
  objectClasses := rec.objectClasses
  structuralClass := rec.structuralClass
  attributes := rec.attributes
  hasChildren := rec.hasChildren
  createdAt := rec.createdAt
  updatedAt := rec.updatedAt
  createdBy := rec.createdBy

/-! ## Filters -/

structure LdapSubstringFilter where
  initial : Option String
  any : List String
  final : Option String

inductive LdapFilter where
  | and (fs : List LdapFilter)
  | or (fs : List LdapFilter)
  | not (inner : LdapFilter)
  | present (attr : String)
  | equality (attr val : String)
  | substring (attr : String) (sub : LdapSubstringFilter)
  | greaterOrEqual (attr val : String)
  | lessOrEqual (attr val : String)
  | approx (attr val : String)
  | extensible

/-- Attributes by their names in lower case, with the object classes. -/
def attributeView (entry : DirectoryEntry) : Attributes :=
  entry.attributes.toList.foldl
    (fun view a => view.insert (Text.toAsciiLowercase a.1)
      (view.getD (Text.toAsciiLowercase a.1) [] ++ a.2))
    (Std.ExtTreeMap.ofList [("objectclass", entry.objectClasses)])

/-- What follows the first occurrence of a text. -/
def afterFragment (needle : List Char) : List Char → Option (List Char)
  | [] => if needle = [] then some [] else none
  | c :: hay =>
    if needle.isPrefixOf (c :: hay) then some ((c :: hay).drop needle.length)
    else afterFragment needle hay

def substringMatches (value : String) (sub : LdapSubstringFilter) : Bool :=
  let lower (s : String) : List Char := (Text.toAsciiLowercase s).toList
  let hay := lower value
  let afterInitial : Option (List Char) := match sub.initial with
    | none => some hay
    | some initial =>
      if (lower initial).isPrefixOf hay then some (hay.drop (lower initial).length) else none
  let rest := sub.any.foldl (fun hay any => hay.bind (afterFragment (lower any))) afterInitial
  rest.any fun hay => sub.final.all fun final => (lower final).isSuffixOf hay

/-- Whether some value of an attribute satisfies a test. -/
def someValue (view : Attributes) (attr : String) (test : String → Bool) : Bool :=
  view[Text.toAsciiLowercase attr]?.any (·.any test)

mutual

def LdapFilter.holds (view : Attributes) : LdapFilter → Bool
  | .and fs => allHold view fs
  | .or fs => anyHolds view fs
  | .not inner => !inner.holds view
  | .present attr => view.contains (Text.toAsciiLowercase attr)
  | .equality attr val => someValue view attr (Text.eqIgnoreAsciiCase · val)
  | .substring attr sub => someValue view attr (substringMatches · sub)
  | .greaterOrEqual attr val => someValue view attr (decide <| val ≤ ·)
  | .lessOrEqual attr val => someValue view attr (decide <| · ≤ val)
  | .approx attr val => someValue view attr (Text.eqIgnoreAsciiCase · val)
  | .extensible => false

def allHold (view : Attributes) : List LdapFilter → Bool
  | [] => true
  | f :: fs => f.holds view && allHold view fs

def anyHolds (view : Attributes) : List LdapFilter → Bool
  | [] => false
  | f :: fs => f.holds view || anyHolds view fs

end

/-! ## Results -/

/-- What a search uses beside the directory. -/
structure SearchEnv where
  baseDn : String
  /-- The stored domain SID. -/
  domainSid : Option (List UInt32)
  uuidV5 : String → List UInt8
  generalizedTime : Nat → String
  rootDse : List String → List SearchResultEntry
  subschemaSubentry : List String → List SearchResultEntry

inductive LdapSearchScope where
  | base | oneLevel | children | subtree
deriving DecidableEq

structure LdapSearchRequest where
  base : String
  scope : LdapSearchScope
  sizelimit : Nat
  filter : LdapFilter
  attrs : List String

def utf8 (s : String) : List UInt8 := s.toUTF8.data.toList

def wants (requested : List String) (name : String) : Bool :=
  requested.isEmpty || requested.any fun r => r == "*" || r == "+" || Text.eqIgnoreAsciiCase r name

def entrySyncUuid (env : SearchEnv) (dn : String) : List UInt8 := env.uuidV5 (normalizeDn dn)

def rdnValue (rdn : String) : String := ((Text.splitOnce '=' rdn).map (·.2)).getD rdn

def configurationNc (baseDn : String) : String := "CN=Configuration," ++ baseDn

def schemaNc (baseDn : String) : String := "CN=Schema," ++ configurationNc baseDn

def subschemaDn (baseDn : String) : String := "CN=Aggregate," ++ schemaNc baseDn

def objectCategory (structuralClass baseDn : String) : String :=
  let lower := Text.toAsciiLowercase structuralClass
  let cn :=
    if lower ∈ ["user", "person", "organizationalperson", "inetorgperson"] then "Person"
    else if lower = "computer" then "Computer"
    else if lower ∈ ["group", "groupofnames"] then "Group"
    else if lower = "organizationalunit" then "Organizational-Unit"
    else if lower = "container" then "Container"
    else if lower ∈ ["domain", "domaindns"] then "Domain-DNS"
    else if lower = "builtindomain" then "Builtin-Domain"
    else match lower.toList with
      | [] => ""
      | c :: rest => .ofList (c.toUpper :: rest)
  "CN=" ++ cn ++ "," ++ schemaNc baseDn

/-- The bytes of a text of hexadecimal digits. A text that is not ASCII, where the source stops
in the middle of a character, has none. -/
def decodeHexChars : List Char → Option (List UInt8)
  | [] => some []
  | [_] => none
  | c :: d :: rest => do
    let byte ← Text.digitsValue 16 (Text.stripPlus [c, d])
    return UInt8.ofNat byte :: (← decodeHexChars rest)

def decodeHex (s : String) : Option (List UInt8) :=
  if s = "" then none else decodeHexChars s.toList

def le32 (n : UInt32) : List UInt8 :=
  [n.toUInt8, (n >>> 8).toUInt8, (n >>> 16).toUInt8, (n >>> 24).toUInt8]

def defaultDomainSub : List UInt32 := [21, 1, 2, 3]

def domainSidBytes (domainSub : List UInt32) : List UInt8 :=
  let sub := if domainSub = [] then defaultDomainSub else domainSub
  let count := if sub.length < 256 then UInt8.ofNat sub.length else 4
  [1, count, 0, 0, 0, 0, 0, 5] ++ sub.flatMap le32

section Entry

variable (env : SearchEnv) (entry : DirectoryEntry) (requested : List String)

def stringAttr (name value : String) : PartialAttribute := ⟨name, [utf8 value]⟩

/-- A stored attribute as it is sent; to an AD client a SID is sent in binary. -/
def storedAttr (ad : Bool) (name : String) (values : List String) : PartialAttribute :=
  match ad && Text.eqIgnoreAsciiCase name "objectSid", values.head?.bind decodeHex with
  | true, some sid => ⟨"objectSid", [sid]⟩
  | _, _ => ⟨name, values.map utf8⟩

/-- The attributes that AD clients expect, unless the entry has them itself. -/
def synthesised (domainSub : List UInt32) : List PartialAttribute :=
  let has (name : String) : Bool := entry.attributes.keys.any (Text.eqIgnoreAsciiCase · name)
  let isBase : Bool := Text.eqIgnoreAsciiCase entry.dn env.baseDn
  ([(true, stringAttr "distinguishedName" entry.dn),
    (true, stringAttr "name" (rdnValue entry.rdn)),
    (true, ⟨"objectGUID", [entrySyncUuid env entry.dn]⟩),
    (isBase, ⟨"objectSid", [domainSidBytes domainSub]⟩),
    (true, stringAttr "objectCategory" (objectCategory entry.structuralClass env.baseDn)),
    (true, stringAttr "whenCreated" (env.generalizedTime entry.createdAt)),
    (true, stringAttr "whenChanged" (env.generalizedTime entry.updatedAt)),
    (true, stringAttr "instanceType" "4")].filter fun a =>
      a.1 && wants requested a.2.atype && !has a.2.atype).map (·.2)

/-- `search_entry`: for an AD client (`adSub`, the domain's sub-authorities) with the synthesised
attributes. -/
def searchEntry (adSub : Option (List UInt32)) : SearchResultEntry where
  dn := entry.dn
  attributes :=
    (if wants requested "objectClass" then [⟨"objectClass", entry.objectClasses.map utf8⟩] else []) ++
    ((entry.attributes.toList.filter fun a => wants requested a.1).map fun a =>
      storedAttr adSub.isSome a.1 a.2) ++
    adSub.elim [] (synthesised env entry requested)

end Entry

/-! ## The two kinds of search -/

namespace Db

/-- The entries that satisfy a test, in the order of their DNs, as they are served. -/
def listEntries (test : String → EntryRecord → Bool) : DbM (List DirectoryEntry) :=
  .read .surreal fun d =>
    (d.entries.toList.filter fun e => test e.1 e.2).map fun e => e.2.intoEntry e.1

def getEntryFull (dn : String) : DbM (Option DirectoryEntry) := do
  return (← findEntry dn).map (·.intoEntry (normalizeDn dn))

def listEntriesByParent (parentDn : String) : DbM (List DirectoryEntry) :=
  listEntries fun _ rec => rec.parentDn == some (normalizeDn parentDn)

def inSubtree (base dn : String) : Bool := dn == base || Text.endsWith dn ("," ++ base)

def listEntriesSubtree (baseDn : String) : DbM (List DirectoryEntry) :=
  listEntries fun dn _ => inSubtree (normalizeDn baseDn) dn

/-- The time of the last change of an entry or by a deletion, if there was any. -/
def ldapContextCsn : DbM (Option Nat) := do
  let entries ← .read .surreal fun d => (d.entries.toList.map (·.2.updatedAt)).max?
  let deletes ← .read .surreal fun d => (d.changelog.map (·.csn)).max?
  return max entries deletes

/-- The entries that changed after a time, or all of them. -/
def ldapEntriesSince (since : Option Nat) : DbM (List DirectoryEntry) :=
  listEntries fun _ rec => since.all (· < rec.updatedAt)

/-- The DNs deleted after a time, in the order of the deletions. -/
def ldapDeletionsSince (since : Nat) : DbM (List String) :=
  .read .surreal fun d =>
    ((d.changelog.filter (since < ·.csn)).mergeSort (·.csn ≤ ·.csn)).map (·.dn)

end Db

def defaultSizeLimit : Nat := 1000

structure SearchReply where
  entries : List SearchResultEntry
  result : LdapResult
deriving DecidableEq

/-- The entries in the scope of a search; there are none when the store fails. -/
def scopeEntries (req : LdapSearchRequest) : DbM (List DirectoryEntry) := do
  let base := normalizeDn req.base
  match req.scope with
  | .base => return ((← StoreM.attempt (Db.getEntryFull base)).toOption.join).toList
  | .oneLevel | .children =>
    return (← StoreM.attempt (Db.listEntriesByParent base)).toOption.getD []
  | .subtree => return (← StoreM.attempt (Db.listEntriesSubtree base)).toOption.getD []

/-- A search after the access rules. -/
def serveSearch (env : SearchEnv) (req : LdapSearchRequest) : DbM SearchReply := do
  let limit := if 0 < req.sizelimit then min req.sizelimit defaultSizeLimit else defaultSizeLimit
  let stored ← StoreM.attempt (StoreM.read .surreal fun _ => env.domainSid)
  let domainSub := stored.toOption.join.getD defaultDomainSub
  let entries ← scopeEntries req
  let found := (entries.filter fun e => req.filter.holds (attributeView e)).take limit
  return ⟨found.map fun e => searchEntry env e req.attrs (some domainSub), ⟨.success, ""⟩⟩

def handleSearch (env : SearchEnv) (boundDn : Option String) (req : LdapSearchRequest) :
    DbM SearchReply := do
  if req.base = "" ∧ req.scope = .base then return ⟨env.rootDse req.attrs, ⟨.success, ""⟩⟩
  else if normalizeDn req.base = normalizeDn (subschemaDn env.baseDn) then
    return ⟨env.subschemaSubentry req.attrs, ⟨.success, ""⟩⟩
  else
    let allowed ← StoreM.attempt (Db.evaluateLdapAcl boundDn .search req.base)
    if !allowed.toOption.getD true then
      return ⟨[], ⟨.insufficentAccessRights, "access denied by ACL"⟩⟩
    else serveSearch env req

inductive SyncStateValue where
  | add | delete
deriving DecidableEq

/-- An entry with its sync state. -/
structure SyncMessage where
  entry : SearchResultEntry
  state : SyncStateValue
  entryUuid : List UInt8
deriving DecidableEq

structure SyncReply where
  messages : List SyncMessage
  result : LdapResult
  /-- The cookie, and whether deletions were sent. -/
  done : Option (Option Nat × Bool)
deriving DecidableEq

def syncEntry (env : SearchEnv) (requested : List String) (entry : DirectoryEntry) : SyncMessage :=
  ⟨searchEntry env entry requested none, .add, entrySyncUuid env entry.dn⟩

def syncDelete (env : SearchEnv) (dn : String) : SyncMessage :=
  ⟨⟨dn, []⟩, .delete, entrySyncUuid env dn⟩

def inScope (entry : DirectoryEntry) (base : String) : LdapSearchScope → Bool
  | .base => normalizeDn entry.dn == base
  | .oneLevel | .children => entry.parentDn.any fun p => normalizeDn p == base
  | .subtree => Db.inSubtree base (normalizeDn entry.dn)

/-- A refresh: what changed since the cookie, then what was deleted since. -/
def serveSync (env : SearchEnv) (req : LdapSearchRequest) (cookie : Option Nat) :
    DbM SyncReply := do
  let csn ← StoreM.attempt Db.ldapContextCsn
  let base := normalizeDn req.base
  let changed ← StoreM.attempt (Db.ldapEntriesSince cookie)
  let present := (changed.toOption.getD []).filter fun e =>
    inScope e base req.scope && req.filter.holds (attributeView e)
  let gone ← match cookie with
    | none => pure []
    | some since => do
      let deletions ← StoreM.attempt (Db.ldapDeletionsSince since)
      pure ((deletions.toOption.getD []).filter fun dn => Db.inSubtree base (normalizeDn dn))
  return ⟨present.map (syncEntry env req.attrs) ++ gone.map (syncDelete env), ⟨.success, ""⟩,
    some (csn.toOption.join, cookie.isSome)⟩

def handleSyncreplSearch (env : SearchEnv) (boundDn : Option String) (req : LdapSearchRequest)
    (cookie : Option Nat) : DbM SyncReply := do
  let allowed ← StoreM.attempt (Db.evaluateLdapAcl boundDn .search req.base)
  if !allowed.toOption.getD true then
    return ⟨[], ⟨.insufficentAccessRights, "access denied by ACL"⟩, none⟩
  else serveSync env req cookie

end Magnetite.Ldap
