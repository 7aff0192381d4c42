import Magnetite.Lib.FirstMatch
import Magnetite.Lib.Store
import Magnetite.Ldap.Model

/-!
# Directory operations

The repository functions on entries, as programs against the store. Every call may fail on its own
and nothing is undone when a later call fails. A password hash is random, so the hash that a
program makes of each password is an argument (`none` when hashing fails).
-/
namespace Magnetite.Ldap

open Magnetite.Lib

abbrev DbM := StoreM DbError Directory

namespace Db

section Calls

def findEntry (dn : String) : DbM (Option EntryRecord) :=
  .read .surreal (·.entries[normalizeDn dn]?)

/-- The entries of a structural class, in the order of their DNs. -/
def listByStructural (structural : String) : DbM (List (String × EntryRecord)) :=
  .read .surreal fun d => d.entries.toList.filter (·.2.structuralClass == structural)

def listChildren (parentDn : String) : DbM (List (String × EntryRecord)) :=
  .read .surreal fun d => d.entries.toList.filter (·.2.parentDn == some (normalizeDn parentDn))

/-- `UPDATE entry SET .. WHERE dn = ..`. -/
def updateEntry (dn : String) (f : EntryRecord → EntryRecord) : DbM Unit :=
  .write .surreal fun d => { d with entries := d.entries.modify dn f }

/-- `CREATE entry`: refused by the index when the DN is taken. -/
def createRow (dn : String) (rec : EntryRecord) : DbM Unit :=
  .call .surreal fun d =>
    if dn ∈ d.entries then (.error .surreal, d)
    else (.ok (), { d with entries := d.entries.insert dn rec })

def deleteRow (dn : String) : DbM Unit :=
  .write .surreal fun d => { d with entries := d.entries.erase dn }

/-- `UPDATE entry SET dn = .. WHERE dn = ..`: refused by the index when another entry has the
new DN. -/
def moveRow (oldDn newDn : String) (f : EntryRecord → EntryRecord) : DbM Unit :=
  .call .surreal fun d =>
    match d.entries[oldDn]? with
    | none => (.ok (), d)
    | some rec =>
      if newDn ≠ oldDn ∧ newDn ∈ d.entries then (.error .surreal, d)
      else (.ok (), { d with entries := (d.entries.erase oldDn).insert newDn (f rec) })

def tombstone (dn : String) : DbM Unit := do
  let csn ← .now
  .write .surreal fun d => { d with changelog := d.changelog ++ [⟨dn, csn⟩] }

def setHasChildren (dn : String) (value : Bool) : DbM Unit :=
  updateEntry (normalizeDn dn) fun rec => { rec with hasChildren := value }

def writeAttributes (dn : String) (attributes : Attributes) : DbM Unit := do
  let now ← .now
  updateEntry (normalizeDn dn) fun rec => { rec with attributes := attributes, updatedAt := now }

end Calls

def parentExists (parentDn : String) : DbM Bool := do
  return (← findEntry parentDn).isSome

def insertEntry (dn : String) (rec : EntryRecord) : DbM Unit := do
  if (← findEntry dn).isSome then .fail (.constraint msgDnDup) else
  match rec.parentDn with
  | none => createRow dn rec
  | some parent =>
    if !(← parentExists parent) then .fail (.constraint msgParent) else
    createRow dn rec
    setHasChildren parent true

def resetPassword (dn password : String) (hash : String → Option String) : DbM Unit := do
  match ← findEntry dn with
  | none => .fail .notFound
  | some _ =>
    match hash password with
    | none => .fail .passwordHash
    | some hash =>
      let now ← .now
      updateEntry (normalizeDn dn) fun rec => { rec with passwordRef := some hash, updatedAt := now }

/-- A new entry; its `userPassword` goes to the credential column. -/
def createEntry (dn : String) (objectClasses : List String) (attributes : Attributes)
    (actor : String) (hash : String → Option String) : DbM Unit := do
  let norm := normalizeDn dn
  let pwKey := attributes.keyOf "userPassword"
  let password := pwKey.bind fun key => (attributes.getD key []).head?
  let now ← .now
  insertEntry norm
    { rdn := rdnOf norm, parentDn := parentOf norm, objectClasses
      structuralClass := structuralOf objectClasses
      attributes := pwKey.elim attributes attributes.erase
      enabled := true, passwordRef := none, hasChildren := false
      createdAt := now, updatedAt := now, createdBy := actor, sourceUuid := none }
  if let some password := password then resetPassword norm password hash

/-- The members of a group without those that name a DN. -/
def withoutMember (target : String) (attrs : Attributes) : Attributes :=
  attrs.modify "member" (·.filter (normalizeDn · ≠ target))

/-- Whether a group has a member that names a DN. -/
def hasMember (target : String) (attrs : Attributes) : Bool :=
  (attrs.getD "member" []).any (normalizeDn · == target)

/-- Rewrites the attributes of the groups that have a DN as member. -/
def editGroups (target : String) (edit : Attributes → Attributes) : DbM Unit := do
  let groups ← listByStructural ocGroup
  .each groups fun g =>
    if hasMember target g.2.attributes then writeAttributes g.1 (edit g.2.attributes) else pure ()

/-- Recomputes whether a parent has children. -/
def recountChildren (parentDn : Option String) : DbM Unit :=
  match parentDn with
  | none => pure ()
  | some parent => do
    let remaining ← listChildren parent
    setHasChildren parent !remaining.isEmpty

def deleteEntry (dn : String) : DbM Unit := do
  match ← findEntry dn with
  | none => .fail .notFound
  | some entry =>
    if entry.hasChildren then .fail (.constraint msgOuGuard) else
    let target := normalizeDn dn
    editGroups target (withoutMember target)
    deleteRow target
    tombstone target
    recountChildren entry.parentDn

/-- The members of a group with a DN replaced by another. -/
def renameMember (oldDn newDn : String) (attrs : Attributes) : Attributes :=
  attrs.modify "member" (·.map fun m => if normalizeDn m = oldDn then newDn else m)

/-- The attributes of an entry whose RDN changes. -/
def renameAttributes (oldRdn newRdn : String) (deleteOldRdn : Bool) (attrs : Attributes) :
    Attributes :=
  let attrs := match deleteOldRdn, Text.splitOnce '=' oldRdn with
    | true, some (attr, value) => attrs.removeAttrValue attr value
    | _, _ => attrs
  match Text.splitOnce '=' newRdn with
  | some (attr, value) => attrs.addAttrValue attr value
  | none => attrs

/-- The parent and the DN an entry gets by a rename. -/
def newParent (entry : EntryRecord) (newSuperior : Option String) : Option String :=
  newSuperior.elim entry.parentDn (some ∘ normalizeDn)

def newDn (newRdn : String) (parent : Option String) : String :=
  parent.elim newRdn (newRdn ++ "," ++ ·)

/-- The new DN must be free and a new parent must exist. -/
def checkMove (entry : EntryRecord) (oldDn newDn : String) (parent : Option String) :
    DbM Unit := do
  let taken ← (if newDn ≠ oldDn then findEntry newDn else pure none : DbM (Option EntryRecord))
  if taken.isSome then .fail (.constraint msgDnDup) else
  match parent with
  | none => pure ()
  | some p =>
    let found ← (if entry.parentDn ≠ some p then parentExists p else pure true : DbM Bool)
    if found then pure () else .fail (.constraint msgParent)

/-- Bookkeeping when the parent changes. -/
def reparent (oldParent parent : Option String) : DbM Unit := do
  if oldParent ≠ parent then
    recountChildren oldParent
    match parent with
    | none => pure ()
    | some p => setHasChildren p true
  else pure ()

def renameEntry (dn newRdn : String) (deleteOldRdn : Bool) (newSuperior : Option String) :
    DbM Unit := do
  match ← findEntry dn with
  | none => .fail .notFound
  | some entry =>
    if entry.hasChildren then .fail (.constraint msgOuGuard) else
    let oldDn := normalizeDn dn
    let newRdn := normalizeDn newRdn
    let parent := newParent entry newSuperior
    let newDn := newDn newRdn parent
    checkMove entry oldDn newDn parent
    let attributes := renameAttributes entry.rdn newRdn deleteOldRdn entry.attributes
    editGroups oldDn (renameMember oldDn newDn)
    let now ← .now
    moveRow oldDn newDn fun rec =>
      { rec with rdn := newRdn, parentDn := parent, attributes := attributes, updatedAt := now }
    tombstone oldDn
    reparent entry.parentDn parent

/-- The attributes after a list of changes, without those of the password. -/
def modifiedAttributes (changes : List LdapAttrChange) (attrs : Attributes) : Attributes :=
  (changes.filter (!Text.eqIgnoreAsciiCase ·.attr "userPassword")).foldl Attributes.applyChange attrs

/-- The password that a list of changes sets. -/
def newPassword (changes : List LdapAttrChange) : Option String :=
  (changes.filter fun c => Text.eqIgnoreAsciiCase c.attr "userPassword" && c.op ≠ .delete).foldl
    (fun _ c => c.values.head?) none

def modifyEntry (dn : String) (changes : List LdapAttrChange) (hash : String → Option String) :
    DbM Bool := do
  match ← findEntry dn with
  | none => return false
  | some entry =>
    writeAttributes dn (modifiedAttributes changes entry.attributes)
    if let some password := newPassword changes then resetPassword dn password hash
    return true

section Fsmo

/-- The DN of the directory root, an entry of the domain class. -/
def ldapRootDn : DbM (Option String) :=
  .read .surreal fun d => (d.entries.toList.find? (·.2.structuralClass == ocDomain)).map (·.1)

/-- The root is made from the configured DN if there is none. -/
def ensureLdapBase (baseDn actor : String) : DbM String := do
  match ← ldapRootDn with
  | some existing => return existing
  | none =>
    let baseDn := normalizeDn baseDn
    let now ← .now
    createRow baseDn
      { rdn := rdnOf baseDn, parentDn := none, objectClasses := ["top", ocDomain]
        structuralClass := ocDomain, attributes := ∅, enabled := true, passwordRef := none
        hasChildren := false, createdAt := now, updatedAt := now, createdBy := actor
        sourceUuid := none }
    return baseDn

/-- The entry of a computer: made, or given the attributes again. -/
def ensureComputerEntry (baseDn samAccountName dnsHostName : String) (userAccountControl : Nat)
    (actor : String) : DbM Unit := do
  let base ← ensureLdapBase baseDn actor
  let cn := Text.trimEndMatches '$' samAccountName
  let dn := normalizeDn ("cn=" ++ cn ++ "," ++ base)
  -- in the order of the attribute names
  let attributes : List (String × List String) :=
    [("dNSHostName", [dnsHostName]), ("sAMAccountName", [samAccountName]),
      ("userAccountControl", [toString userAccountControl])]
  if (← findEntry dn).isSome then
    let _ ← modifyEntry dn (attributes.map fun a => ⟨.replace, a.1, a.2⟩) fun _ => none
  else
    createEntry dn ["top", "computer"] (.ofList attributes) actor fun _ => none

/-- The role object that a seize request is about. -/
def fsmoRoleDn (base roleAttr : String) : Option String :=
  let config := "CN=Configuration," ++ base
  match Text.toAsciiLowercase roleAttr with
  | "becomeschemamaster" => some ("CN=Schema," ++ config)
  | "becomedomainmaster" => some ("CN=Partitions," ++ config)
  | "becomeridmaster" => some ("CN=RID Manager$,CN=System," ++ base)
  | "becomeinfrastructuremaster" => some ("CN=Infrastructure," ++ base)
  | "becomepdc" => some base
  | _ => none

/-- Makes this server the owner of a role. -/
def seizeFsmoRole (baseDn dcNetbios roleAttr : String) : DbM Unit := do
  let base ← ensureLdapBase baseDn "system"
  match fsmoRoleDn base roleAttr with
  | none => pure ()
  | some roleDn =>
    let owner := normalizeDn ("CN=NTDS Settings,CN=" ++ dcNetbios ++
      ",CN=Servers,CN=Default-First-Site-Name,CN=Sites,CN=Configuration," ++ base)
    let _ ← modifyEntry roleDn [⟨.replace, "fSMORoleOwner", [owner]⟩] fun _ => none

end Fsmo

section Acl

/-- The rules in evaluation order. -/
def listLdapAcls : DbM (List LdapAclRule) :=
  .read .surreal fun d => sortByKey (·.priority) d.acls

/-- Whether a DN is a rule's target or beneath it. -/
def dnInScope (targetPattern dn : String) : Bool :=
  targetPattern == "*" ||
    let target := normalizeDn targetPattern
    dn == target || ("," ++ target).toList.isSuffixOf dn.toList

def groupHasMember (groupDn memberDn : String) : DbM Bool := do
  match ← findEntry groupDn with
  | none => return false
  | some group => return hasMember (normalizeDn memberDn) group.attributes

def aclSubjectMatches (subject : LdapAclSubject) (boundDn : Option String) : DbM Bool :=
  match subject, boundDn with
  | .anyone, _ => pure true
  | .anonymous, bound => pure bound.isNone
  | .authenticated, bound => pure bound.isSome
  | .dn dn, bound => pure (bound.map normalizeDn == some (normalizeDn dn))
  | .groupMember group, some dn => groupHasMember group dn
  | .groupMember _, none => pure false

/-- The effect of the first rule that applies; nothing applies, nothing is allowed. -/
def firstEffect (boundDn : Option String) (op : LdapAclOperation) (target : String) :
    List LdapAclRule → DbM Bool
  | [] => pure false
  | rule :: rules =>
    if !rule.operations.contains op || !dnInScope rule.targetDn target then
      firstEffect boundDn op target rules
    else do
      if ← aclSubjectMatches rule.subject boundDn then return rule.effect == .allow
      else firstEffect boundDn op target rules

/-- Without any enabled rule everything is allowed. -/
def evaluateLdapAcl (boundDn : Option String) (op : LdapAclOperation) (targetDn : String) :
    DbM Bool := do
  let rules := (← listLdapAcls).filter (·.enabled)
  if rules.isEmpty then return true
  else firstEffect boundDn op (normalizeDn targetDn) rules

end Acl

end Db

end Magnetite.Ldap
