import Magnetite.Ldap.Directory

/-!
# LDAP write requests

The four handlers that change the directory. Each refuses anonymous sessions, asks the access rules
and then calls the repository. The schema is a parameter. Left out are the log and what an add does
outside the directory (the registration of machine, user and group accounts).
-/
namespace Magnetite.Ldap

open Magnetite.Lib

inductive LdapResultCode where
  | success | operationsError | noSuchObject | insufficentAccessRights | unwillingToPerform
  | notAllowedOnNonLeaf | entryAlreadyExists | objectClassViolation | undefinedAttributeType
  | other
deriving DecidableEq

structure LdapResult where
  code : LdapResultCode
  message : String
deriving DecidableEq

/-- `Display` of a database error; the text of the store's own errors is not modelled. -/
def DbError.text : DbError → String
  | .surreal => "database error"
  | .passwordHash => "password hashing failed"
  | .constraint text => "constraint violated: " ++ text
  | .notFound => "record not found"

structure Schema where
  isKnownAttribute : String → Bool
  validateNewEntry : List String → Attributes → String → Except LdapResult Unit

/-- The configured base DN and this server's name in upper case. -/
structure Config where
  baseDn : String
  dcNetbios : String

structure LdapAddRequest where
  dn : String
  attributes : List (String × List String)

structure LdapModifyRequest where
  dn : String
  changes : List LdapAttrChange

structure LdapModifyDNRequest where
  dn : String
  newrdn : String
  deleteoldrdn : Bool
  newSuperior : Option String

inductive WriteRequest where
  | add (req : LdapAddRequest)
  | modify (req : LdapModifyRequest)
  | delete (dn : String)
  | modDn (req : LdapModifyDNRequest)

/-- The rules are asked first. An error of the store counts as permission. -/
def gated (boundDn : Option String) (op : LdapAclOperation) (dn what : String)
    (serve : DbM LdapResult) : DbM LdapResult := do
  if boundDn.isNone then
    return ⟨.insufficentAccessRights, "authentication required for " ++ what⟩
  else
    let allowed ← StoreM.attempt (Db.evaluateLdapAcl boundDn op dn)
    if !allowed.toOption.getD true then
      return ⟨.insufficentAccessRights, "access denied by ACL"⟩
    else serve

section Handlers

variable (schema : Schema) (config : Config) (hash : String → Option String) (boundDn : Option String)

/-- The FSMO roles that a modify of the root DSE seizes. -/
def seizes (req : LdapModifyRequest) : List String :=
  if req.dn = "" then
    (req.changes.map fun c => Text.toAsciiLowercase c.attr).filter fun a =>
      a ∈ ["becomeschemamaster", "becomeridmaster", "becomepdc", "becomedomainmaster",
        "becomeinfrastructuremaster"]
  else []

def serveModify (req : LdapModifyRequest) : DbM LdapResult := do
  if !(seizes req).isEmpty then
    let seized ← StoreM.attempt
      (StoreM.each (seizes req) (Db.seizeFsmoRole config.baseDn config.dcNetbios))
    return match seized with
      | .ok _ => ⟨.success, ""⟩
      | .error _ => ⟨.other, "FSMO role seizure failed"⟩
  else
    match req.changes.find? (fun c => c.op ≠ .delete && !schema.isKnownAttribute c.attr) with
    | some bad => return ⟨.undefinedAttributeType, "undefined attribute type '" ++ bad.attr ++ "'"⟩
    | none =>
      return match ← StoreM.attempt (Db.modifyEntry req.dn req.changes hash) with
        | .ok true => ⟨.success, ""⟩
        | .ok false => ⟨.noSuchObject, "no such entry"⟩
        | .error e => ⟨.operationsError, e.text⟩

def handleModify (req : LdapModifyRequest) : DbM LdapResult :=
  gated boundDn .modify req.dn "modify" (serveModify schema config hash req)

/-- The object classes of an add request, `top` if there are none. -/
def LdapAddRequest.objectClasses (req : LdapAddRequest) : List String :=
  let classes := req.attributes.foldl
    (fun acc a => if Text.eqIgnoreAsciiCase a.1 "unicodePwd" then acc
      else if Text.eqIgnoreAsciiCase a.1 "objectClass" then a.2 else acc) []
  if classes.isEmpty then ["top"] else classes

/-- The attributes of an add request, without its object classes and the write-only password. -/
def LdapAddRequest.storedAttributes (req : LdapAddRequest) : Attributes :=
  req.attributes.foldl
    (fun acc a => if Text.eqIgnoreAsciiCase a.1 "unicodePwd" then acc
      else if Text.eqIgnoreAsciiCase a.1 "objectClass" then acc else acc.insert a.1 a.2) ∅

def serveAdd (req : LdapAddRequest) : DbM LdapResult := do
  let rdnAttr := ((Text.splitOnce '=' (rdnOf req.dn)).map (Text.trim ·.1)).getD ""
  match schema.validateNewEntry req.objectClasses req.storedAttributes rdnAttr with
  | .error violation => return violation
  | .ok _ =>
    return match ← StoreM.attempt (Db.createEntry req.dn req.objectClasses req.storedAttributes
        (boundDn.getD "ldap") hash) with
      | .ok _ => ⟨.success, ""⟩
      | .error e =>
        ⟨if Text.contains e.text "既に存在" then .entryAlreadyExists else .operationsError, e.text⟩

def handleAdd (req : LdapAddRequest) : DbM LdapResult :=
  gated boundDn .add req.dn "add" (serveAdd schema hash boundDn req)

def serveDelete (dn : String) : DbM LdapResult := do
  return match ← StoreM.attempt (Db.deleteEntry dn) with
    | .ok _ => ⟨.success, ""⟩
    | .error .notFound => ⟨.noSuchObject, "no such entry"⟩
    | .error (.constraint text) => ⟨.notAllowedOnNonLeaf, text⟩
    | .error e => ⟨.operationsError, e.text⟩

def handleDelete (dn : String) : DbM LdapResult :=
  gated boundDn .delete dn "delete" (serveDelete dn)

def serveModDn (req : LdapModifyDNRequest) : DbM LdapResult := do
  return match ← StoreM.attempt
      (Db.renameEntry req.dn req.newrdn req.deleteoldrdn req.newSuperior) with
    | .ok _ => ⟨.success, ""⟩
    | .error .notFound => ⟨.noSuchObject, "no such entry"⟩
    | .error (.constraint text) =>
      ⟨if Text.contains text "配下" then .notAllowedOnNonLeaf
        else if Text.contains text "既に存在" then .entryAlreadyExists else .unwillingToPerform, text⟩
    | .error e => ⟨.operationsError, e.text⟩

def handleModDn (req : LdapModifyDNRequest) : DbM LdapResult :=
  gated boundDn .modifyDn req.dn "modifyDN" (serveModDn req)

def handleWrite : WriteRequest → DbM LdapResult
  | .add req => handleAdd schema hash boundDn req
  | .modify req => handleModify schema config hash boundDn req
  | .delete dn => handleDelete boundDn dn
  | .modDn req => handleModDn boundDn req

end Handlers

end Magnetite.Ldap
