import Magnetite.Lib.Text
import Mathlib.Data.Finset.Basic
import Std.Data.ExtTreeMap

/-!
# The directory

Distinguished names as texts, directory entries, access rules and the tables that hold them. The
`entry` table is a map from DN to record, which is what its unique index makes of it. Attribute
maps are stored directly instead of as JSON texts. Times are numbers in the order of the RFC 3339
texts that the store holds.
-/
namespace Magnetite.Ldap

open Magnetite.Lib

/-- Lower case without white space at the ends; white space inside stays. -/
def normalizeDn (dn : String) : String := Text.toAsciiLowercase (Text.trim dn)

@[simp] theorem normalizeDn_normalizeDn (dn : String) :
    normalizeDn (normalizeDn dn) = normalizeDn dn := by
  simp only [normalizeDn, Text.toAsciiLowercase, Text.trim, String.toList_ofList,
    Text.trimChars_map_toLower, Text.trimChars_trimChars, List.map_map]
  congr 2
  exact funext Text.toLower_toLower

/-- The leftmost component of a DN. -/
def rdnOf (dn : String) : String := Text.beforeFirst ',' dn

/-- What follows the first comma of a DN. -/
def parentOf (dn : String) : Option String := (Text.splitOnce ',' dn).map (·.2)

abbrev Attributes := Std.ExtTreeMap String (List String)

instance : DecidableEq Attributes := inferInstance

structure EntryRecord where
  rdn : String
  parentDn : Option String
  objectClasses : List String
  structuralClass : String
  attributes : Attributes
  enabled : Bool
  passwordRef : Option String
  hasChildren : Bool
  createdAt : Nat
  updatedAt : Nat
  createdBy : String
  /-- The provider's identifier of an entry that was pulled by the consumer. -/
  sourceUuid : Option String
deriving DecidableEq

def ocGroup : String := "groupOfNames"
def ocDomain : String := "domain"

inductive LdapAclOperation where
  | search | read | add | modify | delete | modifyDn | compare
deriving DecidableEq

inductive LdapAclSubject where
  | anyone
  | anonymous
  | authenticated
  | dn (dn : String)
  | groupMember (group : String)
deriving DecidableEq

inductive LdapAclEffect where
  | allow | deny
deriving DecidableEq

structure LdapAclRule where
  priority : Nat
  targetDn : String
  operations : List LdapAclOperation
  subject : LdapAclSubject
  effect : LdapAclEffect
  enabled : Bool
deriving DecidableEq

/-- A deletion that content sync reports. -/
structure LdapChangeRecord where
  dn : String
  csn : Nat
deriving DecidableEq

structure Directory where
  entries : Std.ExtTreeMap String EntryRecord
  changelog : List LdapChangeRecord
  acls : List LdapAclRule
deriving DecidableEq

inductive DbError where
  | surreal
  | passwordHash
  | constraint (text : String)
  | notFound
deriving DecidableEq

inductive LdapModifyOp where
  | add | delete | replace
deriving DecidableEq

structure LdapAttrChange where
  op : LdapModifyOp
  attr : String
  values : List String
deriving DecidableEq

def msgOuGuard : String := "この OU には配下エントリがあります。先に移動または削除してください。"
def msgDnDup : String := "同じ DN のエントリが既に存在します。"
def msgParent : String := "親 DN が存在しません。"

namespace Attributes

/-- The stored key that equals a name up to ASCII case, the first in key order. -/
def keyOf (attrs : Attributes) (name : String) : Option String :=
  attrs.keys.find? (Text.eqIgnoreAsciiCase · name)

/-- Puts a value under an attribute, unless it is there up to case. -/
def addAttrValue (attrs : Attributes) (attr value : String) : Attributes :=
  let key := (keyOf attrs attr).getD attr
  let values := attrs.getD key []
  attrs.insert key (if values.any (Text.eqIgnoreAsciiCase · value) then values else values ++ [value])

/-- Takes a value from an attribute, and the attribute with its last value. -/
def removeAttrValue (attrs : Attributes) (attr value : String) : Attributes :=
  match keyOf attrs attr with
  | none => attrs
  | some key =>
    let values := (attrs.getD key []).filter (!Text.eqIgnoreAsciiCase · value)
    if values.isEmpty then attrs.erase key else attrs.insert key values

def applyChange (attrs : Attributes) (change : LdapAttrChange) : Attributes :=
  match change.op with
  | .add => attrs.insert change.attr (attrs.getD change.attr [] ++ change.values)
  | .replace =>
    if change.values.isEmpty then attrs.erase change.attr
    else attrs.insert change.attr change.values
  | .delete =>
    if change.values.isEmpty then attrs.erase change.attr
    else match attrs[change.attr]? with
      | none => attrs
      | some existing =>
        let left := existing.filter (!change.values.contains ·)
        if left.isEmpty then attrs.erase change.attr else attrs.insert change.attr left

end Attributes

/-- The last object class that is not `top`. -/
def structuralOf (objectClasses : List String) : String :=
  (objectClasses.reverse.find? (!Text.eqIgnoreAsciiCase · "top")).getD "top"

end Magnetite.Ldap
