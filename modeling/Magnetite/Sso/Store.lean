import Magnetite.Lib.Rows
import Magnetite.Lib.Text

/-!
# SSO configuration store

Identity providers, OIDC clients and the issuer's signing keys, with the functions that change
them. Columns that neither these functions nor the client checks of the endpoints read are left
out, and so are sessions, which are not replicated.
-/
namespace Magnetite.Sso
open Lib

abbrev Instant := Nat

structure ProviderRecord where
  id : String
  name : String
  clientSecret : String
  enabled : Bool
  updatedAt : Instant
  deriving DecidableEq, Repr

structure ClientRecord where
  id : String
  clientName : String
  clientId : String
  clientSecret : String
  clientType : String
  redirectUris : List String
  enabled : Bool
  updatedAt : Instant
  deriving DecidableEq, Repr

inductive KeyState where
  | active | retired
  deriving DecidableEq, Repr

structure SigningKeyRecord where
  id : String
  kid : String
  privatePem : String
  state : KeyState
  createdAt : Instant
  retiredAt : Option Instant
  deriving DecidableEq, Repr

structure Tables where
  providers : List ProviderRecord
  clients : List ClientRecord
  signingKeys : List SigningKeyRecord
  deriving DecidableEq, Repr

def Tables.empty : Tables := ⟨[], [], []⟩

inductive DbError where
  | constraint (message : String)
  | notFound
  deriving DecidableEq, Repr

def msgNameDup : String := "同じ名称が既に存在します。"
def msgIndex : String := "Database index already contains"

/-! ## Providers -/

/-- `find_provider_by_name`. -/
def findProviderByName (db : Tables) (name : String) : Option ProviderRecord :=
  db.providers.find? (·.name == name)

/-- Creates a provider or changes the one with that identifier. The change is the first of two
statements; a new secret is written by the second, `saveProviderSecret`. -/
def saveProvider (fresh : String) (now : Instant) (p : ProviderRecord) (secret : Option String)
    (db : Tables) : Except DbError Tables :=
  if p.id = "" then
    if (findProviderByName db p.name).isSome then .error (.constraint msgNameDup)
    else .ok { db with
      providers := db.providers ++
        [{ p with id := fresh, clientSecret := secret.getD "", updatedAt := now }] }
  else if db.providers.any (·.id == p.id) then
    .ok { db with
      providers := Rows.update (·.id) p.id
        (fun r => { r with enabled := p.enabled, updatedAt := now }) db.providers }
  else .error .notFound

/-- The second statement does not touch `updated_at`. -/
def saveProviderSecret (id secret : String) (db : Tables) : Tables :=
  { db with
    providers := Rows.update (·.id) id (fun r => { r with clientSecret := secret }) db.providers }

def deleteProvider (id : String) (db : Tables) : Tables :=
  { db with providers := Rows.delete (·.id) id db.providers }

/-! ## Clients -/

/-- The unique index over client names, seen by a write to row `id`. -/
def clientNameTaken (db : Tables) (id name : String) : Bool :=
  db.clients.any fun r => r.id ≠ id && r.clientName == name

/-- `clientId` and `secret` are generated; a public client gets no secret. -/
def createOidcClient (fresh clientId secret : String) (now : Instant) (c : ClientRecord)
    (db : Tables) : Except DbError Tables :=
  if clientNameTaken db fresh c.clientName then .error (.constraint msgIndex)
  else .ok { db with
    clients := db.clients ++ [{ c with
      id := fresh, clientId := clientId
      clientSecret := if c.clientType = "public" then "" else secret
      updatedAt := now }] }

/-- The issued identifier and the secret stay as they are. -/
def ClientRecord.updateWith (c : ClientRecord) (now : Instant) (r : ClientRecord) : ClientRecord :=
  { r with
    clientName := c.clientName, clientType := c.clientType, redirectUris := c.redirectUris
    enabled := c.enabled, updatedAt := now }

def updateOidcClient (now : Instant) (c : ClientRecord) (db : Tables) : Except DbError Tables :=
  if clientNameTaken db c.id c.clientName then .error (.constraint msgIndex)
  else .ok { db with clients := Rows.update (·.id) c.id (c.updateWith now) db.clients }

def regenerateClientSecret (now : Instant) (id secret : String) (db : Tables) : Tables :=
  { db with
    clients := Rows.update (·.id) id
      (fun r => { r with clientSecret := secret, updatedAt := now }) db.clients }

def deleteOidcClient (id : String) (db : Tables) : Tables :=
  { db with clients := Rows.delete (·.id) id db.clients }

/-- `SELECT * FROM sso_client WHERE client_id = $cid LIMIT 1`; the secret comes with the row. -/
def getOidcClientAuth (db : Tables) (clientId : String) : Option ClientRecord :=
  db.clients.find? (·.clientId == clientId)

/-! ## Signing keys -/

def insertActiveSigningKey (fresh : String) (now : Instant) (kid privatePem : String)
    (db : Tables) : Except DbError Tables :=
  if db.signingKeys.any (·.kid == kid) then .error (.constraint msgIndex)
  else .ok { db with
    signingKeys := db.signingKeys ++ [⟨fresh, kid, privatePem, .active, now, none⟩] }

/-- The first statement of `rotate_signing_key`; the second inserts the new key. -/
def retireActiveKeys (now : Instant) (db : Tables) : Tables :=
  { db with
    signingKeys := Rows.update (·.state) .active
      (fun r => { r with state := .retired, retiredAt := some now }) db.signingKeys }

def pruneRetiredSigningKeys (cutoff : Instant) (db : Tables) : Tables :=
  { db with
    signingKeys := db.signingKeys.filter fun r =>
      !(r.state == .retired && r.retiredAt.any (· < cutoff)) }

/-! ## Edits -/

/-- A statement sequence of one of the functions above, with the clock reading and the values it
generates. -/
inductive Edit where
  | saveProvider (fresh : String) (now : Instant) (p : ProviderRecord) (secret : Option String)
  | saveProviderSecret (id secret : String)
  | deleteProvider (id : String)
  | createOidcClient (fresh clientId secret : String) (now : Instant) (c : ClientRecord)
  | updateOidcClient (now : Instant) (c : ClientRecord)
  | regenerateClientSecret (now : Instant) (id secret : String)
  | deleteOidcClient (id : String)
  | insertActiveSigningKey (fresh : String) (now : Instant) (kid privatePem : String)
  | retireActiveKeys (now : Instant)
  | pruneRetiredSigningKeys (cutoff : Instant)
  deriving DecidableEq, Repr

def Edit.apply : Edit → Tables → Except DbError Tables
  | .saveProvider fresh now p secret => Sso.saveProvider fresh now p secret
  | .saveProviderSecret id secret => .ok ∘ Sso.saveProviderSecret id secret
  | .deleteProvider id => .ok ∘ Sso.deleteProvider id
  | .createOidcClient fresh clientId secret now c =>
    Sso.createOidcClient fresh clientId secret now c
  | .updateOidcClient now c => Sso.updateOidcClient now c
  | .regenerateClientSecret now id secret => .ok ∘ Sso.regenerateClientSecret now id secret
  | .deleteOidcClient id => .ok ∘ Sso.deleteOidcClient id
  | .insertActiveSigningKey fresh now kid privatePem =>
    Sso.insertActiveSigningKey fresh now kid privatePem
  | .retireActiveKeys now => .ok ∘ Sso.retireActiveKeys now
  | .pruneRetiredSigningKeys cutoff => .ok ∘ Sso.pruneRetiredSigningKeys cutoff

/-- A refused edit leaves the tables as they are. -/
def Edit.exec (e : Edit) (db : Tables) : Tables :=
  match e.apply db with
  | .ok db' => db'
  | .error _ => db

end Magnetite.Sso
