import Magnetite.Addc.Directory
import Magnetite.Rpc.Server

/-!
# Who is served replication data

The DRSUAPI interface answers `GetNCChanges` to an authenticated principal whose name, trimmed to an
account name, is that of a member of a replication group. The contents of the answers are arbitrary
functions here.
-/
namespace Magnetite.Rpc

open Magnetite.Lib
open Magnetite.Addc (Directory User Group)
open Magnetite.Krb5 (ApReq EncTicketPart lookupKey accountKeys)

section Interface

def opBind : Nat := 0
def opUnbind : Nat := 1
def opGetNcChanges : Nat := 3

/-- Domain Admins, Domain Controllers, Enterprise Admins, Read-only Domain Controllers and the
built-in Administrators. -/
def defaultReplicationGroupRids : List Nat := [512, 516, 519, 521, 544]

/-- The account name in a principal: what stands after the last backslash, and there before the
first at-sign and the first slash. -/
def normalizeAccountName (principal : String) : String :=
  Text.beforeFirst '/' (Text.beforeFirst '@' (Text.afterLast '\\' (Text.trim principal)))

structure Drsuapi (κ : Type) where
  directory : Directory κ
  replicationGroupRids : List Nat
  bindResponse : List UInt8
  unbindResponse : List UInt8
  /-- The answer to a stub, with the session key and the principal. -/
  getNcChangesResponse : List UInt8 → Option κ → Option String → List UInt8

namespace Drsuapi

variable {κ : Type}

/-- Whether a user is a member of one of the replication groups. -/
def replicates (drs : Drsuapi κ) (user : User κ) : Bool :=
  drs.replicationGroupRids.any fun rid => (drs.directory.groupMembers rid).any (·.contains user.rid)

def isAuthorizedForReplication (drs : Drsuapi κ) (principal : String) : Bool :=
  (drs.directory.findUser (normalizeAccountName principal)).any drs.replicates

def callWithSession (drs : Drsuapi κ) (opnum : Nat) (stub : List UInt8) (sessionKey : Option κ) :
    Except Nat (List UInt8) :=
  if opnum = opBind then .ok drs.bindResponse
  else if opnum = opUnbind then .ok drs.unbindResponse
  else if opnum = opGetNcChanges then .ok (drs.getNcChangesResponse stub sessionKey none)
  else .error Fault.opRngError

def callAuthenticated (drs : Drsuapi κ) (opnum : Nat) (stub : List UInt8) (sessionKey : Option κ)
    (principal : Option String) : Except Nat (List UInt8) :=
  if opnum = opGetNcChanges then
    match principal with
    | none => .error Fault.accessDenied
    | some principal =>
      if drs.isAuthorizedForReplication principal then
        .ok (drs.getNcChangesResponse stub sessionKey (some principal))
      else .error Fault.accessDenied
  else drs.callWithSession opnum stub sessionKey

/-- The interface that an endpoint serves; it has no secure channel. -/
def interface (drs : Drsuapi κ) : Interface κ where
  call opnum stub := drs.callWithSession opnum stub none
  callAuthenticated := drs.callAuthenticated
  sessionKey := none

/-- The account of exactly this name is a user of the directory and a member of a replication
group. -/
def Replicator (drs : Drsuapi κ) (sam : String) : Prop :=
  ∃ account ∈ drs.directory.users ++ drs.directory.runtimeUsers,
    account.samAccountName = sam ∧ drs.replicates account

end Drsuapi

end Interface

section Access

/-- An account has the key that authenticates a name: the name is one of those under which the KDC
registers the account. -/
def Authenticates (lower : String → String) (realm sam : String) (client : List String) : Prop :=
  lookupKey lower client ∈ accountKeys lower realm sam

variable {κ : Type} {drs : Drsuapi κ}

/-- A principal is authorised exactly if the user found by its trimmed name replicates. -/
theorem Drsuapi.authorized_iff {principal : String} :
    drs.isAuthorizedForReplication principal = true ↔
      ∃ user, drs.directory.findUser (normalizeAccountName principal) = some user ∧
        drs.replicates user := by
  rw [isAuthorizedForReplication, Option.any_eq_true]

/-- Users with one identifier are in the same groups. -/
theorem Drsuapi.replicates_congr {user account : User κ} (h : account.rid = user.rid) :
    drs.replicates account = drs.replicates user := by
  rw [replicates, replicates, h]

/-- Data is returned to nobody but an authorised principal. -/
theorem Drsuapi.authorized_of_call {stub out : List UInt8} {key : Option κ}
    {principal : Option String}
    (h : drs.callAuthenticated opGetNcChanges stub key principal = .ok out) :
    ∃ p, principal = some p ∧ drs.isAuthorizedForReplication p = true := by
  cases principal with
  | none => simp [callAuthenticated] at h
  | some p =>
    refine ⟨p, rfl, ?_⟩
    by_contra hp
    simp [callAuthenticated, hp] at h

variable [DecidableEq κ] {serviceKey : κ}

/-- Data goes out on a connection only after a bind, and only if the last client that authenticated
is authorised. -/
theorem Drsuapi.authorized_of_response {history : List (Arrival κ)} {a : Arrival κ} {out : List UInt8}
    (hop : a.pdu.opnum = some opGetNcChanges)
    (hout : ((Connection.after drs.interface serviceKey history).handle drs.interface
      serviceKey a).2 =
      some (.response out)) :
    ∃ client principal, lastClient serviceKey history = some client ∧
      principalText client = some principal ∧ drs.isAuthorizedForReplication principal = true := by
  have hcontext : (Connection.after drs.interface serviceKey history).Context
    (lastClient serviceKey history) := Connection.after_context rfl history
  obtain ⟨stub, key, principal, hcall, hprincipal⟩ := Connection.response_of_handle hcontext hop hout
  obtain ⟨p, rfl, hp⟩ := authorized_of_call hcall
  obtain ⟨-, hclient⟩ := hprincipal.resolve_left (by simp)
  obtain ⟨client, hlast, htext⟩ := Option.bind_eq_some_iff.mp hclient.symm
  exact ⟨client, p, hlast, htext, hp⟩

/-- An AP-REQ of a client under a ticket of the service. -/
def clientApReq (serviceKey : κ) (client : List String) : ApReq κ where
  ticket := ⟨"", ⟨1, []⟩, ⟨serviceKey, Krb5.ticketRep, .encTicket
    ⟨serviceKey, "", ⟨1, client⟩, some 0, none, some 0, none⟩⟩⟩
  authenticator := ⟨serviceKey, Krb5.apReqAuthenticator, .authenticator
    ⟨"", ⟨1, client⟩, some 0, none⟩⟩

def bindArrival (serviceKey : κ) (client : List String) : Arrival κ where
  now := 0
  subkey := serviceKey
  pdu := .bind true (some (.gssNegotiate (some (clientApReq serviceKey client))))

/-- A request for changes under the subkey of that bind. -/
def changesArrival (serviceKey : κ) : Arrival κ where
  now := 0
  subkey := serviceKey
  pdu := .request (.gss opGetNcChanges true ⟨⟨serviceKey, kgUsageInitiatorSeal, []⟩, 0⟩)

theorem verify_clientApReq (serviceKey : κ) (client : List String) :
    (Krb5.verifyApReq serviceKey 0 (clientApReq serviceKey client)).toOption.map (·.clientName) =
      some client := by
  have hskew : Krb5.withinSkew 0 (some 0) = true := by decide
  simp [clientApReq, Krb5.verifyApReq, Sealed.decrypt, Krb5.Plain.encTicket?,
    Krb5.Plain.authenticator?, okOr, ensure, hskew, bind, Except.bind, Except.toOption, pure,
    Except.pure]

theorem lastClient_bindArrival (serviceKey : κ) (client : List String) :
    lastClient serviceKey [bindArrival serviceKey client] = some client := by
  simp [lastClient, Arrival.client, bindArrival, verify_clientApReq]

theorem after_bindArrival (iface : Interface κ) (client : List String) :
    Connection.after iface serviceKey [bindArrival serviceKey client] =
      ⟨none, 0, some serviceKey, principalText client⟩ := by
  obtain ⟨verified, hverified, hname⟩ := Option.map_eq_some_iff.mp
    (verify_clientApReq serviceKey client)
  simp [Connection.after, Connection.handle, Connection.handleGssBind, bindArrival, hverified, hname,
    Connection.fresh]

/-- Whoever is authorised is served. -/
theorem response_of_authorized (serviceKey : κ) {client : List String} {principal : String}
    (htext : principalText client = some principal)
    (h : drs.isAuthorizedForReplication principal = true) :
    ∃ out, ((Connection.after drs.interface serviceKey [bindArrival serviceKey client]).handle
      drs.interface serviceKey (changesArrival serviceKey)).2 = some (.response out) := by
  rw [after_bindArrival, htext]
  refine ⟨drs.getNcChangesResponse [] (some serviceKey) (some principal), ?_⟩
  simp [Connection.handle, Connection.handleGssRequest, changesArrival, Sealed.decrypt, unpad,
    Drsuapi.interface, Drsuapi.callAuthenticated, h, reply]

end Access

section Served

variable {κ : Type} [DecidableEq κ] [Inhabited κ]

/-- An interface over the users of a directory, of which one identifier is in a replication
group. -/
def granting (dir : Directory κ) (rid : Nat) : Drsuapi κ where
  directory := ⟨dir.users, [⟨"Domain Admins", 512, [rid], [], none⟩], dir.runtimeUsers, []⟩
  replicationGroupRids := defaultReplicationGroupRids
  bindResponse := []
  unbindResponse := []
  getNcChangesResponse _ _ _ := []

omit [DecidableEq κ] [Inhabited κ] in
theorem granting_replicates_iff {dir : Directory κ} {rid : Nat} {user : User κ} :
    (granting dir rid).replicates user = true ↔ user.rid = rid := by
  simp [granting, Drsuapi.replicates, defaultReplicationGroupRids, Directory.groupMembers]

/-- Given the users of a directory, an account that authenticates under a name is served only as a
replicator itself, whatever the groups are and over every connection, exactly if the user that is
found by the trimmed name, if any, has the identifier of that account. -/
theorem served_to_replicators_iff (lower : String → String) (realm sam : String)
    (client : List String) (dir : Directory κ) :
    (∀ (drs : Drsuapi κ) (serviceKey : κ) (history : List (Arrival κ)) (a : Arrival κ)
        (out : List UInt8), drs.directory.users = dir.users →
        drs.directory.runtimeUsers = dir.runtimeUsers → Authenticates lower realm sam client →
        lastClient serviceKey history = some client → a.pdu.opnum = some opGetNcChanges →
        ((Connection.after drs.interface serviceKey history).handle drs.interface serviceKey a).2 =
          some (.response out) →
        drs.Replicator sam) ↔
      (Authenticates lower realm sam client → ∀ principal, principalText client = some principal →
        ∀ user, dir.findUser (normalizeAccountName principal) = some user →
          ∃ account ∈ dir.users ++ dir.runtimeUsers,
            account.samAccountName = sam ∧ account.rid = user.rid) := by
  constructor
  · intro h hauth principal htext user hfind
    have hgranted : (granting dir user.rid).isAuthorizedForReplication principal = true :=
      Drsuapi.authorized_iff.mpr ⟨user, hfind, granting_replicates_iff.mpr rfl⟩
    obtain ⟨out, hout⟩ := response_of_authorized default htext hgranted
    obtain ⟨account, hmem, hname, hgroup⟩ :=
      h _ default _ (changesArrival default) out rfl rfl hauth (lastClient_bindArrival _ client) rfl
        hout
    exact ⟨account, hmem, hname, granting_replicates_iff.mp hgroup⟩
  · intro h drs serviceKey history a out husers hruntime hauth hlast hop hout
    obtain ⟨client', principal, hlast', htext, hauthorized⟩ :=
      Drsuapi.authorized_of_response hop hout
    obtain rfl : client = client' := Option.some.inj (hlast.symm.trans hlast')
    obtain ⟨user, hfind, hgroup⟩ := Drsuapi.authorized_iff.mp hauthorized
    rw [Directory.findUser, husers, hruntime] at hfind
    obtain ⟨account, hmem, hname, hrid⟩ := h hauth principal htext user hfind
    exact ⟨account, by rwa [husers, hruntime], hname, by rwa [Drsuapi.replicates_congr hrid]⟩

end Served

section Sample

/-- A domain with an administrator and a user without rights. -/
def sampleDrsuapi : Drsuapi Nat where
  directory := ⟨[⟨"admin", 500, 1, some 1, false, none⟩,
    ⟨"admin@guest", 1104, 2, some 2, false, none⟩],
    [⟨"Domain Admins", 512, [500], [], none⟩, ⟨"Domain Users", 513, [1104], [], none⟩], [], []⟩
  replicationGroupRids := defaultReplicationGroupRids
  bindResponse := []
  unbindResponse := []
  getNcChangesResponse _ _ _ := [1, 2, 3]

/-- The user is served under a name of its own, which is trimmed to that of the administrator. -/
theorem served_to_other_account :
    Authenticates Text.toAsciiLowercase "EXAMPLE.COM" "admin@guest" ["admin@guest"] ∧
      lastClient 7 [bindArrival 7 ["admin@guest"]] = some ["admin@guest"] ∧
      ((Connection.after sampleDrsuapi.interface 7 [bindArrival 7 ["admin@guest"]]).handle
        sampleDrsuapi.interface 7 (changesArrival 7)).2 = some (.response [1, 2, 3]) ∧
      ¬ sampleDrsuapi.Replicator "admin@guest" := by
  refine ⟨?_, lastClient_bindArrival 7 _, by decide +kernel, ?_⟩
  · unfold Authenticates
    decide +kernel
  · unfold Drsuapi.Replicator
    decide +kernel

end Sample

end Magnetite.Rpc
