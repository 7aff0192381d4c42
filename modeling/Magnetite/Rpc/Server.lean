import Magnetite.Krb5.Exchange

/-!
# Connections of an RPC endpoint

One connection of an endpoint that is served with Kerberos over TCP: the security context that a
bind makes, and the requests that are dispatched to an interface. PDUs are taken as decoded, and
what protects a request is a term of ideal encryption; the AP-REP, the protection of responses and
the signing of headers are left out. No NT hash is configured at such an endpoint, so that NTLM
never makes a context, and the transport authenticates nobody.
-/
namespace Magnetite.Rpc

open Magnetite.Lib
open Magnetite.Krb5 (ApReq VerifiedApReq verifyApReq)

namespace Fault

def opRngError : Nat := 0x1c010002
def ndr : Nat := 0x6f7
def accessDenied : Nat := 5

end Fault

section Interface

/-- `RpcInterface`. -/
structure Interface (κ : Type) where
  call : Nat → List UInt8 → Except Nat (List UInt8)
  callAuthenticated : Nat → List UInt8 → Option κ → Option String → Except Nat (List UInt8)
  /-- The session key of a secure channel. -/
  sessionKey : Option κ

end Interface

section Pdu

/-- The security trailer of a BIND, ALTER_CONTEXT or AUTH3: a SPNEGO token with the AP-REQ that is
found in it, or one of another service. -/
inductive Trailer (κ : Type) where
  | gssNegotiate (apReq : Option (ApReq κ))
  | other

/-- The stub of a request with its padding, under the session key and the sequence number or the
usage. -/
structure Protected (κ : Type) where
  payload : Sealed κ (List UInt8)
  authPadLen : Nat

/-- The stub without the padding. -/
def unpad (plain : List UInt8) (authPadLen : Nat) : Option (List UInt8) :=
  if authPadLen ≤ plain.length then some (plain.take (plain.length - authPadLen)) else none

/-- How a request comes in; a plain or a Netlogon request may fail to parse. -/
inductive Request (κ : Type) where
  | plain (request : Option (Nat × List UInt8))
  | netlogon (request : Option (Nat × Protected κ))
  | ntlm
  | gss (opnum : Nat) (sealed : Bool) (request : Protected κ)

inductive Pdu (κ : Type) where
  /-- `parsed` tells whether the body is a bind request, with a context if it is not
  authenticated. -/
  | bind (parsed : Bool) (trailer : Option (Trailer κ))
  | alterContext (parsed : Bool) (trailer : Option (Trailer κ))
  | auth3 (trailer : Option (Trailer κ))
  | request (request : Request κ)
  | other

inductive Reply where
  | bindAck
  | bindNak
  | alterContextResp
  | fault (status : Nat)
  | response (out : List UInt8)
deriving DecidableEq

/-- The operation that a request names. -/
def Pdu.opnum {κ : Type} : Pdu κ → Option Nat
  | .request (.plain r) => r.map (·.1)
  | .request (.netlogon r) => r.map (·.1)
  | .request (.gss opnum _ _) => some opnum
  | _ => none

def kgUsageInitiatorSeal : Nat := 24
def kgUsageInitiatorSign : Nat := 25

end Pdu

section Handler

/-- The contexts of a connection: that of a Netlogon secure channel with its sequence number, and
that of a Kerberos bind. -/
structure Connection (κ : Type) where
  sessionKey : Option κ
  sequence : Nat
  gssSubkey : Option κ
  gssPrincipal : Option String

/-- A connection as it is accepted. -/
def Connection.fresh {κ : Type} : Connection κ := ⟨none, 0, none, none⟩

/-- What the endpoint draws from its surroundings with each PDU: the clock, and the subkey that an
AP-REP would carry. -/
structure Arrival (κ : Type) where
  now : Nat
  subkey : κ
  pdu : Pdu κ

/-- The name of a client as one text, if there is one. -/
def principalText (clientName : List String) : Option String :=
  let joined := "/".intercalate clientName
  if joined.isEmpty then none else some joined

def reply (result : Except Nat (List UInt8)) : Reply :=
  match result with
  | .ok out => .response out
  | .error status => .fault status

variable {κ : Type} [DecidableEq κ]

/-- The client that a bind authenticates. -/
def Arrival.client (serviceKey : κ) (a : Arrival κ) : Option (List String) :=
  match a.pdu with
  | .bind true (some (.gssNegotiate (some apReq))) =>
    (verifyApReq serviceKey a.now apReq).toOption.map (·.clientName)
  | _ => none

namespace Connection

/-- A bind with a SPNEGO token. An AP-REQ that does not verify leaves the context that there is. -/
def handleGssBind (serviceKey : κ) (conn : Connection κ) (a : Arrival κ) (parsed : Bool)
    (apReq : Option (ApReq κ)) : Connection κ × Option Reply :=
  if parsed then
    match apReq.bind fun req => (verifyApReq serviceKey a.now req).toOption with
    | some verified =>
      ({ conn with gssPrincipal := principalText verified.clientName, gssSubkey := some a.subkey },
        some .bindAck)
    | none => (conn, some .bindNak)
  else (conn, some .bindNak)

/-- A request under the context of a Kerberos bind: the stub is opened with the subkey. -/
def handleGssRequest (iface : Interface κ) (conn : Connection κ) (opnum : Nat) (sealed : Bool)
    (request : Protected κ) : Reply :=
  match conn.gssSubkey with
  | none => .fault Fault.accessDenied
  | some subkey =>
    let usage := if sealed then kgUsageInitiatorSeal else kgUsageInitiatorSign
    match request.payload.decrypt subkey usage with
    | none => .fault Fault.accessDenied
    | some plain =>
      match unpad plain request.authPadLen with
      | none => .fault Fault.ndr
      | some stub => reply (iface.callAuthenticated opnum stub (some subkey) conn.gssPrincipal)

/-- A request under a Netlogon secure channel, which is not dispatched with a principal. -/
def handleSignedRequest (iface : Interface κ) (conn : Connection κ)
    (request : Option (Nat × Protected κ)) : Connection κ × Reply :=
  match conn.sessionKey, request with
  | none, _ => (conn, .fault Fault.accessDenied)
  | some _, none => (conn, .fault Fault.ndr)
  | some sessionKey, some (opnum, protected_) =>
    match protected_.payload.decrypt sessionKey conn.sequence with
    | none => (conn, .fault Fault.accessDenied)
    | some plain =>
      match unpad plain protected_.authPadLen with
      | none => (conn, .fault Fault.ndr)
      | some stub => ({ conn with sequence := conn.sequence + 2 }, reply (iface.call opnum stub))

def handle (iface : Interface κ) (serviceKey : κ) (conn : Connection κ) (a : Arrival κ) :
    Connection κ × Option Reply :=
  match a.pdu with
  | .bind parsed (some (.gssNegotiate apReq)) => conn.handleGssBind serviceKey a parsed apReq
  | .bind parsed _ => (conn, some (if parsed then .bindAck else .bindNak))
  | .alterContext parsed (some (.gssNegotiate _)) =>
    (conn, some (if parsed then .alterContextResp else .bindNak))
  | .alterContext parsed (some .other) =>
    if parsed then ({ conn with sessionKey := iface.sessionKey, sequence := 0 },
      some .alterContextResp)
    else (conn, some .bindNak)
  | .alterContext parsed none => (conn, some (if parsed then .bindAck else .bindNak))
  | .auth3 _ => (conn, none)
  | .request (.plain none) => (conn, some (.fault Fault.ndr))
  | .request (.plain (some (opnum, stub))) =>
    (conn, some (reply (iface.callAuthenticated opnum stub none none)))
  | .request (.netlogon request) =>
    let (conn, out) := conn.handleSignedRequest iface request
    (conn, some out)
  | .request .ntlm => (conn, some (.fault Fault.accessDenied))
  | .request (.gss opnum sealed request) =>
    (conn, some (conn.handleGssRequest iface opnum sealed request))
  | .other => (conn, none)

/-- A connection after a history of PDUs. -/
def after (iface : Interface κ) (serviceKey : κ) (history : List (Arrival κ)) : Connection κ :=
  history.foldl (fun conn a => (conn.handle iface serviceKey a).1) .fresh

end Connection

/-- The client of the last bind in a history that authenticated one. -/
def lastClient (serviceKey : κ) (history : List (Arrival κ)) : Option (List String) :=
  history.foldl (fun client a => (a.client serviceKey).or client) none

end Handler

section Context

variable {κ : Type} [DecidableEq κ] {iface : Interface κ} {serviceKey : κ}

/-- The context of a connection is that of a client: there is a subkey exactly if there is one, and
the principal is the client's name. -/
structure Connection.Context (conn : Connection κ) (client : Option (List String)) : Prop where
  subkey : conn.gssSubkey.isSome = client.isSome
  principal : conn.gssPrincipal = client.bind principalText
  channel : conn.sessionKey = none

/-- A PDU makes the context that of the client it authenticates, if it does one. -/
theorem Connection.Context.handle {conn : Connection κ} {client : Option (List String)}
    (h : conn.Context client) (hchannel : iface.sessionKey = none) (a : Arrival κ) :
    (conn.handle iface serviceKey a).1.Context ((a.client serviceKey).or client) := by
  obtain ⟨now, subkey, pdu⟩ := a
  have same : conn.Context ((none : Option (List String)).or client) := by simpa using h
  cases pdu with
  | bind parsed trailer =>
    cases trailer with
    | none => cases parsed <;> exact same
    | some trailer =>
      cases trailer with
      | other => cases parsed <;> exact same
      | gssNegotiate apReq =>
        cases parsed with
        | false => exact same
        | true =>
          cases apReq with
          | none => exact same
          | some apReq =>
            simp only [Connection.handle, Connection.handleGssBind, Arrival.client]
            cases hverify : verifyApReq serviceKey now apReq with
            | error e => simpa [hverify, Except.toOption] using h
            | ok verified =>
              simp only [if_true, Option.bind_some, hverify, Except.toOption, Option.map_some,
                Option.some_or]
              exact ⟨rfl, rfl, h.channel⟩
  | alterContext parsed trailer =>
    cases trailer with
    | none => exact same
    | some trailer =>
      cases trailer with
      | gssNegotiate apReq => exact same
      | other =>
        cases parsed with
        | false => exact same
        | true => exact ⟨same.subkey, same.principal, hchannel⟩
  | auth3 trailer => exact same
  | request request =>
    cases request with
    | plain request => cases request <;> exact same
    | netlogon request =>
      have hconn : conn.handleSignedRequest iface request = (conn, .fault Fault.accessDenied) := by
        simp [Connection.handleSignedRequest, h.channel]
      simpa [Connection.handle, hconn, Arrival.client] using h
    | ntlm => exact same
    | gss opnum sealed request => exact same
  | other => exact same

/-- The context of a connection is that of the last client that a bind authenticated. -/
theorem Connection.after_context (hchannel : iface.sessionKey = none) (history : List (Arrival κ)) :
    (Connection.after iface serviceKey history).Context (lastClient serviceKey history) := by
  suffices ∀ (conn : Connection κ) (client : Option (List String)), conn.Context client →
      (history.foldl (fun conn a => (conn.handle iface serviceKey a).1) conn).Context
        (history.foldl (fun client a => (a.client serviceKey).or client) client) from
    this .fresh none ⟨rfl, rfl, rfl⟩
  induction history with
  | nil => exact fun _ _ h => h
  | cons a history ih => exact fun conn client h => ih _ _ (h.handle hchannel a)

/-- A response goes out only if the interface was called for the operation: with the principal of
the context, or with none. -/
theorem Connection.response_of_handle {conn : Connection κ} {client : Option (List String)}
    (h : conn.Context client) {a : Arrival κ} {opnum : Nat} {out : List UInt8}
    (hop : a.pdu.opnum = some opnum)
    (hout : (conn.handle iface serviceKey a).2 = some (.response out)) :
    ∃ stub key principal, iface.callAuthenticated opnum stub key principal = .ok out ∧
      (principal = none ∨ client.isSome ∧ principal = client.bind principalText) := by
  have ok {result : Except Nat (List UInt8)} (h : reply result = .response out) :
      result = .ok out := by
    cases result <;> simp_all [reply]
  obtain ⟨now, subkey, pdu⟩ := a
  cases pdu with
  | bind => simp [Pdu.opnum] at hop
  | alterContext => simp [Pdu.opnum] at hop
  | auth3 => simp [Pdu.opnum] at hop
  | other => simp [Pdu.opnum] at hop
  | request request =>
    cases request with
    | ntlm => simp [Pdu.opnum] at hop
    | plain request =>
      cases request with
      | none => simp [Pdu.opnum] at hop
      | some request =>
        obtain ⟨op, stub⟩ := request
        obtain rfl : op = opnum := by simpa [Pdu.opnum] using hop
        exact ⟨stub, none, none, ok (by simpa [Connection.handle] using hout), .inl rfl⟩
    | netlogon request =>
      simp [Connection.handle, Connection.handleSignedRequest, h.channel] at hout
    | gss op sealed request =>
      obtain rfl : op = opnum := by simpa [Pdu.opnum] using hop
      simp only [Connection.handle, Connection.handleGssRequest, Option.some.injEq] at hout
      split at hout
      · simp at hout
      · rename_i key hkey
        split at hout
        · simp at hout
        · split at hout
          · simp at hout
          · rename_i stub _
            refine ⟨stub, some key, conn.gssPrincipal, ok hout, .inr ⟨?_, h.principal⟩⟩
            rw [← h.subkey, hkey]
            rfl

end Context

end Magnetite.Rpc
