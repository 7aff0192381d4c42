import Magnetite.Krb5.Keys
import Magnetite.Lib.Symbolic

/-!
# KDC messages

Requests and replies as the KDC sees them after DER decoding. A padata value whose octets are not
a message of the expected type is `octets`. Encryption is ideal: `Lib.Sealed` carries the key, the
usage and the plaintext, and a keyed checksum carries its key and its input. Integers are given as
`int_to_i64` reads them. The PAC signatures, address lists, flags and versions are left out: the
handlers write them and read none of them back.
-/
namespace Magnetite.Krb5

open Magnetite.Lib

/-- A decoded `GeneralizedTime` in seconds; `none` when it is no calendar time. -/
abbrev KerberosTime := Option Nat

structure PrincipalName where
  nameType : Int
  nameString : List String
deriving DecidableEq

def ntPrincipal : Int := 1
def ntSrvInst : Int := 2

/-- Key usage numbers. -/
def asReqTimestamp : Nat := 1
def ticketRep : Nat := 2
def asRepEnc : Nat := 3
def tgsReqAuthenticator : Nat := 7
def tgsRepEncSessionKey : Nat := 8
def tgsRepEncSubKey : Nat := 9
def apReqAuthenticator : Nat := 11
def krbPrivEncPart : Nat := 13
def kerbNonKerbCksumSalt : Nat := 17

/-- What the PAC of a ticket says about the client. -/
structure PacIdentity where
  userRid : Nat
  primaryGroupRid : Nat
  groupRids : List Nat
  domainSidSubauth : List Nat
deriving DecidableEq

structure Pac where
  account : String
  realm : String
  logonTime : Nat
  identity : PacIdentity
deriving DecidableEq

structure EncTicketPart (κ : Type) where
  key : κ
  crealm : String
  cname : PrincipalName
  authTime : KerberosTime
  starttime : Option KerberosTime
  endtime : KerberosTime
  pac : Option Pac
deriving DecidableEq

structure Authenticator (κ : Type) where
  crealm : String
  cname : PrincipalName
  ctime : KerberosTime
  subkey : Option κ
deriving DecidableEq

structure EncKdcRepPart (κ : Type) where
  key : κ
  nonce : Nat
  authTime : KerberosTime
  startTime : Option KerberosTime
  endTime : KerberosTime
  srealm : String
  sname : PrincipalName
deriving DecidableEq

/-- What is found inside a ciphertext. -/
inductive Plain (κ : Type) where
  | paEncTs (patimestamp : KerberosTime)
  | encTicket (part : EncTicketPart κ)
  | authenticator (part : Authenticator κ)
  | encKdcRep (part : EncKdcRepPart κ)
  | octets (bytes : List UInt8)
deriving DecidableEq

/-- The keys written in a plaintext. -/
def Plain.keys {κ : Type} : Plain κ → List κ
  | .encTicket part => [part.key]
  | .authenticator part => part.subkey.toList
  | .encKdcRep part => [part.key]
  | .paEncTs _ | .octets _ => []

abbrev EncryptedData (κ : Type) := Sealed κ (Plain κ)

structure Ticket (κ : Type) where
  realm : String
  sname : PrincipalName
  encPart : EncryptedData κ
deriving DecidableEq

structure ApReq (κ : Type) where
  ticket : Ticket κ
  authenticator : EncryptedData κ
deriving DecidableEq

/-- A checksum value: keyed (of either kind the KDC accepts), or other octets. -/
inductive Checksum (κ : Type) where
  | aes (key : κ) (usage : Nat) (data : List UInt8)
  | hmacMd5 (key : κ) (usage : Nat) (data : List UInt8)
  | octets (bytes : List UInt8)
deriving DecidableEq

structure PaForUser (κ : Type) where
  userName : PrincipalName
  userRealm : String
  cksum : Checksum κ
  authPackage : String
deriving DecidableEq

inductive PaValue (κ : Type) where
  | encryptedData (data : EncryptedData κ)
  | apReq (req : ApReq κ)
  | paForUser (pfu : PaForUser κ)
  | octets (bytes : List UInt8)
deriving DecidableEq

structure PaData (κ : Type) where
  padataType : Int
  padataData : PaValue κ
deriving DecidableEq

def paTgsReqType : Int := 1
def paEncTimestampType : Int := 2
def paForUserType : Int := 129

/-- An AS-REQ: the service name it carries is not read by the handler. -/
structure AsReq (κ : Type) where
  padata : List (PaData κ)
  cname : Option PrincipalName
  etype : List Int
  nonce : Nat

structure TgsReq (κ : Type) where
  padata : List (PaData κ)
  sname : Option PrincipalName
  etype : List Int
  nonce : Nat
  additionalTickets : List (Ticket κ)

structure KdcRep (κ : Type) where
  crealm : String
  cname : PrincipalName
  ticket : Ticket κ
  encPart : EncryptedData κ
deriving DecidableEq

inductive ErrorCode where
  | cPrincipalUnknown | sPrincipalUnknown | badOption | etypeNosupp | padataTypeNosupp
  | preauthFailed | preauthRequired | badIntegrity | tktExpired | badMatch | skew | modified
  | generic
deriving DecidableEq

structure KrbError where
  sname : List String
  code : ErrorCode
  /-- The salt that ETYPE-INFO2 carries when pre-authentication is demanded. -/
  salt : Option String
deriving DecidableEq

/-- Internal errors. The texts of the DER, character-set and decryption errors are the libraries'
own. -/
inductive KdcError where
  | asn1
  | charset
  | crypto
  | malformed (text : String)
deriving DecidableEq

/-- How a request fails: with a KRB-ERROR for the client (`Ok(Error(..))` in the handlers), or
with an internal error (`Err(..)`), which the caller turns into a generic KRB-ERROR. -/
inductive Refusal where
  | krbError (e : KrbError)
  | fault (e : KdcError)
deriving DecidableEq

end Magnetite.Krb5
