import Magnetite.Addc.Directory

/-!
# The Netlogon secure channel

How the server verifies a client by the NT hash of its account. Messages are given decoded; the two
AES functions are arbitrary functions.
-/
namespace Magnetite.Addc

open Magnetite.Lib

variable {κ : Type}

section Netlogon

structure Challenges where
  client : List UInt8
  server : List UInt8

/-- The state of one Netlogon interface, with session keys of type `σ`. -/
structure NetlogonState (κ σ : Type) where
  challenges : Option Challenges
  sessionKey : Option σ
  machineNtHash : κ
  storedCredential : Option (List UInt8)
  computerName : Option String

inductive NetlogonStatus where
  | success | accessDenied | noTrustSamAccount
deriving DecidableEq

def netlogonServerChallenge : List UInt8 := Text.asciiBytes "MAGNSVR1"

variable {σ : Type} (sessionKeyAes : κ → List UInt8 → List UInt8 → σ)
  (netlogonCredentialAes : σ → List UInt8 → List UInt8)

/-- `NetrServerReqChallenge`. -/
def reqChallenge (st : NetlogonState κ σ) (computer : String) (client : List UInt8) :
    NetlogonState κ σ :=
  { st with
    challenges := some ⟨client, netlogonServerChallenge⟩
    computerName := if computer.isEmpty then st.computerName else some computer }

/-- The client credential that an NT hash gives. -/
def clientCredential (ntHash : κ) (ch : Challenges) : List UInt8 :=
  netlogonCredentialAes (sessionKeyAes ntHash ch.client ch.server) ch.client

/-- The part of `NetrServerAuthenticate3` that comes once the NT hash is set. -/
def verifyCredential (st : NetlogonState κ σ) (clientCred : List UInt8) :
    NetlogonState κ σ × NetlogonStatus :=
  match st.challenges with
  | none => (st, .accessDenied)
  | some ch =>
    if ch.client = List.replicate 8 0 then (st, .accessDenied)
    else if clientCredential sessionKeyAes netlogonCredentialAes st.machineNtHash ch = clientCred then
      ({ st with
          sessionKey := some (sessionKeyAes st.machineNtHash ch.client ch.server)
          storedCredential := some clientCred }, .success)
    else (st, .accessDenied)

/-- `NetrServerAuthenticate3`: with a directory the NT hash of the account named is taken from it;
without one it stays as it is. -/
def authenticate3 (dir : Option (Directory κ)) (st : NetlogonState κ σ) (account : String)
    (clientCred : List UInt8) : NetlogonState κ σ × NetlogonStatus :=
  match dir with
  | none => verifyCredential sessionKeyAes netlogonCredentialAes st clientCred
  | some dir =>
    match dir.findUser account with
    | none => (st, .noTrustSamAccount)
    | some u =>
      verifyCredential sessionKeyAes netlogonCredentialAes { st with machineNtHash := u.ntHash }
        clientCred

end Netlogon

end Magnetite.Addc
