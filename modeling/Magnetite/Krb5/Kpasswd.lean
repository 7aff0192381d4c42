import Magnetite.Krb5.Exchange

/-!
# Changing passwords over kpasswd

The server of the change and set password protocol. A request has a length, a version and the
length of its AP-REQ, then the AP-REQ and a KRB-PRIV; the KRB-PRIV is sealed under the subkey of the
authenticator, or else under the session key, and holds the new password. The DER decoder and the
derivation of keys are arbitrary functions; encryption is ideal and does not fail.
-/
namespace Magnetite.Krb5

open Magnetite.Lib

section Request

/-- What the decoders make of bytes. -/
structure Decoders (κ : Type) where
  apReq : List UInt8 → Option (ApReq κ)
  /-- The sealed part of a KRB-PRIV. -/
  krbPriv : List UInt8 → Option (Sealed κ (List UInt8))
  /-- The user data of an opened KRB-PRIV. -/
  encKrbPrivPart : List UInt8 → Option (List UInt8)
  /-- The new password and the target name of a `ChangePasswdData`. -/
  changePasswdData : List UInt8 → Option (List UInt8 × Option PrincipalName)
  utf8 : List UInt8 → Option String

def versionChange : Nat := 0x0001
def versionSet : Nat := 0xff80

def kpasswdSuccess : Nat := 0
def kpasswdMalformed : Nat := 1
def kpasswdHardError : Nat := 2
def kpasswdAuthError : Nat := 3

/-- The version, the AP-REQ and the KRB-PRIV of a request. -/
def parseRequest : List UInt8 → Option (Nat × List UInt8 × List UInt8)
  | buf@(l₁ :: l₀ :: v₁ :: v₀ :: a₁ :: a₀ :: _) =>
    let msgLen := l₁.toNat * 256 + l₀.toNat
    let version := v₁.toNat * 256 + v₀.toNat
    let apReqEnd := 6 + (a₁.toNat * 256 + a₀.toNat)
    if msgLen < apReqEnd ∨ buf.length < msgLen then none
    else some (version, (buf.take apReqEnd).drop 6, (buf.take msgLen).drop apReqEnd)
  | _ => none

variable {κ : Type} (der : Decoders κ)

/-- The new password and whose it is: the client's own, or that of the target named in a request
that sets a password. -/
def extractNewPassword (version : Nat) (userData : List UInt8) (clientName : List String) :
    Except Nat (String × List String) :=
  if version = versionChange then do
    let password ← okOr (der.utf8 userData) kpasswdMalformed
    return (password, clientName)
  else if version = versionSet then do
    let (newPasswd, targetName) ← okOr (der.changePasswdData userData) kpasswdMalformed
    let password ← okOr (der.utf8 newPasswd) kpasswdMalformed
    return (password, (targetName.map (·.nameString)).getD clientName)
  else .error kpasswdMalformed

end Request

section Server

variable {κ : Type} [DecidableEq κ] (lower : String → String) (der : Decoders κ)
  (deriveAes256Key : String → String → Option κ)

/-- The user data of a KRB-PRIV under a key. -/
def openKrbPriv (privKey : κ) (krbPriv : List UInt8) : Except Nat (List UInt8) := do
  let encPart ← okOr (der.krbPriv krbPriv) kpasswdMalformed
  let plain ← okOr (encPart.decrypt privKey krbPrivEncPart) kpasswdAuthError
  okOr (der.encKrbPrivPart plain) kpasswdMalformed

def applyChange (store : PrincipalStore κ) (privKey : κ) (version : Nat) (krbPriv : List UInt8)
    (clientName : List String) : Except Nat (PrincipalStore κ) := do
  let userData ← openKrbPriv der privKey krbPriv
  let (newPassword, target) ← extractNewPassword der version userData clientName
  let key ← okOr (deriveAes256Key newPassword (defaultSalt store.realm target)) kpasswdHardError
  return store.setPassword lower target key

structure KpasswdReply (κ : Type) where
  version : Nat
  privKey : κ
  code : Nat
  message : String

/-- The parts of a request whose AP-REQ authenticates a client: the version, what the AP-REQ says,
the key of the KRB-PRIV and the KRB-PRIV. -/
def authenticatedRequest (changepwKey : κ) (now : Nat) (request : List UInt8) :
    Option (Nat × VerifiedApReq κ × κ × List UInt8) := do
  let (version, apReqBytes, krbPriv) ← parseRequest request
  let apReq ← der.apReq apReqBytes
  let verified ← (verifyApReq changepwKey now apReq).toOption
  return (version, verified, verified.authenticatorSubkey.getD verified.sessionKey, krbPriv)

/-- One request: the store after it, and the reply if there is one. -/
def handleKpasswd (changepwKey : κ) (store : PrincipalStore κ) (now : Nat) (request : List UInt8) :
    PrincipalStore κ × Option (KpasswdReply κ) :=
  match authenticatedRequest der changepwKey now request with
  | none => (store, none)
  | some (version, verified, privKey, krbPriv) =>
    match applyChange lower der deriveAes256Key store privKey version krbPriv verified.clientName with
    | .ok changed => (changed, some ⟨version, privKey, kpasswdSuccess, "Password changed"⟩)
    | .error code => (store, some ⟨version, privKey, code, "Password change rejected"⟩)

/-- Requests one after the other, each with the clock reading at which it is handled. -/
def serveKpasswd (changepwKey : κ) (store : PrincipalStore κ) (requests : List (Nat × List UInt8)) :
    PrincipalStore κ :=
  requests.foldl (fun store r =>
    (handleKpasswd lower der deriveAes256Key changepwKey store r.1 r.2).1) store

/-- The client that the AP-REQ of a request authenticates. -/
def kpasswdClient (changepwKey : κ) (now : Nat) (request : List UInt8) : Option (List String) :=
  (authenticatedRequest der changepwKey now request).map (·.2.1.clientName)

/-- The target that a request to set a password names. -/
def kpasswdNamed (changepwKey : κ) (now : Nat) (request : List UInt8) : Option (List String) := do
  let (version, _, privKey, krbPriv) ← authenticatedRequest der changepwKey now request
  let userData ← (openKrbPriv der privKey krbPriv).toOption
  let (_, targetName) ← if version = versionSet then der.changePasswdData userData else none
  return (← targetName).nameString

end Server

section Target

variable {κ : Type} {lower : String → String} {der : Decoders κ}
  {deriveAes256Key : String → String → Option κ} {changepwKey : κ} {store : PrincipalStore κ}

/-- Setting a password changes what is found under the lookup key of the name only. -/
theorem PrincipalStore.get_setPassword_of_ne {target name : List String} {key : κ}
    (h : lookupKey lower target ≠ lookupKey lower name) :
    (store.setPassword lower target key).get lower name = store.get lower name := by
  simp [get, setPassword, AList.lookup_insert_ne (Ne.symm h)]

variable [DecidableEq κ]

theorem mem_toOption {ε α : Type} {x : Except ε α} {a : α} : x.toOption = some a ↔ x = .ok a := by
  cases x <;> simp [Except.toOption]

/-- The password is the client's own unless the request names a target. -/
theorem target_of_applyChange {now : Nat} {request : List UInt8} {version : Nat}
    {verified : VerifiedApReq κ} {privKey : κ} {krbPriv : List UInt8} {changed : PrincipalStore κ}
    (hreq : authenticatedRequest der changepwKey now request =
      some (version, verified, privKey, krbPriv))
    (h : applyChange lower der deriveAes256Key store privKey version krbPriv verified.clientName =
      .ok changed) :
    ∃ key, changed = store.setPassword lower
      ((kpasswdNamed der changepwKey now request).getD verified.clientName) key := by
  simp only [applyChange, bind_eq_ok, okOr_eq_ok, pure_eq_ok, Prod.exists] at h
  obtain ⟨userData, huser, password, target, htarget, key, -, rfl⟩ := h
  refine ⟨key, ?_⟩
  suffices target = (kpasswdNamed der changepwKey now request).getD verified.clientName by rw [this]
  have hopen : (openKrbPriv der privKey krbPriv).toOption = some userData := mem_toOption.mpr huser
  simp only [kpasswdNamed, hreq, hopen, Option.bind_eq_bind, Option.bind_some]
  unfold extractNewPassword at htarget
  split_ifs at htarget with hchange hset
  · simp only [bind_eq_ok, pure_eq_ok, Prod.mk.injEq] at htarget
    obtain ⟨_, _, _, rfl⟩ := htarget
    simp [hchange, versionChange, versionSet]
  · simp only [bind_eq_ok, okOr_eq_ok, pure_eq_ok, Prod.exists, Prod.mk.injEq] at htarget
    obtain ⟨newPasswd, targetName, hdata, _, _, _, rfl⟩ := htarget
    cases targetName <;> simp [hset, hdata]

/-- A request leaves every name alone but the target that it names, or else its client. -/
theorem get_handleKpasswd {now : Nat} {request : List UInt8} {name : List String}
    (h : (handleKpasswd lower der deriveAes256Key changepwKey store now request).1.get lower name ≠
      store.get lower name) :
    ∃ client, kpasswdClient der changepwKey now request = some client ∧
      lookupKey lower ((kpasswdNamed der changepwKey now request).getD client) =
        lookupKey lower name := by
  cases hreq : authenticatedRequest der changepwKey now request with
  | none => simp [handleKpasswd, hreq] at h
  | some parts =>
    obtain ⟨version, verified, privKey, krbPriv⟩ := parts
    refine ⟨verified.clientName, by simp [kpasswdClient, hreq], ?_⟩
    simp only [handleKpasswd, hreq] at h
    split at h
    · rename_i changed happly
      obtain ⟨key, rfl⟩ := target_of_applyChange hreq happly
      by_contra hne
      exact h (PrincipalStore.get_setPassword_of_ne hne)
    · exact absurd rfl h

/-- Whatever requests are handled, what the KDC finds under a name changes only through a request of
a client with this name that names no target, or through one that names it as the target. -/
theorem kpasswd_changes_target {requests : List (Nat × List UInt8)} {name : List String}
    (h : (serveKpasswd lower der deriveAes256Key changepwKey store requests).get lower name ≠
      store.get lower name) :
    ∃ r ∈ requests, ∃ client, kpasswdClient der changepwKey r.1 r.2 = some client ∧
      ((kpasswdNamed der changepwKey r.1 r.2 = none ∧ lookupKey lower client = lookupKey lower name) ∨
        ∃ target, kpasswdNamed der changepwKey r.1 r.2 = some target ∧
          lookupKey lower target = lookupKey lower name) := by
  induction requests generalizing store with
  | nil => exact absurd rfl h
  | cons r requests ih =>
    by_cases hfirst : (handleKpasswd lower der deriveAes256Key changepwKey store r.1 r.2).1.get lower
        name = store.get lower name
    · rw [← hfirst] at h
      obtain ⟨q, hq, rest⟩ := ih h
      exact ⟨q, .tail _ hq, rest⟩
    · obtain ⟨client, hclient, htarget⟩ := get_handleKpasswd hfirst
      refine ⟨r, .head _, client, hclient, ?_⟩
      cases hnamed : kpasswdNamed der changepwKey r.1 r.2 with
      | none => exact .inl ⟨rfl, by simpa [hnamed] using htarget⟩
      | some target => exact .inr ⟨target, rfl, by simpa [hnamed] using htarget⟩

end Target

section Sample

/-- One request is `[3]` for the AP-REQ and `[4]` for the KRB-PRIV, in which alice sets the password
of bob. -/
def sampleDecoders : Decoders Nat where
  apReq bytes := if bytes = [3] then some
      { ticket := ⟨"EXAMPLE.COM", ⟨ntSrvInst, ["kadmin", "changepw"]⟩, ⟨7, ticketRep, .encTicket
          { key := 8, crealm := "EXAMPLE.COM", cname := ⟨ntPrincipal, ["alice"]⟩
            authTime := some 1000, starttime := none, endtime := some 2000, pac := none }⟩⟩
        authenticator := ⟨8, apReqAuthenticator, .authenticator
          ⟨"EXAMPLE.COM", ⟨ntPrincipal, ["alice"]⟩, some 1000, none⟩⟩ }
    else none
  krbPriv bytes := if bytes = [4] then some ⟨8, krbPrivEncPart, [5]⟩ else none
  encKrbPrivPart bytes := some bytes
  changePasswdData bytes := some (bytes, some ⟨ntPrincipal, ["bob"]⟩)
  utf8 _ := some "secret"

def bobStore : PrincipalStore Nat :=
  (PrincipalStore.new "EXAMPLE.COM").addUserPrincipal Text.toAsciiLowercase "bob" 5 1001
    512 [512, 513]

def setBobRequest : List UInt8 := [0, 8, 0xff, 0x80, 0, 1, 3, 4]

def bobServed : PrincipalStore Nat :=
  serveKpasswd Text.toAsciiLowercase sampleDecoders (fun _ _ => some 99) 7 bobStore
    [(1000 * nanos, setBobRequest)]

/-- A client that authenticates as alice changes the key, the identifier and the groups of bob. -/
theorem other_password_set :
    kpasswdClient sampleDecoders 7 (1000 * nanos) setBobRequest = some ["alice"] ∧
      (bobStore.get Text.toAsciiLowercase ["bob"]).map (fun p => (p.key.key, p.rid, p.groupRids)) =
        some (5, 1001, [512, 513]) ∧
      (bobServed.get Text.toAsciiLowercase ["bob"]).map (fun p => (p.key.key, p.rid, p.groupRids)) =
        some (99, 0, [513]) := by
  decide +kernel

theorem kpasswd_changes_target_named :
    ∃ r ∈ [(1000 * nanos, setBobRequest)], ∃ client,
      kpasswdClient sampleDecoders 7 r.1 r.2 = some client ∧
      ((kpasswdNamed sampleDecoders 7 r.1 r.2 = none ∧
          lookupKey Text.toAsciiLowercase client = lookupKey Text.toAsciiLowercase ["bob"]) ∨
        ∃ target, kpasswdNamed sampleDecoders 7 r.1 r.2 = some target ∧
          lookupKey Text.toAsciiLowercase target = lookupKey Text.toAsciiLowercase ["bob"]) := by
  have changed : bobServed.get Text.toAsciiLowercase ["bob"] ≠
      bobStore.get Text.toAsciiLowercase ["bob"] := by
    intro h
    have hkey := congrArg (Option.map fun p => p.key.key) h
    exact absurd hkey (by decide +kernel)
  exact kpasswd_changes_target changed

end Sample

end Magnetite.Krb5
