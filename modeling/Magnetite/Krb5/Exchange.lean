import Magnetite.Krb5.Messages
import Magnetite.Lib.Attempt

/-!
# The AS, TGS and AP exchanges

The two handlers of the KDC over decoded requests, with the clock reading (in nanoseconds) and the
fresh session key as arguments, and the check of an AP-REQ by a service.
-/
namespace Magnetite.Krb5

open Magnetite.Lib

def aes256CtsHmacSha196 : Int := 18

def maxSkewSecs : Nat := 5 * 60
def ticketLifetimeSecs : Nat := 10 * 60 * 60
def nanos : Nat := 1000000000

/-- The clock in the whole seconds a `GeneralizedTime` can hold. -/
def toGeneralized (now : Nat) : KerberosTime := some (now / nanos)

/-- The difference is cut to whole seconds towards zero before it is compared. -/
def withinSkew (now : Nat) (ts : KerberosTime) : Bool :=
  ts.any fun t => (((now : Int) - t * nanos).tdiv nanos).natAbs ≤ maxSkewSecs

section Encoding

/-- Kerberos strings are IA5 strings. -/
def kerberosString (s : String) : Except Refusal String := do
  ensure (s.toList.all (·.val < 128)) (.fault .charset)
  return s

def principalName (nameType : Int) (components : List String) : Except Refusal PrincipalName := do
  let vals ← components.mapM kerberosString
  return ⟨nameType, vals⟩

def clonePrincipalName (pn : PrincipalName) : Except Refusal PrincipalName :=
  let nameType := pn.nameType % 256
  principalName (if nameType = 0 then ntPrincipal else nameType) pn.nameString

/-- The KRB-ERROR for a code, or the encoding error met while building it. -/
def buildKrbError (realm : String) (sname : List String) (code : ErrorCode)
    (salt : Option String) : Refusal :=
  let encoded : Except Refusal KrbError := do
    let _ ← salt.toList.mapM kerberosString
    let _ ← kerberosString realm
    let _ ← principalName ntSrvInst sname
    return ⟨sname, code, salt⟩
  match encoded with
  | .ok e => .krbError e
  | .error e => e

theorem kerberosString_ok {s t : String} (h : kerberosString s = .ok t) : t = s := by
  simp only [kerberosString, bind_eq_ok, pure_eq_ok] at h
  obtain ⟨_, _, h⟩ := h
  exact h.symm

theorem mapM_kerberosString_ok {ss ts : List String} (h : ss.mapM kerberosString = .ok ts) :
    ts = ss := by
  induction ss generalizing ts with
  | nil =>
    simp only [List.mapM_nil, pure_eq_ok] at h
    exact h.symm
  | cons s ss ih =>
    simp only [List.mapM_cons, bind_eq_ok, pure_eq_ok] at h
    obtain ⟨t, ht, us, hus, rfl⟩ := h
    rw [kerberosString_ok ht, ih hus]

theorem principalName_ok {nameType : Int} {components : List String} {pn : PrincipalName}
    (h : principalName nameType components = .ok pn) : pn = ⟨nameType, components⟩ := by
  simp only [principalName, bind_eq_ok, pure_eq_ok] at h
  obtain ⟨vals, hvals, rfl⟩ := h
  rw [mapM_kerberosString_ok hvals]

theorem clonePrincipalName_ok {pn qn : PrincipalName} (h : clonePrincipalName pn = .ok qn) :
    qn.nameString = pn.nameString := by
  rw [principalName_ok h]

end Encoding

variable {κ : Type} [DecidableEq κ] (lower : String → String)

section AsExchange

def krbError (store : PrincipalStore κ) (code : ErrorCode) (salt : Option String) : Refusal :=
  buildKrbError store.realm ["krbtgt", store.realm] code salt

/-- The TGT sealed under the `krbtgt` key, and the reply part sealed under the client's key. -/
def buildAsRep (store : PrincipalStore κ) (client krbtgt : Principal κ) (now : Nat)
    (sessionKey : κ) (clientPname : PrincipalName) (nonce : Nat) : Except Refusal (KdcRep κ) := do
  let fin : KerberosTime := some (now / nanos + ticketLifetimeSecs)
  let krbtgtPname ← principalName ntSrvInst krbtgt.name
  let realm ← kerberosString store.realm
  let cname ← clonePrincipalName clientPname
  let pac : Pac :=
    { account := clientPname.nameString.head?.getD "", realm, logonTime := now / nanos
      identity := ⟨client.rid, client.primaryGroupRid, client.groupRids, store.domainSid⟩ }
  let part : EncTicketPart κ :=
    { key := sessionKey, crealm := realm, cname, authTime := toGeneralized now
      starttime := some (toGeneralized now), endtime := fin, pac := some pac }
  let ticket : Ticket κ := ⟨realm, krbtgtPname, ⟨krbtgt.key.key, ticketRep, .encTicket part⟩⟩
  let repPart : EncKdcRepPart κ :=
    { key := sessionKey, nonce, authTime := toGeneralized now
      startTime := some (toGeneralized now), endTime := fin, srealm := realm, sname := krbtgtPname }
  return ⟨realm, cname, ticket, ⟨client.key.key, asRepEnc, .encKdcRep repPart⟩⟩

def PaValue.encryptedData? : PaValue κ → Option (EncryptedData κ)
  | .encryptedData data => some data
  | _ => none

def Plain.paEncTs? : Plain κ → Option KerberosTime
  | .paEncTs ts => some ts
  | _ => none

def handleAsReq (store : PrincipalStore κ) (now : Nat) (sessionKey : κ) (req : AsReq κ) :
    Except Refusal (KdcRep κ) := do
  let cname ← okOr req.cname (.fault (.malformed "AS-REQ without cname"))
  let clientName := cname.nameString
  ensure (!clientName.isEmpty) (.fault (.malformed "empty client name"))
  ensure (req.etype.contains aes256CtsHmacSha196) (krbError store .etypeNosupp none)
  let client ← okOr (store.get lower clientName) (krbError store .cPrincipalUnknown none)
  let krbtgt ← okOr (store.krbtgt lower) (.fault (.malformed "krbtgt principal missing from store"))
  let pa ← okOr (req.padata.find? (·.padataType == paEncTimestampType))
    (krbError store .preauthRequired (some client.key.salt))
  let enc ← okOr pa.padataData.encryptedData? (.fault .asn1)
  let plain ← okOr (enc.decrypt client.key.key asReqTimestamp) (krbError store .preauthFailed none)
  let ts ← okOr plain.paEncTs? (.fault .asn1)
  ensure (withinSkew now ts) (krbError store .preauthFailed none)
  buildAsRep store client krbtgt now sessionKey cname req.nonce

/-- What a granted AS-REQ was checked for, and what it puts on the wire: a TGT that names the client
and a reply part that share the fresh key. -/
theorem handleAsReq_ok {store : PrincipalStore κ} {now : Nat} {sessionKey : κ} {req : AsReq κ}
    {rep : KdcRep κ} (h : handleAsReq lower store now sessionKey req = .ok rep) :
    ∃ cname client part repPart,
      req.cname = some cname ∧ store.get lower cname.nameString = some client ∧
      rep.ticket.encPart.plain = .encTicket part ∧ part.key = sessionKey ∧
      part.cname.nameString = cname.nameString ∧
      part.endtime = some (now / nanos + ticketLifetimeSecs) ∧
      rep.encPart.plain = .encKdcRep repPart ∧ repPart.key = sessionKey := by
  simp only [handleAsReq, buildAsRep, bind_eq_ok, okOr_eq_ok, ensure_eq_ok, pure_eq_ok] at h
  obtain ⟨cname, hcname, _, _, _, _, client, hclient, _, _, _, _, _, _, _, _, _, _, _, _, h⟩ := h
  obtain ⟨_, _, _, _, qn, hqn, rfl⟩ := h
  exact ⟨cname, client, _, _, hcname, hclient, rfl, rfl, clonePrincipalName_ok hqn, rfl, rfl, rfl⟩

end AsExchange

section TgsExchange

/-- Whether the ticket's `endtime` is still in the future. -/
def notExpired (now : Nat) (tgt : EncTicketPart κ) : Bool :=
  tgt.endtime.any fun fin => now < fin * nanos

def PaValue.apReq? : PaValue κ → Option (ApReq κ)
  | .apReq req => some req
  | _ => none

def PaValue.paForUser? : PaValue κ → Option (PaForUser κ)
  | .paForUser pfu => some pfu
  | _ => none

def Plain.encTicket? : Plain κ → Option (EncTicketPart κ)
  | .encTicket part => some part
  | _ => none

def Plain.authenticator? : Plain κ → Option (Authenticator κ)
  | .authenticator part => some part
  | _ => none

/-- The four bytes of the name type as a little-endian `i32`, the name components, the realm and
the package. -/
def s4uByteArray (name : PrincipalName) (realm authPackage : String) : List UInt8 :=
  let nameType := (name.nameType % 2 ^ 32).toNat
  let le := [nameType, nameType / 2 ^ 8, nameType / 2 ^ 16, nameType / 2 ^ 24].map UInt8.ofNat
  let text (s : String) := s.toList.flatMap String.utf8EncodeChar
  le ++ name.nameString.flatMap text ++ text realm ++ text authPackage

/-- Whether the presented checksum is one of the two kinds, keyed by the TGT session key over the
user named. -/
def PaForUser.verifies (pfu : PaForUser κ) (tgtSessionKey : κ) : Bool :=
  let s4u := s4uByteArray pfu.userName pfu.userRealm pfu.authPackage
  pfu.cksum == .aes tgtSessionKey kerbNonKerbCksumSalt s4u ||
    pfu.cksum == .hmacMd5 tgtSessionKey kerbNonKerbCksumSalt s4u

/-- The user the requester stands in for: the client of the first additional ticket, else the user
of a PA-FOR-USER, else nobody. -/
def resolveImpersonation (store : PrincipalStore κ) (req : TgsReq κ)
    (requester serviceName : List String) (tgtSessionKey : κ) :
    Except ErrorCode (Option (PrincipalName × String)) :=
  match req.additionalTickets.head? with
  | some addl => do
    let requesterPrincipal ← okOr (store.get lower requester) .sPrincipalUnknown
    let plain ← okOr (addl.encPart.decrypt requesterPrincipal.key.key ticketRep) .modified
    let addlEnc ← okOr plain.encTicket? .generic
    ensure (store.canDelegate lower requester serviceName) .badOption
    return some (addlEnc.cname, addlEnc.crealm)
  | none =>
    match req.padata.find? (·.padataType == paForUserType) with
    | some pa => do
      let pfu ← okOr pa.padataData.paForUser? .generic
      ensure (pfu.verifies tgtSessionKey) .badOption
      return some (pfu.userName, pfu.userRealm)
    | none => return none

/-- The identity of a client that is no stored principal. -/
def PacIdentity.minimal (rid : Nat) (domainSid : List Nat) : PacIdentity :=
  ⟨rid, domainUsersRid, [domainUsersRid], domainSid⟩

def resolveClientIdentity (store : PrincipalStore κ) (clientPname : PrincipalName) : PacIdentity :=
  match store.get lower clientPname.nameString with
  | some p => ⟨p.rid, p.primaryGroupRid, p.groupRids, store.domainSid⟩
  | none => .minimal 0 store.domainSid

/-- The service ticket sealed under the service's key, with the times of the TGT, and the reply
part sealed under the reply key. -/
def buildTgsRep (store : PrincipalStore κ) (service : Principal κ) (serviceName : List String)
    (clientPname : PrincipalName) (clientRealm : String) (encTgt : EncTicketPart κ)
    (replyKey : κ) (replyUsage : Nat) (nonce : Nat) (now : Nat) (sessionKey : κ) :
    Except Refusal (KdcRep κ) := do
  let client ← principalName ntPrincipal clientPname.nameString
  let servicePname ← principalName ntPrincipal serviceName
  let crealm ← kerberosString clientRealm
  let realm ← kerberosString store.realm
  let pac : Pac :=
    { account := clientPname.nameString.head?.getD "", realm, logonTime := now / nanos
      identity := resolveClientIdentity lower store clientPname }
  let part : EncTicketPart κ :=
    { key := sessionKey, crealm, cname := client, authTime := encTgt.authTime
      starttime := encTgt.starttime, endtime := encTgt.endtime, pac := some pac }
  let ticket : Ticket κ := ⟨realm, servicePname, ⟨service.key.key, ticketRep, .encTicket part⟩⟩
  let repPart : EncKdcRepPart κ :=
    { key := sessionKey, nonce, authTime := encTgt.authTime, startTime := encTgt.starttime
      endTime := encTgt.endtime, srealm := realm, sname := servicePname }
  return ⟨crealm, client, ticket, ⟨replyKey, replyUsage, .encKdcRep repPart⟩⟩

def handleTgsReq (store : PrincipalStore κ) (now : Nat) (sessionKey : κ) (req : TgsReq κ) :
    Except Refusal (KdcRep κ) := do
  let sname ← okOr req.sname (.fault (.malformed "TGS-REQ without sname"))
  let serviceName := sname.nameString
  ensure (!serviceName.isEmpty) (.fault (.malformed "empty service name"))
  let err (code : ErrorCode) : Refusal := buildKrbError store.realm serviceName code none
  ensure (req.etype.contains aes256CtsHmacSha196) (err .etypeNosupp)
  let pa ← okOr (req.padata.find? (·.padataType == paTgsReqType)) (err .padataTypeNosupp)
  let apReq ← okOr pa.padataData.apReq? (.fault .asn1)
  -- the TGT opens under the `krbtgt` key
  let krbtgt ← okOr (store.krbtgt lower) (.fault (.malformed "krbtgt principal missing"))
  let tgtPlain ← okOr (apReq.ticket.encPart.decrypt krbtgt.key.key ticketRep) (err .modified)
  let encTgt ← okOr tgtPlain.encTicket? (.fault .asn1)
  ensure (notExpired now encTgt) (err .tktExpired)
  -- the authenticator opens under the TGT's session key and names the same client
  let authPlain ← okOr (apReq.authenticator.decrypt encTgt.key tgsReqAuthenticator)
    (err .badIntegrity)
  let authenticator ← okOr authPlain.authenticator? (.fault .asn1)
  ensure (authenticator.cname.nameString == encTgt.cname.nameString &&
    authenticator.crealm == encTgt.crealm) (err .badMatch)
  ensure (withinSkew now authenticator.ctime) (err .skew)
  let service ← okOr (store.get lower serviceName) (err .sPrincipalUnknown)
  let requester := encTgt.cname.nameString
  let imp ← (resolveImpersonation lower store req requester serviceName encTgt.key).mapError err
  let (clientPname, clientRealm) := imp.getD (encTgt.cname, encTgt.crealm)
  let (replyKey, replyUsage) := match authenticator.subkey with
    | some subkey => (subkey, tgsRepEncSubKey)
    | none => (encTgt.key, tgsRepEncSessionKey)
  buildTgsRep lower store service serviceName clientPname clientRealm encTgt replyKey replyUsage
    req.nonce now sessionKey

/-- The ticket presented in the AP-REQ of a TGS-REQ. -/
def TgsReq.tgt? (req : TgsReq κ) : Option (EncryptedData κ) := do
  let pa ← req.padata.find? (·.padataType == paTgsReqType)
  let apReq ← pa.padataData.apReq?
  return apReq.ticket.encPart

/-- The contents of that ticket. -/
def TgsReq.presented? (req : TgsReq κ) : Option (EncTicketPart κ) :=
  req.tgt?.bind (·.plain.encTicket?)

/-- The user named in the PA-FOR-USER of a TGS-REQ. -/
def TgsReq.forUser? (req : TgsReq κ) : Option (PaForUser κ) := do
  let pa ← req.padata.find? (·.padataType == paForUserType)
  pa.padataData.paForUser?

/-- The client a ticket names. -/
def EncTicketPart.client (part : EncTicketPart κ) : List String × String :=
  (part.cname.nameString, part.crealm)

/-- The three ways an impersonation is resolved. -/
theorem resolveImpersonation_ok {store : PrincipalStore κ} {req : TgsReq κ}
    {requester serviceName : List String} {tgtSessionKey : κ}
    {imp : Option (PrincipalName × String)}
    (h : resolveImpersonation lower store req requester serviceName tgtSessionKey = .ok imp) :
    (∃ addl p part, req.additionalTickets.head? = some addl ∧ store.get lower requester = some p ∧
      addl.encPart = ⟨p.key.key, ticketRep, .encTicket part⟩ ∧
      store.canDelegate lower requester serviceName = true ∧
      imp = some (part.cname, part.crealm)) ∨
    (∃ pfu, req.additionalTickets.head? = none ∧ req.forUser? = some pfu ∧
      pfu.verifies tgtSessionKey = true ∧ imp = some (pfu.userName, pfu.userRealm)) ∨
    (req.additionalTickets.head? = none ∧ req.forUser? = none ∧ imp = none) := by
  unfold resolveImpersonation at h
  split at h
  case h_1 addl haddl =>
    simp only [bind_eq_ok, okOr_eq_ok, ensure_eq_ok, pure_eq_ok, Sealed.decrypt_eq_some] at h
    obtain ⟨p, hp, plain, hplain, part, hpart, _, hdel, rfl⟩ := h
    refine .inl ⟨addl, p, part, haddl, hp, ?_, hdel, rfl⟩
    cases plain <;> simp_all [Plain.encTicket?]
  case h_2 haddl =>
    split at h
    case h_1 pa hpa =>
      simp only [bind_eq_ok, okOr_eq_ok, ensure_eq_ok, pure_eq_ok] at h
      obtain ⟨pfu, hpfu, _, hsum, rfl⟩ := h
      exact .inr (.inl ⟨pfu, haddl, by simp [TgsReq.forUser?, hpa, hpfu], hsum, rfl⟩)
    case h_2 hpa =>
      rw [pure_eq_ok] at h
      exact .inr (.inr ⟨haddl, by simp [TgsReq.forUser?, hpa], h.symm⟩)

/-- What a granted TGS-REQ was checked for, and what it puts on the wire. -/
theorem handleTgsReq_ok {store : PrincipalStore κ} {now : Nat} {sessionKey : κ} {req : TgsReq κ}
    {rep : KdcRep κ} (h : handleTgsReq lower store now sessionKey req = .ok rep) :
    ∃ sname krbtgt tgt service imp part repPart,
      req.sname = some sname ∧ store.krbtgt lower = some krbtgt ∧
      req.tgt? = some ⟨krbtgt.key.key, ticketRep, .encTicket tgt⟩ ∧
      notExpired now tgt = true ∧ store.get lower sname.nameString = some service ∧
      resolveImpersonation lower store req tgt.cname.nameString sname.nameString tgt.key = .ok imp ∧
      rep.ticket.encPart = ⟨service.key.key, ticketRep, .encTicket part⟩ ∧
      part.key = sessionKey ∧
      part.client = (imp.map fun i => (i.1.nameString, i.2)).getD tgt.client ∧
      part.endtime = tgt.endtime ∧ rep.encPart.plain = .encKdcRep repPart ∧
        repPart.key = sessionKey := by
  simp only [handleTgsReq, bind_eq_ok, okOr_eq_ok, ensure_eq_ok, mapError_eq_ok,
    Sealed.decrypt_eq_some] at h
  obtain ⟨sname, hsname, _, _, _, _, pa, hpa, apReq, hap, krbtgt, hk, plain, hplain, tgt, htgt, _,
    hexp, _, _, authenticator, _, _, _, _, _, service, hservice, imp, himp, h⟩ := h
  simp only [buildTgsRep, bind_eq_ok, pure_eq_ok] at h
  obtain ⟨client, hclient, _, _, crealm, hcrealm, _, _, rfl⟩ := h
  have hopen : plain = .encTicket tgt := by
    cases plain <;> simp_all [Plain.encTicket?]
  subst hopen
  refine ⟨sname, krbtgt, tgt, service, imp, _, _, hsname, hk, ?_, hexp, hservice, himp, rfl, rfl,
    ?_, rfl, rfl, rfl⟩
  · simp [TgsReq.tgt?, hpa, hap, hplain]
  · rw [principalName_ok hclient, kerberosString_ok hcrealm]
    cases imp <;> rfl

end TgsExchange

section ApExchange

/-- What a service learns from an AP-REQ. The microseconds, which go back in the AP-REP, are left
out. -/
structure VerifiedApReq (κ : Type) where
  clientName : List String
  clientRealm : String
  sessionKey : κ
  authenticatorSubkey : Option κ
  ctime : KerberosTime

/-- The ticket opens under the key of the service, and the authenticator under the session key in
it; the authenticator names the client of the ticket and is fresh. The end of the ticket is not
looked at. -/
def verifyApReq (serviceKey : κ) (now : Nat) (apReq : ApReq κ) :
    Except KdcError (VerifiedApReq κ) := do
  let ticketPlain ← okOr (apReq.ticket.encPart.decrypt serviceKey ticketRep) .crypto
  let encTicket ← okOr ticketPlain.encTicket? .asn1
  let authPlain ← okOr (apReq.authenticator.decrypt encTicket.key apReqAuthenticator) .crypto
  let authenticator ← okOr authPlain.authenticator? .asn1
  ensure (authenticator.cname.nameString == encTicket.cname.nameString)
    (.malformed "AP-REQ authenticator/ticket client mismatch")
  ensure (withinSkew now authenticator.ctime)
    (.malformed "AP-REQ authenticator timestamp outside clock skew")
  return { clientName := encTicket.cname.nameString, clientRealm := encTicket.crealm
           sessionKey := encTicket.key, authenticatorSubkey := authenticator.subkey
           ctime := authenticator.ctime }

end ApExchange

end Magnetite.Krb5
