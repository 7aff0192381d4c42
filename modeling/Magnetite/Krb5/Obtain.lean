import Magnetite.Krb5.Exchange

/-!
# Obtaining tickets

The requests with which a client that knows a principal's key obtains a TGT, and with it a service
ticket. They are granted as soon as the store finds the principal, and a TGT is granted only to
whoever has the key.
-/
namespace Magnetite.Krb5

open Magnetite.Lib

/-- A name that can be written in a message. -/
def Encodable (name : List String) : Prop :=
  name ≠ [] ∧ ∀ c ∈ name, c.toList.all (·.val < 128) = true

instance (name : List String) : Decidable (Encodable name) := inferInstanceAs (Decidable (_ ∧ _))

theorem kerberosString_eq {s : String} (h : s.toList.all (·.val < 128) = true) :
    kerberosString s = .ok s := by
  simp only [kerberosString, h]
  rfl

theorem mapM_kerberosString_eq {name : List String}
    (h : ∀ c ∈ name, c.toList.all (·.val < 128) = true) : name.mapM kerberosString = .ok name := by
  induction name with
  | nil => rfl
  | cons c name ih =>
    rw [List.forall_mem_cons] at h
    rw [List.mapM_cons, kerberosString_eq h.1, ih h.2]
    rfl

theorem principalName_eq (nameType : Int) {name : List String} (h : Encodable name) :
    principalName nameType name = .ok ⟨nameType, name⟩ := by
  rw [principalName, mapM_kerberosString_eq h.2]
  rfl

theorem sub_div_mul_tdiv (a : Nat) {n : Nat} (hn : 0 < n) :
    ((a : Int) - (a / n : Nat) * n).tdiv n = 0 := by
  have hmod : (a : Int) - (a / n : Nat) * n = (a % n : Nat) := by
    rw [Int.natCast_mod, Int.emod_def, Int.natCast_div, mul_comm]
  rw [hmod]
  exact Int.tdiv_eq_zero_of_lt (Int.natCast_nonneg _) (by exact_mod_cast Nat.mod_lt a hn)

theorem any_natCast (p : Int → Bool) (k : Nat) :
    Option.any p (do let a ← some k; pure (a : Int)) = p k :=
  rfl

/-- A timestamp made now is fresh. -/
theorem withinSkew_self (now : Nat) : withinSkew now (toGeneralized now) = true := by
  rw [toGeneralized, withinSkew, any_natCast, decide_eq_true_eq,
    sub_div_mul_tdiv now (by decide : 0 < nanos)]
  exact Nat.zero_le _

section Logon

variable {κ : Type} [DecidableEq κ] {lower : String → String} {store : PrincipalStore κ}

/-- The request for a TGT with a key. -/
def logon (name : List String) (key : κ) (now nonce : Nat) : AsReq κ where
  padata := [⟨paEncTimestampType,
    .encryptedData ⟨key, asReqTimestamp, .paEncTs (toGeneralized now)⟩⟩]
  cname := some ⟨ntPrincipal, name⟩
  etype := [aes256CtsHmacSha196]
  nonce := nonce

/-- The store serves its realm. -/
structure Serving (lower : String → String) (store : PrincipalStore κ) (krbtgt : Principal κ) :
    Prop where
  realm : store.realm.toList.all (·.val < 128) = true
  name : Encodable krbtgt.name
  found : store.krbtgt lower = some krbtgt

/-- Whoever has the key of a principal that is found obtains a TGT with its identity. -/
theorem handleAsReq_logon {krbtgt p : Principal κ} (serving : Serving lower store krbtgt)
    {name : List String} (hname : Encodable name) (hp : store.get lower name = some p)
    (now nonce : Nat) (sessionKey : κ) :
    ∃ rep part, handleAsReq lower store now sessionKey (logon name p.key.key now nonce) = .ok rep ∧
      rep.ticket.encPart = ⟨krbtgt.key.key, ticketRep, .encTicket part⟩ ∧
      part.key = sessionKey ∧ part.client = (name, store.realm) ∧
      part.endtime = some (now / nanos + ticketLifetimeSecs) := by
  have hclone : clonePrincipalName ⟨ntPrincipal, name⟩ = .ok ⟨ntPrincipal, name⟩ :=
    principalName_eq ntPrincipal hname
  simp only [handleAsReq, buildAsRep, bind_eq_ok, okOr_eq_ok, ensure_eq_ok, pure_eq_ok]
  exact ⟨_, _, ⟨_, rfl, (), by simpa using hname.1, (), by simp [logon], p, hp, krbtgt, serving.found,
    _, rfl, _, rfl, _, Sealed.decrypt_eq_some.mpr rfl, _, rfl, (), withinSkew_self now, _,
    principalName_eq _ serving.name, _, kerberosString_eq serving.realm, _, hclone, rfl⟩,
    rfl, rfl, rfl, rfl⟩

/-- A TGT is granted for a timestamp that the principal's own key seals. -/
theorem handleAsReq_key {now : Nat} {sessionKey : κ} {req : AsReq κ} {rep : KdcRep κ}
    (h : handleAsReq lower store now sessionKey req = .ok rep) :
    ∃ cname p, req.cname = some cname ∧ store.get lower cname.nameString = some p ∧
      ∃ pa ∈ req.padata, ∃ ts, pa.padataData =
        .encryptedData ⟨p.key.key, asReqTimestamp, .paEncTs ts⟩ := by
  simp only [handleAsReq, bind_eq_ok, okOr_eq_ok, ensure_eq_ok] at h
  obtain ⟨cname, hcname, _, _, _, _, p, hp, _, _, pa, hpa, enc, henc, plain, hplain, ts, hts, -⟩ := h
  refine ⟨cname, p, hcname, hp, pa, List.mem_of_find?_eq_some hpa, ts, ?_⟩
  rw [Sealed.decrypt_eq_some] at hplain
  subst hplain
  cases hdata : pa.padataData with
  | encryptedData data =>
    obtain rfl : data = _ := by simpa [PaValue.encryptedData?, hdata] using henc
    cases plain <;> simp_all [Plain.paEncTs?]
  | apReq | paForUser | octets => simp [PaValue.encryptedData?, hdata] at henc

/-- The request for a ticket to a service with a TGT. -/
def serviceRequest (tgt : Ticket κ) (part : EncTicketPart κ) (service : List String)
    (now nonce : Nat) : TgsReq κ where
  padata := [⟨paTgsReqType, .apReq ⟨tgt, ⟨part.key, tgsReqAuthenticator,
    .authenticator ⟨part.crealm, part.cname, toGeneralized now, none⟩⟩⟩⟩]
  sname := some ⟨ntPrincipal, service⟩
  etype := [aes256CtsHmacSha196]
  nonce := nonce
  additionalTickets := []

/-- Whoever has a TGT and its key obtains a ticket to every service that is found. -/
theorem handleTgsReq_service {krbtgt service : Principal κ} (serving : Serving lower store krbtgt)
    {name : List String} (hname : Encodable name) (hservice : store.get lower name = some service)
    {tgt : Ticket κ} {part : EncTicketPart κ}
    (htgt : tgt.encPart = ⟨krbtgt.key.key, ticketRep, .encTicket part⟩)
    (hclient : Encodable part.cname.nameString)
    (hrealm : part.crealm.toList.all (·.val < 128) = true) {now : Nat}
    (hlive : notExpired now part = true) (nonce : Nat) (sessionKey : κ) :
    ∃ rep, handleTgsReq lower store now sessionKey (serviceRequest tgt part name now nonce) =
      .ok rep := by
  simp only [handleTgsReq, buildTgsRep, bind_eq_ok, okOr_eq_ok, ensure_eq_ok, pure_eq_ok,
    mapError_eq_ok]
  exact ⟨_, _, rfl, (), by simpa using hname.1, (), by simp [serviceRequest], _, rfl, _, rfl, krbtgt,
    serving.found, _, Sealed.decrypt_eq_some.mpr htgt, part, rfl, (), hlive, _,
    Sealed.decrypt_eq_some.mpr rfl, _, rfl, (), by simp, (), withinSkew_self now, service, hservice,
    none, rfl, _, principalName_eq _ hclient, _, principalName_eq _ hname, _,
    kerberosString_eq hrealm, _, kerberosString_eq serving.realm, rfl⟩

end Logon

end Magnetite.Krb5
