import Magnetite.Krb5.Exchange

/-!
# What a service accepts

The AP-REQs that a service is sent, one after the other, as bytes with the clock reading at which
each is handled. What is checked of an AP-REQ says who sealed its ticket and its authenticator and
that the authenticator names the client and is fresh. The realm of the authenticator and the
validity of the ticket are not looked at, and no record of authenticators is kept.
-/
namespace Magnetite.Krb5

open Magnetite.Lib

section Accepted

variable {κ : Type} [DecidableEq κ]

/-- Bytes that are handled at a reading of the clock. -/
structure Arrival where
  now : Nat
  bytes : List UInt8

/-- What decoding finds in bytes: an AP-REQ, and the octets of its sealed authenticator. -/
structure ApReqDecoder (κ : Type) where
  apReq : List UInt8 → Option (ApReq κ)
  authenticator : List UInt8 → List UInt8

variable (der : ApReqDecoder κ) (serviceKey : κ)

/-- `verify_ap_req` on bytes. -/
def verifyApReqBytes (a : Arrival) : Except KdcError (VerifiedApReq κ) := do
  let apReq ← okOr (der.apReq a.bytes) .asn1
  verifyApReq serviceKey a.now apReq

def Accepted (a : Arrival) : Prop := ∃ v, verifyApReqBytes der serviceKey a = .ok v

/-- The ticket is sealed under the service's key and the authenticator under the session key in it;
the authenticator names the client of the ticket and is fresh. -/
structure Authentic (a : Arrival) (part : EncTicketPart κ) (auth : Authenticator κ) : Prop where
  sealed : ∃ apReq, der.apReq a.bytes = some apReq ∧
    apReq.ticket.encPart = ⟨serviceKey, ticketRep, .encTicket part⟩ ∧
    apReq.authenticator = ⟨part.key, apReqAuthenticator, .authenticator auth⟩
  client : auth.cname.nameString = part.cname.nameString
  fresh : withinSkew a.now auth.ctime = true

/-- A ticket is good from its start time, or else from the time of authentication, to its end. -/
def EncTicketPart.ValidAt (now : Nat) (part : EncTicketPart κ) : Prop :=
  (∃ t, part.starttime.getD part.authTime = some t ∧ t * nanos ≤ now) ∧ notExpired now part = true

/-- All that an accepted AP-REQ should be. -/
structure Proper (a : Arrival) (part : EncTicketPart κ) (auth : Authenticator κ) : Prop extends
    Authentic der serviceKey a part auth where
  realm : auth.crealm = part.crealm
  valid : part.ValidAt a.now

variable {der serviceKey}

theorem accepted_iff {a : Arrival} :
    Accepted der serviceKey a ↔ ∃ part auth, Authentic der serviceKey a part auth := by
  simp only [Accepted, verifyApReqBytes, verifyApReq, bind_eq_ok, okOr_eq_ok, ensure_eq_ok,
    pure_eq_ok, Sealed.decrypt_eq_some]
  constructor
  · rintro ⟨_, apReq, hreq, plain, hticket, part, hpart, plain', hauth, auth, hopen, _, hname, _,
      hfresh, -⟩
    obtain rfl : plain = .encTicket part := by cases plain <;> simp_all [Plain.encTicket?]
    obtain rfl : plain' = .authenticator auth := by cases plain' <;> simp_all [Plain.authenticator?]
    exact ⟨part, auth, ⟨apReq, hreq, hticket, hauth⟩, by simpa using hname, hfresh⟩
  · rintro ⟨part, auth, ⟨apReq, hreq, hticket, hauth⟩, hclient, hfresh⟩
    exact ⟨_, apReq, hreq, _, hticket, part, rfl, _, hauth, auth, rfl, (), by simpa using hclient, (),
      hfresh, rfl⟩

omit [DecidableEq κ] in
/-- What is authentic has one ticket and one authenticator. -/
theorem Authentic.unique {a : Arrival} {part part' : EncTicketPart κ} {auth auth' : Authenticator κ}
    (h : Authentic der serviceKey a part auth) (h' : Authentic der serviceKey a part' auth') :
    part = part' ∧ auth = auth' := by
  obtain ⟨apReq, hreq, hticket, hauth⟩ := h.sealed
  obtain ⟨apReq', hreq', hticket', hauth'⟩ := h'.sealed
  obtain rfl := Option.some.inj (hreq.symm.trans hreq')
  obtain rfl : part = part' := by simpa using hticket.symm.trans hticket'
  exact ⟨rfl, by simpa using hauth.symm.trans hauth'⟩

/-- Whatever a service is sent, all that it accepts is proper and no authenticator is accepted
twice, exactly if every authentic AP-REQ that it is sent names the ticket's realm in the
authenticator and comes while the ticket is valid, and no two of them have the same
authenticator. -/
theorem ap_req_sound_iff (arrivals : List Arrival) :
    ((∀ a ∈ arrivals, Accepted der serviceKey a → ∃ part auth, Proper der serviceKey a part auth) ∧
      arrivals.Pairwise fun a b => Accepted der serviceKey a → Accepted der serviceKey b →
        der.authenticator a.bytes ≠ der.authenticator b.bytes) ↔
    (∀ a ∈ arrivals, ∀ part auth, Authentic der serviceKey a part auth →
      auth.crealm = part.crealm ∧ part.ValidAt a.now) ∧
    arrivals.Pairwise fun a b => ∀ part auth part' auth', Authentic der serviceKey a part auth →
      Authentic der serviceKey b part' auth' →
        der.authenticator a.bytes ≠ der.authenticator b.bytes := by
  simp only [accepted_iff]
  refine and_congr ⟨fun h a ha part auth hauth => ?_, fun h a ha hacc => ?_⟩
    (List.Pairwise.iff fun a b => ⟨fun h part auth part' auth' ha hb => ?_, fun h ha hb => ?_⟩)
  · obtain ⟨part', auth', hproper⟩ := h a ha ⟨part, auth, hauth⟩
    obtain ⟨rfl, rfl⟩ := hauth.unique hproper.toAuthentic
    exact ⟨hproper.realm, hproper.valid⟩
  · obtain ⟨part, auth, hauth⟩ := hacc
    obtain ⟨hrealm, hvalid⟩ := h a ha part auth hauth
    exact ⟨part, auth, hauth, hrealm, hvalid⟩
  · exact h ⟨part, auth, ha⟩ ⟨part', auth', hb⟩
  · obtain ⟨part, auth, ha⟩ := ha
    obtain ⟨part', auth', hb⟩ := hb
    exact h part auth part' auth' ha hb

end Accepted

section Sample

/-- A ticket of alice that ended at 500, with an authenticator of another realm. -/
def stalePart : EncTicketPart Nat where
  key := 8
  crealm := "EXAMPLE.COM"
  cname := ⟨ntPrincipal, ["alice"]⟩
  authTime := some 100
  starttime := none
  endtime := some 500
  pac := none

def staleAuthenticator : Authenticator Nat :=
  ⟨"OTHER.ORG", ⟨ntPrincipal, ["alice"]⟩, some 1000, none⟩

def staleDecoder : ApReqDecoder Nat where
  apReq _ := some
    { ticket := ⟨"EXAMPLE.COM", ⟨ntPrincipal, ["host", "app"]⟩, ⟨3, ticketRep, .encTicket stalePart⟩⟩
      authenticator := ⟨8, apReqAuthenticator, .authenticator staleAuthenticator⟩ }
  authenticator bytes := bytes

/-- The same AP-REQ is accepted twice, after the end of its ticket and with an authenticator that
names another realm. -/
theorem stale_ap_req_accepted_twice :
    Accepted staleDecoder 3 ⟨1000 * nanos, [1]⟩ ∧ Accepted staleDecoder 3 ⟨1001 * nanos, [1]⟩ ∧
      notExpired (1000 * nanos) stalePart = false ∧
      staleAuthenticator.crealm ≠ stalePart.crealm := by
  refine ⟨accepted_iff.mpr ⟨stalePart, staleAuthenticator, ?_⟩,
    accepted_iff.mpr ⟨stalePart, staleAuthenticator, ?_⟩, by decide, by decide⟩
  · exact ⟨⟨_, rfl, rfl, rfl⟩, rfl, by decide +kernel⟩
  · exact ⟨⟨_, rfl, rfl, rfl⟩, rfl, by decide +kernel⟩

end Sample

end Magnetite.Krb5
