import Magnetite.Krb5.Exchange
import Magnetite.Lib.History

/-!
# Who may be impersonated

A party that has some keys sends AS and TGS requests to the KDC in any order, made from what it
knows and from the replies it has received. The KDC may issue a ticket that names another client
than the TGT presented in two cases: the ticket is for the requester itself (S4U2Self), or the
requester may delegate to the service and has shown a ticket to itself for that client (S4U2Proxy).
-/
namespace Magnetite.Krb5

open Magnetite.Lib

variable {κ : Type} [DecidableEq κ]

section Run

/-- A request, with the clock reading and the fresh session key it is answered with. -/
inductive Request (κ : Type) where
  | as (req : AsReq κ)
  | tgs (req : TgsReq κ)

structure Exchange (κ : Type) where
  request : Request κ
  now : Nat
  sessionKey : κ

def PaValue.ciphers : PaValue κ → List (EncryptedData κ)
  | .encryptedData data => [data]
  | .apReq req => [req.ticket.encPart, req.authenticator]
  | .paForUser _ | .octets _ => []

def PaValue.checksumKeys : PaValue κ → List κ
  | .paForUser ⟨_, _, .aes key _ _, _⟩ | .paForUser ⟨_, _, .hmacMd5 key _ _, _⟩ => [key]
  | .paForUser ⟨_, _, .octets _, _⟩ | .encryptedData _ | .apReq _ | .octets _ => []

def Request.padata : Request κ → List (PaData κ)
  | .as req => req.padata
  | .tgs req => req.padata

def Request.additionalTickets : Request κ → List (Ticket κ)
  | .as _ => []
  | .tgs req => req.additionalTickets

/-- The ciphertexts of a request. -/
def Request.ciphers (request : Request κ) : List (EncryptedData κ) :=
  request.padata.flatMap (·.padataData.ciphers) ++ request.additionalTickets.map (·.encPart)

/-- The keys of the checksums of a request. -/
def Request.checksumKeys (request : Request κ) : List κ :=
  request.padata.flatMap (·.padataData.checksumKeys)

/-- A TGS-REQ that was granted, with its reply and the replies sent before it. -/
structure Grant (κ : Type) where
  req : TgsReq κ
  rep : KdcRep κ
  earlier : List (KdcRep κ)

/-- The replies received, the session keys drawn and the service tickets granted, latest first. -/
structure History (κ : Type) where
  replies : List (KdcRep κ)
  sessionKeys : List κ
  granted : List (Grant κ)

def History.start : History κ := ⟨[], [], []⟩

def History.seen (s : History κ) : List (EncryptedData κ) :=
  s.replies.flatMap fun rep => [rep.ticket.encPart, rep.encPart]

variable (lower : String → String) (own : Set κ) (store : PrincipalStore κ)

def Exchange.answer (e : Exchange κ) : Except Refusal (KdcRep κ) :=
  match e.request with
  | .as req => handleAsReq lower store e.now e.sessionKey req
  | .tgs req => handleTgsReq lower store e.now e.sessionKey req

/-- The party can make the request from what it has. -/
structure Sendable (s : History κ) (request : Request κ) : Prop where
  cipher : ∀ c ∈ request.ciphers, CanSend Plain.keys own s.seen c
  checksum : ∀ k ∈ request.checksumKeys, Knows Plain.keys own s.seen k

/-- A drawn key is no key in use. -/
structure Fresh (s : History κ) (k : κ) : Prop where
  drawn : k ∉ s.sessionKeys
  own : k ∉ own
  store : ∀ name p, store.get lower name = some p → p.key.key ≠ k

def Request.grants (rep : KdcRep κ) (earlier : List (KdcRep κ)) : Request κ → List (Grant κ)
  | .as _ => []
  | .tgs req => [⟨req, rep, earlier⟩]

def History.after (s : History κ) (e : Exchange κ) : History κ :=
  match e.answer lower store with
  | .ok rep =>
    { replies := rep :: s.replies
      sessionKeys := e.sessionKey :: s.sessionKeys
      granted := e.request.grants rep s.replies ++ s.granted }
  | .error _ => { s with sessionKeys := e.sessionKey :: s.sessionKeys }

structure Exchanged (s : History κ) (e : Exchange κ) (t : History κ) : Prop where
  sendable : Sendable own s e.request
  fresh : Fresh lower own store s e.sessionKey
  after : t = s.after lower store e

end Run

section Provenance

variable {lower : String → String} {own : Set κ} {store : PrincipalStore κ}

/-- What holds of everything the KDC has sent: a ticket and a reply part around one drawn key, and
no drawn key is a long-term key. -/
structure Sent (lower : String → String) (store : PrincipalStore κ) (s : History κ) : Prop where
  replies : ∀ rep ∈ s.replies, ∃ part repPart, rep.ticket.encPart.plain = .encTicket part ∧
    rep.encPart.plain = .encKdcRep repPart ∧ part.key ∈ s.sessionKeys ∧ repPart.key ∈ s.sessionKeys
  drawn : ∀ name p, store.get lower name = some p → p.key.key ∉ s.sessionKeys

theorem Exchange.answer_ok {e : Exchange κ} {rep : KdcRep κ} (h : e.answer lower store = .ok rep) :
    ∃ part repPart, rep.ticket.encPart.plain = .encTicket part ∧
      rep.encPart.plain = .encKdcRep repPart ∧ part.key = e.sessionKey ∧
      repPart.key = e.sessionKey := by
  obtain ⟨request, now, k⟩ := e
  cases request with
  | as req =>
    obtain ⟨_, _, part, repPart, _, _, hp, hk, _, _, hr, hrk⟩ := handleAsReq_ok lower h
    exact ⟨part, repPart, hp, hr, hk, hrk⟩
  | tgs req =>
    obtain ⟨_, _, _, _, _, part, repPart, _, _, _, _, _, _, hp, hk, _, _, hr, hrk⟩ :=
      handleTgsReq_ok lower h
    exact ⟨part, repPart, by rw [hp], hr, hk, hrk⟩

theorem Sent.step {s t : History κ} {e : Exchange κ} (sent : Sent lower store s)
    (step : Exchanged lower own store s e t) : Sent lower store t := by
  have old : ∀ rep ∈ s.replies, ∃ part repPart, rep.ticket.encPart.plain = .encTicket part ∧
      rep.encPart.plain = .encKdcRep repPart ∧ part.key ∈ e.sessionKey :: s.sessionKeys ∧
      repPart.key ∈ e.sessionKey :: s.sessionKeys := by
    intro rep hrep
    obtain ⟨part, repPart, hp, hr, hk, hrk⟩ := sent.replies rep hrep
    exact ⟨part, repPart, hp, hr, .tail _ hk, .tail _ hrk⟩
  have drawn : ∀ name p, store.get lower name = some p →
      p.key.key ∉ e.sessionKey :: s.sessionKeys := by
    intro name p hp
    simpa using ⟨step.fresh.store name p hp, sent.drawn name p hp⟩
  rw [step.after, History.after]
  split
  case h_1 rep hrep =>
    refine ⟨?_, drawn⟩
    rintro rep' (_ | ⟨_, hmem⟩)
    · obtain ⟨part, repPart, hp, hr, hk, hrk⟩ := Exchange.answer_ok hrep
      exact ⟨part, repPart, hp, hr, by simp [hk], by simp [hrk]⟩
    · exact old rep' hmem
  case h_2 => exact ⟨old, drawn⟩

omit [DecidableEq κ] in
theorem Sent.start : Sent lower store .start :=
  ⟨by simp [History.start], by simp [History.start]⟩

omit [DecidableEq κ] in
/-- The long-term keys the party has are those it started with. -/
theorem Sent.own_of_knows {s : History κ} (sent : Sent lower store s) {name : List String}
    {p : Principal κ} (hp : store.get lower name = some p)
    (known : Knows Plain.keys own s.seen p.key.key) : p.key.key ∈ own := by
  apply known.mem_own
  intro c hc
  simp only [History.seen, List.mem_flatMap, List.mem_cons, List.not_mem_nil, or_false] at hc
  obtain ⟨rep, hrep, hc⟩ := hc
  obtain ⟨part, repPart, hpart, hrepPart, hk, hrk⟩ := sent.replies rep hrep
  have hdrawn := sent.drawn name p hp
  rcases hc with rfl | rfl
  · rw [hpart, Plain.keys, List.mem_singleton]
    grind
  · rw [hrepPart, Plain.keys, List.mem_singleton]
    grind

omit [DecidableEq κ] in
/-- A ticket the party presents under a stored key is one the KDC issued before, unless the party
started with that key. -/
theorem Sent.issued_or_own {s : History κ} (sent : Sent lower store s) {name : List String}
    {p : Principal κ} (hp : store.get lower name = some p) {part : EncTicketPart κ}
    (send : CanSend Plain.keys own s.seen ⟨p.key.key, ticketRep, .encTicket part⟩) :
    (∃ rep ∈ s.replies, rep.ticket.encPart = ⟨p.key.key, ticketRep, .encTicket part⟩) ∨
      p.key.key ∈ own := by
  by_cases known : Knows Plain.keys own s.seen p.key.key
  · exact .inr (sent.own_of_knows hp known)
  · have hseen := send.seen_of_unknown known
    simp only [History.seen, List.mem_flatMap, List.mem_cons, List.not_mem_nil, or_false] at hseen
    obtain ⟨rep, hrep, hticket | hpart⟩ := hseen
    · exact .inl ⟨rep, hrep, hticket.symm⟩
    · obtain ⟨_, _, _, hplain, _, _⟩ := sent.replies rep hrep
      simp [← hpart] at hplain

end Provenance

section Soundness

variable (lower : String → String) (own : Set κ) (store : PrincipalStore κ)

/-- Two names of one principal. -/
def SamePrincipal (a b : List String) : Prop := lookupKey lower a = lookupKey lower b

instance (a b : List String) : Decidable (SamePrincipal lower a b) :=
  inferInstanceAs (Decidable (lookupKey lower a = lookupKey lower b))

/-- The requester has shown a ticket to itself that names the client: one the KDC issued before,
or one that a party with the requester's own key has sealed. -/
def ShownTicket (earlier : List (KdcRep κ)) (req : TgsReq κ) (requester : List String)
    (client : List String × String) : Prop :=
  ∃ addl ∈ req.additionalTickets, ∃ p part, store.get lower requester = some p ∧
    addl.encPart = ⟨p.key.key, ticketRep, .encTicket part⟩ ∧ part.client = client ∧
    ((∃ rep ∈ earlier, rep.ticket.encPart = addl.encPart) ∨ p.key.key ∈ own)

/-- The ticket granted names the client of the TGT, or the requester may stand in for the client
it names. -/
def Grant.Sound (g : Grant κ) : Prop :=
  ∀ sname tgt part, g.req.sname = some sname → g.req.presented? = some tgt →
    g.rep.ticket.encPart.plain = .encTicket part → part.client ≠ tgt.client →
      SamePrincipal lower sname.nameString tgt.cname.nameString ∨
      (store.canDelegate lower tgt.cname.nameString sname.nameString = true ∧
        ShownTicket lower own store g.earlier g.req tgt.cname.nameString part.client)

/-- A request that asks by PA-FOR-USER alone for another user's ticket asks for a ticket to the
requester. -/
def SelfServed (req : TgsReq κ) : Prop :=
  ∀ sname tgt pfu, req.additionalTickets = [] → req.sname = some sname →
    req.presented? = some tgt → req.forUser? = some pfu →
    (pfu.userName.nameString, pfu.userRealm) ≠ tgt.client →
      SamePrincipal lower sname.nameString tgt.cname.nameString

variable {lower own store}

omit [DecidableEq κ] in
/-- The additional ticket of a request that the party can send is a ticket shown. -/
theorem ShownTicket.of_sendable {s : History κ} (sent : Sent lower store s) {req : TgsReq κ}
    (sendable : Sendable own s (.tgs req)) {requester : List String} {p : Principal κ}
    {addl : Ticket κ} {part : EncTicketPart κ} (haddl : addl ∈ req.additionalTickets)
    (hp : store.get lower requester = some p)
    (hpart : addl.encPart = ⟨p.key.key, ticketRep, .encTicket part⟩) :
    ShownTicket lower own store s.replies req requester part.client := by
  refine ⟨addl, haddl, p, part, hp, hpart, rfl, ?_⟩
  have hmem : addl.encPart ∈ (Request.tgs req).ciphers :=
    List.mem_append_right _ (List.mem_map_of_mem haddl)
  rw [hpart]
  exact sent.issued_or_own hp (hpart ▸ sendable.cipher _ hmem)

/-- One granted request: the ticket keeps the impersonation rules exactly when the request is not a
PA-FOR-USER request for a ticket to somebody else than the requester. -/
theorem sound_iff_of_granted {s : History κ} (sent : Sent lower store s) {req : TgsReq κ}
    {rep : KdcRep κ} {now : Nat} {sessionKey : κ} (sendable : Sendable own s (.tgs req))
    (granted : handleTgsReq lower store now sessionKey req = .ok rep) :
    Grant.Sound lower own store ⟨req, rep, s.replies⟩ ↔ SelfServed lower req := by
  obtain ⟨sname, krbtgt, tgt, service, imp, part, _, hsname, _, htgt, _, _, himp, hticket, _,
    hclient, _, _, _⟩ := handleTgsReq_ok lower granted
  have hpresented : req.presented? = some tgt := by
    simp [TgsReq.presented?, htgt, Plain.encTicket?]
  have hpart : rep.ticket.encPart.plain = .encTicket part := by rw [hticket]
  constructor
  · intro sound sname' tgt' pfu hnone hsname' htgt' hpfu hother
    obtain rfl : sname = sname' := by simpa [hsname] using hsname'
    obtain rfl : tgt = tgt' := by simpa [hpresented] using htgt'
    -- with no additional ticket the user of the PA-FOR-USER is the client of the ticket
    rcases resolveImpersonation_ok lower himp with ⟨addl, _, _, haddl, _⟩ | ⟨pfu', _, hpfu', _, rfl⟩
      | ⟨_, hpfu', _⟩
    · simp [hnone] at haddl
    · obtain rfl : pfu = pfu' := by simpa [hpfu] using hpfu'
      rcases sound sname tgt part hsname hpresented hpart (by rw [hclient]; exact hother) with
        hself | ⟨_, addl, haddl, _⟩
      · exact hself
      · simp [hnone] at haddl
    · simp [hpfu] at hpfu'
  · intro served sname' tgt' part' hsname' htgt' hpart' hother
    obtain rfl : sname = sname' := by simpa [hsname] using hsname'
    obtain rfl : tgt = tgt' := by simpa [hpresented] using htgt'
    obtain rfl : part = part' := by simpa [hpart] using hpart'
    rw [hclient] at hother
    rcases resolveImpersonation_ok lower himp with ⟨addl, p, e, haddl, hp, he, hdel, rfl⟩ |
      ⟨pfu, hnone, hpfu, _, rfl⟩ | ⟨_, _, rfl⟩
    · refine .inr ⟨hdel, ?_⟩
      rw [hclient]
      exact ShownTicket.of_sendable sent sendable (List.mem_of_head? haddl) hp he
    · exact .inl (served sname tgt pfu (List.head?_eq_none_iff.mp hnone) hsname hpresented hpfu
        hother)
    · exact absurd rfl hother

theorem sound_iff_step {s t : History κ} {e : Exchange κ} (sent : Sent lower store s)
    (each : ∀ g ∈ s.granted, Grant.Sound lower own store g ↔ SelfServed lower g.req)
    (step : Exchanged lower own store s e t) :
    ∀ g ∈ t.granted, Grant.Sound lower own store g ↔ SelfServed lower g.req := by
  obtain ⟨sendable, _, rfl⟩ := step
  rw [History.after]
  split
  case h_1 rep hrep =>
    intro g hg
    rcases List.mem_append.mp hg with hnew | hold
    · obtain ⟨request, now, k⟩ := e
      cases request with
      | as req => simp [Request.grants] at hnew
      | tgs req =>
        obtain rfl : g = ⟨req, rep, s.replies⟩ := by simpa [Request.grants] using hnew
        exact sound_iff_of_granted sent sendable hrep
    · exact each g hold
  case h_2 => exact each

/-- In every run, all the service tickets granted keep the impersonation rules exactly when no
granted request was a PA-FOR-USER request for a ticket to somebody else than the requester. -/
theorem impersonation_sound_iff {events : List (Exchange κ)} {s : History κ}
    (run : Run (Exchanged lower own store) .start events s) :
    (∀ g ∈ s.granted, Grant.Sound lower own store g) ↔
      ∀ g ∈ s.granted, SelfServed lower g.req := by
  have inv := run.invariant
    (fun s => Sent lower store s ∧
      ∀ g ∈ s.granted, Grant.Sound lower own store g ↔ SelfServed lower g.req)
    (fun _ _ _ h step => ⟨h.1.step step, sound_iff_step h.1 h.2 step⟩)
    ⟨Sent.start, by simp [History.start]⟩
  exact forall₂_congr inv.2

end Soundness

section Lifetimes

variable (lower : String → String) (store : PrincipalStore κ) in
/-- The exchange is a granted login, and the ticket ends when it said. -/
def Exchange.Dates (login : Exchange κ) (ticket : Ticket κ) : Prop :=
  (∃ req rep, login.request = .as req ∧ login.answer lower store = .ok rep) ∧
    ∃ part, ticket.encPart.plain = .encTicket part ∧
      part.endtime = some (login.now / nanos + ticketLifetimeSecs)

variable (lower : String → String) (store : PrincipalStore κ) in
/-- Every ticket sent ends when one of the logins said. -/
def History.Dated (past : List (Exchange κ)) (s : History κ) : Prop :=
  ∀ rep ∈ s.replies, ∃ login ∈ past, login.Dates lower store rep.ticket

variable {lower : String → String} {own : Set κ} {store : PrincipalStore κ} {krbtgt : Principal κ}
  {past future : List (Exchange κ)} {s : History κ} {rep : KdcRep κ} {req : TgsReq κ}

omit [DecidableEq κ] in
theorem TgsReq.tgt?_mem_ciphers {c : EncryptedData κ} (h : req.tgt? = some c) :
    c ∈ (Request.tgs req).ciphers := by
  simp only [TgsReq.tgt?, Option.bind_eq_bind, Option.bind_eq_some_iff, Option.pure_def,
    Option.some.injEq] at h
  obtain ⟨pa, hpa, apReq, hap, rfl⟩ := h
  refine List.mem_append_left _ (List.mem_flatMap.mpr ⟨pa, List.mem_of_find?_eq_some hpa, ?_⟩)
  cases hdata : pa.padataData <;> simp_all [PaValue.apReq?, PaValue.ciphers]

/-- A granted TGS-REQ shows a TGT that has not ended, and what is granted ends with it. -/
theorem dates_of_granted (hk : store.krbtgt lower = some krbtgt) (secret : krbtgt.key.key ∉ own)
    (sent : Sent lower store s) (dated : s.Dated lower store past)
    (sendable : Sendable own s (.tgs req)) {now : Nat} {sessionKey : κ}
    (granted : handleTgsReq lower store now sessionKey req = .ok rep) :
    ∃ login ∈ past, login.Dates lower store rep.ticket ∧
      now < (login.now / nanos + ticketLifetimeSecs) * nanos := by
  obtain ⟨_, krbtgt', tgt, _, _, part, _, _, hk', htgt, hlive, _, _, hticket, _, _, hend, _, _⟩ :=
    handleTgsReq_ok lower granted
  obtain rfl : krbtgt = krbtgt' := Option.some.inj (hk.symm.trans hk')
  obtain ⟨rep', hrep', hissued⟩ := (sent.issued_or_own hk
    (sendable.cipher _ (TgsReq.tgt?_mem_ciphers htgt))).resolve_right secret
  obtain ⟨login, hlogin, hgranted, tgt', htgt', hend'⟩ := dated rep' hrep'
  obtain rfl : tgt = tgt' := by simpa [hissued] using htgt'
  refine ⟨login, hlogin, ⟨hgranted, part, by rw [hticket], hend.trans hend'⟩, ?_⟩
  rwa [notExpired, hend', Option.any_some, decide_eq_true_eq] at hlive

theorem dated_of_run (hk : store.krbtgt lower = some krbtgt) (secret : krbtgt.key.key ∉ own)
    (run : Run (Exchanged lower own store) .start past s) :
    Sent lower store s ∧ s.Dated lower store past := by
  refine Run.induction_last (P := fun past s => Sent lower store s ∧ s.Dated lower store past)
    ⟨.start, by simp [History.Dated, History.start]⟩ ?_ run
  intro past s e t _ ⟨sent, dated⟩ step
  refine ⟨sent.step step, ?_⟩
  have old : s.Dated lower store (past ++ [e]) := fun rep hrep =>
    (dated rep hrep).imp fun _ h => ⟨List.mem_append_left _ h.1, h.2⟩
  rw [step.after, History.after]
  split
  case h_1 rep hrep =>
    rintro rep' (_ | ⟨_, hmem⟩)
    · obtain ⟨request, now, k⟩ := e
      cases request with
      | as req =>
        obtain ⟨_, _, part, _, _, _, hpart, _, _, hend, _, _⟩ := handleAsReq_ok lower hrep
        exact ⟨_, List.mem_concat_self, ⟨req, rep, rfl, hrep⟩, part, hpart, hend⟩
      | tgs req =>
        obtain ⟨login, hlogin, hdates, _⟩ :=
          dates_of_granted hk secret sent dated step.sendable hrep
        exact ⟨login, List.mem_append_left _ hlogin, hdates⟩
    · exact old rep' hmem
  case h_2 => exact old

/-- Tickets are never prolonged: what the TGS grants comes after a login, within ten hours of it,
and ends when the login said, along every chain of tickets. -/
theorem lifetimes_kept (hk : store.krbtgt lower = some krbtgt) (secret : krbtgt.key.key ∉ own)
    {now : Nat} {k : κ}
    (run : Run (Exchanged lower own store) .start (past ++ ⟨.tgs req, now, k⟩ :: future) s)
    (granted : handleTgsReq lower store now k req = .ok rep) :
    ∃ login ∈ past, login.Dates lower store rep.ticket ∧
      now < login.now + ticketLifetimeSecs * nanos := by
  obtain ⟨s, _, before, step, _⟩ := run.split_at
  obtain ⟨sent, dated⟩ := dated_of_run hk secret before
  obtain ⟨login, hlogin, hdates, hnow⟩ :=
    dates_of_granted hk secret sent dated step.sendable granted
  refine ⟨login, hlogin, hdates, hnow.trans_le ?_⟩
  rw [Nat.add_mul]
  exact Nat.add_le_add_right (Nat.div_mul_le_self _ _) _

end Lifetimes

section Sample

/-- A realm with a user, the ticket-granting service and one host. -/
def sampleStore : PrincipalStore Nat :=
  (((PrincipalStore.new "EXAMPLE.COM").addKeyPrincipal Text.toAsciiLowercase ["alice"] 1
    ).addKeyPrincipal Text.toAsciiLowercase ["krbtgt", "EXAMPLE.COM"] 2
    ).addKeyPrincipal Text.toAsciiLowercase ["host", "app.example.com"] 3

/-- The user logs in with its own key, the only one the party has. -/
def sampleLogin : Exchange Nat where
  request := .as
    { padata := [⟨paEncTimestampType, .encryptedData ⟨1, asReqTimestamp, .paEncTs (some 1000)⟩⟩]
      cname := some ⟨ntPrincipal, ["alice"]⟩, etype := [18], nonce := 7 }
  now := 1000 * nanos
  sessionKey := 10

def sampleTgt : EncTicketPart Nat where
  key := 10
  crealm := "EXAMPLE.COM"
  cname := ⟨ntPrincipal, ["alice"]⟩
  authTime := some 1000
  starttime := some (some 1000)
  endtime := some 37000
  pac := some ⟨"alice", "EXAMPLE.COM", 1000, 0, 513, [513], [21, 1, 2, 3]⟩

def sampleLoginReply : KdcRep Nat where
  crealm := "EXAMPLE.COM"
  cname := ⟨ntPrincipal, ["alice"]⟩
  ticket := ⟨"EXAMPLE.COM", ⟨ntSrvInst, ["krbtgt", "EXAMPLE.COM"]⟩,
    ⟨2, ticketRep, .encTicket sampleTgt⟩⟩
  encPart := ⟨1, asRepEnc, .encKdcRep ⟨10, 7, some 1000, some (some 1000), some 37000, "EXAMPLE.COM",
    ⟨ntSrvInst, ["krbtgt", "EXAMPLE.COM"]⟩⟩⟩

/-- With that TGT the party asks for a ticket to the host, for the user `administrator`. -/
def sampleRequest : TgsReq Nat where
  padata :=
    [⟨paTgsReqType, .apReq ⟨sampleLoginReply.ticket,
        ⟨10, tgsReqAuthenticator, .authenticator
          ⟨"EXAMPLE.COM", ⟨ntPrincipal, ["alice"]⟩, some 1001, none⟩⟩⟩⟩,
      ⟨paForUserType, .paForUser ⟨⟨ntPrincipal, ["administrator"]⟩, "EXAMPLE.COM",
        .aes 10 kerbNonKerbCksumSalt
          (s4uByteArray ⟨ntPrincipal, ["administrator"]⟩ "EXAMPLE.COM" "Kerberos"), "Kerberos"⟩⟩]
  sname := some ⟨ntPrincipal, ["host", "app.example.com"]⟩
  etype := [18]
  nonce := 8
  additionalTickets := []

def sampleReply : KdcRep Nat where
  crealm := "EXAMPLE.COM"
  cname := ⟨ntPrincipal, ["administrator"]⟩
  ticket := ⟨"EXAMPLE.COM", ⟨ntPrincipal, ["host", "app.example.com"]⟩, ⟨3, ticketRep, .encTicket
    { sampleTgt with
      key := 11
      cname := ⟨ntPrincipal, ["administrator"]⟩
      pac := some ⟨"administrator", "EXAMPLE.COM", 1001, 0, 513, [513], [21, 1, 2, 3]⟩ }⟩⟩
  encPart := ⟨10, tgsRepEncSessionKey, .encKdcRep ⟨11, 8, some 1000, some (some 1000), some 37000,
    "EXAMPLE.COM", ⟨ntPrincipal, ["host", "app.example.com"]⟩⟩⟩

def sampleAsk : Exchange Nat := ⟨.tgs sampleRequest, 1001 * nanos, 11⟩

def sampleLoggedIn : History Nat := ⟨[sampleLoginReply], [10], []⟩

def sampleHistory : History Nat :=
  ⟨[sampleReply, sampleLoginReply], [11, 10], [⟨sampleRequest, sampleReply, [sampleLoginReply]⟩]⟩

theorem sampleStore_keys {name : List String} {p : Principal Nat}
    (h : sampleStore.get Text.toAsciiLowercase name = some p) : p.key.key ∈ [1, 2, 3] := by
  obtain ⟨k, hk⟩ := PrincipalStore.mem_of_get _ h
  have all : ∀ e ∈ sampleStore.dynamic.entries ++ sampleStore.principals.entries,
      e.2.key.key ∈ [1, 2, 3] := by decide
  exact all _ hk

theorem sampleStore_fresh {s : History Nat} {k : Nat} (drawn : k ∉ s.sessionKeys) (h : 3 < k) :
    Fresh Text.toAsciiLowercase {1} sampleStore s k := by
  refine ⟨drawn, by simp only [Set.mem_singleton_iff]; omega, ?_⟩
  intro name p hp
  have := sampleStore_keys hp
  grind

theorem sampleLogin_step :
    Exchanged Text.toAsciiLowercase {1} sampleStore .start sampleLogin sampleLoggedIn := by
  have hreply : sampleLogin.answer Text.toAsciiLowercase sampleStore = .ok sampleLoginReply := by
    decide
  refine ⟨⟨?_, ?_⟩, sampleStore_fresh (by simp [History.start]) (by decide), ?_⟩
  · intro c hc
    obtain rfl : c = ⟨1, asReqTimestamp, .paEncTs (some 1000)⟩ := by
      simpa [Request.ciphers, Request.padata, Request.additionalTickets, sampleLogin,
        PaValue.ciphers] using hc
    exact .inr ⟨.own rfl, by simp [Plain.keys]⟩
  · simp [Request.checksumKeys, Request.padata, sampleLogin, PaValue.checksumKeys]
  · rw [History.after, hreply]
    rfl

theorem sampleAsk_step :
    Exchanged Text.toAsciiLowercase {1} sampleStore sampleLoggedIn sampleAsk sampleHistory := by
  have hreply : sampleAsk.answer Text.toAsciiLowercase sampleStore = .ok sampleReply := by decide
  -- the session key is in the reply part, which the user's own key opens
  have hkey : Knows Plain.keys {1} sampleLoggedIn.seen 10 :=
    .opened (c := sampleLoginReply.encPart) (by simp [History.seen, sampleLoggedIn]) (.own rfl)
      (by simp [sampleLoginReply, Plain.keys])
  refine ⟨⟨?_, ?_⟩, sampleStore_fresh (by decide) (by decide), ?_⟩
  · intro c hc
    simp only [Request.ciphers, Request.padata, Request.additionalTickets, sampleAsk, sampleRequest,
      List.flatMap_cons, List.flatMap_nil, PaValue.ciphers, List.map_nil, List.append_nil,
      List.mem_cons, List.not_mem_nil, or_false] at hc
    rcases hc with rfl | rfl
    · exact .inl (by simp [History.seen, sampleLoggedIn])
    · exact .inr ⟨hkey, by simp [Plain.keys]⟩
  · simpa [Request.checksumKeys, Request.padata, sampleAsk, sampleRequest, PaValue.checksumKeys]
      using hkey
  · rw [History.after, hreply]
    rfl

theorem sample_run :
    Run (Exchanged Text.toAsciiLowercase {1} sampleStore) .start [sampleLogin, sampleAsk]
      sampleHistory :=
  .cons sampleLogin_step (.cons sampleAsk_step (.nil _))

/-- A user obtains a ticket to a host that names another user. -/
theorem user_impersonates_administrator :
    Run (Exchanged Text.toAsciiLowercase {1} sampleStore) .start [sampleLogin, sampleAsk]
        sampleHistory ∧
      ¬ ∀ g ∈ sampleHistory.granted, Grant.Sound Text.toAsciiLowercase {1} sampleStore g := by
  refine ⟨sample_run, ?_⟩
  intro sound
  rcases sound _ (.head _) _ sampleTgt _ rfl rfl rfl (by decide) with hself | ⟨hdel, _⟩
  · exact absurd hself (by decide)
  · exact absurd hdel (by decide)

theorem impersonation_sound_iff_sample :
    (∀ g ∈ sampleHistory.granted, Grant.Sound Text.toAsciiLowercase {1} sampleStore g) ↔
      ∀ g ∈ sampleHistory.granted, SelfServed Text.toAsciiLowercase g.req :=
  impersonation_sound_iff sample_run

theorem lifetimes_kept_sample :
    ∃ login ∈ [sampleLogin], login.Dates Text.toAsciiLowercase sampleStore sampleReply.ticket ∧
      1001 * nanos < login.now + ticketLifetimeSecs * nanos := by
  have hkey : (sampleStore.krbtgt Text.toAsciiLowercase).map (·.key.key) = some 2 := by decide
  obtain ⟨krbtgt, hk, hkey⟩ := Option.map_eq_some_iff.mp hkey
  have secret : krbtgt.key.key ∉ ({1} : Set Nat) := by simp [hkey]
  exact lifetimes_kept hk secret sample_run (by decide)

end Sample

end Magnetite.Krb5
