import Magnetite.Krb5.Isolation
import Magnetite.Krb5.Obtain

/-!
# Revoking an account and registering it again

Over any sequence of edits of the principal store, an account that was removed obtains no TGT and is
no service, until a registration that ends the revocation. A ticket-granting request is not checked
for its client, so a TGT from before still serves; and not every registration ends a revocation.
-/
namespace Magnetite.Krb5

open Magnetite.Lib

section Revoked

variable {κ : Type} (lower : String → String)

/-- The lookup keys whose revocation an edit ends. -/
def StoreEdit.clears (realm : String) (edit : StoreEdit κ) : List String :=
  match edit with
  | .registerMachineKey .. | .registerUserIdentity .. => edit.keys lower realm
  | _ => []

/-- The store after some edits. -/
def edited (store : PrincipalStore κ) (edits : List (StoreEdit κ)) : PrincipalStore κ :=
  edits.foldl (StoreEdit.apply lower) store

variable {lower} {store : PrincipalStore κ} {edits : List (StoreEdit κ)} {edit : StoreEdit κ}

@[simp]
theorem realm_edited : (edited lower store edits).realm = store.realm := by
  induction edits generalizing store with
  | nil => rfl
  | cons e edits ih => exact ih.trans (StoreEdit.realm_apply lower store e)

/-- Removal revokes; what an edit clears is not revoked; all else stays. -/
theorem StoreEdit.mem_revoked_apply {k : String} :
    k ∈ (edit.apply lower store).revoked ↔
      (k ∈ store.revoked ∧ k ∉ edit.clears lower store.realm) ∨
        ∃ sam, edit = .removeDynamicPrincipal sam ∧ k ∈ accountKeys lower store.realm sam := by
  cases edit with
  | registerMachineKey sam key =>
    simp [StoreEdit.apply, StoreEdit.clears, StoreEdit.keys, StoreEdit.names,
      PrincipalStore.registerMachineKey]
  | registerUserIdentity sam key rid primary groups =>
    simp [StoreEdit.apply, StoreEdit.clears, StoreEdit.keys, StoreEdit.names,
      PrincipalStore.registerUserIdentity, and_comm]
  | removeDynamicPrincipal sam =>
    simp [StoreEdit.apply, StoreEdit.clears, PrincipalStore.removeDynamicPrincipal]
  | addKeyPrincipal | addUserPrincipal | setPassword | registerMachineUtf16 =>
    simp [StoreEdit.apply, StoreEdit.clears, PrincipalStore.addKeyPrincipal,
      PrincipalStore.addUserPrincipal, PrincipalStore.setPassword,
      PrincipalStore.registerMachineUtf16, PrincipalStore.insertMachine]

theorem mem_revoked_edited {k : String} (hk : k ∈ store.revoked)
    (hkept : ∀ e ∈ edits, k ∉ e.clears lower store.realm) :
    k ∈ (edited lower store edits).revoked := by
  induction edits generalizing store with
  | nil => exact hk
  | cons e edits ih =>
    rw [List.forall_mem_cons] at hkept
    refine ih (StoreEdit.mem_revoked_apply.mpr (.inl ⟨hk, hkept.1⟩)) ?_
    rw [StoreEdit.realm_apply]
    exact hkept.2

/-- From its removal to a registration that ends the revocation, an account is not found. -/
theorem get_removed {before after : List (StoreEdit κ)} {sam : String}
    (hafter : ∀ e ∈ after, ∀ k ∈ e.clears lower store.realm,
      k ∉ accountKeys lower store.realm sam) {name : List String}
    (hname : lookupKey lower name ∈ accountKeys lower store.realm sam) :
    (edited lower store (before ++ .removeDynamicPrincipal sam :: after)).get lower name = none := by
  apply PrincipalStore.get_eq_none_of_revoked
  have hsplit : edited lower store (before ++ .removeDynamicPrincipal sam :: after) =
      edited lower ((StoreEdit.removeDynamicPrincipal sam).apply lower (edited lower store before))
        after := by
    rw [edited, List.foldl_append, List.foldl_cons]
    rfl
  rw [hsplit]
  refine mem_revoked_edited (StoreEdit.mem_revoked_apply.mpr (.inr ⟨sam, rfl, ?_⟩)) ?_
  · rwa [realm_edited]
  · intro e he hk
    rw [StoreEdit.realm_apply, realm_edited] at hk
    exact hafter e he _ hk hname

end Revoked

section Tickets

variable {κ : Type} [DecidableEq κ] (lower : String → String)

/-- A request that presents a ticket of a client or asks in the name of one. -/
def TgsReq.Mentions (req : TgsReq κ) (name : List String) : Prop :=
  (∃ tgt, req.presented? = some tgt ∧ tgt.cname.nameString = name) ∨
  (∃ pfu, req.forUser? = some pfu ∧ pfu.userName.nameString = name) ∨
  ∃ addl ∈ req.additionalTickets, ∃ part, addl.encPart.plain = .encTicket part ∧
    part.cname.nameString = name

/-- No ticket is issued to a client of the name or for a service of the name, unless a request comes
with a ticket of the client or asks in its name. -/
structure NoTickets (store : PrincipalStore κ) (name : List String) : Prop where
  logon : ∀ now sessionKey req rep, handleAsReq lower store now sessionKey req = .ok rep →
    ∀ cname ∈ req.cname, cname.nameString ≠ name
  service : ∀ now sessionKey req rep, handleTgsReq lower store now sessionKey req = .ok rep →
    ∀ sname ∈ req.sname, sname.nameString ≠ name
  client : ∀ now sessionKey req rep part, handleTgsReq lower store now sessionKey req = .ok rep →
    ¬ req.Mentions name → rep.ticket.encPart.plain = .encTicket part → part.cname.nameString ≠ name

variable {lower} {store : PrincipalStore κ} {name : List String}

/-- The client of a service ticket is mentioned in the request. -/
theorem mentions_client {now : Nat} {sessionKey : κ} {req : TgsReq κ} {rep : KdcRep κ}
    (h : handleTgsReq lower store now sessionKey req = .ok rep) {part : EncTicketPart κ}
    (hpart : rep.ticket.encPart.plain = .encTicket part) : req.Mentions part.cname.nameString := by
  obtain ⟨sname, krbtgt, tgt, service, imp, part', repPart, -, -, htgt, -, -, himp, hrep, -, hclient,
    -⟩ := handleTgsReq_ok lower h
  obtain rfl : part' = part := by
    rw [hrep] at hpart
    simpa using hpart
  have hname := congrArg Prod.fst hclient
  rcases resolveImpersonation_ok lower himp with
    ⟨addl, p, addlPart, haddl, -, haddlPart, -, rfl⟩ | ⟨pfu, -, hpfu, -, rfl⟩ | ⟨-, -, rfl⟩
  · exact .inr (.inr ⟨addl, List.mem_of_head? haddl, addlPart, by rw [haddlPart], hname.symm⟩)
  · exact .inr (.inl ⟨pfu, hpfu, hname.symm⟩)
  · exact .inl ⟨tgt, by simp [TgsReq.presented?, htgt, Plain.encTicket?], hname.symm⟩

theorem NoTickets.of_not_found (h : store.get lower name = none) : NoTickets lower store name where
  logon now sessionKey req rep hrep cname hcname he := by
    obtain ⟨cname', client, -, -, hcname', hclient, -⟩ := handleAsReq_ok lower hrep
    obtain rfl := Option.some.inj (hcname.symm.trans hcname')
    simp [he, h] at hclient
  service now sessionKey req rep hrep sname hsname he := by
    obtain ⟨sname', -, -, service, -, -, -, hsname', -, -, -, hservice, -⟩ :=
      handleTgsReq_ok lower hrep
    obtain rfl := Option.some.inj (hsname.symm.trans hsname')
    simp [he, h] at hservice
  client now sessionKey req rep part hrep hmentions hpart he :=
    hmentions (he ▸ mentions_client hrep hpart)

/-- With the key of the client, a TGT and then a ticket to the service are obtained. -/
def Obtains (lower : String → String) (store : PrincipalStore κ) (client service : List String) :
    Prop :=
  ∃ key, ∀ now nonce sessionKey sessionKey', ∃ rep part rep',
    handleAsReq lower store now sessionKey (logon client key now nonce) = .ok rep ∧
    rep.ticket.encPart.plain = .encTicket part ∧
    handleTgsReq lower store now sessionKey' (serviceRequest rep.ticket part service now nonce) =
      .ok rep'

omit [DecidableEq κ] in
theorem notExpired_new {now : Nat} {part : EncTicketPart κ}
    (h : part.endtime = some (now / nanos + ticketLifetimeSecs)) : notExpired now part = true := by
  have hlt : now < (now / nanos + ticketLifetimeSecs) * nanos := by
    have hnanos : 0 < nanos := by decide
    have hlife : 1 ≤ ticketLifetimeSecs := by decide
    calc now < (now / nanos + 1) * nanos := Nat.lt_mul_of_div_lt (Nat.lt_succ_self _) hnanos
      _ ≤ (now / nanos + ticketLifetimeSecs) * nanos := by gcongr
  rw [notExpired, h, Option.any_some]
  exact decide_eq_true hlt

theorem Obtains.of_found {krbtgt : Principal κ} (serving : Serving lower store krbtgt)
    {client service : List String} (hclient : Encodable client) (hservice : Encodable service)
    (hc : (store.get lower client).isSome) (hs : (store.get lower service).isSome) :
    Obtains lower store client service := by
  obtain ⟨p, hp⟩ := Option.isSome_iff_exists.mp hc
  obtain ⟨q, hq⟩ := Option.isSome_iff_exists.mp hs
  refine ⟨p.key.key, fun now nonce sessionKey sessionKey' => ?_⟩
  obtain ⟨rep, part, hrep, htgt, -, hpart, hend⟩ :=
    handleAsReq_logon serving hclient hp now nonce sessionKey
  obtain ⟨hname, hrealm⟩ := Prod.mk.inj hpart
  obtain ⟨rep', hrep'⟩ := handleTgsReq_service serving hservice hq htgt (by rwa [hname])
    (by rw [hrealm]; exact serving.realm) (notExpired_new hend) nonce sessionKey'
  exact ⟨rep, part, rep', hrep, by rw [htgt], hrep'⟩

end Tickets

section Return

variable {κ : Type} (lower : String → String)

/-- An edit that registers an account. -/
def StoreEdit.Registers (sam : String) : StoreEdit κ → Prop
  | .addKeyPrincipal name _ | .setPassword name _ => name = [sam]
  | .addUserPrincipal name .. | .registerMachineUtf16 name _ | .registerMachineKey name _
  | .registerUserIdentity name .. => name = sam
  | .removeDynamicPrincipal _ => False

/-- Every name of the account was found before, or the edit registers it, and it is not revoked or
the edit ends the revocation. -/
def StoreEdit.Restores (store : PrincipalStore κ) (sam : String) (edit : StoreEdit κ) : Prop :=
  ∀ name ∈ accountNames lower store.realm sam, (store.get lower name).isSome ∨
    name ∈ edit.names lower store.realm ∧ (lookupKey lower name ∉ store.revoked ∨
      lookupKey lower name ∈ edit.clears lower store.realm)

variable {lower} {store : PrincipalStore κ} {sam : String} {edit : StoreEdit κ}

/-- Once it is registered so, an account is found under all its names. -/
theorem get_restored (hreg : edit.Registers sam) (hrestores : edit.Restores lower store sam)
    {name : List String} (hname : lookupKey lower name ∈ accountKeys lower store.realm sam) :
    ((edit.apply lower store).get lower name).isSome := by
  have hkeep : ∀ s, edit ≠ .removeDynamicPrincipal s := by
    rintro s rfl
    exact hreg
  have hfound {k : String} (hk : k ∈ edit.keys lower store.realm)
      (hlive : k ∉ store.revoked ∨ k ∈ edit.clears lower store.realm) :
      ((edit.apply lower store).lookupAt k).isSome := by
    refine PrincipalStore.lookupAt_isSome ?_ (StoreEdit.mem_apply hk hkeep)
    rw [StoreEdit.mem_revoked_apply]
    rintro (⟨hrevoked, hclear⟩ | ⟨s, he, -⟩)
    · exact hlive.elim (fun h => h hrevoked) hclear
    · exact hkeep s he
  rw [accountKeys_eq, List.mem_map] at hname
  obtain ⟨own, hown, he⟩ := hname
  rw [PrincipalStore.get_eq_lookupAt, ← he]
  rcases hrestores own hown with hget | ⟨hmem, hlive⟩
  · by_cases hk : lookupKey lower own ∈ edit.keys lower store.realm
    · refine hfound hk (.inl fun hrevoked => ?_)
      rw [PrincipalStore.get_eq_none_of_revoked lower hrevoked] at hget
      simp at hget
    · rw [StoreEdit.lookupAt_apply hk]
      exact hget
  · exact hfound (List.mem_map_of_mem hmem) hlive

/-- Over any sequence of edits: after an account is removed, and as long as no registration ends the
revocation of one of its names, no ticket is issued to it or for it, but for requests that come with
a ticket of it or ask in its name; and a registration that restores all its names makes tickets
obtainable under all of them. -/
theorem revocation_effective_reversible [DecidableEq κ] (store : PrincipalStore κ) (sam : String) :
    (∀ before after : List (StoreEdit κ),
      (∀ e ∈ after, ∀ k ∈ e.clears lower store.realm, k ∉ accountKeys lower store.realm sam) →
      ∀ name, lookupKey lower name ∈ accountKeys lower store.realm sam →
        NoTickets lower
          (edited lower store (before ++ .removeDynamicPrincipal sam :: after)) name) ∧
    ∀ (before : List (StoreEdit κ)) (edit : StoreEdit κ) (krbtgt : Principal κ),
      edit.Registers sam → edit.Restores lower (edited lower store before) sam →
      Serving lower (edited lower store before) krbtgt →
      lookupKey lower ["krbtgt", store.realm] ∉ edit.keys lower store.realm →
      ∀ client service, lookupKey lower client ∈ accountKeys lower store.realm sam →
        lookupKey lower service ∈ accountKeys lower store.realm sam →
        Encodable client → Encodable service →
        Obtains lower (edit.apply lower (edited lower store before)) client service := by
  constructor
  · intro before after hafter name hname
    exact .of_not_found (get_removed hafter hname)
  · intro before edit krbtgt hreg hrestores serving hother client service hclient hservice hec hes
    have hserving : Serving lower (edit.apply lower (edited lower store before)) krbtgt := by
      refine ⟨by simpa using serving.realm, serving.name, ?_⟩
      rw [← serving.found, PrincipalStore.krbtgt, PrincipalStore.krbtgt, StoreEdit.realm_apply,
        realm_edited, PrincipalStore.get_eq_lookupAt, PrincipalStore.get_eq_lookupAt]
      exact StoreEdit.lookupAt_apply (by rwa [realm_edited])
    exact .of_found hserving hec hes (get_restored hreg hrestores (by rwa [realm_edited]))
      (get_restored hreg hrestores (by rwa [realm_edited]))

end Return

section Sample

/-- A realm with a service. -/
def serviceStore : PrincipalStore Nat :=
  ((PrincipalStore.new "EXAMPLE.COM").addKeyPrincipal Text.toAsciiLowercase
    ["krbtgt", "EXAMPLE.COM"] 2).addKeyPrincipal Text.toAsciiLowercase ["host", "app.example.com"] 3

/-- The client that a granted ticket names. -/
def issuedTo (reply : Except Refusal (KdcRep Nat)) : Option (List String) :=
  (reply.toOption.bind (·.ticket.encPart.plain.encTicket?)).map (·.cname.nameString)

/-- The TGT of a user who logs on. -/
def earlierPart : EncTicketPart Nat where
  key := 10
  crealm := "EXAMPLE.COM"
  cname := ⟨ntPrincipal, ["alice"]⟩
  authTime := some 1000
  starttime := some (some 1000)
  endtime := some 37000
  pac := some ⟨"alice", "EXAMPLE.COM", 1000, ⟨1104, 513, [513], [21, 1, 2, 3]⟩⟩

def earlierTicket : Ticket Nat :=
  ⟨"EXAMPLE.COM", ⟨ntSrvInst, ["krbtgt", "EXAMPLE.COM"]⟩, ⟨2, ticketRep, .encTicket earlierPart⟩⟩

/-- A user logs on and is removed. With the TGT from before, a ticket to a service is issued all the
same; and a new password does not bring the user back. -/
theorem removed_user_served :
    let registered := edited Text.toAsciiLowercase serviceStore
      [.registerUserIdentity "alice" 1 1104 513 [513]]
    let removed := edited Text.toAsciiLowercase registered [.removeDynamicPrincipal "alice"]
    let again := edited Text.toAsciiLowercase removed [.setPassword ["alice"] 4]
    ((handleAsReq Text.toAsciiLowercase registered (1000 * nanos) 10
        (logon ["alice"] 1 (1000 * nanos) 7)).toOption.map (·.ticket) = some earlierTicket ∧
      issuedTo (handleTgsReq Text.toAsciiLowercase removed (1001 * nanos) 11
        (serviceRequest earlierTicket earlierPart ["host", "app.example.com"] (1001 * nanos) 8)) =
          some ["alice"]) ∧
    (∃ e ∈ [StoreEdit.setPassword ["alice"] 4], e.Registers "alice") ∧
    issuedTo (handleAsReq Text.toAsciiLowercase again (1002 * nanos) 12
      (logon ["alice"] 4 (1002 * nanos) 9)) = none :=
  ⟨by decide +kernel, ⟨_, .head _, rfl⟩, by decide +kernel⟩

/-- A computer that was removed is back under all its names once its key is registered. -/
theorem revocation_reversible_computer :
    let removed : List (StoreEdit Nat) :=
      [.registerMachineKey "WS1$" 5, .removeDynamicPrincipal "WS1$"]
    NoTickets Text.toAsciiLowercase (edited Text.toAsciiLowercase serviceStore removed)
        ["cifs", "ws1.example.com"] ∧
      Obtains Text.toAsciiLowercase
        ((StoreEdit.registerMachineKey "WS1$" 6).apply Text.toAsciiLowercase
          (edited Text.toAsciiLowercase serviceStore removed))
        ["WS1$"] ["cifs", "ws1.example.com"] := by
  have h := @revocation_effective_reversible Nat Text.toAsciiLowercase _ serviceStore "WS1$"
  constructor
  · exact h.1 [.registerMachineKey "WS1$" 5] [] (by simp) _ (by decide +kernel)
  · have serving : Serving Text.toAsciiLowercase (edited Text.toAsciiLowercase serviceStore
        [.registerMachineKey "WS1$" 5, .removeDynamicPrincipal "WS1$"])
        (.withDefaultIdentity ["krbtgt", "EXAMPLE.COM"] ⟨2, "EXAMPLE.COMkrbtgtEXAMPLE.COM"⟩) :=
      ⟨by decide +kernel, by decide, rfl⟩
    exact h.2 _ (.registerMachineKey "WS1$" 6) _ rfl
      (by unfold StoreEdit.Restores; decide +kernel) serving (by decide +kernel)
      _ _ (by decide +kernel) (by decide +kernel) (by decide) (by decide)

end Sample

end Magnetite.Krb5
